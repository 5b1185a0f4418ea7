import Mathlib.Data.Set.Basic
import MyWorkEnv.Conf.ConfFile

/-!
# Comments

A line that begins with `#` is skipped, but what is tested is the beginning of
what `fgets` gives, and of a line of 128 bytes or more that gives several pieces.
Those after the first are lines of their own to the parsers. So a text may have
just those comments, wherever they are, whose pieces all begin with `#` or have no
key in them.
-/

namespace MyWorkEnv

open ByteMemory CString FixedWidth Snprintf

/-- The first character is `#`. -/
def isComment (line : List UInt8) : Bool := line.head? == some 35

/-- The text without its comments. -/
def stripComments (text : List UInt8) : List UInt8 :=
  ((splitLines text).filter fun line => !isComment line).flatten

/-- What `fgets` makes of a text. -/
def confPieces (text : List UInt8) : List (List UInt8) :=
  fgetsAll sizeofLine one_lt_sizeofLine text

/-- The piece begins with `#`, or no key occurs in it. -/
def Inert (settings : List ConfSetting) (piece : List UInt8) : Prop :=
  isComment piece = true ∨ ∀ s ∈ settings, strstr piece s.key = none

variable {e : Endian} {settings : List ConfSetting} {conf conf' : Memory} {i : ℕ}
  {piece text : List UInt8} {lines before after : List (List UInt8)}

theorem findSetting_eq_none_iff :
    findSetting settings piece = none ↔ ∀ s ∈ settings, strstr piece s.key = none := by
  rw [findSetting, List.findSome?_eq_none_iff]
  simp only [Option.map_eq_none_iff]

theorem confLine_of_inert (h : Inert settings piece) :
    confLine e settings piece conf = ⟨mySuccess, conf, []⟩ := by
  unfold confLine
  rcases h with hcomment | hnone
  · rw [if_pos (beq_iff_eq.mp hcomment)]
  · split_ifs
    · rfl
    · rw [findSetting_eq_none_iff.mpr hnone]

/-- Any other piece has a byte that does not keep anything of what it was. -/
theorem confLine_overwrites (h : ¬ Inert settings piece) :
    ∃ i, ∀ conf conf' : Memory,
      (confLine e settings piece conf).conf i = (confLine e settings piece conf').conf i := by
  obtain ⟨hcomment, hsome⟩ := not_or.mp h
  rw [← findSetting_eq_none_iff] at hsome
  obtain ⟨found, hfound⟩ := Option.ne_none_iff_exists'.mp hsome
  obtain ⟨i, hi⟩ := found.1.apply_overwrites (e := e) found.2
  refine ⟨i, fun conf conf' => ?_⟩
  have hbranch : ∀ m : Memory, confLine e settings piece m = found.1.apply e found.2 m := by
    intro m
    have hhead : ¬ piece.head? = some 35 := fun heq => hcomment (beq_iff_eq.mpr heq)
    rw [confLine, if_neg hhead, hfound]
  rw [hbranch, hbranch]
  exact hi conf conf'

/-! ## The loop -/

theorem confLoop_append : confLoop e settings (before ++ after) conf =
    if (confLoop e settings before conf).1 ≠ mySuccess then confLoop e settings before conf
    else confLoop e settings after (confLoop e settings before conf).2 := by
  induction before generalizing conf with
  | nil => exact (if_neg (not_not_intro rfl)).symm
  | cons piece before ih =>
      rw [List.cons_append, confLoop, confLoop]
      by_cases hstop : (confLine e settings piece conf).ret ≠ mySuccess
      · simp only [if_pos hstop]
      · simp only [if_neg hstop, ih]

theorem confLoop_of_inert (h : ∀ piece ∈ before, Inert settings piece) :
    confLoop e settings (before ++ after) conf = confLoop e settings after conf := by
  induction before with
  | nil => rfl
  | cons piece before ih =>
      obtain ⟨hpiece, hbefore⟩ := List.forall_mem_cons.mp h
      rw [List.cons_append, confLoop, confLine_of_inert hpiece]
      exact ih hbefore

/-- Nor has the loop kept anything of that byte, if it comes to its end. -/
theorem confLoop_overwrites (h : ∃ piece ∈ lines, ¬ Inert settings piece) :
    ∃ i, ∀ conf conf' : Memory, (confLoop e settings lines conf).1 = mySuccess →
      (confLoop e settings lines conf').1 = mySuccess →
      (confLoop e settings lines conf).2 i = (confLoop e settings lines conf').2 i := by
  induction lines with
  | nil =>
      obtain ⟨piece, hmem, -⟩ := h
      cases hmem
  | cons first lines ih =>
      by_cases hfirst : Inert settings first
      · have hrest : ∃ piece ∈ lines, ¬ Inert settings piece := by
          obtain ⟨piece, hmem, hsets⟩ := h
          rcases List.mem_cons.mp hmem with rfl | hmem
          · exact absurd hfirst hsets
          · exact ⟨piece, hmem, hsets⟩
        obtain ⟨i, hi⟩ := ih hrest
        refine ⟨i, fun conf conf' => ?_⟩
        rw [confLoop, confLine_of_inert hfirst, confLoop, confLine_of_inert hfirst]
        exact hi conf conf'
      · obtain ⟨i, hi⟩ := confLine_overwrites (e := e) hfirst
        refine ⟨i, fun conf conf' hret hret' => ?_⟩
        have hrun := confLoop_cons hret
        have hrun' := confLoop_cons hret'
        rw [hrun] at hret ⊢
        rw [hrun'] at hret' ⊢
        exact confLoop_congr (hi conf conf') hret hret'

/-! ## Texts with comments -/

theorem confPieces_eq (text : List UInt8) :
    confPieces text = (splitLines text).flatMap confPieces := by
  have hlines := fgetsAll_flatten one_lt_sizeofLine (lineList_splitLines text)
  rwa [flatten_splitLines] at hlines

theorem confPieces_strip (text : List UInt8) : confPieces (stripComments text) =
    ((splitLines text).filter fun line => !isComment line).flatMap confPieces :=
  fgetsAll_flatten one_lt_sizeofLine ((lineList_splitLines text).filter _)

/-- Lines may be left out whose pieces are all inert. -/
theorem confLoop_filter
    (h : ∀ line ∈ lines, isComment line = true → ∀ piece ∈ confPieces line, Inert settings piece)
    (conf : Memory) :
    confLoop e settings (lines.flatMap confPieces) conf =
      confLoop e settings ((lines.filter fun line => !isComment line).flatMap confPieces) conf := by
  induction lines generalizing conf with
  | nil => rfl
  | cons line lines ih =>
      obtain ⟨hline, hlines⟩ := List.forall_mem_cons.mp h
      have hrest := ih hlines
      rw [List.flatMap_cons, List.filter_cons]
      cases hcomment : isComment line with
      | true =>
          rw [confLoop_of_inert (hline hcomment), hrest]
          rfl
      | false =>
          rw [Bool.not_false, if_pos rfl, List.flatMap_cons, confLoop_append, confLoop_append]
          simp only [hrest]

/-- All pieces of the line are inert. -/
def ConfParser.Ignores (p : ConfParser) (line : List UInt8) : Prop :=
  ∀ piece ∈ confPieces line, Inert p.settings piece

theorem parse_some (p : ConfParser) (text : List UInt8) (conf : Memory) :
    p.parse e (some text) conf = confLoop e p.settings (confPieces text) conf := by
  rw [p.parse_eq]
  rfl

theorem stripComments_line {line : List UInt8} (hline : IsLine line)
    (hcomment : isComment line = true) :
    splitLines line = [line] ∧ stripComments line = [] := by
  have hsplit : splitLines line = [line] := by
    have hflatten := splitLines_flatten hline
    rwa [List.flatten_singleton] at hflatten
  refine ⟨hsplit, ?_⟩
  rw [stripComments, hsplit, List.filter_singleton, hcomment]
  rfl

/-- **The comments that a text may have without changing what is parsed**: those that are
ignored in all their pieces. -/
theorem comments_ignored_iff (e : Endian) (p : ConfParser) (allowed : Set (List UInt8)) :
    (∀ text, (∀ line ∈ splitLines text, isComment line = true → line ∈ allowed) →
        ∀ conf, p.parse e (some text) conf = p.parse e (some (stripComments text)) conf) ↔
      ∀ line ∈ allowed, IsLine line → isComment line = true → p.Ignores line := by
  constructor
  · intro h line hmem hline hcomment
    obtain ⟨hsplit, hstrip⟩ := stripComments_line hline hcomment
    have hallowed : ∀ l ∈ splitLines line, isComment l = true → l ∈ allowed := by
      intro l hl _
      rw [hsplit] at hl
      rwa [List.mem_singleton.mp hl]
    have hsame : ∀ conf, confLoop e p.settings (confPieces line) conf = (mySuccess, conf) := by
      intro conf
      have hnothing : confPieces [] = [] := fgetsAll_nil one_lt_sizeofLine
      have hparse := h line hallowed conf
      rwa [parse_some, parse_some, hstrip, hnothing] at hparse
    by_contra hnot
    have hsets : ∃ piece ∈ confPieces line, ¬ Inert p.settings piece := by
      simpa only [ConfParser.Ignores, not_forall, exists_prop] using hnot
    -- a structure of zeros and one of ones would end up with the same byte
    obtain ⟨i, hi⟩ := confLoop_overwrites (e := e) hsets
    have hbyte := hi (fun _ => 0) (fun _ => 1) (by rw [hsame]) (by rw [hsame])
    rw [hsame, hsame] at hbyte
    have hdiffer : (0 : UInt8) ≠ 1 := by decide
    exact hdiffer hbyte
  · intro h text hallowed conf
    rw [parse_some, parse_some, confPieces_strip, confPieces_eq]
    refine confLoop_filter ?_ conf
    intro line hmem hcomment
    exact h line (hallowed line hmem hcomment) ((lineList_splitLines text).isLine hmem) hcomment

/-- A comment that fits into `line` is ignored. -/
theorem ignores_of_short (p : ConfParser) {line : List UInt8} (hline : IsLine line)
    (hcomment : isComment line = true) (hlen : line.length < sizeofLine) : p.Ignores line := by
  intro piece hpiece
  rw [confPieces, fgetsAll_short one_lt_sizeofLine hline hlen] at hpiece
  obtain rfl := List.mem_singleton.mp hpiece
  exact .inl hcomment

/-! ## A comment that is not ignored -/

/-- 127 bytes of a comment. -/
def longComment : List UInt8 := 35 :: List.replicate 126 97

/-- The setting behind them. -/
def commentedOut : List UInt8 := str "LogMaxNum=5" ++ [newline]

/-- The rest of the comment is a piece of its own. -/
theorem confPieces_longComment : confPieces (longComment ++ commentedOut) =
    [longComment, commentedOut] := by
  have hnewline : newline ∉ longComment := by decide
  have hlength : longComment.length = sizeofLine - 1 := by decide +kernel
  have hne : longComment ++ commentedOut ≠ [] := List.cons_ne_nil _ _
  have hfirst : fgetsLine (sizeofLine - 1) (longComment ++ commentedOut) = longComment := by
    rw [fgetsLine_long hnewline hlength.ge, List.take_of_length_le hlength.le]
  have hrest : IsLine commentedOut := .cons (by decide) .nil
  rw [confPieces, fgetsAll_cons one_lt_sizeofLine hne, hfirst, List.drop_left,
    fgetsAll_short one_lt_sizeofLine hrest (by decide)]

/-- `LogMaxNum` is set all the same. -/
theorem comment_sets :
    (serverParseConf .little (some (longComment ++ commentedOut)) (fun _ => 0)).2 72 = 5 ∧
      (serverParseConf .little (some (stripComments (longComment ++ commentedOut)))
        (fun _ => 0)).2 72 = 0 := by
  have hline : IsLine (longComment ++ commentedOut) := by
    have hcons : IsLine ((longComment ++ str "LogMaxNum=5") ++ [newline]) :=
      .cons (by decide) .nil
    rwa [List.append_assoc] at hcons
  have hnothing : confPieces [] = [] := fgetsAll_nil one_lt_sizeofLine
  have hset := parse_some (e := .little) .server (longComment ++ commentedOut) fun _ => 0
  have hstripped := parse_some (e := .little) .server
    (stripComments (longComment ++ commentedOut)) fun _ => 0
  rw [confPieces_longComment] at hset
  rw [(stripComments_line hline rfl).2, hnothing] at hstripped
  change serverParseConf .little _ _ = _ at hset
  constructor
  · rw [hset]
    decide
  · rw [(stripComments_line hline rfl).2]
    exact congrArg (fun r => r.2 72) hstripped

end MyWorkEnv
