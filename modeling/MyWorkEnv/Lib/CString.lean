import Mathlib.Data.List.Basic
import Mathlib.Data.List.TakeWhile
import Mathlib.Tactic

/-!
# C strings and lines

A `char *` names the bytes before the first NUL (`cStr`), and a line is what
one `fgets` takes from a stream. `copyWhile` is the loop that moves
characters into a buffer while they qualify and there is room. The character
classes are those of the C locale.
-/

namespace CString

abbrev newline : UInt8 := 10

/-- The bytes of ASCII text. -/
def ascii (text : List Char) : List UInt8 := text.map fun c => .ofNat c.toNat

/-- The C string at the start of these bytes, without its terminator. -/
def cStr (bs : List UInt8) : List UInt8 := bs.takeWhile (· != 0)

def isspace (c : UInt8) : Bool := c == 32 || (decide (9 ≤ c) && decide (c ≤ 13))

def tolower (c : UInt8) : UInt8 := if 65 ≤ c ∧ c ≤ 90 then c + 32 else c

/-- `strcasecmp(a, b) == 0` -/
def strcasecmpEq (a b : List UInt8) : Bool := (cStr a).map tolower == (cStr b).map tolower

/-- `strcasestr(haystack, needle) != NULL` -/
def strcasestr (haystack needle : List UInt8) : Bool :=
  ((cStr haystack).map tolower).tails.any ((cStr needle).map tolower).isPrefixOf

/-- `strchr(s, c)`, as the string that begins there; `none` for `NULL`. -/
def strchr (s : List UInt8) (c : UInt8) : Option (List UInt8) :=
  match (cStr s).dropWhile (· != c) with
  | [] => none
  | rest => some rest

/-- `strstr(s, needle)`, as the string that begins there; `none` for `NULL`. -/
def strstr (s needle : List UInt8) : Option (List UInt8) :=
  (cStr s).tails.find? (cStr needle).isPrefixOf

/-- The number that the digits in front spell, after `n`. -/
def digits (n : ℕ) : List UInt8 → ℕ
  | [] => n
  | c :: rest => if 48 ≤ c ∧ c ≤ 57 then digits (10 * n + (c.toNat - 48)) rest else n

/-- The number that a string begins with, of any size. -/
def number (s : List UInt8) : ℤ :=
  match (cStr s).dropWhile isspace with
  | 45 :: rest => -digits 0 rest
  | 43 :: rest => digits 0 rest
  | rest => digits 0 rest

/-- `strtol(s, NULL, 10)`: a number beyond the range of `long` gives its nearest end. -/
def strtol (s : List UInt8) : ℤ := max (-2 ^ 63) (min (number s) (2 ^ 63 - 1))

/-- `(int)strtol(s, NULL, 10)` -/
def atoi (s : List UInt8) : ℤ := (BitVec.ofInt 32 (strtol s)).toInt

/-- What `snprintf(buf, size, "%s", s)` puts in front of the terminator. -/
def snprintfStr (size : ℕ) (s : List UInt8) : List UInt8 := s.take (size - 1)

theorem cStr_of_not_mem {bs : List UInt8} (h : 0 ∉ bs) : cStr bs = bs := by
  rw [cStr, List.takeWhile_eq_self_iff]
  intro b hb
  simp only [bne_iff_ne, ne_eq]
  rintro rfl
  exact h hb

theorem zero_notMem_cStr (bs : List UInt8) : 0 ∉ cStr bs := by
  intro hmem
  have hne := List.mem_takeWhile_imp hmem
  simp at hne

theorem atoi_congr {s t : List UInt8} (h : number s = number t) : atoi s = atoi t := by
  rw [atoi, atoi, strtol, strtol, h]

/-- A number that is an `int` is read as it is. -/
theorem atoi_eq_number {s : List UInt8} (hlow : -2 ^ 31 ≤ number s) (hhigh : number s < 2 ^ 31) :
    atoi s = number s := by
  have hlong : strtol s = number s := by
    rw [strtol]
    omega
  rw [atoi, hlong, BitVec.toInt_ofInt]
  exact Int.bmod_eq_of_le (by omega) (by omega)

/-- A string printed into a buffer is a string. -/
theorem cStr_snprintfStr (size : ℕ) {s : List UInt8} (h : 0 ∉ s) :
    cStr (snprintfStr size s) = snprintfStr size s :=
  cStr_of_not_mem fun hmem => h (List.mem_of_mem_take hmem)

theorem cStr_append_zero {bs : List UInt8} (h : 0 ∉ bs) (rest : List UInt8) :
    cStr (bs ++ 0 :: rest) = bs := by
  have hbs : ∀ b ∈ bs, (b != 0) = true := by
    intro b hb
    simp only [bne_iff_ne, ne_eq]
    rintro rfl
    exact h hb
  rw [cStr, List.takeWhile_append_of_pos hbs, List.takeWhile_cons_of_neg (by simp),
    List.append_nil]

theorem strcasestr_iff {haystack needle : List UInt8} : strcasestr haystack needle = true ↔
    (cStr needle).map tolower <:+: (cStr haystack).map tolower := by
  rw [strcasestr, List.any_eq_true, List.infix_iff_prefix_suffix]
  simp only [List.mem_tails, List.isPrefixOf_iff_prefix]
  exact exists_congr fun t => and_comm

/-- A longer needle is not in there. -/
theorem strcasestr_of_length_lt {haystack needle : List UInt8}
    (h : (cStr haystack).length < (cStr needle).length) : strcasestr haystack needle = false := by
  rw [Bool.eq_false_iff, ne_eq, strcasestr_iff]
  intro hinfix
  have hle := hinfix.length_le
  simp only [List.length_map] at hle
  omega

/-- A text that starts with the needle. -/
theorem strcasestr_of_startsWith {haystack needle rest : List UInt8}
    (h : cStr haystack = cStr needle ++ rest) : strcasestr haystack needle = true := by
  rw [strcasestr_iff, h, List.map_append]
  exact List.infix_append' [] _ _

/-- The search looks at the needle as `strcasecmp` does. -/
theorem strcasestr_congr {a b : List UInt8} (h : strcasecmpEq a b = true)
    (haystack : List UInt8) : strcasestr haystack a = strcasestr haystack b := by
  rw [strcasecmpEq, beq_iff_eq] at h
  rw [strcasestr, strcasestr, h]

/-- It looks at the text that way, too. -/
theorem strcasestr_congr_left {a b : List UInt8} (h : strcasecmpEq a b = true)
    (needle : List UInt8) : strcasestr a needle = strcasestr b needle := by
  rw [strcasecmpEq, beq_iff_eq] at h
  rw [strcasestr, strcasestr, h]

/-- Characters that the needle does not have end the search. -/
theorem strcasestr_append {a rest needle : List UInt8} (ha : 0 ∉ a) (hrest : 0 ∉ rest)
    (hne : cStr needle ≠ []) (hforeign : ∀ c ∈ cStr needle, tolower c ∉ rest.map tolower) :
    strcasestr (a ++ rest) needle = strcasestr a needle := by
  have hall : 0 ∉ a ++ rest := by
    rw [List.mem_append, not_or]
    exact ⟨ha, hrest⟩
  rw [Bool.eq_iff_iff, strcasestr_iff, strcasestr_iff, cStr_of_not_mem hall, cStr_of_not_mem ha,
    List.map_append, List.infix_append_iff]
  refine ⟨?_, .inl⟩
  rintro (hinside | hinside | ⟨front, back, hsplit, hfront, hback⟩)
  · exact hinside
  · obtain ⟨c, hc⟩ := List.exists_mem_of_ne_nil _ hne
    exact absurd (hinside.subset (List.mem_map_of_mem hc)) (hforeign c hc)
  · have hnil : back = [] := by
      rw [List.eq_nil_iff_forall_not_mem]
      intro d hd
      have hneedle : d ∈ (cStr needle).map tolower := by
        rw [hsplit]
        exact List.mem_append_right _ hd
      obtain ⟨c, hc, rfl⟩ := List.mem_map.mp hneedle
      exact hforeign c hc (hback.subset hd)
    rw [hsplit, hnil, List.append_nil]
    exact hfront.isInfix

/-- The first one is found. -/
theorem strchr_append {a rest : List UInt8} {c : UInt8} (ha : 0 ∉ a) (hrest : 0 ∉ rest)
    (hc : c ≠ 0) (hca : c ∉ a) : strchr (a ++ c :: rest) c = some (c :: rest) := by
  have hall : 0 ∉ a ++ c :: rest := by
    rw [List.mem_append, List.mem_cons, not_or, not_or]
    exact ⟨ha, hc.symm, hrest⟩
  have hskip : ∀ b ∈ a, (b != c) = true := by
    intro b hb
    rw [bne_iff_ne]
    rintro rfl
    exact hca hb
  rw [strchr, cStr_of_not_mem hall, List.dropWhile_append_of_pos hskip,
    List.dropWhile_cons_of_neg (by simp)]

theorem strstr_eq_none_iff {s needle : List UInt8} :
    strstr s needle = none ↔ ¬ cStr needle <:+: cStr s := by
  rw [strstr, List.find?_eq_none, List.infix_iff_prefix_suffix, not_exists]
  simp only [List.mem_tails, List.isPrefixOf_iff_prefix]
  exact forall_congr' fun t => ⟨fun h hboth => h hboth.2 hboth.1, fun h hs hp => h ⟨hp, hs⟩⟩

/-- A string that starts with the needle. -/
theorem strstr_of_startsWith {s needle rest : List UInt8} (h : cStr s = cStr needle ++ rest) :
    strstr s needle = some (cStr s) := by
  have hprefix : (cStr needle).isPrefixOf (cStr s) = true := by
    rw [List.isPrefixOf_iff_prefix, h]
    exact List.prefix_append _ _
  have htails : (cStr s).tails = cStr s :: (cStr s).tails.tail := by
    cases cStr s with
    | nil => rfl
    | cons c cs => rfl
  rw [strstr, htails, List.find?_cons, hprefix]

/-! ## `fgets` -/

/-- At most `room` bytes, up to the first newline and with it. -/
def fgetsLine : ℕ → List UInt8 → List UInt8
  | 0, _ => []
  | _ + 1, [] => []
  | room + 1, c :: rest => if c = newline then [c] else c :: fgetsLine room rest

/-- `fgets(buf, size, stream)`: what is put in front of the terminator, and what is left on
the stream; `none` for `NULL`, when there is nothing more to read. -/
def fgets (size : ℕ) (stream : List UInt8) : Option (List UInt8 × List UInt8) :=
  if stream = [] then none
  else
    let line := fgetsLine (size - 1) stream
    some (line, stream.drop line.length)

theorem length_fgetsLine_le (room : ℕ) (stream : List UInt8) :
    (fgetsLine room stream).length ≤ room := by
  induction room generalizing stream with
  | zero => simp [fgetsLine]
  | succ room ih =>
      cases stream with
      | nil => simp [fgetsLine]
      | cons c rest =>
          have hrest := ih rest
          rw [fgetsLine]
          split_ifs
          · simp
          · simp only [List.length_cons]
            omega

theorem fgetsLine_startsWith (room : ℕ) (stream : List UInt8) :
    fgetsLine room stream <+: stream := by
  induction room generalizing stream with
  | zero => exact List.nil_prefix
  | succ room ih =>
      cases stream with
      | nil => exact List.nil_prefix
      | cons c rest =>
          rw [fgetsLine]
          split_ifs
          · exact ⟨rest, rfl⟩
          · exact List.prefix_cons_inj c |>.mpr (ih rest)

theorem fgetsLine_ne_nil {room : ℕ} (hroom : 0 < room) {stream : List UInt8}
    (h : stream ≠ []) : fgetsLine room stream ≠ [] := by
  cases room with
  | zero => omega
  | succ room =>
      cases stream with
      | nil => exact absurd rfl h
      | cons c rest =>
          rw [fgetsLine]
          split_ifs <;> simp

/-- A line that fits is read with its newline. -/
theorem fgetsLine_line {room : ℕ} {line : List UInt8} (hline : newline ∉ line)
    (hroom : line.length < room) (later : List UInt8) :
    fgetsLine room (line ++ newline :: later) = line ++ [newline] := by
  induction line generalizing room with
  | nil =>
      cases room with
      | zero => simp at hroom
      | succ room => simp [fgetsLine]
  | cons c line ih =>
      cases room with
      | zero => simp at hroom
      | succ room =>
          have hc : c ≠ newline := fun h => hline (by simp [h])
          have hline' : newline ∉ line := fun h => hline (List.mem_cons_of_mem c h)
          have hroom' : line.length < room := by simpa using hroom
          rw [List.cons_append, fgetsLine, if_neg hc, ih hline' hroom', List.cons_append]

/-- A line that does not fit is cut off before its newline. -/
theorem fgetsLine_long {room : ℕ} {line : List UInt8} (hline : newline ∉ line)
    (hroom : room ≤ line.length) (later : List UInt8) :
    fgetsLine room (line ++ later) = line.take room := by
  induction line generalizing room with
  | nil =>
      have hzero : room = 0 := by simpa using hroom
      rw [hzero]
      rfl
  | cons c line ih =>
      cases room with
      | zero => rfl
      | succ room =>
          have hc : c ≠ newline := fun h => hline (by simp [h])
          have hline' : newline ∉ line := fun h => hline (List.mem_cons_of_mem c h)
          have hroom' : room ≤ line.length := by simpa using hroom
          rw [List.cons_append, fgetsLine, if_neg hc, ih hline' hroom', List.take_succ_cons]

/-- The rest of a text is read whole if it fits and has no newline. -/
theorem fgetsLine_unended {room : ℕ} {line : List UInt8} (hline : newline ∉ line)
    (hroom : line.length ≤ room) : fgetsLine room line = line := by
  induction line generalizing room with
  | nil => cases room <;> rfl
  | cons c line ih =>
      cases room with
      | zero => simp at hroom
      | succ room =>
          rw [List.mem_cons, not_or] at hline
          rw [fgetsLine, if_neg (Ne.symm hline.1), ih hline.2 (Nat.le_of_succ_le_succ hroom)]

/-- A line of text that fits is the string in the buffer, newline and all. -/
theorem cStr_fgetsLine_line {room : ℕ} {line : List UInt8} (htext : 0 ∉ line)
    (hline : newline ∉ line) (hroom : line.length < room) (later : List UInt8) :
    cStr (fgetsLine room (line ++ newline :: later)) = line ++ [newline] := by
  rw [fgetsLine_line hline hroom]
  refine cStr_of_not_mem ?_
  rw [List.mem_append, not_or]
  exact ⟨htext, by decide⟩

theorem newline_not_mem_of_long {room : ℕ} {line : List UInt8} (hline : newline ∉ line)
    (hroom : room ≤ line.length) (later : List UInt8) :
    newline ∉ cStr (fgetsLine room (line ++ later)) := by
  rw [fgetsLine_long hline hroom]
  intro hmem
  have htake := (List.takeWhile_prefix (· != 0)).subset hmem
  exact hline (List.mem_of_mem_take htake)

/-- What stands before the newline. -/
theorem takeWhile_line {line : List UInt8} (hline : newline ∉ line) :
    (line ++ [newline]).takeWhile (· != newline) = line := by
  have hall : ∀ b ∈ line, (b != newline) = true := by
    intro b hb
    simp only [bne_iff_ne, ne_eq]
    rintro rfl
    exact hline hb
  rw [List.takeWhile_append_of_pos hall, List.takeWhile_cons_of_neg (by simp), List.append_nil]

theorem fgets_eq_none_iff {size : ℕ} {stream : List UInt8} :
    fgets size stream = none ↔ stream = [] := by
  unfold fgets
  split_ifs with h <;> simp [h]

/-- What a line and the rest make up. -/
structure Reads (size : ℕ) (stream line rest : List UInt8) : Prop where
  append : stream = line ++ rest
  ne_nil : line ≠ []
  length_lt : line.length < size

theorem reads_of_fgets {size : ℕ} (hsize : 1 < size) {stream line rest : List UInt8}
    (h : fgets size stream = some (line, rest)) : Reads size stream line rest := by
  unfold fgets at h
  split_ifs at h with hnil
  simp only [Option.some.injEq, Prod.mk.injEq] at h
  obtain ⟨rfl, rfl⟩ := h
  have hle := length_fgetsLine_le (size - 1) stream
  refine ⟨?_, fgetsLine_ne_nil (by omega) hnil, by omega⟩
  have htake := List.prefix_iff_eq_take.mp (fgetsLine_startsWith (size - 1) stream)
  conv_lhs => rw [← List.take_append_drop (fgetsLine (size - 1) stream).length stream]
  rw [← htake]

theorem Reads.length_rest_lt {size : ℕ} {stream line rest : List UInt8}
    (h : Reads size stream line rest) : rest.length < stream.length := by
  have hpos := List.length_pos_iff.mpr h.ne_nil
  rw [h.append, List.length_append]
  omega

theorem Reads.not_mem_rest {size : ℕ} {stream line rest : List UInt8} {b : UInt8}
    (h : Reads size stream line rest) (hb : b ∉ stream) : b ∉ rest := by
  intro hmem
  rw [h.append] at hb
  exact hb (List.mem_append_right _ hmem)

/-- Of a text the whole line is the string in the buffer. -/
theorem Reads.cStr_line {size : ℕ} {stream line rest : List UInt8}
    (h : Reads size stream line rest) (hnul : 0 ∉ stream) : cStr line = line := by
  apply cStr_of_not_mem
  intro hmem
  rw [h.append] at hnul
  exact hnul (List.mem_append_left _ hmem)

/-! ## Copying into a buffer -/

/-- `while (p(*src) && room) *dst++ = *src++`: what was copied, and what is left of the
source. -/
def copyWhile (p : UInt8 → Bool) : ℕ → List UInt8 → List UInt8 × List UInt8
  | 0, src => ([], src)
  | _ + 1, [] => ([], [])
  | room + 1, c :: src =>
      if p c then
        let (copied, rest) := copyWhile p room src
        (c :: copied, rest)
      else ([], c :: src)

/-- A word that fits is copied whole, and the loop stops behind it. -/
theorem copyWhile_word {p : UInt8 → Bool} {room : ℕ} {word : List UInt8}
    (hword : ∀ c ∈ word, p c = true) (hroom : word.length < room) {c : UInt8}
    (hc : p c = false) (rest : List UInt8) :
    copyWhile p room (word ++ c :: rest) = (word, c :: rest) := by
  induction word generalizing room with
  | nil =>
      cases room with
      | zero => simp at hroom
      | succ room => simp [copyWhile, hc]
  | cons d word ih =>
      cases room with
      | zero => simp at hroom
      | succ room =>
          have hroom' : word.length < room := by simpa using hroom
          have hword' : ∀ c ∈ word, p c = true :=
            fun c h => hword c (List.mem_cons_of_mem d h)
          simp only [List.cons_append, copyWhile, hword d (by simp), if_true, ih hword' hroom']

/-- With nothing to stop it, the loop fills the buffer. -/
theorem copyWhile_true (room : ℕ) (src : List UInt8) :
    copyWhile (fun _ => true) room src = (src.take room, src.drop room) := by
  induction room generalizing src with
  | zero => simp [copyWhile]
  | succ room ih =>
      cases src with
      | nil => simp [copyWhile]
      | cons c src => simp [copyWhile, ih]

end CString
