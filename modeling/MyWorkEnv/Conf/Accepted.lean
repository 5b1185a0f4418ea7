import MyWorkEnv.Conf.RoundTrip

/-!
# What an accepted file leaves

Any file, with keys and values as they come. It is accepted if and only if every
piece that sets something passes the test of its setting, whatever the structure
held. Then each field has passed its own test, or is what it was: no line can
spoil the setting of another, unless a text is longer than its field.
-/

namespace MyWorkEnv

open ByteMemory CString FixedWidth Snprintf

namespace ConfValue

/-- The test of what is stored. -/
def Passes : ConfValue → List UInt8 → Prop
  | .int _ _ none, _ => True
  | .int _ scale (some test), text => test (BitVec.ofInt 32 (atoi text * scale)).toInt = true
  | .string _ refuses, text => refuses (cStr text).length = false

/-- What the test is to keep out is not in the field. -/
def Good (e : Endian) (conf : Memory) : ConfValue → Prop
  | .int _ _ none => True
  | .int pos _ (some test) => test (loadInt e pos conf) = true
  | .string pos _ => Terminated conf pos 64

end ConfValue

namespace ConfParser

/-- What the piece sets, and what is behind the key. -/
def Sets (p : ConfParser) (piece : List UInt8) (value : ConfValue) (text : List UInt8) : Prop :=
  isComment piece = false ∧ findSetting p.settings piece = some (value, text)

/-- No string is longer than its field. -/
def Fits (p : ConfParser) (text : List UInt8) : Prop :=
  ∀ piece ∈ confPieces text, ∀ value behind, p.Sets piece value behind →
    value.isString = true → behind.length ≤ 64

end ConfParser

variable {e : Endian} {p : ConfParser} {s t : ConfSetting} {conf conf₀ : Memory}
  {value : ConfValue} {text behind piece : List UInt8} {pieces : List (List UInt8)}

/-! ## Pieces -/

theorem strstr_nul {line key ptr : List UInt8} (h : strstr line key = some ptr) : 0 ∉ ptr := by
  have hsuffix : ptr <:+ cStr line := (List.mem_tails _ _).mp (List.mem_of_find?_eq_some h)
  exact fun hmem => zero_notMem_cStr line (hsuffix.subset hmem)

/-- What is set is a setting, and what is behind its key is a string. -/
theorem ConfParser.Sets.setting (h : p.Sets piece value behind) :
    (∃ s ∈ p.settings, s.value = value) ∧ cStr behind = behind := by
  obtain ⟨s, hs, hsome⟩ := List.exists_of_findSome?_eq_some h.2
  obtain ⟨ptr, hptr, heq⟩ := Option.map_eq_some_iff.mp hsome
  obtain ⟨rfl, rfl⟩ := Prod.mk.inj heq
  refine ⟨⟨s, hs, rfl⟩, cStr_of_not_mem ?_⟩
  exact fun hmem => strstr_nul hptr (List.mem_of_mem_drop hmem)

theorem confLine_of_sets (h : p.Sets piece value behind) (conf : Memory) :
    confLine e p.settings piece conf = value.apply e behind conf := by
  obtain ⟨hcomment, hfound⟩ := h
  have hhead : ¬ piece.head? = some 35 := by
    intro heq
    rw [isComment, heq] at hcomment
    exact absurd hcomment (by decide)
  rw [confLine, if_neg hhead, hfound]

/-- A piece sets something, or is inert. -/
theorem ConfParser.sets_or_inert (p : ConfParser) (piece : List UInt8) :
    (∃ value behind, p.Sets piece value behind) ∨
      (Inert p.settings piece ∧ ∀ value behind, ¬ p.Sets piece value behind) := by
  cases hcomment : isComment piece with
  | true =>
      refine .inr ⟨.inl hcomment, fun value behind h => ?_⟩
      exact absurd h.1 (by simp [hcomment])
  | false =>
      cases hfound : findSetting p.settings piece with
      | none =>
          refine .inr ⟨.inr (findSetting_eq_none_iff.mp hfound), fun value behind h => ?_⟩
          have hsome := h.2
          rw [hfound] at hsome
          exact absurd hsome (by simp)
      | some found => exact .inl ⟨found.1, found.2, hcomment, hfound⟩

/-! ## Values -/

theorem apply_ret (value : ConfValue) (behind : List UInt8) (conf : Memory) :
    (value.apply e behind conf).ret = mySuccess ∧ value.Passes behind ∨
      (value.apply e behind conf).ret = -myEio ∧ ¬ value.Passes behind := by
  cases value with
  | int pos scale test =>
      cases test with
      | none => exact .inl ⟨rfl, trivial⟩
      | some test =>
          simp only [ConfValue.apply, loadInt_storeInt]
          split_ifs with htest
          · exact .inl ⟨rfl, htest⟩
          · exact .inr ⟨rfl, htest⟩
  | string pos refuses =>
      simp only [ConfValue.apply]
      split_ifs with hrefuses
      · refine .inr ⟨rfl, fun hpasses => ?_⟩
        rw [ConfValue.Passes, hrefuses] at hpasses
        exact absurd hpasses (by decide)
      · exact .inl ⟨rfl, Bool.eq_false_iff.mpr hrefuses⟩

/-- What has passed its test is good. -/
theorem apply_good (value : ConfValue) (hpasses : value.Passes behind) (conf : Memory) :
    value.Good e (value.apply e behind conf).conf := by
  cases value with
  | int pos scale test =>
      cases test with
      | none => trivial
      | some test =>
          show test (loadInt e pos (storeInt e pos _ conf)) = true
          rw [loadInt_storeInt]
          exact hpasses
  | string pos refuses =>
      have hprinted : (snprintfStr 64 (cStr behind)).length ≤ 63 := by
        rw [snprintfStr, List.length_take]
        exact Nat.min_le_left _ _
      have hnul := writeBytes_at conf pos (snprintfStr 64 (cStr behind)) 0 []
      have hrefuses : ¬ refuses (cStr behind).length = true := Bool.eq_false_iff.mp hpasses
      refine mem_readBytes.mpr ⟨pos + (snprintfStr 64 (cStr behind)).length, by omega, by omega, ?_⟩
      simp only [ConfValue.apply, if_neg hrefuses]
      -- the byte that is looked at for the newline may be this one
      unfold dropNewline
      split_ifs with hnewline
      · by_cases hlast : pos + (snprintfStr 64 (cStr behind)).length =
            pos + (cStr behind).length - 1
        · rw [← hlast, hnul] at hnewline
          exact absurd hnewline (by decide)
        · refine (writeBytes_of_outside ?_).trans hnul
          rw [List.length_singleton]
          omega
      · exact hnul

theorem ConfValue.good_congr {conf' : Memory} (value : ConfValue)
    (h : readBytes conf value.field.pos value.field.len =
      readBytes conf' value.field.pos value.field.len) (hgood : value.Good e conf) :
    value.Good e conf' := by
  cases value with
  | int pos scale test =>
      cases test with
      | none => trivial
      | some test =>
          have hload : loadInt e pos conf = loadInt e pos conf' :=
            congrArg (fun bytes => (BitVec.ofNat 32 (load e bytes)).toInt) h
          show test (loadInt e pos conf') = true
          rw [← hload]
          exact hgood
  | string pos refuses =>
      have hsame : readBytes conf pos 64 = readBytes conf' pos 64 := h
      show 0 ∈ readBytes conf' pos 64
      rw [← hsame]
      exact hgood

/-! ## Files -/

/-- The settings that the pieces have set are good, and the others are what they were. -/
def ConfParser.Kept (p : ConfParser) (e : Endian) (conf₀ conf : Memory) : Prop :=
  ∀ s ∈ p.settings, s.value.Good e conf ∨
    readBytes conf s.value.field.pos s.value.field.len =
      readBytes conf₀ s.value.field.pos s.value.field.len

theorem ConfParser.Kept.apply (h : p.Kept e conf₀ conf) (hs : s ∈ p.settings)
    (hpasses : s.value.Passes behind)
    (hwithin : ∀ a ∈ (s.value.apply e behind conf).spans,
      a.Within s.value.field.pos s.value.field.len) :
    p.Kept e conf₀ (s.value.apply e behind conf).conf := by
  intro t ht
  by_cases hst : s = t
  · exact .inl (hst ▸ apply_good s.value hpasses conf)
  · have hsame := apply_other hs ht hst hwithin
    rcases h t ht with hgood | hkept
    · exact .inl (t.value.good_congr hsame.symm hgood)
    · exact .inr (hsame.trans hkept)

/-- The code of the loop, and what is in memory behind the structure. -/
structure ConfParser.Parsed (p : ConfParser) (e : Endian) (pieces : List (List UInt8))
    (conf : Memory) (r : ℤ × Memory) : Prop where
  ret : r.1 = mySuccess ∨ r.1 = -myEio
  accepted_iff : r.1 = mySuccess ↔
    ∀ piece ∈ pieces, ∀ value behind, p.Sets piece value behind → value.Passes behind
  kept : r.1 = mySuccess → p.Kept e conf r.2
  behind : ∀ i, p.sizeofConf ≤ i → r.2 i = conf i

theorem confLoop_parsed
    (hfits : ∀ piece ∈ pieces, ∀ value behind, p.Sets piece value behind →
      value.isString = true → behind.length ≤ 64)
    (hkept : p.Kept e conf₀ conf) (hbehind : ∀ i, p.sizeofConf ≤ i → conf i = conf₀ i) :
    p.Parsed e pieces conf₀ (confLoop e p.settings pieces conf) := by
  induction pieces generalizing conf with
  | nil => exact ⟨.inl rfl, by simp [confLoop], fun _ => hkept, hbehind⟩
  | cons piece pieces ih =>
      obtain ⟨hpiece, hpieces⟩ := List.forall_mem_cons.mp hfits
      rcases p.sets_or_inert piece with ⟨value, behind, hsets⟩ | ⟨hinert, hnot⟩
      · obtain ⟨⟨s, hs, rfl⟩, hstring⟩ := hsets.setting
        have hwithin : ∀ a ∈ (s.value.apply e behind conf).spans,
            a.Within s.value.field.pos s.value.field.len := by
          refine (apply_within_iff hs hstring conf).mpr ?_
          cases hkind : s.value.isString with
          | false => exact .inl rfl
          | true => exact .inr (hpiece _ _ hsets hkind)
        have hlater : ∀ i, p.sizeofConf ≤ i → (s.value.apply e behind conf).conf i = conf₀ i := by
          intro i hi
          have hfield := (p.fields.1 s hs).2
          rw [Nat.zero_add] at hfield
          rw [apply_outside hwithin (.inr (hfield.trans hi)), hbehind i hi]
        rw [confLoop, confLine_of_sets hsets]
        rcases apply_ret (e := e) s.value behind conf with ⟨hret, hpasses⟩ | ⟨hret, hrefused⟩
        · obtain ⟨hcode, hiff, hgood, hrest⟩ := ih hpieces (hkept.apply hs hpasses hwithin) hlater
          rw [if_neg (not_not_intro hret)]
          refine ⟨hcode, hiff.trans ?_, hgood, hrest⟩
          rw [List.forall_mem_cons]
          refine (and_iff_right ?_).symm
          intro value' behind' hsets'
          obtain ⟨rfl, rfl⟩ := Prod.mk.inj (Option.some.inj (hsets.2.symm.trans hsets'.2))
          exact hpasses
        · have hfailed : ¬ (-myEio = mySuccess) := by decide
          rw [hret, if_pos (by decide)]
          refine ⟨.inr rfl, ?_, fun hsuccess => absurd hsuccess hfailed, hlater⟩
          refine iff_of_false hfailed fun hall => hrefused ?_
          exact hall piece List.mem_cons_self _ _ hsets
      · obtain ⟨hcode, hiff, hgood, hrest⟩ := ih hpieces hkept hbehind
        rw [confLoop, confLine_of_inert hinert]
        refine ⟨hcode, hiff.trans ?_, hgood, hrest⟩
        rw [List.forall_mem_cons]
        exact (and_iff_right fun value behind hsets => absurd hsets (hnot value behind)).symm

/-- **Any file whose strings fit.** It is accepted if and only if all that it sets passes its
test, and then every setting is good, or what it was before. -/
theorem parse_parsed (e : Endian) {p : ConfParser} {text : List UInt8} (hfits : p.Fits text)
    (conf : Memory) : p.Parsed e (confPieces text) conf (p.parse e (some text) conf) := by
  rw [parse_some]
  exact confLoop_parsed hfits (fun _ _ => .inr rfl) fun _ _ => rfl

/-- One line, which sets an `int`. -/
theorem parse_parsed_logMaxNum : ConfParser.server.Parsed .little (confPieces commentedOut)
    (fun _ => 0) (serverParseConf .little (some commentedOut) fun _ => 0) := by
  have hpieces : confPieces commentedOut = [commentedOut] :=
    fgetsAll_short one_lt_sizeofLine (.cons (by decide) .nil) (by decide)
  have hint : (findSetting serverSettings commentedOut).map (fun found => found.1.isString) =
      some false := by decide
  refine parse_parsed .little (p := .server) ?_ _
  intro piece hpiece value behind hsets hstring
  rw [hpieces, List.mem_singleton] at hpiece
  have hfound : findSetting serverSettings commentedOut = some (value, behind) := hpiece ▸ hsets.2
  rw [hfound, Option.map_some, hstring] at hint
  exact absurd hint (by decide)

end MyWorkEnv
