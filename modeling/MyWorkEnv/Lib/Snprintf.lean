import Mathlib.Data.Int.Basic
import Mathlib.Tactic
import MyWorkEnv.Lib.ByteMemory
import MyWorkEnv.Lib.CString

/-!
# Texts appended with `snprintf`

Code that puts texts one behind the other into a buffer calls `snprintf` at an
offset, with the space that is left as its size, and moves the offset on by what
`snprintf` returns. That is the length of the whole text, also where the text
was cut short. `appendTested` compares it with the space before it moves on, and
never leaves the buffer; `appendUntested` does not, and stays inside just when
all of the text fits.
-/

namespace Snprintf

open CString

/-! ## Conversions -/

def str (s : String) : List UInt8 := ascii s.toList

/-- `%u` -/
def decimal (n : ℕ) : List UInt8 := ascii (Nat.toDigits 10 n)

/-- `%d` -/
def signedDecimal (z : ℤ) : List UInt8 :=
  if z < 0 then str "-" ++ decimal z.natAbs else decimal z.natAbs

/-- `%p` -/
def pointer (p : ℕ) : List UInt8 :=
  if p = 0 then str "(nil)" else str "0x" ++ ascii (Nat.toDigits 16 p)

@[simp] theorem length_ascii (text : List Char) : (ascii text).length = text.length := by
  simp [ascii]

theorem length_decimal_le {n k : ℕ} (hk : 0 < k) (h : n < 10 ^ k) : (decimal n).length ≤ k := by
  rw [decimal, length_ascii]
  exact (Nat.length_toDigits_le_iff (by omega) hk).mpr h

theorem length_signedDecimal_le {z : ℤ} {k : ℕ} (hk : 0 < k) (h : z.natAbs < 10 ^ k) :
    (signedDecimal z).length ≤ k + 1 := by
  have hdecimal := length_decimal_le hk h
  unfold signedDecimal
  split_ifs
  · rw [List.length_append]
    have hminus : (str "-").length = 1 := by decide
    omega
  · omega

theorem length_pointer_le {p k : ℕ} (hk : 3 ≤ k) (h : p < 16 ^ k) :
    (pointer p).length ≤ k + 2 := by
  have hnil : (str "(nil)").length = 5 := by decide
  have hhex : (str "0x").length = 2 := by decide
  unfold pointer
  split_ifs
  · omega
  · rw [List.length_append, length_ascii]
    have hdigits := (Nat.length_toDigits_le_iff (by omega) (by omega)).mpr h
    omega

/-! ## Calls -/

/-- The value of an `int` expression that would be `z`. -/
def toInt (z : ℤ) : ℤ := z.bmod (2 ^ 32)

theorem toInt_eq {z : ℤ} (hrange : -2 ^ 31 ≤ z ∧ z < 2 ^ 31) : toInt z = z :=
  Int.bmod_eq_of_le (by omega) (by omega)

/-- The space left at an offset in a buffer. -/
theorem toInt_left {maxLen offset : ℤ} (hnonneg : 0 ≤ offset) (hlt : offset < maxLen)
    (hmax : maxLen < 2 ^ 31) : toInt (maxLen - offset) = maxLen - offset :=
  toInt_eq (by omega)

/-- Too large a value wraps around. -/
theorem toInt_neg {z : ℤ} (hlow : 2 ^ 31 ≤ z) (hhigh : z < 2 ^ 32) : toInt z < 0 := by
  unfold toInt
  rw [Int.bmod_def]
  omega

/-- A value that is not too large by far is in the buffer if and only if it has not reached
the end. -/
theorem toInt_inside_iff (maxLen : ℤ) {z : ℤ} (hrange : 0 ≤ z ∧ z < 2 ^ 32) :
    (0 ≤ toInt z ∧ toInt z < maxLen) ↔ z < maxLen ∧ z < 2 ^ 31 := by
  by_cases hfits : z < 2 ^ 31
  · rw [toInt_eq (by omega)]
    exact ⟨fun h => ⟨h.2, hfits⟩, fun h => ⟨hrange.1, h.1⟩⟩
  · have hneg := toInt_neg (not_lt.mp hfits) hrange.2
    exact iff_of_false (fun h => hneg.not_ge h.1) (fun h => hfits h.2)

/-- What `snprintf` returns for a text: its length, or a negative number where that is not
an `int`. -/
def length (text : List UInt8) : ℤ := if text.length < 2 ^ 31 then text.length else -1

theorem length_eq {text : List UInt8} (h : text.length < 2 ^ 31) : length text = text.length :=
  if_pos h

/-- The position in the buffer, the size before it is converted, and the text. -/
structure Call where
  pos : ℤ
  size : ℤ
  text : List UInt8
deriving DecidableEq

/-- The position is in a buffer of `maxLen` bytes, and the size at most what is left there. -/
structure Call.Inside (maxLen : ℤ) (c : Call) : Prop where
  pos_nonneg : 0 ≤ c.pos
  pos_lt : c.pos < maxLen
  size_nonneg : 0 ≤ c.size
  size_le : c.size ≤ maxLen - c.pos

theorem Call.inside_iff {maxLen : ℤ} {c : Call} : c.Inside maxLen ↔
    0 ≤ c.pos ∧ c.pos < maxLen ∧ 0 ≤ c.size ∧ c.size ≤ maxLen - c.pos :=
  ⟨fun h => ⟨h.pos_nonneg, h.pos_lt, h.size_nonneg, h.size_le⟩,
    fun h => ⟨h.1, h.2.1, h.2.2.1, h.2.2.2⟩⟩

instance (maxLen : ℤ) (c : Call) : Decidable (c.Inside maxLen) :=
  decidable_of_iff _ Call.inside_iff.symm

/-- The calls made, the offset they leave, and whether all went well. -/
structure Appended where
  complete : Bool
  offset : ℤ
  calls : List Call
deriving DecidableEq

structure Appended.Inside (maxLen : ℤ) (r : Appended) : Prop where
  calls : ∀ c ∈ r.calls, c.Inside maxLen
  offset_nonneg : 0 ≤ r.offset
  offset_lt : r.offset < maxLen

theorem Appended.inside_iff {maxLen : ℤ} {r : Appended} : r.Inside maxLen ↔
    (∀ c ∈ r.calls, c.Inside maxLen) ∧ 0 ≤ r.offset ∧ r.offset < maxLen :=
  ⟨fun h => ⟨h.calls, h.offset_nonneg, h.offset_lt⟩, fun h => ⟨h.1, h.2.1, h.2.2⟩⟩

instance (maxLen : ℤ) (r : Appended) : Decidable (r.Inside maxLen) :=
  decidable_of_iff _ Appended.inside_iff.symm

/-- One more call in front. -/
def Appended.cons (c : Call) (r : Appended) : Appended := { r with calls := c :: r.calls }

variable {maxLen offset : ℤ} {c : Call} {r : Appended} {text : List UInt8}
  {texts : List (List UInt8)}

theorem Appended.inside_cons_iff :
    (r.cons c).Inside maxLen ↔ c.Inside maxLen ∧ r.Inside maxLen := by
  simp only [Appended.inside_iff, Appended.cons, List.forall_mem_cons, and_assoc]

/-- Nothing is appended. -/
theorem Appended.inside_stop {complete : Bool} (hnonneg : 0 ≤ offset) (hlt : offset < maxLen) :
    Appended.Inside maxLen ⟨complete, offset, []⟩ :=
  ⟨by simp, hnonneg, hlt⟩

/-- All of the space at an offset in the buffer. -/
theorem Call.inside_rest (hnonneg : 0 ≤ offset) (hlt : offset < maxLen) :
    Call.Inside maxLen ⟨offset, maxLen - offset, text⟩ :=
  ⟨hnonneg, hlt, sub_nonneg.mpr hlt.le, le_rfl⟩

/-! ## Appending -/

/-- The offset moves on only if the text fits. -/
def appendTested (maxLen : ℤ) : ℤ → List (List UInt8) → Appended
  | offset, [] => ⟨true, offset, []⟩
  | offset, text :: texts =>
      Appended.cons ⟨offset, toInt (maxLen - offset), text⟩
        (if length text < 0 ∨ toInt (maxLen - offset) ≤ length text then ⟨false, offset, []⟩
        else appendTested maxLen (toInt (offset + length text)) texts)

theorem appendTested_inside (hnonneg : 0 ≤ offset) (hlt : offset < maxLen)
    (hmax : maxLen < 2 ^ 31) : (appendTested maxLen offset texts).Inside maxLen := by
  induction texts generalizing offset with
  | nil => exact Appended.inside_stop hnonneg hlt
  | cons text texts ih =>
      have hleft := toInt_left hnonneg hlt hmax
      rw [appendTested, Appended.inside_cons_iff, hleft]
      refine ⟨Call.inside_rest hnonneg hlt, ?_⟩
      split_ifs with hstop
      · exact Appended.inside_stop hnonneg hlt
      · have hmoved : toInt (offset + length text) = offset + length text :=
          toInt_eq (by omega)
        rw [hmoved]
        exact ih (by omega) (by omega)

/-- The offset moves on in any case; `left` computes the size. -/
def appendUntested (left : ℤ → ℤ) : ℤ → List (List UInt8) → Appended
  | offset, [] => ⟨true, offset, []⟩
  | offset, text :: texts =>
      Appended.cons ⟨offset, left offset, text⟩
        (appendUntested left (toInt (offset + length text)) texts)

/-- The offset in front of what is appended is in the buffer. -/
theorem appendUntested_offset {left : ℤ → ℤ}
    (h : (appendUntested left offset texts).Inside maxLen) : 0 ≤ offset ∧ offset < maxLen := by
  cases texts with
  | nil => exact ⟨h.offset_nonneg, h.offset_lt⟩
  | cons text texts =>
      have hcall := (Appended.inside_cons_iff.mp h).1
      exact ⟨hcall.pos_nonneg, hcall.pos_lt⟩

/-- **Untested appending** stays inside if and only if all of the text fits. -/
theorem appendUntested_inside_iff {left : ℤ → ℤ}
    (hleft : ∀ offset, 0 ≤ offset → offset < maxLen → left offset = maxLen - offset)
    (hshort : ∀ text ∈ texts, text.length < 2 ^ 31) (hnonneg : 0 ≤ offset)
    (hlt : offset < maxLen) (hint : offset < 2 ^ 31) :
    (appendUntested left offset texts).Inside maxLen ↔
      offset + texts.flatten.length < maxLen ∧ offset + texts.flatten.length < 2 ^ 31 := by
  induction texts generalizing offset with
  | nil =>
      refine iff_of_true (Appended.inside_stop hnonneg hlt) ?_
      simpa using ⟨hlt, hint⟩
  | cons text texts ih =>
      obtain ⟨htext, hshort⟩ := List.forall_mem_cons.mp hshort
      rw [appendUntested, Appended.inside_cons_iff, hleft offset hnonneg hlt, length_eq htext,
        and_iff_right (Call.inside_rest hnonneg hlt), List.flatten_cons, List.length_append,
        Nat.cast_add, ← add_assoc]
      by_cases hfits : offset + text.length < maxLen ∧ offset + text.length < 2 ^ 31
      · rw [toInt_eq (by omega)]
        exact ih hshort (by omega) hfits.1 hfits.2
      · -- the offset is out of the buffer here, or has wrapped around
        refine iff_of_false (fun hinside => hfits ?_) (fun hall => hfits (by omega))
        exact (toInt_inside_iff maxLen (by omega)).mp (appendUntested_offset hinside)

/-! ## What the calls leave in memory -/

section Memory

open ByteMemory

/-- As much of the text as there is room for, and a NUL; nothing at all without room. The size
is a `size_t`. -/
def Call.apply (m : Memory) (c : Call) : Memory :=
  let size := (c.size % 2 ^ 64).toNat
  if size = 0 then m else writeBytes m c.pos.toNat (c.text.take (size - 1) ++ [0])

/-- The memory after all calls. -/
def Appended.memory (r : Appended) (m : Memory) : Memory := r.calls.foldl Call.apply m

theorem Call.apply_of_lt {m : Memory} (hlt : c.text.length < c.size) (hsize : c.size < 2 ^ 64) :
    c.apply m = writeBytes m c.pos.toNat (c.text ++ [0]) := by
  have hmod : c.size % 2 ^ 64 = c.size := Int.emod_eq_of_lt (by omega) hsize
  have hne : c.size.toNat ≠ 0 := by omega
  rw [Call.apply, hmod, if_neg hne, List.take_of_length_le (by omega)]

/-- All went well: the text is at the offset, NUL and all, and the offset is behind it. -/
structure Reports (text : List UInt8) (offset : ℤ) (m : Memory) (r : Appended) : Prop where
  complete : r.complete = true
  bytes : readBytes (r.memory m) offset.toNat (text.length + 1) = text ++ [0]
  offset_eq : r.offset = offset + text.length

theorem reports_cons_iff {m : Memory} :
    Reports text offset m (r.cons c) ↔ Reports text offset (c.apply m) r :=
  ⟨fun h => ⟨h.complete, h.bytes, h.offset_eq⟩, fun h => ⟨h.complete, h.bytes, h.offset_eq⟩⟩

/-- A text that fits, behind the `n` bytes at the offset. -/
theorem Call.readBytes_apply {m : Memory} {n : ℕ} {pos size : ℤ} (hoffset : 0 ≤ offset)
    (hpos : pos = offset + n) (hlt : text.length < size) (hsize : size < 2 ^ 64) :
    readBytes (Call.apply m ⟨pos, size, text⟩) offset.toNat (n + text.length) =
        readBytes m offset.toNat n ++ text ∧
      readBytes (Call.apply m ⟨pos, size, text⟩) offset.toNat (n + text.length + 1) =
        readBytes m offset.toNat n ++ text ++ [0] := by
  have htoNat : pos.toNat = offset.toNat + n := by omega
  have hall : n + text.length + 1 = n + (text ++ [0]).length := by
    rw [List.length_append, List.length_singleton, Nat.add_assoc]
  rw [Call.apply_of_lt hlt hsize]
  simp only [htoNat]
  constructor
  · exact readBytes_write_prefix
  · rw [hall, readBytes_write_append, List.append_assoc]

end Memory

end Snprintf
