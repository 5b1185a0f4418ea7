import Mathlib.Data.List.Basic
import Mathlib.Logic.Function.Basic
import Mathlib.Tactic

/-!
# Byte memory

The bytes from some object on, as code with a pointer into it sees them: what
it writes may go beyond the object, and what lies there is in the same memory.
`writeBytes` and `readBytes` are runs of bytes. A `Span` is the part that an access
touches, and `Within` says that it stays in an object.
-/

namespace ByteMemory

abbrev Memory := ℕ → UInt8

def writeBytes (m : Memory) : ℕ → List UInt8 → Memory
  | _, [] => m
  | pos, b :: bs => writeBytes (Function.update m pos b) (pos + 1) bs

def readBytes (m : Memory) : ℕ → ℕ → List UInt8
  | _, 0 => []
  | pos, n + 1 => m pos :: readBytes m (pos + 1) n

variable {m m' : Memory} {pos n i : ℕ} {b : UInt8} {bs cs : List UInt8}

@[simp] theorem writeBytes_nil : writeBytes m pos [] = m := rfl

@[simp] theorem length_readBytes : (readBytes m pos n).length = n := by
  induction n generalizing pos with
  | zero => rfl
  | succ n ih => rw [readBytes, List.length_cons, ih]

/-! ## What a write changes -/

theorem writeBytes_of_outside (h : i < pos ∨ pos + bs.length ≤ i) :
    writeBytes m pos bs i = m i := by
  induction bs generalizing m pos with
  | nil => rfl
  | cons b bs ih =>
      rw [List.length_cons] at h
      rw [writeBytes, ih (by omega), Function.update_of_ne (by omega)]

theorem writeBytes_append :
    writeBytes m pos (bs ++ cs) = writeBytes (writeBytes m pos bs) (pos + bs.length) cs := by
  induction bs generalizing m pos with
  | nil => rfl
  | cons b bs ih =>
      rw [List.cons_append, writeBytes, ih, writeBytes, List.length_cons, Nat.add_right_comm,
        Nat.add_assoc]

/-- Behind what was written first. -/
theorem writeBytes_at (m : Memory) (pos : ℕ) (bs : List UInt8) (b : UInt8) (cs : List UInt8) :
    writeBytes m pos (bs ++ b :: cs) (pos + bs.length) = b := by
  rw [writeBytes_append, writeBytes, writeBytes_of_outside (.inl (Nat.lt_succ_self _)),
    Function.update_self]

/-- Byte by byte: what is at `i` then depends on nothing else. -/
theorem writeBytes_congr (h : m i = m' i) : writeBytes m pos bs i = writeBytes m' pos bs i := by
  induction bs generalizing m m' pos with
  | nil => exact h
  | cons b bs ih =>
      refine ih ?_
      by_cases hi : i = pos
      · rw [hi, Function.update_self, Function.update_self]
      · rw [Function.update_of_ne hi, Function.update_of_ne hi, h]

/-- What is written does not depend on what was there. -/
theorem writeBytes_inside (m m' : Memory) (hlow : pos ≤ i) (hhigh : i < pos + bs.length) :
    writeBytes m pos bs i = writeBytes m' pos bs i := by
  induction bs generalizing m m' pos with
  | nil =>
      rw [List.length_nil] at hhigh
      omega
  | cons b bs ih =>
      rw [List.length_cons] at hhigh
      rw [writeBytes, writeBytes]
      by_cases hi : i = pos
      · have hsame : Function.update m pos b i = Function.update m' pos b i := by
          rw [hi, Function.update_self, Function.update_self]
        exact writeBytes_congr hsame
      · exact ih _ _ (by omega) (by omega)

/-! ## What is read -/

theorem readBytes_congr (h : ∀ i, pos ≤ i → i < pos + n → m i = m' i) :
    readBytes m pos n = readBytes m' pos n := by
  induction n generalizing pos with
  | zero => rfl
  | succ n ih =>
      have hrest : readBytes m (pos + 1) n = readBytes m' (pos + 1) n :=
        ih fun i hlow hhigh => h i (by omega) (by omega)
      rw [readBytes, readBytes, h pos le_rfl (by omega), hrest]

theorem readBytes_add (k : ℕ) :
    readBytes m pos (n + k) = readBytes m pos n ++ readBytes m (pos + n) k := by
  induction n generalizing pos with
  | zero => rw [Nat.zero_add, readBytes, List.nil_append, Nat.add_zero]
  | succ n ih =>
      rw [Nat.succ_add, readBytes, ih, readBytes, List.cons_append, Nat.add_right_comm,
        Nat.add_assoc]

theorem readBytes_write_outside {k : ℕ} (h : i + k ≤ pos ∨ pos + bs.length ≤ i) :
    readBytes (writeBytes m pos bs) i k = readBytes m i k :=
  readBytes_congr fun j hlow hhigh => writeBytes_of_outside (by omega)

/-- What was written is read back. -/
theorem readBytes_write : readBytes (writeBytes m pos bs) pos bs.length = bs := by
  induction bs generalizing m pos with
  | nil => rfl
  | cons b bs ih =>
      rw [List.length_cons, readBytes, writeBytes, ih,
        writeBytes_of_outside (Or.inl (Nat.lt_succ_self pos)), Function.update_self]

/-- Behind what is there. -/
theorem readBytes_write_append : readBytes (writeBytes m (pos + n) bs) pos (n + bs.length) =
    readBytes m pos n ++ bs := by
  rw [readBytes_add, readBytes_write, readBytes_write_outside (Or.inl le_rfl)]

/-- What comes last may be left out. -/
theorem readBytes_write_prefix : readBytes (writeBytes m (pos + n) (bs ++ cs)) pos
    (n + bs.length) = readBytes m pos n ++ bs := by
  rw [writeBytes_append, readBytes_write_outside (Or.inl (by omega)), readBytes_write_append]

theorem mem_readBytes : b ∈ readBytes m pos n ↔ ∃ i, pos ≤ i ∧ i < pos + n ∧ m i = b := by
  induction n generalizing pos with
  | zero =>
      refine iff_of_false List.not_mem_nil ?_
      rintro ⟨i, hlow, hhigh, -⟩
      omega
  | succ n ih =>
      rw [readBytes, List.mem_cons, ih]
      constructor
      · rintro (rfl | ⟨i, hlow, hhigh, hi⟩)
        · exact ⟨pos, le_rfl, by omega, rfl⟩
        · exact ⟨i, by omega, by omega, hi⟩
      · rintro ⟨i, hlow, hhigh, hi⟩
        rcases hlow.eq_or_lt with rfl | hlt
        · exact .inl hi.symm
        · exact .inr ⟨i, hlt, by omega, hi⟩

/-! ## Accesses -/

/-- `len` bytes from `pos` on. -/
structure Span where
  pos : ℕ
  len : ℕ
deriving DecidableEq

/-- In the object of `size` bytes at `start`. -/
def Span.Within (start size : ℕ) (s : Span) : Prop :=
  start ≤ s.pos ∧ s.pos + s.len ≤ start + size

instance (start size : ℕ) (s : Span) : Decidable (s.Within start size) :=
  inferInstanceAs (Decidable (_ ∧ _))

/-- A NUL is among the `size` bytes at `start`, so what is there is a string. -/
def Terminated (m : Memory) (start size : ℕ) : Prop := 0 ∈ readBytes m start size

end ByteMemory
