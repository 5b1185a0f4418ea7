import Mathlib.Algebra.Group.Hom.Defs
import Mathlib.Algebra.BigOperators.Group.List.Basic
import Mathlib.Data.List.Basic
import Mathlib.Tactic

/-!
# Ledgers

Items are taken out under a key and given back. `outstanding` adds up what is
out under one key; `Balanced` ties it to the two running totals that the keeper
of the ledger writes down instead, of what was taken and of what was given
back. The totals are numbers of any commutative group, so they may have wrapped:
their difference still says what is out, up to what the group identifies.
-/

namespace Ledger

variable {ι K : Type} [DecidableEq K]

/-- The amounts out under the key `k`. -/
def outstanding (key : ι → K) (amount : ι → ℕ) (items : List ι) (k : K) : ℕ :=
  ((items.filter fun i => key i = k).map amount).sum

section Outstanding

variable {key : ι → K} {amount : ι → ℕ} {items items' : List ι} {i : ι} {k : K}

@[simp] theorem outstanding_nil : outstanding key amount [] k = 0 := rfl

theorem outstanding_cons : outstanding key amount (i :: items) k =
    (if key i = k then amount i else 0) + outstanding key amount items k := by
  unfold outstanding
  by_cases h : key i = k <;> simp [h]

theorem outstanding_append : outstanding key amount (items ++ items') k =
    outstanding key amount items k + outstanding key amount items' k := by
  simp [outstanding]

theorem outstanding_eq_zero (h : ∀ i ∈ items, key i ≠ k) :
    outstanding key amount items k = 0 := by
  have hnone : (items.filter fun i => key i = k) = [] := by
    rw [List.filter_eq_nil_iff]
    intro i hi
    simpa using h i hi
  simp [outstanding, hnone]

/-- Giving back the item that `p` picks. -/
theorem outstanding_eraseP {p : ι → Bool} (hi : items.find? p = some i) :
    outstanding key amount (items.eraseP p) k + (if key i = k then amount i else 0) =
      outstanding key amount items k := by
  obtain ⟨hp, front, back, rfl, hfront⟩ := List.find?_eq_some_iff_append.mp hi
  have hnone : ∀ b ∈ front, ¬ p b = true := by
    intro b hb
    simpa using hfront b hb
  rw [List.eraseP_append_right _ hnone, List.eraseP_cons_of_pos hp, outstanding_append,
    outstanding_append, outstanding_cons]
  omega

end Outstanding

/-! ## The two totals -/

section Totals

variable {G : Type} [AddCommGroup G] {cast : ℕ →+ G} {taken returned : G} {out n : ℕ}

/-- What was taken and not returned is what is out. -/
def Balanced (cast : ℕ →+ G) (taken returned : G) (out : ℕ) : Prop :=
  taken - returned = cast out

theorem Balanced.zero : Balanced cast 0 0 0 := by simp [Balanced]

theorem Balanced.take (h : Balanced cast taken returned out) :
    Balanced cast (taken + cast n) returned (out + n) := by
  unfold Balanced at *
  rw [map_add, ← h]
  abel

theorem Balanced.giveBack (h : Balanced cast taken returned (out + n)) :
    Balanced cast taken (returned + cast n) out := by
  unfold Balanced at *
  rw [map_add] at h
  rw [← sub_sub, h, add_sub_cancel_right]

/-- The totals agree just when nothing is out, unless the group takes it for nothing. -/
theorem Balanced.settled_iff (h : Balanced cast taken returned out)
    (hcast : cast out = 0 → out = 0) : returned = taken ↔ out = 0 := by
  constructor
  · rintro rfl
    apply hcast
    rw [← h, sub_self]
  · rintro rfl
    have hzero : taken - returned = 0 := by rw [h, map_zero]
    exact (sub_eq_zero.mp hzero).symm

end Totals

end Ledger
