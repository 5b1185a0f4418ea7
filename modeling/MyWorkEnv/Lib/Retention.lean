import Mathlib.Data.List.DropRight
import Mathlib.Tactic

/-!
# Keeping the newest of a series of named copies

Copies are put under names, and one of the same name is replaced; of what there
is then, the `k` newest are kept. However the names repeat, this leaves what
keeping the `k` newest once at the end would leave (`rotate_rtake`): the copies
thrown away earlier would not have been among them.
-/

namespace Retention

variable {N C : Type} [DecidableEq N] {k : ℕ} {l : List (N × C)}

/-- The copies from the oldest to the newest. -/
def put (l : List (N × C)) (p : N × C) : List (N × C) := l.filter (·.1 ≠ p.1) ++ [p]

/-- A copy is put, and then the `k` newest ones are kept. -/
def rotate (k : ℕ) (l : List (N × C)) (p : N × C) : List (N × C) := (put l p).rtake k

def Named (l : List (N × C)) : Prop := (l.map Prod.fst).Nodup

theorem rtake_suffix {T : Type} (l : List T) (k : ℕ) : l.rtake k <:+ l := List.drop_suffix _ _

theorem length_rtake_le {T : Type} (l : List T) (k : ℕ) : (l.rtake k).length ≤ k := by
  rw [List.rtake, List.length_drop]
  omega

theorem rtake_rtake {T : Type} (l : List T) (k : ℕ) : (l.rtake k).rtake k = l.rtake k := by
  have h := length_rtake_le l k
  rw [List.rtake, Nat.sub_eq_zero_of_le h, List.drop_zero]

/-- A name stands for one copy at most. -/
theorem length_le_filter (h : Named l) (n : N) :
    l.length ≤ (l.filter (·.1 ≠ n)).length + 1 := by
  induction l with
  | nil => simp
  | cons p l ih =>
      rw [Named, List.map_cons, List.nodup_cons] at h
      by_cases hp : p.1 = n
      · have hall : l.filter (·.1 ≠ n) = l := by
          apply List.filter_eq_self.mpr
          intro q hq
          have hne : q.1 ≠ n := by
            intro hqn
            exact h.1 (List.mem_map.mpr ⟨q, hq, hqn.trans hp.symm⟩)
          simpa using hne
        rw [List.filter_cons_of_neg (by simp [hp]), hall]
        exact le_rfl
      · rw [List.filter_cons_of_pos (by simp [hp]), List.length_cons, List.length_cons]
        exact Nat.succ_le_succ (ih h.2)

theorem Named.put (h : Named l) (p : N × C) : Named (put l p) := by
  have hsub := (List.filter_sublist (p := fun q : N × C => decide (q.1 ≠ p.1)) (l := l)).map
    Prod.fst
  rw [Named, Retention.put, List.map_append, List.nodup_append]
  refine ⟨h.sublist hsub, List.nodup_singleton _, ?_⟩
  intro a ha b hb hab
  obtain ⟨q, hq, rfl⟩ := List.mem_map.mp ha
  have hne := (List.mem_filter.mp hq).2
  simp only [List.map_cons, List.map_nil, List.mem_singleton] at hb
  simp [hab, hb] at hne

theorem rtake_append_of_le {T : Type} {front back : List T} (h : k ≤ back.length) :
    (front ++ back).rtake k = back.rtake k := by
  rw [List.rtake_eq_reverse_take_reverse, List.rtake_eq_reverse_take_reverse,
    List.reverse_append, List.take_append_of_le_length (by simpa using h)]

/-- **What is thrown away before would be thrown away after.** -/
theorem rotate_rtake (h : Named l) (p : N × C) : rotate k (l.rtake k) p = rotate k l p := by
  cases k with
  | zero => simp [rotate]
  | succ k =>
      simp only [rotate, put, List.rtake_concat_succ]
      congr 1
      obtain ⟨front, hfront⟩ := rtake_suffix l (k + 1)
      by_cases hlen : l.length ≤ k + 1
      · have hall : l.rtake (k + 1) = l := by
          rw [List.rtake, Nat.sub_eq_zero_of_le hlen, List.drop_zero]
        rw [hall]
      · have hnamed : Named (l.rtake (k + 1)) :=
          h.sublist ((rtake_suffix l (k + 1)).sublist.map Prod.fst)
        have hrest := length_le_filter hnamed p.1
        have hlength : (l.rtake (k + 1)).length = k + 1 := by
          rw [List.rtake, List.length_drop]
          omega
        -- one copy at most goes, so `k` of those kept are left
        have hk : k ≤ ((l.rtake (k + 1)).filter (·.1 ≠ p.1)).length := by omega
        have hsplit : l.filter (·.1 ≠ p.1) =
            front.filter (·.1 ≠ p.1) ++ (l.rtake (k + 1)).filter (·.1 ≠ p.1) := by
          rw [← List.filter_append, hfront]
        rw [hsplit, rtake_append_of_le hk]

/-! ## Series -/

/-- All copies put, none thrown away but for those replaced. -/
def putAll (l ps : List (N × C)) : List (N × C) := ps.foldl put l

theorem Named.putAll (h : Named l) (ps : List (N × C)) : Named (putAll l ps) := by
  induction ps generalizing l with
  | nil => exact h
  | cons p ps ih => exact ih (h.put p)

theorem putAll_concat (l ps : List (N × C)) (p : N × C) :
    putAll l (ps ++ [p]) = put (putAll l ps) p := by
  simp [putAll]

/-- Where no name is used twice, nothing is replaced. -/
theorem putAll_of_named {ps : List (N × C)} (h : Named (l ++ ps)) : putAll l ps = l ++ ps := by
  induction ps using List.reverseRecOn with
  | nil => simp [putAll]
  | append_singleton ps p ih =>
      have hnamed : ((l ++ ps).map Prod.fst ++ [p.1]).Nodup := by
        simpa [Named, List.append_assoc] using h
      have hparts := List.nodup_append.mp hnamed
      rw [putAll_concat, ih hparts.1, put, ← List.append_assoc]
      congr 1
      apply List.filter_eq_self.mpr
      intro q hq
      have hne := hparts.2.2 q.1 (List.mem_map.mpr ⟨q, hq, rfl⟩) p.1 (List.mem_singleton_self _)
      simpa using hne

end Retention
