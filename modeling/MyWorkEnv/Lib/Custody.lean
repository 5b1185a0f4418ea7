import Mathlib.Data.Finset.Basic
import Mathlib.Data.List.Count
import Mathlib.Tactic

/-!
# Custody

What code does with resources that have to be given back: it acquires them,
uses them and releases them. The resources are blocks of memory, locks, or
whatever else has an owner. The accesses of a piece of code are a list, and
`run` follows what the code holds. There is no run where it uses or releases
what it does not hold, so a run that ends with nothing is one that has released
everything once and touched nothing afterwards.
-/

namespace Custody

inductive Access (R : Type) where
  | acquire (r : R)
  | use (r : R)
  | release (r : R)
deriving DecidableEq

def Access.resource {R : Type} : Access R → R
  | .acquire r | .use r | .release r => r

variable {R : Type} {held held' : Finset R} {trace before after : List (Access R)} {r : R}

/-- What is used is held. -/
def Uses (held : Finset R) (trace : List (Access R)) : Prop :=
  ∀ a ∈ trace, ∃ r ∈ held, a = .use r

theorem Uses.nil : Uses held [] := by simp [Uses]

theorem Uses.cons (h : r ∈ held) (htrace : Uses held trace) : Uses held (.use r :: trace) := by
  intro a ha
  rcases List.mem_cons.mp ha with rfl | ha
  · exact ⟨r, h, rfl⟩
  · exact htrace a ha

theorem Uses.append (h : Uses held before) (h' : Uses held after) :
    Uses held (before ++ after) := by
  intro a ha
  exact (List.mem_append.mp ha).elim (h a) (h' a)

variable [DecidableEq R]

/-- A resource that is held cannot be acquired again. -/
def step (held : Finset R) : Access R → Option (Finset R)
  | .acquire r => if r ∈ held then none else some (insert r held)
  | .use r => if r ∈ held then some held else none
  | .release r => if r ∈ held then some (held.erase r) else none

/-- What is held after the accesses `trace`. -/
def run : Finset R → List (Access R) → Option (Finset R)
  | held, [] => some held
  | held, a :: trace => (step held a).bind fun held' => run held' trace

@[simp] theorem run_nil : run held [] = some held := rfl

theorem run_cons {a : Access R} :
    run held (a :: trace) = (step held a).bind fun held' => run held' trace := rfl

theorem run_append :
    run held (before ++ after) = (run held before).bind fun held' => run held' after := by
  induction before generalizing held with
  | nil => rfl
  | cons a before ih =>
      rw [List.cons_append, run_cons, run_cons]
      cases step held a with
      | none => rfl
      | some held' => exact ih

theorem run_acquire (h : r ∉ held) :
    run held (.acquire r :: trace) = run (insert r held) trace := by
  simp [run_cons, step, h]

theorem run_release (h : r ∈ held) :
    run held (.release r :: trace) = run (held.erase r) trace := by
  simp [run_cons, step, h]

/-- Using changes nothing. -/
theorem Uses.run_append (h : Uses held before) :
    run held (before ++ after) = run held after := by
  induction before with
  | nil => rfl
  | cons a before ih =>
      obtain ⟨r, hr, rfl⟩ := h a List.mem_cons_self
      simp only [List.cons_append, run_cons, step, if_pos hr, Option.bind_some]
      exact ih fun b hb => h b (List.mem_cons_of_mem _ hb)

theorem Uses.run (h : Uses held trace) : Custody.run held trace = some held := by
  have happend : Custody.run held (trace ++ []) = some held := h.run_append
  rwa [List.append_nil] at happend

/-! ## What a run says of one resource -/

/-- One access, as an entry in the account of `r`. -/
theorem count_step {a : Access R} (h : step held a = some held') (r : R) :
    (if r ∈ held then 1 else 0) + [a].count (.acquire r) =
      (if r ∈ held' then 1 else 0) + [a].count (.release r) := by
  cases a with
  | acquire s =>
      simp only [step, Option.ite_none_left_eq_some, Option.some.injEq] at h
      obtain ⟨hs, rfl⟩ := h
      by_cases hrs : r = s
      · simp [hrs, hs]
      · simp [hrs, Ne.symm hrs]
  | use s =>
      simp only [step, Option.ite_none_right_eq_some, Option.some.injEq] at h
      simp [h.2]
  | release s =>
      simp only [step, Option.ite_none_right_eq_some, Option.some.injEq] at h
      obtain ⟨hs, rfl⟩ := h
      by_cases hrs : r = s
      · simp [hrs, hs]
      · simp [hrs, Ne.symm hrs]

/-- **What is acquired is released or still held.** -/
theorem count_run (h : run held trace = some held') (r : R) :
    (if r ∈ held then 1 else 0) + trace.count (.acquire r) =
      (if r ∈ held' then 1 else 0) + trace.count (.release r) := by
  induction trace generalizing held with
  | nil =>
      rw [run_nil, Option.some.injEq] at h
      simp [h]
  | cons a trace ih =>
      rw [run_cons, Option.bind_eq_some_iff] at h
      obtain ⟨mid, hstep, hrun⟩ := h
      have hone := count_step hstep r
      have hrest := ih hrun
      have happend : ∀ b : Access R, (a :: trace).count b = [a].count b + trace.count b := by
        intro b
        rw [← List.singleton_append, List.count_append]
      rw [happend, happend]
      omega

/-- At every release of `r` the code has it: it acquired it before and has not released
it since. -/
def Backed (trace : List (Access R)) (r : R) : Prop :=
  ∀ before after, trace = before ++ .release r :: after →
    before.count (.release r) < before.count (.acquire r)

theorem backed_of_run (h : run ∅ trace = some held') (r : R) : Backed trace r := by
  rintro before after rfl
  rw [run_append, Option.bind_eq_some_iff] at h
  obtain ⟨mid, hbefore, hafter⟩ := h
  have hcount := count_run hbefore r
  have hmem : r ∈ mid := by
    by_contra hnot
    simp [run_cons, step, hnot] at hafter
  rw [if_pos hmem, if_neg (Finset.notMem_empty r)] at hcount
  omega

theorem Backed.acquire_mem (h : Backed trace r) (hmem : .release r ∈ trace) :
    .acquire r ∈ trace := by
  obtain ⟨before, after, rfl⟩ := List.append_of_mem hmem
  have hlt := h before after rfl
  exact List.mem_append_left _ (List.count_pos_iff.mp (by omega))

/-- Every acquisition of `r` is undone. -/
def Settled (trace : List (Access R)) (r : R) : Prop :=
  trace.count (.acquire r) = trace.count (.release r)

theorem settled_of_run (h : run ∅ trace = some held') (hr : r ∉ held') : Settled trace r := by
  have hcount := count_run h r
  rw [if_neg hr, if_neg (Finset.notMem_empty r)] at hcount
  unfold Settled
  omega

theorem Settled.release_mem (h : Settled trace r) (hmem : .acquire r ∈ trace) :
    .release r ∈ trace := by
  have hpos := List.count_pos_iff.mpr hmem
  rw [h] at hpos
  exact List.count_pos_iff.mp hpos

/-- `r` is released once and not touched afterwards. -/
def ReleasedOnce (trace : List (Access R)) (r : R) : Prop :=
  ∃ before after, trace = before ++ .release r :: after ∧ .release r ∉ before ∧
    ∀ a ∈ after, a.resource ≠ r

/-- What is not held can only be acquired. -/
theorem not_accessed (h : run held trace = some held') (hr : r ∉ held)
    (hacquire : .acquire r ∉ trace) : ∀ a ∈ trace, a.resource ≠ r := by
  induction trace generalizing held with
  | nil => simp
  | cons a trace ih =>
      rw [run_cons, Option.bind_eq_some_iff] at h
      obtain ⟨mid, hstep, hrun⟩ := h
      rw [List.mem_cons, not_or] at hacquire
      have hone : a.resource ≠ r ∧ r ∉ mid := by
        cases a with
        | acquire s =>
            have hs : r ≠ s := fun heq => hacquire.1 (by rw [heq])
            simp only [step, Option.ite_none_left_eq_some, Option.some.injEq] at hstep
            rw [← hstep.2]
            exact ⟨hs.symm, by simp [hs, hr]⟩
        | use s =>
            simp only [step, Option.ite_none_right_eq_some, Option.some.injEq] at hstep
            rw [← hstep.2]
            exact ⟨fun heq => hr (heq ▸ hstep.1), hr⟩
        | release s =>
            simp only [step, Option.ite_none_right_eq_some, Option.some.injEq] at hstep
            rw [← hstep.2]
            exact ⟨fun heq => hr (heq ▸ hstep.1), by simp [hr]⟩
      intro b hb
      rcases List.mem_cons.mp hb with rfl | hb
      · exact hone.1
      · exact ih hrun hone.2 hacquire.2 b hb

/-- What is released and not acquired again is not touched any more. -/
theorem not_accessed_after (h : run held (before ++ .release r :: after) = some held')
    (hacquire : .acquire r ∉ after) : ∀ a ∈ after, a.resource ≠ r := by
  rw [run_append, Option.bind_eq_some_iff] at h
  obtain ⟨mid, -, hmid⟩ := h
  rw [run_cons, Option.bind_eq_some_iff] at hmid
  obtain ⟨rest, hstep, hafter⟩ := hmid
  simp only [step, Option.ite_none_right_eq_some, Option.some.injEq] at hstep
  refine not_accessed hafter ?_ hacquire
  rw [← hstep.2]
  exact Finset.notMem_erase r mid

/-- Without acquisitions, what is released is what is held at first and not in the end. -/
theorem count_release_of_run (h : run held trace = some held') (hacquire : .acquire r ∉ trace) :
    trace.count (.release r) = if r ∈ held ∧ r ∉ held' then 1 else 0 := by
  have hcount := count_run h r
  rw [List.count_eq_zero.mpr hacquire] at hcount
  by_cases hheld : r ∈ held
  · by_cases hheld' : r ∈ held'
    · simpa [hheld, hheld'] using hcount.symm
    · simpa [hheld, hheld'] using hcount.symm
  · rw [if_neg hheld] at hcount
    rw [if_neg fun hand => hheld hand.1]
    omega

/-- **A run that ends with nothing** releases once what it acquires once. -/
theorem releasedOnce_of_run (h : run ∅ trace = some ∅) (hone : trace.count (.acquire r) = 1) :
    ReleasedOnce trace r := by
  have hsettled := settled_of_run h (Finset.notMem_empty r)
  have hmem := hsettled.release_mem (List.count_pos_iff.mp (by omega))
  obtain ⟨before, after, rfl⟩ := List.append_of_mem hmem
  have hbacked := backed_of_run h r before after rfl
  have hsum : (before ++ .release r :: after).count (.acquire r) =
      before.count (.acquire r) + after.count (.acquire r) := by
    rw [List.count_append, List.count_cons_of_ne (by simp)]
  refine ⟨before, after, rfl, ?_, not_accessed_after h ?_⟩
  · rw [← List.count_eq_zero]
    omega
  · rw [← List.count_eq_zero]
    omega

/-! ## Nested acquisition -/

/-- Acquires `rs` in turn, goes on with `uses`, and releases `rs` from the last one on. -/
def bracket : List R → List (Access R) → List (Access R)
  | [], uses => uses
  | r :: rs, uses => .acquire r :: (bracket rs uses ++ [.release r])

variable {rs : List R} {uses : List (Access R)}

theorem run_bracket (hnodup : rs.Nodup) (hfree : ∀ r ∈ rs, r ∉ held)
    (huses : Uses (held ∪ rs.toFinset) uses) : run held (bracket rs uses) = some held := by
  induction rs generalizing held with
  | nil =>
      rw [List.toFinset_nil, Finset.union_empty] at huses
      exact huses.run
  | cons r rs ih =>
      have hr := hfree r List.mem_cons_self
      obtain ⟨hnot, htail⟩ := List.nodup_cons.mp hnodup
      have hinner : run (insert r held) (bracket rs uses) = some (insert r held) := by
        refine ih htail ?_ ?_
        · intro s hs
          rw [Finset.mem_insert, not_or]
          exact ⟨fun heq => hnot (heq ▸ hs), hfree s (List.mem_cons_of_mem _ hs)⟩
        · rwa [Finset.insert_union, ← Finset.union_insert, ← List.toFinset_cons]
      rw [bracket, run_acquire hr, run_append, hinner, Option.bind_some,
        run_release (Finset.mem_insert_self r held), run_nil, Finset.erase_insert hr]

theorem count_acquire_bracket (huses : Uses held uses) :
    (bracket rs uses).count (.acquire r) = rs.count r := by
  induction rs with
  | nil =>
      rw [List.count_nil]
      refine List.count_eq_zero.mpr fun hmem => ?_
      obtain ⟨s, -, hs⟩ := huses _ hmem
      cases hs
  | cons s rs ih =>
      have hrelease : [Access.release s].count (.acquire r) = 0 := by simp
      rw [bracket, List.count_cons, List.count_append, ih, hrelease, List.count_cons]
      simp

/-- **Nested acquisition** leaves nothing behind, and nothing is used outside its
bracket. -/
theorem releasedOnce_bracket (hnodup : rs.Nodup) (huses : Uses rs.toFinset uses)
    (hr : .acquire r ∈ bracket rs uses) : ReleasedOnce (bracket rs uses) r := by
  refine releasedOnce_of_run (run_bracket hnodup (by simp) (by rwa [Finset.empty_union])) ?_
  have hpos := List.count_pos_iff.mpr hr
  rw [count_acquire_bracket huses] at hpos ⊢
  exact List.count_eq_one_of_mem hnodup (List.count_pos_iff.mp hpos)

/-! ## Two threads -/

/-- `zs` is made of `xs` and `ys`, each in its order. -/
inductive Interleave {α : Type} : List α → List α → List α → Prop where
  | nil : Interleave [] [] []
  | left {x : α} {xs ys zs : List α} (h : Interleave xs ys zs) :
      Interleave (x :: xs) ys (x :: zs)
  | right {y : α} {xs ys zs : List α} (h : Interleave xs ys zs) :
      Interleave xs (y :: ys) (y :: zs)

theorem Interleave.nil_left_iff {α : Type} {ys zs : List α} :
    Interleave [] ys zs ↔ zs = ys := by
  constructor
  · intro h
    induction ys generalizing zs with
    | nil =>
        cases h
        rfl
    | cons y ys ih =>
        cases h with
        | right h => rw [ih h]
  · rintro rfl
    induction zs with
    | nil => exact .nil
    | cons z zs ih => exact ih.right

theorem Interleave.eq_of_nil_right {α : Type} {xs zs : List α} (h : Interleave xs [] zs) :
    zs = xs := by
  induction xs generalizing zs with
  | nil =>
      cases h
      rfl
  | cons x xs ih =>
      cases h with
      | left h => rw [ih h]

end Custody
