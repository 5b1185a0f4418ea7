import MyWorkEnv.Lib.Transition

/-!
# Coming to rest

Some of the steps of a system are work it has begun, others bring it more. A
measure that each step of the first kind lowers bounds every run of them
(`Measure.length_le`), so such a run can be taken on until none is enabled
(`Measure.exists_rest`). What holds where the system is at rest is then what
its work comes to, whatever the order of the steps.
-/

namespace Transition

variable {S A : Type} {M : System S A} {Q : S → A → Prop} {J : S → Prop} {μ : S → ℕ}

/-- No step with `Q` is enabled. -/
def AtRest (M : System S A) (Q : S → A → Prop) (s : S) : Prop :=
  ∀ a, M.enabled s a → ¬ Q s a

/-- Where `J` holds, the steps with `Q` keep it and lower `μ`. -/
structure Measure (M : System S A) (Q : S → A → Prop) (J : S → Prop) (μ : S → ℕ) : Prop where
  keeps : ∀ s a, J s → M.enabled s a → Q s a → J (M.next s a)
  drops : ∀ s a, J s → M.enabled s a → Q s a → μ (M.next s a) < μ s

namespace Measure

theorem mono {R : S → A → Prop} (h : Measure M Q J μ) (hRQ : ∀ s a, R s a → Q s a) :
    Measure M R J μ where
  keeps s a hj ha hr := h.keeps s a hj ha (hRQ s a hr)
  drops s a hj ha hr := h.drops s a hj ha (hRQ s a hr)

theorem legal_keeps (h : Measure M Q J μ) {s : S} {as : List A} (hj : J s)
    (hl : Legal M Q s as) : J (exec M s as) := by
  induction as generalizing s with
  | nil => exact hj
  | cons a as ih => exact ih (h.keeps s a hj hl.1 hl.2.1) hl.2.2

/-- A run costs at least one for each step. -/
theorem length_add_le (h : Measure M Q J μ) {s : S} {as : List A} (hj : J s)
    (hl : Legal M Q s as) : as.length + μ (exec M s as) ≤ μ s := by
  induction as generalizing s with
  | nil => exact (Nat.zero_add _).le
  | cons a as ih =>
      have htail := ih (h.keeps s a hj hl.1 hl.2.1) hl.2.2
      have hdrop := h.drops s a hj hl.1 hl.2.1
      have hexec : exec M s (a :: as) = exec M (M.next s a) as := rfl
      rw [hexec, List.length_cons]
      omega

/-- **Every run is bounded.** -/
theorem length_le (h : Measure M Q J μ) {s : S} {as : List A} (hj : J s)
    (hl : Legal M Q s as) : as.length ≤ μ s :=
  (Nat.le_add_right _ _).trans (h.length_add_le hj hl)

/-- **And every run goes on to a rest.** -/
theorem exists_rest (h : Measure M Q J μ) {s : S} (hj : J s) :
    ∃ as, Legal M Q s as ∧ AtRest M Q (exec M s as) := by
  induction hn : μ s using Nat.strong_induction_on generalizing s with
  | _ n ih =>
      by_cases hrest : AtRest M Q s
      · exact ⟨[], trivial, hrest⟩
      · simp only [AtRest, not_forall, not_not] at hrest
        obtain ⟨a, ha, hq⟩ := hrest
        obtain ⟨as, hl, has⟩ := ih (μ (M.next s a)) (hn ▸ h.drops s a hj ha hq)
          (h.keeps s a hj ha hq) rfl
        exact ⟨a :: as, ⟨ha, hq, hl⟩, has⟩

end Measure

/-! ## Measures that are sums -/

variable {ι : Type} {I : Finset ι} {f f' : ι → ℕ}

/-- One part goes down by more than `c`, and the others stay. -/
theorem sum_drop {i : ι} {c d : ℕ} (hi : i ∈ I) (hsame : ∀ j ∈ I, j ≠ i → f' j = f j)
    (hdrop : f' i + c < f i + d) : ∑ j ∈ I, f' j + c < ∑ j ∈ I, f j + d := by
  classical
  have hbefore := Finset.add_sum_erase I f hi
  have hafter := Finset.add_sum_erase I f' hi
  have hrest : ∑ j ∈ I.erase i, f' j = ∑ j ∈ I.erase i, f j := by
    apply Finset.sum_congr rfl
    intro j hj
    exact hsame j (Finset.mem_of_mem_erase hj) (Finset.ne_of_mem_erase hj)
  omega

/-- No part goes up by more than `c`. -/
theorem sum_le_add {c : ℕ} (h : ∀ i ∈ I, f' i ≤ f i + c) :
    ∑ i ∈ I, f' i ≤ ∑ i ∈ I, f i + I.card * c := by
  have hsum := Finset.sum_le_sum h
  rwa [Finset.sum_add_distrib, Finset.sum_const, smul_eq_mul] at hsum

end Transition
