import Mathlib.Tactic

/-!
# Guarded-command systems

A system is given by its initial states, the condition under which an action
may be taken, and the state it leads to. `Reach M P` are the states of the
runs whose steps all meet `P`; with `P` trivially true these are all reachable
states. `Reach.invariant` packages the induction over runs once: what holds
initially and is kept by each step holds in every state of every run.
`Legal.always_iff` and `Legal.final_iff` do the same for a property that some
steps break: it holds in a run if and only if the run has no such step.
-/

namespace Transition

structure System (S A : Type) where
  init : S → Prop
  enabled : S → A → Prop
  next : S → A → S

variable {S A : Type} {M : System S A} {P : S → A → Prop}

/-- States reached by steps that all meet `P`. -/
inductive Reach (M : System S A) (P : S → A → Prop) : S → Prop where
  | init {s : S} (h : M.init s) : Reach M P s
  | step {s : S} {a : A} (h : Reach M P s) (ha : M.enabled s a) (hp : P s a) :
      Reach M P (M.next s a)

abbrev Reachable (M : System S A) : S → Prop := Reach M (fun _ _ => True)

theorem Reach.mono {Q : S → A → Prop} (hPQ : ∀ s a, P s a → Q s a) {s : S}
    (h : Reach M P s) : Reach M Q s := by
  induction h with
  | init h => exact .init h
  | step _ ha hp ih => exact .step ih ha (hPQ _ _ hp)

/-- **Invariant rule.** -/
theorem Reach.invariant {I : S → Prop} (hinit : ∀ s, M.init s → I s)
    (hstep : ∀ s a, I s → M.enabled s a → P s a → I (M.next s a)) {s : S}
    (h : Reach M P s) : I s := by
  induction h with
  | init h => exact hinit _ h
  | step _ ha hp ih => exact hstep _ _ ih ha hp

/-- The invariant rule with an invariant `J` already established. -/
theorem Reach.invariant_of {I J : S → Prop} (hJ : ∀ s, Reach M P s → J s)
    (hinit : ∀ s, M.init s → I s)
    (hstep : ∀ s a, J s → I s → M.enabled s a → P s a → I (M.next s a)) {s : S}
    (h : Reach M P s) : I s := by
  induction h with
  | init h => exact hinit _ h
  | step hr ha hp ih => exact hstep _ _ (hJ _ hr) ih ha hp

/-! ## Continuations and views -/

/-- The runs that go on from `s`. -/
def System.onward (M : System S A) (s : S) : System S A := { M with init := (· = s) }

instance System.onward.decidable [∀ x a, Decidable (M.enabled x a)] (s x : S) (a : A) :
    Decidable ((M.onward s).enabled x a) :=
  inferInstanceAs (Decidable (M.enabled x a))

theorem Reach.trans {s s' : S} (h : Reach M P s) (h' : Reach (M.onward s) P s') :
    Reach M P s' := by
  induction h' with
  | init hs =>
      rw [hs]
      exact h
  | step _ ha hp ih => exact .step ih ha hp

/-- **Simulation.** Seen through `view`, each step from a state with `J` is one
step of `M'`, or none. -/
theorem Reach.view {S' A' : Type} {M' : System S' A'} {Q : S' → A' → Prop} {J : S → Prop}
    (view : S → S') (hJ : ∀ s, Reach M P s → J s) (hinit : ∀ s, M.init s → M'.init (view s))
    (hstep : ∀ s a, J s → M.enabled s a → P s a → view (M.next s a) = view s ∨
      ∃ b, M'.enabled (view s) b ∧ Q (view s) b ∧ view (M.next s a) = M'.next (view s) b)
    {s : S} (h : Reach M P s) : Reach M' Q (view s) := by
  induction h with
  | init h => exact .init (hinit _ h)
  | @step s a hr ha hp ih =>
      rcases hstep s a (hJ s hr) ha hp with heq | ⟨b, hb, hq, heq⟩
      · rw [heq]
        exact ih
      · rw [heq]
        exact .step ih hb hq

/-! ## Concrete runs -/

/-- Take the actions in order, whether or not they are enabled. -/
def exec (M : System S A) (s : S) (as : List A) : S := as.foldl M.next s

/-- Every action is enabled, and meets `P`, where it is taken. -/
def Legal (M : System S A) (P : S → A → Prop) : S → List A → Prop
  | _, [] => True
  | s, a :: as => M.enabled s a ∧ P s a ∧ Legal M P (M.next s a) as

instance Legal.decidable [∀ s a, Decidable (M.enabled s a)] [∀ s a, Decidable (P s a)] :
    ∀ (s : S) (as : List A), Decidable (Legal M P s as)
  | _, [] => .isTrue trivial
  | s, a :: as =>
      have := Legal.decidable (M.next s a) as
      inferInstanceAs (Decidable (_ ∧ _ ∧ _))

theorem Reach.exec {s : S} {as : List A} (h : Reach M P s) (hl : Legal M P s as) :
    Reach M P (exec M s as) := by
  induction as generalizing s with
  | nil => exact h
  | cons a as ih => exact ih (.step h hl.1 hl.2.1) hl.2.2

theorem Legal.mono {Q : S → A → Prop} (hPQ : ∀ s a, P s a → Q s a) {s : S} {as : List A}
    (h : Legal M P s as) : Legal M Q s as := by
  induction as generalizing s with
  | nil => trivial
  | cons a as ih => exact ⟨h.1, hPQ _ _ h.2.1, ih h.2.2⟩

theorem exec_append {s : S} {as bs : List A} : exec M s (as ++ bs) = exec M (exec M s as) bs :=
  List.foldl_append

theorem Legal.append {s : S} {as bs : List A} (ha : Legal M P s as)
    (hb : Legal M P (Transition.exec M s as) bs) : Legal M P s (as ++ bs) := by
  induction as generalizing s with
  | nil => exact hb
  | cons a as ih => exact ⟨ha.1, ha.2.1, ih ha.2.2 hb⟩

/-! ## Exactly which runs -/

/-- `I` holds in every state of the run. -/
def Always (M : System S A) (I : S → Prop) : S → List A → Prop
  | s, [] => I s
  | s, a :: as => I s ∧ Always M I (M.next s a) as

theorem Always.head {I : S → Prop} {s : S} {as : List A} (h : Always M I s as) : I s := by
  cases as with
  | nil => exact h
  | cons a as => exact h.1

/-- What holds of all states that steps meeting `P` reach, holds throughout their runs. -/
theorem Legal.always {I : S → Prop} (hI : ∀ s, Reach M P s → I s) {s : S} {as : List A}
    (hr : Reach M P s) (hl : Legal M P s as) : Always M I s as := by
  induction as generalizing s with
  | nil => exact hI s hr
  | cons a as ih => exact ⟨hI s hr, ih (.step hr hl.1 hl.2.1) hl.2.2⟩

/-- If a step keeps `I` just when it meets `Q`, `I` is kept throughout by the runs of `Q`. -/
theorem Legal.always_iff {I : S → Prop} {Q : S → A → Prop}
    (hstep : ∀ s a, Reach M P s → I s → M.enabled s a → P s a → (I (M.next s a) ↔ Q s a))
    {s : S} {as : List A} (hr : Reach M P s) (hi : I s) (hl : Legal M P s as) :
    Always M I s as ↔ Legal M Q s as := by
  induction as generalizing s with
  | nil => exact iff_of_true hi trivial
  | cons a as ih =>
      obtain ⟨ha, hp, hl⟩ := hl
      have hkeep := hstep s a hr hi ha hp
      constructor
      · rintro ⟨-, hall⟩
        have hnext := hall.head
        exact ⟨ha, hkeep.mp hnext, (ih (.step hr ha hp) hnext hl).mp hall⟩
      · rintro ⟨-, hq, hq'⟩
        have hnext := hkeep.mpr hq
        exact ⟨hi, (ih (.step hr ha hp) hnext hl).mpr hq'⟩

/-- If no step restores `I`, it holds at the end of just the runs that keep it. -/
theorem Legal.final_iff {I : S → Prop} {Q : S → A → Prop}
    (hstep : ∀ s a, Reach M P s → M.enabled s a → P s a → (I (M.next s a) ↔ I s ∧ Q s a))
    {s : S} {as : List A} (hr : Reach M P s) (hl : Legal M P s as) :
    I (Transition.exec M s as) ↔ I s ∧ Legal M Q s as := by
  induction as generalizing s with
  | nil => exact (and_iff_left trivial).symm
  | cons a as ih =>
      obtain ⟨ha, hp, hl⟩ := hl
      have htail := ih (.step hr ha hp) hl
      rw [hstep s a hr ha hp, and_assoc] at htail
      exact htail.trans (and_congr_right fun _ => (and_iff_right ha).symm)

end Transition
