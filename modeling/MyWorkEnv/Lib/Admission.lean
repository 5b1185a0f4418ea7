import MyWorkEnv.Lib.Transition

/-!
# A bound that is tested before it is used

A party that finds less than `bound` held is admitted. Later it enters, or gives
up, and does not look again. As many as there are parties can be admitted to the
same room, so what is held goes over the bound; by how much is the number of the
parties (`held_add_card_le`).
-/

namespace Transition

/-- What is held, and the parties that have been admitted and not yet entered. -/
@[ext]
structure Gate (ι : Type) where
  held : ℕ
  admitted : Finset ι

inductive GateMove (ι : Type) where
  | letIn (i : ι)
  | enter (i : ι)
  | giveUp (i : ι)
  | leave (k : ℕ)

variable {ι : Type} [DecidableEq ι] {bound : ℕ} {g : Gate ι}

namespace Gate

def can (bound : ℕ) (g : Gate ι) : GateMove ι → Prop
  | .letIn i => g.held < bound ∧ i ∉ g.admitted
  | .enter i | .giveUp i => i ∈ g.admitted
  | .leave k => k ≤ g.held

def next (g : Gate ι) : GateMove ι → Gate ι
  | .letIn i => { g with admitted := insert i g.admitted }
  | .enter i => ⟨g.held + 1, g.admitted.erase i⟩
  | .giveUp i => { g with admitted := g.admitted.erase i }
  | .leave k => { g with held := g.held - k }

/-- Those that have been admitted count as if they had entered. -/
theorem held_next [Fintype ι] {b : GateMove ι} (hb : g.can bound b)
    (h : g.held + g.admitted.card ≤ bound - 1 + Fintype.card ι) :
    (g.next b).held + (g.next b).admitted.card ≤ bound - 1 + Fintype.card ι := by
  cases b with
  | letIn i =>
      have hall := Finset.card_le_univ (insert i g.admitted)
      have hroom : g.held < bound := hb.1
      show g.held + (insert i g.admitted).card ≤ _
      omega
  | enter i =>
      have hcard := Finset.card_erase_add_one hb
      show g.held + 1 + (g.admitted.erase i).card ≤ _
      omega
  | giveUp i =>
      have hcard := Finset.card_erase_add_one hb
      show g.held + (g.admitted.erase i).card ≤ _
      omega
  | leave k =>
      show g.held - k + g.admitted.card ≤ _
      omega

end Gate

def gateSystem (ι : Type) [DecidableEq ι] (bound : ℕ) : System (Gate ι) (GateMove ι) where
  init g := g = ⟨0, ∅⟩
  enabled g b := g.can bound b
  next g b := g.next b

/-- **All parties may have been admitted to the last place.** -/
theorem held_add_card_le [Fintype ι] (h : Reachable (gateSystem ι bound) g) :
    g.held + g.admitted.card ≤ bound - 1 + Fintype.card ι := by
  refine h.invariant (I := fun g => g.held + g.admitted.card ≤ bound - 1 + Fintype.card ι) ?_ ?_
  · rintro g rfl
    exact Nat.zero_le _
  · intro g b hg hb _
    exact Gate.held_next hb hg

end Transition
