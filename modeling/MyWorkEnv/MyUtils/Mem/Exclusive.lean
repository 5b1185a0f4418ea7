import MyWorkEnv.Lib.Transition
import MyWorkEnv.MyUtils.Mem.Mem

/-!
# Who holds an id

Each client of the memory module keeps its id in a variable of its own, and
`MemRegister` trusts the id it finds there. `MemUnRegister` sets the variable
back when it wipes the slot; `MemModuleInit` wipes all slots and sets none of
them back. A variable left over from before still names its old slot, and when
somebody else has that slot by then, `MemRegister` hands it to both, and
`MemUnRegister` wipes it under the other. In runs without such calls, no two
clients hold one id.
-/

namespace MyWorkEnv

open MyMemWorker Transition

/-- The module, the id variables, and who holds its id: `MemRegister` succeeded for it since
the last `MemModuleInit` that took effect, and no `MemUnRegister` has set it back. -/
structure MemClients (V : Type) where
  worker : MyMemWorker
  var : V → ℤ
  holds : V → Bool

inductive MemIdCall (V : Type) where
  | moduleInit
  | moduleExit
  | register (v : V) (name : Option (List UInt8))
  | unRegister (v : V)

namespace MemClients

variable {V : Type} [DecidableEq V] {s : MemClients V}

def next (s : MemClients V) : MemIdCall V → MemClients V
  | .moduleInit =>
      { s with
        worker := (memModuleInit s.worker).2
        holds := if s.worker.inited then s.holds else fun _ => false }
  | .moduleExit => { s with worker := (memModuleExit s.worker).2 }
  | .register v name =>
      let r := memRegister s.worker (s.var v) name
      { worker := r.2.1
        var := Function.update s.var v r.2.2
        holds := if r.1 = mySuccess then Function.update s.holds v true else s.holds }
  | .unRegister v =>
      let r := memUnRegister s.worker (s.var v)
      { worker := r.2.1
        var := Function.update s.var v r.2.2
        holds := Function.update s.holds v (s.holds v && r.2.2 != myMemModuleInvalidId) }

/-- No id is held by two variables. -/
def Exclusive (s : MemClients V) : Prop :=
  ∀ v v', v ≠ v' → s.holds v = true → s.holds v' = true → s.var v ≠ s.var v'

/-- The call is not made on a variable whose id is left over and names a slot that is
registered. -/
def NotStale (s : MemClients V) : MemIdCall V → Prop
  | .moduleInit | .moduleExit => True
  | .register v _ | .unRegister v =>
      s.worker.inited = true → (s.worker.heldSlot (s.var v)).isSome = true → s.holds v = true

instance NotStale.decidable (s : MemClients V) : ∀ a, Decidable (s.NotStale a)
  | .moduleInit | .moduleExit => .isTrue trivial
  | .register v _ | .unRegister v =>
      inferInstanceAs (Decidable (s.worker.inited = true →
        (s.worker.heldSlot (s.var v)).isSome = true → s.holds v = true))

end MemClients

open MemClients

def memClientSystem (V : Type) [DecidableEq V] : System (MemClients V) (MemIdCall V) where
  init s := s = ⟨.start, fun _ => myMemModuleInvalidId, fun _ => false⟩
  enabled _ a := match a with
    | .register _ name => nameFits name = true
    | _ => True
  next := MemClients.next

variable {V : Type} [DecidableEq V] {s : MemClients V}

/-- Who holds an id has a registered slot. -/
structure MemClients.Placed (s : MemClients V) : Prop where
  wf : s.worker.Wf
  slot : ∀ v, s.holds v = true →
    ∃ i : Fin myMemModuleMaxNum, s.var v = (i : ℕ) ∧ (s.worker.nodes i).registered = true
  exclusive : s.Exclusive

namespace MemClients.Placed

theorem moduleInit (h : s.Placed) : (s.next .moduleInit).Placed := by
  cases hinited : s.worker.inited with
  | true =>
      have heq : s.next .moduleInit = s := by
        simp [next, memModuleInit, hinited]
      rw [heq]
      exact h
  | false =>
      have hnone : ∀ v, (s.next .moduleInit).holds v = false := by
        simp [next, hinited]
      refine ⟨wf_memModuleInit hinited, ?_, ?_⟩
      · intro v hv
        rw [hnone v] at hv
        cases hv
      · intro v v' _ hv
        rw [hnone v] at hv
        cases hv

/-- A new slot is nobody's. -/
theorem register (h : s.Placed) {v : V} {name : Option (List UInt8)}
    (hstale : s.NotStale (.register v name)) : (s.next (.register v name)).Placed := by
  rcases memRegister_cases s.worker (s.var v) name with
    ⟨hsame, hret⟩ | ⟨i, text, hinited, hnone, hfree, hnew⟩
  · have hholds : (s.next (.register v name)).holds = s.holds := by
      simp only [next]
      split_ifs with hsuccess
      · have hinited := inited_of_memRegister hsuccess
        rw [Function.update_eq_self_iff]
        exact (hstale hinited (hret hsuccess)).symm
      · rfl
    have hvar : (s.next (.register v name)).var = s.var := by
      simp [next, hsame]
    have hworker : (s.next (.register v name)).worker = s.worker := by
      simp [next, hsame]
    refine ⟨?_, ?_, ?_⟩
    · rw [hworker]
      exact h.wf
    · rw [hworker, hvar, hholds]
      exact h.slot
    · unfold Exclusive
      rw [hvar, hholds]
      exact h.exclusive
  · have hold := not_registered_of_freeSlot hfree
    have hnext : s.next (.register v name) =
        ⟨s.worker.setNode i (.fresh i text), Function.update s.var v (i : ℕ),
          Function.update s.holds v true⟩ := by
      simp [next, hnew]
    have hapart : ∀ u, s.holds u = true → s.var u ≠ (i : ℕ) := by
      intro u hu hui
      obtain ⟨j, hj, hreg⟩ := h.slot u hu
      rw [hui] at hj
      rw [← Fin.ext (Nat.cast_inj.mp hj), hold] at hreg
      cases hreg
    rw [hnext]
    refine ⟨h.wf.setNode fun _ => MyMemNode.fresh_memModuleId i text, ?_, ?_⟩
    · intro u hu
      by_cases huv : u = v
      · subst huv
        exact ⟨i, by simp, by simp [MyMemNode.fresh]⟩
      · simp only [Function.update_of_ne huv] at hu ⊢
        obtain ⟨j, hj, hreg⟩ := h.slot u hu
        refine ⟨j, hj, ?_⟩
        have hji : j ≠ i := by
          rintro rfl
          exact hapart u hu hj
        rw [setNode_of_ne hji]
        exact hreg
    · intro u u' hne hu hu'
      simp only at hu hu' ⊢
      by_cases huv : u = v
      · subst huv
        rw [Function.update_of_ne hne.symm] at hu' ⊢
        rw [Function.update_self]
        exact (hapart u' hu').symm
      · rw [Function.update_of_ne huv] at hu ⊢
        by_cases huv' : u' = v
        · subst huv'
          rw [Function.update_self]
          exact hapart u hu
        · rw [Function.update_of_ne huv'] at hu' ⊢
          exact h.exclusive u u' hne hu hu'

/-- The slot that is wiped is the caller's own. -/
theorem unRegister (h : s.Placed) {v : V} (hstale : s.NotStale (.unRegister v)) :
    (s.next (.unRegister v)).Placed := by
  rcases memUnRegister_cases s.worker (s.var v) with ⟨hsame, -⟩ | ⟨i, hinited, hheld, hnew⟩
  · have hsub : ∀ u, (s.next (.unRegister v)).holds u = true → s.holds u = true := by
      intro u hu
      by_cases huv : u = v
      · subst huv
        simp only [next, Function.update_self, Bool.and_eq_true] at hu
        exact hu.1
      · simpa only [next, Function.update_of_ne huv] using hu
    have hvar : (s.next (.unRegister v)).var = s.var := by
      simp [next, hsame]
    have hworker : (s.next (.unRegister v)).worker = s.worker := by
      simp [next, hsame]
    refine ⟨?_, ?_, ?_⟩
    · rw [hworker]
      exact h.wf
    · rw [hworker, hvar]
      exact fun u hu => h.slot u (hsub u hu)
    · unfold Exclusive
      rw [hvar]
      exact fun u u' hne hu hu' => h.exclusive u u' hne (hsub u hu) (hsub u' hu')
  · have hv := hstale hinited (by rw [hheld]; rfl)
    have hvi := (heldSlot_eq_some.mp hheld).1
    have hnext : s.next (.unRegister v) =
        ⟨s.worker.setNode i .zero, Function.update s.var v myMemModuleInvalidId,
          Function.update s.holds v false⟩ := by
      simp [next, hnew]
    have hother : ∀ u, Function.update s.holds v false u = true → u ≠ v ∧ s.holds u = true := by
      intro u hu
      by_cases huv : u = v
      · subst huv
        simp at hu
      · rw [Function.update_of_ne huv] at hu
        exact ⟨huv, hu⟩
    rw [hnext]
    refine ⟨h.wf.setNode fun hreg => absurd hreg Bool.false_ne_true, ?_, ?_⟩
    · intro u hu
      obtain ⟨huv, hholds⟩ := hother u hu
      obtain ⟨j, hj, hreg⟩ := h.slot u hholds
      refine ⟨j, ?_, ?_⟩
      · rw [← hj]
        exact Function.update_of_ne huv _ _
      · have hji : j ≠ i := by
          rintro rfl
          exact h.exclusive u v huv hholds hv (hj.trans hvi.symm)
        rw [setNode_of_ne hji]
        exact hreg
    · intro u u' hne hu hu'
      obtain ⟨huv, hu⟩ := hother u hu
      obtain ⟨huv', hu'⟩ := hother u' hu'
      simp only [Function.update_of_ne huv, Function.update_of_ne huv']
      exact h.exclusive u u' hne hu hu'

end MemClients.Placed

/-- **In runs in which no call finds a left-over id in its variable whose slot is registered,
no two variables hold one id.** -/
theorem memIds_exclusive (h : Reach (memClientSystem V) MemClients.NotStale s) :
    s.Exclusive := by
  have hplaced : s.Placed := by
    refine h.invariant ?_ ?_
    · rintro s rfl
      refine ⟨wf_start, ?_, ?_⟩
      · intro v hv
        cases hv
      · intro v v' _ hv
        cases hv
    · intro s a h _ hstale
      cases a with
      | moduleInit => exact h.moduleInit
      | moduleExit =>
          have hexit : s.next .moduleExit =
              { s with worker := { s.worker with inited := false } } := by
            simp [MemClients.next, memModuleExit_eq]
          change (s.next .moduleExit).Placed
          rw [hexit]
          exact ⟨h.wf, h.slot, h.exclusive⟩
      | register v name => exact h.register hstale
      | unRegister v => exact h.unRegister hstale
  exact hplaced.exclusive

instance (s : MemClients V) : ∀ a, Decidable ((memClientSystem V).enabled s a)
  | .register _ name => inferInstanceAs (Decidable (nameFits name = true))
  | .moduleInit | .moduleExit | .unRegister _ => .isTrue trivial

/-- Clients `0`, `1` and `2`, before the first `MemModuleInit`. -/
def threeClients : MemClients (Fin 3) := ⟨.start, fun _ => myMemModuleInvalidId, fun _ => false⟩

def registers (v : Fin 3) : MemIdCall (Fin 3) := .register v (some (CString.ascii ['U', 'T']))

/-- The first client gives its slot back, and the third gets it. -/
theorem memIds_exclusive_run :
    ∃ s : MemClients (Fin 3), s.holds 1 = true ∧ s.holds 2 = true ∧ s.var 1 = 2 ∧ s.var 2 = 1 ∧
      s.Exclusive := by
  have hreach : Reach (memClientSystem (Fin 3)) MemClients.NotStale
      (exec (memClientSystem (Fin 3)) threeClients
        [.moduleInit, registers 0, registers 1, .unRegister 0, registers 2]) :=
    Reach.exec (.init rfl) (by decide)
  exact ⟨_, by decide, by decide, by decide, by decide,
    memIds_exclusive hreach⟩

/-- The first client has its id from before the second `MemModuleInit`, the second client got
the same slot after it, and now `MemRegister` succeeds for the first one too. -/
theorem memId_shared :
    ∃ s, Reachable (memClientSystem (Fin 3)) s ∧ ¬ s.Exclusive := by
  refine ⟨exec (memClientSystem (Fin 3)) threeClients [.moduleInit, registers 0, .moduleExit,
    .moduleInit, registers 1, registers 0], Reach.exec (.init rfl) (by decide), ?_⟩
  intro hexclusive
  exact hexclusive 0 1 (by decide) (by decide) (by decide) (by decide)

end MyWorkEnv
