import MyWorkEnv.MyUtils.TPool.Task

/-!
# Caller and worker of one task

What the two sides of `taskSystem` know about each other, as invariants.
-/

namespace MyWorkEnv

open Transition

namespace Task

variable {k : Task}

/-! ## What was done with a node by now -/

/-- The one call the worker makes. -/
def calls (k : Task) : List (ℕ × ℕ) := k.node.taskFunc.toList.map (·, k.node.taskArg)

def Log (k : Task) (started : List (ℕ × ℕ)) (returned : ℕ) (fate : Fate) (nodeFrees : ℕ) :
    Prop :=
  k.started = started ∧ k.returned = returned ∧ k.fate = fate ∧ k.nodeFrees = nodeFrees

/-- Run and counted, or skipped. -/
def Settled (k : Task) (nodeFrees : ℕ) : Prop :=
  k.Log k.calls 1 .succeeded nodeFrees ∨ k.Log [] 0 .skipped nodeFrees

/-- What has happened to a node at each stage. -/
def Logged (k : Task) : Stage → Prop
  | .outside | .waiting | .inBody .test => k.Log [] 0 .pending 0
  | .inBody .call => k.node.taskFunc.isSome ∧ k.Log [] 0 .pending 0
  | .inBody .running => k.node.taskFunc.isSome ∧ k.Log k.calls 0 .pending 0
  | .inBody (.teardown _ true) => k.node.taskFunc.isSome ∧ k.Log [] 0 .skipped 0
  | .inBody .unlink | .inBody .free => k.node.taskFunc.isSome ∧ k.Settled 0
  | .inBody _ => k.node.taskFunc.isSome ∧ k.Log k.calls 1 .pending 0
  | .passed => k.node.taskFunc = none ∧ k.Log [] 0 .passedOver 0
  | .done => k.node.taskFunc.isSome ∧ k.Settled 1

/-- A node is freed at the end of its turn only. -/
theorem Logged.nodeFrees {k : Task} {g : Stage} (h : k.Logged g) (hg : g ≠ .done) :
    k.nodeFrees = 0 := by
  unfold Logged Settled Log at h
  split at h
  · exact h.2.2.2
  · exact h.2.2.2
  · exact h.2.2.2
  · exact h.2.2.2.2
  · exact h.2.2.2.2
  · exact h.2.2.2.2
  · rcases h.2 with hlog | hlog <;> exact hlog.2.2.2
  · rcases h.2 with hlog | hlog <;> exact hlog.2.2.2
  · exact h.2.2.2.2
  · exact h.2.2.2.2
  · exact absurd rfl hg

/-- A worker calls a function once at most. -/
theorem Logged.started_le {k : Task} {g : Stage} (h : k.Logged g) : k.started.length ≤ 1 := by
  have hcalls : k.calls.length ≤ 1 := by
    unfold calls
    cases k.node.taskFunc <;> simp
  have hor : k.started = [] ∨ k.started = k.calls := by
    unfold Logged Settled Log at h
    split at h
    · exact .inl h.1
    · exact .inl h.1
    · exact .inl h.1
    · exact .inl h.2.1
    · exact .inr h.2.1
    · exact .inl h.2.1
    · exact h.2.elim (fun hlog => .inr hlog.1) (fun hlog => .inl hlog.1)
    · exact h.2.elim (fun hlog => .inr hlog.1) (fun hlog => .inl hlog.1)
    · exact .inr h.2.1
    · exact .inl h.2.1
    · exact h.2.elim (fun hlog => .inr hlog.1) (fun hlog => .inl hlog.1)
  rcases hor with h | h <;> simp [h, hcalls]

/-- The node is filled in. -/
def Filled (k : Task) : Prop :=
  k.node.taskFunc = k.call.taskFunc ∧ k.node.taskArg = k.call.taskArg ∧
    k.node.hasTimeOut = k.call.sync

structure Sound (k : Task) : Prop where
  logged : k.Logged k.stage
  early : k.call.pc.early = true → k.stage = .outside
  sync : ∀ b, k.call.pc.inSync = some b → k.call.sync = b
  filled : k.stage ≠ .outside ∨ k.call.pc = .addInsert ∨ k.call.pc = .waitInsert → k.Filled

/-- Nothing a log speaks of has changed. -/
structure SameLog (k k' : Task) : Prop where
  started : k'.started = k.started
  returned : k'.returned = k.returned
  fate : k'.fate = k.fate
  nodeFrees : k'.nodeFrees = k.nodeFrees
  taskFunc : k'.node.taskFunc = k.node.taskFunc
  taskArg : k'.node.taskArg = k.node.taskArg
  hasTimeOut : k'.node.hasTimeOut = k.node.hasTimeOut
  callFunc : k'.call.taskFunc = k.call.taskFunc
  callArg : k'.call.taskArg = k.call.taskArg
  sync : k'.call.sync = k.call.sync

variable {k' : Task}

theorem SameLog.calls (h : SameLog k k') : k'.calls = k.calls := by
  simp [Task.calls, h.taskFunc, h.taskArg]

theorem SameLog.log (h : SameLog k k') {started : List (ℕ × ℕ)} {returned nodeFrees : ℕ}
    {fate : Fate} :
    k'.Log started returned fate nodeFrees ↔ k.Log started returned fate nodeFrees := by
  simp [Log, h.started, h.returned, h.fate, h.nodeFrees]

theorem SameLog.logged (h : SameLog k k') (g : Stage) : k'.Logged g ↔ k.Logged g := by
  unfold Logged Settled
  split <;> simp [h.log, h.calls, h.taskFunc]

theorem SameLog.filled (h : SameLog k k') : k'.Filled ↔ k.Filled := by
  simp [Filled, h.taskFunc, h.taskArg, h.hasTimeOut, h.callFunc, h.callArg, h.sync]

theorem SameLog.goto (k : Task) (pc : CallPc) : SameLog k (k.goto pc) := by
  constructor <;> rfl

theorem SameLog.tear (k : Task) (c : Teardown) : SameLog k (k.tear c) := by
  cases c <;> constructor <;> rfl

theorem SameLog.trans {k'' : Task} (h : SameLog k k') (h' : SameLog k' k'') : SameLog k k'' where
  started := h'.started.trans h.started
  returned := h'.returned.trans h.returned
  fate := h'.fate.trans h.fate
  nodeFrees := h'.nodeFrees.trans h.nodeFrees
  taskFunc := h'.taskFunc.trans h.taskFunc
  taskArg := h'.taskArg.trans h.taskArg
  hasTimeOut := h'.hasTimeOut.trans h.hasTimeOut
  callFunc := h'.callFunc.trans h.callFunc
  callArg := h'.callArg.trans h.callArg
  sync := h'.sync.trans h.sync

theorem SameLog.caller (k : Task) (a : CallerAction) : SameLog k (k.caller a) := by
  unfold Task.caller
  split
  · exact .goto k _
  · exact .goto k _
  · split
    · exact ⟨rfl, rfl, rfl, rfl, rfl, rfl, rfl, rfl, rfl, rfl⟩
    · exact ⟨rfl, rfl, rfl, rfl, rfl, rfl, rfl, rfl, rfl, rfl⟩
    · split_ifs
      · exact ⟨rfl, rfl, rfl, rfl, rfl, rfl, rfl, rfl, rfl, rfl⟩
      · exact .goto k _
    · exact ⟨rfl, rfl, rfl, rfl, rfl, rfl, rfl, rfl, rfl, rfl⟩
    · split_ifs <;> exact .goto k _
    · exact (SameLog.tear k _).trans (.goto _ _)
    · exact ⟨rfl, rfl, rfl, rfl, rfl, rfl, rfl, rfl, rfl, rfl⟩

theorem SameLog.insert (k : Task) (clockOk : Bool) : SameLog k (k.insert clockOk) := by
  unfold Task.insert
  split
  · exact ⟨rfl, rfl, rfl, rfl, rfl, rfl, rfl, rfl, rfl, rfl⟩
  · split_ifs
    · exact ⟨rfl, rfl, rfl, rfl, rfl, rfl, rfl, rfl, rfl, rfl⟩
    · exact .goto k _
  · exact ⟨rfl, rfl, rfl, rfl, rfl, rfl, rfl, rfl, rfl, rfl⟩

/-- What the body keeps of the task; two of its steps are there to change something. -/
theorem bodyEffect_kept (pc : BodyPc) :
    (k.bodyEffect pc).node = k.node ∧
      (pc ≠ .running → (k.bodyEffect pc).returned = k.returned) ∧
      (pc ≠ .call → (k.bodyEffect pc).started = k.started) := by
  cases pc with
  | running => exact ⟨rfl, fun hpc => absurd rfl hpc, fun _ => rfl⟩
  | call => exact ⟨rfl, fun _ => rfl, fun hpc => absurd rfl hpc⟩
  | test =>
      simp only [bodyEffect]
      split_ifs <;> exact ⟨rfl, fun _ => rfl, fun _ => rfl⟩
  | signalTask =>
      simp only [bodyEffect]
      split_ifs <;> exact ⟨rfl, fun _ => rfl, fun _ => rfl⟩
  | teardown c skipped => cases c <;> exact ⟨rfl, fun _ => rfl, fun _ => rfl⟩
  | _ => exact ⟨rfl, fun _ => rfl, fun _ => rfl⟩

theorem bodyEffect_node (pc : BodyPc) : (k.bodyEffect pc).node = k.node :=
  (bodyEffect_kept pc).1

theorem bodyEffect_returned {pc : BodyPc} (hpc : pc ≠ .running) :
    (k.bodyEffect pc).returned = k.returned :=
  (bodyEffect_kept pc).2.1 hpc

theorem bodyEffect_started {pc : BodyPc} (hpc : pc ≠ .call) :
    (k.bodyEffect pc).started = k.started :=
  (bodyEffect_kept pc).2.2 hpc

theorem Sound.init : Sound init where
  logged := ⟨rfl, rfl, rfl, rfl⟩
  early _ := rfl
  sync b hb := by simp [Task.init, CallPc.inSync] at hb
  filled h := by
    rcases h with h | h | h <;> simp [Task.init] at h

theorem logged_next {pc : BodyPc} (pc' : BodyPc) (hnext : k.bodyNext pc = some pc')
    (h : (k.bodyEffect pc).Logged (.inBody pc')) :
    (k.next (.body pc)).Logged (k.next (.body pc)).stage := by
  rw [body_stage, hnext]
  exact (SameLog.logged ⟨rfl, rfl, rfl, rfl, rfl, rfl, rfl, rfl, rfl, rfl⟩ _).mpr h

/-- The first test decides whether the function is called. -/
theorem logged_test (h : k.Logged (.inBody .test)) :
    (k.next (.body .test)).Logged (k.next (.body .test)).stage := by
  obtain ⟨hstarted, hreturned, hfate, hfrees⟩ := h
  cases hfunc : k.node.taskFunc with
  | none =>
      rw [body_stage]
      simp [bodyNext, next, body, bodyEffect, hfunc, Logged, Log, hstarted, hreturned, hfrees]
  | some f =>
      have hsome : k.node.taskFunc.isSome = true := by simp [hfunc]
      by_cases htime : k.isTimeout = true
      · have heff : k.bodyEffect .test = { k with fate := .skipped } := by
          simp [bodyEffect, hfunc, htime]
        refine logged_next (.teardown .destroyLock true) ?_ ?_
        · simp [bodyNext, hfunc, htime]
        · rw [heff]
          exact ⟨hsome, hstarted, hreturned, rfl, hfrees⟩
      · have heff : k.bodyEffect .test = k := by
          simp [bodyEffect, hfunc, htime]
        refine logged_next .call ?_ ?_
        · simp [bodyNext, hfunc, htime]
        · rw [heff]
          exact ⟨hsome, hstarted, hreturned, hfate, hfrees⟩

theorem logged_free (h : k.Logged (.inBody .free)) :
    (k.next (.body .free)).Logged (k.next (.body .free)).stage := by
  obtain ⟨hsome, hsettled⟩ := h
  have hfree : k.nodeFrees = 0 → (k.next (.body .free)).nodeFrees = 1 := by
    intro hfrees
    show k.nodeFrees + 1 = 1
    rw [hfrees]
  refine ⟨hsome, hsettled.imp ?_ ?_⟩
  · rintro ⟨hstarted, hreturned, hfate, hfrees⟩
    exact ⟨hstarted, hreturned, hfate, hfree hfrees⟩
  · rintro ⟨hstarted, hreturned, hfate, hfrees⟩
    exact ⟨hstarted, hreturned, hfate, hfree hfrees⟩

/-- What a step of the loop body adds to the log. -/
theorem logged_body {pc : BodyPc} (h : k.Logged (.inBody pc)) :
    (k.next (.body pc)).Logged (k.next (.body pc)).stage := by
  cases pc with
  | test => exact logged_test h
  | call =>
      obtain ⟨hsome, hstarted, hlog⟩ := h
      refine logged_next _ rfl ⟨hsome, ?_, hlog⟩
      show k.started ++ k.calls = k.calls
      rw [hstarted, List.nil_append]
  | running =>
      obtain ⟨hsome, hstarted, hreturned, hlog⟩ := h
      refine logged_next _ rfl ⟨hsome, hstarted, ?_, hlog⟩
      show k.returned + 1 = 1
      rw [hreturned]
  | testAgain =>
      cases hnext : k.bodyNext .testAgain with
      | none => exact absurd (bodyNext_none hnext) (by simp)
      | some pc' =>
          apply logged_next _ hnext
          simp only [bodyNext] at hnext
          split_ifs at hnext <;> (cases hnext; exact h)
  | lockTask => exact logged_next _ rfl h
  | signalTask =>
      apply logged_next _ rfl
      simp only [bodyEffect]
      split_ifs
      · exact h
      · exact h
  | unlockTask => exact logged_next _ rfl h
  | teardown c skipped =>
      cases c with
      | freeCond =>
          cases skipped with
          | true => exact logged_next _ rfl ⟨h.1, .inr h.2⟩
          | false => exact logged_next _ rfl h
      | _ => cases skipped <;> exact logged_next _ rfl h
  | count =>
      obtain ⟨hsome, hstarted, hreturned, -, hfrees⟩ := h
      exact logged_next _ rfl ⟨hsome, .inl ⟨hstarted, hreturned, rfl, hfrees⟩⟩
  | unlink => exact logged_next _ rfl h
  | free => exact logged_free h

theorem sync_caller {a : CallerAction} (h : ∀ b, k.call.pc.inSync = some b → k.call.sync = b)
    (hg : k.mayCaller a = true) : ∀ b, (k.caller a).call.pc.inSync = some b → k.call.sync = b := by
  have hold : k.call.sync = true := by
    apply h
    cases a with
    | go => cases hpc : k.call.pc <;> simp [mayCaller, hpc] at hg <;> rfl
    | timeout =>
        simp only [mayCaller, beq_iff_eq] at hg
        rw [hg]
        rfl
    | spurious =>
        simp only [mayCaller, beq_iff_eq] at hg
        rw [hg]
        rfl
  have hlate := caller_late hg
  intro b hb
  rw [hold]
  cases hpc : (k.caller a).call.pc <;> simp [hpc, CallPc.early, CallPc.inSync] at hlate hb <;>
    exact hb.symm

theorem alloc_log {ok : Bool} {started : List (ℕ × ℕ)} {returned nodeFrees : ℕ} {fate : Fate} :
    (k.alloc ok).Log started returned fate nodeFrees ↔ k.Log started returned fate nodeFrees := by
  unfold alloc
  split <;> cases ok <;> exact Iff.rfl

theorem filled_alloc (hg : k.guard (.alloc true) = true)
    (h : ∀ b, k.call.pc.inSync = some b → k.call.sync = b) : (k.alloc true).Filled := by
  simp only [guard, Bool.or_eq_true, beq_iff_eq] at hg
  rcases hg with hpc | hpc
  · have hsync := h false (by rw [hpc]; rfl)
    simp [alloc, hpc, goto, Filled, hsync]
  · have hsync := h true (by rw [hpc]; rfl)
    simp [alloc, hpc, Filled, hsync]

/-- Before its node is enqueued, a call may fill it in. -/
theorem Sound.fresh (h : k.Sound) (hpre : k.call.pc.early = true) : k.Log [] 0 .pending 0 := by
  have hlogged := h.logged
  rw [h.early hpre] at hlogged
  exact hlogged

theorem Sound.start (h : k.Sound) {sync refused : Bool} {taskFunc : Option ℕ} {taskArg : ℕ}
    (hg : k.guard (.start sync taskFunc taskArg refused) = true) :
    (k.next (.start sync taskFunc taskArg refused)).Sound := by
  have hpre := early_of_start hg
  refine ⟨?_, early_next h.early hg, ?_, ?_⟩
  · show Logged _ k.stage
    rw [h.early hpre]
    exact h.fresh hpre
  · cases sync <;> cases refused <;> simp [Task.next, Task.start, CallPc.inSync]
  · rintro (hne | hpc | hpc)
    · exact absurd (h.early hpre) hne
    · cases sync <;> cases refused <;> simp [Task.next, Task.start] at hpc
    · cases sync <;> cases refused <;> simp [Task.next, Task.start] at hpc

theorem Sound.lengthTest (h : k.Sound) {busy : Bool}
    (hg : k.guard (.lengthTest busy) = true) : (k.next (.lengthTest busy)).Sound := by
  have hpre := early_of_lengthTest hg
  have hearly := early_next h.early hg
  simp only [guard, beq_iff_eq] at hg
  have hsync := h.sync false (by rw [hg]; rfl)
  refine ⟨((SameLog.goto k _).logged _).mpr h.logged, hearly, ?_, ?_⟩
  · cases busy <;> simp [Task.next, Task.lengthTest, goto, CallPc.inSync, hsync]
  · rintro (hne | hpc | hpc)
    · exact absurd (h.early hpre) hne
    · cases busy <;> simp [Task.next, Task.lengthTest, goto] at hpc
    · cases busy <;> simp [Task.next, Task.lengthTest, goto] at hpc

theorem Sound.alloc (h : k.Sound) {ok : Bool} (hg : k.guard (.alloc ok) = true) :
    (k.next (.alloc ok)).Sound := by
  have hfilled : ok = true → (k.alloc ok).Filled := by
    rintro rfl
    exact filled_alloc hg h.sync
  have hpre := early_of_alloc hg
  have hearly := early_next h.early hg
  simp only [guard, Bool.or_eq_true, beq_iff_eq] at hg
  refine ⟨?_, hearly, ?_, ?_⟩
  · rw [Task.next, alloc_stage, h.early hpre]
    exact alloc_log.mpr (h.fresh hpre)
  · rcases hg with hpc | hpc
    · have hsync := h.sync false (by rw [hpc]; rfl)
      cases ok <;> simp [Task.next, Task.alloc, hpc, goto, CallPc.inSync, hsync]
    · have hsync := h.sync true (by rw [hpc]; rfl)
      cases ok <;> simp [Task.next, Task.alloc, hpc, goto, CallPc.inSync, hsync]
  · cases ok with
    | true => exact fun _ => hfilled rfl
    | false =>
        rintro (hne | hpc' | hpc')
        · exact absurd (h.early hpre) (by simpa [Task.next] using hne)
        · rcases hg with hpc | hpc <;> simp [Task.next, Task.alloc, hpc, goto] at hpc'
        · rcases hg with hpc | hpc <;> simp [Task.next, Task.alloc, hpc, goto] at hpc'

theorem Sound.insert (h : k.Sound) {clockOk : Bool} (hg : k.guard (.insert clockOk) = true) :
    (k.next (.insert clockOk)).Sound := by
  have hpre := early_of_insert hg
  have hearly := early_next h.early hg
  have hsame := SameLog.insert k clockOk
  simp only [guard, Bool.or_eq_true, beq_iff_eq] at hg
  refine ⟨?_, hearly, ?_, fun _ => hsame.filled.mpr (h.filled (.inr hg))⟩
  · have hlog := hsame.log.mpr (h.fresh hpre)
    have hstage : (k.insert clockOk).stage = .outside ∨ (k.insert clockOk).stage = .waiting := by
      rcases hg with hpc | hpc <;> cases clockOk <;> simp [Task.insert, hpc, h.early hpre]
    show (k.insert clockOk).Logged (k.insert clockOk).stage
    rcases hstage with hstage | hstage <;> (rw [hstage]; exact hlog)
  · rcases hg with hpc | hpc
    · simp [Task.next, Task.insert, hpc, goto, CallPc.inSync]
    · have hsync := h.sync true (by rw [hpc]; rfl)
      cases clockOk <;> simp [Task.next, Task.insert, hpc, goto, CallPc.inSync, hsync]

theorem Sound.caller (h : k.Sound) {c : CallerAction} (hg : k.guard (.caller c) = true) :
    (k.next (.caller c)).Sound := by
  have hsame := SameLog.caller k c
  have hlate : (k.caller c).call.pc.early = false := caller_late hg
  refine ⟨?_, early_next h.early hg, ?_, ?_⟩
  · rw [Task.next, caller_stage, hsame.logged]
    exact h.logged
  · rw [Task.next, hsame.sync]
    exact sync_caller h.sync hg
  · rintro (hne | hpc | hpc)
    · rw [Task.next, caller_stage] at hne
      exact hsame.filled.mpr (h.filled (.inl hne))
    · rw [Task.next] at hpc
      simp [hpc, CallPc.early] at hlate
    · rw [Task.next] at hpc
      simp [hpc, CallPc.early] at hlate

theorem Sound.enter (h : k.Sound) (hg : k.guard .enter = true) : (k.next .enter).Sound := by
  have hearly := early_next h.early hg
  simp only [guard, beq_iff_eq] at hg
  have hlogged := h.logged
  rw [hg] at hlogged
  exact ⟨hlogged, hearly, h.sync, fun _ => h.filled (.inl (by simp [hg]))⟩

theorem Sound.body (h : k.Sound) {pc : BodyPc} (hg : k.guard (.body pc) = true) :
    (k.next (.body pc)).Sound := by
  have hearly := early_next h.early hg
  simp only [guard, Bool.and_eq_true, beq_iff_eq] at hg
  have hlogged := h.logged
  rw [hg.1] at hlogged
  have hfilled := h.filled (.inl (by simp [hg.1]))
  have hnode : (k.next (.body pc)).node = k.node := bodyEffect_node pc
  refine ⟨logged_body hlogged, hearly, ?_, ?_⟩
  · rcases k.next_body_call pc with heq | ⟨-, hpc, heq⟩
    · rw [heq]
      exact h.sync
    · have hsync := h.sync true (by rw [hpc]; rfl)
      rw [heq]
      simp [CallPc.inSync, hsync]
  · intro _
    unfold Filled
    rw [hnode]
    rcases k.next_body_call pc with heq | ⟨-, -, heq⟩ <;> (rw [heq]; exact hfilled)

theorem Sound.next {a : TaskAction} (h : k.Sound) (hg : k.guard a = true) :
    (k.next a).Sound := by
  cases a with
  | start sync taskFunc taskArg refused => exact h.start hg
  | lengthTest busy => exact h.lengthTest hg
  | alloc ok => exact h.alloc hg
  | insert clockOk => exact h.insert hg
  | caller c => exact h.caller hg
  | enter => exact h.enter hg
  | body pc => exact h.body hg

theorem sound_of_reach {P : Task → TaskAction → Prop} {k : Task} (hr : Reach taskSystem P k) :
    k.Sound := by
  refine hr.invariant ?_ ?_
  · rintro k rfl
    exact Sound.init
  · intro k a h hg _
    exact h.next hg

end Task

/-! ## What a success of the caller rests on -/

/-- On the way to returning `MY_SUCCESS` from the timed wait. -/
def CallPc.succeeds : CallPc → Bool
  | .woken timedOut | .held timedOut => !timedOut
  | .unlock ret | .finish ret | .teardown _ ret | .returned ret => ret == mySuccess
  | _ => false

/-- In the timed wait, or on the way to returning `-MY_ETIMEDOUT` from it. -/
def CallPc.timing : CallPc → Bool
  | .timedWait | .blocked | .woken _ | .held _ => true
  | .unlock ret | .finish ret => ret == -myEtimedOut
  | _ => false

/-- Behind the store of `MY_TPOOL_TASK_STATUS_TIMEOUT`. -/
def CallPc.timedOut : CallPc → Bool
  | .unlock ret | .finish ret | .returned ret => ret == -myEtimedOut
  | _ => false

namespace Task

variable {k : Task}

/-- The timed wait ends spuriously only behind the call of `TaskFunc`. -/
def SpuriousLate (k : Task) (a : TaskAction) : Prop := a = .caller .spurious → k.returned = 1

instance SpuriousLate.decidable (k : Task) (a : TaskAction) : Decidable (SpuriousLate k a) :=
  inferInstanceAs (Decidable (_ → _))

theorem Logged.of_returned {g : Stage} (h : k.Logged g) (hret : k.returned = 1) :
    k.node.taskFunc.isSome ∧ k.started = k.calls := by
  unfold Logged Settled at h
  split at h
  · simp [h.2.1] at hret
  · simp [h.2.1] at hret
  · simp [h.2.1] at hret
  · simp [h.2.2.1] at hret
  · simp [h.2.2.1] at hret
  · simp [h.2.2.1] at hret
  · rcases h.2 with hlog | hlog
    · exact ⟨h.1, hlog.1⟩
    · simp [hlog.2.1] at hret
  · rcases h.2 with hlog | hlog
    · exact ⟨h.1, hlog.1⟩
    · simp [hlog.2.1] at hret
  · exact ⟨h.1, h.2.1⟩
  · simp [h.2.2.1] at hret
  · rcases h.2 with hlog | hlog
    · exact ⟨h.1, hlog.1⟩
    · simp [hlog.2.1] at hret

/-- A caller on its way to success has been answered. -/
def Answered (k : Task) : Prop := k.call.sync = true → k.call.pc.succeeds = true → k.returned = 1

theorem Answered.caller {a : CallerAction} (h : k.Answered) (hg : k.mayCaller a = true)
    (hq : SpuriousLate k (.caller a)) : (k.caller a).Answered := by
  have hsame := SameLog.caller k a
  intro hsync hpc
  rw [hsame.sync] at hsync
  rw [hsame.returned]
  cases a with
  | timeout => simp [Task.caller, goto, CallPc.succeeds] at hpc
  | spurious => exact hq rfl
  | go =>
      apply h hsync
      cases hk : k.call.pc with
      | timedWait => simp [Task.caller, hk, goto, CallPc.succeeds] at hpc
      | woken timedOut => simpa [Task.caller, hk, goto, CallPc.succeeds] using hpc
      | held timedOut =>
          cases timedOut with
          | true => simp [Task.caller, hk, goto, CallPc.succeeds, myEtimedOut, mySuccess] at hpc
          | false => rfl
      | unlock ret => simpa [Task.caller, hk, goto, CallPc.succeeds] using hpc
      | finish ret =>
          simp only [Task.caller, hk] at hpc
          split_ifs at hpc <;> simpa [goto, CallPc.succeeds] using hpc
      | teardown c ret =>
          cases c <;> simpa [Task.caller, hk, goto, Teardown.next, CallPc.succeeds] using hpc
      | _ => simp [mayCaller, hk] at hg

theorem Answered.next {a : TaskAction} (hs : k.Sound) (h : k.Answered) (hg : k.guard a = true)
    (hq : SpuriousLate k a) : (k.next a).Answered := by
  cases a with
  | start sync taskFunc taskArg refused =>
      intro _ hpc
      cases sync <;> cases refused <;>
        simp_all [Task.next, start, CallPc.succeeds, myEinval, mySuccess]
  | lengthTest busy =>
      intro _ hpc
      cases busy <;> simp [Task.next, lengthTest, goto, CallPc.succeeds, myEbusy, mySuccess] at hpc
  | alloc ok =>
      simp only [guard, Bool.or_eq_true, beq_iff_eq] at hg
      intro _ hpc
      rcases hg with hk | hk <;> cases ok <;>
        simp [Task.next, alloc, hk, goto, CallPc.succeeds, myEnoMem, mySuccess] at hpc
  | insert clockOk =>
      simp only [guard, Bool.or_eq_true, beq_iff_eq] at hg
      intro hsync hpc
      rcases hg with hk | hk
      · -- `TPoolAddTask` returns here
        have hadd := hs.sync false (by rw [hk]; rfl)
        rw [Task.next, (SameLog.insert k clockOk).sync, hadd] at hsync
        simp at hsync
      · cases clockOk <;>
          simp [Task.next, insert, hk, goto, CallPc.succeeds, myEio, mySuccess] at hpc
  | caller c => exact h.caller hg hq
  | enter => exact h
  | body pc =>
      simp only [guard, Bool.and_eq_true, beq_iff_eq] at hg
      have hlogged := hs.logged
      rw [hg.1] at hlogged
      intro hsync hpc
      have hreturned : pc ≠ .running → (k.next (.body pc)).returned = k.returned :=
        bodyEffect_returned
      rcases k.next_body_call pc with heq | ⟨rfl, -, -⟩
      · rw [heq] at hsync hpc
        have hold := h hsync hpc
        rw [hreturned, hold]
        rintro rfl
        simp [hlogged.2.2.1] at hold
      · -- the worker signals behind the call of `TaskFunc`
        rw [hreturned (by simp)]
        exact hlogged.2.2.1

theorem answered_of_reach {k : Task} (hr : Reach taskSystem SpuriousLate k) : k.Answered := by
  refine hr.invariant_of (fun k hk => sound_of_reach hk) ?_ ?_
  · rintro k rfl _ hpc
    simp [Task.init, CallPc.succeeds] at hpc
  · intro k a hs h hg hq
    exact h.next hs hg hq

/-- **A success means that the task ran.** -/
theorem ran_of_success {k : Task} (hr : Reach taskSystem SpuriousLate k)
    (hsync : k.call.sync = true) (hpc : k.call.pc = .returned mySuccess) :
    k.returned = 1 ∧ ∃ f, k.call.taskFunc = some f ∧ k.started = [(f, k.call.taskArg)] := by
  have hs := sound_of_reach hr
  have hret : k.returned = 1 := answered_of_reach hr hsync (by rw [hpc]; rfl)
  obtain ⟨hsome, hstarted⟩ := hs.logged.of_returned hret
  have hstage : k.stage ≠ .outside := by
    intro hout
    have hlogged := hs.logged
    rw [hout] at hlogged
    simp [hlogged.2.1] at hret
  obtain ⟨hfunc, harg, -⟩ := hs.filled (.inl hstage)
  obtain ⟨f, hf⟩ := Option.isSome_iff_exists.mp hsome
  refine ⟨hret, f, by rw [← hfunc, hf], ?_⟩
  rw [hstarted, calls, hf, harg]
  rfl

/-! ## What a timeout of the caller rests on -/

/-- The caller does not return `-MY_ETIMEDOUT` while the worker stands between its
test of `TaskStat` and the call of `TaskFunc`. -/
def NotBetween (k : Task) (a : TaskAction) : Prop :=
  a = .caller .go → k.call.pc = .finish (-myEtimedOut) → k.stage ≠ .inBody .call

instance NotBetween.decidable (k : Task) (a : TaskAction) : Decidable (NotBetween k a) :=
  inferInstanceAs (Decidable (_ → _ → _))

/-- A call that waited had its node enqueued, and one that timed out has marked it. -/
structure Marked (k : Task) : Prop where
  added : k.call.pc.timing = true → k.call.taskAdded = true ∧ k.stage ≠ .outside
  kept : ∀ c, k.call.pc ≠ .teardown c (-myEtimedOut)
  marked : k.call.pc.timedOut = true → k.isTimeout = true

theorem Marked.init : Marked init where
  added h := by simp [Task.init, CallPc.timing] at h
  kept c := by simp [Task.init]
  marked h := by simp [Task.init, CallPc.timedOut] at h

/-- Where the call neither waits nor has waited. -/
theorem Marked.of_untimed (htiming : k.call.pc.timing = false)
    (hkept : ∀ c ret, k.call.pc ≠ .teardown c ret) (hout : k.call.pc.timedOut = false) :
    k.Marked where
  added h := by simp [htiming] at h
  kept c := hkept c _
  marked h := by simp [hout] at h

theorem isTimeout_congr {k' : Task} (h : k'.node = k.node) : k'.isTimeout = k.isTimeout := by
  simp [isTimeout, h]

/-- Inside the timed wait. -/
theorem Marked.of_timing {k' : Task} (hadd : k'.call.taskAdded = true)
    (hstage : k'.stage ≠ .outside) (hkept : ∀ c ret, k'.call.pc ≠ .teardown c ret)
    (hout : k'.call.pc.timedOut = false) : k'.Marked where
  added _ := ⟨hadd, hstage⟩
  kept c := hkept c _
  marked h := by simp [hout] at h

/-- The store marks the node. -/
theorem Marked.store (hs : k.Sound) (h : k.Marked) (hk : k.call.pc = .held true) :
    (k.caller .go).Marked := by
  have hadd := h.added (by rw [hk]; rfl)
  have htime := (hs.filled (.inl hadd.2)).2.2
  rw [hs.sync true (by rw [hk]; rfl)] at htime
  refine ⟨fun _ => ?_, fun c => by simp [Task.caller, hk, goto], fun _ => ?_⟩
  · simpa [Task.caller, hk, goto] using hadd
  · simp [Task.caller, hk, isTimeout, htime]

theorem Marked.unlock (h : k.Marked) {ret : ℤ} (hk : k.call.pc = .unlock ret) :
    (k.caller .go).Marked := by
  refine ⟨fun ht => ?_, fun c => by simp [Task.caller, hk, goto], fun hout => ?_⟩
  · have hadd := h.added (by simpa [Task.caller, hk, goto, CallPc.timing] using ht)
    simpa [Task.caller, hk, goto] using hadd
  · have hmark := h.marked (by simpa [Task.caller, hk, goto, CallPc.timedOut] using hout)
    rw [← hmark]
    apply isTimeout_congr
    simp [Task.caller, hk, goto]

/-- A call that timed out returns without a teardown. -/
theorem Marked.finish (h : k.Marked) {ret : ℤ} (hk : k.call.pc = .finish ret) :
    (k.caller .go).Marked := by
  by_cases hret : ret = -myEtimedOut
  · have hadd := h.added (by rw [hk, hret]; simp [CallPc.timing])
    have hmark := h.marked (by rw [hk, hret]; simp [CallPc.timedOut])
    have hnext : k.caller .go = k.goto (.returned ret) := by
      simp [Task.caller, hk, hadd.1, hret]
    rw [hnext]
    exact ⟨fun ht => by simp [goto, CallPc.timing] at ht, fun c => by simp [goto],
      fun _ => hmark⟩
  · simp only [Task.caller, hk]
    split_ifs
    · exact ⟨fun ht => by simp [goto, CallPc.timing] at ht,
        fun c => by simp [goto, hret],
        fun hout => by simp [goto, CallPc.timedOut] at hout⟩
    · exact ⟨fun ht => by simp [goto, CallPc.timing] at ht, fun c => by simp [goto],
        fun hout => by simp [goto, CallPc.timedOut, hret] at hout⟩

theorem Marked.caller {a : CallerAction} (hs : k.Sound) (h : k.Marked)
    (hg : k.mayCaller a = true) : (k.caller a).Marked := by
  cases a with
  | timeout =>
      simp only [mayCaller, beq_iff_eq] at hg
      have hadd := h.added (by rw [hg]; rfl)
      exact of_timing hadd.1 hadd.2 (by simp [Task.caller, goto]) rfl
  | spurious =>
      simp only [mayCaller, beq_iff_eq] at hg
      have hadd := h.added (by rw [hg]; rfl)
      exact of_timing hadd.1 hadd.2 (by simp [Task.caller, goto]) rfl
  | go =>
      cases hk : k.call.pc with
      | timedWait =>
          have hadd := h.added (by rw [hk]; rfl)
          apply of_timing <;> simp [Task.caller, hk, goto, hadd, CallPc.timedOut]
      | woken timedOut =>
          have hadd := h.added (by rw [hk]; rfl)
          apply of_timing <;> simp [Task.caller, hk, goto, hadd, CallPc.timedOut]
      | held timedOut =>
          cases timedOut with
          | true => exact h.store hs hk
          | false =>
              refine of_untimed ?_ ?_ ?_ <;>
                simp [Task.caller, hk, goto, CallPc.timing, CallPc.timedOut, mySuccess,
                  myEtimedOut]
      | unlock ret => exact h.unlock hk
      | finish ret => exact h.finish hk
      | teardown c ret =>
          have hret : ret ≠ -myEtimedOut := by
            rintro rfl
            exact h.kept c hk
          cases c <;> refine ⟨?_, ?_, ?_⟩ <;>
            simp [Task.caller, hk, goto, Teardown.next, CallPc.timing, CallPc.timedOut, hret]
      | _ => simp [mayCaller, hk] at hg

theorem Marked.next {a : TaskAction} (hs : k.Sound) (h : k.Marked) (hg : k.guard a = true) :
    (k.next a).Marked := by
  cases a with
  | start sync taskFunc taskArg refused =>
      cases sync <;> cases refused <;> refine of_untimed ?_ ?_ ?_ <;>
        simp [Task.next, start, CallPc.timing, CallPc.timedOut, myEinval, myEtimedOut]
  | lengthTest busy =>
      cases busy <;> refine of_untimed ?_ ?_ ?_ <;>
        simp [Task.next, lengthTest, goto, CallPc.timing, CallPc.timedOut, myEbusy, myEtimedOut]
  | alloc ok =>
      simp only [guard, Bool.or_eq_true, beq_iff_eq] at hg
      rcases hg with hk | hk <;> cases ok <;> refine of_untimed ?_ ?_ ?_ <;>
        simp [Task.next, alloc, hk, goto, CallPc.timing, CallPc.timedOut, myEnoMem, myEtimedOut]
  | insert clockOk =>
      simp only [guard, Bool.or_eq_true, beq_iff_eq] at hg
      rcases hg with hk | hk
      · refine of_untimed ?_ ?_ ?_ <;>
          simp [Task.next, insert, hk, goto, CallPc.timing, CallPc.timedOut, mySuccess,
            myEtimedOut]
      · cases clockOk with
        | true =>
            refine ⟨fun _ => ?_, fun c => ?_, fun hout => ?_⟩
            · simp [Task.next, insert, hk]
            · simp [Task.next, insert, hk]
            · simp [Task.next, insert, hk, CallPc.timedOut] at hout
        | false =>
            refine of_untimed ?_ ?_ ?_ <;>
              simp [Task.next, insert, hk, goto, CallPc.timing, CallPc.timedOut, myEio,
                myEtimedOut]
  | caller c => exact h.caller hs hg
  | enter => exact ⟨fun ht => ⟨(h.added ht).1, by simp [Task.next]⟩, h.kept, h.marked⟩
  | body pc =>
      -- the worker's signal wakes a caller that has not timed out
      have hmark : (k.next (.body pc)).isTimeout = k.isTimeout :=
        isTimeout_congr (bodyEffect_node pc)
      have hstage : (k.next (.body pc)).stage ≠ .outside := body_inside pc
      rcases k.next_body_call pc with heq | ⟨-, hk, heq⟩
      · refine ⟨?_, ?_, ?_⟩ <;> rw [heq]
        · exact fun ht => ⟨(h.added ht).1, hstage⟩
        · exact h.kept
        · rw [hmark]
          exact h.marked
      · have hadd := h.added (by rw [hk]; rfl)
        refine ⟨?_, ?_, ?_⟩ <;> rw [heq]
        · exact fun _ => ⟨hadd.1, hstage⟩
        · simp
        · simp [CallPc.timedOut]

theorem marked_of_reach {P : Task → TaskAction → Prop} {k : Task} (hr : Reach taskSystem P k) :
    k.Marked := by
  refine hr.invariant_of (fun k hk => sound_of_reach hk) ?_ ?_
  · rintro k rfl
    exact Marked.init
  · intro k a hs h hg _
    exact h.next hs hg

/-- Once the call has returned `-MY_ETIMEDOUT`, the worker is not about to call. -/
def NotAboutToCall (k : Task) : Prop :=
  k.call.pc = .returned (-myEtimedOut) → k.stage ≠ .inBody .call

theorem Marked.notAboutToCall {a : TaskAction} (hm : k.Marked) (hg : k.guard a = true)
    (hq : NotBetween k a) : (k.next a).NotAboutToCall := by
  intro hpc
  cases a with
  | start sync taskFunc taskArg refused =>
      cases sync <;> cases refused <;>
        simp [Task.next, start, myEinval, myEtimedOut] at hpc
  | lengthTest busy =>
      cases busy <;> simp [Task.next, lengthTest, goto, myEbusy, myEtimedOut] at hpc
  | alloc ok =>
      simp only [guard, Bool.or_eq_true, beq_iff_eq] at hg
      rcases hg with hk | hk <;> cases ok <;>
        simp [Task.next, alloc, hk, goto, myEnoMem, myEtimedOut] at hpc
  | insert clockOk =>
      simp only [guard, Bool.or_eq_true, beq_iff_eq] at hg
      rcases hg with hk | hk
      · simp [Task.next, insert, hk, goto, mySuccess, myEtimedOut] at hpc
      · cases clockOk <;> simp [Task.next, insert, hk, goto] at hpc
  | caller c =>
      have hstage : (k.next (.caller c)).stage = k.stage := caller_stage
      rw [hstage]
      cases c with
      | timeout => simp [Task.next, Task.caller, goto] at hpc
      | spurious => simp [Task.next, Task.caller, goto] at hpc
      | go =>
          simp only [guard] at hg
          cases hk : k.call.pc with
          | finish ret =>
              -- the return is the step `NotBetween` is about
              have hret : ret = -myEtimedOut := by
                simp only [Task.next, Task.caller, hk] at hpc
                split_ifs at hpc
                · simp [goto] at hpc
                · simpa [goto] using hpc
              exact hq rfl (by rw [hk, hret])
          | teardown c ret =>
              have hret : ret = -myEtimedOut := by
                cases c with
                | freeCond => simpa [Task.next, Task.caller, hk, goto, Teardown.next] using hpc
                | _ => simp [Task.next, Task.caller, hk, goto, Teardown.next] at hpc
              exact absurd (hret ▸ hk) (hm.kept c)
          | timedWait => simp [Task.next, Task.caller, hk, goto] at hpc
          | woken timedOut => simp [Task.next, Task.caller, hk, goto] at hpc
          | held timedOut => cases timedOut <;> simp [Task.next, Task.caller, hk, goto] at hpc
          | unlock ret => simp [Task.next, Task.caller, hk, goto] at hpc
          | _ => simp [mayCaller, hk] at hg
  | enter => simp [Task.next]
  | body pc =>
      -- the worker comes to the call through its first test only
      intro hcall
      rw [body_stage] at hcall
      have hold : k.call.pc = .returned (-myEtimedOut) := by
        rcases k.next_body_call pc with heq | ⟨-, -, heq⟩
        · rwa [heq] at hpc
        · rw [heq] at hpc
          simp at hpc
      have htime := hm.marked (by rw [hold]; simp [CallPc.timedOut])
      cases hnext : k.bodyNext pc with
      | none =>
          rw [hnext] at hcall
          split_ifs at hcall
      | some pc' =>
          rw [hnext, Stage.inBody.injEq] at hcall
          have hfalse := bodyNext_call (hcall ▸ hnext)
          simp [htime] at hfalse

theorem notAboutToCall_of_reach {k : Task} (hr : Reach taskSystem NotBetween k) :
    k.NotAboutToCall := by
  refine hr.invariant_of (fun k hk => marked_of_reach hk) ?_ ?_
  · rintro k rfl hpc
    simp [Task.init] at hpc
  · intro k a hm _ hg hq
    exact hm.notAboutToCall hg hq

/-- A call that has returned stays returned. -/
theorem returned_next {a : TaskAction} {ret : ℤ} (hpc : k.call.pc = .returned ret)
    (hg : k.guard a = true) : (k.next a).call.pc = .returned ret := by
  cases a with
  | enter => exact hpc
  | body pc =>
      rcases k.next_body_call pc with heq | ⟨-, hk, -⟩
      · rw [heq, hpc]
      · simp [hpc] at hk
  | caller c => cases c <;> simp [guard, mayCaller, hpc] at hg
  | _ => simp [guard, hpc] at hg

/-- **A timeout before the call means that there is none.** -/
theorem not_run_after_timeout {k k' : Task} (hr : Reach taskSystem NotBetween k)
    (hpc : k.call.pc = .returned (-myEtimedOut)) (hstarted : k.started = [])
    (hr' : Reach (taskSystem.onward k) NotBetween k') : k'.started = [] := by
  have hboth : k'.call.pc = .returned (-myEtimedOut) ∧ k'.started = [] := by
    refine Reach.invariant_of
      (I := fun x : Task => x.call.pc = .returned (-myEtimedOut) ∧ x.started = [])
      (fun x hx => notAboutToCall_of_reach (hr.trans hx)) ?_ ?_ hr'
    · rintro x rfl
      exact ⟨hpc, hstarted⟩
    · rintro x a hnot ⟨hxpc, hx⟩ hg -
      have hg' : x.guard a = true := hg
      refine ⟨returned_next hxpc hg', ?_⟩
      cases a with
      | enter => exact hx
      | body pc =>
          simp only [guard, Bool.and_eq_true, beq_iff_eq] at hg'
          have hne : pc ≠ .call := by
            rintro rfl
            exact hnot hxpc hg'.1
          have hsame : (x.next (.body pc)).started = x.started := bodyEffect_started hne
          exact hsame.trans hx
      | caller c => cases c <;> simp [guard, mayCaller, hxpc] at hg'
      | _ => simp [guard, hxpc] at hg'
  exact hboth.2

end Task

end MyWorkEnv
