import MyWorkEnv.MyUtils.TPool.Handshake

/-!
# Who frees what

The objects of a synchronous task are its node, `TaskLock` and `TaskCond`. The
worker frees the node; the lock pair is freed by the caller, or by the worker
if it finds the node marked `MY_TPOOL_TASK_STATUS_TIMEOUT`. This goes well in
the runs of `InOrder`.
-/

namespace MyWorkEnv

open Transition

inductive TaskObject where
  | node
  | taskLock
  | taskCond
deriving DecidableEq

/-- The worker has not passed its second test of `TaskStat`. -/
def Stage.beforeTests : Stage → Bool
  | .waiting | .inBody .test | .inBody .call | .inBody .running | .inBody .testAgain => true
  | _ => false

/-- Behind that test it finds no timeout; `signalled` once it has signalled. -/
def Stage.unsignalled : Stage → Bool
  | .inBody .lockTask | .inBody .signalTask => true
  | g => g.beforeTests

def Stage.signalled : Stage → Bool
  | .inBody .unlockTask | .inBody .count | .inBody .unlink | .inBody .free | .done => true
  | _ => false

/-- Inside the section of `TaskLock`. -/
def Stage.locks : Stage → Bool
  | .inBody .signalTask | .inBody .unlockTask => true
  | _ => false

/-- How often `TaskLock` and `TaskCond` have been freed when `c` is next. -/
def Teardown.freed : Teardown → ℕ × ℕ
  | .freeCond => (1, 0)
  | _ => (0, 0)

/-- By a worker that finds a timeout. -/
def Stage.freed : Stage → Option (ℕ × ℕ)
  | .inBody (.teardown c _) => some c.freed
  | .inBody .count | .inBody .unlink | .inBody .free | .done => some (1, 1)
  | g => if g.beforeTests then some (0, 0) else none

/-- The call waits for the signal. -/
def CallPc.unanswered : CallPc → Bool
  | .timedWait | .blocked | .woken true | .held true => true
  | _ => false

/-- By a caller whose node was not marked. -/
def CallPc.freed : CallPc → Option (ℕ × ℕ)
  | .woken _ | .held _ => some (0, 0)
  | .unlock ret | .finish ret => if ret = mySuccess then some (0, 0) else none
  | .teardown c ret => if ret = mySuccess then some c.freed else none
  | .returned ret => if ret = mySuccess then some (1, 1) else none
  | _ => none

/-- Inside `pthread_cond_timedwait`, without `TaskLock`. -/
def CallPc.waits : CallPc → Bool
  | .blocked | .woken _ => true
  | _ => false

/-- `TaskLock` is the caller's. -/
def CallPc.locks : CallPc → Bool
  | .timedWait | .held _ | .unlock _ => true
  | _ => false

theorem Stage.freed_of_beforeTests {g : Stage} (h : g.beforeTests = true) :
    g.freed = some (0, 0) := by
  cases g with
  | waiting => rfl
  | inBody pc => cases pc <;> first | rfl | simp [Stage.beforeTests] at h
  | _ => simp [Stage.beforeTests] at h

theorem Stage.not_signalled {g : Stage} (h : g.beforeTests = true) : g.signalled = false := by
  cases g with
  | inBody pc => cases pc <;> first | rfl | simp [Stage.beforeTests] at h
  | done => simp [Stage.beforeTests] at h
  | _ => rfl

theorem CallPc.freed_teardown (c : Teardown) :
    (CallPc.teardown c mySuccess).freed = some c.freed := by
  simp [CallPc.freed]

theorem CallPc.freed_eq {pc : CallPc} {l c : ℕ} (h : pc.freed = some (l, c)) {ret : ℤ}
    (hpc : pc = .unlock ret ∨ pc = .finish ret) : ret = mySuccess ∧ l = 0 ∧ c = 0 := by
  rcases hpc with rfl | rfl <;>
  · simp only [CallPc.freed] at h
    split_ifs at h with hret
    · simp only [Option.some.injEq, Prod.mk.injEq] at h
      exact ⟨hret, h.1.symm, h.2.symm⟩

namespace Task

def frees (k : Task) : TaskObject → ℕ
  | .node => k.nodeFrees
  | .taskLock => k.lockFrees
  | .taskCond => k.condFrees

/-- The objects a teardown step touches. -/
def tearTouches : Teardown → TaskObject
  | .destroyLock | .freeLock => .taskLock
  | .destroyCond | .freeCond => .taskCond

/-- The objects a step of either side reads, writes, locks, signals or frees. -/
def touches (k : Task) : TaskAction → List TaskObject
  | .insert _ => if k.call.sync then [.node, .taskLock] else [.node]
  | .caller .timeout | .caller .spurious => [.taskCond]
  | .caller .go =>
      match k.call.pc with
      | .timedWait | .woken _ => [.taskLock, .taskCond]
      | .held timedOut => if timedOut then [.node] else []
      | .unlock _ => [.taskLock]
      | .teardown c _ => [tearTouches c]
      | _ => []
  | .body pc =>
      match pc with
      | .test | .call | .testAgain | .unlink | .free => [.node]
      | .lockTask | .unlockTask => [.node, .taskLock]
      | .signalTask => [.node, .taskCond]
      | .teardown c _ => [.node, tearTouches c]
      | .running | .count => []
  | .start .. | .lengthTest _ | .alloc _ | .enter => []

/-- No spurious wakeup, the node is marked before the worker's second test, and the
worker frees `TaskLock` when the caller has let go of it. -/
structure InOrder (k : Task) (a : TaskAction) : Prop where
  noSpurious : a ≠ .caller .spurious
  marksInTime : a = .caller .go → k.call.pc = .held true → k.stage.beforeTests = true
  freesUnheld : ∀ skipped, a = .body (.teardown .freeLock skipped) → k.lockOwner = none

/-- What a teardown step frees. -/
theorem tear_freed {k : Task} {c : Teardown} (h : c.freed = (k.lockFrees, k.condFrees)) :
    ((k.tear c).lockFrees, (k.tear c).condFrees) = (c.next.map Teardown.freed).getD (1, 1) := by
  have hlock : k.lockFrees = c.freed.1 := by rw [h]
  have hcond : k.condFrees = c.freed.2 := by rw [h]
  cases c <;> simp [tear, Teardown.next, Teardown.freed, hlock, hcond]

instance InOrder.decidable (k : Task) (a : TaskAction) : Decidable (InOrder k a) :=
  decidable_of_iff
    (a ≠ .caller .spurious ∧
      (a = .caller .go → k.call.pc = .held true → k.stage.beforeTests = true) ∧
      ∀ skipped, a = .body (.teardown .freeLock skipped) → k.lockOwner = none)
    ⟨fun h => ⟨h.1, h.2.1, h.2.2⟩, fun h => ⟨h.noSpurious, h.marksInTime, h.freesUnheld⟩⟩

/-! ## The two phases -/

variable {k : Task}

/-- As long as the node is not marked, the lock pair is the caller's, who waits for
the signal; then it is the worker's. -/
inductive Phase (k : Task) : Prop where
  | unsignalled (hstat : k.node.taskStat = .init) (hpc : k.call.pc.unanswered = true)
      (hstage : k.stage.unsignalled = true) (hlock : k.lockFrees = 0) (hcond : k.condFrees = 0)
  | signalled (hstat : k.node.taskStat = .init) (hstage : k.stage.signalled = true)
      (hfreed : k.call.pc.freed = some (k.lockFrees, k.condFrees))
  | marked (hstat : k.node.taskStat = .timeout) (hpc : k.call.pc.timedOut = true)
      (hfreed : k.stage.freed = some (k.lockFrees, k.condFrees))
      (hheld : k.call.pc.locks = true → k.lockFrees = 0)

/-- An enqueued node with a function. -/
structure Handed (k : Task) : Prop where
  inited : k.call.taskInited = true
  hasTimeOut : k.node.hasTimeOut = true
  callerLocks : k.lockOwner = some .caller ↔ k.call.pc.locks = true
  workerLocks : k.lockOwner = some .worker ↔ k.stage.locks = true
  phase : k.Phase

/-- While the worker has `TaskLock`, the caller waits for it. -/
def Waits (k : Task) : Prop := k.stage.locks = true → k.call.pc.waits = true

/-- Before that, nothing has been freed. -/
structure Untouched (k : Task) : Prop where
  lockFrees : k.lockFrees = 0
  condFrees : k.condFrees = 0
  lockOwner : k.lockOwner = none
  notAdded : k.call.taskAdded = false
  ready : k.call.pc = .waitInsert → k.call.taskInited = true ∧ k.node.taskStat = .init

structure Owned (k : Task) : Prop where
  early : k.call.pc.early = true → k.Untouched
  handed : k.call.taskAdded = true → k.node.taskFunc.isSome = true → k.Handed ∧ k.Waits

/-! ## The caller's steps -/

theorem Phase.of_unanswered (h : k.Phase) (hfreed : k.call.pc.freed = none)
    (hout : k.call.pc.timedOut = false) :
    k.node.taskStat = .init ∧ k.stage.unsignalled = true ∧ k.lockFrees = 0 ∧ k.condFrees = 0 := by
  cases h with
  | unsignalled hstat hpc hstage hlock hcond => exact ⟨hstat, hstage, hlock, hcond⟩
  | signalled hstat hstage hf => simp [hfreed] at hf
  | marked hstat hpc hf hheld => simp [hout] at hpc

/-- Before the worker's signal, and past its test. -/
theorem Phase.of_pending (h : k.Phase) (hs : k.stage.signalled = false)
    (hf : k.stage.freed = none) : k.node.taskStat = .init ∧ k.call.pc.unanswered = true ∧
      k.lockFrees = 0 ∧ k.condFrees = 0 := by
  cases h with
  | unsignalled hstat hpc hstage hlock hcond => exact ⟨hstat, hpc, hlock, hcond⟩
  | signalled hstat hstage hfreed => simp [hs] at hstage
  | marked hstat hpc hfreed hheld => simp [hf] at hfreed

/-- Where the worker frees. -/
theorem Phase.of_teardown {c : Teardown} {skipped : Bool} (h : k.Phase)
    (hstage : k.stage = .inBody (.teardown c skipped)) : k.node.taskStat = .timeout ∧
      k.call.pc.timedOut = true ∧ c.freed = (k.lockFrees, k.condFrees) ∧
      (k.call.pc.locks = true → k.lockFrees = 0) := by
  cases h with
  | unsignalled hstat hpc hs hlock hcond =>
      simp [hstage, Stage.unsignalled, Stage.beforeTests] at hs
  | signalled hstat hs hf => simp [hstage, Stage.signalled] at hs
  | marked hstat hpc hf hheld =>
      rw [hstage] at hf
      exact ⟨hstat, hpc, Option.some.inj hf, hheld⟩

/-- Behind the timed wait, without a mark. -/
theorem Phase.of_answered (h : k.Phase) (hun : k.call.pc.unanswered = false)
    (hout : k.call.pc.timedOut = false) : k.node.taskStat = .init ∧ k.stage.signalled = true ∧
      k.call.pc.freed = some (k.lockFrees, k.condFrees) := by
  cases h with
  | unsignalled hstat hpc hstage hlock hcond => simp [hun] at hpc
  | signalled hstat hstage hfreed => exact ⟨hstat, hstage, hfreed⟩
  | marked hstat hpc hfreed hheld => simp [hout] at hpc

/-- A side that has `TaskLock` keeps the other out. -/
theorem Handed.excludes_worker (h : k.Handed) (hl : k.call.pc.locks = true) :
    ¬ k.stage.locks = true := by
  intro hw
  have hown := h.callerLocks.mpr hl
  simp [h.workerLocks.mpr hw] at hown

theorem Handed.excludes_caller (h : k.Handed) (hl : k.stage.locks = true) :
    ¬ k.call.pc.locks = true := by
  intro hc
  have hown := h.workerLocks.mpr hl
  simp [h.callerLocks.mpr hc] at hown

theorem Handed.timeout (h : k.Handed) (hk : k.call.pc = .blocked) :
    (k.goto (.woken true)).Handed := by
  obtain ⟨hinited, htime, hcl, hwl, hphase⟩ := h
  rw [hk] at hcl
  obtain ⟨hstat, hstage, hlock, hcond⟩ :=
    hphase.of_unanswered (by rw [hk]; rfl) (by rw [hk]; rfl)
  exact ⟨hinited, htime, hcl, hwl, .unsignalled hstat rfl hstage hlock hcond⟩

/-- The caller goes to sleep. -/
theorem Handed.sleeps (h : k.Handed) (hk : k.call.pc = .timedWait) :
    Handed { k.goto .blocked with lockOwner := none } := by
  have hno := h.excludes_worker (by rw [hk]; rfl)
  obtain ⟨hinited, htime, hcl, hwl, hphase⟩ := h
  obtain ⟨hstat, hstage, hlock, hcond⟩ :=
    hphase.of_unanswered (by rw [hk]; rfl) (by rw [hk]; rfl)
  refine ⟨hinited, htime, by simp [goto, CallPc.locks], ?_,
    .unsignalled hstat rfl hstage hlock hcond⟩
  simpa [goto] using hno

/-- It gets `TaskLock` back. -/
theorem Handed.relocks (h : k.Handed) {timedOut : Bool} (hk : k.call.pc = .woken timedOut)
    (hnone : k.lockOwner = none) :
    Handed { k.goto (.held timedOut) with lockOwner := some .caller } := by
  obtain ⟨hinited, htime, hcl, hwl, hphase⟩ := h
  refine ⟨hinited, htime, by simp [goto, CallPc.locks], ?_, ?_⟩
  · have hno : ¬ k.stage.locks = true := fun hl => by simp [hwl.mpr hl] at hnone
    simpa [goto] using hno
  · cases hphase with
    | unsignalled hstat hpc hstage hlock hcond =>
        refine .unsignalled hstat ?_ hstage hlock hcond
        rw [hk] at hpc
        cases timedOut with
        | true => rfl
        | false => simp [CallPc.unanswered] at hpc
    | signalled hstat hstage hf =>
        rw [hk] at hf
        exact .signalled hstat hstage hf
    | marked hstat hpc hf hheld => simp [hk, CallPc.timedOut] at hpc

/-- It marks the node, before the worker's second test. -/
theorem Handed.marks (h : k.Handed) (hk : k.call.pc = .held true)
    (hbefore : k.stage.beforeTests = true) :
    Handed { k.goto (.unlock (-myEtimedOut)) with
      node := { k.node with taskStat := .timeout } } := by
  obtain ⟨hinited, htime, hcl, hwl, hphase⟩ := h
  rw [hk] at hcl
  refine ⟨hinited, htime, hcl, hwl, ?_⟩
  cases hphase with
  | unsignalled hstat hpc hstage hlock hcond =>
      refine .marked rfl rfl ?_ (fun _ => hlock)
      show k.stage.freed = some (k.lockFrees, k.condFrees)
      rw [Stage.freed_of_beforeTests hbefore, hlock, hcond]
  | signalled hstat hstage hf => simp [Stage.not_signalled hbefore] at hstage
  | marked hstat hpc hf hheld => simp [hk, CallPc.timedOut] at hpc

theorem Handed.succeeds (h : k.Handed) (hk : k.call.pc = .held false) :
    (k.goto (.unlock mySuccess)).Handed := by
  obtain ⟨hinited, htime, hcl, hwl, hphase⟩ := h
  obtain ⟨hstat, hstage, hf⟩ := hphase.of_answered (by rw [hk]; rfl) (by rw [hk]; rfl)
  rw [hk] at hcl hf
  exact ⟨hinited, htime, hcl, hwl, .signalled hstat hstage hf⟩

theorem Handed.unlocks (h : k.Handed) {ret : ℤ} (hk : k.call.pc = .unlock ret) :
    Handed { k.goto (.finish ret) with lockOwner := none } := by
  have hno := h.excludes_worker (by rw [hk]; rfl)
  obtain ⟨hinited, htime, hcl, hwl, hphase⟩ := h
  refine ⟨hinited, htime, by simp [goto, CallPc.locks], by simpa [goto] using hno, ?_⟩
  cases hphase with
  | unsignalled hstat hpc hstage hlock hcond => simp [hk, CallPc.unanswered] at hpc
  | signalled hstat hstage hf =>
      rw [hk] at hf
      exact .signalled hstat hstage hf
  | marked hstat hpc hf hheld =>
      rw [hk] at hpc
      exact .marked hstat hpc hf (fun hl => by simp [goto, CallPc.locks] at hl)

/-- It keeps the lock pair if it marked the node. -/
theorem Handed.finishes (h : k.Handed) (hadd : k.call.taskAdded = true) {ret : ℤ}
    (hk : k.call.pc = .finish ret) : (k.caller .go).Handed := by
  obtain ⟨hinited, htime, hcl, hwl, hphase⟩ := h
  rw [hk] at hcl
  cases hphase with
  | unsignalled hstat hpc hstage hlock hcond => simp [hk, CallPc.unanswered] at hpc
  | signalled hstat hstage hf =>
      obtain ⟨rfl, hlock, hcond⟩ := CallPc.freed_eq hf (.inr hk)
      have hnext : k.caller .go = k.goto (.teardown .destroyLock mySuccess) := by
        simp [Task.caller, hk, hinited, mySuccess, myEtimedOut]
      rw [hnext]
      refine ⟨hinited, htime, hcl, hwl, .signalled hstat hstage ?_⟩
      show some (0, 0) = some (k.lockFrees, k.condFrees)
      rw [hlock, hcond]
  | marked hstat hpc hf hheld =>
      -- the lock pair is left to the worker
      have hret : ret = -myEtimedOut := by simpa [hk, CallPc.timedOut] using hpc
      have hnext : k.caller .go = k.goto (.returned ret) := by
        simp [Task.caller, hk, hadd, hret]
      rw [hnext]
      refine ⟨hinited, htime, hcl, hwl, .marked hstat ?_ hf ?_⟩
      · simp [goto, CallPc.timedOut, hret]
      · simp [goto, CallPc.locks]

theorem Handed.tears (h : k.Handed) {c : Teardown} {ret : ℤ}
    (hk : k.call.pc = .teardown c ret) : (k.caller .go).Handed := by
  obtain ⟨hinited, htime, hcl, hwl, hphase⟩ := h
  obtain ⟨hstat, hstage, hf⟩ := hphase.of_answered (by rw [hk]; rfl) (by rw [hk]; rfl)
  have hret : ret = mySuccess := by
    simp only [hk, CallPc.freed] at hf
    split_ifs at hf with hret
    · exact hret
  subst hret
  rw [hk] at hcl
  rw [hk, CallPc.freed_teardown, Option.some.injEq] at hf
  have hfreed := tear_freed hf
  have hfree : ∀ pc : CallPc, pc.locks = false →
      pc.freed = some ((k.tear c).lockFrees, (k.tear c).condFrees) →
      ((k.tear c).goto pc).Handed := by
    intro pc hpc hpcf
    refine ⟨by simp [goto, hinited], by simp [goto, htime], ?_, by simp [goto, hwl],
      .signalled (by simp [goto, hstat]) (by simp [goto, hstage]) hpcf⟩
    have hno : k.lockOwner ≠ some .caller :=
      fun hown => by simpa [CallPc.locks] using hcl.mp hown
    simp [goto, hpc, hno]
  have hnext : k.caller .go = (k.tear c).goto
      (c.next.elim (.returned mySuccess) fun c' => .teardown c' mySuccess) := by
    cases c <;> simp [Task.caller, hk, Teardown.next]
  rw [hnext]
  apply hfree
  · cases c <;> rfl
  · rw [hfreed]
    cases c <;> rfl

theorem Handed.caller {a : CallerAction} (h : k.Handed) (hadd : k.call.taskAdded = true)
    (hg : k.mayCaller a = true) (hq : InOrder k (.caller a)) : (k.caller a).Handed := by
  cases a with
  | spurious => exact absurd rfl hq.noSpurious
  | timeout =>
      simp only [mayCaller, beq_iff_eq] at hg
      exact h.timeout hg
  | go =>
      cases hk : k.call.pc with
      | timedWait => simpa only [Task.caller, hk] using h.sleeps hk
      | woken timedOut =>
          simp only [mayCaller, hk, Option.isNone_iff_eq_none] at hg
          simpa only [Task.caller, hk] using h.relocks hk hg
      | held timedOut =>
          cases timedOut with
          | true => simpa [Task.caller, hk] using h.marks hk (hq.marksInTime rfl hk)
          | false => simpa [Task.caller, hk] using h.succeeds hk
      | unlock ret => simpa only [Task.caller, hk] using h.unlocks hk
      | finish ret => exact h.finishes hadd hk
      | teardown c ret => exact h.tears hk
      | _ => simp [mayCaller, hk] at hg

theorem Handed.waits_caller {a : CallerAction} (h : k.Handed) (hw : k.Waits)
    (hg : k.mayCaller a = true) : (k.caller a).Waits := by
  intro hl
  rw [caller_stage] at hl
  have hown := h.workerLocks.mpr hl
  have hwait := hw hl
  cases a with
  | timeout => rfl
  | spurious => rfl
  | go => cases hk : k.call.pc <;> simp [mayCaller, hk, hown, CallPc.waits] at hg hwait

/-! ## The worker's steps -/

/-- A step of the body that leaves everything but the stage. -/
theorem Handed.moves {pc : BodyPc} (h : k.Handed) (hstage : k.stage = .inBody pc) (pc' : BodyPc)
    (hnext : k.bodyNext pc = some pc') (heff : ∃ fate started returned, k.bodyEffect pc =
      { k with fate := fate, started := started, returned := returned })
    (hlocks : Stage.locks (.inBody pc') = Stage.locks (.inBody pc))
    (hun : Stage.unsignalled (.inBody pc) = true → k.node.taskStat = .init →
      Stage.unsignalled (.inBody pc') = true)
    (hsig : Stage.signalled (.inBody pc) = true → Stage.signalled (.inBody pc') = true)
    (hfreed : k.node.taskStat = .timeout → Stage.freed (.inBody pc') = Stage.freed (.inBody pc)) :
    (k.next (.body pc)).Handed := by
  obtain ⟨hinited, htime, hcl, hwl, hphase⟩ := h
  obtain ⟨fate, started, returned, heff⟩ := heff
  rw [next_body _ hnext, heff]
  rw [hstage] at hwl
  refine ⟨hinited, htime, hcl, ?_, ?_⟩
  · rw [← hlocks] at hwl
    exact hwl
  · cases hphase with
    | unsignalled hstat hpc hs hlock hcond =>
        rw [hstage] at hs
        exact .unsignalled hstat hpc (hun hs hstat) hlock hcond
    | signalled hstat hs hf =>
        rw [hstage] at hs
        exact .signalled hstat (hsig hs) hf
    | marked hstat hpc hf hheld =>
        rw [hstage, ← hfreed hstat] at hf
        exact .marked hstat hpc hf hheld

/-- The worker gets `TaskLock`. -/
theorem Handed.locks (h : k.Handed) (hstage : k.stage = .inBody .lockTask)
    (hnone : k.lockOwner = none) : (k.next (.body .lockTask)).Handed := by
  obtain ⟨hinited, htime, hcl, hwl, hphase⟩ := h
  have hnext : k.next (.body .lockTask) =
      { k with lockOwner := some .worker, stage := .inBody .signalTask } := rfl
  have hfree : ¬ k.call.pc.locks = true := fun hl => by simp [hcl.mpr hl] at hnone
  obtain ⟨hstat, hpc, hlock, hcond⟩ :=
    hphase.of_pending (by rw [hstage]; rfl) (by rw [hstage]; rfl)
  rw [hnext]
  exact ⟨hinited, htime, by simpa using hfree, by simp [Stage.locks],
    .unsignalled hstat hpc rfl hlock hcond⟩

/-- It signals; the caller is in its wait. -/
theorem Handed.signals (h : k.Handed) (hstage : k.stage = .inBody .signalTask) :
    (k.next (.body .signalTask)).Handed := by
  have hfree := h.excludes_caller (by rw [hstage]; rfl)
  obtain ⟨hinited, htime, hcl, hwl, hphase⟩ := h
  have hown : k.lockOwner = some .worker := hwl.mpr (by rw [hstage]; rfl)
  obtain ⟨hstat, hpc, hlock, hcond⟩ :=
    hphase.of_pending (by rw [hstage]; rfl) (by rw [hstage]; rfl)
  rw [next_body .unlockTask rfl]
  cases hk : k.call.pc with
  | blocked =>
      have heff : k.bodyEffect .signalTask = k.goto (.woken false) := by
        simp [bodyEffect, hk]
      rw [heff]
      refine ⟨hinited, htime, ?_, ?_, .signalled hstat rfl ?_⟩
      · simp [goto, hown, CallPc.locks]
      · simp [goto, hown, Stage.locks]
      · show some (0, 0) = some (k.lockFrees, k.condFrees)
        rw [hlock, hcond]
  | woken timedOut =>
      have heff : k.bodyEffect .signalTask = k := by simp [bodyEffect, hk]
      rw [heff]
      refine ⟨hinited, htime, hcl, ?_, .signalled hstat rfl ?_⟩
      · simp [hown, Stage.locks]
      · show k.call.pc.freed = some (k.lockFrees, k.condFrees)
        rw [hk, hlock, hcond]
        rfl
  | timedWait => simp [hk, CallPc.locks] at hfree
  | held timedOut => simp [hk, CallPc.locks] at hfree
  | _ => simp [hk, CallPc.unanswered] at hpc

theorem Handed.unlocksTask (h : k.Handed) (hstage : k.stage = .inBody .unlockTask) :
    (k.next (.body .unlockTask)).Handed := by
  have hfree := h.excludes_caller (by rw [hstage]; rfl)
  obtain ⟨hinited, htime, hcl, hwl, hphase⟩ := h
  have hnext : k.next (.body .unlockTask) =
      { k with lockOwner := none, stage := .inBody .count } := rfl
  rw [hnext]
  refine ⟨hinited, htime, by simpa using hfree, by simp [Stage.locks], ?_⟩
  cases hphase with
  | unsignalled hstat hpc hs hlock hcond =>
      simp [hstage, Stage.unsignalled, Stage.beforeTests] at hs
  | signalled hstat hs hf => exact .signalled hstat rfl hf
  | marked hstat hpc hf hheld => simp [hstage, Stage.freed, Stage.beforeTests] at hf

/-- It frees the lock pair of a node that was marked. -/
theorem Handed.tearsDown (h : k.Handed) {c : Teardown} {skipped : Bool}
    (hstage : k.stage = .inBody (.teardown c skipped))
    (hq : InOrder k (.body (.teardown c skipped))) :
    (k.next (.body (.teardown c skipped))).Handed := by
  obtain ⟨hinited, htime, hcl, hwl, hphase⟩ := h
  obtain ⟨hstat, hpc, hf, hheld⟩ := hphase.of_teardown hstage
  rw [hstage] at hwl
  have hfreed := tear_freed hf
  obtain ⟨pc', hnext, hlocks, hpc'⟩ : ∃ pc', k.bodyNext (.teardown c skipped) = some pc' ∧
      Stage.locks (.inBody pc') = false ∧
      Stage.freed (.inBody pc') = some ((c.next.map Teardown.freed).getD (1, 1)) := by
    cases c with
    | freeCond => cases skipped <;> exact ⟨_, rfl, rfl, rfl⟩
    | _ => exact ⟨_, rfl, rfl, rfl⟩
  have heff : k.bodyEffect (.teardown c skipped) = k.tear c := rfl
  rw [next_body _ hnext, heff]
  refine ⟨by simpa using hinited, by simpa using htime, by simpa using hcl, ?_,
    .marked (by simpa using hstat) (by simpa using hpc) ?_ ?_⟩
  · have hno : ¬ k.lockOwner = some .worker := fun ho => by simpa [Stage.locks] using hwl.mp ho
    simp [hlocks, hno]
  · show Stage.freed (.inBody pc') = some ((k.tear c).lockFrees, (k.tear c).condFrees)
    rw [hpc', hfreed]
  · intro hl
    have hl' : k.call.pc.locks = true := by simpa using hl
    have hold := hheld hl'
    cases c with
    | freeLock =>
        -- the caller has let go of the lock
        have hnone := hq.freesUnheld skipped rfl
        simp [hcl.mpr hl'] at hnone
    | _ => simpa [tear] using hold

theorem Handed.freesNode (h : k.Handed) (hstage : k.stage = .inBody .free) :
    (k.next (.body .free)).Handed := by
  obtain ⟨hinited, htime, hcl, hwl, hphase⟩ := h
  have hnext : k.next (.body .free) =
      { k with nodeFrees := k.nodeFrees + 1, stage := .done } := rfl
  rw [hstage] at hwl
  rw [hnext]
  refine ⟨hinited, htime, hcl, hwl, ?_⟩
  cases hphase with
  | unsignalled hstat hpc hs hlock hcond =>
      simp [hstage, Stage.unsignalled, Stage.beforeTests] at hs
  | signalled hstat hs hf => exact .signalled hstat rfl hf
  | marked hstat hpc hf hheld =>
      rw [hstage] at hf
      exact .marked hstat hpc hf hheld

/-- The two tests of `TaskStat`, the first of them on a node with a function. -/
theorem Handed.tests (h : k.Handed) {pc pc' : BodyPc} {skipped : Bool}
    (hstage : k.stage = .inBody pc)
    (hpc : (pc = .test ∧ pc' = .call) ∨ (pc = .testAgain ∧ pc' = .lockTask))
    (hnext : k.bodyNext pc =
      some (if k.isTimeout = true then .teardown .destroyLock skipped else pc'))
    (heff : ∃ fate, k.bodyEffect pc = { k with fate := fate }) : (k.next (.body pc)).Handed := by
  have hinit : k.node.taskStat = .init → k.isTimeout = false := by
    intro hstat
    simp [isTimeout, hstat]
  have hmarked : k.node.taskStat = .timeout → k.isTimeout = true := by
    intro hstat
    simp [isTimeout, hstat, h.hasTimeOut]
  obtain ⟨fate, heff⟩ := heff
  refine h.moves hstage _ hnext ⟨fate, k.started, k.returned, heff⟩ ?_ ?_ ?_ ?_
  · split_ifs <;> rcases hpc with ⟨rfl, rfl⟩ | ⟨rfl, rfl⟩ <;> rfl
  · intro _ hstat
    rw [hinit hstat]
    rcases hpc with ⟨rfl, rfl⟩ | ⟨rfl, rfl⟩ <;> rfl
  · rcases hpc with ⟨rfl, rfl⟩ | ⟨rfl, rfl⟩ <;> simp [Stage.signalled]
  · intro hstat
    rw [hmarked hstat]
    rcases hpc with ⟨rfl, rfl⟩ | ⟨rfl, rfl⟩ <;> rfl

theorem Handed.body {pc : BodyPc} (h : k.Handed) (hstage : k.stage = .inBody pc)
    (hsome : k.node.taskFunc.isSome = true) (hg : k.mayBody pc = true)
    (hq : InOrder k (.body pc)) : (k.next (.body pc)).Handed := by
  cases pc with
  | test =>
      have hnull : k.node.taskFunc.isNone = false := by
        rw [← Option.not_isSome, hsome]
        rfl
      have hnext : k.bodyNext .test =
          some (if k.isTimeout = true then .teardown .destroyLock true else .call) := by
        simp only [bodyNext, hnull, Bool.false_eq_true, if_false]
        split_ifs <;> rfl
      apply h.tests hstage (.inl ⟨rfl, rfl⟩) hnext
      by_cases hto : k.isTimeout = true
      · exact ⟨.skipped, by simp [bodyEffect, hnull, hto]⟩
      · exact ⟨k.fate, by simp [bodyEffect, hnull, hto]⟩
  | testAgain =>
      have hnext : k.bodyNext .testAgain =
          some (if k.isTimeout = true then .teardown .destroyLock false else .lockTask) := by
        simp only [bodyNext, h.hasTimeOut, if_true]
        split_ifs <;> rfl
      exact h.tests hstage (.inr ⟨rfl, rfl⟩) hnext ⟨k.fate, rfl⟩
  | call =>
      exact h.moves hstage .running rfl ⟨k.fate, _, k.returned, rfl⟩ rfl
        (fun _ _ => rfl) (fun hs => by simp [Stage.signalled] at hs) (fun _ => rfl)
  | running =>
      exact h.moves hstage .testAgain rfl ⟨k.fate, k.started, _, rfl⟩ rfl
        (fun _ _ => rfl) (fun hs => by simp [Stage.signalled] at hs) (fun _ => rfl)
  | lockTask =>
      simp only [mayBody, Option.isNone_iff_eq_none] at hg
      exact h.locks hstage hg
  | signalTask => exact h.signals hstage
  | unlockTask => exact h.unlocksTask hstage
  | teardown c skipped => exact h.tearsDown hstage hq
  | count =>
      exact h.moves hstage .unlink rfl ⟨_, k.started, k.returned, rfl⟩ rfl
        (fun hs => by simp [Stage.unsignalled, Stage.beforeTests] at hs) (fun _ => rfl)
        (fun _ => rfl)
  | unlink =>
      exact h.moves hstage .free rfl ⟨k.fate, k.started, k.returned, rfl⟩ rfl
        (fun hs => by simp [Stage.unsignalled, Stage.beforeTests] at hs) (fun _ => rfl)
        (fun _ => rfl)
  | free => exact h.freesNode hstage

theorem Handed.waits_body {pc : BodyPc} (h : k.Handed) (hw : k.Waits)
    (hstage : k.stage = .inBody pc) (hg : k.mayBody pc = true) : (k.next (.body pc)).Waits := by
  intro hl
  have hcall : (k.next (.body pc)).call = (k.bodyEffect pc).call := rfl
  rw [body_stage] at hl
  rw [hcall]
  cases pc with
  | lockTask =>
      -- nobody had the lock, so the caller is in its wait
      simp only [mayBody, Option.isNone_iff_eq_none] at hg
      have hfree : ¬ k.call.pc.locks = true := fun hcl => by simp [h.callerLocks.mpr hcl] at hg
      show k.call.pc.waits = true
      obtain ⟨-, hpc, -, -⟩ := h.phase.of_pending (by rw [hstage]; rfl) (by rw [hstage]; rfl)
      cases hk : k.call.pc with
      | blocked => rfl
      | woken timedOut => rfl
      | timedWait => simp [hk, CallPc.locks] at hfree
      | held timedOut => simp [hk, CallPc.locks] at hfree
      | _ => simp [hk, CallPc.unanswered] at hpc
  | signalTask =>
      have hold := hw (by rw [hstage]; rfl)
      simp only [bodyEffect]
      split_ifs
      · rfl
      · exact hold
  | test =>
      simp only [bodyNext] at hl
      split_ifs at hl <;> simp [Stage.locks] at hl
  | testAgain =>
      simp only [bodyNext] at hl
      split_ifs at hl <;> simp [Stage.locks] at hl
  | teardown c skipped => cases c <;> cases skipped <;> simp [bodyNext, Teardown.next, Stage.locks] at hl
  | _ => simp [bodyNext, Stage.locks] at hl

/-! ## All steps -/

theorem Handed.enter (h : k.Handed) (hstage : k.stage = .waiting) :
    (k.next .enter).Handed ∧ (k.next .enter).Waits := by
  obtain ⟨hinited, htime, hcl, hwl, hphase⟩ := h
  rw [hstage] at hwl
  refine ⟨⟨hinited, htime, hcl, hwl, ?_⟩, fun hl => by simp [Task.next, Stage.locks] at hl⟩
  cases hphase with
  | unsignalled hstat hpc hs hlock hcond => exact .unsignalled hstat hpc rfl hlock hcond
  | signalled hstat hs hf => simp [hstage, Stage.signalled] at hs
  | marked hstat hpc hf hheld =>
      rw [hstage] at hf
      exact .marked hstat hpc hf hheld

theorem Owned.init : Owned init where
  early _ := ⟨rfl, rfl, rfl, rfl, fun h => by simp [Task.init] at h⟩
  handed h := by simp [Task.init] at h

/-- A call that did not enqueue its node. -/
theorem Owned.of_notAdded (hadd : k.call.taskAdded = false)
    (hearly : k.call.pc.early = true → k.Untouched) : k.Owned :=
  ⟨hearly, fun h => by simp [hadd] at h⟩

theorem Owned.alloc (h : k.Owned) {ok : Bool} (hg : k.guard (.alloc ok) = true) :
    (k.next (.alloc ok)).Owned := by
  have hu := h.early (early_of_alloc hg)
  simp only [guard, Bool.or_eq_true, beq_iff_eq] at hg
  rcases hg with hk | hk <;> cases ok <;> refine of_notAdded ?_ (fun _ => ⟨?_, ?_, ?_, ?_, ?_⟩) <;>
    simp [Task.next, Task.alloc, hk, goto, hu.lockFrees, hu.condFrees, hu.lockOwner, hu.notAdded]

/-- The section that enqueues starts the first phase; it holds `TaskLock`. -/
theorem Owned.insert (hs : k.Sound) (h : k.Owned) {clockOk : Bool}
    (hg : k.guard (.insert clockOk) = true) : (k.next (.insert clockOk)).Owned := by
  have hu := h.early (early_of_insert hg)
  simp only [guard, Bool.or_eq_true, beq_iff_eq] at hg
  rcases hg with hk | hk
  · refine of_notAdded ?_ ?_ <;>
      simp [Task.next, Task.insert, hk, goto, hu.notAdded, CallPc.early]
  · cases clockOk with
    | false =>
        refine of_notAdded ?_ ?_ <;>
          simp [Task.next, Task.insert, hk, goto, hu.notAdded, CallPc.early]
    | true =>
        have hnext : k.next (.insert true) = { k with
            call := { k.call with taskAdded := true, pc := .timedWait }
            lockOwner := some .caller
            stage := .waiting } := by
          simp [Task.next, Task.insert, hk]
        obtain ⟨hinited, hstat⟩ := hu.ready hk
        have htime := (hs.filled (.inr (.inr hk))).2.2
        rw [hs.sync true (by rw [hk]; rfl)] at htime
        rw [hnext]
        refine ⟨fun hearly => by simp [CallPc.early] at hearly, fun _ _ => ⟨?_, ?_⟩⟩
        · exact ⟨hinited, htime, by simp [CallPc.locks], by simp [Stage.locks],
            .unsignalled hstat rfl rfl hu.lockFrees hu.condFrees⟩
        · exact fun hl => by simp [Stage.locks] at hl

theorem Owned.caller (h : k.Owned) {c : CallerAction} (hg : k.guard (.caller c) = true)
    (hq : InOrder k (.caller c)) : (k.next (.caller c)).Owned := by
  have hsame := SameLog.caller k c
  have hlate : (k.next (.caller c)).call.pc.early = false := caller_late hg
  have hadd : (k.next (.caller c)).call.taskAdded = k.call.taskAdded := caller_taskAdded
  refine ⟨fun hearly => by simp [hlate] at hearly, fun ha hsome => ?_⟩
  rw [hadd] at ha
  have hsome' : k.node.taskFunc.isSome = true := by
    rw [← hsame.taskFunc]
    exact hsome
  obtain ⟨hh, hw⟩ := h.handed ha hsome'
  exact ⟨hh.caller ha hg hq, hh.waits_caller hw hg⟩

theorem Owned.body (hs : k.Sound) (h : k.Owned) {pc : BodyPc}
    (hg : k.guard (.body pc) = true) (hq : InOrder k (.body pc)) :
    (k.next (.body pc)).Owned := by
  have hearly' := early_next hs.early hg
  have hnode : (k.next (.body pc)).node = k.node := bodyEffect_node pc
  simp only [guard, Bool.and_eq_true, beq_iff_eq] at hg
  refine ⟨fun hearly => absurd (hearly' hearly) (body_inside pc), fun ha hsome => ?_⟩
  rw [body_taskAdded] at ha
  rw [hnode] at hsome
  obtain ⟨hh, hw⟩ := h.handed ha hsome
  exact ⟨hh.body hg.1 hsome hg.2 hq, hh.waits_body hw hg.1 hg.2⟩

theorem Owned.next {a : TaskAction} (hs : k.Sound) (h : k.Owned) (hg : k.guard a = true)
    (hq : InOrder k a) : (k.next a).Owned := by
  cases a with
  | start sync taskFunc taskArg refused =>
      have hu := h.early (early_of_start hg)
      refine of_notAdded rfl (fun _ => ⟨hu.lockFrees, hu.condFrees, hu.lockOwner, rfl, ?_⟩)
      intro hpc
      cases sync <;> cases refused <;> simp [Task.next, start] at hpc
  | lengthTest busy =>
      have hu := h.early (early_of_lengthTest hg)
      refine of_notAdded hu.notAdded
        (fun _ => ⟨hu.lockFrees, hu.condFrees, hu.lockOwner, hu.notAdded, ?_⟩)
      intro hpc
      cases busy <;> simp [Task.next, lengthTest, goto] at hpc
  | alloc ok => exact h.alloc hg
  | insert clockOk => exact h.insert hs hg
  | caller c => exact h.caller hg hq
  | enter =>
      simp only [guard, beq_iff_eq] at hg
      refine ⟨fun hearly => ?_, fun ha hsome => (h.handed ha hsome).1.enter hg⟩
      have hout := hs.early hearly
      simp [hg] at hout
  | body pc => exact h.body hs hg hq

theorem owned_of_reach {k : Task} (hr : Reach taskSystem InOrder k) : k.Owned := by
  refine hr.invariant_of (fun k hk => sound_of_reach hk) ?_ ?_
  · rintro k rfl
    exact Owned.init
  · intro k a hs h hg hq
    exact h.next hs hg hq

/-- An enqueued node has left the outside. -/
theorem inside_next (a : TaskAction) (h : k.call.taskAdded = true → k.stage ≠ .outside) :
    (k.next a).call.taskAdded = true → (k.next a).stage ≠ .outside := by
  cases a with
  | start sync taskFunc taskArg refused => simp [Task.next, start]
  | lengthTest busy => exact h
  | alloc ok =>
      have hadd : (k.alloc ok).call.taskAdded = k.call.taskAdded := by
        unfold alloc
        split <;> cases ok <;> rfl
      rw [Task.next, alloc_stage, hadd]
      exact h
  | insert clockOk =>
      simp only [Task.next, insert]
      split
      · simp
      · split_ifs
        · simp
        · exact h
      · exact h
  | caller c =>
      rw [Task.next, caller_stage, caller_taskAdded]
      exact h
  | enter => simp [Task.next]
  | body pc => exact fun _ => body_inside pc

theorem inside_of_reach {P : Task → TaskAction → Prop} (hr : Reach taskSystem P k) :
    k.call.taskAdded = true → k.stage ≠ .outside := by
  refine Reach.invariant (I := fun x : Task => x.call.taskAdded = true → x.stage ≠ .outside)
    ?_ ?_ hr
  · rintro k rfl h
    simp [Task.init] at h
  · intro k a h _ _
    exact inside_next a h

/-! ## What it comes to -/

theorem Handed.locked (h : k.Handed) (hl : k.call.pc.locks = true) : k.lockFrees = 0 := by
  cases h.phase with
  | unsignalled hstat hpc hs hlock hcond => exact hlock
  | signalled hstat hs hf =>
      cases hk : k.call.pc with
      | held timedOut =>
          rw [hk, CallPc.freed, Option.some.injEq, Prod.mk.injEq] at hf
          exact hf.1.symm
      | unlock ret => exact (CallPc.freed_eq hf (.inl hk)).2.1
      | timedWait => simp [hk, CallPc.freed] at hf
      | _ => simp [hk, CallPc.locks] at hl
  | marked hstat hpc hf hheld => exact hheld hl

theorem freed_of_tearTouches {c : Teardown} (h : c.freed = (k.lockFrees, k.condFrees)) :
    k.frees (tearTouches c) = 0 := by
  have hlock : k.lockFrees = c.freed.1 := by rw [h]
  have hcond : k.condFrees = c.freed.2 := by rw [h]
  cases c
  · exact hlock
  · exact hcond
  · exact hlock
  · exact hcond

/-- The caller's steps touch what is not freed. -/
theorem Handed.caller_unfreed {a : CallerAction} (h : k.Handed) (hs : k.Sound)
    (hg : k.mayCaller a = true) (hq : InOrder k (.caller a)) {o : TaskObject}
    (ho : o ∈ k.touches (.caller a)) : k.frees o = 0 := by
  cases a with
  | spurious => exact absurd rfl hq.noSpurious
  | timeout =>
      simp only [mayCaller, beq_iff_eq] at hg
      simp only [touches, List.mem_singleton] at ho
      obtain ⟨-, -, -, hcond⟩ := h.phase.of_unanswered (by rw [hg]; rfl) (by rw [hg]; rfl)
      rw [ho]
      exact hcond
  | go =>
      have hpair : k.call.pc = .timedWait ∨ (∃ b, k.call.pc = .woken b) →
          k.lockFrees = 0 ∧ k.condFrees = 0 := by
        intro hk
        cases h.phase with
        | unsignalled hstat hpc hs hlock hcond => exact ⟨hlock, hcond⟩
        | signalled hstat hs hf =>
            rcases hk with hk | ⟨b, hk⟩
            · simp [hk, CallPc.freed] at hf
            · rw [hk, CallPc.freed, Option.some.injEq, Prod.mk.injEq] at hf
              exact ⟨hf.1.symm, hf.2.symm⟩
        | marked hstat hpc hf hheld =>
            rcases hk with hk | ⟨b, hk⟩ <;> simp [hk, CallPc.timedOut] at hpc
      cases hk : k.call.pc with
      | timedWait =>
          obtain ⟨hlock, hcond⟩ := hpair (.inl hk)
          simp only [touches, hk, List.mem_cons, List.not_mem_nil, or_false] at ho
          rcases ho with rfl | rfl
          · exact hlock
          · exact hcond
      | woken timedOut =>
          obtain ⟨hlock, hcond⟩ := hpair (.inr ⟨timedOut, hk⟩)
          simp only [touches, hk, List.mem_cons, List.not_mem_nil, or_false] at ho
          rcases ho with rfl | rfl
          · exact hlock
          · exact hcond
      | held timedOut =>
          cases timedOut with
          | false => simp [touches, hk] at ho
          | true =>
              -- the store to `node->TaskStat`
              have hbefore := hq.marksInTime rfl hk
              simp only [touches, hk, if_true, List.mem_singleton] at ho
              rw [ho]
              apply hs.logged.nodeFrees
              intro hdone
              simp [hdone, Stage.beforeTests] at hbefore
      | unlock ret =>
          simp only [touches, hk, List.mem_singleton] at ho
          rw [ho]
          exact h.locked (by rw [hk]; rfl)
      | teardown c ret =>
          simp only [touches, hk, List.mem_singleton] at ho
          obtain ⟨-, -, hf⟩ := h.phase.of_answered (by rw [hk]; rfl) (by rw [hk]; rfl)
          rw [ho]
          simp only [hk, CallPc.freed] at hf
          split_ifs at hf
          exact freed_of_tearTouches (Option.some.inj hf)
      | finish ret => simp [touches, hk] at ho
      | _ => simp [mayCaller, hk] at hg

/-- While the worker has `TaskLock` or is about to get it, nothing is freed. -/
theorem Handed.unfreed (h : k.Handed) (hw : k.Waits)
    (hstage : k.stage = .inBody .lockTask ∨ k.stage.locks = true) :
    k.lockFrees = 0 ∧ k.condFrees = 0 := by
  cases h.phase with
  | unsignalled hstat hpc hs hlock hcond => exact ⟨hlock, hcond⟩
  | signalled hstat hs hf =>
      rcases hstage with hstage | hl
      · simp [hstage, Stage.signalled] at hs
      · have hwait := hw hl
        cases hk : k.call.pc with
        | woken timedOut =>
            rw [hk, CallPc.freed, Option.some.injEq, Prod.mk.injEq] at hf
            exact ⟨hf.1.symm, hf.2.symm⟩
        | blocked => simp [hk, CallPc.freed] at hf
        | _ => simp [hk, CallPc.waits] at hwait
  | marked hstat hpc hf hheld =>
      rcases hstage with hstage | hl
      · simp [hstage, Stage.freed, Stage.beforeTests] at hf
      · have hwait := hw hl
        cases hk : k.call.pc <;> simp [hk, CallPc.timedOut, CallPc.waits] at hpc hwait

/-- So do the worker's. -/
theorem Handed.body_unfreed {pc : BodyPc} (h : k.Handed) (hw : k.Waits) (hs : k.Sound)
    (hstage : k.stage = .inBody pc) {o : TaskObject} (ho : o ∈ k.touches (.body pc)) :
    k.frees o = 0 := by
  have hnode : k.frees .node = 0 := hs.logged.nodeFrees (by simp [hstage])
  cases pc with
  | lockTask =>
      obtain ⟨hlock, -⟩ := h.unfreed hw (.inl hstage)
      simp only [touches, List.mem_cons, List.not_mem_nil, or_false] at ho
      rcases ho with rfl | rfl
      · exact hnode
      · exact hlock
  | signalTask =>
      obtain ⟨-, hcond⟩ := h.unfreed hw (.inr (by rw [hstage]; rfl))
      simp only [touches, List.mem_cons, List.not_mem_nil, or_false] at ho
      rcases ho with rfl | rfl
      · exact hnode
      · exact hcond
  | unlockTask =>
      obtain ⟨hlock, -⟩ := h.unfreed hw (.inr (by rw [hstage]; rfl))
      simp only [touches, List.mem_cons, List.not_mem_nil, or_false] at ho
      rcases ho with rfl | rfl
      · exact hnode
      · exact hlock
  | teardown c skipped =>
      simp only [touches, List.mem_cons, List.not_mem_nil, or_false] at ho
      rcases ho with rfl | rfl
      · exact hnode
      · obtain ⟨-, -, hfreed, -⟩ := h.phase.of_teardown hstage
        exact freed_of_tearTouches hfreed
  | running => simp [touches] at ho
  | count => simp [touches] at ho
  | _ =>
      simp only [touches, List.mem_singleton] at ho
      rw [ho]
      exact hnode

/-- **No step of an enqueued task touches what was freed.** -/
theorem unfreed_of_reach {a : TaskAction} {o : TaskObject} (hr : Reach taskSystem InOrder k)
    (hfunc : k.call.taskFunc.isSome = true) (hadd : (k.next a).call.taskAdded = true)
    (hg : k.guard a = true) (hq : InOrder k a) (ho : o ∈ k.touches a) : k.frees o = 0 := by
  have hs := sound_of_reach hr
  have hown := owned_of_reach hr
  have hhanded : k.call.taskAdded = true → k.Handed ∧ k.Waits := by
    intro hk
    have hstage : k.stage ≠ .outside := inside_of_reach hr hk
    apply hown.handed hk
    rw [(hs.filled (.inl hstage)).1]
    exact hfunc
  cases a with
  | insert clockOk =>
      have hearly := early_of_insert hg
      have hu := hown.early hearly
      have hnode : k.frees .node = 0 := by
        apply hs.logged.nodeFrees
        rw [hs.early hearly]
        simp
      simp only [touches] at ho
      split_ifs at ho
      · simp only [List.mem_cons, List.not_mem_nil, or_false] at ho
        rcases ho with rfl | rfl
        · exact hnode
        · exact hu.lockFrees
      · rw [List.mem_singleton.mp ho]
        exact hnode
  | caller c =>
      obtain ⟨hh, -⟩ := hhanded (by rw [← caller_taskAdded (a := c)]; exact hadd)
      exact hh.caller_unfreed hs hg hq ho
  | body pc =>
      simp only [guard, Bool.and_eq_true, beq_iff_eq] at hg
      rw [body_taskAdded] at hadd
      obtain ⟨hh, hw⟩ := hhanded hadd
      exact hh.body_unfreed hw hs hg.1 ho
  | _ => simp [touches] at ho

/-- Once both sides are done, everything is freed. -/
theorem Handed.freed_once (h : k.Handed) (hs : k.Sound) (hstage : k.stage = .done) {ret : ℤ}
    (hpc : k.call.pc = .returned ret) (o : TaskObject) : k.frees o = 1 := by
  have hnode : k.nodeFrees = 1 := by
    have hlogged := hs.logged
    rw [hstage] at hlogged
    rcases hlogged.2 with hlog | hlog
    · exact hlog.2.2.2
    · exact hlog.2.2.2
  have hpair : (k.lockFrees, k.condFrees) = (1, 1) := by
    cases h.phase with
    | unsignalled hstat hp hs hlock hcond => simp [hpc, CallPc.unanswered] at hp
    | signalled hstat hs hf =>
        simp only [hpc, CallPc.freed] at hf
        split_ifs at hf
        exact (Option.some.inj hf).symm
    | marked hstat hp hf hheld =>
        rw [hstage] at hf
        exact (Option.some.inj hf).symm
  rw [Prod.mk.injEq] at hpair
  cases o with
  | node => exact hnode
  | taskLock => exact hpair.1
  | taskCond => exact hpair.2

/-- **Everything is freed exactly once.** -/
theorem freed_once_of_reach {ret : ℤ} (hr : Reach taskSystem InOrder k)
    (hfunc : k.call.taskFunc.isSome = true) (hadd : k.call.taskAdded = true)
    (hpc : k.call.pc = .returned ret) (hstage : k.stage = .done) (o : TaskObject) :
    k.frees o = 1 := by
  have hs := sound_of_reach hr
  have hsome : k.node.taskFunc.isSome = true := by
    rw [(hs.filled (.inl (by simp [hstage]))).1]
    exact hfunc
  exact ((owned_of_reach hr).handed hadd hsome).1.freed_once hs hstage hpc o

end Task

end MyWorkEnv
