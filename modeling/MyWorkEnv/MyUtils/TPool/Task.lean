import MyWorkEnv.Lib.Transition
import MyWorkEnv.MyUtils.CommonUtil

/-!
# One task between its caller and its worker

A node of `myThreadPool.c` from the side of the one call that enqueues it,
`TPoolAddTask` or `TPoolAddTaskAndWait`, and of the one worker that comes to it
in its batch: the fields of `MY_TPOOL_TASK` (but for the links), the pair
`TaskLock`, `TaskCond`, and the code of the call and of the loop body in
`_TPoolProcFn`. A step is an access to something shared; what a side does
between two such accesses belongs to one of them.

* `pthread_cond_timedwait` ends by a signal, by its time, or spuriously, and
  then gets `TaskLock` back before it returns. When time is over is left open.
* `started`, `returned`, `fate` and the numbers of frees record what happened;
  no step depends on them.

What the steps do to the pool around the task is in `ThreadPool`.
-/

namespace MyWorkEnv

open Transition

/-- `MY_TPOOL_TASK_STATUS`. -/
inductive TaskStatus where
  | unspec
  | init
  | working
  | timeout
deriving DecidableEq

/-- `MY_TPOOL_TASK`; functions and arguments are numbers, `none` is `NULL`. -/
structure MyTPoolTask where
  taskFunc : Option ℕ
  taskArg : ℕ
  hasTimeOut : Bool
  taskStat : TaskStatus
deriving DecidableEq

inductive LockOwner where
  | caller
  | worker
deriving DecidableEq

/-- `pthread_mutex_destroy(TaskLock)` up to `_TPoolFree(TaskCond)`, on either
side. -/
inductive Teardown where
  | destroyLock
  | destroyCond
  | freeLock
  | freeCond
deriving DecidableEq

def Teardown.next : Teardown → Option Teardown
  | .destroyLock => some .destroyCond
  | .destroyCond => some .freeLock
  | .freeLock => some .freeCond
  | .freeCond => none

/-- Where the loop body of `_TPoolProcFn` stands: `test` and `testAgain` are the
two reads of `TaskStat`, `running` is inside `TaskFunc`. -/
inductive BodyPc where
  | test
  | call
  | running
  | testAgain
  | lockTask
  | signalTask
  | unlockTask
  | teardown (c : Teardown) (skipped : Bool)
  | count
  | unlink
  | free
deriving DecidableEq

/-- How far the pool has come with a node. -/
inductive Stage where
  | outside
  | waiting
  | inBody (k : BodyPc)
  | passed
  | done
deriving DecidableEq

/-- Where the call stands. `woken` still has to get `TaskLock`, `held` has it
and returns from `pthread_cond_timedwait`. -/
inductive CallPc where
  | idle
  | addTest
  | addAlloc
  | addInsert
  | waitAlloc
  | waitInsert
  | timedWait
  | blocked
  | woken (timedOut : Bool)
  | held (timedOut : Bool)
  | unlock (ret : ℤ)
  | finish (ret : ℤ)
  | teardown (c : Teardown) (ret : ℤ)
  | returned (ret : ℤ)
deriving DecidableEq

/-- Before the section that enqueues. -/
def CallPc.early : CallPc → Bool
  | .idle | .addTest | .addAlloc | .addInsert | .waitAlloc | .waitInsert => true
  | _ => false

/-- Is this in `TPoolAddTask` or in `TPoolAddTaskAndWait`? -/
def CallPc.inSync : CallPc → Option Bool
  | .idle | .returned _ => none
  | .addTest | .addAlloc | .addInsert => some false
  | _ => some true

/-- Parameters and locals of the call; `sync` for `TPoolAddTaskAndWait`. -/
structure TPoolCall where
  sync : Bool
  taskFunc : Option ℕ
  taskArg : ℕ
  taskInited : Bool
  taskAdded : Bool
  pc : CallPc
deriving DecidableEq

/-- What became of a node: passed over for its `NULL` function, skipped for its
timeout, or counted by `TaskSucceed`. -/
inductive Fate where
  | pending
  | passedOver
  | skipped
  | succeeded
deriving DecidableEq

structure Task where
  call : TPoolCall
  node : MyTPoolTask
  lockOwner : Option LockOwner
  stage : Stage
  -- what happened
  started : List (ℕ × ℕ)
  returned : ℕ
  fate : Fate
  nodeFrees : ℕ
  lockFrees : ℕ
  condFrees : ℕ
deriving DecidableEq

/-- What the caller's own steps depend on besides the state: `go` is the next
statement, the others end `pthread_cond_timedwait`. -/
inductive CallerAction where
  | go
  | timeout
  | spurious
deriving DecidableEq

inductive TaskAction where
  | start (sync : Bool) (taskFunc : Option ℕ) (taskArg : ℕ) (refused : Bool)
  | lengthTest (busy : Bool)
  | alloc (ok : Bool)
  | insert (clockOk : Bool)
  | caller (a : CallerAction)
  | enter
  | body (k : BodyPc)
deriving DecidableEq

namespace Task

def init : Task where
  call := ⟨false, none, 0, false, false, .idle⟩
  node := ⟨none, 0, false, .unspec⟩
  lockOwner := none
  stage := .outside
  started := []
  returned := 0
  fate := .pending
  nodeFrees := 0
  lockFrees := 0
  condFrees := 0

def goto (k : Task) (pc : CallPc) : Task := { k with call := { k.call with pc := pc } }

def isTimeout (k : Task) : Bool := k.node.hasTimeOut && k.node.taskStat == .timeout

/-- `_TPoolFree` in one of the two teardowns. -/
def tear (k : Task) : Teardown → Task
  | .destroyLock | .destroyCond => k
  | .freeLock => { k with lockFrees := k.lockFrees + 1 }
  | .freeCond => { k with condFrees := k.condFrees + 1 }

/-! ## The call -/

/-- Entry, with the outcome of the first test. -/
def start (k : Task) (sync : Bool) (taskFunc : Option ℕ) (taskArg : ℕ) (refused : Bool) :
    Task :=
  let pc : CallPc :=
    if sync then (if refused then .finish (-myEinval) else .waitAlloc)
    else (if refused then .returned (-myEinval) else .addTest)
  { k with call := ⟨sync, taskFunc, taskArg, false, false, pc⟩ }

def lengthTest (k : Task) (busy : Bool) : Task :=
  k.goto (if busy then .returned (-myEbusy) else .addAlloc)

/-- The allocations, and the initialisation of what was allocated. -/
def alloc (k : Task) (ok : Bool) : Task :=
  match k.call.pc with
  | .addAlloc =>
      if ok then
        { k.goto .addInsert with node := ⟨k.call.taskFunc, k.call.taskArg, false, .unspec⟩ }
      else k.goto (.returned (-myEnoMem))
  | .waitAlloc =>
      if ok then
        { k with
          call := { k.call with taskInited := true, pc := .waitInsert }
          node := ⟨k.call.taskFunc, k.call.taskArg, true, .init⟩ }
      else k.goto (.finish (-myEnoMem))
  | _ => k

/-- The locked section that enqueues; `TPoolAddTaskAndWait` leaves it with
`TaskLock`, or with nothing enqueued if the clock failed. -/
def insert (k : Task) (clockOk : Bool) : Task :=
  match k.call.pc with
  | .addInsert => { k.goto (.returned mySuccess) with stage := .waiting }
  | .waitInsert =>
      -- `TaskLock` is taken before `Lock` is let go of, so no worker signals too early
      if clockOk then
        { k with
          call := { k.call with taskAdded := true, pc := .timedWait }
          lockOwner := some .caller
          stage := .waiting }
      else k.goto (.unlock (-myEio))
  | _ => k

def mayCaller (k : Task) : CallerAction → Bool
  | .go =>
      match k.call.pc with
      | .timedWait | .held _ | .unlock _ | .finish _ | .teardown _ _ => true
      | .woken _ => k.lockOwner.isNone
      | _ => false
  | .timeout | .spurious => k.call.pc == .blocked

def caller (k : Task) : CallerAction → Task
  | .timeout => k.goto (.woken true)
  | .spurious => k.goto (.woken false)
  | .go =>
      match k.call.pc with
      | .timedWait => { k.goto .blocked with lockOwner := none }
      | .woken timedOut => { k.goto (.held timedOut) with lockOwner := some .caller }
      | .held timedOut =>
          -- no test of `TaskStat` or of a predicate: the reason of the wakeup decides
          if timedOut then
            { k.goto (.unlock (-myEtimedOut)) with
              node := { k.node with taskStat := .timeout } }
          else k.goto (.unlock mySuccess)
      | .unlock ret => { k.goto (.finish ret) with lockOwner := none }
      | .finish ret =>
          -- after a timeout the worker is expected to free the lock pair
          if k.call.taskInited && (!k.call.taskAdded || ret != -myEtimedOut) then
            k.goto (.teardown .destroyLock ret)
          else k.goto (.returned ret)
      | .teardown c ret =>
          (k.tear c).goto (match c.next with
            | some c' => .teardown c' ret
            | none => .returned ret)
      | _ => k

/-! ## The loop body -/

def mayBody (k : Task) : BodyPc → Bool
  | .lockTask => k.lockOwner.isNone
  | _ => true

/-- Where a step of the body leads, `none` for the end of the turn. -/
def bodyNext (k : Task) : BodyPc → Option BodyPc
  | .test =>
      if k.node.taskFunc.isNone then none
      else if k.isTimeout then some (.teardown .destroyLock true)
      else some .call
  | .call => some .running
  | .running => some .testAgain
  | .testAgain =>
      if k.node.hasTimeOut then
        if k.isTimeout then some (.teardown .destroyLock false) else some .lockTask
      else some .count
  | .lockTask => some .signalTask
  | .signalTask => some .unlockTask
  | .unlockTask => some .count
  | .teardown c skipped =>
      match c.next with
      | some c' => some (.teardown c' skipped)
      | none => some (if skipped then .unlink else .count)
  | .count => some .unlink
  | .unlink => some .free
  | .free => none

def bodyEffect (k : Task) : BodyPc → Task
  | .test =>
      if k.node.taskFunc.isNone then { k with fate := .passedOver }
      else if k.isTimeout then { k with fate := .skipped }
      else k
  | .call => { k with started := k.started ++ k.node.taskFunc.toList.map (·, k.node.taskArg) }
  | .running => { k with returned := k.returned + 1 }
  | .lockTask => { k with lockOwner := some .worker }
  -- lost if the wait has ended by itself
  | .signalTask => if k.call.pc = .blocked then k.goto (.woken false) else k
  | .unlockTask => { k with lockOwner := none }
  | .teardown c _ => k.tear c
  | .count => { k with fate := .succeeded }
  | .free => { k with nodeFrees := k.nodeFrees + 1 }
  | .testAgain | .unlink => k

def body (k : Task) (pc : BodyPc) : Task :=
  { k.bodyEffect pc with
    stage :=
      match k.bodyNext pc with
      | some pc' => .inBody pc'
      | none => if pc = .test then .passed else .done }

/-! ## The two together -/

def guard (k : Task) : TaskAction → Bool
  | .start .. => k.call.pc == .idle
  | .lengthTest _ => k.call.pc == .addTest
  | .alloc _ => k.call.pc == .addAlloc || k.call.pc == .waitAlloc
  | .insert _ => k.call.pc == .addInsert || k.call.pc == .waitInsert
  | .caller a => k.mayCaller a
  | .enter => k.stage == .waiting
  | .body pc => k.stage == .inBody pc && k.mayBody pc

def next (k : Task) : TaskAction → Task
  | .start sync taskFunc taskArg refused => k.start sync taskFunc taskArg refused
  | .lengthTest busy => k.lengthTest busy
  | .alloc ok => k.alloc ok
  | .insert clockOk => k.insert clockOk
  | .caller a => k.caller a
  | .enter => { k with stage := .inBody .test }
  | .body pc => k.body pc

/-! ## What a step leaves alone -/

variable {k : Task}

@[simp] theorem goto_stage (pc : CallPc) : (k.goto pc).stage = k.stage := rfl

@[simp] theorem tear_stage (c : Teardown) : (k.tear c).stage = k.stage := by
  cases c <;> rfl

@[simp] theorem tear_call (c : Teardown) : (k.tear c).call = k.call := by
  cases c <;> rfl

@[simp] theorem tear_node (c : Teardown) : (k.tear c).node = k.node := by
  cases c <;> rfl

@[simp] theorem tear_lockOwner (c : Teardown) : (k.tear c).lockOwner = k.lockOwner := by
  cases c <;> rfl

@[simp] theorem start_stage {sync refused : Bool} {taskFunc : Option ℕ} {taskArg : ℕ} :
    (k.start sync taskFunc taskArg refused).stage = k.stage := rfl

@[simp] theorem lengthTest_stage {busy : Bool} : (k.lengthTest busy).stage = k.stage := rfl

@[simp] theorem alloc_stage {ok : Bool} : (k.alloc ok).stage = k.stage := by
  unfold alloc
  split <;> cases ok <;> rfl

@[simp] theorem caller_stage {a : CallerAction} : (k.caller a).stage = k.stage := by
  unfold caller
  split
  · rfl
  · rfl
  · split
    · rfl
    · rfl
    · split_ifs <;> rfl
    · rfl
    · split_ifs <;> rfl
    · simp
    · rfl

/-- The first test leads to the call. -/
theorem bodyNext_call {pc : BodyPc} (h : k.bodyNext pc = some .call) : k.isTimeout = false := by
  cases pc with
  | test =>
      simp only [bodyNext] at h
      split_ifs at h with hnull htime
      · simp at h
      · simpa using htime
  | testAgain =>
      simp only [bodyNext] at h
      split_ifs at h <;> simp at h
  | teardown c skipped => cases c <;> cases skipped <;> simp [bodyNext, Teardown.next] at h
  | _ => simp [bodyNext] at h

theorem body_stage (pc : BodyPc) : (k.next (.body pc)).stage =
    match k.bodyNext pc with
    | some pc' => .inBody pc'
    | none => if pc = .test then .passed else .done :=
  rfl

theorem body_inside (pc : BodyPc) : (k.next (.body pc)).stage ≠ .outside := by
  rw [body_stage]
  split
  · simp
  · split_ifs <;> simp

theorem caller_taskAdded {a : CallerAction} :
    (k.caller a).call.taskAdded = k.call.taskAdded := by
  unfold caller
  split
  · rfl
  · rfl
  · split
    · rfl
    · rfl
    · split_ifs <;> rfl
    · rfl
    · split_ifs <;> rfl
    · simp [goto]
    · rfl

theorem next_body {pc : BodyPc} (pc' : BodyPc) (h : k.bodyNext pc = some pc') :
    k.next (.body pc) = { k.bodyEffect pc with stage := .inBody pc' } := by
  simp only [next, body, h]

/-- The body leaves the call where it is, unless it wakes it up. -/
theorem bodyEffect_call (pc : BodyPc) : (k.bodyEffect pc).call = k.call ∨
    (pc = .signalTask ∧ k.call.pc = .blocked ∧
      (k.bodyEffect pc).call = { k.call with pc := .woken false }) := by
  cases pc with
  | test =>
      left
      simp only [bodyEffect]
      split_ifs <;> rfl
  | signalTask =>
      by_cases hpc : k.call.pc = .blocked
      · right
        simp [bodyEffect, hpc, goto]
      · left
        simp [bodyEffect, hpc]
  | teardown c skipped =>
      left
      cases c <;> rfl
  | _ => exact .inl rfl

/-- The two ends of a turn. -/
theorem bodyNext_none {pc : BodyPc} (h : k.bodyNext pc = none) : pc = .test ∨ pc = .free := by
  cases pc with
  | test => exact .inl rfl
  | free => exact .inr rfl
  | testAgain =>
      simp only [bodyNext] at h
      split_ifs at h
  | teardown c skipped => cases c <;> simp [bodyNext, Teardown.next] at h
  | _ => simp [bodyNext] at h

theorem bodyNext_free {pc : BodyPc} (h : k.bodyNext pc = some .free) : pc = .unlink := by
  cases pc with
  | unlink => rfl
  | test =>
      simp only [bodyNext] at h
      split_ifs at h <;> simp at h
  | testAgain =>
      simp only [bodyNext] at h
      split_ifs at h <;> simp at h
  | teardown c skipped => cases c <;> cases skipped <;> simp [bodyNext, Teardown.next] at h
  | _ => simp [bodyNext] at h

/-- So does a whole step of it. -/
theorem next_body_call (pc : BodyPc) : (k.next (.body pc)).call = k.call ∨
    (pc = .signalTask ∧ k.call.pc = .blocked ∧
      (k.next (.body pc)).call = { k.call with pc := .woken false }) :=
  bodyEffect_call pc

theorem body_taskAdded (pc : BodyPc) :
    (k.next (.body pc)).call.taskAdded = k.call.taskAdded := by
  rcases k.next_body_call pc with heq | ⟨-, -, heq⟩ <;> rw [heq]

/-- The steps up to the section that enqueues. -/
theorem early_of_start {sync refused : Bool} {taskFunc : Option ℕ} {taskArg : ℕ}
    (h : k.guard (.start sync taskFunc taskArg refused) = true) : k.call.pc.early = true := by
  simp only [guard, beq_iff_eq] at h
  simp [h, CallPc.early]

theorem early_of_lengthTest {busy : Bool} (h : k.guard (.lengthTest busy) = true) :
    k.call.pc.early = true := by
  simp only [guard, beq_iff_eq] at h
  simp [h, CallPc.early]

theorem early_of_alloc {ok : Bool} (h : k.guard (.alloc ok) = true) :
    k.call.pc.early = true := by
  simp only [guard, Bool.or_eq_true, beq_iff_eq] at h
  rcases h with hpc | hpc <;> simp [hpc, CallPc.early]

theorem early_of_insert {clockOk : Bool} (h : k.guard (.insert clockOk) = true) :
    k.call.pc.early = true := by
  simp only [guard, Bool.or_eq_true, beq_iff_eq] at h
  rcases h with hpc | hpc <;> simp [hpc, CallPc.early]

/-- The steps behind the section that enqueues do not lead before it. -/
theorem caller_late {a : CallerAction} (hg : k.mayCaller a = true) :
    (k.caller a).call.pc.early = false := by
  cases a with
  | timeout => rfl
  | spurious => rfl
  | go =>
      cases hpc : k.call.pc with
      | timedWait => simp [caller, hpc, goto, CallPc.early]
      | woken timedOut => simp [caller, hpc, goto, CallPc.early]
      | held timedOut => cases timedOut <;> simp [caller, hpc, goto, CallPc.early]
      | unlock ret => simp [caller, hpc, goto, CallPc.early]
      | finish ret =>
          simp only [caller, hpc]
          split_ifs <;> rfl
      | teardown c ret => cases c <;> simp [caller, hpc, goto, Teardown.next, CallPc.early]
      | _ => simp [mayCaller, hpc] at hg

/-- A call that has not enqueued its node leaves it outside. -/
theorem early_next {a : TaskAction} (h : k.call.pc.early = true → k.stage = .outside)
    (hg : k.guard a = true) : (k.next a).call.pc.early = true → (k.next a).stage = .outside := by
  cases a with
  | start sync taskFunc taskArg refused =>
      intro _
      exact h (early_of_start hg)
  | lengthTest busy =>
      intro _
      exact h (early_of_lengthTest hg)
  | alloc ok =>
      intro _
      rw [next, alloc_stage]
      exact h (early_of_alloc hg)
  | insert clockOk =>
      intro hearly
      simp only [guard, Bool.or_eq_true, beq_iff_eq] at hg
      rcases hg with hg | hg
      · simp [next, insert, hg, goto, CallPc.early] at hearly
      · cases clockOk <;> simp [next, insert, hg, goto, CallPc.early] at hearly
  | caller c =>
      intro hearly
      have hlate : (k.next (.caller c)).call.pc.early = false := caller_late hg
      rw [hlate] at hearly
      exact absurd hearly (by simp)
  | enter =>
      intro hearly
      simp only [guard, beq_iff_eq] at hg
      rw [h hearly] at hg
      simp at hg
  | body pc =>
      intro hearly
      exfalso
      simp only [guard, Bool.and_eq_true, beq_iff_eq] at hg
      rcases k.next_body_call pc with heq | ⟨-, -, heq⟩
      · rw [heq] at hearly
        rw [h hearly] at hg
        simp at hg
      · rw [heq] at hearly
        simp [CallPc.early] at hearly

end Task

/-- A call and the worker that comes to its node. -/
def taskSystem : System Task TaskAction where
  init k := k = Task.init
  enabled k a := k.guard a = true
  next := Task.next

instance (k : Task) (a : TaskAction) : Decidable (taskSystem.enabled k a) :=
  inferInstanceAs (Decidable (_ = true))

end MyWorkEnv
