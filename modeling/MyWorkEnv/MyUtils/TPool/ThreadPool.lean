import MyWorkEnv.Lib.BatchQueue
import MyWorkEnv.MyUtils.List
import MyWorkEnv.MyUtils.TPool.Task

/-!
# The thread pool

`MY_THREAD_POOL` with its workers, the calls that add tasks, and the thread in
`TPoolModuleExit`. The steps are the sections of `myThreadPool.c` that hold
`Lock`, the accesses outside of them to what is shared, and the steps of
`Task`. A signal of `Cond` wakes at least one waiting worker if there is one,
and workers wake up spuriously.

* Task nodes are never recycled: the number of a task stands for its call, its
  node and its lock pair.
* A run starts when `TPoolModuleInit` has set `sg_TPoolModuleInited`.
  `pthread_cond_wait` does not fail. There is one call of `TPoolModuleExit`.
* `hist` records where the tasks are as lists; no step depends on it.
-/

namespace MyWorkEnv

open Transition LinkedRing

/-- The `MY_LIST_NODE`s: the head in the pool, the one on the stack of worker
`w`, and the one in task node `t`. -/
inductive TPoolPtr where
  | taskListHead
  | listHeadTmp (w : ℕ)
  | list (t : ℕ)
deriving DecidableEq

/-- Where `_TPoolProcFn` stands. `woken` has left `pthread_cond_wait` and is
about to get `Lock` back; `forStep` and `forEach` are the step and the test of
`MY_LIST_FOR_EACH`. -/
inductive WorkerPc where
  | whileTest
  | lockPool
  | waiting
  | woken
  | taken
  | forEach (loop tmp : Option TPoolPtr)
  | body (t : ℕ) (tmp : Option TPoolPtr) (k : BodyPc)
  | forStep (tmp : Option TPoolPtr)
  | leaving
  | exited
deriving DecidableEq

/-- Where `TPoolModuleExit` stands. -/
inductive ExitPc where
  | idle
  | setExit
  | lockedBroadcast
  | forTest (loop : BitVec 32)
  | forBroadcast (loop : BitVec 32)
  | destroyLock
  | destroyCond
  | freeThreads
  | freePool
  | clear
  | returned
deriving DecidableEq

/-- `MY_TPOOL_MODULE_INIT_ARG`. -/
structure TPoolModuleInitArg where
  threadPoolSize : ℕ
  timeout : BitVec 32
  taskListMaxLength : BitVec 32

abbrev myTaskTimeOutDefaultVal : BitVec 32 := 5
abbrev threadPoolMaxTaskLength : BitVec 32 := 1024

structure ThreadPool where
  -- `MY_THREAD_POOL`, with the links of all nodes
  links : Links TPoolPtr
  currentThreadNum : BitVec 32
  taskListLength : BitVec 32
  taskMaxLength : BitVec 32
  taskDefaultTimeout : BitVec 32
  exit : Bool
  -- `MY_THREAD_POOL_STATS`
  taskAdded : BitVec 32
  taskSucceed : BitVec 32
  taskFailed : BitVec 32
  inited : Bool
  -- the threads
  worker : ℕ → WorkerPc
  task : ℕ → Task
  exitPc : ExitPc
  -- what happened
  hist : BatchQueue.State ℕ
  lockDestroyed : Bool
  condDestroyed : Bool
  threadsFrees : ℕ
  poolFrees : ℕ

/-- `woke` are the workers a signal of `Cond` wakes. -/
inductive TPoolAction where
  | addTask (t : ℕ) (taskFunc : Option ℕ) (taskArg : ℕ)
  | addTaskAndWait (t : ℕ) (taskFunc : Option ℕ) (taskArg : ℕ) (timeoutSec : BitVec 32)
  | lengthTest (t : ℕ) (woke : List ℕ)
  | alloc (t : ℕ) (ok : Bool)
  | insert (t : ℕ) (clockOk : Bool) (woke : List ℕ)
  | caller (t : ℕ) (a : CallerAction)
  | worker (w : ℕ)
  | spuriousWakeup (w : ℕ)
  | setTimeout (timeout : BitVec 32)
  | setMaxQueueLength (queueLen : BitVec 32)
  | moduleExit
deriving DecidableEq

namespace ThreadPool

/-- The pool as `TPoolModuleInit` leaves it; `L` is what memory held before. -/
def init (arg : TPoolModuleInitArg) (L : Links TPoolPtr) : ThreadPool where
  links := myListNodeInit L .taskListHead
  currentThreadNum := 0
  taskListLength := 0
  taskMaxLength :=
    if arg.taskListMaxLength ≠ 0 then arg.taskListMaxLength else threadPoolMaxTaskLength
  taskDefaultTimeout := if arg.timeout ≠ 0 then arg.timeout else myTaskTimeOutDefaultVal
  exit := false
  taskAdded := 0
  taskSucceed := 0
  taskFailed := 0
  inited := true
  worker _ := .whileTest
  task _ := Task.init
  exitPc := .idle
  hist := .empty
  lockDestroyed := false
  condDestroyed := false
  threadsFrees := 0
  poolFrees := 0

variable (arg : TPoolModuleInitArg)

def act (s : ThreadPool) (t : ℕ) (a : TaskAction) : ThreadPool :=
  { s with task := Function.update s.task t ((s.task t).next a) }

def setWorker (s : ThreadPool) (w : ℕ) (pc : WorkerPc) : ThreadPool :=
  { s with worker := Function.update s.worker w pc }

@[simp] theorem setWorker_self (s : ThreadPool) (w : ℕ) (pc : WorkerPc) :
    (s.setWorker w pc).worker w = pc := by
  simp [setWorker]

@[simp] theorem setWorker_of_ne (s : ThreadPool) {w v : ℕ} (h : v ≠ w) (pc : WorkerPc) :
    (s.setWorker w pc).worker v = s.worker v := by
  simp [setWorker, h]

/-! ## `Cond` -/

/-- May `pthread_cond_signal` wake these? -/
def mayWake (s : ThreadPool) (woke : List ℕ) : Bool :=
  woke.all (fun w => decide (w < arg.threadPoolSize) && s.worker w == .waiting) &&
    (!woke.isEmpty || (List.range arg.threadPoolSize).all fun w => s.worker w != .waiting)

def signal (s : ThreadPool) (woke : List ℕ) : ThreadPool :=
  { s with worker := fun w => if w ∈ woke then .woken else s.worker w }

def broadcast (s : ThreadPool) : ThreadPool :=
  { s with worker := fun w => if s.worker w = .waiting then .woken else s.worker w }

/-! ## Adding tasks -/

def isFull (s : ThreadPool) : Bool := s.taskMaxLength.sle s.taskListLength

def addTask (s : ThreadPool) (t : ℕ) (taskFunc : Option ℕ) (taskArg : ℕ) : ThreadPool :=
  s.act t (.start false taskFunc taskArg !s.inited)

def addTaskAndWait (s : ThreadPool) (t : ℕ) (taskFunc : Option ℕ) (taskArg : ℕ)
    (timeoutSec : BitVec 32) : ThreadPool :=
  s.act t (.start true taskFunc taskArg
    (!s.inited || (s.taskDefaultTimeout.sle 0 && timeoutSec.sle 0)))

def lengthTest (s : ThreadPool) (t : ℕ) (woke : List ℕ) : ThreadPool :=
  (s.act t (.lengthTest s.isFull)).signal woke

/-- Only `TPoolAddTask` initialises the links of the new node. -/
def alloc (s : ThreadPool) (t : ℕ) (ok : Bool) : ThreadPool :=
  { s.act t (.alloc ok) with
    links :=
      if ok && (s.task t).call.pc == .addAlloc then myListNodeInit s.links (.list t)
      else s.links }

/-- Does the section that enqueues do so? -/
def enqueues (s : ThreadPool) (t : ℕ) (clockOk : Bool) : Bool :=
  (s.task t).call.pc == .addInsert || clockOk

def insert (s : ThreadPool) (t : ℕ) (clockOk : Bool) (woke : List ℕ) : ThreadPool :=
  let s' := s.act t (.insert clockOk)
  if s.enqueues t clockOk then
    { s'.signal woke with
      links := myListAddTail s.links (.list t) .taskListHead
      taskListLength := s.taskListLength + 1
      taskAdded := s.taskAdded + 1
      hist := s.hist.put t }
  else s'

/-- `TaskFailed` counts on the way out. -/
def caller (s : ThreadPool) (t : ℕ) (a : CallerAction) : ThreadPool :=
  let fails :=
    match a, (s.task t).call.pc with
    | .go, .finish ret => ret != mySuccess
    | _, _ => false
  { s.act t (.caller a) with
    taskFailed := if fails then s.taskFailed + 1 else s.taskFailed }

/-! ## `_TPoolProcFn` -/

def countIn (s : ThreadPool) : ThreadPool :=
  { s with currentThreadNum := s.currentThreadNum + 1 }

def takeAll (s : ThreadPool) (w : ℕ) : ThreadPool :=
  { s.setWorker w .taken with
    links := myListNodeInit (myListHeadCopy s.links (.listHeadTmp w) .taskListHead)
      .taskListHead
    taskListLength := 0
    currentThreadNum := s.currentThreadNum - 1
    hist := s.hist.take w }

/-- The test of `Exit`, then of the queue, inside `Lock`. -/
def examine (s : ThreadPool) (w : ℕ) : ThreadPool :=
  -- the counter is not decremented here, but behind `CommonReturn`
  if s.exit then s.setWorker w .leaving
  else if !myListIsEmpty s.links .taskListHead then s.takeAll w
  else s.setWorker w .waiting

/-- The task `MY_LIST_FOR_EACH` goes on with; it ends at the head. -/
def forEachTask (w : ℕ) (loop : Option TPoolPtr) : Option ℕ :=
  match myListForEachTest (.listHeadTmp w) loop with
  | some (.list t) => some t
  | _ => none

/-- A step of the loop body for node `t`. -/
def body (s : ThreadPool) (w t : ℕ) (tmp : Option TPoolPtr) (k : BodyPc) : ThreadPool :=
  let s' : ThreadPool :=
    { s.act t (.body k) with
      links := if k = .unlink then myListDelNode s.links (.list t) else s.links
      taskSucceed := if k = .count then s.taskSucceed + 1 else s.taskSucceed }
  match (s.task t).bodyNext k with
  | some k' => s'.setWorker w (.body t tmp k')
  -- a task without a function is neither unlinked nor freed
  | none => { s'.setWorker w (.forStep tmp) with hist := s.hist.drop w (k == .test) }

def stepWorker (s : ThreadPool) (w : ℕ) : ThreadPool :=
  match s.worker w with
  | .whileTest => s.setWorker w (if s.exit then .leaving else .lockPool)
  | .lockPool => s.countIn.examine w
  | .woken => s.examine w
  | .taken =>
      let (loop, tmp) := myListForEachInit s.links (.listHeadTmp w)
      s.setWorker w (.forEach loop tmp)
  | .forEach loop tmp =>
      match forEachTask w loop with
      | some t => (s.act t .enter).setWorker w (.body t tmp .test)
      | none => s.setWorker w .whileTest
  | .body t tmp k => s.body w t tmp k
  | .forStep tmp =>
      let (loop, tmp) := myListForEachStep s.links tmp
      s.setWorker w (.forEach loop tmp)
  | .leaving =>
      { s.setWorker w .exited with currentThreadNum := s.currentThreadNum - 1 }
  | .waiting | .exited => s

/-! ## `TPoolModuleExit` -/

def moduleExit (s : ThreadPool) : ThreadPool :=
  match s.exitPc with
  | .idle => { s with exitPc := if s.inited then .setExit else .returned }
  | .setExit => { s with exit := true, exitPc := .lockedBroadcast }
  | .lockedBroadcast => { s.broadcast with exitPc := .forTest 0 }
  -- `CurrentThreadNum` is read without `Lock`
  | .forTest loop =>
      { s with
        exitPc := if loop.slt s.currentThreadNum then .forBroadcast loop else .destroyLock }
  | .forBroadcast loop => { s.broadcast with exitPc := .forTest (loop + 1) }
  | .destroyLock => { s with lockDestroyed := true, exitPc := .destroyCond }
  | .destroyCond => { s with condDestroyed := true, exitPc := .freeThreads }
  | .freeThreads => { s with threadsFrees := s.threadsFrees + 1, exitPc := .freePool }
  | .freePool => { s with poolFrees := s.poolFrees + 1, exitPc := .clear }
  | .clear => { s with inited := false, exitPc := .returned }
  | .returned => s

/-! ## Steps -/

def guard (s : ThreadPool) : TPoolAction → Bool
  | .addTask t _ _ | .addTaskAndWait t _ _ _ => (s.task t).call.pc == .idle
  | .lengthTest t woke =>
      (s.task t).call.pc == .addTest &&
        (if s.isFull then s.mayWake arg woke else woke.isEmpty)
  | .alloc t ok => (s.task t).guard (.alloc ok)
  | .insert t clockOk woke =>
      (s.task t).guard (.insert clockOk) &&
        (if s.enqueues t clockOk then s.mayWake arg woke else woke.isEmpty)
  | .caller t a => (s.task t).mayCaller a
  | .worker w =>
      decide (w < arg.threadPoolSize) &&
        match s.worker w with
        | .waiting | .exited => false
        | .body t _ k => (s.task t).mayBody k
        | _ => true
  | .spuriousWakeup w => decide (w < arg.threadPoolSize) && s.worker w == .waiting
  | .setTimeout _ | .setMaxQueueLength _ => true
  | .moduleExit => s.exitPc != .returned

def next (s : ThreadPool) : TPoolAction → ThreadPool
  | .addTask t taskFunc taskArg => s.addTask t taskFunc taskArg
  | .addTaskAndWait t taskFunc taskArg timeoutSec =>
      s.addTaskAndWait t taskFunc taskArg timeoutSec
  | .lengthTest t woke => s.lengthTest t woke
  | .alloc t ok => s.alloc t ok
  | .insert t clockOk woke => s.insert t clockOk woke
  | .caller t a => s.caller t a
  | .worker w => s.stepWorker w
  | .spuriousWakeup w => s.setWorker w .woken
  | .setTimeout timeout => if s.inited then { s with taskDefaultTimeout := timeout } else s
  | .setMaxQueueLength queueLen => if s.inited then { s with taskMaxLength := queueLen } else s
  | .moduleExit => s.moduleExit

/-! ## Reading the steps -/

section steps

variable {arg} {s : ThreadPool} {w t : ℕ}

theorem worker_lt (h : s.guard arg (.worker w) = true) : w < arg.threadPoolSize := by
  simp only [guard, Bool.and_eq_true, decide_eq_true_eq] at h
  exact h.1

theorem next_insert {clockOk : Bool} {woke : List ℕ} (h : s.enqueues t clockOk = true) :
    s.next (.insert t clockOk woke) =
      { (s.act t (.insert clockOk)).signal woke with
        links := myListAddTail s.links (.list t) .taskListHead
        taskListLength := s.taskListLength + 1
        taskAdded := s.taskAdded + 1
        hist := s.hist.put t } := by
  simp [next, insert, h]

/-- The clock failed. -/
theorem next_insert_refused {clockOk : Bool} {woke : List ℕ} (h : ¬ s.enqueues t clockOk = true) :
    s.next (.insert t clockOk woke) = s.act t (.insert clockOk) := by
  simp [next, insert, h]

theorem next_lockPool (h : s.worker w = .lockPool) :
    s.next (.worker w) = s.countIn.examine w := by
  simp [next, stepWorker, h]

theorem next_woken (h : s.worker w = .woken) : s.next (.worker w) = s.examine w := by
  simp [next, stepWorker, h]

theorem next_body {tmp : Option TPoolPtr} {k : BodyPc} (h : s.worker w = .body t tmp k) :
    s.next (.worker w) = s.body w t tmp k := by
  simp [next, stepWorker, h]

variable {tmp : Option TPoolPtr} {k : BodyPc}

@[simp] theorem body_task :
    (s.body w t tmp k).task = Function.update s.task t ((s.task t).next (.body k)) := by
  unfold body
  cases (s.task t).bodyNext k <;> rfl

@[simp] theorem body_links : (s.body w t tmp k).links =
    if k = .unlink then myListDelNode s.links (.list t) else s.links := by
  unfold body
  cases (s.task t).bodyNext k <;> rfl

@[simp] theorem body_taskListLength :
    (s.body w t tmp k).taskListLength = s.taskListLength := by
  unfold body
  cases (s.task t).bodyNext k <;> rfl

@[simp] theorem body_taskAdded : (s.body w t tmp k).taskAdded = s.taskAdded := by
  unfold body
  cases (s.task t).bodyNext k <;> rfl

@[simp] theorem body_taskSucceed : (s.body w t tmp k).taskSucceed =
    if k = .count then s.taskSucceed + 1 else s.taskSucceed := by
  unfold body
  cases (s.task t).bodyNext k <;> rfl

/-- The worker goes on in the body, or behind it. -/
theorem body_worker : (s.body w t tmp k).worker = Function.update s.worker w
    (match (s.task t).bodyNext k with
      | some k' => .body t tmp k'
      | none => .forStep tmp) := by
  unfold body
  cases (s.task t).bodyNext k <;> rfl

theorem body_hist : (s.body w t tmp k).hist =
    match (s.task t).bodyNext k with
    | some _ => s.hist
    | none => s.hist.drop w (k == .test) := by
  unfold body
  cases (s.task t).bodyNext k <;> rfl

@[simp] theorem body_hist_order : (s.body w t tmp k).hist.order = s.hist.order := by
  rw [body_hist]
  split
  · rfl
  · exact BatchQueue.State.drop_order s.hist w _

@[simp] theorem body_hist_queue : (s.body w t tmp k).hist.queue = s.hist.queue := by
  rw [body_hist]
  split
  · rfl
  · exact BatchQueue.State.drop_queue s.hist w _

/-- A step of worker `w` moves no other worker. -/
theorem stepWorker_of_ne {v : ℕ} (h : v ≠ w) : (s.stepWorker w).worker v = s.worker v := by
  unfold stepWorker
  cases s.worker w with
  | lockPool =>
      show (s.countIn.examine w).worker v = s.countIn.worker v
      unfold examine
      split_ifs <;> exact setWorker_of_ne _ h _
  | woken =>
      show (s.examine w).worker v = s.worker v
      unfold examine
      split_ifs <;> exact setWorker_of_ne _ h _
  | forEach loop tmp =>
      show (match forEachTask w loop with
        | some t => (s.act t .enter).setWorker w (.body t tmp .test)
        | none => s.setWorker w .whileTest).worker v = s.worker v
      cases forEachTask w loop <;> exact setWorker_of_ne _ h _
  | body t tmp k =>
      show (s.body w t tmp k).worker v = s.worker v
      rw [body_worker]
      exact Function.update_of_ne h _ _
  | _ => simp [setWorker, h]

theorem signal_worker (woke : List ℕ) (v : ℕ) : (s.signal woke).worker v = s.worker v ∨
    v ∈ woke ∧ (s.signal woke).worker v = .woken := by
  by_cases hv : v ∈ woke
  · exact .inr ⟨hv, by simp [signal, hv]⟩
  · exact .inl (by simp [signal, hv])

theorem mayWake_waiting {woke : List ℕ} (hwake : s.mayWake arg woke = true) (hw : w ∈ woke) :
    s.worker w = .waiting := by
  simp only [mayWake, Bool.and_eq_true, List.all_eq_true, decide_eq_true_eq,
    beq_iff_eq] at hwake
  exact (hwake.1 w hw).2

/-- **How a worker moves**: by its own step, or out of `pthread_cond_wait`. -/
theorem next_worker {a : TPoolAction} (ha : s.guard arg a = true) (v : ℕ) :
    (s.next a).worker v = s.worker v ∨
      (s.worker v = .waiting ∧ (s.next a).worker v = .woken) ∨ a = .worker v := by
  cases a with
  | lengthTest t woke =>
      simp only [guard, Bool.and_eq_true] at ha
      refine (signal_worker (s := s.act t _) woke v).imp id (fun h => .inl ⟨?_, h.2⟩)
      have hwake := ha.2
      split_ifs at hwake with hfull
      · exact mayWake_waiting hwake h.1
      · simp [List.isEmpty_iff.mp hwake] at h
  | insert t clockOk woke =>
      by_cases henq : s.enqueues t clockOk = true
      · simp only [guard, Bool.and_eq_true, if_pos henq] at ha
        rw [next_insert henq]
        exact (signal_worker (s := s.act t _) woke v).imp id
          (fun h => .inl ⟨mayWake_waiting ha.2 h.1, h.2⟩)
      · rw [next_insert_refused henq]
        exact .inl rfl
  | worker w =>
      by_cases hvw : v = w
      · exact .inr (.inr (by rw [hvw]))
      · exact .inl (stepWorker_of_ne hvw)
  | spuriousWakeup w =>
      simp only [guard, Bool.and_eq_true, beq_iff_eq] at ha
      by_cases hvw : v = w
      · subst hvw
        exact .inr (.inl ⟨ha.2, setWorker_self s v _⟩)
      · exact .inl (setWorker_of_ne s hvw _)
  | setTimeout timeout =>
      left
      simp only [next]
      split_ifs <;> rfl
  | setMaxQueueLength queueLen =>
      left
      simp only [next]
      split_ifs <;> rfl
  | moduleExit =>
      have hbroadcast : ∀ pc, ({ s.broadcast with exitPc := pc } : ThreadPool).worker v =
          s.worker v ∨ s.worker v = .waiting ∧
            ({ s.broadcast with exitPc := pc } : ThreadPool).worker v = .woken := by
        intro pc
        by_cases hv : s.worker v = .waiting
        · exact .inr ⟨hv, by simp [broadcast, hv]⟩
        · exact .inl (by simp [broadcast, hv])
      simp only [next, moduleExit]
      cases s.exitPc with
      | lockedBroadcast => exact (hbroadcast _).imp id .inl
      | forBroadcast loop => exact (hbroadcast _).imp id .inl
      | _ => exact .inl rfl
  | _ => exact .inl rfl

/-- The queue stays, or a worker that has not seen `Exit` empties it. -/
def QueueKept (s s' : ThreadPool) : Prop :=
  s'.hist.order = s.hist.order ∧
    (s'.hist.queue = s.hist.queue ∧ s'.taskListLength = s.taskListLength ∨
      s.exit = false ∧ s'.hist.queue = [] ∧ s'.taskListLength = 0)

theorem QueueKept.same {s' : ThreadPool} (hhist : s'.hist = s.hist)
    (hlength : s'.taskListLength = s.taskListLength) : QueueKept s s' :=
  ⟨by rw [hhist], .inl ⟨by rw [hhist], hlength⟩⟩

theorem QueueKept.not_enqueues {clockOk : Bool} {woke : List ℕ}
    (h : QueueKept s (s.next (.insert t clockOk woke))) : ¬ s.enqueues t clockOk = true := by
  intro henq
  have hlen := congrArg List.length h.1
  rw [next_insert henq] at hlen
  simp [BatchQueue.State.put] at hlen

theorem examine_queueKept : QueueKept s (s.examine w) := by
  unfold examine
  split_ifs with hexit
  · exact .same rfl rfl
  · exact ⟨rfl, .inr ⟨by simpa using hexit, rfl, rfl⟩⟩
  · exact .same rfl rfl

theorem stepWorker_queueKept : QueueKept s (s.stepWorker w) := by
  unfold stepWorker
  cases s.worker w with
  | lockPool => exact examine_queueKept (s := s.countIn)
  | woken => exact examine_queueKept
  | forEach loop tmp =>
      simp only
      cases forEachTask w loop <;> exact .same rfl rfl
  | body t tmp k =>
      exact ⟨body_hist_order, .inl ⟨body_hist_queue, body_taskListLength⟩⟩
  | _ => exact .same rfl rfl

/-- **What a step does to the queue.** Only the section that enqueues adds to it. -/
theorem next_queue (s : ThreadPool) (a : TPoolAction) : QueueKept s (s.next a) ∨
    ∃ t clockOk woke, a = .insert t clockOk woke ∧ s.enqueues t clockOk = true ∧
      (s.next a).hist = s.hist.put t ∧ (s.next a).taskListLength = s.taskListLength + 1 := by
  cases a with
  | insert t clockOk woke =>
      by_cases henq : s.enqueues t clockOk = true
      · right
        refine ⟨t, clockOk, woke, rfl, henq, ?_⟩
        rw [next_insert henq]
        exact ⟨rfl, rfl⟩
      · left
        rw [next_insert_refused henq]
        exact .same rfl rfl
  | worker w => exact .inl stepWorker_queueKept
  | setTimeout timeout =>
      left
      simp only [next]
      split_ifs <;> exact .same rfl rfl
  | setMaxQueueLength queueLen =>
      left
      simp only [next]
      split_ifs <;> exact .same rfl rfl
  | moduleExit =>
      left
      simp only [next, moduleExit]
      cases s.exitPc <;> exact .same rfl rfl
  | _ => exact .inl (.same rfl rfl)

/-- Only `TPoolModuleExit` moves what it sets, destroys and frees. -/
structure SameExit (s s' : ThreadPool) : Prop where
  exit : s'.exit = s.exit
  exitPc : s'.exitPc = s.exitPc
  inited : s'.inited = s.inited
  lockDestroyed : s'.lockDestroyed = s.lockDestroyed
  condDestroyed : s'.condDestroyed = s.condDestroyed
  poolFrees : s'.poolFrees = s.poolFrees

theorem body_sameExit : SameExit s (s.body w t tmp k) := by
  unfold body
  cases (s.task t).bodyNext k <;> exact ⟨rfl, rfl, rfl, rfl, rfl, rfl⟩

theorem examine_sameExit : SameExit s (s.examine w) := by
  unfold examine
  split_ifs <;> exact ⟨rfl, rfl, rfl, rfl, rfl, rfl⟩

theorem stepWorker_sameExit : SameExit s (s.stepWorker w) := by
  unfold stepWorker
  cases s.worker w with
  | lockPool =>
      obtain ⟨hexit, hpc, hinited, hlock, hcond, hpool⟩ := examine_sameExit (s := s.countIn) (w := w)
      exact ⟨hexit, hpc, hinited, hlock, hcond, hpool⟩
  | woken => exact examine_sameExit
  | forEach loop tmp =>
      simp only
      cases forEachTask w loop <;> exact ⟨rfl, rfl, rfl, rfl, rfl, rfl⟩
  | body t tmp k => exact body_sameExit
  | _ => exact ⟨rfl, rfl, rfl, rfl, rfl, rfl⟩

theorem next_sameExit {a : TPoolAction} (ha : a ≠ .moduleExit) : SameExit s (s.next a) := by
  cases a with
  | insert t clockOk woke =>
      simp only [next, insert]
      split_ifs <;> exact ⟨rfl, rfl, rfl, rfl, rfl, rfl⟩
  | worker w => exact stepWorker_sameExit
  | setTimeout timeout =>
      simp only [next]
      split_ifs <;> exact ⟨rfl, rfl, rfl, rfl, rfl, rfl⟩
  | setMaxQueueLength queueLen =>
      simp only [next]
      split_ifs <;> exact ⟨rfl, rfl, rfl, rfl, rfl, rfl⟩
  | moduleExit => exact absurd rfl ha
  | _ => exact ⟨rfl, rfl, rfl, rfl, rfl, rfl⟩

end steps

end ThreadPool

def threadPoolSystem (arg : TPoolModuleInitArg) : System ThreadPool TPoolAction where
  init s := ∃ L, s = ThreadPool.init arg L
  enabled s a := s.guard arg a = true
  next := ThreadPool.next

instance (arg : TPoolModuleInitArg) (s : ThreadPool) (a : TPoolAction) :
    Decidable ((threadPoolSystem arg).enabled s a) :=
  inferInstanceAs (Decidable (_ = true))

/-- Not a step of `TPoolModuleExit`. -/
def TPoolAction.NotExit (a : TPoolAction) : Prop := a ≠ .moduleExit

instance (a : TPoolAction) : Decidable a.NotExit := inferInstanceAs (Decidable (_ ≠ _))

end MyWorkEnv
