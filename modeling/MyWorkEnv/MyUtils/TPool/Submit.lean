import MyWorkEnv.Lib.Custody
import MyWorkEnv.MyUtils.TPool.Task

/-!
# What a submission leaves behind

`TPoolAddTask` and `TPoolAddTaskAndWait` from start to end, with the blocks,
the mutexes and the condition variables they take and give back. What the
allocations, `clock_gettime` and `pthread_cond_timedwait` return is a parameter;
what other threads do to the pool meanwhile is left out.

`TPoolAddTask` allocates last and leaves nothing behind when it fails.
`TPoolAddTaskAndWait` allocates before it can fail, and its cleanup does not
cover every way out.
-/

namespace MyWorkEnv

open Custody

/-- The pool's `Lock`, or a `TaskLock` at its address. -/
inductive SubmitMutex where
  | pool
  | task (taskLock : ℕ)
deriving DecidableEq

inductive SubmitResource where
  | block (p : ℕ)
  | mutexInited (taskLock : ℕ)
  | condInited (taskCond : ℕ)
  | locked (m : SubmitMutex)
deriving DecidableEq

abbrev SubmitAccess := Access SubmitResource

/-- A node with its address, its `TaskLock` and its `TaskCond`. -/
structure SubmitNode where
  addr : ℕ
  task : MyTPoolTask
  taskLock : Option ℕ
  taskCond : Option ℕ
deriving DecidableEq

/-- What a submission reads and writes of the pool and its statistics. -/
structure SubmitPool where
  inited : Bool
  taskList : List SubmitNode
  taskListLength : BitVec 32
  taskMaxLength : BitVec 32
  taskDefaultTimeout : BitVec 32
  taskAdded : BitVec 32
  taskFailed : BitVec 32
deriving DecidableEq

/-- What a submission gets: its blocks, `none` for `NULL`, whether `clock_gettime`
succeeds, and what `pthread_cond_timedwait` returns. -/
structure SubmitOutcomes where
  taskLock : Option ℕ
  taskCond : Option ℕ
  node : Option ℕ
  distinct : [taskLock, taskCond, node].Pairwise fun p q => p = q → p = none
  clockOk : Bool
  timedWait : ℕ

/-- A call at its return. -/
structure Submission where
  ret : ℤ
  pool : SubmitPool
  enqueued : Bool
  trace : List SubmitAccess

/-- `_TPoolCalloc`. -/
def callocTrace : Option ℕ → List SubmitAccess
  | none => []
  | some p => [.acquire (.block p)]

/-- The section that adds a node. -/
def SubmitPool.enqueue (pool : SubmitPool) (node : SubmitNode) : SubmitPool :=
  { pool with
    taskList := pool.taskList ++ [node]
    taskListLength := pool.taskListLength + 1
    taskAdded := pool.taskAdded + 1 }

def SubmitPool.fail (pool : SubmitPool) : SubmitPool :=
  { pool with taskFailed := pool.taskFailed + 1 }

def tPoolAddTask (o : SubmitOutcomes) (pool : SubmitPool) (taskFunc : Option ℕ)
    (taskArg : ℕ) : Submission :=
  let lengthTest : List SubmitAccess := [.acquire (.locked .pool), .release (.locked .pool)]
  if ¬ pool.inited then ⟨-myEinval, pool, false, []⟩
  else if pool.taskMaxLength.toInt ≤ pool.taskListLength.toInt then
    ⟨-myEbusy, pool, false, lengthTest⟩
  else
    match o.node with
    | none => ⟨-myEnoMem, pool, false, lengthTest⟩
    | some node =>
        ⟨mySuccess, pool.enqueue ⟨node, ⟨taskFunc, taskArg, false, .unspec⟩, none, none⟩, true,
          lengthTest ++ [.acquire (.block node), .use (.block node), .acquire (.locked .pool),
            .use (.block node), .release (.locked .pool)]⟩

/-- The first test of `TPoolAddTaskAndWait`. -/
def SubmitPool.refuses (pool : SubmitPool) (timeoutSec : BitVec 32) : Prop :=
  pool.inited = false ∨ pool.taskDefaultTimeout.toInt ≤ 0 ∧ timeoutSec.toInt ≤ 0

instance (pool : SubmitPool) (timeoutSec : BitVec 32) : Decidable (pool.refuses timeoutSec) :=
  inferInstanceAs (Decidable (_ ∨ _))

/-- `CommonReturn` of `TPoolAddTaskAndWait`, with the lock pair if `taskInited`. -/
def submitReturn (ret : ℤ) (pool : SubmitPool) (taskAdded : Bool) (taskInited : Option (ℕ × ℕ))
    (trace : List SubmitAccess) : Submission :=
  let pool := if ret = mySuccess then pool else pool.fail
  match taskInited with
  | none => ⟨ret, pool, taskAdded, trace⟩
  | some (taskLock, taskCond) =>
      if ¬ taskAdded ∨ ret ≠ -myEtimedOut then
        ⟨ret, pool, taskAdded, trace ++ [.release (.mutexInited taskLock),
          .release (.condInited taskCond), .release (.block taskLock),
          .release (.block taskCond)]⟩
      else ⟨ret, pool, taskAdded, trace⟩

/-- From the allocations to the initialised node. -/
def submitInit (taskLock taskCond node : ℕ) : List SubmitAccess :=
  [.acquire (.block taskLock), .acquire (.block taskCond), .acquire (.block node),
    .use (.block taskLock), .acquire (.mutexInited taskLock), .use (.block taskCond),
    .acquire (.condInited taskCond), .use (.block node)]

/-- The locked section that enqueues, and the wait, which has `TaskLock` at its end. -/
def submitWait (taskLock taskCond node : ℕ) (timedOut : Bool) : List SubmitAccess :=
  [.acquire (.locked .pool), .use (.block node), .use (.mutexInited taskLock),
    .acquire (.locked (.task taskLock)), .release (.locked .pool),
    .use (.condInited taskCond), .use (.locked (.task taskLock))] ++
    if timedOut then [.use (.block node)] else []

def tPoolAddTaskAndWait (o : SubmitOutcomes) (pool : SubmitPool) (taskFunc : Option ℕ)
    (taskArg : ℕ) (timeoutSec : BitVec 32) : Submission :=
  if pool.refuses timeoutSec then submitReturn (-myEinval) pool false none []
  else
    match o.taskLock, o.taskCond, o.node with
    | some taskLock, some taskCond, some node =>
        let task : MyTPoolTask := ⟨taskFunc, taskArg, true, .init⟩
        let trace := submitInit taskLock taskCond node
        if o.clockOk then
          let ret : ℤ := -o.timedWait
          submitReturn ret (pool.enqueue ⟨node, task, some taskLock, some taskCond⟩) true
            (some (taskLock, taskCond))
            (trace ++ submitWait taskLock taskCond node (ret = -myEtimedOut) ++
              [.release (.locked (.task taskLock))])
        else
          -- `TaskLock` is locked where the node is added, and unlocked here all the same
          submitReturn (-myEio) pool false (some (taskLock, taskCond))
            (trace ++ [.acquire (.locked .pool), .release (.locked .pool),
              .release (.locked (.task taskLock))])
    | taskLock, taskCond, node =>
        submitReturn (-myEnoMem) pool false none
          (callocTrace taskLock ++ callocTrace taskCond ++ callocTrace node)

variable {o : SubmitOutcomes} {pool : SubmitPool} {taskFunc : Option ℕ} {taskArg : ℕ}
  {timeoutSec : BitVec 32}

/-! ## Calls of `Task` -/

/-- The steps of `TPoolAddTask` in `Task`. -/
def addTaskSteps (o : SubmitOutcomes) (pool : SubmitPool) (taskFunc : Option ℕ) (taskArg : ℕ) :
    List TaskAction :=
  .start false taskFunc taskArg (!pool.inited) ::
    if ¬ pool.inited then []
    else .lengthTest (pool.taskMaxLength.toInt ≤ pool.taskListLength.toInt) ::
      if pool.taskMaxLength.toInt ≤ pool.taskListLength.toInt then []
      else .alloc o.node.isSome :: if o.node.isSome then [.insert true] else []

/-- A call that runs alone returns what it returns in `Task`, and enqueues when it does. -/
theorem tPoolAddTask_task (o : SubmitOutcomes) (pool : SubmitPool) (taskFunc : Option ℕ)
    (taskArg : ℕ) :
    ((addTaskSteps o pool taskFunc taskArg).foldl Task.next .init).call.pc =
        .returned (tPoolAddTask o pool taskFunc taskArg).ret ∧
      (((addTaskSteps o pool taskFunc taskArg).foldl Task.next .init).stage = .waiting ↔
        (tPoolAddTask o pool taskFunc taskArg).enqueued = true) := by
  unfold addTaskSteps tPoolAddTask
  by_cases hinited : pool.inited = true
  · by_cases hbusy : pool.taskMaxLength.toInt ≤ pool.taskListLength.toInt
    · simp [hinited, hbusy, Task.next, Task.start, Task.lengthTest, Task.goto, Task.init]
    · cases hnode : o.node with
      | none =>
          simp [hinited, hbusy, Task.next, Task.start, Task.lengthTest, Task.alloc, Task.goto,
            Task.init]
      | some node =>
          simp [hinited, hbusy, Task.next, Task.start, Task.lengthTest, Task.alloc, Task.insert,
            Task.goto, Task.init]
  · simp [hinited, Task.next, Task.start, Task.init]

/-! ## What is left -/

/-- The queue is as it was, every block is freed, and no mutex is unlocked or destroyed
that was not locked or initialised. -/
structure LeavesNothing (pool : SubmitPool) (s : Submission) : Prop where
  taskList : s.pool.taskList = pool.taskList
  taskListLength : s.pool.taskListLength = pool.taskListLength
  blocks : ∀ p, Settled s.trace (.block p)
  locked : ∀ m, Backed s.trace (.locked m)
  mutexInited : ∀ taskLock, Backed s.trace (.mutexInited taskLock)

/-- A call that fails before it has enqueued anything leaves nothing behind. -/
def FailsCleanly (pool : SubmitPool) (s : Submission) : Prop :=
  s.ret ≠ mySuccess → s.ret ≠ -myEtimedOut → s.enqueued = false → LeavesNothing pool s

theorem leavesNothing_of_run {s : Submission} (hlist : s.pool.taskList = pool.taskList)
    (hlength : s.pool.taskListLength = pool.taskListLength) (h : run ∅ s.trace = some ∅) :
    LeavesNothing pool s :=
  ⟨hlist, hlength, fun _ => settled_of_run h (Finset.notMem_empty _),
    fun _ => backed_of_run h _, fun _ => backed_of_run h _⟩

/-- **`TPoolAddTask`**: all that can fail comes before the node, or is the node. -/
theorem tPoolAddTask_failsCleanly (o : SubmitOutcomes) (pool : SubmitPool)
    (taskFunc : Option ℕ) (taskArg : ℕ) :
    FailsCleanly pool (tPoolAddTask o pool taskFunc taskArg) := by
  intro hret _ _
  unfold tPoolAddTask at hret ⊢
  by_cases hinited : pool.inited = true
  · rw [if_neg (not_not_intro hinited)] at hret ⊢
    by_cases hbusy : pool.taskMaxLength.toInt ≤ pool.taskListLength.toInt
    · rw [if_pos hbusy]
      exact leavesNothing_of_run rfl rfl rfl
    · rw [if_neg hbusy] at hret ⊢
      cases hnode : o.node with
      | none => exact leavesNothing_of_run rfl rfl rfl
      | some node => simp [hnode] at hret
  · rw [if_pos hinited]
    exact leavesNothing_of_run rfl rfl rfl

/-- When `TPoolAddTaskAndWait` cleans up: it does not allocate, it gets nothing, or it
comes to enqueue its node. -/
def CleansUp (o : SubmitOutcomes) (pool : SubmitPool) (timeoutSec : BitVec 32) : Prop :=
  pool.refuses timeoutSec ∨
    (o.taskLock = none ∧ o.taskCond = none ∧ o.node = none) ∨
    (o.taskLock.isSome = true ∧ o.taskCond.isSome = true ∧ o.node.isSome = true ∧
      o.clockOk = true)

section Return

variable {ret : ℤ} {taskAdded : Bool} {taskInited : Option (ℕ × ℕ)} {trace : List SubmitAccess}

@[simp] theorem submitReturn_ret :
    (submitReturn ret pool taskAdded taskInited trace).ret = ret := by
  unfold submitReturn
  cases taskInited with
  | none => rfl
  | some pair => split_ifs <;> rfl

@[simp] theorem submitReturn_enqueued :
    (submitReturn ret pool taskAdded taskInited trace).enqueued = taskAdded := by
  unfold submitReturn
  cases taskInited with
  | none => rfl
  | some pair => split_ifs <;> rfl

end Return

/-- An allocation that fails is the way out for the blocks of those that did not. -/
theorem tPoolAddTaskAndWait_noMem (hrefuses : ¬ pool.refuses timeoutSec)
    (h : ¬ (o.taskLock.isSome = true ∧ o.taskCond.isSome = true ∧ o.node.isSome = true)) :
    tPoolAddTaskAndWait o pool taskFunc taskArg timeoutSec =
      submitReturn (-myEnoMem) pool false none
        (callocTrace o.taskLock ++ callocTrace o.taskCond ++ callocTrace o.node) := by
  unfold tPoolAddTaskAndWait
  rw [if_neg hrefuses]
  split
  · rename_i hlock hcond hnode
    simp [hlock, hcond, hnode] at h
  · rfl

theorem not_release_mem_callocTrace (p : Option ℕ) (r : SubmitResource) :
    .release r ∉ callocTrace p := by
  cases p <;> simp [callocTrace]

/-- With no memory for one of the blocks, the others are not freed. -/
theorem noMem_failsCleanly_iff (hrefuses : ¬ pool.refuses timeoutSec)
    (h : ¬ (o.taskLock.isSome = true ∧ o.taskCond.isSome = true ∧ o.node.isSome = true)) :
    FailsCleanly pool (tPoolAddTaskAndWait o pool taskFunc taskArg timeoutSec) ↔
      o.taskLock = none ∧ o.taskCond = none ∧ o.node = none := by
  rw [tPoolAddTaskAndWait_noMem hrefuses h]
  constructor
  · intro hclean
    have hleaves := hclean (by rw [submitReturn_ret]; decide)
      (by rw [submitReturn_ret]; decide) rfl
    have hnone : ∀ p, .acquire (.block p) ∉
        callocTrace o.taskLock ++ callocTrace o.taskCond ++ callocTrace o.node := by
      intro p hmem
      have hrelease := (hleaves.blocks p).release_mem hmem
      change .release (.block p) ∈
        callocTrace o.taskLock ++ callocTrace o.taskCond ++ callocTrace o.node at hrelease
      simp [not_release_mem_callocTrace] at hrelease
    refine ⟨?_, ?_, ?_⟩
    · cases hlock : o.taskLock with
      | none => rfl
      | some p => exact absurd (by simp [hlock, callocTrace]) (hnone p)
    · cases hcond : o.taskCond with
      | none => rfl
      | some p => exact absurd (by simp [hcond, callocTrace]) (hnone p)
    · cases hnode : o.node with
      | none => rfl
      | some p => exact absurd (by simp [hnode, callocTrace]) (hnone p)
  · rintro ⟨hlock, hcond, hnode⟩ _ _ _
    rw [hlock, hcond, hnode]
    exact leavesNothing_of_run rfl rfl rfl

/-- Without the time, `TaskLock` is unlocked that was never locked. -/
theorem clock_failsCleanly_iff (hrefuses : ¬ pool.refuses timeoutSec)
    (hlock : o.taskLock.isSome = true) (hcond : o.taskCond.isSome = true)
    (hnode : o.node.isSome = true) :
    FailsCleanly pool (tPoolAddTaskAndWait o pool taskFunc taskArg timeoutSec) ↔
      o.clockOk = true := by
  obtain ⟨taskLock, htaskLock⟩ := Option.isSome_iff_exists.mp hlock
  obtain ⟨taskCond, htaskCond⟩ := Option.isSome_iff_exists.mp hcond
  obtain ⟨node, hnode⟩ := Option.isSome_iff_exists.mp hnode
  unfold tPoolAddTaskAndWait
  simp only [if_neg hrefuses, htaskLock, htaskCond, hnode]
  by_cases hclock : o.clockOk = true
  · rw [if_pos hclock]
    refine iff_of_true (fun _ _ henqueued => ?_) hclock
    rw [submitReturn_enqueued] at henqueued
    cases henqueued
  · rw [if_neg hclock]
    refine iff_of_false (fun hclean => ?_) hclock
    have hleaves := hclean (by rw [submitReturn_ret]; decide)
      (by rw [submitReturn_ret]; decide) submitReturn_enqueued
    have hlocked := (hleaves.locked (.task taskLock)).acquire_mem
      (by simp [submitReturn, submitInit])
    simp [submitReturn, submitInit] at hlocked

/-- **`TPoolAddTaskAndWait`** fails cleanly only where it has nothing to clean up. -/
theorem tPoolAddTaskAndWait_failsCleanly_iff :
    FailsCleanly pool (tPoolAddTaskAndWait o pool taskFunc taskArg timeoutSec) ↔
      CleansUp o pool timeoutSec := by
  unfold CleansUp
  by_cases hrefuses : pool.refuses timeoutSec
  · refine iff_of_true (fun _ _ _ => ?_) (Or.inl hrefuses)
    unfold tPoolAddTaskAndWait
    rw [if_pos hrefuses]
    exact leavesNothing_of_run rfl rfl rfl
  · by_cases hall : o.taskLock.isSome = true ∧ o.taskCond.isSome = true ∧ o.node.isSome = true
    · obtain ⟨hlock, hcond, hnode⟩ := hall
      rw [clock_failsCleanly_iff hrefuses hlock hcond hnode]
      have hsome : ¬ o.taskLock = none := Option.isSome_iff_ne_none.mp hlock
      simp [hrefuses, hlock, hcond, hnode, hsome]
    · rw [noMem_failsCleanly_iff hrefuses hall]
      have hclock : ¬ (o.taskLock.isSome = true ∧ o.taskCond.isSome = true ∧
          o.node.isSome = true ∧ o.clockOk = true) :=
        fun h => hall ⟨h.1, h.2.1, h.2.2.1⟩
      rw [or_iff_right hrefuses, or_iff_left hclock]

/-- **Failed submissions.** Those of `TPoolAddTask` leave nothing behind; those of
`TPoolAddTaskAndWait` do so just when they are refused at once or all three blocks are
missing, or when it is not before the enqueuing that they fail. -/
theorem failedSubmission_iff (o : SubmitOutcomes) (pool : SubmitPool) (taskFunc : Option ℕ)
    (taskArg : ℕ) (timeoutSec : BitVec 32) :
    (FailsCleanly pool (tPoolAddTask o pool taskFunc taskArg) ∧
      FailsCleanly pool (tPoolAddTaskAndWait o pool taskFunc taskArg timeoutSec)) ↔
    CleansUp o pool timeoutSec := by
  rw [tPoolAddTaskAndWait_failsCleanly_iff]
  exact and_iff_right (tPoolAddTask_failsCleanly o pool taskFunc taskArg)

/-- An idle pool, and a system that has two blocks left of three. -/
def emptyPool : SubmitPool := ⟨true, [], 0, 1024, 5, 0, 0⟩
def twoBlocks : SubmitOutcomes := ⟨some 1, some 2, none, by decide, true, 0⟩

/-- The lock pair of a task whose node cannot be had is never freed. -/
theorem tPoolAddTaskAndWait_leaks :
    ¬ ∀ (o : SubmitOutcomes) (pool : SubmitPool) (taskFunc : Option ℕ) (taskArg : ℕ)
      (timeoutSec : BitVec 32),
      FailsCleanly pool (tPoolAddTask o pool taskFunc taskArg) ∧
        FailsCleanly pool (tPoolAddTaskAndWait o pool taskFunc taskArg timeoutSec) := by
  intro h
  have hclean := (h twoBlocks emptyPool none 0 0).2 (by decide) (by decide) (by decide)
  have hmem := (hclean.blocks 1).release_mem (by decide)
  exact absurd hmem (by decide)

/-! ## Calls that enqueue -/

section Enqueued

variable {taskLock taskCond node : ℕ} {held : Finset SubmitResource}

/-- The blocks of a task, and its lock pair. -/
def taskResources (taskLock taskCond node : ℕ) : Finset SubmitResource :=
  {.block node, .condInited taskCond, .mutexInited taskLock, .block taskCond, .block taskLock}

theorem run_submitInit (hlockCond : taskLock ≠ taskCond) (hlockNode : taskLock ≠ node)
    (hcondNode : taskCond ≠ node) :
    run ∅ (submitInit taskLock taskCond node) =
      some (taskResources taskLock taskCond node) := by
  simp only [submitInit, run, step, Finset.notMem_empty, Finset.mem_insert, Finset.mem_singleton,
    SubmitResource.block.injEq, reduceCtorEq, hlockCond.symm, hlockNode.symm, hcondNode.symm,
    insert_empty_eq, if_false, if_true, or_false, or_true, Option.bind_some]
  congr 1
  ext r
  simp only [taskResources, Finset.mem_insert, Finset.mem_singleton]
  tauto

/-- The wait ends with `TaskLock`. -/
theorem run_submitWait (timedOut : Bool) (hnode : .block node ∈ held)
    (hmutex : .mutexInited taskLock ∈ held) (hcond : .condInited taskCond ∈ held)
    (hpool : .locked .pool ∉ held) (htask : .locked (.task taskLock) ∉ held) :
    run held (submitWait taskLock taskCond node timedOut) =
      some (insert (.locked (.task taskLock)) held) := by
  have herase : (insert (.locked (.task taskLock)) (insert (.locked .pool) held)).erase
      (.locked .pool) = insert (SubmitResource.locked (.task taskLock)) held := by
    rw [Finset.erase_insert_of_ne (by simp), Finset.erase_insert hpool]
  cases timedOut <;>
    simp [submitWait, run, step, hnode, hmutex, hcond, hpool, htask, herase]

/-- All of that, up to the unlocking of `TaskLock`. -/
theorem run_submitted (hlockCond : taskLock ≠ taskCond) (hlockNode : taskLock ≠ node)
    (hcondNode : taskCond ≠ node) (timedOut : Bool) :
    run ∅ (submitInit taskLock taskCond node ++ submitWait taskLock taskCond node timedOut ++
      [.release (.locked (.task taskLock))]) = some (taskResources taskLock taskCond node) := by
  have hwait : run (taskResources taskLock taskCond node)
      (submitWait taskLock taskCond node timedOut) =
        some (insert (.locked (.task taskLock)) (taskResources taskLock taskCond node)) := by
    apply run_submitWait <;> simp [taskResources]
  rw [List.append_assoc, run_append, run_submitInit hlockCond hlockNode hcondNode,
    Option.bind_some, run_append, hwait, Option.bind_some,
    run_release (Finset.mem_insert_self _ _), run_nil,
    Finset.erase_insert (by simp [taskResources])]

theorem run_submitFree (hlockCond : taskLock ≠ taskCond) (hlockNode : taskLock ≠ node)
    (hcondNode : taskCond ≠ node) :
    run (taskResources taskLock taskCond node)
      [.release (.mutexInited taskLock), .release (.condInited taskCond),
        .release (.block taskLock), .release (.block taskCond)] = some {.block node} := by
  simp only [run, step, taskResources, Finset.mem_insert, Finset.mem_singleton,
    Finset.mem_erase, SubmitResource.block.injEq, reduceCtorEq, ne_eq, hlockCond,
    hlockCond.symm, not_false_eq_true, if_true, or_false, or_true, and_true,
    Option.bind_some, Option.some.injEq]
  ext r
  simp only [Finset.mem_erase, Finset.mem_insert, Finset.mem_singleton]
  constructor
  · tauto
  · rintro rfl
    simp [hlockNode.symm, hcondNode.symm]

/-- **The call that enqueues** has given everything but the node back, or, after a
timeout, leaves the lock pair to the worker as well. -/
theorem tPoolAddTaskAndWait_held (hrefuses : ¬ pool.refuses timeoutSec)
    (hlock : o.taskLock = some taskLock) (hcond : o.taskCond = some taskCond)
    (hnode : o.node = some node) (hclock : o.clockOk = true) :
    run ∅ (tPoolAddTaskAndWait o pool taskFunc taskArg timeoutSec).trace =
      if (-(o.timedWait : ℤ)) = -myEtimedOut then some (taskResources taskLock taskCond node)
      else some {.block node} := by
  have hdistinct := o.distinct
  simp only [hlock, hcond, hnode, List.pairwise_cons, List.mem_cons, List.not_mem_nil,
    forall_eq_or_imp, or_false, forall_eq, Option.some.injEq, reduceCtorEq, imp_false] at hdistinct
  obtain ⟨⟨hlockCond, hlockNode⟩, hcondNode, -⟩ := hdistinct
  have hsubmitted := run_submitted hlockCond hlockNode hcondNode
  unfold tPoolAddTaskAndWait
  simp only [if_neg hrefuses, hlock, hcond, hnode, if_pos hclock, submitReturn]
  by_cases htimed : (-(o.timedWait : ℤ)) = -myEtimedOut
  · simp only [htimed, not_true_eq_false, ne_eq, or_self, if_false, if_true]
    exact hsubmitted _
  · simp only [htimed, ne_eq, not_false_eq_true, or_true, if_false, if_true]
    rw [run_append, hsubmitted, Option.bind_some]
    exact run_submitFree hlockCond hlockNode hcondNode

end Enqueued

end MyWorkEnv
