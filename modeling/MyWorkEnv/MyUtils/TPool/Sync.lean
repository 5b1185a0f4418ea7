import MyWorkEnv.MyUtils.TPool.Batches
import MyWorkEnv.MyUtils.TPool.Ownership

/-!
# Synchronous tasks

Seen from one task, a run of the pool is a run of `taskSystem`, so what holds
for a call and the worker that comes to its node holds in the pool, whatever
the other calls and workers do.
-/

namespace MyWorkEnv

open Transition LinkedRing

namespace ThreadPool

/-- The step, if it is one of task `t`, meets `Q`. -/
def OnTask (t : ℕ) (Q : Task → TaskAction → Prop) (s : ThreadPool) (a : TPoolAction) : Prop :=
  match s.taskAction a with
  | some (u, m) => u = t → Q (s.task t) m
  | none => True

instance OnTask.decidable {t : ℕ} {Q : Task → TaskAction → Prop} [∀ k m, Decidable (Q k m)]
    (s : ThreadPool) (a : TPoolAction) : Decidable (OnTask t Q s a) := by
  unfold OnTask
  split <;> infer_instance

variable {arg : TPoolModuleInitArg} {s : ThreadPool} {t w : ℕ}

theorem task_step {Q : Task → TaskAction → Prop} {a : TPoolAction} (h : s.Placed arg)
    (ha : s.guard arg a = true) (hq : OnTask t Q s a) :
    (s.next a).task t = s.task t ∨
      ∃ m, (s.task t).guard m = true ∧ Q (s.task t) m ∧
        (s.next a).task t = (s.task t).next m := by
  rw [next_task]
  unfold OnTask at hq
  cases hm : s.taskAction a with
  | none => exact .inl rfl
  | some um =>
      obtain ⟨u, m⟩ := um
      rw [hm] at hq
      by_cases hut : u = t
      · subst hut
        exact .inr ⟨m, h.task_guard ha hm, hq rfl, Function.update_self u _ s.task⟩
      · exact .inl (Function.update_of_ne (Ne.symm hut) _ s.task)

end ThreadPool

open ThreadPool

variable {arg : TPoolModuleInitArg} {s s' : ThreadPool} {t w : ℕ} {Q : Task → TaskAction → Prop}

theorem task_of_reach (hr : Reach (threadPoolSystem arg) (OnTask t Q) s) :
    Reach taskSystem Q (s.task t) := by
  refine Reach.view (J := Placed arg) (fun s => s.task t) (fun s hs => placed_of_reach hs)
    ?_ ?_ hr
  · rintro s ⟨L, rfl⟩
    rfl
  · intro s a h ha hq
    exact task_step h ha hq

theorem sound_of_pool {P : ThreadPool → TPoolAction → Prop}
    (hr : Reach (threadPoolSystem arg) P s) (t : ℕ) : (s.task t).Sound := by
  have hall : Reach (threadPoolSystem arg) (OnTask t fun _ _ => True) s := by
    apply hr.mono
    intro s a _
    unfold OnTask
    split
    · exact fun _ => trivial
    · trivial
  exact Task.sound_of_reach (task_of_reach hall)

theorem task_onward_of_reach (hr : Reach (threadPoolSystem arg) (OnTask t Q) s)
    (hr' : Reach ((threadPoolSystem arg).onward s) (OnTask t Q) s') :
    Reach (taskSystem.onward (s.task t)) Q (s'.task t) := by
  refine Reach.view (J := Placed arg) (fun s => s.task t)
    (fun x hx => placed_of_reach (hr.trans hx)) ?_ ?_ hr'
  · rintro x rfl
    rfl
  · intro x a h ha hq
    exact task_step h ha hq

/-! ## Runs of a pool with one worker -/

def oneWorker : TPoolModuleInitArg := ⟨1, 0, 0⟩

def idlePool : ThreadPool :=
  ThreadPool.init oneWorker ⟨fun _ => .taskListHead, fun _ => .taskListHead⟩

abbrev oneWorkerAfter (as : List TPoolAction) : ThreadPool :=
  exec (threadPoolSystem oneWorker) idlePool as

theorem reach_oneWorker {P : ThreadPool → TPoolAction → Prop} {as : List TPoolAction}
    (h : Legal (threadPoolSystem oneWorker) P idlePool as) :
    Reach (threadPoolSystem oneWorker) P (oneWorkerAfter as) :=
  Reach.exec (.init ⟨_, rfl⟩) h

/-- Function 1 is called with argument 7, and the caller waits for it. -/
def waitForTask : List TPoolAction :=
  [.addTaskAndWait 0 (some 1) 7 5, .alloc 0 true, .insert 0 true [], .caller 0 .go]

/-- The caller gets from the end of its wait to its `return`. -/
def comesBack (steps : ℕ) : List TPoolAction := List.replicate steps (.caller 0 .go)

def works (steps : ℕ) : List TPoolAction := List.replicate steps (.worker 0)

/-! ## Success -/

/-- **Whenever `TPoolAddTaskAndWait` returns `MY_SUCCESS`, its function has been
called once, with its argument, and that call has returned**, in the runs where the
timed wait ends spuriously only behind that call. -/
theorem addTaskAndWait_success (hr : Reach (threadPoolSystem arg) (OnTask t Task.SpuriousLate) s)
    (hsync : (s.task t).call.sync = true) (hret : (s.task t).call.pc = .returned mySuccess) :
    (s.task t).returned = 1 ∧ ∃ f, (s.task t).call.taskFunc = some f ∧
      (s.task t).started = [(f, (s.task t).call.taskArg)] :=
  Task.ran_of_success (task_of_reach hr) hsync hret

/-- The worker takes the task, runs it and signals; then the caller comes back. -/
def answeredRun : List TPoolAction := waitForTask ++ works 11 ++ comesBack 8

theorem addTaskAndWait_success_run :
    ((oneWorkerAfter answeredRun).task 0).returned = 1 ∧
      ∃ f, ((oneWorkerAfter answeredRun).task 0).call.taskFunc = some f ∧
        ((oneWorkerAfter answeredRun).task 0).started =
          [(f, ((oneWorkerAfter answeredRun).task 0).call.taskArg)] :=
  addTaskAndWait_success (reach_oneWorker (by decide))
    (by decide) (by decide)

/-- The timed wait ends spuriously while the task is still queued. -/
def earlySuccessRun : List TPoolAction :=
  waitForTask ++ .caller 0 .spurious :: comesBack 8

/-- A success without a call. -/
theorem success_without_call :
    ∃ s, Reachable (threadPoolSystem oneWorker) s ∧ (s.task 0).call.sync = true ∧
      (s.task 0).call.pc = .returned mySuccess ∧ (s.task 0).started = [] ∧
      0 ∈ s.hist.queue :=
  ⟨oneWorkerAfter earlySuccessRun, reach_oneWorker (by decide), by decide,
    by decide, by decide, by decide⟩

/-! ## Timeout -/

/-- **Once it has returned `-MY_ETIMEDOUT` for a function that was not called, no worker
calls it**, in the runs where it does not so return while the worker is between its
test and the call. -/
theorem addTaskAndWait_timeout (hr : Reach (threadPoolSystem arg) (OnTask t Task.NotBetween) s)
    (hret : (s.task t).call.pc = .returned (-myEtimedOut)) (hstarted : (s.task t).started = [])
    (hr' : Reach ((threadPoolSystem arg).onward s) (OnTask t Task.NotBetween) s') :
    (s'.task t).started = [] :=
  Task.not_run_after_timeout (task_of_reach hr) hret hstarted (task_onward_of_reach hr hr')

/-- The wait is over before the worker comes to the task. -/
def timedOutRun : List TPoolAction := waitForTask ++ .caller 0 .timeout :: comesBack 4

theorem addTaskAndWait_timeout_run :
    ((exec (threadPoolSystem oneWorker) (oneWorkerAfter timedOutRun) (works 14)).task 0).started =
      [] :=
  addTaskAndWait_timeout (s := oneWorkerAfter timedOutRun)
    (reach_oneWorker (by decide)) (by decide) (by decide)
    (Reach.exec (M := (threadPoolSystem oneWorker).onward _) (.init rfl) (by decide))

/-- The wait is over when the worker has made its test. -/
def lateCallRun : List TPoolAction :=
  waitForTask ++ works 5 ++ .caller 0 .timeout :: comesBack 4

/-- A call behind the timeout. -/
theorem call_after_timeout :
    ∃ s, Reachable (threadPoolSystem oneWorker) s ∧
      (s.task 0).call.pc = .returned (-myEtimedOut) ∧ (s.task 0).started = [] ∧
      s.guard oneWorker (.worker 0) = true ∧
      ((s.next (.worker 0)).task 0).started = [(1, 7)] :=
  ⟨oneWorkerAfter lateCallRun, reach_oneWorker (by decide), by decide,
    by decide, by decide, by decide⟩

/-! ## What is touched -/

namespace ThreadPool

/-- The list nodes whose pointers a step reads or writes. -/
def linkTouches (s : ThreadPool) : TPoolAction → List TPoolPtr
  | .alloc t _ => [.list t]
  | .insert t _ _ => [.taskListHead, s.links.prev .taskListHead, .list t]
  | .worker w =>
      match s.worker w with
      | .lockPool | .woken =>
          [.taskListHead, s.links.next .taskListHead, s.links.prev .taskListHead, .listHeadTmp w]
      | .taken =>
          let first := s.links.next (.listHeadTmp w)
          [.listHeadTmp w, first, s.links.next first]
      | .body t _ .unlink => [.list t, s.links.prev (.list t), s.links.next (.list t)]
      | .forStep (some p) => [p, s.links.next p]
      | _ => []
  | _ => []

/-- The objects of task `t` a step touches, its own or through the links. -/
def touches (s : ThreadPool) (t : ℕ) (a : TPoolAction) : List TaskObject :=
  (match s.taskAction a with
    | some (u, m) => if u = t then (s.task t).touches m else []
    | none => []) ++
  if TPoolPtr.list t ∈ s.linkTouches a then [.node] else []

theorem Placed.queue_linked (h : s.Placed arg)
    (ht : TPoolPtr.list t ∈ TPoolPtr.taskListHead :: s.hist.queue.map .list) :
    s.stage t ≠ .done := by
  have hmem : t ∈ s.hist.queue := by simpa using ht
  simp [h.waiting t hmem]

theorem Placed.batch_linked (h : s.Placed arg) (hw : w < arg.threadPoolSize) {ts : List ℕ}
    (hts : ∀ u ∈ ts, u ∈ s.hist.left w ++ s.hist.rest w)
    (ht : TPoolPtr.list t ∈ TPoolPtr.listHeadTmp w :: ts.map .list) : s.stage t ≠ .done := by
  have hmem : t ∈ ts := by simpa using ht
  rcases List.mem_append.mp (hts t hmem) with hl | hr
  · simp [h.left w t hl]
  · rcases h.stage_of_rest hw hr with hs | ⟨k, hs⟩ <;> simp [hs]

theorem ahead_mem (w : ℕ) (front ts : List ℕ) :
    ahead w ts ∈ TPoolPtr.listHeadTmp w :: (front ++ ts).map .list := by
  cases ts with
  | nil => exact List.mem_cons_self
  | cons t ts => simp [ahead]

theorem Placed.fresh_linked (h : s.Placed arg) (ht : (s.task t).call.pc.early = true) :
    s.stage t ≠ .done := by
  simp [h.early t ht]

/-- The locked section of a worker: the head of the queue and its neighbours. -/
theorem Placed.section_linked (h : s.Placed arg)
    (ht : TPoolPtr.list t ∈ [TPoolPtr.taskListHead, s.links.next .taskListHead,
      s.links.prev .taskListHead, .listHeadTmp w]) : s.stage t ≠ .done := by
  simp only [List.mem_cons, List.not_mem_nil, or_false] at ht
  rcases ht with ht | ht | ht | ht
  · simp at ht
  · exact h.queue_linked (ht ▸ h.queue.next_mem List.mem_cons_self)
  · exact h.queue_linked (ht ▸ h.queue.prev_mem List.mem_cons_self)
  · simp at ht

/-- `MY_LIST_DEL_NODE` reads and writes the neighbours in the batch. -/
theorem Placed.unlink_linked (h : s.Placed arg) (hw : w < arg.threadPoolSize) {u : ℕ}
    {tmp : Option TPoolPtr} (hpc : s.worker w = .body u tmp .unlink)
    (ht : TPoolPtr.list t ∈
      [TPoolPtr.list u, s.links.prev (.list u), s.links.next (.list u)]) :
    s.stage t ≠ .done := by
  have hok := h.worker w hw
  rw [hpc] at hok
  obtain ⟨ts, hrest, -, hring, -, -⟩ := hok
  rw [if_neg (by simp)] at hring
  have hu : TPoolPtr.list u ∈
      TPoolPtr.listHeadTmp w :: (s.hist.left w ++ u :: ts).map .list := by
    simp
  have hsub : ∀ x ∈ s.hist.left w ++ u :: ts, x ∈ s.hist.left w ++ s.hist.rest w := by
    intro x hx
    rwa [hrest]
  apply h.batch_linked hw hsub
  simp only [List.mem_cons, List.not_mem_nil, or_false] at ht
  rcases ht with ht | ht | ht
  · exact ht ▸ hu
  · exact ht ▸ hring.prev_mem hu
  · exact ht ▸ hring.next_mem hu

theorem Placed.worker_linked (h : s.Placed arg) (hw : w < arg.threadPoolSize)
    (ht : TPoolPtr.list t ∈ s.linkTouches (.worker w)) : s.stage t ≠ .done := by
  have hok := h.worker w hw
  cases hpc : s.worker w with
  | lockPool => exact h.section_linked (w := w) (by simpa [linkTouches, hpc] using ht)
  | woken => exact h.section_linked (w := w) (by simpa [linkTouches, hpc] using ht)
  | taken =>
      rw [hpc] at hok
      obtain ⟨-, -, hring, -⟩ := hok
      have hfirst := hring.next_mem List.mem_cons_self
      have hsub : ∀ u ∈ s.hist.rest w, u ∈ s.hist.left w ++ s.hist.rest w :=
        fun u hu => List.mem_append_right _ hu
      apply h.batch_linked hw hsub
      simp only [linkTouches, hpc, List.mem_cons, List.not_mem_nil, or_false] at ht
      rcases ht with ht | ht | ht
      · simp at ht
      · exact ht ▸ hfirst
      · exact ht ▸ hring.next_mem hfirst
  | forStep tmp =>
      rw [hpc] at hok
      obtain ⟨rfl, hring, -⟩ := hok
      have hahead := ahead_mem w (s.hist.left w) (s.hist.rest w)
      apply h.batch_linked hw (fun u hu => hu)
      simp only [linkTouches, hpc, List.mem_cons, List.not_mem_nil, or_false] at ht
      rcases ht with ht | ht
      · exact ht ▸ hahead
      · exact ht ▸ hring.next_mem hahead
  | body u tmp k =>
      cases k with
      | unlink => exact h.unlink_linked hw hpc (by simpa [linkTouches, hpc] using ht)
      | _ => simp [linkTouches, hpc] at ht
  | _ => simp [linkTouches, hpc] at ht

/-- **What is linked, or not yet enqueued, is not freed.** -/
theorem Placed.linked (h : s.Placed arg) {a : TPoolAction} (ha : s.guard arg a = true)
    (ht : TPoolPtr.list t ∈ s.linkTouches a) : s.stage t ≠ .done := by
  cases a with
  | alloc u ok =>
      simp only [linkTouches, List.mem_singleton, TPoolPtr.list.injEq] at ht
      subst ht
      have hg : (s.task t).guard (.alloc ok) = true := ha
      exact h.fresh_linked (Task.early_of_alloc hg)
  | insert u clockOk woke =>
      simp only [linkTouches, List.mem_cons, List.not_mem_nil, or_false] at ht
      rcases ht with ht | ht | ht
      · simp at ht
      · exact h.queue_linked (ht ▸ h.queue.prev_mem List.mem_cons_self)
      · rw [TPoolPtr.list.injEq] at ht
        subst ht
        simp only [guard, Bool.and_eq_true] at ha
        exact h.fresh_linked (Task.early_of_insert ha.1)
  | worker w => exact h.worker_linked (worker_lt ha) ht
  | _ => simp [linkTouches] at ht

end ThreadPool

/-- **The objects of an enqueued synchronous task are freed once each, and no step
touches one of them after that**, in the runs of `Task.InOrder`. -/
theorem addTaskAndWait_objects (hr : Reach (threadPoolSystem arg) (OnTask t Task.InOrder) s)
    (hfunc : (s.task t).call.taskFunc.isSome = true) :
    (∀ a, s.guard arg a = true → OnTask t Task.InOrder s a →
      ((s.next a).task t).call.taskAdded = true → ∀ o ∈ s.touches t a, (s.task t).frees o = 0) ∧
    ((s.task t).call.taskAdded = true → ∀ ret, (s.task t).call.pc = .returned ret →
      s.stage t = .done → ∀ o, (s.task t).frees o = 1) := by
  have hplaced := placed_of_reach hr
  have htask := task_of_reach hr
  constructor
  · intro a ha hq hadd o ho
    rw [touches, List.mem_append] at ho
    rcases ho with ho | ho
    · rw [next_task] at hadd
      unfold OnTask at hq
      cases hm : s.taskAction a with
      | none => simp [hm] at ho
      | some um =>
          obtain ⟨u, m⟩ := um
          rw [hm] at ho hq hadd
          by_cases hut : u = t
          · subst hut
            simp only [acted, Function.update_self] at hadd
            simp only [if_true] at ho
            exact Task.unfreed_of_reach htask hfunc hadd (hplaced.task_guard ha hm) (hq rfl) ho
          · simp [hut] at ho
    · split_ifs at ho with hlink
      · rw [List.mem_singleton.mp ho]
        exact (Task.sound_of_reach htask).logged.nodeFrees (hplaced.linked ha hlink)
      · simp at ho
  · intro hadd ret hret hstage o
    exact Task.freed_once_of_reach htask hfunc hadd hret hstage o

theorem addTaskAndWait_objects_run :
    ((oneWorkerAfter (answeredRun ++ works 3)).task 0).frees .node = 1 ∧
      ((oneWorkerAfter (answeredRun ++ works 3)).task 0).frees .taskLock = 1 ∧
      ((oneWorkerAfter (answeredRun ++ works 3)).task 0).frees .taskCond = 1 :=
  have hall := (addTaskAndWait_objects (t := 0)
    (s := oneWorkerAfter (answeredRun ++ works 3)) (reach_oneWorker (by decide))
    (by decide)).2 (by decide) mySuccess (by decide) (by decide)
  ⟨hall .node, hall .taskLock, hall .taskCond⟩

/-- The wait is over when the worker has made its second test; the worker ends its
turn before the caller gets `TaskLock` back. -/
def lateMarkRun : List TPoolAction :=
  waitForTask ++ works 8 ++ .caller 0 .timeout :: works 6 ++ comesBack 1

/-- The store to `node->TaskStat` in a freed node. -/
theorem touch_after_free :
    ∃ s, Reach (threadPoolSystem oneWorker)
        (fun _ a => a.NotExit ∧ a ≠ .caller 0 .spurious) s ∧
      (s.task 0).call.taskFunc = some 1 ∧ (s.task 0).call.taskAdded = true ∧
      s.guard oneWorker (.caller 0 .go) = true ∧ .node ∈ s.touches 0 (.caller 0 .go) ∧
      (s.task 0).frees .node = 1 :=
  ⟨oneWorkerAfter lateMarkRun, reach_oneWorker (by decide), by decide,
    by decide, by decide, by decide, by decide⟩

end MyWorkEnv
