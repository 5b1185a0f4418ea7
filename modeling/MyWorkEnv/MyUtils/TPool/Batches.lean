import MyWorkEnv.MyUtils.TPool.ThreadPool

/-!
# Where the tasks are

The pool refines `BatchQueue`: the ring at `TaskListHead` runs through the
queue, and the ring at a worker's `listHeadTmp` through what it left in its
batch and what it has still to come to. Along with the rings goes how far each
task has come, `Placed`, which every step keeps but for those after the pool
was shut down.
-/

namespace MyWorkEnv

open Transition LinkedRing

namespace ThreadPool

variable {arg : TPoolModuleInitArg} {s : ThreadPool} {w t : ℕ}

/-! ## The steps of one task -/

/-- The task a step is about, and what it does there. -/
def taskAction (s : ThreadPool) : TPoolAction → Option (ℕ × TaskAction)
  | .addTask t taskFunc taskArg => some (t, .start false taskFunc taskArg !s.inited)
  | .addTaskAndWait t taskFunc taskArg timeoutSec =>
      some (t, .start true taskFunc taskArg
        (!s.inited || (s.taskDefaultTimeout.sle 0 && timeoutSec.sle 0)))
  | .lengthTest t _ => some (t, .lengthTest s.isFull)
  | .alloc t ok => some (t, .alloc ok)
  | .insert t clockOk _ => some (t, .insert clockOk)
  | .caller t a => some (t, .caller a)
  | .worker w =>
      match s.worker w with
      | .forEach loop _ =>
          match forEachTask w loop with
          | some t => some (t, .enter)
          | none => none
      | .body t _ k => some (t, .body k)
      | _ => none
  | _ => none

/-- `act`, for a step that need not be about a task. -/
def acted (s : ThreadPool) : Option (ℕ × TaskAction) → ℕ → Task
  | some (t, a) => Function.update s.task t ((s.task t).next a)
  | none => s.task

theorem examine_task (s : ThreadPool) (w : ℕ) : (s.examine w).task = s.task := by
  unfold examine
  split_ifs <;> rfl

theorem moduleExit_task (s : ThreadPool) : s.moduleExit.task = s.task := by
  unfold moduleExit
  cases s.exitPc <;> rfl

theorem stepWorker_task (s : ThreadPool) (w : ℕ) :
    (s.stepWorker w).task = s.acted (s.taskAction (.worker w)) := by
  cases hpc : s.worker w with
  | lockPool =>
      simp only [stepWorker, taskAction, hpc]
      exact examine_task s.countIn w
  | woken =>
      simp only [stepWorker, taskAction, hpc]
      exact examine_task s w
  | body t tmp k =>
      simp only [stepWorker, taskAction, hpc]
      exact body_task
  | forEach loop tmp =>
      simp only [stepWorker, taskAction, hpc]
      cases forEachTask w loop <;> rfl
  | _ => simp [stepWorker, taskAction, hpc, acted, setWorker]

/-- **Every step of the pool is a step of the task it is about.** -/
theorem next_task (s : ThreadPool) (a : TPoolAction) :
    (s.next a).task = s.acted (s.taskAction a) := by
  cases a with
  | insert t clockOk woke =>
      simp only [next, insert]
      split_ifs <;> rfl
  | worker w => exact stepWorker_task s w
  | setTimeout timeout =>
      simp only [next]
      split_ifs <;> rfl
  | setMaxQueueLength queueLen =>
      simp only [next]
      split_ifs <;> rfl
  | moduleExit => exact moduleExit_task s
  | _ => rfl

/-! ## The rings -/

def stage (s : ThreadPool) (t : ℕ) : Stage := (s.task t).stage

/-- What `loop` or `tmp` points to if `ts` is to come. -/
def ahead (w : ℕ) : List ℕ → TPoolPtr
  | [] => .listHeadTmp w
  | t :: _ => .list t

def Ring (L : Links TPoolPtr) (w : ℕ) (ts : List ℕ) : Prop :=
  Represents L (.listHeadTmp w) (ts.map .list)

/-- A worker between two sections: the ring of its batch, where its traversal
stands in it, and how far the tasks have come that it is to deal with. -/
def WorkerOk (L : Links TPoolPtr) (stage : ℕ → Stage) (h : BatchQueue.State ℕ) (w : ℕ) :
    WorkerPc → Prop
  | .taken =>
      h.rest w ≠ [] ∧ h.left w = [] ∧ Ring L w (h.rest w) ∧ ∀ t ∈ h.rest w, stage t = .waiting
  | .forEach loop tmp =>
      loop = some (ahead w (h.rest w)) ∧
        (h.rest w ≠ [] → tmp = some (ahead w (h.rest w).tail)) ∧
        Ring L w (h.left w ++ h.rest w) ∧ ∀ t ∈ h.rest w, stage t = .waiting
  | .body t tmp k =>
      ∃ ts, h.rest w = t :: ts ∧ tmp = some (ahead w ts) ∧
        Ring L w (h.left w ++ if k = .free then ts else t :: ts) ∧
        stage t = .inBody k ∧ ∀ u ∈ ts, stage u = .waiting
  | .forStep tmp =>
      tmp = some (ahead w (h.rest w)) ∧ Ring L w (h.left w ++ h.rest w) ∧
        ∀ t ∈ h.rest w, stage t = .waiting
  | _ => h.rest w = []

structure Placed (arg : TPoolModuleInitArg) (s : ThreadPool) : Prop where
  wf : BatchQueue.Wf arg.threadPoolSize s.hist
  queue : Represents s.links .taskListHead (s.hist.queue.map .list)
  length : s.taskListLength = .ofNat 32 s.hist.queue.length
  worker : ∀ w < arg.threadPoolSize, WorkerOk s.links s.stage s.hist w (s.worker w)
  outside : ∀ t, t ∉ s.hist.order → s.stage t = .outside
  waiting : ∀ t ∈ s.hist.queue, s.stage t = .waiting
  through : ∀ t ∈ s.hist.done, s.stage t = .passed ∨ s.stage t = .done
  left : ∀ w, ∀ t ∈ s.hist.left w, s.stage t = .passed
  early : ∀ t, (s.task t).call.pc.early = true → s.stage t = .outside

section frame

variable {L L' : Links TPoolPtr} {f f' : ℕ → Stage} {h h' : BatchQueue.State ℕ} {ts ts' : List ℕ}
  {pc : WorkerPc}

theorem ahead_eq (w : ℕ) (ts : List ℕ) :
    (ts.map TPoolPtr.list ++ [TPoolPtr.listHeadTmp w]).head (by simp) = ahead w ts := by
  cases ts <;> rfl

/-- Same pointers at the head of worker `w` and at its tasks. -/
def SameRing (L L' : Links TPoolPtr) (w : ℕ) (ts : List ℕ) : Prop :=
  ∀ a, a = .listHeadTmp w ∨ (∃ t ∈ ts, a = .list t) →
    L'.next a = L.next a ∧ L'.prev a = L.prev a

theorem Ring.frame (hr : Ring L w ts) (hL : SameRing L L' w ts) : Ring L' w ts := by
  have hsame : ∀ a ∈ TPoolPtr.listHeadTmp w :: ts.map TPoolPtr.list,
      L'.next a = L.next a ∧ L'.prev a = L.prev a := by
    intro a ha
    apply hL
    rw [List.mem_cons, List.mem_map] at ha
    rcases ha with ha | ⟨t, ht, ha⟩
    · exact .inl ha
    · exact .inr ⟨t, ht, ha.symm⟩
  exact Represents.frame hr (fun a ha => (hsame a ha).1) (fun a ha => (hsame a ha).2)

theorem SameRing.mono (hL : SameRing L L' w ts) (hsub : ∀ t ∈ ts', t ∈ ts) :
    SameRing L L' w ts' := by
  rintro a (rfl | ⟨t, ht, rfl⟩)
  · exact hL _ (.inl rfl)
  · exact hL _ (.inr ⟨t, hsub t ht, rfl⟩)

/-- What worker `w` relies on: the pointers in its ring, its share of the tasks
and how far these have come. -/
theorem WorkerOk.frame (hw : WorkerOk L f h w pc)
    (hL : SameRing L L' w (h.left w ++ h.rest w)) (hrest : h'.rest w = h.rest w)
    (hleft : h'.left w = h.left w) (hf : ∀ t ∈ h.rest w, f' t = f t) :
    WorkerOk L' f' h' w pc := by
  have hstage : (∀ t ∈ h.rest w, f t = .waiting) → ∀ t ∈ h.rest w, f' t = .waiting := by
    intro hall t ht
    rw [hf t ht]
    exact hall t ht
  cases pc with
  | taken =>
      obtain ⟨hne, hnil, hring, hall⟩ := hw
      simp only [WorkerOk, hrest, hleft]
      have hL' := hL.mono (fun t ht => List.mem_append_right (h.left w) ht)
      exact ⟨hne, hnil, hring.frame hL', hstage hall⟩
  | forEach loop tmp =>
      obtain ⟨hloop, htmp, hring, hall⟩ := hw
      simp only [WorkerOk, hrest, hleft]
      exact ⟨hloop, htmp, hring.frame hL, hstage hall⟩
  | body t tmp k =>
      obtain ⟨ts, hts, htmp, hring, ht, hall⟩ := hw
      simp only [WorkerOk, hrest, hleft]
      refine ⟨ts, hts, htmp, hring.frame (hL.mono ?_), ?_, ?_⟩
      · intro u hu
        rw [hts]
        split_ifs at hu <;> simp_all
        tauto
      · rw [hf t (by simp [hts])]
        exact ht
      · intro u hu
        rw [hf u (by simp [hts, hu])]
        exact hall u hu
  | forStep tmp =>
      obtain ⟨htmp, hring, hall⟩ := hw
      simp only [WorkerOk, hrest, hleft]
      exact ⟨htmp, hring.frame hL, hstage hall⟩
  | _ =>
      simp only [WorkerOk, hrest]
      exact hw

/-- The tasks to come wait, but for the one in the worker's hands. -/
theorem WorkerOk.rest_cases (hw : WorkerOk L f h w pc) : (∀ t ∈ h.rest w, f t = .waiting) ∨
    ∃ t ts k, h.rest w = t :: ts ∧ f t = .inBody k ∧ ∀ u ∈ ts, f u = .waiting := by
  cases pc with
  | taken => exact .inl hw.2.2.2
  | forEach loop tmp => exact .inl hw.2.2.2
  | forStep tmp => exact .inl hw.2.2
  | body t tmp k =>
      obtain ⟨ts, hts, -, -, ht, hall⟩ := hw
      exact .inr ⟨t, ts, k, hts, ht, hall⟩
  | _ =>
      have hnil : h.rest w = [] := hw
      left
      simp [hnil]

theorem SameRing.refl (L : Links TPoolPtr) (w : ℕ) (ts : List ℕ) : SameRing L L w ts :=
  fun _ _ => ⟨rfl, rfl⟩

end frame

/-! ## Reading it off -/

theorem Placed.stage_of_rest (h : Placed arg s) (hw : w < arg.threadPoolSize)
    (ht : t ∈ s.hist.rest w) : s.stage t = .waiting ∨ ∃ k, s.stage t = .inBody k := by
  rcases (h.worker w hw).rest_cases with hall | ⟨u, ts, k, hts, hstage, hall⟩
  · exact .inl (hall t ht)
  · rw [hts, List.mem_cons] at ht
    rcases ht with rfl | ht
    · exact .inr ⟨k, hstage⟩
    · exact .inl (hall t ht)

theorem Placed.stage_ne_outside (h : Placed arg s) (ht : t ∈ s.hist.order) :
    s.stage t ≠ .outside := by
  rw [h.wf.mem_iff] at ht
  rcases ht with ht | ⟨w, hw, ht⟩ | ht
  · simp [h.waiting t ht]
  · rcases h.stage_of_rest hw ht with hs | ⟨k, hs⟩ <;> simp [hs]
  · rcases h.through t ht with hs | hs <;> simp [hs]

theorem Placed.fresh (h : Placed arg s) (ht : (s.task t).call.pc.early = true) :
    t ∉ s.hist.order :=
  fun hmem => h.stage_ne_outside hmem (h.early t ht)

theorem Placed.fresh_of_alloc (h : Placed arg s) {ok : Bool}
    (ha : s.guard arg (.alloc t ok) = true) : t ∉ s.hist.order := by
  have hg : (s.task t).guard (.alloc ok) = true := ha
  exact h.fresh (Task.early_of_alloc hg)

theorem Placed.fresh_of_insert (h : Placed arg s) {clockOk : Bool} {woke : List ℕ}
    (ha : s.guard arg (.insert t clockOk woke) = true) : t ∉ s.hist.order := by
  simp only [guard, Bool.and_eq_true] at ha
  exact h.fresh (Task.early_of_insert ha.1)

theorem forEachTask_ahead (w : ℕ) (ts : List ℕ) :
    forEachTask w (some (ahead w ts)) = ts.head? := by
  cases ts <;> simp [forEachTask, myListForEachTest, ahead, Option.filter]

/-- The step of a task that goes with a step of the pool is one it may take. -/
theorem Placed.task_guard (h : Placed arg s) {a : TPoolAction} {m : TaskAction}
    (ha : s.guard arg a = true) (hm : s.taskAction a = some (t, m)) :
    (s.task t).guard m = true := by
  cases a with
  | worker w =>
      simp only [guard, Bool.and_eq_true, decide_eq_true_eq] at ha
      have hok := h.worker w ha.1
      cases hpc : s.worker w with
      | forEach loop tmp =>
          rw [hpc] at hok
          obtain ⟨hloop, -, -, hall⟩ := hok
          simp only [taskAction, hpc, hloop, forEachTask_ahead] at hm
          cases hrest : s.hist.rest w with
          | nil => simp [hrest] at hm
          | cons u us =>
              simp only [hrest, List.head?_cons, Option.some.injEq, Prod.mk.injEq] at hm
              obtain ⟨rfl, rfl⟩ := hm
              simpa [Task.guard, stage] using hall u (by simp [hrest])
      | body t' tmp k =>
          rw [hpc] at hok
          obtain ⟨ts, -, -, -, hstage, -⟩ := hok
          simp only [taskAction, hpc, Option.some.injEq, Prod.mk.injEq] at hm
          obtain ⟨rfl, rfl⟩ := hm
          simp only [hpc] at ha
          simp only [Task.guard, Bool.and_eq_true, beq_iff_eq]
          exact ⟨hstage, ha.2⟩
      | _ => simp [taskAction, hpc] at hm
  | spuriousWakeup w => simp [taskAction] at hm
  | setTimeout timeout => simp [taskAction] at hm
  | setMaxQueueLength queueLen => simp [taskAction] at hm
  | moduleExit => simp [taskAction] at hm
  | _ =>
      simp only [taskAction, Option.some.injEq, Prod.mk.injEq] at hm
      obtain ⟨rfl, rfl⟩ := hm
      simp_all [guard, Task.guard]

theorem Placed.early_next (h : Placed arg s) {a : TPoolAction} (ha : s.guard arg a = true) :
    ∀ t, ((s.next a).task t).call.pc.early = true → (s.next a).stage t = .outside := by
  intro t
  unfold stage
  rw [next_task]
  cases hm : s.taskAction a with
  | none => exact h.early t
  | some m =>
      obtain ⟨u, m⟩ := m
      by_cases hu : t = u
      · rw [hu]
        simp only [acted, Function.update_self]
        exact Task.early_next (h.early u) (h.task_guard ha hm)
      · simp only [acted, Function.update_of_ne hu]
        exact h.early t

/-! ## The steps keep it -/

/-- What a step does to something that is read off the tasks. -/
theorem view_of_some {X : Type} (f : Task → X) {a : TPoolAction} {m : TaskAction}
    (hm : s.taskAction a = some (t, m)) : (fun u => f ((s.next a).task u)) =
      Function.update (fun u => f (s.task u)) t (f ((s.task t).next m)) := by
  ext u
  rw [next_task, hm]
  by_cases hu : u = t
  · simp [hu, acted]
  · simp [hu, acted]

theorem view_same {X : Type} (f : Task → X) {a : TPoolAction}
    (hsame : ∀ t m, s.taskAction a = some (t, m) → f ((s.task t).next m) = f (s.task t)) :
    (fun u => f ((s.next a).task u)) = fun u => f (s.task u) := by
  cases hm : s.taskAction a with
  | none =>
      ext u
      rw [next_task, hm]
      rfl
  | some tm =>
      obtain ⟨t, m⟩ := tm
      rw [view_of_some f hm, hsame t m hm]
      exact Function.update_eq_self t fun u => f (s.task u)

theorem stage_of_some {a : TPoolAction} {m : TaskAction} (hm : s.taskAction a = some (t, m)) :
    (s.next a).stage = Function.update s.stage t ((s.task t).next m).stage :=
  view_of_some Task.stage hm

/-- A task that takes a step where it is. -/
theorem stage_same {a : TPoolAction} {m : TaskAction} (hm : s.taskAction a = some (t, m))
    (hsame : ((s.task t).next m).stage = (s.task t).stage) : (s.next a).stage = s.stage := by
  rw [stage_of_some hm, hsame]
  exact Function.update_eq_self t s.stage

theorem Placed.start (arg : TPoolModuleInitArg) (L : Links TPoolPtr) :
    Placed arg (init arg L) where
  wf := BatchQueue.Wf.empty
  queue := myListNodeInit_represents L _
  length := rfl
  worker _ _ := rfl
  outside _ _ := rfl
  waiting t ht := by simp [init, BatchQueue.State.empty] at ht
  through t ht := by simp [init, BatchQueue.State.empty] at ht
  left w t ht := by simp [init, BatchQueue.State.empty] at ht
  early _ _ := rfl

/-- Steps that move no task. -/
theorem Placed.quiet {s' : ThreadPool} (h : Placed arg s) (hlinks : s'.links = s.links)
    (hhist : s'.hist = s.hist) (hlength : s'.taskListLength = s.taskListLength)
    (hstage : s'.stage = s.stage)
    (hworker : ∀ w < arg.threadPoolSize, WorkerOk s.links s.stage s.hist w (s'.worker w))
    (hearly : ∀ t, (s'.task t).call.pc.early = true → s'.stage t = .outside) :
    Placed arg s' where
  wf := by
    rw [hhist]
    exact h.wf
  queue := by
    rw [hhist, hlinks]
    exact h.queue
  length := by
    rw [hhist, hlength]
    exact h.length
  worker := by
    rw [hhist, hlinks, hstage]
    exact hworker
  outside := by
    rw [hhist, hstage]
    exact h.outside
  waiting := by
    rw [hhist, hstage]
    exact h.waiting
  through := by
    rw [hhist, hstage]
    exact h.through
  left := by
    rw [hhist, hstage]
    exact h.left
  early := hearly

/-- Waking workers up. -/
theorem WorkerOk.wake {L : Links TPoolPtr} {f : ℕ → Stage} {hist : BatchQueue.State ℕ}
    (hok : WorkerOk L f hist w (s.worker w)) {p : Prop} [Decidable p]
    (hp : p → s.worker w = .waiting) :
    WorkerOk L f hist w (if p then .woken else s.worker w) := by
  split_ifs with hwoke
  · rw [hp hwoke] at hok
    exact hok
  · exact hok

theorem Placed.mem_batch (h : Placed arg s) (hw : w < arg.threadPoolSize)
    (ht : t ∈ s.hist.left w ++ s.hist.rest w) : t ∈ s.hist.order ∧ t ∉ s.hist.queue := by
  rcases List.mem_append.mp ht with hl | hr
  · have hdone := h.wf.left_done w t hl
    exact ⟨h.wf.mem_iff.mpr (.inr (.inr hdone)),
      fun hq => h.wf.notMem_done_of_queue hq hdone⟩
  · exact ⟨h.wf.mem_order_of_rest hw hr, fun hq => h.wf.notMem_rest_of_queue hw hq hr⟩

theorem sameRing_addTail {L : Links TPoolPtr} {queue ts : List ℕ}
    (hq : Represents L .taskListHead (queue.map .list)) (hts : ∀ u ∈ ts, u ∉ queue ∧ u ≠ t) :
    SameRing L (myListAddTail L (.list t) .taskListHead) w ts := by
  rintro a (rfl | ⟨u, hu, rfl⟩)
  · exact myListAddTail_other hq (by simp) (by simp)
  · exact myListAddTail_other hq (by simpa using (hts u hu).1) (by simpa using (hts u hu).2)

theorem enqueued_stage {clockOk : Bool} {woke : List ℕ}
    (hg : (s.task t).guard (.insert clockOk) = true) (henq : s.enqueues t clockOk = true) :
    (s.next (.insert t clockOk woke)).stage = Function.update s.stage t .waiting := by
  have htask : ((s.task t).next (.insert clockOk)).stage = .waiting := by
    simp only [Task.guard, Bool.or_eq_true, beq_iff_eq] at hg
    rcases hg with hpc | hpc
    · simp [Task.next, Task.insert, hpc]
    · simp [enqueues, hpc] at henq
      simp [Task.next, Task.insert, hpc, henq]
  rw [← htask]
  exact stage_of_some rfl

/-- The signal moves waiting workers only, and no batch has the new node. -/
theorem Placed.enqueue_worker (h : Placed arg s) {woke : List ℕ} {f : ℕ → Stage}
    (hwake : s.mayWake arg woke = true) (hfresh : t ∉ s.hist.order)
    (hf : ∀ u ∈ s.hist.order, f u = s.stage u) (hw : w < arg.threadPoolSize) :
    WorkerOk (myListAddTail s.links (.list t) .taskListHead) f (s.hist.put t) w
      ((s.signal woke).worker w) := by
  have hok := (h.worker w hw).wake (fun hmem => mayWake_waiting hwake hmem)
  have hnotin : ∀ u ∈ s.hist.left w ++ s.hist.rest w, u ∉ s.hist.queue ∧ u ≠ t := by
    intro u hu
    obtain ⟨hmem, hq⟩ := h.mem_batch hw hu
    refine ⟨hq, ?_⟩
    rintro rfl
    exact hfresh hmem
  apply hok.frame (sameRing_addTail h.queue hnotin) rfl rfl
  intro u hu
  exact hf u (h.wf.mem_order_of_rest hw hu)

theorem Placed.enqueue (h : Placed arg s) {clockOk : Bool} {woke : List ℕ}
    (ha : s.guard arg (.insert t clockOk woke) = true) (henq : s.enqueues t clockOk = true) :
    Placed arg (s.next (.insert t clockOk woke)) := by
  have hearly' := h.early_next ha
  have hfresh := h.fresh_of_insert ha
  simp only [guard, henq, if_true, Bool.and_eq_true] at ha
  have hstage : (s.next (.insert t clockOk woke)).stage = Function.update s.stage t .waiting :=
    enqueued_stage ha.1 henq
  have hother : ∀ u ∈ s.hist.order, (s.next (.insert t clockOk woke)).stage u = s.stage u := by
    intro u hu
    rw [hstage, Function.update_of_ne]
    rintro rfl
    exact hfresh hu
  have hqueue : ∀ u ∈ s.hist.queue, u ∈ s.hist.order :=
    fun u hu => h.wf.mem_iff.mpr (.inl hu)
  have hdone : ∀ u ∈ s.hist.done, u ∈ s.hist.order :=
    fun u hu => h.wf.mem_iff.mpr (.inr (.inr hu))
  have hworker : ∀ w < arg.threadPoolSize, WorkerOk _ _ _ w ((s.signal woke).worker w) :=
    fun w hw => h.enqueue_worker ha.2 hfresh hother hw
  rw [next_insert henq] at hstage hother hearly' hworker ⊢
  constructor
  case wf => exact h.wf.put hfresh
  case queue =>
    have hn : TPoolPtr.list t ∉ TPoolPtr.taskListHead :: s.hist.queue.map TPoolPtr.list := by
      simp only [List.mem_cons, List.mem_map, TPoolPtr.list.injEq, exists_eq_right, reduceCtorEq,
        false_or]
      exact fun hmem => hfresh (hqueue t hmem)
    simpa [BatchQueue.State.put] using myListAddTail_represents h.queue hn
  case length => simp [BatchQueue.State.put, h.length, BitVec.ofNat_add]
  case worker => exact hworker
  case outside =>
    intro u hu
    have hmem : u ∉ s.hist.order ++ [t] := hu
    rw [List.mem_append, List.mem_singleton, not_or] at hmem
    rw [hstage, Function.update_of_ne hmem.2]
    exact h.outside u hmem.1
  case waiting =>
    intro u hu
    rcases List.mem_append.mp hu with hu | hu
    · rw [hother u (hqueue u hu)]
      exact h.waiting u hu
    · rw [hstage, List.mem_singleton.mp hu, Function.update_self]
  case through =>
    intro u hu
    rw [hother u (hdone u hu)]
    exact h.through u hu
  case left =>
    intro w u hu
    rw [hother u (hdone u (h.wf.left_done w u hu))]
    exact h.left w u hu
  case early => exact hearly'

/-- Worker pcs with nothing in hand. -/
theorem WorkerOk.setWorker {L : Links TPoolPtr} {f : ℕ → Stage} {hist : BatchQueue.State ℕ}
    {pc : WorkerPc} {v : ℕ} (hv : WorkerOk L f hist v (s.worker v))
    (hpc : WorkerOk L f hist w pc) : WorkerOk L f hist v ((s.setWorker w pc).worker v) := by
  by_cases hvw : v = w
  · rw [hvw, setWorker_self]
    exact hpc
  · rw [setWorker_of_ne s hvw]
    exact hv

theorem sameRing_headCopy {L : Links TPoolPtr} {queue ts : List ℕ} {v : ℕ}
    (hq : Represents L .taskListHead (queue.map .list)) (hvw : v ≠ w)
    (hts : ∀ u ∈ ts, u ∉ queue) :
    SameRing L (myListNodeInit (myListHeadCopy L (.listHeadTmp w) .taskListHead) .taskListHead)
      v ts := by
  rintro a (rfl | ⟨u, hu, rfl⟩)
  · exact myListHeadCopy_other hq (by simpa using hvw) (by simp)
  · exact myListHeadCopy_other hq (by simp) (by simpa using hts u hu)

/-- **The splice** hands the whole queue to one worker. -/
theorem Placed.takeAll (h : Placed arg s) (hw : w < arg.threadPoolSize)
    (hrest : s.hist.rest w = []) (hne : s.hist.queue ≠ []) : Placed arg (s.takeAll w) where
  wf := h.wf.take hw hrest
  queue := myListNodeInit_represents _ _
  length := rfl
  worker v hv := by
    show WorkerOk (s.takeAll w).links s.stage (s.hist.take w) v
      ((s.setWorker w .taken).worker v)
    by_cases hvw : v = w
    · subst hvw
      have hring := myListHeadCopy_represents (k := .listHeadTmp v) h.queue (by simp)
      rw [setWorker_self]
      refine ⟨?_, ?_, ?_, ?_⟩
      · simpa [BatchQueue.State.take] using hne
      · simp [BatchQueue.State.take]
      · simpa [BatchQueue.State.take, ThreadPool.takeAll, Ring] using hring
      · simpa [BatchQueue.State.take] using h.waiting
    · have hsame := sameRing_headCopy (w := w) h.queue hvw (fun u hu => (h.mem_batch hv hu).2)
      rw [setWorker_of_ne s hvw]
      refine (h.worker v hv).frame hsame ?_ ?_ (fun u _ => rfl)
      · simp [BatchQueue.State.take, hvw]
      · simp [BatchQueue.State.take, hvw]
  outside := h.outside
  waiting t ht := by
    have hnil : t ∈ ([] : List ℕ) := ht
    simp at hnil
  through := h.through
  left v t ht := by
    have hmem : t ∈ (s.hist.take w).left v := ht
    by_cases hvw : v = w
    · simp [BatchQueue.State.take, hvw] at hmem
    · exact h.left v t (by simpa [BatchQueue.State.take, hvw] using hmem)
  early := h.early

theorem Placed.setWorker (h : Placed arg s) {pc : WorkerPc}
    (hpc : WorkerOk s.links s.stage s.hist w pc) : Placed arg (s.setWorker w pc) :=
  h.quiet rfl rfl rfl rfl (fun v hv => (h.worker v hv).setWorker hpc) h.early

theorem Placed.examine (h : Placed arg s) (hw : w < arg.threadPoolSize)
    (hrest : s.hist.rest w = []) : Placed arg (s.examine w) := by
  unfold ThreadPool.examine
  split_ifs with hexit hempty
  · exact h.setWorker hrest
  · apply h.takeAll hw hrest
    intro hnil
    have hq := h.queue
    rw [hnil] at hq
    simp [(myListIsEmpty_iff hq).mpr] at hempty
  · exact h.setWorker hrest

/-- The task in a worker's hands is in nobody else's. -/
theorem Placed.notMem_other (h : Placed arg s) {v : ℕ} (hw : w < arg.threadPoolSize)
    (hv : v < arg.threadPoolSize) (hvw : v ≠ w) (ht : t ∈ s.hist.rest w) :
    t ∉ s.hist.left v ++ s.hist.rest v := by
  rw [List.mem_append, not_or]
  exact ⟨fun hl => h.wf.notMem_done_of_rest hw ht (h.wf.left_done v t hl),
    fun hr => hvw (h.wf.rest_unique hv hw hr ht)⟩

/-- Neither are the batches of two workers. -/
theorem Placed.apart (h : Placed arg s) {v : ℕ} (hw : w < arg.threadPoolSize)
    (hv : v < arg.threadPoolSize) (hvw : v ≠ w) (htw : t ∈ s.hist.left w ++ s.hist.rest w) :
    t ∉ s.hist.left v ++ s.hist.rest v := by
  rcases List.mem_append.mp htw with hl | hr
  · rw [List.mem_append, not_or]
    exact ⟨fun hlv => hvw (h.wf.left_unique v w t hlv hl),
      fun hrv => h.wf.notMem_done_of_rest hv hrv (h.wf.left_done w t hl)⟩
  · exact h.notMem_other hw hv hvw hr

/-! What a step of the worker that has `t` in its hands leaves alone. -/

theorem Placed.update_stage (h : Placed arg s) (hw : w < arg.threadPoolSize)
    (ht : t ∈ s.hist.rest w) (g : Stage) {u : ℕ}
    (hu : u ∉ s.hist.order ∨ u ∈ s.hist.queue ∨ u ∈ s.hist.done) :
    Function.update s.stage t g u = s.stage u := by
  apply Function.update_of_ne
  rcases hu with hu | hu | hu
  · exact h.wf.ne_of_notMem_order hw ht hu
  · exact h.wf.ne_of_queue hw ht hu
  · exact h.wf.ne_of_done hw ht hu

theorem Placed.update_tail (h : Placed arg s) {ts : List ℕ} (hrest : s.hist.rest w = t :: ts)
    (hwait : ∀ u ∈ ts, s.stage u = .waiting) (g : Stage) :
    ∀ u ∈ ts, Function.update s.stage t g u = .waiting := by
  intro u hu
  rw [Function.update_of_ne (h.wf.ne_of_tail hrest hu)]
  exact hwait u hu

theorem Placed.update_other (h : Placed arg s) {L : Links TPoolPtr} {hist : BatchQueue.State ℕ}
    {v : ℕ} (hw : w < arg.threadPoolSize) (hv : v < arg.threadPoolSize) (hvw : v ≠ w)
    (ht : t ∈ s.hist.rest w) (g : Stage)
    (hsame : SameRing s.links L v (s.hist.left v ++ s.hist.rest v))
    (hrest : hist.rest v = s.hist.rest v) (hleft : hist.left v = s.hist.left v) :
    WorkerOk L (Function.update s.stage t g) hist v (s.worker v) := by
  apply (h.worker v hv).frame hsame hrest hleft
  intro u hu
  exact Function.update_of_ne (h.wf.ne_of_other hw hv hvw ht hu) g s.stage

/-- A worker goes on with the first task of its rest. -/
theorem Placed.goOn (h : Placed arg s) {s' : ThreadPool} {ts : List ℕ} {k : BodyPc}
    {tmp : Option TPoolPtr} (hw : w < arg.threadPoolSize) (hrest : s.hist.rest w = t :: ts)
    (hhist : s'.hist = s.hist) (hlength : s'.taskListLength = s.taskListLength)
    (hqueue : Represents s'.links .taskListHead (s.hist.queue.map .list))
    (hsame : ∀ v < arg.threadPoolSize, v ≠ w →
      SameRing s.links s'.links v (s.hist.left v ++ s.hist.rest v))
    (hstage : s'.stage = Function.update s.stage t (.inBody k))
    (hworker : s'.worker = Function.update s.worker w (.body t tmp k))
    (htmp : tmp = some (ahead w ts))
    (hring : Ring s'.links w (s.hist.left w ++ if k = .free then ts else t :: ts))
    (hwait : ∀ u ∈ ts, s.stage u = .waiting)
    (hearly : ∀ t, (s'.task t).call.pc.early = true → s'.stage t = .outside) :
    Placed arg s' := by
  have ht : t ∈ s.hist.rest w := by simp [hrest]
  constructor
  case wf =>
    rw [hhist]
    exact h.wf
  case queue =>
    rw [hhist]
    exact hqueue
  case length =>
    rw [hhist, hlength]
    exact h.length
  case worker =>
    intro v hv
    rw [hhist, hworker, hstage]
    by_cases hvw : v = w
    · rw [hvw, Function.update_self]
      exact ⟨ts, hrest, htmp, hring, Function.update_self t _ s.stage,
        h.update_tail hrest hwait _⟩
    · rw [Function.update_of_ne hvw]
      exact h.update_other hw hv hvw ht _ (hsame v hv hvw) rfl rfl
  case outside =>
    intro u hu
    rw [hhist] at hu
    rw [hstage, h.update_stage hw ht _ (.inl hu)]
    exact h.outside u hu
  case waiting =>
    intro u hu
    rw [hhist] at hu
    rw [hstage, h.update_stage hw ht _ (.inr (.inl hu))]
    exact h.waiting u hu
  case through =>
    intro u hu
    rw [hhist] at hu
    rw [hstage, h.update_stage hw ht _ (.inr (.inr hu))]
    exact h.through u hu
  case left =>
    intro v u hu
    rw [hhist] at hu
    rw [hstage, h.update_stage hw ht _ (.inr (.inr (h.wf.left_done v u hu)))]
    exact h.left v u hu
  case early => exact hearly

/-- A worker is through with it; `keep` if it passed over it. -/
theorem Placed.endTurn (h : Placed arg s) {s' : ThreadPool} {ts : List ℕ} {keep : Bool}
    {tmp : Option TPoolPtr} (hw : w < arg.threadPoolSize) (hrest : s.hist.rest w = t :: ts)
    (hhist : s'.hist = s.hist.drop w keep) (hlength : s'.taskListLength = s.taskListLength)
    (hlinks : s'.links = s.links)
    (hstage : s'.stage = Function.update s.stage t (if keep then .passed else .done))
    (hworker : s'.worker = Function.update s.worker w (.forStep tmp))
    (htmp : tmp = some (ahead w ts))
    (hring : Ring s.links w (s.hist.left w ++ if keep then t :: ts else ts))
    (hwait : ∀ u ∈ ts, s.stage u = .waiting)
    (hearly : ∀ t, (s'.task t).call.pc.early = true → s'.stage t = .outside) :
    Placed arg s' := by
  have ht : t ∈ s.hist.rest w := by simp [hrest]
  have hdrop := hhist.trans (BatchQueue.State.drop_cons hrest keep)
  constructor
  case wf =>
    rw [hhist]
    exact h.wf.drop hw keep
  case queue =>
    rw [hdrop, hlinks]
    exact h.queue
  case length =>
    rw [hdrop, hlength]
    exact h.length
  case worker =>
    intro v hv
    rw [hworker, hlinks, hstage]
    by_cases hvw : v = w
    · have hrest' : s'.hist.rest w = ts := by simp [hdrop]
      have hleft' : s'.hist.left w = if keep then s.hist.left w ++ [t] else s.hist.left w := by
        cases keep <;> simp [hdrop]
      rw [hvw, Function.update_self]
      simp only [WorkerOk, hrest', hleft']
      refine ⟨htmp, ?_, h.update_tail hrest hwait _⟩
      cases keep <;> simpa using hring
    · rw [Function.update_of_ne hvw]
      refine h.update_other hw hv hvw ht _ (SameRing.refl _ _ _) ?_ ?_
      · simp [hdrop, hvw]
      · cases keep <;> simp [hdrop, hvw]
  case outside =>
    intro u hu
    rw [hdrop] at hu
    rw [hstage, h.update_stage hw ht _ (.inl hu)]
    exact h.outside u hu
  case waiting =>
    intro u hu
    rw [hdrop] at hu
    rw [hstage, h.update_stage hw ht _ (.inr (.inl hu))]
    exact h.waiting u hu
  case through =>
    intro u hu
    rw [hdrop] at hu
    rcases List.mem_append.mp hu with hdone | heq
    · rw [hstage, h.update_stage hw ht _ (.inr (.inr hdone))]
      exact h.through u hdone
    · rw [List.mem_singleton.mp heq, hstage, Function.update_self]
      cases keep <;> simp
  case left =>
    intro v u hu
    rw [hhist] at hu
    rcases BatchQueue.State.mem_drop_left hrest hu with hold | ⟨rfl, -, rfl⟩
    · rw [hstage, h.update_stage hw ht _ (.inr (.inr (h.wf.left_done v u hold)))]
      exact h.left v u hold
    · -- only a task that was passed over stays in its batch
      rw [hstage, Function.update_self]
      rfl
  case early => exact hearly

theorem Ring.split {L : Links TPoolPtr} {front back : List ℕ}
    (hr : Ring L w (front ++ t :: back)) :
    Represents L (.listHeadTmp w) (front.map .list ++ TPoolPtr.list t :: back.map .list) := by
  simpa [Ring] using hr

theorem delNode_other {L : Links TPoolPtr} {front back : List ℕ} {a : TPoolPtr}
    (hr : Ring L w (front ++ t :: back)) (hhead : a ≠ .listHeadTmp w)
    (hlist : ∀ u ∈ front ++ t :: back, a ≠ .list u) :
    (myListDelNode L (.list t)).next a = L.next a ∧
      (myListDelNode L (.list t)).prev a = L.prev a := by
  apply myListDelNode_other hr.split
  have hmem : front.map .list ++ TPoolPtr.list t :: back.map .list =
      (front ++ t :: back).map TPoolPtr.list := by
    simp
  rw [hmem, List.mem_cons, not_or]
  refine ⟨hhead, ?_⟩
  intro ha
  obtain ⟨u, hu, rfl⟩ := List.mem_map.mp ha
  exact hlist u hu rfl

/-- The unlinked node leaves its own ring only. -/
theorem Placed.unlinked (h : Placed arg s) (hw : w < arg.threadPoolSize) {ts : List ℕ}
    (hrest : s.hist.rest w = t :: ts) (hring : Ring s.links w (s.hist.left w ++ t :: ts)) :
    Represents (myListDelNode s.links (.list t)) .taskListHead (s.hist.queue.map .list) ∧
      ∀ v < arg.threadPoolSize, v ≠ w →
        SameRing s.links (myListDelNode s.links (.list t)) v (s.hist.left v ++ s.hist.rest v) := by
  have hmem : ∀ u ∈ s.hist.left w ++ t :: ts, u ∈ s.hist.left w ++ s.hist.rest w := by
    intro u hu
    rwa [hrest]
  constructor
  · have hsame : ∀ a ∈ TPoolPtr.taskListHead :: s.hist.queue.map .list,
        (myListDelNode s.links (.list t)).next a = s.links.next a ∧
          (myListDelNode s.links (.list t)).prev a = s.links.prev a := by
      intro a ha
      refine delNode_other hring ?_ ?_
      · rintro rfl
        simp at ha
      · rintro u hu rfl
        exact (h.mem_batch hw (hmem u hu)).2 (by simpa using ha)
    exact h.queue.frame (fun a ha => (hsame a ha).1) (fun a ha => (hsame a ha).2)
  · rintro v hv hvw a (rfl | ⟨u, hu, rfl⟩)
    · exact delNode_other hring (by simp [hvw]) (by simp)
    · apply delNode_other hring (by simp)
      rintro x hx hux
      rw [TPoolPtr.list.injEq] at hux
      subst hux
      exact h.apart hw hv hvw (hmem u hx) hu

theorem Placed.body (h : Placed arg s) (hw : w < arg.threadPoolSize) {tmp : Option TPoolPtr}
    {k : BodyPc} (hpc : s.worker w = .body t tmp k) (ha : s.guard arg (.worker w) = true) :
    Placed arg (s.next (.worker w)) := by
  have hearly := h.early_next ha
  have hok := h.worker w hw
  rw [hpc] at hok
  obtain ⟨ts, hrest, htmp, hring, hst, hwait⟩ := hok
  have hstage : (s.next (.worker w)).stage =
      Function.update s.stage t ((s.task t).next (.body k)).stage :=
    stage_of_some (by simp [taskAction, hpc])
  rw [next_body hpc] at hearly hstage ⊢
  cases hk : (s.task t).bodyNext k with
  | none =>
      -- the turn ends: the task was passed over, or its node is freed
      have hend := Task.bodyNext_none hk
      have hst' : ((s.task t).next (.body k)).stage =
          if (k == .test) = true then .passed else .done := by
        rw [Task.body_stage, hk]
        rcases hend with rfl | rfl <;> rfl
      have hlinks : (s.body w t tmp k).links = s.links := by
        rcases hend with rfl | rfl <;> simp
      have hhist : (s.body w t tmp k).hist = s.hist.drop w (k == .test) := by
        rw [body_hist, hk]
      refine h.endTurn hw hrest hhist body_taskListLength hlinks ?_ ?_ htmp ?_ hwait hearly
      · rw [hstage, hst']
      · rw [body_worker, hk]
      · rcases hend with rfl | rfl <;> simpa using hring
  | some k' =>
      have hst' : ((s.task t).next (.body k)).stage = .inBody k' := by rw [Task.body_stage, hk]
      have hworker : (s.body w t tmp k).worker =
          Function.update s.worker w (.body t tmp k') := by
        rw [body_worker, hk]
      have hhist : (s.body w t tmp k).hist = s.hist := by rw [body_hist, hk]
      rw [hst'] at hstage
      have hkfree : k ≠ .free := by
        rintro rfl
        simp [Task.bodyNext] at hk
      rw [if_neg hkfree] at hring
      by_cases hun : k = .unlink
      · -- the node is out of the ring one step before it is freed
        subst hun
        simp only [Task.bodyNext, Option.some.injEq] at hk
        subst hk
        have hlinks : (s.body w t tmp .unlink).links = myListDelNode s.links (.list t) := by simp
        obtain ⟨hqueue, hsame⟩ := h.unlinked hw hrest hring
        rw [← hlinks] at hqueue hsame
        refine h.goOn hw hrest hhist body_taskListLength hqueue hsame hstage hworker htmp ?_
          hwait hearly
        rw [hlinks, if_pos rfl]
        simpa [Ring] using myListDelNode_represents hring.split
      · have hlinks : (s.body w t tmp k).links = s.links := by simp [hun]
        have hkfree' : k' ≠ .free := by
          rintro rfl
          exact hun (Task.bodyNext_free hk)
        refine h.goOn hw hrest hhist body_taskListLength ?_ ?_ hstage hworker htmp ?_ hwait hearly
        · rw [hlinks]
          exact h.queue
        · intro v _ _
          rw [hlinks]
          exact SameRing.refl _ _ _
        · rw [hlinks, if_neg hkfree']
          exact hring

theorem Placed.alloc (h : Placed arg s) {ok : Bool} (ha : s.guard arg (.alloc t ok) = true) :
    Placed arg (s.next (.alloc t ok)) := by
  have hearly := h.early_next ha
  have hstage : (s.next (.alloc t ok)).stage = s.stage := stage_same rfl Task.alloc_stage
  have hfresh := h.fresh_of_alloc ha
  have hother : ∀ a, a ≠ .list t → (s.next (.alloc t ok)).links.next a = s.links.next a ∧
      (s.next (.alloc t ok)).links.prev a = s.links.prev a := by
    intro a hat
    simp only [next, ThreadPool.alloc]
    split_ifs
    · simp [myListNodeInit, Links.setPrev, Links.setNext, hat]
    · simp
  have hne : ∀ u ∈ s.hist.order, TPoolPtr.list u ≠ .list t := by
    rintro u hu hut
    rw [TPoolPtr.list.injEq] at hut
    exact hfresh (hut ▸ hu)
  constructor
  case wf => exact h.wf
  case queue =>
    have hsame : ∀ a ∈ TPoolPtr.taskListHead :: s.hist.queue.map TPoolPtr.list, a ≠ .list t := by
      intro a ha
      rw [List.mem_cons, List.mem_map] at ha
      rcases ha with rfl | ⟨u, hu, rfl⟩
      · simp
      · exact hne u (h.wf.mem_iff.mpr (.inl hu))
    exact h.queue.frame (fun a ha => (hother a (hsame a ha)).1)
      (fun a ha => (hother a (hsame a ha)).2)
  case length => exact h.length
  case worker =>
    intro w hw
    rw [hstage]
    refine (h.worker w hw).frame ?_ rfl rfl (fun u _ => rfl)
    rintro a (rfl | ⟨u, hu, rfl⟩)
    · exact hother _ (by simp)
    · exact hother _ (hne u (h.mem_batch hw hu).1)
  case outside =>
    rw [hstage]
    exact h.outside
  case waiting =>
    rw [hstage]
    exact h.waiting
  case through =>
    rw [hstage]
    exact h.through
  case left =>
    rw [hstage]
    exact h.left
  case early => exact hearly

theorem Placed.broadcast (h : Placed arg s) : Placed arg s.broadcast :=
  h.quiet rfl rfl rfl rfl (fun w hw => (h.worker w hw).wake id) h.early

theorem Placed.enter (h : Placed arg s) (hw : w < arg.threadPoolSize)
    {loop tmp : Option TPoolPtr} (hpc : s.worker w = .forEach loop tmp)
    (ha : s.guard arg (.worker w) = true) : Placed arg (s.next (.worker w)) := by
  have hearly := h.early_next ha
  have hok := h.worker w hw
  rw [hpc] at hok
  obtain ⟨hloop, htmp, hring, hwait⟩ := hok
  cases hrest : s.hist.rest w with
  | nil =>
      have hnext : s.next (.worker w) = s.setWorker w .whileTest := by
        simp [next, stepWorker, hpc, hloop, forEachTask_ahead, hrest]
      rw [hnext]
      exact h.setWorker hrest
  | cons t ts =>
      have hnext : s.next (.worker w) =
          (s.act t .enter).setWorker w (.body t tmp .test) := by
        simp [next, stepWorker, hpc, hloop, forEachTask_ahead, hrest]
      have hm : s.taskAction (.worker w) = some (t, .enter) := by
        simp [taskAction, hpc, hloop, forEachTask_ahead, hrest]
      rw [hrest] at htmp hring hwait
      refine h.goOn hw hrest ?_ ?_ ?_ ?_ (stage_of_some hm) ?_ (htmp (by simp)) ?_ ?_ hearly
      · rw [hnext]
        rfl
      · rw [hnext]
        rfl
      · rw [hnext]
        exact h.queue
      · intro v _ _
        rw [hnext]
        exact SameRing.refl _ _ _
      · rw [hnext]
        rfl
      · rw [hnext]
        exact hring
      · intro u hu
        exact hwait u (List.mem_cons_of_mem t hu)

/-- The traversal moves on by what it reads in the ring. -/
theorem Placed.forStep (h : Placed arg s) (hw : w < arg.threadPoolSize)
    {tmp : Option TPoolPtr} (hpc : s.worker w = .forStep tmp) :
    Placed arg (s.next (.worker w)) := by
  have hok := h.worker w hw
  rw [hpc] at hok
  obtain ⟨htmp, hring, hwait⟩ := hok
  have hnext : s.next (.worker w) = s.setWorker w (.forEach (myListForEachStep s.links tmp).1
      (myListForEachStep s.links tmp).2) := by
    simp [next, stepWorker, hpc]
  rw [hnext]
  refine h.setWorker ⟨htmp, ?_, hring, hwait⟩
  -- at the end of the batch `tmp` is read, but never used
  intro hne
  obtain ⟨t, ts, hrest⟩ := List.exists_cons_of_ne_nil hne
  rw [hrest] at hring htmp ⊢
  rw [htmp, ahead, myListForEachStep_node hring.split, List.tail_cons, ahead_eq]

theorem Placed.beginFor (h : Placed arg s) (hw : w < arg.threadPoolSize)
    (hpc : s.worker w = .taken) : Placed arg (s.next (.worker w)) := by
  have hok := h.worker w hw
  rw [hpc] at hok
  obtain ⟨hne, hleft, hring, hwait⟩ := hok
  have hnext : s.next (.worker w) = s.setWorker w
      (.forEach (myListForEachInit s.links (.listHeadTmp w)).1
        (myListForEachInit s.links (.listHeadTmp w)).2) := by
    simp [next, stepWorker, hpc]
  obtain ⟨t, ts, hrest⟩ := List.exists_cons_of_ne_nil hne
  have hinit : myListForEachInit s.links (.listHeadTmp w) =
      (some (.list t), some (ahead w ts)) := by
    rw [hrest] at hring
    have hring' : Represents s.links (.listHeadTmp w)
        (TPoolPtr.list t :: ts.map TPoolPtr.list) := hring
    rw [myListForEachInit_cons hring', ahead_eq]
  rw [hnext, hinit]
  refine h.setWorker ⟨?_, ?_, ?_, hwait⟩
  · rw [hrest]
    rfl
  · rw [hrest]
    exact fun _ => rfl
  · rw [hleft, List.nil_append]
    exact hring

theorem Placed.stepWorker (h : Placed arg s) (ha : s.guard arg (.worker w) = true) :
    Placed arg (s.next (.worker w)) := by
  have hw := worker_lt ha
  have hok := h.worker w hw
  cases hpc : s.worker w with
  | whileTest =>
      rw [hpc] at hok
      have hnext : s.next (.worker w) =
          s.setWorker w (if s.exit then .leaving else .lockPool) := by
        simp [next, ThreadPool.stepWorker, hpc]
      rw [hnext]
      apply h.setWorker
      split_ifs <;> exact hok
  | lockPool =>
      rw [hpc] at hok
      have hcount : Placed arg s.countIn :=
        h.quiet rfl rfl rfl rfl h.worker h.early
      rw [next_lockPool hpc]
      exact hcount.examine hw hok
  | woken =>
      rw [hpc] at hok
      rw [next_woken hpc]
      exact h.examine hw hok
  | taken => exact h.beginFor hw hpc
  | forEach loop tmp => exact h.enter hw hpc ha
  | body t tmp k => exact h.body hw hpc ha
  | forStep tmp => exact h.forStep hw hpc
  | leaving =>
      rw [hpc] at hok
      have hnext : s.next (.worker w) =
          { s.setWorker w .exited with currentThreadNum := s.currentThreadNum - 1 } := by
        simp [next, ThreadPool.stepWorker, hpc]
      rw [hnext]
      exact h.quiet rfl rfl rfl rfl (fun v hv => (h.worker v hv).setWorker hok) h.early
  | waiting => simp [guard, hpc] at ha
  | exited => simp [guard, hpc] at ha

theorem Placed.next (h : Placed arg s) {a : TPoolAction} (ha : s.guard arg a = true) :
    Placed arg (s.next a) := by
  have hearly := h.early_next ha
  cases a with
  | addTask t taskFunc taskArg =>
      exact h.quiet rfl rfl rfl (stage_same rfl Task.start_stage) h.worker hearly
  | addTaskAndWait t taskFunc taskArg timeoutSec =>
      exact h.quiet rfl rfl rfl (stage_same rfl Task.start_stage) h.worker hearly
  | lengthTest t woke =>
      have hwoke : ∀ w ∈ woke, s.worker w = .waiting := by
        simp only [guard, Bool.and_eq_true] at ha
        intro w hw
        have hwake := ha.2
        split_ifs at hwake
        · exact mayWake_waiting hwake hw
        · rw [List.isEmpty_iff.mp hwake] at hw
          simp at hw
      refine h.quiet rfl rfl rfl (stage_same rfl Task.lengthTest_stage) ?_ hearly
      exact fun w hw => (h.worker w hw).wake (hwoke w)
  | alloc t ok => exact h.alloc ha
  | insert t clockOk woke =>
      by_cases henq : s.enqueues t clockOk = true
      · exact h.enqueue ha henq
      · have hnext : s.next (.insert t clockOk woke) = _ := next_insert_refused henq
        have hsame : ((s.task t).next (.insert clockOk)).stage = (s.task t).stage := by
          simp only [guard, Task.guard, Bool.and_eq_true, Bool.or_eq_true, beq_iff_eq] at ha
          simp only [enqueues, Bool.or_eq_true, beq_iff_eq, not_or] at henq
          rcases ha.1 with hpc | hpc
          · exact absurd hpc henq.1
          · simp [Task.next, Task.insert, hpc, henq.2]
        refine h.quiet ?_ ?_ ?_ (stage_same rfl hsame) ?_ hearly <;> rw [hnext]
        · rfl
        · rfl
        · rfl
        · exact h.worker
  | caller t c => exact h.quiet rfl rfl rfl (stage_same rfl Task.caller_stage) h.worker hearly
  | worker w => exact h.stepWorker ha
  | spuriousWakeup w =>
      simp only [guard, Bool.and_eq_true, decide_eq_true_eq, beq_iff_eq] at ha
      have hok := h.worker w ha.1
      rw [ha.2] at hok
      exact h.setWorker hok
  | setTimeout timeout =>
      simp only [ThreadPool.next]
      split_ifs
      · exact h.quiet rfl rfl rfl rfl h.worker h.early
      · exact h
  | setMaxQueueLength queueLen =>
      simp only [ThreadPool.next]
      split_ifs
      · exact h.quiet rfl rfl rfl rfl h.worker h.early
      · exact h
  | moduleExit =>
      have hsame : Placed arg s.broadcast := h.broadcast
      simp only [ThreadPool.next, moduleExit]
      split
      · exact h.quiet rfl rfl rfl rfl h.worker h.early
      · exact h.quiet rfl rfl rfl rfl h.worker h.early
      · exact hsame.quiet rfl rfl rfl rfl hsame.worker hsame.early
      · exact h.quiet rfl rfl rfl rfl h.worker h.early
      · exact hsame.quiet rfl rfl rfl rfl hsame.worker hsame.early
      · exact h.quiet rfl rfl rfl rfl h.worker h.early
      · exact h.quiet rfl rfl rfl rfl h.worker h.early
      · exact h.quiet rfl rfl rfl rfl h.worker h.early
      · exact h.quiet rfl rfl rfl rfl h.worker h.early
      · exact h.quiet rfl rfl rfl rfl h.worker h.early
      · exact h

end ThreadPool

theorem placed_of_reach {arg : TPoolModuleInitArg} {P : ThreadPool → TPoolAction → Prop}
    {s : ThreadPool} (hr : Reach (threadPoolSystem arg) P s) : s.Placed arg := by
  refine hr.invariant ?_ ?_
  · rintro s ⟨L, rfl⟩
    exact ThreadPool.Placed.start arg L
  · intro s a h ha _
    exact h.next ha

end MyWorkEnv
