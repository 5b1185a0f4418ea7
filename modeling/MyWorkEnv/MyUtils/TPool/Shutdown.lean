import MyWorkEnv.MyUtils.TPool.Conservation

/-!
# Shutting the pool down

`TPoolModuleExit` sets `Exit`, wakes the workers, and then destroys and frees
the pool without having seen them leave. What its workers still do to it, and
what becomes of the tasks that are enqueued by then, depends on how far all of
them have come when it takes these steps.
-/

namespace MyWorkEnv

open Transition LinkedRing

/-- From `pthread_mutex_lock(&threadPool->Lock)` to the end of the section. -/
def WorkerPc.inSection : WorkerPc → Bool
  | .lockPool | .waiting | .woken => true
  | _ => false

/-- Behind `sg_ThreadPool->Exit = TRUE`. -/
def ExitPc.afterSet : ExitPc → Bool
  | .idle | .setExit => false
  | _ => true

namespace ThreadPool

variable {arg : TPoolModuleInitArg} {s : ThreadPool} {w t : ℕ}

/-! ## What a worker touches -/

/-- The fields of `MY_THREAD_POOL` that workers use. -/
inductive PoolField where
  | lock
  | cond
  | currentThreadNum
  | taskListHead
  | taskListLength
  | exit
deriving DecidableEq

/-- In the locked section, behind the test of `Exit`. -/
def sectionTouches (s : ThreadPool) : List PoolField :=
  if s.exit then []
  else if !myListIsEmpty s.links .taskListHead then
    [.taskListHead, .taskListLength, .currentThreadNum]
  else [.taskListHead, .cond]

/-- What a worker uses of the pool in a step. In a batch it gets there only over the
links of its tasks. -/
def workerTouches (s : ThreadPool) : TPoolAction → List PoolField
  | .worker w =>
      match s.worker w with
      | .whileTest => [.exit]
      | .lockPool => [.lock, .currentThreadNum, .exit] ++ s.sectionTouches
      | .woken => [.cond, .lock, .exit] ++ s.sectionTouches
      | .leaving => [.currentThreadNum]
      | _ => if TPoolPtr.taskListHead ∈ s.linkTouches (.worker w) then [.taskListHead] else []
  | .spuriousWakeup _ => [.cond]
  | _ => []

/-- Is the field destroyed, or freed with the pool? -/
def gone (s : ThreadPool) : PoolField → Bool
  | .lock => s.lockDestroyed || s.poolFrees != 0
  | .cond => s.condDestroyed || s.poolFrees != 0
  | _ => s.poolFrees != 0

/-- The links of a batch do not lead back to the pool. -/
theorem Placed.batch_linkTouches (h : s.Placed arg) (hw : w < arg.threadPoolSize)
    (hin : (s.worker w).inBatch = true) :
    TPoolPtr.taskListHead ∉ s.linkTouches (.worker w) := by
  have hring : ∀ {ts : List ℕ} {p : TPoolPtr}, p ∈ TPoolPtr.listHeadTmp w :: ts.map .list →
      TPoolPtr.taskListHead ≠ p := by
    rintro ts p hp rfl
    simp at hp
  have hok := h.worker w hw
  cases hpc : s.worker w with
  | taken =>
      rw [hpc] at hok
      have hfirst := hok.2.2.1.next_mem List.mem_cons_self
      simp only [linkTouches, hpc, List.mem_cons, List.not_mem_nil, or_false, not_or]
      exact ⟨by simp, hring hfirst, hring (hok.2.2.1.next_mem hfirst)⟩
  | forStep tmp =>
      rw [hpc] at hok
      obtain ⟨rfl, hr, -⟩ := hok
      have hahead := ahead_mem w (s.hist.left w) (s.hist.rest w)
      simp only [linkTouches, hpc, List.mem_cons, List.not_mem_nil, or_false, not_or]
      exact ⟨hring hahead, hring (hr.next_mem hahead)⟩
  | body u tmp k =>
      rw [hpc] at hok
      obtain ⟨ts, -, -, hr, -, -⟩ := hok
      by_cases hk : k = .unlink
      · subst hk
        have hu : TPoolPtr.list u ∈
            TPoolPtr.listHeadTmp w :: (s.hist.left w ++ u :: ts).map .list := by
          simp
        rw [if_neg (by simp)] at hr
        simp only [linkTouches, hpc, List.mem_cons, List.not_mem_nil, or_false, not_or]
        exact ⟨by simp, hring (hr.prev_mem hu), hring (hr.next_mem hu)⟩
      · cases k <;> simp_all [linkTouches]
  | _ => simp [hpc, WorkerPc.inBatch, linkTouches] at hin ⊢

/-! ## How far the workers are -/

/-- `TPoolModuleExit` destroys `Lock` when no worker is going to take it any more, and
frees the pool when all have ended. -/
def WorkersOut (arg : TPoolModuleInitArg) (s : ThreadPool) (a : TPoolAction) : Prop :=
  a = .moduleExit →
    (s.exitPc = .destroyLock → ∀ w < arg.threadPoolSize, (s.worker w).inSection = false) ∧
    (s.exitPc = .freePool → ∀ w < arg.threadPoolSize, s.worker w = .exited)

instance WorkersOut.decidable (arg : TPoolModuleInitArg) (s : ThreadPool) (a : TPoolAction) :
    Decidable (WorkersOut arg s a) :=
  inferInstanceAs (Decidable (_ → _ ∧ _))

/-- Behind `Exit` no worker enters the section again. -/
theorem outside_next {a : TPoolAction} (ha : s.guard arg a = true) (hexit : s.exit = true)
    (hout : (s.worker w).inSection = false) : ((s.next a).worker w).inSection = false := by
  rcases next_worker ha w with heq | ⟨hwait, -⟩ | rfl
  · rw [heq]
    exact hout
  · simp [hwait, WorkerPc.inSection] at hout
  · show ((s.stepWorker w).worker w).inSection = false
    cases hpc : s.worker w with
    | whileTest => simp [stepWorker, hpc, hexit, WorkerPc.inSection]
    | taken => simp [stepWorker, hpc, WorkerPc.inSection]
    | forEach loop tmp =>
        simp only [stepWorker, hpc]
        cases forEachTask w loop <;> simp [WorkerPc.inSection]
    | body t tmp k =>
        simp only [stepWorker, hpc, body_worker, Function.update_self]
        cases (s.task t).bodyNext k <;> rfl
    | forStep tmp => simp [stepWorker, hpc, WorkerPc.inSection]
    | leaving => simp [stepWorker, hpc, setWorker, WorkerPc.inSection]
    | exited => simp [guard, hpc] at ha
    | _ => simp [hpc, WorkerPc.inSection] at hout

theorem exited_next {a : TPoolAction} (ha : s.guard arg a = true)
    (hw : s.worker w = .exited) : (s.next a).worker w = .exited := by
  rcases next_worker ha w with heq | ⟨hwait, -⟩ | rfl
  · rw [heq, hw]
  · simp [hw] at hwait
  · simp [guard, hw] at ha

/-! ### The steps of `TPoolModuleExit` -/

theorem moduleExit_exit : s.moduleExit.exit = (s.exit || s.exitPc == .setExit) := by
  unfold moduleExit
  cases s.exitPc <;> simp [ThreadPool.broadcast]

theorem moduleExit_lockDestroyed :
    s.moduleExit.lockDestroyed = (s.lockDestroyed || s.exitPc == .destroyLock) := by
  unfold moduleExit
  cases s.exitPc <;> simp [ThreadPool.broadcast]

theorem moduleExit_condDestroyed :
    s.moduleExit.condDestroyed = (s.condDestroyed || s.exitPc == .destroyCond) := by
  unfold moduleExit
  cases s.exitPc <;> simp [ThreadPool.broadcast]

theorem moduleExit_poolFrees :
    s.moduleExit.poolFrees = s.poolFrees + (s.exitPc == .freePool).toNat := by
  unfold moduleExit
  cases s.exitPc <;> simp [ThreadPool.broadcast]

theorem moduleExit_inited :
    s.moduleExit.inited = (s.inited && s.exitPc != .clear) := by
  unfold moduleExit
  cases s.exitPc <;> simp [ThreadPool.broadcast]

theorem moduleExit_atCond (h : s.moduleExit.exitPc = .destroyCond) :
    s.exitPc = .destroyLock := by
  unfold moduleExit at h
  cases hpc : s.exitPc with
  | destroyLock => rfl
  | idle => simp only [hpc] at h; split_ifs at h
  | forTest loop => simp only [hpc] at h; split_ifs at h
  | _ => simp [hpc] at h

theorem moduleExit_returned (h : s.exitPc = .clear ∨ s.exitPc = .returned) :
    s.moduleExit.exitPc = .returned := by
  unfold moduleExit
  rcases h with h | h <;> simp [h]

theorem moduleExit_afterSet (h : s.moduleExit.exitPc.afterSet = true) :
    s.exitPc.afterSet = true ∨ s.exitPc = .setExit ∨ s.inited = false := by
  unfold moduleExit at h
  cases hpc : s.exitPc with
  | idle =>
      simp only [hpc] at h
      split_ifs at h with hin
      · simp [ExitPc.afterSet] at h
      · exact .inr (.inr (by simpa using hin))
  | setExit => exact .inr (.inl rfl)
  | _ => exact .inl rfl

/-- What `TPoolModuleExit` has behind it, in any run. -/
structure Exiting (s : ThreadPool) : Prop where
  inited : s.inited = false → s.exitPc = .returned
  exit : s.exitPc.afterSet = true → s.exit = true

theorem Exiting.next (h : s.Exiting) (a : TPoolAction) : (s.next a).Exiting := by
  by_cases ha : a = .moduleExit
  · subst ha
    show s.moduleExit.Exiting
    constructor
    case inited =>
      rw [moduleExit_inited]
      intro hin
      apply moduleExit_returned
      cases hold : s.inited with
      | false => exact .inr (h.inited hold)
      | true => exact .inl (by simpa [hold] using hin)
    case exit =>
      intro hafter
      rw [moduleExit_exit, Bool.or_eq_true, beq_iff_eq]
      rcases moduleExit_afterSet hafter with hset | hset | hin
      · exact .inl (h.exit hset)
      · exact .inr hset
      · exact .inl (h.exit (by rw [h.inited hin]; rfl))
  · obtain ⟨hexit, hpc, hinited, -, -, -⟩ := next_sameExit (s := s) ha
    refine ⟨?_, ?_⟩
    · rw [hinited, hpc]
      exact h.inited
    · rw [hpc, hexit]
      exact h.exit

/-- What is destroyed or freed is behind all workers. -/
structure Vacated (arg : TPoolModuleInitArg) (s : ThreadPool) : Prop where
  lock : s.lockDestroyed = true →
    s.exit = true ∧ ∀ w < arg.threadPoolSize, (s.worker w).inSection = false
  atCond : s.exitPc = .destroyCond → s.lockDestroyed = true
  cond : s.condDestroyed = true → s.lockDestroyed = true
  pool : s.poolFrees ≠ 0 → ∀ w < arg.threadPoolSize, s.worker w = .exited

theorem Vacated.next (h : s.Vacated arg) (he : s.Exiting) {a : TPoolAction}
    (ha : s.guard arg a = true) (hout : WorkersOut arg s a) : (s.next a).Vacated arg := by
  by_cases hx : a = .moduleExit
  · obtain ⟨hsection, hexited⟩ := hout hx
    subst hx
    constructor
    case lock =>
      intro hl
      replace hl : s.moduleExit.lockDestroyed = true := hl
      rw [moduleExit_lockDestroyed, Bool.or_eq_true, beq_iff_eq] at hl
      have hold : s.exit = true ∧ ∀ w < arg.threadPoolSize, (s.worker w).inSection = false := by
        rcases hl with hl | hl
        · exact h.lock hl
        · exact ⟨he.exit (by rw [hl]; rfl), hsection hl⟩
      refine ⟨?_, fun w hw => outside_next ha hold.1 (hold.2 w hw)⟩
      show s.moduleExit.exit = true
      rw [moduleExit_exit, hold.1, Bool.true_or]
    case atCond =>
      intro hpc
      show s.moduleExit.lockDestroyed = true
      rw [moduleExit_lockDestroyed, moduleExit_atCond hpc]
      simp
    case cond =>
      intro hc
      show s.moduleExit.lockDestroyed = true
      replace hc : s.moduleExit.condDestroyed = true := hc
      rw [moduleExit_condDestroyed, Bool.or_eq_true, beq_iff_eq] at hc
      have hold : s.lockDestroyed = true := hc.elim h.cond h.atCond
      rw [moduleExit_lockDestroyed, hold, Bool.true_or]
    case pool =>
      intro hp w hw
      replace hp : s.moduleExit.poolFrees ≠ 0 := hp
      rw [moduleExit_poolFrees] at hp
      apply exited_next ha
      by_cases hfree : s.exitPc = .freePool
      · exact hexited hfree w hw
      · exact h.pool (by simpa [hfree] using hp) w hw
  · obtain ⟨hexit, hpc, -, hlock, hcond, hpool⟩ := next_sameExit (s := s) hx
    constructor
    case lock =>
      intro hl
      rw [hlock] at hl
      obtain ⟨hset, hall⟩ := h.lock hl
      rw [hexit]
      exact ⟨hset, fun w hw => outside_next ha hset (hall w hw)⟩
    case atCond =>
      rw [hpc, hlock]
      exact h.atCond
    case cond =>
      rw [hcond, hlock]
      exact h.cond
    case pool =>
      intro hp w hw
      rw [hpool] at hp
      exact exited_next ha (h.pool hp w hw)

/-! ## After the destruction -/

/-- A worker in the section finds `Lock` and `Cond` alive, and one that has not ended
finds the pool. -/
theorem Vacated.alive (h : s.Vacated arg) (hw : w < arg.threadPoolSize)
    (hpc : s.worker w ≠ .exited) : s.poolFrees = 0 := by
  by_contra hp
  exact hpc (h.pool hp w hw)

theorem Vacated.lock_alive (h : s.Vacated arg) (hw : w < arg.threadPoolSize)
    (hin : (s.worker w).inSection = true) : s.lockDestroyed = false := by
  by_contra hl
  simp [(h.lock (by simpa using hl)).2 w hw] at hin

theorem Vacated.cond_alive (h : s.Vacated arg) (hw : w < arg.threadPoolSize)
    (hin : (s.worker w).inSection = true) : s.condDestroyed = false := by
  by_contra hc
  have hl := h.cond (by simpa using hc)
  simp [h.lock_alive hw hin] at hl

/-- In the section nothing is gone, and elsewhere no more than `Lock` and `Cond`. -/
theorem Vacated.gone_eq (h : s.Vacated arg) (hw : w < arg.threadPoolSize)
    (hpc : s.worker w ≠ .exited) {f : PoolField}
    (hf : (s.worker w).inSection = true ∨ (f ≠ .lock ∧ f ≠ .cond)) : s.gone f = false := by
  have hpool := h.alive hw hpc
  rcases hf with hin | ⟨hlock, hcond⟩
  · cases f <;> simp [gone, hpool, h.lock_alive hw hin, h.cond_alive hw hin]
  · cases f <;> simp_all [gone]

end ThreadPool

open ThreadPool

variable {arg : TPoolModuleInitArg} {s : ThreadPool}

theorem exiting_of_reach {P : ThreadPool → TPoolAction → Prop}
    (hr : Reach (threadPoolSystem arg) P s) : s.Exiting := by
  refine hr.invariant ?_ ?_
  · rintro s ⟨L, rfl⟩
    exact ⟨fun h => by simp [ThreadPool.init] at h, fun h => by simp [ThreadPool.init, ExitPc.afterSet] at h⟩
  · intro s a h _ _
    exact h.next a

theorem vacated_of_reach (hr : Reach (threadPoolSystem arg) (WorkersOut arg) s) :
    s.Vacated arg := by
  refine hr.invariant_of (fun s hs => exiting_of_reach hs) ?_ ?_
  · rintro s ⟨L, rfl⟩
    constructor <;> simp [ThreadPool.init]
  · intro s a he h ha hout
    exact h.next he ha hout

/-- **No worker waits on a destroyed `Cond`, and none of its steps touches what
`TPoolModuleExit` has destroyed or freed**, in the runs of `WorkersOut`. -/
theorem no_use_after_exit (hr : Reach (threadPoolSystem arg) (WorkersOut arg) s) :
    (∀ w < arg.threadPoolSize, s.worker w = .waiting → s.gone .cond = false) ∧
      ∀ a, s.guard arg a = true → ∀ f ∈ s.workerTouches a, s.gone f = false := by
  have h := vacated_of_reach hr
  constructor
  · intro w hw hpc
    exact h.gone_eq hw (by simp [hpc]) (.inl (by rw [hpc]; rfl))
  · intro a ha f hf
    cases a with
    | worker w =>
        have hw := worker_lt ha
        cases hpc : s.worker w with
        | lockPool => exact h.gone_eq hw (by simp [hpc]) (.inl (by rw [hpc]; rfl))
        | woken => exact h.gone_eq hw (by simp [hpc]) (.inl (by rw [hpc]; rfl))
        | waiting => simp [ThreadPool.guard, hpc] at ha
        | exited => simp [ThreadPool.guard, hpc] at ha
        | whileTest =>
            simp only [workerTouches, hpc, List.mem_singleton] at hf
            subst hf
            exact h.gone_eq hw (by simp [hpc]) (.inr (by simp))
        | leaving =>
            simp only [workerTouches, hpc, List.mem_singleton] at hf
            subst hf
            exact h.gone_eq hw (by simp [hpc]) (.inr (by simp))
        | _ =>
            -- in a batch
            have hlinks := (placed_of_reach hr).batch_linkTouches hw (by rw [hpc]; rfl)
            simp [workerTouches, hpc, hlinks] at hf
    | spuriousWakeup w =>
        simp only [ThreadPool.guard, Bool.and_eq_true, decide_eq_true_eq, beq_iff_eq] at ha
        simp only [workerTouches, List.mem_singleton] at hf
        subst hf
        exact h.gone_eq ha.1 (by simp [ha.2]) (.inl (by rw [ha.2]; rfl))
    | _ => simp [workerTouches] at hf

/-- `TPoolModuleExit` takes this many steps. -/
def exits (steps : ℕ) : List TPoolAction := List.replicate steps .moduleExit

/-- The worker waits, is woken by the first broadcast and is about to leave when `Lock`
is destroyed. -/
def lateLeaverRun : List TPoolAction := works 2 ++ exits 3 ++ works 1 ++ exits 4

theorem no_use_after_exit_run :
    (oneWorkerAfter lateLeaverRun).lockDestroyed = true ∧
      (oneWorkerAfter lateLeaverRun).gone .currentThreadNum = false :=
  ⟨by decide,
    (no_use_after_exit (s := oneWorkerAfter lateLeaverRun)
      (reach_oneWorker (by decide))).2 (.worker 0) (by decide)
      .currentThreadNum (by decide)⟩

/-- The worker is woken, but does not run before `TPoolModuleExit` has returned. -/
def freedPoolRun : List TPoolAction := works 2 ++ exits 11

/-- `Lock` is taken behind its destruction, in a freed pool. -/
theorem lock_after_exit :
    ∃ s, Reachable (threadPoolSystem oneWorker) s ∧ s.guard oneWorker (.worker 0) = true ∧
      .lock ∈ s.workerTouches (.worker 0) ∧ s.gone .lock = true ∧ s.poolFrees = 1 :=
  ⟨oneWorkerAfter freedPoolRun, reach_oneWorker (by decide), by decide,
    by decide, by decide, by decide⟩

/-! ## What is left of the tasks -/

namespace ThreadPool

variable {t : ℕ}

/-- Unlinked, `MY_LIST_DEL_NODE` being behind a task that is done, and freed once. -/
structure Disposed (s : ThreadPool) (t : ℕ) : Prop where
  unqueued : ¬ s.InRing .taskListHead t
  unlinked : s.stage t = .done
  freed : (s.task t).nodeFrees = 1

def taskFunc (s : ThreadPool) (t : ℕ) : Option ℕ := (s.task t).node.taskFunc

/-- Tasks come with a function and before `Exit`, which finds the queue empty. -/
def NothingLeft (s : ThreadPool) (a : TPoolAction) : Prop :=
  match a with
  | .insert t clockOk _ =>
      s.enqueues t clockOk = true → s.exit = false ∧ (s.taskFunc t).isSome = true
  | .moduleExit => s.exitPc = .setExit → myListIsEmpty s.links .taskListHead = true
  | _ => True

instance NothingLeft.decidable (s : ThreadPool) (a : TPoolAction) : Decidable (NothingLeft s a) := by
  unfold NothingLeft
  split <;> infer_instance

/-- Only its allocation writes the function into a node. -/
theorem next_taskFunc {k : Task} {m : TaskAction} (hm : ∀ ok, m ≠ .alloc ok) :
    (k.next m).node.taskFunc = k.node.taskFunc := by
  cases m with
  | alloc ok => exact absurd rfl (hm ok)
  | insert clockOk => exact (Task.SameLog.insert k clockOk).taskFunc
  | caller c => exact (Task.SameLog.caller k c).taskFunc
  | body pc => exact congrArg MyTPoolTask.taskFunc (Task.bodyEffect_node pc)
  | _ => rfl

theorem Placed.taskFunc_next (h : s.Placed arg) {a : TPoolAction} (ha : s.guard arg a = true)
    (ht : t ∈ s.hist.order) : (s.next a).taskFunc t = s.taskFunc t := by
  cases hm : s.taskAction a with
  | none =>
      show ((s.next a).task t).node.taskFunc = _
      rw [next_task, hm]
      rfl
  | some um =>
      obtain ⟨u, m⟩ := um
      have hview := congrFun (view_of_some (fun k => k.node.taskFunc) hm) t
      show ((s.next a).task t).node.taskFunc = _
      rw [hview]
      by_cases htu : t = u
      · subst htu
        rw [Function.update_self]
        apply next_taskFunc
        rintro ok rfl
        -- a node that is allocated is not yet enqueued
        exact h.fresh (Task.early_of_alloc (h.task_guard ha hm)) ht
      · rw [Function.update_of_ne htu]
        rfl

theorem taskFunc_insert {clockOk : Bool} {woke : List ℕ} (henq : s.enqueues t clockOk = true) :
    (s.next (.insert t clockOk woke)).taskFunc t = s.taskFunc t := by
  rw [next_insert henq]
  show (Function.update s.task t ((s.task t).insert clockOk) t).node.taskFunc = _
  rw [Function.update_self, (Task.SameLog.insert _ _).taskFunc]
  rfl

theorem moduleExit_hist : s.moduleExit.hist = s.hist := by
  unfold moduleExit
  cases s.exitPc <;> rfl

/-- With `Exit` set nothing is queued, and what was enqueued has a function. -/
structure Drained (s : ThreadPool) : Prop where
  queue : s.exit = true → s.hist.queue = []
  func : ∀ t ∈ s.hist.order, (s.taskFunc t).isSome = true

theorem Drained.next (h : s.Drained) (hp : s.Placed arg) {a : TPoolAction}
    (ha : s.guard arg a = true) (hleft : NothingLeft s a) : (s.next a).Drained := by
  have hfunc : ∀ t ∈ s.hist.order, ((s.next a).taskFunc t).isSome = true := by
    intro t ht
    rw [hp.taskFunc_next ha ht]
    exact h.func t ht
  rcases s.next_queue a with ⟨horder, hqueue⟩ | ⟨t, clockOk, woke, rfl, henq, hhist, -⟩
  · constructor
    case func =>
      rw [horder]
      exact hfunc
    case queue =>
      intro hexit
      rcases hqueue with ⟨hq, -⟩ | ⟨-, hq, -⟩
      · rw [hq]
        by_cases hx : a = .moduleExit
        · subst hx
          replace hexit : s.moduleExit.exit = true := hexit
          rw [moduleExit_exit, Bool.or_eq_true, beq_iff_eq] at hexit
          rcases hexit with hexit | hset
          · exact h.queue hexit
          · simpa using (myListIsEmpty_iff hp.queue).mp (hleft hset)
        · rw [(next_sameExit hx).exit] at hexit
          exact h.queue hexit
      · exact hq
  · obtain ⟨hrunning, hsome⟩ := hleft henq
    constructor
    case queue =>
      intro hexit
      rw [(next_sameExit (by simp)).exit, hrunning] at hexit
      simp at hexit
    case func =>
      intro u hu
      rw [hhist] at hu
      rcases List.mem_append.mp hu with hu | hu
      · exact hfunc u hu
      · rw [List.mem_singleton.mp hu, taskFunc_insert henq]
        exact hsome

theorem exit_next (h : s.exit = true) (a : TPoolAction) : (s.next a).exit = true := by
  by_cases hx : a = .moduleExit
  · subst hx
    show s.moduleExit.exit = true
    rw [moduleExit_exit, h, Bool.true_or]
  · rw [(next_sameExit hx).exit, h]

/-- Nothing that is left over goes away. -/
theorem Drained.of_next (hp : s.Placed arg) {a : TPoolAction} (ha : s.guard arg a = true)
    (h : (s.next a).Drained) : s.Drained ∧ NothingLeft s a := by
  have hfunc : ∀ t ∈ s.hist.order, t ∈ (s.next a).hist.order → (s.taskFunc t).isSome = true := by
    intro t ht hmem
    rw [← hp.taskFunc_next ha ht]
    exact h.func t hmem
  rcases s.next_queue a with hkept | ⟨t, clockOk, woke, rfl, henq, hhist, -⟩
  · obtain ⟨horder, hqueue⟩ := id hkept
    refine ⟨⟨?_, fun t ht => hfunc t ht (horder ▸ ht)⟩, ?_⟩
    · intro hexit
      rcases hqueue with ⟨hq, -⟩ | ⟨hrunning, -, -⟩
      · rw [← hq]
        exact h.queue (exit_next hexit a)
      · simp [hrunning] at hexit
    · cases a with
      | insert t clockOk woke =>
          intro henq
          exact absurd henq hkept.not_enqueues
      | moduleExit =>
          intro hset
          have hexit : s.moduleExit.exit = true := by
            rw [moduleExit_exit, hset]
            simp
          have hnil : s.hist.queue = [] := by
            rw [← moduleExit_hist]
            exact h.queue hexit
          exact (myListIsEmpty_iff hp.queue).mpr (by rw [hnil]; rfl)
      | _ => trivial
  · have hqueue : (s.next (.insert t clockOk woke)).hist.queue ≠ [] := by
      rw [hhist]
      simp [BatchQueue.State.put]
    have hmem : ∀ u, u ∈ s.hist.order ∨ u = t →
        u ∈ (s.next (.insert t clockOk woke)).hist.order := by
      intro u hu
      rw [hhist]
      simpa [BatchQueue.State.put] using hu
    have hrunning : s.exit = false := by
      by_contra hexit
      exact hqueue (h.queue (exit_next (by simpa using hexit) _))
    refine ⟨⟨?_, fun u hu => hfunc u hu (hmem u (.inl hu))⟩, fun _ => ⟨hrunning, ?_⟩⟩
    · intro hexit
      simp [hrunning] at hexit
    · rw [← taskFunc_insert henq]
      exact h.func t (hmem t (.inr rfl))

/-- Behind all workers every task is dealt with or queued. -/
theorem Placed.done_of_exited (h : s.Placed arg)
    (hw : ∀ w < arg.threadPoolSize, s.worker w = .exited) (hqueue : s.hist.queue = [])
    (ht : t ∈ s.hist.order) : t ∈ s.hist.done := by
  rcases h.wf.mem_iff.mp ht with hq | ⟨w, hlt, hr⟩ | hd
  · simp [hqueue] at hq
  · have hok := h.worker w hlt
    rw [hw w hlt] at hok
    have hnil : s.hist.rest w = [] := hok
    simp [hnil] at hr
  · exact hd

/-- A task that is dealt with, and had a function, is disposed of. -/
theorem Placed.disposed_of_done (h : s.Placed arg) (hs : (s.task t).Sound)
    (ht : t ∈ s.hist.done) (hfunc : (s.taskFunc t).isSome = true) : s.Disposed t := by
  have hlogged := hs.logged
  have hstage : (s.task t).stage = .done := by
    rcases h.through t ht with hpassed | hstage
    · unfold stage at hpassed
      rw [hpassed] at hlogged
      simp [taskFunc, hlogged.1] at hfunc
    · exact hstage
  constructor
  case unqueued =>
    intro hring
    exact h.wf.notMem_done_of_queue (h.at_queue.mp hring) ht
  case unlinked => exact hstage
  case freed =>
    rw [hstage] at hlogged
    rcases hlogged.2 with hlog | hlog <;> exact hlog.2.2.2

/-- When all workers have ended behind `Exit`, to be drained means that all tasks are gone. -/
theorem Placed.disposed_iff (h : s.Placed arg) (hs : ∀ t, (s.task t).Sound)
    (hexit : s.exit = true) (hw : ∀ w < arg.threadPoolSize, s.worker w = .exited) :
    (∀ t ∈ s.hist.order, s.Disposed t) ↔ s.Drained := by
  constructor
  · intro hall
    constructor
    case queue =>
      intro _
      rw [List.eq_nil_iff_forall_not_mem]
      intro t ht
      have hmem : t ∈ s.hist.order := h.wf.mem_iff.mpr (.inl ht)
      exact (hall t hmem).unqueued (h.at_queue.mpr ht)
    case func =>
      intro t ht
      have hlogged := (hs t).logged
      have hstage : (s.task t).stage = .done := (hall t ht).unlinked
      rw [hstage] at hlogged
      exact hlogged.1
  · intro hd t ht
    exact h.disposed_of_done (hs t) (h.done_of_exited hw (hd.queue hexit) ht) (hd.func t ht)

end ThreadPool

/-- Function 1 is called with argument 7, and nobody waits for it. -/
def addTaskOne : List TPoolAction :=
  [.addTask 0 (some 1) 7, .lengthTest 0 [], .alloc 0 true, .insert 0 true []]

/-- The worker has run the task and is back at its test when `Exit` is set. -/
def drainedRun : List TPoolAction := addTaskOne ++ works 13 ++ exits 2 ++ works 2 ++ exits 7

/-- `Exit` is set before the worker has looked at the queue. -/
def droppedRun : List TPoolAction := addTaskOne ++ exits 2 ++ works 2 ++ exits 7

end MyWorkEnv
