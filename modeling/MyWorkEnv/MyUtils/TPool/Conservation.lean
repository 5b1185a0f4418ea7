import Mathlib.Data.Set.Card
import MyWorkEnv.MyUtils.TPool.Sync

/-!
# Conservation of tasks

Each enqueued task with a function is in the ring at `TaskListHead`, in the ring
of one worker's batch, or freed; batches are runs of the order in which tasks
were enqueued; and the counters add up. A task without a function is passed
over by its worker and stays unfreed, so it is a term of its own in the sum.
-/

namespace MyWorkEnv

open Transition LinkedRing

/-- Between taking a batch and the end of its traversal. -/
def WorkerPc.inBatch : WorkerPc → Bool
  | .taken | .forEach _ _ | .body _ _ _ | .forStep _ => true
  | _ => false

inductive Place where
  | queue
  | batch (w : ℕ)
  | finished

namespace ThreadPool

variable {arg : TPoolModuleInitArg} {s : ThreadPool} {w t : ℕ}

/-- The node is in the ring at `head`. -/
def InRing (s : ThreadPool) (head : TPoolPtr) (t : ℕ) : Prop :=
  ∃ xs, Represents s.links head xs ∧ TPoolPtr.list t ∈ xs

/-- A node that is unlinked but not yet freed is in the batch still. -/
def At (arg : TPoolModuleInitArg) (s : ThreadPool) (t : ℕ) : Place → Prop
  | .queue => s.InRing .taskListHead t
  | .batch w => w < arg.threadPoolSize ∧ (s.worker w).inBatch = true ∧
      (s.InRing (.listHeadTmp w) t ∨ ∃ tmp, s.worker w = .body t tmp .free)
  | .finished => (s.task t).nodeFrees = 1

/-! ## Places -/

theorem Placed.at_queue (h : s.Placed arg) : At arg s t .queue ↔ t ∈ s.hist.queue := by
  constructor
  · rintro ⟨xs, hr, ht⟩
    rw [hr.unique h.queue] at ht
    simpa using ht
  · intro ht
    exact ⟨_, h.queue, by simpa using ht⟩

/-- The ring of a batch. -/
theorem Placed.ring (h : s.Placed arg) (hw : w < arg.threadPoolSize)
    (hin : (s.worker w).inBatch = true) : ∃ ts, Ring s.links w ts ∧
      (∀ u ∈ ts, u ∈ s.hist.left w ++ s.hist.rest w) ∧
      ∀ u ∈ s.hist.rest w, u ∈ ts ∨ ∃ tmp, s.worker w = .body u tmp .free := by
  have hok := h.worker w hw
  cases hpc : s.worker w with
  | taken =>
      rw [hpc] at hok
      exact ⟨_, hok.2.2.1, fun u hu => List.mem_append_right _ hu, fun u hu => .inl hu⟩
  | forEach loop tmp =>
      rw [hpc] at hok
      exact ⟨_, hok.2.2.1, fun u hu => hu, fun u hu => .inl (List.mem_append_right _ hu)⟩
  | forStep tmp =>
      rw [hpc] at hok
      exact ⟨_, hok.2.1, fun u hu => hu, fun u hu => .inl (List.mem_append_right _ hu)⟩
  | body t tmp k =>
      rw [hpc] at hok
      obtain ⟨ts, hrest, -, hring, -, -⟩ := hok
      refine ⟨_, hring, ?_, ?_⟩
      · intro u hu
        rw [hrest]
        split_ifs at hu
        · rcases List.mem_append.mp hu with hu | hu
          · exact List.mem_append_left _ hu
          · exact List.mem_append_right _ (List.mem_cons_of_mem t hu)
        · exact hu
      · intro u hu
        rw [hrest] at hu
        by_cases hk : k = .free
        · rw [if_pos hk, hk]
          rcases List.mem_cons.mp hu with rfl | hu
          · exact .inr ⟨tmp, rfl⟩
          · exact .inl (List.mem_append_right _ hu)
        · rw [if_neg hk]
          exact .inl (List.mem_append_right _ hu)
  | _ => simp [hpc, WorkerPc.inBatch] at hin

theorem Placed.inBatch_of_rest (h : s.Placed arg) (hw : w < arg.threadPoolSize)
    (ht : t ∈ s.hist.rest w) : (s.worker w).inBatch = true := by
  have hok := h.worker w hw
  cases hpc : s.worker w with
  | taken => rfl
  | forEach loop tmp => rfl
  | body t tmp k => rfl
  | forStep tmp => rfl
  | _ =>
      rw [hpc] at hok
      simp only [WorkerOk] at hok
      simp [hok] at ht

theorem Placed.at_batch_of_rest (h : s.Placed arg) (hw : w < arg.threadPoolSize)
    (ht : t ∈ s.hist.rest w) : At arg s t (.batch w) := by
  have hin := h.inBatch_of_rest hw ht
  obtain ⟨ts, hring, -, hrest⟩ := h.ring hw hin
  refine ⟨hw, hin, ?_⟩
  rcases hrest t ht with hmem | hfree
  · exact .inl ⟨_, hring, by simpa using hmem⟩
  · exact .inr hfree

theorem Placed.rest_of_at_batch (h : s.Placed arg) (ht : At arg s t (.batch w)) :
    t ∈ s.hist.left w ∨ t ∈ s.hist.rest w := by
  obtain ⟨hw, hin, hring | ⟨tmp, hpc⟩⟩ := ht
  · obtain ⟨ts, hr, hsub, -⟩ := h.ring hw hin
    obtain ⟨xs, hr', hmem⟩ := hring
    rw [hr'.unique hr] at hmem
    exact List.mem_append.mp (hsub t (by simpa using hmem))
  · have hok := h.worker w hw
    rw [hpc] at hok
    obtain ⟨ts, hrest, -⟩ := hok
    exact .inr (by simp [hrest])

/-- **One place for every task with a function.** -/
theorem Placed.one_place (h : s.Placed arg) (hs : (s.task t).Sound) (ht : t ∈ s.hist.order)
    (hfunc : (s.task t).node.taskFunc ≠ none) : ∃! p, At arg s t p := by
  have hlogged := hs.logged
  have hleft : ∀ v, t ∉ s.hist.left v := by
    intro v hv
    have hpassed : (s.task t).stage = .passed := h.left v t hv
    rw [hpassed] at hlogged
    exact hfunc hlogged.1
  rcases h.wf.mem_iff.mp ht with hq | ⟨w, hw, hr⟩ | hd
  · -- queued
    refine ⟨.queue, h.at_queue.mpr hq, ?_⟩
    rintro (_ | v | _) hp
    · rfl
    · rcases h.rest_of_at_batch hp with hv | hv
      · exact absurd hv (hleft v)
      · exact absurd hv (h.wf.notMem_rest_of_queue hp.1 hq)
    · have hwait : (s.task t).stage = .waiting := h.waiting t hq
      have hfrees := hlogged.nodeFrees (by simp [hwait])
      have hone : (s.task t).nodeFrees = 1 := hp
      simp [hfrees] at hone
  · -- in the rest of one batch
    refine ⟨.batch w, h.at_batch_of_rest hw hr, ?_⟩
    rintro (_ | v | _) hp
    · exact absurd hr (h.wf.notMem_rest_of_queue hw (h.at_queue.mp hp))
    · rcases h.rest_of_at_batch hp with hv | hv
      · exact absurd hv (hleft v)
      · rw [h.wf.rest_unique hw hp.1 hr hv]
    · have hstage : (s.task t).stage ≠ .done := by
        rcases h.stage_of_rest hw hr with hst | ⟨k, hst⟩ <;> (unfold stage at hst; simp [hst])
      have hfrees := hlogged.nodeFrees hstage
      have hone : (s.task t).nodeFrees = 1 := hp
      simp [hfrees] at hone
  · -- dealt with, and freed because it has a function
    have hdone : (s.task t).stage = .done := by
      rcases h.through t hd with hst | hst
      · unfold stage at hst
        rw [hst] at hlogged
        exact absurd hlogged.1 hfunc
      · exact hst
    refine ⟨.finished, ?_, ?_⟩
    · rw [hdone] at hlogged
      rcases hlogged.2 with hlog | hlog <;> exact hlog.2.2.2
    · rintro (_ | v | _) hp
      · exact absurd hd (h.wf.notMem_done_of_queue (h.at_queue.mp hp))
      · rcases h.rest_of_at_batch hp with hv | hv
        · exact absurd hv (hleft v)
        · exact absurd hd (h.wf.notMem_done_of_rest hp.1 hv)
      · rfl

/-! ## Counters -/

def fate (s : ThreadPool) (t : ℕ) : Fate := (s.task t).fate

/-- The tasks with this fate. -/
def fated (s : ThreadPool) (f : Fate) : ℕ := s.hist.order.countP (fun t => s.fate t == f)

structure Counted (s : ThreadPool) : Prop where
  added : s.taskAdded = .ofNat 32 s.hist.order.length
  succeeded : s.taskSucceed = .ofNat 32 (s.fated .succeeded)

/-- Only the two steps of the body that decide it change a fate. -/
theorem next_fate {k : Task} {m : TaskAction} (htest : m ≠ .body .test)
    (hcount : m ≠ .body .count) : (k.next m).fate = k.fate := by
  cases m with
  | start sync taskFunc taskArg refused => rfl
  | lengthTest busy => rfl
  | alloc ok =>
      simp only [Task.next, Task.alloc]
      split
      · split_ifs <;> rfl
      · split_ifs <;> rfl
      · rfl
  | insert clockOk => exact (Task.SameLog.insert k clockOk).fate
  | caller c => exact (Task.SameLog.caller k c).fate
  | enter => rfl
  | body pc =>
      show (k.bodyEffect pc).fate = k.fate
      cases pc with
      | test => exact absurd rfl htest
      | count => exact absurd rfl hcount
      | signalTask =>
          simp only [Task.bodyEffect]
          split_ifs <;> rfl
      | teardown c skipped => cases c <;> rfl
      | _ => rfl

theorem fate_of_some {a : TPoolAction} {m : TaskAction} (hm : s.taskAction a = some (t, m)) :
    (s.next a).fate = Function.update s.fate t ((s.task t).next m).fate :=
  view_of_some Task.fate hm

theorem fate_same {a : TPoolAction}
    (hm : ∀ t m, s.taskAction a = some (t, m) → m ≠ .body .test ∧ m ≠ .body .count) :
    (s.next a).fate = s.fate := by
  apply view_same Task.fate
  intro t m h
  obtain ⟨htest, hcount⟩ := hm t m h
  exact next_fate htest hcount

/-- Steps that leave the counters, the order and all fates. -/
theorem Counted.quiet {s' : ThreadPool} (h : s.Counted) (hadded : s'.taskAdded = s.taskAdded)
    (hsucceed : s'.taskSucceed = s.taskSucceed) (horder : s'.hist.order = s.hist.order)
    (hfate : s'.fate = s.fate) : s'.Counted := by
  refine ⟨?_, ?_⟩
  · rw [hadded, horder, h.added]
  · rw [hsucceed, fated, horder, hfate]
    exact h.succeeded

theorem Counted.insert (h : s.Counted) (hs : (s.task t).Sound)
    {clockOk : Bool} {woke : List ℕ} (ha : s.guard arg (.insert t clockOk woke) = true) :
    (s.next (.insert t clockOk woke)).Counted := by
  have hfate : (s.next (.insert t clockOk woke)).fate = s.fate := by
    apply fate_same
    intro u m hm
    simp only [taskAction, Option.some.injEq, Prod.mk.injEq] at hm
    obtain ⟨-, rfl⟩ := hm
    simp
  by_cases henq : s.enqueues t clockOk = true
  · have hpending : s.fate t = .pending := by
      simp only [guard, Bool.and_eq_true] at ha
      have hlogged := hs.logged
      rw [hs.early (Task.early_of_insert ha.1)] at hlogged
      exact hlogged.2.2.1
    rw [next_insert henq] at hfate ⊢
    constructor
    case added =>
      show s.taskAdded + 1 = .ofNat 32 (s.hist.order ++ [t]).length
      rw [h.added, List.length_append]
      simp [BitVec.ofNat_add]
    case succeeded =>
      show s.taskSucceed = _
      rw [fated, hfate]
      show s.taskSucceed = .ofNat 32 ((s.hist.order ++ [t]).countP _)
      rw [List.countP_append, List.countP_singleton, hpending]
      exact h.succeeded
  · rw [next_insert_refused henq] at hfate ⊢
    exact h.quiet rfl rfl rfl hfate

/-- How many tasks have succeeded behind a step of the body. -/
theorem fated_body (hp : s.Placed arg) (hs : (s.task t).Sound) (hw : w < arg.threadPoolSize)
    {tmp : Option TPoolPtr} {k : BodyPc} (hpc : s.worker w = .body t tmp k) :
    (s.next (.worker w)).fated .succeeded =
      s.fated .succeeded + if k = .count then 1 else 0 := by
  have hok := hp.worker w hw
  rw [hpc] at hok
  obtain ⟨ts, hrest, -, -, hstage, -⟩ := hok
  have hmem : t ∈ s.hist.order := hp.wf.mem_order_of_rest hw (by simp [hrest])
  have hm : s.taskAction (.worker w) = some (t, .body k) := by simp [taskAction, hpc]
  have hfate := fate_of_some hm
  have horder : (s.next (.worker w)).hist.order = s.hist.order := by
    rw [next_body hpc, body_hist_order]
  have hlogged := hs.logged
  unfold stage at hstage
  rw [hstage] at hlogged
  have hcount := BatchQueue.countP_update (p := fun f => f == Fate.succeeded) (f := s.fate)
    (k := ((s.task t).next (.body k)).fate) hp.wf.nodup hmem
  rw [fated, horder, hfate]
  by_cases hk : k = .count
  · subst hk
    have hold : (s.fate t == Fate.succeeded) = false := by
      rw [fate, hlogged.2.2.2.1]
      rfl
    have hnew : (((s.task t).next (.body .count)).fate == Fate.succeeded) = true := rfl
    rw [hold, hnew] at hcount
    exact hcount
  · rw [if_neg hk]
    by_cases hk' : k = .test
    · subst hk'
      have hold : (s.fate t == Fate.succeeded) = false := by
        rw [fate, hlogged.2.2.1]
        rfl
      have hnew : (((s.task t).next (.body .test)).fate == Fate.succeeded) = false := by
        show (((s.task t).bodyEffect .test).fate == Fate.succeeded) = false
        simp only [Task.bodyEffect]
        split_ifs
        · rfl
        · rfl
        · exact hold
      rw [hold, hnew] at hcount
      exact hcount
    · rw [next_fate (by simpa using hk') (by simpa using hk)]
      rw [show Function.update s.fate t (s.task t).fate = s.fate from
        Function.update_eq_self t s.fate]
      rfl

/-- A step of the body counts when it makes the task succeed. -/
theorem Counted.body (h : s.Counted) (hp : s.Placed arg) (hs : (s.task t).Sound)
    (hw : w < arg.threadPoolSize) {tmp : Option TPoolPtr} {k : BodyPc}
    (hpc : s.worker w = .body t tmp k) : (s.next (.worker w)).Counted := by
  have hfated := fated_body hp hs hw hpc
  rw [next_body hpc] at hfated ⊢
  constructor
  case added => rw [body_taskAdded, body_hist_order, h.added]
  case succeeded =>
    rw [body_taskSucceed, hfated, h.succeeded]
    split_ifs
    · exact (BitVec.ofNat_add _ _).symm
    · rfl

theorem examine_counted (h : s.Counted) : (s.examine w).Counted := by
  unfold examine
  split_ifs
  · exact h.quiet rfl rfl rfl rfl
  · exact h.quiet rfl rfl rfl rfl
  · exact h.quiet rfl rfl rfl rfl

theorem Counted.next (h : s.Counted) (hp : s.Placed arg) (hs : ∀ t, (s.task t).Sound)
    {a : TPoolAction} (ha : s.guard arg a = true) : (s.next a).Counted := by
  cases a with
  | insert t clockOk woke => exact h.insert (hs t) ha
  | worker w =>
      cases hpc : s.worker w with
      | body t tmp k => exact h.body hp (hs t) (worker_lt ha) hpc
      | forEach loop tmp =>
          have hfate : (s.next (.worker w)).fate = s.fate := by
            apply fate_same
            intro t m hm
            simp only [taskAction, hpc] at hm
            split at hm
            · simp only [Option.some.injEq, Prod.mk.injEq] at hm
              simp [← hm.2]
            · simp at hm
          simp only [ThreadPool.next, stepWorker, hpc] at hfate ⊢
          split at hfate <;> exact h.quiet rfl rfl rfl hfate
      | lockPool =>
          have hin : s.countIn.Counted := h.quiet rfl rfl rfl rfl
          rw [next_lockPool hpc]
          exact examine_counted hin
      | woken =>
          rw [next_woken hpc]
          exact examine_counted h
      | _ =>
          simp only [ThreadPool.next, stepWorker, hpc]
          exact h.quiet rfl rfl rfl rfl
  | setTimeout timeout =>
      simp only [ThreadPool.next]
      split_ifs
      · exact h.quiet rfl rfl rfl rfl
      · exact h
  | setMaxQueueLength queueLen =>
      simp only [ThreadPool.next]
      split_ifs
      · exact h.quiet rfl rfl rfl rfl
      · exact h
  | spuriousWakeup w => exact h.quiet rfl rfl rfl rfl
  | moduleExit =>
      simp only [ThreadPool.next, moduleExit]
      split <;> exact h.quiet rfl rfl rfl rfl
  | _ =>
      refine h.quiet rfl rfl rfl (fate_same ?_)
      intro u m hm
      simp only [taskAction, Option.some.injEq, Prod.mk.injEq] at hm
      simp [← hm.2]

/-! ## Adding up -/

def tasksWith (s : ThreadPool) (f : Fate) : Set ℕ := {t | t ∈ s.hist.order ∧ s.fate t = f}

/-- Queued, or in a batch and not dealt with. -/
def openTasks (arg : TPoolModuleInitArg) (s : ThreadPool) : Set ℕ :=
  {t | t ∈ s.hist.order ∧ (At arg s t .queue ∨ ∃ w, At arg s t (.batch w)) ∧
    s.fate t = .pending}

theorem ncard_tasksWith (hnodup : s.hist.order.Nodup) (f : Fate) :
    (s.tasksWith f).ncard = s.fated f := by
  have hset : s.tasksWith f =
      ((s.hist.order.filter fun t => s.fate t == f).toFinset : Set ℕ) := by
    ext t
    simp [tasksWith]
  rw [hset, Set.ncard_coe_finset, List.toFinset_card_of_nodup (hnodup.filter _), fated,
    List.countP_eq_length_filter]

/-- A pending task is somewhere. -/
theorem Placed.openTasks_eq (h : s.Placed arg) (hs : ∀ t, (s.task t).Sound) :
    openTasks arg s = s.tasksWith .pending := by
  ext t
  constructor
  · rintro ⟨ht, -, hfate⟩
    exact ⟨ht, hfate⟩
  · rintro ⟨ht, hfate⟩
    refine ⟨ht, ?_, hfate⟩
    rcases h.wf.mem_iff.mp ht with hq | ⟨w, hw, hr⟩ | hd
    · exact .inl (h.at_queue.mpr hq)
    · exact .inr ⟨w, h.at_batch_of_rest hw hr⟩
    · have hlogged := (hs t).logged
      unfold fate at hfate
      rcases h.through t hd with hst | hst <;> (unfold stage at hst; rw [hst] at hlogged)
      · simp [hlogged.2.2.2.1] at hfate
      · rcases hlogged.2 with hlog | hlog <;> simp [hlog.2.2.1] at hfate

theorem length_eq_fates (f : ℕ → Fate) (l : List ℕ) :
    l.length = l.countP (fun t => f t == .succeeded) + (l.countP (fun t => f t == .skipped) +
      l.countP (fun t => f t == .pending) + l.countP (fun t => f t == .passedOver)) := by
  induction l with
  | nil => rfl
  | cons t l ih =>
      simp only [List.length_cons, List.countP_cons]
      cases f t <;> simp <;> omega

theorem Counted.adds_up (h : s.Counted) (hp : s.Placed arg) (hs : ∀ t, (s.task t).Sound) :
    s.taskAdded = s.taskSucceed + .ofNat 32 ((s.tasksWith .skipped).ncard +
      (openTasks arg s).ncard + (s.tasksWith .passedOver).ncard) := by
  rw [hp.openTasks_eq hs, ncard_tasksWith hp.wf.nodup, ncard_tasksWith hp.wf.nodup,
    ncard_tasksWith hp.wf.nodup, h.succeeded, ← BitVec.ofNat_add, h.added]
  exact congrArg (BitVec.ofNat 32) (length_eq_fates s.fate s.hist.order)

/-- What is conserved. -/
structure Conserved (arg : TPoolModuleInitArg) (s : ThreadPool) : Prop where
  place : ∀ t ∈ s.hist.order, (s.task t).node.taskFunc ≠ none →
    (∃! p, At arg s t p) ∧ (s.task t).started.length ≤ 1
  batch_run : ∀ w, s.hist.batch w <:+: s.hist.order
  batch_order : ∀ w < arg.threadPoolSize, ∃ dealt, s.hist.batch w = dealt ++ s.hist.rest w ∧
    (∀ t ∈ dealt, s.stage t = .passed ∨ s.stage t = .done) ∧
    (∀ t ∈ s.hist.rest w, At arg s t (.batch w)) ∧
    (∀ t ∈ (s.hist.rest w).tail, s.stage t = .waiting) ∧
    ∀ t tmp k, s.worker w = .body t tmp k → (s.hist.rest w).head? = some t
  length : ∃ nodes, Represents s.links .taskListHead nodes ∧
    s.taskListLength = .ofNat 32 nodes.length
  counts : s.taskAdded = s.taskSucceed + .ofNat 32 ((s.tasksWith .skipped).ncard +
    (openTasks arg s).ncard + (s.tasksWith .passedOver).ncard)

/-- Only the first task of the rest may be in the worker's hands. -/
theorem Placed.tail_waiting (h : s.Placed arg) (hw : w < arg.threadPoolSize) :
    ∀ t ∈ (s.hist.rest w).tail, s.stage t = .waiting := by
  intro t ht
  rcases (h.worker w hw).rest_cases with hall | ⟨u, ts, k, hrest, -, hall⟩
  · exact hall t (List.mem_of_mem_tail ht)
  · rw [hrest] at ht
    exact hall t ht

end ThreadPool

open ThreadPool

variable {arg : TPoolModuleInitArg} {s : ThreadPool}

theorem counted_of_reach {P : ThreadPool → TPoolAction → Prop}
    (hr : Reach (threadPoolSystem arg) P s) : s.Counted := by
  refine hr.invariant_of (J := fun s => s.Placed arg ∧ ∀ t, (s.task t).Sound)
    (fun s hs => ⟨placed_of_reach hs, sound_of_pool hs⟩) ?_ ?_
  · rintro s ⟨L, rfl⟩
    exact ⟨rfl, rfl⟩
  · intro s a hj h ha _
    exact h.next hj.1 hj.2 ha

/-- **Tasks are conserved.** -/
theorem tasks_conserved (hr : Reach (threadPoolSystem arg) (fun _ a => a.NotExit) s) :
    s.Conserved arg where
  place t ht hfunc :=
    ⟨(placed_of_reach hr).one_place (sound_of_pool hr t) ht hfunc,
      (sound_of_pool hr t).logged.started_le⟩
  batch_run := (placed_of_reach hr).wf.batch_infix
  batch_order w hw := by
    have h := placed_of_reach hr
    obtain ⟨dealt, hbatch, hdone⟩ := h.wf.batch_split w
    refine ⟨dealt, hbatch, fun t ht => h.through t (hdone t ht),
      fun t ht => h.at_batch_of_rest hw ht, h.tail_waiting hw, ?_⟩
    intro t tmp k hpc
    have hok := h.worker w hw
    rw [hpc] at hok
    obtain ⟨ts, hrest, -⟩ := hok
    rw [hrest]
    rfl
  length := by
    have h := placed_of_reach hr
    exact ⟨_, h.queue, by rw [h.length, List.length_map]⟩
  counts := (counted_of_reach hr).adds_up (placed_of_reach hr) (sound_of_pool hr)

theorem tasks_conserved_run : (oneWorkerAfter answeredRun).Conserved oneWorker :=
  tasks_conserved (reach_oneWorker (by decide))

/-- A task without a function, and a worker that takes it, passes over it and waits. -/
def passedOverRun : List TPoolAction :=
  [.addTask 0 none 0, .lengthTest 0 [], .alloc 0 true, .insert 0 true []] ++ works 9

/-- It has been added, and is in none of the other terms. -/
theorem added_and_nowhere :
    ∃ s, Reach (threadPoolSystem oneWorker) (fun _ a => a.NotExit) s ∧
      s.taskAdded = 1 ∧ s.taskSucceed = 0 ∧ s.tasksWith .skipped = ∅ ∧
      ∀ t, ¬ At oneWorker s t .queue ∧ ∀ w, ¬ At oneWorker s t (.batch w) := by
  have hr : Reach (threadPoolSystem oneWorker) (fun _ a => a.NotExit)
      (oneWorkerAfter passedOverRun) := reach_oneWorker (by decide)
  refine ⟨_, hr, by decide, by decide, ?_, ?_⟩
  · rw [Set.eq_empty_iff_forall_notMem]
    rintro t ⟨ht, hfate⟩
    have horder : (oneWorkerAfter passedOverRun).hist.order = [0] := by decide
    have hzero : (oneWorkerAfter passedOverRun).fate 0 = .passedOver := by decide
    rw [horder, List.mem_singleton] at ht
    rw [ht, hzero] at hfate
    simp at hfate
  · intro t
    constructor
    · rw [(placed_of_reach hr).at_queue]
      have hqueue : (oneWorkerAfter passedOverRun).hist.queue = [] := by decide
      simp [hqueue]
    · rintro w ⟨hw, hin, -⟩
      have hzero : w = 0 := Nat.lt_one_iff.mp hw
      have hwaiting : (oneWorkerAfter passedOverRun).worker 0 = .waiting := by decide
      rw [hzero, hwaiting] at hin
      simp [WorkerPc.inBatch] at hin

end MyWorkEnv
