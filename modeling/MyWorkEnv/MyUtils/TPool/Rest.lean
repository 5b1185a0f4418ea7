import MyWorkEnv.Lib.Rest
import MyWorkEnv.MyUtils.TPool.Sync
import MyWorkEnv.MyUtils.TPool.Wakeup

/-!
# The pool comes to rest

The threads that are in the pool, the callers as well as the workers, have only
so many steps left to take, whatever the order they take them in. When none of
them can go on, no call is left inside but for the waits for a task without a
function, the queue is empty, and every task that was added has been dealt with.
So no order of the steps ends in a deadlock, loses a task or runs forever.
-/

namespace MyWorkEnv

open Transition LinkedRing

/-! ## How much is left -/

/-- The steps left in the loop body, at most. -/
def BodyPc.rank : BodyPc → ℕ
  | .test => 11
  | .call => 10
  | .running => 9
  | .testAgain => 8
  | .teardown .destroyLock _ => 7
  | .teardown .destroyCond _ | .lockTask => 6
  | .teardown .freeLock _ | .signalTask => 5
  | .teardown .freeCond _ | .unlockTask => 4
  | .count => 3
  | .unlink => 2
  | .free => 1

theorem Task.bodyNext_rank {k : Task} {pc pc' : BodyPc} (h : k.bodyNext pc = some pc') :
    pc'.rank < pc.rank := by
  cases pc with
  | test =>
      simp only [bodyNext] at h
      split_ifs at h <;> cases h <;> decide
  | testAgain =>
      simp only [bodyNext] at h
      split_ifs at h <;> cases h <;> decide
  | teardown c skipped =>
      cases c <;> cases skipped <;> cases h <;> decide
  | _ => cases h <;> decide

/-- The price of a task in the queue: the turn it takes, and the signal that goes with it. -/
abbrev taskCost : ℕ := 17

/-- The steps left to a worker that has `rest` tasks before it. -/
def WorkerPc.rank (rest : ℕ) : WorkerPc → ℕ
  | .waiting | .exited => 0
  | .leaving => 1
  | .lockPool | .woken => 2
  | .whileTest => 3
  | .forEach _ _ => 4 + 13 * rest
  | .taken | .forStep _ => 5 + 13 * rest
  | .body _ _ k => 5 + 13 * (rest - 1) + k.rank

/-- The steps left to a call in a pool of `n` workers, with those it brings the workers:
a signal of `Cond` wakes up all of them at most. -/
def CallPc.rank (n : ℕ) : CallPc → ℕ
  | .idle | .returned _ => 0
  | .teardown .freeCond _ => 1
  | .teardown .freeLock _ => 2
  | .teardown .destroyCond _ => 3
  | .teardown .destroyLock _ => 4
  | .finish _ => 5
  | .unlock _ => 6
  | .held _ => 7
  | .woken _ => 8
  | .blocked => 9
  | .timedWait => 10
  | .waitInsert | .addInsert => 11 + taskCost + 2 * n
  | .waitAlloc | .addAlloc => 12 + taskCost + 2 * n
  | .addTest => 13 + taskCost + 4 * n

namespace Task

variable {k : Task} {n : ℕ}

theorem lengthTest_rank {busy : Bool} (hg : k.guard (.lengthTest busy) = true) :
    (k.next (.lengthTest busy)).call.pc.rank n + 2 * n < k.call.pc.rank n := by
  simp only [guard, beq_iff_eq] at hg
  rw [hg]
  cases busy <;> simp [next, lengthTest, goto, CallPc.rank] <;> omega

theorem alloc_rank {ok : Bool} (hg : k.guard (.alloc ok) = true) :
    (k.next (.alloc ok)).call.pc.rank n < k.call.pc.rank n := by
  simp only [guard, Bool.or_eq_true, beq_iff_eq] at hg
  rcases hg with hg | hg
  · cases ok <;> simp [next, alloc, hg, goto, CallPc.rank]
  · cases ok <;> simp [next, alloc, hg, goto, CallPc.rank]
    omega

theorem insert_rank {clockOk : Bool} (hg : k.guard (.insert clockOk) = true) :
    (k.next (.insert clockOk)).call.pc.rank n + taskCost + 2 * n < k.call.pc.rank n := by
  simp only [guard, Bool.or_eq_true, beq_iff_eq] at hg
  rcases hg with hg | hg <;> cases clockOk <;>
    simp [next, insert, hg, goto, CallPc.rank]

theorem caller_rank {a : CallerAction} (hg : k.mayCaller a = true) :
    (k.caller a).call.pc.rank n < k.call.pc.rank n := by
  cases a with
  | go =>
      cases hpc : k.call.pc with
      | timedWait => simp [caller, hpc, goto, CallPc.rank]
      | woken timedOut => simp [caller, hpc, goto, CallPc.rank]
      | held timedOut => cases timedOut <;> simp [caller, hpc, goto, CallPc.rank]
      | unlock ret => simp [caller, hpc, goto, CallPc.rank]
      | finish ret =>
          simp only [caller, hpc]
          split_ifs <;> simp [goto, CallPc.rank]
      | teardown c ret => cases c <;> simp [caller, hpc, goto, Teardown.next, CallPc.rank]
      | _ => simp [mayCaller, hpc] at hg
  | _ =>
      simp only [mayCaller, beq_iff_eq] at hg
      simp [caller, hg, goto, CallPc.rank]

theorem body_rank (pc : BodyPc) : (k.next (.body pc)).call.pc.rank n ≤ k.call.pc.rank n := by
  rcases k.next_body_call pc with heq | ⟨-, hblocked, heq⟩
  · rw [heq]
  · rw [heq, hblocked]
    simp [CallPc.rank]

end Task

/-! ## The steps lower it -/

/-- A step of a thread inside: no call begins, no worker wakes up spuriously, and nobody
sets a parameter or shuts the pool down. -/
def TPoolAction.Inside : TPoolAction → Bool
  | .lengthTest _ _ | .alloc _ _ | .insert _ _ _ | .caller _ _ | .worker _ => true
  | _ => false

namespace ThreadPool

variable {arg : TPoolModuleInitArg} {s : ThreadPool} {w t : ℕ} {F : Finset ℕ}

/-- All that is left to do; `F` are the calls to count. -/
def work (arg : TPoolModuleInitArg) (F : Finset ℕ) (s : ThreadPool) : ℕ :=
  ∑ t ∈ F, (s.task t).call.pc.rank arg.threadPoolSize +
    (∑ w ∈ Finset.range arg.threadPoolSize, (s.worker w).rank (s.hist.rest w).length +
      taskCost * s.hist.queue.length)

/-- The calls outside of `F` have nothing left to do. -/
def Covers (arg : TPoolModuleInitArg) (F : Finset ℕ) (s : ThreadPool) : Prop :=
  ∀ t, t ∉ F → (s.task t).call.pc.rank arg.threadPoolSize = 0

/-- What a worker does, it does to its own share and to the queue. -/
theorem examine_rest_of_ne {v : ℕ} (h : v ≠ w) : (s.examine w).hist.rest v = s.hist.rest v := by
  unfold examine
  split_ifs
  · rfl
  · exact Function.update_of_ne h _ _
  · rfl

theorem stepWorker_rest_of_ne {v : ℕ} (h : v ≠ w) :
    (s.stepWorker w).hist.rest v = s.hist.rest v := by
  unfold stepWorker
  cases s.worker w with
  | lockPool => exact examine_rest_of_ne (s := s.countIn) h
  | woken => exact examine_rest_of_ne h
  | forEach loop tmp =>
      simp only
      cases forEachTask w loop <;> rfl
  | body t tmp k =>
      simp only [body_hist]
      split
      · rfl
      · cases hrest : s.hist.rest w with
        | nil => simp [BatchQueue.State.drop, hrest]
        | cons t ts => simp [BatchQueue.State.drop_cons hrest, h]
  | _ => rfl

theorem setWorker_hist (pc : WorkerPc) : (s.setWorker w pc).hist = s.hist := rfl

/-- What a worker and the queue have left. -/
abbrev share (s : ThreadPool) (w : ℕ) : ℕ :=
  (s.worker w).rank (s.hist.rest w).length + taskCost * s.hist.queue.length

theorem examine_share (hp : s.Placed arg) :
    (s.examine w).share w < 2 + taskCost * s.hist.queue.length := by
  unfold examine
  split_ifs with hexit hempty
  · simp [share, setWorker_hist, WorkerPc.rank]
  · -- a batch is cheaper than its tasks in the queue
    have hne : s.hist.queue ≠ [] := by
      intro hnil
      have hempty' := (myListIsEmpty_iff hp.queue).mpr (by simp [hnil])
      simp [hempty'] at hempty
    have hpos : 0 < s.hist.queue.length := List.length_pos_iff.mpr hne
    simp only [share, takeAll, setWorker_self, BatchQueue.State.take, Function.update_self,
      WorkerPc.rank, List.length_nil, taskCost]
    omega
  · simp [share, setWorker_hist, WorkerPc.rank]

theorem stepWorker_share (hp : s.Placed arg) (ha : s.guard arg (.worker w) = true) :
    (s.stepWorker w).share w < s.share w := by
  have hok := hp.worker w (worker_lt ha)
  unfold stepWorker
  cases hpc : s.worker w with
  | lockPool =>
      have hp' : s.countIn.Placed arg := hp.quiet rfl rfl rfl rfl hp.worker hp.early
      simpa [share, hpc, WorkerPc.rank, countIn] using examine_share hp'
  | woken => simpa [share, hpc, WorkerPc.rank] using examine_share hp
  | whileTest =>
      simp only [share, setWorker_self, hpc]
      split_ifs <;> simp [setWorker, WorkerPc.rank]
  | taken => simp [share, hpc, setWorker, WorkerPc.rank, myListForEachInit]
  | forEach loop tmp =>
      rw [hpc] at hok
      simp only [share, hpc]
      rw [hok.1, forEachTask_ahead]
      cases hrest : s.hist.rest w with
      | nil => simp [setWorker, WorkerPc.rank]
      | cons t ts =>
          simp only [List.head?_cons, setWorker_self, setWorker_hist, act, hrest,
            List.length_cons, WorkerPc.rank, BodyPc.rank]
          omega
  | body t tmp k =>
      rw [hpc] at hok
      obtain ⟨ts, hrest, -⟩ := hok
      simp only [share, hpc, body_worker, Function.update_self, body_hist]
      cases hnext : (s.task t).bodyNext k with
      | some k' =>
          have hdrop := Task.bodyNext_rank hnext
          simp only [WorkerPc.rank]
          omega
      | none =>
          have hpos : 0 < k.rank := by
            rcases Task.bodyNext_none hnext with rfl | rfl <;> decide
          simp only [BatchQueue.State.drop_cons hrest, hrest, Function.update_self,
            WorkerPc.rank, List.length_cons]
          omega
  | forStep tmp => simp [share, hpc, setWorker, WorkerPc.rank]
  | leaving => simp [share, hpc, setWorker, WorkerPc.rank]
  | waiting => simp [guard, hpc] at ha
  | exited => simp [guard, hpc] at ha

/-! ### All threads together -/

/-- What the calls have left. -/
abbrev callWork (arg : TPoolModuleInitArg) (F : Finset ℕ) (s : ThreadPool) : ℕ :=
  ∑ t ∈ F, (s.task t).call.pc.rank arg.threadPoolSize

abbrev workerWork (arg : TPoolModuleInitArg) (s : ThreadPool) : ℕ :=
  ∑ w ∈ Finset.range arg.threadPoolSize, (s.worker w).rank (s.hist.rest w).length

theorem Covers.mem (h : Covers arg F s) (hrank : 0 < (s.task t).call.pc.rank arg.threadPoolSize) :
    t ∈ F := by
  by_contra hnot
  exact hrank.ne' (h t hnot)

/-- The other calls stay where they are. -/
theorem callWork_act (arg : TPoolModuleInitArg) (hb : Covers arg F s) {m : TaskAction} {c : ℕ}
    (hdrop : ((s.task t).next m).call.pc.rank arg.threadPoolSize + c <
      (s.task t).call.pc.rank arg.threadPoolSize) :
    callWork arg F (s.act t m) + c < callWork arg F s := by
  refine sum_drop (d := 0) (hb.mem (Nat.zero_lt_of_lt hdrop)) ?_ ?_
  · intro u _ hu
    simp [act, hu]
  · simpa [act] using hdrop

theorem workerWork_signal (arg : TPoolModuleInitArg) (s : ThreadPool) (woke : List ℕ) :
    workerWork arg (s.signal woke) ≤ workerWork arg s + 2 * arg.threadPoolSize := by
  have hsum : workerWork arg (s.signal woke) ≤ workerWork arg s +
      (Finset.range arg.threadPoolSize).card * 2 := by
    apply sum_le_add
    intro w _
    by_cases hw : w ∈ woke
    · simp [signal, hw, WorkerPc.rank]
    · simp [signal, hw]
  rw [Finset.card_range] at hsum
  omega

/-- A worker has no more for a call to do. -/
theorem worker_call_rank {m : TaskAction} {n : ℕ} (hm : s.taskAction (.worker w) = some (t, m)) :
    ((s.task t).next m).call.pc.rank n ≤ (s.task t).call.pc.rank n := by
  cases hpc : s.worker w with
  | forEach loop tmp =>
      simp only [taskAction, hpc] at hm
      cases hfor : forEachTask w loop with
      | none => simp [hfor] at hm
      | some u =>
          simp only [hfor, Option.some.injEq, Prod.mk.injEq] at hm
          obtain ⟨rfl, rfl⟩ := hm
          exact le_rfl
  | body u tmp k =>
      simp only [taskAction, hpc, Option.some.injEq, Prod.mk.injEq] at hm
      obtain ⟨rfl, rfl⟩ := hm
      exact Task.body_rank k
  | _ => simp [taskAction, hpc] at hm

theorem stepWorker_calls (s : ThreadPool) (w : ℕ) :
    callWork arg F (s.stepWorker w) ≤ callWork arg F s := by
  apply Finset.sum_le_sum
  intro u _
  rw [stepWorker_task]
  cases hm : s.taskAction (.worker w) with
  | none => exact le_rfl
  | some tm =>
      obtain ⟨t, m⟩ := tm
      by_cases hut : u = t
      · subst hut
        simp only [acted, Function.update_self]
        exact worker_call_rank hm
      · simp only [acted, Function.update_of_ne hut]
        exact le_rfl

theorem work_drops (hp : s.Placed arg) (hb : Covers arg F s) {a : TPoolAction}
    (ha : s.guard arg a = true) (hin : a.Inside = true) :
    work arg F (s.next a) < work arg F s := by
  cases a with
  | lengthTest t woke =>
      simp only [guard, Bool.and_eq_true] at ha
      have hg : (s.task t).guard (.lengthTest s.isFull) = true := ha.1
      have hcalls := callWork_act arg hb (Task.lengthTest_rank hg)
      have hworkers := workerWork_signal arg (s.act t (.lengthTest s.isFull)) woke
      have hsame : workerWork arg (s.act t (.lengthTest s.isFull)) = workerWork arg s := rfl
      show callWork arg F (s.act t (.lengthTest s.isFull)) +
        (workerWork arg ((s.act t (.lengthTest s.isFull)).signal woke) +
          taskCost * s.hist.queue.length) <
        callWork arg F s + (workerWork arg s + taskCost * s.hist.queue.length)
      omega
  | alloc t ok =>
      have hg : (s.task t).guard (.alloc ok) = true := ha
      exact Nat.add_lt_add_right
        (callWork_act arg (c := 0) hb (Task.alloc_rank (n := arg.threadPoolSize) hg)) _
  | insert t clockOk woke =>
      simp only [guard, Bool.and_eq_true] at ha
      have hcalls := callWork_act arg hb
        (by simpa only [Nat.add_assoc] using Task.insert_rank ha.1)
      by_cases henq : s.enqueues t clockOk = true
      · have hworkers := workerWork_signal arg (s.act t (.insert clockOk)) woke
        have hsame : workerWork arg (s.act t (.insert clockOk)) = workerWork arg s := rfl
        rw [next_insert henq]
        show callWork arg F (s.act t (.insert clockOk)) +
          (workerWork arg ((s.act t (.insert clockOk)).signal woke) +
            taskCost * (s.hist.put t).queue.length) <
          callWork arg F s + (workerWork arg s + taskCost * s.hist.queue.length)
        simp only [BatchQueue.State.put, List.length_append, List.length_singleton,
          Nat.mul_succ]
        omega
      · rw [next_insert_refused henq]
        exact Nat.add_lt_add_right ((Nat.le_add_right _ _).trans_lt hcalls) _
  | caller t c =>
      exact Nat.add_lt_add_right
        (callWork_act arg (c := 0) (m := .caller c) hb (Task.caller_rank ha)) _
  | worker w =>
      have hcalls : callWork arg F (s.stepWorker w) ≤ callWork arg F s := stepWorker_calls s w
      have hshare := stepWorker_share hp ha
      have hworkers : workerWork arg (s.stepWorker w) +
          taskCost * (s.stepWorker w).hist.queue.length <
            workerWork arg s + taskCost * s.hist.queue.length := by
        refine sum_drop (Finset.mem_range.mpr (worker_lt ha)) ?_ hshare
        intro v _ hv
        rw [stepWorker_of_ne hv, stepWorker_rest_of_ne hv]
      show callWork arg F (s.stepWorker w) + (_ + _) < _
      exact Nat.add_lt_add_of_le_of_lt hcalls hworkers
  | _ => simp [TPoolAction.Inside] at hin

/-! ### The calls to count -/

theorem inside_call_rank {a : TPoolAction} {m : TaskAction} (ha : s.guard arg a = true)
    (hin : a.Inside = true) (hm : s.taskAction a = some (t, m)) :
    ((s.task t).next m).call.pc.rank arg.threadPoolSize ≤
      (s.task t).call.pc.rank arg.threadPoolSize := by
  cases a with
  | lengthTest u woke =>
      obtain ⟨rfl, rfl⟩ := by simpa [taskAction] using hm
      simp only [guard, Bool.and_eq_true] at ha
      exact (Nat.le_add_right _ _).trans (Task.lengthTest_rank ha.1).le
  | alloc u ok =>
      obtain ⟨rfl, rfl⟩ := by simpa [taskAction] using hm
      exact (Task.alloc_rank ha).le
  | insert u clockOk woke =>
      obtain ⟨rfl, rfl⟩ := by simpa [taskAction] using hm
      simp only [guard, Bool.and_eq_true] at ha
      have hdrop := Task.insert_rank (n := arg.threadPoolSize) ha.1
      omega
  | caller u c =>
      obtain ⟨rfl, rfl⟩ := by simpa [taskAction] using hm
      exact (Task.caller_rank ha).le
  | worker w => exact worker_call_rank hm
  | _ => simp [TPoolAction.Inside] at hin

/-- The steps inside begin no call. -/
theorem Covers.next (hb : Covers arg F s) {a : TPoolAction} (ha : s.guard arg a = true)
    (hin : a.Inside = true) : Covers arg F (s.next a) := by
  intro u hu
  rw [next_task]
  cases hm : s.taskAction a with
  | none => exact hb u hu
  | some tm =>
      obtain ⟨t, m⟩ := tm
      by_cases hut : u = t
      · subst hut
        have hle := inside_call_rank ha hin hm
        rw [hb u hu] at hle
        simpa [acted] using hle
      · simp only [acted, Function.update_of_ne hut]
        exact hb u hu

theorem covers_of_reach {P : ThreadPool → TPoolAction → Prop}
    (hr : Reach (threadPoolSystem arg) P s) : ∃ F, Covers arg F s := by
  refine hr.invariant (I := fun s => ∃ F, Covers arg F s) ?_ ?_
  · rintro s ⟨L, rfl⟩
    exact ⟨∅, fun _ _ => rfl⟩
  · rintro s a ⟨F, hb⟩ - -
    have hothers : ∀ u, (∀ m, s.taskAction a ≠ some (u, m)) → (s.next a).task u = s.task u := by
      intro u hu
      rw [next_task]
      cases hm : s.taskAction a with
      | none => rfl
      | some tm =>
          refine Function.update_of_ne ?_ _ _
          rintro rfl
          exact hu tm.2 hm
    cases hm : s.taskAction a with
    | none =>
        refine ⟨F, fun u hu => ?_⟩
        show ((s.next a).task u).call.pc.rank _ = 0
        rw [hothers u (by simp [hm])]
        exact hb u hu
    | some tm =>
        refine ⟨F ∪ {tm.1}, fun u hu => ?_⟩
        rw [Finset.mem_union, Finset.mem_singleton, not_or] at hu
        show ((s.next a).task u).call.pc.rank _ = 0
        rw [hothers u]
        · exact hb u hu.1
        · intro m hm'
          rw [hm, Option.some.injEq] at hm'
          exact hu.2 (congrArg Prod.fst hm').symm

/-- The steps inside are bounded. -/
theorem measure (arg : TPoolModuleInitArg) (F : Finset ℕ) :
    Measure (threadPoolSystem arg) (fun _ a => a.Inside = true)
      (fun s => Reach (threadPoolSystem arg) (fun _ a => a.NotExit) s ∧ Covers arg F s)
      (work arg F) where
  keeps := by
    rintro s a ⟨hr, hb⟩ ha hin
    have hexit : a.NotExit := by
      rintro rfl
      simp [TPoolAction.Inside] at hin
    exact ⟨.step hr ha hexit, hb.next ha hin⟩
  drops := by
    rintro s a ⟨hr, hb⟩ ha hin
    exact work_drops (placed_of_reach hr) hb ha hin

end ThreadPool

namespace Task

variable {k : Task}

/-! ## Neither side waits for the other -/

/-- `TaskLock` is held by a side that can go on, and a caller that waits will be signalled
unless the worker passes over its node. -/
structure Heard (k : Task) : Prop where
  fresh : k.call.pc.early = true → k.node.taskStat ≠ .timeout
  callerLocks : k.lockOwner = some .caller → k.call.pc.locks = true
  holds : k.call.pc.locks = true → k.lockOwner = some .caller ∨ k.stage = .outside
  workerLocks : k.lockOwner = some .worker ↔ k.stage.locks = true
  listens : k.call.pc = .timedWait ∨ k.call.pc = .blocked →
    (k.stage.unsignalled = true ∨ k.stage = .passed) ∧ k.node.hasTimeOut = true ∧
      k.node.taskStat ≠ .timeout

/-- Where the caller neither has `TaskLock` nor waits. -/
theorem Heard.of_away {k' : Task} (h : k.Heard) (hpc : k'.call.pc.early = false)
    (hlocks : k'.call.pc.locks = false) (hblocked : k'.call.pc ≠ .blocked)
    (howner : k'.lockOwner = none ∧ k.stage.locks = false ∨
      k'.lockOwner = k.lockOwner ∧ k.call.pc.locks = false)
    (hstage : k'.stage = k.stage) : k'.Heard where
  fresh hearly := by simp [hpc] at hearly
  callerLocks hown := by
    rcases howner with ⟨hnone, -⟩ | ⟨hsame, hfalse⟩
    · simp [hnone] at hown
    · have hlocked := h.callerLocks (hsame ▸ hown)
      simp [hfalse] at hlocked
  holds hlocked := by simp [hlocks] at hlocked
  workerLocks := by
    rw [hstage]
    rcases howner with ⟨hnone, hfalse⟩ | ⟨hsame, -⟩
    · simp [hnone, hfalse]
    · rw [hsame]
      exact h.workerLocks
  listens hor := by
    rcases hor with heq | heq
    · simp [heq, CallPc.locks] at hlocks
    · exact absurd heq hblocked

theorem Heard.unlocked (h : k.Heard) (hpc : k.call.pc.locks = true) : k.stage.locks = false := by
  rcases h.holds hpc with hown | hout
  · by_contra hlocks
    have hown' := h.workerLocks.mpr (by simpa using hlocks)
    simp [hown] at hown'
  · simp [hout, Stage.locks]

theorem Heard.caller (h : k.Heard) {a : CallerAction} (hg : k.mayCaller a = true) :
    (k.next (.caller a)).Heard := by
  show (k.caller a).Heard
  cases a with
  | timeout =>
      simp only [mayCaller, beq_iff_eq] at hg
      exact h.of_away rfl rfl (by simp [Task.caller, goto])
        (.inr ⟨rfl, by simp [hg, CallPc.locks]⟩) rfl
  | spurious =>
      simp only [mayCaller, beq_iff_eq] at hg
      exact h.of_away rfl rfl (by simp [Task.caller, goto])
        (.inr ⟨rfl, by simp [hg, CallPc.locks]⟩) rfl
  | go =>
      cases hpc : k.call.pc with
      | timedWait =>
          have hunlocked := h.unlocked (by simp [hpc, CallPc.locks])
          have hlistens := h.listens (.inl hpc)
          simp only [Task.caller, hpc]
          constructor <;> simp_all [goto, CallPc.early, CallPc.locks]
      | woken timedOut =>
          simp only [mayCaller, hpc, Option.isNone_iff_eq_none] at hg
          have hunlocked : k.stage.locks = false := by
            by_contra hlocks
            have hown := h.workerLocks.mpr (by simpa using hlocks)
            simp [hg] at hown
          simp only [Task.caller, hpc]
          constructor <;> simp_all [goto, CallPc.early, CallPc.locks]
      | held timedOut =>
          have hholds := h.holds (by simp [hpc, CallPc.locks])
          have hworker := h.workerLocks
          cases timedOut <;> simp only [Task.caller, hpc] <;> constructor <;>
            simp_all [goto, CallPc.early, CallPc.locks]
      | unlock ret =>
          have hunlocked := h.unlocked (by simp [hpc, CallPc.locks])
          simp only [Task.caller, hpc]
          exact h.of_away rfl rfl (by simp [goto]) (.inl ⟨rfl, hunlocked⟩) rfl
      | finish ret =>
          simp only [Task.caller, hpc]
          split_ifs
          · exact h.of_away rfl rfl (by simp [goto]) (.inr ⟨rfl, by simp [hpc, CallPc.locks]⟩) rfl
          · exact h.of_away rfl rfl (by simp [goto]) (.inr ⟨rfl, by simp [hpc, CallPc.locks]⟩) rfl
      | teardown c ret =>
          simp only [Task.caller, hpc]
          refine h.of_away ?_ ?_ ?_ (.inr ⟨by simp [goto], by simp [hpc, CallPc.locks]⟩) (by simp)
          · cases c <;> rfl
          · cases c <;> rfl
          · cases c <;> simp [goto, Teardown.next]
      | _ => simp [mayCaller, hpc] at hg

/-- Before the section that enqueues nobody has `TaskLock`. -/
theorem Heard.free_of_early (hs : k.Sound) (h : k.Heard) (hpc : k.call.pc.early = true) :
    k.lockOwner = none := by
  have hout := hs.early hpc
  cases hown : k.lockOwner with
  | none => rfl
  | some o =>
      cases o with
      | caller =>
          have hlocked := h.callerLocks hown
          cases hk : k.call.pc <;> simp_all [CallPc.early, CallPc.locks]
      | worker =>
          have hlocked := h.workerLocks.mp hown
          simp [hout, Stage.locks] at hlocked

theorem Heard.of_free {k' : Task} (hfresh : k'.call.pc.early = true → k'.node.taskStat ≠ .timeout)
    (hown : k'.lockOwner = none) (hlocks : k'.call.pc.locks = false)
    (hblocked : k'.call.pc ≠ .blocked) (hstage : k'.stage.locks = false) : k'.Heard where
  fresh := hfresh
  callerLocks h := by simp [hown] at h
  holds h := by simp [hlocks] at h
  workerLocks := by simp [hown, hstage]
  listens h := by
    rcases h with heq | heq
    · simp [heq, CallPc.locks] at hlocks
    · exact absurd heq hblocked

theorem Heard.insert (hs : k.Sound) (h : k.Heard) {clockOk : Bool}
    (hg : k.guard (.insert clockOk) = true) : (k.next (.insert clockOk)).Heard := by
  have hearly := early_of_insert hg
  have hfree := h.free_of_early hs hearly
  have hfresh := h.fresh hearly
  have hout := hs.early hearly
  simp only [guard, Bool.or_eq_true, beq_iff_eq] at hg
  rcases hg with hg | hg
  · simp only [next, Task.insert, hg]
    exact .of_free (by simp [goto, CallPc.early]) hfree rfl (by simp [goto]) rfl
  · have hsync := hs.sync true (by rw [hg]; rfl)
    have hfilled := hs.filled (.inr (.inr hg))
    cases clockOk with
    | true =>
        simp only [next, Task.insert, hg, if_true]
        constructor <;> simp_all [CallPc.early, CallPc.locks, Stage.locks, Stage.unsignalled,
          Stage.beforeTests, Filled]
    | false =>
        simp only [next, Task.insert, hg, Bool.false_eq_true, if_false]
        constructor <;> simp_all [goto, CallPc.early, CallPc.locks, Stage.locks]

/-- A step of the body outside of the section of `TaskLock`. -/
theorem Heard.turn (h : k.Heard) {pc : BodyPc} (hstage : k.stage = .inBody pc)
    (hunlocked : k.stage.locks = false) (hcall : (k.next (.body pc)).call = k.call)
    (hown : (k.next (.body pc)).lockOwner = k.lockOwner)
    (hlocks : (k.next (.body pc)).stage.locks = false)
    (hlistens : k.stage.unsignalled = true → k.node.hasTimeOut = true → k.isTimeout = false →
      (k.next (.body pc)).stage.unsignalled = true ∨ (k.next (.body pc)).stage = .passed) :
    (k.next (.body pc)).Heard where
  fresh hearly := by
    rw [hcall] at hearly
    have hnode : (k.next (.body pc)).node = k.node := bodyEffect_node pc
    rw [hnode]
    exact h.fresh hearly
  callerLocks := by
    rw [hown, hcall]
    exact h.callerLocks
  holds hlocked := by
    rw [hcall] at hlocked
    rw [hown]
    exact .inl ((h.holds hlocked).resolve_right (by simp [hstage]))
  workerLocks := by
    rw [hown, h.workerLocks, hlocks, hunlocked]
  listens hor := by
    rw [hcall] at hor
    have hnode : (k.next (.body pc)).node = k.node := bodyEffect_node pc
    obtain ⟨hwaits, htime, hstat⟩ := h.listens hor
    rw [hnode]
    refine ⟨hlistens (hwaits.resolve_right (by simp [hstage])) htime ?_, htime, hstat⟩
    simp [isTimeout, hstat]

/-- The worker comes to the signal, or passes over the node. -/
theorem Heard.body (h : k.Heard) {pc : BodyPc} (hg : k.guard (.body pc) = true) :
    (k.next (.body pc)).Heard := by
  simp only [guard, Bool.and_eq_true, beq_iff_eq] at hg
  obtain ⟨hstage, hmay⟩ := hg
  have hnext := k.body_stage pc
  cases pc with
  | lockTask =>
      have hfree : k.lockOwner = none := by simpa [mayBody] using hmay
      have hholds := h.holds
      have hlistens := h.listens
      have hfresh := h.fresh
      constructor <;> simp_all [Task.next, Task.body, bodyNext, bodyEffect, Stage.locks,
        Stage.unsignalled]
  | signalTask =>
      have hown := h.workerLocks.mpr (by rw [hstage]; rfl)
      have hholds := h.holds
      have hfresh := h.fresh
      by_cases hblocked : k.call.pc = .blocked
      · constructor <;> simp_all [Task.next, Task.body, bodyNext, bodyEffect, Stage.locks, goto,
          CallPc.early, CallPc.locks]
      · have htimed : k.call.pc ≠ .timedWait := by
          intro hpc
          simp_all [CallPc.locks]
        constructor <;> simp_all [Task.next, Task.body, bodyNext, bodyEffect, Stage.locks]
  | unlockTask =>
      have hown := h.workerLocks.mpr (by rw [hstage]; rfl)
      have hholds := h.holds
      have hlistens := h.listens
      have hfresh := h.fresh
      constructor <;> simp_all [Task.next, Task.body, bodyNext, bodyEffect, Stage.locks,
        Stage.unsignalled, Stage.beforeTests]
  | test =>
      refine h.turn hstage (by rw [hstage]; rfl) ?_ ?_ ?_ ?_
      · exact (k.next_body_call _).resolve_right (by simp)
      · simp only [Task.next, Task.body, bodyEffect]
        split_ifs <;> rfl
      · rw [hnext]
        simp only [bodyNext]
        split_ifs <;> rfl
      · intro _ _ htime
        rw [hnext]
        by_cases hnull : k.node.taskFunc.isNone = true
        · simp [bodyNext, hnull]
        · simp [bodyNext, hnull, htime, Stage.unsignalled, Stage.beforeTests]
  | testAgain =>
      refine h.turn hstage (by rw [hstage]; rfl) rfl rfl ?_ ?_
      · rw [hnext]
        simp only [bodyNext]
        split_ifs <;> rfl
      · intro _ hhas htime
        rw [hnext]
        simp [bodyNext, hhas, htime, Stage.unsignalled]
  | teardown c skipped =>
      refine h.turn hstage (by rw [hstage]; rfl) ?_ ?_ ?_ ?_
      · exact (k.next_body_call _).resolve_right (by simp)
      · exact tear_lockOwner c
      · rw [hnext]
        cases c <;> cases skipped <;> rfl
      · rw [hstage]
        simp [Stage.unsignalled, Stage.beforeTests]
  | _ =>
      refine h.turn hstage (by rw [hstage]; rfl) rfl rfl (by rw [hnext]; rfl) ?_
      rw [hstage, hnext]
      simp [bodyNext, Stage.unsignalled, Stage.beforeTests]

theorem Heard.next (hs : k.Sound) (h : k.Heard) {a : TaskAction} (hg : k.guard a = true) :
    (k.next a).Heard := by
  cases a with
  | start sync taskFunc taskArg refused =>
      have hearly := early_of_start hg
      have hfree := h.free_of_early hs hearly
      refine .of_free (fun _ => h.fresh hearly) hfree ?_ ?_ ?_
      · cases sync <;> cases refused <;> rfl
      · cases sync <;> cases refused <;> simp [Task.next, start]
      · rw [Task.next, start_stage, hs.early hearly]
        rfl
  | lengthTest busy =>
      have hearly := early_of_lengthTest hg
      have hfree := h.free_of_early hs hearly
      refine .of_free (fun _ => h.fresh hearly) hfree ?_ ?_ ?_
      · cases busy <;> rfl
      · cases busy <;> simp [Task.next, lengthTest, goto]
      · rw [Task.next, lengthTest_stage, hs.early hearly]
        rfl
  | alloc ok =>
      have hearly := early_of_alloc hg
      have hfree := h.free_of_early hs hearly
      have hout := hs.early hearly
      simp only [guard, Bool.or_eq_true, beq_iff_eq] at hg
      rcases hg with hg | hg <;> cases ok <;> simp only [Task.next, alloc, hg] <;>
        exact .of_free (by simp [goto, CallPc.early]) hfree rfl (by simp [goto])
          (by simp [hout, Stage.locks])
  | insert clockOk => exact h.insert hs hg
  | caller c => exact h.caller hg
  | enter =>
      simp only [guard, beq_iff_eq] at hg
      have hworker := h.workerLocks
      have hholds := h.holds
      have hlistens := h.listens
      constructor <;> simp_all [Task.next, Stage.locks, Stage.unsignalled, Stage.beforeTests]
      · exact h.fresh
      · exact h.callerLocks
  | body pc => exact h.body hg

theorem heard_of_reach {P : Task → TaskAction → Prop} (hr : Reach taskSystem P k) :
    k.Heard := by
  refine hr.invariant_of (fun k hk => sound_of_reach hk) ?_ ?_
  · rintro k rfl
    exact .of_free (by simp [Task.init]) rfl rfl (by simp [Task.init]) rfl
  · intro k a hs h hg _
    exact h.next hs hg

end Task

/-! ## At rest -/

/-- A step that waits for nobody else: neither the end of a timed wait. -/
def TPoolAction.Own : TPoolAction → Bool
  | .caller _ a => a == .go
  | a => a.Inside

theorem TPoolAction.inside_of_own {a : TPoolAction} (h : a.Own = true) : a.Inside = true := by
  cases a <;> first | rfl | exact h

namespace ThreadPool

variable {arg : TPoolModuleInitArg} {s : ThreadPool} {w t : ℕ}

/-- Nothing is left to do. -/
structure Quiescent (arg : TPoolModuleInitArg) (s : ThreadPool) : Prop where
  empty : myListIsEmpty s.links .taskListHead = true
  asleep : ∀ w < arg.threadPoolSize, s.worker w = .waiting
  dealt : ∀ t ∈ s.hist.order, (s.task t).fate ≠ .pending
  calls : ∀ t, (s.task t).call.pc = .idle ∨ (∃ ret, (s.task t).call.pc = .returned ret) ∨
    (s.task t).call.pc = .blocked ∧ (s.task t).call.taskFunc = none

theorem exists_wake (arg : TPoolModuleInitArg) (s : ThreadPool) :
    ∃ woke, s.mayWake arg woke = true := by
  by_cases hwait : ∃ w < arg.threadPoolSize, s.worker w = .waiting
  · obtain ⟨w, hw, hpc⟩ := hwait
    exact ⟨[w], by simp [mayWake, hw, hpc]⟩
  · refine ⟨[], ?_⟩
    simp only [not_exists, not_and] at hwait
    simpa [mayWake] using hwait

/-- No worker leaves a pool that is not shut down. -/
def Staying (s : ThreadPool) : Prop := ∀ w, s.worker w ≠ .leaving ∧ s.worker w ≠ .exited

theorem stepWorker_staying (hexit : s.exit = false) (h : s.Staying) (w : ℕ) :
    (s.stepWorker w).worker w ≠ .leaving ∧ (s.stepWorker w).worker w ≠ .exited := by
  have hexamine : ∀ x : ThreadPool, x.exit = false →
      (x.examine w).worker w ≠ .leaving ∧ (x.examine w).worker w ≠ .exited := by
    intro x hx
    unfold examine
    rw [if_neg (by simp [hx])]
    split_ifs <;> simp [takeAll, setWorker]
  have hstays := h w
  unfold stepWorker
  cases hpc : s.worker w with
  | lockPool => exact hexamine s.countIn hexit
  | woken => exact hexamine s hexit
  | forEach loop tmp =>
      simp only
      cases forEachTask w loop <;> simp
  | body t tmp k =>
      simp only [body_worker, Function.update_self]
      cases (s.task t).bodyNext k <;> simp
  | leaving => exact absurd hpc hstays.1
  | exited => exact absurd hpc hstays.2
  | _ => simp [hexit, hpc]

theorem Staying.next (h : s.Staying) (hexit : s.exit = false) {a : TPoolAction}
    (ha : s.guard arg a = true) : (s.next a).Staying := by
  intro w
  rcases next_worker ha w with heq | ⟨-, heq⟩ | rfl
  · rw [heq]
    exact h w
  · simp [heq]
  · exact stepWorker_staying hexit h w

theorem staying_of_reach (hr : Reach (threadPoolSystem arg) (fun _ a => a.NotExit) s) :
    s.Staying := by
  refine hr.invariant_of (fun s hs => (attentive_of_reach hs).running) ?_ ?_
  · rintro s ⟨L, rfl⟩ w
    simp [ThreadPool.init]
  · intro s a hexit h ha _
    exact h.next hexit ha

theorem heard_of_pool {P : ThreadPool → TPoolAction → Prop}
    (hr : Reach (threadPoolSystem arg) P s) (t : ℕ) : (s.task t).Heard := by
  have hall : Reach (threadPoolSystem arg) (OnTask t fun _ _ => True) s := by
    apply hr.mono
    intro s a _
    unfold OnTask
    split
    · exact fun _ => trivial
    · trivial
  exact Task.heard_of_reach (task_of_reach hall)

/-- No thread inside can go on. -/
abbrev Resting (arg : TPoolModuleInitArg) (s : ThreadPool) : Prop :=
  AtRest (threadPoolSystem arg) (fun _ a => a.Own = true) s

/-- A caller that has `TaskLock` can go on. -/
theorem Resting.free (hrest : s.Resting arg) (hh : (s.task t).Heard)
    (hstage : (s.task t).stage.locks = false) : (s.task t).lockOwner = none := by
  cases hown : (s.task t).lockOwner with
  | none => rfl
  | some o =>
      exfalso
      cases o with
      | worker =>
          have hlocks := hh.workerLocks.mp hown
          simp [hstage] at hlocks
      | caller =>
          have hlocks := hh.callerLocks hown
          refine hrest (.caller t .go) ?_ rfl
          show (s.task t).mayCaller .go = true
          cases hpc : (s.task t).call.pc <;> simp_all [CallPc.locks, Task.mayCaller]

theorem Resting.asleep (hrest : s.Resting arg) (hp : s.Placed arg) (hstay : s.Staying)
    (hh : ∀ t, (s.task t).Heard) (hw : w < arg.threadPoolSize) : s.worker w = .waiting := by
  by_contra hne
  refine hrest (.worker w) ?_ rfl
  show s.guard arg (.worker w) = true
  have hok := hp.worker w hw
  cases hpc : s.worker w with
  | waiting => exact absurd hpc hne
  | exited => exact absurd hpc (hstay w).2
  | body t tmp k =>
      rw [hpc] at hok
      obtain ⟨ts, -, -, -, hstage, -⟩ := hok
      have hstage' : (s.task t).stage = .inBody k := hstage
      cases k with
      | lockTask =>
          have hfree := hrest.free (hh t) (by rw [hstage']; rfl)
          simp [guard, hpc, hw, Task.mayBody, hfree]
      | _ => simp [guard, hpc, hw, Task.mayBody]
  | _ => simp [guard, hpc, hw]

/-- Where all workers sleep, and nothing is queued, the enqueued tasks are dealt with. -/
theorem Placed.through_of_asleep (hp : s.Placed arg)
    (hasleep : ∀ w < arg.threadPoolSize, s.worker w = .waiting) (hqueue : s.hist.queue = [])
    (ht : t ∈ s.hist.order) : (s.task t).stage = .passed ∨ (s.task t).stage = .done := by
  rw [hp.wf.mem_iff, hqueue] at ht
  rcases ht with ht | ⟨w, hw, ht⟩ | ht
  · simp at ht
  · have hok := hp.worker w hw
    rw [hasleep w hw] at hok
    have hnil : s.hist.rest w = [] := hok
    simp [hnil] at ht
  · exact hp.through t ht

theorem Resting.calls (hrest : s.Resting arg) (hs : (s.task t).Sound) (hh : (s.task t).Heard)
    (hplace : (s.task t).stage = .outside ∨ (s.task t).stage = .passed ∨
      (s.task t).stage = .done) :
    (s.task t).call.pc = .idle ∨ (∃ ret, (s.task t).call.pc = .returned ret) ∨
      (s.task t).call.pc = .blocked ∧ (s.task t).call.taskFunc = none := by
  have hgo : ¬ (s.task t).mayCaller .go = true := fun ha => hrest (.caller t .go) ha rfl
  obtain ⟨woke, hwoke⟩ := exists_wake arg s
  cases hpc : (s.task t).call.pc with
  | idle => exact .inl rfl
  | returned ret => exact .inr (.inl ⟨ret, rfl⟩)
  | addTest =>
      by_cases hfull : s.isFull = true
      · exact absurd rfl (hrest (.lengthTest t woke) (by
          show s.guard arg _ = true
          simp [guard, hpc, hfull, hwoke]))
      · exact absurd rfl (hrest (.lengthTest t []) (by
          show s.guard arg _ = true
          simp [guard, hpc, hfull]))
  | addAlloc =>
      exact absurd rfl (hrest (.alloc t true) (by
        show s.guard arg _ = true
        simp [guard, Task.guard, hpc]))
  | waitAlloc =>
      exact absurd rfl (hrest (.alloc t true) (by
        show s.guard arg _ = true
        simp [guard, Task.guard, hpc]))
  | addInsert =>
      exact absurd rfl (hrest (.insert t true woke) (by
        show s.guard arg _ = true
        simp [guard, Task.guard, enqueues, hpc, hwoke]))
  | waitInsert =>
      exact absurd rfl (hrest (.insert t true woke) (by
        show s.guard arg _ = true
        simp [guard, Task.guard, enqueues, hpc, hwoke]))
  | blocked =>
      right; right
      refine ⟨rfl, ?_⟩
      have hpassed : (s.task t).stage = .passed := by
        rcases (hh.listens (.inr hpc)).1 with hun | hpassed
        · rcases hplace with h | h | h <;> simp [h, Stage.unsignalled, Stage.beforeTests] at hun
        · exact hpassed
      have hlogged := hs.logged
      rw [hpassed] at hlogged
      have hnull : (s.task t).node.taskFunc = none := hlogged.1
      have hfilled := hs.filled (.inl (by simp [hpassed]))
      rw [← hfilled.1]
      exact hnull
  | woken timedOut =>
      refine absurd ?_ hgo
      have hfree := hrest.free hh (by rcases hplace with h | h | h <;> rw [h] <;> rfl)
      simp [Task.mayCaller, hpc, hfree]
  | _ => exact absurd (by simp [Task.mayCaller, hpc]) hgo

theorem quiescent_of_rest (hr : Reach (threadPoolSystem arg) (fun _ a => a.NotExit) s)
    (hsize : 0 < arg.threadPoolSize) (hrest : s.Resting arg) : s.Quiescent arg := by
  have hp := placed_of_reach hr
  have hs := sound_of_pool hr
  have hh := heard_of_pool hr
  have hasleep : ∀ w < arg.threadPoolSize, s.worker w = .waiting := fun w hw =>
    hrest.asleep hp (staying_of_reach hr) hh hw
  have hqueue : s.hist.queue = [] := by
    by_contra hne
    obtain ⟨v, hv, hwoken⟩ := (attentive_of_reach hr).awake hne ⟨0, hsize, hasleep 0 hsize⟩
    simp [hasleep v hv] at hwoken
  have hthrough : ∀ t ∈ s.hist.order, (s.task t).stage = .passed ∨ (s.task t).stage = .done :=
    fun t ht => hp.through_of_asleep hasleep hqueue ht
  refine ⟨(myListIsEmpty_iff hp.queue).mpr (by simp [hqueue]), hasleep, ?_, ?_⟩
  · intro t ht
    have hlogged := (hs t).logged
    rcases hthrough t ht with h | h
    · rw [h] at hlogged
      simp [hlogged.2.2.2.1]
    · rw [h] at hlogged
      rcases hlogged.2 with hlog | hlog <;> simp [hlog.2.2.1]
  · intro t
    refine hrest.calls (hs t) (hh t) ?_
    by_cases ht : t ∈ s.hist.order
    · exact .inr (hthrough t ht)
    · exact .inl (hp.outside t ht)

end ThreadPool

open ThreadPool

variable {arg : TPoolModuleInitArg} {s : ThreadPool}

/-- **The pool comes to rest.** Whatever state it is in, the threads inside have a bounded
number of steps left, and can take all of them; once none of them can go on, everything
that was added has been dealt with and every call is back, but for those that wait for no
function. -/
theorem pool_comes_to_rest (hsize : 0 < arg.threadPoolSize)
    (hr : Reach (threadPoolSystem arg) (fun _ a => a.NotExit) s) :
    (∃ bound, ∀ as, Legal (threadPoolSystem arg) (fun _ a => a.Inside = true) s as →
      as.length ≤ bound ∧ ((exec (threadPoolSystem arg) s as).Resting arg →
        (exec (threadPoolSystem arg) s as).Quiescent arg)) ∧
    ∃ as, Legal (threadPoolSystem arg) (fun _ a => a.Own = true) s as ∧
      (exec (threadPoolSystem arg) s as).Quiescent arg := by
  obtain ⟨F, hb⟩ := covers_of_reach hr
  have hmeasure := ThreadPool.measure arg F
  constructor
  · refine ⟨work arg F s, fun as hl => ?_⟩
    have hkeeps := hmeasure.legal_keeps ⟨hr, hb⟩ hl
    exact ⟨hmeasure.length_le ⟨hr, hb⟩ hl, quiescent_of_rest hkeeps.1 hsize⟩
  · obtain ⟨as, hl, hrest⟩ := (hmeasure.mono fun _ _ => TPoolAction.inside_of_own).exists_rest
      ⟨hr, hb⟩
    have hkeeps := hmeasure.legal_keeps ⟨hr, hb⟩ (hl.mono fun _ _ => TPoolAction.inside_of_own)
    exact ⟨as, hl, quiescent_of_rest hkeeps.1 hsize hrest⟩

/-- A task is queued, with its caller in front of the timed wait. -/
theorem pool_comes_to_rest_run :
    (∃ bound, ∀ as, Legal (threadPoolSystem oneWorker) (fun _ a => a.Inside = true)
        (oneWorkerAfter waitForTask) as →
      as.length ≤ bound ∧
        ((exec (threadPoolSystem oneWorker) (oneWorkerAfter waitForTask) as).Resting oneWorker →
          (exec (threadPoolSystem oneWorker) (oneWorkerAfter waitForTask) as).Quiescent
            oneWorker)) ∧
    ∃ as, Legal (threadPoolSystem oneWorker) (fun _ a => a.Own = true)
        (oneWorkerAfter waitForTask) as ∧
      (exec (threadPoolSystem oneWorker) (oneWorkerAfter waitForTask) as).Quiescent oneWorker :=
  pool_comes_to_rest (by decide) (reach_oneWorker (by decide))

end MyWorkEnv
