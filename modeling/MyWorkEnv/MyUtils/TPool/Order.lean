import MyWorkEnv.MyUtils.TPool.Conservation

/-!
# In which order tasks run

The queue is emptied at one go, so several workers may overtake each other. What
stays in order is the way out of the queue, the turns of one batch, and with a
single worker all turns.
-/

namespace MyWorkEnv

open Transition LinkedRing

namespace ThreadPool

variable {arg : TPoolModuleInitArg} {s : ThreadPool} {w t u : ℕ}

theorem examine_inTurn (h : s.hist.InTurn) (hrest : s.hist.rest 0 = []) :
    (s.examine 0).hist.InTurn := by
  unfold examine
  split_ifs
  · exact h
  · exact h.take hrest
  · exact h

/-- The only worker takes the queue when it has nothing left, and drops what it is through
with. -/
theorem stepWorker_inTurn (hp : s.Placed arg) (hw : 0 < arg.threadPoolSize)
    (h : s.hist.InTurn) : (s.stepWorker 0).hist.InTurn := by
  have hok := hp.worker 0 hw
  unfold stepWorker
  cases hpc : s.worker 0 with
  | lockPool =>
      rw [hpc] at hok
      exact examine_inTurn (s := s.countIn) h hok
  | woken =>
      rw [hpc] at hok
      exact examine_inTurn h hok
  | forEach loop tmp =>
      simp only
      cases forEachTask 0 loop <;> exact h
  | body t tmp k =>
      simp only [body_hist]
      split
      · exact h
      · exact h.drop _
  | _ => exact h

theorem inTurn_of_reach {P : ThreadPool → TPoolAction → Prop} (hsize : arg.threadPoolSize = 1)
    (hr : Reach (threadPoolSystem arg) P s) : s.hist.InTurn := by
  refine hr.invariant_of (I := fun s => s.hist.InTurn) (fun s hs => placed_of_reach hs) ?_ ?_
  · rintro s ⟨L, rfl⟩
    exact BatchQueue.State.InTurn.empty
  · intro s a hp h ha _
    show (s.next a).hist.InTurn
    cases a with
    | insert t clockOk woke =>
        by_cases henq : s.enqueues t clockOk = true
        · rw [next_insert henq]
          exact h.put t
        · rw [next_insert_refused henq]
          exact h
    | worker w =>
        have hw : w < arg.threadPoolSize := worker_lt ha
        have hzero : w = 0 := by omega
        subst hzero
        exact stepWorker_inTurn hp hw h
    | setTimeout timeout =>
        simp only [next]
        split_ifs <;> exact h
    | setMaxQueueLength queueLen =>
        simp only [next]
        split_ifs <;> exact h
    | moduleExit =>
        simp only [next, moduleExit]
        cases s.exitPc <;> exact h
    | _ => exact h

/-- A task that a worker has come to is dealt with, or first in that worker's batch. -/
theorem Placed.head_or_done (hp : s.Placed arg) (hu : u ∈ s.hist.order)
    (hentered : s.stage u ≠ .waiting) :
    u ∈ s.hist.done ∨ ∃ w < arg.threadPoolSize, (s.hist.rest w).head? = some u := by
  rcases hp.wf.mem_iff.mp hu with hq | ⟨w, hw, hr⟩ | hd
  · exact absurd (hp.waiting u hq) hentered
  · right
    refine ⟨w, hw, ?_⟩
    have htail := hp.tail_waiting hw u
    cases hrest : s.hist.rest w with
    | nil => simp [hrest] at hr
    | cons a ts =>
        rw [hrest, List.mem_cons] at hr
        rcases hr with rfl | hr
        · rfl
        · exact absurd (htail (by rwa [hrest])) hentered
  · exact .inl hd

end ThreadPool

open ThreadPool

variable {arg : TPoolModuleInitArg} {s : ThreadPool} {t u : ℕ}

/-- **Tasks leave the queue in the order they were added**, and those of one batch have their
turns in that order; with one worker, so do all tasks. -/
theorem tasks_in_order {P : ThreadPool → TPoolAction → Prop}
    (hr : Reach (threadPoolSystem arg) P s) (hearlier : [t, u].Sublist s.hist.order)
    (hentered : s.stage u ≠ .waiting) :
    ¬ At arg s t .queue ∧
      (∀ w < arg.threadPoolSize, t ∈ s.hist.batch w → u ∈ s.hist.batch w →
        s.stage t = .passed ∨ s.stage t = .done) ∧
      (arg.threadPoolSize = 1 → s.stage t = .passed ∨ s.stage t = .done) := by
  have hp := placed_of_reach hr
  refine ⟨?_, ?_, ?_⟩
  · rw [hp.at_queue]
    intro ht
    exact hentered (hp.waiting u (hp.wf.queue_of_later hearlier ht))
  · intro w hw ht hu
    rcases hp.wf.batch_dealt w t ht with hrest | hdone
    · exact absurd (hp.tail_waiting hw u (hp.wf.tail_of_later hearlier hrest hu)) hentered
    · exact hp.through t hdone
  · intro hsize
    apply hp.through
    refine (inTurn_of_reach hsize hr).done_of_earlier hp.wf.nodup hearlier ?_
    rcases hp.head_or_done (hearlier.subset (by simp)) hentered with hdone | ⟨w, hw, hhead⟩
    · exact .inl hdone
    · right
      have hzero : w = 0 := by omega
      rwa [hzero] at hhead

/-- Two tasks are added, and the worker comes to the second one. -/
def twoTasksRun : List TPoolAction :=
  [.addTask 0 (some 1) 7, .lengthTest 0 [], .alloc 0 true, .insert 0 true [],
    .addTask 1 (some 2) 8, .lengthTest 1 [], .alloc 1 true, .insert 1 true []] ++ works 13

theorem tasks_in_order_run :
    (oneWorkerAfter twoTasksRun).stage 0 = .passed ∨
      (oneWorkerAfter twoTasksRun).stage 0 = .done :=
  (tasks_in_order (t := 0) (u := 1) (P := fun _ _ => True) (reach_oneWorker (by decide))
    (by decide) (by decide)).2.2 rfl

end MyWorkEnv
