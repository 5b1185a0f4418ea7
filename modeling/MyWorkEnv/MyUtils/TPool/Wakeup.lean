import MyWorkEnv.MyUtils.TPool.Batches

/-!
# No lost wakeup

A signal of `Cond` is lost when nobody waits, and the queue may be emptied
between a signal and the wakeup. Still, as long as there is something in the
queue and somebody waits, somebody is awake who has not looked at it yet.
-/

namespace MyWorkEnv

open Transition LinkedRing

namespace ThreadPool

variable {arg : TPoolModuleInitArg} {s : ThreadPool} {w t : ℕ}

/-- Someone will look at the queue before all workers sleep. -/
structure Attentive (arg : TPoolModuleInitArg) (s : ThreadPool) : Prop where
  running : s.exit = false
  awake : s.hist.queue ≠ [] → (∃ w < arg.threadPoolSize, s.worker w = .waiting) →
    ∃ v < arg.threadPoolSize, s.worker v = .woken

/-- Steps that put nobody to sleep, disturb nobody who was woken, and add nothing. -/
theorem Attentive.quiet {s' : ThreadPool} (h : Attentive arg s) (hexit : s'.exit = s.exit)
    (hqueue : s'.hist.queue = s.hist.queue)
    (hwaiting : ∀ w, s'.worker w = .waiting → s.worker w = .waiting)
    (hwoken : ∀ w, s.worker w = .woken → s'.worker w = .woken) : Attentive arg s' where
  running := hexit.trans h.running
  awake := by
    intro hne hwait
    rw [hqueue] at hne
    obtain ⟨w, hw, hpc⟩ := hwait
    obtain ⟨v, hv, hpc'⟩ := h.awake hne ⟨w, hw, hwaiting w hpc⟩
    exact ⟨v, hv, hwoken v hpc'⟩

/-- Where the queue is empty there is nothing to look at. -/
theorem Attentive.of_nil (hexit : s.exit = false) (hqueue : s.hist.queue = []) :
    Attentive arg s :=
  ⟨hexit, fun hne => absurd hqueue hne⟩

theorem signal_waiting {woke : List ℕ} (h : (s.signal woke).worker w = .waiting) :
    w ∉ woke ∧ s.worker w = .waiting := by
  simp only [signal] at h
  split_ifs at h with hw
  exact ⟨hw, h⟩

/-- A signal leaves someone awake if someone waited. -/
theorem wakes_one {woke : List ℕ} (hwake : s.mayWake arg woke = true)
    (hw : w < arg.threadPoolSize) (hpc : (s.signal woke).worker w = .waiting) :
    ∃ v < arg.threadPoolSize, (s.signal woke).worker v = .woken := by
  obtain ⟨-, hwaiting⟩ := signal_waiting hpc
  simp only [mayWake, Bool.and_eq_true, Bool.or_eq_true, List.all_eq_true, decide_eq_true_eq,
    List.mem_range] at hwake
  rcases hwake with ⟨hall, hsome | hnone⟩
  · cases woke with
    | nil => simp at hsome
    | cons v woke => exact ⟨v, (hall v List.mem_cons_self).1, by simp [signal]⟩
  · simpa [hwaiting] using hnone w hw

/-- A section that adds to the queue wakes somebody. -/
theorem Attentive.insert (h : Attentive arg s) {clockOk : Bool} {woke : List ℕ}
    (ha : s.guard arg (.insert t clockOk woke) = true) (henq : s.enqueues t clockOk = true) :
    Attentive arg (s.next (.insert t clockOk woke)) := by
  simp only [guard, Bool.and_eq_true] at ha
  rw [if_pos henq] at ha
  rw [next_insert henq]
  refine ⟨h.running, ?_⟩
  -- whoever still waits behind the signal was not the only one
  rintro - ⟨w, hw, hpc⟩
  exact wakes_one ha.2 hw hpc

theorem examine_nil (hp : s.Placed arg) (hexit : s.exit = false) :
    (s.examine w).hist.queue = [] := by
  unfold examine
  rw [if_neg (by simp [hexit])]
  split_ifs with hempty
  · rfl
  · have hnil := (myListIsEmpty_iff hp.queue).mp (by simpa using hempty)
    simpa [setWorker] using hnil

/-- Whoever looks at the queue leaves it empty, and nobody else was woken or falls asleep. -/
theorem stepWorker_looks (hp : s.Placed arg) (hexit : s.exit = false)
    (ha : s.guard arg (.worker w) = true) :
    (s.stepWorker w).hist.queue = [] ∨
      s.worker w ≠ .woken ∧ (s.stepWorker w).worker w ≠ .waiting := by
  unfold stepWorker
  cases hpc : s.worker w with
  | lockPool =>
      have hp' : s.countIn.Placed arg := hp.quiet rfl rfl rfl rfl hp.worker hp.early
      exact .inl (examine_nil hp' hexit)
  | woken => exact .inl (examine_nil hp hexit)
  | whileTest =>
      right
      split_ifs <;> simp
  | taken => simp
  | forEach loop tmp =>
      right
      simp only
      cases forEachTask w loop <;> simp
  | body t tmp k =>
      right
      simp only [body_worker, Function.update_self]
      cases (s.task t).bodyNext k <;> simp
  | forStep tmp => simp
  | leaving => simp [ThreadPool.setWorker]
  | waiting => simp [guard, hpc] at ha
  | exited => simp [guard, hpc] at ha

theorem Attentive.next (h : Attentive arg s) (hp : s.Placed arg) {a : TPoolAction}
    (ha : s.guard arg a = true) (hexit : a.NotExit) : Attentive arg (s.next a) := by
  have hsame : SameExit s (s.next a) := next_sameExit hexit
  rcases next_queue s a with ⟨-, hkept⟩ | ⟨t, clockOk, woke, rfl, henq, -, -⟩
  · by_cases hnil : (s.next a).hist.queue = []
    · exact .of_nil (hsame.exit.trans h.running) hnil
    · have hqueue : (s.next a).hist.queue = s.hist.queue := by
        rcases hkept with ⟨hqueue, -⟩ | ⟨-, hempty, -⟩
        · exact hqueue
        · exact absurd hempty hnil
      -- a worker that moves has not looked at the queue
      have hlooks : ∀ w, a = .worker w →
          s.worker w ≠ .woken ∧ (s.next a).worker w ≠ .waiting := by
        rintro w rfl
        exact (stepWorker_looks hp h.running ha).resolve_left hnil
      refine h.quiet hsame.exit hqueue ?_ ?_
      · intro w hpc
        rcases next_worker ha w with hw | ⟨-, hw⟩ | hw
        · rwa [← hw]
        · simp [hw] at hpc
        · exact absurd hpc (hlooks w hw).2
      · intro w hpc
        rcases next_worker ha w with hw | ⟨hw, -⟩ | hw
        · rwa [hw]
        · simp [hw] at hpc
        · exact absurd hpc (hlooks w hw).1
  · exact h.insert ha henq

end ThreadPool

variable {arg : TPoolModuleInitArg} {s : ThreadPool}

theorem attentive_of_reach
    (hr : Reach (threadPoolSystem arg) (fun _ a => a.NotExit) s) : s.Attentive arg := by
  refine hr.invariant_of (fun s hs => placed_of_reach hs) ?_ ?_
  · rintro s ⟨L, rfl⟩
    exact .of_nil rfl rfl
  · intro s a hp h ha hexit
    exact h.next hp ha hexit

/-- **No lost wakeup.** If the queue is not empty and a worker waits, a worker has been
woken that has not looked at the queue since. -/
theorem no_lost_wakeup (hr : Reach (threadPoolSystem arg) (fun _ a => a.NotExit) s)
    (hqueue : myListIsEmpty s.links .taskListHead = false)
    (hwait : ∃ w < arg.threadPoolSize, s.worker w = .waiting) :
    ∃ v < arg.threadPoolSize, s.worker v = .woken := by
  refine (attentive_of_reach hr).awake ?_ hwait
  intro hnil
  have hempty := (myListIsEmpty_iff (placed_of_reach hr).queue).mpr (by simp [hnil])
  simp [hempty] at hqueue

/-- Two workers wait when a task is added; the signal wakes one of them. -/
def signalledRun : List TPoolAction :=
  [.worker 0, .worker 0, .worker 1, .worker 1, .addTask 0 (some 1) 7, .lengthTest 0 [],
    .alloc 0 true, .insert 0 true [1]]

def twoWaiting : ThreadPool :=
  exec (threadPoolSystem ⟨2, 0, 0⟩)
    (ThreadPool.init ⟨2, 0, 0⟩ ⟨fun _ => .taskListHead, fun _ => .taskListHead⟩) signalledRun

theorem no_lost_wakeup_run : ∃ v < 2, twoWaiting.worker v = .woken :=
  no_lost_wakeup (s := twoWaiting) (Reach.exec (.init ⟨_, rfl⟩) (by decide))
    (by decide) ⟨0, by decide, by decide⟩

end MyWorkEnv
