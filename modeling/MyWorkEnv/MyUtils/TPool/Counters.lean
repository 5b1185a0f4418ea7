import MyWorkEnv.MyUtils.TPool.Shutdown

/-!
# `TaskListLength` and `CurrentThreadNum`

The bound on the queue is tested in one section and relied on in another, and
by `TPoolAddTaskAndWait` not at all; and what a worker adds to
`CurrentThreadNum` on its way in is taken off at one of two places on its way
out, one of them behind the test that it need not have been in for. For both
counters: the runs in which they are what they should be throughout.
-/

namespace MyWorkEnv

open Transition

/-! ## The bound on the queue -/

/-- `TaskMaxLength` stays. -/
def TPoolAction.KeepsMax : TPoolAction → Prop
  | .setMaxQueueLength _ => False
  | _ => True

instance (a : TPoolAction) : Decidable a.KeepsMax := by
  unfold TPoolAction.KeepsMax
  split <;> infer_instance

namespace ThreadPool

variable {arg : TPoolModuleInitArg} {s : ThreadPool} {w t : ℕ}

def LengthBounded (s : ThreadPool) : Prop :=
  0 ≤ s.taskListLength.toInt ∧ s.taskListLength.toInt ≤ s.taskMaxLength.toInt

/-- The section that enqueues finds what the test of `TPoolAddTask` asks for. -/
def RoomLeft (s : ThreadPool) (a : TPoolAction) : Prop :=
  match a with
  | .insert t clockOk _ => s.enqueues t clockOk = true → s.isFull = false
  | _ => True

instance RoomLeft.decidable (s : ThreadPool) : ∀ a, Decidable (RoomLeft s a)
  | .insert t clockOk _ =>
      inferInstanceAs (Decidable (s.enqueues t clockOk = true → s.isFull = false))
  | .addTask _ _ _ | .addTaskAndWait _ _ _ _ | .lengthTest _ _ | .alloc _ _ | .caller _ _
  | .worker _ | .spuriousWakeup _ | .setTimeout _ | .setMaxQueueLength _ | .moduleExit =>
      .isTrue trivial

theorem isFull_iff : s.isFull = true ↔ s.taskMaxLength.toInt ≤ s.taskListLength.toInt := by
  simp [isFull, BitVec.sle_iff_toInt_le]

theorem next_taskMaxLength {a : TPoolAction} (ha : a.KeepsMax) :
    (s.next a).taskMaxLength = s.taskMaxLength := by
  cases a with
  | insert t clockOk woke =>
      simp only [next, insert]
      split_ifs <;> rfl
  | worker w =>
      simp only [next, stepWorker]
      cases s.worker w with
      | lockPool =>
          simp only [examine]
          split_ifs <;> rfl
      | woken =>
          simp only [examine]
          split_ifs <;> rfl
      | forEach loop tmp =>
          simp only
          cases forEachTask w loop <;> rfl
      | body t tmp k =>
          simp only [body]
          cases (s.task t).bodyNext k <;> rfl
      | _ => rfl
  | setTimeout timeout =>
      simp only [next]
      split_ifs <;> rfl
  | setMaxQueueLength queueLen => exact ha.elim
  | moduleExit =>
      simp only [next, moduleExit]
      cases s.exitPc <;> rfl
  | _ => rfl

/-- One more keeps within the bound just where the queue is not full. -/
theorem succ_bounded {l m : BitVec 32} (hl : 0 ≤ l.toInt) (hm : l.toInt ≤ m.toInt) :
    (0 ≤ (l + 1).toInt ∧ (l + 1).toInt ≤ m.toInt) ↔ ¬ m.toInt ≤ l.toInt := by
  have hlt := BitVec.toInt_lt (x := l)
  have hmt := BitVec.toInt_lt (x := m)
  have hone : (1 : BitVec 32).toInt = 1 := rfl
  rw [BitVec.toInt_add, hone]
  by_cases hmax : l.toInt = 2 ^ 31 - 1
  · rw [hmax]
    simp [Int.bmod]
    omega
  · have hsum : (l.toInt + 1).bmod (2 ^ 32) = l.toInt + 1 := by
      apply Int.bmod_eq_of_le <;> omega
    rw [hsum]
    omega

/-- **Which steps keep the bound.** -/
theorem lengthBounded_next {a : TPoolAction} (h : s.LengthBounded) (ha : a.KeepsMax) :
    (s.next a).LengthBounded ↔ RoomLeft s a := by
  rcases s.next_queue a with hkept | ⟨t, clockOk, woke, rfl, henq, -, hlen⟩
  · refine iff_of_true ?_ ?_
    · unfold LengthBounded
      rw [next_taskMaxLength ha]
      rcases hkept.2 with ⟨-, hlen⟩ | ⟨-, -, hlen⟩
      · rw [hlen]
        exact h
      · rw [hlen]
        exact ⟨le_refl _, h.1.trans h.2⟩
    · cases a with
      | insert t clockOk woke => exact fun henq => absurd henq hkept.not_enqueues
      | _ => trivial
  · unfold LengthBounded
    rw [next_taskMaxLength ha, hlen, succ_bounded h.1 h.2, ← isFull_iff]
    simp [RoomLeft, henq]

end ThreadPool

open ThreadPool

variable {arg : TPoolModuleInitArg} {s : ThreadPool}

/-- **With a positive `TaskMaxLength` that stays, `TaskListLength` is within the bound
throughout a run if and only if every section that enqueues finds the queue not full.** -/
theorem taskListLength_bounded_iff {s₀ : ThreadPool} {as : List TPoolAction}
    (hinit : (threadPoolSystem arg).init s₀) (hmax : 0 < s₀.taskMaxLength.toInt)
    (hl : Legal (threadPoolSystem arg) (fun _ a => a.KeepsMax) s₀ as) :
    Always (threadPoolSystem arg) LengthBounded s₀ as ↔
      Legal (threadPoolSystem arg) RoomLeft s₀ as := by
  refine Legal.always_iff ?_ (.init hinit) ?_ hl
  · intro s a _ h _ ha
    exact lengthBounded_next h ha
  · obtain ⟨L, rfl⟩ := hinit
    exact ⟨le_refl 0, hmax.le⟩

/-- A pool for one task. -/
def narrow : TPoolModuleInitArg := ⟨1, 0, 1⟩

def narrowPool : ThreadPool :=
  ThreadPool.init narrow ⟨fun _ => .taskListHead, fun _ => .taskListHead⟩

/-- The second call comes when the worker has taken the first task. -/
def inTurnRun : List TPoolAction :=
  addTaskOne ++ works 2 ++
    [.addTask 1 (some 1) 7, .lengthTest 1 [], .alloc 1 true, .insert 1 true []]

theorem taskListLength_bounded_iff_run :
    Always (threadPoolSystem narrow) LengthBounded narrowPool inTurnRun :=
  (taskListLength_bounded_iff ⟨_, rfl⟩ (by decide) (by decide)).mpr
    (by decide)

/-- Both calls make their test before either enqueues. -/
def overtakingRun : List TPoolAction :=
  [.addTask 0 (some 1) 7, .addTask 1 (some 1) 7, .lengthTest 0 [], .lengthTest 1 [],
    .alloc 0 true, .alloc 1 true, .insert 0 true [], .insert 1 true []]

/-- Two tasks are queued where one is allowed. -/
theorem queue_overfull :
    ∃ s, Reach (threadPoolSystem narrow) (fun _ a => a.KeepsMax) s ∧
      s.taskMaxLength.toInt = 1 ∧ s.taskListLength.toInt = 2 :=
  ⟨exec (threadPoolSystem narrow) narrowPool overtakingRun,
    Reach.exec (.init ⟨_, rfl⟩) (by decide), by decide, by decide⟩

/-! ## Workers that wait -/

/-- Between the increment of `CurrentThreadNum` and the end of the section. -/
def WorkerPc.waits : WorkerPc → Bool
  | .waiting | .woken => true
  | _ => false

namespace ThreadPool

variable {w : ℕ}

/-- The workers inside the locked wait-and-take section. -/
def insideNum (arg : TPoolModuleInitArg) (s : ThreadPool) : ℕ :=
  (List.range arg.threadPoolSize).countP fun w => (s.worker w).waits

def CountExact (arg : TPoolModuleInitArg) (s : ThreadPool) : Prop :=
  s.currentThreadNum.toInt = s.insideNum arg ∧
    0 ≤ s.currentThreadNum.toInt ∧ s.currentThreadNum.toInt ≤ arg.threadPoolSize

/-- No worker sees `Exit` inside the section, which it then leaves counted, and none
passes `CommonReturn`, where it is counted off though it is not inside. -/
def KeepsCount (s : ThreadPool) (a : TPoolAction) : Prop :=
  match a with
  | .worker w =>
      s.worker w ≠ .leaving ∧ (s.exit = true → s.worker w ≠ .lockPool ∧ s.worker w ≠ .woken)
  | _ => True

instance KeepsCount.decidable (s : ThreadPool) (a : TPoolAction) : Decidable (KeepsCount s a) := by
  unfold KeepsCount
  split <;> infer_instance

theorem insideNum_le (arg : TPoolModuleInitArg) (s : ThreadPool) :
    s.insideNum arg ≤ arg.threadPoolSize := by
  refine List.countP_le_length.trans ?_
  rw [List.length_range]

/-- As long as the pool has no more workers than an `int` can count. -/
theorem countExact_iff (hsize : arg.threadPoolSize < 2 ^ 31) :
    s.CountExact arg ↔ s.currentThreadNum = .ofNat 32 (s.insideNum arg) := by
  have hle := insideNum_le arg s
  have htoInt : (BitVec.ofNat 32 (s.insideNum arg)).toInt = s.insideNum arg := by
    rw [BitVec.toInt_ofNat']
    apply Int.bmod_eq_of_le <;> omega
  constructor
  · rintro ⟨heq, -, -⟩
    apply BitVec.eq_of_toInt_eq
    rw [heq, htoInt]
  · intro heq
    rw [← heq] at htoInt
    refine ⟨htoInt, ?_, ?_⟩ <;> omega

/-- Only its own step moves a worker into the section or out of it. -/
theorem waits_next {a : TPoolAction} (ha : s.guard arg a = true) {v : ℕ} (hv : a ≠ .worker v) :
    ((s.next a).worker v).waits = (s.worker v).waits := by
  rcases next_worker ha v with heq | ⟨hwait, hwoken⟩ | rfl
  · rw [heq]
  · rw [hwait, hwoken]
    rfl
  · exact absurd rfl hv

theorem insideNum_next {a : TPoolAction} (ha : s.guard arg a = true)
    (hne : ∀ w, a ≠ .worker w) : (s.next a).insideNum arg = s.insideNum arg := by
  apply List.countP_congr
  intro v _
  rw [waits_next ha (hne v)]

theorem insideNum_worker (hw : w < arg.threadPoolSize) :
    (s.next (.worker w)).insideNum arg + (s.worker w).waits.toNat =
      s.insideNum arg + ((s.next (.worker w)).worker w).waits.toNat := by
  have hupdate : (s.next (.worker w)).worker =
      Function.update s.worker w ((s.next (.worker w)).worker w) := by
    ext v
    by_cases hv : v = w
    · rw [hv, Function.update_self]
    · rw [Function.update_of_ne hv]
      exact stepWorker_of_ne hv
  have hcount := BatchQueue.countP_update (p := WorkerPc.waits) (f := s.worker)
    (k := (s.next (.worker w)).worker w) List.nodup_range (List.mem_range.mpr hw)
  rw [← hupdate] at hcount
  exact hcount

theorem next_currentThreadNum {a : TPoolAction} (hne : ∀ w, a ≠ .worker w) :
    (s.next a).currentThreadNum = s.currentThreadNum := by
  cases a with
  | insert t clockOk woke =>
      simp only [next, insert]
      split_ifs <;> rfl
  | worker w => exact absurd rfl (hne w)
  | setTimeout timeout =>
      simp only [next]
      split_ifs <;> rfl
  | setMaxQueueLength queueLen =>
      simp only [next]
      split_ifs <;> rfl
  | moduleExit =>
      simp only [next, moduleExit]
      cases s.exitPc <;> rfl
  | _ => rfl

/-- The three ways out of the examination. -/
theorem examine_cases (s : ThreadPool) (w : ℕ) :
    (s.exit = true ∧ (s.examine w).worker w = .leaving ∧
      (s.examine w).currentThreadNum = s.currentThreadNum) ∨
    (s.exit = false ∧ (s.examine w).worker w = .taken ∧
      (s.examine w).currentThreadNum = s.currentThreadNum - 1) ∨
    (s.exit = false ∧ (s.examine w).worker w = .waiting ∧
      (s.examine w).currentThreadNum = s.currentThreadNum) := by
  unfold examine
  split_ifs with hexit
  · exact .inl ⟨hexit, setWorker_self s w _, rfl⟩
  · exact .inr (.inl ⟨by simpa using hexit, setWorker_self s w _, rfl⟩)
  · exact .inr (.inr ⟨by simpa using hexit, setWorker_self s w _, rfl⟩)

/-- Outside of the section the count stays, and so do those it counts. -/
theorem counted_quiet (h : s.currentThreadNum = .ofNat 32 (s.insideNum arg))
    (hw : w < arg.threadPoolSize) (hout : (s.worker w).waits = false)
    (hout' : ((s.next (.worker w)).worker w).waits = false)
    (hnum : (s.next (.worker w)).currentThreadNum = s.currentThreadNum) :
    (s.next (.worker w)).currentThreadNum =
      .ofNat 32 ((s.next (.worker w)).insideNum arg) := by
  have hinside := insideNum_worker (s := s) hw
  rw [hout, hout'] at hinside
  rw [hnum, h]
  exact congrArg (BitVec.ofNat 32) hinside.symm

theorem ofNat_succ_sub (n : ℕ) : (BitVec.ofNat 32 (n + 1)) - 1 = BitVec.ofNat 32 n := by
  rw [BitVec.ofNat_add]
  exact BitVec.add_sub_cancel _ _

theorem succ_ne (x : BitVec 32) : x + 1 ≠ x := by
  intro h
  bv_omega

theorem pred_ne (x : BitVec 32) : x - 1 ≠ x := by
  intro h
  bv_omega

/-- The step that enters the section. -/
theorem counted_lockPool (h : s.currentThreadNum = .ofNat 32 (s.insideNum arg))
    (hw : w < arg.threadPoolSize) (hpc : s.worker w = .lockPool) :
    (s.next (.worker w)).currentThreadNum =
      .ofNat 32 ((s.next (.worker w)).insideNum arg) ↔ s.exit = false := by
  have hinside := insideNum_worker (s := s) hw
  have hcases := examine_cases s.countIn w
  rw [← next_lockPool hpc] at hcases
  have hin : s.countIn.currentThreadNum = s.currentThreadNum + 1 := rfl
  have hexit : s.countIn.exit = s.exit := rfl
  rw [hin, hexit, h] at hcases
  rcases hcases with ⟨he, hpc', hnum⟩ | ⟨he, hpc', hnum⟩ | ⟨he, hpc', hnum⟩
  · rw [hpc, hpc'] at hinside
    replace hinside : (s.next (.worker w)).insideNum arg = s.insideNum arg := hinside
    rw [hnum, hinside, he]
    exact iff_of_false (succ_ne _) (by simp)
  · rw [hpc, hpc'] at hinside
    replace hinside : (s.next (.worker w)).insideNum arg = s.insideNum arg := hinside
    rw [hnum, hinside]
    exact iff_of_true (BitVec.add_sub_cancel _ _) he
  · rw [hpc, hpc'] at hinside
    replace hinside : (s.next (.worker w)).insideNum arg = s.insideNum arg + 1 := hinside
    rw [hnum, hinside]
    exact iff_of_true (BitVec.ofNat_add _ _).symm he

/-- The step of a worker that was woken. -/
theorem counted_woken (h : s.currentThreadNum = .ofNat 32 (s.insideNum arg))
    (hw : w < arg.threadPoolSize) (hpc : s.worker w = .woken) :
    (s.next (.worker w)).currentThreadNum =
      .ofNat 32 ((s.next (.worker w)).insideNum arg) ↔ s.exit = false := by
  have hinside := insideNum_worker (s := s) hw
  have hcases := examine_cases s w
  rw [← next_woken hpc, h] at hcases
  rcases hcases with ⟨he, hpc', hnum⟩ | ⟨he, hpc', hnum⟩ | ⟨he, hpc', hnum⟩
  · rw [hpc, hpc'] at hinside
    replace hinside : (s.next (.worker w)).insideNum arg + 1 = s.insideNum arg := hinside
    rw [hnum, ← hinside, he]
    rw [BitVec.ofNat_add]
    exact iff_of_false (succ_ne _) (by simp)
  · rw [hpc, hpc'] at hinside
    replace hinside : (s.next (.worker w)).insideNum arg + 1 = s.insideNum arg := hinside
    rw [hnum, ← hinside]
    exact iff_of_true (ofNat_succ_sub _) he
  · rw [hpc, hpc'] at hinside
    replace hinside : (s.next (.worker w)).insideNum arg = s.insideNum arg :=
      Nat.add_right_cancel hinside
    rw [hnum, hinside]
    exact iff_of_true rfl he

/-- The decrement behind `CommonReturn`. -/
theorem counted_leaving (h : s.currentThreadNum = .ofNat 32 (s.insideNum arg))
    (hw : w < arg.threadPoolSize) (hpc : s.worker w = .leaving) :
    (s.next (.worker w)).currentThreadNum ≠
      .ofNat 32 ((s.next (.worker w)).insideNum arg) := by
  have hinside := insideNum_worker (s := s) hw
  have hpc' : (s.next (.worker w)).worker w = .exited := by
    simp [next, stepWorker, hpc, setWorker]
  have hnum : (s.next (.worker w)).currentThreadNum = s.currentThreadNum - 1 := by
    simp [next, stepWorker, hpc]
  rw [hpc, hpc'] at hinside
  replace hinside : (s.next (.worker w)).insideNum arg = s.insideNum arg := hinside
  rw [hnum, hinside, h]
  exact pred_ne _

/-- **Which steps keep the count exact.** -/
theorem counted_next {a : TPoolAction} (ha : s.guard arg a = true)
    (h : s.currentThreadNum = .ofNat 32 (s.insideNum arg)) :
    (s.next a).currentThreadNum = .ofNat 32 ((s.next a).insideNum arg) ↔ KeepsCount s a := by
  by_cases hworker : ∃ w, a = .worker w
  · obtain ⟨w, rfl⟩ := hworker
    have hw := worker_lt ha
    cases hpc : s.worker w with
    | lockPool =>
        rw [counted_lockPool h hw hpc]
        simp [KeepsCount, hpc]
    | woken =>
        rw [counted_woken h hw hpc]
        simp [KeepsCount, hpc]
    | leaving => exact iff_of_false (counted_leaving h hw hpc) (by simp [KeepsCount, hpc])
    | waiting => simp [guard, hpc] at ha
    | exited => simp [guard, hpc] at ha
    | whileTest =>
        refine iff_of_true (counted_quiet h hw (by rw [hpc]; rfl) ?_ ?_) (by simp [KeepsCount, hpc])
        · simp only [next, stepWorker, hpc, setWorker_self]
          split_ifs <;> rfl
        · simp [next, stepWorker, hpc, setWorker]
    | taken =>
        refine iff_of_true (counted_quiet h hw (by rw [hpc]; rfl) ?_ ?_) (by simp [KeepsCount, hpc])
        · simp [next, stepWorker, hpc, WorkerPc.waits]
        · simp [next, stepWorker, hpc, setWorker]
    | forEach loop tmp =>
        refine iff_of_true (counted_quiet h hw (by rw [hpc]; rfl) ?_ ?_) (by simp [KeepsCount, hpc])
        · simp only [next, stepWorker, hpc]
          cases forEachTask w loop <;> simp [WorkerPc.waits]
        · simp only [next, stepWorker, hpc]
          cases forEachTask w loop <;> rfl
    | body t tmp k =>
        refine iff_of_true (counted_quiet h hw (by rw [hpc]; rfl) ?_ ?_) (by simp [KeepsCount, hpc])
        · rw [next_body hpc, body_worker, Function.update_self]
          cases (s.task t).bodyNext k <;> rfl
        · rw [next_body hpc]
          simp only [body]
          cases (s.task t).bodyNext k <;> rfl
    | forStep tmp =>
        refine iff_of_true (counted_quiet h hw (by rw [hpc]; rfl) ?_ ?_) (by simp [KeepsCount, hpc])
        · simp [next, stepWorker, hpc, WorkerPc.waits]
        · simp [next, stepWorker, hpc, setWorker]
  · have hne : ∀ w, a ≠ .worker w := fun w hw => hworker ⟨w, hw⟩
    refine iff_of_true ?_ ?_
    · rw [next_currentThreadNum hne, insideNum_next ha hne, h]
    · cases a with
      | worker w => exact absurd rfl (hne w)
      | _ => trivial

end ThreadPool

/-- **`CurrentThreadNum` is the number of the workers inside the wait-and-take section,
throughout a run, if and only if all steps of the run meet `KeepsCount`.** -/
theorem currentThreadNum_exact_iff (hsize : arg.threadPoolSize < 2 ^ 31) {s₀ : ThreadPool}
    {as : List TPoolAction} (hinit : (threadPoolSystem arg).init s₀)
    (hl : Legal (threadPoolSystem arg) (fun _ _ => True) s₀ as) :
    Always (threadPoolSystem arg) (CountExact arg) s₀ as ↔
      Legal (threadPoolSystem arg) KeepsCount s₀ as := by
  refine Legal.always_iff ?_ (.init hinit) ?_ hl
  · intro s a _ h ha _
    rw [countExact_iff hsize] at h ⊢
    exact counted_next ha h
  · obtain ⟨L, rfl⟩ := hinit
    rw [countExact_iff hsize]
    have hzero : (ThreadPool.init arg L).insideNum arg = 0 := by
      simp [insideNum, ThreadPool.init, WorkerPc.waits]
    rw [hzero]
    rfl

/-- The worker waits, and is woken by the broadcast of `TPoolModuleExit`. -/
theorem currentThreadNum_exact_iff_run :
    Always (threadPoolSystem oneWorker) (CountExact oneWorker) idlePool (works 2 ++ exits 4) :=
  (currentThreadNum_exact_iff (by decide) ⟨_, rfl⟩ (by decide)).mpr (by decide)

/-- The worker sees `Exit` before its first wait, and is counted off all the same. -/
theorem currentThreadNum_negative :
    ∃ s, Reachable (threadPoolSystem oneWorker) s ∧ s.insideNum oneWorker = 0 ∧
      s.currentThreadNum.toInt = -1 :=
  ⟨oneWorkerAfter (exits 2 ++ works 2), reach_oneWorker (by decide),
    by decide, by decide⟩

end MyWorkEnv
