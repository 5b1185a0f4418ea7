import MyWorkEnv.Lib.Admission
import MyWorkEnv.MyUtils.TPool.Counters

/-!
# How far the queue goes over its bound

`TPoolAddTask` tests the length of the queue, lets go of `Lock`, and enqueues
without another test; `TPoolAddTaskAndWait` enqueues without any. So
`TaskMaxLength` is no bound on the queue. What is one takes the number of the
threads that add tasks, each of which makes one call at a time: the tasks of
`TPoolAddTask` are those of an `Admission` gate, and of the tasks that are
waited for there is one to each thread. Only the tasks of waits that are over
before a worker has come to them are not bounded.
-/

namespace MyWorkEnv

open Transition

/-- `TPoolAddTask` between its test and the section that enqueues. -/
def CallPc.admitted : CallPc → Bool
  | .addAlloc | .addInsert => true
  | _ => false

/-- The call that a step begins. -/
def TPoolAction.begins : TPoolAction → Option ℕ
  | .addTask t _ _ | .addTaskAndWait t _ _ _ => some t
  | _ => none

namespace Task

variable {k : Task} {m : TaskAction}

/-- What a step within a call leaves. -/
theorem call_next (hg : k.guard m = true)
    (hstart : ∀ sync taskFunc taskArg refused, m ≠ .start sync taskFunc taskArg refused) :
    (k.next m).call.sync = k.call.sync ∧
      ((k.next m).call.pc.inSync.isSome = true → k.call.pc.inSync.isSome = true) := by
  cases m with
  | start sync taskFunc taskArg refused => exact absurd rfl (hstart _ _ _ _)
  | lengthTest busy =>
      have hpc : k.call.pc = .addTest := by simpa [Task.guard] using hg
      exact ⟨rfl, fun _ => by rw [hpc]; rfl⟩
  | alloc ok =>
      have hpc : k.call.pc = .addAlloc ∨ k.call.pc = .waitAlloc := by simpa [Task.guard] using hg
      refine ⟨?_, fun _ => by rcases hpc with hpc | hpc <;> rw [hpc] <;> rfl⟩
      rcases hpc with hpc | hpc <;> cases ok <;> simp [Task.next, Task.alloc, hpc, goto]
  | insert clockOk =>
      have hpc : k.call.pc = .addInsert ∨ k.call.pc = .waitInsert := by
        simpa [Task.guard] using hg
      exact ⟨(SameLog.insert k clockOk).sync,
        fun _ => by rcases hpc with hpc | hpc <;> rw [hpc] <;> rfl⟩
  | caller a =>
      refine ⟨(SameLog.caller k a).sync, fun _ => ?_⟩
      have hmay : k.mayCaller a = true := hg
      cases hpc : k.call.pc <;> cases a <;> simp [mayCaller, hpc] at hmay <;> rfl
  | enter => exact ⟨rfl, id⟩
  | body pc =>
      cases pc with
      | signalTask =>
          simp only [Task.next, Task.body, bodyEffect]
          split_ifs with hblocked
          · exact ⟨rfl, fun _ => by rw [hblocked]; rfl⟩
          · exact ⟨rfl, id⟩
      | test =>
          simp only [Task.next, Task.body, bodyEffect]
          split_ifs <;> exact ⟨rfl, id⟩
      | teardown c skipped => cases c <;> exact ⟨rfl, id⟩
      | _ => exact ⟨rfl, id⟩

/-- Only the test of `TPoolAddTask` and what follows it have to do with admission. -/
theorem admitted_next (hg : k.guard m = true) (htest : m ≠ .lengthTest false)
    (halloc : ∀ ok, m ≠ .alloc ok) (hinsert : ∀ clockOk, m ≠ .insert clockOk) :
    (k.next m).call.pc.admitted = k.call.pc.admitted := by
  cases m with
  | start sync taskFunc taskArg refused =>
      have hpc : k.call.pc = .idle := by simpa [Task.guard] using hg
      rw [hpc]
      cases sync <;> cases refused <;> rfl
  | lengthTest busy =>
      have hpc : k.call.pc = .addTest := by simpa [Task.guard] using hg
      cases busy with
      | false => exact absurd rfl htest
      | true =>
          rw [hpc]
          rfl
  | alloc ok => exact absurd rfl (halloc ok)
  | insert clockOk => exact absurd rfl (hinsert clockOk)
  | caller a =>
      have hmay : k.mayCaller a = true := hg
      cases a with
      | timeout =>
          have hpc : k.call.pc = .blocked := by simpa [mayCaller] using hmay
          rw [hpc]
          rfl
      | spurious =>
          have hpc : k.call.pc = .blocked := by simpa [mayCaller] using hmay
          rw [hpc]
          rfl
      | go =>
          simp only [Task.next, Task.caller]
          cases hpc : k.call.pc with
          | held timedOut => cases timedOut <;> rfl
          | finish ret =>
              simp only
              split_ifs <;> rfl
          | teardown c ret => cases c <;> rfl
          | timedWait => rfl
          | woken timedOut => rfl
          | unlock ret => rfl
          | _ => simp [mayCaller, hpc] at hmay
  | enter => rfl
  | body pc =>
      cases pc with
      | signalTask =>
          simp only [Task.next, Task.body, bodyEffect]
          split_ifs with hblocked
          · rw [hblocked]
            rfl
          · rfl
      | test =>
          simp only [Task.next, Task.body, bodyEffect]
          split_ifs <;> rfl
      | teardown c skipped => cases c <;> rfl
      | _ => rfl

end Task

namespace ThreadPool

variable {arg : TPoolModuleInitArg} {s s' : ThreadPool} {t n bound : ℕ} {thread : ℕ → Fin n}

theorem next_task_self {a : TPoolAction} {m : TaskAction} (hm : s.taskAction a = some (t, m)) :
    (s.next a).task t = (s.task t).next m := by
  rw [next_task, hm]
  exact Function.update_self ..

theorem next_task_of_ne {a : TPoolAction} {m : TaskAction} (hm : s.taskAction a = some (t, m))
    {u : ℕ} (hu : u ≠ t) : (s.next a).task u = s.task u := by
  rw [next_task, hm]
  exact Function.update_of_ne hu ..

theorem next_task_none {a : TPoolAction} (hm : s.taskAction a = none) :
    (s.next a).task = s.task := by
  rw [next_task, hm]
  rfl

/-! ## What the queue holds -/

/-- Tasks of `TPoolAddTask`. -/
def addedNum (s : ThreadPool) : ℕ := s.hist.queue.countP fun t => !(s.task t).call.sync

/-- Tasks that a call of `TPoolAddTaskAndWait` waits for. -/
def waitedNum (s : ThreadPool) : ℕ :=
  s.hist.queue.countP fun t => (s.task t).call.sync && (s.task t).call.pc.inSync.isSome

/-- Tasks of such calls that have returned. -/
def abandonedNum (s : ThreadPool) : ℕ :=
  s.hist.queue.countP fun t => (s.task t).call.sync && (s.task t).call.pc.inSync.isNone

theorem length_queue (s : ThreadPool) :
    s.hist.queue.length = s.addedNum + s.waitedNum + s.abandonedNum := by
  unfold addedNum waitedNum abandonedNum
  induction s.hist.queue with
  | nil => rfl
  | cons t ts ih =>
      simp only [List.length_cons, List.countP_cons, ih]
      cases (s.task t).call.sync <;> cases (s.task t).call.pc.inSync <;> simp <;> omega

/-- A thread makes one call at a time, `TaskMaxLength` is set to no more than `bound`, and
`TaskListLength` does not overflow. -/
structure Crew (thread : ℕ → Fin n) (bound : ℕ) (s : ThreadPool) (a : TPoolAction) : Prop where
  oneCall : ∀ t, a.begins = some t → ∀ u, thread u = thread t →
    (s.task u).call.pc.inSync.isSome = false
  max : ∀ queueLen, a = .setMaxQueueLength queueLen → queueLen.toInt ≤ bound
  counts : (s.next a).hist.queue.length < 2 ^ 31

/-- Of the calls that are inside, no two are of one thread. -/
def OneCall (thread : ℕ → Fin n) (s : ThreadPool) : Prop :=
  ∀ t u, (s.task t).call.pc.inSync.isSome = true → (s.task u).call.pc.inSync.isSome = true →
    thread t = thread u → t = u

theorem begins_of_start {a : TPoolAction} {sync refused : Bool} {taskFunc : Option ℕ}
    {taskArg : ℕ} (hm : s.taskAction a = some (t, .start sync taskFunc taskArg refused)) :
    a.begins = some t := by
  cases a with
  | addTask u taskFunc taskArg =>
      simp only [taskAction, Option.some.injEq, Prod.mk.injEq] at hm
      rw [← hm.1]
      rfl
  | addTaskAndWait u taskFunc taskArg timeoutSec =>
      simp only [taskAction, Option.some.injEq, Prod.mk.injEq] at hm
      rw [← hm.1]
      rfl
  | worker w =>
      simp only [taskAction] at hm
      cases hpc : s.worker w with
      | forEach loop tmp =>
          simp only [hpc] at hm
          cases hloop : forEachTask w loop <;> simp [hloop] at hm
      | _ => simp [hpc] at hm
  | _ => simp [taskAction] at hm

theorem OneCall.next (h : OneCall thread s) (hp : s.Placed arg) {a : TPoolAction}
    (ha : s.guard arg a = true) (hcrew : Crew thread bound s a) : OneCall thread (s.next a) := by
  cases hm : s.taskAction a with
  | none =>
      intro t u
      rw [next_task_none hm]
      exact h t u
  | some vm =>
      obtain ⟨v, m⟩ := vm
      by_cases hstart : ∃ sync taskFunc taskArg refused, m = .start sync taskFunc taskArg refused
      · -- a call begins, and its thread is in no other
        obtain ⟨sync, taskFunc, taskArg, refused, rfl⟩ := hstart
        have hnone : ∀ u, u ≠ v → thread u = thread v →
            ((s.next a).task u).call.pc.inSync.isSome = false := by
          intro u hu hthread
          rw [next_task_of_ne hm hu]
          exact hcrew.oneCall v (begins_of_start hm) u hthread
        intro t u ht hu hthread
        by_contra hne
        by_cases htv : t = v
        · subst htv
          have hout := hnone u (Ne.symm hne) hthread.symm
          rw [hu] at hout
          cases hout
        · by_cases huv : u = v
          · subst huv
            have hout := hnone t htv hthread
            rw [ht] at hout
            cases hout
          · rw [next_task_of_ne hm htv] at ht
            rw [next_task_of_ne hm huv] at hu
            exact hne (h t u ht hu hthread)
      · push Not at hstart
        have hback : ∀ u, ((s.next a).task u).call.pc.inSync.isSome = true →
            (s.task u).call.pc.inSync.isSome = true := by
          intro u hu
          by_cases huv : u = v
          · subst huv
            rw [next_task_self hm] at hu
            exact (Task.call_next (hp.task_guard ha hm) hstart).2 hu
          · rwa [next_task_of_ne hm huv] at hu
        exact fun t u ht hu hthread => h t u (hback t ht) (hback u hu) hthread

/-! ## The gate -/

/-- The threads whose call of `TPoolAddTask` has passed its test. -/
def admittedThreads (thread : ℕ → Fin n) (s : ThreadPool) : Set (Fin n) :=
  {i | ∃ t, thread t = i ∧ (s.task t).call.pc.admitted = true}

/-- `TPoolAddTask` as a gate. -/
noncomputable def gate (thread : ℕ → Fin n) (s : ThreadPool) : Gate (Fin n) :=
  ⟨s.addedNum, (s.admittedThreads thread).toFinite.toFinset⟩

theorem mem_gate {i : Fin n} :
    i ∈ (s.gate thread).admitted ↔ ∃ t, thread t = i ∧ (s.task t).call.pc.admitted = true := by
  simp [gate, admittedThreads]

theorem inside_of_admitted {pc : CallPc} (h : pc.admitted = true) : pc.inSync.isSome = true := by
  cases pc <;> first | rfl | cases h

/-- What is queued does not depend on what is not. -/
theorem addedNum_same (hqueue : s'.hist.queue = s.hist.queue)
    (hsync : ∀ t ∈ s.hist.queue, (s'.task t).call.sync = (s.task t).call.sync) :
    s'.addedNum = s.addedNum := by
  unfold addedNum
  rw [hqueue]
  exact List.countP_congr fun t ht => by rw [hsync t ht]

theorem admitted_same
    (hadmitted : ∀ t, (s'.task t).call.pc.admitted = (s.task t).call.pc.admitted) :
    (s'.gate thread).admitted = (s.gate thread).admitted := by
  ext i
  simp only [mem_gate, hadmitted]

/-- Nobody is admitted, and the queue stays or is taken away. -/
theorem gate_kept (hqueue : s'.hist.queue = s.hist.queue ∨ s'.hist.queue = [])
    (hsync : ∀ t ∈ s.hist.queue, (s'.task t).call.sync = (s.task t).call.sync)
    (hadmitted : ∀ t, (s'.task t).call.pc.admitted = (s.task t).call.pc.admitted) :
    ∃ b, (s.gate thread).can bound b ∧ s'.gate thread = (s.gate thread).next b := by
  have hnum : s'.addedNum ≤ s.addedNum := by
    rcases hqueue with hqueue | hqueue
    · exact (addedNum_same hqueue hsync).le
    · rw [addedNum, hqueue]
      exact Nat.zero_le _
  refine ⟨.leave (s.addedNum - s'.addedNum), Nat.sub_le _ _, Gate.ext ?_ ?_⟩
  · exact (Nat.sub_sub_self hnum).symm
  · exact admitted_same hadmitted

theorem admitted_insert (hafter : (s'.task t).call.pc.admitted = true)
    (hother : ∀ u, u ≠ t → s'.task u = s.task u) :
    (s'.gate thread).admitted = Insert.insert (thread t) (s.gate thread).admitted := by
  ext i
  rw [Finset.mem_insert, mem_gate, mem_gate]
  constructor
  · rintro ⟨u, rfl, hu⟩
    by_cases hut : u = t
    · exact .inl (by rw [hut])
    · rw [hother u hut] at hu
      exact .inr ⟨u, rfl, hu⟩
  · rintro (rfl | ⟨u, rfl, hu⟩)
    · exact ⟨t, rfl, hafter⟩
    · by_cases hut : u = t
      · subst hut
        exact ⟨u, rfl, hafter⟩
      · exact ⟨u, rfl, by rwa [hother u hut]⟩

/-- It was admitted by no other call. -/
theorem admitted_erase (hone : OneCall thread s) (hbefore : (s.task t).call.pc.admitted = true)
    (hafter : (s'.task t).call.pc.admitted = false)
    (hother : ∀ u, u ≠ t → s'.task u = s.task u) :
    (s'.gate thread).admitted = (s.gate thread).admitted.erase (thread t) := by
  ext i
  rw [Finset.mem_erase, mem_gate, mem_gate]
  constructor
  · rintro ⟨u, rfl, hu⟩
    have hut : u ≠ t := by
      rintro rfl
      rw [hafter] at hu
      cases hu
    rw [hother u hut] at hu
    refine ⟨fun hthread => hut ?_, u, rfl, hu⟩
    exact hone u t (inside_of_admitted hu) (inside_of_admitted hbefore) hthread
  · rintro ⟨hne, u, rfl, hu⟩
    have hut : u ≠ t := fun hut => hne (by rw [hut])
    exact ⟨u, rfl, by rwa [hother u hut]⟩

theorem Placed.toInt_length (hp : s.Placed arg) (hcounts : s.hist.queue.length < 2 ^ 31) :
    s.taskListLength.toInt = s.hist.queue.length := by
  have hmod : s.taskListLength.toNat = s.hist.queue.length := by
    rw [hp.length, BitVec.toNat_ofNat]
    omega
  rw [BitVec.toInt_eq_toNat_of_lt (by omega), hmod]

/-- There is room in the gate where the queue is not full. -/
theorem room_of_notFull (hp : s.Placed arg) (hcounts : s.hist.queue.length < 2 ^ 31)
    (hmax : s.taskMaxLength.toInt ≤ bound) (hfull : s.isFull = false) : s.addedNum < bound := by
  have hlen := s.length_queue
  have hint := hp.toInt_length hcounts
  have hnot : ¬ s.taskMaxLength.toInt ≤ s.taskListLength.toInt := by
    rw [← isFull_iff, hfull]
    exact Bool.false_ne_true
  omega

/-- A step within a call, or one of a call whose task is not queued. -/
theorem sync_next (hp : s.Placed arg) {a : TPoolAction} {m : TaskAction}
    (ha : s.guard arg a = true) (hm : s.taskAction a = some (t, m)) {u : ℕ}
    (hu : u ∈ s.hist.queue) : ((s.next a).task u).call.sync = (s.task u).call.sync := by
  by_cases hut : u = t
  · subst hut
    rw [next_task_self hm]
    refine (Task.call_next (hp.task_guard ha hm) ?_).1
    rintro sync taskFunc taskArg refused rfl
    have hpc : (s.task u).call.pc = .idle := by
      simpa [Task.guard] using hp.task_guard ha hm
    have hout := hp.early u (by rw [hpc]; rfl)
    rw [hp.waiting u hu] at hout
    cases hout
  · rw [next_task_of_ne hm hut]

/-- The steps that have nothing to do with the gate, but for the end of the queue. -/
theorem gate_calm (hp : s.Placed arg) {a : TPoolAction} (ha : s.guard arg a = true)
    (hcalm : ∀ t m, s.taskAction a = some (t, m) → m ≠ .lengthTest false ∧
      (∀ ok, m ≠ .alloc ok) ∧ ∀ clockOk, m ≠ .insert clockOk) :
    ∃ b, (s.gate thread).can bound b ∧ (s.next a).gate thread = (s.gate thread).next b := by
  have hqueue : (s.next a).hist.queue = s.hist.queue ∨ (s.next a).hist.queue = [] := by
    rcases s.next_queue a with hkept | ⟨t, clockOk, woke, rfl, -, -, -⟩
    · exact hkept.2.imp (·.1) (·.2.1)
    · exact absurd rfl ((hcalm t _ rfl).2.2 clockOk)
  cases hm : s.taskAction a with
  | none =>
      have htask := next_task_none hm
      exact gate_kept hqueue (fun t _ => by rw [htask]) fun t => by rw [htask]
  | some vm =>
      obtain ⟨v, m⟩ := vm
      obtain ⟨htest, halloc, hinsert⟩ := hcalm v m hm
      refine gate_kept hqueue (fun u hu => sync_next hp ha hm hu) fun t => ?_
      by_cases htv : t = v
      · subst htv
        rw [next_task_self hm]
        exact Task.admitted_next (hp.task_guard ha hm) htest halloc hinsert
      · rw [next_task_of_ne hm htv]

/-- The test of `TPoolAddTask`. -/
theorem gate_lengthTest (hp : s.Placed arg) (hone : OneCall thread s)
    (hmax : s.taskMaxLength.toInt ≤ bound) (hcounts : s.hist.queue.length < 2 ^ 31)
    {woke : List ℕ} (ha : s.guard arg (.lengthTest t woke) = true) :
    ∃ b, (s.gate thread).can bound b ∧
      (s.next (.lengthTest t woke)).gate thread = (s.gate thread).next b := by
  have hm : s.taskAction (.lengthTest t woke) = some (t, .lengthTest s.isFull) := rfl
  cases hfull : s.isFull with
  | true =>
      refine gate_calm hp ha fun u m hum => ?_
      rw [hm, hfull] at hum
      cases hum
      simp
  | false =>
      have hpc : (s.task t).call.pc = .addTest := by
        simpa [Task.guard] using hp.task_guard ha hm
      have hself : ((s.next (.lengthTest t woke)).task t).call.pc = .addAlloc := by
        rw [next_task_self hm, hfull]
        rfl
      refine ⟨.letIn (thread t), ⟨room_of_notFull hp hcounts hmax hfull, ?_⟩,
        Gate.ext (addedNum_same rfl fun u hu => sync_next hp ha hm hu)
          (admitted_insert (by rw [hself]; rfl) fun u hu => next_task_of_ne hm hu)⟩
      rw [mem_gate]
      rintro ⟨u, hthread, hu⟩
      obtain rfl := hone u t (inside_of_admitted hu) (by rw [hpc]; rfl) hthread
      rw [hpc] at hu
      cases hu

/-- Its allocation. -/
theorem gate_alloc (hp : s.Placed arg) (hone : OneCall thread s) {ok : Bool}
    (ha : s.guard arg (.alloc t ok) = true) :
    ∃ b, (s.gate thread).can bound b ∧
      (s.next (.alloc t ok)).gate thread = (s.gate thread).next b := by
  have hm : s.taskAction (.alloc t ok) = some (t, .alloc ok) := rfl
  have hpc : (s.task t).call.pc = .addAlloc ∨ (s.task t).call.pc = .waitAlloc := by
    simpa [Task.guard] using hp.task_guard ha hm
  by_cases hgives : (s.task t).call.pc = .addAlloc ∧ ok = false
  · obtain ⟨hadd, rfl⟩ := hgives
    have hafter : ((s.next (.alloc t false)).task t).call.pc.admitted = false := by
      rw [next_task_self hm]
      simp [Task.next, Task.alloc, hadd, Task.goto, CallPc.admitted]
    refine ⟨.giveUp (thread t), mem_gate.mpr ⟨t, rfl, by rw [hadd]; rfl⟩,
      Gate.ext (addedNum_same rfl fun u hu => sync_next hp ha hm hu) ?_⟩
    exact admitted_erase hone (by rw [hadd]; rfl) hafter fun u hu => next_task_of_ne hm hu
  · refine gate_kept (.inl rfl) (fun u hu => sync_next hp ha hm hu) fun u => ?_
    by_cases hu : u = t
    · subst hu
      rw [next_task_self hm]
      rcases hpc with hadd | hwait
      · have hok : ok = true := by
          by_contra hfalse
          exact hgives ⟨hadd, by simpa using hfalse⟩
        simp [hok, Task.next, Task.alloc, hadd, Task.goto, CallPc.admitted]
      · cases ok <;> simp [Task.next, Task.alloc, hwait, Task.goto, CallPc.admitted]
    · rw [next_task_of_ne hm hu]

/-- The section that enqueues; what is waited for goes past the gate. -/
theorem gate_insert (hp : s.Placed arg) (hs : (s.task t).Sound) (hone : OneCall thread s)
    {clockOk : Bool} {woke : List ℕ} (ha : s.guard arg (.insert t clockOk woke) = true) :
    ∃ b, (s.gate thread).can bound b ∧
      (s.next (.insert t clockOk woke)).gate thread = (s.gate thread).next b := by
  have hm : s.taskAction (.insert t clockOk woke) = some (t, .insert clockOk) := rfl
  have hpc : (s.task t).call.pc = .addInsert ∨ (s.task t).call.pc = .waitInsert := by
    simpa [Task.guard] using hp.task_guard ha hm
  have hself := next_task_self hm
  have hout : ((s.next (.insert t clockOk woke)).task t).call.pc.admitted = false := by
    rw [hself]
    rcases hpc with hadd | hwait
    · simp [Task.next, Task.insert, hadd, Task.goto, CallPc.admitted]
    · cases clockOk <;> simp [Task.next, Task.insert, hwait, Task.goto, CallPc.admitted]
  -- the queue with the task, as far as it is one of `TPoolAddTask`
  have hnum : s.enqueues t clockOk = true → (s.next (.insert t clockOk woke)).addedNum =
      s.addedNum + if (s.task t).call.sync then 0 else 1 := by
    intro henq
    have hqueue : (s.next (.insert t clockOk woke)).hist.queue = s.hist.queue ++ [t] := by
      rw [next_insert henq]
      rfl
    have hkind : ((s.task t).next (.insert clockOk)).call.sync = (s.task t).call.sync :=
      (Task.SameLog.insert _ _).sync
    have hold : s.hist.queue.countP (fun u =>
        !((s.next (.insert t clockOk woke)).task u).call.sync) = s.addedNum :=
      List.countP_congr fun u hu => by rw [sync_next hp ha hm hu]
    unfold addedNum at hold ⊢
    rw [hqueue, List.countP_append, hold, List.countP_singleton, hself, hkind]
    cases (s.task t).call.sync <;> rfl
  rcases hpc with hadd | hwait
  · have hkind : (s.task t).call.sync = false := hs.sync false (by rw [hadd]; rfl)
    have henq : s.enqueues t clockOk = true := by simp [enqueues, hadd]
    refine ⟨.enter (thread t), mem_gate.mpr ⟨t, rfl, by rw [hadd]; rfl⟩, Gate.ext ?_ ?_⟩
    · show (s.next (.insert t clockOk woke)).addedNum = s.addedNum + 1
      rw [hnum henq, hkind]
      rfl
    · exact admitted_erase hone (by rw [hadd]; rfl) hout fun u hu => next_task_of_ne hm hu
  · have hkind : (s.task t).call.sync = true := hs.sync true (by rw [hwait]; rfl)
    refine ⟨.leave 0, Nat.zero_le _, Gate.ext ?_ ?_⟩
    · show (s.next (.insert t clockOk woke)).addedNum = s.addedNum
      by_cases henq : s.enqueues t clockOk = true
      · rw [hnum henq, hkind]
        rfl
      · exact addedNum_same (by rw [next_insert_refused henq]; rfl)
          fun u hu => sync_next hp ha hm hu
    · refine admitted_same fun u => ?_
      by_cases hu : u = t
      · rw [hu, hout, hwait]
        rfl
      · rw [next_task_of_ne hm hu]

/-- **Every step is one of the gate.** -/
theorem gate_next (hp : s.Placed arg) (hs : ∀ t, (s.task t).Sound) (hone : OneCall thread s)
    (hmax : s.taskMaxLength.toInt ≤ bound) (hcounts : s.hist.queue.length < 2 ^ 31)
    {a : TPoolAction} (ha : s.guard arg a = true) :
    ∃ b, (s.gate thread).can bound b ∧ (s.next a).gate thread = (s.gate thread).next b := by
  cases a with
  | lengthTest t woke => exact gate_lengthTest hp hone hmax hcounts ha
  | alloc t ok => exact gate_alloc hp hone ha
  | insert t clockOk woke => exact gate_insert hp (hs t) hone ha
  | worker w =>
      refine gate_calm hp ha fun u m hm => ?_
      simp only [taskAction] at hm
      cases hpc : s.worker w with
      | forEach loop tmp =>
          simp only [hpc] at hm
          cases hloop : forEachTask w loop with
          | none => simp [hloop] at hm
          | some v =>
              rw [hloop] at hm
              cases hm
              simp
      | body v tmp k =>
          rw [hpc] at hm
          cases hm
          simp
      | _ => simp [hpc] at hm
  | addTask v taskFunc taskArg =>
      refine gate_calm hp ha fun u m hm => ?_
      cases hm
      simp
  | addTaskAndWait v taskFunc taskArg timeoutSec =>
      refine gate_calm hp ha fun u m hm => ?_
      cases hm
      simp
  | caller v c =>
      refine gate_calm hp ha fun u m hm => ?_
      cases hm
      simp
  | _ => exact gate_calm hp ha fun u m hm => by cases hm

/-! ## Whole runs -/

/-- What each step needs of the state before it. -/
structure Manned (thread : ℕ → Fin n) (bound : ℕ) (s : ThreadPool) : Prop where
  oneCall : OneCall thread s
  max : s.taskMaxLength.toInt ≤ bound
  counts : s.hist.queue.length < 2 ^ 31

theorem Manned.next (h : Manned thread bound s) (hp : s.Placed arg) {a : TPoolAction}
    (ha : s.guard arg a = true) (hcrew : Crew thread bound s a) :
    Manned thread bound (s.next a) := by
  refine ⟨h.oneCall.next hp ha hcrew, ?_, hcrew.counts⟩
  by_cases hkeeps : a.KeepsMax
  · rw [next_taskMaxLength hkeeps]
    exact h.max
  · cases a with
    | setMaxQueueLength queueLen =>
        simp only [ThreadPool.next]
        split_ifs
        · exact hcrew.max queueLen rfl
        · exact h.max
    | _ => exact absurd trivial hkeeps

/-- One task to each thread that waits. -/
theorem waitedNum_le (hp : s.Placed arg) (hone : OneCall thread s) : s.waitedNum ≤ n := by
  have hqueue : s.hist.queue.Nodup := hp.wf.nodup.sublist hp.wf.queue_suffix.sublist
  have hthreads : ((s.hist.queue.filter fun t =>
      (s.task t).call.sync && (s.task t).call.pc.inSync.isSome).map thread).Nodup := by
    refine List.Nodup.map_on ?_ (hqueue.filter _)
    intro t ht u hu hthread
    simp only [List.mem_filter, Bool.and_eq_true] at ht hu
    exact hone t u ht.2.2 hu.2.2 hthread
  have hcard := hthreads.length_le_card
  rwa [List.length_map, Fintype.card_fin, ← List.countP_eq_length_filter] at hcard

/-- How much is queued, with `n` threads and `TaskMaxLength` up to `bound`. -/
structure Overshoot (n bound : ℕ) (s : ThreadPool) : Prop where
  added : s.addedNum ≤ bound - 1 + n
  waited : s.waitedNum ≤ n
  length : s.taskListLength.toInt = s.addedNum + s.waitedNum + s.abandonedNum

end ThreadPool

open ThreadPool

/-- `TaskMaxLength` after `TPoolModuleInit`. -/
def TPoolModuleInitArg.maxLength (arg : TPoolModuleInitArg) : BitVec 32 :=
  if arg.taskListMaxLength ≠ 0 then arg.taskListMaxLength else threadPoolMaxTaskLength

variable {arg : TPoolModuleInitArg} {n bound : ℕ} {thread : ℕ → Fin n} {s : ThreadPool}

theorem manned_of_reach (hmax : arg.maxLength.toInt ≤ bound)
    (hr : Reach (threadPoolSystem arg) (Crew thread bound) s) : Manned thread bound s := by
  refine hr.invariant_of (J := ThreadPool.Placed arg) (fun s hs => placed_of_reach hs) ?_ ?_
  · rintro s ⟨L, rfl⟩
    exact ⟨fun t u ht => by (cases ht), hmax, Nat.two_pow_pos 31⟩
  · intro s a hp h ha hcrew
    exact h.next hp ha hcrew

/-- **Threads that add tasks one after the other leave no more than `TaskMaxLength - 1` tasks and
one for each thread in the queue, but for those that they wait for:** of these there is one to
a thread, and any number whose wait is over. -/
theorem queue_overshoot (hmax : arg.maxLength.toInt ≤ bound)
    (hr : Reach (threadPoolSystem arg) (Crew thread bound) s) : Overshoot n bound s := by
  have hp := placed_of_reach hr
  have hmanned := manned_of_reach hmax hr
  have hgate : Reachable (gateSystem (Fin n) bound) (s.gate thread) := by
    refine Reach.view (J := fun s => s.Placed arg ∧ (∀ t, (s.task t).Sound) ∧
        Manned thread bound s) (gate thread)
      (fun s hs => ⟨placed_of_reach hs, sound_of_pool hs, manned_of_reach hmax hs⟩) ?_ ?_ hr
    · rintro s ⟨L, rfl⟩
      refine Gate.ext rfl (Finset.eq_empty_of_forall_notMem fun i hi => ?_)
      obtain ⟨t, -, ht⟩ := mem_gate.mp hi
      cases ht
    · rintro s a ⟨hp, hs, hm⟩ ha -
      obtain ⟨b, hb, hnext⟩ := gate_next hp hs hm.oneCall hm.max hm.counts ha
      exact .inr ⟨b, hb, trivial, hnext⟩
  have hheld := held_add_card_le hgate
  rw [Fintype.card_fin] at hheld
  refine ⟨(Nat.le_add_right _ _).trans hheld, waitedNum_le hp hmanned.oneCall, ?_⟩
  rw [hp.toInt_length hmanned.counts, s.length_queue]
  push_cast
  rfl

/-- The threads of `overtakingRun`. -/
def twoThreads (t : ℕ) : Fin 2 := if t = 0 then ⟨0, Nat.zero_lt_two⟩ else ⟨1, Nat.one_lt_two⟩

/-- The steps of a call that has begun. -/
theorem crew_of_begun (s : ThreadPool) (a : TPoolAction)
    (h : a.begins = none ∧ a.KeepsMax ∧ (s.next a).hist.queue.length < 2 ^ 31) :
    Crew twoThreads 1 s a where
  oneCall t ht := by rw [h.1] at ht; cases ht
  max queueLen ha := by rw [ha] at h; exact h.2.1.elim
  counts := h.2.2

theorem legal_overtakingRun :
    Legal (threadPoolSystem narrow) (Crew twoThreads 1) narrowPool overtakingRun := by
  refine ⟨by decide, ⟨fun t _ u _ => rfl, by simp, by decide⟩,
    by decide, ⟨fun t ht u hthread => ?_, by simp, by decide⟩,
    Legal.mono crew_of_begun (by decide)⟩
  cases ht
  have hu : u ≠ 0 := by
    rintro rfl
    exact absurd hthread (by decide)
  show ((narrowPool.next (.addTask 0 (some 1) 7)).task u).call.pc.inSync.isSome = false
  rw [next_task_of_ne rfl hu]
  rfl

/-- So much is reached, with two threads and room for one task. -/
theorem queue_overshoot_two : ∃ s, Reach (threadPoolSystem narrow) (Crew twoThreads 1) s ∧
    s.addedNum = 2 ∧ Overshoot 2 1 s := by
  have hr : Reach (threadPoolSystem narrow) (Crew twoThreads 1)
      (exec (threadPoolSystem narrow) narrowPool overtakingRun) :=
    Reach.exec (.init ⟨_, rfl⟩) legal_overtakingRun
  exact ⟨_, hr, by decide, queue_overshoot (by decide) hr⟩

end MyWorkEnv
