import MyWorkEnv.MyUtils.TPool.Order
import MyWorkEnv.MyUtils.TPool.Overshoot
import MyWorkEnv.MyUtils.TPool.Rest

/-!
# One thread that adds tasks

One thread makes calls of `TPoolAddTask`, one after the other, and nobody else adds
tasks. As long as the bound of the queue is not less than the number of its calls,
each of them succeeds, so the tasks are queued in the order of the calls. None is
skipped, and a single worker runs them in that order (`Produced.first_of_inTurn`).
-/

namespace MyWorkEnv

open Transition

namespace Task

variable {k : Task} {m : TaskAction}

theorem next_returned (hm : m ≠ .body .running) : (k.next m).returned = k.returned := by
  cases m with
  | start sync taskFunc taskArg refused => rfl
  | lengthTest busy => rfl
  | alloc ok =>
      simp only [next, alloc]
      split <;> cases ok <;> rfl
  | insert clockOk => exact (SameLog.insert k clockOk).returned
  | caller a => exact (SameLog.caller k a).returned
  | enter => rfl
  | body pc =>
      refine (bodyEffect_returned fun hpc => hm ?_ : (k.bodyEffect pc).returned = k.returned)
      rw [hpc]

/-- Only a task that is waited for is skipped. -/
def Waited (k : Task) : Prop := k.fate = .skipped → k.node.hasTimeOut = true

theorem Waited.next (hs : k.Sound) (h : k.Waited) (hg : k.guard m = true) : (k.next m).Waited := by
  cases m with
  | start sync taskFunc taskArg refused => exact h
  | lengthTest busy => exact h
  | alloc ok =>
      -- nothing has become of a node that is just being made
      have hpending : k.fate = .pending := (hs.fresh (early_of_alloc hg)).2.2.1
      have hsame : (k.next (.alloc ok)).fate = k.fate := by
        simp only [Task.next, alloc]
        split <;> cases ok <;> rfl
      intro hskipped
      rw [hsame, hpending] at hskipped
      cases hskipped
  | insert clockOk =>
      have hsame := SameLog.insert k clockOk
      intro hskipped
      exact hsame.hasTimeOut.trans (h (hsame.fate.symm.trans hskipped))
  | caller a =>
      have hsame := SameLog.caller k a
      intro hskipped
      exact hsame.hasTimeOut.trans (h (hsame.fate.symm.trans hskipped))
  | enter => exact h
  | body pc =>
      have hnode : (k.next (.body pc)).node = k.node := bodyEffect_node pc
      have hfate : (k.next (.body pc)).fate = k.fate ∨ (k.next (.body pc)).fate ≠ .skipped ∨
          k.isTimeout = true := by
        simp only [Task.next, body]
        cases pc with
        | test =>
            simp only [bodyEffect]
            split_ifs with hnull htime
            · exact .inr (.inl (by simp))
            · exact .inr (.inr htime)
            · exact .inl rfl
        | signalTask =>
            left
            simp only [bodyEffect]
            split_ifs <;> rfl
        | teardown c skipped =>
            left
            cases c <;> rfl
        | count => exact .inr (.inl (by simp [bodyEffect]))
        | _ => exact .inl rfl
      intro hskipped
      rw [hnode]
      rcases hfate with hsame | hne | htime
      · exact h (hsame.symm.trans hskipped)
      · exact absurd hskipped hne
      · simp only [isTimeout, Bool.and_eq_true] at htime
        exact htime.1

theorem waited_of_reach {P : Task → TaskAction → Prop} (hr : Reach taskSystem P k) :
    k.Waited := by
  refine hr.invariant_of (fun k hk => sound_of_reach hk) ?_ ?_
  · rintro k rfl hskipped
    cases hskipped
  · intro k m hs h hg _
    exact h.next hs hg

end Task

/-- What a thread in `TPoolAddTask` and the workers do, while there is memory. -/
def TPoolAction.Produces : TPoolAction → Bool
  | .lengthTest _ _ | .insert _ _ _ | .worker _ | .spuriousWakeup _ => true
  | .alloc _ ok => ok
  | _ => false

namespace ThreadPool

variable {arg : TPoolModuleInitArg} {s s' : ThreadPool} {f n t w : ℕ}

theorem waited_of_pool {P : ThreadPool → TPoolAction → Prop}
    (hr : Reach (threadPoolSystem arg) P s) (t : ℕ) : (s.task t).Waited := by
  have hall : Reach (threadPoolSystem arg) (OnTask t fun _ _ => True) s := by
    apply hr.mono
    intro s a _
    unfold OnTask
    split
    · exact fun _ => trivial
    · trivial
  exact Task.waited_of_reach (task_of_reach hall)

/-! ## Where the calls are -/

/-- Is the last of so many calls still in `TPoolAddTask`? -/
def adding (s : ThreadPool) (calls : ℕ) : Bool :=
  (s.task (calls - 1)).call.pc.inSync == some false

/-- A call with a function `f`, and its own number for an argument. -/
def AddCall (f t : ℕ) (call : TPoolCall) (pc : CallPc) : Prop :=
  call = ⟨false, some f, t, false, false, pc⟩

theorem AddCall.goto {k : Task} {pc pc' : CallPc} (h : AddCall f t k.call pc) :
    AddCall f t (k.goto pc').call pc' := by
  rw [AddCall] at h
  rw [AddCall, Task.goto, h]

/-- One thread has made `n` calls, one after the other, and nobody else has made any. -/
structure Produced (f n : ℕ) (s : ThreadPool) : Prop where
  idle : ∀ t, n ≤ t → (s.task t).call.pc = .idle
  call : ∀ t < n, ∃ pc, AddCall f t (s.task t).call pc ∧
    (pc = .returned mySuccess ∨ t + 1 = n ∧ pc.inSync = some false)
  order : s.hist.order = List.range (if s.adding n then n - 1 else n)

theorem init_produced (L : LinkedRing.Links TPoolPtr) : Produced f 0 (.init arg L) where
  idle _ _ := rfl
  call t ht := absurd ht (Nat.not_lt_zero t)
  order := rfl

namespace Produced

theorem congr (h : s.Produced f n) (hcall : ∀ t, (s'.task t).call = (s.task t).call)
    (horder : s'.hist.order = s.hist.order) : s'.Produced f n where
  idle t ht := by
    rw [hcall]
    exact h.idle t ht
  call t ht := by
    rw [hcall]
    exact h.call t ht
  order := by
    rw [horder, adding, hcall]
    exact h.order

/-- The last call goes on, or returns with its task in the queue. -/
theorem of_last (h : s.Produced f n) (pc : CallPc) (hlast : t + 1 = n)
    (hother : ∀ u, u ≠ t → (s'.task u).call = (s.task u).call)
    (hcall : AddCall f t (s'.task t).call pc)
    (hpc : pc.inSync = some false ∧ s'.hist.order = List.range t ∨
      pc = .returned mySuccess ∧ s'.hist.order = List.range (t + 1)) : s'.Produced f n where
  idle u hu := by
    rw [hother u (by omega)]
    exact h.idle u hu
  call u hu := by
    by_cases hut : u = t
    · subst hut
      exact ⟨pc, hcall, hpc.elim (fun hin => .inr ⟨hlast, hin.1⟩) (fun hret => .inl hret.1)⟩
    · rw [hother u hut]
      exact h.call u hu
  order := by
    have hpred : n - 1 = t := by omega
    have hpc' : (s'.task t).call.pc = pc := congrArg TPoolCall.pc hcall
    rw [adding, hpred, hpc']
    rcases hpc with ⟨hin, horder⟩ | ⟨rfl, horder⟩
    · rw [hin, if_pos (by simp), horder]
    · rw [if_neg (by decide), horder, hlast]

/-- A call that is inside is the last one. -/
theorem last_of_inside (h : s.Produced f n) (hin : (s.task t).call.pc.inSync = some false) :
    t + 1 = n ∧ s.hist.order = List.range t := by
  have hlt : t < n := by
    by_contra hge
    rw [h.idle t (Nat.le_of_not_lt hge)] at hin
    cases hin
  obtain ⟨pc, hcall, hpc⟩ := h.call t hlt
  have hpc' : (s.task t).call.pc = pc := congrArg TPoolCall.pc hcall
  rw [hpc'] at hin
  have hlast : t + 1 = n := by
    rcases hpc with rfl | ⟨hlast, -⟩
    · cases hin
    · exact hlast
  have hpred : n - 1 = t := by omega
  refine ⟨hlast, ?_⟩
  have hadding : s.adding n = true := by rw [adding, hpred, hpc', hin]; rfl
  rw [h.order, if_pos hadding, hpred]

/-- All calls are of `TPoolAddTask`. -/
theorem inSync_ne (h : s.Produced f n) (t : ℕ) : (s.task t).call.pc.inSync ≠ some true := by
  rcases Nat.lt_or_ge t n with ht | ht
  · obtain ⟨pc, hcall, hpc⟩ := h.call t ht
    have hpc' : (s.task t).call.pc = pc := congrArg TPoolCall.pc hcall
    rw [hpc']
    rcases hpc with rfl | ⟨-, hin⟩
    · exact fun hwaits => by cases hwaits
    · simp [hin]
  · rw [h.idle t ht]
    exact fun hwaits => by cases hwaits

/-- Nobody waits for a task. -/
theorem not_blocked (h : s.Produced f n) (t : ℕ) : (s.task t).call.pc ≠ .blocked := by
  intro hblocked
  exact h.inSync_ne t (by rw [hblocked]; rfl)

/-- A worker moves no call. -/
theorem worker_call (h : s.Produced f n) (w t : ℕ) :
    ((s.next (.worker w)).task t).call = (s.task t).call := by
  cases hm : s.taskAction (.worker w) with
  | none => rw [next_task_none hm]
  | some tm =>
      obtain ⟨u, m⟩ := tm
      by_cases htu : t = u
      · subst htu
        rw [next_task_self hm]
        cases hpc : s.worker w with
        | forEach loop tmp =>
            simp only [taskAction, hpc] at hm
            cases hfor : forEachTask w loop with
            | none => simp [hfor] at hm
            | some v =>
                simp only [hfor, Option.some.injEq, Prod.mk.injEq] at hm
                rw [← hm.2]
                rfl
        | body v tmp k =>
            simp only [taskAction, hpc, Option.some.injEq, Prod.mk.injEq] at hm
            rw [← hm.2]
            rcases (s.task t).next_body_call k with hsame | ⟨-, hblocked, -⟩
            · exact hsame
            · exact absurd hblocked (h.not_blocked t)
        | _ => simp [taskAction, hpc] at hm
      · rw [next_task_of_ne hm htu]

/-- There is room for the last of the calls. -/
theorem not_full (h : s.Produced f n) (hp : s.Placed arg) (hroom : (n : ℤ) ≤ s.taskMaxLength.toInt)
    (hin : (s.task t).call.pc.inSync = some false) : s.isFull = false := by
  obtain ⟨hlast, horder⟩ := h.last_of_inside hin
  obtain ⟨front, hfront⟩ := hp.wf.queue_suffix
  have hlen : s.hist.queue.length ≤ t := by
    have hsplit := congrArg List.length hfront
    rw [horder, List.length_range, List.length_append] at hsplit
    omega
  have hmax := s.taskMaxLength.toInt_lt
  have hint := hp.toInt_length (by omega)
  rw [← Bool.not_eq_true, isFull_iff]
  omega

/-- `TPoolAddTask` is called again. -/
theorem addTask (h : s.Produced f n) (hinited : s.inited = true) (hout : s.adding n = false) :
    (s.addTask n (some f) n).Produced f (n + 1) where
  idle t ht := by
    have hne : t ≠ n := by omega
    show (Function.update s.task n _ t).call.pc = .idle
    rw [Function.update_of_ne hne]
    exact h.idle t (by omega)
  call t ht := by
    show ∃ pc, AddCall f t (Function.update s.task n _ t).call pc ∧ _
    by_cases htn : t = n
    · subst htn
      refine ⟨.addTest, ?_, .inr ⟨rfl, rfl⟩⟩
      rw [Function.update_self, hinited]
      rfl
    · rw [Function.update_of_ne htn]
      obtain ⟨pc, hcall, hpc⟩ := h.call t (by omega)
      refine ⟨pc, hcall, .inl (hpc.resolve_right ?_)⟩
      rintro ⟨rfl, hin⟩
      rw [adding, Nat.add_sub_cancel, congrArg TPoolCall.pc hcall, hin] at hout
      cases hout
  order := by
    have hadding : (s.addTask n (some f) n).adding (n + 1) = true := by
      show ((Function.update s.task n _ n).call.pc.inSync == some false) = true
      rw [Function.update_self, hinited]
      rfl
    have horder := h.order
    rw [hout] at horder
    rw [hadding, if_pos rfl, Nat.add_sub_cancel]
    exact horder

/-- **A step inside.** The thread goes on in its call, and the call does not fail. -/
theorem next (h : s.Produced f n) (hp : s.Placed arg)
    (hroom : (n : ℤ) ≤ s.taskMaxLength.toInt) {a : TPoolAction} (ha : s.guard arg a = true)
    (hmay : a.Produces = true) : (s.next a).Produced f n := by
  cases a with
  | lengthTest t woke =>
      simp only [guard, Bool.and_eq_true, beq_iff_eq] at ha
      have hin : (s.task t).call.pc.inSync = some false := by rw [ha.1]; rfl
      obtain ⟨hlast, horder⟩ := h.last_of_inside hin
      obtain ⟨pc, hcall, -⟩ := h.call t (by omega)
      refine h.of_last .addAlloc hlast (fun u hu => ?_) ?_ (.inl ⟨rfl, horder⟩)
      · exact congrArg Task.call (Function.update_of_ne hu _ _)
      · show AddCall f t (Function.update s.task t _ t).call _
        rw [Function.update_self, h.not_full hp hroom hin]
        exact hcall.goto
  | alloc t ok =>
      obtain rfl : ok = true := hmay
      have hpc : (s.task t).call.pc = .addAlloc := by
        simp only [guard, Task.guard, Bool.or_eq_true, beq_iff_eq] at ha
        exact ha.resolve_right fun hwait => h.inSync_ne t (by rw [hwait]; rfl)
      obtain ⟨hlast, horder⟩ := h.last_of_inside (by rw [hpc]; rfl)
      obtain ⟨pc, hcall, -⟩ := h.call t (by omega)
      refine h.of_last .addInsert hlast (fun u hu => ?_) ?_ (.inl ⟨rfl, horder⟩)
      · exact congrArg Task.call (Function.update_of_ne hu _ _)
      · show AddCall f t (Function.update s.task t _ t).call _
        rw [Function.update_self]
        simp only [Task.next, Task.alloc, hpc, if_true]
        exact hcall.goto
  | insert t clockOk woke =>
      have hpc : (s.task t).call.pc = .addInsert := by
        simp only [guard, Task.guard, Bool.and_eq_true, Bool.or_eq_true, beq_iff_eq] at ha
        exact ha.1.resolve_right fun hwait => h.inSync_ne t (by rw [hwait]; rfl)
      obtain ⟨hlast, horder⟩ := h.last_of_inside (by rw [hpc]; rfl)
      obtain ⟨pc, hcall, -⟩ := h.call t (by omega)
      rw [next_insert (by simp [enqueues, hpc])]
      refine h.of_last (.returned mySuccess) hlast (fun u hu => ?_) ?_ (.inr ⟨rfl, ?_⟩)
      · exact congrArg Task.call (Function.update_of_ne hu _ _)
      · show AddCall f t (Function.update s.task t _ t).call _
        rw [Function.update_self]
        simp only [Task.next, Task.insert, hpc]
        exact hcall.goto
      · show s.hist.order ++ [t] = _
        rw [horder, List.range_succ]
  | worker w =>
      refine h.congr (h.worker_call w) ?_
      exact (stepWorker_queueKept (s := s) (w := w)).1
  | spuriousWakeup w => exact h.congr (fun _ => rfl) rfl
  | _ => cases hmay

end Produced

/-! ## What becomes of the tasks -/

/-- Only the end of `TaskFunc` counts as its return. -/
theorem next_returned_of_ne {a : TPoolAction}
    (ha : s.taskAction a ≠ some (t, .body .running)) :
    ((s.next a).task t).returned = (s.task t).returned := by
  cases hm : s.taskAction a with
  | none => rw [next_task_none hm]
  | some um =>
      obtain ⟨u, m⟩ := um
      by_cases htu : t = u
      · subst htu
        rw [next_task_self hm]
        refine Task.next_returned fun hrunning => ha ?_
        rw [hm, hrunning]
      · rw [next_task_of_ne hm htu]

theorem taskAction_running {a : TPoolAction} (ha : s.taskAction a = some (t, .body .running)) :
    ∃ w tmp, a = .worker w ∧ s.worker w = .body t tmp .running := by
  cases a with
  | worker w =>
      cases hpc : s.worker w with
      | forEach loop tmp =>
          simp only [taskAction, hpc] at ha
          cases hfor : forEachTask w loop <;> simp [hfor] at ha
      | body u tmp k =>
          simp only [taskAction, hpc, Option.some.injEq, Prod.mk.injEq, TaskAction.body.injEq] at ha
          obtain ⟨rfl, rfl⟩ := ha
          exact ⟨w, tmp, rfl, hpc⟩
      | _ => simp [taskAction, hpc] at ha
  | _ => simp [taskAction] at ha

namespace Produced

/-- A node that a worker may come to has the function and the argument of its call. -/
theorem node (h : s.Produced f n) (hp : s.Placed arg) (hs : (s.task t).Sound)
    (hstage : s.stage t ≠ .outside) : t < n ∧ (s.task t).node.taskFunc = some f ∧
      (s.task t).node.taskArg = t ∧ (s.task t).node.hasTimeOut = false := by
  have hlt : t < n := by
    by_contra hge
    exact hstage (hp.early t (by rw [h.idle t (Nat.le_of_not_lt hge)]; rfl))
  obtain ⟨pc, hcall, -⟩ := h.call t hlt
  obtain ⟨hfunc, harg, htime⟩ := hs.filled (.inl hstage)
  rw [hcall] at hfunc harg htime
  exact ⟨hlt, hfunc, harg, htime⟩

/-- A task in `TaskFunc`. -/
theorem running (h : s.Produced f n) (hp : s.Placed arg) (hs : (s.task t).Sound)
    (hw : w < arg.threadPoolSize) {tmp : Option TPoolPtr}
    (hpc : s.worker w = .body t tmp .running) :
    t < n ∧ (s.task t).node.taskArg = t ∧ (s.task t).returned = 0 ∧
      ((s.next (.worker w)).task t).returned = 1 := by
  have hok := hp.worker w hw
  rw [hpc] at hok
  obtain ⟨ts, -, -, -, hstage, -⟩ := hok
  have hstage' : (s.task t).stage = .inBody .running := hstage
  have hnode := h.node hp hs (by rw [hstage]; simp)
  have hlogged := hs.logged
  rw [hstage'] at hlogged
  have hreturned : (s.task t).returned = 0 := hlogged.2.2.1
  have hm : s.taskAction (.worker w) = some (t, .body .running) := by simp [taskAction, hpc]
  refine ⟨hnode.1, hnode.2.2.1, hreturned, ?_⟩
  rw [next_task_self hm]
  show (s.task t).returned + 1 = 1
  rw [hreturned]

/-- A task that a worker is through with has run. -/
theorem ran (h : s.Produced f n) (hp : s.Placed arg) (hs : (s.task t).Sound)
    (hwait : (s.task t).Waited) (hthrough : s.stage t = .passed ∨ s.stage t = .done) :
    (s.task t).returned = 1 := by
  have hstage : s.stage t ≠ .outside := by rcases hthrough with hg | hg <;> simp [hg]
  obtain ⟨-, hfunc, -, htime⟩ := h.node hp hs hstage
  have hlogged := hs.logged
  rcases hthrough with hg | hg
  · have hg' : (s.task t).stage = .passed := hg
    rw [hg', Task.Logged, hfunc] at hlogged
    cases hlogged.1
  · have hg' : (s.task t).stage = .done := hg
    rw [hg'] at hlogged
    rcases hlogged.2 with hlog | hlog
    · exact hlog.2.1
    · have hskipped := hwait hlog.2.2.1
      rw [htime] at hskipped
      cases hskipped

/-- **With one worker, the tasks before the one that runs have run.** -/
theorem ran_before (h : s.Produced f n) (hp : s.Placed arg) (hturn : s.hist.InTurn)
    (hs : ∀ t, (s.task t).Sound) (hwait : ∀ t, (s.task t).Waited) (hsize : arg.threadPoolSize = 1)
    (hw : w < arg.threadPoolSize) {tmp : Option TPoolPtr}
    (hpc : s.worker w = .body t tmp .running) {u : ℕ} (hu : u < t) : (s.task u).returned = 1 := by
  have hok := hp.worker w hw
  rw [hpc] at hok
  obtain ⟨ts, hrest, -, -, hstage, -⟩ := hok
  have hzero : w = 0 := by omega
  subst hzero
  have hentered : s.stage t ≠ .outside := by rw [hstage]; simp
  have htin : t ∈ s.hist.order := by
    by_contra hout
    exact hentered (hp.outside t hout)
  have hpair : [u, t].Sublist s.hist.order := by
    rw [h.order] at htin ⊢
    have huin := List.mem_range.mpr (hu.trans (List.mem_range.mp htin))
    refine (BatchQueue.pair_of_mem huin htin hu.ne).resolve_right fun hswapped => ?_
    have hlt := List.pairwise_lt_range.sublist hswapped
    simp only [List.pairwise_cons, List.mem_singleton, forall_eq] at hlt
    omega
  refine h.ran hp (hs u) (hwait u) (hp.through u ?_)
  refine hturn.done_of_earlier hp.wf.nodup hpair (.inr ?_)
  rw [hrest, List.head?_cons]

/-- At rest no call is inside, and all tasks have run. -/
theorem all_ran (h : s.Produced f n) (hp : s.Placed arg) (hs : ∀ t, (s.task t).Sound)
    (hwait : ∀ t, (s.task t).Waited) (hq : s.Quiescent arg) :
    s.adding n = false ∧ ∀ t < n, (s.task t).returned = 1 := by
  have hout : s.adding n = false := by
    rw [adding, beq_eq_false_iff_ne]
    rcases hq.calls (n - 1) with hpc | ⟨ret, hpc⟩ | ⟨hpc, -⟩ <;> rw [hpc] <;>
      exact fun hin => by cases hin
  have hqueue : s.hist.queue = [] := by
    simpa using (myListIsEmpty_iff hp.queue).mp hq.empty
  refine ⟨hout, fun t ht => h.ran hp (hs t) (hwait t) ?_⟩
  refine hp.through_of_asleep hq.asleep hqueue ?_
  rw [h.order, hout]
  exact List.mem_range.mpr ht

/-- The calls that have not been made have nothing left to do. -/
theorem covers (h : s.Produced f n) : Covers arg (Finset.range n) s := by
  intro t ht
  rw [Finset.mem_range, Nat.not_lt] at ht
  rw [h.idle t ht]
  rfl

end Produced

end ThreadPool

end MyWorkEnv
