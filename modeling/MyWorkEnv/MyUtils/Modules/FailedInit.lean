import MyWorkEnv.MyUtils.Modules.Sound
import MyWorkEnv.Server.ServerClientMap

/-!
# `Init` functions that fail

The `Init`s that create threads, from the uninitialised state, where any of
their calls may fail: the Timer and the Health module, the thread pool and the
server. A failed `Init` should leave nothing behind, since the `Exit`s look at
one flag only, which is not set then. What the Timer and the Health module leave
registered when `pthread_create` fails, and the pool without memory, stays so,
and the server is taken for running.

`MemCalloc` is taken to answer `NULL` where the pool cannot be had. There is no
return from a failed assertion, or from the use of `Threads` where it is `NULL`.
-/

namespace MyWorkEnv

open EventWorker MemLedger MyMemWorker

/-! ## The thread pool -/

/-- What `calloc` gives for the pool and for `Threads`, and what the calls of
`pthread_create` return. -/
structure TPoolAnswers where
  pool : Option ℕ
  threads : Option ℕ
  created : ℕ → ℤ

/-- `TPoolModuleInit`; `none` if it does not return. -/
def tPoolModuleInitFailing (t : TPoolModule) (s : MemLedger) (threadPoolSize : Option ℤ)
    (o : TPoolAnswers) : Option (ℤ × TPoolModule × MemLedger) :=
  if t.inited then some (mySuccess, t, s)
  else
    match threadPoolSize with
    | none => some (-myEinval, t, s)
    | some size =>
        if size ≤ 0 then some (-myEinval, t, s)
        else
          let r := s.register t.memId (some tPoolName)
          if r.1 ≠ mySuccess then some (r.1, { t with memId := r.2.2 }, r.2.1)
          else
            let q := o.pool.elim (0, r.2.1) fun addr =>
              r.2.1.calloc r.2.2 sizeofMyThreadPool addr
            if q.1 = 0 then some (-myEnoMem, { t with threadPool := 0, memId := r.2.2 }, q.2)
            else
              let u := o.threads.elim (0, q.2) fun addr =>
                q.2.calloc r.2.2 (sizeofPthread * size.toNat) addr
              -- `assert(!ret)` after each `pthread_create`
              if u.1 = 0 ∨ ∃ loop < size.toNat, o.created loop ≠ 0 then none
              else some (mySuccess, ⟨true, q.1, u.1, t.lock.init.use, t.cond.init, r.2.2⟩, u.2)

/-! ## The server -/

/-- `sg_ServerProcWorker`; `created` tells whether `Thread` is a thread. -/
structure ServerProcWorker where
  running : Bool
  clientMap : ServerClientMap ℕ
  created : Bool

/-- `pthread_create` returns `created`. -/
def serverProcInit (p : ServerProcWorker) (created : ℤ) : ℤ × ServerProcWorker :=
  if p.running then (mySuccess, p)
  else
    (created, ⟨true, serverClientMapInit p.clientMap, if created = 0 then true else p.created⟩)

/-- Whether `ServerProcExit` gets to `pthread_join`. -/
def ServerProcWorker.exitJoins (p : ServerProcWorker) : Bool := p.running

/-- The same of `TimerModuleExit` and `HealthModuleExit`. -/
def EventWorker.exitJoins (w : EventWorker) : Bool := w.isRunning

/-! ## What a failed call has to leave -/

/-- A call of `Init` with what it leaves: the ledger, the module's id if it has one, its flag,
whether its thread was created, and whether `Exit` would join it. -/
structure InitReturn where
  ret : ℤ
  ledger : MemLedger
  memId : Option ℤ
  up : Bool
  created : Bool
  exitJoins : Bool

/-- Nothing is left of it. -/
structure LeavesNone (s : MemLedger) (r : InitReturn) : Prop where
  unregistered : ∀ memId ∈ r.memId, r.ledger.mem.worker.registeredSlot memId = none
  live : r.ledger.live = s.live
  down : r.up = false
  exit : r.exitJoins = true → r.created = true

/-- A module, with the argument of `Init` and what the calls in it return. -/
inductive ModuleInit where
  | tPool (t : TPoolModule) (threadPoolSize : Option ℤ) (o : TPoolAnswers)
  | timer (sizeofEvent : Fin (2 ^ 31)) (w : EventWorker) (created : ℤ) (addr : ℕ × ℕ)
  | health (sizeofEvent : Fin (2 ^ 31)) (h : MyHealthMonitor)
      (initArg : Option (MyModulesEnum → ℤ)) (created : ℤ) (addr : Option MyModulesEnum → ℕ × ℕ)
  | server (p : ServerProcWorker) (created : ℤ)

namespace ModuleInit

/-- As it is at first, or after `Exit`. -/
def Uninitialised (s : MemLedger) : ModuleInit → Prop
  | .tPool t _ _ => t.inited = false ∧ s.mem.worker.registeredSlot t.memId = none
  | .timer _ w _ _ => w.isRunning = false ∧ s.mem.worker.registeredSlot w.memId = none
  | .health _ h _ _ _ =>
      h.worker.isRunning = false ∧ s.mem.worker.registeredSlot h.worker.memId = none
  | .server p _ => p.running = false ∧ p.created = false

/-- The call; the threads of the Timer and the Health module and of the server are there if
it succeeds, and `TPoolModuleExit` joins none. -/
def call (s : MemLedger) : ModuleInit → Option InitReturn
  | .tPool t threadPoolSize o =>
      (tPoolModuleInitFailing t s threadPoolSize o).map fun r =>
        ⟨r.1, r.2.2, some r.2.1.memId, r.2.1.inited, r.2.1.inited, false⟩
  | .timer sizeofEvent w created addr =>
      let r := timerModuleInit sizeofEvent w s created addr
      some ⟨r.1, r.2.2, some r.2.1.memId, r.2.1.isRunning, r.1 = mySuccess, r.2.1.exitJoins⟩
  | .health sizeofEvent h initArg created addr =>
      let r := healthModuleInit sizeofEvent h s initArg created addr
      some ⟨r.1, r.2.2, some r.2.1.worker.memId, r.2.1.worker.isRunning, r.1 = mySuccess,
        r.2.1.worker.exitJoins⟩
  | .server p created =>
      let r := serverProcInit p created
      some ⟨r.1, s, none, r.2.running, r.2.created, r.2.exitJoins⟩

/-- If it fails, nothing is left of it. -/
def Atomic (s : MemLedger) (m : ModuleInit) : Prop :=
  ∀ r ∈ m.call s, r.ret ≠ mySuccess → LeavesNone s r

/-- No slot is free for the module, or the calls that follow succeed. -/
def Clean (s : MemLedger) : ModuleInit → Prop
  | .tPool _ threadPoolSize o =>
      (∀ size ∈ threadPoolSize, size ≤ 0) ∨ s.mem.worker.freeSlot = none ∨ o.pool ≠ none
  | .timer _ _ created _ | .health _ _ _ created _ =>
      s.mem.worker.freeSlot = none ∨ created = mySuccess
  | .server _ created => created = mySuccess

end ModuleInit

variable {s : MemLedger} {memId : ℤ}

/-! ## Registration -/

/-- A module without an id gets one if and only if there is a free slot. -/
theorem register_eq_success_iff (hinited : s.mem.worker.inited = true)
    (hslot : s.mem.worker.registeredSlot memId = none) (name : List UInt8) :
    (s.register memId (some name)).1 = mySuccess ↔ s.mem.worker.freeSlot ≠ none := by
  have hheld : s.mem.worker.heldSlot memId = none := by simp [heldSlot, hslot]
  simp only [MemLedger.register, memRegister, hinited, hheld, Bool.not_true, Bool.false_eq_true,
    if_false, Option.isSome_none]
  cases s.mem.worker.freeSlot with
  | none => exact iff_of_false enoMem_ne_success (fun h => h rfl)
  | some i => exact iff_of_true rfl (Option.some_ne_none i)

/-! ## The modules -/

section EventWorker

variable {w : EventWorker} {created : ℤ}

/-- The return of either module's `Init`. -/
def EventWorker.returns (r : ℤ × EventWorker × MemLedger) : InitReturn :=
  ⟨r.1, r.2.2, some r.2.1.memId, r.2.1.isRunning, r.1 = mySuccess, r.2.1.exitJoins⟩

/-- With the id, all depends on `pthread_create`: the id is not given back. -/
theorem EventWorker.moduleInit_leaves_iff (hinited : s.mem.worker.inited = true)
    (hrunning : w.isRunning = false) (hslot : s.mem.worker.registeredSlot w.memId = none)
    (name : List UInt8) (thread : EventWorker → MemLedger → EventWorker × MemLedger) :
    ((w.moduleInit s name created thread).1 ≠ mySuccess →
        LeavesNone s (returns (w.moduleInit s name created thread))) ↔
      s.mem.worker.freeSlot = none ∨ created = mySuccess := by
  have hiff := register_eq_success_iff hinited hslot name
  have hdown : ¬ w.isRunning = true := by simp [hrunning]
  by_cases hret : (s.register w.memId (some name)).1 = mySuccess
  · rw [or_iff_right (hiff.mp hret), EventWorker.moduleInit, if_neg hdown,
      create_registered created hret]
    by_cases hcreated : created = mySuccess
    · rw [if_neg (not_not_intro hcreated)]
      exact iff_of_true (fun hfailed => absurd hcreated hfailed) hcreated
    · rw [if_pos hcreated]
      refine iff_of_false (fun hleaves => ?_) hcreated
      have hnone := (hleaves hcreated).unregistered _ rfl
      obtain ⟨i, hi⟩ := registeredSlot_of_register hret
      exact absurd (hi.symm.trans hnone) (Option.some_ne_none i)
  · have hfull : s.mem.worker.freeSlot = none := by
      by_contra hfree
      exact hret (hiff.mpr hfree)
    rw [EventWorker.moduleInit, if_neg hdown, create_failed created hret, if_pos hret]
    refine iff_of_true (fun _ => ⟨?_, rfl, hrunning, fun hjoins => absurd hjoins hdown⟩)
      (Or.inl hfull)
    rintro memId hid
    cases hid
    exact hslot

end EventWorker

section TPool

variable {t : TPoolModule} {size : ℤ} {o : TPoolAnswers}

/-- Where nothing fails, `Init` is that of the program over the modules. -/
theorem tPoolModuleInitFailing_eq (hsize : sizeofPthread * size.toNat ≤ 0x7fffffff)
    (pool threads : ℕ) :
    tPoolModuleInitFailing t s (some size) ⟨some pool, some threads, fun _ => 0⟩ =
      some (tPoolModuleInit t s (some size) (pool, threads)) := by
  simp only [tPoolModuleInitFailing, tPoolModuleInit, Option.elim_some, ne_eq, not_true_eq_false,
    and_false, exists_false, or_false]
  by_cases hret : (s.register t.memId (some tPoolName)).1 = mySuccess
  · obtain ⟨i, hslot⟩ := registeredSlot_of_register hret
    have hpool := calloc_ne_zero hslot (by decide : sizeofMyThreadPool ≤ 0x7fffffff) pool
    have hkept := (registeredSlot_congr (fun i => registered_calloc
      (s.register t.memId (some tPoolName)).2.2 sizeofMyThreadPool pool)
      (s.register t.memId (some tPoolName)).2.2).trans hslot
    have hthreads := calloc_ne_zero hkept hsize threads
    rw [if_neg (not_not_intro hret), if_neg (not_not_intro hret), if_neg hpool, if_neg hpool,
      if_neg hthreads]
    split_ifs <;> rfl
  · rw [if_pos hret, if_pos hret]
    split_ifs <;> rfl

/-- Without memory for the pool the id is kept. -/
theorem tPoolModuleInitFailing_noPool (hdown : ¬ t.inited = true) (hsize : ¬ size ≤ 0)
    (hret : (s.register t.memId (some tPoolName)).1 = mySuccess) (hpool : o.pool = none) :
    tPoolModuleInitFailing t s (some size) o = some (-myEnoMem,
      { t with
        threadPool := 0
        memId := (s.register t.memId (some tPoolName)).2.2 },
      (s.register t.memId (some tPoolName)).2.1) := by
  simp only [tPoolModuleInitFailing, hpool, Option.elim_none]
  rw [if_neg hdown, if_neg hsize, if_neg (not_not_intro hret), if_pos trivial]

/-- With it, there is no way to fail and return. -/
theorem tPoolModuleInitFailing_pool (hdown : ¬ t.inited = true) (hsize : ¬ size ≤ 0)
    (hret : (s.register t.memId (some tPoolName)).1 = mySuccess) {addr : ℕ}
    (hpool : o.pool = some addr) {r : ℤ × TPoolModule × MemLedger}
    (hr : tPoolModuleInitFailing t s (some size) o = some r) : r.1 = mySuccess := by
  obtain ⟨i, hslot⟩ := registeredSlot_of_register hret
  have hcalloc := calloc_ne_zero hslot (by decide : sizeofMyThreadPool ≤ 0x7fffffff) addr
  simp only [tPoolModuleInitFailing, hpool, Option.elim_some] at hr
  rw [if_neg hdown, if_neg hsize, if_neg (not_not_intro hret), if_neg hcalloc] at hr
  split_ifs at hr
  cases hr
  rfl

/-- What a call returns that has come no further than `MemRegister`. -/
theorem leavesNone_tPool (hdown : ¬ t.inited = true)
    (hslot : s.mem.worker.registeredSlot t.memId = none) (ret : ℤ) :
    LeavesNone s ⟨ret, s, some t.memId, t.inited, t.inited, false⟩ := by
  refine ⟨?_, rfl, by simpa using hdown, by simp⟩
  rintro memId hid
  cases hid
  exact hslot

theorem tPool_atomic_iff {threadPoolSize : Option ℤ} (hinited : s.mem.worker.inited = true)
    (ht : (ModuleInit.tPool t threadPoolSize o).Uninitialised s) :
    (ModuleInit.tPool t threadPoolSize o).Atomic s ↔
      (ModuleInit.tPool t threadPoolSize o).Clean s := by
  obtain ⟨hrests, hslot⟩ := ht
  have hdown : ¬ t.inited = true := by simp [hrests]
  have hnone := leavesNone_tPool hdown hslot
  simp only [ModuleInit.Atomic, ModuleInit.call, ModuleInit.Clean, Option.mem_map]
  cases threadPoolSize with
  | none =>
      refine iff_of_true ?_ (Or.inl (by simp))
      rintro r ⟨q, hq, rfl⟩ -
      simp only [tPoolModuleInitFailing, if_neg hdown, Option.mem_def, Option.some.injEq] at hq
      rw [← hq]
      exact hnone _
  | some size =>
      by_cases hsize : size ≤ 0
      · refine iff_of_true ?_ (Or.inl (by simpa using hsize))
        rintro r ⟨q, hq, rfl⟩ -
        simp only [tPoolModuleInitFailing, if_neg hdown, if_pos hsize, Option.mem_def,
          Option.some.injEq] at hq
        rw [← hq]
        exact hnone _
      have hpos : ¬ ∀ x ∈ some size, x ≤ 0 := by simpa using hsize
      have hiff := register_eq_success_iff hinited hslot tPoolName
      rw [or_iff_right hpos]
      by_cases hret : (s.register t.memId (some tPoolName)).1 = mySuccess
      · rw [or_iff_right (hiff.mp hret)]
        cases hpool : o.pool with
        | none =>
            refine iff_of_false (fun hatomic => ?_) (fun h => h rfl)
            have hleaves := hatomic _
              ⟨_, tPoolModuleInitFailing_noPool hdown hsize hret hpool, rfl⟩ enoMem_ne_success
            obtain ⟨i, hi⟩ := registeredSlot_of_register hret
            exact absurd (hi.symm.trans (hleaves.unregistered _ rfl)) (Option.some_ne_none i)
        | some addr =>
            refine iff_of_true ?_ (Option.some_ne_none addr)
            rintro r ⟨q, hq, rfl⟩ hfailed
            exact absurd (tPoolModuleInitFailing_pool hdown hsize hret hpool hq) hfailed
      · have hfull : s.mem.worker.freeSlot = none := by
          by_contra hfree
          exact hret (hiff.mpr hfree)
        refine iff_of_true ?_ (Or.inl hfull)
        rintro r ⟨q, hq, rfl⟩ -
        simp only [tPoolModuleInitFailing, if_neg hdown, if_neg hsize, if_pos hret,
          register_failed hret, Option.mem_def, Option.some.injEq] at hq
        rw [← hq]
        exact hnone _

end TPool

/-- **A failed `Init`** leaves nothing if and only if it fails for want of a slot, or is
refused, or does not fail. -/
theorem failedInit_atomic_iff (s : MemLedger) (m : ModuleInit)
    (hinited : s.mem.worker.inited = true) (hm : m.Uninitialised s) :
    m.Atomic s ↔ m.Clean s := by
  cases m with
  | tPool t threadPoolSize o => exact tPool_atomic_iff hinited hm
  | timer sizeofEvent w created addr =>
      refine Iff.trans ?_ (EventWorker.moduleInit_leaves_iff hinited hm.1 hm.2 timerName
        (timerModuleEntry sizeofEvent addr))
      simp only [ModuleInit.Atomic, ModuleInit.call, Option.mem_def, Option.some.injEq,
        forall_eq']
      exact Iff.rfl
  | health sizeofEvent h initArg created addr =>
      refine Iff.trans ?_ (EventWorker.moduleInit_leaves_iff hinited hm.1 hm.2 healthName
        (healthModuleEntry sizeofEvent (initArg.getD h.interval) addr))
      simp only [ModuleInit.Atomic, ModuleInit.call, Option.mem_def, Option.some.injEq,
        forall_eq']
      exact Iff.rfl
  | server p created =>
      obtain ⟨hrunning, hthread⟩ := hm
      simp only [ModuleInit.Atomic, ModuleInit.call, ModuleInit.Clean, Option.mem_def,
        Option.some.injEq, forall_eq', serverProcInit, hrunning, Bool.false_eq_true, if_false]
      refine ⟨fun hleaves => ?_, fun hcreated hfailed => absurd hcreated hfailed⟩
      by_contra hfailed
      exact absurd (hleaves hfailed).down Bool.true_eq_false_eq_False

/-- Mem is initialised, and nothing else. -/
def memUp : MemLedger := (Program.start someLinks someLinks).ledger.moduleInit.2

/-- The first `TimerModuleInit` of a process that can have no more threads. -/
def threadless : ModuleInit := .timer ⟨128, by decide⟩ (.start someLinks) eAgain (8, 16)

theorem failedInit_atomic_iff_threadless : ¬ threadless.Atomic memUp := by
  rw [failedInit_atomic_iff memUp threadless (by decide) ⟨rfl, by decide⟩]
  exact (by decide : ¬ (memUp.mem.worker.freeSlot = none ∨ (eAgain : ℤ) = mySuccess))

/-- The id of the Timer module stays registered. -/
theorem not_failedInit_atomic :
    ¬ ∀ (s : MemLedger) (m : ModuleInit), s.mem.worker.inited = true → m.Uninitialised s →
      m.Atomic s := by
  intro h
  have hleaves := h memUp threadless (by decide) ⟨rfl, by decide⟩ _ rfl (by decide)
  have hnone := hleaves.unregistered 1 rfl
  exact absurd hnone (by decide)

end MyWorkEnv
