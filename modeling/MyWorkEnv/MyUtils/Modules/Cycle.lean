import MyWorkEnv.MyUtils.Modules.InTurn

/-!
# Exiting and initialising again

A module that works has an id that is registered, memory is to be had under it,
and its locks are initialised. Where the modules are used in turn, four of the
five can be exited and initialised again without end. The Msg module cannot: its
`Exit` destroys the lock and gives the id back but leaves `Inited` set, so the
next `Init` takes the module for initialised, and the next `Exit` uses the lock
(`cycle`).
-/

namespace MyWorkEnv

open EventWorker LinkedRing MemLedger MyMemWorker Transition

/-- A worker that `Init` reports success for runs already, or has a thread to run. -/
theorem EventWorker.init_active {w : EventWorker} {s : MemLedger} {name : List UInt8}
    {threads : ℕ} {r : ℤ × EventWorker × MemLedger} (hr : w.moduleInit s name 0 Prod.mk = r)
    (hret : r.1 = mySuccess) {kept : Bool}
    (hkept : kept = (w.isRunning || decide (r.1 ≠ mySuccess))) :
    (r.2.1.isRunning || decide (0 < if kept then threads else threads + 1)) = true := by
  cases hrunning : w.isRunning with
  | true =>
      rw [moduleInit_mk, hrunning, if_pos rfl] at hr
      subst hr
      rw [hrunning, Bool.true_or]
  | false =>
      obtain rfl : kept = false := by simpa [hrunning, hret] using hkept
      simp

namespace Program

variable {sizeofEvent : Fin (2 ^ 31)} {s : Program} {a : ProgramAction} {p : Part} {rounds : ℕ}

/-- What a module is good for once it was initialised. -/
structure Works (s : Program) (p : Part) : Prop where
  registered : (s.ledger.mem.worker.registeredSlot (s.memId p)).isSome = true
  allocates : ∀ size addr, size ≤ 0x7fffffff → (s.ledger.calloc (s.memId p) size addr).1 ≠ 0
  lock : s.lockInited p = true

/-- An `Init` that succeeds leaves a module that works, and an `Exit` of a module that is not up
leaves everything as it is. -/
def Cycles (sizeofEvent : Fin (2 ^ 31)) (s : Program) (a : ProgramAction) : Prop :=
  (∀ p ∈ a.inits, (s.act sizeofEvent a).1 = mySuccess → (s.next sizeofEvent a).Works p) ∧
    ∀ p ∈ a.exits, s.up p = false → s.next sizeofEvent a = s

/-- A call on the Msg module after it was exited. -/
def MsgAgain (s : Program) (a : ProgramAction) : Prop :=
  (s.msg.inited = true ∧ s.msg.lock.inited = false) ∧
    (a.inits = some .msg ∨ a.exits = some .msg ∧ s.up .msg = false)

theorem Ready.works (h : s.Ready) (hactive : s.active p = true) : s.Works p := by
  obtain ⟨i, hslot, hlock, -⟩ := (h.parts p).active hactive
  refine ⟨?_, fun size addr hsize => calloc_ne_zero hslot hsize addr, hlock⟩
  rw [hslot]
  rfl

/-! ## Init -/

/-- An `Init` that succeeds leaves the module in use, but for a Msg module that was exited. -/
theorem Ready.active_of_inits (h : s.Ready) (ha : s.May a) (hi : a.inits = some p)
    (hret : (s.act sizeofEvent a).1 = mySuccess) (hmsg : ¬ s.MsgAgain a) :
    (s.next sizeofEvent a).active p = true := by
  cases a with
  | memInit =>
      cases hi
      show (memModuleInit s.ledger.mem.worker).2.inited = true
      cases hinited : s.ledger.mem.worker.inited with
      | true => simp [memModuleInit, hinited]
      | false => rw [memModuleInit_eq hinited, setNode_inited]
  | msgInit =>
      cases hi
      show ((msgModuleInit s.msg s.ledger).2.1.inited &&
        (msgModuleInit s.msg s.ledger).2.1.lock.inited) = true
      cases hinited : s.msg.inited with
      | true =>
          rw [MsgModule.init_inited hinited, hinited, Bool.true_and]
          by_contra hlock
          exact hmsg ⟨⟨hinited, by simpa using hlock⟩, .inl rfl⟩
      | false =>
          have hregister : (s.ledger.register s.msg.memId (some msgName)).1 = mySuccess := by
            by_contra hfail
            have hr := congrArg Prod.fst (MsgModule.init_failed hinited hfail)
            exact hfail (hr.symm.trans hret)
          rw [MsgModule.init_registered hinited hregister]
          rfl
  | tPoolInit threadPoolSize addr =>
      cases hi
      show (tPoolModuleInit s.tpool s.ledger threadPoolSize addr).2.1.inited = true
      rcases TPoolModule.init_cases (t := s.tpool) h.sound.accounts ha.1 ha.2 with
        ⟨hsame, hinited⟩ | ⟨i, s', -, -, -, -, -, hr⟩
      · rw [hsame]
        exact hinited hret
      · rw [hr]
  | timerInit =>
      cases hi
      exact EventWorker.init_active rfl hret rfl
  | healthInit initArg =>
      cases hi
      exact EventWorker.init_active rfl hret rfl
  | call _ | timerThread _ _ | timerAdd _ _ _ _ | timerDel _ | healthThread _ _ | healthAdd _
  | exit _ _ => cases hi

/-! ## Exit -/

theorem exit_of_not_initialised (h : s.initialised p = false) :
    s.exit rounds p = some (mySuccess, s) := by
  cases p with
  | mem =>
      have hinited : s.ledger.mem.worker.inited = false := h
      have hledger : s.ledger.moduleExit = (mySuccess, s.ledger) := by
        simp [MemLedger.moduleExit, memModuleExit, hinited]
      simp [Program.exit, Program.memExit, hledger, hinited]
  | msg =>
      have hinited : s.msg.inited = false := h
      simp [Program.exit, Program.msgExit, msgModuleExit, hinited]
  | tpool =>
      have hinited : s.tpool.inited = false := h
      simp [Program.exit, Program.tPoolExit, tPoolModuleExit, hinited]
  | timer =>
      have hrunning : s.timer.isRunning = false := h
      simp [Program.exit, Program.timerExit, timerModuleExit, EventWorker.moduleExit, hrunning]
  | health =>
      have hrunning : s.health.worker.isRunning = false := h
      simp [Program.exit, Program.healthExit, healthModuleExit, EventWorker.moduleExit, hrunning]

theorem next_of_idle (hidle : s.initialised p = false) (hup : s.up p = false) :
    s.next sizeofEvent (.exit p rounds) = s := by
  have hact : s.act sizeofEvent (.exit p rounds) = (mySuccess, s) := by
    rw [act, exit_of_not_initialised hidle]
    rfl
  have hsame : (s.next sizeofEvent (.exit p rounds)).up = s.up := by
    ext q
    by_cases hq : q = p
    · rw [hq, next_up_of_exits rfl, hup]
    · apply next_up_of_ne
      exact fun heq => hq (Option.some.inj heq).symm
  have hnext : s.next sizeofEvent (.exit p rounds) =
      { (s.act sizeofEvent (.exit p rounds)).2 with
        up := (s.next sizeofEvent (.exit p rounds)).up } := rfl
  rw [hnext, hsame, hact]

/-- A module that is not up is not initialised, but for a Msg module that was exited. -/
theorem Ready.initialised_of_not_up (h : s.Ready) (hup : s.up p = false)
    (hmsg : ¬ s.MsgAgain (.exit p rounds)) : s.initialised p = false := by
  have hactive : s.active p = false := by
    cases hactive : s.active p with
    | false => rfl
    | true =>
        obtain ⟨-, -, -, hup'⟩ := (h.parts p).active hactive
        rw [hup] at hup'
        cases hup'
  cases p with
  | mem | tpool => exact hactive
  | msg =>
      cases hinited : s.msg.inited with
      | false => exact hinited
      | true =>
          rw [active, hinited, Bool.true_and] at hactive
          exact absurd ⟨⟨hinited, hactive⟩, .inr ⟨rfl, hup⟩⟩ hmsg
  | timer => exact (Bool.or_eq_false_iff.mp hactive).1
  | health => exact (Bool.or_eq_false_iff.mp hactive).1

/-! ## The Msg module after an exit -/

/-- `Init` reports success, without an id. -/
theorem not_works_msgInit (hinited : s.msg.inited = true)
    (hlock : s.msg.lock.inited = false) :
    (s.act sizeofEvent .msgInit).1 = mySuccess ∧
      ¬ (s.next sizeofEvent .msgInit).Works .msg := by
  have hr := MsgModule.init_inited (s := s.ledger) hinited
  refine ⟨congrArg Prod.fst hr, fun hworks => ?_⟩
  have hsame : (s.next sizeofEvent .msgInit).msg.lock = s.msg.lock :=
    congrArg (fun r => r.2.1.lock) hr
  have hnext : (s.next sizeofEvent .msgInit).msg.lock.inited = true := hworks.lock
  rw [hsame, hlock] at hnext
  cases hnext

/-- `Exit` uses the lock. -/
theorem misuses_msgExit (hinited : s.msg.inited = true) (hlock : s.msg.lock.inited = false) :
    s.msg.lock.misuses < (s.next sizeofEvent (.exit .msg rounds)).msg.lock.misuses := by
  have hr : (msgModuleExit s.msg s.ledger).2.1.lock = s.msg.lock.use.destroy := by
    rw [msgModuleExit, if_pos hinited]
  show _ < (msgModuleExit s.msg s.ledger).2.1.lock.misuses
  rw [hr]
  simp [Lock.destroy, Lock.use, hlock]

/-- **Exactly which calls of a cycle go wrong.** -/
theorem cycle (h : Reach (programSystem sizeofEvent) InTurn s)
    (ha : (programSystem sizeofEvent).enabled s a) (hp : s.InTurn a) :
    s.Cycles sizeofEvent a ↔ ¬ s.MsgAgain a := by
  have hready := ready_of_reach h
  have hnext : (s.next sizeofEvent a).Ready := hready.step ha.1 hp
  constructor
  · rintro ⟨hinit, hexit⟩ ⟨⟨hinited, hlock⟩, hi | ⟨he, hup⟩⟩
    · obtain rfl : a = .msgInit := by
        cases a <;> first | rfl | cases hi
      obtain ⟨hret, hbroken⟩ : (s.act sizeofEvent .msgInit).1 = mySuccess ∧ _ :=
        not_works_msgInit hinited hlock
      exact hbroken (hinit .msg rfl hret)
    · obtain ⟨rounds, rfl⟩ : ∃ rounds, a = .exit .msg rounds := by
        cases a with
        | exit p rounds =>
            cases he
            exact ⟨rounds, rfl⟩
        | call _ | memInit | msgInit | tPoolInit _ _ | timerInit | timerThread _ _
        | timerAdd _ _ _ _ | timerDel _ | healthInit _ | healthThread _ _ | healthAdd _ =>
            cases he
      have hlt : _ < (s.next sizeofEvent (.exit .msg rounds)).msg.lock.misuses :=
        misuses_msgExit hinited hlock
      rw [hexit .msg rfl hup] at hlt
      exact absurd hlt (lt_irrefl _)
  · intro hmsg
    refine ⟨fun p hi hret => ?_, fun p he hup => ?_⟩
    · exact hnext.works (hready.active_of_inits ha.1 hi hret hmsg)
    · cases a with
      | exit p' rounds =>
          cases he
          exact next_of_idle (hready.initialised_of_not_up hup hmsg) hup
      | call _ | memInit | msgInit | tPoolInit _ _ | timerInit | timerThread _ _
      | timerAdd _ _ _ _ | timerDel _ | healthInit _ | healthThread _ _ | healthAdd _ => cases he

end Program

/-- The pool is started and stopped. -/
def poolOnce : List ProgramAction :=
  [.memInit, .tPoolInit (some 2) (64, 256), .exit .tpool 0]

/-- It can be started again. -/
theorem cycle_run : ∃ s : Program, s.tpool.inited = false ∧ s.tpool.lock.inited = false ∧
    s.Cycles 128 (.tPoolInit (some 2) (64, 256)) := by
  have hreach : Reach (programSystem 128) Program.InTurn
      (exec (programSystem 128) (.start someLinks someLinks) poolOnce) :=
    Reach.exec (.init ⟨_, _, rfl⟩) (by decide)
  refine ⟨_, by decide, by decide,
    (Program.cycle hreach (by decide) (by decide)).mpr ?_⟩
  rintro ⟨⟨hinited, -⟩, -⟩
  exact absurd hinited (by decide)

/-- The Msg module is started and stopped. -/
def msgOnce : List ProgramAction := [.memInit, .msgInit, .exit .msg 0]

/-- The next `Init` reports success and leaves no id, no memory and no lock; the next `Exit`
uses the lock that was destroyed. -/
theorem msgModule_once : ∃ s : Program, Reach (programSystem 128) Program.InTurn s ∧
    ((programSystem 128).enabled s .msgInit ∧ s.InTurn .msgInit ∧
      (s.act 128 .msgInit).1 = mySuccess ∧ (s.next 128 .msgInit).msg.memId = -1 ∧
      ((s.next 128 .msgInit).ledger.calloc (-1) 40 512).1 = 0 ∧
      (s.next 128 .msgInit).msg.lock.inited = false ∧ ¬ s.Cycles 128 .msgInit) ∧
    ((programSystem 128).enabled s (.exit .msg 0) ∧ s.InTurn (.exit .msg 0) ∧
      s.up .msg = false ∧ s.msg.lock.misuses = 0 ∧
      0 < (s.next 128 (.exit .msg 0)).msg.lock.misuses ∧ ¬ s.Cycles 128 (.exit .msg 0)) := by
  have hreach : Reach (programSystem 128) Program.InTurn
      (exec (programSystem 128) (.start someLinks someLinks) msgOnce) :=
    Reach.exec (.init ⟨_, _, rfl⟩) (by decide)
  have hinited : (exec (programSystem 128) (.start someLinks someLinks) msgOnce).msg.inited =
      true := by decide
  have hlock : (exec (programSystem 128) (.start someLinks someLinks) msgOnce).msg.lock.inited =
      false := by decide
  refine ⟨_, hreach, ⟨by decide, by decide, by decide, by decide,
    by decide, by decide, ?_⟩, by decide, by decide,
    by decide, by decide, by decide, ?_⟩
  · rintro ⟨hinit, -⟩
    obtain ⟨hret, hbroken⟩ := Program.not_works_msgInit hinited hlock
    exact hbroken (hinit .msg rfl hret)
  · rintro ⟨-, hexit⟩
    have hlt : _ < (Program.next 128 _ (.exit .msg 0)).msg.lock.misuses :=
      Program.misuses_msgExit hinited hlock
    rw [hexit .msg rfl (by decide)] at hlt
    exact absurd hlt (lt_irrefl _)

end MyWorkEnv
