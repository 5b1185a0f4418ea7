import MyWorkEnv.MyUtils.Health.Health
import MyWorkEnv.MyUtils.Timer.Timer

/-!
# A program over the modules

What `Init` and `Exit` of the Msg and the TPool module do beside the Timer, the
Health and the Mem module, and the program that calls them all, in any order. It
takes ids of its own, and allocates and frees under any id; so the tasks of the
pool and the messages are blocks of the program here.

Beside the modules stand the nodes that are in the two event lists, the threads
that were created and have not run yet, and whether the last call on a module
brought it up. The uses of the lock of the Mem module, which are behind the test
of `Inited`, are left out.
-/

namespace MyWorkEnv

open CString EventWorker LinkedRing MemLedger MyMemWorker Transition

/-! ## The Msg module -/

/-- `sg_MsgStats` and `sg_MsgModId`. -/
structure MsgModule where
  inited : Bool
  lock : Lock
  memId : ℤ

def msgName : List UInt8 := ascii ['M', 's', 'g']

def msgModuleInit (m : MsgModule) (s : MemLedger) : ℤ × MsgModule × MemLedger :=
  if m.inited then (mySuccess, m, s)
  else
    let r := s.register m.memId (some msgName)
    if r.1 ≠ mySuccess then (r.1, { m with memId := r.2.2 }, r.2.1)
    else (r.1, ⟨true, m.lock.init, r.2.2⟩, r.2.1)

def msgModuleExit (m : MsgModule) (s : MemLedger) : ℤ × MsgModule × MemLedger :=
  if m.inited then
    let r := s.unRegister m.memId
    -- `Inited` stays set
    (r.1, { m with lock := m.lock.use.destroy, memId := r.2.2 }, r.2.1)
  else (mySuccess, m, s)

/-! ## The TPool module -/

/-- `sg_TPoolModuleInited`, `sg_ThreadPool` with what `Init` and `Exit` touch of the pool, and
`sg_TPoolMemId`. -/
structure TPoolModule where
  inited : Bool
  threadPool : ℕ
  threads : ℕ
  lock : Lock
  cond : Lock
  memId : ℤ

/-- The blocks of the pool that is there. -/
def TPoolModule.blocks (t : TPoolModule) : List ℕ :=
  if t.inited then [t.threads, t.threadPool] else []

/-- `sizeof(MY_THREAD_POOL)` -/
def sizeofMyThreadPool : ℕ := 136

/-- `sizeof(pthread_t)` -/
def sizeofPthread : ℕ := 8

def tPoolName : List UInt8 := ascii ['T', 'P', 'o', 'o', 'l']

/-- `threadPoolSize` is that of `InitArg`; `addr` is what `calloc` gives for the pool and for its
threads. -/
def tPoolModuleInit (t : TPoolModule) (s : MemLedger) (threadPoolSize : Option ℤ)
    (addr : ℕ × ℕ) : ℤ × TPoolModule × MemLedger :=
  if t.inited then (mySuccess, t, s)
  else
    match threadPoolSize with
    | none => (-myEinval, t, s)
    | some size =>
        if size ≤ 0 then (-myEinval, t, s)
        else
          let r := s.register t.memId (some tPoolName)
          if r.1 ≠ mySuccess then (r.1, { t with memId := r.2.2 }, r.2.1)
          else
            let q := r.2.1.calloc r.2.2 sizeofMyThreadPool addr.1
            if q.1 = 0 then (-myEnoMem, { t with threadPool := 0, memId := r.2.2 }, q.2)
            else
              let u := q.2.calloc r.2.2 (sizeofPthread * size.toNat) addr.2
              (mySuccess, ⟨true, q.1, u.1, t.lock.init.use, t.cond.init, r.2.2⟩, u.2)

/-- What `Exit` frees. -/
def tPoolFree (t : TPoolModule) (s : MemLedger) : MemLedger :=
  (s.free t.memId t.threads).free t.memId t.threadPool

def tPoolModuleExit (t : TPoolModule) (s : MemLedger) : ℤ × TPoolModule × MemLedger :=
  if t.inited then
    let r := (tPoolFree t s).unRegister t.memId
    (r.1, ⟨false, 0, t.threads, t.lock.use.destroy, t.cond.use.destroy, r.2.2⟩, r.2.1)
  else (mySuccess, t, s)

/-! ## The workers -/

/-- The nodes of the list, and their events. -/
def EventWorker.blocks (w : EventWorker) (nodes : List ℕ) : List ℕ := nodes ++ nodes.map w.event

/-- `TimerModuleInit` where the thread has not run when it returns. -/
def timerCreate (w : EventWorker) (s : MemLedger) : ℤ × EventWorker × MemLedger :=
  w.moduleInit s timerName 0 Prod.mk

/-- `HealthModuleInit` where the thread has not run when it returns. -/
def healthCreate (h : MyHealthMonitor) (s : MemLedger)
    (initArg : Option (MyModulesEnum → ℤ)) : ℤ × MyHealthMonitor × MemLedger :=
  let r := h.worker.moduleInit s healthName 0 Prod.mk
  let kept := h.worker.isRunning || r.1 ≠ mySuccess
  (r.1, ⟨r.2.1, if kept then h.interval else initArg.getD h.interval⟩, r.2.2)

/-! ## The program -/

inductive Part where
  | mem
  | msg
  | tpool
  | timer
  | health
deriving DecidableEq

/-- `threads` are those that were created and have not run yet, and `up` tells whether an `Init`
succeeded since the last `Exit`. -/
structure Program where
  ledger : MemLedger
  memLock : Lock
  msg : MsgModule
  tpool : TPoolModule
  timer : EventWorker
  health : MyHealthMonitor
  timerNodes : List ℕ
  healthNodes : List ℕ
  timerThreads : ℕ
  healthThreads : ℕ
  up : Part → Bool

/-- `event_base_new` of a thread may fail: then `base` is `false`. -/
inductive ProgramAction where
  | call (c : MemCall)
  | memInit
  | msgInit
  | tPoolInit (threadPoolSize : Option ℤ) (addr : ℕ × ℕ)
  | timerInit
  | timerThread (base : Bool) (addr : ℕ × ℕ)
  | timerAdd (cb : Option ℕ) (timerType : MyTimerType) (timerHandle : Bool) (addr : ℕ × ℕ)
  | timerDel (timerHandle : Option ℕ)
  | healthInit (initArg : Option (MyModulesEnum → ℤ))
  | healthThread (base : Bool) (addr : Option MyModulesEnum → ℕ × ℕ)
  | healthAdd (addr : ℕ × ℕ)
  | exit (p : Part) (rounds : ℕ)

namespace ProgramAction

/-- The module that the call is an `Init` of. -/
def inits : ProgramAction → Option Part
  | .memInit => some .mem
  | .msgInit => some .msg
  | .tPoolInit _ _ => some .tpool
  | .timerInit => some .timer
  | .healthInit _ => some .health
  | _ => none

/-- The module that the call is the `Exit` of. -/
def exits : ProgramAction → Option Part
  | .exit p _ => some p
  | _ => none

end ProgramAction

namespace Program

/-- Where each of the modules keeps its memory id. -/
def memId (s : Program) : Part → ℤ
  | .mem => s.ledger.mem.worker.mainModId
  | .msg => s.msg.memId
  | .tpool => s.tpool.memId
  | .timer => s.timer.memId
  | .health => s.health.worker.memId

/-- The test of `Exit`. -/
def initialised (s : Program) : Part → Bool
  | .mem => s.ledger.mem.worker.inited
  | .msg => s.msg.inited
  | .tpool => s.tpool.inited
  | .timer => s.timer.isRunning
  | .health => s.health.worker.isRunning

/-- The blocks of the module's own structures. -/
def own (s : Program) : Part → List ℕ
  | .mem | .msg => []
  | .tpool => s.tpool.blocks
  | .timer => s.timer.blocks s.timerNodes
  | .health => s.health.worker.blocks s.healthNodes

/-- The blocks of all own structures. -/
def structures (s : Program) : List ℕ := s.own .tpool ++ (s.own .timer ++ s.own .health)

section Calls

variable (sizeofEvent : Fin (2 ^ 31))

def memInit (s : Program) : ℤ × Program :=
  let r := s.ledger.moduleInit
  (r.1,
    { s with
      ledger := r.2
      memLock := if s.ledger.mem.worker.inited then s.memLock else s.memLock.init })

def memExit (s : Program) : ℤ × Program :=
  let r := s.ledger.moduleExit
  (r.1,
    { s with
      ledger := r.2
      memLock := if s.ledger.mem.worker.inited then s.memLock.destroy else s.memLock })

def msgInit (s : Program) : ℤ × Program :=
  let r := msgModuleInit s.msg s.ledger
  (r.1, { s with msg := r.2.1, ledger := r.2.2 })

def msgExit (s : Program) : ℤ × Program :=
  let r := msgModuleExit s.msg s.ledger
  (r.1, { s with msg := r.2.1, ledger := r.2.2 })

def tPoolInit (s : Program) (threadPoolSize : Option ℤ) (addr : ℕ × ℕ) : ℤ × Program :=
  let r := tPoolModuleInit s.tpool s.ledger threadPoolSize addr
  (r.1, { s with tpool := r.2.1, ledger := r.2.2 })

def tPoolExit (s : Program) : ℤ × Program :=
  let r := tPoolModuleExit s.tpool s.ledger
  (r.1, { s with tpool := r.2.1, ledger := r.2.2 })

/-- A list that is set up anew has no nodes, whatever was in it. -/
def timerInit (s : Program) : ℤ × Program :=
  let r := timerCreate s.timer s.ledger
  let kept := s.timer.isRunning || r.1 ≠ mySuccess
  (r.1,
    { s with
      timer := r.2.1
      ledger := r.2.2
      timerNodes := if kept then s.timerNodes else []
      timerThreads := if kept then s.timerThreads else s.timerThreads + 1 })

def timerThread (s : Program) (base : Bool) (addr : ℕ × ℕ) : Program :=
  let s := { s with timerThreads := s.timerThreads - 1 }
  if base then
    let r := timerModuleEntry sizeofEvent addr s.timer s.ledger
    { s with
      timer := r.1
      ledger := r.2
      timerNodes :=
        if r.1.isRunning then s.timerNodes ++ [addr.1 + sizeofMemPrefix] else s.timerNodes }
  else { s with timer := { s.timer with isRunning := false } }

def timerAdd (s : Program) (cb : Option ℕ) (timerType : MyTimerType) (timerHandle : Bool)
    (addr : ℕ × ℕ) : ℤ × Program :=
  let r := MyWorkEnv.timerAdd sizeofEvent s.timer s.ledger cb timerType timerHandle addr
  (r.1,
    { s with
      timer := r.2.2.1
      ledger := r.2.2.2
      timerNodes := s.timerNodes ++ r.2.1.toList })

def timerDel (s : Program) (timerHandle : Option ℕ) : Program :=
  let r := MyWorkEnv.timerDel s.timer s.ledger timerHandle
  { s with
    timer := r.2.1
    ledger := r.2.2
    timerNodes := timerHandle.elim s.timerNodes s.timerNodes.erase }

def timerExit (s : Program) (rounds : ℕ) : Option (ℤ × Program) :=
  (timerModuleExit s.timer s.ledger rounds).map fun r =>
    (r.1,
      { s with
        timer := r.2.1
        ledger := r.2.2
        timerNodes := if s.timer.isRunning then [] else s.timerNodes })

def healthInit (s : Program) (initArg : Option (MyModulesEnum → ℤ)) : ℤ × Program :=
  let r := healthCreate s.health s.ledger initArg
  let kept := s.health.worker.isRunning || r.1 ≠ mySuccess
  (r.1,
    { s with
      health := r.2.1
      ledger := r.2.2
      healthNodes := if kept then s.healthNodes else []
      healthThreads := if kept then s.healthThreads else s.healthThreads + 1 })

/-- What `calloc` gives the thread for its nodes. -/
def threadOwn (s : Program) (addr : Option MyModulesEnum → ℕ × ℕ) : List (ℕ × ℕ) :=
  healthOwn s.health.interval addr

def healthThread (s : Program) (base : Bool) (addr : Option MyModulesEnum → ℕ × ℕ) : Program :=
  let s := { s with healthThreads := s.healthThreads - 1 }
  if base then
    let r := healthModuleEntry sizeofEvent s.health.interval addr s.health.worker s.ledger
    { s with
      health := { s.health with worker := r.1 }
      ledger := r.2
      healthNodes :=
        if r.1.isRunning then
          s.healthNodes ++ (s.threadOwn addr).map fun p => p.1 + sizeofMemPrefix
        else s.healthNodes }
  else
    { s with
      health := { s.health with worker := { s.health.worker with isRunning := false } } }

def healthAdd (s : Program) (addr : ℕ × ℕ) : ℤ × Program :=
  let r := healthMonitorAdd sizeofEvent s.health s.ledger addr
  (r.1,
    { s with
      health := r.2.1
      ledger := r.2.2
      healthNodes :=
        if r.1 = mySuccess then s.healthNodes ++ [addr.1 + sizeofMemPrefix] else s.healthNodes })

def healthExit (s : Program) (rounds : ℕ) : Option (ℤ × Program) :=
  (healthModuleExit s.health s.ledger rounds).map fun r =>
    (r.1,
      { s with
        health := r.2.1
        ledger := r.2.2
        healthNodes := if s.health.worker.isRunning then [] else s.healthNodes })

/-- `none` is for a walk over a list that goes on after so many rounds. -/
def exit (s : Program) (rounds : ℕ) : Part → Option (ℤ × Program)
  | .mem => some s.memExit
  | .msg => some s.msgExit
  | .tpool => some s.tPoolExit
  | .timer => s.timerExit rounds
  | .health => s.healthExit rounds

/-- What a call returns, and what it leaves. -/
def act (s : Program) : ProgramAction → ℤ × Program
  | .call c => (mySuccess, { s with ledger := s.ledger.next c })
  | .memInit => s.memInit
  | .msgInit => s.msgInit
  | .tPoolInit threadPoolSize addr => s.tPoolInit threadPoolSize addr
  | .timerInit => s.timerInit
  | .timerThread base addr => (mySuccess, s.timerThread sizeofEvent base addr)
  | .timerAdd cb timerType timerHandle addr =>
      s.timerAdd sizeofEvent cb timerType timerHandle addr
  | .timerDel timerHandle => (mySuccess, s.timerDel timerHandle)
  | .healthInit initArg => s.healthInit initArg
  | .healthThread base addr => (mySuccess, s.healthThread sizeofEvent base addr)
  | .healthAdd addr => s.healthAdd sizeofEvent addr
  | .exit p rounds => (s.exit rounds p).getD (mySuccess, s)

def next (s : Program) (a : ProgramAction) : Program :=
  let r := s.act sizeofEvent a
  { r.2 with
    up := fun p =>
      if a.exits = some p then false
      else s.up p || (a.inits = some p ∧ r.1 = mySuccess) }

end Calls

/-! ## What a program may do -/

/-- The blocks of the program are its own to free; those of the modules are not. -/
def Calls (s : Program) : MemCall → Prop
  | .free _ ptr => ptr ∉ s.structures
  | _ => True

instance Calls.decidable (s : Program) : ∀ c, Decidable (s.Calls c)
  | .free _ ptr => inferInstanceAs (Decidable (ptr ∉ s.structures))
  | .register _ _ | .unRegister _ | .calloc _ _ _ => .isTrue trivial

/-- Allocations succeed, blocks are freed under the id they were allocated under, a handle is
deleted while it is in use, and walks end. -/
def May (s : Program) : ProgramAction → Prop
  | .call c => s.ledger.Enabled c ∧ s.Calls c
  | .tPoolInit threadPoolSize addr => Fresh s.ledger [addr] ∧
      ∀ size ∈ threadPoolSize, sizeofPthread * size.toNat ≤ 0x7fffffff
  | .timerThread _ addr => 0 < s.timerThreads ∧ Fresh s.ledger [addr]
  | .timerAdd _ _ _ addr => Fresh s.ledger [addr]
  | .timerDel timerHandle => ∀ node ∈ timerHandle, node = 0 ∨ node ∈ s.timerNodes
  | .healthThread _ addr => 0 < s.healthThreads ∧ Fresh s.ledger (s.threadOwn addr)
  | .healthAdd addr => Fresh s.ledger [addr]
  | .exit p rounds => (s.exit rounds p).isSome = true
  | .memInit | .msgInit | .timerInit | .healthInit _ => True

instance May.decidable (s : Program) : ∀ a, Decidable (s.May a)
  | .call _ => inferInstanceAs (Decidable (_ ∧ _))
  | .tPoolInit _ _ => inferInstanceAs (Decidable (_ ∧ ∀ _ ∈ _, _ ≤ _))
  | .timerThread _ _ => inferInstanceAs (Decidable (_ ∧ _))
  | .timerAdd _ _ _ addr => inferInstanceAs (Decidable (Fresh s.ledger [addr]))
  | .timerDel timerHandle => inferInstanceAs (Decidable (∀ node ∈ timerHandle, _ ∨ _))
  | .healthThread _ _ => inferInstanceAs (Decidable (_ ∧ _))
  | .healthAdd addr => inferInstanceAs (Decidable (Fresh s.ledger [addr]))
  | .exit _ _ => inferInstanceAs (Decidable (_ = true))
  | .memInit | .msgInit | .timerInit | .healthInit _ => .isTrue trivial

/-- All that is out has room in memory. -/
def Fits (s : Program) : Prop := (s.ledger.live.map LiveBlock.size).sum < 2 ^ 64

instance (s : Program) : Decidable s.Fits := inferInstanceAs (Decidable (_ < _))

/-- As it is declared; `L` and `L'` are what memory held before. -/
def start (L L' : Links EventLink) : Program where
  ledger := ⟨⟨.start, ⟨fun _ => none, false⟩⟩, [], fun _ => 0⟩
  memLock := .start
  msg := ⟨false, .start, myMemModuleInvalidId⟩
  tpool := ⟨false, 0, 0, .start, .start, myMemModuleInvalidId⟩
  timer := .start L
  health := .start L'
  timerNodes := []
  healthNodes := []
  timerThreads := 0
  healthThreads := 0
  up := fun _ => false

end Program

/-- The list heads at the start of a run. -/
def someLinks : Links EventLink := ⟨fun _ => .eventList, fun _ => .eventList⟩

def programSystem (sizeofEvent : Fin (2 ^ 31)) : System Program ProgramAction where
  init s := ∃ L L', s = .start L L'
  enabled s a := s.May a ∧ (s.next sizeofEvent a).Fits
  next := Program.next sizeofEvent

instance (sizeofEvent : Fin (2 ^ 31)) (s : Program) (a : ProgramAction) :
    Decidable ((programSystem sizeofEvent).enabled s a) :=
  inferInstanceAs (Decidable (_ ∧ _))

end MyWorkEnv
