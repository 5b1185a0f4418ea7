import MyWorkEnv.MyUtils.EventWorker

/-!
# The Health module

The part of `myModuleHealth.c` that keeps the list of monitors. The thread adds
a node that keeps the event base alive, and one for every module whose interval
in `sg_ModuleReprt` is positive; `HealthMonitorAdd` adds more, and there is no
call that takes one out again. The thread does not hold the lock while it adds
its nodes, and does not reset `EventListLen`.
-/

namespace MyWorkEnv

open CString EventWorker MemLedger

inductive MyModulesEnum where
  | log
  | msg
  | tpool
  | cmdLine
  | mHealth
  | mem
  | timer
deriving DecidableEq

/-- In the order of the enumeration. -/
def MyModulesEnum.all : List MyModulesEnum :=
  [.log, .msg, .tpool, .cmdLine, .mHealth, .mem, .timer]

/-- `MY_MODULE_HEALTH_DEFAULT_TIME_INTERVAL` -/
def myModuleHealthDefaultTimeInterval : ℤ := 300

/-- `sizeof(MY_HEALTH_MONITOR_LIST_NODE)` -/
def sizeofMyHealthMonitorListNode : ℕ := 96

def healthName : List UInt8 := ascii ['H', 'e', 'a', 'l', 't', 'h']

/-- `sg_HealthWorker`, and the intervals of `sg_ModuleReprt`, whose callbacks are all there. -/
structure MyHealthMonitor where
  worker : EventWorker
  interval : MyModulesEnum → ℤ

/-- The modules the thread adds a node for. -/
def monitored (interval : MyModulesEnum → ℤ) : List MyModulesEnum :=
  MyModulesEnum.all.filter fun m => 0 < interval m

section Source

-- `sizeof(struct event)` of the event library
variable (sizeofEvent : Fin (2 ^ 31))

/-- What `calloc` gives for the nodes of the thread, in order; `addr none` is for the first. -/
def healthOwn (interval : MyModulesEnum → ℤ) (addr : Option MyModulesEnum → ℕ × ℕ) :
    List (ℕ × ℕ) :=
  addr none :: (monitored interval).map fun m => addr (some m)

/-- `_HealthModuleEntry` -/
def healthModuleEntry (interval : MyModulesEnum → ℤ) (addr : Option MyModulesEnum → ℕ × ℕ)
    (w : EventWorker) (s : MemLedger) : EventWorker × MemLedger :=
  entry id sizeofMyHealthMonitorListNode sizeofEvent (healthOwn interval addr) w s

/-- `initArg` is `InitArg`; the intervals are only set on the way to `pthread_create`, which
returns `created`. -/
def healthModuleInit (h : MyHealthMonitor) (s : MemLedger)
    (initArg : Option (MyModulesEnum → ℤ)) (created : ℤ)
    (addr : Option MyModulesEnum → ℕ × ℕ) : ℤ × MyHealthMonitor × MemLedger :=
  let interval := initArg.getD h.interval
  let r := h.worker.moduleInit s healthName created (healthModuleEntry sizeofEvent interval addr)
  let kept := h.worker.isRunning ||
    (s.register h.worker.memId (some healthName)).1 ≠ mySuccess
  (r.1, ⟨r.2.1, if kept then h.interval else interval⟩, r.2.2)

def healthMonitorAdd (h : MyHealthMonitor) (s : MemLedger) (addr : ℕ × ℕ) :
    ℤ × MyHealthMonitor × MemLedger :=
  let w := h.worker
  let r := s.calloc w.memId sizeofMyHealthMonitorListNode addr.1
  if r.1 = 0 then (-myEnoMem, h, r.2)
  else
    let q := r.2.calloc w.memId sizeofEvent addr.2
    if q.1 = 0 then
      (-myEnoMem, { h with worker := { w with event := Function.update w.event r.1 0 } },
        q.2.free w.memId r.1)
    else (mySuccess, { h with worker := link Lock.use w r.1 q.1 }, q.2)

def healthModuleExit (h : MyHealthMonitor) (s : MemLedger) (rounds : ℕ) :
    Option (ℤ × MyHealthMonitor × MemLedger) :=
  (h.worker.moduleExit s rounds).map fun r => (r.1, { h with worker := r.2.1 }, r.2.2)

end Source

/-- As it is declared. -/
def MyHealthMonitor.start (L : LinkedRing.Links EventLink) : MyHealthMonitor :=
  ⟨.start L, fun _ => myModuleHealthDefaultTimeInterval⟩

end MyWorkEnv
