import MyWorkEnv.Lib.Transition
import MyWorkEnv.MyUtils.CmdLine.Dispatch

/-!
# The lock of the external commands

`sg_CmdExternalWorker` is read and written by four functions, which hold
`Lock` for it. A run is a sequence of their calls, each with what it is given and
what `calloc` answers. The callback of a command, which `_CmdServerHandleMsg` runs
with the lock held, does not come back to the registry.

`_CmdLineInputIsOk` returns from within its locked loop when it finds the words
among the external commands. So the lock is free after every call just when no
call is given such words; after one that is, the next that needs the lock waits
for ever.
-/

namespace MyWorkEnv

open CString Transition

/-- A `pthread_spin_…` call for `Lock`. -/
inductive SpinOp where
  | init | lock | unlock
deriving DecidableEq

/-- Whether the lock is held then; nothing is left for one who waits for himself. -/
def SpinOp.step : Bool → SpinOp → Option Bool
  | _, .init => some false
  | held, .lock => if held then none else some true
  | _, .unlock => some false

/-! ## The four functions -/

/-- With the arguments of `cmdExternalRegister`. -/
def cmdExternalRegisterSpins (w : MyCmdExternWorker) (exit headMemory nodeMemory : Bool)
    (cont : MyCmdExternalCont) : List SpinOp :=
  if !exit then []
  else
    -- without memory for the head, the lock is released before `goto CommonReturn`
    (if w.inited then [] else [.init, .lock, .unlock]) ++
      if !w.inited && !headMemory then []
      else if cont.argc ≤ 1 ∨ cont.opt = [] ∨ cont.help = [] ∨ cont.cb = none then []
      else if !nodeMemory then []
      else [.lock, .unlock]

/-- The test before each locked loop. -/
def MyCmdExternWorker.hasCmds (w : MyCmdExternWorker) : Bool :=
  w.inited && !w.externalCmds.isEmpty

def cmdLineUsageSpins (w : MyCmdExternWorker) : List SpinOp :=
  if w.hasCmds then [.lock, .unlock] else []

/-- What follows `pthread_spin_lock` in `_CmdLineInputIsOk`: the loop, and what is after it. -/
def inputIsOkLoop (arg : List UInt8) (argc : ℤ) : List MyCmdExternalCont → List SpinOp
  | [] => [.unlock]
  | externLoop :: rest =>
      if strcasecmpEq arg externLoop.opt && argc == externLoop.argc then []  -- `return TRUE`
      else inputIsOkLoop arg argc rest

/-- The words are those of a built-in command. -/
def inputIsBuiltIn (arg : List UInt8) (argc : ℕ) : Bool :=
  MyCmdType.all.any fun loop => strcasecmpEq arg loop.opt && argc == loop.argc

def cmdLineInputIsOkSpins (w : MyCmdExternWorker) (argv : List (List UInt8)) : List SpinOp :=
  match argv[1]? with
  | none => []
  | some arg =>
      if inputIsBuiltIn arg argv.length then []
      else if w.hasCmds then .lock :: inputIsOkLoop arg argv.length w.externalCmds
      else []

/-- The loop ends with `break` at the first option that occurs, and the lock is released after
it. -/
def cmdServerHandleMsgSpins (w : MyCmdExternWorker) : List SpinOp :=
  if w.hasCmds then [.lock, .unlock] else []

/-! ## Runs -/

/-- The registry; `lock` is `none` once a call waits for ever. -/
structure CmdRegistry where
  worker : MyCmdExternWorker
  lock : Option Bool

inductive CmdRegistryCall where
  | register (exit headMemory nodeMemory : Bool) (cont : MyCmdExternalCont)
  | usage
  | inputIsOk (argv : List (List UInt8))
  | handleMsg (buff : List UInt8)

namespace CmdRegistryCall

def spins (w : MyCmdExternWorker) : CmdRegistryCall → List SpinOp
  | .register exit headMemory nodeMemory cont =>
      cmdExternalRegisterSpins w exit headMemory nodeMemory cont
  | .usage => cmdLineUsageSpins w
  | .inputIsOk argv => cmdLineInputIsOkSpins w argv
  | .handleMsg _ => cmdServerHandleMsgSpins w

/-- Only registering changes the list. -/
def worker (w : MyCmdExternWorker) : CmdRegistryCall → MyCmdExternWorker
  | .register exit headMemory nodeMemory cont =>
      (cmdExternalRegister w exit headMemory nodeMemory cont).2
  | _ => w

end CmdRegistryCall

/-- One call, which is the last to get anywhere if it waits for ever. -/
def CmdRegistry.call (s : CmdRegistry) (a : CmdRegistryCall) : CmdRegistry :=
  match s.lock.bind fun held => (a.spins s.worker).foldlM SpinOp.step held with
  | some held => ⟨a.worker s.worker, some held⟩
  | none => ⟨s.worker, none⟩

/-- The last call has returned, with the lock free. -/
def LockFree (s : CmdRegistry) : Prop := s.lock = some false

instance (s : CmdRegistry) : Decidable (LockFree s) := inferInstanceAs (Decidable (_ = _))

/-- Any of the four may be called at any time. -/
def registrySystem : System CmdRegistry CmdRegistryCall where
  init := LockFree
  enabled _ _ := True
  next := CmdRegistry.call

/-- The words are those of an external command, and of no built-in one. -/
def matchesExternal (w : MyCmdExternWorker) (argv : List (List UInt8)) : Bool :=
  match argv[1]? with
  | none => false
  | some arg =>
      !inputIsBuiltIn arg argv.length && w.hasCmds &&
        w.externalCmds.any fun loop => strcasecmpEq arg loop.opt && (argv.length : ℤ) == loop.argc

/-- The call is not one of `_CmdLineInputIsOk` with the words of an external command. -/
def KeepsLock (s : CmdRegistry) : CmdRegistryCall → Prop
  | .inputIsOk argv => matchesExternal s.worker argv = false
  | _ => True

instance (s : CmdRegistry) (a : CmdRegistryCall) : Decidable (KeepsLock s a) := by
  cases a <;> unfold KeepsLock <;> infer_instance

/-! ## Who keeps the lock -/

variable {w : MyCmdExternWorker} {s : CmdRegistry}

theorem call_lock (w : MyCmdExternWorker) (a : CmdRegistryCall) :
    (CmdRegistry.call ⟨w, some false⟩ a).lock = (a.spins w).foldlM SpinOp.step false := by
  simp only [CmdRegistry.call, Option.bind_some]
  cases (a.spins w).foldlM SpinOp.step false with
  | none => rfl
  | some held => rfl

theorem cmdExternalRegister_keeps (exit headMemory nodeMemory : Bool)
    (cont : MyCmdExternalCont) :
    (cmdExternalRegisterSpins w exit headMemory nodeMemory cont).foldlM SpinOp.step false =
      some false := by
  have hsection : ([.lock, .unlock] : List SpinOp).foldlM SpinOp.step false = some false := rfl
  have hinit : ([.init, .lock, .unlock] : List SpinOp).foldlM SpinOp.step false = some false := rfl
  have hnone : ([] : List SpinOp).foldlM SpinOp.step false = some false := rfl
  unfold cmdExternalRegisterSpins
  split
  · rfl
  · rw [List.foldlM_append]
    have hfirst : (if w.inited then [] else [.init, .lock, .unlock] : List SpinOp).foldlM
        SpinOp.step false = some false := by
      split
      · exact hnone
      · exact hinit
    rw [hfirst]
    simp only [Option.bind_eq_bind, Option.bind_some]
    split_ifs
    · exact hnone
    · exact hnone
    · exact hnone
    · exact hsection

theorem lockedSection_keeps :
    (if w.hasCmds then [.lock, .unlock] else [] : List SpinOp).foldlM SpinOp.step false =
      some false := by
  split
  · rfl
  · rfl

/-- The loop gets to its end just when nothing in the list matches. -/
theorem inputIsOkLoop_run (arg : List UInt8) (argc : ℤ) (cmds : List MyCmdExternalCont) :
    (inputIsOkLoop arg argc cmds).foldlM SpinOp.step true =
      some (cmds.any fun loop => strcasecmpEq arg loop.opt && argc == loop.argc) := by
  induction cmds with
  | nil => rfl
  | cons externLoop rest ih =>
      rw [inputIsOkLoop, List.any_cons]
      cases strcasecmpEq arg externLoop.opt && argc == externLoop.argc with
      | true => rfl
      | false => simpa using ih

theorem cmdLineInputIsOk_leaves (w : MyCmdExternWorker) (argv : List (List UInt8)) :
    (cmdLineInputIsOkSpins w argv).foldlM SpinOp.step false = some (matchesExternal w argv) := by
  unfold cmdLineInputIsOkSpins matchesExternal
  generalize argv[1]? = word
  match word with
  | none => rfl
  | some arg =>
      dsimp only
      cases inputIsBuiltIn arg argv.length with
      | true => rfl
      | false =>
          cases w.hasCmds with
          | false => rfl
          | true =>
              simp only [Bool.false_eq_true, if_false, if_true, Bool.not_false, Bool.true_and,
                List.foldlM_cons]
              exact inputIsOkLoop_run arg argv.length w.externalCmds

/-- It answers `TRUE` there, so the caller goes on, without the lock being free. -/
theorem cmdLineInputIsOk_of_matchesExternal {argv : List (List UInt8)}
    (h : matchesExternal w argv = true) : cmdLineInputIsOk w argv = true := by
  unfold matchesExternal at h
  unfold cmdLineInputIsOk
  generalize argv[1]? = word at h ⊢
  match word with
  | none => cases h
  | some arg =>
      simp only [Bool.and_eq_true] at h
      simp only [h.2, Bool.or_true]

theorem lockFree_call_iff (h : LockFree s) (a : CmdRegistryCall) :
    LockFree (s.call a) ↔ KeepsLock s a := by
  obtain ⟨w, lock⟩ := s
  obtain rfl : lock = some false := h
  rw [LockFree, call_lock]
  cases a with
  | register exit headMemory nodeMemory cont =>
      exact iff_of_true (cmdExternalRegister_keeps exit headMemory nodeMemory cont) trivial
  | usage => exact iff_of_true lockedSection_keeps trivial
  | inputIsOk argv =>
      rw [CmdRegistryCall.spins, cmdLineInputIsOk_leaves, Option.some.injEq]
      rfl
  | handleMsg buff => exact iff_of_true lockedSection_keeps trivial

/-- **In a run of the registry every call returns with the lock free if and only if
`_CmdLineInputIsOk` is never given the words of an external command.** -/
theorem registry_lockFree_iff (w : MyCmdExternWorker) (calls : List CmdRegistryCall) :
    Always registrySystem LockFree ⟨w, some false⟩ calls ↔
      Legal registrySystem KeepsLock ⟨w, some false⟩ calls := by
  have hlegal : Legal registrySystem (fun _ _ => True) ⟨w, some false⟩ calls := by
    generalize (⟨w, some false⟩ : CmdRegistry) = s
    induction calls generalizing s with
    | nil => trivial
    | cons a calls ih => exact ⟨trivial, trivial, ih _⟩
  refine Legal.always_iff ?_ (.init rfl) rfl hlegal
  intro s a _ hfree _ _
  exact lockFree_call_iff hfree a

/-- Whoever needs the lock after that does not return. -/
theorem handleMsg_waits {w : MyCmdExternWorker} (hw : w.hasCmds = true) (buff : List UInt8) :
    (CmdRegistry.call ⟨w, some true⟩ (.handleMsg buff)).lock = none := by
  simp [CmdRegistry.call, CmdRegistryCall.spins, cmdServerHandleMsgSpins, hw, SpinOp.step]

/-- The command of the server is registered, and then asked for. -/
theorem registry_keeps_lock :
    ¬ Always registrySystem LockFree ⟨.start, some false⟩
      [.register true true true showServerProcStat, .inputIsOk showArgv] := by
  rintro ⟨-, -, hfree⟩
  exact absurd hfree.head (by decide)

end MyWorkEnv
