import MyWorkEnv.Lib.CString
import MyWorkEnv.Lib.Transition

/-!
# The log and its rotation

`myLogIO.c`, with any number of threads in `LogPrint`. A step is what holds
`Lock`, or the size test, which does not. What `LogRotate` has the shell do is
one effect: the file's contents go to an archive and the file starts anew.
Names of archives and their number are left out.

`LogSize` is the size of the file that was open when it was written, and
nothing resets it. `opened` counts the files, and `measured` and `seen` are the
numbers of those that `LogSize` and a thread's size test are about; no step
depends on them.
-/

namespace MyWorkEnv

open CString Transition

abbrev myLogDefaultMexLen : ℤ := 50 * 1024 * 1024

/-- `MY_LOG_MODULE_INIT_ARG`, but for the path and the number of archives. -/
structure LogModuleInitArg where
  logLevel : ℤ
  logMaxSize : BitVec 32

/-- `MY_LOG_WORKER`, likewise, with its statistics. -/
structure LogWorker where
  logLevel : ℤ
  inited : Bool
  logMaxSize : ℤ
  logPrinted : BitVec 32
  logSize : ℤ

/-- Where a thread stands in `LogPrint`. -/
inductive LogPc where
  | idle
  | sizeTest
  | rotate
deriving DecidableEq

structure LogSystem where
  worker : LogWorker
  file : List UInt8
  thread : ℕ → LogPc
  -- what happened
  archived : List (List UInt8)
  opened : ℕ
  measured : ℕ
  seen : ℕ → ℕ

inductive LogAction where
  | print (t : ℕ) (level : ℤ) (line : List UInt8)
  | sizeTest (t : ℕ)
  | rotate (t : ℕ)

namespace LogSystem

def logMaxSizeOf (arg : LogModuleInitArg) : ℤ :=
  if 0 < arg.logMaxSize.toInt then arg.logMaxSize.toInt else myLogDefaultMexLen

/-- `LogModuleInit`; the file is opened to append to what it has. -/
def logModuleInit (arg : LogModuleInitArg) (contents : List UInt8) : LogSystem where
  worker := ⟨arg.logLevel, true, logMaxSizeOf arg, 0, 0⟩
  file := contents
  thread _ := .idle
  archived := []
  opened := 0
  measured := 0
  seen _ := 0

def lograting : List UInt8 :=
  ascii ['L', 'o', 'g', 'r', 'a', 't', 'i', 'n', 'g', '!', '\n']

/-- `LogPrint` up to the unlocking; `line` is what it prints. -/
def print (s : LogSystem) (t : ℕ) (level : ℤ) (line : List UInt8) : LogSystem :=
  if level < s.worker.logLevel ∨ ¬ s.worker.inited then s
  else
    { s with
      worker :=
        { s.worker with
          logPrinted := s.worker.logPrinted + 1
          logSize := (s.file ++ line).length }
      file := s.file ++ line
      thread := Function.update s.thread t .sizeTest
      measured := s.opened }

def sizeTest (s : LogSystem) (t : ℕ) : LogSystem :=
  if s.worker.logMaxSize ≤ s.worker.logSize then
    { s with
      thread := Function.update s.thread t .rotate
      seen := Function.update s.seen t s.measured }
  else { s with thread := Function.update s.thread t .idle }

def logRotate (s : LogSystem) (t : ℕ) : LogSystem :=
  { s with
    file := []
    thread := Function.update s.thread t .idle
    archived := s.archived ++ [s.file ++ lograting]
    opened := s.opened + 1 }

def enabled (s : LogSystem) : LogAction → Prop
  | .print t _ _ => s.thread t = .idle
  | .sizeTest t => s.thread t = .sizeTest
  | .rotate t => s.thread t = .rotate

def next (s : LogSystem) : LogAction → LogSystem
  | .print t level line => s.print t level line
  | .sizeTest t => s.sizeTest t
  | .rotate t => s.logRotate t

instance (s : LogSystem) (a : LogAction) : Decidable (s.enabled a) := by
  cases a <;> exact inferInstanceAs (Decidable (_ = _))

end LogSystem

abbrev logSystem (arg : LogModuleInitArg) : System LogSystem LogAction where
  init s := ∃ contents, s = LogSystem.logModuleInit arg contents
  enabled := LogSystem.enabled
  next := LogSystem.next

/-- A thread rotates the file whose size it has seen. -/
def RotatesWhatItSaw (s : LogSystem) : LogAction → Prop
  | .rotate t => s.seen t = s.opened
  | _ => True

instance (s : LogSystem) (a : LogAction) : Decidable (RotatesWhatItSaw s a) := by
  cases a <;> unfold RotatesWhatItSaw <;> infer_instance

/-- Every archive is of a file that has reached `LogMaxSize`, before `LogRotate` printed its
own line into it. -/
def ArchivesFull (s : LogSystem) : Prop :=
  ∀ file ∈ s.archived, s.worker.logMaxSize + LogSystem.lograting.length ≤ file.length

instance (s : LogSystem) : Decidable (ArchivesFull s) :=
  inferInstanceAs (Decidable (∀ file ∈ s.archived, _))

/-! ## Sizes and the files they are of -/

/-- A size of the open file is at most the size it has. -/
structure Measured (s : LogSystem) : Prop where
  logSize : s.measured = s.opened → s.worker.logSize ≤ s.file.length
  measured_le : s.measured ≤ s.opened
  passed : ∀ t, s.thread t = .rotate → s.seen t = s.opened →
    s.worker.logMaxSize ≤ s.file.length
  seen_le : ∀ t, s.thread t = .rotate → s.seen t ≤ s.opened

variable {arg : LogModuleInitArg} {s : LogSystem} {t : ℕ}

theorem measured_init (contents : List UInt8) :
    Measured (LogSystem.logModuleInit arg contents) :=
  ⟨fun _ => Int.natCast_nonneg _, le_rfl, by simp [LogSystem.logModuleInit],
    by simp [LogSystem.logModuleInit]⟩

/-- A thread that is sent elsewhere is not one of those that rotate. -/
theorem rotate_of_update {thread : ℕ → LogPc} {pc : LogPc} (hpc : pc ≠ .rotate) {u : ℕ}
    (hu : Function.update thread t pc u = .rotate) : thread u = .rotate := by
  by_cases hut : u = t
  · rw [hut, Function.update_self] at hu
    exact absurd hu hpc
  · rwa [Function.update_of_ne hut] at hu

theorem Measured.print (h : Measured s) (level : ℤ) (line : List UInt8) :
    Measured (s.print t level line) := by
  unfold LogSystem.print
  split_ifs
  · exact h
  · refine ⟨fun _ => le_rfl, le_rfl, ?_, ?_⟩
    · intro u hu hseen
      have hpassed := h.passed u (rotate_of_update (by decide) hu) hseen
      simp only [List.length_append]
      omega
    · exact fun u hu => h.seen_le u (rotate_of_update (by decide) hu)

theorem Measured.sizeTest (h : Measured s) : Measured (s.sizeTest t) := by
  unfold LogSystem.sizeTest
  split_ifs with hfull
  · refine ⟨h.logSize, h.measured_le, ?_, ?_⟩
    · intro u hu hseen
      by_cases hut : u = t
      · -- the size just read is of the open file
        simp only [hut, Function.update_self] at hseen
        exact hfull.trans (h.logSize hseen)
      · simp only [Function.update_of_ne hut] at hu hseen
        exact h.passed u hu hseen
    · intro u hu
      by_cases hut : u = t
      · simp only [hut, Function.update_self]
        exact h.measured_le
      · simp only [Function.update_of_ne hut] at hu ⊢
        exact h.seen_le u hu
  · refine ⟨h.logSize, h.measured_le, ?_, ?_⟩
    · exact fun u hu => h.passed u (rotate_of_update (by decide) hu)
    · exact fun u hu => h.seen_le u (rotate_of_update (by decide) hu)

/-- After a rotation no size is of the open file. -/
theorem Measured.logRotate (h : Measured s) : Measured (s.logRotate t) := by
  have hmeasured : s.measured < s.opened + 1 := Nat.lt_succ_of_le h.measured_le
  have hseen : ∀ u, (s.logRotate t).thread u = .rotate → s.seen u < s.opened + 1 :=
    fun u hu => Nat.lt_succ_of_le (h.seen_le u (rotate_of_update (by decide) hu))
  exact ⟨fun heq => absurd heq hmeasured.ne, hmeasured.le,
    fun u hu heq => absurd heq (hseen u hu).ne, fun u hu => (hseen u hu).le⟩

theorem Measured.next (h : Measured s) (a : LogAction) : Measured (s.next a) := by
  cases a with
  | print t level line => exact h.print level line
  | sizeTest t => exact h.sizeTest
  | rotate t => exact h.logRotate

theorem measured_of_reach {P : LogSystem → LogAction → Prop} (h : Reach (logSystem arg) P s) :
    Measured s := by
  refine h.invariant ?_ fun s a hs _ _ => hs.next a
  rintro s ⟨contents, rfl⟩
  exact measured_init contents

/-! ## Archives -/

theorem logMaxSize_next (s : LogSystem) (a : LogAction) :
    (s.next a).worker.logMaxSize = s.worker.logMaxSize := by
  cases a with
  | print t level line =>
      simp only [LogSystem.next, LogSystem.print]
      split_ifs <;> rfl
  | sizeTest t =>
      simp only [LogSystem.next, LogSystem.sizeTest]
      split_ifs <;> rfl
  | rotate t => rfl

theorem archivesFull_next {a : LogAction} (hs : Measured s) (h : ArchivesFull s)
    (ha : s.enabled a) (hsaw : RotatesWhatItSaw s a) : ArchivesFull (s.next a) := by
  unfold ArchivesFull
  rw [logMaxSize_next]
  cases a with
  | print t level line =>
      simp only [LogSystem.next, LogSystem.print]
      split_ifs <;> exact h
  | sizeTest t =>
      simp only [LogSystem.next, LogSystem.sizeTest]
      split_ifs <;> exact h
  | rotate t =>
      simp only [LogSystem.next, LogSystem.logRotate, List.mem_append, List.mem_singleton]
      rintro file (hfile | rfl)
      · exact h file hfile
      · have hfull := hs.passed t ha hsaw
        rw [List.length_append]
        omega

/-- **Rotation of a full log.** In a run where threads rotate only the file whose size
they have seen, every archive has reached `LogMaxSize`. -/
theorem archivesFull_of_reach (h : Reach (logSystem arg) RotatesWhatItSaw s) :
    ArchivesFull s := by
  refine h.invariant_of (fun _ => measured_of_reach) ?_ ?_
  · rintro s ⟨contents, rfl⟩
    simp [ArchivesFull, LogSystem.logModuleInit]
  · intro s a hs hfull ha hsaw
    exact archivesFull_next hs hfull ha hsaw

/-- As long as one line. -/
def twelveBytes : LogModuleInitArg := ⟨0, 12⟩

def dots : List UInt8 := List.replicate 12 46

/-- One printer fills the log and rotates it. -/
theorem archivesFull_of_reach_once :
    ArchivesFull (exec (logSystem twelveBytes) (LogSystem.logModuleInit twelveBytes [])
      [.print 0 0 dots, .sizeTest 0, .rotate 0]) :=
  archivesFull_of_reach (Reach.exec (.init ⟨[], rfl⟩) (by decide))

/-! ## One thread -/

/-- The only thread that prints is `t`. -/
def OnlyThread (t : ℕ) (_ : LogSystem) : LogAction → Prop
  | .print u _ _ | .sizeTest u | .rotate u => u = t

/-- Between its print and its rotation, what the thread has measured is the open file. -/
structure MeasuresOpen (t : ℕ) (s : LogSystem) : Prop where
  measured : s.thread t = .sizeTest → s.measured = s.opened
  seen : s.thread t = .rotate → s.seen t = s.opened

theorem measuresOpen_next {a : LogAction} (h : MeasuresOpen t s) (ha : s.enabled a)
    (honly : OnlyThread t s a) : MeasuresOpen t (s.next a) := by
  cases a with
  | print u level line =>
      cases honly
      simp only [LogSystem.next, LogSystem.print]
      split_ifs
      · exact h
      · exact ⟨fun _ => rfl, by simp⟩
  | sizeTest u =>
      cases honly
      simp only [LogSystem.next, LogSystem.sizeTest]
      split_ifs
      · exact ⟨by simp, fun _ => by simpa using h.measured ha⟩
      · exact ⟨by simp, by simp⟩
  | rotate u =>
      cases honly
      exact ⟨by simp [LogSystem.next, LogSystem.logRotate],
        by simp [LogSystem.next, LogSystem.logRotate]⟩

/-- **One thread** rotates only what it has filled. -/
theorem archivesFull_of_onlyThread (h : Reach (logSystem arg) (OnlyThread t) s) :
    ArchivesFull s := by
  have hboth : MeasuresOpen t s ∧ ArchivesFull s := by
    refine h.invariant_of (I := fun s => MeasuresOpen t s ∧ ArchivesFull s)
      (fun _ => measured_of_reach) ?_ ?_
    · rintro s ⟨contents, rfl⟩
      exact ⟨⟨fun _ => rfl, fun _ => rfl⟩, by simp [ArchivesFull, LogSystem.logModuleInit]⟩
    · rintro s a hs ⟨hopen, hfull⟩ ha honly
      refine ⟨measuresOpen_next hopen ha honly, archivesFull_next hs hfull ha ?_⟩
      cases a with
      | rotate u =>
          cases honly
          exact hopen.seen ha
      | _ => trivial
  exact hboth.2

/-! ## Several threads -/

/-- Two printers see the full log, and the second to rotate archives a line. -/
theorem not_archivesFull :
    ¬ ∀ (arg : LogModuleInitArg) (s : LogSystem), Reachable (logSystem arg) s →
      ArchivesFull s := by
  intro h
  have hreach : Reachable (logSystem twelveBytes) (exec (logSystem twelveBytes)
      (LogSystem.logModuleInit twelveBytes [])
      [.print 0 0 dots, .print 1 0 dots, .sizeTest 0, .sizeTest 1, .rotate 0,
        .rotate 1]) :=
    Reach.exec (.init ⟨[], rfl⟩) (by decide)
  have hfull := h _ _ hreach
  revert hfull
  decide

end MyWorkEnv
