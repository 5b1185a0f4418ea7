import MyWorkEnv.Lib.Retention
import MyWorkEnv.MyUtils.Log.LogIO

/-!
# What is left of the log on disk

The three commands of `LogRotate` beside the log they are about: `tar` into an
archive named after the second, `rm` of the file, and the removal of all archives
but the `LogMaxNum` newest. Whatever threads print and rotate, each line is in the
file once, until a rotation takes it away, and the archives are the newest ones of
those that `tar` has made, as far as they have names of their own.

* `tar` may fail and make no archive; the file is removed all the same, and its
  lines with it.
* The last command begins with `pushd`, which not every shell behind `system`
  knows. One that does not removes nothing.
* The times of archives are in the order in which they are made.
-/

namespace MyWorkEnv

open CString Transition Retention

abbrev myLogDefaultMexNum : ℕ := 3

def logMaxNumOf (logMaxNum : BitVec 32) : ℕ :=
  if 0 < logMaxNum.toInt then logMaxNum.toInt.toNat else myLogDefaultMexNum

/-- `S` are the texts `date` prints. `start` is what the file held at first, `printed` the
lines since then, and `tarred` the archives made; no step depends on them. -/
structure LogDisk (S : Type) where
  log : LogSystem
  archives : List (S × List UInt8)
  start : List UInt8
  printed : List (List UInt8)
  tarred : List (S × List UInt8)

/-- The `LogMaxNum` of `InitArg`, and whether the shell knows `pushd`. -/
structure RotateEnv where
  logMaxNum : BitVec 32
  pushd : Bool

/-- A step of the log; `date` and `tarOk` are about the commands of a rotation. -/
structure LogDiskAction (S : Type) where
  act : LogAction
  date : S
  tarOk : Bool

namespace LogDisk

variable {S : Type} [DecidableEq S]

def init (log : LogSystem) (archives : List (S × List UInt8)) : LogDisk S :=
  ⟨log, archives, log.file, [], []⟩

/-- The archives after the commands of `LogRotate`. -/
def command (env : RotateEnv) (archives : List (S × List UInt8)) (date : S) (tarOk : Bool)
    (file : List UInt8) : List (S × List UInt8) :=
  let made := if tarOk then put archives (date, file) else archives
  if env.pushd then made.rtake (logMaxNumOf env.logMaxNum) else made

def next (env : RotateEnv) (s : LogDisk S) (a : LogDiskAction S) : LogDisk S :=
  match a.act with
  | .print _ level line =>
      { s with
        log := s.log.next a.act
        printed :=
          if level < s.log.worker.logLevel ∨ ¬ s.log.worker.inited then s.printed
          else s.printed ++ [line] }
  | .sizeTest _ => { s with log := s.log.next a.act }
  | .rotate _ =>
      let file := s.log.file ++ LogSystem.lograting
      { s with
        log := s.log.next a.act
        archives := command env s.archives a.date a.tarOk file
        tarred := if a.tarOk then s.tarred ++ [(a.date, file)] else s.tarred }

end LogDisk

variable {S : Type} [DecidableEq S]

def logDiskSystem (arg : LogModuleInitArg) (env : RotateEnv) (old : List (S × List UInt8)) :
    System (LogDisk S) (LogDiskAction S) where
  init s := ∃ contents, s = LogDisk.init (LogSystem.logModuleInit arg contents) old
  enabled s a := s.log.enabled a.act
  next := LogDisk.next env

instance (arg : LogModuleInitArg) (env : RotateEnv) (old : List (S × List UInt8)) (s : LogDisk S)
    (a : LogDiskAction S) : Decidable ((logDiskSystem arg env old).enabled s a) :=
  inferInstanceAs (Decidable (s.log.enabled a.act))

/-! ## Nothing is lost on the way -/

/-- The archives, without the line that ends each, and the file are what was printed. -/
def TextKept (s : LogDisk S) : Prop :=
  ∃ bodies : List (List UInt8), s.log.archived = bodies.map (· ++ LogSystem.lograting) ∧
    bodies.flatten ++ s.log.file = s.start ++ s.printed.flatten

variable {arg : LogModuleInitArg} {env : RotateEnv} {old : List (S × List UInt8)} {s : LogDisk S}

omit [DecidableEq S] in
theorem textKept_init (log : LogSystem) (h : log.archived = []) (archives : List (S × List UInt8)) :
    TextKept (LogDisk.init log archives) :=
  ⟨[], by simpa [LogDisk.init] using h, by simp [LogDisk.init]⟩

theorem TextKept.next (h : TextKept s) (a : LogDiskAction S) : TextKept (s.next env a) := by
  obtain ⟨bodies, harchived, htext⟩ := h
  obtain ⟨act, date, tarOk⟩ := a
  cases act with
  | print t level line =>
      simp only [LogDisk.next, LogSystem.next, LogSystem.print]
      split_ifs with hskip
      · exact ⟨bodies, harchived, htext⟩
      · refine ⟨bodies, harchived, ?_⟩
        show bodies.flatten ++ (s.log.file ++ line) = s.start ++ (s.printed ++ [line]).flatten
        rw [← List.append_assoc, htext]
        simp
  | sizeTest t =>
      simp only [LogDisk.next, LogSystem.next, LogSystem.sizeTest]
      split_ifs <;> exact ⟨bodies, harchived, htext⟩
  | rotate t =>
      refine ⟨bodies ++ [s.log.file], ?_, ?_⟩
      · show s.log.archived ++ [s.log.file ++ LogSystem.lograting] = _
        rw [harchived]
        simp
      · show (bodies ++ [s.log.file]).flatten ++ [] = s.start ++ s.printed.flatten
        rw [← htext]
        simp

/-! ## Which archives are left -/

/-- Of the archives made after those of the start, the newest are left, or all. -/
structure NewestLeft (env : RotateEnv) (old : List (S × List UInt8)) (s : LogDisk S) : Prop where
  tarred : (s.tarred.map Prod.snd).Sublist s.log.archived
  archives : s.archives =
    if env.pushd ∧ s.log.archived ≠ [] then
      (putAll old s.tarred).rtake (logMaxNumOf env.logMaxNum)
    else putAll old s.tarred

theorem archived_print (s : LogSystem) (t : ℕ) (level : ℤ) (line : List UInt8) :
    (s.print t level line).archived = s.archived := by
  unfold LogSystem.print
  split_ifs <;> rfl

theorem archived_sizeTest (s : LogSystem) (t : ℕ) : (s.sizeTest t).archived = s.archived := by
  unfold LogSystem.sizeTest
  split_ifs <;> rfl

theorem newestLeft_init (contents : List UInt8) :
    NewestLeft env old (LogDisk.init (LogSystem.logModuleInit arg contents) old) :=
  ⟨List.nil_sublist _, by simp [LogDisk.init, LogSystem.logModuleInit, putAll]⟩

/-- The commands of a rotation, when rotations before have left the newest. -/
theorem command_eq (hold : Named old) (h : NewestLeft env old s) (date : S) (tarOk : Bool)
    (file : List UInt8) :
    LogDisk.command env s.archives date tarOk file =
      let made := putAll old (if tarOk then s.tarred ++ [(date, file)] else s.tarred)
      if env.pushd then made.rtake (logMaxNumOf env.logMaxNum) else made := by
  unfold LogDisk.command
  rw [h.archives]
  cases env.pushd with
  | false =>
      cases tarOk with
      | false => simp
      | true => simp [putAll_concat]
  | true =>
      by_cases hnone : s.log.archived = []
      · cases tarOk with
        | false => simp [hnone]
        | true => simp [hnone, putAll_concat]
      · cases tarOk with
        | false => simp [hnone, rtake_rtake]
        | true =>
            have hrotate := rotate_rtake (k := logMaxNumOf env.logMaxNum)
              (hold.putAll s.tarred) (date, file)
            simpa [hnone, putAll_concat, rotate] using hrotate

theorem NewestLeft.next (h : NewestLeft env old s) (hold : Named old) (a : LogDiskAction S) :
    NewestLeft env old (s.next env a) := by
  obtain ⟨act, date, tarOk⟩ := a
  cases act with
  | print t level line =>
      have hsame := archived_print s.log t level line
      constructor
      · show (s.tarred.map Prod.snd).Sublist (s.log.print t level line).archived
        rw [hsame]
        exact h.tarred
      · show s.archives = if env.pushd ∧ (s.log.print t level line).archived ≠ [] then _ else _
        rw [hsame]
        exact h.archives
  | sizeTest t =>
      have hsame := archived_sizeTest s.log t
      constructor
      · show (s.tarred.map Prod.snd).Sublist (s.log.sizeTest t).archived
        rw [hsame]
        exact h.tarred
      · show s.archives = if env.pushd ∧ (s.log.sizeTest t).archived ≠ [] then _ else _
        rw [hsame]
        exact h.archives
  | rotate t =>
      constructor
      · show List.Sublist (List.map Prod.snd (if tarOk then _ else _)) (s.log.archived ++ [_])
        cases tarOk with
        | false => exact h.tarred.trans (List.sublist_append_left _ _)
        | true =>
            rw [if_pos rfl, List.map_append]
            exact h.tarred.append (List.Sublist.refl _)
      · have hsome : s.log.archived ++ [s.log.file ++ LogSystem.lograting] ≠ [] := by simp
        show LogDisk.command env s.archives date tarOk _ =
          if env.pushd ∧ s.log.archived ++ [s.log.file ++ LogSystem.lograting] ≠ [] then _ else _
        rw [command_eq hold h]
        simp only [hsome, ne_eq, not_false_eq_true, and_true]
        rfl

/-! ## Runs -/

/-- The archives and the file are what was printed, and of the archives those left are
the newest. -/
structure OnDisk (env : RotateEnv) (old : List (S × List UInt8)) (s : LogDisk S) : Prop where
  text : TextKept s
  newest : NewestLeft env old s
  few : env.pushd → s.log.archived ≠ [] → s.archives.length ≤ logMaxNumOf env.logMaxNum
  /-- If no `tar` has failed and no name was used twice, what is missing is the oldest. -/
  suffix : Named (old ++ s.tarred) → s.tarred.length = s.log.archived.length →
    s.tarred.map Prod.snd = s.log.archived ∧ s.archives <:+ old ++ s.tarred

theorem OnDisk.intro (htext : TextKept s) (h : NewestLeft env old s) : OnDisk env old s := by
  refine ⟨htext, h, ?_, ?_⟩
  · intro hpushd hsome
    rw [h.archives, if_pos ⟨hpushd, hsome⟩]
    exact length_rtake_le _ _
  · intro hnamed hall
    refine ⟨h.tarred.eq_of_length (by simpa using hall), ?_⟩
    rw [h.archives, putAll_of_named hnamed]
    split_ifs
    · exact rtake_suffix _ _
    · exact List.suffix_rfl

/-- **The log on disk.** Archives and file hold the lines in the order of printing, and of
the archives the `LogMaxNum` newest are left if the shell knows `pushd`, else all. -/
theorem log_on_disk (hold : Named old) (h : Reachable (logDiskSystem arg env old) s) :
    OnDisk env old s := by
  have hboth : TextKept s ∧ NewestLeft env old s := by
    refine h.invariant (I := fun s => TextKept s ∧ NewestLeft env old s) ?_ ?_
    · rintro s ⟨contents, rfl⟩
      exact ⟨textKept_init _ rfl _, newestLeft_init contents⟩
    · intro s a hs _ _
      exact ⟨hs.1.next a, hs.2.next hold a⟩
  exact OnDisk.intro hboth.1 hboth.2

/-- One archive is kept, and two are made. -/
def keepOne : RotateEnv := ⟨1, true⟩

def twoRotations : List (LogDiskAction ℕ) :=
  [⟨.print 0 0 dots, 0, true⟩, ⟨.sizeTest 0, 0, true⟩, ⟨.rotate 0, 0, true⟩,
    ⟨.print 0 0 dots, 1, true⟩, ⟨.sizeTest 0, 1, true⟩, ⟨.rotate 0, 1, true⟩]

theorem log_on_disk_two :
    OnDisk keepOne [] (exec (logDiskSystem twelveBytes keepOne [])
      (LogDisk.init (LogSystem.logModuleInit twelveBytes []) []) twoRotations) ∧
    (exec (logDiskSystem twelveBytes keepOne [])
      (LogDisk.init (LogSystem.logModuleInit twelveBytes []) []) twoRotations).archives =
        [(1, dots ++ LogSystem.lograting)] :=
  ⟨log_on_disk (by simp [Named]) (Reach.exec (.init ⟨[], rfl⟩) (by decide)), by decide⟩

end MyWorkEnv
