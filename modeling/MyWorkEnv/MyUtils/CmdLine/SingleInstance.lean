import MyWorkEnv.Lib.FileLock
import MyWorkEnv.Lib.Snprintf
import MyWorkEnv.Lib.Transition
import MyWorkEnv.MyUtils.CmdLine.Dispatch

/-!
# One server for each role

`CmdLineModuleInit` makes a program the server of its role if it gets the lock
on `/run/<RoleName>.pid`, and a client of the server otherwise. The system are
all processes that run programs of one role, each at its own pace, with the pid
file and its lock. Any of them may end at any time.

* The fds 0 to 2 are open when a program starts, so that the fd of the pid file
  is above them. `MyUtil_CloseStdFds`, which closes 0 to 2 in the server, leaves
  it, and nothing else closes it.
* It is `O_CLOEXEC`, so the commands started with `popen` and `system` have it
  from `fork` to `exec`.
* `ftruncate` may fail, and `write` may write less.
* What the client does, and what a server does after the worker of the command
  line has been started, is left out.
-/

namespace MyWorkEnv

open Transition CString Snprintf

/-- Where a process stands. `exiting` is on its way out of the program, `parent` in front of
its `exit(0)`, and `helper` between the `fork` and the `exec` of `popen` or `system`. -/
inductive InstancePc where
  | absent
  | argTest
  | openFile
  | lockTest
  | roleTest (isRunning : Bool)
  | client
  | makeDaemon
  | parent
  | truncate
  | writePid
  | worker
  | up
  | exiting
  | helper
deriving DecidableEq

/-- The processes by pid, with their arguments. -/
structure Instances where
  pc : ℕ → InstancePc
  argv : ℕ → List (List UInt8)
  lock : FileLock.State ℕ
  pidFile : List UInt8

/-- `ok` and `wrote` are what the system calls answer; `child` is the pid `fork` returns, if
it does not fail. -/
inductive InstanceAction where
  | launch (p : ℕ) (argv : List (List UInt8))
  | step (p : ℕ) (ok : Bool)
  | fork (p : ℕ) (child : Option ℕ)
  | write (p wrote : ℕ)
  | spawn (p child : ℕ)
  | gone (p : ℕ)

/-- What `MyUtil_SetPidIntoFile` writes. -/
def pidText (pid : ℕ) : List UInt8 := decimal pid ++ [0]

/-- A process that is or may become the server of its role. -/
def InstancePc.serves : InstancePc → Bool
  | .roleTest isRunning => !isRunning
  | .makeDaemon | .truncate | .writePid | .worker | .up => true
  | _ => false

namespace Instances

def init (pidFile : List UInt8) : Instances where
  pc _ := .absent
  argv _ := []
  lock := .empty
  pidFile := pidFile

def goto (s : Instances) (p : ℕ) (pc : InstancePc) : Instances :=
  { s with pc := Function.update s.pc p pc }

/-- `CmdLineModuleInit` between the role and what is done in it. -/
def roleTest (argv : List (List UInt8)) (isRunning : Bool) : InstancePc :=
  let arg := argv.getD 1 []
  if strcasecmpEq arg MyCmdType.help.opt then .exiting
  else if !strcasecmpEq arg MyCmdType.start.opt && !isRunning then .exiting
  else if isRunning then .client
  else .makeDaemon

def step (s : Instances) (p : ℕ) (ok : Bool) : Instances :=
  match s.pc p with
  | .argTest =>
      s.goto p (if (s.argv p).length = 2 ∨ (s.argv p).length = 3 then .openFile else .exiting)
  | .openFile =>
      if ok then { s.goto p .lockTest with lock := s.lock.openFile p } else s.goto p .exiting
  | .lockTest =>
      -- `flock` fails with anything but `EWOULDBLOCK`
      if !ok then s.goto p .exiting
      else if s.lock.mayLock p then { s.goto p (.roleTest false) with lock := s.lock.lock p }
      else s.goto p (.roleTest true)
  | .roleTest isRunning => s.goto p (roleTest (s.argv p) isRunning)
  | .client => s.goto p .exiting
  | .truncate =>
      { s.goto p .writePid with pidFile := if ok then [] else s.pidFile }
  -- memory for the thread, and `pthread_create`
  | .worker => s.goto p (if ok then .up else .exiting)
  | _ => s

/-- `MyUtil_MakeDaemon`; the parent exits even where there is no child. -/
def fork (s : Instances) (p : ℕ) : Option ℕ → Instances
  | none => s.goto p .parent
  | some q =>
      { (s.goto p .parent).goto q .truncate with
        argv := Function.update s.argv q (s.argv p)
        lock := s.lock.fork p q }

def write (s : Instances) (p wrote : ℕ) : Instances :=
  { s.goto p (if wrote = (pidText p).length then .worker else .exiting) with
    pidFile := (pidText p).take wrote ++ s.pidFile.drop wrote }

def guard (s : Instances) : InstanceAction → Bool
  | .launch p _ => s.pc p == .absent
  | .step p _ =>
      match s.pc p with
      | .argTest | .openFile | .lockTest | .roleTest _ | .client | .truncate | .worker => true
      | _ => false
  | .fork p child => s.pc p == .makeDaemon && child.all fun q => s.pc q == .absent
  | .write p wrote => s.pc p == .writePid && decide (wrote ≤ (pidText p).length)
  | .spawn p child => s.pc p == .up && s.pc child == .absent
  | .gone p => s.pc p != .absent

def next (s : Instances) : InstanceAction → Instances
  | .launch p argv => { s.goto p .argTest with argv := Function.update s.argv p argv }
  | .step p ok => s.step p ok
  | .fork p child => s.fork p child
  | .write p wrote => s.write p wrote
  | .spawn p child => { s.goto child .helper with lock := s.lock.fork p child }
  | .gone p => { s.goto p .absent with lock := s.lock.release p }

end Instances

/-- `pidFile` is what an earlier server left. -/
def instanceSystem (pidFile : List UInt8) : System Instances InstanceAction where
  init s := s = Instances.init pidFile
  enabled s a := s.guard a = true
  next := Instances.next

instance (pidFile : List UInt8) (s : Instances) (a : InstanceAction) :
    Decidable ((instanceSystem pidFile).enabled s a) :=
  inferInstanceAs (Decidable (_ = true))

/-! ## The steps of one process -/

namespace Instances

variable {s : Instances} {p q : ℕ}

@[simp] theorem goto_lock (pc : InstancePc) : (s.goto p pc).lock = s.lock := rfl

@[simp] theorem goto_pidFile (pc : InstancePc) : (s.goto p pc).pidFile = s.pidFile := rfl

@[simp] theorem goto_self (pc : InstancePc) : (s.goto p pc).pc p = pc := Function.update_self ..

theorem goto_of_ne (hqp : q ≠ p) (pc : InstancePc) : (s.goto p pc).pc q = s.pc q :=
  Function.update_of_ne hqp _ _

end Instances

/-- Before the pid file has been opened. -/
def InstancePc.closed : InstancePc → Bool
  | .absent | .argTest | .openFile => true
  | _ => false

/-- There is one server at most, it has the lock, and its pid is in the file. -/
structure Exclusive (s : Instances) : Prop where
  wf : FileLock.Wf s.lock
  holds : ∀ p, (s.pc p).serves = true → s.lock.Holds p
  single : ∀ p q, (s.pc p).serves = true → (s.pc q).serves = true → p = q
  closed : ∀ p, (s.pc p).closed = true → s.lock.desc p = none
  own : ∀ p, s.pc p = .lockTest →
    s.lock.desc p ≠ none ∧ ∀ q, q ≠ p → s.lock.desc q ≠ s.lock.desc p
  pid : ∀ p, s.pc p = .worker ∨ s.pc p = .up → pidText p <+: s.pidFile

namespace Exclusive

variable {s : Instances} {p q : ℕ}

theorem start (pidFile : List UInt8) : Exclusive (Instances.init pidFile) where
  wf := .empty
  holds p h := by simp [Instances.init, InstancePc.serves] at h
  single p q h := by simp [Instances.init, InstancePc.serves] at h
  closed _ _ := rfl
  own p h := by simp [Instances.init] at h
  pid p h := by simp [Instances.init] at h

/-- What has to be shown for a step that changes process `p` alone. -/
theorem change (h : Exclusive s) {s' : Instances} (p : ℕ)
    (hpc : ∀ q, q ≠ p → s'.pc q = s.pc q) (hwf : FileLock.Wf s'.lock)
    (hdesc : ∀ q, q ≠ p → s'.lock.desc q = s.lock.desc q)
    (hholds : ∀ q, q ≠ p → s.lock.Holds q → s'.lock.Holds q)
    (hserves : (s'.pc p).serves = true →
      s'.lock.Holds p ∧ ∀ q, q ≠ p → (s.pc q).serves = false)
    (hclosed : (s'.pc p).closed = true → s'.lock.desc p = none)
    (hown : s'.pc p = .lockTest →
      s'.lock.desc p ≠ none ∧ ∀ q, q ≠ p → s.lock.desc q ≠ s'.lock.desc p)
    (hothers : ∀ q, q ≠ p → s.pc q = .lockTest → s'.lock.desc p ≠ s.lock.desc q)
    (hpid : s'.pc p = .worker ∨ s'.pc p = .up → pidText p <+: s'.pidFile)
    (hfile : s'.pidFile = s.pidFile ∨ (s.pc p).serves = true) : Exclusive s' := by
  constructor
  case wf => exact hwf
  case holds =>
    intro q hq
    by_cases hqp : q = p
    · rw [hqp] at hq ⊢
      exact (hserves hq).1
    · rw [hpc q hqp] at hq
      exact hholds q hqp (h.holds q hq)
  case single =>
    intro q r hq hr
    by_cases hqp : q = p
    · by_cases hrp : r = p
      · rw [hqp, hrp]
      · rw [hqp] at hq
        rw [hpc r hrp, (hserves hq).2 r hrp] at hr
        simp at hr
    · rw [hpc q hqp] at hq
      by_cases hrp : r = p
      · rw [hrp] at hr
        rw [(hserves hr).2 q hqp] at hq
        simp at hq
      · rw [hpc r hrp] at hr
        exact h.single q r hq hr
  case closed =>
    intro q hq
    by_cases hqp : q = p
    · rw [hqp] at hq ⊢
      exact hclosed hq
    · rw [hpc q hqp] at hq
      rw [hdesc q hqp]
      exact h.closed q hq
  case own =>
    intro q hq
    by_cases hqp : q = p
    · rw [hqp] at hq ⊢
      refine ⟨(hown hq).1, fun r hrp => ?_⟩
      rw [hdesc r hrp]
      exact (hown hq).2 r hrp
    · rw [hpc q hqp] at hq
      obtain ⟨hopen, hothers'⟩ := h.own q hq
      rw [hdesc q hqp]
      refine ⟨hopen, fun r hrq => ?_⟩
      by_cases hrp : r = p
      · rw [hrp]
        exact hothers q hqp hq
      · rw [hdesc r hrp]
        exact hothers' r hrq
  case pid =>
    intro q hq
    by_cases hqp : q = p
    · rw [hqp] at hq ⊢
      exact hpid hq
    · rw [hpc q hqp] at hq
      rcases hfile with hsame | hserving
      · rw [hsame]
        exact h.pid q hq
      · have hq' : (s.pc q).serves = true := by
          rcases hq with hq | hq <;> rw [hq] <;> rfl
        exact absurd (h.single q p hq' hserving) hqp

theorem alone (h : Exclusive s) (hp : (s.pc p).serves = true) :
    ∀ q, q ≠ p → (s.pc q).serves = false := by
  intro q hqp
  by_contra hq
  exact hqp (h.single q p (by simpa using hq) hp)

/-- One process goes on with what it has, and may write the file if it is the server. -/
theorem move (h : Exclusive s) {pc : InstancePc} {text : List UInt8}
    (hserves : pc.serves = true → (s.pc p).serves = true) (hlock : pc ≠ .lockTest)
    (hclosed : pc.closed = true → s.lock.desc p = none)
    (hpid : pc = .worker ∨ pc = .up → pidText p <+: text)
    (hfile : text = s.pidFile ∨ (s.pc p).serves = true) :
    Exclusive { s.goto p pc with pidFile := text } := by
  refine h.change p (fun q hqp => Instances.goto_of_ne hqp pc) h.wf (fun _ _ => rfl)
    (fun _ _ hold => hold) ?_ ?_ ?_ ?_ ?_ hfile
  · intro hs
    have hp := hserves (by simpa using hs)
    exact ⟨h.holds p hp, h.alone hp⟩
  · intro hc
    exact hclosed (by simpa using hc)
  · intro hl
    exact absurd (by simpa using hl) hlock
  · intro q hqp hq
    exact (h.own q hq).2 p hqp.symm
  · intro hup
    exact hpid (by simpa using hup)

theorem openFile (h : Exclusive s) (hp : s.pc p = .openFile) :
    Exclusive { s.goto p .lockTest with lock := s.lock.openFile p } := by
  have hnone : s.lock.desc p = none := h.closed p (by rw [hp]; rfl)
  have hnew : (s.lock.openFile p).desc p = some s.lock.opened := Function.update_self ..
  have hfresh : ∀ q, s.lock.desc q ≠ some s.lock.opened := fun q hq =>
    lt_irrefl _ (h.wf.fresh q _ hq)
  refine h.change p (fun q hqp => Instances.goto_of_ne hqp _) (h.wf.openFile hnone)
    (fun q hqp => Function.update_of_ne hqp _ _) ?_ ?_ ?_ ?_ ?_ ?_ (.inl rfl)
  · exact fun q hqp hold => h.wf.holds_openFile.mpr ⟨hqp, hold⟩
  · intro hs
    simp [InstancePc.serves] at hs
  · intro hc
    simp [InstancePc.closed] at hc
  · intro _
    show (s.lock.openFile p).desc p ≠ none ∧ ∀ q, q ≠ p →
      s.lock.desc q ≠ (s.lock.openFile p).desc p
    rw [hnew]
    exact ⟨by simp, fun q _ => hfresh q⟩
  · intro q _ _ heq
    exact hfresh q (heq.symm.trans hnew)
  · intro hup
    simp at hup

/-- `flock` succeeds where nobody else has the lock. -/
theorem takeLock (h : Exclusive s) (hp : s.pc p = .lockTest) (hmay : s.lock.mayLock p = true) :
    Exclusive { s.goto p (.roleTest false) with lock := s.lock.lock p } := by
  obtain ⟨hopen, hown⟩ := h.own p hp
  have hnobody : ∀ q, q ≠ p → ¬ s.lock.Holds q := fun q hqp hold =>
    hown q hqp ((h.wf.mayLock_iff hopen).mp hmay q hold)
  refine h.change p (fun q hqp => Instances.goto_of_ne hqp _) h.wf.lock (fun _ _ => rfl)
    (fun q hqp hold => absurd hold (hnobody q hqp)) ?_ ?_ ?_ ?_ ?_ (.inl rfl)
  · intro _
    refine ⟨(FileLock.Wf.holds_lock hopen).mpr rfl, fun q hqp => ?_⟩
    by_contra hq
    exact hnobody q hqp (h.holds q (by simpa using hq))
  · intro hc
    simp [InstancePc.closed] at hc
  · intro hl
    simp at hl
  · intro q hqp hq
    exact (h.own q hq).2 p hqp.symm
  · intro hup
    simp at hup

/-- A process that shares what `p` has open. -/
theorem child (h : Exclusive s) {pc : InstancePc} (hq : s.pc q = .absent)
    (hp : s.lock.Holds p) (hlock : s.pc p ≠ .lockTest)
    (hserves : pc.serves = true → ∀ r, (s.pc r).serves = false)
    (hpc : pc.closed = false ∧ pc ≠ .lockTest ∧ pc ≠ .worker ∧ pc ≠ .up)
    (argv : ℕ → List (List UInt8)) :
    Exclusive { s.goto q pc with argv := argv, lock := s.lock.fork p q } := by
  have hnone : s.lock.desc q = none := h.closed q (by rw [hq]; rfl)
  have hshare : (s.lock.fork p q).desc q = s.lock.desc p := Function.update_self ..
  refine h.change q (fun r hrq => Instances.goto_of_ne hrq _) (h.wf.fork hnone)
    (fun r hrq => Function.update_of_ne hrq _ _) ?_ ?_ ?_ ?_ ?_ ?_ (.inl rfl)
  · intro r hrq hold
    rw [FileLock.Wf.holds_fork, if_neg hrq]
    exact hold
  · intro hs
    rw [FileLock.Wf.holds_fork, if_pos rfl]
    exact ⟨hp, fun r _ => hserves (by simpa using hs) r⟩
  · intro hc
    simp [hpc.1] at hc
  · intro hl
    exact absurd (by simpa using hl) hpc.2.1
  · intro r hrq hr
    show (s.lock.fork p q).desc q ≠ s.lock.desc r
    rw [hshare]
    refine (h.own r hr).2 p ?_
    rintro rfl
    exact hlock hr
  · rintro (hup | hup)
    · exact absurd (by simpa using hup) hpc.2.2.1
    · exact absurd (by simpa using hup) hpc.2.2.2

theorem gone (h : Exclusive s) (p : ℕ) :
    Exclusive { s.goto p .absent with lock := s.lock.release p } := by
  have hnone : (s.lock.release p).desc p = none := Function.update_self ..
  refine h.change p (fun q hqp => Instances.goto_of_ne hqp _) h.wf.release
    (fun q hqp => Function.update_of_ne hqp _ _) ?_ ?_ (fun _ => hnone) ?_ ?_ ?_ (.inl rfl)
  · exact fun q hqp hold => h.wf.holds_release.mpr ⟨hqp, hold⟩
  · intro hs
    simp [InstancePc.serves] at hs
  · intro hl
    simp at hl
  · intro q _ hq heq
    exact (h.own q hq).1 (heq.symm.trans hnone)
  · intro hup
    simp at hup

theorem step (h : Exclusive s) (ok : Bool) (ha : s.guard (.step p ok) = true) :
    Exclusive (s.step p ok) := by
  unfold Instances.step
  cases hpc : s.pc p with
  | argTest =>
      have hclosed : s.lock.desc p = none := h.closed p (by rw [hpc]; rfl)
      simp only
      split_ifs
      · exact h.move (by simp [InstancePc.serves]) (by simp) (fun _ => hclosed) (by simp) (.inl rfl)
      · exact h.move (by simp [InstancePc.serves]) (by simp) (by simp [InstancePc.closed])
          (by simp) (.inl rfl)
  | openFile =>
      simp only
      split_ifs
      · exact h.openFile hpc
      · exact h.move (by simp [InstancePc.serves]) (by simp) (by simp [InstancePc.closed])
          (by simp) (.inl rfl)
  | lockTest =>
      simp only
      split_ifs with hfail hmay
      · exact h.move (by simp [InstancePc.serves]) (by simp) (by simp [InstancePc.closed])
          (by simp) (.inl rfl)
      · exact h.takeLock hpc hmay
      · exact h.move (by simp [InstancePc.serves]) (by simp) (by simp [InstancePc.closed])
          (by simp) (.inl rfl)
  | roleTest isRunning =>
      simp only [Instances.roleTest]
      split_ifs with hhelp hstart hrunning
      · exact h.move (by simp [InstancePc.serves]) (by simp) (by simp [InstancePc.closed])
          (by simp) (.inl rfl)
      · exact h.move (by simp [InstancePc.serves]) (by simp) (by simp [InstancePc.closed])
          (by simp) (.inl rfl)
      · exact h.move (by simp [InstancePc.serves]) (by simp) (by simp [InstancePc.closed])
          (by simp) (.inl rfl)
      · exact h.move (by simp [hpc, InstancePc.serves, hrunning]) (by simp)
          (by simp [InstancePc.closed]) (by simp) (.inl rfl)
  | client =>
      exact h.move (by simp [InstancePc.serves]) (by simp) (by simp [InstancePc.closed])
        (by simp) (.inl rfl)
  | truncate =>
      exact h.move (by simp [hpc, InstancePc.serves]) (by simp) (by simp [InstancePc.closed])
        (by simp) (.inr (by rw [hpc]; rfl))
  | worker =>
      have hpid := h.pid p (.inl hpc)
      cases ok with
      | true =>
          exact h.move (by simp [hpc, InstancePc.serves]) (by simp) (by simp [InstancePc.closed])
            (fun _ => hpid) (.inl rfl)
      | false =>
          exact h.move (by simp [InstancePc.serves]) (by simp) (by simp [InstancePc.closed])
            (by simp) (.inl rfl)
  | _ => simp [Instances.guard, hpc] at ha

theorem next (h : Exclusive s) {a : InstanceAction} (ha : s.guard a = true) :
    Exclusive (s.next a) := by
  cases a with
  | launch p argv =>
      simp only [Instances.guard, beq_iff_eq] at ha
      have hmove : Exclusive { s.goto p .argTest with pidFile := s.pidFile } :=
        h.move (by simp [InstancePc.serves]) (by simp)
          (fun _ => h.closed p (by rw [ha]; rfl)) (by simp) (.inl rfl)
      exact ⟨hmove.wf, hmove.holds, hmove.single, hmove.closed, hmove.own, hmove.pid⟩
  | step p ok => exact h.step ok ha
  | fork p child =>
      simp only [Instances.guard, Bool.and_eq_true, beq_iff_eq] at ha
      obtain ⟨hpc, hchild⟩ := ha
      have hserves : (s.pc p).serves = true := by rw [hpc]; rfl
      have hparent : Exclusive { s.goto p .parent with pidFile := s.pidFile } :=
        h.move (by simp [InstancePc.serves]) (by simp) (by simp [InstancePc.closed])
          (by simp) (.inl rfl)
      cases child with
      | none => exact hparent
      | some q =>
          have hq : s.pc q = .absent := by simpa using hchild
          have hqp : q ≠ p := by
            rintro rfl
            simp [hpc] at hq
          refine hparent.child (p := p) ?_ (h.holds p hserves) ?_ ?_ ?_ _
          · exact (Instances.goto_of_ne hqp _).trans hq
          · simp [Instances.goto]
          · intro _ r
            by_cases hrp : r = p
            · simp [Instances.goto, hrp, InstancePc.serves]
            · simpa [Instances.goto, hrp] using h.alone hserves r hrp
          · simp [InstancePc.closed]
  | write p wrote =>
      simp only [Instances.guard, Bool.and_eq_true, beq_iff_eq, decide_eq_true_eq] at ha
      obtain ⟨hpc, hle⟩ := ha
      have hserves : (s.pc p).serves = true := by rw [hpc]; rfl
      show Exclusive (s.write p wrote)
      unfold Instances.write
      refine h.move (fun _ => hserves) ?_ ?_ ?_ (.inr hserves)
      · split_ifs <;> simp
      · split_ifs <;> simp [InstancePc.closed]
      · intro hup
        split_ifs at hup with hall
        · rw [hall, List.take_length]
          exact List.prefix_append _ _
        · simp at hup
  | spawn p child =>
      simp only [Instances.guard, Bool.and_eq_true, beq_iff_eq] at ha
      obtain ⟨hpc, hq⟩ := ha
      exact h.child hq (h.holds p (by rw [hpc]; rfl)) (by simp [hpc])
        (by simp [InstancePc.serves]) (by simp [InstancePc.closed]) s.argv
  | gone p => exact h.gone p

end Exclusive

theorem exclusive_of_reach {pidFile : List UInt8} {P : Instances → InstanceAction → Prop}
    {s : Instances} (hr : Reach (instanceSystem pidFile) P s) : Exclusive s := by
  refine hr.invariant ?_ ?_
  · rintro s rfl
    exact .start pidFile
  · intro s a h ha _
    exact h.next ha

/-- **There is one server at most.** In every run of any number of processes, whichever of
them end and whenever they do: two processes that act as the server are the same; the pid
file of a server that is up begins with its pid; the lock test makes a process the server
just when no other one has the lock; and none has it that is gone. -/
theorem single_instance {pidFile : List UInt8} {P : Instances → InstanceAction → Prop}
    {s : Instances} (hr : Reach (instanceSystem pidFile) P s) :
    (∀ p q, (s.pc p).serves = true → (s.pc q).serves = true → p = q) ∧
    (∀ p, s.pc p = .up → pidText p <+: s.pidFile) ∧
    (∀ p, s.pc p = .lockTest →
      (((s.step p true).pc p).serves = true ↔ ∀ q, q ≠ p → ¬ s.lock.Holds q)) ∧
    ∀ q, s.lock.Holds q → s.pc q ≠ .absent := by
  have h := exclusive_of_reach hr
  refine ⟨h.single, fun p hp => h.pid p (.inr hp), fun p hp => ?_, fun q hold hq => ?_⟩
  · obtain ⟨hopen, hown⟩ := h.own p hp
    have hstep : ((s.step p true).pc p).serves = s.lock.mayLock p := by
      simp only [Instances.step, hp, Bool.not_true, Bool.false_eq_true, if_false]
      cases hmay : s.lock.mayLock p <;> simp [InstancePc.serves]
    rw [hstep, h.wf.mayLock_iff hopen]
    constructor
    · intro hall q hqp hold
      exact hown q hqp (hall q hold)
    · intro hnone q hold
      by_cases hqp : q = p
      · rw [hqp]
      · exact absurd hold (hnone q hqp)
  · obtain ⟨d, -, hd⟩ := FileLock.Wf.owner_of_holds hold
    rw [h.closed q (by rw [hq]; rfl)] at hd
    simp at hd

/-- Processes 7 and 8 start the program; 7 gets the lock, and its child 9 is up when 8 comes
to the test. -/
def twoStartsRun : List InstanceAction :=
  [.launch 7 [[], MyCmdType.start.opt], .step 7 true, .launch 8 [[], MyCmdType.start.opt],
    .step 8 true, .step 7 true, .step 8 true, .step 7 true, .step 7 true, .fork 7 (some 9),
    .gone 7, .step 9 true, .write 9 2, .step 9 true]

def twoStarts : Instances := exec (instanceSystem []) (Instances.init []) twoStartsRun

theorem reach_twoStarts : Reachable (instanceSystem []) twoStarts :=
  Reach.exec (.init rfl) (by decide)

theorem single_instance_two : pidText 9 <+: twoStarts.pidFile :=
  (single_instance reach_twoStarts).2.1 9 (by decide)

end MyWorkEnv
