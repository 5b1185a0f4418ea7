import Mathlib.Tactic

/-!
# Locks on open files

A lock taken with `flock` belongs to an open file description. `open` makes a
new one, a forked process shares that of its parent, and it is gone, and its
lock with it, when the last process that shares it has closed it. So the
processes that hold the lock are those of one description (`Holds`), and the
lock can be had just when no description of other processes has it
(`Wf.mayLock_iff`).
-/

namespace FileLock

/-- One file: the description through which each process has it open, the processes that
ever opened it, how many descriptions there have been, and the one that has the lock. -/
structure State (P : Type) where
  desc : P → Option ℕ
  procs : List P
  opened : ℕ
  owner : Option ℕ

variable {P : Type} {s : State P} {p q r : P}

namespace State

def empty : State P := ⟨fun _ => none, [], 0, none⟩

/-- Does `flock(fd, LOCK_EX | LOCK_NB)` succeed? -/
def mayLock (s : State P) (p : P) : Bool :=
  (s.desc p).isSome && (s.owner.isNone || s.owner == s.desc p)

def lock (s : State P) (p : P) : State P := { s with owner := s.desc p }

def Holds (s : State P) (p : P) : Prop := s.owner ≠ none ∧ s.desc p = s.owner

end State

open State

structure Wf (s : State P) : Prop where
  listed : ∀ p, s.desc p ≠ none → p ∈ s.procs
  fresh : ∀ p d, s.desc p = some d → d < s.opened
  owned : ∀ d, s.owner = some d → ∃ p, s.desc p = some d

namespace Wf

theorem empty : Wf (State.empty : State P) where
  listed _ h := absurd rfl h
  fresh _ _ h := by simp [State.empty] at h
  owned _ h := by simp [State.empty] at h

theorem lock (h : Wf s) : Wf (s.lock p) where
  listed := h.listed
  fresh := h.fresh
  owned _ hd := ⟨p, hd⟩

/-! ## Who holds the lock -/

theorem owner_of_holds (hp : s.Holds p) : ∃ d, s.owner = some d ∧ s.desc p = some d := by
  obtain ⟨d, hd⟩ := Option.ne_none_iff_exists'.mp hp.1
  exact ⟨d, hd, hp.2.trans hd⟩

theorem holds_lock (hp : s.desc p ≠ none) : (s.lock p).Holds q ↔ s.desc q = s.desc p := by
  simp [State.Holds, State.lock, hp]

/-- **The lock can be had** where all who hold it share the description. -/
theorem mayLock_iff (h : Wf s) (hp : s.desc p ≠ none) :
    s.mayLock p = true ↔ ∀ q, s.Holds q → s.desc q = s.desc p := by
  obtain ⟨d, hd⟩ := Option.ne_none_iff_exists'.mp hp
  cases howner : s.owner with
  | none => simp [State.mayLock, State.Holds, hd, howner]
  | some d' =>
      simp only [State.mayLock, hd, howner, Option.isSome_some, Bool.true_and,
        Option.isNone_some, Bool.false_or, beq_iff_eq, Option.some.injEq]
      constructor
      · rintro rfl q hold
        rw [hold.2, howner]
      · intro hall
        obtain ⟨q, hq⟩ := h.owned d' howner
        have hsame := hall q ⟨by simp [howner], by rw [hq, howner]⟩
        rw [hq] at hsame
        exact Option.some.inj hsame

end Wf

/-! ## Processes that come and go -/

variable [DecidableEq P]

namespace State

def openFile (s : State P) (p : P) : State P :=
  { s with
    desc := Function.update s.desc p (some s.opened)
    procs := p :: s.procs
    opened := s.opened + 1 }

/-- `q` is a new child of `p`. -/
def fork (s : State P) (p q : P) : State P :=
  { s with desc := Function.update s.desc q (s.desc p), procs := q :: s.procs }

/-- `p` closes the file or ends. -/
def release (s : State P) (p : P) : State P :=
  { s with
    desc := Function.update s.desc p none
    owner := s.owner.filter fun d =>
      s.procs.any fun q => Function.update s.desc p none q == some d }

end State

namespace Wf

theorem openFile (h : Wf s) (hp : s.desc p = none) : Wf (s.openFile p) where
  listed q hq := by
    by_cases hqp : q = p
    · simp [State.openFile, hqp]
    · have hlisted := h.listed q (by simpa [State.openFile, hqp] using hq)
      simp [State.openFile, hlisted]
  fresh q d hq := by
    show d < s.opened + 1
    by_cases hqp : q = p
    · have hd : s.opened = d := by simpa [State.openFile, hqp] using hq
      omega
    · have hlt := h.fresh q d (by simpa [State.openFile, hqp] using hq)
      omega
  owned d hd := by
    obtain ⟨q, hq⟩ := h.owned d hd
    refine ⟨q, ?_⟩
    have hqp : q ≠ p := by
      rintro rfl
      simp [hp] at hq
    simpa [State.openFile, hqp] using hq

theorem fork (h : Wf s) (hq : s.desc q = none) : Wf (s.fork p q) where
  listed r hr := by
    by_cases hrq : r = q
    · simp [State.fork, hrq]
    · have hlisted := h.listed r (by simpa [State.fork, hrq] using hr)
      simp [State.fork, hlisted]
  fresh r d hr := by
    by_cases hrq : r = q
    · exact h.fresh p d (by simpa [State.fork, hrq] using hr)
    · exact h.fresh r d (by simpa [State.fork, hrq] using hr)
  owned d hd := by
    obtain ⟨r, hr⟩ := h.owned d hd
    refine ⟨r, ?_⟩
    have hrq : r ≠ q := by
      rintro rfl
      simp [hq] at hr
    simpa [State.fork, hrq] using hr

theorem release (h : Wf s) : Wf (s.release p) where
  listed q hq := by
    by_cases hqp : q = p
    · simp [State.release, hqp] at hq
    · exact h.listed q (by simpa [State.release, hqp] using hq)
  fresh q d hq := by
    by_cases hqp : q = p
    · simp [State.release, hqp] at hq
    · exact h.fresh q d (by simpa [State.release, hqp] using hq)
  owned d hd := by
    simp only [State.release, Option.filter_eq_some_iff, List.any_eq_true, beq_iff_eq] at hd
    obtain ⟨-, q, -, hq⟩ := hd
    exact ⟨q, hq⟩

theorem holds_openFile (h : Wf s) :
    (s.openFile p).Holds q ↔ q ≠ p ∧ s.Holds q := by
  by_cases hqp : q = p
  · subst hqp
    refine iff_of_false ?_ (fun hboth => hboth.1 rfl)
    rintro ⟨-, hdesc⟩
    -- the new description is not the one that has the lock
    have howner : s.owner = some s.opened := by simpa [State.openFile] using hdesc.symm
    obtain ⟨r, hr⟩ := h.owned _ howner
    exact lt_irrefl _ (h.fresh r _ hr)
  · simp [State.Holds, State.openFile, hqp]

theorem holds_fork : (s.fork p q).Holds r ↔ if r = q then s.Holds p else s.Holds r := by
  split_ifs with hrq
  · simp [State.Holds, State.fork, hrq]
  · simp [State.Holds, State.fork, hrq]

theorem holds_release (h : Wf s) : (s.release p).Holds q ↔ q ≠ p ∧ s.Holds q := by
  by_cases hqp : q = p
  · subst hqp
    refine iff_of_false ?_ (fun hboth => hboth.1 rfl)
    rintro ⟨hne, hdesc⟩
    rw [← hdesc] at hne
    simp [State.release] at hne
  · constructor
    · intro hold
      obtain ⟨d, hd, hq⟩ := owner_of_holds hold
      simp only [State.release, Option.filter_eq_some_iff] at hd
      refine ⟨hqp, by simp [hd.1], ?_⟩
      rw [hd.1]
      simpa [State.release, hqp] using hq
    · rintro ⟨-, hold⟩
      obtain ⟨d, hd, hq⟩ := owner_of_holds hold
      have hlisted := h.listed q (by simp [hq])
      have howner : (s.release p).owner = some d := by
        simp only [State.release, Option.filter_eq_some_iff, List.any_eq_true, beq_iff_eq]
        exact ⟨hd, q, hlisted, by simp [hqp, hq]⟩
      refine ⟨by simp [howner], ?_⟩
      rw [howner]
      simpa [State.release, hqp] using hq

end Wf

end FileLock
