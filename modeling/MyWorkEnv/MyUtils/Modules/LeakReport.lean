import MyWorkEnv.MyUtils.Modules.Sound

/-!
# Does an exit tell of leaks?

Every `Exit` frees what the module keeps for itself and hands the rest to
`MemUnRegister`, whose result says whether anything is still charged to the id.
`MemUnRegister` looks only while the Mem module is initialised. So the other
modules report leaks as long as it is, and `MemModuleExit`, which clears
`Inited` before it unregisters the id behind `MyCalloc` and `MyFree`, never
does (`leak_report`).
-/

namespace MyWorkEnv

open EventWorker LinkedRing MemLedger MyMemWorker Transition

namespace Program

variable {sizeofEvent : Fin (2 ^ 31)} {s : Program} {a : ProgramAction} {p : Part}
  {rounds : ℕ} {l : MemLedger} {r : ℤ × Program}

/-- The ledger once the `Exit` of an initialised module has freed what is the module's own. -/
def freed (s : Program) (rounds : ℕ) : Part → Option MemLedger
  | .mem | .msg => some s.ledger
  | .tpool => some (tPoolFree s.tpool s.ledger)
  | .timer => (s.timer.freeList s.ledger rounds).map Prod.snd
  | .health => (s.health.worker.freeList s.ledger rounds).map Prod.snd

/-- The result of an `Exit` tells whether anything is charged to the module's id then. -/
def Truthful (s : Program) : ProgramAction → Prop
  | .exit p rounds => s.initialised p = true → ∃ r l, s.exit rounds p = some r ∧
      s.freed rounds p = some l ∧ (r.1 = -myErrMemLeak ↔ 0 < l.chargedTo (s.memId p))
  | _ => True

/-- `MemUnRegister` gets to the check, or there is nothing for it to find. -/
def Checked (s : Program) : ProgramAction → Prop
  | .exit p _ => s.initialised p = true →
      p ≠ .mem ∧ s.ledger.mem.worker.inited = true ∨
        s.ledger.beside (s.memId p) (s.own p) = 0
  | _ => True

instance Checked.decidable (s : Program) : ∀ a, Decidable (s.Checked a)
  | .exit _ _ => inferInstanceAs (Decidable (_ → ¬ _ ∧ _ ∨ _))
  | .timerDel _ | .call _ | .memInit | .msgInit | .tPoolInit _ _ | .timerInit | .timerThread _ _
  | .timerAdd _ _ _ _ | .healthInit _ | .healthThread _ _ | .healthAdd _ => .isTrue trivial

/-- The exits of the other modules end with `MemUnRegister`. -/
theorem exit_eq_unRegister (hp : p ≠ .mem) (hinit : s.initialised p = true)
    (hr : s.exit rounds p = some r) :
    ∃ l, s.freed rounds p = some l ∧ r.1 = (l.unRegister (s.memId p)).1 ∧
      r.2.ledger = (l.unRegister (s.memId p)).2.1 := by
  cases p with
  | mem => exact absurd rfl hp
  | msg =>
      have hinited : s.msg.inited = true := hinit
      simp only [Program.exit, Program.msgExit, msgModuleExit, hinited, if_true,
        Option.some.injEq] at hr
      subst hr
      exact ⟨s.ledger, rfl, rfl, rfl⟩
  | tpool =>
      have hinited : s.tpool.inited = true := hinit
      simp only [Program.exit, Program.tPoolExit, tPoolModuleExit, hinited, if_true,
        Option.some.injEq] at hr
      subst hr
      exact ⟨_, rfl, rfl, rfl⟩
  | timer =>
      have hrunning : s.timer.isRunning = true := hinit
      obtain ⟨r', hr', rfl⟩ := Option.map_eq_some_iff.mp hr
      obtain ⟨q, hq, hret, hledger⟩ := moduleExit_eq_unRegister hrunning hr'
      exact ⟨q.2, by rw [freed, hq, Option.map_some], hret, hledger⟩
  | health =>
      have hrunning : s.health.worker.isRunning = true := hinit
      obtain ⟨r', hr', rfl⟩ := Option.map_eq_some_iff.mp hr
      obtain ⟨r'', hr'', rfl⟩ := Option.map_eq_some_iff.mp hr'
      obtain ⟨q, hq, hret, hledger⟩ := moduleExit_eq_unRegister hrunning hr''
      exact ⟨q.2, by rw [freed, hq, Option.map_some], hret, hledger⟩

theorem Sound.freed (h : s.Sound) (hinit : s.initialised p = true)
    (hfrees : s.FreesOwn (.exit p rounds)) (hl : s.freed rounds p = some l) :
    s.ledger.Releases l (s.own p) := by
  have hcharged := hfrees hinit
  cases p with
  | mem | msg =>
      cases hl
      exact .nil h.accounts
  | tpool =>
      cases hl
      exact TPoolModule.releases hinit h.accounts h.out hcharged
  | timer =>
      obtain ⟨q, hq, rfl⟩ := Option.map_eq_some_iff.mp hl
      have hnodup := (h.out.perm s.structures_timer).of_append_left.nodup
      obtain ⟨-, -, -, hreleases⟩ := h.timer.freeList hinit h.accounts hnodup hcharged hq
      exact hreleases
  | health =>
      obtain ⟨q, hq, rfl⟩ := Option.map_eq_some_iff.mp hl
      have hnodup := (h.out.perm s.structures_health).of_append_left.nodup
      obtain ⟨-, -, -, hreleases⟩ := h.health.freeList hinit h.accounts hnodup hcharged hq
      exact hreleases

/-- The result is that of the check, on what is out beside the module's own structures. -/
theorem exit_leak_iff (h : s.Sound) (hp : p ≠ .mem) (hinit : s.initialised p = true)
    (hfrees : s.FreesOwn (.exit p rounds)) (hr : s.exit rounds p = some r) (hfits : r.2.Fits) :
    ∃ l, s.freed rounds p = some l ∧
      l.chargedTo (s.memId p) = s.ledger.beside (s.memId p) (s.own p) ∧
      (r.1 = -myErrMemLeak ↔ s.ledger.mem.worker.inited = true ∧ 0 < l.chargedTo (s.memId p)) := by
  obtain ⟨l, hl, hret, hledger⟩ := exit_eq_unRegister hp hinit hr
  have hreleases := h.freed hinit hfrees hl
  refine ⟨l, hl, hreleases.chargedTo _, ?_⟩
  have hlt : l.chargedTo (s.memId p) < 2 ^ 64 := by
    apply lt_of_le_of_lt (chargedTo_le l _)
    rw [Fits, hledger] at hfits
    exact hfits
  rw [hret, hreleases.accounts.unRegister_leak_iff hlt, hreleases.inited]

/-- **Which exits tell the truth.** In runs in which modules free only what is charged to their
ids: just those that get to the check, or have nothing to report. -/
theorem leak_report (h : Reach (programSystem sizeofEvent) FreesOwn s)
    (ha : (programSystem sizeofEvent).enabled s a) (hfrees : s.FreesOwn a) :
    s.Truthful a ↔ s.Checked a := by
  have hsound := sound_of_reach h
  cases a with
  | exit p rounds =>
      obtain ⟨hmay, hfits⟩ := ha
      obtain ⟨r, hr⟩ := Option.isSome_iff_exists.mp hmay
      have hnext : (s.next sizeofEvent (.exit p rounds)).ledger = r.2.ledger := by
        simp only [Program.next, Program.act, hr, Option.getD_some]
      rw [Fits, hnext] at hfits
      apply imp_congr_right
      intro hinit
      by_cases hp : p = .mem
      · subst hp
        -- `MemUnRegister` finds the module not initialised, and returns `MY_SUCCESS`
        have hret : r.1 ≠ -myErrMemLeak := by
          rw [← Option.some.inj hr]
          show (memModuleExit s.ledger.mem.worker).1 ≠ _
          rw [memModuleExit_eq]
          exact (by decide : mySuccess ≠ -myErrMemLeak)
        have hcharged := (Releases.nil hsound.accounts).chargedTo (s.memId .mem)
        constructor
        · rintro ⟨r', l, hr', hl, hiff⟩
          rw [hr] at hr'
          cases hr'
          cases hl
          refine .inr (Nat.eq_zero_of_not_pos fun hpos => hret (hiff.mpr ?_))
          rw [hcharged]
          exact hpos
        · rintro (⟨hmem, -⟩ | hzero)
          · exact absurd rfl hmem
          · refine ⟨r, _, hr, rfl, iff_of_false hret ?_⟩
            rw [hcharged, show s.ledger.beside (s.memId .mem) [] = 0 from hzero]
            exact lt_irrefl 0
      · obtain ⟨l, hl, hcharged, hret⟩ :=
          exit_leak_iff hsound hp hinit hfrees hr hfits
        constructor
        · rintro ⟨r', l', hr', hl', hiff⟩
          rw [hr] at hr'
          rw [hl] at hl'
          cases hr'
          cases hl'
          by_cases hzero : l.chargedTo (s.memId p) = 0
          · exact .inr (hcharged ▸ hzero)
          · exact .inl ⟨hp, (hret.mp (hiff.mpr (Nat.pos_of_ne_zero hzero))).1⟩
        · intro hchecked
          refine ⟨r, l, hr, hl, hret.trans ?_⟩
          rcases hchecked with ⟨-, hinited⟩ | hzero
          · exact and_iff_right hinited
          · rw [hcharged, hzero]
            simp
  | call _ | memInit | msgInit | tPoolInit _ _ | timerInit | timerThread _ _ | timerAdd _ _ _ _
  | timerDel _ | healthInit _ | healthThread _ _ | healthAdd _ => exact Iff.rfl

end Program

/-- The timer runs, and ten bytes are out under its id. -/
def timerLeak : List ProgramAction :=
  [.memInit, .timerInit, .timerThread true (64, 256), .call (.calloc 1 10 512)]

/-- An `Exit` that finds them. -/
theorem leak_report_run : ∃ s : Program, s.ledger.beside (s.memId .timer) (s.own .timer) = 10 ∧
    s.Truthful (.exit .timer 3) := by
  have hreach : Reach (programSystem 128) Program.FreesOwn
      (exec (programSystem 128) (.start someLinks someLinks) timerLeak) :=
    Reach.exec (.init ⟨_, _, rfl⟩) (by decide)
  have hexit : (programSystem 128).enabled
      (exec (programSystem 128) (.start someLinks someLinks) timerLeak) (.exit .timer 3) := by
    decide
  exact ⟨_, by decide, (Program.leak_report hreach hexit (by decide)).mpr
    (by decide)⟩

/-- Ten bytes of `MyCalloc` are out. -/
def mainLeak : List ProgramAction := [.memInit, .call (.calloc 0 10 64)]

/-- `MemModuleExit` is silent about them. -/
theorem memModuleExit_silent : ∃ s : Program,
    Reach (programSystem 128) Program.FreesOwn s ∧
    (programSystem 128).enabled s (.exit .mem 0) ∧ s.FreesOwn (.exit .mem 0) ∧
    (s.exit 0 .mem).map Prod.fst = some mySuccess ∧
    s.ledger.chargedTo (s.memId .mem) = 10 ∧ ¬ s.Truthful (.exit .mem 0) := by
  have hreach : Reach (programSystem 128) Program.FreesOwn
      (exec (programSystem 128) (.start someLinks someLinks) mainLeak) :=
    Reach.exec (.init ⟨_, _, rfl⟩) (by decide)
  refine ⟨_, hreach, by decide, by decide, by decide, by decide, ?_⟩
  intro htruthful
  obtain ⟨r, l, hr, hl, hiff⟩ := htruthful (by decide)
  have hcharged : (exec (programSystem 128) (.start someLinks someLinks) mainLeak).ledger.chargedTo
      ((exec (programSystem 128) (.start someLinks someLinks) mainLeak).memId .mem) = 10 := by
    decide
  have hret : ((exec (programSystem 128) (.start someLinks someLinks) mainLeak).exit 0 .mem).map
      Prod.fst = some mySuccess := by decide
  obtain rfl := Option.some.inj hl
  rw [hr] at hret
  rw [hcharged, Option.some.inj hret] at hiff
  exact absurd (hiff.mpr (by decide)) (by decide)

end MyWorkEnv
