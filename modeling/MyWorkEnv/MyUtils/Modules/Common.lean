import MyWorkEnv.MyUtils.Modules.LeakReport
import MyWorkEnv.MyUtils.Modules.Cycle

/-!
# All modules down

`MyModuleCommonExit` calls the `Exit` of every module, whatever of them is up, and
that of the Mem module last. After any run in turn, once the threads have run,
its calls are in turn as well; their walks end; and of all that was out just the
blocks of the program itself are out still, under whatever id.

The command line and the log, which come first and last, have no blocks here.
-/

namespace MyWorkEnv

open EventWorker LinkedRing MemLedger MyMemWorker Transition

/-- The walk of `Exit` ends, given a round more than there are nodes. -/
theorem EventWorker.Lists.exit_isSome {w : EventWorker} {s : MemLedger} {nodes : List ℕ}
    (h : w.Lists nodes) (hacc : s.Accounts) (hnodup : (w.blocks nodes).Nodup)
    (hcharged : ∀ p ∈ w.blocks nodes, s.Charged w.memId p) {rounds : ℕ}
    (hrounds : nodes.length < rounds) : (w.moduleExit s rounds).isSome = true := by
  rw [EventWorker.moduleExit]
  split_ifs with hrunning
  · have hring := h.ring (h.running hrunning)
    rw [Option.isSome_map]
    cases hnodes : nodes with
    | nil =>
        rw [hnodes] at hring
        have hempty : myListIsEmpty w.links .eventList = true := (myListIsEmpty_iff hring).mpr rfl
        simp only [EventWorker.freeList, hempty, if_true, Option.isSome_some]
    | cons node tail =>
        have hmem : node ∈ w.blocks nodes := by
          rw [hnodes]
          exact List.mem_append_left _ List.mem_cons_self
        obtain ⟨block, -, -, hslot, -⟩ := hcharged node hmem
        have hkeeps : w.Keeps s block.slot nodes _ := ⟨(registeredSlot_eq_some.mp hslot).1, hring,
          owns_of_charged hacc hnodup hslot hcharged⟩
        obtain ⟨L, s', heq, -⟩ := hkeeps.freeList hrounds
        rw [heq]
        rfl
  · rfl

namespace Program

variable {sizeofEvent : Fin (2 ^ 31)} {s s' : Program} {p q : Part} {rounds : ℕ}
  {r : ℤ × Program}

/-- The calls of `MyModuleCommonExit` on the parts that it comes to. -/
def exitAll (rounds : ℕ) (parts : List Part) : List ProgramAction := parts.map (.exit · rounds)

def myModuleCommonExit (rounds : ℕ) : List ProgramAction :=
  exitAll rounds [.msg, .tpool, .health, .timer, .mem]

/-! ## One exit -/

theorem Ready.idle_of_not_up (h : s.Ready) (hup : s.up p = false) : s.active p = false := by
  cases hactive : s.active p with
  | false => rfl
  | true =>
      obtain ⟨-, -, -, hup'⟩ := (h.parts p).active hactive
      rw [hup] at hup'
      cases hup'

/-- A module that is not in use has no structures. -/
theorem Ready.own_nil (h : s.Ready) (hidle : s.active p = false) : s.own p = [] := by
  by_cases hp : p = .mem
  · rw [hp]
    rfl
  · apply List.eq_nil_iff_forall_not_mem.mpr
    intro ptr hptr
    have hcharged := (h.parts p).charged ptr hptr
    rw [(h.parts p).rests hp hidle] at hcharged
    exact not_charged_invalidId hcharged

/-- The Mem module is in use, the threads have run, and the walks are given rounds enough. -/
structure Exitable (s : Program) (rounds : ℕ) : Prop where
  ready : s.Ready
  fits : s.Fits
  on : s.active .mem = true
  timerThreads : s.timerThreads = 0
  healthThreads : s.healthThreads = 0
  timerNodes : s.timerNodes.length < rounds
  healthNodes : s.healthNodes.length < rounds

theorem Exitable.inTurn (h : s.Exitable rounds) (hp : p ≠ .mem) : s.InTurn (.exit p rounds) := by
  cases p with
  | mem => exact absurd rfl hp
  | msg | tpool => exact h.on
  | timer => exact ⟨h.on, h.timerThreads⟩
  | health => exact ⟨h.on, h.healthThreads⟩

theorem Exitable.ends (h : s.Exitable rounds) : (s.exit rounds p).isSome = true := by
  have hnodup := h.ready.sound.out
  cases p with
  | mem | msg | tpool => rfl
  | timer =>
      have hout := (hnodup.perm s.structures_timer).of_append_left
      rw [Program.exit, timerExit, Option.isSome_map]
      exact h.ready.sound.timer.exit_isSome h.ready.sound.accounts hout.nodup
        (h.ready.parts .timer).charged h.timerNodes
  | health =>
      have hout := (hnodup.perm s.structures_health).of_append_left
      rw [Program.exit, healthExit, Option.isSome_map, healthModuleExit, Option.isSome_map]
      exact h.ready.sound.health.exit_isSome h.ready.sound.accounts hout.nodup
        (h.ready.parts .health).charged h.healthNodes

/-- A part that is not initialised has nothing to free. -/
theorem Exitable.own_nil (h : s.Exitable rounds) (hinit : s.initialised p = false) :
    s.own p = [] := by
  cases p with
  | mem | msg => rfl
  | tpool => exact h.ready.own_nil hinit
  | timer =>
      have hrunning : s.timer.isRunning = false := hinit
      exact h.ready.own_nil (by simp [active, hrunning, h.timerThreads])
  | health =>
      have hrunning : s.health.worker.isRunning = false := hinit
      exact h.ready.own_nil (by simp [active, hrunning, h.healthThreads])

/-- The blocks of the module go, and no others; its id goes, and no others. -/
theorem Exitable.ledger_exit (h : s.Exitable rounds) (hp : p ≠ .mem)
    (hr : s.exit rounds p = some r) :
    r.2.ledger.live.Perm (s.ledger.live.filter fun b => b.ptr ∉ s.own p) ∧
      ∃ after, s.ledger.Moves r.2.ledger (s.memId p) after (s.own p) := by
  cases hinit : s.initialised p with
  | true =>
      obtain ⟨l, hl, -, hledger⟩ := exit_eq_unRegister hp hinit hr
      have hends : s.May (.exit p rounds) := h.ends
      have hreleases := h.ready.sound.freed hinit (h.ready.freesOwn hends) hl
      have hfreed : s.ledger.Moves l (s.memId p) (s.memId p) (s.own p) :=
        .of_releases hreleases (fun _ hptr => hptr) _
      rw [hledger]
      exact ⟨hreleases.live, _, hfreed.trans (.unRegister _ _)⟩
  | false =>
      rw [exit_of_not_initialised hinit, Option.some.injEq] at hr
      rw [← hr, h.own_nil hinit]
      exact ⟨by simp, _, .refl _ _ _⟩

theorem next_exit (hr : s.exit rounds p = some r) :
    s.next sizeofEvent (.exit p rounds) =
      { r.2 with up := (s.next sizeofEvent (.exit p rounds)).up } := by
  have hact : s.act sizeofEvent (.exit p rounds) = r := by
    show (s.exit rounds p).getD (mySuccess, s) = r
    rw [hr, Option.getD_some]
  rw [Program.next, hact]

/-- An `Exit` neither starts nor ends a thread that waits to run, and adds no node. -/
theorem exit_workers (hr : s.exit rounds p = some r) :
    r.2.timerThreads = s.timerThreads ∧ r.2.healthThreads = s.healthThreads ∧
      r.2.timerNodes.length ≤ s.timerNodes.length ∧
      r.2.healthNodes.length ≤ s.healthNodes.length := by
  cases p with
  | mem | msg | tpool =>
      obtain rfl := Option.some.inj hr
      exact ⟨rfl, rfl, le_rfl, le_rfl⟩
  | timer =>
      obtain ⟨r', -, rfl⟩ := Option.map_eq_some_iff.mp hr
      refine ⟨rfl, rfl, ?_, le_rfl⟩
      dsimp only
      split_ifs
      · exact Nat.zero_le _
      · exact le_rfl
  | health =>
      obtain ⟨r', -, rfl⟩ := Option.map_eq_some_iff.mp hr
      refine ⟨rfl, rfl, le_rfl, ?_⟩
      dsimp only
      split_ifs
      · exact Nat.zero_le _
      · exact le_rfl

theorem fits_of_live {keep : LiveBlock → Bool} (h : s.Fits)
    (hlive : s'.ledger.live.Perm (s.ledger.live.filter keep)) : s'.Fits := by
  have hsum := ((hlive.map LiveBlock.size).sum_eq)
  have hle : ((s.ledger.live.filter keep).map LiveBlock.size).sum ≤
      (s.ledger.live.map LiveBlock.size).sum :=
    ((List.filter_sublist (p := keep) (l := s.ledger.live)).map LiveBlock.size).sum_le_sum
      fun _ _ => Nat.zero_le _
  rw [Fits, hsum]
  exact hle.trans_lt h

/-- What the `Exit` of a part leaves. -/
structure Exited (s s' : Program) (p : Part) (rounds : ℕ) : Prop where
  exitable : s'.Exitable rounds
  idle : s'.active p = false
  same : ∀ q, q ≠ p → s.Same s' q
  live : s'.ledger.live.Perm (s.ledger.live.filter fun b => b.ptr ∉ s.own p)

theorem Exitable.exit (h : s.Exitable rounds) (hp : p ≠ .mem) :
    (programSystem sizeofEvent).enabled s (.exit p rounds) ∧ s.InTurn (.exit p rounds) ∧
      s.Exited (s.next sizeofEvent (.exit p rounds)) p rounds := by
  obtain ⟨r, hr⟩ := Option.isSome_iff_exists.mp (h.ends (p := p))
  have hmay : s.May (.exit p rounds) := h.ends
  have hturn := h.inTurn hp
  have hready : (s.next sizeofEvent (.exit p rounds)).Ready := h.ready.step hmay hturn
  have hnext : s.next sizeofEvent (.exit p rounds) =
      { r.2 with up := (s.next sizeofEvent (.exit p rounds)).up } := next_exit hr
  obtain ⟨hfreed, after, hmoved⟩ := h.ledger_exit hp hr
  have hlive : (s.next sizeofEvent (.exit p rounds)).ledger.live.Perm
      (s.ledger.live.filter fun b => b.ptr ∉ s.own p) := by
    rw [hnext]
    exact hfreed
  have hmoves : s.ledger.Moves (s.next sizeofEvent (.exit p rounds)).ledger (s.memId p) after
      (s.own p) := by
    rw [hnext]
    exact hmoved
  have hfits := fits_of_live h.fits hlive
  have hsame : ∀ q, q ≠ p → s.Same (s.next sizeofEvent (.exit p rounds)) q :=
    fun q hq => (touches_next rfl hp).same hmoves hq
  obtain ⟨htimer, hhealth, htimerNodes, hhealthNodes⟩ := exit_workers hr
  refine ⟨⟨hmay, hfits⟩, hturn, ⟨hready, hfits, ?_, ?_, ?_, ?_, ?_⟩, ?_, hsame, hlive⟩
  · rw [(hsame .mem hp.symm).active]
    exact h.on
  · rw [hnext]
    exact htimer.trans h.timerThreads
  · rw [hnext]
    exact hhealth.trans h.healthThreads
  · rw [hnext]
    exact htimerNodes.trans_lt h.timerNodes
  · rw [hnext]
    exact hhealthNodes.trans_lt h.healthNodes
  · exact hready.idle_of_not_up (next_up_of_exits rfl)

theorem Same.trans {s'' : Program} (h : s.Same s' q) (h' : s'.Same s'' q) : s.Same s'' q :=
  ⟨h'.memId.trans h.memId, h'.active.trans h.active, h'.lockInited.trans h.lockInited,
    h'.up.trans h.up, h'.own.trans h.own⟩

/-! ## All of them -/

/-- What the exits of some parts leave. -/
structure AllExited (s s' : Program) (parts : List Part) (rounds : ℕ) : Prop where
  exitable : s'.Exitable rounds
  idle : ∀ p ∈ parts, s'.active p = false
  same : ∀ q, q ∉ parts → s.Same s' q
  live : s'.ledger.live.Perm (s.ledger.live.filter fun b => b.ptr ∉ parts.flatMap s.own)

theorem Exitable.exitAll (h : s.Exitable rounds) {parts : List Part} (hnodup : parts.Nodup)
    (hmem : Part.mem ∉ parts) :
    Legal (programSystem sizeofEvent) InTurn s (exitAll rounds parts) ∧
      s.AllExited (exec (programSystem sizeofEvent) s (exitAll rounds parts)) parts rounds := by
  induction parts generalizing s with
  | nil => exact ⟨trivial, h, by simp, fun q _ => ⟨rfl, rfl, rfl, rfl, rfl⟩, by simp [exec, exitAll]⟩
  | cons p parts ih =>
      obtain ⟨hfresh, hnodup⟩ := List.nodup_cons.mp hnodup
      rw [List.mem_cons, not_or] at hmem
      obtain ⟨hmem, hrest⟩ := hmem
      obtain ⟨henabled, hturn, hexited⟩ :
          (programSystem sizeofEvent).enabled s (.exit p rounds) ∧ _ := h.exit (Ne.symm hmem)
      obtain ⟨hlegal, hall⟩ := ih hexited.exitable hnodup hrest
      have hown : ∀ q ∈ parts, (s.next sizeofEvent (.exit p rounds)).own q = s.own q := by
        intro q hq
        have hne : q ≠ p := fun heq => hfresh (heq ▸ hq)
        exact (hexited.same q hne).own
      refine ⟨⟨henabled, hturn, hlegal⟩, hall.exitable, ?_, ?_, ?_⟩
      · intro q hq
        rcases List.mem_cons.mp hq with rfl | hq
        · exact (hall.same q hfresh).active.trans hexited.idle
        · exact hall.idle q hq
      · intro q hq
        rw [List.mem_cons, not_or] at hq
        exact (hexited.same q hq.1).trans (hall.same q hq.2)
      · refine hall.live.trans ((hexited.live.filter _).trans (.of_eq ?_))
        rw [List.filter_filter, List.flatMap_congr hown]
        apply List.filter_congr
        intro b _
        simp only [List.flatMap_cons, List.mem_append, not_or, Bool.decide_and, Bool.and_comm]

/-- Nothing of the modules is left, and of the program all that was out is. -/
structure Down (s s' : Program) : Prop where
  idle : ∀ p, s'.active p = false
  structures : s'.structures = []
  live : s'.ledger.live.Perm (s.ledger.live.filter fun b => b.ptr ∉ s.structures)

theorem fits_of_reach (h : Reach (programSystem sizeofEvent) InTurn s) : s.Fits := by
  apply h.invariant
  · rintro s ⟨L, L', rfl⟩
    exact Nat.two_pow_pos 64
  · exact fun s a _ ha _ => ha.2

/-- **All modules down.** Wherever a run in turn has come to, the calls of `MyModuleCommonExit`
may be made and end, and they leave nothing of the modules, and every block of the program. -/
theorem myModuleCommonExit_down {rounds : ℕ} (h : Reach (programSystem sizeofEvent) InTurn s)
    (hon : s.active .mem = true) (hran : s.timerThreads = 0 ∧ s.healthThreads = 0)
    (hrounds : s.timerNodes.length < rounds ∧ s.healthNodes.length < rounds) :
    Legal (programSystem sizeofEvent) InTurn s (myModuleCommonExit rounds) ∧
      s.Down (exec (programSystem sizeofEvent) s (myModuleCommonExit rounds)) := by
  have hexitable : s.Exitable rounds := ⟨ready_of_reach h, fits_of_reach h, hon, hran.1, hran.2,
    hrounds.1, hrounds.2⟩
  obtain ⟨hlegal, hall⟩ : Legal (programSystem sizeofEvent) InTurn s
      (exitAll rounds [.msg, .tpool, .health, .timer]) ∧ _ :=
    hexitable.exitAll (by decide) (by decide)
  have hsplit : myModuleCommonExit rounds =
      exitAll rounds [.msg, .tpool, .health, .timer] ++ [.exit .mem rounds] := rfl
  obtain ⟨s₁, hs₁⟩ : ∃ s₁, exec (programSystem sizeofEvent) s
      (exitAll rounds [.msg, .tpool, .health, .timer]) = s₁ := ⟨_, rfl⟩
  rw [hs₁] at hall
  have hidle : ∀ p ∈ Part.all, p ≠ .mem → s₁.active p = false := by
    intro p _ hp
    apply hall.idle
    cases p with
    | mem => exact absurd rfl hp
    | msg | tpool | timer | health => simp
  have hready : (s₁.next sizeofEvent (.exit .mem rounds)).Ready :=
    hall.exitable.ready.memExit hidle rounds
  have hall' : ∀ p, (s₁.next sizeofEvent (.exit .mem rounds)).active p = false := by
    intro p
    by_cases hp : p = .mem
    · rw [hp]
      exact hready.idle_of_not_up (next_up_of_exits rfl)
    · have hsame := hidle p (Part.mem_all p) hp
      cases p with
      | mem => exact absurd rfl hp
      | msg | tpool | timer | health => exact hsame
  have hstructures : ∀ ptr, ptr ∈ [Part.msg, .tpool, .health, .timer].flatMap s.own ↔
      ptr ∈ s.structures := by
    intro ptr
    have hmsg : s.own .msg = [] := rfl
    simp only [structures, List.flatMap_cons, List.flatMap_nil, List.mem_append, List.append_nil,
      hmsg, List.nil_append]
    tauto
  have hlast : Legal (programSystem sizeofEvent) InTurn s₁ [.exit .mem rounds] :=
    ⟨⟨rfl, hall.exitable.fits⟩, hidle, trivial⟩
  rw [← hs₁] at hlast
  rw [hsplit, exec_append, hs₁]
  refine ⟨hlegal.append hlast, hall', ?_, ?_⟩
  · show (s₁.next sizeofEvent (.exit .mem rounds)).structures = []
    rw [structures, hready.own_nil (hall' .tpool), hready.own_nil (hall' .timer),
      hready.own_nil (hall' .health)]
    rfl
  · refine hall.live.trans (.of_eq ?_)
    apply List.filter_congr
    intro b _
    simp only [hstructures]

end Program

/-- Three modules are up, and ten bytes of the program are out. -/
def threeModules : List ProgramAction :=
  [.memInit, .msgInit, .tPoolInit (some 2) (1024, 2048), .timerInit, .timerThread true (64, 256),
    .call (.calloc 0 10 4096)]

/-- They are all that is out in the end. -/
theorem myModuleCommonExit_down_three : ∃ s : Program, s.ledger.live.length = 5 ∧
    Legal (programSystem 128) Program.InTurn s (Program.myModuleCommonExit 2) ∧
    s.Down (exec (programSystem 128) s (Program.myModuleCommonExit 2)) ∧
    (exec (programSystem 128) s (Program.myModuleCommonExit 2)).ledger.live.length = 1 := by
  have hreach : Reach (programSystem 128) Program.InTurn
      (exec (programSystem 128) (.start someLinks someLinks) threeModules) :=
    Reach.exec (.init ⟨_, _, rfl⟩) (by decide)
  obtain ⟨hlegal, hdown⟩ : Legal (programSystem 128) Program.InTurn _
      (Program.myModuleCommonExit 2) ∧ _ :=
    Program.myModuleCommonExit_down hreach (by decide) (by decide)
      (by decide)
  exact ⟨_, by decide, hlegal, hdown, by decide⟩

end MyWorkEnv
