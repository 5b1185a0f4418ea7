import MyWorkEnv.MyUtils.Modules.Sound

/-!
# Modules used in turn

The program uses the other modules only while the Mem module is initialised, and
does not exit that one under them; a thread that `Init` created runs before the
next `Init` or `Exit` of its module; and the ids of the modules are not for
others to unregister (`InTurn`). Then a module that is in use has an id of its
own, which is registered, its locks are initialised and its structures are
charged to its id, and a module that is not in use has no id (`Ready`). A call
on one module moves ids and blocks of this one only (`Moves`), so the others
stay as they are.
-/

namespace MyWorkEnv

open EventWorker LinkedRing MemLedger MyMemWorker Transition

/-! ## One worker -/

namespace EventWorker

variable {w : EventWorker} {s : MemLedger} {i : Fin myMemModuleMaxNum} {nodes rest : List ℕ}
  {hold : Lock → Lock} {sizeofNode : ℕ} {sizeofEvent : Fin (2 ^ 31)} {threads : ℕ} {up : Bool}

/-- `threads` are still to run. -/
structure Fit (w : EventWorker) (s : MemLedger) (nodes : List ℕ) (threads : ℕ) (up : Bool) :
    Prop where
  active : (w.isRunning || decide (0 < threads)) = true →
    ∃ i, s.mem.worker.registeredSlot w.memId = some i ∧ w.lock.inited = true ∧ up = true
  rests : (w.isRunning || decide (0 < threads)) = false → w.memId = myMemModuleInvalidId
  charged : ∀ ptr ∈ w.blocks nodes, s.Charged w.memId ptr

/-- An id is registered only while it is in use. -/
theorem Fit.of_slot (h : w.Fit s nodes threads up)
    (hslot : s.mem.worker.registeredSlot w.memId = some i) :
    (w.isRunning || decide (0 < threads)) = true ∧ w.lock.inited = true ∧ up = true := by
  cases hactive : w.isRunning || decide (0 < threads) with
  | true =>
      obtain ⟨-, -, hlock, hup⟩ := h.active hactive
      exact ⟨rfl, hlock, hup⟩
  | false => exact absurd (h.rests hactive) (ne_invalidId hslot)

theorem Fit.init (h : w.Fit s nodes 0 up) (name : List UInt8) {r : ℤ × EventWorker × MemLedger}
    (hr : w.moduleInit s name 0 Prod.mk = r) {kept : Bool}
    (hkept : kept = (w.isRunning || decide (r.1 ≠ mySuccess))) :
    s.Moves r.2.2 w.memId r.2.1.memId (w.blocks nodes) ∧
      r.2.1.Fit r.2.2 (if kept then nodes else []) (if kept then 0 else 0 + 1)
        (up || decide (r.1 = mySuccess)) := by
  rw [moduleInit_mk] at hr
  cases hrunning : w.isRunning with
  | true =>
      obtain ⟨i, hslot, hlock, rfl⟩ := h.active (by rw [hrunning, Bool.true_or])
      rw [hrunning, if_pos rfl] at hr
      rw [hrunning, Bool.true_or] at hkept
      subst hr hkept
      exact ⟨.refl _ _ _, h⟩
  | false =>
      rw [hrunning, if_neg Bool.false_ne_true] at hr
      by_cases hret : (s.register w.memId (some name)).1 = mySuccess
      · obtain ⟨i, hslot⟩ := registeredSlot_of_register hret
        rw [create_registered 0 hret, hrunning] at hr
        subst hr
        obtain rfl : kept = false := by simpa [hrunning, mySuccess] using hkept
        refine ⟨.register _ _ _, fun _ => ⟨i, hslot, rfl, Bool.or_true _⟩, ?_, ?_⟩
        · exact fun hrests => absurd hrests (by simp)
        · exact fun ptr hptr => absurd hptr List.not_mem_nil
      · rw [create_failed 0 hret] at hr
        subst hr
        obtain rfl : kept = true := by simpa [hret] using hkept
        rw [decide_eq_false hret, Bool.or_false]
        exact ⟨.refl _ _ _, h⟩

/-- The thread runs, and comes to set `IsRunning`. -/
theorem Fit.entry (h : w.Fit s nodes threads up) (hthreads : 0 < threads) (hl : w.Lists nodes)
    (hacc : s.Accounts) (hout : s.Out (w.blocks nodes ++ rest))
    (hnode : sizeofNode ≤ 0x7fffffff) {addrs : List (ℕ × ℕ)} (hfresh : Fresh s addrs)
    (hhold : ∀ l : Lock, l.inited = true → hold l = l) {r : EventWorker × MemLedger}
    (hr : entry hold sizeofNode sizeofEvent addrs w s = r) {nodes' : List ℕ}
    (hnodes' : nodes' = if r.1.isRunning then nodes ++ addrs.map fun p => p.1 + sizeofMemPrefix
      else nodes) :
    s.Moves r.2 w.memId r.1.memId (w.blocks nodes) ∧ r.1.Fit r.2 nodes' (threads - 1) up := by
  obtain ⟨i, hslot, hlock, hup⟩ := h.active (by simp [hthreads])
  obtain ⟨w', s', heq, hgrows, -, -, hid, hlock', hcharged⟩ :
      ∃ w' s', EventWorker.addOwn hold sizeofNode sizeofEvent addrs w s = (true, w', s') ∧ _ :=
    hl.addOwn hnode (Timer.sizeofEvent_le sizeofEvent) hacc hslot hout hfresh
  rw [EventWorker.entry, heq] at hr
  subst hr hnodes'
  have hslot' : s'.mem.worker.registeredSlot w'.memId = some i := by
    rw [hid, hgrows.slot]
    exact hslot
  have hlocked : w'.lock.inited = true := by rw [hlock' (hhold _ hlock), hlock]
  refine ⟨?_, fun _ => ⟨i, hslot', hlocked, hup⟩, fun hrests => ?_, fun ptr hptr => ?_⟩
  · show s.Moves s' w.memId w'.memId _
    rw [hid]
    exact .of_grows hgrows _ _
  · simp at hrests
  · show s'.Charged w'.memId ptr
    rw [hid]
    exact hcharged h.charged ptr hptr

/-- A node that is added while the id is registered. -/
theorem Fit.link (h : w.Fit s nodes threads up) (hl : w.Lists nodes) (hacc : s.Accounts)
    (hslot : s.mem.worker.registeredSlot w.memId = some i)
    (hout : s.Out (w.blocks nodes ++ rest)) (hnode : sizeofNode ≤ 0x7fffffff) {a b : ℕ}
    (hfresh : Fresh s [(a, b)]) (sizeofEvent : Fin (2 ^ 31)) :
    s.Moves ((s.calloc w.memId sizeofNode a).2.calloc w.memId sizeofEvent b).2 w.memId w.memId
      (w.blocks nodes) ∧
    (link Lock.use w (a + sizeofMemPrefix) (b + sizeofMemPrefix)).Fit
      ((s.calloc w.memId sizeofNode a).2.calloc w.memId sizeofEvent b).2
      (nodes ++ [a + sizeofMemPrefix]) threads up := by
  obtain ⟨hne, ha, hb⟩ := hfresh.one
  obtain ⟨-, -, hgrows, -, -, hcharged⟩ := hl.link hacc hslot hout hnode
    (Timer.sizeofEvent_le sizeofEvent) ha hb hne Lock.use
  obtain ⟨hactive, hlock, hup⟩ := h.of_slot hslot
  have hused : w.lock.use.inited = true := by rw [Lock.use_of_inited hlock, hlock]
  refine ⟨.of_grows hgrows _ _,
    fun _ => ⟨i, (hgrows.slot _).trans hslot, hused, hup⟩, fun hrests => ?_, hcharged h.charged⟩
  exact Bool.noConfusion (hactive.symm.trans hrests)

theorem Fit.timerAdd (h : w.Fit s nodes threads up) (hl : w.Lists nodes) (hacc : s.Accounts)
    (hout : s.Out (w.blocks nodes ++ rest)) {addr : ℕ × ℕ} (hfresh : Fresh s [addr])
    {cb : Option ℕ} {timerType : MyTimerType} {timerHandle : Bool}
    {r : ℤ × Option ℕ × EventWorker × MemLedger}
    (hr : timerAdd sizeofEvent w s cb timerType timerHandle addr = r) :
    s.Moves r.2.2.2 w.memId r.2.2.1.memId (w.blocks nodes) ∧
      r.2.2.1.Fit r.2.2.2 (nodes ++ r.2.1.toList) threads up := by
  rcases timerAdd_cases sizeofEvent w s cb timerType timerHandle addr with
    ⟨ret, hsame⟩ | ⟨i, hslot, hnew⟩
  · rw [hsame] at hr
    subst hr
    rw [Option.toList_none, List.append_nil]
    exact ⟨.refl _ _ _, h⟩
  · rw [hnew] at hr
    subst hr
    exact h.link hl hacc hslot hout Timer.sizeofMyTimerEventNode_le hfresh sizeofEvent

theorem Fit.timerDel (h : w.Fit s nodes threads up) (hl : w.Lists nodes) (hacc : s.Accounts)
    (hout : s.Out (w.blocks nodes ++ rest)) {timerHandle : Option ℕ}
    (hmem : ∀ node ∈ timerHandle, node = 0 ∨ node ∈ nodes)
    {r : Option ℕ × EventWorker × MemLedger} (hr : timerDel w s timerHandle = r) :
    s.Moves r.2.2 w.memId r.2.1.memId (w.blocks nodes) ∧
      r.2.1.Fit r.2.2 (timerHandle.elim nodes nodes.erase) threads up := by
  have hsub : ∀ (p : ℕ) (xs : List ℕ), xs ⊆ nodes → p ∈ w.blocks xs → p ∈ w.blocks nodes := by
    intro p xs hxs hp
    rcases List.mem_append.mp hp with hp | hp
    · exact List.mem_append_left _ (hxs hp)
    · exact List.mem_append_right _ (List.map_subset w.event hxs hp)
  cases timerHandle with
  | none =>
      subst hr
      exact ⟨.refl _ _ _, h⟩
  | some node =>
      simp only [MyWorkEnv.timerDel] at hr
      have herase : nodes.erase node ⊆ nodes := List.erase_subset
      by_cases hzero : node = 0
      · rw [if_pos hzero] at hr
        subst hr
        exact ⟨.refl _ _ _, h.active, h.rests, fun p hp => h.charged p (hsub p _ herase hp)⟩
      · rw [if_neg hzero] at hr
        have hin := (hmem node rfl).resolve_left hzero
        have hnode : node ∈ w.blocks nodes := List.mem_append_left _ hin
        have hevent : w.event node ∈ w.blocks nodes :=
          List.mem_append_right _ (List.mem_map_of_mem hin)
        obtain ⟨hreleases, -, hout'⟩ :=
          hl.unlink hacc hin hout (h.charged _ hnode) (h.charged _ hevent)
        have hkept : ∀ p ∈ [w.event node, node], p ∈ w.blocks nodes := by
          intro p hp
          rcases List.mem_cons.mp hp with rfl | hp
          · exact hevent
          · rw [List.mem_singleton.mp hp]
            exact hnode
        have hdisjoint : ∀ p ∈ w.blocks (nodes.erase node), p ∉ [w.event node, node] := by
          intro p hp hp'
          exact (List.nodup_append'.mp hout'.nodup).2.2 hp' (List.mem_append_left _ hp)
        have hleaves : s.Leaves _ w.memId (w.blocks (nodes.erase node)) :=
          .of_releases hreleases hdisjoint
        subst hr
        refine ⟨.of_releases hreleases hkept _, fun hactive => ?_, h.rests, fun p hp => ?_⟩
        · obtain ⟨i, hslot, hlock, hup⟩ := h.active hactive
          refine ⟨i, (hreleases.slot _).trans hslot, ?_, hup⟩
          rw [← hlock]
          exact congrArg Lock.inited (Lock.use_of_inited hlock)
        · exact hleaves.charged p hp (h.charged p (hsub p _ herase hp))

theorem Fit.healthAdd {h : MyHealthMonitor} (hf : h.worker.Fit s nodes threads up)
    (hl : h.worker.Lists nodes) (hacc : s.Accounts) (hout : s.Out (h.worker.blocks nodes ++ rest))
    {addr : ℕ × ℕ} (hfresh : Fresh s [addr]) {r : ℤ × MyHealthMonitor × MemLedger}
    (hr : healthMonitorAdd sizeofEvent h s addr = r) {nodes' : List ℕ}
    (hnodes' : nodes' =
      if r.1 = mySuccess then nodes ++ [addr.1 + sizeofMemPrefix] else nodes) :
    s.Moves r.2.2 h.worker.memId r.2.1.worker.memId (h.worker.blocks nodes) ∧
      r.2.1.worker.Fit r.2.2 nodes' threads up := by
  rcases healthMonitorAdd_cases sizeofEvent h s addr with hsame | ⟨i, hslot, hnew⟩
  · rw [hsame] at hr
    subst hr
    rw [if_neg enoMem_ne_success] at hnodes'
    subst hnodes'
    exact ⟨.refl _ _ _, hf⟩
  · have hnode : sizeofMyHealthMonitorListNode ≤ 0x7fffffff := by decide
    rw [hnew] at hr
    subst hr
    rw [if_pos rfl] at hnodes'
    subst hnodes'
    exact hf.link hl hacc hslot hout hnode hfresh sizeofEvent

theorem Fit.exit (h : w.Fit s nodes 0 up) (hl : w.Lists nodes) (hacc : s.Accounts)
    (hinited : s.mem.worker.inited = true) (hout : s.Out (w.blocks nodes ++ rest)) {rounds : ℕ}
    {r : ℤ × EventWorker × MemLedger} (hr : w.moduleExit s rounds = some r) {nodes' : List ℕ}
    (hnodes' : nodes' = if w.isRunning then [] else nodes) :
    s.Moves r.2.2 w.memId r.2.1.memId (w.blocks nodes) ∧ r.2.1.Fit r.2.2 nodes' 0 false := by
  rw [EventWorker.moduleExit] at hr
  cases hrunning : w.isRunning with
  | true =>
      rw [hrunning, if_pos rfl] at hr hnodes'
      obtain ⟨i, hslot, -⟩ := h.active (by rw [hrunning, Bool.true_or])
      obtain ⟨q, hq, rfl⟩ := Option.map_eq_some_iff.mp hr
      obtain ⟨L, -, -, hreleases⟩ :=
        hl.freeList hrunning hacc hout.of_append_left.nodup h.charged hq
      have hid := (freeList_worker hq).2.2
      have hslot' : q.2.mem.worker.registeredSlot q.1.memId = some i := by
        rw [hid, hreleases.slot]
        exact hslot
      have hmoves : s.Moves q.2 w.memId q.1.memId (w.blocks nodes) := by
        rw [hid]
        exact .of_releases hreleases (fun p hp => hp) _
      have hback : (q.2.unRegister q.1.memId).2.2 = myMemModuleInvalidId :=
        hreleases.accounts.unRegister_invalidId (hreleases.inited.trans hinited) hslot'
      subst hnodes'
      refine ⟨hmoves.trans (.unRegister _ _), ?_, fun _ => hback, ?_⟩
      · exact fun hactive => absurd hactive (by simp [exitJoined])
      · exact fun p hp => absurd hp List.not_mem_nil
  | false =>
      rw [hrunning, if_neg Bool.false_ne_true] at hr hnodes'
      obtain rfl := Option.some.inj hr
      subst hnodes'
      refine ⟨.refl _ _ _, fun hactive => ?_, h.rests, h.charged⟩
      simp [hrunning] at hactive

end EventWorker

namespace Part

def all : List Part := [.mem, .msg, .tpool, .timer, .health]

theorem mem_all (p : Part) : p ∈ all := by cases p <;> decide

end Part

namespace Program

variable {sizeofEvent : Fin (2 ^ 31)} {s s' : Program} {a : ProgramAction} {p q : Part}
  {l : MemLedger} {rounds : ℕ}

/-- The locks of the module. -/
def lockInited (s : Program) : Part → Bool
  | .mem => s.memLock.inited
  | .msg => s.msg.lock.inited
  | .tpool => s.tpool.lock.inited && s.tpool.cond.inited
  | .timer => s.timer.lock.inited
  | .health => s.health.worker.lock.inited

/-- The module is initialised, or will be once its thread runs. -/
def active (s : Program) : Part → Bool
  | .mem => s.ledger.mem.worker.inited
  | .msg => s.msg.inited && s.msg.lock.inited
  | .tpool => s.tpool.inited
  | .timer => s.timer.isRunning || decide (0 < s.timerThreads)
  | .health => s.health.worker.isRunning || decide (0 < s.healthThreads)

/-- The ids of the modules are not for others to unregister. -/
def SparesIds (s : Program) : MemCall → Prop
  | .unRegister memId => ∀ p ∈ Part.all, s.active p = true → memId ≠ s.memId p
  | _ => True

instance SparesIds.decidable (s : Program) : ∀ c, Decidable (s.SparesIds c)
  | .unRegister _ => inferInstanceAs (Decidable (∀ p ∈ Part.all, _))
  | .register _ _ | .calloc _ _ _ | .free _ _ => .isTrue trivial

/-- The order in which the modules are used. -/
def InTurn (s : Program) : ProgramAction → Prop
  | .call c => s.SparesIds c
  | .memInit => True
  | .exit .mem _ => ∀ p ∈ Part.all, p ≠ .mem → s.active p = false
  | .timerInit | .exit .timer _ => s.active .mem = true ∧ s.timerThreads = 0
  | .healthInit _ | .exit .health _ => s.active .mem = true ∧ s.healthThreads = 0
  | .timerThread base _ | .healthThread base _ => base = true
  | .msgInit | .tPoolInit _ _ | .timerAdd _ _ _ _ | .timerDel _ | .healthAdd _
  | .exit .msg _ | .exit .tpool _ => s.active .mem = true

instance InTurn.decidable (s : Program) : ∀ a, Decidable (s.InTurn a)
  | .call c => SparesIds.decidable s c
  | .memInit => .isTrue trivial
  | .exit .mem _ => inferInstanceAs (Decidable (∀ p ∈ Part.all, _))
  | .timerInit | .exit .timer _ | .healthInit _ | .exit .health _ =>
      inferInstanceAs (Decidable (_ ∧ _))
  | .timerThread _ _ | .healthThread _ _ => inferInstanceAs (Decidable (_ = _))
  | .msgInit | .tPoolInit _ _ | .timerAdd _ _ _ _ | .timerDel _ | .healthAdd _
  | .exit .msg _ | .exit .tpool _ => inferInstanceAs (Decidable (_ = _))

/-! ## The invariant -/

structure PartReady (s : Program) (p : Part) : Prop where
  active : s.active p = true →
    ∃ i, s.ledger.mem.worker.registeredSlot (s.memId p) = some i ∧ s.lockInited p = true ∧
      s.up p = true
  rests : p ≠ .mem → s.active p = false → s.memId p = myMemModuleInvalidId
  charged : ∀ ptr ∈ s.own p, s.ledger.Charged (s.memId p) ptr

structure Ready (s : Program) : Prop where
  sound : s.Sound
  parts : ∀ p, s.PartReady p
  apart : ∀ p q, p ≠ q → s.active p = true → s.active q = true → s.memId p ≠ s.memId q
  on : ∀ p, s.active p = true → s.active .mem = true

/-- All that belongs to a module, but for what is charged to its id. -/
structure Same (s s' : Program) (p : Part) : Prop where
  memId : s'.memId p = s.memId p
  active : s'.active p = s.active p
  lockInited : s'.lockInited p = s.lockInited p
  up : s'.up p = s.up p
  own : s'.own p = s.own p

theorem PartReady.of_same (h : s.PartReady p) (hsame : s.Same s' p)
    (hleaves : s.active p = true → s.ledger.Leaves s'.ledger (s.memId p) (s.own p)) :
    s'.PartReady p := by
  refine ⟨fun hactive => ?_, fun hp hrests => ?_, fun ptr hptr => ?_⟩
  · rw [hsame.active] at hactive
    obtain ⟨i, hslot, hlock, hup⟩ := h.active hactive
    rw [hsame.memId, hsame.lockInited, hsame.up]
    exact ⟨i, (hleaves hactive).slot i hslot, hlock, hup⟩
  · rw [hsame.active] at hrests
    rw [hsame.memId]
    exact h.rests hp hrests
  · rw [hsame.own] at hptr
    rw [hsame.memId]
    have hcharged := h.charged ptr hptr
    cases hactive : s.active p with
    | true => exact (hleaves hactive).charged ptr hptr hcharged
    | false =>
        -- a module that is not in use has no structures
        by_cases hp : p = .mem
        · subst hp
          exact absurd hptr List.not_mem_nil
        · rw [h.rests hp hactive] at hcharged
          exact absurd hcharged not_charged_invalidId

/-- What the call on one module touches of the others. -/
structure Touches (s s' : Program) (p : Part) : Prop where
  memLock : s'.memLock = s.memLock
  msg : p ≠ .msg → s'.msg = s.msg
  tpool : p ≠ .tpool → s'.tpool = s.tpool
  timer : p ≠ .timer → s'.timer = s.timer ∧ s'.timerNodes = s.timerNodes ∧
    s'.timerThreads = s.timerThreads
  health : p ≠ .health → s'.health = s.health ∧ s'.healthNodes = s.healthNodes ∧
    s'.healthThreads = s.healthThreads
  up : ∀ q, q ≠ p → s'.up q = s.up q

theorem Touches.same {before after : ℤ} {ptrs : List ℕ} (h : s.Touches s' p)
    (hmoves : s.ledger.Moves s'.ledger before after ptrs) (hq : q ≠ p) : s.Same s' q := by
  cases q with
  | mem =>
      refine ⟨hmoves.mainModId, hmoves.inited, ?_, h.up _ hq, rfl⟩
      rw [lockInited, lockInited, h.memLock]
  | msg =>
      have hmsg := h.msg hq.symm
      refine ⟨?_, ?_, ?_, h.up _ hq, rfl⟩
      · rw [memId, memId, hmsg]
      · rw [active, active, hmsg]
      · rw [lockInited, lockInited, hmsg]
  | tpool =>
      have htpool := h.tpool hq.symm
      refine ⟨?_, ?_, ?_, h.up _ hq, ?_⟩
      · rw [memId, memId, htpool]
      · rw [active, active, htpool]
      · rw [lockInited, lockInited, htpool]
      · rw [own, own, htpool]
  | timer =>
      obtain ⟨htimer, hnodes, hthreads⟩ := h.timer hq.symm
      refine ⟨?_, ?_, ?_, h.up _ hq, ?_⟩
      · rw [memId, memId, htimer]
      · rw [active, active, htimer, hthreads]
      · rw [lockInited, lockInited, htimer]
      · rw [own, own, htimer, hnodes]
  | health =>
      obtain ⟨hhealth, hnodes, hthreads⟩ := h.health hq.symm
      refine ⟨?_, ?_, ?_, h.up _ hq, ?_⟩
      · rw [memId, memId, hhealth]
      · rw [active, active, hhealth, hthreads]
      · rw [lockInited, lockInited, hhealth]
      · rw [own, own, hhealth, hnodes]

/-- The structures of two modules have no block in common. -/
theorem Sound.own_disjoint (h : s.Sound) (hne : q ≠ p) : ∀ ptr ∈ s.own q, ptr ∉ s.own p := by
  have hnodup := h.out.nodup
  rw [structures, List.nodup_append', List.nodup_append'] at hnodup
  obtain ⟨-, ⟨-, -, htimerHealth⟩, htpool⟩ := hnodup
  intro ptr hq hp
  cases p <;> cases q <;>
    first
    | exact hne rfl
    | exact absurd hq List.not_mem_nil
    | exact absurd hp List.not_mem_nil
    | exact htimerHealth hq hp
    | exact htimerHealth hp hq
    | exact htpool hq (List.mem_append_left _ hp)
    | exact htpool hq (List.mem_append_right _ hp)
    | exact htpool hp (List.mem_append_left _ hq)
    | exact htpool hp (List.mem_append_right _ hq)

/-- A call on one module leaves the others ready. -/
theorem Ready.of_moves (h : s.Ready) (hsound : s'.Sound) (hon : s.active .mem = true)
    (hp : p ≠ .mem) (hmoves : s.ledger.Moves s'.ledger (s.memId p) (s'.memId p) (s.own p))
    (htouches : s.Touches s' p) (hpart : s'.PartReady p) : s'.Ready := by
  have hsame : ∀ q, q ≠ p → s.Same s' q := fun q hq => htouches.same hmoves hq
  have hne : ∀ q, q ≠ p → s.active q = true → s.memId q ≠ s.memId p := by
    intro q hq hactive
    cases hactive' : s.active p with
    | true => exact h.apart q p hq hactive hactive'
    | false =>
        obtain ⟨i, hslot, -⟩ := (h.parts q).active hactive
        rw [(h.parts p).rests hp hactive']
        exact ne_invalidId hslot
  have hother : ∀ q, q ≠ p → s'.PartReady q := by
    intro q hq
    apply (h.parts q).of_same (hsame q hq)
    intro hactive
    obtain ⟨i, hslot, -⟩ := (h.parts q).active hactive
    exact hmoves.leaves _ i _ hslot (hne q hq hactive) (h.sound.own_disjoint hq)
  have hapart : ∀ q, q ≠ p → s.active q = true → s.memId q ≠ s'.memId p := by
    intro q hq hactive
    obtain ⟨i, hslot, -⟩ := (h.parts q).active hactive
    exact hmoves.ne hslot (hne q hq hactive)
  refine ⟨hsound, fun q => ?_, fun q q' hqq' hactive hactive' => ?_, fun q hactive => ?_⟩
  · by_cases hq : q = p
    · rw [hq]
      exact hpart
    · exact hother q hq
  · by_cases hq : q = p
    · subst hq
      have hq' : q' ≠ q := Ne.symm hqq'
      rw [(hsame q' hq').active] at hactive'
      rw [(hsame q' hq').memId]
      exact (hapart q' hq' hactive').symm
    · rw [(hsame q hq).active] at hactive
      rw [(hsame q hq).memId]
      by_cases hq' : q' = p
      · rw [hq']
        exact hapart q hq hactive
      · rw [(hsame q' hq').active] at hactive'
        rw [(hsame q' hq').memId]
        exact h.apart q q' hqq' hactive hactive'
  · rw [(hsame .mem hp.symm).active]
    exact hon

/-- A call that is about no module, or changes nothing of it. -/
theorem Ready.of_same (h : s.Ready) (hsound : s'.Sound) (hsame : ∀ p, s.Same s' p)
    (hleaves : ∀ p, s.active p = true → s.ledger.Leaves s'.ledger (s.memId p) (s.own p)) :
    s'.Ready := by
  refine ⟨hsound, fun p => (h.parts p).of_same (hsame p) (hleaves p), fun p q hne hp hq => ?_,
    fun p hp => ?_⟩
  · rw [(hsame p).active] at hp
    rw [(hsame q).active] at hq
    rw [(hsame p).memId, (hsame q).memId]
    exact h.apart p q hne hp hq
  · rw [(hsame p).active] at hp
    rw [(hsame .mem).active]
    exact h.on p hp

/-! ## What a call is about -/

end Program

/-- The module that a call is a call of. -/
def ProgramAction.about : ProgramAction → Option Part
  | .call _ => none
  | .memInit => some .mem
  | .msgInit => some .msg
  | .tPoolInit _ _ => some .tpool
  | .timerInit | .timerThread _ _ | .timerAdd _ _ _ _ | .timerDel _ => some .timer
  | .healthInit _ | .healthThread _ _ | .healthAdd _ => some .health
  | .exit p _ => some p

theorem ProgramAction.about_of_inits {a : ProgramAction} {p : Part} (h : a.inits = some p) :
    a.about = some p := by
  cases a <;> first | exact h | cases h

theorem ProgramAction.about_of_exits {a : ProgramAction} {p : Part} (h : a.exits = some p) :
    a.about = some p := by
  cases a <;> first | exact h | cases h

namespace Program

variable {sizeofEvent : Fin (2 ^ 31)} {s s' : Program} {a : ProgramAction} {p q : Part}
  {l : MemLedger} {rounds : ℕ}

theorem next_up_of_ne (h : a.about ≠ some q) : (s.next sizeofEvent a).up q = s.up q := by
  have hi : a.inits ≠ some q := fun hi => h (ProgramAction.about_of_inits hi)
  have he : a.exits ≠ some q := fun he => h (ProgramAction.about_of_exits he)
  simp [Program.next, hi, he]

theorem next_up_of_inits (h : a.inits = some p) : (s.next sizeofEvent a).up p =
    (s.up p || decide ((s.act sizeofEvent a).1 = mySuccess)) := by
  have he : a.exits = none := by
    cases a <;> first | rfl | cases h
  simp [Program.next, h, he]

/-- Neither an `Init` nor an `Exit`. -/
theorem next_up_of_neither (h : a.inits = none ∧ a.exits = none) :
    (s.next sizeofEvent a).up p = s.up p := by
  simp [Program.next, h.1, h.2]

theorem next_up_of_exits (h : a.exits = some p) : (s.next sizeofEvent a).up p = false := by
  simp [Program.next, h]

theorem touches_next (ha : a.about = some p) (hp : p ≠ .mem) :
    s.Touches (s.next sizeofEvent a) p := by
  have hup : ∀ q, q ≠ p → (s.next sizeofEvent a).up q = s.up q := by
    intro q hq
    apply next_up_of_ne
    rw [ha]
    exact fun heq => hq (Option.some.inj heq).symm
  cases a with
  | call _ => cases ha
  | memInit =>
      cases ha
      exact absurd rfl hp
  | msgInit | tPoolInit _ _ | timerInit | timerAdd _ _ _ _ | timerDel _ | healthInit _
  | healthAdd _ =>
      cases ha
      refine ⟨rfl, fun hne => ?_, fun hne => ?_, fun hne => ?_, fun hne => ?_, hup⟩ <;>
        first | exact absurd rfl hne | exact ⟨rfl, rfl, rfl⟩ | rfl
  | timerThread base _ | healthThread base _ =>
      cases ha
      cases base <;> refine ⟨rfl, fun hne => ?_, fun hne => ?_, fun hne => ?_, fun hne => ?_, hup⟩ <;>
        first | exact absurd rfl hne | exact ⟨rfl, rfl, rfl⟩ | rfl
  | exit p' rounds =>
      obtain rfl : p' = p := Option.some.inj ha
      have hact : (s.next sizeofEvent (.exit p' rounds)) =
          { ((s.exit rounds p').getD (mySuccess, s)).2 with
            up := (s.next sizeofEvent (.exit p' rounds)).up } := rfl
      rw [hact]
      cases hexit : s.exit rounds p' with
      | none =>
          exact ⟨rfl, fun _ => rfl, fun _ => rfl, fun _ => ⟨rfl, rfl, rfl⟩,
            fun _ => ⟨rfl, rfl, rfl⟩, hup⟩
      | some r =>
          cases p' with
          | mem => exact absurd rfl hp
          | msg | tpool =>
              cases hexit
              refine ⟨rfl, fun hne => ?_, fun hne => ?_, fun hne => ?_, fun hne => ?_, hup⟩ <;>
                first | exact absurd rfl hne | exact ⟨rfl, rfl, rfl⟩ | rfl
          | timer | health =>
              obtain ⟨r', -, rfl⟩ := Option.map_eq_some_iff.mp hexit
              refine ⟨rfl, fun hne => ?_, fun hne => ?_, fun hne => ?_, fun hne => ?_, hup⟩ <;>
                first | exact absurd rfl hne | exact ⟨rfl, rfl, rfl⟩ | rfl

/-! ## Step by step -/

/-- Modules that are used in turn free only what is charged to their ids. -/
theorem Ready.freesOwn (h : s.Ready) (ha : s.May a) : s.FreesOwn a := by
  cases a with
  | exit p rounds => exact fun _ => (h.parts p).charged
  | timerDel timerHandle =>
      intro node hnode hne
      have hmem : node ∈ s.timerNodes := (ha node hnode).resolve_left hne
      have hcharged := (h.parts .timer).charged
      exact ⟨hcharged _ (List.mem_append_left _ hmem),
        hcharged _ (List.mem_append_right _ (List.mem_map_of_mem hmem))⟩
  | call _ | memInit | msgInit | tPoolInit _ _ | timerInit | timerThread _ _ | timerAdd _ _ _ _
  | healthInit _ | healthThread _ _ | healthAdd _ => trivial

theorem Ready.sound_next (h : s.Ready) (ha : s.May a) : (s.next sizeofEvent a).Sound := by
  have hnew : (s.act sizeofEvent a).2.Sound := h.sound.act ha (h.freesOwn ha)
  exact ⟨hnew.accounts, hnew.timer, hnew.health, hnew.out⟩

theorem own_subset_structures (p : Part) : s.own p ⊆ s.structures := by
  intro ptr hptr
  cases p with
  | mem | msg => cases hptr
  | tpool => exact List.mem_append_left _ hptr
  | timer => exact List.mem_append_right _ (List.mem_append_left _ hptr)
  | health => exact List.mem_append_right _ (List.mem_append_right _ hptr)

theorem Ready.call (h : s.Ready) {c : MemCall} (ha : s.May (.call c)) (hp : s.SparesIds c) :
    (s.next sizeofEvent (.call c)).Ready := by
  have hup : ∀ p, (s.next sizeofEvent (.call c)).up p = s.up p :=
    fun p => next_up_of_ne (Option.some_ne_none p).symm
  have hworker : (s.ledger.next c).mem.worker.mainModId = s.ledger.mem.worker.mainModId ∧
      (s.ledger.next c).mem.worker.inited = s.ledger.mem.worker.inited := by
    cases c with
    | register memId name => exact ⟨mainModId_register _ _, memRegister_inited _ _ _⟩
    | unRegister memId => exact ⟨mainModId_unRegister _, memUnRegister_inited _ _⟩
    | calloc memId size addr => exact ⟨mainModId_calloc _ _ _, memCalloc_inited _ _ _ _⟩
    | free memId ptr => exact ⟨mainModId_free _ _, memFree_inited _ _ _⟩
  refine h.of_same (h.sound_next ha) (fun p => ?_) fun p hactive => ?_
  · cases p with
    | mem => exact ⟨hworker.1, hworker.2, rfl, hup _, rfl⟩
    | msg | tpool | timer | health => exact ⟨rfl, rfl, rfl, hup _, rfl⟩
  · cases c with
    | register memId name => exact .register _ _
    | unRegister memId => exact .unRegister (hp p (Part.mem_all p) hactive)
    | calloc memId size addr => exact .of_grows (.calloc h.sound.accounts _ _ ha.1)
    | free memId ptr => exact .free fun hmem => ha.2 (own_subset_structures p hmem)

theorem Ready.memInit (h : s.Ready) : (s.next sizeofEvent .memInit).Ready := by
  have hsound : (s.next sizeofEvent .memInit).Sound := h.sound_next trivial
  have hup : ∀ p, p ≠ .mem → (s.next sizeofEvent .memInit).up p = s.up p :=
    fun p hp => next_up_of_ne fun heq => hp (Option.some.inj heq).symm
  cases hinited : s.ledger.mem.worker.inited with
  | true =>
      have hledger : s.ledger.moduleInit = (mySuccess, s.ledger) := by
        simp [MemLedger.moduleInit, memModuleInit, hinited]
      have hact : s.act sizeofEvent .memInit = (mySuccess, s) := by
        simp [Program.act, Program.memInit, hledger, hinited]
      obtain ⟨-, -, -, hmem⟩ := (h.parts .mem).active hinited
      refine h.of_same hsound (fun p => ?_) fun p _ => ?_
      · have hup' : (s.next sizeofEvent .memInit).up p = s.up p := by
          by_cases hp : p = .mem
          · subst hp
            rw [next_up_of_inits rfl, hmem, Bool.true_or]
          · exact hup p hp
        simp only [Program.next, hact] at hup' ⊢
        exact ⟨by cases p <;> rfl, by cases p <;> rfl, by cases p <;> rfl, hup',
          by cases p <;> rfl⟩
      · simp only [Program.next, hact]
        exact ⟨fun _ => id, fun _ _ => id⟩
  | false =>
      -- nothing but the Mem module can be in use
      have hidle : ∀ p, p ≠ .mem → s.active p = false := by
        intro p _
        cases hactive : s.active p with
        | false => rfl
        | true =>
            have hmem : s.ledger.mem.worker.inited = true := h.on p hactive
            rw [hinited] at hmem
            cases hmem
      have hworker : (s.next sizeofEvent .memInit).ledger.mem.worker =
          MyMemWorker.setNode ⟨fun _ => .zero, 0, true⟩ 0 (.fresh 0 memModuleCommon) := by
        show (memModuleInit s.ledger.mem.worker).2 = _
        rw [memModuleInit_eq hinited]
      have hret : (s.act sizeofEvent .memInit).1 = mySuccess := by
        show (memModuleInit s.ledger.mem.worker).1 = _
        rw [memModuleInit_eq hinited]
      have hlock : (s.next sizeofEvent .memInit).lockInited .mem = true := by
        simp [Program.next, Program.act, Program.memInit, lockInited, hinited, Lock.init]
      have hsame : ∀ p, p ≠ .mem → s.Same (s.next sizeofEvent .memInit) p := by
        intro p hp
        cases p with
        | mem => exact absurd rfl hp
        | msg | tpool | timer | health => exact ⟨rfl, rfl, rfl, hup _ hp, rfl⟩
      refine ⟨hsound, fun p => ?_, fun p q hne hactive hactive' => ?_, fun p _ => ?_⟩
      · by_cases hp : p = .mem
        · subst hp
          refine ⟨fun _ => ⟨0, ?_, hlock, ?_⟩, fun hne => absurd rfl hne,
            fun ptr hptr => absurd hptr List.not_mem_nil⟩
          · rw [memId, hworker]
            exact registeredSlot_eq_some.mpr ⟨rfl, by simp [MyMemNode.fresh]⟩
          · rw [next_up_of_inits rfl, hret]
            exact Bool.or_true _
        · apply (h.parts p).of_same (hsame p hp)
          intro hactive
          rw [hidle p hp] at hactive
          cases hactive
      · by_cases hp : p = .mem
        · have hq : q ≠ .mem := fun heq => hne (hp.trans heq.symm)
          rw [(hsame q hq).active, hidle q hq] at hactive'
          cases hactive'
        · rw [(hsame p hp).active, hidle p hp] at hactive
          cases hactive
      · show (s.next sizeofEvent .memInit).ledger.mem.worker.inited = true
        rw [hworker]
        rfl

theorem Ready.memExit (h : s.Ready) (hidle : ∀ p ∈ Part.all, p ≠ .mem → s.active p = false)
    (rounds : ℕ) : (s.next sizeofEvent (.exit .mem rounds)).Ready := by
  have hup : ∀ p, p ≠ .mem → (s.next sizeofEvent (.exit .mem rounds)).up p = s.up p :=
    fun p hp => next_up_of_ne fun heq => hp (Option.some.inj heq).symm
  have hoff : (s.next sizeofEvent (.exit .mem rounds)).active .mem = false := by
    show (memModuleExit s.ledger.mem.worker).2.inited = false
    rw [memModuleExit_eq]
  have hsame : ∀ p, p ≠ .mem → s.Same (s.next sizeofEvent (.exit .mem rounds)) p := by
    intro p hp
    cases p with
    | mem => exact absurd rfl hp
    | msg | tpool | timer | health => exact ⟨rfl, rfl, rfl, hup _ hp, rfl⟩
  have hnone : ∀ p, (s.next sizeofEvent (.exit .mem rounds)).active p = false := by
    intro p
    by_cases hp : p = .mem
    · rw [hp]
      exact hoff
    · rw [(hsame p hp).active]
      exact hidle p (Part.mem_all p) hp
  refine ⟨h.sound_next rfl, fun p => ?_, fun p q _ hactive _ => ?_, fun p hactive => ?_⟩
  · by_cases hp : p = .mem
    · subst hp
      refine ⟨fun hactive => ?_, fun hne => absurd rfl hne,
        fun ptr hptr => absurd hptr List.not_mem_nil⟩
      rw [hoff] at hactive
      cases hactive
    · apply (h.parts p).of_same (hsame p hp)
      intro hactive
      rw [hidle p (Part.mem_all p) hp] at hactive
      cases hactive
  · rw [hnone p] at hactive
    cases hactive
  · rw [hnone p] at hactive
    cases hactive

/-- A call on the Msg module, by what it returns. -/
theorem Ready.of_msg (h : s.Ready) (hon : s.active .mem = true) (ha : s.May a)
    (habout : a.about = some .msg) {m : MsgModule} (hmsg : (s.next sizeofEvent a).msg = m)
    (hledger : (s.next sizeofEvent a).ledger = l) (hmoves : s.ledger.Moves l s.msg.memId m.memId [])
    (hactive : (m.inited && m.lock.inited) = true → (s.next sizeofEvent a).up .msg = true ∧
      ∃ i, l.mem.worker.registeredSlot m.memId = some i)
    (hrests : (m.inited && m.lock.inited) = false → m.memId = myMemModuleInvalidId) :
    (s.next sizeofEvent a).Ready := by
  subst hmsg hledger
  refine h.of_moves (p := .msg) (h.sound_next ha) hon (by decide) hmoves
    (touches_next habout (by decide))
    ⟨fun hact => ?_, fun _ => hrests, fun ptr hptr => absurd hptr List.not_mem_nil⟩
  obtain ⟨hup, i, hslot⟩ := hactive hact
  have hlock : ((s.next sizeofEvent a).msg.inited && (s.next sizeofEvent a).msg.lock.inited) =
    true := hact
  exact ⟨i, hslot, (Bool.and_eq_true_iff.mp hlock).2, hup⟩

theorem Ready.msgInit (h : s.Ready) (hon : s.active .mem = true) :
    (s.next sizeofEvent .msgInit).Ready := by
  have hpart := h.parts .msg
  cases hinited : s.msg.inited with
  | true =>
      have hr := MsgModule.init_inited (s := s.ledger) hinited
      refine h.of_msg hon trivial rfl (congrArg (fun r => r.2.1) hr)
        (congrArg (fun r => r.2.2) hr) (.refl _ _ _) (fun hactive => ?_) ?_
      · obtain ⟨i, hslot, -, hup⟩ := hpart.active hactive
        rw [next_up_of_inits rfl, hup]
        exact ⟨rfl, i, hslot⟩
      · exact hpart.rests (by decide)
  | false =>
      have hidle : s.active .msg = false := by rw [active, hinited, Bool.false_and]
      by_cases hret : (s.ledger.register s.msg.memId (some msgName)).1 = mySuccess
      · have hr := MsgModule.init_registered hinited hret
        have hsuccess : (s.act sizeofEvent .msgInit).1 = mySuccess := congrArg Prod.fst hr
        refine h.of_msg hon trivial rfl (congrArg (fun r => r.2.1) hr)
          (congrArg (fun r => r.2.2) hr) (.register _ _ _) (fun _ => ?_) ?_
        · rw [next_up_of_inits rfl, hsuccess]
          exact ⟨Bool.or_true _, registeredSlot_of_register hret⟩
        · exact fun hrests => Bool.noConfusion hrests
      · have hr := MsgModule.init_failed hinited hret
        refine h.of_msg hon trivial rfl (congrArg (fun r => r.2.1) hr)
          (congrArg (fun r => r.2.2) hr) (.refl _ _ _) (fun hactive => ?_)
          fun _ => hpart.rests (by decide) hidle
        rw [hinited] at hactive
        cases hactive

theorem unRegister_back (h : s.Ready) (hon : s.active .mem = true) (hp : p ≠ .mem) :
    (s.ledger.unRegister (s.memId p)).2.2 = myMemModuleInvalidId := by
  cases hactive : s.active p with
  | true =>
      obtain ⟨i, hslot, -⟩ := (h.parts p).active hactive
      exact h.sound.accounts.unRegister_invalidId hon hslot
  | false =>
      rw [(h.parts p).rests hp hactive]
      simp [MemLedger.unRegister, memUnRegister, heldSlot_invalidId]

theorem Ready.msgExit (h : s.Ready) (hon : s.active .mem = true) :
    (s.next sizeofEvent (.exit .msg rounds)).Ready := by
  have hpart := h.parts .msg
  cases hinited : s.msg.inited with
  | true =>
      have hr : msgModuleExit s.msg s.ledger = ((s.ledger.unRegister s.msg.memId).1,
          { s.msg with
            lock := s.msg.lock.use.destroy
            memId := (s.ledger.unRegister s.msg.memId).2.2 },
          (s.ledger.unRegister s.msg.memId).2.1) := by
        rw [msgModuleExit, if_pos hinited]
      refine h.of_msg hon rfl rfl (congrArg (fun r => r.2.1) hr)
        (congrArg (fun r => r.2.2) hr) (.unRegister _ _) (fun hactive => ?_)
        fun _ => unRegister_back (p := .msg) h hon (by decide)
      simp [Lock.destroy] at hactive
  | false =>
      have hidle : s.active .msg = false := by rw [active, hinited, Bool.false_and]
      have hr : msgModuleExit s.msg s.ledger = (mySuccess, s.msg, s.ledger) := by
        rw [msgModuleExit, hinited, if_neg Bool.false_ne_true]
      refine h.of_msg hon rfl rfl (congrArg (fun r => r.2.1) hr)
        (congrArg (fun r => r.2.2) hr) (.refl _ _ _) (fun hactive => ?_)
        fun _ => hpart.rests (by decide) hidle
      rw [hinited] at hactive
      cases hactive

/-- A call on the pool, by what it returns. -/
theorem Ready.of_tpool (h : s.Ready) (hon : s.active .mem = true) (ha : s.May a)
    (habout : a.about = some .tpool) {t : TPoolModule} (htpool : (s.next sizeofEvent a).tpool = t)
    (hledger : (s.next sizeofEvent a).ledger = l)
    (hmoves : s.ledger.Moves l s.tpool.memId t.memId s.tpool.blocks)
    (hactive : t.inited = true → (s.next sizeofEvent a).up .tpool = true ∧
      (t.lock.inited && t.cond.inited) = true ∧
      ∃ i, l.mem.worker.registeredSlot t.memId = some i)
    (hrests : t.inited = false → t.memId = myMemModuleInvalidId)
    (hcharged : ∀ ptr ∈ t.blocks, l.Charged t.memId ptr) : (s.next sizeofEvent a).Ready := by
  subst htpool hledger
  refine h.of_moves (p := .tpool) (h.sound_next ha) hon (by decide) hmoves
    (touches_next habout (by decide)) ⟨fun hact => ?_, fun _ => hrests, hcharged⟩
  obtain ⟨hup, hlock, i, hslot⟩ := hactive hact
  exact ⟨i, hslot, hlock, hup⟩

theorem Ready.tPoolInit (h : s.Ready) (hon : s.active .mem = true) {threadPoolSize : Option ℤ}
    {addr : ℕ × ℕ} (ha : s.May (.tPoolInit threadPoolSize addr)) :
    (s.next sizeofEvent (.tPoolInit threadPoolSize addr)).Ready := by
  have hpart := h.parts .tpool
  rcases TPoolModule.init_cases (t := s.tpool) h.sound.accounts ha.1 ha.2 with
    ⟨hsame, -⟩ | ⟨i, s', hinited, hret, hid, hgrows, howns, hr⟩
  · refine h.of_tpool hon ha rfl (congrArg Prod.fst hsame) (congrArg Prod.snd hsame) (.refl _ _ _)
      (fun hactive => ?_) (fun hrests => hpart.rests (by decide) hrests) hpart.charged
    obtain ⟨i, hslot, hlock, hup⟩ := hpart.active hactive
    rw [next_up_of_inits rfl, hup]
    exact ⟨rfl, hlock, i, hslot⟩
  · have hslot : s'.mem.worker.registeredSlot (i : ℕ) = some i :=
      registeredSlot_eq_some.mpr ⟨rfl, howns.registered⟩
    have hmoves : s.ledger.Moves s' s.tpool.memId ((i : ℕ) : ℤ) s.tpool.blocks := by
      rw [← hid]
      exact (Moves.register _ _ _).trans (.of_grows hgrows _ _)
    refine h.of_tpool hon ha rfl (congrArg (fun r => r.2.1) hr) (congrArg (fun r => r.2.2) hr)
      hmoves (fun _ => ?_) (fun hrests => ?_) ?_
    · have hsuccess : (s.act sizeofEvent (.tPoolInit threadPoolSize addr)).1 = mySuccess :=
        congrArg Prod.fst hr
      rw [next_up_of_inits rfl, hsuccess]
      exact ⟨Bool.or_true _, rfl, i, hslot⟩
    · exact Bool.noConfusion hrests
    · exact fun ptr hptr => howns.charged hslot hptr

theorem Ready.tPoolExit (h : s.Ready) (hon : s.active .mem = true) :
    (s.next sizeofEvent (.exit .tpool rounds)).Ready := by
  have hpart := h.parts .tpool
  cases hinited : s.tpool.inited with
  | true =>
      obtain ⟨i, hslot, -⟩ := hpart.active hinited
      have hreleases := TPoolModule.releases hinited h.sound.accounts h.sound.out hpart.charged
      have hr : tPoolModuleExit s.tpool s.ledger =
          (((tPoolFree s.tpool s.ledger).unRegister s.tpool.memId).1,
            ⟨false, 0, s.tpool.threads, s.tpool.lock.use.destroy, s.tpool.cond.use.destroy,
              ((tPoolFree s.tpool s.ledger).unRegister s.tpool.memId).2.2⟩,
            ((tPoolFree s.tpool s.ledger).unRegister s.tpool.memId).2.1) := by
        rw [tPoolModuleExit, if_pos hinited]
      have hslot' : (tPoolFree s.tpool s.ledger).mem.worker.registeredSlot s.tpool.memId =
          some i := (hreleases.slot _).trans hslot
      refine h.of_tpool hon rfl rfl (congrArg (fun r => r.2.1) hr) (congrArg (fun r => r.2.2) hr)
        ((Moves.of_releases hreleases (fun p hp => hp) _).trans (.unRegister _ _))
        (fun hactive => Bool.noConfusion hactive) (fun _ => ?_)
        fun ptr hptr => absurd hptr List.not_mem_nil
      exact hreleases.accounts.unRegister_invalidId (hreleases.inited.trans hon) hslot'
  | false =>
      have hr : tPoolModuleExit s.tpool s.ledger = (mySuccess, s.tpool, s.ledger) := by
        rw [tPoolModuleExit, hinited, if_neg Bool.false_ne_true]
      refine h.of_tpool hon rfl rfl (congrArg (fun r => r.2.1) hr) (congrArg (fun r => r.2.2) hr)
        (.refl _ _ _) (fun hactive => ?_) (fun hrests => hpart.rests (by decide) hrests)
        hpart.charged
      rw [hinited] at hactive
      cases hactive

theorem Ready.timerFit (h : s.Ready) :
    s.timer.Fit s.ledger s.timerNodes s.timerThreads (s.up .timer) :=
  ⟨(h.parts .timer).active, (h.parts .timer).rests (by decide), (h.parts .timer).charged⟩

theorem Ready.healthFit (h : s.Ready) :
    s.health.worker.Fit s.ledger s.healthNodes s.healthThreads (s.up .health) :=
  ⟨(h.parts .health).active, (h.parts .health).rests (by decide), (h.parts .health).charged⟩

/-- A call on the Timer module, by what it does to the worker. -/
theorem Ready.of_timer (h : s.Ready) (hon : s.active .mem = true) (ha : s.May a)
    (habout : a.about = some .timer) {w : EventWorker} {nodes : List ℕ} {threads : ℕ} {up : Bool}
    (hw : (s.next sizeofEvent a).timer = w) (hl : (s.next sizeofEvent a).ledger = l)
    (hnodes : (s.next sizeofEvent a).timerNodes = nodes)
    (hthreads : (s.next sizeofEvent a).timerThreads = threads)
    (hup : (s.next sizeofEvent a).up .timer = up)
    (hnew : s.ledger.Moves l s.timer.memId w.memId (s.timer.blocks s.timerNodes) ∧
      w.Fit l nodes threads up) : (s.next sizeofEvent a).Ready := by
  subst hw hl hnodes hthreads hup
  obtain ⟨hmoves, hfit⟩ := hnew
  exact h.of_moves (p := .timer) (h.sound_next ha) hon (by decide) hmoves
    (touches_next habout (by decide)) ⟨hfit.active, fun _ => hfit.rests, hfit.charged⟩

/-- A call on the Health module, by what it does to the worker. -/
theorem Ready.of_health (h : s.Ready) (hon : s.active .mem = true) (ha : s.May a)
    (habout : a.about = some .health) {w : EventWorker} {nodes : List ℕ} {threads : ℕ} {up : Bool}
    (hw : (s.next sizeofEvent a).health.worker = w) (hl : (s.next sizeofEvent a).ledger = l)
    (hnodes : (s.next sizeofEvent a).healthNodes = nodes)
    (hthreads : (s.next sizeofEvent a).healthThreads = threads)
    (hup : (s.next sizeofEvent a).up .health = up)
    (hnew : s.ledger.Moves l s.health.worker.memId w.memId
        (s.health.worker.blocks s.healthNodes) ∧ w.Fit l nodes threads up) :
    (s.next sizeofEvent a).Ready := by
  subst hw hl hnodes hthreads hup
  obtain ⟨hmoves, hfit⟩ := hnew
  exact h.of_moves (p := .health) (h.sound_next ha) hon (by decide) hmoves
    (touches_next habout (by decide)) ⟨hfit.active, fun _ => hfit.rests, hfit.charged⟩

theorem Ready.timerInit (h : s.Ready) (hon : s.active .mem = true) (hidle : s.timerThreads = 0) :
    (s.next sizeofEvent .timerInit).Ready := by
  have hfit := h.timerFit
  rw [hidle] at hfit
  refine h.of_timer hon trivial rfl rfl rfl rfl ?_ (next_up_of_inits rfl)
    (hfit.init timerName rfl rfl)
  show (if _ then s.timerThreads else s.timerThreads + 1) = _
  rw [hidle]

theorem Ready.healthInit (h : s.Ready) (hon : s.active .mem = true)
    (hidle : s.healthThreads = 0) (initArg : Option (MyModulesEnum → ℤ)) :
    (s.next sizeofEvent (.healthInit initArg)).Ready := by
  have hfit := h.healthFit
  rw [hidle] at hfit
  refine h.of_health hon trivial rfl rfl rfl rfl ?_ (next_up_of_inits rfl)
    (hfit.init healthName rfl rfl)
  show (if _ then s.healthThreads else s.healthThreads + 1) = _
  rw [hidle]

theorem Ready.timerThread (h : s.Ready) {addr : ℕ × ℕ} (ha : s.May (.timerThread true addr)) :
    (s.next sizeofEvent (.timerThread true addr)).Ready := by
  have hfit := h.timerFit
  have hon : s.active .mem = true := h.on .timer (by simp [active, ha.1])
  -- the thread resets `EventListLen` first
  have hreset : Fit { s.timer with eventListLen := 0 } s.ledger s.timerNodes s.timerThreads
      (s.up .timer) := ⟨hfit.active, hfit.rests, hfit.charged⟩
  exact h.of_timer hon ha rfl rfl rfl rfl rfl (next_up_of_neither ⟨rfl, rfl⟩)
    (hreset.entry ha.1 ⟨h.sound.timer.ring, h.sound.timer.running⟩ h.sound.accounts
      (h.sound.out.perm s.structures_timer) Timer.sizeofMyTimerEventNode_le ha.2
      (fun _ => Lock.use_of_inited) rfl rfl)

theorem Ready.healthThread (h : s.Ready) {addr : Option MyModulesEnum → ℕ × ℕ}
    (ha : s.May (.healthThread true addr)) :
    (s.next sizeofEvent (.healthThread true addr)).Ready := by
  have hon : s.active .mem = true := h.on .health (by simp [active, ha.1])
  have hnode : sizeofMyHealthMonitorListNode ≤ 0x7fffffff := by decide
  exact h.of_health hon ha rfl rfl rfl rfl rfl (next_up_of_neither ⟨rfl, rfl⟩)
    (h.healthFit.entry ha.1 h.sound.health h.sound.accounts
      (h.sound.out.perm s.structures_health) hnode ha.2 (fun _ _ => rfl) rfl rfl)

theorem Ready.timerExit (h : s.Ready) (hon : s.active .mem = true) (hidle : s.timerThreads = 0)
    (ha : s.May (.exit .timer rounds)) : (s.next sizeofEvent (.exit .timer rounds)).Ready := by
  have hfit := h.timerFit
  rw [hidle] at hfit
  obtain ⟨r, hr⟩ := Option.isSome_iff_exists.mp ha
  obtain ⟨r', hr', rfl⟩ := Option.map_eq_some_iff.mp hr
  have hact : (s.act sizeofEvent (.exit .timer rounds)) = _ := congrArg (Option.getD · _) hr
  refine h.of_timer hon ha rfl (congrArg (fun r => r.2.timer) hact)
    (congrArg (fun r => r.2.ledger) hact) (congrArg (fun r => r.2.timerNodes) hact) ?_
    (next_up_of_exits rfl) (hfit.exit h.sound.timer h.sound.accounts hon
      (h.sound.out.perm s.structures_timer) hr' rfl)
  exact (congrArg (fun r => r.2.timerThreads) hact).trans hidle

theorem Ready.healthExit (h : s.Ready) (hon : s.active .mem = true) (hidle : s.healthThreads = 0)
    (ha : s.May (.exit .health rounds)) : (s.next sizeofEvent (.exit .health rounds)).Ready := by
  have hfit := h.healthFit
  rw [hidle] at hfit
  obtain ⟨r, hr⟩ := Option.isSome_iff_exists.mp ha
  obtain ⟨r', hr', rfl⟩ := Option.map_eq_some_iff.mp hr
  obtain ⟨r'', hr'', rfl⟩ := Option.map_eq_some_iff.mp hr'
  have hact : (s.act sizeofEvent (.exit .health rounds)) = _ := congrArg (Option.getD · _) hr
  refine h.of_health hon ha rfl (congrArg (fun r => r.2.health.worker) hact)
    (congrArg (fun r => r.2.ledger) hact) (congrArg (fun r => r.2.healthNodes) hact) ?_
    (next_up_of_exits rfl) (hfit.exit h.sound.health h.sound.accounts hon
      (h.sound.out.perm s.structures_health) hr'' rfl)
  exact (congrArg (fun r => r.2.healthThreads) hact).trans hidle

/-- **Every call that is in turn.** -/
theorem Ready.step (h : s.Ready) (ha : s.May a) (hp : s.InTurn a) :
    (s.next sizeofEvent a).Ready := by
  cases a with
  | call c => exact h.call ha hp
  | memInit => exact h.memInit
  | msgInit => exact h.msgInit hp
  | tPoolInit threadPoolSize addr => exact h.tPoolInit hp ha
  | timerInit => exact h.timerInit hp.1 hp.2
  | timerThread base addr =>
      obtain rfl : base = true := hp
      exact h.timerThread ha
  | timerAdd cb timerType timerHandle addr =>
      exact h.of_timer hp ha rfl rfl rfl rfl rfl (next_up_of_neither ⟨rfl, rfl⟩)
        (h.timerFit.timerAdd h.sound.timer h.sound.accounts
          (h.sound.out.perm s.structures_timer) ha rfl)
  | timerDel timerHandle =>
      exact h.of_timer hp ha rfl rfl rfl rfl rfl (next_up_of_neither ⟨rfl, rfl⟩)
        (h.timerFit.timerDel h.sound.timer h.sound.accounts
          (h.sound.out.perm s.structures_timer) ha rfl)
  | healthInit initArg => exact h.healthInit hp.1 hp.2 initArg
  | healthThread base addr =>
      obtain rfl : base = true := hp
      exact h.healthThread ha
  | healthAdd addr =>
      exact h.of_health hp ha rfl rfl rfl rfl rfl (next_up_of_neither ⟨rfl, rfl⟩)
        (Fit.healthAdd h.healthFit h.sound.health h.sound.accounts
          (h.sound.out.perm s.structures_health) ha rfl rfl)
  | exit p rounds =>
      cases p with
      | mem => exact h.memExit hp rounds
      | msg => exact h.msgExit hp
      | tpool => exact h.tPoolExit hp
      | timer => exact h.timerExit hp.1 hp.2 ha
      | health => exact h.healthExit hp.1 hp.2 ha

theorem ready_start (L L' : Links EventLink) : (start L L').Ready := by
  refine ⟨sound_start L L', fun p => ⟨fun hactive => ?_, fun hp _ => ?_, fun ptr hptr => ?_⟩,
    fun p q _ hactive _ => ?_, fun p hactive => ?_⟩
  · cases p <;> cases hactive
  · cases p with
    | mem => exact absurd rfl hp
    | msg | tpool | timer | health => rfl
  · cases p <;> cases hptr
  · cases p <;> cases hactive
  · cases p <;> cases hactive

theorem ready_of_reach (h : Reach (programSystem sizeofEvent) InTurn s) : s.Ready := by
  apply h.invariant
  · rintro s ⟨L, L', rfl⟩
    exact ready_start L L'
  · exact fun s a hs ha hp => hs.step ha.1 hp

end Program

end MyWorkEnv
