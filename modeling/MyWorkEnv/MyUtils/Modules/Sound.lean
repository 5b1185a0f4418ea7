import MyWorkEnv.MyUtils.Mem.Release
import MyWorkEnv.MyUtils.Modules.Program

/-!
# The structures of the modules

Whatever a program does with the ids, the books of the Mem module balance, the
lists of the workers are whole, and the blocks of the modules' own structures
are out, each once (`Sound`). It takes one condition: where a module frees
structures of its own, its id still stands for the registration they were
allocated under (`FreesOwn`).
-/

namespace MyWorkEnv

open EventWorker LinkedRing MemLedger MyMemWorker Transition

/-! ## The workers -/

namespace EventWorker

variable {w : EventWorker} {s : MemLedger} {i : Fin myMemModuleMaxNum} {nodes rest : List ℕ}
  {hold : Lock → Lock} {sizeofNode sizeofEvent : ℕ}

/-- `nodes` are in the list, once it was set up. -/
structure Lists (w : EventWorker) (nodes : List ℕ) : Prop where
  ring : w.memId ≠ myMemModuleInvalidId → Represents w.links .eventList (nodes.map .list)
  running : w.isRunning = true → w.memId ≠ myMemModuleInvalidId

/-- A new node, at the end of the list. Where all blocks were charged to the id, they still
are. -/
theorem Lists.link (h : w.Lists nodes) (hacc : s.Accounts)
    (hslot : s.mem.worker.registeredSlot w.memId = some i)
    (hout : s.Out (w.blocks nodes ++ rest)) (hnode : sizeofNode ≤ 0x7fffffff)
    (hevent : sizeofEvent ≤ 0x7fffffff) {a b : ℕ} (ha : s.mem.heap.block a = none)
    (hb : s.mem.heap.block b = none) (hne : b ≠ a) (hold : Lock → Lock) :
    (s.calloc w.memId sizeofNode a).1 = a + sizeofMemPrefix ∧
    ((s.calloc w.memId sizeofNode a).2.calloc w.memId sizeofEvent b).1 = b + sizeofMemPrefix ∧
    s.Grows ((s.calloc w.memId sizeofNode a).2.calloc w.memId sizeofEvent b).2 ∧
    (link hold w (a + sizeofMemPrefix) (b + sizeofMemPrefix)).Lists
      (nodes ++ [a + sizeofMemPrefix]) ∧
    ((s.calloc w.memId sizeofNode a).2.calloc w.memId sizeofEvent b).2.Out
      ((link hold w (a + sizeofMemPrefix) (b + sizeofMemPrefix)).blocks
        (nodes ++ [a + sizeofMemPrefix]) ++ rest) ∧
    ((∀ p ∈ w.blocks nodes, s.Charged w.memId p) →
      ∀ p ∈ (link hold w (a + sizeofMemPrefix) (b + sizeofMemPrefix)).blocks
          (nodes ++ [a + sizeofMemPrefix]),
        ((s.calloc w.memId sizeofNode a).2.calloc w.memId sizeofEvent b).2.Charged w.memId p) := by
  obtain ⟨hretA, hretB, hgrows, howns⟩ := calloc_calloc hacc hslot hnode hevent ha hb hne
  have hnew : ((s.calloc w.memId sizeofNode a).2.calloc w.memId sizeofEvent b).2.Out
      ((b + sizeofMemPrefix) :: (a + sizeofMemPrefix) :: (w.blocks nodes ++ rest)) :=
    hout.of_owns howns
  have hfresh : a + sizeofMemPrefix ∉ nodes := by
    intro hmem
    have hnodup := (List.nodup_cons.mp hnew.nodup).2
    exact (List.nodup_cons.mp hnodup).1
      (List.mem_append_left _ (List.mem_append_left _ hmem))
  have hblocks : ((EventWorker.link hold w (a + sizeofMemPrefix) (b + sizeofMemPrefix)).blocks
      (nodes ++ [a + sizeofMemPrefix])).Perm
      ((b + sizeofMemPrefix) :: (a + sizeofMemPrefix) :: w.blocks nodes) :=
    link_blocks hfresh hold
  refine ⟨hretA, hretB, hgrows, ⟨fun hmemId => ?_, h.running⟩,
    hnew.perm (hblocks.append_right rest).symm, fun hcharged p hp => ?_⟩
  · exact link_ring (h.ring hmemId) hfresh hold
  · have hp' : p ∈ [b + sizeofMemPrefix, a + sizeofMemPrefix] ++ w.blocks nodes :=
      hblocks.mem_iff.mp hp
    rcases List.mem_append.mp hp' with hp' | hp'
    · exact howns.charged ((hgrows.slot w.memId).trans hslot) hp'
    · have hleaves : s.Leaves _ w.memId (w.blocks nodes) := .of_grows hgrows
      exact hleaves.charged p hp' (hcharged p hp')

/-- The nodes of the thread, where the id is registered. -/
theorem Lists.addOwn (hnode : sizeofNode ≤ 0x7fffffff) (hevent : sizeofEvent ≤ 0x7fffffff)
    {addrs : List (ℕ × ℕ)} (h : w.Lists nodes) (hacc : s.Accounts)
    (hslot : s.mem.worker.registeredSlot w.memId = some i)
    (hout : s.Out (w.blocks nodes ++ rest)) (hfresh : Fresh s addrs) :
    ∃ w' s', EventWorker.addOwn hold sizeofNode sizeofEvent addrs w s = (true, w', s') ∧
      s.Grows s' ∧ w'.Lists (nodes ++ addrs.map fun p => p.1 + sizeofMemPrefix) ∧
      s'.Out (w'.blocks (nodes ++ addrs.map fun p => p.1 + sizeofMemPrefix) ++ rest) ∧
      w'.memId = w.memId ∧ (hold w.lock = w.lock → w'.lock = w.lock) ∧
      ((∀ p ∈ w.blocks nodes, s.Charged w.memId p) →
        ∀ p ∈ w'.blocks (nodes ++ addrs.map fun p => p.1 + sizeofMemPrefix),
          s'.Charged w.memId p) := by
  induction addrs generalizing w s nodes with
  | nil =>
      exact ⟨w, s, rfl, .refl hacc, by simpa using h, by simpa using hout, rfl, fun _ => rfl,
        by simp⟩
  | cons p addrs ih =>
      obtain ⟨a, b⟩ := p
      obtain ⟨⟨hne, ha, hb⟩, hlater⟩ := hfresh.of_cons
      obtain ⟨hretA, hretB, hgrows, hlists, hout', hcharged⟩ :=
        h.link hacc hslot hout hnode hevent ha hb hne hold
      obtain ⟨w', s', heq, hgrows', hlists', hout'', hid, hlock, hcharged'⟩ :=
        ih hlists hgrows.accounts ((hgrows.slot w.memId).trans hslot) hout'
          (hlater w.memId sizeofNode sizeofEvent)
      have hzero : ∀ addr, addr + sizeofMemPrefix ≠ 0 := fun addr => Nat.succ_ne_zero _
      refine ⟨w', s', ?_, hgrows.trans hgrows', by simpa using hlists', by simpa using hout'', hid,
        fun hhold => ?_, fun hall p hp => hcharged' (hcharged hall) p (by simpa using hp)⟩
      · simp only [EventWorker.addOwn, hretA, hretB, if_neg (hzero _), heq]
      · have hheld : hold (hold w.lock) = hold w.lock := by rw [hhold, hhold]
        exact (hlock hheld).trans hhold

/-- Without an id the thread gets nothing. -/
theorem addOwn_unregistered {p : ℕ × ℕ} {addrs : List (ℕ × ℕ)}
    (h : s.mem.worker.registeredSlot w.memId = none) :
    EventWorker.addOwn hold sizeofNode sizeofEvent (p :: addrs) w s = (false, w, s) := by
  simp [EventWorker.addOwn, calloc_refused (.inl h)]

/-- A node leaves the list, with its event. -/
theorem Lists.unlink {node : ℕ} (h : w.Lists nodes) (hacc : s.Accounts) (hmem : node ∈ nodes)
    (hout : s.Out (w.blocks nodes ++ rest)) (hnode : s.Charged w.memId node)
    (hevent : s.Charged w.memId (w.event node)) :
    s.Releases ((s.free w.memId (w.event node)).free w.memId node) [w.event node, node] ∧
    Lists { w with links := myListDelNode w.links (.list node) } (nodes.erase node) ∧
    s.Out ([w.event node, node] ++ (w.blocks (nodes.erase node) ++ rest)) := by
  obtain ⟨xs, ys, hnotMem, rfl, herase⟩ := List.exists_erase_eq hmem
  rw [herase]
  have hperm : (w.blocks (xs ++ node :: ys) ++ rest).Perm
      ([w.event node, node] ++ (w.blocks (xs ++ ys) ++ rest)) :=
    unlink_blocks.append_right rest
  have hout' := hout.perm hperm
  refine ⟨.free_free hacc hout'.of_append_left.nodup ?_,
    ⟨fun hid => unlink_ring (h.ring hid), h.running⟩, hout'⟩
  intro p hp
  rcases List.mem_cons.mp hp with rfl | hp
  · exact hevent
  · rw [List.mem_singleton.mp hp]
    exact hnode

/-- The walk of `Exit`. -/
theorem Lists.freeList (h : w.Lists nodes) (hrunning : w.isRunning = true) (hacc : s.Accounts)
    (hnodup : (w.blocks nodes).Nodup) (hcharged : ∀ p ∈ w.blocks nodes, s.Charged w.memId p)
    {rounds : ℕ} {r : EventWorker × MemLedger} (hr : w.freeList s rounds = some r) :
    ∃ L, r.1 = { w with links := L, eventListLen := 0, lock := w.lock.use } ∧
      Represents L .eventList [] ∧ s.Releases r.2 (w.blocks nodes) := by
  have hring := h.ring (h.running hrunning)
  cases hnodes : nodes with
  | nil =>
      rw [hnodes] at hring
      have hempty : myListIsEmpty w.links .eventList = true := (myListIsEmpty_iff hring).mpr rfl
      simp only [EventWorker.freeList, hempty, if_true, Option.some.injEq] at hr
      subst hr
      exact ⟨w.links, rfl, hring, .nil hacc⟩
  | cons node tail =>
      have hmem : node ∈ w.blocks nodes := by
        rw [hnodes]
        exact List.mem_append_left _ List.mem_cons_self
      obtain ⟨block, -, -, hslot, -⟩ := hcharged node hmem
      have hkeeps : w.Keeps s block.slot nodes _ := ⟨(registeredSlot_eq_some.mp hslot).1, hring,
        owns_of_charged hacc hnodup hslot hcharged⟩
      obtain ⟨hregistered, hmain, -⟩ := freeList_worker hr
      obtain ⟨L, s', rfl, hring', howns, hreg, hinited⟩ := hkeeps.of_freeList hr
      rw [← hnodes]
      exact ⟨L, rfl, hring', .of_owns howns hreg hregistered hinited hmain⟩

/-! What `Init`, the thread and `Exit` do to the list, and to the blocks beside it. -/

theorem moduleInit_mk (w : EventWorker) (s : MemLedger) (name : List UInt8) :
    w.moduleInit s name 0 Prod.mk = if w.isRunning then (mySuccess, w, s) else w.create s name 0 := by
  rw [EventWorker.moduleInit]
  split_ifs with hrunning
  · rfl
  · exact ite_self _

/-- A thread that runs before `Init` returns runs right after the call without it. -/
theorem moduleInit_eq_mk (w : EventWorker) (s : MemLedger) (name : List UInt8)
    (thread : EventWorker → MemLedger → EventWorker × MemLedger) :
    w.moduleInit s name 0 thread =
      if w.isRunning || (w.moduleInit s name 0 Prod.mk).1 ≠ mySuccess then
        w.moduleInit s name 0 Prod.mk
      else (mySuccess, thread (w.moduleInit s name 0 Prod.mk).2.1
        (w.moduleInit s name 0 Prod.mk).2.2) := by
  rw [moduleInit_mk]
  cases hrunning : w.isRunning with
  | true => simp [EventWorker.moduleInit, hrunning]
  | false =>
      by_cases hret : (w.create s name 0).1 = mySuccess
      · simp [EventWorker.moduleInit, hrunning, hret]
      · simp [EventWorker.moduleInit, hrunning, hret]

theorem timerModuleInit_eq (sizeofEvent : Fin (2 ^ 31)) (w : EventWorker) (s : MemLedger)
    (addr : ℕ × ℕ) :
    timerModuleInit sizeofEvent w s 0 addr =
      if w.isRunning || (timerCreate w s).1 ≠ mySuccess then timerCreate w s
      else (mySuccess, timerModuleEntry sizeofEvent addr (timerCreate w s).2.1
        (timerCreate w s).2.2) :=
  moduleInit_eq_mk w s timerName _

theorem create_failed {name : List UInt8} (created : ℤ)
    (h : (s.register w.memId (some name)).1 ≠ mySuccess) :
    w.create s name created = ((s.register w.memId (some name)).1, w, s) := by
  simp [create, h, register_failed h]

theorem create_registered {name : List UInt8} (created : ℤ)
    (h : (s.register w.memId (some name)).1 = mySuccess) :
    w.create s name created = (created, ⟨w.isRunning, myListNodeInit w.links .eventList, w.event,
      0, w.lock.init, (s.register w.memId (some name)).2.2⟩,
      (s.register w.memId (some name)).2.1) := by
  simp only [create, h]
  rfl

/-- The same for `HealthModuleInit`, whose thread also reads the intervals just copied. -/
theorem healthModuleInit_eq (sizeofEvent : Fin (2 ^ 31)) (h : MyHealthMonitor) (s : MemLedger)
    (initArg : Option (MyModulesEnum → ℤ)) (addr : Option MyModulesEnum → ℕ × ℕ) :
    healthModuleInit sizeofEvent h s initArg 0 addr =
      let r := healthCreate h s initArg
      if h.worker.isRunning || r.1 ≠ mySuccess then r
      else
        let q := healthModuleEntry sizeofEvent r.2.1.interval addr r.2.1.worker r.2.2
        (mySuccess, ⟨q.1, r.2.1.interval⟩, q.2) := by
  rw [healthModuleInit, healthCreate, moduleInit_eq_mk, moduleInit_mk]
  cases hrunning : h.worker.isRunning with
  | true => simp
  | false =>
      by_cases hret : (s.register h.worker.memId (some healthName)).1 = mySuccess
      · simp [create_registered 0 hret, hret, mySuccess]
      · simp [create_failed 0 hret, hret]

theorem Lists.init (h : w.Lists nodes) (hacc : s.Accounts)
    (hout : s.Out (w.blocks nodes ++ rest)) (name : List UInt8) {r : ℤ × EventWorker × MemLedger}
    (hr : w.moduleInit s name 0 Prod.mk = r) {nodes' : List ℕ}
    (hnodes' : nodes' = if w.isRunning || r.1 ≠ mySuccess then nodes else []) :
    r.2.1.Lists nodes' ∧ r.2.2.Accounts ∧ r.2.2.Out (r.2.1.blocks nodes' ++ rest) := by
  rw [moduleInit_mk] at hr
  by_cases hrunning : w.isRunning = true
  · rw [if_pos hrunning] at hr
    rw [hrunning, Bool.true_or, if_pos rfl] at hnodes'
    subst hr hnodes'
    exact ⟨h, hacc, hout⟩
  rw [if_neg hrunning] at hr
  by_cases hret : (s.register w.memId (some name)).1 = mySuccess
  · obtain ⟨i, hslot⟩ := registeredSlot_of_register hret
    rw [create_registered 0 hret] at hr
    subst hr
    obtain rfl : nodes' = [] := by simpa [hrunning, mySuccess] using hnodes'
    refine ⟨⟨fun _ => myListNodeInit_represents _ _, fun _ => ?_⟩, hacc.register _ _, ?_⟩
    · exact ne_invalidId hslot
    · exact hout.of_append_right.mono fun b hb => hb
  · rw [create_failed 0 hret] at hr
    subst hr
    obtain rfl : nodes' = nodes := by simpa [hret] using hnodes'
    exact ⟨h, hacc, hout⟩

theorem Lists.entry (h : w.Lists nodes) (hacc : s.Accounts)
    (hout : s.Out (w.blocks nodes ++ rest)) (hnode : sizeofNode ≤ 0x7fffffff)
    (hevent : sizeofEvent ≤ 0x7fffffff) {addrs : List (ℕ × ℕ)} (hne : addrs ≠ [])
    (hfresh : Fresh s addrs) {r : EventWorker × MemLedger}
    (hr : entry hold sizeofNode sizeofEvent addrs w s = r) {nodes' : List ℕ}
    (hnodes' : nodes' = if r.1.isRunning then nodes ++ addrs.map fun p => p.1 + sizeofMemPrefix
      else nodes) :
    r.1.Lists nodes' ∧ r.2.Accounts ∧ r.2.Out (r.1.blocks nodes' ++ rest) := by
  cases hslot : s.mem.worker.registeredSlot w.memId with
  | none =>
      obtain ⟨p, addrs, rfl⟩ := List.exists_cons_of_ne_nil hne
      rw [EventWorker.entry, addOwn_unregistered hslot] at hr
      subst hr hnodes'
      exact ⟨⟨h.ring, fun hrunning => absurd hrunning Bool.false_ne_true⟩, hacc, hout⟩
  | some i =>
      obtain ⟨w', s', heq, hgrows, hlists, hout', hid, -⟩ :
          ∃ w' s', EventWorker.addOwn hold sizeofNode sizeofEvent addrs w s = (true, w', s') ∧ _ :=
        h.addOwn hnode hevent hacc hslot hout hfresh
      rw [EventWorker.entry, heq] at hr
      subst hr hnodes'
      refine ⟨⟨hlists.ring, fun _ => ?_⟩, hgrows.accounts, hout'⟩
      show w'.memId ≠ _
      rw [hid]
      exact ne_invalidId hslot

theorem Lists.exit (h : w.Lists nodes) (hacc : s.Accounts)
    (hout : s.Out (w.blocks nodes ++ rest))
    (hcharged : w.isRunning = true → ∀ p ∈ w.blocks nodes, s.Charged w.memId p) {rounds : ℕ}
    {r : ℤ × EventWorker × MemLedger} (hr : w.moduleExit s rounds = some r) {nodes' : List ℕ}
    (hnodes' : nodes' = if w.isRunning then [] else nodes) :
    r.2.1.Lists nodes' ∧ r.2.2.Accounts ∧ r.2.2.Out (r.2.1.blocks nodes' ++ rest) := by
  rw [EventWorker.moduleExit] at hr
  by_cases hrunning : w.isRunning = true
  · rw [if_pos hrunning] at hr hnodes'
    obtain ⟨r', hr', rfl⟩ := Option.map_eq_some_iff.mp hr
    obtain ⟨L, hw, hring, hreleases⟩ :=
      h.freeList hrunning hacc hout.of_append_left.nodup (hcharged hrunning) hr'
    subst hnodes'
    refine ⟨⟨fun _ => ?_, fun hr => absurd hr Bool.false_ne_true⟩,
      hreleases.accounts.unRegister _, ?_⟩
    · simp only [exitJoined, hw]
      exact hring
    · exact (hreleases.out hout).mono fun b hb => hb
  · rw [if_neg hrunning] at hr hnodes'
    cases hr
    subst hnodes'
    exact ⟨h, hacc, hout⟩

/-- Nothing happens, or a loop timer is linked. -/
theorem timerAdd_cases (sizeofEvent : Fin (2 ^ 31)) (w : EventWorker) (s : MemLedger)
    (cb : Option ℕ) (timerType : MyTimerType) (timerHandle : Bool) (addr : ℕ × ℕ) :
    (∃ ret, timerAdd sizeofEvent w s cb timerType timerHandle addr = (ret, none, w, s)) ∨
      ∃ i, s.mem.worker.registeredSlot w.memId = some i ∧
        timerAdd sizeofEvent w s cb timerType timerHandle addr =
          (mySuccess, some (addr.1 + sizeofMemPrefix),
            link Lock.use w (addr.1 + sizeofMemPrefix) (addr.2 + sizeofMemPrefix),
            ((s.calloc w.memId sizeofMyTimerEventNode addr.1).2.calloc w.memId sizeofEvent
              addr.2).2) := by
  rw [timerAdd]
  split_ifs with hguard hloop
  · exact .inl ⟨_, rfl⟩
  · cases hslot : s.mem.worker.registeredSlot w.memId with
    | none =>
        simp only [calloc_refused (.inl hslot), if_true]
        exact .inl ⟨_, rfl⟩
    | some i =>
        obtain ⟨hretA, hretB⟩ := calloc_calloc_ret hslot Timer.sizeofMyTimerEventNode_le
          (Timer.sizeofEvent_le sizeofEvent) addr.1 addr.2
        have hzero : ∀ addr, addr + sizeofMemPrefix ≠ 0 := fun addr => Nat.succ_ne_zero _
        simp only [hretA, hretB, if_neg (hzero _)]
        exact .inr ⟨i, rfl, trivial⟩
  · exact .inl ⟨_, rfl⟩

theorem Lists.timerAdd {sizeofEvent : Fin (2 ^ 31)} (h : w.Lists nodes) (hacc : s.Accounts)
    (hout : s.Out (w.blocks nodes ++ rest)) {addr : ℕ × ℕ} (hfresh : Fresh s [addr])
    {cb : Option ℕ} {timerType : MyTimerType} {timerHandle : Bool}
    {r : ℤ × Option ℕ × EventWorker × MemLedger}
    (hr : timerAdd sizeofEvent w s cb timerType timerHandle addr = r) :
    r.2.2.1.Lists (nodes ++ r.2.1.toList) ∧ r.2.2.2.Accounts ∧
      r.2.2.2.Out (r.2.2.1.blocks (nodes ++ r.2.1.toList) ++ rest) := by
  rcases timerAdd_cases sizeofEvent w s cb timerType timerHandle addr with
    ⟨ret, hsame⟩ | ⟨i, hslot, hnew⟩
  · rw [hsame] at hr
    subst hr
    rw [Option.toList_none, List.append_nil]
    exact ⟨h, hacc, hout⟩
  · obtain ⟨hne, ha, hb⟩ := hfresh.one
    obtain ⟨-, -, hgrows, hlists, hout', -⟩ := h.link hacc hslot hout
      Timer.sizeofMyTimerEventNode_le (Timer.sizeofEvent_le sizeofEvent) ha hb hne Lock.use
    rw [hnew] at hr
    subst hr
    exact ⟨hlists, hgrows.accounts, hout'⟩

/-- A handle is a node of the list, and both its blocks are the module's to free. -/
theorem Lists.timerDel (h : w.Lists nodes) (hacc : s.Accounts)
    (hout : s.Out (w.blocks nodes ++ rest)) {timerHandle : Option ℕ}
    (hmem : ∀ node ∈ timerHandle, node = 0 ∨ node ∈ nodes)
    (hcharged : ∀ node ∈ timerHandle, node ≠ 0 →
      s.Charged w.memId node ∧ s.Charged w.memId (w.event node))
    {r : Option ℕ × EventWorker × MemLedger} (hr : timerDel w s timerHandle = r) :
    r.2.1.Lists (timerHandle.elim nodes nodes.erase) ∧ r.2.2.Accounts ∧
      r.2.2.Out (r.2.1.blocks (timerHandle.elim nodes nodes.erase) ++ rest) := by
  cases timerHandle with
  | none =>
      subst hr
      exact ⟨h, hacc, hout⟩
  | some node =>
      simp only [MyWorkEnv.timerDel] at hr
      by_cases hzero : node = 0
      · rw [if_pos hzero] at hr
        have hnotMem : node ∉ nodes := by
          intro hin
          obtain ⟨b, hb, hptr⟩ := List.mem_map.mp
            (hout.live node (List.mem_append_left _ (List.mem_append_left _ hin)))
          have hge := (hacc.prefixed b hb).ptr_ge
          have hpos : 0 < sizeofMemPrefix := by decide
          omega
        subst hr
        simp only [Option.elim_some, List.erase_of_not_mem hnotMem]
        exact ⟨h, hacc, hout⟩
      · rw [if_neg hzero] at hr
        obtain ⟨hnode, hevent⟩ := hcharged node rfl hzero
        obtain ⟨hreleases, hlists, hout'⟩ :=
          h.unlink hacc ((hmem node rfl).resolve_left hzero) hout hnode hevent
        subst hr
        exact ⟨⟨hlists.ring, hlists.running⟩, hreleases.accounts, hreleases.out hout'⟩

/-- Nothing happens for want of an id, or a node is linked. -/
theorem healthMonitorAdd_cases (sizeofEvent : Fin (2 ^ 31)) (h : MyHealthMonitor) (s : MemLedger)
    (addr : ℕ × ℕ) :
    healthMonitorAdd sizeofEvent h s addr = (-myEnoMem, h, s) ∨
      ∃ i, s.mem.worker.registeredSlot h.worker.memId = some i ∧
        healthMonitorAdd sizeofEvent h s addr =
          (mySuccess,
            { h with
              worker :=
                link Lock.use h.worker (addr.1 + sizeofMemPrefix) (addr.2 + sizeofMemPrefix) },
            ((s.calloc h.worker.memId sizeofMyHealthMonitorListNode addr.1).2.calloc
              h.worker.memId sizeofEvent addr.2).2) := by
  rw [healthMonitorAdd]
  cases hslot : s.mem.worker.registeredSlot h.worker.memId with
  | none =>
      simp only [calloc_refused (.inl hslot), if_true]
      exact .inl trivial
  | some i =>
      have hnode : sizeofMyHealthMonitorListNode ≤ 0x7fffffff := by decide
      obtain ⟨hretA, hretB⟩ :=
        calloc_calloc_ret hslot hnode (Timer.sizeofEvent_le sizeofEvent) addr.1 addr.2
      have hzero : ∀ addr, addr + sizeofMemPrefix ≠ 0 := fun addr => Nat.succ_ne_zero _
      simp only [hretA, hretB, if_neg (hzero _)]
      exact .inr ⟨i, rfl, trivial⟩

theorem Lists.healthAdd {sizeofEvent : Fin (2 ^ 31)} {h : MyHealthMonitor}
    (hl : h.worker.Lists nodes) (hacc : s.Accounts) (hout : s.Out (h.worker.blocks nodes ++ rest))
    {addr : ℕ × ℕ} (hfresh : Fresh s [addr]) {r : ℤ × MyHealthMonitor × MemLedger}
    (hr : healthMonitorAdd sizeofEvent h s addr = r) {nodes' : List ℕ}
    (hnodes' : nodes' =
      if r.1 = mySuccess then nodes ++ [addr.1 + sizeofMemPrefix] else nodes) :
    r.2.1.worker.Lists nodes' ∧ r.2.2.Accounts ∧
      r.2.2.Out (r.2.1.worker.blocks nodes' ++ rest) := by
  rcases healthMonitorAdd_cases sizeofEvent h s addr with hsame | ⟨i, hslot, hnew⟩
  · rw [hsame] at hr
    subst hr
    rw [if_neg enoMem_ne_success] at hnodes'
    subst hnodes'
    exact ⟨hl, hacc, hout⟩
  · obtain ⟨hne, ha, hb⟩ := hfresh.one
    have hnode : sizeofMyHealthMonitorListNode ≤ 0x7fffffff := by decide
    obtain ⟨-, -, hgrows, hlists, hout', -⟩ := hl.link hacc hslot hout hnode
      (Timer.sizeofEvent_le sizeofEvent) ha hb hne Lock.use
    rw [hnew] at hr
    subst hr
    rw [if_pos rfl] at hnodes'
    subst hnodes'
    exact ⟨hlists, hgrows.accounts, hout'⟩

end EventWorker

/-! ## The Msg module and the pool -/

namespace MsgModule

variable {m : MsgModule} {s : MemLedger}

theorem init_inited (h : m.inited = true) : msgModuleInit m s = (mySuccess, m, s) := by
  rw [msgModuleInit, if_pos h]

theorem init_failed (h : m.inited = false)
    (hret : (s.register m.memId (some msgName)).1 ≠ mySuccess) :
    msgModuleInit m s = ((s.register m.memId (some msgName)).1, m, s) := by
  simp only [msgModuleInit, h, hret, register_failed hret, ne_eq, not_false_eq_true, if_true,
    Bool.false_eq_true, if_false]
  rw [← h]

theorem init_registered (h : m.inited = false)
    (hret : (s.register m.memId (some msgName)).1 = mySuccess) :
    msgModuleInit m s = (mySuccess,
      ⟨true, m.lock.init, (s.register m.memId (some msgName)).2.2⟩,
      (s.register m.memId (some msgName)).2.1) := by
  simp [msgModuleInit, h, hret]

end MsgModule

namespace TPoolModule

variable {t : TPoolModule} {s : MemLedger} {rest : List ℕ}

/-- What `Init` does. -/
theorem init_cases (hacc : s.Accounts) {addr : ℕ × ℕ} (hfresh : Fresh s [addr])
    {threadPoolSize : Option ℤ}
    (hsize : ∀ size ∈ threadPoolSize, sizeofPthread * size.toNat ≤ 0x7fffffff) :
    ((tPoolModuleInit t s threadPoolSize addr).2 = (t, s) ∧
      ((tPoolModuleInit t s threadPoolSize addr).1 = mySuccess → t.inited = true)) ∨
    ∃ (i : Fin myMemModuleMaxNum) (s' : MemLedger), t.inited = false ∧
      (s.register t.memId (some tPoolName)).1 = mySuccess ∧
      (s.register t.memId (some tPoolName)).2.2 = (i : ℕ) ∧
      (s.register t.memId (some tPoolName)).2.1.Grows s' ∧
      s'.Owns i [addr.2 + sizeofMemPrefix, addr.1 + sizeofMemPrefix] s.live ∧
      tPoolModuleInit t s threadPoolSize addr = (mySuccess,
        ⟨true, addr.1 + sizeofMemPrefix, addr.2 + sizeofMemPrefix, t.lock.init.use, t.cond.init,
          (i : ℕ)⟩, s') := by
  simp only [tPoolModuleInit]
  by_cases hinited : t.inited = true
  · rw [if_pos hinited]
    exact .inl ⟨rfl, fun _ => hinited⟩
  rw [if_neg hinited]
  have hfail : ∀ ret, ret ≠ mySuccess → (ret = mySuccess → t.inited = true) :=
    fun ret hne hret => absurd hret hne
  cases threadPoolSize with
  | none => exact .inl ⟨rfl, hfail _ einval_ne_success⟩
  | some size =>
      by_cases hpos : size ≤ 0
      · dsimp only
        rw [if_pos hpos]
        exact .inl ⟨rfl, hfail _ einval_ne_success⟩
      dsimp only
      rw [if_neg hpos]
      by_cases hret : (s.register t.memId (some tPoolName)).1 = mySuccess
      · rw [if_neg (not_not_intro hret)]
        obtain ⟨i, hslot⟩ := registeredSlot_of_register hret
        have hid := (registeredSlot_eq_some.mp hslot).1
        obtain ⟨hne, ha, hb⟩ := hfresh.one
        have hpool : sizeofMyThreadPool ≤ 0x7fffffff := by decide
        obtain ⟨hretA, hretB, hgrows, howns⟩ := calloc_calloc (hacc.register _ _) hslot hpool
          (hsize size rfl) ha hb hne
        have hzero : addr.1 + sizeofMemPrefix ≠ 0 := Nat.succ_ne_zero _
        rw [hretA, if_neg hzero, hretB]
        exact .inr ⟨i, _, by simpa using hinited, hret, hid, hgrows, howns, by rw [hid]⟩
      · rw [if_pos hret, register_failed hret]
        exact .inl ⟨rfl, hfail _ hret⟩

theorem init_out (hacc : s.Accounts) (hout : s.Out (t.blocks ++ rest)) {addr : ℕ × ℕ}
    (hfresh : Fresh s [addr]) {threadPoolSize : Option ℤ}
    (hsize : ∀ size ∈ threadPoolSize, sizeofPthread * size.toNat ≤ 0x7fffffff)
    {r : ℤ × TPoolModule × MemLedger} (hr : tPoolModuleInit t s threadPoolSize addr = r) :
    r.2.2.Accounts ∧ r.2.2.Out (r.2.1.blocks ++ rest) := by
  rcases init_cases (t := t) hacc hfresh hsize with
    ⟨hsame, -⟩ | ⟨i, s', -, -, -, hgrows, howns, heq⟩
  · rw [← hr, hsame]
    exact ⟨hacc, hout⟩
  · rw [← hr, heq]
    exact ⟨hgrows.accounts, hout.of_append_right.of_owns howns⟩

/-- What `Exit` frees. -/
theorem releases (hinited : t.inited = true) (hacc : s.Accounts) (hout : s.Out (t.blocks ++ rest))
    (hcharged : ∀ p ∈ t.blocks, s.Charged t.memId p) : s.Releases (tPoolFree t s) t.blocks := by
  rw [blocks, if_pos hinited] at hout hcharged ⊢
  exact .free_free hacc hout.of_append_left.nodup hcharged

theorem exit_out (hacc : s.Accounts) (hout : s.Out (t.blocks ++ rest))
    (hcharged : t.inited = true → ∀ p ∈ t.blocks, s.Charged t.memId p)
    {r : ℤ × TPoolModule × MemLedger} (hr : tPoolModuleExit t s = r) :
    r.2.2.Accounts ∧ r.2.2.Out (r.2.1.blocks ++ rest) := by
  rw [tPoolModuleExit] at hr
  by_cases hinited : t.inited = true
  · rw [if_pos hinited] at hr
    have hreleases := releases hinited hacc hout (hcharged hinited)
    subst hr
    exact ⟨hreleases.accounts.unRegister _, (hreleases.out hout).mono fun b hb => hb⟩
  · rw [if_neg hinited] at hr
    subst hr
    exact ⟨hacc, hout⟩

end TPoolModule

/-! ## The program -/

namespace Program

variable {sizeofEvent : Fin (2 ^ 31)} {s : Program} {a : ProgramAction}

structure Sound (s : Program) : Prop where
  accounts : s.ledger.Accounts
  timer : s.timer.Lists s.timerNodes
  health : s.health.worker.Lists s.healthNodes
  out : s.ledger.Out s.structures

/-- What a module frees on its own account is charged to its id. -/
def FreesOwn (s : Program) : ProgramAction → Prop
  | .exit p _ => s.initialised p = true → ∀ ptr ∈ s.own p, s.ledger.Charged (s.memId p) ptr
  | .timerDel timerHandle => ∀ node ∈ timerHandle, node ≠ 0 →
      s.ledger.Charged s.timer.memId node ∧ s.ledger.Charged s.timer.memId (s.timer.event node)
  | _ => True

instance FreesOwn.decidable (s : Program) : ∀ a, Decidable (s.FreesOwn a)
  | .exit _ _ => inferInstanceAs (Decidable (_ → ∀ ptr ∈ _, s.ledger.Charged _ ptr))
  | .timerDel timerHandle => inferInstanceAs
      (Decidable (∀ node ∈ timerHandle, _ → s.ledger.Charged _ _ ∧ s.ledger.Charged _ _))
  | .call _ | .memInit | .msgInit | .tPoolInit _ _ | .timerInit | .timerThread _ _
  | .timerAdd _ _ _ _ | .healthInit _ | .healthThread _ _ | .healthAdd _ => .isTrue trivial

theorem structures_timer (s : Program) :
    s.structures.Perm (s.own .timer ++ (s.own .tpool ++ s.own .health)) := by
  rw [structures, ← List.append_assoc, ← List.append_assoc]
  exact List.perm_append_comm.append_right _

theorem structures_health (s : Program) :
    s.structures.Perm (s.own .health ++ (s.own .tpool ++ s.own .timer)) := by
  rw [structures, ← List.append_assoc]
  exact List.perm_append_comm

theorem sound_start (L L' : Links EventLink) : (start L L').Sound := by
  refine ⟨⟨wf_start, rfl, by simp [start], by simp [start], by simp [start], ?_⟩, ?_, ?_, ?_⟩
  · exact fun i hi => absurd hi Bool.false_ne_true
  · exact ⟨fun hid => absurd rfl hid, fun hrunning => absurd hrunning Bool.false_ne_true⟩
  · exact ⟨fun hid => absurd rfl hid, fun hrunning => absurd hrunning Bool.false_ne_true⟩
  · exact ⟨List.nodup_nil, fun _ hp => absurd hp List.not_mem_nil⟩

/-- Where the ledger alone changes, and nothing is freed. -/
theorem Sound.ledger (h : s.Sound) {l : MemLedger} (hacc : l.Accounts)
    (hlive : ∀ b ∈ s.ledger.live, b ∈ l.live) (lock : Lock) (m : MsgModule) :
    Sound { s with ledger := l, memLock := lock, msg := m } :=
  ⟨hacc, h.timer, h.health, h.out.mono hlive⟩

theorem Sound.call (h : s.Sound) {c : MemCall} (hc : s.ledger.Enabled c) (hcalls : s.Calls c) :
    Sound { s with ledger := s.ledger.next c } := by
  cases c with
  | register memId name =>
      exact h.ledger (h.accounts.register memId name) (fun b hb => hb) s.memLock s.msg
  | unRegister memId =>
      exact h.ledger (h.accounts.unRegister memId) (fun b hb => hb) s.memLock s.msg
  | calloc memId size addr =>
      have hgrows := Grows.calloc h.accounts memId size hc
      exact h.ledger hgrows.accounts hgrows.live s.memLock s.msg
  | free memId ptr => exact ⟨h.accounts.free hc, h.timer, h.health, h.out.free hcalls⟩

theorem Sound.msgInit (h : s.Sound) : s.msgInit.2.Sound := by
  rw [Program.msgInit]
  cases hinited : s.msg.inited with
  | true =>
      rw [MsgModule.init_inited hinited]
      exact h
  | false =>
      by_cases hret : (s.ledger.register s.msg.memId (some msgName)).1 = mySuccess
      · rw [MsgModule.init_registered hinited hret]
        exact h.ledger (h.accounts.register _ _) (fun b hb => hb) _ _
      · rw [MsgModule.init_failed hinited hret]
        exact h

theorem Sound.msgExit (h : s.Sound) : s.msgExit.2.Sound := by
  rw [Program.msgExit, msgModuleExit]
  split_ifs with hinited
  · exact h.ledger (h.accounts.unRegister _) (fun b hb => hb) _ _
  · exact h

theorem Sound.of_tpool (h : s.Sound) {t : TPoolModule} {l : MemLedger}
    (hnew : l.Accounts ∧ l.Out (t.blocks ++ (s.own .timer ++ s.own .health))) :
    Sound { s with tpool := t, ledger := l } :=
  ⟨hnew.1, h.timer, h.health, hnew.2⟩

theorem Sound.of_timer (h : s.Sound) {w : EventWorker} {l : MemLedger} {nodes : List ℕ}
    (hnew : w.Lists nodes ∧ l.Accounts ∧
      l.Out (w.blocks nodes ++ (s.own .tpool ++ s.own .health))) (threads : ℕ) :
    Sound { s with timer := w, ledger := l, timerNodes := nodes, timerThreads := threads } :=
  ⟨hnew.2.1, hnew.1, h.health, hnew.2.2.perm (structures_timer
    { s with timer := w, ledger := l, timerNodes := nodes, timerThreads := threads }).symm⟩

theorem Sound.of_health (h : s.Sound) {m : MyHealthMonitor} {l : MemLedger} {nodes : List ℕ}
    (hnew : m.worker.Lists nodes ∧ l.Accounts ∧
      l.Out (m.worker.blocks nodes ++ (s.own .tpool ++ s.own .timer))) (threads : ℕ) :
    Sound { s with health := m, ledger := l, healthNodes := nodes, healthThreads := threads } :=
  ⟨hnew.2.1, h.timer, hnew.1, hnew.2.2.perm (structures_health
    { s with health := m, ledger := l, healthNodes := nodes, healthThreads := threads }).symm⟩

theorem Sound.timerInit (h : s.Sound) : s.timerInit.2.Sound := by
  have hnew := h.timer.init h.accounts (h.out.perm s.structures_timer) timerName rfl rfl
  exact h.of_timer hnew _

theorem Sound.timerThread (h : s.Sound) (base : Bool) {addr : ℕ × ℕ}
    (hfresh : Fresh s.ledger [addr]) : (s.timerThread sizeofEvent base addr).Sound := by
  have hout := h.out.perm s.structures_timer
  cases base with
  | false =>
      have hdown : Lists { s.timer with isRunning := false } s.timerNodes :=
        ⟨h.timer.ring, fun hrunning => absurd hrunning Bool.false_ne_true⟩
      exact h.of_timer ⟨hdown, h.accounts, hout⟩ (s.timerThreads - 1)
  | true =>
      have hreset : Lists { s.timer with eventListLen := 0 } s.timerNodes :=
        ⟨h.timer.ring, h.timer.running⟩
      have hnew := hreset.entry h.accounts hout Timer.sizeofMyTimerEventNode_le
        (Timer.sizeofEvent_le sizeofEvent) (List.cons_ne_nil addr []) hfresh
        (rfl : EventWorker.entry Lock.use _ _ _ _ _ = _) rfl
      exact h.of_timer hnew (s.timerThreads - 1)

theorem Sound.healthInit (h : s.Sound) (initArg : Option (MyModulesEnum → ℤ)) :
    (s.healthInit initArg).2.Sound := by
  have hnew := h.health.init h.accounts (h.out.perm s.structures_health) healthName rfl rfl
  let interval := if s.health.worker.isRunning || (healthCreate s.health s.ledger initArg).1 ≠
    mySuccess then s.health.interval else initArg.getD s.health.interval
  exact h.of_health (m := ⟨_, interval⟩) hnew _

theorem Sound.healthThread (h : s.Sound) (base : Bool) {addr : Option MyModulesEnum → ℕ × ℕ}
    (hfresh : Fresh s.ledger (s.threadOwn addr)) :
    (s.healthThread sizeofEvent base addr).Sound := by
  have hout := h.out.perm s.structures_health
  cases base with
  | false =>
      have hdown : Lists { s.health.worker with isRunning := false } s.healthNodes :=
        ⟨h.health.ring, fun hrunning => absurd hrunning Bool.false_ne_true⟩
      exact h.of_health (m := ⟨{ s.health.worker with isRunning := false }, s.health.interval⟩)
        ⟨hdown, h.accounts, hout⟩ (s.healthThreads - 1)
  | true =>
      have hnode : sizeofMyHealthMonitorListNode ≤ 0x7fffffff := by decide
      have hnew := h.health.entry h.accounts hout hnode (Timer.sizeofEvent_le sizeofEvent)
        (List.cons_ne_nil _ _) hfresh (rfl : EventWorker.entry id _ _ _ _ _ = _) rfl
      exact h.of_health hnew (s.healthThreads - 1)

theorem Sound.exit (h : s.Sound) {p : Part} {rounds : ℕ}
    (hp : s.FreesOwn (.exit p rounds)) {r : ℤ × Program} (hr : s.exit rounds p = some r) :
    r.2.Sound := by
  cases p with
  | mem =>
      cases hr
      exact h.ledger h.accounts.moduleExit (fun b hb => hb) _ s.msg
  | msg =>
      cases hr
      exact h.msgExit
  | tpool =>
      cases hr
      exact h.of_tpool (TPoolModule.exit_out h.accounts h.out hp rfl)
  | timer =>
      obtain ⟨r', hr', rfl⟩ := Option.map_eq_some_iff.mp hr
      exact h.of_timer (h.timer.exit h.accounts (h.out.perm s.structures_timer) hp hr' rfl)
        s.timerThreads
  | health =>
      obtain ⟨r', hr', rfl⟩ := Option.map_eq_some_iff.mp hr
      obtain ⟨r'', hr'', rfl⟩ := Option.map_eq_some_iff.mp hr'
      exact h.of_health (h.health.exit h.accounts (h.out.perm s.structures_health) hp hr'' rfl)
        s.healthThreads

/-- **What every call keeps.** -/
theorem Sound.act (h : s.Sound) (ha : s.May a) (hp : s.FreesOwn a) :
    (s.act sizeofEvent a).2.Sound := by
  cases a with
  | call c => exact h.call ha.1 ha.2
  | memInit => exact h.ledger h.accounts.moduleInit (fun b hb => hb) _ s.msg
  | msgInit => exact h.msgInit
  | tPoolInit threadPoolSize addr =>
      exact h.of_tpool (TPoolModule.init_out h.accounts h.out ha.1 ha.2 rfl)
  | timerInit => exact h.timerInit
  | timerThread base addr => exact h.timerThread base ha.2
  | timerAdd cb timerType timerHandle addr =>
      have hnew := h.timer.timerAdd h.accounts (h.out.perm s.structures_timer) ha
        (rfl : MyWorkEnv.timerAdd sizeofEvent _ _ cb timerType timerHandle addr = _)
      exact h.of_timer hnew s.timerThreads
  | timerDel timerHandle =>
      have hnew := h.timer.timerDel h.accounts (h.out.perm s.structures_timer) ha hp rfl
      exact h.of_timer hnew s.timerThreads
  | healthInit initArg => exact h.healthInit initArg
  | healthThread base addr => exact h.healthThread base ha.2
  | healthAdd addr =>
      have hnew := Lists.healthAdd h.health h.accounts (h.out.perm s.structures_health) ha
        (rfl : healthMonitorAdd sizeofEvent _ _ addr = _) rfl
      exact h.of_health hnew s.healthThreads
  | exit p rounds =>
      obtain ⟨r, hr⟩ := Option.isSome_iff_exists.mp ha
      have hnew := h.exit hp hr
      rw [Program.act, hr]
      exact hnew

theorem sound_of_reach (h : Reach (programSystem sizeofEvent) FreesOwn s) : s.Sound := by
  apply h.invariant
  · rintro s ⟨L, L', rfl⟩
    exact sound_start L L'
  · intro s a hs ha hp
    have hnew : (s.act sizeofEvent a).2.Sound := hs.act ha.1 hp
    exact ⟨hnew.accounts, hnew.timer, hnew.health, hnew.out⟩

end Program

end MyWorkEnv
