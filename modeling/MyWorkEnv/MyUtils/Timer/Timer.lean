import MyWorkEnv.MyUtils.EventWorker

/-!
# The Timer module

`myTimer.c`, call by call. A loop timer is a node of `EventList`, and the handle
of it is the node's address; a timer that fires one time leaves no node. The
thread of the module runs, or has ended, before the next call is taken.

Beside the module stand the lists it is meant to keep: the node of the thread,
which keeps the event base alive, the handles that were added and not deleted
since, and the blocks that were out before the module had any. What `EventListLen`
counts is an `int32_t`: it equals the length of the list modulo `2 ^ 32`, and
turns negative at `2 ^ 31` nodes.
-/

namespace MyWorkEnv

open CString EventWorker LinkedRing MemLedger MyMemWorker Transition

inductive MyTimerType where
  | oneTime
  | loop
  | maxUnspec
deriving DecidableEq

/-- `sizeof(MY_TIMER_EVENT_NODE)` -/
def sizeofMyTimerEventNode : ℕ := 48

def timerName : List UInt8 := ascii ['T', 'i', 'm', 'e', 'r']

section Source

-- `sizeof(struct event)` of the event library
variable (sizeofEvent : Fin (2 ^ 31))

/-- `_TimerModuleEntry`; `addr` is what `calloc` gives. -/
def timerModuleEntry (addr : ℕ × ℕ) (w : EventWorker) (s : MemLedger) :
    EventWorker × MemLedger :=
  entry Lock.use sizeofMyTimerEventNode sizeofEvent [addr] { w with eventListLen := 0 } s

/-- `created` is what `pthread_create` returns. -/
def timerModuleInit (w : EventWorker) (s : MemLedger) (created : ℤ) (addr : ℕ × ℕ) :
    ℤ × EventWorker × MemLedger :=
  w.moduleInit s timerName created (timerModuleEntry sizeofEvent addr)

/-- The return code, and what is stored in `*TimerHandle`, if anything; `timerHandle` tells
whether `TimerHandle` is a pointer. -/
def timerAdd (w : EventWorker) (s : MemLedger) (cb : Option ℕ) (timerType : MyTimerType)
    (timerHandle : Bool) (addr : ℕ × ℕ) : ℤ × Option ℕ × EventWorker × MemLedger :=
  if !w.isRunning || (timerType ≠ .oneTime ∧ timerType ≠ .loop) || cb.isNone ||
      (!timerHandle && timerType = .loop) then
    (-myEinval, none, w, s)
  else if timerType = .loop then
    let r := s.calloc w.memId sizeofMyTimerEventNode addr.1
    if r.1 = 0 then (mySuccess, none, w, r.2)
    else
      let q := r.2.calloc w.memId sizeofEvent addr.2
      if q.1 = 0 then
        (mySuccess, none, { w with event := Function.update w.event r.1 0 }, q.2)
      else (mySuccess, some r.1, link Lock.use w r.1 q.1, q.2)
  else (mySuccess, none, w, s)

/-- `timerHandle` is the value of the variable that `TimerHandle` points to. -/
def timerDel (w : EventWorker) (s : MemLedger) (timerHandle : Option ℕ) :
    Option ℕ × EventWorker × MemLedger :=
  match timerHandle with
  | none => (none, w, s)
  | some node =>
      if node = 0 then (some node, w, s)
      else
        (some 0,
          { w with
            links := myListDelNode w.links (.list node)
            eventListLen := w.eventListLen - 1
            lock := w.lock.use },
          (s.free w.memId (w.event node)).free w.memId node)

def timerModuleExit (w : EventWorker) (s : MemLedger) (rounds : ℕ) :
    Option (ℤ × EventWorker × MemLedger) :=
  w.moduleExit s rounds

end Source

/-! ## Runs -/

/-- `up` since an `Init` that succeeded. -/
structure Timer where
  worker : EventWorker
  ledger : MemLedger
  up : Bool
  keepalive : ℕ
  handles : List ℕ
  others : List LiveBlock

inductive TimerAction where
  | init (addr : ℕ × ℕ)
  | add (cb : Option ℕ) (timerType : MyTimerType) (timerHandle : Bool) (addr : ℕ × ℕ)
  | del (timerHandle : Option ℕ)
  | exit (rounds : ℕ)

namespace Timer

variable (sizeofEvent : Fin (2 ^ 31))

def init (s : Timer) (addr : ℕ × ℕ) : Timer :=
  let r := timerModuleInit sizeofEvent s.worker s.ledger 0 addr
  let s' := { s with worker := r.2.1, ledger := r.2.2, up := s.up || r.1 = mySuccess }
  if s.worker.isRunning then s'
  else
    { s' with
      keepalive := addr.1 + sizeofMemPrefix
      handles := []
      others := s.ledger.live }

def add (s : Timer) (cb : Option ℕ) (timerType : MyTimerType) (timerHandle : Bool)
    (addr : ℕ × ℕ) : Timer :=
  let r := timerAdd sizeofEvent s.worker s.ledger cb timerType timerHandle addr
  { s with worker := r.2.2.1, ledger := r.2.2.2, handles := s.handles ++ r.2.1.toList }

def del (s : Timer) (timerHandle : Option ℕ) : Timer :=
  let r := timerDel s.worker s.ledger timerHandle
  { s with
    worker := r.2.1
    ledger := r.2.2
    handles := timerHandle.elim s.handles s.handles.erase }

def exit (s : Timer) (rounds : ℕ) : Timer :=
  match timerModuleExit s.worker s.ledger rounds with
  | none => s
  | some r => { s with worker := r.2.1, ledger := r.2.2, up := false, handles := [] }

def next (s : Timer) : TimerAction → Timer
  | .init addr => s.init sizeofEvent addr
  | .add cb timerType timerHandle addr => s.add sizeofEvent cb timerType timerHandle addr
  | .del timerHandle => s.del timerHandle
  | .exit rounds => s.exit rounds

/-- Allocations succeed, a handle is deleted while it is in use, and walks end. -/
def Enabled (s : Timer) : TimerAction → Prop
  | .init addr => Fresh s.ledger [addr]
  | .add _ _ _ addr => Fresh s.ledger [addr]
  | .del timerHandle => ∀ node ∈ timerHandle, node = 0 ∨ node ∈ s.handles
  | .exit rounds => (timerModuleExit s.worker s.ledger rounds).isSome = true

instance Enabled.decidable (s : Timer) : ∀ a, Decidable (s.Enabled a)
  | .init addr => inferInstanceAs (Decidable (Fresh s.ledger [addr]))
  | .add _ _ _ addr => inferInstanceAs (Decidable (Fresh s.ledger [addr]))
  | .del timerHandle => inferInstanceAs (Decidable (∀ node ∈ timerHandle, _ ∨ _))
  | .exit _ => inferInstanceAs (Decidable (_ = true))

end Timer

/-- The memory module may be in any state. -/
def timerSystem (sizeofEvent : Fin (2 ^ 31)) : System Timer TimerAction where
  init s := ∃ L ledger, Reachable memLedgerSystem ledger ∧
    s = ⟨.start L, ledger, false, 0, [], ledger.live⟩
  enabled := Timer.Enabled
  next := Timer.next sizeofEvent

instance (sizeofEvent : Fin (2 ^ 31)) (s : Timer) (a : TimerAction) :
    Decidable ((timerSystem sizeofEvent).enabled s a) :=
  inferInstanceAs (Decidable (s.Enabled a))

namespace Timer

variable {sizeofEvent : Fin (2 ^ 31)} {s : Timer} {i : Fin myMemModuleMaxNum}

/-! ## Up and down -/

/-- The list is the thread's node and the handles, and it is all the module has in memory. -/
structure Runs (s : Timer) (i : Fin myMemModuleMaxNum) : Prop where
  up : s.up = true
  isRunning : s.worker.isRunning = true
  inited : s.ledger.mem.worker.inited = true
  keeps : s.worker.Keeps s.ledger i (s.keepalive :: s.handles) s.others
  eventListLen : s.worker.eventListLen = .ofNat 32 (s.keepalive :: s.handles).length
  lock : s.worker.lock.inited = true
  notMine : ∀ b ∈ s.others, b.slot = i → b.reg < s.ledger.reg i

/-- The module has nothing in memory. -/
structure Rests (s : Timer) : Prop where
  up : s.up = false
  isRunning : s.worker.isRunning = false
  inited : s.ledger.mem.worker.inited = true
  memId : s.worker.memId = myMemModuleInvalidId
  accounts : s.ledger.Accounts
  handles : s.handles = []
  live : s.ledger.live.Perm s.others

theorem sizeofMyTimerEventNode_le : sizeofMyTimerEventNode ≤ 0x7fffffff := by decide

theorem sizeofEvent_le (sizeofEvent : Fin (2 ^ 31)) : (sizeofEvent : ℕ) ≤ 0x7fffffff := by
  have hlt := sizeofEvent.isLt
  omega

theorem Runs.init (h : s.Runs i) (addr : ℕ × ℕ) : s.init sizeofEvent addr = s := by
  simp [Timer.init, timerModuleInit, EventWorker.moduleInit, h.isRunning, ← h.up]

/-- `Init` brings the module up, unless there is no id for it. -/
theorem Rests.init (h : s.Rests) {addr : ℕ × ℕ} (hfresh : Fresh s.ledger [addr]) :
    (s.init sizeofEvent addr).Rests ∨ ∃ i, (s.init sizeofEvent addr).Runs i := by
  have hthread : ∀ w s, w.eventListLen = 0 → timerModuleEntry sizeofEvent addr w s =
      entry Lock.use sizeofMyTimerEventNode sizeofEvent [addr] w s := by
    intro w s hlen
    rw [timerModuleEntry, ← hlen]
  have hheld : s.ledger.mem.worker.heldSlot s.worker.memId = none := by
    rw [h.memId]
    exact heldSlot_invalidId
  rcases moduleInit_cases h.isRunning h.accounts hheld sizeofMyTimerEventNode_le
      (sizeofEvent_le sizeofEvent) hfresh (fun _ => Lock.use_of_inited) timerName hthread with
    ⟨r, hr, hinit⟩ | ⟨i, w', s', hinit, hrunning, hkeeps, hlen, hlock, hinited, hlt⟩
  · have hnext : s.init sizeofEvent addr =
        { s with
          up := false
          keepalive := addr.1 + sizeofMemPrefix
          handles := []
          others := s.ledger.live } := by
      simp [Timer.init, timerModuleInit, hinit, h.isRunning, h.up, hr]
    rw [hnext]
    exact .inl ⟨rfl, h.isRunning, h.inited, h.memId, h.accounts, rfl, .refl _⟩
  · have hnext : s.init sizeofEvent addr =
        ⟨w', s', true, addr.1 + sizeofMemPrefix, [], s.ledger.live⟩ := by
      simp [Timer.init, timerModuleInit, hinit, h.isRunning]
    rw [hnext]
    refine .inr ⟨i, rfl, hrunning, hinited.trans h.inited, hkeeps, hlen, ?_, hlt⟩
    show w'.lock.inited = true
    rw [hlock]
    rfl

/-! ## Adding and deleting -/

/-- What `TimerAdd` does with a loop timer. -/
theorem Runs.timerAdd_loop (h : s.Runs i) (sizeofEvent : Fin (2 ^ 31)) {addr : ℕ × ℕ}
    (hfresh : Fresh s.ledger [addr]) (cb : ℕ) :
    ∃ s', timerAdd sizeofEvent s.worker s.ledger (some cb) .loop true addr =
        (mySuccess, some (addr.1 + sizeofMemPrefix),
          link Lock.use s.worker (addr.1 + sizeofMemPrefix) (addr.2 + sizeofMemPrefix), s') ∧
      Keeps (link Lock.use s.worker (addr.1 + sizeofMemPrefix) (addr.2 + sizeofMemPrefix)) s' i
        (s.keepalive :: s.handles ++ [addr.1 + sizeofMemPrefix]) s.others ∧
      s'.reg = s.ledger.reg ∧ s'.mem.worker.inited = s.ledger.mem.worker.inited ∧
      ∀ a, a ≠ addr.1 → a ≠ addr.2 → s'.mem.heap.block a = s.ledger.mem.heap.block a := by
  obtain ⟨hne, ha, hb⟩ := hfresh.one
  obtain ⟨hretA, hretB, howns⟩ :=
    h.keeps.calloc sizeofMyTimerEventNode_le (sizeofEvent_le sizeofEvent) ha hb hne
  have hprefix : sizeofMemPrefix ≠ 0 := by decide
  refine ⟨_, ?_, h.keeps.link Lock.use howns, rfl, ?_, ?_⟩
  · simp [timerAdd, h.isRunning, hretA, hretB, hprefix]
  · exact (memCalloc_inited _ _ _ _).trans (memCalloc_inited _ _ _ _)
  · intro a ha hb
    rw [calloc_block_of_ne hb, calloc_block_of_ne ha]

/-- `TimerAdd` changes nothing, or is about a loop timer. -/
theorem Runs.add_cases (h : s.Runs i) (addr : ℕ × ℕ) (cb : Option ℕ) (timerType : MyTimerType)
    (timerHandle : Bool) :
    s.add sizeofEvent cb timerType timerHandle addr = s ∨
      ∃ c, cb = some c ∧ timerType = .loop ∧ timerHandle = true := by
  by_cases hloop : ∃ c, cb = some c ∧ timerType = .loop ∧ timerHandle = true
  · exact .inr hloop
  · refine .inl ?_
    have hsame : ∃ r, timerAdd sizeofEvent s.worker s.ledger cb timerType timerHandle addr =
        (r, none, s.worker, s.ledger) := by
      cases cb with
      | none => exact ⟨-myEinval, by simp [timerAdd]⟩
      | some c =>
          cases timerType with
          | oneTime => exact ⟨mySuccess, by simp [timerAdd, h.isRunning]⟩
          | maxUnspec => exact ⟨-myEinval, by simp [timerAdd]⟩
          | loop =>
              cases timerHandle with
              | false => exact ⟨-myEinval, by simp [timerAdd]⟩
              | true => exact absurd ⟨c, rfl, rfl, rfl⟩ hloop
    obtain ⟨r, hsame⟩ := hsame
    simp [Timer.add, hsame]

/-- A new handle is at the end. -/
theorem Runs.add_loop (h : s.Runs i) (sizeofEvent : Fin (2 ^ 31)) {addr : ℕ × ℕ}
    (hfresh : Fresh s.ledger [addr]) (cb : ℕ) :
    (s.add sizeofEvent (some cb) .loop true addr).Runs i ∧
      (s.add sizeofEvent (some cb) .loop true addr).handles =
        s.handles ++ [addr.1 + sizeofMemPrefix] ∧
      ∀ a, a ≠ addr.1 → a ≠ addr.2 →
        (s.add sizeofEvent (some cb) .loop true addr).ledger.mem.heap.block a =
          s.ledger.mem.heap.block a := by
  obtain ⟨s', hadd, hkeeps, hreg, hinited, hblock⟩ :=
    h.timerAdd_loop sizeofEvent hfresh cb
  have hnext : s.add sizeofEvent (some cb) .loop true addr =
      { s with
        worker := link Lock.use s.worker (addr.1 + sizeofMemPrefix) (addr.2 + sizeofMemPrefix)
        ledger := s'
        handles := s.handles ++ [addr.1 + sizeofMemPrefix] } := by
    simp [Timer.add, hadd]
  rw [hnext]
  refine ⟨⟨h.up, h.isRunning, hinited.trans h.inited, hkeeps, ?_, ?_, ?_⟩, rfl, hblock⟩
  · show s.worker.eventListLen + 1 = _
    rw [h.eventListLen, ← List.cons_append, List.length_append, BitVec.ofNat_add]
    rfl
  · show (Lock.use s.worker.lock).inited = true
    rw [Lock.use_of_inited h.lock]
    exact h.lock
  · show ∀ b ∈ s.others, b.slot = i → b.reg < s'.reg i
    rw [hreg]
    exact h.notMine

theorem Runs.add (h : s.Runs i) {addr : ℕ × ℕ} (hfresh : Fresh s.ledger [addr])
    (cb : Option ℕ) (timerType : MyTimerType) (timerHandle : Bool) :
    (s.add sizeofEvent cb timerType timerHandle addr).Runs i := by
  rcases h.add_cases addr cb timerType timerHandle with hsame | ⟨c, rfl, rfl, rfl⟩
  · rw [hsame]
    exact h
  · exact (h.add_loop sizeofEvent hfresh c).1

theorem Rests.add (h : s.Rests) (addr : ℕ × ℕ) (cb : Option ℕ) (timerType : MyTimerType)
    (timerHandle : Bool) : s.add sizeofEvent cb timerType timerHandle addr = s := by
  simp [Timer.add, timerAdd, h.isRunning]

/-- A variable that holds no handle any more. -/
theorem del_zero (h : 0 ∉ s.handles) : s.del (some 0) = s := by
  simp [Timer.del, timerDel, List.erase_of_not_mem h]

/-- A handle goes from wherever it is. -/
theorem Runs.del (h : s.Runs i) {node : ℕ} (hnode : node ∈ s.handles) :
    (s.del (some node)).Runs i := by
  obtain ⟨xs, ys, hxs, hsplit, herase⟩ := List.exists_erase_eq hnode
  have hkeeps : s.worker.Keeps s.ledger i ((s.keepalive :: xs) ++ node :: ys) s.others := by
    have hk := h.keeps
    rw [hsplit] at hk
    exact hk
  have hne : node ≠ 0 := by
    apply hkeeps.owns.ptr_ne_zero
    simp
  have hdel : s.del (some node) =
      { s with
        worker :=
          { s.worker with
            links := myListDelNode s.worker.links (.list node)
            eventListLen := s.worker.eventListLen - 1
            lock := s.worker.lock.use }
        ledger := (s.ledger.free s.worker.memId (s.worker.event node)).free s.worker.memId node
        handles := xs ++ ys } := by
    simp [Timer.del, timerDel, hne, herase]
  have hunlink := hkeeps.unlink
  rw [hdel]
  refine ⟨h.up, h.isRunning, ?_, ⟨hunlink.memId, hunlink.ring, hunlink.owns⟩, ?_, ?_, h.notMine⟩
  · exact ((memFree_inited _ _ _).trans (memFree_inited _ _ _)).trans h.inited
  · show s.worker.eventListLen - 1 = _
    rw [h.eventListLen, hsplit]
    simp only [List.length_cons, List.length_append]
    rw [show xs.length + (ys.length + 1) + 1 = xs.length + ys.length + 1 + 1 by omega,
      BitVec.ofNat_add _ 1]
    exact BitVec.add_sub_cancel _ _
  · show (Lock.use s.worker.lock).inited = true
    rw [Lock.use_of_inited h.lock]
    exact h.lock

/-! ## Exit -/

/-- `TimerModuleExit` succeeds, and what it leaves in memory is what others have there. -/
theorem Runs.timerModuleExit (h : s.Runs i) {rounds : ℕ} {r : ℤ × EventWorker × MemLedger}
    (hr : timerModuleExit s.worker s.ledger rounds = some r) :
    r.1 = mySuccess ∧
      Rests { s with worker := r.2.1, ledger := r.2.2, up := false, handles := [] } := by
  obtain ⟨L, s', howns, hreg, hinited, rfl⟩ := h.keeps.of_moduleExit h.isRunning hr
  have hinited' : s'.mem.worker.inited = true := hinited.trans h.inited
  have hnone : ∀ b ∈ s.others, b.slot = i → b.reg < s'.reg i := by
    rw [hreg]
    exact h.notMine
  obtain ⟨mine, hptrs, -, hlive⟩ := howns.blocks
  have hnil : mine = [] := by simpa using hptrs.length_eq
  rw [hnil, List.nil_append] at hlive
  refine ⟨howns.unRegister_success hinited' hnone, rfl, rfl, ?_, (howns.unRegister hinited').1,
    howns.accounts.unRegister _, rfl, hlive⟩
  exact (memUnRegister_inited _ _).trans hinited'

theorem Runs.exit (h : s.Runs i) {rounds : ℕ}
    (hends : (MyWorkEnv.timerModuleExit s.worker s.ledger rounds).isSome = true) :
    (s.exit rounds).Rests := by
  obtain ⟨r, hr⟩ := Option.isSome_iff_exists.mp hends
  have hnext : s.exit rounds =
      { s with worker := r.2.1, ledger := r.2.2, up := false, handles := [] } := by
    simp [Timer.exit, hr]
  rw [hnext]
  exact (h.timerModuleExit hr).2

theorem Rests.exit (h : s.Rests) (rounds : ℕ) : s.exit rounds = s := by
  have hidle : MyWorkEnv.timerModuleExit s.worker s.ledger rounds =
      some (mySuccess, s.worker, s.ledger) := by
    simp [MyWorkEnv.timerModuleExit, EventWorker.moduleExit, h.isRunning]
  simp [Timer.exit, hidle, ← h.up, ← h.handles]

/-! ## Every run -/

/-- **Each call leaves the module at rest, or up with its lists in step.** -/
theorem rests_or_runs_next {a : TimerAction} (h : s.Rests ∨ ∃ i, s.Runs i) (ha : s.Enabled a) :
    (s.next sizeofEvent a).Rests ∨ ∃ i, (s.next sizeofEvent a).Runs i := by
  rcases h with h | ⟨i, h⟩
  · cases a with
    | init addr => exact h.init ha
    | add cb timerType timerHandle addr =>
        refine .inl ?_
        rw [Timer.next, h.add]
        exact h
    | del timerHandle =>
        refine .inl ?_
        cases timerHandle with
        | none => exact h
        | some node =>
            have hnode := ha node rfl
            rw [h.handles] at hnode
            obtain rfl : node = 0 := hnode.resolve_right List.not_mem_nil
            rw [Timer.next, del_zero (by simp [h.handles])]
            exact h
    | exit rounds =>
        refine .inl ?_
        rw [Timer.next, h.exit]
        exact h
  · cases a with
    | init addr =>
        refine .inr ⟨i, ?_⟩
        rw [Timer.next, h.init]
        exact h
    | add cb timerType timerHandle addr => exact .inr ⟨i, h.add ha cb timerType timerHandle⟩
    | del timerHandle =>
        refine .inr ⟨i, ?_⟩
        cases timerHandle with
        | none => exact h
        | some node =>
            rcases ha node rfl with rfl | hnode
            · have hzero : 0 ∉ s.handles := by
                intro hmem
                exact h.keeps.owns.ptr_ne_zero (by simp [hmem]) rfl
              rw [Timer.next, del_zero hzero]
              exact h
            · exact h.del hnode
    | exit rounds => exact .inl (h.exit ha)

theorem rests_or_runs_of_reach (h : Reachable (timerSystem sizeofEvent) s) :
    s.Rests ∨ ∃ i, s.Runs i := by
  refine h.invariant (I := fun s => s.Rests ∨ ∃ i, s.Runs i) ?_ ?_
  · rintro s ⟨L, ledger, hledger, rfl⟩
    obtain ⟨hinited, haccounts⟩ := accounts_of_reach hledger
    exact .inl ⟨rfl, rfl, hinited, rfl, haccounts, rfl, .refl _⟩
  · exact fun s a hs ha _ => rests_or_runs_next hs ha

theorem toInt_ofNat_of_lt {n : ℕ} (h : n < 2 ^ 31) : (BitVec.ofNat 32 n).toInt = n := by
  have hmod : (BitVec.ofNat 32 n).toNat = n := by
    rw [BitVec.toNat_ofNat]
    omega
  rw [BitVec.toInt_eq_toNat_of_lt (by omega), hmod]

/-- **While the module is up, its list is the node of the thread and the handles that are in
use, in the order they were added, and `EventListLen` is the length of it modulo `2 ^ 32`: the
length itself below `2 ^ 31` nodes. `TimerModuleExit` succeeds, and the blocks that are out
after it are those of others; no block is freed that is not out.** -/
theorem timer_list_ledger (h : Reachable (timerSystem sizeofEvent) s) :
    s.ledger.mem.heap.fault = false ∧
    (s.up = false → s.ledger.live.Perm s.others) ∧
    (s.up = true →
      Represents s.worker.links .eventList ((s.keepalive :: s.handles).map .list) ∧
      s.worker.eventListLen = .ofNat 32 (s.keepalive :: s.handles).length ∧
      ((s.keepalive :: s.handles).length < 2 ^ 31 →
        s.worker.eventListLen.toInt = (s.keepalive :: s.handles).length) ∧
      ∀ rounds, (s.keepalive :: s.handles).length < rounds →
        ∃ worker ledger, timerModuleExit s.worker s.ledger rounds =
            some (mySuccess, worker, ledger) ∧
          ledger.mem.heap.fault = false ∧ ledger.live.Perm s.others) := by
  rcases rests_or_runs_of_reach h with hrests | ⟨i, hruns⟩
  · refine ⟨hrests.accounts.fault, fun _ => hrests.live, fun hup => ?_⟩
    rw [hrests.up] at hup
    cases hup
  · refine ⟨hruns.keeps.owns.accounts.fault, fun hup => ?_, fun _ => ?_⟩
    · rw [hruns.up] at hup
      cases hup
    · refine ⟨hruns.keeps.ring, hruns.eventListLen, fun hlt => ?_, fun rounds hrounds => ?_⟩
      · rw [hruns.eventListLen]
        exact toInt_ofNat_of_lt hlt
      · obtain ⟨L, s', -, -, -, hexit⟩ := hruns.keeps.moduleExit hruns.isRunning hrounds
        obtain ⟨hret, hrests⟩ := hruns.timerModuleExit hexit
        rw [← hret]
        exact ⟨_, _, hexit, hrests.accounts.fault, hrests.live⟩

end Timer

/-! ## Concrete runs -/

/-- The module has just been initialised, in memory that holds nothing else. -/
def freshTimer : Timer :=
  Timer.init 128 ⟨.start ⟨fun a => a, fun a => a⟩, freshLedger, false, 0, [], []⟩ (512, 768)

theorem freshTimer_reachable : Reachable (timerSystem 128) freshTimer := by
  have hledger : Reachable memLedgerSystem freshLedger := .init ⟨_, rfl, rfl, rfl, rfl⟩
  have hstart : Reachable (timerSystem 128)
      ⟨.start ⟨fun a => a, fun a => a⟩, freshLedger, false, 0, [], []⟩ :=
    .init ⟨_, _, hledger, rfl⟩
  have hfresh : (timerSystem 128).enabled
      ⟨.start ⟨fun a => a, fun a => a⟩, freshLedger, false, 0, [], []⟩ (.init (512, 768)) := by
    decide
  exact hstart.step hfresh trivial

theorem freshTimer_block {a : ℕ} (h : 1024 ≤ a) :
    freshTimer.ledger.mem.heap.block a = none := by
  have hblock : freshTimer.ledger.mem.heap.block =
      Function.update (Function.update (fun _ => none) 512 (some ⟨1, 48, false⟩)) 768
        (some ⟨1, 128, false⟩) := rfl
  rw [hblock, Function.update_of_ne (by omega), Function.update_of_ne (by omega)]

/-- Two timers are added, and the first of them is deleted. -/
def fewTimers : List TimerAction :=
  [.add (some 1) .loop true (1024, 1280), .add (some 2) .loop true (1536, 1792),
    .del (some 1032)]

theorem timer_list_ledger_run :
    ∃ s : Timer, s.up = true ∧
      Represents s.worker.links .eventList [.list 520, .list 1544] ∧
      s.worker.eventListLen.toInt = 2 ∧
      ∃ worker ledger, timerModuleExit s.worker s.ledger 3 = some (mySuccess, worker, ledger) ∧
        ledger.mem.heap.fault = false ∧ ledger.live = [] := by
  have hreach : Reachable (timerSystem 128) (exec (timerSystem 128) freshTimer fewTimers) :=
    freshTimer_reachable.exec (by decide)
  have hup : (exec (timerSystem 128) freshTimer fewTimers).up = true := by decide
  have hkeepalive : (exec (timerSystem 128) freshTimer fewTimers).keepalive = 520 := by
    decide
  have hhandles : (exec (timerSystem 128) freshTimer fewTimers).handles = [1544] := by
    decide
  have hothers : (exec (timerSystem 128) freshTimer fewTimers).others = [] := by decide
  obtain ⟨-, -, hlists⟩ := Timer.timer_list_ledger hreach
  obtain ⟨hring, -, hlen, hexit⟩ := hlists hup
  rw [hkeepalive, hhandles] at hring hlen hexit
  rw [hothers] at hexit
  obtain ⟨worker, ledger, hret, hfault, hlive⟩ := hexit 3 (by decide)
  exact ⟨_, hup, hring, hlen (by decide), worker, ledger, hret, hfault, hlive.eq_nil⟩

/-- There is a run to any number of handles. -/
theorem exists_handles (n : ℕ) :
    ∃ s i, Reachable (timerSystem 128) s ∧ s.Runs i ∧ s.handles.length = n ∧
      ∀ a, 512 * (n + 2) ≤ a → s.ledger.mem.heap.block a = none := by
  induction n with
  | zero =>
      rcases Timer.rests_or_runs_of_reach freshTimer_reachable with hrests | ⟨i, hruns⟩
      · exact absurd hrests.up (by decide)
      · exact ⟨freshTimer, i, freshTimer_reachable, hruns, rfl, fun a ha => freshTimer_block ha⟩
  | succ n ih =>
      obtain ⟨s, i, hreach, hruns, hlength, hblock⟩ := ih
      have hfresh : Fresh s.ledger [(512 * (n + 2), 512 * (n + 2) + 256)] := by
        have ha := hblock (512 * (n + 2)) (le_refl _)
        have hb := hblock (512 * (n + 2) + 256) (Nat.le_add_right _ _)
        simp [Fresh, ha, hb]
      have hadd : (timerSystem 128).enabled s
          (.add (some 1) .loop true (512 * (n + 2), 512 * (n + 2) + 256)) := hfresh
      have hnext : Reachable (timerSystem 128)
          (s.add 128 (some 1) .loop true (512 * (n + 2), 512 * (n + 2) + 256)) :=
        hreach.step hadd trivial
      obtain ⟨hruns', hhandles, hsame⟩ := hruns.add_loop 128 hfresh 1
      refine ⟨_, i, hnext, hruns', ?_, ?_⟩
      · rw [hhandles, List.length_append, hlength]
        rfl
      · intro a ha
        rw [hsame a (by simp only; omega) (by simp only; omega)]
        exact hblock a (by omega)

/-- At `2 ^ 31` nodes `EventListLen` is no length. -/
theorem eventListLen_negative :
    ∃ s : Timer, Reachable (timerSystem 128) s ∧ s.up = true ∧
      Represents s.worker.links .eventList ((s.keepalive :: s.handles).map .list) ∧
      s.worker.eventListLen.toInt = -2147483648 ∧
      (s.keepalive :: s.handles).length = 2147483648 := by
  obtain ⟨s, i, hreach, hruns, hlength, -⟩ := exists_handles 2147483647
  have hnodes : (s.keepalive :: s.handles).length = 2147483648 := by
    rw [List.length_cons, hlength]
  refine ⟨s, hreach, hruns.up, hruns.keeps.ring, ?_, hnodes⟩
  rw [hruns.eventListLen, hnodes]
  decide

end MyWorkEnv
