import MyWorkEnv.MyUtils.ForEach
import MyWorkEnv.MyUtils.Mem.Owns

/-!
# Event workers

The Timer and the Health module are built alike. A thread dispatches the events
of `EventList`; a node of the list and its event are two blocks of the module's
own memory id. `Init` registers the id and creates the thread, which adds nodes
of its own before it sets `IsRunning`; `Exit` frees all nodes while it walks the
list, and unregisters the id. What both do is stated here once.

`Keeps` is the invariant: the ring runs through `nodes`, and these and their
events are the blocks the module owns.
-/

namespace MyWorkEnv

open LinkedRing MemLedger

/-- A `pthread_mutex_t` or `pthread_spinlock_t`. `misuses` counts how often it was used or
destroyed while it was not initialised. -/
structure Lock where
  inited : Bool
  misuses : ℕ
deriving DecidableEq

namespace Lock

/-- As it is declared. -/
def start : Lock := ⟨false, 0⟩

def init (l : Lock) : Lock := { l with inited := true }

def use (l : Lock) : Lock := if l.inited then l else { l with misuses := l.misuses + 1 }

def destroy (l : Lock) : Lock := { l.use with inited := false }

theorem use_of_inited {l : Lock} (h : l.inited = true) : l.use = l := by
  rw [use, if_pos h]

end Lock

/-- The `MY_LIST_NODE`s: the head in the worker, and the one in the node at `ptr`. -/
inductive EventLink where
  | eventList
  | list (ptr : ℕ)
deriving DecidableEq

/-- `MY_TIMER_WORKER` and `MY_HEALTH_MONITOR`, the `Event`s of the nodes, and the memory id. -/
structure EventWorker where
  isRunning : Bool
  links : Links EventLink
  event : ℕ → ℕ
  eventListLen : BitVec 32
  lock : Lock
  memId : ℤ

namespace EventWorker

/-- As it is declared; `L` is what memory held before. -/
def start (L : Links EventLink) : EventWorker :=
  ⟨false, L, fun _ => 0, 0, .start, myMemModuleInvalidId⟩

/-! ## What both modules do -/

/-- `Init` up to `pthread_create`, which returns `created`. -/
def create (w : EventWorker) (s : MemLedger) (name : List UInt8) (created : ℤ) :
    ℤ × EventWorker × MemLedger :=
  let r := s.register w.memId (some name)
  if r.1 ≠ mySuccess then (r.1, { w with memId := r.2.2 }, r.2.1)
  else
    (created,
      { w with
        memId := r.2.2
        lock := w.lock.init
        links := myListNodeInit w.links .eventList
        eventListLen := 0 },
      r.2.1)

/-- A node with its event, at the end of the list. `hold` is `Lock.use` where the lock is held
meanwhile. -/
def link (hold : Lock → Lock) (w : EventWorker) (node event : ℕ) : EventWorker :=
  { w with
    event := Function.update w.event node event
    links := myListAddTail w.links (.list node) .eventList
    eventListLen := w.eventListLen + 1
    lock := hold w.lock }

/-- The nodes that the thread adds before it sets `IsRunning`, and whether it gets there. Each
comes with what `calloc` gives for it and for its event. -/
def addOwn (hold : Lock → Lock) (sizeofNode sizeofEvent : ℕ) :
    List (ℕ × ℕ) → EventWorker → MemLedger → Bool × EventWorker × MemLedger
  | [], w, s => (true, w, s)
  | (node, event) :: rest, w, s =>
      let r := s.calloc w.memId sizeofNode node
      if r.1 = 0 then (false, w, r.2)
      else
        let q := r.2.calloc w.memId sizeofEvent event
        if q.1 = 0 then
          (false, { w with event := Function.update w.event r.1 0 }, q.2.free w.memId r.1)
        else addOwn hold sizeofNode sizeofEvent rest (link hold w r.1 q.1) q.2

/-- What the thread does up to `event_base_dispatch`, or to its end. -/
def entry (hold : Lock → Lock) (sizeofNode sizeofEvent : ℕ) (addrs : List (ℕ × ℕ))
    (w : EventWorker) (s : MemLedger) : EventWorker × MemLedger :=
  let r := addOwn hold sizeofNode sizeofEvent addrs w s
  ({ r.2.1 with isRunning := r.1 }, r.2.2)

/-- The walk of `Exit` over the list, which frees the nodes as it goes. The test of the loop
fails for `NULL` and for the head; `none` is for a walk that goes on after so many rounds. -/
def freeEach : ℕ → Option EventLink × Option EventLink → EventWorker → MemLedger →
    Option (EventWorker × MemLedger)
  | 0, _, _, _ => none
  | rounds + 1, (loop, tmp), w, s =>
      match myListForEachTest .eventList loop with
      | some (.list ptr) =>
          let w' := { w with links := myListDelNode w.links (.list ptr) }
          let s' := (s.free w.memId (w.event ptr)).free w.memId ptr
          freeEach rounds (myListForEachStep w'.links tmp) w' s'
      | _ => some (w, s)

/-- The section of `Exit` that holds the lock. -/
def freeList (w : EventWorker) (s : MemLedger) (rounds : ℕ) :
    Option (EventWorker × MemLedger) :=
  let w := { w with eventListLen := 0, lock := w.lock.use }
  if myListIsEmpty w.links .eventList then some (w, s)
  else freeEach rounds (myListForEachInit w.links .eventList) w s

/-- What `Exit` does after it has joined the thread. -/
def exitJoined (w : EventWorker) (s : MemLedger) : ℤ × EventWorker × MemLedger :=
  let r := s.unRegister w.memId
  (r.1, { w with lock := w.lock.destroy, memId := r.2.2 }, r.2.1)

/-- `Exit`. The thread clears `IsRunning` before it can be joined. -/
def moduleExit (w : EventWorker) (s : MemLedger) (rounds : ℕ) :
    Option (ℤ × EventWorker × MemLedger) :=
  if w.isRunning then
    (w.freeList s rounds).map fun r => exitJoined { r.1 with isRunning := false } r.2
  else some (mySuccess, w, s)

/-- `Init`, where the thread runs, or has ended, before it returns. -/
def moduleInit (w : EventWorker) (s : MemLedger) (name : List UInt8) (created : ℤ)
    (entry : EventWorker → MemLedger → EventWorker × MemLedger) : ℤ × EventWorker × MemLedger :=
  if w.isRunning then (mySuccess, w, s)
  else
    let r := w.create s name created
    if r.1 ≠ mySuccess then r else (r.1, entry r.2.1 r.2.2)

/-! ## The invariant -/

/-- The nodes in the list, and the blocks they and their events are in. -/
structure Keeps (w : EventWorker) (s : MemLedger) (i : Fin myMemModuleMaxNum) (nodes : List ℕ)
    (others : List LiveBlock) : Prop where
  memId : w.memId = (i : ℕ)
  ring : Represents w.links .eventList (nodes.map .list)
  owns : s.Owns i (nodes ++ nodes.map w.event) others

variable {w : EventWorker} {s : MemLedger} {i : Fin myMemModuleMaxNum} {nodes : List ℕ}
  {others : List LiveBlock} {hold : Lock → Lock} {sizeofNode sizeofEvent node event : ℕ}

theorem Keeps.of_owns (hid : w.memId = (i : ℕ)) (h : s.Owns i [] others) {L : Links EventLink}
    (hlinks : w.links = myListNodeInit L .eventList) : w.Keeps s i [] others := by
  refine ⟨hid, ?_, h⟩
  rw [hlinks]
  exact myListNodeInit_represents _ _

theorem notMem_ring (h : node ∉ nodes) :
    EventLink.list node ∉ EventLink.eventList :: nodes.map .list := by
  simpa using h

theorem link_ring (hr : Represents w.links .eventList (nodes.map .list)) (hfresh : node ∉ nodes)
    (hold : Lock → Lock) :
    Represents (link hold w node event).links .eventList ((nodes ++ [node]).map .list) := by
  rw [List.map_append]
  exact myListAddTail_represents hr (notMem_ring hfresh)

/-- A new node comes with its event, and the others keep theirs. -/
theorem link_blocks (hfresh : node ∉ nodes) (hold : Lock → Lock) :
    (nodes ++ [node] ++ (nodes ++ [node]).map (link hold w node event).event).Perm
      (event :: node :: (nodes ++ nodes.map w.event)) := by
  have hevents : nodes.map (Function.update w.event node event) = nodes.map w.event := by
    apply List.map_congr_left
    intro n hn
    rw [Function.update_of_ne]
    rintro rfl
    exact hfresh hn
  show (nodes ++ [node] ++ (nodes ++ [node]).map (Function.update w.event node event)).Perm _
  rw [List.map_append, hevents, List.map_singleton, Function.update_self]
  rw [List.perm_iff_count]
  intro a
  simp only [List.count_cons, List.count_append, List.count_nil]
  omega

/-- A node goes to the end of the list with the two blocks it consists of. -/
theorem Keeps.link (h : w.Keeps s i nodes others) (hold : Lock → Lock) {s' : MemLedger}
    (howns : s'.Owns i (event :: node :: (nodes ++ nodes.map w.event)) others) :
    (link hold w node event).Keeps s' i (nodes ++ [node]) others := by
  have hfresh : node ∉ nodes := by
    intro hmem
    have hnodup := (List.nodup_cons.mp howns.nodup).2
    exact (List.nodup_cons.mp hnodup).1 (List.mem_append_left _ hmem)
  exact ⟨h.memId, link_ring h.ring hfresh hold, howns.perm (link_blocks hfresh hold).symm⟩

theorem unlink_ring {xs ys : List ℕ}
    (hr : Represents w.links .eventList ((xs ++ node :: ys).map .list)) :
    Represents (myListDelNode w.links (.list node)) .eventList ((xs ++ ys).map .list) := by
  rw [List.map_append, List.map_cons] at hr
  rw [List.map_append]
  exact myListDelNode_represents hr

theorem unlink_blocks {xs ys : List ℕ} :
    (xs ++ node :: ys ++ (xs ++ node :: ys).map w.event).Perm
      (w.event node :: node :: (xs ++ ys ++ (xs ++ ys).map w.event)) := by
  rw [List.perm_iff_count]
  intro a
  simp only [List.count_cons, List.count_append, List.map_append, List.map_cons]
  omega

/-- What `Exit` frees at a node of the list: its event and the node. -/
def freeNode (w : EventWorker) (s : MemLedger) : EventLink → MemLedger
  | .eventList => s
  | .list ptr => (s.free w.memId (w.event ptr)).free w.memId ptr

theorem owns_freeNode (hid : w.memId = (i : ℕ)) {xs ys : List ℕ}
    (h : s.Owns i (xs ++ node :: ys ++ (xs ++ node :: ys).map w.event) others) :
    (w.freeNode s (.list node)).Owns i (xs ++ ys ++ (xs ++ ys).map w.event) others := by
  rw [freeNode, hid]
  exact (h.perm unlink_blocks).free.free

/-- A node leaves the list, and both its blocks are freed. -/
theorem Keeps.unlink {xs ys : List ℕ} (h : w.Keeps s i (xs ++ node :: ys) others) :
    Keeps { w with links := myListDelNode w.links (.list node) }
      ((s.free w.memId (w.event node)).free w.memId node) i (xs ++ ys) others :=
  ⟨h.memId, unlink_ring h.ring, owns_freeNode h.memId h.owns⟩

/-! ## The operations keep it -/

/-- Both blocks of a new node, where `calloc` gives two that are not out. -/
theorem Keeps.calloc (h : w.Keeps s i nodes others) (hnode : sizeofNode ≤ 0x7fffffff)
    (hevent : sizeofEvent ≤ 0x7fffffff) {a b : ℕ} (ha : s.mem.heap.block a = none)
    (hb : s.mem.heap.block b = none) (hne : b ≠ a) :
    (s.calloc w.memId sizeofNode a).1 = a + sizeofMemPrefix ∧
      ((s.calloc w.memId sizeofNode a).2.calloc w.memId sizeofEvent b).1 =
        b + sizeofMemPrefix ∧
      ((s.calloc w.memId sizeofNode a).2.calloc w.memId sizeofEvent b).2.Owns i
        ((b + sizeofMemPrefix) :: (a + sizeofMemPrefix) :: (nodes ++ nodes.map w.event))
        others := by
  rw [h.memId]
  obtain ⟨hretA, hownsA⟩ := h.owns.calloc hnode ha
  have hb' : (s.calloc (i : ℕ) sizeofNode a).2.mem.heap.block b = none := by
    rw [calloc_block_of_ne hne]
    exact hb
  obtain ⟨hretB, hownsB⟩ := hownsA.calloc hevent hb'
  exact ⟨hretA, hretB, hownsB⟩

/-- What `calloc` gives for nodes and their events: all new, and all different. -/
def Fresh (s : MemLedger) (addrs : List (ℕ × ℕ)) : Prop :=
  (addrs.flatMap fun p => [p.1, p.2]).Nodup ∧
    ∀ a ∈ addrs.flatMap fun p => [p.1, p.2], s.mem.heap.block a = none

instance (s : MemLedger) (addrs : List (ℕ × ℕ)) : Decidable (Fresh s addrs) :=
  inferInstanceAs (Decidable (_ ∧ _))

/-- The first two are new, and what is left stays so when they are taken. -/
theorem Fresh.of_cons {a b : ℕ} {addrs : List (ℕ × ℕ)} (h : Fresh s ((a, b) :: addrs)) :
    (b ≠ a ∧ s.mem.heap.block a = none ∧ s.mem.heap.block b = none) ∧
      ∀ (memId : ℤ) (size size' : ℕ),
        Fresh ((s.calloc memId size a).2.calloc memId size' b).2 addrs := by
  obtain ⟨hnodup, hnone⟩ := h
  simp only [List.flatMap_cons, List.cons_append, List.nil_append, List.nodup_cons,
    List.mem_cons, not_or] at hnodup hnone
  obtain ⟨⟨hab, ha⟩, hb, hnodup⟩ := hnodup
  refine ⟨⟨Ne.symm hab, hnone a (.inl rfl), hnone b (.inr (.inl rfl))⟩, fun _ _ _ => ?_⟩
  refine ⟨hnodup, fun c hc => ?_⟩
  have hca : c ≠ a := fun heq => ha (heq ▸ hc)
  have hcb : c ≠ b := fun heq => hb (heq ▸ hc)
  rw [calloc_block_of_ne hcb, calloc_block_of_ne hca]
  exact hnone c (.inr (.inr hc))

theorem Fresh.one {a b : ℕ} (h : Fresh s [(a, b)]) :
    b ≠ a ∧ s.mem.heap.block a = none ∧ s.mem.heap.block b = none :=
  h.of_cons.1

/-- The nodes of the thread, one after the other. -/
theorem Keeps.addOwn (hnode : sizeofNode ≤ 0x7fffffff) (hevent : sizeofEvent ≤ 0x7fffffff)
    {addrs : List (ℕ × ℕ)} (h : w.Keeps s i nodes others) (hhold : hold w.lock = w.lock)
    (hfresh : Fresh s addrs) :
    ∃ w' s', EventWorker.addOwn hold sizeofNode sizeofEvent addrs w s = (true, w', s') ∧
      w'.Keeps s' i (nodes ++ addrs.map fun p => p.1 + sizeofMemPrefix) others ∧
      w'.eventListLen = w.eventListLen + .ofNat 32 addrs.length ∧
      w'.isRunning = w.isRunning ∧ w'.lock = w.lock ∧
      s'.reg = s.reg ∧ s'.mem.worker.inited = s.mem.worker.inited := by
  induction addrs generalizing w s nodes with
  | nil => exact ⟨w, s, rfl, by simpa using h, by simp, rfl, rfl, rfl, rfl⟩
  | cons p addrs ih =>
      obtain ⟨a, b⟩ := p
      obtain ⟨⟨hne, ha, hb⟩, hlater⟩ := hfresh.of_cons
      obtain ⟨hretA, hretB, howns⟩ := h.calloc hnode hevent ha hb hne
      have hzero : ∀ addr, addr + sizeofMemPrefix ≠ 0 := fun addr => Nat.succ_ne_zero _
      have hlink := h.link hold howns
      have hlock : hold (hold w.lock) = hold w.lock := by rw [hhold, hhold]
      obtain ⟨w', s', heq, hkeeps, hlen, hrunning, hlock', hreg, hinited⟩ :=
        ih hlink hlock (hlater w.memId sizeofNode sizeofEvent)
      refine ⟨w', s', ?_, ?_, ?_, hrunning, hlock'.trans hhold, hreg, ?_⟩
      · simp only [EventWorker.addOwn, hretA, hretB, if_neg (hzero _), heq]
      · simpa using hkeeps
      · rw [hlen]
        show w.eventListLen + 1 + .ofNat 32 addrs.length = _
        rw [List.length_cons, Nat.add_comm, BitVec.ofNat_add, BitVec.add_assoc]
        rfl
      · rw [hinited]
        exact (memCalloc_inited _ _ _ _).trans (memCalloc_inited _ _ _ _)

/-! ## Init -/

/-- Either there is no id for the module, and all stays as it is, or it has a new one. -/
theorem create_cases (haccounts : s.Accounts)
    (hheld : s.mem.worker.heldSlot w.memId = none) (name : List UInt8) (created : ℤ) :
    (∃ r, r ≠ mySuccess ∧ w.create s name created = (r, w, s)) ∨
    ∃ (i : Fin myMemModuleMaxNum) (w' : EventWorker) (s' : MemLedger),
      w.create s name created = (created, w', s') ∧ w'.Keeps s' i [] s.live ∧
      w'.eventListLen = 0 ∧ w'.isRunning = w.isRunning ∧ w'.lock = w.lock.init ∧
      s'.mem.heap = s.mem.heap ∧
      s'.mem.worker.inited = s.mem.worker.inited ∧ ∀ b ∈ s.live, b.slot = i → b.reg < s'.reg i := by
  by_cases hret : (s.register w.memId (some name)).1 = mySuccess
  · obtain ⟨i, hi, howns, -, hlt⟩ := Owns.of_register haccounts hheld hret
    have hcreate : w.create s name created =
        (created, ⟨w.isRunning, myListNodeInit w.links .eventList, w.event, 0, w.lock.init,
          (s.register w.memId (some name)).2.2⟩, (s.register w.memId (some name)).2.1) := by
      simp [create, hret]
    exact .inr ⟨i, _, _, hcreate, .of_owns hi howns rfl, rfl, rfl, rfl, rfl,
      memRegister_inited _ _ _, hlt⟩
  · rcases memRegister_cases s.mem.worker w.memId (some name) with
      ⟨hsame, -⟩ | ⟨i, text, -, -, -, hnew⟩
    · refine .inl ⟨(s.register w.memId (some name)).1, hret, ?_⟩
      simp [create, hret]
      simp [MemLedger.register, hsame]
    · exact absurd (congrArg Prod.fst hnew) hret

/-- **`Init` of a module that rests**, where the thread comes to run before `Init` returns. -/
theorem moduleInit_cases (hrunning : w.isRunning = false) (haccounts : s.Accounts)
    (hheld : s.mem.worker.heldSlot w.memId = none) (hnode : sizeofNode ≤ 0x7fffffff)
    (hevent : sizeofEvent ≤ 0x7fffffff) {addrs : List (ℕ × ℕ)} (hfresh : Fresh s addrs)
    (hhold : ∀ l : Lock, l.inited = true → hold l = l) (name : List UInt8)
    {thread : EventWorker → MemLedger → EventWorker × MemLedger}
    (hthread : ∀ w s, w.eventListLen = 0 →
      thread w s = entry hold sizeofNode sizeofEvent addrs w s) :
    (∃ r, r ≠ mySuccess ∧ w.moduleInit s name 0 thread = (r, w, s)) ∨
    ∃ (i : Fin myMemModuleMaxNum) (w' : EventWorker) (s' : MemLedger),
      w.moduleInit s name 0 thread = (mySuccess, w', s') ∧ w'.isRunning = true ∧
      w'.Keeps s' i (addrs.map fun p => p.1 + sizeofMemPrefix) s.live ∧
      w'.eventListLen = .ofNat 32 addrs.length ∧ w'.lock = w.lock.init ∧
      s'.mem.worker.inited = s.mem.worker.inited ∧
      ∀ b ∈ s.live, b.slot = i → b.reg < s'.reg i := by
  rcases create_cases haccounts hheld name 0 with
    ⟨r, hr, hcreate⟩ | ⟨i, w₁, s₁, hcreate, hkeeps, hlen₁, -, hlock₁, hheap, hinited, hlt⟩
  · refine .inl ⟨r, hr, ?_⟩
    simp [EventWorker.moduleInit, hrunning, hcreate, hr]
  · have hfresh' : Fresh s₁ addrs := by
      refine ⟨hfresh.1, ?_⟩
      rw [hheap]
      exact hfresh.2
    have hhold₁ : hold w₁.lock = w₁.lock := by
      apply hhold
      rw [hlock₁]
      rfl
    obtain ⟨w', s', hadd, hkeeps', hlen, -, hlock, hreg, hinited'⟩ :=
      hkeeps.addOwn hnode hevent hhold₁ hfresh'
    refine .inr ⟨i, { w' with isRunning := true }, s', ?_, rfl, ?_, ?_, hlock.trans hlock₁,
      hinited'.trans hinited, ?_⟩
    · simp only [EventWorker.moduleInit, hrunning, hcreate, hthread w₁ s₁ hlen₁, entry, hadd]
      rfl
    · exact ⟨hkeeps'.memId, hkeeps'.ring, hkeeps'.owns⟩
    · rw [hlen, hlen₁]
      exact BitVec.zero_add _
    · rw [hreg]
      exact hlt

/-! ## Exit -/

/-- The entry a walk comes to from in front of `nodes`. -/
def ahead : List ℕ → EventLink
  | [] => .eventList
  | n :: _ => .list n

theorem ahead_eq (nodes : List ℕ) :
    ahead nodes = (nodes.map EventLink.list ++ [EventLink.eventList]).head (by simp) := by
  cases nodes <;> rfl

/-- **The walk of `Exit` is `MY_LIST_FOR_EACH`** over a body that removes every node. -/
theorem freeEach_eq {rounds : ℕ} {at' : Option EventLink × Option EventLink} :
    EventWorker.freeEach rounds at' w s =
      (forEachLoop .untouched .eventList (fun _ => true) rounds at' w.links).map fun r =>
        ({ w with links := r.links }, r.visited.foldl w.freeNode s) := by
  induction rounds generalizing at' w s with
  | zero => rfl
  | succ rounds ih =>
      obtain ⟨loop, tmp⟩ := at'
      rw [EventWorker.freeEach, forEachLoop]
      cases htest : myListForEachTest .eventList loop with
      | none => rfl
      | some node =>
          cases node with
          | eventList =>
              -- the test does not let the head through
              have hne := (Option.filter_eq_some_iff.mp htest).2
              simp at hne
          | list ptr =>
              simp only [Option.map_map]
              exact ih

/-- All blocks of the nodes are freed. -/
theorem owns_freeNodes (hid : w.memId = (i : ℕ))
    (h : s.Owns i (nodes ++ nodes.map w.event) others) :
    ((nodes.map EventLink.list).foldl w.freeNode s).Owns i [] others := by
  induction nodes generalizing s with
  | nil => exact h
  | cons n nodes ih =>
      have h' : s.Owns i ([] ++ n :: nodes ++ ([] ++ n :: nodes).map w.event) others := h
      exact ih (owns_freeNode hid h')

/-- No slot is taken or given back at a node. -/
theorem freeNodes_worker (visited : List EventLink) :
    (visited.foldl w.freeNode s).reg = s.reg ∧
      (visited.foldl w.freeNode s).mem.worker.inited = s.mem.worker.inited ∧
      (∀ j, ((visited.foldl w.freeNode s).mem.worker.nodes j).registered =
        (s.mem.worker.nodes j).registered) ∧
      (visited.foldl w.freeNode s).mem.worker.mainModId = s.mem.worker.mainModId := by
  induction visited generalizing s with
  | nil => exact ⟨rfl, rfl, fun _ => rfl, rfl⟩
  | cons node visited ih =>
      obtain ⟨hreg, hinited, hregistered, hmain⟩ := ih (s := w.freeNode s node)
      rw [List.foldl_cons, hreg, hinited, hmain]
      cases node with
      | eventList => exact ⟨rfl, rfl, hregistered, rfl⟩
      | list ptr =>
          refine ⟨rfl, (memFree_inited _ _ _).trans (memFree_inited _ _ _), fun j => ?_, ?_⟩
          · rw [hregistered, freeNode, registered_free, registered_free]
          · rw [freeNode, mainModId_free, mainModId_free]

/-- The walk of `Exit` frees everything, and ends. Its `tmp` is the entry behind the node it
stands at, taken before that node is unlinked. -/
theorem Keeps.freeEach (h : w.Keeps s i nodes others) {tmp : Option EventLink}
    (htmp : ∀ n rest, nodes = n :: rest → tmp = some (ahead rest))
    {rounds : ℕ} (hrounds : nodes.length < rounds) :
    ∃ L s', EventWorker.freeEach rounds (some (ahead nodes), tmp) w s =
        some ({ w with links := L }, s') ∧
      Keeps { w with links := L } s' i [] others ∧
      s'.reg = s.reg ∧ s'.mem.worker.inited = s.mem.worker.inited := by
  have hring : Represents w.links .eventList ([] ++ nodes.map EventLink.list) := h.ring
  have htmp' : ∀ n ys', nodes.map EventLink.list = n :: ys' →
      tmp = some (frontOf .eventList ys') := by
    intro n ys' hcons
    obtain ⟨n, rest, hnodes, rfl, rfl⟩ := List.map_eq_cons_iff.mp hcons
    rw [htmp n rest hnodes, ahead_eq]
    rfl
  obtain ⟨r, heq, hvisited, hrest, -⟩ :=
    forEachLoop_represents .untouched (fun _ => true) hring htmp' (by rwa [List.length_map])
  obtain ⟨hreg, hinited, -⟩ := freeNodes_worker (w := w) (s := s) (nodes.map .list)
  refine ⟨r.links, (nodes.map EventLink.list).foldl w.freeNode s, ?_, ⟨h.memId, ?_, ?_⟩, hreg,
    hinited⟩
  · rw [ahead_eq, freeEach_eq]
    rw [frontOf] at heq
    rw [heq, Option.map_some, hvisited]
  · simpa using hrest
  · exact owns_freeNodes h.memId h.owns

theorem Keeps.freeList (h : w.Keeps s i nodes others) {rounds : ℕ}
    (hrounds : nodes.length < rounds) :
    ∃ L s', w.freeList s rounds =
        some ({ w with links := L, eventListLen := 0, lock := w.lock.use }, s') ∧
      Represents L .eventList [] ∧ s'.Owns i [] others ∧ s'.reg = s.reg ∧
      s'.mem.worker.inited = s.mem.worker.inited := by
  have hkeeps : Keeps { w with eventListLen := 0, lock := w.lock.use } s i nodes others :=
    ⟨h.memId, h.ring, h.owns⟩
  cases hnodes : nodes with
  | nil =>
      rw [hnodes] at h
      have hempty : myListIsEmpty w.links .eventList = true :=
        (myListIsEmpty_iff h.ring).mpr rfl
      refine ⟨w.links, s, ?_, h.ring, h.owns, rfl, rfl⟩
      simp [EventWorker.freeList, hempty]
  | cons n rest =>
      rw [hnodes] at hkeeps hrounds
      have hring : Represents w.links .eventList (EventLink.list n :: rest.map .list) :=
        hkeeps.ring
      have hempty : myListIsEmpty w.links .eventList = false := by
        rw [Bool.eq_false_iff, ne_eq, myListIsEmpty_iff hring]
        simp
      have htmp : ∀ n' rest', n :: rest = n' :: rest' →
          some (ahead rest) = some (ahead rest') := by
        rintro n' rest' hcons
        cases hcons
        rfl
      obtain ⟨L, s', heq, hkeeps', hreg, hinited⟩ := hkeeps.freeEach htmp hrounds
      refine ⟨L, s', ?_, hkeeps'.ring, hkeeps'.owns, hreg, hinited⟩
      simp only [EventWorker.freeList, hempty, Bool.false_eq_true, if_false]
      rw [myListForEachInit_cons hring, ← ahead_eq rest]
      exact heq

/-- **`Exit` returns what `MemUnRegister` says once all nodes and events are freed.** -/
theorem Keeps.moduleExit (h : w.Keeps s i nodes others) (hrunning : w.isRunning = true)
    {rounds : ℕ} (hrounds : nodes.length < rounds) :
    ∃ L s', s'.Owns i [] others ∧ s'.reg = s.reg ∧
      s'.mem.worker.inited = s.mem.worker.inited ∧
      w.moduleExit s rounds =
        some (exitJoined ⟨false, L, w.event, 0, w.lock.use, (i : ℕ)⟩ s') := by
  obtain ⟨L, s', heq, -, howns, hreg, hinited⟩ := h.freeList hrounds
  refine ⟨L, s', howns, hreg, hinited, ?_⟩
  simp only [EventWorker.moduleExit, hrunning, if_true, heq, Option.map_some, h.memId]

/-- More rounds than a walk needs change nothing. -/
theorem freeEach_mono {rounds more : ℕ} (hle : rounds ≤ more)
    {at' : Option EventLink × Option EventLink} {r : EventWorker × MemLedger}
    (h : EventWorker.freeEach rounds at' w s = some r) :
    EventWorker.freeEach more at' w s = some r := by
  rw [freeEach_eq, Option.map_eq_some_iff] at h ⊢
  obtain ⟨r', hr', rfl⟩ := h
  exact ⟨r', forEachLoop_mono hr' hle, rfl⟩

theorem freeList_mono {rounds more : ℕ} (hle : rounds ≤ more) {r : EventWorker × MemLedger}
    (h : w.freeList s rounds = some r) : w.freeList s more = some r := by
  simp only [EventWorker.freeList] at h ⊢
  split_ifs at h ⊢
  · exact h
  · exact freeEach_mono hle h

/-- No slot is taken or given back by the walk. -/
theorem freeEach_worker {rounds : ℕ} {at' : Option EventLink × Option EventLink}
    {r : EventWorker × MemLedger} (h : EventWorker.freeEach rounds at' w s = some r) :
    (∀ j, (r.2.mem.worker.nodes j).registered = (s.mem.worker.nodes j).registered) ∧
      r.2.mem.worker.mainModId = s.mem.worker.mainModId ∧ r.1.memId = w.memId := by
  rw [freeEach_eq, Option.map_eq_some_iff] at h
  obtain ⟨r', -, rfl⟩ := h
  obtain ⟨-, -, hregistered, hmain⟩ := freeNodes_worker (w := w) (s := s) r'.visited
  exact ⟨hregistered, hmain, rfl⟩

theorem freeList_worker {rounds : ℕ} {r : EventWorker × MemLedger}
    (h : w.freeList s rounds = some r) :
    (∀ j, (r.2.mem.worker.nodes j).registered = (s.mem.worker.nodes j).registered) ∧
      r.2.mem.worker.mainModId = s.mem.worker.mainModId ∧ r.1.memId = w.memId := by
  simp only [EventWorker.freeList] at h
  split_ifs at h
  · cases h
    exact ⟨fun _ => rfl, rfl, rfl⟩
  · obtain ⟨hregistered, hmain, hmemId⟩ := freeEach_worker h
    exact ⟨hregistered, hmain, hmemId⟩

/-- `Exit` ends with `MemUnRegister`, after the walk. -/
theorem moduleExit_eq_unRegister (hrunning : w.isRunning = true) {rounds : ℕ}
    {r : ℤ × EventWorker × MemLedger} (hr : w.moduleExit s rounds = some r) :
    ∃ q, w.freeList s rounds = some q ∧ r.1 = (q.2.unRegister w.memId).1 ∧
      r.2.2 = (q.2.unRegister w.memId).2.1 := by
  rw [EventWorker.moduleExit, if_pos hrunning] at hr
  obtain ⟨q, hq, rfl⟩ := Option.map_eq_some_iff.mp hr
  refine ⟨q, hq, ?_, ?_⟩
  all_goals
    simp only [exitJoined, (freeList_worker hq).2.2]

theorem Keeps.of_freeList (h : w.Keeps s i nodes others) {rounds : ℕ}
    {r : EventWorker × MemLedger} (hr : w.freeList s rounds = some r) :
    ∃ L s', r = ({ w with links := L, eventListLen := 0, lock := w.lock.use }, s') ∧
      Represents L .eventList [] ∧ s'.Owns i [] others ∧ s'.reg = s.reg ∧
      s'.mem.worker.inited = s.mem.worker.inited := by
  obtain ⟨L, s', heq, hspec⟩ :=
    h.freeList (Nat.lt_succ_of_le (Nat.le_max_left nodes.length rounds))
  rw [freeList_mono (Nat.le_succ_of_le (Nat.le_max_right nodes.length rounds)) hr] at heq
  exact ⟨L, s', Option.some.inj heq, hspec⟩

theorem Keeps.of_moduleExit (h : w.Keeps s i nodes others) (hrunning : w.isRunning = true)
    {rounds : ℕ} {r : ℤ × EventWorker × MemLedger} (hr : w.moduleExit s rounds = some r) :
    ∃ L s', s'.Owns i [] others ∧ s'.reg = s.reg ∧
      s'.mem.worker.inited = s.mem.worker.inited ∧
      r = exitJoined ⟨false, L, w.event, 0, w.lock.use, (i : ℕ)⟩ s' := by
  rw [EventWorker.moduleExit, hrunning, if_pos rfl] at hr
  obtain ⟨r', hr', rfl⟩ := Option.map_eq_some_iff.mp hr
  obtain ⟨L, s', rfl, -, howns, hreg, hinited⟩ := h.of_freeList hr'
  refine ⟨L, s', howns, hreg, hinited, ?_⟩
  rw [h.memId]

end EventWorker

end MyWorkEnv
