import MyWorkEnv.Lib.Transition
import MyWorkEnv.MyUtils.ForEach
import MyWorkEnv.Server.ServerClientMap

/-!
# The client map as a list of fds

The abstract map is a list of fds, or none while the map is not initialised. It
has no nodes and no pointers. The calls on one map, in any order, keep the linked
list in step with it (`clientMap_refines`), and what `MyCalloc` gave out is what
the list runs through, so that `ServerClientMapExit` gives all of it back.
-/

namespace MyWorkEnv

open Custody LinkedRing Transition

/-- The first element with a value stands where the value occurs first. -/
theorem find?_eq_getElem?_idxOf {β : Type} (f : β → ℤ) (xs : List β) (v : ℤ) :
    (xs.find? fun x => v = f x) = xs[(xs.map f).idxOf v]? := by
  induction xs with
  | nil => rfl
  | cons x xs ih =>
      rw [List.map_cons, List.find?_cons, List.idxOf_cons]
      by_cases hv : v = f x
      · simp [hv]
      · have hbeq : (f x == v) = false := beq_eq_false_iff_ne.mpr (Ne.symm hv)
        simp [hv, hbeq, ih]

variable {α : Type} [DecidableEq α]

/-- `ServerClientMapExit`, with its accesses to the nodes. -/
def serverClientMapExit (m : ServerClientMap α) (rounds : ℕ) :
    Option (ServerClientMap α × List (Access α)) :=
  if m.inited then
    (myListForEach .untouched m.head (fun _ => true) rounds m.links).map fun r =>
      ({ m with inited := false, links := r.links }, r.trace)
  else some (m, [])

/-- The node that `ServerClientMapDelByFd` frees. -/
def delByFdFrees (m : ServerClientMap α) (clientFd : ℤ) (rounds : ℕ) : List (Access α) :=
  if m.inited && decide (0 ≤ clientFd) then
    match findNode m clientFd rounds (myListForEachInit m.links m.head) with
    | some (some node) => [.release node]
    | _ => []
  else []

/-- The map, and what became of its nodes so far. -/
structure ClientMapHeap (α : Type) where
  map : ServerClientMap α
  trace : List (Access α)

/-- `node` is what `MyCalloc` returns; `rounds` is enough for the loop of the call. -/
inductive ClientMapCall (α : Type) where
  | init
  | addNode (clientFd : ℤ) (node : α)
  | delByFd (clientFd : ℤ) (rounds : ℕ)
  | fetchByFd (clientFd : ℤ) (rounds : ℕ)
  | exit (rounds : ℕ)

namespace ClientMapHeap

/-- The nodes that are allocated, and the head. -/
def held (s : ClientMapHeap α) : Finset α := (run {s.map.head} s.trace).getD ∅

def Enabled (s : ClientMapHeap α) : ClientMapCall α → Prop
  | .init => True
  | .addNode clientFd node => 0 ≤ clientFd ∧ node ∉ s.held
  | .delByFd clientFd rounds =>
      0 ≤ clientFd ∧ (serverClientMapDelByFd s.map clientFd rounds).isSome = true
  | .fetchByFd clientFd rounds =>
      0 ≤ clientFd ∧ (serverClientMapFetchByFd s.map clientFd rounds).isSome = true
  | .exit rounds => (serverClientMapExit s.map rounds).isSome = true

instance Enabled.decidable (s : ClientMapHeap α) : ∀ a, Decidable (s.Enabled a)
  | .init => .isTrue trivial
  | .addNode _ _ | .delByFd _ _ | .fetchByFd _ _ => inferInstanceAs (Decidable (_ ∧ _))
  | .exit _ => inferInstanceAs (Decidable (_ = _))

def next (s : ClientMapHeap α) : ClientMapCall α → ClientMapHeap α
  | .init => { s with map := serverClientMapInit s.map }
  | .addNode clientFd node =>
      let r := serverClientMapAddNode s.map clientFd (some node)
      ⟨r.2, s.trace ++ if r.1 = mySuccess then [.acquire node] else []⟩
  | .delByFd clientFd rounds =>
      ⟨(serverClientMapDelByFd s.map clientFd rounds).getD s.map,
        s.trace ++ delByFdFrees s.map clientFd rounds⟩
  | .fetchByFd _ _ => s
  | .exit rounds =>
      let r := (serverClientMapExit s.map rounds).getD (s.map, [])
      ⟨r.1, s.trace ++ r.2⟩

end ClientMapHeap

/-- The map has not been initialised yet. -/
def clientMapCalls : System (ClientMapHeap α) (ClientMapCall α) where
  init s := s.map.inited = false ∧ s.trace = []
  enabled := ClientMapHeap.Enabled
  next := ClientMapHeap.next

instance (s : ClientMapHeap α) (a : ClientMapCall α) :
    Decidable (clientMapCalls.enabled s a) :=
  inferInstanceAs (Decidable (s.Enabled a))

/-! ## The list of fds -/

/-- What a call does to the list. -/
def fdListStep : Option (List ℤ) → ClientMapCall α → Option (List ℤ)
  | none, .init => some []
  | some fds, .addNode clientFd _ => some (fds ++ [clientFd])
  | some fds, .delByFd clientFd _ => some (fds.erase clientFd)
  | _, .exit _ => none
  | fds, _ => fds

/-- A map that is not initialised has no nodes; one that is holds the fds. -/
def HoldsFds (m : ServerClientMap α) (nodes : List α) : Option (List ℤ) → Prop
  | none => m.inited = false ∧ nodes = []
  | some fds => Holds m nodes fds

/-- The nodes of the list are those that are allocated. -/
structure ClientMapHeap.Refines (s : ClientMapHeap α) (fds : Option (List ℤ)) (nodes : List α) :
    Prop where
  fds : HoldsFds s.map nodes fds
  run : Custody.run {s.map.head} s.trace = some (owned s.map.head nodes)

/-! ## Rounds -/

variable {m : ServerClientMap α} {clientFd : ℤ} {rounds rounds' : ℕ}

/-- A walk that has ended does not change with the rounds it may still take. -/
theorem findNode_mono {p : Option α × Option α} {found : Option α}
    (h : findNode m clientFd rounds p = some found) (hle : rounds ≤ rounds') :
    findNode m clientFd rounds' p = some found := by
  induction rounds generalizing p rounds' with
  | zero => cases h
  | succ rounds ih =>
      obtain ⟨rounds', rfl⟩ := Nat.exists_eq_succ_of_ne_zero (Nat.ne_of_gt (Nat.zero_lt_of_lt hle))
      obtain ⟨loop, tmp⟩ := p
      simp only [findNode] at h ⊢
      cases htest : myListForEachTest m.head loop with
      | none => simpa [htest] using h
      | some node =>
          simp only [htest] at h ⊢
          split_ifs at h ⊢ with hfd
          · exact h
          · exact ih h (Nat.le_of_succ_le_succ hle)

theorem findNode_of_isSome {nodes : List α} {fds : List ℤ} (h : Holds m nodes fds)
    (hends : (findNode m clientFd rounds (myListForEachInit m.links m.head)).isSome = true) :
    findNode m clientFd rounds (myListForEachInit m.links m.head) =
      some (nodes.find? fun node => clientFd = m.clientFd node) := by
  obtain ⟨found, hfound⟩ := Option.isSome_iff_exists.mp hends
  have hlong := findNode_mono hfound (Nat.le_max_left rounds (nodes.length + 1))
  rw [findNode_mono (findNode_eq h clientFd) (Nat.le_max_right rounds _)] at hlong
  rw [hfound, hlong]

/-! ## One call -/

namespace ClientMapHeap

variable {s : ClientMapHeap α} {fds : Option (List ℤ)} {nodes : List α}

theorem held_eq (h : s.Refines fds nodes) : s.held = owned s.map.head nodes := by
  rw [held, h.run, Option.getD_some]

theorem refines_init (h : s.Refines fds nodes) :
    (s.next .init).Refines (fdListStep fds (.init : ClientMapCall α)) nodes := by
  cases fds with
  | none =>
      obtain ⟨hinited, rfl⟩ := h.fds
      have hhead : (serverClientMapInit s.map).head = s.map.head := by
        simp [serverClientMapInit, hinited]
      exact ⟨holds_init s.map hinited, by simpa [next, hhead] using h.run⟩
  | some fds =>
      have hsame : serverClientMapInit s.map = s.map := if_pos h.fds.inited
      have hnext : s.next .init = s := by simp [next, hsame]
      rw [hnext]
      exact h

theorem refines_addNode (h : s.Refines fds nodes) {node : α}
    (ha : s.Enabled (.addNode clientFd node)) :
    ∃ nodes', (s.next (.addNode clientFd node)).Refines
      (fdListStep fds (.addNode clientFd node)) nodes' := by
  obtain ⟨hfd, hnode⟩ := ha
  cases fds with
  | none =>
      obtain ⟨hinited, rfl⟩ := h.fds
      have hrefused : serverClientMapAddNode s.map clientFd (some node) = (-myEnosys, s.map) := by
        simp [serverClientMapAddNode, hinited]
      have hne : (-myEnosys : ℤ) ≠ mySuccess := by decide
      have hsame : s.next (.addNode clientFd node) = s := by simp [next, hrefused, hne]
      rw [hsame]
      exact ⟨[], h⟩
  | some fds =>
      rw [held_eq h, mem_owned] at hnode
      obtain ⟨hret, hholds⟩ := holds_addNode h.fds hfd hnode
      have hhead : (serverClientMapAddNode s.map clientFd (some node)).2.head = s.map.head := by
        unfold serverClientMapAddNode
        split_ifs <;> rfl
      refine ⟨nodes ++ [node], hholds, ?_⟩
      have howned : insert node (owned s.map.head nodes) =
          owned s.map.head (nodes ++ [node]) := by
        have hmiddle : owned s.map.head (nodes ++ [node]) =
            insert node (owned s.map.head (nodes ++ [])) := owned_middle
        rw [hmiddle, List.append_nil]
      simp only [next, hret, if_true, hhead]
      rw [run_append, h.run, Option.bind_some, run_acquire (mt mem_owned.mp hnode), run_nil,
        howned]

/-- The first node with the fd goes out of the list, and is freed. -/
theorem refines_delByFd (h : s.Refines fds nodes)
    (ha : s.Enabled (.delByFd clientFd rounds)) :
    ∃ nodes', (s.next (.delByFd clientFd rounds)).Refines
      (fdListStep fds (.delByFd clientFd rounds : ClientMapCall α)) nodes' := by
  obtain ⟨hfd, hends⟩ := ha
  cases fds with
  | none =>
      obtain ⟨hinited, rfl⟩ := h.fds
      have hsame : s.next (.delByFd clientFd rounds) = s := by
        simp [next, serverClientMapDelByFd, delByFdFrees, hinited]
      rw [hsame]
      exact ⟨[], h⟩
  | some fds =>
      have hholds : Holds s.map nodes fds := h.fds
      have hguard : (s.map.inited && decide (0 ≤ clientFd)) = true := by
        simp [hholds.inited, hfd]
      rw [serverClientMapDelByFd, if_pos hguard] at hends
      have hfind : findNode s.map clientFd rounds (myListForEachInit s.map.links s.map.head) =
          some (nodes.find? fun node => clientFd = s.map.clientFd node) := by
        refine findNode_of_isSome hholds ?_
        cases hwalk : findNode s.map clientFd rounds
            (myListForEachInit s.map.links s.map.head) with
        | none => simp [hwalk] at hends
        | some found => rfl
      simp only [next, serverClientMapDelByFd, delByFdFrees, if_pos hguard, hfind]
      cases hnode : nodes.find? fun node => clientFd = s.map.clientFd node with
      | none =>
          have hsame : fds.erase clientFd = fds :=
            List.erase_of_not_mem (not_mem_of_find_none hholds hnode)
          refine ⟨nodes, ?_, ?_⟩
          · show Holds s.map nodes (fds.erase clientFd)
            rw [hsame]
            exact hholds
          · simpa using h.run
      | some node =>
          obtain ⟨pre, post, rfl, hunlinked⟩ := holds_unlink hholds hnode
          refine ⟨pre ++ post, hunlinked, ?_⟩
          have hmem : node ∈ owned s.map.head (pre ++ node :: post) := by simp [mem_owned]
          show run {s.map.head} (s.trace ++ [.release node]) = _
          rw [run_append, h.run, Option.bind_some, run_release hmem, run_nil, owned_middle,
            Finset.erase_insert (notMem_others hholds.ring)]
          rfl

/-- All nodes are freed, and the head stays. -/
theorem refines_exit (h : s.Refines fds nodes) (ha : s.Enabled (.exit rounds)) :
    (s.next (.exit rounds)).Refines none [] := by
  cases fds with
  | none =>
      obtain ⟨hinited, rfl⟩ := h.fds
      have hsame : s.next (.exit rounds) = s := by
        simp [next, serverClientMapExit, hinited]
      rw [hsame]
      exact h
  | some fds =>
      have hholds : Holds s.map nodes fds := h.fds
      have hends : (myListForEach .untouched s.map.head (fun _ => true) rounds
          s.map.links).isSome = true := by
        simpa [Enabled, serverClientMapExit, hholds.inited] using ha
      obtain ⟨r, hr, -, hring, hrun⟩ := myListForEach_of_isSome .untouched _ hholds.ring hends
      have hnone : nodes.filter (fun _ => !true) = [] := by simp
      rw [hnone] at hring hrun
      have hexit : serverClientMapExit s.map rounds =
          some ({ s.map with inited := false, links := r.links }, r.trace) := by
        simp [serverClientMapExit, hholds.inited, hr]
      simp only [next, hexit, Option.getD_some]
      refine ⟨⟨rfl, rfl⟩, ?_⟩
      show run {s.map.head} (s.trace ++ r.trace) = _
      rw [run_append, h.run, Option.bind_some, hrun]

/-- **Each call keeps the list in step.** -/
theorem refines_next (h : s.Refines fds nodes) {a : ClientMapCall α} (ha : s.Enabled a) :
    ∃ nodes', (s.next a).Refines (fdListStep fds a) nodes' := by
  cases a with
  | init => exact ⟨nodes, refines_init h⟩
  | addNode clientFd node => exact refines_addNode h ha
  | delByFd clientFd rounds => exact refines_delByFd h ha
  | fetchByFd clientFd rounds =>
      refine ⟨nodes, ?_⟩
      cases fds with
      | none => exact h
      | some fds => exact h
  | exit rounds =>
      refine ⟨[], ?_⟩
      have hnone : fdListStep fds (.exit rounds : ClientMapCall α) = none := by
        cases fds <;> rfl
      rw [hnone]
      exact refines_exit h ha

/-! ## Any calls -/

/-- The calls leave what they leave of the list. -/
theorem refines_exec {calls : List (ClientMapCall α)} (h : s.Refines fds nodes)
    (hl : Legal clientMapCalls (fun _ _ => True) s calls) :
    ∃ nodes', (exec clientMapCalls s calls).Refines (calls.foldl fdListStep fds) nodes' := by
  induction calls generalizing s fds nodes with
  | nil => exact ⟨nodes, h⟩
  | cons a calls ih =>
      obtain ⟨ha, -, hl⟩ := hl
      obtain ⟨nodes', hnext⟩ := refines_next h ha
      exact ih hnext hl

/-- Every loop ends, whatever the list is. -/
theorem loops_end (h : s.Refines fds nodes) (clientFd : ℤ) {rounds : ℕ}
    (hrounds : nodes.length < rounds) :
    (serverClientMapFetchByFd s.map clientFd rounds).isSome = true ∧
      (serverClientMapDelByFd s.map clientFd rounds).isSome = true ∧
      (serverClientMapExit s.map rounds).isSome = true := by
  cases fds with
  | none =>
      have hinited := h.fds.1
      simp [serverClientMapFetchByFd, serverClientMapDelByFd, serverClientMapExit, hinited]
  | some fds =>
      have hholds : Holds s.map nodes fds := h.fds
      have hfind := findNode_mono (findNode_eq hholds clientFd) hrounds
      obtain ⟨r, hr, -⟩ := myListForEach_represents .untouched (fun _ => true) hholds.ring hrounds
      refine ⟨?_, ?_, ?_⟩
      · unfold serverClientMapFetchByFd
        split_ifs
        · rw [hfind]
          rfl
        · rfl
      · unfold serverClientMapDelByFd
        split_ifs
        · rw [hfind]
          cases nodes.find? fun node => clientFd = s.map.clientFd node with
          | none => rfl
          | some node => rfl
        · rfl
      · simp [serverClientMapExit, hholds.inited, hr]

end ClientMapHeap

open ClientMapHeap

/-- **The client map refines a list of fds.** After any calls, from a map that is not
initialised: the ring of an initialised map runs through nodes that hold the fds of the list,
in order; a lookup returns the node of the first occurrence, or `NULL` if there is none; the
nodes of the list are those that are allocated, so that after an exit there is none, and each
has been freed as often as it was allocated. No freed node has been touched, and every loop
ends. -/
theorem clientMap_refines {s : ClientMapHeap α} {calls : List (ClientMapCall α)}
    (hinit : clientMapCalls.init s) (hl : Legal clientMapCalls (fun _ _ => True) s calls) :
    ∃ nodes, (exec clientMapCalls s calls).Refines (calls.foldl fdListStep none) nodes ∧
      (∀ fds, calls.foldl fdListStep none = some fds →
        Represents (exec clientMapCalls s calls).map.links
            (exec clientMapCalls s calls).map.head nodes ∧
        nodes.map (exec clientMapCalls s calls).map.clientFd = fds ∧
        ∀ clientFd, 0 ≤ clientFd → ∀ rounds, nodes.length < rounds →
          serverClientMapFetchByFd (exec clientMapCalls s calls).map clientFd rounds =
            some nodes[fds.idxOf clientFd]?) ∧
      (calls.foldl fdListStep none = none → nodes = [] ∧
        ∀ node, Settled (exec clientMapCalls s calls).trace node) ∧
      ∀ clientFd rounds, nodes.length < rounds →
        (serverClientMapFetchByFd (exec clientMapCalls s calls).map clientFd rounds).isSome =
            true ∧
          (serverClientMapDelByFd (exec clientMapCalls s calls).map clientFd rounds).isSome =
            true ∧
          (serverClientMapExit (exec clientMapCalls s calls).map rounds).isSome = true := by
  obtain ⟨hinited, htrace⟩ := hinit
  have hstart : s.Refines none [] := ⟨⟨hinited, rfl⟩, by rw [htrace]; rfl⟩
  obtain ⟨nodes, h⟩ := refines_exec hstart hl
  refine ⟨nodes, h, ?_, ?_, fun clientFd rounds => loops_end h clientFd⟩
  · intro fds heq
    rw [heq] at h
    have hholds : Holds _ nodes fds := h.fds
    refine ⟨hholds.ring, hholds.fds, fun clientFd hfd rounds hrounds => ?_⟩
    have hfind := findNode_mono (findNode_eq hholds clientFd) hrounds
    rw [serverClientMapFetchByFd, hfind, hholds.inited, decide_eq_true hfd,
      find?_eq_getElem?_idxOf, hholds.fds]
    rfl
  · intro heq
    rw [heq] at h
    obtain ⟨-, rfl⟩ := h.fds
    refine ⟨rfl, fun node => ?_⟩
    have hcount := count_run h.run node
    rw [owned, List.toFinset_cons, List.toFinset_nil, insert_empty_eq] at hcount
    exact Nat.add_left_cancel hcount

/-- A map in static memory, at address 0. -/
def staticMap : ClientMapHeap ℕ := ⟨⟨false, 0, ⟨fun _ => 0, fun _ => 0⟩, fun _ => 0⟩, []⟩

/-- Of two nodes for fd 5 the first is deleted. -/
theorem clientMap_refines_run : ∃ nodes, Represents
      (exec clientMapCalls staticMap
        [.init, .addNode 5 1, .addNode 7 2, .addNode 5 3, .delByFd 5 4]).map.links 0 nodes ∧
    nodes.map (exec clientMapCalls staticMap
        [.init, .addNode 5 1, .addNode 7 2, .addNode 5 3, .delByFd 5 4]).map.clientFd =
      [7, 5] := by
  have hlegal : Legal clientMapCalls (fun _ _ => True) staticMap
      [.init, .addNode 5 1, .addNode 7 2, .addNode 5 3, .delByFd 5 4] := by
    decide
  obtain ⟨nodes, -, hlist, -⟩ := clientMap_refines ⟨rfl, rfl⟩ hlegal
  obtain ⟨hring, hfds, -⟩ := hlist [7, 5] rfl
  exact ⟨nodes, hring, hfds⟩

end MyWorkEnv
