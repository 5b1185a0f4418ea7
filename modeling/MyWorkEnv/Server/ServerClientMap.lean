import MyWorkEnv.MyUtils.CommonUtil
import MyWorkEnv.MyUtils.List

/-!
# The client map

`ServerClientMap.c` keeps the fds of the connected clients in a linked list.
The list holds the fds that were added, in order, and loses the first one with
the number that is deleted (`holds_addNode`, `holds_delByFd`), which is what the
model of the event loop takes it to be. The spin lock is left out, as only the
loop's thread changes the map.
-/

namespace MyWorkEnv

open LinkedRing

variable {α : Type} [DecidableEq α]

/-- `SERVER_CLIENT_MAP` with the nodes there are; `ClientList` is the node `head`. -/
structure ServerClientMap (α : Type) where
  inited : Bool
  head : α
  links : Links α
  clientFd : α → ℤ

def serverClientMapInit (m : ServerClientMap α) : ServerClientMap α :=
  if m.inited then m
  else { m with links := myListNodeInit m.links m.head, inited := true }

/-- `ServerClientMapAddNode`, where `MyCalloc` returns `node`, or `NULL`. -/
def serverClientMapAddNode (m : ServerClientMap α) (clientFd : ℤ) (node : Option α) :
    ℤ × ServerClientMap α :=
  if !(m.inited && decide (0 ≤ clientFd)) then (-myEnosys, m)
  else
    match node with
    | none => (-myEnoMem, m)
    | some node =>
        (mySuccess, { m with
          links := myListAddTail (myListNodeInit m.links node) node m.head
          clientFd := Function.update m.clientFd node clientFd })

/-- The node at which `MY_LIST_FOR_EACH` finds the fd, if it does; the outer `none` is for a
walk that goes on after so many rounds. -/
def findNode (m : ServerClientMap α) (clientFd : ℤ) : ℕ → Option α × Option α →
    Option (Option α)
  | 0, _ => none
  | rounds + 1, (loop, tmp) =>
      match myListForEachTest m.head loop with
      | none => some none
      | some node =>
          if clientFd = m.clientFd node then some (some node)
          else findNode m clientFd rounds (myListForEachStep m.links tmp)

def serverClientMapFetchByFd (m : ServerClientMap α) (clientFd : ℤ) (rounds : ℕ) :
    Option (Option α) :=
  if m.inited && decide (0 ≤ clientFd) then
    findNode m clientFd rounds (myListForEachInit m.links m.head)
  else some none

def serverClientMapDelByFd (m : ServerClientMap α) (clientFd : ℤ) (rounds : ℕ) :
    Option (ServerClientMap α) :=
  if m.inited && decide (0 ≤ clientFd) then
    match findNode m clientFd rounds (myListForEachInit m.links m.head) with
    | none => none
    | some none => some m
    | some (some node) => some { m with links := myListDelNode m.links node }
  else some m

/-! ## The map as a list -/

/-- The nodes in the list, and the fds they hold. -/
structure Holds (m : ServerClientMap α) (nodes : List α) (fds : List ℤ) : Prop where
  inited : m.inited = true
  ring : Represents m.links m.head nodes
  fds : nodes.map m.clientFd = fds

variable {m : ServerClientMap α} {nodes : List α} {fds : List ℤ} {clientFd : ℤ}

theorem holds_init (m : ServerClientMap α) (h : m.inited = false) :
    Holds (serverClientMapInit m) [] [] := by
  rw [serverClientMapInit, h]
  exact ⟨rfl, myListNodeInit_represents m.links m.head, rfl⟩

theorem holds_addNode (h : Holds m nodes fds) (hfd : 0 ≤ clientFd) {node : α}
    (hnode : node ∉ m.head :: nodes) :
    (serverClientMapAddNode m clientFd (some node)).1 = mySuccess ∧
      Holds (serverClientMapAddNode m clientFd (some node)).2 (nodes ++ [node])
        (fds ++ [clientFd]) := by
  have hkeep : ∀ a ∈ m.head :: nodes, a ≠ node := by
    rintro a ha rfl
    exact hnode ha
  have hring : Represents (myListNodeInit m.links node) m.head nodes := by
    refine h.ring.frame ?_ ?_
    · intro a ha
      simp [myListNodeInit, Links.setPrev, Links.setNext, hkeep a ha]
    · intro a ha
      simp [myListNodeInit, Links.setPrev, Links.setNext, hkeep a ha]
  have hmap : nodes.map (Function.update m.clientFd node clientFd) = fds := by
    rw [← h.fds]
    apply List.map_congr_left
    intro a ha
    rw [Function.update_of_ne (hkeep a (List.mem_cons_of_mem _ ha))]
  simp only [serverClientMapAddNode, h.inited, hfd, decide_true, Bool.and_self, Bool.not_true,
    Bool.false_eq_true, if_false]
  refine ⟨trivial, rfl, myListAddTail_represents hring hnode, ?_⟩
  simp [hmap]

/-- Without memory the map stays as it is. -/
theorem addNode_none (m : ServerClientMap α) (clientFd : ℤ) :
    (serverClientMapAddNode m clientFd none).1 ≠ mySuccess ∧
      (serverClientMapAddNode m clientFd none).2 = m := by
  unfold serverClientMapAddNode
  split_ifs
  · exact ⟨(by decide : -myEnosys ≠ mySuccess), rfl⟩
  · exact ⟨(by decide : -myEnoMem ≠ mySuccess), rfl⟩

/-- The walk from the node in front of `ys`, whose entry comes next. -/
theorem findNode_walk (m : ServerClientMap α) (clientFd : ℤ) {xs ys : List α} {tmp : Option α}
    (hr : Represents m.links m.head (xs ++ ys))
    (htmp : ∀ n ys', ys = n :: ys' → tmp = some ((ys' ++ [m.head]).head (by simp))) :
    findNode m clientFd (ys.length + 1) (some ((ys ++ [m.head]).head (by simp)), tmp) =
      some (ys.find? fun node => clientFd = m.clientFd node) := by
  induction ys generalizing xs tmp with
  | nil =>
      have htest : myListForEachTest m.head (some m.head) = none := by
        simp [myListForEachTest, Option.filter]
      simp only [List.nil_append, List.head_cons, findNode, htest, List.find?_nil]
  | cons n ys ih =>
      have hn : n ≠ m.head := by
        rintro rfl
        exact hr.head_notMem (by simp)
      have htest : myListForEachTest m.head (some n) = some n := by
        simp [myListForEachTest, hn]
      have hr' : Represents m.links m.head ((xs ++ [n]) ++ ys) := by simpa using hr
      rw [List.length_cons, findNode]
      simp only [List.cons_append, List.head_cons, htest]
      by_cases hfd : clientFd = m.clientFd n
      · rw [if_pos hfd, List.find?_cons_of_pos (by simpa using hfd)]
      · rw [if_neg hfd, List.find?_cons_of_neg (by simpa using hfd), htmp n ys rfl]
        refine ih hr' ?_
        intro n' ys' hys
        subst hys
        exact congrArg Prod.snd (myListForEachStep_node hr')

/-- One round more than there are nodes is enough to find the first node with the fd. -/
theorem findNode_eq (h : Holds m nodes fds) (clientFd : ℤ) :
    findNode m clientFd (nodes.length + 1) (myListForEachInit m.links m.head) =
      some (nodes.find? fun node => clientFd = m.clientFd node) := by
  have hr := h.ring
  cases nodes with
  | nil =>
      have hempty : myListEntry m.links (m.links.next m.head) = none := by
        rw [(Represents.nil_iff.mp hr).1, myListEntry, (Represents.nil_iff.mp hr).1]
        simp
      simp [myListForEachInit, hempty, findNode, myListForEachTest]
  | cons n ys =>
      rw [myListForEachInit_cons hr]
      have hr' : Represents m.links m.head ([] ++ n :: ys) := hr
      refine findNode_walk m clientFd hr' ?_
      intro n' ys' hys
      cases hys
      rfl

omit [DecidableEq α] in
/-- No node has the fd, and the list does not have it. -/
theorem not_mem_of_find_none (h : Holds m nodes fds)
    (hnone : nodes.find? (fun node => clientFd = m.clientFd node) = none) : clientFd ∉ fds := by
  rw [List.find?_eq_none] at hnone
  rw [← h.fds, List.mem_map]
  rintro ⟨node, hin, hfd⟩
  exact hnone node hin (by simpa using hfd.symm)

/-- The first node with the fd leaves the list. -/
theorem holds_unlink (h : Holds m nodes fds) {node : α}
    (hnode : nodes.find? (fun node => clientFd = m.clientFd node) = some node) :
    ∃ pre post, nodes = pre ++ node :: post ∧
      Holds { m with links := myListDelNode m.links node } (pre ++ post)
        (fds.erase clientFd) := by
  obtain ⟨hmatch, pre, post, hsplit, hpre⟩ := List.find?_eq_some_iff_append.mp hnode
  have hnodefd : m.clientFd node = clientFd := by simpa using Eq.symm (of_decide_eq_true hmatch)
  have hring := h.ring
  rw [hsplit] at hring
  have hnot : clientFd ∉ pre.map m.clientFd := by
    rw [List.mem_map]
    rintro ⟨a, ha, hfd'⟩
    have hno := hpre a ha
    simp [hfd'] at hno
  refine ⟨pre, post, hsplit, h.inited, myListDelNode_represents hring, ?_⟩
  rw [← h.fds, hsplit]
  simp only [List.map_append, List.map_cons]
  rw [List.erase_append_right _ hnot, hnodefd, List.erase_cons_head]

/-- **Deletion.** The walk ends, and the first node with the fd is gone. -/
theorem holds_delByFd (h : Holds m nodes fds) (hfd : 0 ≤ clientFd) :
    ∃ m' nodes', serverClientMapDelByFd m clientFd (nodes.length + 1) = some m' ∧
      m'.head = m.head ∧ Holds m' nodes' (fds.erase clientFd) := by
  have hfind := findNode_eq h clientFd
  simp only [serverClientMapDelByFd, h.inited, hfd, decide_true, Bool.and_self, if_true, hfind]
  cases hnode : nodes.find? fun node => clientFd = m.clientFd node with
  | none =>
      have hmem := not_mem_of_find_none h hnode
      exact ⟨m, nodes, rfl, rfl, by rwa [List.erase_of_not_mem hmem]⟩
  | some node =>
      obtain ⟨pre, post, -, hholds⟩ := holds_unlink h hnode
      rw [h.inited] at hholds
      exact ⟨_, pre ++ post, rfl, rfl, hholds⟩

/-- Looking an fd up finds a node that holds it, if one does. -/
theorem fetchByFd_eq (h : Holds m nodes fds) (hfd : 0 ≤ clientFd) :
    ∃ found, serverClientMapFetchByFd m clientFd (nodes.length + 1) = some found ∧
      (found.isSome = true ↔ clientFd ∈ fds) := by
  have hfind := findNode_eq h clientFd
  simp only [serverClientMapFetchByFd, h.inited, hfd, decide_true, Bool.and_self, if_true, hfind]
  refine ⟨_, rfl, ?_⟩
  rw [List.find?_isSome, ← h.fds, List.mem_map]
  constructor
  · rintro ⟨node, hin, hfd'⟩
    exact ⟨node, hin, by simpa using Eq.symm (of_decide_eq_true hfd')⟩
  · rintro ⟨node, hin, hfd'⟩
    exact ⟨node, hin, by simpa using hfd'.symm⟩

end MyWorkEnv
