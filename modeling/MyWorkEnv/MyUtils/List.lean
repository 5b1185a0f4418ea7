import MyWorkEnv.Lib.LinkedRing

/-!
# The `MY_LIST` macros

The macros of `myList.h`, one assignment after the other, on the pointers of
any kind of node. Each is connected to `LinkedRing.Represents`: what it makes of
the ring it works on, and that it touches no pointer outside.
-/

namespace MyWorkEnv

open LinkedRing

variable {α : Type} [DecidableEq α]

def myListNodeInit (L : Links α) (node : α) : Links α :=
  let L := L.setPrev node node
  L.setNext node node

def myListIsEmpty (L : Links α) (head : α) : Bool :=
  L.prev head == head && L.next head == head

def myListAddTail (L : Links α) (node head : α) : Links α :=
  let L := L.setNext (L.prev head) node
  let L := L.setPrev node (L.prev head)
  let L := L.setPrev head node
  L.setNext node head

/-- `NULL` for a node that points to itself, else the structure it is in. -/
def myListEntry (L : Links α) (node : α) : Option α :=
  if L.next node ≠ node then some node else none

/-- The initialisation of `MY_LIST_FOR_EACH`: the loop variable and its successor. -/
def myListForEachInit (L : Links α) (head : α) : Option α × Option α :=
  let loop := myListEntry L (L.next head)
  (loop, loop.bind fun node => myListEntry L (L.next node))

/-- Its test, for the node the loop variable stands for. -/
def myListForEachTest (head : α) (loop : Option α) : Option α :=
  loop.filter fun node => node ≠ head

/-- Its step, from the value of `tmp`. -/
def myListForEachStep (L : Links α) (tmp : Option α) : Option α × Option α :=
  (tmp, tmp.bind fun node => myListEntry L (L.next node))

def myListDelNode (L : Links α) (node : α) : Links α :=
  let L := L.setNext (L.prev node) (L.next node)
  L.setPrev (L.next node) (L.prev node)

def myListHeadCopy (L : Links α) (newHead oldHead : α) : Links α :=
  let L := L.setNext newHead (L.next oldHead)
  let L := L.setPrev (L.next newHead) newHead
  let L := L.setPrev newHead (L.prev oldHead)
  L.setNext (L.prev newHead) newHead

/-! ## Net effects -/

variable {L : Links α} {h n k a : α} {xs ys : List α}

theorem myListNodeInit_represents (L : Links α) (h : α) :
    Represents (myListNodeInit L h) h [] := by
  rw [Represents.nil_iff]
  simp [myListNodeInit, Links.setPrev, Links.setNext]

theorem myListIsEmpty_iff (hr : Represents L h xs) : myListIsEmpty L h = true ↔ xs = [] := by
  rw [myListIsEmpty, Bool.and_eq_true, beq_iff_eq, beq_iff_eq]
  constructor
  · rintro ⟨-, hnext⟩
    cases xs with
    | nil => rfl
    | cons x xs =>
        have hx : L.next h = x := hr.next_head
        have hne := hr.head_notMem
        rw [← hx, hnext] at hne
        exact absurd List.mem_cons_self hne
  · rintro rfl
    exact ⟨(Represents.nil_iff.mp hr).2, (Represents.nil_iff.mp hr).1⟩

theorem myListAddTail_represents (hr : Represents L h xs) (hn : n ∉ h :: xs) :
    Represents (myListAddTail L n h) h (xs ++ [n]) := by
  have hnh : n ≠ h := by
    rintro rfl
    exact hn List.mem_cons_self
  have hlast : L.prev h ≠ n := by
    rintro rfl
    rw [hr.prev_head] at hn
    exact hn (List.getLast_mem _)
  refine hr.insert hn ?_ ⟨?_, ?_⟩ ?_ ?_ ?_
  · simp [myListAddTail, Links.setPrev, Links.setNext, hlast]
  · simp [myListAddTail, Links.setPrev, Links.setNext, hnh]
  · simp [myListAddTail, Links.setPrev, Links.setNext]
  · simp [myListAddTail, Links.setPrev, Links.setNext]
  · intro a h₁ h₂
    simp [myListAddTail, Links.setPrev, Links.setNext, h₁, h₂]
  · intro a h₁ h₂
    simp [myListAddTail, Links.setPrev, Links.setNext, h₁, h₂]

theorem myListAddTail_other (hr : Represents L h xs) (ha : a ∉ h :: xs) (han : a ≠ n) :
    (myListAddTail L n h).next a = L.next a ∧ (myListAddTail L n h).prev a = L.prev a := by
  have hah : a ≠ h := by
    rintro rfl
    exact ha List.mem_cons_self
  have hlast : a ≠ L.prev h := by
    rintro rfl
    rw [hr.prev_head] at ha
    exact ha (List.getLast_mem _)
  constructor <;> simp [myListAddTail, Links.setPrev, Links.setNext, hah, hlast, han]

theorem myListDelNode_represents (hr : Represents L h (xs ++ n :: ys)) :
    Represents (myListDelNode L n) h (xs ++ ys) := by
  have hself : n ≠ L.prev n := Ne.symm hr.prev_ne
  refine hr.remove ?_ ?_ ?_ ?_
  · simp [myListDelNode, Links.setPrev, Links.setNext]
  · simp [myListDelNode, Links.setPrev, Links.setNext, hself]
  · intro a ha
    simp [myListDelNode, Links.setPrev, Links.setNext, ha]
  · intro a ha
    simp [myListDelNode, Links.setPrev, Links.setNext, hself, ha]

theorem myListDelNode_other (hr : Represents L h (xs ++ n :: ys))
    (ha : a ∉ h :: (xs ++ n :: ys)) :
    (myListDelNode L n).next a = L.next a ∧ (myListDelNode L n).prev a = L.prev a := by
  have hself : n ≠ L.prev n := Ne.symm hr.prev_ne
  have hmem : n ∈ h :: (xs ++ n :: ys) := by simp
  have hprev : a ≠ L.prev n := by
    rintro rfl
    exact ha (hr.prev_mem hmem)
  have hnext : a ≠ L.next n := by
    rintro rfl
    exact ha (hr.next_mem hmem)
  constructor <;> simp [myListDelNode, Links.setPrev, Links.setNext, hprev, hnext, hself]

/-- The nodes change heads, also if there are none. -/
theorem myListHeadCopy_represents (hr : Represents L h xs) (hk : k ∉ h :: xs) :
    Represents (myListNodeInit (myListHeadCopy L k h) h) k xs := by
  have hkh : k ≠ h := by
    rintro rfl
    exact hk List.mem_cons_self
  cases hxs : xs with
  | nil =>
      rw [hxs] at hr
      obtain ⟨hnext, hprev⟩ := Represents.nil_iff.mp hr
      rw [Represents.nil_iff]
      simp [myListNodeInit, myListHeadCopy, Links.setPrev, Links.setNext, hnext, hkh]
  | cons x rest =>
      rw [← hxs]
      have hne : xs ≠ [] := by simp [hxs]
      have hfirst : h ≠ L.next h := Ne.symm (hr.next_head_ne hne)
      have hlast : h ≠ L.prev h := Ne.symm (hr.prev_head_ne hne)
      have hkfirst : L.next h ≠ k := by
        rintro rfl
        exact hk (hr.next_mem List.mem_cons_self)
      have hklast : L.prev h ≠ k := by
        rintro rfl
        exact hk (hr.prev_mem List.mem_cons_self)
      have hapart : ∀ a ∈ xs, a ≠ h ∧ a ≠ k := by
        intro a ha
        refine ⟨?_, ?_⟩
        · rintro rfl
          exact hr.head_notMem ha
        · rintro rfl
          exact hk (List.mem_cons_of_mem _ ha)
      refine hr.rehead hk hne ⟨?_, ?_⟩ ?_ ?_ ?_ ?_
      · simp [myListNodeInit, myListHeadCopy, Links.setPrev, Links.setNext, hfirst, hkh,
          Ne.symm hklast]
      · simp [myListNodeInit, myListHeadCopy, Links.setPrev, Links.setNext, hfirst, hkh]
      · simp [myListNodeInit, myListHeadCopy, Links.setPrev, Links.setNext, Ne.symm hfirst,
          hkfirst]
      · simp [myListNodeInit, myListHeadCopy, Links.setPrev, Links.setNext, hfirst,
          Ne.symm hlast]
      · intro a ha hal
        obtain ⟨hah, hak⟩ := hapart a ha
        simp [myListNodeInit, myListHeadCopy, Links.setPrev, Links.setNext, hfirst, hah, hak,
          hal]
      · intro a ha haf
        obtain ⟨hah, hak⟩ := hapart a ha
        simp [myListNodeInit, myListHeadCopy, Links.setPrev, Links.setNext, hah, hak, haf]

theorem myListHeadCopy_other (hr : Represents L h xs) (hak : a ≠ k) (ha : a ∉ h :: xs) :
    (myListNodeInit (myListHeadCopy L k h) h).next a = L.next a ∧
      (myListNodeInit (myListHeadCopy L k h) h).prev a = L.prev a := by
  have hah : a ≠ h := by
    rintro rfl
    exact ha List.mem_cons_self
  have hfirst : a ≠ L.next h := by
    rintro rfl
    exact ha (hr.next_mem List.mem_cons_self)
  have hlast : a ≠ L.prev h := by
    rintro rfl
    exact ha (hr.prev_mem List.mem_cons_self)
  constructor
  · by_cases he : h = L.next h
    · simp [myListNodeInit, myListHeadCopy, Links.setPrev, Links.setNext, hah, hak, ← he]
    · simp [myListNodeInit, myListHeadCopy, Links.setPrev, Links.setNext, hah, hak, he, hlast]
  · simp [myListNodeInit, myListHeadCopy, Links.setPrev, Links.setNext, hah, hak, hfirst]

/-! ## Traversal -/

theorem myListEntry_node (hr : Represents L h (xs ++ n :: ys)) :
    myListEntry L n = some n := by
  unfold myListEntry
  rw [if_pos hr.next_ne]

theorem myListEntry_head (hr : Represents L h xs) (hne : xs ≠ []) :
    myListEntry L h = some h := by
  unfold myListEntry
  rw [if_pos (hr.next_head_ne hne)]

/-- The entry behind a node: the next node, or the head after the last. -/
theorem myListEntry_next (hr : Represents L h (xs ++ n :: ys)) :
    myListEntry L (L.next n) = some ((ys ++ [h]).head (by simp)) := by
  rw [hr.next_node]
  cases ys with
  | nil => exact myListEntry_head hr (by simp)
  | cons y ys =>
      have hr' : Represents L h ((xs ++ [n]) ++ y :: ys) := by simpa using hr
      exact myListEntry_node hr'

theorem myListForEachInit_cons (hr : Represents L h (n :: ys)) :
    myListForEachInit L h = (some n, some ((ys ++ [h]).head (by simp))) := by
  have hr' : Represents L h ([] ++ n :: ys) := hr
  have hfirst : L.next h = n := hr.next_head
  simp only [myListForEachInit, hfirst, myListEntry_node hr', Option.bind_some,
    myListEntry_next hr']

theorem myListForEachStep_node (hr : Represents L h (xs ++ n :: ys)) :
    myListForEachStep L (some n) = (some n, some ((ys ++ [h]).head (by simp))) := by
  simp only [myListForEachStep, Option.bind_some, myListEntry_next hr]

/-! ## The macros as list operations -/

/-- **On a well-formed list** each macro is the operation on the list of its nodes that it is
named after, makes well-formed lists, and changes no pointer outside of them. -/
theorem myList_refines (hr : Represents L h xs) :
    (∀ n, n ∉ h :: xs → Represents (myListAddTail L n h) h (xs ++ [n]) ∧
      ∀ a, a ∉ h :: (xs ++ [n]) →
        (myListAddTail L n h).next a = L.next a ∧ (myListAddTail L n h).prev a = L.prev a) ∧
    (∀ n ys zs, xs = ys ++ n :: zs → Represents (myListDelNode L n) h (ys ++ zs) ∧
      ∀ a, a ∉ h :: xs →
        (myListDelNode L n).next a = L.next a ∧ (myListDelNode L n).prev a = L.prev a) ∧
    (∀ k, k ∉ h :: xs → Represents (myListNodeInit (myListHeadCopy L k h) h) k xs ∧
      Represents (myListNodeInit (myListHeadCopy L k h) h) h [] ∧
      ∀ a, a ∉ k :: h :: xs →
        (myListNodeInit (myListHeadCopy L k h) h).next a = L.next a ∧
          (myListNodeInit (myListHeadCopy L k h) h).prev a = L.prev a) ∧
    (myListIsEmpty L h = true ↔ xs = []) := by
  refine ⟨?_, ?_, ?_, myListIsEmpty_iff hr⟩
  · intro n hn
    refine ⟨myListAddTail_represents hr hn, fun a ha => ?_⟩
    rw [← List.cons_append, List.mem_append, List.mem_singleton, not_or] at ha
    exact myListAddTail_other hr ha.1 ha.2
  · rintro n ys zs rfl
    exact ⟨myListDelNode_represents hr, fun a ha => myListDelNode_other hr ha⟩
  · intro k hk
    refine ⟨myListHeadCopy_represents hr hk, myListNodeInit_represents _ h, fun a ha => ?_⟩
    rw [List.mem_cons, not_or] at ha
    exact myListHeadCopy_other hr ha.1 ha.2

/-- Three nodes behind the head `0`. -/
def threeNodes : Links ℕ :=
  myListAddTail (myListAddTail (myListAddTail (myListNodeInit ⟨id, id⟩ 0) 1 0) 2 0) 3 0

/-- The one in the middle leaves the list, the others go to head `4`, and the last of them
leaves as well. -/
theorem myList_refines_three :
    Represents (myListDelNode threeNodes 2) 0 [1, 3] ∧
      Represents (myListDelNode
        (myListNodeInit (myListHeadCopy (myListDelNode threeNodes 2) 4 0) 0) 3) 4 [1] := by
  have hnone : Represents (myListNodeInit ⟨id, id⟩ 0) 0 [] := myListNodeInit_represents _ 0
  have hone := ((myList_refines hnone).1 1 (by decide)).1
  have htwo := ((myList_refines hone).1 2 (by decide)).1
  have hthree := ((myList_refines htwo).1 3 (by decide)).1
  have hmiddle := ((myList_refines hthree).2.1 2 [1] [3] rfl).1
  have hcopied := ((myList_refines hmiddle).2.2.1 4 (by decide)).1
  exact ⟨hmiddle, ((myList_refines hcopied).2.1 3 [1] [] rfl).1⟩

end MyWorkEnv
