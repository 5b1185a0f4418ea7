import Mathlib.Data.List.Chain
import Mathlib.Tactic

/-!
# Circular doubly linked lists

An intrusive list is a head and nodes that point to each other. `Links` gives
every node its two pointers, and `Represents L h xs` says that the ring through
the head `h` runs through exactly the nodes `xs`, in this order. What list code
does is stated by its net effect on pointers: `Represents.insert`,
`Represents.remove` and `Represents.rehead` say which effects put a node at the
end, take a node out, and hand the nodes to another head; `Represents.frame` is
for everybody else.
-/

namespace LinkedRing

structure Links (α : Type) where
  prev : α → α
  next : α → α

/-- Assignments to one pointer. -/
def Links.setPrev {α : Type} [DecidableEq α] (L : Links α) (a b : α) : Links α :=
  { L with prev := Function.update L.prev a b }

def Links.setNext {α : Type} [DecidableEq α] (L : Links α) (a b : α) : Links α :=
  { L with next := Function.update L.next a b }

variable {α : Type} {L L' : Links α} {h n k : α} {xs ys : List α}

/-- Neighbours point to each other. -/
def Joined (L : Links α) (a b : α) : Prop := L.next a = b ∧ L.prev b = a

structure Represents (L : Links α) (h : α) (xs : List α) : Prop where
  nodup : (h :: xs).Nodup
  joined : (h :: (xs ++ [h])).IsChain (Joined L)

/-- A stretch of a ring reads `next` of all its nodes but the last, and `prev`
of all but the first. -/
theorem joined_frame {l : List α} (hl : l.IsChain (Joined L))
    (hnext : ∀ a ∈ l.dropLast, L'.next a = L.next a)
    (hprev : ∀ a ∈ l.tail, L'.prev a = L.prev a) : l.IsChain (Joined L') := by
  induction l with
  | nil => exact .nil
  | cons a l ih =>
      cases l with
      | nil => exact .singleton a
      | cons b l =>
          rw [List.isChain_cons_cons] at hl ⊢
          refine ⟨⟨?_, ?_⟩, ih hl.2 ?_ ?_⟩
          · rw [hnext a (by simp)]
            exact hl.1.1
          · rw [hprev b (by simp)]
            exact hl.1.2
          · intro c hc
            exact hnext c (by simp [hc])
          · intro c hc
            exact hprev c (List.mem_of_mem_tail hc)

namespace Represents

theorem head_notMem (hr : Represents L h xs) : h ∉ xs := (List.nodup_cons.mp hr.nodup).1

theorem nodup_nodes (hr : Represents L h xs) : xs.Nodup := (List.nodup_cons.mp hr.nodup).2

/-- The ring depends on the pointers of its own nodes only. -/
theorem frame (hr : Represents L h xs) (hnext : ∀ a ∈ h :: xs, L'.next a = L.next a)
    (hprev : ∀ a ∈ h :: xs, L'.prev a = L.prev a) : Represents L' h xs := by
  refine ⟨hr.nodup, joined_frame hr.joined ?_ ?_⟩
  · intro a ha
    rw [← List.cons_append, List.dropLast_concat] at ha
    exact hnext a ha
  · intro a ha
    apply hprev a
    rw [List.tail_cons, List.mem_append, List.mem_singleton] at ha
    rcases ha with ha | rfl
    · exact List.mem_cons_of_mem _ ha
    · exact List.mem_cons_self

theorem nil_iff : Represents L h [] ↔ L.next h = h ∧ L.prev h = h := by
  constructor
  · intro hr
    exact (List.isChain_cons_cons.mp hr.joined).1
  · intro hself
    exact ⟨List.nodup_singleton h, List.isChain_cons_cons.mpr ⟨hself, .singleton h⟩⟩

/-- What follows a node, and what follows the head. -/
theorem next_of_split (hr : Represents L h xs) (pre : List α) {post : List α} {a : α}
    (hsplit : h :: xs = pre ++ a :: post) : L.next a = (post ++ [h]).head (by simp) := by
  have hj := hr.joined
  rw [← List.cons_append, hsplit, List.append_assoc, List.cons_append] at hj
  cases post with
  | nil => exact (List.isChain_append_cons_cons.mp hj).2.1.1
  | cons b post => exact (List.isChain_append_cons_cons.mp hj).2.1.1

theorem next_head (hr : Represents L h xs) : L.next h = (xs ++ [h]).head (by simp) :=
  hr.next_of_split [] rfl

theorem next_node {pre post : List α} {a : α} (hr : Represents L h (pre ++ a :: post)) :
    L.next a = (post ++ [h]).head (by simp) :=
  hr.next_of_split (h :: pre) rfl

theorem prev_of_split (hr : Represents L h xs) (pre : List α) {post : List α} {a : α}
    (hsplit : xs ++ [h] = pre ++ a :: post) : L.prev a = (h :: pre).getLast (by simp) := by
  have hj := hr.joined
  rw [hsplit] at hj
  obtain ⟨front, b, hb⟩ : ∃ front b, h :: pre = front ++ [b] :=
    ⟨(h :: pre).dropLast, (h :: pre).getLast (by simp), (List.dropLast_append_getLast _).symm⟩
  rw [← List.cons_append, hb, List.append_assoc, List.singleton_append] at hj
  have hlast : (h :: pre).getLast (by simp) = b := by simp [hb]
  rw [hlast]
  exact (List.isChain_append_cons_cons.mp hj).2.1.2

theorem prev_head (hr : Represents L h xs) : L.prev h = (h :: xs).getLast (by simp) :=
  hr.prev_of_split xs rfl

theorem prev_node {pre post : List α} {a : α} (hr : Represents L h (pre ++ a :: post)) :
    L.prev a = (h :: pre).getLast (by simp) :=
  hr.prev_of_split pre (List.append_assoc pre (a :: post) [h])

theorem next_mem {a : α} (hr : Represents L h xs) (ha : a ∈ h :: xs) :
    L.next a ∈ h :: xs := by
  obtain ⟨pre, post, hsplit⟩ := List.append_of_mem ha
  rw [hr.next_of_split pre hsplit]
  have hmem := List.head_mem (l := post ++ [h]) (by simp)
  rcases List.mem_append.mp hmem with hpost | hhead
  · rw [hsplit]
    exact List.mem_append_right _ (List.mem_cons_of_mem _ hpost)
  · rw [List.mem_singleton.mp hhead]
    exact List.mem_cons_self

theorem prev_mem {a : α} (hr : Represents L h xs) (ha : a ∈ h :: xs) :
    L.prev a ∈ h :: xs := by
  have ha' : a ∈ xs ++ [h] := by
    rw [List.mem_append, List.mem_singleton]
    exact (List.mem_cons.mp ha).symm
  obtain ⟨pre, post, hsplit⟩ := List.append_of_mem ha'
  rw [hr.prev_of_split pre hsplit]
  have hmem := List.getLast_mem (l := h :: pre) (by simp)
  rcases List.mem_cons.mp hmem with hhead | hpre
  · rw [hhead]
    exact List.mem_cons_self
  · have hin : (h :: pre).getLast (by simp) ∈ xs ++ [h] := by
      rw [hsplit]
      exact List.mem_append_left _ hpre
    rw [List.mem_append, List.mem_singleton] at hin
    exact List.mem_cons.mpr hin.symm

/-- A node of a ring is not its own neighbour. -/
theorem prev_ne {pre post : List α} {a : α} (hr : Represents L h (pre ++ a :: post)) :
    L.prev a ≠ a := by
  have hnodup := hr.nodup
  rw [← List.cons_append] at hnodup
  rw [hr.prev_node]
  intro hlast
  have hmem : a ∈ h :: pre := by
    rw [← hlast]
    exact List.getLast_mem _
  exact (List.nodup_append.mp hnodup).2.2 a hmem a List.mem_cons_self rfl

theorem next_ne {pre post : List α} {a : α} (hr : Represents L h (pre ++ a :: post)) :
    L.next a ≠ a := by
  have hnodup := hr.nodup
  rw [List.nodup_cons, List.nodup_append, List.nodup_cons] at hnodup
  rw [hr.next_node]
  intro hhead
  have hmem : a ∈ post ++ [h] := by
    rw [← hhead]
    exact List.head_mem _
  rcases List.mem_append.mp hmem with hpost | hh
  · exact hnodup.2.2.1.1 hpost
  · rw [List.mem_singleton] at hh
    exact hnodup.1 (by simp [hh])

/-- The head is its own neighbour in the empty ring only. -/
theorem next_head_ne (hr : Represents L h xs) (hne : xs ≠ []) : L.next h ≠ h := by
  rw [hr.next_head, List.head_append_of_ne_nil hne]
  intro hhead
  exact hr.head_notMem (hhead ▸ List.head_mem hne)

theorem prev_head_ne (hr : Represents L h xs) (hne : xs ≠ []) : L.prev h ≠ h := by
  rw [hr.prev_head, List.getLast_cons hne]
  intro hlast
  exact hr.head_notMem (hlast ▸ List.getLast_mem hne)

/-- From one node on, the pointers leave no choice. -/
theorem path_unique {a : α} : ∀ {xs ys : List α}, (a :: (xs ++ [h])).IsChain (Joined L) →
    (a :: (ys ++ [h])).IsChain (Joined L) → h ∉ xs → h ∉ ys → xs = ys
  | [], [], _, _, _, _ => rfl
  | [], y :: ys, hx, hy, _, hhy => by
      have hnext := (List.isChain_cons_cons.mp hx).1.1
      have hnext' := (List.isChain_cons_cons.mp hy).1.1
      rw [hnext] at hnext'
      exact absurd (hnext' ▸ List.mem_cons_self) hhy
  | x :: xs, [], hx, hy, hhx, _ => by
      have hnext := (List.isChain_cons_cons.mp hx).1.1
      have hnext' := (List.isChain_cons_cons.mp hy).1.1
      rw [hnext'] at hnext
      exact absurd (hnext ▸ List.mem_cons_self) hhx
  | x :: xs, y :: ys, hx, hy, hhx, hhy => by
      obtain ⟨hjx, hx⟩ := List.isChain_cons_cons.mp hx
      obtain ⟨hjy, hy⟩ := List.isChain_cons_cons.mp hy
      have hxy : x = y := hjx.1.symm.trans hjy.1
      subst hxy
      rw [path_unique hx hy (fun hm => hhx (List.mem_cons_of_mem x hm))
        (fun hm => hhy (List.mem_cons_of_mem x hm))]

/-- A ring has one list of nodes. -/
theorem unique (hr : Represents L h xs) (hr' : Represents L h ys) : xs = ys :=
  path_unique hr.joined hr'.joined hr.head_notMem hr'.head_notMem

/-! ## Net effects of edits -/

/-! The ring is cut open before a node, or behind it. -/

theorem front_of_head (hr : Represents L h xs) : ∃ front, h :: xs = front ++ [L.prev h] := by
  refine ⟨(h :: xs).dropLast, ?_⟩
  rw [hr.prev_head]
  exact (List.dropLast_append_getLast _).symm

theorem front_of_node (hr : Represents L h (xs ++ n :: ys)) :
    ∃ front, h :: xs = front ++ [L.prev n] := by
  refine ⟨(h :: xs).dropLast, ?_⟩
  rw [hr.prev_node]
  exact (List.dropLast_append_getLast _).symm

theorem back_of_node (hr : Represents L h (xs ++ n :: ys)) :
    ∃ back, ys ++ [h] = L.next n :: back := by
  refine ⟨(ys ++ [h]).tail, ?_⟩
  rw [hr.next_node]
  exact (List.cons_head_tail _).symm

/-- The part up to `b` does not use `next` of `b`. -/
theorem joined_front {front : List α} {b : α} (hj : (front ++ [b]).IsChain (Joined L))
    (hnodup : (front ++ [b]).Nodup) (hnext : ∀ a ∈ front, a ≠ b → L'.next a = L.next a)
    (hprev : ∀ a ∈ (front ++ [b]).tail, L'.prev a = L.prev a) :
    (front ++ [b]).IsChain (Joined L') := by
  refine joined_frame hj ?_ hprev
  intro a ha
  rw [List.dropLast_concat] at ha
  apply hnext a ha
  rintro rfl
  exact List.disjoint_of_nodup_append hnodup ha (List.mem_singleton_self a)

/-- The part from `b` on does not use `prev` of `b`. -/
theorem joined_back {back : List α} {b : α} (hj : (b :: back).IsChain (Joined L))
    (hnodup : (b :: back).Nodup) (hnext : ∀ a ∈ (b :: back).dropLast, L'.next a = L.next a)
    (hprev : ∀ a ∈ back, a ≠ b → L'.prev a = L.prev a) : (b :: back).IsChain (Joined L') := by
  apply joined_frame hj hnext
  intro a ha
  apply hprev a ha
  rintro rfl
  exact (List.nodup_cons.mp hnodup).1 ha

/-- A node at the end. -/
theorem insert (hr : Represents L h xs) (hn : n ∉ h :: xs)
    (hlast : L'.next (L.prev h) = n) (hnew : L'.prev n = L.prev h ∧ L'.next n = h)
    (hhead : L'.prev h = n)
    (hnext : ∀ a, a ≠ L.prev h → a ≠ n → L'.next a = L.next a)
    (hprev : ∀ a, a ≠ h → a ≠ n → L'.prev a = L.prev a) : Represents L' h (xs ++ [n]) := by
  have hnodup : (h :: (xs ++ [n])).Nodup := by
    rw [← List.cons_append, List.nodup_append]
    refine ⟨hr.nodup, List.nodup_singleton n, ?_⟩
    intro a ha b hb hab
    rw [List.mem_singleton] at hb
    exact hn (hb ▸ hab ▸ ha)
  obtain ⟨front, hfront⟩ := hr.front_of_head
  have hsplit : h :: (xs ++ [n] ++ [h]) = front ++ L.prev h :: n :: [h] := by
    rw [List.append_assoc, ← List.cons_append, hfront]
    simp
  have hold : (front ++ [L.prev h]).IsChain (Joined L) := by
    have hj := hr.joined
    rw [← List.cons_append, hfront] at hj
    exact hj.left_of_append
  have hnodup' := hr.nodup
  rw [hfront] at hnodup' hn
  refine ⟨hnodup, ?_⟩
  rw [hsplit, List.isChain_append_cons_cons]
  refine ⟨joined_front hold hnodup' ?_ ?_, ⟨hlast, hnew.1⟩,
    List.isChain_cons_cons.mpr ⟨⟨hnew.2, hhead⟩, .singleton h⟩⟩
  · intro a ha hne
    apply hnext a hne
    rintro rfl
    exact hn (List.mem_append_left _ ha)
  · intro a ha
    have hmem := List.mem_of_mem_tail ha
    rw [← hfront, List.tail_cons] at ha
    refine hprev a ?_ ?_
    · rintro rfl
      exact hr.head_notMem ha
    · rintro rfl
      exact hn hmem

/-- A node less. -/
theorem remove (hr : Represents L h (xs ++ n :: ys)) (hnext : L'.next (L.prev n) = L.next n)
    (hprev : L'.prev (L.next n) = L.prev n) (hn : ∀ a, a ≠ L.prev n → L'.next a = L.next a)
    (hp : ∀ a, a ≠ L.next n → L'.prev a = L.prev a) : Represents L' h (xs ++ ys) := by
  have hnodup : (h :: (xs ++ ys)).Nodup := by
    refine hr.nodup.sublist ?_
    exact List.Sublist.cons_cons h ((List.Sublist.refl xs).append (List.sublist_cons_self n ys))
  obtain ⟨front, hfront⟩ := hr.front_of_node
  obtain ⟨back, hback⟩ := hr.back_of_node
  have hjoined := hr.joined
  have hsplit : h :: (xs ++ n :: ys ++ [h]) = front ++ [L.prev n] ++ n :: L.next n :: back := by
    rw [← hfront, ← hback]
    simp
  rw [hsplit, List.isChain_append_cons_cons] at hjoined
  have hsplit' : h :: (xs ++ ys ++ [h]) = front ++ L.prev n :: L.next n :: back := by
    rw [List.append_assoc, ← List.cons_append, hfront, hback]
    simp
  refine ⟨hnodup, ?_⟩
  rw [hsplit', List.isChain_append_cons_cons]
  have hfrontNodup : (front ++ [L.prev n]).Nodup := by
    rw [← hfront]
    exact hnodup.sublist (List.Sublist.cons_cons h (List.sublist_append_left xs ys))
  have hbackNodup : (L.next n :: back).Nodup := by
    have hhys := List.nodup_cons.mp hnodup
    rw [← hback, List.nodup_append]
    refine ⟨(List.nodup_append.mp hhys.2).2.1, List.nodup_singleton h, ?_⟩
    intro a ha b hb hab
    rw [List.mem_singleton] at hb
    exact hhys.1 (List.mem_append_right _ (hb ▸ hab ▸ ha))
  have hapart : ∀ a ∈ h :: xs, a ∉ ys := by
    rw [← List.cons_append] at hnodup
    exact fun a ha => List.disjoint_of_nodup_append hnodup ha
  refine ⟨joined_front hjoined.1.left_of_append hfrontNodup (fun a _ => hn a) ?_,
    ⟨hnext, hprev⟩, joined_back hjoined.2.2 hbackNodup ?_ (fun a _ => hp a)⟩
  · -- `prev` changes behind `n` only
    intro a ha
    rw [← hfront, List.tail_cons] at ha
    apply hp a
    rintro rfl
    have hmem : L.next n ∈ ys ++ [h] := by simp [hback]
    rcases List.mem_append.mp hmem with hy | hy
    · exact hapart _ (List.mem_cons_of_mem _ ha) hy
    · rw [List.mem_singleton] at hy
      rw [hy] at ha
      exact (List.nodup_cons.mp hnodup).1 (List.mem_append_left _ ha)
  · -- and `next` before it
    intro a ha
    rw [← hback, List.dropLast_concat] at ha
    apply hn a
    rintro rfl
    have hmem : L.prev n ∈ h :: xs := by simp [hfront]
    exact hapart _ hmem ha

/-- Another head. -/
theorem rehead (hr : Represents L h xs) (hk : k ∉ h :: xs) (hne : xs ≠ [])
    (hkn : L'.next k = L.next h ∧ L'.prev k = L.prev h)
    (hfirst : L'.prev (L.next h) = k) (hlast : L'.next (L.prev h) = k)
    (hnext : ∀ a ∈ xs, a ≠ L.prev h → L'.next a = L.next a)
    (hprev : ∀ a ∈ xs, a ≠ L.next h → L'.prev a = L.prev a) : Represents L' k xs := by
  have hkxs : k ∉ xs := fun hmem => hk (List.mem_cons_of_mem _ hmem)
  refine ⟨List.nodup_cons.mpr ⟨hkxs, hr.nodup_nodes⟩, ?_⟩
  obtain ⟨front, hfront⟩ : ∃ front, xs = front ++ [L.prev h] := by
    refine ⟨xs.dropLast, ?_⟩
    rw [hr.prev_head, List.getLast_cons hne]
    exact (List.dropLast_append_getLast hne).symm
  obtain ⟨back, hback⟩ : ∃ back, xs = L.next h :: back := by
    refine ⟨xs.tail, ?_⟩
    rw [hr.next_head, List.head_append_of_ne_nil hne]
    exact (List.cons_head_tail hne).symm
  have hxs : xs.IsChain (Joined L) := by
    have hj := hr.joined
    rw [← List.singleton_append] at hj
    exact hj.right_of_append.left_of_append
  have hnodup := hr.nodup_nodes
  have hxs' : xs.IsChain (Joined L') := by
    refine joined_frame hxs ?_ ?_
    · intro a ha
      apply hnext a (List.mem_of_mem_dropLast ha)
      rintro rfl
      rw [hfront, List.dropLast_concat] at ha
      rw [hfront] at hnodup
      exact List.disjoint_of_nodup_append hnodup ha (List.mem_singleton_self _)
    · intro a ha
      apply hprev a (List.mem_of_mem_tail ha)
      rintro rfl
      rw [hback, List.tail_cons] at ha
      rw [hback] at hnodup
      exact (List.nodup_cons.mp hnodup).1 ha
  have hjoin : (xs ++ [k]).IsChain (Joined L') := by
    rw [hfront] at hxs' ⊢
    rw [List.append_assoc, List.singleton_append, List.isChain_append_cons_cons]
    exact ⟨hxs', ⟨hlast, hkn.2⟩, .singleton k⟩
  have hstart : k :: (xs ++ [k]) = k :: L.next h :: (back ++ [k]) := by
    rw [hback]
    rfl
  rw [hstart, List.isChain_cons_cons]
  refine ⟨⟨hkn.1, hfirst⟩, ?_⟩
  rw [← List.cons_append, ← hback]
  exact hjoin

end Represents

end LinkedRing
