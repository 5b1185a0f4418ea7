import MyWorkEnv.Lib.Custody
import MyWorkEnv.MyUtils.List

/-!
# `MY_LIST_FOR_EACH` with a body that frees

The loop looks one node ahead, so that its body may unlink and free the node it
is given. At the last node the one ahead is the head, which is never freed, and
which the loop treats like the structure of a node.

Every access to a node is recorded, with the head among the nodes. What a freed
node then holds is up to the allocator: the loop may not depend on it.
-/

namespace MyWorkEnv

open Custody LinkedRing

variable {α : Type} {L : Links α} {h n : α} {kept ys : List α} {remove : α → Bool}

/-! ## What is to come and what is kept -/

/-- What stands in front of the nodes to come, or the head behind the last. -/
def frontOf (h : α) (ys : List α) : α := (ys ++ [h]).head (by simp)

@[simp] theorem frontOf_nil : frontOf h [] = h := rfl

@[simp] theorem frontOf_cons : frontOf h (n :: ys) = n := rfl

theorem frontOf_mem {xs : List α} (hsub : ∀ a ∈ ys, a ∈ xs) : frontOf h ys ∈ h :: xs := by
  cases ys with
  | nil => exact List.mem_cons_self
  | cons n ys => exact List.mem_cons_of_mem _ (hsub n List.mem_cons_self)

/-- What the body makes of the node in front. -/
def keptAfter (remove : α → Bool) (kept : List α) (n : α) : List α :=
  if remove n then kept else kept ++ [n]

theorem filter_keptAfter : kept ++ (n :: ys).filter (fun a => !remove a) =
    keptAfter remove kept n ++ ys.filter fun a => !remove a := by
  unfold keptAfter
  split_ifs with hremove
  · simp [hremove]
  · simp [hremove]

/-! ## The loop -/

/-- What a loop has visited, the pointers it leaves, and its accesses. -/
structure ForEachRun (α : Type) where
  visited : List α
  links : Links α
  trace : List (Access α)

/-- `MY_LIST_ENTRY(node->Next)` -/
def entryReads (L : Links α) (node : α) : List (Access α) :=
  [.use node, .use (L.next node)]

/-- `MY_LIST_DEL_NODE`, and the release of the container. -/
def delReads (L : Links α) (node : α) : List (Access α) :=
  [.use node, .use (L.prev node), .use (L.next node), .release node]

/-- Reads of `tmp->List`, unless `tmp` is `NULL`. -/
def aheadReads (L : Links α) : Option α → List (Access α)
  | none => []
  | some node => entryReads L node

/-- The body reads its node, and unlinks and frees it if it is in `remove`. -/
def bodyReads (remove : α → Bool) (L : Links α) (node : α) : List (Access α) :=
  if remove node then .use node :: delReads L node else [.use node]

theorem acquire_notMem_bodyReads {a : α} : .acquire a ∉ bodyReads remove L n := by
  unfold bodyReads
  split_ifs <;> simp [delReads]

theorem acquire_notMem_aheadReads {a : α} {tmp : Option α} : .acquire a ∉ aheadReads L tmp := by
  cases tmp <;> simp [aheadReads, entryReads]

variable [DecidableEq α]

/-! ## The pointers of a freed node -/

/-- What becomes of the pointers of a node that is freed. The heap may put anything there, and
changes no other node. -/
structure Allocator (α : Type) where
  freed : Links α → α → Links α
  next_of_ne (L : Links α) {n a : α} : a ≠ n → (freed L n).next a = L.next a
  prev_of_ne (L : Links α) {n a : α} : a ≠ n → (freed L n).prev a = L.prev a

/-- Leaves what was there. -/
def Allocator.untouched : Allocator α where
  freed L _ := L
  next_of_ne _ := fun _ => rfl
  prev_of_ne _ := fun _ => rfl

/-- Overwrites both pointers. -/
def Allocator.poison (bad : α) : Allocator α where
  freed L node := (L.setPrev node bad).setNext node bad
  next_of_ne L := fun ha => by simp [Links.setPrev, Links.setNext, ha]
  prev_of_ne L := fun ha => by simp [Links.setPrev, Links.setNext, ha]

/-- The body of the loop: it unlinks and frees the nodes in `remove`. -/
def bodyLinks (A : Allocator α) (remove : α → Bool) (L : Links α) (node : α) : Links α :=
  if remove node then A.freed (myListDelNode L node) node else L

/-- The loop from its test on, on a heap that may overwrite what is freed. -/
def forEachLoop (A : Allocator α) (head : α) (remove : α → Bool) :
    ℕ → Option α × Option α → Links α → Option (ForEachRun α)
  | 0, _, _ => none
  | rounds + 1, (loop, tmp), L =>
      match myListForEachTest head loop with
      | none => some ⟨[], L, []⟩
      | some node =>
          let L' := bodyLinks A remove L node
          (forEachLoop A head remove rounds (myListForEachStep L' tmp) L').map fun r =>
            ⟨node :: r.visited, r.links, bodyReads remove L node ++ aheadReads L' tmp ++ r.trace⟩

/-- `MY_LIST_FOR_EACH` -/
def myListForEach (A : Allocator α) (head : α) (remove : α → Bool) (rounds : ℕ) (L : Links α) :
    Option (ForEachRun α) :=
  (forEachLoop A head remove rounds (myListForEachInit L head) L).map fun r =>
    { r with trace :=
        entryReads L head ++ aheadReads L (myListEntry L (L.next head)) ++ r.trace }

/-! ## One round -/

/-- The nodes of a ring, with its head, are what the loop may touch. -/
def owned (h : α) (xs : List α) : Finset α := (h :: xs).toFinset

theorem mem_owned {a : α} {xs : List α} : a ∈ owned h xs ↔ a ∈ h :: xs := List.mem_toFinset

theorem owned_middle : owned h (kept ++ n :: ys) = insert n (owned h (kept ++ ys)) := by
  ext a
  simp only [Finset.mem_insert, mem_owned, List.mem_cons, List.mem_append]
  tauto

theorem notMem_others (hr : Represents L h (kept ++ n :: ys)) : n ∉ owned h (kept ++ ys) := by
  have hnodup : (h :: kept ++ n :: ys).Nodup := hr.nodup
  rw [mem_owned]
  exact (List.nodup_cons.mp (List.nodup_middle.mp hnodup)).1

/-- What is given up is what the body frees. -/
theorem mem_owned_not_kept (hr : Represents L h ys) :
    n ∈ owned h ys ∧ n ∉ owned h (ys.filter fun a => !remove a) ↔ n ∈ ys ∧ remove n = true := by
  simp only [mem_owned, List.mem_cons, List.mem_filter, Bool.not_eq_true', not_or, not_and,
    Bool.not_eq_false]
  constructor
  · rintro ⟨hmem, hne, hremove⟩
    have hys := hmem.resolve_left hne
    exact ⟨hys, hremove hys⟩
  · rintro ⟨hys, hremove⟩
    refine ⟨Or.inr hys, ?_, fun _ => hremove⟩
    rintro rfl
    exact hr.head_notMem hys

theorem bodyLinks_represents (A : Allocator α) (remove : α → Bool)
    (hr : Represents L h (kept ++ n :: ys)) :
    Represents (bodyLinks A remove L n) h (keptAfter remove kept n ++ ys) := by
  unfold bodyLinks keptAfter
  split_ifs
  · -- nothing in the ring is the node that is freed
    have hunlinked := myListDelNode_represents hr
    have hother : ∀ a ∈ h :: (kept ++ ys), a ≠ n := by
      rintro a ha rfl
      exact notMem_others hr (mem_owned.mpr ha)
    exact hunlinked.frame (fun a ha => A.next_of_ne _ (hother a ha))
      fun a ha => A.prev_of_ne _ (hother a ha)
  · simpa using hr

theorem uses_entryReads {xs : List α} (hr : Represents L h xs) (hn : n ∈ h :: xs) :
    Uses (owned h xs) (entryReads L n) :=
  (Uses.nil.cons (mem_owned.mpr (hr.next_mem hn))).cons (mem_owned.mpr hn)

theorem uses_aheadReads {xs : List α} (hr : Represents L h xs) {tmp : Option α}
    (htmp : ∀ n ∈ tmp, n ∈ h :: xs) : Uses (owned h xs) (aheadReads L tmp) := by
  cases tmp with
  | none => exact Uses.nil
  | some n => exact uses_entryReads hr (htmp n rfl)

/-- The body gives the node up if it unlinks it. -/
theorem run_body (remove : α → Bool) (hr : Represents L h (kept ++ n :: ys)) :
    run (owned h (kept ++ n :: ys)) (bodyReads remove L n) =
      some (owned h (keptAfter remove kept n ++ ys)) := by
  have hn : n ∈ h :: (kept ++ n :: ys) := by simp
  have huse := mem_owned.mpr hn
  unfold bodyReads keptAfter
  split_ifs
  · have hprev := mem_owned.mpr (hr.prev_mem hn)
    have hnext := mem_owned.mpr (hr.next_mem hn)
    have huses : Uses (owned h (kept ++ n :: ys))
        [.use n, .use n, .use (L.prev n), .use (L.next n)] :=
      (((Uses.nil.cons hnext).cons hprev).cons huse).cons huse
    have hfree : (owned h (kept ++ n :: ys)).erase n = owned h (kept ++ ys) := by
      rw [owned_middle, Finset.erase_insert (notMem_others hr)]
    have hrelease : run (owned h (kept ++ n :: ys)) [.release n] = some (owned h (kept ++ ys)) := by
      rw [run_release huse, run_nil, hfree]
    exact huses.run_append.trans hrelease
  · rw [List.append_assoc, List.singleton_append]
    exact (Uses.nil.cons huse).run

/-! ## All rounds -/

variable {A : Allocator α}

/-- **The loop from the nodes `ys` on**: it runs once for each of them, in order, touches no
node that it has freed, and leaves those that it has not. -/
theorem forEachLoop_represents (A : Allocator α) (remove : α → Bool)
    (hr : Represents L h (kept ++ ys)) {tmp : Option α}
    (htmp : ∀ n ys', ys = n :: ys' → tmp = some (frontOf h ys')) {rounds : ℕ}
    (hrounds : ys.length < rounds) :
    ∃ r, forEachLoop A h remove rounds (some (frontOf h ys), tmp) L = some r ∧
      r.visited = ys ∧
      Represents r.links h (kept ++ ys.filter fun a => !remove a) ∧
      run (owned h (kept ++ ys)) r.trace =
        some (owned h (kept ++ ys.filter fun a => !remove a)) := by
  induction ys generalizing L kept tmp rounds with
  | nil =>
      obtain ⟨rounds, rfl⟩ := Nat.exists_eq_succ_of_ne_zero (Nat.ne_of_gt hrounds)
      have htest : myListForEachTest h (some h) = none := by
        simp [myListForEachTest, Option.filter]
      exact ⟨⟨[], L, []⟩, by simp [forEachLoop, htest], rfl, hr, rfl⟩
  | cons n ys ih =>
      obtain ⟨rounds, rfl⟩ := Nat.exists_eq_succ_of_ne_zero (Nat.ne_of_gt (Nat.zero_lt_of_lt hrounds))
      have hn : n ≠ h := by
        rintro rfl
        exact hr.head_notMem (by simp)
      have htest : myListForEachTest h (some n) = some n := by
        simp [myListForEachTest, hn]
      have hr' := bodyLinks_represents A remove hr
      set L' := bodyLinks A remove L n with hL'
      -- the node ahead was found before the body ran, and the body has left it in the ring
      obtain rfl := htmp n ys rfl
      have hahead : ∀ m ys', ys = m :: ys' →
          (some (frontOf h ys)).bind (fun m => myListEntry L' (L'.next m)) =
            some (frontOf h ys') := by
        rintro m ys' rfl
        exact congrArg Prod.snd (myListForEachStep_node hr')
      obtain ⟨r, heq, hvisited, hring, hrun⟩ :=
        ih hr' hahead (Nat.lt_of_succ_lt_succ hrounds)
      have hreads : Uses (owned h (keptAfter remove kept n ++ ys))
          (aheadReads L' (some (frontOf h ys))) := by
        refine uses_aheadReads hr' ?_
        rintro m ⟨⟩
        exact frontOf_mem fun a ha => List.mem_append_right _ ha
      refine ⟨⟨n :: r.visited, r.links, bodyReads remove L n ++
        aheadReads L' (some (frontOf h ys)) ++ r.trace⟩, ?_, by rw [hvisited], ?_, ?_⟩
      · simp only [forEachLoop, frontOf_cons, htest, ← hL']
        rw [myListForEachStep, heq]
        rfl
      · rw [filter_keptAfter]
        exact hring
      · rw [filter_keptAfter, List.append_assoc, run_append, run_body remove hr, Option.bind_some,
          hreads.run_append, hrun]

/-- A loop that has ended does not change with the rounds it may still take. -/
theorem forEachLoop_mono {p : Option α × Option α} {r : ForEachRun α} {rounds rounds' : ℕ}
    (hr : forEachLoop A h remove rounds p L = some r) (hle : rounds ≤ rounds') :
    forEachLoop A h remove rounds' p L = some r := by
  induction rounds generalizing p L r rounds' with
  | zero => cases hr
  | succ rounds ih =>
      obtain ⟨rounds', rfl⟩ := Nat.exists_eq_succ_of_ne_zero (Nat.ne_of_gt (Nat.zero_lt_of_lt hle))
      obtain ⟨loop, tmp⟩ := p
      simp only [forEachLoop] at hr ⊢
      cases htest : myListForEachTest h loop with
      | none => simpa [htest] using hr
      | some node =>
          simp only [htest, Option.map_eq_some_iff] at hr ⊢
          obtain ⟨r', hr', rfl⟩ := hr
          exact ⟨r', ih hr' (Nat.le_of_succ_le_succ hle), rfl⟩

/-- The loop allocates nothing, so what it frees stays freed. -/
theorem acquire_notMem_forEachLoop {p : Option α × Option α} {r : ForEachRun α} {rounds : ℕ}
    {a : α} (hr : forEachLoop A h remove rounds p L = some r) : .acquire a ∉ r.trace := by
  induction rounds generalizing p L r with
  | zero => cases hr
  | succ rounds ih =>
      obtain ⟨loop, tmp⟩ := p
      simp only [forEachLoop] at hr
      cases htest : myListForEachTest h loop with
      | none =>
          simp only [htest, Option.some.injEq] at hr
          rw [← hr]
          exact List.not_mem_nil
      | some node =>
          simp only [htest, Option.map_eq_some_iff] at hr
          obtain ⟨r', hr', rfl⟩ := hr
          simp only [List.mem_append, not_or]
          exact ⟨⟨acquire_notMem_bodyReads, acquire_notMem_aheadReads⟩, ih hr'⟩

/-! ## The whole loop -/

theorem myListForEach_represents (A : Allocator α) (remove : α → Bool) (hr : Represents L h ys)
    {rounds : ℕ} (hrounds : ys.length < rounds) :
    ∃ r, myListForEach A h remove rounds L = some r ∧ r.visited = ys ∧
      Represents r.links h (ys.filter fun a => !remove a) ∧
      run (owned h ys) r.trace = some (owned h (ys.filter fun a => !remove a)) := by
  have hr' : Represents L h ([] ++ ys) := hr
  have hhead := uses_entryReads hr List.mem_cons_self
  cases ys with
  | nil =>
      -- the head points to itself, so there is nothing to start with
      obtain ⟨rounds, rfl⟩ := Nat.exists_eq_succ_of_ne_zero (Nat.ne_of_gt hrounds)
      have hself := (Represents.nil_iff.mp hr).1
      have hnull : myListEntry L (L.next h) = none := by simp [myListEntry, hself]
      have htest : myListForEachTest h (none : Option α) = none := rfl
      refine ⟨⟨[], L, entryReads L h⟩, ?_, rfl, hr, ?_⟩
      · simp [myListForEach, forEachLoop, myListForEachInit, hnull, htest, aheadReads]
      · exact hhead.run
  | cons n ys =>
      have hfirst : myListEntry L (L.next h) = some n := by
        rw [hr.next_head]
        exact myListEntry_node hr'
      have htmp : ∀ m ys', n :: ys = m :: ys' →
          some ((ys ++ [h]).head (by simp)) = some (frontOf h ys') := by
        rintro m ys' ⟨⟩
        rfl
      obtain ⟨r, heq, hvisited, hring, hrun⟩ :=
        forEachLoop_represents A remove hr' htmp hrounds
      have hreads : Uses (owned h (n :: ys)) (entryReads L h ++ aheadReads L (some n)) :=
        hhead.append (uses_entryReads hr (by simp))
      refine ⟨{ r with trace := entryReads L h ++ aheadReads L (some n) ++ r.trace },
        ?_, hvisited, hring, ?_⟩
      · rw [myListForEach, myListForEachInit_cons hr]
        rw [frontOf_cons] at heq
        rw [heq, hfirst]
        rfl
      · exact hreads.run_append.trans hrun

theorem myListForEach_mono {r : ForEachRun α} {rounds rounds' : ℕ}
    (hr : myListForEach A h remove rounds L = some r) (hle : rounds ≤ rounds') :
    myListForEach A h remove rounds' L = some r := by
  rw [myListForEach, Option.map_eq_some_iff] at hr ⊢
  obtain ⟨r', hr', rfl⟩ := hr
  exact ⟨r', forEachLoop_mono hr' hle, rfl⟩

/-- However many rounds it was given, a loop that has ended has done this. -/
theorem myListForEach_of_isSome (A : Allocator α) (remove : α → Bool) (hr : Represents L h ys)
    {rounds : ℕ} (hends : (myListForEach A h remove rounds L).isSome = true) :
    ∃ r, myListForEach A h remove rounds L = some r ∧ r.visited = ys ∧
      Represents r.links h (ys.filter fun a => !remove a) ∧
      run (owned h ys) r.trace = some (owned h (ys.filter fun a => !remove a)) := by
  obtain ⟨r, hr'⟩ := Option.isSome_iff_exists.mp hends
  obtain ⟨r', heq, hrest⟩ := myListForEach_represents A remove hr
    (Nat.lt_of_lt_of_le (Nat.lt_succ_self ys.length) (Nat.le_max_right rounds _))
  have hsame := myListForEach_mono hr' (Nat.le_max_left rounds (ys.length + 1))
  rw [heq, Option.some.injEq] at hsame
  exact ⟨r, hr', hsame ▸ hrest⟩

theorem acquire_notMem_myListForEach {r : ForEachRun α} {rounds : ℕ} {a : α}
    (hr : myListForEach A h remove rounds L = some r) : .acquire a ∉ r.trace := by
  rw [myListForEach, Option.map_eq_some_iff] at hr
  obtain ⟨r', hr', rfl⟩ := hr
  have hentry : .acquire a ∉ entryReads L h := by simp [entryReads]
  simp only [List.mem_append, not_or]
  exact ⟨⟨hentry, acquire_notMem_aheadReads⟩, acquire_notMem_forEachLoop hr'⟩

/-- What there is to say about a traversal `r` of the nodes `ys` that unlinks and frees those
in `remove`. -/
structure Traversal (A : Allocator α) (h : α) (remove : α → Bool) (L : Links α) (ys : List α)
    (r : ForEachRun α) : Prop where
  ends : ∀ rounds, ys.length < rounds → myListForEach A h remove rounds L = some r
  visited : r.visited = ys
  once : ∀ n ∈ ys, r.visited.count n = 1
  kept : Represents r.links h (ys.filter fun a => !remove a)
  held : run (owned h ys) r.trace = some (owned h (ys.filter fun a => !remove a))
  freed : ∀ n, r.trace.count (.release n) = if n ∈ ys ∧ remove n = true then 1 else 0
  safe : ∀ n before after, r.trace = before ++ .release n :: after →
    ∀ a ∈ after, a.resource ≠ n

/-- **Traversal with deletion.** Whatever the body frees, the first nodes, the last or all, and
whatever the heap puts there, the loop visits each node once, reads no freed one, and leaves
the others in order. -/
theorem myListForEach_traverses (A : Allocator α) (remove : α → Bool) (hr : Represents L h ys) :
    ∃ r, Traversal A h remove L ys r := by
  obtain ⟨r, heq, hvisited, hring, hrun⟩ :=
    myListForEach_represents A remove hr (Nat.lt_succ_self ys.length)
  refine ⟨r, ?_, hvisited, ?_, hring, hrun, ?_, ?_⟩
  · intro rounds hrounds
    exact myListForEach_mono heq hrounds
  · intro n hn
    rw [hvisited]
    exact List.count_eq_one_of_mem hr.nodup_nodes hn
  · intro n
    rw [count_release_of_run hrun (acquire_notMem_myListForEach heq)]
    exact if_congr (mem_owned_not_kept hr) rfl rfl
  · intro n before after htrace
    have hacquire := acquire_notMem_myListForEach (a := n) heq
    rw [htrace] at hrun hacquire
    refine not_accessed_after hrun fun hmem => hacquire ?_
    exact List.mem_append_right _ (List.mem_cons_of_mem _ hmem)

/-- Two nodes behind the head `0`. -/
def twoNodes : Links ℕ :=
  myListAddTail (myListAddTail (myListNodeInit ⟨id, id⟩ 0) 1 0) 2 0

theorem myListForEach_traverses_all :
    ∃ r, Traversal (.poison 9) 0 (fun _ => true) twoNodes [1, 2] r :=
  myListForEach_traverses _ _ <| myListAddTail_represents
    (myListAddTail_represents (myListNodeInit_represents _ 0) (by decide)) (by decide)

end MyWorkEnv
