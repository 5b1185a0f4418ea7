import Mathlib.Tactic

/-!
# Queues that are emptied in batches

Items are put at the end of one queue. A worker with nothing left takes all of
it at once, and then deals with what it took one item after the other; an item
it is through with is dropped, or kept where it lies in the batch. Whatever
the order of the steps, an item is queued, in the rest of one worker's batch,
or dealt with, and never in two of these (`Wf.perm`); a batch is a run of the
order in which the items were put (`Wf.batch_infix`), and what a worker has
left of it is its end (`Wf.rest_suffix`). So items leave the queue in the order
in which they were put (`Wf.queue_of_later`), and the only worker of a queue
deals with them in that order (`State.InTurn`).
-/

namespace BatchQueue

/-- `order` lists all items ever put. Of the batch a worker took last, `rest`
is still to be dealt with, and `left` was kept where it lies. -/
structure State (T : Type) where
  order : List T
  queue : List T
  batch : ℕ → List T
  left : ℕ → List T
  rest : ℕ → List T
  done : List T

variable {T : Type} {n w v : ℕ} {s : State T} {t u : T}

namespace State

def empty : State T := ⟨[], [], fun _ => [], fun _ => [], fun _ => [], []⟩

def put (s : State T) (t : T) : State T :=
  { s with order := s.order ++ [t], queue := s.queue ++ [t] }

def take (s : State T) (w : ℕ) : State T :=
  { s with
    queue := []
    batch := Function.update s.batch w s.queue
    left := Function.update s.left w []
    rest := Function.update s.rest w s.queue }

/-- The worker is through with the first item of its rest. -/
def drop (s : State T) (w : ℕ) (keep : Bool) : State T :=
  match s.rest w with
  | [] => s
  | t :: ts =>
      { s with
        left := if keep then Function.update s.left w (s.left w ++ [t]) else s.left
        rest := Function.update s.rest w ts
        done := s.done ++ [t] }

theorem drop_cons {ts : List T} (hr : s.rest w = t :: ts) (keep : Bool) :
    s.drop w keep =
      { s with
        left := if keep then Function.update s.left w (s.left w ++ [t]) else s.left
        rest := Function.update s.rest w ts
        done := s.done ++ [t] } := by
  simp [drop, hr]

@[simp] theorem drop_order (s : State T) (w : ℕ) (keep : Bool) :
    (s.drop w keep).order = s.order := by
  unfold drop
  split <;> rfl

@[simp] theorem drop_queue (s : State T) (w : ℕ) (keep : Bool) :
    (s.drop w keep).queue = s.queue := by
  unfold drop
  split <;> rfl

/-- The worker keeps the item where it lies, or leaves the batch as it is. -/
theorem mem_drop_left {ts : List T} (hr : s.rest w = t :: ts) {keep : Bool} {a : T}
    (ha : a ∈ (s.drop w keep).left v) : a ∈ s.left v ∨ (keep = true ∧ v = w ∧ a = t) := by
  rw [drop_cons hr] at ha
  cases keep with
  | false => exact .inl ha
  | true =>
      by_cases hv : v = w
      · rw [hv] at ha ⊢
        simp only [if_true, Function.update_self, List.mem_append, List.mem_singleton] at ha
        exact ha.imp id (fun hat => ⟨rfl, rfl, hat⟩)
      · left
        simpa [hv] using ha

end State

structure Wf (n : ℕ) (s : State T) : Prop where
  nodup : s.order.Nodup
  perm : (s.queue ++ ((List.range n).flatMap s.rest ++ s.done)).Perm s.order
  queue_suffix : s.queue <:+ s.order
  batch_infix : ∀ w, s.batch w <:+: s.order
  rest_suffix : ∀ w, s.rest w <:+ s.batch w
  batch_dealt : ∀ w, ∀ t ∈ s.batch w, t ∈ s.rest w ∨ t ∈ s.done
  left_done : ∀ w, ∀ t ∈ s.left w, t ∈ s.done
  left_unique : ∀ w v t, t ∈ s.left w → t ∈ s.left v → w = v

/-- Another share for one worker. -/
theorem flatMap_update_perm {l : List ℕ} (hl : l.Nodup) (hw : w ∈ l) (f : ℕ → List T)
    (xs : List T) : (l.flatMap (Function.update f w xs) ++ f w).Perm (xs ++ l.flatMap f) := by
  classical
  obtain ⟨front, back, rfl⟩ := List.append_of_mem hw
  have hnodup := List.nodup_append.mp hl
  have hsame : ∀ l' : List ℕ, w ∉ l' → l'.flatMap (Function.update f w xs) = l'.flatMap f := by
    intro l' hl'
    apply List.flatMap_congr
    intro v hv
    rw [Function.update_of_ne]
    rintro rfl
    exact hl' hv
  have hfront : w ∉ front := fun hmem => hnodup.2.2 w hmem w List.mem_cons_self rfl
  have hback : w ∉ back := (List.nodup_cons.mp hnodup.2.1).1
  rw [List.flatMap_append, List.flatMap_append, List.flatMap_cons, List.flatMap_cons,
    hsame front hfront, hsame back hback, Function.update_self]
  rw [List.perm_iff_count]
  intro t
  simp only [List.count_append]
  omega

namespace Wf

/-! ## Where an item is -/

theorem mem_iff (h : Wf n s) :
    t ∈ s.order ↔ t ∈ s.queue ∨ (∃ w < n, t ∈ s.rest w) ∨ t ∈ s.done := by
  rw [← h.perm.mem_iff]
  simp [List.mem_flatMap]

theorem parts_nodup (h : Wf n s) :
    (s.queue ++ ((List.range n).flatMap s.rest ++ s.done)).Nodup :=
  h.perm.nodup_iff.mpr h.nodup

theorem mem_shares (hw : w < n) (ht : t ∈ s.rest w) : t ∈ (List.range n).flatMap s.rest :=
  List.mem_flatMap.mpr ⟨w, List.mem_range.mpr hw, ht⟩

theorem rest_nodup (h : Wf n s) : (s.rest w).Nodup :=
  h.nodup.sublist ((h.rest_suffix w).sublist.trans (h.batch_infix w).sublist)

theorem notMem_rest_of_queue (h : Wf n s) (hw : w < n) (ht : t ∈ s.queue) : t ∉ s.rest w := by
  intro hr
  exact (List.nodup_append.mp h.parts_nodup).2.2 t ht t
    (List.mem_append_left _ (mem_shares hw hr)) rfl

theorem notMem_done_of_queue (h : Wf n s) (ht : t ∈ s.queue) : t ∉ s.done := by
  intro hd
  exact (List.nodup_append.mp h.parts_nodup).2.2 t ht t (List.mem_append_right _ hd) rfl

theorem notMem_done_of_rest (h : Wf n s) (hw : w < n) (ht : t ∈ s.rest w) : t ∉ s.done := by
  intro hd
  have hparts := (List.nodup_append.mp h.parts_nodup).2.1
  exact (List.nodup_append.mp hparts).2.2 t (mem_shares hw ht) t hd rfl

/-- No item is in two workers' hands. -/
theorem rest_unique (h : Wf n s) (hw : w < n) (hv : v < n) (htw : t ∈ s.rest w)
    (htv : t ∈ s.rest v) : w = v := by
  by_contra hne
  have hparts := (List.nodup_append.mp h.parts_nodup).2.1
  have hshares := (List.nodup_append.mp hparts).1
  have hdisj := (List.nodup_flatMap.mp hshares).2
  have hsymm : Std.Symm (Function.onFun List.Disjoint s.rest) := ⟨fun _ _ hd => hd.symm⟩
  exact hdisj.forall (List.mem_range.mpr hw) (List.mem_range.mpr hv) hne htw htv

theorem mem_order_of_rest (h : Wf n s) (hw : w < n) (ht : t ∈ s.rest w) : t ∈ s.order :=
  h.mem_iff.mpr (.inr (.inl ⟨w, hw, ht⟩))

/-! An item in a worker's rest, and one that is elsewhere. -/

theorem ne_of_notMem_order {u : T} (h : Wf n s) (hw : w < n) (ht : t ∈ s.rest w)
    (hu : u ∉ s.order) : u ≠ t := by
  rintro rfl
  exact hu (h.mem_order_of_rest hw ht)

theorem ne_of_queue {u : T} (h : Wf n s) (hw : w < n) (ht : t ∈ s.rest w)
    (hu : u ∈ s.queue) : u ≠ t := by
  rintro rfl
  exact h.notMem_rest_of_queue hw hu ht

theorem ne_of_done {u : T} (h : Wf n s) (hw : w < n) (ht : t ∈ s.rest w)
    (hu : u ∈ s.done) : u ≠ t := by
  rintro rfl
  exact h.notMem_done_of_rest hw ht hu

theorem ne_of_other {u : T} (h : Wf n s) (hw : w < n) (hv : v < n) (hvw : v ≠ w)
    (ht : t ∈ s.rest w) (hu : u ∈ s.rest v) : u ≠ t := by
  rintro rfl
  exact hvw (h.rest_unique hv hw hu ht)

theorem ne_of_tail {u : T} {ts : List T} (h : Wf n s) (hr : s.rest w = t :: ts)
    (hu : u ∈ ts) : u ≠ t := by
  rintro rfl
  have hnodup := h.rest_nodup (w := w)
  rw [hr] at hnodup
  exact (List.nodup_cons.mp hnodup).1 hu

/-- What a worker has behind it of its batch is dealt with. -/
theorem batch_split (h : Wf n s) (w : ℕ) :
    ∃ dealt, s.batch w = dealt ++ s.rest w ∧ ∀ t ∈ dealt, t ∈ s.done := by
  obtain ⟨dealt, hdealt⟩ := h.rest_suffix w
  refine ⟨dealt, hdealt.symm, ?_⟩
  intro t ht
  have hmem : t ∈ s.batch w := by
    rw [← hdealt]
    exact List.mem_append_left _ ht
  have hnodup : (dealt ++ s.rest w).Nodup := by
    rw [hdealt]
    exact h.nodup.sublist (h.batch_infix w).sublist
  rcases h.batch_dealt w t hmem with hr | hd
  · exact absurd rfl ((List.nodup_append.mp hnodup).2.2 t ht t hr)
  · exact hd

/-! ## The operations keep it -/

theorem empty : Wf n (State.empty : State T) where
  nodup := List.nodup_nil
  perm := by simp [State.empty]
  queue_suffix := List.suffix_refl _
  batch_infix _ := List.infix_refl _
  rest_suffix _ := List.suffix_refl _
  batch_dealt _ _ ht := by simp [State.empty] at ht
  left_done _ _ ht := by simp [State.empty] at ht
  left_unique _ _ _ ht := by simp [State.empty] at ht

theorem put (h : Wf n s) (ht : t ∉ s.order) : Wf n (s.put t) where
  nodup := by
    refine List.nodup_append.mpr ⟨h.nodup, List.nodup_singleton t, ?_⟩
    intro a ha b hb hab
    rw [List.mem_singleton] at hb
    exact ht (hb ▸ hab ▸ ha)
  perm := by
    classical
    have hp := h.perm
    rw [List.perm_iff_count] at hp ⊢
    intro a
    have ha := hp a
    simp only [State.put, List.count_append] at ha ⊢
    omega
  queue_suffix := by
    obtain ⟨front, hfront⟩ := h.queue_suffix
    exact ⟨front, by simp [State.put, ← hfront]⟩
  batch_infix w := (h.batch_infix w).trans (List.prefix_append _ _).isInfix
  rest_suffix := h.rest_suffix
  batch_dealt := h.batch_dealt
  left_done := h.left_done
  left_unique := h.left_unique

theorem take (h : Wf n s) (hw : w < n) (hr : s.rest w = []) : Wf n (s.take w) where
  nodup := h.nodup
  perm := by
    have hup := flatMap_update_perm List.nodup_range (List.mem_range.mpr hw) s.rest s.queue
    rw [hr, List.append_nil] at hup
    refine List.Perm.trans ?_ h.perm
    show ([] ++ (_ ++ s.done)).Perm (s.queue ++ (_ ++ s.done))
    rw [List.nil_append, ← List.append_assoc]
    exact hup.append_right s.done
  queue_suffix := List.nil_suffix
  batch_infix v := by
    by_cases hv : v = w
    · rw [hv]
      simpa [State.take] using h.queue_suffix.isInfix
    · simpa [State.take, hv] using h.batch_infix v
  rest_suffix v := by
    by_cases hv : v = w
    · simp [State.take, hv]
    · simpa [State.take, hv] using h.rest_suffix v
  batch_dealt v t ht := by
    by_cases hv : v = w
    · left
      simpa [State.take, hv] using ht
    · simpa [State.take, hv] using h.batch_dealt v t (by simpa [State.take, hv] using ht)
  left_done v t ht := by
    by_cases hv : v = w
    · simp [State.take, hv] at ht
    · exact h.left_done v t (by simpa [State.take, hv] using ht)
  left_unique u v t hu hv := by
    by_cases huw : u = w
    · simp [State.take, huw] at hu
    · by_cases hvw : v = w
      · simp [State.take, hvw] at hv
      · exact h.left_unique u v t (by simpa [State.take, huw] using hu)
          (by simpa [State.take, hvw] using hv)

theorem drop (h : Wf n s) (hw : w < n) (keep : Bool) : Wf n (s.drop w keep) := by
  classical
  cases hr : s.rest w with
  | nil => simpa [State.drop, hr] using h
  | cons t ts =>
      have ht : t ∈ s.rest w := by simp [hr]
      constructor
      case nodup => simpa using h.nodup
      case queue_suffix => simpa using h.queue_suffix
      case perm =>
        have hup := flatMap_update_perm List.nodup_range (List.mem_range.mpr hw) s.rest ts
        have hp := h.perm
        rw [hr, List.perm_iff_count] at hup
        rw [List.perm_iff_count] at hp
        rw [State.drop_cons hr, List.perm_iff_count]
        intro a
        have ha := hp a
        have hua := hup a
        rw [← List.singleton_append] at hua
        simp only [List.count_append] at ha hua ⊢
        omega
      case batch_infix =>
        rw [State.drop_cons hr]
        exact h.batch_infix
      case rest_suffix =>
        intro v
        rw [State.drop_cons hr]
        by_cases hv : v = w
        · have hsuf := h.rest_suffix w
          rw [hr] at hsuf
          simpa [hv] using (List.suffix_cons t ts).trans hsuf
        · simpa [hv] using h.rest_suffix v
      case batch_dealt =>
        intro v a ha
        rw [State.drop_cons hr] at ha ⊢
        rw [List.mem_append, List.mem_singleton]
        rcases h.batch_dealt v a ha with hmem | hdone
        · by_cases hv : v = w
          · rw [hv, hr, List.mem_cons] at hmem
            rcases hmem with hat | hmem
            · exact .inr (.inr hat)
            · exact .inl (by simpa [hv] using hmem)
          · exact .inl (by simpa [hv] using hmem)
        · exact .inr (.inl hdone)
      case left_done =>
        intro v a ha
        have hor := State.mem_drop_left hr ha
        rw [State.drop_cons hr, List.mem_append, List.mem_singleton]
        exact hor.imp (h.left_done v a) (fun hat => hat.2.2)
      case left_unique =>
        intro u v a hau hav
        rcases State.mem_drop_left hr hau with hu | ⟨-, rfl, rfl⟩
        · rcases State.mem_drop_left hr hav with hv | ⟨-, rfl, rfl⟩
          · exact h.left_unique u v a hu hv
          · exact absurd rfl (h.ne_of_done hw ht (h.left_done u a hu))
        · rcases State.mem_drop_left hr hav with hv | ⟨-, rfl, -⟩
          · exact absurd rfl (h.ne_of_done hw ht (h.left_done v a hv))
          · rfl

end Wf

/-! ## Counting by kind -/

/-- One item changes its kind. -/
theorem countP_update [DecidableEq T] {K : Type} {l : List T} {p : K → Bool} {f : T → K}
    {k : K} (hl : l.Nodup) (ht : t ∈ l) :
    l.countP (fun a => p (Function.update f t k a)) + (p (f t)).toNat =
      l.countP (fun a => p (f a)) + (p k).toNat := by
  obtain ⟨front, back, rfl⟩ := List.append_of_mem ht
  have hnodup := List.nodup_append.mp hl
  have hsame : ∀ l' : List T, t ∉ l' →
      l'.countP (fun a => p (Function.update f t k a)) = l'.countP (fun a => p (f a)) := by
    intro l' hl'
    apply List.countP_congr
    intro a ha
    rw [Function.update_of_ne]
    rintro rfl
    exact hl' ha
  have hfront : t ∉ front := fun hmem => hnodup.2.2 t hmem t List.mem_cons_self rfl
  have hback : t ∉ back := (List.nodup_cons.mp hnodup.2.1).1
  rw [List.countP_append, List.countP_append, List.countP_cons, List.countP_cons,
    hsame front hfront, hsame back hback, Function.update_self]
  cases p k <;> cases p (f t) <;> simp <;> omega

/-! ## Who comes first -/

/-- No two items are in both orders. -/
theorem not_swapped {l : List T} (hnodup : l.Nodup) (htu : [t, u].Sublist l) :
    ¬ [u, t].Sublist l := by
  intro hut
  obtain ⟨r, r', rfl, hu, ht⟩ := List.cons_sublist_iff.mp hut
  obtain ⟨q, q', heq, ht', hu'⟩ := List.cons_sublist_iff.mp htu
  rw [List.singleton_sublist] at ht hu'
  have hdisj := List.disjoint_of_nodup_append hnodup
  rw [heq] at hnodup
  have hdisj' := List.disjoint_of_nodup_append hnodup
  rcases List.append_eq_append_iff.mp heq with ⟨c, rfl, -⟩ | ⟨c, rfl, -⟩
  · exact hdisj' (List.mem_append_left c hu) hu'
  · exact hdisj (List.mem_append_left c ht') ht

theorem pair_of_mem {l : List T} (ht : t ∈ l) (hu : u ∈ l) (hne : t ≠ u) :
    [t, u].Sublist l ∨ [u, t].Sublist l := by
  induction l with
  | nil => simp at ht
  | cons a l ih =>
      rw [List.mem_cons] at ht hu
      rcases ht with rfl | ht
      · left
        exact (List.singleton_sublist.mpr (hu.resolve_left hne.symm)).cons_cons t
      · rcases hu with rfl | hu
        · right
          exact (List.singleton_sublist.mpr ht).cons_cons u
        · exact (ih ht hu).imp (fun h => h.cons a) (fun h => h.cons a)

theorem pair_of_sublist {l l' : List T} (hnodup : l.Nodup) (htu : [t, u].Sublist l)
    (hsub : l'.Sublist l) (ht : t ∈ l') (hu : u ∈ l') : [t, u].Sublist l' := by
  have hne : t ≠ u := by
    rintro rfl
    exact not_swapped hnodup htu htu
  rcases pair_of_mem ht hu hne with h | h
  · exact h
  · exact absurd (h.trans hsub) (not_swapped hnodup htu)

theorem pair_of_suffix {front l : List T} (hnodup : (front ++ l).Nodup)
    (htu : [t, u].Sublist (front ++ l)) (ht : t ∈ l) : [t, u].Sublist l := by
  obtain ⟨m, m', heq, hm, hm'⟩ := List.sublist_append_iff.mp htu
  cases m with
  | nil =>
      rw [List.nil_append] at heq
      rwa [heq]
  | cons a m =>
      obtain ⟨rfl, -⟩ := List.cons.inj heq
      exact absurd ht (List.disjoint_of_nodup_append hnodup (hm.subset List.mem_cons_self))

theorem mem_tail_of_pair {l : List T} (htu : [t, u].Sublist l) : u ∈ l.tail :=
  htu.tail.subset List.mem_cons_self

namespace Wf

/-- What was put later leaves the queue later. -/
theorem queue_of_later (h : Wf n s) (htu : [t, u].Sublist s.order) (ht : t ∈ s.queue) :
    u ∈ s.queue := by
  obtain ⟨front, hfront⟩ := h.queue_suffix
  have hnodup := h.nodup
  rw [← hfront] at htu hnodup
  exact List.mem_of_mem_tail (mem_tail_of_pair (pair_of_suffix hnodup htu ht))

/-- A worker comes to the items of a batch in their order. -/
theorem tail_of_later (h : Wf n s) (htu : [t, u].Sublist s.order) (ht : t ∈ s.rest w)
    (hu : u ∈ s.batch w) : u ∈ (s.rest w).tail := by
  have hpair : [t, u].Sublist (s.batch w) :=
    pair_of_sublist h.nodup htu (h.batch_infix w).sublist
      ((h.rest_suffix w).subset ht) hu
  have hnodup := h.nodup.sublist (h.batch_infix w).sublist
  obtain ⟨dealt, hdealt⟩ := h.rest_suffix w
  rw [← hdealt] at hpair hnodup
  exact mem_tail_of_pair (pair_of_suffix hnodup hpair ht)

end Wf

/-! ## One worker -/

/-- The items are dealt with in their order. -/
def State.InTurn (s : State T) : Prop := s.done ++ (s.rest 0 ++ s.queue) = s.order

namespace State.InTurn

theorem empty : (State.empty : State T).InTurn := rfl

theorem put (h : s.InTurn) (t : T) : (s.put t).InTurn := by
  show s.done ++ (s.rest 0 ++ (s.queue ++ [t])) = s.order ++ [t]
  rw [← h]
  simp

theorem take (h : s.InTurn) (hrest : s.rest 0 = []) : (s.take 0).InTurn := by
  have hturn : s.done ++ (s.rest 0 ++ s.queue) = s.order := h
  show s.done ++ (Function.update s.rest 0 s.queue 0 ++ []) = s.order
  rw [Function.update_self, ← hturn, hrest]
  simp

theorem drop (h : s.InTurn) (keep : Bool) : (s.drop 0 keep).InTurn := by
  cases hrest : s.rest 0 with
  | nil => simpa [State.drop, hrest] using h
  | cons t ts =>
      have hturn : s.done ++ (s.rest 0 ++ s.queue) = s.order := h
      rw [State.drop_cons hrest]
      show s.done ++ [t] ++ (Function.update s.rest 0 ts 0 ++ s.queue) = s.order
      rw [Function.update_self, ← hturn, hrest]
      simp

/-- What is put before an item dealt with, or in the worker's hands, is dealt with. -/
theorem done_of_earlier (h : s.InTurn) (hnodup : s.order.Nodup) (htu : [t, u].Sublist s.order)
    (hu : u ∈ s.done ∨ (s.rest 0).head? = some u) : t ∈ s.done := by
  have hturn : s.done ++ (s.rest 0 ++ s.queue) = s.order := h
  have ht : t ∈ s.order := htu.subset List.mem_cons_self
  rw [← hturn] at hnodup htu ht
  refine (List.mem_append.mp ht).resolve_right fun hback => ?_
  have htail := mem_tail_of_pair (pair_of_suffix hnodup htu hback)
  rcases hu with hu | hu
  · exact List.disjoint_of_nodup_append hnodup hu (List.mem_of_mem_tail htail)
  · cases hrest : s.rest 0 with
    | nil => simp [hrest] at hu
    | cons a ts =>
        simp only [hrest, List.head?_cons, Option.some.injEq] at hu
        simp only [hrest, List.cons_append, List.tail_cons] at htail hnodup
        rw [← hu] at htail
        exact (List.nodup_cons.mp (List.nodup_append.mp hnodup).2.1).1 htail

end State.InTurn
end BatchQueue
