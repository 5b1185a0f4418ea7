import MyWorkEnv.Lib.Rest

/-!
# Requests on their way through a server

Clients ask, each in its own order; a server takes the requests into one queue,
answers those in the queue in any order, and the answers go back. `Relay` is
where every request is. Nothing is lost or comes twice (`kept`), each request
is through after four moves (`relay_measure`), and the order of a client's
requests is kept by a server that answers them in turn (`kept_inTurn`).

`Simulates` carries this over to a system whose steps are the moves, and others
between them.
-/

namespace Transition

section Simulation

variable {S S' A A' : Type} {M : System S A} {P : S → A → Prop} {M' : System S' A'}
  {Q : S' → A' → Prop} {R : S → S' → Prop} {ν : S → ℕ} {c : ℕ}

/-- Each step of `M` with `P` is one of `M'` with `Q`, or none. -/
theorem Reach.related (hinit : ∀ s, M.init s → ∃ r, M'.init r ∧ R s r)
    (hstep : ∀ s r a, R s r → M.enabled s a → P s a → R (M.next s a) r ∨
      ∃ b, M'.enabled r b ∧ Q r b ∧ R (M.next s a) (M'.next r b))
    {s : S} (hr : Reach M P s) : ∃ r, Reach M' Q r ∧ R s r := by
  induction hr with
  | init hs =>
      obtain ⟨r, hr, hrel⟩ := hinit _ hs
      exact ⟨r, .init hr, hrel⟩
  | step _ ha hp ih =>
      obtain ⟨r, hr, hrel⟩ := ih
      rcases hstep _ r _ hrel ha hp with hnext | ⟨b, hb, hq, hnext⟩
      · exact ⟨r, hr, hnext⟩
      · exact ⟨_, .step hr hb hq, hnext⟩

/-- Each step of `M` with `P` is one of `M'` with `Q`, or none and lowers `ν`, which the others
raise by no more than `c`. -/
structure Simulates (M : System S A) (P : S → A → Prop) (M' : System S' A')
    (Q : S' → A' → Prop) (R : S → S' → Prop) (ν : S → ℕ) (c : ℕ) : Prop where
  init : ∀ s, M.init s → ∃ r, M'.init r ∧ R s r
  step : ∀ s r a, R s r → M.enabled s a → P s a →
    (R (M.next s a) r ∧ ν (M.next s a) < ν s) ∨
      ∃ b, M'.enabled r b ∧ Q r b ∧ R (M.next s a) (M'.next r b) ∧ ν (M.next s a) ≤ ν s + c

namespace Simulates

theorem reach (h : Simulates M P M' Q R ν c) {s : S} (hr : Reach M P s) :
    ∃ r, Reach M' Q r ∧ R s r := by
  refine hr.related h.init fun s r a hrel ha hp => ?_
  rcases h.step s r a hrel ha hp with ⟨hnext, -⟩ | ⟨b, hb, hq, hnext, -⟩
  · exact .inl hnext
  · exact .inr ⟨b, hb, hq, hnext⟩

variable {J : S' → Prop} {μ : S' → ℕ}

/-- What is still to be done gets less with every step. -/
theorem drops (h : Simulates M P M' Q R ν c) (hm : Measure M' Q J μ) {s : S} {r : S'} {a : A}
    (hrel : R s r) (hj : J r) (ha : M.enabled s a) (hp : P s a) :
    ∃ r', R (M.next s a) r' ∧ J r' ∧
      (c + 1) * μ r' + ν (M.next s a) < (c + 1) * μ r + ν s := by
  rcases h.step s r a hrel ha hp with ⟨hnext, hrank⟩ | ⟨b, hb, hq, hnext, hrank⟩
  · exact ⟨r, hnext, hj, by omega⟩
  · have hdrop := hm.drops r b hj hb hq
    have hcost : (c + 1) * μ (M'.next r b) + (c + 1) ≤ (c + 1) * μ r := by
      rw [← Nat.mul_succ]
      exact Nat.mul_le_mul_left _ hdrop
    exact ⟨_, hnext, hm.keeps r b hj hb hq, by omega⟩

/-- **Every run is bounded.** -/
theorem length_le (h : Simulates M P M' Q R ν c) (hm : Measure M' Q J μ) {s : S} {r : S'}
    {as : List A} (hrel : R s r) (hj : J r) (hl : Legal M P s as) :
    as.length ≤ (c + 1) * μ r + ν s := by
  induction as generalizing s r with
  | nil => exact Nat.zero_le _
  | cons a as ih =>
      obtain ⟨r', hnext, hj', hdrop⟩ := h.drops hm hrel hj hl.1 hl.2.1
      have htail := ih hnext hj' hl.2.2
      rw [List.length_cons]
      omega

/-- **And every run goes on to a rest.** -/
theorem exists_rest (h : Simulates M P M' Q R ν c) (hm : Measure M' Q J μ) {s : S} {r : S'}
    (hrel : R s r) (hj : J r) : ∃ as, Legal M P s as ∧ AtRest M P (exec M s as) := by
  induction hn : (c + 1) * μ r + ν s using Nat.strong_induction_on generalizing s r with
  | _ n ih =>
      by_cases hrest : AtRest M P s
      · exact ⟨[], trivial, hrest⟩
      · simp only [AtRest, not_forall, not_not] at hrest
        obtain ⟨a, ha, hp⟩ := hrest
        obtain ⟨r', hnext, hj', hdrop⟩ := h.drops hm hrel hj ha hp
        obtain ⟨as, hl, has⟩ := ih _ (hn ▸ hdrop) hnext hj' rfl
        exact ⟨a :: as, ⟨ha, hp, hl⟩, has⟩

end Simulates

end Simulation

/-! ## Where the requests are -/

/-- Of each client, the lines it has still to read, its requests on the way to the server, its
answers on the way back and those shown; and the requests that wait at the server. -/
structure Relay (ι β α : Type) where
  asking : ι → List β
  sent : ι → List α
  waiting : List (ι × α)
  answered : ι → List α
  shown : ι → List α

inductive RelayMove (ι : Type) where
  | ask (i : ι)
  | receive (i : ι)
  | answer (k : ℕ)
  | deliver (i : ι)

variable {ι β α : Type} [DecidableEq ι] {asks : β → Option α} {lines : ι → List β}

namespace Relay

def start (lines : ι → List β) : Relay ι β α := ⟨lines, fun _ => [], [], fun _ => [], fun _ => []⟩

def can (r : Relay ι β α) : RelayMove ι → Prop
  | .ask i => r.asking i ≠ []
  | .receive i => r.sent i ≠ []
  | .answer k => k < r.waiting.length
  | .deliver i => r.answered i ≠ []

def next (asks : β → Option α) (r : Relay ι β α) : RelayMove ι → Relay ι β α
  | .ask i =>
      match r.asking i with
      | [] => r
      | line :: rest =>
          { r with
            asking := Function.update r.asking i rest
            sent := Function.update r.sent i (r.sent i ++ (asks line).toList) }
  | .receive i =>
      match r.sent i with
      | [] => r
      | req :: rest =>
          { r with
            sent := Function.update r.sent i rest
            waiting := r.waiting ++ [(i, req)] }
  | .answer k =>
      match r.waiting[k]? with
      | none => r
      | some (i, req) =>
          { r with
            waiting := r.waiting.eraseIdx k
            answered := Function.update r.answered i (r.answered i ++ [req]) }
  | .deliver i =>
      match r.answered i with
      | [] => r
      | req :: rest =>
          { r with
            answered := Function.update r.answered i rest
            shown := Function.update r.shown i (r.shown i ++ [req]) }

end Relay

/-- The clients read `lines`, of which `asks` makes requests. -/
def relaySystem (asks : β → Option α) (lines : ι → List β) :
    System (Relay ι β α) (RelayMove ι) where
  init r := r = .start lines
  enabled r a := r.can a
  next r a := r.next asks a

namespace Relay

/-- The requests of a client that wait. -/
def waitingOf (r : Relay ι β α) (i : ι) : List α := (r.waiting.filter (·.1 = i)).map Prod.snd

/-- All requests of a client, those furthest on first. -/
def through (asks : β → Option α) (r : Relay ι β α) (i : ι) : List α :=
  r.shown i ++ r.answered i ++ r.waitingOf i ++ r.sent i ++ (r.asking i).filterMap asks

/-- An answer goes to a client's request that has waited longest. -/
def InTurn (r : Relay ι β α) : RelayMove ι → Prop
  | .answer k => ∀ j, j < k → (r.waiting[j]?).map Prod.fst ≠ (r.waiting[k]?).map Prod.fst
  | _ => True

variable {r : Relay ι β α}

theorem waitingOf_append (ws : List (ι × α)) (w : ι × α) (i : ι) :
    ((ws ++ [w]).filter (·.1 = i)).map Prod.snd =
      (ws.filter (·.1 = i)).map Prod.snd ++ if w.1 = i then [w.2] else [] := by
  by_cases hw : w.1 = i <;> simp [hw]

omit [DecidableEq ι] in
/-- The queue around the request that is answered. -/
theorem waiting_split {k : ℕ} {w : ι × α} (hw : r.waiting[k]? = some w) :
    r.waiting = r.waiting.take k ++ w :: r.waiting.drop (k + 1) ∧
      r.waiting.eraseIdx k = r.waiting.take k ++ r.waiting.drop (k + 1) := by
  obtain ⟨hk, rfl⟩ := List.getElem?_eq_some_iff.mp hw
  refine ⟨?_, List.eraseIdx_eq_take_drop_succ ..⟩
  rw [List.getElem_cons_drop, List.take_append_drop]

/-- Nobody's request comes before that of its client which is answered in turn. -/
theorem InTurn.none_before {k : ℕ} {w : ι × α} (h : r.InTurn (.answer k))
    (hw : r.waiting[k]? = some w) : (r.waiting.take k).filter (·.1 = w.1) = [] := by
  rw [List.filter_eq_nil_iff]
  intro v hv hsame
  obtain ⟨j, hj, rfl⟩ := List.getElem_of_mem hv
  rw [List.length_take, lt_min_iff] at hj
  refine h j hj.1 ?_
  rw [hw, List.getElem?_eq_getElem hj.2]
  simpa using hsame

/-! ## Nothing is lost, and nothing comes twice -/

theorem through_ask (i j : ι) : (r.next asks (.ask i)).through asks j = r.through asks j := by
  simp only [Relay.next]
  cases hask : r.asking i with
  | nil => rfl
  | cons line rest =>
      simp only [through, waitingOf]
      by_cases hj : j = i
      · subst hj
        rw [Function.update_self, Function.update_self, hask]
        cases hline : asks line <;> simp [hline]
      · rw [Function.update_of_ne hj, Function.update_of_ne hj]

theorem through_receive (i j : ι) :
    (r.next asks (.receive i)).through asks j = r.through asks j := by
  simp only [Relay.next]
  cases hsent : r.sent i with
  | nil => rfl
  | cons req rest =>
      simp only [through, waitingOf, waitingOf_append]
      by_cases hj : j = i
      · subst hj
        rw [Function.update_self, if_pos rfl, hsent]
        simp
      · rw [Function.update_of_ne hj, if_neg (Ne.symm hj), List.append_nil]

theorem through_deliver (i j : ι) :
    (r.next asks (.deliver i)).through asks j = r.through asks j := by
  simp only [Relay.next]
  cases hans : r.answered i with
  | nil => rfl
  | cons req rest =>
      simp only [through, waitingOf]
      by_cases hj : j = i
      · subst hj
        rw [Function.update_self, Function.update_self, hans]
        simp
      · rw [Function.update_of_ne hj, Function.update_of_ne hj]

/-- What is answered out of turn goes past the requests that wait before it. -/
theorem through_answer (k : ℕ) (j : ι) :
    ((r.next asks (.answer k)).through asks j).Perm (r.through asks j) ∧
      (r.InTurn (.answer k) → (r.next asks (.answer k)).through asks j = r.through asks j) := by
  simp only [Relay.next]
  cases hw : r.waiting[k]? with
  | none => exact ⟨.refl _, fun _ => rfl⟩
  | some w =>
      obtain ⟨i, req⟩ := w
      obtain ⟨hsplit, herase⟩ := waiting_split hw
      have hbefore : r.waitingOf j = ((r.waiting.take k).filter (·.1 = j)).map Prod.snd ++
          (if i = j then [req] else []) ++
            ((r.waiting.drop (k + 1)).filter (·.1 = j)).map Prod.snd := by
        conv_lhs => rw [waitingOf, hsplit]
        by_cases hj : i = j <;> simp [hj]
      simp only [through]
      rw [hbefore]
      simp only [waitingOf, herase, List.filter_append, List.map_append]
      by_cases hj : i = j
      · subst hj
        rw [Function.update_self, if_pos rfl]
        constructor
        · refine List.Perm.append_right _ (List.Perm.append_right _ ?_)
          simp only [List.append_assoc]
          refine List.Perm.append_left _ (List.Perm.append_left _ ?_)
          rw [← List.append_assoc, ← List.append_assoc]
          exact List.Perm.append_right _ List.perm_append_comm
        · intro hturn
          have hnone : (r.waiting.take k).filter (·.1 = i) = [] := hturn.none_before hw
          rw [hnone]
          simp
      · rw [Function.update_of_ne (Ne.symm hj), if_neg hj, List.append_nil]
        exact ⟨.refl _, fun _ => rfl⟩

end Relay

/-- **Every request is somewhere, once.** -/
theorem kept {r : Relay ι β α} (h : Reachable (relaySystem asks lines) r) (i : ι) :
    (r.through asks i).Perm ((lines i).filterMap asks) := by
  refine h.invariant (I := fun r => (r.through asks i).Perm ((lines i).filterMap asks)) ?_ ?_
  · rintro r rfl
    exact .refl _
  · intro r a hperm _ _
    cases a with
    | ask j => exact (r.through_ask j i).symm ▸ hperm
    | receive j => exact (r.through_receive j i).symm ▸ hperm
    | answer k => exact (r.through_answer k i).1.trans hperm
    | deliver j => exact (r.through_deliver j i).symm ▸ hperm

/-- **And in its place,** if the server answers in turn. -/
theorem kept_inTurn {r : Relay ι β α} (h : Reach (relaySystem asks lines) Relay.InTurn r)
    (i : ι) : r.through asks i = (lines i).filterMap asks := by
  refine h.invariant (I := fun r => r.through asks i = (lines i).filterMap asks) ?_ ?_
  · rintro r rfl
    rfl
  · intro r a heq _ hturn
    cases a with
    | ask j => exact (r.through_ask j i).trans heq
    | receive j => exact (r.through_receive j i).trans heq
    | answer k => exact ((r.through_answer k i).2 hturn).trans heq
    | deliver j => exact (r.through_deliver j i).trans heq

/-! ## All of them get through -/

namespace Relay

/-- The moves that a client's part takes, beside those of the queue. -/
def costOf (r : Relay ι β α) (i : ι) : ℕ :=
  4 * (r.asking i).length + 3 * (r.sent i).length + (r.answered i).length

/-- No request needs more moves. -/
def cost (I : Finset ι) (r : Relay ι β α) : ℕ := ∑ i ∈ I, r.costOf i + 2 * r.waiting.length

/-- Only the clients of `I` have asked, or will. -/
structure Among (I : Finset ι) (r : Relay ι β α) : Prop where
  idle : ∀ i, i ∉ I → r.asking i = [] ∧ r.sent i = [] ∧ r.answered i = []
  waiting : ∀ w ∈ r.waiting, w.1 ∈ I

/-- Every request has been asked, answered and shown. -/
structure Done (r : Relay ι β α) : Prop where
  asking : ∀ i, r.asking i = []
  sent : ∀ i, r.sent i = []
  waiting : r.waiting = []
  answered : ∀ i, r.answered i = []

theorem Done.through {r : Relay ι β α} (h : r.Done) (i : ι) : r.through asks i = r.shown i := by
  simp [Relay.through, waitingOf, h.asking, h.sent, h.waiting, h.answered]

variable {I : Finset ι} {r : Relay ι β α}

theorem Among.mem (h : r.Among I) {i : ι}
    (hne : r.asking i ≠ [] ∨ r.sent i ≠ [] ∨ r.answered i ≠ []) : i ∈ I := by
  by_contra hi
  obtain ⟨hasking, hsent, hanswered⟩ := h.idle i hi
  simp [hasking, hsent, hanswered] at hne

theorem Among.next (h : r.Among I) {a : RelayMove ι} (ha : r.can a) :
    (r.next asks a).Among I := by
  cases a with
  | ask i =>
      have hi : i ∈ I := h.mem (.inl ha)
      simp only [Relay.next]
      cases hask : r.asking i with
      | nil => exact h
      | cons line rest =>
          refine ⟨fun j hj => ?_, h.waiting⟩
          have hne : j ≠ i := fun hij => hj (hij ▸ hi)
          simpa only [Function.update_of_ne hne] using h.idle j hj
  | receive i =>
      have hi : i ∈ I := h.mem (.inr (.inl ha))
      simp only [Relay.next]
      cases hsent : r.sent i with
      | nil => exact h
      | cons req rest =>
          refine ⟨fun j hj => ?_, fun w hw => ?_⟩
          · have hne : j ≠ i := fun hij => hj (hij ▸ hi)
            simpa only [Function.update_of_ne hne] using h.idle j hj
          · rcases List.mem_append.mp hw with hw | hw
            · exact h.waiting w hw
            · rw [List.mem_singleton.mp hw]
              exact hi
  | answer k =>
      simp only [Relay.next]
      cases hw : r.waiting[k]? with
      | none => exact h
      | some w =>
          have hi : w.1 ∈ I := h.waiting w (List.mem_of_getElem? hw)
          refine ⟨fun j hj => ?_, fun v hv => h.waiting v (List.mem_of_mem_eraseIdx hv)⟩
          have hne : j ≠ w.1 := fun hij => hj (hij ▸ hi)
          simpa only [Function.update_of_ne hne] using h.idle j hj
  | deliver i =>
      have hi : i ∈ I := h.mem (.inr (.inr ha))
      simp only [Relay.next]
      cases hans : r.answered i with
      | nil => exact h
      | cons req rest =>
          refine ⟨fun j hj => ?_, h.waiting⟩
          have hne : j ≠ i := fun hij => hj (hij ▸ hi)
          simpa only [Function.update_of_ne hne] using h.idle j hj

theorem cost_next (h : r.Among I) {a : RelayMove ι} (ha : r.can a) :
    (r.next asks a).cost I < r.cost I := by
  cases a with
  | ask i =>
      obtain ⟨line, rest, hask⟩ := List.exists_cons_of_ne_nil ha
      have hone : (asks line).toList.length ≤ 1 := by cases asks line <;> simp
      have hsum : ∑ j ∈ I, (r.next asks (.ask i)).costOf j + 0 < ∑ j ∈ I, r.costOf j + 0 := by
        refine sum_drop (h.mem (.inl ha)) (fun j _ hj => ?_) ?_
        · simp only [Relay.next, hask, costOf, Function.update_of_ne hj]
        · simp only [Relay.next, hask, costOf, Function.update_self, List.length_append,
            List.length_cons]
          omega
      simp only [Relay.next, hask] at hsum
      simp only [Relay.next, hask, cost]
      omega
  | receive i =>
      obtain ⟨req, rest, hsent⟩ := List.exists_cons_of_ne_nil ha
      have hsum : ∑ j ∈ I, (r.next asks (.receive i)).costOf j + 2 < ∑ j ∈ I, r.costOf j + 0 := by
        refine sum_drop (h.mem (.inr (.inl ha))) (fun j _ hj => ?_) ?_
        · simp only [Relay.next, hsent, costOf, Function.update_of_ne hj]
        · simp only [Relay.next, hsent, costOf, Function.update_self, List.length_cons]
          omega
      simp only [Relay.next, hsent] at hsum
      simp only [Relay.next, hsent, cost, List.length_append, List.length_singleton]
      omega
  | answer k =>
      have hk : k < r.waiting.length := ha
      obtain ⟨w, hw⟩ : ∃ w, r.waiting[k]? = some w := ⟨_, List.getElem?_eq_getElem hk⟩
      have hi : w.1 ∈ I := h.waiting w (List.mem_of_getElem? hw)
      have hsum : ∑ j ∈ I, (r.next asks (.answer k)).costOf j + 0 < ∑ j ∈ I, r.costOf j + 2 := by
        refine sum_drop hi (fun j _ hj => ?_) ?_
        · simp only [Relay.next, hw, costOf, Function.update_of_ne hj]
        · simp only [Relay.next, hw, costOf, Function.update_self, List.length_append,
            List.length_singleton]
          omega
      have hlen : (r.waiting.eraseIdx k).length = r.waiting.length - 1 :=
        List.length_eraseIdx_of_lt hk
      simp only [Relay.next, hw] at hsum
      simp only [Relay.next, hw, cost, hlen]
      omega
  | deliver i =>
      obtain ⟨req, rest, hans⟩ := List.exists_cons_of_ne_nil ha
      have hsum : ∑ j ∈ I, (r.next asks (.deliver i)).costOf j + 0 < ∑ j ∈ I, r.costOf j + 0 := by
        refine sum_drop (h.mem (.inr (.inr ha))) (fun j _ hj => ?_) ?_
        · simp only [Relay.next, hans, costOf, Function.update_of_ne hj]
        · simp only [Relay.next, hans, costOf, Function.update_self, List.length_cons]
          omega
      simp only [Relay.next, hans] at hsum
      simp only [Relay.next, hans, cost]
      omega

/-- What the server has still to receive, at most. -/
def unreceived (I : Finset ι) (r : Relay ι β α) : ℕ :=
  ∑ i ∈ I, ((r.asking i).length + (r.sent i).length)

theorem unreceived_receive (h : r.Among I) {i : ι} (ha : r.can (.receive i)) :
    (r.next asks (.receive i)).unreceived I < r.unreceived I := by
  obtain ⟨req, rest, hsent⟩ := List.exists_cons_of_ne_nil ha
  have hsum : (r.next asks (.receive i)).unreceived I + 0 < r.unreceived I + 0 := by
    refine sum_drop (h.mem (.inr (.inl ha))) (fun j _ hj => ?_) ?_
    · simp only [Relay.next, hsent, Function.update_of_ne hj]
    · simp only [Relay.next, hsent, Function.update_self, List.length_cons]
      omega
  omega

theorem unreceived_next (h : r.Among I) {a : RelayMove ι} (ha : r.can a) :
    (r.next asks a).unreceived I ≤ r.unreceived I := by
  cases a with
  | ask i =>
      obtain ⟨line, rest, hask⟩ := List.exists_cons_of_ne_nil ha
      have hone : (asks line).toList.length ≤ 1 := by cases asks line <;> simp
      have hsum : (r.next asks (.ask i)).unreceived I + 0 < r.unreceived I + 1 := by
        refine sum_drop (h.mem (.inl ha)) (fun j _ hj => ?_) ?_
        · simp only [Relay.next, hask, Function.update_of_ne hj]
        · simp only [Relay.next, hask, Function.update_self, List.length_append, List.length_cons]
          omega
      omega
  | receive i => exact (unreceived_receive h ha).le
  | answer k =>
      simp only [Relay.next]
      cases r.waiting[k]? <;> exact le_rfl
  | deliver i =>
      simp only [Relay.next]
      cases r.answered i <;> exact le_rfl

end Relay

theorem relay_measure (I : Finset ι) :
    Measure (relaySystem asks lines) (fun _ _ => True) (Relay.Among I) (Relay.cost I) where
  keeps _ _ hj ha _ := hj.next ha
  drops _ _ hj ha _ := Relay.cost_next hj ha

/-- Four moves for each line are enough, from wherever the clients have got to. -/
theorem cost_le_of_reach {I : Finset ι} (hfew : ∀ i, i ∉ I → lines i = []) {r : Relay ι β α}
    (h : Reachable (relaySystem asks lines) r) :
    r.Among I ∧ r.cost I ≤ 4 * ∑ i ∈ I, (lines i).length := by
  refine h.invariant (I := fun r => r.Among I ∧ r.cost I ≤ 4 * ∑ i ∈ I, (lines i).length) ?_ ?_
  · rintro r rfl
    refine ⟨⟨fun i hi => ⟨hfew i hi, rfl, rfl⟩, fun w hw => absurd hw List.not_mem_nil⟩, ?_⟩
    simp [Relay.cost, Relay.costOf, Relay.start, Finset.mul_sum]
  · rintro r a ⟨hamong, hcost⟩ ha -
    exact ⟨hamong.next ha, (Relay.cost_next hamong ha).le.trans hcost⟩

end Transition
