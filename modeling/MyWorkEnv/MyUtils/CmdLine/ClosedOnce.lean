import MyWorkEnv.MyUtils.CmdLine.CmdServer

/-!
# Who closes a connection

An fd that is closed where an event calls for it stays in the table, and is
closed once more when the thread ends: then it is not open any more, or has
been given to somebody else. An fd `0` is closed only where an event calls for
it. So in a run to the end every connection is closed exactly once, and nothing
else is closed, just when the events close the connections on fd `0` and no
others.
-/

namespace MyWorkEnv

open Transition

namespace CmdServer

variable {s s' : CmdServer} {a : CmdServerAction}

/-- How often the connection was closed. -/
def closings (s : CmdServer) (k : ℕ) : ℕ := s.closes.countP fun c => c.found == some (.conn k)

/-- Every connection has been closed exactly once, and no call of `close` met an fd that was
not open, or not the one it was meant for. -/
def ClosedOnce (s : CmdServer) : Prop :=
  (∀ k < s.clientFdCnt, s.closings k = 1) ∧ ∀ c ∈ s.closes, c.found = some c.target

/-- The next step closes the fd of the event. -/
def closesEvent (s : CmdServer) : CmdServerAction → Bool
  | .handleMsg ret => ret ≠ 0
  | .peerClosed => true
  | .noInput => s.current.any fun e => e.epollErr || e.epollHup
  | _ => false

/-- Events close only connections on fd `0`, and none of these is open when the loop is
left. -/
def Orderly (s : CmdServer) (a : CmdServerAction) : Prop :=
  (s.closesEvent a = true → (s.current.all fun e => decide (e.fd ≤ 0)) = true) ∧
    (s.leaves a = true → ∀ k < s.clientFdCnt, s.clientFd k ≤ 0 → ¬ s.live k)

instance (s : CmdServer) (a : CmdServerAction) : Decidable (s.Orderly a) :=
  inferInstanceAs (Decidable (_ ∧ _))

/-! ## Fds and their owners -/

/-- How far the final loop has come. -/
def cleaned (s : CmdServer) : ℕ :=
  match s.pc with
  | .closeClients loop => loop
  | .closeServerFd | .closeEpollFd | .ended => s.clientFdCnt
  | _ => 0

/-- In the loop, or crashed in it. -/
def inLoop (s : CmdServer) : Bool :=
  match s.pc with
  | .whileTest | .epollWait | .forEvents _ | .crashed => true
  | _ => false

/-- What is open under the fds that the thread has, whatever it is at. -/
structure FdTable (s : CmdServer) : Prop where
  serverFd : 0 < s.serverFd
  epollFd : 0 < s.epollFd
  conn : ∀ fd k, s.owner fd = some (.conn k) → k < s.clientFdCnt ∧ s.clientFd k = fd
  apart : ∀ k < s.clientFdCnt, s.clientFd k ≠ s.serverFd ∧ s.clientFd k ≠ s.epollFd
  closings : ∀ k < s.clientFdCnt, s.closings k = if s.live k then 0 else 1
  fresh : ∀ k, s.clientFdCnt ≤ k → s.closings k = 0

/-- What it is at. -/
structure Progress (s : CmdServer) : Prop where
  server : s.pc ≠ .closeEpollFd → s.pc ≠ .ended → s.owner s.serverFd = some .server
  epoll : s.pc ≠ .ended → s.owner s.epollFd = some .epoll
  nodup : ∀ events, s.pc = .forEvents events → (events.map CmdEvent.fd).Nodup
  pending : ∀ events, s.pc = .forEvents events → ∀ e ∈ events,
    s.owner e.fd = some e.about ∧ (e.fd = s.serverFd ∨ e.about.isConn = true)
  swept : ∀ k < s.cleaned, 0 < s.clientFd k → ¬ s.live k
  cleaned_le : s.cleaned ≤ s.clientFdCnt

theorem closings_close (s : CmdServer) (target : FdOwner) (fd : ℤ) (k : ℕ) :
    (s.close target fd).closings k =
      s.closings k + if s.owner fd = some (.conn k) then 1 else 0 := by
  simp [closings, close, List.countP_append, List.countP_cons]

theorem live_close {target : FdOwner} {fd : ℤ} {k : ℕ} :
    (s.close target fd).live k ↔ s.live k ∧ s.clientFd k ≠ fd := by
  simp only [live, close]
  by_cases hfd : s.clientFd k = fd
  · simp [hfd]
  · simp [hfd]

theorem live_close_setPc {target : FdOwner} {fd : ℤ} {pc : CmdServerPc} {k : ℕ} :
    ({ s.close target fd with pc := pc } : CmdServer).live k ↔ s.live k ∧ s.clientFd k ≠ fd :=
  @live_close s target fd k

theorem FdTable.close (h : s.FdTable) (target : FdOwner) (fd : ℤ) :
    (s.close target fd).FdTable := by
  refine ⟨h.serverFd, h.epollFd, ?_, h.apart, ?_, ?_⟩
  · intro fd' k hk
    by_cases hfd : fd' = fd
    · simp [CmdServer.close, hfd] at hk
    · simp only [CmdServer.close, Function.update_of_ne hfd] at hk
      exact h.conn fd' k hk
  · intro k hk
    have hold := h.closings k hk
    rw [closings_close, hold]
    by_cases hfd : s.clientFd k = fd
    · have hlive : s.live k ↔ s.owner fd = some (.conn k) := by rw [live, hfd]
      have hgone : ¬ (s.close target fd).live k := fun hl => (live_close.mp hl).2 hfd
      rw [if_neg hgone]
      by_cases hl : s.live k
      · rw [if_pos hl, if_pos (hlive.mp hl)]
      · rw [if_neg hl, if_neg fun ho => hl (hlive.mpr ho)]
    · have hother : ¬ s.owner fd = some (.conn k) := fun ho => hfd (h.conn fd k ho).2
      rw [if_neg hother, Nat.add_zero]
      exact if_congr (live_close.trans (and_iff_left hfd)).symm rfl rfl
  · intro k hk
    have hother : ¬ s.owner fd = some (.conn k) := fun ho =>
      absurd (h.conn fd k ho).1 (Nat.not_lt.mpr hk)
    rw [closings_close, h.fresh k hk, if_neg hother]

/-- Fds of the other threads. -/
theorem live_other {fd : ℤ} {o : Option FdOwner} {k : ℕ}
    (hold : ∀ k, s.owner fd ≠ some (.conn k)) (hnew : ∀ k, o ≠ some (.conn k)) :
    ({ s with owner := Function.update s.owner fd o } : CmdServer).live k ↔ s.live k := by
  simp only [live]
  by_cases hfd : s.clientFd k = fd
  · rw [hfd, Function.update_self]
    exact iff_of_false (hnew k) (hold k)
  · rw [Function.update_of_ne hfd]

theorem FdTable.other (h : s.FdTable) {fd : ℤ} {o : Option FdOwner}
    (hold : ∀ k, s.owner fd ≠ some (.conn k)) (hnew : ∀ k, o ≠ some (.conn k)) :
    ({ s with owner := Function.update s.owner fd o } : CmdServer).FdTable := by
  refine ⟨h.serverFd, h.epollFd, ?_, h.apart, ?_, h.fresh⟩
  · intro fd' k hk
    by_cases hfd : fd' = fd
    · rw [hfd] at hk
      simp only [Function.update_self] at hk
      exact absurd hk (hnew k)
    · simp only [Function.update_of_ne hfd] at hk
      exact h.conn fd' k hk
  · intro k hk
    apply (h.closings k hk).trans
    exact if_congr (live_other hold hnew).symm rfl rfl

/-- The state after `accept`, still at the same event. -/
def accepted (s : CmdServer) (fd : ℤ) : CmdServer :=
  { s with
    clientFd := Function.update s.clientFd s.clientFdCnt fd
    clientFdCnt := s.clientFdCnt + 1
    owner := Function.update s.owner fd (some (.conn s.clientFdCnt))
    writes := s.writes ++ [s.clientFdCnt] }

theorem live_accepted {fd : ℤ} (hfree : s.owner fd = none) {k : ℕ} (hk : k < s.clientFdCnt) :
    (s.accepted fd).live k ↔ s.live k := by
  simp only [live, accepted, Function.update_of_ne hk.ne]
  by_cases hfd : s.clientFd k = fd
  · rw [hfd, Function.update_self, hfree]
    simp [hk.ne']
  · rw [Function.update_of_ne hfd]

theorem live_accepted_self (s : CmdServer) (fd : ℤ) : (s.accepted fd).live s.clientFdCnt := by
  simp [live, accepted]

theorem FdTable.accepted (h : s.FdTable) {fd : ℤ} (hfree : s.owner fd = none)
    (hserver : s.owner s.serverFd = some .server) (hepoll : s.owner s.epollFd = some .epoll) :
    (s.accepted fd).FdTable := by
  refine ⟨h.serverFd, h.epollFd, ?_, ?_, ?_, ?_⟩
  · intro fd' k hk
    by_cases hfd : fd' = fd
    · subst hfd
      simp only [CmdServer.accepted, Function.update_self, Option.some.injEq,
        FdOwner.conn.injEq] at hk
      subst hk
      exact ⟨Nat.lt_succ_self _, by simp [CmdServer.accepted]⟩
    · simp only [CmdServer.accepted, Function.update_of_ne hfd] at hk
      obtain ⟨hlt, heq⟩ := h.conn fd' k hk
      refine ⟨Nat.lt_succ_of_lt hlt, ?_⟩
      simpa only [CmdServer.accepted, Function.update_of_ne hlt.ne] using heq
  · intro k hk
    rcases Nat.lt_succ_iff_lt_or_eq.mp hk with hlt | rfl
    · simpa only [CmdServer.accepted, Function.update_of_ne hlt.ne] using h.apart k hlt
    · simp only [CmdServer.accepted, Function.update_self]
      constructor
      · rintro rfl
        rw [hfree] at hserver
        cases hserver
      · rintro rfl
        rw [hfree] at hepoll
        cases hepoll
  · intro k hk
    rcases Nat.lt_succ_iff_lt_or_eq.mp hk with hlt | rfl
    · apply (h.closings k hlt).trans
      exact if_congr (live_accepted hfree hlt).symm rfl rfl
    · rw [if_pos (s.live_accepted_self fd)]
      exact h.fresh _ (le_refl _)
  · intro k hk
    exact h.fresh k (Nat.le_of_succ_le hk)

theorem FdTable.setPc (h : s.FdTable) (pc : CmdServerPc) :
    ({ s with pc := pc } : CmdServer).FdTable :=
  ⟨h.serverFd, h.epollFd, h.conn, h.apart, h.closings, h.fresh⟩

theorem FdTable.crash (h : s.FdTable) : s.crash.FdTable :=
  ⟨h.serverFd, h.epollFd, h.conn, h.apart, h.closings, h.fresh⟩

theorem FdTable.leave (h : s.FdTable) : s.leave.FdTable :=
  ⟨h.serverFd, h.epollFd, h.conn, h.apart, h.closings, h.fresh⟩

/-! ## What the thread is at -/

theorem Progress.listening (h : s.Progress) (hloop : s.inLoop = true) :
    s.owner s.serverFd = some .server ∧ s.owner s.epollFd = some .epoll := by
  refine ⟨h.server ?_ ?_, h.epoll ?_⟩ <;>
  · intro hpc
    rw [inLoop, hpc] at hloop
    cases hloop

theorem cleaned_of_inLoop (h : s.inLoop = true) : s.cleaned = 0 := by
  unfold inLoop at h
  unfold cleaned
  cases hpc : s.pc <;> simp_all

theorem progress_of_inLoop (hloop : s.inLoop = true)
    (hlisten : s.owner s.serverFd = some .server ∧ s.owner s.epollFd = some .epoll)
    (hnodup : ∀ events, s.pc = .forEvents events → (events.map CmdEvent.fd).Nodup)
    (hpending : ∀ events, s.pc = .forEvents events → ∀ e ∈ events,
      s.owner e.fd = some e.about ∧ (e.fd = s.serverFd ∨ e.about.isConn = true)) :
    s.Progress := by
  have hzero := cleaned_of_inLoop hloop
  refine ⟨fun _ _ => hlisten.1, fun _ => hlisten.2, hnodup, hpending, ?_, ?_⟩
  · intro k hk
    rw [hzero] at hk
    exact absurd hk (Nat.not_lt_zero k)
  · rw [hzero]
    exact Nat.zero_le _

/-- Behind the loop there are no events left. -/
theorem progress_of_closing (hpc : ∀ events, s.pc ≠ .forEvents events)
    (hserver : s.pc ≠ .closeEpollFd → s.pc ≠ .ended → s.owner s.serverFd = some .server)
    (hepoll : s.pc ≠ .ended → s.owner s.epollFd = some .epoll)
    (hswept : ∀ k < s.cleaned, 0 < s.clientFd k → ¬ s.live k)
    (hle : s.cleaned ≤ s.clientFdCnt) : s.Progress :=
  ⟨hserver, hepoll, fun events hevents => absurd hevents (hpc events),
    fun events hevents => absurd hevents (hpc events), hswept, hle⟩

theorem Progress.leave (h : s.Progress) (hloop : s.inLoop = true) : s.leave.Progress := by
  have hlisten := h.listening hloop
  refine progress_of_closing (fun events => by simp [CmdServer.leave]) (fun _ _ => hlisten.1)
    (fun _ => hlisten.2) (fun k hk => ?_) (Nat.zero_le _)
  exact absurd hk (Nat.not_lt_zero k)

theorem Progress.crash (h : s.Progress) (hloop : s.inLoop = true) : s.crash.Progress :=
  progress_of_inLoop rfl (h.listening hloop) (fun _ hpc => by cases hpc) fun _ hpc => by cases hpc

theorem Progress.other (h : s.Progress) {fd : ℤ} {o : Option FdOwner}
    (hold : s.owner fd = none ∨ s.owner fd = some .other) (hnew : ∀ k, o ≠ some (.conn k)) :
    ({ s with owner := Function.update s.owner fd o } : CmdServer).Progress := by
  have hkept : ∀ {fd' : ℤ} {o' : FdOwner}, s.owner fd' = some o' → o' ≠ .other →
      Function.update s.owner fd o fd' = some o' := by
    intro fd' o' ho hne
    rw [Function.update_of_ne, ho]
    rintro rfl
    rcases hold with hnone | hother
    · rw [hnone] at ho
      cases ho
    · rw [hother] at ho
      exact hne (Option.some.inj ho).symm
  have hconn : ∀ k, s.owner fd ≠ some (.conn k) := by
    intro k
    rcases hold with ho | ho <;> simp [ho]
  refine ⟨?_, ?_, h.nodup, ?_, ?_, h.cleaned_le⟩
  · intro h₁ h₂
    exact hkept (h.server h₁ h₂) (by decide)
  · intro h₁
    exact hkept (h.epoll h₁) (by decide)
  · intro events hpc e he
    obtain ⟨ho, hkind⟩ := h.pending events hpc e he
    refine ⟨hkept ho ?_, hkind⟩
    rcases hkind with hfd | hconn
    · have hloop : s.inLoop = true := by simp only [inLoop, show s.pc = .forEvents events from hpc]
      rw [hfd, (h.listening hloop).1] at ho
      rw [← Option.some.inj ho]
      decide
    · rintro habout
      rw [habout] at hconn
      cases hconn
  · intro k hk hpos
    rw [live_other hconn hnew]
    exact h.swept k hk hpos

theorem event_of_guard {p : CmdEvent → Bool} (h : s.current.any p = true) :
    ∃ e rest, s.pc = .forEvents (e :: rest) ∧ p e = true := by
  unfold current at h
  split at h
  · next e rest hpc => exact ⟨e, rest, hpc, h⟩
  · cases h

section Event

variable {e : CmdEvent} {rest : List CmdEvent}

theorem current_eq (hpc : s.pc = .forEvents (e :: rest)) : s.current = some e := by
  rw [current, hpc]

theorem nextEvent_eq (hpc : s.pc = .forEvents (e :: rest)) :
    s.nextEvent = { s with pc := .forEvents rest } := by
  rw [nextEvent, hpc]

theorem closeEvent_eq (hpc : s.pc = .forEvents (e :: rest)) :
    s.closeEvent = { s.close e.about e.fd with pc := .forEvents rest } := by
  rw [closeEvent, current_eq hpc]
  have hpc' : (s.close e.about e.fd).pc = .forEvents (e :: rest) := hpc
  exact nextEvent_eq hpc'

theorem next_accept (hpc : s.pc = .forEvents (e :: rest)) (fd : ℤ) :
    s.next (.accept fd) = { s.accepted fd with pc := .forEvents rest } := by
  have hpc' : (s.accepted fd).pc = .forEvents (e :: rest) := hpc
  exact nextEvent_eq hpc'

theorem inLoop_of_event {events : List CmdEvent} (hpc : s.pc = .forEvents events) :
    s.inLoop = true := by
  rw [inLoop, hpc]

/-- An event that is not for the listening fd is for a connection. -/
theorem Progress.event_conn (h : s.Progress) (hpc : s.pc = .forEvents (e :: rest))
    (hne : e.fd ≠ s.serverFd) : ∃ k, e.about = .conn k ∧ s.owner e.fd = some (.conn k) := by
  obtain ⟨ho, hkind⟩ := h.pending _ hpc e List.mem_cons_self
  have hconn := hkind.resolve_left hne
  cases habout : e.about with
  | conn k => exact ⟨k, rfl, by rw [ho, habout]⟩
  | _ =>
      rw [habout] at hconn
      cases hconn

/-- Past `e`, where the descriptors of the events to come still have their owners. -/
theorem Progress.pastEvent (h : s.Progress) (hpc : s.pc = .forEvents (e :: rest)) {s' : CmdServer}
    (hpc' : s'.pc = .forEvents rest) (hserver : s'.serverFd = s.serverFd)
    (hlisten : s'.owner s'.serverFd = some .server ∧ s'.owner s'.epollFd = some .epoll)
    (hkept : ∀ {fd : ℤ} {o : FdOwner}, fd ≠ e.fd → s.owner fd = some o → s'.owner fd = some o) :
    s'.Progress := by
  have hnodup := h.nodup _ hpc
  rw [List.map_cons, List.nodup_cons] at hnodup
  refine progress_of_inLoop (inLoop_of_event hpc') hlisten ?_ ?_
  · rintro events hevents
    obtain rfl := CmdServerPc.forEvents.inj (hpc'.symm.trans hevents)
    exact hnodup.2
  · rintro events hevents e' he'
    obtain rfl := CmdServerPc.forEvents.inj (hpc'.symm.trans hevents)
    obtain ⟨ho, hkind⟩ := h.pending _ hpc e' (List.mem_cons_of_mem e he')
    have hne : e'.fd ≠ e.fd := by
      intro heq
      apply hnodup.1
      rw [← heq]
      exact List.mem_map_of_mem he'
    rw [hserver]
    exact ⟨hkept hne ho, hkind⟩

theorem Progress.nextEvent (h : s.Progress) (hpc : s.pc = .forEvents (e :: rest)) :
    ({ s with pc := .forEvents rest } : CmdServer).Progress :=
  h.pastEvent hpc rfl rfl (h.listening (inLoop_of_event hpc)) fun _ ho => ho

theorem Progress.closeEvent (h : s.Progress) (hpc : s.pc = .forEvents (e :: rest))
    (hne : e.fd ≠ s.serverFd) :
    ({ s.close e.about e.fd with pc := .forEvents rest } : CmdServer).Progress := by
  have hlisten := h.listening (inLoop_of_event hpc)
  obtain ⟨k, -, hk⟩ := h.event_conn hpc hne
  have hepoll : s.epollFd ≠ e.fd := by
    intro heq
    rw [← heq, hlisten.2] at hk
    cases hk
  have hkept : ∀ {fd : ℤ} {o : FdOwner}, fd ≠ e.fd → s.owner fd = some o →
      Function.update s.owner e.fd none fd = some o := by
    intro fd o hfd ho
    rw [Function.update_of_ne hfd, ho]
  exact h.pastEvent hpc rfl rfl ⟨hkept hne.symm hlisten.1, hkept hepoll hlisten.2⟩ hkept

theorem Progress.accept (h : s.Progress) (hpc : s.pc = .forEvents (e :: rest)) {fd : ℤ}
    (hfree : s.owner fd = none) :
    ({ s.accepted fd with pc := .forEvents rest } : CmdServer).Progress := by
  have hlisten := h.listening (inLoop_of_event hpc)
  have hkept : ∀ {fd' : ℤ} {o : FdOwner}, s.owner fd' = some o →
      Function.update s.owner fd (some (.conn s.clientFdCnt)) fd' = some o := by
    intro fd' o ho
    rw [Function.update_of_ne, ho]
    rintro rfl
    rw [hfree] at ho
    cases ho
  exact h.pastEvent hpc rfl rfl ⟨hkept hlisten.1, hkept hlisten.2⟩ fun _ ho => hkept ho

end Event

theorem Progress.closeClient (h : s.Progress) (ht : s.FdTable) {loop : ℕ}
    (hpc : s.pc = .closeClients loop) (hlt : loop < s.clientFdCnt) :
    ({ s.close (.conn loop) (s.clientFd loop) with pc := .closeClients (loop + 1) } :
      CmdServer).Progress := by
  have hserver := h.server (by rw [hpc]; simp) (by rw [hpc]; simp)
  have hepoll := h.epoll (by rw [hpc]; simp)
  obtain ⟨hne, hne'⟩ := ht.apart loop hlt
  refine progress_of_closing (fun events hevents => ?_) (fun _ _ => ?_) (fun _ => ?_) ?_ hlt
  · cases hevents
  · exact (Function.update_of_ne hne.symm _ _).trans hserver
  · exact (Function.update_of_ne hne'.symm _ _).trans hepoll
  · intro k hk hpos hlive
    obtain ⟨hold, hfd⟩ := live_close_setPc.mp hlive
    rcases Nat.lt_succ_iff_lt_or_eq.mp hk with hk | rfl
    · refine h.swept k ?_ hpos hold
      rw [cleaned, hpc]
      exact hk
    · exact hfd rfl

/-- The final loop does not close an fd `0`. -/
theorem Progress.skipClient (h : s.Progress) {loop : ℕ} (hpc : s.pc = .closeClients loop)
    (hlt : loop < s.clientFdCnt) (hzero : ¬ 0 < s.clientFd loop) :
    ({ s with pc := .closeClients (loop + 1) } : CmdServer).Progress := by
  have hserver := h.server (by rw [hpc]; simp) (by rw [hpc]; simp)
  have hepoll := h.epoll (by rw [hpc]; simp)
  refine progress_of_closing (fun events hevents => ?_) (fun _ _ => hserver) (fun _ => hepoll)
    ?_ hlt
  · cases hevents
  · intro k hk hpos
    rcases Nat.lt_succ_iff_lt_or_eq.mp hk with hk | rfl
    · refine h.swept k ?_ hpos
      rw [cleaned, hpc]
      exact hk
    · exact absurd hpos hzero

theorem Progress.endClients (h : s.Progress) {loop : ℕ} (hpc : s.pc = .closeClients loop)
    (hge : ¬ loop < s.clientFdCnt) : ({ s with pc := .closeServerFd } : CmdServer).Progress := by
  have hserver := h.server (by rw [hpc]; simp) (by rw [hpc]; simp)
  have hepoll := h.epoll (by rw [hpc]; simp)
  refine progress_of_closing (fun events hevents => ?_) (fun _ _ => hserver) (fun _ => hepoll)
    ?_ (le_refl _)
  · cases hevents
  · intro k hk
    apply h.swept k
    rw [cleaned, hpc]
    exact Nat.lt_of_lt_of_le hk (Nat.not_lt.mp hge)

theorem Progress.closeServerFd (h : s.Progress) (hpc : s.pc = .closeServerFd) :
    ({ s.close .server s.serverFd with pc := .closeEpollFd } : CmdServer).Progress := by
  have hserver := h.server (by rw [hpc]; simp) (by rw [hpc]; simp)
  have hepoll := h.epoll (by rw [hpc]; simp)
  have hne : s.epollFd ≠ s.serverFd := by
    intro heq
    rw [heq, hserver] at hepoll
    cases hepoll
  refine progress_of_closing (fun events hevents => ?_) (fun h₁ => absurd rfl h₁) (fun _ => ?_)
    ?_ (le_refl _)
  · cases hevents
  · exact (Function.update_of_ne hne _ _).trans hepoll
  · intro k hk hpos hlive
    refine h.swept k ?_ hpos (live_close_setPc.mp hlive).1
    rw [cleaned, hpc]
    exact hk

theorem Progress.closeEpollFd (h : s.Progress) (hpc : s.pc = .closeEpollFd) :
    ({ s.close .epoll s.epollFd with pc := .ended } : CmdServer).Progress := by
  refine progress_of_closing (fun events hevents => ?_) (fun _ h₂ => absurd rfl h₂)
    (fun h₂ => absurd rfl h₂) ?_ (le_refl _)
  · cases hevents
  · intro k hk hpos hlive
    refine h.swept k ?_ hpos (live_close_setPc.mp hlive).1
    rw [cleaned, hpc]
    exact hk

/-- In the loop, and on to another of its places. -/
theorem Progress.setPc (h : s.Progress) (hloop : s.inLoop = true) {pc : CmdServerPc}
    (hpc : pc = .whileTest ∨ pc = .epollWait) :
    ({ s with pc := pc } : CmdServer).Progress := by
  refine progress_of_inLoop ?_ (h.listening hloop) ?_ ?_
  · rcases hpc with rfl | rfl <;> rfl
  · rintro events hevents
    rcases hpc with rfl | rfl <;> cases hevents
  · rintro events hevents
    rcases hpc with rfl | rfl <;> cases hevents

theorem Progress.reported (h : s.Progress) (hloop : s.inLoop = true) {events : List CmdEvent}
    (hreported : s.reported events = true) :
    ({ s with pc := .forEvents events } : CmdServer).Progress := by
  simp only [CmdServer.reported, Bool.and_eq_true, decide_eq_true_eq, List.all_eq_true,
    beq_iff_eq, Bool.or_eq_true] at hreported
  obtain ⟨⟨-, hnodup⟩, hevents⟩ := hreported
  refine progress_of_inLoop rfl (h.listening hloop) ?_ ?_
  · intro events' hpc
    obtain rfl := CmdServerPc.forEvents.inj hpc
    exact hnodup
  · intro events' hpc
    obtain rfl := CmdServerPc.forEvents.inj hpc
    exact hevents

theorem inLoop_of_pc {pc : CmdServerPc} (hpc : s.pc = pc)
    (hloop : pc = .whileTest ∨ pc = .epollWait) : s.inLoop = true := by
  rw [inLoop, hpc]
  rcases hloop with rfl | rfl <;> rfl

/-- What event steps and the others leave behind. -/
theorem kept_next (ha : s.guard a = true) (ht : s.FdTable) (h : s.Progress) :
    (s.next a).FdTable ∧ (s.next a).Progress := by
  have hclose : ∀ {e : CmdEvent} {rest : List CmdEvent}, s.pc = .forEvents (e :: rest) →
      e.fd ≠ s.serverFd → s.closeEvent.FdTable ∧ s.closeEvent.Progress := by
    intro e rest hpc hne
    rw [closeEvent_eq hpc]
    exact ⟨(ht.close e.about e.fd).setPc _, h.closeEvent hpc hne⟩
  have hskip : ∀ {e : CmdEvent} {rest : List CmdEvent}, s.pc = .forEvents (e :: rest) →
      s.nextEvent.FdTable ∧ s.nextEvent.Progress := by
    intro e rest hpc
    rw [nextEvent_eq hpc]
    exact ⟨ht.setPc _, h.nextEvent hpc⟩
  cases a with
  | setExit =>
      exact ⟨⟨ht.serverFd, ht.epollFd, ht.conn, ht.apart, ht.closings, ht.fresh⟩,
        ⟨h.server, h.epoll, h.nodup, h.pending, h.swept, h.cleaned_le⟩⟩
  | whileTest =>
      have hloop := inLoop_of_pc (by simpa [CmdServer.guard] using ha) (.inl rfl)
      simp only [next]
      split_ifs
      · exact ⟨ht.leave, h.leave hloop⟩
      · exact ⟨ht.setPc _, h.setPc hloop (.inr rfl)⟩
  | epollFails =>
      have hloop := inLoop_of_pc (by simpa [CmdServer.guard] using ha) (.inr rfl)
      exact ⟨ht.leave, h.leave hloop⟩
  | epollTimeout =>
      have hloop := inLoop_of_pc (by simpa [CmdServer.guard] using ha) (.inr rfl)
      exact ⟨ht.setPc _, h.setPc hloop (.inl rfl)⟩
  | epollEvents events =>
      simp only [CmdServer.guard, Bool.and_eq_true, beq_iff_eq] at ha
      exact ⟨ht.setPc _, h.reported (inLoop_of_pc ha.1 (.inr rfl)) ha.2⟩
  | accept fd =>
      obtain ⟨e, rest, hpc, hp⟩ := event_of_guard ha
      simp only [Bool.and_eq_true, beq_iff_eq, decide_eq_true_eq] at hp
      have hlisten := h.listening (inLoop_of_event hpc)
      rw [next_accept hpc]
      exact ⟨(ht.accepted hp.1.2 hlisten.1 hlisten.2).setPc _, h.accept hpc hp.1.2⟩
  | acceptFails =>
      obtain ⟨e, rest, hpc, -⟩ := event_of_guard ha
      exact hskip hpc
  | handleMsg ret =>
      obtain ⟨e, rest, hpc, hp⟩ := event_of_guard ha
      simp only [Bool.and_eq_true, bne_iff_ne] at hp
      simp only [next]
      split_ifs
      · exact hclose hpc hp.1
      · exact hskip hpc
  | peerClosed =>
      obtain ⟨e, rest, hpc, hp⟩ := event_of_guard ha
      simp only [Bool.and_eq_true, bne_iff_ne] at hp
      exact hclose hpc hp.1
  | recvFails =>
      obtain ⟨e, rest, hpc, -⟩ := event_of_guard ha
      exact ⟨ht.crash, h.crash (inLoop_of_event hpc)⟩
  | noInput =>
      obtain ⟨e, rest, hpc, hp⟩ := event_of_guard ha
      simp only [Bool.and_eq_true, bne_iff_ne] at hp
      simp only [next]
      split_ifs
      · exact hclose hpc hp.1
      · exact hskip hpc
  | endFor =>
      have hpc : s.pc = .forEvents [] := by simpa [CmdServer.guard] using ha
      exact ⟨ht.setPc _, h.setPc (inLoop_of_event hpc) (.inl rfl)⟩
  | closeClient =>
      cases hpc : s.pc with
      | closeClients loop =>
          simp only [next, hpc]
          split_ifs with hlt hpos
          · exact ⟨(ht.close _ _).setPc _, h.closeClient ht hpc hlt⟩
          · exact ⟨ht.setPc _, h.skipClient hpc hlt hpos⟩
          · exact ⟨ht.setPc _, h.endClients hpc hlt⟩
      | _ => simp [CmdServer.guard, hpc] at ha
  | closeServerFd =>
      have hpc : s.pc = .closeServerFd := by simpa [CmdServer.guard] using ha
      simp only [next, ht.serverFd, if_true]
      exact ⟨(ht.close _ _).setPc _, h.closeServerFd hpc⟩
  | closeEpollFd =>
      have hpc : s.pc = .closeEpollFd := by simpa [CmdServer.guard] using ha
      simp only [next, ht.epollFd, if_true]
      exact ⟨(ht.close _ _).setPc _, h.closeEpollFd hpc⟩
  | otherOpen fd =>
      simp only [CmdServer.guard, Bool.and_eq_true, beq_iff_eq] at ha
      exact ⟨ht.other (by simp [ha.1.2]) (by simp), h.other (.inl ha.1.2) (by simp)⟩
  | otherClose fd =>
      simp only [CmdServer.guard, Bool.and_eq_true, beq_iff_eq] at ha
      exact ⟨ht.other (by simp [ha.2]) (by simp), h.other (.inr ha.2) (by simp)⟩

end CmdServer

open CmdServer

variable {s : CmdServer}

theorem kept_of_reach {P : CmdServer → CmdServerAction → Prop}
    (h : Reach cmdServerSystem P s) : s.FdTable ∧ s.Progress := by
  refine h.invariant (I := fun s => s.FdTable ∧ s.Progress) ?_ ?_
  · intro s hinit
    have hnone : ∀ fd k, s.owner fd ≠ some (.conn k) := by
      intro fd k
      by_cases hserver : fd = s.serverFd
      · rw [hserver, hinit.server]
        simp
      by_cases hepoll : fd = s.epollFd
      · rw [hepoll, hinit.epoll]
        simp
      rcases hinit.others fd hserver hepoll with ho | ho <;> simp [ho]
    have hcnt : ∀ {k}, ¬ k < s.clientFdCnt := by
      intro k
      rw [hinit.clientFdCnt]
      exact Nat.not_lt_zero k
    refine ⟨⟨hinit.serverFd, hinit.epollFd, ?_, ?_, ?_, ?_⟩, ?_⟩
    · exact fun fd k hk => absurd hk (hnone fd k)
    · exact fun k hk => absurd hk hcnt
    · exact fun k hk => absurd hk hcnt
    · intro k _
      simp [CmdServer.closings, hinit.closes]
    · refine progress_of_inLoop (inLoop_of_pc hinit.pc (.inl rfl)) ⟨hinit.server, hinit.epoll⟩ ?_ ?_
      · intro events hevents
        rw [hinit.pc] at hevents
        cases hevents
      · intro events hevents
        rw [hinit.pc] at hevents
        cases hevents
  · rintro s a ⟨ht, h⟩ ha -
    exact kept_next ha ht h

/-! ## Sound so far -/

namespace CmdServer

/-- Nothing was closed that should not have been, what the final loop will close is open, and
what it will not close is not. -/
structure Sound (s : CmdServer) : Prop where
  closes : ∀ c ∈ s.closes, c.found = some c.target
  entries : ∀ k, s.cleaned ≤ k → k < s.clientFdCnt → 0 < s.clientFd k → s.live k
  zeros : s.inLoop = false → ∀ k < s.clientFdCnt, s.clientFd k ≤ 0 → ¬ s.live k

variable {s s' : CmdServer} {a : CmdServerAction} {e : CmdEvent} {rest : List CmdEvent}

/-- What soundness depends on. -/
theorem Sound.congr (h : s.Sound) (hcloses : s'.closes = s.closes)
    (hcnt : s'.clientFdCnt = s.clientFdCnt) (hfd : s'.clientFd = s.clientFd)
    (hlive : ∀ k, s'.live k ↔ s.live k) (hcleaned : s'.cleaned = s.cleaned)
    (hloop : s'.inLoop = s.inLoop) : s'.Sound := by
  refine ⟨?_, ?_, ?_⟩
  · rw [hcloses]
    exact h.closes
  · intro k hk hlt hpos
    rw [hcleaned] at hk
    rw [hcnt] at hlt
    rw [hfd] at hpos
    exact (hlive k).mpr (h.entries k hk hlt hpos)
  · intro hout k hlt hneg hopen
    rw [hloop] at hout
    rw [hcnt] at hlt
    rw [hfd] at hneg
    exact h.zeros hout k hlt hneg ((hlive k).mp hopen)

theorem sound_congr (hcloses : s'.closes = s.closes) (hcnt : s'.clientFdCnt = s.clientFdCnt)
    (hfd : s'.clientFd = s.clientFd) (hlive : ∀ k, s'.live k ↔ s.live k)
    (hcleaned : s'.cleaned = s.cleaned) (hloop : s'.inLoop = s.inLoop) :
    s'.Sound ↔ s.Sound :=
  ⟨fun h => h.congr hcloses.symm hcnt.symm hfd.symm (fun k => (hlive k).symm) hcleaned.symm
    hloop.symm, fun h => h.congr hcloses hcnt hfd hlive hcleaned hloop⟩

/-- Steps from one place of the loop to another. -/
theorem sound_inLoop (hloop : s.inLoop = true) {pc : CmdServerPc}
    (hloop' : ({ s with pc := pc } : CmdServer).inLoop = true) :
    ({ s with pc := pc } : CmdServer).Sound ↔ s.Sound :=
  sound_congr rfl rfl rfl (fun _ => Iff.rfl)
    ((cleaned_of_inLoop hloop').trans (cleaned_of_inLoop hloop).symm) (hloop'.trans hloop.symm)

theorem sound_leave (hloop : s.inLoop = true) :
    s.leave.Sound ↔ s.Sound ∧ ∀ k < s.clientFdCnt, s.clientFd k ≤ 0 → ¬ s.live k := by
  have hzero := cleaned_of_inLoop hloop
  constructor
  · intro h
    refine ⟨⟨h.closes, fun k _ hlt hpos => h.entries k (Nat.zero_le k) hlt hpos, ?_⟩, h.zeros rfl⟩
    intro hout
    rw [hloop] at hout
    cases hout
  · rintro ⟨h, hzeros⟩
    refine ⟨h.closes, fun k _ hlt hpos => h.entries k ?_ hlt hpos, fun _ => hzeros⟩
    rw [hzero]
    exact Nat.zero_le k

theorem sound_accept (hpc : s.pc = .forEvents (e :: rest)) {fd : ℤ}
    (hfree : s.owner fd = none) :
    ({ s.accepted fd with pc := .forEvents rest } : CmdServer).Sound ↔ s.Sound := by
  have hloop := inLoop_of_event hpc
  have hzero := cleaned_of_inLoop hloop
  have htable : ∀ {k}, k < s.clientFdCnt → (s.accepted fd).clientFd k = s.clientFd k :=
    fun hlt => Function.update_of_ne hlt.ne _ _
  constructor
  · intro h
    refine ⟨h.closes, ?_, fun hout => absurd hout (by simp [hloop])⟩
    intro k _ hlt hpos
    rw [← live_accepted hfree hlt]
    apply h.entries k (Nat.zero_le k) (Nat.lt_succ_of_lt hlt)
    exact lt_of_lt_of_eq hpos (htable hlt).symm
  · intro h
    refine ⟨h.closes, ?_, fun hout => absurd hout (by simp [inLoop])⟩
    intro k _ hlt hpos
    rcases Nat.lt_succ_iff_lt_or_eq.mp hlt with hlt | rfl
    · apply (live_accepted hfree hlt).mpr
      apply h.entries k (by rw [hzero]; exact Nat.zero_le k) hlt
      exact lt_of_lt_of_eq hpos (htable hlt)
    · exact s.live_accepted_self fd

/-- The entry of a connection that an event closes stays in the table. -/
theorem sound_closeEvent (ht : s.FdTable) (h : s.Progress)
    (hpc : s.pc = .forEvents (e :: rest)) (hne : e.fd ≠ s.serverFd) :
    ({ s.close e.about e.fd with pc := .forEvents rest } : CmdServer).Sound ↔
      s.Sound ∧ e.fd ≤ 0 := by
  have hloop := inLoop_of_event hpc
  have hzero := cleaned_of_inLoop hloop
  obtain ⟨k, habout, hk⟩ := h.event_conn hpc hne
  obtain ⟨hlt, hfd⟩ := ht.conn _ _ hk
  constructor
  · intro hs
    refine ⟨⟨?_, ?_, fun hout => absurd hout (by simp [hloop])⟩, ?_⟩
    · exact fun c hc => hs.closes c (List.mem_append_left _ hc)
    · exact fun j _ hlt hpos => (live_close_setPc.mp (hs.entries j (Nat.zero_le j) hlt hpos)).1
    · by_contra hpos
      rw [not_le, ← hfd] at hpos
      exact (live_close_setPc.mp (hs.entries k (Nat.zero_le k) hlt hpos)).2 hfd
  · rintro ⟨hs, hle⟩
    refine ⟨?_, ?_, fun hout => absurd hout (by simp [inLoop])⟩
    · intro c hc
      rcases List.mem_append.mp hc with hc | hc
      · exact hs.closes c hc
      · obtain rfl := List.mem_singleton.mp hc
        rw [habout]
        exact hk
    · intro j _ hlt hpos
      refine live_close_setPc.mpr ⟨hs.entries j (by rw [hzero]; exact Nat.zero_le j) hlt hpos, ?_⟩
      intro heq
      have hpos' : 0 < s.clientFd j := hpos
      rw [heq] at hpos'
      exact absurd hle (not_le.mpr hpos')

theorem sound_closeClient {loop : ℕ} (hpc : s.pc = .closeClients loop)
    (hlt : loop < s.clientFdCnt) (hpos : 0 < s.clientFd loop) :
    ({ s.close (.conn loop) (s.clientFd loop) with pc := .closeClients (loop + 1) } :
      CmdServer).Sound ↔ s.Sound := by
  have hcleaned : s.cleaned = loop := by rw [cleaned, hpc]
  have hout : s.inLoop = false := by rw [inLoop, hpc]
  constructor
  · intro h
    have hself : s.live loop := h.closes _ (List.mem_append_right _ (List.mem_singleton_self _))
    refine ⟨fun c hc => h.closes c (List.mem_append_left _ hc), ?_, ?_⟩
    · intro k hk hlt hpos
      rw [hcleaned] at hk
      rcases Nat.eq_or_lt_of_le hk with rfl | hk
      · exact hself
      · exact (live_close_setPc.mp (h.entries k hk hlt hpos)).1
    · intro _ k hlt hneg hopen
      refine h.zeros rfl k hlt hneg (live_close_setPc.mpr ⟨hopen, ?_⟩)
      intro heq
      rw [heq] at hneg
      exact absurd hneg (not_le.mpr hpos)
  · intro h
    have hself := h.entries loop hcleaned.le hlt hpos
    refine ⟨?_, ?_, ?_⟩
    · intro c hc
      rcases List.mem_append.mp hc with hc | hc
      · exact h.closes c hc
      · obtain rfl := List.mem_singleton.mp hc
        exact hself
    · intro k hk hlt hpos
      have hk' : loop < k := hk
      have hopen := h.entries k (by rw [hcleaned]; exact hk'.le) hlt hpos
      refine live_close_setPc.mpr ⟨hopen, ?_⟩
      intro heq
      rw [live, heq, show s.owner (s.clientFd loop) = _ from hself] at hopen
      have hkl : loop = k := by simpa using hopen
      omega
    · intro _ k hlt hneg hopen
      exact h.zeros hout k hlt hneg (live_close_setPc.mp hopen).1

theorem sound_skipClient {loop : ℕ} (hpc : s.pc = .closeClients loop)
    (hzero : ¬ 0 < s.clientFd loop) :
    ({ s with pc := .closeClients (loop + 1) } : CmdServer).Sound ↔ s.Sound := by
  have hcleaned : s.cleaned = loop := by rw [cleaned, hpc]
  have hout : s.inLoop = false := by rw [inLoop, hpc]
  constructor
  · intro h
    refine ⟨h.closes, ?_, fun _ => h.zeros rfl⟩
    intro k hk hlt hpos
    rw [hcleaned] at hk
    rcases Nat.eq_or_lt_of_le hk with rfl | hk
    · exact absurd hpos hzero
    · exact h.entries k hk hlt hpos
  · intro h
    refine ⟨h.closes, ?_, fun _ => h.zeros hout⟩
    intro k hk hlt hpos
    have hk' : loop < k := hk
    exact h.entries k (by rw [hcleaned]; exact hk'.le) hlt hpos

theorem sound_endClients {loop : ℕ} (hpc : s.pc = .closeClients loop)
    (hge : ¬ loop < s.clientFdCnt) :
    ({ s with pc := .closeServerFd } : CmdServer).Sound ↔ s.Sound := by
  have hcleaned : s.cleaned = loop := by rw [cleaned, hpc]
  have hout : s.inLoop = false := by rw [inLoop, hpc]
  constructor
  · intro h
    refine ⟨h.closes, ?_, fun _ => h.zeros rfl⟩
    intro k hk hlt
    rw [hcleaned] at hk
    omega
  · intro h
    refine ⟨h.closes, ?_, fun _ => h.zeros hout⟩
    intro k hk hlt
    exact absurd hlt (Nat.not_lt.mpr hk)

/-- Behind the table, a `close` that finds what it is meant for changes nothing. -/
theorem sound_closeRest {target : FdOwner} {fd : ℤ} {pc : CmdServerPc}
    (hcleaned : s.cleaned = s.clientFdCnt) (hout : s.inLoop = false)
    (hcleaned' : ({ s.close target fd with pc := pc } : CmdServer).cleaned = s.clientFdCnt)
    (hout' : ({ s.close target fd with pc := pc } : CmdServer).inLoop = false)
    (howner : s.owner fd = some target) (hapart : ∀ k < s.clientFdCnt, s.clientFd k ≠ fd) :
    ({ s.close target fd with pc := pc } : CmdServer).Sound ↔ s.Sound := by
  constructor
  · intro h
    refine ⟨fun c hc => h.closes c (List.mem_append_left _ hc), ?_, ?_⟩
    · intro k hk hlt
      rw [hcleaned] at hk
      exact absurd hlt (Nat.not_lt.mpr hk)
    · intro _ k hlt hneg hopen
      exact h.zeros hout' k hlt hneg (live_close_setPc.mpr ⟨hopen, hapart k hlt⟩)
  · intro h
    refine ⟨?_, ?_, ?_⟩
    · intro c hc
      rcases List.mem_append.mp hc with hc | hc
      · exact h.closes c hc
      · obtain rfl := List.mem_singleton.mp hc
        exact howner
    · intro k hk hlt
      rw [hcleaned'] at hk
      exact absurd hlt (Nat.not_lt.mpr hk)
    · intro _ k hlt hneg hopen
      exact h.zeros hout k hlt hneg (live_close_setPc.mp hopen).1

/-- Steps that neither close for an event nor leave the loop are in order. -/
theorem orderly_of_quiet (hcloses : s.closesEvent a = false) (hleaves : s.leaves a = false) :
    s.Orderly a := by
  constructor
  · intro h
    rw [hcloses] at h
    cases h
  · intro h
    rw [hleaves] at h
    cases h

theorem orderly_of_closesEvent (hpc : s.pc = .forEvents (e :: rest))
    (hcloses : s.closesEvent a = true) (hleaves : s.leaves a = false) :
    s.Orderly a ↔ e.fd ≤ 0 := by
  simp [Orderly, hcloses, hleaves, current_eq hpc]

theorem orderly_of_leaves (hcloses : s.closesEvent a = false) (hleaves : s.leaves a = true) :
    s.Orderly a ↔ ∀ k < s.clientFdCnt, s.clientFd k ≤ 0 → ¬ s.live k := by
  simp [Orderly, hcloses, hleaves]

/-- **Which steps keep a run sound.** -/
theorem sound_next (ha : s.guard a = true) (ht : s.FdTable) (h : s.Progress) :
    (s.next a).Sound ↔ s.Sound ∧ s.Orderly a := by
  have hquiet : s.closesEvent a = false → s.leaves a = false →
      ((s.next a).Sound ↔ s.Sound) → ((s.next a).Sound ↔ s.Sound ∧ s.Orderly a) :=
    fun hcloses hleaves hiff => hiff.trans (and_iff_left (orderly_of_quiet hcloses hleaves)).symm
  have hskip : ∀ {e : CmdEvent} {rest : List CmdEvent}, s.pc = .forEvents (e :: rest) →
      (s.nextEvent.Sound ↔ s.Sound) := by
    intro e rest hpc
    rw [nextEvent_eq hpc]
    exact sound_inLoop (inLoop_of_event hpc) rfl
  have hclose : ∀ {e : CmdEvent} {rest : List CmdEvent}, s.pc = .forEvents (e :: rest) →
      e.fd ≠ s.serverFd → s.closesEvent a = true → s.leaves a = false →
      (s.closeEvent.Sound ↔ s.Sound ∧ s.Orderly a) := by
    intro e rest hpc hne hcloses hleaves
    rw [closeEvent_eq hpc, sound_closeEvent ht h hpc hne,
      orderly_of_closesEvent hpc hcloses hleaves]
  have hleave : s.inLoop = true → s.closesEvent a = false → s.leaves a = true →
      ((s.next a).Sound ↔ s.Sound ∧ s.Orderly a) := by
    intro hloop hcloses hleaves
    rw [next_of_leaves hleaves, sound_leave hloop, orderly_of_leaves hcloses hleaves]
  cases a with
  | setExit => exact hquiet rfl rfl (sound_congr rfl rfl rfl (fun _ => Iff.rfl) rfl rfl)
  | whileTest =>
      have hloop := inLoop_of_pc (by simpa [CmdServer.guard] using ha) (.inl rfl)
      cases hexit : s.exit with
      | true => exact hleave hloop rfl hexit
      | false =>
          apply hquiet rfl hexit
          have hnext : s.next .whileTest = { s with pc := .epollWait } := by
            simp [next, hexit]
          rw [hnext]
          exact sound_inLoop hloop rfl
  | epollFails =>
      have hloop := inLoop_of_pc (by simpa [CmdServer.guard] using ha) (.inr rfl)
      exact hleave hloop rfl rfl
  | epollTimeout =>
      have hloop := inLoop_of_pc (by simpa [CmdServer.guard] using ha) (.inr rfl)
      exact hquiet rfl rfl (sound_inLoop hloop rfl)
  | epollEvents events =>
      simp only [CmdServer.guard, Bool.and_eq_true, beq_iff_eq] at ha
      exact hquiet rfl rfl (sound_inLoop (inLoop_of_pc ha.1 (.inr rfl)) rfl)
  | accept fd =>
      obtain ⟨e, rest, hpc, hp⟩ := event_of_guard ha
      simp only [Bool.and_eq_true, beq_iff_eq, decide_eq_true_eq] at hp
      apply hquiet rfl rfl
      rw [next_accept hpc]
      exact sound_accept hpc hp.1.2
  | acceptFails =>
      obtain ⟨e, rest, hpc, -⟩ := event_of_guard ha
      exact hquiet rfl rfl (hskip hpc)
  | handleMsg ret =>
      obtain ⟨e, rest, hpc, hp⟩ := event_of_guard ha
      simp only [Bool.and_eq_true, bne_iff_ne] at hp
      by_cases hret : ret ≠ 0
      · simp only [next, if_pos hret]
        exact hclose hpc hp.1 (by simpa [closesEvent] using hret) rfl
      · apply hquiet (by simpa [closesEvent] using hret) rfl
        simp only [next, if_neg hret]
        exact hskip hpc
  | peerClosed =>
      obtain ⟨e, rest, hpc, hp⟩ := event_of_guard ha
      simp only [Bool.and_eq_true, bne_iff_ne] at hp
      exact hclose hpc hp.1 rfl rfl
  | recvFails =>
      obtain ⟨e, rest, hpc, -⟩ := event_of_guard ha
      have hloop := inLoop_of_event hpc
      exact hquiet rfl rfl (sound_congr rfl rfl rfl (fun _ => Iff.rfl)
        (cleaned_of_inLoop hloop).symm hloop.symm)
  | noInput =>
      obtain ⟨e, rest, hpc, hp⟩ := event_of_guard ha
      simp only [Bool.and_eq_true, bne_iff_ne] at hp
      cases herr : s.current.any fun e => e.epollErr || e.epollHup with
      | true =>
          simp only [next, herr, if_true]
          exact hclose hpc hp.1 herr rfl
      | false =>
          apply hquiet herr rfl
          simp only [next, herr, Bool.false_eq_true, if_false]
          exact hskip hpc
  | endFor =>
      have hpc : s.pc = .forEvents [] := by simpa [CmdServer.guard] using ha
      exact hquiet rfl rfl (sound_inLoop (inLoop_of_event hpc) rfl)
  | closeClient =>
      apply hquiet rfl rfl
      cases hpc : s.pc with
      | closeClients loop =>
          simp only [next, hpc]
          split_ifs with hlt hpos
          · exact sound_closeClient hpc hlt hpos
          · exact sound_skipClient hpc hpos
          · exact sound_endClients hpc hlt
      | _ => simp [CmdServer.guard, hpc] at ha
  | closeServerFd =>
      have hpc : s.pc = .closeServerFd := by simpa [CmdServer.guard] using ha
      apply hquiet rfl rfl
      simp only [next, ht.serverFd, if_true]
      exact sound_closeRest (by rw [cleaned, hpc]) (by rw [inLoop, hpc]) rfl rfl
        (h.server (by rw [hpc]; simp) (by rw [hpc]; simp)) fun k hk => (ht.apart k hk).1
  | closeEpollFd =>
      have hpc : s.pc = .closeEpollFd := by simpa [CmdServer.guard] using ha
      apply hquiet rfl rfl
      simp only [next, ht.epollFd, if_true]
      exact sound_closeRest (by rw [cleaned, hpc]) (by rw [inLoop, hpc]) rfl rfl
        (h.epoll (by rw [hpc]; simp)) fun k hk => (ht.apart k hk).2
  | otherOpen fd =>
      simp only [CmdServer.guard, Bool.and_eq_true, beq_iff_eq] at ha
      exact hquiet rfl rfl (sound_congr rfl rfl rfl
        (fun _ => live_other (by simp [ha.1.2]) (by simp)) rfl rfl)
  | otherClose fd =>
      simp only [CmdServer.guard, Bool.and_eq_true, beq_iff_eq] at ha
      exact hquiet rfl rfl (sound_congr rfl rfl rfl
        (fun _ => live_other (by simp [ha.2]) (by simp)) rfl rfl)

/-- What soundness comes to in the end. -/
theorem closedOnce_iff (hpc : s.pc = .ended) (ht : s.FdTable) (h : s.Progress) :
    s.ClosedOnce ↔ s.Sound := by
  have hcleaned : s.cleaned = s.clientFdCnt := by rw [cleaned, hpc]
  have hgone : ∀ k < s.clientFdCnt, s.closings k = 1 ↔ ¬ s.live k := by
    intro k hk
    rw [ht.closings k hk]
    by_cases hlive : s.live k <;> simp [hlive]
  constructor
  · rintro ⟨hclosings, hcloses⟩
    refine ⟨hcloses, ?_, fun _ k hk _ => (hgone k hk).mp (hclosings k hk)⟩
    intro k hk hlt
    rw [hcleaned] at hk
    exact absurd hlt (Nat.not_lt.mpr hk)
  · intro hs
    refine ⟨fun k hk => (hgone k hk).mpr ?_, hs.closes⟩
    rcases lt_or_ge 0 (s.clientFd k) with hpos | hneg
    · exact h.swept k (by rw [hcleaned]; exact hk) hpos
    · exact hs.zeros (by rw [inLoop, hpc]) k hk hneg

end CmdServer

/-- **In a run to the end of the thread, in which the table is large enough, every connection
is closed exactly once, and no `close` is for an fd that is not open or somebody else's, if
and only if all steps of the run are `Orderly`.** -/
theorem closed_once_iff {s₀ : CmdServer} {as : List CmdServerAction} (hinit : s₀.Started)
    (hl : Legal cmdServerSystem TableRoom s₀ as)
    (hend : (exec cmdServerSystem s₀ as).pc = .ended) :
    (exec cmdServerSystem s₀ as).ClosedOnce ↔ Legal cmdServerSystem Orderly s₀ as := by
  have hstart : s₀.Sound := by
    refine ⟨?_, ?_, ?_⟩
    · simp [hinit.closes]
    · intro k _ hk
      rw [hinit.clientFdCnt] at hk
      exact absurd hk (Nat.not_lt_zero k)
    · intro hout
      rw [inLoop_of_pc hinit.pc (.inl rfl)] at hout
      cases hout
  have hreach : Reach cmdServerSystem TableRoom s₀ := .init hinit
  obtain ⟨ht, hp⟩ := kept_of_reach (hreach.exec hl)
  rw [closedOnce_iff hend ht hp]
  refine (Legal.final_iff ?_ hreach hl).trans (and_iff_right hstart)
  intro s a hs ha _
  obtain ⟨ht, hp⟩ := kept_of_reach hs
  exact sound_next ha ht hp

/-- From `Exit` to the end of the thread, with so many entries in the table. -/
def shutsDown (n : ℕ) : List CmdServerAction :=
  [.setExit, .whileTest] ++ List.replicate (n + 1) .closeClient ++ [.closeServerFd, .closeEpollFd]

/-- Two clients, and a file that another thread opens. -/
theorem closed_once_iff_run :
    (exec cmdServerSystem idleCmdServer (connects 5 ++ .otherOpen 6 :: connects 7 ++
      readable 5 0 (.handleMsg 0) ++ .endFor :: shutsDown 2)).ClosedOnce :=
  (closed_once_iff idleCmdServer_started (by decide) (by decide)).mpr
    (by decide)

/-- A client closes its connection, another thread opens a file, which gets the same fd, and
the thread closes the file when it ends. -/
theorem close_of_another : ∃ s, Reachable cmdServerSystem s ∧ s.pc = .ended ∧ ¬ s.ClosedOnce := by
  refine ⟨exec cmdServerSystem idleCmdServer (connects 5 ++ readable 5 0 .peerClosed ++
    [.endFor, .otherOpen 5] ++ shutsDown 1),
    Reach.exec (.init idleCmdServer_started) (by decide), by decide, ?_⟩
  rintro ⟨-, hcloses⟩
  exact absurd (hcloses ⟨5, .conn 0, some .other⟩ (by decide)) (by decide)

end MyWorkEnv
