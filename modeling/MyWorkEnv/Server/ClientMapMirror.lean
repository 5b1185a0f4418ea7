import MyWorkEnv.Server.ServerClientMap
import MyWorkEnv.Server.ServerProc

/-!
# The client map and the open connections

The loop adds an fd to its map after it has registered it with epoll, and
deletes it after it has closed it. The map is a linked list that is run here
next to the loop (`clientMapSystem`), and it lists what the state of the loop
says it lists (`lists_of_reach`).

The fds in the map are open, and in it once, whatever happens. None is missing
as long as `ServerClientMapAddNode` gets its node (`map_mirrors_iff_run`): an fd
it could not add stays open and registered, as `_ServerProcFn` only logs the
return code, and no later event of the same batch can close it.
-/

namespace MyWorkEnv

open LinkedRing Transfer Transition

variable {α : Type} [DecidableEq α]

/-- The event loop and its `ClientMap`. -/
structure MappedServer (α : Type) where
  server : Server
  map : ServerClientMap α

/-- What a step does to the map; `node` is what `MyCalloc` returns. The walk is given a
round for each fd, and one to end with. -/
def mapStep (s : Server) (m : ServerClientMap α) (node : Option α) :
    ServerAction → ServerClientMap α
  | .accept fd _ => (serverClientMapAddNode m fd node).2
  | .close =>
      match s.loop with
      | .closeFd fd _ => (serverClientMapDelByFd m fd (s.clientMap.length + 1)).getD m
      | _ => m
  | _ => m

/-- `MyCalloc` returns no node that is in the list, as only these are in use, and `mapped`
tells what `ServerClientMapAddNode` returns. -/
def Allocates (m : ServerClientMap α) (node : Option α) : ServerAction → Prop
  | .accept fd mapped =>
      (∀ n ∈ node, ∀ nodes, Represents m.links m.head nodes → n ∉ m.head :: nodes) ∧
        mapped = decide ((serverClientMapAddNode m fd node).1 = mySuccess)
  | _ => True

def clientMapSystem (env : ServerEnv) : System (MappedServer α) (ServerAction × Option α) where
  init x := x.server = Server.init env ∧
    ∃ m, m.inited = false ∧ x.map = serverClientMapInit m
  enabled x a := x.server.guard env a.1 = true ∧ Allocates x.map a.2 a.1
  next x a := ⟨x.server.next env a.1, mapStep x.server x.map a.2 a.1⟩

/-- The map is a list of these fds. -/
def Lists (m : ServerClientMap α) (fds : List ℕ) : Prop :=
  ∃ nodes, Holds m nodes (fds.map Nat.cast)

/-- The open client fds that are registered with epoll. -/
def OpenFd (s : Server) (fd : ℕ) : Prop := ∃ c, s.fdConn fd = some c ∧ s.registered c = true

/-- **The map mirrors the open connections.** -/
def Mirrors (x : MappedServer α) : Prop :=
  ∃ fds, Lists x.map fds ∧ fds.Nodup ∧ ∀ fd, fd ∈ fds ↔ OpenFd x.server fd

/-- It does each time the loop is at `epoll_wait`. -/
def MirrorsAtWait (x : MappedServer α) : Prop := x.server.loop = .epollWait → Mirrors x

/-- There is memory for the node of an accepted fd. -/
def HasMemory (_ : MappedServer α) (a : ServerAction × Option α) : Prop :=
  match a.1 with
  | .accept _ _ => a.2.isSome = true
  | _ => True

/-- The steps that leave the map and the fds as they are. -/
def ServerAction.keepsMap : ServerAction → Bool
  | .accept _ _ | .close => false
  | _ => true

/-! ## The list runs along -/

variable {env : ServerEnv} {s : Server} {m : ServerClientMap α} {x : MappedServer α}

omit [DecidableEq α] in
theorem Lists.unique {fds fds' : List ℕ} (h : Lists m fds) (h' : Lists m fds') : fds = fds' := by
  obtain ⟨nodes, h⟩ := h
  obtain ⟨nodes', h'⟩ := h'
  have hnodes : nodes = nodes' := h.ring.unique h'.ring
  have hcast : fds.map (Nat.cast : ℕ → ℤ) = fds'.map Nat.cast := by
    rw [← h.fds, ← h'.fds, hnodes]
  exact List.map_injective_iff.mpr Nat.cast_injective hcast

/-- A node is added if and only if there is memory for it. -/
theorem addNode_success_iff {fds : List ℕ} (h : Lists m fds) (fd : ℕ) (node : Option α) :
    (serverClientMapAddNode m fd node).1 = mySuccess ↔ node.isSome = true := by
  obtain ⟨nodes, h⟩ := h
  cases node with
  | none => simp [(addNode_none m (fd : ℤ)).1]
  | some node => simp [serverClientMapAddNode, h.inited]

theorem Lists.add {fds : List ℕ} (h : Lists m fds) {fd : ℕ} {mapped : Bool} {node : Option α}
    (ha : Allocates m node (.accept fd mapped)) :
    Lists (serverClientMapAddNode m fd node).2 (if mapped then fds ++ [fd] else fds) := by
  obtain ⟨hfresh, hmapped⟩ := ha
  have hiff := addNode_success_iff h fd node
  obtain ⟨nodes, h⟩ := h
  cases node with
  | none =>
      have hno : mapped = false := by simpa [hiff] using hmapped
      rw [hno, (addNode_none m (fd : ℤ)).2]
      exact ⟨nodes, h⟩
  | some node =>
      have hyes : mapped = true := by simpa [hiff] using hmapped
      have hadd := holds_addNode h (Int.natCast_nonneg fd) (hfresh node rfl nodes h.ring)
      rw [hyes, if_pos rfl]
      exact ⟨nodes ++ [node], by simpa using hadd.2⟩

theorem Lists.del {fds : List ℕ} (h : Lists m fds) (fd : ℕ) :
    Lists ((serverClientMapDelByFd m fd (fds.length + 1)).getD m) (fds.erase fd) := by
  obtain ⟨nodes, h⟩ := h
  have hlen : nodes.length = fds.length := by simpa using congrArg List.length h.fds
  obtain ⟨m', nodes', hdel, -, hm'⟩ := holds_delByFd h (Int.natCast_nonneg fd)
  rw [hlen] at hdel
  rw [hdel]
  refine ⟨nodes', ?_⟩
  rwa [List.map_erase Nat.cast_injective]

/-- **What a step can do** to the fds and to the map. -/
inductive MapChange (env : ServerEnv) (s s' : Server) : ServerAction → Prop where
  | keep {a : ServerAction} (kept : a.keepsMap = true) (fdConn : s'.fdConn = s.fdConn)
      (clientMap : s'.clientMap = s.clientMap) : MapChange env s s' a
  | accept {fd c : ℕ} {mapped : Bool} (closed : s.fdConn fd = none)
      (notListening : fd ≠ env.serverFd)
      (fdConn : s'.fdConn = Function.update s.fdConn fd (some c))
      (clientMap : s'.clientMap = if mapped then s.clientMap ++ [fd] else s.clientMap) :
      MapChange env s s' (.accept fd mapped)
  | close {fd : ℕ} {rest : List EpollEvent} (loop : s.loop = .closeFd fd rest)
      (fdConn : s'.fdConn = Function.update s.fdConn fd none)
      (clientMap : s'.clientMap = s.clientMap.erase fd) : MapChange env s s' .close

theorem mapChange_next {a : ServerAction} (ha : s.guard env a = true) :
    MapChange env s (s.next env a) a := by
  cases a with
  | accept fd mapped =>
      obtain ⟨ev, rest, c, later, hloop, hlog, -, hclosed, hlisten⟩ := Server.guard_accept ha
      simp only [Server.next, hloop, hlog]
      exact .accept hclosed hlisten rfl rfl
  | close =>
      obtain ⟨fd, rest, hloop⟩ := Server.guard_close ha
      simp only [Server.next, hloop]
      exact .close hloop rfl rfl
  | _ =>
      simp only [Server.next]
      repeat' split
      all_goals exact .keep rfl rfl rfl

/-- **One step of the list** is the step of the loop's state. -/
theorem Lists.next (h : Lists m s.clientMap) {a : ServerAction} {node : Option α}
    (ha : s.guard env a = true) (hn : Allocates m node a) :
    Lists (mapStep s m node a) (s.next env a).clientMap := by
  cases mapChange_next ha with
  | keep kept _ hmap =>
      have hsame : mapStep s m node a = m := by
        cases a with
        | accept fd mapped => simp [ServerAction.keepsMap] at kept
        | close => simp [ServerAction.keepsMap] at kept
        | _ => rfl
      rw [hmap, hsame]
      exact h
  | accept _ _ _ hmap =>
      rw [hmap]
      exact h.add hn
  | close hloop _ hmap =>
      rw [hmap]
      simp only [mapStep, hloop]
      exact h.del _

abbrev MappedRun (env : ServerEnv) : MappedServer α → Prop := Reachable (clientMapSystem env)

theorem server_of_reach (h : MappedRun env x) : Reachable (serverSystem env) x.server := by
  refine h.view (J := fun _ => True) MappedServer.server (fun _ _ => trivial) ?_ ?_
  · rintro x ⟨hs, -⟩
    exact hs
  · rintro x a - ⟨hg, -⟩ -
    exact Or.inr ⟨a.1, hg, trivial, rfl⟩

theorem lists_of_reach (h : MappedRun env x) : Lists x.map x.server.clientMap := by
  refine h.invariant (I := fun x => Lists x.map x.server.clientMap) ?_ ?_
  · rintro x ⟨hs, m, hm, hx⟩
    rw [hs, hx]
    exact ⟨[], holds_init m hm⟩
  · rintro x a hx ⟨hg, hn⟩ -
    exact hx.next hg hn

/-! ## The fds in the map are open -/

/-- What holds whether or not there is memory: the map has no fd twice, and none
that is not open. -/
structure ListsOpen (s : Server) : Prop where
  nodup : s.clientMap.Nodup
  opened : ∀ fd ∈ s.clientMap, s.fdConn fd ≠ none

theorem ListsOpen.next (h : ListsOpen s) {a : ServerAction} (ha : s.guard env a = true) :
    ListsOpen (s.next env a) := by
  cases mapChange_next ha with
  | keep _ hfd hmap =>
      constructor
      · rw [hmap]
        exact h.nodup
      · rw [hmap, hfd]
        exact h.opened
  | @accept fd c mapped hclosed _ hfd hmap =>
      have hnew : fd ∉ s.clientMap := fun hmem => h.opened fd hmem hclosed
      have hopen : ∀ fd' ∈ s.clientMap, Function.update s.fdConn fd (some c) fd' ≠ none := by
        intro fd' hmem
        have hne : fd' ≠ fd := by
          rintro rfl
          exact hnew hmem
        rw [Function.update_of_ne hne]
        exact h.opened fd' hmem
      cases mapped with
      | false =>
          constructor
          · rw [hmap]
            exact h.nodup
          · rw [hmap, hfd]
            exact hopen
      | true =>
          constructor
          · rw [hmap, if_pos rfl, ← List.concat_eq_append]
            exact h.nodup.concat hnew
          · rw [hmap, hfd, if_pos rfl]
            intro fd' hmem
            rcases List.mem_append.mp hmem with hmem | hmem
            · exact hopen fd' hmem
            · rw [List.mem_singleton.mp hmem, Function.update_self]
              exact Option.some_ne_none c
  | @close fd rest _ hfd hmap =>
      constructor
      · rw [hmap]
        exact h.nodup.erase fd
      · rw [hmap, hfd]
        intro fd' hmem
        obtain ⟨hne, hmem⟩ := h.nodup.mem_erase_iff.mp hmem
        rw [Function.update_of_ne hne]
        exact h.opened fd' hmem

theorem listsOpen_of_reach {P : Server → ServerAction → Prop}
    (h : Reach (serverSystem env) P s) : ListsOpen s := by
  refine h.invariant ?_ ?_
  · rintro s rfl
    exact ⟨List.nodup_nil, fun fd hmem => absurd hmem List.not_mem_nil⟩
  · intro s a hs ha _
    exact hs.next ha

/-- The mirror is a matter of the open fds that are not in the map. -/
theorem mirrors_iff (h : MappedRun env x) :
    Mirrors x ↔ ∀ fd, x.server.fdConn fd ≠ none → fd ∈ x.server.clientMap := by
  have hlists := lists_of_reach h
  have htable := fdTable_of_reach (server_of_reach h)
  have hopen := listsOpen_of_reach (server_of_reach h)
  constructor
  · rintro ⟨fds, hfds, -, hmem⟩ fd hfd
    obtain ⟨c, hc⟩ := Option.ne_none_iff_exists'.mp hfd
    rw [← hfds.unique hlists]
    exact (hmem fd).mpr ⟨c, hc, htable.registered fd c hc⟩
  · intro hall
    refine ⟨x.server.clientMap, hlists, hopen.nodup, ?_⟩
    intro fd
    constructor
    · intro hmem
      obtain ⟨c, hc⟩ := Option.ne_none_iff_exists'.mp (hopen.opened fd hmem)
      exact ⟨c, hc, htable.registered fd c hc⟩
    · rintro ⟨c, hc, -⟩
      exact hall fd (by simp [hc])

/-! ## With memory for every node, none is missing -/

/-- Every fd there is, is in the map. -/
def ListsAll (s : Server) : Prop := ∀ fd, s.fdConn fd ≠ none → fd ∈ s.clientMap

theorem ListsAll.next (h : ListsAll s) (ho : ListsOpen s) {a : ServerAction}
    (ha : s.guard env a = true) (hmapped : ∀ fd, a ≠ .accept fd false) :
    ListsAll (s.next env a) := by
  intro fd' hfd'
  cases mapChange_next ha with
  | keep _ hfd hmap =>
      rw [hmap]
      rw [hfd] at hfd'
      exact h fd' hfd'
  | @accept fd c mapped _ _ hfd hmap =>
      have hyes : mapped = true := by
        cases mapped with
        | false => exact absurd rfl (hmapped fd)
        | true => rfl
      rw [hmap, if_pos hyes, List.mem_append, List.mem_singleton]
      by_cases he : fd' = fd
      · exact Or.inr he
      · rw [hfd, Function.update_of_ne he] at hfd'
        exact Or.inl (h fd' hfd')
  | @close fd rest _ hfd hmap =>
      have hne : fd' ≠ fd := by
        rintro rfl
        rw [hfd, Function.update_self] at hfd'
        exact hfd' rfl
      rw [hfd, Function.update_of_ne hne] at hfd'
      rw [hmap]
      exact ho.nodup.mem_erase_iff.mpr ⟨hne, h fd' hfd'⟩

/-! ## Without it, the fd is missing when the batch is done -/

/-- The fds of the events that are not done with. -/
def LoopPc.pending : LoopPc → List ℕ
  | .epollWait => []
  | .events rest => rest.map EpollEvent.fd
  | .recvMsg fd _ rest => fd :: rest.map EpollEvent.fd
  | .handleMsg fd _ _ rest => fd :: rest.map EpollEvent.fd
  | .sendMsg fd _ _ rest => fd :: rest.map EpollEvent.fd
  | .closeFd fd rest => fd :: rest.map EpollEvent.fd

/-- A batch has one event for each fd, and the client fds in it are open. -/
structure Batch (env : ServerEnv) (s : Server) : Prop where
  nodup : s.loop.pending.Nodup
  opened : ∀ fd ∈ s.loop.pending, fd ≠ env.serverFd → s.fdConn fd ≠ none

theorem pending_afterRecv (fd c : ℕ) (rest : List EpollEvent)
    (prog : ReadLoops UInt8 MsgResult) :
    (Server.afterRecv fd c rest prog).pending = fd :: rest.map EpollEvent.fd := by
  cases prog with
  | done r =>
      simp only [Server.afterRecv]
      split <;> rfl
  | read n halt next => rfl

theorem pending_afterSend (fd c : ℕ) (rest : List EpollEvent)
    (prog : WriteLoops UInt8 MsgResult) :
    (Server.afterSend fd c rest prog).pending.Sublist (fd :: rest.map EpollEvent.fd) := by
  cases prog with
  | done r => exact List.sublist_cons_self _ _
  | write bs halt next => exact List.Sublist.refl _

/-- Between two calls of `epoll_wait`, events are only taken from the batch. -/
theorem pending_next {a : ServerAction} (ha : s.guard env a = true)
    (hpoll : ∀ evs, a ≠ .poll evs) :
    (s.next env a).loop.pending.Sublist s.loop.pending := by
  cases a with
  | poll evs => exact absurd rfl (hpoll evs)
  | accept fd mapped =>
      obtain ⟨ev, rest, c, later, hloop, hlog, -⟩ := Server.guard_accept ha
      simp only [Server.next, hloop, hlog]
      exact List.sublist_cons_self _ _
  | acceptFails =>
      obtain ⟨ev, rest, hloop, -⟩ := Server.guard_acceptFails ha
      simp only [Server.next, hloop]
      exact List.sublist_cons_self _ _
  | dispatch =>
      rcases Server.guard_dispatch ha with hloop | ⟨ev, rest, hloop, -⟩
      · simp only [Server.next, hloop]
        exact List.nil_sublist _
      · simp only [Server.next, hloop]
        split_ifs
        · exact List.Sublist.refl _
        · exact List.Sublist.refl _
        · exact List.sublist_cons_self _ _
  | recv r =>
      obtain ⟨fd, prog, rest, hloop, -⟩ := Server.guard_recv ha
      cases hconn : s.fdConn fd with
      | none =>
          simp only [Server.next, hloop, hconn]
          exact List.Sublist.refl _
      | some c =>
          simp only [Server.next, hloop, hconn]
          rw [pending_afterRecv]
          exact List.Sublist.refl _
  | execCmd queued =>
      obtain ⟨fd, c, msg, rest, hloop, -⟩ := Server.guard_execCmd ha
      simp only [Server.next, hloop]
      exact List.sublist_cons_self _ _
  | reply msg tv =>
      obtain ⟨fd, c, request, rest, hloop⟩ := Server.guard_reply ha
      simp only [Server.next, hloop]
      exact List.Sublist.refl _
  | noReply =>
      obtain ⟨fd, c, request, rest, hloop⟩ := Server.guard_noReply ha
      simp only [Server.next, hloop]
      exact List.sublist_cons_self _ _
  | send r =>
      obtain ⟨fd, c, prog, rest, hloop⟩ := Server.guard_send ha
      simp only [Server.next, hloop]
      exact pending_afterSend fd c rest _
  | close =>
      obtain ⟨fd, rest, hloop⟩ := Server.guard_close ha
      simp only [Server.next, hloop]
      exact List.sublist_cons_self _ _
  | startReply i msg tv =>
      simp only [Server.next]
      split <;> exact List.Sublist.refl _
  | sendReply i r =>
      simp only [Server.next]
      split <;> exact List.Sublist.refl _
  | giveUp i =>
      simp only [Server.next]
      split <;> exact List.Sublist.refl _
  | connect => exact List.Sublist.refl _
  | arrive c k => exact List.Sublist.refl _
  | hangUp c why => exact List.Sublist.refl _

/-- An fd stays open until the loop closes it. -/
theorem opened_next {a : ServerAction} (ha : s.guard env a = true) {fd : ℕ}
    (h : s.fdConn fd ≠ none) (hclose : ∀ rest, a = .close → s.loop ≠ .closeFd fd rest) :
    (s.next env a).fdConn fd ≠ none := by
  cases mapChange_next ha with
  | keep _ hfd _ =>
      rw [hfd]
      exact h
  | accept hclosed _ hfd _ =>
      rw [hfd, Function.update_of_ne]
      · exact h
      · rintro rfl
        exact h hclosed
  | close hloop hfd _ =>
      rw [hfd, Function.update_of_ne]
      · exact h
      · rintro rfl
        exact hclose _ rfl hloop

theorem Batch.next (h : Batch env s) {a : ServerAction} (ha : s.guard env a = true) :
    Batch env (s.next env a) := by
  by_cases hpoll : ∃ evs, a = .poll evs
  · obtain ⟨evs, rfl⟩ := hpoll
    obtain ⟨-, hreport, hnodup⟩ := Server.guard_poll ha
    refine ⟨hnodup, ?_⟩
    intro fd hfd hne hclosed
    obtain ⟨ev, hev, rfl⟩ := List.mem_map.mp hfd
    have hmay := hreport ev hev
    have hno : s.fdConn ev.fd = none := hclosed
    simp [Server.mayReport, hne, hno] at hmay
  · have hsub := pending_next ha fun evs he => hpoll ⟨evs, he⟩
    refine ⟨h.nodup.sublist hsub, ?_⟩
    intro fd hfd hne
    refine opened_next ha (h.opened fd (hsub.subset hfd) hne) ?_
    rintro rest rfl hloop
    have hnodup := h.nodup
    rw [hloop] at hnodup
    simp only [Server.next, hloop] at hfd
    exact (List.nodup_cons.mp hnodup).1 hfd

theorem batch_of_reach {P : Server → ServerAction → Prop}
    (h : Reach (serverSystem env) P s) : Batch env s := by
  refine h.invariant ?_ ?_
  · rintro s rfl
    exact ⟨List.nodup_nil, fun fd hmem => absurd hmem List.not_mem_nil⟩
  · intro s a hs ha _
    exact hs.next ha

/-- An open fd that is not in the map, and that no event of the batch concerns. -/
structure Missing (s : Server) (fd : ℕ) : Prop where
  opened : s.fdConn fd ≠ none
  unlisted : fd ∉ s.clientMap
  done : fd ∉ s.loop.pending

theorem missing_of_accept (ho : ListsOpen s) (hb : Batch env s) {fd : ℕ}
    (ha : s.guard env (.accept fd false) = true) :
    Missing (s.next env (.accept fd false)) fd := by
  have hsub := pending_next ha fun evs he => by simp at he
  cases mapChange_next ha with
  | keep kept _ _ => simp [ServerAction.keepsMap] at kept
  | accept hclosed hlisten hfd hmap =>
      refine ⟨?_, ?_, ?_⟩
      · rw [hfd, Function.update_self]
        exact Option.some_ne_none _
      · rw [hmap]
        exact fun hmem => ho.opened fd hmem hclosed
      · exact fun hmem => hb.opened fd (hsub.subset hmem) hlisten hclosed

theorem Missing.next {fd : ℕ} (h : Missing s fd) {a : ServerAction}
    (ha : s.guard env a = true) (hpoll : ∀ evs, a ≠ .poll evs) :
    Missing (s.next env a) fd := by
  refine ⟨?_, ?_, fun hmem => h.done ((pending_next ha hpoll).subset hmem)⟩
  · refine opened_next ha h.opened ?_
    rintro rest - hloop
    exact h.done (by simp [hloop, LoopPc.pending])
  · cases mapChange_next ha with
    | keep _ _ hmap =>
        rw [hmap]
        exact h.unlisted
    | accept hclosed _ _ hmap =>
        rw [hmap]
        split_ifs
        · rw [List.mem_append, List.mem_singleton]
          rintro (hmem | rfl)
          · exact h.unlisted hmem
          · exact h.opened hclosed
        · exact h.unlisted
    | close _ _ hmap =>
        rw [hmap]
        exact fun hmem => h.unlisted (List.mem_of_mem_erase hmem)

/-! ## Runs -/

theorem listsAll_of_reach (h : Reach (clientMapSystem env) HasMemory x) :
    ListsAll x.server := by
  refine h.invariant_of (I := fun x => ListsAll x.server)
    (J := fun x => Lists x.map x.server.clientMap ∧ ListsOpen x.server) ?_ ?_ ?_
  · intro x hx
    have hrun : MappedRun env x := hx.mono fun _ _ _ => trivial
    exact ⟨lists_of_reach hrun, listsOpen_of_reach (server_of_reach hrun)⟩
  · rintro x ⟨hs, -⟩ fd hfd
    rw [hs] at hfd
    exact absurd rfl hfd
  · rintro x ⟨a, node⟩ ⟨hlists, hopen⟩ hall ⟨hg, hn⟩ hmem
    refine hall.next hopen hg ?_
    rintro fd rfl
    have hsome : node.isSome = true := hmem
    simpa [addNode_success_iff hlists, hsome] using hn.2

/-- Once an fd is missing, the next return to `epoll_wait` finds it so. -/
theorem not_always_of_missing {as : List (ServerAction × Option α)} {fd : ℕ}
    (hr : MappedRun env x) (hm : Missing x.server fd)
    (hl : Legal (clientMapSystem env) (fun _ _ => True) x as)
    (hend : (exec (clientMapSystem env) x as).server.loop = .epollWait) :
    ¬ Always (clientMapSystem env) MirrorsAtWait x as := by
  have hnot : ¬ Mirrors x := fun h => hm.unlisted ((mirrors_iff hr).mp h fd hm.opened)
  induction as generalizing x with
  | nil => exact fun hall => hnot (hall hend)
  | cons a as ih =>
      rintro ⟨hhere, hrest⟩
      obtain ⟨⟨hg, hn⟩, -, hl⟩ := hl
      have hpoll : ∀ evs, a.1 ≠ .poll evs := by
        intro evs he
        rw [he] at hg
        exact hnot (hhere (Server.guard_poll hg).1)
      have hr' : MappedRun env ((clientMapSystem env).next x a) := .step hr ⟨hg, hn⟩ trivial
      have hm' : Missing ((clientMapSystem env).next x a).server fd := hm.next hg hpoll
      refine ih hr' hm' hl hend ?_ hrest
      exact fun h => hm'.unlisted ((mirrors_iff hr').mp h fd hm'.opened)

theorem hasMemory_of_always {as : List (ServerAction × Option α)} (hr : MappedRun env x)
    (hl : Legal (clientMapSystem env) (fun _ _ => True) x as)
    (hend : (exec (clientMapSystem env) x as).server.loop = .epollWait)
    (hall : Always (clientMapSystem env) MirrorsAtWait x as) :
    Legal (clientMapSystem env) HasMemory x as := by
  induction as generalizing x with
  | nil => trivial
  | cons a as ih =>
      obtain ⟨ha, -, hl⟩ := hl
      have hr' : MappedRun env ((clientMapSystem env).next x a) := .step hr ha trivial
      refine ⟨ha, ?_, ih hr' hl hend hall.2⟩
      obtain ⟨a, node⟩ := a
      cases a with
      | accept fd mapped =>
          show node.isSome = true
          by_contra hno
          have hfail : mapped = false := by
            simpa [addNode_success_iff (lists_of_reach hr), hno] using ha.2.2
          subst hfail
          have hs := server_of_reach hr
          exact not_always_of_missing hr'
            (missing_of_accept (listsOpen_of_reach hs) (batch_of_reach hs) ha.1) hl hend hall.2
      | _ => trivial

/-- **The map mirrors the open connections** each time a run is back at `epoll_wait` if there
was memory for every node, and, for a run that ends there, only if. -/
theorem map_mirrors_iff_run (env : ServerEnv) {x : MappedServer α}
    (hx : (clientMapSystem env).init x) {as : List (ServerAction × Option α)}
    (hl : Legal (clientMapSystem env) (fun _ _ => True) x as) :
    (Legal (clientMapSystem env) HasMemory x as →
        Always (clientMapSystem env) MirrorsAtWait x as) ∧
      ((exec (clientMapSystem env) x as).server.loop = .epollWait →
        Always (clientMapSystem env) MirrorsAtWait x as →
          Legal (clientMapSystem env) HasMemory x as) := by
  refine ⟨fun hmem => ?_, hasMemory_of_always (.init hx) hl⟩
  refine hmem.always ?_ (.init hx)
  intro x hr _
  exact (mirrors_iff (hr.mono fun _ _ _ => trivial)).mpr (listsAll_of_reach hr)

/-- The listening fd is 3, and clients send nothing. -/
def acceptEnv : ServerEnv where
  endian := .little
  past _ := 0
  clients _ := []
  serverFd := 3

/-- The server at its start; node 0 is `ClientList`. -/
def emptyServer : MappedServer ℕ where
  server := Server.init acceptEnv
  map := serverClientMapInit ⟨false, 0, ⟨id, id⟩, fun _ => 0⟩

/-- A client is accepted as fd 5, and `MyCalloc` returns `node`. -/
def acceptRun (node : Option ℕ) : List (ServerAction × Option ℕ) :=
  [(.connect, none), (.poll [⟨3, true, false⟩], none), (.accept 5 node.isSome, node),
    (.dispatch, none)]

theorem emptyServer_init : (clientMapSystem acceptEnv).init emptyServer :=
  ⟨rfl, ⟨false, 0, ⟨id, id⟩, fun _ => 0⟩, rfl, rfl⟩

/-- Any node but the head is free at first. -/
theorem acceptRun_legal {node : Option ℕ} (h : ∀ n ∈ node, n ≠ 0) :
    Legal (clientMapSystem acceptEnv) (fun _ _ => True) emptyServer (acceptRun node) := by
  have hring : Represents emptyServer.map.links 0 [] := (holds_init ⟨false, 0, ⟨id, id⟩, _⟩ rfl).ring
  refine ⟨⟨rfl, trivial⟩, trivial, ⟨rfl, trivial⟩, trivial, ⟨rfl, ?_, ?_⟩, trivial, ⟨rfl, trivial⟩,
    trivial, trivial⟩
  · intro n hn nodes hnodes hmem
    have hnil : nodes = [] := hnodes.unique hring
    rw [hnil] at hmem
    exact h n hn (List.mem_singleton.mp hmem)
  · cases node with
    | none => rfl
    | some n => rfl

theorem map_mirrors_iff_run_five :
    Always (clientMapSystem acceptEnv) MirrorsAtWait emptyServer (acceptRun (some 1)) := by
  have hl : Legal (clientMapSystem acceptEnv) (fun _ _ => True) emptyServer (acceptRun (some 1)) :=
    acceptRun_legal (by simp)
  refine (map_mirrors_iff_run acceptEnv emptyServer_init hl).1 ?_
  obtain ⟨h₁, -, h₂, -, h₃, -, h₄, -, -⟩ := hl
  exact ⟨h₁, trivial, h₂, trivial, h₃, rfl, h₄, trivial, trivial⟩

/-- **Not in the map.** Without memory for its node, fd 5 is open and registered when the loop
is back at `epoll_wait`, and not in the map. -/
theorem accepted_fd_missing :
    ∃ x : MappedServer ℕ, MappedRun acceptEnv x ∧ x.server.loop = .epollWait ∧
      OpenFd x.server 5 ∧ ¬ Mirrors x := by
  have hr : MappedRun acceptEnv (exec (clientMapSystem acceptEnv) emptyServer (acceptRun none)) :=
    Reach.exec (.init emptyServer_init) (acceptRun_legal (by simp))
  refine ⟨_, hr, rfl, ⟨0, rfl, rfl⟩, ?_⟩
  intro h
  have hmem : 5 ∈ ([] : List ℕ) := (mirrors_iff hr).mp h 5 (Option.some_ne_none 0)
  exact absurd hmem List.not_mem_nil

end MyWorkEnv
