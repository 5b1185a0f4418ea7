import MyWorkEnv.Lib.Custody
import MyWorkEnv.Server.ServerMsgHandler

/-!
# The blocks of a request

What the handlers of `ServerMsgHandler.c` do with the blocks they allocate: the
copy of a request and the argument that `_ServerMsgExecCmd` hands to the pool,
and the reply of the default handler. Any call may fail, so what the calls
return is a parameter here, `FillMsgCont` included.

A handler's accesses are in two parts, up to the return of `TPoolAddTask` and
after it, since an accepted task may start before the handler goes on.
-/

namespace MyWorkEnv

open Custody

/-- What the calls of a handler and of its task return. The blocks that are allocated
while both are in use are different ones. `lines` is for the lines of output, one
`FillMsgCont` each, and `texts` for the `FillMsgCont`s that are joined by `||`. -/
structure RequestOutcomes (P : Type) where
  myCalloc : Option P
  newMsg : Option P
  distinct : ∀ p, myCalloc = some p → newMsg ≠ some p
  addTask : ℤ
  popenOk : Bool
  lines : List ℤ
  contentLenZero : Bool
  texts : ℤ × ℤ × ℤ
  sendMsg : ℤ

/-- What a handler does to its blocks. A task has its argument and the `Msg` in it. -/
structure RequestBlocks (P : Type) where
  ret : ℤ
  submitted : List (Access P)
  afterwards : List (Access P)
  task : Option (P × Option P)

variable {P : Type}

/-- `FreeMsg` and `MyFree`, which the handlers call if there is a block. -/
def freeBlocks : Option P → List (Access P)
  | none => []
  | some p => [.release p]

/-- `NewMsg` writes the magic into the block. -/
def newMsgBlocks : Option P → List (Access P)
  | none => []
  | some p => [.acquire p, .use p]

def callocBlocks : Option P → List (Access P)
  | none => []
  | some p => [.acquire p]

/-- Calls of `FillMsgCont` up to the first that fails, and whether one does; `blocks` are
the accesses of one call. -/
def fillBlocks (blocks : List (Access P)) : List ℤ → Bool × List (Access P)
  | [] => (false, [])
  | ret :: rets =>
      if ret ≠ mySuccess then (true, blocks)
      else ((fillBlocks blocks rets).1, blocks ++ (fillBlocks blocks rets).2)

def RequestOutcomes.textList (o : RequestOutcomes P) : List ℤ :=
  [o.texts.1, o.texts.2.1, o.texts.2.2]

/-- `CommonReturn` of the task. -/
def taskReturn (arg : P) : Option P → List (Access P)
  | none => [.use arg, .release arg]
  | some msg => [.use arg, .use arg, .release msg, .release arg]

/-- From the test of `ContentLen` to `SendMsg`. -/
def replyBlocks (o : RequestOutcomes P) (both : List (Access P)) : List (Access P) :=
  let texts := fillBlocks both o.textList
  both ++ if o.contentLenZero then texts.2 ++ if texts.1 then [] else both else both

/-- `_ServerMsgExecCmdFn`. Its `cmdArg->Msg->..` reads both blocks. -/
def serverMsgExecCmdFnBlocks (o : RequestOutcomes P) : Option (P × Option P) → List (Access P)
  | none => []
  | some (arg, none) => .use arg :: taskReturn arg none
  | some (arg, some msg) =>
      let both := [.use arg, .use msg]
      -- the test for `NULL`, `snprintf` and `popen`, then `ClearMsgCont` and the type
      .use arg :: (both ++ both ++
        (if o.popenOk then
          both ++ both ++ (fillBlocks both o.lines).2 ++ replyBlocks o both
        else [])) ++ taskReturn arg (some msg)

def serverMsgExecCmdBlocks (o : RequestOutcomes P) : RequestBlocks P :=
  let allocated := callocBlocks o.myCalloc ++ newMsgBlocks o.newMsg
  match o.myCalloc, o.newMsg with
  | some arg, some msg =>
      let filled := allocated ++ [.use msg, .use arg, .use arg]
      if o.addTask ≠ mySuccess then
        ⟨o.addTask, filled, freeBlocks (some msg) ++ freeBlocks (some arg), none⟩
      else ⟨o.addTask, filled, [], some (arg, some msg)⟩
  | arg, msg => ⟨-myEnoMem, allocated, freeBlocks msg ++ freeBlocks arg, none⟩

def serverDefaultMsgHandlerBlocks (o : RequestOutcomes P) : RequestBlocks P :=
  match o.newMsg with
  | none => ⟨-myEnoMem, [], [], none⟩
  | some msg =>
      let texts := fillBlocks [.use msg] o.textList
      let filled := newMsgBlocks (some msg) ++ [.use msg] ++ texts.2
      if texts.1 then ⟨-myEio, filled ++ freeBlocks (some msg), [], none⟩
      else ⟨o.sendMsg, filled ++ [.use msg] ++ freeBlocks (some msg), [], none⟩

def serverHandleMsgBlocks (o : RequestOutcomes P) : Option MyMsg → RequestBlocks P
  | none => ⟨-myEio, [], [], none⟩
  | some msg =>
      if msg.head.type = myMsgTypeExecCmd then serverMsgExecCmdBlocks o
      else serverDefaultMsgHandlerBlocks o

/-- The task of a handler, run once if there is one, in any order with what the handler
does after it has submitted it. -/
def RequestBlocks.Run (blocks : RequestBlocks P) (o : RequestOutcomes P)
    (trace : List (Access P)) : Prop :=
  ∃ rest, trace = blocks.submitted ++ rest ∧
    Interleave blocks.afterwards
      (match blocks.task with
        | none => []
        | some arg => serverMsgExecCmdFnBlocks o (some arg)) rest

variable {o : RequestOutcomes P} {trace : List (Access P)}

/-! ## The handlers as they were -/

/-- The outcomes are those of `env` for the message `msg`. -/
structure Agrees (o : RequestOutcomes P) (env : HandlerEnv) (msg : MyMsg) : Prop where
  myCalloc : o.myCalloc.isSome = env.callocOk
  newMsg : o.newMsg.isSome = env.newMsgOk
  addTask : o.addTask = env.addTask
  texts : (∃ ret ∈ o.textList, ret ≠ mySuccess) ↔ fillAll (replyHead msg) (echoParts msg) = none
  sendMsg : o.sendMsg = env.sendRet

theorem fst_fillBlocks (blocks : List (Access P)) (rets : List ℤ) :
    (fillBlocks blocks rets).1 = true ↔ ∃ ret ∈ rets, ret ≠ mySuccess := by
  induction rets with
  | nil => simp [fillBlocks]
  | cons ret rets ih =>
      unfold fillBlocks
      split_ifs with hret
      · exact iff_of_true rfl ⟨ret, List.mem_cons_self, hret⟩
      · rw [ih]
        simp [not_not.mp hret]

/-- The return code and the task of a handler are those of `serverHandleMsg`. -/
theorem serverHandleMsgBlocks_agrees {env : HandlerEnv} {msg : MyMsg} (h : Agrees o env msg)
    (fd : ℕ) :
    (serverHandleMsgBlocks o (some msg)).ret = (serverHandleMsg env fd (some msg)).ret ∧
      ((serverHandleMsgBlocks o (some msg)).task.isSome ↔
        (serverHandleMsg env fd (some msg)).task.isSome) := by
  have hcalloc := h.myCalloc
  have hnew := h.newMsg
  simp only [serverHandleMsgBlocks, serverHandleMsg]
  split_ifs
  · unfold serverMsgExecCmdBlocks serverMsgExecCmd
    rw [← hcalloc, ← hnew, ← h.addTask]
    cases o.myCalloc with
    | none => simp
    | some arg =>
        cases o.newMsg with
        | none => simp
        | some copy =>
            by_cases hret : o.addTask = mySuccess
            · simp [hret]
            · simp [hret]
  · unfold serverDefaultMsgHandlerBlocks serverDefaultMsgHandler
    rw [← hnew]
    cases o.newMsg with
    | none => simp
    | some reply =>
        have hreply := (fst_fillBlocks [.use reply] o.textList).trans h.texts
        cases hfill : fillAll (replyHead msg) (echoParts msg) with
        | none =>
            have hfails := hreply.mpr hfill
            simp [hfails]
        | some filled =>
            have hpasses : ¬ (fillBlocks [.use reply] o.textList).1 = true :=
              fun hfails => by simp [hreply.mp hfails] at hfill
            simp [hpasses, h.sendMsg]

/-! ## The accesses in between -/

theorem uses_fillBlocks {held : Finset P} {blocks : List (Access P)} (h : Uses held blocks)
    (rets : List ℤ) : Uses held (fillBlocks blocks rets).2 := by
  induction rets with
  | nil => exact .nil
  | cons ret rets ih =>
      unfold fillBlocks
      split_ifs
      · exact h
      · exact h.append ih

theorem uses_replyBlocks {held : Finset P} {both : List (Access P)} (h : Uses held both) :
    Uses held (replyBlocks o both) := by
  have htexts := uses_fillBlocks h o.textList
  unfold replyBlocks
  refine h.append ?_
  split_ifs
  · exact htexts.append .nil
  · exact htexts.append h
  · exact h

variable [DecidableEq P]

/-- The task releases its two blocks at the end, and only uses them before. -/
theorem serverMsgExecCmdFnBlocks_eq (o : RequestOutcomes P) (arg msg : P) :
    ∃ uses, Uses [arg, msg].toFinset uses ∧
      serverMsgExecCmdFnBlocks o (some (arg, some msg)) =
        uses ++ [.release msg, .release arg] := by
  have harg : arg ∈ [arg, msg].toFinset := by simp
  have hmsg : msg ∈ [arg, msg].toFinset := by simp
  have hboth : Uses [arg, msg].toFinset [.use arg, .use msg] := (Uses.nil.cons hmsg).cons harg
  have hpipe : Uses [arg, msg].toFinset
      (if o.popenOk then
        [.use arg, .use msg] ++ [.use arg, .use msg] ++
          (fillBlocks [.use arg, .use msg] o.lines).2 ++ replyBlocks o [.use arg, .use msg]
      else []) := by
    split_ifs
    · exact ((hboth.append hboth).append (uses_fillBlocks hboth o.lines)).append
        (uses_replyBlocks hboth)
    · exact .nil
  refine ⟨_, (((hboth.append hboth).append hpipe).cons harg).append
    ((Uses.nil.cons harg).cons harg), ?_⟩
  simp only [serverMsgExecCmdFnBlocks, taskReturn, List.append_assoc, List.cons_append,
    List.nil_append]

/-- **`_ServerMsgExecCmd`**, with its task: what it gets is released in the opposite
order. -/
theorem serverMsgExecCmdBlocks_run (h : (serverMsgExecCmdBlocks o).Run o trace) :
    ∃ rs uses, rs.Nodup ∧ Uses rs.toFinset uses ∧ trace = bracket rs uses := by
  obtain ⟨rest, rfl, hrest⟩ := h
  unfold serverMsgExecCmdBlocks at hrest ⊢
  cases hcalloc : o.myCalloc with
  | none =>
      cases hnew : o.newMsg with
      | none =>
          simp only [hcalloc, hnew] at hrest ⊢
          have hrest := hrest.eq_of_nil_right
          subst hrest
          exact ⟨[], [], List.nodup_nil, .nil, rfl⟩
      | some msg =>
          simp only [hcalloc, hnew] at hrest ⊢
          have hrest := hrest.eq_of_nil_right
          subst hrest
          exact ⟨[msg], [.use msg], List.nodup_singleton msg, Uses.nil.cons (by simp), rfl⟩
  | some arg =>
      cases hnew : o.newMsg with
      | none =>
          simp only [hcalloc, hnew] at hrest ⊢
          have hrest := hrest.eq_of_nil_right
          subst hrest
          exact ⟨[arg], [], List.nodup_singleton arg, .nil, rfl⟩
      | some msg =>
          have hne : arg ≠ msg := fun heq => o.distinct arg hcalloc (heq ▸ hnew)
          have hnodup : [arg, msg].Nodup := by simp [hne]
          have harg : arg ∈ [arg, msg].toFinset := by simp
          have hmsg : msg ∈ [arg, msg].toFinset := by simp
          have hfilled : Uses [arg, msg].toFinset
              [.use msg, .use msg, .use arg, .use arg] :=
            (((Uses.nil.cons harg).cons harg).cons hmsg).cons hmsg
          simp only [hcalloc, hnew] at hrest ⊢
          by_cases hret : o.addTask ≠ mySuccess
          · simp only [if_pos hret] at hrest ⊢
            have hrest := hrest.eq_of_nil_right
            subst hrest
            exact ⟨[arg, msg], _, hnodup, hfilled, rfl⟩
          · -- the task has the blocks, and the handler does not touch them any more
            simp only [if_neg hret] at hrest ⊢
            have hrest := Interleave.nil_left_iff.mp hrest
            subst hrest
            obtain ⟨uses, huses, heq⟩ := serverMsgExecCmdFnBlocks_eq o arg msg
            refine ⟨[arg, msg], _, hnodup, hfilled.append huses, ?_⟩
            simp only [heq, bracket, callocBlocks, newMsgBlocks, List.cons_append,
              List.nil_append, List.append_assoc]

theorem serverDefaultMsgHandlerBlocks_run
    (h : (serverDefaultMsgHandlerBlocks o).Run o trace) :
    ∃ rs uses, rs.Nodup ∧ Uses rs.toFinset uses ∧ trace = bracket rs uses := by
  obtain ⟨rest, rfl, hrest⟩ := h
  unfold serverDefaultMsgHandlerBlocks at hrest ⊢
  cases hnew : o.newMsg with
  | none =>
      simp only [hnew] at hrest ⊢
      have hrest := Interleave.nil_left_iff.mp hrest
      subst hrest
      exact ⟨[], [], List.nodup_nil, .nil, rfl⟩
  | some msg =>
      have hmsg : msg ∈ [msg].toFinset := by simp
      have huse : Uses [msg].toFinset [.use msg] := Uses.nil.cons hmsg
      have htexts := uses_fillBlocks huse o.textList
      simp only [hnew] at hrest ⊢
      by_cases hfails : (fillBlocks [.use msg] o.textList).1 = true
      · simp only [if_pos hfails] at hrest ⊢
        have hrest := Interleave.nil_left_iff.mp hrest
        subst hrest
        refine ⟨[msg], _, List.nodup_singleton msg, (huse.append huse).append htexts, ?_⟩
        simp only [bracket, newMsgBlocks, freeBlocks, List.cons_append, List.nil_append,
          List.append_nil]
      · simp only [if_neg hfails] at hrest ⊢
        have hrest := Interleave.nil_left_iff.mp hrest
        subst hrest
        refine ⟨[msg], _, List.nodup_singleton msg,
          ((huse.append huse).append htexts).append huse, ?_⟩
        simp only [bracket, newMsgBlocks, freeBlocks, List.cons_append, List.nil_append,
          List.append_assoc, List.append_nil]

/-- **Whatever fails, a request gives back each of its blocks once, and touches none of
them before it has it or after it has given it back.** -/
theorem serverHandleMsg_blocks (o : RequestOutcomes P) (msg : Option MyMsg)
    (h : (serverHandleMsgBlocks o msg).Run o trace) :
    run ∅ trace = some ∅ ∧ ∀ p, .acquire p ∈ trace → ReleasedOnce trace p := by
  have hbracket : ∃ rs uses, rs.Nodup ∧ Uses rs.toFinset uses ∧ trace = bracket rs uses := by
    cases msg with
    | none =>
        obtain ⟨rest, rfl, hrest⟩ := h
        have hrest := Interleave.nil_left_iff.mp hrest
        subst hrest
        exact ⟨[], [], List.nodup_nil, .nil, rfl⟩
    | some msg =>
        simp only [serverHandleMsgBlocks] at h
        split_ifs at h
        · exact serverMsgExecCmdBlocks_run h
        · exact serverDefaultMsgHandlerBlocks_run h
  obtain ⟨rs, uses, hnodup, huses, rfl⟩ := hbracket
  have hheld : Uses (∅ ∪ rs.toFinset) uses := by rwa [Finset.empty_union]
  exact ⟨run_bracket hnodup (by simp) hheld, fun p hp => releasedOnce_bracket hnodup huses hp⟩

/-- A command that prints one line. -/
def execMsg : MyMsg :=
  { MyMsg.new with head := { MyMsg.new.head with type := myMsgTypeExecCmd } }

def oneLine : RequestOutcomes ℕ where
  myCalloc := some 0
  newMsg := some 1
  distinct p h := by
    cases h
    decide
  addTask := 0
  popenOk := true
  lines := [0]
  contentLenZero := false
  texts := (0, 0, 0)
  sendMsg := 0

/-- What the request and its task do. -/
def oneLineTrace : List (Access ℕ) :=
  (serverMsgExecCmdBlocks oneLine).submitted ++
    serverMsgExecCmdFnBlocks oneLine (some (0, some 1))

theorem serverHandleMsg_blocks_run :
    ReleasedOnce oneLineTrace 0 ∧ ReleasedOnce oneLineTrace 1 := by
  have hrun : (serverHandleMsgBlocks oneLine (some execMsg)).Run oneLine oneLineTrace :=
    ⟨_, rfl, Interleave.nil_left_iff.mpr rfl⟩
  have hblocks := (serverHandleMsg_blocks oneLine (some execMsg) hrun).2
  exact ⟨hblocks 0 (by decide), hblocks 1 (by decide)⟩

end MyWorkEnv
