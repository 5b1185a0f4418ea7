import MyWorkEnv.Lib.Custody
import MyWorkEnv.MyUtils.Timer.Timer

/-!
# Timers that cannot be added

`TimerAdd` from start to end, in any state of the module. What `_TimerCalloc` and
`event_base_once` return is a parameter, and the nodes have their `Cb`, `Arg` and
`IntervalMs`. Neither of the two ways out behind a failed allocation sets `ret`,
and `CommonReturn` frees the node only if `ret` is set. So a timer that was not
added is reported as added, and its node stays allocated if only the event was
missing. What `event_base_once` returns is not looked at.
-/

namespace MyWorkEnv

open Custody EventWorker LinkedRing

/-- What a node has of the timer it stands for. -/
structure TimerCont where
  cb : ℕ
  arg : ℕ
  intervalMs : UInt32
deriving DecidableEq

/-- The module, with what is in the nodes. -/
structure TimerNodes where
  worker : EventWorker
  cont : ℕ → TimerCont

/-- What `TimerAdd` gets: the two blocks, `none` for `NULL`, and whether `event_base_once`
succeeds. -/
structure TimerOutcomes where
  node : Option ℕ
  event : Option ℕ
  onceOk : Bool

/-- A call at its return: what is stored in `*TimerHandle`, if anything, and whether the event
base has the timer. -/
structure TimerAddition where
  ret : ℤ
  handle : Option ℕ
  nodes : TimerNodes
  added : Bool
  trace : List (Access ℕ)

/-- The first test. `timerHandle` tells whether `TimerHandle` is a pointer. -/
def TimerNodes.refuses (s : TimerNodes) (cb : Option ℕ) (timerType : MyTimerType)
    (timerHandle : Bool) : Bool :=
  !s.worker.isRunning || (timerType ≠ .oneTime ∧ timerType ≠ .loop) || cb.isNone ||
    (!timerHandle && timerType = .loop)

/-- The branch for `MY_TIMER_TYPE_LOOP`. -/
def timerAddLoop (o : TimerOutcomes) (s : TimerNodes) (cont : TimerCont) : TimerAddition :=
  match o.node, o.event with
  | none, _ => ⟨mySuccess, none, s, false, []⟩
  | some node, none =>
      -- `node->Event` is `NULL`, and nobody frees `node`
      ⟨mySuccess, none,
        { s with worker := { s.worker with event := Function.update s.worker.event node 0 } },
        false, [.acquire node, .use node]⟩
  | some node, some event =>
      ⟨mySuccess, some node,
        ⟨link Lock.use s.worker node event, Function.update s.cont node cont⟩, true,
        [.acquire node, .acquire event, .use node, .use event]⟩

def timerAddWith (o : TimerOutcomes) (s : TimerNodes) (cb : Option ℕ) (intervalMs : UInt32)
    (arg : ℕ) (timerType : MyTimerType) (timerHandle : Bool) : TimerAddition :=
  if s.refuses cb timerType timerHandle then ⟨-myEinval, none, s, false, []⟩
  else if timerType = .loop then timerAddLoop o s ⟨cb.getD 0, arg, intervalMs⟩
  else ⟨mySuccess, none, s, o.onceOk, []⟩

/-- A pointer that may be `NULL`. -/
def nonNull (p : ℕ) : Option ℕ := if p = 0 then none else some p

/-- With the blocks that `MemCalloc` gives, it is the call that the runs of the module
take. -/
theorem timerAddWith_timerAdd (sizeofEvent : Fin (2 ^ 31)) (s : TimerNodes) (ledger : MemLedger)
    (cb : Option ℕ) (intervalMs : UInt32) (arg : ℕ) (timerType : MyTimerType)
    (timerHandle : Bool) (addr : ℕ × ℕ) (onceOk : Bool) :
    let r := ledger.calloc s.worker.memId sizeofMyTimerEventNode addr.1
    let q := r.2.calloc s.worker.memId sizeofEvent addr.2
    let call := timerAdd sizeofEvent s.worker ledger cb timerType timerHandle addr
    let a := timerAddWith ⟨nonNull r.1, nonNull q.1, onceOk⟩ s cb intervalMs arg timerType
      timerHandle
    a.ret = call.1 ∧ a.handle = call.2.1 ∧ a.nodes.worker = call.2.2.1 := by
  intro r q call a
  by_cases hrefuses : s.refuses cb timerType timerHandle = true
  · have hcall : call = (-myEinval, none, s.worker, ledger) := if_pos hrefuses
    have ha : a = ⟨-myEinval, none, s, false, []⟩ := if_pos hrefuses
    rw [hcall, ha]
    exact ⟨rfl, rfl, rfl⟩
  · have hcall : call = if timerType = .loop then
          if r.1 = 0 then (mySuccess, none, s.worker, r.2)
          else if q.1 = 0 then
            (mySuccess, none,
              { s.worker with event := Function.update s.worker.event r.1 0 }, q.2)
          else (mySuccess, some r.1, link Lock.use s.worker r.1 q.1, q.2)
        else (mySuccess, none, s.worker, ledger) := if_neg hrefuses
    have ha : a = if timerType = .loop then
          timerAddLoop ⟨nonNull r.1, nonNull q.1, onceOk⟩ s ⟨cb.getD 0, arg, intervalMs⟩
        else ⟨mySuccess, none, s, onceOk, []⟩ := if_neg hrefuses
    rw [hcall, ha]
    by_cases hloop : timerType = .loop
    · rw [if_pos hloop, if_pos hloop, nonNull, nonNull]
      by_cases hnode : r.1 = 0
      · rw [if_pos hnode, if_pos hnode]
        exact ⟨rfl, rfl, rfl⟩
      · by_cases hevent : q.1 = 0
        · rw [if_neg hnode, if_neg hnode, if_pos hevent, if_pos hevent]
          exact ⟨rfl, rfl, rfl⟩
        · rw [if_neg hnode, if_neg hnode, if_neg hevent, if_neg hevent]
          exact ⟨rfl, rfl, rfl⟩
    · rw [if_neg hloop, if_neg hloop]
      exact ⟨rfl, rfl, rfl⟩

/-! ## All or nothing -/

/-- The handle is a node of the list with what the caller has given, and the list has grown
by one. -/
structure Carries (s : TimerNodes) (cont : TimerCont) (a : TimerAddition) (node : ℕ) :
    Prop where
  handle : a.handle = some node
  mem : ∃ nodes : List ℕ,
    Represents a.nodes.worker.links .eventList (nodes.map .list) ∧ node ∈ nodes
  cont_eq : a.nodes.cont node = cont
  eventListLen :
    a.nodes.worker.eventListLen.toInt = s.worker.eventListLen.toInt + 1

/-- The caller is told, the list and the handle are as they were, and every block is freed. -/
structure Declines (s : TimerNodes) (a : TimerAddition) : Prop where
  ret : a.ret ≠ mySuccess
  links : a.nodes.worker.links = s.worker.links
  eventListLen : a.nodes.worker.eventListLen = s.worker.eventListLen
  cont : a.nodes.cont = s.cont
  handle : a.handle = none
  blocks : ∀ p, Settled a.trace p

/-- A loop timer that is reported as added is there, and one that was not added has left
nothing behind. -/
def AllOrNothing (s : TimerNodes) (cont : TimerCont) (timerType : MyTimerType)
    (a : TimerAddition) : Prop :=
  (timerType = .loop → a.ret = mySuccess → ∃ node, Carries s cont a node) ∧
    (a.added = false → Declines s a)

/-- The timer is refused at once; or it is a loop timer that gets both blocks while
`EventListLen` is not at its end; or it fires one time, and `event_base_once` succeeds. -/
def Adds (o : TimerOutcomes) (s : TimerNodes) (cb : Option ℕ) (timerType : MyTimerType)
    (timerHandle : Bool) : Prop :=
  s.refuses cb timerType timerHandle = true ∨
    (timerType = .loop ∧ o.node.isSome = true ∧ o.event.isSome = true ∧
      s.worker.eventListLen.toInt ≠ 2147483647) ∨
    (timerType = .oneTime ∧ o.onceOk = true)

variable {o : TimerOutcomes} {s : TimerNodes} {cont : TimerCont} {nodes : List ℕ}

/-- One more, unless that is too many. -/
theorem toInt_succ_iff (v : BitVec 32) : (v + 1).toInt = v.toInt + 1 ↔ v.toInt ≠ 2147483647 := by
  have hlow := v.le_toInt
  have hhigh := v.toInt_lt
  have hone : (1 : BitVec 32).toInt = 1 := rfl
  rw [BitVec.toInt_add, hone]
  by_cases hend : v.toInt = 2147483647
  · rw [hend]
    decide
  · rw [Int.bmod_eq_of_le (by omega) (by omega)]
    exact iff_of_true rfl hend

/-- The loop timer that gets its blocks. -/
theorem carries_link_iff {node event : ℕ}
    (hring : Represents s.worker.links .eventList (nodes.map .list)) (hfresh : node ∉ nodes)
    (ret : ℤ) (trace : List (Access ℕ)) :
    (∃ n, Carries s cont ⟨ret, some node,
        ⟨link Lock.use s.worker node event, Function.update s.cont node cont⟩, true, trace⟩ n) ↔
      s.worker.eventListLen.toInt ≠ 2147483647 := by
  rw [← toInt_succ_iff]
  constructor
  · rintro ⟨n, hcarries⟩
    exact hcarries.eventListLen
  · intro hlen
    refine ⟨node, rfl, ⟨nodes ++ [node], ?_, by simp⟩, ?_, hlen⟩
    · rw [List.map_append]
      exact myListAddTail_represents hring (notMem_ring hfresh)
    · exact Function.update_self node cont s.cont

theorem timerAddLoop_allOrNothing_iff
    (hring : Represents s.worker.links .eventList (nodes.map .list))
    (hfresh : ∀ node ∈ o.node, node ∉ nodes) :
    AllOrNothing s cont .loop (timerAddLoop o s cont) ↔
      o.node.isSome = true ∧ o.event.isSome = true ∧
        s.worker.eventListLen.toInt ≠ 2147483647 := by
  unfold timerAddLoop AllOrNothing
  cases hnode : o.node with
  | none =>
      refine iff_of_false ?_ (by simp)
      rintro ⟨-, hdeclines⟩
      exact (hdeclines rfl).ret rfl
  | some node =>
      cases o.event with
      | none =>
          refine iff_of_false ?_ (by simp)
          rintro ⟨-, hdeclines⟩
          exact (hdeclines rfl).ret rfl
      | some event =>
          have hcarries := @carries_link_iff s cont nodes node event hring
            (hfresh node hnode) mySuccess [.acquire node, .acquire event, .use node, .use event]
          simpa using hcarries

/-- **`TimerAdd`** adds the timer or leaves nothing behind if and only if the call is refused,
or it gets what it asks for. -/
theorem timerAdd_allOrNothing_iff (o : TimerOutcomes) {s : TimerNodes} {nodes : List ℕ}
    (hring : Represents s.worker.links .eventList (nodes.map .list))
    (hfresh : ∀ node ∈ o.node, node ∉ nodes) (cb : Option ℕ) (intervalMs : UInt32) (arg : ℕ)
    (timerType : MyTimerType) (timerHandle : Bool) :
    AllOrNothing s ⟨cb.getD 0, arg, intervalMs⟩ timerType
        (timerAddWith o s cb intervalMs arg timerType timerHandle) ↔
      Adds o s cb timerType timerHandle := by
  unfold timerAddWith Adds
  by_cases hrefuses : s.refuses cb timerType timerHandle = true
  · rw [if_pos hrefuses]
    have hcode : -myEinval ≠ mySuccess := by decide
    refine iff_of_true ⟨fun _ hret => ?_, fun _ => ?_⟩ (.inl hrefuses)
    · exact absurd hret hcode
    · exact ⟨hcode, rfl, rfl, rfl, rfl, fun p => rfl⟩
  · rw [if_neg hrefuses, or_iff_right hrefuses]
    cases timerType with
    | loop =>
        rw [if_pos rfl, timerAddLoop_allOrNothing_iff hring hfresh]
        simp
    | oneTime =>
        rw [if_neg (by decide)]
        simp only [AllOrNothing, reduceCtorEq, false_implies, true_and, false_and, false_or]
        cases o.onceOk with
        | true => exact iff_of_true (fun h => by cases h) rfl
        | false => exact iff_of_false (fun h => (h rfl).ret rfl) Bool.false_ne_true
    | maxUnspec => exact absurd (by simp [TimerNodes.refuses]) hrefuses

/-- The module runs, with its keepalive timer at `16`. -/
def idleTimer : TimerNodes :=
  let w := EventWorker.start (myListNodeInit ⟨fun a => a, fun a => a⟩ .eventList)
  ⟨link Lock.use { w with isRunning := true, lock := ⟨true, 0⟩ } 16 32, fun _ => ⟨128, 0, 1000⟩⟩

theorem idleTimer_represents :
    Represents idleTimer.worker.links .eventList ([16].map .list) :=
  myListAddTail_represents (myListNodeInit_represents _ _) (by decide)

/-- A timer for each second. -/
theorem timerAdd_allOrNothing_iff_second :
    AllOrNothing idleTimer ⟨256, 7, 1000⟩ .loop
      (timerAddWith ⟨some 8, some 64, true⟩ idleTimer (some 256) 1000 7 .loop true) :=
  (timerAdd_allOrNothing_iff ⟨some 8, some 64, true⟩ idleTimer_represents
    (fun _ h => by obtain rfl := Option.some.inj h; decide) (some 256) 1000 7 .loop true).mpr
      (.inr (.inl ⟨rfl, rfl, rfl, by decide⟩))

/-- With no memory for the event, the call succeeds without a timer, and the node is not
freed. -/
theorem timerAdd_neither :
    ¬ AllOrNothing idleTimer ⟨256, 7, 1000⟩ .loop
        (timerAddWith ⟨some 8, none, true⟩ idleTimer (some 256) 1000 7 .loop true) ∧
      (timerAddWith ⟨some 8, none, true⟩ idleTimer (some 256) 1000 7 .loop true).ret = mySuccess ∧
      ¬ Settled (timerAddWith ⟨some 8, none, true⟩ idleTimer (some 256) 1000 7 .loop true).trace
        8 := by
  have htrace : (timerAddWith ⟨some 8, none, true⟩ idleTimer (some 256) 1000 7 .loop true).trace =
      [.acquire 8, .use 8] := rfl
  refine ⟨fun h => (h.2 rfl).ret rfl, rfl, ?_⟩
  rw [htrace]
  intro hsettled
  exact absurd (hsettled.release_mem List.mem_cons_self) (by decide)

end MyWorkEnv
