import MyWorkEnv.Client.RemoteExec
import MyWorkEnv.MyUtils.TPool.Producer

/-!
# Commands that run in the pool

`RemoteExec` with the thread pool for its tasks. The thread of the server's loop is in
`TPoolAddTask` when a request was a command, and looks at no other report until it is
back; the workers take the queue, run the commands in `TaskFunc`, and free the nodes, in
all the steps of `ThreadPool`. `TaskFunc` is one step, as a call of `SendMsg` is.

Seen from outside this is `RemoteExec`, whose tasks are those of which no worker has
returned (`PooledExec.view`). So what is said there holds with the pool, the locks and
the wakeups in it, and with one worker commands run in turn (`pooled_exec`).
-/

namespace MyWorkEnv

open FixedWidth Transfer CString Transition ThreadPool

/-- The number of `_ServerMsgExecCmdFn`. -/
def serverMsgExecCmdFnPtr : ℕ := 0

/-- `calls` are the calls of `TPoolAddTask` by now; `taskArg` is what their arguments point to. -/
structure PooledExec where
  client : ℕ → ExecClient
  events : List ℕ
  pool : ThreadPool
  calls : ℕ
  taskArg : ℕ → ServerExecCmdArg

/-- `execCmd` is what worker `w` does in `TaskFunc`; `pool` are all other steps in the pool. -/
inductive PooledAction where
  | mainLoop (fd : ℕ) (tv : Timeval) (as : List WriteAnswer)
  | epollWait (fds : List ℕ)
  | recvRequest (as : List ReadAnswer) (tv : Timeval) (replies : List WriteAnswer)
  | pool (a : TPoolAction)
  | execCmd (w : ℕ) (tv : Timeval) (as : List WriteAnswer)
  | recvReply (fd : ℕ) (as : List ReadAnswer)

namespace PooledExec

def start (arg : TPoolModuleInitArg) (L : LinkedRing.Links TPoolPtr)
    (lines : ℕ → List (List UInt8)) : PooledExec where
  client := (RemoteExec.start lines).client
  events := []
  pool := .init arg L
  calls := 0
  taskArg _ := ⟨0, .new⟩

/-- The clients and the loop, with these tasks. -/
def front (s : PooledExec) (tasks : List ServerExecCmdArg) : RemoteExec :=
  ⟨s.client, s.events, tasks⟩

def withFront (s : PooledExec) (f : RemoteExec) : PooledExec :=
  { s with client := f.client, events := f.events }

/-- Is the loop's thread in `TPoolAddTask`? -/
def busy (s : PooledExec) : Bool := s.pool.adding s.calls

/-- `_ServerMsgExecCmd` calls `TPoolAddTask` with what it has made. -/
def addTask (s : PooledExec) : List ServerExecCmdArg → PooledExec
  | [] => s
  | arg :: _ =>
      { s with
        pool := s.pool.addTask s.calls (some serverMsgExecCmdFnPtr) s.calls
        calls := s.calls + 1
        taskArg := Function.update s.taskArg s.calls arg }

/-- The steps in the pool but for `TaskFunc`, while there is memory. -/
def mayPool (s : PooledExec) (a : TPoolAction) : Bool :=
  a.Produces &&
    match a with
    | .worker w =>
        match s.pool.worker w with
        | .body _ _ .running => false
        | _ => true
    | _ => true

def execCmd (h : ExecHosts) (arg : TPoolModuleInitArg) (s : PooledExec) (w : ℕ) (tv : Timeval)
    (as : List WriteAnswer) : Option PooledExec :=
  match s.pool.worker w with
  | .body t _ .running =>
      if s.pool.guard arg (.worker w) then
        ((s.front [s.taskArg (s.pool.task t).node.taskArg]).execCmd h 0 tv as).map fun f =>
          { s.withFront f with pool := s.pool.next (.worker w) }
      else none
  | _ => none

def step (h : ExecHosts) (arg : TPoolModuleInitArg) (s : PooledExec) :
    PooledAction → Option PooledExec
  | .mainLoop fd tv as => ((s.front []).mainLoop h fd tv as).map s.withFront
  | .epollWait fds => if s.busy then none else ((s.front []).epollWait fds).map s.withFront
  | .recvRequest as tv replies =>
      if s.busy then none
      else ((s.front []).recvRequest h as tv replies).map fun f => (s.withFront f).addTask f.tasks
  | .pool a =>
      if s.pool.guard arg a && s.mayPool a then some { s with pool := s.pool.next a } else none
  | .execCmd w tv as => s.execCmd h arg w tv as
  | .recvReply fd as => ((s.front []).recvReply h fd as).map s.withFront

end PooledExec

namespace PooledAction

/-- The kernel's answers are no errors. -/
def Benign : PooledAction → Prop
  | .mainLoop _ _ as | .execCmd _ _ as => WriteLoops.Benign isRetry as
  | .epollWait _ | .pool _ => True
  | .recvRequest as _ replies => ReadLoops.Benign isRetry as ∧ WriteLoops.Benign isRetry replies
  | .recvReply _ as => ReadLoops.Benign isRetry as

/-- No worker wakes up for nothing. -/
def Steady : PooledAction → Prop
  | .pool a => a.Inside = true
  | _ => True

end PooledAction

/-- As `remoteSystem`, with a pool. -/
def pooledSystem (h : ExecHosts) (arg : TPoolModuleInitArg) (lines : ℕ → List (List UInt8)) :
    System PooledExec PooledAction where
  init s := ∃ L, s = .start arg L lines
  enabled s a := (s.step h arg a).isSome = true ∧ a.Benign
  next s a := (s.step h arg a).getD s

/-! ## The tasks are of no concern to the others -/

namespace RemoteExec

variable {h : ExecHosts} {s : RemoteExec}

def withTasks (s : RemoteExec) (tasks : List ServerExecCmdArg) : RemoteExec :=
  { s with tasks := tasks }

theorem mainLoop_withTasks (tasks : List ServerExecCmdArg) (fd : ℕ) (tv : Timeval)
    (as : List WriteAnswer) :
    (s.withTasks tasks).mainLoop h fd tv as = (s.mainLoop h fd tv as).map (·.withTasks tasks) := by
  simp only [mainLoop, withTasks]
  cases fgets myMsgContentMaxLen (s.client fd).stdin with
  | none => rfl
  | some line =>
      cases clientRound true mySuccess (s.client fd).sessionId (s.client fd).stdin with
      | handled handled =>
          simp only
          cases sendMsgs (h.client fd) h.past .fresh
            (handled.sends.map fun msg => (msg, tv)) as <;> rfl
      | _ => rfl

theorem epollWait_withTasks (tasks : List ServerExecCmdArg) (fds : List ℕ) :
    (s.withTasks tasks).epollWait fds = (s.epollWait fds).map (·.withTasks tasks) := by
  simp only [epollWait, withTasks]
  rw [apply_ite (Option.map _)]
  rfl

theorem recvReply_withTasks (tasks : List ServerExecCmdArg) (fd : ℕ) (as : List ReadAnswer) :
    (s.withTasks tasks).recvReply h fd as = (s.recvReply h fd as).map (·.withTasks tasks) := by
  simp only [recvReply, withTasks]
  rw [apply_ite (Option.map _)]
  congr 1
  cases recvMsg (h.client fd) .fresh (some .new) as ⟨(s.client fd).down, .closed⟩ with
  | none => rfl
  | some out =>
      simp only
      rw [apply_ite (Option.map _)]
      rfl

theorem sendAll_withTasks (tasks : List ServerExecCmdArg) (tv : Timeval)
    (sends : List (ℕ × MyMsg)) (as : List WriteAnswer) :
    sendAll h tv sends as (s.withTasks tasks) =
      (sendAll h tv sends as s).map (·.withTasks tasks) := by
  induction sends generalizing s as with
  | nil => rfl
  | cons send sends ih =>
      simp only [sendAll]
      cases sendMsg h.server h.past .fresh send.2 tv as with
      | none => rfl
      | some out => exact ih (s := s.setClient send.1 { s.client send.1 with down := _ }) out.2

theorem tasks_of_sendAll {tv : Timeval} {sends : List (ℕ × MyMsg)} {as : List WriteAnswer}
    {f : RemoteExec} (hf : sendAll h tv sends as s = some f) : f.tasks = s.tasks := by
  have hsame := sendAll_withTasks (h := h) (s := s) s.tasks tv sends as
  rw [hf, Option.map_some] at hsame
  have heq : f = f.withTasks s.tasks := Option.some.inj (hf.symm.trans hsame)
  rw [heq]
  rfl

theorem sendAll_behind (tasks : List ServerExecCmdArg) (tv : Timeval)
    (sends : List (ℕ × MyMsg)) (as : List WriteAnswer) :
    sendAll h tv sends as (s.withTasks (tasks ++ s.tasks)) =
      (sendAll h tv sends as s).map fun f => f.withTasks (tasks ++ f.tasks) := by
  rw [sendAll_withTasks]
  cases hf : sendAll h tv sends as s with
  | none => rfl
  | some f => rw [Option.map_some, Option.map_some, tasks_of_sendAll hf]

/-- A request is put behind the tasks that are there. -/
theorem recvRequest_withTasks (tasks : List ServerExecCmdArg) (as : List ReadAnswer)
    (tv : Timeval) (replies : List WriteAnswer) :
    (s.withTasks tasks).recvRequest h as tv replies =
      ((s.withTasks []).recvRequest h as tv replies).map fun f =>
        f.withTasks (tasks ++ f.tasks) := by
  simp only [recvRequest, withTasks]
  cases s.events with
  | nil => rfl
  | cons fd rest =>
      simp only
      cases recvMsg h.server .fresh (some .new) as ⟨(s.client fd).up, .closed⟩ with
      | none => rfl
      | some out =>
          simp only
          rw [apply_ite (Option.map _)]
          congr 1
          exact sendAll_behind (s := ⟨_, rest, (serverHandleMsg h.env fd out.1.retMsg).task.toList⟩)
            tasks tv _ replies

/-- The task at `i` is run as if it were the only one. -/
theorem execCmd_withTasks {tasks : List ServerExecCmdArg} {i : ℕ} {arg : ServerExecCmdArg}
    (hi : tasks[i]? = some arg) (tv : Timeval) (as : List WriteAnswer) :
    (s.withTasks tasks).execCmd h i tv as =
      ((s.withTasks [arg]).execCmd h 0 tv as).map (·.withTasks (tasks.eraseIdx i)) := by
  simp only [execCmd, withTasks, hi, List.getElem?_cons_zero]
  exact sendAll_withTasks (s := s.withTasks []) (tasks.eraseIdx i) tv _ as

theorem length_tasks_recvRequest {as : List ReadAnswer} {tv : Timeval}
    {replies : List WriteAnswer} {f : RemoteExec}
    (hf : (s.withTasks []).recvRequest h as tv replies = some f) : f.tasks.length ≤ 1 := by
  simp only [recvRequest, withTasks] at hf
  cases hevents : s.events with
  | nil => simp [hevents] at hf
  | cons fd rest =>
      simp only [hevents] at hf
      cases hrecv : recvMsg h.server .fresh (some .new) as ⟨(s.client fd).up, .closed⟩ with
      | none => simp [hrecv] at hf
      | some out =>
          simp only [hrecv] at hf
          split_ifs at hf
          rw [tasks_of_sendAll hf]
          cases (serverHandleMsg h.env fd out.1.retMsg).task <;> simp

end RemoteExec

/-! ## From outside -/

namespace PooledExec

variable {h : ExecHosts} {arg : TPoolModuleInitArg} {s s' : PooledExec} {a : TPoolAction} {w t : ℕ}

/-- The calls whose `TaskFunc` has not returned. -/
def unanswered (s : PooledExec) : List ℕ :=
  (List.range s.calls).filter fun t => (s.pool.task t).returned == 0

def view (s : PooledExec) : RemoteExec := s.front (s.unanswered.map s.taskArg)

/-- What a step is from outside. -/
def shows (s : PooledExec) : PooledAction → Option ExecAction
  | .mainLoop fd tv as => some (.mainLoop fd tv as)
  | .epollWait fds => some (.epollWait fds)
  | .recvRequest as tv replies => some (.recvRequest as tv replies)
  | .pool _ => none
  | .execCmd w tv as =>
      match s.pool.worker w with
      | .body t _ _ => some (.execCmd (s.unanswered.idxOf t) tv as)
      | _ => none
  | .recvReply fd as => some (.recvReply fd as)

/-- The pool has been used by the server's loop only, and as it was set up. -/
structure Issued (arg : TPoolModuleInitArg) (s : PooledExec) : Prop where
  reach : Reach (threadPoolSystem arg) (fun _ a => a.NotExit) s.pool
  produced : s.pool.Produced serverMsgExecCmdFnPtr s.calls
  inited : s.pool.inited = true
  maxLength : s.pool.taskMaxLength = arg.maxLength

theorem start_issued (L : LinkedRing.Links TPoolPtr) (lines : ℕ → List (List UInt8)) :
    (start arg L lines).Issued arg :=
  ⟨.init ⟨L, rfl⟩, init_produced L, rfl, rfl⟩

namespace Issued

theorem placed (hi : s.Issued arg) : s.pool.Placed arg := placed_of_reach hi.reach

theorem of_produces (hmay : a.Produces = true) : a ≠ .moduleExit ∧ a.KeepsMax := by
  constructor
  · rintro rfl
    cases hmay
  · cases a with
    | setMaxQueueLength queueLen => cases hmay
    | _ => trivial

theorem pool (hi : s.Issued arg) (hroom : (s.calls : ℤ) ≤ arg.maxLength.toInt)
    (ha : s.pool.guard arg a = true) (hmay : a.Produces = true) :
    ({ s with pool := s.pool.next a } : PooledExec).Issued arg where
  reach := .step hi.reach ha (of_produces hmay).1
  produced := hi.produced.next hi.placed (hi.maxLength ▸ hroom) ha hmay
  inited := (next_sameExit (of_produces hmay).1).inited.trans hi.inited
  maxLength := (next_taskMaxLength (of_produces hmay).2).trans hi.maxLength

theorem addTask (hi : s.Issued arg) (hbusy : s.busy = false) (tasks : List ServerExecCmdArg) :
    (s.addTask tasks).Issued arg := by
  cases tasks with
  | nil => exact hi
  | cons task tasks =>
      have hidle : (s.pool.task s.calls).call.pc = .idle := hi.produced.idle _ le_rfl
      have hguard : s.pool.guard arg
          (.addTask s.calls (some serverMsgExecCmdFnPtr) s.calls) = true := by
        simp [ThreadPool.guard, hidle]
      refine ⟨?_, hi.produced.addTask hi.inited hbusy, hi.inited, hi.maxLength⟩
      exact .step hi.reach hguard (by simp [TPoolAction.NotExit])

end Issued

/-! ### The tasks -/

/-- Another step in the pool answers nothing. -/
theorem view_pool (hmay : s.mayPool a = true) :
    ({ s with pool := s.pool.next a } : PooledExec).view = s.view := by
  have hsame : ∀ t, ((s.pool.next a).task t).returned = (s.pool.task t).returned := by
    intro t
    refine next_returned_of_ne fun hrunning => ?_
    obtain ⟨w, tmp, rfl, hpc⟩ := taskAction_running hrunning
    simp [mayPool, hpc] at hmay
  simp only [view, front, unanswered, hsame]

theorem view_addTask (hi : s.Issued arg) {tasks : List ServerExecCmdArg}
    (hone : tasks.length ≤ 1) :
    (s.addTask tasks).view = s.view.withTasks (s.view.tasks ++ tasks) := by
  cases tasks with
  | nil =>
      rw [List.append_nil]
      rfl
  | cons task more =>
      obtain rfl : more = [] := List.eq_nil_of_length_eq_zero (by simpa using hone)
      have hidle : (s.pool.task s.calls).call.pc = .idle := hi.produced.idle _ le_rfl
      have hfresh : (s.pool.task s.calls).returned = 0 :=
        ((sound_of_pool hi.reach s.calls).fresh (by rw [hidle]; rfl)).2.1
      have hsame : ∀ t, ((s.addTask [task]).pool.task t).returned = (s.pool.task t).returned := by
        intro t
        show (Function.update s.pool.task s.calls _ t).returned = _
        by_cases ht : t = s.calls
        · rw [ht, Function.update_self]
          rfl
        · rw [Function.update_of_ne ht]
      have hlist : (s.addTask [task]).unanswered = s.unanswered ++ [s.calls] := by
        have hcalls : (s.addTask [task]).calls = s.calls + 1 := rfl
        simp only [unanswered, hsame, hcalls, List.range_succ, List.filter_append]
        simp [hfresh]
      have hold : s.unanswered.map (Function.update s.taskArg s.calls task) =
          s.unanswered.map s.taskArg := by
        apply List.map_congr_left
        intro t ht
        have hlt := List.mem_range.mp (List.mem_of_mem_filter ht)
        exact Function.update_of_ne hlt.ne ..
      have harg : (s.addTask [task]).taskArg = Function.update s.taskArg s.calls task := rfl
      rw [view, hlist, harg, List.map_append, hold, List.map_singleton, Function.update_self]
      rfl

/-- `TaskFunc` returns for a task that waits, with the argument of its call. -/
theorem view_execCmd (hi : s.Issued arg) (hw : w < arg.threadPoolSize) {tmp : Option TPoolPtr}
    (hpc : s.pool.worker w = .body t tmp .running) :
    s.view.tasks[s.unanswered.idxOf t]? = some (s.taskArg t) ∧
      ({ s with pool := s.pool.next (.worker w) } : PooledExec).view =
        s.view.withTasks (s.view.tasks.eraseIdx (s.unanswered.idxOf t)) := by
  obtain ⟨hlt, -, hbefore, hafter⟩ :=
    hi.produced.running hi.placed (sound_of_pool hi.reach t) hw hpc
  have hmem : t ∈ s.unanswered :=
    List.mem_filter.mpr ⟨List.mem_range.mpr hlt, by rw [hbefore]; rfl⟩
  have hother : ∀ u, u ≠ t →
      ((s.pool.next (.worker w)).task u).returned = (s.pool.task u).returned := by
    intro u hu
    refine next_returned_of_ne fun hrunning => ?_
    simp only [taskAction, hpc, Option.some.injEq, Prod.mk.injEq] at hrunning
    exact hu hrunning.1.symm
  have hlist : ({ s with pool := s.pool.next (.worker w) } : PooledExec).unanswered =
      s.unanswered.eraseIdx (s.unanswered.idxOf t) := by
    have hnodup : s.unanswered.Nodup := List.nodup_range.filter _
    rw [List.eraseIdx_idxOf_eq_erase, hnodup.erase_eq_filter, unanswered, unanswered,
      List.filter_filter]
    apply List.filter_congr
    intro u _
    by_cases hu : u = t
    · subst hu
      simp [hafter]
    · simp [hother u hu, hu]
  constructor
  · rw [view, front, List.getElem?_map, List.getElem?_idxOf hmem]
    rfl
  · rw [view, hlist, ← List.eraseIdx_map]
    rfl

/-! ### The steps -/

/-- What `TaskFunc` takes, and what it leaves. -/
theorem execCmd_eq_some {tv : Timeval} {as : List WriteAnswer}
    (hstep : s.execCmd h arg w tv as = some s') : ∃ t tmp f,
      s.pool.worker w = .body t tmp .running ∧ s.pool.guard arg (.worker w) = true ∧
      (s.front [s.taskArg (s.pool.task t).node.taskArg]).execCmd h 0 tv as = some f ∧
      s' = { s.withFront f with pool := s.pool.next (.worker w) } := by
  unfold execCmd at hstep
  split at hstep
  · rename_i t tmp hpc
    split_ifs at hstep with hguard
    obtain ⟨f, hf, hs'⟩ := Option.map_eq_some_iff.mp hstep
    exact ⟨t, tmp, f, hpc, hguard, hf, hs'.symm⟩
  · cases hstep

theorem Issued.withFront (hi : s.Issued arg) (f : RemoteExec) : (s.withFront f).Issued arg :=
  ⟨hi.reach, hi.produced, hi.inited, hi.maxLength⟩

/-- **A step is what it shows.** -/
theorem step_shows (hi : s.Issued arg) {a : PooledAction} (hstep : s.step h arg a = some s') :
    match s.shows a with
    | none => s'.view = s.view
    | some b => s.view.step h b = some s'.view := by
  have hview : s.view = (s.front []).withTasks s.view.tasks := rfl
  cases a with
  | mainLoop fd tv as =>
      obtain ⟨f, hf, rfl⟩ := Option.map_eq_some_iff.mp hstep
      show s.view.mainLoop h fd tv as = _
      rw [hview, RemoteExec.mainLoop_withTasks, hf]
      rfl
  | epollWait fds =>
      simp only [step] at hstep
      split_ifs at hstep
      obtain ⟨f, hf, rfl⟩ := Option.map_eq_some_iff.mp hstep
      show s.view.epollWait fds = _
      rw [hview, RemoteExec.epollWait_withTasks, hf]
      rfl
  | recvRequest as tv replies =>
      simp only [step] at hstep
      split_ifs at hstep
      obtain ⟨f, hf, rfl⟩ := Option.map_eq_some_iff.mp hstep
      show s.view.recvRequest h as tv replies = _
      have hone : f.tasks.length ≤ 1 :=
        RemoteExec.length_tasks_recvRequest (s := s.front []) hf
      have hf' : ((s.front []).withTasks []).recvRequest h as tv replies = some f := hf
      rw [hview, RemoteExec.recvRequest_withTasks, hf', Option.map_some,
        view_addTask (hi.withFront f) hone]
      rfl
  | pool a =>
      simp only [step] at hstep
      split_ifs at hstep with hmay
      rw [Bool.and_eq_true] at hmay
      obtain rfl := Option.some.inj hstep
      exact view_pool hmay.2
  | execCmd w tv as =>
      obtain ⟨t, tmp, f, hpc, hguard, hf, rfl⟩ := execCmd_eq_some hstep
      obtain ⟨-, harg, -, -⟩ :=
        hi.produced.running hi.placed (sound_of_pool hi.reach t) (worker_lt hguard) hpc
      have htask := (view_execCmd hi (worker_lt hguard) hpc).1
      have hafter := (view_execCmd (hi.withFront f) (worker_lt hguard) hpc).2
      simp only [shows, hpc]
      show s.view.execCmd h _ tv as = _
      have hf' : ((s.front []).withTasks [s.taskArg t]).execCmd h 0 tv as = some f := by
        rw [harg] at hf
        exact hf
      rw [hview, RemoteExec.execCmd_withTasks htask, hf', Option.map_some]
      exact congrArg some hafter.symm
  | recvReply fd as =>
      obtain ⟨f, hf, rfl⟩ := Option.map_eq_some_iff.mp hstep
      show s.view.recvReply h fd as = _
      rw [hview, RemoteExec.recvReply_withTasks, hf]
      rfl

theorem step_issued (hi : s.Issued arg) (hroom : (s.calls : ℤ) ≤ arg.maxLength.toInt)
    {a : PooledAction} (hstep : s.step h arg a = some s') : s'.Issued arg := by
  cases a with
  | mainLoop fd tv as =>
      obtain ⟨f, -, rfl⟩ := Option.map_eq_some_iff.mp hstep
      exact hi.withFront f
  | epollWait fds =>
      simp only [step] at hstep
      split_ifs at hstep
      obtain ⟨f, -, rfl⟩ := Option.map_eq_some_iff.mp hstep
      exact hi.withFront f
  | recvRequest as tv replies =>
      simp only [step] at hstep
      split_ifs at hstep with hbusy
      obtain ⟨f, -, rfl⟩ := Option.map_eq_some_iff.mp hstep
      exact (hi.withFront f).addTask (Bool.eq_false_iff.mpr hbusy) f.tasks
  | pool a =>
      simp only [step] at hstep
      split_ifs at hstep with hmay
      simp only [Bool.and_eq_true, mayPool] at hmay
      obtain rfl := Option.some.inj hstep
      exact hi.pool hroom hmay.1 hmay.2.1
  | execCmd w tv as =>
      obtain ⟨t, tmp, f, -, hguard, -, rfl⟩ := execCmd_eq_some hstep
      exact (hi.withFront f).pool hroom hguard rfl
  | recvReply fd as =>
      obtain ⟨f, -, rfl⟩ := Option.map_eq_some_iff.mp hstep
      exact hi.withFront f

/-- Only a request makes for another call. -/
theorem step_calls {a : PooledAction} (hstep : s.step h arg a = some s') :
    s'.calls = s.calls ∨
      s'.calls = s.calls + 1 ∧ ∃ as tv replies, a = .recvRequest as tv replies := by
  cases a with
  | mainLoop fd tv as =>
      obtain ⟨f, -, rfl⟩ := Option.map_eq_some_iff.mp hstep
      exact .inl rfl
  | epollWait fds =>
      simp only [step] at hstep
      split_ifs at hstep
      obtain ⟨f, -, rfl⟩ := Option.map_eq_some_iff.mp hstep
      exact .inl rfl
  | recvRequest as tv replies =>
      simp only [step] at hstep
      split_ifs at hstep
      obtain ⟨f, -, rfl⟩ := Option.map_eq_some_iff.mp hstep
      cases f.tasks with
      | nil => exact .inl rfl
      | cons task tasks => exact .inr ⟨rfl, as, tv, replies, rfl⟩
  | pool a =>
      simp only [step] at hstep
      split_ifs at hstep
      obtain rfl := Option.some.inj hstep
      exact .inl rfl
  | execCmd w tv as =>
      obtain ⟨t, tmp, f, -, -, -, rfl⟩ := execCmd_eq_some hstep
      exact .inl rfl
  | recvReply fd as =>
      obtain ⟨f, -, rfl⟩ := Option.map_eq_some_iff.mp hstep
      exact .inl rfl

/-- Of each client a report finds at most one message. -/
def Paced (s : PooledExec) : PooledAction → Prop
  | .epollWait fds => ∀ fd ∈ fds, AtMostOneMessage (s.client fd).up
  | _ => True

theorem Paced.shows {a : PooledAction} {b : ExecAction} (hp : s.Paced a)
    (hb : s.shows a = some b) : s.view.Paced b := by
  cases a with
  | epollWait fds =>
      obtain rfl := Option.some.inj hb
      exact hp
  | pool a => cases hb
  | execCmd w tv as =>
      simp only [PooledExec.shows] at hb
      split at hb
      · obtain rfl := Option.some.inj hb
        trivial
      · cases hb
  | _ =>
      obtain rfl := Option.some.inj hb
      trivial

theorem benign_shows {a : PooledAction} {b : ExecAction} (ha : a.Benign)
    (hb : s.shows a = some b) : b.Benign := by
  cases a with
  | pool a => cases hb
  | execCmd w tv as =>
      simp only [shows] at hb
      split at hb
      · obtain rfl := Option.some.inj hb
        exact ha
      · cases hb
  | _ =>
      obtain rfl := Option.some.inj hb
      exact ha

/-- **One worker runs the commands in turn.** -/
theorem inTurn_shows (hi : s.Issued arg) (hsize : arg.threadPoolSize = 1) {a : PooledAction}
    {b : ExecAction} (hstep : s.step h arg a = some s') (hb : s.shows a = some b) :
    s.view.InTurn b := by
  cases a with
  | execCmd w tv as =>
      obtain ⟨t, tmp, f, hpc, hguard, -, -⟩ := execCmd_eq_some hstep
      simp only [shows, hpc, Option.some.injEq] at hb
      obtain rfl := hb
      have hrunning := hi.produced.running hi.placed (sound_of_pool hi.reach t)
        (worker_lt hguard) hpc
      have hran : ∀ u < t, (s.pool.task u).returned = 1 := fun u hu =>
        hi.produced.ran_before hi.placed (inTurn_of_reach hsize hi.reach) (sound_of_pool hi.reach)
          (waited_of_pool hi.reach) hsize (worker_lt hguard) hpc hu
      -- so it is the first of those that are unanswered
      have hfirst : s.unanswered.idxOf t = 0 := by
        obtain ⟨m, hm⟩ : ∃ m, s.calls = t + (m + 1) := ⟨s.calls - t - 1, by omega⟩
        have hfront : (List.range t).filter (fun u => (s.pool.task u).returned == 0) = [] := by
          rw [List.filter_eq_nil_iff]
          intro u hu
          simp [hran u (List.mem_range.mp hu)]
        rw [unanswered, hm, List.range_add, List.filter_append, hfront, List.nil_append,
          List.range_succ_eq_map, List.map_cons, Nat.add_zero, List.filter_cons_of_pos]
        · exact List.idxOf_cons_self
        · rw [hrunning.2.2.1]
          rfl
      intro j hj
      rw [hfirst] at hj
      exact absurd hj (Nat.not_lt_zero j)
  | pool a => cases hb
  | _ =>
      obtain rfl := Option.some.inj hb
      trivial

/-! ### How much is left -/

/-- A call of `TPoolAddTask`, from its beginning. -/
def callCost (arg : TPoolModuleInitArg) : ℕ := CallPc.rank arg.threadPoolSize .addTest

def rank (arg : TPoolModuleInitArg) (s : PooledExec) : ℕ :=
  (callCost arg + 1) * s.view.rank + work arg (Finset.range s.calls) s.pool

theorem work_addTask (hi : s.Issued arg) (tasks : List ServerExecCmdArg) :
    work arg (Finset.range (s.addTask tasks).calls) (s.addTask tasks).pool ≤
      work arg (Finset.range s.calls) s.pool + callCost arg := by
  cases tasks with
  | nil => exact Nat.le_add_right _ _
  | cons task tasks =>
      have hlast : ((s.addTask (task :: tasks)).pool.task s.calls).call.pc = .addTest := by
        show (Function.update s.pool.task s.calls _ s.calls).call.pc = _
        rw [Function.update_self, hi.inited]
        rfl
      have hold : ∀ t ∈ Finset.range s.calls,
          ((s.addTask (task :: tasks)).pool.task t).call.pc.rank arg.threadPoolSize =
            (s.pool.task t).call.pc.rank arg.threadPoolSize := by
        intro t ht
        exact congrArg (fun k : Task => k.call.pc.rank arg.threadPoolSize)
          (Function.update_of_ne (Finset.mem_range.mp ht).ne _ _)
      have hcalls : callWork arg (Finset.range (s.calls + 1)) (s.addTask (task :: tasks)).pool =
          callWork arg (Finset.range s.calls) s.pool + callCost arg := by
        rw [callWork, Finset.sum_range_succ, Finset.sum_congr rfl hold, hlast]
        rfl
      show callWork arg (Finset.range (s.calls + 1)) (s.addTask (task :: tasks)).pool +
          (workerWork arg s.pool + taskCost * s.pool.hist.queue.length) ≤
        callWork arg (Finset.range s.calls) s.pool +
          (workerWork arg s.pool + taskCost * s.pool.hist.queue.length) + callCost arg
      omega

/-- The steps inside lower the work, and a request raises it by a call. -/
theorem step_work (hi : s.Issued arg) {a : PooledAction} (hsteady : a.Steady)
    (hstep : s.step h arg a = some s') :
    work arg (Finset.range s'.calls) s'.pool ≤
        work arg (Finset.range s.calls) s.pool + callCost arg ∧
      (∀ b, a = .pool b → work arg (Finset.range s'.calls) s'.pool <
        work arg (Finset.range s.calls) s.pool) := by
  cases a with
  | mainLoop fd tv as =>
      obtain ⟨f, -, rfl⟩ := Option.map_eq_some_iff.mp hstep
      exact ⟨Nat.le_add_right _ _, nofun⟩
  | epollWait fds =>
      simp only [step] at hstep
      split_ifs at hstep
      obtain ⟨f, -, rfl⟩ := Option.map_eq_some_iff.mp hstep
      exact ⟨Nat.le_add_right _ _, nofun⟩
  | recvRequest as tv replies =>
      simp only [step] at hstep
      split_ifs at hstep
      obtain ⟨f, -, rfl⟩ := Option.map_eq_some_iff.mp hstep
      exact ⟨work_addTask (hi.withFront f) f.tasks, nofun⟩
  | pool a =>
      simp only [step] at hstep
      split_ifs at hstep with hmay
      rw [Bool.and_eq_true] at hmay
      obtain rfl := Option.some.inj hstep
      have hdrop := work_drops hi.placed hi.produced.covers hmay.1 hsteady
      exact ⟨hdrop.le.trans (Nat.le_add_right _ _), fun _ _ => hdrop⟩
  | execCmd w tv as =>
      obtain ⟨t, tmp, f, -, hguard, -, rfl⟩ := execCmd_eq_some hstep
      have hdrop := work_drops hi.placed hi.produced.covers hguard rfl
      exact ⟨hdrop.le.trans (Nat.le_add_right _ _), nofun⟩
  | recvReply fd as =>
      obtain ⟨f, -, rfl⟩ := Option.map_eq_some_iff.mp hstep
      exact ⟨Nat.le_add_right _ _, nofun⟩

/-! ### The relay -/

/-- The requests are where the relay says, and those of `total` lines that came so far were
given to the pool. -/
structure Tracks (h : ExecHosts) (arg : TPoolModuleInitArg) (paced : Prop) (fds : Finset ℕ)
    (total : ℕ) (s : PooledExec) (r : ExecRelay) : Prop where
  issued : s.Issued arg
  sees : Sees h paced s.view r
  among : r.Among fds
  count : s.calls + r.unreceived fds ≤ total

variable {lines : ℕ → List (List UInt8)} {paced : Prop} {fds : Finset ℕ} {total : ℕ}
  {r : ExecRelay}

theorem next_of_step {s' : PooledExec} {a : PooledAction} (hstep : s.step h arg a = some s') :
    (pooledSystem h arg lines).next s a = s' := by
  show (s.step h arg a).getD s = s'
  rw [hstep, Option.getD_some]

theorem Tracks.calls_le (hroom : (total : ℤ) ≤ arg.maxLength.toInt)
    (ht : Tracks h arg paced fds total s r) : (s.calls : ℤ) ≤ arg.maxLength.toInt := by
  have hcount := ht.count
  omega

/-- A step that does not show is work in the pool. -/
theorem Tracks.silent (hroom : (total : ℤ) ≤ arg.maxLength.toInt)
    (ht : Tracks h arg paced fds total s r) {s' : PooledExec} {a : PooledAction}
    (hstep : s.step h arg a = some s') (hb : s.shows a = none) :
    Tracks h arg paced fds total s' r ∧ (a.Steady → s'.rank arg < s.rank arg) := by
  have hissued := step_issued ht.issued (ht.calls_le hroom) hstep
  have hshows := step_shows ht.issued hstep
  rw [hb] at hshows
  have hsame : s'.view = s.view := hshows
  obtain ⟨c, rfl⟩ : ∃ c, a = .pool c := by
    cases a with
    | pool c => exact ⟨c, rfl⟩
    | execCmd w tv as =>
        obtain ⟨t, tmp, f, hpc, -⟩ := execCmd_eq_some hstep
        simp [shows, hpc] at hb
    | _ => cases hb
  have hsamecalls : s'.calls = s.calls :=
    (step_calls hstep).resolve_right fun ⟨_, _, _, _, h⟩ => by cases h
  refine ⟨⟨hissued, hsame ▸ ht.sees, ht.among, hsamecalls ▸ ht.count⟩, fun hsteady => ?_⟩
  have hdrop := (step_work ht.issued hsteady hstep).2 c rfl
  rw [rank, rank, hsame]
  omega

/-- A step that shows is a report or a move. -/
theorem Tracks.shown (henv : h.env.Succeeds) (hroom : (total : ℤ) ≤ arg.maxLength.toInt)
    (ht : Tracks h arg paced fds total s r) {s' : PooledExec} {a : PooledAction}
    (hstep : s.step h arg a = some s') (ha : (pooledSystem h arg lines).enabled s a)
    (hp : paced → s.Paced a) {b : ExecAction} (hb : s.shows a = some b) :
    (Tracks h arg paced fds total s' r ∧ (a.Steady → s'.rank arg < s.rank arg)) ∨
    ∃ move, r.can move ∧ (arg.threadPoolSize = 1 → r.InTurn move) ∧
      Tracks h arg paced fds total s' (r.next commandOf move) ∧
      (a.Steady → s'.rank arg ≤ s.rank arg + (2 * callCost arg + 1)) := by
  have hissued := step_issued ht.issued (ht.calls_le hroom) hstep
  have hshows := step_shows ht.issued hstep
  rw [hb] at hshows
  have hview : s.view.step h b = some s'.view := hshows
  have henabled : (remoteSystem h lines).enabled s.view b := by
    exact ⟨by rw [hview]; rfl, benign_shows ha.2 hb⟩
  have hviewnext : (remoteSystem h lines).next s.view b = s'.view := by
    show (s.view.step h b).getD s.view = s'.view
    rw [hview, Option.getD_some]
  have hreq : ∀ as tv replies, a = .recvRequest as tv replies →
      b = .recvRequest as tv replies := by
    rintro as tv replies rfl
    exact (Option.some.inj hb).symm
  have hrest := s'.view.rank_le
  rcases exists_move henv ht.sees henabled fun hpaced => (hp hpaced).shows hb with
    ⟨hsees, hrank, ⟨fds', rfl⟩, -⟩ | ⟨move, hcan, hturn, hreceives, hsees⟩
  · -- a report
    left
    rw [hviewnext] at hsees hrank
    have hsamecalls : s'.calls = s.calls :=
      (step_calls hstep).resolve_right fun ⟨_, as, tv, replies, h⟩ => by
        cases hreq as tv replies h
    refine ⟨⟨hissued, hsees, ht.among, hsamecalls ▸ ht.count⟩, fun hsteady => ?_⟩
    have hwork := (step_work ht.issued hsteady hstep).1
    have hone : s.view.rank = 1 ∧ s'.view.rank = 0 := by
      have hle := s.view.rank_le
      omega
    rw [rank, rank, hone.1, hone.2]
    omega
  · right
    rw [hviewnext] at hsees
    refine ⟨move, hcan, fun hsize => hturn (inTurn_shows ht.issued hsize hstep hb),
      ⟨hissued, hsees, ht.among.next hcan, ?_⟩, fun hsteady => ?_⟩
    · have hcount := ht.count
      rcases step_calls hstep with hsame | ⟨hmore, as, tv, replies, ha'⟩
      · have hless : (r.next commandOf move).unreceived fds ≤ r.unreceived fds :=
          Relay.unreceived_next ht.among hcan
        omega
      · obtain ⟨fd, rfl⟩ := hreceives as tv replies (hreq as tv replies ha')
        have hless : (r.next commandOf (.receive fd)).unreceived fds < r.unreceived fds :=
          Relay.unreceived_receive ht.among hcan
        omega
    · have hwork := (step_work ht.issued hsteady hstep).1
      have hmul := Nat.mul_le_mul_left (callCost arg + 1) hrest
      rw [rank, rank]
      omega

/-- **Every step is a move, a report, or work in the pool.** -/
theorem Tracks.step (henv : h.env.Succeeds) (hroom : (total : ℤ) ≤ arg.maxLength.toInt)
    (ht : Tracks h arg paced fds total s r) {a : PooledAction}
    (ha : (pooledSystem h arg lines).enabled s a) (hp : paced → s.Paced a) :
    (Tracks h arg paced fds total ((pooledSystem h arg lines).next s a) r ∧
      (a.Steady → ((pooledSystem h arg lines).next s a).rank arg < s.rank arg)) ∨
    ∃ b, r.can b ∧ (arg.threadPoolSize = 1 → r.InTurn b) ∧
      Tracks h arg paced fds total ((pooledSystem h arg lines).next s a) (r.next commandOf b) ∧
      (a.Steady → ((pooledSystem h arg lines).next s a).rank arg ≤
        s.rank arg + (2 * callCost arg + 1)) := by
  obtain ⟨s', hstep⟩ := Option.isSome_iff_exists.mp ha.1
  rw [next_of_step hstep]
  cases hb : s.shows a with
  | none => exact .inl (ht.silent hroom hstep hb)
  | some b => exact ht.shown henv hroom hstep ha hp hb

theorem start_tracks (hl : Typed fds lines) (L : LinkedRing.Links TPoolPtr) :
    Tracks h arg paced fds (∑ fd ∈ fds, (lines fd).length) (start arg L lines)
      (.start lines) where
  issued := start_issued L lines
  sees := start_sees lines hl.isLine
  among := ⟨fun fd hfd => ⟨hl.few fd hfd, rfl, rfl⟩, fun _ hw => absurd hw List.not_mem_nil⟩
  count := by simp [start, Relay.unreceived, Relay.start]

/-- All runs, those with spurious wakeups among them. -/
theorem tracks_of_reach (paced : Prop) (henv : h.env.Succeeds) (hl : Typed fds lines)
    (hroom : ((∑ fd ∈ fds, (lines fd).length : ℕ) : ℤ) ≤ arg.maxLength.toInt)
    (hr : Reach (pooledSystem h arg lines) (fun s a => paced → s.Paced a) s) :
    ∃ r, Reach (relaySystem commandOf lines) (fun r b => arg.threadPoolSize = 1 → r.InTurn b) r ∧
      Tracks h arg paced fds (∑ fd ∈ fds, (lines fd).length) s r := by
  refine hr.related ?_ fun s r a ht ha hp => ?_
  · rintro s ⟨L, rfl⟩
    exact ⟨_, rfl, start_tracks hl L⟩
  · rcases ht.step henv hroom ha hp with ⟨hnext, -⟩ | ⟨b, hcan, hturn, hnext, -⟩
    · exact .inl hnext
    · exact .inr ⟨b, hcan, hturn, hnext⟩

theorem pooled_simulates (henv : h.env.Succeeds) (hl : Typed fds lines)
    (hroom : ((∑ fd ∈ fds, (lines fd).length : ℕ) : ℤ) ≤ arg.maxLength.toInt) :
    Simulates (pooledSystem h arg lines) (fun _ a => a.Steady) (relaySystem commandOf lines)
      (fun _ _ => True) (Tracks h arg False fds (∑ fd ∈ fds, (lines fd).length)) (rank arg)
      (2 * callCost arg + 1) where
  init := by
    rintro s ⟨L, rfl⟩
    exact ⟨_, rfl, start_tracks hl L⟩
  step s r a ht ha hsteady := by
    rcases ht.step henv hroom ha False.elim with ⟨hnext, hdrop⟩ | ⟨b, hcan, -, hnext, hle⟩
    · exact .inl ⟨hnext, hdrop hsteady⟩
    · exact .inr ⟨b, hcan, trivial, hnext, hle hsteady⟩

/-! ### At rest -/

/-- A worker in `TaskFunc` can go on. -/
theorem exists_execCmd (lines : ℕ → List (List UInt8)) (henv : h.env.Succeeds)
    (ht : Tracks h arg paced fds total s r)
    {tmp : Option TPoolPtr} (ha : s.pool.guard arg (.worker w) = true)
    (hpc : s.pool.worker w = .body t tmp .running) :
    ∃ a, a.Steady ∧ (pooledSystem h arg lines).enabled s a := by
  have hw := worker_lt ha
  obtain ⟨htask, -⟩ := view_execCmd ht.issued hw hpc
  obtain ⟨-, harg, -, -⟩ :=
    ht.issued.produced.running ht.issued.placed (sound_of_pool ht.issued.reach t) hw hpc
  obtain ⟨req, hreq⟩ : ∃ req, r.waiting[s.unanswered.idxOf t]? = some req := by
    have hlt := (List.getElem?_eq_some_iff.mp htask).1
    rw [← ht.sees.tasks.length_eq] at hlt
    exact ⟨_, List.getElem?_eq_getElem hlt⟩
  obtain ⟨f, -, -, hleads⟩ := execCmd_leads henv ht.sees hreq ⟨0, 0⟩
  obtain ⟨a, ⟨as, rfl⟩, hbenign, hstep⟩ := hleads.can
  refine ⟨.execCmd w ⟨0, 0⟩ as, trivial, ?_, hbenign⟩
  have hview : ((s.front []).withTasks s.view.tasks).execCmd h (s.unanswered.idxOf t) ⟨0, 0⟩ as =
      some f := hstep
  rw [RemoteExec.execCmd_withTasks htask] at hview
  obtain ⟨g, hg, -⟩ := Option.map_eq_some_iff.mp hview
  have hg' : (s.front [s.taskArg (s.pool.task t).node.taskArg]).execCmd h 0 ⟨0, 0⟩ as = some g := by
    rw [harg]
    exact hg
  simp only [PooledExec.step, PooledExec.execCmd, hpc, ha, if_true, hg']
  rfl

/-- The pool is at rest where everything is. -/
theorem resting_of_atRest (henv : h.env.Succeeds) (ht : Tracks h arg paced fds total s r)
    (hrest : AtRest (pooledSystem h arg lines) (fun _ a => a.Steady) s) :
    s.pool.Resting arg := by
  have hpool : ∀ a : TPoolAction, s.pool.guard arg a = true → s.mayPool a = true →
      ¬ a.Inside = true := by
    intro a ha hmay hin
    refine hrest (.pool a) ⟨?_, trivial⟩ hin
    simp [PooledExec.step, ha, hmay]
  intro a ha hown
  have hguard : s.pool.guard arg a = true := ha
  cases a with
  | lengthTest t woke => exact hpool _ hguard rfl rfl
  | alloc t ok => exact hpool (.alloc t true) hguard rfl rfl
  | insert t clockOk woke => exact hpool _ hguard rfl rfl
  | caller t c =>
      -- nobody waits for a task
      have hnot := ht.issued.produced.inSync_ne t
      have hmay : (s.pool.task t).mayCaller c = true := hguard
      cases hpc : (s.pool.task t).call.pc <;> cases c <;>
        simp [Task.mayCaller, hpc, CallPc.inSync] at hmay hnot
  | worker w =>
      cases hpc : s.pool.worker w with
      | body t tmp k =>
          cases k with
          | running =>
              obtain ⟨a, hsteady, hen⟩ := exists_execCmd lines henv ht hguard hpc
              exact hrest a hen hsteady
          | _ => exact hpool _ hguard (by simp [mayPool, hpc, TPoolAction.Produces]) rfl
      | _ => exact hpool _ hguard (by simp [mayPool, hpc, TPoolAction.Produces]) rfl
  | _ => cases hown

/-- And so are the others. -/
theorem view_atRest (henv : h.env.Succeeds) (ht : Tracks h arg paced fds total s r)
    (hsize : 0 < arg.threadPoolSize)
    (hrest : AtRest (pooledSystem h arg lines) (fun _ a => a.Steady) s) :
    s.pool.Quiescent arg ∧ AtRest (remoteSystem h lines) (fun _ _ => True) s.view := by
  have hq := quiescent_of_rest ht.issued.reach hsize (resting_of_atRest henv ht hrest)
  refine ⟨hq, fun b hb _ => ?_⟩
  obtain ⟨hidle, hran⟩ := ht.issued.produced.all_ran ht.issued.placed
    (sound_of_pool ht.issued.reach) (waited_of_pool ht.issued.reach) hq
  have hbusy : s.busy = false := hidle
  have hview : s.view = (s.front []).withTasks s.view.tasks := rfl
  have hreturns := hb.1
  cases b with
  | mainLoop fd tv as =>
      refine hrest (.mainLoop fd tv as) ⟨?_, hb.2⟩ trivial
      rw [RemoteExec.step, hview, RemoteExec.mainLoop_withTasks, Option.isSome_map] at hreturns
      rw [PooledExec.step, Option.isSome_map, hreturns]
  | epollWait fds =>
      refine hrest (.epollWait fds) ⟨?_, trivial⟩ trivial
      rw [RemoteExec.step, hview, RemoteExec.epollWait_withTasks, Option.isSome_map] at hreturns
      rw [PooledExec.step, hbusy, if_neg Bool.false_ne_true, Option.isSome_map, hreturns]
  | recvRequest as tv replies =>
      refine hrest (.recvRequest as tv replies) ⟨?_, hb.2⟩ trivial
      rw [RemoteExec.step, hview, RemoteExec.recvRequest_withTasks, Option.isSome_map] at hreturns
      rw [PooledExec.step, hbusy, if_neg Bool.false_ne_true, Option.isSome_map]
      exact hreturns
  | execCmd i tv as =>
      have hnone : s.unanswered = [] := by
        rw [unanswered, List.filter_eq_nil_iff]
        intro t ht
        simp [hran t (List.mem_range.mp ht)]
      simp [RemoteExec.step, RemoteExec.execCmd, view, front, hnone] at hreturns
  | recvReply fd as =>
      refine hrest (.recvReply fd as) ⟨?_, hb.2⟩ trivial
      rw [RemoteExec.step, hview, RemoteExec.recvReply_withTasks, Option.isSome_map] at hreturns
      rw [PooledExec.step, Option.isSome_map, hreturns]

end PooledExec

open PooledExec

/-- What holds of a session at any time, as in `AnsweredOnce`; with one worker the answers come in
the order of the commands; and the pool comes to rest with the session. -/
structure PooledOnce (h : ExecHosts) (arg : TPoolModuleInitArg) (fds : Finset ℕ)
    (lines : ℕ → List (List UInt8)) (s : PooledExec) : Prop where
  shown : ∀ fd, ∃ cmds : List (List UInt8),
    (s.client fd).stdout = cmds.flatMap (screen h.env) ∧
      cmds.Subperm ((lines fd).filterMap commandOf)
  shownInTurn : arg.threadPoolSize = 1 → ∀ fd, ∃ cmds : List (List UInt8),
    (s.client fd).stdout = cmds.flatMap (screen h.env) ∧
      cmds <+: (lines fd).filterMap commandOf
  bounded : ∃ bound, ∀ as, Legal (pooledSystem h arg lines) (fun _ a => a.Steady) s as →
    as.length ≤ bound
  ends : ∃ as, Legal (pooledSystem h arg lines) (fun _ a => a.Steady) s as ∧
    AtRest (pooledSystem h arg lines) (fun _ a => a.Steady)
      (exec (pooledSystem h arg lines) s as)
  quiescent : AtRest (pooledSystem h arg lines) (fun _ a => a.Steady) s →
    s.pool.Quiescent arg
  unread : AtRest (pooledSystem h arg lines) (fun _ a => a.Steady) s →
    ∀ fd, ∃ cmds left calls, (s.client fd).stdout = cmds.flatMap (screen h.env) ∧
      (cmds ++ left).Perm ((lines fd).filterMap commandOf) ∧
      (s.client fd).up = framesOf (h.client fd) calls ∧ List.Forall₂ Asks left calls ∧
      (left ≠ [] → (s.client fd).edge = false)
  complete : Reach (pooledSystem h arg lines) PooledExec.Paced s →
    AtRest (pooledSystem h arg lines) (fun _ a => a.Steady) s →
    ∀ fd, ∃ cmds : List (List UInt8), (s.client fd).stdout = cmds.flatMap (screen h.env) ∧
      cmds.Perm ((lines fd).filterMap commandOf) ∧
      (arg.threadPoolSize = 1 → cmds = (lines fd).filterMap commandOf)

/-- **Every command is answered once, by the pool's workers,** whatever the order in which the
clients, the loop and the workers take their steps; in turn if there is one worker. -/
theorem pooled_exec (h : ExecHosts) (henv : h.env.Succeeds) (arg : TPoolModuleInitArg)
    (hsize : 0 < arg.threadPoolSize) (fds : Finset ℕ) (lines : ℕ → List (List UInt8))
    (hl : Typed fds lines)
    (hroom : ((∑ fd ∈ fds, (lines fd).length : ℕ) : ℤ) ≤ arg.maxLength.toInt) (s : PooledExec)
    (hr : Reachable (pooledSystem h arg lines) s) : PooledOnce h arg fds lines s := by
  obtain ⟨r, hreach, ht⟩ := tracks_of_reach False henv hl hroom
    (hr.mono fun _ _ _ => False.elim)
  have hall : Reachable (relaySystem commandOf lines) r := hreach.mono fun _ _ _ => trivial
  have hsim := pooled_simulates (h := h) henv hl hroom
  have hmeasure : Measure (relaySystem commandOf lines) (fun _ _ => True)
      (Relay.Among fds) (Relay.cost fds) := relay_measure fds
  refine ⟨ht.sees.shown hall, fun hone => ?_, ?_, hsim.exists_rest hmeasure ht ht.among,
    fun hrest => (view_atRest henv ht hsize hrest).1, fun hrest => ?_, fun hpaced hrest fd => ?_⟩
  · exact ht.sees.shown_inTurn (hreach.mono fun _ _ hturn => hturn hone)
  · exact ⟨_, fun as has => hsim.length_le hmeasure ht ht.among has⟩
  · have hstuck := stuck_of_atRest henv ht.sees (view_atRest henv ht hsize hrest).2
    exact hstuck.unread ht.sees hall
  · obtain ⟨r, hreach, ht⟩ := tracks_of_reach True henv hl hroom
      (hpaced.mono fun _ _ hp _ => hp)
    have hdone := (stuck_of_atRest henv ht.sees (view_atRest henv ht hsize hrest).2).done ht.sees
    refine ⟨r.shown fd, (ht.sees.client fd).stdout, ?_, fun hone => ?_⟩
    · rw [← hdone.through fd]
      exact kept (hreach.mono fun _ _ _ => trivial) fd
    · rw [← hdone.through fd]
      exact kept_inTurn (hreach.mono fun _ _ hturn => hturn hone) fd

/-- Where each client has one command at most, a report cannot find two. -/
theorem paced_of_single {h : ExecHosts} (henv : h.env.Succeeds) {arg : TPoolModuleInitArg}
    {fds : Finset ℕ} {lines : ℕ → List (List UInt8)} (hl : Typed fds lines)
    (hroom : ((∑ fd ∈ fds, (lines fd).length : ℕ) : ℤ) ≤ arg.maxLength.toInt)
    (hsingle : ∀ fd, ((lines fd).filterMap commandOf).length ≤ 1) {s : PooledExec}
    (hr : Reachable (pooledSystem h arg lines) s) :
    Reach (pooledSystem h arg lines) PooledExec.Paced s := by
  induction hr with
  | init hs => exact .init hs
  | @step s a hr ha _ ih =>
      refine .step ih ha ?_
      obtain ⟨r, hreach, ht⟩ := tracks_of_reach False henv hl hroom
        (hr.mono fun _ _ _ => False.elim)
      cases a with
      | epollWait ready =>
          intro fd _
          refine (ht.sees.client fd).atMostOne ?_
          have hlen := (kept (hreach.mono fun _ _ _ => trivial) fd).length_eq
          have hone := hsingle fd
          simp only [Relay.through, List.length_append] at hlen
          omega
      | _ => trivial

def twoWorkersArg : TPoolModuleInitArg := ⟨2, 5, 8⟩

def oneEach (fd : ℕ) : List (List UInt8) :=
  if fd = 3 then [helpText, lsLine] else if fd = 4 then [lsLine] else []

theorem typed_oneEach : Typed {3, 4} oneEach where
  isLine fd line hline := by
    unfold oneEach at hline
    split_ifs at hline
    · exact execLine_twoUsers 3 line hline
    · exact execLine_twoUsers 4 line (List.mem_cons_of_mem _ hline)
    · exact absurd hline List.not_mem_nil
  few fd hfd := by
    simp only [Finset.mem_insert, Finset.mem_singleton, not_or] at hfd
    rw [oneEach, if_neg hfd.1, if_neg hfd.2]

/-- They type a command each, and two workers share them out. -/
theorem pooled_exec_two : ∃ s, Reachable (pooledSystem twoHosts twoWorkersArg oneEach) s ∧
    AtRest (pooledSystem twoHosts twoWorkersArg oneEach) (fun _ a => a.Steady) s ∧
    PooledOnce twoHosts twoWorkersArg {3, 4} oneEach s ∧
    (s.client 3).stdout = screen greetingEnv lsArg ∧
    (s.client 4).stdout = screen greetingEnv lsArg := by
  have hroom : ((∑ fd ∈ ({3, 4} : Finset ℕ), (oneEach fd).length : ℕ) : ℤ) ≤
      twoWorkersArg.maxLength.toInt := by decide
  have honce := pooled_exec twoHosts greetingEnv_succeeds twoWorkersArg (by decide) {3, 4}
    oneEach typed_oneEach hroom
  have hthree : (oneEach 3).filterMap commandOf = [lsArg] := by decide
  have hfour : (oneEach 4).filterMap commandOf = [lsArg] := by decide
  have hsingle : ∀ fd, ((oneEach fd).filterMap commandOf).length ≤ 1 := by
    intro fd
    by_cases h₃ : fd = 3
    · rw [h₃, hthree]
      exact le_rfl
    · by_cases h₄ : fd = 4
      · rw [h₄, hfour]
        exact le_rfl
      · rw [oneEach, if_neg h₃, if_neg h₄]
        exact Nat.zero_le 1
  have hstart : Reachable (pooledSystem twoHosts twoWorkersArg oneEach)
      (.start twoWorkersArg ⟨fun _ => .taskListHead, fun _ => .taskListHead⟩ oneEach) :=
    .init ⟨_, rfl⟩
  obtain ⟨as, has, hrest⟩ := (honce _ hstart).ends
  have hr := hstart.exec (has.mono fun _ _ _ => trivial)
  have hpaced := paced_of_single greetingEnv_succeeds typed_oneEach hroom hsingle hr
  have hcomplete := (honce _ hr).complete hpaced hrest
  refine ⟨_, hr, hrest, honce _ hr, ?_, ?_⟩
  · obtain ⟨cmds, hout, hperm, -⟩ := hcomplete 3
    rw [hthree, List.perm_singleton] at hperm
    rw [hout, hperm]
    exact List.flatMap_singleton ..
  · obtain ⟨cmds, hout, hperm, -⟩ := hcomplete 4
    rw [hfour, List.perm_singleton] at hperm
    rw [hout, hperm]
    exact List.flatMap_singleton ..

end MyWorkEnv
