import MyWorkEnv.Lib.Snprintf
import MyWorkEnv.MyUtils.Health.Health
import MyWorkEnv.MyUtils.Log.LogIO
import MyWorkEnv.MyUtils.Msg.SendRecv
import MyWorkEnv.MyUtils.TPool.ThreadPool
import MyWorkEnv.Server.ServerClientMap

/-!
# The statistics collectors

The functions that append a module's statistics to a text, as they are called
by the thread of the Health module and for a command. Each gets the buffer, its
length and the offset of what is there. They follow three patterns. Most append
text that is compared with the space left; two do not compare at all; and those
of the Timer and the Health module compare `len` with the space that is left
after `len` more bytes, so they give up from half of the space on. One that
gives up returns `-MY_ENOMEM`.
-/

namespace MyWorkEnv

open CString Snprintf

/-- `ModuleNameByEnum`, for the enumeration's values. -/
def moduleNameByEnum : MyModulesEnum → List UInt8
  | .log => str "Log"
  | .msg => str "Msg"
  | .tpool => str "TPool"
  | .cmdLine => str "CmdLine"
  | .mHealth => str "MHealth"
  | .mem => str "Mem"
  | .timer => str "Timer"

/-! ## One text -/

def logModuleCollectStat (w : LogWorker) (buffMaxLen offset : ℤ) : Appended :=
  appendTested buffMaxLen offset
    [str "<" ++ moduleNameByEnum .log ++ str ":[LogPrinted:" ++
      signedDecimal w.logPrinted.toInt ++ str ", LogSize:" ++ signedDecimal w.logSize ++
      str " Bytes]>"]

def msgModuleCollectStat (stats : MyMsgStats) (buffMaxLen offset : ℤ) : Appended :=
  appendTested buffMaxLen offset
    [str "<" ++ moduleNameByEnum .msg ++ str ":[MsgSend=" ++ decimal stats.msgSend.toNat ++
      str ", MsgSendBytes=" ++ decimal stats.msgSendBytes.toNat ++
      str ", MsgSendFailed=" ++ decimal stats.msgSendFailed.toNat ++
      str ", MsgRecv=" ++ decimal stats.msgRecv.toNat ++
      str ", MsgRecvBytes=" ++ decimal stats.msgRecvBytes.toNat ++
      str ", MsgRecvFailed=" ++ decimal stats.msgRecvFailed.toNat ++ str "]>"]

def tPoolModuleCollectStat (s : ThreadPool) (buffMaxLen offset : ℤ) : Appended :=
  if ¬ s.inited then ⟨true, offset, []⟩
  else appendTested buffMaxLen offset
    [str "<" ++ moduleNameByEnum .tpool ++ str ":[TaskAdded=" ++
      signedDecimal s.taskAdded.toInt ++ str ", TaskSucceed=" ++
      signedDecimal s.taskSucceed.toInt ++ str ", TaskFailed=" ++
      signedDecimal s.taskFailed.toInt ++ str ", CurrentThreadNum=" ++
      signedDecimal s.currentThreadNum.toInt ++ str ", TaskListLength=" ++
      signedDecimal s.taskListLength.toInt ++ str "]>"]

/-- `Exit` and `Stat` of `sg_CmdLineWorker`. -/
structure CmdLineStat where
  exit : Bool
  connectCnt : BitVec 32
  execCnt : BitVec 32

def cmdLineStat (stat : CmdLineStat) : List UInt8 :=
  str "<" ++ moduleNameByEnum .cmdLine ++ str ":[IsRunning:" ++
    (if stat.exit then str "FALSE" else str "TRUE") ++ str " CmdConnectCnt:" ++
    signedDecimal stat.connectCnt.toInt ++ str " CmdExecCnt:" ++
    signedDecimal stat.execCnt.toInt ++ str "]>"

/-- The only module whose text is not compared with the space. -/
def cmdLineModuleCollectStat (stat : CmdLineStat) (buffMaxLen offset : ℤ) : Appended :=
  appendUntested (fun offset => toInt (buffMaxLen - offset)) offset [cmdLineStat stat]

/-! ## Lists of texts -/

def memNodeStat (node : MyMemNode) : List UInt8 :=
  str "[MemId=" ++ decimal node.memModuleId.toNat ++ str ", MemName<" ++ node.memModuleName ++
    str ">, MemAlloced=" ++ decimal node.memBytesAlloced.toNat ++
    str ", MemFreed=" ++ decimal node.memBytesFreed.toNat ++
    str ", MemInusing=" ++ decimal (node.memBytesAlloced - node.memBytesFreed).toNat ++ str "]"

def memModuleCollectStat (w : MyMemWorker) (buffMaxLen offset : ℤ) : Appended :=
  let nodes := (List.finRange myMemModuleMaxNum).map w.nodes
  appendTested buffMaxLen offset
    ((str "<" ++ moduleNameByEnum .mem ++ str ":") ::
      (nodes.filter fun node => node.registered).map memNodeStat ++ [str ">"])

/-- A client map as the list of the fds it holds. -/
structure ClientFds where
  inited : Bool
  clientFd : List (BitVec 32)

def clientFdStat (fd : BitVec 32) : List UInt8 := str "<Fd=" ++ signedDecimal fd.toInt ++ str ">"

/-- Here `BuffMaxLen` is a `size_t`, and so is the space left. -/
def serverClientMapCollectStat (map : Option ClientFds) (buffMaxLen offset : ℤ) : Appended :=
  match map with
  | none => ⟨true, offset, []⟩
  | some map =>
      if map.inited then
        appendUntested (fun offset => (buffMaxLen - offset) % 2 ^ 64) offset
          (map.clientFd.map clientFdStat)
      else ⟨true, offset, []⟩

/-! ## The event lists -/

/-- The loop over the events and the closing bracket, `len` bytes after the offset. -/
def appendEvents (buffMaxLen offset : ℤ) : ℤ → List (List UInt8) → Appended
  | len, [] =>
      let call : Call := ⟨offset + len, toInt (buffMaxLen - offset - len), str ">"⟩
      .cons call ⟨true, toInt (offset + toInt (len + length (str ">"))), []⟩
  | len, event :: events =>
      let call : Call := ⟨offset + len, toInt (buffMaxLen - offset - len), event⟩
      let len := toInt (len + length event)
      -- the space after `len` bytes is what `len` is compared with
      .cons call
        (if len < 0 ∨ toInt (buffMaxLen - offset - len) ≤ len then
          ⟨false, toInt (offset + len), []⟩
        else appendEvents buffMaxLen offset len events)

def collectEvents (header : List UInt8) (events : List (List UInt8)) (buffMaxLen offset : ℤ) :
    Appended :=
  .cons ⟨offset, toInt (buffMaxLen - offset), header⟩
    (appendEvents buffMaxLen offset (toInt (length header)) events)

/-- `<%s:(ListLength:%d)` -/
def eventListStat (module : MyModulesEnum) (eventListLen : BitVec 32) : List UInt8 :=
  str "<" ++ moduleNameByEnum module ++ str ":(ListLength:" ++
    signedDecimal eventListLen.toInt ++ str ")"

/-- `MY_TIMER_EVENT_NODE`, at the address `handle`. -/
structure TimerEventStat where
  handle : UInt64
  cb : UInt64
  arg : UInt64
  intervalMs : UInt32

def timerEventStat (event : TimerEventStat) : List UInt8 :=
  str "[Handle:" ++ pointer event.handle.toNat ++ str ", Cb:" ++ pointer event.cb.toNat ++
    str ", Arg:" ++ pointer event.arg.toNat ++ str ", IntervalMs:" ++
    decimal event.intervalMs.toNat ++ str "]"

def timerModuleCollectStat (eventListLen : BitVec 32) (events : List TimerEventStat)
    (buffMaxLen offset : ℤ) : Appended :=
  collectEvents (eventListStat .timer eventListLen) (events.map timerEventStat) buffMaxLen offset

/-- `MY_HEALTH_MONITOR_LIST_NODE` -/
structure HealthEventStat where
  name : Vector UInt8 64
  intervalS : BitVec 32

def healthEventStat (event : HealthEventStat) : List UInt8 :=
  str "[EventName:" ++ cStr event.name.toList ++ str ", EventInterval:" ++
    signedDecimal event.intervalS.toInt ++ str "]"

def healthModuleCollectStat (eventListLen : BitVec 32) (events : List HealthEventStat)
    (buffMaxLen offset : ℤ) : Appended :=
  collectEvents (eventListStat .mHealth eventListLen) (events.map healthEventStat) buffMaxLen
    offset

/-! ## Short texts -/

theorem length_signedDecimal_toInt (v : BitVec 32) : (signedDecimal v.toInt).length ≤ 11 := by
  have hlow := v.le_toInt
  have hhigh := v.toInt_lt
  exact length_signedDecimal_le (by omega) (by omega)

theorem length_moduleNameByEnum (module : MyModulesEnum) :
    (moduleNameByEnum module).length ≤ 7 := by
  cases module <;> decide

theorem length_cmdLineStat (stat : CmdLineStat) : (cmdLineStat stat).length < 2 ^ 31 := by
  have hname := length_moduleNameByEnum .cmdLine
  have hconnect := length_signedDecimal_toInt stat.connectCnt
  have hexec := length_signedDecimal_toInt stat.execCnt
  have hopen : (str "<").length = 1 := by decide
  have hrunning : (str ":[IsRunning:").length = 12 := by decide
  have hbool : (if stat.exit then str "FALSE" else str "TRUE").length ≤ 5 := by
    cases stat.exit <;> decide
  have hconnectCnt : (str " CmdConnectCnt:").length = 15 := by decide
  have hexecCnt : (str " CmdExecCnt:").length = 12 := by decide
  have hclose : (str "]>").length = 2 := by decide
  simp only [cmdLineStat, List.length_append]
  omega

theorem length_clientFdStat (fd : BitVec 32) : (clientFdStat fd).length < 2 ^ 31 := by
  have hfd := length_signedDecimal_toInt fd
  have hopen : (str "<Fd=").length = 4 := by decide
  have hclose : (str ">").length = 1 := by decide
  simp only [clientFdStat, List.length_append]
  omega

theorem length_eventListStat (module : MyModulesEnum) (eventListLen : BitVec 32) :
    1 ≤ (eventListStat module eventListLen).length ∧
      (eventListStat module eventListLen).length < 2 ^ 29 := by
  have hname := length_moduleNameByEnum module
  have hlen := length_signedDecimal_toInt eventListLen
  have hopen : (str "<").length = 1 := by decide
  have hlist : (str ":(ListLength:").length = 13 := by decide
  have hclose : (str ")").length = 1 := by decide
  simp only [eventListStat, List.length_append]
  omega

theorem length_pointer_toNat (p : UInt64) : (pointer p.toNat).length ≤ 18 :=
  length_pointer_le (by omega) p.toNat_lt

theorem length_timerEventStat (event : TimerEventStat) :
    (timerEventStat event).length < 2 ^ 29 := by
  have hhandle := length_pointer_toNat event.handle
  have hcb := length_pointer_toNat event.cb
  have harg := length_pointer_toNat event.arg
  have hinterval : (decimal event.intervalMs.toNat).length ≤ 10 :=
    length_decimal_le (by omega) (event.intervalMs.toNat_lt.trans (by norm_num))
  have h₁ : (str "[Handle:").length = 8 := by decide
  have h₂ : (str ", Cb:").length = 5 := by decide
  have h₃ : (str ", Arg:").length = 6 := by decide
  have h₄ : (str ", IntervalMs:").length = 13 := by decide
  have h₅ : (str "]").length = 1 := by decide
  simp only [timerEventStat, List.length_append]
  omega

theorem length_healthEventStat (event : HealthEventStat) :
    (healthEventStat event).length < 2 ^ 29 := by
  have hname : (cStr event.name.toList).length ≤ event.name.toList.length :=
    (List.takeWhile_prefix _).length_le
  rw [Vector.length_toList] at hname
  have hinterval := length_signedDecimal_toInt event.intervalS
  have h₁ : (str "[EventName:").length = 11 := by decide
  have h₂ : (str ", EventInterval:").length = 16 := by decide
  have h₃ : (str "]").length = 1 := by decide
  simp only [healthEventStat, List.length_append]
  omega

/-! ## Event lists that fit -/

/-- The first event whose text takes the whole to half of the space or beyond is the last
one written, and has to fit. -/
def EventsFit (space : ℤ) : ℤ → List (List UInt8) → Prop
  | _, [] => True
  | len, event :: events =>
      if space ≤ 2 * (len + event.length) then len + event.length < space
      else EventsFit space (len + event.length) events

/-- The closing bracket has to fit behind a header without events. -/
def ListFits (space : ℤ) (header : List UInt8) (events : List (List UInt8)) : Prop :=
  if events = [] then (header.length : ℤ) + 1 < space else EventsFit space header.length events

section Events

variable {buffMaxLen offset len : ℤ} {event header : List UInt8} {events : List (List UInt8)}

theorem appendEvents_nil_inside_iff (hoffset : 0 ≤ offset) (hlt : offset < buffMaxLen)
    (hmax : buffMaxLen < 2 ^ 31) (hlen : 0 ≤ len ∧ len < 2 ^ 30) :
    (appendEvents buffMaxLen offset len []).Inside buffMaxLen ↔ len + 1 < buffMaxLen - offset := by
  have hone : length (str ">") = 1 := by decide
  have hnext : toInt (len + 1) = len + 1 := toInt_eq (by omega)
  have hleft : toInt (buffMaxLen - offset - len) = buffMaxLen - offset - len :=
    toInt_eq (by omega)
  have hend := toInt_inside_iff buffMaxLen (z := offset + (len + 1)) (by omega)
  rw [appendEvents, Appended.inside_cons_iff, Call.inside_iff, Appended.inside_iff, hone, hnext,
    hleft, hend]
  simp only [List.not_mem_nil, false_implies, implies_true, true_and]
  omega

/-- One event: the text before it is in the buffer, and then it is the last one or not. -/
theorem appendEvents_cons_inside_iff (hoffset : 0 ≤ offset) (hlt : offset < buffMaxLen)
    (hmax : buffMaxLen < 2 ^ 31) (hlen : 0 ≤ len ∧ len < 2 ^ 30)
    (hevent : event.length < 2 ^ 29) :
    (appendEvents buffMaxLen offset len (event :: events)).Inside buffMaxLen ↔
      len < buffMaxLen - offset ∧
        if buffMaxLen - offset ≤ 2 * (len + event.length) then
          len + event.length < buffMaxLen - offset
        else (appendEvents buffMaxLen offset (len + event.length) events).Inside buffMaxLen := by
  have hnext : toInt (len + event.length) = len + event.length :=
    toInt_eq (by omega)
  have hleft : toInt (buffMaxLen - offset - len) = buffMaxLen - offset - len :=
    toInt_eq (by omega)
  have hthen : toInt (buffMaxLen - offset - (len + event.length)) =
      buffMaxLen - offset - (len + event.length) := toInt_eq (by omega)
  have hcall : Call.Inside buffMaxLen ⟨offset + len, buffMaxLen - offset - len, event⟩ ↔
      len < buffMaxLen - offset := by
    simp only [Call.inside_iff]
    omega
  have htest : (len + event.length < 0 ∨
      buffMaxLen - offset - (len + event.length) ≤ len + event.length) ↔
        buffMaxLen - offset ≤ 2 * (len + event.length) := by
    omega
  rw [appendEvents, Appended.inside_cons_iff, length_eq (by omega), hnext, hleft, hthen, hcall]
  simp only [htest]
  refine and_congr_right fun _ => ?_
  split_ifs with hhalf
  · have hend := toInt_inside_iff buffMaxLen (z := offset + (len + event.length)) (by omega)
    rw [Appended.inside_iff, hend]
    simp only [List.not_mem_nil, false_implies, implies_true, true_and]
    omega
  · exact Iff.rfl

/-- Before half of the space is taken, the text so far and the closing bracket fit. -/
theorem appendEvents_inside_iff (hoffset : 0 ≤ offset) (hlt : offset < buffMaxLen)
    (hmax : buffMaxLen < 2 ^ 31) (hlen : 1 ≤ len) (hhalf : 2 * len < buffMaxLen - offset)
    (hevents : ∀ event ∈ events, event.length < 2 ^ 29) :
    (appendEvents buffMaxLen offset len events).Inside buffMaxLen ↔
      EventsFit (buffMaxLen - offset) len events := by
  induction events generalizing len with
  | nil =>
      rw [appendEvents_nil_inside_iff hoffset hlt hmax (by omega)]
      exact iff_of_true (by omega) trivial
  | cons event events ih =>
      obtain ⟨hevent, hevents⟩ := List.forall_mem_cons.mp hevents
      rw [appendEvents_cons_inside_iff hoffset hlt hmax (by omega) hevent,
        and_iff_right (by omega), EventsFit]
      split_ifs with hstop
      · exact Iff.rfl
      · exact ih (by omega) (by omega) hevents

/-- **The event lists.** -/
theorem collectEvents_inside_iff (hoffset : 0 ≤ offset) (hlt : offset < buffMaxLen)
    (hmax : buffMaxLen < 2 ^ 31) (hheader : 1 ≤ header.length ∧ header.length < 2 ^ 29)
    (hevents : ∀ event ∈ events, event.length < 2 ^ 29) :
    (collectEvents header events buffMaxLen offset).Inside buffMaxLen ↔
      ListFits (buffMaxLen - offset) header events := by
  obtain ⟨hone, hshort⟩ := hheader
  have hlen : toInt (length header) = header.length := by
    rw [length_eq (by omega), toInt_eq (by omega)]
  rw [collectEvents, Appended.inside_cons_iff, toInt_left hoffset hlt hmax, hlen,
    and_iff_right (Call.inside_rest hoffset hlt), ListFits]
  cases events with
  | nil => rw [if_pos rfl, appendEvents_nil_inside_iff hoffset hlt hmax (by omega)]
  | cons event events =>
      obtain ⟨hevent, hevents⟩ := List.forall_mem_cons.mp hevents
      rw [if_neg (List.cons_ne_nil _ _),
        appendEvents_cons_inside_iff hoffset hlt hmax (by omega) hevent, EventsFit]
      split_ifs with hstop
      · -- the header is shorter than the text with the first event
        omega
      · rw [and_iff_right (by omega)]
        exact appendEvents_inside_iff hoffset hlt hmax (by omega) (by omega) hevents

end Events

/-! ## All collectors -/

/-- A collector, with what it reads. -/
inductive StatCollector where
  | log (w : LogWorker)
  | msg (stats : MyMsgStats)
  | tPool (s : ThreadPool)
  | cmdLine (stat : CmdLineStat)
  | health (eventListLen : BitVec 32) (events : List HealthEventStat)
  | mem (w : MyMemWorker)
  | timer (eventListLen : BitVec 32) (events : List TimerEventStat)
  | clientMap (map : Option ClientFds)

namespace StatCollector

def collect : StatCollector → ℤ → ℤ → Appended
  | .log w => logModuleCollectStat w
  | .msg stats => msgModuleCollectStat stats
  | .tPool s => tPoolModuleCollectStat s
  | .cmdLine stat => cmdLineModuleCollectStat stat
  | .health eventListLen events => healthModuleCollectStat eventListLen events
  | .mem w => memModuleCollectStat w
  | .timer eventListLen events => timerModuleCollectStat eventListLen events
  | .clientMap map => serverClientMapCollectStat map

/-- What `BuffMaxLen` is less than: it is an `int`, and a `size_t` for the client map. -/
def lenBound : StatCollector → ℤ
  | .clientMap _ => 2 ^ 64
  | _ => 2 ^ 31

/-- The text fits, as far as the collector does not see to it itself. -/
def Fits (buffMaxLen offset : ℤ) : StatCollector → Prop
  | .log _ | .msg _ | .tPool _ | .mem _ => True
  | .cmdLine stat => offset + (cmdLineStat stat).length < buffMaxLen
  | .health eventListLen events =>
      ListFits (buffMaxLen - offset) (eventListStat .mHealth eventListLen)
        (events.map healthEventStat)
  | .timer eventListLen events =>
      ListFits (buffMaxLen - offset) (eventListStat .timer eventListLen)
        (events.map timerEventStat)
  | .clientMap none => True
  | .clientMap (some map) => map.inited = true →
      offset + (map.clientFd.map clientFdStat).flatten.length < buffMaxLen ∧
        offset + (map.clientFd.map clientFdStat).flatten.length < 2 ^ 31

end StatCollector

/-! ## The collectors that do not test -/

section Untested

variable {buffMaxLen offset : ℤ}

theorem cmdLineModuleCollectStat_inside_iff (stat : CmdLineStat) (hoffset : 0 ≤ offset)
    (hlt : offset < buffMaxLen) (hmax : buffMaxLen < 2 ^ 31) :
    (cmdLineModuleCollectStat stat buffMaxLen offset).Inside buffMaxLen ↔
      offset + (cmdLineStat stat).length < buffMaxLen := by
  have hshort : ∀ text ∈ [cmdLineStat stat], text.length < 2 ^ 31 := by
    simpa using length_cmdLineStat stat
  have hiff := appendUntested_inside_iff (fun _ hoffset hlt => toInt_left hoffset hlt hmax) hshort
    hoffset hlt (hlt.trans hmax)
  rw [List.flatten_singleton] at hiff
  exact hiff.trans ⟨And.left, fun hfits => ⟨hfits, hfits.trans hmax⟩⟩

theorem serverClientMapCollectStat_inside_iff (map : Option ClientFds) (hoffset : 0 ≤ offset)
    (hlt : offset < buffMaxLen) (hint : offset < 2 ^ 31) (hmax : buffMaxLen < 2 ^ 64) :
    (serverClientMapCollectStat map buffMaxLen offset).Inside buffMaxLen ↔
      (StatCollector.clientMap map).Fits buffMaxLen offset := by
  have hleft : ∀ offset, 0 ≤ offset → offset < buffMaxLen →
      (buffMaxLen - offset) % 2 ^ 64 = buffMaxLen - offset :=
    fun offset _ _ => Int.emod_eq_of_lt (by omega) (by omega)
  cases map with
  | none => exact iff_of_true (Appended.inside_stop hoffset hlt) trivial
  | some map =>
      simp only [StatCollector.Fits, serverClientMapCollectStat]
      split_ifs with hinited
      · have hshort : ∀ text ∈ map.clientFd.map clientFdStat, text.length < 2 ^ 31 := by
          simpa using fun fd _ => length_clientFdStat fd
        rw [appendUntested_inside_iff hleft hshort hoffset hlt hint]
        exact ⟨fun h _ => h, fun h => h hinited⟩
      · exact iff_of_true (Appended.inside_stop hoffset hlt) fun h => absurd h hinited

end Untested

/-- **The collectors.** At any offset in the buffer, a collector stays inside if and only if
the text it does not test itself fits. -/
theorem collectStat_inside_iff (c : StatCollector) {buffMaxLen offset : ℤ}
    (hoffset : 0 ≤ offset) (hlt : offset < buffMaxLen) (hint : offset < 2 ^ 31)
    (hmax : buffMaxLen < c.lenBound) :
    (c.collect buffMaxLen offset).Inside buffMaxLen ↔ c.Fits buffMaxLen offset := by
  cases c with
  | log w => exact iff_of_true (appendTested_inside hoffset hlt hmax) trivial
  | msg stats => exact iff_of_true (appendTested_inside hoffset hlt hmax) trivial
  | mem w => exact iff_of_true (appendTested_inside hoffset hlt hmax) trivial
  | tPool s =>
      refine iff_of_true ?_ trivial
      simp only [StatCollector.collect, tPoolModuleCollectStat]
      by_cases hinited : s.inited = true
      · rw [if_neg (not_not_intro hinited)]
        exact appendTested_inside hoffset hlt hmax
      · rw [if_pos hinited]
        exact Appended.inside_stop hoffset hlt
  | cmdLine stat => exact cmdLineModuleCollectStat_inside_iff stat hoffset hlt hmax
  | health eventListLen events =>
      refine collectEvents_inside_iff hoffset hlt hmax (length_eventListStat _ _) ?_
      simpa using fun event _ => length_healthEventStat event
  | timer eventListLen events =>
      refine collectEvents_inside_iff hoffset hlt hmax (length_eventListStat _ _) ?_
      simpa using fun event _ => length_timerEventStat event
  | clientMap map => exact serverClientMapCollectStat_inside_iff map hoffset hlt hint hmax

/-- Three clients, at the end of a buffer of 64 bytes. -/
theorem collectStat_inside_iff_clients :
    (serverClientMapCollectStat (some ⟨true, [5, 42, 7]⟩) 64 40).Inside 64 :=
  (collectStat_inside_iff (.clientMap (some ⟨true, [5, 42, 7]⟩)) (by norm_num) (by norm_num)
    (by norm_num) (by norm_num [StatCollector.lenBound])).mpr
      fun _ => ⟨by decide, by decide⟩

/-- 200 clients, with fds of two digits. -/
def manyClients : ClientFds := ⟨true, List.replicate 200 42⟩

/-- The list of the clients runs out of a buffer of 1024 bytes. -/
theorem serverClientMapCollectStat_leaves :
    ¬ ∀ (c : StatCollector) (buffMaxLen offset : ℤ), 0 ≤ offset → offset < buffMaxLen →
      offset < 2 ^ 31 → buffMaxLen < c.lenBound →
        (c.collect buffMaxLen offset).Inside buffMaxLen := by
  intro h
  have hinside := h (.clientMap (some manyClients)) 1024 0 (by norm_num) (by norm_num)
    (by norm_num) (by norm_num [StatCollector.lenBound])
  revert hinside
  decide +kernel

end MyWorkEnv
