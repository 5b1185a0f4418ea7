import MyWorkEnv.MyUtils.Modules.CollectStat

/-!
# Reports of lists that fit

What the collectors of the Timer and the Health module leave in the buffer. The
test after each event compares `len` with the space that is left behind `len`
bytes, and of the text and that space the text has to be the smaller. So a report
that fits is still refused, unless the list is empty or the report takes less than
half of the space.
-/

namespace MyWorkEnv

open ByteMemory Snprintf

/-- The two collectors, with what they read. -/
inductive ListCollector where
  | timer (eventListLen : BitVec 32) (events : List TimerEventStat)
  | health (eventListLen : BitVec 32) (events : List HealthEventStat)

namespace ListCollector

def collect : ListCollector → ℤ → ℤ → Appended
  | .timer eventListLen events => timerModuleCollectStat eventListLen events
  | .health eventListLen events => healthModuleCollectStat eventListLen events

def header : ListCollector → List UInt8
  | .timer eventListLen _ => eventListStat .timer eventListLen
  | .health eventListLen _ => eventListStat .mHealth eventListLen

def entries : ListCollector → List (List UInt8)
  | .timer _ events => events.map timerEventStat
  | .health _ events => events.map healthEventStat

/-- All of it. -/
def report (c : ListCollector) : List UInt8 := c.header ++ c.entries.flatten ++ str ">"

theorem collect_eq (c : ListCollector) : c.collect = collectEvents c.header c.entries := by
  cases c with
  | timer eventListLen events => rfl
  | health eventListLen events => rfl

end ListCollector

variable {buffMaxLen offset : ℤ} {m : Memory} {header text : List UInt8}
  {events : List (List UInt8)}

/-- A call of the loop, when `text` is in the buffer and `event` fits behind it. -/
theorem call_behind {event : List UInt8} (hoffset : 0 ≤ offset) (hmax : buffMaxLen < 2 ^ 31)
    (hread : readBytes m offset.toNat text.length = text)
    (hfits : (text.length : ℤ) + event.length < buffMaxLen - offset) :
    let call : Call := ⟨offset + text.length, toInt (buffMaxLen - offset - text.length), event⟩
    readBytes (call.apply m) offset.toNat (text ++ event).length = text ++ event ∧
      readBytes (call.apply m) offset.toNat ((text ++ event).length + 1) = text ++ event ++ [0] ∧
      toInt (text.length + length event) = (text ++ event).length := by
  have hleft : toInt (buffMaxLen - offset - text.length) = buffMaxLen - offset - text.length :=
    toInt_eq (by omega)
  have hevent : (event.length : ℤ) < buffMaxLen - offset - text.length := by omega
  obtain ⟨hbytes, hended⟩ :=
    @Call.readBytes_apply _ _ m text.length _ _ hoffset rfl hevent (by omega)
  rw [hread, ← List.length_append] at hbytes hended
  rw [← hleft] at hbytes hended
  refine ⟨hbytes, hended, ?_⟩
  rw [length_eq (by omega), List.length_append, Nat.cast_add]
  exact toInt_eq (by omega)

/-- The loop, when `text` is in the buffer and the rest fits behind it. -/
theorem appendEvents_reports_iff (hoffset : 0 ≤ offset) (hmax : buffMaxLen < 2 ^ 31)
    (hread : readBytes m offset.toNat text.length = text)
    (hfits : (text.length : ℤ) + events.flatten.length + 2 ≤ buffMaxLen - offset) :
    Reports (text ++ events.flatten ++ str ">") offset m
        (appendEvents buffMaxLen offset text.length events) ↔
      events = [] ∨ 2 * ((text.length : ℤ) + events.flatten.length) < buffMaxLen - offset := by
  induction events generalizing text m with
  | nil =>
      rw [List.flatten_nil, List.length_nil, Nat.cast_zero, add_zero] at hfits
      have hone : (str ">").length = 1 := by decide
      have hbracket : (text.length : ℤ) + (str ">").length < buffMaxLen - offset := by omega
      obtain ⟨-, hended, hnext⟩ := call_behind hoffset hmax hread hbracket
      have hend : toInt (offset + (text ++ str ">").length) = offset + (text ++ str ">").length := by
        rw [List.length_append, hone]
        exact toInt_eq (by omega)
      rw [appendEvents, reports_cons_iff, hnext, hend, List.flatten_nil, List.append_nil]
      exact iff_of_true ⟨rfl, hended, rfl⟩ (.inl rfl)
  | cons event events ih =>
      have htotal : ((event :: events).flatten.length : ℤ) =
          event.length + events.flatten.length := by
        rw [List.flatten_cons, List.length_append, Nat.cast_add]
      have hsum : ((text ++ event).length : ℤ) = text.length + event.length := by
        rw [List.length_append, Nat.cast_add]
      rw [htotal] at hfits
      have hevent : (text.length : ℤ) + event.length < buffMaxLen - offset := by omega
      obtain ⟨hbytes, -, hnext⟩ := call_behind hoffset hmax hread hevent
      have hthen : toInt (buffMaxLen - offset - (text ++ event).length) =
          buffMaxLen - offset - (text ++ event).length := toInt_eq (by omega)
      have hrest := ih hbytes (by omega)
      rw [List.append_assoc text] at hrest
      rw [appendEvents, reports_cons_iff, hnext, hthen, htotal, List.flatten_cons]
      split_ifs with hstop
      · -- half of the space is taken here
        refine iff_of_false (fun hreports => Bool.false_ne_true hreports.complete) ?_
        rintro (hnil | hhalf)
        · cases hnil
        · rw [hsum] at hstop
          omega
      · rw [hrest, hsum, add_assoc]
        constructor
        · rintro (rfl | hhalf)
          · rw [List.flatten_nil, List.length_nil]
            exact .inr (by omega)
          · exact .inr hhalf
        · rintro (hnil | hhalf)
          · cases hnil
          · exact .inr hhalf

/-- A report that fits, whatever was in the buffer before. -/
theorem collectEvents_reports_iff (hoffset : 0 ≤ offset) (hlt : offset < buffMaxLen)
    (hmax : buffMaxLen < 2 ^ 31)
    (hfits : (header.length : ℤ) + events.flatten.length + 2 ≤ buffMaxLen - offset) :
    Reports (header ++ events.flatten ++ str ">") offset m
        (collectEvents header events buffMaxLen offset) ↔
      events = [] ∨ 2 * ((header.length : ℤ) + events.flatten.length) < buffMaxLen - offset := by
  have hlen : toInt (length header) = header.length := by
    rw [length_eq (by omega), toInt_eq (by omega)]
  have hheader : (header.length : ℤ) < buffMaxLen - offset := by omega
  have hbytes := (@Call.readBytes_apply _ _ m 0 _ _ hoffset (Int.add_zero offset).symm hheader
    (by omega)).1
  rw [Nat.zero_add, readBytes, List.nil_append] at hbytes
  rw [collectEvents, reports_cons_iff, toInt_left hoffset hlt hmax, hlen]
  exact appendEvents_reports_iff hoffset hmax hbytes hfits

/-- **A report that fits is put into the buffer if and only if the list is empty or the report
takes less than half of the space.** -/
theorem listCollector_reports_iff (c : ListCollector) (m : Memory) {buffMaxLen offset : ℤ}
    (hoffset : 0 ≤ offset) (hlt : offset < buffMaxLen) (hmax : buffMaxLen < 2 ^ 31)
    (hfits : (c.report.length : ℤ) + 1 ≤ buffMaxLen - offset) :
    Reports c.report offset m (c.collect buffMaxLen offset) ↔
      c.entries = [] ∨
        2 * ((c.header.length : ℤ) + c.entries.flatten.length) < buffMaxLen - offset := by
  have hone : (str ">").length = 1 := by decide
  rw [ListCollector.report, List.length_append, List.length_append, hone] at hfits
  push_cast at hfits
  rw [c.collect_eq]
  exact collectEvents_reports_iff hoffset hlt hmax (by omega)

/-- The keepalive timer and one with an argument. -/
def twoTimers : ListCollector := .timer 2 [⟨4096, 256, 0, 1000⟩, ⟨8192, 512, 64, 250⟩]

/-- Their report, behind 100 other bytes. -/
theorem listCollector_reports_iff_two :
    Reports twoTimers.report 100 (fun _ => 1) (twoTimers.collect 1024 100) :=
  (listCollector_reports_iff twoTimers (fun _ => 1) (by norm_num) (by norm_num)
    (by norm_num) (by decide +kernel)).mpr (.inr (by decide +kernel))

/-- Twelve timers. -/
def twelveTimers : ListCollector := .timer 12 (List.replicate 12 ⟨4096, 256, 0, 1000⟩)

/-- Their report takes some 600 of 1024 bytes, and is refused. -/
theorem listCollector_refuses :
    (twelveTimers.report.length : ℤ) + 1 ≤ 1024 - 0 ∧
      ¬ Reports twelveTimers.report 0 (fun _ => 0) (twelveTimers.collect 1024 0) := by
  refine ⟨by decide +kernel, fun h => ?_⟩
  have hrefused : (twelveTimers.collect 1024 0).complete = false := by decide
  exact Bool.false_ne_true (hrefused.symm.trans h.complete)

end MyWorkEnv
