import MyWorkEnv.MyUtils.CmdLine.Dispatch

/-!
# What a command makes the handler read

`recv` puts the bytes of any local process into the zeroed `recvBuff`, and
`_CmdServerHandleMsg` takes them for a string. The string functions may read a
string up to its NUL, and 128 bytes without one are no string in `recvBuff`. The
options that take a number have it read by `atoi` from the first space on, and
where there is no space that is `NULL`.
-/

namespace MyWorkEnv

open CString

/-- `recvBuff` after `recv`, which gives at most `sizeof(recvBuff)` bytes. -/
def recvBuff (bs : List UInt8) : List UInt8 := bs ++ List.replicate (128 - bs.length) 0

/-- A pointer that the handler has read from: into the buffer, for a function that takes a
string, or `NULL`. -/
inductive BuffRead where
  | string (pos : ℕ)
  | null
deriving DecidableEq

/-- The string ends in `recvBuff`; `mem` is what is in memory from its first byte on. -/
def BuffRead.Safe (mem : List UInt8) : BuffRead → Prop
  | .string pos => pos + (cStr (mem.drop pos)).length < 128
  | .null => False

/-- The options that `strcasestr` is called for: up to the first that occurs. -/
def testedOpts (buff : List UInt8) : List (List UInt8) → List (List UInt8)
  | [] => []
  | opt :: opts => opt :: if strcasestr buff opt then [] else testedOpts buff opts

/-- `atoi(strchr(Buff, ' '))` -/
def numberReads (buff : List UInt8) : List BuffRead :=
  .string 0 ::
    match strchr buff 32 with
    | none => [.null]
    | some rest => [.string ((cStr buff).length - rest.length)]

/-- What is read for a handler: `strlen(Buff)` and the callback, nothing more, or a
number. -/
def CmdHandler.reads (buff : List UInt8) : CmdHandler → List BuffRead
  | .external cont => .string 0 :: if cont.cb = none then [.null] else []
  | .stop | .showStat => []
  | .changeTPoolTimeout _ | .changeTPoolQueueLength _ | .changeLogLevel _ => numberReads buff

/-- All that `_CmdServerHandleMsg` reads. -/
def cmdServerHandleMsgReads (w : MyCmdExternWorker) (buff : List UInt8) : List BuffRead :=
  (testedOpts buff (serverOpts w)).map (fun _ => .string 0) ++
    (cmdServerHandleMsg w buff).elim [] (CmdHandler.reads buff)

/-- None of it is outside the buffer. -/
def ReadsSafely (w : MyCmdExternWorker) (buff : List UInt8) : Prop :=
  ∀ a ∈ cmdServerHandleMsgReads w buff, a.Safe buff

/-- The text is for one of the options with a number, as none of those that are tested before
occurs in it. -/
def TakesNumber (w : MyCmdExternWorker) (text : List UInt8) : Prop :=
  (∀ cont ∈ w.externalCmds, strcasestr text cont.opt = false) ∧
    strcasestr text MyCmdType.stop.opt = false ∧
    strcasestr text MyCmdType.showStat.opt = false ∧
    (strcasestr text MyCmdType.changeTPoolTimeout.opt = true ∨
      strcasestr text MyCmdType.changeTPoolQueueLength.opt = true ∨
      strcasestr text MyCmdType.changeLogLevel.opt = true)

/-- Every external command has a callback. -/
def HasCallbacks (w : MyCmdExternWorker) : Prop := ∀ cont ∈ w.externalCmds, cont.cb ≠ none

variable {w : MyCmdExternWorker} {bs buff : List UInt8}

/-- Registering sees to that. -/
theorem HasCallbacks.cmdExternalRegister (h : HasCallbacks w) (exit headMemory nodeMemory : Bool)
    (cont : MyCmdExternalCont) :
    HasCallbacks (cmdExternalRegister w exit headMemory nodeMemory cont).2 := by
  unfold MyWorkEnv.cmdExternalRegister
  split_ifs with hexit hhead hargs hnode
  · exact h
  · exact h
  · exact h
  · exact h
  · intro c hc
    rcases List.mem_append.mp hc with hc | hc
    · exact h c hc
    · obtain rfl := List.mem_singleton.mp hc
      exact fun hnone => hargs (.inr (.inr (.inr hnone)))

/-! ## The string in the buffer -/

/-- The bytes are a string in the buffer if there is room for a NUL, or one among them. -/
theorem cStr_recvBuff (h : bs.length < 128 ∨ 0 ∈ bs) (behind : List UInt8) :
    cStr (recvBuff bs ++ behind) = cStr bs := by
  by_cases hnul : 0 ∈ bs
  · obtain ⟨text, rest, rfl, hfirst⟩ := List.eq_append_cons_of_mem hnul
    rw [recvBuff, List.append_assoc, List.append_assoc, List.cons_append,
      cStr_append_zero hfirst, cStr_append_zero hfirst]
  · have hroom : bs.length < 128 := h.resolve_right hnul
    have hzeros : List.replicate (128 - bs.length) (0 : UInt8) =
        0 :: List.replicate (127 - bs.length) 0 := by
      rw [← List.replicate_succ]
      congr 1
      omega
    rw [recvBuff, hzeros, List.append_assoc, List.cons_append, cStr_append_zero hnul,
      cStr_of_not_mem hnul]

theorem length_cStr_le (bs : List UInt8) : (cStr bs).length ≤ bs.length :=
  (List.takeWhile_prefix _).length_le

/-- A list that is all text, and one with more behind it. -/
theorem le_length_cStr (h : 0 ∉ bs) (behind : List UInt8) :
    bs.length ≤ (cStr (bs ++ behind)).length := by
  have hall : ∀ b ∈ bs, (b != 0) = true := by
    intro b hb
    rw [bne_iff_ne]
    rintro rfl
    exact h hb
  rw [cStr, List.takeWhile_append_of_pos hall, List.length_append]
  exact Nat.le_add_right _ _

theorem length_cStr_recvBuff_lt_iff (hlen : bs.length ≤ 128) (behind : List UInt8) :
    (cStr (recvBuff bs ++ behind)).length < 128 ↔ bs.length < 128 ∨ 0 ∈ bs := by
  constructor
  · intro hlt
    by_contra hnot
    obtain ⟨hfull, hnul⟩ := not_or.mp hnot
    have hbuff : recvBuff bs = bs := by
      have hzero : 128 - bs.length = 0 := by omega
      rw [recvBuff, hzero, List.replicate_zero, List.append_nil]
    rw [hbuff] at hlt
    exact hfull ((le_length_cStr hnul behind).trans_lt hlt)
  · intro h
    rw [cStr_recvBuff h]
    rcases h with hroom | hnul
    · exact (length_cStr_le bs).trans_lt hroom
    · obtain ⟨text, rest, rfl, hfirst⟩ := List.eq_append_cons_of_mem hnul
      rw [cStr_append_zero hfirst]
      rw [List.length_append, List.length_cons] at hlen
      omega

/-- The string from a later byte on. -/
theorem cStr_drop {n : ℕ} (h : n ≤ (cStr buff).length) :
    cStr (buff.drop n) = (cStr buff).drop n := by
  induction n generalizing buff with
  | zero => rfl
  | succ n ih =>
      cases buff with
      | nil => rfl
      | cons b buff =>
          by_cases hb : b = 0
          · subst hb
            simp [cStr] at h
          · have hcons : cStr (b :: buff) = b :: cStr buff :=
              List.takeWhile_cons_of_pos (bne_iff_ne.mpr hb)
            rw [hcons, List.length_cons] at h
            rw [hcons, List.drop_succ_cons, List.drop_succ_cons]
            exact ih (Nat.le_of_succ_le_succ h)

theorem safe_string {pos : ℕ} (hpos : pos ≤ (cStr buff).length)
    (hends : (cStr buff).length < 128) : (BuffRead.string pos).Safe buff := by
  rw [BuffRead.Safe, cStr_drop hpos, List.length_drop]
  omega

theorem strchr_eq_none_iff : strchr buff 32 = none ↔ 32 ∉ cStr buff := by
  have hdrop : (cStr buff).dropWhile (· != 32) = [] ↔ 32 ∉ cStr buff := by
    rw [List.dropWhile_eq_nil_iff]
    constructor
    · intro hall hmem
      simpa using hall 32 hmem
    · intro hnot b hb
      rw [bne_iff_ne]
      rintro rfl
      exact hnot hb
  rw [← hdrop, strchr]
  split
  · rename_i hnil
    exact iff_of_true rfl hnil
  · rename_i hcons
    exact iff_of_false (fun h => by cases h) hcons

/-! ## What is read -/

theorem string_mem_reads (w : MyCmdExternWorker) (buff : List UInt8) :
    .string 0 ∈ cmdServerHandleMsgReads w buff := by
  refine List.mem_append_left _ (List.mem_map.mpr ?_)
  have hne : serverOpts w ≠ [] := by simp [serverOpts]
  obtain ⟨opt, opts, hopts⟩ := List.exists_cons_of_ne_nil hne
  exact ⟨opt, by rw [hopts, testedOpts]; exact List.mem_cons_self, rfl⟩

/-- Of a string in the buffer only strings in the buffer are read, and `NULL` if there is no
space. -/
theorem numberReads_safe_iff (hends : (cStr buff).length < 128) :
    (∀ a ∈ numberReads buff, a.Safe buff) ↔ 32 ∈ cStr buff := by
  have hfirst := safe_string (Nat.zero_le _) hends
  rw [numberReads, List.forall_mem_cons, and_iff_right hfirst]
  cases hchr : strchr buff 32 with
  | none =>
      refine iff_of_false (fun hall => hall .null (List.mem_singleton_self _)) ?_
      exact strchr_eq_none_iff.mp hchr
  | some rest =>
      refine iff_of_true ?_ ?_
      · intro a ha
        obtain rfl := List.mem_singleton.mp ha
        exact safe_string (Nat.sub_le _ _) hends
      · by_contra hnot
        rw [strchr_eq_none_iff.mpr hnot] at hchr
        cases hchr

/-- The handler that is executed reads a number, or nothing that could be wrong. -/
theorem handler_safe_iff (hw : HasCallbacks w) (hends : (cStr buff).length < 128) :
    (∀ a ∈ (cmdServerHandleMsg w buff).elim [] (CmdHandler.reads buff), a.Safe buff) ↔
      (TakesNumber w buff → 32 ∈ cStr buff) := by
  have hnumber := numberReads_safe_iff hends
  unfold cmdServerHandleMsg TakesNumber
  cases hfind : w.externalCmds.find? fun loop => strcasestr buff loop.opt with
  | some loop =>
      have hmem := List.mem_of_find?_eq_some hfind
      have hoccurs := List.find?_some hfind
      refine iff_of_true ?_ fun htakes => ?_
      · simp only [Option.elim_some, CmdHandler.reads, if_neg (hw loop hmem),
          List.forall_mem_cons]
        exact ⟨safe_string (Nat.zero_le _) hends, fun a ha => by cases ha⟩
      · rw [htakes.1 loop hmem] at hoccurs
        cases hoccurs
  | none =>
      have hnone : ∀ cont ∈ w.externalCmds, strcasestr buff cont.opt = false := by
        intro cont hcont
        exact Bool.eq_false_iff.mpr (List.find?_eq_none.mp hfind cont hcont)
      rw [and_iff_right hnone]
      split_ifs with hstop hshow htimeout hqueue hlevel
      · simp [CmdHandler.reads, hstop]
      · simp [CmdHandler.reads, hshow]
      · simpa [CmdHandler.reads, hstop, hshow, htimeout] using hnumber
      · simpa [CmdHandler.reads, hstop, hshow, htimeout, hqueue] using hnumber
      · simpa [CmdHandler.reads, hstop, hshow, htimeout, hqueue, hlevel] using hnumber
      · simp [htimeout, hqueue, hlevel]

/-- Only the string counts. -/
theorem takesNumber_congr {text : List UInt8} (h : cStr buff = cStr text) :
    TakesNumber w buff ↔ TakesNumber w text := by
  simp only [TakesNumber, strcasestr, h]

/-- **The handler stays in `recvBuff` and off `NULL` if and only if the bytes leave room for a
NUL or have one, and there is a space where a number is wanted.** -/
theorem cmdServerHandleMsg_safe_iff {w : MyCmdExternWorker} (hw : HasCallbacks w)
    {bs : List UInt8} (hlen : bs.length ≤ 128) (behind : List UInt8) :
    ReadsSafely w (recvBuff bs ++ behind) ↔
      (bs.length < 128 ∨ 0 ∈ bs) ∧ (TakesNumber w bs → 32 ∈ cStr bs) := by
  rw [← length_cStr_recvBuff_lt_iff hlen behind]
  by_cases hends : (cStr (recvBuff bs ++ behind)).length < 128
  · have hstring := cStr_recvBuff ((length_cStr_recvBuff_lt_iff hlen behind).mp hends) behind
    rw [and_iff_right hends, ← takesNumber_congr hstring, ← hstring, ← handler_safe_iff hw hends,
      ReadsSafely, cmdServerHandleMsgReads, List.forall_mem_append, and_iff_right]
    intro a ha
    obtain ⟨opt, -, rfl⟩ := List.mem_map.mp ha
    exact safe_string (Nat.zero_le _) hends
  · refine iff_of_false (fun hall => hends ?_) fun h => hends h.1
    have hfirst := hall _ (string_mem_reads w _)
    rwa [BuffRead.Safe, List.drop_zero, Nat.zero_add] at hfirst

/-- `stop`, without a NUL, and without any command registered. -/
theorem cmdServerHandleMsg_safe_iff_stop :
    ReadsSafely .start (recvBuff MyCmdType.stop.opt ++ [1, 2, 3]) :=
  (cmdServerHandleMsg_safe_iff (fun _ hc => by cases hc) (by decide) [1, 2, 3]).mpr
    ⟨.inl (by decide), fun htakes => absurd htakes.2.1 (by decide)⟩

/-- 128 bytes that are no string in the buffer. -/
def noString : List UInt8 := List.replicate 128 97

/-- They are read beyond its end, and `changeLogLevel` without a number reads from `NULL`. -/
theorem cmdServerHandleMsg_unsafe :
    ¬ ReadsSafely .start (recvBuff noString) ∧
      ¬ ReadsSafely .start (recvBuff MyCmdType.changeLogLevel.opt) := by
  constructor
  · intro h
    have hfirst := h _ (string_mem_reads _ _)
    exact absurd hfirst (by unfold BuffRead.Safe; decide +kernel)
  · intro h
    have hnull : .null ∈ cmdServerHandleMsgReads .start
        (recvBuff MyCmdType.changeLogLevel.opt) := by
      decide
    exact h _ hnull

end MyWorkEnv
