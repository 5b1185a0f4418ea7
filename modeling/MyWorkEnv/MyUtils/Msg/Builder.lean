import MyWorkEnv.Lib.Transition
import MyWorkEnv.MyUtils.Msg.FillCont

/-!
# Messages under construction

Any sequence of `FillMsgCont` and `ClearMsgCont` on a message that `NewMsg`
returned, or that was cleared once. Beside the message stand the pieces that
were taken since it was last cleared. The content array is always these pieces
and zeros (`Built`), so the subtraction in the test of `FillMsgCont` does not
wrap, the copy stays inside the array, and a byte is left for the terminator.
-/

namespace MyWorkEnv

open Transition

/-- The first `len` bytes behind a pointer. -/
def bytesAt (mem : ℕ → UInt8) (len : UInt64) : List UInt8 := (List.range len.toNat).map mem

/-- `FillMsgCont(Msg, FillCont, FillContLen)`, with the memory behind `FillCont`, or `none`
for a `NULL` pointer. -/
def fillMsgContFrom (msg : MyMsg) (fillCont : Option (ℕ → UInt8)) (fillContLen : UInt64) :
    ℤ × MyMsg :=
  match fillCont with
  | none => (-myEinval, msg)
  | some mem => fillMsgCont msg (bytesAt mem fillContLen) fillContLen

structure MsgBuilder where
  msg : MyMsg
  pieces : List (List UInt8)

inductive BuilderCall where
  | fill (fillCont : Option (ℕ → UInt8)) (fillContLen : UInt64)
  | clear

namespace MsgBuilder

def next (s : MsgBuilder) : BuilderCall → MsgBuilder
  | .fill fillCont len =>
      let r := fillMsgContFrom s.msg fillCont len
      match fillCont with
      | none => { s with msg := r.2 }
      | some mem =>
          ⟨r.2, if r.1 = mySuccess then s.pieces ++ [bytesAt mem len] else s.pieces⟩
  | .clear => ⟨clearMsgCont s.msg, []⟩

/-- What the message is made of. -/
structure Built (s : MsgBuilder) : Prop where
  contentLen : s.msg.head.contentLen.toNat = s.pieces.flatten.length
  room : s.pieces.flatten.length < myMsgContentMaxLen
  bytes : s.msg.cont.varLenCont = buffer _ s.pieces.flatten

end MsgBuilder

def msgBuilderSystem : System MsgBuilder BuilderCall where
  init s := s.pieces = [] ∧ (s.msg = .new ∨ ∃ msg, s.msg = clearMsgCont msg)
  enabled _ _ := True
  next := MsgBuilder.next

/-! ## One call -/

variable {s : MsgBuilder} {msg : MyMsg} {mem : ℕ → UInt8} {len : UInt64}

@[simp] theorem length_bytesAt : (bytesAt mem len).length = len.toNat := by simp [bytesAt]

/-- Copied behind what an array was filled with, the bytes are as good as filled in. -/
theorem memcpyAt_buffer {n : ℕ} (got src : List UInt8) :
    memcpyAt (buffer n got) got.length src = buffer n (got ++ src) := by
  apply Vector.ext
  intro i hi
  simp only [memcpyAt, Vector.getElem_ofFn, getElem_buffer, List.getD_eq_getElem?_getD]
  by_cases hoff : got.length ≤ i
  · rw [if_pos hoff, List.getElem?_append_right hoff, List.getElem?_eq_none hoff, Option.getD_none]
  · rw [if_neg hoff, List.getElem?_append_left (by omega)]

theorem fits_iff : Fits msg len ↔
    0 < len.toNat ∧ msg.head.contentLen.toNat + len.toNat < myMsgContentMaxLen := by
  have hzero : len ≠ 0 ↔ 0 < len.toNat := by
    rw [Nat.pos_iff_ne_zero, ← UInt64.toNat_inj.ne]
    rfl
  exact and_congr_left fun _ => hzero

/-- A piece is taken if it is not empty and leaves a byte free; otherwise nothing
happens. -/
theorem fillMsgContFrom_iff (fillCont : Option (ℕ → UInt8)) (len : UInt64)
    (h : msg.head.contentLen.toNat ≤ myMsgContentMaxLen) :
    (fillCont.isSome = true → ((fillMsgContFrom msg fillCont len).1 = mySuccess ↔
      0 < len.toNat ∧ msg.head.contentLen.toNat + len.toNat < myMsgContentMaxLen)) ∧
    ((fillMsgContFrom msg fillCont len).1 ≠ mySuccess →
      (fillMsgContFrom msg fillCont len).2 = msg) := by
  cases fillCont with
  | none => exact ⟨fun hsome => absurd hsome Bool.false_ne_true, fun _ => rfl⟩
  | some mem =>
      rw [← fits_iff]
      rcases fillMsgCont_eq (bytesAt mem len) len h with ⟨hfits, hret⟩ | ⟨hnot, hret, hsame⟩
      · exact ⟨fun _ => iff_of_true hret hfits, fun hfail => absurd hret hfail⟩
      · exact ⟨fun _ => iff_of_false hret hnot, fun _ => hsame⟩

namespace MsgBuilder.Built

theorem clear (msg : MyMsg) : Built ⟨clearMsgCont msg, []⟩ :=
  ⟨rfl, Nat.zero_lt_succ _, rfl⟩

theorem contentLen_le (h : s.Built) : s.msg.head.contentLen.toNat ≤ myMsgContentMaxLen := by
  rw [h.contentLen]
  exact h.room.le

/-- A piece that fits goes behind the others. -/
theorem fill_of_fits (h : s.Built) (hfits : Fits s.msg len) :
    Built ⟨(fillMsgCont s.msg (bytesAt mem len) len).2, s.pieces ++ [bytesAt mem len]⟩ := by
  have hflat : (s.pieces ++ [bytesAt mem len]).flatten = s.pieces.flatten ++ bytesAt mem len := by
    simp
  have hpiece : (bytesAt mem len).take len.toNat = bytesAt mem len :=
    List.take_of_length_le length_bytesAt.le
  have hlen := toNat_filledLen hfits
  have hroom := hfits.2
  rw [fillMsgCont_of_fits_eq _ hfits, hpiece]
  refine ⟨?_, ?_, ?_⟩
  · rw [hflat, List.length_append, length_bytesAt, ← h.contentLen]
    exact hlen
  · rw [hflat, List.length_append, length_bytesAt, ← h.contentLen]
    exact hroom
  · rw [hflat, ← memcpyAt_buffer, ← h.bytes, ← h.contentLen]

theorem fill (h : s.Built) (fillCont : Option (ℕ → UInt8)) (len : UInt64) :
    (s.next (.fill fillCont len)).Built := by
  cases fillCont with
  | none => exact h
  | some mem =>
      rcases fillMsgCont_eq (bytesAt mem len) len h.contentLen_le with
        ⟨hfits, hret⟩ | ⟨-, hret, hsame⟩
      · have hnext : s.next (.fill (some mem) len) = ⟨(fillMsgCont s.msg (bytesAt mem len) len).2,
            s.pieces ++ [bytesAt mem len]⟩ := congrArg (MsgBuilder.mk _) (if_pos hret)
        rw [hnext]
        exact h.fill_of_fits hfits
      · have hnext : s.next (.fill (some mem) len) = s :=
          congrArg₂ MsgBuilder.mk hsame (if_neg hret)
        rw [hnext]
        exact h

end MsgBuilder.Built

/-! ## Any sequence of calls -/

theorem built_of_reach (h : Reachable msgBuilderSystem s) : s.Built := by
  apply h.invariant
  · rintro ⟨msg, pieces⟩ ⟨hpieces, hmsg⟩
    subst hpieces
    rcases hmsg with hmsg | ⟨msg', hmsg⟩
    · subst hmsg
      exact ⟨rfl, Nat.zero_lt_succ _, rfl⟩
    · subst hmsg
      exact .clear msg'
  · rintro s call hs - -
    cases call with
    | fill fillCont len => exact hs.fill fillCont len
    | clear => exact .clear s.msg

/-- **At each point the content array holds the pieces taken since the last clear, one
after the other, and otherwise zeros, one at least; a piece is taken just when it is not
empty and there is room, and a call that fails changes nothing.** -/
theorem message_builder (h : Reachable msgBuilderSystem s) :
    s.msg.head.contentLen.toNat ≤ 1048575 ∧ s.msg.content = s.pieces.flatten ∧
    (∀ i (hi : i < myMsgContentMaxLen), s.msg.head.contentLen.toNat ≤ i →
      s.msg.cont.varLenCont[i] = 0) ∧
    ∀ (fillCont : Option (ℕ → UInt8)) (len : UInt64),
      (fillCont.isSome = true → ((fillMsgContFrom s.msg fillCont len).1 = mySuccess ↔
        0 < len.toNat ∧ s.msg.head.contentLen.toNat + len.toNat < 1048576)) ∧
      ((fillMsgContFrom s.msg fillCont len).1 ≠ mySuccess →
        (fillMsgContFrom s.msg fillCont len).2 = s.msg) := by
  have hbuilt := built_of_reach h
  have hroom := hbuilt.room
  refine ⟨?_, ?_, ?_, fun fillCont len => fillMsgContFrom_iff fillCont len hbuilt.contentLen_le⟩
  · rw [hbuilt.contentLen]
    exact Nat.le_of_lt_succ hroom
  · rw [MyMsg.content, hbuilt.contentLen, hbuilt.bytes, buffer]
    simp [List.take_of_length_le hroom.le]
  · intro i hi hlen
    rw [hbuilt.contentLen] at hlen
    simp only [hbuilt.bytes]
    rw [getElem_buffer _ hi, List.getD_eq_getElem?_getD, List.getElem?_eq_none hlen, Option.getD_none]

/-- Two colons are cleared, an `A` and two dots follow, and an empty piece and a `NULL`
pointer are refused. -/
def dotsFilled : MsgBuilder :=
  exec msgBuilderSystem ⟨.new, []⟩
    [.fill (some fun _ => 58) 2, .clear, .fill (some fun _ => 65) 1, .fill (some fun _ => 58) 0,
      .fill none 5, .fill (some fun _ => 46) 2]

theorem message_builder_run :
    dotsFilled.msg.content = [65, 46, 46] ∧ dotsFilled.msg.head.contentLen.toNat ≤ 1048575 ∧
      (fillMsgContFrom dotsFilled.msg (some fun _ => 58) 1048576).1 ≠ mySuccess := by
  have hreach : Reachable msgBuilderSystem dotsFilled :=
    Reach.exec (.init ⟨rfl, .inl rfl⟩) (by simp [Legal, msgBuilderSystem])
  obtain ⟨hlen, hcontent, -, hcalls⟩ := message_builder hreach
  have hpieces : dotsFilled.pieces = [[65], [46, 46]] := rfl
  refine ⟨by rw [hcontent, hpieces]; rfl, hlen, fun hret => ?_⟩
  have hlt := (((hcalls _ _).1 rfl).mp hret).2
  have hsize : (1048576 : UInt64).toNat = 1048576 := rfl
  omega

end MyWorkEnv
