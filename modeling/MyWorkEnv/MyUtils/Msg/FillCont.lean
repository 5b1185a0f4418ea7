import MyWorkEnv.MyUtils.Msg.Layout

/-!
# `NewMsg`, `FillMsgCont` and `ClearMsgCont`

A message is built by appending pieces to its content. `FillMsgCont` refuses a
piece of no bytes and one that does not leave a byte of the content array
free; a chain of pieces joined by `||` goes through if all of them do
(`fillAll_isSome_iff`). Pointers are not modelled, as no caller passes `NULL`,
and neither are writes behind the content array, which a `ContentLen` beyond
the array would let through.
-/

namespace MyWorkEnv

open FixedWidth

/-- `Msg->Cont.VarLenCont` up to `ContentLen`. -/
def MyMsg.content (msg : MyMsg) : List UInt8 :=
  msg.cont.varLenCont.toList.take msg.head.contentLen.toNat

/-- What a `NewMsg` that succeeds returns: zeroed memory, with the version set. -/
def MyMsg.new : MyMsg where
  head := ⟨myMsgVerMagic, 0, 0, 0, 0, 0, 0, buffer _ []⟩
  cont := ⟨buffer _ []⟩
  tail := ⟨buffer _ [], 0, buffer _ []⟩

/-- `memcpy(dst + off, src, sizeof src)` -/
def memcpyAt {n : ℕ} (dst : Vector UInt8 n) (off : ℕ) (src : List UInt8) : Vector UInt8 n :=
  Vector.ofFn fun i =>
    if off ≤ i.val then (src[i.val - off]?).getD dst[i.val] else dst[i.val]

def fillMsgCont (msg : MyMsg) (fillCont : List UInt8) (fillContLen : UInt64) : ℤ × MyMsg :=
  if fillContLen = 0 then (-myEinval, msg)
  else if fillContLen ≥ .ofNat myMsgContentMaxLen - msg.head.contentLen.toUInt64 then
    (-myEnoMem, msg)
  else
    (mySuccess, { msg with
      cont := ⟨memcpyAt msg.cont.varLenCont msg.head.contentLen.toNat
        (fillCont.take fillContLen.toNat)⟩
      head := { msg.head with
        contentLen := (msg.head.contentLen.toUInt64 + fillContLen).toUInt32 } })

def clearMsgCont (msg : MyMsg) : MyMsg :=
  { msg with head := { msg.head with contentLen := 0 }, cont := ⟨buffer _ []⟩ }

/-- `FillMsgCont(..) || FillMsgCont(..) || ..`: the message if none of them fails. -/
def fillAll : MyMsg → List (List UInt8 × UInt64) → Option MyMsg
  | msg, [] => some msg
  | msg, (fillCont, len) :: parts =>
      match fillMsgCont msg fillCont len with
      | (ret, msg') => if ret ≠ mySuccess then none else fillAll msg' parts

/-! ## One piece -/

variable {msg : MyMsg} {len : UInt64}

theorem toList_memcpyAt {n : ℕ} (dst : Vector UInt8 n) {off : ℕ} {src : List UInt8}
    (h : off + src.length ≤ n) :
    (memcpyAt dst off src).toList.take (off + src.length) = dst.toList.take off ++ src := by
  apply List.ext_getElem
  · simp only [List.length_take, Vector.length_toList, List.length_append]
    omega
  · intro i h₁ h₂
    have hi : i < off + src.length := by
      simp only [List.length_take, Vector.length_toList] at h₁
      omega
    simp only [List.getElem_take, Vector.getElem_toList, memcpyAt, Vector.getElem_ofFn,
      List.getElem_append, List.length_take, Vector.length_toList]
    by_cases hoff : off ≤ i
    · have hlt : i - off < src.length := by omega
      have hidx : min off n = off := by omega
      simp [hoff, hidx, hlt]
    · have hmin : i < min off n := by omega
      simp [hoff, hmin]

/-- The room a message has left, as the code computes it. -/
theorem toNat_room (h : msg.head.contentLen.toNat ≤ myMsgContentMaxLen) :
    (UInt64.ofNat myMsgContentMaxLen - msg.head.contentLen.toUInt64).toNat =
      myMsgContentMaxLen - msg.head.contentLen.toNat := by
  have hle : msg.head.contentLen.toUInt64 ≤ UInt64.ofNat myMsgContentMaxLen := by
    rw [UInt64.le_iff_toNat_le, UInt32.toNat_toUInt64]
    exact h
  rw [UInt64.toNat_sub_of_le _ _ hle, UInt32.toNat_toUInt64]
  rfl

/-- A piece may be added. -/
def Fits (msg : MyMsg) (len : UInt64) : Prop :=
  len ≠ 0 ∧ msg.head.contentLen.toNat + len.toNat < myMsgContentMaxLen

/-- `FillMsgCont` on a message within its bounds. -/
theorem fillMsgCont_eq (fillCont : List UInt8) (len : UInt64)
    (h : msg.head.contentLen.toNat ≤ myMsgContentMaxLen) :
    (Fits msg len ∧ (fillMsgCont msg fillCont len).1 = mySuccess) ∨
      (¬ Fits msg len ∧ (fillMsgCont msg fillCont len).1 ≠ mySuccess ∧
        (fillMsgCont msg fillCont len).2 = msg) := by
  unfold fillMsgCont
  by_cases hzero : len = 0
  · right
    rw [if_pos hzero]
    exact ⟨fun hf => hf.1 hzero, (by decide : -myEinval ≠ mySuccess), rfl⟩
  rw [if_neg hzero]
  have hroom := toNat_room h
  by_cases hfull : len ≥ .ofNat myMsgContentMaxLen - msg.head.contentLen.toUInt64
  · right
    rw [if_pos hfull]
    refine ⟨?_, (by decide : -myEnoMem ≠ mySuccess), rfl⟩
    rintro ⟨-, hlt⟩
    rw [ge_iff_le, UInt64.le_iff_toNat_le, hroom] at hfull
    omega
  · left
    rw [if_neg hfull]
    refine ⟨⟨hzero, ?_⟩, rfl⟩
    rw [ge_iff_le, UInt64.le_iff_toNat_le, hroom] at hfull
    omega

theorem fillMsgCont_of_fits_eq (fillCont : List UInt8) (h : Fits msg len) :
    fillMsgCont msg fillCont len = (mySuccess, { msg with
      cont := ⟨memcpyAt msg.cont.varLenCont msg.head.contentLen.toNat
        (fillCont.take len.toNat)⟩
      head := { msg.head with
        contentLen := (msg.head.contentLen.toUInt64 + len).toUInt32 } }) := by
  obtain ⟨hzero, hlt⟩ := h
  have hle : msg.head.contentLen.toNat ≤ myMsgContentMaxLen := by omega
  have hnotfull : ¬ len ≥ .ofNat myMsgContentMaxLen - msg.head.contentLen.toUInt64 := by
    rw [ge_iff_le, UInt64.le_iff_toNat_le, toNat_room hle]
    omega
  rw [fillMsgCont, if_neg hzero, if_neg hnotfull]

/-- A length that fits has not wrapped around. -/
theorem toNat_filledLen (h : Fits msg len) :
    (msg.head.contentLen.toUInt64 + len).toUInt32.toNat =
      msg.head.contentLen.toNat + len.toNat := by
  have hlt := h.2
  have hmax : myMsgContentMaxLen < 2 ^ 32 := by norm_num
  rw [UInt64.toNat_toUInt32, UInt64.toNat_add, UInt32.toNat_toUInt64]
  omega

/-- What a piece that fits leaves in the message. -/
theorem fillMsgCont_of_fits (fillCont : List UInt8) (h : Fits msg len) :
    (fillMsgCont msg fillCont len).1 = mySuccess ∧
      (fillMsgCont msg fillCont len).2.head = { msg.head with
        contentLen := (fillMsgCont msg fillCont len).2.head.contentLen } ∧
      (fillMsgCont msg fillCont len).2.head.contentLen.toNat =
        msg.head.contentLen.toNat + len.toNat ∧
      (len.toNat ≤ fillCont.length → (fillMsgCont msg fillCont len).2.content =
        msg.content ++ fillCont.take len.toNat) := by
  have hsum := toNat_filledLen h
  rw [fillMsgCont_of_fits_eq fillCont h]
  refine ⟨rfl, rfl, hsum, ?_⟩
  intro hsrc
  have hpiece : (fillCont.take len.toNat).length = len.toNat := by simpa using hsrc
  have hlt := h.2
  have hbound : msg.head.contentLen.toNat + (fillCont.take len.toNat).length ≤
      myMsgContentMaxLen := by omega
  have hcopy := toList_memcpyAt msg.cont.varLenCont hbound
  rw [hpiece] at hcopy
  simp only [MyMsg.content, hsum]
  exact hcopy

/-! ## A chain of pieces -/

/-- **Chains.** All pieces are taken just when none is empty and there is room for
their sum. -/
theorem fillAll_isSome_iff (parts : List (List UInt8 × UInt64)) (hparts : parts ≠ [])
    (h : msg.head.contentLen.toNat ≤ myMsgContentMaxLen) :
    (fillAll msg parts).isSome = true ↔ (∀ part ∈ parts, part.2 ≠ 0) ∧
      msg.head.contentLen.toNat + (parts.map fun part => part.2.toNat).sum <
        myMsgContentMaxLen := by
  induction parts generalizing msg with
  | nil => exact absurd rfl hparts
  | cons part parts ih =>
      obtain ⟨fillCont, len⟩ := part
      simp only [fillAll, List.forall_mem_cons, List.map_cons, List.sum_cons]
      rcases fillMsgCont_eq fillCont len h with ⟨hfits, hret⟩ | ⟨hnot, hret, -⟩
      · obtain ⟨-, -, hlen, -⟩ := fillMsgCont_of_fits fillCont hfits
        rw [if_neg (not_not_intro hret)]
        by_cases hlast : parts = []
        · subst hlast
          simp only [fillAll, Option.isSome_some, List.map_nil, List.sum_nil, true_iff]
          exact ⟨⟨hfits.1, by simp⟩, hfits.2⟩
        · have hnext : (fillMsgCont msg fillCont len).2.head.contentLen.toNat ≤
              myMsgContentMaxLen := by
            rw [hlen]
            exact hfits.2.le
          rw [ih hlast hnext, hlen, add_assoc]
          exact ⟨fun hr => ⟨⟨hfits.1, hr.1⟩, hr.2⟩, fun hr => ⟨hr.1.2, hr.2⟩⟩
      · rw [if_pos hret]
        refine iff_of_false (by simp) ?_
        rintro ⟨⟨hzero, -⟩, hsum⟩
        exact hnot ⟨hzero, by omega⟩

/-- A chain that goes through has appended its pieces, and touched nothing else. -/
theorem fillAll_eq_some {parts : List (List UInt8 × UInt64)} {msg' : MyMsg}
    (hparts : ∀ part ∈ parts, part.2.toNat ≤ part.1.length)
    (hlen : msg.head.contentLen.toNat ≤ myMsgContentMaxLen)
    (h : fillAll msg parts = some msg') :
    msg'.head = { msg.head with contentLen := msg'.head.contentLen } ∧
      msg'.content = msg.content ++ (parts.map fun part => part.1.take part.2.toNat).flatten := by
  induction parts generalizing msg with
  | nil =>
      simp only [fillAll, Option.some.injEq] at h
      subst h
      simp
  | cons part parts ih =>
      obtain ⟨fillCont, len⟩ := part
      have hsrc : len.toNat ≤ fillCont.length := hparts (fillCont, len) (by simp)
      have hparts' : ∀ part ∈ parts, part.2.toNat ≤ part.1.length :=
        fun part hp => hparts part (List.mem_cons_of_mem _ hp)
      simp only [fillAll] at h
      split_ifs at h with hret
      rcases fillMsgCont_eq fillCont len hlen with ⟨hfits, -⟩ | ⟨-, hfail, -⟩
      · obtain ⟨-, hhead, hlen', hcontent⟩ := fillMsgCont_of_fits fillCont hfits
        obtain ⟨hhead', hcontent'⟩ := ih hparts' (by rw [hlen']; exact hfits.2.le) h
        constructor
        · rw [hhead', hhead]
        · rw [hcontent', hcontent hsrc, List.map_cons, List.flatten_cons, List.append_assoc]
      · exact absurd hfail hret

end MyWorkEnv
