import MyWorkEnv.MyUtils.Msg.Framing

/-!
# The message after `SendMsg`

`SendMsg` converts the head, and later the time stamp, where they are in the
caller's message, and converts them back behind the loop that sends them. A
`send` that fails in that loop leaves through `CommonReturn`, past the
conversion: the caller is left with numbers in network order
(`sendMsg_hostOrder_iff`).
-/

namespace MyWorkEnv

open FixedWidth Transfer

/-- The head's numbers as they were, and a time stamp that is the old one or the time. -/
structure HostOrder (msg : MyMsg) (tv : Timeval) (msg' : MyMsg) : Prop where
  type : msg'.head.type = msg.head.type
  contentLen : msg'.head.contentLen = msg.head.contentLen
  sessionId : msg'.head.sessionId = msg.head.sessionId
  clientId : msg'.head.clientId = msg.head.clientId
  timeStamp : msg'.tail.timeStamp = msg.tail.timeStamp ∨ msg'.tail.timeStamp = tv.ms

/-- The numbers of the head read the same in network order. -/
def SameInNetOrder (e : Endian) (head : MyMsgHead) : Prop :=
  htons e head.type = head.type ∧ htonl e head.contentLen = head.contentLen ∧
    htonl e head.sessionId = head.sessionId ∧ htonl e head.clientId = head.clientId

/-- If a `send` of the head fails, its numbers read the same in network order; and if one of
the tail fails, the time does, or looks like the old stamp then. -/
def FailsHarmlessly (e : Endian) (msg : MyMsg) (tv : Timeval) (as : List WriteAnswer) : Prop :=
  match WriteLoops.outcome isRetry sizeofMyMsgHead as with
  | .waiting => True
  | .cut _ => SameInNetOrder e msg.head
  | .out left =>
      match WriteLoops.outcome isRetry (cInt msg.head.contentLen).toNat left with
      | .waiting | .cut _ => True
      | .out left =>
          match WriteLoops.outcome isRetry sizeofMyMsgTail left with
          | .waiting | .out _ => True
          | .cut _ => myUtilHtonll e tv.ms = msg.tail.timeStamp ∨ myUtilHtonll e tv.ms = tv.ms

variable {e : Endian} {past : ℕ → UInt8} {stats : MyMsgStats} {msg : MyMsg} {tv : Timeval}
  {as as' : List WriteAnswer} {c : SendCall}

/-- Head and time stamp are not touched before they are sent, nor behind. -/
theorem hostOrder_of_head {msg' : MyMsg}
    (h : msg'.head = { msg.head with isMsgEnd := msg'.head.isMsgEnd }) :
    HostOrder msg tv msg' ↔
      msg'.tail.timeStamp = msg.tail.timeStamp ∨ msg'.tail.timeStamp = tv.ms :=
  ⟨HostOrder.timeStamp, fun hstamp =>
    ⟨by rw [h], by rw [h], by rw [h], by rw [h], hstamp⟩⟩

/-- **If `SendMsg` returns, the head of the caller's message is in host order, and its time
stamp the old one or the time, just when the failure, if there was one, was harmless.** -/
theorem sendMsg_hostOrder_iff (hinited : stats.inited = true)
    (h : sendMsg e past stats msg tv as = some (c, as')) :
    HostOrder msg tv c.msg ↔ FailsHarmlessly e msg tv as := by
  obtain ⟨out, chunks, hrun, rfl⟩ := sendMsg_eq_some hinited h
  have hout : (WriteLoops.run isRetry as (sendLoops e past msg tv)).map Prod.fst = some out := by
    rw [hrun]
    rfl
  show HostOrder msg tv out.msg ↔ _
  rw [sendLoops, WriteLoops.run_write, MyMsgHead.length_toMem] at hout
  rw [FailsHarmlessly]
  cases hhead : WriteLoops.outcome isRetry sizeofMyMsgHead as with
  | waiting =>
      rw [hhead] at hout
      cases hout
  | cut why =>
      rw [hhead] at hout
      cases hout
      constructor
      · intro hkept
        exact ⟨hkept.type, hkept.contentLen, hkept.sessionId, hkept.clientId⟩
      · rintro ⟨htype, hlen, hsession, hclient⟩
        exact ⟨htype, hlen, hsession, hclient, .inl rfl⟩
  | out left =>
      rw [hhead] at hout
      simp only [MyMsgHead.ntoh_hton, WriteLoops.run_write, afterHead, List.length_map,
        List.length_range] at hout
      simp only
      cases hcont : WriteLoops.outcome isRetry (cInt msg.head.contentLen).toNat left with
      | waiting =>
          rw [hcont] at hout
          cases hout
      | cut why =>
          rw [hcont] at hout
          cases hout
          refine Iff.trans (hostOrder_of_head rfl) ?_
          exact iff_of_true (.inl rfl) trivial
      | out left =>
          rw [hcont] at hout
          simp only [MyMsgTail.length_toMem] at hout
          simp only
          cases htail : WriteLoops.outcome isRetry sizeofMyMsgTail left with
          | waiting =>
              rw [htail] at hout
              cases hout
          | cut why =>
              rw [htail] at hout
              cases hout
              exact hostOrder_of_head rfl
          | out left =>
              rw [htail] at hout
              simp only [WriteLoops.run_done] at hout
              cases hout
              refine Iff.trans (hostOrder_of_head rfl) ?_
              exact iff_of_true (.inr (myUtilNtohll_htonll e tv.ms)) trivial

/-- The peer has reset the connection. -/
def resetAtOnce : List WriteAnswer := [.fail 104]

/-- A type of 3 comes back as `3 * 256`. -/
theorem sendMsg_netOrder : ∃ c as', sendMsg .little (fun _ => 0) .fresh hiMsg ⟨1, 0⟩ resetAtOnce =
    some (c, as') ∧ c.ret = -104 ∧ c.msg.head.type = 768 ∧ ¬ HostOrder hiMsg ⟨1, 0⟩ c.msg := by
  refine ⟨_, _, rfl, rfl, by decide, fun h => ?_⟩
  have htype := h.type
  revert htype
  decide

theorem sendMsg_hostOrder_iff_reset : ∃ c as',
    sendMsg .big (fun _ => 0) .fresh hiMsg ⟨1, 0⟩ resetAtOnce = some (c, as') ∧
      (HostOrder hiMsg ⟨1, 0⟩ c.msg ↔ FailsHarmlessly .big hiMsg ⟨1, 0⟩ resetAtOnce) := by
  have hfresh : MyMsgStats.fresh.inited = true := rfl
  have h : sendMsg .big (fun _ => 0) .fresh hiMsg ⟨1, 0⟩ resetAtOnce = some (_, _) := rfl
  exact ⟨_, _, h, sendMsg_hostOrder_iff hfresh h⟩

end MyWorkEnv
