import MyWorkEnv.Lib.SharedStream
import MyWorkEnv.MyUtils.Msg.Acceptance

/-!
# Two `SendMsg` calls on one connection

Replies are sent by pool workers and by the event loop, on the same fd and
without a lock between them. `twoSends` are two such calls, each making its
`send` calls when it likes. If neither call sends while the other is under
way, the client decodes both messages (`twoSends_decodes`); otherwise the
pieces mix (`twoSends_mix`).
-/

namespace MyWorkEnv

open FixedWidth Transfer Transition

variable (e : Endian) (past : ℕ → UInt8) (calls : Fin 2 → MyMsg × Timeval)

/-- The two threads inside `SendMsg`, past its tests. -/
abbrev twoSends : System (Shared (Fin 2) UInt8 MsgResult) (SharedCall (Fin 2)) :=
  sharedStream isRetry fun i => sendLoops e past (calls i).1 (calls i).2

/-- A call makes a `send` only when the other one has sent nothing or all. -/
abbrev OneAtATime (s : Shared (Fin 2) UInt8 MsgResult) (c : SharedCall (Fin 2)) : Prop :=
  Alone (fun i => sendLoops e past (calls i).1 (calls i).2) s c

/-- Two `RecvMsg` calls get the two messages in some order and take up every
byte of the connection, however the kernel answers them. -/
def DecodesToBoth (wire : List UInt8) : Prop :=
  ∀ (stats : MyMsgStats) (retMsg : MyMsg) (σ : ℕ → ReadAnswer), stats.inited = true →
    FairReads isRetry σ →
    ∃ order : List (Fin 2), order.Perm [0, 1] ∧
      ∃ n got, recvMsgs e 2 stats (some retMsg) (firstAnswers σ n) ⟨wire, .closed⟩ = some got ∧
        List.Forall₂ (fun i c => Received (calls i).1 (calls i).2.ms c) order got ∧
        (got.map RecvCall.consumed).sum = wire.length

variable {e past calls}

theorem wholly_sendLoops
    (hlen : ∀ i, (calls i).1.head.contentLen.toNat ≤ myMsgContentMaxLen)
    (order : List (Fin 2)) :
    wholly (fun i => sendLoops e past (calls i).1 (calls i).2) order =
      framesOf e (order.map calls) := by
  simp only [wholly, framesOf, List.map_map]
  congr 1
  apply List.map_congr_left
  intro i _
  exact sendLoops_bytes e past (calls i).2 (hlen i)

theorem received_consumed {order : List (Fin 2)} {got : List RecvCall}
    (hlen : ∀ i, (calls i).1.head.contentLen.toNat ≤ myMsgContentMaxLen)
    (h : List.Forall₂ (fun i c => Received (calls i).1 (calls i).2.ms c) order got) :
    (got.map RecvCall.consumed).sum = (framesOf e (order.map calls)).length := by
  induction h with
  | nil => rfl
  | @cons i c order got hic _ ih =>
      have hframe := length_frame (e := e) (calls i).2 (hlen i)
      have hsplit : framesOf e ((i :: order).map calls) =
          frame e (calls i).1 (calls i).2 ++ framesOf e (order.map calls) := rfl
      rw [hsplit, List.length_append, List.map_cons, List.sum_cons, ih, hframe, hic.consumed]

/-- Whole frames, in whichever order, are decoded. -/
theorem decodesToBoth_of_order {order : List (Fin 2)}
    (hlen : ∀ i, (calls i).1.head.contentLen.toNat ≤ myMsgContentMaxLen)
    (horder : order.Perm [0, 1]) :
    DecodesToBoth e calls (framesOf e (order.map calls)) := by
  intro stats retMsg σ hstats hσ
  obtain ⟨n, hn⟩ := hσ.exists_grants ((framesOf e (order.map calls)).length +
    ([] : List UInt8).length + (order.map calls).length)
  have hcalls : ∀ call ∈ order.map calls,
      call.1.head.contentLen.toNat ≤ myMsgContentMaxLen := by
    intro call hcall
    obtain ⟨i, -, rfl⟩ := List.mem_map.mp hcall
    exact hlen i
  obtain ⟨got, hrecv, hall⟩ :=
    recvMsgs_frames (e := e) retMsg hcalls hstats (hσ.firstAnswers_benign n) hn
  have htwo : (order.map calls).length = 2 := by simp [horder.length_eq]
  rw [htwo, List.append_nil] at hrecv
  rw [List.forall₂_map_left_iff] at hall
  exact ⟨order, horder, n, got, hrecv, hall, received_consumed hlen hall⟩

/-- **Serial replies.** In every run in which a call sends only when the other
has sent nothing or all, the connection of two finished calls decodes. -/
theorem twoSends_decodes
    (hlen : ∀ i, (calls i).1.head.contentLen.toNat ≤ myMsgContentMaxLen)
    {s : Shared (Fin 2) UInt8 MsgResult}
    (h : Reach (twoSends e past calls) (OneAtATime e past calls) s)
    (hdone : ∀ i, Finished s i) : DecodesToBoth e calls s.stream := by
  have hne : ∀ i, (sendLoops e past (calls i).1 (calls i).2).bytes ≠ [] := by
    intro i hnil
    rw [sendLoops_bytes e past (calls i).2 (hlen i)] at hnil
    have hframe := length_frame (e := e) (calls i).2 (hlen i)
    rw [hnil, List.length_nil] at hframe
    omega
  obtain ⟨order, hnodup, hmem, hstream⟩ := stream_of_reach h hdone hne
  have horder : order.Perm [0, 1] := by
    rw [List.perm_ext_iff_of_nodup hnodup (by decide)]
    intro i
    simp only [hmem i, true_iff]
    fin_cases i <;> simp
  rw [hstream, wholly_sendLoops hlen]
  exact decodesToBoth_of_order hlen horder

/-- What `echo a` and `echo b` are answered with, type `MY_MSG_TYPE_EXEC_CMD_REPLY`. -/
def echoReply (c : UInt8) : MyMsg where
  head := ⟨myMsgVerMagic, 0, 0, 10001, 2, 0, 0, buffer 24 []⟩
  cont := ⟨buffer _ [c, 0x0a]⟩
  tail := ⟨buffer 16 [], 0, buffer 64 []⟩

def echoReplies : Fin 2 → MyMsg × Timeval
  | 0 => (echoReply 0x61, ⟨0, 0⟩)
  | 1 => (echoReply 0x62, ⟨0, 0⟩)

/-- One reply after the other. -/
theorem twoSends_decodes_serial :
    DecodesToBoth .little echoReplies (exec (twoSends .little (fun _ => 0) echoReplies)
      ⟨fun i => sendLoops .little (fun _ => 0) (echoReplies i).1 (echoReplies i).2, []⟩
      [⟨1, .wrote 40⟩, ⟨1, .fail eAgain⟩, ⟨1, .wrote 2⟩, ⟨1, .wrote 88⟩, ⟨0, .wrote 30⟩,
        ⟨0, .wrote 99⟩, ⟨0, .wrote 2⟩, ⟨0, .wrote 88⟩]).stream :=
  twoSends_decodes (by decide) (Reach.exec (.init rfl) (by decide))
    (by decide)

/-! ## Mixed pieces -/

/-- Both headers first, then the rest of one reply after the other. -/
def headsFirst : List (SharedCall (Fin 2)) :=
  [⟨0, .wrote 40⟩, ⟨1, .wrote 40⟩, ⟨0, .wrote 2⟩, ⟨0, .wrote 88⟩, ⟨1, .wrote 2⟩,
    ⟨1, .wrote 88⟩]

def mixedReplies : Shared (Fin 2) UInt8 MsgResult :=
  exec (twoSends .little (fun _ => 0) echoReplies)
    ⟨fun i => sendLoops .little (fun _ => 0) (echoReplies i).1 (echoReplies i).2, []⟩
    headsFirst

theorem mixedReplies_reachable :
    Reachable (twoSends .little (fun _ => 0) echoReplies) mixedReplies :=
  Reach.exec (.init rfl) (by decide)

/-- The first message the client decodes has the head of the second reply
where its tail should be. -/
theorem mixedReplies_first_tail :
    ((recvLoops .little).eval ⟨mixedReplies.stream, .closed⟩).1.msg.tail.reserved ≠
      buffer 16 [] := by
  decide +kernel

/-- **Mixed replies.** With both headers first, neither reply is decoded. -/
theorem twoSends_mix :
    ∃ s, Reachable (twoSends .little (fun _ => 0) echoReplies) s ∧ (∀ i, Finished s i) ∧
      ¬ DecodesToBoth .little echoReplies s.stream := by
  refine ⟨mixedReplies, mixedReplies_reachable, ?_, ?_⟩
  · decide
  · intro hdec
    obtain ⟨order, -, n, got, hrecv, hall, -⟩ :=
      hdec .fresh (zeroMsg .little) _ rfl (fairReads_const isRetry 255)
    obtain ⟨c, as', inb', cs, rfl, hfirst, -⟩ := recvMsgs_succ hrecv
    have hc : Evaluates .little mixedReplies.stream c :=
      recvMsg_evaluates rfl ((fairReads_const isRetry 255).firstAnswers_benign n) hfirst
    cases hall with
    | @cons i _ _ _ hreceived _ =>
        obtain ⟨m, hm, -, -, -, -, -, -, -, -, -, hreserved, -, -⟩ := hreceived.retMsg
        rw [hc.2.1, Option.some.injEq] at hm
        rw [← hm] at hreserved
        have hzero : (echoReplies i).1.tail.reserved = buffer 16 [] := by
          fin_cases i <;> rfl
        exact mixedReplies_first_tail (hreserved.trans hzero)

end MyWorkEnv
