import MyWorkEnv.MyUtils.Msg.Framing

/-!
# The streams `RecvMsg` accepts

`recvLoops` is evaluated on arbitrary bytes, which need not come from
`SendMsg`. The header's length is a `uint32_t` that passes through the `int`
`recvLen`: from `2^31` on it is negative there, so neither the size test nor
the content loop sees it, and the frame is accepted with a `ContentLen` far
beyond `VarLenCont` (`recvMsg_acceptsWellFormed_iff`).
-/

namespace MyWorkEnv

open FixedWidth Transfer

/-- The big-endian length in header bytes 4..7. -/
def wireContentLen (bs : List UInt8) : ℕ := load .big (field bs 4 4)

/-- How many content bytes the loop goes for. -/
def contentWanted (bs : List UInt8) : ℕ := (cInt (.ofNat (wireContentLen bs))).toNat

theorem wireContentLen_lt (bs : List UInt8) : wireContentLen bs < 2 ^ 32 := by
  have hlt := load_lt .big (field bs 4 4)
  have hlen : (field bs 4 4).length ≤ 4 := by simp [field]
  have hpow : 256 ^ (field bs 4 4).length ≤ 256 ^ 4 := Nat.pow_le_pow_right (by norm_num) hlen
  exact lt_of_lt_of_le hlt (le_trans hpow (by norm_num))

theorem toNat_wireContentLen (bs : List UInt8) :
    (UInt32.ofNat (wireContentLen bs)).toNat = wireContentLen bs := by
  rw [UInt32.toNat_ofNat']
  exact Nat.mod_eq_of_lt (wireContentLen_lt bs)

theorem contentWanted_of_lt {bs : List UInt8} (h : wireContentLen bs < 2 ^ 31) :
    contentWanted bs = wireContentLen bs := by
  unfold contentWanted
  rw [cInt_of_lt (by rwa [toNat_wireContentLen]), toNat_wireContentLen, Int.toNat_natCast]

theorem contentWanted_of_ge {bs : List UInt8} (h : 2 ^ 31 ≤ wireContentLen bs) :
    contentWanted bs = 0 := by
  unfold contentWanted
  have hneg := cInt_of_ge (v := .ofNat (wireContentLen bs)) (by rwa [toNat_wireContentLen])
  exact Int.toNat_of_nonpos hneg.le

/-- The received header carries the length on the wire, on either host. -/
theorem contentLen_ofMem (e : Endian) {bs : List UInt8} (h : 40 ≤ bs.length) :
    ((MyMsgHead.ofMem e (bs.take 40)).ntoh e).contentLen = .ofNat (wireContentLen bs) := by
  have hmem : (buffer sizeofMyMsgHead (bs.take 40)).toList = bs.take 40 :=
    toList_buffer (by simpa using h)
  have hfield : field (bs.take 40) 4 4 = field bs 4 4 := by
    simp [field, List.drop_take, List.take_take]
  have hlen : (field bs 4 4).length = 4 := length_field (by omega)
  simp only [MyMsgHead.ntoh, MyMsgHead.ofMem, hmem, hfield]
  exact ntohl_load e hlen

/-! ## The program on arbitrary bytes -/

variable {e : Endian} {bs : List UInt8}

theorem recvLoops_eval_short_head (h : bs.length < 40) (fin : Halt) :
    ((recvLoops e).eval ⟨bs, fin⟩).1.ret = haltCode fin ∧
      ((recvLoops e).eval ⟨bs, fin⟩).2.bytes = [] := by
  unfold recvLoops
  rw [ReadLoops.eval_read_short h]
  exact ⟨rfl, rfl⟩

/-- The size test sees the length as an `int`. -/
theorem recvLoops_eval_tooLong (h : 40 ≤ bs.length) (fin : Halt)
    (hmax : myMsgContentMaxLen < wireContentLen bs) (hint : wireContentLen bs < 2 ^ 31) :
    ((recvLoops e).eval ⟨bs, fin⟩).1.ret = -myEinval ∧
      ((recvLoops e).eval ⟨bs, fin⟩).2.bytes = bs.drop 40 := by
  have hsize : cInt (.ofNat (wireContentLen bs)) > (myMsgContentMaxLen : ℤ) := by
    rw [cInt_of_lt (by rwa [toNat_wireContentLen]), toNat_wireContentLen]
    exact_mod_cast hmax
  unfold recvLoops
  rw [ReadLoops.eval, if_pos h]
  simp only [contentLen_ofMem e h, if_pos hsize, ReadLoops.eval, and_self]

/-- A length the size test lets through: small enough, or negative as `int`. -/
def Passes (bs : List UInt8) : Prop :=
  wireContentLen bs ≤ myMsgContentMaxLen ∨ 2 ^ 31 ≤ wireContentLen bs

theorem Passes.not_tooLong (h : Passes bs) :
    ¬ cInt (.ofNat (wireContentLen bs)) > (myMsgContentMaxLen : ℤ) := by
  rcases h with hle | hge
  · have hlt : wireContentLen bs < 2 ^ 31 := lt_of_le_of_lt hle (by norm_num)
    rw [cInt_of_lt (by rwa [toNat_wireContentLen]), toNat_wireContentLen]
    exact_mod_cast hle.not_gt
  · have hneg := cInt_of_ge (v := .ofNat (wireContentLen bs)) (by rwa [toNat_wireContentLen])
    have hmax : (0 : ℤ) ≤ (myMsgContentMaxLen : ℤ) := Int.natCast_nonneg _
    omega

/-- Past the size test, the content and the tail are read one after the other. -/
theorem recvLoops_eval_passes (h : 40 ≤ bs.length) (hp : Passes bs) (fin : Halt) :
    (128 + contentWanted bs ≤ bs.length →
      ((recvLoops e).eval ⟨bs, fin⟩).1.ret = mySuccess ∧
      ((recvLoops e).eval ⟨bs, fin⟩).1.msg.head.contentLen.toNat = wireContentLen bs ∧
      ((recvLoops e).eval ⟨bs, fin⟩).2.bytes = bs.drop (128 + contentWanted bs)) ∧
    (bs.length < 128 + contentWanted bs →
      ((recvLoops e).eval ⟨bs, fin⟩).1.ret = haltCode fin ∧
      ((recvLoops e).eval ⟨bs, fin⟩).2.bytes = []) := by
  have hwanted : (cInt (.ofNat (wireContentLen bs))).toNat = contentWanted bs := rfl
  unfold recvLoops
  rw [ReadLoops.eval, if_pos h]
  simp only [contentLen_ofMem e h, if_neg hp.not_tooLong, hwanted, ReadLoops.eval,
    List.length_drop]
  constructor
  · intro hfull
    have hcont : contentWanted bs ≤ bs.length - sizeofMyMsgHead := by
      unfold sizeofMyMsgHead
      omega
    have htail : sizeofMyMsgTail ≤ bs.length - sizeofMyMsgHead - contentWanted bs := by
      unfold sizeofMyMsgHead sizeofMyMsgTail
      omega
    have hdrop : 40 + contentWanted bs + 88 = 128 + contentWanted bs := by omega
    rw [if_pos hcont, if_pos htail]
    refine ⟨rfl, ?_, ?_⟩
    · simp only [contentLen_ofMem e h, toNat_wireContentLen]
    · simp only [List.drop_drop, hdrop]
  · intro hshort
    by_cases hcont : contentWanted bs ≤ bs.length - sizeofMyMsgHead
    · have htail : ¬ sizeofMyMsgTail ≤ bs.length - sizeofMyMsgHead - contentWanted bs := by
        unfold sizeofMyMsgHead sizeofMyMsgTail
        omega
      rw [if_pos hcont, if_neg htail]
      exact ⟨rfl, rfl⟩
    · rw [if_neg hcont]
      exact ⟨rfl, rfl⟩

/-! ## The call -/

/-- What `eval` says about a finished call on a stream that holds `bs` and ends. -/
def Evaluates (e : Endian) (bs : List UInt8) (c : RecvCall) : Prop :=
  c.ret = ((recvLoops e).eval ⟨bs, .closed⟩).1.ret ∧
    c.retMsg = some ((recvLoops e).eval ⟨bs, .closed⟩).1.msg ∧
    c.consumed = bs.length - ((recvLoops e).eval ⟨bs, .closed⟩).2.bytes.length

/-- The kernel's answers are not in what a finished call makes of the stream. -/
theorem recvMsg_evaluates {stats : MyMsgStats} (hstats : stats.inited = true) {retMsg : MyMsg}
    {as as' : List ReadAnswer} {inb' : Inbound UInt8} {c : RecvCall}
    (ha : ReadLoops.Benign isRetry as)
    (h : recvMsg e stats (some retMsg) as ⟨bs, .closed⟩ = some (c, as', inb')) :
    Evaluates e bs c := by
  obtain ⟨out, hrun, rfl⟩ := recvMsg_eq_some hstats h
  have heval := ReadLoops.run_eq_eval ha hrun
  unfold Evaluates
  rw [heval]
  exact ⟨rfl, rfl, rfl⟩

/-- The call returns on every schedule that goes on delivering. -/
theorem recvMsg_returns {stats : MyMsgStats} (hstats : stats.inited = true)
    {σ : ℕ → ReadAnswer} (hσ : FairReads isRetry σ) (retMsg : MyMsg) (inb : Inbound UInt8) :
    ∃ n c as' inb',
      recvMsg e stats (some retMsg) (firstAnswers σ n) inb = some (c, as', inb') := by
  obtain ⟨n, hn⟩ := hσ.exists_grants (inb.bytes.length + 1)
  obtain ⟨out, as', inb', hrun, -, -⟩ :=
    recvLoops_runs e (hσ.firstAnswers_benign n) inb hn
  exact ⟨n, _, as', inb', by simp only [recvMsg, hstats, hrun]; rfl⟩

/-- Exactly the well-formed frames are accepted, out of a stream that holds
`bs` and ends. -/
structure AcceptsWellFormed (bs : List UInt8) (c : RecvCall) : Prop where
  success_iff : c.ret = mySuccess ↔ 40 ≤ bs.length ∧
    wireContentLen bs ≤ myMsgContentMaxLen ∧ 128 + wireContentLen bs ≤ bs.length
  accepted : c.ret = mySuccess → c.consumed = 128 + wireContentLen bs ∧
    ∃ m, c.retMsg = some m ∧ m.head.contentLen.toNat = wireContentLen bs ∧
      m.head.contentLen.toNat ≤ myMsgContentMaxLen
  tooLong : 40 ≤ bs.length → myMsgContentMaxLen < wireContentLen bs →
    c.ret = -myEinval ∧ c.consumed = 40
  short : bs.length < 40 ∨ (wireContentLen bs ≤ myMsgContentMaxLen ∧
    bs.length < 128 + wireContentLen bs) → c.ret = -myErrPeerClosed

variable {c : RecvCall}

theorem acceptsWellFormed_of_short_head (hc : Evaluates e bs c) (h : bs.length < 40) :
    AcceptsWellFormed bs c := by
  have hret : c.ret = -myErrPeerClosed := by
    rw [hc.1, (recvLoops_eval_short_head h .closed).1]
    rfl
  have hne : c.ret ≠ mySuccess := by rw [hret]; decide
  refine ⟨?_, fun hs => absurd hs hne, fun h40 => absurd h (by omega), fun _ => hret⟩
  constructor
  · intro hs
    exact absurd hs hne
  · rintro ⟨h40, -, -⟩
    omega

theorem acceptsWellFormed_of_tooLong (hc : Evaluates e bs c) (h : 40 ≤ bs.length)
    (hmax : myMsgContentMaxLen < wireContentLen bs) (hint : wireContentLen bs < 2 ^ 31) :
    AcceptsWellFormed bs c := by
  obtain ⟨heval, hrest⟩ := recvLoops_eval_tooLong (e := e) h .closed hmax hint
  have hret : c.ret = -myEinval := by rw [hc.1, heval]
  have hconsumed : c.consumed = 40 := by
    rw [hc.2.2, hrest, List.length_drop]
    omega
  have hne : c.ret ≠ mySuccess := by rw [hret]; decide
  refine ⟨?_, fun hs => absurd hs hne, fun _ _ => ⟨hret, hconsumed⟩, ?_⟩
  · constructor
    · intro hs
      exact absurd hs hne
    · rintro ⟨-, hle, -⟩
      omega
  · rintro (hlt | ⟨hle, -⟩)
    · omega
    · omega

theorem acceptsWellFormed_of_fits (hc : Evaluates e bs c) (h : 40 ≤ bs.length)
    (hle : wireContentLen bs ≤ myMsgContentMaxLen) : AcceptsWellFormed bs c := by
  have hwanted : contentWanted bs = wireContentLen bs :=
    contentWanted_of_lt (lt_of_le_of_lt hle (by norm_num))
  obtain ⟨hfull, hshort⟩ := recvLoops_eval_passes (e := e) h (Or.inl hle) .closed
  rw [hwanted] at hfull hshort
  by_cases hlen : 128 + wireContentLen bs ≤ bs.length
  · obtain ⟨heval, hcontent, hrest⟩ := hfull hlen
    have hret : c.ret = mySuccess := by rw [hc.1, heval]
    have hconsumed : c.consumed = 128 + wireContentLen bs := by
      rw [hc.2.2, hrest, List.length_drop]
      omega
    refine ⟨⟨fun _ => ⟨h, hle, hlen⟩, fun _ => hret⟩, fun _ => ⟨hconsumed, ?_⟩, ?_, ?_⟩
    · exact ⟨_, hc.2.1, hcontent, by rwa [hcontent]⟩
    · intro _ hmax
      omega
    · rintro (hlt | ⟨-, hlt⟩)
      · omega
      · omega
  · have hret : c.ret = -myErrPeerClosed := by
      rw [hc.1, (hshort (by omega)).1]
      rfl
    have hne : c.ret ≠ mySuccess := by rw [hret]; decide
    refine ⟨?_, fun hs => absurd hs hne, ?_, fun _ => hret⟩
    · constructor
      · intro hs
        exact absurd hs hne
      · rintro ⟨-, -, hfit⟩
        omega
    · intro _ hmax
      omega

/-- A negative `recvLen`: accepted or short, but never refused. -/
theorem not_acceptsWellFormed_of_negative (hc : Evaluates e bs c) (h : 40 ≤ bs.length)
    (hge : 2 ^ 31 ≤ wireContentLen bs) : ¬ AcceptsWellFormed bs c := by
  intro hwf
  obtain ⟨hfull, hshort⟩ := recvLoops_eval_passes (e := e) h (Or.inr hge) .closed
  have hmax : myMsgContentMaxLen < wireContentLen bs := lt_of_lt_of_le (by norm_num) hge
  obtain ⟨hret, -⟩ := hwf.tooLong h hmax
  rw [hc.1] at hret
  by_cases hlen : 128 + contentWanted bs ≤ bs.length
  · rw [(hfull hlen).1] at hret
    exact absurd hret (by decide)
  · rw [(hshort (by omega)).1] at hret
    exact absurd hret (by decide)

theorem acceptsWellFormed_iff (hc : Evaluates e bs c) :
    AcceptsWellFormed bs c ↔ bs.length < 40 ∨ wireContentLen bs < 2 ^ 31 := by
  constructor
  · intro hwf
    by_contra hcond
    rw [not_or, not_lt, not_lt] at hcond
    exact not_acceptsWellFormed_of_negative hc hcond.1 hcond.2 hwf
  · intro hcond
    by_cases h : bs.length < 40
    · exact acceptsWellFormed_of_short_head hc h
    have hlt : wireContentLen bs < 2 ^ 31 := hcond.resolve_left h
    by_cases hle : wireContentLen bs ≤ myMsgContentMaxLen
    · exact acceptsWellFormed_of_fits hc (by omega) hle
    · exact acceptsWellFormed_of_tooLong hc (by omega) (by omega) hlt

/-- **Acceptance.** `RecvMsg` returns on every closed stream, and it accepts
exactly the well-formed frames when and only when the header's length, if the
stream gets that far, fits an `int`. -/
theorem recvMsg_acceptsWellFormed_iff (e : Endian) (bs : List UInt8) {stats : MyMsgStats}
    (hstats : stats.inited = true) {σ : ℕ → ReadAnswer} (hσ : FairReads isRetry σ)
    (retMsg : MyMsg) :
    (∃ n c as' inb', recvMsg e stats (some retMsg) (firstAnswers σ n) ⟨bs, .closed⟩ =
      some (c, as', inb')) ∧
    ∀ n c as' inb', recvMsg e stats (some retMsg) (firstAnswers σ n) ⟨bs, .closed⟩ =
      some (c, as', inb') →
      (AcceptsWellFormed bs c ↔ bs.length < 40 ∨ wireContentLen bs < 2 ^ 31) := by
  constructor
  · exact recvMsg_returns hstats hσ retMsg ⟨bs, .closed⟩
  · intro n c as' inb' h
    exact acceptsWellFormed_iff (recvMsg_evaluates hstats (hσ.firstAnswers_benign n) h)

/-- A header that announces `2^31` content bytes, and a tail. -/
def negativeLenFrame : List UInt8 :=
  [0, 0, 0, 0, 0x80, 0, 0, 0] ++ List.replicate 120 0

/-- A message all of whose bytes are zero. -/
def zeroMsg (e : Endian) : MyMsg := ⟨.ofMem e [], ⟨buffer _ []⟩, .ofMem e []⟩

theorem fairReads_const (retry : ℕ → Bool) (k : ℕ) : FairReads retry (fun _ => .upTo k) where
  benign := by
    intro i e he
    exact absurd he (by simp)
  recurs i := ⟨i, le_rfl, rfl⟩

/-- The frame is well past the limit, and accepted. -/
theorem recvMsg_accepts_negativeLenFrame :
    myMsgContentMaxLen < wireContentLen negativeLenFrame ∧
    ∃ n c as' inb', recvMsg .little .fresh (some (zeroMsg .little))
        (firstAnswers (fun _ => .upTo 63) n) ⟨negativeLenFrame, .closed⟩ =
          some (c, as', inb') ∧
      c.ret = mySuccess ∧ c.consumed = 128 ∧
      (∃ m, c.retMsg = some m ∧ m.head.contentLen.toNat = 2 ^ 31) ∧
      ¬ AcceptsWellFormed negativeLenFrame c := by
  have hlen : wireContentLen negativeLenFrame = 2 ^ 31 := by decide
  have hbytes : negativeLenFrame.length = 128 := by simp [negativeLenFrame]
  have h40 : 40 ≤ negativeLenFrame.length := by omega
  have hσ := fairReads_const isRetry 63
  have hfresh : MyMsgStats.fresh.inited = true := rfl
  obtain ⟨n, c, as', inb', h⟩ :=
    recvMsg_returns (e := .little) hfresh hσ (zeroMsg .little) ⟨negativeLenFrame, .closed⟩
  have hc : Evaluates .little negativeLenFrame c :=
    recvMsg_evaluates hfresh (hσ.firstAnswers_benign n) h
  have hge : 2 ^ 31 ≤ wireContentLen negativeLenFrame := by rw [hlen]
  have hwanted : contentWanted negativeLenFrame = 0 := contentWanted_of_ge hge
  have hfull : 128 + contentWanted negativeLenFrame ≤ negativeLenFrame.length := by omega
  have hpasses : Passes negativeLenFrame := Or.inr hge
  obtain ⟨hret, hcontent, hrest⟩ :=
    (recvLoops_eval_passes (e := .little) h40 hpasses .closed).1 hfull
  refine ⟨by rw [hlen]; norm_num, n, c, as', inb', h, by rw [hc.1, hret], ?_, ?_, ?_⟩
  · rw [hc.2.2, hrest, List.length_drop]
    omega
  · exact ⟨_, hc.2.1, by rw [hcontent, hlen]⟩
  · exact not_acceptsWellFormed_of_negative hc h40 hge

/-- A header that announces two bytes, the two bytes and a tail. -/
def wholeFrame : List UInt8 :=
  [0, 0, 0, 0, 0, 0, 0, 2] ++ List.replicate 32 0 ++ [0x68, 0x69] ++ List.replicate 88 0

/-- It is accepted on an endless supply of single bytes, and what follows is left. -/
theorem recvMsg_acceptsWellFormed_iff_whole :
    ∃ n c as' inb', recvMsg .big .fresh (some (zeroMsg .big))
        (firstAnswers (fun _ => .upTo 0) n) ⟨wholeFrame ++ [1, 2, 3], .closed⟩ =
          some (c, as', inb') ∧ c.ret = mySuccess ∧ c.consumed = 130 := by
  have hfresh : MyMsgStats.fresh.inited = true := rfl
  obtain ⟨⟨n, c, as', inb', h⟩, hall⟩ := recvMsg_acceptsWellFormed_iff .big
    (wholeFrame ++ [1, 2, 3]) hfresh (fairReads_const isRetry 0) (zeroMsg .big)
  have hlen : wireContentLen (wholeFrame ++ [1, 2, 3]) = 2 := by decide
  have hbytes : (wholeFrame ++ [1, 2, 3]).length = 133 := by simp [wholeFrame]
  have hwf := (hall n c as' inb' h).mpr (.inr (by omega))
  have hret : c.ret = mySuccess := hwf.success_iff.mpr (by rw [hlen, hbytes]; decide)
  have hconsumed := (hwf.accepted hret).1
  rw [hlen] at hconsumed
  exact ⟨n, c, as', inb', h, hret, hconsumed⟩

/-! ## However the stream is delivered -/

/-- With these answers the call returns `c`, and leaves `rest` on the stream. -/
def ReturnsOn (e : Endian) (stats : MyMsgStats) (retMsg : Option MyMsg) (σ : ℕ → ReadAnswer)
    (inb : Inbound UInt8) (c : RecvCall) (rest : Inbound UInt8) : Prop :=
  ∃ n as', recvMsg e stats retMsg (firstAnswers σ n) inb = some (c, as', rest)

variable {stats : MyMsgStats} {retMsg : Option MyMsg} {σ τ : ℕ → ReadAnswer}
  {inb rest rest' : Inbound UInt8} {c' : RecvCall}

/-- A call that does not get to its loops. -/
theorem recvMsg_early (e : Endian) (inb : Inbound UInt8)
    (h : stats.inited = false ∨ retMsg = none) :
    ∃ c, ∀ as, recvMsg e stats retMsg as inb = some (c, as, inb) := by
  rcases h with hinited | rfl
  · exact ⟨_, fun as => by simp only [recvMsg, hinited]; rfl⟩
  · cases hinited : stats.inited with
    | false => exact ⟨_, fun as => by simp only [recvMsg, hinited]; rfl⟩
    | true => exact ⟨_, fun as => by simp only [recvMsg, hinited]; rfl⟩

theorem recvMsg_same {as as' bs bs' : List ReadAnswer} (ha : ReadLoops.Benign isRetry as)
    (hb : ReadLoops.Benign isRetry bs)
    (h : recvMsg e stats retMsg as inb = some (c, as', rest))
    (h' : recvMsg e stats retMsg bs inb = some (c', bs', rest')) : c = c' ∧ rest = rest' := by
  by_cases hearly : stats.inited = false ∨ retMsg = none
  · obtain ⟨out, hout⟩ := recvMsg_early e inb hearly
    rw [hout, Option.some.injEq, Prod.mk.injEq, Prod.mk.injEq] at h h'
    exact ⟨h.1.symm.trans h'.1, h.2.2.symm.trans h'.2.2⟩
  · rw [not_or, Bool.not_eq_false] at hearly
    obtain ⟨hinited, hne⟩ := hearly
    obtain ⟨msg, rfl⟩ := Option.ne_none_iff_exists'.mp hne
    -- both runs of the loops give what `eval` gives
    obtain ⟨out, hrun, rfl⟩ := recvMsg_eq_some hinited h
    obtain ⟨out', hrun', rfl⟩ := recvMsg_eq_some hinited h'
    have heval := (ReadLoops.run_eq_eval ha hrun).symm.trans (ReadLoops.run_eq_eval hb hrun')
    rw [Prod.mk.injEq] at heval
    obtain ⟨rfl, rfl⟩ := heval
    exact ⟨rfl, rfl⟩

theorem returnsOn (hσ : FairReads isRetry σ) (e : Endian) (stats : MyMsgStats)
    (retMsg : Option MyMsg) (inb : Inbound UInt8) :
    ∃ c rest, ReturnsOn e stats retMsg σ inb c rest := by
  by_cases hearly : stats.inited = false ∨ retMsg = none
  · obtain ⟨c, hc⟩ := recvMsg_early e inb hearly
    exact ⟨c, inb, 0, [], hc []⟩
  · rw [not_or, Bool.not_eq_false] at hearly
    obtain ⟨msg, rfl⟩ := Option.ne_none_iff_exists'.mp hearly.2
    obtain ⟨n, c, as', rest, h⟩ := recvMsg_returns (e := e) hearly.1 hσ msg inb
    exact ⟨c, rest, n, as', h⟩

/-- **However a stream is split up, and however often a read has to be repeated, the call
returns, and with the same code, the same message and the same bytes consumed.** -/
theorem recvMsg_fragmentation (e : Endian) (stats : MyMsgStats) (retMsg : Option MyMsg)
    (inb : Inbound UInt8) (hσ : FairReads isRetry σ) (hτ : FairReads isRetry τ) :
    (∃ c rest, ReturnsOn e stats retMsg σ inb c rest) ∧
    ∀ c rest c' rest', ReturnsOn e stats retMsg σ inb c rest →
      ReturnsOn e stats retMsg τ inb c' rest' →
      c.ret = c'.ret ∧ c.consumed = c'.consumed ∧ c.retMsg = c'.retMsg ∧ c.stats = c'.stats ∧
        rest = rest' := by
  refine ⟨returnsOn hσ e stats retMsg inb, ?_⟩
  rintro c rest c' rest' ⟨m, as', h⟩ ⟨n, bs', h'⟩
  obtain ⟨rfl, rfl⟩ :=
    recvMsg_same (hσ.firstAnswers_benign m) (hτ.firstAnswers_benign n) h h'
  exact ⟨rfl, rfl, rfl, rfl, rfl⟩

/-- A whole frame, a byte at a time or seven at once with retries in between. -/
theorem recvMsg_fragmentation_whole :
    ∃ c c' rest rest', ReturnsOn .little .fresh (some (zeroMsg .little)) (fun _ => .upTo 0)
        ⟨wholeFrame, .closed⟩ c rest ∧
      ReturnsOn .little .fresh (some (zeroMsg .little)) haltingReads
        ⟨wholeFrame, .closed⟩ c' rest' ∧
      c.ret = mySuccess ∧ c'.ret = mySuccess ∧ c.consumed = c'.consumed ∧
        c.retMsg = c'.retMsg := by
  have hsingle := fairReads_const isRetry 0
  obtain ⟨⟨c, rest, h⟩, hsame⟩ := recvMsg_fragmentation .little .fresh (some (zeroMsg .little))
    ⟨wholeFrame, .closed⟩ hsingle fairReads_halting
  obtain ⟨c', rest', h'⟩ := returnsOn fairReads_halting .little .fresh (some (zeroMsg .little))
    ⟨wholeFrame, .closed⟩
  obtain ⟨hret, hconsumed, hmsg, -, -⟩ := hsame c rest c' rest' h h'
  obtain ⟨n, as', hcall⟩ := h
  have hc : Evaluates .little wholeFrame c :=
    recvMsg_evaluates rfl (hsingle.firstAnswers_benign n) hcall
  have hlen : wireContentLen wholeFrame = 2 := by decide
  have hbytes : wholeFrame.length = 130 := by simp [wholeFrame]
  have hwf := (acceptsWellFormed_iff hc).mpr (.inr (by omega))
  have hsuccess : c.ret = mySuccess := hwf.success_iff.mpr (by rw [hlen, hbytes]; decide)
  exact ⟨c, c', rest, rest', ⟨n, as', hcall⟩, h', hsuccess, hret.symm.trans hsuccess, hconsumed,
    hmsg⟩

end MyWorkEnv
