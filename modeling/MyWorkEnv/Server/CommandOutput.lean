import MyWorkEnv.Lib.Lines
import MyWorkEnv.Server.ServerMsgHandler

/-!
# Output of any length

What `_ServerMsgExecCmdFn` sends when the output need not fit a message. The
loop takes the chunks that `fgets` makes of it one by one, and ends with the
first that `FillMsgCont` refuses. A chunk has at most 1023 bytes, so that many
bytes at most stay free, and nothing is left out of an output that fits.
-/

namespace MyWorkEnv

open CString

/-- The buffers that `fgets` fills before the pipe is read out. -/
def outputChunks (output : List UInt8) : List (List UInt8) :=
  match _h : fgets myBuff1024 output with
  | none => []
  | some (buffer, rest) => buffer :: outputChunks rest
termination_by output.length
decreasing_by exact (reads_of_fgets (by norm_num) _h).length_rest_lt

variable {msg : MyMsg} {output : List UInt8}

theorem one_lt_myBuff1024 : 1 < myBuff1024 := by norm_num

theorem outputChunks_eq (output : List UInt8) :
    outputChunks output = fgetsAll myBuff1024 one_lt_myBuff1024 output := by
  fun_induction outputChunks output with
  | case1 output hnone => rw [fgets_eq_none_iff.mp hnone, fgetsAll_nil]
  | case2 output buffer rest hsome ih => rw [fgetsAll_some one_lt_myBuff1024 hsome, ih]

theorem outputChunks_nil : outputChunks [] = [] := by
  rw [outputChunks_eq, fgetsAll_nil]

theorem outputChunks_line {buffer rest : List UInt8}
    (h : fgets myBuff1024 output = some (buffer, rest)) :
    outputChunks output = buffer :: outputChunks rest := by
  rw [outputChunks_eq, outputChunks_eq, fgetsAll_some one_lt_myBuff1024 h]

/-- The chunks make up the output. -/
theorem flatten_outputChunks (output : List UInt8) : (outputChunks output).flatten = output := by
  rw [outputChunks_eq, flatten_fgetsAll]

/-- A chunk that finds no room leaves the message as it is. -/
theorem fillMsgCont_noRoom {buffer rest : List UInt8} (h : Reads myBuff1024 output buffer rest)
    (hnul : 0 ∉ output) (hlen : msg.head.contentLen.toNat ≤ myMsgContentMaxLen)
    (hroom : myMsgContentMaxLen ≤ msg.head.contentLen.toNat + buffer.length) :
    (fillMsgCont msg buffer (.ofNat (cStr buffer).length)).1 ≠ mySuccess ∧
      (fillMsgCont msg buffer (.ofNat (cStr buffer).length)).2 = msg := by
  have hbuffer := h.cStr_line hnul
  have hnat := toNat_strlen h
  rw [hbuffer] at hnat ⊢
  rcases fillMsgCont_eq buffer (.ofNat buffer.length) hlen with ⟨hfits, -⟩ | ⟨-, hret, hsame⟩
  · have hlt := hfits.2
    omega
  · exact ⟨hret, hsame⟩

/-- The loop takes whole chunks from the front, and stops short of the last only when
less than a chunk would fit. -/
theorem readPipe_chunks (hnul : 0 ∉ output)
    (hlen : msg.head.contentLen.toNat < myMsgContentMaxLen) :
    ∃ n, (readPipe msg output).content = msg.content ++ ((outputChunks output).take n).flatten ∧
      (readPipe msg output).head.contentLen.toNat < myMsgContentMaxLen ∧
      ((outputChunks output).length ≤ n ∨
        myMsgContentMaxLen < (readPipe msg output).head.contentLen.toNat + myBuff1024) := by
  induction hn : output.length using Nat.strong_induction_on generalizing msg output with
  | _ n ih =>
      cases hline : fgets myBuff1024 output with
      | none =>
          rw [fgets_eq_none_iff.mp hline, readPipe_nil, outputChunks_nil]
          exact ⟨0, by simp, hlen, .inl le_rfl⟩
      | some line =>
          obtain ⟨buffer, rest⟩ := line
          have hreads := reads_line hline
          have hshort := hreads.length_lt
          rw [readPipe_line msg hline, outputChunks_line hline]
          by_cases hroom : msg.head.contentLen.toNat + buffer.length < myMsgContentMaxLen
          · -- the chunk is taken, and the loop goes on with the rest
            obtain ⟨hret, hsum, hcontent⟩ := fillMsgCont_line msg hreads hnul hroom
            have hlt := hreads.length_rest_lt
            obtain ⟨k, htaken, hbound, hstop⟩ := ih rest.length (by omega)
              (hreads.not_mem_rest hnul) (by rw [hsum]; exact hroom) rfl
            rw [if_neg (not_not_intro hret)]
            refine ⟨k + 1, ?_, hbound, ?_⟩
            · rw [htaken, hcontent, List.take_succ_cons, List.flatten_cons, List.append_assoc]
            · rw [List.length_cons]
              exact hstop.imp_left Nat.succ_le_succ
          · obtain ⟨hret, hsame⟩ :=
              fillMsgCont_noRoom hreads hnul hlen.le (Nat.le_of_not_lt hroom)
            rw [if_pos hret, hsame]
            refine ⟨0, by simp, hlen, .inr ?_⟩
            omega

theorem MyMsg.length_content (h : msg.head.contentLen.toNat ≤ myMsgContentMaxLen) :
    msg.content.length = msg.head.contentLen.toNat := by
  simpa [MyMsg.content] using h

/-- **Whatever text the command prints, the reply carries chunks of it from the front:
all of it if that leaves a byte free, and otherwise so much that no chunk of full length
would fit.** -/
theorem execCmd_output (env : HandlerEnv) (arg : ServerExecCmdArg)
    (hpopen : env.popen (command arg.msg) = some output) (hnul : 0 ∉ output)
    (hne : output ≠ []) :
    ∃ reply n, (serverMsgExecCmdFn env arg).sends = [(arg.fd, reply)] ∧
      reply.head.type = myMsgTypeExecCmdReply ∧
      reply.head.contentLen.toNat = reply.content.length ∧
      reply.content = ((outputChunks output).take n).flatten ∧ reply.content <+: output ∧
      (output.length ≤ 1048575 → reply.content = output) ∧
      (1048575 < output.length →
        1047553 ≤ reply.content.length ∧ reply.content.length ≤ 1048575) := by
  have hpos := readPipe_pos hnul hne (contentLen_execCmdReply arg.msg)
  have hnot : ¬ (readPipe (execCmdReply arg.msg) output).head.contentLen = 0 := by
    intro hzero
    rw [hzero] at hpos
    exact absurd hpos (Nat.lt_irrefl 0)
  have hempty : (execCmdReply arg.msg).head.contentLen.toNat = 0 := rfl
  have hnil : (execCmdReply arg.msg).content = [] := rfl
  have hcap : myMsgContentMaxLen = 1048576 := rfl
  have hbuff : myBuff1024 = 1024 := rfl
  have hroom : (execCmdReply arg.msg).head.contentLen.toNat < myMsgContentMaxLen := by omega
  obtain ⟨n, hcontent, hbound, hstop⟩ := readPipe_chunks hnul hroom
  rw [hnil, List.nil_append] at hcontent
  have hlen := MyMsg.length_content hbound.le
  have hsends : (serverMsgExecCmdFn env arg).sends =
      [(arg.fd, readPipe (execCmdReply arg.msg) output)] := by
    simp only [serverMsgExecCmdFn, hpopen, if_neg hnot]
  have hto := serverMsgExecCmdFn_repliesTo env arg
    (arg.fd, readPipe (execCmdReply arg.msg) output) (by rw [hsends]; simp)
  have hall : (outputChunks output).length ≤ n →
      (readPipe (execCmdReply arg.msg) output).content = output := by
    intro hn
    rw [hcontent, List.take_of_length_le hn, flatten_outputChunks]
  refine ⟨_, n, hsends, hto.2.type, hlen.symm, hcontent, ?_, fun hfits => ?_, fun hlong => ?_⟩
  · rw [hcontent]
    conv_rhs => rw [← flatten_outputChunks output, ← List.take_append_drop n (outputChunks output),
      List.flatten_append]
    exact List.prefix_append _ _
  · have hwhole := readPipe_content (execCmdReply arg.msg) hnul (by omega)
    rw [hwhole, hnil, List.nil_append]
  · rcases hstop with hn | hfull
    · have hwhole := congrArg List.length (hall hn)
      omega
    · omega

/-- Every command prints so many bytes, all of them an `A`. -/
def printsA (n : ℕ) : HandlerEnv := ⟨true, true, 0, 0, fun _ => some (List.replicate n 65)⟩

/-- Three buffers are sent whole, and of two million bytes more than a million. -/
theorem execCmd_output_run :
    (∃ reply, (serverMsgExecCmdFn (printsA 3000) ⟨3, .new⟩).sends = [(3, reply)] ∧
      reply.head.type = myMsgTypeExecCmdReply ∧ reply.content = List.replicate 3000 65) ∧
    ∃ reply, (serverMsgExecCmdFn (printsA 2000000) ⟨3, .new⟩).sends = [(3, reply)] ∧
      1047553 ≤ reply.content.length ∧ reply.content.length ≤ 1048575 := by
  have hnul : ∀ n, 0 ∉ List.replicate n (65 : UInt8) := by
    intro n hmem
    exact absurd (List.eq_of_mem_replicate hmem) (by decide)
  have hne : ∀ n, 0 < n → List.replicate n (65 : UInt8) ≠ [] := by
    intro n hpos
    rw [ne_eq, List.replicate_eq_nil_iff]
    exact hpos.ne'
  constructor
  · obtain ⟨reply, -, hsends, htype, -, -, -, hwhole, -⟩ :=
      execCmd_output (printsA 3000) ⟨3, .new⟩ rfl (hnul 3000) (hne 3000 (by norm_num))
    exact ⟨reply, hsends, htype, hwhole (by rw [List.length_replicate]; norm_num)⟩
  · obtain ⟨reply, -, hsends, -, -, -, -, -, hlong⟩ :=
      execCmd_output (printsA 2000000) ⟨3, .new⟩ rfl (hnul 2000000) (hne 2000000 (by norm_num))
    exact ⟨reply, hsends, hlong (by rw [List.length_replicate]; norm_num)⟩

end MyWorkEnv
