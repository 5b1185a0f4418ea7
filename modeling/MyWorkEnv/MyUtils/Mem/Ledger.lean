import Mathlib.Data.UInt
import MyWorkEnv.Lib.Ledger
import MyWorkEnv.Lib.Transition
import MyWorkEnv.MyUtils.Mem.Mem

/-!
# The allocation ledger

Beside the module stands the ledger it is meant to keep: the blocks that are
out, each with the slot it was charged to, and which of the slot's
registrations that was. The counters of a registered slot differ by what is out
under its present registration, also when they have wrapped, so that they agree
just when nothing is out. Every operation keeps this (`Accounts`), those of
`MemModuleInit` and `MemModuleExit` included.
-/

namespace MyWorkEnv

open Ledger MyMemWorker Transition

/-- What `MemCalloc` returned, the slot and registration it was charged to, and what was
asked for. -/
structure LiveBlock where
  ptr : ℕ
  slot : Fin myMemModuleMaxNum
  reg : ℕ
  size : ℕ
deriving DecidableEq

structure MemLedger where
  mem : Mem
  live : List LiveBlock
  reg : Fin myMemModuleMaxNum → ℕ

namespace MemLedger

variable {s : MemLedger} {memId : ℤ} {size : ℕ} {i j : Fin myMemModuleMaxNum}

def key (b : LiveBlock) : Fin myMemModuleMaxNum × ℕ := (b.slot, b.reg)

/-- What is out under the present registration of the slot. -/
def liveBytes (s : MemLedger) (i : Fin myMemModuleMaxNum) : ℕ :=
  outstanding key LiveBlock.size s.live (i, s.reg i)

/-! ## The calls, entered into the ledger -/

def register (s : MemLedger) (memId : ℤ) (name : Option (List UInt8)) : ℤ × MemLedger × ℤ :=
  let r := memRegister s.mem.worker memId name
  (r.1,
    { s with
      mem := { s.mem with worker := r.2.1 }
      reg := fun i =>
        if (r.2.1.nodes i).registered && !(s.mem.worker.nodes i).registered then s.reg i + 1
        else s.reg i },
    r.2.2)

def unRegister (s : MemLedger) (memId : ℤ) : ℤ × MemLedger × ℤ :=
  let r := memUnRegister s.mem.worker memId
  (r.1, { s with mem := { s.mem with worker := r.2.1 } }, r.2.2)

def moduleInit (s : MemLedger) : ℤ × MemLedger :=
  let r := memModuleInit s.mem.worker
  (r.1,
    { s with
      mem := { s.mem with worker := r.2 }
      reg := fun i => if s.mem.worker.inited then s.reg i else s.reg i + 1 })

def moduleExit (s : MemLedger) : ℤ × MemLedger :=
  let r := memModuleExit s.mem.worker
  (r.1, { s with mem := { s.mem with worker := r.2 } })

def calloc (s : MemLedger) (memId : ℤ) (size addr : ℕ) : ℕ × MemLedger :=
  let r := memCalloc s.mem memId size (some addr)
  (r.1,
    { s with
      mem := r.2
      live :=
        match s.mem.worker.registeredSlot memId with
        | some i => if 0x7fffffff < size then s.live else ⟨r.1, i, s.reg i, size⟩ :: s.live
        | none => s.live })

def free (s : MemLedger) (memId : ℤ) (ptr : ℕ) : MemLedger :=
  { s with
    mem := memFree s.mem memId ptr
    live :=
      if ptr ≠ 0 ∧ (s.mem.worker.registeredSlot memId).isSome then
        s.live.eraseP fun b => b.ptr = ptr
      else s.live }

/-! ## The books balance -/

def ofNatHom : ℕ →+ UInt64 where
  toFun := UInt64.ofNat
  map_zero' := rfl
  map_add' := UInt64.ofNat_add

/-- The prefix of a block that is out is in front of it, with the size that was asked for. -/
structure Prefixed (s : MemLedger) (b : LiveBlock) : Prop where
  ptr_ge : sizeofMemPrefix ≤ b.ptr
  block : ∃ found, s.mem.heap.block (b.ptr - sizeofMemPrefix) = some found ∧
    found.size.toNat = b.size

structure Accounts (s : MemLedger) : Prop where
  wf : s.mem.worker.Wf
  fault : s.mem.heap.fault = false
  prefixed : ∀ b ∈ s.live, s.Prefixed b
  nodup : (s.live.map LiveBlock.ptr).Nodup
  reg_le : ∀ b ∈ s.live, b.reg ≤ s.reg b.slot
  balanced : ∀ i, (s.mem.worker.nodes i).registered = true →
    Balanced ofNatHom (s.mem.worker.nodes i).memBytesAlloced
      (s.mem.worker.nodes i).memBytesFreed (s.liveBytes i)

/-- Blocks that are given back one time only, under the id and the registration they were
allocated under. -/
def MayFree (s : MemLedger) (memId : ℤ) (ptr : ℕ) : Prop :=
  ptr = 0 ∨ ∃ b ∈ s.live, b.ptr = ptr ∧ memId = (b.slot : ℕ) ∧ b.reg = s.reg b.slot

instance (s : MemLedger) (memId : ℤ) (ptr : ℕ) : Decidable (s.MayFree memId ptr) :=
  inferInstanceAs (Decidable (_ ∨ _))

/-- A registration that nothing was charged to. -/
theorem liveBytes_of_reg_lt (h : ∀ b ∈ s.live, b.slot = i → b.reg < s.reg i) :
    s.liveBytes i = 0 := by
  apply outstanding_eq_zero
  intro b hb hkey
  simp only [key, Prod.mk.injEq] at hkey
  have hlt := h b hb hkey.1
  omega

theorem Accounts.register (h : s.Accounts) (memId : ℤ) (name : Option (List UInt8)) :
    (s.register memId name).2.1.Accounts := by
  rcases memRegister_cases s.mem.worker memId name with ⟨hsame, -⟩ | ⟨i, text, -, -, hfree, hnew⟩
  · have heq : (s.register memId name).2.1 = s := by
      simp [MemLedger.register, hsame]
    rw [heq]
    exact h
  · have hold := not_registered_of_freeSlot hfree
    have hreg : (s.register memId name).2.1.reg = Function.update s.reg i (s.reg i + 1) := by
      ext j
      by_cases hji : j = i
      · subst hji
        simp [MemLedger.register, hnew, hold, MyMemNode.fresh]
      · simp [MemLedger.register, hnew, setNode_of_ne hji, hji]
    have hworker : (s.register memId name).2.1.mem.worker =
        s.mem.worker.setNode i (.fresh i text) := by
      simp [MemLedger.register, hnew]
    refine ⟨?_, h.fault, fun b hb => ⟨(h.prefixed b hb).1, (h.prefixed b hb).2⟩, h.nodup, ?_, ?_⟩
    · rw [hworker]
      exact h.wf.setNode fun _ => MyMemNode.fresh_memModuleId i text
    · intro b hb
      have hle := h.reg_le b hb
      rw [hreg]
      by_cases hbi : b.slot = i
      · rw [hbi] at hle ⊢
        rw [Function.update_self]
        omega
      · rw [Function.update_of_ne hbi]
        exact hle
    · intro j hj
      rw [hworker] at hj ⊢
      by_cases hji : j = i
      · subst hji
        have hzero : (s.register memId name).2.1.liveBytes j = 0 := by
          apply liveBytes_of_reg_lt
          intro b hb hbj
          have hle := h.reg_le b hb
          rw [hbj] at hle
          rw [hreg, Function.update_self]
          omega
        rw [setNode_self, hzero]
        exact .zero
      · have hsame : (s.register memId name).2.1.liveBytes j = s.liveBytes j := by
          simp only [liveBytes, hreg, Function.update_of_ne hji]
          rfl
        rw [setNode_of_ne hji] at hj ⊢
        rw [hsame]
        exact h.balanced j hj

theorem Accounts.unRegister (h : s.Accounts) (memId : ℤ) :
    (s.unRegister memId).2.1.Accounts := by
  rcases memUnRegister_cases s.mem.worker memId with ⟨hsame, -⟩ | ⟨i, -, -, hnew⟩
  · have heq : (s.unRegister memId).2.1 = s := by
      simp [MemLedger.unRegister, hsame]
    rw [heq]
    exact h
  · have hworker : (s.unRegister memId).2.1.mem.worker = s.mem.worker.setNode i .zero := by
      simp [MemLedger.unRegister, hnew]
    refine ⟨?_, h.fault, fun b hb => ⟨(h.prefixed b hb).1, (h.prefixed b hb).2⟩, h.nodup,
      h.reg_le, ?_⟩
    · rw [hworker]
      exact h.wf.setNode fun hreg => absurd hreg Bool.false_ne_true
    · intro j hj
      rw [hworker] at hj ⊢
      by_cases hji : j = i
      · subst hji
        rw [setNode_self] at hj
        exact absurd hj Bool.false_ne_true
      · rw [setNode_of_ne hji] at hj ⊢
        exact h.balanced j hj

/-- Also of a module that was initialised before: nothing is charged to the new
registrations. -/
theorem accounts_moduleInit (h : s.mem.worker.inited = false) (hfault : s.mem.heap.fault = false)
    (hprefixed : ∀ b ∈ s.live, s.Prefixed b) (hnodup : (s.live.map LiveBlock.ptr).Nodup)
    (hreg : ∀ b ∈ s.live, b.reg ≤ s.reg b.slot) : s.moduleInit.2.Accounts := by
  have hworker : s.moduleInit.2.mem.worker = (memModuleInit s.mem.worker).2 := rfl
  have hnext : s.moduleInit.2.reg = fun i => s.reg i + 1 := by
    simp [MemLedger.moduleInit, h]
  have hinit := memModuleInit_eq h
  refine ⟨?_, hfault, fun b hb => ⟨(hprefixed b hb).1, (hprefixed b hb).2⟩, hnodup, ?_, ?_⟩
  · exact wf_memModuleInit h
  · intro b hb
    have hle := hreg b hb
    rw [hnext]
    exact Nat.le_succ_of_le hle
  · intro j hj
    have hzero : s.moduleInit.2.liveBytes j = 0 := by
      apply liveBytes_of_reg_lt
      rintro b hb rfl
      have hle := hreg b hb
      rw [hnext]
      exact Nat.lt_succ_of_le hle
    rw [hworker, hinit] at hj ⊢
    rw [hzero]
    by_cases hj0 : j = 0
    · subst hj0
      rw [setNode_self]
      exact .zero
    · rw [setNode_of_ne hj0] at hj
      exact absurd hj Bool.false_ne_true

theorem Accounts.moduleInit (h : s.Accounts) : s.moduleInit.2.Accounts := by
  cases hinited : s.mem.worker.inited with
  | false => exact accounts_moduleInit hinited h.fault h.prefixed h.nodup h.reg_le
  | true =>
      have heq : s.moduleInit.2 = s := by
        simp [MemLedger.moduleInit, memModuleInit, hinited]
      rw [heq]
      exact h

theorem Accounts.moduleExit (h : s.Accounts) : s.moduleExit.2.Accounts := by
  have hworker : s.moduleExit.2.mem.worker = { s.mem.worker with inited := false } := by
    simp [MemLedger.moduleExit, memModuleExit_eq]
  refine ⟨?_, h.fault, fun b hb => ⟨(h.prefixed b hb).1, (h.prefixed b hb).2⟩, h.nodup,
    h.reg_le, ?_⟩
  · rw [hworker]
    exact h.wf
  · rw [hworker]
    exact h.balanced

theorem calloc_refused (h : s.mem.worker.registeredSlot memId = none ∨ 0x7fffffff < size)
    (addr : ℕ) : s.calloc memId size addr = (0, s) := by
  cases hslot : s.mem.worker.registeredSlot memId with
  | none => simp [MemLedger.calloc, memCalloc_refused h, hslot]
  | some i =>
      have hsize : 0x7fffffff < size := h.resolve_left (by simp [hslot])
      simp [MemLedger.calloc, memCalloc_refused h, hslot, hsize]

theorem calloc_granted (hslot : s.mem.worker.registeredSlot memId = some i)
    (hsize : size ≤ 0x7fffffff) (addr : ℕ) :
    s.calloc memId size addr = (addr + sizeofMemPrefix,
      { s with
        mem :=
          { worker := s.mem.worker.countAlloced i size
            heap := { s.mem.heap with
              block := Function.update s.mem.heap.block addr
                (some ⟨.ofNat i, .ofNat 31 size, false⟩) } }
        live := ⟨addr + sizeofMemPrefix, i, s.reg i, size⟩ :: s.live }) := by
  simp [MemLedger.calloc, memCalloc_granted hslot hsize, hslot, Nat.not_lt.mpr hsize]

/-- Nothing, or a block more. -/
theorem calloc_cases (s : MemLedger) (memId : ℤ) (size addr : ℕ) :
    s.calloc memId size addr = (0, s) ∨
      ∃ i, s.mem.worker.registeredSlot memId = some i ∧ size ≤ 0x7fffffff := by
  by_cases hrefused : s.mem.worker.registeredSlot memId = none ∨ 0x7fffffff < size
  · exact .inl (calloc_refused hrefused addr)
  · rw [not_or, Nat.not_lt] at hrefused
    exact .inr ⟨_, (Option.ne_none_iff_exists'.mp hrefused.1).choose_spec, hrefused.2⟩

/-- Where `calloc` gives a block that is not out already. -/
theorem Accounts.calloc (h : s.Accounts) (memId : ℤ) (size : ℕ) {addr : ℕ}
    (haddr : s.mem.heap.block addr = none) : (s.calloc memId size addr).2.Accounts := by
  rcases s.calloc_cases memId size addr with hsame | ⟨i, hslot, hsize⟩
  · rw [hsame]
    exact h
  · rw [calloc_granted hslot hsize]
    have hother : ∀ b ∈ s.live, b.ptr - sizeofMemPrefix ≠ addr := by
      intro b hb hba
      obtain ⟨found, hfound, -⟩ := (h.prefixed b hb).block
      rw [hba, haddr] at hfound
      cases hfound
    refine ⟨h.wf.setNode fun hreg => h.wf i hreg, h.fault, ?_, ?_, ?_, ?_⟩
    · intro b hb
      rcases List.mem_cons.mp hb with rfl | hb
      · refine ⟨Nat.le_add_left _ _, ?_⟩
        simp only [Nat.add_sub_cancel, Function.update_self]
        refine ⟨_, rfl, ?_⟩
        rw [BitVec.toNat_ofNat]
        omega
      · refine ⟨(h.prefixed b hb).1, ?_⟩
        simp only [Function.update_of_ne (hother b hb)]
        exact (h.prefixed b hb).2
    · rw [List.map_cons, List.nodup_cons]
      refine ⟨?_, h.nodup⟩
      intro hptr
      obtain ⟨b, hb, hptr⟩ := List.mem_map.mp hptr
      apply hother b hb
      rw [hptr]
      exact Nat.add_sub_cancel _ _
    · intro b hb
      rcases List.mem_cons.mp hb with rfl | hb
      · exact le_refl _
      · exact h.reg_le b hb
    · intro j hj
      simp only [liveBytes, outstanding_cons, key, Prod.mk.injEq]
      by_cases hji : j = i
      · subst hji
        simp only [countAlloced, setNode_self, and_self, if_true] at hj ⊢
        rw [Nat.add_comm]
        exact (h.balanced j hj).take
      · simp only [countAlloced, setNode_of_ne hji, Ne.symm hji, false_and, if_false,
          Nat.zero_add] at hj ⊢
        exact h.balanced j hj

theorem free_eq (hptr : memId = (i : ℕ)) (hi : (s.mem.worker.nodes i).registered = true)
    {ptr : ℕ} (hne : ptr ≠ 0) {found : MyMemPrefix}
    (hfound : s.mem.heap.block (ptr - sizeofMemPrefix) = some found) :
    s.free memId ptr =
      { s with
        mem :=
          { worker := s.mem.worker.countFreed i found.size
            heap := { s.mem.heap with
              block := Function.update s.mem.heap.block (ptr - sizeofMemPrefix) none } }
        live := s.live.eraseP fun b => b.ptr = ptr } := by
  have hslot := registeredSlot_eq_some.mpr ⟨hptr, hi⟩
  simp [MemLedger.free, memFree, hne, hslot, hfound]

theorem free_unregistered {ptr : ℕ} (h : ptr = 0 ∨ s.mem.worker.registeredSlot memId = none) :
    s.free memId ptr = s := by
  rcases h with rfl | h
  · simp [MemLedger.free, memFree]
  · simp [MemLedger.free, memFree, h]

/-- Blocks are found by their address. -/
theorem Accounts.find_ptr (h : s.Accounts) {b : LiveBlock} (hb : b ∈ s.live) :
    s.live.find? (fun b' => decide (b'.ptr = b.ptr)) = some b := by
  rw [List.find?_eq_some_iff_append]
  obtain ⟨front, back, hsplit⟩ := List.append_of_mem hb
  refine ⟨by simp, front, back, hsplit, ?_⟩
  intro b' hb'
  have hnodup := h.nodup
  rw [hsplit, List.map_append, List.map_cons, List.nodup_append] at hnodup
  have hne := hnodup.2.2 b'.ptr (List.mem_map_of_mem hb') b.ptr List.mem_cons_self
  simpa using hne

/-- Blocks are told apart by their addresses. -/
theorem Accounts.eraseP_ptr (h : s.Accounts) {b : LiveBlock} (hb : b ∈ s.live) :
    (s.live.eraseP fun x => x.ptr = b.ptr) = s.live.erase b := by
  obtain ⟨-, front, back, hsplit, hfront⟩ := List.find?_eq_some_iff_append.mp (h.find_ptr hb)
  have hpass : ∀ a ∈ front, ¬ decide (a.ptr = b.ptr) = true := by
    intro a ha
    simpa using hfront a ha
  have hnotMem : b ∉ front := fun hmem => hpass b hmem (by simp)
  rw [hsplit, List.eraseP_append_right _ hpass, List.eraseP_cons_of_pos (by simp),
    List.erase_append_right _ hnotMem, List.erase_cons_head]

theorem Accounts.mem_erase (h : s.Accounts) {b b' : LiveBlock} (hb : b ∈ s.live)
    (hb' : b' ∈ s.live.erase b) : b' ∈ s.live ∧ b'.ptr ≠ b.ptr := by
  obtain ⟨hne, hmem⟩ := h.nodup.of_map.mem_erase_iff.mp hb'
  exact ⟨hmem, fun hptr => hne (List.inj_on_of_nodup_map h.nodup hmem hb hptr)⟩

theorem Accounts.free (h : s.Accounts) {ptr : ℕ} (hfree : s.MayFree memId ptr) :
    (s.free memId ptr).Accounts := by
  rcases hfree with hzero | ⟨b, hb, rfl, hid, hreg⟩
  · rw [free_unregistered (.inl hzero)]
    exact h
  cases hslot : s.mem.worker.registeredSlot memId with
  | none =>
      rw [free_unregistered (.inr hslot)]
      exact h
  | some i =>
      obtain ⟨hi, hregistered⟩ := registeredSlot_eq_some.mp hslot
      have hbi : b.slot = i := by
        rw [hi] at hid
        exact Fin.ext (Nat.cast_inj.mp hid.symm)
      obtain ⟨hge, found, hfound, hsize⟩ := h.prefixed b hb
      have hne : b.ptr ≠ 0 := by
        have hpos : 0 < sizeofMemPrefix := by decide
        omega
      rw [free_eq hi hregistered hne hfound]
      have hkept : ∀ b' ∈ s.live.eraseP fun b' => decide (b'.ptr = b.ptr),
          b' ∈ s.live ∧ b'.ptr ≠ b.ptr := by
        rw [h.eraseP_ptr hb]
        exact fun b' hb' => h.mem_erase hb hb'
      refine ⟨h.wf.setNode fun hreg => h.wf i hreg, h.fault, ?_, ?_, ?_, ?_⟩
      · intro b' hb'
        obtain ⟨hmem, hptr⟩ := hkept b' hb'
        obtain ⟨hge', hblock⟩ := h.prefixed b' hmem
        refine ⟨hge', ?_⟩
        have haddr : b'.ptr - sizeofMemPrefix ≠ b.ptr - sizeofMemPrefix := by omega
        simpa only [Function.update_of_ne haddr] using hblock
      · exact h.nodup.sublist (List.eraseP_sublist.map _)
      · exact fun b' hb' => h.reg_le b' (hkept b' hb').1
      · intro j hj
        have hgone : outstanding key LiveBlock.size
            (s.live.eraseP fun b' => decide (b'.ptr = b.ptr)) (j, s.reg j) + _ = s.liveBytes j :=
          outstanding_eraseP (h.find_ptr hb)
        simp only [key, hbi, hreg, Prod.mk.injEq] at hgone
        change Balanced _ _ _ (outstanding key LiveBlock.size
          (s.live.eraseP fun b' => decide (b'.ptr = b.ptr)) (j, s.reg j))
        by_cases hji : j = i
        · subst hji
          simp only [countFreed, setNode_self] at hj ⊢
          have hbal := h.balanced j hj
          rw [← hgone, if_pos ⟨rfl, rfl⟩, ← hsize] at hbal
          exact hbal.giveBack
        · rw [if_neg fun hkey => hji hkey.1.symm, Nat.add_zero] at hgone
          simp only [countFreed, setNode_of_ne hji] at hj ⊢
          rw [hgone]
          exact h.balanced j hj

/-- What the counters tell, as long as fewer than `2 ^ 64` bytes are out. -/
theorem Accounts.settled_iff (h : s.Accounts) (hi : (s.mem.worker.nodes i).registered = true)
    (hlt : s.liveBytes i < 2 ^ 64) :
    (s.mem.worker.nodes i).memBytesFreed = (s.mem.worker.nodes i).memBytesAlloced ↔
      s.liveBytes i = 0 := by
  apply (h.balanced i hi).settled_iff
  intro hcast
  have hnat : (UInt64.ofNat (s.liveBytes i)).toNat = 0 := by
    rw [show UInt64.ofNat (s.liveBytes i) = 0 from hcast]
    rfl
  rw [UInt64.toNat_ofNat', Nat.mod_eq_of_lt hlt] at hnat
  exact hnat

theorem Accounts.memLeakSafetyCheckWithId_iff (h : s.Accounts)
    (hinited : s.mem.worker.inited = true) (hi : (s.mem.worker.nodes i).registered = true)
    (hlt : s.liveBytes i < 2 ^ 64) :
    memLeakSafetyCheckWithId s.mem.worker (i : ℕ) = true ↔ s.liveBytes i = 0 := by
  have hslot := registeredSlot_eq_some.mpr ⟨rfl, hi⟩
  rw [memLeakSafetyCheckWithId, hinited, hslot, ← h.settled_iff hi hlt]
  simp

theorem Accounts.memUnRegister_iff (h : s.Accounts) (hinited : s.mem.worker.inited = true)
    (hi : (s.mem.worker.nodes i).registered = true) (hlt : s.liveBytes i < 2 ^ 64) :
    (memUnRegister s.mem.worker (i : ℕ)).1 = mySuccess ↔ s.liveBytes i = 0 := by
  have hheld := heldSlot_eq_some.mpr ⟨rfl, hi, h.wf i hi⟩
  rw [memUnRegister, hinited, hheld, ← h.memLeakSafetyCheckWithId_iff hinited hi hlt]
  cases memLeakSafetyCheckWithId s.mem.worker (i : ℕ) with
  | true => exact iff_of_true rfl rfl
  | false => exact iff_of_false (by decide : -myErrMemLeak ≠ mySuccess) Bool.false_ne_true

end MemLedger

/-! ## Runs -/

inductive MemCall where
  | register (memId : ℤ) (name : Option (List UInt8))
  | unRegister (memId : ℤ)
  | calloc (memId : ℤ) (size addr : ℕ)
  | free (memId : ℤ) (ptr : ℕ)

open MemLedger

def MemLedger.next (s : MemLedger) : MemCall → MemLedger
  | .register memId name => (s.register memId name).2.1
  | .unRegister memId => (s.unRegister memId).2.1
  | .calloc memId size addr => (s.calloc memId size addr).2
  | .free memId ptr => s.free memId ptr

/-- Names fit, and `calloc` succeeds, with a block that is not out. -/
def MemLedger.Enabled (s : MemLedger) : MemCall → Prop
  | .register _ name => nameFits name = true
  | .unRegister _ => True
  | .calloc _ _ addr => s.mem.heap.block addr = none
  | .free memId ptr => s.MayFree memId ptr

instance MemLedger.Enabled.decidable (s : MemLedger) : ∀ a, Decidable (s.Enabled a)
  | .register _ name => inferInstanceAs (Decidable (nameFits name = true))
  | .unRegister _ => .isTrue trivial
  | .calloc _ _ addr => inferInstanceAs (Decidable (s.mem.heap.block addr = none))
  | .free memId ptr => inferInstanceAs (Decidable (s.MayFree memId ptr))

/-- The calls that follow a `MemModuleInit`, in whatever state that found the module. -/
def memLedgerSystem : System MemLedger MemCall where
  init s := ∃ s₀ : MemLedger, s₀.mem.worker.inited = false ∧ s₀.mem.heap.fault = false ∧
    s₀.live = [] ∧ s = s₀.moduleInit.2
  enabled := MemLedger.Enabled
  next := MemLedger.next

instance (s : MemLedger) (a : MemCall) : Decidable (memLedgerSystem.enabled s a) :=
  inferInstanceAs (Decidable (s.Enabled a))

variable {s : MemLedger}

theorem accounts_of_reach (h : Reachable memLedgerSystem s) :
    s.mem.worker.inited = true ∧ s.Accounts := by
  refine h.invariant (I := fun s => s.mem.worker.inited = true ∧ s.Accounts) ?_ ?_
  · rintro s ⟨s₀, hinited, hfault, hlive, rfl⟩
    refine ⟨?_, accounts_moduleInit hinited hfault ?_ ?_ ?_⟩
    · change (memModuleInit s₀.mem.worker).2.inited = true
      rw [memModuleInit_eq hinited]
      rfl
    · simp [hlive]
    · simp [hlive]
    · simp [hlive]
  · rintro s a ⟨hinited, h⟩ ha -
    cases a with
    | register memId name =>
        refine ⟨?_, h.register memId name⟩
        rw [← hinited]
        exact memRegister_inited s.mem.worker memId name
    | unRegister memId =>
        refine ⟨?_, h.unRegister memId⟩
        rw [← hinited]
        exact memUnRegister_inited s.mem.worker memId
    | calloc memId size addr =>
        refine ⟨?_, h.calloc memId size ha⟩
        rw [← hinited]
        exact memCalloc_inited s.mem memId size (some addr)
    | free memId ptr =>
        refine ⟨?_, h.free ha⟩
        rw [← hinited]
        exact memFree_inited s.mem memId ptr

/-- **The counters of a registered id differ by the bytes that are out under it; and while
these are fewer than `2 ^ 64`, the leak check passes, and `MemUnRegister` succeeds, if and
only if there are none.** -/
theorem memLedger_exact (h : Reachable memLedgerSystem s) {i : Fin myMemModuleMaxNum}
    (hi : (s.mem.worker.nodes i).registered = true) :
    (s.mem.worker.nodes i).memBytesAlloced - (s.mem.worker.nodes i).memBytesFreed =
        .ofNat (s.liveBytes i) ∧
      (s.liveBytes i < 2 ^ 64 →
        (memLeakSafetyCheckWithId s.mem.worker (i : ℕ) = true ↔ s.liveBytes i = 0) ∧
          ((memUnRegister s.mem.worker (i : ℕ)).1 = mySuccess ↔ s.liveBytes i = 0)) := by
  obtain ⟨hinited, hacc⟩ := accounts_of_reach h
  refine ⟨hacc.balanced i hi, fun hlt => ⟨?_, ?_⟩⟩
  · exact hacc.memLeakSafetyCheckWithId_iff hinited hi hlt
  · exact hacc.memUnRegister_iff hinited hi hlt

/-- The module right after `MemModuleInit`. -/
def freshLedger : MemLedger :=
  (MemLedger.moduleInit ⟨⟨.start, ⟨fun _ => none, false⟩⟩, [], fun _ => 0⟩).2

/-- An id is taken, two blocks are allocated under it, and one of them is freed. -/
def oneBlockOut : List MemCall :=
  [.register (-1) (some (CString.ascii ['U', 'T'])), .calloc 1 4 64, .calloc 1 10 128, .free 1 72]

theorem memLedger_exact_run :
    ∃ s : MemLedger, (s.mem.worker.nodes 1).registered = true ∧ s.liveBytes 1 = 10 ∧
      (s.mem.worker.nodes 1).memBytesAlloced - (s.mem.worker.nodes 1).memBytesFreed =
        UInt64.ofNat 10 ∧
      memLeakSafetyCheckWithId s.mem.worker 1 = false ∧
      (memUnRegister s.mem.worker 1).1 ≠ mySuccess := by
  have hreach : Reachable memLedgerSystem (exec memLedgerSystem freshLedger oneBlockOut) :=
    Reach.exec (.init ⟨_, rfl, rfl, rfl, rfl⟩) (by decide)
  have hout : (exec memLedgerSystem freshLedger oneBlockOut).liveBytes 1 = 10 := by
    decide
  have hregistered :
      ((exec memLedgerSystem freshLedger oneBlockOut).mem.worker.nodes 1).registered = true := by
    decide
  obtain ⟨hbalanced, hret⟩ := memLedger_exact hreach hregistered
  rw [hout] at hbalanced hret
  obtain ⟨hcheck, hsuccess⟩ := hret (by decide)
  refine ⟨_, hregistered, hout, hbalanced, ?_, ?_⟩
  · exact Bool.eq_false_iff.mpr fun h => absurd (hcheck.mp h) (by decide)
  · exact fun h => absurd (hsuccess.mp h) (by decide)

end MyWorkEnv
