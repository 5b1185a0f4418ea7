import MyWorkEnv.MyUtils.Mem.Ledger

/-!
# Blocks a module owns

A module that keeps its own structures in memory allocates and frees them under
its id. `Owns s i ptrs others` says of the ledger what such a module relies on:
slot `i` is registered, the blocks `ptrs` are out under this registration, each
once, and beside them `others`. A call of the module changes `ptrs` and leaves
`others` alone.
-/

namespace MyWorkEnv

open Ledger MyMemWorker MemLedger

theorem MemLedger.calloc_block_of_ne {s : MemLedger} {memId : ℤ} {size addr other : ℕ}
    (h : other ≠ addr) :
    (s.calloc memId size addr).2.mem.heap.block other = s.mem.heap.block other := by
  rcases s.calloc_cases memId size addr with hsame | ⟨i, hslot, hsize⟩
  · rw [hsame]
  · rw [calloc_granted hslot hsize]
    exact Function.update_of_ne h _ _

/-- `mine` are the blocks at `ptrs`. -/
structure MemLedger.Owns (s : MemLedger) (i : Fin myMemModuleMaxNum) (ptrs : List ℕ)
    (others : List LiveBlock) : Prop where
  accounts : s.Accounts
  registered : (s.mem.worker.nodes i).registered = true
  blocks : ∃ mine : List LiveBlock, (mine.map LiveBlock.ptr).Perm ptrs ∧
    (∀ b ∈ mine, b.slot = i ∧ b.reg = s.reg i) ∧ s.live.Perm (mine ++ others)

namespace MemLedger.Owns

variable {s : MemLedger} {i : Fin myMemModuleMaxNum} {ptrs ptrs' : List ℕ} {ptr : ℕ}
  {others : List LiveBlock}

theorem perm (h : s.Owns i ptrs others) (hp : ptrs.Perm ptrs') : s.Owns i ptrs' others := by
  obtain ⟨mine, hptrs, hmine, hlive⟩ := h.blocks
  exact ⟨h.accounts, h.registered, mine, hptrs.trans hp, hmine, hlive⟩

theorem mem_live (h : s.Owns i ptrs others) (hptr : ptr ∈ ptrs) :
    ∃ b ∈ s.live, b.ptr = ptr ∧ b.slot = i ∧ b.reg = s.reg i := by
  obtain ⟨mine, hptrs, hmine, hlive⟩ := h.blocks
  obtain ⟨b, hb, rfl⟩ := List.mem_map.mp (hptrs.mem_iff.mpr hptr)
  exact ⟨b, hlive.mem_iff.mpr (List.mem_append_left others hb), rfl, hmine b hb⟩

theorem nodup (h : s.Owns i ptrs others) : ptrs.Nodup := by
  obtain ⟨mine, hptrs, -, hlive⟩ := h.blocks
  have hnodup := (hlive.map LiveBlock.ptr).nodup_iff.mp h.accounts.nodup
  rw [List.map_append] at hnodup
  exact hptrs.nodup_iff.mp hnodup.of_append_left

theorem ptr_ne_zero (h : s.Owns i ptrs others) (hptr : ptr ∈ ptrs) : ptr ≠ 0 := by
  obtain ⟨b, hb, rfl, -⟩ := h.mem_live hptr
  have hge := (h.accounts.prefixed b hb).ptr_ge
  have hpos : 0 < sizeofMemPrefix := by decide
  omega

/-- A module's own allocation succeeds where `calloc` does. -/
theorem calloc (h : s.Owns i ptrs others) {size addr : ℕ} (hsize : size ≤ 0x7fffffff)
    (haddr : s.mem.heap.block addr = none) :
    (s.calloc (i : ℕ) size addr).1 = addr + sizeofMemPrefix ∧
      (s.calloc (i : ℕ) size addr).2.Owns i ((addr + sizeofMemPrefix) :: ptrs) others := by
  have hslot := registeredSlot_eq_some.mpr ⟨rfl, h.registered⟩
  have hret := calloc_granted hslot hsize addr
  obtain ⟨mine, hptrs, hmine, hlive⟩ := h.blocks
  have haccounts := h.accounts.calloc (i : ℕ) size haddr
  rw [hret] at haccounts ⊢
  refine ⟨rfl, haccounts, ?_, ⟨addr + sizeofMemPrefix, i, s.reg i, size⟩ :: mine,
    hptrs.cons _, ?_, hlive.cons _⟩
  · simp only [countAlloced, setNode_self]
    exact h.registered
  · intro b hb
    rcases List.mem_cons.mp hb with rfl | hb
    · exact ⟨rfl, rfl⟩
    · exact hmine b hb

theorem free (h : s.Owns i (ptr :: ptrs) others) : (s.free (i : ℕ) ptr).Owns i ptrs others := by
  obtain ⟨b, hb, hptr, hslot, hreg⟩ := h.mem_live List.mem_cons_self
  subst hptr
  have hmay : s.MayFree (i : ℕ) b.ptr := .inr ⟨b, hb, rfl, by rw [hslot], by rw [hreg, hslot]⟩
  obtain ⟨found, hfound, -⟩ := (h.accounts.prefixed b hb).block
  have haccounts := h.accounts.free hmay
  rw [free_eq rfl h.registered (h.ptr_ne_zero List.mem_cons_self) hfound] at haccounts ⊢
  obtain ⟨mine, hptrs, hmine, hlive⟩ := h.blocks
  obtain ⟨b', hb', hptr'⟩ := List.mem_map.mp (hptrs.mem_iff.mpr List.mem_cons_self)
  have hb'live : b' ∈ s.live := hlive.mem_iff.mpr (List.mem_append_left others hb')
  obtain rfl : b' = b := List.inj_on_of_nodup_map h.accounts.nodup hb'live hb hptr'
  refine ⟨haccounts, ?_, mine.erase b', ?_, ?_, ?_⟩
  · simp only [countFreed, setNode_self]
    exact h.registered
  · have hcons : (b'.ptr :: (mine.erase b').map LiveBlock.ptr).Perm (b'.ptr :: ptrs) :=
      (((List.perm_cons_erase hb').map LiveBlock.ptr).symm).trans hptrs
    exact hcons.cons_inv
  · exact fun x hx => hmine x (List.mem_of_mem_erase hx)
  · show (s.live.eraseP fun x => x.ptr = b'.ptr).Perm _
    rw [h.accounts.eraseP_ptr hb, ← List.erase_append_left others hb']
    exact hlive.erase b'

/-! ## The registration -/

/-- Nothing is charged to a new registration. -/
theorem of_register {memId : ℤ} {name : Option (List UInt8)} (h : s.Accounts)
    (hheld : s.mem.worker.heldSlot memId = none)
    (hret : (s.register memId name).1 = mySuccess) :
    ∃ i : Fin myMemModuleMaxNum, (s.register memId name).2.2 = (i : ℕ) ∧
      (s.register memId name).2.1.Owns i [] s.live ∧
      (s.register memId name).2.1.live = s.live ∧
      ∀ b ∈ s.live, b.slot = i → b.reg < (s.register memId name).2.1.reg i := by
  rcases memRegister_cases s.mem.worker memId name with
    ⟨-, hsame⟩ | ⟨i, text, -, -, hfree, hnew⟩
  · have hsome := hsame hret
    rw [hheld] at hsome
    cases hsome
  · have hold := not_registered_of_freeSlot hfree
    refine ⟨i, ?_, ⟨h.register memId name, ?_, [], .refl _, ?_, .refl _⟩, rfl, ?_⟩
    · simp [MemLedger.register, hnew]
    · simp [MemLedger.register, hnew, MyMemNode.fresh]
    · simp
    · rintro b hb rfl
      have hle := h.reg_le b hb
      simp only [MemLedger.register, hnew, hold, setNode_self, MyMemNode.fresh, Bool.not_false,
        Bool.and_self, if_true]
      omega

/-- What is out under the registration beside the module's own blocks. -/
theorem liveBytes_eq (h : s.Owns i [] others) :
    s.liveBytes i = outstanding key LiveBlock.size others (i, s.reg i) := by
  obtain ⟨mine, hptrs, -, hlive⟩ := h.blocks
  have hnil : mine = [] := by
    have hlength := hptrs.length_eq
    simpa using hlength
  subst hnil
  exact ((hlive.filter _).map _).sum_eq

theorem unRegister (h : s.Owns i ptrs others) (hinited : s.mem.worker.inited = true) :
    (s.unRegister (i : ℕ)).2.2 = myMemModuleInvalidId ∧
      (s.unRegister (i : ℕ)).2.1.mem.worker = s.mem.worker.setNode i .zero := by
  have hheld := heldSlot_eq_some.mpr ⟨rfl, h.registered, h.accounts.wf i h.registered⟩
  simp [MemLedger.unRegister, memUnRegister, hinited, hheld]

/-- `MemUnRegister` says whether anything is out under the id beside the module's own. -/
theorem unRegister_iff (h : s.Owns i [] others) (hinited : s.mem.worker.inited = true)
    (hlt : outstanding key LiveBlock.size others (i, s.reg i) < 2 ^ 64) :
    (s.unRegister (i : ℕ)).1 = mySuccess ↔
      outstanding key LiveBlock.size others (i, s.reg i) = 0 := by
  rw [← h.liveBytes_eq] at hlt ⊢
  exact h.accounts.memUnRegister_iff hinited h.registered hlt

theorem unRegister_success (h : s.Owns i [] others) (hinited : s.mem.worker.inited = true)
    (hnone : ∀ b ∈ others, b.slot = i → b.reg < s.reg i) :
    (s.unRegister (i : ℕ)).1 = mySuccess := by
  have hzero : outstanding key LiveBlock.size others (i, s.reg i) = 0 := by
    apply outstanding_eq_zero
    intro b hb hkey
    simp only [key, Prod.mk.injEq] at hkey
    have hlt := hnone b hb hkey.1
    omega
  rw [h.unRegister_iff hinited (by rw [hzero]; decide), hzero]

end MemLedger.Owns

/-! ## Calls of others -/

/-- What is charged to slot `i` stays as it is, or becomes more. -/
structure MemLedger.Spares (s s' : MemLedger) (i : Fin myMemModuleMaxNum) : Prop where
  registered : (s.mem.worker.nodes i).registered = true →
    (s'.mem.worker.nodes i).registered = true
  reg : s'.reg i = s.reg i
  live : ∀ b ∈ s.live, b.slot = i → b ∈ s'.live

namespace MemLedger

variable {s : MemLedger} {i j : Fin myMemModuleMaxNum} {memId : ℤ}

theorem Spares.refl (s : MemLedger) (i : Fin myMemModuleMaxNum) : s.Spares s i :=
  ⟨id, rfl, fun _ hb _ => hb⟩

theorem spares_register (memId : ℤ) (name : Option (List UInt8))
    (hi : (s.mem.worker.nodes i).registered = true) :
    s.Spares (s.register memId name).2.1 i := by
  rcases memRegister_cases s.mem.worker memId name with ⟨hsame, -⟩ | ⟨j, text, -, -, hfree, hnew⟩
  · have heq : (s.register memId name).2.1 = s := by simp [MemLedger.register, hsame]
    rw [heq]
    exact .refl s i
  · have hne : i ≠ j := by
      rintro rfl
      rw [not_registered_of_freeSlot hfree] at hi
      cases hi
    refine ⟨fun hreg => ?_, ?_, fun b hb _ => hb⟩
    · simpa [MemLedger.register, hnew, setNode_of_ne hne] using hreg
    · simp [MemLedger.register, hnew, setNode_of_ne hne]

theorem spares_unRegister (hne : memId ≠ (i : ℕ)) : s.Spares (s.unRegister memId).2.1 i := by
  rcases memUnRegister_cases s.mem.worker memId with ⟨hsame, -⟩ | ⟨j, -, hheld, hnew⟩
  · have heq : (s.unRegister memId).2.1 = s := by simp [MemLedger.unRegister, hsame]
    rw [heq]
    exact .refl s i
  · have hij : i ≠ j := by
      rintro rfl
      exact hne (heldSlot_eq_some.mp hheld).1
    refine ⟨fun hreg => ?_, rfl, fun b hb _ => hb⟩
    simpa [MemLedger.unRegister, hnew, setNode_of_ne hij] using hreg

theorem registered_free (memId : ℤ) (ptr : ℕ) :
    ((s.free memId ptr).mem.worker.nodes i).registered = (s.mem.worker.nodes i).registered := by
  simp only [MemLedger.free, memFree]
  split_ifs
  · rfl
  · cases hslot : s.mem.worker.registeredSlot memId with
    | none => rfl
    | some j =>
        cases hfound : s.mem.heap.block (ptr - sizeofMemPrefix) with
        | none => rfl
        | some found =>
            simp only [countFreed]
            by_cases hij : i = j
            · subst hij
              rw [setNode_self]
            · rw [setNode_of_ne hij]

theorem mainModId_free (memId : ℤ) (ptr : ℕ) :
    (s.free memId ptr).mem.worker.mainModId = s.mem.worker.mainModId := by
  simp only [MemLedger.free, memFree]
  split_ifs
  · rfl
  · cases s.mem.worker.registeredSlot memId with
    | none => rfl
    | some j => cases s.mem.heap.block (ptr - sizeofMemPrefix) <;> rfl

/-- The blocks a module owns are found by their addresses. -/
theorem owns_of_blocks {ptrs : List ℕ} (hacc : s.Accounts)
    (hreg : (s.mem.worker.nodes i).registered = true) (hnodup : ptrs.Nodup)
    (hblocks : ∀ p ∈ ptrs, ∃ b ∈ s.live, b.ptr = p ∧ b.slot = i ∧ b.reg = s.reg i) :
    s.Owns i ptrs (s.live.filter fun b => b.ptr ∉ ptrs) := by
  refine ⟨hacc, hreg, s.live.filter fun b => b.ptr ∈ ptrs, ?_, ?_, ?_⟩
  · have hmine : ((s.live.filter fun b => b.ptr ∈ ptrs).map LiveBlock.ptr).Nodup :=
      hacc.nodup.sublist ((List.filter_sublist).map _)
    rw [List.perm_ext_iff_of_nodup hmine hnodup]
    intro p
    constructor
    · intro hp
      obtain ⟨b, hb, rfl⟩ := List.mem_map.mp hp
      simpa using (List.mem_filter.mp hb).2
    · intro hp
      obtain ⟨b, hb, rfl, -⟩ := hblocks p hp
      exact List.mem_map_of_mem (List.mem_filter.mpr ⟨hb, by simpa using hp⟩)
  · intro b hb
    obtain ⟨hlive, hptr⟩ := List.mem_filter.mp hb
    obtain ⟨b', hb', hptr', hkey⟩ := hblocks b.ptr (by simpa using hptr)
    have hfind := hacc.find_ptr hlive
    rw [← hptr', hacc.find_ptr hb'] at hfind
    rw [← Option.some.inj hfind]
    exact hkey
  · have hperm := List.filter_append_perm (fun b : LiveBlock => decide (b.ptr ∈ ptrs)) s.live
    simpa using hperm.symm

end MemLedger

end MyWorkEnv
