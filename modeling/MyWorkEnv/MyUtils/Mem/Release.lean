import MyWorkEnv.MyUtils.Mem.Owns

/-!
# Giving structures back

A program may unregister an id, or exit the memory module and start it again,
while a module still has blocks under the id. `Out` says no more than that the
blocks are out, each once, and survives all this; `Charged` says of a block that
the id still stands for the registration it was allocated under. Where a module
frees structures that are all charged to its id (`Releases`), just these blocks
go, and the leak check sees what is out beside them.
-/

namespace MyWorkEnv

open Ledger MyMemWorker MemLedger

theorem MyMemWorker.registeredSlot_congr {w w' : MyMemWorker}
    (h : ∀ i, (w'.nodes i).registered = (w.nodes i).registered) (memId : ℤ) :
    w'.registeredSlot memId = w.registeredSlot memId := by
  ext i
  rw [registeredSlot_eq_some, registeredSlot_eq_some, h]

theorem MyMemWorker.ne_invalidId {w : MyMemWorker} {memId : ℤ} {i : Fin myMemModuleMaxNum}
    (h : w.registeredSlot memId = some i) : memId ≠ myMemModuleInvalidId := by
  rw [(registeredSlot_eq_some.mp h).1, myMemModuleInvalidId]
  omega

namespace MemLedger

variable {s s' : MemLedger} {memId : ℤ} {i : Fin myMemModuleMaxNum} {ptr : ℕ}
  {ptrs ptrs' rest : List ℕ}

/-! ## Blocks that are out -/

structure Out (s : MemLedger) (ptrs : List ℕ) : Prop where
  nodup : ptrs.Nodup
  live : ∀ p ∈ ptrs, p ∈ s.live.map LiveBlock.ptr

theorem Out.perm (h : s.Out ptrs) (hp : ptrs.Perm ptrs') : s.Out ptrs' :=
  ⟨hp.nodup_iff.mp h.nodup, fun p hmem => h.live p (hp.mem_iff.mpr hmem)⟩

theorem Out.of_append_right (h : s.Out (ptrs ++ rest)) : s.Out rest :=
  ⟨h.nodup.of_append_right, fun p hp => h.live p (List.mem_append_right _ hp)⟩

theorem Out.of_append_left (h : s.Out (ptrs ++ rest)) : s.Out ptrs :=
  ⟨h.nodup.of_append_left, fun p hp => h.live p (List.mem_append_left _ hp)⟩

/-- Where nothing is freed. -/
theorem Out.mono (h : s.Out ptrs) (hlive : ∀ b ∈ s.live, b ∈ s'.live) : s'.Out ptrs := by
  refine ⟨h.nodup, fun p hp => ?_⟩
  obtain ⟨b, hb, rfl⟩ := List.mem_map.mp (h.live p hp)
  exact List.mem_map_of_mem (hlive b hb)

/-- New blocks come to those that were out. -/
theorem Out.of_owns (h : s.Out rest) (howns : s'.Owns i ptrs s.live) : s'.Out (ptrs ++ rest) := by
  obtain ⟨mine, hptrs, -, hlive⟩ := howns.blocks
  have hmap := hlive.map LiveBlock.ptr
  rw [List.map_append] at hmap
  have hnodup := hmap.nodup_iff.mp howns.accounts.nodup
  refine ⟨?_, fun p hp => ?_⟩
  · rw [List.nodup_append'] at hnodup ⊢
    refine ⟨hptrs.nodup_iff.mp hnodup.1, h.nodup, fun p hp hp' => ?_⟩
    exact hnodup.2.2 (hptrs.mem_iff.mpr hp) (h.live p hp')
  · rw [hmap.mem_iff, List.mem_append]
    rcases List.mem_append.mp hp with hp | hp
    · exact .inl (hptrs.mem_iff.mpr hp)
    · exact .inr (h.live p hp)

/-- Somebody frees another block. -/
theorem Out.free (h : s.Out ptrs) (hptr : ptr ∉ ptrs) : (s.free memId ptr).Out ptrs := by
  refine ⟨h.nodup, fun p hp => ?_⟩
  obtain ⟨b, hb, rfl⟩ := List.mem_map.mp (h.live p hp)
  apply List.mem_map_of_mem
  simp only [MemLedger.free]
  split_ifs
  · have hne : b.ptr ≠ ptr := fun heq => hptr (heq ▸ hp)
    exact (List.mem_eraseP_of_neg (by simpa using hne)).mpr hb
  · exact hb

theorem owns_nil (hacc : s.Accounts) (hslot : s.mem.worker.registeredSlot memId = some i) :
    s.Owns i [] s.live :=
  ⟨hacc, (registeredSlot_eq_some.mp hslot).2, [], .refl _, by simp, .refl _⟩

/-! ## Taking blocks -/

theorem registered_calloc (memId : ℤ) (size addr : ℕ) :
    ((s.calloc memId size addr).2.mem.worker.nodes i).registered =
      (s.mem.worker.nodes i).registered := by
  rcases s.calloc_cases memId size addr with hsame | ⟨j, hslot, hsize⟩
  · rw [hsame]
  · rw [calloc_granted hslot hsize]
    simp only [countAlloced]
    by_cases hij : i = j
    · subst hij
      rw [setNode_self]
    · rw [setNode_of_ne hij]

theorem register_failed {name : Option (List UInt8)}
    (h : (s.register memId name).1 ≠ mySuccess) : (s.register memId name).2 = (s, memId) := by
  rcases memRegister_cases s.mem.worker memId name with ⟨hsame, -⟩ | ⟨i, text, -, -, -, hnew⟩
  · simp [MemLedger.register, hsame]
  · exact absurd (congrArg Prod.fst hnew) h

theorem registeredSlot_of_register {name : Option (List UInt8)}
    (h : (s.register memId name).1 = mySuccess) :
    ∃ i, (s.register memId name).2.1.mem.worker.registeredSlot (s.register memId name).2.2 =
      some i := by
  rcases memRegister_cases s.mem.worker memId name with
    ⟨hsame, hheld⟩ | ⟨i, text, -, -, -, hnew⟩
  · obtain ⟨i, hi⟩ := Option.isSome_iff_exists.mp (hheld h)
    obtain ⟨hid, hreg, -⟩ := heldSlot_eq_some.mp hi
    refine ⟨i, ?_⟩
    simpa [MemLedger.register, hsame] using registeredSlot_eq_some.mpr ⟨hid, hreg⟩
  · refine ⟨i, registeredSlot_eq_some.mpr ⟨?_, ?_⟩⟩
    · simp [MemLedger.register, hnew]
    · simp [MemLedger.register, hnew, MyMemNode.fresh]

theorem mainModId_calloc (memId : ℤ) (size addr : ℕ) :
    (s.calloc memId size addr).2.mem.worker.mainModId = s.mem.worker.mainModId := by
  rcases s.calloc_cases memId size addr with hsame | ⟨i, hslot, hsize⟩
  · rw [hsame]
  · rw [calloc_granted hslot hsize]
    rfl

theorem mainModId_register (memId : ℤ) (name : Option (List UInt8)) :
    (s.register memId name).2.1.mem.worker.mainModId = s.mem.worker.mainModId := by
  rcases memRegister_cases s.mem.worker memId name with ⟨hsame, -⟩ | ⟨i, text, -, -, -, hnew⟩
  · simp [MemLedger.register, hsame]
  · simp [MemLedger.register, hnew]

theorem mainModId_unRegister (memId : ℤ) :
    (s.unRegister memId).2.1.mem.worker.mainModId = s.mem.worker.mainModId := by
  rcases memUnRegister_cases s.mem.worker memId with ⟨hsame, -⟩ | ⟨i, -, -, hnew⟩
  · simp [MemLedger.unRegister, hsame]
  · simp [MemLedger.unRegister, hnew]

/-- Blocks come, and no slot is taken or given back. -/
structure Grows (s s' : MemLedger) : Prop where
  accounts : s'.Accounts
  live : ∀ b ∈ s.live, b ∈ s'.live
  reg : s'.reg = s.reg
  registered : ∀ i, (s'.mem.worker.nodes i).registered = (s.mem.worker.nodes i).registered
  inited : s'.mem.worker.inited = s.mem.worker.inited
  mainModId : s'.mem.worker.mainModId = s.mem.worker.mainModId

namespace Grows

theorem refl (hacc : s.Accounts) : s.Grows s :=
  ⟨hacc, fun _ => id, rfl, fun _ => rfl, rfl, rfl⟩

theorem trans {s'' : MemLedger} (h : s.Grows s') (h' : s'.Grows s'') : s.Grows s'' :=
  ⟨h'.accounts, fun b hb => h'.live b (h.live b hb), h'.reg.trans h.reg,
    fun i => (h'.registered i).trans (h.registered i), h'.inited.trans h.inited,
    h'.mainModId.trans h.mainModId⟩

theorem calloc (hacc : s.Accounts) (memId : ℤ) (size : ℕ) {addr : ℕ}
    (haddr : s.mem.heap.block addr = none) : s.Grows (s.calloc memId size addr).2 := by
  refine ⟨hacc.calloc memId size haddr, fun b hb => ?_, rfl, fun _ => registered_calloc _ _ _,
    memCalloc_inited _ _ _ _, mainModId_calloc _ _ _⟩
  rcases s.calloc_cases memId size addr with hsame | ⟨i, hslot, hsize⟩
  · rw [hsame]
    exact hb
  · rw [calloc_granted hslot hsize]
    exact List.mem_cons_of_mem _ hb

theorem slot (h : s.Grows s') (memId : ℤ) :
    s'.mem.worker.registeredSlot memId = s.mem.worker.registeredSlot memId :=
  registeredSlot_congr h.registered memId

end Grows

/-- A registered id gets two blocks. -/
theorem calloc_calloc_ret (hslot : s.mem.worker.registeredSlot memId = some i)
    {size size' : ℕ} (hsize : size ≤ 0x7fffffff) (hsize' : size' ≤ 0x7fffffff) (a b : ℕ) :
    (s.calloc memId size a).1 = a + sizeofMemPrefix ∧
      ((s.calloc memId size a).2.calloc memId size' b).1 = b + sizeofMemPrefix := by
  have hslot' : (s.calloc memId size a).2.mem.worker.registeredSlot memId = some i :=
    (registeredSlot_congr (fun _ => registered_calloc _ _ _) memId).trans hslot
  exact ⟨congrArg Prod.fst (calloc_granted hslot hsize a),
    congrArg Prod.fst (calloc_granted hslot' hsize' b)⟩

/-- Two blocks, where `calloc` gives two that are not out. -/
theorem calloc_calloc (hacc : s.Accounts) (hslot : s.mem.worker.registeredSlot memId = some i)
    {size size' a b : ℕ} (hsize : size ≤ 0x7fffffff) (hsize' : size' ≤ 0x7fffffff)
    (ha : s.mem.heap.block a = none) (hb : s.mem.heap.block b = none) (hne : b ≠ a) :
    (s.calloc memId size a).1 = a + sizeofMemPrefix ∧
    ((s.calloc memId size a).2.calloc memId size' b).1 = b + sizeofMemPrefix ∧
    s.Grows ((s.calloc memId size a).2.calloc memId size' b).2 ∧
    ((s.calloc memId size a).2.calloc memId size' b).2.Owns i
      [b + sizeofMemPrefix, a + sizeofMemPrefix] s.live := by
  obtain ⟨rfl, -⟩ := registeredSlot_eq_some.mp hslot
  have hb' : (s.calloc (i : ℕ) size a).2.mem.heap.block b = none := by
    rw [calloc_block_of_ne hne]
    exact hb
  obtain ⟨hretA, hownsA⟩ := (owns_nil hacc hslot).calloc hsize ha
  obtain ⟨hretB, hownsB⟩ := hownsA.calloc hsize' hb'
  exact ⟨hretA, hretB, (Grows.calloc hacc _ size ha).trans (.calloc hownsA.accounts _ size' hb'),
    hownsB⟩

/-! ## Blocks that are charged to an id -/

def Charged (s : MemLedger) (memId : ℤ) (ptr : ℕ) : Prop :=
  ∃ b ∈ s.live, b.ptr = ptr ∧ s.mem.worker.registeredSlot memId = some b.slot ∧
    b.reg = s.reg b.slot

instance (s : MemLedger) (memId : ℤ) (ptr : ℕ) : Decidable (s.Charged memId ptr) :=
  inferInstanceAs (Decidable (∃ b ∈ s.live, _ ∧ _ ∧ _))

theorem Owns.charged {others : List LiveBlock} (h : s.Owns i ptrs others)
    (hslot : s.mem.worker.registeredSlot memId = some i) (hptr : ptr ∈ ptrs) :
    s.Charged memId ptr := by
  obtain ⟨b, hb, rfl, rfl, hreg⟩ := h.mem_live hptr
  exact ⟨b, hb, rfl, hslot, hreg⟩

theorem not_charged_invalidId : ¬ s.Charged myMemModuleInvalidId ptr := by
  rintro ⟨b, -, -, hslot, -⟩
  exact ne_invalidId hslot rfl

/-- The bytes out under what the id is registered for. -/
def chargedTo (s : MemLedger) (memId : ℤ) : ℕ :=
  (s.mem.worker.registeredSlot memId).elim 0 s.liveBytes

/-- Those of them that are not in the blocks `ptrs`. -/
def beside (s : MemLedger) (memId : ℤ) (ptrs : List ℕ) : ℕ :=
  (s.mem.worker.registeredSlot memId).elim 0 fun i =>
    outstanding key LiveBlock.size (s.live.filter fun b => b.ptr ∉ ptrs) (i, s.reg i)

theorem chargedTo_le (s : MemLedger) (memId : ℤ) :
    s.chargedTo memId ≤ (s.live.map LiveBlock.size).sum := by
  rw [chargedTo]
  cases s.mem.worker.registeredSlot memId with
  | none => exact Nat.zero_le _
  | some i => exact ((List.filter_sublist).map _).sum_le_sum fun _ _ => Nat.zero_le _

/-- **The result of `MemUnRegister`.** -/
theorem Accounts.unRegister_leak_iff (h : s.Accounts) (hlt : s.chargedTo memId < 2 ^ 64) :
    (s.unRegister memId).1 = -myErrMemLeak ↔
      s.mem.worker.inited = true ∧ 0 < s.chargedTo memId := by
  have hne : mySuccess ≠ -myErrMemLeak := by decide
  rcases memUnRegister_cases s.mem.worker memId with ⟨hsame, hheld⟩ | ⟨i, hinited, hheld, hnew⟩
  · have hret : (s.unRegister memId).1 = mySuccess := by simp [MemLedger.unRegister, hsame]
    rw [hret]
    apply iff_of_false hne
    rintro ⟨hinited, hpos⟩
    have hnone := hheld hinited
    rw [h.wf.heldSlot_eq] at hnone
    rw [chargedTo, hnone] at hpos
    exact absurd hpos (lt_irrefl 0)
  · obtain ⟨hid, hi, -⟩ := heldSlot_eq_some.mp hheld
    have hslot := registeredSlot_eq_some.mpr ⟨hid, hi⟩
    have hcharged : s.chargedTo memId = s.liveBytes i := by
      rw [chargedTo, hslot]
      rfl
    rw [hcharged] at hlt ⊢
    have hcheck := h.memLeakSafetyCheckWithId_iff hinited hi hlt
    rw [← hid] at hcheck
    have hret : (s.unRegister memId).1 =
        if memLeakSafetyCheckWithId s.mem.worker memId then mySuccess else -myErrMemLeak := by
      simp [MemLedger.unRegister, hnew]
    rw [hret, and_iff_right hinited, Nat.pos_iff_ne_zero, ne_eq, ← hcheck]
    cases memLeakSafetyCheckWithId s.mem.worker memId with
    | true => exact iff_of_false hne (not_not_intro rfl)
    | false => exact iff_of_true rfl Bool.false_ne_true

/-- Structures that are all charged to one id. -/
theorem owns_of_charged (hacc : s.Accounts) (hnodup : ptrs.Nodup)
    (hslot : s.mem.worker.registeredSlot memId = some i)
    (hcharged : ∀ p ∈ ptrs, s.Charged memId p) :
    s.Owns i ptrs (s.live.filter fun b => b.ptr ∉ ptrs) := by
  apply owns_of_blocks hacc (registeredSlot_eq_some.mp hslot).2 hnodup
  intro p hp
  obtain ⟨b, hb, hptr, hb', hreg⟩ := hcharged p hp
  rw [hslot] at hb'
  obtain rfl := Option.some.inj hb'
  exact ⟨b, hb, hptr, rfl, hreg⟩

/-! ## Freeing what is charged -/

structure Releases (s s' : MemLedger) (ptrs : List ℕ) : Prop where
  accounts : s'.Accounts
  live : s'.live.Perm (s.live.filter fun b => b.ptr ∉ ptrs)
  reg : s'.reg = s.reg
  registered : ∀ i, (s'.mem.worker.nodes i).registered = (s.mem.worker.nodes i).registered
  inited : s'.mem.worker.inited = s.mem.worker.inited
  mainModId : s'.mem.worker.mainModId = s.mem.worker.mainModId

namespace Releases

theorem nil (hacc : s.Accounts) : s.Releases s [] :=
  ⟨hacc, by simp, rfl, fun _ => rfl, rfl, rfl⟩

theorem slot (h : s.Releases s' ptrs) (memId : ℤ) :
    s'.mem.worker.registeredSlot memId = s.mem.worker.registeredSlot memId :=
  registeredSlot_congr h.registered memId

theorem of_owns (howns : s'.Owns i [] (s.live.filter fun b => b.ptr ∉ ptrs))
    (hreg : s'.reg = s.reg)
    (hregistered : ∀ i, (s'.mem.worker.nodes i).registered = (s.mem.worker.nodes i).registered)
    (hinited : s'.mem.worker.inited = s.mem.worker.inited)
    (hmain : s'.mem.worker.mainModId = s.mem.worker.mainModId) : s.Releases s' ptrs := by
  obtain ⟨mine, hptrs, -, hlive⟩ := howns.blocks
  obtain rfl : mine = [] := List.map_eq_nil_iff.mp hptrs.eq_nil
  exact ⟨howns.accounts, hlive, hreg, hregistered, hinited, hmain⟩

/-- Two blocks, one after the other. -/
theorem free_free {a b : ℕ} (hacc : s.Accounts) (hnodup : [a, b].Nodup)
    (hcharged : ∀ p ∈ [a, b], s.Charged memId p) :
    s.Releases ((s.free memId a).free memId b) [a, b] := by
  obtain ⟨block, -, -, hslot, -⟩ := hcharged a List.mem_cons_self
  obtain ⟨hid, -⟩ := registeredSlot_eq_some.mp hslot
  have howns := owns_of_charged hacc hnodup hslot hcharged
  refine .of_owns (i := block.slot) ?_ rfl (fun i => ?_) ?_ ?_
  · rw [hid]
    exact howns.free.free
  · rw [registered_free, registered_free]
  · exact (memFree_inited _ _ _).trans (memFree_inited _ _ _)
  · rw [mainModId_free, mainModId_free]

theorem out (h : s.Releases s' ptrs) (hout : s.Out (ptrs ++ rest)) : s'.Out rest := by
  obtain ⟨-, hrest, hdisjoint⟩ := List.nodup_append'.mp hout.nodup
  refine ⟨hrest, fun p hp => ?_⟩
  obtain ⟨b, hb, rfl⟩ := List.mem_map.mp (hout.live p (List.mem_append_right _ hp))
  have hptr : b.ptr ∉ ptrs := fun hmem => hdisjoint hmem hp
  exact List.mem_map_of_mem (h.live.mem_iff.mpr (List.mem_filter.mpr ⟨hb, by simpa using hptr⟩))

/-- What the leak check finds. -/
theorem chargedTo (h : s.Releases s' ptrs) (memId : ℤ) :
    s'.chargedTo memId = s.beside memId ptrs := by
  rw [MemLedger.chargedTo, beside, h.slot]
  cases s.mem.worker.registeredSlot memId with
  | none => rfl
  | some i =>
      show outstanding key LiveBlock.size s'.live (i, s'.reg i) = _
      rw [h.reg]
      exact ((h.live.filter _).map _).sum_eq

end Releases

/-! ## What a call leaves to another module -/

/-- An id that is registered keeps its slot, and the blocks `ptrs` stay charged to it. -/
structure Leaves (s s' : MemLedger) (memId : ℤ) (ptrs : List ℕ) : Prop where
  slot : ∀ i, s.mem.worker.registeredSlot memId = some i →
    s'.mem.worker.registeredSlot memId = some i
  charged : ∀ p ∈ ptrs, s.Charged memId p → s'.Charged memId p

namespace Leaves

variable {memId' : ℤ}

theorem trans {s'' : MemLedger} (h : s.Leaves s' memId ptrs) (h' : s'.Leaves s'' memId ptrs) :
    s.Leaves s'' memId ptrs :=
  ⟨fun i hi => h'.slot i (h.slot i hi), fun p hp hc => h'.charged p hp (h.charged p hp hc)⟩

theorem of_spares (h : ∀ i, s.mem.worker.registeredSlot memId = some i → s.Spares s' i) :
    s.Leaves s' memId ptrs := by
  have hslot : ∀ i, s.mem.worker.registeredSlot memId = some i →
      s'.mem.worker.registeredSlot memId = some i := by
    intro i hi
    obtain ⟨hid, hreg⟩ := registeredSlot_eq_some.mp hi
    exact registeredSlot_eq_some.mpr ⟨hid, (h i hi).registered hreg⟩
  refine ⟨hslot, ?_⟩
  rintro p - ⟨b, hb, hptr, hi, hreg⟩
  exact ⟨b, (h _ hi).live b hb rfl, hptr, hslot _ hi, hreg.trans (h _ hi).reg.symm⟩

theorem register (memId' : ℤ) (name : Option (List UInt8)) :
    s.Leaves (s.register memId' name).2.1 memId ptrs := by
  apply of_spares
  intro i hi
  exact spares_register memId' name (registeredSlot_eq_some.mp hi).2

theorem unRegister (hne : memId' ≠ memId) : s.Leaves (s.unRegister memId').2.1 memId ptrs := by
  apply of_spares
  intro i hi
  apply spares_unRegister
  rw [← (registeredSlot_eq_some.mp hi).1]
  exact hne

theorem of_grows (h : s.Grows s') : s.Leaves s' memId ptrs := by
  apply of_spares
  intro i _
  exact ⟨fun hreg => (h.registered i).trans hreg, congrFun h.reg i, fun b hb _ => h.live b hb⟩

theorem of_releases (h : s.Releases s' ptrs') (hdisjoint : ∀ p ∈ ptrs, p ∉ ptrs') :
    s.Leaves s' memId ptrs := by
  refine ⟨fun i hi => (h.slot memId).trans hi, ?_⟩
  rintro p hp ⟨b, hb, rfl, hi, hreg⟩
  have hkept : b ∈ s.live.filter fun b => b.ptr ∉ ptrs' :=
    List.mem_filter.mpr ⟨hb, by simpa using hdisjoint b.ptr hp⟩
  exact ⟨b, h.live.mem_iff.mpr hkept, rfl, (h.slot memId).trans hi,
    hreg.trans (congrFun h.reg _).symm⟩

theorem free (hptr : ptr ∉ ptrs) : s.Leaves (s.free memId' ptr) memId ptrs := by
  have hslot : (s.free memId' ptr).mem.worker.registeredSlot memId =
      s.mem.worker.registeredSlot memId :=
    registeredSlot_congr (fun i => registered_free memId' ptr) memId
  refine ⟨fun i hi => hslot.trans hi, ?_⟩
  rintro p hp ⟨b, hb, rfl, hi, hreg⟩
  refine ⟨b, ?_, rfl, hslot.trans hi, hreg⟩
  have hne : b.ptr ≠ ptr := fun heq => hptr (heq ▸ hp)
  simp only [MemLedger.free]
  split_ifs
  · exact (List.mem_eraseP_of_neg (by simpa using hne)).mpr hb
  · exact hb

end Leaves

/-- A call of a module with the id `memId` and the blocks `ptrs`. Other ids that are registered
keep what they have, and an id that the module gets, `memId'`, is none of them. -/
structure Moves (s s' : MemLedger) (memId memId' : ℤ) (ptrs : List ℕ) : Prop where
  inited : s'.mem.worker.inited = s.mem.worker.inited
  mainModId : s'.mem.worker.mainModId = s.mem.worker.mainModId
  leaves : ∀ other i others, s.mem.worker.registeredSlot other = some i → other ≠ memId →
    (∀ p ∈ others, p ∉ ptrs) → s.Leaves s' other others
  apart : memId' = memId ∨ memId' = myMemModuleInvalidId ∨
    s.mem.worker.registeredSlot memId' = none

namespace Moves

variable {memId' memId'' : ℤ}

theorem refl (s : MemLedger) (memId : ℤ) (ptrs : List ℕ) : s.Moves s memId memId ptrs :=
  ⟨rfl, rfl, fun _ _ _ _ _ _ => ⟨fun _ => id, fun _ _ => id⟩, .inl rfl⟩

theorem ne (h : s.Moves s' memId memId' ptrs) {other : ℤ}
    (hother : s.mem.worker.registeredSlot other = some i) (hne : other ≠ memId) :
    other ≠ memId' := by
  rintro rfl
  rcases h.apart with rfl | rfl | hnone
  · exact hne rfl
  · exact ne_invalidId hother rfl
  · rw [hnone] at hother
    cases hother

theorem trans {s'' : MemLedger} (h : s.Moves s' memId memId' ptrs)
    (h' : s'.Moves s'' memId' memId'' ptrs) : s.Moves s'' memId memId'' ptrs := by
  refine ⟨h'.inited.trans h.inited, h'.mainModId.trans h.mainModId, ?_, ?_⟩
  · intro other i others hother hne hdisjoint
    have hleaves := h.leaves other i others hother hne hdisjoint
    exact hleaves.trans (h'.leaves other i others (hleaves.slot i hother) (h.ne hother hne)
      hdisjoint)
  · rcases h'.apart with rfl | hinvalid | hnone
    · exact h.apart
    · exact .inr (.inl hinvalid)
    · by_cases hsame : memId'' = memId
      · exact .inl hsame
      refine .inr (.inr ?_)
      cases hslot : s.mem.worker.registeredSlot memId'' with
      | none => rfl
      | some i =>
          -- an id that was registered would have kept its slot
          have hleaves := h.leaves memId'' i [] hslot hsame fun _ hp => absurd hp List.not_mem_nil
          rw [hleaves.slot i hslot] at hnone
          cases hnone

theorem of_grows (h : s.Grows s') (memId : ℤ) (ptrs : List ℕ) : s.Moves s' memId memId ptrs :=
  ⟨h.inited, h.mainModId, fun _ _ _ _ _ _ => .of_grows h, .inl rfl⟩

theorem of_releases (h : s.Releases s' ptrs') (hsub : ∀ p ∈ ptrs', p ∈ ptrs) (memId : ℤ) :
    s.Moves s' memId memId ptrs :=
  ⟨h.inited, h.mainModId, fun _ _ _ _ _ hdisjoint =>
    .of_releases h fun p hp hp' => hdisjoint p hp (hsub p hp'), .inl rfl⟩

theorem register (memId : ℤ) (name : Option (List UInt8)) (ptrs : List ℕ) :
    s.Moves (s.register memId name).2.1 memId (s.register memId name).2.2 ptrs := by
  refine ⟨memRegister_inited _ _ _, mainModId_register _ _, fun _ _ _ _ _ _ => .register _ _, ?_⟩
  rcases memRegister_cases s.mem.worker memId name with
    ⟨hsame, -⟩ | ⟨i, text, -, -, hfree, hnew⟩
  · exact .inl (by simp [MemLedger.register, hsame])
  · refine .inr (.inr ?_)
    rw [Option.eq_none_iff_forall_ne_some]
    intro j hj
    obtain ⟨hid, hreg⟩ := registeredSlot_eq_some.mp hj
    simp only [MemLedger.register, hnew, Nat.cast_inj] at hid
    rw [← Fin.ext hid, not_registered_of_freeSlot hfree] at hreg
    cases hreg

theorem unRegister (memId : ℤ) (ptrs : List ℕ) :
    s.Moves (s.unRegister memId).2.1 memId (s.unRegister memId).2.2 ptrs := by
  refine ⟨memUnRegister_inited _ _, mainModId_unRegister _,
    fun _ _ _ _ hne _ => .unRegister (Ne.symm hne), ?_⟩
  rcases memUnRegister_cases s.mem.worker memId with ⟨hsame, -⟩ | ⟨i, -, -, hnew⟩
  · exact .inl (by simp [MemLedger.unRegister, hsame])
  · exact .inr (.inl (by simp [MemLedger.unRegister, hnew]))

end Moves

/-- An id that is registered is given back. -/
theorem Accounts.unRegister_invalidId (h : s.Accounts) (hinited : s.mem.worker.inited = true)
    (hslot : s.mem.worker.registeredSlot memId = some i) :
    (s.unRegister memId).2.2 = myMemModuleInvalidId := by
  rw [← h.wf.heldSlot_eq] at hslot
  simp [MemLedger.unRegister, memUnRegister, hinited, hslot]

theorem calloc_ne_zero (h : s.mem.worker.registeredSlot memId = some i) {size : ℕ}
    (hsize : size ≤ 0x7fffffff) (addr : ℕ) : (s.calloc memId size addr).1 ≠ 0 := by
  rw [calloc_granted h hsize addr]
  exact Nat.succ_ne_zero _

end MemLedger

end MyWorkEnv
