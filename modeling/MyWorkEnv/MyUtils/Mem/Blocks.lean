import MyWorkEnv.Lib.Transition
import MyWorkEnv.MyUtils.Mem.Mem

/-!
# The pointers `MemCalloc` returns

Any sequence of calls under any ids, where the C library may run out of
memory. As long as it does not, a pointer from `MemCalloc` is `NULL` if nothing
was allocated, and else stands behind the prefix of a block of its own, which
`MemFree` gives back. When `calloc` fails, `MemCalloc` adds the length of the
prefix to the `NULL` it got, and what it returns is the address of nothing
(`memCalloc_honest_iff`).
-/

namespace MyWorkEnv

open MyMemWorker Transition

/-- A pointer that `MemCalloc` returned for this id and size, and that was not freed. -/
structure Returned where
  ptr : ℕ
  memId : ℤ
  size : ℕ
deriving DecidableEq

structure MemUser where
  mem : Mem
  held : List Returned

/-- There is a block at `ptr`, with this id and size in its prefix. -/
structure BlockAt (m : Mem) (b : Returned) : Prop where
  ptr_ge : sizeofMemPrefix ≤ b.ptr
  block : ∃ found, m.heap.block (b.ptr - sizeofMemPrefix) = some found ∧
    (found.memModuleId.toNat : ℤ) = b.memId ∧ found.size.toNat = b.size

/-- `calloc` is what the C library answers, `none` for `NULL`. -/
inductive HeapCall where
  | register (memId : ℤ) (name : Option (List UInt8))
  | unRegister (memId : ℤ)
  | calloc (memId : ℤ) (size : ℕ) (calloc : Option ℕ)
  | free (memId : ℤ) (ptr : ℕ)

namespace MemUser

def next (s : MemUser) : HeapCall → MemUser
  | .register memId name =>
      { s with mem := { s.mem with worker := (memRegister s.mem.worker memId name).2.1 } }
  | .unRegister memId =>
      { s with mem := { s.mem with worker := (memUnRegister s.mem.worker memId).2.1 } }
  | .calloc memId size calloc =>
      let r := memCalloc s.mem memId size calloc
      ⟨r.2, if r.1 = 0 then s.held else ⟨r.1, memId, size⟩ :: s.held⟩
  | .free memId ptr =>
      ⟨memFree s.mem memId ptr,
        if ptr ≠ 0 ∧ (s.mem.worker.registeredSlot memId).isSome then
          s.held.filter fun b => b.ptr ≠ ptr
        else s.held⟩

/-- Names fit, a new block is not one that is out, and what is freed was returned and not
freed since. -/
def Enabled (s : MemUser) : HeapCall → Prop
  | .register _ name => nameFits name = true
  | .unRegister _ => True
  | .calloc _ _ calloc => ∀ addr ∈ calloc, s.mem.heap.block addr = none
  | .free _ ptr => ptr = 0 ∨ ptr ∈ s.held.map Returned.ptr

instance Enabled.decidable (s : MemUser) : ∀ a, Decidable (s.Enabled a)
  | .register _ name => inferInstanceAs (Decidable (nameFits name = true))
  | .unRegister _ => .isTrue trivial
  | .calloc _ _ none => .isTrue fun addr h => by cases h
  | .calloc _ _ (some addr) => decidable_of_iff (s.mem.heap.block addr = none)
      ⟨fun h x hx => Option.some.inj hx ▸ h, fun h => h addr rfl⟩
  | .free _ ptr => inferInstanceAs (Decidable (ptr = 0 ∨ ptr ∈ s.held.map Returned.ptr))

/-- The C library has memory where `MemCalloc` gets as far as asking for it. -/
def CallocSucceeds (s : MemUser) : HeapCall → Prop
  | .calloc memId size none =>
      s.mem.worker.registeredSlot memId = none ∨ 0x7fffffff < size
  | _ => True

instance CallocSucceeds.decidable (s : MemUser) : ∀ a, Decidable (s.CallocSucceeds a)
  | .calloc memId size none =>
      inferInstanceAs (Decidable (s.mem.worker.registeredSlot memId = none ∨ 0x7fffffff < size))
  | .calloc _ _ (some _) | .register _ _ | .unRegister _ | .free _ _ => .isTrue trivial

/-- What one call of `MemCalloc` has to do: `NULL` says that no block was allocated and
nothing counted, any other pointer belongs to a new block. -/
structure Honest (s : MemUser) (memId : ℤ) (size : ℕ) (calloc : Option ℕ) : Prop where
  null_iff : (memCalloc s.mem memId size calloc).1 = 0 ↔ ∀ addr,
    s.mem.heap.block addr = none →
      (memCalloc s.mem memId size calloc).2.heap.block addr = none
  null : (memCalloc s.mem memId size calloc).1 = 0 →
    (memCalloc s.mem memId size calloc).2 = s.mem
  block : (memCalloc s.mem memId size calloc).1 ≠ 0 →
    BlockAt (memCalloc s.mem memId size calloc).2
      ⟨(memCalloc s.mem memId size calloc).1, memId, size⟩
  distinct : (memCalloc s.mem memId size calloc).1 ≠ 0 →
    ∀ b ∈ s.held, b.ptr ≠ (memCalloc s.mem memId size calloc).1

structure Sound (s : MemUser) : Prop where
  blocks : ∀ b ∈ s.held, BlockAt s.mem b
  nodup : (s.held.map Returned.ptr).Nodup

end MemUser

open MemUser

/-- No pointers are held at first; other blocks may be out. -/
def memUserSystem : System MemUser HeapCall where
  init s := s.held = []
  enabled := MemUser.Enabled
  next := MemUser.next

/-! ## The calls -/

variable {s : MemUser} {m : Mem} {memId : ℤ} {size : ℕ} {i : Fin myMemModuleMaxNum}

theorem blockAt_of_calloc (hslot : m.worker.registeredSlot memId = some i)
    (hsize : size ≤ 0x7fffffff) (addr : ℕ) :
    BlockAt (memCalloc m memId size (some addr)).2 ⟨addr + sizeofMemPrefix, memId, size⟩ := by
  have hi : (i : ℕ) < 16 := i.isLt
  refine ⟨Nat.le_add_left _ _, ⟨.ofNat i, .ofNat 31 size, false⟩, ?_, ?_, ?_⟩
  · rw [memCalloc_granted hslot hsize]
    simp
  · rw [(registeredSlot_eq_some.mp hslot).1]
    simp only [UInt8.toNat_ofNat']
    omega
  · simp only [BitVec.toNat_ofNat]
    omega

/-- A prefix that is in its place is not where a new block is put. -/
theorem BlockAt.ptr_ne {b : Returned} (h : BlockAt m b) {addr : ℕ}
    (haddr : m.heap.block addr = none) : b.ptr ≠ addr + sizeofMemPrefix := by
  intro hptr
  obtain ⟨found, hfound, -⟩ := h.block
  rw [hptr, Nat.add_sub_cancel, haddr] at hfound
  cases hfound

theorem BlockAt.of_heap {m' : Mem} {b : Returned} (h : BlockAt m b)
    (heq : m'.heap.block (b.ptr - sizeofMemPrefix) = m.heap.block (b.ptr - sizeofMemPrefix)) :
    BlockAt m' b := by
  obtain ⟨hge, found, hfound, hid, hsize⟩ := h
  exact ⟨hge, found, heq.trans hfound, hid, hsize⟩

/-- `MemFree` of a block gives back this one only. -/
theorem memFree_block {b : Returned} (h : BlockAt m b)
    (hslot : (m.worker.registeredSlot memId).isSome = true) :
    (memFree m memId b.ptr).heap = { m.heap with
      block := Function.update m.heap.block (b.ptr - sizeofMemPrefix) none } := by
  obtain ⟨hge, found, hfound, -⟩ := h
  obtain ⟨i, hi⟩ := Option.isSome_iff_exists.mp hslot
  have hpos : 0 < sizeofMemPrefix := by decide
  simp only [memFree, if_neg (by omega : b.ptr ≠ 0), hi, hfound]

/-! ## Any sequence of calls -/

namespace MemUser.Sound

theorem calloc (h : s.Sound) {calloc : Option ℕ} (ha : s.Enabled (.calloc memId size calloc))
    (hp : s.CallocSucceeds (.calloc memId size calloc)) :
    (s.next (.calloc memId size calloc)).Sound := by
  by_cases hrefused : s.mem.worker.registeredSlot memId = none ∨ 0x7fffffff < size
  · have hnext : s.next (.calloc memId size calloc) = s := by
      simp [next, memCalloc_refused hrefused]
    rw [hnext]
    exact h
  · rw [not_or, Nat.not_lt] at hrefused
    obtain ⟨hslot, hsize⟩ := hrefused
    obtain ⟨i, hi⟩ := Option.ne_none_iff_exists'.mp hslot
    cases calloc with
    | none => exact absurd hp (not_or.mpr ⟨hslot, Nat.not_lt.mpr hsize⟩)
    | some addr =>
        have hfree : s.mem.heap.block addr = none := ha addr rfl
        have hnext : (s.next (.calloc memId size (some addr))).held =
            ⟨addr + sizeofMemPrefix, memId, size⟩ :: s.held := by
          simp [next, memCalloc_granted hi hsize, sizeofMemPrefix]
        refine ⟨?_, ?_⟩
        · rw [hnext]
          refine List.forall_mem_cons.mpr ⟨blockAt_of_calloc hi hsize addr, fun b hb => ?_⟩
          have hne : b.ptr - sizeofMemPrefix ≠ addr := by
            have hptr := (h.blocks b hb).ptr_ne hfree
            have hge := (h.blocks b hb).ptr_ge
            omega
          apply (h.blocks b hb).of_heap
          simp [next, memCalloc_granted hi hsize, Function.update_of_ne hne]
        · rw [hnext, List.map_cons, List.nodup_cons]
          refine ⟨fun hmem => ?_, h.nodup⟩
          obtain ⟨b, hb, hptr⟩ := List.mem_map.mp hmem
          exact (h.blocks b hb).ptr_ne hfree hptr

theorem free (h : s.Sound) {ptr : ℕ} (ha : s.Enabled (.free memId ptr)) :
    (s.next (.free memId ptr)).Sound := by
  by_cases hfrees : ptr ≠ 0 ∧ (s.mem.worker.registeredSlot memId).isSome = true
  · obtain ⟨b, hb, rfl⟩ := List.mem_map.mp (ha.resolve_left hfrees.1)
    have hnext : s.next (.free memId b.ptr) =
        ⟨memFree s.mem memId b.ptr, s.held.filter fun b' => b'.ptr ≠ b.ptr⟩ :=
      congrArg (MemUser.mk _) (if_pos hfrees)
    rw [hnext]
    refine ⟨fun b' hb' => ?_, h.nodup.sublist (List.filter_sublist.map _)⟩
    obtain ⟨hmem, hne⟩ := List.mem_filter.mp hb'
    have hheld := h.blocks b' hmem
    rw [decide_eq_true_eq] at hne
    have haddr : b'.ptr - sizeofMemPrefix ≠ b.ptr - sizeofMemPrefix := by
      have hge := hheld.ptr_ge
      have hge' := (h.blocks b hb).ptr_ge
      omega
    apply hheld.of_heap
    rw [memFree_block (h.blocks b hb) hfrees.2]
    exact Function.update_of_ne haddr _ _
  · have hmem : memFree s.mem memId ptr = s.mem := by
      unfold memFree
      split_ifs with hzero
      · rfl
      · have hnone : s.mem.worker.registeredSlot memId = none := by
          rw [← Option.not_isSome_iff_eq_none]
          exact fun hsome => hfrees ⟨hzero, hsome⟩
        rw [hnone]
    have hnext : s.next (.free memId ptr) = s :=
      congrArg₂ MemUser.mk hmem (if_neg hfrees)
    rw [hnext]
    exact h

end MemUser.Sound

theorem sound_of_reach (h : Reach memUserSystem CallocSucceeds s) : s.Sound := by
  apply h.invariant
  · intro s hs
    have hnil : s.held = [] := hs
    exact ⟨by simp [hnil], by simp [hnil]⟩
  · rintro s a hs ha hp
    cases a with
    | register memId name => exact ⟨fun b hb => (hs.blocks b hb).of_heap rfl, hs.nodup⟩
    | unRegister memId => exact ⟨fun b hb => (hs.blocks b hb).of_heap rfl, hs.nodup⟩
    | calloc memId size calloc => exact hs.calloc ha hp
    | free memId ptr => exact hs.free ha

theorem honest_of_refused (h : s.mem.worker.registeredSlot memId = none ∨ 0x7fffffff < size)
    (calloc : Option ℕ) : s.Honest memId size calloc := by
  have heq := memCalloc_refused h calloc
  refine ⟨?_, ?_, fun hne => ?_, fun hne => ?_⟩
  · rw [heq]
    exact iff_of_true rfl fun _ haddr => haddr
  · rw [heq]
    exact fun _ => rfl
  · exact absurd (congrArg Prod.fst heq) hne
  · exact absurd (congrArg Prod.fst heq) hne

theorem honest_of_block (h : s.Sound) (hslot : s.mem.worker.registeredSlot memId = some i)
    (hsize : size ≤ 0x7fffffff) {addr : ℕ} (hfree : s.mem.heap.block addr = none) :
    s.Honest memId size (some addr) := by
  have hret : (memCalloc s.mem memId size (some addr)).1 = addr + sizeofMemPrefix := by
    rw [memCalloc_granted hslot hsize]
  have hpos : addr + sizeofMemPrefix ≠ 0 := Nat.succ_ne_zero _
  have hblock := blockAt_of_calloc hslot hsize addr
  refine ⟨?_, fun hzero => absurd (hret.symm.trans hzero) hpos, fun _ => ?_, fun _ b hb => ?_⟩
  · rw [hret]
    refine iff_of_false hpos fun hnone => ?_
    obtain ⟨found, hfound, -⟩ := hblock.block
    rw [Nat.add_sub_cancel, hnone addr hfree] at hfound
    cases hfound
  · rw [hret]
    exact hblock
  · rw [hret]
    exact (h.blocks b hb).ptr_ne hfree

/-- The sum of `NULL` and a prefix. -/
theorem not_honest_of_failure (hslot : s.mem.worker.registeredSlot memId = some i)
    (hsize : size ≤ 0x7fffffff) : ¬ s.Honest memId size none := by
  intro h
  have heq : memCalloc s.mem memId size none = (sizeofMemPrefix, s.mem) :=
    memCalloc_granted hslot hsize none
  have hret : (memCalloc s.mem memId size none).1 = 0 := by
    apply h.null_iff.mpr
    rw [heq]
    exact fun _ haddr => haddr
  rw [heq] at hret
  cases hret

/-- **In every run in which the C library has memory where it is asked, each pointer held
has its block, with the id and size asked for, `MemFree` gives back this block only; and the
next `MemCalloc` is honest just when the library has memory for it.** -/
theorem memCalloc_honest_iff (h : Reach memUserSystem CallocSucceeds s) :
    (∀ memId size calloc, s.Enabled (.calloc memId size calloc) →
      (s.Honest memId size calloc ↔ s.CallocSucceeds (.calloc memId size calloc))) ∧
    (s.held.map Returned.ptr).Nodup ∧ ∀ b ∈ s.held, BlockAt s.mem b ∧ ∀ memId,
      (s.mem.worker.registeredSlot memId).isSome = true →
        (memFree s.mem memId b.ptr).heap = { s.mem.heap with
          block := Function.update s.mem.heap.block (b.ptr - sizeofMemPrefix) none } := by
  have hs := sound_of_reach h
  refine ⟨fun memId size calloc ha => ?_, hs.nodup, fun b hb =>
    ⟨hs.blocks b hb, fun memId hslot => memFree_block (hs.blocks b hb) hslot⟩⟩
  by_cases hrefused : s.mem.worker.registeredSlot memId = none ∨ 0x7fffffff < size
  · refine iff_of_true (honest_of_refused hrefused calloc) ?_
    cases calloc with
    | none => exact hrefused
    | some addr => trivial
  · have hgranted := hrefused
    rw [not_or, Nat.not_lt] at hgranted
    obtain ⟨i, hi⟩ := Option.ne_none_iff_exists'.mp hgranted.1
    cases calloc with
    | none => exact iff_of_false (not_honest_of_failure hi hgranted.2) hrefused
    | some addr => exact iff_of_true (honest_of_block hs hi hgranted.2 (ha addr rfl)) trivial

/-- After `MemModuleInit`. -/
def noBlocks : MemUser := ⟨⟨(memModuleInit .start).2, ⟨fun _ => none, false⟩⟩, []⟩

/-- `MyCalloc(4)` without memory: a pointer to byte 8, no block, nothing counted; and `MyFree`
of it hands the C library an address that it never gave out. -/
theorem memCalloc_invents : ¬ noBlocks.Honest 0 4 none ∧
    (memCalloc noBlocks.mem 0 4 none).1 = 8 ∧
    ((memCalloc noBlocks.mem 0 4 none).2.worker.nodes 0).memBytesAlloced = 0 ∧
    (memFree (memCalloc noBlocks.mem 0 4 none).2 0 8).heap.fault = true :=
  ⟨fun h => absurd (h.null_iff.mpr fun _ _ => rfl) (by decide), rfl, rfl, rfl⟩

/-- One block is out, and a second call fails. -/
theorem memCalloc_honest_iff_run : ∃ s : MemUser, s.held = [⟨72, 0, 4⟩] ∧
    (s.Honest 0 10 none ↔ s.CallocSucceeds (.calloc 0 10 none)) ∧ BlockAt s.mem ⟨72, 0, 4⟩ := by
  have hreach : Reach memUserSystem CallocSucceeds
      (exec memUserSystem noBlocks [.calloc 0 4 (some 64)]) :=
    Reach.exec (.init rfl) ⟨fun addr _ => rfl, trivial, trivial⟩
  have hheld : (exec memUserSystem noBlocks [.calloc 0 4 (some 64)]).held = [⟨72, 0, 4⟩] := rfl
  obtain ⟨hiff, -, hblocks⟩ := memCalloc_honest_iff hreach
  refine ⟨_, hheld, hiff 0 10 none (fun addr hnone => nomatch hnone), ?_⟩
  exact (hblocks ⟨72, 0, 4⟩ (by rw [hheld]; exact List.mem_singleton_self _)).1

end MyWorkEnv
