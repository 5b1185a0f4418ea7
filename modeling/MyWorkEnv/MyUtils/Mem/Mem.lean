import MyWorkEnv.MyUtils.CommonUtil
import MyWorkEnv.Lib.CString

/-!
# The memory module

`myMem.c` hands out memory under ids. An id is a slot of `sg_MemWorker.Nodes`:
`MemRegister` takes the first slot that is free and `MemUnRegister` wipes it.
Each slot counts the bytes allocated and freed under it, and `MemFree` learns
the size of a block from a prefix in front of it, where `MemCalloc` put it.

The functions take the value of the variable that `MemId` points to, and give
back its new value. What the C library is given and gives is `MemHeap`; a
pointer that `free` gets and that is not a block there sets `fault`. The spin
locks are left out here: the functions are taken one after the other.
-/

namespace MyWorkEnv

open CString

def myErrMemLeak : ℤ := 258

/-- `MY_MEM_MODULE_INVALID_ID` -/
def myMemModuleInvalidId : ℤ := -1

/-- `MY_MEM_MODULE_MAX_NUM` -/
abbrev myMemModuleMaxNum : ℕ := 16

structure MyMemNode where
  registered : Bool
  memModuleId : UInt8
  memModuleName : List UInt8
  memBytesAlloced : UInt64
  memBytesFreed : UInt64
deriving DecidableEq

/-- After `memset(.., 0, ..)`. -/
def MyMemNode.zero : MyMemNode := ⟨false, 0, [], 0, 0⟩

/-- What `MemRegister` makes of a free slot. -/
def MyMemNode.fresh (loop : Fin myMemModuleMaxNum) (name : List UInt8) : MyMemNode :=
  ⟨true, .ofNat loop, cStr name, 0, 0⟩

structure MyMemPrefix where
  memModuleId : UInt8
  size : BitVec 31
  freed : Bool
deriving DecidableEq

/-- `sizeof(MY_MEM_PREFIX)` -/
def sizeofMemPrefix : ℕ := 8

structure MyMemWorker where
  nodes : Fin myMemModuleMaxNum → MyMemNode
  mainModId : ℤ
  inited : Bool

/-- `sg_MemWorker` -/
def MyMemWorker.start : MyMemWorker := ⟨fun _ => .zero, myMemModuleInvalidId, false⟩

/-- The prefixes of the blocks that are allocated. -/
structure MemHeap where
  block : ℕ → Option MyMemPrefix
  fault : Bool

structure Mem where
  worker : MyMemWorker
  heap : MemHeap

namespace MyMemWorker

variable {w : MyMemWorker} {memId : ℤ} {i j : Fin myMemModuleMaxNum}

def setNode (w : MyMemWorker) (i : Fin myMemModuleMaxNum) (node : MyMemNode) : MyMemWorker :=
  { w with nodes := Function.update w.nodes i node }

/-- `MemId >= 0 && MemId < MY_MEM_MODULE_MAX_NUM && Nodes[MemId].Registered` -/
def registeredSlot (w : MyMemWorker) (memId : ℤ) : Option (Fin myMemModuleMaxNum) :=
  if h : 0 ≤ memId ∧ memId < myMemModuleMaxNum then
    (some ⟨memId.toNat, by omega⟩).filter fun i => (w.nodes i).registered
  else none

/-- The test of `MemRegister` and `MemUnRegister`, which also compares the id. -/
def heldSlot (w : MyMemWorker) (memId : ℤ) : Option (Fin myMemModuleMaxNum) :=
  (w.registeredSlot memId).filter fun i => ((w.nodes i).memModuleId.toNat : ℤ) == memId

/-- The first slot that is not registered. -/
def freeSlot (w : MyMemWorker) : Option (Fin myMemModuleMaxNum) :=
  (List.finRange myMemModuleMaxNum).find? fun i => !(w.nodes i).registered

end MyMemWorker

open MyMemWorker

/-- The name fits in `MemModuleName`, a `char[32]`. -/
def nameFits (name : Option (List UInt8)) : Bool := name.all fun text => (cStr text).length < 32

/-- The return code, and `*MemId`. -/
def memRegister (w : MyMemWorker) (memId : ℤ) (name : Option (List UInt8)) :
    ℤ × MyMemWorker × ℤ :=
  match name with
  | none => (-myEinval, w, memId)
  | some name =>
      if !w.inited then (-myEinval, w, memId)
      else if (w.heldSlot memId).isSome then (mySuccess, w, memId)
      else
        match w.freeSlot with
        | none => (-myEnoMem, w, memId)
        | some i =>
            (mySuccess, w.setNode i (.fresh i name), (i : ℕ))

def memLeakSafetyCheckWithId (w : MyMemWorker) (memId : ℤ) : Bool :=
  if !w.inited then true
  else
    match w.registeredSlot memId with
    | none => true
    | some i => (w.nodes i).memBytesFreed == (w.nodes i).memBytesAlloced

def memUnRegister (w : MyMemWorker) (memId : ℤ) : ℤ × MyMemWorker × ℤ :=
  if !w.inited then (mySuccess, w, memId)
  else
    match w.heldSlot memId with
    | none => (mySuccess, w, memId)
    | some i =>
        (if memLeakSafetyCheckWithId w memId then mySuccess else -myErrMemLeak,
          w.setNode i .zero, myMemModuleInvalidId)

def memModuleCommon : List UInt8 :=
  ascii ['M', 'e', 'm', 'M', 'o', 'd', 'u', 'l', 'e', 'C', 'o', 'm', 'm', 'o', 'n']

def memModuleInit (w : MyMemWorker) : ℤ × MyMemWorker :=
  if w.inited then (mySuccess, w)
  else
    let w := { w with inited := true, nodes := fun _ => .zero }
    let r := memRegister w w.mainModId (some memModuleCommon)
    (r.1, { r.2.1 with mainModId := r.2.2 })

def memModuleExit (w : MyMemWorker) : ℤ × MyMemWorker :=
  if !w.inited then (mySuccess, w)
  else
    let w := { w with inited := false }
    let r := memUnRegister w w.mainModId
    (r.1, { r.2.1 with mainModId := r.2.2 })

namespace MyMemWorker

def countAlloced (w : MyMemWorker) (i : Fin myMemModuleMaxNum) (size : ℕ) : MyMemWorker :=
  w.setNode i { w.nodes i with
    memBytesAlloced := (w.nodes i).memBytesAlloced + .ofNat size }

def countFreed (w : MyMemWorker) (i : Fin myMemModuleMaxNum) (size : BitVec 31) : MyMemWorker :=
  w.setNode i { w.nodes i with
    memBytesFreed := (w.nodes i).memBytesFreed + .ofNat size.toNat }

end MyMemWorker

/-- Where `calloc(Size + sizeof(MY_MEM_PREFIX), 1)` gives the address `calloc`, or `NULL`;
then the sum that is returned is not `NULL`. -/
def memCalloc (m : Mem) (memId : ℤ) (size : ℕ) (calloc : Option ℕ) : ℕ × Mem :=
  match m.worker.registeredSlot memId with
  | none => (0, m)
  | some i =>
      if 0x7fffffff < size then (0, m)
      else
        match calloc with
        | none => (sizeofMemPrefix, m)
        | some addr =>
            (addr + sizeofMemPrefix,
              { worker := m.worker.countAlloced i size
                heap := { m.heap with
                  block := Function.update m.heap.block addr
                    (some ⟨.ofNat i, .ofNat 31 size, false⟩) } })

/-- The block is given back right after it was marked as freed. -/
def memFree (m : Mem) (memId : ℤ) (ptr : ℕ) : Mem :=
  if ptr = 0 then m
  else
    match m.worker.registeredSlot memId with
    | none => m
    | some i =>
        let addr := ptr - sizeofMemPrefix
        match m.heap.block addr with
        | none => { m with heap := { m.heap with fault := true } }
        | some found =>
            { worker := m.worker.countFreed i found.size
              heap := { m.heap with block := Function.update m.heap.block addr none } }

def myCalloc (m : Mem) (size : ℕ) (calloc : Option ℕ) : ℕ × Mem :=
  memCalloc m m.worker.mainModId size calloc

def myFree (m : Mem) (ptr : ℕ) : Mem := memFree m m.worker.mainModId ptr

/-! ## Slots -/

namespace MyMemWorker

variable {w : MyMemWorker} {memId : ℤ} {i j : Fin myMemModuleMaxNum} {node : MyMemNode}

@[simp] theorem setNode_inited : (w.setNode i node).inited = w.inited := rfl

@[simp] theorem setNode_mainModId : (w.setNode i node).mainModId = w.mainModId := rfl

@[simp] theorem setNode_self : (w.setNode i node).nodes i = node := by simp [setNode]

theorem setNode_of_ne (h : j ≠ i) : (w.setNode i node).nodes j = w.nodes j := by
  simp [setNode, h]

theorem registeredSlot_eq_some :
    w.registeredSlot memId = some i ↔ memId = (i : ℕ) ∧ (w.nodes i).registered = true := by
  have hi := i.isLt
  unfold registeredSlot
  constructor
  · intro h
    split_ifs at h with hrange
    obtain ⟨hslot, hreg⟩ := Option.filter_eq_some_iff.mp h
    have hval : memId.toNat = i := by rw [← Option.some.inj hslot]
    exact ⟨by omega, hreg⟩
  · rintro ⟨rfl, hreg⟩
    rw [dif_pos (by omega), Option.filter_eq_some_iff]
    exact ⟨by simp, hreg⟩

theorem heldSlot_eq_some : w.heldSlot memId = some i ↔
    memId = (i : ℕ) ∧ (w.nodes i).registered = true ∧ (w.nodes i).memModuleId.toNat = i := by
  rw [heldSlot, Option.filter_eq_some_iff, registeredSlot_eq_some, and_assoc]
  refine and_congr_right fun hid => and_congr_right fun _ => ?_
  rw [hid, beq_iff_eq]
  exact Nat.cast_inj

theorem heldSlot_invalidId : w.heldSlot myMemModuleInvalidId = none := by
  rw [Option.eq_none_iff_forall_ne_some]
  intro i hi
  have hid := (heldSlot_eq_some.mp hi).1
  simp only [myMemModuleInvalidId] at hid
  omega

theorem not_registered_of_freeSlot (h : w.freeSlot = some i) :
    (w.nodes i).registered = false := by
  have hp := List.find?_some h
  simpa using hp

/-- What a slot says of itself. -/
def Wf (w : MyMemWorker) : Prop :=
  ∀ i, (w.nodes i).registered = true → (w.nodes i).memModuleId.toNat = i

theorem Wf.heldSlot_eq (h : w.Wf) : w.heldSlot memId = w.registeredSlot memId := by
  ext i
  rw [heldSlot_eq_some, registeredSlot_eq_some]
  refine and_congr_right fun _ => ?_
  exact and_iff_left_of_imp (h i)

theorem Wf.setNode (h : w.Wf) (hnode : node.registered = true → node.memModuleId.toNat = i) :
    (w.setNode i node).Wf := by
  intro j hj
  by_cases hji : j = i
  · subst hji
    rw [setNode_self] at hj ⊢
    exact hnode hj
  · rw [setNode_of_ne hji] at hj ⊢
    exact h j hj

theorem wf_start : MyMemWorker.start.Wf := by
  intro i h
  exact absurd h Bool.false_ne_true

end MyMemWorker

/-! ## What the calls do -/

variable {w : MyMemWorker} {memId : ℤ} {name : Option (List UInt8)}

theorem MyMemNode.fresh_memModuleId (loop : Fin myMemModuleMaxNum) (name : List UInt8) :
    (MyMemNode.fresh loop name).memModuleId.toNat = loop := by
  have hlt : (loop : ℕ) < 16 := loop.isLt
  simp only [fresh, UInt8.toNat_ofNat']
  omega

theorem einval_ne_success : -myEinval ≠ mySuccess := by decide

theorem enoMem_ne_success : -myEnoMem ≠ mySuccess := by decide

theorem memRegister_cases (w : MyMemWorker) (memId : ℤ) (name : Option (List UInt8)) :
    (memRegister w memId name).2 = (w, memId) ∧
      ((memRegister w memId name).1 = mySuccess → (w.heldSlot memId).isSome) ∨
    ∃ (i : Fin myMemModuleMaxNum) (text : List UInt8), w.inited = true ∧
      w.heldSlot memId = none ∧ w.freeSlot = some i ∧
      memRegister w memId name = (mySuccess, w.setNode i (.fresh i text), ((i : ℕ) : ℤ)) := by
  cases name with
  | none => exact .inl ⟨rfl, fun h => absurd h einval_ne_success⟩
  | some name =>
      simp only [memRegister]
      split_ifs with hinited hheld
      · exact .inl ⟨rfl, fun h => absurd h einval_ne_success⟩
      · exact .inl ⟨rfl, fun _ => hheld⟩
      · cases hfree : w.freeSlot with
        | none => exact .inl ⟨rfl, fun h => absurd h enoMem_ne_success⟩
        | some i => exact .inr ⟨i, name, by simpa using hinited, by simpa using hheld, rfl, rfl⟩

theorem memUnRegister_cases (w : MyMemWorker) (memId : ℤ) :
    memUnRegister w memId = (mySuccess, w, memId) ∧
      (w.inited = true → w.heldSlot memId = none) ∨
    ∃ i, w.inited = true ∧ w.heldSlot memId = some i ∧
      memUnRegister w memId =
        (if memLeakSafetyCheckWithId w memId then mySuccess else -myErrMemLeak,
          w.setNode i .zero, myMemModuleInvalidId) := by
  unfold memUnRegister
  cases hinited : w.inited with
  | false => exact .inl ⟨rfl, fun h => absurd h (by simp)⟩
  | true =>
      cases hheld : w.heldSlot memId with
      | none => exact .inl ⟨rfl, fun _ => rfl⟩
      | some i => exact .inr ⟨i, rfl, rfl, rfl⟩

theorem memRegister_inited (w : MyMemWorker) (memId : ℤ) (name : Option (List UInt8)) :
    (memRegister w memId name).2.1.inited = w.inited := by
  rcases memRegister_cases w memId name with ⟨hsame, -⟩ | ⟨i, text, -, -, -, hnew⟩
  · rw [hsame]
  · rw [hnew]
    rfl

theorem memUnRegister_inited (w : MyMemWorker) (memId : ℤ) :
    (memUnRegister w memId).2.1.inited = w.inited := by
  rcases memUnRegister_cases w memId with ⟨hsame, -⟩ | ⟨i, -, -, hnew⟩
  · rw [hsame]
  · rw [hnew]
    rfl

theorem memCalloc_refused {m : Mem} {size : ℕ}
    (h : m.worker.registeredSlot memId = none ∨ 0x7fffffff < size) (calloc : Option ℕ) :
    memCalloc m memId size calloc = (0, m) := by
  unfold memCalloc
  cases hslot : m.worker.registeredSlot memId with
  | none => rfl
  | some i => exact if_pos (h.resolve_left (by rw [hslot]; exact Option.some_ne_none i))

theorem memCalloc_granted {m : Mem} {size : ℕ} {i : Fin myMemModuleMaxNum}
    (hslot : m.worker.registeredSlot memId = some i) (hsize : size ≤ 0x7fffffff)
    (calloc : Option ℕ) :
    memCalloc m memId size calloc = match calloc with
      | none => (sizeofMemPrefix, m)
      | some addr => (addr + sizeofMemPrefix,
          { worker := m.worker.countAlloced i size
            heap := { m.heap with
              block := Function.update m.heap.block addr
                (some ⟨.ofNat i, .ofNat 31 size, false⟩) } }) := by
  unfold memCalloc
  rw [hslot]
  cases calloc with
  | none => exact if_neg (Nat.not_lt.mpr hsize)
  | some addr => exact if_neg (Nat.not_lt.mpr hsize)

theorem memCalloc_inited (m : Mem) (memId : ℤ) (size : ℕ) (calloc : Option ℕ) :
    (memCalloc m memId size calloc).2.worker.inited = m.worker.inited := by
  unfold memCalloc
  cases m.worker.registeredSlot memId with
  | none => rfl
  | some i =>
      simp only
      split_ifs
      · rfl
      · cases calloc <;> rfl

theorem memFree_inited (m : Mem) (memId : ℤ) (ptr : ℕ) :
    (memFree m memId ptr).worker.inited = m.worker.inited := by
  unfold memFree
  split_ifs
  · rfl
  · cases m.worker.registeredSlot memId with
    | none => rfl
    | some i =>
        simp only
        cases m.heap.block (ptr - sizeofMemPrefix) <;> rfl

/-- Whatever is left of former days is wiped, and the first slot is the module's own. -/
theorem memModuleInit_eq (h : w.inited = false) :
    memModuleInit w = (mySuccess,
      MyMemWorker.setNode ⟨fun _ => .zero, 0, true⟩ 0 (.fresh 0 memModuleCommon)) := by
  have hheld : ∀ memId : ℤ, heldSlot ⟨fun _ => .zero, memId, true⟩ memId = none := by
    intro memId
    rw [Option.eq_none_iff_forall_ne_some]
    intro i hi
    exact absurd (heldSlot_eq_some.mp hi).2.1 Bool.false_ne_true
  have hfree : freeSlot ⟨fun _ => .zero, w.mainModId, true⟩ = some 0 := rfl
  simp only [memModuleInit, h, memRegister, hheld, hfree]
  rfl

theorem wf_memModuleInit (h : w.inited = false) : (memModuleInit w).2.Wf := by
  rw [memModuleInit_eq h]
  have hwiped : MyMemWorker.Wf ⟨fun _ => .zero, 0, true⟩ :=
    fun _ hj => absurd hj Bool.false_ne_true
  exact hwiped.setNode fun _ => MyMemNode.fresh_memModuleId 0 _

theorem inited_of_memRegister (h : (memRegister w memId name).1 = mySuccess) :
    w.inited = true := by
  cases name with
  | none => exact absurd h einval_ne_success
  | some name =>
      cases hinited : w.inited with
      | true => rfl
      | false =>
          rw [memRegister, hinited] at h
          exact absurd h einval_ne_success

/-- While the module is not initialised nothing is unregistered, so `MemModuleExit`, which
clears `Inited` first, leaves the slots as they are. -/
theorem memModuleExit_eq (w : MyMemWorker) :
    memModuleExit w = (mySuccess, { w with inited := false }) := by
  cases w with
  | mk nodes mainModId inited => cases inited <;> rfl

end MyWorkEnv
