import MyWorkEnv.MyUtils.CommonUtil

/-!
# `MY_MSG` and its memory

`SendMsg` and `RecvMsg` move the object representation of a message, so the
structures of `myMsg.h` come with the bytes they occupy on a host of either
byte order. `MY_MSG_HEAD` is 40 bytes without padding and `MY_MSG_TAIL` is 88,
as the static assertions of `myMsg.c` require.
-/

namespace MyWorkEnv

open FixedWidth

abbrev myMsgContentMaxLen : ℕ := 1024 * 1024

def myMsgVer (m f r : ℕ) : UInt8 := .ofNat (m <<< 5 ||| f <<< 2 ||| r)
def myMsgVerMagic : UInt8 := myMsgVer 1 0 0

structure MyMsgHead where
  verMagic : UInt8
  isMsgEnd : BitVec 1
  reserved1 : BitVec 7
  type : UInt16
  contentLen : UInt32
  sessionId : UInt32
  clientId : UInt32
  reserved2 : Vector UInt8 24
deriving DecidableEq

structure MyMsgCont where
  varLenCont : Vector UInt8 myMsgContentMaxLen
deriving DecidableEq

structure MyMsgTail where
  reserved : Vector UInt8 16
  timeStamp : UInt64
  sign : Vector UInt8 64
deriving DecidableEq

structure MyMsg where
  head : MyMsgHead
  cont : MyMsgCont
  tail : MyMsgTail
deriving DecidableEq

abbrev sizeofMyMsgHead : ℕ := 40
abbrev sizeofMyMsgTail : ℕ := 88

/-! ## Zeroed buffers, filled from the front -/

/-- A zeroed array of `n` bytes after `got` was written to its start. -/
def buffer (n : ℕ) (got : List UInt8) : Vector UInt8 n :=
  ⟨(got.take n ++ List.replicate (n - got.length) 0).toArray, by
    simp only [List.size_toArray, List.length_append, List.length_take, List.length_replicate]
    omega⟩

theorem getElem_buffer {n : ℕ} (got : List UInt8) {i : ℕ} (hi : i < n) :
    (buffer n got)[i] = got.getD i 0 := by
  simp only [buffer, Vector.getElem_mk, List.getElem_toArray, List.getElem_append,
    List.length_take, List.getElem_take, List.getElem_replicate, List.getD_eq_getElem?_getD]
  by_cases h : i < got.length
  · simp [h, hi]
  · simp [h]

theorem toList_buffer {n : ℕ} {got : List UInt8} (h : got.length = n) :
    (buffer n got).toList = got := by
  subst h
  simp [buffer]

@[simp] theorem buffer_toList {n : ℕ} (v : Vector UInt8 n) : buffer n v.toList = v :=
  Vector.toList_inj.mp (toList_buffer v.length_toList)

/-- `len` bytes at offset `off`. -/
def field (bs : List UInt8) (off len : ℕ) : List UInt8 := (bs.drop off).take len

theorem length_field {bs : List UInt8} {off len : ℕ} (h : off + len ≤ bs.length) :
    (field bs off len).length = len := by
  simp only [field, List.length_take, List.length_drop]
  omega

/-! ## The head -/

/-- Bit-fields are allocated from the least significant bit on a little-endian
host, where `IsMsgEnd` is declared first, and from the most significant bit on
a big-endian one, where `Reserved_1` is: the byte is the same. -/
def flagsByte : Endian → BitVec 1 → BitVec 7 → UInt8
  | .little, isMsgEnd, reserved1 => .ofNat (isMsgEnd.toNat + 2 * reserved1.toNat)
  | .big, isMsgEnd, reserved1 => .ofNat (2 * reserved1.toNat + isMsgEnd.toNat)

def MyMsgHead.toMem (e : Endian) (h : MyMsgHead) : List UInt8 :=
  [h.verMagic, flagsByte e h.isMsgEnd h.reserved1] ++ store e 2 h.type.toNat ++
    store e 4 h.contentLen.toNat ++ store e 4 h.sessionId.toNat ++
    store e 4 h.clientId.toNat ++ h.reserved2.toList

/-- The head whose memory was zeroed and then received `got`. -/
def MyMsgHead.ofMem (e : Endian) (got : List UInt8) : MyMsgHead :=
  let mem := (buffer sizeofMyMsgHead got).toList
  { verMagic := mem.getD 0 0
    isMsgEnd := .ofNat 1 (mem.getD 1 0).toNat
    reserved1 := .ofNat 7 ((mem.getD 1 0).toNat / 2)
    type := .ofNat (load e (field mem 2 2))
    contentLen := .ofNat (load e (field mem 4 4))
    sessionId := .ofNat (load e (field mem 8 4))
    clientId := .ofNat (load e (field mem 12 4))
    reserved2 := buffer 24 (field mem 16 24) }

@[simp] theorem MyMsgHead.length_toMem (e : Endian) (h : MyMsgHead) :
    (h.toMem e).length = sizeofMyMsgHead := by
  simp [MyMsgHead.toMem]

theorem toNat_flagsByte (e : Endian) (b : BitVec 1) (r : BitVec 7) :
    (flagsByte e b r).toNat = b.toNat + 2 * r.toNat := by
  have hb := b.isLt
  have hr := r.isLt
  cases e <;> (simp only [flagsByte, UInt8.toNat_ofNat']; omega)

/-- The byte does not tell the host. -/
theorem flagsByte_eq (e e' : Endian) (b : BitVec 1) (r : BitVec 7) :
    flagsByte e b r = flagsByte e' b r := by
  apply UInt8.toNat_inj.mp
  rw [toNat_flagsByte, toNat_flagsByte]

theorem isMsgEnd_flagsByte (e : Endian) (b : BitVec 1) (r : BitVec 7) :
    BitVec.ofNat 1 (flagsByte e b r).toNat = b := by
  apply BitVec.eq_of_toNat_eq
  have hb := b.isLt
  rw [toNat_flagsByte, BitVec.toNat_ofNat]
  omega

theorem reserved1_flagsByte (e : Endian) (b : BitVec 1) (r : BitVec 7) :
    BitVec.ofNat 7 ((flagsByte e b r).toNat / 2) = r := by
  apply BitVec.eq_of_toNat_eq
  have hb := b.isLt
  have hr := r.isLt
  rw [toNat_flagsByte, BitVec.toNat_ofNat]
  omega

theorem ofNat_load_store16 (e : Endian) (v : UInt16) :
    UInt16.ofNat (load e (store e 2 v.toNat)) = v := by
  have hv : v.toNat < 256 ^ 2 := v.toNat_lt
  rw [load_store, Nat.mod_eq_of_lt hv, UInt16.ofNat_toNat]

theorem ofNat_load_store32 (e : Endian) (v : UInt32) :
    UInt32.ofNat (load e (store e 4 v.toNat)) = v := by
  have hv : v.toNat < 256 ^ 4 := v.toNat_lt
  rw [load_store, Nat.mod_eq_of_lt hv, UInt32.ofNat_toNat]

theorem ofNat_load_store64 (e : Endian) (v : UInt64) :
    UInt64.ofNat (load e (store e 8 v.toNat)) = v := by
  have hv : v.toNat < 256 ^ 8 := v.toNat_lt
  rw [load_store, Nat.mod_eq_of_lt hv, UInt64.ofNat_toNat]

/-- The six pieces of a 40-byte head, each at its offset. -/
theorem field_pieces {a b c d f g : List UInt8} (ha : a.length = 2) (hb : b.length = 2)
    (hc : c.length = 4) (hd : d.length = 4) (hf : f.length = 4) (hg : g.length = 24) :
    field (a ++ b ++ c ++ d ++ f ++ g) 2 2 = b ∧
    field (a ++ b ++ c ++ d ++ f ++ g) 4 4 = c ∧
    field (a ++ b ++ c ++ d ++ f ++ g) 8 4 = d ∧
    field (a ++ b ++ c ++ d ++ f ++ g) 12 4 = f ∧
    field (a ++ b ++ c ++ d ++ f ++ g) 16 24 = g := by
  simp [field, List.drop_append, ha, hb, hc, hd, hf, hg, List.drop_of_length_le,
    List.take_of_length_le]

@[simp] theorem MyMsgHead.ofMem_toMem (e : Endian) (h : MyMsgHead) :
    MyMsgHead.ofMem e (h.toMem e) = h := by
  have hpieces := field_pieces (a := [h.verMagic, flagsByte e h.isMsgEnd h.reserved1])
    (b := store e 2 h.type.toNat) (c := store e 4 h.contentLen.toNat)
    (d := store e 4 h.sessionId.toNat) (f := store e 4 h.clientId.toNat)
    (g := h.reserved2.toList) rfl (length_store e 2 _) (length_store e 4 _)
    (length_store e 4 _) (length_store e 4 _) h.reserved2.length_toList
  obtain ⟨htype, hlen, hsession, hclient, hres⟩ := hpieces
  have hmem : (buffer sizeofMyMsgHead (h.toMem e)).toList = h.toMem e :=
    toList_buffer (MyMsgHead.length_toMem e h)
  simp only [MyMsgHead.ofMem, hmem]
  simp only [MyMsgHead.toMem, htype, hlen, hsession, hclient, hres]
  simp [isMsgEnd_flagsByte, reserved1_flagsByte, ofNat_load_store16, ofNat_load_store32]

/-! ## The tail -/

def MyMsgTail.toMem (e : Endian) (t : MyMsgTail) : List UInt8 :=
  t.reserved.toList ++ store e 8 t.timeStamp.toNat ++ t.sign.toList

def MyMsgTail.ofMem (e : Endian) (got : List UInt8) : MyMsgTail :=
  let mem := (buffer sizeofMyMsgTail got).toList
  { reserved := buffer 16 (field mem 0 16)
    timeStamp := .ofNat (load e (field mem 16 8))
    sign := buffer 64 (field mem 24 64) }

@[simp] theorem MyMsgTail.length_toMem (e : Endian) (t : MyMsgTail) :
    (t.toMem e).length = sizeofMyMsgTail := by
  simp [MyMsgTail.toMem]

/-- A host reads the tail another one has laid out. -/
theorem MyMsgTail.ofMem_toMem_between (e e' : Endian) (t : MyMsgTail) :
    MyMsgTail.ofMem e' (t.toMem e) =
      { t with timeStamp := .ofNat (load e' (store e 8 t.timeStamp.toNat)) } := by
  have hmem : (buffer sizeofMyMsgTail (t.toMem e)).toList = t.toMem e :=
    toList_buffer (MyMsgTail.length_toMem e t)
  have hreserved : field (t.toMem e) 0 16 = t.reserved.toList := by
    simp [field, MyMsgTail.toMem]
  have hstamp : field (t.toMem e) 16 8 = store e 8 t.timeStamp.toNat := by
    simp [field, MyMsgTail.toMem]
  have hsign : field (t.toMem e) 24 64 = t.sign.toList := by
    simp [field, MyMsgTail.toMem, List.drop_append, List.drop_of_length_le,
      List.take_of_length_le]
  simp only [MyMsgTail.ofMem, hmem, hreserved, hstamp, hsign, buffer_toList]

@[simp] theorem MyMsgTail.ofMem_toMem (e : Endian) (t : MyMsgTail) :
    MyMsgTail.ofMem e (t.toMem e) = t := by
  rw [MyMsgTail.ofMem_toMem_between, ofNat_load_store64]

end MyWorkEnv
