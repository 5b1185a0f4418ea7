import MyWorkEnv.Lib.ByteOrder

/-!
# Return codes and byte-order helpers

`myErrno.h` names the return codes (the `errno` values are those of Linux) and
`myCommonUtil.c` supplies the 64-bit conversions. `htonl` and its companions
are the usual conversions of the host. `MyUtil_htonll` converts each half of
its argument and puts the halves back where they were, so it is its own
inverse on either host without being a byte reversal of the whole word; on a
host of the other byte order the halves come out exchanged
(`myUtilNtohll_between`).
-/

namespace MyWorkEnv

open FixedWidth

/-! ## Return codes -/

abbrev eIo : ℕ := 5
abbrev eBadF : ℕ := 9
abbrev eAgain : ℕ := 11
abbrev eWouldBlock : ℕ := 11
abbrev eNoMem : ℕ := 12
abbrev eBusy : ℕ := 16
abbrev eInval : ℕ := 22
abbrev eNoSys : ℕ := 38
abbrev eTimedOut : ℕ := 110

def mySuccess : ℤ := 0
def myEio : ℤ := eIo
def myEnoMem : ℤ := eNoMem
def myEbusy : ℤ := eBusy
def myEinval : ℤ := eInval
def myEnosys : ℤ := eNoSys
def myEtimedOut : ℤ := eTimedOut
def myErrPeerClosed : ℤ := 257

/-! ## Byte order -/

def htons (e : Endian) (v : UInt16) : UInt16 := .ofNat (hostToNet e 2 v.toNat)
def ntohs (e : Endian) (v : UInt16) : UInt16 := .ofNat (hostToNet e 2 v.toNat)
def htonl (e : Endian) (v : UInt32) : UInt32 := .ofNat (hostToNet e 4 v.toNat)
def ntohl (e : Endian) (v : UInt32) : UInt32 := .ofNat (hostToNet e 4 v.toNat)

def myUtilHtonll (e : Endian) (value : UInt64) : UInt64 :=
  let high := (value >>> 32) &&& 0xFFFFFFFF
  let low := value &&& 0xFFFFFFFF
  ((htonl e high.toUInt32).toUInt64 <<< 32) ||| (htonl e low.toUInt32).toUInt64

def myUtilNtohll (e : Endian) (value : UInt64) : UInt64 :=
  let high := (value >>> 32) &&& 0xFFFFFFFF
  let low := value &&& 0xFFFFFFFF
  ((ntohl e high.toUInt32).toUInt64 <<< 32) ||| (ntohl e low.toUInt32).toUInt64

theorem toNat_htons (e : Endian) (v : UInt16) :
    (htons e v).toNat = hostToNet e 2 v.toNat := by
  have h : hostToNet e 2 v.toNat < 256 ^ 2 := hostToNet_lt v.toNat_lt
  simp only [htons, UInt16.toNat_ofNat']
  exact Nat.mod_eq_of_lt h

theorem toNat_htonl (e : Endian) (v : UInt32) :
    (htonl e v).toNat = hostToNet e 4 v.toNat := by
  have h : hostToNet e 4 v.toNat < 256 ^ 4 := hostToNet_lt v.toNat_lt
  simp only [htonl, UInt32.toNat_ofNat']
  exact Nat.mod_eq_of_lt h

@[simp] theorem ntohs_htons (e : Endian) (v : UInt16) : ntohs e (htons e v) = v := by
  rw [ntohs, toNat_htons, hostToNet_hostToNet v.toNat_lt, UInt16.ofNat_toNat]

@[simp] theorem ntohl_htonl (e : Endian) (v : UInt32) : ntohl e (htonl e v) = v := by
  rw [ntohl, toNat_htonl, hostToNet_hostToNet v.toNat_lt, UInt32.ofNat_toNat]

theorem store_htons (e : Endian) (v : UInt16) :
    store e 2 (htons e v).toNat = store .big 2 v.toNat := by
  rw [toNat_htons, store_hostToNet]

theorem store_htonl (e : Endian) (v : UInt32) :
    store e 4 (htonl e v).toNat = store .big 4 v.toNat := by
  rw [toNat_htonl, store_hostToNet]

theorem ntohl_load (e : Endian) {bs : List UInt8} (h : bs.length = 4) :
    ntohl e (.ofNat (load e bs)) = .ofNat (load .big bs) := by
  have hlt : load e bs < 2 ^ 32 := by simpa [h] using load_lt e bs
  have hswap := hostToNet_load e bs
  rw [h] at hswap
  rw [ntohl, UInt32.toNat_ofNat', Nat.mod_eq_of_lt hlt, hswap]

/-! ## Halves of a 64-bit word -/

private theorem and_low32 (n : ℕ) : n &&& 4294967295 = n % 2 ^ 32 :=
  Nat.and_two_pow_sub_one_eq_mod n 32

theorem toNat_low32 (v : UInt64) :
    (v &&& 0xFFFFFFFF).toUInt32.toNat = v.toNat % 2 ^ 32 := by
  simp [and_low32]

theorem toNat_high32 (v : UInt64) :
    ((v >>> 32) &&& 0xFFFFFFFF).toUInt32.toNat = v.toNat / 2 ^ 32 := by
  have hv := v.toNat_lt
  simp only [UInt64.toNat_toUInt32, UInt64.toNat_and, UInt64.toNat_shiftRight]
  simp only [UInt64.reduceToNat, Nat.reduceMod, and_low32, Nat.shiftRight_eq_div_pow]
  omega

theorem toNat_joinHalves (a b : UInt32) :
    ((a.toUInt64 <<< 32) ||| b.toUInt64).toNat = a.toNat * 2 ^ 32 + b.toNat := by
  have ha := a.toNat_lt
  have hb := b.toNat_lt
  have hs : a.toNat <<< 32 % 18446744073709551616 = a.toNat <<< 32 := by
    rw [Nat.shiftLeft_eq]
    omega
  simp only [UInt64.toNat_or, UInt64.toNat_shiftLeft, UInt32.toNat_toUInt64]
  simp only [UInt64.reduceToNat, Nat.reduceMod, Nat.reducePow, hs]
  rw [← Nat.shiftLeft_add_eq_or_of_lt hb, Nat.shiftLeft_eq]

theorem high32_join (a b : UInt32) :
    ((((a.toUInt64 <<< 32) ||| b.toUInt64) >>> 32) &&& 0xFFFFFFFF).toUInt32 = a := by
  have hb := b.toNat_lt
  apply UInt32.toNat_inj.mp
  rw [toNat_high32, toNat_joinHalves]
  omega

theorem low32_join (a b : UInt32) :
    (((a.toUInt64 <<< 32) ||| b.toUInt64) &&& 0xFFFFFFFF).toUInt32 = b := by
  have hb := b.toNat_lt
  apply UInt32.toNat_inj.mp
  rw [toNat_low32, toNat_joinHalves]
  omega

/-- Converting the halves twice gives the word back, on either host. -/
@[simp] theorem myUtilNtohll_htonll (e : Endian) (v : UInt64) :
    myUtilNtohll e (myUtilHtonll e v) = v := by
  apply UInt64.toNat_inj.mp
  simp only [myUtilNtohll, myUtilHtonll, high32_join, low32_join, ntohl_htonl,
    toNat_joinHalves]
  rw [toNat_high32, toNat_low32]
  omega

/-! ## A 64-bit word between two hosts -/

theorem toNat_myUtilHtonll (e : Endian) (v : UInt64) : (myUtilHtonll e v).toNat =
    (htonl e (.ofNat (v.toNat / 2 ^ 32))).toNat * 2 ^ 32 +
      (htonl e (.ofNat (v.toNat % 2 ^ 32))).toNat := by
  rw [myUtilHtonll, toNat_joinHalves, ← toNat_high32, ← toNat_low32]
  simp only [UInt32.ofNat_toNat]

theorem toNat_myUtilNtohll (e : Endian) (v : UInt64) : (myUtilNtohll e v).toNat =
    (ntohl e (.ofNat (v.toNat / 2 ^ 32))).toNat * 2 ^ 32 +
      (ntohl e (.ofNat (v.toNat % 2 ^ 32))).toNat := by
  rw [myUtilNtohll, toNat_joinHalves, ← toNat_high32, ← toNat_low32]
  simp only [UInt32.ofNat_toNat]

/-- Each half is in network order; the low one comes first if it does on the host. -/
theorem store_myUtilHtonll (e : Endian) (v : UInt64) :
    store e 8 (myUtilHtonll e v).toNat = match e with
      | .little => store .big 4 (v.toNat % 2 ^ 32) ++ store .big 4 (v.toNat / 2 ^ 32)
      | .big => store .big 4 (v.toNat / 2 ^ 32) ++ store .big 4 (v.toNat % 2 ^ 32) := by
  have hv := v.toNat_lt
  have hlow := (htonl e (.ofNat (v.toNat % 2 ^ 32))).toNat_lt
  have hlowNat : (UInt32.ofNat (v.toNat % 2 ^ 32)).toNat = v.toNat % 2 ^ 32 := by
    rw [UInt32.toNat_ofNat']
    omega
  have hhighNat : (UInt32.ofNat (v.toNat / 2 ^ 32)).toNat = v.toNat / 2 ^ 32 := by
    rw [UInt32.toNat_ofNat']
    omega
  have hhigh : (myUtilHtonll e v).toNat / 256 ^ 4 =
      (htonl e (.ofNat (v.toNat / 2 ^ 32))).toNat := by
    rw [toNat_myUtilHtonll]
    omega
  have hfront : store e 4 (myUtilHtonll e v).toNat = store .big 4 (v.toNat % 2 ^ 32) := by
    have hmod : (myUtilHtonll e v).toNat % 256 ^ 4 =
        (htonl e (.ofNat (v.toNat % 2 ^ 32))).toNat := by
      rw [toNat_myUtilHtonll]
      omega
    rw [← store_mod, hmod, store_htonl, hlowNat]
  have hback : store e 4 ((myUtilHtonll e v).toNat / 256 ^ 4) =
      store .big 4 (v.toNat / 2 ^ 32) := by
    rw [hhigh, store_htonl, hhighNat]
  rw [show 8 = 4 + 4 from rfl, store_add]
  cases e with
  | little => exact congrArg₂ (· ++ ·) hfront hback
  | big => exact congrArg₂ (· ++ ·) hback hfront

/-- The halves come back from where the host expects them. -/
theorem myUtilNtohll_load (e : Endian) {as bs : List UInt8} (ha : as.length = 4)
    (hb : bs.length = 4) :
    (myUtilNtohll e (.ofNat (load e (as ++ bs)))).toNat = match e with
      | .little => load .big bs * 2 ^ 32 + load .big as
      | .big => load .big as * 2 ^ 32 + load .big bs := by
  have hlt := load_lt e (as ++ bs)
  rw [List.length_append, ha, hb] at hlt
  have hword : (UInt64.ofNat (load e (as ++ bs))).toNat = load e (as ++ bs) := by
    rw [UInt64.toNat_ofNat']
    omega
  have hload : ∀ {cs : List UInt8}, cs.length = 4 →
      (ntohl e (.ofNat (load e cs))).toNat = load .big cs := by
    intro cs hc
    have hcs := load_lt .big cs
    rw [hc] at hcs
    rw [ntohl_load e hc, UInt32.toNat_ofNat']
    omega
  rw [toNat_myUtilNtohll, hword, load_append]
  have has := load_lt e as
  have hbs := load_lt e bs
  rw [ha] at has
  rw [hb] at hbs
  cases e with
  | little =>
      have hdiv : (load .little as + 256 ^ as.length * load .little bs) / 2 ^ 32 =
          load .little bs := by
        rw [ha]
        omega
      have hmod : (load .little as + 256 ^ as.length * load .little bs) % 2 ^ 32 =
          load .little as := by
        rw [ha]
        omega
      simp only [hdiv, hmod, hload ha, hload hb]
  | big =>
      have hdiv : (load .big bs + 256 ^ bs.length * load .big as) / 2 ^ 32 = load .big as := by
        rw [hb]
        omega
      have hmod : (load .big bs + 256 ^ bs.length * load .big as) % 2 ^ 32 = load .big bs := by
        rw [hb]
        omega
      simp only [hdiv, hmod, hload ha, hload hb]

/-- The two 32-bit halves exchanged. -/
def swapHalves (v : UInt64) : UInt64 := .ofNat (v.toNat % 2 ^ 32 * 2 ^ 32 + v.toNat / 2 ^ 32)

theorem toNat_swapHalves (v : UInt64) :
    (swapHalves v).toNat = v.toNat % 2 ^ 32 * 2 ^ 32 + v.toNat / 2 ^ 32 := by
  have hv := v.toNat_lt
  rw [swapHalves, UInt64.toNat_ofNat']
  omega

theorem swapHalves_eq_iff (v : UInt64) :
    swapHalves v = v ↔ v.toNat / 2 ^ 32 = v.toNat % 2 ^ 32 := by
  have hv := v.toNat_lt
  rw [← UInt64.toNat_inj, toNat_swapHalves]
  omega

/-- What becomes of a word that `MyUtil_htonll` converts on one host and `MyUtil_ntohll`
on another. -/
def betweenHosts (e e' : Endian) (v : UInt64) : UInt64 := if e = e' then v else swapHalves v

@[simp] theorem betweenHosts_self (e : Endian) (v : UInt64) : betweenHosts e e v = v :=
  if_pos rfl

theorem betweenHosts_eq_iff (e e' : Endian) (v : UInt64) :
    betweenHosts e e' v = v ↔ e = e' ∨ v.toNat / 2 ^ 32 = v.toNat % 2 ^ 32 := by
  unfold betweenHosts
  split_ifs with h
  · exact iff_of_true rfl (.inl h)
  · rw [swapHalves_eq_iff, or_iff_right h]

theorem myUtilNtohll_between (e e' : Endian) (v : UInt64) :
    myUtilNtohll e' (.ofNat (load e' (store e 8 (myUtilHtonll e v).toNat))) =
      betweenHosts e e' v := by
  have hv := v.toNat_lt
  have hlow : load .big (store .big 4 (v.toNat % 2 ^ 32)) = v.toNat % 2 ^ 32 := by
    rw [load_store]
    omega
  have hhigh : load .big (store .big 4 (v.toNat / 2 ^ 32)) = v.toNat / 2 ^ 32 := by
    rw [load_store]
    omega
  have hback := fun as bs ha hb => @myUtilNtohll_load e' as bs ha hb
  rw [store_myUtilHtonll, betweenHosts]
  apply UInt64.toNat_inj.mp
  cases e with
  | little =>
      refine (hback _ _ (length_store _ _ _) (length_store _ _ _)).trans ?_
      cases e' with
      | little =>
          simp only [hlow, hhigh, if_true]
          omega
      | big => simp only [hlow, hhigh, reduceCtorEq, if_false, toNat_swapHalves]
  | big =>
      refine (hback _ _ (length_store _ _ _) (length_store _ _ _)).trans ?_
      cases e' with
      | little => simp only [hlow, hhigh, reduceCtorEq, if_false, toNat_swapHalves]
      | big =>
          simp only [hlow, hhigh, if_true]
          omega

end MyWorkEnv
