import Mathlib.Data.List.Basic
import Mathlib.Tactic

/-!
# Fixed-width integers in memory

An `n`-byte unsigned integer is stored in memory least significant byte first
(`Endian.little`) or most significant byte first (`Endian.big`). `store` and
`load` are the two directions; `hostToNet` is the usual host/network
conversion, a byte reversal on a little-endian host and the identity on a
big-endian one. Storing a converted value always yields the big-endian bytes
(`store_hostToNet`), which is what makes the conversion portable.
-/

namespace FixedWidth

inductive Endian where
  | little
  | big
deriving DecidableEq, Repr

/-- Least significant byte first, truncated to `n` bytes. -/
def leBytes : ℕ → ℕ → List UInt8
  | 0, _ => []
  | n + 1, v => UInt8.ofNat v :: leBytes n (v / 256)

def leValue : List UInt8 → ℕ
  | [] => 0
  | b :: bs => b.toNat + 256 * leValue bs

/-- The object representation of an `n`-byte integer. -/
def store (e : Endian) (n v : ℕ) : List UInt8 :=
  match e with
  | .little => leBytes n v
  | .big => (leBytes n v).reverse

def load (e : Endian) (bs : List UInt8) : ℕ :=
  match e with
  | .little => leValue bs
  | .big => leValue bs.reverse

def hostToNet (e : Endian) (n v : ℕ) : ℕ :=
  match e with
  | .little => leValue (leBytes n v).reverse
  | .big => v

@[simp] theorem length_leBytes (n v : ℕ) : (leBytes n v).length = n := by
  induction n generalizing v with
  | zero => rfl
  | succ n ih => simp [leBytes, ih]

@[simp] theorem length_store (e : Endian) (n v : ℕ) : (store e n v).length = n := by
  cases e <;> simp [store]

theorem leValue_leBytes (n v : ℕ) : leValue (leBytes n v) = v % 256 ^ n := by
  induction n generalizing v with
  | zero => simp [leBytes, leValue, Nat.mod_one]
  | succ n ih =>
      have hb : (UInt8.ofNat v).toNat = v % 256 := by simp
      rw [leBytes, leValue, ih, hb, pow_succ', Nat.mod_mul]

theorem leBytes_leValue (bs : List UInt8) : leBytes bs.length (leValue bs) = bs := by
  induction bs with
  | nil => rfl
  | cons b bs ih =>
      have hb : b.toNat < 256 := b.toNat_lt
      have hlow : UInt8.ofNat (b.toNat + 256 * leValue bs) = b := by
        apply UInt8.toNat_inj.mp
        simp only [UInt8.toNat_ofNat']
        omega
      have hhigh : (b.toNat + 256 * leValue bs) / 256 = leValue bs := by omega
      simp only [List.length_cons, leValue, leBytes, hlow, hhigh, ih]

theorem leValue_lt (bs : List UInt8) : leValue bs < 256 ^ bs.length := by
  rw [← leBytes_leValue bs, leValue_leBytes, leBytes_leValue bs]
  exact Nat.mod_lt _ (by positivity)

theorem load_lt (e : Endian) (bs : List UInt8) : load e bs < 256 ^ bs.length := by
  cases e with
  | little => exact leValue_lt bs
  | big => simpa [load] using leValue_lt bs.reverse

/-- Reading back what was stored loses only the bits that did not fit. -/
theorem load_store (e : Endian) (n v : ℕ) : load e (store e n v) = v % 256 ^ n := by
  cases e <;> simp [load, store, leValue_leBytes]

theorem hostToNet_lt {e : Endian} {n v : ℕ} (hv : v < 256 ^ n) :
    hostToNet e n v < 256 ^ n := by
  cases e with
  | little => simpa [hostToNet] using leValue_lt (leBytes n v).reverse
  | big => exact hv

/-- On either host the stored bytes of a converted value are big-endian. -/
theorem store_hostToNet (e : Endian) (n v : ℕ) :
    store e n (hostToNet e n v) = store .big n v := by
  cases e with
  | big => rfl
  | little =>
      have h := leBytes_leValue (leBytes n v).reverse
      simpa [store, hostToNet] using h

/-- On either host converting a loaded value reads the bytes as big-endian. -/
theorem hostToNet_load (e : Endian) (bs : List UInt8) :
    hostToNet e bs.length (load e bs) = load .big bs := by
  cases e with
  | big => rfl
  | little => simp [hostToNet, load, leBytes_leValue]

theorem hostToNet_hostToNet {e : Endian} {n v : ℕ} (hv : v < 256 ^ n) :
    hostToNet e n (hostToNet e n v) = v := by
  cases e with
  | big => rfl
  | little =>
      have h := leBytes_leValue (leBytes n v).reverse
      simp only [List.length_reverse, length_leBytes] at h
      simp only [hostToNet, h, List.reverse_reverse, leValue_leBytes]
      exact Nat.mod_eq_of_lt hv

/-! ## Words made of two words -/

theorem leBytes_add (m n v : ℕ) :
    leBytes (m + n) v = leBytes m v ++ leBytes n (v / 256 ^ m) := by
  induction m generalizing v with
  | zero => simp [leBytes]
  | succ m ih =>
      rw [Nat.succ_add, leBytes, ih, leBytes, List.cons_append, Nat.div_div_eq_div_mul,
        ← pow_succ']

theorem leValue_append (as bs : List UInt8) :
    leValue (as ++ bs) = leValue as + 256 ^ as.length * leValue bs := by
  induction as with
  | nil => simp [leValue]
  | cons a as ih =>
      rw [List.cons_append, leValue, ih, leValue, List.length_cons, pow_succ']
      ring

/-- The bytes of the low word come first, or those of the high word do. -/
theorem store_add (e : Endian) (m n v : ℕ) :
    store e (m + n) v = match e with
      | .little => store .little m v ++ store .little n (v / 256 ^ m)
      | .big => store .big n (v / 256 ^ m) ++ store .big m v := by
  cases e with
  | little => exact leBytes_add m n v
  | big => simp [store, leBytes_add]

theorem load_append (e : Endian) (as bs : List UInt8) :
    load e (as ++ bs) = match e with
      | .little => load .little as + 256 ^ as.length * load .little bs
      | .big => load .big bs + 256 ^ bs.length * load .big as := by
  cases e with
  | little => exact leValue_append as bs
  | big => simp [load, leValue_append]

/-- Only the value modulo `256 ^ n` is stored. -/
theorem leBytes_mod (n v : ℕ) : leBytes n (v % 256 ^ n) = leBytes n v := by
  have h := leBytes_leValue (leBytes n v)
  rwa [length_leBytes, leValue_leBytes] at h

theorem store_mod (e : Endian) (n v : ℕ) : store e n (v % 256 ^ n) = store e n v := by
  cases e <;> simp [store, leBytes_mod]

end FixedWidth
