import Mathlib.Data.List.Basic
import Mathlib.Algebra.Order.Ring.Nat
import Mathlib.Tactic.Ring
/-!
# Numbers as bytes

Fixed-width little- and big-endian words, and the bit operations wire formats
use to build and split them, as arithmetic.
-/

namespace LinkLib

abbrev Bytes := List UInt8

namespace Bytes

/-- `k` bytes of `n`, low byte first. -/
def toLe : Nat → Nat → Bytes
  | 0, _ => []
  | k + 1, n => UInt8.ofNat n :: toLe k (n / 256)

def ofLe (bs : Bytes) : Nat := bs.foldr (fun b n => b.toNat + 256 * n) 0

/-- `k` bytes of `n`, high byte first: `struct.pack` with `>`. -/
def toBe (k n : Nat) : Bytes := (toLe k n).reverse

/-- `struct.unpack` with `>`. -/
def ofBe (bs : Bytes) : Nat := ofLe bs.reverse

@[simp] theorem length_toLe (k n : Nat) : (toLe k n).length = k := by
  induction k generalizing n with
  | zero => rfl
  | succ k ih => simp [toLe, ih]

@[simp] theorem length_toBe (k n : Nat) : (toBe k n).length = k := by simp [toBe]

theorem ofNat_and_ff (n : Nat) : UInt8.ofNat (n &&& 0xFF) = UInt8.ofNat n := by
  rw [← UInt8.toNat_inj, UInt8.toNat_ofNat', UInt8.toNat_ofNat', Nat.and_two_pow_sub_one_eq_mod n 8]
  omega

/-- Byte `i` of a little-endian word is `(n >> 8 * i) & 0xFF`. -/
theorem toLe_eq_map (k n : Nat) : toLe k n = (List.range k).map fun i => UInt8.ofNat ((n >>> (8 * i)) &&& 0xFF) := by
  induction k generalizing n with
  | zero => rfl
  | succ k ih =>
    have hshift : ∀ i, n >>> (8 * (i + 1)) = (n / 256) >>> (8 * i) := by
      intro i
      rw [show 8 * (i + 1) = 8 + 8 * i by ring, Nat.shiftRight_add, Nat.shiftRight_eq_div_pow n 8]
    simp only [toLe, ih, List.range_succ_eq_map, List.map_cons, List.map_map, Function.comp_def, hshift,
      Nat.mul_zero, Nat.shiftRight_zero, ofNat_and_ff]

/-- `struct.pack` written out: the high byte first. -/
theorem toBe_eq_map (k n : Nat) :
    toBe k n = ((List.range k).reverse).map fun i => UInt8.ofNat ((n >>> (8 * i)) &&& 0xFF) := by
  rw [toBe, toLe_eq_map, List.map_reverse]

theorem ofLe_toLe {k n : Nat} (h : n < 256 ^ k) : ofLe (toLe k n) = n := by
  induction k generalizing n with
  | zero => simp at h; simp [h, toLe, ofLe]
  | succ k ih =>
    have hd : n / 256 < 256 ^ k := by rw [pow_succ] at h; omega
    have := ih hd
    simp only [ofLe, toLe, List.foldr_cons, UInt8.toNat_ofNat'] at this ⊢
    omega

theorem ofBe_toBe {k n : Nat} (h : n < 256 ^ k) : ofBe (toBe k n) = n := by
  simp [ofBe, toBe, ofLe_toLe h]

theorem ofBe_toBe_4 {n : Nat} (h : n < 2 ^ 32) : ofBe (toBe 4 n) = n := ofBe_toBe (Nat.lt_of_lt_of_eq h (by decide))

theorem toBe_4_inj {m n : Nat} (hm : m < 2 ^ 32) (hn : n < 2 ^ 32) (h : toBe 4 m = toBe 4 n) : m = n := by
  rw [← ofBe_toBe_4 hm, h, ofBe_toBe_4 hn]

/-- A byte string of the right length is the word of its value. -/
theorem toLe_ofLe (bs : Bytes) : toLe bs.length (ofLe bs) = bs := by
  induction bs with
  | nil => rfl
  | cons b bs ih =>
    have hb := b.toNat_lt
    have hlo : UInt8.ofNat (b.toNat + 256 * ofLe bs) = b := by
      rw [← UInt8.toNat_inj, UInt8.toNat_ofNat']
      omega
    have hhi : (b.toNat + 256 * ofLe bs) / 256 = ofLe bs := by omega
    simp only [ofLe, List.foldr_cons, List.length_cons, toLe] at ih hlo hhi ⊢
    rw [hlo, hhi, ih]

theorem toBe_ofBe {k : Nat} {bs : Bytes} (h : bs.length = k) : toBe k (ofBe bs) = bs := by
  have := toLe_ofLe bs.reverse
  rw [List.length_reverse, h] at this
  rw [toBe, ofBe, this, List.reverse_reverse]

theorem ofLe_lt (bs : Bytes) : ofLe bs < 256 ^ bs.length := by
  induction bs with
  | nil => simp [ofLe]
  | cons b bs ih =>
    have := b.toNat_lt
    simp only [ofLe, List.foldr_cons, List.length_cons, pow_succ] at ih ⊢
    omega

theorem ofBe_lt (bs : Bytes) : ofBe bs < 256 ^ bs.length := by simpa [ofBe] using ofLe_lt bs.reverse

/-! ## Bit operations -/

theorem and_ff (n : Nat) : n &&& 0xFF = n % 256 := Nat.and_two_pow_sub_one_eq_mod n 8

theorem shiftRight_8 (n : Nat) : n >>> 8 = n / 256 := Nat.shiftRight_eq_div_pow n 8

/-- `lo | (hi << 8)` is the 16-bit word with these bytes. -/
theorem or_shiftLeft_8 (lo hi : UInt8) : lo.toNat ||| (hi.toNat <<< 8) = lo.toNat + 256 * hi.toNat := by
  have h := Nat.shiftLeft_add_eq_or_of_lt (i := 8) lo.toNat_lt hi.toNat
  rw [Nat.or_comm, ← h, Nat.shiftLeft_eq]
  omega

/-- Splitting a 16-bit word with `& 0xFF` and `>> 8` and joining it again. -/
theorem word_split {n : Nat} (h : n < 65536) :
    (UInt8.ofNat (n &&& 0xFF)).toNat ||| ((UInt8.ofNat ((n >>> 8) &&& 0xFF)).toNat <<< 8) = n := by
  rw [or_shiftLeft_8, and_ff, and_ff, shiftRight_8]
  simp only [UInt8.toNat_ofNat']
  omega

end Bytes

end LinkLib
