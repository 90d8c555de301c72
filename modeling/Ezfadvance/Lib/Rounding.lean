import Mathlib.Data.Nat.Bitwise
import Mathlib.Order.Bounds.Basic

/-!
# Lib.Rounding

Rounding up, as word code does it.

* `up x a`: the least multiple of `a` at or above `x`.
* `toNat_and_not_mask`: clearing the low `k` bits of a machine word by `&&& ~~~(2^k - 1)` rounds
  it down to a multiple of `2^k`.
* `PowCeil x p`: `p` is the least power of two at or above `x`. It is unique (`PowCeil.unique`).
* `Covers w y z`: bit `i` of `z` is set when one of the bits `i .. i + w - 1` of `y` is. Or-ing a
  word with itself shifted right by `w` doubles the window (`covers_double`); once the window is
  as wide as `y`, `z` is all ones below the top bit of `y` (`covers_eq`).
-/

namespace Rounding

/-- The least multiple of `a` at or above `x`. -/
def up (x a : Nat) : Nat := (x + a - 1) / a * a

theorem dvd_up (x a : Nat) : a ∣ up x a := Nat.dvd_mul_left _ _

theorem le_up {x a : Nat} (ha : 0 < a) : x ≤ up x a := by
  have h1 := Nat.div_add_mod (x + a - 1) a
  have h2 := Nat.mod_lt (x + a - 1) ha
  have h3 : up x a = a * ((x + a - 1) / a) := Nat.mul_comm _ _
  omega

theorem up_lt {x a : Nat} (ha : 0 < a) : up x a < x + a := by
  have h1 := Nat.div_mul_le_self (x + a - 1) a
  have h2 : up x a = (x + a - 1) / a * a := rfl
  omega

theorem up_le {x a y : Nat} (ha : 0 < a) (hxy : x ≤ y) (hy : a ∣ y) : up x a ≤ y := by
  obtain ⟨q, rfl⟩ := hy
  have h : (x + a - 1) / a < q + 1 := by
    rw [Nat.div_lt_iff_lt_mul ha, Nat.succ_mul, Nat.mul_comm q a]
    omega
  calc up x a = (x + a - 1) / a * a := rfl
    _ ≤ q * a := Nat.mul_le_mul_right a (Nat.le_of_lt_succ h)
    _ = a * q := Nat.mul_comm _ _

theorem up_eq_of_dvd {x a : Nat} (ha : 0 < a) (h : a ∣ x) : up x a = x :=
  Nat.le_antisymm (up_le ha (Nat.le_refl x) h) (le_up ha)

/-! ## Masks -/

theorem shift_left_right_eq (n k : Nat) : (n >>> k) <<< k = n / 2 ^ k * 2 ^ k := by
  rw [Nat.shiftLeft_eq, Nat.shiftRight_eq_div_pow]

theorem toNat_and_not_mask {w : Nat} (y : BitVec w) (k : Nat) :
    (y &&& ~~~(BitVec.ofNat w (2 ^ k - 1))).toNat = y.toNat / 2 ^ k * 2 ^ k := by
  rw [← shift_left_right_eq]
  apply Nat.eq_of_testBit_eq
  intro i
  rw [← BitVec.getLsbD, Nat.testBit_shiftLeft, Nat.testBit_shiftRight]
  by_cases hi : i < w
  · have hmask : (BitVec.ofNat w (2 ^ k - 1)).getLsbD i = decide (i < k) := by
      rw [BitVec.getLsbD_ofNat, Nat.testBit_two_pow_sub_one]
      simp [hi]
    rw [BitVec.getLsbD_and, BitVec.getLsbD_not, hmask]
    by_cases hk : i < k
    · simp [hi, hk]
    · simp [hi, hk, Nat.not_lt.mp hk, BitVec.getLsbD]
  · have hy : y.toNat.testBit i = false :=
      Nat.testBit_lt_two_pow (Nat.lt_of_lt_of_le y.isLt (Nat.pow_le_pow_right (by omega) (by omega)))
    rw [BitVec.getLsbD_of_ge _ _ (by omega)]
    by_cases hk : k ≤ i
    · simp [hk, hy]
    · simp [hk]

/-! ## Powers of two -/

/-- `p` is the least power of two at or above `x`. -/
def PowCeil (x p : Nat) : Prop := ∃ k, p = 2 ^ k ∧ x ≤ 2 ^ k ∧ 2 ^ k < 2 * x

theorem PowCeil.unique {x p q : Nat} (hp : PowCeil x p) (hq : PowCeil x q) : p = q := by
  obtain ⟨k, rfl, hk1, hk2⟩ := hp
  obtain ⟨m, rfl, hm1, hm2⟩ := hq
  have h1 : k < m + 1 := by
    rw [← Nat.pow_lt_pow_iff_right (a := 2) (by omega), Nat.pow_succ]; omega
  have h2 : m < k + 1 := by
    rw [← Nat.pow_lt_pow_iff_right (a := 2) (by omega), Nat.pow_succ]; omega
  rw [show k = m by omega]

/-- The next multiple after one below another multiple is at most that. -/
theorem add_le_of_dvd_of_lt {c a b : Nat} (ha : c ∣ a) (hb : c ∣ b) (h : a < b) : a + c ≤ b := by
  have hc := Nat.le_of_dvd (Nat.sub_pos_of_lt h) (Nat.dvd_sub hb ha)
  omega

theorem PowCeil.le {x p : Nat} (h : PowCeil x p) : x ≤ p := by
  obtain ⟨k, rfl, hk, _⟩ := h; exact hk

theorem PowCeil.pos {x p : Nat} (h : PowCeil x p) : 0 < p := by
  obtain ⟨k, rfl, _, _⟩ := h; exact Nat.two_pow_pos k

theorem PowCeil.isLeast {x p : Nat} (h : PowCeil x p) :
    IsLeast {q | (∃ k, q = 2 ^ k) ∧ x ≤ q} p := by
  obtain ⟨k, rfl, hk, hmin⟩ := h
  refine ⟨⟨⟨k, rfl⟩, hk⟩, ?_⟩
  rintro q ⟨⟨m, rfl⟩, hm⟩
  have hlt : k < m + 1 := by
    rw [← Nat.pow_lt_pow_iff_right (a := 2) (by omega), Nat.pow_succ]
    omega
  exact Nat.pow_le_pow_right (by omega) (by omega)

theorem powCeil_pow (k : Nat) : PowCeil (2 ^ k) (2 ^ k) :=
  ⟨k, rfl, Nat.le_refl _, by have := Nat.two_pow_pos k; omega⟩

/-- Below a power of two, the rounded value is a divisor of that power. -/
theorem PowCeil.dvd_pow {x p n : Nat} (h : PowCeil x p) (hx : x ≤ 2 ^ n) : p ∣ 2 ^ n := by
  obtain ⟨k, rfl, _, hk⟩ := h
  apply Nat.pow_dvd_pow
  have : k < n + 1 := by
    rw [← Nat.pow_lt_pow_iff_right (a := 2) (by omega), Nat.pow_succ]; omega
  omega

theorem PowCeil.dvd_of_pow_le {x p n : Nat} (h : PowCeil x p) (hx : 2 ^ n ≤ x) : 2 ^ n ∣ p := by
  obtain ⟨k, rfl, hk, _⟩ := h
  apply Nat.pow_dvd_pow
  rw [← Nat.pow_le_pow_iff_right (a := 2) (by omega)]
  omega

/-! ## Smearing the top bit down -/

/-- Bit `i` of `z` is the disjunction of the bits `i .. i + w - 1` of `y`. -/
def Covers (w y z : Nat) : Prop := ∀ i, z.testBit i = true ↔ ∃ d, d < w ∧ y.testBit (i + d) = true

theorem covers_one (y : Nat) : Covers 1 y y := by
  intro i
  constructor
  · intro h; exact ⟨0, by omega, h⟩
  · rintro ⟨d, hd, h⟩
    rwa [show d = 0 by omega] at h

theorem covers_double {w y z : Nat} (h : Covers w y z) : Covers (2 * w) y (z ||| z >>> w) := by
  intro i
  rw [Nat.testBit_or, Nat.testBit_shiftRight, Bool.or_eq_true, h i, h (w + i)]
  constructor
  · rintro (⟨d, hd, hb⟩ | ⟨d, hd, hb⟩)
    · exact ⟨d, by omega, hb⟩
    · exact ⟨w + d, by omega, by rwa [show i + (w + d) = w + i + d by omega]⟩
  · rintro ⟨d, hd, hb⟩
    by_cases hdw : d < w
    · exact .inl ⟨d, hdw, hb⟩
    · exact .inr ⟨d - w, by omega, by rwa [show w + i + (d - w) = i + d by omega]⟩

theorem covers_eq {w y z : Nat} (h : Covers w y z) (hy : y ≠ 0) (hw : y < 2 ^ w) :
    z = 2 ^ (y.log2 + 1) - 1 := by
  have hlt : y < 2 ^ (y.log2 + 1) := Nat.lt_log2_self
  have hlog : y.log2 < w := (Nat.log2_lt hy).mpr hw
  apply Nat.eq_of_testBit_eq
  intro i
  rw [Nat.testBit_two_pow_sub_one, Bool.eq_iff_iff, h i, decide_eq_true_iff]
  constructor
  · rintro ⟨d, _, hb⟩
    have := Nat.ge_two_pow_of_testBit hb
    have h2 : i + d < y.log2 + 1 := by
      rw [← Nat.pow_lt_pow_iff_right (a := 2) (by omega)]; omega
    omega
  · intro hi
    refine ⟨y.log2 - i, by omega, ?_⟩
    rw [show i + (y.log2 - i) = y.log2 by omega]
    exact Nat.testBit_log2 hy

/-- All ones below the top bit of `x - 1`, plus one, is the least power of two above `x`. -/
theorem powCeil_log2 {x : Nat} (hx : 2 ≤ x) : PowCeil x (2 ^ ((x - 1).log2 + 1)) := by
  have h1 : 2 ^ (x - 1).log2 ≤ x - 1 := Nat.log2_self_le (by omega)
  have h2 : x - 1 < 2 ^ ((x - 1).log2 + 1) := Nat.lt_log2_self
  refine ⟨_, rfl, by omega, ?_⟩
  rw [Nat.pow_succ]
  omega

end Rounding
