import Ezfadvance.Bytes
import Ezfadvance.Lib.Segments
import Ezfadvance.Lib.Rounding

/-!
# RomSize

What the tools derive from the size and the trailing `FF` of a ROM: the catalog type
(`rom_analyzer.cpp`), the size class that aligns it on the card, and the end of its meaningful
bytes (`cartridge_image_builder.cpp`).

* `nextPowerOfTwoU32_spec`, `alignUpU32_toNat`, `alignUpU64_toNat`: the bit tricks compute
  `PowCeil` and `up`.
* `entryType_spec`: the catalog type names the size class.
* `meaningfulRomEnd_*`: the bytes behind the meaningful end are `FF`.
-/

namespace Ezfadvance

open Segments Rounding

def programBlock : Nat := 0x10000
def cardHalfSize : Nat := 0x1000000
def maxCardImage : Nat := 0x2000000

/-! ## Bit tricks -/

def alignUpU32 (x a : UInt32) : UInt32 := (x + a - 1) &&& ~~~(a - 1)

def alignUpU64 (x a : UInt64) : UInt64 := (x + a - 1) &&& ~~~(a - 1)

def nextPowerOfTwoU32 (x : UInt32) : UInt32 :=
  if x ≤ 1 then 1
  else
    let x := x - 1
    let x := x ||| x >>> 1
    let x := x ||| x >>> 2
    let x := x ||| x >>> 4
    let x := x ||| x >>> 8
    let x := x ||| x >>> 16
    x + 1

theorem alignUpU32_toNat {x a : UInt32} {k : Nat} (ha : a.toNat = 2 ^ k)
    (hx : x.toNat + a.toNat < 2 ^ 32) : (alignUpU32 x a).toNat = up x.toNat a.toNat := by
  have hpos : 0 < 2 ^ k := Nat.two_pow_pos k
  have hmask : a - 1 = UInt32.ofNat (2 ^ k - 1) := by
    apply UInt32.toNat_inj.mp
    rw [UInt32.toNat_sub_of_le _ _ (by rw [UInt32.le_iff_toNat_le, UInt32.toNat_one]; omega),
      UInt32.toNat_one, UInt32.toNat_ofNat', ha, Nat.mod_eq_of_lt (by omega)]
  have hsum : (x + a - 1).toNat = x.toNat + a.toNat - 1 := by
    have hadd : (x + a).toNat = x.toNat + a.toNat := by
      rw [UInt32.toNat_add, Nat.mod_eq_of_lt hx]
    rw [UInt32.toNat_sub_of_le _ _ (by rw [UInt32.le_iff_toNat_le, UInt32.toNat_one, hadd]; omega),
      hadd, UInt32.toNat_one]
  have h := toNat_and_not_mask (x + a - 1).toBitVec k
  rw [alignUpU32, hmask]
  calc ((x + a - 1) &&& ~~~UInt32.ofNat (2 ^ k - 1)).toNat
      = (x + a - 1).toNat / 2 ^ k * 2 ^ k := h
    _ = up x.toNat a.toNat := by rw [hsum, up, ha]

theorem alignUpU64_toNat {x a : UInt64} {k : Nat} (ha : a.toNat = 2 ^ k)
    (hx : x.toNat + a.toNat < 2 ^ 64) : (alignUpU64 x a).toNat = up x.toNat a.toNat := by
  have hpos : 0 < 2 ^ k := Nat.two_pow_pos k
  have hmask : a - 1 = UInt64.ofNat (2 ^ k - 1) := by
    apply UInt64.toNat_inj.mp
    rw [UInt64.toNat_sub_of_le _ _ (by rw [UInt64.le_iff_toNat_le, UInt64.toNat_one]; omega),
      UInt64.toNat_one, UInt64.toNat_ofNat', ha, Nat.mod_eq_of_lt (by omega)]
  have hsum : (x + a - 1).toNat = x.toNat + a.toNat - 1 := by
    have hadd : (x + a).toNat = x.toNat + a.toNat := by
      rw [UInt64.toNat_add, Nat.mod_eq_of_lt hx]
    rw [UInt64.toNat_sub_of_le _ _ (by rw [UInt64.le_iff_toNat_le, UInt64.toNat_one, hadd]; omega),
      hadd, UInt64.toNat_one]
  have h := toNat_and_not_mask (x + a - 1).toBitVec k
  rw [alignUpU64, hmask]
  calc ((x + a - 1) &&& ~~~UInt64.ofNat (2 ^ k - 1)).toNat
      = (x + a - 1).toNat / 2 ^ k * 2 ^ k := h
    _ = up x.toNat a.toNat := by rw [hsum, up, ha]

/-- One line of `next_power_of_two_u32` doubles the window of bits that have been or-ed. -/
theorem covers_word {y : Nat} {z w : UInt32} (hw : w.toNat < 32) (h : Covers w.toNat y z.toNat) :
    Covers (2 * w.toNat) y (z ||| z >>> w).toNat := by
  rw [UInt32.toNat_or, UInt32.toNat_shiftRight, Nat.mod_eq_of_lt hw]
  exact covers_double h

theorem nextPowerOfTwoU32_spec {x : UInt32} (h1 : 2 ≤ x.toNat) (h2 : x.toNat ≤ 2 ^ 31) :
    PowCeil x.toNat (nextPowerOfTwoU32 x).toNat := by
  have hone : ¬ x ≤ 1 := by rw [UInt32.le_iff_toNat_le, UInt32.toNat_one]; omega
  have hy : (x - 1).toNat = x.toNat - 1 := by
    rw [UInt32.toNat_sub_of_le _ _ (by rw [UInt32.le_iff_toNat_le, UInt32.toNat_one]; omega)]
    rfl
  have c1 : Covers 1 (x.toNat - 1) (x - 1).toNat := by rw [hy]; exact covers_one _
  have c2 : Covers 2 (x.toNat - 1) _ := covers_word (w := 1) (by decide) c1
  have c4 : Covers 4 (x.toNat - 1) _ := covers_word (w := 2) (by decide) c2
  have c8 : Covers 8 (x.toNat - 1) _ := covers_word (w := 4) (by decide) c4
  have c16 : Covers 16 (x.toNat - 1) _ := covers_word (w := 8) (by decide) c8
  have c32 : Covers 32 (x.toNat - 1) _ := covers_word (w := 16) (by decide) c16
  have hsmear := covers_eq c32 (by omega) (by omega)
  have hlog : (x.toNat - 1).log2 < 31 := (Nat.log2_lt (by omega)).mpr (by omega)
  have hpow : 2 ^ ((x.toNat - 1).log2 + 1) ≤ 2 ^ 31 := Nat.pow_le_pow_right (by omega) (by omega)
  have hpos := Nat.two_pow_pos ((x.toNat - 1).log2 + 1)
  have hval : (nextPowerOfTwoU32 x).toNat = 2 ^ ((x.toNat - 1).log2 + 1) := by
    unfold nextPowerOfTwoU32
    rw [if_neg hone]
    dsimp only
    rw [UInt32.toNat_add, hsmear, UInt32.toNat_one]
    omega
  rw [hval]
  exact powCeil_log2 h1

/-! ## Size classes -/

inductive RomSizeError where
  | romFileExceedsCapacity
  | sizeClassExceedsGeometry
  deriving DecidableEq

def RomSizeError.message : RomSizeError → String
  | .romFileExceedsCapacity => "ROM file exceeds 256-Mbit cartridge capacity"
  | .sizeClassExceedsGeometry => "ROM size class exceeds cartridge geometry"

/-- The loop of `entryType`. -/
def entryTypeFrom (size : Nat) : Nat → Nat → Except RomSizeError UInt8
  | 0, sizeClass =>
    if sizeClass < size then .error .sizeClassExceedsGeometry else .ok 0
  | type + 1, sizeClass =>
    if sizeClass < size then
      if sizeClass * 2 > maxCardImage then .error .sizeClassExceedsGeometry
      else entryTypeFrom size type (sizeClass * 2)
    else .ok (UInt8.ofNat (type + 1))

def entryType (size : Nat) : Except RomSizeError UInt8 :=
  if size > maxCardImage then .error .romFileExceedsCapacity
  else entryTypeFrom size 9 programBlock

def multiRomSizeClassAlignment (fileSize : Nat) : Except RomSizeError UInt32 :=
  if fileSize > maxCardImage then .error .romFileExceedsCapacity
  else
    let wanted := UInt32.ofNat (max programBlock fileSize)
    let a := nextPowerOfTwoU32 wanted
    if a = 0 ∨ a.toNat > maxCardImage then .error .sizeClassExceedsGeometry else .ok a

/-- The size class of a file: the least power of two that holds it, at least 64 KiB. -/
def SizeClass (fileSize sizeClass : Nat) : Prop := PowCeil (max programBlock fileSize) sizeClass

theorem SizeClass.block_dvd {n c : Nat} (h : SizeClass n c) : programBlock ∣ c :=
  PowCeil.dvd_of_pow_le (n := 16) h (Nat.le_max_left ..)

theorem SizeClass.dvd_card {n c : Nat} (h : SizeClass n c) (hn : n ≤ maxCardImage) :
    c ∣ maxCardImage :=
  PowCeil.dvd_pow (n := 25) h (Nat.max_le.mpr ⟨by decide, hn⟩)

theorem SizeClass.le {n c : Nat} (h : SizeClass n c) : n ≤ c :=
  Nat.le_trans (Nat.le_max_right ..) (PowCeil.le h)

/-- The class of a larger file is a multiple of the class of a smaller one. -/
theorem SizeClass.dvd_of_le {n m c d : Nat} (hn : SizeClass n c) (hm : SizeClass m d)
    (h : n ≤ m) : c ∣ d := by
  obtain ⟨k, rfl, hk, _⟩ := hm
  exact PowCeil.dvd_pow hn (by omega)

theorem multiRomSizeClassAlignment_spec {fileSize : Nat} (h : fileSize ≤ maxCardImage) :
    ∃ a, multiRomSizeClassAlignment fileSize = .ok a ∧ SizeClass fileSize a.toNat := by
  have hwanted : (UInt32.ofNat (max programBlock fileSize)).toNat = max programBlock fileSize := by
    rw [UInt32.toNat_ofNat', Nat.mod_eq_of_lt]
    simp only [programBlock, maxCardImage] at h ⊢
    omega
  have hspec : SizeClass fileSize
      (nextPowerOfTwoU32 (UInt32.ofNat (max programBlock fileSize))).toNat := by
    have := nextPowerOfTwoU32_spec (x := UInt32.ofNat (max programBlock fileSize))
      (by rw [hwanted]; simp only [programBlock]; omega)
      (by rw [hwanted]; simp only [programBlock, maxCardImage] at h ⊢; omega)
    rwa [hwanted] at this
  have hle := Nat.le_of_dvd (by decide) (hspec.dvd_card h)
  have hne : nextPowerOfTwoU32 (UInt32.ofNat (max programBlock fileSize)) ≠ 0 := by
    intro h0
    have := PowCeil.pos hspec
    rw [h0] at this
    exact absurd this (by decide)
  refine ⟨_, ?_, hspec⟩
  unfold multiRomSizeClassAlignment
  rw [if_neg (by omega)]
  dsimp only
  rw [if_neg (by rintro (h1 | h1); exacts [hne h1, by omega])]

/-- The invariant of the loop: `sizeClass` is `2 ^ (25 - type)` and no smaller class holds the
file. -/
theorem entryTypeFrom_spec {size : Nat} :
    ∀ {type : Nat} {t : UInt8}, type ≤ 9 →
      (2 ^ (25 - type) = programBlock ∨ 2 ^ (25 - type) < 2 * size) →
      entryTypeFrom size type (2 ^ (25 - type)) = .ok t →
      t.toNat ≤ 9 ∧ SizeClass size (2 ^ (25 - t.toNat)) := by
  have hdone : ∀ {type : Nat}, type ≤ 9 → size ≤ 2 ^ (25 - type) →
      (2 ^ (25 - type) = programBlock ∨ 2 ^ (25 - type) < 2 * size) →
      SizeClass size (2 ^ (25 - type)) := by
    intro type ht hle hmin
    have h16 : 2 ^ 16 ≤ 2 ^ (25 - type) := Nat.pow_le_pow_right (by omega) (by omega)
    refine ⟨25 - type, rfl, ?_, ?_⟩
    · simp only [programBlock]; omega
    · simp only [programBlock] at hmin ⊢; omega
  intro type
  induction type with
  | zero =>
    intro t _ hmin h
    unfold entryTypeFrom at h
    split at h
    case isTrue => cases h
    case isFalse hlt =>
      cases h
      exact ⟨by decide, hdone (Nat.zero_le _) (Nat.not_lt.mp hlt) hmin⟩
  | succ type ih =>
    intro t ht hmin h
    have hdouble : 2 ^ (25 - (type + 1)) * 2 = 2 ^ (25 - type) := by
      rw [← Nat.pow_succ]
      congr 1
      omega
    unfold entryTypeFrom at h
    split at h
    case isTrue hlt =>
      rw [hdouble] at h
      split at h
      case isTrue => cases h
      case isFalse => exact ih (by omega) (.inr (by omega)) h
    case isFalse hlt =>
      cases h
      have hval : (UInt8.ofNat (type + 1)).toNat = type + 1 := by
        rw [UInt8.toNat_ofNat', Nat.mod_eq_of_lt (by omega)]
      rw [hval]
      exact ⟨ht, hdone ht (Nat.not_lt.mp hlt) hmin⟩

theorem entryType_spec {size : Nat} {t : UInt8} (h : entryType size = .ok t) :
    size ≤ maxCardImage ∧ t.toNat ≤ 9 ∧ SizeClass size (2 ^ (25 - t.toNat)) := by
  unfold entryType at h
  split at h
  case isTrue => cases h
  case isFalse hle => exact ⟨by omega, entryTypeFrom_spec (Nat.le_refl 9) (.inl rfl) h⟩

theorem entryTypeFrom_isOk {size : Nat} (h : size ≤ maxCardImage) :
    ∀ {type : Nat}, type ≤ 9 → ∃ t, entryTypeFrom size type (2 ^ (25 - type)) = .ok t := by
  intro type
  induction type with
  | zero =>
    intro _
    refine ⟨0, ?_⟩
    rw [entryTypeFrom, if_neg (by simp only [maxCardImage] at h; omega)]
  | succ type ih =>
    intro ht
    have hdouble : 2 ^ (25 - (type + 1)) * 2 = 2 ^ (25 - type) := by
      rw [← Nat.pow_succ]
      congr 1
      omega
    have hle : 2 ^ (25 - type) ≤ 2 ^ 25 := Nat.pow_le_pow_right (by omega) (by omega)
    unfold entryTypeFrom
    split
    case isTrue =>
      rw [hdouble, if_neg (by simp only [maxCardImage]; omega)]
      exact ih (by omega)
    case isFalse => exact ⟨_, rfl⟩

theorem entryType_isOk {size : Nat} (h : size ≤ maxCardImage) : ∃ t, entryType size = .ok t := by
  unfold entryType
  rw [if_neg (by omega)]
  exact entryTypeFrom_isOk h (Nat.le_refl 9)

/-! ## The meaningful end -/

/-- The loop of `meaningful_rom_end`. -/
def meaningfulEndFrom (rom : Bytes) : Nat → Nat
  | 0 => 0
  | last + 1 =>
    if last + 1 > 0xC0 ∧ rom.getD last 0 = 0xFF then meaningfulEndFrom rom last else last + 1

def meaningfulRomEnd (rom : Bytes) : Nat := meaningfulEndFrom rom rom.length

theorem meaningfulEndFrom_le {rom : Bytes} {n : Nat} : meaningfulEndFrom rom n ≤ n := by
  induction n with
  | zero => exact Nat.le_refl 0
  | succ n ih =>
    unfold meaningfulEndFrom
    split
    · omega
    · exact Nat.le_refl _

theorem meaningfulEndFrom_ge {rom : Bytes} {n : Nat} : min n 0xC0 ≤ meaningfulEndFrom rom n := by
  induction n with
  | zero => omega
  | succ n ih =>
    unfold meaningfulEndFrom
    split
    · omega
    · omega

theorem meaningfulEndFrom_blank {rom : Bytes} {n j : Nat} (h1 : meaningfulEndFrom rom n ≤ j)
    (h2 : j < n) : rom.getD j 0 = 0xFF := by
  induction n with
  | zero => omega
  | succ n ih =>
    unfold meaningfulEndFrom at h1
    split at h1
    case isTrue hff =>
      by_cases hj : j = n
      · rw [hj]; exact hff.2
      · exact ih h1 (by omega)
    case isFalse => omega

theorem meaningfulEndFrom_last {rom : Bytes} {n : Nat} (h : 0xC0 < meaningfulEndFrom rom n) :
    rom.getD (meaningfulEndFrom rom n - 1) 0 ≠ 0xFF := by
  induction n with
  | zero => rw [meaningfulEndFrom] at h; omega
  | succ n ih =>
    unfold meaningfulEndFrom at h ⊢
    split at h
    case isTrue hff => rw [if_pos hff]; exact ih h
    case isFalse hff =>
      rw [if_neg hff, Nat.add_sub_cancel]
      intro hc
      exact hff ⟨h, hc⟩

theorem meaningfulRomEnd_le {rom : Bytes} : meaningfulRomEnd rom ≤ rom.length :=
  meaningfulEndFrom_le

theorem meaningfulRomEnd_ge {rom : Bytes} : min rom.length 0xC0 ≤ meaningfulRomEnd rom :=
  meaningfulEndFrom_ge

/-- Behind the meaningful end there is nothing but `FF`. -/
theorem meaningfulRomEnd_blank {rom : Bytes} {j : Nat} (h : meaningfulRomEnd rom ≤ j) :
    rom.getD j 0xFF = 0xFF := by
  by_cases hj : j < rom.length
  · have := meaningfulEndFrom_blank h hj
    rwa [List.getD_eq_getElem _ _ hj] at this ⊢
  · exact getD_eq_of_ge (Nat.not_lt.mp hj)

/-- A blank tail behind the header is not meaningful. -/
theorem meaningfulRomEnd_le_of_blank {rom : Bytes} {n : Nat} (hn : 0xC0 ≤ n)
    (h : ∀ i, n ≤ i → rom.getD i 0xFF = 0xFF) : meaningfulRomEnd rom ≤ n := by
  by_cases hle : meaningfulRomEnd rom ≤ n
  · exact hle
  · have hlen := @meaningfulRomEnd_le rom
    have hlast : rom.getD (meaningfulRomEnd rom - 1) 0 ≠ 0xFF :=
      meaningfulEndFrom_last (Nat.lt_of_le_of_lt hn (Nat.not_le.mp hle))
    have hblank := h (meaningfulRomEnd rom - 1) (by omega)
    rw [List.getD_eq_getElem _ _ (by omega)] at hlast hblank
    exact absurd hblank hlast

theorem lt_meaningfulRomEnd {rom : Bytes} {j : Nat} {b : UInt8} (h : rom[j]? = some b)
    (hb : b ≠ 0xFF) : j < meaningfulRomEnd rom := by
  by_cases hj : j < meaningfulRomEnd rom
  · exact hj
  · have := meaningfulRomEnd_blank (Nat.not_lt.mp hj)
    rw [List.getD_eq_getElem?_getD, h, Option.getD_some] at this
    exact absurd this hb

end Ezfadvance
