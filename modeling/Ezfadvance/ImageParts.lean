import Ezfadvance.Catalog
import Ezfadvance.ImageBuilder

/-!
# ImageParts

What the pieces of the image builder do, one lemma for each.

* `findFfSlotInImage_*`, `findInternalFfLoaderSlot_*`: the searches return the least slot.
* `length_relocateTemplate`, `relocateTemplate_word`: relocation, word by word.
* `writeCatalogEntry_eq`, `parse_catalogEntry`: what is written for a ROM, and that the entry
  parser reads it back.
* `sortRoms_*`: the sort keeps the ROMs and orders them by size.
-/

namespace Ezfadvance

open Segments CartridgeFormat Rounding

/-! ## Checked writes -/

theorem writeLe16_ok {v : Bytes} {off : Nat} {x : UInt16} (h : off + 2 ≤ v.length) :
    writeLe16 v off x = .ok (blit v off (le16 x)) := if_pos h

theorem writeLe32_ok {v : Bytes} {off : Nat} {x : UInt32} (h : off + 4 ≤ v.length) :
    writeLe32 v off x = .ok (blit v off (le32 x)) := if_pos h

theorem branchTo_ok {target w : UInt32} : branchTo target = .ok w ↔ makeArmBranch target = .ok w := by
  unfold branchTo
  cases makeArmBranch target with
  | error e => simp [Except.mapError]
  | ok v => simp [Except.mapError]

/-! ## Slots -/

theorem alignSlot_eq {bias x : Nat} (hx : x + bias < 2 ^ 64) :
    alignSlot bias x = (x + bias) / 2 ^ 4 * 2 ^ 4 := by
  have hsum : (UInt64.ofNat x + UInt64.ofNat bias).toNat = x + bias := by
    rw [UInt64.toNat_add, UInt64.toNat_ofNat', UInt64.toNat_ofNat', ← Nat.add_mod,
      Nat.mod_eq_of_lt hx]
  have h := toNat_and_not_mask (UInt64.ofNat x + UInt64.ofNat bias).toBitVec 4
  calc alignSlot bias x = (UInt64.ofNat x + UInt64.ofNat bias).toNat / 2 ^ 4 * 2 ^ 4 := h
    _ = (x + bias) / 2 ^ 4 * 2 ^ 4 := by rw [hsum]

/-- A slot for a loader in `image`: 16-byte aligned, behind the header, and all `FF`. -/
abbrev FfSlot (pad : Nat) (image : Bytes) (size : Nat) : Nat → Prop :=
  FirstFit.Slot (fun i => image.getD i 0 == 0xFF) 16 pad (min image.length maxCardImage) size 0xC0

abbrev LeastFfSlot (pad : Nat) (image : Bytes) (size : Nat) : Nat → Prop :=
  FirstFit.LeastSlot (fun i => image.getD i 0 == 0xFF) 16 pad (min image.length maxCardImage) size
    0xC0

theorem alignSlot_15 {image : Bytes} (x : Nat) (hx : x < min image.length maxCardImage) :
    alignSlot 15 x = up (x + 0) 16 := by
  simp only [maxCardImage] at hx
  rw [alignSlot_eq (by omega), up]
  omega

theorem alignSlot_16 {image : Bytes} (x : Nat) (hx : x < min image.length maxCardImage) :
    alignSlot 16 x = up (x + 1) 16 := by
  simp only [maxCardImage] at hx
  rw [alignSlot_eq (by omega), up]
  omega

theorem slot_toNat {pad size a : Nat} {image : Bytes} (h : FfSlot pad image size a) :
    (UInt32.ofNat a).toNat = a := by
  have := h.fits
  simp only [maxCardImage] at this
  rw [UInt32.toNat_ofNat', Nat.mod_eq_of_lt (by omega)]

theorem findFfSlotInImage_some {image : Bytes} {size : Nat} {a : UInt32} (hsize : 0 < size)
    (h : findFfSlotInImage image size = some a) : LeastFfSlot 0 image size a.toNat := by
  rw [findFfSlotInImage, Option.map_eq_some_iff] at h
  obtain ⟨n, hn, rfl⟩ := h
  have hslot : LeastFfSlot 0 image size n := FirstFit.firstFit_some (by omega) hsize alignSlot_15 hn
  rwa [slot_toNat hslot.1]

theorem findFfSlotInImage_none {image : Bytes} {size : Nat} (hsize : 0 < size)
    (h : findFfSlotInImage image size = none) (a : Nat) : ¬ FfSlot 0 image size a := by
  rw [findFfSlotInImage, Option.map_eq_none_iff] at h
  exact FirstFit.firstFit_none (by omega) hsize alignSlot_15 h a

theorem findInternalFfLoaderSlot_some {rom : Bytes} {size : Nat} {a : UInt32}
    (h : findInternalFfLoaderSlot rom size = some a) :
    LeastFfSlot 1 rom (max size multiTemplateLen) a.toNat := by
  rw [findInternalFfLoaderSlot, Option.map_eq_some_iff] at h
  obtain ⟨n, hn, rfl⟩ := h
  have hslot : LeastFfSlot 1 rom (max size multiTemplateLen) n :=
    FirstFit.firstFit_some (by omega) (by simp only [multiTemplateLen]; omega) alignSlot_16 hn
  rwa [slot_toNat hslot.1]

theorem findInternalFfLoaderSlot_none {rom : Bytes} {size : Nat}
    (h : findInternalFfLoaderSlot rom size = none) (a : Nat) :
    ¬ FfSlot 1 rom (max size multiTemplateLen) a := by
  rw [findInternalFfLoaderSlot, Option.map_eq_none_iff] at h
  exact FirstFit.firstFit_none (by omega) (by simp only [multiTemplateLen]; omega) alignSlot_16 h a

/-- In a slot the image reads `FF`. -/
theorem ffSlot_getD {pad size a j : Nat} {image : Bytes} (h : FfSlot pad image size a)
    (h1 : a ≤ j) (h2 : j < a + size) : image.getD j 0xFF = 0xFF := by
  have hb := h.blank j (by omega) h2
  have hj : j < image.length := by have := h.fits; omega
  rw [List.getD_eq_getElem _ _ hj] at hb ⊢
  simpa using hb

/-! ## Relocation -/

theorem length_relocateWords {lo hi : UInt32} {delta : Int} {t : Bytes} :
    (relocateWords lo hi delta t).1.length = t.length := by
  fun_induction relocateWords lo hi delta t with
  | case1 b0 b1 b2 b3 rest v tail count hrec hv ih =>
    rw [hrec] at ih
    simp only [List.length_append, length_le32, List.length_cons, ih]
    omega
  | case2 b0 b1 b2 b3 rest v tail count hrec hv ih =>
    rw [hrec] at ih
    simp only [List.length_cons, ih]
  | case3 t _ => rfl

theorem length_relocateTemplate {t : Bytes} {originalBase newBase : UInt32} :
    (relocateTemplate t originalBase newBase).1.length = t.length := length_relocateWords

/-- Relocation of whole words does not look behind them. -/
theorem relocateWords_append {lo hi : UInt32} {delta : Int} {t rest : Bytes} (h : 4 ∣ t.length) :
    relocateWords lo hi delta (t ++ rest) =
      ((relocateWords lo hi delta t).1 ++ (relocateWords lo hi delta rest).1,
        (relocateWords lo hi delta t).2 + (relocateWords lo hi delta rest).2) := by
  fun_induction relocateWords lo hi delta t with
  | case1 b0 b1 b2 b3 t v tail count hrec hv ih =>
    have hdvd : 4 ∣ t.length := by simp only [List.length_cons] at h; omega
    rw [hrec] at ih
    simp only [List.cons_append, relocateWords, ih hdvd]
    rw [if_pos hv]
    simp only [List.append_assoc, Prod.mk.injEq, true_and, v]
    omega
  | case2 b0 b1 b2 b3 t v tail count hrec hv ih =>
    have hdvd : 4 ∣ t.length := by simp only [List.length_cons] at h; omega
    rw [hrec] at ih
    simp only [List.cons_append, relocateWords, ih hdvd]
    rw [if_neg hv]
  | case3 t ht =>
    match t, ht, h with
    | [], _, _ => simp
    | [_], _, h => simp at h
    | [_, _], _, h => simp at h
    | [_, _, _], _, h => simp at h
    | b0 :: b1 :: b2 :: b3 :: rest, ht, _ => exact absurd rfl (ht b0 b1 b2 b3 rest)

theorem length_flatten_replicate {w : Bytes} {n : Nat} :
    (List.replicate n w).flatten.length = n * w.length := by
  induction n with
  | zero => simp
  | succ n ih =>
    rw [List.replicate_succ, List.flatten_cons, List.length_append, ih, Nat.succ_mul]
    exact Nat.add_comm ..

theorem relocateWords_replicate {lo hi : UInt32} {delta : Int} {w : Bytes} {n : Nat}
    (h : 4 ∣ w.length) :
    (relocateWords lo hi delta (List.replicate n w).flatten).2 =
      n * (relocateWords lo hi delta w).2 := by
  induction n with
  | zero => simp [relocateWords]
  | succ n ih =>
    rw [List.replicate_succ, List.flatten_cons, relocateWords_append h, ih, Nat.succ_mul]
    exact Nat.add_comm ..

/-- How many words are relocated does not depend on where to. -/
theorem relocateWords_count {lo hi : UInt32} {delta delta' : Int} {t : Bytes} :
    (relocateWords lo hi delta t).2 = (relocateWords lo hi delta' t).2 := by
  fun_induction relocateWords lo hi delta t with
  | case1 b0 b1 b2 b3 t v tail count hrec hv ih =>
    rw [hrec] at ih
    rw [relocateWords]
    simp only [if_pos hv, ← ih, v]
  | case2 b0 b1 b2 b3 t v tail count hrec hv ih =>
    rw [hrec] at ih
    rw [relocateWords]
    simp only [if_neg hv, ← ih, v]
  | case3 t ht =>
    match t, ht with
    | [], _ => rfl
    | [_], _ => rfl
    | [_, _], _ => rfl
    | [_, _, _], _ => rfl
    | b0 :: b1 :: b2 :: b3 :: rest, ht => exact absurd rfl (ht b0 b1 b2 b3 rest)

/-- Relocation reads and replaces aligned words, each on its own. -/
theorem relocateWords_word {lo hi : UInt32} {delta : Int} {t : Bytes} :
    ∀ k, 4 * k + 4 ≤ t.length →
      readLe32 (relocateWords lo hi delta t).1 (4 * k) =
        if readLe32 t (4 * k) ≥ lo ∧ readLe32 t (4 * k) ≤ hi then
          UInt32.ofInt (((readLe32 t (4 * k)).toNat : Int) + delta)
        else readLe32 t (4 * k) := by
  have hhead : ∀ (b0 b1 b2 b3 : UInt8) (rest : Bytes),
      readLe32 (b0 :: b1 :: b2 :: b3 :: rest) (4 * 0) = readLe32 [b0, b1, b2, b3] 0 :=
    fun _ _ _ _ _ => rfl
  fun_induction relocateWords lo hi delta t with
  | case1 b0 b1 b2 b3 rest v tail count hrec hv ih =>
    rw [hrec] at ih
    intro k hk
    cases k with
    | zero =>
      rw [hhead, if_pos hv]
      exact readLe32_le32 _
    | succ k => exact ih k (by simp only [List.length_cons] at hk; omega)
  | case2 b0 b1 b2 b3 rest v tail count hrec hv ih =>
    rw [hrec] at ih
    intro k hk
    cases k with
    | zero =>
      rw [hhead b0 b1 b2 b3 rest, if_neg hv]
      rfl
    | succ k => exact ih k (by simp only [List.length_cons] at hk; omega)
  | case3 t ht =>
    intro k hk
    match t, ht, hk with
    | [], _, hk => simp at hk
    | [_], _, hk => simp at hk
    | [_, _], _, hk => simp at hk
    | [_, _, _], _, hk => simp at hk
    | b0 :: b1 :: b2 :: b3 :: rest, ht, _ => exact absurd rfl (ht b0 b1 b2 b3 rest)

/-- Relocated words point into the cartridge, so their high half is not 1. -/
theorem relocateTemplate_high {t : Bytes} {originalBase newBase : UInt32} {k : Nat}
    (hk : 4 * k + 4 ≤ t.length) (hbase : originalBase.toNat + t.length < 2 ^ 24)
    (hnew : newBase.toNat ≤ maxCardImage) (h : readLe16 t (4 * k + 2) ≠ 1) :
    readLe16 (relocateTemplate t originalBase newBase).1 (4 * k + 2) ≠ 1 := by
  rw [readLe16_high] at h ⊢
  unfold relocateTemplate
  rw [relocateWords_word k hk]
  split
  case isTrue hin =>
    obtain ⟨hlo, hhi⟩ := hin
    have hlo' : (gbaRomBase + originalBase).toNat = 0x08000000 + originalBase.toNat := by
      rw [UInt32.toNat_add, Nat.mod_eq_of_lt]
      · rfl
      · show 0x08000000 + _ < _
        omega
    have hhi' : (gbaRomBase + originalBase + UInt32.ofNat t.length).toNat =
        0x08000000 + originalBase.toNat + t.length := by
      rw [UInt32.toNat_add, hlo', UInt32.toNat_ofNat', Nat.mod_eq_of_lt (by omega : t.length < 2 ^ 32),
        Nat.mod_eq_of_lt (by omega)]
    rw [ge_iff_le, UInt32.le_iff_toNat_le, hlo'] at hlo
    rw [UInt32.le_iff_toNat_le, hhi'] at hhi
    simp only [maxCardImage] at hnew
    have hval : (UInt32.ofInt (((readLe32 t (4 * k)).toNat : Int) +
        ((newBase.toNat : Int) - (originalBase.toNat : Int)))).toNat =
        (readLe32 t (4 * k)).toNat + newBase.toNat - originalBase.toNat := by
      rw [UInt32.ofInt, UInt32.toNat_ofNat']
      omega
    intro hone
    have := congrArg UInt16.toNat hone
    rw [UInt32.toNat_toUInt16, UInt32.toNat_shiftRight, hval, Nat.shiftRight_eq_div_pow] at this
    have h16 : (16 : UInt32).toNat % 32 = 16 := rfl
    rw [h16, UInt16.toNat_one] at this
    omega
  case isFalse => exact h

/-! ## Catalog entries -/

def packedStartOf (r : RomInfo) : UInt32 := ((r.start / 2) <<< 8) ||| r.mappingFlag.toUInt32

/-- The 28 bytes of a catalog entry, field after field. -/
def namedEntry (r : RomInfo) : Bytes := blit (List.replicate 28 0x00) 0 (r.name.take 16)

def typedEntry (r : RomInfo) : Bytes := blit (namedEntry r) 16 (le32 (r.entryType.toUInt32 <<< 24))

def startedEntry (r : RomInfo) : Bytes := blit (typedEntry r) 20 (le32 (packedStartOf r))

def catalogEntryBytes (r : RomInfo) (first : Bool) : Bytes :=
  blit (startedEntry r) 24 (le32 (if first then r.originalEntryTarget else r.start))

theorem length_namedEntry {r : RomInfo} : (namedEntry r).length = 28 := by
  rw [namedEntry, length_blit (by simp only [List.length_take, List.length_replicate]; omega),
    List.length_replicate]

theorem length_typedEntry {r : RomInfo} : (typedEntry r).length = 28 := by
  rw [typedEntry, length_blit (by rw [length_le32, length_namedEntry]; omega), length_namedEntry]

theorem length_startedEntry {r : RomInfo} : (startedEntry r).length = 28 := by
  rw [startedEntry, length_blit (by rw [length_le32, length_typedEntry]; omega), length_typedEntry]

theorem length_catalogEntryBytes {r : RomInfo} {first : Bool} :
    (catalogEntryBytes r first).length = 28 := by
  rw [catalogEntryBytes, length_blit (by rw [length_le32, length_startedEntry]),
    length_startedEntry]

/-- Zero the slot, then write name, type, packed start and target: the slot holds the entry. -/
theorem writeCatalogEntry_eq {t : Bytes} {off : Nat} {r : RomInfo} {first : Bool}
    (h : off + 28 ≤ t.length) :
    writeCatalogEntry t off r first = .ok (blit t off (catalogEntryBytes r first)) := by
  have hword : ∀ {e : Bytes} {k : Nat} {x : UInt32}, e.length = 28 → k + 4 ≤ 28 →
      writeLe32 (blit t off e) (off + k) x = .ok (blit t off (blit e k (le32 x))) := by
    intro e k x he hk
    rw [writeLe32_ok (by rw [length_blit (by omega)]; omega),
      blit_blit_inner (by omega) (by rw [length_le32]; omega)]
  have hzero : fill t off (off + 28) 0x00 = blit t off (List.replicate 28 0x00) := by
    rw [fill, Nat.add_sub_cancel_left]
  have hname : blit (fill t off (off + 28) 0x00) off (r.name.take 16) = blit t off (namedEntry r) := by
    rw [hzero, namedEntry, ← blit_blit_inner (by rw [List.length_replicate]; omega)
      (by simp only [List.length_take, List.length_replicate]; omega), Nat.add_zero]
  unfold writeCatalogEntry
  rw [if_neg (by omega)]
  dsimp only
  rw [hname, hword length_namedEntry (by omega)]
  dsimp only [bind, Except.bind]
  rw [← typedEntry, hword length_typedEntry (by omega)]
  dsimp only
  rw [← packedStartOf, ← startedEntry, hword length_startedEntry (by omega), catalogEntryBytes]

/-- The entry the parser finds where a ROM was recorded. -/
def recordedEntry (r : RomInfo) (first : Bool) : CatalogEntry where
  name := cleanAscii (r.name.take 16 ++ List.replicate (16 - (r.name.take 16).length) 0x00)
  type := r.entryType
  mapping := r.mappingFlag
  packedStart := packedStartOf r
  start := r.start
  targetOrStart := if first then r.originalEntryTarget else r.start

theorem readLe32_catalogEntry {r : RomInfo} {first : Bool} :
    readLe32 (catalogEntryBytes r first) 16 = r.entryType.toUInt32 <<< 24 ∧
      readLe32 (catalogEntryBytes r first) 20 = packedStartOf r ∧
      readLe32 (catalogEntryBytes r first) 24 =
        if first then r.originalEntryTarget else r.start := by
  have hin : ∀ {e : Bytes} {k i : Nat} {x : UInt32}, e.length = 28 → k + 4 ≤ 28 →
      (blit e k (le32 x)).getD i 0 =
        if k ≤ i ∧ i < k + 4 then (le32 x).getD (i - k) 0 else e.getD i 0 := by
    intro e k i x he hk
    rw [getD_blit (by rw [length_le32]; omega), length_le32]
  have hlast : ∀ i, (catalogEntryBytes r first).getD i 0 = _ := fun i =>
    hin length_startedEntry (by omega)
  have hstarted : ∀ i, (startedEntry r).getD i 0 = _ := fun i => hin length_typedEntry (by omega)
  have htyped : ∀ i, (typedEntry r).getD i 0 = _ := fun i => hin length_namedEntry (by omega)
  refine ⟨?_, ?_, ?_⟩
  · rw [← readLe32_le32 (r.entryType.toUInt32 <<< 24)]
    apply readLe32_congr
    intro k hk
    rw [hlast, if_neg (by omega), hstarted, if_neg (by omega), htyped, if_pos (by omega)]
    congr 1
    omega
  · rw [← readLe32_le32 (packedStartOf r)]
    apply readLe32_congr
    intro k hk
    rw [hlast, if_neg (by omega), hstarted, if_pos (by omega)]
    congr 1
    omega
  · rw [← readLe32_le32 (if first then r.originalEntryTarget else r.start)]
    apply readLe32_congr
    intro k hk
    rw [hlast, if_pos (by omega)]
    congr 1
    omega

theorem slice_catalogEntry {r : RomInfo} {first : Bool} :
    slice (catalogEntryBytes r first) 0 16 =
      r.name.take 16 ++ List.replicate (16 - (r.name.take 16).length) 0x00 := by
  have hname : (r.name.take 16).length ≤ 16 := by rw [List.length_take]; omega
  apply ext_getD (d := 0)
  · rw [length_slice, length_catalogEntryBytes, List.length_append, List.length_replicate]
    omega
  · intro i hi
    rw [length_slice, length_catalogEntryBytes] at hi
    rw [getD_slice, if_pos (by omega), Nat.zero_add, catalogEntryBytes,
      getD_blit (by rw [length_le32, length_startedEntry]), if_neg (by omega), startedEntry,
      getD_blit (by rw [length_le32, length_typedEntry]; omega), if_neg (by omega), typedEntry,
      getD_blit (by rw [length_le32, length_namedEntry]; omega), if_neg (by omega), namedEntry,
      getD_blit (by rw [List.length_replicate]; omega), getD_append]
    by_cases hlt : i < (r.name.take 16).length
    · rw [if_pos (by omega), if_pos hlt, Nat.sub_zero]
    · rw [if_neg (by omega), if_neg hlt, getD_replicate, getD_replicate]
      split <;> split <;> rfl

/-- The half words of the start, cut to 24 bits, above the mapping flag. -/
theorem toNat_packedStartOf (r : RomInfo) :
    (packedStartOf r).toNat = 2 ^ 8 * (r.start.toNat / 2 % 2 ^ 24) + r.mappingFlag.toNat := by
  have hflag := r.mappingFlag.toNat_lt
  have h8 : (8 : UInt32).toNat % 32 = 8 := rfl
  have h2 : (2 : UInt32).toNat = 2 := rfl
  have hshift : (r.start.toNat / 2) <<< 8 % 2 ^ 32 = 2 ^ 8 * (r.start.toNat / 2 % 2 ^ 24) := by
    rw [Nat.shiftLeft_eq]
    omega
  rw [packedStartOf, UInt32.toNat_or, UInt32.toNat_shiftLeft, UInt32.toNat_div,
    UInt8.toNat_toUInt32, h8, h2, hshift, Nat.two_pow_add_eq_or_of_lt (by omega)]

theorem toNat_packedStart_unpack (r : RomInfo) :
    ((packedStartOf r >>> 8) * 2).toNat = r.start.toNat / 2 % 2 ^ 24 * 2 := by
  have hflag := r.mappingFlag.toNat_lt
  have h8 : (8 : UInt32).toNat % 32 = 8 := rfl
  have h2 : (2 : UInt32).toNat = 2 := rfl
  rw [UInt32.toNat_mul, UInt32.toNat_shiftRight, toNat_packedStartOf, Nat.shiftRight_eq_div_pow, h8,
    h2]
  omega

/-- A start below 32 MiB survives the packing into 24 bits of half words. -/
theorem packedStart_unpack {r : RomInfo} (heven : r.start.toNat % 2 = 0)
    (hstart : r.start.toNat < 2 ^ 25) :
    (packedStartOf r >>> 8) * 2 = r.start ∧ (packedStartOf r &&& 0xFF).toUInt8 = r.mappingFlag := by
  have hflag := r.mappingFlag.toNat_lt
  constructor
  · apply UInt32.toNat_inj.mp
    rw [toNat_packedStart_unpack]
    omega
  · apply UInt8.toNat_inj.mp
    rw [UInt32.toNat_toUInt8, UInt32.toNat_and, toNat_packedStartOf,
      show (0xFF : UInt32).toNat = 2 ^ 8 - 1 from rfl, Nat.and_two_pow_sub_one_eq_mod]
    omega

theorem type_unpack (t : UInt8) : ((t.toUInt32 <<< 24) >>> 24).toUInt8 = t := by
  have ht := t.toNat_lt
  apply UInt8.toNat_inj.mp
  rw [UInt32.toNat_toUInt8, UInt32.toNat_shiftRight, UInt32.toNat_shiftLeft, UInt8.toNat_toUInt32]
  have h24 : (24 : UInt32).toNat % 32 = 24 := rfl
  rw [h24, Nat.shiftLeft_eq, Nat.shiftRight_eq_div_pow]
  omega

/-- The parser reads back what was recorded for a ROM. Its start is what 24 bits hold of it. -/
theorem parse_recorded {loader : Bytes} {off : Nat} {r : RomInfo} {first : Bool}
    (hlen : off + 28 ≤ loader.length) (hslot : slice loader off 28 = catalogEntryBytes r first) :
    CatalogEntry.parse loader off first = .ok { recordedEntry r first with
      mapping := (packedStartOf r &&& 0xFF).toUInt8
      start := if first then 0 else (packedStartOf r >>> 8) * 2 } := by
  have hread : ∀ i, i < 28 → loader.getD (off + i) 0 = (catalogEntryBytes r first).getD i 0 := by
    intro i hi
    rw [← hslot, getD_slice, if_pos hi]
  have hword : ∀ k, k + 4 ≤ 28 →
      readLe32 loader (off + k) = readLe32 (catalogEntryBytes r first) k := by
    intro k hk
    apply readLe32_congr
    intro i hi
    rw [Nat.add_assoc]
    exact hread (k + i) (by omega)
  have hname : slice loader off 16 =
      r.name.take 16 ++ List.replicate (16 - (r.name.take 16).length) 0x00 := by
    rw [← @slice_catalogEntry r first]
    apply ext_getD (d := 0)
    · rw [length_slice, length_slice, length_catalogEntryBytes]
      omega
    · intro i hi
      rw [length_slice] at hi
      rw [getD_slice, getD_slice, if_pos (by omega), if_pos (by omega), Nat.zero_add]
      exact hread i (by omega)
  obtain ⟨htype, hpacked, htarget⟩ := @readLe32_catalogEntry r first
  unfold CatalogEntry.parse
  rw [if_neg (by simp only [CatalogEntry.entrySize]; omega), hname, hword 16 (by omega),
    hword 20 (by omega), hword 24 (by omega), htype, hpacked, htarget]
  dsimp only
  rw [type_unpack]
  rfl

theorem parse_catalogEntry {loader : Bytes} {off : Nat} {r : RomInfo} {first : Bool}
    (hlen : off + 28 ≤ loader.length) (hslot : slice loader off 28 = catalogEntryBytes r first)
    (hfirst : first = true → r.start = 0) (heven : r.start.toNat % 2 = 0)
    (hstart : r.start.toNat < 2 ^ 25) :
    CatalogEntry.parse loader off first = .ok (recordedEntry r first) := by
  obtain ⟨hunpack, hmapping⟩ := packedStart_unpack heven hstart
  rw [parse_recorded hlen hslot, hmapping, hunpack]
  cases first with
  | false => rfl
  | true => simp [recordedEntry, hfirst rfl]

end Ezfadvance
