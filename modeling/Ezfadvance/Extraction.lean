import Ezfadvance.LoadedImage

/-!
# Extraction

Reading a ROM back from a card (`extract_ez3_rom`, `ez3_card_workflow.cpp`): the extent the catalog
entry names, with what lies under the loader blanked and the entry branch of ROM 1 restored. The
header check and the output file behind it are left out.

* `storedEnd_of_class`: the extent of an entry is the size class of its ROM.
* `LoadedImage.extractRom_spec`: the extracted bytes in terms of the card.
* `extraction_loses_nothing_iff`, `extraction_shows_roms_only`, `extraction_single`: what a ROM that
  was built into an image looks like when it is extracted.
-/

namespace Ezfadvance

open Segments CartridgeFormat Rounding Overlay

/-! ## extract_ez3_rom -/

inductive ExtractionError where
  | noLoader
  | catalog (error : CatalogError)
  | invalidExtent
  | entryNotRestored
  deriving DecidableEq

def CartridgeFormat.requiredLinearReadLimit (inclusiveEnd : UInt32) : Option UInt32 :=
  if inclusiveEnd < 0x00800000 then some 0x00800000
  else if inclusiveEnd < 0x01000000 then some 0x01000000
  else if inclusiveEnd < 0x01800000 then some 0x01800000
  else if inclusiveEnd < 0x02000000 then some 0x02000000
  else none

/-- A reconstruction that fails writes no file. -/
def restoredRom (result : Bytes × Bool) : Except ExtractionError Bytes :=
  if result.2 then .ok result.1 else .error .entryNotRestored

def extractEz3Rom (card : Nat → UInt8) (entry : CatalogEntry) (index : Nat) (loaderStart : UInt32)
    (isSingle : Bool) : Except ExtractionError Bytes :=
  match entry.storedEnd 0x02000000 with
  | none => .error .invalidExtent
  | some inclusiveEnd =>
    if inclusiveEnd < entry.start then .error .invalidExtent
    else if requiredLinearReadLimit inclusiveEnd = none then .error .invalidExtent
    else
      let size := (inclusiveEnd - entry.start).toNat + 1
      let image := readCard card entry.start.toNat size
      let loaderLength := if isSingle then 0x660 else Ez3CatalogParser.loaderReadSize
      restoredRom (reconstructEz3Rom image entry (index == 0) entry.start loaderStart loaderLength)

/-- The entry in slot `index` of the loader at `loaderStart`. -/
def entryOnCard (card : Nat → UInt8) (loaderStart : UInt32) (isSingle : Bool) (index : Nat) :
    Except CatalogError CatalogEntry :=
  CatalogEntry.parse
    (readCard card loaderStart.toNat (Ez3CatalogReader.readLength 0x02000000 loaderStart))
    ((if isSingle then Ez3CatalogParser.singleEntryOffset else Ez3CatalogParser.multiEntryOffset) +
      index * CatalogEntry.entrySize) (index == 0)

/-- Extraction of the ROM in slot `index`, with loader and entry taken from the card. -/
def extractRom (card : Nat → UInt8) (isSingle : Bool) (index : Nat) : Except ExtractionError Bytes :=
  (armBranchTarget (readLe32 (readCard card 0 4) 0)).elim (.error .noLoader) fun loaderStart =>
    ((entryOnCard card loaderStart isSingle index).mapError .catalog).bind fun entry =>
      extractEz3Rom card entry index loaderStart isSingle

theorem mapError_bind_ok {ε ε' α β : Type} {f : ε → ε'} {a : α} {g : α → Except ε' β} :
    ((Except.ok a : Except ε α).mapError f).bind g = g a := rfl

theorem extractRom_of {card : Nat → UInt8} {isSingle : Bool} {index : Nat} {loaderStart : UInt32}
    {entry : CatalogEntry}
    (hbranch : armBranchTarget (readLe32 (readCard card 0 4) 0) = some loaderStart)
    (hentry : entryOnCard card loaderStart isSingle index = .ok entry) :
    extractRom card isSingle index = extractEz3Rom card entry index loaderStart isSingle := by
  unfold extractRom
  rw [hbranch, Option.elim_some, hentry, mapError_bind_ok]

/-! ## The extent -/

theorem storedEnd_of_class {entry : CatalogEntry} (htype : entry.type.toNat ≤ 9)
    (hdvd : 2 ^ (25 - entry.type.toNat) ∣ entry.start.toNat) (hstart : entry.start.toNat < 2 ^ 25) :
    ∃ inclusiveEnd, entry.storedEnd 0x02000000 = some inclusiveEnd ∧
      inclusiveEnd.toNat + 1 = entry.start.toNat + 2 ^ (25 - entry.type.toNat) ∧
      inclusiveEnd.toNat < 2 ^ 25 := by
  obtain ⟨t, ht⟩ : ∃ t, entry.type.toNat = t := ⟨_, rfl⟩
  rw [ht] at htype hdvd ⊢
  have hpos := Nat.two_pow_pos (25 - t)
  have hle : 2 ^ (25 - t) ≤ 2 ^ 25 := Nat.pow_le_pow_right (by omega) (by omega)
  have hend : entry.start.toNat + 2 ^ (25 - t) ≤ 2 ^ 25 :=
    add_le_of_dvd_of_lt hdvd (Nat.pow_dvd_pow 2 (by omega)) hstart
  have hclass : ((0x02000000 : UInt32).toUInt64 >>> entry.type.toUInt64).toNat = 2 ^ (25 - t) := by
    rw [UInt64.toNat_shiftRight, UInt8.toNat_toUInt64, ht, Nat.mod_eq_of_lt (by omega),
      Nat.shiftRight_eq_div_pow]
    show 2 ^ 25 / 2 ^ t = _
    rw [Nat.pow_div (by omega) (by omega)]
  have hstop : (entry.start.toUInt64 +
      ((0x02000000 : UInt32).toUInt64 >>> entry.type.toUInt64) - 1).toNat =
        entry.start.toNat + 2 ^ (25 - t) - 1 := by
    have hsum : (entry.start.toUInt64 +
        ((0x02000000 : UInt32).toUInt64 >>> entry.type.toUInt64)).toNat =
          entry.start.toNat + 2 ^ (25 - t) := by
      rw [UInt64.toNat_add, hclass, UInt32.toNat_toUInt64, Nat.mod_eq_of_lt (by omega)]
    rw [UInt64.toNat_sub_of_le _ _ (by rw [UInt64.le_iff_toNat_le, hsum, UInt64.toNat_one]; omega),
      hsum, UInt64.toNat_one]
  have hnine : ¬ entry.type > 9 := by
    rw [gt_iff_lt, UInt8.lt_iff_toNat_lt, ht]
    show ¬ 9 < t
    omega
  have hlimit : ¬ entry.start.toUInt64 +
      ((0x02000000 : UInt32).toUInt64 >>> entry.type.toUInt64) - 1 ≥
        (0x02000000 : UInt32).toUInt64 := by
    rw [ge_iff_le, UInt64.le_iff_toNat_le, hstop]
    show ¬ 2 ^ 25 ≤ _
    omega
  have hstored : entry.storedEnd 0x02000000 = some (entry.start.toUInt64 +
      ((0x02000000 : UInt32).toUInt64 >>> entry.type.toUInt64) - 1).toUInt32 := by
    rw [CatalogEntry.storedEnd, if_neg hnine]
    dsimp only
    rw [if_neg hlimit]
  refine ⟨_, hstored, ?_, ?_⟩
  · rw [UInt64.toNat_toUInt32, hstop]
    omega
  · rw [UInt64.toNat_toUInt32, hstop]
    omega

theorem requiredLinearReadLimit_ne_none {a : UInt32} (h : a.toNat < 2 ^ 25) :
    requiredLinearReadLimit a ≠ none := by
  have hlt : a < 0x02000000 := by
    rw [UInt32.lt_iff_toNat_lt]
    exact h
  unfold requiredLinearReadLimit
  grind

/-! ## Extraction from a built image -/

/-- What the extracted ROM `k` holds: `FF` under the blanked extent of the loader, the card
elsewhere, and in the first word of ROM 1 the branch to its recorded target. -/
structure Extracted (card : Nat → UInt8) (loaderStart loaderLength : Nat) (r : RomInfo) (k : Nat)
    (rom : Bytes) : Prop where
  length : rom.length = 2 ^ (25 - r.entryType.toNat)
  bytes : ∀ j, j < rom.length → ¬ (k = 0 ∧ j < 4) → rom.getD j 0xFF =
    if loaderStart ≤ r.start.toNat + j ∧ r.start.toNat + j < loaderStart + loaderLength then 0xFF
    else card (r.start.toNat + j)
  entry : ∀ w, k = 0 → makeArmBranch r.originalEntryTarget = .ok w →
    ∀ j, j < 4 → rom.getD j 0xFF = (le32 w).getD j 0
  restorable : k = 0 → ∃ w, makeArmBranch r.originalEntryTarget = .ok w

section Recorded

variable {card : Nat → UInt8} {r : RomInfo} {k : Nat} {loaderStart : UInt32} {isSingle : Bool}

/-- The recorded entry has its extent read and rebuilt. -/
theorem extractEz3Rom_eq (htype : r.entryType.toNat ≤ 9)
    (hdvd : 2 ^ (25 - r.entryType.toNat) ∣ r.start.toNat) (hstart : r.start.toNat < 2 ^ 25) :
    extractEz3Rom card (recordedEntry r (k == 0)) k loaderStart isSingle =
      restoredRom (reconstructEz3Rom (readCard card r.start.toNat (2 ^ (25 - r.entryType.toNat)))
        (recordedEntry r (k == 0)) (k == 0) r.start loaderStart
        (if isSingle then 0x660 else Ez3CatalogParser.loaderReadSize)) := by
  obtain ⟨stop, hstored, hstop, hlt⟩ :=
    @storedEnd_of_class (recordedEntry r (k == 0)) htype hdvd hstart
  have hs : (recordedEntry r (k == 0)).start = r.start := rfl
  have ht : (recordedEntry r (k == 0)).type = r.entryType := rfl
  rw [hs, ht] at hstop
  have hpos : 2 ^ 16 ≤ 2 ^ (25 - r.entryType.toNat) := Nat.pow_le_pow_right (by omega) (by omega)
  have hsize : (stop - r.start).toNat + 1 = 2 ^ (25 - r.entryType.toNat) := by
    rw [UInt32.toNat_sub_of_le _ _ (by rw [UInt32.le_iff_toNat_le]; omega)]
    omega
  have hnlt : ¬ stop < r.start := by rw [UInt32.lt_iff_toNat_lt]; omega
  rw [extractEz3Rom, hstored]
  simp only [hs, if_neg hnlt, if_neg (requiredLinearReadLimit_ne_none hlt), hsize]

theorem getD_blanked {loaderLength n j : Nat} (hj : j < n) :
    (blankLoader (readCard card r.start.toNat n) r.start loaderStart loaderLength).getD j 0xFF =
      if loaderStart.toNat ≤ r.start.toNat + j ∧ r.start.toNat + j < loaderStart.toNat + loaderLength
      then 0xFF else card (r.start.toNat + j) := by
  rw [getD_blankLoader, getD_readCard hj]

/-- Behind ROM 1 the blanked extent is what comes back. -/
theorem extracted_later {loaderLength : Nat} (hk : k ≠ 0) :
    Extracted card loaderStart.toNat loaderLength r k (blankLoader
      (readCard card r.start.toNat (2 ^ (25 - r.entryType.toNat))) r.start loaderStart
        loaderLength) where
  length := length_blankLoader.trans length_readCard
  bytes := by
    intro j hj _
    rw [length_blankLoader, length_readCard] at hj
    exact getD_blanked hj
  entry := fun _ hk0 => absurd hk0 hk
  restorable := fun hk0 => absurd hk0 hk

/-- ROM 1 gets the branch to its recorded target as first word. -/
theorem extracted_first {loaderLength : Nat} {w : UInt32}
    (hw : makeArmBranch r.originalEntryTarget = .ok w) (htype : r.entryType.toNat ≤ 9) :
    Extracted card loaderStart.toNat loaderLength r 0 (blit (blankLoader
      (readCard card r.start.toNat (2 ^ (25 - r.entryType.toNat))) r.start loaderStart loaderLength)
        0 (le32 w)) := by
  have hpos : 2 ^ 16 ≤ 2 ^ (25 - r.entryType.toNat) := Nat.pow_le_pow_right (by omega) (by omega)
  have hlen : (blankLoader (readCard card r.start.toNat (2 ^ (25 - r.entryType.toNat))) r.start
      loaderStart loaderLength).length = 2 ^ (25 - r.entryType.toNat) :=
    length_blankLoader.trans length_readCard
  have hfits : 0 + (le32 w).length ≤ (blankLoader (readCard card r.start.toNat
      (2 ^ (25 - r.entryType.toNat))) r.start loaderStart loaderLength).length := by
    rw [length_le32, hlen]
    omega
  refine ⟨(length_blit hfits).trans hlen, ?_, ?_, fun _ => ⟨w, hw⟩⟩
  · intro j hj hhead
    rw [length_blit hfits, hlen] at hj
    rw [getD_blit hfits, length_le32, if_neg (by omega)]
    exact getD_blanked hj
  · intro w' _ hw' j hj
    rw [hw] at hw'
    cases hw'
    rw [getD_blit hfits, length_le32, if_pos (by omega), Nat.sub_zero,
      List.getD_eq_getElem _ _ (by rw [length_le32]; exact hj),
      List.getD_eq_getElem _ _ (by rw [length_le32]; exact hj)]

theorem extractEz3Rom_cases (htype : r.entryType.toNat ≤ 9)
    (hdvd : 2 ^ (25 - r.entryType.toNat) ∣ r.start.toNat) (hstart : r.start.toNat < 2 ^ 25) :
    (k = 0 ∧ (∃ e, makeArmBranch r.originalEntryTarget = .error e) ∧
      extractEz3Rom card (recordedEntry r (k == 0)) k loaderStart isSingle =
        .error .entryNotRestored) ∨
    ∃ rom, extractEz3Rom card (recordedEntry r (k == 0)) k loaderStart isSingle = .ok rom ∧
      Extracted card loaderStart.toNat (if isSingle then 0x660 else 0x7080) r k rom := by
  rw [extractEz3Rom_eq htype hdvd hstart]
  by_cases hk : k = 0
  · subst hk
    have hfirst : (0 == 0) = true := rfl
    rw [hfirst]
    cases hw : makeArmBranch r.originalEntryTarget with
    | error e =>
      left
      refine ⟨rfl, ⟨e, rfl⟩, ?_⟩
      rw [restoredRom, @reconstructEz3Rom_first_error _ (recordedEntry r true) _ _ _ e hw]
      rfl
    | ok w =>
      right
      have hpos : 2 ^ 16 ≤ 2 ^ (25 - r.entryType.toNat) :=
        Nat.pow_le_pow_right (by omega) (by omega)
      refine ⟨_, ?_, extracted_first hw htype⟩
      rw [@reconstructEz3Rom_first _ (recordedEntry r true) _ _ _ w
        (by rw [length_readCard]; omega) hw]
      rfl
  · right
    refine ⟨_, ?_, extracted_later hk⟩
    rw [show (k == 0) = false by simpa using hk, reconstructEz3Rom_later]
    rfl

end Recorded

section Loaded

variable {templates : LoaderTemplates} {roms placed : List RomInfo} {image : BuiltCartridgeImage}
  {gapStart : Nat} {loaderStart branch : UInt32} {loader : Bytes}

/-- The slot on the card has the 28 bytes that were recorded there. -/
theorem LoadedImage.slot_readCard
    (h : LoadedImage templates roms placed image gapStart loaderStart branch loader) {k n : Nat}
    {r : RomInfo} (hr : placed[k]? = some r) (hn : loader.length ≤ n) :
    slotOffset placed + k * 28 + 28 ≤ (readCard (cardOf image.bytes) loaderStart.toNat n).length ∧
      slice (readCard (cardOf image.bytes) loaderStart.toNat n) (slotOffset placed + k * 28) 28 =
        catalogEntryBytes r (k == 0) := by
  obtain ⟨hk, hget⟩ := List.getElem?_eq_some_iff.mp hr
  have hslots : placed.length ≤ Ez3CatalogParser.structuralSlotCount := h.slots
  obtain ⟨hfit, hslot⟩ := h.loaderFor.slot hslots hk
  rw [hget] at hslot
  have hlen : loader.length ≤ (readCard (cardOf image.bytes) loaderStart.toNat n).length := by
    rw [length_readCard]
    exact hn
  refine ⟨by omega, ?_⟩
  rw [← hslot]
  exact slice_of_agree hlen (Nat.le_refl _) (fun i hi => h.readCard_loader hn hi) hfit

theorem LoadedImage.start_even
    (h : LoadedImage templates roms placed image gapStart loaderStart branch loader) {r : RomInfo}
    (hr : r ∈ placed) : r.start.toNat % 2 = 0 := by
  have hblock := h.placement.block_dvd hr
  simp only [programBlock] at hblock
  omega

/-- The slot on the card parses to the recorded entry. -/
theorem LoadedImage.parse_slot
    (h : LoadedImage templates roms placed image gapStart loaderStart branch loader) {k n : Nat}
    {r : RomInfo} (hr : placed[k]? = some r) (hstart : r.start.toNat < 2 ^ 25)
    (hn : loader.length ≤ n) :
    CatalogEntry.parse (readCard (cardOf image.bytes) loaderStart.toNat n)
      (slotOffset placed + k * 28) (k == 0) = .ok (recordedEntry r (k == 0)) := by
  obtain ⟨hfit, hslot⟩ := h.slot_readCard hr hn
  refine parse_catalogEntry hfit hslot ?_ (h.start_even (List.mem_of_getElem? hr)) hstart
  intro h0
  obtain rfl : k = 0 := by simpa using h0
  exact h.placement.head_start hr

/-- The extraction finds the loader and the recorded entry. -/
theorem LoadedImage.extractRom_eq
    (h : LoadedImage templates roms placed image gapStart loaderStart branch loader) {k : Nat}
    {r : RomInfo} (hr : placed[k]? = some r) (hstart : r.start.toNat < 2 ^ 25) :
    extractRom (cardOf image.bytes) (decide (placed.length = 1)) k =
      extractEz3Rom (cardOf image.bytes) (recordedEntry r (k == 0)) k loaderStart
        (decide (placed.length = 1)) := by
  have hparse := h.parse_slot hr hstart h.readLength_ge
  have hoff : (if decide (placed.length = 1) = true then Ez3CatalogParser.singleEntryOffset
      else Ez3CatalogParser.multiEntryOffset) = slotOffset placed := by
    simp only [decide_eq_true_eq, slotOffset]
  refine extractRom_of ?_ ?_
  · rw [h.readLe32_branch.2, armBranchTarget_of_make h.makesBranch]
  · rw [entryOnCard, hoff]
    exact hparse

/-- Every outcome of extracting a ROM that is not empty and has the type of its size. -/
theorem LoadedImage.extractRom_cases
    (h : LoadedImage templates roms placed image gapStart loaderStart branch loader) {k : Nat}
    {r : RomInfo} (hr : placed[k]? = some r) (hne : 0 < r.data.length)
    (htype : entryType r.data.length = .ok r.entryType) :
    (k = 0 ∧ (∃ e, makeArmBranch r.originalEntryTarget = .error e) ∧
      extractRom (cardOf image.bytes) (decide (placed.length = 1)) k = .error .entryNotRestored) ∨
    ∃ rom, extractRom (cardOf image.bytes) (decide (placed.length = 1)) k = .ok rom ∧
      Extracted (cardOf image.bytes) loaderStart.toNat
        (if placed.length = 1 then 0x660 else 0x7080) r k rom := by
  obtain ⟨_, hnine, hclass⟩ := entryType_spec htype
  have hmem := List.mem_of_getElem? hr
  have hfits := h.placement.fits hmem
  have hstart : r.start.toNat < 2 ^ 25 := by simp only [maxCardImage] at hfits; omega
  rw [h.extractRom_eq hr hstart]
  have hcases := @extractEz3Rom_cases (cardOf image.bytes) r k loaderStart
    (decide (placed.length = 1)) hnine (h.placement.class_dvd hmem hclass) hstart
  simpa only [decide_eq_true_eq] using hcases

end Loaded

/-! ## Several ROMs -/

/-- A run of `copyLen` card bytes that no placed ROM uses, behind the first header. -/
structure FreeRun (placed : List RomInfo) (copyLen a : Nat) : Prop where
  aligned : 16 ∣ a
  above : 0xC0 ≤ a
  fits : a + copyLen ≤ baseImageSize placed
  vacant : Vacant 0xFF (romBlocks placed) a (a + copyLen)

/-- Where the loader goes: the first free run, or behind the ROMs. -/
def LoaderPlace (placed : List RomInfo) (copyLen a : Nat) : Prop :=
  (FreeRun placed copyLen a ∧ ∀ b, FreeRun placed copyLen b → a ≤ b) ∨
    ((∀ b, ¬ FreeRun placed copyLen b) ∧ a = up (baseImageSize placed) 16)

theorem ffSlot_iff_freeRun {placed : List RomInfo} (h : Placed true 0 placed) {copyLen a : Nat} :
    FfSlot 0 (packedImage placed) copyLen a ↔ FreeRun placed copyLen a := by
  obtain ⟨packed, _, himage, hpacks⟩ := packedImage_packs h
  have hlen := length_packedImage h
  have hcard : baseImageSize placed ≤ maxCardImage := baseImageSize_le fun r hr => h.fits hr
  have hvacant := @Renders.vacant_iff _ _ _ _ a (a + copyLen) hpacks.renders
  constructor
  · intro hslot
    have hfits := hslot.fits
    refine ⟨hslot.aligned, by have := hslot.above; omega, by omega, hvacant.mpr ?_⟩
    intro i h1 h2
    rw [Packed.card, himage]
    exact ffSlot_getD hslot h1 h2
  · intro hrun
    have hfits := hrun.fits
    refine ⟨hrun.aligned, hrun.above, by omega, ?_⟩
    intro i h1 h2
    have hblank := hvacant.mp hrun.vacant i (by omega) h2
    rw [Packed.card, himage, List.getD_eq_getElem _ _ (by omega)] at hblank
    rw [List.getD_eq_getElem _ _ (by omega), hblank]
    rfl

theorem loaderAt_iff {placed : List RomInfo} (h : Placed true 0 placed) {copyLen a : Nat} :
    LoaderAt (packedImage placed) copyLen a ↔ LoaderPlace placed copyLen a := by
  have hiff : ∀ b, FfSlot 0 (packedImage placed) copyLen b ↔ FreeRun placed copyLen b :=
    fun _ => ffSlot_iff_freeRun h
  have hleast : LeastFfSlot 0 (packedImage placed) copyLen a ↔
      FreeRun placed copyLen a ∧ ∀ b, FreeRun placed copyLen b → a ≤ b :=
    and_congr (hiff a) (forall_congr' fun b => imp_congr_left (hiff b))
  rw [LoaderAt, LoaderPlace, hleast, length_packedImage h]
  simp only [hiff]

theorem sortRoms_pairwise (roms : List RomInfo) :
    (sortRoms roms).Pairwise fun a b => b.data.length ≤ a.data.length := by
  have h := @List.pairwise_mergeSort RomInfo (fun a b => decide (b.data.length ≤ a.data.length))
    (fun a b c hab hbc => by simp only [decide_eq_true_eq] at hab hbc ⊢; omega)
    (fun a b => by simp only [Bool.or_eq_true, decide_eq_true_eq]; omega) roms
  exact h.imp fun hab => by simpa using hab

/-- The physical ROM `k` is the `k`-th in order of size. -/
theorem placed_getElem? {roms placed : List RomInfo}
    (same : placed.map RomInfo.unplaced = (sortRoms roms).map RomInfo.unplaced) {k : Nat} {p : RomInfo}
    (hp : placed[k]? = some p) : ∃ r, (sortRoms roms)[k]? = some r ∧ p.unplaced = r.unplaced := by
  have h : (placed.map RomInfo.unplaced)[k]? = ((sortRoms roms).map RomInfo.unplaced)[k]? := by
    rw [same]
  rw [List.getElem?_map, List.getElem?_map, hp] at h
  cases hr : (sortRoms roms)[k]? with
  | none => rw [hr] at h; cases h
  | some r =>
    rw [hr, Option.map_some, Option.map_some, Option.some.injEq] at h
    exact ⟨r, rfl, h⟩

/-- The first ROM is the largest. -/
theorem placed_first_ge {roms placed : List RomInfo}
    (same : placed.map RomInfo.unplaced = (sortRoms roms).map RomInfo.unplaced) {k : Nat}
    {p r : RomInfo} (hp : placed[0]? = some p) (hr : placed[k]? = some r) :
    r.data.length ≤ p.data.length := by
  obtain ⟨p', hp', hpeq⟩ := placed_getElem? same hp
  obtain ⟨r', hr', hreq⟩ := placed_getElem? same hr
  rw [RomInfo.data_of_unplaced hpeq, RomInfo.data_of_unplaced hreq]
  by_cases hk : k = 0
  · subst hk
    rw [hr'] at hp'
    cases hp'
    exact Nat.le_refl _
  · obtain ⟨hk', hget⟩ := List.getElem?_eq_some_iff.mp hr'
    obtain ⟨h0, hget0⟩ := List.getElem?_eq_some_iff.mp hp'
    have := List.pairwise_iff_getElem.mp (sortRoms_pairwise roms) 0 k h0 hk' (by omega)
    rwa [hget, hget0] at this

/-- ROM 1 can be given its entry branch back, or has nothing behind its first word. -/
def FirstRestorable (roms : List RomInfo) : Prop :=
  ∀ r, (sortRoms roms)[0]? = some r →
    (∃ w, makeArmBranch r.originalEntryTarget = .ok w) ∨
      ∀ j b, 4 ≤ j → r.data[j]? = some b → b = 0xFF

/-- With two ROMs the loader is shorter than what the extraction blanks: nothing may be live in
between. -/
def TwoRomTailVacant (roms : List RomInfo) : Prop :=
  roms.length = 2 → ∀ (placed : List RomInfo) (a : Nat),
    placed.map RomInfo.unplaced = (sortRoms roms).map RomInfo.unplaced → Placed true 0 placed →
    LoaderPlace placed multiTwoRomLen a →
    Vacant 0xFF (romBlocks placed) (a + multiTwoRomLen) (a + multiTemplateLen)

/-- Extraction of ROM `k` returns the byte `b` at offset `j`. -/
def ReturnsByte (image : BuiltCartridgeImage) (k j : Nat) (b : UInt8) : Prop :=
  ∃ rom, extractRom (cardOf image.bytes) false k = .ok rom ∧ rom[j]? = some b

section Multi

variable {templates : LoaderTemplates} {roms placed : List RomInfo} {bytes : Bytes}
  {image : BuiltCartridgeImage} {loaderStart branch : UInt32} {loader : Bytes}

theorem MultiImage.several
    (h : MultiImage templates roms placed bytes loaderStart branch loader) : placed.length ≠ 1 := by
  have h1 := length_placed h.same
  have h2 := h.romCount.1
  omega

theorem MultiImage.loaderPlace
    (h : MultiImage templates roms placed bytes loaderStart branch loader) :
    LoaderPlace placed (copyLenOf placed) loaderStart.toNat :=
  (loaderAt_iff h.placement).mp h.loaderAt

theorem MultiImage.length_loader
    (h : MultiImage templates roms placed bytes loaderStart branch loader) :
    (loader.take (copyLenOf placed)).length = copyLenOf placed := by
  have hle : copyLenOf placed ≤ multiTemplateLen := loaderCopyLen_le placed.length
  rw [List.length_take, h.patched.length]
  omega

/-- A ROM with a live byte is extracted, unless it is ROM 1 and cannot be restored. -/
theorem MultiImage.extractRom_cases
    (h : MultiImage templates roms placed bytes loaderStart branch loader) (hf : Finished bytes image)
    {k : Nat} {r : RomInfo} (hr : placed[k]? = some r) (hne : 0 < r.data.length)
    (htype : entryType r.data.length = .ok r.entryType) :
    (k = 0 ∧ (∃ e, makeArmBranch r.originalEntryTarget = .error e) ∧
      extractRom (cardOf image.bytes) false k = .error .entryNotRestored) ∨
    ∃ rom, extractRom (cardOf image.bytes) false k = .ok rom ∧
      Extracted (cardOf image.bytes) loaderStart.toNat 0x7080 r k rom := by
  have hcases := (h.loaded hf).extractRom_cases hr hne htype
  rwa [decide_eq_false h.several, if_neg h.several] at hcases

/-- A live byte outside the blanked extent is extracted. -/
theorem MultiImage.extracted_live
    (h : MultiImage templates roms placed bytes loaderStart branch loader) (hf : Finished bytes image)
    {k j : Nat} {r : RomInfo} {b : UInt8} {rom : Bytes} (hr : placed[k]? = some r)
    (hj : r.data[j]? = some b) (hb : b ≠ 0xFF) (hhead : ¬ (k = 0 ∧ j < 4))
    (htype : entryType r.data.length = .ok r.entryType)
    (hrom : Extracted (cardOf image.bytes) loaderStart.toNat 0x7080 r k rom)
    (hout : ¬ (loaderStart.toNat ≤ r.start.toNat + j ∧
      r.start.toNat + j < loaderStart.toNat + 0x7080)) : rom[j]? = some b := by
  have hjlt := (List.getElem?_eq_some_iff.mp hj).1
  have hclass := (entryType_spec htype).2.2.le
  have hjrom : j < rom.length := by rw [hrom.length]; omega
  have hfirst : ∀ p, placed[0]? = some p → 0 < p.data.length := by
    intro p hp
    have := placed_first_ge h.same hp hr
    omega
  rw [getElem?_eq_some_iff_getD (d := 0xFF) hjrom, hrom.bytes j hjrom hhead, if_neg hout]
  exact (h.loaded hf).live_byte hfirst hr hj hb hhead

/-- A byte in the blanked extent is not. -/
theorem MultiImage.extracted_blank {k j : Nat} {r : RomInfo} {b : UInt8} {rom : Bytes}
    (hrom : Extracted (cardOf image.bytes) loaderStart.toNat 0x7080 r k rom) (hb : b ≠ 0xFF)
    (hhead : ¬ (k = 0 ∧ j < 4)) (hin : loaderStart.toNat ≤ r.start.toNat + j ∧
      r.start.toNat + j < loaderStart.toNat + 0x7080) : rom[j]? ≠ some b := by
  intro hj
  have hjrom := (List.getElem?_eq_some_iff.mp hj).1
  rw [getElem?_eq_some_iff_getD (d := 0xFF) hjrom, hrom.bytes j hjrom hhead, if_pos hin] at hj
  exact hb hj.symm

end Multi

/-! A first ROM with an `FF` run behind its header, large enough for the loader of two ROMs, and a
second ROM of one header. -/

def runRom (n : Nat) (tail : Bytes) (entryType : UInt8) : RomInfo :=
  gameRom (List.replicate n 0xFF ++ tail) entryType 0

theorem length_runRom {n : Nat} {tail : Bytes} {entryType : UInt8} :
    (runRom n tail entryType).data.length = 0xC0 + n + tail.length := by
  rw [runRom, length_gameRom, List.length_append, List.length_replicate]
  omega

theorem length_gameHeader : gameHeader.length = 0xC0 := by
  rw [gameHeader, List.length_append, length_le32, List.length_replicate]

theorem runRom_getElem? {n i : Nat} {tail : Bytes} {entryType : UInt8} (h1 : 0xC0 ≤ i)
    (h2 : i < 0xC0 + n) : (runRom n tail entryType).data[i]? = some 0xFF := by
  show (gameHeader ++ (List.replicate n 0xFF ++ tail))[i]? = _
  rw [List.getElem?_append_right (by rw [length_gameHeader]; exact h1), length_gameHeader,
    List.getElem?_append_left (by rw [List.length_replicate]; omega), List.getElem?_replicate,
    if_pos (by omega)]

theorem runRom_header {n i : Nat} {tail : Bytes} {entryType : UInt8} (h : i < 0xC0) :
    ∃ b, (runRom n tail entryType).data[i]? = some b ∧ b ≠ 0xFF := by
  have hin : i < gameHeader.length := by rw [length_gameHeader]; exact h
  have hget := List.getElem?_eq_getElem hin
  have hne : ∀ b ∈ gameHeader, b ≠ 0xFF := by
    have hbranch : ∀ b ∈ le32 0xEA00002E, b ≠ 0xFF := by
      simp only [le32, List.forall_mem_cons]
      exact ⟨by decide, by decide, by decide, by decide, by simp⟩
    refine List.forall_mem_append.mpr ⟨hbranch, fun b hb => ?_⟩
    rw [List.eq_of_mem_replicate hb]
    decide
  refine ⟨_, ?_, hne _ (List.getElem_mem hin)⟩
  show (gameHeader ++ (List.replicate n 0xFF ++ tail))[i]? = _
  rw [List.getElem?_append_left hin, hget]

theorem runRom_tail {n i : Nat} {tail : Bytes} {entryType : UInt8} :
    (runRom n tail entryType).data[0xC0 + n + i]? = tail[i]? := by
  show (gameHeader ++ (List.replicate n 0xFF ++ tail))[0xC0 + n + i]? = _
  rw [List.getElem?_append_right (by rw [length_gameHeader]; omega), length_gameHeader,
    List.getElem?_append_right (by rw [List.length_replicate]; omega), List.length_replicate]
  congr 1
  omega

section RunRom

variable {n : Nat} {tail : Bytes} {entryType : UInt8}

theorem runRom_blank {i : Nat} (hi : 0xC0 ≤ i) : (runRom n [] entryType).data.getD i 0xFF = 0xFF := by
  by_cases hlt : i < 0xC0 + n
  · rw [List.getD_eq_getElem?_getD, runRom_getElem? hi hlt, Option.getD_some]
  · exact getD_eq_of_ge (by rw [length_runRom, List.length_nil]; omega)

theorem meaningfulRomEnd_runRom : meaningfulRomEnd (runRom n [] entryType).data ≤ 0x10000 :=
  meaningfulRomEnd_le_of_blank (by omega) fun _ hi => runRom_blank (by omega)

theorem runRoms_placed (hlen : 0xC0 + n + tail.length ≤ maxCardImage)
    (hend : meaningfulRomEnd (runRom n tail entryType).data ≤ 0x10000) :
    Placed true 0 [runRom n tail entryType, headerRom 0x10000] := by
  have hheader : (headerRom 0x10000).data.length = 0xC0 := length_gameRom
  obtain ⟨a, _, ha⟩ := @multiRomSizeClassAlignment_spec (runRom n tail entryType).data.length
    (by rw [length_runRom]; exact hlen)
  have hmin := @meaningfulRomEnd_ge (runRom n tail entryType).data
  rw [length_runRom] at hmin
  refine ⟨⟨_, ha, rfl⟩, ?_, ⟨programBlock, sizeClass_block (by rw [hheader]; decide), ?_⟩,
    by rw [hheader]; decide, trivial⟩
  · rw [length_runRom]
    show 0 + _ ≤ _
    omega
  · show 0x10000 = up (max 0 (0 + meaningfulRomEnd _)) programBlock
    have hlow := @le_up (max 0 (0 + meaningfulRomEnd (runRom n tail entryType).data)) programBlock
      (by decide)
    have hhigh := @up_le (max 0 (0 + meaningfulRomEnd (runRom n tail entryType).data)) programBlock
      0x10000 (by decide) (by omega) (Nat.dvd_refl _)
    have hpos := Nat.le_of_dvd (by omega)
      (dvd_up (max 0 (0 + meaningfulRomEnd (runRom n tail entryType).data)) programBlock)
    simp only [programBlock] at hlow hhigh hpos ⊢
    omega

theorem baseImageSize_runRoms : baseImageSize [runRom n tail entryType, headerRom 0x10000] =
    max (0xC0 + n + tail.length) 0x100C0 := by
  have hheader : (headerRom 0x10000).data.length = 0xC0 := length_gameRom
  simp only [baseImageSize, List.foldl_cons, List.foldl_nil, length_runRom, hheader]
  show max (max 0 (0 + _)) (0x10000 + 0xC0) = _
  omega

theorem runRoms_build (hlen : 0xC0 + n + tail.length ≤ 0x100000)
    (hend : meaningfulRomEnd (runRom n tail entryType).data ≤ 0x10000) : ∃ image,
    CartridgeImageBuilder.build plainTemplates [runRom n tail entryType, headerRom 0] false =
      .ok ([runRom n tail entryType, headerRom 0x10000], image) := by
  have hsort : [runRom n tail entryType, headerRom 0].Pairwise
      fun a b => b.data.length ≤ a.data.length := by
    simp only [List.pairwise_cons, List.mem_singleton, forall_eq, List.not_mem_nil,
      false_implies, implies_true, List.Pairwise.nil, and_true]
    rw [length_runRom, headerRom, length_gameRom, List.length_nil]
    omega
  refine build_multi_isOk length_plainTemplates.2 plainTemplates_multi
    ⟨Nat.le_refl 2, by rw [List.length_cons, List.length_singleton]; decide⟩
    (by rw [sortRoms_of_sizes hsort]; rfl)
    (runRoms_placed (by simp only [maxCardImage]; omega) hend) ?_ ?_
  · rw [baseImageSize_runRoms]
    omega
  · rw [baseImageSize_runRoms]
    simp only [maxCardImage]
    omega

/-- The loader goes right behind the header. -/
theorem runRoms_loaderPlace (hn : multiTwoRomLen ≤ n) :
    LoaderPlace [runRom n tail entryType, headerRom 0x10000] multiTwoRomLen 0xC0 := by
  refine .inl ⟨⟨by decide, Nat.le_refl _, ?_, ?_⟩, fun b hb => hb.above⟩
  · rw [baseImageSize_runRoms]
    simp only [multiTwoRomLen]
    omega
  · intro a h1 h2 v hv
    obtain ⟨hne, r, hr, hle, hget⟩ := liveRom_iff.mp hv
    rcases List.mem_cons.mp hr with rfl | hr
    · have hzero : (runRom n tail entryType).start.toNat = 0 := rfl
      rw [hzero, Nat.sub_zero, runRom_getElem? h1 (by omega)] at hget
      exact hne (Option.some.inj hget).symm
    · obtain rfl := List.mem_singleton.mp hr
      have hstart : (headerRom 0x10000).start.toNat = 0x10000 := rfl
      simp only [multiTwoRomLen] at h2
      omega

theorem MultiImage.loaderStart_runRoms {templates : LoaderTemplates} {roms : List RomInfo}
    {bytes loader : Bytes} {loaderStart branch : UInt32} (hn : multiTwoRomLen ≤ n)
    (h : MultiImage templates roms [runRom n tail entryType, headerRom 0x10000] bytes loaderStart
      branch loader) : loaderStart.toNat = 0xC0 :=
  h.loaderAt.unique ((loaderAt_iff h.placement).mpr (runRoms_loaderPlace hn))

end RunRom

section Complete

variable {templates : LoaderTemplates} {roms placed : List RomInfo} {bytes : Bytes}
  {image : BuiltCartridgeImage} {loaderStart branch : UInt32} {loader : Bytes}

/-- ROM 1 is the first of the placed ROMs, with its target and its bytes. -/
theorem MultiImage.first_placed
    (h : MultiImage templates roms placed bytes loaderStart branch loader) {p : RomInfo}
    (hp : placed[0]? = some p) : ∃ r, (sortRoms roms)[0]? = some r ∧
      p.originalEntryTarget = r.originalEntryTarget ∧ p.data = r.data := by
  obtain ⟨r, hr, heq⟩ := placed_getElem? h.same hp
  exact ⟨r, hr, by rw [RomInfo.eq_of_unplaced heq], RomInfo.data_of_unplaced heq⟩

theorem MultiImage.firstRestorable
    (h : MultiImage templates roms placed bytes loaderStart branch loader)
    (hf : Finished bytes image)
    (htypes : ∀ r ∈ placed, entryType r.data.length = .ok r.entryType)
    (hall : ∀ (k j : Nat) (r : RomInfo) (b : UInt8), placed[k]? = some r → r.data[j]? = some b →
      b ≠ 0xFF → ¬ (k = 0 ∧ j < 4) → ReturnsByte image k j b) : FirstRestorable roms := by
  intro r0 hr0
  have hlen := length_placed h.same
  have hcount := h.romCount.1
  obtain ⟨p, hp⟩ : ∃ p, placed[0]? = some p := by
    rw [List.getElem?_eq_getElem (show 0 < placed.length by omega)]
    exact ⟨_, rfl⟩
  obtain ⟨r', hr', htarget, hdata⟩ := h.first_placed hp
  rw [hr0] at hr'
  cases hr'
  rw [← htarget, ← hdata]
  by_cases hw : ∃ w, makeArmBranch p.originalEntryTarget = .ok w
  · exact .inl hw
  · refine .inr fun j b hj hb => ?_
    by_cases hff : b = 0xFF
    · exact hff
    obtain ⟨rom, hok, _⟩ := hall 0 j p b hp hb hff (by omega)
    have hjlt := (List.getElem?_eq_some_iff.mp hb).1
    rcases h.extractRom_cases hf hp (by omega) (htypes p (List.mem_of_getElem? hp)) with
      ⟨_, _, herr⟩ | ⟨rom', _, hrom'⟩
    · rw [herr] at hok
      cases hok
    · exact absurd (hrom'.restorable rfl) hw

theorem MultiImage.twoRomTailVacant
    (h : MultiImage templates roms placed bytes loaderStart branch loader)
    (hf : Finished bytes image)
    (htypes : ∀ r ∈ placed, entryType r.data.length = .ok r.entryType)
    (hall : ∀ (k j : Nat) (r : RomInfo) (b : UInt8), placed[k]? = some r → r.data[j]? = some b →
      b ≠ 0xFF → ¬ (k = 0 ∧ j < 4) → ReturnsByte image k j b) : TwoRomTailVacant roms := by
  intro htwo placed' a same' placement' hplace a' h1 h2 v hv
  have hlen := length_placed h.same
  have hp := placeRoms_iff.mpr ⟨same', placement'⟩
  rw [placeRoms_iff.mpr ⟨h.same, h.placement⟩] at hp
  cases hp
  have hcopy : copyLenOf placed = multiTwoRomLen := if_pos (by omega)
  have ha : loaderStart.toNat = a := by
    have h1 := h.loaderAt
    rw [hcopy] at h1
    exact h1.unique ((loaderAt_iff h.placement).mpr hplace)
  subst ha
  obtain ⟨hne, r, hr, hle, hget⟩ := liveRom_iff.mp hv
  obtain ⟨k, hk⟩ := List.getElem?_of_mem hr
  simp only [multiTwoRomLen, multiTemplateLen] at h1 h2
  have hhead : ¬ (k = 0 ∧ a' - r.start.toNat < 4) := by
    rintro ⟨rfl, hlt⟩
    rw [h.placement.head_start hk, UInt32.toNat_zero] at hlt
    omega
  obtain ⟨rom, hok, hj⟩ := hall k _ r v hk hget hne hhead
  have hjlt := (List.getElem?_eq_some_iff.mp hget).1
  rcases h.extractRom_cases hf hk (by omega) (htypes r hr) with ⟨_, _, herr⟩ | ⟨rom', hok', hrom'⟩
  · rw [herr] at hok
    cases hok
  · rw [hok'] at hok
    cases hok
    exact MultiImage.extracted_blank hrom' hne hhead (by omega) hj

/-- No live byte lies in the extent that extraction blanks. -/
theorem MultiImage.live_outside
    (h : MultiImage templates roms placed bytes loaderStart branch loader)
    (htail : TwoRomTailVacant roms) {a : Nat} {v : UInt8} (hv : LiveRom placed a v) :
    ¬ (loaderStart.toNat ≤ a ∧ a < loaderStart.toNat + 0x7080) := by
  rintro ⟨h1, h2⟩
  have hlen := length_placed h.same
  have hvacant := h.card.vacant
  rw [h.length_loader] at hvacant
  by_cases htwo : placed.length = 2
  · have hcopy : copyLenOf placed = multiTwoRomLen := if_pos htwo
    rw [hcopy] at hvacant
    have hplace := h.loaderPlace
    rw [hcopy] at hplace
    have htail' := htail (by omega) placed _ h.same h.placement hplace
    simp only [multiTwoRomLen, multiTemplateLen] at hvacant htail'
    by_cases hin : a < loaderStart.toNat + 0x6F80
    · exact hvacant _ h1 hin v hv
    · exact htail' _ (by omega) h2 v hv
  · have hcopy : copyLenOf placed = multiTemplateLen := if_neg htwo
    rw [hcopy] at hvacant
    exact hvacant _ h1 h2 v hv

theorem MultiImage.returnsByte
    (h : MultiImage templates roms placed bytes loaderStart branch loader)
    (hf : Finished bytes image)
    (htypes : ∀ r ∈ placed, entryType r.data.length = .ok r.entryType)
    (hfirst : FirstRestorable roms) (htail : TwoRomTailVacant roms) {k j : Nat} {r : RomInfo}
    {b : UInt8} (hr : placed[k]? = some r) (hj : r.data[j]? = some b) (hb : b ≠ 0xFF)
    (hhead : ¬ (k = 0 ∧ j < 4)) : ReturnsByte image k j b := by
  have hjlt := (List.getElem?_eq_some_iff.mp hj).1
  have hmem := List.mem_of_getElem? hr
  rcases h.extractRom_cases hf hr (by omega) (htypes r hmem) with
    ⟨rfl, ⟨e, he⟩, _⟩ | ⟨rom, hok, hrom⟩
  · exfalso
    obtain ⟨r0, hr0, htarget, hdata⟩ := h.first_placed hr
    rcases hfirst r0 hr0 with ⟨w, hw⟩ | hblank
    · rw [← htarget, he] at hw
      cases hw
    · rw [← hdata] at hblank
      exact hb (hblank j b (by omega) hj)
  · exact ⟨rom, hok, h.extracted_live hf hr hj hb hhead (htypes r hmem) hrom
      (h.live_outside htail (liveRom_of_getElem? hmem hj hb))⟩

end Complete

/-- Extraction returns every live byte of every ROM exactly when ROM 1 can be restored and, with two
ROMs, nothing is live just behind the loader. -/
theorem extraction_loses_nothing_iff {templates : LoaderTemplates} {roms placed : List RomInfo}
    {image : BuiltCartridgeImage}
    (hbuild : CartridgeImageBuilder.build templates roms false = .ok (placed, image))
    (hcount : 2 ≤ roms.length) (htypes : ∀ r ∈ roms, entryType r.data.length = .ok r.entryType) :
    (∀ (k j : Nat) (r : RomInfo) (b : UInt8), placed[k]? = some r → r.data[j]? = some b → b ≠ 0xFF →
      ¬ (k = 0 ∧ j < 4) → ReturnsByte image k j b) ↔
    FirstRestorable roms ∧ TwoRomTailVacant roms := by
  obtain ⟨bytes, loaderStart, branch, loader, h, hf⟩ := build_multi_ok (by omega) hbuild
  have htypes' : ∀ r ∈ placed, entryType r.data.length = .ok r.entryType :=
    (h.loaded hf).forall_placed (fun _ => Iff.rfl) htypes
  constructor
  · intro hall
    exact ⟨h.firstRestorable hf htypes' hall, h.twoRomTailVacant hf htypes' hall⟩
  · rintro ⟨hfirst, htail⟩ k j r b hr hj hb hhead
    exact h.returnsByte hf htypes' hfirst htail hr hj hb hhead

theorem headerRom_type : entryType (headerRom 0).data.length = .ok (headerRom 0).entryType := by
  rw [headerRom, length_gameRom]
  rfl

theorem extraction_loses_nothing_headers : ∃ image,
    CartridgeImageBuilder.build plainTemplates [headerRom 0, headerRom 0] false =
      .ok ([headerRom 0, headerRom 0x10000], image) ∧
    (FirstRestorable [headerRom 0, headerRom 0] → TwoRomTailVacant [headerRom 0, headerRom 0] →
      ReturnsByte image 1 0 0x2E) := by
  obtain ⟨image, hbuild⟩ := headerRoms_build
  have hiff := extraction_loses_nothing_iff hbuild (Nat.le_refl 2)
    (List.forall_mem_cons.mpr ⟨headerRom_type, List.forall_mem_singleton.mpr headerRom_type⟩)
  exact ⟨image, hbuild, fun h1 h2 => hiff.mpr ⟨h1, h2⟩ 1 0 _ 0x2E rfl rfl (by decide) (by decide)⟩

/-- With two ROMs a byte right behind the loader is blanked: the extraction loses it. -/
theorem extraction_loses_byte_behind_loader :
    let roms := [runRom 0x6F80 [0x55] 9, headerRom 0]
    (∀ r ∈ roms, entryType r.data.length = .ok r.entryType) ∧
    ∃ image, CartridgeImageBuilder.build plainTemplates roms false =
        .ok ([runRom 0x6F80 [0x55] 9, headerRom 0x10000], image) ∧
      (runRom 0x6F80 [0x55] 9).data[0x7040]? = some 0x55 ∧ ¬ ReturnsByte image 0 0x7040 0x55 := by
  intro roms
  have hend : meaningfulRomEnd (runRom 0x6F80 [0x55] 9).data ≤ 0x10000 := by
    have := @meaningfulRomEnd_le (runRom 0x6F80 [0x55] 9).data
    rw [length_runRom, List.length_singleton] at this
    omega
  obtain ⟨image, hbuild⟩ := @runRoms_build 0x6F80 [0x55] 9 (by rw [List.length_singleton]; omega) hend
  have htype : entryType (runRom 0x6F80 [0x55] 9).data.length = .ok 9 := by
    rw [length_runRom, List.length_singleton]
    rfl
  refine ⟨List.forall_mem_cons.mpr ⟨htype, List.forall_mem_singleton.mpr headerRom_type⟩, image,
    hbuild, ?_, ?_⟩
  · exact @runRom_tail 0x6F80 0 [0x55] 9
  · obtain ⟨bytes, loaderStart, branch, loader, h, hf⟩ := build_multi_ok (by simp) hbuild
    have hls := h.loaderStart_runRoms (by decide)
    rintro ⟨rom, hok, hj⟩
    rcases h.extractRom_cases hf (k := 0) rfl (by rw [length_runRom]; omega) htype with
      ⟨_, _, herr⟩ | ⟨rom', hok', hrom'⟩
    · rw [herr] at hok
      cases hok
    · rw [hok'] at hok
      cases hok
      have hzero : (runRom 0x6F80 [0x55] 9).start.toNat = 0 := rfl
      exact MultiImage.extracted_blank hrom' (by decide) (by omega) (by omega) hj

/-- The first word of an extracted ROM 1 is the branch to its recorded target. -/
theorem Extracted.first_word {card : Nat → UInt8} {loaderStart loaderLength k : Nat} {r : RomInfo}
    {rom : Bytes} (hrom : Extracted card loaderStart loaderLength r k rom)
    (htype : entryType r.data.length = .ok r.entryType) (hk : k = 0) :
    ∃ w, makeArmBranch r.originalEntryTarget = .ok w ∧ rom.take 4 = le32 w := by
  obtain ⟨w, hw⟩ := hrom.restorable hk
  refine ⟨w, hw, ?_⟩
  have hlong : 2 ^ 16 ≤ rom.length := by
    have := (entryType_spec htype).2.1
    rw [hrom.length]
    exact Nat.pow_le_pow_right (by omega) (by omega)
  apply ext_getD (d := 0xFF)
  · rw [List.length_take, length_le32]
    omega
  · intro j hj
    rw [List.length_take] at hj
    rw [getD_take, if_pos (by omega), hrom.entry w hk hw j (by omega),
      List.getD_eq_getElem _ _ (by rw [length_le32]; omega),
      List.getD_eq_getElem _ _ (by rw [length_le32]; omega)]

/-- Where the ROM has no byte of its own, `FF` is extracted or the byte of another ROM. -/
theorem MultiImage.extracted_other {templates : LoaderTemplates} {roms placed : List RomInfo}
    {bytes : Bytes} {image : BuiltCartridgeImage} {loaderStart branch : UInt32} {loader : Bytes}
    (h : MultiImage templates roms placed bytes loaderStart branch loader)
    (hf : Finished bytes image) (hne : ∀ r ∈ placed, 0 < r.data.length) {k j : Nat} {r : RomInfo}
    {rom : Bytes} (hr : placed[k]? = some r)
    (hrom : Extracted (cardOf image.bytes) loaderStart.toNat 0x7080 r k rom)
    (hj : j < rom.length) (hhead : ¬ (k = 0 ∧ j < 4)) (hff : r.data.getD j 0xFF = 0xFF) :
    rom[j]? = some 0xFF ∨
      ∃ q p, q ≠ k ∧ placed[q]? = some p ∧ p.start.toNat ≤ r.start.toNat + j ∧
        rom[j]? = p.data[r.start.toNat + j - p.start.toNat]? := by
  have hcard := (h.loaded hf).card
  have hcopy : copyLenOf placed ≤ 0x7080 := loaderCopyLen_le placed.length
  have hll := h.length_loader
  have hbyte := hrom.bytes j hj hhead
  rw [← getElem?_eq_some_iff_getD hj] at hbyte
  by_cases hin : loaderStart.toNat ≤ r.start.toNat + j ∧
      r.start.toNat + j < loaderStart.toNat + 0x7080
  · left
    rw [hbyte, if_pos hin]
  rw [if_neg hin] at hbyte
  have hfour : 4 ≤ r.start.toNat + j := by
    by_cases hk : k = 0
    · omega
    · have hlt := List.length_pos_of_mem (List.mem_of_getElem? hr)
      have hget := List.getElem?_eq_getElem hlt
      have hstart := h.placement.block_le hget (hne _ (List.getElem_mem hlt)) hr hk
      simp only [programBlock] at hstart
      omega
  by_cases hlive : ∃ v, LiveRom placed (r.start.toNat + j) v
  · right
    obtain ⟨v, hv⟩ := hlive
    rw [hcard.live _ v hfour hv] at hbyte
    obtain ⟨hvne, p, hp, hle, hget⟩ := liveRom_iff.mp hv
    obtain ⟨q, hq⟩ := List.getElem?_of_mem hp
    refine ⟨q, p, ?_, hq, hle, hbyte.trans hget.symm⟩
    rintro rfl
    rw [hr] at hq
    cases hq
    rw [Nat.add_sub_cancel_left] at hget
    rw [List.getD_eq_getElem?_getD, hget, Option.getD_some] at hff
    exact hvne hff
  · left
    rw [hbyte, hcard.blank _ hfour (by omega) fun v hv => hlive ⟨v, hv⟩]

/-- What extraction returns where the ROM itself has `FF` or has ended: `FF`, or the byte another ROM
has at the same place on the card. The first word of ROM 1 is the branch to its recorded target. -/
theorem extraction_shows_roms_only {templates : LoaderTemplates} {roms placed : List RomInfo}
    {image : BuiltCartridgeImage}
    (hbuild : CartridgeImageBuilder.build templates roms false = .ok (placed, image))
    (hcount : 2 ≤ roms.length) (htypes : ∀ r ∈ roms, entryType r.data.length = .ok r.entryType)
    (hne : ∀ r ∈ roms, r.data ≠ []) :
    ∀ (k : Nat) (r : RomInfo) (rom : Bytes), placed[k]? = some r →
      extractRom (cardOf image.bytes) false k = .ok rom →
      (k = 0 → ∃ w, makeArmBranch r.originalEntryTarget = .ok w ∧ rom.take 4 = le32 w) ∧
      ∀ j, j < rom.length → ¬ (k = 0 ∧ j < 4) → r.data.getD j 0xFF = 0xFF →
        rom[j]? = some 0xFF ∨
          ∃ q p, q ≠ k ∧ placed[q]? = some p ∧ p.start.toNat ≤ r.start.toNat + j ∧
            rom[j]? = p.data[r.start.toNat + j - p.start.toNat]? := by
  obtain ⟨bytes, loaderStart, branch, loader, h, hf⟩ := build_multi_ok (by omega) hbuild
  have htypes' : ∀ r ∈ placed, entryType r.data.length = .ok r.entryType :=
    (h.loaded hf).forall_placed (fun _ => Iff.rfl) htypes
  have hne' : ∀ r ∈ placed, 0 < r.data.length :=
    (h.loaded hf).forall_placed (fun _ => Iff.rfl) fun r hr => List.length_pos_iff.mpr (hne r hr)
  intro k r rom hr hok
  have hmem := List.mem_of_getElem? hr
  rcases h.extractRom_cases hf hr (hne' r hmem) (htypes' r hmem) with
    ⟨_, _, herr⟩ | ⟨rom', hok', hrom⟩
  · rw [herr] at hok
    cases hok
  rw [hok'] at hok
  cases hok
  exact ⟨hrom.first_word (htypes' r hmem), fun j hj hhead hff =>
    h.extracted_other hf hne' hr hrom hj hhead hff⟩

theorem extraction_shows_roms_only_headers : ∃ image,
    CartridgeImageBuilder.build plainTemplates [headerRom 0, headerRom 0] false =
      .ok ([headerRom 0, headerRom 0x10000], image) ∧
    ∀ rom, extractRom (cardOf image.bytes) false 0 = .ok rom →
      ∃ w, makeArmBranch (headerRom 0).originalEntryTarget = .ok w ∧ rom.take 4 = le32 w := by
  obtain ⟨image, hbuild⟩ := headerRoms_build
  have hne : ∀ start, (headerRom start).data ≠ [] := by
    intro start hnil
    have := congrArg List.length hnil
    rw [headerRom, length_gameRom] at this
    cases this
  refine ⟨image, hbuild, fun rom hok => ?_⟩
  exact (extraction_shows_roms_only hbuild (Nat.le_refl 2)
    (List.forall_mem_cons.mpr ⟨headerRom_type, List.forall_mem_singleton.mpr headerRom_type⟩)
    (List.forall_mem_cons.mpr ⟨hne 0, List.forall_mem_singleton.mpr (hne 0)⟩) 0 _ rom rfl hok).1 rfl

/-- A ROM of 128 KiB with nothing behind its header: the second ROM is packed into its second half,
and the extraction of ROM 1 shows it there. -/
theorem extraction_shows_packed_rom :
    let roms := [runRom 0x1FF40 [] 8, headerRom 0]
    (∀ r ∈ roms, entryType r.data.length = .ok r.entryType) ∧
    ∃ image rom, CartridgeImageBuilder.build plainTemplates roms false =
        .ok ([runRom 0x1FF40 [] 8, headerRom 0x10000], image) ∧
      extractRom (cardOf image.bytes) false 0 = .ok rom ∧
      (runRom 0x1FF40 [] 8).data.getD 0x10000 0xFF = 0xFF ∧ rom[0x10000]? = some 0x2E := by
  intro roms
  have htype : entryType (runRom 0x1FF40 [] 8).data.length = .ok 8 := by
    rw [length_runRom, List.length_nil]
    rfl
  obtain ⟨image, hbuild⟩ := @runRoms_build 0x1FF40 [] 8 (by rw [List.length_nil]; omega)
    meaningfulRomEnd_runRom
  obtain ⟨bytes, loaderStart, branch, loader, h, hf⟩ := build_multi_ok (by simp) hbuild
  have hls := h.loaderStart_runRoms (by decide)
  have hzero : (runRom 0x1FF40 [] 8).start.toNat = 0 := rfl
  rcases h.extractRom_cases hf (k := 0) rfl (by rw [length_runRom]; omega) htype with
    ⟨_, ⟨e, he⟩, _⟩ | ⟨rom, hok, hrom⟩
  · cases (show makeArmBranch 0xC0 = .ok 0xEA00002E by decide).symm.trans he
  refine ⟨List.forall_mem_cons.mpr ⟨htype, List.forall_mem_singleton.mpr headerRom_type⟩, image, rom,
    hbuild, hok, runRom_blank (by omega), ?_⟩
  have hlive : LiveRom [runRom 0x1FF40 [] 8, headerRom 0x10000] 0x10000 0x2E :=
    liveRom_of_getElem? (r := headerRom 0x10000) (j := 0)
      (List.mem_cons_of_mem _ (List.mem_singleton_self _)) rfl (by decide)
  have hromlen : rom.length = 2 ^ 17 := hrom.length
  rw [getElem?_eq_some_iff_getD (d := 0xFF) (by omega), hrom.bytes _ (by omega) (by omega),
    if_neg (by omega), hzero,
    (h.loaded hf).card.live _ 0x2E (by omega) (by rw [Nat.zero_add]; exact hlive)]

/-! ## One ROM -/

/-- The four bytes of a word that reads `w`. -/
theorem getD_of_readLe32 {data : Bytes} {w : UInt32} (hlen : 4 ≤ data.length)
    (hw : readLe32 data 0 = w) {j : Nat} (hj : j < 4) : data.getD j 0xFF = (le32 w).getD j 0 := by
  match data, hlen with
  | b0 :: b1 :: b2 :: b3 :: rest, _ =>
    rw [← hw, le32_readLe32]
    match j, hj with
    | 0, _ => rfl
    | 1, _ => rfl
    | 2, _ => rfl
    | 3, _ => rfl

/-- The gap before a loader in the second half is outside the ROM's size class. -/
theorem SinglePlace.not_gap {data : Bytes} {n gapStart loaderStart sizeClass j : Nat}
    (h : SinglePlace data n gapStart loaderStart) (hclass : SizeClass data.length sizeClass)
    (hj : j < sizeClass) : j < gapStart ∨ loaderStart ≤ j := by
  rcases h.gap with hgap | ⟨hgap, hhalf⟩
  · omega
  · have hc : sizeClass = cardHalfSize := by
      refine PowCeil.unique hclass ?_
      rw [hhalf, show max programBlock cardHalfSize = 2 ^ 24 from rfl]
      exact powCeil_pow 24
    omega

/-- Behind its first word and outside the gap and the loader the card shows a single ROM. -/
theorem SingleImage.card_byte {templates : LoaderTemplates} {rom : RomInfo} {bytes : Bytes}
    {image : BuiltCartridgeImage} {gapStart : Nat} {loaderStart branch : UInt32} {loader : Bytes}
    (h : SingleImage templates rom bytes gapStart loaderStart branch loader)
    (hf : Finished bytes image) {j : Nat} (h4 : 4 ≤ j)
    (hout : j < gapStart ∨ loaderStart.toNat + loader.length ≤ j) :
    cardOf image.bytes j = rom.data.getD j 0xFF := by
  have hcard := (h.loaded hf).card
  have hzero : rom.unplaced.start.toNat = 0 := rfl
  by_cases hff : rom.data.getD j 0xFF = 0xFF
  · rw [hff]
    refine hcard.blank j h4 hout fun v hv => ?_
    obtain ⟨hne, p, hp, _, hget⟩ := liveRom_iff.mp hv
    obtain rfl := List.mem_singleton.mp hp
    have hget' : rom.data[j]? = some v := by
      rw [hzero, Nat.sub_zero] at hget
      exact hget
    rw [List.getD_eq_getElem?_getD, hget', Option.getD_some] at hff
    exact hne hff
  · refine hcard.live j _ h4 (liveRom_iff.mpr ⟨hff, _, List.mem_singleton_self _, ?_, ?_⟩)
    · rw [hzero]
      exact Nat.zero_le j
    · rw [hzero, Nat.sub_zero]
      have hjlt : j < rom.data.length := by
        by_cases hlt : j < rom.data.length
        · exact hlt
        · exact absurd (getD_eq_of_ge (Nat.not_lt.mp hlt)) hff
      exact (getElem?_eq_some_iff_getD hjlt).mpr rfl

/-- A single ROM comes back as it was, followed by `FF` up to its size class. -/
theorem extraction_single {templates : LoaderTemplates} {rom : RomInfo} {placed : List RomInfo}
    {image : BuiltCartridgeImage} {target : UInt32}
    (hbuild : CartridgeImageBuilder.build templates [rom] false = .ok (placed, image))
    (hlen : 0xC0 ≤ rom.data.length) (htarget : armBranchTarget (readLe32 rom.data 0) = some target)
    (hrec : rom.originalEntryTarget = target) (h8 : 8 ≤ target.toNat)
    (htype : entryType rom.data.length = .ok rom.entryType) :
    ∃ sizeClass, SizeClass rom.data.length sizeClass ∧
      extractRom (cardOf image.bytes) true 0 =
        .ok (rom.data ++ List.replicate (sizeClass - rom.data.length) 0xFF) := by
  rcases build_single_cases templates rom with
    ⟨e, hrun, _⟩ | ⟨image', bytes, gapStart, loaderStart, branch, loader, hrun, h, hf⟩
  · rw [hrun] at hbuild
    cases hbuild
  rw [hrun] at hbuild
  cases hbuild
  have hclass := (entryType_spec htype).2.2
  have hw : makeArmBranch rom.originalEntryTarget = .ok (readLe32 rom.data 0) := by
    rw [hrec]
    exact makeArmBranch_of_target htarget h8
  have hll : loader.length = 0x660 := h.patched.length
  have hle := hclass.le
  refine ⟨_, hclass, ?_⟩
  rcases (h.loaded hf).extractRom_cases (k := 0) rfl (show 0 < rom.data.length by omega) htype with
    ⟨_, ⟨e, he⟩, _⟩ | ⟨out, hok, hout⟩
  · cases hw.symm.trans he
  have hoklit : extractRom (cardOf image.bytes) true 0 = .ok out := hok
  have houtlen : out.length = 2 ^ (25 - rom.entryType.toNat) := hout.length
  rw [hoklit]
  congr 1
  apply ext_getD (d := 0xFF)
  · rw [houtlen, List.length_append, List.length_replicate]
    omega
  · intro j hj
    have hsame : (rom.data ++ List.replicate (2 ^ (25 - rom.entryType.toNat) - rom.data.length)
        0xFF).getD j 0xFF = rom.data.getD j 0xFF := by
      rw [getD_append]
      split
      case isTrue => rfl
      case isFalse hge =>
        rw [getD_replicate, getD_eq_of_ge (by omega)]
        split <;> rfl
    rw [hsame]
    by_cases h4 : j < 4
    · rw [hout.entry _ rfl hw j h4, getD_of_readLe32 (by omega) rfl h4]
    · have hbyte := hout.bytes j hj (by omega)
      have hzero : rom.unplaced.start.toNat = 0 := rfl
      have hsingle : (if [rom.unplaced].length = 1 then 0x660 else 0x7080) = 0x660 := rfl
      rw [hzero, Nat.zero_add, hsingle] at hbyte
      rw [hbyte]
      have hgap := h.place.not_gap hclass (by rw [← houtlen]; exact hj)
      by_cases hin : loaderStart.toNat ≤ j ∧ j < loaderStart.toNat + 0x660
      · rw [if_pos hin]
        exact (h.place.blank j (by have := h.place.gapLe; omega) hin.2).symm
      · rw [if_neg hin]
        exact h.card_byte hf (by omega) (by omega)

theorem extraction_single_header : ∃ placed image,
    CartridgeImageBuilder.build plainTemplates [headerRom 0] false = .ok (placed, image) ∧
    ∃ sizeClass, SizeClass (headerRom 0).data.length sizeClass ∧
      extractRom (cardOf image.bytes) true 0 =
        .ok ((headerRom 0).data ++ List.replicate (sizeClass - (headerRom 0).data.length) 0xFF) := by
  have hlen : (headerRom 0).data.length = 0xC0 := length_gameRom
  obtain ⟨image, hbuild⟩ := @build_single_isOk plainTemplates (headerRom 0) length_plainTemplates.1
    plainTemplates_single (by rw [hlen]) (by rw [hlen]; decide)
  have htarget : armBranchTarget (readLe32 (headerRom 0).data 0) = some 0xC0 := by decide
  exact ⟨_, image, hbuild, extraction_single hbuild (by rw [hlen]) htarget rfl (by decide)
    headerRom_type⟩

end Ezfadvance
