import Ezfadvance.EepromMapping
import Ezfadvance.ImageParts

/-!
# CheckedReads

The slot searches of the builder and the catalog parser once more, with every access to the vector
checked: a read outside it would be an error of its own.

* `Checked.findFfSlotInImage`, `Checked.findInternalFfLoaderSlot`, `Checked.parse`: as in the source,
  read by read.
* `Checked.findFfSlotInImage_eq`, `Checked.findInternalFfLoaderSlot_eq`, `Checked.parse_eq`: no read
  is outside, and the results are those of the functions without checks.
* `ff_slots_least`: the searches return the least slot, or none if there is none.
* `catalog_parse_iff`: which vectors are a catalog, and of which entries.
-/

namespace Ezfadvance

open Segments CartridgeFormat EepromMapping

namespace Checked

/-! ## Slots -/

def isErased (image : Bytes) (i : Nat) : Except OutOfBounds Bool := do
  return (← byteAt image i) == 0xFF

def findFfSlotInImage (image : Bytes) (requiredSize : Nat) : Except OutOfBounds (Option UInt32) := do
  let slot ← FirstFit.firstFitM (isErased image) (alignSlot 15) (min image.length maxCardImage)
    requiredSize 0xC0
  return slot.map UInt32.ofNat

def findInternalFfLoaderSlot (rom : Bytes) (requiredSize : Nat) :
    Except OutOfBounds (Option UInt32) := do
  let slot ← FirstFit.firstFitM (isErased rom) (alignSlot 16) (min rom.length maxCardImage)
    (max requiredSize multiTemplateLen) 0xC0
  return slot.map UInt32.ofNat

theorem isErased_eq {image : Bytes} {j : Nat} (h : j < min image.length maxCardImage) :
    isErased image j = .ok (image.getD j 0 == 0xFF) := by
  rw [isErased, byteAt_ok (Nat.lt_of_lt_of_le h (Nat.min_le_left ..))]
  rfl

theorem findFfSlotInImage_eq {image : Bytes} {requiredSize : Nat} :
    findFfSlotInImage image requiredSize =
      .ok (Ezfadvance.findFfSlotInImage image requiredSize) := by
  rw [findFfSlotInImage, FirstFit.firstFitM_eq fun j => isErased_eq]
  rfl

theorem findInternalFfLoaderSlot_eq {rom : Bytes} {requiredSize : Nat} :
    findInternalFfLoaderSlot rom requiredSize =
      .ok (Ezfadvance.findInternalFfLoaderSlot rom requiredSize) := by
  rw [findInternalFfLoaderSlot, FirstFit.firstFitM_eq fun j => isErased_eq]
  rfl

end Checked

/-- From `first` to `last` the vector is erased, behind the header and within the card. -/
def Erased (image : Bytes) (first last : Nat) : Prop :=
  0xC0 ≤ first ∧ last ≤ min image.length maxCardImage ∧
    ∀ j, first ≤ j → j < last → image[j]? = some 0xFF

theorem ffSlot_iff {pad size a : Nat} {image : Bytes} :
    FfSlot pad image size a ↔ 16 ∣ a ∧ Erased image (a - pad) (a + size) := by
  have hbyte : ∀ {j}, j < image.length →
      ((image.getD j 0 == 0xFF) = true ↔ image[j]? = some 0xFF) := by
    intro j hj
    rw [List.getElem?_eq_getElem hj, List.getD_eq_getElem _ _ hj, beq_iff_eq, Option.some.injEq]
  constructor
  · rintro ⟨haligned, habove, hfits, hblank⟩
    refine ⟨haligned, by omega, hfits, fun j hge hlt => ?_⟩
    exact (hbyte (by omega)).mp (hblank j (by omega) hlt)
  · rintro ⟨haligned, hfirst, hlast, hff⟩
    refine ⟨haligned, by omega, hlast, fun j hge hlt => ?_⟩
    exact (hbyte (by omega)).mpr (hff j (by omega) hlt)

/-- A search that returns the least slot or nothing finds exactly the least element. -/
theorem slot_iff_isLeast {pad size : Nat} {image : Bytes} {slot : Option UInt32}
    (hsome : ∀ a, slot = some a → LeastFfSlot pad image size a.toNat)
    (hnone : slot = none → ∀ a, ¬ FfSlot pad image size a) :
    (∀ a : UInt32, slot = some a ↔
      IsLeast {a | 16 ∣ a ∧ Erased image (a - pad) (a + size)} a.toNat) ∧
    (slot = none ↔ ∀ a, ¬ (16 ∣ a ∧ Erased image (a - pad) (a + size))) := by
  have hleast : ∀ {a : Nat}, LeastFfSlot pad image size a ↔
      IsLeast {a | 16 ∣ a ∧ Erased image (a - pad) (a + size)} a := by
    intro a
    exact and_congr ffSlot_iff (forall_congr' fun b => imp_congr_left ffSlot_iff)
  cases slot with
  | none =>
    have hno : ∀ a, ¬ (16 ∣ a ∧ Erased image (a - pad) (a + size)) :=
      fun a ha => hnone rfl a (ffSlot_iff.mpr ha)
    exact ⟨fun a => iff_of_false (by rintro ⟨⟩) fun h => hno _ h.1, iff_of_true rfl hno⟩
  | some b =>
    have hb := hsome b rfl
    refine ⟨fun a => ?_, iff_of_false (by rintro ⟨⟩) fun h => h _ (ffSlot_iff.mp hb.1)⟩
    rw [Option.some.injEq]
    constructor
    · rintro rfl
      exact hleast.mp hb
    · intro ha
      exact UInt32.toNat_inj.mp (hb.unique (hleast.mpr ha))

/-- Both searches end for every vector, without a read outside it; they return the least aligned place
whose bytes, and for the internal one the byte before them, are erased; and they return nothing if and
only if there is no such place. -/
theorem ff_slots_least (image : Bytes) {required : Nat} (hsize : 0 < required) :
    (∃ slot, Checked.findFfSlotInImage image required = .ok slot ∧
      (∀ a : UInt32, slot = some a ↔
        IsLeast {a | 16 ∣ a ∧ Erased image a (a + required)} a.toNat) ∧
      (slot = none ↔ ∀ a, ¬ (16 ∣ a ∧ Erased image a (a + required)))) ∧
    ∃ slot, Checked.findInternalFfLoaderSlot image required = .ok slot ∧
      (∀ a : UInt32, slot = some a ↔
        IsLeast {a | 16 ∣ a ∧ Erased image (a - 1) (a + max required 0x7080)} a.toNat) ∧
      (slot = none ↔ ∀ a, ¬ (16 ∣ a ∧ Erased image (a - 1) (a + max required 0x7080))) :=
  ⟨⟨_, Checked.findFfSlotInImage_eq, slot_iff_isLeast (fun _ => findFfSlotInImage_some hsize)
      (findFfSlotInImage_none hsize)⟩,
    ⟨_, Checked.findInternalFfLoaderSlot_eq, slot_iff_isLeast
      (fun _ => findInternalFfLoaderSlot_some) findInternalFfLoaderSlot_none⟩⟩

theorem ff_slots_least_erased :
    Checked.findFfSlotInImage (List.replicate 0xE0 0xFF) 16 = .ok (some 0xC0) := by
  obtain ⟨⟨slot, hslot, hsome, _⟩, _⟩ := @ff_slots_least (List.replicate 0xE0 0xFF) 16 (by decide)
  have hlen : (List.replicate 0xE0 (0xFF : UInt8)).length = 0xE0 := List.length_replicate
  rw [hslot, (hsome 0xC0).mpr]
  refine ⟨⟨by decide, Nat.le_refl _, by rw [hlen]; decide, fun j _ hlt => ?_⟩, fun b hb => hb.2.1⟩
  rw [List.getElem?_replicate, if_pos (Nat.lt_of_lt_of_le hlt (by decide))]

/-! ## The catalog parser -/

namespace Checked

/-- An exception of the source, or a read outside the vector. -/
inductive Fault where
  | raised (e : CatalogError)
  | outside (access : OutOfBounds)

/-- The loop of `cleanAscii`, with `count` bytes to go. -/
def cleanFrom (bytes : Bytes) : Nat → Nat → Except OutOfBounds Bytes
  | 0, _ => .ok []
  | count + 1, offset => do
    let value ← byteAt bytes offset
    if value = 0x00 ∨ value = 0xFF then return []
    else
      let rest ← cleanFrom bytes count (offset + 1)
      return (if 0x20 ≤ value ∧ value ≤ 0x7E then value else 0x2E) :: rest

def cleanAscii (bytes : Bytes) (offset size : Nat) : Except OutOfBounds Bytes := do
  return trimRight (← cleanFrom bytes size offset)

def readLe32 (bytes : Bytes) (offset : Nat) : Except OutOfBounds UInt32 := do
  let b0 ← byteAt bytes offset
  let b1 ← byteAt bytes (offset + 1)
  let b2 ← byteAt bytes (offset + 2)
  let b3 ← byteAt bytes (offset + 3)
  return b0.toUInt32 ||| b1.toUInt32 <<< 8 ||| b2.toUInt32 <<< 16 ||| b3.toUInt32 <<< 24

/-- `CatalogEntry::parse` behind its check of the size. -/
def readEntry (loader : Bytes) (offset : Nat) (first : Bool) : Except OutOfBounds CatalogEntry := do
  let name ← cleanAscii loader offset 16
  let typeField ← readLe32 loader (offset + 16)
  let packedStart ← readLe32 loader (offset + 20)
  let targetOrStart ← readLe32 loader (offset + 24)
  return {
    name := name
    type := (typeField >>> 24).toUInt8
    mapping := (packedStart &&& 0xFF).toUInt8
    packedStart := packedStart
    start := if first then 0 else (packedStart >>> 8) * 2
    targetOrStart := targetOrStart }

def parseEntry (loader : Bytes) (offset : Nat) (first : Bool) : Except Fault CatalogEntry :=
  if offset + CatalogEntry.entrySize > loader.length then .error (.raised .entryOutsideLoader)
  else (readEntry loader offset first).mapError .outside

def parseEntriesFrom (loader : Bytes) (entryOffset : Nat) (imageLimit : UInt32) :
    Nat → Nat → Except Fault (Option (List CatalogEntry))
  | 0, _ => .ok (some [])
  | count + 1, index => do
    let first := index == 0
    let entry ← parseEntry loader (entryOffset + index * CatalogEntry.entrySize) first
    if !entry.isPlausible imageLimit first then return none
    let entries ← parseEntriesFrom loader entryOffset imageLimit count (index + 1)
    return entries.map (entry :: ·)

open Ez3CatalogParser hiding parseEntriesFrom parseEntries parseMulti parse

def parseEntries (kind : Ez3CatalogKind) (loader : Bytes) (entryOffset count : Nat)
    (imageLimit : UInt32) : Except Fault (Option Ez3CatalogLayout) :=
  if count = 0 ∨ count > structuralSlotCount ∨ entryOffset > loader.length ∨
      count > (loader.length - entryOffset) / CatalogEntry.entrySize then
    .ok none
  else do
    let entries ← parseEntriesFrom loader entryOffset imageLimit count 0
    return entries.map fun entries => ⟨kind, entries⟩

/-- The condition of `parse` for a single catalog, read from left to right. -/
def singleHeader (loader : Bytes) : Except OutOfBounds Bool :=
  if loader.length ≥ singleEntryOffset + CatalogEntry.entrySize then do
    if (← read16 loader singleHeaderOffset) = 1 then
      return (← read16 loader singleHeaderCount2Offset) = 1
    else return false
  else .ok false

def parseMulti (loader : Bytes) (imageLimit : UInt32) : Except Fault (Option Ez3CatalogLayout) :=
  if loader.length < multiHeaderOffset + 16 then .ok none
  else do
    let count := (← (read16 loader multiHeaderOffset).mapError .outside).toNat
    let repeatedCount := (← (read16 loader (multiHeaderOffset + 14)).mapError .outside).toNat
    if count < 2 ∨ count > structuralSlotCount ∨ count ≠ repeatedCount then return none
    else parseEntries .multi loader multiEntryOffset count imageLimit

def parse (loader : Bytes) (imageLimit : UInt32) : Except Fault (Option Ez3CatalogLayout) :=
  if imageLimit = 0 then .ok none
  else do
    if ← (singleHeader loader).mapError .outside then
      match ← parseEntries .single loader singleEntryOffset 1 imageLimit with
      | some layout => return some layout
      | none => parseMulti loader imageLimit
    else parseMulti loader imageLimit

theorem cleanFrom_eq {bytes : Bytes} {count offset : Nat} (h : offset + count ≤ bytes.length) :
    cleanFrom bytes count offset = .ok (cleanPrefix (slice bytes offset count)) := by
  induction count generalizing offset with
  | zero =>
    rw [slice, List.take_zero]
    rfl
  | succ count ih =>
    have hlt : offset < bytes.length := by omega
    have hslice : slice bytes offset (count + 1) =
        bytes.getD offset 0 :: slice bytes (offset + 1) count := by
      rw [slice, List.drop_eq_getElem_cons hlt, List.take_succ_cons, List.getD_eq_getElem _ _ hlt]
      rfl
    rw [cleanFrom, byteAt_ok hlt, hslice, cleanPrefix, ih (by omega)]
    dsimp only [bind, Except.bind]
    split <;> rfl

theorem cleanAscii_eq {bytes : Bytes} {offset size : Nat} (h : offset + size ≤ bytes.length) :
    cleanAscii bytes offset size = .ok (CartridgeFormat.cleanAscii (slice bytes offset size)) := by
  rw [cleanAscii, cleanFrom_eq h]
  rfl

theorem readLe32_eq {bytes : Bytes} {offset : Nat} (h : offset + 4 ≤ bytes.length) :
    readLe32 bytes offset = .ok (CartridgeFormat.readLe32 bytes offset) := by
  rw [readLe32, byteAt_ok (by omega), byteAt_ok (by omega), byteAt_ok (by omega),
    byteAt_ok (by omega)]
  rfl

theorem parseEntry_eq {loader : Bytes} {offset : Nat} {first : Bool} :
    parseEntry loader offset first = (CatalogEntry.parse loader offset first).mapError .raised := by
  rw [parseEntry, CatalogEntry.parse]
  split
  · rfl
  case isFalse hfit =>
    rw [CatalogEntry.entrySize] at hfit
    rw [readEntry, cleanAscii_eq (by omega), readLe32_eq (by omega), readLe32_eq (by omega),
      readLe32_eq (by omega)]
    rfl

theorem parseEntriesFrom_eq {loader : Bytes} {entryOffset : Nat} {imageLimit : UInt32}
    {count index : Nat} :
    parseEntriesFrom loader entryOffset imageLimit count index =
      (Ez3CatalogParser.parseEntriesFrom loader entryOffset imageLimit count index).mapError
        .raised := by
  induction count generalizing index with
  | zero => rfl
  | succ count ih =>
    rw [parseEntriesFrom, Ez3CatalogParser.parseEntriesFrom, parseEntry_eq]
    cases CatalogEntry.parse loader (entryOffset + index * CatalogEntry.entrySize) (index == 0) with
    | error e => rfl
    | ok entry =>
      dsimp only [Except.mapError, bind, Except.bind]
      split
      · rfl
      · rw [ih]
        cases Ez3CatalogParser.parseEntriesFrom loader entryOffset imageLimit count (index + 1) with
        | error e => rfl
        | ok entries => rfl

theorem parseEntries_eq {kind : Ez3CatalogKind} {loader : Bytes} {entryOffset count : Nat}
    {imageLimit : UInt32} :
    parseEntries kind loader entryOffset count imageLimit =
      (Ez3CatalogParser.parseEntries kind loader entryOffset count imageLimit).mapError .raised := by
  rw [parseEntries, Ez3CatalogParser.parseEntries]
  split
  · rfl
  · rw [parseEntriesFrom_eq]
    cases Ez3CatalogParser.parseEntriesFrom loader entryOffset imageLimit count 0 with
    | error e => rfl
    | ok entries => rfl

theorem singleHeader_eq {loader : Bytes} : singleHeader loader =
    .ok (decide (loader.length ≥ singleEntryOffset + CatalogEntry.entrySize ∧
      readLe16 loader singleHeaderOffset = 1 ∧ readLe16 loader singleHeaderCount2Offset = 1)) := by
  rw [singleHeader]
  split
  case isTrue hfit =>
    have hfit' := hfit
    simp only [singleEntryOffset, CatalogEntry.entrySize] at hfit'
    rw [read16_ok (by simp only [singleHeaderOffset]; omega),
      read16_ok (by simp only [singleHeaderCount2Offset]; omega)]
    dsimp only [bind, Except.bind]
    split
    case isTrue hone => simp [hfit, hone, pure, Except.pure]
    case isFalse hone => simp [hone, pure, Except.pure]
  case isFalse hfit => simp [hfit]

theorem parseMulti_eq {loader : Bytes} {imageLimit : UInt32} :
    parseMulti loader imageLimit =
      (Ez3CatalogParser.parseMulti loader imageLimit).mapError .raised := by
  rw [parseMulti, Ez3CatalogParser.parseMulti]
  split
  · rfl
  case isFalse hfit =>
    rw [read16_ok (by omega), read16_ok (by omega)]
    dsimp only [Except.mapError, bind, Except.bind]
    split
    · rfl
    · exact parseEntries_eq

/-- No read is outside the vector. -/
theorem parse_eq {loader : Bytes} {imageLimit : UInt32} :
    parse loader imageLimit = (Ez3CatalogParser.parse loader imageLimit).mapError .raised := by
  rw [parse, Ez3CatalogParser.parse]
  split
  · rfl
  · rw [singleHeader_eq]
    dsimp only [Except.mapError, bind, Except.bind]
    simp only [decide_eq_true_eq]
    split
    · rw [parseEntries_eq]
      cases Ez3CatalogParser.parseEntries .single loader singleEntryOffset 1 imageLimit with
      | error e => rfl
      | ok result =>
        cases result with
        | some layout => rfl
        | none => exact parseMulti_eq
    · exact parseMulti_eq

end Checked

open Ez3CatalogParser

/-- From `entryOffset` on the vector has `count` entries, each plausible in its place: these. -/
structure HoldsEntries (loader : Bytes) (entryOffset count : Nat) (imageLimit : UInt32)
    (entries : List CatalogEntry) : Prop where
  fits : entryOffset + count * CatalogEntry.entrySize ≤ loader.length
  length : entries.length = count
  decodes : Decodes loader entryOffset imageLimit entries 0

/-- A single-ROM catalog of these entries. -/
structure SingleCatalog (loader : Bytes) (imageLimit : UInt32) (entries : List CatalogEntry) :
    Prop where
  limit : imageLimit ≠ 0
  count : readLe16 loader 0x4E8 = 1
  repeated : readLe16 loader 0x4F6 = 1
  holds : HoldsEntries loader 0x4F8 1 imageLimit entries

/-- A multi-ROM catalog of these entries, in a vector that is no single-ROM catalog. -/
structure MultiCatalog (loader : Bytes) (imageLimit : UInt32) (entries : List CatalogEntry) :
    Prop where
  limit : imageLimit ≠ 0
  single : ∀ entries, ¬ SingleCatalog loader imageLimit entries
  repeated : readLe16 loader 0x476C = readLe16 loader 0x475E
  atLeast : 2 ≤ (readLe16 loader 0x475E).toNat
  atMost : (readLe16 loader 0x475E).toNat ≤ 120
  holds : HoldsEntries loader 0x476E (readLe16 loader 0x475E).toNat imageLimit entries

section Parse

variable {loader : Bytes} {imageLimit : UInt32}

theorem parseEntriesFrom_iff {entryOffset count index : Nat} {entries : List CatalogEntry}
    (hfit : entryOffset + (index + count) * CatalogEntry.entrySize ≤ loader.length) :
    parseEntriesFrom loader entryOffset imageLimit count index = .ok (some entries) ↔
      entries.length = count ∧ Decodes loader entryOffset imageLimit entries index := by
  constructor
  · intro h
    obtain ⟨result, hresult, hspec⟩ := @parseEntriesFrom_total loader entryOffset imageLimit count
      index hfit
    rw [h, Except.ok.injEq] at hresult
    exact hspec entries hresult.symm
  · rintro ⟨rfl, hdecodes⟩
    exact parseEntriesFrom_ok fun k hk => hdecodes k _ (List.getElem?_eq_getElem hk)

theorem parseEntries_iff {kind : Ez3CatalogKind} {entryOffset count : Nat}
    {layout : Ez3CatalogLayout} :
    parseEntries kind loader entryOffset count imageLimit = .ok (some layout) ↔
      layout.kind = kind ∧ 0 < count ∧ count ≤ structuralSlotCount ∧
        HoldsEntries loader entryOffset count imageLimit layout.entries := by
  have hdiv : entryOffset ≤ loader.length →
      (count ≤ (loader.length - entryOffset) / CatalogEntry.entrySize ↔
        entryOffset + count * CatalogEntry.entrySize ≤ loader.length) := by
    intro hle
    rw [Nat.le_div_iff_mul_le (by decide)]
    omega
  rw [parseEntries]
  split
  case isTrue hno =>
    refine iff_of_false (by rintro ⟨⟩) ?_
    rintro ⟨_, hpos, hslots, hholds⟩
    have hroom : entryOffset ≤ loader.length := Nat.le_trans (Nat.le_add_right ..) hholds.fits
    have hfit := (hdiv hroom).mpr hholds.fits
    omega
  case isFalse hyes =>
    have hfit : entryOffset + count * CatalogEntry.entrySize ≤ loader.length :=
      (hdiv (by omega)).mp (by omega)
    have hfrom := fun entries => @parseEntriesFrom_iff loader imageLimit entryOffset count 0 entries
      (by rwa [Nat.zero_add])
    cases hresult : parseEntriesFrom loader entryOffset imageLimit count 0 with
    | error e =>
      refine iff_of_false (by rintro ⟨⟩) fun h => ?_
      have := (hfrom layout.entries).mpr ⟨h.2.2.2.length, h.2.2.2.decodes⟩
      rw [hresult] at this
      cases this
    | ok result =>
      simp only [hresult, Except.ok.injEq] at hfrom
      show Except.ok (result.map _) = Except.ok (some layout) ↔ _
      rw [Except.ok.injEq, Option.map_eq_some_iff]
      constructor
      · rintro ⟨entries, hentries, rfl⟩
        obtain ⟨hlen, hdecodes⟩ := (hfrom entries).mp hentries
        exact ⟨rfl, by omega, by omega, hfit, hlen, hdecodes⟩
      · rintro ⟨rfl, _, _, hholds⟩
        exact ⟨layout.entries, (hfrom _).mpr ⟨hholds.length, hholds.decodes⟩, rfl⟩

theorem parseMulti_iff {layout : Ez3CatalogLayout} :
    parseMulti loader imageLimit = .ok (some layout) ↔ layout.kind = .multi ∧
      readLe16 loader 0x476C = readLe16 loader 0x475E ∧
      2 ≤ (readLe16 loader 0x475E).toNat ∧ (readLe16 loader 0x475E).toNat ≤ 120 ∧
      HoldsEntries loader 0x476E (readLe16 loader 0x475E).toNat imageLimit layout.entries := by
  have hslots : structuralSlotCount = 120 := rfl
  have hend : multiHeaderOffset + 16 = 0x476E := rfl
  rw [parseMulti]
  split
  case isTrue hshort =>
    refine iff_of_false (by rintro ⟨⟩) ?_
    rintro ⟨_, _, _, _, hholds⟩
    have hroom : 0x476E ≤ loader.length := Nat.le_trans (Nat.le_add_right ..) hholds.fits
    omega
  case isFalse =>
    show (if (readLe16 loader 0x475E).toNat < 2 ∨
      (readLe16 loader 0x475E).toNat > structuralSlotCount ∨
      (readLe16 loader 0x475E).toNat ≠ (readLe16 loader 0x476C).toNat then _ else _) = _ ↔ _
    split
    case isTrue hno =>
      refine iff_of_false (by rintro ⟨⟩) ?_
      rintro ⟨_, hsame, htwo, hmax, _⟩
      rw [hsame] at hno
      omega
    case isFalse hyes =>
      have hsame : readLe16 loader 0x476C = readLe16 loader 0x475E :=
        UInt16.toNat_inj.mp (by omega)
      rw [parseEntries_iff]
      constructor
      · rintro ⟨hkind, _, hmax, hholds⟩
        exact ⟨hkind, hsame, by omega, hmax, hholds⟩
      · rintro ⟨hkind, _, htwo, hmax, hholds⟩
        exact ⟨hkind, Nat.lt_of_lt_of_le (by decide) htwo, hmax, hholds⟩

theorem singleCatalog_iff {entries : List CatalogEntry} :
    SingleCatalog loader imageLimit entries ↔ imageLimit ≠ 0 ∧
      (loader.length ≥ singleEntryOffset + CatalogEntry.entrySize ∧
        readLe16 loader singleHeaderOffset = 1 ∧ readLe16 loader singleHeaderCount2Offset = 1) ∧
      parseEntries .single loader singleEntryOffset 1 imageLimit =
        .ok (some ⟨.single, entries⟩) := by
  rw [parseEntries_iff]
  constructor
  · rintro ⟨hlimit, hcount, hrepeated, hholds⟩
    exact ⟨hlimit, ⟨hholds.fits, hcount, hrepeated⟩, rfl, by decide, by decide, hholds⟩
  · rintro ⟨hlimit, ⟨_, hcount, hrepeated⟩, _, _, _, hholds⟩
    exact ⟨hlimit, hcount, hrepeated, hholds⟩

theorem multiCatalog_iff {entries : List CatalogEntry} :
    MultiCatalog loader imageLimit entries ↔ imageLimit ≠ 0 ∧
      (∀ entries, ¬ SingleCatalog loader imageLimit entries) ∧
      parseMulti loader imageLimit = .ok (some ⟨.multi, entries⟩) := by
  rw [parseMulti_iff]
  constructor
  · rintro ⟨hlimit, hsingle, hrepeated, htwo, hmax, hholds⟩
    exact ⟨hlimit, hsingle, rfl, hrepeated, htwo, hmax, hholds⟩
  · rintro ⟨hlimit, hsingle, _, hrepeated, htwo, hmax, hholds⟩
    exact ⟨hlimit, hsingle, hrepeated, htwo, hmax, hholds⟩

/-- What is no single-ROM catalog is settled by the multi form. -/
theorem parseMulti_settles {layout : Ez3CatalogLayout} (hlimit : imageLimit ≠ 0)
    (hno : ∀ entries, ¬ SingleCatalog loader imageLimit entries) :
    parseMulti loader imageLimit = .ok (some layout) ↔
      (layout.kind = .single ∧ SingleCatalog loader imageLimit layout.entries) ∨
        (layout.kind = .multi ∧ MultiCatalog loader imageLimit layout.entries) := by
  obtain ⟨kind, entries⟩ := layout
  rw [multiCatalog_iff]
  constructor
  · intro h
    obtain rfl : kind = .multi := (parseMulti_iff.mp h).1
    exact .inr ⟨rfl, hlimit, hno, h⟩
  · rintro (⟨_, h⟩ | ⟨rfl, _, _, h⟩)
    · exact absurd h (hno entries)
    · exact h

/-- The parser tries the single form first, then the multi form. -/
theorem parse_iff {layout : Ez3CatalogLayout} :
    parse loader imageLimit = .ok (some layout) ↔
      (layout.kind = .single ∧ SingleCatalog loader imageLimit layout.entries) ∨
        (layout.kind = .multi ∧ MultiCatalog loader imageLimit layout.entries) := by
  rw [parse]
  split
  case isTrue hzero =>
    refine iff_of_false (by rintro ⟨⟩) ?_
    rintro (⟨_, h⟩ | ⟨_, h⟩)
    · exact h.limit hzero
    · exact h.limit hzero
  case isFalse hlimit =>
    split
    case isTrue hheader =>
      obtain ⟨single, hsingle, hspec⟩ :=
        @parseEntries_total .single loader singleEntryOffset 1 imageLimit
      rw [hsingle]
      cases single with
      | none =>
        refine parseMulti_settles hlimit fun entries h => ?_
        have hfound := (singleCatalog_iff.mp h).2.2
        rw [hsingle] at hfound
        cases hfound
      | some found =>
        obtain ⟨foundKind, foundEntries⟩ := found
        obtain rfl : foundKind = .single := (hspec _ rfl).1
        have hfound : SingleCatalog loader imageLimit foundEntries :=
          singleCatalog_iff.mpr ⟨hlimit, hheader, hsingle⟩
        obtain ⟨kind, entries⟩ := layout
        show Except.ok (some _) = Except.ok (some _) ↔ _
        rw [Except.ok.injEq, Option.some.injEq, Ez3CatalogLayout.mk.injEq]
        constructor
        · rintro ⟨rfl, rfl⟩
          exact .inl ⟨rfl, hfound⟩
        · rintro (⟨rfl, h⟩ | ⟨_, h⟩)
          · have hentries := (singleCatalog_iff.mp h).2.2
            rw [hsingle] at hentries
            cases hentries
            exact ⟨rfl, rfl⟩
          · exact absurd hfound (h.single foundEntries)
    case isFalse hheader =>
      exact parseMulti_settles hlimit fun entries h => hheader (singleCatalog_iff.mp h).2.1

/-- For every vector and limit the parser returns, without an exception and without a read outside:
the entries of a single-ROM catalog, of a multi-ROM one if it is none, or nothing. Each entry has a
name, starts below the limit and, behind the first, on a 64-KiB boundary. -/
theorem catalog_parse_iff (loader : Bytes) (imageLimit : UInt32) :
    ∃ result, Checked.parse loader imageLimit = .ok result ∧
      (∀ entries, result = some ⟨.single, entries⟩ ↔ SingleCatalog loader imageLimit entries) ∧
      (∀ entries, result = some ⟨.multi, entries⟩ ↔ MultiCatalog loader imageLimit entries) ∧
      ∀ layout, result = some layout → ∀ k entry, layout.entries[k]? = some entry →
        entry.name ≠ [] ∧ entry.start < imageLimit ∧ (0 < k → 0x10000 ∣ entry.start.toNat) := by
  obtain ⟨result, hparse, _⟩ := @parse_total loader imageLimit
  have hiff : ∀ layout, result = some layout ↔
      (layout.kind = .single ∧ SingleCatalog loader imageLimit layout.entries) ∨
        (layout.kind = .multi ∧ MultiCatalog loader imageLimit layout.entries) := by
    intro layout
    rw [← parse_iff, hparse, Except.ok.injEq]
  refine ⟨result, by rw [Checked.parse_eq, hparse]; rfl, fun entries => ?_, fun entries => ?_,
    fun layout hlayout k entry hk => ?_⟩
  · rw [hiff]
    simp
  · rw [hiff]
    simp
  · have hdecodes : ∃ entryOffset, Decodes loader entryOffset imageLimit layout.entries 0 := by
      obtain ⟨_, h⟩ | ⟨_, h⟩ := (hiff layout).mp hlayout
      · exact ⟨_, h.holds.decodes⟩
      · exact ⟨_, h.holds.decodes⟩
    obtain ⟨entryOffset, hdecodes⟩ := hdecodes
    obtain ⟨hname, hstart, haligned⟩ := CatalogEntry.isPlausible_iff.mp (hdecodes k entry hk).2
    refine ⟨hname, hstart, fun hpos => haligned.resolve_left ?_⟩
    rw [Nat.zero_add, beq_iff_eq]
    omega

end Parse

end Ezfadvance
