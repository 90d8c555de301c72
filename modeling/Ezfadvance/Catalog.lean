import Mathlib.Data.List.DropRight
import Ezfadvance.Format

/-!
# Catalog

Catalog entries, the catalog parser and the reconstruction of an extracted ROM
(`cartridge_format.cpp`, `ez3_catalog.cpp`).

* `parseEntries_ok`: a loader whose entries parse to a plausible list parses to that list.
* `getD_blankLoader`, `reconstructEz3Rom_later`, `reconstructEz3Rom_first`: reconstruction blanks
  the loader's extent and, in the first ROM, rewrites the entry branch.
-/

namespace Ezfadvance

open Segments

namespace CartridgeFormat

/-- The loop of `cleanAscii`, which stops at the first `00` or `FF`. -/
def cleanPrefix : Bytes → Bytes
  | [] => []
  | value :: bytes =>
    if value = 0x00 ∨ value = 0xFF then []
    else (if 0x20 ≤ value ∧ value ≤ 0x7E then value else 0x2E) :: cleanPrefix bytes

/-- A string without its trailing spaces. -/
def trimRight (text : Bytes) : Bytes := text.rdropWhile (· == 0x20)

def cleanAscii (bytes : Bytes) : Bytes := trimRight (cleanPrefix bytes)

def Printable (text : Bytes) : Prop := ∀ c ∈ text, 0x20 ≤ c ∧ c ≤ 0x7E

/-- Printable text is kept, up to the zero bytes that pad it. -/
theorem cleanPrefix_padded {text : Bytes} {n : Nat} (h : Printable text) :
    cleanPrefix (text ++ List.replicate n 0) = text := by
  induction text with
  | nil =>
    cases n with
    | zero => rfl
    | succ n => simp [List.replicate_succ, cleanPrefix]
  | cons c text ih =>
    have hc := h c (List.mem_cons_self ..)
    have hzero : c ≠ 0 := by
      rintro rfl
      exact absurd hc.1 (by decide)
    have hff : c ≠ 0xFF := by
      rintro rfl
      exact absurd hc.2 (by decide)
    rw [List.cons_append, cleanPrefix, if_neg (by simp [hzero, hff]), if_pos hc,
      ih (fun d hd => h d (List.mem_cons_of_mem _ hd))]

theorem cleanAscii_padded {text : Bytes} {n : Nat} (h : Printable text) :
    cleanAscii (text ++ List.replicate n 0) = trimRight text := by
  rw [cleanAscii, cleanPrefix_padded h]

theorem trimRight_ne_nil_iff {text : Bytes} : trimRight text ≠ [] ↔ ∃ c ∈ text, c ≠ 0x20 := by
  rw [trimRight, ne_eq, List.rdropWhile_eq_nil_iff]
  simp only [beq_iff_eq, not_forall, exists_prop, ne_eq]

end CartridgeFormat

open CartridgeFormat

/-! ## Catalog entries -/

structure CatalogEntry where
  name : Bytes
  type : UInt8
  mapping : UInt8
  packedStart : UInt32
  start : UInt32
  targetOrStart : UInt32
  deriving DecidableEq

inductive CatalogError where
  | entryOutsideLoader
  deriving DecidableEq

def CatalogError.message : CatalogError → String
  | .entryOutsideLoader => "catalog entry outside read loader data"

namespace CatalogEntry

def entrySize : Nat := 28

def parse (loader : Bytes) (offset : Nat) (first : Bool) : Except CatalogError CatalogEntry :=
  if offset + entrySize > loader.length then .error .entryOutsideLoader
  else
    let typeField := readLe32 loader (offset + 16)
    let packedStart := readLe32 loader (offset + 20)
    .ok {
      name := cleanAscii (slice loader offset 16)
      type := (typeField >>> 24).toUInt8
      mapping := (packedStart &&& 0xFF).toUInt8
      packedStart := packedStart
      start := if first then 0 else (packedStart >>> 8) * 2
      targetOrStart := readLe32 loader (offset + 24) }

def isPlausible (entry : CatalogEntry) (imageLimit : UInt32) (first : Bool) : Bool :=
  if entry.name = [] ∨ entry.start ≥ imageLimit then false
  else first || decide (entry.start &&& 0xFFFF = 0)

theorem isPlausible_iff {entry : CatalogEntry} {imageLimit : UInt32} {first : Bool} :
    entry.isPlausible imageLimit first = true ↔
      entry.name ≠ [] ∧ entry.start < imageLimit ∧ (first = true ∨ 0x10000 ∣ entry.start.toNat) := by
  have haligned : entry.start &&& 0xFFFF = 0 ↔ 0x10000 ∣ entry.start.toNat := by
    rw [← UInt32.toNat_inj, UInt32.toNat_and, show (0xFFFF : UInt32).toNat = 2 ^ 16 - 1 from rfl,
      Nat.and_two_pow_sub_one_eq_mod]
    exact (Nat.dvd_iff_mod_eq_zero ..).symm
  rw [isPlausible]
  split
  case isTrue hno =>
    constructor
    · intro h
      cases h
    · rintro ⟨hname, hstart, _⟩
      exact absurd hno (not_or.mpr ⟨hname, UInt32.not_le.mpr hstart⟩)
  case isFalse hyes =>
    obtain ⟨hname, hstart⟩ := not_or.mp hyes
    rw [Bool.or_eq_true, decide_eq_true_eq, haligned]
    exact ⟨fun h => ⟨hname, UInt32.not_le.mp hstart, h⟩, fun h => h.2.2⟩

def storedEnd (entry : CatalogEntry) (imageLimit : UInt32) : Option UInt32 :=
  if entry.type > 9 then none
  else
    let sizeClass : UInt64 := imageLimit.toUInt64 >>> entry.type.toUInt64
    let endAddress : UInt64 := entry.start.toUInt64 + sizeClass - 1
    if endAddress ≥ imageLimit.toUInt64 then none else some endAddress.toUInt32

end CatalogEntry

/-! ## The catalog parser -/

inductive Ez3CatalogKind where
  | single
  | multi
  deriving DecidableEq

structure Ez3CatalogLayout where
  kind : Ez3CatalogKind
  entries : List CatalogEntry
  deriving DecidableEq

namespace Ez3CatalogParser

def structuralSlotCount : Nat := 120
def loaderReadSize : Nat := 0x7080

def singleHeaderOffset : Nat := 0x4E8
def singleHeaderCount2Offset : Nat := 0x4F6
def singleEntryOffset : Nat := 0x4F8
def multiHeaderOffset : Nat := 0x475E
def multiEntryOffset : Nat := 0x476E

/-- The loop of `parseEntries`: `count` more entries from `index` on. -/
def parseEntriesFrom (loader : Bytes) (entryOffset : Nat) (imageLimit : UInt32) :
    Nat → Nat → Except CatalogError (Option (List CatalogEntry))
  | 0, _ => .ok (some [])
  | count + 1, index => do
    let first := index == 0
    let entry ← CatalogEntry.parse loader (entryOffset + index * CatalogEntry.entrySize) first
    if !entry.isPlausible imageLimit first then return none
    let entries ← parseEntriesFrom loader entryOffset imageLimit count (index + 1)
    return entries.map (entry :: ·)

def parseEntries (kind : Ez3CatalogKind) (loader : Bytes) (entryOffset count : Nat)
    (imageLimit : UInt32) : Except CatalogError (Option Ez3CatalogLayout) :=
  if count = 0 ∨ count > structuralSlotCount ∨ entryOffset > loader.length ∨
      count > (loader.length - entryOffset) / CatalogEntry.entrySize then
    .ok none
  else do
    let entries ← parseEntriesFrom loader entryOffset imageLimit count 0
    return entries.map fun entries => ⟨kind, entries⟩

def parseMulti (loader : Bytes) (imageLimit : UInt32) :
    Except CatalogError (Option Ez3CatalogLayout) :=
  if loader.length < multiHeaderOffset + 16 then .ok none
  else
    let count := (readLe16 loader multiHeaderOffset).toNat
    let repeatedCount := (readLe16 loader (multiHeaderOffset + 14)).toNat
    if count < 2 ∨ count > structuralSlotCount ∨ count ≠ repeatedCount then .ok none
    else parseEntries .multi loader multiEntryOffset count imageLimit

def parse (loader : Bytes) (imageLimit : UInt32) :
    Except CatalogError (Option Ez3CatalogLayout) :=
  if imageLimit = 0 then .ok none
  else if loader.length ≥ singleEntryOffset + CatalogEntry.entrySize ∧
      readLe16 loader singleHeaderOffset = 1 ∧ readLe16 loader singleHeaderCount2Offset = 1 then do
    match ← parseEntries .single loader singleEntryOffset 1 imageLimit with
    | some layout => return some layout
    | none => parseMulti loader imageLimit
  else parseMulti loader imageLimit

theorem parseEntriesFrom_ok {loader : Bytes} {entryOffset : Nat} {imageLimit : UInt32} :
    ∀ {entries : List CatalogEntry} {index : Nat},
      (∀ k (hk : k < entries.length),
        CatalogEntry.parse loader (entryOffset + (index + k) * CatalogEntry.entrySize)
            (index + k == 0) = .ok entries[k] ∧
          entries[k].isPlausible imageLimit (index + k == 0) = true) →
      parseEntriesFrom loader entryOffset imageLimit entries.length index = .ok (some entries) := by
  intro entries
  induction entries with
  | nil => intro index _; rfl
  | cons entry entries ih =>
    intro index h
    obtain ⟨hparse, hentry⟩ := h 0 (by simp)
    simp only [Nat.add_zero, List.getElem_cons_zero] at hparse hentry
    have htail : parseEntriesFrom loader entryOffset imageLimit entries.length (index + 1) =
        .ok (some entries) := by
      apply ih
      intro k hk
      have hnext := h (k + 1) (by simp only [List.length_cons]; omega)
      rw [show index + 1 + k = index + (k + 1) by omega]
      exact hnext
    simp [parseEntriesFrom, hparse, hentry, htail, bind, Except.bind, pure, Except.pure]

/-- A loader that holds plausible entries parses to them. -/
theorem parseEntries_ok {kind : Ez3CatalogKind} {loader : Bytes} {entryOffset : Nat}
    {imageLimit : UInt32} {entries : List CatalogEntry} (hpos : entries ≠ [])
    (hslots : entries.length ≤ structuralSlotCount)
    (hlen : entryOffset + entries.length * CatalogEntry.entrySize ≤ loader.length)
    (h : ∀ k (hk : k < entries.length),
      CatalogEntry.parse loader (entryOffset + k * CatalogEntry.entrySize) (k == 0) =
          .ok entries[k] ∧ entries[k].isPlausible imageLimit (k == 0) = true) :
    parseEntries kind loader entryOffset entries.length imageLimit = .ok (some ⟨kind, entries⟩) := by
  have hfit : entries.length ≤ (loader.length - entryOffset) / CatalogEntry.entrySize := by
    rw [Nat.le_div_iff_mul_le (by decide)]
    omega
  have hfrom := @parseEntriesFrom_ok loader entryOffset imageLimit entries 0 (by simpa using h)
  have hcount : 0 < entries.length := List.length_pos_iff.mpr hpos
  unfold parseEntries
  rw [if_neg (by omega), hfrom]
  rfl

/-- The entry in each slot decodes and is plausible. -/
def Decodes (loader : Bytes) (entryOffset : Nat) (imageLimit : UInt32)
    (entries : List CatalogEntry) (index : Nat) : Prop :=
  ∀ k entry, entries[k]? = some entry →
    CatalogEntry.parse loader (entryOffset + (index + k) * CatalogEntry.entrySize)
        (index + k == 0) = .ok entry ∧ entry.isPlausible imageLimit (index + k == 0) = true

/-- Entries that fit in the loader parse without an error, and what comes out decodes. -/
theorem parseEntriesFrom_total {loader : Bytes} {entryOffset : Nat} {imageLimit : UInt32} :
    ∀ {count index : Nat}, entryOffset + (index + count) * CatalogEntry.entrySize ≤ loader.length →
      ∃ result, parseEntriesFrom loader entryOffset imageLimit count index = .ok result ∧
        ∀ entries, result = some entries →
          entries.length = count ∧ Decodes loader entryOffset imageLimit entries index := by
  intro count
  induction count with
  | zero =>
    intro index _
    refine ⟨some [], rfl, ?_⟩
    rintro entries ⟨⟩
    exact ⟨rfl, fun k entry hk => by simp at hk⟩
  | succ count ih =>
    intro index hfit
    rw [CatalogEntry.entrySize] at hfit
    obtain ⟨result, hrest, hspec⟩ := @ih (index + 1) (by rw [CatalogEntry.entrySize]; omega)
    have hparse : ∃ entry, CatalogEntry.parse loader (entryOffset + index * CatalogEntry.entrySize)
        (index == 0) = .ok entry := by
      rw [CatalogEntry.parse, if_neg (by rw [CatalogEntry.entrySize]; omega)]
      exact ⟨_, rfl⟩
    obtain ⟨entry, hparse⟩ := hparse
    simp only [parseEntriesFrom, hparse, hrest, bind, Except.bind, pure, Except.pure]
    cases hplausible : entry.isPlausible imageLimit (index == 0) with
    | false => exact ⟨none, rfl, fun entries h => by cases h⟩
    | true =>
      refine ⟨result.map (entry :: ·), rfl, ?_⟩
      intro entries hentries
      obtain ⟨rest, rfl, rfl⟩ := Option.map_eq_some_iff.mp hentries
      obtain ⟨hlen, hdecodes⟩ := hspec rest rfl
      refine ⟨by simp [hlen], fun k e hk => ?_⟩
      cases k with
      | zero =>
        cases hk
        exact ⟨hparse, hplausible⟩
      | succ k =>
        rw [show index + (k + 1) = index + 1 + k by omega]
        exact hdecodes k e hk

theorem parseEntries_total {kind : Ez3CatalogKind} {loader : Bytes} {entryOffset count : Nat}
    {imageLimit : UInt32} :
    ∃ result, parseEntries kind loader entryOffset count imageLimit = .ok result ∧
      ∀ layout, result = some layout → layout.kind = kind ∧ layout.entries.length = count ∧
        0 < count ∧ Decodes loader entryOffset imageLimit layout.entries 0 := by
  unfold parseEntries
  split
  case isTrue => exact ⟨none, rfl, fun layout h => by cases h⟩
  case isFalse hfit =>
    have hcount : 0 < count := by omega
    have hdiv : count ≤ (loader.length - entryOffset) / CatalogEntry.entrySize := by omega
    rw [Nat.le_div_iff_mul_le (by decide)] at hdiv
    obtain ⟨result, hrest, hspec⟩ :=
      @parseEntriesFrom_total loader entryOffset imageLimit count 0 (by rw [Nat.zero_add]; omega)
    refine ⟨result.map fun entries => ⟨kind, entries⟩, by rw [hrest]; rfl, ?_⟩
    intro layout hlayout
    obtain ⟨entries, rfl, rfl⟩ := Option.map_eq_some_iff.mp hlayout
    obtain ⟨hlen, hdecodes⟩ := hspec entries rfl
    exact ⟨rfl, hlen, hcount, hdecodes⟩

/-- A catalog whose entries decode from the loader's slots. -/
def Accepted (loader : Bytes) (imageLimit : UInt32) (layout : Ez3CatalogLayout) : Prop :=
  0 < layout.entries.length ∧
    ∃ entryOffset, Decodes loader entryOffset imageLimit layout.entries 0

theorem parseMulti_total {loader : Bytes} {imageLimit : UInt32} :
    ∃ result, parseMulti loader imageLimit = .ok result ∧
      ∀ layout, result = some layout → Accepted loader imageLimit layout := by
  unfold parseMulti
  split
  case isTrue => exact ⟨none, rfl, fun layout h => by cases h⟩
  case isFalse =>
    dsimp only
    split
    case isTrue => exact ⟨none, rfl, fun layout h => by cases h⟩
    case isFalse =>
      obtain ⟨result, hres, hspec⟩ := @parseEntries_total .multi loader multiEntryOffset
        (readLe16 loader multiHeaderOffset).toNat imageLimit
      refine ⟨result, hres, fun layout hl => ?_⟩
      obtain ⟨_, hlen, hcount, hdecodes⟩ := hspec layout hl
      exact ⟨hlen ▸ hcount, _, hdecodes⟩

/-- The parser never raises, and what it accepts is decoded from the loader. -/
theorem parse_total {loader : Bytes} {imageLimit : UInt32} :
    ∃ result, parse loader imageLimit = .ok result ∧
      ∀ layout, result = some layout → Accepted loader imageLimit layout := by
  unfold parse
  split
  case isTrue => exact ⟨none, rfl, fun layout h => by cases h⟩
  case isFalse =>
    split
    case isTrue =>
      obtain ⟨single, hsingle, hspec⟩ :=
        @parseEntries_total .single loader singleEntryOffset 1 imageLimit
      rw [hsingle]
      cases single with
      | none => exact parseMulti_total
      | some layout =>
        refine ⟨some layout, rfl, ?_⟩
        rintro _ ⟨⟩
        obtain ⟨_, hlen, hcount, hdecodes⟩ := hspec layout rfl
        exact ⟨hlen ▸ hcount, _, hdecodes⟩
    case isFalse => exact parseMulti_total

/-- Accepted entries start on a 64-KiB boundary below the limit. -/
theorem Accepted.start {loader : Bytes} {imageLimit : UInt32} {layout : Ez3CatalogLayout}
    (h : Accepted loader imageLimit layout) {entry : CatalogEntry} (hmem : entry ∈ layout.entries) :
    entry.start.toNat < imageLimit.toNat ∧ 0x10000 ∣ entry.start.toNat := by
  obtain ⟨_, entryOffset, hdecodes⟩ := h
  obtain ⟨k, hk⟩ := List.mem_iff_getElem?.mp hmem
  obtain ⟨hparse, hplausible⟩ := hdecodes k entry hk
  obtain ⟨_, hlt, hplace⟩ := CatalogEntry.isPlausible_iff.mp hplausible
  refine ⟨UInt32.lt_iff_toNat_lt.mp hlt, ?_⟩
  obtain hfirst | haligned := hplace
  · rw [CatalogEntry.parse, hfirst] at hparse
    split at hparse
    case isTrue => cases hparse
    case isFalse =>
      cases hparse
      exact Nat.dvd_zero _
  · exact haligned

end Ez3CatalogParser

/-! ## Reconstruction -/

namespace CartridgeFormat

/-- The ROM and whether its entry could be restored. -/
def restoreEz3Entry (rom : Bytes) (entry : CatalogEntry) (first : Bool) : Bytes × Bool :=
  if !first then (rom, true)
  else if rom.length < 4 then (rom, false)
  else
    match makeArmBranch entry.targetOrStart with
    | .ok instruction => (blit rom 0 (le32 instruction), true)
    | .error _ => (rom, false)

/-- The fill of `reconstructEz3Rom`: what of the ROM lies under the loader is erased. -/
def blankLoader (rom : Bytes) (romStart loaderStart : UInt32) (loaderLength : Nat) : Bytes :=
  let romBegin := romStart.toNat
  let romEnd := romBegin + rom.length
  let loaderBegin := loaderStart.toNat
  let loaderEnd := loaderBegin + loaderLength
  let overlapBegin := max romBegin loaderBegin
  let overlapEnd := min romEnd loaderEnd
  if overlapBegin < overlapEnd then
    fill rom (overlapBegin - romBegin) (overlapEnd - romBegin) 0xFF
  else rom

def reconstructEz3Rom (rom : Bytes) (entry : CatalogEntry) (first : Bool)
    (romStart loaderStart : UInt32) (loaderLength : Nat) : Bytes × Bool :=
  restoreEz3Entry (blankLoader rom romStart loaderStart loaderLength) entry first

section Reconstruct

variable {rom : Bytes} {entry : CatalogEntry} {romStart loaderStart : UInt32} {loaderLength : Nat}

theorem length_blankLoader :
    (blankLoader rom romStart loaderStart loaderLength).length = rom.length := by
  simp only [blankLoader]
  split
  · exact length_fill (by omega) (by omega)
  · rfl

theorem getD_blankLoader (j : Nat) :
    (blankLoader rom romStart loaderStart loaderLength).getD j 0xFF =
      if loaderStart.toNat ≤ romStart.toNat + j ∧
          romStart.toNat + j < loaderStart.toNat + loaderLength then 0xFF
      else rom.getD j 0xFF := by
  simp only [blankLoader]
  split
  case isTrue h =>
    rw [getD_fill (by omega) (by omega)]
    by_cases hj : j < rom.length
    · by_cases hin : loaderStart.toNat ≤ romStart.toNat + j ∧
          romStart.toNat + j < loaderStart.toNat + loaderLength
      · rw [if_pos (by omega), if_pos hin]
      · rw [if_neg (by omega), if_neg hin]
    · rw [getD_eq_of_ge (by omega : rom.length ≤ j)]
      split <;> split <;> rfl
  case isFalse h =>
    by_cases hj : j < rom.length
    · rw [if_neg (by omega)]
    · rw [getD_eq_of_ge (by omega : rom.length ≤ j)]
      split <;> rfl

theorem reconstructEz3Rom_later :
    reconstructEz3Rom rom entry false romStart loaderStart loaderLength =
      (blankLoader rom romStart loaderStart loaderLength, true) := rfl

theorem reconstructEz3Rom_first {w : UInt32} (hlen : 4 ≤ rom.length)
    (hw : makeArmBranch entry.targetOrStart = .ok w) :
    reconstructEz3Rom rom entry true romStart loaderStart loaderLength =
      (blit (blankLoader rom romStart loaderStart loaderLength) 0 (le32 w), true) := by
  simp only [reconstructEz3Rom, restoreEz3Entry, length_blankLoader, hw, Bool.not_true]
  rw [if_neg (by decide), if_neg (by omega)]

theorem reconstructEz3Rom_first_error {e : ArmBranchError}
    (hw : makeArmBranch entry.targetOrStart = .error e) :
    (reconstructEz3Rom rom entry true romStart loaderStart loaderLength).2 = false := by
  simp only [reconstructEz3Rom, restoreEz3Entry, hw, Bool.not_true]
  rw [if_neg (by decide)]
  split <;> rfl

end Reconstruct

end CartridgeFormat

end Ezfadvance
