import Ezfadvance.Catalog

/-!
# CatalogReader

`Ez3CatalogReader::read` (`ez3_catalog_reader.cpp`): find the loader through the branch in the first
word of a card and parse the catalog in it. What it calls to read the card is a parameter
(`LinearReads`), so the same definition runs on a card that answers by itself and on a transport.

* `readCard`: the bytes a card shows at an address.
* `LinearReads.ofCard`: a card that answers every read.
* `Ez3CatalogReader.read_ofCard`: the result on such a card, once the loader parses.
-/

namespace Ezfadvance

open Segments CartridgeFormat

/-- What a card reads in `[start, start + len)`. -/
def readCard (card : Nat → UInt8) (start len : Nat) : Bytes :=
  (List.range len).map fun i => card (start + i)

@[simp] theorem length_readCard {card : Nat → UInt8} {start len : Nat} :
    (readCard card start len).length = len := by simp [readCard]

theorem getD_readCard {card : Nat → UInt8} {start len i : Nat} {d : UInt8} (hi : i < len) :
    (readCard card start len).getD i d = card (start + i) := by
  rw [List.getD_eq_getElem _ _ (by rw [length_readCard]; exact hi)]
  simp [readCard]

theorem getElem?_readCard {card : Nat → UInt8} {start len i : Nat} (hi : i < len) :
    (readCard card start len)[i]? = some (card (start + i)) := by
  simp [readCard, hi]

inductive Ez3CatalogReadStatus where
  | loaded
  | readFailed
  | missingBranch
  | branchOutOfRange
  | invalidCatalog
  | entryLimitExceeded
  deriving DecidableEq

structure Ez3CatalogReadResult where
  status : Ez3CatalogReadStatus := .readFailed
  firstBytes : Bytes := []
  loaderStart : UInt32 := 0
  loaderEnd : UInt32 := 0
  catalog : Option Ez3CatalogLayout := none
  deriving DecidableEq

/-- The operations of `ReadOnlyCartridge` that the catalog reader uses. -/
structure LinearReads (m : Type → Type) where
  read : UInt32 → Nat → m (Option Bytes)
  prepareLinearForAddress : UInt32 → m Bool

def Ez3CatalogReader.readLength (imageLimit loaderStart : UInt32) : Nat :=
  min Ez3CatalogParser.loaderReadSize (imageLimit - loaderStart).toNat

/-- What the reader makes of the loader bytes. -/
def Ez3CatalogReader.finish (result : Ez3CatalogReadResult) (entryLimit : Nat)
    (catalog : Option Ez3CatalogLayout) : Ez3CatalogReadResult :=
  match catalog with
  | none => { result with status := .invalidCatalog }
  | some layout =>
    if layout.entries.length > entryLimit then { result with status := .entryLimitExceeded }
    else { result with status := .loaded, catalog := some layout }

def Ez3CatalogReader.read {m : Type → Type} [Monad m] [MonadExceptOf CatalogError m]
    (cartridge : LinearReads m) (imageLimit : UInt32) (entryLimit : Nat) :
    m Ez3CatalogReadResult := do
  match ← cartridge.read 0 4 with
  | none => return {}
  | some firstBytes =>
    match armBranchTarget (readLe32 firstBytes 0) with
    | none => return { status := .missingBranch, firstBytes := firstBytes }
    | some loaderStart =>
      if loaderStart < 0xC0 ∨ loaderStart ≥ imageLimit then
        return { status := .branchOutOfRange, firstBytes := firstBytes, loaderStart := loaderStart }
      else
        let readLength := Ez3CatalogReader.readLength imageLimit loaderStart
        let loaderEnd := loaderStart + UInt32.ofNat (readLength - 1)
        let result : Ez3CatalogReadResult :=
          { firstBytes := firstBytes, loaderStart := loaderStart, loaderEnd := loaderEnd }
        let ready ← cartridge.prepareLinearForAddress loaderEnd
        if !ready then return result
        else
          match ← cartridge.read loaderStart readLength with
          | none => return result
          | some loader =>
            match Ez3CatalogParser.parse loader imageLimit with
            | .error e => throwThe CatalogError e
            | .ok catalog => return Ez3CatalogReader.finish result entryLimit catalog

/-- A card that answers every read below 32 MiB. -/
def LinearReads.ofCard (card : Nat → UInt8) : LinearReads (Except CatalogError) where
  read address length := .ok (some (readCard card address.toNat length))
  prepareLinearForAddress address := .ok (decide (address < 0x02000000))

/-- On a card whose first word branches to a loader that parses, the reader loads the catalog. -/
theorem Ez3CatalogReader.read_ofCard {card : Nat → UInt8} {imageLimit loaderStart : UInt32}
    {entryLimit : Nat} {layout : Ez3CatalogLayout} (hlimit : imageLimit ≤ 0x02000000)
    (hbranch : armBranchTarget (readLe32 (readCard card 0 4) 0) = some loaderStart)
    (hlo : 0xC0 ≤ loaderStart.toNat) (hhi : loaderStart.toNat < imageLimit.toNat)
    (hparse : Ez3CatalogParser.parse
      (readCard card loaderStart.toNat (readLength imageLimit loaderStart)) imageLimit =
        .ok (some layout))
    (hentries : layout.entries.length ≤ entryLimit) :
    ∃ result, Ez3CatalogReader.read (LinearReads.ofCard card) imageLimit entryLimit = .ok result ∧
      result.status = .loaded ∧ result.loaderStart = loaderStart ∧ result.catalog = some layout := by
  have hrange : ¬ (loaderStart < 0xC0 ∨ loaderStart ≥ imageLimit) := by
    rw [ge_iff_le, UInt32.lt_iff_toNat_lt, UInt32.le_iff_toNat_le]
    have : (0xC0 : UInt32).toNat = 0xC0 := rfl
    omega
  have hend : loaderStart + UInt32.ofNat (readLength imageLimit loaderStart - 1) < 0x02000000 := by
    rw [UInt32.le_iff_toNat_le] at hlimit
    have hmax : (0x02000000 : UInt32).toNat = 0x02000000 := rfl
    have hsub : (imageLimit - loaderStart).toNat = imageLimit.toNat - loaderStart.toNat :=
      UInt32.toNat_sub_of_le _ _ (by rw [UInt32.le_iff_toNat_le]; omega)
    rw [UInt32.lt_iff_toNat_lt, UInt32.toNat_add, UInt32.toNat_ofNat', readLength, hsub,
      Ez3CatalogParser.loaderReadSize]
    omega
  refine ⟨{ status := .loaded, firstBytes := readCard card 0 4, loaderStart := loaderStart,
            loaderEnd := loaderStart + UInt32.ofNat (readLength imageLimit loaderStart - 1),
            catalog := some layout }, ?_, rfl, rfl, rfl⟩
  unfold Ez3CatalogReader.read
  simp only [LinearReads.ofCard, bind, Except.bind, UInt32.toNat_zero, hbranch, if_neg hrange, hend,
    decide_true, Bool.not_true, Bool.false_eq_true, if_false, hparse, finish,
    if_neg (Nat.not_lt.mpr hentries)]
  rfl

end Ezfadvance
