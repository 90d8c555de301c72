import Ezfadvance.Lib.FirstFit
import Ezfadvance.Format
import Ezfadvance.RomSize

/-!
# ImageBuilder

`CartridgeImageBuilder::build` (`cartridge_image_builder.cpp`). The two embedded loader templates
are parameters (`LoaderTemplates`, already decoded); the builder checks their lengths and their
relocation counts itself. The printed report is left out.

* Slots: `findFfSlotInImage`, `findInternalFfLoaderSlot`.
* Templates: `relocateTemplate`, `writeCatalogEntry`, `patchMultiTemplate`.
* Images: `buildSingleImage`, `buildDirectBootImage`, `buildMultiImage`, `build`.
-/

namespace Ezfadvance

open Segments CartridgeFormat

structure RomInfo where
  name : Bytes
  data : Bytes
  start : UInt32 := 0
  originalEntryTarget : UInt32 := 0
  entryType : UInt8 := 9
  mappingFlag : UInt8 := 3
  deriving DecidableEq

structure LoaderTemplates where
  single : Bytes
  multi : Bytes

structure BuiltCartridgeImage where
  bytes : Bytes
  programmedSize : Nat

/-- Everything `build` can fail with. The last two come back through `error` with `false`, the
others are thrown. -/
inductive BuildError where
  | vectorRange
  | armBranch (error : ArmBranchError)
  | romSize (error : RomSizeError)
  | catalogEntryOutsideTemplate
  | singleTemplateLength
  | noInternalGap
  | singleRelocationCount
  | singleImageTooLarge
  | directBootNeedsOneRom
  | multiNeedsTwoRoms
  | tooManyRoms (count : Nat)
  | placementExceedsCard (name : Bytes)
  | packedImageTooLarge
  | packingOverlap (cardByte : Nat)
  | multiTemplateLength
  | noLoaderSlot
  | multiRelocationCount (count : Nat)
  | loaderOverlap (cardByte : Nat)
  | imageTooLarge (size : Nat)
  | programmedExtentTooLarge (programmed : Nat)
  deriving DecidableEq

def hexText (n : Nat) : Bytes := (Nat.toDigits 16 n).map fun c => UInt8.ofNat c.toNat

def decText (n : Nat) : Bytes := (Nat.toDigits 10 n).map fun c => UInt8.ofNat c.toNat

def BuildError.message : BuildError → Bytes
  | .vectorRange => ascii "vector"
  | .armBranch error => ascii error.message
  | .romSize error => ascii error.message
  | .catalogEntryOutsideTemplate => ascii "catalog entry is outside template"
  | .singleTemplateLength => ascii "single template decode length mismatch"
  | .noInternalGap =>
    ascii ("single ROM fills the 32-MiB card and no internal FF " ++
      "gap is large enough for the single-ROM loader")
  | .singleRelocationCount => ascii "unexpected single-template relocation count"
  | .singleImageTooLarge => ascii "single-ROM image exceeds 256-Mbit cartridge capacity"
  | .directBootNeedsOneRom => ascii "direct-boot image builder requires exactly one ROM"
  | .multiNeedsTwoRoms => ascii "multi-loader image builder requires at least two ROMs"
  | .tooManyRoms count =>
    ascii "multi-ROM catalog has 120 structural slots, but " ++ decText count ++
      ascii " ROMs were supplied"
  | .placementExceedsCard name =>
    ascii "multi-ROM placement exceeds 256-Mbit cartridge while placing " ++ name
  | .packedImageTooLarge => ascii "packed ROM image exceeds 256-Mbit cartridge capacity"
  | .packingOverlap cardByte =>
    ascii "multi-ROM packing would overlap meaningful ROM data at card byte 0x" ++
      hexText cardByte
  | .multiTemplateLength => ascii "multi template decode length mismatch"
  | .noLoaderSlot =>
    ascii ("no capture-compatible FF slot for multi-ROM loader and no card space to " ++
      "append it")
  | .multiRelocationCount count =>
    ascii "unexpected multi-template relocation count: " ++ decText count ++
      ascii " (expected 125)"
  | .loaderOverlap cardByte =>
    ascii "loader placement overlaps meaningful ROM data at card byte 0x" ++ hexText cardByte
  | .imageTooLarge size =>
    ascii "Constructed image is 0x" ++ hexText size ++
      ascii " bytes, exceeding the 256-Mbit cartridge capacity 0x2000000."
  | .programmedExtentTooLarge programmed =>
    ascii "0x100-aligned programmed extent 0x" ++ hexText programmed ++
      ascii " exceeds the 256-Mbit cartridge capacity 0x2000000."

def gbaRomBase : UInt32 := 0x08000000

def singleTemplateBase : UInt32 := 0x0000D3B0
def singleTemplateLen : Nat := 0x660
def singleHeaderOff : Nat := 0x4E8
def singleHeaderCount2Off : Nat := 0x4F6
def singleEntryOff : Nat := 0x4F8

def multiTemplateBase : UInt32 := 0x0004A880
def multiTemplateLen : Nat := 0x7080
def multiHeaderOff : Nat := 0x475E
def multiEntryOff : Nat := 0x476E
def multiCatalogMaxEntries : Nat := 120
def multiTemplatePopulatedEntrySlots : Nat := 3
def multiTwoRomLen : Nat := 0x6F80
def multiTwoRomErasedTailOff : Nat := 0x6F26
def multiFourPlusRomZeroTailOff : Nat := 0x7066
def multiCaptureGapOff : Nat := 0x5764
def multiCaptureGapBytes : Bytes :=
  [0x00, 0x00, 0x00, 0x06, 0x00, 0x00, 0x00, 0x06, 0x00, 0x00, 0x00, 0x06, 0x00, 0x00, 0x00, 0x05,
   0x00, 0x02, 0x00, 0x05, 0x00, 0x00, 0x00, 0x07, 0x00, 0x00, 0x01, 0x06]

def writeLe16 (v : Bytes) (off : Nat) (x : UInt16) : Except BuildError Bytes :=
  if off + 2 ≤ v.length then .ok (blit v off (le16 x)) else .error .vectorRange

def writeLe32 (v : Bytes) (off : Nat) (x : UInt32) : Except BuildError Bytes :=
  if off + 4 ≤ v.length then .ok (blit v off (le32 x)) else .error .vectorRange

def branchTo (target : UInt32) : Except BuildError UInt32 :=
  (makeArmBranch target).mapError .armBranch

/-! ## Slots -/

/-- `(x + bias) & ~15` on a `size_t`. -/
def alignSlot (bias x : Nat) : Nat := ((UInt64.ofNat x + UInt64.ofNat bias) &&& ~~~15).toNat

def findFfSlotInImage (image : Bytes) (requiredSize : Nat) : Option UInt32 :=
  (FirstFit.firstFit (fun i => image.getD i 0 == 0xFF) (alignSlot 15)
    (min image.length maxCardImage) requiredSize 0xC0).map UInt32.ofNat

def findInternalFfLoaderSlot (rom : Bytes) (requiredSize : Nat) : Option UInt32 :=
  (FirstFit.firstFit (fun i => rom.getD i 0 == 0xFF) (alignSlot 16)
    (min rom.length maxCardImage) (max requiredSize multiTemplateLen) 0xC0).map UInt32.ofNat

/-! ## Templates -/

/-- The loop of `relocate_template`, word by word; trailing bytes are no word. -/
def relocateWords (lo hi : UInt32) (delta : Int) : Bytes → Bytes × Nat
  | b0 :: b1 :: b2 :: b3 :: rest =>
    let v := readLe32 [b0, b1, b2, b3] 0
    let (tail, count) := relocateWords lo hi delta rest
    if v ≥ lo ∧ v ≤ hi then (le32 (UInt32.ofInt ((v.toNat : Int) + delta)) ++ tail, count + 1)
    else (b0 :: b1 :: b2 :: b3 :: tail, count)
  | tail => (tail, 0)

def relocateTemplate (t : Bytes) (originalBase newBase : UInt32) : Bytes × Nat :=
  let lo := gbaRomBase + originalBase
  let hi := lo + UInt32.ofNat t.length
  relocateWords lo hi ((newBase.toNat : Int) - (originalBase.toNat : Int)) t

def writeCatalogEntry (t : Bytes) (off : Nat) (r : RomInfo) (first : Bool) :
    Except BuildError Bytes :=
  if off + 28 > t.length then .error .catalogEntryOutsideTemplate
  else do
    let t := fill t off (off + 28) 0x00
    let t := blit t off (r.name.take 16)
    let t ← writeLe32 t (off + 16) (r.entryType.toUInt32 <<< 24)
    let packedStart := ((r.start / 2) <<< 8) ||| r.mappingFlag.toUInt32
    let t ← writeLe32 t (off + 20) packedStart
    writeLe32 t (off + 24) (if first then r.originalEntryTarget else r.start)

/-! ## One ROM -/

inductive SinglePlacement where
  | trailingPadding
  | internalGap
  | secondHalf
  | appended
  deriving DecidableEq

/-- Where the single loader goes. -/
def placeSingleLoader (data : Bytes) (templateSize : Nat) :
    Except BuildError (UInt32 × SinglePlacement) :=
  let loaderStart := alignUpU32 (UInt32.ofNat (meaningfulRomEnd data)) 16
  let singleSlotReserve := max templateSize multiTemplateLen
  if loaderStart.toNat + singleSlotReserve ≤ data.length ∧
      (slice data loaderStart.toNat singleSlotReserve).all (· == 0xFF) then
    .ok (loaderStart, .trailingPadding)
  else if data.length = cardHalfSize then
    match findInternalFfLoaderSlot data templateSize with
    | some internal => .ok (internal, .internalGap)
    | none => .ok (UInt32.ofNat (cardHalfSize + 0x10), .secondHalf)
  else
    let loaderStart := alignUpU32 (UInt32.ofNat data.length) 16
    if loaderStart.toNat + templateSize > maxCardImage then
      match findInternalFfLoaderSlot data templateSize with
      | some internal => .ok (internal, .internalGap)
      | none => .error .noInternalGap
    else .ok (loaderStart, .appended)

def patchSingleTemplate (t : Bytes) (r : RomInfo) (loaderStart : UInt32) :
    Except BuildError Bytes := do
  let (t, relocCount) := relocateTemplate t singleTemplateBase loaderStart
  if relocCount ≠ 13 then throw .singleRelocationCount
  let t ← writeLe16 t singleHeaderOff 1
  let t ← writeLe16 t singleHeaderCount2Off 1
  writeCatalogEntry t singleEntryOff r true

def singleImageSize (data : Bytes) (loaderStart : UInt32) (templateSize : Nat)
    (placement : SinglePlacement) : Nat :=
  let imageSize := max data.length (loaderStart.toNat + templateSize)
  if placement = .secondHalf then ((UInt64.ofNat imageSize + 0xFF) &&& ~~~0xFF).toNat
  else imageSize

def assembleSingle (data t : Bytes) (loaderStart : UInt32) (placement : SinglePlacement) :
    Except BuildError Bytes :=
  let imageSize := singleImageSize data loaderStart t.length placement
  if imageSize > maxCardImage then .error .singleImageTooLarge
  else do
    let image := blit (List.replicate imageSize 0xFF) 0 data
    let image := if placement = .secondHalf then
      fill image cardHalfSize loaderStart.toNat 0x00 else image
    let patched ← branchTo loaderStart
    let image ← writeLe32 image 0 patched
    return blit image loaderStart.toNat t

def buildSingleImage (templates : LoaderTemplates) (rom : RomInfo) :
    Except BuildError (List RomInfo × Bytes) :=
  if templates.single.length ≠ singleTemplateLen then .error .singleTemplateLength
  else do
    let r := { rom with start := 0 }
    let (loaderStart, placement) ← placeSingleLoader r.data templates.single.length
    let t ← patchSingleTemplate templates.single r loaderStart
    let image ← assembleSingle r.data t loaderStart placement
    return ([r], image)

def buildDirectBootImage (rom : RomInfo) : List RomInfo × Bytes :=
  ([{ rom with start := 0 }], rom.data)

/-! ## Several ROMs -/

/-- Stable, by descending file size. -/
def sortRoms (roms : List RomInfo) : List RomInfo :=
  roms.mergeSort fun a b => decide (b.data.length ≤ a.data.length)

/-- The placement loop: each ROM starts at the next multiple of its size class behind the
meaningful bytes of those before it. -/
def placeFrom : List RomInfo → Bool → UInt64 → Except BuildError (List RomInfo)
  | [], _, _ => .ok []
  | r :: roms, first, meaningfulCursor => do
    let meaningful := meaningfulRomEnd r.data
    let alignment ← (multiRomSizeClassAlignment r.data.length).mapError .romSize
    let start := if first then 0 else alignUpU64 meaningfulCursor alignment.toUInt64
    if start > 0xFFFFFFFF ∨ start.toNat + r.data.length > maxCardImage then
      throw (.placementExceedsCard r.name)
    let placed ← placeFrom roms false (max meaningfulCursor (start + UInt64.ofNat meaningful))
    return { r with start := start.toUInt32 } :: placed

def placeRoms (roms : List RomInfo) : Except BuildError (List RomInfo) := placeFrom roms true 0

def baseImageSize (roms : List RomInfo) : Nat :=
  roms.foldl (fun size r => max size (r.start.toNat + r.data.length)) 0

/-- The image and, for each byte, whether a ROM has put a non-FF byte there. -/
structure Packed where
  image : Bytes
  occupiedNonFf : List Bool

/-- The inner copy loop; `dst` is the card byte of the next data byte. -/
def copyBytes : Bytes → Nat → Packed → Except BuildError Packed
  | [], _, packed => .ok packed
  | b :: data, dst, packed =>
    if packed.occupiedNonFf.getD dst false = true ∧ b ≠ 0xFF then .error (.packingOverlap dst)
    else
      copyBytes data (dst + 1)
        ⟨packed.image.set dst b,
          if b ≠ 0xFF then packed.occupiedNonFf.set dst true else packed.occupiedNonFf⟩

def copyRoms : List RomInfo → Packed → Except BuildError Packed
  | [], packed => .ok packed
  | r :: roms, packed => do
    let packed ← copyBytes r.data r.start.toNat packed
    copyRoms roms packed

def packRoms (placed : List RomInfo) : Except BuildError Packed :=
  let size := baseImageSize placed
  if size > maxCardImage then .error .packedImageTooLarge
  else copyRoms placed ⟨List.replicate size 0xFF, List.replicate size false⟩

def loaderCopyLen (romCount templateSize : Nat) : Nat :=
  if romCount = 2 then multiTwoRomLen else templateSize

def placeMultiLoader (packed : Packed) (copyLen : Nat) : Except BuildError (UInt32 × Packed) :=
  match findFfSlotInImage packed.image copyLen with
  | some slot => .ok (slot, packed)
  | none =>
    let appended := (alignUpU64 (UInt64.ofNat packed.image.length) 16).toNat
    if appended + copyLen > maxCardImage then .error .noLoaderSlot
    else
      let loaderStart := UInt32.ofNat appended
      let image := resize packed.image (loaderStart.toNat + copyLen) 0xFF
      .ok (loaderStart, ⟨image, resize packed.occupiedNonFf image.length false⟩)

/-- The loop that writes the catalog entries from `index` on. -/
def writeEntries (t : Bytes) : List RomInfo → Nat → Except BuildError Bytes
  | [], _ => .ok t
  | r :: roms, index => do
    let t ← writeCatalogEntry t (multiEntryOff + index * 28) r (index == 0)
    writeEntries t roms (index + 1)

/-- What depends on the number of ROMs: the unused third slot and erased tail of the two-ROM form,
and the zero tail from four ROMs on. -/
def patchTails (t : Bytes) (romCount : Nat) : Bytes :=
  let t := if romCount = 2 then
      let unused := multiEntryOff + 2 * 28
      let t := fill t unused (unused + 28) 0x00
      let t := fill t (unused + 1) (unused + 16) 0x20
      fill t multiTwoRomErasedTailOff multiTwoRomLen 0xFF
    else t
  if romCount ≥ 4 then fill t multiFourPlusRomZeroTailOff multiTemplateLen 0x00 else t

def patchMultiTemplate (t : Bytes) (placed : List RomInfo) (loaderStart : UInt32) :
    Except BuildError Bytes := do
  let (t, relocCount) := relocateTemplate t multiTemplateBase loaderStart
  if relocCount ≠ 125 then throw (.multiRelocationCount relocCount)
  let t ← writeLe16 t multiHeaderOff (UInt16.ofNat placed.length)
  let t ← writeLe16 t (multiHeaderOff + 14) (UInt16.ofNat placed.length)
  let t := fill t multiEntryOff (multiEntryOff + multiTemplatePopulatedEntrySlots * 28) 0x00
  let t ← writeEntries t placed 0
  return patchTails t placed.length

def assembleMulti (packed : Packed) (t : Bytes) (loaderStart : UInt32) (copyLen : Nat) :
    Except BuildError Bytes := do
  let image := if loaderStart.toNat + copyLen > packed.image.length then
    resize packed.image (loaderStart.toNat + copyLen) 0xFF else packed.image
  match (List.range copyLen).find? fun i =>
      packed.occupiedNonFf.getD (loaderStart.toNat + i) false with
  | some i => throw (.loaderOverlap (loaderStart.toNat + i))
  | none =>
    let patched ← branchTo loaderStart
    let image ← writeLe32 image 0 patched
    return blit image loaderStart.toNat (t.take copyLen)

def buildMultiImage (templates : LoaderTemplates) (roms : List RomInfo) :
    Except BuildError (List RomInfo × Bytes) :=
  if roms.length < 2 then .error .multiNeedsTwoRoms
  else if roms.length > multiCatalogMaxEntries then .error (.tooManyRoms roms.length)
  else do
    let placed ← placeRoms (sortRoms roms)
    let packed ← packRoms placed
    if templates.multi.length ≠ multiTemplateLen then throw .multiTemplateLength
    let t := blit templates.multi multiCaptureGapOff multiCaptureGapBytes
    let copyLen := loaderCopyLen placed.length t.length
    let (loaderStart, packed) ← placeMultiLoader packed copyLen
    let t ← patchMultiTemplate t placed loaderStart
    let image ← assembleMulti packed t loaderStart copyLen
    return (placed, image)

/-! ## build -/

/-- The programmed extent: at least one block, a multiple of `0x100`. -/
def finishImage (bytes : Bytes) : Except BuildError BuiltCartridgeImage :=
  if bytes.length > maxCardImage then .error (.imageTooLarge bytes.length)
  else
    let minimumProgrammed := max programBlock bytes.length
    let programmed := (alignUpU64 (UInt64.ofNat minimumProgrammed) 0x100).toNat
    if programmed > maxCardImage then .error (.programmedExtentTooLarge programmed)
    else .ok ⟨resize bytes programmed 0xFF, programmed⟩

def CartridgeImageBuilder.build (templates : LoaderTemplates) (roms : List RomInfo)
    (directBootSingleRom : Bool) : Except BuildError (List RomInfo × BuiltCartridgeImage) := do
  let (placed, bytes) ← match roms with
    | [rom] =>
      if directBootSingleRom then pure (buildDirectBootImage rom)
      else buildSingleImage templates rom
    | roms => buildMultiImage templates roms
  let image ← finishImage bytes
  return (placed, image)

end Ezfadvance
