import Ezfadvance.CardOutcome
import Ezfadvance.FlashedImage

/-!
# ReadBack

The card reader on a card that holds a built image. What such a card shows behind the end of the image
is left open: it may be what an earlier image left there.

* `Holds`: the card shows the image below its end.
* `LoadedImage.readCatalog`: the reader finds the recorded entries.
* `LoadedImage.extracted_meaningful`: the extent of a ROM gives its bytes back up to its meaningful
  end.
* `onCard_written`: the answer of the card reader to every request on such a card.
* `onCard_extract`: the options that ask for a ROM of the card.
-/

namespace Ezfadvance

open Segments CartridgeFormat Rounding Overlay

/-- The card shows the image below its end. -/
def Holds (card : Nat → UInt8) (image : Bytes) : Prop :=
  ∀ x, x < image.length → card x = cardOf image x

theorem Holds.readCard {card : Nat → UInt8} {image : Bytes} (h : Holds card image) {start len : Nat}
    (hle : start + len ≤ image.length) :
    Ezfadvance.readCard card start len = Ezfadvance.readCard (cardOf image) start len :=
  List.map_congr_left fun i hi => h _ (by have := List.mem_range.mp hi; omega)

theorem Flashed.holds {old new : Nat → UInt8} {image : Bytes} (h : Flashed old image new) :
    Holds new image := fun x hx => (h x).trans (if_pos hx)

/-! ## The catalog -/

section Loaded

variable {templates : LoaderTemplates} {roms placed : List RomInfo} {image : BuiltCartridgeImage}
  {gapStart : Nat} {loaderStart branch : UInt32} {loader : Bytes} {card : Nat → UInt8}

theorem LoadedImage.readCatalog
    (h : LoadedImage templates roms placed image gapStart loaderStart branch loader)
    (hcard : Holds card image.bytes) (hdata : ∀ r ∈ placed, 0xC0 ≤ r.data.length)
    (hname : ∀ r ∈ placed, Nameable r) (hmulti : MultiReadsAsMulti templates) :
    ∃ result, Ez3CatalogReader.read (LinearReads.ofCard card) 0x02000000
        Ez3CatalogParser.structuralSlotCount = .ok result ∧ result.status = .loaded ∧
      result.loaderStart = loaderStart ∧
      result.catalog = some ⟨catalogKind placed, recordedEntries placed⟩ := by
  have hlo := h.behindHeader hdata
  have hend := h.loaderEnd
  have hfits := h.loaderFits
  obtain ⟨hge, _⟩ := h.loaderFor.length_ge
  simp only [maxCardImage] at hend
  have hslots : placed.length ≤ Ez3CatalogParser.structuralSlotCount := h.slots
  have hreadLen := h.readLength_ge
  have hbytes : ∀ i, i < loader.length →
      (readCard card loaderStart.toNat
        (Ez3CatalogReader.readLength 0x02000000 loaderStart)).getD i 0 = loader.getD i 0 := by
    intro i hi
    rw [← h.readCard_loader hreadLen hi, getD_readCard (by omega), getD_readCard (by omega)]
    exact hcard _ (by omega)
  have hparse := h.loaderFor.parse (by simp only [maxCardImage]; omega) hmulti h.placement hslots
    hname hdata (by rw [length_readCard]; exact hreadLen) hbytes
  have hword : armBranchTarget (readLe32 (readCard card 0 4) 0) = some loaderStart := by
    rw [hcard.readCard (by omega), h.readLe32_branch.2]
    exact armBranchTarget_of_make h.makesBranch
  exact Ez3CatalogReader.read_ofCard (UInt32.le_refl _) hword hlo
    (show loaderStart.toNat < 0x02000000 by omega) hparse
    (by rw [length_recordedEntries]; exact hslots)

end Loaded

/-! ## The extents -/

/-- How much the extraction blanks from the start of the loader on. -/
def blankedLength (placed : List RomInfo) : Nat := if placed.length = 1 then 0x660 else 0x7080

/-- The blanked extent covers the loader and no live byte, and the gap before the loader lies in no
ROM. -/
structure Recoverable (placed : List RomInfo) (gapStart loaderStart : Nat) (loader : Bytes) :
    Prop where
  covers : loader.length ≤ blankedLength placed
  vacant : Vacant 0xFF (romBlocks placed) loaderStart (loaderStart + blankedLength placed)
  gap : ∀ r ∈ placed, ∀ j, j < r.data.length →
    ¬ (gapStart ≤ r.start.toNat + j ∧ r.start.toNat + j < loaderStart)

theorem SingleImage.recoverable {templates : LoaderTemplates} {rom : RomInfo} {bytes : Bytes}
    {gapStart : Nat} {loaderStart branch : UInt32} {loader : Bytes}
    (h : SingleImage templates rom bytes gapStart loaderStart branch loader) :
    Recoverable [rom.unplaced] gapStart loaderStart.toNat loader := by
  have hlen : loader.length = 0x660 := h.patched.length
  have hgap := h.place.gapLe
  have hplace := h.place.gap
  refine ⟨Nat.le_of_eq hlen, fun a h1 h2 => ?_, fun r hr j hj => ?_⟩
  · refine h.card.vacant a (Nat.le_trans hgap h1) ?_
    rw [hlen]
    exact h2
  · obtain rfl := List.mem_singleton.mp hr
    have hzero : rom.unplaced.start.toNat = 0 := rfl
    have hdata : rom.unplaced.data = rom.data := rfl
    rw [hdata] at hj
    rw [hzero]
    omega

theorem MultiImage.recoverable {templates : LoaderTemplates} {roms placed : List RomInfo}
    {bytes : Bytes} {loaderStart branch : UInt32} {loader : Bytes}
    (h : MultiImage templates roms placed bytes loaderStart branch loader)
    (htail : TwoRomTailVacant roms) :
    Recoverable placed loaderStart.toNat loaderStart.toNat (loader.take (copyLenOf placed)) := by
  have hblanked : blankedLength placed = 0x7080 := if_neg h.several
  refine ⟨?_, fun a h1 h2 v hv => ?_, fun r _ j _ => by omega⟩
  · rw [h.length_loader, hblanked, copyLenOf, loaderCopyLen]
    split <;> decide
  · rw [hblanked] at h2
    exact h.live_outside htail hv ⟨h1, h2⟩

/-- A successful build whose loader has no live byte right behind it can be taken apart again. -/
theorem build_recoverable {templates : LoaderTemplates} {roms placed : List RomInfo}
    {image : BuiltCartridgeImage} (htail : TwoRomTailVacant roms)
    (hbuild : CartridgeImageBuilder.build templates roms false = .ok (placed, image)) :
    ∃ gapStart loaderStart branch loader,
      LoadedImage templates roms placed image gapStart loaderStart branch loader ∧
        Recoverable placed gapStart loaderStart.toNat loader := by
  by_cases hcount : roms.length = 1
  · obtain ⟨rom, rfl⟩ := List.length_eq_one_iff.mp hcount
    rcases build_single_cases templates rom with
      ⟨e, hrun, _⟩ | ⟨_, bytes, gapStart, loaderStart, branch, loader, hrun, h, hf⟩
    · rw [hrun] at hbuild
      cases hbuild
    rw [hrun] at hbuild
    cases hbuild
    exact ⟨gapStart, loaderStart, branch, loader, h.loaded hf, h.recoverable⟩
  · obtain ⟨bytes, loaderStart, branch, loader, h, hf⟩ := build_multi_ok hcount hbuild
    exact ⟨_, loaderStart, branch, _, h.loaded hf, h.recoverable htail⟩

/-- What a ROM has at a place of its own, no other ROM has. -/
theorem Placed.live_own {placed : List RomInfo} {r : RomInfo} {k j : Nat} {v : UInt8}
    (h : Placed true 0 placed) (hr : placed[k]? = some r) (hj : j < meaningfulRomEnd r.data)
    (hv : LiveRom placed (r.start.toNat + j) v) : r.data[j]? = some v := by
  obtain ⟨hff, p, hp, hle, hget⟩ := liveRom_iff.mp hv
  obtain ⟨q, hq, hpq⟩ := List.getElem_of_mem hp
  obtain ⟨hk, hrk⟩ := List.getElem?_eq_some_iff.mp hr
  have hpair := List.pairwise_iff_getElem.mp h.pairwise
  have hlt := lt_romEnd hle hget hff
  obtain hbefore | rfl | hbehind := Nat.lt_trichotomy q k
  · have := hpair q k hq hk hbefore
    rw [hpq, hrk] at this
    omega
  · obtain rfl : p = r := hpq.symm.trans hrk
    rwa [Nat.add_sub_cancel_left] at hget
  · have := hpair k q hk hq hbehind
    rw [hpq, hrk, romEnd] at this
    omega

section Extent

variable {templates : LoaderTemplates} {roms placed : List RomInfo} {image : BuiltCartridgeImage}
  {gapStart : Nat} {loaderStart branch : UInt32} {loader : Bytes} {card : Nat → UInt8}

/-- Up to its meaningful end a ROM comes back with the bytes it was built with: what is live stands
on the card and not under the loader, and where the ROM has `FF` no other ROM has anything. -/
theorem LoadedImage.extracted_meaningful
    (h : LoadedImage templates roms placed image gapStart loaderStart branch loader)
    (hrec : Recoverable placed gapStart loaderStart.toNat loader) (hcard : Holds card image.bytes)
    (hfirst : ∀ p, placed[0]? = some p → 0 < p.data.length) {k j : Nat} {r : RomInfo} {rom : Bytes}
    (hr : placed[k]? = some r) (hfits : r.start.toNat + r.data.length ≤ image.bytes.length)
    (hrom : Extracted card loaderStart.toNat (blankedLength placed) r k rom)
    (hclass : r.data.length ≤ rom.length) (hj : j < meaningfulRomEnd r.data)
    (hhead : ¬ (k = 0 ∧ j < 4)) : rom[j]? = r.data[j]? := by
  have hmem := List.mem_of_getElem? hr
  have hjlt : j < r.data.length := Nat.lt_of_lt_of_le hj meaningfulRomEnd_le
  have hlive : ∀ v, LiveRom placed (r.start.toNat + j) v → r.data[j]? = some v := fun _ hv =>
    h.placement.live_own hr hj hv
  have h4 : 4 ≤ r.start.toNat + j := by
    by_cases hk : k = 0
    · omega
    · obtain ⟨p, hp⟩ : ∃ p, placed[0]? = some p := by
        have := (List.getElem?_eq_some_iff.mp hr).1
        exact ⟨_, List.getElem?_eq_getElem (by omega)⟩
      have := h.placement.block_le hp (hfirst p hp) hr hk
      simp only [programBlock] at this
      omega
  have hown : rom.getD j 0xFF = r.data.getD j 0xFF := by
    rw [hrom.bytes j (by omega) hhead, hcard _ (by omega)]
    by_cases hff : r.data.getD j 0xFF = 0xFF
    · rw [hff]
      split
      case isTrue => rfl
      case isFalse hout =>
        refine h.card.blank _ h4 ?_ fun v hv => ?_
        · have hgap := hrec.gap r hmem j hjlt
          have hcovers := hrec.covers
          omega
        · have hv' : r.data.getD j 0xFF = v := (getElem?_eq_some_iff_getD hjlt).mp (hlive v hv)
          exact (liveRom_iff.mp hv).1 (hv'.symm.trans hff)
    · have hv := liveRom_of_getElem? hmem ((getElem?_eq_some_iff_getD hjlt).mpr rfl) hff
      rw [if_neg fun hin => hrec.vacant _ hin.1 hin.2 _ hv]
      exact h.card.live _ _ h4 hv
  rw [(getElem?_eq_some_iff_getD hjlt).mpr hown.symm]
  exact (getElem?_eq_some_iff_getD (by omega)).mpr rfl

end Extent

/-! ## The card reader -/

/-- A ROM as it comes back: with the length of its size class, with its own bytes up to its meaningful
end, and as ROM 1 with the branch to its recorded target in the first word. -/
structure Returned (r : RomInfo) (k : Nat) (rom : Bytes) : Prop where
  sizeClass : SizeClass r.data.length rom.length
  bytes : ∀ j, j < meaningfulRomEnd r.data → ¬ (k = 0 ∧ j < 4) → rom[j]? = r.data[j]?
  entry : k = 0 → ∃ w, makeArmBranch r.originalEntryTarget = .ok w ∧ rom.take 4 = le32 w

theorem Returned.validGbaRomHeader {r : RomInfo} {k : Nat} {rom : Bytes} (h : Returned r k rom)
    (hdata : 0xC0 ≤ r.data.length) :
    CartridgeFormat.validGbaRomHeader rom = CartridgeFormat.validGbaRomHeader r.data := by
  have hend := @meaningfulRomEnd_ge r.data
  have hclass := h.sizeClass.le
  exact validGbaRomHeader_congr (by omega) hdata fun j h1 h2 =>
    h.bytes j (by omega) fun hk => by omega

section Reader

variable {templates : LoaderTemplates} {roms placed : List RomInfo} {image : BuiltCartridgeImage}
  {gapStart : Nat} {loaderStart branch : UInt32} {loader : Bytes} {card : Nat → UInt8}

theorem extractOnCard_recorded {kind : Ez3CatalogKind} {k : Nat} {r : RomInfo}
    (hr : placed[k]? = some r) :
    Ez3CardWorkflow.extractOnCard card ⟨kind, recordedEntries placed⟩ loaderStart (k + 1) =
      Ez3CardWorkflow.romOutcome
        (extractEz3Rom card (recordedEntry r (k == 0)) k loaderStart (kind == .single)) := by
  have hk := (List.getElem?_eq_some_iff.mp hr).1
  have hlen : ¬ (k + 1 = 0 ∨ k + 1 > (recordedEntries placed).length) := by
    rw [length_recordedEntries]
    omega
  have hentry := (List.getElem?_eq_some_iff.mp (recordedEntries_getElem? hr)).2
  rw [Ez3CardWorkflow.extractOnCard, dif_neg hlen]
  simp only [Nat.add_sub_cancel, hentry]

/-- The answer to the request for a ROM: its file, unless ROM 1 cannot be restored or the ROM has no
valid header. -/
theorem LoadedImage.extractOnCard
    (h : LoadedImage templates roms placed image gapStart loaderStart branch loader)
    (hrec : Recoverable placed gapStart loaderStart.toNat loader) (hcard : Holds card image.bytes)
    (hdata : ∀ r ∈ placed, 0xC0 ≤ r.data.length) {k : Nat} {r : RomInfo} (hr : placed[k]? = some r)
    (hfits : r.start.toNat + r.data.length ≤ image.bytes.length)
    (htype : entryType r.data.length = .ok r.entryType) :
    (k = 0 ∧ (∃ e, makeArmBranch r.originalEntryTarget = .error e) ∧
      Ez3CardWorkflow.extractOnCard card ⟨catalogKind placed, recordedEntries placed⟩ loaderStart
        (k + 1) = { status := 3 }) ∨
    ∃ rom, Returned r k rom ∧
      Ez3CardWorkflow.extractOnCard card ⟨catalogKind placed, recordedEntries placed⟩ loaderStart
        (k + 1) = if CartridgeFormat.validGbaRomHeader r.data then { status := 0, file := some rom }
          else { status := 3 } := by
  have hmem := List.mem_of_getElem? hr
  obtain ⟨_, h9, hclass⟩ := entryType_spec htype
  have hlen := hdata r hmem
  have hplaced := h.placement.fits hmem
  simp only [maxCardImage] at hplaced
  rw [extractOnCard_recorded hr]
  rcases @extractEz3Rom_cases card r k loaderStart (catalogKind placed == .single) h9
    (h.placement.class_dvd hmem hclass) (by omega) with ⟨hk, herr, hrun⟩ | ⟨rom, hrun, hrom⟩
  · rw [hrun]
    exact .inl ⟨hk, herr, rfl⟩
  · have hblanked : (if (catalogKind placed == .single) = true then 0x660 else 0x7080) =
        blankedLength placed := by
      rw [catalogKind, blankedLength]
      split <;> rfl
    rw [hblanked] at hrom
    have hlength := hrom.length
    rw [← hlength] at hclass
    have hreturned : Returned r k rom := {
      sizeClass := hclass
      bytes := fun j hj hhead => h.extracted_meaningful hrec hcard
        (fun p hp => by have := hdata p (List.mem_of_getElem? hp); omega) hr hfits hrom hclass.le hj
        hhead
      entry := hrom.first_word htype }
    refine .inr ⟨rom, hreturned, ?_⟩
    rw [hrun, Ez3CardWorkflow.romOutcome, hreturned.validGbaRomHeader hlen]

end Reader

/-- The entry branch of the ROM in slot `k` can be put back; only that of ROM 1 was replaced. -/
def Restorable (r : RomInfo) (k : Nat) : Prop :=
  k = 0 → ∃ w, makeArmBranch r.originalEntryTarget = .ok w

/-- ROMs that can be found on a card again: with a header and a name that the catalog shows, with the
type of their size, and with nothing live where the extraction blanks more than the loader. -/
structure Retrievable (templates : LoaderTemplates) (roms : List RomInfo) : Prop where
  header : ∀ r ∈ roms, 0xC0 ≤ r.data.length
  name : ∀ r ∈ roms, Nameable r
  type : ∀ r ∈ roms, entryType r.data.length = .ok r.entryType
  multi : MultiReadsAsMulti templates
  tail : TwoRomTailVacant roms

section Written

variable {templates : LoaderTemplates} {roms placed : List RomInfo} {image : BuiltCartridgeImage}
  {card : Nat → UInt8}

/-- The catalog and the answer for each of its numbers. -/
theorem Retrievable.onCard (h : Retrievable templates roms)
    (hbuild : CartridgeImageBuilder.build templates roms false = .ok (placed, image))
    (hcard : Holds card image.bytes) :
    ∃ loaderStart, (recordedEntries placed).length = roms.length ∧
      (∀ romNumber, Ez3CardWorkflow.onCard card romNumber = romNumber.elim { status := 0 }
        (Ez3CardWorkflow.extractOnCard card ⟨catalogKind placed, recordedEntries placed⟩
          loaderStart)) ∧
      ∀ (k : Nat) (r : RomInfo), placed[k]? = some r →
        (k = 0 ∧ (∃ e, makeArmBranch r.originalEntryTarget = .error e) ∧
          Ez3CardWorkflow.extractOnCard card ⟨catalogKind placed, recordedEntries placed⟩ loaderStart
            (k + 1) = { status := 3 }) ∨
        ∃ rom, Returned r k rom ∧
          Ez3CardWorkflow.extractOnCard card ⟨catalogKind placed, recordedEntries placed⟩ loaderStart
            (k + 1) = if validGbaRomHeader r.data then { status := 0, file := some rom }
              else { status := 3 } := by
  obtain ⟨gapStart, loaderStart, branch, loader, himage, hrec⟩ := build_recoverable h.tail hbuild
  obtain ⟨_, hlength, _, hcovers⟩ := build_covers hbuild
  have hdata : ∀ r ∈ placed, 0xC0 ≤ r.data.length := himage.forall_placed (fun _ => Iff.rfl) h.header
  have hname : ∀ r ∈ placed, Nameable r := himage.forall_placed (fun _ => Iff.rfl) h.name
  have htypes : ∀ r ∈ placed, entryType r.data.length = .ok r.entryType :=
    himage.forall_placed (fun _ => Iff.rfl) h.type
  obtain ⟨result, hread, hloaded, hstart, hcatalog⟩ := himage.readCatalog hcard hdata hname h.multi
  refine ⟨loaderStart, ?_, fun romNumber => ?_, fun k r hr => ?_⟩
  · exact length_recordedEntries.trans himage.length_eq
  · rw [Ez3CardWorkflow.onCard, Ez3CardWorkflow.cardImageLimit, hread]
    simp only [hloaded, hcatalog, hstart]
  · have hmem := List.mem_of_getElem? hr
    exact himage.extractOnCard hrec hcard hdata hr (hlength ▸ hcovers r hmem) (htypes r hmem)

/-- A ROM with a valid header that can be restored comes back. -/
theorem Retrievable.returned (h : Retrievable templates roms)
    (hbuild : CartridgeImageBuilder.build templates roms false = .ok (placed, image))
    (hcard : Holds card image.bytes) {k : Nat} {r : RomInfo} (hr : placed[k]? = some r)
    (hvalid : validGbaRomHeader r.data = true) (hrestorable : Restorable r k) :
    ∃ rom, Returned r k rom ∧
      Ez3CardWorkflow.onCard card (some (k + 1)) = { status := 0, file := some rom } := by
  obtain ⟨loaderStart, _, honCard, hroms⟩ := h.onCard hbuild hcard
  rw [honCard, Option.elim_some]
  obtain ⟨hk, ⟨e, he⟩, _⟩ | ⟨rom, hreturned, hrun⟩ := hroms k r hr
  · obtain ⟨w, hw⟩ := hrestorable hk
    cases he.symm.trans hw
  · exact ⟨rom, hreturned, hrun.trans (if_pos hvalid)⟩

/-- On a card that holds a built image the card reader inspects the catalog, refuses the numbers that
are not in it and returns the ROM of every other number, if its header is valid and its first word can
be restored. -/
theorem onCard_written (h : Retrievable templates roms)
    (hbuild : CartridgeImageBuilder.build templates roms false = .ok (placed, image))
    (hcard : Holds card image.bytes) :
    Ez3CardWorkflow.onCard card none = { status := 0 } ∧
    (∀ n, n = 0 ∨ roms.length < n → Ez3CardWorkflow.onCard card (some n) = { status := 1 }) ∧
    ∀ (k : Nat) (r : RomInfo), placed[k]? = some r →
      (validGbaRomHeader r.data = true ∧ Restorable r k →
        ∃ rom, Returned r k rom ∧
          Ez3CardWorkflow.onCard card (some (k + 1)) = { status := 0, file := some rom }) ∧
      (¬ (validGbaRomHeader r.data = true ∧ Restorable r k) →
        Ez3CardWorkflow.onCard card (some (k + 1)) = { status := 3 }) := by
  obtain ⟨loaderStart, hlength, honCard, hroms⟩ := h.onCard hbuild hcard
  refine ⟨honCard none, fun n hn => ?_, fun k r hr => ⟨fun ⟨hvalid, hrestorable⟩ =>
    h.returned hbuild hcard hr hvalid hrestorable, fun hno => ?_⟩⟩
  · rw [honCard, Option.elim_some, Ez3CardWorkflow.extractOnCard, dif_pos]
    rw [hlength]
    exact hn
  · rw [honCard, Option.elim_some]
    obtain ⟨_, _, hrun⟩ | ⟨rom, hreturned, hrun⟩ := hroms k r hr
    · exact hrun
    · exact hrun.trans (if_neg fun hvalid =>
        hno ⟨hvalid, fun hk => (hreturned.entry hk).imp fun _ hw => hw.1⟩)

end Written

/-- The options ask for the ROM in slot `k`. -/
def CardReaderOptions.Requests (options : CardReaderOptions) (k : Nat) : Prop :=
  options.extract = true ∧ options.romNumber.getD 1 = k + 1

theorem onCard_extract {card : Nat → UInt8} {options : CardReaderOptions} {k : Nat}
    (h : options.Requests k) :
    CardReader.onCard .ez3Flash card options = Ez3CardWorkflow.onCard card (some (k + 1)) := by
  have haction : decideCardReaderAction .ez3Flash options = .extractEz3 (k + 1) := by
    rw [decideCardReaderAction, h.1, h.2]
    rfl
  rw [CardReader.onCard, haction]

/-- The first ROM, into a file. -/
def dumpOptions : CardReaderOptions where
  extract := true
  outputPath := ascii "game.gba"

/-- A ROM of one header that passes the header check. -/
def validRom : RomInfo where
  name := ascii "GAME"
  data := le32 0xEA00002E ++ List.replicate 0xAE 0x00 ++ [0x96] ++ List.replicate 10 0x00 ++
    [0x51, 0x00, 0x00]
  originalEntryTarget := 0xC0

theorem length_validRom : validRom.data.length = 0xC0 := by decide +kernel

theorem validRom_valid : validGbaRomHeader validRom.data = true := by decide +kernel

theorem validRom_restorable : Restorable validRom 0 := fun _ => ⟨0xEA00002E, by decide +kernel⟩

theorem validRom_build : ∃ image,
    CartridgeImageBuilder.build plainTemplates [validRom] false = .ok ([validRom], image) :=
  build_single_isOk length_plainTemplates.1 plainTemplates_single (by rw [length_validRom])
    (by rw [length_validRom]; decide)

theorem validRom_retrievable : Retrievable plainTemplates [validRom] where
  header := List.forall_mem_singleton.mpr (by rw [length_validRom])
  name := List.forall_mem_singleton.mpr ⟨(headerRom_nameable 0).1, (headerRom_nameable 0).2⟩
  type := List.forall_mem_singleton.mpr (by rw [length_validRom]; rfl)
  multi := plainTemplates_readsAsMulti
  tail := fun htwo => by cases htwo

/-- The ROM comes back from the image alone. -/
theorem onCard_written_validRom : ∃ image rom,
    CartridgeImageBuilder.build plainTemplates [validRom] false = .ok ([validRom], image) ∧
    Returned validRom 0 rom ∧
    Ez3CardWorkflow.onCard (cardOf image.bytes) (some 1) = { status := 0, file := some rom } := by
  obtain ⟨image, hbuild⟩ := validRom_build
  obtain ⟨_, _, hroms⟩ := onCard_written validRom_retrievable hbuild fun _ _ => rfl
  obtain ⟨rom, hreturned, hrun⟩ := (hroms 0 validRom rfl).1 ⟨validRom_valid, validRom_restorable⟩
  exact ⟨image, rom, hbuild, hreturned, hrun⟩

end Ezfadvance
