import Ezfadvance.Extraction
import Ezfadvance.FlashWriter

/-!
# FlashedImage

A built image on the card it was written to: which part of a catalog entry's extent the writer has
erased.

* `RecordedAt`: the entry in a slot of the loader of a built image, as the extraction reads it.
* `build_covers`: the programmed size reaches behind the last byte of every ROM.
* `extent_erased_iff`: a byte of an extent lies in an erased sector exactly when it is below
  `eraseEnd`, and what the card shows there after writing.
-/

namespace Ezfadvance

open Interact Interact.Program CartridgeFormat FlashCard Rounding

/-- Slot `index` of the loader of a built image holds `entry`. -/
def RecordedAt (image : BuiltCartridgeImage) (isSingle : Bool) (index : Nat) (entry : CatalogEntry) :
    Prop :=
  ∃ loaderStart, armBranchTarget (readLe32 (readCard (cardOf image.bytes) 0 4) 0) = some loaderStart ∧
    entryOnCard (cardOf image.bytes) loaderStart isSingle index = .ok entry

section Recorded

variable {templates : LoaderTemplates} {roms placed : List RomInfo} {image : BuiltCartridgeImage}
  {gapStart : Nat} {loaderStart branch : UInt32} {loader : Bytes} {k : Nat} {r : RomInfo}

theorem LoadedImage.recordedAt_of_parse
    (h : LoadedImage templates roms placed image gapStart loaderStart branch loader)
    {entry : CatalogEntry} (hparse : CatalogEntry.parse
      (readCard (cardOf image.bytes) loaderStart.toNat
        (Ez3CatalogReader.readLength 0x02000000 loaderStart))
      (slotOffset placed + k * 28) (k == 0) = .ok entry) :
    RecordedAt image (decide (roms.length = 1)) k entry := by
  have hoff : (if decide (placed.length = 1) = true then Ez3CatalogParser.singleEntryOffset
      else Ez3CatalogParser.multiEntryOffset) = slotOffset placed := by
    simp only [decide_eq_true_eq, slotOffset]
  refine ⟨loaderStart, ?_, ?_⟩
  · rw [h.readLe32_branch.2, armBranchTarget_of_make h.makesBranch]
  · rw [← length_placed h.same, entryOnCard, hoff]
    exact hparse

theorem LoadedImage.recordedAt
    (h : LoadedImage templates roms placed image gapStart loaderStart branch loader)
    (hr : placed[k]? = some r) (hstart : r.start.toNat < 2 ^ 25) :
    RecordedAt image (decide (roms.length = 1)) k (recordedEntry r (k == 0)) :=
  h.recordedAt_of_parse (h.parse_slot hr hstart h.readLength_ge)

/-- Every slot holds an entry, with what 24 bits hold of the start. -/
theorem LoadedImage.exists_recordedAt
    (h : LoadedImage templates roms placed image gapStart loaderStart branch loader)
    (hr : placed[k]? = some r) :
    ∃ entry, RecordedAt image (decide (roms.length = 1)) k entry ∧ entry.type = r.entryType ∧
      entry.start.toNat = r.start.toNat % 2 ^ 25 := by
  obtain ⟨hfit, hslot⟩ := h.slot_readCard hr h.readLength_ge
  refine ⟨_, h.recordedAt_of_parse (parse_recorded hfit hslot), rfl, ?_⟩
  dsimp only
  split
  case isTrue hfirst =>
    obtain rfl : k = 0 := by simpa using hfirst
    rw [h.placement.head_start hr]
    rfl
  case isFalse =>
    have heven := h.start_even (List.mem_of_getElem? hr)
    rw [toNat_packedStart_unpack]
    omega

end Recorded

/-- A successful build is a loaded image whose programmed size reaches behind every ROM. -/
theorem build_covers {templates : LoaderTemplates} {roms placed : List RomInfo}
    {image : BuiltCartridgeImage}
    (hbuild : CartridgeImageBuilder.build templates roms false = .ok (placed, image)) :
    (∃ gapStart loaderStart branch loader,
      LoadedImage templates roms placed image gapStart loaderStart branch loader) ∧
    image.bytes.length = image.programmedSize ∧ ProgrammedSize image.programmedSize ∧
    ∀ r ∈ placed, r.start.toNat + r.data.length ≤ image.programmedSize := by
  by_cases hcount : roms.length = 1
  · obtain ⟨rom, rfl⟩ := List.length_eq_one_iff.mp hcount
    rcases build_single_cases templates rom with
      ⟨e, hrun, _⟩ | ⟨_, bytes, gapStart, loaderStart, branch, loader, hrun, h, hf⟩
    · rw [hrun] at hbuild
      cases hbuild
    rw [hrun] at hbuild
    cases hbuild
    refine ⟨⟨_, _, _, _, h.loaded hf⟩, hf.length, hf.programmedSize, ?_⟩
    intro r hr
    obtain rfl := List.mem_singleton.mp hr
    have hsize := h.size.1
    have hle := hf.length_le
    have hzero : rom.unplaced.start.toNat = 0 := rfl
    have hdata : rom.unplaced.data = rom.data := rfl
    rw [← hf.length, hzero, hdata]
    omega
  · obtain ⟨bytes, loaderStart, branch, loader, h, hf⟩ := build_multi_ok hcount hbuild
    refine ⟨⟨_, _, _, _, h.loaded hf⟩, hf.length, hf.programmedSize, ?_⟩
    intro r hr
    have hsize := h.size
    have hbase := le_baseImageSize hr
    have hle := hf.length_le
    rw [← hf.length]
    omega

/-- The extent of every catalog entry of a built image: its bytes lie in erased sectors as far as
`eraseEnd`, so all bytes of the ROM do, and after writing the card shows the image, then `FF` up to
there, and from there on what it held before. -/
theorem extent_erased_iff {templates : LoaderTemplates} {roms placed : List RomInfo}
    {image : BuiltCartridgeImage}
    (hbuild : CartridgeImageBuilder.build templates roms false = .ok (placed, image))
    (htypes : ∀ r ∈ roms, entryType r.data.length = .ok r.entryType) :
    ∀ (k : Nat) (r : RomInfo), placed[k]? = some r →
      ∃ entry stop, RecordedAt image (decide (roms.length = 1)) k entry ∧
        (r.data ≠ [] → entry.start = r.start) ∧ entry.storedEnd 0x02000000 = some stop ∧
        (∀ x, entry.start.toNat ≤ x → x ≤ stop.toNat →
          (ErasedBy (eraseGroups image.programmedSize) x ↔ x < eraseEnd image.programmedSize)) ∧
        (∀ x, entry.start.toNat ≤ x → x < entry.start.toNat + r.data.length →
          x ≤ stop.toNat ∧ ErasedBy (eraseGroups image.programmedSize) x) ∧
        ∀ card : FlashCard, card.phase = .idle →
          ∃ card', exec step (flashImage image.bytes) card = (.ok true, card') ∧
            ∀ x, entry.start.toNat ≤ x → x ≤ stop.toNat → card'.flash.mem x =
              if x < image.programmedSize then cardOf image.bytes x
              else if x < eraseEnd image.programmedSize then 0xFF
              else card.flash.mem x := by
  obtain ⟨⟨gapStart, loaderStart, branch, loader, h⟩, hlength, hprogrammed, hcover⟩ :=
    build_covers hbuild
  have htypes' : ∀ r ∈ placed, entryType r.data.length = .ok r.entryType :=
    h.forall_placed (fun _ => Iff.rfl) htypes
  intro k r hr
  have hmem := List.mem_of_getElem? hr
  have hfits := h.placement.fits hmem
  obtain ⟨_, hnine, hclass⟩ := entryType_spec (htypes' r hmem)
  obtain ⟨entry, hrecorded, htype, hstart⟩ := h.exists_recordedAt hr
  have hlt : entry.start.toNat < 2 ^ 25 := hstart ▸ Nat.mod_lt _ (by decide)
  have hdvd : 2 ^ (25 - entry.type.toNat) ∣ entry.start.toNat := by
    rw [htype, hstart]
    exact (Nat.dvd_mod_iff (Nat.pow_dvd_pow 2 (Nat.sub_le ..))).mpr
      (h.placement.class_dvd hmem hclass)
  obtain ⟨stop, hstored, hstop, _⟩ := storedEnd_of_class (htype ▸ hnine) hdvd hlt
  rw [htype] at hstop
  have hdata := hclass.le
  have hend := le_eraseEnd hprogrammed.leCard
  have hrom := hcover r hmem
  refine ⟨entry, stop, hrecorded, fun hne => ?_, hstored, fun x _ _ => erases_iff,
    fun x hx hlt => ⟨by omega, erases_iff.mpr ?_⟩, ?_⟩
  · -- a ROM with a byte starts below the end of the card
    have hpos := List.length_pos_iff.mpr hne
    simp only [maxCardImage] at hfits
    exact UInt32.toNat_inj.mp (by omega)
  · have hle := Nat.mod_le r.start.toNat (2 ^ 25)
    omega
  · intro card hidle
    obtain ⟨card', hrun, window, hheld⟩ := @succeeds_flashImage card.flash.mem image.bytes
      (by rw [hlength]; exact hprogrammed.leCard) card ⟨card.flash.window, hidle, rfl, rfl⟩
    refine ⟨card', hrun, fun x _ _ => ?_⟩
    rw [hheld.content x, hlength, cardOf]

theorem extent_erased_iff_header : ∃ image entry stop,
    CartridgeImageBuilder.build plainTemplates [headerRom 0] false = .ok ([headerRom 0], image) ∧
    RecordedAt image true 0 entry ∧ entry.start = 0 ∧ entry.storedEnd 0x02000000 = some stop ∧
    (∀ x, entry.start.toNat ≤ x → x ≤ stop.toNat →
      (ErasedBy (eraseGroups image.programmedSize) x ↔ x < eraseEnd image.programmedSize)) ∧
    (∀ x, entry.start.toNat ≤ x → x < entry.start.toNat + (headerRom 0).data.length →
      x ≤ stop.toNat ∧ ErasedBy (eraseGroups image.programmedSize) x) ∧
    ∀ card : FlashCard, card.phase = .idle →
      ∃ card', exec step (flashImage image.bytes) card = (.ok true, card') ∧
        ∀ x, entry.start.toNat ≤ x → x ≤ stop.toNat → card'.flash.mem x =
          if x < image.programmedSize then cardOf image.bytes x
          else if x < eraseEnd image.programmedSize then 0xFF
          else card.flash.mem x := by
  have hlen : (headerRom 0).data.length = 0xC0 := length_gameRom
  obtain ⟨image, hbuild⟩ := @build_single_isOk plainTemplates (headerRom 0) length_plainTemplates.1
    plainTemplates_single (by rw [hlen]) (by rw [hlen]; decide)
  have htypes : ∀ r ∈ [headerRom 0], entryType r.data.length = .ok r.entryType :=
    List.forall_mem_singleton.mpr headerRom_type
  obtain ⟨entry, stop, hrecorded, hstart, hextent⟩ := extent_erased_iff hbuild htypes 0 _ rfl
  have hne : (headerRom 0).data ≠ [] := List.ne_nil_of_length_pos (by rw [hlen]; decide)
  exact ⟨image, entry, stop, hbuild, hrecorded, hstart hne, hextent⟩

/-- A ROM of 0x20100 bytes has a 256-KiB extent of which only the first 192 KiB are erased. -/
theorem extent_not_erased :
    let roms := [runRom 0x20040 [] 7, headerRom 0]
    (∀ r ∈ roms, entryType r.data.length = .ok r.entryType) ∧
    ∃ placed image, CartridgeImageBuilder.build plainTemplates roms false = .ok (placed, image) ∧
      ∃ entry stop, RecordedAt image false 0 entry ∧ entry.storedEnd 0x02000000 = some stop ∧
        entry.start.toNat ≤ 0x30000 ∧ 0x30000 ≤ stop.toNat ∧
        ¬ ErasedBy (eraseGroups image.programmedSize) 0x30000 ∧
        ∀ card : FlashCard, card.phase = .idle →
          ∃ card', exec step (flashImage image.bytes) card = (.ok true, card') ∧
            card'.flash.mem 0x30000 = card.flash.mem 0x30000 := by
  intro roms
  have hlen : (runRom 0x20040 [] 7).data.length = 0x20100 := by
    rw [length_runRom, List.length_nil]
  have htype : entryType (runRom 0x20040 [] 7).data.length = .ok 7 := by
    rw [hlen]
    rfl
  have htypes : ∀ r ∈ roms, entryType r.data.length = .ok r.entryType :=
    List.forall_mem_cons.mpr ⟨htype, List.forall_mem_singleton.mpr headerRom_type⟩
  obtain ⟨image, hbuild⟩ := @runRoms_build 0x20040 [] 7 (by rw [List.length_nil]; omega)
    meaningfulRomEnd_runRom
  obtain ⟨bytes, loaderStart, branch, loader, h, hf⟩ := build_multi_ok (by simp) hbuild
  have hls := h.loaderStart_runRoms (by decide)
  have hbytes : bytes.length = 0x20100 := by
    rw [h.size, baseImageSize_runRoms, hls, List.length_nil]
    rfl
  have hend : eraseEnd image.programmedSize = 0x30000 := by
    rw [hf.programmed, hbytes]
    rfl
  obtain ⟨stop, hstored, hstop, _⟩ :=
    @storedEnd_of_class (recordedEntry (runRom 0x20040 [] 7) (0 == 0)) (by decide)
      (Nat.dvd_zero _) (by decide)
  have hentry := (h.loaded hf).recordedAt (k := 0) rfl (by decide)
  refine ⟨htypes, _, image, hbuild, _, stop, hentry, hstored, by decide, ?_, ?_, ?_⟩
  · have hclass : 0 + 2 ^ (25 - 7) = 0x40000 := by omega
    have : stop.toNat + 1 = 0 + 2 ^ (25 - 7) := hstop
    omega
  · rw [erases_iff, hend]
    omega
  · intro card hidle
    obtain ⟨card', hrun, window, hheld⟩ := @succeeds_flashImage card.flash.mem image.bytes
      (by rw [hf.length]; exact hf.programmedLe) card ⟨card.flash.window, hidle, rfl, rfl⟩
    have hlength := hf.length
    rw [hf.programmed, hbytes] at hlength
    refine ⟨card', hrun, ?_⟩
    rw [hheld.content 0x30000, hf.length, hend, if_neg (Nat.lt_irrefl _), if_neg ?_]
    rw [hf.programmed, hbytes]
    decide

end Ezfadvance
