import Ezfadvance.CatalogReader
import Ezfadvance.SingleImage

/-!
# LoadedImage

What a built image keeps and what can be read back from it.

* `build_keeps_rom_bytes`: no overlap is ever reported, and every live ROM byte is on the card.
* `build_single_isOk`, `build_multi_isOk`: when building succeeds.
* `LoaderFor.parse`: the patched loader parses to the recorded entries.
* `build_catalog_decodes`: the catalog reader finds exactly the recorded entries on the card.
-/

namespace Ezfadvance

open Segments CartridgeFormat Rounding Overlay

/-! ## ROM bytes -/

theorem getElem?_of_cardOf {bytes : Bytes} {a : Nat} {b : UInt8} (h : cardOf bytes a = b)
    (hb : b ≠ 0xFF) : bytes[a]? = some b := by
  by_cases ha : a < bytes.length
  · rw [getElem?_eq_some_iff_getD (d := 0xFF) ha]
    exact h
  · rw [cardOf, getD_eq_of_ge (Nat.not_lt.mp ha)] at h
    exact absurd h.symm hb

theorem liveRom_of_getElem? {placed : List RomInfo} {r : RomInfo} {j : Nat} {b : UInt8}
    (hr : r ∈ placed) (hj : r.data[j]? = some b) (hb : b ≠ 0xFF) :
    LiveRom placed (r.start.toNat + j) b :=
  liveRom_iff.mpr ⟨hb, r, hr, Nat.le_add_right .., by rw [Nat.add_sub_cancel_left]; exact hj⟩

/-- The first ROM starts at 0. -/
theorem Placed.head_start {placed : List RomInfo} {r : RomInfo} (h : Placed true 0 placed)
    (hr : placed[0]? = some r) : r.start = 0 := by
  cases placed with
  | nil => cases hr
  | cons p placed =>
    rw [List.getElem?_cons_zero, Option.some.injEq] at hr
    subst hr
    obtain ⟨⟨c, _, hstart⟩, _⟩ := h
    exact UInt32.toNat_inj.mp hstart

/-- Behind a first ROM that is not empty every ROM starts in a block of its own. -/
theorem Placed.block_le {placed : List RomInfo} {p r : RomInfo} {k : Nat} (h : Placed true 0 placed)
    (hp : placed[0]? = some p) (hne : 0 < p.data.length) (hr : placed[k]? = some r) (hk : k ≠ 0) :
    programBlock ≤ r.start.toNat := by
  obtain ⟨hk', hget⟩ := List.getElem?_eq_some_iff.mp hr
  obtain ⟨h0, hget0⟩ := List.getElem?_eq_some_iff.mp hp
  have hpair := List.pairwise_iff_getElem.mp h.pairwise 0 k h0 hk' (by omega)
  rw [hget0, hget, romEnd] at hpair
  have hmin := @meaningfulRomEnd_ge p.data
  have hdvd := h.block_dvd (List.mem_of_getElem? hr)
  exact Nat.le_of_dvd (by omega) hdvd

theorem loaderCopyLen_ge (n : Nat) : multiTwoRomLen ≤ loaderCopyLen n multiTemplateLen := by
  unfold loaderCopyLen
  split <;> decide

section Loaded

variable {templates : LoaderTemplates} {roms placed : List RomInfo} {image : BuiltCartridgeImage}
  {gapStart : Nat} {loaderStart branch : UInt32} {loader : Bytes}

theorem LoadedImage.length_eq
    (h : LoadedImage templates roms placed image gapStart loaderStart branch loader) :
    placed.length = roms.length := length_placed h.same

/-- What holds of every ROM handed in, apart from its start, holds of every physical ROM. -/
theorem LoadedImage.forall_placed
    (h : LoadedImage templates roms placed image gapStart loaderStart branch loader)
    {P : RomInfo → Prop} (hP : ∀ r, P r.unplaced ↔ P r) (hall : ∀ r ∈ roms, P r) :
    ∀ r ∈ placed, P r := by
  intro r hr
  have hmem : r.unplaced ∈ roms.map RomInfo.unplaced :=
    h.perm.subset (List.mem_map_of_mem hr)
  obtain ⟨q, hq, heq⟩ := List.mem_map.mp hmem
  rw [← hP r, ← heq, hP q]
  exact hall q hq

/-- The branch in the first word. -/
theorem LoadedImage.readLe32_branch
    (h : LoadedImage templates roms placed image gapStart loaderStart branch loader) :
    readLe32 image.bytes 0 = branch ∧
      readLe32 (readCard (cardOf image.bytes) 0 4) 0 = branch := by
  have hlen : 4 ≤ image.bytes.length := by
    have h1 := h.card.headRoom
    have h2 := h.card.gapLe
    have h3 := h.loaderFits
    omega
  have hbranch : ∀ k, k < 4 → image.bytes.getD (0 + k) 0 = (le32 branch).getD (0 + k) 0 := by
    intro k hk
    rw [Nat.zero_add, ← h.card.inBranch k hk, cardOf, List.getD_eq_getElem _ _ (by omega),
      List.getD_eq_getElem _ _ (by omega)]
  constructor
  · rw [← readLe32_le32 branch]
    exact readLe32_congr hbranch
  · rw [← readLe32_le32 branch]
    apply readLe32_congr
    intro k hk
    rw [getD_readCard (by omega)]
    simp only [Nat.zero_add]
    exact h.card.inBranch k hk

/-- The loader stands where the branch points. -/
theorem LoadedImage.slice_loader
    (h : LoadedImage templates roms placed image gapStart loaderStart branch loader) :
    slice image.bytes loaderStart.toNat loader.length = loader := by
  have hfits := h.loaderFits
  apply ext_getD (d := 0)
  · rw [length_slice]
    omega
  · intro i hi
    rw [length_slice] at hi
    rw [getD_slice, if_pos (by omega)]
    have hcard := h.card.inLoader (loaderStart.toNat + i) (by omega) (by omega)
    rw [Nat.add_sub_cancel_left] at hcard
    rw [← hcard, cardOf, List.getD_eq_getElem _ _ (by omega), List.getD_eq_getElem _ _ (by omega)]

theorem LoaderFor.length_ge (h : LoaderFor templates loaderStart placed loader) :
    0x660 ≤ loader.length ∧ loader.length ≤ Ez3CatalogParser.loaderReadSize := by
  cases h with
  | single hpatched _ =>
    rw [hpatched.length]
    decide
  | @multi placed loader _ _ hpatched _ =>
    have hll : loader.length = 0x7080 := hpatched.length
    have hge : 0x6F80 ≤ copyLenOf placed := loaderCopyLen_ge placed.length
    rw [List.length_take, Ez3CatalogParser.loaderReadSize]
    omega

theorem LoadedImage.readLength_ge
    (h : LoadedImage templates roms placed image gapStart loaderStart branch loader) :
    loader.length ≤ Ez3CatalogReader.readLength 0x02000000 loaderStart := by
  have hend := h.loaderEnd
  have hlen := h.loaderFor.length_ge
  simp only [maxCardImage] at hend
  simp only [Ez3CatalogParser.loaderReadSize] at hlen
  have hsub : ((0x02000000 : UInt32) - loaderStart).toNat = 0x02000000 - loaderStart.toNat :=
    UInt32.toNat_sub_of_le _ _ (by rw [UInt32.le_iff_toNat_le]; show _ ≤ 0x02000000; omega)
  rw [Ez3CatalogReader.readLength, Ez3CatalogParser.loaderReadSize, hsub]
  omega

/-- The reader gets the loader, whatever else it reads behind it. -/
theorem LoadedImage.readCard_loader
    (h : LoadedImage templates roms placed image gapStart loaderStart branch loader) {n i : Nat}
    (hn : loader.length ≤ n) (hi : i < loader.length) :
    (readCard (cardOf image.bytes) loaderStart.toNat n).getD i 0 = loader.getD i 0 := by
  rw [getD_readCard (by omega), h.card.inLoader _ (by omega) (by omega), Nat.add_sub_cancel_left]

/-- A live ROM byte is on the card, unless it is one of the first four of ROM 1. -/
theorem LoadedImage.live_byte
    (h : LoadedImage templates roms placed image gapStart loaderStart branch loader)
    (hfirst : ∀ p, placed[0]? = some p → 0 < p.data.length) {k j : Nat} {r : RomInfo} {b : UInt8}
    (hr : placed[k]? = some r) (hj : r.data[j]? = some b) (hb : b ≠ 0xFF) (hhead : ¬ (k = 0 ∧ j < 4)) :
    cardOf image.bytes (r.start.toNat + j) = b := by
  refine h.card.live _ _ ?_ (liveRom_of_getElem? (List.mem_of_getElem? hr) hj hb)
  by_cases hk : k = 0
  · omega
  · have hlt : 0 < placed.length := by have := (List.getElem?_eq_some_iff.mp hr).1; omega
    have hget := List.getElem?_eq_getElem hlt
    have hstart := h.placement.block_le hget (hfirst _ hget) hr hk
    simp only [programBlock] at hstart
    omega

end Loaded

/-! ## Success -/

theorem placeSingleLoader_isOk {data : Bytes} {templateSize : Nat}
    (hroom : data.length + templateSize + 0x10 ≤ maxCardImage) :
    ∃ place, placeSingleLoader data templateSize = .ok place := by
  have hup := @up_lt data.length 16 (by omega)
  have halign := @alignLoader_toNat data.length (by omega)
  unfold placeSingleLoader
  simp only [halign]
  split
  · exact ⟨_, rfl⟩
  · split
    · split <;> exact ⟨_, rfl⟩
    · rw [if_neg (by omega)]
      exact ⟨_, rfl⟩

theorem relocation_count {t : Bytes} {originalBase loaderStart : UInt32} {n : Nat}
    (h : (relocateTemplate t originalBase 0).2 = n) :
    (relocateTemplate t originalBase loaderStart).2 = n :=
  relocateWords_count.trans h

/-- A ROM with a header that leaves room for the loader gets an image. -/
theorem build_single_isOk {templates : LoaderTemplates} {rom : RomInfo}
    (htemplate : templates.single.length = singleTemplateLen)
    (hreloc : (relocateTemplate templates.single singleTemplateBase 0).2 = 13)
    (hdata : 0xC0 ≤ rom.data.length) (hroom : rom.data.length + 0x670 ≤ maxCardImage) :
    ∃ image, CartridgeImageBuilder.build templates [rom] false = .ok ([rom.unplaced], image) := by
  rcases build_single_cases templates rom with
    ⟨e, _, _, hfail⟩ | ⟨image, _, _, _, _, _, hrun, _⟩
  case inr => exact ⟨image, hrun⟩
  cases hfail with
  | template h => exact absurd htemplate h
  | noGap e h =>
    obtain ⟨place, hplace⟩ := @placeSingleLoader_isOk rom.data singleTemplateLen
      (by simp only [singleTemplateLen]; omega)
    rw [h] at hplace
    cases hplace
  | relocation loaderStart h => exact absurd (relocation_count hreloc) h
  | tooLarge h => omega
  | branch gapStart loaderStart e hplace h =>
    have h1 := hplace.aligned
    have h2 := hplace.behindHeader
    have h3 := hplace.gapLe
    have h4 := hplace.loaderEnd
    simp only [maxCardImage] at h4
    obtain ⟨w, hw⟩ := @makeArmBranch_isOk loaderStart |>.mpr (by omega)
    rw [h] at hw
    cases hw

/-- ROMs that can be placed and leave room for the loader get an image. -/
theorem build_multi_isOk {templates : LoaderTemplates} {roms placed : List RomInfo}
    (htemplate : templates.multi.length = multiTemplateLen)
    (hreloc : (relocateTemplate (multiTemplate templates) multiTemplateBase 0).2 = 125)
    (hcount : 2 ≤ roms.length ∧ roms.length ≤ multiCatalogMaxEntries)
    (same : placed.map RomInfo.unplaced = (sortRoms roms).map RomInfo.unplaced)
    (placement : Placed true 0 placed) (hhead : 8 ≤ baseImageSize placed)
    (hroom : baseImageSize placed + 0x7090 ≤ maxCardImage) :
    ∃ image, CartridgeImageBuilder.build templates roms false = .ok (placed, image) := by
  have hunique : ∀ placed' : List RomInfo,
      placed'.map RomInfo.unplaced = (sortRoms roms).map RomInfo.unplaced → Placed true 0 placed' →
      placed' = placed := by
    intro placed' same' placement'
    have h := placeRoms_iff.mpr ⟨same, placement⟩
    rw [placeRoms_iff.mpr ⟨same', placement'⟩] at h
    cases h
    rfl
  rcases build_multi_cases templates roms (by omega) with
    ⟨e, _, _, hfail⟩ | ⟨placed', image, _, _, _, _, hrun, hmulti, _⟩
  case inr => exact ⟨image, hunique placed' hmulti.same hmulti.placement ▸ hrun⟩
  cases hfail with
  | romCount h => omega
  | unplaceable h => exact absurd placement (h placed same)
  | template h => exact absurd htemplate h
  | noRoom placed' same' placement' _ hfull =>
    obtain rfl := hunique placed' same' placement'
    have hup := @up_lt (baseImageSize placed') 16 (by omega)
    have hle : copyLenOf placed' ≤ 0x7080 := loaderCopyLen_le placed'.length
    omega
  | relocation loaderStart h => exact absurd (relocation_count hreloc) h
  | branch placed' loaderStart e same' placement' hat h =>
    obtain rfl := hunique placed' same' placement'
    have h1 := hat.dvd
    have h2 := hat.le_of_size placement' hhead
    have h3 := hat.le_card placement'
    simp only [maxCardImage] at h3
    obtain ⟨w, hw⟩ := @makeArmBranch_isOk loaderStart |>.mpr (by omega)
    rw [h] at hw
    cases hw

/-! Templates with the least the builder asks for, and a ROM of one header, to run it on. -/

/-- `count` words that point to the template itself, then zeros. -/
def plainLoader (base : UInt32) (count zeros : Nat) : Bytes :=
  (List.replicate count (le32 (gbaRomBase + base))).flatten ++
    (List.replicate zeros (le32 0)).flatten

def plainTemplates : LoaderTemplates where
  single := plainLoader singleTemplateBase 13 395
  multi := plainLoader multiTemplateBase 125 5468 ++
    (multiCaptureGapBytes ++ (List.replicate 1600 (le32 0)).flatten)

theorem length_plainLoader {base : UInt32} {count zeros : Nat} :
    (plainLoader base count zeros).length = count * 4 + zeros * 4 := by
  rw [plainLoader, List.length_append, length_flatten_replicate, length_flatten_replicate,
    length_le32, length_le32]

theorem relocateWords_plainLoader {lo hi base : UInt32} {delta : Int} {count zeros : Nat} :
    (relocateWords lo hi delta (plainLoader base count zeros)).2 =
      count * (relocateWords lo hi delta (le32 (gbaRomBase + base))).2 +
        zeros * (relocateWords lo hi delta (le32 0)).2 := by
  have hdvd : 4 ∣ (List.replicate count (le32 (gbaRomBase + base))).flatten.length := by
    rw [length_flatten_replicate, length_le32]
    exact Nat.dvd_mul_left ..
  have hword : ∀ x : UInt32, 4 ∣ (le32 x).length := fun x => by rw [length_le32]
  rw [plainLoader, relocateWords_append hdvd]
  dsimp only
  rw [relocateWords_replicate (hword _), relocateWords_replicate (hword _)]

theorem length_plainTemplates :
    plainTemplates.single.length = singleTemplateLen ∧
      plainTemplates.multi.length = multiTemplateLen := by
  constructor
  · exact length_plainLoader
  · rw [plainTemplates]
    dsimp only
    rw [List.length_append, length_plainLoader, List.length_append, length_flatten_replicate]
    rfl

theorem plainTemplates_single :
    (relocateTemplate plainTemplates.single singleTemplateBase 0).2 = 13 := by
  rw [relocateTemplate, length_plainTemplates.1, plainTemplates, relocateWords_plainLoader]
  decide

theorem multiTemplate_plain : multiTemplate plainTemplates = plainTemplates.multi := by
  have hoff : (plainLoader multiTemplateBase 125 5468).length = multiCaptureGapOff :=
    length_plainLoader
  rw [multiTemplate, plainTemplates, blit, ← hoff, List.take_left, List.append_assoc,
    List.drop_append, List.drop_of_length_le (by omega), List.nil_append, Nat.add_sub_cancel_left,
    List.drop_left]

theorem plainTemplates_multi :
    (relocateTemplate (multiTemplate plainTemplates) multiTemplateBase 0).2 = 125 := by
  have hdvd : 4 ∣ (plainLoader multiTemplateBase 125 5468).length := by
    rw [length_plainLoader]; decide
  rw [multiTemplate_plain, relocateTemplate, length_plainTemplates.2, plainTemplates,
    relocateWords_append hdvd, relocateWords_append (by decide), relocateWords_plainLoader,
    relocateWords_replicate (by decide)]
  decide

/-- A header whose branch leads behind it. -/
def gameHeader : Bytes := le32 0xEA00002E ++ List.replicate 0xBC 0x00

def gameRom (body : Bytes) (entryType : UInt8) (start : UInt32) : RomInfo where
  name := ascii "GAME"
  data := gameHeader ++ body
  start := start
  originalEntryTarget := 0xC0
  entryType := entryType

theorem length_gameRom {body : Bytes} {entryType : UInt8} {start : UInt32} :
    (gameRom body entryType start).data.length = 0xC0 + body.length := by
  show (gameHeader ++ body).length = _
  rw [List.length_append, gameHeader, List.length_append, length_le32, List.length_replicate]

/-- No ROM byte is lost: `build` never reports an overlap, and in a built image every byte of a ROM
that is not `FF` stands at the ROM's start plus its offset. The first four bytes of ROM 1 hold the
branch to the loader. -/
theorem build_keeps_rom_bytes (templates : LoaderTemplates) (roms : List RomInfo)
    (hroom : ∀ r ∈ roms, 4 ≤ r.data.length) :
    (∀ e, CartridgeImageBuilder.build templates roms false = .error e → ¬ e.IsOverlap) ∧
    ∀ placed image, CartridgeImageBuilder.build templates roms false = .ok (placed, image) →
      (placed.map RomInfo.unplaced).Perm (roms.map RomInfo.unplaced) ∧
      (∃ loaderStart loader, LoaderFor templates loaderStart placed loader ∧
        armBranchTarget (readLe32 image.bytes 0) = some loaderStart ∧
        slice image.bytes loaderStart.toNat loader.length = loader) ∧
      ∀ (k j : Nat) (r : RomInfo) (b : UInt8), placed[k]? = some r → r.data[j]? = some b → b ≠ 0xFF →
        ¬ (k = 0 ∧ j < 4) → image.bytes[r.start.toNat + j]? = some b := by
  rcases build_cases templates roms with
    ⟨e, hrun, hno⟩ | ⟨placed, image, gapStart, loaderStart, branch, loader, hrun, h⟩
  · rw [hrun]
    refine ⟨?_, fun _ _ hok => by cases hok⟩
    rintro _ ⟨⟩
    exact hno
  · rw [hrun]
    refine ⟨fun _ herr => (by cases herr), ?_⟩
    rintro _ _ ⟨⟩
    have hroom' : ∀ r ∈ placed, 4 ≤ r.data.length := h.forall_placed (fun _ => Iff.rfl) hroom
    have hfirst : ∀ p, placed[0]? = some p → 0 < p.data.length := by
      intro p hp
      have := hroom' p (List.mem_of_getElem? hp)
      omega
    refine ⟨h.perm, ⟨loaderStart, loader, h.loaderFor, ?_, h.slice_loader⟩, ?_⟩
    · rw [h.readLe32_branch.1]
      exact armBranchTarget_of_make h.makesBranch
    · intro k j r b hr hj hb hhead
      exact getElem?_of_cardOf (h.live_byte hfirst hr hj hb hhead) hb

theorem sizeClass_block {n : Nat} (h : n ≤ programBlock) : SizeClass n programBlock := by
  rw [SizeClass, Nat.max_eq_left h]
  exact powCeil_pow 16

theorem sortRoms_of_sizes {roms : List RomInfo}
    (h : roms.Pairwise fun a b => b.data.length ≤ a.data.length) : sortRoms roms = roms :=
  List.mergeSort_of_pairwise (h.imp fun hab => decide_eq_true hab)

abbrev headerRom (start : UInt32) : RomInfo := gameRom [] 9 start

theorem headerRoms_placed : Placed true 0 [headerRom 0, headerRom 0x10000] := by
  have hlen : ∀ start, (headerRom start).data.length = 0xC0 := fun _ => length_gameRom
  have hclass : ∀ start, SizeClass (headerRom start).data.length programBlock :=
    fun start => sizeClass_block (by rw [hlen]; decide)
  have hend : meaningfulRomEnd (headerRom 0).data = 0xC0 := by
    have h1 := @meaningfulRomEnd_le (headerRom 0).data
    have h2 := @meaningfulRomEnd_ge (headerRom 0).data
    rw [hlen] at h1 h2
    omega
  refine ⟨⟨_, hclass 0, rfl⟩, by rw [hlen]; decide, ⟨_, hclass 0x10000, ?_⟩, by rw [hlen]; decide,
    trivial⟩
  rw [romEnd, hend]
  rfl

theorem baseImageSize_headerRoms : baseImageSize [headerRom 0, headerRom 0x10000] = 0x100C0 := by
  simp only [baseImageSize, List.foldl_cons, List.foldl_nil, length_gameRom, List.length_nil]
  rfl

theorem headerRoms_build : ∃ image,
    CartridgeImageBuilder.build plainTemplates [headerRom 0, headerRom 0] false =
      .ok ([headerRom 0, headerRom 0x10000], image) :=
  build_multi_isOk length_plainTemplates.2 plainTemplates_multi
    ⟨Nat.le_refl 2, by rw [List.length_cons, List.length_singleton]; decide⟩
    (by rw [sortRoms_of_sizes (by simp)]; rfl) headerRoms_placed
    (by rw [baseImageSize_headerRoms]; decide) (by rw [baseImageSize_headerRoms]; decide)

theorem build_keeps_headers : ∃ image,
    CartridgeImageBuilder.build plainTemplates [headerRom 0, headerRom 0] false =
      .ok ([headerRom 0, headerRom 0x10000], image) ∧
    image.bytes[0x10000]? = some 0x2E ∧ image.bytes[4]? = some 0x00 := by
  obtain ⟨image, hbuild⟩ := headerRoms_build
  obtain ⟨_, hkeeps⟩ := build_keeps_rom_bytes plainTemplates [headerRom 0, headerRom 0]
    (by simp [length_gameRom])
  obtain ⟨_, _, hlive⟩ := hkeeps _ image hbuild
  exact ⟨image, hbuild, hlive 1 0 _ 0x2E rfl rfl (by decide) (by decide),
    hlive 0 4 _ 0x00 rfl rfl (by decide) (by decide)⟩

/-! ## The catalog -/

/-- The name of a ROM shows in the catalog: printable ASCII, and not all spaces. -/
def Nameable (r : RomInfo) : Prop := Printable r.name ∧ ∃ c ∈ r.name.take 16, c ≠ 0x20

/-- The parser takes a loader for a single one by these two half words. -/
def ReadsAsSingle (loader : Bytes) : Prop :=
  readLe16 loader Ez3CatalogParser.singleHeaderOffset = 1 ∧
    readLe16 loader Ez3CatalogParser.singleHeaderCount2Offset = 1

/-- The multi template does not read as a single loader, wherever it is relocated to. -/
def MultiReadsAsMulti (templates : LoaderTemplates) : Prop :=
  ∀ loaderStart : UInt32, loaderStart.toNat ≤ maxCardImage →
    ¬ ReadsAsSingle (relocateTemplate templates.multi multiTemplateBase loaderStart).1

/-- It is enough to look at the second half word of the template itself. -/
theorem multiReadsAsMulti_of_ne {templates : LoaderTemplates}
    (hlen : templates.multi.length = multiTemplateLen)
    (h : readLe16 templates.multi Ez3CatalogParser.singleHeaderCount2Offset ≠ 1) :
    MultiReadsAsMulti templates := by
  intro loaderStart hcard hsingle
  exact relocateTemplate_high (k := 0x13D) (by rw [hlen]; decide) (by rw [hlen]; decide) hcard h
    hsingle.2

/-- The capture gap lies behind the header words of a single loader. -/
theorem readLe16_relocated {templates : LoaderTemplates} {loaderStart : UInt32} {i : Nat}
    (hlen : templates.multi.length = multiTemplateLen) (hi : i + 2 ≤ multiCaptureGapOff) :
    readLe16 (relocateTemplate (multiTemplate templates) multiTemplateBase loaderStart).1 i =
      readLe16 (relocateTemplate templates.multi multiTemplateBase loaderStart).1 i := by
  have htake : (templates.multi.take multiCaptureGapOff).length = multiCaptureGapOff := by
    rw [List.length_take, hlen]
    decide
  have hdvd : 4 ∣ (templates.multi.take multiCaptureGapOff).length := by rw [htake]; decide
  have hgap : multiTemplate templates = templates.multi.take multiCaptureGapOff ++
      (multiCaptureGapBytes ++
        templates.multi.drop (multiCaptureGapOff + multiCaptureGapBytes.length)) := by
    rw [multiTemplate, blit, List.append_assoc]
  have hraw : templates.multi = templates.multi.take multiCaptureGapOff ++
      templates.multi.drop multiCaptureGapOff := (List.take_append_drop ..).symm
  have hhead : ∀ {xs rest : Bytes}, xs = templates.multi.take multiCaptureGapOff ++ rest →
      xs.length = multiTemplateLen → ∀ k, k < multiCaptureGapOff →
      (relocateTemplate xs multiTemplateBase loaderStart).1.getD k 0 =
        (relocateWords (gbaRomBase + multiTemplateBase)
          (gbaRomBase + multiTemplateBase + UInt32.ofNat multiTemplateLen)
          ((loaderStart.toNat : Int) - (multiTemplateBase.toNat : Int))
          (templates.multi.take multiCaptureGapOff)).1.getD k 0 := by
    intro xs rest hxs hxlen k hk
    rw [relocateTemplate, hxlen, hxs, relocateWords_append hdvd, getD_append,
      if_pos (by rw [length_relocateWords, htake]; exact hk)]
  apply readLe16_congr
  intro k hk
  rw [hhead hgap (length_multiTemplate hlen) _ (by omega), hhead hraw hlen _ (by omega)]

def catalogKind (placed : List RomInfo) : Ez3CatalogKind :=
  if placed.length = 1 then .single else .multi

def recordedEntries (placed : List RomInfo) : List CatalogEntry :=
  placed.mapIdx fun k r => recordedEntry r (k == 0)

theorem length_recordedEntries {placed : List RomInfo} :
    (recordedEntries placed).length = placed.length := List.length_mapIdx

theorem recordedEntry_isPlausible {r : RomInfo} {first : Bool} (hname : Nameable r)
    (hblock : programBlock ∣ r.start.toNat) (hstart : r.start.toNat < maxCardImage) :
    (recordedEntry r first).isPlausible 0x02000000 first = true := by
  have hn : (recordedEntry r first).name ≠ [] := by
    rw [recordedEntry, cleanAscii_padded fun c hc => hname.1 c (List.mem_of_mem_take hc)]
    exact trimRight_ne_nil_iff.mpr hname.2
  refine CatalogEntry.isPlausible_iff.mpr ⟨hn, UInt32.lt_iff_toNat_lt.mpr ?_, .inr hblock⟩
  exact hstart

/-- The slots of placed ROMs parse to the recorded entries. -/
theorem parseEntries_recorded {placed : List RomInfo} {kind : Ez3CatalogKind} {xs : Bytes} {off : Nat}
    (hplaced : Placed true 0 placed) (hpos : placed ≠ [])
    (hslots : placed.length ≤ Ez3CatalogParser.structuralSlotCount)
    (hname : ∀ r ∈ placed, Nameable r) (hdata : ∀ r ∈ placed, 0xC0 ≤ r.data.length)
    (hlen : off + placed.length * 28 ≤ xs.length)
    (hentries : ∀ k (hk : k < placed.length),
      slice xs (off + k * 28) 28 = catalogEntryBytes placed[k] (k == 0)) :
    Ez3CatalogParser.parseEntries kind xs off placed.length 0x02000000 =
      .ok (some ⟨kind, recordedEntries placed⟩) := by
  rw [← length_recordedEntries]
  apply Ez3CatalogParser.parseEntries_ok
  · intro hnil
    have := congrArg List.length hnil
    rw [length_recordedEntries] at this
    exact hpos (List.eq_nil_of_length_eq_zero this)
  · rw [length_recordedEntries]
    exact hslots
  · rw [length_recordedEntries]
    exact hlen
  · intro k hentry
    have hk : k < placed.length := by rwa [length_recordedEntries] at hentry
    have hmem := List.getElem_mem hk
    have hblock := hplaced.block_dvd hmem
    have hfits := hplaced.fits hmem
    have hlong := hdata _ hmem
    have hget : (recordedEntries placed)[k] = recordedEntry placed[k] (k == 0) := by
      simp only [recordedEntries, List.getElem_mapIdx]
    simp only [maxCardImage] at hfits
    simp only [programBlock] at hblock
    rw [hget]
    refine ⟨parse_catalogEntry ?_ (hentries k hk) ?_ (by omega) (by omega), ?_⟩
    · show off + k * 28 + 28 ≤ xs.length
      omega
    · intro h0
      refine hplaced.head_start (r := placed[k]) ?_
      obtain rfl : k = 0 := by simpa using h0
      exact List.getElem?_eq_getElem hk
    · refine recordedEntry_isPlausible (hname _ hmem) (hplaced.block_dvd hmem) ?_
      simp only [maxCardImage]
      omega

theorem readLe16_of_agree {xs ys : Bytes} {n i : Nat}
    (h : ∀ k, k < n → xs.getD k 0 = ys.getD k 0) (hi : i + 2 ≤ n) : readLe16 xs i = readLe16 ys i :=
  readLe16_congr fun k _ => h (i + k) (by omega)

theorem slice_of_agree {xs ys : Bytes} {n off : Nat} (hxs : n ≤ xs.length) (hys : n ≤ ys.length)
    (h : ∀ k, k < n → xs.getD k 0 = ys.getD k 0) (hoff : off + 28 ≤ n) :
    slice xs off 28 = slice ys off 28 := by
  apply ext_getD (d := 0)
  · rw [length_slice, length_slice]
    omega
  · intro i hi
    rw [length_slice] at hi
    rw [getD_slice, getD_slice, if_pos (by omega), if_pos (by omega)]
    exact h _ (by omega)

/-- Where the parser looks for the slots. -/
def slotOffset (placed : List RomInfo) : Nat :=
  if placed.length = 1 then Ez3CatalogParser.singleEntryOffset else Ez3CatalogParser.multiEntryOffset

/-- The slots in the patched loader hold the placed ROMs. -/
theorem LoaderFor.slot {templates : LoaderTemplates} {loaderStart : UInt32} {placed : List RomInfo}
    {loader : Bytes} (h : LoaderFor templates loaderStart placed loader)
    (hslots : placed.length ≤ Ez3CatalogParser.structuralSlotCount) {k : Nat}
    (hk : k < placed.length) :
    slotOffset placed + k * 28 + 28 ≤ loader.length ∧
      slice loader (slotOffset placed + k * 28) 28 = catalogEntryBytes placed[k] (k == 0) := by
  simp only [Ez3CatalogParser.structuralSlotCount] at hslots
  cases h with
  | @single r loader hpatched _ =>
    have hll : loader.length = 0x660 := hpatched.length
    have hoff : slotOffset [r] = 0x4F8 := rfl
    obtain rfl : k = 0 := by simpa using hk
    exact ⟨by omega, hpatched.entry⟩
  | @multi placed loader hseveral _ hpatched _ =>
    have hll : loader.length = 0x7080 := hpatched.length
    have hge : 0x6F80 ≤ copyLenOf placed := loaderCopyLen_ge placed.length
    have hoff : slotOffset placed = 0x476E := if_neg (by omega)
    have htake : (loader.take (copyLenOf placed)).length = min (copyLenOf placed) 0x7080 := by
      rw [List.length_take, hll]
    have hagree : ∀ i, i < min (copyLenOf placed) 0x7080 →
        (loader.take (copyLenOf placed)).getD i 0 = loader.getD i 0 := by
      intro i hi
      rw [getD_take, if_pos (by omega)]
    have hentry := hpatched.entries k hk
    rw [show multiEntryOff = slotOffset placed from hoff.symm] at hentry
    exact ⟨by omega, (slice_of_agree (by omega) (by omega) hagree (by omega)).trans hentry⟩

section Multi

variable {templates : LoaderTemplates} {loaderStart : UInt32} {placed : List RomInfo}
  {loader xs : Bytes} {n : Nat}

/-- The header words of a single loader are template words, and those are not 1. -/
theorem PatchedMulti.not_readsAsSingle
    (h : PatchedMulti (multiTemplate templates) placed loaderStart loader)
    (hlen : templates.multi.length = multiTemplateLen) (hcard : loaderStart.toNat ≤ maxCardImage)
    (hmulti : MultiReadsAsMulti templates) (hn : multiHeaderOff ≤ n)
    (hxs : ∀ i, i < n → xs.getD i 0 = loader.getD i 0) : ¬ ReadsAsSingle xs := by
  rintro ⟨h1, h2⟩
  apply hmulti loaderStart hcard
  have hword : ∀ i, i + 2 ≤ multiHeaderOff → readLe16 xs i =
      readLe16 (relocateTemplate templates.multi multiTemplateBase loaderStart).1 i := by
    intro i hi
    rw [readLe16_of_agree hxs (by omega)]
    simp only [multiHeaderOff] at hi
    rw [← readLe16_relocated hlen (by simp only [multiCaptureGapOff]; omega)]
    refine readLe16_congr fun k hk => h.below _ ?_
    simp only [multiHeaderOff]
    omega
  exact ⟨(hword _ (by decide)).symm.trans h1, (hword _ (by decide)).symm.trans h2⟩

/-- Both header words of a multi loader are the count of the ROMs. -/
theorem PatchedMulti.header_words
    (h : PatchedMulti (multiTemplate templates) placed loaderStart loader)
    (hslots : placed.length ≤ Ez3CatalogParser.structuralSlotCount)
    (hn : multiHeaderOff + 16 ≤ n) (hxs : ∀ i, i < n → xs.getD i 0 = loader.getD i 0) :
    (readLe16 xs Ez3CatalogParser.multiHeaderOffset).toNat = placed.length ∧
      (readLe16 xs (Ez3CatalogParser.multiHeaderOffset + 14)).toNat = placed.length := by
  have hoff : Ez3CatalogParser.multiHeaderOffset = multiHeaderOff := rfl
  have hcount : (UInt16.ofNat placed.length).toNat = placed.length := by
    simp only [Ez3CatalogParser.structuralSlotCount] at hslots
    rw [UInt16.toNat_ofNat', Nat.mod_eq_of_lt (by omega)]
  rw [hoff, readLe16_of_agree hxs (by omega), readLe16_of_agree hxs (by omega), h.header,
    h.repeated]
  exact ⟨hcount, hcount⟩

end Multi

/-- Bytes that begin with the patched loader parse to the recorded entries. -/
theorem LoaderFor.parse {templates : LoaderTemplates} {loaderStart : UInt32} {placed : List RomInfo}
    {loader xs : Bytes} (h : LoaderFor templates loaderStart placed loader)
    (hcard : loaderStart.toNat ≤ maxCardImage) (hmulti : MultiReadsAsMulti templates)
    (hplaced : Placed true 0 placed) (hslots : placed.length ≤ Ez3CatalogParser.structuralSlotCount)
    (hname : ∀ r ∈ placed, Nameable r) (hdata : ∀ r ∈ placed, 0xC0 ≤ r.data.length)
    (hlen : loader.length ≤ xs.length) (hxs : ∀ i, i < loader.length → xs.getD i 0 = loader.getD i 0) :
    Ez3CatalogParser.parse xs 0x02000000 =
      .ok (some ⟨catalogKind placed, recordedEntries placed⟩) := by
  have hslot := fun {k : Nat} => @LoaderFor.slot _ _ _ _ h hslots k
  cases h with
  | @single r loader hpatched _ =>
    have hll := hpatched.length
    simp only [singleTemplateLen] at hll
    have hkind : catalogKind [r] = .single := rfl
    have hentries := @parseEntries_recorded [r] .single xs Ez3CatalogParser.singleEntryOffset hplaced
      (List.cons_ne_nil _ _) hslots hname hdata
      (by simp only [Ez3CatalogParser.singleEntryOffset, List.length_singleton]; omega)
      (fun k hk => (slice_of_agree hlen (Nat.le_refl _) hxs (hslot hk).1).trans (hslot hk).2)
    have hheader : xs.length ≥ Ez3CatalogParser.singleEntryOffset + CatalogEntry.entrySize ∧
        readLe16 xs Ez3CatalogParser.singleHeaderOffset = 1 ∧
        readLe16 xs Ez3CatalogParser.singleHeaderCount2Offset = 1 := by
      refine ⟨?_, ?_, ?_⟩
      · simp only [Ez3CatalogParser.singleEntryOffset, CatalogEntry.entrySize]; omega
      · exact (readLe16_of_agree hxs
          (by simp only [Ez3CatalogParser.singleHeaderOffset]; omega)).trans hpatched.header
      · exact (readLe16_of_agree hxs
          (by simp only [Ez3CatalogParser.singleHeaderCount2Offset]; omega)).trans hpatched.repeated
    rw [Ez3CatalogParser.parse, if_neg (by decide), if_pos hheader]
    rw [List.length_singleton] at hentries
    rw [hentries, hkind]
    rfl
  | @multi placed loader hseveral hmlen hpatched _ =>
    have hll : loader.length = 0x7080 := hpatched.length
    have hge : 0x6F80 ≤ copyLenOf placed := loaderCopyLen_ge placed.length
    have hle : copyLenOf placed ≤ 0x7080 := loaderCopyLen_le placed.length
    have htl : (loader.take (copyLenOf placed)).length = copyLenOf placed := by
      rw [List.length_take]
      omega
    have hlen' := hlen
    have hxs0 := hxs
    rw [htl] at hlen hxs
    have hxs' : ∀ i, i < copyLenOf placed → xs.getD i 0 = loader.getD i 0 := by
      intro i hi
      rw [hxs i hi, getD_take, if_pos hi]
    have hfew : placed.length ≤ 120 := hslots
    have hkind : catalogKind placed = .multi := if_neg (by omega)
    have hentries := @parseEntries_recorded placed .multi xs Ez3CatalogParser.multiEntryOffset hplaced
      (by rintro rfl; simp at hseveral) hslots hname hdata
      (by simp only [Ez3CatalogParser.multiEntryOffset]; omega)
      (fun k hk => by
        have hoff : slotOffset placed = Ez3CatalogParser.multiEntryOffset := if_neg (by omega)
        rw [← hoff]
        exact (slice_of_agree hlen' (Nat.le_refl _) hxs0 (hslot hk).1).trans (hslot hk).2)
    have hsingle := hpatched.not_readsAsSingle hmlen hcard hmulti
      (by simp only [multiHeaderOff]; omega) hxs'
    obtain ⟨hheader, hrepeated⟩ := hpatched.header_words hslots
      (by simp only [multiHeaderOff]; omega) hxs'
    rw [Ez3CatalogParser.parse, if_neg (by decide), if_neg fun h => hsingle h.2,
      Ez3CatalogParser.parseMulti,
      if_neg (by simp only [Ez3CatalogParser.multiHeaderOffset]; omega)]
    simp only [hheader, hrepeated]
    rw [if_neg (by omega), hkind]
    exact hentries

/-- What the builder recorded for physical ROM `k`, as the catalog shows it. -/
structure ShowsRom (e : CatalogEntry) (r : RomInfo) (k : Nat) : Prop where
  name : e.name = trimRight (r.name.take 16)
  type : e.type = r.entryType
  mapping : e.mapping = r.mappingFlag
  start : e.start = r.start
  targetOrStart : e.targetOrStart = if k = 0 then r.originalEntryTarget else r.start

theorem recordedEntries_getElem? {placed : List RomInfo} {k : Nat} {r : RomInfo}
    (hr : placed[k]? = some r) :
    (recordedEntries placed)[k]? = some (recordedEntry r (k == 0)) := by
  rw [recordedEntries, List.getElem?_mapIdx, hr]
  rfl

theorem recordedEntry_showsRom {r : RomInfo} {k : Nat} (hname : Nameable r) :
    ShowsRom (recordedEntry r (k == 0)) r k := by
  refine ⟨?_, rfl, rfl, rfl, ?_⟩
  · exact cleanAscii_padded fun c hc => hname.1 c (List.mem_of_mem_take hc)
  · simp only [recordedEntry, beq_iff_eq]

/-- The catalog of a built image, read from the card as `Ez3CatalogReader` does and from the image
itself: one entry for each ROM, in physical order, with what the builder recorded. -/
theorem build_catalog_decodes {templates : LoaderTemplates} {roms placed : List RomInfo}
    {image : BuiltCartridgeImage}
    (hbuild : CartridgeImageBuilder.build templates roms false = .ok (placed, image))
    (hdata : ∀ r ∈ roms, 0xC0 ≤ r.data.length) (hname : ∀ r ∈ roms, Nameable r)
    (hmulti : MultiReadsAsMulti templates) :
    (placed.map RomInfo.unplaced).Perm (roms.map RomInfo.unplaced) ∧
    ∃ layout : Ez3CatalogLayout,
      (∃ result, Ez3CatalogReader.read (LinearReads.ofCard (cardOf image.bytes)) 0x02000000
          Ez3CatalogParser.structuralSlotCount = .ok result ∧
        result.status = .loaded ∧ result.catalog = some layout) ∧
      (∃ loaderStart, armBranchTarget (readLe32 image.bytes 0) = some loaderStart ∧
        Ez3CatalogParser.parse (slice image.bytes loaderStart.toNat Ez3CatalogParser.loaderReadSize)
          0x02000000 = .ok (some layout)) ∧
      layout.entries.length = roms.length ∧
      ∀ (k : Nat) (r : RomInfo), placed[k]? = some r →
        ∃ e, layout.entries[k]? = some e ∧ ShowsRom e r k := by
  rcases build_cases templates roms with
    ⟨e, hrun, _⟩ | ⟨placed, image, gapStart, loaderStart, branch, loader, hrun, h⟩
  · rw [hrun] at hbuild
    cases hbuild
  rw [hrun] at hbuild
  cases hbuild
  have hdata' : ∀ r ∈ placed, 0xC0 ≤ r.data.length := h.forall_placed (fun _ => Iff.rfl) hdata
  have hname' : ∀ r ∈ placed, Nameable r := h.forall_placed (fun _ => Iff.rfl) hname
  have hlo := h.behindHeader hdata'
  have hend := h.loaderEnd
  have hfits := h.loaderFits
  obtain ⟨hge, hle⟩ := h.loaderFor.length_ge
  simp only [maxCardImage] at hend
  have hslots : placed.length ≤ Ez3CatalogParser.structuralSlotCount := h.slots
  have hparse : ∀ xs : Bytes, loader.length ≤ xs.length →
      (∀ i, i < loader.length → xs.getD i 0 = loader.getD i 0) →
      Ez3CatalogParser.parse xs 0x02000000 =
        .ok (some ⟨catalogKind placed, recordedEntries placed⟩) :=
    fun xs => h.loaderFor.parse (by simp only [maxCardImage]; omega) hmulti h.placement hslots hname'
      hdata'
  have htarget := armBranchTarget_of_make h.makesBranch
  obtain ⟨hword, hcardword⟩ := h.readLe32_branch
  -- the loader as the reader gets it, from the card and from the image
  have hreadLen := h.readLength_ge
  have hcard := hparse (readCard (cardOf image.bytes) loaderStart.toNat _)
    (by rw [length_readCard]; exact hreadLen) (fun i hi => h.readCard_loader hreadLen hi)
  have himage := hparse (slice image.bytes loaderStart.toNat Ez3CatalogParser.loaderReadSize)
    (by rw [length_slice]; omega) (by
      intro i hi
      rw [getD_slice, if_pos (by omega)]
      have := congrArg (fun xs : Bytes => xs.getD i 0) h.slice_loader
      simp only [getD_slice, if_pos hi] at this
      exact this)
  have hslots' : (recordedEntries placed).length ≤ Ez3CatalogParser.structuralSlotCount := by
    rw [length_recordedEntries]
    exact hslots
  obtain ⟨result, hread, hloaded, _, hcatalog⟩ := Ez3CatalogReader.read_ofCard
    (UInt32.le_refl _) (by rw [hcardword]; exact htarget) hlo
    (show loaderStart.toNat < 0x02000000 by omega) hcard hslots'
  refine ⟨h.perm, ⟨catalogKind placed, recordedEntries placed⟩, ⟨result, hread, hloaded, hcatalog⟩,
    ⟨loaderStart, by rw [hword]; exact htarget, himage⟩, ?_, ?_⟩
  · rw [length_recordedEntries]
    exact h.length_eq
  · intro k r hr
    exact ⟨_, recordedEntries_getElem? hr,
      recordedEntry_showsRom (hname' r (List.mem_of_getElem? hr))⟩

theorem plainTemplates_readsAsMulti : MultiReadsAsMulti plainTemplates :=
  multiReadsAsMulti_of_ne length_plainTemplates.2 (by decide +kernel)

theorem headerRom_nameable (start : UInt32) : Nameable (headerRom start) := by
  constructor
  · show ∀ c ∈ ascii "GAME", 0x20 ≤ c ∧ c ≤ 0x7E
    simp [ascii]
  · show ∃ c ∈ (ascii "GAME").take 16, c ≠ 0x20
    decide

theorem build_catalog_decodes_headers : ∃ image layout,
    CartridgeImageBuilder.build plainTemplates [headerRom 0, headerRom 0] false =
      .ok ([headerRom 0, headerRom 0x10000], image) ∧
    (∃ result, Ez3CatalogReader.read (LinearReads.ofCard (cardOf image.bytes)) 0x02000000
        Ez3CatalogParser.structuralSlotCount = .ok result ∧ result.catalog = some layout) ∧
    layout.entries.length = 2 ∧
    (layout.entries[0]?).map (·.targetOrStart) = some 0xC0 ∧
    (layout.entries[1]?).map (·.targetOrStart) = some 0x10000 := by
  obtain ⟨image, hbuild⟩ := headerRoms_build
  obtain ⟨_, layout, ⟨result, hread, _, hcatalog⟩, _, hlen, hentries⟩ :=
    build_catalog_decodes hbuild (by simp [length_gameRom])
      (by simp only [List.forall_mem_cons, headerRom_nameable, true_and]; simp)
      plainTemplates_readsAsMulti
  obtain ⟨e0, h0, hrom0⟩ := hentries 0 _ rfl
  obtain ⟨e1, h1, hrom1⟩ := hentries 1 _ rfl
  refine ⟨image, layout, hbuild, ⟨result, hread, hcatalog⟩, hlen, ?_, ?_⟩
  · rw [h0, Option.map_some, hrom0.targetOrStart]
    rfl
  · rw [h1, Option.map_some, hrom1.targetOrStart]
    rfl

end Ezfadvance
