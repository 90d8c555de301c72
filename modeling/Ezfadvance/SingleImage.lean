import Ezfadvance.MultiImage

/-!
# SingleImage

The image of one ROM (`build_single_image`), and `build` around both kinds of image.

* `placeSingleLoader_spec`: each of the four placements keeps the loader out of the live bytes.
* `patchSingleTemplate_cases`: header, entry and everything below the header.
* `buildSingleImage_cases`: every outcome; a success is a `SingleImage`.
* `LoadedImage`: a built image in loader mode, of one ROM or of several.
  `build_cases` establishes it for `CartridgeImageBuilder.build`.
-/

namespace Ezfadvance

open Segments CartridgeFormat Rounding Overlay

/-! ## The place of the loader -/

/-- Where a single loader can stand: 16-byte aligned, behind the header, on nothing but `FF`. The
gap before it is empty, or what the second half of the card leaves before the loader. -/
structure SinglePlace (data : Bytes) (templateSize gapStart loaderStart : Nat) : Prop where
  aligned : 16 ∣ loaderStart
  behindHeader : min data.length 0xC0 ≤ gapStart
  gapLe : gapStart ≤ loaderStart
  gap : gapStart = loaderStart ∨ gapStart = data.length ∧ data.length = cardHalfSize
  loaderEnd : loaderStart + templateSize ≤ maxCardImage
  blank : ∀ j, gapStart ≤ j → j < loaderStart + templateSize → data.getD j 0xFF = 0xFF

def SinglePlacement.gapStart (placement : SinglePlacement) (loaderStart : Nat) : Nat :=
  if placement = .secondHalf then cardHalfSize else loaderStart

theorem singlePlace_internal {data : Bytes} {templateSize : Nat} {a : UInt32}
    (h : findInternalFfLoaderSlot data templateSize = some a) :
    SinglePlace data templateSize a.toNat a.toNat := by
  have hslot := (findInternalFfLoaderSlot_some h).1
  have hlo := hslot.above
  have hfits := hslot.fits
  refine ⟨hslot.aligned, by omega, Nat.le_refl _, .inl rfl, by omega, ?_⟩
  intro j h1 h2
  exact ffSlot_getD hslot h1 (by omega)

theorem singlePlace_behind {data : Bytes} {templateSize n : Nat} (hmin : min data.length 0xC0 ≤ n)
    (hend : up n 16 + templateSize ≤ maxCardImage)
    (hblank : ∀ j, up n 16 ≤ j → j < up n 16 + templateSize → data.getD j 0xFF = 0xFF) :
    SinglePlace data templateSize (up n 16) (up n 16) :=
  ⟨dvd_up _ _, Nat.le_trans hmin (le_up (by omega)), Nat.le_refl _, .inl rfl, hend, hblank⟩

theorem alignLoader_toNat {n : Nat} (h : n ≤ maxCardImage) :
    (alignUpU32 (UInt32.ofNat n) 16).toNat = up n 16 := by
  simp only [maxCardImage] at h
  have hn : (UInt32.ofNat n).toNat = n := by rw [UInt32.toNat_ofNat', Nat.mod_eq_of_lt (by omega)]
  rw [alignUpU32_toNat (k := 4) rfl (by rw [hn]; show n + 16 < _; omega), hn]
  rfl

theorem placeSingleLoader_spec {data : Bytes} {templateSize : Nat} {loaderStart : UInt32}
    {placement : SinglePlacement} (hdata : data.length ≤ maxCardImage)
    (hsize : templateSize ≤ multiTemplateLen)
    (h : placeSingleLoader data templateSize = .ok (loaderStart, placement)) :
    SinglePlace data templateSize (placement.gapStart loaderStart.toNat) loaderStart.toNat := by
  have hend := @meaningfulRomEnd_le data
  have hmin := @meaningfulRomEnd_ge data
  have htrail := alignLoader_toNat (Nat.le_trans hend hdata)
  have happend := alignLoader_toNat hdata
  have hmax : max templateSize multiTemplateLen = multiTemplateLen := Nat.max_eq_right hsize
  unfold placeSingleLoader at h
  simp only [htrail, happend, hmax] at h
  by_cases hpad : up (meaningfulRomEnd data) 16 + multiTemplateLen ≤ data.length ∧
      (slice data (up (meaningfulRomEnd data) 16) multiTemplateLen).all (· == 0xFF)
  · rw [if_pos hpad] at h
    cases h
    show SinglePlace _ _ (alignUpU32 _ 16).toNat (alignUpU32 _ 16).toNat
    rw [htrail]
    refine singlePlace_behind hmin (by omega) fun j h1 _ => ?_
    exact meaningfulRomEnd_blank (Nat.le_trans (le_up (by omega)) h1)
  rw [if_neg hpad] at h
  by_cases hhalf : data.length = cardHalfSize
  · rw [if_pos hhalf] at h
    cases hslot : findInternalFfLoaderSlot data templateSize with
    | some internal =>
      rw [hslot] at h
      cases h
      exact singlePlace_internal hslot
    | none =>
      rw [hslot] at h
      cases h
      simp only [multiTemplateLen] at hsize
      have h32 : (UInt32.ofNat (cardHalfSize + 0x10)).toNat = cardHalfSize + 0x10 := rfl
      rw [h32]
      refine ⟨by decide, by rw [hhalf]; decide, by decide, .inr ⟨hhalf.symm, hhalf⟩, ?_, ?_⟩
      · simp only [cardHalfSize, maxCardImage]
        omega
      · intro j h1 _
        exact getD_eq_of_ge (by rw [hhalf]; exact h1)
  rw [if_neg hhalf] at h
  by_cases hfull : up data.length 16 + templateSize > maxCardImage
  · rw [if_pos hfull] at h
    cases hslot : findInternalFfLoaderSlot data templateSize with
    | some internal =>
      rw [hslot] at h
      cases h
      exact singlePlace_internal hslot
    | none =>
      rw [hslot] at h
      cases h
  · rw [if_neg hfull] at h
    cases h
    show SinglePlace _ _ (alignUpU32 _ 16).toNat (alignUpU32 _ 16).toNat
    rw [happend]
    refine singlePlace_behind (Nat.min_le_left ..) (by omega) fun j h1 _ => ?_
    exact getD_eq_of_ge (Nat.le_trans (le_up (by omega)) h1)

/-- The search fails in one way only. -/
theorem placeSingleLoader_error {data : Bytes} {templateSize : Nat} {e : BuildError}
    (h : placeSingleLoader data templateSize = .error e) : e = .noInternalGap := by
  unfold placeSingleLoader at h
  grind

/-- The second half is used for a ROM that fills the first. -/
theorem placeSingleLoader_secondHalf {data : Bytes} {templateSize : Nat} {loaderStart : UInt32}
    (h : placeSingleLoader data templateSize = .ok (loaderStart, .secondHalf)) :
    data.length = cardHalfSize := by
  unfold placeSingleLoader at h
  grind

/-! ## The patched loader -/

/-- The patched single loader: its header, its entry, and nothing else below the header. -/
structure PatchedSingle (t : Bytes) (r : RomInfo) (loader : Bytes) : Prop where
  length : loader.length = singleTemplateLen
  header : readLe16 loader singleHeaderOff = 1
  repeated : readLe16 loader singleHeaderCount2Off = 1
  entry : slice loader singleEntryOff 28 = catalogEntryBytes r true

theorem patchSingleTemplate_cases {t : Bytes} {r : RomInfo} {loaderStart : UInt32}
    (hlen : t.length = singleTemplateLen) :
    (patchSingleTemplate t r loaderStart = .error .singleRelocationCount ∧
        (relocateTemplate t singleTemplateBase loaderStart).2 ≠ 13) ∨
      ∃ loader, patchSingleTemplate t r loaderStart = .ok loader ∧ PatchedSingle t r loader := by
  by_cases hcount : (relocateTemplate t singleTemplateBase loaderStart).2 = 13
  case neg =>
    left
    refine ⟨?_, hcount⟩
    rw [patchSingleTemplate]
    dsimp only
    rw [if_pos hcount]
    rfl
  right
  let t1 := (relocateTemplate t singleTemplateBase loaderStart).1
  let t2 := blit t1 singleHeaderOff (le16 1)
  let t3 := blit t2 singleHeaderCount2Off (le16 1)
  have hh : singleHeaderOff = 0x4E8 := rfl
  have hc : singleHeaderCount2Off = 0x4F6 := rfl
  have he : singleEntryOff = 0x4F8 := rfl
  have l1 : t1.length = 0x660 := by rw [length_relocateTemplate, hlen]; rfl
  have h1 : singleHeaderOff + (le16 1).length ≤ t1.length := by rw [l1, length_le16]; decide
  have l2 : t2.length = 0x660 := (length_blit h1).trans l1
  have h2 : singleHeaderCount2Off + (le16 1).length ≤ t2.length := by rw [l2, length_le16]; decide
  have l3 : t3.length = 0x660 := (length_blit h2).trans l2
  have h3 : singleEntryOff + (catalogEntryBytes r true).length ≤ t3.length := by
    rw [l3, length_catalogEntryBytes]; decide
  refine ⟨blit t3 singleEntryOff (catalogEntryBytes r true), ?_, ?_, ?_, ?_, ?_⟩
  · rw [patchSingleTemplate]
    dsimp only
    rw [if_neg (by rw [hcount]; decide), writeLe16_ok (by rw [length_le16] at h1; exact h1)]
    dsimp only [bind, Except.bind]
    rw [writeLe16_ok (by rw [length_le16] at h2; exact h2)]
    dsimp only
    exact writeCatalogEntry_eq (by rw [length_catalogEntryBytes] at h3; exact h3)
  · exact (length_blit h3).trans l3
  · rw [← readLe16_le16 1]
    apply readLe16_congr
    intro k hk
    rw [getD_blit h3, if_neg (by omega), getD_blit h2, if_neg (by omega), getD_blit h1, length_le16,
      if_pos (by omega), show singleHeaderOff + k - singleHeaderOff = 0 + k by omega]
  · rw [← readLe16_le16 1]
    apply readLe16_congr
    intro k hk
    rw [getD_blit h3, if_neg (by omega), getD_blit h2, length_le16,
      if_pos (by omega), show singleHeaderCount2Off + k - singleHeaderCount2Off = 0 + k by omega]
  · apply ext_getD (d := 0)
    · rw [length_slice, length_blit h3, l3, length_catalogEntryBytes]
      decide
    · intro i hi
      rw [length_slice] at hi
      rw [getD_slice, if_pos (by omega), getD_blit h3, length_catalogEntryBytes, if_pos (by omega),
        show singleEntryOff + i - singleEntryOff = i by omega]

/-! ## The card -/

theorem singleImageSize_le {data : Bytes} {loaderStart : UInt32} {n : Nat}
    {placement : SinglePlacement} (hdata : data.length ≤ maxCardImage)
    (hend : loaderStart.toNat + n ≤ maxCardImage) :
    max data.length (loaderStart.toNat + n) ≤ singleImageSize data loaderStart n placement ∧
      singleImageSize data loaderStart n placement ≤ maxCardImage := by
  unfold singleImageSize
  dsimp only
  split
  case isFalse => omega
  case isTrue =>
    have hsize : max data.length (loaderStart.toNat + n) ≤ maxCardImage := by omega
    generalize max data.length (loaderStart.toNat + n) = size at hsize ⊢
    simp only [maxCardImage] at hsize ⊢
    have hsum : (UInt64.ofNat size + 0xFF).toNat = size + 0xFF := by
      rw [UInt64.toNat_add, UInt64.toNat_ofNat', Nat.mod_eq_of_lt (by omega : size < 2 ^ 64)]
      show (size + 255) % _ = _
      omega
    have hround : ((UInt64.ofNat size + 0xFF) &&& ~~~0xFF).toNat = up size 0x100 := by
      have h := toNat_and_not_mask (UInt64.ofNat size + 0xFF).toBitVec 8
      calc ((UInt64.ofNat size + 0xFF) &&& ~~~0xFF).toNat
          = (UInt64.ofNat size + 0xFF).toNat / 2 ^ 8 * 2 ^ 8 := h
        _ = up size 0x100 := by rw [hsum, up]; omega
    rw [hround]
    exact ⟨le_up (by omega), up_le (by omega) hsize (by decide)⟩

theorem renders_single {r : RomInfo} {n : Nat} (hstart : r.start = 0) (hn : r.data.length ≤ n) :
    Renders 0xFF (romBlocks [r]) (cardOf (blit (List.replicate n 0xFF) 0 r.data)) := by
  have hblank : cardOf (List.replicate n 0xFF) = fun _ => 0xFF := by
    funext a
    rw [cardOf, getD_replicate]
    split <;> rfl
  have hfits : 0 + r.data.length ≤ (List.replicate n (0xFF : UInt8)).length := by
    rw [List.length_replicate]; omega
  have h := (@renders_nil UInt8 0xFF).snoc (b := romBlock r) fun a v hl => absurd hl live_nil
  rw [cardOf_blit hfits, hblank]
  have hzero : (romBlock r).start = 0 := by rw [romBlock, hstart]; rfl
  rw [hzero] at h
  exact h

theorem vacant_single {r : RomInfo} {lo hi : Nat} (hstart : r.start = 0)
    (h : ∀ j, lo ≤ j → j < hi → r.data.getD j 0xFF = 0xFF) : Vacant 0xFF (romBlocks [r]) lo hi := by
  intro a h1 h2 v hv
  obtain ⟨hne, p, hp, _, hget⟩ := liveRom_iff.mp hv
  obtain rfl := List.mem_singleton.mp hp
  have hbyte := h a h1 h2
  rw [hstart, UInt32.toNat_zero, Nat.sub_zero] at hget
  rw [List.getD_eq_getElem?_getD, hget, Option.getD_some] at hbyte
  exact hne hbyte

theorem assembleSingle_ok {r : RomInfo} {t : Bytes} {loaderStart : UInt32}
    {placement : SinglePlacement} (hstart : r.start = 0) (hdata : r.data.length ≤ maxCardImage)
    (hplace : SinglePlace r.data t.length (placement.gapStart loaderStart.toNat) loaderStart.toNat) :
    (∀ w, makeArmBranch loaderStart = .ok w →
      ∃ image, assembleSingle r.data t loaderStart placement = .ok image ∧
        image.length = singleImageSize r.data loaderStart t.length placement ∧
        LoaderImage [r] (cardOf image) w (placement.gapStart loaderStart.toNat) loaderStart.toNat t) ∧
    ∀ e, makeArmBranch loaderStart = .error e →
      assembleSingle r.data t loaderStart placement = .error (.armBranch e) := by
  obtain ⟨hge, hle⟩ := @singleImageSize_le r.data loaderStart t.length placement hdata
    hplace.loaderEnd
  have hsize : ¬ singleImageSize r.data loaderStart t.length placement > maxCardImage := by omega
  constructor
  · intro w hw
    let size := singleImageSize r.data loaderStart t.length placement
    let base := blit (List.replicate size (0xFF : UInt8)) 0 r.data
    let gapStart := placement.gapStart loaderStart.toNat
    have hgap := hplace.gapLe
    have htarget := (makeArmBranch_eq_ok.mp hw).1
    -- a branch reaches no target below 8, and the second half of the card begins far behind it
    have hroom : 4 ≤ gapStart := by
      rcases hplace.gap with hempty | ⟨hlength, hhalf⟩
      · show 4 ≤ placement.gapStart loaderStart.toNat
        omega
      · show 4 ≤ placement.gapStart loaderStart.toNat
        rw [hlength, hhalf]
        decide
    have hrep : (List.replicate size (0xFF : UInt8)).length = size := List.length_replicate
    have hbase : base.length = size := (length_blit (by rw [hrep]; omega)).trans hrep
    -- only the second half leaves a gap; filling an empty gap does nothing
    have hfill : (if placement = .secondHalf then fill base cardHalfSize loaderStart.toNat 0x00
        else base) = fill base gapStart loaderStart.toNat 0x00 := by
      by_cases hp : placement = .secondHalf
      · rw [if_pos hp]
        simp only [gapStart, SinglePlacement.gapStart, if_pos hp]
      · rw [if_neg hp]
        simp only [gapStart, SinglePlacement.gapStart, if_neg hp, fill, Nat.sub_self,
          List.replicate_zero, blit, List.length_nil, Nat.add_zero, List.append_nil,
          List.take_append_drop]
    have hzeros : (List.replicate (loaderStart.toNat - gapStart) (0x00 : UInt8)).length =
        loaderStart.toNat - gapStart := List.length_replicate
    have hgapfit : gapStart + (List.replicate (loaderStart.toNat - gapStart) (0x00 : UInt8)).length ≤
        base.length := by rw [hzeros, hbase]; omega
    have hfilled : (fill base gapStart loaderStart.toNat 0x00).length = size :=
      (length_blit hgapfit).trans hbase
    have hhead : 0 + (le32 w).length ≤ (fill base gapStart loaderStart.toNat 0x00).length := by
      rw [length_le32, hfilled]; omega
    have hlen : (blit (fill base gapStart loaderStart.toNat 0x00) 0 (le32 w)).length = size :=
      (length_blit hhead).trans hfilled
    have hfit : loaderStart.toNat + t.length ≤
        (blit (fill base gapStart loaderStart.toNat 0x00) 0 (le32 w)).length := by rw [hlen]; omega
    refine ⟨blit (blit (fill base gapStart loaderStart.toNat 0x00) 0 (le32 w)) loaderStart.toNat t,
      ?_, (length_blit hfit).trans hlen, ?_⟩
    · rw [assembleSingle]
      simp only [if_neg hsize, branchTo_ok.mpr hw, bind, Except.bind]
      rw [hfill, writeLe32_ok (by rw [length_le32] at hhead; exact hhead)]
      rfl
    · have hmin := hplace.behindHeader
      have hrenders : Renders 0xFF (romBlocks [r]) (cardOf base) := renders_single hstart (by omega)
      apply LoaderImage.of_overlay hrenders (by omega) hgap
      · exact vacant_single hstart hplace.blank
      · rw [cardOf_blit hfit, cardOf_blit hhead, fill, cardOf_blit hgapfit]
  · intro e he
    rw [assembleSingle]
    simp only [if_neg hsize, branchTo, he, bind, Except.bind, Except.mapError]

/-! ## The whole image -/

/-- A single-ROM image: the ROM at 0, the patched loader and where it stands. -/
structure SingleImage (templates : LoaderTemplates) (rom : RomInfo) (bytes : Bytes)
    (gapStart : Nat) (loaderStart branch : UInt32) (loader : Bytes) : Prop where
  templateLength : templates.single.length = singleTemplateLen
  dataLength : rom.data.length ≤ maxCardImage
  place : SinglePlace rom.data singleTemplateLen gapStart loaderStart.toNat
  patches : patchSingleTemplate templates.single rom.unplaced loaderStart = .ok loader
  patched : PatchedSingle templates.single rom.unplaced loader
  makesBranch : makeArmBranch loaderStart = .ok branch
  card : LoaderImage [rom.unplaced] (cardOf bytes) branch gapStart loaderStart.toNat loader
  size : max rom.data.length (loaderStart.toNat + singleTemplateLen) ≤ bytes.length ∧
    bytes.length ≤ maxCardImage

theorem buildSingleImage_eq {templates : LoaderTemplates} {rom : RomInfo}
    (h : templates.single.length = singleTemplateLen) :
    buildSingleImage templates rom =
      (placeSingleLoader rom.data singleTemplateLen).bind fun (loaderStart, placement) =>
        (patchSingleTemplate templates.single rom.unplaced loaderStart).bind fun t =>
          (assembleSingle rom.data t loaderStart placement).bind fun image =>
            .ok ([rom.unplaced], image) := by
  rw [buildSingleImage, if_neg (by rw [h]; exact fun hne => hne rfl), h]
  rfl

/-- Why `build_single_image` fails. -/
inductive SingleFailure (templates : LoaderTemplates) (rom : RomInfo) : Prop where
  | template (h : templates.single.length ≠ singleTemplateLen)
  | noGap (e : BuildError) (h : placeSingleLoader rom.data singleTemplateLen = .error e)
  | relocation (loaderStart : UInt32)
      (h : (relocateTemplate templates.single singleTemplateBase loaderStart).2 ≠ 13)
  | tooLarge (h : rom.data.length > maxCardImage)
  | branch (gapStart : Nat) (loaderStart : UInt32) (e : ArmBranchError)
      (place : SinglePlace rom.data singleTemplateLen gapStart loaderStart.toNat)
      (h : makeArmBranch loaderStart = .error e)

/-- Every outcome once the loader has its place. -/
theorem buildSingleImage_of_place {templates : LoaderTemplates} {rom : RomInfo}
    {loaderStart : UInt32} {placement : SinglePlacement}
    (htemplate : templates.single.length = singleTemplateLen)
    (hplace : placeSingleLoader rom.data singleTemplateLen = .ok (loaderStart, placement)) :
    (∃ e, buildSingleImage templates rom = .error e ∧ ¬ e.IsOverlap ∧
        SingleFailure templates rom) ∨
      ∃ bytes gapStart branch loader,
        buildSingleImage templates rom = .ok ([rom.unplaced], bytes) ∧
          SingleImage templates rom bytes gapStart loaderStart branch loader := by
  rw [buildSingleImage_eq htemplate, hplace]
  rcases @patchSingleTemplate_cases _ rom.unplaced loaderStart htemplate with
    ⟨hpatch, hreloc⟩ | ⟨loader, hpatch, hpatched⟩
  · exact .inl ⟨.singleRelocationCount, by simp only [Except.bind, hpatch], id,
      .relocation loaderStart hreloc⟩
  simp only [Except.bind, hpatch]
  by_cases hdata : rom.data.length ≤ maxCardImage
  case neg =>
    -- a ROM larger than the card makes an image larger than the card
    have hlarge : singleImageSize rom.data loaderStart loader.length placement > maxCardImage := by
      have hp : placement ≠ .secondHalf := by
        rintro rfl
        have := placeSingleLoader_secondHalf hplace
        simp only [cardHalfSize, maxCardImage] at this hdata
        omega
      rw [singleImageSize, if_neg hp]
      omega
    exact .inl ⟨.singleImageTooLarge, by rw [assembleSingle, if_pos hlarge], id,
      .tooLarge (Nat.not_le.mp hdata)⟩
  have hspec := placeSingleLoader_spec hdata (by decide) hplace
  obtain ⟨hok, hbad⟩ := @assembleSingle_ok rom.unplaced loader loaderStart placement rfl hdata
    (by rw [hpatched.length]; exact hspec)
  cases hbranch : makeArmBranch loaderStart with
  | error e =>
    refine .inl ⟨.armBranch e, ?_, id, .branch _ loaderStart e hspec hbranch⟩
    have : assembleSingle rom.data loader loaderStart placement = _ := hbad e hbranch
    rw [this]
  | ok branch =>
    obtain ⟨bytes, hrun, hlen, hcard⟩ := hok branch hbranch
    have hrun' : assembleSingle rom.data loader loaderStart placement = .ok bytes := hrun
    refine .inr ⟨bytes, placement.gapStart loaderStart.toNat, branch, loader,
      by rw [hrun'], htemplate, hdata, hspec, hpatch, hpatched, hbranch, hcard, ?_⟩
    have hsize := @singleImageSize_le rom.data loaderStart singleTemplateLen placement hdata
      hspec.loaderEnd
    rw [hpatched.length] at hlen
    rw [hlen]
    exact hsize

/-- Every outcome of `build_single_image`. -/
theorem buildSingleImage_cases (templates : LoaderTemplates) (rom : RomInfo) :
    (∃ e, buildSingleImage templates rom = .error e ∧ ¬ e.IsOverlap ∧
        SingleFailure templates rom) ∨
      ∃ bytes gapStart loaderStart branch loader,
        buildSingleImage templates rom = .ok ([rom.unplaced], bytes) ∧
          SingleImage templates rom bytes gapStart loaderStart branch loader := by
  by_cases htemplate : templates.single.length = singleTemplateLen
  case neg => exact .inl ⟨_, by rw [buildSingleImage, if_pos htemplate], id, .template htemplate⟩
  cases hplace : placeSingleLoader rom.data singleTemplateLen with
  | error e =>
    refine .inl ⟨e, ?_, by rw [placeSingleLoader_error hplace]; exact id, .noGap e hplace⟩
    rw [buildSingleImage_eq htemplate, hplace]
    rfl
  | ok place =>
    rcases buildSingleImage_of_place htemplate hplace with
      hfailed | ⟨bytes, gapStart, branch, loader, hrun, himage⟩
    · exact .inl hfailed
    · exact .inr ⟨bytes, gapStart, _, branch, loader, hrun, himage⟩

/-- An image that was built has its loader where the search put it. -/
theorem buildSingleImage_place {templates : LoaderTemplates} {rom : RomInfo}
    {placed : List RomInfo} {bytes : Bytes}
    (hrun : buildSingleImage templates rom = .ok (placed, bytes)) :
    ∃ gapStart loaderStart placement branch loader,
      placeSingleLoader rom.data singleTemplateLen = .ok (loaderStart, placement) ∧
        placed = [rom.unplaced] ∧
        SingleImage templates rom bytes gapStart loaderStart branch loader := by
  by_cases htemplate : templates.single.length = singleTemplateLen
  case neg =>
    rw [buildSingleImage, if_pos htemplate] at hrun
    cases hrun
  cases hplace : placeSingleLoader rom.data singleTemplateLen with
  | error e =>
    rw [buildSingleImage_eq htemplate, hplace] at hrun
    cases hrun
  | ok place =>
    rcases buildSingleImage_of_place htemplate hplace with
      ⟨e, hfailed, _⟩ | ⟨_, gapStart, branch, loader, hok, himage⟩
    · rw [hfailed] at hrun
      cases hrun
    · rw [hok] at hrun
      cases hrun
      exact ⟨gapStart, _, _, branch, loader, rfl, rfl, himage⟩

/-! ## The programmed image -/

/-- What `build` makes of the bytes of an image: `FF` up to the programmed size. -/
structure Finished (bytes : Bytes) (image : BuiltCartridgeImage) : Prop where
  card : cardOf image.bytes = cardOf bytes
  length : image.bytes.length = image.programmedSize
  programmed : image.programmedSize = up (max programBlock bytes.length) 0x100
  programmedLe : image.programmedSize ≤ maxCardImage

theorem finishImage_ok {bytes : Bytes} (h : bytes.length ≤ maxCardImage) :
    ∃ image, finishImage bytes = .ok image ∧ Finished bytes image := by
  let size := max programBlock bytes.length
  have hsize : size ≤ maxCardImage := by simp only [size, programBlock, maxCardImage] at h ⊢; omega
  have hup : (alignUpU64 (UInt64.ofNat size) 0x100).toNat = up size 0x100 := by
    simp only [maxCardImage] at hsize
    have hn : (UInt64.ofNat size).toNat = size := by
      rw [UInt64.toNat_ofNat', Nat.mod_eq_of_lt (by omega)]
    rw [alignUpU64_toNat (k := 8) rfl (by rw [hn]; show size + 256 < _; omega), hn]
    rfl
  have hle : up size 0x100 ≤ maxCardImage := up_le (by omega) hsize (by decide)
  have hge : size ≤ up size 0x100 := le_up (by omega)
  refine ⟨⟨resize bytes (up size 0x100) 0xFF, up size 0x100⟩, ?_, ?_, length_resize, rfl, hle⟩
  · rw [finishImage, if_neg (by omega)]
    dsimp only
    rw [hup, if_neg (by omega)]
  · funext a
    show (resize bytes (up size 0x100) 0xFF).getD a 0xFF = bytes.getD a 0xFF
    rw [getD_resize]
    split
    case isTrue => rfl
    case isFalse ha => rw [getD_eq_of_ge (by omega)]

theorem Finished.length_le {bytes : Bytes} {image : BuiltCartridgeImage} (h : Finished bytes image) :
    bytes.length ≤ image.bytes.length := by
  have := @le_up (max programBlock bytes.length) 0x100 (by omega)
  rw [h.length, h.programmed]
  omega

/-! ## build -/

/-- The sizes the writer is handed. -/
structure ProgrammedSize (size : Nat) : Prop where
  rounded : 0x100 ∣ size
  blockLe : programBlock ≤ size
  leCard : size ≤ maxCardImage

theorem Finished.programmedSize {bytes : Bytes} {image : BuiltCartridgeImage}
    (h : Finished bytes image) : ProgrammedSize image.programmedSize := by
  have hup := @le_up (max programBlock bytes.length) 0x100 (by omega)
  refine ⟨by rw [h.programmed]; exact dvd_up _ _, ?_, h.programmedLe⟩
  rw [h.programmed]
  omega

theorem Finished.of_ok {bytes : Bytes} {image : BuiltCartridgeImage}
    (h : finishImage bytes = .ok image) : Finished bytes image := by
  by_cases hsize : bytes.length ≤ maxCardImage
  · obtain ⟨image', hok, hfinished⟩ := finishImage_ok hsize
    rw [h] at hok
    cases hok
    exact hfinished
  · rw [finishImage, if_pos (Nat.not_le.mp hsize)] at h
    cases h

theorem of_bind_ok {ε α β : Type} {x : Except ε α} {f : α → Except ε β} {b : β}
    (h : (x >>= f) = .ok b) : ∃ a, x = .ok a ∧ f a = .ok b := by
  cases x with
  | error e => cases h
  | ok a => exact ⟨a, rfl, h⟩

/-- The size of an image that `build` produced, in loader mode or not. -/
theorem build_programmedSize {templates : LoaderTemplates} {roms placed : List RomInfo}
    {direct : Bool} {image : BuiltCartridgeImage}
    (h : CartridgeImageBuilder.build templates roms direct = .ok (placed, image)) :
    ProgrammedSize image.bytes.length := by
  have hfinished : ∃ bytes, Finished bytes image := by
    have hlast : ∀ first : Except BuildError (List RomInfo × Bytes),
        (first >>= fun x => finishImage x.2 >>= fun i => pure (x.1, i)) = .ok (placed, image) →
        ∃ bytes, Finished bytes image := by
      intro first hfirst
      obtain ⟨⟨placed', bytes⟩, _, hrest⟩ := of_bind_ok hfirst
      obtain ⟨image', hfinish, hpair⟩ := of_bind_ok hrest
      cases hpair
      exact ⟨bytes, .of_ok hfinish⟩
    unfold CartridgeImageBuilder.build at h
    dsimp only at h
    split at h
    · split at h
      · exact hlast _ h
      · exact hlast _ h
    · exact hlast _ h
  obtain ⟨bytes, hfinished⟩ := hfinished
  rw [hfinished.length]
  exact hfinished.programmedSize

/-- The loader the builder makes for the placed ROMs. -/
inductive LoaderFor (templates : LoaderTemplates) (loaderStart : UInt32) :
    List RomInfo → Bytes → Prop where
  | single {r : RomInfo} {loader : Bytes} (patched : PatchedSingle templates.single r loader)
      (patches : patchSingleTemplate templates.single r loaderStart = .ok loader) :
      LoaderFor templates loaderStart [r] loader
  | multi {placed : List RomInfo} {loader : Bytes} (several : 2 ≤ placed.length)
      (template : templates.multi.length = multiTemplateLen)
      (patched : PatchedMulti (multiTemplate templates) placed loaderStart loader)
      (patches : patchMultiTemplate (multiTemplate templates) placed loaderStart = .ok loader) :
      LoaderFor templates loaderStart placed (loader.take (copyLenOf placed))

/-- A built image in loader mode, of one ROM or of several: the ROMs in physical order and the card
that holds them. -/
structure LoadedImage (templates : LoaderTemplates) (roms placed : List RomInfo)
    (image : BuiltCartridgeImage) (gapStart : Nat) (loaderStart branch : UInt32) (loader : Bytes) :
    Prop where
  same : placed.map RomInfo.unplaced = (sortRoms roms).map RomInfo.unplaced
  placement : Placed true 0 placed
  slots : placed.length ≤ multiCatalogMaxEntries
  loaderFor : LoaderFor templates loaderStart placed loader
  makesBranch : makeArmBranch loaderStart = .ok branch
  loaderEnd : loaderStart.toNat + loader.length ≤ maxCardImage
  loaderFits : loaderStart.toNat + loader.length ≤ image.bytes.length
  behindHeader : (∀ r ∈ placed, 0xC0 ≤ r.data.length) → 0xC0 ≤ loaderStart.toNat
  card : LoaderImage placed (cardOf image.bytes) branch gapStart loaderStart.toNat loader

theorem sortRoms_perm (roms : List RomInfo) : (sortRoms roms).Perm roms :=
  List.mergeSort_perm roms _

/-- The physical ROMs are the ROMs handed in, each once. -/
theorem LoadedImage.perm {templates : LoaderTemplates} {roms placed : List RomInfo}
    {image : BuiltCartridgeImage} {gapStart : Nat} {loaderStart branch : UInt32} {loader : Bytes}
    (h : LoadedImage templates roms placed image gapStart loaderStart branch loader) :
    (placed.map RomInfo.unplaced).Perm (roms.map RomInfo.unplaced) := by
  rw [h.same]
  exact (sortRoms_perm roms).map _

theorem placed_single {rom : RomInfo} (h : rom.data.length ≤ maxCardImage) :
    Placed true 0 [rom.unplaced] := by
  obtain ⟨a, _, ha⟩ := multiRomSizeClassAlignment_spec h
  refine ⟨⟨a.toNat, ha, rfl⟩, ?_, trivial⟩
  show (0 : UInt32).toNat + rom.data.length ≤ maxCardImage
  rw [UInt32.toNat_zero]
  omega

theorem SingleImage.loaded {templates : LoaderTemplates} {rom : RomInfo} {bytes : Bytes}
    {gapStart : Nat} {loaderStart branch : UInt32} {loader : Bytes} {image : BuiltCartridgeImage}
    (h : SingleImage templates rom bytes gapStart loaderStart branch loader)
    (hf : Finished bytes image) :
    LoadedImage templates [rom] [rom.unplaced] image gapStart loaderStart branch loader := by
  refine ⟨by rw [sortRoms, List.mergeSort_singleton]; rfl, placed_single h.dataLength,
    Nat.succ_le_succ (Nat.zero_le _), .single h.patched h.patches, h.makesBranch, ?_, ?_, ?_, ?_⟩
  · rw [h.patched.length]
    exact h.place.loaderEnd
  · have h1 := h.size.1
    have h2 := hf.length_le
    rw [h.patched.length]
    omega
  · intro hdata
    have h1 : 0xC0 ≤ rom.data.length := hdata rom.unplaced (List.mem_singleton_self _)
    have h2 := h.place.behindHeader
    have h3 := h.place.gapLe
    omega
  · rw [hf.card]
    exact h.card

theorem MultiImage.loaded {templates : LoaderTemplates} {roms placed : List RomInfo} {bytes : Bytes}
    {loaderStart branch : UInt32} {loader : Bytes} {image : BuiltCartridgeImage}
    (h : MultiImage templates roms placed bytes loaderStart branch loader)
    (hf : Finished bytes image) :
    LoadedImage templates roms placed image loaderStart.toNat loaderStart branch
      (loader.take (copyLenOf placed)) := by
  refine ⟨h.same, h.placement, by rw [length_placed h.same]; exact h.romCount.2,
    .multi (by rw [length_placed h.same]; exact h.romCount.1) h.templateLength h.patched h.patches,
    h.makesBranch, ?_, ?_, ?_, ?_⟩
  · have := h.loaderEnd
    rw [List.length_take]
    omega
  · have h1 := h.size
    have h2 := hf.length_le
    rw [List.length_take]
    omega
  · intro hdata
    have hsome := length_placed h.same
    have hcount := h.romCount.1
    have hr := List.getElem_mem (show 0 < placed.length by omega)
    have h1 := hdata _ hr
    have h2 := le_baseImageSize hr
    exact Nat.le_trans (by omega) (h.loaderAt.le_of_size h.placement (Nat.le_trans h1 (by omega)))
  · rw [hf.card]
    exact h.card

theorem MultiImage.length_le {templates : LoaderTemplates} {roms placed : List RomInfo}
    {bytes : Bytes} {loaderStart branch : UInt32} {loader : Bytes}
    (h : MultiImage templates roms placed bytes loaderStart branch loader) :
    bytes.length ≤ maxCardImage := by
  have h1 := h.loaderEnd
  have h2 := baseImageSize_le fun r hr => h.placement.fits hr
  rw [h.size]
  omega

theorem build_single_cases (templates : LoaderTemplates) (rom : RomInfo) :
    (∃ e, CartridgeImageBuilder.build templates [rom] false = .error e ∧ ¬ e.IsOverlap ∧
        SingleFailure templates rom) ∨
      ∃ image bytes gapStart loaderStart branch loader,
        CartridgeImageBuilder.build templates [rom] false = .ok ([rom.unplaced], image) ∧
          SingleImage templates rom bytes gapStart loaderStart branch loader ∧
          Finished bytes image := by
  simp only [CartridgeImageBuilder.build, bind, Except.bind]
  rcases buildSingleImage_cases templates rom with
    ⟨e, hrun, hno, hfail⟩ | ⟨bytes, gapStart, loaderStart, branch, loader, hrun, hsingle⟩
  · exact .inl ⟨e, by rw [hrun]; rfl, hno, hfail⟩
  · obtain ⟨image, hfinish, hf⟩ := finishImage_ok hsingle.size.2
    refine .inr ⟨image, bytes, gapStart, loaderStart, branch, loader, ?_, hsingle, hf⟩
    rw [hrun]
    simp only [Bool.false_eq_true, if_false, hfinish]
    rfl

theorem build_multi_cases (templates : LoaderTemplates) (roms : List RomInfo)
    (hcount : roms.length ≠ 1) :
    (∃ e, CartridgeImageBuilder.build templates roms false = .error e ∧ ¬ e.IsOverlap ∧
        MultiFailure templates roms) ∨
      ∃ placed image bytes loaderStart branch loader,
        CartridgeImageBuilder.build templates roms false = .ok (placed, image) ∧
          MultiImage templates roms placed bytes loaderStart branch loader ∧
          Finished bytes image := by
  have hbuild : CartridgeImageBuilder.build templates roms false =
      (buildMultiImage templates roms).bind fun built =>
        (finishImage built.2).bind fun image => .ok (built.1, image) := by
    cases roms with
    | nil => rfl
    | cons rom rest =>
      cases rest with
      | nil => exact absurd rfl hcount
      | cons _ _ => rfl
  rw [hbuild]
  rcases buildMultiImage_cases templates roms with
    ⟨e, hrun, hno, hfail⟩ | ⟨placed, bytes, loaderStart, branch, loader, hrun, hmulti⟩
  · exact .inl ⟨e, by rw [hrun]; rfl, hno, hfail⟩
  · obtain ⟨image, hfinish, hf⟩ := finishImage_ok hmulti.length_le
    refine .inr ⟨placed, image, bytes, loaderStart, branch, loader, ?_, hmulti, hf⟩
    rw [hrun]
    simp only [Except.bind, hfinish]

/-- An image of several ROMs that was built, with what was put into it. -/
theorem build_multi_ok {templates : LoaderTemplates} {roms placed : List RomInfo}
    {image : BuiltCartridgeImage} (hcount : roms.length ≠ 1)
    (hbuild : CartridgeImageBuilder.build templates roms false = .ok (placed, image)) :
    ∃ bytes loaderStart branch loader,
      MultiImage templates roms placed bytes loaderStart branch loader ∧ Finished bytes image := by
  rcases build_multi_cases templates roms hcount with
    ⟨e, hrun, _⟩ | ⟨_, _, bytes, loaderStart, branch, loader, hrun, h, hf⟩
  · rw [hrun] at hbuild
    cases hbuild
  · rw [hrun] at hbuild
    cases hbuild
    exact ⟨bytes, loaderStart, branch, loader, h, hf⟩

/-- Every outcome of `build` in loader mode: an error that is no overlap, or a loaded image. -/
theorem build_cases (templates : LoaderTemplates) (roms : List RomInfo) :
    (∃ e, CartridgeImageBuilder.build templates roms false = .error e ∧ ¬ e.IsOverlap) ∨
      ∃ placed image gapStart loaderStart branch loader,
        CartridgeImageBuilder.build templates roms false = .ok (placed, image) ∧
          LoadedImage templates roms placed image gapStart loaderStart branch loader := by
  by_cases hcount : roms.length = 1
  · obtain ⟨rom, rfl⟩ := List.length_eq_one_iff.mp hcount
    rcases build_single_cases templates rom with
      ⟨e, hrun, hno, _⟩ | ⟨image, bytes, gapStart, loaderStart, branch, loader, hrun, hsingle, hf⟩
    · exact .inl ⟨e, hrun, hno⟩
    · exact .inr ⟨_, image, gapStart, loaderStart, branch, loader, hrun, hsingle.loaded hf⟩
  · rcases build_multi_cases templates roms hcount with
      ⟨e, hrun, hno, _⟩ | ⟨placed, image, bytes, loaderStart, branch, loader, hrun, hmulti, hf⟩
    · exact .inl ⟨e, hrun, hno⟩
    · exact .inr ⟨placed, image, _, loaderStart, branch, _, hrun, hmulti.loaded hf⟩

end Ezfadvance
