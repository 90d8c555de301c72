import Ezfadvance.Placement

/-!
# MultiImage

The image of several ROMs (`build_multi_image`), on top of the placement.

* `patchMultiTemplate_cases`: header, entries and everything below the header of the patched loader.
* `placeMultiLoader_spec`: the loader gets a vacant place, the least slot or the end of the image.
* `LoaderImage`: what a card with a loader holds, byte by byte. `assembleMulti_ok` establishes it.
* `buildMultiImage_cases`: every outcome of the build, failures with their cause.
-/

namespace Ezfadvance

open Segments CartridgeFormat Rounding Overlay

/-! ## The patched loader -/

theorem writeEntries_ok {roms : List RomInfo} :
    ∀ {t : Bytes} {index : Nat}, multiEntryOff + (index + roms.length) * 28 ≤ t.length →
      ∃ t', writeEntries t roms index = .ok t' ∧ t'.length = t.length ∧
        (∀ k (hk : k < roms.length), slice t' (multiEntryOff + (index + k) * 28) 28 =
          catalogEntryBytes roms[k] (index + k == 0)) ∧
        ∀ i, i < multiEntryOff + index * 28 ∨ multiEntryOff + (index + roms.length) * 28 ≤ i →
          t'.getD i 0 = t.getD i 0 := by
  induction roms with
  | nil =>
    intro t index _
    exact ⟨t, rfl, rfl, fun k hk => absurd hk (Nat.not_lt_zero k), fun _ _ => rfl⟩
  | cons r roms ih =>
    intro t index hfit
    simp only [List.length_cons] at hfit
    have hlen := @length_catalogEntryBytes r (index == 0)
    have hroom : multiEntryOff + index * 28 + (catalogEntryBytes r (index == 0)).length ≤
        t.length := by
      rw [hlen]; omega
    have hwritten := length_blit hroom
    obtain ⟨t', hrun, hl, hentries, hrest⟩ := @ih
      (blit t (multiEntryOff + index * 28) (catalogEntryBytes r (index == 0))) (index + 1)
      (by rw [hwritten]; omega)
    refine ⟨t', ?_, hl.trans hwritten, ?_, ?_⟩
    · rw [writeEntries, writeCatalogEntry_eq (by omega)]
      exact hrun
    · intro k hk
      cases k with
      | zero =>
        apply ext_getD (d := 0)
        · rw [length_slice, hl, hwritten, List.getElem_cons_zero, Nat.add_zero, hlen]
          omega
        · intro i hi
          rw [length_slice] at hi
          rw [getD_slice, if_pos (by omega), hrest _ (.inl (by omega)), getD_blit hroom, hlen,
            if_pos (by omega), List.getElem_cons_zero, Nat.add_zero]
          congr 1
          omega
      | succ k =>
        have := hentries k (by simp only [List.length_cons] at hk; omega)
        rw [List.getElem_cons_succ, show index + (k + 1) = index + 1 + k by omega]
        exact this
    · intro i hi
      simp only [List.length_cons] at hi
      rw [hrest i (by omega), getD_blit hroom, hlen, if_neg (by omega)]

/-- Blanking the third slot keeps the length. -/
theorem length_thirdSlot {t : Bytes} (h : t.length = multiTemplateLen) :
    (fill t (multiEntryOff + 2 * 28) (multiEntryOff + 2 * 28 + 28) 0x00).length =
        multiTemplateLen ∧
      (fill (fill t (multiEntryOff + 2 * 28) (multiEntryOff + 2 * 28 + 28) 0x00)
        (multiEntryOff + 2 * 28 + 1) (multiEntryOff + 2 * 28 + 16) 0x20).length =
          multiTemplateLen := by
  have hslot : (fill t (multiEntryOff + 2 * 28) (multiEntryOff + 2 * 28 + 28) 0x00).length =
      multiTemplateLen := by
    rw [length_fill (by rw [h]; decide) (by decide), h]
  exact ⟨hslot, by rw [length_fill (by rw [hslot]; decide) (by decide), hslot]⟩

theorem length_patchTails {t : Bytes} {n : Nat} (h : t.length = multiTemplateLen) :
    (patchTails t n).length = multiTemplateLen := by
  obtain ⟨_, h2⟩ := length_thirdSlot h
  unfold patchTails
  by_cases hn2 : n = 2
  · rw [if_pos hn2, if_neg (by omega), length_fill (by rw [h2]; decide) (by decide), h2]
  · rw [if_neg hn2]
    split
    · rw [length_fill (by rw [h]) (by decide), h]
    · exact h

/-- The tails leave everything before the third slot alone, and with three ROMs or more also the
slots. -/
theorem getD_patchTails {t : Bytes} {n i : Nat} (h : t.length = multiTemplateLen)
    (hi : i < multiEntryOff + 2 * 28 ∨ n ≠ 2 ∧ i < multiFourPlusRomZeroTailOff) :
    (patchTails t n).getD i 0 = t.getD i 0 := by
  obtain ⟨h1, h2⟩ := length_thirdSlot h
  simp only [multiEntryOff, multiFourPlusRomZeroTailOff] at hi
  unfold patchTails
  by_cases hn2 : n = 2
  · rw [if_pos hn2, if_neg (by omega), getD_fill (by rw [h2]; decide) (by decide),
      if_neg (by simp only [multiTwoRomErasedTailOff]; omega),
      getD_fill (by rw [h1]; decide) (by decide), if_neg (by simp only [multiEntryOff]; omega),
      getD_fill (by rw [h]; decide) (by decide), if_neg (by simp only [multiEntryOff]; omega)]
  · rw [if_neg hn2]
    split
    · rw [getD_fill (by rw [h]) (by decide),
        if_neg (by simp only [multiFourPlusRomZeroTailOff]; omega)]
    · rfl

/-- The patched multi loader: its header, its entries, and nothing else below the header. -/
structure PatchedMulti (t : Bytes) (placed : List RomInfo) (loaderStart : UInt32) (loader : Bytes) :
    Prop where
  relocCount : (relocateTemplate t multiTemplateBase loaderStart).2 = 125
  length : loader.length = multiTemplateLen
  header : readLe16 loader multiHeaderOff = UInt16.ofNat placed.length
  repeated : readLe16 loader (multiHeaderOff + 14) = UInt16.ofNat placed.length
  entries : ∀ k (hk : k < placed.length),
    slice loader (multiEntryOff + k * 28) 28 = catalogEntryBytes placed[k] (k == 0)
  below : ∀ i, i < multiHeaderOff →
    loader.getD i 0 = (relocateTemplate t multiTemplateBase loaderStart).1.getD i 0

theorem patchMultiTemplate_eq {t t5 : Bytes} {placed : List RomInfo} {loaderStart : UInt32}
    (hlen : t.length = multiTemplateLen)
    (hcount : (relocateTemplate t multiTemplateBase loaderStart).2 = 125)
    (h5 : writeEntries
      (fill (blit (blit (relocateTemplate t multiTemplateBase loaderStart).1 multiHeaderOff
        (le16 (UInt16.ofNat placed.length))) (multiHeaderOff + 14)
        (le16 (UInt16.ofNat placed.length))) multiEntryOff
        (multiEntryOff + multiTemplatePopulatedEntrySlots * 28) 0x00) placed 0 = .ok t5) :
    patchMultiTemplate t placed loaderStart = .ok (patchTails t5 placed.length) := by
  have l1 : (relocateTemplate t multiTemplateBase loaderStart).1.length = 0x7080 := by
    rw [length_relocateTemplate, hlen]; rfl
  have hw1 := @writeLe16_ok (relocateTemplate t multiTemplateBase loaderStart).1 multiHeaderOff
    (UInt16.ofNat placed.length) (by rw [l1]; decide)
  have hw2 := @writeLe16_ok (blit (relocateTemplate t multiTemplateBase loaderStart).1 multiHeaderOff
    (le16 (UInt16.ofNat placed.length))) (multiHeaderOff + 14) (UInt16.ofNat placed.length)
    (by rw [length_blit (by rw [l1, length_le16]; decide), l1]; decide)
  rw [patchMultiTemplate]
  dsimp only
  rw [if_neg (by rw [hcount]; decide), hw1]
  dsimp only [bind, Except.bind]
  rw [hw2]
  dsimp only
  rw [h5]
  rfl

section Header

variable {t : Bytes} {word : UInt16}

theorem length_multiHeader (hlen : t.length = 0x7080) :
    (blit (blit t multiHeaderOff (le16 word)) (multiHeaderOff + 14) (le16 word)).length =
      0x7080 := by
  have h1 : (blit t multiHeaderOff (le16 word)).length = 0x7080 :=
    (length_blit (by rw [hlen, length_le16]; decide)).trans hlen
  exact (length_blit (by rw [h1, length_le16]; decide)).trans h1

/-- The count is written twice, and nothing else. -/
theorem getD_multiHeader {i : Nat} (hlen : t.length = 0x7080) :
    (blit (blit t multiHeaderOff (le16 word)) (multiHeaderOff + 14) (le16 word)).getD i 0 =
      if multiHeaderOff + 14 ≤ i ∧ i < multiHeaderOff + 16 then
        (le16 word).getD (i - (multiHeaderOff + 14)) 0
      else if multiHeaderOff ≤ i ∧ i < multiHeaderOff + 2 then
        (le16 word).getD (i - multiHeaderOff) 0
      else t.getD i 0 := by
  have h1 : multiHeaderOff + (le16 word).length ≤ t.length := by
    rw [hlen, length_le16]
    decide
  have h2 : multiHeaderOff + 14 + (le16 word).length ≤
      (blit t multiHeaderOff (le16 word)).length := by
    rw [length_blit h1, hlen, length_le16]
    decide
  rw [getD_blit h2, getD_blit h1, length_le16]

end Header

/-- With the right relocation count the patch succeeds. -/
theorem patchMultiTemplate_ok {t : Bytes} {placed : List RomInfo} {loaderStart : UInt32}
    (hlen : t.length = multiTemplateLen) (hslots : placed.length ≤ multiCatalogMaxEntries)
    (hcount : (relocateTemplate t multiTemplateBase loaderStart).2 = 125) :
    ∃ loader, patchMultiTemplate t placed loaderStart = .ok loader ∧
      PatchedMulti t placed loaderStart loader := by
  have l1 : (relocateTemplate t multiTemplateBase loaderStart).1.length = 0x7080 := by
    rw [length_relocateTemplate, hlen]; rfl
  let n16 := le16 (UInt16.ofNat placed.length)
  let t1 := (relocateTemplate t multiTemplateBase loaderStart).1
  let t3 := blit (blit t1 multiHeaderOff n16) (multiHeaderOff + 14) n16
  let t4 := fill t3 multiEntryOff (multiEntryOff + multiTemplatePopulatedEntrySlots * 28) 0x00
  have hh : multiHeaderOff = 0x475E := rfl
  have he : multiEntryOff = 0x476E := rfl
  have l3 : t3.length = 0x7080 := length_multiHeader l1
  have h3 : multiEntryOff + multiTemplatePopulatedEntrySlots * 28 ≤ t3.length := by rw [l3]; decide
  have l4 : t4.length = 0x7080 := (length_fill h3 (by decide)).trans l3
  simp only [multiCatalogMaxEntries] at hslots
  obtain ⟨t5, hrun, l5, hentries, hrest⟩ := @writeEntries_ok placed t4 0
    (by rw [l4]; simp only [multiEntryOff]; omega)
  have l5' : t5.length = multiTemplateLen := l5.trans l4
  -- what stands before the entries in the finished loader
  have hbefore : ∀ i, i < multiEntryOff →
      (patchTails t5 placed.length).getD i 0 = t3.getD i 0 := by
    intro i hi
    rw [getD_patchTails l5' (.inl (by omega)), hrest i (.inl (by omega)), getD_fill h3 (by decide),
      if_neg (by omega)]
  refine ⟨patchTails t5 placed.length, patchMultiTemplate_eq hlen hcount hrun, hcount,
    length_patchTails l5', ?_, ?_, ?_, ?_⟩
  · rw [← readLe16_le16 (UInt16.ofNat placed.length)]
    apply readLe16_congr
    intro k hk
    rw [hbefore _ (by omega), getD_multiHeader l1, if_neg (by omega), if_pos (by omega),
      show multiHeaderOff + k - multiHeaderOff = 0 + k by omega]
  · rw [← readLe16_le16 (UInt16.ofNat placed.length)]
    apply readLe16_congr
    intro k hk
    rw [hbefore _ (by omega), getD_multiHeader l1, if_pos (by omega),
      show multiHeaderOff + 14 + k - (multiHeaderOff + 14) = 0 + k by omega]
  · intro k hk
    have hentry := hentries k hk
    rw [Nat.zero_add] at hentry
    rw [← hentry]
    apply ext_getD (d := 0)
    · rw [length_slice, length_slice, length_patchTails l5', l5']
    · intro i hi
      rw [length_slice] at hi
      rw [getD_slice, getD_slice, if_pos (by omega), if_pos (by omega), getD_patchTails l5']
      simp only [multiEntryOff, multiFourPlusRomZeroTailOff]
      omega
  · intro i hi
    rw [hbefore i (by omega), getD_multiHeader l1, if_neg (by omega), if_neg (by omega)]

/-- The only way the patch can fail is the relocation count. -/
theorem patchMultiTemplate_cases {t : Bytes} {placed : List RomInfo} {loaderStart : UInt32}
    (hlen : t.length = multiTemplateLen) (hslots : placed.length ≤ multiCatalogMaxEntries) :
    (∃ n, patchMultiTemplate t placed loaderStart = .error (.multiRelocationCount n) ∧
        (relocateTemplate t multiTemplateBase loaderStart).2 ≠ 125) ∨
      ∃ loader, patchMultiTemplate t placed loaderStart = .ok loader ∧
        PatchedMulti t placed loaderStart loader := by
  by_cases hcount : (relocateTemplate t multiTemplateBase loaderStart).2 = 125
  · exact .inr (patchMultiTemplate_ok hlen hslots hcount)
  · left
    refine ⟨(relocateTemplate t multiTemplateBase loaderStart).2, ?_, hcount⟩
    rw [patchMultiTemplate]
    dsimp only
    rw [if_pos hcount]
    rfl

/-! ## The place of the loader -/

def Packed.grow (packed : Packed) (n : Nat) : Packed :=
  ⟨resize packed.image n 0xFF, resize packed.occupiedNonFf n false⟩

theorem PacksInto.grow {placed : List RomInfo} {packed : Packed} {size n : Nat}
    (h : PacksInto placed packed size) (hn : size ≤ n) : PacksInto placed (packed.grow n) n := by
  have hcard : (packed.grow n).card = packed.card := by
    funext a
    simp only [Packed.card, Packed.grow, getD_resize]
    split
    case isTrue => rfl
    case isFalse ha => rw [getD_eq_of_ge (by rw [h.imageSize]; omega)]
  refine ⟨length_resize, length_resize, by rw [hcard]; exact h.renders, fun a => ?_⟩
  rw [← h.occupied]
  show (resize packed.occupiedNonFf n false).getD a false = true ↔ _
  rw [getD_resize]
  split
  case isTrue => rfl
  case isFalse ha => rw [getD_eq_of_ge (by rw [h.occupiedSize]; omega)]

/-- The loader goes to the least slot, or behind an image without one. -/
def LoaderAt (image : Bytes) (copyLen loaderStart : Nat) : Prop :=
  LeastFfSlot 0 image copyLen loaderStart ∨
    ((∀ a, ¬ FfSlot 0 image copyLen a) ∧ loaderStart = up image.length 16)

theorem LoaderAt.unique {image : Bytes} {copyLen a b : Nat} (ha : LoaderAt image copyLen a)
    (hb : LoaderAt image copyLen b) : a = b := by
  rcases ha with ha | ⟨hna, rfl⟩
  · rcases hb with hb | ⟨hnb, _⟩
    · exact ha.unique hb
    · exact absurd ha.1 (hnb a)
  · rcases hb with hb | ⟨_, rfl⟩
    · exact absurd hb.1 (hna b)
    · rfl

theorem LoaderAt.dvd {image : Bytes} {copyLen a : Nat} (h : LoaderAt image copyLen a) : 16 ∣ a := by
  rcases h with h | ⟨_, rfl⟩
  · exact h.1.aligned
  · exact dvd_up _ _

/-- No ROM byte is live in the place of the loader. -/
theorem LoaderAt.vacant {placed : List RomInfo} {packed : Packed} {size copyLen a : Nat}
    (hp : PacksInto placed packed size) (h : LoaderAt packed.image copyLen a) :
    Vacant 0xFF (romBlocks placed) a (a + copyLen) := by
  rw [hp.renders.vacant_iff]
  intro i h1 h2
  rcases h with h | ⟨_, rfl⟩
  · exact ffSlot_getD h.1 h1 h2
  · have := @le_up packed.image.length 16 (by omega)
    exact getD_eq_of_ge (by omega)

theorem placeMultiLoader_spec {placed : List RomInfo} {packed : Packed} {size copyLen : Nat}
    (hp : PacksInto placed packed size) (hsize : size ≤ maxCardImage) (hcopy : 0 < copyLen) :
    (placeMultiLoader packed copyLen = .error .noLoaderSlot ∧
        (∀ a, ¬ FfSlot 0 packed.image copyLen a) ∧ up size 16 + copyLen > maxCardImage) ∨
      ∃ loaderStart packed', placeMultiLoader packed copyLen = .ok (loaderStart, packed') ∧
        LoaderAt packed.image copyLen loaderStart.toNat ∧
        PacksInto placed packed' (max size (loaderStart.toNat + copyLen)) ∧
        loaderStart.toNat + copyLen ≤ maxCardImage := by
  cases hslot : findFfSlotInImage packed.image copyLen with
  | some slot =>
    right
    have hleast := findFfSlotInImage_some hcopy hslot
    have hfits := hleast.1.fits
    rw [hp.imageSize] at hfits
    refine ⟨slot, packed, by rw [placeMultiLoader, hslot], .inl hleast, ?_, by omega⟩
    rwa [Nat.max_eq_left (by omega)]
  | none =>
    have hnone := findFfSlotInImage_none hcopy hslot
    have hup : (alignUpU64 (UInt64.ofNat packed.image.length) 16).toNat = up size 16 := by
      simp only [maxCardImage] at hsize
      rw [alignUpU64_toNat (k := 4) rfl, UInt64.toNat_ofNat', hp.imageSize,
        Nat.mod_eq_of_lt (by omega)]
      · rfl
      · rw [UInt64.toNat_ofNat', hp.imageSize, Nat.mod_eq_of_lt (by omega)]
        show _ + 16 < _
        omega
    have hge := @le_up size 16 (by omega)
    by_cases hfull : up size 16 + copyLen > maxCardImage
    · left
      refine ⟨?_, hnone, hfull⟩
      rw [placeMultiLoader, hslot]
      dsimp only
      rw [hup, if_pos hfull]
    · right
      have h32 : (UInt32.ofNat (up size 16)).toNat = up size 16 := by
        simp only [maxCardImage] at hfull
        rw [UInt32.toNat_ofNat', Nat.mod_eq_of_lt (by omega)]
      refine ⟨UInt32.ofNat (up size 16), packed.grow (up size 16 + copyLen), ?_, ?_, ?_, ?_⟩
      · rw [placeMultiLoader, hslot]
        dsimp only
        rw [hup, if_neg hfull, h32, length_resize, Packed.grow]
      · rw [h32]
        exact .inr ⟨hnone, by rw [hp.imageSize]⟩
      · rw [h32, Nat.max_eq_right (by omega)]
        exact hp.grow (by omega)
      · rw [h32]
        omega

/-! ## The card -/

/-- What a card holding `image` reads, erased behind it. -/
def cardOf (image : Bytes) (a : Nat) : UInt8 := image.getD a 0xFF

/-- A card with a loader: the branch to it in the first word, the loader, zeros in the gap before
it, and the ROMs everywhere else. -/
structure LoaderImage (placed : List RomInfo) (card : Nat → UInt8) (branch : UInt32)
    (gapStart loaderStart : Nat) (loader : Bytes) : Prop where
  headRoom : 4 ≤ gapStart
  gapLe : gapStart ≤ loaderStart
  vacant : Vacant 0xFF (romBlocks placed) gapStart (loaderStart + loader.length)
  inBranch : ∀ a, a < 4 → card a = (le32 branch).getD a 0
  inGap : ∀ a, gapStart ≤ a → a < loaderStart → card a = 0x00
  inLoader : ∀ a, loaderStart ≤ a → a < loaderStart + loader.length →
    card a = loader.getD (a - loaderStart) 0
  live : ∀ a v, 4 ≤ a → LiveRom placed a v → card a = v
  blank : ∀ a, 4 ≤ a → a < gapStart ∨ loaderStart + loader.length ≤ a →
    (∀ v, ¬ LiveRom placed a v) → card a = 0xFF

/-- Writing zeros into the gap, the branch and the loader over the rendered ROMs. -/
theorem LoaderImage.of_overlay {placed : List RomInfo} {base card : Nat → UInt8} {branch : UInt32}
    {gapStart loaderStart : Nat} {loader : Bytes} (hbase : Renders 0xFF (romBlocks placed) base)
    (hroom : 4 ≤ gapStart) (hgap : gapStart ≤ loaderStart)
    (hvacant : Vacant 0xFF (romBlocks placed) gapStart (loaderStart + loader.length))
    (hcard : card = overlay (overlay (overlay base gapStart
      (List.replicate (loaderStart - gapStart) 0x00)) 0 (le32 branch)) loaderStart loader) :
    LoaderImage placed card branch gapStart loaderStart loader := by
  have hzeros : (List.replicate (loaderStart - gapStart) (0x00 : UInt8)).length =
      loaderStart - gapStart := List.length_replicate
  have houtside : ∀ a, 4 ≤ a → a < gapStart ∨ loaderStart + loader.length ≤ a → card a = base a := by
    intro a h4 ha
    rw [hcard]
    rcases ha with ha | ha
    · rw [overlay_of_lt (by omega), overlay_of_ge (by rw [length_le32]; omega), overlay_of_lt ha]
    · rw [overlay_of_ge ha, overlay_of_ge (by rw [length_le32]; omega), overlay_of_ge (by omega)]
  refine ⟨hroom, hgap, hvacant, ?_, ?_, ?_, ?_, ?_⟩
  · intro a ha
    rw [hcard, overlay_of_lt (by omega),
      overlay_of_mem (d := 0) (Nat.zero_le a) (by rw [length_le32]; omega), Nat.sub_zero]
  · intro a h1 h2
    rw [hcard, overlay_of_lt h2, overlay_of_ge (by rw [length_le32]; omega),
      overlay_of_mem (d := 0) h1 (by omega), getD_replicate, if_pos (by omega)]
  · intro a h1 h2
    rw [hcard, overlay_of_mem h1 h2]
  · intro a v h4 hv
    rw [houtside a h4, hbase.live a v hv]
    by_cases hin : gapStart ≤ a ∧ a < loaderStart + loader.length
    · exact absurd hv (hvacant a hin.1 hin.2 v)
    · omega
  · intro a h4 ha hno
    rw [houtside a h4 ha]
    exact hbase.blank a hno

theorem cardOf_blit {image ys : Bytes} {off : Nat} (h : off + ys.length ≤ image.length) :
    cardOf (blit image off ys) = overlay (cardOf image) off ys := getD_blit_eq_overlay h

/-- Assembling never reports an overlap; without a gap, the card holds ROMs and loader. -/
theorem assembleMulti_ok {placed : List RomInfo} {packed : Packed} {t : Bytes} {loaderStart : UInt32}
    {size copyLen : Nat} (hp : PacksInto placed packed size)
    (hsize : loaderStart.toNat + copyLen ≤ size) (hcopy : copyLen ≤ t.length)
    (hvacant : Vacant 0xFF (romBlocks placed) loaderStart.toNat (loaderStart.toNat + copyLen)) :
    (∀ w, makeArmBranch loaderStart = .ok w →
      ∃ image, assembleMulti packed t loaderStart copyLen = .ok image ∧ image.length = size ∧
        LoaderImage placed (cardOf image) w loaderStart.toNat loaderStart.toNat (t.take copyLen)) ∧
    ∀ e, makeArmBranch loaderStart = .error e →
      assembleMulti packed t loaderStart copyLen = .error (.armBranch e) := by
  have hfind : ((List.range copyLen).find? fun i =>
      packed.occupiedNonFf.getD (loaderStart.toNat + i) false) = none := by
    rw [List.find?_eq_none]
    intro i hi hocc
    obtain ⟨v, hv⟩ := (hp.occupied _).mp hocc
    exact hvacant _ (by omega) (by have := List.mem_range.mp hi; omega) v hv
  have himage : ¬ loaderStart.toNat + copyLen > packed.image.length := by
    rw [hp.imageSize]; omega
  constructor
  · intro w hw
    have hhead : 4 ≤ loaderStart.toNat := by have := makeArmBranch_eq_ok.mp hw; omega
    have hfits : 0 + (le32 w).length ≤ packed.image.length := by
      rw [length_le32, hp.imageSize]; omega
    have hlen : (blit packed.image 0 (le32 w)).length = size := (length_blit hfits).trans hp.imageSize
    have htake : (t.take copyLen).length = copyLen := by rw [List.length_take]; omega
    have hroom : loaderStart.toNat + (t.take copyLen).length ≤
        (blit packed.image 0 (le32 w)).length := by
      rw [htake, hlen]; exact hsize
    refine ⟨blit (blit packed.image 0 (le32 w)) loaderStart.toNat (t.take copyLen), ?_,
      (length_blit hroom).trans hlen, ?_⟩
    · rw [assembleMulti]
      simp only [hfind, branchTo_ok.mpr hw, bind, Except.bind, if_neg himage]
      rw [writeLe32_ok (by rw [length_le32] at hfits; exact hfits)]
      rfl
    · apply LoaderImage.of_overlay hp.renders hhead (Nat.le_refl _)
      · rw [htake]; exact hvacant
      · rw [Nat.sub_self, List.replicate_zero, overlay_nil, cardOf_blit hroom, cardOf_blit hfits]
        rfl
  · intro e he
    rw [assembleMulti]
    simp only [hfind, branchTo, he, bind, Except.bind, Except.mapError]

/-! ## The whole image -/

/-- The packed image as `build_multi_image` has it before it looks for a loader slot. -/
def packedImage (placed : List RomInfo) : Bytes :=
  match packRoms placed with
  | .ok packed => packed.image
  | .error _ => []

theorem packedImage_packs {placed : List RomInfo} (h : Placed true 0 placed) :
    ∃ packed, packRoms placed = .ok packed ∧ packed.image = packedImage placed ∧
      PacksInto placed packed (baseImageSize placed) := by
  obtain ⟨packed, hrun, hpacks⟩ := packRoms_ok h
  exact ⟨packed, hrun, by rw [packedImage, hrun], hpacks⟩

theorem length_packedImage {placed : List RomInfo} (h : Placed true 0 placed) :
    (packedImage placed).length = baseImageSize placed := by
  obtain ⟨packed, _, himage, hpacks⟩ := packedImage_packs h
  rw [← himage]
  exact hpacks.imageSize

/-- The loader stands behind the header, if the ROMs reach that far. -/
theorem LoaderAt.le_of_size {placed : List RomInfo} {copyLen a n : Nat}
    (h : LoaderAt (packedImage placed) copyLen a) (hplaced : Placed true 0 placed)
    (hn : n ≤ baseImageSize placed) : min n 0xC0 ≤ a := by
  rcases h with h | ⟨_, rfl⟩
  · have := h.1.above
    omega
  · have := @le_up (packedImage placed).length 16 (by omega)
    rw [length_packedImage hplaced] at this ⊢
    omega

/-- The loader starts on the card. -/
theorem LoaderAt.le_card {placed : List RomInfo} {copyLen a : Nat}
    (h : LoaderAt (packedImage placed) copyLen a) (hplaced : Placed true 0 placed) :
    a ≤ maxCardImage := by
  rcases h with h | ⟨_, rfl⟩
  · have := h.1.fits
    omega
  · rw [length_packedImage hplaced]
    exact up_le (by omega) (baseImageSize_le fun r hr => hplaced.fits hr) (by decide)

def multiTemplate (templates : LoaderTemplates) : Bytes :=
  blit templates.multi multiCaptureGapOff multiCaptureGapBytes

theorem length_multiTemplate {templates : LoaderTemplates}
    (h : templates.multi.length = multiTemplateLen) :
    (multiTemplate templates).length = multiTemplateLen := by
  rw [multiTemplate, length_blit (by rw [h]; decide), h]

/-- The part of the loader that is copied. -/
abbrev copyLenOf (placed : List RomInfo) : Nat := loaderCopyLen placed.length multiTemplateLen

theorem loaderCopyLen_pos (n : Nat) : 0 < loaderCopyLen n multiTemplateLen := by
  unfold loaderCopyLen
  split <;> decide

theorem loaderCopyLen_le (n : Nat) : loaderCopyLen n multiTemplateLen ≤ multiTemplateLen := by
  unfold loaderCopyLen
  split <;> decide

/-- A multi-ROM image: the placed ROMs, the patched loader and where it stands. -/
structure MultiImage (templates : LoaderTemplates) (roms placed : List RomInfo) (bytes : Bytes)
    (loaderStart branch : UInt32) (loader : Bytes) : Prop where
  templateLength : templates.multi.length = multiTemplateLen
  romCount : 2 ≤ roms.length ∧ roms.length ≤ multiCatalogMaxEntries
  same : placed.map RomInfo.unplaced = (sortRoms roms).map RomInfo.unplaced
  placement : Placed true 0 placed
  loaderAt : LoaderAt (packedImage placed) (copyLenOf placed) loaderStart.toNat
  loaderEnd : loaderStart.toNat + copyLenOf placed ≤ maxCardImage
  patches : patchMultiTemplate (multiTemplate templates) placed loaderStart = .ok loader
  patched : PatchedMulti (multiTemplate templates) placed loaderStart loader
  makesBranch : makeArmBranch loaderStart = .ok branch
  card : LoaderImage placed (cardOf bytes) branch loaderStart.toNat loaderStart.toNat
    (loader.take (copyLenOf placed))
  size : bytes.length = max (baseImageSize placed) (loaderStart.toNat + copyLenOf placed)

/-- The errors that mean a ROM byte would be lost. -/
def BuildError.IsOverlap : BuildError → Prop
  | .packingOverlap _ => True
  | .loaderOverlap _ => True
  | _ => False

/-- Why `build_multi_image` fails. -/
inductive MultiFailure (templates : LoaderTemplates) (roms : List RomInfo) : Prop where
  | romCount (h : roms.length < 2 ∨ roms.length > multiCatalogMaxEntries)
  | unplaceable (h : ∀ placed : List RomInfo,
      placed.map RomInfo.unplaced = (sortRoms roms).map RomInfo.unplaced → ¬ Placed true 0 placed)
  | template (h : templates.multi.length ≠ multiTemplateLen)
  | noRoom (placed : List RomInfo)
      (same : placed.map RomInfo.unplaced = (sortRoms roms).map RomInfo.unplaced)
      (placement : Placed true 0 placed)
      (noSlot : ∀ a, ¬ FfSlot 0 (packedImage placed) (copyLenOf placed) a)
      (full : up (baseImageSize placed) 16 + copyLenOf placed > maxCardImage)
  | relocation (loaderStart : UInt32)
      (h : (relocateTemplate (multiTemplate templates) multiTemplateBase loaderStart).2 ≠ 125)
  | branch (placed : List RomInfo) (loaderStart : UInt32) (e : ArmBranchError)
      (same : placed.map RomInfo.unplaced = (sortRoms roms).map RomInfo.unplaced)
      (placement : Placed true 0 placed)
      (loaderAt : LoaderAt (packedImage placed) (copyLenOf placed) loaderStart.toNat)
      (h : makeArmBranch loaderStart = .error e)

/-- The steps of `build_multi_image` in a row. -/
theorem buildMultiImage_eq {templates : LoaderTemplates} {roms : List RomInfo}
    (hcount : ¬ roms.length < 2) (hslots : ¬ roms.length > multiCatalogMaxEntries)
    (htemplate : templates.multi.length = multiTemplateLen) :
    buildMultiImage templates roms =
      (placeRoms (sortRoms roms)).bind fun placed =>
        (packRoms placed).bind fun packed =>
          (placeMultiLoader packed (copyLenOf placed)).bind fun (loaderStart, packed) =>
            (patchMultiTemplate (multiTemplate templates) placed loaderStart).bind fun t =>
              (assembleMulti packed t loaderStart (copyLenOf placed)).bind fun image =>
                .ok (placed, image) := by
  rw [buildMultiImage, if_neg hcount, if_neg hslots]
  simp only [htemplate, ne_eq, not_true_eq_false, if_false, bind, pure, Except.pure]
  congr 1
  funext placed
  congr 1
  funext packed
  have hlen := length_multiTemplate htemplate
  simp only [Except.bind, copyLenOf, ← hlen, multiTemplate]

/-- The placement loop fails for size or space only. -/
theorem placeFrom_error {e : BuildError} :
    ∀ {roms : List RomInfo} {first : Bool} {cursor : UInt64},
      placeFrom roms first cursor = .error e → ¬ e.IsOverlap := by
  intro roms
  induction roms with
  | nil => intro first cursor h; cases h
  | cons r roms ih =>
    intro first cursor h
    rw [placeFrom] at h
    cases ha : multiRomSizeClassAlignment r.data.length with
    | error size =>
      rw [ha] at h
      cases h
      exact id
    | ok alignment =>
      rw [ha] at h
      dsimp only [Except.mapError, bind, Except.bind] at h
      generalize (if first = true then (0 : UInt64) else alignUpU64 cursor alignment.toUInt64) = start
        at h
      by_cases hfull : start > 0xFFFFFFFF ∨ start.toNat + r.data.length > maxCardImage
      · rw [if_pos hfull] at h
        cases h
        exact id
      · rw [if_neg hfull] at h
        cases hrest : placeFrom roms false
            (max cursor (start + UInt64.ofNat (meaningfulRomEnd r.data))) with
        | error err => rw [hrest] at h; cases h; exact ih hrest
        | ok rest => rw [hrest] at h; cases h

theorem length_placed {roms placed : List RomInfo}
    (h : placed.map RomInfo.unplaced = (sortRoms roms).map RomInfo.unplaced) :
    placed.length = roms.length := by
  have := congrArg List.length h
  simpa [sortRoms] using this

/-- Every outcome of `build_multi_image`: an error that is no overlap, or an image as described. -/
theorem buildMultiImage_cases (templates : LoaderTemplates) (roms : List RomInfo) :
    (∃ e, buildMultiImage templates roms = .error e ∧ ¬ e.IsOverlap ∧ MultiFailure templates roms) ∨
      ∃ placed bytes loaderStart branch loader,
        buildMultiImage templates roms = .ok (placed, bytes) ∧
          MultiImage templates roms placed bytes loaderStart branch loader := by
  by_cases hcount : roms.length < 2
  · left
    exact ⟨_, by rw [buildMultiImage, if_pos hcount], id, .romCount (.inl hcount)⟩
  by_cases hslots : roms.length > multiCatalogMaxEntries
  · left
    exact ⟨_, by rw [buildMultiImage, if_neg hcount, if_pos hslots], id, .romCount (.inr hslots)⟩
  cases hplace : placeRoms (sortRoms roms) with
  | error e =>
    left
    refine ⟨e, ?_, placeFrom_error hplace, .unplaceable fun placed same placement => ?_⟩
    · rw [buildMultiImage, if_neg hcount, if_neg hslots, hplace]
      rfl
    · rw [placeRoms_iff.mpr ⟨same, placement⟩] at hplace
      cases hplace
  | ok placed =>
    obtain ⟨same, placement⟩ := placeRoms_iff.mp hplace
    have hlen := length_placed same
    obtain ⟨packed, hpack, himage, hpacks⟩ := packedImage_packs placement
    by_cases htemplate : templates.multi.length = multiTemplateLen
    case neg =>
      left
      refine ⟨.multiTemplateLength, ?_, id, .template htemplate⟩
      rw [buildMultiImage, if_neg hcount, if_neg hslots, hplace]
      dsimp only [bind, Except.bind]
      rw [hpack]
      dsimp only
      rw [if_pos htemplate]
      rfl
    have hmulti := length_multiTemplate htemplate
    have hsize : baseImageSize placed ≤ maxCardImage :=
      baseImageSize_le fun r hr => placement.fits hr
    rw [buildMultiImage_eq hcount hslots htemplate, hplace]
    simp only [Except.bind, hpack]
    rcases placeMultiLoader_spec hpacks hsize (loaderCopyLen_pos placed.length) with
      ⟨hrun, hnone, hfull⟩ | ⟨loaderStart, packed', hrun, hat, hpacks', hend⟩
    · left
      rw [himage] at hnone
      exact ⟨.noLoaderSlot, by rw [hrun], id, .noRoom placed same placement hnone hfull⟩
    rw [himage] at hat
    rcases @patchMultiTemplate_cases _ _ loaderStart hmulti
      (by rw [hlen]; exact Nat.not_lt.mp hslots) with ⟨n, hpatch, hreloc⟩ | ⟨loader, hpatch, hpatched⟩
    · left
      exact ⟨.multiRelocationCount n, by rw [hrun]; dsimp only; rw [hpatch], id,
        .relocation loaderStart hreloc⟩
    have hloader : copyLenOf placed ≤ loader.length := by
      rw [hpatched.length]
      exact loaderCopyLen_le placed.length
    obtain ⟨hok, hbad⟩ := assembleMulti_ok hpacks' (Nat.le_max_right _ _) hloader
      (LoaderAt.vacant hpacks (by rw [himage]; exact hat))
    cases hbranch : makeArmBranch loaderStart with
    | error e =>
      left
      exact ⟨.armBranch e, by rw [hrun]; dsimp only; rw [hpatch]; dsimp only; rw [hbad e hbranch],
        id, .branch placed loaderStart e same placement hat hbranch⟩
    | ok branch =>
      right
      obtain ⟨bytes, hassemble, hbytes, hcard⟩ := hok branch hbranch
      refine ⟨placed, bytes, loaderStart, branch, loader, ?_, ?_⟩
      · rw [hrun]; dsimp only; rw [hpatch]; dsimp only; rw [hassemble]
      · exact ⟨htemplate, ⟨Nat.not_lt.mp hcount, Nat.not_lt.mp hslots⟩, same, placement, hat, hend,
          hpatch, hpatched, hbranch, hcard, hbytes⟩

end Ezfadvance
