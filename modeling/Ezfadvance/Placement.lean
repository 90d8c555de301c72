import Ezfadvance.Lib.Overlay
import Ezfadvance.ImageParts

/-!
# Placement

Where `build_multi_image` puts the ROMs, and what the packed image is.

* `Placed`: each ROM starts at the next multiple of its size class behind the meaningful bytes of
  those before it. `placeFrom_iff`: the placement loop computes exactly this.
* `Placed.pairwise`: no ROM starts before the meaningful end of an earlier one.
* `copyBytes_ok`, `copyRoms_ok`: under that order the copy raises no overlap, whatever the ROMs
  hold; `packRoms_ok`: the packed image renders the ROMs (`Overlay.Renders`).
-/

namespace Ezfadvance

open Segments Rounding Overlay

/-- The ROM as it was handed in. -/
def RomInfo.unplaced (r : RomInfo) : RomInfo := { r with start := 0 }

theorem RomInfo.eq_of_unplaced {p r : RomInfo} (h : p.unplaced = r.unplaced) :
    p = { r with start := p.start } := by
  cases p
  cases r
  simp only [RomInfo.unplaced, RomInfo.mk.injEq] at h ⊢
  exact ⟨h.1, h.2.1, trivial, h.2.2.2⟩

theorem RomInfo.data_of_unplaced {p r : RomInfo} (h : p.unplaced = r.unplaced) :
    p.data = r.data := by rw [RomInfo.eq_of_unplaced h]

def romEnd (r : RomInfo) : Nat := r.start.toNat + meaningfulRomEnd r.data

/-- A placement behind `cursor`; the very first ROM of a card starts at 0. -/
def Placed : Bool → Nat → List RomInfo → Prop
  | _, _, [] => True
  | first, cursor, r :: roms =>
    (∃ sizeClass, SizeClass r.data.length sizeClass ∧
      r.start.toNat = if first then 0 else up cursor sizeClass) ∧
    r.start.toNat + r.data.length ≤ maxCardImage ∧ Placed false (max cursor (romEnd r)) roms

theorem SizeClass.toNat_alignUp {n : Nat} {a : UInt32} {cursor : UInt64} (ha : SizeClass n a.toNat)
    (hn : n ≤ maxCardImage) (hc : cursor.toNat ≤ maxCardImage) :
    (alignUpU64 cursor a.toUInt64).toNat = up cursor.toNat a.toNat := by
  have hle : a.toNat ≤ maxCardImage := Nat.le_of_dvd (by decide) (ha.dvd_card hn)
  obtain ⟨k, hk, _, _⟩ := ha
  simp only [maxCardImage] at hle hc
  rw [alignUpU64_toNat (k := k) (by rw [UInt32.toNat_toUInt64, hk])
    (by rw [UInt32.toNat_toUInt64]; omega), UInt32.toNat_toUInt64]

theorem toNat_max_u64 (a b : UInt64) : (max a b).toNat = max a.toNat b.toNat := by
  show (if a ≤ b then b else a).toNat = _
  split
  case isTrue h => rw [UInt64.le_iff_toNat_le] at h; omega
  case isFalse h => rw [UInt64.le_iff_toNat_le] at h; omega

/-- One turn of the placement loop, in plain arithmetic. -/
theorem placeFrom_cons {first : Bool} {r : RomInfo} {roms : List RomInfo} {cursor : UInt64}
    (hlen : r.data.length ≤ maxCardImage) (hcursor : cursor.toNat ≤ maxCardImage) :
    ∃ (a : UInt32) (start cursor' : UInt64), SizeClass r.data.length a.toNat ∧
      start.toNat = (if first then 0 else up cursor.toNat a.toNat) ∧
      (start.toNat + r.data.length > maxCardImage →
        placeFrom (r :: roms) first cursor = .error (.placementExceedsCard r.name)) ∧
      (start.toNat + r.data.length ≤ maxCardImage →
        start.toUInt32.toNat = start.toNat ∧
        cursor'.toNat = max cursor.toNat (start.toNat + meaningfulRomEnd r.data) ∧
        placeFrom (r :: roms) first cursor =
          (placeFrom roms false cursor').map ({ r with start := start.toUInt32 } :: ·)) := by
  obtain ⟨a, ha, hclass⟩ := multiRomSizeClassAlignment_spec hlen
  refine ⟨a, if first then 0 else alignUpU64 cursor a.toUInt64,
    max cursor ((if first then 0 else alignUpU64 cursor a.toUInt64) +
      UInt64.ofNat (meaningfulRomEnd r.data)), hclass, ?_, ?_, ?_⟩
  · cases first with
    | true => rfl
    | false => exact hclass.toNat_alignUp hlen hcursor
  · intro hfull
    rw [placeFrom, ha]
    dsimp only [Except.mapError, bind, Except.bind]
    rw [if_pos (.inr hfull)]
    rfl
  · intro hfit
    have hm := @meaningfulRomEnd_le r.data
    simp only [maxCardImage] at hfit hlen
    refine ⟨?_, ?_, ?_⟩
    · rw [UInt64.toNat_toUInt32, Nat.mod_eq_of_lt (by omega)]
    · rw [toNat_max_u64, UInt64.toNat_add, UInt64.toNat_ofNat',
        Nat.mod_eq_of_lt (by omega : meaningfulRomEnd r.data < 2 ^ 64), Nat.mod_eq_of_lt (by omega)]
    · have hsmall : ¬ (if first then 0 else alignUpU64 cursor a.toUInt64) > 0xFFFFFFFF := by
        rw [gt_iff_lt, UInt64.lt_iff_toNat_lt]
        show ¬ 0xFFFFFFFF < _
        omega
      rw [placeFrom, ha]
      dsimp only [Except.mapError, bind, Except.bind]
      rw [if_neg (by rintro (h | h); exacts [hsmall h, by simp only [maxCardImage] at h; omega])]
      cases placeFrom roms false (max cursor ((if first then 0 else alignUpU64 cursor a.toUInt64) +
          UInt64.ofNat (meaningfulRomEnd r.data))) with
      | error e => rfl
      | ok placed => rfl

/-- A placement of a list that starts with `r` puts `r` first. -/
theorem Placed.of_cons {first : Bool} {cursor : Nat} {r : RomInfo} {roms placed : List RomInfo}
    (hmap : placed.map RomInfo.unplaced = (r :: roms).map RomInfo.unplaced)
    (hplaced : Placed first cursor placed) :
    ∃ (start : UInt32) (rest : List RomInfo), placed = { r with start := start } :: rest ∧
      rest.map RomInfo.unplaced = roms.map RomInfo.unplaced ∧
      Placed first cursor ({ r with start := start } :: rest) := by
  cases placed with
  | nil => simp at hmap
  | cons p rest =>
    rw [List.map_cons, List.map_cons, List.cons.injEq] at hmap
    have hp := RomInfo.eq_of_unplaced hmap.1
    rw [hp] at hplaced
    exact ⟨p.start, rest, by rw [← hp], hmap.2, hplaced⟩

/-- The start of the first ROM of a placement, from its size class. -/
theorem Placed.start_eq {first : Bool} {cursor a : Nat} {r : RomInfo} {roms : List RomInfo}
    (hplaced : Placed first cursor (r :: roms)) (ha : SizeClass r.data.length a) :
    r.start.toNat = if first then 0 else up cursor a := by
  obtain ⟨⟨c, hc, hstart⟩, _⟩ := hplaced
  rw [hstart, PowCeil.unique hc ha]

/-- A placement of a list is its first ROM at the place its size class gives, and a placement of the
others behind it. -/
theorem Placed.cons_iff {first : Bool} {cursor a : Nat} {r : RomInfo} {roms placed : List RomInfo}
    {start : UInt32} (ha : SizeClass r.data.length a)
    (hstart : start.toNat = if first then 0 else up cursor a) :
    (placed.map RomInfo.unplaced = (r :: roms).map RomInfo.unplaced ∧
        Placed first cursor placed) ↔
      ∃ rest, placed = { r with start := start } :: rest ∧
        rest.map RomInfo.unplaced = roms.map RomInfo.unplaced ∧
        start.toNat + r.data.length ≤ maxCardImage ∧
        Placed false (max cursor (romEnd { r with start := start })) rest := by
  constructor
  · rintro ⟨hmap, hplaced⟩
    obtain ⟨s, rest, rfl, hrest, hplaced⟩ := Placed.of_cons hmap hplaced
    obtain rfl : s = start := UInt32.toNat_inj.mp ((hplaced.start_eq ha).trans hstart.symm)
    exact ⟨rest, rfl, hrest, hplaced.2.1, hplaced.2.2⟩
  · rintro ⟨rest, rfl, hmap, hend, hplaced⟩
    exact ⟨by simp [RomInfo.unplaced, hmap], ⟨_, ha, hstart⟩, hend, hplaced⟩

/-- The placement loop returns the ROMs, placed, and nothing else. -/
theorem placeFrom_iff {first : Bool} :
    ∀ {roms placed : List RomInfo} {cursor : UInt64}, cursor.toNat ≤ maxCardImage →
      (placeFrom roms first cursor = .ok placed ↔
        placed.map RomInfo.unplaced = roms.map RomInfo.unplaced ∧
          Placed first cursor.toNat placed) := by
  intro roms
  induction roms generalizing first with
  | nil =>
    intro placed cursor _
    constructor
    · intro h; cases h; exact ⟨rfl, trivial⟩
    · rintro ⟨h, _⟩
      rw [List.map_nil, List.map_eq_nil_iff] at h
      rw [h]
      rfl
  | cons r roms ih =>
    intro placed cursor hcursor
    by_cases hlen : r.data.length ≤ maxCardImage
    · obtain ⟨a, start, cursor', hclass, hstart, hfull, hfit⟩ :=
        @placeFrom_cons first r roms cursor hlen hcursor
      have hm := @meaningfulRomEnd_le r.data
      by_cases hend : start.toNat + r.data.length ≤ maxCardImage
      · obtain ⟨h32, hcursor', hrun⟩ := hfit hend
        have hnext : cursor'.toNat ≤ maxCardImage := by omega
        have hcur : max cursor.toNat (romEnd { r with start := start.toUInt32 }) =
            cursor'.toNat := by
          rw [hcursor', romEnd, h32]
        rw [hrun, Placed.cons_iff hclass (h32.trans hstart), hcur]
        constructor
        · intro h
          cases hrest : placeFrom roms false cursor' with
          | error e => rw [hrest] at h; cases h
          | ok rest =>
            rw [hrest] at h
            cases h
            obtain ⟨hmap, hplaced⟩ := (ih hnext).mp hrest
            exact ⟨rest, rfl, hmap, by rwa [h32], hplaced⟩
        · rintro ⟨rest, rfl, hmap, _, hplaced⟩
          rw [(ih hnext).mpr ⟨hmap, hplaced⟩]
          rfl
      · rw [hfull (by omega)]
        refine ⟨(by intro h; cases h), ?_⟩
        rintro ⟨hmap, hplaced⟩
        obtain ⟨s, rest, rfl, _, hplaced⟩ := Placed.of_cons hmap hplaced
        have hpend := hplaced.2.1
        rw [hplaced.start_eq hclass, ← hstart] at hpend
        exact absurd hpend hend
    · have herror : multiRomSizeClassAlignment r.data.length = .error .romFileExceedsCapacity := by
        rw [multiRomSizeClassAlignment, if_pos (by omega)]
      rw [placeFrom, herror]
      refine ⟨(by intro h; cases h), ?_⟩
      rintro ⟨hmap, hplaced⟩
      obtain ⟨s, rest, rfl, _, hplaced⟩ := Placed.of_cons hmap hplaced
      have hpend := hplaced.2.1
      dsimp only at hpend
      omega

theorem placeRoms_iff {roms placed : List RomInfo} :
    placeRoms roms = .ok placed ↔
      placed.map RomInfo.unplaced = roms.map RomInfo.unplaced ∧ Placed true 0 placed :=
  placeFrom_iff (by decide)

/-! ## What a placement says -/

/-- Behind the first ROM every start lies at or behind the cursor. -/
theorem Placed.cursor_le {placed : List RomInfo} {cursor : Nat} (h : Placed false cursor placed)
    {r : RomInfo} (hr : r ∈ placed) : cursor ≤ r.start.toNat := by
  induction placed generalizing cursor with
  | nil => cases hr
  | cons p placed ih =>
    obtain ⟨⟨c, hc, hstart⟩, _, hrest⟩ := h
    rcases List.mem_cons.mp hr with rfl | hr
    · rw [hstart]
      exact le_up (PowCeil.pos hc)
    · have := ih hrest hr
      omega

/-- No ROM starts before the meaningful end of an earlier one. -/
theorem Placed.pairwise {placed : List RomInfo} {first : Bool} {cursor : Nat}
    (h : Placed first cursor placed) : placed.Pairwise fun p q => romEnd p ≤ q.start.toNat := by
  induction placed generalizing first cursor with
  | nil => exact .nil
  | cons p placed ih =>
    obtain ⟨_, _, hrest⟩ := h
    refine .cons (fun q hq => ?_) (ih hrest)
    have := hrest.cursor_le hq
    omega

theorem Placed.fits {placed : List RomInfo} {first : Bool} {cursor : Nat}
    (h : Placed first cursor placed) {r : RomInfo} (hr : r ∈ placed) :
    r.start.toNat + r.data.length ≤ maxCardImage := by
  induction placed generalizing first cursor with
  | nil => cases hr
  | cons p placed ih =>
    obtain ⟨_, hfit, hrest⟩ := h
    rcases List.mem_cons.mp hr with rfl | hr
    · exact hfit
    · exact ih hrest hr

/-- Every start is a multiple of the ROM's size class. -/
theorem Placed.class_dvd {placed : List RomInfo} {first : Bool} {cursor : Nat}
    (h : Placed first cursor placed) {r : RomInfo} (hr : r ∈ placed) {c : Nat}
    (hc : SizeClass r.data.length c) : c ∣ r.start.toNat := by
  induction placed generalizing first cursor with
  | nil => cases hr
  | cons p placed ih =>
    obtain ⟨⟨d, hd, hstart⟩, _, hrest⟩ := h
    rcases List.mem_cons.mp hr with rfl | hr
    · rw [hstart, PowCeil.unique hc hd]
      cases first with
      | true => exact Nat.dvd_zero _
      | false => exact dvd_up _ _
    · exact ih hrest hr

theorem Placed.block_dvd {placed : List RomInfo} {first : Bool} {cursor : Nat}
    (h : Placed first cursor placed) {r : RomInfo} (hr : r ∈ placed) :
    programBlock ∣ r.start.toNat := by
  have hlen : r.data.length ≤ maxCardImage := by have := h.fits hr; omega
  obtain ⟨a, _, ha⟩ := multiRomSizeClassAlignment_spec hlen
  exact Nat.dvd_trans ha.block_dvd (h.class_dvd hr ha)

/-! ## The copy -/

def romBlock (r : RomInfo) : Block UInt8 := ⟨r.start.toNat, r.data⟩

def romBlocks (placed : List RomInfo) : List (Block UInt8) := placed.map romBlock

/-- Live ROM bytes: what the ROMs put on the card that is not `FF`. -/
abbrev LiveRom (placed : List RomInfo) : Nat → UInt8 → Prop := Live 0xFF (romBlocks placed)

theorem liveRom_iff {placed : List RomInfo} {a : Nat} {v : UInt8} :
    LiveRom placed a v ↔
      v ≠ 0xFF ∧ ∃ r ∈ placed, r.start.toNat ≤ a ∧ r.data[a - r.start.toNat]? = some v := by
  simp only [LiveRom, Live, romBlocks, List.mem_map, romBlock]
  grind

/-- Live bytes lie before the meaningful end of their ROM. -/
theorem lt_romEnd {r : RomInfo} {a : Nat} {v : UInt8} (h1 : r.start.toNat ≤ a)
    (h2 : r.data[a - r.start.toNat]? = some v) (hv : v ≠ 0xFF) : a < romEnd r := by
  have := lt_meaningfulRomEnd h2 hv
  unfold romEnd
  omega

def Packed.card (packed : Packed) (a : Nat) : UInt8 := packed.image.getD a 0xFF

/-- The image renders the ROMs `placed` and the occupied bytes are the live ones. -/
structure PacksInto (placed : List RomInfo) (packed : Packed) (size : Nat) : Prop where
  imageSize : packed.image.length = size
  occupiedSize : packed.occupiedNonFf.length = size
  renders : Renders 0xFF (romBlocks placed) packed.card
  occupied : ∀ a, packed.occupiedNonFf.getD a false = true ↔ ∃ v, LiveRom placed a v

theorem copyBytes_ok {data : Bytes} :
    ∀ {dst : Nat} {packed : Packed}, packed.occupiedNonFf.length = packed.image.length →
      dst + data.length ≤ packed.image.length →
      (∀ j b, data[j]? = some b → b ≠ 0xFF → packed.occupiedNonFf.getD (dst + j) false = false) →
      ∃ occupied, copyBytes data dst packed = .ok ⟨blit packed.image dst data, occupied⟩ ∧
        occupied.length = packed.image.length ∧
        ∀ a, occupied.getD a false = true ↔ packed.occupiedNonFf.getD a false = true ∨
          (dst ≤ a ∧ ∃ b, data[a - dst]? = some b ∧ b ≠ 0xFF) := by
  induction data with
  | nil =>
    intro dst packed hlen hfit _
    refine ⟨packed.occupiedNonFf, ?_, hlen, fun a => by simp⟩
    simp [copyBytes, blit]
  | cons b data ih =>
    intro dst packed hlen hfit hfree
    simp only [List.length_cons] at hfit
    have hhere : ¬ (packed.occupiedNonFf.getD dst false = true ∧ b ≠ 0xFF) := by
      rintro ⟨h1, h2⟩
      have := hfree 0 b rfl h2
      rw [Nat.add_zero, h1] at this
      cases this
    let occ := if b ≠ 0xFF then packed.occupiedNonFf.set dst true else packed.occupiedNonFf
    have hocc : ∀ a, occ.getD a false = true ↔
        packed.occupiedNonFf.getD a false = true ∨ (a = dst ∧ b ≠ 0xFF) := by
      intro a
      by_cases hb : b ≠ 0xFF
      · simp only [occ, if_pos hb, getD_set]
        by_cases ha : a = dst
        · simp [ha, hb, show dst < packed.occupiedNonFf.length by omega]
        · simp [ha]
      · simp only [occ, if_neg hb]
        simp [hb]
    have hocclen : occ.length = packed.image.length := by
      simp only [occ]
      split
      · rw [List.length_set, hlen]
      · exact hlen
    obtain ⟨occupied, hrun, holen, hiff⟩ := @ih (dst + 1) ⟨packed.image.set dst b, occ⟩
      (by rw [List.length_set]; exact hocclen) (by rw [List.length_set]; omega)
      (by
        intro j c hj hc
        have hold := hfree (j + 1) c hj hc
        rw [show dst + 1 + j = dst + (j + 1) by omega]
        rw [Bool.eq_false_iff, ne_eq, hocc]
        rintro (h | ⟨h, _⟩)
        · rw [h] at hold; cases hold
        · omega)
    refine ⟨occupied, ?_, by rw [holen, List.length_set], ?_⟩
    · rw [copyBytes, if_neg hhere, hrun, blit_cons (by omega)]
    · intro a
      rw [hiff, hocc]
      by_cases ha : a = dst
      · subst ha
        simp
      · by_cases hlt : dst + 1 ≤ a
        · rw [show a - dst = (a - (dst + 1)) + 1 by omega, List.getElem?_cons_succ]
          simp [ha, hlt, show dst ≤ a by omega]
        · simp [ha, hlt, show ¬ dst ≤ a by omega]

/-- The copy loop, for ROMs that start behind the live bytes of those already copied. -/
theorem copyRoms_ok {roms : List RomInfo} :
    ∀ {done : List RomInfo} {packed : Packed} {size : Nat}, PacksInto done packed size →
      (∀ r ∈ roms, r.start.toNat + r.data.length ≤ size) →
      (∀ p ∈ done, ∀ q ∈ roms, romEnd p ≤ q.start.toNat) →
      roms.Pairwise (fun p q => romEnd p ≤ q.start.toNat) →
      ∃ packed', copyRoms roms packed = .ok packed' ∧ PacksInto (done ++ roms) packed' size := by
  induction roms with
  | nil =>
    intro done packed size hdone _ _ _
    exact ⟨packed, rfl, by rwa [List.append_nil]⟩
  | cons r roms ih =>
    intro done packed size hdone hfit hbelow hpair
    obtain ⟨himage, hocc, hrenders, hoccupied⟩ := hdone
    have hrfit := hfit r (List.mem_cons_self ..)
    have hlive : ∀ a v, LiveRom done a v → a < r.start.toNat := by
      intro a v hv
      obtain ⟨hne, p, hp, h1, h2⟩ := liveRom_iff.mp hv
      exact Nat.lt_of_lt_of_le (lt_romEnd h1 h2 hne) (hbelow p hp r (List.mem_cons_self ..))
    obtain ⟨occupied, hrun, holen, hiff⟩ := @copyBytes_ok r.data r.start.toNat packed
      (by rw [hocc, himage]) (by omega)
      (by
        intro j b _ _
        rw [Bool.eq_false_iff, ne_eq, hoccupied]
        rintro ⟨v, hv⟩
        have := hlive _ v hv
        omega)
    have hnext : PacksInto (done ++ [r]) ⟨blit packed.image r.start.toNat r.data, occupied⟩ size := by
      refine ⟨?_, by rw [holen]; exact himage, ?_, ?_⟩
      · show (blit packed.image r.start.toNat r.data).length = size
        rw [length_blit (by omega), himage]
      · have hover : Packed.card ⟨blit packed.image r.start.toNat r.data, occupied⟩ =
            overlay packed.card r.start.toNat r.data := getD_blit_eq_overlay (by omega)
        rw [hover, romBlocks, List.map_append]
        exact hrenders.snoc hlive
      · intro a
        rw [hiff, hoccupied]
        simp only [LiveRom, romBlocks, List.map_append, List.map_cons, List.map_nil, live_append,
          live_singleton, romBlock]
        grind
    obtain ⟨packed', hrest, hpacks⟩ := ih hnext (fun q hq => hfit q (List.mem_cons_of_mem _ hq))
      (by
        intro p hp q hq
        rcases List.mem_append.mp hp with hp | hp
        · exact hbelow p hp q (List.mem_cons_of_mem _ hq)
        · rw [List.mem_singleton.mp hp]
          exact (List.pairwise_cons.mp hpair).1 q hq)
      (List.pairwise_cons.mp hpair).2
    refine ⟨packed', ?_, by rwa [List.append_assoc, List.singleton_append] at hpacks⟩
    rw [copyRoms, hrun]
    exact hrest

theorem packsInto_nil (size : Nat) :
    PacksInto [] ⟨List.replicate size 0xFF, List.replicate size false⟩ size := by
  refine ⟨List.length_replicate, List.length_replicate, ?_, ?_⟩
  · have hcard : Packed.card ⟨List.replicate size 0xFF, List.replicate size false⟩ =
        fun _ => 0xFF := by
      funext a
      simp only [Packed.card, getD_replicate]
      split <;> rfl
    rw [hcard]
    exact renders_nil
  · intro a
    rw [getD_replicate]
    constructor
    · intro h
      split at h <;> cases h
    · rintro ⟨v, hv⟩
      exact absurd hv live_nil

theorem foldl_max_le {roms : List RomInfo} {n : Nat} :
    n ≤ roms.foldl (fun size r => max size (r.start.toNat + r.data.length)) n ∧
      ∀ r ∈ roms, r.start.toNat + r.data.length ≤
        roms.foldl (fun size r => max size (r.start.toNat + r.data.length)) n := by
  induction roms generalizing n with
  | nil => exact ⟨Nat.le_refl n, fun r hr => nomatch hr⟩
  | cons p roms ih =>
    rw [List.foldl_cons]
    obtain ⟨h1, h2⟩ := @ih (max n (p.start.toNat + p.data.length))
    refine ⟨by omega, fun r hr => ?_⟩
    rcases List.mem_cons.mp hr with rfl | hr
    · omega
    · exact h2 r hr

theorem le_baseImageSize {roms : List RomInfo} {r : RomInfo} (hr : r ∈ roms) :
    r.start.toNat + r.data.length ≤ baseImageSize roms := foldl_max_le.2 r hr

theorem baseImageSize_le {roms : List RomInfo} {n : Nat}
    (h : ∀ r ∈ roms, r.start.toNat + r.data.length ≤ n) : baseImageSize roms ≤ n := by
  have hgen : ∀ {m : Nat}, m ≤ n →
      roms.foldl (fun size r => max size (r.start.toNat + r.data.length)) m ≤ n := by
    induction roms with
    | nil => intro m hm; exact hm
    | cons p roms ih =>
      intro m hm
      rw [List.foldl_cons]
      have hp := h p (List.mem_cons_self ..)
      exact ih (fun r hr => h r (List.mem_cons_of_mem _ hr)) (by omega)
  exact hgen (Nat.zero_le n)

/-- Packing placed ROMs never fails, and the packed image renders them. -/
theorem packRoms_ok {placed : List RomInfo} (h : Placed true 0 placed) :
    ∃ packed, packRoms placed = .ok packed ∧
      PacksInto placed packed (baseImageSize placed) := by
  obtain ⟨packed, hrun, hpacks⟩ := copyRoms_ok (packsInto_nil (baseImageSize placed))
    (fun r hr => le_baseImageSize hr) (fun p hp => nomatch hp) h.pairwise
  refine ⟨packed, ?_, by simpa using hpacks⟩
  have hle := baseImageSize_le (fun r hr => h.fits hr)
  rw [packRoms, if_neg (by omega), hrun]

end Ezfadvance
