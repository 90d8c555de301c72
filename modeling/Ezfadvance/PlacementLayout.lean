import Ezfadvance.Extraction

/-!
# PlacementLayout

What the placement of several ROMs looks like, and when it never fails.

* `placement_layout`: the starts, the size classes and what the catalog says of them.
* `placeFrom_isOk`: sizes that are powers of two, in descending order, fill the card without a gap;
  each sum of sizes is a multiple of the next size, and the cursor never passes it.
* `placement_completes`: so powers of two that fit in total are placed.
-/

namespace Ezfadvance

open CartridgeFormat Rounding

/-! ## The layout -/

/-- What holds of the data of every ROM handed in holds of every placed ROM. -/
theorem forall_data_of_same {roms placed : List RomInfo} {P : Bytes → Prop}
    (h : placed.map RomInfo.unplaced = (sortRoms roms).map RomInfo.unplaced)
    (hall : ∀ r ∈ roms, P r.data) : ∀ r ∈ placed, P r.data := by
  intro r hr
  have hmem : r.unplaced ∈ (sortRoms roms).map RomInfo.unplaced := h ▸ List.mem_map_of_mem hr
  obtain ⟨q, hq, heq⟩ := List.mem_map.mp hmem
  rw [← RomInfo.data_of_unplaced heq]
  exact hall q ((sortRoms_perm roms).subset hq)

/-- After the placement the starts increase from 0. Each start is a multiple of the ROM's size class,
with room for the class below 32 MiB; it survives the packing, and the type that the analyzer gives
to the ROM names the class. -/
theorem placement_layout {roms placed : List RomInfo} (hdata : ∀ r ∈ roms, 0 < r.data.length)
    (hrun : placeRoms (sortRoms roms) = .ok placed) :
    placed.map RomInfo.unplaced = (sortRoms roms).map RomInfo.unplaced ∧
    (∀ r, placed[0]? = some r → r.start = 0) ∧
    placed.Pairwise (fun p q => p.start < q.start) ∧
    ∀ r ∈ placed, ∃ sizeClass,
      IsLeast {q | (∃ k, q = 2 ^ k) ∧ max programBlock r.data.length ≤ q} sizeClass ∧
      sizeClass ∣ r.start.toNat ∧ r.start.toNat + sizeClass ≤ maxCardImage ∧
      (packedStartOf r >>> 8) * 2 = r.start ∧
      ∃ type, entryType r.data.length = .ok type ∧
        ∀ entry : CatalogEntry, entry.start = r.start → entry.type = type →
          ∃ stop, entry.storedEnd 0x02000000 = some stop ∧
            stop.toNat = r.start.toNat + sizeClass - 1 := by
  obtain ⟨same, placement⟩ := placeRoms_iff.mp hrun
  have hpos : ∀ r ∈ placed, 0 < r.data.length :=
    forall_data_of_same (P := fun data => 0 < data.length) same hdata
  refine ⟨same, fun r hr => placement.head_start hr, ?_, fun r hr => ?_⟩
  · refine placement.pairwise.imp_of_mem fun {p q} hp _ hpq => ?_
    have hmin := @meaningfulRomEnd_ge p.data
    have := hpos p hp
    rw [UInt32.lt_iff_toNat_lt]
    rw [romEnd] at hpq
    omega
  · have hfits := placement.fits hr
    have hlen := hpos r hr
    obtain ⟨type, htype⟩ := @entryType_isOk r.data.length (by omega)
    obtain ⟨_, hnine, hclass⟩ := entryType_spec htype
    have hdvd := placement.class_dvd hr hclass
    have hblock := placement.block_dvd hr
    have hstart : r.start.toNat < 2 ^ 25 := by
      simp only [maxCardImage] at hfits
      omega
    refine ⟨_, PowCeil.isLeast hclass, hdvd, ?_, (packedStart_unpack ?_ hstart).1, type, htype, ?_⟩
    · exact add_le_of_dvd_of_lt hdvd (hclass.dvd_card (by omega)) hstart
    · simp only [programBlock] at hblock
      omega
    · rintro entry hs rfl
      rw [← hs] at hdvd hstart
      obtain ⟨stop, hstop, hvalue, _⟩ := storedEnd_of_class hnine hdvd hstart
      refine ⟨stop, hstop, ?_⟩
      rw [← hs]
      omega

theorem placement_layout_headers :
    placeRoms (sortRoms [headerRom 0, headerRom 0]) = .ok [headerRom 0, headerRom 0x10000] ∧
      ∀ r ∈ [headerRom 0, headerRom 0x10000], ∃ sizeClass,
        sizeClass ∣ r.start.toNat ∧ r.start.toNat + sizeClass ≤ maxCardImage := by
  have hsort : sortRoms [headerRom 0, headerRom 0] = [headerRom 0, headerRom 0] :=
    sortRoms_of_sizes (by simp)
  have hrun : placeRoms (sortRoms [headerRom 0, headerRom 0]) =
      .ok [headerRom 0, headerRom 0x10000] := by
    rw [hsort]
    exact placeRoms_iff.mpr ⟨rfl, headerRoms_placed⟩
  obtain ⟨_, _, _, hlayout⟩ := placement_layout (by simp [length_gameRom]) hrun
  refine ⟨hrun, fun r hr => ?_⟩
  obtain ⟨sizeClass, _, hdvd, hroom, _⟩ := hlayout r hr
  exact ⟨sizeClass, hdvd, hroom⟩

/-! ## Sizes that are powers of two -/

/-- A file size that is a size class. -/
def PowerSized (r : RomInfo) : Prop := ∃ k, 16 ≤ k ∧ r.data.length = 2 ^ k

theorem PowerSized.sizeClass {r : RomInfo} (h : PowerSized r) :
    SizeClass r.data.length r.data.length := by
  obtain ⟨k, hk, hlen⟩ := h
  have hblock : 2 ^ 16 ≤ 2 ^ k := Nat.pow_le_pow_right (by omega) hk
  rw [hlen, SizeClass, show max programBlock (2 ^ k) = 2 ^ k from Nat.max_eq_right hblock]
  exact powCeil_pow k

/-- A smaller power divides a larger one. -/
theorem PowerSized.dvd {p q : RomInfo} (hp : PowerSized p) (hq : PowerSized q)
    (h : q.data.length ≤ p.data.length) : q.data.length ∣ p.data.length :=
  hq.sizeClass.dvd_of_le hp.sizeClass h

/-- The invariant: the sum of the sizes before is a multiple of every size that follows, and the
cursor is not behind it. -/
theorem placeFrom_isOk {roms : List RomInfo} {first : Bool} {cursor : UInt64} {sum : Nat}
    (hsize : ∀ r ∈ roms, PowerSized r)
    (hsorted : roms.Pairwise fun p q => q.data.length ≤ p.data.length)
    (hcursor : cursor.toNat ≤ sum) (hdvd : ∀ r ∈ roms, r.data.length ∣ sum)
    (htotal : sum + (roms.map fun r => r.data.length).sum ≤ maxCardImage) :
    ∃ placed, placeFrom roms first cursor = .ok placed := by
  induction roms generalizing first cursor sum with
  | nil => exact ⟨[], rfl⟩
  | cons r roms ih =>
    obtain ⟨hr, hrest⟩ := List.forall_mem_cons.mp hsize
    obtain ⟨hle, hsorted⟩ := List.pairwise_cons.mp hsorted
    obtain ⟨hrdvd, hdvd⟩ := List.forall_mem_cons.mp hdvd
    rw [List.map_cons, List.sum_cons] at htotal
    obtain ⟨a, start, cursor', ha, hstart, _, hfit⟩ :=
      @placeFrom_cons first r roms cursor (by omega) (by omega)
    have hclass : a.toNat = r.data.length := PowCeil.unique ha hr.sizeClass
    have hsum : start.toNat ≤ sum := by
      rw [hstart, hclass]
      split
      · exact Nat.zero_le _
      · exact up_le (PowCeil.pos hr.sizeClass) hcursor hrdvd
    obtain ⟨_, hcursor', hplace⟩ := hfit (by omega)
    have hmeaningful := @meaningfulRomEnd_le r.data
    have hnext : cursor'.toNat ≤ sum + r.data.length := by omega
    obtain ⟨placed, hplaced⟩ := @ih false cursor' (sum + r.data.length) hrest hsorted hnext
      (fun q hq => Nat.dvd_add (hdvd q hq) (hr.dvd (hrest q hq) (hle q hq))) (by omega)
    exact ⟨{ r with start := start.toUInt32 } :: placed, by rw [hplace, hplaced]; rfl⟩

/-- ROMs whose sizes are powers of two from 64 KiB on are placed if they fit in total, in whatever
order they are handed in and whatever they hold. -/
theorem placement_completes {roms : List RomInfo} (hsize : ∀ r ∈ roms, PowerSized r)
    (htotal : (roms.map fun r => r.data.length).sum ≤ maxCardImage) :
    ∃ placed, placeRoms (sortRoms roms) = .ok placed := by
  have hperm := sortRoms_perm roms
  refine @placeFrom_isOk _ _ _ 0 (fun r hr => hsize r (hperm.subset hr)) (sortRoms_pairwise roms)
    (Nat.le_refl 0) (fun _ _ => Nat.dvd_zero _) ?_
  rw [Nat.zero_add, (hperm.map fun r => r.data.length).sum_nat]
  exact htotal

/-- A ROM of one block that holds nothing. -/
def blockRom : RomInfo where
  name := ascii "BLOCK"
  data := List.replicate 0x10000 0xFF

theorem placement_completes_blocks : ∃ placed, placeRoms (sortRoms [blockRom, blockRom]) =
    .ok placed := by
  have hlen : blockRom.data.length = 0x10000 := List.length_replicate
  have hsize : PowerSized blockRom := ⟨16, Nat.le_refl 16, hlen⟩
  refine placement_completes (by simp [hsize]) ?_
  simp only [List.map_cons, List.map_nil, List.sum_cons, List.sum_nil, hlen]
  decide

end Ezfadvance
