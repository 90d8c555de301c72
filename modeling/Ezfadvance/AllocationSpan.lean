import Ezfadvance.FlashedImage
import Ezfadvance.SaveCatalogAnalyzer

/-!
# AllocationSpan

The span that the save-marker scan takes for each ROM, of any catalog and of a built image.

* `spans_disjoint`: known spans lie in the stored extents and share no address.
* `Records`: the catalog in the loader of a built image, slot by slot.
* `SpanHolds`: the span is known and holds every byte of the ROM that is not `FF`.
* `spanHolds_iff`: only the last ROM can lose bytes, to a loader in its middle.
* `LoaderInLastRom`: when the builder puts the loader there, from the ROMs alone.
* `spans_hold_iff`: the two together.
* `span_cut_at_loader`: two ROMs of which the second is not scanned to its end.
-/

namespace Ezfadvance

open Segments CartridgeFormat Rounding SaveCatalogAnalyzer

/-- The catalog that the loader of a built image holds: an entry in each slot. -/
structure Records (image : BuiltCartridgeImage) (count : Nat) (layout : Ez3CatalogLayout) :
    Prop where
  length : layout.entries.length = count
  slots : ∀ k e, layout.entries[k]? = some e → RecordedAt image (decide (count = 1)) k e

/-- The span of ROM `k`, which is the one that is scanned, holds its bytes. -/
def SpanHolds (layout : Ez3CatalogLayout) (loaderStart : UInt32) (k : Nat) (r : RomInfo) : Prop :=
  ∃ e stop, layout.entries[k]? = some e ∧
    layout.allocationEnd k loaderStart 0x02000000 = some stop ∧
    (allocationSpan layout loaderStart 0x02000000 k e).toNat = stop.toNat - e.start.toNat ∧
    ∀ j b, r.data[j]? = some b → b ≠ 0xFF →
      e.start.toNat ≤ r.start.toNat + j ∧ r.start.toNat + j < stop.toNat

/-- The ROM starts before `a` and has bytes behind it. -/
def Straddles (r : RomInfo) (a : Nat) : Prop :=
  r.start.toNat < a ∧ ∃ j b, r.data[j]? = some b ∧ b ≠ 0xFF ∧ a ≤ r.start.toNat + j

/-! ## The end of a span -/

theorem toNat_allocationSpan {layout : Ez3CatalogLayout} {loaderStart imageLimit stop : UInt32}
    {k : Nat} {e : CatalogEntry} (hentry : layout.entries[k]? = some e)
    (hend : layout.allocationEnd k loaderStart imageLimit = some stop) (hle : stop ≤ imageLimit) :
    (allocationSpan layout loaderStart imageLimit k e).toNat = stop.toNat - e.start.toNat := by
  have hgt := allocationEnd_gt hentry hend
  rw [UInt32.lt_iff_toNat_lt] at hgt
  rw [UInt32.le_iff_toNat_le] at hle
  have hstop := stop.toNat_lt
  simp only [allocationSpan, hend]
  rw [boundedSaveScanSpan, if_neg (by omega), Nat.min_eq_left hle, UInt32.toNat_ofNat',
    Nat.mod_eq_of_lt (by omega)]

/-! ## Spans of any catalog -/

section Catalog

variable {layout : Ez3CatalogLayout} {loaderStart : UInt32}

/-- The address `a` belongs to entry `k`. -/
def InSpan (layout : Ez3CatalogLayout) (loaderStart : UInt32) (k a : Nat) : Prop :=
  ∃ e stop, layout.entries[k]? = some e ∧
    layout.allocationEnd k loaderStart 0x02000000 = some stop ∧ e.start.toNat ≤ a ∧ a < stop.toNat

/-- The address `a` is scanned for the save marker of entry `k`. -/
def Scanned (layout : Ez3CatalogLayout) (loaderStart : UInt32) (k a : Nat) : Prop :=
  ∃ e, layout.entries[k]? = some e ∧ e.start.toNat ≤ a ∧
    a < e.start.toNat + (allocationSpan layout loaderStart 0x02000000 k e).toNat

theorem storedEnd_lt {e : CatalogEntry} {imageLimit stored : UInt32}
    (h : e.storedEnd imageLimit = some stored) : stored.toNat < imageLimit.toNat := by
  rw [CatalogEntry.storedEnd] at h
  split at h
  · cases h
  dsimp only at h
  split at h
  · cases h
  case isFalse hlt =>
    cases h
    rw [ge_iff_le, UInt64.le_iff_toNat_le, UInt32.toNat_toUInt64, Nat.not_le] at hlt
    have hlimit := imageLimit.toNat_lt
    rw [UInt64.toNat_toUInt32, Nat.mod_eq_of_lt (by omega)]
    exact hlt

theorem span_bounds {k : Nat} {stop : UInt32}
    (h : layout.allocationEnd k loaderStart 0x02000000 = some stop) :
    ∃ e stored, layout.entries[k]? = some e ∧ e.storedEnd 0x02000000 = some stored ∧
      e.start.toNat < stop.toNat ∧ stop.toNat ≤ stored.toNat + 1 ∧
      stored.toNat + 1 ≤ maxCardImage := by
  obtain ⟨e, stored, hentry, hstored, hgt, hle, _⟩ := allocationEnd_some h
  have hlt := storedEnd_lt hstored
  have hlimit : (0x02000000 : UInt32).toNat = maxCardImage := rfl
  rw [hlimit] at hlt
  refine ⟨e, stored, hentry, hstored, UInt32.lt_iff_toNat_lt.mp hgt, ?_, hlt⟩
  rw [UInt32.le_iff_toNat_le, UInt32.toNat_add, UInt32.toNat_one] at hle
  exact hle.trans (Nat.mod_le _ _)

/-- Over a run of entries with an allocation, each ends before every later one starts. -/
theorem span_before {i j : Nat} {e : CatalogEntry} {stop : UInt32} (hij : i < j)
    (hknown : ∀ k, i ≤ k → k ≤ j → (layout.allocationEnd k loaderStart 0x02000000).isSome)
    (hend : layout.allocationEnd i loaderStart 0x02000000 = some stop)
    (hentry : layout.entries[j]? = some e) : stop.toNat ≤ e.start.toNat := by
  induction j, hij using Nat.le_induction generalizing e with
  | base =>
    obtain ⟨_, _, _, _, _, _, hnext⟩ := allocationEnd_some hend
    exact UInt32.le_iff_toNat_le.mp (hnext e hentry)
  | succ j hij ih =>
    obtain ⟨stop', hstop'⟩ := Option.isSome_iff_exists.mp (hknown j (by omega) (by omega))
    obtain ⟨e', _, hentry', _, hgt, _, hnext⟩ := allocationEnd_some hstop'
    have hle := ih (fun k hik hkj => hknown k hik (by omega)) hentry'
    have hlt := UInt32.lt_iff_toNat_lt.mp hgt
    have hsucc := UInt32.le_iff_toNat_le.mp (hnext e hentry)
    omega

/-- What is scanned is the span. -/
theorem scanned_iff_inSpan {k a : Nat} :
    Scanned layout loaderStart k a ↔ InSpan layout loaderStart k a := by
  constructor
  · rintro ⟨e, hentry, hge, hlt⟩
    cases hend : layout.allocationEnd k loaderStart 0x02000000 with
    | none =>
      rw [allocationSpan, hend] at hlt
      exact absurd hlt (Nat.not_lt.mpr hge)
    | some stop =>
      obtain ⟨_, _, _, _, _, hle, hcard⟩ := span_bounds hend
      rw [toNat_allocationSpan hentry hend (UInt32.le_iff_toNat_le.mpr (hle.trans hcard))] at hlt
      exact ⟨e, stop, hentry, hend, hge, by omega⟩
  · rintro ⟨e, stop, hentry, hend, hge, hlt⟩
    obtain ⟨_, _, _, _, _, hle, hcard⟩ := span_bounds hend
    refine ⟨e, hentry, hge, ?_⟩
    rw [toNat_allocationSpan hentry hend (UInt32.le_iff_toNat_le.mpr (hle.trans hcard))]
    omega

/-- In any catalog, whatever its types, its starts and their order: a known allocation ends behind
its start and in its stored extent, on the card; and two of them share no address, if all between
them are known too, so that no byte is scanned for two entries. -/
theorem spans_disjoint (layout : Ez3CatalogLayout) (loaderStart : UInt32) :
    (∀ i stop, layout.allocationEnd i loaderStart 0x02000000 = some stop →
      ∃ e stored, layout.entries[i]? = some e ∧ e.storedEnd 0x02000000 = some stored ∧
        e.start.toNat < stop.toNat ∧ stop.toNat ≤ stored.toNat + 1 ∧
        stored.toNat + 1 ≤ maxCardImage) ∧
    ∀ i j, i < j →
      (∀ k, i ≤ k → k ≤ j → (layout.allocationEnd k loaderStart 0x02000000).isSome) →
      (∀ a, InSpan layout loaderStart i a → ¬ InSpan layout loaderStart j a) ∧
      ∀ a, Scanned layout loaderStart i a → ¬ Scanned layout loaderStart j a := by
  refine ⟨fun i stop => span_bounds, fun i j hij hknown => ?_⟩
  have hdisjoint : ∀ a, InSpan layout loaderStart i a → ¬ InSpan layout loaderStart j a := by
    rintro a ⟨_, stop, _, hend, _, hlt⟩ ⟨e, _, hentry, _, hge, _⟩
    have hbefore := span_before hij hknown hend hentry
    omega
  refine ⟨hdisjoint, fun a => ?_⟩
  rw [scanned_iff_inSpan, scanned_iff_inSpan]
  exact hdisjoint a

/-- The stored extents of the first two entries reach into the entry behind them, and the loader lies
in the last one. -/
def overlappingCatalog : Ez3CatalogLayout where
  kind := .multi
  entries := [
    { name := ascii "ONE", type := 4, mapping := 0, packedStart := 0, start := 0,
      targetOrStart := 0xC0 },
    { name := ascii "TWO", type := 4, mapping := 0, packedStart := 0, start := 0x00100000,
      targetOrStart := 0x00100000 },
    { name := ascii "THREE", type := 5, mapping := 0, packedStart := 0, start := 0x00200000,
      targetOrStart := 0x00200000 }]

/-- The address 0x00180000, which the stored extents of two entries hold, is scanned for one. -/
theorem spans_disjoint_overlapping :
    (∃ e stored, overlappingCatalog.entries[0]? = some e ∧ e.storedEnd 0x02000000 = some stored ∧
      0x00180000 ≤ stored.toNat) ∧
    Scanned overlappingCatalog 0x00280000 1 0x00180000 ∧
    ¬ Scanned overlappingCatalog 0x00280000 0 0x00180000 ∧
    ¬ Scanned overlappingCatalog 0x00280000 2 0x00180000 := by
  obtain ⟨_, hdisjoint⟩ := spans_disjoint overlappingCatalog 0x00280000
  have hknown : ∀ k ≤ 2,
      (overlappingCatalog.allocationEnd k 0x00280000 0x02000000).isSome = true := by decide
  have hscanned : Scanned overlappingCatalog 0x00280000 1 0x00180000 :=
    ⟨_, rfl, by decide, by decide⟩
  have h01 := hdisjoint 0 1 (by decide) fun k _ hk => hknown k (by omega)
  have h12 := hdisjoint 1 2 (by decide) fun k _ hk => hknown k hk
  exact ⟨⟨_, _, rfl, rfl, by decide⟩, hscanned, fun h => h01.2 _ h hscanned, h12.2 _ hscanned⟩

end Catalog

/-! ## Spans of a built image -/

section Spans

variable {placed : List RomInfo} {layout : Ez3CatalogLayout} {loaderStart : UInt32} {k : Nat}
  {r : RomInfo}

/-- The stored extent of a recorded entry reaches behind the ROM. -/
theorem storedEnd_recorded (placement : Placed true 0 placed) (hr : r ∈ placed)
    (hne : 0 < r.data.length) (htype : entryType r.data.length = .ok r.entryType) (first : Bool) :
    ∃ stop, (recordedEntry r first).storedEnd 0x02000000 = some stop ∧
      r.start.toNat + r.data.length ≤ stop.toNat + 1 ∧ stop.toNat < 2 ^ 25 := by
  obtain ⟨_, hnine, hclass⟩ := entryType_spec htype
  have hfits := placement.fits hr
  have hstart : r.start.toNat < 2 ^ 25 := by
    simp only [maxCardImage] at hfits
    omega
  obtain ⟨stop, hstored, hstop, hlt⟩ := @storedEnd_of_class (recordedEntry r first) hnine
    (placement.class_dvd hr hclass) hstart
  have hs : (recordedEntry r first).start = r.start := rfl
  have ht : (recordedEntry r first).type = r.entryType := rfl
  rw [hs, ht] at hstop
  have hle := hclass.le
  exact ⟨stop, hstored, by omega, hlt⟩

/-- Before another ROM the span ends at that ROM or with the stored extent: behind the meaningful
bytes. -/
theorem allocationEnd_next {next : RomInfo} (placement : Placed true 0 placed)
    (hentries : layout.entries = recordedEntries placed) (hr : placed[k]? = some r)
    (hnext : placed[k + 1]? = some next) (hne : 0 < r.data.length)
    (htype : entryType r.data.length = .ok r.entryType) :
    ∃ stop, layout.allocationEnd k loaderStart 0x02000000 = some stop ∧ stop ≤ 0x02000000 ∧
      romEnd r ≤ stop.toNat := by
  obtain ⟨hk, hget⟩ := List.getElem?_eq_some_iff.mp hr
  obtain ⟨hk', hget'⟩ := List.getElem?_eq_some_iff.mp hnext
  have hbehind : romEnd r ≤ next.start.toNat := by
    have hpair := List.pairwise_iff_getElem.mp placement.pairwise k (k + 1) hk hk' (by omega)
    rwa [hget, hget'] at hpair
  obtain ⟨stored, hstored, hreach, hlt⟩ := storedEnd_recorded placement
    (List.mem_of_getElem? hr) hne htype (k == 0)
  have hmin := @meaningfulRomEnd_ge r.data
  have hmax := @meaningfulRomEnd_le r.data
  have hsucc : (stored + 1).toNat = stored.toNat + 1 := by
    rw [UInt32.toNat_add, UInt32.toNat_one, Nat.mod_eq_of_lt (by omega)]
  have hs : (recordedEntry r (k == 0)).start = r.start := rfl
  have hs' : (recordedEntry next (k + 1 == 0)).start = next.start := rfl
  have hfit := placement.fits (List.mem_of_getElem? hnext)
  simp only [maxCardImage] at hfit
  rw [romEnd] at hbehind ⊢
  have hafter : ¬ next.start ≤ r.start := by
    rw [UInt32.le_iff_toNat_le]
    omega
  simp only [Ez3CatalogLayout.allocationEnd, hentries, recordedEntries_getElem? hr,
    recordedEntries_getElem? hnext, hstored, hs, hs', if_neg hafter]
  split
  · refine ⟨next.start, if_pos ?_, ?_, hbehind⟩
    · rw [gt_iff_lt, UInt32.lt_iff_toNat_lt]
      omega
    · rw [UInt32.le_iff_toNat_le]
      show next.start.toNat ≤ 2 ^ 25
      omega
  · refine ⟨stored + 1, if_pos ?_, ?_, by omega⟩
    · rw [gt_iff_lt, UInt32.lt_iff_toNat_lt]
      omega
    · rw [UInt32.le_iff_toNat_le, hsucc]
      exact hlt

/-- For the last ROM the span ends with the stored extent, unless the loader comes first. -/
theorem allocationEnd_last (placement : Placed true 0 placed)
    (hentries : layout.entries = recordedEntries placed) (hr : placed[k]? = some r)
    (hlast : placed[k + 1]? = none) (hne : 0 < r.data.length)
    (htype : entryType r.data.length = .ok r.entryType) :
    ∃ stop extent, layout.allocationEnd k loaderStart 0x02000000 = some stop ∧
      stop ≤ 0x02000000 ∧ r.start.toNat + r.data.length ≤ extent ∧
      stop.toNat = if r.start.toNat < loaderStart.toNat ∧ loaderStart.toNat < extent then
        loaderStart.toNat else extent := by
  obtain ⟨stored, hstored, hreach, hlt⟩ := storedEnd_recorded placement
    (List.mem_of_getElem? hr) hne htype (k == 0)
  have hsucc : (stored + 1).toNat = stored.toNat + 1 := by
    rw [UInt32.toNat_add, UInt32.toNat_one, Nat.mod_eq_of_lt (by omega)]
  have hs : (recordedEntry r (k == 0)).start = r.start := rfl
  have hnone : (recordedEntries placed)[k + 1]? = none := by
    rw [List.getElem?_eq_none_iff, length_recordedEntries]
    exact List.getElem?_eq_none_iff.mp hlast
  have hcond : (loaderStart > r.start ∧ loaderStart < stored + 1) ↔
      r.start.toNat < loaderStart.toNat ∧ loaderStart.toNat < stored.toNat + 1 := by
    rw [gt_iff_lt, UInt32.lt_iff_toNat_lt, UInt32.lt_iff_toNat_lt, hsucc]
  simp only [Ez3CatalogLayout.allocationEnd, hentries, recordedEntries_getElem? hr, hnone, hstored,
    hs]
  by_cases hloader : r.start.toNat < loaderStart.toNat ∧ loaderStart.toNat < stored.toNat + 1
  · refine ⟨loaderStart, stored.toNat + 1, ?_, ?_, hreach, (if_pos hloader).symm⟩
    · rw [if_pos (hcond.mpr hloader), if_pos (hcond.mpr hloader).1]
    · rw [UInt32.le_iff_toNat_le]
      show loaderStart.toNat ≤ 2 ^ 25
      omega
  · refine ⟨stored + 1, stored.toNat + 1, ?_, ?_, hreach, by rw [if_neg hloader, hsucc]⟩
    · rw [if_neg fun h => hloader (hcond.mp h), if_pos]
      rw [gt_iff_lt, UInt32.lt_iff_toNat_lt]
      omega
    · rw [UInt32.le_iff_toNat_le, hsucc]
      exact hlt

/-- A known span holds the ROM when it reaches behind each of its bytes. -/
theorem spanHolds_of_end {stop : UInt32} (hentries : layout.entries = recordedEntries placed)
    (hr : placed[k]? = some r) (hend : layout.allocationEnd k loaderStart 0x02000000 = some stop)
    (hle : stop ≤ 0x02000000) :
    SpanHolds layout loaderStart k r ↔
      ∀ j b, r.data[j]? = some b → b ≠ 0xFF → r.start.toNat + j < stop.toNat := by
  have hentry : layout.entries[k]? = some (recordedEntry r (k == 0)) := by
    rw [hentries]
    exact recordedEntries_getElem? hr
  constructor
  · rintro ⟨e, stop', _, hend', _, hbytes⟩ j b hj hb
    rw [hend] at hend'
    cases hend'
    exact (hbytes j b hj hb).2
  · intro hbytes
    exact ⟨_, stop, hentry, hend, toNat_allocationSpan hentry hend hle,
      fun j b hj hb => ⟨Nat.le_add_right .., hbytes j b hj hb⟩⟩

/-- Only the last ROM can lose bytes: those behind a loader that stands in its middle. -/
theorem spanHolds_iff (placement : Placed true 0 placed)
    (hentries : layout.entries = recordedEntries placed) (hr : placed[k]? = some r)
    (hne : 0 < r.data.length) (htype : entryType r.data.length = .ok r.entryType) :
    SpanHolds layout loaderStart k r ↔
      ¬ (placed[k + 1]? = none ∧ Straddles r loaderStart.toNat) := by
  cases hnext : placed[k + 1]? with
  | some next =>
    obtain ⟨stop, hend, hle, hreach⟩ :=
      @allocationEnd_next _ _ loaderStart _ _ _ placement hentries hr hnext hne htype
    rw [spanHolds_of_end hentries hr hend hle]
    refine ⟨fun _ h => (by cases h.1), fun _ j b hj hb => ?_⟩
    have := lt_meaningfulRomEnd hj hb
    rw [romEnd] at hreach
    omega
  | none =>
    obtain ⟨stop, extent, hend, hle, hreach, hstop⟩ :=
      @allocationEnd_last _ _ loaderStart _ _ placement hentries hr hnext hne htype
    rw [spanHolds_of_end hentries hr hend hle, hstop]
    constructor
    · rintro hbytes ⟨_, hbefore, j, b, hj, hb, hbehind⟩
      have hjlt := (List.getElem?_eq_some_iff.mp hj).1
      have hlt := hbytes j b hj hb
      rw [if_pos ⟨hbefore, by omega⟩] at hlt
      omega
    · intro hno j b hj hb
      have hjlt := (List.getElem?_eq_some_iff.mp hj).1
      split
      case isTrue hloader =>
        by_cases hbehind : loaderStart.toNat ≤ r.start.toNat + j
        · exact absurd ⟨rfl, hloader.1, j, b, hj, hb, hbehind⟩ hno
        · omega
      case isFalse => omega

/-- All spans hold their ROMs unless the last ROM straddles the loader. -/
theorem spansHold_iff (placement : Placed true 0 placed)
    (hentries : layout.entries = recordedEntries placed) (hne : ∀ r ∈ placed, 0 < r.data.length)
    (htypes : ∀ r ∈ placed, entryType r.data.length = .ok r.entryType) :
    (∀ k r, placed[k]? = some r → SpanHolds layout loaderStart k r) ↔
      ¬ ∃ r, placed.getLast? = some r ∧ Straddles r loaderStart.toNat := by
  rw [List.getLast?_eq_getElem?]
  constructor
  · rintro hall ⟨r, hr, hstraddles⟩
    have hmem := List.mem_of_getElem? hr
    have hpos := List.length_pos_of_mem hmem
    refine (spanHolds_iff placement hentries hr (hne r hmem) (htypes r hmem)).mp (hall _ r hr)
      ⟨?_, hstraddles⟩
    rw [List.getElem?_eq_none_iff]
    omega
  · intro hno k r hr
    have hmem := List.mem_of_getElem? hr
    refine (spanHolds_iff placement hentries hr (hne r hmem) (htypes r hmem)).mpr ?_
    rintro ⟨hlast, hstraddles⟩
    have hk := (List.getElem?_eq_some_iff.mp hr).1
    rw [List.getElem?_eq_none_iff] at hlast
    have hindex : placed.length - 1 = k := by omega
    exact hno ⟨r, by rw [hindex]; exact hr, hstraddles⟩

end Spans

/-! ## The recorded catalog -/

theorem RecordedAt.unique {image : BuiltCartridgeImage} {isSingle : Bool} {k : Nat}
    {e e' : CatalogEntry} (h : RecordedAt image isSingle k e) (h' : RecordedAt image isSingle k e') :
    e = e' := by
  obtain ⟨loaderStart, htarget, hentry⟩ := h
  obtain ⟨loaderStart', htarget', hentry'⟩ := h'
  rw [htarget] at htarget'
  cases htarget'
  rw [hentry] at hentry'
  cases hentry'
  rfl

section Recorded

variable {templates : LoaderTemplates} {roms placed : List RomInfo} {image : BuiltCartridgeImage}
  {gapStart : Nat} {loaderStart branch : UInt32} {loader : Bytes} {layout : Ez3CatalogLayout}

theorem LoadedImage.start_lt
    (h : LoadedImage templates roms placed image gapStart loaderStart branch loader)
    (hne : ∀ r ∈ placed, 0 < r.data.length) {r : RomInfo} (hr : r ∈ placed) :
    r.start.toNat < 2 ^ 25 := by
  have hfits := h.placement.fits hr
  have hlen := hne r hr
  simp only [maxCardImage] at hfits
  omega

/-- The loader of a built image holds the recorded entries and no others. -/
theorem LoadedImage.records_iff
    (h : LoadedImage templates roms placed image gapStart loaderStart branch loader)
    (hne : ∀ r ∈ placed, 0 < r.data.length) :
    Records image roms.length layout ↔ layout.entries = recordedEntries placed := by
  have hslot : ∀ k r, placed[k]? = some r →
      RecordedAt image (decide (roms.length = 1)) k (recordedEntry r (k == 0)) :=
    fun k r hr => h.recordedAt hr (h.start_lt hne (List.mem_of_getElem? hr))
  constructor
  · intro hrecords
    have hlen : layout.entries.length = placed.length := by rw [hrecords.length, h.length_eq]
    refine List.ext_getElem? fun k => ?_
    cases hr : placed[k]? with
    | none =>
      have hk := List.getElem?_eq_none_iff.mp hr
      rw [List.getElem?_eq_none (by omega),
        List.getElem?_eq_none (by rw [length_recordedEntries]; exact hk)]
    | some r =>
      have hk := (List.getElem?_eq_some_iff.mp hr).1
      have hentry := List.getElem?_eq_getElem (show k < layout.entries.length by omega)
      rw [recordedEntries_getElem? hr, hentry]
      exact congrArg some ((hrecords.slots k _ hentry).unique (hslot k r hr))
  · intro hentries
    refine ⟨by rw [hentries, length_recordedEntries, h.length_eq], fun k e he => ?_⟩
    rw [hentries] at he
    have hk := (List.getElem?_eq_some_iff.mp he).1
    rw [length_recordedEntries] at hk
    have hr := List.getElem?_eq_getElem hk
    rw [recordedEntries_getElem? hr] at he
    cases he
    exact hslot k _ hr

/-- The branch in the first word leads to the loader. -/
theorem LoadedImage.target_iff
    (h : LoadedImage templates roms placed image gapStart loaderStart branch loader)
    {start : UInt32} :
    armBranchTarget (readLe32 image.bytes 0) = some start ↔ start = loaderStart := by
  rw [h.readLe32_branch.1, armBranchTarget_of_make h.makesBranch, Option.some.injEq]
  exact eq_comm

end Recorded

/-! ## Where the builder puts the loader -/

/-- One ROM with its loader in the middle: no room for a whole loader in the `FF` tail, none behind
the ROM or the ROM fills half the card, and a gap that is large enough. -/
structure SingleLoaderInside (data : Bytes) : Prop where
  noTail : data.length < up (meaningfulRomEnd data) 16 + multiTemplateLen
  full : data.length = cardHalfSize ∨ maxCardImage < up data.length 16 + singleTemplateLen
  gap : ∃ a, FfSlot 1 data multiTemplateLen a

/-- Several ROMs of which the last straddles the place of the loader. -/
def MultiLoaderInside (roms : List RomInfo) : Prop :=
  ∃ placed a r, placed.map RomInfo.unplaced = (sortRoms roms).map RomInfo.unplaced ∧
    Placed true 0 placed ∧ LoaderPlace placed (copyLenOf placed) a ∧
    placed.getLast? = some r ∧ Straddles r a

/-- The builder puts the loader into the last ROM, with bytes of that ROM behind it. -/
def LoaderInLastRom : List RomInfo → Prop
  | [rom] => SingleLoaderInside rom.data
  | roms => MultiLoaderInside roms

theorem straddles_unplaced {rom : RomInfo} {a : Nat} :
    Straddles rom.unplaced a ↔ 0 < a ∧ ∃ j b, rom.data[j]? = some b ∧ b ≠ 0xFF ∧ a ≤ j := by
  have hzero : rom.unplaced.start.toNat = 0 := rfl
  have hdata : rom.unplaced.data = rom.data := rfl
  simp only [Straddles, hzero, hdata, Nat.zero_add]

/-- A gap of that size is no tail, so there are bytes behind it. -/
theorem exists_behind_slot {data : Bytes} {a : Nat} (hslot : FfSlot 1 data multiTemplateLen a)
    (hnoTail : data.length < up (meaningfulRomEnd data) 16 + multiTemplateLen) :
    ∃ j b, data[j]? = some b ∧ b ≠ 0xFF ∧ a ≤ j := by
  have habove := hslot.above
  have hfits := hslot.fits
  by_cases hlast : ∃ j b, data[j]? = some b ∧ b ≠ 0xFF ∧ a ≤ j
  · exact hlast
  · exfalso
    have hblank : ∀ i, a ≤ i → data.getD i 0xFF = 0xFF := by
      intro i hi
      by_cases hin : i < data.length
      · rw [List.getD_eq_getElem _ _ hin]
        by_cases hff : data[i] = 0xFF
        · exact hff
        · exact absurd ⟨i, _, List.getElem?_eq_getElem hin, hff, hi⟩ hlast
      · exact getD_eq_of_ge (Nat.not_lt.mp hin)
    have hend := meaningfulRomEnd_le_of_blank (by omega) hblank
    have hup := @up_le (meaningfulRomEnd data) 16 a (by omega) hend hslot.aligned
    omega

/-- The tail behind the meaningful end is `FF` as far as it goes. -/
theorem tail_blank {data : Bytes} {n : Nat} :
    (slice data (up (meaningfulRomEnd data) 16) n).all (· == 0xFF) = true := by
  rw [List.all_eq_true]
  intro b hb
  obtain ⟨i, hi⟩ := List.mem_iff_getElem?.mp hb
  have hup := @le_up (meaningfulRomEnd data) 16 (by omega)
  have hget : (slice data (up (meaningfulRomEnd data) 16) n).getD i 0xFF = b := by
    rw [List.getD_eq_getElem?_getD, hi, Option.getD_some]
  rw [getD_slice] at hget
  split at hget
  · rw [meaningfulRomEnd_blank (Nat.le_trans hup (Nat.le_add_right ..))] at hget
    exact beq_iff_eq.mpr hget.symm
  · exact beq_iff_eq.mpr hget.symm

/-- The search for a single loader, by where it ends. -/
inductive SingleSearch (data : Bytes) (loaderStart : Nat) : Prop where
  | tail (room : up (meaningfulRomEnd data) 16 + multiTemplateLen ≤ data.length)
      (start : loaderStart = up (meaningfulRomEnd data) 16)
  | gap (noTail : data.length < up (meaningfulRomEnd data) 16 + multiTemplateLen)
      (full : data.length = cardHalfSize ∨ maxCardImage < up data.length 16 + singleTemplateLen)
      (slot : FfSlot 1 data multiTemplateLen loaderStart)
  | secondHalf (half : data.length = cardHalfSize)
      (noSlot : ∀ a, ¬ FfSlot 1 data multiTemplateLen a) (start : data.length ≤ loaderStart)
  | behind (notHalf : data.length ≠ cardHalfSize)
      (room : up data.length 16 + singleTemplateLen ≤ maxCardImage)
      (start : data.length ≤ loaderStart)

theorem placeSingleLoader_search {data : Bytes} {loaderStart : UInt32}
    {placement : SinglePlacement} (hdata : data.length ≤ maxCardImage)
    (hplace : placeSingleLoader data singleTemplateLen = .ok (loaderStart, placement)) :
    SingleSearch data loaderStart.toNat := by
  have htrail := alignLoader_toNat (Nat.le_trans (@meaningfulRomEnd_le data) hdata)
  have happend := alignLoader_toNat hdata
  have hmax : max singleTemplateLen multiTemplateLen = multiTemplateLen := rfl
  have hbehind := @le_up data.length 16 (by omega)
  unfold placeSingleLoader at hplace
  simp only [htrail, happend, hmax] at hplace
  by_cases hroom : up (meaningfulRomEnd data) 16 + multiTemplateLen ≤ data.length
  · rw [if_pos ⟨hroom, tail_blank⟩] at hplace
    cases hplace
    exact .tail hroom htrail
  rw [if_neg fun h => hroom h.1] at hplace
  by_cases hhalf : data.length = cardHalfSize
  · rw [if_pos hhalf] at hplace
    cases hslot : findInternalFfLoaderSlot data singleTemplateLen with
    | some internal =>
      rw [hslot] at hplace
      cases hplace
      exact .gap (Nat.not_le.mp hroom) (.inl hhalf) (findInternalFfLoaderSlot_some hslot).1
    | none =>
      rw [hslot] at hplace
      cases hplace
      refine .secondHalf hhalf (findInternalFfLoaderSlot_none hslot) ?_
      rw [hhalf]
      decide
  rw [if_neg hhalf] at hplace
  by_cases hfull : up data.length 16 + singleTemplateLen > maxCardImage
  · rw [if_pos hfull] at hplace
    cases hslot : findInternalFfLoaderSlot data singleTemplateLen with
    | some internal =>
      rw [hslot] at hplace
      cases hplace
      exact .gap (Nat.not_le.mp hroom) (.inr hfull) (findInternalFfLoaderSlot_some hslot).1
    | none =>
      rw [hslot] at hplace
      cases hplace
  · rw [if_neg hfull] at hplace
    cases hplace
    exact .behind hhalf (Nat.not_lt.mp hfull) (by rw [happend]; exact hbehind)

/-- A single loader stands in the middle of its ROM in one case only. -/
theorem straddles_single_iff {rom : RomInfo} {loaderStart : UInt32} {placement : SinglePlacement}
    (hdata : rom.data.length ≤ maxCardImage)
    (hplace : placeSingleLoader rom.data singleTemplateLen = .ok (loaderStart, placement)) :
    Straddles rom.unplaced loaderStart.toNat ↔ SingleLoaderInside rom.data := by
  rw [straddles_unplaced]
  have hpast : rom.data.length ≤ loaderStart.toNat →
      ¬ ∃ j b, rom.data[j]? = some b ∧ b ≠ 0xFF ∧ loaderStart.toNat ≤ j := by
    rintro hle ⟨j, b, hj, _, hbehind⟩
    have := (List.getElem?_eq_some_iff.mp hj).1
    omega
  cases placeSingleLoader_search hdata hplace with
  | tail room start =>
    have hup := @le_up (meaningfulRomEnd rom.data) 16 (by omega)
    constructor
    · rintro ⟨_, j, b, hj, hb, hbehind⟩
      have := lt_meaningfulRomEnd hj hb
      omega
    · intro hinside
      have := hinside.noTail
      omega
  | gap noTail full slot =>
    have habove := slot.above
    exact ⟨fun _ => ⟨noTail, full, _, slot⟩,
      fun _ => ⟨by omega, exists_behind_slot slot noTail⟩⟩
  | secondHalf half noSlot start =>
    exact ⟨fun h => absurd h.2 (hpast start), fun h => absurd h.gap (not_exists.mpr noSlot)⟩
  | behind notHalf room start =>
    refine ⟨fun h => absurd h.2 (hpast start), fun h => ?_⟩
    obtain hhalf | hfull := h.full
    · exact absurd hhalf notHalf
    · omega

/-- Several ROMs: their placement and the place of the loader are decided by the ROMs alone. -/
theorem MultiImage.straddles_iff {templates : LoaderTemplates} {roms placed : List RomInfo}
    {bytes : Bytes} {loaderStart branch : UInt32} {loader : Bytes}
    (h : MultiImage templates roms placed bytes loaderStart branch loader) :
    (∃ r, placed.getLast? = some r ∧ Straddles r loaderStart.toNat) ↔ MultiLoaderInside roms := by
  constructor
  · rintro ⟨r, hlast, hstraddles⟩
    exact ⟨placed, _, r, h.same, h.placement, h.loaderPlace, hlast, hstraddles⟩
  · rintro ⟨placed', a, r, same', placement', hplace, hlast, hstraddles⟩
    have hp := placeRoms_iff.mpr ⟨same', placement'⟩
    rw [placeRoms_iff.mpr ⟨h.same, h.placement⟩] at hp
    cases hp
    have ha : loaderStart.toNat = a := h.loaderAt.unique ((loaderAt_iff h.placement).mpr hplace)
    rw [ha]
    exact ⟨r, hlast, hstraddles⟩

/-- A built image, with the place of its loader in terms of the ROMs. -/
theorem build_straddles {templates : LoaderTemplates} {roms placed : List RomInfo}
    {image : BuiltCartridgeImage}
    (hbuild : CartridgeImageBuilder.build templates roms false = .ok (placed, image)) :
    ∃ gapStart loaderStart branch loader,
      LoadedImage templates roms placed image gapStart loaderStart branch loader ∧
      ((∃ r, placed.getLast? = some r ∧ Straddles r loaderStart.toNat) ↔
        LoaderInLastRom roms) := by
  by_cases hcount : roms.length = 1
  · obtain ⟨rom, rfl⟩ := List.length_eq_one_iff.mp hcount
    obtain ⟨⟨placed', bytes⟩, hsingle, hrest⟩ := of_bind_ok hbuild
    obtain ⟨image', hfinish, hpair⟩ := of_bind_ok hrest
    cases hpair
    obtain ⟨gapStart, loaderStart, placement, branch, loader, hplace, rfl, h⟩ :=
      buildSingleImage_place hsingle
    refine ⟨gapStart, loaderStart, branch, loader, h.loaded (.of_ok hfinish), ?_⟩
    rw [LoaderInLastRom, ← straddles_single_iff h.dataLength hplace]
    simp only [List.getLast?_singleton, Option.some.injEq, exists_eq_left']
  · obtain ⟨bytes, loaderStart, branch, loader, h, hf⟩ := build_multi_ok hcount hbuild
    refine ⟨_, loaderStart, branch, _, h.loaded hf, h.straddles_iff.trans ?_⟩
    match roms, hcount with
    | [], _ => exact Iff.rfl
    | [_], hcount => exact absurd rfl hcount
    | _ :: _ :: _, _ => exact Iff.rfl

/-! ## What the spans hold -/

/-- The span of every ROM of a built image, as the analyzer finds it from the recorded catalog and
the loader start, holds every byte that is not `FF`, exactly when the loader does not stand in the
middle of the last ROM. -/
theorem spans_hold_iff {templates : LoaderTemplates} {roms placed : List RomInfo}
    {image : BuiltCartridgeImage} {layout : Ez3CatalogLayout} {loaderStart : UInt32}
    (hroom : ∀ r ∈ roms, 4 ≤ r.data.length)
    (htypes : ∀ r ∈ roms, entryType r.data.length = .ok r.entryType)
    (hbuild : CartridgeImageBuilder.build templates roms false = .ok (placed, image))
    (hrecords : Records image roms.length layout)
    (htarget : armBranchTarget (readLe32 image.bytes 0) = some loaderStart) :
    (∀ k r, placed[k]? = some r → SpanHolds layout loaderStart k r) ↔ ¬ LoaderInLastRom roms := by
  obtain ⟨gapStart, start, branch, loader, h, hstraddles⟩ := build_straddles hbuild
  obtain rfl := h.target_iff.mp htarget
  have hne : ∀ r ∈ placed, 0 < r.data.length := fun r hr =>
    Nat.lt_of_lt_of_le (by decide) (h.forall_placed (fun _ => Iff.rfl) hroom r hr)
  have htypes' : ∀ r ∈ placed, entryType r.data.length = .ok r.entryType :=
    h.forall_placed (fun _ => Iff.rfl) htypes
  rw [spansHold_iff h.placement ((h.records_iff hne).mp hrecords) hne htypes', hstraddles]

theorem spans_hold_headers : ∃ image layout loaderStart,
    CartridgeImageBuilder.build plainTemplates [headerRom 0, headerRom 0] false =
      .ok ([headerRom 0, headerRom 0x10000], image) ∧
    Records image 2 layout ∧ armBranchTarget (readLe32 image.bytes 0) = some loaderStart ∧
    ((∀ k r, [headerRom 0, headerRom 0x10000][k]? = some r → SpanHolds layout loaderStart k r) ↔
      ¬ LoaderInLastRom [headerRom 0, headerRom 0]) := by
  have hlen : ∀ start, (headerRom start).data.length = 0xC0 := fun _ => length_gameRom
  have hrooms : ∀ r ∈ [headerRom 0, headerRom 0], 4 ≤ r.data.length := by
    simp [hlen]
  have htypes : ∀ r ∈ [headerRom 0, headerRom 0], entryType r.data.length = .ok r.entryType :=
    List.forall_mem_cons.mpr ⟨headerRom_type, List.forall_mem_singleton.mpr headerRom_type⟩
  obtain ⟨image, hbuild⟩ := headerRoms_build
  obtain ⟨_, loaderStart, _, _, h, _⟩ := build_straddles hbuild
  have hne : ∀ r ∈ [headerRom 0, headerRom 0x10000], 0 < r.data.length := by
    simp [hlen]
  have hrecords : Records image 2 ⟨.multi, recordedEntries [headerRom 0, headerRom 0x10000]⟩ :=
    (h.records_iff hne).mpr rfl
  have htarget := h.target_iff.mpr rfl
  exact ⟨image, _, loaderStart, hbuild, hrecords, htarget,
    spans_hold_iff hrooms htypes hbuild hrecords htarget⟩

/-! ### A loader in the middle of the second ROM -/

/-- A ROM that fills its block. -/
def filledRom : RomInfo := gameRom (List.replicate 0xFF40 0x11) 9 0

/-- A ROM with a gap for the loader of two ROMs behind its header, and a byte behind the gap. -/
def splitRom (start : UInt32) : RomInfo := { runRom 0x6F80 [0x55] 9 with start := start }

theorem data_splitRom {start : UInt32} : (splitRom start).data = (runRom 0x6F80 [0x55] 9).data := rfl

theorem length_filledRom : filledRom.data.length = 0x10000 := by
  rw [filledRom, length_gameRom, List.length_replicate]

theorem length_splitRom {start : UInt32} : (splitRom start).data.length = 0x7041 := by
  rw [data_splitRom, length_runRom, List.length_singleton]

theorem filledRom_live {i : Nat} (h1 : 0xC0 ≤ i) (h2 : i < 0x10000) :
    filledRom.data[i]? = some 0x11 := by
  show (gameHeader ++ List.replicate 0xFF40 0x11)[i]? = _
  rw [List.getElem?_append_right (by rw [length_gameHeader]; exact h1), length_gameHeader,
    List.getElem?_replicate, if_pos (by omega)]

theorem splitRom_behind {start : UInt32} : (splitRom start).data[0x7040]? = some 0x55 := by
  rw [data_splitRom]
  exact @runRom_tail 0x6F80 0 [0x55] 9

theorem start_filledRom : filledRom.start.toNat = 0 := UInt32.toNat_zero

theorem start_splitRom : (splitRom 0x10000).start.toNat = 0x10000 := UInt32.toNat_ofNat

theorem splitRoms_placed : Placed true 0 [filledRom, splitRom 0x10000] := by
  have hend := @meaningfulRomEnd_le filledRom.data
  have hmin := @meaningfulRomEnd_ge filledRom.data
  rw [length_filledRom] at hend hmin
  have hblock : SizeClass filledRom.data.length programBlock :=
    sizeClass_block (by rw [length_filledRom]; decide)
  have hsplit : SizeClass (splitRom 0x10000).data.length programBlock :=
    sizeClass_block (by rw [length_splitRom]; decide)
  refine ⟨⟨_, hblock, start_filledRom⟩, ?_, ⟨_, hsplit, ?_⟩, ?_, trivial⟩
  · rw [start_filledRom, length_filledRom]
    decide
  · rw [start_splitRom, if_neg Bool.false_ne_true, romEnd, start_filledRom, up, programBlock]
    omega
  · rw [start_splitRom, length_splitRom]
    decide

theorem baseImageSize_splitRoms : baseImageSize [filledRom, splitRom 0x10000] = 0x17041 := by
  simp only [baseImageSize, List.foldl_cons, List.foldl_nil, length_filledRom, length_splitRom,
    start_filledRom, start_splitRom]
  omega

/-- The first free run is the gap of the second ROM. -/
theorem splitRoms_loaderPlace :
    LoaderPlace [filledRom, splitRom 0x10000] multiTwoRomLen 0x100C0 := by
  refine .inl ⟨⟨by decide, by decide, by rw [baseImageSize_splitRoms]; decide, ?_⟩, ?_⟩
  · intro a h1 h2 v hv
    obtain ⟨hne, r, hr, hle, hget⟩ := liveRom_iff.mp hv
    simp only [multiTwoRomLen] at h2
    obtain rfl | hr := List.mem_cons.mp hr
    · have := (List.getElem?_eq_some_iff.mp hget).1
      rw [start_filledRom, length_filledRom] at this
      omega
    · obtain rfl := List.mem_singleton.mp hr
      rw [start_splitRom, data_splitRom, runRom_getElem? (by omega) (by omega)] at hget
      exact hne (Option.some.inj hget).symm
  · intro b hb
    have habove := hb.above
    by_cases hlt : b < 0x100C0
    · exfalso
      by_cases hblock : b < 0x10000
      · refine hb.vacant b (Nat.le_refl _) (by simp only [multiTwoRomLen]; omega) 0x11
          (liveRom_iff.mpr ⟨by decide, filledRom, by simp, by rw [start_filledRom]; omega, ?_⟩)
        rw [start_filledRom]
        exact filledRom_live habove hblock
      · obtain ⟨v, hv, hne⟩ :=
          @runRom_header 0x6F80 (b - 0x10000) [0x55] 9 (by omega)
        exact hb.vacant b (Nat.le_refl _) (by simp only [multiTwoRomLen]; omega) v
          (liveRom_iff.mpr ⟨hne, splitRom 0x10000, by simp, by rw [start_splitRom]; omega, hv⟩)
    · omega

theorem splitRoms_build : ∃ image,
    CartridgeImageBuilder.build plainTemplates [filledRom, splitRom 0] false =
      .ok ([filledRom, splitRom 0x10000], image) := by
  have hsort : [filledRom, splitRom 0].Pairwise fun a b => b.data.length ≤ a.data.length := by
    simp only [List.pairwise_cons, List.mem_singleton, forall_eq, List.not_mem_nil,
      false_implies, implies_true, List.Pairwise.nil, and_true]
    rw [length_filledRom, length_splitRom]
    decide
  refine build_multi_isOk length_plainTemplates.2 plainTemplates_multi
    ⟨Nat.le_refl 2, by rw [List.length_cons, List.length_singleton]; decide⟩
    (by rw [sortRoms_of_sizes hsort]; rfl) splitRoms_placed ?_ ?_
  · rw [baseImageSize_splitRoms]
    decide
  · rw [baseImageSize_splitRoms]
    decide

theorem splitRoms_types :
    ∀ r ∈ [filledRom, splitRom 0], entryType r.data.length = .ok r.entryType := by
  refine List.forall_mem_cons.mpr ⟨?_, List.forall_mem_singleton.mpr ?_⟩
  · rw [length_filledRom]
    rfl
  · rw [length_splitRom]
    rfl

/-- The span of the second ROM ends at the loader in its middle, and the byte behind is not in it. -/
theorem span_cut_at_loader :
    (∀ r ∈ [filledRom, splitRom 0], 4 ≤ r.data.length ∧ entryType r.data.length = .ok r.entryType) ∧
    ∃ image layout loaderStart,
      CartridgeImageBuilder.build plainTemplates [filledRom, splitRom 0] false =
        .ok ([filledRom, splitRom 0x10000], image) ∧
      Records image 2 layout ∧ armBranchTarget (readLe32 image.bytes 0) = some loaderStart ∧
      (splitRom 0x10000).data[0x7040]? = some 0x55 ∧
      ¬ SpanHolds layout loaderStart 1 (splitRom 0x10000) := by
  have hrooms : ∀ r ∈ [filledRom, splitRom 0], 4 ≤ r.data.length := by
    refine List.forall_mem_cons.mpr ⟨?_, List.forall_mem_singleton.mpr ?_⟩
    · rw [length_filledRom]
      decide
    · rw [length_splitRom]
      decide
  refine ⟨fun r hr => ⟨hrooms r hr, splitRoms_types r hr⟩, ?_⟩
  obtain ⟨image, hbuild⟩ := splitRoms_build
  obtain ⟨bytes, loaderStart, branch, loader, h, hf⟩ := build_multi_ok (by simp) hbuild
  have hloaded := h.loaded hf
  have hne : ∀ r ∈ [filledRom, splitRom 0x10000], 0 < r.data.length := by
    refine List.forall_mem_cons.mpr ⟨?_, List.forall_mem_singleton.mpr ?_⟩
    · rw [length_filledRom]
      decide
    · rw [length_splitRom]
      decide
  have hstart : loaderStart.toNat = 0x100C0 :=
    h.loaderAt.unique ((loaderAt_iff h.placement).mpr splitRoms_loaderPlace)
  refine ⟨image, ⟨.multi, recordedEntries [filledRom, splitRom 0x10000]⟩, loaderStart, hbuild,
    (hloaded.records_iff hne).mpr rfl, hloaded.target_iff.mpr rfl, splitRom_behind, ?_⟩
  rw [spanHolds_iff h.placement rfl (show _ = some (splitRom 0x10000) from rfl)
    (by rw [length_splitRom]; decide) (by rw [length_splitRom]; rfl), not_not, hstart]
  exact ⟨rfl, by decide, 0x7040, 0x55, splitRom_behind, by decide, by decide⟩

end Ezfadvance
