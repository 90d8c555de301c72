import Mathlib.Data.List.Infix
import Ezfadvance.ReadMapping

/-!
# SaveCatalogAnalyzer

The ROM metadata of the save application (`save_catalog_analyzer.cpp`, `ez3_catalog.cpp`): a header
and a save marker for each analysed ROM. Progress reports are left out.

* `Ez3CatalogLayout.allocationEnd`, `boundedSaveScanSpan`: how far a ROM is scanned.
* `SaveCatalogAnalyzer.analyze`: one mapping for the highest scan address, then every ROM.
* `reads_below_iff`: when all its ROM reads stay below the limit in force.
-/

namespace Ezfadvance

open Interact Interact.Program CartridgeFormat ReadOnlyCartridge Tool

def Ez3CatalogLayout.allocationEnd (layout : Ez3CatalogLayout) (index : Nat)
    (loaderStart imageLimit : UInt32) : Option UInt32 :=
  match layout.entries[index]? with
  | none => none
  | some entry =>
    match entry.storedEnd imageLimit with
    | none => none
    | some storedEnd =>
      let atLeast := fun (stop : UInt32) => if stop > entry.start then some stop else none
      match layout.entries[index + 1]? with
      | some next =>
        if next.start ≤ entry.start then none
        else if next.start < storedEnd + 1 then atLeast next.start
        else atLeast (storedEnd + 1)
      | none =>
        -- An appended loader ends the last allocation; one embedded earlier does not.
        if loaderStart > entry.start ∧ loaderStart < storedEnd + 1 then atLeast loaderStart
        else atLeast (storedEnd + 1)

def boundedSaveScanSpan (start allocationEnd evidenceLimit : Nat) : Nat :=
  if start ≥ evidenceLimit ∨ allocationEnd ≤ start then 0
  else min allocationEnd evidenceLimit - start

structure SaveCatalogRom where
  catalogEntry : CatalogEntry
  header : GbaHeader := {}
  allocationSpan : UInt32 := 0
  saveMarker : Bytes := []

structure SaveCatalogAnalysis where
  mappingPrepared : Bool := false
  roms : List SaveCatalogRom := []

namespace SaveCatalogAnalyzer

def containsPattern (data pattern : Bytes) : Bool :=
  !pattern.isEmpty && decide (pattern <:+: data)

def patterns : List Bytes :=
  [ascii "SRAM_V111", ascii "SRAM_V112", ascii "SRAM_V", ascii "SRAM" ++ [0x00], ascii "FLASH1M",
    ascii "FLASH512", ascii "FLASH_V", ascii "EEPROM_V"]

def markerName (pattern : Bytes) : Bytes :=
  if pattern.length = 5 ∧ pattern.getD 4 0xFF = 0x00 then ascii "SRAM" else pattern

def chunkSize : Nat := 0x10000
def overlap : Nat := 32

/-- The loop of `detectSaveMarker`. -/
def detectFrom (start : UInt32) (span position : Nat) (carry : Bytes) : Usb StdException Bytes :=
  if position < span then do
    let length := min chunkSize (span - position)
    match ← read (start + UInt32.ofNat position) length with
    | none => return []
    | some chunk =>
      let joined := carry ++ chunk
      match patterns.find? (containsPattern joined) with
      | some pattern => return markerName pattern
      | none =>
        detectFrom start span (position + length)
          (joined.drop (joined.length - min overlap joined.length))
  else .pure []
termination_by span - position
decreasing_by
  simp only [chunkSize]
  omega

def detectSaveMarker (start : UInt32) (span : Nat) : Usb StdException Bytes :=
  detectFrom start span 0 []

def analyzedCount (catalog : Ez3CatalogLayout) (entryCount : Nat) : Nat :=
  if entryCount = 0 then catalog.entries.length else min entryCount catalog.entries.length

/-- The step of the loop over the allocation ends. -/
def raiseScanAddress (catalog : Ez3CatalogLayout) (loaderStart imageLimit : UInt32)
    (highest : UInt32) (index : Nat) : UInt32 :=
  match catalog.entries[index]?, catalog.allocationEnd index loaderStart imageLimit with
  | some entry, some stop => if stop > entry.start then max highest (stop - 1) else highest
  | _, _ => highest

def highestScanAddress (catalog : Ez3CatalogLayout) (loaderStart loaderEnd imageLimit : UInt32)
    (count : Nat) : UInt32 :=
  (List.range count).foldl (raiseScanAddress catalog loaderStart imageLimit) loaderEnd

def allocationSpan (catalog : Ez3CatalogLayout) (loaderStart imageLimit : UInt32) (index : Nat)
    (entry : CatalogEntry) : UInt32 :=
  match catalog.allocationEnd index loaderStart imageLimit with
  | some stop =>
    UInt32.ofNat (boundedSaveScanSpan entry.start.toNat stop.toNat imageLimit.toNat)
  | none => 0

def analyzeRom (catalog : Ez3CatalogLayout) (loaderStart imageLimit : UInt32) (index : Nat)
    (entry : CatalogEntry) : Tool SaveCatalogRom := do
  let header := (← usb (readGbaHeader entry.start)).getD {}
  let span := allocationSpan catalog loaderStart imageLimit index entry
  let rom : SaveCatalogRom :=
    { catalogEntry := entry, header := header, allocationSpan := span }
  if span ≠ 0 then
    return { rom with saveMarker := ← usb (detectSaveMarker entry.start span.toNat) }
  else return rom

/-- The ROMs from `index` on. -/
def analyzeFrom (catalog : Ez3CatalogLayout) (loaderStart imageLimit : UInt32) :
    Nat → List CatalogEntry → Tool (List SaveCatalogRom)
  | _, [] => .pure []
  | index, entry :: entries => do
    let rom ← analyzeRom catalog loaderStart imageLimit index entry
    let roms ← analyzeFrom catalog loaderStart imageLimit (index + 1) entries
    return rom :: roms

def analyze (catalog : Ez3CatalogLayout) (loaderStart loaderEnd imageLimit : UInt32)
    (entryCount : Nat) : Tool SaveCatalogAnalysis := do
  let count := analyzedCount catalog entryCount
  if !(← prepareLinearForAddress
      (highestScanAddress catalog loaderStart loaderEnd imageLimit count)) then
    return {}
  let roms ← analyzeFrom catalog loaderStart imageLimit 0 (catalog.entries.take count)
  return { mappingPrepared := true, roms := roms }

/-! ## The highest scan address -/

section ScanAddress

variable {catalog : Ez3CatalogLayout} {loaderStart imageLimit : UInt32} {index : Nat}
  {entry : CatalogEntry} {stop : UInt32}

/-- An allocation that ends has a first byte, lies in the stored extent and ends before the next
entry. -/
theorem allocationEnd_some (h : catalog.allocationEnd index loaderStart imageLimit = some stop) :
    ∃ entry storedEnd, catalog.entries[index]? = some entry ∧
      entry.storedEnd imageLimit = some storedEnd ∧ entry.start < stop ∧ stop ≤ storedEnd + 1 ∧
      ∀ next, catalog.entries[index + 1]? = some next → stop ≤ next.start := by
  have hatLeast : ∀ {entry : CatalogEntry} {stop' : UInt32},
      (if stop' > entry.start then some stop' else none) = some stop →
        stop' = stop ∧ entry.start < stop := by
    intro entry stop' hsome
    split at hsome
    case isTrue hgt =>
      cases hsome
      exact ⟨rfl, hgt⟩
    case isFalse => cases hsome
  rw [Ez3CatalogLayout.allocationEnd] at h
  cases hentry : catalog.entries[index]? with
  | none => simp [hentry] at h
  | some entry =>
    cases hstored : entry.storedEnd imageLimit with
    | none => simp [hentry, hstored] at h
    | some storedEnd =>
      simp only [hentry, hstored] at h
      cases hnext : catalog.entries[index + 1]? with
      | some next =>
        simp only [hnext] at h
        split at h
        · cases h
        split at h
        case isTrue hcut =>
          obtain ⟨rfl, hgt⟩ := hatLeast h
          refine ⟨entry, storedEnd, rfl, hstored, hgt, UInt32.le_of_lt hcut, ?_⟩
          rintro _ ⟨⟩
          exact UInt32.le_refl _
        case isFalse hfull =>
          obtain ⟨rfl, hgt⟩ := hatLeast h
          refine ⟨entry, storedEnd, rfl, hstored, hgt, UInt32.le_refl _, ?_⟩
          rintro _ ⟨⟩
          exact UInt32.not_lt.mp hfull
      | none =>
        simp only [hnext] at h
        split at h
        case isTrue hloader =>
          obtain ⟨rfl, hgt⟩ := hatLeast h
          exact ⟨entry, storedEnd, rfl, hstored, hgt, UInt32.le_of_lt hloader.2, by rintro _ ⟨⟩⟩
        case isFalse =>
          obtain ⟨rfl, hgt⟩ := hatLeast h
          exact ⟨entry, storedEnd, rfl, hstored, hgt, UInt32.le_refl _, by rintro _ ⟨⟩⟩

theorem allocationEnd_gt (hentry : catalog.entries[index]? = some entry)
    (h : catalog.allocationEnd index loaderStart imageLimit = some stop) : entry.start < stop := by
  obtain ⟨entry', _, hentry', _, hgt, _⟩ := allocationEnd_some h
  rw [hentry, Option.some.injEq] at hentry'
  exact hentry' ▸ hgt

theorem le_raiseScanAddress (highest : UInt32) :
    highest.toNat ≤ (raiseScanAddress catalog loaderStart imageLimit highest index).toNat := by
  rw [raiseScanAddress]
  split
  · split
    · rw [toNat_max]
      omega
    · exact Nat.le_refl _
  · exact Nat.le_refl _

theorem le_foldl_raise (indices : List Nat) (highest : UInt32) :
    highest.toNat ≤
      (indices.foldl (raiseScanAddress catalog loaderStart imageLimit) highest).toNat := by
  induction indices generalizing highest with
  | nil => exact Nat.le_refl _
  | cons index indices ih => exact (le_raiseScanAddress highest).trans (ih _)

/-- Each allocation ends at or below the byte behind the highest scan address. -/
theorem stop_le_highest {loaderEnd : UInt32} {count : Nat} (hindex : index < count)
    (hentry : catalog.entries[index]? = some entry)
    (h : catalog.allocationEnd index loaderStart imageLimit = some stop) :
    stop.toNat ≤
      (highestScanAddress catalog loaderStart loaderEnd imageLimit count).toNat + 1 := by
  have hgt := allocationEnd_gt hentry h
  have hpred : (stop - 1).toNat = stop.toNat - 1 :=
    UInt32.toNat_sub_of_le _ _ (by
      rw [UInt32.lt_iff_toNat_lt] at hgt
      rw [UInt32.le_iff_toNat_le]
      exact Nat.succ_le_of_lt (Nat.zero_lt_of_lt hgt))
  have hraise : ∀ highest : UInt32, stop.toNat - 1 ≤
      (raiseScanAddress catalog loaderStart imageLimit highest index).toNat := by
    intro highest
    simp only [raiseScanAddress, hentry, h, if_pos hgt, toNat_max, hpred]
    exact Nat.le_max_right _ _
  obtain ⟨before, after, hsplit⟩ := List.append_of_mem (List.mem_range.mpr hindex)
  rw [highestScanAddress, hsplit, List.foldl_append, List.foldl_cons]
  have hle := (hraise _).trans (@le_foldl_raise catalog loaderStart imageLimit after
    (raiseScanAddress catalog loaderStart imageLimit
      (before.foldl (raiseScanAddress catalog loaderStart imageLimit) loaderEnd) index))
  omega

end ScanAddress

/-! ## What is read -/

theorem always_detectFrom {P : Bytes → Prop} {start : UInt32} {span : Nat}
    (heven : 2 ∣ start.toNat) (position : Nat) (carry : Bytes)
    (hposition : position < span → 2 ∣ position)
    (hread : ∀ position < span, ∀ done < min chunkSize (span - position),
      P (readCommand (start + UInt32.ofNat position + UInt32.ofNat done)
        (min 0x10000 (min chunkSize (span - position) - done)))) :
    Always (Transport.Sends P) Returns (detectFrom start span position carry) := by
  induction position, carry using detectFrom.induct span with
  | case1 position carry hlt length ih =>
    rw [detectFrom, if_pos hlt]
    refine (always_read (even_of_dvd (even_add heven (hposition hlt))) (hread position hlt)).then
      fun chunk => ?_
    cases chunk with
    | none => trivial
    | some chunk =>
      dsimp only
      cases patterns.find? (containsPattern (carry ++ chunk)) with
      | some pattern => trivial
      | none =>
        refine ih _ fun hnext => ?_
        have heven := hposition hlt
        simp only [length, chunkSize] at hnext ⊢
        omega
  | case2 position carry hge =>
    rw [detectFrom, if_neg hge]
    trivial

section Specs

variable {catalog : Ez3CatalogLayout} {loaderStart loaderEnd imageLimit : UInt32}
  {c : ReadOnlyCartridge} {h : List Tool.Event}

theorem wp_detectSaveMarker {start : UInt32} {span : Nat} (hp : LimitProven c.linearReadLimit h)
    (heven : 2 ∣ start.toNat) (hfit : start.toNat + span ≤ c.linearReadLimit.toNat) :
    Wp memory.recording MayRead (usb (detectSaveMarker start span))
      (Gives fun _ s => ∃ t, s = (c, h ++ t)) (c, h) := by
  have hmax := hp.le
  refine wp_packetsBelow (always_detectFrom heven 0 [] (fun _ => Nat.dvd_zero _) ?_) hp
  intro position hlt done hdone
  have haddr : (start + UInt32.ofNat position).toNat = start.toNat + position := by
    rw [UInt32.toNat_add, UInt32.toNat_ofNat']
    omega
  exact packetBelow_piece hdone (by omega) hmax

theorem wp_analyzeRom {index : Nat} {entry : CatalogEntry} (hp : LimitProven c.linearReadLimit h)
    (heven : 2 ∣ entry.start.toNat) (hheader : entry.start.toNat + 0xC0 ≤ c.linearReadLimit.toNat)
    (hspan : entry.start.toNat +
      (allocationSpan catalog loaderStart imageLimit index entry).toNat ≤
        c.linearReadLimit.toNat) :
    Wp memory.recording MayRead (analyzeRom catalog loaderStart imageLimit index entry)
      (Gives fun _ s => ∃ t, s = (c, h ++ t)) (c, h) := by
  rw [analyzeRom]
  refine wp_bind (wp_packetsBelow (always_readGbaHeader heven fun _ hlt =>
    packetBelow_piece hlt hheader hp.le) hp) ?_
  rintro header s ⟨t, rfl⟩
  dsimp only
  split
  · refine wp_bind (wp_detectSaveMarker (hp.append t) heven hspan) ?_
    rintro marker s ⟨t', rfl⟩
    exact ⟨t ++ t', by rw [List.append_assoc]⟩
  · exact ⟨t, rfl⟩

theorem wp_analyzeFrom {index : Nat} {entries : List CatalogEntry}
    (hp : LimitProven c.linearReadLimit h)
    (hentries : ∀ k entry, entries[k]? = some entry → 2 ∣ entry.start.toNat ∧
      entry.start.toNat + 0xC0 ≤ c.linearReadLimit.toNat ∧
      entry.start.toNat + (allocationSpan catalog loaderStart imageLimit (index + k) entry).toNat ≤
        c.linearReadLimit.toNat) :
    Wp memory.recording MayRead (analyzeFrom catalog loaderStart imageLimit index entries)
      (Gives fun _ s => ∃ t, s = (c, h ++ t)) (c, h) := by
  induction entries generalizing index h with
  | nil => exact ⟨[], by simp⟩
  | cons entry entries ih =>
    obtain ⟨heven, hheader, hspan⟩ := hentries 0 entry rfl
    refine wp_bind (wp_analyzeRom hp heven hheader hspan) ?_
    rintro rom s ⟨t, rfl⟩
    refine wp_bind (ih (hp.append t) fun k entry hk => ?_) ?_
    · have hnext := hentries (k + 1) entry hk
      rwa [show index + (k + 1) = index + 1 + k by omega] at hnext
    · rintro roms s ⟨t', rfl⟩
      exact ⟨t ++ t', by rw [List.append_assoc]⟩

/-- Each analysed ROM starts below the mapping for the highest scan address, or below the limit
that is there already; where no mapping holds that address, nothing is read. -/
def HeadersMapped (limit highest : UInt32) (entries : List CatalogEntry) : Prop :=
  ∀ required, requiredLinearReadLimit highest = some required →
    ∀ entry ∈ entries, entry.start < max limit required

theorem required_of_lt {address limit : UInt32} (hp : LimitProven limit h)
    (hlt : address.toNat < limit.toNat) : ∃ required,
      requiredLinearReadLimit address = some required := by
  cases addressClass address with
  | default _ class8 _ => exact ⟨_, class8⟩
  | mapped limit' _ _ _ _ class' _ => exact ⟨_, class'⟩
  | outside above _ _ =>
    have hmax := hp.le
    have habove : 0x02000000 ≤ address.toNat := UInt32.le_iff_toNat_le.mp above
    omega

/-- The limit in force covers the whole class of an address below it. -/
theorem required_le {address limit required : UInt32} (hp : LimitProven limit h)
    (hlt : address.toNat < limit.toNat)
    (hrequired : requiredLinearReadLimit address = some required) :
    required.toNat ≤ limit.toNat := by
  have hlimit : 0x00800000 ∣ limit.toNat := by
    obtain rfl | rfl | rfl | rfl := hp.cases <;> decide
  cases addressClass address with
  | default _ class8 _ =>
    rw [class8] at hrequired
    cases hrequired
    exact hp.ge
  | mapped limit' selection mem _ above class' _ =>
    rw [class'] at hrequired
    cases hrequired
    have hdvd : 0x00800000 ∣ required.toNat := by
      simp only [mappings, List.mem_cons, Prod.mk.injEq, List.not_mem_nil, or_false] at mem
      obtain ⟨rfl, _⟩ | ⟨rfl, _⟩ | ⟨rfl, _⟩ := mem <;> decide
    omega
  | outside _ class' _ =>
    rw [class'] at hrequired
    cases hrequired

theorem allocationSpan_fits {index count : Nat} {entry : CatalogEntry} {limit : UInt32}
    (hindex : index < count) (hentry : catalog.entries[index]? = some entry)
    (hstart : entry.start.toNat < limit.toNat)
    (hlt : (highestScanAddress catalog loaderStart loaderEnd imageLimit count).toNat <
      limit.toNat) :
    entry.start.toNat + (allocationSpan catalog loaderStart imageLimit index entry).toNat ≤
      limit.toNat := by
  rw [allocationSpan]
  cases hstop : catalog.allocationEnd index loaderStart imageLimit with
  | none => exact Nat.le_of_lt hstart
  | some stop =>
    have hle : stop.toNat ≤
        (highestScanAddress catalog loaderStart loaderEnd imageLimit count).toNat + 1 :=
      stop_le_highest hindex hentry hstop
    have hbound : boundedSaveScanSpan entry.start.toNat stop.toNat imageLimit.toNat ≤
        stop.toNat - entry.start.toNat := by
      rw [boundedSaveScanSpan]
      split
      · exact Nat.zero_le _
      · omega
    have hgt := UInt32.lt_iff_toNat_lt.mp (allocationEnd_gt hentry hstop)
    dsimp only
    rw [UInt32.toNat_ofNat']
    have := Nat.mod_le (boundedSaveScanSpan entry.start.toNat stop.toNat imageLimit.toNat) (2 ^ 32)
    omega

theorem wp_analyze {entryCount : Nat} (hp : LimitProven c.linearReadLimit h)
    (hstart : ∀ entry ∈ catalog.entries, 0x10000 ∣ entry.start.toNat)
    (hmapped : HeadersMapped c.linearReadLimit
      (highestScanAddress catalog loaderStart loaderEnd imageLimit
        (analyzedCount catalog entryCount))
      (catalog.entries.take (analyzedCount catalog entryCount))) :
    Wp memory.recording MayRead (analyze catalog loaderStart loaderEnd imageLimit entryCount)
      (Gives fun _ _ => True) (c, h) := by
  rw [analyze]
  refine wp_bind (wp_prepareLinearForAddress hp) ?_
  rintro ready ⟨c1, h1⟩ ⟨hkept, hready⟩
  cases ready with
  | false => trivial
  | true =>
    have hlt := hready rfl
    refine wp_bind (wp_analyzeFrom hkept.proven fun k entry hk => ?_) fun _ _ _ => trivial
    have hmem := List.mem_of_getElem? hk
    rw [List.getElem?_take, Option.ite_none_right_eq_some] at hk
    obtain ⟨hcount, hentry⟩ := hk
    have hdvd := hstart entry (List.mem_of_getElem? hentry)
    obtain ⟨required, hrequired⟩ := required_of_lt hkept.proven hlt
    have hbelow : entry.start.toNat < c1.linearReadLimit.toNat := by
      have hmax := UInt32.lt_iff_toNat_lt.mp (hmapped required hrequired entry hmem)
      have hclass := required_le hkept.proven hlt hrequired
      have hgrown := hkept.limit
      rw [toNat_max] at hmax
      dsimp only at hgrown hclass
      omega
    rw [Nat.zero_add]
    exact ⟨Nat.dvd_trans (by decide) hdvd, LimitProven.header_fits hkept.proven hdvd hbelow,
      allocationSpan_fits hcount hentry hbelow hlt⟩

end Specs

/-! ## A run that reads past the limit -/

section Fails

variable {catalog : Ez3CatalogLayout} {loaderStart loaderEnd imageLimit : UInt32}
  {c : ReadOnlyCartridge}

/-- The header read of a ROM, not sent. -/
def headerFails (entry : CatalogEntry) : Transport.Event :=
  ⟨.out (readCommand entry.start 0xC0), false⟩

theorem runs_readGbaHeader_fails {entry : CatalogEntry} (heven : 2 ∣ entry.start.toNat) :
    Runs (readGbaHeader entry.start) [headerFails entry] (.ok none) :=
  (runs_read_fails heven (by decide)).bind .pure

theorem runs_detectSaveMarker_fails {start : UInt32} {span : Nat} (heven : 2 ∣ start.toNat) :
    ∃ t, Runs (detectSaveMarker start span) t (.ok []) ∧ ∀ e ∈ t, Transport.Legal e := by
  rw [detectSaveMarker, detectFrom]
  split
  case isTrue hpos =>
    have hlen : 0 < min chunkSize (span - 0) := by
      rw [chunkSize]
      omega
    have hzero : start + UInt32.ofNat 0 = start := UInt32.add_zero start
    rw [hzero]
    exact ⟨_, (runs_read_fails heven hlen).bind .pure, by simp [Transport.Legal]⟩
  case isFalse => exact ⟨[], .pure, by simp⟩

theorem legalRun_analyzeRom_fails {index : Nat} {entry : CatalogEntry}
    (heven : 2 ∣ entry.start.toNat) : ∃ (t : List Transport.Event) (rom : SaveCatalogRom),
      LegalRun (analyzeRom catalog loaderStart imageLimit index entry) c (t.map event) (.ok rom) c ∧
        headerFails entry ∈ t := by
  have hheader : LegalRun (usb (readGbaHeader entry.start)) c ([headerFails entry].map event)
      (.ok none) c :=
    legalRun_usb (runs_readGbaHeader_fails heven) (by simp [headerFails, Transport.Legal])
  let span := allocationSpan catalog loaderStart imageLimit index entry
  let rom : SaveCatalogRom := { catalogEntry := entry, allocationSpan := span }
  by_cases hspan : allocationSpan catalog loaderStart imageLimit index entry = 0
  · refine ⟨[headerFails entry] ++ [], rom, ?_, by simp⟩
    rw [List.map_append, analyzeRom]
    refine hheader.bind ?_
    dsimp only
    rw [if_neg (not_not_intro hspan)]
    exact legalRun_pure
  · obtain ⟨t, hrun, hlegal⟩ := @runs_detectSaveMarker_fails entry.start
      (allocationSpan catalog loaderStart imageLimit index entry).toNat heven
    refine ⟨[headerFails entry] ++ (t ++ []), rom, ?_, by simp⟩
    rw [List.map_append, List.map_append, analyzeRom]
    refine hheader.bind ?_
    dsimp only
    rw [if_pos hspan]
    exact (legalRun_usb hrun hlegal).bind legalRun_pure

theorem legalRun_analyzeFrom_fails {entries : List CatalogEntry} {index : Nat}
    (heven : ∀ entry ∈ entries, 2 ∣ entry.start.toNat) :
    ∃ (t : List Transport.Event) (roms : List SaveCatalogRom),
      LegalRun (analyzeFrom catalog loaderStart imageLimit index entries) c (t.map event)
        (.ok roms) c ∧ ∀ entry ∈ entries, headerFails entry ∈ t := by
  induction entries generalizing index with
  | nil => exact ⟨[], [], legalRun_pure, by simp⟩
  | cons entry entries ih =>
    obtain ⟨hentry, hentries⟩ := List.forall_mem_cons.mp heven
    obtain ⟨t1, rom, hrom, hmem1⟩ := @legalRun_analyzeRom_fails catalog loaderStart imageLimit c
      index entry hentry
    obtain ⟨t2, roms, hroms, hmem2⟩ := @ih (index + 1) hentries
    refine ⟨t1 ++ (t2 ++ []), rom :: roms, ?_, ?_⟩
    · rw [List.map_append, List.map_append]
      exact hrom.bind (hroms.bind legalRun_pure)
    · rw [List.append_nil, List.forall_mem_cons]
      exact ⟨List.mem_append_left _ hmem1, fun e he => List.mem_append_right _ (hmem2 e he)⟩

/-- A mapping that is acknowledged leaves the larger of the two limits. -/
theorem legalRun_prepared {address required : UInt32} (hge : 0x00800000 ≤ c.linearReadLimit)
    (hrequired : requiredLinearReadLimit address = some required) : ∃ t c',
      LegalRun (prepareLinearForAddress address) c t (.ok true) c' ∧
        c'.linearReadLimit = max c.linearReadLimit required := by
  cases addressClass address with
  | default _ class8 prepare =>
    rw [class8] at hrequired
    cases hrequired
    rw [prepare]
    exact ⟨[], c, legalRun_pure, (max_eq_of_le hge).symm⟩
  | mapped limit selection mem _ _ class' prepare =>
    rw [class'] at hrequired
    cases hrequired
    rw [prepare]
    by_cases hlt : c.linearReadLimit < required
    · exact ⟨_, _, legalRun_prepareLinear hlt, (max_eq_of_lt hlt).symm⟩
    · have hload : LegalRun (prepareLinear required selection) c ([⟨.load, c⟩] ++ [])
          (.ok true) c := by
        refine legalRun_load.bind ?_
        show LegalRun (if c.linearReadLimit ≥ required then _ else _) _ _ _ _
        rw [if_pos (UInt32.not_lt.mp hlt)]
        exact legalRun_pure
      exact ⟨_, c, hload, (max_eq_of_le (UInt32.not_lt.mp hlt)).symm⟩
  | outside _ class' _ =>
    rw [class'] at hrequired
    cases hrequired

end Fails

/-- Each ROM read covers only bytes below the limit in force at that moment. -/
def ReadsBelowLimit {α : Type} (p : Tool α) (c : ReadOnlyCartridge) : Prop :=
  ∀ {trace : List Tool.Event} {out : Except StdException α} {c' : ReadOnlyCartridge},
    LegalRun p c trace out c' → ∀ {pre post : List Tool.Event} {o : Tool.Op} {r : Tool.Reply o},
      trace = pre ++ ⟨o, r⟩ :: post →
      ∃ m, Path memory c pre m ∧ ReadsBelow m.linearReadLimit o

/-- A header read at or above the limit in force is not below it. -/
theorem not_readsBelow {start limit : UInt32} (heven : 2 ∣ start.toNat)
    (hge : limit.toNat ≤ start.toNat) :
    ¬ ReadsBelow limit (.usb (.out (readCommand start 0xC0))) := by
  intro hbelow
  have hsum := hbelow rfl
  have htwo : (2 : UInt32).toNat = 2 := rfl
  have hC0 : (UInt32.ofNat 0xC0).toNat = 0xC0 := rfl
  rw [readCommand, readLe32_command_word, readLe32_command_length, UInt32.toNat_div, htwo,
    hC0] at hsum
  omega

theorem headersMapped_of_readsBelow {catalog : Ez3CatalogLayout}
    {loaderStart loaderEnd imageLimit : UInt32} {entryCount : Nat} {c : ReadOnlyCartridge}
    (hge : 0x00800000 ≤ c.linearReadLimit)
    (heven : ∀ entry ∈ catalog.entries, 2 ∣ entry.start.toNat)
    (h : ReadsBelowLimit (analyze catalog loaderStart loaderEnd imageLimit entryCount) c) :
    HeadersMapped c.linearReadLimit
      (highestScanAddress catalog loaderStart loaderEnd imageLimit
        (analyzedCount catalog entryCount))
      (catalog.entries.take (analyzedCount catalog entryCount)) := by
  intro required hrequired entry hmem
  obtain ⟨t1, c1, hprepared, hlimit⟩ := legalRun_prepared hge hrequired
  obtain ⟨t2, roms, hroms, hfails⟩ := @legalRun_analyzeFrom_fails catalog loaderStart imageLimit c1
    (catalog.entries.take (analyzedCount catalog entryCount)) 0
    fun e he => heven e (List.mem_of_mem_take he)
  have hrun : LegalRun (analyze catalog loaderStart loaderEnd imageLimit entryCount) c
      (t1 ++ (t2.map event ++ [])) (.ok { mappingPrepared := true, roms := roms }) c1 :=
    hprepared.bind (hroms.bind legalRun_pure)
  obtain ⟨before, after, hsplit⟩ := List.append_of_mem (hfails entry hmem)
  have htrace : t1 ++ (t2.map event ++ []) = (t1 ++ before.map event) ++
      ⟨.usb (.out (readCommand entry.start 0xC0)), false⟩ :: after.map event := by
    rw [hsplit, List.append_nil, List.map_append, List.append_assoc]
    rfl
  obtain ⟨m, hpath, hbelow⟩ := h hrun htrace
  have hm : m = c1 :=
    path_unique hpath (path_append_iff.mpr ⟨c1, hprepared.path, path_usb before⟩)
  rw [hm, hlimit] at hbelow
  rw [UInt32.lt_iff_toNat_lt]
  by_cases hlt : entry.start.toNat < (max c.linearReadLimit required).toNat
  · exact hlt
  · exact absurd hbelow
      (not_readsBelow (heven entry (List.mem_of_mem_take hmem)) (Nat.not_lt.mp hlt))

/-- From any limit that was accounted for, every run of the analysis stays below the limit if and
only if each analysed ROM starts below the mapping it prepares. -/
theorem reads_below_iff {catalog : Ez3CatalogLayout} {loader : Bytes}
    {loaderStart loaderEnd imageLimit : UInt32} {entryCount : Nat} {c : ReadOnlyCartridge}
    {h : List Tool.Event} (hparse : Ez3CatalogParser.parse loader imageLimit = .ok (some catalog))
    (hp : LimitProven c.linearReadLimit h) :
    ReadsBelowLimit (analyze catalog loaderStart loaderEnd imageLimit entryCount) c ↔
      HeadersMapped c.linearReadLimit
        (highestScanAddress catalog loaderStart loaderEnd imageLimit
          (analyzedCount catalog entryCount))
        (catalog.entries.take (analyzedCount catalog entryCount)) := by
  obtain ⟨parsed, hparsed, hspec⟩ := @Ez3CatalogParser.parse_total loader imageLimit
  cases hparse.symm.trans hparsed
  have haccepted := hspec catalog rfl
  have hdvd : ∀ entry ∈ catalog.entries, 0x10000 ∣ entry.start.toNat :=
    fun entry hmem => (haccepted.start hmem).2
  constructor
  · exact headersMapped_of_readsBelow (UInt32.le_iff_toNat_le.mpr hp.ge) fun entry hmem =>
      Nat.dvd_trans (by decide) (hdvd entry hmem)
  · intro hmapped trace out c' run pre post o r hsplit
    have hpath : Path memory.recording (c, h) trace (c', h ++ trace) :=
      path_recording_iff.mpr ⟨run.path, rfl⟩
    obtain ⟨⟨m, hist⟩, hpre, hm⟩ := ((wp_analyze hp hdvd hmapped).sound run.run hpath).1 hsplit
    exact ⟨m, (path_recording_iff.mp hpre).1, hm.1⟩

/-! ## A catalog whose second ROM has no size class -/

section Padded

variable {pad tail : Bytes}

theorem getD_padded (i : Nat) : (pad ++ tail).getD (pad.length + i) 0 = tail.getD i 0 := by
  rw [Segments.getD_append, if_neg (by omega), Nat.add_sub_cancel_left]

theorem readLe32_padded (i : Nat) : readLe32 (pad ++ tail) (pad.length + i) = readLe32 tail i :=
  readLe32_congr fun k _ => by rw [Nat.add_assoc, getD_padded]

theorem readLe16_padded (i : Nat) : readLe16 (pad ++ tail) (pad.length + i) = readLe16 tail i :=
  readLe16_congr fun k _ => by rw [Nat.add_assoc, getD_padded]

theorem parse_padded (offset : Nat) (first : Bool) :
    CatalogEntry.parse (pad ++ tail) (pad.length + offset) first =
      CatalogEntry.parse tail offset first := by
  have hslice : ∀ i n, Segments.slice (pad ++ tail) (pad.length + i) n = Segments.slice tail i n := by
    intro i n
    rw [Segments.slice, Segments.slice, ← List.drop_drop, List.drop_left]
  rw [CatalogEntry.parse, CatalogEntry.parse]
  by_cases hfit : offset + CatalogEntry.entrySize > tail.length
  · rw [if_pos hfit, if_pos (by rw [List.length_append]; omega)]
  · rw [if_neg hfit, if_neg (by rw [List.length_append]; omega)]
    simp only [Nat.add_assoc, readLe32_padded, hslice]

theorem parseEntriesFrom_padded {entryOffset : Nat} {imageLimit : UInt32} (count index : Nat) :
    Ez3CatalogParser.parseEntriesFrom (pad ++ tail) (pad.length + entryOffset) imageLimit count index =
      Ez3CatalogParser.parseEntriesFrom tail entryOffset imageLimit count index := by
  induction count generalizing index with
  | zero => rfl
  | succ count ih =>
    simp only [Ez3CatalogParser.parseEntriesFrom, ih, Nat.add_assoc, parse_padded]

end Padded

/-- The catalog header and two entries: `A` at 0, and `B` at 9 MiB with the size class 10. -/
def unclassedTail : Bytes :=
  [0x02, 0x00] ++ List.replicate 12 0x00 ++ [0x02, 0x00] ++
  [0x41] ++ List.replicate 15 0x00 ++ le32 0x09000000 ++ le32 0x00000000 ++ le32 0x000000C0 ++
  [0x42] ++ List.replicate 15 0x00 ++ le32 0x0A000000 ++ le32 0x48000000 ++ le32 0x00900000

def unclassedLoader : Bytes :=
  List.replicate Ez3CatalogParser.multiHeaderOffset 0x00 ++ unclassedTail

def unclassedCatalog : Ez3CatalogLayout :=
  { kind := .multi
    entries := [⟨[0x41], 9, 0, 0, 0, 0xC0⟩, ⟨[0x42], 10, 0, 0x48000000, 0x00900000, 0x00900000⟩] }

theorem length_unclassedLoader : unclassedLoader.length = 0x475E + 72 := by
  rw [unclassedLoader, List.length_append, List.length_replicate]
  rfl

theorem readLe16_unclassedLoader (i : Nat) :
    readLe16 unclassedLoader (0x475E + i) = readLe16 unclassedTail i := by
  have h := @readLe16_padded (List.replicate 0x475E 0x00) unclassedTail i
  rwa [List.length_replicate] at h

theorem parse_unclassedLoader :
    Ez3CatalogParser.parse unclassedLoader 0x02000000 = .ok (some unclassedCatalog) := by
  have hsingle : readLe16 unclassedLoader Ez3CatalogParser.singleHeaderOffset = 0 := by
    have hzero : readLe16 ([] : Bytes) 0 = 0 := by decide
    rw [← hzero]
    refine readLe16_congr fun k hk => ?_
    rw [unclassedLoader, Segments.getD_append, List.length_replicate, Segments.getD_replicate,
      Ez3CatalogParser.multiHeaderOffset, Ez3CatalogParser.singleHeaderOffset, if_pos (by omega),
      if_pos (by omega), List.getD_nil]
  have hcount : readLe16 unclassedLoader Ez3CatalogParser.multiHeaderOffset = 2 :=
    readLe16_unclassedLoader 0
  have hrepeated : readLe16 unclassedLoader (Ez3CatalogParser.multiHeaderOffset + 14) = 2 :=
    readLe16_unclassedLoader 14
  have hentries : Ez3CatalogParser.parseEntriesFrom unclassedLoader
      Ez3CatalogParser.multiEntryOffset 0x02000000 2 0 = .ok (some unclassedCatalog.entries) := by
    have h := @parseEntriesFrom_padded (List.replicate 0x475E 0x00) unclassedTail 16 0x02000000 2 0
    rw [List.length_replicate] at h
    exact h.trans (by decide)
  have hlong : ¬ unclassedLoader.length < Ez3CatalogParser.multiHeaderOffset + 16 := by
    rw [length_unclassedLoader, Ez3CatalogParser.multiHeaderOffset]
    omega
  have hfits : ¬ ((2 : UInt16).toNat = 0 ∨ (2 : UInt16).toNat > Ez3CatalogParser.structuralSlotCount ∨
      Ez3CatalogParser.multiEntryOffset > unclassedLoader.length ∨ (2 : UInt16).toNat >
        (unclassedLoader.length - Ez3CatalogParser.multiEntryOffset) / CatalogEntry.entrySize) := by
    rw [length_unclassedLoader, Ez3CatalogParser.structuralSlotCount,
      Ez3CatalogParser.multiEntryOffset, CatalogEntry.entrySize]
    decide
  rw [Ez3CatalogParser.parse, if_neg (by decide), if_neg (by rw [hsingle]; simp),
    Ez3CatalogParser.parseMulti, if_neg hlong]
  dsimp only
  rw [hcount, hrepeated, if_neg (by decide), Ez3CatalogParser.parseEntries, if_neg hfits]
  show (Ez3CatalogParser.parseEntriesFrom unclassedLoader Ez3CatalogParser.multiEntryOffset
    0x02000000 2 0 >>= _) = _
  rw [hentries]
  rfl

theorem reads_below_iff_unclassed :
    ReadsBelowLimit (analyze unclassedCatalog 0x00010000 0x0001707F 0x02000000 0) {} ↔
      HeadersMapped 0x00800000
        (highestScanAddress unclassedCatalog 0x00010000 0x0001707F 0x02000000
          (analyzedCount unclassedCatalog 0))
        (unclassedCatalog.entries.take (analyzedCount unclassedCatalog 0)) :=
  reads_below_iff (h := []) parse_unclassedLoader (.inl rfl)

/-- The header at 9 MiB is read with the default mapping. -/
theorem unclassed_reads_past_limit :
    Ez3CatalogParser.parse unclassedLoader 0x02000000 = .ok (some unclassedCatalog) ∧
      ¬ ReadsBelowLimit (analyze unclassedCatalog 0x00010000 0x0001707F 0x02000000 0) {} := by
  refine ⟨parse_unclassedLoader, fun hreads => ?_⟩
  have hmapped := headersMapped_of_readsBelow (by decide) (by decide) hreads
  have hlow : requiredLinearReadLimit (highestScanAddress unclassedCatalog 0x00010000 0x0001707F
      0x02000000 (analyzedCount unclassedCatalog 0)) = some 0x00800000 := by decide
  have habove := hmapped 0x00800000 hlow ⟨[0x42], 10, 0, 0x48000000, 0x00900000, 0x00900000⟩
    (by decide)
  exact absurd habove (by decide)

end SaveCatalogAnalyzer

end Ezfadvance
