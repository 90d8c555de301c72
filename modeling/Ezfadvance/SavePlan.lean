import Ezfadvance.SaveBank

/-!
# SavePlan

Which save banks one invocation touches (`save_selection.hpp`, `save_access_planner.cpp`).

* `selectSaveRom`, `SaveAccessPlanner.plan`, in the order of the source's checks.
* `plan_rom`: the plan for a numbered ROM without an explicit bank, check by check.
* `plan_rom_take`: the markers behind a ROM do not change its plan.
* `plan_rom_selected`: a selected plan lies behind the predecessors' banks.
* `plan_within_iff`: a selected plan stays inside the four banks, unless a direct request wraps the
  range check.
* `plan_ranges_disjoint`: two ROMs of one card never share a bank.
-/

namespace Ezfadvance

/-! ## Selecting the ROM -/

inductive SaveSelectionStatus where
  | selected
  | romRequired
  | outOfRange
  | noSupportedCandidate
  | multipleSupportedCandidates
  | requestedRomMismatch
  deriving DecidableEq

structure SaveSelection where
  status : SaveSelectionStatus
  index : Nat
  deriving DecidableEq

def directSaveAccessSize (writeSize : Option Nat) : Nat := writeSize.getD 0x8000

def isDirectSaveBankAccess (requestedRom : Option Nat) (hasRequestedBank : Bool) : Bool :=
  hasRequestedBank && requestedRom.isNone

def selectSaveRom (romCount : Nat) (supportedCandidates : List Nat) (requestedRom : Option Nat) :
    SaveSelection :=
  if romCount = 0 ∨ requestedRom.any (fun rom => decide (rom = 0 ∨ rom > romCount)) then
    ⟨.outOfRange, 0⟩
  else if romCount > 1 ∧ requestedRom.isNone then ⟨.romRequired, 0⟩
  else
    let selected := requestedRom.elim 0 (· - 1)
    if supportedCandidates = [] then
      if requestedRom.isSome then ⟨.requestedRomMismatch, selected⟩
      else ⟨.noSupportedCandidate, 0⟩
    else if selected ∈ supportedCandidates then ⟨.selected, selected⟩
    else ⟨.requestedRomMismatch, selected⟩

/-- With a ROM number the candidates matter only through the membership of that ROM. -/
theorem selectSaveRom_some {romCount index : Nat} {supported : List Nat} :
    selectSaveRom romCount supported (some (index + 1)) =
      if romCount ≤ index then ⟨.outOfRange, 0⟩
      else if index ∈ supported then ⟨.selected, index⟩
      else ⟨.requestedRomMismatch, index⟩ := by
  have hout : (romCount = 0 ∨ (some (index + 1)).any (fun rom => decide (rom = 0 ∨ rom > romCount))) ↔
      romCount ≤ index := by
    simp only [Option.any_some, decide_eq_true_eq]
    omega
  unfold selectSaveRom
  by_cases hlt : romCount ≤ index
  · rw [if_pos (hout.mpr hlt), if_pos hlt]
  · rw [if_neg (mt hout.mp hlt), if_neg hlt, if_neg (by simp)]
    cases supported with
    | nil => rfl
    | cons first rest => rfl

/-! ## The planner -/

structure SaveAccessRequest where
  romNumber : Option Nat
  explicitBank : Option SaveBankSelector
  consecutiveBankCount : Option Nat
  writeSize : Option Nat

inductive SaveAccessPlanStatus where
  | selected
  | romOutOfRange
  | romRequired
  | noSupportedRom
  | ambiguousSelection
  | requestedRomUnsupported
  | selectedSizeUnknown
  | directRangeExceeded
  | explicitRangeExceeded
  | unknownPredecessorCapacity
  | capacityExceeded
  deriving DecidableEq

structure SaveAccessPlan where
  status : SaveAccessPlanStatus
  selectedRom : Option Nat := none
  accessSize : Nat := 0
  selector : UInt16 := 0
  direct : Bool := false
  explicitOverride : Bool := false
  firstUnknownRom : Nat := 0
  deriving DecidableEq

def supportedRoms (saveMarkers : List Bytes) : List Nat :=
  (List.range saveMarkers.length).filter fun index =>
    (saveMarkers[index]?.bind supportedSaveSizeForMarker).isSome

/-- The plan once the allocation of the selected ROM is known. -/
def allocatedPlan (layout : SaveBankLayout) (index accessSize : Nat) : SaveAccessPlan :=
  match layout.status with
  | .unknownPredecessorCapacity =>
    { status := .unknownPredecessorCapacity, selectedRom := some index, accessSize := accessSize,
      firstUnknownRom := layout.firstUnknownRom }
  | .capacityExceeded =>
    { status := .capacityExceeded, selectedRom := some index, accessSize := accessSize }
  | .selectedRomOutOfRange => { status := .romOutOfRange }
  | .selected =>
    { status := .selected, selectedRom := some index, accessSize := accessSize,
      selector := layout.selector }

def SaveAccessPlanner.plan (request : SaveAccessRequest) (saveMarkers : List Bytes) :
    SaveAccessPlan :=
  match request.explicitBank, isDirectSaveBankAccess request.romNumber request.explicitBank.isSome with
  | some bank, true =>
    let accessSize := match request.consecutiveBankCount with
      | some count => count * bankSize % 2 ^ 64
      | none => directSaveAccessSize request.writeSize
    if !bank.accommodates accessSize then
      { status := .directRangeExceeded, accessSize := accessSize, selector := bank.value,
        direct := true, explicitOverride := true }
    else
      { status := .selected, accessSize := accessSize, selector := bank.value,
        direct := true, explicitOverride := true }
  | explicitBank, _ =>
    let selection := selectSaveRom saveMarkers.length (supportedRoms saveMarkers) request.romNumber
    match selection.status with
    | .outOfRange => { status := .romOutOfRange }
    | .romRequired => { status := .romRequired }
    | .noSupportedCandidate => { status := .noSupportedRom }
    | .multipleSupportedCandidates => { status := .ambiguousSelection }
    | .requestedRomMismatch =>
      { status := .requestedRomUnsupported, selectedRom := some selection.index }
    | .selected =>
      match saveMarkers[selection.index]?.bind supportedSaveSizeForMarker with
      | none => { status := .selectedSizeUnknown, selectedRom := some selection.index }
      | some accessSize =>
        match explicitBank with
        | some bank =>
          if !bank.accommodates accessSize then
            { status := .explicitRangeExceeded, selectedRom := some selection.index,
              accessSize := accessSize, selector := bank.value, explicitOverride := true }
          else
            { status := .selected, selectedRom := some selection.index, accessSize := accessSize,
              selector := bank.value, explicitOverride := true }
        | none =>
          allocatedPlan (allocateSaveBanks saveMarkers selection.index 4) selection.index accessSize

/-- The request of `--rom index+1` without `--save-bank`. -/
def romRequest (index : Nat) (consecutiveBankCount writeSize : Option Nat) : SaveAccessRequest :=
  ⟨some (index + 1), none, consecutiveBankCount, writeSize⟩

theorem mem_supportedRoms {markers : List Bytes} {index : Nat} :
    index ∈ supportedRoms markers ↔
      (markers[index]?.bind supportedSaveSizeForMarker).isSome := by
  simp only [supportedRoms, List.mem_filter, List.mem_range, and_iff_right_iff_imp]
  intro h
  by_cases hlt : index < markers.length
  · exact hlt
  · rw [List.getElem?_eq_none (Nat.not_lt.mp hlt)] at h
    simp at h

theorem plan_rom {markers : List Bytes} {index : Nat} {count writeSize : Option Nat} :
    SaveAccessPlanner.plan (romRequest index count writeSize) markers =
      if markers.length ≤ index then { status := .romOutOfRange }
      else match markers[index]?.bind supportedSaveSizeForMarker with
        | none => { status := .requestedRomUnsupported, selectedRom := some index }
        | some size => allocatedPlan (allocateSaveBanks markers index 4) index size := by
  simp only [SaveAccessPlanner.plan, romRequest, isDirectSaveBankAccess, Option.isSome_none,
    Bool.false_and, selectSaveRom_some, mem_supportedRoms]
  by_cases hlt : markers.length ≤ index
  · rw [if_pos hlt, if_pos hlt]
  · rw [if_neg hlt, if_neg hlt]
    cases h : markers[index]?.bind supportedSaveSizeForMarker with
    | none => rfl
    | some size => simp only [Option.isSome_some, if_true, h]

theorem plan_rom_take {markers : List Bytes} {index n : Nat} {count writeSize : Option Nat}
    (h : index < n) :
    SaveAccessPlanner.plan (romRequest index count writeSize) (markers.take n) =
      SaveAccessPlanner.plan (romRequest index count writeSize) markers := by
  rw [plan_rom, plan_rom, allocateSaveBanks_take h, List.getElem?_take_of_lt h]
  by_cases hlt : index < markers.length
  · rw [if_neg (by simp only [List.length_take]; omega), if_neg (by omega)]
  · rw [if_pos (by simp only [List.length_take]; omega), if_pos (by omega)]

/-- A selected allocation: the banks of the marker, behind those of the ROMs before it. -/
theorem allocatedPlan_selected {markers : List Bytes} {index size : Nat}
    (hsize : markers[index]?.bind supportedSaveSizeForMarker = some size)
    (h : (allocatedPlan (allocateSaveBanks markers index 4) index size).status = .selected) :
    ∃ marker banks, markers[index]? = some marker ∧
      saveBankCountForMarker marker = some banks ∧ 0 < banks ∧ size = banks * bankSize ∧
      banksBefore markers index + banks ≤ 4 ∧
      allocatedPlan (allocateSaveBanks markers index 4) index size =
        { status := .selected, selectedRom := some index, accessSize := size,
          selector := UInt16.ofNat (0x0900 + banksBefore markers index * 0x10) } := by
  have hselected : (allocateSaveBanks markers index 4).status = .selected := by
    cases hs : (allocateSaveBanks markers index 4).status <;> simp [allocatedPlan, hs] at h
    rfl
  obtain ⟨marker, hmarker, hsupported⟩ := Option.bind_eq_some_iff.mp hsize
  obtain ⟨banks, hbanks, hpos, heq⟩ := saveBankCount_of_supported hsupported
  obtain ⟨banks', hbanks', hle, hselector⟩ := allocateSaveBanks_spec hselected
  rw [hmarker, Option.bind_some, hbanks, Option.some.injEq] at hbanks'
  subst hbanks'
  refine ⟨marker, banks, hmarker, hbanks, hpos, heq, hle, ?_⟩
  simp only [allocatedPlan, hselected, hselector]

theorem plan_rom_selected {markers : List Bytes} {index : Nat} {count writeSize : Option Nat}
    (h : (SaveAccessPlanner.plan (romRequest index count writeSize) markers).status = .selected) :
    ∃ marker size banks, markers[index]? = some marker ∧
      saveBankCountForMarker marker = some banks ∧ 0 < banks ∧ size = banks * bankSize ∧
      banksBefore markers index + banks ≤ 4 ∧
      SaveAccessPlanner.plan (romRequest index count writeSize) markers =
        { status := .selected, selectedRom := some index, accessSize := size,
          selector := UInt16.ofNat (0x0900 + banksBefore markers index * 0x10) } := by
  rw [plan_rom] at h ⊢
  by_cases hlt : markers.length ≤ index
  · rw [if_pos hlt] at h
    cases h
  · rw [if_neg hlt] at h ⊢
    cases hsize : markers[index]?.bind supportedSaveSizeForMarker with
    | none => simp [hsize] at h
    | some size =>
      simp only [hsize] at h ⊢
      obtain ⟨marker, banks, hplan⟩ := allocatedPlan_selected hsize h
      exact ⟨marker, size, banks, hplan⟩

/-! ## The range check -/

/-- One to four whole banks that end at or before the last one. -/
def WithinBanks (selector : UInt16) (accessSize : Nat) : Prop :=
  ∃ banks, 1 ≤ banks ∧ banks ≤ 4 ∧ accessSize = banks * bankSize ∧
    selector.toNat + (banks - 1) * bankStride ≤ lastBank.toNat

theorem withinBanks_iff {bank : SaveBankSelector} {banks : Nat} :
    WithinBanks bank.value (banks * bankSize) ↔
      0 < banks ∧ bank.value.toNat + (banks - 1) * bankStride ≤ lastBank.toNat := by
  obtain ⟨k, _, hvalue⟩ := provenBank_iff.mp bank.proven
  have hlast : lastBank.toNat = 0x0930 := rfl
  constructor
  · rintro ⟨banks', hpos, _, heq, hle⟩
    obtain rfl := Nat.mul_right_cancel (show 0 < bankSize by decide) heq
    exact ⟨hpos, hle⟩
  · rintro ⟨hpos, hle⟩
    refine ⟨banks, hpos, ?_, rfl, hle⟩
    rw [hvalue, bankStride, hlast] at hle
    omega

theorem withinBanks_of_accommodates {bank : SaveBankSelector} {banks : Nat} (hfour : banks ≤ 4)
    (h : bank.accommodates (banks * bankSize) = true) :
    WithinBanks bank.value (banks * bankSize) := by
  obtain ⟨banks', hpos, heq, hle⟩ := accommodates_iff_mod.mp h
  obtain rfl := Nat.mul_right_cancel (show 0 < bankSize by decide) heq
  have hvalue := bank.value.toNat_lt
  rw [bankStride, Nat.mod_eq_of_lt (by omega)] at hle
  exact withinBanks_iff.mpr ⟨hpos, hle⟩

/-- A selected plan that is no direct access takes a proven bank and stays inside the four. -/
theorem plan_within {request : SaveAccessRequest} {markers : List Bytes}
    (hdirect : isDirectSaveBankAccess request.romNumber request.explicitBank.isSome = false)
    (h : (SaveAccessPlanner.plan request markers).status = .selected) :
    ProvenBank (SaveAccessPlanner.plan request markers).selector ∧
      WithinBanks (SaveAccessPlanner.plan request markers).selector
        (SaveAccessPlanner.plan request markers).accessSize := by
  obtain ⟨romNumber, explicitBank, count, writeSize⟩ := request
  dsimp only at hdirect
  simp only [SaveAccessPlanner.plan, hdirect] at h ⊢
  generalize selectSaveRom markers.length (supportedRoms markers) romNumber = selection at h ⊢
  cases hstatus : selection.status <;> simp only [hstatus] at h ⊢ <;> try cases h
  cases hsize : markers[selection.index]?.bind supportedSaveSizeForMarker with
  | none => simp [hsize] at h
  | some size =>
    simp only [hsize] at h ⊢
    cases explicitBank with
    | some bank =>
      dsimp only at h ⊢
      split at h
      · cases h
      case isFalse hfits =>
        rw [if_neg hfits]
        obtain ⟨marker, _, hsupported⟩ := Option.bind_eq_some_iff.mp hsize
        obtain ⟨banks, hbanks, _, rfl⟩ := saveBankCount_of_supported hsupported
        exact ⟨bank.proven, withinBanks_of_accommodates (saveBankCount_le hbanks)
          (by simpa using hfits)⟩
    | none =>
      obtain ⟨marker, banks, _, _, hpos, rfl, hle, hplan⟩ := allocatedPlan_selected hsize h
      rw [hplan]
      have hvalue : (UInt16.ofNat
          (0x0900 + banksBefore markers selection.index * 0x10)).toNat =
            0x0900 + banksBefore markers selection.index * 0x10 := by
        rw [UInt16.toNat_ofNat', Nat.mod_eq_of_lt (by omega)]
      have hbank := provenBank_iff.mpr ⟨banksBefore markers selection.index, by omega, hvalue⟩
      refine ⟨hbank, (@withinBanks_iff ⟨_, hbank⟩ banks).mpr ⟨hpos, ?_⟩⟩
      rw [hvalue, bankStride, show lastBank.toNat = 0x0930 from rfl]
      omega

/-! ## Requests for more banks than there are -/

/-- The banks that a direct request asks for: what the planner's product leaves of the count, or
the banks that the save fills, or one. -/
def SaveAccessRequest.AsksFor (request : SaveAccessRequest) (banks : Nat) : Prop :=
  match request.consecutiveBankCount, request.writeSize with
  | some count, _ => banks = count % 2 ^ 49
  | none, some size => size = banks * bankSize
  | none, none => banks = 1

/-- A direct request for banks behind the last one whose final selector, modulo 2^32, comes out at
or before it. -/
def SaveAccessRequest.Wraps (request : SaveAccessRequest) : Prop :=
  request.romNumber = none ∧ ∃ bank banks, request.explicitBank = some bank ∧
    request.AsksFor banks ∧
    lastBank.toNat < bank.value.toNat + (banks - 1) * bankStride ∧
    (bank.value.toNat + (banks - 1) * bankStride) % 2 ^ 32 ≤ lastBank.toNat

/-- The size of a direct request. -/
theorem asksFor_iff {request : SaveAccessRequest} {banks : Nat} :
    request.AsksFor banks ↔ (match request.consecutiveBankCount with
      | some count => count * bankSize % 2 ^ 64
      | none => directSaveAccessSize request.writeSize) = banks * bankSize := by
  have hcancel : ∀ n : Nat, n * bankSize = banks * bankSize ↔ banks = n :=
    fun n => ⟨fun h => (Nat.mul_right_cancel (show 0 < bankSize by decide) h).symm, fun h => h ▸ rfl⟩
  obtain ⟨romNumber, explicitBank, count, writeSize⟩ := request
  cases count with
  | some count =>
    rw [SaveAccessRequest.AsksFor]
    dsimp only
    rw [show 2 ^ 64 = 2 ^ 49 * bankSize from rfl, Nat.mul_mod_mul_right, hcancel]
  | none =>
    cases writeSize with
    | some size => exact Iff.rfl
    | none =>
      rw [SaveAccessRequest.AsksFor]
      exact (hcancel 1).symm

/-- The plan for a bank without a ROM number. -/
theorem plan_direct {bank : SaveBankSelector} {count writeSize : Option Nat} {markers : List Bytes} :
    ∃ accessSize, (∀ banks, SaveAccessRequest.AsksFor ⟨none, some bank, count, writeSize⟩ banks ↔
        accessSize = banks * bankSize) ∧
      SaveAccessPlanner.plan ⟨none, some bank, count, writeSize⟩ markers =
        { status := if bank.accommodates accessSize then .selected else .directRangeExceeded,
          accessSize := accessSize, selector := bank.value, direct := true,
          explicitOverride := true } := by
  refine ⟨_, fun banks => asksFor_iff, ?_⟩
  simp only [SaveAccessPlanner.plan, isDirectSaveBankAccess, Option.isSome_some, Option.isNone_none,
    Bool.and_self]
  generalize (match count with
    | some count => count * bankSize % 2 ^ 64
    | none => directSaveAccessSize writeSize) = accessSize
  cases bank.accommodates accessSize with
  | false => rfl
  | true => rfl

/-- Whatever is requested and whatever markers the card has, a selected plan takes one to four whole
banks up to the last one, unless the request makes the range check wrap. -/
theorem plan_within_iff (request : SaveAccessRequest) (markers : List Bytes) :
    ((SaveAccessPlanner.plan request markers).status = .selected →
      WithinBanks (SaveAccessPlanner.plan request markers).selector
        (SaveAccessPlanner.plan request markers).accessSize) ↔ ¬ request.Wraps := by
  obtain ⟨romNumber, explicitBank, count, writeSize⟩ := request
  cases hdirect : isDirectSaveBankAccess romNumber explicitBank.isSome with
  | false =>
    refine iff_of_true (fun h => (plan_within hdirect h).2) ?_
    rintro ⟨hrom, bank, banks, hbank, _⟩
    dsimp only at hrom hbank
    rw [hrom, hbank] at hdirect
    cases hdirect
  | true =>
    obtain ⟨hbank, hrom⟩ := Bool.and_eq_true_iff.mp hdirect
    rw [Option.isNone_iff_eq_none] at hrom
    obtain ⟨bank, rfl⟩ := Option.isSome_iff_exists.mp hbank
    subst hrom
    obtain ⟨accessSize, hasks, hplan⟩ := @plan_direct bank count writeSize markers
    rw [hplan]
    dsimp only
    constructor
    · rintro hwithin ⟨_, _, banks, ⟨⟩, hbanks, hbeyond, hmod⟩
      obtain rfl := (hasks banks).mp hbanks
      have hpos : 0 < banks := by
        have hvalue := bank.proven.2.1
        rw [UInt16.le_iff_toNat_le] at hvalue
        refine Nat.pos_of_ne_zero ?_
        rintro rfl
        omega
      rw [if_pos (accommodates_iff_mod.mpr ⟨banks, hpos, rfl, hmod⟩)] at hwithin
      have hle := (withinBanks_iff.mp (hwithin rfl)).2
      omega
    · intro hnowrap hselected
      split at hselected
      case isFalse => cases hselected
      case isTrue hfits =>
        obtain ⟨banks, hpos, rfl, hmod⟩ := accommodates_iff_mod.mp hfits
        refine withinBanks_iff.mpr ⟨hpos, Nat.not_lt.mp fun hbeyond => ?_⟩
        exact hnowrap ⟨rfl, bank, banks, rfl, (hasks banks).mpr rfl, hbeyond, hmod⟩

def bank0900 : SaveBankSelector := ⟨0x0900, by decide⟩

/-- A save of 2^43 + 0x8000 bytes fills 2^28 + 1 banks, and the check takes them for one. -/
theorem plan_wraps :
    SaveBankSelector.parse (ascii "0x0900") = some bank0900 ∧
      let plan := SaveAccessPlanner.plan ⟨none, some bank0900, none, some 0x80000008000⟩ []
      plan.status = .selected ∧ plan.accessSize = (2 ^ 28 + 1) * bankSize ∧
        ¬ WithinBanks plan.selector plan.accessSize := by
  refine ⟨by decide, by decide, by decide, ?_⟩
  rw [show (SaveAccessPlanner.plan ⟨none, some bank0900, none, some 0x80000008000⟩
    []).accessSize = (2 ^ 28 + 1) * bankSize from by decide]
  intro hwithin
  have hle := ((@withinBanks_iff bank0900 (2 ^ 28 + 1)).mp hwithin).2
  exact absurd hle (by decide)

/-! ## Bank ranges -/

/-- The selectors from the plan's first bank up to the end of its last one. -/
def SaveAccessPlan.InRange (plan : SaveAccessPlan) (selector : Nat) : Prop :=
  plan.selector.toNat ≤ selector ∧
    selector < plan.selector.toNat + plan.accessSize / 0x8000 * 0x10

theorem inRange_rom {markers : List Bytes} {index : Nat} {count writeSize : Option Nat}
    (h : (SaveAccessPlanner.plan (romRequest index count writeSize) markers).status = .selected)
    (a : Nat) :
    (SaveAccessPlanner.plan (romRequest index count writeSize) markers).InRange a ↔
      0x0900 + banksBefore markers index * 0x10 ≤ a ∧
        a < 0x0900 + banksBefore markers (index + 1) * 0x10 := by
  obtain ⟨marker, size, banks, hm, hb, _, rfl, hle, hplan⟩ := plan_rom_selected h
  have hsel : (UInt16.ofNat (0x0900 + banksBefore markers index * 0x10)).toNat =
      0x0900 + banksBefore markers index * 0x10 := by
    rw [UInt16.toNat_ofNat', Nat.mod_eq_of_lt (by omega)]
  rw [hplan, banksBefore_succ hm, hb]
  simp only [SaveAccessPlan.InRange, hsel, bankSize, Option.getD_some]
  omega

theorem banksBefore_succ_le {markers : List Bytes} {index : Nat} {count writeSize : Option Nat}
    (h : (SaveAccessPlanner.plan (romRequest index count writeSize) markers).status = .selected) :
    banksBefore markers (index + 1) ≤ 4 := by
  obtain ⟨marker, size, banks, hm, hb, _, _, hle, _⟩ := plan_rom_selected h
  rw [banksBefore_succ hm, hb]
  exact hle

/-- Cumulative allocation never hands two ROMs of a card the same bank, and the plan of a ROM is
settled by the markers up to its own. -/
theorem plan_ranges_disjoint (markers : List Bytes) (i j : Nat)
    (counti countj writei writej : Option Nat) (hij : i ≠ j) :
    let plan := SaveAccessPlanner.plan (romRequest i counti writei)
    let plan' := SaveAccessPlanner.plan (romRequest j countj writej)
    plan (markers.take (i + 1)) = plan markers ∧
      ((plan markers).status = .selected → (plan' markers).status = .selected →
        (∀ a, (plan markers).InRange a → ¬ (plan' markers).InRange a) ∧
        (∀ a, (plan markers).InRange a → 0x0900 ≤ a ∧ a < 0x0930 + 0x10) ∧
        (∀ a, (plan' markers).InRange a → 0x0900 ≤ a ∧ a < 0x0930 + 0x10)) := by
  intro plan plan'
  refine ⟨plan_rom_take (Nat.lt_succ_self i), ?_⟩
  intro hi hj
  have hbi := banksBefore_succ_le hi
  have hbj := banksBefore_succ_le hj
  refine ⟨?_, ?_, ?_⟩
  · intro a hai haj
    rw [inRange_rom hi] at hai
    rw [inRange_rom hj] at haj
    rcases Nat.lt_or_gt_of_ne hij with hlt | hgt
    · have := @banksBefore_mono markers _ _ (show i + 1 ≤ j from hlt)
      omega
    · have := @banksBefore_mono markers _ _ (show j + 1 ≤ i from hgt)
      omega
  · intro a hai
    rw [inRange_rom hi] at hai
    omega
  · intro a haj
    rw [inRange_rom hj] at haj
    omega

theorem plan_ranges_disjoint_pair :
    let markers := [ascii "FLASH512_V131", ascii "SRAM_V111"]
    (SaveAccessPlanner.plan (romRequest 0 none none) markers).selector = 0x0900 ∧
      (SaveAccessPlanner.plan (romRequest 1 none none) markers).selector = 0x0920 ∧
      ∀ a, (SaveAccessPlanner.plan (romRequest 0 none none) markers).InRange a →
        ¬ (SaveAccessPlanner.plan (romRequest 1 none none) markers).InRange a := by
  intro markers
  exact ⟨by decide, by decide,
    ((plan_ranges_disjoint markers 0 1 none none none none (by decide)).2
      (by decide) (by decide)).1⟩

end Ezfadvance
