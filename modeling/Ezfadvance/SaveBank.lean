import Ezfadvance.Bytes
import Mathlib.Algebra.GroupWithZero.Nat

/-!
# SaveBank

The four 32-KiB save banks and their selectors `0x0900`, `0x0910`, `0x0920`, `0x0930`
(`save_bank_selector.hpp`, `save_bank_layout.hpp`, `save_selection.hpp`).

* `SaveBankSelector`       — a selector that passed `parse`; its range check is a field.
* `accommodates_iff_mod`   — the range check, computed modulo 2^32.
* `allocateSaveBanks`      — cumulative allocation in catalog order.
* `allocateSaveBanks_spec` — what `selected` means: the banks start after those of the
  predecessors, and still fit.
-/

namespace Ezfadvance

/-! ## Numbers on the command line -/

def digitValue (base : Nat) (c : UInt8) : Option Nat :=
  let value :=
    if 48 ≤ c.toNat ∧ c.toNat ≤ 57 then some (c.toNat - 48)
    else if 97 ≤ c.toNat ∧ c.toNat ≤ 122 then some (c.toNat - 87)
    else if 65 ≤ c.toNat ∧ c.toNat ≤ 90 then some (c.toNat - 55)
    else none
  value.bind fun v => if v < base then some v else none

def foldDigits (base : Nat) : Bytes → Nat → Option Nat
  | [], value => some value
  | c :: text, value =>
    match digitValue base c with
    | none => none
    | some d => foldDigits base text (value * base + d)

/-- `std::from_chars` on the whole of `text`, into an unsigned 64-bit number. -/
def fromChars (text : Bytes) (base : Nat) : Option Nat :=
  if text = [] then none
  else (foldDigits base text 0).bind fun value => if value < 2 ^ 64 then some value else none

/-! ## SaveBankSelector -/

def firstBank : UInt16 := 0x0900
def lastBank : UInt16 := 0x0930
def bankStride : Nat := 0x10
def bankSize : Nat := 0x8000

/-- The selector check of `SaveBankSelector::parse`. -/
def ProvenBank (selector : UInt16) : Prop :=
  firstBank ≤ selector ∧ selector ≤ lastBank ∧
    (selector.toNat - firstBank.toNat) % bankStride = 0

instance (selector : UInt16) : Decidable (ProvenBank selector) :=
  inferInstanceAs (Decidable (_ ∧ _ ∧ _))

structure SaveBankSelector where
  value : UInt16
  proven : ProvenBank value
  deriving DecidableEq

namespace SaveBankSelector

def ofValue (selector : UInt16) : Option SaveBankSelector :=
  if h : ProvenBank selector then some ⟨selector, h⟩ else none

def parse (text : Bytes) : Option SaveBankSelector :=
  let hex := 2 < text.length ∧ text[0]? = some 48 ∧ (text[1]? = some 120 ∨ text[1]? = some 88)
  let base := if hex then 16 else 10
  let digits := if hex then text.drop 2 else text
  match fromChars digits base with
  | none => none
  | some value => if value > 0xFFFF then none else ofValue (UInt16.ofNat value)

def accommodates (bank : SaveBankSelector) (saveSize : Nat) : Bool :=
  if saveSize = 0 ∨ saveSize % bankSize ≠ 0 then false
  else
    let banks := saveSize / bankSize
    decide (bank.value.toUInt32 + UInt32.ofNat ((banks - 1) * bankStride) ≤ lastBank.toUInt32)

end SaveBankSelector

theorem provenBank_iff {selector : UInt16} :
    ProvenBank selector ↔ ∃ k, k < 4 ∧ selector.toNat = 0x0900 + k * 0x10 := by
  simp only [ProvenBank, firstBank, lastBank, bankStride, UInt16.le_iff_toNat_le]
  simp only [show (0x0900 : UInt16).toNat = 0x0900 from rfl,
    show (0x0930 : UInt16).toNat = 0x0930 from rfl]
  constructor
  · rintro ⟨h1, h2, h3⟩
    exact ⟨(selector.toNat - 0x0900) / 0x10, by omega, by omega⟩
  · rintro ⟨k, hk, h⟩
    omega

/-- The check as it is computed: the sum is taken modulo 2^32. -/
theorem accommodates_iff_mod {bank : SaveBankSelector} {saveSize : Nat} :
    bank.accommodates saveSize = true ↔ ∃ banks, 0 < banks ∧ saveSize = banks * bankSize ∧
      (bank.value.toNat + (banks - 1) * bankStride) % 2 ^ 32 ≤ lastBank.toNat := by
  have hsum : ∀ banks : Nat, (bank.value.toUInt32 + UInt32.ofNat ((banks - 1) * bankStride) ≤
      lastBank.toUInt32) ↔
        (bank.value.toNat + (banks - 1) * bankStride) % 2 ^ 32 ≤ lastBank.toNat := by
    intro banks
    rw [UInt32.le_iff_toNat_le, UInt32.toNat_add, UInt32.toNat_ofNat', UInt16.toNat_toUInt32,
      UInt16.toNat_toUInt32, Nat.add_mod_mod]
  rw [SaveBankSelector.accommodates]
  split
  case isTrue hno =>
    refine iff_of_false (by decide) ?_
    rintro ⟨banks, hpos, rfl, _⟩
    rw [Nat.mul_mod_left] at hno
    simp only [bankSize] at hno
    omega
  case isFalse hyes =>
    rw [decide_eq_true_eq, hsum]
    constructor
    · intro hle
      refine ⟨saveSize / bankSize, ?_, ?_, hle⟩
      · simp only [bankSize] at hyes ⊢
        omega
      · simp only [bankSize] at hyes ⊢
        omega
    · rintro ⟨banks, _, rfl, hle⟩
      rwa [Nat.mul_div_cancel _ (by decide)]

/-! ## Save markers -/

def startsWith (marker : Bytes) (pattern : String) : Bool := (ascii pattern).isPrefixOf marker

def saveBankCountForMarker (marker : Bytes) : Option Nat :=
  if startsWith marker "FLASH1M" then some 4
  else if startsWith marker "FLASH512" || startsWith marker "FLASH_V" then some 2
  else if startsWith marker "SRAM" || startsWith marker "EEPROM" then some 1
  else none

def supportedSaveSizeForMarker (marker : Bytes) : Option Nat :=
  if marker = ascii "SRAM_V111" then some 0x8000
  else if startsWith marker "FLASH512" then some 0x10000
  else none

/-- The two tables agree: a supported marker occupies exactly the banks its save fills. -/
theorem saveBankCount_of_supported {marker : Bytes} {size : Nat}
    (h : supportedSaveSizeForMarker marker = some size) :
    ∃ count, saveBankCountForMarker marker = some count ∧ 0 < count ∧ size = count * bankSize := by
  unfold supportedSaveSizeForMarker at h
  split at h
  case isTrue hm =>
    cases h
    subst hm
    exact ⟨1, by decide, by decide, rfl⟩
  case isFalse =>
    split at h
    case isTrue hp =>
      cases h
      refine ⟨2, ?_, by decide, rfl⟩
      obtain ⟨tail, rfl⟩ := List.isPrefixOf_iff_prefix.mp hp
      simp [saveBankCountForMarker, startsWith, ascii, List.isPrefixOf]
    case isFalse => cases h

theorem saveBankCount_le {marker : Bytes} {count : Nat}
    (h : saveBankCountForMarker marker = some count) : count ≤ 4 := by
  unfold saveBankCountForMarker at h
  split at h
  · cases h
    decide
  split at h
  · cases h
    decide
  split at h
  · cases h
    decide
  · cases h

/-! ## Allocation -/

inductive SaveBankLayoutStatus where
  | selected
  | selectedRomOutOfRange
  | unknownPredecessorCapacity
  | capacityExceeded
  deriving DecidableEq

structure SaveBankLayout where
  status : SaveBankLayoutStatus
  selector : UInt16
  firstUnknownRom : Nat
  deriving DecidableEq

/-- The loop of `allocateSaveBanks`: `rom` is the index of the next marker. -/
def allocateFrom (selectedRom availableBanks : Nat) : List Bytes → Nat → Nat → SaveBankLayout
  | [], _, _ => ⟨.selectedRomOutOfRange, 0, 0⟩
  | marker :: markers, rom, bank =>
    match saveBankCountForMarker marker with
    | none => ⟨.unknownPredecessorCapacity, 0, rom⟩
    | some count =>
      if bank > availableBanks ∨ count > availableBanks - bank then ⟨.capacityExceeded, 0, rom⟩
      else if rom = selectedRom then ⟨.selected, UInt16.ofNat (0x0900 + bank * 0x10), 0⟩
      else allocateFrom selectedRom availableBanks markers (rom + 1) (bank + count)

def allocateSaveBanks (markers : List Bytes) (selectedRom availableBanks : Nat) : SaveBankLayout :=
  if selectedRom ≥ markers.length then ⟨.selectedRomOutOfRange, 0, 0⟩
  else allocateFrom selectedRom availableBanks markers 0 0

/-- Banks taken by the first `n` markers. -/
def banksBefore (markers : List Bytes) (n : Nat) : Nat :=
  ((markers.take n).map fun m => (saveBankCountForMarker m).getD 0).sum

theorem banksBefore_succ {markers : List Bytes} {n : Nat} {marker : Bytes}
    (h : markers[n]? = some marker) :
    banksBefore markers (n + 1) =
      banksBefore markers n + (saveBankCountForMarker marker).getD 0 := by
  simp only [banksBefore, List.take_add_one, h, Option.toList_some, List.map_append, List.map_cons,
    List.map_nil, List.sum_append, List.sum_cons, List.sum_nil, Nat.add_zero]

theorem banksBefore_mono {markers : List Bytes} {n m : Nat} (h : n ≤ m) :
    banksBefore markers n ≤ banksBefore markers m := by
  induction m with
  | zero => exact Nat.le_of_eq (by rw [Nat.le_zero.mp h])
  | succ m ih =>
    by_cases hm : n = m + 1
    · exact Nat.le_of_eq (by rw [hm])
    · have hle := ih (by omega)
      by_cases hlen : m < markers.length
      · rw [banksBefore_succ (List.getElem?_eq_getElem hlen)]
        omega
      · have hall : markers.take (m + 1) = markers.take m := by
          rw [List.take_of_length_le (by omega), List.take_of_length_le (by omega)]
        calc banksBefore markers n ≤ banksBefore markers m := hle
          _ = banksBefore markers (m + 1) := by rw [banksBefore, banksBefore, hall]

/-- The loop reaches the selected marker exactly when every count up to it is known and fits. -/
theorem allocateFrom_selected {selectedRom available : Nat} :
    ∀ {markers : List Bytes} {rom bank : Nat}, rom ≤ selectedRom →
      (allocateFrom selectedRom available markers rom bank).status = .selected →
      ∃ count, (markers[selectedRom - rom]?.bind saveBankCountForMarker) = some count ∧
        bank + banksBefore markers (selectedRom - rom) + count ≤ available ∧
        (allocateFrom selectedRom available markers rom bank).selector =
          UInt16.ofNat (0x0900 + (bank + banksBefore markers (selectedRom - rom)) * 0x10) := by
  intro markers
  induction markers with
  | nil => intro rom bank _ h; simp [allocateFrom] at h
  | cons marker markers ih =>
    intro rom bank hrom h
    unfold allocateFrom at h ⊢
    cases hcount : saveBankCountForMarker marker with
    | none => simp [hcount] at h
    | some count =>
      simp only [hcount] at h ⊢
      split at h
      case isTrue => cases h
      case isFalse hfits =>
        rw [if_neg hfits]
        by_cases hsel : rom = selectedRom
        · subst hsel
          refine ⟨count, by simp [hcount], ?_, ?_⟩
          · simp only [Nat.sub_self, banksBefore, List.take_zero, List.map_nil, List.sum_nil]
            omega
          · simp [banksBefore]
        · rw [if_neg hsel] at h ⊢
          obtain ⟨c, hc, hle, hv⟩ := ih (by omega) h
          have hidx : selectedRom - rom = (selectedRom - (rom + 1)) + 1 := by omega
          have hsum : banksBefore (marker :: markers) (selectedRom - rom) =
              count + banksBefore markers (selectedRom - (rom + 1)) := by
            rw [hidx]
            simp [banksBefore, hcount]
          refine ⟨c, ?_, by omega, ?_⟩
          · rw [hidx, List.getElem?_cons_succ]; exact hc
          · rw [hv, hsum, Nat.add_assoc]

/-- A successful allocation starts behind the predecessors' banks and leaves room for the save. -/
theorem allocateSaveBanks_spec {markers : List Bytes} {selectedRom available : Nat}
    (h : (allocateSaveBanks markers selectedRom available).status = .selected) :
    ∃ count, (markers[selectedRom]?.bind saveBankCountForMarker) = some count ∧
      banksBefore markers selectedRom + count ≤ available ∧
      (allocateSaveBanks markers selectedRom available).selector =
        UInt16.ofNat (0x0900 + banksBefore markers selectedRom * 0x10) := by
  unfold allocateSaveBanks at h ⊢
  split at h
  case isTrue => cases h
  case isFalse hlen =>
    rw [if_neg hlen]
    simpa using allocateFrom_selected (Nat.zero_le _) h

/-- Only the markers up to the selected one are looked at. -/
theorem allocateFrom_take {selectedRom available : Nat} :
    ∀ {markers : List Bytes} {rom bank n : Nat}, rom ≤ selectedRom → selectedRom < rom + n →
      selectedRom < rom + markers.length →
      allocateFrom selectedRom available (markers.take n) rom bank =
        allocateFrom selectedRom available markers rom bank := by
  intro markers
  induction markers with
  | nil => intro rom bank n _ _ _; simp
  | cons marker markers ih =>
    intro rom bank n hrom hn hlen
    obtain ⟨n, rfl⟩ : ∃ k, n = k + 1 := ⟨n - 1, by omega⟩
    rw [List.take_succ_cons]
    simp only [allocateFrom]
    cases saveBankCountForMarker marker with
    | none => rfl
    | some count =>
      dsimp only
      split
      case isTrue => rfl
      case isFalse =>
        split
        case isTrue => rfl
        case isFalse hsel =>
          exact ih (by omega) (by omega) (by simp only [List.length_cons] at hlen; omega)

theorem allocateSaveBanks_take {markers : List Bytes} {selectedRom n available : Nat}
    (h : selectedRom < n) :
    allocateSaveBanks (markers.take n) selectedRom available =
      allocateSaveBanks markers selectedRom available := by
  unfold allocateSaveBanks
  by_cases hlen : selectedRom < markers.length
  · rw [if_neg (by simp only [List.length_take]; omega), if_neg (by omega)]
    exact allocateFrom_take (Nat.zero_le _) (by omega) (by omega)
  · rw [if_pos (by simp only [List.length_take]; omega), if_pos (by omega)]

end Ezfadvance
