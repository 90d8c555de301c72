import Ezfadvance.FlashWriter
import Ezfadvance.SaveBank

/-!
# SaveMemory

Reading, writing and clearing whole 32-KiB save banks (`save_bank_access.cpp`,
`save_memory_reader.cpp`, `save_memory_writer.cpp`, `save_bank_cleaner.cpp`).

* `SaveBankAccess.select`, `SaveMemoryReader.read`, `SaveMemoryWriter.write`,
  `SaveBankCleaner.clearRange`: bank after bank, up to the first failure.
* `saveBanks`: the selector and the 32 KiB of each bank of a save.
* `runs_read`, `runs_write_true_iff`, `runs_clearRange_true_iff`: the only traces that succeed.
-/

namespace Ezfadvance

open Interact Interact.Program Usb Protocol

namespace SaveBankAccess

def selection (bankValue : UInt16) : List Tx :=
  let low := (bankValue &&& 0xFF).toUInt8
  let high := (bankValue >>> 8).toUInt8
  [.two 0x55 0xAA, .two 0x00 0x00, .two 0x00 0x00, .two low high,
    .two 0x00 0x00, .two 0x00 0x00, .two 0x00 0x00, .two 0x00 0x00]

def select {ε : Type} (bankValue : UInt16) : Usb ε Bool := do
  ask (Transport.Op.selectBank bankValue)
  sendAll (selection bankValue)

end SaveBankAccess

/-- The selector of the bank `index` banks behind `firstBank`. -/
def bankSelector (firstBank : UInt16) (index : Nat) : UInt16 :=
  firstBank + UInt16.ofNat (index * bankStride)

namespace SaveMemoryReader

def readCommand : Bytes := command 0x91 0x01 0 0x8000 0x00

def readBank32KiB {ε : Type} (bankValue : UInt16) : Usb ε (Option Bytes) := do
  if !(← SaveBankAccess.select bankValue) then return none
  if !(← out readCommand) then return none
  inExact bankSize

/-- `count` banks from `index` on. -/
def readBanks {ε : Type} (firstBank : UInt16) : Nat → Nat → Usb ε (Option Bytes)
  | _, 0 => .pure (some [])
  | index, count + 1 => do
    match ← readBank32KiB (bankSelector firstBank index) with
    | none => return none
    | some bankData =>
      match ← readBanks firstBank (index + 1) count with
      | none => return none
      | some rest => return some (bankData ++ rest)

/-- One to four complete banks. -/
def Complete (saveSize : Nat) : Prop :=
  saveSize ≠ 0 ∧ saveSize ≤ 4 * bankSize ∧ saveSize % bankSize = 0

instance (saveSize : Nat) : Decidable (Complete saveSize) :=
  inferInstanceAs (Decidable (_ ∧ _ ∧ _))

def read (saveSize : Nat) (firstBank : UInt16) : Usb StdException (Option Bytes) :=
  if ¬ Complete saveSize then
    .throw (.runtimeError "capture reader supports one to four consecutive 32-KiB banks")
  else do
    match ← readBanks firstBank 0 (saveSize / bankSize) with
    | none => return none
    | some save => return if save.length = saveSize then some save else none

end SaveMemoryReader

def saveWriteCommand : Bytes := command 0x92 0x01 0 0x8000 0x00

/-- The banks of a save from `index` on, each with its 32 KiB. -/
def bankChunks (firstBank : UInt16) : Nat → Nat → Bytes → List (UInt16 × Bytes)
  | _, 0, _ => []
  | index, count + 1, save =>
    (bankSelector firstBank index, save.take bankSize) ::
      bankChunks firstBank (index + 1) count (save.drop bankSize)

def saveBanks (firstBank : UInt16) (save : Bytes) : List (UInt16 × Bytes) :=
  bankChunks firstBank 0 (save.length / bankSize) save

namespace SaveMemoryWriter

variable {ε : Type}

def write32KiB (bankValue : UInt16) (save : Bytes) : Usb ε Bool :=
  if save.length ≠ bankSize then .pure false
  else both (SaveBankAccess.select bankValue) (commandDataEcho saveWriteCommand save)

def write (firstBank : UInt16) (save : Bytes) : Usb ε Bool :=
  if save = [] ∨ save.length % bankSize ≠ 0 ∨ save.length > 4 * bankSize then .pure false
  else allOf ((saveBanks firstBank save).map fun bank => write32KiB bank.1 bank.2)

end SaveMemoryWriter

namespace SaveBankCleaner

variable {ε : Type}

def zeros : Bytes := List.replicate 0x8000 0x00

/-- The range check of `clearRange`. -/
def InRange (firstSelector : UInt16) (bankCount : Nat) : Prop :=
  bankCount ≠ 0 ∧ bankCount ≤ 4 ∧ ProvenBank firstSelector ∧
    firstSelector.toNat + (bankCount - 1) * bankStride ≤ lastBank.toNat

instance (firstSelector : UInt16) (bankCount : Nat) :
    Decidable (InRange firstSelector bankCount) :=
  inferInstanceAs (Decidable (_ ∧ _ ∧ _ ∧ _))

theorem length_zeros : zeros.length = bankSize := List.length_replicate

def clearRange (firstSelector : UInt16) (bankCount : Nat) : Usb ε Bool :=
  if ¬ InRange firstSelector bankCount then .pure false
  else
    allOf ((List.range bankCount).map fun bank =>
      both (SaveBankAccess.select (bankSelector firstSelector bank))
        (commandDataEcho saveWriteCommand zeros))

def clearAll : Usb ε Bool := clearRange firstBank 4

end SaveBankCleaner

/-! ## The banks of a save -/

theorem toNat_bankSelector {k : Nat} (hk : k < 4) :
    (bankSelector firstBank k).toNat = 0x0900 + k * 0x10 := by
  have hvalue : ∀ k < 4, (bankSelector firstBank k).toNat = 0x0900 + k * 0x10 := by decide
  exact hvalue k hk

/-- The banks of a save, counted from the first. -/
theorem bankChunks_eq_map {first : UInt16} {count index : Nat} {save : Bytes} :
    bankChunks first index count save = (List.range count).map fun j =>
      (bankSelector first (index + j), (save.drop (j * bankSize)).take bankSize) := by
  induction count generalizing index save with
  | zero => rfl
  | succ count ih =>
    rw [bankChunks, ih, List.range_succ_eq_map, List.map_cons, List.map_map]
    refine congrArg₂ List.cons ?_ (List.map_congr_left fun j _ => ?_)
    · rw [Nat.add_zero, Nat.zero_mul, List.drop_zero]
    · rw [Function.comp_apply, List.drop_drop, Nat.succ_mul, Nat.add_comm bankSize,
        Nat.succ_eq_add_one, Nat.add_right_comm index, Nat.add_assoc]

theorem saveBanks_eq_map {first : UInt16} {count : Nat} {save : Bytes}
    (hlen : save.length = count * bankSize) :
    saveBanks first save = (List.range count).map fun j =>
      (bankSelector first j, (save.drop (j * bankSize)).take bankSize) := by
  have hcount : save.length / bankSize = count := by
    rw [hlen, Nat.mul_div_cancel _ (show 0 < bankSize by decide)]
  rw [saveBanks, hcount, bankChunks_eq_map]
  simp only [Nat.zero_add]

/-! ## What is sent -/

/-- Sends only packets in `P`, and selects only save banks in `B`. -/
def Transport.Uses (P : Bytes → Prop) (B : UInt16 → Prop) : Transport.Op → Prop
  | .out data => P data
  | .inExact _ => True
  | .inMax _ => True
  | .selectBank bankValue => B bankValue

theorem Transport.Uses.of_sends {P : Bytes → Prop} {B : UInt16 → Prop} {o : Transport.Op}
    (h : Transport.Sends P o) : Transport.Uses P B o := by
  cases o with
  | out data => exact h
  | inExact wanted => trivial
  | inMax maximum => trivial
  | selectBank bankValue => exact h.elim

section Uses

variable {ε : Type} {P : Bytes → Prop} {B : UInt16 → Prop} {firstBank bankValue : UInt16}

/-- Packets that select a bank. -/
def SelectsWith (P : Bytes → Prop) : Prop := P command92Two ∧ ∀ first second, P [first, second]

theorem selection_two (bankValue : UInt16) :
    ∀ tx ∈ SaveBankAccess.selection bankValue, ∃ first second, tx = .two first second := by
  simp [SaveBankAccess.selection]

theorem always_selectBank (hP : SelectsWith P) (hB : B bankValue) :
    Always (Transport.Uses P B) Returns (SaveBankAccess.select bankValue : Usb ε Bool) := by
  refine (always_ask (A := Transport.Uses P B) (o := .selectBank bankValue) hB).then fun _ =>
    always_sendAll ?_ trivial
  intro tx htx data hdata
  obtain ⟨first, second, rfl⟩ := selection_two bankValue tx htx
  obtain rfl | rfl : data = command92Two ∨ data = [first, second] := by
    simpa [Tx.packets] using hdata
  · exact hP.1
  · exact hP.2 first second

theorem always_readBank32KiB (hP : SelectsWith P) (hread : P SaveMemoryReader.readCommand)
    (hB : B bankValue) :
    Always (Transport.Uses P B) Returns
      (SaveMemoryReader.readBank32KiB bankValue : Usb ε (Option Bytes)) := by
  refine (always_selectBank hP hB).then fun selected => ?_
  cases selected with
  | false => trivial
  | true =>
    refine (always_out hread).then fun sent => ?_
    cases sent with
    | false => trivial
    | true => exact always_inExact trivial

theorem always_readBanks (hP : SelectsWith P) (hread : P SaveMemoryReader.readCommand)
    {count index : Nat} (hB : ∀ k < count, B (bankSelector firstBank (index + k))) :
    Always (Transport.Uses P B) Returns
      (SaveMemoryReader.readBanks firstBank index count : Usb ε (Option Bytes)) := by
  induction count generalizing index with
  | zero => trivial
  | succ count ih =>
    have hrest : ∀ k < count, B (bankSelector firstBank (index + 1 + k)) := by
      intro k hk
      have hnext := hB (k + 1) (by omega)
      rwa [show index + (k + 1) = index + 1 + k by omega] at hnext
    refine (always_readBank32KiB hP hread (hB 0 (by omega))).then fun bankData => ?_
    cases bankData with
    | none => trivial
    | some bankData =>
      refine (ih hrest).then fun rest => ?_
      cases rest with
      | none => trivial
      | some rest => trivial

theorem always_readSave {saveSize : Nat} (hP : SelectsWith P)
    (hread : P SaveMemoryReader.readCommand) (hsize : SaveMemoryReader.Complete saveSize)
    (hB : ∀ k < saveSize / bankSize, B (bankSelector firstBank k)) :
    Always (Transport.Uses P B) Returns (SaveMemoryReader.read saveSize firstBank) := by
  rw [SaveMemoryReader.read, if_neg (not_not_intro hsize)]
  refine (always_readBanks hP hread (by simpa using hB)).then fun save => ?_
  cases save with
  | none => trivial
  | some save => trivial

theorem mem_bankChunks {count index : Nat} {save : Bytes} {bank : UInt16 × Bytes}
    (h : bank ∈ bankChunks firstBank index count save) :
    ∃ k < count, bank.1 = bankSelector firstBank (index + k) := by
  rw [bankChunks_eq_map] at h
  obtain ⟨k, hk, rfl⟩ := List.mem_map.mp h
  exact ⟨k, List.mem_range.mp hk, rfl⟩

theorem always_writeSave {save : Bytes} (hP : SelectsWith P) (hwrite : P saveWriteCommand)
    (hpayload : ∀ data, data.length = bankSize → P data)
    (hB : ∀ k < save.length / bankSize, B (bankSelector firstBank k)) :
    Always (Transport.Uses P B) Returns (SaveMemoryWriter.write firstBank save : Usb ε Bool) := by
  rw [SaveMemoryWriter.write]
  split
  · trivial
  · refine always_allOf fun p hp => ?_
    obtain ⟨bank, hbank, rfl⟩ := List.mem_map.mp hp
    obtain ⟨k, hk, hselector⟩ := mem_bankChunks hbank
    rw [SaveMemoryWriter.write32KiB]
    split
    · trivial
    case isFalse hlen =>
      refine (always_selectBank hP ?_).both
        (always_commandDataEcho hwrite (hpayload _ (not_not.mp hlen)) trivial)
      rw [hselector, Nat.zero_add]
      exact hB k hk

theorem always_clearRange {bankCount : Nat} (hP : SelectsWith P) (hwrite : P saveWriteCommand)
    (hzeros : P SaveBankCleaner.zeros)
    (hB : SaveBankCleaner.InRange firstBank bankCount →
      ∀ k < bankCount, B (bankSelector firstBank k)) :
    Always (Transport.Uses P B) Returns
      (SaveBankCleaner.clearRange firstBank bankCount : Usb ε Bool) := by
  rw [SaveBankCleaner.clearRange]
  split
  · trivial
  case isFalse hrange =>
    refine always_allOf fun p hp => ?_
    obtain ⟨k, hk, rfl⟩ := List.mem_map.mp hp
    exact (always_selectBank hP (hB (not_not.mp hrange) k (List.mem_range.mp hk))).both
      (always_commandDataEcho hwrite hzeros trivial)

end Uses

/-! ## The selectors of a range -/

/-- Inside the proven range the selectors are the proven ones, and only there. -/
theorem provenBank_bankSelector_iff {bank : SaveBankSelector} {index : Nat} (h : index < 4) :
    ProvenBank (bankSelector bank.value index) ↔
      bank.value.toNat + index * bankStride ≤ lastBank.toNat := by
  obtain ⟨k, hk, hvalue⟩ := provenBank_iff.mp bank.proven
  have hsum : (bankSelector bank.value index).toNat = bank.value.toNat + index * bankStride := by
    rw [bankSelector, UInt16.toNat_add, UInt16.toNat_ofNat', hvalue, bankStride]
    omega
  rw [provenBank_iff, hsum, hvalue, bankStride, show lastBank.toNat = 0x0930 from rfl]
  constructor
  · rintro ⟨j, hj, heq⟩
    omega
  · intro hle
    exact ⟨k + index, by omega, by omega⟩

theorem accommodates_iff {bank : SaveBankSelector} {saveSize : Nat}
    (hsize : SaveMemoryReader.Complete saveSize) :
    bank.accommodates saveSize = true ↔
      bank.value.toNat + (saveSize / bankSize - 1) * bankStride ≤ lastBank.toNat := by
  obtain ⟨hpos, hle, hmod⟩ := hsize
  have hvalue := bank.value.toNat_lt
  have hsize : saveSize = saveSize / bankSize * bankSize := (Nat.div_mul_cancel
    (Nat.dvd_of_mod_eq_zero hmod)).symm
  have hsmall : (bank.value.toNat + (saveSize / bankSize - 1) * bankStride) % 2 ^ 32 =
      bank.value.toNat + (saveSize / bankSize - 1) * bankStride := by
    rw [bankSize] at hle
    rw [bankSize, bankStride, Nat.mod_eq_of_lt (by omega)]
  rw [accommodates_iff_mod]
  constructor
  · rintro ⟨banks, _, rfl, h⟩
    rwa [← hsmall, Nat.mul_div_cancel _ (show 0 < bankSize by decide)]
  · intro h
    exact ⟨_, Nat.div_pos (Nat.le_of_dvd (by omega) (Nat.dvd_of_mod_eq_zero hmod)) (by decide), hsize,
      hsmall.symm ▸ h⟩

/-! ## Acknowledged traces -/

def selectExchange (bankValue : UInt16) : List Transport.Event :=
  ⟨.selectBank bankValue, ()⟩ :: (SaveBankAccess.selection bankValue).flatMap Tx.exchange

/-- A bank selected and read. -/
def readBankExchange (bank : UInt16 × Bytes) : List Transport.Event :=
  selectExchange bank.1 ++
    [⟨.out SaveMemoryReader.readCommand, true⟩, ⟨.inExact bankSize, some bank.2⟩]

/-- A bank selected and overwritten. -/
def writeBankExchange (bank : UInt16 × Bytes) : List Transport.Event :=
  selectExchange bank.1 ++ exchange saveWriteCommand bank.2

section Acknowledged

variable {ε : Type} {firstBank bankValue : UInt16} {trace : List Transport.Event}

theorem runs_selectBank_true_iff :
    Runs (SaveBankAccess.select bankValue : Usb ε Bool) trace (.ok true) ↔
      trace = selectExchange bankValue := by
  constructor
  · intro h
    obtain ⟨_, t1, t2, rfl, hask, hsend⟩ := runs_bind_ok h
    obtain rfl := runs_ask hask
    obtain rfl := runs_sendAll_true_iff.mp hsend
    rfl
  · rintro rfl
    exact .op (runs_sendAll_true_iff.mpr rfl)

theorem runs_readBank32KiB_iff {bankData : Bytes} :
    Runs (SaveMemoryReader.readBank32KiB bankValue : Usb ε (Option Bytes)) trace
        (.ok (some bankData)) ↔ trace = readBankExchange (bankValue, bankData) := by
  constructor
  · intro h
    obtain ⟨selected, t1, t2, rfl, hselect, hread⟩ := runs_bind_ok h
    cases selected with
    | false => cases hread
    | true =>
      obtain rfl := runs_selectBank_true_iff.mp hselect
      obtain ⟨sent, t3, t4, rfl, hout, hin⟩ := runs_bind_ok hread
      cases sent with
      | false => cases hin
      | true =>
        obtain rfl := runs_out_true_iff.mp hout
        obtain rfl := runs_ask hin
        rfl
  · rintro rfl
    have hsent : Runs (out SaveMemoryReader.readCommand >>= fun sent =>
        if (!sent) = true then .pure none else (inExact bankSize : Usb ε (Option Bytes)))
        [⟨.out SaveMemoryReader.readCommand, true⟩, ⟨.inExact bankSize, some bankData⟩]
        (.ok (some bankData)) :=
      .op (.op .pure)
    exact (runs_selectBank_true_iff.mpr rfl).bind hsent

theorem runs_readBanks {count index : Nat} {save : Bytes}
    (hlegal : ∀ e ∈ trace, Transport.Legal e)
    (h : Runs (SaveMemoryReader.readBanks firstBank index count : Usb ε (Option Bytes)) trace
      (.ok (some save))) :
    save.length = count * bankSize ∧
      trace = (bankChunks firstBank index count save).flatMap readBankExchange := by
  induction count generalizing index save trace with
  | zero =>
    obtain ⟨rfl, hsave⟩ := runs_pure_iff.mp h
    cases hsave
    exact ⟨(Nat.zero_mul _).symm, rfl⟩
  | succ count ih =>
    obtain ⟨bankData, t1, t2, rfl, hbank, h⟩ := runs_bind_ok h
    cases bankData with
    | none => cases h
    | some bankData =>
      obtain ⟨rest, t3, t4, rfl, hrest, h⟩ := runs_bind_ok h
      cases rest with
      | none => cases h
      | some rest =>
        obtain ⟨rfl, hsave⟩ := runs_pure_iff.mp h
        cases hsave
        obtain rfl := runs_readBank32KiB_iff.mp hbank
        have hlen : bankData.length = bankSize :=
          hlegal ⟨.inExact bankSize, some bankData⟩ (by simp [readBankExchange])
        obtain ⟨hrestLen, rfl⟩ := ih (fun e he => hlegal e (by simp [he])) hrest
        refine ⟨by rw [List.length_append, hlen, hrestLen, Nat.succ_mul, Nat.add_comm], ?_⟩
        rw [bankChunks, List.take_left' hlen, List.drop_left' hlen, List.flatMap_cons,
          List.append_nil]

/-- A read that succeeds has read every bank, and gives exactly what was read. -/
theorem runs_readSave {saveSize : Nat} {save : Bytes} (hlegal : ∀ e ∈ trace, Transport.Legal e)
    (h : Runs (SaveMemoryReader.read saveSize firstBank) trace (.ok (some save))) :
    save.length = saveSize ∧ trace = (saveBanks firstBank save).flatMap readBankExchange := by
  rw [SaveMemoryReader.read] at h
  split at h
  · cases h
  · obtain ⟨all, t1, t2, rfl, hbanks, h⟩ := runs_bind_ok h
    cases all with
    | none => cases h
    | some all =>
      obtain ⟨rfl, hsome⟩ := runs_pure_iff.mp h
      rw [List.append_nil] at hlegal ⊢
      obtain ⟨_, rfl⟩ := runs_readBanks hlegal hbanks
      split at hsome
      case isTrue hlen =>
        cases hsome
        exact ⟨hlen, by rw [saveBanks, hlen]⟩
      case isFalse => cases hsome

theorem runs_writeBank_true_iff {save : Bytes} :
    Runs (both (SaveBankAccess.select bankValue) (commandDataEcho saveWriteCommand save) :
        Usb ε Bool) trace (.ok true) ↔ trace = writeBankExchange (bankValue, save) := by
  rw [runs_both_true_iff]
  simp only [runs_selectBank_true_iff, runs_commandDataEcho_true_iff]
  constructor
  · rintro ⟨_, _, rfl, rfl, rfl⟩
    rfl
  · rintro rfl
    exact ⟨_, _, rfl, rfl, rfl⟩

theorem length_bankChunks {count index : Nat} {save : Bytes} (h : save.length = count * bankSize) :
    ∀ bank ∈ bankChunks firstBank index count save, bank.2.length = bankSize := by
  induction count generalizing index save with
  | zero => simp [bankChunks]
  | succ count ih =>
    rw [Nat.succ_mul] at h
    refine List.forall_mem_cons.mpr ⟨?_, ih ?_⟩
    · rw [List.length_take]
      omega
    · rw [List.length_drop]
      omega

theorem SaveMemoryWriter.write32KiB_of_length {save : Bytes} (hlen : save.length = bankSize) :
    (SaveMemoryWriter.write32KiB bankValue save : Usb ε Bool) =
      both (SaveBankAccess.select bankValue) (commandDataEcho saveWriteCommand save) :=
  if_neg (not_not_intro hlen)

/-- The writer's check of the size is the reader's. -/
theorem SaveMemoryWriter.write_eq {save : Bytes} :
    (SaveMemoryWriter.write firstBank save : Usb ε Bool) =
      if SaveMemoryReader.Complete save.length then
        allOf ((saveBanks firstBank save).map fun bank =>
          SaveMemoryWriter.write32KiB bank.1 bank.2)
      else .pure false := by
  have hcond : (save = [] ∨ save.length % bankSize ≠ 0 ∨ save.length > 4 * bankSize) ↔
      ¬ SaveMemoryReader.Complete save.length := by
    rw [SaveMemoryReader.Complete, ← List.length_eq_zero_iff]
    omega
  rw [SaveMemoryWriter.write]
  simp only [hcond, ite_not]

theorem length_saveBanks {save : Bytes} (hsize : SaveMemoryReader.Complete save.length) :
    ∀ bank ∈ saveBanks firstBank save, bank.2.length = bankSize :=
  length_bankChunks (Nat.div_mul_cancel (Nat.dvd_of_mod_eq_zero hsize.2.2)).symm

theorem runs_writeBanks_true_iff {banks : List (UInt16 × Bytes)}
    (hlen : ∀ bank ∈ banks, bank.2.length = bankSize) :
    Runs (allOf (banks.map fun bank => SaveMemoryWriter.write32KiB bank.1 bank.2) : Usb ε Bool)
      trace (.ok true) ↔ trace = banks.flatMap writeBankExchange := by
  refine runs_allOf_mem_true_iff fun bank hbank => ?_
  intro trace
  rw [SaveMemoryWriter.write32KiB_of_length (hlen bank hbank)]
  exact runs_writeBank_true_iff

/-- The writer succeeds in one way only: every bank is selected, sent and acknowledged. -/
theorem runs_writeSave_true_iff {save : Bytes} :
    Runs (SaveMemoryWriter.write firstBank save : Usb ε Bool) trace (.ok true) ↔
      SaveMemoryReader.Complete save.length ∧
        trace = (saveBanks firstBank save).flatMap writeBankExchange := by
  rw [SaveMemoryWriter.write_eq]
  split
  case isTrue hsize =>
    rw [and_iff_right hsize]
    exact runs_writeBanks_true_iff (length_saveBanks hsize)
  case isFalse hsize =>
    constructor
    · intro h
      cases h
    · exact fun h => absurd h.1 hsize

theorem saveBanks_zeros {count : Nat} :
    saveBanks firstBank (List.replicate (count * bankSize) 0x00) =
      (List.range count).map fun bank =>
        (bankSelector firstBank bank, SaveBankCleaner.zeros) := by
  rw [saveBanks_eq_map List.length_replicate]
  refine List.map_congr_left fun bank hbank => ?_
  have hfits := Nat.mul_le_mul_right bankSize (List.mem_range.mp hbank)
  rw [Nat.succ_mul] at hfits
  rw [List.drop_replicate, List.take_replicate, Nat.min_eq_left (by omega)]
  rfl

/-- Clearing is writing zeros. -/
theorem runs_clearRange_true_iff {bankCount : Nat} :
    Runs (SaveBankCleaner.clearRange firstBank bankCount : Usb ε Bool) trace (.ok true) ↔
      SaveBankCleaner.InRange firstBank bankCount ∧
        trace = (saveBanks firstBank
          (List.replicate (bankCount * bankSize) 0x00)).flatMap writeBankExchange := by
  rw [SaveBankCleaner.clearRange, saveBanks_zeros, List.flatMap_map]
  split
  case isTrue hrange =>
    constructor
    · intro h
      cases h
    · exact fun h => absurd h.1 hrange
  case isFalse hrange =>
    rw [and_iff_right (not_not.mp hrange)]
    exact runs_allOf_true_iff runs_writeBank_true_iff

end Acknowledged

/-- The four save banks, each with its 32 KiB of zeros. -/
def clearedBanks : List (UInt16 × Bytes) :=
  ((List.range 4).map (bankSelector firstBank)).map fun bank => (bank, SaveBankCleaner.zeros)

theorem mem_allBanks_iff {bankValue : UInt16} :
    bankValue ∈ (List.range 4).map (bankSelector firstBank) ↔ ProvenBank bankValue := by
  rw [List.mem_map, provenBank_iff]
  constructor
  · rintro ⟨k, hk, rfl⟩
    exact ⟨k, List.mem_range.mp hk, toNat_bankSelector (List.mem_range.mp hk)⟩
  · rintro ⟨k, hk, hbank⟩
    exact ⟨k, List.mem_range.mpr hk,
      UInt16.toNat_inj.mp ((toNat_bankSelector hk).trans hbank.symm)⟩

theorem inRange_all : SaveBankCleaner.InRange firstBank 4 := by
  refine ⟨by omega, by omega, provenBank_iff.mpr ⟨0, by omega, rfl⟩, ?_⟩
  rfl

theorem runs_clearAll_true_iff {ε : Type} {trace : List Transport.Event} :
    Runs (SaveBankCleaner.clearAll : Usb ε Bool) trace (.ok true) ↔
      trace = clearedBanks.flatMap writeBankExchange := by
  rw [SaveBankCleaner.clearAll, runs_clearRange_true_iff, and_iff_right inRange_all,
    saveBanks_zeros, clearedBanks, List.map_map]
  rfl

end Ezfadvance
