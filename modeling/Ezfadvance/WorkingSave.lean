import Ezfadvance.SaveReader
import Ezfadvance.SaveRoundTrip

/-!
# WorkingSave

The direct requests of the save application on a cartridge that works, and one invocation after the
other.

* `Requested`: what the options ask to be stored, and where.
* `rangeContents`: what a range of banks holds, and `holdsSave_iff`: it is the one save held there.
* `SaveDesk`: the working cartridge with the tool's fields and the files.
* `invoke_change`, `invoke_dump`: what one invocation leaves.
* `backup_restores`, `dump_returns_change`: what two of them do.
-/

namespace Ezfadvance

open Interact Interact.Program CartridgeFormat Protocol Usb Tool
open WorkingCartridge (idle exec_writeSave exec_readSave)

/-! ## What a range of banks holds -/

/-- The banks of a range. -/
def InBanks (first : UInt16) (count : Nat) (v : UInt16) : Prop :=
  ∃ j < count, v = bankSelector first j

/-- The banks from `first` on hold the pieces of a save. -/
def HoldsSave (first : UInt16) (save : Bytes) (c : Cartridge) : Prop :=
  ∀ bank ∈ saveBanks first save, WorkingCartridge.contents c bank.1 = bank.2

theorem HoldsSave.of_saves {first : UInt16} {save : Bytes} {c c' : Cartridge}
    (h : HoldsSave first save c) (hsaves : c'.saves = c.saves) : HoldsSave first save c' := by
  intro bank hbank
  rw [← h bank hbank, WorkingCartridge.contents, WorkingCartridge.contents, hsaves]

def contentsFrom (c : Cartridge) (first : UInt16) : Nat → Nat → Bytes
  | _, 0 => []
  | index, count + 1 =>
    WorkingCartridge.contents c (bankSelector first index) ++ contentsFrom c first (index + 1) count

/-- The banks of a range, one behind the other. -/
def rangeContents (c : Cartridge) (first : UInt16) (count : Nat) : Bytes :=
  contentsFrom c first 0 count

section Contents

variable {c c' : Cartridge} {first : UInt16} {count index : Nat} {save : Bytes}

theorem length_contentsFrom : (contentsFrom c first index count).length = count * bankSize := by
  induction count generalizing index with
  | zero => rw [contentsFrom, List.length_nil, Nat.zero_mul]
  | succ count ih =>
    rw [contentsFrom, List.length_append, WorkingCartridge.length_contents, ih, Nat.succ_mul,
      Nat.add_comm]

theorem length_rangeContents : (rangeContents c first count).length = count * bankSize :=
  length_contentsFrom

theorem holds_iff (hlen : save.length = count * bankSize) :
    (∀ bank ∈ bankChunks first index count save, WorkingCartridge.contents c bank.1 = bank.2) ↔
      save = contentsFrom c first index count := by
  induction count generalizing index save with
  | zero =>
    obtain rfl := List.length_eq_zero_iff.mp (hlen.trans (Nat.zero_mul _))
    exact iff_of_true (by simp [bankChunks]) rfl
  | succ count ih =>
    have hrest : (save.drop bankSize).length = count * bankSize := by
      rw [List.length_drop, hlen, Nat.succ_mul, Nat.add_sub_cancel]
    have hpiece := @WorkingCartridge.length_contents c (bankSelector first index)
    rw [bankChunks, List.forall_mem_cons, ih hrest, contentsFrom]
    generalize WorkingCartridge.contents c (bankSelector first index) = piece at hpiece ⊢
    constructor
    · rintro ⟨hfirst, hbehind⟩
      rw [← hbehind, show piece = save.take bankSize from hfirst, List.take_append_drop]
    · intro hsave
      rw [hsave]
      exact ⟨(List.take_left' hpiece).symm, List.drop_left' hpiece⟩

/-- There is one save of a length that a range holds. -/
theorem holdsSave_iff (hlen : save.length = count * bankSize) :
    HoldsSave first save c ↔ save = rangeContents c first count := by
  have hcount : save.length / bankSize = count := by
    rw [hlen, Nat.mul_div_cancel _ (show 0 < bankSize by decide)]
  rw [HoldsSave, saveBanks, hcount]
  exact holds_iff hlen

theorem holds_writeBanks (hrange : BankRange first count) (hlen : save.length = count * bankSize) :
    HoldsSave first save ((saveBanks first save).foldl Cartridge.writeBank c) :=
  fun _ hbank => contents_writeBanks hrange hlen hbank

/-- The banks of a save are those of its range. -/
theorem inBanks_iff (hlen : save.length = count * bankSize) {v : UInt16} :
    InBanks first count v ↔ ∃ bank ∈ saveBanks first save, v = bank.1 := by
  rw [saveBanks_eq_map hlen]
  constructor
  · rintro ⟨j, hj, hv⟩
    exact ⟨_, List.mem_map_of_mem (List.mem_range.mpr hj), hv⟩
  · rintro ⟨bank, hbank, hv⟩
    obtain ⟨j, hj, rfl⟩ := List.mem_map.mp hbank
    exact ⟨j, List.mem_range.mp hj, hv⟩

theorem saves_writeSave_outside (hrange : BankRange first count)
    (hlen : save.length = count * bankSize) {v : UInt16} (hv : ¬ InBanks first count v) :
    ((saveBanks first save).foldl Cartridge.writeBank c).saves v = c.saves v := by
  refine saves_writeBanks_kept (proven_saveBanks hrange hlen) fun bank hbank hname => ?_
  exact hv ((inBanks_iff hlen).mpr ⟨bank, hbank, hname⟩)

/-- No write reaches behind the end of its bank. -/
theorem saves_writeBanks_beyond {banks : List (UInt16 × Bytes)} {v : UInt16} {i : Nat}
    (hproven : ∀ bank ∈ banks, ProvenBank bank.1) (hi : ∀ bank ∈ banks, bank.2.length ≤ i) :
    (banks.foldl Cartridge.writeBank c).saves v i = c.saves v i := by
  induction banks generalizing c with
  | nil => rfl
  | cons bank rest ih =>
    obtain ⟨hbank, hrest⟩ := List.forall_mem_cons.mp hproven
    obtain ⟨hlen, hlens⟩ := List.forall_mem_cons.mp hi
    rw [List.foldl_cons, ih hrest hlens, saves_writeBank hbank, if_neg fun h => by omega]

/-- Writing what a range held undoes a write to it. -/
theorem writeBanks_restore (hrange : BankRange first count) (hlen : save.length = count * bankSize)
    (hwritten : c'.saves = ((saveBanks first save).foldl Cartridge.writeBank c).saves) :
    ((saveBanks first (rangeContents c first count)).foldl Cartridge.writeBank c').saves =
      c.saves := by
  have hlen' := @length_rangeContents c first count
  have hproven := proven_saveBanks hrange hlen'
  have hheld := (holdsSave_iff hlen').mpr (Eq.refl (rangeContents c first count))
  have hsize : SaveMemoryReader.Complete save.length := hlen ▸ hrange.complete
  have hsize' : SaveMemoryReader.Complete (rangeContents c first count).length :=
    hlen' ▸ hrange.complete
  funext v i
  by_cases hi : i < bankSize
  · by_cases hv : InBanks first count v
    · obtain ⟨bank, hbank, rfl⟩ := (inBanks_iff hlen').mp hv
      have hend : i < bank.2.length := (length_saveBanks hsize' bank hbank).symm ▸ hi
      rw [saves_writeBanks_mem hproven (pairwise_saveBanks hrange hlen') hbank hend,
        ← hheld bank hbank, List.getD_eq_getElem _ _ (WorkingCartridge.length_contents.symm ▸ hi)]
      exact WorkingCartridge.getElem_contents _
    · rw [saves_writeSave_outside hrange hlen' hv, hwritten, saves_writeSave_outside hrange hlen hv]
  · rw [saves_writeBanks_beyond hproven, hwritten,
      saves_writeBanks_beyond (proven_saveBanks hrange hlen)]
    · exact fun bank hbank => (length_saveBanks hsize bank hbank).trans_le (Nat.not_lt.mp hi)
    · exact fun bank hbank => (length_saveBanks hsize' bank hbank).trans_le (Nat.not_lt.mp hi)

end Contents

/-- What was written was written by a packet that changes the save. -/
theorem WrittenAndRead.changes {first : UInt16} {save : Bytes} {h : List Tool.Event}
    (hwritten : WrittenAndRead first save h) : ∃ e ∈ h, SaveChanging e.1 := by
  obtain ⟨hcomplete, before, between, rfl, _⟩ := hwritten
  obtain ⟨count, hlen⟩ : ∃ count, save.length = count * bankSize :=
    ⟨_, (Nat.div_mul_cancel (Nat.dvd_of_mod_eq_zero hcomplete.2.2)).symm⟩
  have hpos : 0 < count := by
    have := hcomplete.1
    exact Nat.pos_of_ne_zero fun hzero => by rw [hlen, hzero] at this; omega
  obtain ⟨bank, hbank⟩ : ∃ bank, bank ∈ saveBanks first save :=
    ⟨_, saveBanks_eq_map hlen ▸ List.mem_map_of_mem (List.mem_range.mpr hpos)⟩
  have hwrite : (⟨.out saveWriteCommand, true⟩ : Transport.Event) ∈
      (saveBanks first save).flatMap writeBankExchange :=
    List.mem_flatMap.mpr ⟨bank, hbank, List.mem_append_right _ (List.mem_cons_self ..)⟩
  exact ⟨_, List.mem_append_left _ (List.mem_append_left _ (List.mem_append_right _
    (List.mem_map_of_mem hwrite))), .inl rfl⟩

/-! ## Requests -/

theorem bankRange_of_le {bank : SaveBankSelector} {count : Nat} (hpos : 1 ≤ count)
    (hfour : count ≤ 4)
    (hle : bank.value.toNat + (count - 1) * bankStride ≤ lastBank.toNat) :
    BankRange bank.value count :=
  inRange_iff.mp ⟨by omega, hfour, bank.proven, hle⟩

theorem rangeSize_range (hrange : BankRange first count) : rangeSize count = count * bankSize :=
  SaveReader.rangeSize_of_le (by
    obtain ⟨k, _, _, hle⟩ := hrange
    omega)

namespace SaveReader

/-- A change of the save memory is asked for. -/
def Changes (options : SaveReaderOptions) : Prop :=
  options.erase = true ∨ options.writePath ≠ none

/-- What the options ask to be stored, and where: zeros with `--erase`, the file otherwise; from the
bank that is named on, and without a name all four are erased. -/
structure Requested (files : Bytes → Option Bytes) (options : SaveReaderOptions) (first : UInt16)
    (count : Nat) (save : Bytes) : Prop where
  range : BankRange first count
  length : save.length = count * bankSize
  named : ∀ bank, options.saveBank = some bank → first = bank.value
  erased : options.erase = true → save = List.replicate (count * bankSize) 0x00 ∧
    count = if options.saveBank = none then 4 else options.consecutiveBankCount.getD 1
  written : options.erase = false → ∃ path, options.writePath = some path ∧ files path = some save

section Options

variable {files : Bytes → Option Bytes} {options : SaveReaderOptions} {writeSave : Option Bytes}

/-- What is written was loaded from the file that was named. -/
theorem written_of_load (hload : loadInput files options = some writeSave) :
    (writeSave = none → options.writePath = none) ∧
      ∀ save, writeSave = some save →
        ∃ path, options.writePath = some path ∧ files path = some save := by
  obtain rfl | ⟨path, save, hpath, hfile, rfl, _⟩ := loadInput_some hload
  · refine ⟨fun _ => ?_, fun save h => by cases h⟩
    cases hpath : options.writePath with
    | none => rfl
    | some path =>
      simp only [loadInput, hpath] at hload
      cases hfile : files path with
      | none => simp only [hfile] at hload; cases hload
      | some save =>
        simp only [hfile] at hload
        split at hload
        · cases hload
        · split at hload
          · cases hload
          · cases hload
  · refine ⟨fun h => (by cases h), fun save' h => ?_⟩
    cases h
    exact ⟨path, hpath, hfile⟩

theorem requested_erase (haccepted : AcceptedOptions options) (herase : options.erase = true) :
    Requested files options (eraseWorkflow options).firstSelector (eraseWorkflow options).bankCount
      (List.replicate ((eraseWorkflow options).bankCount * bankSize) 0x00) := by
  obtain ⟨bank, hfirst, hpos, hfour, hle⟩ := erase_range haccepted
  refine ⟨hfirst ▸ bankRange_of_le hpos hfour hle, List.length_replicate, ?_, ?_, ?_⟩
  · intro bank' hbank'
    rw [eraseWorkflow, hbank']
    rfl
  · refine fun _ => ⟨rfl, ?_⟩
    rw [eraseWorkflow]
    cases options.saveBank with
    | none => rfl
    | some bank' => rfl
  · intro hno
    rw [herase] at hno
    cases hno

theorem requested_write {bank : SaveBankSelector} {count : Nat} {save : Bytes}
    (hrange : BankRange bank.value count) (hlen : save.length = count * bankSize)
    (herase : options.erase = false) (hbank : options.saveBank = some bank)
    (hfile : ∃ path, options.writePath = some path ∧ files path = some save) :
    Requested files options bank.value count save := by
  refine ⟨hrange, hlen, fun bank' hbank' => ?_, fun hno => ?_, fun _ => hfile⟩
  · rw [hbank, Option.some.injEq] at hbank'
    rw [hbank']
  · rw [herase] at hno
    cases hno

/-- The parser returns only options that pass its checks. -/
theorem checked_of_parse {arguments : List Bytes} {options options' : SaveReaderOptions}
    (h : parseArguments arguments options = .run options') :
    checkSaveReaderOptions options' = .run options' := by
  fun_induction parseArguments arguments options with
  | case1 options =>
    have heq : options = options' := by
      have hchecked := h
      rw [checkSaveReaderOptions] at hchecked
      simp only [unless_error_iff] at hchecked
      obtain ⟨_, _, _, _, _, _, _, _, heq⟩ := hchecked
      exact SaveReaderParse.run.inj heq
    rw [heq] at h
    exact h
  | case4 options argument diagnostic set hoption value arguments options2 hset ih => exact ih h
  | case5 options argument arguments hvalue options2 hflag ih => exact ih h
  | _ => cases h

/-- The backup is not the file that is written. -/
theorem backup_ne_input {arguments : List Bytes} {path : Bytes}
    (hparse : parseSaveReaderOptions arguments = .run options)
    (hpath : options.writePath = some path) : options.backupPath ≠ some path := by
  intro hbackup
  have hchecked := checked_of_parse hparse
  rw [checkSaveReaderOptions] at hchecked
  simp only [unless_error_iff] at hchecked
  obtain ⟨_, _, _, _, _, _, _, hconflict, _⟩ := hchecked
  refine hconflict ?_
  rw [saveWritePathsConflict, hpath, hbackup]
  simp

end Options

end SaveReader

/-! ## A desk with a cartridge that works -/

structure SaveDesk where
  fields : ReadOnlyCartridge
  slot : WorkingCartridge
  files : Bytes → Option Bytes

namespace SaveDesk

def step (s : SaveDesk) : (o : Tool.Op) → Tool.Reply o × SaveDesk
  | .usb o => ((s.slot.step o).1, { s with slot := (s.slot.step o).2 })
  | .load => (s.fields, s)
  | .store fields => ((), { s with fields := fields })
  | .write path data => (true, { s with files := Function.update s.files path (some data) })
  | .writeNew path data =>
    if (s.files path).isNone then
      (true, { s with files := Function.update s.files path (some data) })
    else (false, s)

theorem exec_usb {α : Type} {p : Usb StdException α} {s : SaveDesk} :
    exec step (usb p) s = ((exec WorkingCartridge.step p s.slot).1,
      { s with slot := (exec WorkingCartridge.step p s.slot).2 }) := by
  induction p generalizing s with
  | pure a => rfl
  | throw e => rfl
  | op o k ih => exact ih _

theorem memory_step (s : SaveDesk) (o : Tool.Op) :
    memory s.fields o (s.step o).1 (s.step o).2.fields := by
  cases o with
  | usb o => rfl
  | load => exact ⟨rfl, rfl⟩
  | store fields => rfl
  | write path data => rfl
  | writeNew path data =>
    show (s.step (.writeNew path data)).2.fields = s.fields
    rw [step]
    split <;> rfl

theorem legal_step (s : SaveDesk) (o : Tool.Op) : Legal ⟨o, (s.step o).1⟩ := by
  cases o with
  | usb o => exact s.slot.legal_step o
  | _ => trivial

/-- The files with a backup, if one was asked for. -/
def backedUp (files : Bytes → Option Bytes) (path : Option Bytes) (save : Bytes) :
    Bytes → Option Bytes :=
  match path with
  | none => files
  | some path => Function.update files path (some save)

section Workflows

variable {fields : ReadOnlyCartridge} {slot : WorkingCartridge} {files : Bytes → Option Bytes}
  {c c' : Cartridge} {first : UInt16} {count : Nat} {save : Bytes}

theorem exec_read (fields : ReadOnlyCartridge) (c : Cartridge) (files : Bytes → Option Bytes)
    (hrange : BankRange first count) :
    ∃ c', exec step (usb (SaveMemoryReader.read (rangeSize count) first)) ⟨fields, idle c, files⟩ =
      (.ok (some (rangeContents c first count)), ⟨fields, idle c', files⟩) ∧ c'.saves = c.saves := by
  have hlen := @length_rangeContents c first count
  have hheld := (holdsSave_iff hlen).mpr (Eq.refl (rangeContents c first count))
  have hproven := proven_saveBanks hrange hlen
  obtain ⟨c', hexec, hsaves⟩ := @exec_readSave c first _ (hlen ▸ hrange.complete)
    fun bank hbank => ⟨hproven bank hbank, hheld bank hbank⟩
  refine ⟨c', ?_, hsaves⟩
  rw [hlen, ← rangeSize_range hrange] at hexec
  rw [exec_usb, hexec]

theorem exec_write (hrange : BankRange first count) (hlen : save.length = count * bankSize) :
    exec step (usb (SaveMemoryWriter.write first save)) ⟨fields, idle c, files⟩ =
      (.ok true, ⟨fields, idle ((saveBanks first save).foldl Cartridge.writeBank c), files⟩) := by
  have hexec := @exec_writeSave StdException c first save (hlen ▸ hrange.complete)
  rw [exec_usb, hexec]

theorem exec_backup {path : Option Bytes} (hfree : ∀ p, path = some p → files p = none) :
    exec step (backup path save) ⟨fields, slot, files⟩ =
      (.ok true, ⟨fields, slot, backedUp files path save⟩) := by
  cases path with
  | none => rfl
  | some path =>
    have hnone : (files path).isNone = true := by rw [hfree path rfl]; rfl
    rw [backup, exec_ask, step]
    dsimp only
    rw [if_pos hnone]
    rfl

theorem saves_writeBanks_congr {banks : List (UInt16 × Bytes)}
    (hproven : ∀ bank ∈ banks, ProvenBank bank.1) (h : c'.saves = c.saves) :
    (banks.foldl Cartridge.writeBank c').saves = (banks.foldl Cartridge.writeBank c).saves := by
  induction banks generalizing c c' with
  | nil => exact h
  | cons bank rest ih =>
    obtain ⟨hbank, hrest⟩ := List.forall_mem_cons.mp hproven
    refine ih hrest ?_
    funext v i
    rw [saves_writeBank hbank, saves_writeBank hbank, h]

/-- Reading back gives what was written. -/
theorem exec_readBack (fields : ReadOnlyCartridge) (c : Cartridge) (files : Bytes → Option Bytes)
    (hrange : BankRange first count) (hlen : save.length = count * bankSize) :
    ∃ c', exec step (usb (SaveMemoryReader.read (rangeSize count) first))
        ⟨fields, idle ((saveBanks first save).foldl Cartridge.writeBank c), files⟩ =
      (.ok (some save), ⟨fields, idle c', files⟩) ∧
      c'.saves = ((saveBanks first save).foldl Cartridge.writeBank c).saves := by
  have hback := (holdsSave_iff hlen).mp (holds_writeBanks (c := c) hrange hlen)
  obtain ⟨c', hexec, hsaves⟩ := exec_read fields
    ((saveBanks first save).foldl Cartridge.writeBank c) files hrange
  rw [← hback] at hexec
  exact ⟨c', hexec, hsaves⟩

theorem exec_directWrite {w : DirectSaveBankWorkflow}
    (hrange : BankRange w.firstBank.value w.bankCount) (hinput : w.input = some save)
    (hlen : save.length = w.bankCount * bankSize)
    (hfree : ∀ p, w.backupPath = some p → files p = none) :
    ∃ c', exec step w.run ⟨fields, idle c, files⟩ =
        (.ok 0, ⟨fields, idle c', backedUp files w.backupPath
          (rangeContents c w.firstBank.value w.bankCount)⟩) ∧
      c'.saves = ((saveBanks w.firstBank.value save).foldl Cartridge.writeBank c).saves := by
  obtain ⟨c1, hread, hc1⟩ := exec_read fields c files hrange
  obtain ⟨c2, hback, hc2⟩ := exec_readBack fields c1
    (backedUp files w.backupPath (rangeContents c w.firstBank.value w.bankCount)) hrange hlen
  refine ⟨c2, ?_, hc2.trans (saves_writeBanks_congr (proven_saveBanks hrange hlen) hc1)⟩
  rw [DirectSaveBankWorkflow.run, exec_bind_ok hread]
  dsimp only
  rw [hinput]
  dsimp only
  rw [DirectSaveBankWorkflow.write, rangeSize_range hrange, if_neg (not_not_intro hlen),
    exec_bind_ok (exec_backup hfree)]
  simp only [Bool.not_true, Bool.false_eq_true, if_false]
  rw [exec_bind_ok (exec_write hrange hlen)]
  simp only [Bool.not_true, Bool.false_eq_true, if_false]
  rw [← rangeSize_range hrange, exec_bind_ok hback]
  simp only [ne_eq, not_true_eq_false, if_false]
  rfl

theorem exec_directDump {w : DirectSaveBankWorkflow}
    (hrange : BankRange w.firstBank.value w.bankCount) (hinput : w.input = none) :
    ∃ c', exec step w.run ⟨fields, idle c, files⟩ =
        (.ok 0, ⟨fields, idle c', Function.update files
          (w.outputPath.getD (bankPath w.firstBank.value))
          (some (rangeContents c w.firstBank.value w.bankCount))⟩) ∧ c'.saves = c.saves := by
  obtain ⟨c1, hread, hc1⟩ := exec_read fields c files hrange
  refine ⟨c1, ?_, hc1⟩
  rw [DirectSaveBankWorkflow.run, exec_bind_ok hread]
  dsimp only
  rw [hinput]
  rfl

theorem exec_clear (fields : ReadOnlyCartridge) (c : Cartridge) (files : Bytes → Option Bytes)
    {w : SaveBankEraseWorkflow} (hrange : BankRange w.firstSelector w.bankCount) :
    ∃ c', exec step (w.clear (rangeSize w.bankCount)) ⟨fields, idle c, files⟩ =
        (.ok 0, ⟨fields, idle c', files⟩) ∧
      c'.saves = ((saveBanks w.firstSelector (List.replicate (w.bankCount * bankSize) 0x00)).foldl
        Cartridge.writeBank c).saves := by
  have hlen : (List.replicate (w.bankCount * bankSize) (0x00 : UInt8)).length =
      w.bankCount * bankSize := List.length_replicate
  obtain ⟨c2, hback, hc2⟩ := exec_readBack fields c files hrange hlen
  refine ⟨c2, ?_, hc2⟩
  have hzeros : (List.replicate (w.bankCount * bankSize) (0x00 : UInt8)).any (· != 0x00) = false := by
    rw [List.any_replicate]
    simp
  rw [SaveBankEraseWorkflow.clear, clearRange_eq_write hrange, exec_bind_ok (exec_write hrange hlen)]
  simp only [Bool.not_true, Bool.false_eq_true, if_false]
  rw [exec_bind_ok hback]
  simp only [hzeros, Bool.false_eq_true, if_false]
  rfl

theorem exec_erase {w : SaveBankEraseWorkflow} (hrange : BankRange w.firstSelector w.bankCount)
    (hfree : ∀ p, w.backupPath = some p → files p = none) :
    ∃ c', exec step w.run ⟨fields, idle c, files⟩ =
        (.ok 0, ⟨fields, idle c', backedUp files w.backupPath
          (rangeContents c w.firstSelector w.bankCount)⟩) ∧
      c'.saves = ((saveBanks w.firstSelector (List.replicate (w.bankCount * bankSize) 0x00)).foldl
        Cartridge.writeBank c).saves := by
  rw [SaveBankEraseWorkflow.run]
  cases hpath : w.backupPath with
  | none => exact exec_clear fields c files hrange
  | some path =>
    obtain ⟨c1, hread, hc1⟩ := exec_read fields c files hrange
    obtain ⟨c2, hclear, hc2⟩ := exec_clear fields c1
      (backedUp files (some path) (rangeContents c w.firstSelector w.bankCount)) hrange
    have hproven := @proven_saveBanks w.firstSelector w.bankCount
      (List.replicate (w.bankCount * bankSize) 0x00) hrange List.length_replicate
    refine ⟨c2, ?_, hc2.trans (saves_writeBanks_congr hproven hc1)⟩
    have hsaved : exec step (ask (Op.writeNew path (rangeContents c w.firstSelector w.bankCount)))
        ⟨fields, idle c1, files⟩ = (.ok true, ⟨fields, idle c1,
          backedUp files (some path) (rangeContents c w.firstSelector w.bankCount)⟩) :=
      @exec_backup fields (idle c1) files _ (some path) fun p hp => hfree p (hpath.trans hp)
    dsimp only
    rw [exec_bind_ok hread]
    dsimp only
    rw [exec_bind_ok hsaved]
    simp only [Bool.not_true, Bool.false_eq_true, if_false]
    exact hclear

end Workflows

/-! ## Invocations -/

/-- One run of the application, on the files that are there, with the device attached. -/
def invoke (answer : Option Bytes) (arguments : List Bytes) (s : SaveDesk) :
    Except StdException Int × SaveDesk :=
  exec step (SaveReader.run ⟨s.files, answer, true⟩ arguments) s

section Invoke

open SaveReader

variable {fields : ReadOnlyCartridge} {files : Bytes → Option Bytes} {c : Cartridge}
  {answer : Option Bytes} {arguments : List Bytes} {options : SaveReaderOptions}
  {writeSave : Option Bytes} {slot : WorkingCartridge}

theorem invoke_access (hparse : parseSaveReaderOptions arguments = .run options)
    (hload : loadInput files options = some writeSave)
    (hconfirmed : confirmed ⟨files, answer, true⟩ options = true) :
    invoke answer arguments ⟨fields, slot, files⟩ =
      exec step (access options writeSave) ⟨fields, slot, files⟩ := by
  have hversion : arguments ≠ [ascii "--version"] := by
    rintro rfl
    cases hparse
  rw [invoke, SaveReader.run, if_neg hversion]
  simp only [hparse, hload, hconfirmed, Bool.not_true, Bool.false_eq_true, if_false]

/-- The file fills the range that is asked for, so it is loaded, and is as long as the count says. -/
theorem load_write {bank : SaveBankSelector} {count : Nat} {path save : Bytes}
    (hrange : BankRange bank.value count) (hlen : save.length = count * bankSize)
    (hpath : options.writePath = some path) (hfile : files path = some save)
    (hcount : ∀ n, options.consecutiveBankCount = some n → n = count) :
    loadInput files options = some (some save) ∧ directBankCount options (some save) = count := by
  have hcomplete : SaveMemoryReader.Complete save.length := hlen ▸ hrange.complete
  unfold directBankCount
  cases hconsecutive : options.consecutiveBankCount with
  | none =>
    refine ⟨loadInput_complete hpath hfile hcomplete hconsecutive, ?_⟩
    show save.length / bankSize = count
    rw [hlen, Nat.mul_div_cancel _ (show 0 < bankSize by decide)]
  | some n =>
    obtain rfl := hcount n hconsecutive
    refine ⟨?_, rfl⟩
    rw [SaveMemoryReader.Complete, bankSize] at hcomplete
    rw [loadInput, hpath]
    dsimp only
    rw [hfile]
    dsimp only
    rw [if_neg (by rw [← List.length_eq_zero_iff]; omega), if_neg ?_]
    rw [hconsecutive, Option.any_some, rangeSize_range hrange, hlen]
    simp

theorem erase_of_write (hparse : parseSaveReaderOptions arguments = .run options)
    (hwrite : options.writePath ≠ none) : options.erase = false := by
  cases herase : options.erase with
  | false => rfl
  | true => exact absurd ((accepted_options hparse fun n hn => by cases hn).erases herase) hwrite

/-- A save is written into a range that is named. -/
theorem invoke_write {bank : SaveBankSelector} {count : Nat} {path save : Bytes}
    (hparse : parseSaveReaderOptions arguments = .run options)
    (hbank : options.saveBank = some bank) (hrom : options.romNumber = none)
    (hpath : options.writePath = some path) (hfile : files path = some save)
    (hrange : BankRange bank.value count) (hlen : save.length = count * bankSize)
    (hcount : ∀ n, options.consecutiveBankCount = some n → n = count)
    (hconfirmed : confirmed ⟨files, answer, true⟩ options = true)
    (hfree : ∀ p, options.backupPath = some p → files p = none) :
    ∃ c', invoke answer arguments ⟨fields, idle c, files⟩ =
        (.ok 0, ⟨fields, idle c', backedUp files options.backupPath
          (rangeContents c bank.value count)⟩) ∧
      c'.saves = ((saveBanks bank.value save).foldl Cartridge.writeBank c).saves := by
  have herase := erase_of_write hparse (by rw [hpath]; exact Option.some_ne_none path)
  obtain ⟨hload, hbanks⟩ := load_write hrange hlen hpath hfile hcount
  rw [invoke_access hparse hload hconfirmed, access, herase, hbank, hrom]
  subst hbanks
  exact @exec_directWrite fields files c save (directWorkflow options bank (some save)) hrange rfl hlen
    hfree

/-- A range that is named is dumped into a file. -/
theorem invoke_dump {bank : SaveBankSelector} {count : Nat}
    (hparse : parseSaveReaderOptions arguments = .run options)
    (hbank : options.saveBank = some bank) (hrom : options.romNumber = none)
    (hreads : ¬ Changes options) (hrange : BankRange bank.value count)
    (hcount : options.consecutiveBankCount.getD 1 = count) :
    ∃ c', invoke answer arguments ⟨fields, idle c, files⟩ =
        (.ok 0, ⟨fields, idle c', Function.update files
          (options.outputPath.getD (bankPath bank.value)) (some (rangeContents c bank.value count))⟩) ∧
      c'.saves = c.saves := by
  obtain ⟨herase, hwrite⟩ := not_or.mp hreads
  rw [Bool.not_eq_true] at herase
  rw [not_not] at hwrite
  have hload : loadInput files options = some none := by rw [loadInput, hwrite]
  have hconfirmed : confirmed ⟨files, answer, true⟩ options = true := by
    simp [confirmed, hwrite, herase]
  rw [invoke_access hparse hload hconfirmed, access, herase, hbank, hrom]
  subst hcount
  exact @exec_directDump fields files c (directWorkflow options bank none) hrange rfl

/-- The range is erased: the one that is named, or all of it. -/
theorem invoke_erase (hparse : parseSaveReaderOptions arguments = .run options)
    (herase : options.erase = true)
    (hconfirmed : confirmed ⟨files, answer, true⟩ options = true)
    (hfree : ∀ p, options.backupPath = some p → files p = none) :
    ∃ c', invoke answer arguments ⟨fields, idle c, files⟩ =
        (.ok 0, ⟨fields, idle c', backedUp files options.backupPath
          (rangeContents c (eraseWorkflow options).firstSelector (eraseWorkflow options).bankCount)⟩) ∧
      c'.saves = ((saveBanks (eraseWorkflow options).firstSelector
        (List.replicate ((eraseWorkflow options).bankCount * bankSize) 0x00)).foldl
          Cartridge.writeBank c).saves := by
  have haccepted := accepted_options hparse fun n hn => by cases hn
  have hload : loadInput files options = some none := by rw [loadInput, haccepted.erases herase]
  rw [invoke_access hparse hload hconfirmed, access, if_pos herase]
  exact exec_erase (@requested_erase files options haccepted herase).range hfree

/-- What was loaded fills the banks of a direct request. -/
theorem length_load {save : Bytes} (haccepted : AcceptedOptions options)
    (hload : loadInput files options = some (some save)) :
    save.length = directBankCount options (some save) * bankSize := by
  obtain hno | ⟨path, save', hpath, hfile, hsave, hcomplete⟩ := loadInput_some hload
  · cases hno
  · obtain rfl : save = save' := Option.some.inj hsave
    unfold directBankCount
    cases hconsecutive : options.consecutiveBankCount with
    | none => exact (Nat.div_mul_cancel (Nat.dvd_of_mod_eq_zero hcomplete.2.2)).symm
    | some n =>
      simp only [loadInput, hpath, hfile] at hload
      split at hload
      · cases hload
      · split at hload
        · cases hload
        case isFalse hfits =>
          have hlen : save.length = rangeSize n := by
            rw [hconsecutive, Option.any_some] at hfits
            simpa using hfits
          rw [hlen]
          exact rangeSize_of_le (haccepted.counts n hconsecutive).2

/-- A change that needs no catalog is made, and what the range held is in the backup. -/
theorem invoke_change (hparse : parseSaveReaderOptions arguments = .run options)
    (hchanges : Changes options)
    (hdirect : options.erase = false → options.saveBank ≠ none ∧ options.romNumber = none)
    (hload : loadInput files options = some writeSave) (hshort : ¬ Overlong files options)
    (hconfirmed : confirmed ⟨files, answer, true⟩ options = true)
    (hfree : ∀ p, options.backupPath = some p → files p = none) :
    ∃ first count save c', Requested files options first count save ∧
      invoke answer arguments ⟨fields, idle c, files⟩ =
        (.ok 0, ⟨fields, idle c',
          backedUp files options.backupPath (rangeContents c first count)⟩) ∧
      c'.saves = ((saveBanks first save).foldl Cartridge.writeBank c).saves := by
  have haccepted := accepted_options hparse fun n hn => by cases hn
  cases herase : options.erase with
  | true =>
    obtain ⟨c', hinvoke, hsaves⟩ := @invoke_erase fields files c answer arguments options hparse herase
      hconfirmed hfree
    exact ⟨_, _, _, c', requested_erase haccepted herase, hinvoke, hsaves⟩
  | false =>
    obtain ⟨hnamed, hrom⟩ := hdirect herase
    obtain ⟨bank, hbank⟩ := Option.ne_none_iff_exists'.mp hnamed
    obtain ⟨hpos, hfour, hle⟩ := direct_range haccepted hbank hrom hload hshort
    have hrange := bankRange_of_le hpos hfour hle
    have hwrite : options.writePath ≠ none := hchanges.resolve_left (by rw [herase]; decide)
    obtain ⟨hnone, hsome⟩ := written_of_load hload
    cases writeSave with
    | none => exact absurd (hnone rfl) hwrite
    | some save =>
      have hlen := length_load haccepted hload
      obtain ⟨c', hexec, hsaves⟩ := @exec_directWrite fields files c save
        (directWorkflow options bank (some save)) hrange rfl hlen hfree
      refine ⟨_, _, save, c', requested_write hrange hlen herase hbank (hsome save rfl), ?_, hsaves⟩
      rw [invoke_access hparse hload hconfirmed, access, herase, hbank, hrom]
      exact hexec

/-- After any change with a backup, writing the backup back brings back the whole save memory. -/
theorem backup_restores {path : Bytes} (hparse : parseSaveReaderOptions arguments = .run options)
    (hchanges : Changes options)
    (hdirect : options.erase = false → options.saveBank ≠ none ∧ options.romNumber = none)
    (hload : loadInput files options = some writeSave) (hshort : ¬ Overlong files options)
    (hbackup : options.backupPath = some path) (hfree : files path = none) :
    ∃ first count save s, Requested files options first count save ∧
      invoke answer arguments ⟨fields, idle c, files⟩ = (.ok 0, s) ∧
      s.files = Function.update files path (some (rangeContents c first count)) ∧
      ∀ {answer' : Option Bytes} {arguments' : List Bytes} {options' : SaveReaderOptions}
        {bank : SaveBankSelector}, parseSaveReaderOptions arguments' = .run options' →
        options'.writePath = some path → options'.saveBank = some bank → bank.value = first →
        options'.romNumber = none → (∀ n, options'.consecutiveBankCount = some n → n = count) →
        confirmed ⟨s.files, answer', true⟩ options' = true →
        (∀ p, options'.backupPath = some p → files p = none) →
        ∃ s', invoke answer' arguments' s = (.ok 0, s') ∧ s'.slot = idle s'.slot.cartridge ∧
          s'.slot.cartridge.saves = c.saves := by
  have hconfirmed : confirmed ⟨files, answer, true⟩ options = true := by
    simp [confirmed, hbackup]
  have hfrees : ∀ p, options.backupPath = some p → files p = none := by
    intro p hp
    rw [hbackup, Option.some.injEq] at hp
    rwa [← hp]
  obtain ⟨first, count, save, c1, hwanted, hinvoke, hsaves⟩ :=
    @invoke_change fields files c answer arguments options writeSave hparse hchanges hdirect hload
      hshort hconfirmed hfrees
  rw [hbackup] at hinvoke
  refine ⟨first, count, save, _, hwanted, hinvoke, rfl, ?_⟩
  intro answer' arguments' options' bank hparse' hpath' hbank' hfirst hrom' hcount' hconfirmed' hfree'
  subst hfirst
  obtain ⟨c2, hinvoke', hsaves'⟩ := @invoke_write fields _ c1 answer' arguments' options' bank count
    path (rangeContents c bank.value count) hparse' hbank' hrom' hpath' (Function.update_self ..)
    hwanted.range length_rangeContents hcount' hconfirmed' fun p hp => by
      have hne : p ≠ path := by
        rintro rfl
        exact backup_ne_input hparse' hpath' hp
      show Function.update files path _ p = none
      rw [Function.update_of_ne hne]
      exact hfree' p hp
  exact ⟨_, hinvoke', rfl, hsaves'.trans (writeBanks_restore hwanted.range hwanted.length hsaves)⟩

/-- Two banks are erased, with a backup. -/
def erasingArguments : List Bytes :=
  [ascii "--erase", ascii "--save-bank", ascii "0x0910", ascii "--consecutive-bank", ascii "2",
    ascii "--backup", ascii "b.sav"]

def erasingOptions : SaveReaderOptions :=
  { saveBank := some ⟨0x0910, by decide⟩, consecutiveBankCount := some 2, erase := true,
    backupPath := some (ascii "b.sav"), inspectionOnly := false }

def playedCartridge : Cartridge := ⟨⟨fun _ => 0xFF, 0, []⟩, fun _ _ => 0x5A, 0x0900⟩

/-- Two banks are read, backed up, cleared and read again. -/
theorem changes_guarded_erasing : ∃ trace c',
    LegalRun (eraseWorkflow erasingOptions).run {} trace (.ok 0) c' ∧
    WrittenAndRead 0x0910 (List.replicate (2 * bankSize) 0x00) trace ∧
    ∃ before e after, trace = before ++ e :: after ∧ SaveChanging e.1 ∧
      ReadThenSaved (ascii "b.sav") 0x0910 (rangeSize 2) before := by
  have hrange : BankRange 0x0910 2 := @bankRange_of_le ⟨0x0910, by decide⟩ 2 (by decide) (by decide)
    (by decide)
  obtain ⟨c', hexec, _⟩ := @exec_erase {} (fun _ => none) playedCartridge
    (eraseWorkflow erasingOptions) hrange fun _ _ => rfl
  obtain ⟨trace, _, run⟩ := Ezfadvance.legalRun_exec memory_step legal_step
    (eraseWorkflow erasingOptions).run ⟨{}, idle playedCartridge, fun _ => none⟩
  rw [hexec] at run
  obtain ⟨_, hguarded, _⟩ := changes_guarded
  obtain ⟨hguard, hdone⟩ := hguarded _ run
  have hwritten : WrittenAndRead 0x0910 (List.replicate (2 * bankSize) 0x00) trace := hdone rfl
  obtain ⟨e, he, hchange⟩ := hwritten.changes
  obtain ⟨before, after, hsplit⟩ := List.append_of_mem he
  exact ⟨trace, _, run, hwritten, before, e, after, hsplit, hchange,
    hguard hsplit hchange (ascii "b.sav") rfl⟩

theorem not_overlong_erasing : ¬ Overlong (fun _ => none) erasingOptions := by
  rintro ⟨path, save, bank, hpath, _⟩
  cases hpath

theorem backup_restores_erased : ∃ s s',
    invoke none erasingArguments ⟨{}, idle playedCartridge, fun _ => none⟩ = (.ok 0, s) ∧
    invoke (some (ascii "y")) [ascii "--write", ascii "b.sav", ascii "--yes-really-write",
      ascii "--save-bank", ascii "0x0910"] s = (.ok 0, s') ∧
    s'.slot.cartridge.saves = playedCartridge.saves := by
  obtain ⟨first, count, save, s, hwanted, hinvoke, _, hrestore⟩ :=
    @backup_restores {} (fun _ => none) playedCartridge none erasingArguments erasingOptions none
      (ascii "b.sav") (by decide) (.inl rfl) (fun h => by cases h) rfl not_overlong_erasing rfl rfl
  have hfirst := hwanted.named ⟨0x0910, by decide⟩ rfl
  have hyes : confirmsDestructiveOperation (ascii "y") = true := by decide
  obtain ⟨s', hinvoke', _, hsaves⟩ := @hrestore (some (ascii "y"))
    [ascii "--write", ascii "b.sav", ascii "--yes-really-write", ascii "--save-bank",
      ascii "0x0910"]
    { saveBank := some ⟨0x0910, by decide⟩, writePath := some (ascii "b.sav"),
      authorizeWrite := true, inspectionOnly := false } ⟨0x0910, by decide⟩ (by decide) rfl rfl
    hfirst.symm rfl (fun n hn => by cases hn) (by simp [confirmed, hyes]) fun p hp => by cases hp
  exact ⟨s, s', hinvoke, hinvoke', hsaves⟩

/-- After any change, a dump of the range puts into the file exactly what was asked to be stored. -/
theorem dump_returns_change (hparse : parseSaveReaderOptions arguments = .run options)
    (hchanges : Changes options)
    (hdirect : options.erase = false → options.saveBank ≠ none ∧ options.romNumber = none)
    (hload : loadInput files options = some writeSave) (hshort : ¬ Overlong files options)
    (hconfirmed : confirmed ⟨files, answer, true⟩ options = true)
    (hfree : ∀ p, options.backupPath = some p → files p = none) :
    ∃ first count save s, Requested files options first count save ∧
      invoke answer arguments ⟨fields, idle c, files⟩ = (.ok 0, s) ∧
      ∀ {answer' : Option Bytes} {arguments' : List Bytes} {options' : SaveReaderOptions}
        {bank : SaveBankSelector}, parseSaveReaderOptions arguments' = .run options' →
        ¬ Changes options' → options'.saveBank = some bank → bank.value = first →
        options'.romNumber = none → options'.consecutiveBankCount.getD 1 = count →
        ∃ s', invoke answer' arguments' s = (.ok 0, s') ∧
          s'.files = Function.update s.files (options'.outputPath.getD (bankPath first)) (some save) ∧
          s'.slot.cartridge.saves = s.slot.cartridge.saves := by
  obtain ⟨first, count, save, c1, hwanted, hinvoke, hsaves⟩ :=
    @invoke_change fields files c answer arguments options writeSave hparse hchanges hdirect hload
      hshort hconfirmed hfree
  refine ⟨first, count, save, _, hwanted, hinvoke, ?_⟩
  intro answer' arguments' options' bank hparse' hreads' hbank' hfirst hrom' hcount'
  subst hfirst
  obtain ⟨c2, hinvoke', hsaves'⟩ := @invoke_dump fields
    (backedUp files options.backupPath (rangeContents c bank.value count)) c1 answer' arguments'
    options' bank count hparse' hbank' hrom' hreads' hwanted.range hcount'
  -- the range holds one save of this length, the one that was stored
  have hstored : HoldsSave bank.value save c1 :=
    (holds_writeBanks hwanted.range hwanted.length).of_saves hsaves
  rw [← (holdsSave_iff hwanted.length).mp hstored] at hinvoke'
  exact ⟨_, hinvoke', rfl, hsaves'⟩

theorem dump_returns_change_erased : ∃ s s',
    invoke none erasingArguments ⟨{}, idle playedCartridge, fun _ => none⟩ = (.ok 0, s) ∧
    invoke none [ascii "--output", ascii "o.sav", ascii "--save-bank", ascii "0x0910",
      ascii "--consecutive-bank", ascii "2"] s = (.ok 0, s') ∧
    s'.files (ascii "o.sav") = some (List.replicate (2 * bankSize) 0x00) := by
  obtain ⟨first, count, save, s, hwanted, hinvoke, hdump⟩ :=
    @dump_returns_change {} (fun _ => none) playedCartridge none erasingArguments erasingOptions none
      (by decide) (.inl rfl) (fun h => by cases h) rfl not_overlong_erasing (by decide)
      fun _ _ => rfl
  have hfirst := hwanted.named ⟨0x0910, by decide⟩ rfl
  obtain ⟨hsave, hcount⟩ := hwanted.erased rfl
  have hcount : count = 2 := hcount
  obtain ⟨s', hinvoke', hfiles, _⟩ := @hdump none
    [ascii "--output", ascii "o.sav", ascii "--save-bank", ascii "0x0910",
      ascii "--consecutive-bank", ascii "2"]
    { saveBank := some ⟨0x0910, by decide⟩, consecutiveBankCount := some 2,
      outputPath := some (ascii "o.sav"), inspectionOnly := false } ⟨0x0910, by decide⟩ (by decide)
    (by rintro (h | h) <;> simp at h) rfl hfirst.symm rfl hcount.symm
  refine ⟨s, s', hinvoke, hinvoke', ?_⟩
  rw [hfiles, hsave, hcount]
  exact Function.update_self ..

end Invoke

end SaveDesk

end Ezfadvance
