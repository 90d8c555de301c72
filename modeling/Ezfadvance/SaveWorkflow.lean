import Ezfadvance.ReadSession
import Ezfadvance.SavePlan

/-!
# SaveWorkflow

The three ways of the save application into the save memory (`save_bank_workflow.cpp`,
`CatalogSaveWorkflow` in `save_reader_application.cpp`, `save_output_path.cpp`). What is only printed
is left out.

* `DirectSaveBankWorkflow.run`, `SaveBankEraseWorkflow.run`, `CatalogSaveWorkflow.run`.
* `ReadThenSaved`, `WrittenAndRead`: what a trace shows before a change and after a whole run.
* `Spec`: a program that changes a save only when the trace so far allows it.
* `changes_guarded`: read, backup, write and read back, in this order, for all three.
-/

namespace Ezfadvance

open Interact Interact.Program CartridgeFormat ReadOnlyCartridge Tool

/-- `bank_count * bank_size` in `std::size_t`. -/
def rangeSize (bankCount : Nat) : Nat := bankCount * bankSize % 2 ^ 64

def hexDigit (value : Nat) : UInt8 := (ascii "0123456789abcdef").getD (value % 16) 0

/-- The four digits of `std::setw(4) << std::setfill('0') << std::hex`. -/
def hex16 (value : UInt16) : Bytes :=
  [value.toNat / 0x1000, value.toNat / 0x100, value.toNat / 0x10, value.toNat].map hexDigit

def bankPath (selector : UInt16) : Bytes := ascii "save-bank-" ++ hex16 selector ++ ascii ".sav"

/-- `SaveFileStore::writeNew`, if a backup path was given. -/
def backup (path : Option Bytes) (save : Bytes) : Tool Bool :=
  match path with
  | none => .pure true
  | some path => ask (Op.writeNew path save)

/-! ## save_bank_workflow.cpp -/

structure DirectSaveBankWorkflow where
  firstBank : SaveBankSelector
  bankCount : Nat
  outputPath : Option Bytes
  input : Option Bytes
  backupPath : Option Bytes

namespace DirectSaveBankWorkflow

def write (w : DirectSaveBankWorkflow) (input current : Bytes) (size : Nat) : Tool Int := do
  if input.length ≠ size then return 1
  if !(← backup w.backupPath current) then return 5
  if !(← usb (SaveMemoryWriter.write w.firstBank.value input)) then return 2
  match ← usb (SaveMemoryReader.read size w.firstBank.value) with
  | none => return 2
  | some verification => return if verification ≠ input then 6 else 0

def dump (w : DirectSaveBankWorkflow) (save : Bytes) : Tool Int := do
  if !(← ask (Op.write (w.outputPath.getD (bankPath w.firstBank.value)) save)) then return 5
  return 0

def run (w : DirectSaveBankWorkflow) : Tool Int := do
  let size := rangeSize w.bankCount
  match ← usb (SaveMemoryReader.read size w.firstBank.value) with
  | none => return 2
  | some current =>
    match w.input with
    | some input => w.write input current size
    | none => w.dump current

end DirectSaveBankWorkflow

structure SaveBankEraseWorkflow where
  firstSelector : UInt16
  bankCount : Nat
  backupPath : Option Bytes

namespace SaveBankEraseWorkflow

def clear (w : SaveBankEraseWorkflow) (size : Nat) : Tool Int := do
  if !(← usb (SaveBankCleaner.clearRange w.firstSelector w.bankCount)) then return 2
  match ← usb (SaveMemoryReader.read size w.firstSelector) with
  | none => return 6
  | some verification => return if verification.any (· != 0x00) then 6 else 0

def run (w : SaveBankEraseWorkflow) : Tool Int := do
  let size := rangeSize w.bankCount
  match w.backupPath with
  | none => w.clear size
  | some path =>
    match ← usb (SaveMemoryReader.read size w.firstSelector) with
    | none => return 2
    | some current =>
      if !(← ask (Op.writeNew path current)) then return 5
      w.clear size

end SaveBankEraseWorkflow

/-! ## save_output_path.cpp -/

namespace SaveOutputPath

def isalnum (c : UInt8) : Bool :=
  decide ((48 ≤ c ∧ c ≤ 57) ∨ (65 ≤ c ∧ c ≤ 90) ∨ (97 ≤ c ∧ c ≤ 122))

def safeCharacter (c : UInt8) : UInt8 :=
  if isalnum c ∨ c = 45 ∨ c = 95 ∨ c = 46 then c else 95

def safeComponent (value : Bytes) : Bytes :=
  let trimmed := (value.map safeCharacter).rdropWhile (· == 95)
  if trimmed = [] then ascii "gba_save" else trimmed

def resolve (requestedPath : Option Bytes) (selectedRom : Option Nat) (selector : UInt16)
    (roms : List SaveCatalogRom) : Except StdException Bytes :=
  match requestedPath, selectedRom with
  | some path, _ => .ok path
  | none, none => .ok (bankPath selector)
  | none, some selected =>
    match roms[selected]? with
    | none => .error (.outOfRange "vector")
    | some rom =>
      let identity := if rom.header.gameCode = [] then rom.catalogEntry.name
        else rom.header.gameCode
      .ok (safeComponent identity ++ ascii ".sav")

end SaveOutputPath

/-! ## save_reader_application.cpp -/

structure CatalogSaveRequest where
  outputPath : Option Bytes
  romNumber : Option Nat
  saveBank : Option SaveBankSelector
  consecutiveBankCount : Option Nat
  input : Option Bytes
  backupPath : Option Bytes
  showCatalog : Bool

namespace CatalogSaveWorkflow

def cardImageSize : UInt32 := 0x02000000
def maxCapturedRoms : Nat := 8

variable (request : CatalogSaveRequest)

def write (plan : SaveAccessPlan) (input save : Bytes) : Tool Int := do
  if input.length ≠ plan.accessSize then return 4
  if !(← backup request.backupPath save) then return 5
  if !(← usb finishSession) then return 2
  if !(← usb (SaveMemoryWriter.write plan.selector input)) then return 2
  if !(← usb finishSession) then return 2
  match ← usb (SaveMemoryReader.read plan.accessSize plan.selector) with
  | none => return 2
  | some verification => return if verification ≠ input then 6 else 0

def dump (plan : SaveAccessPlan) (roms : List SaveCatalogRom) (save : Bytes) : Tool Int := do
  let output ← MonadExcept.ofExcept
    (SaveOutputPath.resolve request.outputPath plan.selectedRom plan.selector roms)
  if !(← ask (Op.write output save)) then return 5
  return 0

/-- What follows a selected plan. -/
def access (plan : SaveAccessPlan) (roms : List SaveCatalogRom) : Tool Int := do
  match ← usb (SaveMemoryReader.read plan.accessSize plan.selector) with
  | none => return 2
  | some save =>
    match request.input with
    | some input => write request plan input save
    | none => dump request plan roms save

def planFor (roms : List SaveCatalogRom) : SaveAccessPlan :=
  SaveAccessPlanner.plan
    { romNumber := request.romNumber
      explicitBank := request.saveBank
      consecutiveBankCount := request.consecutiveBankCount
      writeSize := request.input.map List.length }
    (roms.map (·.saveMarker))

/-- The exit code for a plan that selects nothing. -/
def refusal : SaveAccessPlanStatus → Int
  | .romOutOfRange => 1
  | _ => 4

def analyzedCount (romCount : Nat) : Nat :=
  if request.showCatalog then romCount else request.romNumber.getD 1

def accessCatalog (catalog : Ez3CatalogLayout) (loaderStart loaderEnd : UInt32) : Tool Int := do
  let analysis ← SaveCatalogAnalyzer.analyze catalog loaderStart loaderEnd cardImageSize
    (analyzedCount request catalog.entries.length)
  if !analysis.mappingPrepared then return 2
  let plan := planFor request analysis.roms
  if plan.status ≠ .selected then return refusal plan.status
  access request plan analysis.roms

/-- The checks of the request against the catalog. -/
def checkCatalog (catalog : Ez3CatalogLayout) : Option Int :=
  if !request.showCatalog && request.romNumber.any (· > catalog.entries.length) then some 1
  else if !request.showCatalog && request.romNumber.isNone && catalog.kind != .single then some 4
  else none

def run : Tool Int := do
  let discovery ← Ez3CatalogReader.read reads cardImageSize maxCapturedRoms
  match discovery.status, discovery.catalog with
  | .readFailed, _ => return 2
  | .loaded, some catalog =>
    match checkCatalog request catalog with
    | some status => return status
    | none => accessCatalog request catalog discovery.loaderStart discovery.loaderEnd
  | _, _ => return 3

end CatalogSaveWorkflow

/-! ## What a trace shows -/

/-- The `0x92/01` command, and a packet as long as a bank. -/
def SaveChanging : Tool.Op → Prop
  | .usb (.out data) => data.take 4 = saveWriteOpcode ∨ data.length = bankSize
  | _ => False

theorem not_saveChanging {B : UInt16 → Prop} {o : Tool.Op} (h : ReadOnly B o) : ¬ SaveChanging o := by
  cases o with
  | usb o =>
    cases o with
    | out data =>
      rintro (hsave | hlen)
      · exact h.2.2.2 hsave
      · exact absurd (hlen ▸ h.1) (by decide)
    | _ => exact id
  | _ => exact id

/-- The whole range was read, and then those bytes were put into a new file. -/
def ReadThenSaved (path : Bytes) (firstBank : UInt16) (size : Nat) (h : List Tool.Event) : Prop :=
  ∃ before current after, current.length = size ∧
    h = before ++ ((saveBanks firstBank current).flatMap readBankExchange).map event ++
      ⟨.writeNew path current, true⟩ :: after

/-- Every bank of `save` was written and acknowledged, and afterwards the range read as `save`. -/
def WrittenAndRead (firstBank : UInt16) (save : Bytes) (h : List Tool.Event) : Prop :=
  SaveMemoryReader.Complete save.length ∧ ∃ before between,
    h = before ++ ((saveBanks firstBank save).flatMap writeBankExchange).map event ++ between ++
      ((saveBanks firstBank save).flatMap readBankExchange).map event ∧
    ∀ e ∈ between, ¬ SaveChanging e.1

/-- If a backup was asked for, it was made. -/
def BackedUp (backupPath : Option Bytes) (firstBank : UInt16) (size : Nat)
    (h : List Tool.Event) : Prop :=
  ∀ path, backupPath = some path → ReadThenSaved path firstBank size h

theorem BackedUp.append {backupPath : Option Bytes} {firstBank : UInt16} {size : Nat}
    {h : List Tool.Event} (hb : BackedUp backupPath firstBank size h) (t : List Tool.Event) :
    BackedUp backupPath firstBank size (h ++ t) := by
  intro path hpath
  obtain ⟨before, current, after, hlen, rfl⟩ := hb path hpath
  exact ⟨before, current, after ++ t, hlen, by simp⟩

def AnyBank : UInt16 → Prop := fun _ => True

theorem readOnly_readAnySave {size : Nat} {firstBank : UInt16} :
    Always (ReadOnly AnyBank) Anyhow (usb (SaveMemoryReader.read size firstBank)) :=
  readOnly_readSave fun _ _ _ => trivial

/-! ## Programs that change a save only when they may -/

/-- Each save-changing packet comes at a moment in `Guard`; a run that gives 0 ends in `Done`. -/
def Spec (Guard Done : List Tool.Event → Prop) (p : Tool Int) (h : List Tool.Event) : Prop :=
  ∀ c, Wp memory.recording
    (fun s o => SaveChanging o → (∀ e ∈ s.2, Legal e) → Guard s.2) p
    (fun out s => out = .ok 0 → (∀ e ∈ s.2, Legal e) → Done s.2) (c, h)

section Rules

variable {Guard Done : List Tool.Event → Prop} {h : List Tool.Event} {α : Type}

theorem Spec.exit {status : Int} (hstatus : status ≠ 0) : Spec Guard Done (.pure status) h := by
  intro c hzero
  cases hzero
  exact absurd rfl hstatus

theorem Spec.readOnly {p : Tool Int} (hp : Always (ReadOnly AnyBank) Anyhow p) (hdone : ∀ h, Done h) :
    Spec Guard Done p h := by
  refine fun c => wp_mono (hp.wp_runs fun _ _ _ ho hchange => ?_) fun _ s _ _ _ => hdone s.2
  exact absurd hchange (not_saveChanging ho)

/-- A read-only first part. -/
theorem Spec.bind {p : Tool α} {f : α → Tool Int} (hp : Always (ReadOnly AnyBank) Anyhow p)
    (hf : ∀ t a, Runs p t (.ok a) → Spec Guard Done (f a) (h ++ t)) :
    Spec Guard Done (p >>= f) h := by
  intro c
  refine wp_bind_anyhow (hp.wp_runs fun _ _ _ ho hchange => ?_) ?_ ?_
  · exact absurd hchange (not_saveChanging ho)
  · rintro a ⟨c', h'⟩ ⟨t, rfl, run⟩
    exact hf t a run c'
  · rintro e s _ hzero
    cases hzero

/-- Transport code that may change a save, at a moment when that is allowed. -/
theorem Spec.change {p : Usb StdException Bool} {f : Bool → Tool Int}
    (hp : Always (fun _ => True) Returns p)
    (hguard : ∀ t, (∀ e ∈ h ++ t, Legal e) → Guard (h ++ t))
    (hf : ∀ t a, Runs p t (.ok a) → Spec Guard Done (f a) (h ++ t.map event)) :
    Spec Guard Done (usb p >>= f) h := by
  intro c
  refine wp_usb_bind hp (fun t o _ _ hlegal => hguard t hlegal) fun a t run => ?_
  exact hf t a run c

theorem Spec.backup {path : Option Bytes} {save : Bytes} {f : Bool → Tool Int}
    (hf : ∀ t ok, (∀ file, ok = true → path = some file → t = [⟨.writeNew file save, true⟩]) →
      Spec Guard Done (f ok) (h ++ t)) :
    Spec Guard Done (backup path save >>= f) h := by
  intro c
  cases path with
  | none =>
    have hnone := hf [] true (fun file _ hpath => by cases hpath) c
    rwa [List.append_nil] at hnone
  | some path =>
    refine And.intro (fun hchange => hchange.elim) fun ok s step => ?_
    obtain ⟨c', h'⟩ := s
    obtain ⟨_, rfl⟩ := step
    refine hf _ ok (fun file hok hpath => ?_) c'
    cases hpath
    rw [hok]

/-- From transport events that are legal in a tool. -/
theorem legal_of_tool {t : List Transport.Event} (hlegal : ∀ e ∈ h ++ t.map event, Legal e) :
    ∀ e ∈ t, Transport.Legal e :=
  fun e he => hlegal (event e) (List.mem_append_right _ (List.mem_map_of_mem he))

/-- The save was read and, if a path was given, saved under it. -/
theorem backedUp_of_runs {path : Option Bytes} {firstBank : UInt16} {size : Nat} {save : Bytes}
    {t : List Transport.Event} {t' : List Tool.Event}
    (hread : Runs (SaveMemoryReader.read size firstBank) t (.ok (some save)))
    (hsaved : ∀ file, path = some file → t' = [⟨.writeNew file save, true⟩])
    (hlegal : ∀ e ∈ h ++ t.map event, Legal e) :
    BackedUp path firstBank size (h ++ t.map event ++ t') := by
  intro file hpath
  obtain ⟨hlen, rfl⟩ := runs_readSave (legal_of_tool hlegal) hread
  exact ⟨h, save, [], hlen, by rw [hsaved file hpath]⟩

theorem always_write_any {firstBank : UInt16} {save : Bytes} :
    Always (fun _ => True) Returns (SaveMemoryWriter.write firstBank save : Usb StdException Bool) :=
  (always_writeSave (P := fun _ => True) (B := fun _ => True) ⟨trivial, fun _ _ => trivial⟩ trivial
    (fun _ _ => trivial) fun _ _ => trivial).weaken fun _ _ => trivial

theorem always_clear_any {firstBank : UInt16} {bankCount : Nat} :
    Always (fun _ => True) Returns
      (SaveBankCleaner.clearRange firstBank bankCount : Usb StdException Bool) :=
  (always_clearRange (P := fun _ => True) (B := fun _ => True) ⟨trivial, fun _ _ => trivial⟩ trivial
    trivial fun _ _ _ => trivial).weaken fun _ _ => trivial

/-- The read-back at the end: 0 only if what was read is `save`. -/
theorem Spec.readBack (save : Bytes) {size : Nat} {firstBank : UInt16} {failed : Int}
    {judge : Bytes → Int} (hfailed : failed ≠ 0)
    (hjudge : ∀ verification, verification.length = size → judge verification = 0 →
      verification = save)
    (hdone : Done (h ++ ((saveBanks firstBank save).flatMap readBankExchange).map event)) :
    Spec Guard Done (usb (SaveMemoryReader.read size firstBank) >>= fun verification =>
      match verification with
      | none => (.pure failed : Tool Int)
      | some verification => .pure (judge verification)) h := by
  refine Spec.bind readOnly_readAnySave fun t verification run => ?_
  cases verification with
  | none => exact .exit hfailed
  | some verification =>
    obtain ⟨t, rfl, hread⟩ := runs_usb_iff.mp run
    intro c hzero hlegal
    obtain ⟨hlen, rfl⟩ := runs_readSave (legal_of_tool hlegal) hread
    rw [hjudge verification hlen (Except.ok.inj hzero)]
    exact hdone

end Rules

/-! ## The three workflows -/

section Workflows

variable {h : List Tool.Event}

/-- The input fills the range, and what the range held is backed up. -/
def DirectSaveBankWorkflow.Guard (w : DirectSaveBankWorkflow) (h : List Tool.Event) : Prop :=
  (∃ input, w.input = some input ∧ input.length = rangeSize w.bankCount) ∧
    BackedUp w.backupPath w.firstBank.value (rangeSize w.bankCount) h

def DirectSaveBankWorkflow.Done (w : DirectSaveBankWorkflow) (h : List Tool.Event) : Prop :=
  ∀ input, w.input = some input → input.length = rangeSize w.bankCount ∧
    WrittenAndRead w.firstBank.value input h

theorem spec_directWrite {w : DirectSaveBankWorkflow} {input current : Bytes}
    {t : List Transport.Event} (hinput : w.input = some input)
    (hread : Runs (SaveMemoryReader.read (rangeSize w.bankCount) w.firstBank.value) t
      (.ok (some current))) :
    Spec w.Guard w.Done (w.write input current (rangeSize w.bankCount)) (h ++ t.map event) := by
  rw [DirectSaveBankWorkflow.write]
  split
  · exact .exit (by decide)
  case isFalse hlen =>
    rw [not_not] at hlen
    refine Spec.backup fun t' ok hsaved => ?_
    cases ok with
    | false => exact .exit (by decide)
    | true =>
      refine Spec.change always_write_any (fun t2 hlegal => ⟨⟨input, hinput, hlen⟩, ?_⟩)
        fun t2 written hwrite => ?_
      · refine BackedUp.append (backedUp_of_runs hread (fun file => hsaved file rfl) ?_) t2
        exact fun e he => hlegal e (by simp only [List.mem_append] at he ⊢; tauto)
      · cases written with
        | false => exact .exit (by decide)
        | true =>
          obtain ⟨hcomplete, rfl⟩ := runs_writeSave_true_iff.mp hwrite
          refine Spec.readBack input (by decide) (fun verification _ hzero => ?_) ?_
          · by_contra hne
            rw [if_pos hne] at hzero
            cases hzero
          · intro input' hinput'
            rw [hinput] at hinput'
            cases hinput'
            exact ⟨hlen, hcomplete, _, [], by rw [List.append_nil], by simp⟩

theorem spec_direct (w : DirectSaveBankWorkflow) : Spec w.Guard w.Done w.run h := by
  refine Spec.bind readOnly_readAnySave fun t current run => ?_
  obtain ⟨t, rfl, hread⟩ := runs_usb_iff.mp run
  cases current with
  | none => exact .exit (by decide)
  | some current =>
    dsimp only
    cases hinput : w.input with
    | some input => exact spec_directWrite hinput hread
    | none =>
      refine .readOnly ?_ fun _ input hno => by rw [hinput] at hno; cases hno
      refine And.intro trivial fun written => ?_
      cases written with
      | false => trivial
      | true => trivial

def SaveBankEraseWorkflow.Guard (w : SaveBankEraseWorkflow) (h : List Tool.Event) : Prop :=
  BackedUp w.backupPath w.firstSelector (rangeSize w.bankCount) h

def SaveBankEraseWorkflow.Done (w : SaveBankEraseWorkflow) (h : List Tool.Event) : Prop :=
  WrittenAndRead w.firstSelector (List.replicate (w.bankCount * bankSize) 0x00) h

theorem eq_zeros {save : Bytes} (h : save.any (· != 0x00) = false) :
    save = List.replicate save.length 0x00 := by
  refine List.eq_replicate_of_mem fun b hb => ?_
  have hzero := List.any_eq_false.mp h b hb
  simpa using hzero

theorem spec_clear {w : SaveBankEraseWorkflow}
    (hguard : ∀ t, (∀ e ∈ h ++ t, Legal e) → w.Guard (h ++ t)) :
    Spec w.Guard w.Done (w.clear (rangeSize w.bankCount)) h := by
  refine Spec.change always_clear_any hguard fun t cleared hclear => ?_
  cases cleared with
  | false => exact .exit (by decide)
  | true =>
    obtain ⟨hrange, rfl⟩ := runs_clearRange_true_iff.mp hclear
    have hcount : 0 < w.bankCount ∧ w.bankCount ≤ 4 := ⟨by have := hrange.1; omega, hrange.2.1⟩
    have hsize : rangeSize w.bankCount = w.bankCount * bankSize :=
      Nat.mod_eq_of_lt (by rw [bankSize]; omega)
    refine Spec.readBack (List.replicate (w.bankCount * bankSize) 0x00) (by decide)
      (fun verification hlen hzero => ?_) ?_
    · cases hany : verification.any (· != 0x00) with
      | true =>
        rw [if_pos hany] at hzero
        cases hzero
      | false => rw [eq_zeros hany, hlen, hsize]
    · refine ⟨?_, _, [], by rw [List.append_nil], by simp⟩
      rw [List.length_replicate, SaveMemoryReader.Complete, bankSize]
      omega

theorem spec_erase (w : SaveBankEraseWorkflow) : Spec w.Guard w.Done w.run h := by
  rw [SaveBankEraseWorkflow.run]
  cases hpath : w.backupPath with
  | none =>
    refine spec_clear fun t _ path hsome => ?_
    rw [hpath] at hsome
    cases hsome
  | some path =>
    refine Spec.bind readOnly_readAnySave fun t current run => ?_
    obtain ⟨t, rfl, hread⟩ := runs_usb_iff.mp run
    cases current with
    | none => exact .exit (by decide)
    | some current =>
      refine @Spec.backup _ _ _ (some path) current _ fun t' ok hsaved => ?_
      cases ok with
      | false => exact .exit (by decide)
      | true =>
        refine spec_clear fun t2 hlegal => ?_
        rw [SaveBankEraseWorkflow.Guard, hpath]
        refine BackedUp.append (backedUp_of_runs hread (fun file => hsaved file rfl) ?_) t2
        exact fun e he => hlegal e (by simp only [List.mem_append] at he ⊢; tauto)

namespace CatalogSaveWorkflow

/-- The plan that the catalog and the markers read at the beginning select. -/
def Selected (request : CatalogSaveRequest) (plan : SaveAccessPlan) (h : List Tool.Event) : Prop :=
  ∃ discovery catalog analysis t1 t2 rest, h = t1 ++ t2 ++ rest ∧
    Runs (Ez3CatalogReader.read reads cardImageSize maxCapturedRoms) t1 (.ok discovery) ∧
    discovery.catalog = some catalog ∧
    Runs (SaveCatalogAnalyzer.analyze catalog discovery.loaderStart discovery.loaderEnd
      cardImageSize (analyzedCount request catalog.entries.length)) t2 (.ok analysis) ∧
    plan = planFor request analysis.roms ∧ plan.status = .selected

theorem Selected.append {request : CatalogSaveRequest} {plan : SaveAccessPlan}
    (hp : Selected request plan h) (t : List Tool.Event) : Selected request plan (h ++ t) := by
  obtain ⟨discovery, catalog, analysis, t1, t2, rest, rfl, hfound⟩ := hp
  exact ⟨discovery, catalog, analysis, t1, t2, rest ++ t, by simp, hfound⟩

/-- The input fills the selected save, and what the save held is backed up. -/
def Guard (request : CatalogSaveRequest) (h : List Tool.Event) : Prop :=
  ∃ plan input, Selected request plan h ∧ request.input = some input ∧
    input.length = plan.accessSize ∧ BackedUp request.backupPath plan.selector plan.accessSize h

def Done (request : CatalogSaveRequest) (h : List Tool.Event) : Prop :=
  ∀ input, request.input = some input → ∃ plan, Selected request plan h ∧
    input.length = plan.accessSize ∧ WrittenAndRead plan.selector input h

variable {request : CatalogSaveRequest}

theorem spec_write {plan : SaveAccessPlan} {input current : Bytes} {t : List Transport.Event}
    (hselected : Selected request plan h) (hinput : request.input = some input)
    (hread : Runs (SaveMemoryReader.read plan.accessSize plan.selector) t (.ok (some current))) :
    Spec (Guard request) (Done request) (write request plan input current) (h ++ t.map event) := by
  rw [write]
  split
  · exact .exit (by decide)
  case isFalse hlen =>
    rw [not_not] at hlen
    refine Spec.backup fun t' ok hsaved => ?_
    cases ok with
    | false => exact .exit (by decide)
    | true =>
      refine Spec.bind readOnly_finishSession fun t2 ready _ => ?_
      cases ready with
      | false => exact .exit (by decide)
      | true =>
        refine Spec.change always_write_any (fun t3 hlegal => ?_) fun t3 written hwrite => ?_
        · refine ⟨plan, input, ?_, hinput, hlen, ?_⟩
          · simpa using hselected.append (t.map event ++ t' ++ t2 ++ t3)
          · have hbacked := backedUp_of_runs (h := h) hread (fun file => hsaved file rfl)
              fun e he => hlegal e (by simp only [List.mem_append] at he ⊢; tauto)
            simpa using hbacked.append (t2 ++ t3)
        · cases written with
          | false => exact .exit (by decide)
          | true =>
            obtain ⟨hcomplete, rfl⟩ := runs_writeSave_true_iff.mp hwrite
            refine Spec.bind readOnly_finishSession fun t4 ready hfinish => ?_
            cases ready with
            | false => exact .exit (by decide)
            | true =>
              refine Spec.readBack input (by decide) (fun verification _ hzero => ?_) ?_
              · by_contra hne
                rw [if_pos hne] at hzero
                cases hzero
              · intro input' hinput'
                rw [hinput] at hinput'
                cases hinput'
                refine ⟨plan, ?_, hlen, hcomplete, _, t4, rfl, fun e he => ?_⟩
                · simpa using hselected.append _
                · exact not_saveChanging (((readOnly_finishSession (B := AnyBank)).run hfinish).1 e he)

theorem readOnly_dump {B : UInt16 → Prop} {plan : SaveAccessPlan} {roms : List SaveCatalogRom}
    {save : Bytes} : Always (ReadOnly B) Anyhow (dump request plan roms save) := by
  rw [dump]
  cases SaveOutputPath.resolve request.outputPath plan.selectedRom plan.selector roms with
  | error e => trivial
  | ok output =>
    refine And.intro trivial fun written => ?_
    cases written with
    | false => trivial
    | true => trivial

theorem spec_access {plan : SaveAccessPlan} {roms : List SaveCatalogRom}
    (hselected : Selected request plan h) :
    Spec (Guard request) (Done request) (access request plan roms) h := by
  refine Spec.bind readOnly_readAnySave fun t save run => ?_
  obtain ⟨t, rfl, hread⟩ := runs_usb_iff.mp run
  cases save with
  | none => exact .exit (by decide)
  | some save =>
    dsimp only
    cases hinput : request.input with
    | some input => exact spec_write hselected hinput hread
    | none => exact .readOnly readOnly_dump fun _ input hno => by rw [hinput] at hno; cases hno

theorem refusal_ne_zero (status : SaveAccessPlanStatus) : refusal status ≠ 0 := by
  cases status <;> decide

theorem spec_catalog : Spec (Guard request) (Done request) (run request) [] := by
  refine Spec.bind readOnly_readCatalog fun t1 discovery hcatalog => ?_
  split
  · exact .exit (by decide)
  case h_2 catalog hloaded hfound =>
    split
    case h_1 status hchecked =>
      refine .exit ?_
      rw [checkCatalog] at hchecked
      split at hchecked
      · cases hchecked
        decide
      · split at hchecked
        · cases hchecked
          decide
        · cases hchecked
    case h_2 =>
      refine Spec.bind SaveCatalogAnalyzer.readOnly_analyze fun t2 analysis hanalysis => ?_
      cases hprepared : analysis.mappingPrepared with
      | false => exact .exit (by decide)
      | true =>
        show Spec _ _ (if (planFor request analysis.roms).status ≠ .selected then _ else _) _
        split
        · exact .exit (refusal_ne_zero _)
        case isFalse hplan =>
          exact spec_access ⟨discovery, catalog, analysis, t1, t2, [], by simp, hcatalog, hfound,
            hanalysis, rfl, not_not.mp hplan⟩
  · exact .exit (by decide)

end CatalogSaveWorkflow

end Workflows

/-- Every save-changing packet of a run comes at a moment in `Guard`, and a run that gives 0 ends in
`Done`. -/
def Guarded (Guard Done : List Tool.Event → Prop) (p : Tool Int) : Prop :=
  ∀ {c c' : ReadOnlyCartridge} {trace : List Tool.Event} {out : Except StdException Int},
    LegalRun p c trace out c' →
      (∀ {pre post : List Tool.Event} {e : Tool.Event}, trace = pre ++ e :: post →
        SaveChanging e.1 → Guard pre) ∧
      (out = .ok 0 → Done trace)

theorem guarded_of_spec {Guard Done : List Tool.Event → Prop} {p : Tool Int}
    (h : Spec Guard Done p []) : Guarded Guard Done p := by
  intro c c' trace out run
  obtain ⟨hmay, hout⟩ := (h c).sound_recording run.run run.path
  refine ⟨fun {pre post e} hsplit hchange => ?_, fun hzero => hout hzero run.legal⟩
  obtain ⟨m, _, hguard⟩ := hmay hsplit
  refine hguard hchange fun e' he' => run.legal e' ?_
  rw [hsplit]
  exact List.mem_append_left _ he'

/-- All three workflows read and back up a range before they change it, write only what fills it,
and give 0 only for a range that reads back as it was written. -/
theorem changes_guarded :
    (∀ w : DirectSaveBankWorkflow, Guarded w.Guard w.Done w.run) ∧
    (∀ w : SaveBankEraseWorkflow, Guarded w.Guard w.Done w.run) ∧
    ∀ request, Guarded (CatalogSaveWorkflow.Guard request) (CatalogSaveWorkflow.Done request)
      (CatalogSaveWorkflow.run request) :=
  ⟨fun w => guarded_of_spec (spec_direct w), fun w => guarded_of_spec (spec_erase w),
    fun _ => guarded_of_spec CatalogSaveWorkflow.spec_catalog⟩

end Ezfadvance
