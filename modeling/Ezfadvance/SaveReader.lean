import Ezfadvance.SaveWorkflow

/-!
# SaveReader

The save application (`save_reader_options.cpp`, `save_reader_application.cpp`): its arguments, what
it asks before the device is opened, and which workflow it runs.

* `parseSaveReaderOptions`, `SaveReader.run`.
* `plan_proven`: a selected plan that is no direct access consists of proven banks.
* `SelectsProven`, `Overlong`: only proven banks are selected, and the one request that is never
  checked.
* `selects_proven_iff`: every run selects proven banks only, except for such a request.
-/

namespace Ezfadvance

open Interact Interact.Program CartridgeFormat ReadOnlyCartridge Tool

/-! ## save_reader_options.cpp, save_selection.hpp -/

structure SaveReaderOptions where
  outputPath : Option Bytes := none
  romNumber : Option Nat := none
  saveBank : Option SaveBankSelector := none
  consecutiveBankCount : Option Nat := none
  writePath : Option Bytes := none
  backupPath : Option Bytes := none
  authorizeWrite : Bool := false
  erase : Bool := false
  inspectionOnly : Bool := true
  deriving DecidableEq

/-- `SaveReaderParseStatus`, with the options or with what is reported. -/
inductive SaveReaderParse where
  | run (options : SaveReaderOptions)
  | help
  | error (diagnostic : Bytes)
  deriving DecidableEq

def parsePositiveNumber (text : Bytes) : Option Nat :=
  (fromChars text 10).bind fun value => if value = 0 then none else some value

def parseConsecutiveBankCount (text : Bytes) : Option Nat :=
  (fromChars text 10).bind fun count => if count < 1 ∨ count > 4 then none else some count

def saveWritePathsConflict (input backup : Option Bytes) : Bool :=
  input.isSome && input == backup

def isspace (c : UInt8) : Bool := decide (c = 32 ∨ (9 ≤ c ∧ c ≤ 13))

def tolower (c : UInt8) : UInt8 := if 65 ≤ c ∧ c ≤ 90 then c + 32 else c

def confirmsDestructiveOperation (answer : Bytes) : Bool :=
  let trimmed := (answer.dropWhile isspace).rdropWhile isspace
  if trimmed.length ≠ 1 ∧ trimmed.length ≠ 3 then false
  else
    let normalized := trimmed.map tolower
    normalized == ascii "y" || normalized == ascii "yes"

/-- The checks behind the loop of `parseSaveReaderOptions`. -/
def checkSaveReaderOptions (options : SaveReaderOptions) : SaveReaderParse :=
  if options.writePath.isSome ∧ options.outputPath.isSome then
    .error (ascii "--output is for extraction and cannot be combined with --write.\n")
  else if options.erase ∧ (options.writePath.isSome ∨ options.outputPath.isSome ∨
      options.romNumber.isSome ∨ options.authorizeWrite) then
    .error (ascii
      "--erase cannot be combined with --write, --output, --rom, or --yes-really-write.\n")
  else if options.consecutiveBankCount.isSome ∧ options.saveBank.isNone then
    .error (ascii "--consecutive-bank requires --save-bank.\n")
  else if options.consecutiveBankCount.isSome ∧ options.romNumber.isSome then
    .error (ascii
      "--consecutive-bank is for direct bank access and cannot be combined with --rom.\n")
  else if options.consecutiveBankCount.any fun count =>
      options.saveBank.any fun bank => !bank.accommodates (rangeSize count) then
    .error (ascii "The requested consecutive-bank range extends beyond save bank 0x0930.\n")
  else if options.writePath.isNone ∧ !options.erase ∧
      (options.backupPath.isSome ∨ options.authorizeWrite) then
    .error (ascii "--backup and --yes-really-write require --write FILE.\n")
  else if options.writePath.isSome ∧ !options.authorizeWrite then
    .error (ascii "Save writing requires --yes-really-write.\n")
  else if saveWritePathsConflict options.writePath options.backupPath then
    .error (ascii "The input save and backup paths must be different.\n")
  else .run options

/-- The options that take the argument behind them: what is reported if it is missing or bad, and
what a good one sets. -/
def valueOption (options : SaveReaderOptions) (argument : Bytes) :
    Option (Bytes × (Bytes → Option SaveReaderOptions)) :=
  if argument = ascii "--output" then
    some ([], fun path => some { options with outputPath := some path })
  else if argument = ascii "--rom" then
    some (ascii "Bad --rom value.\n", fun number =>
      (parsePositiveNumber number).map fun parsed => { options with romNumber := some parsed })
  else if argument = ascii "--write" then
    some ([], fun path => some { options with writePath := some path })
  else if argument = ascii "--save-bank" then
    some (ascii "Bad --save-bank value; expected 0x0900, 0x0910, 0x0920, or 0x0930.\n",
      fun selector =>
        (SaveBankSelector.parse selector).map fun bank => { options with saveBank := some bank })
  else if argument = ascii "--consecutive-bank" then
    some (ascii "Bad --consecutive-bank value; expected 1 to 4.\n", fun count =>
      (parseConsecutiveBankCount count).map fun parsed =>
        { options with consecutiveBankCount := some parsed })
  else if argument = ascii "--backup" then
    some ([], fun path => some { options with backupPath := some path })
  else none

def flagOption (options : SaveReaderOptions) (argument : Bytes) : Option SaveReaderOptions :=
  if argument = ascii "--yes-really-write" then some { options with authorizeWrite := true }
  else if argument = ascii "--erase" then some { options with erase := true }
  else none

/-- The loop over the arguments. -/
def parseArguments : List Bytes → SaveReaderOptions → SaveReaderParse
  | [], options => checkSaveReaderOptions options
  | argument :: arguments, options =>
    match valueOption options argument with
    | some (diagnostic, set) =>
      match arguments with
      | [] => .error diagnostic
      | value :: arguments =>
        match set value with
        | none => .error diagnostic
        | some options => parseArguments arguments options
    | none =>
      match flagOption options argument with
      | some options => parseArguments arguments options
      | none =>
        if argument = ascii "--help" ∨ argument = ascii "-h" then .help
        else .error (ascii "Unknown option: " ++ argument ++ ascii "\n")

def parseSaveReaderOptions (arguments : List Bytes) : SaveReaderParse :=
  parseArguments arguments { inspectionOnly := arguments.isEmpty }

/-! ## save_reader_application.cpp -/

/-- What the application meets outside the transport: the files it can open, the line that is typed
when it asks, and whether the device opens. -/
structure Host where
  files : Bytes → Option Bytes
  answer : Option Bytes
  deviceOpens : Bool

namespace SaveReader

/-- The save input, if one is wanted; no result where the application gives up. -/
def loadInput (files : Bytes → Option Bytes) (options : SaveReaderOptions) :
    Option (Option Bytes) :=
  match options.writePath with
  | none => some none
  | some path =>
    match files path with
    | none => none
    | some save =>
      if save = [] ∨ save.length % 0x8000 ≠ 0 ∨ save.length > 0x20000 then none
      else if options.consecutiveBankCount.any (fun count => save.length != rangeSize count) then
        none
      else some (some save)

/-- Writing and erasing without a backup are confirmed first. -/
def confirmed (host : Host) (options : SaveReaderOptions) : Bool :=
  let asks := (options.writePath.isSome || options.erase) && options.backupPath.isNone
  !asks || host.answer.any confirmsDestructiveOperation

def catalogRequest (options : SaveReaderOptions) (writeSave : Option Bytes) :
    CatalogSaveRequest :=
  { outputPath := options.outputPath
    romNumber := options.romNumber
    saveBank := options.saveBank
    consecutiveBankCount := options.consecutiveBankCount
    input := writeSave
    backupPath := options.backupPath
    showCatalog := options.inspectionOnly }

def catalogAccess (request : CatalogSaveRequest) : Tool Int := do
  let initialized ← initializeCartridge
  let cartridge ← load
  if initialized ∧ cartridge.kind = .ez3Flash then
    let result ← CatalogSaveWorkflow.run request
    let closed ← usb finishSession
    return if !closed ∧ result = 0 then 2 else result
  else if cartridge.kind ≠ .unknown then
    let _ ← usb finishSession
    return 2
  else return 2

def eraseWorkflow (options : SaveReaderOptions) : SaveBankEraseWorkflow :=
  { firstSelector := (options.saveBank.map SaveBankSelector.value).getD firstBank
    bankCount := if options.saveBank.isSome then options.consecutiveBankCount.getD 1 else 4
    backupPath := options.backupPath }

def directBankCount (options : SaveReaderOptions) (writeSave : Option Bytes) : Nat :=
  options.consecutiveBankCount.getD
    (match writeSave with
      | some save => save.length / bankSize
      | none => 1)

def directWorkflow (options : SaveReaderOptions) (bank : SaveBankSelector)
    (writeSave : Option Bytes) : DirectSaveBankWorkflow :=
  { firstBank := bank
    bankCount := directBankCount options writeSave
    outputPath := options.outputPath
    input := writeSave
    backupPath := options.backupPath }

/-- The application on the opened device. -/
def access (options : SaveReaderOptions) (writeSave : Option Bytes) : Tool Int :=
  if options.erase then (eraseWorkflow options).run
  else
    match options.saveBank, options.romNumber with
    | some bank, none => (directWorkflow options bank writeSave).run
    | _, _ => catalogAccess (catalogRequest options writeSave)

def run (host : Host) (arguments : List Bytes) : Tool Int :=
  if arguments = [ascii "--version"] then .pure 0
  else
    match parseSaveReaderOptions arguments with
    | .help => .pure 0
    | .error _ => .pure 1
    | .run options =>
      match loadInput host.files options with
      | none => .pure 1
      | some writeSave =>
        if !confirmed host options then .pure 1
        else if !host.deviceOpens then .pure 1
        else access options writeSave

end SaveReader

/-! ## Which banks are selected -/

/-- Selects only save banks in `B`. -/
def Selects (B : UInt16 → Prop) : Tool.Op → Prop
  | .usb (.selectBank bankValue) => B bankValue
  | _ => True

section Selects

variable {B : UInt16 → Prop} {α : Type}

theorem selects_readOnly {p : Tool α} (h : Always (ReadOnly B) Anyhow p) :
    Always (Selects B) Anyhow p := by
  refine h.weaken fun o ho => ?_
  cases o with
  | usb o =>
    cases o with
    | selectBank bankValue => exact ho
    | _ => trivial
  | _ => trivial

theorem selects_usb {P : Bytes → Prop} {p : Usb StdException α}
    (h : Always (Transport.Uses P B) Returns p) : Always (Selects B) Anyhow (usb p) := by
  refine (always_usb (h.weaken fun o ho => ?_)).anyhow
  cases o with
  | selectBank bankValue => exact ho
  | _ => trivial

theorem selects_backup {path : Option Bytes} {save : Bytes} :
    Always (Selects B) Anyhow (backup path save) := by
  cases path with
  | none => trivial
  | some path => exact And.intro trivial fun _ => trivial

/-- The banks that a save of this size fills. -/
def RangeIn (B : UInt16 → Prop) (firstBank : UInt16) (saveSize : Nat) : Prop :=
  ∀ k < saveSize / bankSize, B (bankSelector firstBank k)

theorem selects_readSave {firstBank : UInt16} {saveSize : Nat} (hB : RangeIn B firstBank saveSize) :
    Always (Selects B) Anyhow (usb (SaveMemoryReader.read saveSize firstBank)) :=
  selects_readOnly (readOnly_readSave fun _ => hB)

theorem selects_writeSave {firstBank : UInt16} {save : Bytes}
    (hB : RangeIn B firstBank save.length) :
    Always (Selects B) Anyhow (usb (SaveMemoryWriter.write firstBank save)) :=
  selects_usb (always_writeSave (P := fun _ => True) ⟨trivial, fun _ _ => trivial⟩ trivial
    (fun _ _ => trivial) hB)

theorem selects_direct {w : DirectSaveBankWorkflow}
    (hB : RangeIn B w.firstBank.value (rangeSize w.bankCount)) :
    Always (Selects B) Anyhow w.run := by
  refine (selects_readSave hB).andThen fun current => ?_
  cases current with
  | none => trivial
  | some current =>
    dsimp only
    cases w.input with
    | none =>
      refine And.intro trivial fun written => ?_
      cases written with
      | false => trivial
      | true => trivial
    | some input =>
      show Always _ _ (DirectSaveBankWorkflow.write w input current (rangeSize w.bankCount))
      rw [DirectSaveBankWorkflow.write]
      split
      · trivial
      case isFalse hlen =>
        refine selects_backup.andThen fun saved => ?_
        cases saved with
        | false => trivial
        | true =>
          rw [not_not] at hlen
          refine (selects_writeSave (hlen ▸ hB)).andThen fun written => ?_
          cases written with
          | false => trivial
          | true =>
            refine (selects_readSave hB).andThen fun verification => ?_
            cases verification with
            | none => trivial
            | some verification => trivial

theorem selects_erase {w : SaveBankEraseWorkflow}
    (hB : RangeIn B w.firstSelector (rangeSize w.bankCount))
    (hclear : SaveBankCleaner.InRange w.firstSelector w.bankCount →
      ∀ k < w.bankCount, B (bankSelector w.firstSelector k)) :
    Always (Selects B) Anyhow w.run := by
  have hrest : Always (Selects B) Anyhow (w.clear (rangeSize w.bankCount)) := by
    refine (selects_usb (always_clearRange (P := fun _ => True) ⟨trivial, fun _ _ => trivial⟩
      trivial trivial hclear)).andThen fun cleared => ?_
    cases cleared with
    | false => trivial
    | true =>
      refine (selects_readSave hB).andThen fun verification => ?_
      cases verification with
      | none => trivial
      | some verification => trivial
  rw [SaveBankEraseWorkflow.run]
  cases w.backupPath with
  | none => exact hrest
  | some path =>
    refine (selects_readSave hB).andThen fun current => ?_
    cases current with
    | none => trivial
    | some current =>
      refine (@selects_backup B (some path) current).andThen fun saved => ?_
      cases saved with
      | false => trivial
      | true => exact hrest

/-- A catalog run selects the banks of its plan, if it gets one. -/
theorem selects_catalog {request : CatalogSaveRequest}
    (hB : ∀ roms, (CatalogSaveWorkflow.planFor request roms).status = .selected →
      RangeIn B (CatalogSaveWorkflow.planFor request roms).selector
        (CatalogSaveWorkflow.planFor request roms).accessSize) :
    Always (Selects B) Anyhow (CatalogSaveWorkflow.run request) := by
  refine (selects_readOnly readOnly_readCatalog).andThen fun discovery => ?_
  split
  · trivial
  · split
    · trivial
    · refine (selects_readOnly SaveCatalogAnalyzer.readOnly_analyze).andThen fun analysis => ?_
      cases analysis.mappingPrepared with
      | false => trivial
      | true =>
        show Always _ _ (if (CatalogSaveWorkflow.planFor request analysis.roms).status ≠ .selected
          then _ else _)
        split
        · trivial
        case isFalse hselected =>
          have hrange := hB analysis.roms (not_not.mp hselected)
          refine (selects_readSave hrange).andThen fun save => ?_
          cases save with
          | none => trivial
          | some save =>
            dsimp only
            cases request.input with
            | none => exact selects_readOnly CatalogSaveWorkflow.readOnly_dump
            | some input =>
              dsimp only
              rw [CatalogSaveWorkflow.write]
              split
              · trivial
              case isFalse hlen =>
                rw [not_not] at hlen
                refine selects_backup.andThen fun saved => ?_
                cases saved with
                | false => trivial
                | true =>
                  refine (selects_readOnly readOnly_finishSession).andThen fun ready => ?_
                  cases ready with
                  | false => trivial
                  | true =>
                    refine (selects_writeSave (hlen ▸ hrange)).andThen fun written => ?_
                    cases written with
                    | false => trivial
                    | true =>
                      refine (selects_readOnly readOnly_finishSession).andThen fun ready => ?_
                      cases ready with
                      | false => trivial
                      | true =>
                        refine (selects_readSave hrange).andThen fun verification => ?_
                        cases verification with
                        | none => trivial
                        | some verification => trivial
  · trivial

end Selects

/-! ## Checked ranges -/

theorem rangeIn_of_le {bank : SaveBankSelector} {saveSize : Nat}
    (hsize : SaveMemoryReader.Complete saveSize)
    (h : bank.value.toNat + (saveSize / bankSize - 1) * bankStride ≤ lastBank.toNat) :
    RangeIn ProvenBank bank.value saveSize := by
  intro k hk
  have hfour : saveSize / bankSize ≤ 4 := Nat.div_le_of_le_mul (by
    have := hsize.2.1
    omega)
  have hle : k * bankStride ≤ (saveSize / bankSize - 1) * bankStride :=
    Nat.mul_le_mul_right _ (by omega)
  rw [provenBank_bankSelector_iff (by omega)]
  omega

/-- A selected plan that is no direct access stays inside the four proven banks. -/
theorem plan_proven {request : SaveAccessRequest} {markers : List Bytes}
    (hdirect : isDirectSaveBankAccess request.romNumber request.explicitBank.isSome = false)
    (h : (SaveAccessPlanner.plan request markers).status = .selected) :
    RangeIn ProvenBank (SaveAccessPlanner.plan request markers).selector
      (SaveAccessPlanner.plan request markers).accessSize := by
  obtain ⟨hbank, hwithin⟩ := plan_within hdirect h
  obtain ⟨banks, hpos, hfour, hsize, hle⟩ := hwithin
  rw [hsize]
  refine @rangeIn_of_le ⟨_, hbank⟩ _ ?_ ?_
  · rw [SaveMemoryReader.Complete, bankSize]
    omega
  · rwa [Nat.mul_div_cancel _ (show 0 < bankSize by decide)]

/-! ## Accepted options -/

/-- What the option parser has checked. -/
structure AcceptedOptions (options : SaveReaderOptions) : Prop where
  counts : ∀ n, options.consecutiveBankCount = some n → 1 ≤ n ∧ n ≤ 4
  erases : options.erase = true → options.writePath = none
  direct : ∀ n, options.consecutiveBankCount = some n → ∃ bank, options.saveBank = some bank ∧
    bank.accommodates (rangeSize n) = true

theorem unless_error_iff {p : Prop} [Decidable p] {diagnostic : Bytes} {parse : SaveReaderParse}
    {options : SaveReaderOptions} :
    (if p then SaveReaderParse.error diagnostic else parse) = .run options ↔
      ¬ p ∧ parse = .run options := by
  split
  case isTrue h => exact ⟨fun hno => (by cases hno), fun hno => absurd h hno.1⟩
  case isFalse h => exact (and_iff_right h).symm

theorem checked_options {options options' : SaveReaderOptions}
    (h : checkSaveReaderOptions options = .run options')
    (hcounts : ∀ n, options.consecutiveBankCount = some n → 1 ≤ n ∧ n ≤ 4) :
    AcceptedOptions options' := by
  rw [checkSaveReaderOptions] at h
  simp only [unless_error_iff] at h
  obtain ⟨_, herase, hbank, _, hfits, _, _, _, heq⟩ := h
  cases heq
  refine ⟨hcounts, fun hset => ?_, fun n hn => ?_⟩
  · rw [Option.eq_none_iff_forall_not_mem]
    intro path hpath
    exact herase ⟨hset, .inl (by rw [hpath]; rfl)⟩
  · cases hsome : options.saveBank with
    | none => exact absurd ⟨by rw [hn]; rfl, by rw [hsome]; rfl⟩ hbank
    | some bank =>
      rw [hn, hsome, Option.any_some, Option.any_some, Bool.not_eq_true, Bool.not_eq_false'] at hfits
      exact ⟨bank, rfl, hfits⟩

/-- A count, if there is one, is one to four. -/
def CountChecked (options : SaveReaderOptions) : Prop :=
  ∀ n, options.consecutiveBankCount = some n → 1 ≤ n ∧ n ≤ 4

/-- One test of `valueOption`: the option is this one, or one of those behind it. -/
theorem valueOption_cases {p : Prop} [Decidable p] {diagnostic diagnostic' : Bytes}
    {set set' : Bytes → Option SaveReaderOptions}
    {others : Option (Bytes × (Bytes → Option SaveReaderOptions))}
    (h : (if p then some (diagnostic, set) else others) = some (diagnostic', set')) :
    set' = set ∨ others = some (diagnostic', set') := by
  split at h
  · obtain ⟨_, rfl⟩ := Prod.mk.inj (Option.some.inj h)
    exact .inl rfl
  · exact .inr h

theorem countChecked_value {options options' : SaveReaderOptions} {argument diagnostic value : Bytes}
    {set : Bytes → Option SaveReaderOptions}
    (hoption : valueOption options argument = some (diagnostic, set))
    (hset : set value = some options') (h : CountChecked options) : CountChecked options' := by
  -- every option but one leaves the count as it is
  have hkeeps : ∀ {other : SaveReaderOptions}, some other = some options' →
      other.consecutiveBankCount = options.consecutiveBankCount → CountChecked options' := by
    rintro other ⟨⟩ hkept n hn
    exact h n (hkept ▸ hn)
  rw [valueOption] at hoption
  obtain rfl | hoption := valueOption_cases hoption
  · exact hkeeps hset rfl
  obtain rfl | hoption := valueOption_cases hoption
  · obtain ⟨number, _, hnumber⟩ := Option.map_eq_some_iff.mp hset
    exact hkeeps (congrArg some hnumber) rfl
  obtain rfl | hoption := valueOption_cases hoption
  · exact hkeeps hset rfl
  obtain rfl | hoption := valueOption_cases hoption
  · obtain ⟨bank, _, hbank⟩ := Option.map_eq_some_iff.mp hset
    exact hkeeps (congrArg some hbank) rfl
  obtain rfl | hoption := valueOption_cases hoption
  · obtain ⟨count, hparse, rfl⟩ := Option.map_eq_some_iff.mp hset
    obtain ⟨number, _, hnumber⟩ := Option.bind_eq_some_iff.mp hparse
    intro n hn
    obtain rfl : count = n := Option.some.inj hn
    split at hnumber
    · cases hnumber
    · cases hnumber
      omega
  obtain rfl | hoption := valueOption_cases hoption
  · exact hkeeps hset rfl
  · cases hoption

theorem countChecked_flag {options options' : SaveReaderOptions} {argument : Bytes}
    (hoption : flagOption options argument = some options') (h : CountChecked options) :
    CountChecked options' := by
  rw [flagOption] at hoption
  split at hoption
  · cases hoption
    exact h
  · split at hoption
    · cases hoption
      exact h
    · cases hoption

/-- The loop keeps the counts checked, and ends in the checks. -/
theorem accepted_options {arguments : List Bytes} {options options' : SaveReaderOptions}
    (h : parseArguments arguments options = .run options') (hcount : CountChecked options) :
    AcceptedOptions options' := by
  fun_induction parseArguments arguments options with
  | case1 options => exact checked_options h hcount
  | case4 options argument diagnostic set hoption value arguments options2 hset ih =>
    exact ih h (countChecked_value hoption hset hcount)
  | case5 options argument arguments hvalue options2 hflag ih =>
    exact ih h (countChecked_flag hflag hcount)
  | _ => cases h

/-! ## The application -/

namespace SaveReader

/-- The one request whose range nothing checks: an input file written directly, without a count, to
a bank behind which there are too few. -/
def Overlong (files : Bytes → Option Bytes) (options : SaveReaderOptions) : Prop :=
  ∃ path save bank, options.writePath = some path ∧ files path = some save ∧
    SaveMemoryReader.Complete save.length ∧ options.saveBank = some bank ∧
    options.romNumber = none ∧ options.consecutiveBankCount = none ∧
    lastBank.toNat < bank.value.toNat + (save.length / bankSize - 1) * bankStride

/-- A direct request whose last bank lies behind `0x0930`. -/
def BeyondLast (files : Bytes → Option Bytes) (options : SaveReaderOptions) : Prop :=
  ∃ bank writeSave, options.saveBank = some bank ∧ options.romNumber = none ∧
    loadInput files options = some writeSave ∧
    lastBank.toNat < bank.value.toNat + (directBankCount options writeSave - 1) * bankStride

/-- No run selects anything but the four proven banks, and a direct request beyond them selects no
bank at all. -/
def SelectsProven (files : Bytes → Option Bytes) (arguments : List Bytes) : Prop :=
  ∀ {answer : Option Bytes} {deviceOpens : Bool} {c c' : ReadOnlyCartridge}
    {trace : List Tool.Event} {out : Except StdException Int},
    LegalRun (run ⟨files, answer, deviceOpens⟩ arguments) c trace out c' →
      (∀ e ∈ trace, Selects ProvenBank e.1) ∧
      ∀ options, parseSaveReaderOptions arguments = .run options → BeyondLast files options →
        ∀ e ∈ trace, Selects (fun _ => False) e.1

variable {files : Bytes → Option Bytes} {options : SaveReaderOptions}

theorem loadInput_some {writeSave : Option Bytes} (h : loadInput files options = some writeSave) :
    writeSave = none ∨ ∃ path save, options.writePath = some path ∧ files path = some save ∧
      writeSave = some save ∧ SaveMemoryReader.Complete save.length := by
  rw [loadInput] at h
  cases hpath : options.writePath with
  | none =>
    simp only [hpath] at h
    cases h
    exact .inl rfl
  | some path =>
    simp only [hpath] at h
    cases hfile : files path with
    | none =>
      simp only [hfile] at h
      cases h
    | some save =>
      simp only [hfile] at h
      split at h
      · cases h
      case isFalse hsize =>
        split at h
        · cases h
        · cases h
          refine .inr ⟨path, save, rfl, hfile, rfl, ?_⟩
          rw [← List.length_eq_zero_iff] at hsize
          rw [SaveMemoryReader.Complete, bankSize]
          omega

theorem loadInput_complete {path save : Bytes} (hpath : options.writePath = some path)
    (hfile : files path = some save) (hsize : SaveMemoryReader.Complete save.length)
    (hcount : options.consecutiveBankCount = none) :
    loadInput files options = some (some save) := by
  rw [SaveMemoryReader.Complete, bankSize] at hsize
  rw [loadInput, hpath]
  dsimp only
  rw [hfile]
  dsimp only
  rw [hcount, if_neg (by rw [← List.length_eq_zero_iff]; omega)]
  rfl

theorem rangeSize_of_le {n : Nat} (h : n ≤ 4) : rangeSize n = n * bankSize :=
  Nat.mod_eq_of_lt (by rw [bankSize]; omega)

theorem complete_range {n : Nat} (hpos : 1 ≤ n) (hle : n ≤ 4) :
    SaveMemoryReader.Complete (rangeSize n) := by
  rw [rangeSize_of_le hle, SaveMemoryReader.Complete, bankSize]
  omega

theorem rangeSize_div {n : Nat} (h : n ≤ 4) : rangeSize n / bankSize = n := by
  rw [rangeSize_of_le h, Nat.mul_div_cancel _ (by decide)]

/-- The banks of `--consecutive-bank` were checked by the parser. -/
theorem consecutive_range {bank : SaveBankSelector} {n : Nat} (haccepted : AcceptedOptions options)
    (hbank : options.saveBank = some bank) (hcount : options.consecutiveBankCount = some n) :
    1 ≤ n ∧ n ≤ 4 ∧ bank.value.toNat + (n - 1) * bankStride ≤ lastBank.toNat := by
  obtain ⟨hpos, hle⟩ := haccepted.counts n hcount
  obtain ⟨bank', hbank', hfits⟩ := haccepted.direct n hcount
  rw [hbank, Option.some.injEq] at hbank'
  subst hbank'
  rw [accommodates_iff (complete_range hpos hle), rangeSize_div hle] at hfits
  exact ⟨hpos, hle, hfits⟩

/-- Unless the request is overlong, the range of a direct access passed a check. -/
theorem direct_range {bank : SaveBankSelector} {writeSave : Option Bytes}
    (haccepted : AcceptedOptions options) (hbank : options.saveBank = some bank)
    (hrom : options.romNumber = none) (hload : loadInput files options = some writeSave)
    (hshort : ¬ Overlong files options) :
    1 ≤ directBankCount options writeSave ∧ directBankCount options writeSave ≤ 4 ∧
      bank.value.toNat + (directBankCount options writeSave - 1) * bankStride ≤
        lastBank.toNat := by
  unfold directBankCount
  cases hcount : options.consecutiveBankCount with
  | some n => exact consecutive_range haccepted hbank hcount
  | none =>
    obtain rfl | ⟨path, save, hpath, hfile, rfl, hsize⟩ := loadInput_some hload
    · obtain ⟨k, hk, hvalue⟩ := provenBank_iff.mp bank.proven
      refine ⟨Nat.le_refl 1, show 1 ≤ 4 by decide, ?_⟩
      show bank.value.toNat + 0 * bankStride ≤ 0x0930
      omega
    · have hle : ¬ lastBank.toNat <
          bank.value.toNat + (save.length / bankSize - 1) * bankStride := fun hlt =>
        hshort ⟨path, save, bank, hpath, hfile, hsize, hbank, hrom, hcount, hlt⟩
      obtain ⟨hpos, hfour, hmod⟩ := hsize
      refine ⟨?_, ?_, Nat.not_lt.mp hle⟩
      · rw [bankSize] at hfour hmod
        show 1 ≤ save.length / 0x8000
        omega
      · exact Nat.div_le_of_le_mul (by omega)

theorem proven_range {bank : SaveBankSelector} {n : Nat} (hpos : 1 ≤ n) (hle : n ≤ 4)
    (h : bank.value.toNat + (n - 1) * bankStride ≤ lastBank.toNat) :
    RangeIn ProvenBank bank.value (rangeSize n) :=
  rangeIn_of_le (complete_range hpos hle) (by rwa [rangeSize_div hle])

/-- The banks of an erase run are in range as well. -/
theorem erase_range (haccepted : AcceptedOptions options) :
    ∃ bank : SaveBankSelector, (eraseWorkflow options).firstSelector = bank.value ∧
      1 ≤ (eraseWorkflow options).bankCount ∧ (eraseWorkflow options).bankCount ≤ 4 ∧
      bank.value.toNat + ((eraseWorkflow options).bankCount - 1) * bankStride ≤
        lastBank.toNat := by
  rw [eraseWorkflow]
  cases hbank : options.saveBank with
  | none =>
    exact ⟨⟨firstBank, by decide⟩, rfl, (by decide : 1 ≤ 4), (by decide : 4 ≤ 4),
      (by decide : firstBank.toNat + (4 - 1) * bankStride ≤ lastBank.toNat)⟩
  | some bank =>
    refine ⟨bank, rfl, ?_⟩
    dsimp only
    cases hcount : options.consecutiveBankCount with
    | some n => exact consecutive_range haccepted hbank hcount
    | none =>
      obtain ⟨k, hk, hvalue⟩ := provenBank_iff.mp bank.proven
      rw [hvalue, show lastBank.toNat = 0x0930 from rfl]
      simp
      omega

theorem selects_access {writeSave : Option Bytes} (haccepted : AcceptedOptions options)
    (hload : loadInput files options = some writeSave) (hshort : ¬ Overlong files options) :
    Always (Selects ProvenBank) Anyhow (access options writeSave) := by
  rw [access]
  split
  · obtain ⟨bank, hfirst, hpos, hle, hrange⟩ := erase_range haccepted
    have hproven := proven_range hpos hle hrange
    rw [← hfirst] at hproven
    refine selects_erase hproven fun _ k hk => hproven k ?_
    rwa [rangeSize_div hle]
  · split
    case h_1 bank hbank hrom =>
      obtain ⟨hpos, hle, hrange⟩ := direct_range haccepted hbank hrom hload hshort
      exact selects_direct (proven_range hpos hle hrange)
    case h_2 hcatalog =>
      refine (selects_readOnly readOnly_initializeCartridge).andThen fun initialized =>
        (always_load trivial).andThen fun cartridge => ?_
      show Always _ _ (if initialized ∧ cartridge.kind = .ez3Flash then _ else _)
      split
      · refine (selects_catalog fun roms hselected => plan_proven ?_ hselected).andThen fun result =>
          (selects_readOnly readOnly_finishSession).andThen fun closed => trivial
        rw [isDirectSaveBankAccess]
        dsimp only [catalogRequest]
        cases hbank : options.saveBank with
        | none => rfl
        | some bank =>
          cases hrom : options.romNumber with
          | none => exact absurd hrom (hcatalog bank hbank)
          | some rom => rfl
      · split
        · exact (selects_readOnly readOnly_finishSession).andThen fun _ => trivial
        · trivial

theorem not_beyondLast (haccepted : AcceptedOptions options) (hshort : ¬ Overlong files options) :
    ¬ BeyondLast files options := by
  rintro ⟨bank, writeSave, hbank, hrom, hload, hlt⟩
  have hle := (direct_range haccepted hbank hrom hload hshort).2.2
  omega

theorem selects_run {answer : Option Bytes} {deviceOpens : Bool} {arguments : List Bytes}
    (hparse : parseSaveReaderOptions arguments = .run options)
    (hshort : ¬ Overlong files options) :
    Always (Selects ProvenBank) Anyhow (run ⟨files, answer, deviceOpens⟩ arguments) := by
  have haccepted := accepted_options hparse fun n hn => by cases hn
  rw [run]
  split
  · trivial
  · simp only [hparse]
    cases hload : loadInput files options with
    | none => trivial
    | some writeSave =>
      dsimp only
      split
      · trivial
      · split
        · trivial
        · exact selects_access haccepted hload hshort

/-! ### The unchecked request -/

/-- Every bank but the last is read; for the last one the first transfer is not sent. -/
def lastBankFails (firstBank : UInt16) (count : Nat) (save : Bytes) : List Transport.Event :=
  (bankChunks firstBank 0 count save).flatMap readBankExchange ++
    [⟨.selectBank (bankSelector firstBank count), ()⟩, ⟨.out Protocol.command92Two, false⟩]

theorem runs_readBanks_fails {firstBank : UInt16} {count index : Nat} {save : Bytes}
    (hlen : save.length = count * bankSize) :
    Runs (SaveMemoryReader.readBanks firstBank index (count + 1) :
        Usb StdException (Option Bytes))
      ((bankChunks firstBank index count save).flatMap readBankExchange ++
        [⟨.selectBank (bankSelector firstBank (index + count)), ()⟩,
          ⟨.out Protocol.command92Two, false⟩]) (.ok none) := by
  induction count generalizing index save with
  | zero => exact .op (.op .pure)
  | succ count ih =>
    rw [bankChunks, List.flatMap_cons, List.append_assoc, SaveMemoryReader.readBanks]
    refine (runs_readBank32KiB_iff.mpr rfl).bind ?_
    rw [← List.append_nil (_ ++ _)]
    refine Runs.bind (a := none) ?_ .pure
    rw [show index + (count + 1) = index + 1 + count by omega]
    refine ih ?_
    rw [List.length_drop, hlen, Nat.succ_mul, Nat.add_sub_cancel]

theorem legal_lastBankFails {firstBank : UInt16} {count : Nat} {save : Bytes}
    (hlen : save.length = count * bankSize) :
    ∀ e ∈ lastBankFails firstBank count save, Transport.Legal e := by
  intro e he
  obtain he | he := List.mem_append.mp he
  · obtain ⟨bank, hbank, he⟩ := List.mem_flatMap.mp he
    obtain he | he := List.mem_append.mp he
    · obtain rfl | he := List.mem_cons.mp he
      · trivial
      · exact legal_flatMap_exchange _ e he
    · simp only [List.mem_cons, List.not_mem_nil, or_false] at he
      obtain rfl | rfl := he
      · trivial
      · exact length_bankChunks hlen bank hbank
  · simp only [List.mem_cons, List.not_mem_nil, or_false] at he
    obtain rfl | rfl := he
    · trivial
    · trivial

/-- An overlong request gets as far as selecting a bank that is not proven. -/
theorem overlong_run {arguments : List Bytes} {c : ReadOnlyCartridge}
    (hparse : parseSaveReaderOptions arguments = .run options) (h : Overlong files options) :
    ∃ trace, LegalRun (run ⟨files, some (ascii "y"), true⟩ arguments) c trace (.ok 2) c ∧
      ∃ e ∈ trace, ¬ Selects ProvenBank e.1 := by
  obtain ⟨path, save, bank, hpath, hfile, hsize, hbank, hrom, hcount, hlast⟩ := h
  have haccepted := accepted_options hparse fun n hn => by cases hn
  have herase : options.erase = false := by
    cases hset : options.erase with
    | false => rfl
    | true =>
      rw [haccepted.erases hset] at hpath
      cases hpath
  have hversion : arguments ≠ [ascii "--version"] := by
    rintro rfl
    cases hparse
  have hload := loadInput_complete hpath hfile hsize hcount
  have hyes : confirmed ⟨files, some (ascii "y"), true⟩ options = true := by
    have hanswer : confirmsDestructiveOperation (ascii "y") = true := by decide
    simp [confirmed, hanswer]
  obtain ⟨n, hn, hfour⟩ : ∃ n, save.length / bankSize = n + 1 ∧ n + 1 ≤ 4 := by
    obtain ⟨hpos, hfour, hmod⟩ := hsize
    rw [bankSize] at hfour hmod ⊢
    exact ⟨save.length / 0x8000 - 1, by omega, by omega⟩
  have hdirect : run ⟨files, some (ascii "y"), true⟩ arguments =
      (directWorkflow options bank (some save)).run := by
    rw [run, if_neg hversion, hparse]
    dsimp only
    rw [hload]
    dsimp only
    rw [hyes, access, herase, hbank, hrom]
    rfl
  have hbanks : directBankCount options (some save) = n + 1 := by
    unfold directBankCount
    rw [hcount]
    exact hn
  let zeros : Bytes := List.replicate (n * bankSize) 0x00
  have hlen : zeros.length = n * bankSize := List.length_replicate
  have hread : Runs (SaveMemoryReader.read (rangeSize (n + 1)) bank.value)
      (lastBankFails bank.value n zeros) (.ok none) := by
    rw [SaveMemoryReader.read, if_neg (not_not_intro (complete_range (by omega) hfour)),
      rangeSize_div hfour, ← List.append_nil (lastBankFails bank.value n zeros)]
    refine Runs.bind (a := none) ?_ .pure
    have hfails := @runs_readBanks_fails bank.value n 0 zeros hlen
    rwa [Nat.zero_add] at hfails
  refine ⟨(lastBankFails bank.value n zeros).map event ++ [], ?_, ?_⟩
  · rw [hdirect, DirectSaveBankWorkflow.run]
    show LegalRun (usb (SaveMemoryReader.read (rangeSize (directBankCount options (some save)))
      bank.value) >>= _) _ _ _ _
    rw [hbanks]
    exact (legalRun_usb hread (legal_lastBankFails hlen)).bind legalRun_pure
  · refine ⟨event ⟨.selectBank (bankSelector bank.value n), ()⟩, ?_, ?_⟩
    · simp [lastBankFails]
    · show ¬ ProvenBank (bankSelector bank.value n)
      rw [provenBank_bankSelector_iff (by omega)]
      rw [hn, Nat.add_sub_cancel] at hlast
      omega

/-- Whatever the files, the card and the transport do, the runs of accepted arguments select proven
banks only, and none for a direct request beyond them, except when the request is overlong. -/
theorem selects_proven_iff {arguments : List Bytes}
    (hparse : parseSaveReaderOptions arguments = .run options) :
    SelectsProven files arguments ↔ ¬ Overlong files options := by
  constructor
  · intro hproven hover
    obtain ⟨trace, run, e, he, hselect⟩ := overlong_run (c := {}) hparse hover
    exact hselect ((hproven run).1 e he)
  · intro hshort answer deviceOpens c c' trace out run
    refine ⟨((selects_run hparse hshort).run run.run).1, fun options' hparse' hbeyond => ?_⟩
    rw [hparse] at hparse'
    cases hparse'
    have haccepted := accepted_options hparse fun n hn => by cases hn
    exact absurd hbeyond (not_beyondLast haccepted hshort)

/-- `--save-bank 0x0900` alone. -/
theorem selects_proven_iff_first :
    SelectsProven (fun _ => none) [ascii "--save-bank", ascii "0x0900"] ↔
      ¬ Overlong (fun _ => none)
        { saveBank := some ⟨0x0900, by decide⟩, inspectionOnly := false } :=
  selects_proven_iff (by decide)

/-- A 64-KiB save written to bank `0x0930`, with a backup. -/
def overlongArguments : List Bytes :=
  [ascii "--write", ascii "s.sav", ascii "--backup", ascii "b.sav", ascii "--yes-really-write",
    ascii "--save-bank", ascii "0x0930"]

theorem overlong_not_proven :
    ¬ SelectsProven (fun _ => some (List.replicate 0x10000 0x00)) overlongArguments := by
  intro hproven
  have hparse : parseSaveReaderOptions overlongArguments =
      .run { saveBank := some ⟨0x0930, by decide⟩, writePath := some (ascii "s.sav"),
             backupPath := some (ascii "b.sav"), authorizeWrite := true,
             inspectionOnly := false } := by decide
  obtain ⟨trace, run, e, he, hselect⟩ := @overlong_run
    (fun _ => some (List.replicate 0x10000 0x00)) _ overlongArguments {} hparse
    ⟨ascii "s.sav", List.replicate 0x10000 0x00, ⟨0x0930, by decide⟩, rfl, rfl,
      by rw [List.length_replicate]; decide, rfl, rfl, rfl,
      by rw [List.length_replicate]; decide⟩
  exact hselect ((hproven run).1 e he)

end SaveReader

end Ezfadvance
