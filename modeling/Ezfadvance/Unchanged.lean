import Ezfadvance.SaveReader

/-!
# Unchanged

Reading leaves the cartridge as it is: its operations in any order and number, the card inspector
and the save application without `--write` and `--erase`.

* `Call`, `session`: the public operations of the read session one after the other; the caller
  catches what they throw and goes on.
* `changesOnly`: a cartridge whose contents only erase, ROM-program and save-write commands change,
  and these in any way.
* `reading_changes_nothing`: no such command is sent, and the contents stay as they are.
-/

namespace Ezfadvance

open Interact Interact.Program CartridgeFormat ReadOnlyCartridge Tool

/-! ## Calls in any order -/

/-- A public operation of `ReadOnlyCartridge`, or `SaveMemoryReader::read`. -/
inductive Call where
  | initializeCartridge
  | read (byteAddress : UInt32) (length : Nat)
  | readArmBranch (byteAddress : UInt32)
  | readGbaHeader (byteAddress : UInt32)
  | prepareLinear16MiB
  | prepareLinear24MiB
  | prepareLinear32MiB
  | prepareLinearForAddress (address : UInt32)
  | finishSession
  | readSave (saveSize : Nat) (firstBank : UInt16)

def Call.run : Call → Tool Unit
  | .initializeCartridge => do let _ ← ReadOnlyCartridge.initializeCartridge
  | .read byteAddress length => do let _ ← usb (ReadOnlyCartridge.read byteAddress length)
  | .readArmBranch byteAddress => do let _ ← usb (ReadOnlyCartridge.readArmBranch byteAddress)
  | .readGbaHeader byteAddress => do let _ ← usb (ReadOnlyCartridge.readGbaHeader byteAddress)
  | .prepareLinear16MiB => do let _ ← ReadOnlyCartridge.prepareLinear16MiB
  | .prepareLinear24MiB => do let _ ← ReadOnlyCartridge.prepareLinear24MiB
  | .prepareLinear32MiB => do let _ ← ReadOnlyCartridge.prepareLinear32MiB
  | .prepareLinearForAddress address => do
    let _ ← ReadOnlyCartridge.prepareLinearForAddress address
  | .finishSession => do let _ ← usb ReadOnlyCartridge.finishSession
  | .readSave saveSize firstBank => do let _ ← usb (SaveMemoryReader.read saveSize firstBank)

def session : List Call → Tool Unit
  | [] => .pure ()
  | call :: calls => do
    call.run.tryCatch fun _ => .pure ()
    session calls

theorem readOnly_call (call : Call) : Always (ReadOnly AnyBank) Anyhow call.run := by
  cases call with
  | initializeCartridge => exact readOnly_initializeCartridge.andThen fun _ => trivial
  | read byteAddress length => exact readOnly_read.andThen fun _ => trivial
  | readArmBranch byteAddress => exact readOnly_readArmBranch.andThen fun _ => trivial
  | readGbaHeader byteAddress => exact readOnly_readGbaHeader.andThen fun _ => trivial
  | prepareLinear16MiB =>
    exact (readOnly_prepareLinear (by simp [mappings])).andThen fun _ => trivial
  | prepareLinear24MiB =>
    exact (readOnly_prepareLinear (by simp [mappings])).andThen fun _ => trivial
  | prepareLinear32MiB =>
    exact (readOnly_prepareLinear (by simp [mappings])).andThen fun _ => trivial
  | prepareLinearForAddress address =>
    exact readOnly_prepareLinearForAddress.andThen fun _ => trivial
  | finishSession => exact readOnly_finishSession.andThen fun _ => trivial
  | readSave saveSize firstBank => exact readOnly_readAnySave.andThen fun _ => trivial

theorem readOnly_session (calls : List Call) :
    Always (ReadOnly AnyBank) Anyhow (session calls) := by
  induction calls with
  | nil => trivial
  | cons call calls ih =>
    have hcaught : Always (ReadOnly AnyBank) Anyhow
        (call.run.tryCatch fun _ => (.pure () : Tool Unit)) :=
      (readOnly_call call).caught fun _ => trivial
    exact hcaught.andThen fun _ => ih

/-! ## The save application without `--write` and `--erase` -/

theorem readOnly_directDump {w : DirectSaveBankWorkflow} :
    Always (ReadOnly AnyBank) Anyhow (DirectSaveBankWorkflow.run { w with input := none }) := by
  refine readOnly_readAnySave.andThen fun current => ?_
  cases current with
  | none => trivial
  | some current =>
    refine And.intro trivial fun written => ?_
    cases written with
    | false => trivial
    | true => trivial

theorem readOnly_catalogDump {request : CatalogSaveRequest} :
    Always (ReadOnly AnyBank) Anyhow (CatalogSaveWorkflow.run { request with input := none }) := by
  refine readOnly_readCatalog.andThen fun discovery => ?_
  split
  · trivial
  · split
    · trivial
    · refine SaveCatalogAnalyzer.readOnly_analyze.andThen fun analysis => ?_
      cases analysis.mappingPrepared with
      | false => trivial
      | true =>
        show Always _ _ (if (CatalogSaveWorkflow.planFor { request with input := none }
          analysis.roms).status ≠ .selected then _ else _)
        split
        · trivial
        · refine readOnly_readAnySave.andThen fun save => ?_
          cases save with
          | none => trivial
          | some save => exact CatalogSaveWorkflow.readOnly_dump
  · trivial

theorem readOnly_saveAccess {options : SaveReaderOptions} :
    Always (ReadOnly AnyBank) Anyhow (SaveReader.access { options with erase := false } none) := by
  rw [SaveReader.access, if_neg (by simp)]
  split
  case h_1 bank _ _ =>
    exact readOnly_directDump (w := SaveReader.directWorkflow { options with erase := false } bank
      none)
  · refine readOnly_initializeCartridge.andThen fun initialized =>
      (always_load trivial).andThen fun cartridge => ?_
    show Always _ _ (if initialized ∧ cartridge.kind = .ez3Flash then _ else _)
    split
    · exact (@readOnly_catalogDump (SaveReader.catalogRequest
        { options with erase := false } none)).andThen fun _ =>
          readOnly_finishSession.andThen fun _ => trivial
    · split
      · exact readOnly_finishSession.andThen fun _ => trivial
      · trivial

/-! ## The contents -/

section Contents

variable {C : Type}

/-- A packet that reaches a cartridge with these contents, and perhaps a `0x92` command that waits
for its payload. -/
def Receives (s : C × Option Bytes) (data : Bytes) (s' : C × Option Bytes) : Prop :=
  match s.2 with
  | none =>
    (data.take 3 ≠ eraseOpcode → s'.1 = s.1) ∧
      s'.2 = if data.take 3 = [0x5A, 0xA5, 0x92] then some data else none
  | some command =>
    (command.take 4 ≠ romProgramOpcode → command.take 4 ≠ saveWriteOpcode → s'.1 = s.1) ∧
      s'.2 = none

/-- A packet may be lost, and a command that waits may be forgotten. -/
def changesOnly (C : Type) : Env Tool.Op Tool.Reply (C × Option Bytes) := fun s o _ s' =>
  match o with
  | .usb (.out data) => s' = s ∨ Receives s data s'
  | _ => s'.1 = s.1 ∧ (s'.2 = s.2 ∨ s'.2 = none)

/-- These contents, and no command waits that could change them. -/
def Safe (contents : C) (s : C × Option Bytes) : Prop :=
  s.1 = contents ∧ ∀ command, s.2 = some command → ReadOnlyPacket command

theorem safe_step {contents : C} {B : UInt16 → Prop} {s s' : C × Option Bytes} {o : Tool.Op}
    {r : Tool.Reply o} (ho : ReadOnly B o) (step : changesOnly C s o r s')
    (hs : Safe contents s) : Safe contents s' := by
  have hquiet : s'.1 = s.1 ∧ (s'.2 = s.2 ∨ s'.2 = none) → Safe contents s' := by
    rintro ⟨hsame, hpending | hpending⟩
    · exact ⟨hsame.trans hs.1, by rw [hpending]; exact hs.2⟩
    · exact ⟨hsame.trans hs.1, fun command hno => by rw [hpending] at hno; cases hno⟩
  cases o with
  | usb o =>
    cases o with
    | out data =>
      obtain rfl | hreceived := step
      · exact hs
      · obtain ⟨held, pending⟩ := s
        cases pending with
        | none =>
          obtain ⟨hsame, hpending⟩ := hreceived
          refine ⟨(hsame ho.2.1).trans hs.1, fun command hcommand => ?_⟩
          rw [hpending] at hcommand
          split at hcommand
          · cases hcommand
            exact ho
          · cases hcommand
        | some command =>
          obtain ⟨_, _, hprogram, hwrite⟩ := hs.2 command rfl
          exact hquiet ⟨hreceived.1 hprogram hwrite, .inr hreceived.2⟩
    | _ => exact hquiet step
  | _ => exact hquiet step

end Contents

/-- No run sends a command that changes the cartridge. -/
def SendsNoChange {α : Type} (p : Tool α) : Prop :=
  ∀ {trace : List Tool.Event} {out : Except StdException α}, Runs p trace out →
    ∀ e ∈ trace, ∀ data, e.1 = .usb (.out data) →
      data.take 3 ≠ eraseOpcode ∧ data.take 4 ≠ romProgramOpcode ∧ data.take 4 ≠ saveWriteOpcode

/-- Whatever the cartridge held, it holds it after every run. -/
def LeavesContents {α : Type} (p : Tool α) : Prop :=
  ∀ {C : Type} {contents : C} {s : C × Option Bytes} {trace : List Tool.Event}
    {out : Except StdException α}, Runs p trace out →
      Path (changesOnly C) (contents, none) trace s → s.1 = contents

theorem sendsNoChange_of_readOnly {α : Type} {p : Tool α} {B : UInt16 → Prop}
    (h : Always (ReadOnly B) Anyhow p) : SendsNoChange p := by
  intro trace out run e he data hdata
  have hread := (h.run run).1 e he
  rw [hdata] at hread
  exact hread.2

theorem leavesContents_of_readOnly {α : Type} {p : Tool α} {B : UInt16 → Prop}
    (h : Always (ReadOnly B) Anyhow p) : LeavesContents p := by
  intro C contents s trace out run path
  exact (path.invariant (I := Safe contents) safe_step (h.run run).1
    ⟨rfl, fun command hno => by cases hno⟩).1

/-- In any sequence of calls no erase, ROM-program or save-write command is sent, and neither a
session nor a tool that only reads changes the cartridge. -/
theorem reading_changes_nothing :
    (∀ calls, SendsNoChange (session calls)) ∧
    (∀ calls, LeavesContents (session calls)) ∧
    (∀ options, LeavesContents (CardReader.run options)) ∧
    (∀ extraction, LeavesContents (Ez3CardWorkflow.run extraction)) ∧
    (∀ options : SaveReaderOptions,
      LeavesContents (SaveReader.access { options with erase := false } none)) ∧
    (∀ w : DirectSaveBankWorkflow,
      LeavesContents (DirectSaveBankWorkflow.run { w with input := none })) ∧
    ∀ request : CatalogSaveRequest,
      LeavesContents (CatalogSaveWorkflow.run { request with input := none }) :=
  ⟨fun calls => sendsNoChange_of_readOnly (readOnly_session calls),
    fun calls => leavesContents_of_readOnly (readOnly_session calls),
    fun _ => leavesContents_of_readOnly (CardReader.readOnly_runCardReader (B := AnyBank)),
    fun _ => leavesContents_of_readOnly (Ez3CardWorkflow.readOnly_run (B := AnyBank)),
    fun _ => leavesContents_of_readOnly readOnly_saveAccess,
    fun _ => leavesContents_of_readOnly readOnly_directDump,
    fun _ => leavesContents_of_readOnly readOnly_catalogDump⟩

/-! ## A session -/

/-- The packets of a mapping sequence, each of them received. -/
theorem path_mappingExchange {C : Type} {contents : C} {selection : List Tx} :
    Path (changesOnly C) (contents, none) (mappingExchange selection) (contents, none) := by
  rw [mappingExchange]
  induction mappingTransfers selection with
  | nil => exact .nil
  | cons tx transfers ih =>
    rw [List.flatMap_cons, List.map_append]
    refine path_append_iff.mpr ⟨_, ?_, ih⟩
    have hcommand : ∀ command : Bytes, command.take 3 = [0x5A, 0xA5, 0x92] →
        Receives (contents, none) command (contents, some command) :=
      fun _ hhead => ⟨fun _ => rfl, (if_pos hhead).symm⟩
    have hpayload : ∀ command payload : Bytes,
        Receives (contents, some command) payload (contents, none) :=
      fun _ _ => ⟨fun _ _ => rfl, rfl⟩
    cases tx with
    | two first second =>
      exact .cons (.inr (hcommand _ rfl)) (.cons (.inr (hpayload _ _)) (.cons ⟨rfl, .inl rfl⟩ .nil))
    | one selector value =>
      exact .cons (.inr (hcommand _ rfl)) (.cons (.inr (hpayload _ _)) (.cons ⟨rfl, .inl rfl⟩ .nil))

def mappedRead : List Tool.Event :=
  prepareTrace {} 0x01000000 selection16MiB ++
    [⟨.usb (.out (readCommand 0x00800000 4)), true⟩,
      ⟨.usb (.inExact 4), some [0x12, 0x34, 0x56, 0x78]⟩]

/-- A call that ends well, and the calls behind it. -/
theorem runs_session_cons {call : Call} {calls : List Call} {t1 t2 : List Tool.Event}
    (hcall : Runs call.run t1 (.ok ())) (hcalls : Runs (session calls) t2 (.ok ())) :
    Runs (session (call :: calls)) (t1 ++ t2) (.ok ()) := by
  have hcaught : Runs (call.run.tryCatch fun _ => (.pure () : Tool Unit)) t1 (.ok ()) :=
    runs_tryCatch_iff.mpr (.inl ⟨(), hcall, rfl⟩)
  exact hcaught.bind hcalls

theorem runs_mappedRead :
    Runs (session [.prepareLinear16MiB, .read 0x00800000 4]) mappedRead (.ok ()) := by
  have hprepare := (@legalRun_prepareLinear {} 0x01000000 selection16MiB (by decide)).run
  have hread : Runs (usb (ReadOnlyCartridge.read 0x00800000 4)) _
      (.ok (some [0x12, 0x34, 0x56, 0x78])) :=
    runs_usb_iff.mpr ⟨_, rfl, runs_read_piece (by decide) (by decide) (by decide)⟩
  have hfirst : Runs Call.prepareLinear16MiB.run
      (prepareTrace {} 0x01000000 selection16MiB ++ []) (.ok ()) := hprepare.bind .pure
  have hsecond : Runs (Call.read 0x00800000 4).run (_ ++ []) (.ok ()) := hread.bind .pure
  have hrest : Runs (session []) [] (.ok ()) := .pure
  have hrun := runs_session_cons hfirst (runs_session_cons hsecond hrest)
  rwa [List.append_nil, List.append_nil, List.append_nil] at hrun

/-- A cartridge that is mapped and read, and receives every packet. -/
theorem reading_changes_nothing_mapped : ∃ held,
    Runs (session [.prepareLinear16MiB, .read 0x00800000 4]) mappedRead (.ok ()) ∧
    Path (changesOnly (Nat → UInt8)) (fun _ => 0x42, none) mappedRead held ∧
    (∀ e ∈ mappedRead, ∀ data, e.1 = .usb (.out data) →
      data.take 3 ≠ eraseOpcode ∧ data.take 4 ≠ romProgramOpcode ∧
        data.take 4 ≠ saveWriteOpcode) ∧
    held.1 = fun _ => 0x42 := by
  have hpath : Path (changesOnly (Nat → UInt8)) (fun _ => 0x42, none) mappedRead
      (fun _ => 0x42, none) := by
    have hread : Receives ((fun _ => 0x42 : Nat → UInt8), none) (readCommand 0x00800000 4)
        (fun _ => 0x42, none) := ⟨fun _ => rfl, rfl⟩
    rw [mappedRead, prepareTrace]
    simp only [path_append_iff]
    exact ⟨_, ⟨_, .cons ⟨rfl, .inl rfl⟩ .nil, _, path_mappingExchange, _,
      .cons ⟨rfl, .inl rfl⟩ .nil, .nil⟩, .cons (.inr hread) (.cons ⟨rfl, .inl rfl⟩ .nil)⟩
  obtain ⟨hsends, hleaves, _⟩ := reading_changes_nothing
  exact ⟨_, runs_mappedRead, hpath, hsends _ runs_mappedRead, hleaves _ runs_mappedRead hpath⟩

end Ezfadvance
