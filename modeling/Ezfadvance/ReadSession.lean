import Ezfadvance.CardReader
import Ezfadvance.SaveCatalogAnalyzer
import Ezfadvance.SaveMemory

/-!
# ReadSession

What a read session may send, whichever of its operations are called and whatever is answered.

* `ReadOnlyPacket`: no erase, ROM-program or save-write command, and no payload as long as a bank.
* `SessionPacket`: such a packet that is a command, or too short to be taken for one.
* `session_…`, `readOnly_…`: one lemma for each operation that reads, from `ReadOnlyCartridge` up to
  the catalog analysis and the card inspector.
-/

namespace Ezfadvance

open Interact Interact.Program CartridgeFormat ReadOnlyCartridge ReadSessionTransition Tool

/-- A command that changes nothing on the cartridge, or the short payload of one. -/
def ReadOnlyPacket (data : Bytes) : Prop :=
  data.length ≤ 13 ∧ data.take 3 ≠ eraseOpcode ∧ data.take 4 ≠ romProgramOpcode ∧
    data.take 4 ≠ saveWriteOpcode

instance (data : Bytes) : Decidable (ReadOnlyPacket data) :=
  inferInstanceAs (Decidable (_ ∧ _ ∧ _ ∧ _))

/-- Sends read-only packets and selects save banks in `B`; the fields and the files are left
open. -/
def ReadOnly (B : UInt16 → Prop) : Tool.Op → Prop
  | .usb (.out data) => ReadOnlyPacket data
  | .usb (.selectBank bankValue) => B bankValue
  | _ => True

variable {B : UInt16 → Prop}

theorem always_load {A : Tool.Op → Prop} (h : A .load) : Always A Anyhow load :=
  And.intro h fun _ => trivial

theorem always_store {A : Tool.Op → Prop} {c : ReadOnlyCartridge} (h : A (.store c)) :
    Always A Anyhow (store c) :=
  And.intro h fun _ => trivial

/-- A read-only packet that begins as a command does, or is too short to be one. -/
def SessionPacket (data : Bytes) : Prop :=
  ReadOnlyPacket data ∧ (data.length ≤ 2 ∨ data.length = 13 ∧ data.take 2 = [0x5A, 0xA5])

instance (data : Bytes) : Decidable (SessionPacket data) :=
  inferInstanceAs (Decidable (_ ∧ (_ ∨ _ ∧ _)))

/-- Sends such packets and selects save banks in `B`. -/
def InSession (B : UInt16 → Prop) : Tool.Op → Prop
  | .usb o => Transport.Uses SessionPacket B o
  | _ => True

theorem readOnly_of_session : ∀ o, InSession B o → ReadOnly B o
  | .usb (.out _), h => h.1
  | .usb (.inExact _), _ => trivial
  | .usb (.inMax _), _ => trivial
  | .usb (.selectBank _), h => h
  | .load, _ => trivial
  | .store _, _ => trivial
  | .write _ _, _ => trivial
  | .writeNew _ _, _ => trivial

theorem session_usb {α : Type} {Q : Except StdException α → Prop} {p : Usb StdException α}
    (h : Always (Transport.Sends SessionPacket) Q p) : Always (InSession B) Anyhow (usb p) :=
  (always_usb (h.weaken fun _ ho => .of_sends ho)).anyhow

theorem session_tool {α : Type} {Q : Except StdException α → Prop} {p : Tool α}
    (h : Always (Tool.Sends SessionPacket) Q p) : Always (InSession B) Anyhow p := by
  refine Always.anyhow (h.weaken fun o ho => ?_)
  cases o with
  | usb o => exact .of_sends ho
  | _ => trivial

/-! ## read_only_cartridge.cpp -/

theorem session_readPacket (word length : UInt32) :
    SessionPacket (command 0x91 0x00 word length 0x00) :=
  ⟨⟨length_command.le, (by decide : ([0x5A, 0xA5, 0x91] : Bytes) ≠ eraseOpcode),
    (by decide : ([0x5A, 0xA5, 0x91, 0x00] : Bytes) ≠ romProgramOpcode),
    (by decide : ([0x5A, 0xA5, 0x91, 0x00] : Bytes) ≠ saveWriteOpcode)⟩,
    .inr ⟨length_command, rfl⟩⟩

theorem session_mapping : ∀ tx ∈ mappingPackets, ∀ data ∈ tx.packets, SessionPacket data := by
  decide

theorem session_read {address : UInt32} {length : Nat} :
    Always (InSession B) Anyhow (usb (read address length)) := by
  by_cases heven : address &&& 1 = 0
  · exact session_usb (always_read heven fun _ _ => session_readPacket _ _)
  · rw [ReadOnlyCartridge.read, if_pos heven]
    trivial

theorem usb_bind {α β : Type} (p : Usb StdException α) (f : α → Usb StdException β) :
    usb (p >>= f) = usb p >>= fun a => usb (f a) := by
  induction p with
  | pure a => rfl
  | throw e => rfl
  | op o k ih => exact congrArg (Program.op (Op.usb o)) (funext ih)

theorem session_readArmBranch {address : UInt32} :
    Always (InSession B) Anyhow (usb (readArmBranch address)) := by
  rw [readArmBranch, usb_bind]
  refine session_read.andThen fun bytes => ?_
  cases bytes with
  | none => trivial
  | some bytes => trivial

theorem session_readGbaHeader {address : UInt32} :
    Always (InSession B) Anyhow (usb (readGbaHeader address)) := by
  rw [readGbaHeader, usb_bind]
  refine session_read.andThen fun bytes => ?_
  cases bytes with
  | none => trivial
  | some bytes => trivial

theorem session_finishSession : Always (InSession B) Anyhow (usb finishSession) :=
  session_usb (always_finishSession (by decide))

theorem session_prepareLinearForAddress {address : UInt32} :
    Always (InSession B) Anyhow (prepareLinearForAddress address) :=
  session_tool (always_prepareLinearForAddress session_mapping)

theorem session_prepareLinear {limit : UInt32} {selection : List Tx}
    (hmem : (limit, selection) ∈ mappings) :
    Always (InSession B) Anyhow (prepareLinear limit selection) := by
  refine session_tool (always_prepareLinear fun tx htx => session_mapping tx ?_)
  simp only [mappings, List.mem_cons, Prod.mk.injEq, List.not_mem_nil, or_false] at hmem
  simp only [mappingPackets, List.mem_append]
  obtain ⟨_, rfl⟩ | ⟨_, rfl⟩ | ⟨_, rfl⟩ := hmem
  · exact .inl (.inl htx)
  · exact .inl (.inr htx)
  · exact .inr htx

theorem session_readCatalog {imageLimit : UInt32} {entryLimit : Nat} :
    Always (InSession B) Anyhow (Ez3CatalogReader.read reads imageLimit entryLimit) :=
  session_tool (always_readCatalog session_mapping session_readPacket)

theorem session_classifyCartridgeContent : Always (InSession B) Anyhow classifyCartridgeContent := by
  refine session_readCatalog.andThen fun discovery => ?_
  show Always _ _ (if discovery.status = .loaded then _ else _)
  split
  · trivial
  · refine session_read.andThen fun header => ?_
    cases header with
    | none => trivial
    | some header => trivial

theorem session_initializeCartridge : Always (InSession B) Anyhow initializeCartridge := by
  refine (always_store (A := InSession B) trivial).andThen fun _ => ?_
  refine (session_usb (always_probe (by decide) (by decide))).andThen fun ids => ?_
  cases ids with
  | none => trivial
  | some ids =>
    have hclassify : Always (InSession B) Anyhow (classify ids.1 ids.2) := by
      refine (always_load trivial).andThen fun _ => (always_store trivial).andThen fun _ =>
        (always_load trivial).andThen fun cartridge => ?_
      show Always _ _ (if cartridge.kind = .unknown then _ else _)
      split
      · exact session_classifyCartridgeContent.andThen fun _ =>
          (always_load trivial).andThen fun _ => always_store trivial
      · trivial
    refine hclassify.andThen fun _ => (always_load trivial).andThen fun cartridge => ?_
    show Always _ _ (if cartridge.kind = .officialGbaRom then _ else _)
    split
    · trivial
    · split
      · trivial
      · exact session_usb (always_readPrime (by decide) fun _ _ => session_readPacket _ _)

/-! ## Save memory -/

theorem session_selects : SelectsWith SessionPacket := by
  refine ⟨by decide, fun first second => ⟨⟨?_, ?_, ?_, ?_⟩, .inl (by simp)⟩⟩
  · simp
  · simp [eraseOpcode]
  · simp [romProgramOpcode]
  · simp [saveWriteOpcode]

theorem session_readSave {saveSize : Nat} {firstBank : UInt16}
    (hB : SaveMemoryReader.Complete saveSize →
      ∀ k < saveSize / bankSize, B (bankSelector firstBank k)) :
    Always (InSession B) Anyhow (usb (SaveMemoryReader.read saveSize firstBank)) := by
  by_cases hsize : SaveMemoryReader.Complete saveSize
  · exact (always_usb (always_readSave session_selects (by decide) hsize (hB hsize))).anyhow
  · rw [SaveMemoryReader.read, if_pos hsize]
    trivial

/-! ## save_catalog_analyzer.cpp -/

namespace SaveCatalogAnalyzer

theorem session_detectFrom {start : UInt32} {span : Nat} (position : Nat) (carry : Bytes) :
    Always (InSession B) Anyhow (usb (detectFrom start span position carry)) := by
  induction position, carry using detectFrom.induct span with
  | case1 position carry hlt length ih =>
    rw [detectFrom, if_pos hlt, usb_bind]
    refine session_read.andThen fun chunk => ?_
    cases chunk with
    | none => trivial
    | some chunk =>
      dsimp only
      cases patterns.find? (containsPattern (carry ++ chunk)) with
      | some pattern => trivial
      | none => exact ih _
  | case2 position carry hge =>
    rw [detectFrom, if_neg hge]
    trivial

variable {catalog : Ez3CatalogLayout} {loaderStart loaderEnd imageLimit : UInt32}

theorem session_analyzeRom {index : Nat} {entry : CatalogEntry} :
    Always (InSession B) Anyhow (analyzeRom catalog loaderStart imageLimit index entry) := by
  refine session_readGbaHeader.andThen fun header => ?_
  dsimp only
  split
  · exact (session_detectFrom 0 []).andThen fun _ => trivial
  · trivial

theorem session_analyzeFrom {index : Nat} {entries : List CatalogEntry} :
    Always (InSession B) Anyhow (analyzeFrom catalog loaderStart imageLimit index entries) := by
  induction entries generalizing index with
  | nil => trivial
  | cons entry entries ih =>
    exact session_analyzeRom.andThen fun _ => ih.andThen fun _ => trivial

theorem session_analyze {entryCount : Nat} :
    Always (InSession B) Anyhow (analyze catalog loaderStart loaderEnd imageLimit entryCount) := by
  refine session_prepareLinearForAddress.andThen fun prepared => ?_
  cases prepared with
  | false => trivial
  | true => exact session_analyzeFrom.andThen fun _ => trivial

end SaveCatalogAnalyzer


/-! ## Read-only -/

theorem readOnly_of_inSession {α : Type} {Q : Except StdException α → Prop} {p : Tool α}
    (h : Always (InSession B) Q p) : Always (ReadOnly B) Anyhow p :=
  (h.weaken readOnly_of_session).anyhow

theorem readOnly_read {address : UInt32} {length : Nat} :
    Always (ReadOnly B) Anyhow (usb (read address length)) := readOnly_of_inSession session_read

theorem readOnly_readArmBranch {address : UInt32} :
    Always (ReadOnly B) Anyhow (usb (readArmBranch address)) :=
  readOnly_of_inSession session_readArmBranch

theorem readOnly_readGbaHeader {address : UInt32} :
    Always (ReadOnly B) Anyhow (usb (readGbaHeader address)) :=
  readOnly_of_inSession session_readGbaHeader

theorem readOnly_finishSession : Always (ReadOnly B) Anyhow (usb finishSession) :=
  readOnly_of_inSession session_finishSession

theorem readOnly_prepareLinearForAddress {address : UInt32} :
    Always (ReadOnly B) Anyhow (prepareLinearForAddress address) :=
  readOnly_of_inSession session_prepareLinearForAddress

theorem readOnly_prepareLinear {limit : UInt32} {selection : List Tx}
    (hmem : (limit, selection) ∈ mappings) :
    Always (ReadOnly B) Anyhow (prepareLinear limit selection) :=
  readOnly_of_inSession (session_prepareLinear hmem)

theorem readOnly_readCatalog {imageLimit : UInt32} {entryLimit : Nat} :
    Always (ReadOnly B) Anyhow (Ez3CatalogReader.read reads imageLimit entryLimit) :=
  readOnly_of_inSession session_readCatalog

theorem readOnly_initializeCartridge : Always (ReadOnly B) Anyhow initializeCartridge :=
  readOnly_of_inSession session_initializeCartridge

theorem readOnly_readSave {saveSize : Nat} {firstBank : UInt16}
    (hB : SaveMemoryReader.Complete saveSize →
      ∀ k < saveSize / bankSize, B (bankSelector firstBank k)) :
    Always (ReadOnly B) Anyhow (usb (SaveMemoryReader.read saveSize firstBank)) :=
  readOnly_of_inSession (session_readSave hB)

theorem SaveCatalogAnalyzer.readOnly_analyze {catalog : Ez3CatalogLayout}
    {loaderStart loaderEnd imageLimit : UInt32} {entryCount : Nat} :
    Always (ReadOnly B) Anyhow (analyze catalog loaderStart loaderEnd imageLimit entryCount) :=
  readOnly_of_inSession session_analyze

/-! ## The card inspector -/

namespace Ez3CardWorkflow

theorem readOnly_failAfterCleanup {status : Int} :
    Always (ReadOnly B) Anyhow (failAfterCleanup status) := by
  refine readOnly_finishSession.andThen fun ok => ?_
  cases ok with
  | false => trivial
  | true => trivial

theorem readOnly_readBlocks {start : UInt32} {size : Nat} (offset : Nat) :
    Always (ReadOnly B) Anyhow (usb (readBlocks start size offset)) := by
  induction offset using readBlocks.induct size with
  | case1 offset hlt ih =>
    rw [readBlocks, if_pos hlt, usb_bind]
    refine readOnly_read.andThen fun block => ?_
    cases block with
    | none => trivial
    | some block =>
      dsimp only
      rw [usb_bind]
      refine ih.andThen fun rest => ?_
      cases rest with
      | none => trivial
      | some rest => trivial
  | case2 offset hge =>
    rw [readBlocks, if_neg hge]
    trivial

theorem readOnly_writeRom {outputPath rom : Bytes} :
    Always (ReadOnly B) Anyhow (writeRom outputPath rom) := by
  refine readOnly_finishSession.andThen fun ok => ?_
  cases ok with
  | false => trivial
  | true =>
    refine And.intro trivial fun written => ?_
    cases written with
    | false => trivial
    | true => trivial

theorem readOnly_extractExtent {entry : CatalogEntry} {index : Nat}
    {inclusiveEnd loaderStart : UInt32} {isSingle : Bool} {outputPath : Bytes} :
    Always (ReadOnly B) Anyhow
      (extractExtent entry index inclusiveEnd loaderStart isSingle outputPath) := by
  refine readOnly_prepareLinearForAddress.andThen fun ready => ?_
  cases ready with
  | false => exact readOnly_failAfterCleanup
  | true =>
    refine (readOnly_readBlocks 0).andThen fun image => ?_
    cases image with
    | none => exact readOnly_failAfterCleanup
    | some image =>
      dsimp only
      cases reconstructed image entry index loaderStart isSingle with
      | none => exact readOnly_failAfterCleanup
      | some rom => exact readOnly_writeRom

theorem readOnly_extractEz3Rom {entries : List CatalogEntry} {loaderStart : UInt32}
    {isSingle : Bool} {request : Ez3ExtractionRequest} :
    Always (ReadOnly B) Anyhow (extractEz3Rom entries loaderStart isSingle request) := by
  rw [extractEz3Rom]
  split
  · exact readOnly_failAfterCleanup
  · dsimp only
    split
    · exact readOnly_failAfterCleanup
    · split
      · exact readOnly_failAfterCleanup
      · split
        · exact readOnly_failAfterCleanup
        · exact readOnly_extractExtent

theorem readOnly_readHeaders {entries : List CatalogEntry} :
    Always (ReadOnly B) Anyhow (readHeaders entries) := by
  induction entries with
  | nil => trivial
  | cons entry entries ih => exact readOnly_readGbaHeader.andThen fun _ => ih

theorem readOnly_prepareHeaders {highest : UInt32} {mode : ReadMappingMode} :
    Always (ReadOnly B) Anyhow (prepareHeaders highest mode) := by
  rw [prepareHeaders]
  split
  · exact readOnly_prepareLinearForAddress
  · split
    · exact readOnly_prepareLinearForAddress
    · split
      · exact readOnly_prepareLinearForAddress
      · trivial

theorem readOnly_run {extraction : Option Ez3ExtractionRequest} :
    Always (ReadOnly B) Anyhow (run extraction) := by
  refine readOnly_readCatalog.andThen fun discovery => ?_
  split
  · trivial
  · refine readOnly_prepareHeaders.andThen fun ready => ?_
    cases ready with
    | false => trivial
    | true =>
      refine readOnly_readHeaders.andThen fun _ => ?_
      cases extraction with
      | some request => exact readOnly_extractEz3Rom
      | none =>
        refine readOnly_finishSession.andThen fun ok => ?_
        cases ok with
        | false => trivial
        | true => trivial
  · trivial

end Ez3CardWorkflow

namespace CardReader

theorem readOnly_inspectOfficialCartridge : Always (ReadOnly B) Anyhow inspectOfficialCartridge := by
  have hfinish : ∀ status : Int, Always (ReadOnly B) Anyhow (usb finishSession >>= fun ok =>
      if (!ok) = true then (.pure 2 : Tool Int) else .pure status) := by
    refine fun status => readOnly_finishSession.andThen fun ok => ?_
    cases ok with
    | false => trivial
    | true => trivial
  refine readOnly_read.andThen fun header => ?_
  cases header with
  | none => exact hfinish 3
  | some bytes =>
    show Always _ _ (if (!validGbaRomHeader bytes) = true then _ else _)
    split
    · exact hfinish 3
    · exact hfinish 0

theorem readOnly_extractOfficialCartridge {outputPath : Bytes} :
    Always (ReadOnly B) Anyhow (extractOfficialCartridge outputPath) := by
  refine (readOnly_of_inSession
    (session_usb (always_scanFrom session_readPacket 0 {} (Nat.dvd_zero _)))).andThen
    fun scan => readOnly_finishSession.andThen fun finishOk => ?_
  rw [finishExtraction]
  split
  · trivial
  · split
    · trivial
    · split
      · trivial
      · split
        · trivial
        · refine And.intro trivial fun written => ?_
          cases written with
          | false => trivial
          | true => trivial

theorem readOnly_runCardReader {options : CardReaderOptions} :
    Always (ReadOnly B) Anyhow (CardReader.run options) := by
  refine readOnly_initializeCartridge.andThen fun ok => ?_
  cases ok with
  | false => trivial
  | true =>
    refine (always_load trivial).andThen fun cartridge => ?_
    split
    · exact readOnly_inspectOfficialCartridge
    · exact readOnly_extractOfficialCartridge
    · exact Ez3CardWorkflow.readOnly_run
    · exact Ez3CardWorkflow.readOnly_run
    · refine readOnly_finishSession.andThen fun ok => ?_
      cases ok with
      | false => trivial
      | true => trivial

end CardReader

end Ezfadvance
