import Ezfadvance.CardReaderOptions
import Ezfadvance.MultiromWriter
import Ezfadvance.UsbDevice
import Ezfadvance.WipeCard

/-!
# Programs

The four programs, from their command lines down to libusb.

* `Prepared`: what a program has decided by the time it opens the device; `main` is the rest of it on
  libusb, and `tool` what the transport sees of that.
* `Utility.prepare`: the four programs; `tool_saveReader`, `tool_multiromWriter`, `tool_wipeCard`: over
  the transport they are the applications of the other modules.
* `disciplined`: how every program uses libusb.
* `refines`: every program on libusb is that program on a transport with legal answers.
-/

namespace Ezfadvance

open Interact Interact.Program CartridgeFormat Tool

/-- What the programs meet outside libusb: the greatest `unsigned long`, the files that can be opened,
and the lines of the standard input. -/
structure Outside where
  unsignedLongMax : Nat
  files : Bytes → Option Bytes
  answers : List Bytes

inductive Prepared where
  | exits (status : Int)
  | session (body : Tool Int)

namespace Prepared

/-- The program on libusb; without a device it ends with 1. -/
def main (linux : Bool) : Prepared → Process StdException Int
  | .exits status => .pure status
  | .session body => withDevice linux (fun _ => 1) body

/-- The program on the transport. -/
def tool (deviceOpens : Bool) : Prepared → Tool Int
  | .exits status => .pure status
  | .session body => if !deviceOpens then .pure 1 else body

/-- The calls around the transfers: none of a program that ends before it opens the device, else those
that open and close it. -/
def Around (linux deviceOpens : Bool) (opening closing : List Process.Event) : Prepared → Prop
  | .exits _ => opening = [] ∧ closing = []
  | .session _ => UsbDevice.Scope linux deviceOpens opening closing

end Prepared

/-! ## The four programs -/

/-- `ezfadvanceIII_card_reader.cpp`: a file that is there already is not overwritten. -/
def CardReader.prepare (outside : Outside) (arguments : List Bytes) : Prepared :=
  if arguments = [ascii "--version"] then .exits 0
  else
    match parseCardReaderOptions outside.unsignedLongMax arguments with
    | .help => .exits 0
    | .error _ => .exits 1
    | .run options =>
      if options.extract && (outside.files options.outputPath).isSome then .exits 1
      else .session (CardReader.run options.toCardReaderOptions)

def MultiromWriter.prepare (templates : LoaderTemplates) (outside : Outside) (argv : List Bytes) :
    Prepared :=
  if argv.length = 2 ∧ argv.getD 1 [] = ascii "--version" then .exits 0
  else
    match plan templates ⟨outside.files, outside.answers, true⟩ argv with
    | .error _ => .exits 1
    | .ok plan =>
      if !plan.options.write then .exits 0
      else .session (usb (writeImage plan.image.bytes plan.options.skipVerify))

def SaveReader.prepare (outside : Outside) (arguments : List Bytes) : Prepared :=
  if arguments = [ascii "--version"] then .exits 0
  else
    match parseSaveReaderOptions arguments with
    | .help => .exits 0
    | .error _ => .exits 1
    | .run options =>
      match loadInput outside.files options with
      | none => .exits 1
      | some writeSave =>
        if !confirmed ⟨outside.files, outside.answers.head?, true⟩ options then .exits 1
        else .session (access options writeSave)

def WipeCard.prepare (arguments : List Bytes) : Prepared :=
  if arguments = [ascii "--version"] then .exits 0
  else if arguments ≠ [ascii "--yes-really-wipe"] then .exits 1
  else .session (usb wipe)

inductive Utility where
  | cardReader
  | multiromWriter (templates : LoaderTemplates)
  | saveReader
  | wipeCard

/-- What each program decides; `argv` starts with the name of the program. -/
def Utility.prepare (outside : Outside) (argv : List Bytes) : Utility → Prepared
  | .cardReader => CardReader.prepare outside argv.tail
  | .multiromWriter templates => MultiromWriter.prepare templates outside argv
  | .saveReader => SaveReader.prepare outside argv.tail
  | .wipeCard => WipeCard.prepare argv.tail

section Utility

variable {outside : Outside} {argv arguments : List Bytes} {deviceOpens linux : Bool}

theorem tool_saveReader : (SaveReader.prepare outside arguments).tool deviceOpens =
    SaveReader.run ⟨outside.files, outside.answers.head?, deviceOpens⟩ arguments := by
  rw [SaveReader.prepare, SaveReader.run]
  split
  · rfl
  · cases parseSaveReaderOptions arguments with
    | help => rfl
    | error diagnostic => rfl
    | run options =>
      dsimp only
      cases SaveReader.loadInput outside.files options with
      | none => rfl
      | some writeSave =>
        dsimp only
        have hconfirmed :
            SaveReader.confirmed ⟨outside.files, outside.answers.head?, true⟩ options =
              SaveReader.confirmed ⟨outside.files, outside.answers.head?, deviceOpens⟩ options := rfl
        rw [hconfirmed]
        split <;> rfl

theorem tool_multiromWriter {templates : LoaderTemplates} :
    (MultiromWriter.prepare templates outside argv).tool deviceOpens =
      usb (MultiromWriter.run templates ⟨outside.files, outside.answers, deviceOpens⟩ argv) := by
  rw [MultiromWriter.prepare, MultiromWriter.run]
  split
  · rfl
  · have hplan : MultiromWriter.plan templates ⟨outside.files, outside.answers, true⟩ argv =
        MultiromWriter.plan templates ⟨outside.files, outside.answers, deviceOpens⟩ argv := rfl
    rw [hplan]
    cases MultiromWriter.plan templates ⟨outside.files, outside.answers, deviceOpens⟩ argv with
    | error refusal => rfl
    | ok plan =>
      dsimp only
      split
      · rfl
      · cases deviceOpens <;> rfl

theorem tool_wipeCard : (WipeCard.prepare arguments).tool deviceOpens =
    usb (WipeCard.run deviceOpens arguments) := by
  rw [WipeCard.prepare, WipeCard.run]
  split
  · rfl
  · split
    · rfl
    · cases deviceOpens <;> rfl

end Utility

/-! ## On libusb -/

section Main

variable {utility : Utility} {outside : Outside} {argv : List Bytes} {linux : Bool}
  {trace : List Process.Event} {out : Except StdException Int} {c c' : ReadOnlyCartridge}

/-- However the transfers go: every call of libusb is made with what it needs and over nothing that is
held, and a program that ends with a status has given up everything. -/
theorem disciplined (run : Runs ((utility.prepare outside argv).main linux) trace out) :
    (∀ before o r rest, trace = before ++ ⟨o, r⟩ :: rest →
      ∃ held, Path Held.env {} before held ∧ held.Allowed o) ∧
    ∀ status, out = .ok status → Path Held.env {} trace {} := by
  cases hprepared : utility.prepare outside argv with
  | exits status =>
    rw [hprepared] at run
    obtain ⟨rfl, _⟩ := runs_pure_iff.mp run
    exact ⟨fun before o r rest h => by simp at h, fun _ _ => .nil⟩
  | session body =>
    rw [hprepared, Prepared.main] at run
    obtain ⟨hallowed, hend⟩ := withDevice_disciplined run
    exact ⟨hallowed, fun _ _ => hend⟩

/-- Whatever libusb returns, a program is the program on a transport with legal answers: between the
calls that open the device and those that close it its transfers are carried out one after the other,
and the device is open for the program exactly if the claim of the interface returned 0. -/
theorem refines (run : Runs ((utility.prepare outside argv).main linux) trace out)
    (path : Path Process.memory c trace c') :
    ∃ deviceOpens opening session below closing, trace = opening ++ (below ++ closing) ∧
      LegalRun ((utility.prepare outside argv).tool deviceOpens) c session out c' ∧
      Carries (BulkTransport.perform : (o : Tool.Op) → Process StdException (Tool.Reply o))
        session below ∧
      (utility.prepare outside argv).Around linux deviceOpens opening closing ∧
      (∀ e ∈ opening, ¬ Tooling e.1) ∧ ∀ e ∈ closing, ¬ Tooling e.1 := by
  cases hprepared : utility.prepare outside argv with
  | exits status =>
    rw [hprepared] at run
    obtain ⟨rfl, rfl⟩ := runs_pure_iff.mp run
    obtain rfl := path_nil_iff.mp path
    exact ⟨false, [], [], [], [], rfl, legalRun_pure, .nil, ⟨rfl, rfl⟩, by simp, by simp⟩
  | session body =>
    rw [hprepared, Prepared.main] at run
    obtain ⟨_, opening, closing, rfl, rfl, rfl, hscope⟩ |
      ⟨opening, session, below, closing, rfl, hlegal, hcarries, hscope⟩ := withDevice_refines run path
    · exact ⟨false, opening, [], [], closing, rfl, legalRun_pure, .nil, hscope, hscope.not_tooling⟩
    · exact ⟨true, opening, session, below, closing, rfl, hlegal, hcarries, hscope,
        hscope.not_tooling⟩

end Main

/-! ## A device that refuses every packet -/

/-- It opens, and every transfer fails. -/
def refusing (fields : ReadOnlyCartridge) :
    (o : Process.Op) → Process.Reply o × ReadOnlyCartridge
  | .libusb .init => ((0 : Int), fields)
  | .libusb (.openDeviceWithVidPid _ _) => (true, fields)
  | .libusb (.setAutoDetachKernelDriver _) => ((0 : Int), fields)
  | .libusb (.claimInterface _) => ((0 : Int), fields)
  | .libusb (.bulkTransferOut _ _) => (⟨-1, 0⟩, fields)
  | .libusb (.bulkTransferIn _ length) => (⟨-1, 0, .replicate length 0⟩, fields)
  | .libusb (.releaseInterface _) => ((0 : Int), fields)
  | .libusb .close => ((), fields)
  | .libusb .exit => ((), fields)
  | .load => (fields, fields)
  | .store stored => ((), stored)
  | .write _ _ => (false, fields)
  | .writeNew _ _ => (false, fields)

theorem refusing_memory (fields : ReadOnlyCartridge) (o : Process.Op) :
    Process.memory (id fields) o (refusing fields o).1 (id (refusing fields o).2) := by
  cases o with
  | libusb o => cases o <;> rfl
  | load => exact ⟨rfl, rfl⟩
  | _ => rfl

def nothingOutside : Outside := ⟨0, fun _ => none, []⟩

def wipeArguments : List Bytes := [ascii "ezfadvanceIII_wipe_card", ascii "--yes-really-wipe"]

/-- The wipe on such a device. -/
theorem refused_wipe : ∃ trace c',
    Runs ((Utility.wipeCard.prepare nothingOutside wipeArguments).main true) trace (.ok 2) ∧
    Path Process.memory {} trace c' := by
  obtain ⟨trace, run, path⟩ := exec_path refusing_memory
    (p := (Utility.wipeCard.prepare nothingOutside wipeArguments).main true) (s := {})
  exact ⟨trace, _, run, path⟩

theorem disciplined_refused : ∃ trace,
    Runs ((Utility.wipeCard.prepare nothingOutside wipeArguments).main true) trace (.ok 2) ∧
    (∀ before o r rest, trace = before ++ ⟨o, r⟩ :: rest →
      ∃ held, Path Held.env {} before held ∧ held.Allowed o) ∧ Path Held.env {} trace {} := by
  obtain ⟨trace, _, run, _⟩ := refused_wipe
  obtain ⟨hallowed, hend⟩ := disciplined run
  exact ⟨trace, run, hallowed, hend 2 rfl⟩

theorem refines_refused : ∃ trace opening session below closing c',
    Runs ((Utility.wipeCard.prepare nothingOutside wipeArguments).main true) trace (.ok 2) ∧
    trace = opening ++ (below ++ closing) ∧
    LegalRun ((Utility.wipeCard.prepare nothingOutside wipeArguments).tool true) {} session
      (.ok 2) c' ∧
    Carries (BulkTransport.perform : (o : Tool.Op) → Process StdException (Tool.Reply o))
      session below ∧
    UsbDevice.Scope true true opening closing := by
  obtain ⟨trace, c', run, path⟩ := refused_wipe
  obtain ⟨deviceOpens, opening, session, below, closing, htrace, hsession, hcarries, hscope, _⟩ :=
    refines run path
  cases deviceOpens with
  | true => exact ⟨trace, opening, session, below, closing, c', run, htrace, hsession, hcarries, hscope⟩
  | false => cases (runs_pure_iff.mp hsession.run).2

end Ezfadvance
