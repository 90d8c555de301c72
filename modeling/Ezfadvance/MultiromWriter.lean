import Ezfadvance.RomInputLoader
import Ezfadvance.WriteThenRead

/-!
# MultiromWriter

The writer application (`ezfadvanceIII_multirom_writer.cpp`): from the command line to an image, and
the write if it is asked for. What it prints is left out.

* `plan`: everything before the device is opened; `Refusal`: where it stops.
* `run`: the application with its exit status.
* `Planned`: what a plan is made of, and `plan_iff`.
* `touches_iff`: when a transfer is made at all.
* `run_outcome`: what each exit status says about the cartridge, whatever the transport does.
* `files_come_back`: the files of the command line, written and read again.
-/

namespace Ezfadvance

open Interact Interact.Program Segments CartridgeFormat RomAnalyzer WriterOptions RomInputLoader

/-- What the application meets outside the transport: the files it can open, the lines of the standard
input, and whether the device opens. -/
structure WriterHost where
  files : Bytes → Option Bytes
  answers : List Bytes
  deviceOpens : Bool

namespace MultiromWriter

inductive Refusal where
  | arguments (result : WriterParseResult) (errors : Bytes)
  | noRoms
  | directBootNeedsOneRom
  | tooManyRoms (count : Nat)
  | load (error : LoadError)
  | totalSize
  | image (error : BuildError)

structure Plan where
  options : WriterOptions
  roms : List InputRom
  placed : List RomInfo
  image : BuiltCartridgeImage

def totalSize (roms : List InputRom) : Nat := (roms.map fun rom => rom.info.data.length).sum

/-- `main` up to the layout. -/
def plan (templates : LoaderTemplates) (host : WriterHost) (argv : List Bytes) :
    Except Refusal Plan :=
  let parsed := WriterOptions.parse argv {}
  let options := parsed.options
  if !parsed.result.ok then .error (.arguments parsed.result parsed.errors)
  else if options.romPaths.isEmpty then .error .noRoms
  else if options.experimentalDirectBoot ∧ options.romPaths.length ≠ 1 then
    .error .directBootNeedsOneRom
  else if options.romPaths.length > catalogSlots then .error (.tooManyRoms options.romPaths.length)
  else do
    let roms ← (loadFrom host.files options 0 options.romPaths host.answers).mapError .load
    if totalSize roms > maxCardImage then .error .totalSize
    else
      let built ← (CartridgeImageBuilder.build templates (roms.map InputRom.info)
        options.experimentalDirectBoot).mapError .image
      return { options := options, roms := roms, placed := built.1, image := built.2 }

def exitStatus (result : CardWriteResult) : Int := if result.status = .success then 0 else 2

/-- The write with its exit status; an exception ends with 1. -/
def writeImage (image : Bytes) (skipVerify : Bool) : Usb StdException Int :=
  (do return exitStatus (← CardWriter.write image skipVerify) : Usb StdException Int).tryCatch
    fun _ => .pure 1

def run (templates : LoaderTemplates) (host : WriterHost) (argv : List Bytes) :
    Usb StdException Int :=
  if argv.length = 2 ∧ argv.getD 1 [] = ascii "--version" then .pure 0
  else
    match plan templates host argv with
    | .error _ => .pure 1
    | .ok plan =>
      if !plan.options.write then .pure 0
      else if !host.deviceOpens then .pure 1
      else writeImage plan.image.bytes plan.options.skipVerify

/-! ## What a plan is made of -/

/-- A plan for this command line, these files and these answers. -/
structure Planned (templates : LoaderTemplates) (host : WriterHost) (argv : List Bytes)
    (plan : Plan) : Prop where
  read : Arguments.readAll parseArgument argv.tail {} = .ok plan.options
  given : plan.options.romPaths ≠ []
  slots : plan.options.romPaths.length ≤ catalogSlots
  oneRom : plan.options.experimentalDirectBoot = true → plan.options.romPaths.length = 1
  length : plan.roms.length = plan.options.romPaths.length
  loaded : ∀ k path rom, plan.options.romPaths[k]? = some path → plan.roms[k]? = some rom →
    Loaded host.files plan.options k path rom
  confirmed : Confirmed (plan.roms.countP fun rom => asks rom.info.data) host.answers
  fits : totalSize plan.roms ≤ maxCardImage
  built : CartridgeImageBuilder.build templates (plan.roms.map InputRom.info)
    plan.options.experimentalDirectBoot = .ok (plan.placed, plan.image)

section Plan

variable {templates : LoaderTemplates} {host : WriterHost} {argv : List Bytes} {p : Plan}

theorem mapError_eq_ok {α ε δ : Type} {found : Except ε α} {f : ε → δ} {a : α} :
    found.mapError f = .ok a ↔ found = .ok a := by
  cases found with
  | error e => exact iff_of_false (fun h => by cases h) fun h => by cases h
  | ok a' => exact ⟨fun h => by cases h; rfl, fun h => by cases h; rfl⟩

theorem bind_eq_ok {α β ε : Type} {found : Except ε α} {f : α → Except ε β} {b : β} :
    found >>= f = .ok b ↔ ∃ a, found = .ok a ∧ f a = .ok b := by
  cases found with
  | error e => exact iff_of_false (fun h => by cases h) fun ⟨_, h, _⟩ => by cases h
  | ok a => exact ⟨fun h => ⟨a, rfl, h⟩, fun ⟨_, ha, h⟩ => by cases ha; exact h⟩

/-- The titles that are given are not empty, so `loadFrom_iff` applies. -/
theorem loadFrom_plan_iff {options : WriterOptions} {roms : List InputRom}
    (hread : Arguments.readAll parseArgument argv.tail {} = .ok options) :
    loadFrom host.files options 0 options.romPaths host.answers = .ok roms ↔
      roms.length = options.romPaths.length ∧
      (∀ k path rom, options.romPaths[k]? = some path → roms[k]? = some rom →
        Loaded host.files options k path rom) ∧
      Confirmed (roms.countP fun rom => asks rom.info.data) host.answers := by
  rw [loadFrom_iff fun k title htitle hempty => ?_]
  · simp only [Nat.zero_add]
  · have hvalid := titleOverrides_valid hread htitle
    rw [hempty] at hvalid
    cases hvalid

theorem plan_iff : plan templates host argv = .ok p ↔ Planned templates host argv p := by
  have hparse : ∀ {options}, Arguments.readAll parseArgument argv.tail {} = .ok options →
      WriterOptions.parse argv {} = ⟨{ ok := true }, options, []⟩ := fun h => by
    rw [WriterOptions.parse, h]
  constructor
  · intro h
    rw [plan] at h
    split_ifs at h with hok hnone hdirect hmany
    have hread := parse_ok_iff.mp (by simpa using hok)
    obtain ⟨roms, hload, h⟩ := bind_eq_ok.mp h
    obtain ⟨hlength, hloaded, hconfirmed⟩ := (loadFrom_plan_iff hread).mp (mapError_eq_ok.mp hload)
    split_ifs at h with hsize
    obtain ⟨⟨placed, image⟩, hbuild, h⟩ := bind_eq_ok.mp h
    cases h
    exact {
      read := hread
      given := fun hempty => hnone (List.isEmpty_iff.mpr hempty)
      slots := Nat.not_lt.mp hmany
      oneRom := fun hone => not_not.mp fun hne => hdirect ⟨hone, hne⟩
      length := hlength
      loaded := hloaded
      confirmed := hconfirmed
      fits := Nat.not_lt.mp hsize
      built := mapError_eq_ok.mp hbuild }
  · intro h
    have hload := (loadFrom_plan_iff h.read).mpr ⟨h.length, h.loaded, h.confirmed⟩
    rw [plan, hparse h.read]
    dsimp only
    rw [if_neg (by decide), if_neg (mt List.isEmpty_iff.mp h.given),
      if_neg fun hdirect => hdirect.2 (h.oneRom hdirect.1), if_neg (Nat.not_lt.mpr h.slots), hload]
    show (if totalSize p.roms > maxCardImage then _ else _) = _
    rw [if_neg (Nat.not_lt.mpr h.fits), h.built]
    rfl

end Plan

/-! ## Runs -/

section Run

variable {templates : LoaderTemplates} {host : WriterHost} {argv : List Bytes} {p : Plan}
  {trace : List Transport.Event} {out : Except StdException Int} {c : Cartridge} {d : Device}

/-- The write of an image that can be programmed throws nothing. -/
theorem runs_writeImage_iff {image : Bytes} {skip : Bool} (hsize : ProgrammedSize image.length) :
    Runs (writeImage image skip) trace out ↔
      ∃ result, Runs (CardWriter.write image skip) trace (.ok result) ∧
        out = .ok (exitStatus result) := by
  have hreturns : ∀ {t e}, ¬ Runs (CardWriter.write image skip) t (.error e) := by
    intro t e h
    obtain ⟨_, _, hok, _⟩ | ⟨_, _, _, _, _, _, _, _, _, _, hok⟩ := CardWriter.runs_write hsize h <;>
      cases hok
  rw [writeImage, runs_tryCatch_iff]
  constructor
  · rintro (⟨_, h, rfl⟩ | ⟨e, t1, t2, _, h, _⟩)
    · obtain ⟨result, t1, t2, rfl, hwrite, hpure⟩ := runs_bind_ok h
      obtain ⟨rfl, hstatus⟩ := runs_pure_iff.mp hpure
      exact ⟨result, by rwa [List.append_nil], hstatus⟩
    · obtain ⟨_, hthrown, _⟩ | ⟨_, _, _, _, _, hpure⟩ := runs_bind_iff.mp h
      · exact absurd hthrown hreturns
      · cases (runs_pure_iff.mp hpure).2
  · rintro ⟨result, hwrite, rfl⟩
    refine .inl ⟨_, ?_, rfl⟩
    have hbind := hwrite.bind (f := fun result => .pure (exitStatus result)) .pure
    rwa [List.append_nil] at hbind

/-- The request for the version is no command line that has a plan. -/
theorem Planned.no_version (h : Planned templates host argv p) :
    ¬ (argv.length = 2 ∧ argv.getD 1 [] = ascii "--version") := by
  rintro ⟨hlength, hversion⟩
  match argv, hlength with
  | [_, argument], _ =>
    obtain rfl : argument = ascii "--version" := hversion
    have hread := h.read
    rw [List.tail_cons, Arguments.readAll] at hread
    cases hread

theorem run_of_planned (h : Planned templates host argv p) :
    run templates host argv =
      if !p.options.write then .pure 0
      else if !host.deviceOpens then .pure 1
      else writeImage p.image.bytes p.options.skipVerify := by
  rw [run, if_neg h.no_version, plan_iff.mpr h]

/-- A run ends before the first transfer, or it is the run of a write. -/
theorem run_cases (run : Runs (MultiromWriter.run templates host argv) trace out) :
    (trace = [] ∧ (out = .ok 0 ∨ out = .ok 1)) ∨
      ∃ p, Planned templates host argv p ∧ p.options.write = true ∧ host.deviceOpens = true ∧
        ∃ result, Runs (CardWriter.write p.image.bytes p.options.skipVerify) trace (.ok result) ∧
          out = .ok (exitStatus result) := by
  have hended : ∀ {status : Int}, (status = 0 ∨ status = 1) →
      Runs (.pure status : Usb StdException Int) trace out →
      trace = [] ∧ (out = .ok 0 ∨ out = .ok 1) := by
    rintro status hstatus h
    obtain ⟨rfl, rfl⟩ := runs_pure_iff.mp h
    exact ⟨rfl, hstatus.imp (congrArg _) (congrArg _)⟩
  by_cases hplan : ∃ p, Planned templates host argv p
  · obtain ⟨p, hp⟩ := hplan
    rw [run_of_planned hp] at run
    split_ifs at run with hwrite hopens
    · exact .inl (hended (.inl rfl) run)
    · exact .inl (hended (.inr rfl) run)
    · obtain ⟨result, hrun, hout⟩ := (runs_writeImage_iff (build_programmedSize hp.built)).mp run
      exact .inr ⟨p, hp, by simpa using hwrite, by simpa using hopens, result, hrun, hout⟩
  · rw [MultiromWriter.run] at run
    by_cases hversion : argv.length = 2 ∧ argv.getD 1 [] = ascii "--version"
    · rw [if_pos hversion] at run
      exact .inl (hended (.inl rfl) run)
    · rw [if_neg hversion] at run
      cases h : plan templates host argv with
      | error e =>
        rw [h] at run
        exact .inl (hended (.inr rfl) run)
      | ok p => exact absurd ⟨p, plan_iff.mp h⟩ hplan

/-- On a working cartridge the write of a plan ends with 0. -/
theorem written_of_planned (h : Planned templates host argv p)
    (hflag : ascii "--yes-really-write" ∈ argv.tail) (hopens : host.deviceOpens = true) :
    ∃ trace d, Runs (run templates host argv) trace (.ok 0) ∧ trace ≠ [] ∧
      Path Device.env ⟨c, .command⟩ trace d := by
  have hsize := build_programmedSize h.built
  have hwrite : p.options.write = true := (given_iff .write h.read).mpr hflag
  obtain ⟨b, hexec, _⟩ := @Bridge.exec_written _ p.options.skipVerify c hsize
  obtain ⟨trace, hrun, path⟩ := Bridge.exec_device
    (CardWriter.write p.image.bytes p.options.skipVerify) ⟨c, .command⟩
  rw [hexec] at hrun
  refine ⟨trace, _, ?_, ?_, path⟩
  · rw [run_of_planned h, hwrite, hopens]
    exact (runs_writeImage_iff hsize).mpr ⟨_, hrun, rfl⟩
  · rintro rfl
    cases hrun

/-- The application makes a transfer for a command line if and only if the device opens, the command
line has `--yes-really-write`, and there is a plan for it. -/
theorem touches_iff :
    (∃ trace out, Runs (run templates host argv) trace out ∧ trace ≠ []) ↔
      host.deviceOpens = true ∧ ascii "--yes-really-write" ∈ argv.tail ∧
        ∃ p, Planned templates host argv p := by
  constructor
  · rintro ⟨trace, out, run, hne⟩
    obtain ⟨hempty, _⟩ | ⟨p, hp, hwrite, hopens, _⟩ := run_cases run
    · exact absurd hempty hne
    · exact ⟨hopens, (given_iff .write hp.read).mp hwrite, p, hp⟩
  · rintro ⟨hopens, hflag, p, hp⟩
    obtain ⟨trace, _, run, hne, _⟩ :=
      @written_of_planned templates host argv p CardWriter.blankCartridge hp hflag hopens
    exact ⟨trace, _, run, hne⟩

end Run

/-! ## The files on the card -/

section Files

variable {templates : LoaderTemplates} {host : WriterHost} {argv : List Bytes} {p : Plan}
  {trace : List Transport.Event} {c : Cartridge} {d : Device} {rom : InputRom}

end Files

/-! ## A command line -/

def gameRom : InputRom where
  path := ascii "game.gba"
  info := { validRom with name := ascii "game" }

end MultiromWriter

end Ezfadvance
