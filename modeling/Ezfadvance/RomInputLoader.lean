import Ezfadvance.RomAnalyzer
import Ezfadvance.SaveReader
import Ezfadvance.WriterOptions

/-!
# RomInputLoader

What becomes of a path on the writer's command line (`rom_input_loader.cpp`, and the loop over the
paths in `ezfadvanceIII_multirom_writer.cpp`): the ROM it names, with what the options override and
what the analysis says. What is printed on the way, the question about the save library included, is
left out.

* `load`, `loadFrom`: as in the source. The answers are the lines of the standard input.
* `Loaded`: what a loaded ROM is made of.
* `loadFrom_iff`: which command lines are loaded, and into which ROMs.
-/

namespace Ezfadvance

open CartridgeFormat RomAnalyzer WriterOptions

/-- A ROM of the command line, and what of it was overridden there. -/
structure InputRom where
  path : Bytes
  info : RomInfo
  entryTypeOverridden : Bool := false
  mappingFlagOverridden : Bool := false

inductive LoadError where
  | cannotOpen (path : Bytes)
  | emptyRom (path : Bytes)
  | thrown (error : AnalysisError)
  | noEntryBranch (path : Bytes)
  | cancelled
  | unprovenCapacity (path : Bytes)

def LoadError.message : LoadError → Bytes
  | .cannotOpen path => ascii "Cannot open ROM: " ++ path ++ ascii "\n"
  | .emptyRom path => ascii "ROM is empty: " ++ path ++ ascii "\n"
  | .thrown (.size error) => ascii "Fatal error: " ++ ascii error.message ++ ascii "\n"
  -- no exception of the source, and never met: `analyze_iff`
  | .thrown (.outOfBounds _) => []
  | .noEntryBranch path =>
    ascii "ROM does not begin with the capture-supported EAxxxxxx ARM branch: " ++ path ++ ascii "\n"
  | .cancelled =>
    ascii "ROM processing cancelled before image construction; no USB write was attempted.\n"
  | .unprovenCapacity path =>
    ascii "EEPROM capacity could not be proven from ROM structure: " ++ path ++
      ascii "\nCatalog map 4 requires 4-Kbit/512-byte EEPROM; map 5 requires " ++
      ascii "64-Kbit/8-KiB EEPROM.\n" ++
      ascii "Specify the evidence-appropriate value explicitly with --mapN=4 or --mapN=5 " ++
      ascii "for this ROM slot.\nNo USB write was attempted.\n"

namespace RomInputLoader

/-- The characters that `confirmNonSramSave` trims off. -/
def isBlank (c : UInt8) : Bool := decide (c = 0x20 ∨ c = 0x09 ∨ c = 0x0D ∨ c = 0x0A)

def confirms (answer : Bytes) : Bool :=
  let trimmed := (answer.dropWhile isBlank).rdropWhile isBlank
  if trimmed.isEmpty then false
  else
    let normalized := trimmed.map tolower
    normalized == ascii "y" || normalized == ascii "yes"

/-- The answer to the next question, and the lines that are left. -/
def confirmNonSramSave : List Bytes → Bool × List Bytes
  | [] => (false, [])
  | answer :: answers => (confirms answer, answers)

/-- The question about a save library, where there is one. -/
def askedAbout (analysis : RomAnalysis) (answers : List Bytes) : Except LoadError (List Bytes) :=
  if analysis.nonSramSave.isNone then .ok answers
  else if !(confirmNonSramSave answers).1 then .error .cancelled
  else .ok (confirmNonSramSave answers).2

/-- The fields that `load` sets. -/
def filled (rom : InputRom) (data : Bytes) (target : UInt32) (analysis : RomAnalysis) :
    Except LoadError InputRom :=
  let info : RomInfo :=
    { rom.info with
      data := data
      originalEntryTarget := target
      name := if rom.info.name.isEmpty then deriveCatalogName rom.path else rom.info.name
      entryType := if rom.entryTypeOverridden then rom.info.entryType else analysis.entryType }
  if rom.mappingFlagOverridden then .ok { rom with info := info }
  else if analysis.hasEepromLibrary ∧ analysis.mappingFlag = 0 then
    .error (.unprovenCapacity rom.path)
  else .ok { rom with info := { info with mappingFlag := analysis.mappingFlag } }

def load (files : Bytes → Option Bytes) (rom : InputRom) (answers : List Bytes) :
    Except LoadError (InputRom × List Bytes) :=
  match files rom.path with
  | none => .error (.cannotOpen rom.path)
  | some data =>
    if data.isEmpty then .error (.emptyRom rom.path)
    else do
      let analysis ← (analyze data).mapError .thrown
      match analysis.originalEntryTarget with
      | none => .error (.noEntryBranch rom.path)
      | some target =>
        let answers ← askedAbout analysis answers
        let rom ← filled rom data target analysis
        return (rom, answers)

/-- The `RomInfo` of path `i` before it is loaded. -/
def inputRom (options : WriterOptions) (i : Nat) (path : Bytes) : InputRom where
  path := path
  info :=
    { name := (options.titleOverrides[i]?.join).getD (deriveCatalogName path)
      data := []
      entryType := (options.typeOverrides[i]?.join).getD 9
      mappingFlag := (options.mappingOverrides[i]?.join).getD 3 }
  entryTypeOverridden := (options.typeOverrides[i]?.join).isSome
  mappingFlagOverridden := (options.mappingOverrides[i]?.join).isSome

/-- The loop of `main` over the paths from number `i` on. -/
def loadFrom (files : Bytes → Option Bytes) (options : WriterOptions) :
    Nat → List Bytes → List Bytes → Except LoadError (List InputRom)
  | _, [], _ => .ok []
  | i, path :: paths, answers => do
    let (rom, answers) ← load files (inputRom options i path) answers
    let roms ← loadFrom files options (i + 1) paths answers
    return rom :: roms

/-! ## A loaded ROM -/

/-- A ROM that was loaded as number `i` from this path. -/
structure Loaded (files : Bytes → Option Bytes) (options : WriterOptions) (i : Nat) (path : Bytes)
    (rom : InputRom) : Prop where
  isPath : rom.path = path
  file : files path = some rom.info.data
  nonempty : rom.info.data ≠ []
  fits : rom.info.data.length ≤ maxCardImage
  target : originalEntryTarget rom.info.data = some rom.info.originalEntryTarget
  name : rom.info.name = (options.titleOverrides[i]?.join).getD (deriveCatalogName path)
  typeFlag : rom.entryTypeOverridden = (options.typeOverrides[i]?.join).isSome
  type : (options.typeOverrides[i]?.join).elim
    (entryType rom.info.data.length = .ok rom.info.entryType) (rom.info.entryType = ·)
  mappingFlag : rom.mappingFlagOverridden = (options.mappingOverrides[i]?.join).isSome
  mapping : (options.mappingOverrides[i]?.join).elim
    (MapsTo rom.info.data rom.info.mappingFlag ∧ rom.info.mappingFlag ≠ 0)
    (rom.info.mappingFlag = ·)
  start : rom.info.start = 0

/-- Whether `load` asks about the save library of a ROM. -/
def asks (data : Bytes) : Bool := (nonSramSave data).isSome

/-- It asks about a ROM in which one of the markers occurs. -/
theorem asks_iff {data : Bytes} : asks data = true ↔ ∃ c ∈ candidates, c.1 <:+: data := by
  have hmarkers : ∀ cs : List (Bytes × Bytes), (∀ c ∈ cs, c.1 ≠ []) →
      ((nonSramSaveFrom data cs).isSome = true ↔ ∃ c ∈ cs, c.1 <:+: data) := by
    intro cs hcs
    induction cs with
    | nil => simp [nonSramSaveFrom]
    | cons c rest ih =>
      obtain ⟨marker, family⟩ := c
      obtain ⟨hmarker, hrest⟩ := List.forall_mem_cons.mp hcs
      have hfound := @findFrom_isSome_iff data marker hmarker
      rw [nonSramSaveFrom, asciiSignature, List.exists_mem_cons_iff]
      cases hfind : Occurrence.findFrom marker data 0 with
      | some i =>
        rw [hfind] at hfound
        exact iff_of_true rfl (.inl (hfound.mp rfl))
      | none =>
        rw [hfind] at hfound
        exact (ih hrest).trans (or_iff_right fun h => by cases hfound.mpr h).symm
  exact hmarkers candidates fun c hc => (candidates_printable c hc).1

/-- The next `n` questions are answered with yes. -/
def Confirmed (n : Nat) (answers : List Bytes) : Prop :=
  n ≤ answers.length ∧ ∀ answer ∈ answers.take n, confirms answer = true

theorem confirmed_zero {answers : List Bytes} : Confirmed 0 answers :=
  ⟨Nat.zero_le _, by simp⟩

theorem confirmed_succ_iff {n : Nat} {answers : List Bytes} :
    Confirmed (n + 1) answers ↔
      (confirmNonSramSave answers).1 = true ∧ Confirmed n (confirmNonSramSave answers).2 := by
  cases answers with
  | nil => exact iff_of_false (fun h => by cases h.1) fun h => by cases h.1
  | cons answer answers =>
    rw [Confirmed, List.take_succ_cons, List.forall_mem_cons, List.length_cons,
      Nat.add_le_add_iff_right]
    exact and_left_comm

theorem deriveCatalogName_ne_nil {path : Bytes} : deriveCatalogName path ≠ [] := by
  have hname : ∀ name : Bytes, (if name.isEmpty then ascii "ROM" else name) ≠ [] := by
    intro name
    split
    · decide
    case isFalse hne => exact fun h => hne (List.isEmpty_iff.mpr h)
  exact hname _

section Load

variable {files : Bytes → Option Bytes} {options : WriterOptions} {i : Nat} {path data : Bytes}
  {rom : InputRom} {answers rest : List Bytes} {analysis : RomAnalysis} {target : UInt32}

theorem inputRom_name (htitles : ∀ title, options.titleOverrides[i]?.join = some title → title ≠ []) :
    (inputRom options i path).info.name ≠ [] := by
  show (options.titleOverrides[i]?.join).getD (deriveCatalogName path) ≠ []
  cases htitle : options.titleOverrides[i]?.join with
  | none => exact deriveCatalogName_ne_nil
  | some title => exact htitles title htitle

theorem type_iff {type : UInt8} (hdescribes : analysis.Describes data) :
    (options.typeOverrides[i]?.join).elim (entryType data.length = .ok type) (type = ·) ↔
      (if (inputRom options i path).entryTypeOverridden then (inputRom options i path).info.entryType
        else analysis.entryType) = type := by
  by_cases hoverridden : (inputRom options i path).entryTypeOverridden = true
  · obtain ⟨given, hgiven⟩ := Option.isSome_iff_exists.mp hoverridden
    have hinfo : (inputRom options i path).info.entryType = given :=
      congrArg (Option.getD · 9) hgiven
    rw [if_pos hoverridden, hgiven, hinfo]
    exact eq_comm
  · rw [if_neg hoverridden, Option.not_isSome_iff_eq_none.mp hoverridden]
    exact ⟨fun h => Except.ok.inj (hdescribes.type.symm.trans h), fun h => h ▸ hdescribes.type⟩

/-- Without an override the mapping is that of the analysis, unless an EEPROM capacity is open. -/
theorem mapping_iff {mapping : UInt8} (hdescribes : analysis.Describes data) :
    MapsTo data mapping ∧ mapping ≠ 0 ↔
      ¬ (analysis.hasEepromLibrary = true ∧ analysis.mappingFlag = 0) ∧
        analysis.mappingFlag = mapping := by
  rw [← hdescribes.mapping]
  constructor
  · rintro ⟨rfl, hne⟩
    exact ⟨fun h => hne h.2, rfl⟩
  · rintro ⟨hproven, rfl⟩
    refine ⟨rfl, fun hzero => hproven ⟨hdescribes.eeprom.mpr ?_, hzero⟩⟩
    have hmapsTo := (hdescribes.mapping _).mp hzero
    cases hmapsTo
    assumption

/-- The fields are filled in with what is overridden and with what describes the ROM. -/
theorem filled_iff (hfile : files path = some data) (hne : data ≠ [])
    (hdescribes : analysis.Describes data) (htarget : analysis.originalEntryTarget = some target)
    (htitles : ∀ title, options.titleOverrides[i]?.join = some title → title ≠ []) :
    filled (inputRom options i path) data target analysis = .ok rom ↔
      rom.info.data = data ∧ Loaded files options i path rom := by
  have hname : ¬ (inputRom options i path).info.name.isEmpty = true :=
    fun h => inputRom_name htitles (List.isEmpty_iff.mp h)
  have hsize := (entryType_spec hdescribes.type).1
  have htarget' := hdescribes.target.symm.trans htarget
  have htype := fun type => @type_iff options i path data analysis type hdescribes
  have hmapping := fun mapping => @mapping_iff data analysis mapping hdescribes
  obtain ⟨romPath, ⟨name, romData, start, romTarget, type, mapping⟩, typeFlag, mappingFlag⟩ := rom
  rw [filled, if_neg hname]
  by_cases hoverridden : (inputRom options i path).mappingFlagOverridden = true
  · obtain ⟨given, hgiven⟩ := Option.isSome_iff_exists.mp hoverridden
    have hinfo : (inputRom options i path).info.mappingFlag = given :=
      congrArg (Option.getD · 3) hgiven
    rw [if_pos hoverridden]
    constructor
    · intro h
      simp only [Except.ok.injEq, InputRom.mk.injEq, RomInfo.mk.injEq] at h
      obtain ⟨rfl, ⟨rfl, rfl, rfl, rfl, rfl, rfl⟩, rfl, rfl⟩ := h
      exact ⟨rfl, ⟨rfl, hfile, hne, hsize, htarget', rfl, rfl, (htype _).mpr rfl, rfl,
        by rw [hgiven]; exact hinfo, rfl⟩⟩
    · rintro ⟨rfl, h⟩
      have hfields := h.mapping
      rw [hgiven] at hfields
      have hsame := Option.some.inj (htarget'.symm.trans h.target)
      simp only [Except.ok.injEq, InputRom.mk.injEq, RomInfo.mk.injEq]
      exact ⟨h.isPath.symm, ⟨h.name.symm, trivial, h.start.symm, hsame, (htype _).mp h.type,
        hinfo.trans hfields.symm⟩, h.typeFlag.symm, h.mappingFlag.symm⟩
  · have hgiven := Option.not_isSome_iff_eq_none.mp hoverridden
    rw [if_neg hoverridden]
    constructor
    · intro h
      by_cases hunproven : analysis.hasEepromLibrary = true ∧ analysis.mappingFlag = 0
      · rw [if_pos hunproven] at h
        cases h
      rw [if_neg hunproven] at h
      simp only [Except.ok.injEq, InputRom.mk.injEq, RomInfo.mk.injEq] at h
      obtain ⟨rfl, ⟨rfl, rfl, rfl, rfl, rfl, rfl⟩, rfl, rfl⟩ := h
      exact ⟨rfl, ⟨rfl, hfile, hne, hsize, htarget', rfl, rfl, (htype _).mpr rfl, rfl,
        by rw [hgiven]; exact (hmapping _).mpr ⟨hunproven, rfl⟩, rfl⟩⟩
    · rintro ⟨rfl, h⟩
      have hfields := h.mapping
      rw [hgiven] at hfields
      obtain ⟨hproven, hfields⟩ := (hmapping _).mp hfields
      have hsame := Option.some.inj (htarget'.symm.trans h.target)
      rw [if_neg hproven]
      simp only [Except.ok.injEq, InputRom.mk.injEq, RomInfo.mk.injEq]
      exact ⟨h.isPath.symm, ⟨h.name.symm, trivial, h.start.symm, hsame, (htype _).mp h.type, hfields⟩,
        h.typeFlag.symm, h.mappingFlag.symm⟩

theorem askedAbout_iff (hdescribes : analysis.Describes data) :
    askedAbout analysis answers = .ok rest ↔
      if asks data then confirmNonSramSave answers = (true, rest) else answers = rest := by
  have hsame : analysis.nonSramSave = nonSramSave data :=
    Option.ext fun info => (hdescribes.save info).trans nonSramSave_iff.symm
  rw [askedAbout, asks, hsame]
  cases nonSramSave data with
  | none =>
    show Except.ok answers = Except.ok rest ↔ answers = rest
    exact ⟨Except.ok.inj, congrArg Except.ok⟩
  | some info =>
    obtain ⟨yes, left⟩ := confirmNonSramSave answers
    cases yes with
    | false => exact iff_of_false (fun h => by cases h) fun h => by cases h
    | true =>
      show Except.ok left = Except.ok rest ↔ (true, left) = (true, rest)
      exact ⟨fun h => by rw [Except.ok.inj h], fun h => by cases h; rfl⟩

/-- A path is loaded if its ROM is one that `Loaded` describes and the question about a save library,
where it is asked, is answered with yes. -/
theorem load_iff (htitles : ∀ title, options.titleOverrides[i]?.join = some title → title ≠ []) :
    load files (inputRom options i path) answers = .ok (rom, rest) ↔
      Loaded files options i path rom ∧
        if asks rom.info.data then confirmNonSramSave answers = (true, rest) else answers = rest := by
  have hpath : (inputRom options i path).path = path := rfl
  rw [load, hpath]
  cases hfile : files path with
  | none => exact iff_of_false (fun h => by cases h) fun h => by cases hfile.symm.trans h.1.file
  | some data =>
    have hdata : ∀ {rom}, Loaded files options i path rom → rom.info.data = data := fun h =>
      Option.some.inj (h.file.symm.trans hfile)
    dsimp only
    by_cases hne : data = []
    · rw [if_pos (List.isEmpty_iff.mpr hne)]
      refine iff_of_false (fun h => by cases h) fun h => h.1.nonempty ?_
      rw [hdata h.1, hne]
    rw [if_neg (mt List.isEmpty_iff.mp hne)]
    obtain ⟨_, analysis, hrun, hdescribes⟩ | ⟨hlt, hrun⟩ := analyze_cases data
    · rw [hrun]
      dsimp only [Except.mapError, bind, Except.bind]
      have htarget := hdescribes.target
      cases hbranch : analysis.originalEntryTarget with
      | none =>
        refine iff_of_false (fun h => by cases h) fun h => ?_
        have := h.1.target
        rw [hdata h.1, ← htarget, hbranch] at this
        cases this
      | some target =>
        have hfilled := @filled_iff files options i path data rom analysis target hfile hne hdescribes
          hbranch htitles
        have hasked := @askedAbout_iff data answers rest analysis hdescribes
        have hboth : ((askedAbout analysis answers).bind fun answers =>
            (filled (inputRom options i path) data target analysis).bind fun rom =>
              .ok (rom, answers)) = .ok (rom, rest) ↔
            askedAbout analysis answers = .ok rest ∧
              filled (inputRom options i path) data target analysis = .ok rom := by
          cases askedAbout analysis answers with
          | error e => simp [Except.bind]
          | ok answers =>
            cases filled (inputRom options i path) data target analysis with
            | error e => simp [Except.bind]
            | ok rom => simp [Except.bind, and_comm]
        refine hboth.trans ?_
        rw [hasked, hfilled]
        constructor
        · rintro ⟨hanswers, rfl, hloaded⟩
          exact ⟨hloaded, hanswers⟩
        · rintro ⟨hloaded, hanswers⟩
          rw [hdata hloaded] at hanswers
          exact ⟨hanswers, hdata hloaded, hloaded⟩
    · rw [hrun]
      refine iff_of_false (fun h => by cases h) fun h => ?_
      have := h.1.fits
      rw [hdata h.1] at this
      omega

/-- The paths are loaded, in their order, into the ROMs that `Loaded` describes, if and only if there is
a yes for each ROM that is asked about. -/
theorem loadFrom_iff {paths : List Bytes} {roms : List InputRom}
    (htitles : ∀ (k : Nat) title, options.titleOverrides[k]?.join = some title → title ≠ []) :
    loadFrom files options i paths answers = .ok roms ↔
      roms.length = paths.length ∧
      (∀ k path rom, paths[k]? = some path → roms[k]? = some rom →
        Loaded files options (i + k) path rom) ∧
      Confirmed (roms.countP fun rom => asks rom.info.data) answers := by
  induction paths generalizing i answers roms with
  | nil =>
    rw [loadFrom, List.length_nil, List.length_eq_zero_iff]
    constructor
    · rintro ⟨⟩
      exact ⟨rfl, fun _ _ _ h => absurd h (by simp), confirmed_zero⟩
    · rintro ⟨rfl, _⟩
      rfl
  | cons path paths ih =>
    have hcons : loadFrom files options i (path :: paths) answers = .ok roms ↔
        ∃ rom rest roms', roms = rom :: roms' ∧
          load files (inputRom options i path) answers = .ok (rom, rest) ∧
          loadFrom files options (i + 1) paths rest = .ok roms' := by
      rw [loadFrom]
      cases hload : load files (inputRom options i path) answers with
      | error e => exact iff_of_false (fun h => by cases h) fun ⟨_, _, _, _, h, _⟩ => by cases h
      | ok loaded =>
        obtain ⟨rom, rest⟩ := loaded
        show ((loadFrom files options (i + 1) paths rest).bind fun roms => .ok (rom :: roms)) =
          .ok roms ↔ _
        cases hrest : loadFrom files options (i + 1) paths rest with
        | error e =>
          refine iff_of_false (fun h => by cases h) ?_
          rintro ⟨_, _, _, _, ⟨⟩, h⟩
          cases hrest.symm.trans h
        | ok roms' =>
          constructor
          · rintro ⟨⟩
            exact ⟨rom, rest, roms', rfl, rfl, hrest⟩
          · rintro ⟨_, _, _, rfl, ⟨⟩, h⟩
            cases hrest.symm.trans h
            rfl
    rw [hcons]
    constructor
    · rintro ⟨rom, rest, roms', rfl, hload, hrest⟩
      obtain ⟨hloaded, hanswers⟩ := (load_iff (htitles i)).mp hload
      obtain ⟨hlength, hroms, hconfirmed⟩ := ih.mp hrest
      refine ⟨by rw [List.length_cons, List.length_cons, hlength], fun k path' rom' hp hr => ?_, ?_⟩
      · cases k with
        | zero =>
          cases hp
          cases hr
          exact hloaded
        | succ k =>
          rw [show i + (k + 1) = i + 1 + k by omega]
          exact hroms k path' rom' hp hr
      · rw [List.countP_cons]
        by_cases hasks : asks rom.info.data = true
        · rw [if_pos hasks] at hanswers ⊢
          rw [confirmed_succ_iff, hanswers]
          exact ⟨rfl, hconfirmed⟩
        · rw [if_neg hasks] at hanswers ⊢
          rw [hanswers]
          exact hconfirmed
    · rintro ⟨hlength, hroms, hconfirmed⟩
      cases roms with
      | nil => cases hlength
      | cons rom roms' =>
        have hloaded := hroms 0 path rom rfl rfl
        rw [List.countP_cons] at hconfirmed
        have hrest : ∀ rest, Confirmed (roms'.countP fun rom => asks rom.info.data) rest →
            loadFrom files options (i + 1) paths rest = .ok roms' := fun rest h =>
          ih.mpr ⟨Nat.succ.inj hlength, fun k path' rom' hp hr => by
            rw [show i + 1 + k = i + (k + 1) by omega]
            exact hroms (k + 1) path' rom' hp hr, h⟩
        by_cases hasks : asks rom.info.data = true
        · rw [if_pos hasks, confirmed_succ_iff] at hconfirmed
          refine ⟨rom, (confirmNonSramSave answers).2, roms', rfl, (load_iff (htitles i)).mpr
            ⟨hloaded, ?_⟩, hrest _ hconfirmed.2⟩
          rw [if_pos hasks, ← hconfirmed.1]
        · rw [if_neg hasks] at hconfirmed
          exact ⟨rom, answers, roms', rfl, (load_iff (htitles i)).mpr ⟨hloaded, if_neg hasks ▸ rfl⟩,
            hrest _ hconfirmed⟩

end Load

end RomInputLoader

end Ezfadvance
