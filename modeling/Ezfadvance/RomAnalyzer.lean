import Ezfadvance.EepromMapping
import Ezfadvance.RomInput

/-!
# RomAnalyzer

What the writer learns from the bytes of a ROM (`rom_analyzer.cpp`): its entry branch, its size class,
the save library linked into it, and the mapping byte for the catalog.

* `contains`, `asciiSignature`, `nonSramSave`, `analyze`: as in the source.
* `MapsTo`: which libraries a mapping byte stands for. `MapsTo.unique`: no two for one ROM.
* `SaveLibrary`: the first of the libraries that are asked about, and its signature.
* `analyze_iff`: every ROM that fits the cartridge is analysed, with exactly these results.
-/

namespace Ezfadvance

open CartridgeFormat EepromMapping Occurrence

def catalogMapForEeprom (capacity : EepromCapacity) : UInt8 :=
  if capacity = .bytes512 then 4
  else if capacity = .bytes8192 then 5
  else 0

structure NonSramSaveInfo where
  family : Bytes
  signature : Bytes
  deriving DecidableEq

structure RomAnalysis where
  originalEntryTarget : Option UInt32 := none
  entryType : UInt8 := 9
  mappingFlag : UInt8 := 0
  hasEepromLibrary : Bool := false
  nonSramSave : Option NonSramSaveInfo := none

/-- What `analyze` may throw; the second is an access outside the vector. -/
inductive AnalysisError where
  | size (error : RomSizeError)
  | outOfBounds (error : OutOfBounds)

namespace RomAnalyzer

def contains (data needle : Bytes) : Bool :=
  !needle.isEmpty && decide (data.length ≥ needle.length) && (findFrom needle data 0).isSome

/-- The loop of `asciiSignature`. -/
def signatureFrom : Bytes → Bytes → Bytes
  | [], signature => signature
  | current :: rest, signature =>
    if signature.length ≥ 20 then signature
    else if current < 0x20 ∨ current > 0x7E then signature
    else signatureFrom rest (signature ++ [current])

def asciiSignature (rom marker : Bytes) : Option Bytes :=
  match findFrom marker rom 0 with
  | none => none
  | some found =>
    let signature := signatureFrom (rom.drop found) []
    some (if signature.isEmpty then marker else signature)

/-- The markers and the families they stand for. -/
def candidates : List (Bytes × Bytes) :=
  [(ascii "FLASH1M_V", ascii "FLASH1M (128 KiB Flash)"),
    (ascii "FLASH512_V", ascii "FLASH512 (64 KiB Flash)"), (ascii "EEPROM_V", ascii "EEPROM")]

/-- The loop of `nonSramSave`. -/
def nonSramSaveFrom (rom : Bytes) : List (Bytes × Bytes) → Option NonSramSaveInfo
  | [] => none
  | (marker, family) :: rest =>
    match asciiSignature rom marker with
    | some signature => some { family := family, signature := signature }
    | none => nonSramSaveFrom rom rest

def nonSramSave (rom : Bytes) : Option NonSramSaveInfo := nonSramSaveFrom rom candidates

def mappingFlag (rom : Bytes) : Except OutOfBounds UInt8 :=
  if contains rom (ascii "EEPROM_V") then
    (detectEepromMapping rom).map fun detection => catalogMapForEeprom detection.capacity
  else if contains rom (ascii "FLASH1M_V") then .ok 7
  else if contains rom (ascii "FLASH_V") || contains rom (ascii "FLASH512_V") then .ok 6
  else .ok 3

def analyze (rom : Bytes) : Except AnalysisError RomAnalysis := do
  let type ← (Ezfadvance.entryType rom.length).mapError .size
  let mapping ← (mappingFlag rom).mapError .outOfBounds
  return {
    originalEntryTarget := originalEntryTarget rom
    entryType := type
    mappingFlag := mapping
    hasEepromLibrary := contains rom (ascii "EEPROM_V")
    nonSramSave := nonSramSave rom }

/-! ## Searches -/

variable {rom : Bytes}

theorem findFrom_isSome_iff {marker : Bytes} (hmarker : marker ≠ []) :
    (findFrom marker rom 0).isSome = true ↔ marker <:+: rom := by
  rw [infix_iff_occursAt]
  cases hfind : findFrom marker rom 0 with
  | some i => exact iff_of_true rfl ⟨i, (findFrom_eq_some hfind).2.2.1⟩
  | none =>
    refine iff_of_false Bool.false_ne_true ?_
    rintro ⟨i, hi⟩
    exact findFrom_eq_none hmarker hfind i (Nat.zero_le i) hi

theorem contains_iff {needle : Bytes} (hneedle : needle ≠ []) :
    contains rom needle = true ↔ needle <:+: rom := by
  rw [contains, Bool.and_eq_true, Bool.and_eq_true, findFrom_isSome_iff hneedle, Bool.not_eq_true',
    List.isEmpty_eq_false_iff, decide_eq_true_eq]
  exact ⟨fun h => h.2, fun h => ⟨⟨hneedle, h.length_le⟩, h⟩⟩

/-- The signature goes on for as long as the text is printable, up to 20 characters. -/
theorem signatureFrom_eq {text signature : Bytes} (h : signature.length ≤ 20) :
    signatureFrom text signature = signature ++
      (text.take (20 - signature.length)).takeWhile fun c => decide (0x20 ≤ c ∧ c ≤ 0x7E) := by
  induction text generalizing signature with
  | nil => simp [signatureFrom]
  | cons current rest ih =>
    rw [signatureFrom]
    by_cases hfull : signature.length ≥ 20
    · rw [if_pos hfull, show 20 - signature.length = 0 by omega]
      simp
    · obtain ⟨n, hn⟩ : ∃ n, 20 - signature.length = n + 1 := ⟨19 - signature.length, by omega⟩
      rw [if_neg hfull, hn, List.take_succ_cons, List.takeWhile_cons]
      by_cases hend : current < 0x20 ∨ current > 0x7E
      · have hno : ¬ (0x20 ≤ current ∧ current ≤ 0x7E) := by
          simpa only [not_and_or, UInt8.not_le] using hend
        simp [hend, hno]
      · have hyes : 0x20 ≤ current ∧ current ≤ 0x7E := by
          simpa only [not_or, UInt8.not_lt] using hend
        have hlen : (signature ++ [current]).length = signature.length + 1 := by simp
        rw [if_neg hend, ih (by omega), hlen, show 20 - (signature.length + 1) = n by omega]
        simp [hyes]

/-! ## The save library -/

/-- The text at the first occurrence of the marker: as far as it is printable, and no more than 20
characters of it. -/
def Signature (rom marker signature : Bytes) : Prop :=
  ∃ i, OccursAt marker rom i ∧ (∀ k, k < i → ¬ OccursAt marker rom k) ∧
    signature = ((rom.drop i).take 20).takeWhile fun c => decide (0x20 ≤ c ∧ c ≤ 0x7E)

/-- The family of the first candidate that occurs in the ROM, with its signature there. -/
def SaveLibrary (rom : Bytes) (info : NonSramSaveInfo) : Prop :=
  ∃ before marker after, candidates = before ++ (marker, info.family) :: after ∧
    (∀ c ∈ before, ¬ c.1 <:+: rom) ∧ Signature rom marker info.signature

theorem candidates_printable : ∀ c ∈ candidates, c.1 ≠ [] ∧ Printable c.1 := by
  intro c hc
  simp only [candidates, List.mem_cons, List.not_mem_nil, or_false] at hc
  obtain rfl | rfl | rfl := hc <;> exact ⟨by decide, by simp [Printable, ascii]⟩

/-- A marker is text itself, so that there is a signature where it occurs. -/
theorem asciiSignature_iff {marker signature : Bytes} (hmarker : marker ≠ [])
    (hprintable : Printable marker) :
    asciiSignature rom marker = some signature ↔ Signature rom marker signature := by
  rw [asciiSignature]
  cases hfind : findFrom marker rom 0 with
  | none =>
    refine iff_of_false (fun h => by cases h) ?_
    rintro ⟨i, hi, _⟩
    exact findFrom_eq_none hmarker hfind i (Nat.zero_le i) hi
  | some found =>
    obtain ⟨_, _, hoccurs, hfirst⟩ := findFrom_eq_some hfind
    have hsignature := @signatureFrom_eq (rom.drop found) [] (Nat.zero_le 20)
    have hne : (signatureFrom (rom.drop found) []).isEmpty = false := by
      obtain ⟨c, rest, rfl⟩ := List.exists_cons_of_ne_nil hmarker
      obtain ⟨t, ht⟩ := hoccurs
      have hc := hprintable c (List.mem_cons_self ..)
      rw [hsignature, ← ht]
      simp [hc]
    simp only [hne, Bool.false_eq_true, if_false, Option.some.injEq]
    rw [hsignature, List.nil_append, List.length_nil, Nat.sub_zero]
    constructor
    · rintro rfl
      exact ⟨found, hoccurs, fun k hk => hfirst k (Nat.zero_le k) hk, rfl⟩
    · rintro ⟨i, hi, hbefore, rfl⟩
      obtain hlt | rfl | hgt := Nat.lt_trichotomy i found
      · exact absurd hi (hfirst i (Nat.zero_le i) hlt)
      · rfl
      · exact absurd hoccurs (hbefore found hgt)

theorem nonSramSaveFrom_iff {cs : List (Bytes × Bytes)} {info : NonSramSaveInfo}
    (hcs : ∀ c ∈ cs, c.1 ≠ [] ∧ Printable c.1) :
    nonSramSaveFrom rom cs = some info ↔
      ∃ before marker after, cs = before ++ (marker, info.family) :: after ∧
        (∀ c ∈ before, ¬ c.1 <:+: rom) ∧ Signature rom marker info.signature := by
  induction cs with
  | nil =>
    refine iff_of_false (fun h => by cases h) ?_
    rintro ⟨before, marker, after, hnil, _⟩
    cases before <;> cases hnil
  | cons c rest ih =>
    obtain ⟨marker, family⟩ := c
    obtain ⟨⟨hmarker, hprintable⟩, hrest⟩ := List.forall_mem_cons.mp hcs
    have hsome := fun signature => @asciiSignature_iff rom marker signature hmarker hprintable
    rw [nonSramSaveFrom]
    cases hsignature : asciiSignature rom marker with
    | some signature =>
      have hhere := (hsome signature).mp hsignature
      dsimp only
      rw [Option.some.injEq]
      constructor
      · rintro rfl
        exact ⟨[], marker, rest, rfl, fun _ h => absurd h List.not_mem_nil, hhere⟩
      · rintro ⟨before, marker', after, heq, hnone, hfound⟩
        cases before with
        | nil =>
          cases heq
          have := Option.some.inj (hsignature.symm.trans ((hsome _).mpr hfound))
          rw [this]
        | cons c before =>
          cases heq
          obtain ⟨i, hi, _⟩ := hhere
          exact absurd (infix_iff_occursAt.mpr ⟨i, hi⟩) (hnone _ (List.mem_cons_self ..))
    | none =>
      dsimp only
      rw [ih hrest]
      have habsent : ¬ marker <:+: rom := by
        intro hin
        have hfound := (findFrom_isSome_iff hmarker).mpr hin
        rw [asciiSignature] at hsignature
        cases hfind : findFrom marker rom 0 with
        | none => rw [hfind] at hfound; cases hfound
        | some i => rw [hfind] at hsignature; cases hsignature
      constructor
      · rintro ⟨before, marker', after, rfl, hnone, hfound⟩
        exact ⟨(marker, family) :: before, marker', after, rfl,
          List.forall_mem_cons.mpr ⟨habsent, hnone⟩, hfound⟩
      · rintro ⟨before, marker', after, heq, hnone, hfound⟩
        cases before with
        | nil =>
          cases heq
          cases hsignature.symm.trans ((hsome _).mpr hfound)
        | cons c before =>
          cases heq
          exact ⟨before, marker', after, rfl, (List.forall_mem_cons.mp hnone).2, hfound⟩

theorem nonSramSave_iff {info : NonSramSaveInfo} :
    nonSramSave rom = some info ↔ SaveLibrary rom info := nonSramSaveFrom_iff candidates_printable

/-! ## The mapping -/

/-- The mapping byte of a ROM. With an EEPROM library it is 4 or 5 where the code of the ROM proves one
capacity and no other, and 0 where it does not. -/
inductive MapsTo (rom : Bytes) : UInt8 → Prop where
  | eeprom512 (library : ascii "EEPROM_V" <:+: rom) (proof : ∀ c, Evidence rom c ↔ c = .bytes512) :
      MapsTo rom 4
  | eeprom8192 (library : ascii "EEPROM_V" <:+: rom) (proof : ∀ c, Evidence rom c ↔ c = .bytes8192) :
      MapsTo rom 5
  | unproven (library : ascii "EEPROM_V" <:+: rom)
      (undecided : ∀ capacity, ¬ ∀ c, Evidence rom c ↔ c = capacity) : MapsTo rom 0
  | flash1M (noEeprom : ¬ ascii "EEPROM_V" <:+: rom) (library : ascii "FLASH1M_V" <:+: rom) :
      MapsTo rom 7
  | flash (noEeprom : ¬ ascii "EEPROM_V" <:+: rom) (noFlash1M : ¬ ascii "FLASH1M_V" <:+: rom)
      (library : ascii "FLASH_V" <:+: rom ∨ ascii "FLASH512_V" <:+: rom) : MapsTo rom 6
  | sram (noEeprom : ¬ ascii "EEPROM_V" <:+: rom) (noFlash1M : ¬ ascii "FLASH1M_V" <:+: rom)
      (noFlash : ¬ (ascii "FLASH_V" <:+: rom ∨ ascii "FLASH512_V" <:+: rom)) : MapsTo rom 3

theorem MapsTo.unique {m m' : UInt8} (h : MapsTo rom m) (h' : MapsTo rom m') : m = m' := by
  have hcapacity : ∀ c c' : EepromCapacity, (∀ k, Evidence rom k ↔ k = c) →
      (∀ k, Evidence rom k ↔ k = c') → c = c' := fun c c' hc hc' => (hc' c).mp ((hc c).mpr rfl)
  cases h with
  | eeprom512 _ proof =>
    cases h' with
    | eeprom512 => rfl
    | eeprom8192 _ proof' => cases hcapacity _ _ proof proof'
    | unproven _ open' => exact absurd proof (open' _)
    | _ => contradiction
  | eeprom8192 _ proof =>
    cases h' with
    | eeprom512 _ proof' => cases hcapacity _ _ proof proof'
    | eeprom8192 => rfl
    | unproven _ open' => exact absurd proof (open' _)
    | _ => contradiction
  | unproven _ undecided =>
    cases h' with
    | eeprom512 _ proof' => exact absurd proof' (undecided _)
    | eeprom8192 _ proof' => exact absurd proof' (undecided _)
    | unproven => rfl
    | _ => contradiction
  | flash1M =>
    cases h' with
    | flash1M => rfl
    | _ => contradiction
  | flash =>
    cases h' with
    | flash => rfl
    | _ => contradiction
  | sram =>
    cases h' with
    | sram => rfl
    | _ => contradiction

/-- The detection ends with a state that has gathered all the evidence. -/
theorem detectEepromMapping_tracks : ∃ merge : Merge, detectEepromMapping rom = .ok merge.result ∧
    merge.Tracks (Evidence rom) := by
  obtain ⟨identifiers, hfind, hidentifiers⟩ := @findIdentifyEepromFunctions_ok rom
  obtain ⟨calls, hcalls, hmem⟩ := @findCallsFrom_ok rom 0 (Nat.dvd_zero 2)
  have hbl : ∀ call : Call, call ∈ calls ↔ ThumbBl rom call.offset call.target :=
    fun call => (hmem call).trans (and_iff_right (Nat.zero_le _))
  obtain ⟨merge, hfold, htracks⟩ := @follow_ok rom calls identifiers fun call hcall => by
    have := ((hbl call).mp hcall).fits
    omega
  refine ⟨merge, ?_, htracks.congr fun c => (evidence_iff hbl hidentifiers).symm⟩
  rw [detectEepromMapping, hfind]
  dsimp only [bind, Except.bind]
  cases identifiers with
  | nil =>
    cases hfold
    rfl
  | cons identifier identifiers =>
    rw [hcalls]
    dsimp only
    rw [hfold]
    rfl

theorem mappingFlag_ok : ∃ m, mappingFlag rom = .ok m ∧ MapsTo rom m := by
  have heeprom := @contains_iff rom (ascii "EEPROM_V") (by decide)
  have hflash1M := @contains_iff rom (ascii "FLASH1M_V") (by decide)
  have hflash := @contains_iff rom (ascii "FLASH_V") (by decide)
  have hflash512 := @contains_iff rom (ascii "FLASH512_V") (by decide)
  rw [mappingFlag]
  split_ifs with h1 h2 h3
  · obtain ⟨merge, hdetect, htracks⟩ := @detectEepromMapping_tracks rom
    refine ⟨catalogMapForEeprom merge.result.capacity, by rw [hdetect]; rfl, ?_⟩
    have hknown : ∀ c, (merge.result.capacity = c ∧ c ≠ .unknown) ↔ ∀ k, Evidence rom k ↔ k = c :=
      fun c => htracks.capacity_iff.trans htracks.reflects.agreed_iff
    rw [catalogMapForEeprom]
    split_ifs with h512 h8192
    · exact .eeprom512 (heeprom.mp h1) ((hknown _).mp ⟨h512, by decide⟩)
    · exact .eeprom8192 (heeprom.mp h1) ((hknown _).mp ⟨h8192, by decide⟩)
    · refine .unproven (heeprom.mp h1) fun capacity hall => ?_
      obtain ⟨hcapacity, hne⟩ := (hknown capacity).mpr hall
      cases capacity with
      | unknown => exact hne rfl
      | bytes512 => exact h512 hcapacity
      | bytes8192 => exact h8192 hcapacity
  · exact ⟨7, rfl, .flash1M (mt heeprom.mpr h1) (hflash1M.mp h2)⟩
  · rw [Bool.or_eq_true, hflash, hflash512] at h3
    exact ⟨6, rfl, .flash (mt heeprom.mpr h1) (mt hflash1M.mpr h2) h3⟩
  · rw [Bool.or_eq_true, hflash, hflash512] at h3
    exact ⟨3, rfl, .sram (mt heeprom.mpr h1) (mt hflash1M.mpr h2) h3⟩

end RomAnalyzer

open RomAnalyzer

/-- What the analysis of a ROM says. -/
structure RomAnalysis.Describes (analysis : RomAnalysis) (rom : Bytes) : Prop where
  target : analysis.originalEntryTarget = RomAnalyzer.originalEntryTarget rom
  type : Ezfadvance.entryType rom.length = .ok analysis.entryType
  mapping : ∀ m, analysis.mappingFlag = m ↔ MapsTo rom m
  eeprom : analysis.hasEepromLibrary = true ↔ ascii "EEPROM_V" <:+: rom
  save : ∀ info, analysis.nonSramSave = some info ↔ SaveLibrary rom info

theorem analyze_cases (rom : Bytes) :
    (rom.length ≤ maxCardImage ∧ ∃ analysis, analyze rom = .ok analysis ∧ analysis.Describes rom) ∨
      (maxCardImage < rom.length ∧ analyze rom = .error (.size .romFileExceedsCapacity)) := by
  by_cases hsize : rom.length ≤ maxCardImage
  · obtain ⟨type, htype⟩ := entryType_isOk hsize
    obtain ⟨m, hmapping, hmapsTo⟩ := @mappingFlag_ok rom
    refine .inl ⟨hsize, _, by rw [analyze, htype, hmapping]; rfl, ?_⟩
    exact {
      target := rfl
      type := htype
      mapping := fun m' => ⟨fun h => h ▸ hmapsTo, hmapsTo.unique⟩
      eeprom := contains_iff (by decide)
      save := fun _ => nonSramSave_iff }
  · have htype : entryType rom.length = .error .romFileExceedsCapacity := if_pos (Nat.not_le.mp hsize)
    exact .inr ⟨Nat.not_le.mp hsize, by rw [analyze, htype]; rfl⟩

/-- No two results describe one ROM. -/
theorem RomAnalysis.Describes.unique {rom : Bytes} {analysis analysis' : RomAnalysis}
    (h : analysis.Describes rom) (h' : analysis'.Describes rom) : analysis = analysis' := by
  have htarget := h.target.trans h'.target.symm
  have htype := Except.ok.inj (h.type.symm.trans h'.type)
  have hmapping := (h.mapping _).mpr ((h'.mapping _).mp rfl)
  have heeprom := Bool.eq_iff_iff.mpr (h.eeprom.trans h'.eeprom.symm)
  have hsave := Option.ext fun info => (h.save info).trans (h'.save info).symm
  cases analysis
  cases analysis'
  simp only at htarget htype hmapping heeprom hsave
  rw [htarget, htype, hmapping, heeprom, hsave]

/-- The analysis returns exactly what describes the ROM: its entry branch, its size class, the mapping
byte of its libraries, where an EEPROM capacity counts if and only if the code proves it and no other,
and the first save library that is there. It throws for a ROM larger than the cartridge, and for
nothing else; it never reads outside the vector. -/
theorem analyze_iff (rom : Bytes) :
    (∀ analysis, analyze rom = .ok analysis ↔ analysis.Describes rom) ∧
    ∀ e, analyze rom = .error e ↔ e = .size .romFileExceedsCapacity ∧ maxCardImage < rom.length := by
  obtain ⟨hle, analysis, hrun, hdescribes⟩ | ⟨hlt, hrun⟩ := analyze_cases rom
  · rw [hrun]
    refine ⟨fun analysis' => ⟨fun h => Except.ok.inj h ▸ hdescribes, fun h => ?_⟩,
      fun e => iff_of_false (fun h => by cases h) fun h => ?_⟩
    · rw [hdescribes.unique h]
    · exact absurd hle (Nat.not_le.mpr h.2)
  · rw [hrun]
    refine ⟨fun analysis => iff_of_false (fun h => by cases h) fun h => ?_, fun e => ?_⟩
    · exact absurd (entryType_spec h.type).1 (Nat.not_le.mpr hlt)
    · exact ⟨fun h => ⟨(Except.error.inj h).symm, hlt⟩, fun h => by rw [h.1]⟩

end Ezfadvance
