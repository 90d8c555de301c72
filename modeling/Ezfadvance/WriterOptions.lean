import Ezfadvance.RomInput
import Ezfadvance.SaveBank
import Ezfadvance.Lib.Arguments

/-!
# WriterOptions

The command line of the writer (`writer_options.cpp`): flags, overrides for the catalog slots, and
the paths of the ROMs.

* `parseDecimal`, `WriterOptions.parse`: as in the source, with the texts of the errors.
* `parseDecimal_iff`: exactly the numbers up to the maximum are read.
* `Spells`: what an argument may look like, and what it stands for.
* `parseArgument_iff`: the step of the loop accepts what is spelled so and applies it.
* `writer_options_parse`: which command lines are accepted, and what they leave in the options.
-/

namespace Ezfadvance

open Segments CartridgeFormat WriterOptions Arguments

/-! ## Numbers -/

/-- The loop of `parseDecimal`, in 64-bit arithmetic. -/
def parseDecimalFrom (maximum : UInt64) : Bytes → UInt64 → Option UInt64
  | [], parsed => some parsed
  | character :: text, parsed =>
    if character < 0x30 ∨ character > 0x39 then none
    else
      let digit := (character - 0x30).toUInt64
      if digit > maximum ∨ parsed > (maximum - digit) / 10 then none
      else parseDecimalFrom maximum text (parsed * 10 + digit)

def parseDecimal (text : Bytes) (maximum : UInt64) : Option UInt64 :=
  if text.isEmpty then none else parseDecimalFrom maximum text 0

/-- The text writes the number in decimal, with any number of leading zeros. -/
def WritesDecimal (text : Bytes) (n : Nat) : Prop :=
  text ≠ [] ∧ (∀ c ∈ text, 0x30 ≤ c ∧ c ≤ 0x39) ∧
    Nat.ofDigits 10 (text.map fun c => c.toNat - 0x30).reverse = n

section Digit

variable {maximum parsed digit : UInt64}

theorem digit_toNat {character : UInt8} (h : 0x30 ≤ character) :
    (character - 0x30).toUInt64.toNat = character.toNat - 0x30 := by
  rw [UInt8.toNat_toUInt64, UInt8.toNat_sub_of_le _ _ h]
  rfl

/-- The check of the loop is on the number that the digit would give. -/
theorem overflow_iff : digit > maximum ∨ parsed > (maximum - digit) / 10 ↔
    maximum.toNat < parsed.toNat * 10 + digit.toNat := by
  rw [← guard_iff (by decide), gt_iff_lt, gt_iff_lt, UInt64.lt_iff_toNat_lt]
  by_cases hle : maximum.toNat < digit.toNat
  · exact iff_of_true (.inl hle) (.inl hle)
  · rw [UInt64.lt_iff_toNat_lt, UInt64.toNat_div,
      UInt64.toNat_sub_of_le _ _ (UInt64.le_iff_toNat_le.mpr (Nat.not_lt.mp hle))]
    rfl

/-- A number within the maximum has not wrapped. -/
theorem next_toNat (h : parsed.toNat * 10 + digit.toNat ≤ maximum.toNat) :
    (parsed * 10 + digit).toNat = parsed.toNat * 10 + digit.toNat := by
  have hlimit := maximum.toNat_lt
  rw [UInt64.toNat_add, UInt64.toNat_mul, Nat.mod_add_mod]
  exact Nat.mod_eq_of_lt (by show parsed.toNat * 10 + digit.toNat < _; omega)

end Digit

theorem parseDecimalFrom_iff {maximum parsed v : UInt64} {text : Bytes}
    (hparsed : parsed ≤ maximum) :
    parseDecimalFrom maximum text parsed = some v ↔ (∀ c ∈ text, 0x30 ≤ c ∧ c ≤ 0x39) ∧
      value 10 (text.map fun c => c.toNat - 0x30) parsed.toNat = v.toNat ∧ v ≤ maximum := by
  induction text generalizing parsed with
  | nil =>
    rw [parseDecimalFrom, Option.some.injEq]
    constructor
    · rintro rfl
      exact ⟨by simp, rfl, hparsed⟩
    · rintro ⟨_, hvalue, _⟩
      exact UInt64.toNat_inj.mp hvalue
  | cons character text ih =>
    rw [parseDecimalFrom, List.forall_mem_cons, List.map_cons, value_cons]
    have hdigit : character < 0x30 ∨ character > 0x39 ↔
        ¬ (0x30 ≤ character ∧ character ≤ 0x39) := by
      rw [not_and_or, UInt8.not_le, UInt8.not_le, gt_iff_lt]
    by_cases hin : 0x30 ≤ character ∧ character ≤ 0x39
    · rw [if_neg (by rw [hdigit]; exact not_not_intro hin), ← digit_toNat hin.1]
      generalize (character - 0x30).toUInt64 = digit
      dsimp only
      by_cases hover : maximum.toNat < parsed.toNat * 10 + digit.toNat
      · rw [if_pos (overflow_iff.mpr hover)]
        refine iff_of_false (by rintro ⟨⟩) ?_
        rintro ⟨_, hread, hmax⟩
        -- the digits behind this one can only make the number larger
        have hge := @le_value 10 (text.map fun c => c.toNat - 0x30) (by decide)
          (parsed.toNat * 10 + digit.toNat)
        rw [UInt64.le_iff_toNat_le] at hmax
        omega
      · have hnext := next_toNat (Nat.not_lt.mp hover)
        rw [if_neg (mt overflow_iff.mp hover),
          ih (by rw [UInt64.le_iff_toNat_le, hnext]; omega), hnext]
        simp only [hin, and_self, true_and]
    · rw [if_pos (hdigit.mpr hin)]
      exact iff_of_false (by rintro ⟨⟩) fun h => hin h.1.1

/-- A number is read if and only if the text writes it and it is at most the maximum: whatever the
length of the text, nothing wraps. -/
theorem parseDecimal_iff {text : Bytes} {maximum v : UInt64} :
    parseDecimal text maximum = some v ↔ WritesDecimal text v.toNat ∧ v ≤ maximum := by
  rw [parseDecimal]
  split
  case isTrue hempty =>
    refine iff_of_false (by rintro ⟨⟩) ?_
    rintro ⟨⟨hne, _⟩, _⟩
    exact hne (List.isEmpty_iff.mp hempty)
  case isFalse hempty =>
    have hne : text ≠ [] := fun h => hempty (List.isEmpty_iff.mpr h)
    have hvalue : value 10 (text.map fun c => c.toNat - 0x30) (0 : UInt64).toNat =
        Nat.ofDigits 10 (text.map fun c => c.toNat - 0x30).reverse := by
      rw [value_eq_ofDigits]
      exact (congrArg _ (Nat.zero_mul _)).trans (Nat.add_zero _)
    rw [parseDecimalFrom_iff (UInt64.le_iff_toNat_le.mpr (Nat.zero_le _)), hvalue, WritesDecimal]
    tauto

/-- 2^64 + 1 is not taken for 1. -/
example : parseDecimal (ascii "18446744073709551617") 255 = none := by decide

/-! ## Options -/

namespace WriterOptions

def catalogSlots : Nat := 120

end WriterOptions

structure WriterParseResult where
  ok : Bool := false
  showUsage : Bool := false
  deriving DecidableEq

structure WriterOptions where
  write : Bool := false
  skipVerify : Bool := false
  verbose : Bool := false
  experimentalDirectBoot : Bool := false
  typeOverrides : Vector (Option UInt8) catalogSlots := Vector.replicate catalogSlots none
  mappingOverrides : Vector (Option UInt8) catalogSlots := Vector.replicate catalogSlots none
  titleOverrides : Vector (Option Bytes) catalogSlots := Vector.replicate catalogSlots none
  romPaths : List Bytes := []

/-- What `parse` reports of the argument it stops at. -/
structure RejectedArgument where
  showUsage : Bool
  errors : Bytes

namespace WriterOptions

/-- The index behind the slot number between the prefix and the equals sign. -/
def parseOverrideSlot (argument : Bytes) (prefixSize equals : Nat) : Option (Fin catalogSlots) :=
  if equals > prefixSize then
    match hslot : parseDecimal (slice argument prefixSize (equals - prefixSize)) 120 with
    | none => none
    | some slot =>
      if hzero : slot = 0 then none
      else some ⟨slot.toNat - 1, by
        have hle := UInt64.le_iff_toNat_le.mp (parseDecimal_iff.mp hslot).2
        have hpos : slot.toNat ≠ 0 := fun h => hzero (UInt64.toNat_inj.mp h)
        rw [catalogSlots]
        exact Nat.lt_of_lt_of_le (Nat.sub_one_lt hpos) hle⟩
  else none

def badSlot (kind : String) (argument : Bytes) : Bytes :=
  ascii "Bad " ++ ascii kind ++ ascii " override slot: " ++ argument ++
    ascii " (valid structural catalog slots are 1..120)\n"

/-- The branch of `parse` for a title. -/
def parseTitle (argument : Bytes) : Except RejectedArgument (Fin catalogSlots × Bytes) :=
  match argument.idxOf? 0x3D with
  | none => .error ⟨false, badSlot "title" argument⟩
  | some equals =>
    match parseOverrideSlot argument 7 equals with
    | none => .error ⟨false, badSlot "title" argument⟩
    | some slot =>
      let title := argument.drop (equals + 1)
      if !validMenuTitle title then
        .error ⟨false, ascii "Bad title override value: " ++ argument ++
          ascii " (title must contain 1..16 printable ASCII characters)\n"⟩
      else .ok (slot, title)

/-- The branches of `parse` for a type and for a mapping. -/
def parseByteOverride (prefixSize : Nat) (kind : String) (argument : Bytes) :
    Except RejectedArgument (Fin catalogSlots × UInt8) :=
  match argument.idxOf? 0x3D with
  | none => .error ⟨true, []⟩
  | some equals =>
    if equals ≤ prefixSize ∨ equals + 1 ≥ argument.length then .error ⟨true, []⟩
    else
      match parseOverrideSlot argument prefixSize equals with
      | none => .error ⟨false, badSlot kind argument⟩
      | some slot =>
        match parseDecimal (argument.drop (equals + 1)) 255 with
        | none =>
          .error ⟨false, ascii "Bad " ++ ascii kind ++ ascii " override value: " ++ argument ++
            ascii "\n"⟩
        | some value => .ok (slot, value.toUInt8)

def setTitle (options : WriterOptions) (slot : Fin catalogSlots) (title : Bytes) : WriterOptions :=
  { options with titleOverrides := options.titleOverrides.set slot (some title) }

def setType (options : WriterOptions) (slot : Fin catalogSlots) (value : UInt8) : WriterOptions :=
  { options with typeOverrides := options.typeOverrides.set slot (some value) }

def setMapping (options : WriterOptions) (slot : Fin catalogSlots) (value : UInt8) :
    WriterOptions :=
  { options with mappingOverrides := options.mappingOverrides.set slot (some value) }

/-- The body of the loop of `parse`. -/
def parseArgument (options : WriterOptions) (argument : Bytes) :
    Except RejectedArgument WriterOptions :=
  if argument = ascii "--yes-really-write" then .ok { options with write := true }
  else if argument = ascii "--skip-verify" then .ok { options with skipVerify := true }
  else if argument = ascii "--verbose" then .ok { options with verbose := true }
  else if argument = ascii "--experimental-direct-boot" then
    .ok { options with experimentalDirectBoot := true }
  else if startsWith argument "--title" then
    (parseTitle argument).map fun found => options.setTitle found.1 found.2
  else if startsWith argument "--type" then
    (parseByteOverride 6 "type" argument).map fun found => options.setType found.1 found.2
  else if startsWith argument "--map" then
    (parseByteOverride 5 "mapping" argument).map fun found => options.setMapping found.1 found.2
  else if argument.head? = some 0x2D then
    .error ⟨true, ascii "Unknown option: " ++ argument ++ ascii "\n"⟩
  else .ok { options with romPaths := options.romPaths ++ [argument] }

/-- The result, the options as they are then, and what was printed to `errors`. -/
structure Parse where
  result : WriterParseResult
  options : WriterOptions
  errors : Bytes

/-- The first element of `argv` is the name of the program. -/
def parse (argv : List Bytes) (options : WriterOptions) : Parse :=
  match readAll parseArgument argv.tail options with
  | .ok options => ⟨{ ok := true }, options, []⟩
  | .error (rejected, options) =>
    ⟨{ showUsage := rejected.showUsage }, options, rejected.errors⟩

end WriterOptions

/-! ## What an argument may look like -/

inductive WriterFlag where
  | write
  | skipVerify
  | verbose
  | experimentalDirectBoot

def WriterFlag.text : WriterFlag → Bytes
  | .write => ascii "--yes-really-write"
  | .skipVerify => ascii "--skip-verify"
  | .verbose => ascii "--verbose"
  | .experimentalDirectBoot => ascii "--experimental-direct-boot"

inductive WriterArgument where
  | flag (flag : WriterFlag)
  | title (slot : Fin catalogSlots) (title : Bytes)
  | type (slot : Fin catalogSlots) (value : UInt8)
  | mapping (slot : Fin catalogSlots) (value : UInt8)
  | path (path : Bytes)

/-- The texts of an argument. Slot `N` has the index `N - 1`. -/
inductive Spells : WriterArgument → Bytes → Prop where
  | flag (flag : WriterFlag) : Spells (.flag flag) flag.text
  | title {slot : Fin catalogSlots} {number title : Bytes}
      (hslot : WritesDecimal number (slot + 1)) (hpos : 1 ≤ title.length) (hlen : title.length ≤ 16)
      (hprintable : Printable title) :
      Spells (.title slot title) (ascii "--title" ++ number ++ ascii "=" ++ title)
  | type {slot : Fin catalogSlots} {number text : Bytes} {value : UInt8}
      (hslot : WritesDecimal number (slot + 1)) (hvalue : WritesDecimal text value.toNat) :
      Spells (.type slot value) (ascii "--type" ++ number ++ ascii "=" ++ text)
  | mapping {slot : Fin catalogSlots} {number text : Bytes} {value : UInt8}
      (hslot : WritesDecimal number (slot + 1)) (hvalue : WritesDecimal text value.toNat) :
      Spells (.mapping slot value) (ascii "--map" ++ number ++ ascii "=" ++ text)
  | path {path : Bytes} (hdash : path.head? ≠ some 0x2D) : Spells (.path path) path

def WriterArgument.apply (options : WriterOptions) : WriterArgument → WriterOptions
  | .flag .write => { options with write := true }
  | .flag .skipVerify => { options with skipVerify := true }
  | .flag .verbose => { options with verbose := true }
  | .flag .experimentalDirectBoot => { options with experimentalDirectBoot := true }
  | .title slot text => options.setTitle slot text
  | .type slot value => options.setType slot value
  | .mapping slot value => options.setMapping slot value
  | .path text => { options with romPaths := options.romPaths ++ [text] }

/-! ## The parts of an override -/

section Override

variable {p rest number tail : Bytes}

theorem idxOf_equals (hp : 0x3D ∉ p) (hnumber : 0x3D ∉ number) :
    (p ++ (number ++ 0x3D :: tail)).idxOf? 0x3D = some (p.length + number.length) := by
  rw [← List.append_assoc, ← List.length_append, List.idxOf?_eq_some_iff]
  have hlt : (p ++ number).length < (p ++ number ++ 0x3D :: tail).length := by
    simp only [List.length_append, List.length_cons]
    omega
  refine ⟨hlt, by rw [List.getElem_append_right (Nat.le_refl _)]; simp, fun j hj heq => ?_⟩
  rw [List.getElem_append_left hj] at heq
  have hmem := heq ▸ List.getElem_mem hj
  exact (List.mem_append.mp hmem).elim hp hnumber

/-- The argument is split at its first equals sign. -/
theorem equals_cases (hp : 0x3D ∉ p) : (p ++ rest).idxOf? 0x3D = none ∨
    ∃ number tail, rest = number ++ 0x3D :: tail ∧
      (p ++ rest).idxOf? 0x3D = some (p.length + number.length) := by
  by_cases hmem : 0x3D ∈ rest
  · obtain ⟨number, tail, rfl, hnumber⟩ := List.eq_append_cons_of_mem hmem
    exact .inr ⟨number, tail, rfl, idxOf_equals hp hnumber⟩
  · exact .inl (List.idxOf?_eq_none_iff.mpr fun h => (List.mem_append.mp h).elim hp hmem)

theorem WritesDecimal.no_equals {n : Nat} (h : WritesDecimal number n) : 0x3D ∉ number := by
  intro hmem
  exact absurd (h.2.1 _ hmem).2 (by decide)

theorem drop_behind_equals :
    (p ++ (number ++ 0x3D :: tail)).drop (p.length + number.length + 1) = tail := by
  rw [← List.append_assoc, ← List.length_append, List.drop_append,
    List.drop_eq_nil_of_le (by omega)]
  simp

/-- The number of a slot is read exactly where it is written, and gives the index of the slot. -/
theorem slotNumber_iff {slot : Fin catalogSlots} :
    (∃ n, parseDecimal number 120 = some n ∧ n ≠ 0 ∧ n.toNat - 1 = slot) ↔
      WritesDecimal number (slot + 1) := by
  have hslots : (slot : Nat) < 120 := slot.isLt
  constructor
  · rintro ⟨n, hread, hzero, hslot⟩
    have hpos : n.toNat ≠ 0 := fun h => hzero (UInt64.toNat_inj.mp h)
    have hwrites := (parseDecimal_iff.mp hread).1
    rwa [show n.toNat = slot + 1 by omega] at hwrites
  · intro h
    have hsucc : (UInt64.ofNat (slot + 1)).toNat = slot + 1 := by
      rw [UInt64.toNat_ofNat', Nat.mod_eq_of_lt (by omega)]
    refine ⟨UInt64.ofNat (slot + 1), ?_, fun hzero => ?_, by rw [hsucc, Nat.add_sub_cancel]⟩
    · rw [parseDecimal_iff, hsucc, UInt64.le_iff_toNat_le, hsucc]
      exact ⟨h, Nat.succ_le_of_lt hslots⟩
    · rw [hzero] at hsucc
      cases hsucc

/-- So is the value of a byte. -/
theorem byteValue_iff {value : UInt8} :
    (∃ n, parseDecimal tail 255 = some n ∧ n.toUInt8 = value) ↔ WritesDecimal tail value.toNat := by
  constructor
  · rintro ⟨n, hread, rfl⟩
    obtain ⟨hwrites, hmax⟩ := parseDecimal_iff.mp hread
    have hlt : n.toNat < 2 ^ 8 := Nat.lt_succ_of_le (UInt64.le_iff_toNat_le.mp hmax)
    rwa [UInt64.toNat_toUInt8, Nat.mod_eq_of_lt hlt]
  · intro h
    refine ⟨value.toUInt64, ?_, UInt8.toUInt8_toUInt64 value⟩
    rw [parseDecimal_iff, UInt8.toNat_toUInt64, UInt64.le_iff_toNat_le, UInt8.toNat_toUInt64]
    exact ⟨h, Nat.le_of_lt_succ value.toNat_lt⟩

theorem parseOverrideSlot_iff {slot : Fin catalogSlots} :
    parseOverrideSlot (p ++ (number ++ 0x3D :: tail)) p.length (p.length + number.length) =
      some slot ↔ WritesDecimal number (slot + 1) := by
  have hnumber : slice (p ++ (number ++ 0x3D :: tail)) p.length
      (p.length + number.length - p.length) = number := by
    rw [slice, List.drop_left, Nat.add_sub_cancel_left, List.take_left]
  rw [← slotNumber_iff, parseOverrideSlot]
  split
  case isFalse hempty =>
    refine iff_of_false (by rintro ⟨⟩) ?_
    rintro ⟨n, hread, _⟩
    have hpos := List.length_pos_iff.mpr (parseDecimal_iff.mp hread).1.1
    omega
  case isTrue =>
    split
    case h_1 hnone =>
      rw [hnumber] at hnone
      rw [hnone]
      exact iff_of_false (by rintro ⟨⟩) (by rintro ⟨_, ⟨⟩, _⟩)
    case h_2 n hsome =>
      rw [hnumber] at hsome
      simp only [hsome, Option.some.injEq, exists_eq_left']
      split
      case isTrue hzero => exact iff_of_false (by rintro ⟨⟩) fun h => h.1 hzero
      case isFalse hzero =>
        rw [Option.some.injEq, Fin.ext_iff]
        exact (and_iff_right hzero).symm

/-- A branch that goes on behind the slot number. -/
theorem behindSlot_iff {α : Type} {e : RejectedArgument} {slot : Fin catalogSlots} {a : α}
    {rest : Fin catalogSlots → Except RejectedArgument (Fin catalogSlots × α)} {Good : Prop}
    (hrest : ∀ found, rest found = .ok (slot, a) ↔ found = slot ∧ Good) :
    (match parseOverrideSlot (p ++ (number ++ 0x3D :: tail)) p.length
        (p.length + number.length) with
      | none => Except.error e
      | some found => rest found) = .ok (slot, a) ↔ WritesDecimal number (slot + 1) ∧ Good := by
  rw [← @parseOverrideSlot_iff p number tail]
  cases parseOverrideSlot (p ++ (number ++ 0x3D :: tail)) p.length (p.length + number.length) with
  | none => exact iff_of_false (by rintro ⟨⟩) (by rintro ⟨⟨⟩, _⟩)
  | some found =>
    rw [Option.some.injEq]
    exact hrest found

/-- What an override branch makes of an argument is settled by what it makes of a number and a value
with an equals sign between them. -/
theorem override_iff {α : Type} {parse : Bytes → Except RejectedArgument α} {a : α}
    {Good : Bytes → Bytes → Prop} (hp : 0x3D ∉ p)
    (hnone : (p ++ rest).idxOf? 0x3D = none → parse (p ++ rest) ≠ .ok a)
    (hsplit : ∀ number tail, (p ++ (number ++ 0x3D :: tail)).idxOf? 0x3D =
        some (p.length + number.length) →
      (parse (p ++ (number ++ 0x3D :: tail)) = .ok a ↔ Good number tail))
    (hgood : ∀ number tail, Good number tail → 0x3D ∉ number) :
    parse (p ++ rest) = .ok a ↔
      ∃ number tail, rest = number ++ 0x3D :: tail ∧ Good number tail := by
  constructor
  · intro h
    obtain hno | ⟨number, tail, rfl, hequals⟩ := @equals_cases p rest hp
    · exact absurd h (hnone hno)
    · exact ⟨number, tail, rfl, (hsplit number tail hequals).mp h⟩
  · rintro ⟨number, tail, rfl, h⟩
    exact (hsplit number tail (idxOf_equals hp (hgood number tail h))).mpr h

theorem parseTitle_iff {slot : Fin catalogSlots} {title : Bytes} :
    parseTitle (ascii "--title" ++ rest) = .ok (slot, title) ↔
      ∃ number tail, rest = number ++ 0x3D :: tail ∧ WritesDecimal number (slot + 1) ∧
        tail = title ∧ validMenuTitle title = true := by
  have hlen : (ascii "--title").length = 7 := by decide
  refine override_iff (by decide) ?_ ?_ fun number tail h => h.1.no_equals
  · intro hnone
    rw [parseTitle, hnone]
    rintro ⟨⟩
  · intro number tail hequals
    rw [parseTitle, hequals]
    dsimp only
    rw [drop_behind_equals, ← hlen]
    refine behindSlot_iff fun found => ?_
    split
    case isTrue hbad =>
      refine iff_of_false (by rintro ⟨⟩) ?_
      rintro ⟨_, rfl, htitle⟩
      rw [htitle] at hbad
      cases hbad
    case isFalse hvalid =>
      rw [Except.ok.injEq, Prod.mk.injEq]
      refine and_congr_right fun _ => ⟨?_, And.left⟩
      rintro rfl
      exact ⟨rfl, by simpa using hvalid⟩

theorem parseByteOverride_iff {kind : String} {slot : Fin catalogSlots} {value : UInt8}
    (hp : 0x3D ∉ p) :
    parseByteOverride p.length kind (p ++ rest) = .ok (slot, value) ↔
      ∃ number tail, rest = number ++ 0x3D :: tail ∧ WritesDecimal number (slot + 1) ∧
        WritesDecimal tail value.toNat := by
  refine override_iff hp ?_ ?_ fun number tail h => h.1.no_equals
  · intro hnone
    rw [parseByteOverride, hnone]
    rintro ⟨⟩
  · intro number tail hequals
    rw [parseByteOverride, hequals]
    dsimp only
    split
    case isTrue hempty =>
      refine iff_of_false (by rintro ⟨⟩) ?_
      rintro ⟨⟨hnumber, _⟩, htail, _⟩
      have hpos := List.length_pos_iff.mpr hnumber
      have hpos' := List.length_pos_iff.mpr htail
      simp only [List.length_append, List.length_cons] at hempty
      omega
    case isFalse =>
      rw [drop_behind_equals]
      refine behindSlot_iff fun found => ?_
      rw [← byteValue_iff]
      cases parseDecimal tail 255 with
      | none => exact iff_of_false (by rintro ⟨⟩) (by rintro ⟨_, _, ⟨⟩, _⟩)
      | some n =>
        simp only [Option.some.injEq, exists_eq_left', Except.ok.injEq, Prod.mk.injEq]

end Override

/-! ## The step of the loop -/

section Step

variable {options options' : WriterOptions} {p rest text : Bytes}

theorem startsWith_iff {pattern : String} :
    startsWith text pattern = true ↔ ∃ rest, text = ascii pattern ++ rest := by
  rw [startsWith, List.isPrefixOf_iff_prefix]
  exact exists_congr fun rest => eq_comm

/-- A text that goes on from `p` does not start with a pattern that does not. -/
theorem not_startsWith {pattern : String} (hlen : p.length ≤ (ascii pattern).length)
    (hp : ¬ p <+: ascii pattern) : ¬ startsWith (p ++ rest) pattern = true := by
  rw [startsWith, List.isPrefixOf_iff_prefix]
  exact fun h => hp (List.prefix_of_prefix_length_le (List.prefix_append p rest) h hlen)

theorem ne_flag {flag : WriterFlag} (hp : ¬ p <+: flag.text) : p ++ rest ≠ flag.text := by
  intro h
  exact hp (h ▸ List.prefix_append p rest)

theorem parseArgument_flag (flag : WriterFlag) :
    parseArgument options flag.text = .ok ((WriterArgument.flag flag).apply options) := by
  cases flag with
  | write => rw [parseArgument, if_pos (by rfl)]; rfl
  | skipVerify => rw [parseArgument, if_neg (by decide), if_pos (by rfl)]; rfl
  | verbose => rw [parseArgument, if_neg (by decide), if_neg (by decide), if_pos (by rfl)]; rfl
  | experimentalDirectBoot =>
    rw [parseArgument, if_neg (by decide), if_neg (by decide), if_neg (by decide), if_pos (by rfl)]
    rfl

/-- The tests behind the flags. -/
theorem parseArgument_other (hflag : ∀ flag : WriterFlag, text ≠ flag.text) :
    parseArgument options text =
      if startsWith text "--title" then
        (parseTitle text).map fun found => options.setTitle found.1 found.2
      else if startsWith text "--type" then
        (parseByteOverride 6 "type" text).map fun found => options.setType found.1 found.2
      else if startsWith text "--map" then
        (parseByteOverride 5 "mapping" text).map fun found => options.setMapping found.1 found.2
      else if text.head? = some 0x2D then
        .error ⟨true, ascii "Unknown option: " ++ text ++ ascii "\n"⟩
      else .ok { options with romPaths := options.romPaths ++ [text] } := by
  have hwrite : text ≠ ascii "--yes-really-write" := hflag .write
  have hskip : text ≠ ascii "--skip-verify" := hflag .skipVerify
  have hverbose : text ≠ ascii "--verbose" := hflag .verbose
  have hdirect : text ≠ ascii "--experimental-direct-boot" := hflag .experimentalDirectBoot
  rw [parseArgument, if_neg hwrite, if_neg hskip, if_neg hverbose, if_neg hdirect]

theorem parseArgument_title : parseArgument options (ascii "--title" ++ rest) =
    (parseTitle (ascii "--title" ++ rest)).map fun found => options.setTitle found.1 found.2 := by
  rw [parseArgument_other fun flag => ne_flag (by cases flag <;> decide),
    if_pos (startsWith_iff.mpr ⟨rest, rfl⟩)]

theorem parseArgument_type : parseArgument options (ascii "--type" ++ rest) =
    (parseByteOverride 6 "type" (ascii "--type" ++ rest)).map fun found =>
      options.setType found.1 found.2 := by
  rw [parseArgument_other fun flag => ne_flag (by cases flag <;> decide),
    if_neg (not_startsWith (by decide) (by decide)), if_pos (startsWith_iff.mpr ⟨rest, rfl⟩)]

theorem parseArgument_mapping : parseArgument options (ascii "--map" ++ rest) =
    (parseByteOverride 5 "mapping" (ascii "--map" ++ rest)).map fun found =>
      options.setMapping found.1 found.2 := by
  rw [parseArgument_other fun flag => ne_flag (by cases flag <;> decide),
    if_neg (not_startsWith (by decide) (by decide)),
    if_neg (not_startsWith (by decide) (by decide)), if_pos (startsWith_iff.mpr ⟨rest, rfl⟩)]

theorem parseArgument_path (hdash : text.head? ≠ some 0x2D) :
    parseArgument options text = .ok ((WriterArgument.path text).apply options) := by
  have hno : ∀ pattern : String, (ascii pattern).head? = some 0x2D →
      ¬ startsWith text pattern = true := by
    intro pattern hpattern h
    obtain ⟨rest, rfl⟩ := startsWith_iff.mp h
    rw [List.head?_append, hpattern] at hdash
    exact hdash rfl
  have hflag : ∀ flag : WriterFlag, text ≠ flag.text := by
    rintro flag rfl
    exact hdash (by cases flag <;> decide)
  rw [parseArgument_other hflag, if_neg (hno _ (by decide)), if_neg (hno _ (by decide)),
    if_neg (hno _ (by decide)), if_neg hdash]
  rfl

theorem override_text {number value : Bytes} :
    p ++ number ++ ascii "=" ++ value = p ++ (number ++ 0x3D :: value) := by
  rw [List.append_assoc, List.append_assoc]
  rfl

theorem map_eq_ok {α β : Type} {found : Except RejectedArgument α} {f : α → β} {b : β} :
    found.map f = .ok b ↔ ∃ a, found = .ok a ∧ b = f a := by
  cases found with
  | error e => exact iff_of_false (by rintro ⟨⟩) (by rintro ⟨_, ⟨⟩, _⟩)
  | ok a =>
    constructor
    · rintro ⟨⟩
      exact ⟨a, rfl, rfl⟩
    · rintro ⟨_, ⟨⟩, rfl⟩
      rfl

/-- An argument that is spelled as it should be is applied. -/
theorem parseArgument_of_spells {a : WriterArgument} (h : Spells a text) :
    parseArgument options text = .ok (a.apply options) := by
  cases h with
  | flag flag => exact parseArgument_flag flag
  | @title slot number title hslot hpos hlen hprintable =>
    rw [override_text, parseArgument_title, map_eq_ok]
    refine ⟨(slot, title), parseTitle_iff.mpr ⟨number, title, rfl, hslot, rfl, ?_⟩, rfl⟩
    exact validMenuTitle_iff.mpr ⟨hpos, hlen, hprintable⟩
  | @type slot number text value hslot hvalue =>
    rw [override_text, parseArgument_type, map_eq_ok]
    exact ⟨(slot, value), (@parseByteOverride_iff (ascii "--type") _ _ _ _ (by decide)).mpr
      ⟨number, text, rfl, hslot, hvalue⟩, rfl⟩
  | @mapping slot number text value hslot hvalue =>
    rw [override_text, parseArgument_mapping, map_eq_ok]
    exact ⟨(slot, value), (@parseByteOverride_iff (ascii "--map") _ _ _ _ (by decide)).mpr
      ⟨number, text, rfl, hslot, hvalue⟩, rfl⟩
  | path hdash => exact parseArgument_path hdash

/-- The loop goes on exactly behind an argument that is spelled as it should be, and applies it. -/
theorem parseArgument_iff : parseArgument options text = .ok options' ↔
    ∃ a, Spells a text ∧ options' = a.apply options := by
  refine ⟨fun h => ?_, ?_⟩
  · by_cases hflag : ∃ flag : WriterFlag, text = flag.text
    · obtain ⟨flag, rfl⟩ := hflag
      rw [parseArgument_flag, Except.ok.injEq] at h
      exact ⟨_, .flag flag, h.symm⟩
    by_cases htitle : startsWith text "--title" = true
    · obtain ⟨rest, rfl⟩ := startsWith_iff.mp htitle
      rw [parseArgument_title, map_eq_ok] at h
      obtain ⟨⟨slot, title⟩, hfound, rfl⟩ := h
      obtain ⟨number, _, rfl, hslot, rfl, hvalid⟩ := parseTitle_iff.mp hfound
      obtain ⟨hpos, hlen, hprintable⟩ := validMenuTitle_iff.mp hvalid
      refine ⟨.title slot _, ?_, rfl⟩
      rw [← override_text]
      exact .title hslot hpos hlen hprintable
    by_cases htype : startsWith text "--type" = true
    · obtain ⟨rest, rfl⟩ := startsWith_iff.mp htype
      rw [parseArgument_type, map_eq_ok] at h
      obtain ⟨⟨slot, value⟩, hfound, rfl⟩ := h
      obtain ⟨number, _, rfl, hslot, hvalue⟩ :=
        (@parseByteOverride_iff (ascii "--type") _ _ _ _ (by decide)).mp hfound
      refine ⟨.type slot value, ?_, rfl⟩
      rw [← override_text]
      exact .type hslot hvalue
    by_cases hmap : startsWith text "--map" = true
    · obtain ⟨rest, rfl⟩ := startsWith_iff.mp hmap
      rw [parseArgument_mapping, map_eq_ok] at h
      obtain ⟨⟨slot, value⟩, hfound, rfl⟩ := h
      obtain ⟨number, _, rfl, hslot, hvalue⟩ :=
        (@parseByteOverride_iff (ascii "--map") _ _ _ _ (by decide)).mp hfound
      refine ⟨.mapping slot value, ?_, rfl⟩
      rw [← override_text]
      exact .mapping hslot hvalue
    by_cases hdash : text.head? = some 0x2D
    · rw [parseArgument_other (not_exists.mp hflag), if_neg htitle, if_neg htype, if_neg hmap,
        if_pos hdash] at h
      cases h
    · rw [parseArgument_path hdash, Except.ok.injEq] at h
      exact ⟨_, .path hdash, h.symm⟩
  · rintro ⟨a, ha, rfl⟩
    exact parseArgument_of_spells ha

end Step

/-! ## The command line -/

section CommandLine

variable {argv : List Bytes} {options options' : WriterOptions}

theorem parse_ok_iff : (parse argv options).result.ok = true ↔
    readAll parseArgument argv.tail options = .ok (parse argv options).options := by
  rw [parse]
  cases readAll parseArgument argv.tail options with
  | error e => exact iff_of_false (by rintro ⟨⟩) (by rintro ⟨⟩)
  | ok options' => exact iff_of_true rfl rfl

/-- One table of overrides: an argument that names the slot sets it, and no other argument does. -/
theorem parse_lastGiven {β : Type} {field : WriterOptions → Option β} {named : β → WriterArgument}
    (hset : ∀ options v, field ((named v).apply options) = some v)
    (hkeep : ∀ options a, (∀ v, a ≠ named v) → field (a.apply options) = field options)
    (h : readAll parseArgument argv.tail options = .ok options') :
    LastGiven (fun text v => Spells (named v) text) argv.tail (field options) (field options') := by
  refine readAll_lastGiven (fun s text s' v hstep hspells => ?_) (fun s text s' hstep hno => ?_) h
  · rw [parseArgument_of_spells hspells, Except.ok.injEq] at hstep
    rw [← hstep]
    exact hset s v
  · obtain ⟨a, hspells, rfl⟩ := parseArgument_iff.mp hstep
    refine hkeep s a fun v hv => ?_
    rw [hv] at hspells
    exact hno v hspells

theorem getElem_set_slot {α : Type} {table : Vector (Option α) catalogSlots}
    {slot other : Fin catalogSlots} {v : α} :
    (table.set slot (some v))[other] = if slot = other then some v else table[other] := by
  rw [Fin.getElem_fin, Fin.getElem_fin, Vector.getElem_set]
  simp only [Fin.ext_iff]

theorem titleOverrides_kept {a : WriterArgument} {slot : Fin catalogSlots}
    (h : ∀ v, a ≠ .title slot v) :
    (a.apply options).titleOverrides[slot] = options.titleOverrides[slot] := by
  cases a with
  | flag flag => cases flag <;> rfl
  | title other v => exact getElem_set_slot.trans (if_neg fun heq => h v (by rw [heq]))
  | type => rfl
  | mapping => rfl
  | path => rfl

theorem typeOverrides_kept {a : WriterArgument} {slot : Fin catalogSlots}
    (h : ∀ v, a ≠ .type slot v) :
    (a.apply options).typeOverrides[slot] = options.typeOverrides[slot] := by
  cases a with
  | flag flag => cases flag <;> rfl
  | title => rfl
  | type other v => exact getElem_set_slot.trans (if_neg fun heq => h v (by rw [heq]))
  | mapping => rfl
  | path => rfl

theorem mappingOverrides_kept {a : WriterArgument} {slot : Fin catalogSlots}
    (h : ∀ v, a ≠ .mapping slot v) :
    (a.apply options).mappingOverrides[slot] = options.mappingOverrides[slot] := by
  cases a with
  | flag flag => cases flag <;> rfl
  | title => rfl
  | type => rfl
  | mapping other v => exact getElem_set_slot.trans (if_neg fun heq => h v (by rw [heq]))
  | path => rfl

/-- Exactly the arguments that start with no dash are paths. -/
theorem parseArgument_romPaths {text : Bytes} (h : parseArgument options text = .ok options') :
    options'.romPaths = options.romPaths ++ [text].filter fun path => path.head? != some 0x2D := by
  have hdrop : ∀ {path : Bytes}, path.head? = some 0x2D →
      [path].filter (fun path => path.head? != some 0x2D) = [] := by
    intro path hpath
    rw [List.filter_cons, hpath]
    rfl
  have hdashed : ∀ (pattern : String) (rest : Bytes), (ascii pattern).head? = some 0x2D →
      (ascii pattern ++ rest).head? = some 0x2D := by
    intro pattern rest hpattern
    rw [List.head?_append, hpattern]
    rfl
  obtain ⟨a, hspells, rfl⟩ := parseArgument_iff.mp h
  cases hspells with
  | flag flag =>
    cases flag <;> (rw [hdrop (by decide), List.append_nil]; rfl)
  | title =>
    rw [override_text, hdrop (hdashed _ _ (by decide)), List.append_nil]
    rfl
  | type =>
    rw [override_text, hdrop (hdashed _ _ (by decide)), List.append_nil]
    rfl
  | mapping =>
    rw [override_text, hdrop (hdashed _ _ (by decide)), List.append_nil]
    rfl
  | path hdash =>
    rw [List.filter_cons, if_pos (by simpa using hdash)]
    rfl

/-- The field that a flag sets. -/
def WriterFlag.given (options : WriterOptions) : WriterFlag → Bool
  | .write => options.write
  | .skipVerify => options.skipVerify
  | .verbose => options.verbose
  | .experimentalDirectBoot => options.experimentalDirectBoot

theorem WriterFlag.given_apply {flag : WriterFlag} {a : WriterArgument} :
    flag.given (a.apply options) = true ↔ flag.given options = true ∨ a = .flag flag := by
  have hother : flag.given (a.apply options) = flag.given options → a ≠ .flag flag →
      (flag.given (a.apply options) = true ↔ flag.given options = true ∨ a = .flag flag) :=
    fun h hne => by rw [h]; exact (or_iff_left hne).symm
  cases a with
  | flag other =>
    by_cases heq : other = flag
    · obtain rfl := heq
      cases other <;> exact iff_of_true rfl (.inr rfl)
    · refine hother ?_ fun h => heq (by cases h; rfl)
      cases other <;> cases flag <;> first | rfl | exact absurd rfl heq
  | title => cases flag <;> exact hother rfl (fun h => by cases h)
  | type => cases flag <;> exact hother rfl (fun h => by cases h)
  | mapping => cases flag <;> exact hother rfl (fun h => by cases h)
  | path => cases flag <;> exact hother rfl (fun h => by cases h)

theorem Spells.flag_iff {a : WriterArgument} {text : Bytes} {flag : WriterFlag}
    (h : Spells a text) : a = .flag flag ↔ text = flag.text := by
  refine ⟨fun ha => ?_, fun htext => ?_⟩
  · subst ha
    cases h
    rfl
  · have hparsed := @parseArgument_of_spells {} text a h
    rw [htext, parseArgument_flag, Except.ok.injEq] at hparsed
    have hset := (@WriterFlag.given_apply {} flag (.flag flag)).mpr (.inr rfl)
    rw [hparsed, WriterFlag.given_apply] at hset
    exact hset.resolve_left (by cases flag <;> decide)

/-- A flag is set exactly where it stands on the command line. -/
theorem given_iff (flag : WriterFlag) (h : readAll parseArgument argv.tail {} = .ok options) :
    flag.given options = true ↔ flag.text ∈ argv.tail := by
  rw [@readAll_flag _ _ _ _ _ _ _ flag.given (· = flag.text) (fun s text s' hstep => ?_) h]
  · exact ⟨fun hset => hset.elim (fun h => by cases flag <;> cases h)
      fun ⟨_, hmem, heq⟩ => heq ▸ hmem, fun hmem => .inr ⟨_, hmem, rfl⟩⟩
  · obtain ⟨a, hspells, rfl⟩ := parseArgument_iff.mp hstep
    rw [WriterFlag.given_apply, hspells.flag_iff]

/-- A title that was given is a valid one. -/
theorem titleOverrides_valid (h : readAll parseArgument argv.tail {} = .ok options) {i : Nat}
    {title : Bytes} (htitle : options.titleOverrides[i]?.join = some title) :
    validMenuTitle title = true := by
  obtain ⟨hi, hget⟩ := Vector.getElem?_eq_some_iff.mp (Option.join_eq_some_iff.mp htitle)
  let slot : Fin catalogSlots := ⟨i, hi⟩
  have hgiven : options.titleOverrides[slot] = some title := hget
  have hlast := @parse_lastGiven argv {} options _ (fun o => o.titleOverrides[slot]) (.title slot)
    (fun _ _ => getElem_set_slot.trans (if_pos rfl)) (fun _ _ => titleOverrides_kept) h
  obtain ⟨_, text, _, v, _, hspells, _, hafter⟩ | ⟨_, hafter⟩ := hlast
  · obtain rfl := Option.some.inj (hgiven.symm.trans hafter)
    cases hspells with
    | title _ hpos hlen hprintable => exact validMenuTitle_iff.mpr ⟨hpos, hlen, hprintable⟩
  · have hnone : ({} : WriterOptions).titleOverrides[slot] = none := Vector.getElem_replicate ..
    cases hgiven.symm.trans (hafter.trans hnone)

/-- Decimal numbers are read exactly up to the maximum, without wrapping. A command line is
accepted if and only if each argument is a flag, an override of a slot with a legal value, or a
path; then each slot has what the last override for it gave, or what it had, and the paths follow
in their order. -/
theorem writer_options_parse (argv : List Bytes) (options : WriterOptions) :
    (∀ (text : Bytes) (maximum v : UInt64),
      parseDecimal text maximum = some v ↔ WritesDecimal text v.toNat ∧ v ≤ maximum) ∧
    ((parse argv options).result.ok = true ↔ ∀ text ∈ argv.tail, ∃ a, Spells a text) ∧
    ((parse argv options).result.ok = true →
      (∀ slot : Fin catalogSlots,
        LastGiven (fun text title => Spells (.title slot title) text) argv.tail
          options.titleOverrides[slot] (parse argv options).options.titleOverrides[slot] ∧
        LastGiven (fun text value => Spells (.type slot value) text) argv.tail
          options.typeOverrides[slot] (parse argv options).options.typeOverrides[slot] ∧
        LastGiven (fun text value => Spells (.mapping slot value) text) argv.tail
          options.mappingOverrides[slot] (parse argv options).options.mappingOverrides[slot]) ∧
      (parse argv options).options.romPaths =
        options.romPaths ++ argv.tail.filter fun path => path.head? != some 0x2D) := by
  refine ⟨fun text maximum v => parseDecimal_iff, ?_, fun hok => ?_⟩
  · rw [← @readAll_accepts _ _ _ parseArgument argv.tail options _ fun s text => ?_]
    · rw [parse]
      cases readAll parseArgument argv.tail options with
      | error e => exact iff_of_false (by rintro ⟨⟩) (by rintro ⟨_, ⟨⟩⟩)
      | ok options' => exact iff_of_true rfl ⟨options', rfl⟩
    · constructor
      · rintro ⟨s', h⟩
        obtain ⟨a, ha, _⟩ := parseArgument_iff.mp h
        exact ⟨a, ha⟩
      · rintro ⟨a, ha⟩
        exact ⟨_, parseArgument_of_spells ha⟩
  · have hread := parse_ok_iff.mp hok
    refine ⟨fun slot => ⟨?_, ?_, ?_⟩, readAll_filter (fun _ _ _ => parseArgument_romPaths) hread⟩
    · exact @parse_lastGiven argv options _ _ (fun o => o.titleOverrides[slot]) (.title slot)
        (fun _ _ => getElem_set_slot.trans (if_pos rfl)) (fun _ _ => titleOverrides_kept) hread
    · exact @parse_lastGiven argv options _ _ (fun o => o.typeOverrides[slot]) (.type slot)
        (fun _ _ => getElem_set_slot.trans (if_pos rfl)) (fun _ _ => typeOverrides_kept) hread
    · exact @parse_lastGiven argv options _ _ (fun o => o.mappingOverrides[slot]) (.mapping slot)
        (fun _ _ => getElem_set_slot.trans (if_pos rfl)) (fun _ _ => mappingOverrides_kept) hread

end CommandLine

end Ezfadvance
