import Mathlib.Data.Nat.Bitwise
import Ezfadvance.Format
import Ezfadvance.Lib.Agreement
import Ezfadvance.Lib.Occurrence

/-!
# EepromMapping

How the builder learns a ROM's EEPROM capacity from its code (`eeprom_mapping.cpp`). Every access to
the vector is checked here, so that an access outside it would be an error.

* `decodeThumbBl`, `findRecentMov`, `findIdentifyEepromFunctions`, `mergeDetection`,
  `detectEepromMapping`: as in the source.
* `ThumbBl`, `NearestMov`, `IdentifyEeprom`, `Evidence`: what these look for.
* `detection_iff`: a known capacity is returned if and only if it is the only one with evidence.
-/

namespace Ezfadvance

open CartridgeFormat Occurrence Agreement

structure OutOfBounds where
  offset : Nat

inductive EepromCapacity where
  | unknown
  | bytes512
  | bytes8192
  deriving DecidableEq

structure EepromMappingDetection where
  capacity : EepromCapacity := .unknown
  evidenceOffset : Nat := 0

namespace EepromMapping

def byteAt (rom : Bytes) (off : Nat) : Except OutOfBounds UInt8 :=
  match rom[off]? with
  | some b => .ok b
  | none => .error ⟨off⟩

def read16 (rom : Bytes) (off : Nat) : Except OutOfBounds UInt16 := do
  let low ← byteAt rom off
  let high ← byteAt rom (off + 1)
  return low.toUInt16 ||| high.toUInt16 <<< 8

/-- The `displacement` of `decodeThumbBl`, sign-extended from 23 bits. -/
def blDisplacement (hi lo : UInt16) : Int32 :=
  let displacement : UInt32 :=
    (hi &&& 0x07FF).toUInt32 <<< 12 ||| (lo &&& 0x07FF).toUInt32 <<< 1
  if displacement &&& 0x00400000 ≠ 0 then (displacement ||| 0xFF800000).toInt32
  else displacement.toInt32

def decodeThumbBl (rom : Bytes) (off : Nat) : Except OutOfBounds (Option Nat) :=
  if off + 4 > rom.length then .ok none
  else do
    let hi ← read16 rom off
    let lo ← read16 rom (off + 2)
    if hi &&& 0xF800 ≠ 0xF000 ∨ lo &&& 0xF800 ≠ 0xF800 then return none
    else
      let destination : Int := off + 4 + (blDisplacement hi lo).toInt
      if destination < 0 ∨ destination ≥ rom.length then return none
      else return some destination.toNat

/-- The loop of `findRecentMov`. -/
def findMovFrom (rom : Bytes) (reg : UInt16) (start off : Nat) :
    Except OutOfBounds (Option UInt8) :=
  if off ≥ start + 2 then do
    let instruction ← read16 rom (off - 2)
    if instruction &&& 0xF800 = 0x2000 ∧ (instruction >>> 8) &&& 7 = reg then
      return some (instruction &&& 0xFF).toUInt8
    else if off = start + 2 then return none
    else findMovFrom rom reg start (off - 2)
  else .ok none
termination_by off
decreasing_by omega

def findRecentMov (rom : Bytes) (call : Nat) (reg : UInt16) : Except OutOfBounds (Option UInt8) :=
  findMovFrom rom reg (if call > 16 then call - 16 else 0) call

def capacityForArgument (argument : UInt8) : EepromCapacity :=
  if argument = 4 then .bytes512
  else if argument = 0x40 then .bytes8192
  else .unknown

/-- `std::search` in `[first, last)`. -/
def search (rom pattern : Bytes) (first last : Nat) : Except OutOfBounds Nat :=
  if first > last then .error ⟨first⟩
  else if last > rom.length then .error ⟨last⟩
  else .ok ((findFrom pattern (rom.take last) first).getD last)

def normalized : Bytes := [0x00, 0x04, 0x00, 0x0C, 0x00, 0x22, 0x04, 0x28]
def largeCompare : Bytes := [0x40, 0x28]

def functionEntry (rom : Bytes) (off : Nat) : Except OutOfBounds Nat :=
  if off ≥ 2 then do
    if (← byteAt rom (off - 2)) = 0x00 then
      if (← byteAt rom (off - 1)) = 0xB5 then return off - 2 else return off
    else return off
  else .ok off

theorem search_bounds {rom pattern : Bytes} {first last off : Nat}
    (h : search rom pattern first last = .ok off) : first ≤ off ∧ off ≤ last := by
  rw [search] at h
  split at h
  · cases h
  split at h
  · cases h
  · rw [Except.ok.injEq] at h
    cases hfind : findFrom pattern (rom.take last) first with
    | none =>
      rw [hfind] at h
      obtain rfl : last = off := h
      omega
    | some j =>
      rw [hfind] at h
      obtain rfl : j = off := h
      obtain ⟨hge, hend, _⟩ := findFrom_eq_some hfind
      rw [List.length_take] at hend
      omega

/-- The loop of `findIdentifyEepromFunctions`. -/
def findIdentifyFrom (rom : Bytes) (it : Nat) : Except OutOfBounds (List Nat) :=
  match hsearch : search rom normalized it rom.length with
  | .error e => .error e
  | .ok off =>
    if hfound : off = rom.length then .ok []
    else do
      let stop := min rom.length (off + 48)
      let large ← search rom largeCompare (off + normalized.length) stop
      if large ≠ stop then
        let entry ← functionEntry rom off
        let entries ← findIdentifyFrom rom (off + 1)
        return entry :: entries
      else findIdentifyFrom rom (off + 1)
termination_by rom.length + 1 - it
decreasing_by
  all_goals
    have := search_bounds hsearch
    omega

def findIdentifyEepromFunctions (rom : Bytes) : Except OutOfBounds (List Nat) :=
  findIdentifyFrom rom 0

/-- The state of `detectEepromMapping`: its result and its `conflict`. -/
structure Merge where
  result : EepromMappingDetection := {}
  conflict : Bool := false

def mergeDetection (merge : Merge) (capacity : EepromCapacity) (evidence : Nat) : Merge :=
  if capacity = .unknown ∨ merge.conflict = true then merge
  else if merge.result.capacity = .unknown then
    { merge with result := { capacity := capacity, evidenceOffset := evidence } }
  else if merge.result.capacity ≠ capacity then { result := {}, conflict := true }
  else merge

structure Call where
  offset : Nat
  target : Nat

/-- The calls from `off` on. -/
def findCallsFrom (rom : Bytes) (off : Nat) : Except OutOfBounds (List Call) :=
  if off + 4 ≤ rom.length then do
    let found ← decodeThumbBl rom off
    let calls ← findCallsFrom rom (off + 2)
    match found with
    | some target => return { offset := off, target := target } :: calls
    | none => return calls
  else .ok []
termination_by rom.length - off
decreasing_by omega

/-- The body of the loop over the callers of the wrapper around `direct`. -/
def followOuter (rom : Bytes) (direct : Call) (merge : Merge) (outer : Call) :
    Except OutOfBounds Merge :=
  let wrapperBegin := if direct.offset > 64 then direct.offset - 64 else 0
  if outer.target < wrapperBegin ∨ outer.target > direct.offset then .ok merge
  else do
    match ← findRecentMov rom outer.offset 0 with
    | none => return merge
    | some mode =>
      if mode = 3 then
        match ← findRecentMov rom outer.offset 1 with
        | none => return merge
        | some wrappedArgument =>
          return mergeDetection merge (capacityForArgument wrappedArgument) outer.offset
      else return merge

/-- The body of the loop over the calls. -/
def followDirect (rom : Bytes) (calls : List Call) (identifier : Nat) (merge : Merge)
    (direct : Call) : Except OutOfBounds Merge :=
  if direct.target ≠ identifier then .ok merge
  else do
    let merge ← match ← findRecentMov rom direct.offset 0 with
      | none => pure merge
      | some argument => pure (mergeDetection merge (capacityForArgument argument) direct.offset)
    calls.foldlM (followOuter rom direct) merge

end EepromMapping

open EepromMapping

def detectEepromMapping (rom : Bytes) : Except OutOfBounds EepromMappingDetection := do
  let identifiers ← findIdentifyEepromFunctions rom
  if identifiers.isEmpty then return {}
  else
    let calls ← findCallsFrom rom 0
    let merge ← identifiers.foldlM
      (fun merge identifier => calls.foldlM (followDirect rom calls identifier) merge) {}
    return merge.result

namespace EepromMapping

/-! ## What the scans look for -/

/-- A 23-bit two's-complement number. -/
def signed23 (d : Nat) : Int := if d < 2 ^ 22 then d else d - 2 ^ 23

/-- A Thumb `BL` at an even offset, with its target inside the ROM. -/
structure ThumbBl (rom : Bytes) (off target : Nat) : Prop where
  even : 2 ∣ off
  fits : off + 4 ≤ rom.length
  high : readLe16 rom off &&& 0xF800 = 0xF000
  low : readLe16 rom (off + 2) &&& 0xF800 = 0xF800
  reaches : (target : Int) = off + 4 + signed23
    ((readLe16 rom off).toNat % 2 ^ 11 * 2 ^ 12 + (readLe16 rom (off + 2)).toNat % 2 ^ 11 * 2)
  inside : target < rom.length

/-- `movs reg, #value`. -/
def IsMov (reg : UInt16) (instruction : UInt16) : Prop :=
  instruction &&& 0xF800 = 0x2000 ∧ (instruction >>> 8) &&& 7 = reg

/-- The nearest `movs reg` in the 16 bytes before `call` loads `value`. -/
def NearestMov (rom : Bytes) (call : Nat) (reg : UInt16) (value : UInt8) : Prop :=
  ∃ k, 1 ≤ k ∧ k ≤ 8 ∧ 2 * k ≤ call ∧ IsMov reg (readLe16 rom (call - 2 * k)) ∧
    (readLe16 rom (call - 2 * k)).toUInt8 = value ∧
    ∀ j, 1 ≤ j → j < k → ¬ IsMov reg (readLe16 rom (call - 2 * j))

/-- The normalization at `off`, with the comparison with 0x40 before `off + 48`. -/
def NormalizesAt (rom : Bytes) (off : Nat) : Prop :=
  OccursAt normalized rom off ∧
    ∃ j, off + 8 ≤ j ∧ j + 2 ≤ off + 48 ∧ OccursAt largeCompare rom j

/-- The normalization at `off` itself, or the `B500` push before it. -/
def entryOf (rom : Bytes) (off : Nat) : Nat :=
  if 2 ≤ off ∧ readLe16 rom (off - 2) = 0xB500 then off - 2 else off

/-- The entry of an `IdentifyEeprom` function. -/
def IdentifyEeprom (rom : Bytes) (entry : Nat) : Prop :=
  ∃ off, NormalizesAt rom off ∧ entry = entryOf rom off

/-- Code that proves a capacity. -/
inductive Evidence (rom : Bytes) : EepromCapacity → Prop where
  | direct {call entry : Nat} {argument : UInt8} (bl : ThumbBl rom call entry)
      (identify : IdentifyEeprom rom entry) (mov : NearestMov rom call 0 argument)
      (known : capacityForArgument argument ≠ .unknown) :
      Evidence rom (capacityForArgument argument)
  | wrapped {outer target call entry : Nat} {argument : UInt8} (caller : ThumbBl rom outer target)
      (above : call - 64 ≤ target) (below : target ≤ call) (bl : ThumbBl rom call entry)
      (identify : IdentifyEeprom rom entry) (mode : NearestMov rom outer 0 3)
      (mov : NearestMov rom outer 1 argument) (known : capacityForArgument argument ≠ .unknown) :
      Evidence rom (capacityForArgument argument)

/-! ## Reads inside the vector -/

theorem toNat_and_2047 (x : UInt16) : (x &&& 0x07FF).toNat = x.toNat % 2 ^ 11 := by
  rw [UInt16.toNat_and]
  exact Nat.and_two_pow_sub_one_eq_mod x.toNat 11

theorem toInt_toInt32 {x : UInt32} (h : x.toNat < 2 ^ 31) : x.toInt32.toInt = x.toNat := by
  show x.toBitVec.toInt = _
  rw [BitVec.toInt_eq_toNat_of_lt]
  · rfl
  · show 2 * x.toNat < 2 ^ 32
    omega

theorem toInt_toInt32_neg {x : UInt32} (h : 2 ^ 31 ≤ x.toNat) : x.toInt32.toInt = x.toNat - 2 ^ 32 := by
  show x.toBitVec.toInt = _
  rw [BitVec.toInt_eq_toNat_cond, if_neg]
  · rfl
  · show ¬ 2 * x.toNat < 2 ^ 32
    omega

/-- The two 11-bit halves of a displacement do not overlap. -/
theorem toNat_halves {hi lo : UInt32} (hhi : hi.toNat < 2 ^ 11) (hlo : lo.toNat < 2 ^ 11) :
    (hi <<< 12 ||| lo <<< 1).toNat = hi.toNat * 2 ^ 12 + lo.toNat * 2 := by
  have hhigh : (hi <<< 12).toNat = hi.toNat <<< 12 := by
    rw [UInt32.toNat_shiftLeft]
    refine Nat.mod_eq_of_lt ?_
    show hi.toNat <<< 12 < _
    rw [Nat.shiftLeft_eq]
    omega
  have hlow : (lo <<< 1).toNat = lo.toNat <<< 1 := by
    rw [UInt32.toNat_shiftLeft]
    refine Nat.mod_eq_of_lt ?_
    show lo.toNat <<< 1 < _
    rw [Nat.shiftLeft_eq]
    omega
  rw [UInt32.toNat_or, hhigh, hlow,
    ← Nat.shiftLeft_add_eq_or_of_lt (by rw [Nat.shiftLeft_eq]; omega), Nat.shiftLeft_eq,
    Nat.shiftLeft_eq]

theorem toInt_blDisplacement (hi lo : UInt16) : (blDisplacement hi lo).toInt =
    signed23 (hi.toNat % 2 ^ 11 * 2 ^ 12 + lo.toNat % 2 ^ 11 * 2) := by
  have hhi := toNat_and_2047 hi
  have hlo := toNat_and_2047 lo
  rw [← hhi, ← hlo]
  have hor := @toNat_halves (hi &&& 0x07FF).toUInt32 (lo &&& 0x07FF).toUInt32
    (by rw [UInt16.toNat_toUInt32, hhi]; omega) (by rw [UInt16.toNat_toUInt32, hlo]; omega)
  rw [UInt16.toNat_toUInt32, UInt16.toNat_toUInt32] at hor
  generalize hd : (hi &&& 0x07FF).toNat * 2 ^ 12 + (lo &&& 0x07FF).toNat * 2 = d at hor ⊢
  have hd : d < 2 ^ 23 := by omega
  rw [blDisplacement]
  generalize (hi &&& 0x07FF).toUInt32 <<< 12 ||| (lo &&& 0x07FF).toUInt32 <<< 1 = x at hor
  have hsign : x &&& 0x00400000 ≠ 0 ↔ 2 ^ 22 ≤ d := by
    rw [Ne, ← UInt32.toNat_inj, UInt32.toNat_and, hor]
    show ¬ d &&& 2 ^ 22 = 0 ↔ _
    rw [Nat.and_two_pow, Nat.testBit_eq_decide_div_mod_eq]
    by_cases h : 2 ^ 22 ≤ d
    · rw [decide_eq_true (by omega)]
      simpa using h
    · rw [decide_eq_false (by omega)]
      simpa using h
  by_cases h : 2 ^ 22 ≤ d
  · have hext : (x ||| 0xFF800000).toNat = d + 511 * 2 ^ 23 := by
      rw [UInt32.toNat_or, hor]
      show d ||| 511 <<< 23 = _
      rw [Nat.or_comm, ← Nat.shiftLeft_add_eq_or_of_lt hd, Nat.shiftLeft_eq, Nat.add_comm]
    rw [if_pos (hsign.mpr h), toInt_toInt32_neg (by omega), hext, signed23, if_neg (by omega)]
    omega
  · rw [if_neg (fun h' => h (hsign.mp h')), toInt_toInt32 (by omega), hor, signed23,
      if_pos (by omega)]
theorem toUInt8_and_255 (x : UInt16) : (x &&& 0xFF).toUInt8 = x.toUInt8 := by
  rw [← UInt8.toNat_inj, UInt16.toNat_toUInt8, UInt16.toNat_toUInt8, UInt16.toNat_and]
  show (x.toNat &&& (2 ^ 8 - 1)) % 2 ^ 8 = _
  rw [Nat.and_two_pow_sub_one_eq_mod, Nat.mod_mod]

theorem halfword_eq_iff {low high : UInt8} :
    low.toUInt16 ||| high.toUInt16 <<< 8 = 0xB500 ↔ low = 0x00 ∧ high = 0xB5 := by
  have hlow := low.toNat_lt
  have hhigh := high.toNat_lt
  have hword : (low.toUInt16 ||| high.toUInt16 <<< 8).toNat = high.toNat * 2 ^ 8 + low.toNat := by
    rw [UInt16.toNat_or, UInt16.toNat_shiftLeft, UInt8.toNat_toUInt16, UInt8.toNat_toUInt16]
    show low.toNat ||| high.toNat <<< 8 % 2 ^ 16 = _
    rw [Nat.mod_eq_of_lt (by rw [Nat.shiftLeft_eq]; omega), Nat.or_comm,
      ← Nat.shiftLeft_add_eq_or_of_lt (by omega), Nat.shiftLeft_eq]
  rw [← UInt16.toNat_inj, ← UInt8.toNat_inj, ← UInt8.toNat_inj, hword]
  show _ = 0xB500 ↔ _ = 0 ∧ _ = 0xB5
  omega

section Reads

variable {rom : Bytes} {off : Nat}

theorem byteAt_ok (h : off < rom.length) : byteAt rom off = .ok (rom.getD off 0) := by
  rw [byteAt, List.getElem?_eq_getElem h, List.getD_eq_getElem _ _ h]

theorem read16_ok (h : off + 2 ≤ rom.length) : read16 rom off = .ok (readLe16 rom off) := by
  rw [read16, byteAt_ok (by omega), byteAt_ok (by omega)]
  rfl

theorem decodeThumbBl_ok (heven : 2 ∣ off) :
    ∃ found, decodeThumbBl rom off = .ok found ∧ ∀ target, found = some target ↔
      ThumbBl rom off target := by
  rw [decodeThumbBl]
  split
  case isTrue hgt =>
    refine ⟨none, rfl, fun target => iff_of_false nofun fun h => ?_⟩
    have := h.fits
    omega
  case isFalse hfits =>
    rw [read16_ok (by omega), read16_ok (by omega)]
    dsimp only [bind, Except.bind]
    split
    case isTrue hmask =>
      refine ⟨none, rfl, fun target => iff_of_false nofun fun h => ?_⟩
      exact hmask.elim (· h.high) (· h.low)
    case isFalse hmask =>
      rw [not_or, not_not, not_not] at hmask
      obtain ⟨hhigh, hlow⟩ := hmask
      rw [toInt_blDisplacement]
      split
      case isTrue hout =>
        refine ⟨none, rfl, fun target => iff_of_false nofun fun h => ?_⟩
        have hreaches := h.reaches
        have hinside := h.inside
        omega
      case isFalse hin =>
        refine ⟨_, rfl, fun target => ⟨?_, fun h => ?_⟩⟩
        · rintro ⟨⟩
          exact ⟨heven, by omega, hhigh, hlow, by omega, by omega⟩
        · have := h.reaches
          rw [Option.some.injEq]
          omega

/-- The nearest `movs reg` among those behind the first `done` instructions before `call`. -/
def NearestMovFrom (rom : Bytes) (call : Nat) (reg : UInt16) (done : Nat) (value : UInt8) : Prop :=
  ∃ k, done < k ∧ k ≤ 8 ∧ 2 * k ≤ call ∧ IsMov reg (readLe16 rom (call - 2 * k)) ∧
    (readLe16 rom (call - 2 * k)).toUInt8 = value ∧
    ∀ j, done < j → j < k → ¬ IsMov reg (readLe16 rom (call - 2 * j))

theorem findMovFrom_ok {reg : UInt16} {call done off : Nat} (hcall : call ≤ rom.length)
    (hoff : off = call - 2 * done) (hdone : 2 * done ≤ call) :
    ∃ found, findMovFrom rom reg (call - 16) off = .ok found ∧
      ∀ value, found = some value ↔ NearestMovFrom rom call reg done value := by
  induction off using findMovFrom.induct (call - 16) generalizing done with
  | case1 off hge ih =>
    have hprev : off - 2 = call - 2 * (done + 1) := by omega
    have hlow := toUInt8_and_255 (readLe16 rom (call - 2 * (done + 1)))
    rw [findMovFrom, if_pos hge, hprev, read16_ok (by omega)]
    dsimp only [bind, Except.bind]
    split
    case isTrue hmov =>
      refine ⟨_, rfl, fun value => ⟨?_, ?_⟩⟩
      · rintro ⟨⟩
        exact ⟨done + 1, by omega, by omega, by omega, hmov, hlow.symm, by omega⟩
      · rintro ⟨k, hk, h8, hfits, hkmov, rfl, hnearest⟩
        obtain rfl | hlt : done + 1 = k ∨ done + 1 < k := by omega
        · rw [hlow]
        · exact absurd hmov (hnearest (done + 1) (Nat.lt_succ_self _) hlt)
    case isFalse hmov =>
      split
      case isTrue hlast =>
        refine ⟨none, rfl, fun value => iff_of_false nofun ?_⟩
        rintro ⟨k, hk, h8, hfits, hkmov, _⟩
        obtain rfl : k = done + 1 := by omega
        exact hmov hkmov
      case isFalse hlast =>
        obtain ⟨found, hfound, hiff⟩ := @ih (done + 1) hprev (by omega)
        rw [← hprev]
        refine ⟨found, hfound, fun value => (hiff value).trans ⟨?_, ?_⟩⟩
        · rintro ⟨k, hk, h8, hfits, hkmov, hvalue, hnearest⟩
          refine ⟨k, by omega, h8, hfits, hkmov, hvalue, fun j hj hjk => ?_⟩
          obtain rfl | hlt : done + 1 = j ∨ done + 1 < j := by omega
          · exact hmov
          · exact hnearest j hlt hjk
        · rintro ⟨k, hk, h8, hfits, hkmov, hvalue, hnearest⟩
          have hne : k ≠ done + 1 := by
            rintro rfl
            exact hmov hkmov
          exact ⟨k, by omega, h8, hfits, hkmov, hvalue, fun j hj hjk =>
            hnearest j (by omega) hjk⟩
  | case2 off hlt =>
    rw [findMovFrom, if_neg hlt]
    refine ⟨none, rfl, fun value => iff_of_false nofun ?_⟩
    rintro ⟨k, hk, h8, hfits, _⟩
    omega

/-- Where a search begins that looks back over at most `n` bytes. -/
theorem lookBack_eq {offset n : Nat} : (if offset > n then offset - n else 0) = offset - n := by
  split
  · rfl
  · omega

theorem findRecentMov_ok {reg : UInt16} {call : Nat} (hcall : call ≤ rom.length) :
    ∃ found, findRecentMov rom call reg = .ok found ∧
      ∀ value, found = some value ↔ NearestMov rom call reg value := by
  rw [findRecentMov, lookBack_eq]
  exact @findMovFrom_ok rom reg call 0 call hcall rfl (Nat.zero_le _)

theorem search_ok {pattern : Bytes} {first last : Nat} (hpattern : pattern ≠ [])
    (hfirst : first ≤ last) (hlast : last ≤ rom.length) :
    ∃ off, search rom pattern first last = .ok off ∧
      ((off = last ∧ ∀ k, first ≤ k → k + pattern.length ≤ last → ¬ OccursAt pattern rom k) ∨
        first ≤ off ∧ off < last ∧ off + pattern.length ≤ last ∧ OccursAt pattern rom off ∧
          ∀ k, first ≤ k → k < off → ¬ OccursAt pattern rom k) := by
  have hpos := List.length_pos_iff.mpr hpattern
  rw [search, if_neg (by omega), if_neg (by omega)]
  cases hfind : findFrom pattern (rom.take last) first with
  | none =>
    refine ⟨last, rfl, .inl ⟨rfl, fun k hk hfits hoccurs => ?_⟩⟩
    exact findFrom_eq_none hpattern hfind k hk ((occursAt_take_iff hpattern).mpr ⟨hoccurs, hfits⟩)
  | some off =>
    obtain ⟨hge, _, hoccurs, hnone⟩ := findFrom_eq_some hfind
    obtain ⟨hoccurs, hend⟩ := (occursAt_take_iff hpattern).mp hoccurs
    refine ⟨off, rfl, .inr ⟨hge, by omega, hend, hoccurs, fun k hk hkoff hk' => ?_⟩⟩
    exact hnone k hk hkoff ((occursAt_take_iff hpattern).mpr ⟨hk', by omega⟩)

theorem functionEntry_ok (h : off ≤ rom.length) :
    functionEntry rom off = .ok (entryOf rom off) := by
  by_cases htwo : 2 ≤ off
  · have hpush : readLe16 rom (off - 2) = 0xB500 ↔
        rom.getD (off - 2) 0 = 0x00 ∧ rom.getD (off - 1) 0 = 0xB5 := by
      rw [readLe16, halfword_eq_iff, show off - 2 + 1 = off - 1 by omega]
    rw [functionEntry, entryOf, if_pos htwo, byteAt_ok (by omega), byteAt_ok (by omega)]
    dsimp only [bind, Except.bind]
    split
    case isTrue hlow =>
      split
      case isTrue hhigh =>
        rw [if_pos ⟨htwo, hpush.mpr ⟨hlow, hhigh⟩⟩]
        rfl
      case isFalse hhigh =>
        rw [if_neg fun h => hhigh (hpush.mp h.2).2]
        rfl
    case isFalse hlow =>
      rw [if_neg fun h => hlow (hpush.mp h.2).1]
      rfl
  · rw [functionEntry, entryOf, if_neg htwo, if_neg fun h => htwo h.1]

/-- The comparison with 0x40 is found if and only if it lies before `off + 48`. -/
theorem search_large (hoff : off + 8 ≤ rom.length) :
    ∃ large, search rom largeCompare (off + normalized.length) (min rom.length (off + 48)) =
        .ok large ∧
      (large ≠ min rom.length (off + 48) ↔
        ∃ j, off + 8 ≤ j ∧ j + 2 ≤ off + 48 ∧ OccursAt largeCompare rom j) := by
  have hlen : normalized.length = 8 ∧ largeCompare.length = 2 := ⟨rfl, rfl⟩
  have hlarge : largeCompare ≠ [] := by decide
  obtain ⟨large, hsearch, hcases⟩ := @search_ok rom largeCompare (off + normalized.length)
    (min rom.length (off + 48)) hlarge (by omega) (Nat.min_le_left _ _)
  refine ⟨large, hsearch, ?_⟩
  obtain ⟨rfl, hnone⟩ | ⟨hge, hlt, hend, hoccurs, _⟩ := hcases
  · refine iff_of_false (not_not_intro rfl) ?_
    rintro ⟨j, hj, hfits, hoccurs⟩
    have hbound := hoccurs.le_length hlarge
    exact hnone j (by omega) (by omega) hoccurs
  · exact iff_of_true (by omega) ⟨large, by omega, by omega, hoccurs⟩

theorem findIdentifyFrom_ok {it : Nat} (hit : it ≤ rom.length) :
    ∃ entries, findIdentifyFrom rom it = .ok entries ∧ ∀ entry, entry ∈ entries ↔
      ∃ off, it ≤ off ∧ NormalizesAt rom off ∧ entry = entryOf rom off := by
  have hlen : normalized.length = 8 := rfl
  induction hleft : rom.length - it using Nat.strongRecOn generalizing it with
  | _ left ih =>
    obtain ⟨off, hsearch, hcases⟩ :=
      @search_ok rom normalized it rom.length (by decide) hit (Nat.le_refl _)
    rw [findIdentifyFrom]
    split
    case _ e herror =>
      rw [hsearch] at herror
      cases herror
    case _ off' hok =>
      rw [hsearch] at hok
      cases hok
      obtain ⟨rfl, hnone⟩ | ⟨hge, hlt, hend, hoccurs, hfirst⟩ := hcases
      · rw [dif_pos rfl]
        refine ⟨[], rfl, fun entry => iff_of_false List.not_mem_nil ?_⟩
        rintro ⟨off, hoff, ⟨hnormal, _⟩, _⟩
        exact hnone off hoff (hnormal.le_length (by decide)) hnormal
      · obtain ⟨large, hsearchLarge, hlarge⟩ := @search_large rom off (by omega)
        obtain ⟨entries, hentries, hmem⟩ := ih _ (by omega) (show off + 1 ≤ rom.length by omega) rfl
        have hstep : ∀ entry, (∃ off', it ≤ off' ∧ NormalizesAt rom off' ∧
            entry = entryOf rom off') ↔
            (NormalizesAt rom off ∧ entry = entryOf rom off) ∨ entry ∈ entries := by
          intro entry
          rw [hmem]
          constructor
          · rintro ⟨off', hoff', hnormal, rfl⟩
            obtain hlt | rfl | hgt := Nat.lt_trichotomy off' off
            · exact absurd hnormal.1 (hfirst off' hoff' hlt)
            · exact .inl ⟨hnormal, rfl⟩
            · exact .inr ⟨off', hgt, hnormal, rfl⟩
          · rintro (⟨hnormal, rfl⟩ | ⟨off', hoff', hnormal, rfl⟩)
            · exact ⟨off, hge, hnormal, rfl⟩
            · exact ⟨off', by omega, hnormal, rfl⟩
        rw [dif_neg (by omega)]
        dsimp only
        rw [hsearchLarge, functionEntry_ok (by omega), hentries]
        dsimp only [bind, Except.bind]
        split
        case isTrue hfound =>
          refine ⟨_, rfl, fun entry => ?_⟩
          rw [hstep, List.mem_cons, and_iff_right ⟨hoccurs, hlarge.mp hfound⟩]
        case isFalse hfound =>
          refine ⟨_, rfl, fun entry => ?_⟩
          rw [hstep, or_iff_right fun h => hfound (hlarge.mpr h.1.2)]

theorem findIdentifyEepromFunctions_ok :
    ∃ identifiers, findIdentifyEepromFunctions rom = .ok identifiers ∧
      ∀ entry, entry ∈ identifiers ↔ IdentifyEeprom rom entry := by
  obtain ⟨identifiers, hfind, hmem⟩ := @findIdentifyFrom_ok rom 0 (Nat.zero_le _)
  refine ⟨identifiers, hfind, fun entry => (hmem entry).trans ?_⟩
  exact exists_congr fun off => and_iff_right (Nat.zero_le off)

theorem findCallsFrom_ok (heven : 2 ∣ off) :
    ∃ calls, findCallsFrom rom off = .ok calls ∧
      ∀ call, call ∈ calls ↔ off ≤ call.offset ∧ ThumbBl rom call.offset call.target := by
  induction off using findCallsFrom.induct rom with
  | case1 off hfits ih =>
    obtain ⟨calls, hcalls, hmem⟩ := ih (by omega)
    obtain ⟨found, hfound, hiff⟩ := @decodeThumbBl_ok rom off heven
    rw [findCallsFrom, if_pos hfits, hfound, hcalls]
    dsimp only [bind, Except.bind]
    have hstep : ∀ call : Call, (off ≤ call.offset ∧ ThumbBl rom call.offset call.target) ↔
        (call.offset = off ∧ found = some call.target) ∨ call ∈ calls := by
      intro call
      rw [hmem]
      constructor
      · rintro ⟨hle, hbl⟩
        have hcall := hbl.even
        obtain heq | hlt : call.offset = off ∨ off + 2 ≤ call.offset := by omega
        · exact .inl ⟨heq, (hiff _).mpr (heq ▸ hbl)⟩
        · exact .inr ⟨hlt, hbl⟩
      · rintro (⟨heq, hfound⟩ | ⟨hlt, hbl⟩)
        · exact ⟨heq.ge, heq ▸ (hiff _).mp hfound⟩
        · exact ⟨by omega, hbl⟩
    cases found with
    | none =>
      refine ⟨calls, rfl, fun call => ?_⟩
      rw [hstep]
      exact (or_iff_right fun h => nomatch h.2).symm
    | some target =>
      refine ⟨_, rfl, fun call => ?_⟩
      rw [hstep, List.mem_cons]
      refine or_congr_left ⟨?_, ?_⟩
      · rintro rfl
        exact ⟨rfl, rfl⟩
      · obtain ⟨offset, target'⟩ := call
        rintro ⟨rfl, ⟨⟩⟩
        rfl
  | case2 off hends =>
    rw [findCallsFrom, if_neg hends]
    refine ⟨[], rfl, fun call => iff_of_false List.not_mem_nil ?_⟩
    rintro ⟨hle, hbl⟩
    have := hbl.fits
    omega

end Reads

/-! ## What the loops gather -/

def Merge.verdict (merge : Merge) : Verdict EepromCapacity :=
  if merge.conflict = true then .conflicting
  else if merge.result.capacity = .unknown then .silent
  else .agreed merge.result.capacity

/-- The merge state after evidence for the capacities in `S`. -/
structure Merge.Tracks (S : EepromCapacity → Prop) (merge : Merge) : Prop where
  clean : merge.conflict = true → merge.result.capacity = .unknown
  reflects : Reflects S merge.verdict

theorem Merge.Tracks.congr {S T : EepromCapacity → Prop} {merge : Merge} (h : merge.Tracks S)
    (hST : ∀ c, S c ↔ T c) : merge.Tracks T :=
  ⟨h.clean, h.reflects.congr hST⟩

/-- A known capacity becomes one more note of the verdict. -/
theorem verdict_mergeDetection {merge : Merge} {capacity : EepromCapacity} {evidence : Nat}
    (hclean : merge.conflict = true → merge.result.capacity = .unknown)
    (hknown : capacity ≠ .unknown) :
    (mergeDetection merge capacity evidence).verdict = merge.verdict.note capacity ∧
      ((mergeDetection merge capacity evidence).conflict = true →
        (mergeDetection merge capacity evidence).result.capacity = .unknown) := by
  obtain ⟨⟨old, offset⟩, conflict⟩ := merge
  cases conflict with
  | true =>
    rw [mergeDetection, if_pos (.inr rfl)]
    exact ⟨rfl, hclean⟩
  | false =>
    rw [mergeDetection, if_neg (by simp [hknown])]
    by_cases hold : old = .unknown
    · subst hold
      simp [Merge.verdict, Verdict.note, hknown]
    · by_cases heq : old = capacity
      · subst heq
        simp [Merge.verdict, Verdict.note, hold]
      · simp [Merge.verdict, Verdict.note, hold, heq]

theorem Merge.Tracks.merged {S : EepromCapacity → Prop} {merge : Merge} (h : merge.Tracks S)
    (capacity : EepromCapacity) (evidence : Nat) :
    (mergeDetection merge capacity evidence).Tracks
      (fun c => S c ∨ (c = capacity ∧ capacity ≠ .unknown)) := by
  by_cases hunknown : capacity = .unknown
  · rw [mergeDetection, if_pos (.inl hunknown)]
    exact h.congr fun c => (or_iff_left fun hc => hc.2 hunknown).symm
  · obtain ⟨hverdict, hclean⟩ := @verdict_mergeDetection merge capacity evidence h.clean hunknown
    refine ⟨hclean, ?_⟩
    rw [hverdict]
    exact (h.reflects.note capacity).congr fun c => or_congr_right (and_iff_left hunknown).symm

/-- `call` passes an argument that stands for the known capacity `c` in `reg`. -/
def Passes (rom : Bytes) (call : Nat) (reg : UInt16) (c : EepromCapacity) : Prop :=
  ∃ argument, NearestMov rom call reg argument ∧
    c = capacityForArgument argument ∧ capacityForArgument argument ≠ .unknown

theorem Merge.Tracks.passed {S : EepromCapacity → Prop} {merge : Merge} (h : merge.Tracks S)
    {rom : Bytes} {call : Nat} {reg : UInt16} {found : Option UInt8}
    (evidence : Nat) (hfound : ∀ argument, found = some argument ↔ NearestMov rom call reg argument) :
    (found.elim merge fun argument =>
      mergeDetection merge (capacityForArgument argument) evidence).Tracks
      (fun c => S c ∨ Passes rom call reg c) := by
  cases found with
  | none =>
    refine h.congr fun c => (or_iff_left ?_).symm
    rintro ⟨argument, hmov, _⟩
    exact nomatch (hfound argument).mpr hmov
  | some argument =>
    refine (h.merged (capacityForArgument argument) evidence).congr fun c => or_congr_right ⟨?_, ?_⟩
    · exact fun hc => ⟨argument, (hfound argument).mp rfl, hc⟩
    · rintro ⟨other, hmov, hc⟩
      obtain rfl := Option.some.inj ((hfound other).mpr hmov)
      exact hc

/-- `outer` calls the wrapper around `direct`, with mode 3 and such an argument. -/
def OuterProves (rom : Bytes) (direct outer : Call) (c : EepromCapacity) : Prop :=
  direct.offset - 64 ≤ outer.target ∧ outer.target ≤ direct.offset ∧
    NearestMov rom outer.offset 0 3 ∧ Passes rom outer.offset 1 c

def DirectProves (rom : Bytes) (calls : List Call) (identifier : Nat) (direct : Call)
    (c : EepromCapacity) : Prop :=
  direct.target = identifier ∧
    (Passes rom direct.offset 0 c ∨ ∃ outer ∈ calls, OuterProves rom direct outer c)

section Loops

variable {rom : Bytes} {calls : List Call}

theorem followOuter_ok {direct outer : Call} {merge : Merge} {S : EepromCapacity → Prop}
    (hcall : outer.offset ≤ rom.length) (h : merge.Tracks S) :
    ∃ merge', followOuter rom direct merge outer = .ok merge' ∧
      merge'.Tracks (fun c => S c ∨ OuterProves rom direct outer c) := by
  have hnothing : (∀ c, ¬ OuterProves rom direct outer c) →
      merge.Tracks (fun c => S c ∨ OuterProves rom direct outer c) :=
    fun hno => h.congr fun c => (or_iff_left (hno c)).symm
  rw [followOuter, lookBack_eq]
  split
  case isTrue hfar => exact ⟨merge, rfl, hnothing fun c hc => by have := hc.1; have := hc.2.1; omega⟩
  case isFalse hnear =>
    obtain ⟨mode, hmode, hmode_iff⟩ := @findRecentMov_ok rom 0 outer.offset hcall
    obtain ⟨argument, hargument, hargument_iff⟩ := @findRecentMov_ok rom 1 outer.offset hcall
    rw [hmode, hargument]
    cases mode with
    | none => exact ⟨merge, rfl, hnothing fun c hc => nomatch (hmode_iff 3).mpr hc.2.2.1⟩
    | some mode =>
      dsimp only [bind, Except.bind]
      split
      case isTrue hthree =>
        have hcaller : ∀ c, OuterProves rom direct outer c ↔ Passes rom outer.offset 1 c := by
          refine fun c => ⟨fun hc => hc.2.2.2, fun hc => ⟨by omega, by omega, ?_, hc⟩⟩
          exact (hmode_iff 3).mp (congrArg some hthree)
        have htracks := (h.passed outer.offset hargument_iff).congr fun c =>
          or_congr_right (hcaller c).symm
        cases argument with
        | none => exact ⟨merge, rfl, htracks⟩
        | some argument => exact ⟨_, rfl, htracks⟩
      case isFalse hother =>
        refine ⟨merge, rfl, hnothing fun c hc => hother ?_⟩
        exact Option.some.inj ((hmode_iff 3).mpr hc.2.2.1)

theorem followDirect_ok {identifier : Nat} {direct : Call} {merge : Merge}
    {S : EepromCapacity → Prop} (hcalls : ∀ call ∈ calls, call.offset ≤ rom.length)
    (hcall : direct.offset ≤ rom.length) (h : merge.Tracks S) :
    ∃ merge', followDirect rom calls identifier merge direct = .ok merge' ∧
      merge'.Tracks (fun c => S c ∨ DirectProves rom calls identifier direct c) := by
  rw [followDirect]
  split
  case isTrue hother =>
    exact ⟨merge, rfl, h.congr fun c => (or_iff_left fun hc => hother hc.1).symm⟩
  case isFalse hsame =>
    rw [not_not] at hsame
    obtain ⟨argument, hargument, hargument_iff⟩ := @findRecentMov_ok rom 0 direct.offset hcall
    have hpassed := h.passed direct.offset hargument_iff
    have hstep : ∀ outer ∈ calls, ∀ T m, Merge.Tracks T m → ∃ m',
        followOuter rom direct m outer = .ok m' ∧
          m'.Tracks (fun c => T c ∨ OuterProves rom direct outer c) :=
      fun outer houter T m hm => followOuter_ok (hcalls outer houter) hm
    obtain ⟨merge', hfold, htracks⟩ :=
      foldlM_gathers (I := Merge.Tracks) (fun _ _ _ hST h => h.congr hST) hstep hpassed
    refine ⟨merge', ?_, htracks.congr fun c => ?_⟩
    · rw [hargument]
      cases argument with
      | none => exact hfold
      | some argument => exact hfold
    · rw [or_assoc, DirectProves, and_iff_right hsame]

/-- The loops over the identifiers and the calls gather the evidence of every pair. -/
theorem follow_ok {identifiers : List Nat} (hcalls : ∀ call ∈ calls, call.offset ≤ rom.length) :
    ∃ merge, identifiers.foldlM
        (fun merge identifier => calls.foldlM (followDirect rom calls identifier) merge) {} =
        .ok merge ∧
      merge.Tracks (fun c => ∃ identifier ∈ identifiers, ∃ direct ∈ calls,
        DirectProves rom calls identifier direct c) := by
  have hstart : Merge.Tracks (fun _ => False) {} := ⟨fun _ => rfl, fun _ h => h⟩
  have hdirect : ∀ identifier, ∀ direct ∈ calls, ∀ T m, Merge.Tracks T m → ∃ m',
      followDirect rom calls identifier m direct = .ok m' ∧
        m'.Tracks (fun c => T c ∨ DirectProves rom calls identifier direct c) :=
    fun identifier direct hmem T m hm => followDirect_ok hcalls (hcalls direct hmem) hm
  have hinner : ∀ identifier ∈ identifiers, ∀ T m, Merge.Tracks T m → ∃ m',
      calls.foldlM (followDirect rom calls identifier) m = .ok m' ∧ m'.Tracks (fun c => T c ∨
        ∃ direct ∈ calls, DirectProves rom calls identifier direct c) :=
    fun identifier _ T m hm => foldlM_gathers (I := Merge.Tracks) (fun _ _ _ hST h => h.congr hST)
      (hdirect identifier) hm
  obtain ⟨merge, hfold, htracks⟩ := foldlM_gathers (I := Merge.Tracks)
    (fun _ _ _ hST h => h.congr hST) hinner hstart
  exact ⟨merge, hfold, htracks.congr fun c => iff_of_eq (false_or _)⟩

end Loops

theorem evidence_iff {rom : Bytes} {calls : List Call} {identifiers : List Nat}
    (hcalls : ∀ call : Call, call ∈ calls ↔ ThumbBl rom call.offset call.target)
    (hidentifiers : ∀ entry, entry ∈ identifiers ↔ IdentifyEeprom rom entry)
    {c : EepromCapacity} : Evidence rom c ↔ ∃ identifier ∈ identifiers, ∃ direct ∈ calls,
      DirectProves rom calls identifier direct c := by
  constructor
  · intro h
    cases h with
    | @direct call entry argument bl identify mov known =>
      exact ⟨entry, (hidentifiers entry).mpr identify, ⟨call, entry⟩, (hcalls ⟨call, entry⟩).mpr bl,
        rfl, .inl ⟨argument, mov, rfl, known⟩⟩
    | @wrapped outer target call entry argument caller above below bl identify mode mov known =>
      exact ⟨entry, (hidentifiers entry).mpr identify, ⟨call, entry⟩, (hcalls ⟨call, entry⟩).mpr bl,
        rfl, .inr ⟨⟨outer, target⟩, (hcalls ⟨outer, target⟩).mpr caller, above, below, mode,
          argument, mov, rfl, known⟩⟩
  · rintro ⟨entry, hentry, direct, hdirect, rfl, hproves⟩
    have bl := (hcalls direct).mp hdirect
    have identify := (hidentifiers _).mp hentry
    obtain ⟨argument, mov, rfl, known⟩ |
      ⟨outer, houter, above, below, mode, argument, mov, rfl, known⟩ := hproves
    · exact .direct bl identify mov known
    · exact .wrapped ((hcalls outer).mp houter) above below bl identify mode mov known

theorem Merge.Tracks.capacity_iff {S : EepromCapacity → Prop} {merge : Merge} (h : merge.Tracks S)
    {c : EepromCapacity} :
    (merge.result.capacity = c ∧ c ≠ .unknown) ↔ merge.verdict = .agreed c := by
  rw [Merge.verdict]
  split
  case isTrue hconflict =>
    refine iff_of_false ?_ nofun
    rintro ⟨rfl, hknown⟩
    exact hknown (h.clean hconflict)
  case isFalse hconflict =>
    split
    case isTrue hunknown =>
      refine iff_of_false ?_ nofun
      rintro ⟨rfl, hknown⟩
      exact hknown hunknown
    case isFalse hknown =>
      rw [Verdict.agreed.injEq]
      refine ⟨And.left, ?_⟩
      rintro rfl
      exact ⟨rfl, hknown⟩

end EepromMapping

/-- The detection reads only inside the vector, and it returns a known capacity if and only if that
is the only one with evidence. -/
theorem detection_iff (rom : Bytes) : ∃ detection, detectEepromMapping rom = .ok detection ∧
    ∀ c, (detection.capacity = c ∧ c ≠ .unknown) ↔ ∀ c', Evidence rom c' ↔ c' = c := by
  obtain ⟨identifiers, hfind, hidentifiers⟩ := @findIdentifyEepromFunctions_ok rom
  obtain ⟨calls, hcalls, hmem⟩ := @findCallsFrom_ok rom 0 (Nat.dvd_zero 2)
  have hbl : ∀ call : Call, call ∈ calls ↔ ThumbBl rom call.offset call.target :=
    fun call => (hmem call).trans (and_iff_right (Nat.zero_le _))
  have hevidence := fun c => @evidence_iff rom calls identifiers hbl hidentifiers c
  obtain ⟨merge, hfold, htracks⟩ := @follow_ok rom calls identifiers fun call hcall => by
    have := ((hbl call).mp hcall).fits
    omega
  have hcapacity : ∀ c, (merge.result.capacity = c ∧ c ≠ .unknown) ↔
      ∀ c', Evidence rom c' ↔ c' = c := by
    intro c
    rw [htracks.capacity_iff, htracks.reflects.agreed_iff]
    exact forall_congr' fun c' => iff_congr (hevidence c').symm Iff.rfl
  refine ⟨merge.result, ?_, hcapacity⟩
  rw [detectEepromMapping, hfind]
  dsimp only [bind, Except.bind]
  cases identifiers with
  | nil =>
    cases hfold
    rfl
  | cons identifier identifiers =>
    rw [hcalls]
    dsimp only
    rw [hfold]
    rfl

end Ezfadvance
