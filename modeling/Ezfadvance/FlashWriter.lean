import Ezfadvance.FlashCard
import Ezfadvance.RomSize

/-!
# FlashWriter

Erasing and programming the card (`libusb_writer_backend.cpp`, in the order of `card_writer.cpp`).

* `selectiveBank0EraseAddresses`, `full128MbBank0EraseAddresses`, `full128MbBank1EraseAddresses`,
  `eraseGroups`: the word addresses that are erased, window by window.
* `eraseEnd`: the erased sectors are exactly those below it (`erases_iff`).
* `programImage`: one `0x92` transaction a block, with a window switch every 8 MiB.
* `flashImage_writes`: after erasing and programming, the card shows the image.
-/

namespace Ezfadvance

open Interact Interact.Program CartridgeFormat Usb FlashCard FlashWindowSelector Rounding

/-- What the tools throw, with the text of the exception. -/
inductive StdException where
  | runtimeError (what : String)
  | invalidArgument (what : String)
  | outOfRange (what : String)
  deriving DecidableEq

/-! ## Erasing -/

/-- `for (a = first; a <= last; a += step)`, with `first ≤ last`. -/
def stepsThrough (first last step : Nat) : List Nat :=
  List.range' first ((last - first) / step + 1) step

/-- `for (a = first; a < bound; a += step)`. -/
def stepsBelow (first bound step : Nat) : List Nat :=
  List.range' first ((bound - first + step - 1) / step) step

def selectiveBank0EraseAddresses (programmedSize : Nat) : List Nat :=
  stepsThrough 0x0000 0x8000 0x1000 ++
    (stepsBelow 0x20000 programmedSize 0x10000).map (· / 2)

def full128MbBank0EraseAddresses : List Nat :=
  stepsThrough 0x0000 0x8000 0x1000 ++ stepsThrough 0x10000 0x3F8000 0x8000

def full128MbBank1EraseAddresses : List Nat :=
  stepsThrough 0x0000 0x3F8000 0x8000 ++ stepsThrough 0x3F9000 0x3FF000 0x1000

section Erase

variable {ε : Type}

def eraseSector (wordAddress : Nat) : Usb ε Bool := do
  let cmd := command 0x96 0x00 (UInt32.ofNat wordAddress) 0 0x00
  if !(← out cmd) then return false
  match ← inMax 64 with
  | none => return false
  | some response =>
    return response.length == 13 && response.take 12 == cmd.take 12 && response.getD 12 0 == 0x00

def eraseSectors (addresses : List Nat) : Usb ε Bool := allOf (addresses.map eraseSector)

/-- The windows and word addresses that an image of more than 8 MiB erases. -/
def multiWindowGroups (programmedSize : Nat) : List (Nat × List Nat) :=
  [(0, full128MbBank0EraseAddresses), (1, full128MbBank1EraseAddresses)] ++
    (if programmedSize > cardHalfSize then
      if programmedSize ≤ cardHalfSize + 0x2000 then [(2, [0x0000])]
      else [(2, full128MbBank0EraseAddresses)]
    else []) ++
    (if programmedSize > cardHalfSize + flashWindowSize then [(3, full128MbBank1EraseAddresses)]
    else [])

/-- All groups but the first begin with a window switch. -/
def eraseGroupsFrom : Nat → List (Nat × List Nat) → Usb ε Bool
  | _, [] => .pure true
  | gi, (window, addresses) :: groups =>
    allOf [
      if gi ≠ 0 then allOf [finishOperation, select window] else .pure true,
      eraseSectors addresses,
      eraseGroupsFrom (gi + 1) groups]

def eraseImageCaptureFaithful (programmedSize : Nat) : Usb ε Bool :=
  if programmedSize ≤ flashWindowSize then
    eraseSectors (selectiveBank0EraseAddresses programmedSize)
  else eraseGroupsFrom 0 (multiWindowGroups programmedSize)

end Erase

/-! ## What is erased -/

/-- Card byte `x` lies in a sector that one of the groups erases. -/
def ErasedBy (groups : List (Nat × List Nat)) (x : Nat) : Prop :=
  ∃ g ∈ groups, ∃ a ∈ g.2, InSector g.1 (2 * a) x

/-- The groups of `eraseImageCaptureFaithful`. -/
def eraseGroups (programmedSize : Nat) : List (Nat × List Nat) :=
  if programmedSize ≤ flashWindowSize then [(0, selectiveBank0EraseAddresses programmedSize)]
  else multiWindowGroups programmedSize

/-- Where the erased part of the card ends. -/
def eraseEnd (programmedSize : Nat) : Nat :=
  if programmedSize ≤ flashWindowSize then max 0x20000 (up programmedSize 0x10000)
  else if programmedSize ≤ cardHalfSize then cardHalfSize
  else if programmedSize ≤ cardHalfSize + 0x2000 then cardHalfSize + 0x2000
  else if programmedSize ≤ cardHalfSize + flashWindowSize then cardHalfSize + flashWindowSize
  else maxCardImage

theorem mem_stepsThrough {first last step a : Nat} (hstep : 0 < step) (h : first ≤ last) :
    a ∈ stepsThrough first last step ↔ ∃ i, first + step * i ≤ last ∧ a = first + step * i := by
  rw [stepsThrough, List.mem_range']
  constructor
  · rintro ⟨i, hi, rfl⟩
    have h1 : step * i ≤ step * ((last - first) / step) := Nat.mul_le_mul_left _ (by omega)
    have h2 := Nat.mul_div_le (last - first) step
    exact ⟨i, by omega, rfl⟩
  · rintro ⟨i, hi, rfl⟩
    refine ⟨i, Nat.lt_succ_of_le ((Nat.le_div_iff_mul_le hstep).mpr ?_), rfl⟩
    rw [Nat.mul_comm]
    omega

theorem mem_stepsBelow {first bound step a : Nat} (hstep : 0 < step) :
    a ∈ stepsBelow first bound step ↔ ∃ i, first + step * i < bound ∧ a = first + step * i := by
  rw [stepsBelow, List.mem_range']
  constructor
  · rintro ⟨i, hi, rfl⟩
    have h1 := (Nat.le_div_iff_mul_le hstep).mp (Nat.succ_le_of_lt hi)
    rw [Nat.succ_mul, Nat.mul_comm] at h1
    exact ⟨i, by omega, rfl⟩
  · rintro ⟨i, hi, rfl⟩
    refine ⟨i, Nat.lt_of_succ_le ((Nat.le_div_iff_mul_le hstep).mpr ?_), rfl⟩
    rw [Nat.succ_mul, Nat.mul_comm]
    omega

/-- `x` lies in the sector of an even window that begins at the multiple of its size below `x`. -/
theorem inSector_even {window address x : Nat} (hw : window % 2 = 0) :
    InSector window address x ↔
      window * flashWindowSize ≤ x ∧
        if address < 0x10000 then (x - window * flashWindowSize) / 0x2000 = address / 0x2000
        else (x - window * flashWindowSize) / 0x10000 = address / 0x10000 := by
  simp only [InSector, sectorSize, if_pos hw]
  by_cases h : address < 0x10000
  · simp only [if_pos h]
    omega
  · simp only [if_neg h]
    omega

theorem inSector_odd {window address x : Nat} (hw : window % 2 = 1) :
    InSector window address x ↔
      window * flashWindowSize ≤ x ∧
        if address < 0x7F0000 then (x - window * flashWindowSize) / 0x10000 = address / 0x10000
        else (x - window * flashWindowSize) / 0x2000 = address / 0x2000 := by
  simp only [InSector, sectorSize, if_neg (show ¬ window % 2 = 0 by omega)]
  by_cases h : address < 0x7F0000
  · simp only [if_pos h]
    omega
  · simp only [if_neg h]
    omega

theorem erased_bank0 {window x : Nat} (hw : window % 2 = 0) :
    (∃ a ∈ full128MbBank0EraseAddresses, InSector window (2 * a) x) ↔
      window * flashWindowSize ≤ x ∧ x < window * flashWindowSize + flashWindowSize := by
  simp only [full128MbBank0EraseAddresses, List.mem_append, inSector_even hw]
  rw [show flashWindowSize = 0x800000 from rfl]
  constructor
  · rintro ⟨a, ha, hx, hsector⟩
    refine ⟨hx, ?_⟩
    rw [mem_stepsThrough (by omega) (by omega), mem_stepsThrough (by omega) (by omega)] at ha
    obtain ⟨i, hi, rfl⟩ | ⟨i, hi, rfl⟩ := ha <;> split at hsector <;> omega
  · rintro ⟨hx, hend⟩
    by_cases hboot : x - window * 0x800000 < 0x20000
    · refine ⟨0x0000 + 0x1000 * min 8 ((x - window * 0x800000) / 0x2000),
        .inl ((mem_stepsThrough (by omega) (by omega)).mpr ⟨_, by omega, rfl⟩), hx, ?_⟩
      split <;> omega
    · refine ⟨0x10000 + 0x8000 * ((x - window * 0x800000) / 0x10000 - 2),
        .inr ((mem_stepsThrough (by omega) (by omega)).mpr ⟨_, by omega, rfl⟩), hx, ?_⟩
      rw [if_neg (by omega)]
      omega

theorem erased_bank1 {window x : Nat} (hw : window % 2 = 1) :
    (∃ a ∈ full128MbBank1EraseAddresses, InSector window (2 * a) x) ↔
      window * flashWindowSize ≤ x ∧ x < window * flashWindowSize + flashWindowSize := by
  simp only [full128MbBank1EraseAddresses, List.mem_append, inSector_odd hw]
  rw [show flashWindowSize = 0x800000 from rfl]
  constructor
  · rintro ⟨a, ha, hx, hsector⟩
    refine ⟨hx, ?_⟩
    rw [mem_stepsThrough (by omega) (by omega), mem_stepsThrough (by omega) (by omega)] at ha
    obtain ⟨i, hi, rfl⟩ | ⟨i, hi, rfl⟩ := ha <;> split at hsector <;> omega
  · rintro ⟨hx, hend⟩
    by_cases hboot : x - window * 0x800000 < 0x7F2000
    · refine ⟨0x0000 + 0x8000 * ((x - window * 0x800000) / 0x10000),
        .inl ((mem_stepsThrough (by omega) (by omega)).mpr ⟨_, by omega, rfl⟩), hx, ?_⟩
      split <;> omega
    · refine ⟨0x3F9000 + 0x1000 * ((x - window * 0x800000 - 0x7F2000) / 0x2000),
        .inr ((mem_stepsThrough (by omega) (by omega)).mpr ⟨_, by omega, rfl⟩), hx, ?_⟩
      rw [if_neg (by omega)]
      omega

theorem erased_selective {programmedSize x : Nat} :
    (∃ a ∈ selectiveBank0EraseAddresses programmedSize, InSector 0 (2 * a) x) ↔
      x < max 0x20000 (up programmedSize 0x10000) := by
  have hup := @le_up programmedSize 0x10000 (by omega)
  have hup' := @up_lt programmedSize 0x10000 (by omega)
  obtain ⟨k, hk⟩ := dvd_up programmedSize 0x10000
  simp only [selectiveBank0EraseAddresses, List.mem_append, List.mem_map, inSector_even,
    Nat.zero_mul, Nat.zero_le, true_and, Nat.sub_zero]
  constructor
  · rintro ⟨a, ha, hsector⟩
    rw [mem_stepsThrough (by omega) (by omega)] at ha
    simp only [mem_stepsBelow (show 0 < 0x10000 by omega)] at ha
    obtain ⟨i, hi, rfl⟩ | ⟨b, ⟨i, hi, rfl⟩, rfl⟩ := ha <;> split at hsector <;> omega
  · intro hx
    by_cases hboot : x < 0x20000
    · refine ⟨0x0000 + 0x1000 * min 8 (x / 0x2000),
        .inl ((mem_stepsThrough (by omega) (by omega)).mpr ⟨_, by omega, rfl⟩), ?_⟩
      split <;> omega
    · refine ⟨_, .inr ⟨_, (mem_stepsBelow (by omega)).mpr ⟨x / 0x10000 - 2, by omega, rfl⟩, rfl⟩, ?_⟩
      rw [if_neg (by omega)]
      omega

theorem erasedBy_cons {window x : Nat} {addresses : List Nat} {groups : List (Nat × List Nat)} :
    ErasedBy ((window, addresses) :: groups) x ↔
      (∃ a ∈ addresses, InSector window (2 * a) x) ∨ ErasedBy groups x := by
  simp only [ErasedBy, List.mem_cons, or_and_right, exists_or, exists_eq_left]

theorem not_erasedBy_nil {x : Nat} : ¬ ErasedBy [] x := by
  rintro ⟨g, hg, _⟩
  cases hg

/-- The sectors that are erased are those below `eraseEnd`. -/
theorem erases_iff {programmedSize x : Nat} :
    ErasedBy (eraseGroups programmedSize) x ↔ x < eraseEnd programmedSize := by
  have htail : InSector 2 (2 * 0) x ↔
      2 * flashWindowSize ≤ x ∧ x < 2 * flashWindowSize + 0x2000 := by
    rw [inSector_even rfl, if_pos (by omega)]
    omega
  rw [eraseGroups, eraseEnd]
  by_cases h8 : programmedSize ≤ flashWindowSize
  · rw [if_pos h8, if_pos h8, erasedBy_cons, or_iff_left not_erasedBy_nil, erased_selective]
  · have hodd : 1 % 2 = 1 := rfl
    have hodd3 : 3 % 2 = 1 := rfl
    rw [if_neg h8, if_neg h8, multiWindowGroups]
    rw [show cardHalfSize = 2 * flashWindowSize from rfl,
      show maxCardImage = 4 * flashWindowSize from rfl]
    by_cases h16 : programmedSize ≤ 2 * flashWindowSize
    · rw [if_neg (by omega), if_neg (by omega), if_pos h16]
      simp only [List.append_nil, erasedBy_cons, erased_bank0, erased_bank1 hodd, not_erasedBy_nil,
        or_false]
      omega
    · rw [if_pos (by omega), if_neg h16]
      by_cases htiny : programmedSize ≤ 2 * flashWindowSize + 0x2000
      · have : 0x2000 < flashWindowSize := by decide
        rw [if_pos htiny, if_neg (by omega), if_pos htiny]
        simp only [List.append_nil, List.cons_append, List.nil_append, erasedBy_cons, erased_bank0,
          erased_bank1 hodd, not_erasedBy_nil, or_false, List.mem_singleton, exists_eq_left, htail]
        omega
      · rw [if_neg htiny, if_neg htiny]
        by_cases h24 : programmedSize ≤ 2 * flashWindowSize + flashWindowSize
        · rw [if_neg (by omega), if_pos h24]
          simp only [List.append_nil, List.cons_append, List.nil_append, erasedBy_cons,
            erased_bank0, erased_bank1 hodd, not_erasedBy_nil, or_false]
          omega
        · rw [if_pos (by omega), if_neg h24]
          simp only [List.cons_append, List.nil_append, erasedBy_cons, erased_bank0,
            erased_bank1 hodd, erased_bank1 hodd3, not_erasedBy_nil, or_false]
          omega

/-! ## Programming -/

def makeProgramCommand (byteAddress length : UInt32) (finalByte : UInt8) :
    Except StdException Bytes :=
  if byteAddress &&& 1 ≠ 0 then .error (.runtimeError "program address must be word-aligned")
  else .ok (command 0x92 0x00 (byteAddress / 2) length finalByte)

def programTransactionSingle (byteAddress : UInt32) (data : Bytes) : Usb StdException Bool := do
  let cmd ← MonadExcept.ofExcept (makeProgramCommand byteAddress (UInt32.ofNat data.length) 0x41)
  allOf [out cmd, out data, expectReply (cmd.set 12 0x00)]

/-- The window switch in front of the block at `off`. -/
def switchProgramWindow (off : Nat) : Usb StdException Bool :=
  if off ≠ 0 ∧ off % flashWindowSize = 0 then
    if off / flashWindowSize > 3 then .pure false
    else allOf [finishOperation, select (off / flashWindowSize)]
  else .pure true

def programFrom (image : Bytes) (off : Nat) : Usb StdException Bool :=
  if off < image.length then
    let n := min programBlock (image.length - off)
    allOf [
      switchProgramWindow off,
      programTransactionSingle (UInt32.ofNat (off % flashWindowSize)) ((image.drop off).take n),
      programFrom image (off + n)]
  else .pure true
termination_by image.length - off
decreasing_by
  simp only [programBlock]
  omega

def programImage (image : Bytes) : Usb StdException Bool := programFrom image 0

/-- The writing steps of `CardWriter::write`. -/
def flashImage (image : Bytes) : Usb StdException Bool :=
  allOf [
    select 0, eraseImageCaptureFaithful image.length, finishOperation, select 0, programImage image]

/-! ## Erasing on the card -/

/-- `0xFF` in `S`, and what was there outside of it. -/
def Wiped (old : Nat → UInt8) (S : Nat → Prop) (new : Nat → UInt8) : Prop :=
  ∀ x, (S x → new x = 0xFF) ∧ (¬ S x → new x = old x)

section EraseCard

variable {ε : Type} {old : Nat → UInt8} {S : Nat → Prop} {window : Nat}

theorem Wiped.erase {f : Flash} {a : Nat} (h : Wiped old S f.mem) :
    Wiped old (fun x => S x ∨ InSector f.window (2 * a) x) (f.erase a).mem := by
  intro x
  by_cases hx : InSector f.window (2 * a) x
  · exact ⟨fun _ => if_pos hx, fun hno => absurd (.inr hx) hno⟩
  · simp only [Flash.erase, hx, if_false, or_false]
    exact h x

theorem exec_eraseSector {f : Flash} {a : Nat} (ha : a < 2 ^ 32) :
    exec step (eraseSector a : Usb ε Bool) ⟨f, .idle⟩ = (.ok true, ⟨f.erase a, .idle⟩) := by
  have hword : (UInt32.ofNat a).toNat = a := by rw [UInt32.toNat_ofNat', Nat.mod_eq_of_lt ha]
  rw [eraseSector, exec_bind_ok exec_out, accept_erase, hword]
  simp only [Bool.not_true, Bool.false_eq_true, if_false]
  rw [exec_bind_ok (exec_inMax (by simp))]
  simp only [length_command, getD_command_final, beq_self_eq_true, Bool.and_self]
  rw [exec_pure]

theorem succeeds_eraseSector {a : Nat} (ha : a < 2 ^ 32) :
    Succeeds step (Holds (Wiped old S) window) (eraseSector a : Usb ε Bool)
      (Holds (Wiped old fun x => S x ∨ InSector window (2 * a) x) window) := by
  rintro ⟨f, phase⟩ ⟨hidle, hwiped, rfl⟩
  cases hidle
  exact ⟨⟨f.erase a, .idle⟩, exec_eraseSector ha, rfl, hwiped.erase, Flash.window_erase⟩

theorem Wiped.congr {T : Nat → Prop} {new : Nat → UInt8} (h : Wiped old S new)
    (hST : ∀ x, S x ↔ T x) : Wiped old T new := by
  intro x
  rw [← hST]
  exact h x

theorem succeeds_eraseSectors {addresses : List Nat} (ha : ∀ a ∈ addresses, a < 2 ^ 32) :
    Succeeds step (Holds (Wiped old S) window) (eraseSectors addresses : Usb ε Bool)
      (Holds (Wiped old fun x => S x ∨ ∃ a ∈ addresses, InSector window (2 * a) x) window) := by
  induction addresses generalizing S with
  | nil => exact Succeeds.skip.mono fun c hc => hc.mono fun m hm => hm.congr fun x => by simp
  | cons a rest ih =>
    obtain ⟨h1, hrest⟩ := List.forall_mem_cons.mp ha
    refine ((succeeds_eraseSector h1).both (ih hrest)).mono fun c hc => hc.mono fun m hm => ?_
    exact hm.congr fun x => by simp [or_assoc]

theorem succeeds_eraseGroups {groups : List (Nat × List Nat)} {gi : Nat} (hgi : gi ≠ 0)
    (hg : ∀ g ∈ groups, g.1 ≤ 3 ∧ ∀ a ∈ g.2, a < 2 ^ 32) :
    Succeeds step (Quiet (Wiped old S)) (eraseGroupsFrom gi groups : Usb ε Bool)
      (Quiet (Wiped old fun x => S x ∨ ErasedBy groups x)) := by
  induction groups generalizing S gi with
  | nil =>
    exact Succeeds.skip.mono fun c ⟨w, hc⟩ => ⟨w, hc.mono fun m hm => hm.congr fun x => by
      rw [or_iff_left not_erasedBy_nil]⟩
  | cons g rest ih =>
    obtain ⟨⟨hw, ha⟩, hrest⟩ := List.forall_mem_cons.mp hg
    have hswitch : Succeeds step (Quiet (Wiped old S))
        (allOf [finishOperation, select g.1] : Usb ε Bool) (Holds (Wiped old S) g.1) :=
      succeeds_sendAll.both ((succeeds_select hw).both .skip)
    have herase : Succeeds step (Holds (Wiped old S) g.1) (eraseSectors g.2 : Usb ε Bool)
        (Quiet (Wiped old fun x => S x ∨ ∃ a ∈ g.2, InSector g.1 (2 * a) x)) :=
      (succeeds_eraseSectors ha).mono fun c hc => ⟨g.1, hc⟩
    rw [eraseGroupsFrom, if_pos hgi]
    refine (hswitch.both (herase.both ((ih (by omega) hrest).both .skip))).mono ?_
    rintro c ⟨w, hc⟩
    exact ⟨w, hc.mono fun m hm => hm.congr fun x => by rw [erasedBy_cons, or_assoc]⟩

theorem stepsThrough_lt {first last step bound : Nat} (hstep : 0 < step) (h : first ≤ last)
    (hb : last < bound) : ∀ a ∈ stepsThrough first last step, a < bound := by
  intro a ha
  obtain ⟨i, hi, rfl⟩ := (mem_stepsThrough hstep h).mp ha
  omega

theorem bank0_lt : ∀ a ∈ full128MbBank0EraseAddresses, a < 2 ^ 32 := by
  intro a ha
  obtain h | h := List.mem_append.mp ha
  · exact stepsThrough_lt (by omega) (by omega) (by omega) a h
  · exact stepsThrough_lt (by omega) (by omega) (by omega) a h

theorem bank1_lt : ∀ a ∈ full128MbBank1EraseAddresses, a < 2 ^ 32 := by
  intro a ha
  obtain h | h := List.mem_append.mp ha
  · exact stepsThrough_lt (by omega) (by omega) (by omega) a h
  · exact stepsThrough_lt (by omega) (by omega) (by omega) a h

theorem selective_lt {programmedSize : Nat} (h : programmedSize ≤ flashWindowSize) :
    ∀ a ∈ selectiveBank0EraseAddresses programmedSize, a < 2 ^ 32 := by
  intro a ha
  simp only [flashWindowSize] at h
  obtain h | h := List.mem_append.mp ha
  · exact stepsThrough_lt (by omega) (by omega) (by omega) a h
  · obtain ⟨b, hb, rfl⟩ := List.mem_map.mp h
    obtain ⟨i, hi, rfl⟩ := (mem_stepsBelow (by omega)).mp hb
    omega

theorem multiWindowGroups_ok {programmedSize : Nat} :
    ∀ g ∈ multiWindowGroups programmedSize, g.1 ≤ 3 ∧ ∀ a ∈ g.2, a < 2 ^ 32 := by
  intro g hg
  have hzero : ∀ a ∈ [0x0000], a < 2 ^ 32 := by simp
  simp only [multiWindowGroups, List.mem_append, List.mem_cons, List.not_mem_nil, or_false] at hg
  obtain ((rfl | rfl) | hg) | hg := hg
  · exact ⟨by omega, bank0_lt⟩
  · exact ⟨by omega, bank1_lt⟩
  · split at hg
    · split at hg
      · cases List.mem_singleton.mp hg
        exact ⟨by omega, hzero⟩
      · cases List.mem_singleton.mp hg
        exact ⟨by omega, bank0_lt⟩
    · cases hg
  · split at hg
    · cases List.mem_singleton.mp hg
      exact ⟨by omega, bank1_lt⟩
    · cases hg

/-- With window 0 selected, the part of the card below `eraseEnd` becomes `0xFF`. -/
theorem succeeds_erase {programmedSize : Nat} :
    Succeeds step (Holds (· = old) 0) (eraseImageCaptureFaithful programmedSize : Usb ε Bool)
      (Quiet (Wiped old fun x => x < eraseEnd programmedSize)) := by
  have hstart : ∀ m, m = old → Wiped old (fun _ => False) m := by
    rintro m rfl x
    exact ⟨False.elim, fun _ => rfl⟩
  intro card hcard
  replace hcard := hcard.mono hstart
  rw [eraseImageCaptureFaithful]
  by_cases h8 : programmedSize ≤ flashWindowSize
  · rw [if_pos h8]
    obtain ⟨card', hrun, hcard'⟩ := succeeds_eraseSectors (selective_lt h8) card hcard
    refine ⟨card', hrun, 0, hcard'.mono fun m hm => hm.congr fun x => ?_⟩
    rw [← erases_iff, eraseGroups, if_pos h8, erasedBy_cons, or_iff_left not_erasedBy_nil, false_or]
  · rw [if_neg h8]
    obtain ⟨addresses, rest, hgroups, haddr, hrest⟩ :
        ∃ addresses rest, multiWindowGroups programmedSize = (0, addresses) :: rest ∧
          (∀ a ∈ addresses, a < 2 ^ 32) ∧ ∀ g ∈ rest, g.1 ≤ 3 ∧ ∀ a ∈ g.2, a < 2 ^ 32 :=
      ⟨full128MbBank0EraseAddresses, _, rfl, bank0_lt,
        (List.forall_mem_cons.mp multiWindowGroups_ok).2⟩
    have hfirst : Succeeds step (Holds (Wiped old fun _ => False) 0)
        (eraseSectors addresses : Usb ε Bool)
        (Quiet (Wiped old fun x => False ∨ ∃ a ∈ addresses, InSector 0 (2 * a) x)) :=
      (succeeds_eraseSectors haddr).mono fun c hc => ⟨0, hc⟩
    rw [hgroups, eraseGroupsFrom, if_neg (not_not_intro rfl)]
    obtain ⟨card', hrun, w, hcard'⟩ := (Succeeds.skip.both (hfirst.both
      ((succeeds_eraseGroups (Nat.succ_ne_zero 0) hrest).both .skip))) card hcard
    refine ⟨card', hrun, w, hcard'.mono fun m hm => hm.congr fun x => ?_⟩
    rw [← erases_iff, eraseGroups, if_neg h8, hgroups, erasedBy_cons, false_or]

end EraseCard

/-! ## Programming on the card -/

/-- The first `off` bytes of the image have been programmed over what was there. -/
def Programmed (old : Nat → UInt8) (image : Bytes) (off : Nat) (new : Nat → UInt8) : Prop :=
  ∀ x, new x = if x < off then old x &&& image.getD x 0xFF else old x

section ProgramCard

variable {old : Nat → UInt8} {image : Bytes} {off : Nat}

theorem makeProgramCommand_even {byteAddress : Nat} {length : UInt32} {finalByte : UInt8}
    (heven : 2 ∣ byteAddress) (hlt : byteAddress < 2 ^ 32) :
    makeProgramCommand (UInt32.ofNat byteAddress) length finalByte =
      .ok (command 0x92 0x00 (UInt32.ofNat (byteAddress / 2)) length finalByte) := by
  have hn : (UInt32.ofNat byteAddress).toNat = byteAddress := by
    rw [UInt32.toNat_ofNat', Nat.mod_eq_of_lt hlt]
  have hbit : ¬ UInt32.ofNat byteAddress &&& 1 ≠ 0 := by
    rw [not_not, ← UInt32.toNat_inj, UInt32.toNat_and, hn]
    show byteAddress &&& 1 = 0
    rw [Nat.and_one_is_mod]
    omega
  have hhalf : UInt32.ofNat byteAddress / 2 = UInt32.ofNat (byteAddress / 2) := by
    rw [← UInt32.toNat_inj, UInt32.toNat_div, hn, UInt32.toNat_ofNat',
      Nat.mod_eq_of_lt (by omega)]
    rfl
  rw [makeProgramCommand, if_neg hbit, hhalf]

theorem exec_programTransactionSingle {f : Flash} {byteAddress : Nat} {data : Bytes}
    (heven : 2 ∣ byteAddress) (hlt : byteAddress < 2 ^ 32) :
    exec step (programTransactionSingle (UInt32.ofNat byteAddress) data) ⟨f, .idle⟩ =
      (.ok true, ⟨f.program (byteAddress / 2) data, .idle⟩) := by
  have hn : (UInt32.ofNat (byteAddress / 2)).toNat = byteAddress / 2 := by
    rw [UInt32.toNat_ofNat', Nat.mod_eq_of_lt (by omega)]
  rw [programTransactionSingle, makeProgramCommand_even heven hlt]
  have hdo := @exec_commandData StdException f
    (command 0x92 0x00 (UInt32.ofNat (byteAddress / 2)) (UInt32.ofNat data.length) 0x41) data rfl
    (by rw [carryOut_program]; simp)
  rw [carryOut_program, hn] at hdo
  exact hdo

theorem Programmed.block {f : Flash} (hoff : 0x10000 ∣ off) (hw : f.window = off / flashWindowSize)
    (hlt : off < image.length) (h : Programmed old image off f.mem) :
    Programmed old image (off + min programBlock (image.length - off))
      (f.program (off % flashWindowSize / 2)
        ((image.drop off).take (min programBlock (image.length - off)))).mem := by
  have hat : f.cardAddress (off % flashWindowSize / 2) = off := by
    rw [Flash.cardAddress, hw]
    simp only [flashWindowSize]
    omega
  intro x
  rw [Flash.program]
  simp only [hat, List.length_take, List.length_drop, min_assoc, min_self, h x]
  by_cases hx : off ≤ x ∧ x < off + min programBlock (image.length - off)
  · rw [if_pos hx, if_neg (by omega), if_pos (by omega), Segments.getD_take, if_pos (by omega),
      Segments.getD_drop, show off + (x - off) = x by omega]
  · rw [if_neg hx]
    by_cases hlow : x < off
    · rw [if_pos hlow, if_pos (by omega)]
    · rw [if_neg hlow, if_neg (by omega)]

/-- The window switch in front of a block leaves the window of the block selected. -/
theorem succeeds_switchProgramWindow {content : (Nat → UInt8) → Prop}
    (hcard : off < 4 * flashWindowSize) :
    Succeeds step (Holds content ((off - 1) / flashWindowSize)) (switchProgramWindow off)
      (Holds content (off / flashWindowSize)) := by
  rw [switchProgramWindow]
  by_cases h : off ≠ 0 ∧ off % flashWindowSize = 0
  · have hw : off / flashWindowSize ≤ 3 := by
      simp only [flashWindowSize] at hcard ⊢
      omega
    rw [if_pos h, if_neg (Nat.not_lt.mpr hw)]
    intro card hheld
    exact (succeeds_sendAll.both ((succeeds_select hw).both .skip)) card ⟨_, hheld⟩
  · have hsame : (off - 1) / flashWindowSize = off / flashWindowSize := by
      simp only [flashWindowSize] at h ⊢
      omega
    rw [if_neg h, hsame]
    exact .skip

theorem succeeds_programTransactionSingle (hoff : 0x10000 ∣ off) (hlt : off < image.length) :
    Succeeds step (Holds (Programmed old image off) (off / flashWindowSize))
      (programTransactionSingle (UInt32.ofNat (off % flashWindowSize))
        ((image.drop off).take (min programBlock (image.length - off))))
      (Holds (Programmed old image (off + min programBlock (image.length - off)))
        (off / flashWindowSize)) := by
  rintro ⟨f, phase⟩ ⟨hidle, hcontent, hw⟩
  cases hidle
  have hlocal : 2 ∣ off % flashWindowSize ∧ off % flashWindowSize < 2 ^ 32 := by
    simp only [flashWindowSize]
    omega
  exact ⟨_, exec_programTransactionSingle hlocal.1 hlocal.2, rfl, hcontent.block hoff hw hlt,
    Flash.window_program.trans hw⟩

/-- The program loop, by induction on the blocks left. -/
theorem succeeds_programFrom (hcard : image.length ≤ 4 * flashWindowSize) (off : Nat)
    (hoff : 0x10000 ∣ off ∨ image.length ≤ off) :
    Succeeds step (Holds (Programmed old image off) ((off - 1) / flashWindowSize))
      (programFrom image off)
      (Quiet fun m => ∃ stop, image.length ≤ stop ∧ Programmed old image stop m) := by
  induction off using programFrom.induct image with
  | case1 off hlt n ih =>
    have hdvd : 0x10000 ∣ off := hoff.resolve_right (by omega)
    have hnext : (off + n - 1) / flashWindowSize = off / flashWindowSize := by
      simp only [flashWindowSize, n, programBlock]
      omega
    have hrest : 0x10000 ∣ off + n ∨ image.length ≤ off + n := by
      simp only [n, programBlock]
      omega
    have hloop := ih hrest
    rw [hnext] at hloop
    rw [programFrom, if_pos hlt]
    exact (succeeds_switchProgramWindow (by omega)).both
      ((succeeds_programTransactionSingle hdvd hlt).both (hloop.both .skip))
  | case2 off hge =>
    rw [programFrom, if_neg hge]
    exact Succeeds.skip.mono fun c hc =>
      ⟨_, hc.mono fun m hm => ⟨off, Nat.le_of_not_lt hge, hm⟩⟩

/-- The image, then `0xFF` as far as sectors were erased, then what was there. -/
def Flashed (old : Nat → UInt8) (image : Bytes) (new : Nat → UInt8) : Prop :=
  ∀ x, new x =
    if x < image.length then image.getD x 0xFF
    else if x < eraseEnd image.length then 0xFF
    else old x

theorem le_eraseEnd {programmedSize : Nat} (h : programmedSize ≤ maxCardImage) :
    programmedSize ≤ eraseEnd programmedSize := by
  have hup := @le_up programmedSize 0x10000 (by omega)
  rw [eraseEnd]
  split_ifs <;> omega

theorem Flashed.of_programmed {erased new : Nat → UInt8} {stop : Nat}
    (hcard : image.length ≤ maxCardImage)
    (herased : Wiped old (fun x => x < eraseEnd image.length) erased) (hstop : image.length ≤ stop)
    (h : Programmed erased image stop new) : Flashed old image new := by
  have hend := le_eraseEnd hcard
  intro x
  rw [h x]
  by_cases hx : x < image.length
  · rw [if_pos (by omega), if_pos hx, (herased x).1 (by omega)]
    exact UInt8.neg_one_and
  · have hprog : (if x < stop then erased x &&& image.getD x 0xFF else erased x) = erased x := by
      rw [Segments.getD_eq_of_ge (Nat.le_of_not_lt hx)]
      split
      · exact UInt8.and_neg_one
      · rfl
    rw [hprog, if_neg hx]
    by_cases hxe : x < eraseEnd image.length
    · rw [if_pos hxe, (herased x).1 hxe]
    · rw [if_neg hxe, (herased x).2 hxe]

theorem succeeds_programImage (hcard : image.length ≤ maxCardImage) :
    Succeeds step (Holds (Wiped old fun x => x < eraseEnd image.length) 0) (programImage image)
      (Quiet (Flashed old image)) := by
  rintro ⟨f, phase⟩ ⟨hidle, herased, hwindow⟩
  have hstart : Holds (Programmed f.mem image 0) 0 ⟨f, phase⟩ :=
    ⟨hidle, fun x => by rw [if_neg (Nat.not_lt_zero x)], hwindow⟩
  obtain ⟨card, hrun, window, hheld⟩ :=
    succeeds_programFrom hcard 0 (.inl (Nat.dvd_zero _)) ⟨f, phase⟩ hstart
  refine ⟨card, hrun, window, hheld.mono ?_⟩
  rintro m ⟨stop, hstop, hm⟩
  exact .of_programmed hcard herased hstop hm

/-- The writing steps on a card with any content and any window selected. -/
theorem succeeds_flashImage (hcard : image.length ≤ maxCardImage) :
    Succeeds step (Quiet (· = old)) (flashImage image) (Quiet (Flashed old image)) :=
  (succeeds_select (by omega)).both (succeeds_erase.both (succeeds_sendAll.both
    ((succeeds_select (by omega)).both ((succeeds_programImage hcard).both .skip))))

/-- Whatever the card held and whichever window was selected, the writer's sequence succeeds and
leaves the image on it. -/
theorem flashImage_writes {image : Bytes} (hsize : image.length ≤ maxCardImage) (card : FlashCard)
    (hidle : card.phase = .idle) :
    ∃ card', exec step (flashImage image) card = (.ok true, card') ∧
      ∀ x (hx : x < image.length), card'.flash.mem x = image[x] := by
  obtain ⟨card', hrun, window, hheld⟩ :=
    succeeds_flashImage hsize card ⟨card.flash.window, hidle, rfl, rfl⟩
  refine ⟨card', hrun, fun x hx => ?_⟩
  rw [hheld.content x, if_pos hx, List.getD_eq_getElem _ _ hx]

theorem flashImage_writes_block :
    ∃ card', exec step (flashImage (List.replicate 0x10000 0x5A))
        ⟨⟨fun x => UInt8.ofNat x, 2, []⟩, .idle⟩ = (.ok true, card') ∧
      ∀ x (hx : x < (List.replicate 0x10000 (0x5A : UInt8)).length),
        card'.flash.mem x = (List.replicate 0x10000 0x5A)[x] :=
  flashImage_writes (by rw [List.length_replicate]; decide) _ rfl

end ProgramCard

end Ezfadvance
