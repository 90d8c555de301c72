import Ezfadvance.Cartridge

/-!
# CardWipeWorkflow

The wipe of `card_wipe_workflow.cpp`: preflight, the four flash windows, the four save banks, a
cleanup and two blank-check reads.

* `runs_preflight_true_iff`, `runs_execute_true_iff`: the one way in which a wipe succeeds, up to
  the number of readiness checks that were answered `00`.
* `path_wipe_iff`, `blank_eraseWindow`: what such a wipe does to the cartridge. The save banks come
  after the last one-byte transfer, so what the window selections wrote into them is gone.
* `execute_wipes`: nothing is erased before the preflight, and a wipe that reports success leaves
  blank flash and zeroed save memory.
-/

namespace Ezfadvance

open Interact Interact.Program CartridgeFormat Protocol Usb Device

namespace CardWipeWorkflow

def bottomBootSectorAddresses : List Nat :=
  stepsThrough 0x000000 0x008000 0x001000 ++ stepsThrough 0x010000 0x3F8000 0x008000

def topBootSectorAddresses : List Nat :=
  stepsThrough 0x000000 0x3F8000 0x008000 ++ stepsThrough 0x3F9000 0x3FF000 0x001000

def readinessAttempts : Nat := 5

def reset : Bytes := command 0x97 0x00 0 0 0x00
def ready : Bytes := command 0x98 0x00 0 0 0x00
def setup : Bytes := command 0x99 0x00 1 0 0x00

section Workflow

variable {ε : Type}

/-- A command that must be answered with exactly `expected`. -/
def answered (command : Bytes) (maximum : Nat) (expected : Bytes) : Usb ε Bool := do
  if !(← out command) then return false
  match ← inMax maximum with
  | none => return false
  | some response => return decide (response = expected)

def waitReady : Nat → Usb ε Bool
  | 0 => .pure false
  | attempts + 1 => do
    if !(← out ready) then return false
    match ← inMax 1 with
    | some [value] =>
      if value = 1 then return true
      else if value ≠ 0 then return false
      else waitReady attempts
    | _ => return false

def cartridgeReadyPreflight : Usb ε Bool :=
  allOf [answered reset 1 [0], waitReady readinessAttempts, answered setup 13 setup]

def finalCleanup : Usb ε Bool :=
  allOf [tx92Two 0x55 0xAA, tx92Two 0x00 0x00, tx92Two 0x00 0x00, tx92Two 0x00 0x00]

def eraseSector (address : Nat) : Usb ε Bool := Ezfadvance.eraseSector address

def sectors (bank : Nat) : List Nat :=
  if bank = 0 ∨ bank = 2 then bottomBootSectorAddresses else topBootSectorAddresses

def eraseBank (bank : Nat) : Usb ε Bool :=
  if (sectors bank).length ≠ 135 then .pure false
  else
    allOf [FlashWindowSelector.select bank, allOf ((sectors bank).map eraseSector),
      FlashWindowSelector.finishOperation]

def readRegion (command : Bytes) (expectedLength : Nat) : Usb ε (Option Bytes) := do
  if !(← out command) then return none
  match ← inMax expectedLength with
  | none => return none
  | some result => return if result.length ≠ expectedLength then none else some result

def allErased (bytes : Bytes) : Bool := bytes.all (· == 0xFF)

def firstCommand : Bytes := command 0x91 0x00 0x00000000 0xAC 0x00
def secondCommand : Bytes := command 0x91 0x00 0x02000002 0x20 0x00

def regionErased (command : Bytes) (expectedLength : Nat) : Usb ε Bool := do
  match ← readRegion command expectedLength with
  | none => return false
  | some bytes => return allErased bytes

def verifyBlankLikeCapture : Usb ε Bool :=
  allOf [regionErased firstCommand 172, regionErased secondCommand 32]

def execute : Usb ε Bool :=
  allOf [cartridgeReadyPreflight, allOf ((List.range 4).map eraseBank), SaveBankCleaner.clearAll,
    finalCleanup, verifyBlankLikeCapture]

end Workflow

/-! ## Successful runs -/

def answeredExchange (command : Bytes) (maximum : Nat) (expected : Bytes) :
    List Transport.Event :=
  [⟨.out command, true⟩, ⟨.inMax maximum, some expected⟩]

/-- The readiness checks: `busy` of them answered `00`, then one answered `01`. -/
def readyExchange (busy : Nat) : List Transport.Event :=
  (List.replicate busy [0x00]).flatMap (answeredExchange ready 1) ++ answeredExchange ready 1 [0x01]

/-- `0x97` answered `00`, the readiness checks, and `0x99` echoed. -/
def preflightExchange (busy : Nat) : List Transport.Event :=
  answeredExchange reset 1 [0x00] ++ readyExchange busy ++ answeredExchange setup 13 setup

def bankExchange (bank : Nat) : List Transport.Event :=
  (FlashWindowSelector.selection bank).flatMap Tx.exchange ++
    (sectors bank).flatMap eraseExchange ++ FlashWindowSelector.statusTail.flatMap Tx.exchange

def cleanupTransfers : List Tx :=
  [.two 0x55 0xAA, .two 0x00 0x00, .two 0x00 0x00, .two 0x00 0x00]

def blankExchange (command : Bytes) (length : Nat) : List Transport.Event :=
  answeredExchange command length (List.replicate length 0xFF)

/-- All that follows the preflight. -/
def wipeExchange : List Transport.Event :=
  (List.range 4).flatMap bankExchange ++ (clearedBanks.flatMap writeBankExchange ++
    (cleanupTransfers.flatMap Tx.exchange ++
      (blankExchange firstCommand 172 ++ blankExchange secondCommand 32)))

section Acknowledged

variable {ε : Type} {trace : List Transport.Event}

theorem runs_answered_true_iff {command expected : Bytes} {maximum : Nat} :
    Runs (answered command maximum expected : Usb ε Bool) trace (.ok true) ↔
      trace = answeredExchange command maximum expected := by
  refine Iff.trans (runs_answerMax_iff Bool.false_ne_true (by rfl)) ⟨?_, ?_⟩
  · rintro ⟨response, _, rfl, hresponse⟩
    obtain ⟨rfl, rfl⟩ := runs_pure_decide_iff.mp hresponse
    rfl
  · rintro rfl
    exact ⟨expected, [], rfl, runs_pure_decide_iff.mpr ⟨rfl, rfl⟩⟩

theorem readyExchange_succ {busy : Nat} :
    readyExchange (busy + 1) = answeredExchange ready 1 [0x00] ++ readyExchange busy := by
  rw [readyExchange, List.replicate_succ, List.flatMap_cons, List.append_assoc]
  rfl

theorem runs_waitReady_true_iff {attempts : Nat} :
    Runs (waitReady attempts : Usb ε Bool) trace (.ok true) ↔
      ∃ busy < attempts, trace = readyExchange busy := by
  induction attempts generalizing trace with
  | zero =>
    constructor
    · intro h
      cases h
    · rintro ⟨busy, hbusy, _⟩
      cases hbusy
  | succ attempts ih =>
    constructor
    · intro h
      obtain ⟨response, t, rfl, hresponse⟩ :=
        Iff.mp (runs_answerMax_iff Bool.false_ne_true (by rfl)) h
      split at hresponse
      case h_1 value hvalue =>
        cases hvalue
        split at hresponse
        case isTrue hone =>
          obtain ⟨rfl, _⟩ := runs_pure_iff.mp hresponse
          exact ⟨0, Nat.succ_pos _, by rw [hone]; rfl⟩
        case isFalse =>
          split at hresponse
          case isTrue => cases (runs_pure_iff.mp hresponse).2
          case isFalse hzero =>
            obtain ⟨busy, hbusy, rfl⟩ := ih.mp hresponse
            refine ⟨busy + 1, Nat.succ_lt_succ hbusy, ?_⟩
            rw [readyExchange_succ, not_not.mp hzero]
            rfl
      case h_2 => cases (runs_pure_iff.mp hresponse).2
    · rintro ⟨busy, hbusy, rfl⟩
      cases busy with
      | zero => exact .op (.op (runs_pure_iff.mpr ⟨rfl, rfl⟩))
      | succ busy =>
        rw [readyExchange_succ]
        exact .op (.op (ih.mpr ⟨busy, Nat.lt_of_succ_lt_succ hbusy, rfl⟩))

theorem runs_preflight_true_iff :
    Runs (cartridgeReadyPreflight : Usb ε Bool) trace (.ok true) ↔
      ∃ busy < readinessAttempts, trace = preflightExchange busy := by
  simp only [cartridgeReadyPreflight, allOf, runs_both_true_iff, runs_answered_true_iff,
    runs_waitReady_true_iff, runs_pure_iff, preflightExchange]
  constructor
  · rintro ⟨_, _, rfl, rfl, _, _, rfl, ⟨busy, hbusy, rfl⟩, _, _, rfl, rfl, rfl, _⟩
    exact ⟨busy, hbusy, by simp⟩
  · rintro ⟨busy, hbusy, rfl⟩
    exact ⟨_, _, List.append_assoc _ _ _, rfl, _, _, rfl, ⟨busy, hbusy, rfl⟩, _, [],
      by simp, rfl, rfl, trivial⟩

theorem allErased_iff {bytes : Bytes} :
    allErased bytes = true ↔ bytes = List.replicate bytes.length 0xFF := by
  rw [List.eq_replicate_length]
  simp [allErased]

theorem runs_readRegion_iff {command bytes : Bytes} {length : Nat} :
    Runs (readRegion command length : Usb ε (Option Bytes)) trace (.ok (some bytes)) ↔
      bytes.length = length ∧ trace = answeredExchange command length bytes := by
  refine Iff.trans (runs_answerMax_iff (Option.some_ne_none _).symm (by rfl)) ⟨?_, ?_⟩
  · rintro ⟨result, _, rfl, hresult⟩
    obtain ⟨rfl, hsome⟩ := runs_pure_iff.mp hresult
    have hsome := Except.ok.inj hsome
    split at hsome
    case isTrue => cases hsome
    case isFalse hlen =>
      cases hsome
      exact ⟨not_not.mp hlen, rfl⟩
  · rintro ⟨hlen, rfl⟩
    refine ⟨bytes, [], rfl, runs_pure_iff.mpr ⟨rfl, ?_⟩⟩
    rw [if_neg (not_not_intro hlen)]

theorem runs_regionErased_true_iff {command : Bytes} {length : Nat} :
    Runs (regionErased command length : Usb ε Bool) trace (.ok true) ↔
      trace = blankExchange command length := by
  constructor
  · intro h
    obtain ⟨region, t1, t2, rfl, hread, hblank⟩ := runs_bind_ok h
    cases region with
    | none => cases (runs_pure_iff.mp hblank).2
    | some bytes =>
      obtain ⟨hlen, rfl⟩ := runs_readRegion_iff.mp hread
      obtain ⟨rfl, herased⟩ := runs_pure_iff.mp hblank
      have hff := allErased_iff.mp (Except.ok.inj herased).symm
      rw [hlen] at hff
      rw [hff, List.append_nil]
      rfl
  · rintro rfl
    have hread : Runs (readRegion command length : Usb ε (Option Bytes))
        (blankExchange command length) (.ok (some (List.replicate length 0xFF))) :=
      runs_readRegion_iff.mpr ⟨List.length_replicate, rfl⟩
    have herased : allErased (List.replicate length 0xFF) = true :=
      allErased_iff.mpr (by rw [List.length_replicate])
    rw [← List.append_nil (blankExchange command length)]
    exact hread.bind (runs_pure_iff.mpr ⟨rfl, by rw [herased]⟩)

theorem runs_finalCleanup_true_iff :
    Runs (finalCleanup : Usb ε Bool) trace (.ok true) ↔
      trace = cleanupTransfers.flatMap Tx.exchange :=
  @runs_sendAll_true_iff ε trace cleanupTransfers

theorem length_sectors {bank : Nat} : (sectors bank).length = 135 := by
  rw [sectors]
  split
  case isTrue => rfl
  case isFalse => rfl

theorem runs_eraseBank_true_iff {bank : Nat} (hbank : bank ≤ 3) :
    Runs (eraseBank bank : Usb ε Bool) trace (.ok true) ↔ trace = bankExchange bank := by
  rw [eraseBank, if_neg (not_not_intro length_sectors)]
  have hselect : (FlashWindowSelector.select bank : Usb ε Bool) =
      sendAll (FlashWindowSelector.selection bank) := by
    rw [FlashWindowSelector.select, if_neg (Nat.not_lt.mpr hbank)]
  have hsectors : ∀ {t}, Runs (allOf ((sectors bank).map eraseSector) : Usb ε Bool) t (.ok true) ↔
      t = (sectors bank).flatMap eraseExchange := runs_eraseSectors_true_iff
  simp only [allOf, runs_both_true_iff, hselect, runs_sendAll_true_iff, hsectors,
    FlashWindowSelector.finishOperation, runs_pure_iff, bankExchange]
  constructor
  · rintro ⟨_, _, rfl, rfl, _, _, rfl, rfl, _, _, rfl, rfl, rfl, _⟩
    simp
  · rintro rfl
    exact ⟨_, _, List.append_assoc _ _ _, rfl, _, _, rfl, rfl, _, [], by simp, rfl, rfl, trivial⟩

/-- A wipe succeeds in one way only, up to the readiness checks that were answered `00`. -/
theorem runs_execute_true_iff :
    Runs (execute : Usb ε Bool) trace (.ok true) ↔
      ∃ busy < readinessAttempts, trace = preflightExchange busy ++ wipeExchange := by
  have hbanks : ∀ {t}, Runs (allOf ((List.range 4).map eraseBank) : Usb ε Bool) t (.ok true) ↔
      t = (List.range 4).flatMap bankExchange :=
    runs_allOf_mem_true_iff fun bank hbank =>
      runs_eraseBank_true_iff (Nat.le_of_lt_succ (List.mem_range.mp hbank))
  simp only [execute, verifyBlankLikeCapture, allOf, runs_both_true_iff, runs_preflight_true_iff,
    hbanks, runs_clearAll_true_iff, runs_finalCleanup_true_iff, runs_regionErased_true_iff,
    runs_pure_iff, wipeExchange]
  constructor
  · rintro ⟨_, _, rfl, ⟨busy, hbusy, rfl⟩, _, _, rfl, rfl, _, _, rfl, rfl, _, _, rfl, rfl, _, _,
      rfl, ⟨_, _, rfl, rfl, _, _, rfl, rfl, rfl, _⟩, rfl, _⟩
    exact ⟨busy, hbusy, by simp⟩
  · rintro ⟨busy, hbusy, rfl⟩
    exact ⟨_, _, rfl, ⟨busy, hbusy, rfl⟩, _, _, rfl, rfl, _, _, rfl, rfl, _, _, rfl, rfl, _, [],
      (List.append_nil _).symm, ⟨_, _, rfl, rfl, _, [], (List.append_nil _).symm, rfl, rfl,
      trivial⟩, rfl, trivial⟩

end Acknowledged

/-! ## On the cartridge -/

/-- A window selected, erased sector by sector and left. -/
def eraseWindow (c : Cartridge) (bank : Nat) : Cartridge :=
  FlashWindowSelector.statusTail.foldl Cartridge.transfer
    ((sectors bank).foldl Cartridge.erase
      ((FlashWindowSelector.selection bank).foldl Cartridge.transfer c))

def wiped (c : Cartridge) : Cartridge :=
  cleanupTransfers.foldl Cartridge.transfer
    (clearedBanks.foldl Cartridge.writeBank ((List.range 4).foldl eraseWindow c))

section Wiped

variable {c : Cartridge} {d' : Device}

theorem sectors_lt {bank : Nat} : ∀ a ∈ sectors bank, a < 2 ^ 32 := by
  rw [sectors]
  split
  case isTrue => exact bank0_lt
  case isFalse => exact bank1_lt

theorem path_bankExchange_iff {bank : Nat} :
    Path env ⟨c, .command⟩ (bankExchange bank) d' ↔ d' = ⟨eraseWindow c bank, .command⟩ := by
  rw [bankExchange, path_append_iff]
  simp only [path_append_iff, path_sendAll_iff, path_eraseSectors_iff sectors_lt, exists_eq_left]
  rfl

theorem path_readyExchange_iff {busy : Nat} :
    Path env ⟨c, .command⟩ (readyExchange busy) d' ↔ d' = ⟨c, .command⟩ := by
  induction busy with
  | zero => exact path_query_iff (by decide) (by decide)
  | succ busy ih =>
    have hready : ∀ {m}, Path env ⟨c, .command⟩ (answeredExchange ready 1 [0x00]) m ↔
        m = ⟨c, .command⟩ := path_query_iff (by decide) (by decide)
    rw [readyExchange_succ, path_append_iff]
    simp only [hready, exists_eq_left, ih]

theorem path_preflight_iff {busy : Nat} :
    Path env ⟨c, .command⟩ (preflightExchange busy) d' ↔ d' = ⟨c, .command⟩ := by
  have hreset : ∀ {m}, Path env ⟨c, .command⟩ (answeredExchange reset 1 [0x00]) m ↔
      m = ⟨c, .command⟩ := path_query_iff (by decide) (by decide)
  have hsetup : ∀ {m}, Path env ⟨c, .command⟩ (answeredExchange setup 13 setup) m ↔
      m = ⟨c, .command⟩ := path_query_iff (by decide) (by decide)
  rw [preflightExchange, path_append_iff]
  simp only [path_append_iff, hreset, exists_eq_left, path_readyExchange_iff, hsetup]

theorem path_wipe_iff {busy : Nat} :
    Path env ⟨c, .command⟩ (preflightExchange busy ++ wipeExchange) d' ↔
      d' = ⟨wiped c, .command⟩ := by
  have hbanks : ∀ {c d'}, Path env ⟨c, .command⟩ ((List.range 4).flatMap bankExchange) d' ↔
      d' = ⟨(List.range 4).foldl eraseWindow c, .command⟩ :=
    path_flatMap_iff fun _ _ => path_bankExchange_iff
  have hfirst : ∀ {c d'}, Path env ⟨c, .command⟩ (blankExchange firstCommand 172) d' ↔
      d' = ⟨c, .command⟩ := path_query_iff (by decide) (by decide)
  have hsecond : ∀ {c d'}, Path env ⟨c, .command⟩ (blankExchange secondCommand 32) d' ↔
      d' = ⟨c, .command⟩ := path_query_iff (by decide) (by decide)
  rw [path_append_iff]
  simp only [wipeExchange, path_append_iff, path_preflight_iff, hbanks, path_writeBanks_iff,
    path_sendAll_iff, hfirst, hsecond, exists_eq_left]
  rfl

/-- What was blank stays blank, and the window becomes so. -/
theorem blank_eraseWindow {bank x : Nat} (hbank : bank ≤ 3)
    (h : c.flash.mem x = 0xFF ∨
      bank * flashWindowSize ≤ x ∧ x < bank * flashWindowSize + flashWindowSize) :
    (eraseWindow c bank).flash.mem x = 0xFF := by
  rw [eraseWindow, mem_sendAll]
  refine blank_erases ?_
  rw [mem_sendAll, window_selection hbank]
  refine h.imp_right fun hx => ?_
  obtain heven | hodd := Nat.mod_two_eq_zero_or_one bank
  · have hsectors : sectors bank = full128MbBank0EraseAddresses := if_pos (by omega)
    rw [hsectors]
    exact (erased_bank0 heven).mpr hx
  · have hsectors : sectors bank = full128MbBank1EraseAddresses := if_neg (by omega)
    rw [hsectors]
    exact (erased_bank1 hodd).mpr hx

theorem blank_eraseWindows {banks : List Nat} {x : Nat} (hbanks : ∀ bank ∈ banks, bank ≤ 3)
    (h : c.flash.mem x = 0xFF ∨ ∃ bank ∈ banks,
      bank * flashWindowSize ≤ x ∧ x < bank * flashWindowSize + flashWindowSize) :
    (banks.foldl eraseWindow c).flash.mem x = 0xFF := by
  induction banks generalizing c with
  | nil =>
    obtain h | ⟨bank, hmem, _⟩ := h
    · exact h
    · cases hmem
  | cons bank rest ih =>
    obtain ⟨hbank, hrest⟩ := List.forall_mem_cons.mp hbanks
    rw [List.foldl_cons]
    refine ih hrest ?_
    obtain h | ⟨other, hmem, hx⟩ := h
    · exact .inl (blank_eraseWindow hbank (.inl h))
    · obtain rfl | hmem := List.mem_cons.mp hmem
      · exact .inl (blank_eraseWindow hbank (.inr hx))
      · exact .inr ⟨other, hmem, hx⟩

theorem blank_wiped {x : Nat} (hx : x < maxCardImage) : (wiped c).flash.mem x = 0xFF := by
  rw [wiped, mem_sendAll, mem_writeBanks]
  refine blank_eraseWindows (fun bank hbank => Nat.le_of_lt_succ (List.mem_range.mp hbank)) ?_
  have hsize : maxCardImage = 4 * flashWindowSize := rfl
  have hpos : 0 < flashWindowSize := by decide
  refine .inr ⟨x / flashWindowSize, ?_, Nat.div_mul_le_self x flashWindowSize, ?_⟩
  · exact List.mem_range.mpr (Nat.div_lt_of_lt_mul (by rw [Nat.mul_comm]; omega))
  · exact Nat.lt_div_mul_add hpos

theorem zero_wiped {bank : UInt16} (hbank : ProvenBank bank) {i : Nat} (hi : i < bankSize) :
    (wiped c).saves bank i = 0 := by
  rw [wiped, saves_two (by simp [cleanupTransfers])]
  exact zero_writeBanks (fun _ h => mem_allBanks_iff.mp h) hi (.inr (mem_allBanks_iff.mpr hbank))

end Wiped

/-! ## The wipe -/

section Wipe

variable {ε : Type}

/-- The packet is no erase command. -/
def NoErase : Transport.Op → Prop := Transport.Sends fun data => data.take 3 ≠ eraseOpcode

section Sent

variable {A : Transport.Op → Prop}

theorem always_answered {command expected : Bytes} {maximum : Nat} (hout : A (.out command))
    (hin : A (.inMax maximum)) :
    Always A Returns (answered command maximum expected : Usb ε Bool) :=
  always_answer hout (always_inMax hin) trivial fun _ => trivial

theorem always_waitReady {attempts : Nat} (hout : A (.out ready)) (hin : A (.inMax 1)) :
    Always A Returns (waitReady attempts : Usb ε Bool) := by
  induction attempts with
  | zero => trivial
  | succ attempts ih =>
    refine always_answer hout (always_inMax hin) trivial fun response => ?_
    split
    case h_1 value _ =>
      split
      case isTrue => trivial
      case isFalse =>
        split
        case isTrue => trivial
        case isFalse => exact ih
    case h_2 => trivial

theorem always_preflightOf (hout : ∀ command ∈ [reset, ready, setup], A (.out command))
    (hin : ∀ maximum, A (.inMax maximum)) :
    Always A Returns (cartridgeReadyPreflight : Usb ε Bool) := by
  simp only [List.forall_mem_cons] at hout
  obtain ⟨hreset, hready, hsetup, _⟩ := hout
  refine always_allOf ?_
  simp only [List.forall_mem_cons]
  exact ⟨always_answered hreset (hin 1), always_waitReady hready (hin 1),
    always_answered hsetup (hin 13), by simp⟩

end Sent

theorem always_preflight : Always NoErase Returns (cartridgeReadyPreflight : Usb ε Bool) :=
  always_preflightOf (by decide : ∀ command ∈ [reset, ready, setup], command.take 3 ≠ eraseOpcode)
    fun _ => trivial

/-- Nothing is erased before the preflight, and a wipe that reports success leaves the 32 MiB of
flash blank and the four save banks zero, whatever was there before. -/
theorem execute_wipes :
    (∀ before erase sent after out,
      Runs (execute : Usb ε Bool) (before ++ ⟨.out erase, sent⟩ :: after) out →
      erase.take 3 = eraseOpcode →
      ∃ busy < readinessAttempts, ∃ rest, before = preflightExchange busy ++ rest) ∧
    ∀ (d d' : Device) (trace : List Transport.Event), d.Idle →
      Runs (execute : Usb ε Bool) trace (.ok true) → Path env d trace d' →
      (∀ x < maxCardImage, d'.cartridge.flash.mem x = 0xFF) ∧
      ∀ bank, ProvenBank bank → ∀ i < bankSize, d'.cartridge.saves bank i = 0 := by
  constructor
  · intro before erase sent after out run herase
    obtain ⟨t, rest, rfl, hready, _⟩ := always_preflight.both_after run (not_not_intro herase)
    obtain ⟨busy, hbusy, rfl⟩ := runs_preflight_true_iff.mp hready
    exact ⟨busy, hbusy, rest, rfl⟩
  · rintro ⟨c, waiting⟩ d' trace hidle run path
    obtain rfl : waiting = .command := hidle
    obtain ⟨busy, _, rfl⟩ := runs_execute_true_iff.mp run
    obtain rfl := path_wipe_iff.mp path
    exact ⟨fun x hx => blank_wiped hx, fun bank hbank i hi => zero_wiped hbank hi⟩

/-- A card full of data. -/
def fullCartridge : Cartridge := ⟨⟨fun _ => 0x42, 2, []⟩, fun _ _ => 0x17, 0x0910⟩

/-- It is wiped over a bridge that is ready at once. -/
theorem execute_wipes_full :
    Runs (execute : Usb Empty Bool) (preflightExchange 0 ++ wipeExchange) (.ok true) ∧
    Path env ⟨fullCartridge, .command⟩ (preflightExchange 0 ++ wipeExchange)
      ⟨wiped fullCartridge, .command⟩ ∧
    (∃ before after, preflightExchange 0 ++ wipeExchange =
        before ++ ⟨.out (eraseCommand 0), true⟩ :: after ∧
      ∃ busy < readinessAttempts, ∃ rest, before = preflightExchange busy ++ rest) ∧
    (∀ x < maxCardImage, (wiped fullCartridge).flash.mem x = 0xFF) ∧
    ∀ bank, ProvenBank bank → ∀ i < bankSize, (wiped fullCartridge).saves bank i = 0 := by
  obtain ⟨after, hsplit⟩ : ∃ after, preflightExchange 0 ++ wipeExchange =
      (preflightExchange 0 ++ (FlashWindowSelector.selection 0).flatMap Tx.exchange) ++
        ⟨.out (eraseCommand 0), true⟩ :: after := by
    have hsectors : sectors 0 = 0 :: (sectors 0).tail := rfl
    have hbanks : List.range 4 = 0 :: (List.range 4).tail := rfl
    rw [wipeExchange, hbanks, List.flatMap_cons, bankExchange, hsectors, List.flatMap_cons,
      eraseExchange]
    exact ⟨_, by simp only [List.append_assoc, List.cons_append, List.nil_append]; rfl⟩
  have hrun : Runs (execute : Usb Empty Bool) (preflightExchange 0 ++ wipeExchange) (.ok true) :=
    runs_execute_true_iff.mpr ⟨0, by decide, rfl⟩
  have hpath : Path env ⟨fullCartridge, .command⟩ (preflightExchange 0 ++ wipeExchange)
      ⟨wiped fullCartridge, .command⟩ := path_wipe_iff.mpr rfl
  have hrun' := hrun
  rw [hsplit] at hrun'
  obtain ⟨hflash, hsaves⟩ := execute_wipes.2 ⟨fullCartridge, .command⟩
    ⟨wiped fullCartridge, .command⟩ _ rfl hrun hpath
  exact ⟨hrun, hpath, ⟨_, _, hsplit, execute_wipes.1 _ _ _ _ _ hrun' rfl⟩, hflash, hsaves⟩

end Wipe

end CardWipeWorkflow

end Ezfadvance
