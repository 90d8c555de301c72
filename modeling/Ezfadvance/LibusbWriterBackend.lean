import Ezfadvance.Cartridge
import Ezfadvance.Verification
import Mathlib.Data.List.Forall2

/-!
# LibusbWriterBackend

The writer's side of the bridge (`libusb_writer_backend.cpp`): the original manager's card probe, the
startup polls, and the erase and program phases of `FlashWriter` as the traces they leave.

* `ProbeStep`: the requests of the probe. All but the bridge startup is one list of them.
* `Prepared`: the trace of a probe, three polls and a clear of the four banks, all acknowledged.
* `eraseTrace`, `programTrace`: what the erase and program phases exchange when nothing fails.
* `runs_…_true_iff`: a phase succeeds in one way only.
* `runs_program_before`: what precedes a program command is what the blocks before it exchanged.
-/

namespace Ezfadvance

open Interact Interact.Program CartridgeFormat Protocol Usb FlashWindowSelector

namespace LibusbWriterBackend

/-- A `0x92/02` command for another word than the first. -/
def command92TwoAt (wordAddress : UInt32) : Bytes := command 0x92 0x02 wordAddress 2 0x00

/-- A request of the manager's probe. What a `read` returns is only printed. -/
inductive ProbeStep where
  | transfer (tx : Tx)
  | twoAt (wordAddress : UInt32) (first second : UInt8)
  | read (command : Bytes) (wanted : Nat)
  | echo (command : Bytes)

namespace ProbeStep

variable {ε : Type}

def send : ProbeStep → Usb ε Bool
  | .transfer tx => tx.send
  | .twoAt wordAddress first second =>
    commandDataEcho (command92TwoAt wordAddress) [first, second]
  | .read command wanted => do
    if !(← out command) then return false
    match ← inExact wanted with
    | none => return false
    | some _ => return true
  | .echo command => do
    if !(← out command) then return false
    match ← inExact command.length with
    | none => return false
    | some response => return decide (response = command)

end ProbeStep

def managerRead91Sub2 : ProbeStep := .read (command 0x91 0x02 0 4 0x00) 4

def managerRead91Normal (wordAddress : UInt32) (length : Nat) : ProbeStep :=
  .read (command 0x91 0x00 wordAddress (UInt32.ofNat length) 0x00) length

def managerProbeUnlockTail : List ProbeStep :=
  [.transfer (.two 0xAA 0x55), .transfer (.two 0x00 0x00), .transfer (.two 0x00 0x00),
    .transfer (.two 0x00 0x00), .transfer (.one 0x00 0xAA), .transfer (.one 0x00 0x55),
    .transfer (.one 0x01 0x06)]

def managerProbePrefix (a0 a1 b0 b1 c0 c1 : UInt8) (includeTail : Bool) : List ProbeStep :=
  [.transfer (.two 0x55 0xAA), .transfer (.two a0 a1), .transfer (.two b0 b1),
    .transfer (.two c0 c1)] ++
    if includeTail then managerProbeUnlockTail else []

def managerProbeResetAfterId (useF0 : Bool) : List ProbeStep :=
  [.transfer (.two (if useF0 then 0xF0 else 0xFF) (if useF0 then 0x00 else 0xFF)),
    .transfer (.one 0x01 0x04), .transfer (.one 0x00 0x00), .transfer (.one 0x00 0x00)]

def managerFlashIdProbe (a0 a1 b0 b1 c0 c1 : UInt8) : List ProbeStep :=
  managerProbePrefix a0 a1 b0 b1 c0 c1 true ++ [.transfer (.two 0x90 0x00), managerRead91Sub2] ++
    managerProbeResetAfterId false

/-- The part of `original_manager_initialize_and_check` behind the bridge startup. -/
def managerCheck : List ProbeStep :=
  managerProbePrefix 0x00 0x00 0x00 0x00 0x00 0x00 true ++
    [.twoAt 0x555 0xAA 0x00, .twoAt 0x2AA 0x55 0x00, .twoAt 0x555 0x90 0x00, managerRead91Sub2,
      .transfer (.two 0x90 0x00)] ++
    managerProbeResetAfterId true ++
    managerFlashIdProbe 0x00 0x00 0x00 0x00 0x00 0x00 ++
    managerFlashIdProbe 0x02 0x00 0x00 0x40 0x00 0x00 ++
    managerFlashIdProbe 0x02 0x00 0x00 0x80 0x00 0x00 ++
    managerFlashIdProbe 0x02 0x00 0x00 0xC0 0x00 0x00 ++
    managerFlashIdProbe 0x00 0x00 0x00 0x00 0x02 0x00 ++
    managerProbePrefix 0x00 0x00 0x00 0x00 0x00 0x00 false ++
    [.echo (command 0x95 0x00 0x80 0 0x00), managerRead91Normal 0 0xAC]

section Backend

variable {ε : Type}

def c97 : Bytes := command 0x97 0x00 0 0 0x00
def c98 : Bytes := command 0x98 0x00 0 0 0x00
def c99 : Bytes := command 0x99 0x00 1 0 0x00

def readinessAttempts : Nat := 5

/-- A command whose one-byte answer must be `expected`. -/
def answeredByte (command : Bytes) (expected : UInt8) : Usb ε Bool := do
  if !(← out command) then return false
  match ← inExact 1 with
  | none => return false
  | some response => return decide (response.getD 0 0 = expected)

def waitReady : Nat → Usb ε Bool
  | 0 => .pure false
  | attempts + 1 => do
    if !(← out c98) then return false
    match ← inExact 1 with
    | none => return false
    | some response =>
      if response.getD 0 0 = 0x01 then return true
      else if response.getD 0 0 ≠ 0x00 then return false
      else waitReady attempts

def originalBridgeStartup979899 : Usb ε Bool :=
  allOf [answeredByte c97 0x00, waitReady readinessAttempts, (ProbeStep.echo c99).send]

def originalManagerInitializeAndCheck : Usb ε Bool :=
  both originalBridgeStartup979899 (allOf (managerCheck.map ProbeStep.send))

def initializeBridge : Usb ε Bool := allOf ((List.range 3).map fun _ => answeredByte c98 0x01)

def prepareGlobalWrite : Usb ε Bool := SaveBankCleaner.clearAll

def clearSaveBanks : Usb ε Bool := SaveBankCleaner.clearAll

end Backend

/-! ## Acknowledged probes -/

/-- A command and what was read after it. -/
def readTrace (command : Bytes) (wanted : Nat) (data : Bytes) : List Transport.Event :=
  [⟨.out command, true⟩, ⟨.inExact wanted, some data⟩]

/-- The step was answered, and as it has to be. -/
def ProbeStep.Answered : ProbeStep → List Transport.Event → Prop
  | .transfer tx, trace => trace = tx.exchange
  | .twoAt wordAddress first second, trace =>
    trace = exchange (command92TwoAt wordAddress) [first, second]
  | .read command wanted, trace => ∃ data, trace = readTrace command wanted data
  | .echo command, trace => trace = readTrace command command.length command

/-- `0x97` answered `00`, `0x98` answered `00` as long as it was not ready and then `01`, and `0x99`
echoed. -/
def startupTrace (busy : Nat) : List Transport.Event :=
  readTrace c97 1 [0x00] ++ (List.replicate busy [0x00]).flatMap (readTrace c98 1) ++
    readTrace c98 1 [0x01] ++ readTrace c99 c99.length c99

/-- The preflight probe with every request acknowledged. -/
def Probed (trace : List Transport.Event) : Prop :=
  ∃ busy < readinessAttempts, ∃ answers, List.Forall₂ ProbeStep.Answered managerCheck answers ∧
    trace = startupTrace busy ++ answers.flatten

def pollsTrace : List Transport.Event :=
  (List.replicate 3 [0x01]).flatMap (readTrace c98 1)

/-- The probe, the three polls and the clear of the four save banks, all acknowledged. -/
def Prepared (trace : List Transport.Event) : Prop :=
  ∃ probe, Probed probe ∧
    trace = probe ++ pollsTrace ++ clearedBanks.flatMap writeBankExchange

section Acknowledged

variable {ε : Type} {trace : List Transport.Event}

theorem runs_answeredByte {command : Bytes} {expected : UInt8}
    (hlegal : ∀ e ∈ trace, Transport.Legal e)
    (h : Runs (answeredByte command expected : Usb ε Bool) trace (.ok true)) :
    trace = readTrace command 1 [expected] := by
  obtain ⟨response, _, rfl, hresponse⟩ :=
    Iff.mp (runs_answerExact_iff Bool.false_ne_true (by rfl)) h
  obtain ⟨rfl, hok⟩ := runs_pure_decide_iff.mp hresponse
  have hlen : response.length = 1 := hlegal ⟨.inExact 1, some response⟩ (by simp)
  obtain ⟨b, rfl⟩ := List.length_eq_one_iff.mp hlen
  rw [← hok]
  rfl

theorem runs_answeredByte_trace {command : Bytes} {expected : UInt8} :
    Runs (answeredByte command expected : Usb ε Bool) (readTrace command 1 [expected])
      (.ok true) :=
  .op (.op (runs_pure_iff.mpr ⟨rfl, by simp⟩))

theorem runs_probeStep_true_iff {step : ProbeStep} :
    Runs (step.send : Usb ε Bool) trace (.ok true) ↔ step.Answered trace := by
  cases step with
  | transfer tx => exact runs_send_true_iff
  | twoAt wordAddress first second => exact runs_commandDataEcho_true_iff
  | read command wanted =>
    refine Iff.trans (runs_answerExact_iff Bool.false_ne_true (by rfl)) ⟨?_, ?_⟩
    · rintro ⟨response, _, rfl, hresponse⟩
      obtain ⟨rfl, _⟩ := runs_pure_iff.mp hresponse
      exact ⟨response, rfl⟩
    · rintro ⟨response, rfl⟩
      exact ⟨response, [], rfl, runs_pure_iff.mpr ⟨rfl, rfl⟩⟩
  | echo command =>
    refine Iff.trans (runs_answerExact_iff Bool.false_ne_true (by rfl)) ⟨?_, ?_⟩
    · rintro ⟨response, _, rfl, hresponse⟩
      obtain ⟨rfl, rfl⟩ := runs_pure_decide_iff.mp hresponse
      rfl
    · rintro rfl
      exact ⟨command, [], rfl, runs_pure_decide_iff.mpr ⟨rfl, rfl⟩⟩

theorem runs_waitReady {attempts : Nat} (hlegal : ∀ e ∈ trace, Transport.Legal e)
    (h : Runs (waitReady attempts : Usb ε Bool) trace (.ok true)) :
    ∃ busy < attempts, trace =
      (List.replicate busy [0x00]).flatMap (readTrace c98 1) ++ readTrace c98 1 [0x01] := by
  induction attempts generalizing trace with
  | zero => cases h
  | succ attempts ih =>
    obtain ⟨response, t, rfl, hresponse⟩ :=
      Iff.mp (runs_answerExact_iff Bool.false_ne_true (by rfl)) h
    have hlen : response.length = 1 := hlegal ⟨.inExact 1, some response⟩ (by simp)
    obtain ⟨b, rfl⟩ := List.length_eq_one_iff.mp hlen
    dsimp only at hresponse
    split at hresponse
    case isTrue hone =>
      obtain ⟨rfl, _⟩ := runs_pure_iff.mp hresponse
      obtain rfl : b = 0x01 := hone
      exact ⟨0, Nat.succ_pos _, rfl⟩
    case isFalse =>
      split at hresponse
      case isTrue => cases (runs_pure_iff.mp hresponse).2
      case isFalse hzero =>
        obtain rfl : b = 0x00 := not_not.mp hzero
        obtain ⟨busy, hbusy, rfl⟩ := ih (fun e he => hlegal e (by simp [he])) hresponse
        exact ⟨busy + 1, Nat.succ_lt_succ hbusy, rfl⟩

theorem runs_waitReady_trace {attempts busy : Nat} (hbusy : busy < attempts) :
    Runs (waitReady attempts : Usb ε Bool)
      ((List.replicate busy [0x00]).flatMap (readTrace c98 1) ++ readTrace c98 1 [0x01])
      (.ok true) := by
  induction busy generalizing attempts with
  | zero =>
    obtain ⟨attempts, rfl⟩ := Nat.exists_eq_add_one.mpr hbusy
    exact .op (.op (runs_pure_iff.mpr ⟨rfl, rfl⟩))
  | succ busy ih =>
    obtain ⟨attempts, rfl⟩ := Nat.exists_eq_add_one.mpr (Nat.zero_lt_of_lt hbusy)
    exact .op (.op (ih (Nat.lt_of_succ_lt_succ hbusy)))

theorem runs_startup {trace : List Transport.Event} (hlegal : ∀ e ∈ trace, Transport.Legal e)
    (h : Runs (originalBridgeStartup979899 : Usb ε Bool) trace (.ok true)) :
    ∃ busy < readinessAttempts, trace = startupTrace busy := by
  simp only [originalBridgeStartup979899, allOf, runs_both_true_iff, runs_pure_iff,
    runs_probeStep_true_iff] at h
  obtain ⟨t1, _, rfl, hreset, t2, _, rfl, hready, t3, _, rfl, rfl, rfl, _⟩ := h
  obtain ⟨hlegal1, hlegal2⟩ := List.forall_mem_append.mp hlegal
  obtain ⟨hlegal2, _⟩ := List.forall_mem_append.mp hlegal2
  obtain rfl := runs_answeredByte hlegal1 hreset
  obtain ⟨busy, hbusy, rfl⟩ := runs_waitReady hlegal2 hready
  exact ⟨busy, hbusy, by simp [startupTrace]⟩

theorem runs_startup_trace {busy : Nat} (hbusy : busy < readinessAttempts) :
    Runs (originalBridgeStartup979899 : Usb ε Bool) (startupTrace busy) (.ok true) := by
  simp only [originalBridgeStartup979899, allOf, runs_both_true_iff, runs_pure_iff,
    runs_probeStep_true_iff]
  exact ⟨_, _, by simp only [startupTrace, List.append_assoc], runs_answeredByte_trace, _, _,
    (List.append_assoc _ _ _).symm, runs_waitReady_trace hbusy, _, [], (List.append_nil _).symm,
    rfl, rfl, trivial⟩

theorem runs_preflight (hlegal : ∀ e ∈ trace, Transport.Legal e)
    (h : Runs (originalManagerInitializeAndCheck : Usb ε Bool) trace (.ok true)) :
    Probed trace := by
  obtain ⟨t1, t2, rfl, hstartup, hcheck⟩ := runs_both_true_iff.mp h
  obtain ⟨busy, hbusy, rfl⟩ := runs_startup (List.forall_mem_append.mp hlegal).1 hstartup
  obtain ⟨answers, hanswers, rfl⟩ := runs_allOf_map_iff.mp hcheck
  exact ⟨busy, hbusy, answers, hanswers.imp fun _ _ => runs_probeStep_true_iff.mp, rfl⟩

theorem Probed.runs (h : Probed trace) :
    Runs (originalManagerInitializeAndCheck : Usb ε Bool) trace (.ok true) := by
  obtain ⟨busy, hbusy, answers, hanswers, rfl⟩ := h
  exact (runs_startup_trace hbusy).both (runs_allOf_map_iff.mpr
    ⟨answers, hanswers.imp fun _ _ => runs_probeStep_true_iff.mpr, rfl⟩)

theorem polls_eq :
    ((List.range 3).map fun _ => answeredByte c98 0x01 : List (Usb ε Bool)) =
      [answeredByte c98 0x01, answeredByte c98 0x01, answeredByte c98 0x01] := rfl

theorem runs_initializeBridge (hlegal : ∀ e ∈ trace, Transport.Legal e)
    (h : Runs (initializeBridge : Usb ε Bool) trace (.ok true)) : trace = pollsTrace := by
  simp only [initializeBridge, polls_eq, allOf, runs_both_true_iff, runs_pure_iff] at h
  obtain ⟨t1, _, rfl, h1, t2, _, rfl, h2, t3, _, rfl, h3, rfl, _⟩ := h
  obtain ⟨hlegal1, hlegal⟩ := List.forall_mem_append.mp hlegal
  obtain ⟨hlegal2, hlegal⟩ := List.forall_mem_append.mp hlegal
  obtain ⟨hlegal3, _⟩ := List.forall_mem_append.mp hlegal
  obtain rfl := runs_answeredByte hlegal1 h1
  obtain rfl := runs_answeredByte hlegal2 h2
  obtain rfl := runs_answeredByte hlegal3 h3
  rfl

theorem runs_initializeBridge_trace :
    Runs (initializeBridge : Usb ε Bool) pollsTrace (.ok true) := by
  simp only [initializeBridge, polls_eq, allOf, runs_both_true_iff, runs_pure_iff]
  exact ⟨_, _, rfl, runs_answeredByte_trace, _, _, rfl, runs_answeredByte_trace, _, [], rfl,
    runs_answeredByte_trace, rfl, trivial⟩

end Acknowledged

/-! ## The erase phase -/

def windowTrace (window : Nat) : List Transport.Event := (selection window).flatMap Tx.exchange

def finishTrace : List Transport.Event := statusTail.flatMap Tx.exchange

/-- The erases of the groups from number `gi` on, each with status 0. -/
def eraseGroupsTrace : Nat → List (Nat × List Nat) → List Transport.Event
  | _, [] => []
  | gi, (window, addresses) :: groups =>
    (if gi ≠ 0 then finishTrace ++ windowTrace window else []) ++
      (addresses.flatMap eraseExchange ++ eraseGroupsTrace (gi + 1) groups)

/-- Every planned erase. -/
def eraseTrace (programmedSize : Nat) : List Transport.Event :=
  eraseGroupsTrace 0 (eraseGroups programmedSize)

section Erase

variable {ε : Type} {trace : List Transport.Event}

theorem runs_select_true_iff {window : Nat} (hw : window ≤ 3) :
    Runs (select window : Usb ε Bool) trace (.ok true) ↔ trace = windowTrace window := by
  rw [select, if_neg (Nat.not_lt.mpr hw), runs_sendAll_true_iff]
  rfl

theorem runs_finish_true_iff :
    Runs (finishOperation : Usb ε Bool) trace (.ok true) ↔ trace = finishTrace :=
  runs_sendAll_true_iff

theorem runs_windowSwitch_true_iff {window : Nat} (hw : window ≤ 3) :
    Runs (allOf [finishOperation, select window] : Usb ε Bool) trace (.ok true) ↔
      trace = finishTrace ++ windowTrace window := by
  simp only [allOf, runs_both_true_iff, runs_finish_true_iff, runs_select_true_iff hw,
    runs_pure_iff]
  constructor
  · rintro ⟨_, _, rfl, rfl, _, _, rfl, rfl, rfl, _⟩
    rw [List.append_nil]
  · rintro rfl
    exact ⟨_, _, rfl, rfl, _, [], (List.append_nil _).symm, rfl, rfl, trivial⟩

theorem runs_eraseGroups_true_iff {groups : List (Nat × List Nat)} {gi : Nat}
    (hg : ∀ g ∈ groups, g.1 ≤ 3) :
    Runs (eraseGroupsFrom gi groups : Usb ε Bool) trace (.ok true) ↔
      trace = eraseGroupsTrace gi groups := by
  induction groups generalizing gi trace with
  | nil => exact runs_allOf_nil_iff
  | cons g rest ih =>
    obtain ⟨hw, hrest⟩ := List.forall_mem_cons.mp hg
    have hswitch : ∀ {t}, Runs (if gi ≠ 0 then allOf [finishOperation, select g.1] else .pure true :
        Usb ε Bool) t (.ok true) ↔
        t = if gi ≠ 0 then finishTrace ++ windowTrace g.1 else [] := by
      intro t
      split
      · exact runs_windowSwitch_true_iff hw
      · exact runs_allOf_nil_iff
    simp only [eraseGroupsFrom, allOf, runs_both_true_iff, runs_eraseSectors_true_iff, ih hrest,
      runs_pure_iff, eraseGroupsTrace] at hswitch ⊢
    simp only [hswitch]
    constructor
    · rintro ⟨_, _, rfl, rfl, _, _, rfl, rfl, _, _, rfl, rfl, rfl, _⟩
      rw [List.append_nil]
    · rintro rfl
      exact ⟨_, _, rfl, rfl, _, _, rfl, rfl, _, [], (List.append_nil _).symm, rfl, rfl, trivial⟩

theorem eraseGroupsTrace_single {window : Nat} {addresses : List Nat} :
    eraseGroupsTrace 0 [(window, addresses)] = addresses.flatMap eraseExchange := by
  simp [eraseGroupsTrace]

theorem runs_erase_true_iff {programmedSize : Nat} :
    Runs (eraseImageCaptureFaithful programmedSize : Usb ε Bool) trace (.ok true) ↔
      trace = eraseTrace programmedSize := by
  rw [eraseImageCaptureFaithful, eraseTrace, eraseGroups]
  by_cases h8 : programmedSize ≤ flashWindowSize
  · rw [if_pos h8, if_pos h8, runs_eraseSectors_true_iff, eraseGroupsTrace_single]
  · rw [if_neg h8, if_neg h8]
    exact runs_eraseGroups_true_iff fun g hg => (multiWindowGroups_ok g hg).1

end Erase

/-! ## The program phase -/

def blockData (image : Bytes) (k : Nat) : Bytes := (image.drop (k * programBlock)).take programBlock

/-- The command for block `k`, the bytes of the image from `k * programBlock` on. -/
def programCommand (image : Bytes) (k : Nat) : Bytes :=
  command 0x92 0x00 (UInt32.ofNat (k * programBlock % flashWindowSize / 2))
    (UInt32.ofNat (blockData image k).length) 0x41

def switchTrace (k : Nat) : List Transport.Event :=
  if k * programBlock ≠ 0 ∧ k * programBlock % flashWindowSize = 0 then
    finishTrace ++ windowTrace (k * programBlock / flashWindowSize)
  else []

/-- A block switched to, sent and acknowledged. -/
def blockTrace (image : Bytes) (k : Nat) : List Transport.Event :=
  switchTrace k ++ [⟨.out (programCommand image k), true⟩, ⟨.out (blockData image k), true⟩,
    ⟨.inMax 64, some ((programCommand image k).set 12 0x00)⟩]

def blockCount (image : Bytes) : Nat := (image.length + programBlock - 1) / programBlock

/-- Every planned program command. -/
def programTrace (image : Bytes) : List Transport.Event :=
  (List.range (blockCount image)).flatMap (blockTrace image)

/-- What the loop does for block `k`. -/
def blockProgram (image : Bytes) (k : Nat) : Usb StdException Bool :=
  both (switchProgramWindow (k * programBlock))
    (allOf [out (programCommand image k), out (blockData image k),
      expectReply ((programCommand image k).set 12 0x00)])

section Program

variable {image : Bytes} {trace : List Transport.Event}

theorem programFrom_end {off : Nat} (h : image.length ≤ off) : programFrom image off = .pure true := by
  rw [programFrom, if_neg (Nat.not_lt.mpr h)]

theorem programTransaction_block {k : Nat} :
    programTransactionSingle (UInt32.ofNat (k * programBlock % flashWindowSize))
        ((image.drop (k * programBlock)).take
          (min programBlock (image.length - k * programBlock))) =
      allOf [out (programCommand image k), out (blockData image k),
        expectReply ((programCommand image k).set 12 0x00)] := by
  have hdata : (image.drop (k * programBlock)).take
      (min programBlock (image.length - k * programBlock)) = blockData image k := by
    rw [← List.length_drop, blockData, ← List.take_take, List.take_length]
  have hlocal : 2 ∣ k * programBlock % flashWindowSize ∧
      k * programBlock % flashWindowSize < 2 ^ 32 := by
    simp only [flashWindowSize, programBlock]
    omega
  rw [hdata, programTransactionSingle, makeProgramCommand_even hlocal.1 hlocal.2, ofExcept_ok,
    programCommand]

theorem blockData_flatMap {n : Nat} :
    (List.range n).flatMap (blockData image) = image.take (n * programBlock) := by
  induction n with
  | zero => simp
  | succ n ih =>
    rw [List.range_succ, List.flatMap_append, ih, List.flatMap_singleton, Nat.succ_mul,
      List.take_add, blockData]

/-- The blocks are the image, without gap or overlap. -/
theorem blocks_tile : (List.range (blockCount image)).flatMap (blockData image) = image := by
  rw [blockData_flatMap, List.take_of_length_le]
  simp only [blockCount, programBlock]
  omega

/-- The loop as the list of its blocks, by induction on the blocks left. -/
theorem programFrom_eq {left k : Nat} (hleft : k + left = blockCount image) :
    programFrom image (k * programBlock) =
      allOf ((List.range' k left).map (blockProgram image)) := by
  induction left generalizing k with
  | zero =>
    refine programFrom_end ?_
    simp only [blockCount, programBlock] at hleft ⊢
    omega
  | succ left ih =>
    have hlt : k * programBlock < image.length := by
      simp only [blockCount, programBlock] at hleft ⊢
      omega
    have hnext : programFrom image (k * programBlock +
        min programBlock (image.length - k * programBlock)) =
        programFrom image ((k + 1) * programBlock) := by
      by_cases hfull : (k + 1) * programBlock ≤ image.length
      · rw [Nat.min_eq_left (by rw [Nat.succ_mul] at hfull; omega), Nat.succ_mul]
      · rw [Nat.succ_mul] at hfull
        rw [programFrom_end (by omega), programFrom_end (by rw [Nat.succ_mul]; omega)]
    rw [programFrom, if_pos hlt]
    simp only
    rw [programTransaction_block, hnext, ih (by omega), List.range'_succ, List.map_cons,
      allOf_three]
    rfl

theorem programImage_eq :
    programImage image = allOf ((List.range (blockCount image)).map (blockProgram image)) := by
  rw [programImage, List.range_eq_range', ← programFrom_eq (Nat.zero_add _), Nat.zero_mul]

/-- The blocks of a card image lie in its four windows. -/
theorem window_le {k : Nat} (hcard : image.length ≤ maxCardImage) (hk : k < blockCount image) :
    k * programBlock / flashWindowSize ≤ 3 := by
  simp only [blockCount, programBlock, flashWindowSize, maxCardImage] at *
  omega

theorem runs_switch_true_iff {k : Nat} (hw : k * programBlock / flashWindowSize ≤ 3) :
    Runs (switchProgramWindow (k * programBlock)) trace (.ok true) ↔ trace = switchTrace k := by
  rw [switchProgramWindow, switchTrace]
  by_cases h : k * programBlock ≠ 0 ∧ k * programBlock % flashWindowSize = 0
  · rw [if_pos h, if_pos h, if_neg (Nat.not_lt.mpr hw)]
    exact runs_windowSwitch_true_iff hw
  · rw [if_neg h, if_neg h]
    exact runs_allOf_nil_iff

theorem runs_block_true_iff {k : Nat} (hw : k * programBlock / flashWindowSize ≤ 3) :
    Runs (blockProgram image k) trace (.ok true) ↔ trace = blockTrace image k := by
  simp only [blockProgram, allOf, runs_both_true_iff, runs_switch_true_iff hw, runs_out_true_iff,
    runs_expectReply_true_iff, runs_pure_iff, blockTrace]
  constructor
  · rintro ⟨_, _, rfl, rfl, _, _, rfl, rfl, _, _, rfl, rfl, _, _, rfl, rfl, rfl, _⟩
    rfl
  · rintro rfl
    exact ⟨_, _, rfl, rfl, [_], [_, _], rfl, rfl, [_], [_], rfl, rfl, [_], [], rfl, rfl, rfl,
      trivial⟩

theorem runs_blocks_true_iff {n : Nat} (hcard : image.length ≤ maxCardImage)
    (hn : n ≤ blockCount image) :
    Runs (allOf ((List.range n).map (blockProgram image))) trace (.ok true) ↔
      trace = (List.range n).flatMap (blockTrace image) :=
  runs_allOf_mem_true_iff fun _ hk =>
    runs_block_true_iff (window_le hcard (Nat.lt_of_lt_of_le (List.mem_range.mp hk) hn))

theorem runs_program_true_iff (hcard : image.length ≤ maxCardImage) :
    Runs (programImage image) trace (.ok true) ↔ trace = programTrace image := by
  rw [programImage_eq]
  exact runs_blocks_true_iff hcard le_rfl

end Program

/-! ## What the startup asks -/

section Startup

variable {ε : Type} {A : Transport.Op → Prop}

/-- A command and the answer to it, which is only looked at. -/
theorem always_request {command : Bytes} {wanted : Nat} {accept : Bytes → Bool}
    (hout : A (.out command)) (hin : A (.inExact wanted)) :
    Always A Returns (do
      if !(← out command) then return false
      match ← inExact wanted with
      | none => return false
      | some response => return accept response : Usb ε Bool) :=
  always_answer hout (always_inExact hin) trivial fun _ => trivial

theorem always_waitReady {attempts : Nat} (hout : A (.out c98)) (hin : A (.inExact 1)) :
    Always A Returns (waitReady attempts : Usb ε Bool) := by
  induction attempts with
  | zero => trivial
  | succ attempts ih =>
    refine always_answer hout (always_inExact hin) trivial fun response => ?_
    dsimp only
    split
    · trivial
    · split
      · trivial
      · exact ih

theorem always_startup (hout : ∀ command ∈ [c97, c98, c99], A (.out command))
    (hin : ∀ wanted, A (.inExact wanted)) :
    Always A Returns (originalBridgeStartup979899 : Usb ε Bool) := by
  have hreset : Always A Returns (answeredByte c97 0x00 : Usb ε Bool) :=
    always_request (hout c97 (by simp)) (hin 1)
  have hecho : Always A Returns ((ProbeStep.echo c99).send : Usb ε Bool) :=
    always_request (hout c99 (by simp)) (hin c99.length)
  exact hreset.both ((always_waitReady (hout c98 (by simp)) (hin 1)).both (hecho.both trivial))

theorem always_initializeBridge (hout : A (.out c98)) (hin : A (.inExact 1)) :
    Always A Returns (initializeBridge : Usb ε Bool) := by
  refine always_allOf fun p hp => ?_
  obtain ⟨_, _, rfl⟩ := List.mem_map.mp hp
  exact always_request hout hin

end Startup

/-! ## Erase and program commands -/

/-- A packet that erases a sector: payloads of the writer are not 13 bytes long. -/
def EraseCommand (data : Bytes) : Prop := data.length = 13 ∧ data.take 3 = eraseOpcode

def ProgramCommand (data : Bytes) : Prop := data.length = 13 ∧ data.take 4 = romProgramOpcode

instance (data : Bytes) : Decidable (EraseCommand data) := inferInstanceAs (Decidable (_ ∧ _))

instance (data : Bytes) : Decidable (ProgramCommand data) := inferInstanceAs (Decidable (_ ∧ _))

/-- Sends no program command. -/
def NoProgram : Transport.Op → Prop := Transport.Uses (fun data => ¬ ProgramCommand data) fun _ => True

/-- Sends neither an erase nor a program command. -/
def NoFlash : Transport.Op → Prop :=
  Transport.Uses (fun data => ¬ EraseCommand data ∧ ¬ ProgramCommand data) fun _ => True

theorem NoFlash.noProgram {o : Transport.Op} (h : NoFlash o) : NoProgram o := by
  cases o with
  | out data => exact h.2
  | inExact wanted => trivial
  | inMax maximum => trivial
  | selectBank bankValue => trivial

section Phases

variable {ε : Type}

theorem noFlash_packets {tx : Tx} : ∀ data ∈ tx.packets, NoFlash (.out data) := by
  cases tx with
  | two first second =>
    refine List.forall_mem_cons.mpr ⟨?_, List.forall_mem_singleton.mpr ?_⟩
    · exact (by decide : ¬ EraseCommand command92Two ∧ ¬ ProgramCommand command92Two)
    · exact ⟨fun h => absurd h.1 (by simp), fun h => absurd h.1 (by simp)⟩
  | one selector value =>
    refine List.forall_mem_cons.mpr ⟨?_, List.forall_mem_singleton.mpr ?_⟩
    · exact ⟨fun h => absurd h.2 (by simp [command92One, eraseOpcode]),
        fun h => absurd h.2 (by simp [command92One, romProgramOpcode])⟩
    · exact ⟨fun h => absurd h.1 (by simp), fun h => absurd h.1 (by simp)⟩

theorem noFlash_sendAll {transfers : List Tx} :
    Always NoFlash Returns (sendAll transfers : Usb ε Bool) :=
  always_sendAll (fun _ _ => noFlash_packets) trivial

theorem noFlash_select {window : Nat} : Always NoFlash Returns (select window : Usb ε Bool) := by
  rw [select]
  split
  · trivial
  · exact noFlash_sendAll

theorem noFlash_windowSwitch {window : Nat} :
    Always NoFlash Returns (allOf [finishOperation, select window] : Usb ε Bool) :=
  noFlash_sendAll.both (noFlash_select.both trivial)

theorem noFlash_clearAll : Always NoFlash Returns (SaveBankCleaner.clearAll : Usb ε Bool) := by
  have hzeros : SaveBankCleaner.zeros.length ≠ 13 := by
    rw [SaveBankCleaner.zeros, List.length_replicate]
    decide
  have hpair : ∀ first second : UInt8, ¬ EraseCommand [first, second] ∧
      ¬ ProgramCommand [first, second] :=
    fun first second => ⟨fun h => absurd h.1 (by simp), fun h => absurd h.1 (by simp)⟩
  exact always_clearRange ⟨by decide, hpair⟩ (by decide)
    ⟨fun h => hzeros h.1, fun h => hzeros h.1⟩ fun _ _ _ => trivial

theorem noProgram_eraseSector {wordAddress : Nat} :
    Always NoProgram Returns (eraseSector wordAddress : Usb ε Bool) := by
  have hcommand : NoProgram (.out (eraseCommand wordAddress)) :=
    fun h => absurd h.2 (by simp [eraseCommand, command, romProgramOpcode])
  exact always_answer hcommand (always_inMax trivial) trivial fun _ => trivial

theorem noProgram_eraseSectors {addresses : List Nat} :
    Always NoProgram Returns (eraseSectors addresses : Usb ε Bool) := by
  refine always_allOf fun p hp => ?_
  obtain ⟨a, _, rfl⟩ := List.mem_map.mp hp
  exact noProgram_eraseSector

theorem noProgram_eraseGroups {groups : List (Nat × List Nat)} {gi : Nat} :
    Always NoProgram Returns (eraseGroupsFrom gi groups : Usb ε Bool) := by
  induction groups generalizing gi with
  | nil => trivial
  | cons g rest ih =>
    have hswitch : Always NoProgram Returns (if gi ≠ 0 then
        allOf [finishOperation, select g.1] else .pure true : Usb ε Bool) := by
      split
      · exact noFlash_windowSwitch.weaken fun _ => NoFlash.noProgram
      · trivial
    exact hswitch.both (noProgram_eraseSectors.both (ih.both trivial))

theorem noProgram_erase {programmedSize : Nat} :
    Always NoProgram Returns (eraseImageCaptureFaithful programmedSize : Usb ε Bool) := by
  rw [eraseImageCaptureFaithful]
  split
  · exact noProgram_eraseSectors
  · exact noProgram_eraseGroups

theorem noFlash_switch {off : Nat} : Always NoFlash Returns (switchProgramWindow off) := by
  rw [switchProgramWindow]
  split
  · split
    · trivial
    · exact noFlash_windowSwitch
  · trivial

/-- The requests of a step that no card takes for an erase or program command. -/
def ProbeStep.Quiet : ProbeStep → Prop
  | .read command _ | .echo command => ¬ EraseCommand command ∧ ¬ ProgramCommand command
  | _ => True

instance : (step : ProbeStep) → Decidable step.Quiet
  | .read _ _ => inferInstanceAs (Decidable (_ ∧ _))
  | .echo _ => inferInstanceAs (Decidable (_ ∧ _))
  | .transfer _ => .isTrue trivial
  | .twoAt _ _ _ => .isTrue trivial

theorem noFlash_probeStep {step : ProbeStep} (h : step.Quiet) :
    Always NoFlash Returns (step.send : Usb ε Bool) := by
  cases step with
  | transfer tx => exact always_send noFlash_packets trivial
  | twoAt wordAddress first second =>
    have hcommand : NoFlash (.out (command92TwoAt wordAddress)) :=
      ⟨fun h => absurd h.2 (by simp [command92TwoAt, command, eraseOpcode]),
        fun h => absurd h.2 (by simp [command92TwoAt, command, romProgramOpcode])⟩
    have hpayload : NoFlash (.out [first, second]) :=
      ⟨fun h => absurd h.1 (by simp), fun h => absurd h.1 (by simp)⟩
    exact always_commandDataEcho hcommand hpayload trivial
  | read command wanted => exact always_request h trivial
  | echo command => exact always_request h trivial

theorem quiet_startup : ∀ command ∈ [c97, c98, c99], NoFlash (.out command) := by
  show ∀ command ∈ [c97, c98, c99], ¬ EraseCommand command ∧ ¬ ProgramCommand command
  decide

theorem quiet_managerCheck : ∀ step ∈ managerCheck, step.Quiet := by
  decide +kernel

theorem noFlash_preflight :
    Always NoFlash Returns (originalManagerInitializeAndCheck : Usb ε Bool) := by
  refine (always_startup quiet_startup fun _ => trivial).both (always_allOf fun p hp => ?_)
  obtain ⟨step, hstep, rfl⟩ := List.mem_map.mp hp
  exact noFlash_probeStep (quiet_managerCheck step hstep)

theorem noFlash_initializeBridge :
    Always NoFlash Returns (initializeBridge : Usb ε Bool) :=
  always_initializeBridge (quiet_startup c98 (by decide)) trivial

end Phases

section Program

variable {image : Bytes} {before after : List Transport.Event} {data : Bytes} {sent : Bool}

theorem always_block {A : Transport.Op → Prop} {k : Nat}
    (hswitch : Always A Returns (switchProgramWindow (k * programBlock)))
    (hcommand : A (.out (programCommand image k))) (hdata : A (.out (blockData image k)))
    (hin : A (.inMax 64)) : Always A Returns (blockProgram image k) :=
  hswitch.both ((always_out hcommand).both ((always_out hdata).both
    ((always_expectReply hin).both trivial)))

theorem always_programImage :
    Always (fun _ => True) Returns (programImage image) := by
  rw [programImage_eq]
  refine always_allOf fun p hp => ?_
  obtain ⟨k, _, rfl⟩ := List.mem_map.mp hp
  exact always_block (noFlash_switch.weaken fun _ _ => trivial) trivial trivial trivial

/-- The blocks of an image whose length is a multiple of `0x100` are not commands. -/
theorem noProgram_blockData {k : Nat} (hdvd : 0x100 ∣ image.length) :
    ¬ ProgramCommand (blockData image k) := by
  intro h
  have hlen := h.1
  rw [blockData, List.length_take, List.length_drop, programBlock] at hlen
  omega

/-- In a block the program command comes right after the window switch. -/
theorem runs_block_before {k : Nat} {end1 : Except StdException Bool}
    (hdvd : 0x100 ∣ image.length) (hw : k * programBlock / flashWindowSize ≤ 3)
    (run : Runs (blockProgram image k) (before ++ ⟨.out data, sent⟩ :: after) end1)
    (hdata : ProgramCommand data) : data = programCommand image k ∧ before = switchTrace k := by
  have hswitch := (@noFlash_switch (k * programBlock)).weaken fun _ => NoFlash.noProgram
  obtain ⟨t, rest, rfl, hrun, hblock⟩ := hswitch.both_after run (not_not_intro hdata)
  obtain rfl := (runs_switch_true_iff hw).mp hrun
  obtain ⟨r, rest', heq, hrest⟩ := runs_op_iff.mp hblock
  cases rest with
  | nil =>
    cases heq
    exact ⟨rfl, List.append_nil _⟩
  | cons e rest =>
    cases heq
    cases r with
    | false => simpa using (runs_pure_iff.mp hrest).1
    | true =>
      have hpayload : Always NoProgram Returns (both (out (blockData image k))
          (allOf [expectReply ((programCommand image k).set 12 0x00)]) : Usb StdException Bool) :=
        (always_out (noProgram_blockData hdvd)).both ((always_expectReply trivial).both trivial)
      exact absurd hdata ((hpayload.run hrest).1 ⟨.out data, sent⟩ (by simp))

/-- Before `k` in `0, …, n - 1` come the numbers below `k`. -/
theorem range_split {n k : Nat} {done rest : List Nat} (h : List.range n = done ++ k :: rest) :
    k < n ∧ done = List.range k := by
  have hk : done.length < n := by
    have hlen := congrArg List.length h
    rw [List.length_range, List.length_append, List.length_cons] at hlen
    omega
  have hget : k = done.length := by
    have hat := congrArg (·[done.length]?) h
    simpa [List.getElem?_range hk] using hat.symm
  refine ⟨hget ▸ hk, ?_⟩
  have htake := congrArg (List.take done.length) h
  rw [List.take_left, List.take_range, Nat.min_eq_left hk.le] at htake
  rw [hget, htake]

/-- A program command is that of some block, and comes after the acknowledged blocks before it. -/
theorem runs_program_before {end1 : Except StdException Bool} (hcard : image.length ≤ maxCardImage)
    (hdvd : 0x100 ∣ image.length)
    (run : Runs (programImage image) (before ++ ⟨.out data, sent⟩ :: after) end1)
    (hdata : ProgramCommand data) :
    ∃ k < blockCount image, data = programCommand image k ∧
      before = (List.range k).flatMap (blockTrace image) ++ switchTrace k := by
  rw [programImage_eq] at run
  obtain ⟨done, k, rest, t, t', after1, after2, end2, hsplit, rfl, rfl, hdone, hk⟩ :=
    runs_allOf_event run
  obtain ⟨hk', rfl⟩ := range_split hsplit
  obtain ⟨rfl, rfl⟩ := runs_block_before hdvd (window_le hcard hk') hk hdata
  exact ⟨k, hk', rfl, by rw [(runs_blocks_true_iff hcard hk'.le).mp hdone]⟩

end Program

end LibusbWriterBackend

end Ezfadvance
