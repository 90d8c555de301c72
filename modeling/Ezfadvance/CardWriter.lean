import Ezfadvance.LibusbWriterBackend
import Ezfadvance.SingleImage

/-!
# CardWriter

The write workflow of `card_writer.cpp` over the libusb backend, and the order of what it sends.

* `CardWriter.write`: probe, startup polls, clear of the save banks, erase, program, cleanup or
  verification, and the final clear of the save banks.
* `flashTrace`: what the erase and program phases exchange when nothing fails.
* `write_phases`: where the erase and program commands of a run stand, and how a run ends that got
  past the first clear.
-/

namespace Ezfadvance

open Interact Interact.Program CartridgeFormat Protocol Usb FlashWindowSelector LibusbWriterBackend

inductive CardWriteStatus where
  | success
  | preflightFailed
  | operationFailed
  deriving DecidableEq

structure CardWriteResult where
  status : CardWriteStatus := .operationFailed
  verificationCompleted : Bool := false
  verificationSkippedByUser : Bool := false
  verificationSkippedUnproven : Bool := false
  deriving DecidableEq

namespace CardWriter

/-- What follows a successful programming: cleanup only, or verification. -/
def finishWrite (image : Bytes) (skipVerification : Bool) :
    Usb StdException (Bool × CardWriteResult) :=
  if skipVerification then do
    let ok ← finishOperation
    return (ok, { verificationSkippedByUser := ok })
  else
    let mode := VerificationPolicy.modeFor image.length
    if mode = .unsupportedPartialHigherWindow then do
      let ok ← finishOperation
      return (ok, { verificationSkippedUnproven := ok })
    else do
      let ok ← verify mode image
      return (ok, { verificationCompleted := ok })

/-- The final four-bank clear, also after failures. -/
def finalClear (saveBanksNeedFinalClear ok : Bool) : Usb StdException Bool :=
  if saveBanksNeedFinalClear then do
    let clearOk ← clearSaveBanks
    return ok && clearOk
  else .pure ok

def write (image : Bytes) (skipVerification : Bool) : Usb StdException CardWriteResult := do
  if !(← originalManagerInitializeAndCheck) then return { status := .preflightFailed }
  let ok ← both initializeBridge prepareGlobalWrite
  let saveBanksNeedFinalClear := ok
  let ok ← if ok then flashImage image else .pure false
  let (ok, result) ← if ok then finishWrite image skipVerification else .pure (ok, {})
  let ok ← finalClear saveBanksNeedFinalClear ok
  return { result with status := if ok then .success else .operationFailed }

end CardWriter

/-! ## The erase and program phases together -/

section Flash

variable {image : Bytes} {trace before after : List Transport.Event} {data : Bytes} {sent : Bool}

/-- All of `flashImage` up to the first block. -/
def erasedTrace (programmedSize : Nat) : List Transport.Event :=
  windowTrace 0 ++ (eraseTrace programmedSize ++ (finishTrace ++ windowTrace 0))

def flashTrace (image : Bytes) : List Transport.Event :=
  erasedTrace image.length ++ programTrace image

theorem runs_flash_true_iff (hcard : image.length ≤ maxCardImage) :
    Runs (flashImage image) trace (.ok true) ↔ trace = flashTrace image := by
  simp only [flashImage, allOf, runs_both_true_iff, runs_select_true_iff (Nat.zero_le 3),
    runs_erase_true_iff, runs_finish_true_iff, runs_program_true_iff hcard, runs_pure_iff,
    flashTrace, erasedTrace, List.append_assoc]
  constructor
  · rintro ⟨_, _, rfl, rfl, _, _, rfl, rfl, _, _, rfl, rfl, _, _, rfl, rfl, _, _, rfl, rfl, rfl, _⟩
    rw [List.append_nil]
  · rintro rfl
    exact ⟨_, _, rfl, rfl, _, _, rfl, rfl, _, _, rfl, rfl, _, _, rfl, rfl, _, [],
      (List.append_nil _).symm, rfl, rfl, trivial⟩

theorem always_flashImage : Always (fun _ => True) Returns (flashImage image) := by
  have hselect : Always (fun _ => True) Returns (select 0 : Usb StdException Bool) :=
    noFlash_select.weaken fun _ _ => trivial
  have hfinish : Always (fun _ => True) Returns (finishOperation : Usb StdException Bool) :=
    noFlash_sendAll.weaken fun _ _ => trivial
  exact hselect.both ((noProgram_erase.weaken fun _ _ => trivial).both (hfinish.both
    (hselect.both (always_programImage.both trivial))))

/-- A program command comes after all the planned erases and all the blocks before it. -/
theorem runs_flash_before {end1 : Except StdException Bool} (hcard : image.length ≤ maxCardImage)
    (hdvd : 0x100 ∣ image.length)
    (run : Runs (flashImage image) (before ++ ⟨.out data, sent⟩ :: after) end1)
    (hdata : ProgramCommand data) :
    ∃ k < blockCount image, data = programCommand image k ∧
      before = erasedTrace image.length ++
        ((List.range k).flatMap (blockTrace image) ++ switchTrace k) := by
  have hselect : Always NoProgram Returns (select 0 : Usb StdException Bool) :=
    noFlash_select.weaken fun _ => NoFlash.noProgram
  have hfinish : Always NoProgram Returns (finishOperation : Usb StdException Bool) :=
    noFlash_sendAll.weaken fun _ => NoFlash.noProgram
  have he := not_not_intro hdata
  obtain ⟨t1, _, rfl, h1, run⟩ := hselect.both_after run he
  obtain ⟨t2, _, rfl, h2, run⟩ := noProgram_erase.both_after run he
  obtain ⟨t3, _, rfl, h3, run⟩ := hfinish.both_after run he
  obtain ⟨t4, _, rfl, h4, run⟩ := hselect.both_after run he
  rw [allOf, allOf, both_true] at run
  obtain ⟨k, hk, rfl, rfl⟩ := runs_program_before hcard hdvd run hdata
  obtain rfl := (runs_select_true_iff (Nat.zero_le 3)).mp h1
  obtain rfl := runs_erase_true_iff.mp h2
  obtain rfl := runs_finish_true_iff.mp h3
  obtain rfl := (runs_select_true_iff (Nat.zero_le 3)).mp h4
  exact ⟨k, hk, rfl, by simp only [erasedTrace, List.append_assoc]⟩

end Flash

/-! ## Runs of the workflow -/

namespace CardWriter

/-- All that must succeed before the save banks need their final clear. -/
def setup : Usb StdException Bool :=
  both originalManagerInitializeAndCheck (both initializeBridge prepareGlobalWrite)

def flashAndFinish (image : Bytes) (skipVerification : Bool) :
    Usb StdException (Bool × CardWriteResult) := do
  let ok ← flashImage image
  if ok then finishWrite image skipVerification else return (ok, {})

section Run

variable {image : Bytes} {skip : Bool} {trace : List Transport.Event}

theorem noFlash_setup : Always NoFlash Returns setup :=
  noFlash_preflight.both (noFlash_initializeBridge.both noFlash_clearAll)

theorem noFlash_verify (hsize : ProgrammedSize image.length)
    (hmode : VerificationPolicy.modeFor image.length ≠ .unsupportedPartialHigherWindow) :
    Always NoFlash Returns (verify (VerificationPolicy.modeFor image.length) image) := by
  have hpos : 0 < image.length := by
    have := hsize.blockLe
    simp only [programBlock] at this
    omega
  have hmax := hsize.leCard
  have hup := @Rounding.up_lt image.length 0x10000 (by omega)
  have hread : ∀ word length, NoFlash (.out (command 0x91 0x00 word length 0x00)) :=
    fun word length => ⟨fun h => absurd h.2 (by simp [command, eraseOpcode]),
      fun h => absurd h.2 (by simp [command, romProgramOpcode])⟩
  obtain ⟨preamble, hverify⟩ := verify_eq hpos hmode
  rw [hverify]
  refine always_method (fun _ => noFlash_packets) hread (fun _ => trivial) trivial ?_
  simp only [maxCardImage] at hmax
  omega

theorem noFlash_finishWrite (hsize : ProgrammedSize image.length) :
    Always NoFlash Returns (finishWrite image skip) := by
  rw [finishWrite]
  split
  · exact noFlash_sendAll.then fun _ => trivial
  · dsimp only
    split
    · exact noFlash_sendAll.then fun _ => trivial
    case isFalse hmode => exact (noFlash_verify hsize hmode).then fun _ => trivial

theorem always_afterFlash (hsize : ProgrammedSize image.length) (ok : Bool) :
    Always NoFlash Anyhow (if ok then finishWrite image skip else return (ok, {})) := by
  cases ok with
  | false => trivial
  | true => exact (noFlash_finishWrite hsize).anyhow

theorem always_finalClear {needed ok : Bool} :
    Always (fun _ => True) Returns (finalClear needed ok) := by
  cases needed with
  | false => trivial
  | true => exact (noFlash_clearAll.weaken fun _ _ => trivial).then fun _ => trivial

theorem runs_of_prepared (h : Prepared trace) : Runs setup trace (.ok true) := by
  obtain ⟨probe, hprobe, rfl⟩ := h
  rw [List.append_assoc]
  exact hprobe.runs.both (runs_initializeBridge_trace.both (runs_clearAll_true_iff.mpr rfl))

theorem prepared_of_runs (hlegal : ∀ e ∈ trace, Transport.Legal e)
    (h : Runs setup trace (.ok true)) : Prepared trace := by
  obtain ⟨t1, _, rfl, h1, h⟩ := runs_both_true_iff.mp h
  obtain ⟨t2, t3, rfl, h2, h3⟩ := runs_both_true_iff.mp h
  obtain ⟨hlegal1, hlegal⟩ := List.forall_mem_append.mp hlegal
  obtain rfl := runs_initializeBridge (List.forall_mem_append.mp hlegal).1 h2
  obtain rfl := runs_clearAll_true_iff.mp h3
  exact ⟨t1, runs_preflight hlegal1 h1, (List.append_assoc _ _ _).symm⟩

/-- A run ends in the setup, or it ends with the final clear. -/
theorem runs_write (hsize : ProgrammedSize image.length) {out : Except StdException CardWriteResult}
    (run : Runs (write image skip) trace out) :
    (Runs setup trace (.ok false) ∧ ∃ result, out = .ok result ∧ result.status ≠ .success) ∨
      ∃ prep body last ok result clearOk, trace = prep ++ (body ++ last) ∧
        Runs setup prep (.ok true) ∧ Runs (flashAndFinish image skip) body (.ok (ok, result)) ∧
        Runs (SaveBankCleaner.clearAll : Usb StdException Bool) last (.ok clearOk) ∧
        out = .ok { result with
          status := if ok && clearOk then .success else .operationFailed } := by
  obtain ⟨ready, t1, t2, rfl, _, _, h1, run⟩ := noFlash_preflight.ends.split run
  cases ready with
  | false =>
    obtain ⟨rfl, rfl⟩ := runs_pure_iff.mp run
    exact .inl ⟨h1.bind .pure, _, rfl, by simp⟩
  | true =>
    obtain ⟨ok, t3, t4, rfl, _, _, h2, run⟩ :=
      (noFlash_initializeBridge.both noFlash_clearAll).ends.split run
    cases ok with
    | false =>
      obtain ⟨rfl, rfl⟩ := runs_pure_iff.mp run
      rw [List.append_nil]
      exact .inl ⟨h1.both h2, _, rfl, by simp⟩
    | true =>
      obtain ⟨flashed, t5, t6, rfl, _, _, h3, run⟩ := always_flashImage.ends.split run
      have hfinish : ∃ ok result t7 t8, t6 = t7 ++ t8 ∧
          Runs (flashAndFinish image skip) (t5 ++ t7) (.ok (ok, result)) ∧
          Runs (do
            let ok ← finalClear true ok
            return { result with status := if ok then .success else .operationFailed }) t8 out := by
        cases flashed with
        | false => exact ⟨false, {}, [], t6, rfl, h3.bind .pure, run⟩
        | true =>
          obtain ⟨⟨ok, result⟩, t7, t8, rfl, _, _, h4, run⟩ :=
            (noFlash_finishWrite hsize).ends.split run
          exact ⟨ok, result, t7, t8, rfl, h3.bind h4, run⟩
      obtain ⟨ok, result, t7, t8, rfl, hbody, run⟩ := hfinish
      obtain ⟨ok', t9, t10, rfl, _, _, hclear, run⟩ :=
        (@always_finalClear true ok).ends.split run
      obtain ⟨rfl, rfl⟩ := runs_pure_iff.mp run
      obtain ⟨clearOk, t11, t12, rfl, hbanks, hok⟩ := runs_bind_ok hclear
      obtain ⟨rfl, hok⟩ := runs_pure_iff.mp hok
      cases hok
      refine .inr ⟨t1 ++ t3, t5 ++ t7, t11, ok, result, clearOk, ?_, h1.both h2, hbody, hbanks, rfl⟩
      simp only [List.append_assoc, List.append_nil]

/-- What the body of a run shows of a successful programming. -/
theorem runs_body_true {ok : Bool} {result : CardWriteResult}
    (hcard : image.length ≤ maxCardImage)
    (run : Runs (flashAndFinish image skip) trace (.ok (ok, result))) (hok : ok = true) :
    ∃ rest, trace = flashTrace image ++ rest := by
  obtain ⟨flashed, t1, t2, rfl, h1, h2⟩ := runs_bind_ok run
  cases flashed with
  | false =>
    obtain ⟨_, hpair⟩ := runs_pure_iff.mp h2
    cases hpair
    cases hok
  | true => exact ⟨t2, by rw [(runs_flash_true_iff hcard).mp h1]⟩

theorem not_noFlash {data : Bytes} (h : EraseCommand data ∨ ProgramCommand data) :
    ¬ NoFlash (.out data) := fun hno => h.elim hno.1 hno.2

/-- An erase or a program command of a run that got past the setup lies in its body. -/
theorem command_in_body {prep body last before after : List Transport.Event} {data : Bytes}
    {sent clearOk : Bool} (hprep : Runs setup prep (.ok true))
    (hlast : Runs (SaveBankCleaner.clearAll : Usb StdException Bool) last (.ok clearOk))
    (htrace : prep ++ (body ++ last) = before ++ ⟨.out data, sent⟩ :: after)
    (hdata : EraseCommand data ∨ ProgramCommand data) :
    ∃ rest after1 after2, before = prep ++ rest ∧ body = rest ++ ⟨.out data, sent⟩ :: after1 ∧
      after = after1 ++ after2 := by
  obtain ⟨rest, hin, _⟩ | ⟨rest, rfl, hrest⟩ := split_append htrace.symm
  · exact absurd ((noFlash_setup.run hprep).1 ⟨.out data, sent⟩ (by simp [hin])) (not_noFlash hdata)
  · obtain ⟨after1, hin, rfl⟩ | ⟨_, _, hin⟩ := split_append hrest.symm
    · exact ⟨rest, after1, _, rfl, hin, rfl⟩
    · exact absurd ((noFlash_clearAll.run hlast).1 ⟨.out data, sent⟩ (by simp [hin]))
        (not_noFlash hdata)

end Run

/-- Of every image that `build` produces, whatever the transport answers: nothing is erased or
programmed before the probe, the polls and the clear of the save banks were acknowledged; a program
command comes after all the planned erases and the blocks before its own, and the blocks tile the
image; a run that got past the first clear ends with the attempt to clear the banks again; and
success means that all of it was acknowledged. -/
theorem write_phases {templates : LoaderTemplates} {roms placed : List RomInfo} {direct : Bool}
    {built : BuiltCartridgeImage} {skip : Bool} {trace : List Transport.Event}
    {out : Except StdException CardWriteResult}
    (hbuild : CartridgeImageBuilder.build templates roms direct = .ok (placed, built))
    (hlegal : ∀ e ∈ trace, Transport.Legal e) (run : Runs (write built.bytes skip) trace out) :
    (∀ before data sent after, trace = before ++ ⟨.out data, sent⟩ :: after →
      EraseCommand data ∨ ProgramCommand data →
      ∃ prep rest, before = prep ++ rest ∧ Prepared prep) ∧
    (∀ before data sent after, trace = before ++ ⟨.out data, sent⟩ :: after →
      ProgramCommand data →
      ∃ prep, Prepared prep ∧ ∃ k < blockCount built.bytes, data = programCommand built.bytes k ∧
        before = prep ++ (erasedTrace built.bytes.length ++
          ((List.range k).flatMap (blockTrace built.bytes) ++ switchTrace k))) ∧
    (List.range (blockCount built.bytes)).flatMap (blockData built.bytes) = built.bytes ∧
    (∀ prep rest, trace = prep ++ rest → Prepared prep →
      ∃ body last clearOk, rest = body ++ last ∧
        Runs (SaveBankCleaner.clearAll : Usb StdException Bool) last (.ok clearOk)) ∧
    ∃ result, out = .ok result ∧ (result.status = .success →
      ∃ prep rest, Prepared prep ∧ trace = prep ++ (flashTrace built.bytes ++ rest ++
        clearedBanks.flatMap writeBankExchange)) := by
  have hsize := build_programmedSize hbuild
  obtain ⟨hsetup, result, rfl, hstatus⟩ | ⟨prep, body, last, ok, result, clearOk, rfl, hprep, hbody,
    hlast, rfl⟩ := runs_write hsize run
  · -- The run ends in the setup, which sends no erase or program command.
    have hquiet := (noFlash_setup.run hsetup).1
    refine ⟨?_, ?_, blocks_tile, ?_, result, rfl, fun h => absurd h hstatus⟩
    · rintro before data sent after rfl hdata
      exact absurd (hquiet ⟨.out data, sent⟩ (by simp)) (not_noFlash hdata)
    · rintro before data sent after rfl hdata
      exact absurd (hquiet ⟨.out data, sent⟩ (by simp)) (not_noFlash (.inr hdata))
    · rintro prep rest rfl hprep
      have hsame := (runs_of_prepared hprep).unique hsetup (x := rest) (y := [])
        (by rw [List.append_nil])
      cases hsame.2
  · have hprepared := prepared_of_runs (List.forall_mem_append.mp hlegal).1 hprep
    refine ⟨?_, ?_, blocks_tile, ?_, _, rfl, ?_⟩
    · intro before data sent after htrace hdata
      obtain ⟨rest, _, _, rfl, _⟩ := command_in_body hprep hlast htrace hdata
      exact ⟨prep, rest, rfl, hprepared⟩
    · intro before data sent after htrace hdata
      obtain ⟨rest, after1, _, rfl, rfl, _⟩ := command_in_body hprep hlast htrace (.inr hdata)
      obtain ⟨_, _, _, _, hrun⟩ := Always.run_within (A := NoFlash) (always_afterFlash hsize) hbody
        (not_noFlash (.inr hdata))
      obtain ⟨k, hk, rfl, rfl⟩ := runs_flash_before hsize.leCard hsize.rounded hrun hdata
      exact ⟨prep, hprepared, k, hk, rfl, rfl⟩
    · intro prep' rest htrace hprep'
      obtain ⟨rfl, _⟩ := (runs_of_prepared hprep').unique hprep htrace.symm
      exact ⟨body, last, clearOk, (List.append_cancel_left htrace).symm, hlast⟩
    · intro hsuccess
      have hall : (ok && clearOk) = true := by
        by_contra hno
        rw [if_neg hno] at hsuccess
        cases hsuccess
      obtain ⟨hok, hclear⟩ := Bool.and_eq_true_iff.mp hall
      rw [hclear] at hlast
      obtain ⟨rest, rfl⟩ := runs_body_true hsize.leCard hbody hok
      obtain rfl := runs_clearAll_true_iff.mp hlast
      exact ⟨prep, rest, hprepared, rfl⟩

/-! ### A run in which everything is acknowledged -/

/-- What a bridge may answer to a step of the probe. -/
def bridgeAnswer : ProbeStep → List Transport.Event
  | .transfer tx => tx.exchange
  | .twoAt wordAddress first second => exchange (command92TwoAt wordAddress) [first, second]
  | .read command wanted => readTrace command wanted (List.replicate wanted 0x00)
  | .echo command => readTrace command command.length command

theorem answered_bridgeAnswer {step : ProbeStep} : step.Answered (bridgeAnswer step) := by
  cases step with
  | transfer tx => rfl
  | twoAt wordAddress first second => rfl
  | read command wanted => exact ⟨_, rfl⟩
  | echo command => rfl

def readyBridge : List Transport.Event :=
  startupTrace 0 ++ (managerCheck.map bridgeAnswer).flatten

theorem probed_readyBridge : Probed readyBridge := by
  refine ⟨0, by decide, managerCheck.map bridgeAnswer, ?_, rfl⟩
  rw [List.forall₂_map_right_iff, List.forall₂_same]
  exact fun step _ => answered_bridgeAnswer

section Legal

theorem legal_exchange {command data : Bytes} : ∀ e ∈ exchange command data, Transport.Legal e := by
  simp [exchange, Transport.Legal]

theorem legal_control {transfers : List Tx} :
    ∀ e ∈ transfers.flatMap Tx.exchange, Transport.Legal e := by
  refine List.forall_mem_flatMap.mpr fun tx _ => ?_
  cases tx with
  | two first second => exact legal_exchange
  | one selector value => exact legal_exchange

theorem legal_readTrace {command data : Bytes} {wanted : Nat} (h : data.length = wanted) :
    ∀ e ∈ readTrace command wanted data, Transport.Legal e := by
  simp [readTrace, Transport.Legal, h]

theorem legal_append {t1 t2 : List Transport.Event} (h1 : ∀ e ∈ t1, Transport.Legal e)
    (h2 : ∀ e ∈ t2, Transport.Legal e) : ∀ e ∈ t1 ++ t2, Transport.Legal e :=
  List.forall_mem_append.mpr ⟨h1, h2⟩

theorem legal_readyBridge : ∀ e ∈ readyBridge, Transport.Legal e := by
  have hstartup : ∀ e ∈ startupTrace 0, Transport.Legal e :=
    legal_append (legal_append (legal_append (legal_readTrace rfl) (by simp))
      (legal_readTrace rfl)) (legal_readTrace rfl)
  refine legal_append hstartup ?_
  rw [← List.flatMap_def]
  refine List.forall_mem_flatMap.mpr fun step _ => ?_
  cases step with
  | transfer tx =>
    cases tx with
    | two first second => exact legal_exchange
    | one selector value => exact legal_exchange
  | twoAt wordAddress first second => exact legal_exchange
  | read command wanted => exact legal_readTrace List.length_replicate
  | echo command => exact legal_readTrace rfl

theorem legal_polls : ∀ e ∈ pollsTrace, Transport.Legal e :=
  List.forall_mem_flatMap.mpr fun data hdata => legal_readTrace (by
    rw [List.eq_of_mem_replicate hdata]
    rfl)

theorem legal_clear : ∀ e ∈ clearedBanks.flatMap writeBankExchange, Transport.Legal e := by
  refine List.forall_mem_flatMap.mpr fun bank _ => legal_append ?_ legal_exchange
  exact List.forall_mem_cons.mpr ⟨trivial, legal_control⟩

theorem legal_erase {programmedSize : Nat} :
    ∀ e ∈ eraseTrace programmedSize, Transport.Legal e := by
  have hgroups : ∀ {groups : List (Nat × List Nat)} {gi : Nat},
      ∀ e ∈ eraseGroupsTrace gi groups, Transport.Legal e := by
    intro groups
    induction groups with
    | nil => simp [eraseGroupsTrace]
    | cons g rest ih =>
      intro gi
      refine legal_append ?_ (legal_append (List.forall_mem_flatMap.mpr fun a _ => ?_) ih)
      · split
        · exact legal_append legal_control legal_control
        · simp
      · simp [eraseExchange, Transport.Legal]
  exact hgroups

theorem legal_flash {image : Bytes} : ∀ e ∈ flashTrace image, Transport.Legal e := by
  have herased : ∀ e ∈ erasedTrace image.length, Transport.Legal e :=
    legal_append legal_control (legal_append legal_erase (legal_append legal_control legal_control))
  refine legal_append herased (List.forall_mem_flatMap.mpr fun k _ => legal_append ?_ ?_)
  · rw [switchTrace]
    split
    · exact legal_append legal_control legal_control
    · simp
  · simp [Transport.Legal]

end Legal

theorem build_direct {templates : LoaderTemplates} {rom : RomInfo} {image : BuiltCartridgeImage}
    (h : finishImage rom.data = .ok image) :
    CartridgeImageBuilder.build templates [rom] true = .ok ([{ rom with start := 0 }], image) := by
  show (finishImage rom.data >>= fun image => .ok ([{ rom with start := 0 }], image)) = _
  rw [h]
  rfl

/-- A small ROM, written without verification over a bridge that acknowledges everything. -/
theorem write_phases_acknowledged : ∃ placed built trace,
    CartridgeImageBuilder.build ⟨[], []⟩ [{ name := [], data := List.replicate 0x200 0x5A }] true =
      .ok (placed, built) ∧
    Runs (write built.bytes true) trace
      (.ok { status := .success, verificationSkippedByUser := true }) ∧
    ∃ prep rest, Prepared prep ∧ trace = prep ++ (flashTrace built.bytes ++ rest ++
      clearedBanks.flatMap writeBankExchange) := by
  obtain ⟨built, hfinish, _⟩ := @finishImage_ok (List.replicate 0x200 0x5A)
    (by rw [List.length_replicate]; decide)
  have hbuild := @build_direct ⟨[], []⟩ { name := [], data := List.replicate 0x200 0x5A } _ hfinish
  have hcard := (build_programmedSize hbuild).leCard
  have hclear : Runs (SaveBankCleaner.clearAll : Usb StdException Bool)
      (clearedBanks.flatMap writeBankExchange) (.ok true) := runs_clearAll_true_iff.mpr rfl
  have hfinished : Runs (finishWrite built.bytes true) (finishTrace ++ [])
      (.ok (true, { verificationSkippedByUser := true })) :=
    (runs_finish_true_iff.mpr rfl).bind .pure
  have hrun : Runs (write built.bytes true)
      (readyBridge ++ ((pollsTrace ++ clearedBanks.flatMap writeBankExchange) ++
        (flashTrace built.bytes ++ ((finishTrace ++ []) ++
          ((clearedBanks.flatMap writeBankExchange ++ []) ++ [])))))
      (.ok { status := .success, verificationSkippedByUser := true }) :=
    (probed_readyBridge.runs).bind ((runs_initializeBridge_trace.both hclear).bind
      (((runs_flash_true_iff hcard).mpr rfl).bind (hfinished.bind ((hclear.bind .pure).bind .pure))))
  have hlegal := legal_append legal_readyBridge (legal_append (legal_append legal_polls legal_clear)
    (legal_append (@legal_flash built.bytes) (legal_append (legal_append
      (@legal_control FlashWindowSelector.statusTail) (by simp : ∀ e ∈ [], Transport.Legal e))
      (legal_append (legal_append legal_clear (by simp : ∀ e ∈ [], Transport.Legal e))
        (by simp : ∀ e ∈ [], Transport.Legal e)))))
  obtain ⟨_, _, _, _, _, hout, hsuccess⟩ := write_phases hbuild hlegal hrun
  cases hout
  exact ⟨_, built, _, hbuild, hrun, hsuccess rfl⟩

end CardWriter

end Ezfadvance
