import Ezfadvance.CardWriter

/-!
# AbortedWrite

What a write leaves on the cartridge when the probe or the startup polls fail.

* `ProbeStep.effect`, `Progress`: a probe that fails has carried out some of its steps, in order.
* `Probing`: after the first step of the probe the flash is as it was, the current save bank too,
  and only its first two bytes may have changed.
* `latchedBank_probing`: no sequence of the probe selects a save bank.
* `aborted_write_changes`: the flash and all but two bytes of the save memory survive.
* `aborted_write_writes`: the two bytes need not.
-/

namespace Ezfadvance

open Interact Interact.Program Protocol Usb Device LibusbWriterBackend

/-! ## Steps that fail or succeed -/

/-- What a step of the probe does on the cartridge. -/
def LibusbWriterBackend.ProbeStep.effect (c : Cartridge) : ProbeStep → Cartridge
  | .transfer tx => c.transfer tx
  | .twoAt _ first second => c.controlTransfer first second
  | _ => c

/-- What the probe may write at an offset of the save memory. -/
def ProbeByte (offset : Nat) (value : UInt8) : Prop :=
  offset = 0 ∧ (value = 0xAA ∨ value = 0x55 ∨ value = 0x00) ∨
    offset = 1 ∧ (value = 0x06 ∨ value = 0x04)

instance (offset : Nat) (value : UInt8) : Decidable (ProbeByte offset value) :=
  inferInstanceAs (Decidable (_ ∨ _))

/-- Touches neither the flash nor the choice of a save bank, and of that bank two bytes only. -/
def LibusbWriterBackend.ProbeStep.Mild : ProbeStep → Prop
  | .transfer (.two _ second) => second ≠ 0x09
  | .transfer (.one selector value) => ProbeByte selector.toNat value
  | .twoAt _ _ second => second ≠ 0x09
  | .read command _ => command.getD 2 0 ≠ 0x92 ∧ command.getD 2 0 ≠ 0x96
  | .echo command => command.getD 2 0 ≠ 0x92 ∧ command.getD 2 0 ≠ 0x96

instance : (step : ProbeStep) → Decidable step.Mild
  | .transfer (.two _ _) => inferInstanceAs (Decidable (_ ≠ _))
  | .transfer (.one _ _) => inferInstanceAs (Decidable (ProbeByte _ _))
  | .twoAt _ _ _ => inferInstanceAs (Decidable (_ ≠ _))
  | .read _ _ => inferInstanceAs (Decidable (_ ∧ _))
  | .echo _ => inferInstanceAs (Decidable (_ ∧ _))

theorem mild_managerCheck : ∀ step ∈ managerCheck, step.Mild := by
  decide +kernel

/-- Some of the steps have been carried out, in order. -/
def Progress (steps : List ProbeStep) (c c' : Cartridge) : Prop :=
  ∃ done rest, steps = done ++ rest ∧ c' = done.foldl ProbeStep.effect c

section Steps

variable {ε : Type} {c : Cartridge}

/-- Asks only for what neither writes nor erases. -/
def Query : Transport.Op → Prop :=
  Transport.Sends fun data => data.getD 2 0 ≠ 0x92 ∧ data.getD 2 0 ≠ 0x96

theorem wp_query {p : Usb ε Bool} (h : Always Query Returns p) :
    Wp env anything p (Gives fun _ d => d = ⟨c, .command⟩) ⟨c, .command⟩ := by
  refine wp_mono (h.wp (I := fun d => d = ⟨c, .command⟩) (fun _ _ _ _ => trivial) ?_ rfl) ?_
  · rintro d o r d' hquery step rfl
    cases o with
    | out data =>
      obtain hreceived | ⟨_, rfl⟩ := step
      · simpa only [Device.Receives, if_neg hquery.1, if_neg hquery.2] using hreceived
      · rfl
    | inExact wanted => exact step.1
    | inMax maximum => exact step.1
    | selectBank bankValue => exact hquery.elim
  · rintro out d ⟨hreturns, hd⟩
    cases out with
    | ok a => exact hd
    | error e => exact hreturns.elim

theorem wp_probeStep {step : ProbeStep} (h : step.Mild) :
    Wp env anything (step.send : Usb ε Bool)
      (Gives fun ok d => (d.cartridge = c ∨ d.cartridge = step.effect c) ∧
        (ok = true → d = ⟨step.effect c, .command⟩)) ⟨c, .command⟩ := by
  cases step with
  | transfer tx =>
    cases tx with
    | two first second => exact wp_commandData rfl ⟨rfl, rfl, rfl⟩
    | one selector value =>
      have hcarry : c.carryOut (command92One selector) [value] =
          c.transfer (.one selector value) := carryOut_one
      have := @wp_commandData ε c (command92One selector) [value] rfl ⟨rfl, rfl, rfl⟩
      rwa [hcarry] at this
  | twoAt wordAddress first second => exact wp_commandData rfl ⟨rfl, rfl, rfl⟩
  | read command wanted =>
    have hask : Always Query Returns ((ProbeStep.read command wanted).send : Usb ε Bool) :=
      always_request h trivial
    refine wp_gives_mono (wp_query hask) ?_
    rintro ok d rfl
    exact ⟨.inl rfl, fun _ => rfl⟩
  | echo command =>
    have hask : Always Query Returns ((ProbeStep.echo command).send : Usb ε Bool) :=
      always_request h trivial
    refine wp_gives_mono (wp_query hask) ?_
    rintro ok d rfl
    exact ⟨.inl rfl, fun _ => rfl⟩

/-- A sequence that fails at some step has carried out the steps before it, and perhaps that one. -/
theorem wp_steps {steps : List ProbeStep} (h : ∀ step ∈ steps, step.Mild) :
    Wp env anything (allOf (steps.map ProbeStep.send) : Usb ε Bool)
      (Gives fun ok d => Progress steps c d.cartridge ∧
        (ok = true → d = ⟨steps.foldl ProbeStep.effect c, .command⟩)) ⟨c, .command⟩ := by
  induction steps generalizing c with
  | nil => exact ⟨⟨[], [], rfl, rfl⟩, fun _ => rfl⟩
  | cons step rest ih =>
    obtain ⟨hstep, hrest⟩ := List.forall_mem_cons.mp h
    rw [List.map_cons, allOf]
    refine wp_both (wp_probeStep hstep) ?_ ?_
    · rintro d ⟨_, hdone⟩
      obtain rfl := hdone rfl
      refine wp_gives_mono (ih hrest) ?_
      rintro ok d ⟨⟨done, later, rfl, hd⟩, hok⟩
      exact ⟨⟨step :: done, later, rfl, hd⟩, hok⟩
    · rintro d ⟨hd | hd, _⟩
      · exact ⟨⟨[], step :: rest, rfl, hd⟩, fun h => by cases h⟩
      · exact ⟨⟨[step], rest, rfl, hd⟩, fun h => by cases h⟩

theorem query_startup : ∀ command ∈ [c97, c98, c99], Query (.out command) := by
  show ∀ command ∈ [c97, c98, c99], command.getD 2 0 ≠ 0x92 ∧ command.getD 2 0 ≠ 0x96
  decide

/-- The startup and the polls ask questions only, so all that can happen is the probe. -/
theorem wp_preflight :
    Wp env anything (both originalManagerInitializeAndCheck initializeBridge : Usb ε Bool)
      (Gives fun _ d => Progress managerCheck c d.cartridge) ⟨c, .command⟩ := by
  have hstartup : Always Query Returns (originalBridgeStartup979899 : Usb ε Bool) :=
    always_startup query_startup fun _ => trivial
  have hpolls : Always Query Returns (initializeBridge : Usb ε Bool) :=
    always_initializeBridge (query_startup c98 (by decide)) trivial
  rw [originalManagerInitializeAndCheck, both_assoc]
  refine wp_both (wp_query hstartup) ?_ ?_
  · rintro d rfl
    refine wp_both (wp_steps mild_managerCheck) ?_ fun d h => h.1
    rintro d ⟨_, hdone⟩
    obtain rfl := hdone rfl
    refine wp_gives_mono (wp_query hpolls) ?_
    rintro ok d rfl
    exact ⟨managerCheck, [], (List.append_nil _).symm, rfl⟩
  · rintro d rfl
    exact ⟨[], managerCheck, rfl, rfl⟩

end Steps

/-! ## What the probe leaves alone -/

/-- The selector of a proven bank has the high byte `09`. -/
theorem high_of_provenBank {low high : UInt8}
    (h : ProvenBank (low.toUInt16 ||| high.toUInt16 <<< 8)) : high = 0x09 := by
  obtain ⟨k, hk, hvalue⟩ := provenBank_iff.mp h
  have hjoin : (low.toUInt16 ||| high.toUInt16 <<< 8).toNat >>> 8 = high.toNat := by
    have hlow := low.toNat_lt
    have hhigh := high.toNat_lt
    simp only [UInt16.toNat_or, UInt16.toNat_shiftLeft, UInt8.toNat_toUInt16,
      Nat.shiftRight_or_distrib]
    rw [Nat.shiftRight_eq_div_pow low.toNat, Nat.div_eq_of_lt (by omega), Nat.zero_or]
    simp only [Nat.shiftLeft_eq, Nat.shiftRight_eq_div_pow]
    show high.toNat * 2 ^ 8 % 2 ^ 16 / 2 ^ 8 = _
    omega
  rw [hvalue, Nat.shiftRight_eq_div_pow] at hjoin
  refine UInt8.toNat.inj ?_
  rw [← hjoin]
  show _ = 9
  omega

/-- Since the `55 AA` of the probe no pair has had `09` in its second byte, so none selects a
bank. -/
theorem latchedBank_probing {bank : UInt16} {recent rest : List (UInt8 × UInt8)}
    (h : ∀ p ∈ recent, p.2 ≠ 0x09) :
    Cartridge.latchedBank bank (recent ++ (0x55, 0xAA) :: rest) = bank := by
  rw [Cartridge.latchedBank.eq_def]
  split
  case h_2 => rfl
  case h_1 low high _ heq =>
    have hhigh : high ≠ 0x09 := by
      match recent with
      | [] | [_] | [_, _] | [_, _, _] => simp at heq
      | [_, _, _, _] =>
        simp only [List.cons_append, List.nil_append, List.cons.injEq, Prod.mk.injEq] at heq
        rw [← heq.2.2.2.2.1.2]
        decide
      | _ :: _ :: _ :: _ :: p :: _ =>
        simp only [List.cons_append, List.cons.injEq] at heq
        have := h p (by simp)
        rwa [heq.2.2.2.2.1] at this
    exact if_neg fun hproven => hhigh (high_of_provenBank hproven)

/-- What the probe, once begun, has kept of the cartridge `c`. -/
structure Probing (c c' : Cartridge) : Prop where
  mem : c'.flash.mem = c.flash.mem
  bank : c'.bank = c.bank
  control : ∃ recent, c'.flash.control = recent ++ (0x55, 0xAA) :: c.flash.control ∧
    ∀ p ∈ recent, p.2 ≠ 0x09
  saves : ∀ v i, c'.saves v i = c.saves v i ∨ v = c.bank ∧ ProbeByte i (c'.saves v i)

namespace Probing

variable {c c' : Cartridge}

theorem start : Probing c (c.controlTransfer 0x55 0xAA) where
  mem := rfl
  bank := @latchedBank_probing c.bank [] c.flash.control (by simp)
  control := ⟨[], rfl, by simp⟩
  saves := fun _ _ => .inl rfl

theorem controlTransfer {first second : UInt8} (h : Probing c c') (hsecond : second ≠ 0x09) :
    Probing c (c'.controlTransfer first second) := by
  obtain ⟨recent, hcontrol, hrecent⟩ := h.control
  have hmore : ∀ p ∈ (first, second) :: recent, p.2 ≠ 0x09 :=
    List.forall_mem_cons.mpr ⟨hsecond, hrecent⟩
  refine ⟨h.mem, ?_, ⟨(first, second) :: recent, ?_, hmore⟩, h.saves⟩
  · rw [bank_controlTransfer, hcontrol, ← List.cons_append, latchedBank_probing hmore, h.bank]
  · rw [control_controlTransfer, hcontrol, List.cons_append]

theorem writeSave {offset : Nat} {value : UInt8} (h : Probing c c') (hbyte : ProbeByte offset value) :
    Probing c (c'.writeSave offset [value]) := by
  refine ⟨h.mem, h.bank, h.control, fun v i => ?_⟩
  by_cases hin : v = c'.bank ∧ offset ≤ i ∧ i < offset + 1
  · obtain ⟨rfl, hle, hlt⟩ := hin
    obtain rfl : i = offset := by omega
    refine .inr ⟨h.bank, ?_⟩
    simpa [Cartridge.writeSave] using hbyte
  · have hkept : (c'.writeSave offset [value]).saves v i = c'.saves v i := if_neg hin
    rw [hkept]
    exact h.saves v i

theorem step {step : ProbeStep} (h : Probing c c') (hmild : step.Mild) :
    Probing c (step.effect c') := by
  cases step with
  | transfer tx =>
    cases tx with
    | two first second => exact h.controlTransfer hmild
    | one selector value => exact h.writeSave hmild
  | twoAt wordAddress first second => exact h.controlTransfer hmild
  | read command wanted => exact h
  | echo command => exact h

theorem steps {steps : List ProbeStep} (h : Probing c c') (hmild : ∀ step ∈ steps, step.Mild) :
    Probing c (steps.foldl ProbeStep.effect c') := by
  induction steps generalizing c' with
  | nil => exact h
  | cons step rest ih =>
    obtain ⟨hstep, hrest⟩ := List.forall_mem_cons.mp hmild
    exact ih (h.step hstep) hrest

end Probing

/-- The probe begins with `55 AA`; before that nothing has changed. -/
theorem probing_of_progress {c c' : Cartridge} (h : Progress managerCheck c c') :
    c' = c ∨ Probing c c' := by
  obtain ⟨done, rest, hsplit, rfl⟩ := h
  cases done with
  | nil => exact .inl rfl
  | cons first done =>
    have hfirst : first = .transfer (.two 0x55 0xAA) := (List.cons.inj hsplit).1.symm
    have hdone : ∀ step ∈ done, step.Mild := fun step hstep =>
      mild_managerCheck step (by rw [hsplit]; simp [hstep])
    rw [hfirst, List.foldl_cons]
    exact .inr (Probing.start.steps hdone)

/-! ## Aborted writes -/

namespace CardWriter

/-- What a write does when the preflight or the polls behind it fail: it stops there. -/
theorem runs_write_aborted {image : Bytes} {skip : Bool} {trace : List Transport.Event}
    (h : Runs (both originalManagerInitializeAndCheck initializeBridge : Usb StdException Bool) trace
      (.ok false)) :
    ∃ result : CardWriteResult, result.status ≠ .success ∧
      Runs (write image skip) trace (.ok result) := by
  obtain ⟨ready, t1, t2, rfl, hready, hpolls⟩ := runs_bind_ok h
  cases ready with
  | false =>
    obtain ⟨rfl, _⟩ := runs_pure_iff.mp hpolls
    exact ⟨{ status := .preflightFailed }, by decide, hready.bind .pure⟩
  | true =>
    have hbridge : Runs (both initializeBridge prepareGlobalWrite) (t2 ++ []) (.ok false) :=
      hpolls.bind .pure
    refine ⟨{ status := .operationFailed }, by decide, ?_⟩
    have hwrite : Runs (write image skip) (t1 ++ (t2 ++ [] ++ [])) _ :=
      hready.bind (hbridge.bind .pure)
    rwa [List.append_nil, List.append_nil] at hwrite

/-- A write that stops because the preflight or the polls failed reports no success. It has left the
flash alone, and of the save memory it may have written the first two bytes of the current bank, the
ones that the probe writes. -/
theorem aborted_write_changes {image : Bytes} {skip : Bool} {trace : List Transport.Event}
    {out : Except StdException CardWriteResult} {c : Cartridge} {d : Device}
    (run : Runs (write image skip) trace out)
    (aborted : Runs (both originalManagerInitializeAndCheck initializeBridge : Usb StdException Bool)
      trace (.ok false))
    (path : Path env ⟨c, .command⟩ trace d) :
    (∃ result : CardWriteResult, out = .ok result ∧ result.status ≠ .success) ∧
      d.cartridge.flash.mem = c.flash.mem ∧
      ∀ v i, d.cartridge.saves v i = c.saves v i ∨
        v = c.bank ∧ ProbeByte i (d.cartridge.saves v i) := by
  obtain ⟨result, hstatus, hwrite⟩ := @runs_write_aborted image skip trace aborted
  obtain ⟨_, rfl⟩ := run.unique hwrite (x := []) (y := []) rfl
  refine ⟨⟨result, rfl, hstatus⟩, ?_⟩
  obtain hsame | hprobing := probing_of_progress (wp_preflight.sound aborted path).2
  · rw [hsame]
    exact ⟨rfl, fun _ _ => .inl rfl⟩
  · exact ⟨hprobing.mem, hprobing.saves⟩

/-! ### A probe that fails behind its first one-byte transfer -/

def blankCartridge : Cartridge where
  flash := { mem := fun _ => 0xFF, window := 0, control := [] }
  saves := fun _ _ => 0x00
  bank := 0x0900

/-- The probe up to the transfer of `AA` to the selector 0. -/
def probedTransfers : List Tx :=
  [.two 0x55 0xAA, .two 0x00 0x00, .two 0x00 0x00, .two 0x00 0x00, .two 0xAA 0x55, .two 0x00 0x00,
    .two 0x00 0x00, .two 0x00 0x00, .one 0x00 0xAA]

/-- Everything is acknowledged up to there, and the next packet is lost. -/
def abortedTrace : List Transport.Event :=
  startupTrace 0 ++ (probedTransfers.flatMap Tx.exchange ++ [⟨.out (command92One 0x00), false⟩])

theorem managerCheck_split : managerCheck =
    probedTransfers.map ProbeStep.transfer ++
      .transfer (.one 0x00 0x55) :: managerCheck.drop 10 := rfl

theorem runs_abortedTrace {ε : Type} :
    Runs (originalManagerInitializeAndCheck : Usb ε Bool) abortedTrace (.ok false) := by
  have hprobed : Runs (allOf ((probedTransfers.map ProbeStep.transfer).map ProbeStep.send) :
      Usb ε Bool) (probedTransfers.flatMap Tx.exchange) (.ok true) := by
    show Runs (sendAll probedTransfers) _ _
    exact runs_sendAll_true_iff.mpr rfl
  have hlost : Runs ((ProbeStep.transfer (.one 0x00 0x55)).send : Usb ε Bool)
      [⟨.out (command92One 0x00), false⟩] (.ok false) := .op .pure
  refine (runs_startup_trace (by decide)).both ?_
  rw [managerCheck_split]
  exact runs_allOf_false_iff.mpr ⟨_, _, _, _, _, rfl, rfl, hprobed, hlost⟩

theorem path_readTrace {c : Cartridge} {command data : Bytes} {wanted : Nat}
    (h92 : command.getD 2 0 ≠ 0x92) (h96 : command.getD 2 0 ≠ 0x96) :
    Path env ⟨c, .command⟩ (readTrace command wanted data) ⟨c, .command⟩ := by
  have hreceived : Device.Receives ⟨c, .command⟩ command ⟨c, .command⟩ := by
    simp only [Device.Receives, if_neg h92, if_neg h96]
  refine path_sent_iff.mpr ⟨_, hreceived, path_single.mpr ⟨rfl, fun _ _ hwaiting => ?_⟩⟩
  cases hwaiting

theorem path_abortedTrace {c : Cartridge} :
    Path env ⟨c, .command⟩ abortedTrace
      ⟨probedTransfers.foldl Cartridge.transfer c, .command⟩ := by
  have hstartup : Path env ⟨c, .command⟩ (startupTrace 0) ⟨c, .command⟩ :=
    path_append_iff.mpr ⟨_, path_append_iff.mpr ⟨_, path_append_iff.mpr
      ⟨_, path_readTrace (by decide) (by decide), .nil⟩, path_readTrace (by decide) (by decide)⟩,
      path_readTrace (by decide) (by decide)⟩
  exact path_append_iff.mpr ⟨_, hstartup, path_append_iff.mpr ⟨_, path_sendAll_iff.mpr rfl,
    path_single.mpr (.inr ⟨rfl, rfl⟩)⟩⟩

theorem runs_write_abortedTrace :
    Runs (write [] false) abortedTrace (.ok { status := .preflightFailed }) ∧
      Runs (both originalManagerInitializeAndCheck initializeBridge : Usb StdException Bool)
        abortedTrace (.ok false) := by
  have hwrite : Runs (write [] false) (abortedTrace ++ [])
      (.ok { status := .preflightFailed }) := runs_abortedTrace.bind .pure
  have hboth : Runs (both originalManagerInitializeAndCheck initializeBridge :
      Usb StdException Bool) (abortedTrace ++ []) (.ok false) := runs_abortedTrace.bind .pure
  rw [List.append_nil] at hwrite hboth
  exact ⟨hwrite, hboth⟩

/-- The preflight of a write fails, and a byte of the save memory is another than before. -/
theorem aborted_write_writes : ∃ trace d,
    Runs (write [] false) trace (.ok { status := .preflightFailed }) ∧
    Runs (both originalManagerInitializeAndCheck initializeBridge : Usb StdException Bool) trace
      (.ok false) ∧
    Path env ⟨blankCartridge, .command⟩ trace d ∧
    blankCartridge.saves 0x0900 0 = 0x00 ∧ d.cartridge.saves 0x0900 0 = 0xAA := by
  obtain ⟨hwrite, hboth⟩ := runs_write_abortedTrace
  exact ⟨_, _, hwrite, hboth, path_abortedTrace, rfl, by decide⟩

/-- There the flash is as it was, and so is the save memory up to two bytes. -/
theorem aborted_write_changes_blank :
    ∃ d, Path env ⟨blankCartridge, .command⟩ abortedTrace d ∧
      d.cartridge.flash.mem = blankCartridge.flash.mem ∧
      ∀ v i, d.cartridge.saves v i = 0x00 ∨
        v = 0x0900 ∧ ProbeByte i (d.cartridge.saves v i) := by
  obtain ⟨hwrite, hboth⟩ := runs_write_abortedTrace
  exact ⟨_, path_abortedTrace, (aborted_write_changes hwrite hboth path_abortedTrace).2⟩

end CardWriter

end Ezfadvance
