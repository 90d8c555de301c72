import Ezfadvance.Format
import Ezfadvance.Lib.Interact

/-!
# Transport

The USB transport (`Transport` in `usb_device.hpp`) as the operations of a program, and the command
protocol on it (`protocol.cpp`, `flash_window_selector.cpp`). A `std::vector` handed out by a
successful read is the answer; timeouts and settle delays are left out.

* `Transport.Op`, `Transport.Reply`: what a program asks and what a transport may answer.
* `Transport.Legal`: `inExact` succeeds only with the wanted number of bytes.
* `Protocol.commandDataEcho`, `FlashWindowSelector.select`: command, payload and echo.
* `Tx`, `sendAll`: the fixed sequences of control transfers, and `always_sendAll`: whatever the
  answers, they end with a value.
-/

namespace Ezfadvance

open Interact Interact.Program CartridgeFormat

namespace Transport

/-- `selectBank` transfers nothing: it stands where `SaveBankAccess::select` is entered. -/
inductive Op where
  | out (data : Bytes)
  | inExact (wanted : Nat)
  | inMax (maximum : Nat)
  | selectBank (bankValue : UInt16)

abbrev Reply : Op → Type
  | .out _ => Bool
  | .inExact _ => Option Bytes
  | .inMax _ => Option Bytes
  | .selectBank _ => Unit

abbrev Event : Type := Interact.Event Op Reply

/-- What `BulkTransport::inExact` promises about its answers. -/
def Legal : Event → Prop
  | ⟨.inExact wanted, some data⟩ => data.length = wanted
  | _ => True

end Transport

/-- Sends only packets in `P`, and selects no save bank. -/
def Transport.Sends (P : Bytes → Prop) : Transport.Op → Prop
  | .out data => P data
  | .inExact _ => True
  | .inMax _ => True
  | .selectBank _ => False

/-- Code that uses the transport and may throw `ε`. -/
abbrev Usb (ε : Type) : Type → Type := Program Transport.Op Transport.Reply ε

namespace Usb

variable {ε : Type}

def out (data : Bytes) : Usb ε Bool := ask (Transport.Op.out data)

def inExact (wanted : Nat) : Usb ε (Option Bytes) := ask (Transport.Op.inExact wanted)

def inMax (maximum : Nat) : Usb ε (Option Bytes) := ask (Transport.Op.inMax maximum)

/-- Reads at most 64 bytes, which must be `expected`. -/
def expectReply (expected : Bytes) : Usb ε Bool := do
  match ← inMax 64 with
  | none => return false
  | some response => return decide (response = expected)

end Usb

open Usb

/-- The 13 bytes of a command: opcode, sub-command, two little-endian words and a last byte. -/
def command (opcode sub : UInt8) (word length : UInt32) (final : UInt8) : Bytes :=
  [0x5A, 0xA5, opcode, sub] ++ le32 word ++ le32 length ++ [final]

@[simp] theorem length_command {opcode sub final : UInt8} {word length : UInt32} :
    (command opcode sub word length final).length = 13 := by
  simp [command]

def eraseOpcode : Bytes := [0x5A, 0xA5, 0x96]
def romProgramOpcode : Bytes := [0x5A, 0xA5, 0x92, 0x00]
def saveWriteOpcode : Bytes := [0x5A, 0xA5, 0x92, 0x01]

/-! ## protocol.cpp -/

namespace Protocol

variable {ε : Type}

def command92Two : Bytes :=
  [0x5A, 0xA5, 0x92, 0x02, 0x00, 0x00, 0x00, 0x00, 0x02, 0x00, 0x00, 0x00, 0x00]

def command92One (selector : UInt8) : Bytes :=
  [0x5A, 0xA5, 0x92, 0x01, selector, 0x00, 0x00, 0x00, 0x01, 0x00, 0x00, 0x00, 0x00]

def commandDataEcho (command data : Bytes) : Usb ε Bool :=
  allOf [out command, out data, expectReply command]

def tx92Two (first second : UInt8) : Usb ε Bool := commandDataEcho command92Two [first, second]

def tx92One (selector value : UInt8) : Usb ε Bool := commandDataEcho (command92One selector) [value]

end Protocol

open Protocol

/-- A step of one of the fixed control sequences. -/
inductive Tx where
  | two (first second : UInt8)
  | one (selector value : UInt8)
  deriving DecidableEq

def Tx.send {ε : Type} : Tx → Usb ε Bool
  | .two first second => tx92Two first second
  | .one selector value => tx92One selector value

/-- What a step sends. -/
def Tx.packets : Tx → List Bytes
  | .two first second => [command92Two, [first, second]]
  | .one selector value => [command92One selector, [value]]

/-- The transfers one after the other, up to the first that fails. -/
def sendAll {ε : Type} (transfers : List Tx) : Usb ε Bool := allOf (transfers.map Tx.send)

/-! ## flash_window_selector.cpp -/

namespace FlashWindowSelector

variable {ε : Type}

def selection (window : Nat) : List Tx :=
  let bankMode : UInt8 := if window = 0 then 0x00 else 0x02
  let bankSelectHigh : UInt8 := UInt8.ofNat (window * 0x40)
  [.two 0x55 0xAA, .two bankMode 0x00, .two 0x00 bankSelectHigh, .two 0x00 0x00,
    .two 0xAA 0x55, .two 0x00 0x00, .two 0x00 0x00, .two 0x00 0x00,
    .one 0x00 0xAA, .one 0x00 0x55, .one 0x01 0x06]

def select (window : Nat) : Usb ε Bool :=
  if window > 3 then .pure false else sendAll (selection window)

def statusTail : List Tx := [.two 0xFF 0xFF, .one 0x01 0x04, .one 0x00 0x00, .one 0x00 0x00]

def finishOperation : Usb ε Bool := sendAll statusTail

end FlashWindowSelector

/-! ## Control transfers -/

section Control

variable {ε : Type} {A : Transport.Op → Prop}

theorem always_out {data : Bytes} (h : A (.out data)) :
    Always A Returns (out data : Usb ε Bool) := always_ask h

theorem always_inExact {wanted : Nat} (h : A (.inExact wanted)) :
    Always A Returns (inExact wanted : Usb ε (Option Bytes)) := always_ask h

theorem always_inMax {maximum : Nat} (h : A (.inMax maximum)) :
    Always A Returns (inMax maximum : Usb ε (Option Bytes)) := always_ask h

/-- A command whose answer decides the rest. -/
theorem always_answer {α : Type} {command : Bytes} {receive : Usb ε (Option Bytes)}
    {rest : Option Bytes → Usb ε α} {failed : α} (hout : A (.out command))
    (hreceive : Always A Returns receive) (hnone : Always A Returns (rest none))
    (hrest : ∀ response, Always A Returns (rest (some response))) :
    Always A Returns (out command >>= fun sent =>
      if (!sent) = true then .pure failed else receive >>= rest) := by
  refine (always_out hout).then fun sent => ?_
  cases sent with
  | false => trivial
  | true =>
    refine hreceive.then fun response => ?_
    cases response with
    | none => exact hnone
    | some response => exact hrest response

theorem always_expectReply {expected : Bytes} (h : A (.inMax 64)) :
    Always A Returns (expectReply expected : Usb ε Bool) := by
  refine (always_inMax h).then fun r => ?_
  cases r with
  | none => trivial
  | some response => trivial

theorem always_commandDataEcho {command data : Bytes} (hc : A (.out command)) (hd : A (.out data))
    (hr : A (.inMax 64)) : Always A Returns (commandDataEcho command data : Usb ε Bool) :=
  (always_out hc).both ((always_out hd).both ((always_expectReply hr).both trivial))

theorem always_send {tx : Tx} (hout : ∀ data ∈ tx.packets, A (.out data)) (hin : A (.inMax 64)) :
    Always A Returns (tx.send : Usb ε Bool) := by
  cases tx with
  | two first second =>
    exact always_commandDataEcho (hout _ (by simp [Tx.packets])) (hout _ (by simp [Tx.packets])) hin
  | one selector value =>
    exact always_commandDataEcho (hout _ (by simp [Tx.packets])) (hout _ (by simp [Tx.packets])) hin

theorem always_sendAll {transfers : List Tx}
    (hout : ∀ tx ∈ transfers, ∀ data ∈ tx.packets, A (.out data)) (hin : A (.inMax 64)) :
    Always A Returns (sendAll transfers : Usb ε Bool) := by
  refine always_allOf fun p hp => ?_
  obtain ⟨tx, htx, rfl⟩ := List.mem_map.mp hp
  exact always_send (hout tx htx) hin

end Control

/-! ## Acknowledged transfers -/

/-- A command, its payload and its echo. -/
def exchange (command data : Bytes) : List Transport.Event :=
  [⟨.out command, true⟩, ⟨.out data, true⟩, ⟨.inMax 64, some command⟩]

def Tx.exchange : Tx → List Transport.Event
  | .two first second => Ezfadvance.exchange command92Two [first, second]
  | .one selector value => Ezfadvance.exchange (command92One selector) [value]

section Acknowledged

variable {ε : Type} {trace : List Transport.Event}

theorem runs_out_true_iff {data : Bytes} :
    Runs (out data : Usb ε Bool) trace (.ok true) ↔ trace = [⟨.out data, true⟩] := by
  rw [Usb.out, runs_ask_iff]
  constructor
  · rintro ⟨r, rfl, hr⟩
    cases hr
    rfl
  · rintro rfl
    exact ⟨true, rfl, rfl⟩

/-- A command whose answer decides the rest: it is sent, it is answered, and the rest runs. -/
theorem runs_answer_iff {α : Type} {command : Bytes} {receive : Usb ε (Option Bytes)}
    {rest : Option Bytes → Usb ε α} {failed a : α} (hfailed : failed ≠ a)
    (hnone : rest none = .pure failed) :
    Runs (out command >>= fun sent =>
        if (!sent) = true then .pure failed else receive >>= rest) trace (.ok a) ↔
      ∃ response t1 t2, trace = ⟨.out command, true⟩ :: (t1 ++ t2) ∧
        Runs receive t1 (.ok (some response)) ∧ Runs (rest (some response)) t2 (.ok a) := by
  have hno : ∀ {t}, ¬ Runs (.pure failed : Usb ε α) t (.ok a) := fun h =>
    hfailed (Except.ok.inj (runs_pure_iff.mp h).2).symm
  constructor
  · intro h
    obtain ⟨sent, t1, t2, rfl, hout, hsent⟩ := runs_bind_ok h
    obtain rfl := runs_ask hout
    cases sent with
    | false => exact absurd hsent hno
    | true =>
      obtain ⟨response, t3, t4, rfl, hreceive, hrest⟩ := runs_bind_ok hsent
      cases response with
      | none => exact absurd (hnone ▸ hrest) hno
      | some response => exact ⟨response, t3, t4, rfl, hreceive, hrest⟩
  · rintro ⟨response, t1, t2, rfl, hreceive, hrest⟩
    exact .op (hreceive.bind hrest)

/-- The same for an answer that is read in one transfer. -/
theorem runs_answerOne_iff {α : Type} {command : Bytes} {receive : Usb ε (Option Bytes)}
    {received : Bytes → Transport.Event} {rest : Option Bytes → Usb ε α} {failed a : α}
    (hreceive : ∀ response t, Runs receive t (.ok (some response)) ↔ t = [received response])
    (hfailed : failed ≠ a) (hnone : rest none = .pure failed) :
    Runs (out command >>= fun sent =>
        if (!sent) = true then .pure failed else receive >>= rest) trace (.ok a) ↔
      ∃ response t, trace = ⟨.out command, true⟩ :: received response :: t ∧
        Runs (rest (some response)) t (.ok a) := by
  rw [runs_answer_iff hfailed hnone]
  constructor
  · rintro ⟨response, t1, t2, rfl, hrun, hrest⟩
    obtain rfl := (hreceive response t1).mp hrun
    exact ⟨response, t2, rfl, hrest⟩
  · rintro ⟨response, t, rfl, hrest⟩
    exact ⟨response, [_], t, rfl, (hreceive response _).mpr rfl, hrest⟩

theorem runs_answerExact_iff {α : Type} {command : Bytes} {wanted : Nat}
    {rest : Option Bytes → Usb ε α} {failed a : α} (hfailed : failed ≠ a)
    (hnone : rest none = .pure failed) :
    Runs (out command >>= fun sent =>
        if (!sent) = true then .pure failed else inExact wanted >>= rest) trace (.ok a) ↔
      ∃ response t, trace = ⟨.out command, true⟩ :: ⟨.inExact wanted, some response⟩ :: t ∧
        Runs (rest (some response)) t (.ok a) :=
  runs_answerOne_iff (fun _ _ => runs_ask_ok_iff) hfailed hnone

theorem runs_answerMax_iff {α : Type} {command : Bytes} {maximum : Nat}
    {rest : Option Bytes → Usb ε α} {failed a : α} (hfailed : failed ≠ a)
    (hnone : rest none = .pure failed) :
    Runs (out command >>= fun sent =>
        if (!sent) = true then .pure failed else inMax maximum >>= rest) trace (.ok a) ↔
      ∃ response t, trace = ⟨.out command, true⟩ :: ⟨.inMax maximum, some response⟩ :: t ∧
        Runs (rest (some response)) t (.ok a) :=
  runs_answerOne_iff (fun _ _ => runs_ask_ok_iff) hfailed hnone

/-- What a comparison gives at the end. -/
theorem runs_pure_decide_iff {p : Prop} [Decidable p] :
    Runs (.pure (decide p) : Usb ε Bool) trace (.ok true) ↔ trace = [] ∧ p := by
  rw [runs_pure_iff, Except.ok.injEq, eq_comm (a := true), decide_eq_true_eq]

theorem runs_expectReply_true_iff {expected : Bytes} :
    Runs (expectReply expected : Usb ε Bool) trace (.ok true) ↔
      trace = [⟨.inMax 64, some expected⟩] := by
  constructor
  · intro h
    obtain ⟨r, t1, t2, rfl, hin, hcmp⟩ := runs_bind_ok h
    obtain rfl := runs_ask hin
    cases r with
    | none => cases hcmp
    | some response =>
      obtain ⟨rfl, rfl⟩ := runs_pure_decide_iff.mp hcmp
      rfl
  · rintro rfl
    refine runs_bind_iff.mpr (.inr ⟨some expected, [⟨.inMax 64, some expected⟩], [], rfl,
      runs_ask_iff.mpr ⟨some expected, rfl, rfl⟩, ?_⟩)
    exact runs_pure_decide_iff.mpr ⟨rfl, rfl⟩

theorem runs_commandDataEcho_true_iff {command data : Bytes} :
    Runs (commandDataEcho command data : Usb ε Bool) trace (.ok true) ↔
      trace = exchange command data := by
  simp only [commandDataEcho, allOf, runs_both_true_iff, runs_out_true_iff,
    runs_expectReply_true_iff, runs_pure_iff, exchange]
  constructor
  · rintro ⟨_, _, rfl, rfl, _, _, rfl, rfl, _, _, rfl, rfl, rfl, _⟩
    rfl
  · rintro rfl
    exact ⟨[_], [_, _], rfl, rfl, [_], [_], rfl, rfl, [_], [], rfl, rfl, rfl, trivial⟩

theorem runs_send_true_iff {tx : Tx} :
    Runs (tx.send : Usb ε Bool) trace (.ok true) ↔ trace = tx.exchange := by
  cases tx with
  | two first second => exact runs_commandDataEcho_true_iff
  | one selector value => exact runs_commandDataEcho_true_iff

theorem runs_allOf_mem_true_iff {α : Type} {step : α → Usb ε Bool}
    {answered : α → List Transport.Event} {items : List α}
    (hstep : ∀ a ∈ items, ∀ {trace}, Runs (step a) trace (.ok true) ↔ trace = answered a) :
    Runs (allOf (items.map step)) trace (.ok true) ↔ trace = items.flatMap answered := by
  induction items generalizing trace with
  | nil => exact runs_allOf_nil_iff
  | cons a items ih =>
    obtain ⟨ha, hitems⟩ := List.forall_mem_cons.mp hstep
    rw [List.map_cons, allOf, runs_both_true_iff, List.flatMap_cons]
    simp only [ha, ih hitems]
    constructor
    · rintro ⟨_, _, rfl, rfl, rfl⟩
      rfl
    · rintro rfl
      exact ⟨_, _, rfl, rfl, rfl⟩

theorem runs_allOf_true_iff {α : Type} {step : α → Usb ε Bool} {answered : α → List Transport.Event}
    (hstep : ∀ {a trace}, Runs (step a) trace (.ok true) ↔ trace = answered a) {items : List α} :
    Runs (allOf (items.map step)) trace (.ok true) ↔ trace = items.flatMap answered :=
  runs_allOf_mem_true_iff fun _ _ => hstep

/-- A control sequence gives `true` in one way only: every transfer is acknowledged. -/
theorem runs_sendAll_true_iff {transfers : List Tx} :
    Runs (sendAll transfers : Usb ε Bool) trace (.ok true) ↔
      trace = transfers.flatMap Tx.exchange :=
  runs_allOf_true_iff runs_send_true_iff

end Acknowledged

end Ezfadvance
