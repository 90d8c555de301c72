import Ezfadvance.CatalogReader
import Ezfadvance.Transport

/-!
# FlashCard

The cartridge at the other end of the transport: four 8-MiB windows of NOR flash, of which
`FlashWindowSelector::select` picks the one that local addresses go to.

* `InSector`: even windows have eight 8-KiB sectors and then 64-KiB ones, odd windows the reverse.
* `Flash.erase`, `Flash.program`: `0x96` sets the sector of its word address to `0xFF`, a `0x92/00`
  payload can only clear bits.
* `FlashCard.step`: a command, its payload and its answer; `0x91/00` reads the card linearly.
* `succeeds_sendAll`, `succeeds_select`: the control transfers on such a card.
-/

namespace Ezfadvance

open Interact Interact.Program CartridgeFormat Protocol

def flashWindowSize : Nat := 0x800000

/-! ## Sectors -/

/-- The size of the sector that holds local byte `address`. -/
def sectorSize (window address : Nat) : Nat :=
  if window % 2 = 0 then if address < 0x10000 then 0x2000 else 0x10000
  else if address < 0x7F0000 then 0x10000 else 0x2000

/-- Card byte `x` lies in the sector of `window` that holds local byte `address`. -/
def InSector (window address x : Nat) : Prop :=
  let start := window * flashWindowSize +
    address / sectorSize window address * sectorSize window address
  start ≤ x ∧ x < start + sectorSize window address

instance (window address x : Nat) : Decidable (InSector window address x) :=
  inferInstanceAs (Decidable (_ ∧ _))

/-! ## The flash -/

structure Flash where
  mem : Nat → UInt8
  window : Nat
  /-- The two-byte control transfers, the latest first. -/
  control : List (UInt8 × UInt8)

namespace Flash

def erase (f : Flash) (wordAddress : Nat) : Flash :=
  { f with mem := fun x => if InSector f.window (2 * wordAddress) x then 0xFF else f.mem x }

theorem window_mk {mem : Nat → UInt8} {window : Nat} {control : List (UInt8 × UInt8)} :
    (Flash.mk mem window control).window = window := rfl

@[simp] theorem window_erase {f : Flash} {wordAddress : Nat} :
    (f.erase wordAddress).window = f.window := window_mk

/-- Where local word `wordAddress` lies on the card. -/
def cardAddress (f : Flash) (wordAddress : Nat) : Nat := f.window * flashWindowSize + 2 * wordAddress

def program (f : Flash) (wordAddress : Nat) (data : Bytes) : Flash :=
  { f with mem := fun x =>
      if f.cardAddress wordAddress ≤ x ∧ x < f.cardAddress wordAddress + data.length then
        f.mem x &&& data.getD (x - f.cardAddress wordAddress) 0xFF
      else f.mem x }

@[simp] theorem window_program {f : Flash} {wordAddress : Nat} {data : Bytes} :
    (f.program wordAddress data).window = f.window := window_mk

/-- The window that `AA 55` latches after `55 AA`, the mode, the window number and `00 00`. -/
def latched (window : Nat) : List (UInt8 × UInt8) → Nat
  | (0x00, 0x00) :: (0x00, high) :: (_, 0x00) :: (0x55, 0xAA) :: _ => high.toNat / 0x40
  | _ => window

def controlTransfer (f : Flash) (first second : UInt8) : Flash :=
  { f with
    window := if (first, second) = (0xAA, 0x55) then latched f.window f.control else f.window
    control := (first, second) :: f.control }

def transfer (f : Flash) : Tx → Flash
  | .two first second => f.controlTransfer first second
  | .one _ _ => f

/-- Carries out a `0x92` command and gives its answer. -/
def carryOut (f : Flash) (command payload : Bytes) : Flash × Bytes :=
  if command.getD 3 0 = 0x00 then
    (f.program (readLe32 command 4).toNat payload, command.set 12 0x00)
  else if command.getD 3 0 = 0x02 then
    (f.controlTransfer (payload.getD 0 0) (payload.getD 1 0), command)
  else (f, command)

end Flash

/-! ## The card -/

inductive Phase where
  | idle
  /-- A `0x92` command waits for its payload. -/
  | payload (command : Bytes)
  | answer (data : Bytes)

structure FlashCard where
  flash : Flash
  phase : Phase

namespace FlashCard

def accept (f : Flash) (command : Bytes) : FlashCard :=
  if command.getD 2 0 = 0x92 then ⟨f, .payload command⟩
  else if command.getD 2 0 = 0x96 then
    ⟨f.erase (readLe32 command 4).toNat, .answer (command.set 12 0x00)⟩
  else if command.getD 2 0 = 0x91 then
    ⟨f, .answer (readCard f.mem (2 * (readLe32 command 4).toNat) (readLe32 command 8).toNat)⟩
  else ⟨f, .idle⟩

def receive : FlashCard → Bytes → FlashCard
  | ⟨f, .payload command⟩, data => ⟨(f.carryOut command data).1, .answer (f.carryOut command data).2⟩
  | ⟨f, _⟩, data => accept f data

/-- Hands out the answer if its length is right. -/
def deliver (fits : Nat → Bool) : FlashCard → Option Bytes × FlashCard
  | ⟨f, .answer data⟩ => (if fits data.length then some data else none, ⟨f, .idle⟩)
  | card => (none, card)

def step : FlashCard → (o : Transport.Op) → Transport.Reply o × FlashCard
  | card, .out data => (true, card.receive data)
  | card, .inExact wanted => card.deliver (· == wanted)
  | card, .inMax maximum => card.deliver (· ≤ maximum)
  | card, .selectBank _ => ((), card)

/-- Between two commands, with such a content and this window selected. -/
structure Holds (content : (Nat → UInt8) → Prop) (window : Nat) (card : FlashCard) : Prop where
  idle : card.phase = .idle
  content : content card.flash.mem
  selected : card.flash.window = window

/-- Between two commands, with such a content. -/
def Quiet (content : (Nat → UInt8) → Prop) (card : FlashCard) : Prop :=
  ∃ window, card.Holds content window

end FlashCard

open FlashCard

/-! ## Commands on the card -/

theorem readLe32_command_word {opcode sub final : UInt8} {word length : UInt32} :
    readLe32 (command opcode sub word length final) 4 = word :=
  readLe32_le32 word

theorem readLe32_command_length {opcode sub final : UInt8} {word length : UInt32} :
    readLe32 (command opcode sub word length final) 8 = length :=
  readLe32_le32 length

theorem set_command {opcode sub final b : UInt8} {word length : UInt32} :
    (command opcode sub word length final).set 12 b = command opcode sub word length b := rfl

theorem getD_command_final {opcode sub final : UInt8} {word length : UInt32} :
    (command opcode sub word length final).getD 12 0 = final := rfl

theorem accept_erase {f : Flash} {sub final : UInt8} {word length : UInt32} :
    accept f (command 0x96 sub word length final) =
      ⟨f.erase word.toNat, .answer (command 0x96 sub word length 0x00)⟩ := by
  have hop : (command 0x96 sub word length final).getD 2 0 = 0x96 := rfl
  rw [accept, hop, if_neg (by decide), if_pos rfl, readLe32_command_word, set_command]

theorem accept_read {f : Flash} {sub final : UInt8} {word length : UInt32} :
    accept f (command 0x91 sub word length final) =
      ⟨f, .answer (readCard f.mem (2 * word.toNat) length.toNat)⟩ := by
  have hop : (command 0x91 sub word length final).getD 2 0 = 0x91 := rfl
  rw [accept, hop, if_neg (by decide), if_neg (by decide), if_pos rfl, readLe32_command_word,
    readLe32_command_length]

theorem carryOut_program {f : Flash} {final : UInt8} {word length : UInt32} {payload : Bytes} :
    f.carryOut (command 0x92 0x00 word length final) payload =
      (f.program word.toNat payload, command 0x92 0x00 word length 0x00) := by
  have hsub : (command 0x92 0x00 word length final).getD 3 0 = 0x00 := rfl
  rw [Flash.carryOut, hsub, if_pos rfl, readLe32_command_word, set_command]

section Exec

variable {ε : Type} {f : Flash}

theorem exec_out {data : Bytes} :
    exec step (Usb.out data : Usb ε Bool) ⟨f, .idle⟩ = (.ok true, accept f data) := rfl

theorem exec_out_command {command : Bytes} (hop : command.getD 2 0 = 0x92) :
    exec step (Usb.out command : Usb ε Bool) ⟨f, .idle⟩ = (.ok true, ⟨f, .payload command⟩) := by
  rw [exec_out, accept, if_pos hop]

theorem exec_out_payload {command payload : Bytes} :
    exec step (Usb.out payload : Usb ε Bool) ⟨f, .payload command⟩ =
      (.ok true, ⟨(f.carryOut command payload).1, .answer (f.carryOut command payload).2⟩) := rfl

theorem exec_inMax {data : Bytes} (hlen : data.length ≤ 64) :
    exec step (Usb.inMax 64 : Usb ε (Option Bytes)) ⟨f, .answer data⟩ =
      (.ok (some data), ⟨f, .idle⟩) := by
  rw [Usb.inMax, exec_ask, step, deliver, if_pos (decide_eq_true hlen)]

theorem exec_inExact {data : Bytes} :
    exec step (Usb.inExact data.length : Usb ε (Option Bytes)) ⟨f, .answer data⟩ =
      (.ok (some data), ⟨f, .idle⟩) := by
  rw [Usb.inExact, exec_ask, step, deliver, if_pos (beq_self_eq_true _)]

theorem exec_expectReply {data : Bytes} (hlen : data.length ≤ 64) :
    exec step (Usb.expectReply data : Usb ε Bool) ⟨f, .answer data⟩ =
      (.ok true, ⟨f, .idle⟩) := by
  rw [Usb.expectReply, exec_bind_ok (exec_inMax hlen)]
  simp [exec_pure]

/-- A command with a payload and the answer the card gives to it. -/
theorem exec_commandData {command payload : Bytes} (hop : command.getD 2 0 = 0x92)
    (hlen : (f.carryOut command payload).2.length ≤ 64) :
    exec step (allOf [Usb.out command, Usb.out payload,
        Usb.expectReply (f.carryOut command payload).2] : Usb ε Bool) ⟨f, .idle⟩ =
      (.ok true, ⟨(f.carryOut command payload).1, .idle⟩) := by
  rw [allOf, exec_both_true (exec_out_command hop), allOf, exec_both_true exec_out_payload, allOf,
    exec_both_true (exec_expectReply hlen), allOf, exec]

theorem exec_send {tx : Tx} :
    exec step (tx.send : Usb ε Bool) ⟨f, .idle⟩ = (.ok true, ⟨f.transfer tx, .idle⟩) := by
  cases tx with
  | two first second =>
    exact @exec_commandData ε f command92Two [first, second] rfl (show 13 ≤ 64 by omega)
  | one selector value =>
    exact @exec_commandData ε f (command92One selector) [value] rfl (show 13 ≤ 64 by omega)

theorem exec_sendAll {transfers : List Tx} :
    exec step (sendAll transfers : Usb ε Bool) ⟨f, .idle⟩ =
      (.ok true, ⟨transfers.foldl Flash.transfer f, .idle⟩) := by
  induction transfers generalizing f with
  | nil => rfl
  | cons tx rest ih =>
    have hrest := @ih (f.transfer tx)
    rw [sendAll] at hrest
    rw [sendAll, List.map_cons, allOf, exec_both_true exec_send, hrest, List.foldl_cons]

theorem mem_transfers {transfers : List Tx} :
    (transfers.foldl Flash.transfer f).mem = f.mem := by
  induction transfers generalizing f with
  | nil => rfl
  | cons tx rest ih =>
    rw [List.foldl_cons, ih]
    cases tx with
    | two first second => rfl
    | one selector value => rfl

end Exec

section Control

variable {ε : Type} {content : (Nat → UInt8) → Prop} {window : Nat}

theorem FlashCard.Holds.mono {content' : (Nat → UInt8) → Prop} {card : FlashCard}
    (h : Holds content window card) (hc : ∀ m, content m → content' m) :
    Holds content' window card :=
  ⟨h.idle, hc _ h.content, h.selected⟩

/-- Any control sequence leaves the content alone. -/
theorem succeeds_sendAll {transfers : List Tx} :
    Succeeds step (Quiet content) (sendAll transfers : Usb ε Bool) (Quiet content) := by
  rintro ⟨f, phase⟩ ⟨window, hidle, hmem, _⟩
  cases hidle
  exact ⟨_, exec_sendAll, _, rfl, by rw [mem_transfers]; exact hmem, rfl⟩

theorem succeeds_select (hw : window ≤ 3) :
    Succeeds step (Quiet content) (FlashWindowSelector.select window : Usb ε Bool)
      (Holds content window) := by
  rintro ⟨f, phase⟩ ⟨before, hidle, hmem, _⟩
  cases hidle
  rw [FlashWindowSelector.select, if_neg (Nat.not_lt.mpr hw)]
  refine ⟨_, exec_sendAll, rfl, by rw [mem_transfers]; exact hmem, ?_⟩
  obtain rfl | rfl | rfl | rfl : window = 0 ∨ window = 1 ∨ window = 2 ∨ window = 3 := by omega
  · rfl
  · rfl
  · rfl
  · rfl

end Control

end Ezfadvance
