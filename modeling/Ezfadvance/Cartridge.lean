import Ezfadvance.FlashWriter
import Ezfadvance.Lib.Environment
import Ezfadvance.SaveMemory

/-!
# Cartridge

The cartridge as the writing tools see it: the flash of `FlashCard` and the four save banks, of which
one is current. `0x92/01` writes into the current bank, whatever its purpose.

* `Cartridge.carryOut`: what a `0x92` command does with its payload.
* `Device.env`: the cartridge behind a transport that may lose packets and answer anything, except
  that it acknowledges only what the cartridge has carried out.
* `path_commandData_iff`, `path_sendAll_iff`, `path_eraseSectors_iff`, `path_writeBanks_iff`: what is
  acknowledged was carried out.
* `wp_commandData`: what is not acknowledged was carried out as well, or not at all.
-/

namespace Ezfadvance

open Interact Interact.Program CartridgeFormat Protocol Usb

structure Cartridge where
  flash : Flash
  /-- The save memory, by bank selector and offset. -/
  saves : UInt16 → Nat → UInt8
  /-- The current save bank. -/
  bank : UInt16

namespace Cartridge

/-- The bank that the eight transfers of `SaveBankAccess::select` name, the latest first. -/
def latchedBank (bank : UInt16) : List (UInt8 × UInt8) → UInt16
  | (0x00, 0x00) :: (0x00, 0x00) :: (0x00, 0x00) :: (0x00, 0x00) :: (low, high) ::
      (0x00, 0x00) :: (0x00, 0x00) :: (0x55, 0xAA) :: _ =>
    let selector := low.toUInt16 ||| high.toUInt16 <<< 8
    if ProvenBank selector then selector else bank
  | _ => bank

def controlTransfer (c : Cartridge) (first second : UInt8) : Cartridge :=
  { c with
    flash := c.flash.controlTransfer first second
    bank := latchedBank c.bank ((first, second) :: c.flash.control) }

/-- Writes into the current bank. -/
def writeSave (c : Cartridge) (offset : Nat) (data : Bytes) : Cartridge :=
  { c with saves := fun bank i =>
      if bank = c.bank ∧ offset ≤ i ∧ i < offset + data.length then data.getD (i - offset) 0
      else c.saves bank i }

def program (c : Cartridge) (wordAddress : Nat) (data : Bytes) : Cartridge :=
  { c with flash := c.flash.program wordAddress data }

def erase (c : Cartridge) (wordAddress : Nat) : Cartridge :=
  { c with flash := c.flash.erase wordAddress }

/-- Carries out a `0x92` command. -/
def carryOut (c : Cartridge) (command payload : Bytes) : Cartridge :=
  if command.getD 3 0 = 0x00 then c.program (readLe32 command 4).toNat payload
  else if command.getD 3 0 = 0x01 then c.writeSave (readLe32 command 4).toNat payload
  else if command.getD 3 0 = 0x02 then c.controlTransfer (payload.getD 0 0) (payload.getD 1 0)
  else c

def transfer (c : Cartridge) : Tx → Cartridge
  | .two first second => c.controlTransfer first second
  | .one selector value => c.writeSave selector.toNat [value]

end Cartridge

/-- What the next packet means, or which answer is due. -/
inductive Waiting where
  | command
  | payload (command : Bytes)
  | answer (command : Bytes) (done : Bool)

structure Device where
  cartridge : Cartridge
  waiting : Waiting

/-- The answer to a command that was carried out: the command itself, with status 0. -/
def Acknowledges (command response : Bytes) : Prop :=
  response.length = 13 ∧ response.take 12 = command.take 12 ∧ response.getD 12 0 = 0x00

namespace Device

/-- A packet that reaches the cartridge. A command is carried out, or it fails and changes
nothing. -/
def Receives (d : Device) (data : Bytes) (d' : Device) : Prop :=
  match d.waiting with
  | .payload command =>
    d' = ⟨d.cartridge.carryOut command data, .answer command true⟩ ∨
      d' = ⟨d.cartridge, .answer command false⟩
  | _ =>
    if data.getD 2 0 = 0x92 then d' = ⟨d.cartridge, .payload data⟩
    else if data.getD 2 0 = 0x96 then
      d' = ⟨d.cartridge.erase (readLe32 data 4).toNat, .answer data true⟩ ∨
        d' = ⟨d.cartridge, .answer data false⟩
    else d' = ⟨d.cartridge, .command⟩

/-- An answer, or none: anything at all, except that nothing acknowledges a command that failed. -/
def Answers (d : Device) (response : Option Bytes) (d' : Device) : Prop :=
  d' = ⟨d.cartridge, .command⟩ ∧ ∀ command data, d.waiting = .answer command false →
    response = some data → ¬ Acknowledges command data

/-- A packet that is not sent may have reached the cartridge all the same. -/
def env : Env Transport.Op Transport.Reply Device := fun d o r d' =>
  match o, r with
  | .out data, sent => d.Receives data d' ∨ sent = false ∧ d' = d
  | .inExact _, response => d.Answers response d'
  | .inMax _, response => d.Answers response d'
  | .selectBank _, _ => d' = d

/-- Between two commands. -/
def Idle (d : Device) : Prop := d.waiting = .command

end Device

open Device

/-! ## Acknowledged commands -/

theorem acknowledges_self {opcode sub : UInt8} {word length : UInt32} :
    Acknowledges (command opcode sub word length 0x00) (command opcode sub word length 0x00) :=
  ⟨length_command, rfl, rfl⟩

section Acknowledged

variable {d d' : Device} {c : Cartridge} {trace : List Transport.Event}

theorem path_single {o : Transport.Op} {r : Transport.Reply o} :
    Path env d [⟨o, r⟩] d' ↔ env d o r d' := by
  rw [path_cons_iff]
  constructor
  · rintro ⟨m, step, rest⟩
    rw [path_nil_iff.mp rest]
    exact step
  · exact fun step => ⟨d', step, .nil⟩

/-- A packet that was sent has reached the cartridge. -/
theorem path_sent_iff {data : Bytes} {rest : List Transport.Event} :
    Path env d (⟨.out data, true⟩ :: rest) d' ↔ ∃ m, d.Receives data m ∧ Path env m rest d' := by
  rw [path_cons_iff]
  constructor
  · rintro ⟨m, hreceived | ⟨hno, _⟩, hrest⟩
    · exact ⟨m, hreceived, hrest⟩
    · cases hno
  · rintro ⟨m, hreceived, hrest⟩
    exact ⟨m, .inl hreceived, hrest⟩

/-- Only a command that was carried out is acknowledged. -/
theorem path_acknowledged_iff {command response : Bytes} {done : Bool} {maximum : Nat}
    (hack : Acknowledges command response) :
    Path env ⟨c, .answer command done⟩ [⟨.inMax maximum, some response⟩] d' ↔
      done = true ∧ d' = ⟨c, .command⟩ := by
  rw [path_single]
  constructor
  · rintro ⟨hd, hfailed⟩
    cases done with
    | true => exact ⟨rfl, hd⟩
    | false => exact absurd hack (hfailed command response rfl rfl)
  · rintro ⟨rfl, rfl⟩
    refine ⟨rfl, fun command' data hwaiting => ?_⟩
    cases hwaiting

/-- A command, its payload and its echo. -/
theorem path_commandData_iff {command data : Bytes} (hop : command.getD 2 0 = 0x92)
    (hack : Acknowledges command command) :
    Path env ⟨c, .command⟩ (exchange command data) d' ↔
      d' = ⟨c.carryOut command data, .command⟩ := by
  rw [exchange, path_sent_iff]
  simp only [path_sent_iff, Device.Receives, if_pos hop]
  constructor
  · rintro ⟨_, rfl, _, rfl | rfl, hecho⟩
    · exact ((path_acknowledged_iff hack).mp hecho).2
    · exact absurd ((path_acknowledged_iff hack).mp hecho).1 (by decide)
  · rintro rfl
    exact ⟨_, rfl, _, .inl rfl, (path_acknowledged_iff hack).mpr ⟨rfl, rfl⟩⟩

/-- A command that neither writes nor erases, and its answer. -/
theorem path_query_iff {command : Bytes} {answer : Option Bytes} {maximum : Nat}
    (h92 : command.getD 2 0 ≠ 0x92) (h96 : command.getD 2 0 ≠ 0x96) :
    Path env ⟨c, .command⟩ [⟨.out command, true⟩, ⟨.inMax maximum, answer⟩] d' ↔
      d' = ⟨c, .command⟩ := by
  simp only [path_sent_iff, Device.Receives, if_neg h92, if_neg h96, exists_eq_left, path_single]
  constructor
  · exact fun h => h.1
  · rintro rfl
    refine ⟨rfl, fun command' data hwaiting => ?_⟩
    cases hwaiting

theorem carryOut_one {selector value : UInt8} :
    c.carryOut (command92One selector) [value] = c.transfer (.one selector value) := by
  have hword : (readLe32 (command92One selector) 4).toNat = selector.toNat := by
    simp [readLe32, command92One]
  have hcarry : c.carryOut (command92One selector) [value] =
      c.writeSave (readLe32 (command92One selector) 4).toNat [value] := rfl
  rw [hcarry, hword]
  rfl

theorem path_send_iff {tx : Tx} :
    Path env ⟨c, .command⟩ tx.exchange d' ↔ d' = ⟨c.transfer tx, .command⟩ := by
  cases tx with
  | two first second => exact path_commandData_iff rfl ⟨rfl, rfl, rfl⟩
  | one selector value =>
    rw [Tx.exchange, path_commandData_iff rfl ⟨rfl, rfl, rfl⟩, carryOut_one]

/-- What is acknowledged step by step was carried out step by step. -/
theorem path_flatMap_iff {α : Type} {items : List α} {exchanged : α → List Transport.Event}
    {effect : Cartridge → α → Cartridge}
    (hstep : ∀ a ∈ items, ∀ {c d'}, Path env ⟨c, .command⟩ (exchanged a) d' ↔
      d' = ⟨effect c a, .command⟩) :
    Path env ⟨c, .command⟩ (items.flatMap exchanged) d' ↔
      d' = ⟨items.foldl effect c, .command⟩ := by
  induction items generalizing c with
  | nil => exact path_nil_iff
  | cons a rest ih =>
    obtain ⟨ha, hrest⟩ := List.forall_mem_cons.mp hstep
    rw [List.flatMap_cons, path_append_iff, List.foldl_cons]
    simp only [ha, exists_eq_left]
    exact ih hrest

theorem path_sendAll_iff {transfers : List Tx} :
    Path env ⟨c, .command⟩ (transfers.flatMap Tx.exchange) d' ↔
      d' = ⟨transfers.foldl Cartridge.transfer c, .command⟩ :=
  path_flatMap_iff fun _ _ => path_send_iff

/-! ### Erasing -/

def eraseCommand (wordAddress : Nat) : Bytes :=
  command 0x96 0x00 (UInt32.ofNat wordAddress) 0 0x00

/-- An erase command and its answer with status 0. -/
def eraseExchange (wordAddress : Nat) : List Transport.Event :=
  [⟨.out (eraseCommand wordAddress), true⟩, ⟨.inMax 64, some (eraseCommand wordAddress)⟩]

/-- Twelve bytes of the command and a zero are the erase command itself. -/
theorem eq_eraseCommand {wordAddress : Nat} {response : Bytes}
    (h : Acknowledges (eraseCommand wordAddress) response) :
    response = eraseCommand wordAddress := by
  obtain ⟨hlen, hprefix, hstatus⟩ := h
  refine List.ext_getElem? fun i => ?_
  by_cases hi : i < 12
  · have hi' := congrArg (·[i]?) hprefix
    simpa [List.getElem?_take, hi] using hi'
  · by_cases h12 : i = 12
    · subst h12
      have hin : 12 < response.length := by omega
      rw [List.getD_eq_getElem _ _ hin] at hstatus
      rw [List.getElem?_eq_getElem hin, hstatus]
      rfl
    · rw [List.getElem?_eq_none (by omega), List.getElem?_eq_none]
      rw [eraseCommand, length_command]
      omega

theorem runs_eraseSector_true_iff {ε : Type} {wordAddress : Nat} :
    Runs (eraseSector wordAddress : Usb ε Bool) trace (.ok true) ↔
      trace = eraseExchange wordAddress := by
  refine Iff.trans (runs_answerMax_iff Bool.false_ne_true (by rfl)) ⟨?_, ?_⟩
  · rintro ⟨response, _, rfl, hresponse⟩
    obtain ⟨rfl, hok⟩ := runs_pure_iff.mp hresponse
    simp only [Except.ok.injEq, eq_comm (a := true), Bool.and_eq_true, beq_iff_eq] at hok
    obtain ⟨⟨hlen, hprefix⟩, hstatus⟩ := hok
    rw [eq_eraseCommand ⟨hlen, hprefix, hstatus⟩]
    rfl
  · rintro rfl
    have hlen : (eraseCommand wordAddress).length = 13 := length_command
    have hstatus : (eraseCommand wordAddress).getD 12 0 = 0x00 := rfl
    refine ⟨eraseCommand wordAddress, [], rfl, runs_pure_iff.mpr ⟨rfl, ?_⟩⟩
    rw [hlen, hstatus, eraseCommand]
    simp

theorem runs_eraseSectors_true_iff {ε : Type} {addresses : List Nat} :
    Runs (eraseSectors addresses : Usb ε Bool) trace (.ok true) ↔
      trace = addresses.flatMap eraseExchange :=
  runs_allOf_true_iff runs_eraseSector_true_iff

theorem path_eraseSector_iff {wordAddress : Nat} (haddr : wordAddress < 2 ^ 32) :
    Path env ⟨c, .command⟩ (eraseExchange wordAddress) d' ↔
      d' = ⟨c.erase wordAddress, .command⟩ := by
  have hword : (readLe32 (eraseCommand wordAddress) 4).toNat = wordAddress := by
    rw [eraseCommand, readLe32_command_word, UInt32.toNat_ofNat', Nat.mod_eq_of_lt haddr]
  have h92 : ¬ (eraseCommand wordAddress).getD 2 0 = 0x92 := by simp [eraseCommand, command]
  have h96 : (eraseCommand wordAddress).getD 2 0 = 0x96 := rfl
  simp only [eraseExchange, path_sent_iff, Device.Receives, if_neg h92, if_pos h96, hword]
  constructor
  · rintro ⟨_, rfl | rfl, hanswer⟩
    · exact ((path_acknowledged_iff acknowledges_self).mp hanswer).2
    · exact absurd ((path_acknowledged_iff acknowledges_self).mp hanswer).1 (by decide)
  · rintro rfl
    exact ⟨_, .inl rfl, (path_acknowledged_iff acknowledges_self).mpr ⟨rfl, rfl⟩⟩

theorem path_eraseSectors_iff {addresses : List Nat} (haddr : ∀ a ∈ addresses, a < 2 ^ 32) :
    Path env ⟨c, .command⟩ (addresses.flatMap eraseExchange) d' ↔
      d' = ⟨addresses.foldl Cartridge.erase c, .command⟩ :=
  path_flatMap_iff fun a ha => path_eraseSector_iff (haddr a ha)

/-! ### Save banks -/

theorem path_selectBank_iff {bankValue : UInt16} :
    Path env ⟨c, .command⟩ (selectExchange bankValue) d' ↔
      d' = ⟨(SaveBankAccess.selection bankValue).foldl Cartridge.transfer c, .command⟩ := by
  rw [selectExchange, path_cons_iff]
  simp only [env, exists_eq_left]
  exact path_sendAll_iff

end Acknowledged

/-! ## Commands that may fail -/

section Failing

variable {ε : Type} {c : Cartridge}

/-- Nothing that may be asked is excluded here. -/
def anything : Device → Transport.Op → Prop := fun _ _ => True

/-- An echo only comes from a command that was carried out. -/
theorem wp_expectReply {command : Bytes} {done : Bool} (hack : Acknowledges command command) :
    Wp env anything (expectReply command : Usb ε Bool)
      (Gives fun ok d => d = ⟨c, .command⟩ ∧ (ok = true → done = true))
      ⟨c, .answer command done⟩ := by
  refine wp_bind (Q := fun response d => d = ⟨c, .command⟩ ∧
    (response = some command → done = true)) (wp_ask trivial ?_) ?_
  · rintro response d ⟨rfl, hfailed⟩
    refine ⟨rfl, ?_⟩
    rintro rfl
    cases done with
    | true => rfl
    | false => exact absurd hack (hfailed command command rfl rfl)
  · rintro response d ⟨rfl, hdone⟩
    cases response with
    | none => exact ⟨rfl, fun h => by cases h⟩
    | some response => exact ⟨rfl, fun h => hdone (congrArg some (of_decide_eq_true h))⟩

/-- A command with its payload is carried out or not, and if it is acknowledged it was. -/
theorem wp_commandData {command data : Bytes} (hop : command.getD 2 0 = 0x92)
    (hack : Acknowledges command command) :
    Wp env anything (commandDataEcho command data : Usb ε Bool)
      (Gives fun ok d => (d.cartridge = c ∨ d.cartridge = c.carryOut command data) ∧
        (ok = true → d = ⟨c.carryOut command data, .command⟩)) ⟨c, .command⟩ := by
  let after (done : Bool) := if done then c.carryOut command data else c
  have hafter : ∀ done, after done = c ∨ after done = c.carryOut command data := by
    intro done
    cases done with
    | true => exact .inr rfl
    | false => exact .inl rfl
  refine wp_both (Q := fun sent d => d = ⟨c, .payload command⟩ ∨ sent = false ∧ d = ⟨c, .command⟩)
    (wp_ask trivial ?_) ?_ ?_
  · intro sent d hcommand
    show d = ⟨c, .payload command⟩ ∨ sent = false ∧ d = ⟨c, .command⟩
    simpa only [env, Device.Receives, if_pos hop] using hcommand
  · rintro d (rfl | ⟨hno, _⟩)
    · refine wp_both (Q := fun sent d => (∃ done, d = ⟨after done, .answer command done⟩) ∨
        sent = false ∧ d = ⟨c, .payload command⟩) (wp_ask trivial ?_) ?_ ?_
      · rintro sent d ((rfl | rfl) | hlost)
        · exact .inl ⟨true, rfl⟩
        · exact .inl ⟨false, rfl⟩
        · exact .inr hlost
      · rintro d (⟨done, rfl⟩ | ⟨hno, _⟩)
        · refine wp_both (wp_expectReply hack) ?_ ?_
          · rintro d ⟨rfl, hdone⟩
            obtain rfl := hdone rfl
            exact ⟨.inr rfl, fun _ => rfl⟩
          · rintro d ⟨rfl, _⟩
            exact ⟨hafter done, fun h => by cases h⟩
        · cases hno
      · rintro d (⟨done, rfl⟩ | ⟨_, rfl⟩)
        · exact ⟨hafter done, fun h => by cases h⟩
        · exact ⟨.inl rfl, fun h => by cases h⟩
    · cases hno
  · rintro d (rfl | ⟨_, rfl⟩)
    · exact ⟨.inl rfl, fun h => by cases h⟩
    · exact ⟨.inl rfl, fun h => by cases h⟩

end Failing

/-! ## What control transfers do -/

section Transfers

variable {c : Cartridge}

@[simp] theorem flash_erase {wordAddress : Nat} :
    (c.erase wordAddress).flash = c.flash.erase wordAddress := rfl

theorem latchedBank_selected {bank : UInt16} {low high : UInt8} {rest : List (UInt8 × UInt8)} :
    Cartridge.latchedBank bank ((0x00, 0x00) :: (0x00, 0x00) :: (0x00, 0x00) :: (0x00, 0x00) ::
        (low, high) :: (0x00, 0x00) :: (0x00, 0x00) :: (0x55, 0xAA) :: rest) =
      if ProvenBank (low.toUInt16 ||| high.toUInt16 <<< 8) then
        low.toUInt16 ||| high.toUInt16 <<< 8
      else bank := rfl

theorem bank_controlTransfer {first second : UInt8} :
    (c.controlTransfer first second).bank =
      Cartridge.latchedBank c.bank ((first, second) :: c.flash.control) := rfl

theorem control_controlTransfer {first second : UInt8} :
    (c.controlTransfer first second).flash.control = (first, second) :: c.flash.control := rfl

theorem flash_transfers {transfers : List Tx} :
    (transfers.foldl Cartridge.transfer c).flash = transfers.foldl Flash.transfer c.flash := by
  induction transfers generalizing c with
  | nil => rfl
  | cons tx rest ih =>
    rw [List.foldl_cons, List.foldl_cons, ih]
    cases tx with
    | two first second => rfl
    | one selector value => rfl

/-- Two-byte transfers leave the save memory alone. -/
theorem saves_two {transfers : List Tx}
    (h : ∀ tx ∈ transfers, ∃ first second, tx = .two first second) :
    (transfers.foldl Cartridge.transfer c).saves = c.saves := by
  induction transfers generalizing c with
  | nil => rfl
  | cons tx rest ih =>
    obtain ⟨⟨first, second, rfl⟩, hrest⟩ := List.forall_mem_cons.mp h
    rw [List.foldl_cons, ih hrest]
    rfl

/-- Control transfers leave the flash alone. -/
theorem mem_sendAll {transfers : List Tx} :
    (transfers.foldl Cartridge.transfer c).flash.mem = c.flash.mem := by
  rw [flash_transfers, mem_transfers]

/-- After its selection a proven bank is current. -/
theorem bank_selection {bankValue : UInt16} (h : ProvenBank bankValue) :
    ((SaveBankAccess.selection bankValue).foldl Cartridge.transfer c).bank = bankValue := by
  have hjoin : (bankValue &&& 0xFF).toUInt8.toUInt16 |||
      (bankValue >>> 8).toUInt8.toUInt16 <<< 8 = bankValue := by
    obtain ⟨k, hk, hvalue⟩ := provenBank_iff.mp h
    obtain rfl : bankValue = UInt16.ofNat (0x0900 + k * 0x10) := by
      rw [← hvalue, UInt16.ofNat_toNat]
    obtain rfl | rfl | rfl | rfl : k = 0 ∨ k = 1 ∨ k = 2 ∨ k = 3 := by omega
    all_goals decide
  rw [SaveBankAccess.selection]
  simp only [List.foldl_cons, List.foldl_nil, Cartridge.transfer]
  rw [bank_controlTransfer]
  simp only [control_controlTransfer]
  rw [latchedBank_selected, hjoin, if_pos h]

/-- The selection of a flash window leaves the window latched. -/
theorem window_selection {window : Nat} (hw : window ≤ 3) :
    ((FlashWindowSelector.selection window).foldl Cartridge.transfer c).flash.window =
      window := by
  rw [flash_transfers]
  generalize c.flash = f
  obtain rfl | rfl | rfl | rfl : window = 0 ∨ window = 1 ∨ window = 2 ∨ window = 3 := by omega
  · rfl
  · rfl
  · rfl
  · rfl

/-- What was blank stays blank, and the erased sectors become so. -/
theorem blank_erases {addresses : List Nat} {x : Nat}
    (h : c.flash.mem x = 0xFF ∨ ∃ a ∈ addresses, InSector c.flash.window (2 * a) x) :
    (addresses.foldl Cartridge.erase c).flash.mem x = 0xFF := by
  induction addresses generalizing c with
  | nil =>
    obtain h | ⟨a, ha, _⟩ := h
    · exact h
    · cases ha
  | cons a rest ih =>
    rw [List.foldl_cons]
    refine ih ?_
    rw [flash_erase, Flash.window_erase]
    have hmem : (c.flash.erase a).mem x =
        if InSector c.flash.window (2 * a) x then 0xFF else c.flash.mem x := by
      rw [Flash.erase]
    obtain h | ⟨b, hb, hsector⟩ := h
    · left
      rw [hmem, h, ite_self]
    · obtain rfl | hb := List.mem_cons.mp hb
      · left
        rw [hmem, if_pos hsector]
      · exact .inr ⟨b, hb, hsector⟩

/-! ### Overwritten banks -/

/-- A bank selected and overwritten. -/
def Cartridge.writeBank (c : Cartridge) (bank : UInt16 × Bytes) : Cartridge :=
  ((SaveBankAccess.selection bank.1).foldl Cartridge.transfer c).writeSave 0 bank.2

theorem path_writeBank_iff {d' : Device} {bank : UInt16 × Bytes} :
    Path env ⟨c, .command⟩ (writeBankExchange bank) d' ↔ d' = ⟨c.writeBank bank, .command⟩ := by
  rw [writeBankExchange, path_append_iff]
  simp only [path_selectBank_iff, exists_eq_left]
  exact path_commandData_iff rfl ⟨rfl, rfl, rfl⟩

theorem path_writeBanks_iff {d' : Device} {banks : List (UInt16 × Bytes)} :
    Path env ⟨c, .command⟩ (banks.flatMap writeBankExchange) d' ↔
      d' = ⟨banks.foldl Cartridge.writeBank c, .command⟩ :=
  path_flatMap_iff fun _ _ => path_writeBank_iff

theorem mem_writeBanks {banks : List (UInt16 × Bytes)} :
    (banks.foldl Cartridge.writeBank c).flash.mem = c.flash.mem := by
  induction banks generalizing c with
  | nil => rfl
  | cons bank rest ih =>
    rw [List.foldl_cons, ih]
    exact mem_sendAll

theorem saves_writeBank {bank : UInt16 × Bytes} (hproven : ProvenBank bank.1) {v : UInt16}
    {i : Nat} :
    (c.writeBank bank).saves v i =
      if v = bank.1 ∧ i < bank.2.length then bank.2.getD i 0 else c.saves v i := by
  simp only [Cartridge.writeBank, Cartridge.writeSave, bank_selection hproven,
    saves_two (selection_two bank.1), Nat.zero_le, true_and, Nat.zero_add, Nat.sub_zero]

/-- What was zero stays zero, and the banks overwritten with zeros become so. -/
theorem zero_writeBanks {banks : List UInt16} (hproven : ∀ v ∈ banks, ProvenBank v) {v : UInt16}
    {i : Nat} (hi : i < bankSize) (h : c.saves v i = 0 ∨ v ∈ banks) :
    ((banks.map fun bank => (bank, SaveBankCleaner.zeros)).foldl Cartridge.writeBank c).saves v
      i = 0 := by
  induction banks generalizing c with
  | nil =>
    obtain h | h := h
    · exact h
    · cases h
  | cons bank rest ih =>
    obtain ⟨hbank, hrest⟩ := List.forall_mem_cons.mp hproven
    rw [List.map_cons, List.foldl_cons]
    refine ih hrest ?_
    rw [saves_writeBank hbank]
    by_cases hv : v = bank
    · left
      rw [if_pos ⟨hv, by rw [SaveBankCleaner.zeros, List.length_replicate]; exact hi⟩]
      exact List.getD_replicate _ hi
    · rw [if_neg fun h => hv h.1]
      obtain h | h := h
      · exact .inl h
      · exact .inr ((List.mem_cons.mp h).resolve_left hv)

end Transfers

end Ezfadvance
