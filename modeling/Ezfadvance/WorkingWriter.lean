import Ezfadvance.SaveRoundTrip
import Ezfadvance.WriteOutcome

/-!
# WorkingWriter

The writing tools on a cartridge that works: every packet arrives, every command is carried out and
acknowledged, and reads are answered from the flash.

* `Bridge`: such a cartridge behind its transport, and `env_step`: it is one of `Device.env`.
* `path_exchange`, `path_erase`, `path_block`: what it makes of an acknowledged command.
* `Smooth`, `succeeds_of_path`: what succeeds there, phase by phase.
* `writes_working_card`: the whole write of a built image succeeds.
-/

namespace Ezfadvance

open Interact Interact.Program CartridgeFormat Protocol Usb LibusbWriterBackend FlashWindowSelector

/-- Between two packets. The command of an `echo` is answered with its last byte cleared. -/
structure Bridge where
  cartridge : Cartridge
  due : Due

namespace Bridge

def flashId : Bytes := [0x1C, 0x00, 0xB8, 0x00]

/-- A packet that is no payload. -/
def obey (c : Cartridge) (data : Bytes) : Bridge :=
  if data.getD 2 0 = 0x92 then ⟨c, .payload data⟩
  else if data.getD 2 0 = 0x96 then ⟨c.erase (readLe32 data 4).toNat, .echo data⟩
  else if data.getD 2 0 = 0x97 then ⟨c, .data [0x00]⟩
  else if data.getD 2 0 = 0x98 then ⟨c, .data [0x01]⟩
  else if data.getD 2 0 = 0x99 ∨ data.getD 2 0 = 0x95 then ⟨c, .data data⟩
  else if data.getD 2 0 = 0x91 ∧ data.getD 3 0 = 0x02 then ⟨c, .data flashId⟩
  else if data.getD 2 0 = 0x91 ∧ data.getD 3 0 = 0x00 then
    ⟨c, .data (readCard c.flash.mem (2 * (readLe32 data 4).toNat) (readLe32 data 8).toNat)⟩
  else ⟨c, .command⟩

def receive (b : Bridge) (data : Bytes) : Bridge :=
  match b.due with
  | .payload command => ⟨b.cartridge.carryOut command data, .echo command⟩
  | _ => obey b.cartridge data

/-- What is ready to be read. -/
def answer (b : Bridge) : Option Bytes :=
  match b.due with
  | .echo command => some (command.set 12 0x00)
  | .data bytes => some bytes
  | _ => none

def step (b : Bridge) : (o : Transport.Op) → Transport.Reply o × Bridge
  | .out data => (true, b.receive data)
  | .inMax maximum => (b.answer.filter (·.length ≤ maximum), ⟨b.cartridge, .command⟩)
  | .inExact wanted => (b.answer.filter (·.length = wanted), ⟨b.cartridge, .command⟩)
  | .selectBank _ => ((), b)

/-- The same cartridge as `Device.env` sees it. -/
def device (b : Bridge) : Device where
  cartridge := b.cartridge
  waiting :=
    match b.due with
    | .command => .command
    | .payload command => .payload command
    | .echo command => .answer command true
    | .data _ => .command

theorem receives_obey {c : Cartridge} {data : Bytes} :
    Device.Receives ⟨c, .command⟩ data (obey c data).device := by
  by_cases h92 : data.getD 2 0 = 0x92
  · simp only [Device.Receives, obey, if_pos h92]
    rfl
  · by_cases h96 : data.getD 2 0 = 0x96
    · simp only [Device.Receives, obey, if_neg h92, if_pos h96]
      exact .inl rfl
    · simp only [Device.Receives, obey, if_neg h92, if_neg h96]
      split_ifs <;> rfl

/-- The working cartridge is one of the cartridges of `Device.env`. -/
theorem env_step (b : Bridge) (o : Transport.Op) :
    Device.env b.device o (b.step o).1 (b.step o).2.device := by
  obtain ⟨c, due⟩ := b
  have hanswers : ∀ response, Device.Answers (Bridge.mk c due).device response ⟨c, .command⟩ := by
    refine fun response => ⟨rfl, fun command data hwaiting => ?_⟩
    cases due with
    | command => cases hwaiting
    | payload pending => cases hwaiting
    | echo pending => cases hwaiting
    | data bytes => cases hwaiting
  cases o with
  | out data =>
    cases due with
    | command => exact .inl receives_obey
    | payload command => exact .inl (.inl rfl)
    | echo command => exact .inl receives_obey
    | data bytes => exact .inl receives_obey
  | inMax maximum => exact hanswers _
  | inExact wanted => exact hanswers _
  | selectBank bankValue => rfl

/-! ## Acknowledged commands -/

section Acknowledged

variable {c : Cartridge}

theorem step_inMax {due : Due} {bytes : Bytes} {maximum : Nat}
    (h : (Bridge.mk c due).answer = some bytes) (hlen : bytes.length ≤ maximum) :
    step ⟨c, due⟩ (.inMax maximum) = (some bytes, ⟨c, .command⟩) := by
  rw [step, h]
  simp [hlen]

theorem step_inExact {due : Due} {bytes : Bytes} {wanted : Nat}
    (h : (Bridge.mk c due).answer = some bytes) (hlen : bytes.length = wanted) :
    step ⟨c, due⟩ (.inExact wanted) = (some bytes, ⟨c, .command⟩) := by
  rw [step, h]
  simp [hlen]

/-- A command with its payload, and the command back with status 0. -/
theorem path_transaction {command data reply : Bytes} (hop : command.getD 2 0 = 0x92)
    (hreply : command.set 12 0x00 = reply) (hlen : reply.length ≤ 64) :
    Path (deviceEnv step) ⟨c, .command⟩
      [⟨.out command, true⟩, ⟨.out data, true⟩, ⟨.inMax 64, some reply⟩]
      ⟨c.carryOut command data, .command⟩ := by
  have hcommand : step ⟨c, .command⟩ (.out command) = (true, ⟨c, .payload command⟩) := by
    rw [step, receive, obey, if_pos hop]
  have hdata : step ⟨c, .payload command⟩ (.out data) =
      (true, ⟨c.carryOut command data, .echo command⟩) := rfl
  have hanswer : step ⟨c.carryOut command data, .echo command⟩ (.inMax 64) =
      (some reply, ⟨c.carryOut command data, .command⟩) := step_inMax (congrArg some hreply) hlen
  exact .cons hcommand (.cons hdata (.cons hanswer .nil))

theorem path_exchange {command data : Bytes} (hop : command.getD 2 0 = 0x92)
    (hstatus : command.set 12 0x00 = command) (hlen : command.length ≤ 64) :
    Path (deviceEnv step) ⟨c, .command⟩ (exchange command data)
      ⟨c.carryOut command data, .command⟩ := path_transaction hop hstatus hlen

theorem path_send {tx : Tx} :
    Path (deviceEnv step) ⟨c, .command⟩ tx.exchange ⟨c.transfer tx, .command⟩ := by
  cases tx with
  | two first second => exact path_exchange rfl rfl (by decide)
  | one selector value =>
    rw [← carryOut_one]
    exact path_exchange rfl rfl (show 13 ≤ 64 by omega)

theorem path_erase {wordAddress : Nat} (haddr : wordAddress < 2 ^ 32) :
    Path (deviceEnv step) ⟨c, .command⟩ (eraseExchange wordAddress)
      ⟨c.erase wordAddress, .command⟩ := by
  have hword : (readLe32 (eraseCommand wordAddress) 4).toNat = wordAddress := by
    rw [eraseCommand, readLe32_command_word, UInt32.toNat_ofNat', Nat.mod_eq_of_lt haddr]
  have hcommand : step ⟨c, .command⟩ (.out (eraseCommand wordAddress)) =
      (true, ⟨c.erase wordAddress, .echo (eraseCommand wordAddress)⟩) := by
    rw [step, receive, obey, if_neg (by simp [eraseCommand, command]), if_pos (by rfl), hword]
  have hanswer : step ⟨c.erase wordAddress, .echo (eraseCommand wordAddress)⟩ (.inMax 64) =
      (some (eraseCommand wordAddress), ⟨c.erase wordAddress, .command⟩) :=
    step_inMax rfl (show 13 ≤ 64 by omega)
  exact .cons hcommand (.cons hanswer .nil)

/-- Step by step, whatever the cartridge holds. -/
theorem path_flatMap {α : Type} {items : List α} {exchanged : α → List Transport.Event}
    {effect : Cartridge → α → Cartridge}
    (hstep : ∀ a ∈ items, ∀ c, Path (deviceEnv step) ⟨c, .command⟩ (exchanged a)
      ⟨effect c a, .command⟩) :
    Path (deviceEnv step) ⟨c, .command⟩ (items.flatMap exchanged)
      ⟨items.foldl effect c, .command⟩ := by
  induction items generalizing c with
  | nil => exact .nil
  | cons a rest ih =>
    obtain ⟨ha, hrest⟩ := List.forall_mem_cons.mp hstep
    rw [List.flatMap_cons]
    exact path_append_iff.mpr ⟨_, ha c, ih hrest⟩

theorem path_sendAll {transfers : List Tx} :
    Path (deviceEnv step) ⟨c, .command⟩ (transfers.flatMap Tx.exchange)
      ⟨transfers.foldl Cartridge.transfer c, .command⟩ :=
  path_flatMap fun _ _ _ => path_send

theorem path_eraseSectors {addresses : List Nat} (haddr : ∀ a ∈ addresses, a < 2 ^ 32) :
    Path (deviceEnv step) ⟨c, .command⟩ (addresses.flatMap eraseExchange)
      ⟨addresses.foldl Cartridge.erase c, .command⟩ :=
  path_flatMap fun a ha _ => path_erase (haddr a ha)

theorem path_writeBanks {banks : List (UInt16 × Bytes)} :
    Path (deviceEnv step) ⟨c, .command⟩ (banks.flatMap writeBankExchange)
      ⟨banks.foldl Cartridge.writeBank c, .command⟩ := by
  refine path_flatMap fun bank _ c => path_append_iff.mpr ⟨_, .cons rfl path_sendAll, ?_⟩
  exact path_exchange rfl rfl (by decide)

/-- A query that is answered with data. -/
theorem path_query {command bytes : Bytes} {o : Transport.Op} {r : Transport.Reply o}
    (hobey : obey c command = ⟨c, .data bytes⟩)
    (hanswer : step ⟨c, .data bytes⟩ o = (r, ⟨c, .command⟩)) :
    Path (deviceEnv step) ⟨c, .command⟩ [⟨.out command, true⟩, ⟨o, r⟩] ⟨c, .command⟩ := by
  have hcommand : step ⟨c, .command⟩ (.out command) = (true, ⟨c, .data bytes⟩) := by
    rw [step, receive, hobey]
  exact .cons hcommand (.cons hanswer .nil)

end Acknowledged

/-! ## Phases that succeed -/

/-- Between two commands, with such a cartridge. -/
def Rests (P : Cartridge → Prop) (b : Bridge) : Prop := b.due = .command ∧ P b.cartridge

section Phases

variable {ε : Type} {P Q : Cartridge → Prop} {image : Bytes}

theorem succeeds_of_path {p : Usb ε Bool}
    (h : ∀ c, P c → ∃ trace c', Runs p trace (.ok true) ∧
      Path (deviceEnv step) ⟨c, .command⟩ trace ⟨c', .command⟩ ∧ Q c') :
    Succeeds step (Rests P) p (Rests Q) := by
  rintro ⟨c, due⟩ ⟨hdue, hc⟩
  cases hdue
  obtain ⟨trace, c', run, path, hc'⟩ := h c hc
  exact ⟨⟨c', .command⟩, exec_of_path run path, rfl, hc'⟩

/-- A trace that the cartridge takes part in, whatever it holds. -/
def Smooth (trace : List Transport.Event) : Prop :=
  ∀ c, ∃ c', Path (deviceEnv step) ⟨c, .command⟩ trace ⟨c', .command⟩

theorem Smooth.append {t1 t2 : List Transport.Event} (h1 : Smooth t1) (h2 : Smooth t2) :
    Smooth (t1 ++ t2) := by
  intro c
  obtain ⟨c1, path1⟩ := h1 c
  obtain ⟨c2, path2⟩ := h2 c1
  exact ⟨c2, path_append_iff.mpr ⟨_, path1, path2⟩⟩

theorem smooth_flatMap {α : Type} {items : List α} {exchanged : α → List Transport.Event}
    (h : ∀ a ∈ items, Smooth (exchanged a)) : Smooth (items.flatMap exchanged) := by
  induction items with
  | nil => exact fun c => ⟨c, .nil⟩
  | cons a rest ih =>
    obtain ⟨ha, hrest⟩ := List.forall_mem_cons.mp h
    rw [List.flatMap_cons]
    exact ha.append (ih hrest)

theorem smooth_sendAll {transfers : List Tx} : Smooth (transfers.flatMap Tx.exchange) :=
  fun _ => ⟨_, path_sendAll⟩

theorem smooth_eraseGroups {groups : List (Nat × List Nat)} {gi : Nat}
    (hg : ∀ g ∈ groups, ∀ a ∈ g.2, a < 2 ^ 32) : Smooth (eraseGroupsTrace gi groups) := by
  induction groups generalizing gi with
  | nil => exact fun c => ⟨c, .nil⟩
  | cons g rest ih =>
    obtain ⟨ha, hrest⟩ := List.forall_mem_cons.mp hg
    have hswitch : Smooth (if gi ≠ 0 then finishTrace ++ windowTrace g.1 else []) := by
      split
      · exact smooth_sendAll.append smooth_sendAll
      · exact fun c => ⟨c, .nil⟩
    exact hswitch.append (Smooth.append (fun c => ⟨_, path_eraseSectors ha⟩) (ih hrest))

theorem smooth_erase {programmedSize : Nat} : Smooth (eraseTrace programmedSize) := by
  refine smooth_eraseGroups ?_
  rw [eraseGroups]
  split
  case isTrue h8 => exact List.forall_mem_singleton.mpr (selective_lt h8)
  case isFalse => exact fun g hg => (multiWindowGroups_ok g hg).2

theorem smooth_block {k : Nat} : Smooth (blockTrace image k) := by
  have hswitch : Smooth (switchTrace k) := by
    rw [switchTrace]
    split
    · exact smooth_sendAll.append smooth_sendAll
    · exact fun c => ⟨c, .nil⟩
  exact hswitch.append fun c => ⟨_, path_transaction rfl rfl (by simp [programCommand])⟩

theorem smooth_flash : Smooth (flashTrace image) :=
  (smooth_sendAll.append (smooth_erase.append (smooth_sendAll.append smooth_sendAll))).append
    (smooth_flatMap fun _ _ => smooth_block)

/-- The writing steps leave the image. -/
theorem succeeds_flashImage {old : Nat → UInt8} (hcard : image.length ≤ maxCardImage) :
    Succeeds step (Rests fun c => c.flash.mem = old) (flashImage image)
      (Rests fun c => Flashed old image c.flash.mem) := by
  refine succeeds_of_path fun c hc => ?_
  obtain ⟨c', path⟩ : ∃ c', Path (deviceEnv step) ⟨c, .command⟩ (flashTrace image) ⟨c', .command⟩ :=
    smooth_flash c
  have run : Runs (flashImage image) (flashTrace image) (.ok true) :=
    (runs_flash_true_iff hcard).mpr rfl
  have path' : Path Device.env ⟨c, .command⟩ (flashTrace image) ⟨c', .command⟩ :=
    path.map fun {b o _ _} h => by
      have := env_step b o
      rwa [show b.step o = _ from h] at this
  obtain ⟨_, hheld⟩ := ((attempts_flashImage hcard ⟨c, .command⟩
    ⟨_, rfl, hc, rfl⟩).sound run path').2.1 rfl
  exact ⟨_, c', run, path, hheld.content⟩

/-! ### The setup -/

theorem path_readTrace {c : Cartridge} {command bytes : Bytes} {wanted : Nat}
    (hobey : obey c command = ⟨c, .data bytes⟩) (hlen : bytes.length = wanted) :
    Path (deviceEnv step) ⟨c, .command⟩ (readTrace command wanted bytes) ⟨c, .command⟩ :=
  path_query hobey (step_inExact rfl hlen)

/-- The requests of a probe that a working cartridge knows. -/
def Answerable : ProbeStep → Prop
  | .read command wanted => command.getD 2 0 = 0x91 ∧
      (command.getD 3 0 = 0x02 ∧ wanted = 4 ∨
        command.getD 3 0 = 0x00 ∧ wanted = (readLe32 command 8).toNat)
  | .echo command => command.getD 2 0 = 0x95
  | _ => True

instance : (probeStep : ProbeStep) → Decidable (Answerable probeStep)
  | .read _ _ => inferInstanceAs (Decidable (_ ∧ (_ ∨ _)))
  | .echo _ => inferInstanceAs (Decidable (_ = _))
  | .transfer _ => .isTrue trivial
  | .twoAt _ _ _ => .isTrue trivial

theorem answerable_managerCheck : ∀ probeStep ∈ managerCheck, Answerable probeStep := by
  decide +kernel

variable {old : Nat → UInt8}

theorem succeeds_probeStep {probeStep : ProbeStep} (h : Answerable probeStep) :
    Succeeds step (Rests fun c => c.flash.mem = old) (probeStep.send : Usb ε Bool)
      (Rests fun c => c.flash.mem = old) := by
  refine succeeds_of_path fun c hc => ?_
  cases probeStep with
  | transfer tx => exact ⟨_, _, runs_send_true_iff.mpr rfl, path_send, mem_transfer.trans hc⟩
  | twoAt wordAddress first second =>
    exact ⟨_, _, runs_commandDataEcho_true_iff.mpr rfl,
      path_exchange rfl rfl (show 13 ≤ 64 by omega), hc⟩
  | read command wanted =>
    obtain ⟨hop, ⟨hsub, hwanted⟩ | ⟨hsub, hwanted⟩⟩ := h
    · have hobey : obey c command = ⟨c, .data flashId⟩ := by
        rw [obey, hop, hsub]
        rfl
      exact ⟨_, c, runs_probeStep_true_iff.mpr ⟨flashId, rfl⟩,
        path_readTrace hobey hwanted.symm, hc⟩
    · have hobey : obey c command = ⟨c, .data (readCard c.flash.mem
          (2 * (readLe32 command 4).toNat) (readLe32 command 8).toNat)⟩ := by
        rw [obey, hop, hsub]
        rfl
      exact ⟨_, c, runs_probeStep_true_iff.mpr ⟨_, rfl⟩,
        path_readTrace hobey (by rw [length_readCard, hwanted]), hc⟩
  | echo command =>
    have hobey : obey c command = ⟨c, .data command⟩ := by
      rw [obey, show command.getD 2 0 = 0x95 from h]
      rfl
    exact ⟨_, c, runs_probeStep_true_iff.mpr rfl, path_readTrace hobey rfl, hc⟩

theorem succeeds_startup :
    Succeeds step (Rests P) (originalBridgeStartup979899 : Usb ε Bool) (Rests P) :=
  succeeds_of_path fun c hc => ⟨startupTrace 0, c, runs_startup_trace (by decide),
    path_append_iff.mpr ⟨_, path_append_iff.mpr ⟨_, path_append_iff.mpr
      ⟨_, path_readTrace rfl rfl, .nil⟩, path_readTrace rfl rfl⟩, path_readTrace rfl rfl⟩, hc⟩

theorem succeeds_initializeBridge :
    Succeeds step (Rests P) (initializeBridge : Usb ε Bool) (Rests P) := by
  have hpoll : Succeeds step (Rests P) (answeredByte c98 0x01 : Usb ε Bool) (Rests P) :=
    succeeds_of_path fun c hc => ⟨_, c, runs_answeredByte_trace, path_readTrace rfl rfl, hc⟩
  exact hpoll.both (hpoll.both (hpoll.both .skip))

theorem succeeds_clearAll :
    Succeeds step (Rests fun c => c.flash.mem = old) (SaveBankCleaner.clearAll : Usb ε Bool)
      (Rests fun c => c.flash.mem = old) :=
  succeeds_of_path fun _ hc => ⟨_, _, runs_clearAll_true_iff.mpr rfl, path_writeBanks,
    mem_writeBanks.trans hc⟩

theorem succeeds_preflight :
    Succeeds step (Rests fun c => c.flash.mem = old)
      (originalManagerInitializeAndCheck : Usb ε Bool) (Rests fun c => c.flash.mem = old) := by
  refine succeeds_startup.both (Succeeds.allOf fun p hp => ?_)
  obtain ⟨probeStep, hstep, rfl⟩ := List.mem_map.mp hp
  exact succeeds_probeStep (answerable_managerCheck probeStep hstep)

/-! ### The verification -/

theorem succeeds_sendAll {transfers : List Tx} :
    Succeeds step (Rests fun c => c.flash.mem = old) (sendAll transfers : Usb ε Bool)
      (Rests fun c => c.flash.mem = old) :=
  succeeds_of_path fun _ hc => ⟨_, _, runs_sendAll_true_iff.mpr rfl, path_sendAll,
    mem_sendAll.trans hc⟩

theorem succeeds_verifyBlock {verifySize offset length : Nat} {require : Bool}
    (hexpected : Expected image verifySize require old) (heven : 2 ∣ offset)
    (hoffset : offset < 2 ^ 32) (hlength : length < 2 ^ 32) (hend : offset + length ≤ verifySize) :
    Succeeds step (Rests fun c => c.flash.mem = old)
      (VerificationSession.verifyBlock image require offset length)
      (Rests fun c => c.flash.mem = old) := by
  have haddr : 2 * (UInt32.ofNat (offset / 2)).toNat = offset := by
    rw [UInt32.toNat_ofNat', Nat.mod_eq_of_lt (by omega)]
    omega
  have hlen : (UInt32.ofNat length).toNat = length := by
    rw [UInt32.toNat_ofNat', Nat.mod_eq_of_lt hlength]
  have hcompare : VerificationSession.compareBlock image offset (readCard old offset length) require =
      true := by
    refine compareBlock_iff.mpr fun i b hb hcounts => ?_
    have hi : i < length := by
      have := (List.getElem?_eq_some_iff.mp hb).1
      rwa [length_readCard] at this
    rw [getElem?_readCard hi] at hb
    cases hb
    exact hexpected _ (by omega) hcounts
  rw [VerificationSession.verifyBlock, readCommand_block heven hoffset hlength, ofExcept_ok]
  refine succeeds_of_path fun c hc => ?_
  subst hc
  have hobey : obey c (command 0x91 0x00 (UInt32.ofNat (offset / 2)) (UInt32.ofNat length) 0x00) =
      ⟨c, .data (readCard c.flash.mem offset length)⟩ := by
    have h : obey c (command 0x91 0x00 (UInt32.ofNat (offset / 2)) (UInt32.ofNat length) 0x00) =
        ⟨c, .data (readCard c.flash.mem
          (2 * (readLe32 (command 0x91 0x00 (UInt32.ofNat (offset / 2)) (UInt32.ofNat length)
            0x00) 4).toNat)
          (readLe32 (command 0x91 0x00 (UInt32.ofNat (offset / 2)) (UInt32.ofNat length)
            0x00) 8).toNat)⟩ := rfl
    rw [h, readLe32_command_word, readLe32_command_length, haddr, hlen]
  refine ⟨_, c, (runs_answerExact_iff Bool.false_ne_true (by rfl)).mpr
    ⟨readCard c.flash.mem offset length, [], rfl, runs_pure_iff.mpr ⟨rfl, ?_⟩⟩,
    path_query hobey (step_inExact rfl length_readCard), rfl⟩
  rw [hcompare]

theorem succeeds_verifyFrom {verifySize : Nat} {require : Bool}
    (hexpected : Expected image verifySize require old) (hsize : verifySize < 2 ^ 32) (offset : Nat)
    (hoff : 0x10000 ∣ offset ∨ verifySize ≤ offset) :
    Succeeds step (Rests fun c => c.flash.mem = old)
      (VerificationSession.verifyFrom image verifySize require offset)
      (Rests fun c => c.flash.mem = old) := by
  induction offset using VerificationSession.verifyFrom.induct verifySize with
  | case1 offset hlt length ih =>
    have hdvd : 0x10000 ∣ offset := hoff.resolve_right (by omega)
    have hblock : length ≤ 0x10000 := Nat.min_le_left _ _
    have hrest : 0x10000 ∣ offset + length ∨ verifySize ≤ offset + length := by
      simp only [length, VerificationSession.blockSize]
      omega
    rw [VerificationSession.verifyFrom, if_pos hlt]
    exact (succeeds_verifyBlock hexpected (by omega) (by omega) (by omega) (by omega)).both (ih hrest)
  | case2 offset hge =>
    rw [VerificationSession.verifyFrom, if_neg hge]
    exact .skip

end Phases

/-! ## The whole write -/

section Write

variable {image : Bytes} {skip : Bool} {c : Cartridge}

/-- After the image has been written, every way to finish succeeds. -/
theorem exec_finishWrite {old : Nat → UInt8} {b : Bridge} (hsize : ProgrammedSize image.length)
    (hb : Rests (fun c => Flashed old image c.flash.mem) b) :
    ∃ result b', exec step (CardWriter.finishWrite image skip) b = (.ok (true, result), b') ∧
      Rests (fun c => c.flash.mem = b.cartridge.flash.mem) b' := by
  have hrests : Rests (fun c => c.flash.mem = b.cartridge.flash.mem) b := ⟨hb.1, rfl⟩
  rw [CardWriter.finishWrite]
  split
  · obtain ⟨b', hrun, hb'⟩ := succeeds_sendAll b hrests
    exact ⟨_, b', exec_bind_ok hrun, hb'⟩
  · dsimp only
    split
    · obtain ⟨b', hrun, hb'⟩ := succeeds_sendAll b hrests
      exact ⟨_, b', exec_bind_ok hrun, hb'⟩
    case isFalse hmode =>
      have hblock := hsize.blockLe
      have hmax := hsize.leCard
      have hup := @Rounding.up_lt image.length 0x10000 (by omega)
      simp only [programBlock, maxCardImage] at hblock hmax
      obtain ⟨preamble, hverify⟩ := verify_eq (by omega) hmode
      rw [hverify]
      obtain ⟨b', hrun, hb'⟩ := (succeeds_sendAll.both (succeeds_verifyFrom
        (hb.2.expected hmode) (by omega) 0 (.inl (Nat.dvd_zero _)))) b hrests
      exact ⟨_, b', exec_bind_ok hrun, hb'⟩

/-- What a bridge executes is a run that `Device.env` allows. -/
theorem exec_device {ε α : Type} (p : Usb ε α) (b : Bridge) :
    ∃ trace, Runs p trace (exec step p b).1 ∧
      Path Device.env b.device trace (exec step p b).2.device := exec_path env_step

theorem exec_write (hsize : ProgrammedSize image.length) :
    ∃ result b', exec step (CardWriter.write image skip) ⟨c, .command⟩ = (.ok result, b') ∧
      result.status = .success := by
  have hrests : Rests (fun c' => c'.flash.mem = c.flash.mem) ⟨c, .command⟩ := ⟨rfl, rfl⟩
  obtain ⟨b1, h1, hb1⟩ := succeeds_preflight _ hrests
  obtain ⟨b2, h2, hb2⟩ := (succeeds_initializeBridge.both succeeds_clearAll) b1 hb1
  obtain ⟨b3, h3, hb3⟩ := succeeds_flashImage hsize.leCard b2 hb2
  obtain ⟨result, b4, h4, hb4⟩ := @exec_finishWrite _ skip _ _ hsize hb3
  obtain ⟨b5, h5, _⟩ := succeeds_clearAll b4 hb4
  refine ⟨{ result with status := .success }, b5, ?_, rfl⟩
  have hclear : exec step (CardWriter.finalClear true true) b4 = (.ok true, b5) :=
    exec_bind_ok h5
  exact (exec_bind_ok h1).trans ((exec_bind_ok h2).trans ((exec_bind_ok h3).trans
    ((exec_bind_ok h4).trans (exec_bind_ok hclear))))

theorem exec_written (hsize : ProgrammedSize image.length) :
    ∃ b, exec step (CardWriter.write image skip) ⟨c, .command⟩ =
        (.ok (CardWriter.writtenResult image skip), b) ∧
      Flashed c.flash.mem image b.cartridge.flash.mem ∧
      ∀ bank, ProvenBank bank → ∀ i < bankSize, b.cartridge.saves bank i = 0 := by
  obtain ⟨result, b, hrun, hsuccess⟩ := @exec_write _ skip c hsize
  obtain ⟨trace, run, path⟩ := exec_device (CardWriter.write image skip) ⟨c, .command⟩
  rw [hrun] at run path
  obtain ⟨_, _, hout, hdone⟩ := CardWriter.outcome_of_run hsize run path
  cases hout
  obtain ⟨hflashed, hzero, rfl⟩ := hdone hsuccess
  exact ⟨b, hrun, hflashed, hzero⟩

/-- On a working cartridge, whatever it holds, the write of every image that `build` produces
succeeds: the image is on the card and the save banks are zero. -/
theorem writes_working_card {templates : LoaderTemplates} {roms placed : List RomInfo}
    {direct : Bool} {built : BuiltCartridgeImage} (skip : Bool) (c : Cartridge)
    (hbuild : CartridgeImageBuilder.build templates roms direct = .ok (placed, built)) :
    ∃ b, exec step (CardWriter.write built.bytes skip) ⟨c, .command⟩ =
        (.ok (CardWriter.writtenResult built.bytes skip), b) ∧
      Flashed c.flash.mem built.bytes b.cartridge.flash.mem ∧
      ∀ bank, ProvenBank bank → ∀ i < bankSize, b.cartridge.saves bank i = 0 :=
  exec_written (build_programmedSize hbuild)

theorem build_small : ∃ placed built, CartridgeImageBuilder.build ⟨[], []⟩
    [{ name := [], data := List.replicate 0x200 0x5A }] true = .ok (placed, built) := by
  obtain ⟨built, hfinish, _⟩ := @finishImage_ok (List.replicate 0x200 0x5A)
    (by rw [List.length_replicate]; decide)
  exact ⟨_, built, CardWriter.build_direct hfinish⟩

/-- A small ROM, written to a blank card and verified. -/
theorem writes_blank_card : ∃ placed built b, CartridgeImageBuilder.build ⟨[], []⟩
      [{ name := [], data := List.replicate 0x200 0x5A }] true = .ok (placed, built) ∧
    exec step (CardWriter.write built.bytes false) ⟨CardWriter.blankCartridge, .command⟩ =
      (.ok (CardWriter.writtenResult built.bytes false), b) ∧
    Flashed (fun _ => 0xFF) built.bytes b.cartridge.flash.mem := by
  obtain ⟨placed, built, hbuild⟩ := build_small
  obtain ⟨b, hrun, hflashed, _⟩ := writes_working_card false CardWriter.blankCartridge hbuild
  exact ⟨placed, built, b, hbuild, hrun, hflashed⟩

end Write

end Bridge

end Ezfadvance
