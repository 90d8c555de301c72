import Ezfadvance.Cartridge

/-!
# SaveRoundTrip

Consecutive save banks written, read back and cleared.

* `BankRange`: one to four of the banks, in the terms of the banks and not of the range check.
* `WorkingCartridge`: the cartridge behind a transport that loses nothing. Its steps are steps of
  `Device.env`, where any transfer may fail.
* `exec_writeSave`, `exec_readBanks`: what the writer stores and what the reader returns.
* `save_round_trip`: the save comes back, the other banks stay, and a write that fails at one bank has
  not touched the banks behind it.
-/

namespace Ezfadvance

open Interact Interact.Program CartridgeFormat Protocol Usb Device

/-! ## Ranges of banks -/

/-- `count` of the four banks, the first of them named by `first`. -/
def BankRange (first : UInt16) (count : Nat) : Prop :=
  ∃ k, first = bankSelector firstBank k ∧ 0 < count ∧ k + count ≤ 4

/-- None of the `count` banks from `first` on. -/
def OutsideRange (first : UInt16) (count : Nat) (v : UInt16) : Prop :=
  ∀ j < count, v ≠ bankSelector first j

theorem bankSelector_add {first : UInt16} {k j : Nat} :
    bankSelector (bankSelector first k) j = bankSelector first (k + j) := by
  rw [bankSelector, bankSelector, bankSelector, UInt16.add_assoc, ← UInt16.ofNat_add, Nat.add_mul]

/-- The range check accepts the ranges of banks and nothing else. -/
theorem inRange_iff {first : UInt16} {count : Nat} :
    SaveBankCleaner.InRange first count ↔ BankRange first count := by
  have hlast : lastBank.toNat = 0x0930 := rfl
  constructor
  · rintro ⟨hpos, _, hproven, hend⟩
    rw [bankStride] at hend
    obtain ⟨k, hk, hvalue⟩ := provenBank_iff.mp hproven
    refine ⟨k, UInt16.toNat_inj.mp (hvalue.trans (toNat_bankSelector hk).symm), by omega, ?_⟩
    omega
  · rintro ⟨k, rfl, hpos, hle⟩
    have hvalue := @toNat_bankSelector k (by omega)
    refine ⟨by omega, by omega, provenBank_iff.mpr ⟨k, by omega, hvalue⟩, ?_⟩
    rw [bankStride]
    omega

namespace BankRange

variable {first : UInt16} {count : Nat}

theorem proven (h : BankRange first count) {j : Nat} (hj : j < count) :
    ProvenBank (bankSelector first j) := by
  obtain ⟨k, rfl, _, hle⟩ := h
  rw [bankSelector_add]
  exact provenBank_iff.mpr ⟨k + j, by omega, toNat_bankSelector (by omega)⟩

theorem injective (h : BankRange first count) {i j : Nat} (hi : i < count) (hj : j < count)
    (heq : bankSelector first i = bankSelector first j) : i = j := by
  obtain ⟨k, rfl, _, hle⟩ := h
  have hvalue := congrArg UInt16.toNat heq
  rw [bankSelector_add, bankSelector_add, toNat_bankSelector (by omega),
    toNat_bankSelector (by omega)] at hvalue
  omega

theorem complete (h : BankRange first count) : SaveMemoryReader.Complete (count * bankSize) := by
  obtain ⟨k, rfl, hpos, hle⟩ := h
  rw [SaveMemoryReader.Complete, bankSize]
  omega

end BankRange

/-! ## Banks written one after the other -/

section Banks

variable {c : Cartridge} {banks : List (UInt16 × Bytes)} {v : UInt16}

/-- A bank that no write names keeps its content. -/
theorem saves_writeBanks_kept (hproven : ∀ bank ∈ banks, ProvenBank bank.1)
    (hv : ∀ bank ∈ banks, v ≠ bank.1) :
    (banks.foldl Cartridge.writeBank c).saves v = c.saves v := by
  induction banks generalizing c with
  | nil => rfl
  | cons bank rest ih =>
    obtain ⟨hbank, hrest⟩ := List.forall_mem_cons.mp hproven
    obtain ⟨hne, hvrest⟩ := List.forall_mem_cons.mp hv
    rw [List.foldl_cons, ih hrest hvrest]
    funext i
    rw [saves_writeBank hbank, if_neg fun h => hne h.1]

/-- Of banks with different names each holds what was written into it. -/
theorem saves_writeBanks_mem (hproven : ∀ bank ∈ banks, ProvenBank bank.1)
    (hnames : banks.Pairwise fun a b => a.1 ≠ b.1) {bank : UInt16 × Bytes} (hbank : bank ∈ banks)
    {i : Nat} (hi : i < bank.2.length) :
    (banks.foldl Cartridge.writeBank c).saves bank.1 i = bank.2.getD i 0 := by
  induction banks generalizing c with
  | nil => cases hbank
  | cons first rest ih =>
    obtain ⟨hfirst, hrest⟩ := List.forall_mem_cons.mp hproven
    obtain ⟨hne, hnames⟩ := List.pairwise_cons.mp hnames
    rw [List.foldl_cons]
    obtain rfl | hbank := List.mem_cons.mp hbank
    · rw [saves_writeBanks_kept hrest hne, saves_writeBank hfirst, if_pos ⟨rfl, hi⟩]
    · exact ih hrest hnames hbank

end Banks

/-! ## A cartridge that works -/

/-- What the next packet means, or what is ready to be read. -/
inductive Due where
  | command
  | payload (command : Bytes)
  | echo (command : Bytes)
  | data (bytes : Bytes)

/-- The current bank from `offset` on. -/
def Cartridge.readSave (c : Cartridge) (offset length : Nat) : Bytes :=
  (List.range length).map fun i => c.saves c.bank (offset + i)

structure WorkingCartridge where
  cartridge : Cartridge
  due : Due

namespace WorkingCartridge

/-- A packet that is no payload. -/
def obey (c : Cartridge) (data : Bytes) : WorkingCartridge :=
  if data.getD 2 0 = 0x92 then ⟨c, .payload data⟩
  else if data.getD 2 0 = 0x96 then ⟨c.erase (readLe32 data 4).toNat, .echo data⟩
  else if data.getD 2 0 = 0x91 ∧ data.getD 3 0 = 0x01 then
    ⟨c, .data (c.readSave (readLe32 data 4).toNat (readLe32 data 8).toNat)⟩
  else ⟨c, .command⟩

def receive (w : WorkingCartridge) (data : Bytes) : WorkingCartridge :=
  match w.due with
  | .payload command => ⟨w.cartridge.carryOut command data, .echo command⟩
  | _ => obey w.cartridge data

/-- Every packet arrives, every command is carried out and echoed, and a save read is answered. -/
def step (w : WorkingCartridge) : (o : Transport.Op) → Transport.Reply o × WorkingCartridge
  | .out data => (true, w.receive data)
  | .inMax maximum =>
    match w.due with
    | .echo command =>
      (if command.length ≤ maximum then some command else none, ⟨w.cartridge, .command⟩)
    | _ => (none, ⟨w.cartridge, .command⟩)
  | .inExact wanted =>
    match w.due with
    | .data bytes => (if bytes.length = wanted then some bytes else none, ⟨w.cartridge, .command⟩)
    | _ => (none, ⟨w.cartridge, .command⟩)
  | .selectBank _ => ((), w)

theorem legal_step (w : WorkingCartridge) (o : Transport.Op) :
    Transport.Legal ⟨o, (w.step o).1⟩ := by
  cases o with
  | inExact wanted =>
    rw [step]
    split
    · dsimp only
      split
      · assumption
      · trivial
    · trivial
  | _ => trivial

/-- The same cartridge as `Device.env` sees it. -/
def device (w : WorkingCartridge) : Device where
  cartridge := w.cartridge
  waiting :=
    match w.due with
    | .command => .command
    | .payload command => .payload command
    | .echo command => .answer command true
    | .data _ => .command

theorem receives_obey {c : Cartridge} {data : Bytes} :
    Device.Receives ⟨c, .command⟩ data (obey c data).device := by
  rw [obey]
  simp only [Device.Receives]
  split
  · rfl
  · split
    · exact .inl rfl
    · split
      · rfl
      · rfl

/-- The working cartridge is one of the cartridges of `Device.env`. -/
theorem env_step (w : WorkingCartridge) (o : Transport.Op) :
    Device.env w.device o (w.step o).1 (w.step o).2.device := by
  obtain ⟨c, due⟩ := w
  cases o with
  | out data =>
    cases due with
    | command => exact .inl receives_obey
    | payload command => exact .inl (.inl rfl)
    | echo command => exact .inl receives_obey
    | data bytes => exact .inl receives_obey
  | inExact wanted =>
    refine ⟨by cases due <;> rfl, fun command data hwaiting => ?_⟩
    cases due <;> cases hwaiting
  | inMax maximum =>
    refine ⟨by cases due <;> rfl, fun command data hwaiting => ?_⟩
    cases due <;> cases hwaiting
  | selectBank bankValue => rfl

section Exec

variable {ε : Type} {c : Cartridge}

/-- Between two commands. -/
def idle (c : Cartridge) : WorkingCartridge := ⟨c, .command⟩

theorem step_inMax {command : Bytes} {maximum : Nat} (h : command.length ≤ maximum) :
    step ⟨c, .echo command⟩ (.inMax maximum) = (some command, idle c) :=
  Prod.ext (if_pos h) rfl

theorem step_inExact {bytes : Bytes} {wanted : Nat} (h : bytes.length = wanted) :
    step ⟨c, .data bytes⟩ (.inExact wanted) = (some bytes, idle c) :=
  Prod.ext (if_pos h) rfl

theorem exec_commandDataEcho {command data : Bytes} (hop : command.getD 2 0 = 0x92)
    (hlen : command.length ≤ 64) :
    exec step (commandDataEcho command data : Usb ε Bool) (idle c) =
      (.ok true, idle (c.carryOut command data)) := by
  have hcommand : exec step (out command : Usb ε Bool) (idle c) =
      (.ok true, ⟨c, .payload command⟩) := by
    rw [out, exec_ask, step, receive, idle, obey, if_pos hop]
  have hpayload : exec step (out data : Usb ε Bool) ⟨c, .payload command⟩ =
      (.ok true, ⟨c.carryOut command data, .echo command⟩) := rfl
  have hecho : step ⟨c.carryOut command data, .echo command⟩ (.inMax 64) =
      (some command, idle (c.carryOut command data)) := step_inMax hlen
  have hreply : exec step (expectReply command : Usb ε Bool)
      ⟨c.carryOut command data, .echo command⟩ = (.ok true, idle (c.carryOut command data)) := by
    rw [expectReply, inMax, exec_answered hecho]
    simp [exec_pure]
  rw [commandDataEcho, allOf, exec_both_true hcommand, allOf, exec_both_true hpayload, allOf,
    exec_both_true hreply, allOf, exec]

theorem exec_send {tx : Tx} :
    exec step (tx.send : Usb ε Bool) (idle c) = (.ok true, idle (c.transfer tx)) := by
  cases tx with
  | two first second => exact exec_commandDataEcho rfl (show 13 ≤ 64 by omega)
  | one selector value =>
    rw [← carryOut_one]
    exact exec_commandDataEcho rfl (show 13 ≤ 64 by omega)

/-- The cartridge with a bank selected. -/
def selected (c : Cartridge) (bankValue : UInt16) : Cartridge :=
  (SaveBankAccess.selection bankValue).foldl Cartridge.transfer c

theorem exec_select {bankValue : UInt16} :
    exec step (SaveBankAccess.select bankValue : Usb ε Bool) (idle c) =
      (.ok true, idle (selected c bankValue)) := by
  have hsend : exec step (sendAll (SaveBankAccess.selection bankValue) : Usb ε Bool) (idle c) =
      (.ok true, idle (selected c bankValue)) :=
    exec_allOf fun tx _ c => exec_send
  rw [SaveBankAccess.select, exec_answered rfl]
  exact hsend

theorem exec_writeBank {bank : UInt16 × Bytes} :
    exec step (both (SaveBankAccess.select bank.1) (commandDataEcho saveWriteCommand bank.2) :
      Usb ε Bool) (idle c) = (.ok true, idle (c.writeBank bank)) := by
  rw [exec_both_true exec_select]
  exact exec_commandDataEcho rfl (show 13 ≤ 64 by omega)

/-- The 32 KiB of a bank. -/
def contents (c : Cartridge) (v : UInt16) : Bytes := (List.range bankSize).map (c.saves v)

theorem length_contents {v : UInt16} : (contents c v).length = bankSize := by
  rw [contents, List.length_map, List.length_range]

theorem getElem_contents {v : UInt16} {i : Nat} (h : i < (contents c v).length) :
    (contents c v)[i] = c.saves v i := by
  simp only [contents, List.getElem_map, List.getElem_range]

theorem exec_readBank {v : UInt16} (hproven : ProvenBank v) :
    exec step (SaveMemoryReader.readBank32KiB v : Usb ε (Option Bytes)) (idle c) =
      (.ok (some (contents c v)), idle (selected c v)) := by
  have hdata : (selected c v).readSave 0 bankSize = contents c v := by
    have hbank : (selected c v).bank = v := bank_selection hproven
    have hsaves : (selected c v).saves = c.saves := saves_two (selection_two v)
    simp only [Cartridge.readSave, contents, hbank, hsaves, Nat.zero_add]
  have hread : step (idle (selected c v)) (.out SaveMemoryReader.readCommand) =
      (true, ⟨selected c v, .data (contents c v)⟩) := by
    rw [← hdata]
    rfl
  have hanswer : step ⟨selected c v, .data (contents c v)⟩ (.inExact bankSize) =
      (some (contents c v), idle (selected c v)) := step_inExact length_contents
  rw [SaveMemoryReader.readBank32KiB, exec_bind_ok exec_select]
  simp only [Bool.not_true, Bool.false_eq_true, if_false]
  rw [out, exec_answered hread]
  simp only [Bool.not_true, Bool.false_eq_true, if_false]
  rw [inExact, exec_ask, hanswer]

/-- A save is written bank after bank. -/
theorem exec_writeSave {first : UInt16} {save : Bytes}
    (hsize : SaveMemoryReader.Complete save.length) :
    exec step (SaveMemoryWriter.write first save : Usb ε Bool) (idle c) =
      (.ok true, idle ((saveBanks first save).foldl Cartridge.writeBank c)) := by
  rw [SaveMemoryWriter.write_eq, if_pos hsize]
  refine exec_allOf fun bank hbank c => ?_
  rw [SaveMemoryWriter.write32KiB_of_length (length_saveBanks hsize bank hbank)]
  exact exec_writeBank

/-- Banks that hold the pieces of a save give the save. -/
theorem exec_readBanks {first : UInt16} {count index : Nat} {save : Bytes}
    (hlen : save.length = count * bankSize)
    (hstored : ∀ bank ∈ bankChunks first index count save,
      ProvenBank bank.1 ∧ contents c bank.1 = bank.2) :
    ∃ c', exec step (SaveMemoryReader.readBanks first index count : Usb ε (Option Bytes)) (idle c) =
      (.ok (some save), idle c') ∧ c'.saves = c.saves := by
  induction count generalizing index save c with
  | zero =>
    obtain rfl := List.length_eq_zero_iff.mp (hlen.trans (Nat.zero_mul _))
    exact ⟨c, rfl, rfl⟩
  | succ count ih =>
    obtain ⟨⟨hproven, hbank⟩, hrest⟩ := List.forall_mem_cons.mp hstored
    have hsaves : (selected c (bankSelector first index)).saves = c.saves :=
      saves_two (selection_two _)
    have hkept : ∀ v, contents (selected c (bankSelector first index)) v = contents c v := by
      intro v
      rw [contents, hsaves, contents]
    have hdrop : (save.drop bankSize).length = count * bankSize := by
      rw [List.length_drop, hlen, Nat.succ_mul, Nat.add_sub_cancel]
    obtain ⟨c', hexec, hc'⟩ := ih hdrop fun bank hmem => by
      rw [hkept]
      exact hrest bank hmem
    refine ⟨c', ?_, hc'.trans hsaves⟩
    rw [SaveMemoryReader.readBanks, exec_bind_ok (exec_readBank hproven)]
    simp only
    rw [exec_bind_ok hexec]
    simp only
    rw [hbank, List.take_append_drop, exec_pure]

theorem exec_readSave {first : UInt16} {save : Bytes}
    (hsize : SaveMemoryReader.Complete save.length)
    (hstored : ∀ bank ∈ saveBanks first save, ProvenBank bank.1 ∧ contents c bank.1 = bank.2) :
    ∃ c', exec step (SaveMemoryReader.read save.length first) (idle c) =
      (.ok (some save), idle c') ∧ c'.saves = c.saves := by
  have hlen : save.length = save.length / bankSize * bankSize :=
    (Nat.div_mul_cancel (Nat.dvd_of_mod_eq_zero hsize.2.2)).symm
  obtain ⟨c', hexec, hc'⟩ := @exec_readBanks StdException c first _ 0 save hlen hstored
  refine ⟨c', ?_, hc'⟩
  rw [SaveMemoryReader.read, if_neg (not_not_intro hsize), exec_bind_ok hexec]
  simp only [if_true]
  rfl

end Exec

end WorkingCartridge

open WorkingCartridge

/-! ## Transfers that may fail -/

section Failing

variable {ε : Type} {c : Cartridge} {first : UInt16} {count : Nat}

/-- Two-byte transfers, up to the first failure. -/
theorem wp_sendTwo {transfers : List Tx}
    (h : ∀ tx ∈ transfers, ∃ first second, tx = .two first second) :
    Wp env anything (sendAll transfers : Usb ε Bool)
      (Gives fun ok d => d.cartridge.saves = c.saves ∧
        (ok = true → d = ⟨transfers.foldl Cartridge.transfer c, .command⟩)) ⟨c, .command⟩ := by
  induction transfers generalizing c with
  | nil => exact ⟨rfl, fun _ => rfl⟩
  | cons tx rest ih =>
    obtain ⟨⟨x, y, rfl⟩, hrest⟩ := List.forall_mem_cons.mp h
    rw [sendAll, List.map_cons, allOf]
    refine wp_both (wp_commandData rfl ⟨rfl, rfl, rfl⟩) ?_ ?_
    · rintro d ⟨_, hdone⟩
      obtain rfl := hdone rfl
      exact @ih (c.controlTransfer x y) hrest
    · rintro d ⟨hd | hd, _⟩
      · exact ⟨by rw [hd], fun h => by cases h⟩
      · exact ⟨by rw [hd]; rfl, fun h => by cases h⟩

theorem wp_selectBank {bankValue : UInt16} :
    Wp env anything (SaveBankAccess.select bankValue : Usb ε Bool)
      (Gives fun ok d => d.cartridge.saves = c.saves ∧
        (ok = true → d = ⟨selected c bankValue, .command⟩)) ⟨c, .command⟩ := by
  refine wp_bind (Q := fun _ d => d = ⟨c, .command⟩) (wp_ask trivial ?_) ?_
  · exact fun _ _ h => h
  · rintro _ d rfl
    exact wp_sendTwo (selection_two bankValue)

/-- A bank that is to be overwritten is overwritten, or the save memory is as it was. -/
theorem wp_writeBank {bank : UInt16 × Bytes} :
    Wp env anything (both (SaveBankAccess.select bank.1)
        (commandDataEcho saveWriteCommand bank.2) : Usb ε Bool)
      (Gives fun _ d => d.cartridge.saves = c.saves ∨
        d.cartridge.saves = (c.writeBank bank).saves) ⟨c, .command⟩ := by
  refine wp_both wp_selectBank ?_ fun d h => .inl h.1
  rintro d ⟨hkept, hdone⟩
  obtain rfl := hdone rfl
  refine wp_gives_mono (wp_commandData rfl ⟨rfl, rfl, rfl⟩) ?_
  rintro _ d ⟨hd | hd, _⟩
  · exact .inl (by rw [hd]; exact hkept)
  · exact .inr (by rw [hd]; rfl)

theorem wp_readBank {bankValue : UInt16} :
    Wp env anything (SaveMemoryReader.readBank32KiB bankValue : Usb ε (Option Bytes))
      (Gives fun bankData d => d.cartridge.saves = c.saves ∧
        (bankData.isSome → d.waiting = .command)) ⟨c, .command⟩ := by
  refine wp_bind wp_selectBank ?_
  rintro selected d ⟨hkept, hdone⟩
  cases selected with
  | false => exact ⟨hkept, fun h => by cases h⟩
  | true =>
    obtain rfl := hdone rfl
    refine wp_bind (Q := fun _ d => d.cartridge.saves = c.saves) (wp_ask trivial ?_) ?_
    · rintro sent d (hreceived | ⟨_, rfl⟩)
      · obtain rfl : d = _ := hreceived
        exact hkept
      · exact hkept
    · intro sent d hd
      cases sent with
      | false => exact ⟨hd, fun h => by cases h⟩
      | true =>
        refine wp_ask trivial ?_
        rintro bankData d' ⟨rfl, _⟩
        exact ⟨hd, fun _ => rfl⟩

/-- Reading leaves the save memory alone. -/
theorem wp_readBanks {index : Nat} :
    Wp env anything (SaveMemoryReader.readBanks first index count : Usb ε (Option Bytes))
      (Gives fun _ d => d.cartridge.saves = c.saves) ⟨c, .command⟩ := by
  induction count generalizing index c with
  | zero => exact rfl
  | succ count ih =>
    refine wp_bind wp_readBank ?_
    rintro bankData ⟨c', waiting⟩ ⟨hkept, hidle⟩
    cases bankData with
    | none => exact hkept
    | some bankData =>
      obtain rfl := hidle rfl
      refine wp_bind ih ?_
      intro rest d hd
      cases rest with
      | none => exact hd.trans hkept
      | some rest => exact hd.trans hkept

theorem wp_readSave {saveSize : Nat} :
    Wp env anything (SaveMemoryReader.read saveSize first)
      (fun _ d => d.cartridge.saves = c.saves) ⟨c, .command⟩ := by
  rw [SaveMemoryReader.read]
  split
  · exact rfl
  · refine wp_bind wp_readBanks ?_
    intro save d hd
    cases save with
    | none => exact hd
    | some save => exact hd

end Failing

/-- The banks before the `k`-th were written, and writing the `k`-th failed. -/
def FailsAt (banks : List (UInt16 × Bytes)) (k : Nat) (trace : List Transport.Event) : Prop :=
  ∃ bank t, banks[k]? = some bank ∧ trace = (banks.take k).flatMap writeBankExchange ++ t ∧
    Runs (SaveMemoryWriter.write32KiB bank.1 bank.2 : Usb StdException Bool) t (.ok false)

section Write

variable {first : UInt16} {count : Nat} {save : Bytes} {c : Cartridge} {d : Device}
  {trace : List Transport.Event}

/-- A write fails at one of its banks, and only the banks up to that one may have changed. -/
theorem write_failed (hsize : SaveMemoryReader.Complete save.length)
    (hproven : ∀ bank ∈ saveBanks first save, ProvenBank bank.1)
    (run : Runs (SaveMemoryWriter.write first save : Usb StdException Bool) trace (.ok false))
    (path : Path env ⟨c, .command⟩ trace d) :
    ∃ k, FailsAt (saveBanks first save) k trace ∧
      ∀ v, (∀ bank ∈ (saveBanks first save).take (k + 1), v ≠ bank.1) →
        d.cartridge.saves v = c.saves v := by
  have hlen := @length_saveBanks first save hsize
  rw [SaveMemoryWriter.write_eq, if_pos hsize] at run
  obtain ⟨done, bank, rest, t1, t2, hbanks, rfl, hdone, hbank⟩ := runs_allOf_false_iff.mp run
  rw [hbanks] at hlen hproven ⊢
  rw [List.forall_mem_append, List.forall_mem_cons] at hlen hproven
  obtain rfl := (runs_writeBanks_true_iff hlen.1).mp hdone
  refine ⟨done.length, ⟨bank, t2, by simp, by rw [List.take_left], hbank⟩, fun v hv => ?_⟩
  have hupto : (done ++ bank :: rest).take (done.length + 1) = done ++ [bank] := by
    rw [List.append_cons]
    exact List.take_left' (by simp)
  rw [hupto, List.forall_mem_append] at hv
  have hkept : (done.foldl Cartridge.writeBank c).saves v = c.saves v :=
    saves_writeBanks_kept hproven.1 hv.1
  obtain ⟨m, hm, hpath⟩ := path_append_iff.mp path
  rw [path_writeBanks_iff.mp hm] at hpath
  rw [SaveMemoryWriter.write32KiB_of_length hlen.2.1] at hbank
  obtain hsame | hwritten := (wp_writeBank.sound hbank hpath).2
  · rw [hsame, hkept]
  · rw [hwritten, ← hkept]
    funext i
    rw [saves_writeBank hproven.2.1, if_neg fun h => hv.2 bank (List.mem_singleton_self _) h.1]

/-- The names of the banks of a save. -/
theorem name_saveBanks (hlen : save.length = count * bankSize) {j : Nat} {bank : UInt16 × Bytes}
    (h : (saveBanks first save)[j]? = some bank) : j < count ∧ bank.1 = bankSelector first j := by
  rw [saveBanks_eq_map hlen, List.getElem?_map, Option.map_eq_some_iff] at h
  obtain ⟨j', hj', rfl⟩ := h
  obtain ⟨hlt, rfl⟩ := List.getElem?_eq_some_iff.mp hj'
  rw [List.length_range] at hlt
  rw [List.getElem_range]
  exact ⟨hlt, rfl⟩

end Write

/-! ## Round trip -/

section RoundTrip

variable {first : UInt16} {count : Nat} {save : Bytes}

theorem proven_saveBanks (hrange : BankRange first count) (hlen : save.length = count * bankSize) :
    ∀ bank ∈ saveBanks first save, ProvenBank bank.1 := by
  intro bank hbank
  obtain ⟨j, hj⟩ := List.mem_iff_getElem?.mp hbank
  obtain ⟨hlt, hname⟩ := name_saveBanks hlen hj
  rw [hname]
  exact hrange.proven hlt

theorem pairwise_saveBanks (hrange : BankRange first count)
    (hlen : save.length = count * bankSize) :
    (saveBanks first save).Pairwise fun a b => a.1 ≠ b.1 := by
  rw [saveBanks_eq_map hlen, List.pairwise_map, List.pairwise_iff_getElem]
  intro i j hi hj hlt heq
  rw [List.length_range] at hi hj
  simp only [List.getElem_range] at heq
  exact absurd (hrange.injective hi hj heq) (by omega)

/-- The banks of a range, written with a save, hold its pieces. -/
theorem contents_writeBanks {c : Cartridge} (hrange : BankRange first count)
    (hlen : save.length = count * bankSize) {bank : UInt16 × Bytes}
    (hbank : bank ∈ saveBanks first save) :
    contents ((saveBanks first save).foldl Cartridge.writeBank c) bank.1 = bank.2 := by
  have hsize : SaveMemoryReader.Complete save.length := hlen ▸ hrange.complete
  have hbankLen := length_saveBanks hsize bank hbank
  refine List.ext_getElem (length_contents.trans hbankLen.symm) fun i _ hi => ?_
  have hstored := @saves_writeBanks_mem c _ (proven_saveBanks hrange hlen)
    (pairwise_saveBanks hrange hlen) bank hbank i hi
  rw [getElem_contents, hstored, List.getD_eq_getElem _ _ hi]

/-- Clearing a range is writing zeros into it. -/
theorem clearRange_eq_write {ε : Type} (hrange : BankRange first count) :
    (SaveBankCleaner.clearRange first count : Usb ε Bool) =
      SaveMemoryWriter.write first (List.replicate (count * bankSize) 0x00) := by
  have hsize : SaveMemoryReader.Complete (List.replicate (count * bankSize) (0x00 : UInt8)).length :=
    by rw [List.length_replicate]; exact hrange.complete
  rw [SaveBankCleaner.clearRange, if_neg (not_not_intro (inRange_iff.mpr hrange)),
    SaveMemoryWriter.write_eq, if_pos hsize, saveBanks_zeros, List.map_map]
  refine congrArg allOf (List.map_congr_left fun bank _ => ?_)
  rw [Function.comp_apply, SaveMemoryWriter.write32KiB_of_length SaveBankCleaner.length_zeros]

/-- Outside its range no write, of whatever outcome, changes a bank, and one that fails at a bank
leaves those behind it as they were. -/
theorem write_keeps {c : Cartridge} {d : Device} {trace : List Transport.Event}
    {out : Except StdException Bool} (hrange : BankRange first count)
    (hlen : save.length = count * bankSize)
    (run : Runs (SaveMemoryWriter.write first save) trace out)
    (path : Path env ⟨c, .command⟩ trace d) :
    (∀ v, OutsideRange first count v → d.cartridge.saves v = c.saves v) ∧
      (out ≠ .ok true → ∃ k < count, FailsAt (saveBanks first save) k trace ∧
        ∀ j, k < j → j < count →
          d.cartridge.saves (bankSelector first j) = c.saves (bankSelector first j)) := by
  have hsize : SaveMemoryReader.Complete save.length := hlen ▸ hrange.complete
  have hproven := proven_saveBanks hrange hlen
  have hnames : ∀ v, OutsideRange first count v → ∀ bank ∈ saveBanks first save, v ≠ bank.1 := by
    intro v hv bank hbank
    obtain ⟨j, hj⟩ := List.mem_iff_getElem?.mp hbank
    obtain ⟨hlt, hname⟩ := name_saveBanks hlen hj
    rw [hname]
    exact hv j hlt
  have hreturns : Returns out :=
    ((always_writeSave (P := fun _ => True) (B := fun _ => True) ⟨trivial, fun _ _ => trivial⟩
      trivial (fun _ _ => trivial) fun _ _ => trivial).run run).2
  cases out with
  | error e => exact hreturns.elim
  | ok ok =>
    cases ok with
    | true =>
      obtain ⟨_, rfl⟩ := runs_writeSave_true_iff.mp run
      obtain rfl := path_writeBanks_iff.mp path
      exact ⟨fun v hv => saves_writeBanks_kept hproven (hnames v hv), fun h => absurd rfl h⟩
    | false =>
      obtain ⟨k, hfails, hkept⟩ := write_failed hsize hproven run path
      refine ⟨fun v hv => hkept v fun bank hbank => hnames v hv bank (List.mem_of_mem_take hbank),
        fun _ => ?_⟩
      obtain ⟨bank, t, hk, _⟩ := id hfails
      refine ⟨k, (name_saveBanks hlen hk).1, hfails, fun j hkj hj => hkept _ fun bank hbank => ?_⟩
      obtain ⟨i, hi⟩ := List.mem_iff_getElem?.mp hbank
      rw [List.getElem?_take] at hi
      split at hi
      case isFalse => cases hi
      case isTrue hlt =>
        obtain ⟨hicount, hname⟩ := name_saveBanks hlen hi
        rw [hname]
        intro heq
        exact absurd (hrange.injective hj hicount heq) (by omega)

/-- On a working cartridge a save that was written is read back, clearing is writing zeros, and
whatever fails on the way, the banks outside the range and the banks behind the failing one stay as
they were. What is no range of banks is refused before the first transfer. -/
theorem save_round_trip (hrange : BankRange first count) (hlen : save.length = count * bankSize)
    (c : Cartridge) :
    (∃ c1 c2,
      exec step (SaveMemoryWriter.write first save : Usb StdException Bool) (idle c) =
        (.ok true, idle c1) ∧
      exec step (SaveMemoryReader.read save.length first) (idle c1) = (.ok (some save), idle c2) ∧
      (∀ v, OutsideRange first count v → c1.saves v = c.saves v) ∧ c2.saves = c1.saves) ∧
    (SaveBankCleaner.clearRange first count : Usb StdException Bool) =
      SaveMemoryWriter.write first (List.replicate (count * bankSize) 0x00) ∧
    (∀ trace out d, Runs (SaveMemoryWriter.write first save : Usb StdException Bool) trace out →
      Path env ⟨c, .command⟩ trace d →
      (∀ v, OutsideRange first count v → d.cartridge.saves v = c.saves v) ∧
      (out ≠ .ok true → ∃ k < count, FailsAt (saveBanks first save) k trace ∧
        ∀ j, k < j → j < count →
          d.cartridge.saves (bankSelector first j) = c.saves (bankSelector first j))) ∧
    (∀ trace out d, Runs (SaveMemoryReader.read save.length first) trace out →
      Path env ⟨c, .command⟩ trace d → d.cartridge.saves = c.saves) ∧
    ∀ selector n, ¬ BankRange selector n → ∀ trace out,
      Runs (SaveBankCleaner.clearRange selector n : Usb StdException Bool) trace out ↔
        trace = [] ∧ out = .ok false := by
  have hsize : SaveMemoryReader.Complete save.length := hlen ▸ hrange.complete
  have hwrite := @exec_writeSave StdException c first save hsize
  refine ⟨?_, clearRange_eq_write hrange, fun _ _ _ run path => write_keeps hrange hlen run path,
    fun _ _ _ run path => (wp_readSave.sound run path).2, fun selector n hno trace out => ?_⟩
  · obtain ⟨c2, hread, hsaves⟩ := exec_readSave hsize fun bank hbank =>
      ⟨proven_saveBanks hrange hlen bank hbank, contents_writeBanks (c := c) hrange hlen hbank⟩
    refine ⟨_, c2, hwrite, hread, ?_, hsaves⟩
    -- the working cartridge is a case of the one that may fail
    obtain ⟨trace, run, path⟩ := exec_path env_step
      (p := (SaveMemoryWriter.write first save : Usb StdException Bool)) (s := idle c)
    rw [hwrite] at run path
    exact (write_keeps hrange hlen run path).1
  · rw [SaveBankCleaner.clearRange, if_pos fun h => hno (inRange_iff.mp h)]
    exact runs_pure_iff

/-- A save of two banks, written from `0x0910` on. -/
theorem save_round_trip_two_banks : ∃ c1 c2 : Cartridge,
    exec step (SaveMemoryWriter.write 0x0910 (List.replicate (2 * bankSize) 0x5A) :
      Usb StdException Bool) (idle ⟨⟨fun _ => 0xFF, 0, []⟩, fun _ _ => 0x00, 0x0900⟩) =
      (.ok true, idle c1) ∧
    exec step (SaveMemoryReader.read (List.replicate (2 * bankSize) (0x5A : UInt8)).length 0x0910)
      (idle c1) = (.ok (some (List.replicate (2 * bankSize) 0x5A)), idle c2) ∧
    (∀ v, OutsideRange 0x0910 2 v → c1.saves v = fun _ => 0x00) ∧ c2.saves = c1.saves :=
  (@save_round_trip 0x0910 2 _ ⟨1, rfl, by omega, by omega⟩ List.length_replicate _).1

end RoundTrip

end Ezfadvance
