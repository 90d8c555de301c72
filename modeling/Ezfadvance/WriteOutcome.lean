import Ezfadvance.AbortedWrite

/-!
# WriteOutcome

What a write leaves on the cartridge, over a transport that may lose packets: the writing steps as
attempts that either succeed or stop somewhere.

* `Spared`: what holds wherever the steps stop, the flash behind the erased extent as it was.
* `attempts_erase`, `attempts_programImage`: the counterparts of `succeeds_erase` and
  `succeeds_programImage` on a device that may fail at any packet.
* `Calm`: after that, nothing reaches the flash any more.
* `write_outcome`: what every run of `CardWriter::write` keeps, and what a successful one has done.
-/

namespace Ezfadvance

open Interact Interact.Program CartridgeFormat Protocol Usb Device FlashWindowSelector
open LibusbWriterBackend Rounding

/-! ## Where a write may stop -/

/-- A command with its payload that was not acknowledged: carried out, or not, or still waiting for
the payload. -/
structure Unfinished (c : Cartridge) (command data : Bytes) (d : Device) : Prop where
  cartridge : d.cartridge = c ∨ d.cartridge = c.carryOut command data
  pending : ∀ pending, d.waiting = .payload pending → d.cartridge = c ∧ pending = command

/-- From `stop` on the flash is as it was, and not even the payload that is waited for would change
that if the next packet, of 13 bytes, were taken for it. -/
structure Spared (old : Nat → UInt8) (stop : Nat) (d : Device) : Prop where
  kept : ∀ x, stop ≤ x → d.cartridge.flash.mem x = old x
  pending : ∀ command, d.waiting = .payload command → command.getD 3 0 = 0x00 →
    d.cartridge.flash.cardAddress (readLe32 command 4).toNat + 13 ≤ stop

/-- Between two commands, with such a flash content and this window selected. -/
structure Device.Held (content : (Nat → UInt8) → Prop) (window : Nat) (d : Device) : Prop where
  idle : d.waiting = .command
  content : content d.cartridge.flash.mem
  selected : d.cartridge.flash.window = window

/-- From `stop` on such a content is the old one. -/
def Spares (old : Nat → UInt8) (stop : Nat) (content : (Nat → UInt8) → Prop) : Prop :=
  ∀ m, content m → ∀ x, stop ≤ x → m x = old x

section Attempts

variable {ε : Type} {c : Cartridge} {old : Nat → UInt8} {stop window : Nat} {F : Device → Prop}
  {content : (Nat → UInt8) → Prop}

theorem Device.Held.eq {d : Device} (h : d.Held content window) : d = ⟨d.cartridge, .command⟩ := by
  obtain ⟨cartridge, waiting⟩ := d
  obtain rfl : waiting = .command := h.idle
  rfl

theorem Device.Held.mono {content' : (Nat → UInt8) → Prop} {d : Device} (h : d.Held content window)
    (hc : ∀ m, content m → content' m) : d.Held content' window :=
  ⟨h.idle, hc _ h.content, h.selected⟩

theorem attempts_out {data : Bytes} {P R : Device → Prop}
    (h : ∀ d sent d', P d → env d (.out data) sent d' →
      (sent = true → R d') ∧ (sent = false → F d')) :
    Attempts env F P (out data : Usb ε Bool) R :=
  fun d hd => wp_ask trivial fun sent d' hstep => h d sent d' hd hstep

/-- Whatever is answered, the device is between two commands then, and an answer that acknowledges a
command comes from one that was carried out. -/
theorem attempts_answer {maximum : Nat} {accept : Bytes → Bool} {rest : Option Bytes → Usb ε Bool}
    {P R : Device → Prop} (hnone : rest none = .pure false)
    (hsome : ∀ response, rest (some response) = .pure (accept response))
    (hR : ∀ d response, P d → accept response = true →
      (∀ command, d.waiting = .answer command false → ¬ Acknowledges command response) →
      R ⟨d.cartridge, .command⟩)
    (hF : ∀ d, P d → F ⟨d.cartridge, .command⟩) :
    Attempts env F P (inMax maximum >>= rest) R := by
  intro d hd
  refine wp_bind (Q := fun response d' => d.Answers response d') (wp_ask trivial fun _ _ h => h) ?_
  rintro response _ ⟨rfl, hfailed⟩
  cases response with
  | none =>
    rw [hnone]
    exact And.intro (fun h => absurd h Bool.false_ne_true) fun _ => hF d hd
  | some response =>
    rw [hsome]
    exact And.intro (fun h => hR d response hd h fun command hwaiting =>
      hfailed command response hwaiting rfl) fun _ => hF d hd

theorem Device.Held.transfers {d : Device} {transfers : List Tx} (h : d.Held content window) :
    content (transfers.foldl Cartridge.transfer d.cartridge).flash.mem := by
  rw [mem_sendAll]
  exact h.content

/-- A command with its payload ends acknowledged and carried out, or unfinished. -/
theorem attempts_transaction {command data reply : Bytes} (hop : command.getD 2 0 = 0x92)
    (hack : Acknowledges command reply) (hF : ∀ d, Unfinished c command data d → F d) :
    Attempts env F (· = ⟨c, .command⟩)
      (allOf [out command, out data, expectReply reply] : Usb ε Bool)
      (· = ⟨c.carryOut command data, .command⟩) := by
  have hsend : Attempts env F (· = ⟨c, .command⟩) (out command : Usb ε Bool)
      (· = ⟨c, .payload command⟩) := by
    refine attempts_out ?_
    rintro _ sent d rfl hstep
    simp only [env, Device.Receives, if_pos hop] at hstep
    obtain rfl | ⟨rfl, rfl⟩ := hstep
    · exact ⟨fun _ => rfl, fun _ => hF _ ⟨.inl rfl, fun _ h => ⟨rfl, (Waiting.payload.inj h).symm⟩⟩⟩
    · exact ⟨fun h => absurd h Bool.false_ne_true, fun _ => hF _ ⟨.inl rfl, fun _ h => by cases h⟩⟩
  have hpayload : Attempts env F (· = ⟨c, .payload command⟩) (out data : Usb ε Bool)
      (fun d => d = ⟨c.carryOut command data, .answer command true⟩ ∨
        d = ⟨c, .answer command false⟩) := by
    refine attempts_out ?_
    rintro _ sent d rfl hstep
    obtain (rfl | rfl) | ⟨rfl, rfl⟩ := hstep
    · exact ⟨fun _ => .inl rfl, fun _ => hF _ ⟨.inr rfl, fun _ h => by cases h⟩⟩
    · exact ⟨fun _ => .inr rfl, fun _ => hF _ ⟨.inl rfl, fun _ h => by cases h⟩⟩
    · exact ⟨fun h => absurd h Bool.false_ne_true,
        fun _ => hF _ ⟨.inl rfl, fun _ h => ⟨rfl, (Waiting.payload.inj h).symm⟩⟩⟩
  have hreply : ∀ response, decide (response = reply) = true → response = reply :=
    fun _ => of_decide_eq_true
  refine hsend.both (hpayload.both (Attempts.both
    (attempts_answer (by rfl) (fun _ => by rfl) ?_ ?_) .skip))
  · rintro d response (rfl | rfl) haccept hfailed
    · rfl
    · obtain rfl := hreply response haccept
      exact absurd hack (hfailed command rfl)
  · rintro d (rfl | rfl)
    · exact hF _ ⟨.inr rfl, fun _ h => by cases h⟩
    · exact hF _ ⟨.inl rfl, fun _ h => by cases h⟩

/-- An erase that is not answered with status 0 may have been carried out. -/
theorem attempts_eraseSector {wordAddress : Nat} (haddr : wordAddress < 2 ^ 32)
    (hF : ∀ d : Device, (d.cartridge = c ∨ d.cartridge = c.erase wordAddress) →
      (∀ pending, d.waiting ≠ .payload pending) → F d) :
    Attempts env F (· = ⟨c, .command⟩) (eraseSector wordAddress : Usb ε Bool)
      (· = ⟨c.erase wordAddress, .command⟩) := by
  have hword : (readLe32 (eraseCommand wordAddress) 4).toNat = wordAddress := by
    rw [eraseCommand, readLe32_command_word, UInt32.toNat_ofNat', Nat.mod_eq_of_lt haddr]
  have h92 : ¬ (eraseCommand wordAddress).getD 2 0 = 0x92 := by simp [eraseCommand, command]
  have h96 : (eraseCommand wordAddress).getD 2 0 = 0x96 := rfl
  have hsend : Attempts env F (· = ⟨c, .command⟩) (out (eraseCommand wordAddress) : Usb ε Bool)
      (fun d => d = ⟨c.erase wordAddress, .answer (eraseCommand wordAddress) true⟩ ∨
        d = ⟨c, .answer (eraseCommand wordAddress) false⟩) := by
    refine attempts_out ?_
    rintro _ sent d rfl hstep
    simp only [env, Device.Receives, if_neg h92, if_pos h96, hword] at hstep
    obtain (rfl | rfl) | ⟨rfl, rfl⟩ := hstep
    · exact ⟨fun _ => .inl rfl, fun _ => hF _ (.inr rfl) fun _ h => by cases h⟩
    · exact ⟨fun _ => .inr rfl, fun _ => hF _ (.inl rfl) fun _ h => by cases h⟩
    · exact ⟨fun h => absurd h Bool.false_ne_true, fun _ => hF _ (.inl rfl) fun _ h => by cases h⟩
  intro d hd
  refine wp_bind (hsend d hd) ?_
  rintro (_ | _) d' ⟨hsent, hlost⟩
  · exact And.intro (fun h => absurd h Bool.false_ne_true) fun _ => hlost rfl
  · refine attempts_answer (P := (· = d')) (by rfl) (fun _ => by rfl) ?_ ?_ d' rfl
    · rintro _ response rfl haccept hfailed
      obtain rfl | rfl := hsent rfl
      · rfl
      · simp only [Bool.and_eq_true, beq_iff_eq] at haccept
        exact absurd ⟨haccept.1.1, haccept.1.2, haccept.2⟩ (hfailed _ rfl)
    · rintro _ rfl
      obtain rfl | rfl := hsent rfl
      · exact hF _ (.inr rfl) fun _ h => by cases h
      · exact hF _ (.inl rfl) fun _ h => by cases h

/-! ### Control transfers -/

theorem mem_transfer {tx : Tx} : (c.transfer tx).flash.mem = c.flash.mem := by
  cases tx with
  | two first second => rfl
  | one selector value => rfl

theorem attempts_send {tx : Tx} (hc : ∀ x, stop ≤ x → c.flash.mem x = old x) :
    Attempts env (Spared old stop) (· = ⟨c, .command⟩) (tx.send : Usb ε Bool)
      (· = ⟨c.transfer tx, .command⟩) := by
  have hspared : ∀ {command data : Bytes}, c.carryOut command data = c.transfer tx →
      command.getD 3 0 ≠ 0x00 → ∀ d, Unfinished c command data d → Spared old stop d := by
    intro command data hcarry hsub d hd
    refine ⟨fun x hx => ?_, fun pending hpending hzero => ?_⟩
    · obtain h | h := hd.cartridge
      · rw [h, hc x hx]
      · rw [h, hcarry, mem_transfer, hc x hx]
    · obtain ⟨_, rfl⟩ := hd.pending pending hpending
      exact absurd hzero hsub
  cases tx with
  | two first second =>
    exact attempts_transaction rfl ⟨rfl, rfl, rfl⟩ (hspared rfl (by simp [command92Two]))
  | one selector value =>
    rw [← carryOut_one]
    exact attempts_transaction rfl ⟨rfl, rfl, rfl⟩ (hspared carryOut_one (by simp [command92One]))

theorem attempts_sendAll {transfers : List Tx} (hc : ∀ x, stop ≤ x → c.flash.mem x = old x) :
    Attempts env (Spared old stop) (· = ⟨c, .command⟩) (sendAll transfers : Usb ε Bool)
      (· = ⟨transfers.foldl Cartridge.transfer c, .command⟩) := by
  let I (c : Cartridge) (d : Device) : Prop :=
    d = ⟨c, .command⟩ ∧ ∀ x, stop ≤ x → c.flash.mem x = old x
  have hall : Attempts env (Spared old stop) (I c) (sendAll transfers : Usb ε Bool)
      (I (transfers.foldl Cartridge.transfer c)) := by
    refine Attempts.allOf_map (fun tx _ c d hd => ?_) c
    obtain ⟨rfl, hkept⟩ := hd
    refine (attempts_send hkept).mono (fun d hd => ?_) _ rfl
    exact ⟨hd, fun x hx => by rw [mem_transfer, hkept x hx]⟩
  exact (hall.pre fun d hd => ⟨hd, hc⟩).mono fun d hd => hd.1

theorem attempts_control {transfers : List Tx} (hspares : Spares old stop content) :
    Attempts env (Spared old stop) (fun d => ∃ window, d.Held content window)
      (sendAll transfers : Usb ε Bool) (fun d => ∃ window, d.Held content window) := by
  rintro d ⟨_, hd⟩
  refine (attempts_sendAll (hspares _ hd.content)).mono ?_ d hd.eq
  rintro _ rfl
  exact ⟨_, rfl, hd.transfers, rfl⟩

theorem attempts_select (hspares : Spares old stop content) (hw : window ≤ 3) :
    Attempts env (Spared old stop) (fun d => ∃ window, d.Held content window)
      (select window : Usb ε Bool) (Device.Held content window) := by
  rintro d ⟨_, hd⟩
  rw [select, if_neg (Nat.not_lt.mpr hw)]
  refine (attempts_sendAll (hspares _ hd.content)).mono ?_ d hd.eq
  rintro _ rfl
  exact ⟨rfl, hd.transfers, window_selection hw⟩

/-- Leaving a window for another one. -/
theorem attempts_windowSwitch (hspares : Spares old stop content) (hw : window ≤ 3) :
    Attempts env (Spared old stop) (fun d => ∃ window, d.Held content window)
      (allOf [finishOperation, select window] : Usb ε Bool) (Device.Held content window) :=
  (attempts_control hspares).both ((attempts_select hspares hw).both .skip)

/-! ### Erasing -/

variable {S : Nat → Prop}

theorem Wiped.spares (hS : ∀ x, S x → x < stop) : Spares old stop (Wiped old S) :=
  fun _ hm x hx => (hm x).2 fun h => absurd (hS x h) (Nat.not_lt.mpr hx)

theorem attempts_erase_sector {a : Nat} (ha : a < 2 ^ 32) (hS : ∀ x, S x → x < stop)
    (hsector : ∀ x, InSector window (2 * a) x → x < stop) :
    Attempts env (Spared old stop) (Device.Held (Wiped old S) window)
      (eraseSector a : Usb ε Bool)
      (Device.Held (Wiped old fun x => S x ∨ InSector window (2 * a) x) window) := by
  rintro d ⟨hidle, hwiped, rfl⟩
  have herased : Wiped old (fun x => S x ∨ InSector d.cartridge.flash.window (2 * a) x)
      (d.cartridge.erase a).flash.mem := hwiped.erase
  have hspares : Spares old stop
      (Wiped old fun x => S x ∨ InSector d.cartridge.flash.window (2 * a) x) :=
    Wiped.spares fun x => Or.rec (hS x) (hsector x)
  refine (attempts_eraseSector ha fun d' hd' hno => ?_).mono ?_ d
    (Device.Held.eq ⟨hidle, hwiped, rfl⟩)
  · refine ⟨?_, fun pending h => absurd h (hno pending)⟩
    obtain h | h := hd'
    · exact h ▸ Wiped.spares hS _ hwiped
    · exact h ▸ hspares _ herased
  · rintro _ rfl
    exact ⟨rfl, herased, Flash.window_erase⟩

theorem attempts_eraseSectors {addresses : List Nat} (ha : ∀ a ∈ addresses, a < 2 ^ 32)
    (hS : ∀ x, S x → x < stop)
    (hsectors : ∀ x, (∃ a ∈ addresses, InSector window (2 * a) x) → x < stop) :
    Attempts env (Spared old stop) (Device.Held (Wiped old S) window)
      (eraseSectors addresses : Usb ε Bool)
      (Device.Held (Wiped old fun x => S x ∨ ∃ a ∈ addresses, InSector window (2 * a) x)
        window) := by
  induction addresses generalizing S with
  | nil => exact Attempts.skip.mono fun d hd => hd.mono fun m hm => hm.congr fun x => by simp
  | cons a rest ih =>
    obtain ⟨h1, hrest⟩ := List.forall_mem_cons.mp ha
    have hsector : ∀ x, InSector window (2 * a) x → x < stop :=
      fun x hx => hsectors x ⟨a, List.mem_cons_self, hx⟩
    refine ((attempts_erase_sector h1 hS hsector).both (ih hrest
      (fun x => Or.rec (hS x) (hsector x)) fun x ⟨b, hb, hx⟩ =>
        hsectors x ⟨b, List.mem_cons_of_mem _ hb, hx⟩)).mono fun d hd => hd.mono fun m hm => ?_
    exact hm.congr fun x => by simp [or_assoc]

theorem attempts_eraseGroups {groups : List (Nat × List Nat)} {gi : Nat} (hgi : gi ≠ 0)
    (hg : ∀ g ∈ groups, g.1 ≤ 3 ∧ ∀ a ∈ g.2, a < 2 ^ 32) (hS : ∀ x, S x → x < stop)
    (hgroups : ∀ x, ErasedBy groups x → x < stop) :
    Attempts env (Spared old stop) (fun d => ∃ window, d.Held (Wiped old S) window)
      (eraseGroupsFrom gi groups : Usb ε Bool)
      (fun d => ∃ window, d.Held (Wiped old fun x => S x ∨ ErasedBy groups x) window) := by
  induction groups generalizing S gi with
  | nil =>
    exact Attempts.skip.mono fun d ⟨w, hd⟩ => ⟨w, hd.mono fun m hm => hm.congr fun x => by
      rw [or_iff_left not_erasedBy_nil]⟩
  | cons g rest ih =>
    obtain ⟨⟨hw, ha⟩, hrest⟩ := List.forall_mem_cons.mp hg
    have hhead : ∀ x, (∃ a ∈ g.2, InSector g.1 (2 * a) x) → x < stop :=
      fun x hx => hgroups x (erasedBy_cons.mpr (.inl hx))
    have htail : ∀ x, ErasedBy rest x → x < stop :=
      fun x hx => hgroups x (erasedBy_cons.mpr (.inr hx))
    have herase : Attempts env (Spared old stop) (Device.Held (Wiped old S) g.1)
        (eraseSectors g.2 : Usb ε Bool) (fun d => ∃ window,
          d.Held (Wiped old fun x => S x ∨ ∃ a ∈ g.2, InSector g.1 (2 * a) x) window) :=
      (attempts_eraseSectors ha hS hhead).mono fun d hd => ⟨g.1, hd⟩
    rw [eraseGroupsFrom, if_pos hgi]
    refine ((attempts_windowSwitch (Wiped.spares hS) hw).both (herase.both ((ih (by omega) hrest
      (fun x => Or.rec (hS x) (hhead x)) htail).both .skip))).mono ?_
    rintro d ⟨w, hd⟩
    exact ⟨w, hd.mono fun m hm => hm.congr fun x => by rw [erasedBy_cons, or_assoc]⟩

/-- With window 0 selected, the part of the card below `eraseEnd` becomes `0xFF`, or the erasing
stops and has spared the rest. -/
theorem attempts_erase {programmedSize : Nat} :
    Attempts env (Spared old (eraseEnd programmedSize)) (Device.Held (· = old) 0)
      (eraseImageCaptureFaithful programmedSize : Usb ε Bool)
      (fun d => ∃ window, d.Held (Wiped old fun x => x < eraseEnd programmedSize) window) := by
  have hstart : ∀ m, m = old → Wiped old (fun _ => False) m := by
    rintro m rfl x
    exact ⟨False.elim, fun _ => rfl⟩
  have hnone : ∀ x, False → x < eraseEnd programmedSize := fun _ => False.elim
  have hend : ∀ x, ErasedBy (eraseGroups programmedSize) x → x < eraseEnd programmedSize :=
    fun _ => erases_iff.mp
  intro d hd
  replace hd := hd.mono hstart
  rw [eraseImageCaptureFaithful]
  by_cases h8 : programmedSize ≤ flashWindowSize
  · rw [eraseGroups, if_pos h8] at hend
    rw [if_pos h8]
    refine (attempts_eraseSectors (selective_lt h8) hnone
      fun x hx => hend x (erasedBy_cons.mpr (.inl hx))).mono (fun d hd => ?_) d hd
    refine ⟨0, hd.mono fun m hm => hm.congr fun x => ?_⟩
    rw [← erases_iff, eraseGroups, if_pos h8, erasedBy_cons, or_iff_left not_erasedBy_nil, false_or]
  · rw [if_neg h8]
    obtain ⟨addresses, rest, hgroups, haddr, hrest⟩ :
        ∃ addresses rest, multiWindowGroups programmedSize = (0, addresses) :: rest ∧
          (∀ a ∈ addresses, a < 2 ^ 32) ∧ ∀ g ∈ rest, g.1 ≤ 3 ∧ ∀ a ∈ g.2, a < 2 ^ 32 :=
      ⟨full128MbBank0EraseAddresses, _, rfl, bank0_lt,
        (List.forall_mem_cons.mp multiWindowGroups_ok).2⟩
    rw [eraseGroups, if_neg h8, hgroups] at hend
    have hhead : ∀ x, (∃ a ∈ addresses, InSector 0 (2 * a) x) → x < eraseEnd programmedSize :=
      fun x hx => hend x (erasedBy_cons.mpr (.inl hx))
    have htail : ∀ x, ErasedBy rest x → x < eraseEnd programmedSize :=
      fun x hx => hend x (erasedBy_cons.mpr (.inr hx))
    rw [hgroups, eraseGroupsFrom, if_neg (not_not_intro rfl)]
    refine (Attempts.skip.both (((attempts_eraseSectors haddr hnone hhead).mono
      fun d hd => ⟨0, hd⟩).both ((attempts_eraseGroups (Nat.succ_ne_zero 0) hrest
        (fun x => Or.rec False.elim (hhead x)) htail).both .skip))).mono ?_ d hd
    rintro d ⟨w, hd⟩
    refine ⟨w, hd.mono fun m hm => hm.congr fun x => ?_⟩
    rw [← erases_iff, eraseGroups, if_neg h8, hgroups, erasedBy_cons, false_or]

/-! ### Programming -/

variable {image : Bytes} {off : Nat} {erased : Nat → UInt8}

theorem sector_dvd_eraseEnd {programmedSize : Nat} : 0x2000 ∣ eraseEnd programmedSize := by
  have hup := dvd_up programmedSize 0x10000
  rw [eraseEnd]
  split_ifs
  · omega
  all_goals
    simp only [flashWindowSize, cardHalfSize, maxCardImage]
    omega

theorem Programmed.spares (hstop : off ≤ stop) (herased : ∀ x, stop ≤ x → erased x = old x) :
    Spares old stop (Programmed erased image off) := by
  intro m hm x hx
  rw [hm x, if_neg (by omega), herased x hx]

theorem programTransactionSingle_even {byteAddress : Nat} {data : Bytes}
    (heven : 2 ∣ byteAddress) (hlt : byteAddress < 2 ^ 32) :
    programTransactionSingle (UInt32.ofNat byteAddress) data =
      allOf [out (command 0x92 0x00 (UInt32.ofNat (byteAddress / 2)) (UInt32.ofNat data.length) 0x41),
        out data,
        expectReply (command 0x92 0x00 (UInt32.ofNat (byteAddress / 2))
          (UInt32.ofNat data.length) 0x00)] := by
  rw [programTransactionSingle, makeProgramCommand_even heven hlt]
  rfl

/-- A block that is not acknowledged stays below `stop`, and so would the next packet in its
place. -/
theorem attempts_programTransactionSingle (hoff : 0x10000 ∣ off) (hlt : off < image.length)
    (hstop : image.length ≤ stop) (hpending : off + 13 ≤ stop)
    (herased : ∀ x, stop ≤ x → erased x = old x) :
    Attempts env (Spared old stop)
      (Device.Held (Programmed erased image off) (off / flashWindowSize))
      (programTransactionSingle (UInt32.ofNat (off % flashWindowSize))
        ((image.drop off).take (min programBlock (image.length - off))))
      (Device.Held (Programmed erased image (off + min programBlock (image.length - off)))
        (off / flashWindowSize)) := by
  rintro d ⟨hidle, hcontent, hwindow⟩
  have hlocal : 2 ∣ off % flashWindowSize ∧ off % flashWindowSize < 2 ^ 32 := by
    simp only [flashWindowSize]
    omega
  have hword : (UInt32.ofNat (off % flashWindowSize / 2)).toNat = off % flashWindowSize / 2 := by
    rw [UInt32.toNat_ofNat', Nat.mod_eq_of_lt (by omega)]
  have hat : d.cartridge.flash.cardAddress (off % flashWindowSize / 2) = off := by
    rw [Flash.cardAddress, hwindow]
    simp only [flashWindowSize]
    omega
  have hdone := hcontent.block hoff hwindow hlt
  have hcarry : ∀ {length : UInt32} {data : Bytes},
      d.cartridge.carryOut (command 0x92 0x00 (UInt32.ofNat (off % flashWindowSize / 2)) length 0x41)
        data = d.cartridge.program (off % flashWindowSize / 2) data := by
    intro length data
    have h : d.cartridge.carryOut (command 0x92 0x00 (UInt32.ofNat (off % flashWindowSize / 2))
        length 0x41) data = d.cartridge.program (readLe32 (command 0x92 0x00
          (UInt32.ofNat (off % flashWindowSize / 2)) length 0x41) 4).toNat data := rfl
    rw [h, readLe32_command_word, hword]
  have hack : ∀ {word length : UInt32}, Acknowledges (command 0x92 0x00 word length 0x41)
      (command 0x92 0x00 word length 0x00) := ⟨length_command, rfl, rfl⟩
  rw [programTransactionSingle_even hlocal.1 hlocal.2]
  refine (attempts_transaction rfl hack fun d' hd' => ?_).mono ?_ d
    (Device.Held.eq ⟨hidle, hcontent, hwindow⟩)
  · refine ⟨?_, fun pending hwaiting _ => ?_⟩
    · obtain h | h := hd'.cartridge
      · exact h ▸ Programmed.spares (by omega) herased _ hcontent
      · rw [hcarry] at h
        exact h ▸ Programmed.spares (by omega) herased _ hdone
    · obtain ⟨h, rfl⟩ := hd'.pending pending hwaiting
      rw [h, readLe32_command_word, hword, hat]
      exact hpending
  · rintro _ rfl
    rw [hcarry]
    exact ⟨rfl, hdone, Flash.window_program.trans hwindow⟩

/-- The window switch in front of a block leaves the window of the block selected. -/
theorem attempts_switchProgramWindow (hspares : Spares old stop content)
    (hcard : off < 4 * flashWindowSize) :
    Attempts env (Spared old stop) (Device.Held content ((off - 1) / flashWindowSize))
      (switchProgramWindow off) (Device.Held content (off / flashWindowSize)) := by
  rw [switchProgramWindow]
  by_cases h : off ≠ 0 ∧ off % flashWindowSize = 0
  · have hw : off / flashWindowSize ≤ 3 := by
      simp only [flashWindowSize] at hcard ⊢
      omega
    rw [if_pos h, if_neg (Nat.not_lt.mpr hw)]
    exact (attempts_windowSwitch hspares hw).pre fun d hd => ⟨_, hd⟩
  · have hsame : (off - 1) / flashWindowSize = off / flashWindowSize := by
      simp only [flashWindowSize] at h ⊢
      omega
    rw [if_neg h, hsame]
    exact .skip

/-- The program loop, by induction on the blocks left. -/
theorem attempts_programFrom (hcard : image.length ≤ 4 * flashWindowSize)
    (hstop : image.length ≤ stop) (hdvd : 0x2000 ∣ stop)
    (herased : ∀ x, stop ≤ x → erased x = old x) (off : Nat)
    (hoff : 0x10000 ∣ off ∨ image.length ≤ off) (hle : off ≤ image.length) :
    Attempts env (Spared old stop)
      (Device.Held (Programmed erased image off) ((off - 1) / flashWindowSize))
      (programFrom image off)
      (fun d => ∃ window, d.Held (Programmed erased image image.length) window) := by
  induction off using programFrom.induct image with
  | case1 off hlt n ih =>
    have haligned : 0x10000 ∣ off := hoff.resolve_right (by omega)
    have hnext : (off + n - 1) / flashWindowSize = off / flashWindowSize := by
      simp only [flashWindowSize, n, programBlock]
      omega
    have hrest : 0x10000 ∣ off + n ∨ image.length ≤ off + n := by
      simp only [n, programBlock]
      omega
    rw [programFrom, if_pos hlt]
    refine (attempts_switchProgramWindow (Programmed.spares (by omega) herased)
      (by omega)).both ((attempts_programTransactionSingle haligned hlt hstop (by omega)
        herased).both (Attempts.both ?_ .skip))
    exact hnext ▸ ih hrest (by simp only [n]; omega)
  | case2 off hge =>
    rw [programFrom, if_neg hge]
    obtain rfl : off = image.length := by omega
    exact Attempts.skip.mono fun d hd => ⟨_, hd⟩

/-- The writing steps, from any idle card: they succeed and leave the image, or they stop somewhere
and have spared what lies behind the erased extent. -/
theorem attempts_flashImage (hcard : image.length ≤ maxCardImage) :
    Attempts env (Spared old (eraseEnd image.length))
      (fun d => ∃ window, d.Held (· = old) window) (flashImage image)
      (fun d => ∃ window, d.Held (Flashed old image) window) := by
  have hstop := le_eraseEnd hcard
  have hold : Spares old (eraseEnd image.length) (· = old) := by
    rintro m rfl x _
    rfl
  have hwiped : Spares old (eraseEnd image.length) (Wiped old fun x => x < eraseEnd image.length) :=
    Wiped.spares fun _ hx => hx
  have hprogram : Attempts env (Spared old (eraseEnd image.length))
      (Device.Held (Wiped old fun x => x < eraseEnd image.length) 0) (programImage image)
      (fun d => ∃ window, d.Held (Flashed old image) window) := by
    intro d hd
    have hstart : d.Held (Programmed d.cartridge.flash.mem image 0) 0 :=
      ⟨hd.idle, fun x => by rw [if_neg (Nat.not_lt_zero x)], hd.selected⟩
    refine (attempts_programFrom (by simpa [maxCardImage, flashWindowSize] using hcard) hstop
      sector_dvd_eraseEnd (hwiped _ hd.content) 0 (.inl (Nat.dvd_zero _)) (Nat.zero_le _)).mono
      ?_ d hstart
    rintro d' ⟨w, hd'⟩
    exact ⟨w, hd'.mono fun m hm => .of_programmed hcard hd.content (Nat.le_refl _) hm⟩
  exact (attempts_select hold (Nat.zero_le 3)).both (attempts_erase.both
    ((attempts_control hwiped).both ((attempts_select hwiped (Nat.zero_le 3)).both
      (hprogram.both .skip))))

end Attempts

/-! ## Nothing else reaches the flash -/

/-- Neither erases nor programs, whether it is taken for a command or not. -/
def FlashSafe (data : Bytes) : Prop :=
  data.getD 2 0 ≠ 0x96 ∧ (data.getD 2 0 = 0x92 → data.getD 3 0 ≠ 0x00)

instance (data : Bytes) : Decidable (FlashSafe data) := inferInstanceAs (Decidable (_ ∧ (_ → _)))

def Harmless : Transport.Op → Prop := Transport.Uses FlashSafe fun _ => True

/-- From `stop` on the flash is as it was, and no payload that is waited for can change that. -/
structure Calm (old : Nat → UInt8) (stop : Nat) (d : Device) : Prop where
  kept : ∀ x, stop ≤ x → d.cartridge.flash.mem x = old x
  pending : ∀ command, d.waiting = .payload command → command.getD 3 0 ≠ 0x00

section Calm

variable {c : Cartridge} {old : Nat → UInt8} {stop : Nat} {d d' : Device}

theorem mem_carryOut {command data : Bytes} (h : command.getD 3 0 ≠ 0x00) :
    (c.carryOut command data).flash.mem = c.flash.mem := by
  rw [Cartridge.carryOut, if_neg h]
  split
  · rfl
  · split
    · rfl
    · rfl

/-- The flash has such a content, and no payload that is waited for can change it. -/
structure Settled (I : (Nat → UInt8) → Prop) (d : Device) : Prop where
  content : I d.cartridge.flash.mem
  pending : ∀ command, d.waiting = .payload command → command.getD 3 0 ≠ 0x00

/-- Packets that program nothing, and erase only what may be erased, keep a content. -/
theorem Settled.step {I : (Nat → UInt8) → Prop} {P : Bytes → Prop} {B : UInt16 → Prop}
    (hprogram : ∀ data, P data → data.getD 2 0 = 0x92 → data.getD 3 0 ≠ 0x00)
    (herase : ∀ data, P data → data.getD 2 0 = 0x96 → ∀ f : Flash, I f.mem →
      I (f.erase (readLe32 data 4).toNat).mem)
    {o : Transport.Op} {r : Transport.Reply o} (ho : Transport.Uses P B o) (h : env d o r d')
    (hd : Settled I d) : Settled I d' := by
  obtain ⟨c, waiting⟩ := d
  have hidle : Settled I ⟨c, .command⟩ := ⟨hd.content, fun _ h => by cases h⟩
  have hanswer : ∀ command done, Settled I ⟨c, .answer command done⟩ :=
    fun _ _ => ⟨hd.content, fun _ h => by cases h⟩
  have hcommand : ∀ {data : Bytes}, P data →
      (if data.getD 2 0 = 0x92 then d' = ⟨c, .payload data⟩
        else if data.getD 2 0 = 0x96 then
          d' = ⟨c.erase (readLe32 data 4).toNat, .answer data true⟩ ∨ d' = ⟨c, .answer data false⟩
        else d' = ⟨c, .command⟩) → Settled I d' := by
    intro data hdata h
    by_cases h92 : data.getD 2 0 = 0x92
    · rw [if_pos h92] at h
      subst h
      refine ⟨hd.content, fun command hwaiting => ?_⟩
      cases hwaiting
      exact hprogram data hdata h92
    rw [if_neg h92] at h
    by_cases h96 : data.getD 2 0 = 0x96
    · rw [if_pos h96] at h
      obtain rfl | rfl := h
      · exact ⟨herase data hdata h96 c.flash hd.content, fun _ h => by cases h⟩
      · exact hanswer data false
    · rw [if_neg h96] at h
      exact h ▸ hidle
  cases o with
  | out data =>
    obtain h | ⟨_, rfl⟩ := h
    · cases waiting with
      | command => exact hcommand ho h
      | answer command done => exact hcommand ho h
      | payload command =>
        obtain rfl | rfl := h
        · refine ⟨?_, fun _ h => by cases h⟩
          rw [mem_carryOut (hd.pending command rfl)]
          exact hd.content
        · exact hanswer command false
    · exact hd
  | inExact wanted => exact h.1 ▸ hidle
  | inMax maximum => exact h.1 ▸ hidle
  | selectBank bankValue => exact (show d' = ⟨c, waiting⟩ from h) ▸ hd

theorem Calm.step {o : Transport.Op} {r : Transport.Reply o} (ho : Harmless o) (h : env d o r d')
    (hd : Calm old stop d) : Calm old stop d' := by
  have hsettled : Settled (fun mem => ∀ x, stop ≤ x → mem x = old x) d' :=
    Settled.step (fun _ hsafe => hsafe.2) (fun _ hsafe h96 => absurd h96 hsafe.1) ho h
      ⟨hd.kept, hd.pending⟩
  exact ⟨hsettled.content, hsettled.pending⟩

theorem Calm.wp {ε α : Type} {p : Usb ε α} (h : Always Harmless Returns p) (hd : Calm old stop d) :
    Wp env anything p (Gives fun _ d => Calm old stop d) d := by
  refine wp_mono (h.wp (fun _ _ _ _ => trivial) Calm.step hd) fun out d' hout => ?_
  cases out with
  | ok a => exact hout.2
  | error e => exact hout.1

end Calm

section Safe

variable {ε : Type} {image : Bytes} {skip : Bool}

theorem flashSafe_short {data : Bytes} (h : data.length ≤ 2) : FlashSafe data := by
  have hzero : data.getD 2 0 = 0 := Segments.getD_eq_of_ge h
  exact ⟨by rw [hzero]; decide, fun h92 => absurd (hzero.symm.trans h92) (by decide)⟩

theorem flashSafe_command {opcode sub final : UInt8} {word length : UInt32}
    (h : opcode ≠ 0x96 ∧ (opcode = 0x92 → sub ≠ 0x00)) :
    FlashSafe (command opcode sub word length final) := h

theorem harmless_packets {tx : Tx} : ∀ data ∈ tx.packets, Harmless (.out data) := by
  cases tx with
  | two first second =>
    exact List.forall_mem_cons.mpr ⟨(by decide : FlashSafe command92Two),
      List.forall_mem_singleton.mpr (flashSafe_short (by simp))⟩
  | one selector value =>
    refine List.forall_mem_cons.mpr ⟨⟨?_, fun _ => ?_⟩,
      List.forall_mem_singleton.mpr (flashSafe_short (by simp))⟩
    · simp [command92One]
    · simp [command92One]

theorem harmless_sendAll {transfers : List Tx} :
    Always Harmless Returns (sendAll transfers : Usb ε Bool) :=
  always_sendAll (fun _ _ => harmless_packets) trivial

theorem clearAll_eq : (SaveBankCleaner.clearAll : Usb ε Bool) =
    allOf ((List.range 4).map fun bank =>
      both (SaveBankAccess.select (bankSelector firstBank bank))
        (commandDataEcho saveWriteCommand SaveBankCleaner.zeros)) := by
  rw [SaveBankCleaner.clearAll, SaveBankCleaner.clearRange, if_neg (by decide)]

theorem harmless_clearEcho :
    Always Harmless Returns
      (commandDataEcho saveWriteCommand SaveBankCleaner.zeros : Usb ε Bool) := by
  have hzero : SaveBankCleaner.zeros.getD 2 0 = 0 := rfl
  have hzeros : FlashSafe SaveBankCleaner.zeros :=
    ⟨by rw [hzero]; decide, fun h92 => absurd (hzero.symm.trans h92) (by decide)⟩
  exact always_commandDataEcho (A := Harmless) (by decide : FlashSafe saveWriteCommand) hzeros
    trivial

theorem harmless_clearBank {bank : UInt16} :
    Always Harmless Returns (both (SaveBankAccess.select bank)
      (commandDataEcho saveWriteCommand SaveBankCleaner.zeros) : Usb ε Bool) :=
  (always_selectBank ⟨by decide, fun _ _ => flashSafe_short (by simp)⟩ trivial).both
    harmless_clearEcho

theorem harmless_clearAll : Always Harmless Returns (SaveBankCleaner.clearAll : Usb ε Bool) := by
  rw [clearAll_eq]
  refine always_allOf fun p hp => ?_
  obtain ⟨bank, _, rfl⟩ := List.mem_map.mp hp
  exact harmless_clearBank

theorem flashSafe_query {data : Bytes} (h : data.getD 2 0 ≠ 0x92 ∧ data.getD 2 0 ≠ 0x96) :
    FlashSafe data :=
  ⟨h.2, fun h92 => absurd h92 h.1⟩

theorem harmless_probeStep {step : ProbeStep} (h : step.Mild) :
    Always Harmless Returns (step.send : Usb ε Bool) := by
  cases step with
  | transfer tx => exact always_send harmless_packets trivial
  | twoAt wordAddress first second =>
    exact always_commandDataEcho (A := Harmless) (flashSafe_command (by decide))
      (flashSafe_short (by simp)) trivial
  | read command wanted => exact always_request (A := Harmless) (flashSafe_query h) trivial
  | echo command => exact always_request (A := Harmless) (flashSafe_query h) trivial

theorem harmless_setup : Always Harmless Returns CardWriter.setup := by
  have hstartup : ∀ command ∈ [c97, c98, c99], Harmless (.out command) :=
    fun command hcommand => flashSafe_query (query_startup command hcommand)
  have hcheck : ∀ p ∈ managerCheck.map ProbeStep.send,
      Always Harmless Returns (p : Usb StdException Bool) := by
    intro p hp
    obtain ⟨step, hstep, rfl⟩ := List.mem_map.mp hp
    exact harmless_probeStep (mild_managerCheck step hstep)
  exact ((always_startup hstartup fun _ => trivial).both (always_allOf hcheck)).both
    ((always_initializeBridge (hstartup c98 (by decide)) trivial).both harmless_clearAll)

/-- Verification of a supported size: control transfers, then the linear comparison. -/
theorem verify_method (hsize : ProgrammedSize image.length)
    (hmode : VerificationPolicy.modeFor image.length ≠ .unsupportedPartialHigherWindow) :
    ∃ preamble verifySize require, verifySize < 2 ^ 32 ∧
      verify (VerificationPolicy.modeFor image.length) image =
        both (sendAll preamble) (VerificationSession.verifyLinear image verifySize require) := by
  have hblock := hsize.blockLe
  have hmax := hsize.leCard
  have hup := @up_lt image.length 0x10000 (by omega)
  simp only [programBlock, maxCardImage] at hblock hmax
  obtain ⟨preamble, hverify⟩ := verify_eq (by omega) hmode
  exact ⟨preamble, _, _, by omega, hverify⟩

theorem harmless_finishWrite (hsize : ProgrammedSize image.length) :
    Always Harmless Returns (CardWriter.finishWrite image skip) := by
  have hread : ∀ word length, Harmless (.out (command 0x91 0x00 word length 0x00)) :=
    fun _ _ => flashSafe_command (by decide)
  rw [CardWriter.finishWrite]
  split
  · exact harmless_sendAll.then fun _ => trivial
  · dsimp only
    split
    · exact harmless_sendAll.then fun _ => trivial
    case isFalse hmode =>
      obtain ⟨preamble, verifySize, require, hlt, hverify⟩ := verify_method hsize hmode
      rw [hverify]
      exact (always_method (fun _ => harmless_packets) hread (fun _ => trivial) trivial hlt).then
        fun _ => trivial

/-! ### After a stop -/

theorem Calm.attempts {old : Nat → UInt8} {stop : Nat} {p : Usb ε Bool}
    (h : Always Harmless Returns p) :
    Attempts env (fun d => ∀ x, stop ≤ x → d.cartridge.flash.mem x = old x) (Calm old stop) p
      (Calm old stop) :=
  fun _ hd => wp_gives_mono (Calm.wp h hd) fun _ _ hcalm => ⟨fun _ => hcalm, fun _ => hcalm.kept⟩

/-- The first packet may still be taken for a payload, but it is short. -/
theorem Spared.attempts_command {old : Nat → UInt8} {stop : Nat} :
    Attempts env (fun d => ∀ x, stop ≤ x → d.cartridge.flash.mem x = old x) (Spared old stop)
      (out command92Two : Usb ε Bool) (Calm old stop) := by
  refine attempts_out fun d sent d' hd hstep => ?_
  obtain ⟨c, waiting⟩ := d
  have hcalm : d' = ⟨c, .payload command92Two⟩ → Calm old stop d' := by
    rintro rfl
    refine ⟨hd.kept, fun command hwaiting => ?_⟩
    cases hwaiting
    decide
  have hdone : ∀ command, d' = ⟨c, .answer command false⟩ → Calm old stop d' := by
    rintro command rfl
    exact ⟨hd.kept, fun _ h => by cases h⟩
  obtain h | ⟨rfl, rfl⟩ := hstep
  · have hcalm' : Calm old stop d' := by
      cases waiting with
      | command => exact hcalm h
      | answer command done => exact hcalm h
      | payload command =>
        obtain rfl | h := h
        · refine ⟨fun x hx => ?_, fun _ h => by cases h⟩
          by_cases hsub : command.getD 3 0 = 0x00
          · have hbound : c.flash.cardAddress (readLe32 command 4).toNat + 13 ≤ stop :=
              hd.pending command rfl hsub
            have hcarry : c.carryOut command command92Two =
                c.program (readLe32 command 4).toNat command92Two := if_pos hsub
            have hlen : command92Two.length = 13 := rfl
            rw [hcarry, Cartridge.program, Flash.program]
            dsimp only
            rw [hlen, if_neg (by omega)]
            exact hd.kept x hx
          · rw [mem_carryOut hsub]
            exact hd.kept x hx
        · exact hdone command h
    exact ⟨fun _ => hcalm', fun _ => hcalm'.kept⟩
  · exact ⟨fun h => absurd h Bool.false_ne_true, fun _ => hd.kept⟩

theorem Spared.attempts_clearAll {old : Nat → UInt8} {stop : Nat} :
    Attempts env (fun d => ∀ x, stop ≤ x → d.cartridge.flash.mem x = old x) (Spared old stop)
      (SaveBankCleaner.clearAll : Usb ε Bool) (Calm old stop) := by
  have hpacket : ∀ {data : Bytes}, FlashSafe data →
      Always Harmless Returns (out data : Usb ε Bool) := fun h => always_out (A := Harmless) h
  have hecho : ∀ {reply : Bytes}, Always Harmless Returns (expectReply reply : Usb ε Bool) :=
    always_expectReply trivial
  -- all packets behind the first one meet a calm device
  have hfirst : Attempts env (fun d => ∀ x, stop ≤ x → d.cartridge.flash.mem x = old x)
      (Spared old stop) (tx92Two 0x55 0xAA : Usb ε Bool) (Calm old stop) :=
    attempts_command.both (Calm.attempts ((hpacket (flashSafe_short (by simp))).both
      (hecho.both trivial)))
  have hselect : ∀ bank, Attempts env (fun d => ∀ x, stop ≤ x → d.cartridge.flash.mem x = old x)
      (Spared old stop) (SaveBankAccess.select bank : Usb ε Bool) (Calm old stop) := by
    intro bank d hd
    refine wp_bind (wp_ask (Q := Gives fun _ d' => d' = d) trivial fun _ _ h => h) ?_
    rintro _ _ rfl
    exact hfirst.both (Calm.attempts harmless_sendAll) _ hd
  rw [clearAll_eq]
  refine ((hselect _).both (Calm.attempts harmless_clearEcho)).both (Calm.attempts ?_)
  exact harmless_clearBank.both (harmless_clearBank.both (harmless_clearBank.both trivial))

/-! ### Where an attempt ends -/

theorem attempts_anything {A : Transport.Op → Prop} {P : Device → Prop} {p : Usb ε Bool}
    (h : Always A Returns p) : Attempts env (fun _ => True) P p fun _ => True := by
  intro d _
  refine wp_mono (h.wp (I := fun _ => True) (fun _ _ _ _ => trivial) (fun _ _ _ => trivial) trivial)
    fun out d' hout => ?_
  cases out with
  | ok a => exact ⟨fun _ => trivial, fun _ => trivial⟩
  | error e => exact hout.1

theorem settles_commandDataEcho {command data : Bytes} {P : Device → Prop} :
    Attempts env (fun _ => True) P (commandDataEcho command data : Usb ε Bool) Device.Idle := by
  have hout : ∀ (data : Bytes) (P : Device → Prop),
      Attempts env (fun _ => True) P (out data : Usb ε Bool) fun _ => True :=
    fun data P => attempts_anything (A := fun _ => True) (always_out trivial)
  exact (hout command P).both ((hout data _).both (Attempts.both
    (attempts_answer (by rfl) (fun _ => by rfl) (fun _ _ _ _ _ => rfl) fun _ _ => trivial) .skip))

theorem settles_send {tx : Tx} {P : Device → Prop} :
    Attempts env (fun _ => True) P (tx.send : Usb ε Bool) Device.Idle := by
  cases tx with
  | two first second => exact settles_commandDataEcho
  | one selector value => exact settles_commandDataEcho

theorem settles_sendAll {transfers : List Tx} :
    Attempts env (fun _ => True) Device.Idle (sendAll transfers : Usb ε Bool) Device.Idle := by
  induction transfers with
  | nil => exact .skip
  | cons tx rest ih => exact settles_send.both ih

theorem settles_clearAll {P : Device → Prop} :
    Attempts env (fun _ => True) P (SaveBankCleaner.clearAll : Usb ε Bool) Device.Idle := by
  have hbank : ∀ (bank : UInt16) (P : Device → Prop), Attempts env (fun _ => True) P
      (both (SaveBankAccess.select bank)
        (commandDataEcho saveWriteCommand SaveBankCleaner.zeros) : Usb ε Bool) Device.Idle :=
    fun bank P => (attempts_anything (always_selectBank (P := fun _ => True) (B := fun _ => True)
      ⟨trivial, fun _ _ => trivial⟩ trivial)).both settles_commandDataEcho
  rw [clearAll_eq]
  exact (hbank _ P).both ((hbank _ _).both ((hbank _ _).both ((hbank _ _).both .skip)))

theorem settles_verifyBlock {require : Bool} {offset length : Nat} {P : Device → Prop}
    (heven : 2 ∣ offset) (hoffset : offset < 2 ^ 32) (hlength : length < 2 ^ 32) :
    Attempts env (fun _ => True) P (VerificationSession.verifyBlock image require offset length)
      Device.Idle := by
  intro d _
  rw [VerificationSession.verifyBlock, readCommand_block heven hoffset hlength, ofExcept_ok]
  refine wp_bind (Q := fun _ _ => True) (wp_ask trivial fun _ _ _ => trivial) fun sent d1 _ => ?_
  cases sent with
  | false => exact And.intro (fun h => absurd h Bool.false_ne_true) fun _ => trivial
  | true =>
    refine wp_bind (Q := fun _ d2 => d2.Idle) (wp_ask trivial fun _ d2 h => ?_) ?_
    · exact (show d2 = ⟨d1.cartridge, .command⟩ from h.1) ▸ rfl
    · intro response d2 hidle
      cases response with
      | none => exact And.intro (fun _ => hidle) fun _ => trivial
      | some received => exact And.intro (fun _ => hidle) fun _ => trivial

theorem settles_verifyFrom {verifySize : Nat} {require : Bool} (hsize : verifySize < 2 ^ 32)
    (offset : Nat) (hoff : 0x10000 ∣ offset ∨ verifySize ≤ offset) :
    Attempts env (fun _ => True) Device.Idle
      (VerificationSession.verifyFrom image verifySize require offset) Device.Idle := by
  induction offset using VerificationSession.verifyFrom.induct verifySize with
  | case1 offset hlt length ih =>
    have hdvd : 0x10000 ∣ offset := hoff.resolve_right (by omega)
    rw [VerificationSession.verifyFrom, if_pos hlt]
    refine (settles_verifyBlock (by omega) (by omega)
      (by simp only [VerificationSession.blockSize]; omega)).both (ih ?_)
    simp only [length, VerificationSession.blockSize]
    omega
  | case2 offset hge =>
    rw [VerificationSession.verifyFrom, if_neg hge]
    exact .skip

end Safe

/-! ## The whole write -/

theorem Flashed.kept {old new : Nat → UInt8} {image : Bytes} (hcard : image.length ≤ maxCardImage)
    (h : Flashed old image new) : ∀ x, eraseEnd image.length ≤ x → new x = old x := by
  have hend := le_eraseEnd hcard
  intro x hx
  rw [h x, if_neg (by omega), if_neg (by omega)]

namespace CardWriter

/-- What a successful write reports: of the three ways to finish, the one that was taken. -/
def writtenResult (image : Bytes) (skipVerification : Bool) : CardWriteResult :=
  let unproven := decide (VerificationPolicy.modeFor image.length = .unsupportedPartialHigherWindow)
  { status := .success
    verificationCompleted := !skipVerification && !unproven
    verificationSkippedByUser := skipVerification
    verificationSkippedUnproven := !skipVerification && unproven }

section Outcome

variable {image : Bytes} {skip : Bool} {old : Nat → UInt8}

/-- The setup ends with the save banks, so behind it the device waits for a command. -/
theorem settles_setup {P : Device → Prop} :
    Attempts env (fun _ => True) P setup Device.Idle := by
  have hprobe : Always (fun _ => True) Returns
      (originalManagerInitializeAndCheck : Usb StdException Bool) :=
    noFlash_preflight.weaken fun _ _ => trivial
  have hpolls : Always (fun _ => True) Returns (initializeBridge : Usb StdException Bool) :=
    noFlash_initializeBridge.weaken fun _ _ => trivial
  exact (attempts_anything hprobe).both ((attempts_anything hpolls).both settles_clearAll)

theorem settles_finishWrite (hsize : ProgrammedSize image.length) {d : Device} (hd : d.Idle) :
    Wp env anything (finishWrite image skip)
      (Gives fun p d => p.1 = true →
        d.Idle ∧ { p.2 with status := .success } = writtenResult image skip) d := by
  cases skip with
  | true =>
    refine wp_bind (settles_sendAll d hd) fun ok d' h => ?_
    intro hok
    obtain rfl : ok = true := hok
    exact ⟨h.1 rfl, rfl⟩
  | false =>
    rw [finishWrite, if_neg Bool.false_ne_true]
    dsimp only
    split
    case isTrue hmode =>
      refine wp_bind (settles_sendAll d hd) fun ok d' h => ?_
      intro hok
      obtain rfl : ok = true := hok
      exact ⟨h.1 rfl, by simp [writtenResult, hmode]⟩
    case isFalse hmode =>
      obtain ⟨preamble, verifySize, require, hlt, hverify⟩ := verify_method hsize hmode
      rw [hverify]
      refine wp_bind ((settles_sendAll.both (settles_verifyFrom hlt 0 (.inl (Nat.dvd_zero _)))) d hd)
        fun ok d' h => ?_
      intro hok
      obtain rfl : ok = true := hok
      exact ⟨h.1 rfl, by simp [writtenResult, hmode]⟩

/-- Flashing and finishing: in the end the flash behind the erased extent is as it was, and if it
succeeded, the image is on the card. -/
theorem wp_flashAndFinish (hsize : ProgrammedSize image.length) {d : Device} (hd : d.Idle) :
    Wp env anything (flashAndFinish image skip)
      (Gives fun p d' => Spared d.cartridge.flash.mem (eraseEnd image.length) d' ∧ (p.1 = true →
        d'.Idle ∧ Flashed d.cartridge.flash.mem image d'.cartridge.flash.mem ∧
          { p.2 with status := .success } = writtenResult image skip)) d := by
  refine wp_bind (attempts_flashImage hsize.leCard d ⟨_, hd, rfl, rfl⟩) fun flashed d1 h => ?_
  cases flashed with
  | false => exact And.intro (h.2 rfl) fun hok => absurd hok Bool.false_ne_true
  | true =>
    obtain ⟨w, hheld⟩ := h.1 rfl
    have hcalm : Calm d1.cartridge.flash.mem 0 d1 :=
      ⟨fun _ _ => rfl, fun _ hwaiting => by rw [hheld.idle] at hwaiting; cases hwaiting⟩
    refine wp_gives_mono (wp_gives_and (Calm.wp (harmless_finishWrite hsize) hcalm)
      (settles_finishWrite hsize hheld.idle)) ?_
    rintro p d2 ⟨hcalm2, hdone⟩
    have hmem : d2.cartridge.flash.mem = d1.cartridge.flash.mem :=
      funext fun x => hcalm2.kept x (Nat.zero_le x)
    have hflashed : Flashed d.cartridge.flash.mem image d2.cartridge.flash.mem :=
      hmem ▸ hheld.content
    have hspared : Spared d.cartridge.flash.mem (eraseEnd image.length) d2 :=
      ⟨hflashed.kept hsize.leCard, fun command hwaiting hsub =>
        absurd hsub (hcalm2.pending command hwaiting)⟩
    exact And.intro hspared fun hok => ⟨(hdone hok).1, hflashed, (hdone hok).2⟩

end Outcome

/-- How a run of a write ends, for any image of a size that can be programmed. -/
theorem outcome_of_run {image : Bytes} {skip : Bool} {trace : List Transport.Event}
    {out : Except StdException CardWriteResult} {c : Cartridge} {d : Device}
    (hsize : ProgrammedSize image.length) (run : Runs (write image skip) trace out)
    (path : Path env ⟨c, .command⟩ trace d) :
    (∀ x, eraseEnd image.length ≤ x → d.cartridge.flash.mem x = c.flash.mem x) ∧
    ∃ result, out = .ok result ∧ (result.status = .success →
      Flashed c.flash.mem image d.cartridge.flash.mem ∧
      (∀ bank, ProvenBank bank → ∀ i < bankSize, d.cartridge.saves bank i = 0) ∧
      result = writtenResult image skip) := by
  have hstart : Calm c.flash.mem 0 ⟨c, .command⟩ := ⟨fun _ _ => rfl, fun _ h => by cases h⟩
  obtain ⟨hprep, result, rfl, hno⟩ | ⟨prep, body, last, ok, result, clearOk, rfl, hprep, hbody,
    hlast, rfl⟩ := runs_write hsize run
  · have hcalm : Calm c.flash.mem 0 d := ((Calm.wp harmless_setup hstart).sound hprep path).2
    exact ⟨fun x _ => hcalm.kept x (Nat.zero_le x), result, rfl, fun h => absurd h hno⟩
  · obtain ⟨d1, path1, path⟩ := path_append_iff.mp path
    obtain ⟨d2, path2, path3⟩ := path_append_iff.mp path
    have hcalm : Calm c.flash.mem 0 d1 := ((Calm.wp harmless_setup hstart).sound hprep path1).2
    have hmem : d1.cartridge.flash.mem = c.flash.mem :=
      funext fun x => hcalm.kept x (Nat.zero_le x)
    have hidle : d1.Idle := ((settles_setup (P := fun _ => True) _ trivial).sound hprep path1).2.1 rfl
    obtain ⟨hspared, hdone⟩ := ((wp_flashAndFinish hsize hidle).sound hbody path2).2
    rw [hmem] at hspared hdone
    have hkept : ∀ x, eraseEnd image.length ≤ x → d.cartridge.flash.mem x = c.flash.mem x := by
      have hclear := ((Spared.attempts_clearAll d2 hspared).sound hlast path3).2
      cases clearOk with
      | true => exact (hclear.1 rfl).kept
      | false => exact hclear.2 rfl
    refine ⟨hkept, _, rfl, fun hsuccess => ?_⟩
    have hboth : (ok && clearOk) = true := by
      by_contra hno
      rw [if_neg hno] at hsuccess
      cases hsuccess
    obtain ⟨rfl, rfl⟩ := Bool.and_eq_true_iff.mp hboth
    obtain ⟨hidle2, hflashed, hresult⟩ := hdone rfl
    obtain ⟨c2, waiting⟩ := d2
    obtain rfl : waiting = .command := hidle2
    rw [runs_clearAll_true_iff.mp hlast, path_writeBanks_iff] at path3
    obtain rfl := path3
    refine ⟨?_, fun bank hbank i hi => ?_, hresult⟩
    · rw [mem_writeBanks]
      exact hflashed
    · exact zero_writeBanks (fun _ h => mem_allBanks_iff.mp h) hi (.inr (mem_allBanks_iff.mpr hbank))

end CardWriter

end Ezfadvance
