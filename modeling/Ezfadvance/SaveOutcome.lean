import Ezfadvance.WorkingSave
import Ezfadvance.WriteOutcome

/-!
# SaveOutcome

What the save application leaves on the cartridge, over a transport that may lose packets.

* `Device.tool`: the cartridge behind the transport of a tool.
* `Within`: what holds wherever the application stops: the flash as it was, and the save memory
  outside a range as well, even if the payload that is waited for were still to come.
* `attempts_writeSave`: a save is written completely, or the write stops within its range.
* `wp_store`: writing and reading back, from any state that only reading has brought about.
* `Outcome`: nothing has changed, or a save was stored that may be; `wp_direct`, `wp_erase` and
  `CatalogSaveWorkflow.wp_run` end in it.
* `save_outcome`: what every run of the application keeps, and what a successful one has stored.
-/

namespace Ezfadvance

open Interact Interact.Program CartridgeFormat Protocol Usb Device Tool
open WorkingCartridge (selected)

/-- Nothing but the transfers reaches the cartridge. -/
def Device.tool : Env Tool.Op Tool.Reply Device := fun d o r d' =>
  match o, r with
  | .usb o, r => env d o r d'
  | _, _ => d' = d

/-- The flash is as it was, and the save memory outside `R`, and no payload that is waited for can
change that. -/
structure Within (c : Cartridge) (R : UInt16 → Prop) (d : Device) : Prop where
  flash : d.cartridge.flash.mem = c.flash.mem
  saves : ∀ v, ¬ R v → d.cartridge.saves v = c.saves v
  pending : ∀ command, d.waiting = .payload command →
    command.getD 3 0 ≠ 0x00 ∧ (command.getD 3 0 = 0x01 → R d.cartridge.bank)

/-- Not even the save memory has changed. -/
abbrev Untouched (c : Cartridge) : Device → Prop := Within c fun _ => False

section Within

variable {c c' : Cartridge} {R : UInt16 → Prop} {d d' : Device} {B : UInt16 → Prop}

theorem Within.start : Untouched c ⟨c, .command⟩ :=
  ⟨rfl, fun _ _ => rfl, fun _ h => by cases h⟩

theorem Within.idle (hflash : c'.flash.mem = c.flash.mem)
    (hsaves : ∀ v, ¬ R v → c'.saves v = c.saves v) : Within c R ⟨c', .command⟩ :=
  ⟨hflash, hsaves, fun _ h => by cases h⟩

theorem Within.widen (h : Untouched c d) : Within c R d :=
  ⟨h.flash, fun v _ => h.saves v not_false, fun command hwaiting =>
    ⟨(h.pending command hwaiting).1, fun hsub => ((h.pending command hwaiting).2 hsub).elim⟩⟩

theorem Within.trans (h : Within c R ⟨c', .command⟩) (hd : Untouched c' d) : Within c R d :=
  ⟨hd.flash.trans h.flash, fun v hv => (hd.saves v not_false).trans (h.saves v hv),
    fun command hwaiting => ⟨(hd.pending command hwaiting).1,
      fun hsub => ((hd.pending command hwaiting).2 hsub).elim⟩⟩

theorem SessionPacket.mild {data : Bytes} (h : SessionPacket data) :
    data.getD 2 0 ≠ 0x96 ∧
      (data.getD 2 0 = 0x92 → data.getD 3 0 ≠ 0x00 ∧ data.getD 3 0 ≠ 0x01) := by
  obtain ⟨⟨_, herase, hprogram, hsave⟩, hshort | ⟨hlen, hmagic⟩⟩ := h
  · have hzero : data.getD 2 0 = 0 := Segments.getD_eq_of_ge hshort
    exact ⟨by rw [hzero]; decide, fun h92 => absurd (hzero.symm.trans h92) (by decide)⟩
  · obtain ⟨first, second, opcode, sub, rest, rfl⟩ :
        ∃ first second opcode sub rest, data = first :: second :: opcode :: sub :: rest := by
      obtain _ | ⟨first, _ | ⟨second, _ | ⟨opcode, _ | ⟨sub, rest⟩⟩⟩⟩ := data
      all_goals first | exact ⟨_, _, _, _, _, rfl⟩ | cases hlen
    obtain ⟨rfl, rfl⟩ : first = 0x5A ∧ second = 0xA5 := by simpa using hmagic
    refine ⟨?_, ?_⟩
    · rintro rfl
      exact herase rfl
    · rintro rfl
      exact ⟨by rintro rfl; exact hprogram rfl, by rintro rfl; exact hsave rfl⟩

/-- A payload that is waited for changes no more than it may. -/
theorem Within.carryOut {command data : Bytes} {waiting : Waiting}
    (h : Within c R ⟨c', .payload command⟩) (hwaiting : ∀ command, waiting ≠ .payload command) :
    Within c R ⟨c'.carryOut command data, waiting⟩ := by
  obtain ⟨hprogram, hbank⟩ := h.pending command rfl
  refine ⟨(mem_carryOut hprogram).trans h.flash, fun v hv => ?_,
    fun command h => absurd h (hwaiting command)⟩
  rw [← h.saves v hv, Cartridge.carryOut, if_neg hprogram]
  split
  case isTrue hsub =>
    funext i
    refine if_neg ?_
    rintro ⟨rfl, _⟩
    exact hv (hbank hsub)
  case isFalse =>
    split
    · rfl
    · rfl

theorem Within.step {o : Transport.Op} {r : Transport.Reply o}
    (ho : Transport.Uses SessionPacket B o) (h : env d o r d') (hd : Within c R d) :
    Within c R d' := by
  obtain ⟨c', waiting⟩ := d
  have hidle : Within c R ⟨c', .command⟩ := .idle hd.flash hd.saves
  have hanswer : ∀ command done, Within c R ⟨c', .answer command done⟩ :=
    fun _ _ => ⟨hd.flash, hd.saves, fun _ h => by cases h⟩
  have hcommand : ∀ {data : Bytes}, SessionPacket data →
      (if data.getD 2 0 = 0x92 then d' = ⟨c', .payload data⟩
        else if data.getD 2 0 = 0x96 then
          d' = ⟨c'.erase (readLe32 data 4).toNat, .answer data true⟩ ∨ d' = ⟨c', .answer data false⟩
        else d' = ⟨c', .command⟩) → Within c R d' := by
    intro data hdata h
    obtain ⟨h96, hmild⟩ := hdata.mild
    by_cases h92 : data.getD 2 0 = 0x92
    · rw [if_pos h92] at h
      subst h
      refine ⟨hd.flash, hd.saves, fun command hwaiting => ?_⟩
      cases hwaiting
      exact ⟨(hmild h92).1, fun hsub => absurd hsub (hmild h92).2⟩
    · rw [if_neg h92, if_neg h96] at h
      exact h ▸ hidle
  cases o with
  | out data =>
    obtain h | ⟨_, rfl⟩ := h
    · cases waiting with
      | command => exact hcommand ho h
      | answer command done => exact hcommand ho h
      | payload command =>
        obtain rfl | rfl := h
        · exact hd.carryOut fun _ h => by cases h
        · exact hanswer command false
    · exact hd
  | inExact wanted => exact h.1 ▸ hidle
  | inMax maximum => exact h.1 ▸ hidle
  | selectBank bankValue => exact (show d' = ⟨c', waiting⟩ from h) ▸ hd

/-- What a session sends keeps all that. -/
theorem Within.wp {ε α : Type} {Q : Except ε α → Prop} {p : Usb ε α}
    (h : Always (Transport.Uses SessionPacket B) Q p) (hd : Within c R d) :
    Wp env anything p (fun out d => Q out ∧ Within c R d) d :=
  h.wp (fun _ _ _ _ => trivial) Within.step hd

theorem Within.wp_tool {α : Type} {p : Tool α} (h : Always (InSession B) Anyhow p)
    (hd : Within c R d) : Wp Device.tool (fun _ _ => True) p (fun _ d => Within c R d) d := by
  refine wp_mono (h.wp (I := Within c R) (fun _ _ _ _ => trivial) ?_ hd) fun _ _ h => h.2
  intro d o r d' ho hstep hd
  cases o with
  | usb o => exact hd.step ho hstep
  | _ => exact (show d' = d from hstep) ▸ hd

end Within

/-! ## A save is written -/

section Store

variable {ε : Type} {c c' : Cartridge} {R : UInt16 → Prop} {first : UInt16} {count : Nat}
  {save : Bytes}

theorem Within.selected {v : UInt16} (hc : Within c R ⟨c', .command⟩) :
    Within c R ⟨selected c' v, .command⟩ := by
  refine .idle (mem_sendAll.trans hc.flash) fun v' hv => ?_
  rw [WorkingCartridge.selected, saves_two (selection_two v)]
  exact hc.saves v' hv

theorem Within.writeBank {bank : UInt16 × Bytes} (hc : Within c R ⟨c', .command⟩) (hR : R bank.1)
    (hproven : ProvenBank bank.1) : Within c R ⟨c'.writeBank bank, .command⟩ := by
  refine .idle (Eq.trans mem_sendAll hc.flash) fun v hv => ?_
  rw [← hc.saves v hv]
  funext i
  rw [saves_writeBank hproven, if_neg]
  rintro ⟨rfl, _⟩
  exact hv hR

theorem attempts_selectBank {v : UInt16} (hc : Within c R ⟨c', .command⟩) :
    Attempts env (Within c R) (· = ⟨c', .command⟩) (SaveBankAccess.select v : Usb ε Bool)
      (· = ⟨selected c' v, .command⟩) := by
  rintro _ rfl
  have hsession : Always (Transport.Uses SessionPacket fun _ => True) Returns
      (SaveBankAccess.select v : Usb ε Bool) := always_selectBank session_selects trivial
  refine wp_mono (wp_and (Within.wp hsession hc) wp_selectBank) fun out d h => ?_
  obtain ⟨⟨_, hwithin⟩, hout⟩ := h
  cases out with
  | ok selected => exact ⟨hout.2, fun _ => hwithin⟩
  | error e => exact hout

/-- A bank in `R` is overwritten, or the write stops within `R`. -/
theorem attempts_writeSaveBank {bank : UInt16 × Bytes} (hc : Within c R ⟨c', .command⟩)
    (hR : R bank.1) (hproven : ProvenBank bank.1) :
    Attempts env (Within c R) (· = ⟨c', .command⟩)
      (both (SaveBankAccess.select bank.1) (commandDataEcho saveWriteCommand bank.2) : Usb ε Bool)
      (· = ⟨c'.writeBank bank, .command⟩) := by
  have hselected : Within c R ⟨selected c' bank.1, .command⟩ := hc.selected
  have hbank : (selected c' bank.1).bank = bank.1 := bank_selection hproven
  have hpending : Within c R ⟨selected c' bank.1, .payload saveWriteCommand⟩ := by
    refine ⟨hselected.flash, hselected.saves, fun command hwaiting => ?_⟩
    cases hwaiting
    exact ⟨by decide, fun _ => hbank.symm ▸ hR⟩
  refine (attempts_selectBank hc).both (attempts_transaction rfl ⟨rfl, rfl, rfl⟩ fun d hd => ?_)
  obtain ⟨stopped, waiting⟩ := d
  obtain ⟨hcartridge, hwaits⟩ := hd
  have hwritten : Within c R ⟨(selected c' bank.1).carryOut saveWriteCommand bank.2, .command⟩ :=
    hc.writeBank hR hproven
  obtain rfl | rfl := hcartridge
  · exact ⟨hselected.flash, hselected.saves, fun command hwaiting =>
      hpending.pending command (congrArg Waiting.payload (hwaits command hwaiting).2.symm)⟩
  · refine ⟨hwritten.flash, hwritten.saves, fun command hwaiting => ?_⟩
    obtain ⟨hsame, hcommand⟩ := hwaits command hwaiting
    have hsame : (selected c' bank.1).carryOut saveWriteCommand bank.2 = selected c' bank.1 := hsame
    rw [hsame]
    exact hpending.pending command (congrArg Waiting.payload hcommand.symm)

/-- A save is written completely, or the write stops within its range. -/
theorem attempts_writeSave (hrange : BankRange first count) (hlen : save.length = count * bankSize)
    (hc : Within c (InBanks first count) ⟨c', .command⟩) :
    Attempts env (Within c (InBanks first count)) (· = ⟨c', .command⟩)
      (SaveMemoryWriter.write first save : Usb ε Bool)
      (fun d => d = ⟨(saveBanks first save).foldl Cartridge.writeBank c', .command⟩ ∧
        Within c (InBanks first count) d) := by
  let I (c' : Cartridge) (d : Device) : Prop :=
    d = ⟨c', .command⟩ ∧ Within c (InBanks first count) d
  have hsize : SaveMemoryReader.Complete save.length := hlen ▸ hrange.complete
  rw [SaveMemoryWriter.write_eq, if_pos hsize]
  have hall : Attempts env (Within c (InBanks first count)) (I c')
      (allOf ((saveBanks first save).map fun bank =>
        SaveMemoryWriter.write32KiB bank.1 bank.2) : Usb ε Bool)
      (I ((saveBanks first save).foldl Cartridge.writeBank c')) := by
    refine Attempts.allOf_map (fun bank hbank c' => ?_) c'
    rintro d ⟨rfl, hwithin⟩
    obtain ⟨j, hj⟩ := List.mem_iff_getElem?.mp hbank
    have hname : InBanks first count bank.1 := ⟨j, name_saveBanks hlen hj⟩
    have hproven := proven_saveBanks hrange hlen bank hbank
    rw [SaveMemoryWriter.write32KiB_of_length (length_saveBanks hsize bank hbank)]
    refine (attempts_writeSaveBank hwithin hname hproven).mono (fun d hd => ?_) _ rfl
    subst hd
    exact ⟨rfl, hwithin.writeBank hname hproven⟩
  exact hall.pre fun d hd => by subst hd; exact ⟨rfl, hc⟩

end Store

/-! ## Between two commands -/

section Idle

variable {ε : Type} {d : Device} {firstBank : UInt16} {count index : Nat}

theorem wp_always {α : Type} {A : Transport.Op → Prop} {p : Usb ε α} (h : Always A Returns p) :
    Wp env anything p (Gives fun _ _ => True) d := by
  refine wp_mono (h.wp (I := fun _ => True) (fun _ _ _ _ => trivial) (fun _ _ _ => trivial) trivial)
    fun out d' hout => ?_
  cases out with
  | ok a => trivial
  | error e => exact hout.1

/-- Behind an answer the device waits for a command. -/
theorem idle_inExact {wanted : Nat} :
    Wp env anything (inExact wanted : Usb ε (Option Bytes)) (Gives fun _ d => d.Idle) d :=
  wp_ask trivial fun _ d' h => (show d' = ⟨d.cartridge, .command⟩ from h.1) ▸ rfl

theorem idle_pollReady :
    Wp env anything (ReadSessionTransition.pollReady : Usb ε Bool)
      (Gives fun ok d => ok = true → d.Idle) d := by
  refine wp_bind (wp_always (always_out (A := fun _ => True) trivial)) fun sent d1 _ => ?_
  cases sent with
  | false => exact fun h => by cases h
  | true =>
    refine wp_bind idle_inExact fun response d2 hidle => ?_
    cases response with
    | none => exact fun h => by cases h
    | some response => exact fun _ => hidle

theorem idle_finishSession :
    Wp env anything (ReadOnlyCartridge.finishSession : Usb ε Bool)
      (Gives fun ok d => ok = true → d.Idle) d := by
  have hno : ∀ d : Device, (false = true → d.Idle) := fun d h => by cases h
  refine wp_both idle_pollReady (fun d1 _ => ?_) fun d1 _ => hno d1
  refine wp_both idle_pollReady (fun d2 _ => ?_) fun d2 _ => hno d2
  exact wp_both idle_pollReady (fun d3 h => fun _ => h rfl) fun d3 _ => hno d3

theorem idle_readBank {bankValue : UInt16} :
    Wp env anything (SaveMemoryReader.readBank32KiB bankValue : Usb ε (Option Bytes))
      (Gives fun bankData d => bankData.isSome → d.Idle) d := by
  have hselect : Always (Transport.Uses (fun _ => True) fun _ => True) Returns
      (SaveBankAccess.select bankValue : Usb ε Bool) :=
    always_selectBank ⟨trivial, fun _ _ => trivial⟩ trivial
  refine wp_bind (wp_always hselect) fun selected d1 _ => ?_
  cases selected with
  | false => exact fun h => by cases h
  | true =>
    refine wp_bind (wp_always (always_out (A := fun _ => True) trivial)) fun sent d2 _ => ?_
    cases sent with
    | false => exact fun h => by cases h
    | true => exact wp_gives_mono idle_inExact fun _ _ hidle _ => hidle

theorem idle_readBanks (hd : count = 0 → d.Idle) :
    Wp env anything (SaveMemoryReader.readBanks firstBank index count : Usb ε (Option Bytes))
      (Gives fun save d => save.isSome → d.Idle) d := by
  induction count generalizing index d with
  | zero => exact fun _ => hd rfl
  | succ count ih =>
    refine wp_bind idle_readBank fun bankData d1 hbank => ?_
    cases bankData with
    | none => exact fun h => by cases h
    | some bankData =>
      refine wp_bind (ih fun _ => hbank rfl) fun rest d2 hrest => ?_
      cases rest with
      | none => exact fun h => by cases h
      | some rest => exact fun _ => hrest rfl

theorem idle_readSave {saveSize : Nat} :
    Wp env anything (SaveMemoryReader.read saveSize firstBank)
      (fun out d => ∀ save, out = .ok (some save) → d.Idle) d := by
  by_cases hsize : SaveMemoryReader.Complete saveSize
  · rw [SaveMemoryReader.read, if_neg (not_not_intro hsize)]
    have hcount : saveSize / bankSize ≠ 0 := by
      obtain ⟨hpos, _, hmod⟩ := hsize
      rw [bankSize] at hmod ⊢
      omega
    refine wp_bind (idle_readBanks fun h => absurd h hcount) fun save d1 hsave => ?_
    cases save with
    | none =>
      rintro save ⟨⟩
    | some save => exact fun _ _ => hsave rfl
  · rw [SaveMemoryReader.read, if_pos hsize]
    rintro save ⟨⟩

end Idle

/-! ## In a tool -/

section Tool

variable {α : Type} {c : Cartridge} {d : Device} {first : UInt16} {count : Nat} {save : Bytes}
  {post : Except StdException Int → Device → Prop}

theorem wp_transport {p : Usb StdException α} {Q : Except StdException α → Device → Prop}
    (h : Wp env anything p Q d) : Wp Device.tool (fun _ _ => True) (usb p) Q d := by
  induction p generalizing d with
  | pure a => exact h
  | throw e => exact h
  | op o k ih => exact And.intro trivial fun r d' step => ih r (h.2 r d' step)

/-- Nothing has changed outside a range, and 0 means that the range holds the save and that nothing
is waited for which could change it again. -/
def Stores (c : Cartridge) (first : UInt16) (count : Nat) (save : Bytes)
    (out : Except StdException Int) (d : Device) : Prop :=
  Within c (InBanks first count) d ∧
    (out = .ok 0 → ∃ c', HoldsSave first save c' ∧ Untouched c' d)

/-- The write of a save, with a rest that only reads. -/
theorem wp_store {f : Bool → Tool Int} {status : Int} (hrange : BankRange first count)
    (hlen : save.length = count * bankSize) (hd : Untouched c d) (hidle : d.Idle)
    (hstatus : status ≠ 0) (hfailed : f false = .pure status)
    (hwritten : Always (InSession fun _ => True) Anyhow (f true)) :
    Wp Device.tool (fun _ _ => True) (usb (SaveMemoryWriter.write first save) >>= f)
      (Stores c first count save) d := by
  obtain ⟨c1, waiting⟩ := d
  obtain rfl : waiting = .command := hidle
  refine wp_bind (wp_transport (attempts_writeSave hrange hlen hd.widen _ rfl)) fun ok d h => ?_
  cases ok with
  | false =>
    rw [hfailed]
    exact ⟨h.2 rfl, fun h => absurd (Except.ok.inj h) hstatus⟩
  | true =>
    obtain ⟨rfl, hwithin⟩ := h.1 rfl
    have hstored : HoldsSave first save ((saveBanks first save).foldl Cartridge.writeBank c1) :=
      fun bank hbank => contents_writeBanks hrange hlen hbank
    refine wp_mono (Within.wp_tool hwritten Within.start) fun out d' hd' => ?_
    exact ⟨hwithin.trans hd', fun _ => ⟨_, hstored, hd'⟩⟩

/-- A backup is none of the cartridge's business. -/
theorem wp_backup {path : Option Bytes} {f : Bool → Tool Int}
    (h : ∀ ok, Wp Device.tool (fun _ _ => True) (f ok) post d) :
    Wp Device.tool (fun _ _ => True) (backup path save >>= f) post d := by
  cases path with
  | none => exact h true
  | some path =>
    refine And.intro trivial fun ok d' hd' => ?_
    obtain rfl : d' = d := hd'
    exact h ok

/-- Nothing has changed, and 0 is given only if no change was asked for; or a wanted save was stored,
at least in part. -/
def Outcome (c : Cartridge) (Asked : Prop) (Wanted : UInt16 → Nat → Bytes → Prop)
    (out : Except StdException Int) (d : Device) : Prop :=
  Untouched c d ∧ (out = .ok 0 → ¬ Asked) ∨
    ∃ first count save, Wanted first count save ∧ Stores c first count save out d

variable {Asked : Prop} {Wanted : UInt16 → Nat → Bytes → Prop}

theorem Outcome.failed {status : Int} (hstatus : status ≠ 0) (hd : Untouched c d) :
    Outcome c Asked Wanted (.ok status) d :=
  .inl ⟨hd, fun h => absurd (Except.ok.inj h) hstatus⟩

theorem Outcome.thrown {e : StdException} (hd : Untouched c d) :
    Outcome c Asked Wanted (.error e) d :=
  .inl ⟨hd, fun h => by cases h⟩

/-- A session that only reads, in front of the rest. -/
theorem wp_session {p : Tool α} {f : α → Tool Int} (hp : Always (InSession fun _ => True) Anyhow p)
    (hd : Untouched c d) (hf : ∀ a d', Untouched c d' →
      Wp Device.tool (fun _ _ => True) (f a) (Outcome c Asked Wanted) d') :
    Wp Device.tool (fun _ _ => True) (p >>= f) (Outcome c Asked Wanted) d :=
  wp_bind_anyhow (Within.wp_tool hp hd) hf fun _ _ hd' => .thrown hd'

/-- Transport code that only reads, with what is known about its end. -/
theorem wp_reading {p : Usb StdException α} {f : α → Tool Int}
    {Q : Except StdException α → Device → Prop}
    (hp : Always (InSession fun _ => True) Anyhow (usb p)) (hQ : Wp env anything p Q d)
    (hd : Untouched c d) (hf : ∀ a d', Untouched c d' → Q (.ok a) d' →
      Wp Device.tool (fun _ _ => True) (f a) (Outcome c Asked Wanted) d') :
    Wp Device.tool (fun _ _ => True) (usb p >>= f) (Outcome c Asked Wanted) d := by
  refine wp_bind_anyhow (wp_and (Within.wp_tool hp hd) (wp_transport hQ)) ?_ ?_
  · exact fun a d' h => hf a d' h.1 h.2
  · exact fun e d' h => .thrown h.1

/-- Where nothing is to be changed, and nothing but reading is done. -/
theorem wp_asksNothing {p : Tool Int} (hp : Always (InSession fun _ => True) Anyhow p)
    (hasked : ¬ Asked) (hd : Untouched c d) :
    Wp Device.tool (fun _ _ => True) p (Outcome c Asked Wanted) d :=
  wp_mono (Within.wp_tool hp hd) fun _ _ h => .inl ⟨h, fun _ => hasked⟩

/-! ### The workflows -/

theorem session_readBack {size : Nat} {first : UInt16} {failed : Int} {judge : Bytes → Int} :
    Always (InSession fun _ => True) Anyhow
      (usb (SaveMemoryReader.read size first) >>= fun verification =>
        match verification with
        | none => (.pure failed : Tool Int)
        | some verification => .pure (judge verification)) := by
  refine (session_readSave fun _ _ _ => trivial).andThen fun verification => ?_
  cases verification with
  | none => trivial
  | some verification => trivial

theorem wp_direct {w : DirectSaveBankWorkflow} (hrange : BankRange w.firstBank.value w.bankCount)
    (hread : w.input = none → ¬ Asked)
    (hwrite : ∀ input, w.input = some input → input.length = w.bankCount * bankSize →
      Wanted w.firstBank.value w.bankCount input) (hd : Untouched c d) :
    Wp Device.tool (fun _ _ => True) w.run (Outcome c Asked Wanted) d := by
  refine wp_reading (session_readSave fun _ _ _ => trivial) idle_readSave hd
    fun current d1 hd1 hidle => ?_
  cases current with
  | none => exact .failed (by decide) hd1
  | some current =>
    dsimp only
    cases hinput : w.input with
    | none =>
      refine wp_asksNothing ?_ (hread hinput) hd1
      refine And.intro trivial fun written => ?_
      cases written with
      | false => trivial
      | true => trivial
    | some input =>
      show Wp _ _ (DirectSaveBankWorkflow.write w input current (rangeSize w.bankCount)) _ _
      rw [DirectSaveBankWorkflow.write]
      split
      · exact .failed (by decide) hd1
      case isFalse hlen =>
        rw [not_not, rangeSize_range hrange] at hlen
        refine wp_backup fun saved => ?_
        cases saved with
        | false => exact .failed (by decide) hd1
        | true =>
          refine wp_mono (wp_store hrange hlen hd1 (hidle current rfl) (by decide : (2 : Int) ≠ 0) rfl
            session_readBack) fun out d h => ?_
          exact .inr ⟨_, _, _, hwrite input hinput hlen, h⟩

theorem wp_clear {w : SaveBankEraseWorkflow} (hrange : BankRange w.firstSelector w.bankCount)
    (hwanted : Wanted w.firstSelector w.bankCount (List.replicate (w.bankCount * bankSize) 0x00))
    (hd : Untouched c d) (hidle : d.Idle) :
    Wp Device.tool (fun _ _ => True) (w.clear (rangeSize w.bankCount)) (Outcome c Asked Wanted) d := by
  rw [SaveBankEraseWorkflow.clear, clearRange_eq_write hrange]
  refine wp_mono (wp_store hrange List.length_replicate hd hidle (by decide : (2 : Int) ≠ 0) rfl
    session_readBack) fun out d h => ?_
  exact .inr ⟨_, _, _, hwanted, h⟩

theorem wp_erase {w : SaveBankEraseWorkflow} (hrange : BankRange w.firstSelector w.bankCount)
    (hwanted : Wanted w.firstSelector w.bankCount (List.replicate (w.bankCount * bankSize) 0x00))
    (hd : Untouched c d) (hidle : d.Idle) :
    Wp Device.tool (fun _ _ => True) w.run (Outcome c Asked Wanted) d := by
  rw [SaveBankEraseWorkflow.run]
  cases w.backupPath with
  | none => exact wp_clear hrange hwanted hd hidle
  | some path =>
    refine wp_reading (session_readSave fun _ _ _ => trivial) idle_readSave hd
      fun current d1 hd1 hidle => ?_
    cases current with
    | none => exact .failed (by decide) hd1
    | some current =>
      refine @wp_backup _ _ _ (some path) _ fun saved => ?_
      cases saved with
      | false => exact .failed (by decide) hd1
      | true => exact wp_clear hrange hwanted hd1 (hidle current rfl)

/-- What was stored stays stored while only reading goes on. -/
theorem Outcome.wp_session {α : Type} {p : Tool α} {out : Except StdException Int}
    (hp : Always (InSession fun _ => True) Anyhow p) (h : Outcome c Asked Wanted out d) :
    Wp Device.tool (fun _ _ => True) p (fun _ d' => Outcome c Asked Wanted out d') d := by
  obtain ⟨hd, hasked⟩ | ⟨first, count, save, hwanted, hwithin, hdone⟩ := h
  · exact wp_mono (Within.wp_tool hp hd) fun _ _ h => .inl ⟨h, hasked⟩
  · by_cases hzero : out = .ok 0
    · obtain ⟨c', hstored, hkept⟩ := hdone hzero
      refine wp_mono (wp_and (Within.wp_tool hp hwithin) (Within.wp_tool hp hkept)) fun _ _ h => ?_
      exact .inr ⟨first, count, save, hwanted, h.1, fun _ => ⟨c', hstored, h.2⟩⟩
    · refine wp_mono (Within.wp_tool hp hwithin) fun _ _ h => ?_
      exact .inr ⟨first, count, save, hwanted, h, fun hout => absurd hout hzero⟩

theorem Outcome.worse {out out' : Except StdException Int} (h : Outcome c Asked Wanted out d)
    (hout : out' = .ok 0 → out = .ok 0) : Outcome c Asked Wanted out' d := by
  obtain ⟨hd, hasked⟩ | ⟨first, count, save, hwanted, hwithin, hdone⟩ := h
  · exact .inl ⟨hd, fun h => hasked (hout h)⟩
  · exact .inr ⟨first, count, save, hwanted, hwithin, fun h => hdone (hout h)⟩

namespace CatalogSaveWorkflow

variable {request : CatalogSaveRequest} {plan : SaveAccessPlan} {roms : List SaveCatalogRom}

theorem session_dump {save : Bytes} :
    Always (InSession fun _ => True) Anyhow (dump request plan roms save) := by
  rw [dump]
  cases SaveOutputPath.resolve request.outputPath plan.selectedRom plan.selector roms with
  | error e => trivial
  | ok output =>
    refine And.intro trivial fun written => ?_
    cases written with
    | false => trivial
    | true => trivial

theorem wp_write {input save : Bytes} (hrange : BankRange plan.selector count)
    (hsize : plan.accessSize = count * bankSize)
    (hwanted : input.length = count * bankSize → Wanted plan.selector count input)
    (hd : Untouched c d) :
    Wp Device.tool (fun _ _ => True) (write request plan input save) (Outcome c Asked Wanted) d := by
  rw [write]
  split
  · exact .failed (by decide) hd
  case isFalse hlen =>
    rw [not_not, hsize] at hlen
    refine wp_backup fun saved => ?_
    cases saved with
    | false => exact .failed (by decide) hd
    | true =>
      refine wp_reading session_finishSession idle_finishSession hd fun ready d1 hd1 hidle => ?_
      cases ready with
      | false => exact .failed (by decide) hd1
      | true =>
        refine wp_mono (wp_store hrange hlen hd1 (hidle rfl) (by decide : (2 : Int) ≠ 0) rfl ?_)
          fun out d h => .inr ⟨_, _, _, hwanted hlen, h⟩
        refine session_finishSession.andThen fun ready => ?_
        cases ready with
        | false => trivial
        | true => exact session_readBack

/-- What a selected plan has to meet. -/
def Fits (request : CatalogSaveRequest) (Wanted : UInt16 → Nat → Bytes → Prop)
    (plan : SaveAccessPlan) : Prop :=
  ∃ count, BankRange plan.selector count ∧ plan.accessSize = count * bankSize ∧
    ∀ input, request.input = some input → input.length = count * bankSize →
      Wanted plan.selector count input

theorem wp_access (hfits : Fits request Wanted plan) (hread : request.input = none → ¬ Asked)
    (hd : Untouched c d) :
    Wp Device.tool (fun _ _ => True) (access request plan roms) (Outcome c Asked Wanted) d := by
  obtain ⟨count, hrange, hsize, hwanted⟩ := hfits
  refine Ezfadvance.wp_session (session_readSave fun _ _ _ => trivial) hd fun save d1 hd1 => ?_
  cases save with
  | none => exact .failed (by decide) hd1
  | some save =>
    dsimp only
    cases hinput : request.input with
    | none => exact wp_asksNothing session_dump (hread hinput) hd1
    | some input => exact wp_write hrange hsize (hwanted input hinput) hd1

theorem checkCatalog_ne_zero {catalog : Ez3CatalogLayout} {status : Int}
    (h : checkCatalog request catalog = some status) : status ≠ 0 := by
  rw [checkCatalog] at h
  split at h
  · cases h
    decide
  · split at h
    · cases h
      decide
    · cases h

theorem wp_run (hfits : ∀ roms, (planFor request roms).status = .selected →
      Fits request Wanted (planFor request roms)) (hread : request.input = none → ¬ Asked)
    (hd : Untouched c d) :
    Wp Device.tool (fun _ _ => True) (run request) (Outcome c Asked Wanted) d := by
  refine Ezfadvance.wp_session session_readCatalog hd fun discovery d1 hd1 => ?_
  split
  · exact .failed (by decide) hd1
  case h_2 catalog _ _ =>
    split
    case h_1 status hchecked => exact .failed (checkCatalog_ne_zero hchecked) hd1
    case h_2 =>
      refine Ezfadvance.wp_session SaveCatalogAnalyzer.session_analyze hd1 fun analysis d2 hd2 => ?_
      cases analysis.mappingPrepared with
      | false => exact .failed (by decide) hd2
      | true =>
        show Wp _ _ (if (planFor request analysis.roms).status ≠ .selected then _ else _) _ _
        split
        · exact .failed (refusal_ne_zero _) hd2
        case isFalse hselected =>
          exact wp_access (hfits analysis.roms (not_not.mp hselected)) hread hd2
  · exact .failed (by decide) hd1

end CatalogSaveWorkflow

end Tool

/-! ## The application -/

/-- With a ROM number, `--save-bank` decides where the plan begins. -/
theorem plan_selector {request : SaveAccessRequest} {markers : List Bytes} {bank : SaveBankSelector}
    (hbank : request.explicitBank = some bank)
    (h : (SaveAccessPlanner.plan request markers).status = .selected) :
    (SaveAccessPlanner.plan request markers).selector = bank.value := by
  obtain ⟨romNumber, explicitBank, count, writeSize⟩ := request
  obtain rfl : explicitBank = some bank := hbank
  cases romNumber with
  | none =>
    obtain ⟨accessSize, _, hplan⟩ := @plan_direct bank count writeSize markers
    rw [hplan]
  | some rom =>
    simp only [SaveAccessPlanner.plan, isDirectSaveBankAccess, Option.isNone_some, Bool.and_false]
      at h ⊢
    generalize selectSaveRom markers.length (supportedRoms markers) (some rom) = selection at h ⊢
    cases hstatus : selection.status <;> simp only [hstatus] at h ⊢ <;> try cases h
    cases hsize : markers[selection.index]?.bind supportedSaveSizeForMarker with
    | none => simp [hsize] at h
    | some size =>
      simp only [hsize] at h ⊢
      split
      · rfl
      · rfl

namespace SaveReader

variable {files : Bytes → Option Bytes} {options : SaveReaderOptions} {c : Cartridge} {d : Device}
  {writeSave : Option Bytes}

theorem wp_eraseWorkflow (haccepted : AcceptedOptions options) (herase : options.erase = true)
    (hd : Untouched c d) (hidle : d.Idle) :
    Wp Device.tool (fun _ _ => True) (eraseWorkflow options).run
      (Outcome c (Changes options) (Requested files options)) d :=
  have hwanted := @requested_erase files options haccepted herase
  wp_erase hwanted.range hwanted hd hidle

theorem wp_directWorkflow {bank : SaveBankSelector} (haccepted : AcceptedOptions options)
    (herase : options.erase = false) (hbank : options.saveBank = some bank)
    (hrom : options.romNumber = none) (hload : loadInput files options = some writeSave)
    (hshort : ¬ Overlong files options) (hd : Untouched c d) :
    Wp Device.tool (fun _ _ => True) (directWorkflow options bank writeSave).run
      (Outcome c (Changes options) (Requested files options)) d := by
  obtain ⟨hpos, hfour, hle⟩ := direct_range haccepted hbank hrom hload hshort
  obtain ⟨hnone, hsome⟩ := written_of_load hload
  have hrange := bankRange_of_le hpos hfour hle
  refine wp_direct hrange ?_ ?_ hd
  · rintro hinput (hno | hno)
    · rw [herase] at hno
      cases hno
    · exact hno (hnone hinput)
  · exact fun input hinput hlen => requested_write hrange hlen herase hbank (hsome input hinput)

theorem wp_catalogAccess (herase : options.erase = false)
    (hcatalog : isDirectSaveBankAccess options.romNumber options.saveBank.isSome = false)
    (hload : loadInput files options = some writeSave) (hd : Untouched c d) :
    Wp Device.tool (fun _ _ => True) (catalogAccess (catalogRequest options writeSave))
      (Outcome c (Changes options) (Requested files options)) d := by
  obtain ⟨hnone, hsome⟩ := written_of_load hload
  have hread : (catalogRequest options writeSave).input = none → ¬ Changes options := by
    rintro hinput (hno | hno)
    · rw [herase] at hno
      cases hno
    · exact hno (hnone hinput)
  have hfits : ∀ roms, (CatalogSaveWorkflow.planFor (catalogRequest options writeSave) roms).status =
      .selected → CatalogSaveWorkflow.Fits (catalogRequest options writeSave)
        (Requested files options)
        (CatalogSaveWorkflow.planFor (catalogRequest options writeSave) roms) := by
    intro roms hselected
    obtain ⟨hproven, count, hpos, hfour, hsize, hle⟩ := plan_within hcatalog hselected
    have hrange := @bankRange_of_le ⟨_, hproven⟩ count hpos hfour hle
    refine ⟨count, hrange, hsize, fun input hinput hlen => ?_⟩
    refine ⟨hrange, hlen, fun bank hbank => plan_selector hbank hselected, fun hno => ?_,
      fun _ => hsome input hinput⟩
    rw [herase] at hno
    cases hno
  refine wp_session session_initializeCartridge hd fun initialized d1 hd1 => ?_
  refine wp_session (always_load trivial) hd1 fun cartridge d2 hd2 => ?_
  show Wp _ _ (if initialized ∧ cartridge.kind = .ez3Flash then _ else _) _ _
  split
  · refine wp_bind_anyhow (CatalogSaveWorkflow.wp_run hfits hread hd2) ?_ fun e d3 hd3 => hd3
    intro result d3 hd3
    refine wp_bind_anyhow (hd3.wp_session session_finishSession) ?_
      fun e d4 hd4 => hd4.worse fun h => by cases h
    intro closed d4 hd4
    refine hd4.worse fun hzero => ?_
    split at hzero
    · cases hzero
    · exact hzero
  · split
    · exact wp_session session_finishSession hd2 fun _ d3 hd3 => .failed (by decide) hd3
    · exact .failed (by decide) hd2

theorem wp_access (haccepted : AcceptedOptions options)
    (hload : loadInput files options = some writeSave) (hshort : ¬ Overlong files options)
    (hd : Untouched c d) (hidle : d.Idle) :
    Wp Device.tool (fun _ _ => True) (access options writeSave)
      (Outcome c (Changes options) (Requested files options)) d := by
  rw [access]
  split
  case isTrue herase => exact wp_eraseWorkflow haccepted herase hd hidle
  case isFalse herase =>
    rw [Bool.not_eq_true] at herase
    split
    case h_1 bank hbank hrom =>
      exact wp_directWorkflow haccepted herase hbank hrom hload hshort hd
    case h_2 hcatalog =>
      refine wp_catalogAccess herase ?_ hload hd
      rw [isDirectSaveBankAccess]
      cases hbank : options.saveBank with
      | none => rfl
      | some bank =>
        cases hrom : options.romNumber with
        | none => exact absurd hrom (hcatalog bank hbank)
        | some rom => rfl

theorem wp_run {host : Host} {arguments : List Bytes}
    (hparse : parseSaveReaderOptions arguments = .run options)
    (hshort : ¬ Overlong host.files options) (hd : Untouched c d) (hidle : d.Idle) :
    Wp Device.tool (fun _ _ => True) (run host arguments)
      (Outcome c (Changes options) (Requested host.files options)) d := by
  have haccepted := accepted_options hparse fun n hn => by cases hn
  have hversion : arguments ≠ [ascii "--version"] := by
    rintro rfl
    cases hparse
  rw [run, if_neg hversion]
  simp only [hparse]
  cases hload : loadInput host.files options with
  | none => exact .failed (by decide) hd
  | some writeSave =>
    dsimp only
    split
    · exact .failed (by decide) hd
    · split
      · exact .failed (by decide) hd
      · exact wp_access haccepted hload hshort hd hidle

end SaveReader

end Ezfadvance
