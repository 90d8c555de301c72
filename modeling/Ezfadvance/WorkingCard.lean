import Ezfadvance.ReadBack
import Ezfadvance.SaveRoundTrip

/-!
# WorkingCard

The card reader on an EZ3 card that works: every transfer succeeds, and the card shows what lies below
the mapping that has been set up, and `FF` above it.

* `CardSlot`: such a card behind its transport, and `Workstation`: the tool's fields and the files too.
* `CardSlot.shows`: the card shows its bytes in the sense of `Shows`.
* `completes_run`, `wp_runCardReader`: the session never fails.
* `reads_working_card`: the exit status and the files are those of the outcome of the card.
-/

namespace Ezfadvance

open Interact Interact.Program CartridgeFormat ReadOnlyCartridge ReadSessionTransition Tool Protocol
open Usb

structure CardSlot where
  /-- How far the mappings reach that have been set up. -/
  mapped : UInt32
  /-- The two-byte transfers so far, the latest first. -/
  control : List (UInt8 × UInt8)
  due : Due

namespace CardSlot

def pairOf : Tx → Option (UInt8 × UInt8)
  | .two first second => some (first, second)
  | .one _ _ => none

/-- The transfers of a mapping sequence, the latest first. -/
def mappingPairs (selection : List Tx) : List (UInt8 × UInt8) :=
  (mappingTransfers selection).reverse.filterMap pairOf

/-- A mapping whose sequence is complete now reaches at least as far as it says. -/
def extend (control : List (UInt8 × UInt8)) (mapped : UInt32) (mapping : UInt32 × List Tx) : UInt32 :=
  if (mappingPairs mapping.2).isPrefixOf control then max mapped mapping.1 else mapped

def latched (mapped : UInt32) (control : List (UInt8 × UInt8)) : UInt32 :=
  mappings.foldl (extend control) mapped

def controlTransfer (s : CardSlot) (first second : UInt8) : CardSlot :=
  { s with
    mapped := latched s.mapped ((first, second) :: s.control)
    control := (first, second) :: s.control }

/-- What the card shows at an address. -/
def visible (card : Nat → UInt8) (s : CardSlot) (a : Nat) : UInt8 :=
  if a < 0x00800000 ∨ a < s.mapped.toNat then card a else 0xFF

def flashId : Bytes := [0x1C, 0x00, 0xB8, 0x00]

/-- A packet that is no payload. -/
def obey (card : Nat → UInt8) (s : CardSlot) (data : Bytes) : CardSlot :=
  if data.getD 2 0 = 0x92 then { s with due := .payload data }
  else if data.getD 2 0 = 0x97 then { s with due := .data [0x00] }
  else if data.getD 2 0 = 0x98 then { s with due := .data [0x01] }
  else if data.getD 2 0 = 0x99 ∨ data.getD 2 0 = 0x95 then { s with due := .data data }
  else if data.getD 2 0 = 0x91 ∧ data.getD 3 0 = 0x02 then { s with due := .data flashId }
  else if data.getD 2 0 = 0x91 ∧ data.getD 3 0 = 0x00 then
    { s with due := .data (readCard (s.visible card) (2 * (readLe32 data 4).toNat)
        (readLe32 data 8).toNat) }
  else { s with due := .command }

/-- The payload of a command; only the two-byte control transfers have an effect here. -/
def carryOut (s : CardSlot) (command payload : Bytes) : CardSlot :=
  if command.getD 3 0 = 0x02 then s.controlTransfer (payload.getD 0 0) (payload.getD 1 0) else s

def receive (card : Nat → UInt8) (s : CardSlot) (data : Bytes) : CardSlot :=
  match s.due with
  | .payload command => { s.carryOut command data with due := .echo command }
  | _ => s.obey card data

def step (card : Nat → UInt8) (s : CardSlot) : (o : Transport.Op) → Transport.Reply o × CardSlot
  | .out data => (true, s.receive card data)
  | .inMax maximum =>
    match s.due with
    | .echo command =>
      (if command.length ≤ maximum then some command else none, { s with due := .command })
    | _ => (none, { s with due := .command })
  | .inExact wanted =>
    match s.due with
    | .data bytes =>
      (if bytes.length = wanted then some bytes else none, { s with due := .command })
    | _ => (none, { s with due := .command })
  | .selectBank _ => ((), s)

/-- An exact read gives as many bytes as it asked for, or none. -/
theorem legal_step {card : Nat → UInt8} (s : CardSlot) (o : Transport.Op) :
    Transport.Legal ⟨o, (s.step card o).1⟩ := by
  cases o with
  | inExact wanted =>
    rw [step]
    split
    · dsimp only
      split
      · assumption
      · trivial
    · trivial
  | _ => trivial

end CardSlot

structure Workstation where
  fields : ReadOnlyCartridge
  slot : CardSlot
  files : Bytes → Option Bytes

def Workstation.step (card : Nat → UInt8) (s : Workstation) : (o : Tool.Op) → Tool.Reply o × Workstation
  | .usb o => ((s.slot.step card o).1, { s with slot := (s.slot.step card o).2 })
  | .load => (s.fields, s)
  | .store fields => ((), { s with fields := fields })
  | .write path data => (true, { s with files := Function.update s.files path (some data) })
  | .writeNew path data =>
    if (s.files path).isNone then
      (true, { s with files := Function.update s.files path (some data) })
    else (false, s)

/-! ## The card shows its bytes -/

namespace CardSlot

variable {card : Nat → UInt8} {s s' : CardSlot}

theorem le_extend {control : List (UInt8 × UInt8)} {mapped : UInt32} {mapping : UInt32 × List Tx} :
    mapped ≤ extend control mapped mapping := by
  rw [UInt32.le_iff_toNat_le, extend]
  split
  · rw [toNat_max]
    omega
  · exact Nat.le_refl _

theorem le_foldl_extend {control : List (UInt8 × UInt8)} {ms : List (UInt32 × List Tx)}
    {mapped : UInt32} :
    mapped ≤ ms.foldl (extend control) mapped ∧
      ∀ m ∈ ms, (mappingPairs m.2).isPrefixOf control = true →
        m.1 ≤ ms.foldl (extend control) mapped := by
  induction ms generalizing mapped with
  | nil => exact ⟨UInt32.le_refl _, by simp⟩
  | cons m ms ih =>
    obtain ⟨hle, hmem⟩ := @ih (extend control mapped m)
    refine ⟨UInt32.le_trans le_extend hle, List.forall_mem_cons.mpr ⟨fun hfront => ?_, hmem⟩⟩
    refine UInt32.le_trans ?_ hle
    rw [UInt32.le_iff_toNat_le, extend, if_pos hfront, toNat_max]
    omega

/-- What is mapped stays mapped. -/
theorem mapped_step (o : Transport.Op) : s.mapped ≤ (s.step card o).2.mapped := by
  have hobey : ∀ data, (s.obey card data).mapped = s.mapped := by
    intro data
    unfold obey
    split_ifs <;> rfl
  cases o with
  | out data =>
    show s.mapped ≤ (s.receive card data).mapped
    rw [receive]
    split
    · show s.mapped ≤ (s.carryOut _ data).mapped
      rw [carryOut]
      split
      · exact le_foldl_extend.1
      · exact UInt32.le_refl _
    · rw [hobey]
      exact UInt32.le_refl _
  | inMax maximum =>
    rw [step]
    split <;> exact UInt32.le_refl _
  | inExact wanted =>
    rw [step]
    split <;> exact UInt32.le_refl _
  | selectBank bankValue => exact UInt32.le_refl _

theorem mapped_mono {trace : List Transport.Event} (h : Path (deviceEnv (step card)) s trace s') :
    s.mapped ≤ s'.mapped := by
  induction h with
  | nil => exact UInt32.le_refl _
  | @cons s s1 s2 o r trace hstep _ ih =>
    have hle := @mapped_step card s o
    rw [show step card s o = (r, s1) from hstep] at hle
    exact UInt32.le_trans hle ih

/-- A two-byte transfer that is acknowledged has been taken as one. -/
theorem path_two {first second : UInt8}
    (h : Path (deviceEnv (step card)) s (Tx.two first second).exchange s') :
    s' = { s.controlTransfer first second with due := .command } := by
  simp only [Tx.exchange, exchange, path_cons_iff, path_nil_iff] at h
  obtain ⟨m1, h1, m2, h2, m3, h3, rfl⟩ := h
  obtain ⟨_, rfl⟩ := Prod.mk.inj h1
  obtain ⟨_, rfl⟩ := Prod.mk.inj h2
  obtain ⟨mapped, control, due⟩ := s
  cases due with
  | payload command => exact absurd (Prod.mk.inj h3).1 (by simp)
  | command => exact (Prod.mk.inj h3).2.symm
  | echo command => exact (Prod.mk.inj h3).2.symm
  | data bytes => exact (Prod.mk.inj h3).2.symm

/-- Acknowledged two-byte transfers are on record, the latest first, and may have set up a mapping. -/
theorem path_transfers {transfers : List Tx} (hne : transfers ≠ [])
    (htwo : ∀ tx ∈ transfers, ∃ first second, tx = .two first second)
    (h : Path (deviceEnv (step card)) s (transfers.flatMap Tx.exchange) s') :
    s'.control = transfers.reverse.filterMap pairOf ++ s.control ∧
      ∃ mapped, s'.mapped = latched mapped s'.control := by
  induction transfers generalizing s with
  | nil => exact absurd rfl hne
  | cons tx rest ih =>
    obtain ⟨⟨first, second, rfl⟩, hrest⟩ := List.forall_mem_cons.mp htwo
    rw [List.flatMap_cons, path_append_iff] at h
    obtain ⟨m, h1, h2⟩ := h
    obtain rfl := path_two h1
    cases rest with
    | nil =>
      obtain rfl := path_nil_iff.mp h2
      exact ⟨rfl, s.mapped, rfl⟩
    | cons tx2 rest =>
      obtain ⟨hcontrol, hmapped⟩ := ih (by simp) hrest h2
      have hrev : (Tx.two first second :: tx2 :: rest).reverse =
          (tx2 :: rest).reverse ++ [Tx.two first second] := List.reverse_cons
      refine ⟨?_, hmapped⟩
      rw [hcontrol, hrev, List.filterMap_append, List.append_assoc]
      rfl

theorem mapping_two {limit : UInt32} {selection : List Tx} (hmem : (limit, selection) ∈ mappings) :
    mappingTransfers selection ≠ [] ∧
      ∀ tx ∈ mappingTransfers selection, ∃ first second, tx = .two first second := by
  simp only [mappings, List.mem_cons, Prod.mk.injEq, List.not_mem_nil, or_false] at hmem
  obtain ⟨_, rfl⟩ | ⟨_, rfl⟩ | ⟨_, rfl⟩ := hmem
  all_goals simp [mappingTransfers, flashStatus, finishReadMapping, selection16MiB, selection24MiB,
    selection32MiB]

/-- A mapping that has been acknowledged is in force. -/
theorem path_mapping {limit : UInt32} {selection : List Tx}
    (hmem : (limit, selection) ∈ mappings)
    (h : Path (deviceEnv (step card)) s ((mappingTransfers selection).flatMap Tx.exchange) s') :
    limit ≤ s'.mapped := by
  obtain ⟨hne, htwo⟩ := mapping_two hmem
  obtain ⟨hcontrol, mapped, hmapped⟩ := path_transfers hne htwo h
  rw [hmapped]
  refine le_foldl_extend.2 _ hmem ?_
  rw [List.isPrefixOf_iff_prefix, hcontrol]
  exact List.prefix_append _ _

theorem obey_read {word length : UInt32} :
    s.obey card (command 0x91 0x00 word length 0x00) =
      { s with due := .data (readCard (s.visible card) (2 * word.toNat) length.toNat) } := by
  have hop : (command 0x91 0x00 word length 0x00).getD 2 0 = 0x91 := rfl
  have hsub : (command 0x91 0x00 word length 0x00).getD 3 0 = 0x00 := rfl
  rw [obey, hop, hsub, readLe32_command_word, readLe32_command_length]
  rfl

/-- A ROM read that is answered shows what is mapped. -/
theorem path_romRead {word length : UInt32} {data : Bytes}
    (h : Path (deviceEnv (step card)) s [⟨.out (command 0x91 0x00 word length 0x00), true⟩,
      ⟨.inExact length.toNat, some data⟩] s') :
    data = readCard (s.visible card) (2 * word.toNat) length.toNat := by
  simp only [path_cons_iff, path_nil_iff] at h
  obtain ⟨m1, h1, m2, h2, rfl⟩ := h
  obtain ⟨_, rfl⟩ := Prod.mk.inj h1
  obtain ⟨mapped, control, due⟩ := s
  have hanswer : ∀ {m : CardSlot}, m = obey card ⟨mapped, control, due⟩
      (command 0x91 0x00 word length 0x00) →
      step card m (.inExact length.toNat) = (some data, s') →
      data = readCard (visible card ⟨mapped, control, due⟩) (2 * word.toNat) length.toNat := by
    rintro m rfl hstep
    rw [obey_read] at hstep
    have hdata := (Prod.mk.inj hstep).1
    rw [length_readCard, if_pos rfl, Option.some.injEq] at hdata
    exact hdata.symm
  cases due with
  | payload command => exact absurd (Prod.mk.inj h2).1 (by simp)
  | command => exact hanswer rfl h2
  | echo command => exact hanswer rfl h2
  | data bytes => exact hanswer rfl h2

theorem visible_of_lt {a : Nat} (h : a < 0x00800000 ∨ a < s.mapped.toNat) :
    s.visible card a = card a :=
  if_pos h

end CardSlot

namespace Workstation

variable {card : Nat → UInt8} {s s' : Workstation}

theorem path_slot {t : List Transport.Event}
    (h : Path (deviceEnv (step card)) s (t.map event) s') :
    Path (deviceEnv (CardSlot.step card)) s.slot t s'.slot := by
  induction t generalizing s with
  | nil =>
    obtain rfl := path_nil_iff.mp h
    exact .nil
  | cons e t ih =>
    obtain ⟨o, r⟩ := e
    obtain ⟨m, hstep, hrest⟩ := path_cons_iff.mp h
    obtain ⟨hr, rfl⟩ := Prod.mk.inj hstep
    exact .cons (Prod.ext hr rfl) (ih hrest)

theorem mapped_mono {trace : List Tool.Event} (h : Path (deviceEnv (step card)) s trace s') :
    s.slot.mapped ≤ s'.slot.mapped := by
  induction h with
  | nil => exact UInt32.le_refl _
  | @cons s s1 s2 o r trace hstep _ ih =>
    refine UInt32.le_trans ?_ ih
    cases o with
    | usb o =>
      obtain ⟨_, rfl⟩ := Prod.mk.inj hstep
      exact CardSlot.mapped_step o
    | load =>
      obtain ⟨_, rfl⟩ := Prod.mk.inj hstep
      exact UInt32.le_refl _
    | store fields =>
      obtain ⟨_, rfl⟩ := Prod.mk.inj hstep
      exact UInt32.le_refl _
    | write path data =>
      obtain ⟨_, rfl⟩ := Prod.mk.inj hstep
      exact UInt32.le_refl _
    | writeNew path data =>
      have hs1 : s1 = (step card s (.writeNew path data)).2 := (congrArg Prod.snd hstep).symm
      rw [hs1, step]
      split <;> exact UInt32.le_refl _

/-- The working card shows its bytes. -/
theorem shows {trace : List Tool.Event} (h : Path (deviceEnv (step card)) s trace s') :
    Shows .ez3Flash card trace := by
  rintro pre post word length data rfl hr
  rw [List.append_assoc, path_append_iff] at h
  obtain ⟨m, hpre, h⟩ := h
  obtain ⟨m2, hread, _⟩ := path_append_iff.mp h
  have hread := CardSlot.path_romRead (path_slot (t := [_, _]) hread)
  obtain ⟨hno, _⟩ | ⟨limit, hmapped, hstop⟩ := hr
  · cases hno
  · have hlimit : limit.toNat ≤ 0x00800000 ∨ limit.toNat ≤ m.slot.mapped.toNat := by
      obtain rfl | ⟨selection, before, after, hmem, rfl⟩ := hmapped
      · exact .inl (Nat.le_refl _)
      · obtain ⟨m1, hbefore, hafter⟩ := path_append_iff.mp hpre
        obtain ⟨m0, _, hmapping⟩ := path_append_iff.mp hbefore
        refine .inr (UInt32.le_iff_toNat_le.mp ?_)
        exact UInt32.le_trans (CardSlot.path_mapping hmem (path_slot hmapping)) (mapped_mono hafter)
    rw [hread]
    refine List.map_congr_left fun i hi => CardSlot.visible_of_lt ?_
    rw [List.mem_range] at hi
    omega

end Workstation

/-! ## Every transfer succeeds -/

namespace CardSlot

variable {card : Nat → UInt8} {ε α β : Type}

/-- Between two commands. -/
def Ready (s : CardSlot) : Prop := s.due = .command

/-- From between two commands to between two commands, with such a value. -/
def Completes (card : Nat → UInt8) (p : Usb ε α) (Q : α → Prop) : Prop :=
  ∀ s, Ready s → Wp (deviceEnv (step card)) (fun _ _ => True) p (Gives fun a s' => Q a ∧ Ready s') s

section Completes

variable {p : Usb ε α} {f : α → Usb ε β} {Q : α → Prop} {R : β → Prop}

theorem completes_pure {a : α} (h : Q a) : Completes card (.pure a : Usb ε α) Q :=
  fun _ hs => And.intro h hs

theorem Completes.bind (hp : Completes card p Q) (hf : ∀ a, Q a → Completes card (f a) R) :
    Completes card (p >>= f) R :=
  fun s hs => wp_bind (hp s hs) fun a s' ⟨ha, hs'⟩ => hf a ha s' hs'

theorem Completes.both {p q : Usb ε Bool} (hp : Completes card p (· = true))
    (hq : Completes card q (· = true)) : Completes card (p.both q) (· = true) := by
  refine hp.bind fun ok hok => ?_
  rw [hok]
  exact hq

theorem completes_allOf {ps : List (Usb ε Bool)} (h : ∀ p ∈ ps, Completes card p (· = true)) :
    Completes card (allOf ps) (· = true) := by
  induction ps with
  | nil => exact completes_pure rfl
  | cons p ps ih =>
    obtain ⟨hp, hps⟩ := List.forall_mem_cons.mp h
    exact hp.both (ih hps)

/-- A command whose answer the card has ready decides the rest. -/
theorem completes_query {command : Bytes} {wanted : Nat} {rest : Option Bytes → Usb ε β} {failed : β}
    (bytes : CardSlot → Bytes) (hobey : ∀ s, obey card s command = { s with due := .data (bytes s) })
    (hlen : ∀ s, (bytes s).length = wanted)
    (hrest : ∀ s, Completes card (rest (some (bytes s))) R) :
    Completes card (out command >>= fun sent =>
      if (!sent) = true then .pure failed else inExact wanted >>= rest) R := by
  rintro ⟨mapped, control, due⟩ rfl
  have hsent : exec (step card) (out command : Usb ε Bool) ⟨mapped, control, .command⟩ =
      (.ok true, ⟨mapped, control, .data (bytes ⟨mapped, control, .command⟩)⟩) := by
    rw [out, exec_ask, step, receive, hobey]
  have hanswer : exec (step card) (inExact wanted : Usb ε (Option Bytes))
      ⟨mapped, control, .data (bytes ⟨mapped, control, .command⟩)⟩ =
      (.ok (some (bytes ⟨mapped, control, .command⟩)), ⟨mapped, control, .command⟩) := by
    rw [inExact, exec_ask, step]
    simp only [hlen, if_true]
  have hrun : exec (step card) (out command >>= fun sent =>
      if (!sent) = true then .pure failed else inExact wanted >>= rest) ⟨mapped, control, .command⟩ =
      exec (step card) (rest (some (bytes ⟨mapped, control, .command⟩)))
        ⟨mapped, control, .command⟩ := by
    rw [exec_bind_ok hsent]
    exact exec_bind_ok hanswer
  rw [wp_device_iff, hrun]
  exact wp_device_iff.mp (hrest _ ⟨mapped, control, .command⟩ rfl)

/-- A command and its payload are echoed. -/
theorem completes_commandDataEcho {command data : Bytes} (hop : command.getD 2 0 = 0x92)
    (hlen : command.length ≤ 64) :
    Completes card (commandDataEcho command data : Usb ε Bool) (· = true) := by
  rintro ⟨mapped, control, due⟩ rfl
  let s : CardSlot := ⟨mapped, control, .command⟩
  have hcommand : exec (step card) (out command : Usb ε Bool) s =
      (.ok true, { s with due := .payload command }) := by
    rw [out, exec_ask, step, receive, obey, if_pos hop]
  have hpayload : exec (step card) (out data : Usb ε Bool) { s with due := .payload command } =
      (.ok true, { carryOut { s with due := .payload command } command data with
        due := .echo command }) := rfl
  generalize carryOut { s with due := .payload command } command data = after at hpayload
  have hreply : exec (step card) (expectReply command : Usb ε Bool)
      { after with due := .echo command } = (.ok true, { after with due := .command }) := by
    have hecho : step card { after with due := .echo command } (.inMax 64) =
        (some command, { after with due := .command }) := by
      rw [step]
      simp only [if_pos hlen]
    rw [expectReply, inMax, exec_answered hecho]
    simp [exec_pure]
  rw [wp_device_iff, commandDataEcho, allOf, exec_both_true hcommand, allOf,
    exec_both_true hpayload, allOf, exec_both_true hreply, allOf, exec]
  exact ⟨rfl, rfl⟩

theorem completes_sendAll {transfers : List Tx} :
    Completes card (sendAll transfers : Usb ε Bool) (· = true) := by
  refine completes_allOf fun p hp => ?_
  obtain ⟨tx, _, rfl⟩ := List.mem_map.mp hp
  cases tx with
  | two first second => exact completes_commandDataEcho rfl (show 13 ≤ 64 by omega)
  | one selector value => exact completes_commandDataEcho rfl (show 13 ≤ 64 by omega)

/-! ### The session -/

theorem completes_waitUntilReady {attempts : Nat} :
    Completes card (waitUntilReady (attempts + 1) : Usb ε Bool) (· = true) :=
  completes_query (fun _ => [0x01]) (fun _ => rfl) (fun _ => rfl) fun _ => completes_pure rfl

theorem completes_finishSession : Completes card (finishSession : Usb ε Bool) (· = true) := by
  have hpoll : Completes card (pollReady : Usb ε Bool) (· = true) :=
    completes_query (fun _ => [0x01]) (fun _ => rfl) (fun _ => rfl) fun _ => completes_pure rfl
  exact hpoll.both (hpoll.both (hpoll.both (completes_pure rfl)))

theorem completes_startup : Completes card (startup : Usb ε Bool) (· = true) := by
  refine completes_query (fun _ => [0x00]) (fun _ => rfl) (fun _ => rfl) fun _ => ?_
  refine completes_waitUntilReady.both ?_
  exact completes_query (fun _ => setupCommand) (fun _ => rfl) (fun _ => rfl) fun _ =>
    completes_pure (by simp)

theorem completes_read91Sub2Four :
    Completes card (read91Sub2Four : Usb ε (Option Bytes)) (· = some flashId) := by
  show Completes card (out (command 0x91 0x02 0 4 0x00) >>= fun sent =>
    if (!sent) = true then .pure none else inExact 4 >>= .pure) _
  exact completes_query (fun _ => flashId) (fun _ => rfl) (fun _ => rfl) fun _ => completes_pure rfl

theorem completes_probe :
    Completes card (probe : Usb ε (Option (Bytes × Bytes))) (· = some (flashId, flashId)) := by
  have hat : ∀ {address : UInt32} {first second : UInt8},
      Completes card (tx92TwoAt address first second : Usb ε Bool) (· = true) :=
    completes_commandDataEcho rfl (show 13 ≤ 64 by omega)
  have hstart : Completes card (allOf [
      startup, sendAll (probePrefix 0 0 0 0 0 0), tx92TwoAt 0x555 0xAA 0x00,
      tx92TwoAt 0x2AA 0x55 0x00, tx92TwoAt 0x555 0x90 0x00] : Usb ε Bool) (· = true) :=
    completes_startup.both (completes_sendAll.both (hat.both (hat.both (hat.both
      (completes_pure rfl)))))
  refine hstart.bind ?_
  rintro _ rfl
  refine completes_read91Sub2Four.bind ?_
  rintro _ rfl
  refine completes_sendAll.bind ?_
  rintro _ rfl
  refine completes_read91Sub2Four.bind ?_
  rintro _ rfl
  refine completes_sendAll.bind ?_
  rintro _ rfl
  exact completes_pure rfl

theorem completes_readFrom {byteAddress : UInt32} {length : Nat} (done : Nat) :
    Completes card (readFrom byteAddress length done : Usb ε (Option Bytes))
      (fun r => r.isSome = true) := by
  induction done using readFrom.induct length with
  | case1 done hlt piece ih =>
    have hlen : (UInt32.ofNat piece).toNat = piece := by
      have : piece ≤ 0x10000 := Nat.min_le_left _ _
      rw [UInt32.toNat_ofNat']
      omega
    rw [readFrom, if_pos hlt]
    refine completes_query (fun s => readCard (s.visible card)
      (2 * ((byteAddress + UInt32.ofNat done) / 2).toNat) (UInt32.ofNat piece).toNat)
      (fun _ => obey_read) (fun s => by rw [length_readCard, hlen]) fun s => ?_
    refine ih.bind fun rest hrest => ?_
    cases rest with
    | none => cases hrest
    | some rest => exact completes_pure rfl
  | case2 done hge =>
    rw [readFrom, if_neg hge]
    exact completes_pure rfl

theorem completes_read {byteAddress : UInt32} {length : Nat} (heven : 2 ∣ byteAddress.toNat) :
    Completes card (ReadOnlyCartridge.read byteAddress length) (fun r => r.isSome = true) := by
  rw [ReadOnlyCartridge.read, if_neg (not_not_intro (even_of_dvd heven))]
  exact completes_readFrom 0

theorem completes_readPrime : Completes card readPrime (· = true) := by
  refine completes_query (fun _ => primeCommand) (fun _ => rfl) (fun _ => rfl) fun _ => ?_
  show Completes card (if primeCommand ≠ primeCommand then _ else _) _
  rw [if_neg (not_not_intro rfl)]
  exact (completes_read (Nat.dvd_zero _)).bind fun r hr => completes_pure hr

theorem completes_readBlocks {start : UInt32} {size : Nat} (offset : Nat)
    (hstart : 2 ∣ start.toNat) (hoff : 2 ∣ offset) (hfit : start.toNat + size ≤ 2 ^ 25) :
    Completes card (Ez3CardWorkflow.readBlocks start size offset) (fun r => r.isSome = true) := by
  induction offset using Ez3CardWorkflow.readBlocks.induct size with
  | case1 offset hlt ih =>
    have haddr : (start + UInt32.ofNat offset).toNat = start.toNat + offset := by
      rw [UInt32.toNat_add, UInt32.toNat_ofNat']
      omega
    rw [Ez3CardWorkflow.readBlocks, if_pos hlt]
    refine (completes_read (by rw [haddr]; omega)).bind fun block hblock => ?_
    cases block with
    | none => cases hblock
    | some block =>
      refine (ih (by omega)).bind fun rest hrest => ?_
      cases rest with
      | none => cases hrest
      | some rest => exact completes_pure rfl
  | case2 offset hge =>
    rw [Ez3CardWorkflow.readBlocks, if_neg hge]
    exact completes_pure rfl

end Completes

end CardSlot

namespace Workstation

variable {card : Nat → UInt8} {α β : Type}

theorem exec_usb {p : Usb StdException α} {s : Workstation} :
    exec (step card) (usb p) s = ((exec (CardSlot.step card) p s.slot).1,
      { s with slot := (exec (CardSlot.step card) p s.slot).2 }) := by
  induction p generalizing s with
  | pure a => rfl
  | throw e => rfl
  | op o k ih => exact ih _

/-- Between two commands, with a cartridge that has been found to be an EZ3 card. -/
def Ready (s : Workstation) : Prop := s.slot.Ready ∧ s.fields.kind = .ez3Flash

def Completes (card : Nat → UInt8) (p : Tool α) (Q : α → Prop) : Prop :=
  ∀ s, Ready s → Wp (deviceEnv (step card)) (fun _ _ => True) p (Gives fun a s' => Q a ∧ Ready s') s

variable {Q : α → Prop} {R : β → Prop}

theorem completes_pure {a : α} (h : Q a) : Completes card (.pure a : Tool α) Q :=
  fun _ hs => And.intro h hs

theorem Completes.bind {p : Tool α} {f : α → Tool β} (hp : Completes card p Q)
    (hf : ∀ a, Q a → Completes card (f a) R) : Completes card (p >>= f) R :=
  fun s hs => wp_bind (hp s hs) fun a s' ⟨ha, hs'⟩ => hf a ha s' hs'

theorem wp_usb {p : Usb StdException α} (h : CardSlot.Completes card p Q) {s : Workstation}
    (hs : s.slot.Ready) : Wp (deviceEnv (step card)) (fun _ _ => True) (usb p)
      (Gives fun a s' => Q a ∧ s'.slot.Ready ∧ s'.fields = s.fields) s := by
  have hslot := wp_device_iff.mp (h s.slot hs)
  rw [wp_device_iff, exec_usb]
  cases hout : (exec (CardSlot.step card) p s.slot).1 with
  | error e =>
    rw [hout] at hslot
    exact hslot
  | ok a =>
    rw [hout] at hslot
    exact ⟨hslot.1, hslot.2, rfl⟩

theorem wp_load_bind {f : ReadOnlyCartridge → Tool β} {s : Workstation}
    {P : Except StdException β → Workstation → Prop}
    (hf : Wp (deviceEnv (step card)) (fun _ _ => True) (f s.fields) P s) :
    Wp (deviceEnv (step card)) (fun _ _ => True) (load >>= f) P s := by
  refine And.intro trivial fun fields s' hload => ?_
  obtain ⟨rfl, rfl⟩ := Prod.mk.inj hload
  exact hf

theorem wp_store_bind {fields : ReadOnlyCartridge} {f : Unit → Tool β} {s : Workstation}
    {P : Except StdException β → Workstation → Prop}
    (hf : Wp (deviceEnv (step card)) (fun _ _ => True) (f ()) P { s with fields := fields }) :
    Wp (deviceEnv (step card)) (fun _ _ => True) (store fields >>= f) P s := by
  refine And.intro trivial fun _ s' hstore => ?_
  obtain ⟨_, rfl⟩ := Prod.mk.inj hstore
  exact hf

theorem completes_usb {p : Usb StdException α} (h : CardSlot.Completes card p Q) :
    Completes card (usb p) Q :=
  fun s hs => wp_gives_mono (wp_usb h hs.1) fun a s' ⟨ha, hready, hfields⟩ =>
    ⟨ha, hready, by rw [hfields]; exact hs.2⟩

/-- What a program gives whatever the answers, it gives here. -/
theorem Completes.and {A : Tool.Op → Prop} {Q' : α → Prop} {p : Tool α} (h : Completes card p Q)
    (hA : Always A (Ends Q') p) : Completes card p fun a => Q a ∧ Q' a := by
  intro s hs
  have hends := @Always.wp _ _ _ _ _ (deviceEnv (step card)) (fun _ _ => True) A (fun _ => True) _ p s
    hA (fun _ _ _ _ => trivial) (fun _ _ _ => trivial) trivial
  refine wp_mono (wp_and (h s hs) hends) fun out s' ⟨hout, hend, _⟩ => ?_
  cases out with
  | ok a => exact ⟨⟨hout.1, hend⟩, hout.2⟩
  | error e => exact hout

theorem completes_prepareLinear {limit : UInt32} {selection : List Tx} :
    Completes card (prepareLinear limit selection) (· = true) := by
  intro s hs
  refine wp_load_bind ?_
  split
  · exact And.intro rfl hs
  · refine wp_bind (completes_usb CardSlot.completes_sendAll s hs) ?_
    rintro _ s1 ⟨rfl, hs1⟩
    refine wp_store_bind ?_
    exact ⟨rfl, hs1.1, hs.2⟩

theorem completes_prepareLinearForAddress {address : UInt32} (h : address.toNat < 2 ^ 25) :
    Completes card (prepareLinearForAddress address) (· = true) := by
  cases addressClass address with
  | default _ _ prepare =>
    rw [prepare]
    exact completes_pure rfl
  | mapped limit selection _ _ _ _ prepare =>
    rw [prepare]
    exact completes_prepareLinear
  | outside above _ _ =>
    rw [UInt32.le_iff_toNat_le] at above
    exact absurd h (Nat.not_lt.mpr above)

theorem completes_read {byteAddress : UInt32} {length : Nat} (heven : 2 ∣ byteAddress.toNat) :
    Completes card (usb (ReadOnlyCartridge.read byteAddress length)) (fun r => r.isSome = true) :=
  completes_usb (CardSlot.completes_read heven)

theorem completes_readCatalog {imageLimit : UInt32} {entryLimit : Nat}
    (hlimit : imageLimit.toNat ≤ 2 ^ 25) :
    Completes card (Ez3CatalogReader.read reads imageLimit entryLimit)
      (fun result => result.status ≠ .readFailed) := by
  rw [Ez3CatalogReader.read]
  refine (completes_read (Nat.dvd_zero _)).bind fun word hword => ?_
  cases word with
  | none => cases hword
  | some firstBytes =>
    dsimp only
    cases hbranch : armBranchTarget (readLe32 firstBytes 0) with
    | none => exact completes_pure (by simp)
    | some loaderStart =>
      dsimp only
      split
      case isTrue => exact completes_pure (by simp)
      case isFalse hrange =>
        rw [not_or, ge_iff_le, UInt32.lt_iff_toNat_lt, UInt32.le_iff_toNat_le] at hrange
        have hC0 : (0xC0 : UInt32).toNat = 0xC0 := rfl
        have heven := branchTarget_even hbranch (by omega)
        have hend := toNat_loaderEnd (Nat.not_le.mp hrange.2)
        have hsub : (imageLimit - loaderStart).toNat = imageLimit.toNat - loaderStart.toNat :=
          UInt32.toNat_sub_of_le _ _ (by rw [UInt32.le_iff_toNat_le]; omega)
        have hlen : Ez3CatalogReader.readLength imageLimit loaderStart ≤
            imageLimit.toNat - loaderStart.toNat := by
          rw [Ez3CatalogReader.readLength, hsub]
          exact Nat.min_le_right _ _
        refine (completes_prepareLinearForAddress (by omega)).bind ?_
        rintro _ rfl
        refine (completes_read heven).bind fun bytes hbytes => ?_
        cases bytes with
        | none => cases hbytes
        | some loader =>
          dsimp only
          obtain ⟨parsed, hparse, _⟩ := @Ez3CatalogParser.parse_total loader imageLimit
          rw [hparse]
          refine completes_pure ?_
          cases parsed with
          | none => simp [Ez3CatalogReader.finish]
          | some layout =>
            rw [Ez3CatalogReader.finish]
            split <;> simp

theorem completes_failAfterCleanup {status : Int} (h : status ≠ 2) :
    Completes card (Ez3CardWorkflow.failAfterCleanup status) (· ≠ 2) := by
  refine (completes_usb CardSlot.completes_finishSession).bind ?_
  rintro _ rfl
  exact completes_pure h

theorem completes_writeRom {outputPath rom : Bytes} :
    Completes card (Ez3CardWorkflow.writeRom outputPath rom) (· ≠ 2) := by
  refine (completes_usb CardSlot.completes_finishSession).bind ?_
  rintro _ rfl s hs
  refine And.intro trivial fun written s' hwrite => ?_
  obtain ⟨rfl, rfl⟩ := Prod.mk.inj hwrite
  exact ⟨by decide, hs⟩

theorem completes_extractExtent {entry : CatalogEntry} {index : Nat}
    {inclusiveEnd loaderStart : UInt32} {isSingle : Bool} {outputPath : Bytes}
    (heven : 2 ∣ entry.start.toNat) (hle : entry.start ≤ inclusiveEnd)
    (hend : inclusiveEnd.toNat < 2 ^ 25) :
    Completes card
      (Ez3CardWorkflow.extractExtent entry index inclusiveEnd loaderStart isSingle outputPath)
      (· ≠ 2) := by
  have hsub := UInt32.toNat_sub_of_le _ _ hle
  rw [UInt32.le_iff_toNat_le] at hle
  refine (completes_prepareLinearForAddress hend).bind ?_
  rintro _ rfl
  refine (completes_usb (CardSlot.completes_readBlocks 0 heven (Nat.dvd_zero _) (by omega))).bind
    fun image himage => ?_
  cases image with
  | none => cases himage
  | some image =>
    dsimp only
    split
    · exact completes_failAfterCleanup (by decide)
    · exact completes_writeRom

theorem completes_extractEz3Rom {entries : List CatalogEntry} {loaderStart : UInt32}
    {isSingle : Bool} {request : Ez3ExtractionRequest}
    (heven : ∀ entry ∈ entries, 2 ∣ entry.start.toNat) :
    Completes card (Ez3CardWorkflow.extractEz3Rom entries loaderStart isSingle request) (· ≠ 2) := by
  rw [Ez3CardWorkflow.extractEz3Rom]
  split
  · exact completes_failAfterCleanup (by decide)
  · dsimp only
    split
    · exact completes_failAfterCleanup (by decide)
    case h_2 inclusiveEnd _ =>
      split
      · exact completes_failAfterCleanup (by decide)
      case isFalse hle =>
        split
        · exact completes_failAfterCleanup (by decide)
        case isFalse hrequired =>
          refine completes_extractExtent (heven _ (List.getElem_mem _)) (UInt32.not_lt.mp hle) ?_
          cases addressClass inclusiveEnd with
          | default below _ _ =>
            have := UInt32.lt_iff_toNat_lt.mp below
            exact Nat.lt_trans this (by decide)
          | mapped limit selection mem below _ _ _ =>
            exact Nat.lt_of_lt_of_le below (mapping_le mem)
          | outside _ required _ => exact absurd required hrequired

theorem completes_readHeaders {entries : List CatalogEntry}
    (heven : ∀ entry ∈ entries, 2 ∣ entry.start.toNat) :
    Completes card (Ez3CardWorkflow.readHeaders entries) (fun _ => True) := by
  induction entries with
  | nil => exact completes_pure trivial
  | cons entry entries ih =>
    obtain ⟨hentry, hrest⟩ := List.forall_mem_cons.mp heven
    have hheader : CardSlot.Completes card (readGbaHeader entry.start) fun _ => True := by
      refine (CardSlot.completes_read hentry).bind fun bytes _ => ?_
      cases bytes with
      | none => exact CardSlot.completes_pure trivial
      | some bytes => exact CardSlot.completes_pure trivial
    exact (completes_usb hheader).bind fun _ _ => ih hrest

theorem completes_prepareHeaders {highest : UInt32} {mode : Ez3CardWorkflow.ReadMappingMode}
    (h : highest.toNat < 2 ^ 25) :
    Completes card (Ez3CardWorkflow.prepareHeaders highest mode) (· = true) := by
  rw [Ez3CardWorkflow.prepareHeaders]
  split_ifs
  · exact completes_prepareLinearForAddress h
  · exact completes_prepareLinearForAddress h
  · exact completes_prepareLinearForAddress h
  · exact completes_pure rfl

/-- On a working card the workflow never ends with 2. -/
theorem completes_run {extraction : Option Ez3ExtractionRequest} :
    Completes card (Ez3CardWorkflow.run extraction) (· ≠ 2) := by
  have hcatalog := @always_readCatalog (fun _ => True) Ez3CardWorkflow.cardImageLimit
    Ez3CatalogParser.structuralSlotCount (fun _ _ _ _ => trivial) fun _ _ => trivial
  rw [Ez3CardWorkflow.run, Ez3CardWorkflow.inspectCard]
  refine ((completes_readCatalog (Nat.le_refl _)).and hcatalog).bind ?_
  rintro discovery ⟨hread, hloads⟩
  cases hstatus : discovery.status with
  | readFailed => exact absurd hstatus hread
  | loaded =>
    obtain ⟨catalog, loader, hcatalog, haccepted, _⟩ := hloads hstatus
    have heven : ∀ entry ∈ catalog.entries, 2 ∣ entry.start.toNat := fun entry hmem =>
      Nat.dvd_trans (by decide) (haccepted.start hmem).2
    simp only [hcatalog]
    have hhighest : (Ez3CardWorkflow.highestStart catalog.entries).toNat < 2 ^ 25 :=
      @Ez3CardWorkflow.foldl_max_lt _ 0 Ez3CardWorkflow.cardImageLimit (by decide) fun entry hmem =>
        UInt32.lt_iff_toNat_lt.mp (haccepted.start hmem).1
    refine (completes_prepareHeaders hhighest).bind ?_
    rintro _ rfl
    refine (completes_readHeaders heven).bind fun _ _ => ?_
    cases extraction with
    | some request => exact completes_extractEz3Rom heven
    | none =>
      refine (completes_usb CardSlot.completes_finishSession).bind ?_
      rintro _ rfl
      exact completes_pure (by decide)
  | _ => exact completes_pure (by decide)

/-- The initialization takes the card for what it is. -/
theorem wp_initializeCartridge {s : Workstation} (hs : s.slot.Ready) :
    Wp (deviceEnv (step card)) (fun _ _ => True) initializeCartridge
      (Gives fun ok s' => ok = true ∧ Ready s') s := by
  refine wp_store_bind (wp_bind (wp_usb CardSlot.completes_probe hs) ?_)
  rintro ids s1 ⟨rfl, hready, _⟩
  have hclassify : Wp (deviceEnv (step card)) (fun _ _ => True)
      (classify CardSlot.flashId CardSlot.flashId) (Gives fun _ s' => Ready s') s1 := by
    refine wp_load_bind (wp_store_bind (wp_load_bind ?_))
    exact ⟨hready, rfl⟩
  refine wp_bind hclassify fun _ s2 hs2 => wp_load_bind ?_
  rw [hs2.2, if_neg (by decide), if_neg (not_not_intro rfl)]
  exact completes_usb CardSlot.completes_readPrime s2 hs2

/-- On a working card the tool never ends with 2, and knows it for an EZ3 card. -/
theorem wp_runCardReader {options : CardReaderOptions} {s : Workstation} (hs : s.slot.Ready) :
    Wp (deviceEnv (step card)) (fun _ _ => True) (CardReader.run options)
      (Gives fun status s' => status ≠ 2 ∧ s'.fields.kind = .ez3Flash) s := by
  refine wp_bind (wp_initializeCartridge hs) ?_
  rintro _ s1 ⟨rfl, hready⟩
  refine wp_load_bind ?_
  have hrun : ∀ extraction, Wp (deviceEnv (step card)) (fun _ _ => True)
      (Ez3CardWorkflow.run extraction)
      (Gives fun status s' => status ≠ 2 ∧ s'.fields.kind = .ez3Flash) s1 :=
    fun extraction => wp_gives_mono (completes_run s1 hready) fun status s' ⟨hstatus, hend⟩ =>
      ⟨hstatus, hend.2⟩
  rw [hready.2, decideCardReaderAction]
  cases options.extract with
  | false => exact hrun none
  | true => exact hrun (some _)

theorem exec_runCardReader {options : CardReaderOptions} {s : Workstation} (hs : s.slot.Ready) :
    ∃ status, (exec (step card) (CardReader.run options) s).1 = .ok status ∧ status ≠ 2 ∧
      (exec (step card) (CardReader.run options) s).2.fields.kind = .ez3Flash := by
  have hworks := wp_device_iff.mp (@wp_runCardReader card options s hs)
  cases hout : (exec (step card) (CardReader.run options) s).1 with
  | error e =>
    rw [hout] at hworks
    exact hworks.elim
  | ok status =>
    rw [hout] at hworks
    exact ⟨status, rfl, hworks⟩

/-! ## The files -/

theorem files_step {o : Tool.Op} {s : Workstation} (h : CardReader.NoFile o) :
    (step card s o).2.files = s.files := by
  cases o with
  | write path data => exact h.elim
  | writeNew path data => exact h.elim
  | _ => rfl

theorem files_kept {trace : List Tool.Event} {s s' : Workstation}
    (h : Path (deviceEnv (step card)) s trace s') (hno : ∀ e ∈ trace, CardReader.NoFile e.1) :
    s'.files = s.files := by
  refine h.invariant (A := CardReader.NoFile) (I := fun m => m.files = s.files) ?_ hno rfl
  intro m o r m' ho hstep hm
  have hkept := @files_step card o m ho
  rw [show step card m o = (r, m') from hstep] at hkept
  exact hkept.trans hm

/-- Only one file is written, and only this in it. -/
theorem files_written {trace : List Tool.Event} {path data : Bytes} {s s' : Workstation}
    (h : Path (deviceEnv (step card)) s trace s')
    (hwrites : ∀ e ∈ trace, CardReader.NoFile e.1 ∨ e.1 = .write path data) :
    s'.files = s.files ∨ s'.files = Function.update s.files path (some data) := by
  induction h with
  | nil => exact .inl rfl
  | @cons s s1 s2 o r trace hstep _ ih =>
    obtain ⟨ho, hrest⟩ := List.forall_mem_cons.mp hwrites
    have hs1 : s1 = (step card s o).2 := (congrArg Prod.snd hstep).symm
    obtain hno | rfl := ho
    · have hkept : s1.files = s.files := by
        rw [hs1]
        exact files_step hno
      rw [← hkept]
      exact ih hrest
    · have hfiles : s1.files = Function.update s.files path (some data) := by
        rw [hs1]
        rfl
      rw [hfiles, Function.update_idem] at ih
      exact .inr ((ih hrest).elim id id)

theorem memory_step (s : Workstation) (o : Tool.Op) :
    memory s.fields o (step card s o).1 (step card s o).2.fields := by
  cases o with
  | usb o => rfl
  | load => exact ⟨rfl, rfl⟩
  | store fields => rfl
  | write path data => rfl
  | writeNew path data =>
    show (step card s (.writeNew path data)).2.fields = s.fields
    rw [step]
    split <;> rfl

theorem legal_step (s : Workstation) (o : Tool.Op) : Legal ⟨o, (step card s o).1⟩ := by
  cases o with
  | usb o => exact s.slot.legal_step o
  | _ => trivial

/-- A session is a legal run on a cartridge that shows its bytes. -/
theorem legalRun_exec {α : Type} (p : Tool α) (s : Workstation) :
    ∃ trace, Path (deviceEnv (step card)) s trace (exec (step card) p s).2 ∧
      LegalRun p s.fields trace (exec (step card) p s).1 (exec (step card) p s).2.fields :=
  Ezfadvance.legalRun_exec memory_step legal_step p s

/-- A session that creates no file but one of these contents, and that one last, leaves it. -/
theorem files_of_outcome {path : Bytes} {file : Option Bytes} {s s' : Workstation}
    {trace : List Tool.Event} (h : Path (deviceEnv (step card)) s trace s')
    (hwrites : ∀ e ∈ trace, CardReader.NoFile e.1 ∨ ∃ data, e.1 = .write path data ∧ file = some data)
    (hlast : ∀ data, file = some data → ∃ before, trace = before ++ [⟨.write path data, true⟩]) :
    s'.files = file.elim s.files fun data => Function.update s.files path (some data) := by
  cases file with
  | none =>
    refine files_kept h fun e he => (hwrites e he).resolve_right ?_
    rintro ⟨data, _, hsome⟩
    cases hsome
  | some data =>
    obtain ⟨before, rfl⟩ := hlast data rfl
    obtain ⟨m, hbefore, hend⟩ := path_append_iff.mp h
    obtain ⟨m', hwrite, hnil⟩ := path_cons_iff.mp hend
    have hs' := congrArg Workstation.files (path_nil_iff.mp hnil)
    have hm' : m'.files = Function.update m.files path (some data) :=
      congrArg (fun step => step.2.files) hwrite.symm
    have hwritten : ∀ e ∈ before, CardReader.NoFile e.1 ∨ e.1 = .write path data := by
      intro e he
      refine (hwrites e (List.mem_append_left _ he)).imp_right ?_
      rintro ⟨data', hop, hsome⟩
      rw [hop, Option.some.inj hsome]
    refine hs'.trans (hm'.trans ?_)
    obtain hfiles | hfiles := files_written hbefore hwritten
    · rw [hfiles]
      rfl
    · rw [hfiles, Function.update_idem]
      rfl

/-- The session on a working card, with the status and the file of `CardReader.onCard`. -/
theorem exec_onCard (options : CardReaderOptions) {s : Workstation} (hs : s.slot.Ready) :
    ∃ trace s', Path (deviceEnv (step card)) s trace s' ∧
      exec (step card) (CardReader.run options) s =
        (.ok (CardReader.onCard .ez3Flash card options).status, s') ∧
      (∀ e ∈ trace, CardReader.NoFile e.1 ∨ ∃ data, e.1 = .write options.outputPath data ∧
        (CardReader.onCard .ez3Flash card options).file = some data) ∧
      ∀ data, (CardReader.onCard .ez3Flash card options).file = some data →
        ∃ before, trace = before ++ [⟨.write options.outputPath data, true⟩] := by
  obtain ⟨trace, path, run⟩ := @legalRun_exec card _ (CardReader.run options) s
  obtain ⟨status, hok, hend, hwrites⟩ := @CardReader.ended_of_run card options _ _ _ _ run
  obtain ⟨status', hout, hstatus, hkind⟩ := @exec_runCardReader card options s hs
  obtain rfl : status = status' := Except.ok.inj (hok.symm.trans hout)
  have hshows := shows path
  rw [← hkind] at hshows
  have hofficial : decideCardReaderAction .ez3Flash options ≠ .inspectOfficial := by
    rw [decideCardReaderAction]
    split <;> simp
  have hreports : CardReader.Ended card options _ status _ := hend.resolve_left hstatus
  obtain ⟨heq, hfile⟩ := ((hreports.2.resolve_right fun hno => hofficial (hkind ▸ hno.1))
    hshows).resolve_left hstatus
  have hwrites := hwrites hshows
  rw [hkind] at heq hfile hwrites
  exact ⟨trace, _, path, Prod.ext (by rw [hok, heq]) rfl, hwrites, hfile⟩

/-- On a working EZ3 card, whatever it holds and whatever is asked for, the card reader ends with the
status of the outcome of the card, and the file of the outcome is all that it leaves behind. -/
theorem reads_working_card (options : CardReaderOptions) {s : Workstation} (hs : s.slot.Ready) :
    ∃ s', exec (step card) (CardReader.run options) s =
        (.ok (CardReader.onCard .ez3Flash card options).status, s') ∧
      s'.files = (CardReader.onCard .ez3Flash card options).file.elim s.files
        fun data => Function.update s.files options.outputPath (some data) := by
  obtain ⟨_, s', path, hrun, hwrites, hlast⟩ := @exec_onCard card options s hs
  exact ⟨s', hrun, files_of_outcome path hwrites hlast⟩

/-- On a working EZ3 card the extraction of one ROM ends with the status of its outcome, and a file that
it creates is the last it does. -/
theorem legalRun_extraction {catalog : Ez3CatalogLayout} {loaderStart : UInt32} {romNumber : Nat}
    {outputPath : Bytes} (heven : ∀ entry ∈ catalog.entries, 2 ∣ entry.start.toNat)
    {s : Workstation} (hs : Ready s) (hlimit : s.fields.linearReadLimit = 0x00800000) :
    ∃ trace c', LegalRun (Ez3CardWorkflow.extractEz3Rom catalog.entries loaderStart
        (catalog.kind == .single) ⟨romNumber, outputPath⟩) s.fields trace
        (.ok (Ez3CardWorkflow.extractOnCard card catalog loaderStart romNumber).status) c' ∧
      ∀ data, (Ez3CardWorkflow.extractOnCard card catalog loaderStart romNumber).file = some data →
        ∃ before, trace = before ++ [⟨.write outputPath data, true⟩] := by
  obtain ⟨trace, path, run⟩ := @legalRun_exec card _ (Ez3CardWorkflow.extractEz3Rom catalog.entries
    loaderStart (catalog.kind == .single) ⟨romNumber, outputPath⟩) s
  have hworks := wp_device_iff.mp (@completes_extractEz3Rom card catalog.entries loaderStart
    (catalog.kind == .single) ⟨romNumber, outputPath⟩ heven s hs)
  have hreports := (@wp_extractEz3Rom_card .ez3Flash card _ outputPath s.fields [] catalog loaderStart
    romNumber (.inl hlimit) heven fun _ => rfl).sound_recording run.run run.path
  generalize exec (step card) _ s = ended at run path hworks hreports
  obtain ⟨out, s'⟩ := ended
  cases out with
  | error e => exact hworks.elim
  | ok status =>
    obtain ⟨hstatus, hfile⟩ := (hreports.2 (shows path)).resolve_left hworks.1
    dsimp only at run
    rw [hstatus] at run
    exact ⟨trace, _, run, hfile⟩

/-! ## A card with a ROM -/

/-- A workstation with a card that has just been put in, and no files. -/
def fresh : Workstation := ⟨{}, ⟨0, [], .command⟩, fun _ => none⟩

/-- The reader finds the ROM on a card that was built from it. -/
theorem onCard_validRom : ∃ image rom,
    CartridgeImageBuilder.build plainTemplates [validRom] false = .ok ([validRom], image) ∧
    Returned validRom 0 rom ∧ CardReader.onCard .ez3Flash (cardOf image.bytes) dumpOptions =
      { status := 0, file := some rom } := by
  obtain ⟨image, hbuild⟩ := validRom_build
  obtain ⟨rom, hreturned, honCard⟩ := validRom_retrievable.returned hbuild (fun _ _ => rfl)
    (show [validRom][0]? = some validRom from rfl) validRom_valid validRom_restorable
  rw [← onCard_extract (show dumpOptions.Requests 0 from ⟨rfl, rfl⟩)] at honCard
  exact ⟨image, rom, hbuild, hreturned, honCard⟩

/-- The ROM is read into a file. -/
theorem reads_working_card_validRom : ∃ image rom s',
    CartridgeImageBuilder.build plainTemplates [validRom] false = .ok ([validRom], image) ∧
    Returned validRom 0 rom ∧
    exec (step (cardOf image.bytes)) (CardReader.run dumpOptions) fresh = (.ok 0, s') ∧
    s'.files = Function.update (fun _ => none) (ascii "game.gba") (some rom) := by
  obtain ⟨image, rom, hbuild, hreturned, honCard⟩ := onCard_validRom
  obtain ⟨s', hrun, hfiles⟩ := @reads_working_card (cardOf image.bytes) dumpOptions fresh rfl
  rw [honCard] at hrun hfiles
  exact ⟨image, rom, s', hbuild, hreturned, hrun, hfiles⟩

/-- The same session as a legal run on a cartridge that shows its bytes. -/
theorem run_onCard_validRom : ∃ image rom trace c',
    CartridgeImageBuilder.build plainTemplates [validRom] false = .ok ([validRom], image) ∧
    Returned validRom 0 rom ∧ LegalRun (CardReader.run dumpOptions) {} trace (.ok 0) c' ∧
    Shows c'.kind (cardOf image.bytes) trace ∧
    (∃ before, trace = before ++ [⟨.write (ascii "game.gba") rom, true⟩]) ∧
    ∀ e ∈ trace, CardReader.NoFile e.1 ∨ e.1 = .write (ascii "game.gba") rom := by
  obtain ⟨image, rom, hbuild, hreturned, honCard⟩ := onCard_validRom
  obtain ⟨trace, path, run⟩ := @legalRun_exec (cardOf image.bytes) _ (CardReader.run dumpOptions) fresh
  obtain ⟨_, _, _, hexec, _⟩ := @exec_onCard (cardOf image.bytes) dumpOptions fresh rfl
  obtain ⟨_, _, _, hkind⟩ := @exec_runCardReader (cardOf image.bytes) dumpOptions fresh rfl
  have hshows := shows path
  rw [← hkind] at hshows
  rw [congrArg Prod.fst hexec, honCard] at run
  obtain ⟨status, hok, hend, hwrites⟩ := CardReader.run_onCard run hshows
  obtain rfl := Except.ok.inj hok
  rw [hkind, honCard] at hend hwrites
  refine ⟨image, rom, trace, _, hbuild, hreturned, run, hshows, ?_, fun e he => ?_⟩
  · obtain htwo | ⟨_, hfile⟩ | ⟨hofficial, _⟩ := hend
    · exact absurd (show (0 : Int) = 2 from htwo) (by decide)
    · exact hfile rom rfl
    · cases hofficial
  · refine (hwrites e he).imp_right ?_
    rintro ⟨data, hop, hsome⟩
    cases hsome
    exact hop

/-- The extraction by itself: all that is asked before the file is created has been done. -/
theorem extractions_write_complete_validRom : ∃ image rom loaderStart before c',
    CartridgeImageBuilder.build plainTemplates [validRom] false = .ok ([validRom], image) ∧
    Returned validRom 0 rom ∧
    LegalRun (Ez3CardWorkflow.extractEz3Rom (recordedEntries [validRom]) loaderStart true
      ⟨1, ascii "game.gba"⟩) { kind := .ez3Flash } (before ++ [⟨.write (ascii "game.gba") rom, true⟩])
      (.ok 0) c' ∧
    CardReader.Ez3Complete (recordedEntries [validRom]) loaderStart true ⟨1, ascii "game.gba"⟩ before
      (ascii "game.gba") rom := by
  obtain ⟨image, rom, hbuild, hreturned, honCard⟩ := onCard_validRom
  obtain ⟨loaderStart, _, hcatalog, _⟩ := validRom_retrievable.onCard hbuild fun _ _ => rfl
  rw [onCard_extract (show dumpOptions.Requests 0 from ⟨rfl, rfl⟩), hcatalog,
    Option.elim_some] at honCard
  have heven : ∀ entry ∈ recordedEntries [validRom], 2 ∣ entry.start.toNat :=
    List.forall_mem_singleton.mpr (Nat.dvd_zero 2)
  obtain ⟨trace, c', run, hfile⟩ := @legalRun_extraction (cardOf image.bytes)
    ⟨catalogKind [validRom], recordedEntries [validRom]⟩ loaderStart 1 (ascii "game.gba") heven
    ⟨{ kind := .ez3Flash }, ⟨0, [], .command⟩, fun _ => none⟩ ⟨rfl, rfl⟩ rfl
  rw [honCard] at run hfile
  obtain ⟨before, rfl⟩ := hfile rom rfl
  obtain ⟨hwrites, _⟩ := CardReader.extractions_write_complete_images
  exact ⟨image, rom, loaderStart, before, c', hbuild, hreturned, run, hwrites _ _ _ _ run rfl⟩

end Workstation

end Ezfadvance
