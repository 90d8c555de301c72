import Ezfadvance.CardWipeWorkflow
import Ezfadvance.WriteOutcome

/-!
# WipeCard

The wipe program (`ezfadvanceIII_wipe_card.cpp`) and what it leaves on the cartridge, over a transport
that may lose packets. What it prints is left out.

* `run`: the program with its exit status.
* `NoProgram`: a wipe programs nothing, so what it changes in the flash it erases (`Settled.step`).
* `preflight_keeps`: before the preflight is complete nothing on the cartridge changes.
* `wipe_outcome`: what each exit status says about the cartridge.
-/

namespace Ezfadvance

open Interact Interact.Program CartridgeFormat Protocol Usb Device CardWipeWorkflow

namespace WipeCard

/-- The workflow with its exit status. -/
def wipe : Usb StdException Int := do return if ← execute then 0 else 2

def run (deviceOpens : Bool) (arguments : List Bytes) : Usb StdException Int :=
  if arguments = [ascii "--version"] then .pure 0
  else if arguments ≠ [ascii "--yes-really-wipe"] then .pure 1
  else if !deviceOpens then .pure 1
  else wipe

/-! ## What a wipe sends -/

section Sent

variable {ε : Type} {c : Cartridge} {d d' : Device} {trace : List Transport.Event}
  {out : Except ε Bool}

def NoProgram : Transport.Op → Prop :=
  Transport.Uses (fun data => data.getD 2 0 = 0x92 → data.getD 3 0 ≠ 0x00) fun _ => True

theorem noProgram_of_harmless : ∀ o, Harmless o → NoProgram o
  | .out _, h => h.2
  | .inExact _, _ => trivial
  | .inMax _, _ => trivial
  | .selectBank _, _ => trivial

theorem noProgram_query {data : Bytes} (h : data.getD 2 0 ≠ 0x92) : NoProgram (.out data) :=
  fun h92 => absurd h92 h

theorem noProgram_of_query : ∀ o, Query o → NoProgram o
  | .out _, h => noProgram_query h.1
  | .inExact _, _ => trivial
  | .inMax _, _ => trivial
  | .selectBank _, h => h.elim

theorem query_preflight : Always Query Returns (cartridgeReadyPreflight : Usb ε Bool) :=
  always_preflightOf (by decide : ∀ command ∈ [reset, ready, setup],
    command.getD 2 0 ≠ 0x92 ∧ command.getD 2 0 ≠ 0x96) fun _ => trivial

theorem noProgram_sendAll {transfers : List Tx} :
    Always NoProgram Returns (sendAll transfers : Usb ε Bool) :=
  harmless_sendAll.weaken noProgram_of_harmless

theorem noProgram_eraseSector {address : Nat} :
    Always NoProgram Returns (CardWipeWorkflow.eraseSector address : Usb ε Bool) :=
  always_answer (noProgram_query (by simp [command])) (always_inMax trivial) trivial fun _ => trivial

theorem noProgram_eraseBank {bank : Nat} :
    Always NoProgram Returns (eraseBank bank : Usb ε Bool) := by
  rw [eraseBank, if_neg (not_not.mpr length_sectors)]
  refine Always.both ?_ (Always.both (always_allOf ?_) (Always.both noProgram_sendAll trivial))
  · rw [FlashWindowSelector.select]
    split
    · trivial
    · exact noProgram_sendAll
  · intro p hp
    obtain ⟨address, _, rfl⟩ := List.mem_map.mp hp
    exact noProgram_eraseSector

theorem noProgram_regionErased {command : Bytes} {length : Nat} (h : command.getD 2 0 ≠ 0x92) :
    Always NoProgram Returns (regionErased command length : Usb ε Bool) := by
  have hread : Always NoProgram Returns (readRegion command length : Usb ε (Option Bytes)) :=
    always_answer (noProgram_query h) (always_inMax trivial) trivial fun _ => trivial
  refine hread.then fun bytes => ?_
  cases bytes <;> trivial

/-- The banks are a variable here: the steps of the four erases would be unfolded otherwise. -/
theorem noProgram_around {banks : List Nat} :
    Always NoProgram Returns (allOf [cartridgeReadyPreflight, allOf (banks.map eraseBank),
      SaveBankCleaner.clearAll, finalCleanup, verifyBlankLikeCapture] : Usb ε Bool) := by
  have hpreflight : Always NoProgram Returns (cartridgeReadyPreflight : Usb ε Bool) :=
    query_preflight.weaken noProgram_of_query
  have hbanks : ∀ p ∈ banks.map eraseBank, Always NoProgram Returns (p : Usb ε Bool) := by
    intro p hp
    obtain ⟨bank, _, rfl⟩ := List.mem_map.mp hp
    exact noProgram_eraseBank
  have hcleanup : Always NoProgram Returns (finalCleanup : Usb ε Bool) :=
    @noProgram_sendAll ε cleanupTransfers
  have hblank : Always NoProgram Returns (verifyBlankLikeCapture : Usb ε Bool) :=
    (noProgram_regionErased (by decide)).both ((noProgram_regionErased (by decide)).both trivial)
  refine always_allOf ?_
  simp only [List.forall_mem_cons]
  exact ⟨hpreflight, always_allOf hbanks, harmless_clearAll.weaken noProgram_of_harmless, hcleanup,
    hblank, by simp⟩

theorem noProgram_execute : Always NoProgram Returns (execute : Usb ε Bool) :=
  noProgram_around

end Sent

/-! ## What a wipe leaves -/

section Left

variable {c : Cartridge} {d : Device} {trace : List Transport.Event}

/-- What a wipe changes in the flash it erases, wherever it stops. -/
theorem kept_or_erased {out : Except StdException Bool}
    (run : Runs execute trace out) (path : Path env ⟨c, .command⟩ trace d) (x : Nat) :
    d.cartridge.flash.mem x = c.flash.mem x ∨ d.cartridge.flash.mem x = 0xFF := by
  let I (mem : Nat → UInt8) := ∀ x, mem x = c.flash.mem x ∨ mem x = 0xFF
  have hsettled : Settled I d := by
    refine path.invariant (A := NoProgram) (I := Settled I) (Settled.step (fun _ h => h) ?_)
      (noProgram_execute.run run).1 ⟨fun _ => .inl rfl, fun _ h => by cases h⟩
    intro data _ _ f hf x
    show (if InSector f.window (2 * (readLe32 data 4).toNat) x then 0xFF else f.mem x) = _ ∨
      (if InSector f.window (2 * (readLe32 data 4).toNat) x then 0xFF else f.mem x) = _
    split
    · exact .inr rfl
    · exact hf x
  exact hsettled.content x

/-- Before the preflight is complete nothing on the cartridge changes. -/
theorem kept_or_ready {out : Except StdException Bool}
    (run : Runs execute trace out) (path : Path env ⟨c, .command⟩ trace d) :
    d.cartridge = c ∨ ∃ busy < readinessAttempts, ∃ rest, trace = preflightExchange busy ++ rest := by
  obtain ⟨ready, t, rest, rfl, _, _, hready, hrest⟩ := query_preflight.ends.split run
  cases ready with
  | true =>
    obtain ⟨busy, hbusy, rfl⟩ := runs_preflight_true_iff.mp hready
    exact .inr ⟨busy, hbusy, rest, rfl⟩
  | false =>
    obtain ⟨rfl, _⟩ := runs_pure_iff.mp hrest
    rw [List.append_nil] at path
    have hend : d = ⟨c, .command⟩ := ((wp_query query_preflight).sound hready path).2
    exact .inl (congrArg Device.cartridge hend)

/-- The program that opens the device runs the workflow, and no other does. -/
theorem run_cases {deviceOpens : Bool} {arguments : List Bytes} {out : Except StdException Int}
    (run : Runs (run deviceOpens arguments) trace out) :
    (trace = [] ∧ (arguments = [ascii "--version"] ∧ out = .ok 0 ∨ out = .ok 1)) ∨
      arguments = [ascii "--yes-really-wipe"] ∧ deviceOpens = true ∧
        ∃ succeeded, Runs (execute : Usb StdException Bool) trace (.ok succeeded) ∧
          out = .ok (if succeeded then 0 else 2) := by
  rw [WipeCard.run] at run
  by_cases hversion : arguments = [ascii "--version"]
  · rw [if_pos hversion] at run
    obtain ⟨htrace, hout⟩ := runs_pure_iff.mp run
    exact .inl ⟨htrace, .inl ⟨hversion, hout⟩⟩
  rw [if_neg hversion] at run
  by_cases hflag : arguments ≠ [ascii "--yes-really-wipe"]
  · rw [if_pos hflag] at run
    obtain ⟨htrace, hout⟩ := runs_pure_iff.mp run
    exact .inl ⟨htrace, .inr hout⟩
  rw [if_neg hflag] at run
  cases deviceOpens with
  | false =>
    obtain ⟨htrace, hout⟩ := runs_pure_iff.mp run
    exact .inl ⟨htrace, .inr hout⟩
  | true =>
    obtain ⟨succeeded, t, rest, rfl, _, _, hexecute, hrest⟩ := noProgram_execute.ends.split run
    obtain ⟨rfl, hout⟩ := runs_pure_iff.mp hrest
    rw [List.append_nil]
    exact .inr ⟨not_not.mp hflag, rfl, succeeded, hexecute, hout⟩

/-- Whatever the transport does: the program ends with a status, and unless that is 0 for the version
or 1 and nothing was transferred, a wipe was asked for. Then each byte of the flash is as it was or
erased, nothing at all has changed before the preflight is complete, and 0 means that the flash is blank
and the save banks are zero. -/
theorem wipe_outcome {deviceOpens : Bool} {arguments : List Bytes} {out : Except StdException Int}
    (run : Runs (run deviceOpens arguments) trace out) (path : Path env ⟨c, .command⟩ trace d) :
    (trace = [] ∧ (arguments = [ascii "--version"] ∧ out = .ok 0 ∨ out = .ok 1)) ∨
      arguments = [ascii "--yes-really-wipe"] ∧ deviceOpens = true ∧
        (∀ x, d.cartridge.flash.mem x = c.flash.mem x ∨ d.cartridge.flash.mem x = 0xFF) ∧
        (d.cartridge = c ∨
          ∃ busy < readinessAttempts, ∃ rest, trace = preflightExchange busy ++ rest) ∧
        (out = .ok 2 ∨ out = .ok 0 ∧ (∀ x < maxCardImage, d.cartridge.flash.mem x = 0xFF) ∧
          ∀ bank, ProvenBank bank → ∀ i < bankSize, d.cartridge.saves bank i = 0) := by
  obtain hnothing | ⟨harguments, hopens, succeeded, hexecute, rfl⟩ := run_cases run
  · exact .inl hnothing
  refine .inr ⟨harguments, hopens, kept_or_erased hexecute path, kept_or_ready hexecute path, ?_⟩
  cases succeeded with
  | false => exact .inl rfl
  | true =>
    obtain ⟨busy, _, rfl⟩ := runs_execute_true_iff.mp hexecute
    obtain rfl := path_wipe_iff.mp path
    exact .inr ⟨rfl, fun x hx => blank_wiped hx, fun bank hbank i hi => zero_wiped hbank hi⟩

end Left

/-- A card full of data, on a bridge that is ready at once. -/
theorem wipe_outcome_full :
    let c : Cartridge := ⟨⟨fun _ => 0x42, 2, []⟩, fun _ _ => 0x17, 0x0910⟩
    ∃ trace d, Runs (run true [ascii "--yes-really-wipe"]) trace (.ok 0) ∧
      Path env ⟨c, .command⟩ trace d ∧ (∀ x < maxCardImage, d.cartridge.flash.mem x = 0xFF) ∧
      ∀ bank, ProvenBank bank → ∀ i < bankSize, d.cartridge.saves bank i = 0 := by
  intro c
  let trace := preflightExchange 0 ++ wipeExchange
  have hexecute : Runs (execute : Usb StdException Bool) trace (.ok true) :=
    runs_execute_true_iff.mpr ⟨0, by decide, rfl⟩
  have hrun : Runs (run true [ascii "--yes-really-wipe"]) trace (.ok 0) := by
    have hwipe : Runs wipe (trace ++ []) (.ok 0) := hexecute.bind .pure
    rw [List.append_nil] at hwipe
    exact hwipe
  have hpath : Path env ⟨c, .command⟩ trace ⟨wiped c, .command⟩ := path_wipe_iff.mpr rfl
  obtain ⟨_, h | h⟩ | ⟨_, _, _, _, h | ⟨_, hblank, hzero⟩⟩ := wipe_outcome hrun hpath
  · exact absurd h.1 (by decide)
  · cases h
  · cases h
  · exact ⟨trace, _, hrun, hpath, hblank, hzero⟩


end WipeCard

end Ezfadvance
