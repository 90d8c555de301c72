import Ezfadvance.FlashWriter
import Ezfadvance.Lib.Environment

/-!
# Tool

What a tool as a whole asks for: transfers on the transport, the fields of its `ReadOnlyCartridge`,
and files.

* `Tool.Op`, `Tool.Reply`: an object's field is a cell that the program loads and stores, so that a
  trace shows its value at every moment, and it outlives an exception.
* `Tool.memory`: the environment in which a load returns what was stored last.
* `usb`: code that uses the transport only, and `wp_usb`, what it does inside a tool.
* `legalRun_exec`: what a device executes that keeps the fields and answers as a transport may.
-/

namespace Ezfadvance

open Interact Interact.Program

inductive CartridgeKind where
  | unknown
  | ez3Flash
  | officialGbaRom
  deriving DecidableEq

/-- The fields `kind_` and `linear_read_limit_`. -/
structure ReadOnlyCartridge where
  kind : CartridgeKind := .unknown
  linearReadLimit : UInt32 := 0x00800000
  deriving DecidableEq

namespace Tool

inductive Op where
  | usb (o : Transport.Op)
  | load
  | store (cartridge : ReadOnlyCartridge)
  /-- `SaveFileStore::write`, `write_binary_file`. -/
  | write (path data : Bytes)
  /-- `SaveFileStore::writeNew`: only a file that is not there yet. -/
  | writeNew (path data : Bytes)

abbrev Reply : Op → Type
  | .usb o => Transport.Reply o
  | .load => ReadOnlyCartridge
  | .store _ => Unit
  | .write _ _ => Bool
  | .writeNew _ _ => Bool

abbrev Event : Type := Interact.Event Op Reply

/-- A load gives what was stored last; nothing else touches the fields. -/
def memory : Env Op Reply ReadOnlyCartridge := fun c o r c' =>
  match o, r with
  | .load, r => r = c ∧ c' = c
  | .store fields, _ => c' = fields
  | .usb _, _ => c' = c
  | .write _ _, _ => c' = c
  | .writeNew _ _, _ => c' = c

def event (e : Transport.Event) : Event := ⟨.usb e.1, e.2⟩

def Legal : Event → Prop
  | ⟨.usb o, r⟩ => Transport.Legal ⟨o, r⟩
  | _ => True

/-- Sends only packets in `P`, selects no save bank and touches no file. -/
def Sends (P : Bytes → Prop) : Op → Prop
  | .usb o => Transport.Sends P o
  | .load => True
  | .store _ => True
  | .write _ _ => False
  | .writeNew _ _ => False

end Tool

open Tool

abbrev Tool : Type → Type := Program Tool.Op Tool.Reply StdException

/-- A catalog error leaves a tool as the `std::runtime_error` it is. -/
instance (priority := low) catalogErrors : MonadExceptOf CatalogError Tool where
  throw e := .throw (.runtimeError e.message)
  tryCatch p handle := p.tryCatch fun e =>
    if e = .runtimeError CatalogError.entryOutsideLoader.message then handle .entryOutsideLoader
    else .throw e

def usb {α : Type} (p : Usb StdException α) : Tool α := p.lift Op.usb

def load : Tool ReadOnlyCartridge := ask Op.load

def store (cartridge : ReadOnlyCartridge) : Tool Unit := ask (Op.store cartridge)

theorem always_usb {α : Type} {A : Op → Prop} {Q : Except StdException α → Prop}
    {p : Usb StdException α} (h : Always (fun o => A (.usb o)) Q p) : Always A Q (usb p) :=
  always_lift h

theorem runs_usb_iff {α : Type} {p : Usb StdException α} {trace : List Tool.Event}
    {out : Except StdException α} :
    Runs (usb p) trace out ↔ ∃ t, trace = t.map event ∧ Runs p t out :=
  runs_lift_iff

/-! ## Runs on the fields -/

/-- A run with legal answers that starts from the fields `c` and leaves the fields `c'`. -/
structure LegalRun {α : Type} (p : Tool α) (c : ReadOnlyCartridge) (trace : List Tool.Event)
    (out : Except StdException α) (c' : ReadOnlyCartridge) : Prop where
  run : Runs p trace out
  path : Path memory c trace c'
  legal : ∀ e ∈ trace, Legal e

section LegalRun

variable {α β : Type} {c c1 c2 : ReadOnlyCartridge} {t1 t2 : List Tool.Event}

theorem LegalRun.bind {p : Tool α} {f : α → Tool β} {a : α} {out : Except StdException β}
    (h1 : LegalRun p c t1 (.ok a) c1) (h2 : LegalRun (f a) c1 t2 out c2) :
    LegalRun (p >>= f) c (t1 ++ t2) out c2 :=
  ⟨h1.run.bind h2.run,
    path_append_iff.mpr ⟨c1, h1.path, h2.path⟩,
    List.forall_mem_append.mpr ⟨h1.legal, h2.legal⟩⟩

theorem legalRun_pure {a : α} : LegalRun (.pure a) c [] (.ok a) c := ⟨.pure, .nil, by simp⟩

theorem legalRun_load : LegalRun load c [⟨.load, c⟩] (.ok c) c :=
  ⟨.op .pure, .cons ⟨rfl, rfl⟩ .nil, by simp [Legal]⟩

theorem legalRun_store : LegalRun (store c1) c [⟨.store c1, ()⟩] (.ok ()) c1 :=
  ⟨.op .pure, .cons rfl .nil, by simp [Legal]⟩

theorem path_usb (t : List Transport.Event) : Path memory c (t.map event) c := by
  induction t with
  | nil => exact .nil
  | cons e t ih => exact .cons rfl ih

/-- The fields after a trace are determined. -/
theorem path_unique {t : List Tool.Event} (h1 : Path memory c t c1) (h2 : Path memory c t c2) :
    c1 = c2 := by
  induction h1 with
  | nil => exact (path_nil_iff.mp h2).symm
  | @cons s m s' o r t step _ ih =>
    obtain ⟨m', step', rest⟩ := path_cons_iff.mp h2
    have hm : m' = m := by
      cases o with
      | load => exact step'.2.trans step.2.symm
      | _ => exact step'.trans step.symm
    rw [hm] at rest
    exact ih rest

theorem legalRun_usb {p : Usb StdException α} {t : List Transport.Event}
    {out : Except StdException α} (run : Runs p t out) (hlegal : ∀ e ∈ t, Transport.Legal e) :
    LegalRun (usb p) c (t.map event) out c :=
  ⟨runs_usb_iff.mpr ⟨t, rfl, run⟩, path_usb t, List.forall_mem_map.mpr hlegal⟩

/-- What a device executes that keeps the fields and answers legally. -/
theorem legalRun_exec {σ : Type} {dev : σ → (o : Op) → Reply o × σ} {fields : σ → ReadOnlyCartridge}
    (hmemory : ∀ s o, memory (fields s) o (dev s o).1 (fields (dev s o).2))
    (hlegal : ∀ s o, Legal ⟨o, (dev s o).1⟩) (p : Tool α) (s : σ) :
    ∃ trace, Path (deviceEnv dev) s trace (exec dev p s).2 ∧
      LegalRun p (fields s) trace (exec dev p s).1 (fields (exec dev p s).2) := by
  obtain ⟨trace, run, path⟩ := @exec_runs _ _ _ _ _ dev p s
  refine ⟨trace, path, run, path.map (f := fields) ?_, path.forall_mem ?_⟩
  · intro s o r s' hstep
    have hmem := hmemory s o
    rwa [show dev s o = (r, s') from hstep] at hmem
  · intro s o r s' hstep
    have hleg := hlegal s o
    rwa [show dev s o = (r, s') from hstep] at hleg

end LegalRun

section Spec

variable {may : ReadOnlyCartridge × List Tool.Event → Op → Prop} {c : ReadOnlyCartridge}
  {h : List Tool.Event} {α β : Type}

theorem wp_load_bind {f : ReadOnlyCartridge → Tool β}
    {R : Except StdException β → ReadOnlyCartridge × List Tool.Event → Prop}
    (hmay : may (c, h) .load)
    (hf : Wp memory.recording may (f c) R (c, h ++ [⟨.load, c⟩])) :
    Wp memory.recording may (load >>= f) R (c, h) := by
  refine And.intro hmay fun r s' step => ?_
  obtain ⟨⟨rfl, hc⟩, hh⟩ := step
  rw [show s' = (r, h ++ [⟨.load, r⟩]) from Prod.ext hc hh]
  exact hf

theorem wp_store_bind {cartridge : ReadOnlyCartridge} {f : Unit → Tool β}
    {R : Except StdException β → ReadOnlyCartridge × List Tool.Event → Prop}
    (hmay : may (c, h) (.store cartridge))
    (hf : Wp memory.recording may (f ()) R (cartridge, h ++ [⟨.store cartridge, ()⟩])) :
    Wp memory.recording may (store cartridge >>= f) R (c, h) := by
  refine And.intro hmay fun r s' step => ?_
  rw [show s' = (cartridge, h ++ [⟨.store cartridge, ()⟩]) from Prod.ext step.1 step.2]
  exact hf

/-- Transport code leaves the fields alone, and the trace grows by a run of it. -/
theorem wp_usb {A : Transport.Op → Prop} {p : Usb StdException α} (hA : Always A Returns p)
    (hmay : ∀ t o, A o → may (c, h ++ t) (.usb o)) :
    Wp memory.recording may (usb p)
      (Gives fun a s => ∃ t, s = (c, h ++ t.map event) ∧ Runs p t (.ok a)) (c, h) := by
  induction p generalizing h with
  | pure a => exact ⟨[], by simp, .pure⟩
  | throw e => exact hA.elim
  | op o k ih =>
    refine And.intro (by simpa using hmay [] o hA.1) fun r s' step => ?_
    rw [show s' = (c, h ++ [⟨.usb o, r⟩]) from Prod.ext step.1 step.2]
    refine wp_gives_mono (ih r (hA.2 r) fun t o ho => ?_) ?_
    · rw [List.append_assoc]
      exact hmay _ o ho
    · rintro a s ⟨t, rfl, run⟩
      exact ⟨⟨o, r⟩ :: t, by rw [List.append_assoc]; rfl, .op run⟩

/-- What follows transport code, in terms of the run it made. -/
theorem wp_usb_bind {A : Transport.Op → Prop} {p : Usb StdException α} {f : α → Tool β}
    {Q : Except StdException β → ReadOnlyCartridge × List Tool.Event → Prop}
    (hA : Always A Returns p) (hmay : ∀ t o, A o → may (c, h ++ t) (.usb o))
    (hf : ∀ a t, Runs p t (.ok a) → Wp memory.recording may (f a) Q (c, h ++ t.map event)) :
    Wp memory.recording may (usb p >>= f) Q (c, h) := by
  refine wp_bind (wp_usb hA hmay) ?_
  rintro a s ⟨t, rfl, run⟩
  exact hf a t run

end Spec

end Ezfadvance
