import Ezfadvance.Tool
import Ezfadvance.Lib.Implement

/-!
# UsbDevice

The session with libusb (`usb_device.cpp`): a `UsbDevice` opens and claims the device and gives it back
in its destructor, and a `BulkTransport` carries out the transfers in between. Diagnostics are left out.

* `Process.Op`: what a whole program asks for: calls of libusb, its object's fields, and files.
* `UsbDevice.openDevice`, `UsbDevice.close`, `BulkTransport.perform`: as in the source.
* `withDevice`: the scope of a device, whose destructor follows `open` in any case. An exception that
  nothing catches ends a program, and whether it reaches the destructor then is left open.
* `Held`, `Held.Allowed`: what is held of libusb, and which calls may be made with that.
* `UsbDevice.Scope`: the calls that open and close a device, and whether it was opened.
* `withDevice_disciplined`: every call of a session is allowed, and nothing is held in the end.
* `withDevice_refines`: a session is a run of the tool, with the answers that `Transport.Legal` allows.
-/

namespace Ezfadvance

open Interact Interact.Program

/-! ## libusb -/

namespace Libusb

/-- What a bulk transfer from the device returns, and what it left in the buffer. -/
structure Received (length : Nat) where
  rc : Int
  transferred : Nat
  buffer : Vector UInt8 length

structure Sent where
  rc : Int
  transferred : Nat

inductive Op where
  | init
  | openDeviceWithVidPid (vendor product : UInt16)
  | setAutoDetachKernelDriver (enable : Bool)
  | claimInterface (interface : Nat)
  | bulkTransferOut (endpoint : UInt8) (data : Bytes)
  | bulkTransferIn (endpoint : UInt8) (length : Nat)
  | releaseInterface (interface : Nat)
  | close
  | exit

/-- A device that could not be opened is a null pointer, here `false`. -/
abbrev Reply : Op → Type
  | .init => Int
  | .openDeviceWithVidPid _ _ => Bool
  | .setAutoDetachKernelDriver _ => Int
  | .claimInterface _ => Int
  | .bulkTransferOut _ _ => Sent
  | .bulkTransferIn _ length => Received length
  | .releaseInterface _ => Int
  | .close => Unit
  | .exit => Unit

end Libusb

namespace Process

inductive Op where
  | libusb (o : Libusb.Op)
  | load
  | store (cartridge : ReadOnlyCartridge)
  | write (path data : Bytes)
  | writeNew (path data : Bytes)

abbrev Reply : Op → Type
  | .libusb o => Libusb.Reply o
  | .load => ReadOnlyCartridge
  | .store _ => Unit
  | .write _ _ => Bool
  | .writeNew _ _ => Bool

abbrev Event : Type := Interact.Event Op Reply

/-- A load gives what was stored last; nothing else touches the fields. -/
def memory : Env Op Reply ReadOnlyCartridge := fun c o r c' =>
  match o, r with
  | .load, r => r = c ∧ c' = c
  | .store fields, _ => c' = fields
  | .libusb _, _ => c' = c
  | .write _ _, _ => c' = c
  | .writeNew _ _, _ => c' = c

end Process

abbrev Process (ε : Type) : Type → Type := Program Process.Op Process.Reply ε

section Source

variable {ε α : Type}

def call (o : Libusb.Op) : Process ε (Libusb.Reply o) := ask (Process.Op.libusb o)

/-- A call whose result is not looked at. -/
def callIf (condition : Bool) (o : Libusb.Op) : Process ε Unit :=
  if condition then call o >>= fun _ => .pure () else .pure ()

/-! ## usb_device.cpp -/

inductive UsbOpenStatus where
  | success
  | initializationFailed
  | deviceNotFound
  | interfaceClaimFailed
  deriving DecidableEq

structure UsbOpenResult where
  status : UsbOpenStatus := .success
  libusbError : Int := 0

/-- Whether `context_` and `handle_` are set, and `interface_claimed_`. -/
structure UsbDevice where
  context : Bool := false
  handle : Bool := false
  interfaceClaimed : Bool := false
  opened : handle = true → context = true := by decide
  claimed : interfaceClaimed = true → handle = true := by decide

namespace UsbDevice

def vendorId : UInt16 := 0x0E6A
def productId : UInt16 := 0x5088
def interfaceNumber : Nat := 0

def close (device : UsbDevice) : Process ε UsbDevice := do
  callIf (device.handle && device.interfaceClaimed) (.releaseInterface interfaceNumber)
  callIf device.handle .close
  callIf device.context .exit
  return {}

/-- The kernel driver is detached on Linux only; a failure of that is a warning. -/
def openDevice (linux : Bool) (device : UsbDevice) : Process ε (UsbOpenResult × UsbDevice) := do
  let device ← device.close
  let rc ← call .init
  if rc ≠ 0 then return (⟨.initializationFailed, rc⟩, device)
  if !(← call (.openDeviceWithVidPid vendorId productId)) then
    return (⟨.deviceNotFound, 0⟩, { context := true })
  callIf linux (.setAutoDetachKernelDriver true)
  let rc ← call (.claimInterface interfaceNumber)
  if rc ≠ 0 then return (⟨.interfaceClaimFailed, rc⟩, { context := true, handle := true })
  return ({}, { context := true, handle := true, interfaceClaimed := true })

end UsbDevice

namespace BulkTransport

def endpointOut : UInt8 := 0x02
def endpointIn : UInt8 := 0x81

/-- `std::vector::resize`. -/
def resize (data : Bytes) (size : Nat) : Bytes :=
  data.take size ++ List.replicate (size - data.length) 0

def out (data : Bytes) : Process ε Bool := do
  let sent ← call (.bulkTransferOut endpointOut data)
  if sent.rc ≠ 0 then return false
  if sent.transferred ≠ data.length then return false
  return true

def inMax (maximum : Nat) : Process ε (Option Bytes) := do
  let received ← call (.bulkTransferIn endpointIn maximum)
  if received.rc ≠ 0 then return none
  return some (resize received.buffer.toList received.transferred)

def inExact (wanted : Nat) : Process ε (Option Bytes) := do
  match ← inMax wanted with
  | none => return none
  | some data => return if data.length ≠ wanted then none else some data

/-- What a tool asks for, carried out. -/
def perform : (o : Tool.Op) → Process ε (Tool.Reply o)
  | .usb (.out data) => out data
  | .usb (.inExact wanted) => inExact wanted
  | .usb (.inMax maximum) => inMax maximum
  | .usb (.selectBank _) => .pure ()
  | .load => ask Process.Op.load
  | .store cartridge => ask (Process.Op.store cartridge)
  | .write path data => ask (Process.Op.write path data)
  | .writeNew path data => ask (Process.Op.writeNew path data)

end BulkTransport

/-- A device is opened, used if that succeeded, and closed in the end. -/
def withDevice (linux : Bool) (failed : UsbOpenResult → α) (body : Program Tool.Op Tool.Reply ε α) :
    Process ε α := do
  let (result, device) ← UsbDevice.openDevice linux {}
  let use : Process ε α :=
    if result.status = .success then body.implement BulkTransport.perform else .pure (failed result)
  use.finallyDo (device.close >>= fun _ => .pure ())

end Source

/-! ## What is held -/

/-- The library context, the handle of the device and the claim on its interface. -/
structure Held where
  context : Bool := false
  handle : Bool := false
  interface : Bool := false

namespace Held

def after (held : Held) : (o : Libusb.Op) → Libusb.Reply o → Held
  | .init, (rc : Int) => if rc = 0 then { held with context := true } else held
  | .openDeviceWithVidPid _ _, (opened : Bool) => if opened then { held with handle := true } else held
  | .claimInterface _, (rc : Int) => if rc = 0 then { held with interface := true } else held
  | .releaseInterface _, _ => { held with interface := false }
  | .close, _ => { held with handle := false }
  | .exit, _ => { held with context := false }
  | _, _ => held

/-- Nothing is acquired over what is held, nothing is used that is not held, and what is given up is
held and rests on nothing that is still in use. -/
def Allowed (held : Held) : Process.Op → Prop
  | .libusb .init => held.context = false
  | .libusb (.openDeviceWithVidPid _ _) => held.context = true ∧ held.handle = false
  | .libusb (.setAutoDetachKernelDriver _) => held.handle = true ∧ held.interface = false
  | .libusb (.claimInterface _) => held.handle = true ∧ held.interface = false
  | .libusb (.bulkTransferOut _ _) => held.interface = true
  | .libusb (.bulkTransferIn _ _) => held.interface = true
  | .libusb (.releaseInterface _) => held.interface = true
  | .libusb .close => held.handle = true ∧ held.interface = false
  | .libusb .exit => held.context = true ∧ held.handle = false
  | _ => True

/-- The calls change what is held, and nothing else does. -/
def env : Env Process.Op Process.Reply Held := fun held o r held' =>
  match o, r with
  | .libusb o, r => held' = held.after o r
  | _, _ => held' = held

theorem exists_path (trace : List Process.Event) (held : Held) :
    ∃ held', Path env held trace held' := by
  induction trace generalizing held with
  | nil => exact ⟨held, .nil⟩
  | cons e trace ih =>
    obtain ⟨o, r⟩ := e
    have hstep : ∃ mid, env held o r mid := by
      cases o <;> exact ⟨_, rfl⟩
    obtain ⟨mid, hmid⟩ := hstep
    obtain ⟨held', path⟩ := ih mid
    exact ⟨held', .cons hmid path⟩

end Held

open Held

section Discipline

variable {ε α : Type} {s : Held}

theorem wp_libusb {o : Libusb.Op} {f : Libusb.Reply o → Process ε α}
    {Q : Except ε α → Held → Prop} (hallowed : s.Allowed (.libusb o))
    (h : ∀ r, Wp Held.env Allowed (f r) Q (s.after o r)) :
    Wp Held.env Allowed (call o >>= f) Q s :=
  ⟨hallowed, fun r _ hstep => by cases hstep; exact h r⟩

theorem wp_libusbIf {condition : Bool} {o : Libusb.Op} {Q : Unit → Held → Prop}
    (hallowed : condition = true → s.Allowed (.libusb o))
    (hcalled : ∀ r, condition = true → Q () (s.after o r)) (hnot : condition = false → Q () s) :
    Wp Held.env Allowed (callIf condition o : Process ε Unit) (Gives Q) s := by
  cases condition with
  | true => exact wp_libusb (hallowed rfl) fun r => hcalled r rfl
  | false => exact hnot rfl

namespace UsbDevice

def held (device : UsbDevice) : Held :=
  ⟨device.context, device.handle, device.interfaceClaimed⟩

/-- Whatever a device holds, `close` gives up, and nothing else. -/
theorem wp_close (device : UsbDevice) :
    Wp Held.env Allowed (device.close : Process ε UsbDevice)
      (Gives fun device' held => device' = {} ∧ held = {}) device.held := by
  obtain ⟨context, handle, claimed, hopened, hclaimed⟩ := device
  have hreleased : (handle && claimed) = claimed := by
    cases claimed with
    | false => exact Bool.and_false handle
    | true => rw [hclaimed rfl]; rfl
  rw [close]
  dsimp only [UsbDevice.held]
  rw [hreleased]
  refine wp_bind (wp_libusbIf (Q := fun _ held => held = ⟨context, handle, false⟩) (fun h => h)
    (fun _ _ => rfl) fun h => by rw [h]) fun _ held hheld => ?_
  subst hheld
  refine wp_bind (wp_libusbIf (Q := fun _ held => held = ⟨context, false, false⟩) (fun h => ⟨h, rfl⟩)
    (fun _ _ => rfl) fun h => by rw [h]) fun _ held hheld => ?_
  subst hheld
  exact wp_bind (wp_libusbIf (Q := fun _ held => held = {}) (fun h => ⟨h, rfl⟩) (fun _ _ => rfl)
    fun h => by rw [h]) fun _ held hheld => ⟨rfl, hheld⟩

/-- Whatever a device holds, `open` gives it up first; then the device holds what its fields say, and
the interface exactly after a success. -/
theorem wp_openDevice (linux : Bool) (device : UsbDevice) :
    Wp Held.env Allowed (device.openDevice linux : Process ε (UsbOpenResult × UsbDevice))
      (Gives fun opened held => held = opened.2.held ∧
        (opened.1.status = .success ↔ opened.2.interfaceClaimed = true)) device.held := by
  rw [openDevice]
  refine wp_bind (wp_close device) fun device' held ⟨hdevice, hheld⟩ => ?_
  subst hdevice
  subst hheld
  refine wp_libusb rfl fun rc => ?_
  by_cases hinit : rc ≠ 0
  · rw [if_pos hinit]
    refine ⟨if_neg hinit, by simp⟩
  rw [if_neg hinit]
  have hcontext : Held.after {} .init rc = { context := true } := if_pos (not_not.mp hinit)
  rw [hcontext]
  refine wp_libusb ⟨rfl, rfl⟩ fun found => ?_
  cases found with
  | false => exact ⟨rfl, by simp⟩
  | true =>
    refine wp_bind (wp_libusbIf (Q := fun _ held => held = ⟨true, true, false⟩) (fun _ => ⟨rfl, rfl⟩)
      (fun _ _ => rfl) fun _ => rfl) fun _ held hheld => ?_
    subst hheld
    refine wp_libusb ⟨rfl, rfl⟩ fun rc => ?_
    by_cases hclaim : rc ≠ 0
    · rw [if_pos hclaim]
      exact ⟨if_neg hclaim, by simp⟩
    · rw [if_neg hclaim]
      exact ⟨if_pos (not_not.mp hclaim), iff_of_true rfl rfl⟩

end UsbDevice

def Transfers : Process.Op → Prop
  | .libusb (.bulkTransferOut _ _) => True
  | .libusb (.bulkTransferIn _ _) => True
  | _ => False

/-- What is asked while the device is open. -/
def Tooling : Process.Op → Prop
  | .libusb o => Transfers (.libusb o)
  | _ => True

theorem Transfers.tooling : ∀ o, Transfers o → Tooling o
  | .libusb _, h => h
  | .load, _ => trivial
  | .store _, _ => trivial
  | .write _ _, _ => trivial
  | .writeNew _ _, _ => trivial

theorem always_libusb {A : Process.Op → Prop} {o : Libusb.Op} {f : Libusb.Reply o → Process ε α}
    (ho : A (.libusb o)) (hf : ∀ r, Always A Returns (f r)) : Always A Returns (call o >>= f) :=
  ⟨ho, hf⟩

theorem always_libusbIf {A : Process.Op → Prop} {condition : Bool} {o : Libusb.Op}
    (ho : A (.libusb o)) : Always A Returns (callIf condition o : Process ε Unit) := by
  cases condition with
  | true => exact always_libusb ho fun _ => trivial
  | false => trivial

namespace BulkTransport

theorem always_out {data : Bytes} : Always Transfers Returns (out data : Process ε Bool) := by
  refine always_libusb trivial fun sent => ?_
  split_ifs <;> trivial

theorem always_inMax {maximum : Nat} :
    Always Transfers Returns (inMax maximum : Process ε (Option Bytes)) := by
  refine always_libusb trivial fun received => ?_
  split_ifs <;> trivial

theorem always_inExact {wanted : Nat} :
    Always Transfers Returns (inExact wanted : Process ε (Option Bytes)) := by
  refine always_inMax.then fun data => ?_
  cases data <;> trivial

theorem always_transfer (o : Transport.Op) :
    Always Transfers Returns (perform (.usb o) : Process ε (Transport.Reply o)) := by
  cases o with
  | out => exact always_out
  | inExact => exact always_inExact
  | inMax => exact always_inMax
  | selectBank => trivial

theorem always_perform (o : Tool.Op) :
    Always Tooling Returns (perform o : Process ε (Tool.Reply o)) := by
  cases o with
  | usb o => exact (always_transfer o).weaken Transfers.tooling
  | load => exact always_ask trivial
  | store => exact always_ask trivial
  | write => exact always_ask trivial
  | writeNew => exact always_ask trivial

end BulkTransport

open BulkTransport

section Session

variable {linux : Bool} {failed : UsbOpenResult → α} {body : Program Tool.Op Tool.Reply ε α}
  {trace : List Process.Event} {out : Except ε α}

theorem wp_withDevice :
    Wp Held.env Allowed (withDevice linux failed body) (fun _ held => held = {}) {} := by
  rw [withDevice]
  refine wp_bind (UsbDevice.wp_openDevice linux {}) fun ⟨result, device⟩ held ⟨hheld, hstatus⟩ => ?_
  dsimp only at hheld hstatus ⊢
  refine wp_finallyDo (R := fun _ held => held = device.held) ?_ fun _ held hbody => ?_
  · by_cases hsuccess : result.status = .success
    · rw [if_pos hsuccess]
      have hinterface : device.held.interface = true := hstatus.mp hsuccess
      refine wp_mono (((always_any body).implement fun o _ => always_perform o).wp
        (I := fun held => held = device.held) ?_ ?_ hheld) fun _ _ h => h.2
      · rintro held o rfl ho
        cases o with
        | libusb o => cases o <;> first | exact hinterface | exact ho.elim
        | _ => trivial
      · rintro held o r held' ho hstep rfl
        cases o with
        | libusb o => cases o <;> first | exact hstep | exact ho.elim
        | _ => exact hstep
    · rw [if_neg hsuccess]
      exact hheld
  · subst hbody
    exact wp_bind (UsbDevice.wp_close device) fun _ _ h => h.2

/-- However the transfers go and whatever the tool does in between, an exception included: every call
of libusb is made with what it needs and over nothing that is held, and in the end nothing is held. -/
theorem withDevice_disciplined (run : Runs (withDevice linux failed body) trace out) :
    (∀ before o r rest, trace = before ++ ⟨o, r⟩ :: rest →
      ∃ held, Path Held.env {} before held ∧ held.Allowed o) ∧ Path Held.env {} trace {} := by
  obtain ⟨held, path⟩ := Held.exists_path trace {}
  obtain ⟨hallowed, hend⟩ := wp_withDevice.sound run path
  exact ⟨fun before o r rest h => hallowed h, hend ▸ path⟩

/-! ## The tool behind the device -/

/-- `inExact` gives the wanted number of bytes or none. -/
theorem perform_legal {o : Tool.Op} {r : Tool.Reply o} {part : List Process.Event}
    (h : Runs (perform o : Process ε (Tool.Reply o)) part (.ok r)) : Tool.Legal ⟨o, r⟩ := by
  cases o with
  | usb o =>
    cases o with
    | inExact wanted =>
      obtain ⟨received, _, _, _, _, hrest⟩ := runs_bind_ok h
      cases received with
      | none =>
        obtain ⟨_, hr⟩ := runs_pure_iff.mp hrest
        cases hr
        trivial
      | some data =>
        obtain ⟨_, hr⟩ := runs_pure_iff.mp hrest
        by_cases hlength : data.length ≠ wanted
        · rw [if_pos hlength] at hr
          cases hr
          trivial
        · rw [if_neg hlength] at hr
          cases hr
          exact not_not.mp hlength
    | _ => trivial
  | _ => trivial

/-- A transfer does not touch the fields of the tool. -/
theorem perform_memory {o : Tool.Op} {r : Tool.Reply o} {part : List Process.Event}
    {c c' : ReadOnlyCartridge} (h : Runs (perform o : Process ε (Tool.Reply o)) part (.ok r))
    (path : Path Process.memory c part c') : Tool.memory c o r c' := by
  have hask : ∀ {o' : Process.Op} {r' : Process.Reply o'},
      Runs (ask o' : Process ε (Process.Reply o')) part (.ok r') → Process.memory c o' r' c' := by
    intro o' r' h
    rw [runs_ask h] at path
    obtain ⟨_, hstep, hend⟩ := path_cons_iff.mp path
    rw [path_nil_iff] at hend
    exact hend ▸ hstep
  cases o with
  | usb o =>
    refine path.invariant (A := Transfers) (I := fun fields => fields = c) ?_
      ((always_transfer o).run h).1 rfl
    rintro fields o r fields' ho hstep rfl
    cases o with
    | libusb => exact hstep
    | _ => exact ho.elim
  | load => exact hask h
  | store => exact hask h
  | write => exact hask h
  | writeNew => exact hask h

/-- The fields see below what they see above. -/
theorem carries_memory {session : List Tool.Event} {below : List Process.Event}
    {c c' : ReadOnlyCartridge}
    (h : Carries (perform : (o : Tool.Op) → Process ε (Tool.Reply o)) session below)
    (path : Path Process.memory c below c') : Path Tool.memory c session c' := by
  induction h generalizing c with
  | nil =>
    rw [path_nil_iff] at path
    exact path ▸ .nil
  | cons answered _ ih =>
    obtain ⟨mid, hpart, hrest⟩ := path_append_iff.mp path
    exact .cons (perform_memory answered hpart) (ih hrest)

theorem always_close (device : UsbDevice) :
    Always (fun o => ¬ Tooling o) Returns (device.close : Process ε UsbDevice) :=
  (always_libusbIf not_false).then fun _ => (always_libusbIf not_false).then fun _ =>
    (always_libusbIf not_false).then fun _ => trivial

theorem always_openDevice (device : UsbDevice) :
    Always (fun o => ¬ Tooling o) Returns
      (device.openDevice linux : Process ε (UsbOpenResult × UsbDevice)) := by
  refine (always_close device).then fun device' => always_libusb not_false fun rc => ?_
  by_cases hinit : rc ≠ 0
  · rw [if_pos hinit]
    trivial
  rw [if_neg hinit]
  refine always_libusb not_false fun found => ?_
  cases found with
  | false => trivial
  | true =>
    refine (always_libusbIf not_false).then fun _ => always_libusb not_false fun rc => ?_
    by_cases hclaim : rc ≠ 0
    · rw [if_pos hclaim]
      trivial
    · rw [if_neg hclaim]
      trivial

/-- What opens and closes the device does not touch the fields. -/
theorem path_setup {t : List Process.Event} {c c' : ReadOnlyCartridge}
    (h : ∀ e ∈ t, ¬ Tooling e.1) (path : Path Process.memory c t c') : c' = c := by
  refine path.invariant (A := fun o => ¬ Tooling o) (I := fun fields => fields = c) ?_ h rfl
  rintro fields o r fields' ho hstep rfl
  cases o with
  | libusb => exact hstep
  | _ => exact absurd trivial ho

/-! ## The calls around a session -/

namespace UsbDevice

/-- libusb starts and finds the device. -/
def found : List Process.Event :=
  [⟨.libusb .init, (0 : Int)⟩, ⟨.libusb (.openDeviceWithVidPid vendorId productId), true⟩]

def detached (linux : Bool) (rc : Int) : List Process.Event :=
  if linux then [⟨.libusb (.setAutoDetachKernelDriver true), rc⟩] else []

def claim (rc : Int) : Process.Event := ⟨.libusb (.claimInterface interfaceNumber), rc⟩

/-- The calls that open the device and those that close it again. It is open exactly if the first end
with a claim of the interface that returned 0. -/
inductive Scope (linux : Bool) : Bool → List Process.Event → List Process.Event → Prop where
  | noLibrary {rc : Int} (failed : rc ≠ 0) : Scope linux false [⟨.libusb .init, rc⟩] []
  | notFound : Scope linux false
      [⟨.libusb .init, (0 : Int)⟩, ⟨.libusb (.openDeviceWithVidPid vendorId productId), false⟩]
      [⟨.libusb .exit, ()⟩]
  | notClaimed {warning rc : Int} (failed : rc ≠ 0) :
      Scope linux false (found ++ detached linux warning ++ [claim rc])
        [⟨.libusb .close, ()⟩, ⟨.libusb .exit, ()⟩]
  | claimed {warning released : Int} :
      Scope linux true (found ++ detached linux warning ++ [claim 0])
        [⟨.libusb (.releaseInterface interfaceNumber), released⟩, ⟨.libusb .close, ()⟩,
          ⟨.libusb .exit, ()⟩]

theorem runs_call_iff {o : Libusb.Op} {f : Libusb.Reply o → Process ε α} {t : List Process.Event}
    {out : Except ε α} : Runs (call o >>= f) t out ↔
      ∃ (r : Libusb.Reply o) (rest : List Process.Event), t = ⟨.libusb o, r⟩ :: rest ∧
        Runs (f r) rest out := runs_op_iff

/-- A call whose result is not looked at is made, or it is left out. -/
theorem runs_callIf {condition : Bool} {o : Libusb.Op} {t : List Process.Event}
    (run : Runs (callIf condition o : Process ε Unit) t (.ok ())) :
    condition = false ∧ t = [] ∨ condition = true ∧ ∃ r, t = [⟨.libusb o, r⟩] := by
  cases condition with
  | false => exact .inl ⟨rfl, (runs_pure_iff.mp run).1⟩
  | true =>
    obtain ⟨r, _, rfl, hrest⟩ := runs_call_iff.mp run
    obtain ⟨rfl, _⟩ := runs_pure_iff.mp hrest
    exact .inr ⟨rfl, r, rfl⟩

theorem runs_detached {t : List Process.Event}
    (run : Runs (callIf linux (.setAutoDetachKernelDriver true) : Process ε Unit) t (.ok ())) :
    ∃ warning, t = detached linux warning := by
  obtain ⟨rfl, rfl⟩ | ⟨rfl, warning, rfl⟩ := runs_callIf run
  · exact ⟨0, rfl⟩
  · exact ⟨warning, rfl⟩

/-- What a device holds is released in the order of its fields. -/
theorem runs_close {device device' : UsbDevice} {t : List Process.Event}
    (run : Runs (device.close : Process ε UsbDevice) t (.ok device')) :
    ∃ released : Int, t =
      (if device.handle && device.interfaceClaimed then
        [⟨.libusb (.releaseInterface interfaceNumber), released⟩] else []) ++
      ((if device.handle then [⟨.libusb .close, ()⟩] else []) ++
        if device.context then [⟨.libusb .exit, ()⟩] else []) := by
  obtain ⟨_, t1, _, rfl, hrelease, hrest⟩ := runs_bind_ok run
  obtain ⟨_, t2, _, rfl, hclose, hrest⟩ := runs_bind_ok hrest
  obtain ⟨_, t3, t4, rfl, hexit, hend⟩ := runs_bind_ok hrest
  obtain ⟨rfl, _⟩ := runs_pure_iff.mp hend
  have hlast : t2 ++ (t3 ++ []) = (if device.handle then [⟨.libusb .close, ()⟩] else []) ++
      if device.context then [⟨.libusb .exit, ()⟩] else [] := by
    rw [List.append_nil]
    congr 1
    · obtain ⟨h, rfl⟩ | ⟨h, _, rfl⟩ := runs_callIf hclose <;> rw [h] <;> rfl
    · obtain ⟨h, rfl⟩ | ⟨h, _, rfl⟩ := runs_callIf hexit <;> rw [h] <;> rfl
  rw [hlast]
  obtain ⟨h, rfl⟩ | ⟨h, released, rfl⟩ := runs_callIf hrelease
  · exact ⟨0, by rw [h]; rfl⟩
  · exact ⟨released, by rw [h]; rfl⟩

/-- The calls of `open` and of the `close` after it, in any run. -/
theorem runs_scope {result : UsbOpenResult} {device device' : UsbDevice}
    {opening closing : List Process.Event}
    (hopen : Runs (openDevice linux {} : Process ε _) opening (.ok (result, device)))
    (hclose : Runs (device.close : Process ε UsbDevice) closing (.ok device')) :
    Scope linux (decide (result.status = .success)) opening closing := by
  obtain ⟨released, rfl⟩ := runs_close hclose
  obtain ⟨rc, t1, rfl, hrun⟩ := runs_call_iff.mp hopen
  by_cases hinit : rc ≠ 0
  · rw [if_pos hinit] at hrun
    obtain ⟨rfl, hend⟩ := runs_pure_iff.mp hrun
    cases hend
    exact .noLibrary hinit
  rw [if_neg hinit] at hrun
  obtain rfl := not_not.mp hinit
  obtain ⟨opened, t2, rfl, hfind⟩ := runs_call_iff.mp hrun
  cases opened with
  | false =>
    obtain ⟨rfl, hend⟩ := runs_pure_iff.mp hfind
    cases hend
    exact .notFound
  | true =>
    obtain ⟨_, t3, t4, rfl, hdetach, hrest⟩ := runs_bind_ok hfind
    obtain ⟨warning, rfl⟩ := runs_detached hdetach
    obtain ⟨rc, t5, rfl, hlast⟩ := runs_call_iff.mp hrest
    by_cases hclaim : rc ≠ 0
    · rw [if_pos hclaim] at hlast
      obtain ⟨rfl, hend⟩ := runs_pure_iff.mp hlast
      cases hend
      exact .notClaimed hclaim
    · rw [if_neg hclaim] at hlast
      obtain rfl := not_not.mp hclaim
      obtain ⟨rfl, hend⟩ := runs_pure_iff.mp hlast
      cases hend
      exact .claimed

/-- They are no operations of the tool. -/
theorem Scope.not_tooling {opened : Bool} {opening closing : List Process.Event}
    (h : Scope linux opened opening closing) :
    (∀ e ∈ opening, ¬ Tooling e.1) ∧ ∀ e ∈ closing, ¬ Tooling e.1 := by
  have hopening : ∀ warning rc, ∀ e ∈ found ++ detached linux warning ++ [claim rc],
      ¬ Tooling e.1 := by
    intro warning rc
    have hfound : ∀ e ∈ found, ¬ Tooling e.1 := by simp [found, Tooling, Transfers]
    have hdetached : ∀ e ∈ detached linux warning, ¬ Tooling e.1 := by
      rw [detached]
      split <;> simp [Tooling, Transfers]
    simp only [List.forall_mem_append, List.forall_mem_singleton]
    exact ⟨⟨hfound, hdetached⟩, not_false⟩
  cases h with
  | noLibrary => simp [Tooling, Transfers]
  | notFound => simp [Tooling, Transfers]
  | notClaimed => exact ⟨hopening _ _, by simp [Tooling, Transfers]⟩
  | claimed => exact ⟨hopening _ _, by simp [Tooling, Transfers]⟩

end UsbDevice

/-- The scope of a device that could not be opened ends with what was provided for that; any other is a
run of the tool, whose events are carried out between the opening and the closing. -/
theorem withDevice_cases (run : Runs (withDevice linux failed body) trace out) :
    (∃ result opening closing, out = .ok (failed result) ∧ trace = opening ++ closing ∧
      UsbDevice.Scope linux false opening closing) ∨
      ∃ opening session below closing, trace = opening ++ (below ++ closing) ∧
        Runs body session out ∧
        Carries (perform : (o : Tool.Op) → Process ε (Tool.Reply o)) session below ∧
        UsbDevice.Scope linux true opening closing := by
  obtain ⟨⟨result, device⟩, opening, rest, rfl, _, _, hopen, hrest⟩ :=
    (always_openDevice {}).ends.split run
  have hclosing : Always (fun o => ¬ Tooling o) Returns
      (device.close >>= fun _ => .pure () : Process ε Unit) :=
    (always_close device).then fun _ => trivial
  obtain ⟨below, closing, rfl, huse, hlast⟩ := (runs_finallyDo_iff hclosing).mp hrest
  obtain ⟨_, closing, _, rfl, hclose, hend⟩ := runs_bind_ok hlast
  obtain ⟨rfl, _⟩ := runs_pure_iff.mp hend
  rw [List.append_nil]
  have hscope := UsbDevice.runs_scope hopen hclose
  by_cases hsuccess : result.status = .success
  · rw [decide_eq_true hsuccess] at hscope
    rw [if_pos hsuccess] at huse
    obtain ⟨session, hbody, hcarries⟩ := (runs_implement_iff always_perform).mp huse
    exact .inr ⟨opening, session, below, closing, rfl, hbody, hcarries, hscope⟩
  · rw [decide_eq_false hsuccess] at hscope
    rw [if_neg hsuccess] at huse
    obtain ⟨rfl, hout⟩ := runs_pure_iff.mp huse
    exact .inl ⟨result, opening, closing, hout, rfl, hscope⟩

end Session

/-- Whatever libusb returns, a device that opens carries out a run of the tool whose answers are legal
and whose fields are what was stored in them; a device that does not open makes no transfer. -/
theorem withDevice_refines {linux : Bool} {failed : UsbOpenResult → α} {body : Tool α}
    {trace : List Process.Event} {out : Except StdException α} {c c' : ReadOnlyCartridge}
    (run : Runs (withDevice linux failed body) trace out) (path : Path Process.memory c trace c') :
    (∃ result opening closing, out = .ok (failed result) ∧ c' = c ∧ trace = opening ++ closing ∧
      UsbDevice.Scope linux false opening closing) ∨
      ∃ opening session below closing, trace = opening ++ (below ++ closing) ∧
        LegalRun body c session out c' ∧
        Carries (perform : (o : Tool.Op) → Process StdException (Tool.Reply o)) session below ∧
        UsbDevice.Scope linux true opening closing := by
  obtain ⟨result, opening, closing, hout, rfl, hscope⟩ |
    ⟨opening, session, below, closing, rfl, hbody, hcarries, hscope⟩ := withDevice_cases run
  · obtain ⟨hopening, hclosing⟩ := hscope.not_tooling
    have hc := path_setup (List.forall_mem_append.mpr ⟨hopening, hclosing⟩) path
    exact .inl ⟨result, opening, closing, hout, hc, rfl, hscope⟩
  · obtain ⟨hopening, hclosing⟩ := hscope.not_tooling
    obtain ⟨c1, hp1, hp2⟩ := path_append_iff.mp path
    obtain ⟨c2, hp2, hp3⟩ := path_append_iff.mp hp2
    obtain rfl := path_setup hopening hp1
    obtain rfl := path_setup hclosing hp3
    exact .inr ⟨opening, session, below, closing, rfl,
      ⟨hbody, carries_memory hcarries hp2, hcarries.forall_mem perform_legal⟩, hcarries, hscope⟩

end Discipline

end Ezfadvance
