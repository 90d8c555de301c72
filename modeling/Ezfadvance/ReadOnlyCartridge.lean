import Ezfadvance.Extraction
import Ezfadvance.Tool

/-!
# ReadOnlyCartridge

The read session (`read_only_cartridge.cpp`, `read_session_transition.cpp`): startup and probes,
linear reads, the three read mappings and the classification of the cartridge.

* `ReadOnlyCartridge.read`, `initializeCartridge`, `prepareLinearForAddress`, `finishSession`, in the
  words of the source. What touches no field is transport code.
* `always_probe`, `always_readCatalog`: what the session sends, whatever the answers.
-/

namespace Ezfadvance

open Interact Interact.Program CartridgeFormat Segments Usb Protocol

namespace CartridgeFormat

def gbaHeaderChecksumValid (bytes : Bytes) : Bool :=
  if bytes.length < 0xC0 then false
  else (slice bytes 0xA0 0x1D).foldl (· - ·) 0 - 0x19 == bytes.getD 0xBD 0

def validGbaRomHeader (bytes : Bytes) : Bool :=
  decide (0xC0 ≤ bytes.length) && bytes.getD 0xB2 0 == 0x96 && gbaHeaderChecksumValid bytes

/-- The header check reads the title up to the checksum. -/
theorem validGbaRomHeader_congr {xs ys : Bytes} (hxs : 0xC0 ≤ xs.length) (hys : 0xC0 ≤ ys.length)
    (h : ∀ j, 0xA0 ≤ j → j < 0xC0 → xs[j]? = ys[j]?) :
    validGbaRomHeader xs = validGbaRomHeader ys := by
  have hgetD : ∀ j, 0xA0 ≤ j → j < 0xC0 → xs.getD j 0 = ys.getD j 0 := by
    intro j h1 h2
    rw [List.getD_eq_getElem?_getD, List.getD_eq_getElem?_getD, h j h1 h2]
  have hslice : slice xs 0xA0 0x1D = slice ys 0xA0 0x1D := by
    refine ext_getD (d := 0) (by rw [length_slice, length_slice]; omega) fun i hi => ?_
    rw [length_slice] at hi
    rw [getD_slice, getD_slice, if_pos (by omega), if_pos (by omega), hgetD _ (by omega) (by omega)]
  rw [validGbaRomHeader, validGbaRomHeader, gbaHeaderChecksumValid, gbaHeaderChecksumValid,
    if_neg (Nat.not_lt.mpr hxs), if_neg (Nat.not_lt.mpr hys), hslice,
    hgetD 0xB2 (by decide) (by decide), hgetD 0xBD (by decide) (by decide), decide_eq_true hxs,
    decide_eq_true hys]

end CartridgeFormat

structure GbaHeader where
  readable : Bool := false
  title : Bytes := []
  gameCode : Bytes := []
  makerCode : Bytes := []
  version : UInt8 := 0
  checksumOk : Bool := false
  deriving DecidableEq

def GbaHeader.parse (bytes : Bytes) : GbaHeader :=
  if bytes.length < 0xC0 then {}
  else
    { readable := true
      title := cleanAscii (slice bytes 0xA0 12)
      gameCode := cleanAscii (slice bytes 0xAC 4)
      makerCode := cleanAscii (slice bytes 0xB0 2)
      version := bytes.getD 0xBC 0
      checksumOk := gbaHeaderChecksumValid bytes }

/-! ## read_session_transition.cpp -/

namespace ReadSessionTransition

variable {ε : Type}

def readinessCommand : Bytes := command 0x98 0x00 0 0 0x00

def pollReady : Usb ε Bool := do
  if !(← out readinessCommand) then return false
  match ← inExact 1 with
  | none => return false
  | some response => return decide (response = [1])

def waitUntilReady : Nat → Usb ε Bool
  | 0 => .pure false
  | attempts + 1 => do
    if !(← out readinessCommand) then return false
    match ← inExact 1 with
    | none => return false
    | some response =>
      if response = [1] then return true
      else if response ≠ [0] then return false
      else waitUntilReady attempts

def finishReadinessTransition : Usb ε Bool := allOf [pollReady, pollReady, pollReady]

end ReadSessionTransition

open ReadSessionTransition

/-! ## read_only_cartridge.cpp -/

namespace ReadOnlyCartridge

section Session

variable {ε : Type}

def readCommand (address : UInt32) (piece : Nat) : Bytes :=
  command 0x91 0x00 (address / 2) (UInt32.ofNat piece) 0x00

def readFrom (byteAddress : UInt32) (length done : Nat) : Usb ε (Option Bytes) :=
  if done < length then do
    let piece := min 0x10000 (length - done)
    if !(← out (readCommand (byteAddress + UInt32.ofNat done) piece)) then return none
    match ← inExact piece with
    | none => return none
    | some input =>
      match ← readFrom byteAddress length (done + piece) with
      | none => return none
      | some rest => return some (input ++ rest)
  else .pure (some [])
termination_by length - done
decreasing_by omega

def read (byteAddress : UInt32) (length : Nat) : Usb StdException (Option Bytes) :=
  if byteAddress &&& 1 ≠ 0 then .throw (.runtimeError "read address must be word-aligned")
  else readFrom byteAddress length 0

structure ArmBranchProbe where
  bytes : Bytes
  target : Option UInt32

def readArmBranch (byteAddress : UInt32) : Usb StdException (Option ArmBranchProbe) := do
  match ← read byteAddress 4 with
  | none => return none
  | some bytes => return some ⟨bytes, armBranchTarget (readLe32 bytes 0)⟩

def readGbaHeader (byteAddress : UInt32) : Usb StdException (Option GbaHeader) := do
  match ← read byteAddress 0xC0 with
  | none => return none
  | some bytes => return some (GbaHeader.parse bytes)

def resetCommand : Bytes := command 0x97 0x00 0 0 0x00
def setupCommand : Bytes := command 0x99 0x00 1 0 0x00

def startup : Usb ε Bool := do
  if !(← out resetCommand) then return false
  match ← inExact 1 with
  | none => return false
  | some response =>
    if response.getD 0 0 ≠ 0 then return false
    else
      both (waitUntilReady 5) (do
        if !(← out setupCommand) then return false
        match ← inExact 13 with
        | none => return false
        | some echo => return decide (echo = setupCommand))

def probeUnlockTail : List Tx :=
  [.two 0xAA 0x55, .two 0x00 0x00, .two 0x00 0x00, .two 0x00 0x00]

def probePrefix (a0 a1 b0 b1 c0 c1 : UInt8) : List Tx :=
  [.two 0x55 0xAA, .two a0 a1, .two b0 b1, .two c0 c1] ++ probeUnlockTail

def probeReset (useF0 : Bool) : List Tx :=
  [.two (if useF0 then 0xF0 else 0xFF) (if useF0 then 0x00 else 0xFF)]

def command92TwoAt (address : UInt32) : Bytes := command 0x92 0x02 address 2 0x00

def tx92TwoAt (address : UInt32) (first second : UInt8) : Usb ε Bool :=
  commandDataEcho (command92TwoAt address) [first, second]

def read91Sub2Four : Usb ε (Option Bytes) := do
  if !(← out (command 0x91 0x02 0 4 0x00)) then return none
  inExact 4

def classifyProbeBehavior (_beforeFlashId afterFlashId : Bytes) : CartridgeKind :=
  if afterFlashId = [0x1C, 0x00, 0xB8, 0x00] ∨ afterFlashId = [0x1C, 0x00, 0xB9, 0x00] then .ez3Flash
  else .unknown

def classifyContentHeader (header : Bytes) : CartridgeKind :=
  if 0xC0 ≤ header.length ∧ (header.take 0xC0).all (· == 0xFF) then .ez3Flash
  else if validGbaRomHeader header then .officialGbaRom
  else .unknown

/-- The probes of `initializeCartridge`, with the two flash ids they read. -/
def probe : Usb ε (Option (Bytes × Bytes)) := do
  let started ← allOf [
    startup, sendAll (probePrefix 0 0 0 0 0 0), tx92TwoAt 0x555 0xAA 0x00,
    tx92TwoAt 0x2AA 0x55 0x00, tx92TwoAt 0x555 0x90 0x00]
  if !started then return none
  match ← read91Sub2Four with
  | none => return none
  | some beforeFlashId =>
    let probed ← sendAll (
      [.two 0x90 0x00] ++ probeReset true ++ probePrefix 0 0 0 0 0 0 ++ [.two 0x90 0x00])
    if !probed then return none
    match ← read91Sub2Four with
    | none => return none
    | some afterFlashId =>
      if !(← sendAll (probeReset false)) then return none
      return some (beforeFlashId, afterFlashId)

def primeCommand : Bytes := command 0x95 0x00 0x80 0 0x00

/-- The end of `initializeCartridge` on an EZ3 cartridge: the `0x95` read prime. -/
def readPrime : Usb StdException Bool := do
  if !(← out primeCommand) then return false
  match ← inExact 13 with
  | none => return false
  | some echo =>
    if echo ≠ primeCommand then return false
    else return (← read 0 0xAC).isSome

def flashStatus : List Tx := [.two 0xFF 0xFF]

def finishReadMapping : List Tx :=
  flashStatus ++ [.two 0x55 0xAA, .two 0x00 0x00, .two 0x00 0x00, .two 0x00 0x00]

/-- A mapping sequence; `selection` is what tells the three apart. -/
def mappingTransfers (selection : List Tx) : List Tx :=
  flashStatus ++ [.two 0x55 0xAA] ++ selection ++
    [.two 0xAA 0x55, .two 0x00 0x00, .two 0x00 0x00, .two 0x00 0x00] ++ finishReadMapping

def finishSession : Usb ε Bool := finishReadinessTransition

end Session

def prepareLinear (mappingLimit : UInt32) (selection : List Tx) : Tool Bool := do
  let cartridge ← load
  if cartridge.linearReadLimit ≥ mappingLimit then return true
  let prepared ← usb (sendAll (mappingTransfers selection))
  if prepared then store { cartridge with linearReadLimit := mappingLimit }
  return prepared

def selection16MiB : List Tx := [.two 0x02 0x00, .two 0x00 0x80, .two 0x00 0x00]
def selection24MiB : List Tx := [.two 0x02 0x00, .two 0x00 0xC0, .two 0x00 0x00]
def selection32MiB : List Tx := [.two 0x00 0x00, .two 0x00 0x00, .two 0x02 0x00]

def prepareLinear16MiB : Tool Bool := prepareLinear 0x01000000 selection16MiB
def prepareLinear24MiB : Tool Bool := prepareLinear 0x01800000 selection24MiB
def prepareLinear32MiB : Tool Bool := prepareLinear 0x02000000 selection32MiB

def prepareLinearForAddress (address : UInt32) : Tool Bool :=
  match requiredLinearReadLimit address with
  | none => .pure false
  | some limit =>
    if limit = 0x00800000 then .pure true
    else if limit = 0x01000000 then prepareLinear16MiB
    else if limit = 0x01800000 then prepareLinear24MiB
    else if limit = 0x02000000 then prepareLinear32MiB
    else .pure false

/-- The cartridge as the catalog reader uses it. -/
def reads : LinearReads Tool where
  read address length := usb (read address length)
  prepareLinearForAddress := prepareLinearForAddress

def classifyCartridgeContent : Tool CartridgeKind := do
  let discovery ← Ez3CatalogReader.read reads 0x02000000 Ez3CatalogParser.structuralSlotCount
  if discovery.status = .loaded then return .ez3Flash
  match ← usb (read 0 0xC0) with
  | none => return .unknown
  | some header => return classifyContentHeader header

def classify (beforeFlashId afterFlashId : Bytes) : Tool Unit := do
  store { ← load with kind := classifyProbeBehavior beforeFlashId afterFlashId }
  if (← load).kind = .unknown then
    let kind ← classifyCartridgeContent
    store { ← load with kind := kind }

def initializeCartridge : Tool Bool := do
  store { kind := .unknown, linearReadLimit := 0x00800000 }
  match ← usb probe with
  | none => return false
  | some (beforeFlashId, afterFlashId) =>
    classify beforeFlashId afterFlashId
    let cartridge ← load
    if cartridge.kind = .officialGbaRom then return true
    else if cartridge.kind ≠ .ez3Flash then return false
    else usb readPrime

/-! ## What the session sends -/

section Sends

variable {ε : Type} {P : Bytes → Prop}

theorem always_pollReady (h : P readinessCommand) :
    Always (Transport.Sends P) Returns (pollReady : Usb ε Bool) :=
  always_answer h (always_inExact trivial) trivial fun _ => trivial

theorem always_finishSession (h : P readinessCommand) :
    Always (Transport.Sends P) Returns (finishSession : Usb ε Bool) :=
  (always_pollReady h).both ((always_pollReady h).both ((always_pollReady h).both trivial))

theorem always_waitUntilReady (h : P readinessCommand) {attempts : Nat} :
    Always (Transport.Sends P) Returns (waitUntilReady attempts : Usb ε Bool) := by
  induction attempts with
  | zero => trivial
  | succ attempts ih =>
    refine always_answer h (always_inExact trivial) trivial fun response => ?_
    show Always _ _ (if response = [1] then _ else _)
    split
    · trivial
    · split
      · trivial
      · exact ih

theorem always_readFrom {byteAddress : UInt32} {length : Nat} (done : Nat)
    (h : ∀ done, done < length →
      P (readCommand (byteAddress + UInt32.ofNat done) (min 0x10000 (length - done)))) :
    Always (Transport.Sends P) Returns (readFrom byteAddress length done : Usb ε (Option Bytes)) := by
  induction done using readFrom.induct length with
  | case1 done hlt piece ih =>
    rw [readFrom, if_pos hlt]
    refine always_answer (h done hlt) (always_inExact trivial) trivial fun input => ?_
    refine ih.then fun rest => ?_
    cases rest with
    | none => trivial
    | some rest => trivial
  | case2 done hge =>
    rw [readFrom, if_neg hge]
    trivial

theorem always_read {byteAddress : UInt32} {length : Nat} (heven : byteAddress &&& 1 = 0)
    (h : ∀ done, done < length →
      P (readCommand (byteAddress + UInt32.ofNat done) (min 0x10000 (length - done)))) :
    Always (Transport.Sends P) Returns (read byteAddress length) := by
  rw [read, if_neg (not_not_intro heven)]
  exact always_readFrom 0 h

theorem always_startup (hreset : P resetCommand) (hready : P readinessCommand)
    (hsetup : P setupCommand) : Always (Transport.Sends P) Returns (startup : Usb ε Bool) := by
  refine always_answer hreset (always_inExact trivial) trivial fun response => ?_
  show Always _ _ (if response.getD 0 0 ≠ 0 then _ else _)
  split
  · trivial
  · exact (always_waitUntilReady hready).both
      (always_answer hsetup (always_inExact trivial) trivial fun _ => trivial)

theorem always_read91Sub2Four (h : P (command 0x91 0x02 0 4 0x00)) :
    Always (Transport.Sends P) Returns (read91Sub2Four : Usb ε (Option Bytes)) := by
  refine (always_out h).then fun sent => ?_
  cases sent with
  | false => trivial
  | true => exact always_inExact trivial

/-- The packets of the probes that are not control transfers. -/
def probeCommands : List Bytes :=
  [resetCommand, readinessCommand, setupCommand, command 0x91 0x02 0 4 0x00, command92TwoAt 0x555,
    command92TwoAt 0x2AA, [0xAA, 0x00], [0x55, 0x00], [0x90, 0x00]]

def probeTransfers : List Tx :=
  probePrefix 0 0 0 0 0 0 ++ probeReset true ++ probeReset false ++ [.two 0x90 0x00]

theorem always_probe (hcmd : ∀ data ∈ probeCommands, P data)
    (htx : ∀ tx ∈ probeTransfers, ∀ data ∈ tx.packets, P data) :
    Always (Transport.Sends P) Returns (probe : Usb ε (Option (Bytes × Bytes))) := by
  have hat : ∀ {address : UInt32} {first second : UInt8}, P (command92TwoAt address) →
      P [first, second] →
      Always (Transport.Sends P) Returns (tx92TwoAt address first second : Usb ε Bool) :=
    fun hc hd => always_commandDataEcho hc hd trivial
  have hsend : ∀ {transfers : List Tx}, (∀ tx ∈ transfers, tx ∈ probeTransfers) →
      Always (Transport.Sends P) Returns (sendAll transfers : Usb ε Bool) :=
    fun hsub => always_sendAll (fun tx h => htx tx (hsub tx h)) trivial
  have hid := @always_read91Sub2Four ε P (hcmd _ (by simp [probeCommands]))
  simp only [probeCommands, List.mem_cons, List.not_mem_nil, or_false, forall_eq_or_imp,
    forall_eq] at hcmd
  obtain ⟨hreset, hready, hsetup, _, h555, h2AA, hAA, h55, h90⟩ := hcmd
  have hstart : Always (Transport.Sends P) Returns (allOf [
      startup, sendAll (probePrefix 0 0 0 0 0 0), tx92TwoAt 0x555 0xAA 0x00,
      tx92TwoAt 0x2AA 0x55 0x00, tx92TwoAt 0x555 0x90 0x00] : Usb ε Bool) :=
    (always_startup hreset hready hsetup).both ((hsend (by decide)).both ((hat h555 hAA).both
      ((hat h2AA h55).both ((hat h555 h90).both trivial))))
  refine hstart.then fun started => ?_
  cases started with
  | false => trivial
  | true =>
    refine hid.then fun before => ?_
    cases before with
    | none => trivial
    | some before =>
      refine (hsend (by decide)).then fun probed => ?_
      cases probed with
      | false => trivial
      | true =>
        refine hid.then fun after => ?_
        cases after with
        | none => trivial
        | some after =>
          refine (hsend (by decide)).then fun done => ?_
          cases done with
          | false => trivial
          | true => trivial

theorem always_readPrime (hprime : P primeCommand) (hread : ∀ done, done < 0xAC →
      P (readCommand (0 + UInt32.ofNat done) (min 0x10000 (0xAC - done)))) :
    Always (Transport.Sends P) Returns readPrime := by
  refine always_answer hprime (always_inExact trivial) trivial fun echo => ?_
  show Always _ _ (if echo ≠ primeCommand then _ else _)
  split
  · trivial
  · exact (always_read rfl hread).then fun _ => trivial

/-- The control transfers of the three mapping sequences. -/
def mappingPackets : List Tx :=
  mappingTransfers selection16MiB ++ mappingTransfers selection24MiB ++
    mappingTransfers selection32MiB

theorem always_prepareLinear {limit : UInt32} {selection : List Tx}
    (htx : ∀ tx ∈ mappingTransfers selection, ∀ data ∈ tx.packets, P data) :
    Always (Tool.Sends P) Returns (prepareLinear limit selection) := by
  refine Always.then (always_ask trivial) fun cartridge => ?_
  show Always _ _ (if cartridge.linearReadLimit ≥ limit then _ else _)
  split
  · trivial
  · refine (always_usb (always_sendAll htx trivial)).then fun prepared => ?_
    cases prepared with
    | false => trivial
    | true => exact And.intro trivial fun _ => trivial

theorem always_prepareLinearForAddress {address : UInt32}
    (htx : ∀ tx ∈ mappingPackets, ∀ data ∈ tx.packets, P data) :
    Always (Tool.Sends P) Returns (prepareLinearForAddress address) := by
  simp only [mappingPackets, List.mem_append] at htx
  rw [prepareLinearForAddress]
  split
  · trivial
  · split
    · trivial
    · split
      · exact always_prepareLinear fun tx h => htx tx (.inl (.inl h))
      · split
        · exact always_prepareLinear fun tx h => htx tx (.inl (.inr h))
        · split
          · exact always_prepareLinear fun tx h => htx tx (.inr h)
          · trivial

end Sends

theorem even_of_dvd {a : UInt32} (h : 2 ∣ a.toNat) : a &&& 1 = 0 := by
  rw [← UInt32.toNat_inj, UInt32.toNat_and]
  change a.toNat &&& (2 ^ 1 - 1) = 0
  rw [Nat.and_two_pow_sub_one_eq_mod]
  omega

theorem even_add {start : UInt32} {offset : Nat} (hstart : 2 ∣ start.toNat) (hoff : 2 ∣ offset) :
    2 ∣ (start + UInt32.ofNat offset).toNat := by
  rw [UInt32.toNat_add, UInt32.toNat_ofNat']
  omega

/-- A read of one piece is one command and its answer. -/
theorem readFrom_piece {ε : Type} {byteAddress : UInt32} {length : Nat} (hpos : 0 < length)
    (hpiece : length ≤ 0x10000) : (readFrom byteAddress length 0 : Usb ε (Option Bytes)) =
      out (readCommand byteAddress length) >>= fun sent =>
        if sent then inExact length else .pure none := by
  have hzero : byteAddress + UInt32.ofNat 0 = byteAddress := UInt32.add_zero byteAddress
  have hend : (readFrom byteAddress length (0 + length) : Usb ε _) = .pure (some []) := by
    rw [readFrom, Nat.zero_add, if_neg (Nat.lt_irrefl _)]
  rw [readFrom, if_pos hpos, hzero, Nat.sub_zero, Nat.min_eq_right hpiece]
  refine congrArg (Program.op _) (funext fun sent => ?_)
  cases sent with
  | false => rfl
  | true =>
    refine congrArg (Program.op _) (funext fun input => ?_)
    cases input with
    | none => rfl
    | some input =>
      show (readFrom byteAddress length (0 + length) >>= _) = _
      rw [hend]
      show Program.pure (some (input ++ [])) = _
      rw [List.append_nil]

/-- A read of one piece that the transport answers. -/
theorem runs_read_piece {byteAddress : UInt32} {length : Nat} {data : Bytes}
    (heven : 2 ∣ byteAddress.toNat) (hpos : 0 < length) (hpiece : length ≤ 0x10000) :
    Runs (read byteAddress length)
      [⟨.out (readCommand byteAddress length), true⟩, ⟨.inExact length, some data⟩]
      (.ok (some data)) := by
  rw [read, if_neg (not_not_intro (even_of_dvd heven)), readFrom_piece hpos hpiece]
  exact .op (.op .pure)

theorem runs_read_piece_ok {byteAddress : UInt32} {length : Nat} {data : Bytes}
    {t : List Transport.Event} (hpos : 0 < length) (hpiece : length ≤ 0x10000)
    (h : Runs (read byteAddress length) t (.ok (some data))) :
    t = [⟨.out (readCommand byteAddress length), true⟩, ⟨.inExact length, some data⟩] := by
  rw [read] at h
  split at h
  · cases h
  · rw [readFrom_piece hpos hpiece] at h
    obtain ⟨sent, t1, t2, rfl, hout, hsent⟩ := runs_bind_ok h
    obtain rfl := runs_ask hout
    cases sent with
    | false => cases (runs_pure_iff.mp hsent).2
    | true =>
      obtain rfl := runs_ask hsent
      rfl

/-- A read whose first command is not sent. -/
theorem runs_read_fails {byteAddress : UInt32} {length : Nat} (heven : 2 ∣ byteAddress.toNat)
    (hpos : 0 < length) :
    Runs (read byteAddress length)
      [⟨.out (readCommand byteAddress (min 0x10000 length)), false⟩] (.ok none) := by
  have hzero : byteAddress + UInt32.ofNat 0 = byteAddress := UInt32.add_zero byteAddress
  rw [read, if_neg (not_not_intro (even_of_dvd heven)), readFrom, if_pos hpos, hzero, Nat.sub_zero]
  exact .op .pure

theorem always_readGbaHeader {P : Bytes → Prop} {byteAddress : UInt32}
    (heven : 2 ∣ byteAddress.toNat) (hread : ∀ done, done < 0xC0 →
      P (readCommand (byteAddress + UInt32.ofNat done) (min 0x10000 (0xC0 - done)))) :
    Always (Transport.Sends P) Returns (readGbaHeader byteAddress) := by
  refine (always_read (even_of_dvd heven) hread).then fun bytes => ?_
  cases bytes with
  | none => trivial
  | some bytes => trivial

/-! ## The catalog reader on the transport -/

theorem branchTarget_even {w target : UInt32} (h : armBranchTarget w = some target)
    (h8 : 8 ≤ target.toNat) : 2 ∣ target.toNat := by
  obtain ⟨_, h4, _, _⟩ := makeArmBranch_eq_ok.mp (makeArmBranch_of_target h h8)
  omega

/-- A loaded catalog is one that the parser accepted. -/
def Loads (imageLimit : UInt32) (entryLimit : Nat) (result : Ez3CatalogReadResult) : Prop :=
  result.status = .loaded → ∃ layout loader, result.catalog = some layout ∧
    Ez3CatalogParser.Accepted loader imageLimit layout ∧ layout.entries.length ≤ entryLimit

theorem loads_finish {imageLimit : UInt32} {entryLimit : Nat} {result : Ez3CatalogReadResult}
    {loader : Bytes} {parsed : Option Ez3CatalogLayout}
    (hspec : ∀ layout, parsed = some layout → Ez3CatalogParser.Accepted loader imageLimit layout) :
    Loads imageLimit entryLimit (Ez3CatalogReader.finish result entryLimit parsed) := by
  intro hloaded
  cases parsed with
  | none => cases hloaded
  | some layout =>
    dsimp only [Ez3CatalogReader.finish] at hloaded ⊢
    split at hloaded
    case isTrue => cases hloaded
    case isFalse hentries =>
      rw [if_neg hentries]
      exact ⟨layout, loader, rfl, hspec layout rfl, Nat.not_lt.mp hentries⟩

theorem always_readCatalog {P : Bytes → Prop} {imageLimit : UInt32} {entryLimit : Nat}
    (htx : ∀ tx ∈ mappingPackets, ∀ data ∈ tx.packets, P data)
    (hread : ∀ word length, P (command 0x91 0x00 word length 0x00)) :
    Always (Tool.Sends P) (Ends (Loads imageLimit entryLimit))
      (Ez3CatalogReader.read reads imageLimit entryLimit) := by
  have hone : ∀ {address : UInt32} {length : Nat}, address &&& 1 = 0 →
      Always (Tool.Sends P) Returns (usb (read address length)) :=
    fun heven => always_usb (always_read heven fun done _ => hread _ _)
  rw [Ez3CatalogReader.read]
  refine (hone rfl).bind (fun word _ => ?_) fun e he => he.elim
  cases word with
  | none => exact fun hno => by cases hno
  | some firstBytes =>
    dsimp only
    cases hbranch : armBranchTarget (readLe32 firstBytes 0) with
    | none => exact fun hno => by cases hno
    | some loaderStart =>
      dsimp only
      split
      case isTrue => exact fun hno => by cases hno
      case isFalse hrange =>
        refine (always_prepareLinearForAddress htx).bind (fun ready _ => ?_) fun e he => he.elim
        cases ready with
        | false => exact fun hno => by cases hno
        | true =>
          rw [not_or, UInt32.lt_iff_toNat_lt] at hrange
          have hC0 : (0xC0 : UInt32).toNat = 0xC0 := rfl
          refine (hone (even_of_dvd (branchTarget_even hbranch (by omega)))).bind
            (fun bytes _ => ?_) fun e he => he.elim
          cases bytes with
          | none => exact fun hno => by cases hno
          | some loader =>
            dsimp only
            obtain ⟨parsed, hparse, hspec⟩ := @Ez3CatalogParser.parse_total loader imageLimit
            rw [hparse]
            exact loads_finish hspec

end ReadOnlyCartridge

end Ezfadvance
