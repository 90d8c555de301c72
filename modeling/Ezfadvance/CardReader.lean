import Ezfadvance.Ez3CardWorkflow
import Ezfadvance.OfficialCartridge

/-!
# CardReader

The card inspector (`ezfadvanceIII_card_reader.cpp`): what it does with an official cartridge, and
which action it takes on an initialized one.

* `scanFrom`, `extractOfficialCartridge`: the 32-MiB scan with the header check after block 0.
* `blockExchange`: the reads of an image in 64-KiB blocks, all answered.
* `extractions_write_complete_images`: when a file is created, and with which bytes.
-/

namespace Ezfadvance

open Interact Interact.Program CartridgeFormat ReadOnlyCartridge ReadSessionTransition Tool Segments

namespace CartridgeFormat

/-- The loop of `trimmedGbaRomSize`. -/
def trimmedEnd (bytes : Bytes) : Nat → Nat
  | 0 => 0
  | last + 1 => if bytes.getD last 0 = 0xFF then trimmedEnd bytes last else last + 1

def supportedSizes : List Nat :=
  [0x00100000, 0x00200000, 0x00400000, 0x00800000, 0x01000000, 0x02000000]

def trimmedGbaRomSize (bytes : Bytes) : Option Nat :=
  let meaningfulEnd := trimmedEnd bytes bytes.length
  if meaningfulEnd = 0 then none
  else supportedSizes.find? fun size => decide (meaningfulEnd ≤ size ∧ size ≤ bytes.length)

/-- Every byte different from `FF` lies in the first `size` bytes. -/
def Holds (bytes : Bytes) (size : Nat) : Prop :=
  ∀ i b, bytes[i]? = some b → b ≠ 0xFF → i < size

theorem trimmedEnd_le (bytes : Bytes) (n : Nat) : trimmedEnd bytes n ≤ n := by
  induction n with
  | zero => exact Nat.le_refl 0
  | succ n ih =>
    rw [trimmedEnd]
    split
    · omega
    · exact Nat.le_refl _

theorem trimmedEnd_blank {bytes : Bytes} {n j : Nat} (hle : trimmedEnd bytes n ≤ j)
    (hlt : j < n) : bytes.getD j 0 = 0xFF := by
  induction n with
  | zero => omega
  | succ n ih =>
    rw [trimmedEnd] at hle
    split at hle
    case isTrue hff =>
      by_cases hj : j = n
      · rw [hj, hff]
      · exact ih hle (by omega)
    case isFalse => omega

theorem trimmedEnd_last {bytes : Bytes} {n : Nat} (hpos : trimmedEnd bytes n ≠ 0) :
    bytes.getD (trimmedEnd bytes n - 1) 0 ≠ 0xFF := by
  induction n with
  | zero => exact absurd rfl hpos
  | succ n ih =>
    rw [trimmedEnd] at hpos ⊢
    split at hpos
    case isTrue hff =>
      rw [if_pos hff]
      exact ih hpos
    case isFalse hff =>
      rw [if_neg hff]
      exact hff

theorem holds_iff {bytes : Bytes} {size : Nat} :
    Holds bytes size ↔ trimmedEnd bytes bytes.length ≤ size := by
  constructor
  · intro hholds
    by_cases hpos : trimmedEnd bytes bytes.length = 0
    · omega
    · have hle := trimmedEnd_le bytes bytes.length
      have hlast := trimmedEnd_last hpos
      have hin : trimmedEnd bytes bytes.length - 1 < bytes.length := by omega
      rw [List.getD_eq_getElem _ _ hin] at hlast
      have := hholds _ _ (List.getElem?_eq_getElem hin) hlast
      omega
  · intro hle i b hb hne
    obtain ⟨hi, hget⟩ := List.getElem?_eq_some_iff.mp hb
    by_cases hlt : i < size
    · exact hlt
    · have hff := trimmedEnd_blank (Nat.le_trans hle (Nat.not_lt.mp hlt)) hi
      rw [List.getD_eq_getElem _ _ hi, hget] at hff
      exact absurd hff hne

theorem supportedSizes_sorted : supportedSizes.Pairwise (· < ·) := by decide

/-- The trimmed size is the smallest supported one that drops no meaningful byte. -/
theorem trimmedGbaRomSize_spec {bytes : Bytes} {size : Nat}
    (h : trimmedGbaRomSize bytes = some size) :
    size ∈ supportedSizes ∧ size ≤ bytes.length ∧ Holds bytes size ∧
      ∀ smaller ∈ supportedSizes, Holds bytes smaller → size ≤ smaller := by
  rw [trimmedGbaRomSize] at h
  split at h
  · cases h
  · obtain ⟨hsize, before, after, hsplit, hbefore⟩ := List.find?_eq_some_iff_append.mp h
    rw [decide_eq_true_eq] at hsize
    refine ⟨by rw [hsplit]; simp, hsize.2, holds_iff.mpr hsize.1, fun smaller hmem hholds => ?_⟩
    have hsorted := supportedSizes_sorted
    rw [hsplit] at hmem hsorted
    obtain hmem | hmem := List.mem_append.mp hmem
    · have hno := hbefore smaller hmem
      rw [Bool.not_eq_true', decide_eq_false_iff_not] at hno
      have := (List.pairwise_append.mp hsorted).2.2 smaller hmem size (List.mem_cons_self ..)
      exact absurd ⟨holds_iff.mp hholds, by omega⟩ hno
    · obtain rfl | hmem := List.mem_cons.mp hmem
      · exact Nat.le_refl _
      · have := (List.pairwise_cons.mp (List.pairwise_append.mp hsorted).2.1).1 smaller hmem
        omega

end CartridgeFormat

structure CardReaderOptions where
  extract : Bool := false
  romNumber : Option Nat := none
  outputPath : Bytes := []

inductive CardReaderAction where
  | inspectOfficial
  | extractOfficial
  | inspectEz3
  | extractEz3 (romNumber : Nat)
  | reject
  deriving DecidableEq

def decideCardReaderAction (kind : CartridgeKind) (options : CardReaderOptions) :
    CardReaderAction :=
  match kind with
  | .officialGbaRom =>
    if options.romNumber.isSome then .reject
    else if options.extract then .extractOfficial else .inspectOfficial
  | .ez3Flash =>
    if !options.extract then .inspectEz3 else .extractEz3 (options.romNumber.getD 1)
  | .unknown => .reject

namespace CardReader

def dumpSize : Nat := 0x02000000
def blockSize : Nat := 0x10000

def inspectOfficialCartridge : Tool Int := do
  let header ← usb (read 0 0xC0)
  let headerOk := match header with
    | none => false
    | some bytes => validGbaRomHeader bytes
  if !headerOk then
    if !(← usb finishSession) then return 2
    return 3
  if !(← usb finishSession) then return 2
  return 0

/-- The flags of the scan, and the blocks read so far. -/
structure OfficialScan where
  readOk : Bool := true
  headerChecked : Bool := false
  headerOk : Bool := false
  image : Bytes := []

/-- What the loop makes of a block that was read. -/
def OfficialScan.add (scan : OfficialScan) (offset : Nat) (block : Bytes) : OfficialScan :=
  let image := scan.image ++ block
  if offset = 0 then
    { readOk := validGbaRomHeader block, headerChecked := true,
      headerOk := validGbaRomHeader block, image := image }
  else { scan with image := image }

def scanFrom (offset : Nat) (scan : OfficialScan) : Usb StdException OfficialScan :=
  if offset < dumpSize ∧ scan.readOk then do
    match ← read (UInt32.ofNat offset) blockSize with
    | none => scanFrom (offset + blockSize) { scan with readOk := false }
    | some block => scanFrom (offset + blockSize) (scan.add offset block)
  else .pure scan
termination_by dumpSize - offset
decreasing_by
  all_goals
    simp only [blockSize]
    omega

/-- What follows the scan, once the session was closed or not. -/
def finishExtraction (scan : OfficialScan) (outputPath : Bytes) (finishOk : Bool) : Tool Int :=
  if scan.headerChecked && !scan.headerOk then .pure 3
  else if !scan.readOk then .pure 2
  else if !finishOk then .pure 2
  else
    match trimmedGbaRomSize scan.image with
    | none => .pure 3
    | some outputSize => do
      if !(← ask (Op.write outputPath (scan.image.take outputSize))) then return 2
      return 0

def extractOfficialCartridge (outputPath : Bytes) : Tool Int := do
  let scan ← usb (scanFrom 0 {})
  let finishOk ← usb finishSession
  finishExtraction scan outputPath finishOk

/-- The tool once the device is open. -/
def run (options : CardReaderOptions) : Tool Int := do
  if !(← initializeCartridge) then return 2
  match decideCardReaderAction (← load).kind options with
  | .inspectOfficial => inspectOfficialCartridge
  | .extractOfficial => extractOfficialCartridge options.outputPath
  | .inspectEz3 => Ez3CardWorkflow.run none
  | .extractEz3 romNumber => Ez3CardWorkflow.run (some ⟨romNumber, options.outputPath⟩)
  | .reject =>
    if !(← usb finishSession) then return 2
    return 1

/-! ## Complete reads -/

/-- The reads of `image` in 64-KiB blocks, from `offset` on, all answered. -/
def blockExchange (start : UInt32) (image : Bytes) (offset : Nat) : List Transport.Event :=
  if offset < image.length then
    let block := slice image offset 0x10000
    ⟨.out (readCommand (start + UInt32.ofNat offset) block.length), true⟩ ::
      ⟨.inExact block.length, some block⟩ :: blockExchange start image (offset + 0x10000)
  else []
termination_by image.length - offset
decreasing_by omega

/-- The three readiness polls, all answered with 1. -/
def closedSession : List Transport.Event :=
  [⟨.out readinessCommand, true⟩, ⟨.inExact 1, some [1]⟩,
    ⟨.out readinessCommand, true⟩, ⟨.inExact 1, some [1]⟩,
    ⟨.out readinessCommand, true⟩, ⟨.inExact 1, some [1]⟩]

theorem runs_pollReady {t : List Transport.Event}
    (h : Runs (pollReady : Usb StdException Bool) t (.ok true)) :
    t = [⟨.out readinessCommand, true⟩, ⟨.inExact 1, some [1]⟩] := by
  obtain ⟨response, _, rfl, hresponse⟩ :=
    Iff.mp (runs_answerExact_iff Bool.false_ne_true (by rfl)) h
  obtain ⟨rfl, rfl⟩ := runs_pure_decide_iff.mp hresponse
  rfl

theorem runs_finishSession {t : List Transport.Event}
    (h : Runs (finishSession : Usb StdException Bool) t (.ok true)) : t = closedSession := by
  simp only [finishSession, finishReadinessTransition, allOf, runs_both_true_iff,
    runs_pure_iff] at h
  obtain ⟨_, _, rfl, h1, _, _, rfl, h2, _, _, rfl, h3, rfl, _⟩ := h
  rw [runs_pollReady h1, runs_pollReady h2, runs_pollReady h3]
  rfl

/-- A full block, or a last one with nothing behind it. -/
theorem take_drop_block {block rest : Bytes} {n total : Nat} (hblock : block.length = min n total)
    (hrest : rest.length = total - n) :
    (block ++ rest).take n = block ∧ (block ++ rest).drop n = rest := by
  by_cases hn : n ≤ total
  · rw [Nat.min_eq_left hn] at hblock
    rw [← hblock]
    exact ⟨List.take_left, List.drop_left⟩
  · have hnil : rest = [] := List.eq_nil_of_length_eq_zero (by omega)
    rw [hnil, List.append_nil]
    exact ⟨List.take_of_length_le (by omega), List.drop_of_length_le (by omega)⟩

/-- The blocks from `offset` on: each is read whole, and they come in order. -/
theorem runs_readBlocks {start : UInt32} {size : Nat} {t : List Transport.Event} {rest : Bytes}
    (offset : Nat) (hlegal : ∀ e ∈ t, Transport.Legal e)
    (h : Runs (Ez3CardWorkflow.readBlocks start size offset) t (.ok (some rest))) :
    rest.length = size - offset ∧ ∀ image : Bytes, image.length = size →
      image.drop offset = rest → t = blockExchange start image offset := by
  induction offset using Ez3CardWorkflow.readBlocks.induct size generalizing t rest with
  | case1 offset hlt ih =>
    rw [Ez3CardWorkflow.readBlocks, if_pos hlt] at h
    dsimp only at h
    obtain ⟨block, t1, t2, rfl, hread, hblock⟩ := runs_bind_ok h
    obtain ⟨hl1, hl2⟩ := List.forall_mem_append.mp hlegal
    cases block with
    | none => cases (runs_pure_iff.mp hblock).2
    | some block =>
      obtain ⟨rest', t3, t4, rfl, hrest, hpure⟩ := runs_bind_ok hblock
      obtain ⟨hl3, _⟩ := List.forall_mem_append.mp hl2
      cases rest' with
      | none => cases (runs_pure_iff.mp hpure).2
      | some rest' =>
        obtain ⟨rfl, heq⟩ := runs_pure_iff.mp hpure
        cases heq
        have ht1 := runs_read_piece_ok (by omega) (by omega) hread
        have hlen : block.length = min 0x10000 (size - offset) := by
          rw [ht1] at hl1
          exact hl1 ⟨.inExact _, some block⟩ (by simp)
        obtain ⟨hrestlen, hexchange⟩ := ih hl3 hrest
        refine ⟨by rw [List.length_append]; omega, fun image hsize hdrop => ?_⟩
        have hleft : rest'.length = size - offset - 0x10000 := by rw [hrestlen, Nat.sub_sub]
        obtain ⟨htake, hdrop'⟩ := take_drop_block hlen hleft
        rw [← hdrop] at htake hdrop'
        rw [List.drop_drop] at hdrop'
        have hslice : slice image offset 0x10000 = block := htake
        rw [blockExchange, if_pos (by omega), hexchange image hsize hdrop', ht1]
        dsimp only
        rw [hslice, hlen, List.append_nil]
        rfl
  | case2 offset hge =>
    rw [Ez3CardWorkflow.readBlocks, if_neg hge] at h
    obtain ⟨rfl, heq⟩ := runs_pure_iff.mp h
    cases heq
    refine ⟨by rw [List.length_nil]; omega, fun image hsize _ => ?_⟩
    rw [blockExchange, if_neg (by omega)]

theorem scanFrom_stop {offset : Nat} {scan : OfficialScan} (h : scan.readOk = false) :
    scanFrom offset scan = .pure scan := by
  rw [scanFrom, if_neg (by simp [h])]

/-- What is read on from a scan that stopped is that scan. -/
theorem runs_scanFrom_ok {offset : Nat} {scan scan' : OfficialScan} {t : List Transport.Event}
    (h : Runs (scanFrom offset scan) t (.ok scan')) (hok : scan'.readOk = true) :
    scan.readOk = true := by
  by_contra hstop
  rw [scanFrom_stop (Bool.not_eq_true _ ▸ hstop)] at h
  obtain ⟨_, heq⟩ := runs_pure_iff.mp h
  cases heq
  exact hstop hok

theorem OfficialScan.image_add (scan : OfficialScan) (offset : Nat) (block : Bytes) :
    (scan.add offset block).image = scan.image ++ block := by
  rw [OfficialScan.add]
  split <;> rfl

/-- A scan goes on behind the first block only if its header is valid. -/
theorem OfficialScan.valid_of_add {scan : OfficialScan} {block : Bytes}
    (h : (scan.add 0 block).readOk = true) : validGbaRomHeader block = true := by
  rw [OfficialScan.add, if_pos rfl] at h
  exact h

/-- The parts of an image whose beginning is known. -/
theorem split_of_take {image front block : Bytes} {n : Nat}
    (h : image.take (front.length + n) = front ++ block) :
    image.take front.length = front ∧ slice image front.length n = block := by
  constructor
  · have := congrArg (List.take front.length) h
    rwa [List.take_take, Nat.min_eq_left (Nat.le_add_right ..), List.take_left] at this
  · have := congrArg (List.drop front.length) h
    rwa [List.drop_take, Nat.add_sub_cancel_left, List.drop_left] at this

/-- A scan that ends well has read every block, and has found the header valid in the first. -/
theorem runs_scanFrom (offset : Nat) (scan : OfficialScan) {t : List Transport.Event}
    {scan' : OfficialScan} (hlegal : ∀ e ∈ t, Transport.Legal e)
    (h : Runs (scanFrom offset scan) t (.ok scan')) (hok : scan'.readOk = true)
    (hlen : scan.image.length = offset) (hdvd : 0x10000 ∣ offset) (hle : offset ≤ dumpSize) :
    scan'.image.length = dumpSize ∧ scan'.image.take offset = scan.image ∧
      t = blockExchange 0 scan'.image offset ∧
      (offset = 0 → validGbaRomHeader (slice scan'.image 0 0x10000) = true) := by
  induction offset, scan using scanFrom.induct generalizing t with
  | case1 offset scan hmore ihfail ih =>
    rw [scanFrom, if_pos hmore] at h
    obtain ⟨block, t1, t2, rfl, hread, hrest⟩ := runs_bind_ok h
    obtain ⟨hl1, hl2⟩ := List.forall_mem_append.mp hlegal
    cases block with
    | none => cases runs_scanFrom_ok hrest hok
    | some block =>
      dsimp only at hrest
      have hblock : block.length = 0x10000 := by
        rw [runs_read_piece_ok (by decide) (by decide) hread] at hl1
        exact hl1 ⟨.inExact blockSize, some block⟩ (by simp)
      have hlt := hmore.1
      simp only [dumpSize] at hlt
      obtain ⟨hlen', htake, hexchange, _⟩ := ih block hl2 hrest
        (by rw [OfficialScan.image_add, List.length_append, hlen, hblock]; rfl)
        (Nat.dvd_add hdvd (Nat.dvd_refl _)) (by simp only [blockSize, dumpSize]; omega)
      rw [OfficialScan.image_add, ← hlen] at htake
      obtain ⟨hbefore, hslice⟩ := split_of_take htake
      rw [hlen] at hbefore hslice
      refine ⟨hlen', hbefore, ?_, ?_⟩
      · rw [blockExchange, if_pos (by omega), runs_read_piece_ok (by decide) (by decide) hread,
          hexchange]
        dsimp only
        rw [← blockSize, hslice, hblock, UInt32.zero_add]
        rfl
      · rintro rfl
        rw [← blockSize, hslice]
        exact OfficialScan.valid_of_add (runs_scanFrom_ok hrest hok)
  | case2 offset scan hdone =>
    rw [scanFrom, if_neg hdone] at h
    obtain ⟨rfl, heq⟩ := runs_pure_iff.mp h
    cases heq
    have hend : scan'.image.length = dumpSize := by
      have hge : ¬ offset < dumpSize := fun hlt => hdone ⟨hlt, hok⟩
      omega
    refine ⟨hend, by rw [List.take_of_length_le (by omega)], ?_, fun hzero => ?_⟩
    · rw [blockExchange, if_neg (by omega)]
    · exact absurd (hend.symm.trans (hlen.trans hzero)) (by decide)

theorem always_scanFrom {P : Bytes → Prop}
    (hread : ∀ word length, P (command 0x91 0x00 word length 0x00)) (offset : Nat)
    (scan : OfficialScan) (hdvd : 2 ∣ offset) :
    Always (Transport.Sends P) Returns (scanFrom offset scan) := by
  induction offset, scan using scanFrom.induct with
  | case1 offset scan hmore ihfail ih =>
    rw [scanFrom, if_pos hmore]
    have heven : 2 ∣ (UInt32.ofNat offset).toNat := by
      rw [UInt32.toNat_ofNat']
      omega
    have hnext : 2 ∣ offset + blockSize := Nat.dvd_add hdvd (by decide)
    refine (always_read (even_of_dvd heven) fun _ _ => hread _ _).then fun block => ?_
    cases block with
    | none => exact ihfail hnext
    | some block => exact ih block hnext
  | case2 offset scan hdone =>
    rw [scanFrom, if_neg hdone]
    trivial

/-! ## Creating the file -/

/-- An operation that leaves the files alone. -/
def NoFile : Tool.Op → Prop
  | .write _ _ => False
  | .writeNew _ _ => False
  | _ => True

/-- A file is written only when the trace so far is complete for it. -/
def Creates (Complete : List Tool.Event → Bytes → Bytes → Prop)
    (s : ReadOnlyCartridge × List Tool.Event) : Tool.Op → Prop
  | .write path data => (∀ e ∈ s.2, Legal e) → Complete s.2 path data
  | .writeNew _ _ => False
  | _ => True

/-- The whole extent was read, reconstructed and found valid, and the session closed. -/
def Ez3Complete (entries : List CatalogEntry) (loaderStart : UInt32) (isSingle : Bool)
    (request : Ez3ExtractionRequest) (h : List Tool.Event) (path data : Bytes) : Prop :=
  path = request.outputPath ∧ 0 < request.romNumber ∧ ∃ entry inclusiveEnd image before,
    entries[request.romNumber - 1]? = some entry ∧
    entry.storedEnd Ez3CardWorkflow.cardImageLimit = some inclusiveEnd ∧
    entry.start ≤ inclusiveEnd ∧ image.length = (inclusiveEnd - entry.start).toNat + 1 ∧
    h = before ++ (blockExchange entry.start image 0).map event ++ closedSession.map event ∧
    reconstructEz3Rom image entry (request.romNumber - 1 == 0) entry.start loaderStart
      (if isSingle then 0x660 else Ez3CatalogParser.loaderReadSize) = (data, true) ∧
    validGbaRomHeader data = true

/-- All 32 MiB were read, the first block has a valid header, and the session was closed; what is
written is the shortest supported prefix that holds every byte different from `FF`. -/
def OfficialComplete (outputPath : Bytes) (h : List Tool.Event) (path data : Bytes) : Prop :=
  path = outputPath ∧ ∃ image size, image.length = dumpSize ∧
    h = (blockExchange 0 image 0).map event ++ closedSession.map event ∧
    validGbaRomHeader (slice image 0 0x10000) = true ∧ data = image.take size ∧
    size ∈ supportedSizes ∧ Holds image size ∧
    ∀ smaller ∈ supportedSizes, Holds image smaller → size ≤ smaller

section Specs

variable {Complete : List Tool.Event → Bytes → Bytes → Prop} {c : ReadOnlyCartridge}
  {h : List Tool.Event}

theorem creates_of_noFile {s : ReadOnlyCartridge × List Tool.Event} {o : Tool.Op} (ho : NoFile o) :
    Creates Complete s o := by
  cases o with
  | write path data => exact ho.elim
  | writeNew path data => exact ho.elim
  | _ => trivial

theorem noFile_of_sends {P : Bytes → Prop} {o : Tool.Op} (ho : Tool.Sends P o) : NoFile o := by
  cases o with
  | write path data => exact ho.elim
  | writeNew path data => exact ho.elim
  | _ => trivial

theorem wp_noFile {α : Type} {p : Tool α} (hA : Always NoFile Returns p) :
    Wp memory.recording (Creates Complete) p (fun _ _ => True) (c, h) :=
  wp_mono (hA.wp_grown fun _ _ => creates_of_noFile) fun _ _ _ => trivial

theorem always_finish_any : Always (fun _ => True) Returns (finishSession : Usb StdException Bool) :=
  (@always_finishSession _ (fun _ => True) trivial).weaken fun _ _ => trivial

theorem noFile_failAfterCleanup {status : Int} :
    Always NoFile Returns (Ez3CardWorkflow.failAfterCleanup status) := by
  refine (always_usb (always_finish_any.weaken fun _ _ => trivial)).then fun ok => ?_
  cases ok with
  | false => trivial
  | true => trivial

theorem wp_writeRom {outputPath rom : Bytes}
    (hcomplete : (∀ e ∈ h, Legal e) → Complete (h ++ closedSession.map event) outputPath rom) :
    Wp memory.recording (Creates Complete) (Ez3CardWorkflow.writeRom outputPath rom)
      (fun _ _ => True) (c, h) := by
  refine wp_usb_bind always_finish_any (fun _ _ _ => trivial) fun ok t run => ?_
  cases ok with
  | false => trivial
  | true =>
    rw [runs_finishSession run]
    refine And.intro (fun hlegal => ?_) fun written s _ => ?_
    · exact hcomplete fun e he => hlegal e (List.mem_append_left _ he)
    · cases written with
      | false => trivial
      | true => trivial

/-- An odd start makes the first read throw. -/
theorem readBlocks_odd {start : UInt32} {size : Nat} (hodd : ¬ 2 ∣ start.toNat) (hpos : 0 < size) :
    ∃ e, Ez3CardWorkflow.readBlocks start size 0 = .throw e := by
  have hzero : start + UInt32.ofNat 0 = start := UInt32.add_zero start
  have hand : start &&& 1 ≠ 0 := by
    intro hand
    have := congrArg UInt32.toNat hand
    rw [UInt32.toNat_and] at this
    change start.toNat &&& (2 ^ 1 - 1) = 0 at this
    rw [Nat.and_two_pow_sub_one_eq_mod] at this
    omega
  refine ⟨.runtimeError "read address must be word-aligned", ?_⟩
  have hthrow : ∀ length, ReadOnlyCartridge.read start length =
      .throw (.runtimeError "read address must be word-aligned") := fun length => by
    rw [ReadOnlyCartridge.read, if_pos hand]
  rw [Ez3CardWorkflow.readBlocks, if_pos hpos, hzero]
  dsimp only
  rw [hthrow]
  rfl

theorem wp_extractExtent {entry : CatalogEntry} {index : Nat} {inclusiveEnd loaderStart : UInt32}
    {isSingle : Bool} {outputPath : Bytes}
    (hcomplete : ∀ before image rom, image.length = (inclusiveEnd - entry.start).toNat + 1 →
      Ez3CardWorkflow.reconstructed image entry index loaderStart isSingle = some rom →
      Complete (before ++ (blockExchange entry.start image 0).map event ++ closedSession.map event)
        outputPath rom) :
    Wp memory.recording (Creates Complete)
      (Ez3CardWorkflow.extractExtent entry index inclusiveEnd loaderStart isSingle outputPath)
      (fun _ _ => True) (c, h) := by
  have hprepare : Always (Tool.Sends fun _ => True) Returns
      (prepareLinearForAddress inclusiveEnd) := by
    refine always_prepareLinearForAddress ?_
    intro tx _ data _
    trivial
  refine wp_bind (hprepare.wp_grown fun _ _ ho => creates_of_noFile (noFile_of_sends ho)) ?_
  rintro ready ⟨c1, h1⟩ _
  cases ready with
  | false => exact wp_noFile noFile_failAfterCleanup
  | true =>
    by_cases heven : 2 ∣ entry.start.toNat
    · refine wp_usb_bind (Ez3CardWorkflow.always_readBlocks (P := fun _ => True) heven
        (fun _ _ _ _ => trivial) 0 (Nat.dvd_zero _)) (fun _ _ _ => trivial) fun image t run => ?_
      cases image with
      | none => exact wp_noFile noFile_failAfterCleanup
      | some image =>
        dsimp only
        cases hrom : Ez3CardWorkflow.reconstructed image entry index loaderStart isSingle with
        | none => exact wp_noFile noFile_failAfterCleanup
        | some rom =>
          refine wp_writeRom fun hlegal => ?_
          have hlegal' : ∀ e ∈ t, Transport.Legal e := fun e he =>
            hlegal (event e) (List.mem_append_right _ (List.mem_map_of_mem he))
          obtain ⟨hlen, hexchange⟩ := runs_readBlocks 0 hlegal' run
          rw [hexchange image hlen rfl]
          exact hcomplete h1 image rom hlen hrom
    · obtain ⟨e, hthrow⟩ := readBlocks_odd heven (Nat.succ_pos _)
      show Wp _ _ (usb (Ez3CardWorkflow.readBlocks entry.start _ 0) >>= _) _ _
      rw [hthrow]
      trivial

theorem reconstructed_eq_some {image rom : Bytes} {entry : CatalogEntry} {index : Nat}
    {loaderStart : UInt32} {isSingle : Bool}
    (h : Ez3CardWorkflow.reconstructed image entry index loaderStart isSingle = some rom) :
    reconstructEz3Rom image entry (index == 0) entry.start loaderStart
      (if isSingle then 0x660 else Ez3CatalogParser.loaderReadSize) = (rom, true) ∧
      validGbaRomHeader rom = true := by
  rw [Ez3CardWorkflow.reconstructed] at h
  generalize (if isSingle then 0x660 else Ez3CatalogParser.loaderReadSize) = loaderLength at h ⊢
  split at h
  · cases h
  case isFalse hok =>
    split at h
    · cases h
    case isFalse hvalid =>
      cases h
      rw [Bool.not_eq_true', Bool.not_eq_false] at hok hvalid
      exact ⟨Prod.ext rfl hok, hvalid⟩

theorem wp_extractEz3Rom {entries : List CatalogEntry} {loaderStart : UInt32} {isSingle : Bool}
    {request : Ez3ExtractionRequest} :
    Wp memory.recording (Creates (Ez3Complete entries loaderStart isSingle request))
      (Ez3CardWorkflow.extractEz3Rom entries loaderStart isSingle request) (fun _ _ => True)
      (c, h) := by
  rw [Ez3CardWorkflow.extractEz3Rom]
  split
  · exact wp_noFile noFile_failAfterCleanup
  case isFalse hnumber =>
    dsimp only
    split
    · exact wp_noFile noFile_failAfterCleanup
    case h_2 inclusiveEnd hend =>
      split
      · exact wp_noFile noFile_failAfterCleanup
      case isFalse hle =>
        split
        · exact wp_noFile noFile_failAfterCleanup
        · refine wp_extractExtent fun before image rom hlen hrom => ?_
          obtain ⟨hrec, hvalid⟩ := reconstructed_eq_some hrom
          exact ⟨rfl, by omega, _, inclusiveEnd, image, before, List.getElem?_eq_getElem (by omega),
            hend, UInt32.not_lt.mp hle, hlen, rfl, hrec, hvalid⟩

theorem wp_extractOfficialCartridge {outputPath : Bytes} :
    Wp memory.recording (Creates (OfficialComplete outputPath))
      (extractOfficialCartridge outputPath) (fun _ _ => True) (c, []) := by
  refine wp_usb_bind (always_scanFrom (P := fun _ => True) (fun _ _ => trivial) 0 {}
    (Nat.dvd_zero _)) (fun _ _ _ => trivial) fun scan t run => ?_
  refine wp_usb_bind always_finish_any (fun _ _ _ => trivial) fun finishOk t2 run2 => ?_
  rw [finishExtraction]
  split
  · trivial
  · split
    · trivial
    case isFalse hread =>
      split
      · trivial
      case isFalse hfinish =>
        cases hsize : trimmedGbaRomSize scan.image with
        | none => trivial
        | some outputSize =>
          dsimp only
          refine And.intro (fun hlegal => ?_) fun written s _ => ?_
          · rw [Bool.not_eq_true', Bool.not_eq_false] at hread hfinish
            rw [List.nil_append] at hlegal ⊢
            have hlegal' : ∀ e ∈ t, Transport.Legal e := fun e he =>
              hlegal (event e) (List.mem_append_left _ (List.mem_map_of_mem he))
            obtain ⟨hlen, _, hexchange, hheader⟩ := runs_scanFrom 0 {} hlegal' run hread rfl
              (Nat.dvd_zero _) (Nat.zero_le _)
            rw [hfinish] at run2
            obtain ⟨hmem, _, hholds, hleast⟩ := trimmedGbaRomSize_spec hsize
            rw [hexchange, runs_finishSession run2]
            exact ⟨rfl, scan.image, outputSize, hlen, rfl, hheader rfl, rfl, hmem, hholds, hleast⟩
          · cases written with
            | false => trivial
            | true => trivial

end Specs

/-- The read of block 0, answered. -/
def firstBlock (block : Bytes) : List Transport.Event :=
  [⟨.out (readCommand 0 blockSize), true⟩, ⟨.inExact blockSize, some block⟩]

theorem runs_scanFrom_invalid {block : Bytes} (hinvalid : validGbaRomHeader block = false) :
    Runs (scanFrom 0 {}) (firstBlock block) (.ok (OfficialScan.add {} 0 block)) := by
  have hstop : (OfficialScan.add {} 0 block).readOk = false := hinvalid
  rw [scanFrom, if_pos (by decide), ← List.append_nil (firstBlock block)]
  refine (runs_read_piece (Nat.dvd_zero _) (by decide) (by decide)).bind ?_
  dsimp only
  rw [scanFrom_stop hstop]
  exact .pure

/-- After a first block with an invalid header only the readiness polls are left. -/
theorem invalid_header_stops {outputPath block : Bytes} {rest : List Tool.Event}
    {out : Except StdException Int} (hinvalid : validGbaRomHeader block = false)
    (h : Runs (extractOfficialCartridge outputPath) ((firstBlock block).map event ++ rest) out) :
    out = .ok 3 ∧ ∃ polls closed, rest = polls.map event ∧
      Runs (finishSession : Usb StdException Bool) polls (.ok closed) := by
  have hscan : Always (fun _ => True) Returns (usb (scanFrom 0 {})) :=
    always_usb ((always_scanFrom (P := fun _ => True) (fun _ _ => trivial) 0 {}
      (Nat.dvd_zero _)).weaken fun _ _ => trivial)
  obtain ⟨scan, t1, t2, hsplit, _, _, h1, h2⟩ := hscan.ends.split h
  have hfirst : Runs (usb (scanFrom 0 {})) ((firstBlock block).map event)
      (.ok (OfficialScan.add {} 0 block)) :=
    runs_usb_iff.mpr ⟨_, rfl, runs_scanFrom_invalid hinvalid⟩
  obtain ⟨rfl, heq⟩ := hfirst.unique h1 hsplit
  cases heq
  obtain rfl := List.append_cancel_left hsplit
  obtain ⟨closed, t3, t4, rfl, _, _, h3, h4⟩ :=
    (always_usb (A := fun _ => True) always_finish_any).ends.split h2
  obtain ⟨polls, rfl, hpolls⟩ := runs_usb_iff.mp h3
  have hrejected : ((OfficialScan.add {} 0 block).headerChecked &&
      !(OfficialScan.add {} 0 block).headerOk) = true := by
    simp [OfficialScan.add, hinvalid]
  rw [finishExtraction, if_pos hrejected] at h4
  obtain ⟨rfl, rfl⟩ := runs_pure_iff.mp h4
  exact ⟨rfl, polls, closed, by rw [List.append_nil], hpolls⟩

/-- A program that creates a file only when the trace so far is complete for it. -/
def WritesOnly (Complete : List Tool.Event → Bytes → Bytes → Prop) (p : Tool Int) : Prop :=
  ∀ {c c' : ReadOnlyCartridge} {trace : List Tool.Event} {out : Except StdException Int},
    LegalRun p c trace out c' → ∀ {pre post : List Tool.Event} {path data : Bytes} {r : Bool},
      trace = pre ++ ⟨.write path data, r⟩ :: post → Complete pre path data

theorem writesOnly_of_wp {Complete : List Tool.Event → Bytes → Bytes → Prop} {p : Tool Int}
    (h : ∀ c, Wp memory.recording (Creates Complete) p (fun _ _ => True) (c, [])) :
    WritesOnly Complete p := by
  intro c c' trace out run pre post path data r hsplit
  obtain ⟨m, _, hcreates⟩ := ((h c).sound_recording run.run run.path).1 hsplit
  refine hcreates fun e he => run.legal e ?_
  rw [hsplit]
  exact List.mem_append_left _ he

/-- Neither extraction creates its file before the whole extent is read, found valid and the
session closed, and the official one stops after a first block with an invalid header. -/
theorem extractions_write_complete_images :
    (∀ entries loaderStart isSingle request,
      WritesOnly (Ez3Complete entries loaderStart isSingle request)
        (Ez3CardWorkflow.extractEz3Rom entries loaderStart isSingle request)) ∧
    (∀ outputPath, WritesOnly (OfficialComplete outputPath) (extractOfficialCartridge outputPath)) ∧
    ∀ outputPath block rest out, validGbaRomHeader block = false →
      Runs (extractOfficialCartridge outputPath) ((firstBlock block).map event ++ rest) out →
      out = .ok 3 ∧ ∃ polls closed, rest = polls.map event ∧
        Runs (finishSession : Usb StdException Bool) polls (.ok closed) :=
  ⟨fun _ _ _ _ => writesOnly_of_wp fun _ => wp_extractEz3Rom,
    fun _ => writesOnly_of_wp fun _ => wp_extractOfficialCartridge,
    fun _ _ _ _ hinvalid h => invalid_header_stops hinvalid h⟩

end CardReader

/-- The initialization of an EZ3 card that answers everything. -/
theorem Ez3CardWorkflow.legalRun_initializeCartridge : ∃ trace,
    LegalRun initializeCartridge {} trace (.ok true) { kind := .ez3Flash } := by
  let flashId : Bytes := [0x1C, 0x00, 0xB8, 0x00]
  have hprobe : LegalRun (usb probe) {} _ (.ok (some (flashId, flashId))) {} :=
    legalRun_usb OfficialCartridge.runs_probe (OfficialCartridge.legal_probeExchange rfl)
  have hclassify : LegalRun (classify flashId flashId) {} _ (.ok ()) { kind := .ez3Flash } :=
    legalRun_load.bind (legalRun_store.bind (legalRun_load.bind legalRun_pure))
  obtain ⟨bytes, hlen⟩ : ∃ bytes : Bytes, bytes.length = 0xAC :=
    ⟨List.replicate 0xAC 0xFF, List.length_replicate⟩
  have hread : Runs (read 0 0xAC >>= fun bytes => .pure bytes.isSome) _ (.ok true) :=
    (@runs_read_piece 0 0xAC bytes (Nat.dvd_zero _) (by decide) (by decide)).bind .pure
  have hprime : Runs readPrime
      (⟨.out primeCommand, true⟩ :: ⟨.inExact 13, some primeCommand⟩ :: _) (.ok true) :=
    .op (.op hread)
  exact ⟨_, legalRun_store.bind (hprobe.bind (hclassify.bind (legalRun_load.bind
    (legalRun_usb hprime (by simp [Transport.Legal, primeCommand, hlen])))))⟩

/-- A session that reads a loader at `0x00800000`, behind the window of the default limit. -/
theorem Ez3CardWorkflow.reads_below_limit_mapped : ∃ result c' before loader,
    LegalRun (afterInitialize (Ez3CatalogReader.read reads 0x02000000 120)) {}
      (before ++ [⟨.usb (.out (readCommand 0x00800000 0x7080)), true⟩,
        ⟨.usb (.inExact 0x7080), some loader⟩]) (.ok (some result)) c' ∧
    ∃ m, Path memory {} before m ∧ 0x00807080 ≤ m.linearReadLimit.toNat ∧
      LimitProven m.linearReadLimit before := by
  let c8 : ReadOnlyCartridge := { kind := .ez3Flash }
  let c16 : ReadOnlyCartridge := { c8 with linearReadLimit := 0x01000000 }
  obtain ⟨loader, hlen⟩ : ∃ loader : Bytes, loader.length = 0x7080 :=
    ⟨List.replicate 0x7080 0xFF, List.length_replicate⟩
  let fetched : List Transport.Event :=
    [⟨.out (readCommand 0x00800000 0x7080), true⟩, ⟨.inExact 0x7080, some loader⟩]
  have hword : LegalRun (usb (read 0 4)) c8 (OfficialCartridge.wordExchange 0xEA1FFFFE)
      (.ok (some (le32 0xEA1FFFFE))) c8 :=
    legalRun_usb (runs_read_piece (Nat.dvd_zero _) (by decide) (by decide))
      (by simp [Transport.Legal])
  have hprepared := @legalRun_prepareLinear c8 0x01000000 selection16MiB (by decide)
  have hloader : LegalRun (usb (read 0x00800000 0x7080)) c16 (fetched.map event)
      (.ok (some loader)) c16 :=
    legalRun_usb (runs_read_piece (by decide) (by decide) (by decide))
      (by simp [fetched, Transport.Legal, hlen])
  obtain ⟨catalog, hparse, _⟩ := @Ez3CatalogParser.parse_total loader 0x02000000
  let mapped : Ez3CatalogReadResult :=
    { firstBytes := le32 0xEA1FFFFE, loaderStart := 0x00800000, loaderEnd := 0x0080707F }
  have hread : LegalRun (Ez3CatalogReader.read reads 0x02000000 120) c8
      (OfficialCartridge.wordExchange 0xEA1FFFFE ++
        (prepareTrace c8 0x01000000 selection16MiB ++ (fetched.map event ++ [])))
      (.ok (Ez3CatalogReader.finish mapped 120 catalog)) c16 := by
    refine hword.bind (hprepared.bind (hloader.bind ?_))
    dsimp only
    rw [hparse]
    exact legalRun_pure
  obtain ⟨started, hinit⟩ := legalRun_initializeCartridge
  have hrun : LegalRun (afterInitialize (Ez3CatalogReader.read reads 0x02000000 120)) {}
      (started ++ (_ ++ [])) (.ok (some _)) c16 := hinit.bind (hread.bind legalRun_pure)
  rw [List.append_nil, List.append_nil, ← List.append_assoc, ← List.append_assoc] at hrun
  obtain ⟨_, hbelow⟩ := @reads_below_limit none 0x02000000 120
  obtain ⟨m, hpath, hlimit, hproven⟩ := hbelow hrun.run hrun.path rfl rfl
  exact ⟨_, c16, _, loader, hrun, m, hpath, hlimit rfl, hproven⟩

end Ezfadvance
