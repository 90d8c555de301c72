import Ezfadvance.ReadMapping

/-!
# Ez3CardWorkflow

Inspecting an EZ3 card and extracting a ROM from it (`ez3_card_workflow.cpp`), on a cartridge that
`initializeCartridge` has accepted. What is only printed is left out.

* `Ez3CardWorkflow.run`: the catalog, the mapping for its headers, the headers, the extraction.
* `cleanup_once_iff`: which return paths close the read session.
* `reads_below_limit`: every ROM read stays inside the mapping in force.
-/

namespace Ezfadvance

open Interact Interact.Program CartridgeFormat ReadOnlyCartridge ReadSessionTransition Tool

structure Ez3ExtractionRequest where
  romNumber : Nat
  outputPath : Bytes

namespace Ez3CardWorkflow

inductive ReadMappingMode where
  | lower8MiB
  | linear16MiB
  | linear24MiB
  | linear32MiB
  deriving DecidableEq

def flashWindowLimit : UInt32 := 0x00800000
def linear16Limit : UInt32 := 0x01000000
def linear24Limit : UInt32 := 0x01800000
def cardImageLimit : UInt32 := 0x02000000

def failAfterCleanup (status : Int) : Tool Int := do
  if !(← usb finishSession) then return 2
  return status

def readBlocks (start : UInt32) (size offset : Nat) : Usb StdException (Option Bytes) :=
  if offset < size then do
    let length := min 0x10000 (size - offset)
    match ← read (start + UInt32.ofNat offset) length with
    | none => return none
    | some block =>
      match ← readBlocks start size (offset + 0x10000) with
      | none => return none
      | some rest => return some (block ++ rest)
  else .pure (some [])
termination_by size - offset
decreasing_by omega

/-- The reconstructed ROM, if it is one. -/
def reconstructed (image : Bytes) (entry : CatalogEntry) (index : Nat) (loaderStart : UInt32)
    (isSingle : Bool) : Option Bytes :=
  let loaderLength := if isSingle then 0x660 else Ez3CatalogParser.loaderReadSize
  let rom := reconstructEz3Rom image entry (index == 0) entry.start loaderStart loaderLength
  if !rom.2 then none
  else if !validGbaRomHeader rom.1 then none
  else some rom.1

/-- The end of the extraction: the session is closed before the file is created. -/
def writeRom (outputPath rom : Bytes) : Tool Int := do
  if !(← usb finishSession) then return 2
  if !(← ask (Op.write outputPath rom)) then return 2
  return 0

def extractExtent (entry : CatalogEntry) (index : Nat) (inclusiveEnd loaderStart : UInt32)
    (isSingle : Bool) (outputPath : Bytes) : Tool Int := do
  let size := (inclusiveEnd - entry.start).toNat + 1
  if !(← prepareLinearForAddress inclusiveEnd) then failAfterCleanup 2
  else
    match ← usb (readBlocks entry.start size 0) with
    | none => failAfterCleanup 2
    | some image =>
      match reconstructed image entry index loaderStart isSingle with
      | none => failAfterCleanup 3
      | some rom => writeRom outputPath rom

theorem index_lt_of_romNumber {entries : List CatalogEntry} {request : Ez3ExtractionRequest}
    (h : ¬ (request.romNumber = 0 ∨ request.romNumber > entries.length)) :
    request.romNumber - 1 < entries.length := by
  omega

def extractEz3Rom (entries : List CatalogEntry) (loaderStart : UInt32) (isSingle : Bool)
    (request : Ez3ExtractionRequest) : Tool Int :=
  if h : request.romNumber = 0 ∨ request.romNumber > entries.length then failAfterCleanup 1
  else
    have hindex := index_lt_of_romNumber h
    let entry := entries[request.romNumber - 1]
    match entry.storedEnd cardImageLimit with
    | none => failAfterCleanup 3
    | some inclusiveEnd =>
      if inclusiveEnd < entry.start then failAfterCleanup 3
      else if requiredLinearReadLimit inclusiveEnd = none then failAfterCleanup 3
      else
        extractExtent entry (request.romNumber - 1) inclusiveEnd loaderStart isSingle
          request.outputPath

def mappingMode (loaderEnd : UInt32) : ReadMappingMode :=
  if loaderEnd ≥ linear24Limit then .linear32MiB
  else if loaderEnd ≥ linear16Limit then .linear24MiB
  else if loaderEnd ≥ flashWindowLimit then .linear16MiB
  else .lower8MiB

def highestStart (entries : List CatalogEntry) : UInt32 :=
  entries.foldl (fun highest e => max highest e.start) 0

/-- Upgrades the mapping for the headers, if the one chosen for the loader is too small. -/
def prepareHeaders (highest : UInt32) (mode : ReadMappingMode) : Tool Bool :=
  if highest ≥ linear24Limit ∧ mode ≠ .linear32MiB then prepareLinearForAddress highest
  else if highest ≥ linear16Limit ∧ mode ≠ .linear24MiB ∧ mode ≠ .linear32MiB then
    prepareLinearForAddress highest
  else if highest ≥ flashWindowLimit ∧ mode = .lower8MiB then prepareLinearForAddress highest
  else .pure true

def readHeaders : List CatalogEntry → Tool Unit
  | [] => .pure ()
  | entry :: entries => do
    let _ ← usb (readGbaHeader entry.start)
    readHeaders entries

/-- The inspection once every header is mapped. -/
def inspectMapped (catalog : Ez3CatalogLayout) (loaderStart : UInt32)
    (extraction : Option Ez3ExtractionRequest) : Tool Int := do
  readHeaders catalog.entries
  match extraction with
  | some request =>
    extractEz3Rom catalog.entries loaderStart (catalog.kind == .single) request
  | none =>
    if !(← usb finishSession) then return 2
    return 0

def inspectCatalog (catalog : Ez3CatalogLayout) (loaderStart loaderEnd : UInt32)
    (extraction : Option Ez3ExtractionRequest) : Tool Int := do
  if !(← prepareHeaders (highestStart catalog.entries) (mappingMode loaderEnd)) then return 2
  inspectMapped catalog loaderStart extraction

def inspectCard (extraction : Option Ez3ExtractionRequest) : Tool Int := do
  let discovery ←
    Ez3CatalogReader.read reads cardImageLimit Ez3CatalogParser.structuralSlotCount
  match discovery.status, discovery.catalog with
  | .readFailed, _ => return 2
  | .loaded, some catalog =>
    inspectCatalog catalog discovery.loaderStart discovery.loaderEnd extraction
  | _, _ => return 3

def run (extraction : Option Ez3ExtractionRequest) : Tool Int := inspectCard extraction

/-! ## What the workflow sends -/

section Sends

variable {P : Bytes → Prop}

theorem always_readBlocks {start : UInt32} {size : Nat} (hstart : 2 ∣ start.toNat)
    (hread : ∀ offset < size, ∀ done < min 0x10000 (size - offset),
      P (readCommand (start + UInt32.ofNat offset + UInt32.ofNat done)
        (min 0x10000 (min 0x10000 (size - offset) - done)))) (offset : Nat) (hoff : 2 ∣ offset) :
    Always (Transport.Sends P) Returns (readBlocks start size offset) := by
  induction offset using readBlocks.induct size with
  | case1 offset hlt ih =>
    rw [readBlocks, if_pos hlt]
    refine (always_read (even_of_dvd (even_add hstart hoff)) (hread offset hlt)).then
      fun block => ?_
    cases block with
    | none => trivial
    | some block =>
      refine (ih (by omega)).then fun rest => ?_
      cases rest with
      | none => trivial
      | some rest => trivial
  | case2 offset hge =>
    rw [readBlocks, if_neg hge]
    trivial

theorem always_prepareHeaders {highest : UInt32} {mode : ReadMappingMode}
    (htx : ∀ tx ∈ mappingPackets, ∀ data ∈ tx.packets, P data) :
    Always (Tool.Sends P) Returns (prepareHeaders highest mode) := by
  rw [prepareHeaders]
  split
  · exact always_prepareLinearForAddress htx
  · split
    · exact always_prepareLinearForAddress htx
    · split
      · exact always_prepareLinearForAddress htx
      · trivial

theorem always_readHeaders {entries : List CatalogEntry}
    (heven : ∀ entry ∈ entries, 2 ∣ entry.start.toNat)
    (hread : ∀ word length, P (command 0x91 0x00 word length 0x00)) :
    Always (Tool.Sends P) Returns (readHeaders entries) := by
  induction entries with
  | nil => trivial
  | cons entry entries ih =>
    obtain ⟨hentry, hrest⟩ := List.forall_mem_cons.mp heven
    exact (always_usb (always_readGbaHeader hentry fun _ _ => hread _ _)).then fun _ => ih hrest

end Sends

/-! ## Closing the session -/

/-- Not a readiness poll, which is all that `finishSession` sends. -/
def NoPoll (o : Tool.Op) : Prop := o ≠ .usb (.out readinessCommand)

theorem noPoll_of_sends {o : Tool.Op} (h : Tool.Sends (· ≠ readinessCommand) o) : NoPoll o := by
  rintro rfl
  exact h rfl

/-- One run of `finishSession`, and no poll before or after it. -/
def AttemptsCleanupOnce (trace : List Tool.Event) : Prop :=
  ∃ before during after out, trace = before ++ during.map event ++ after ∧
    Runs (finishSession : Usb StdException Bool) during out ∧
    (∀ e ∈ before, NoPoll e.1) ∧ ∀ e ∈ after, NoPoll e.1

/-- The catalog was loaded, and the mapping for its headers is there. -/
def Opened (trace : List Tool.Event) : Prop :=
  ∃ discovery catalog t1 t2 rest, trace = t1 ++ t2 ++ rest ∧
    Runs (Ez3CatalogReader.read reads cardImageLimit Ez3CatalogParser.structuralSlotCount) t1
      (.ok discovery) ∧
    discovery.status = .loaded ∧ discovery.catalog = some catalog ∧
    Runs (prepareHeaders (highestStart catalog.entries) (mappingMode discovery.loaderEnd)) t2
      (.ok true)

theorem poll_mem {during : List Transport.Event} {out : Except StdException Bool}
    (h : Runs finishSession during out) : ∃ e ∈ during.map event, ¬ NoPoll e.1 := by
  obtain ⟨r, rest, rfl, _⟩ := runs_op_iff.mp h
  exact ⟨_, List.mem_cons_self .., fun hno => hno rfl⟩

theorem not_attempts {trace : List Tool.Event} (h : ∀ e ∈ trace, NoPoll e.1) :
    ¬ AttemptsCleanupOnce trace := by
  rintro ⟨before, during, after, out, rfl, hrun, _, _⟩
  obtain ⟨e, he, hpoll⟩ := poll_mem hrun
  exact hpoll (h e (by simp [he]))

/-- Every run returns, and closes the session exactly once. -/
def ClosesOnce (p : Tool Int) : Prop :=
  ∀ {trace out}, Runs p trace out → (∃ status, out = .ok status) ∧ AttemptsCleanupOnce trace

section Closing

variable {α : Type} {Q : α → Prop}

theorem closesOnce_bind {p : Tool α} {f : α → Tool Int} (hp : Always NoPoll (Ends Q) p)
    (hf : ∀ a, Q a → ClosesOnce (f a)) : ClosesOnce (p >>= f) := by
  intro trace out run
  obtain ⟨a, t1, t2, rfl, hno, hQ, _, h2⟩ := hp.split run
  obtain ⟨hok, before, during, after, out', rfl, hrun, hbefore, hafter⟩ := hf a hQ h2
  refine ⟨hok, t1 ++ before, during, after, out', by simp, hrun, ?_, hafter⟩
  exact List.forall_mem_append.mpr ⟨hno, hbefore⟩

theorem closesOnce_finish {f : Bool → Tool Int} (hf : ∀ ok, Always NoPoll Returns (f ok)) :
    ClosesOnce (usb finishSession >>= f) := by
  intro trace out run
  have hfinish : Always (fun _ => True) Returns (usb finishSession : Tool Bool) :=
    always_usb ((@always_finishSession _ (fun _ => True) trivial).weaken fun _ _ => trivial)
  obtain ⟨ok, t1, t2, rfl, _, _, h1, h2⟩ := hfinish.ends.split run
  obtain ⟨during, rfl, hrun⟩ := runs_usb_iff.mp h1
  obtain ⟨hno, hok⟩ := (hf ok).run h2
  refine ⟨?_, [], during, t2, _, rfl, hrun, by simp, hno⟩
  cases out with
  | ok status => exact ⟨status, rfl⟩
  | error e => exact hok.elim

theorem closesOnce_failAfterCleanup {status : Int} : ClosesOnce (failAfterCleanup status) := by
  refine closesOnce_finish fun ok => ?_
  cases ok with
  | false => trivial
  | true => trivial

theorem closesOnce_writeRom {outputPath rom : Bytes} : ClosesOnce (writeRom outputPath rom) := by
  refine closesOnce_finish fun ok => ?_
  cases ok with
  | false => trivial
  | true =>
    refine Always.then (always_ask (fun h => by cases h)) fun written => ?_
    cases written with
    | false => trivial
    | true => trivial

theorem always_noPoll {p : Tool α} {Q : Except StdException α → Prop}
    (h : Always (Tool.Sends (· ≠ readinessCommand)) Q p) : Always NoPoll Q p :=
  h.weaken fun _ => noPoll_of_sends

theorem read_ne_poll (word length : UInt32) :
    command 0x91 0x00 word length 0x00 ≠ readinessCommand := by
  intro h
  exact absurd (congrArg (·.getD 2 0) h) (by decide : (0x91 : UInt8) ≠ 0x98)

theorem mapping_ne_poll : ∀ tx ∈ mappingPackets, ∀ data ∈ tx.packets, data ≠ readinessCommand := by
  decide

theorem closesOnce_extractExtent {entry : CatalogEntry} {index : Nat}
    {inclusiveEnd loaderStart : UInt32} {isSingle : Bool} {outputPath : Bytes}
    (heven : 2 ∣ entry.start.toNat) :
    ClosesOnce (extractExtent entry index inclusiveEnd loaderStart isSingle outputPath) := by
  refine closesOnce_bind (always_noPoll (always_prepareLinearForAddress mapping_ne_poll)).ends
    fun ready _ => ?_
  cases ready with
  | false => exact closesOnce_failAfterCleanup
  | true =>
    refine closesOnce_bind (always_noPoll (always_usb (always_readBlocks heven
      (fun _ _ _ _ => read_ne_poll _ _) 0 (Nat.dvd_zero _)))).ends fun image _ => ?_
    cases image with
    | none => exact closesOnce_failAfterCleanup
    | some image =>
      dsimp only
      cases reconstructed image entry index loaderStart isSingle with
      | none => exact closesOnce_failAfterCleanup
      | some rom => exact closesOnce_writeRom

theorem closesOnce_extractEz3Rom {entries : List CatalogEntry} {loaderStart : UInt32}
    {isSingle : Bool} {request : Ez3ExtractionRequest}
    (heven : ∀ entry ∈ entries, 2 ∣ entry.start.toNat) :
    ClosesOnce (extractEz3Rom entries loaderStart isSingle request) := by
  rw [extractEz3Rom]
  split
  · exact closesOnce_failAfterCleanup
  · dsimp only
    split
    · exact closesOnce_failAfterCleanup
    · split
      · exact closesOnce_failAfterCleanup
      · split
        · exact closesOnce_failAfterCleanup
        · exact closesOnce_extractExtent (heven _ (List.getElem_mem _))

end Closing

theorem closesOnce_inspectMapped {catalog : Ez3CatalogLayout} {loaderStart : UInt32}
    {extraction : Option Ez3ExtractionRequest}
    (heven : ∀ entry ∈ catalog.entries, 2 ∣ entry.start.toNat) :
    ClosesOnce (inspectMapped catalog loaderStart extraction) := by
  refine closesOnce_bind (always_noPoll (always_readHeaders heven read_ne_poll)).ends fun _ _ => ?_
  cases extraction with
  | some request => exact closesOnce_extractEz3Rom heven
  | none =>
    refine closesOnce_finish fun ok => ?_
    cases ok with
    | false => trivial
    | true => trivial

/-- After the catalog was read, only the mapping for its headers is left to be decided. -/
theorem opened_append_iff {t1 t2 : List Tool.Event} {discovery : Ez3CatalogReadResult}
    (h : Runs (Ez3CatalogReader.read reads cardImageLimit Ez3CatalogParser.structuralSlotCount)
      t1 (.ok discovery)) :
    Opened (t1 ++ t2) ↔ discovery.status = .loaded ∧
      ∃ catalog t3 t4, discovery.catalog = some catalog ∧ t2 = t3 ++ t4 ∧
        Runs (prepareHeaders (highestStart catalog.entries) (mappingMode discovery.loaderEnd)) t3
          (.ok true) := by
  constructor
  · rintro ⟨discovery', catalog, s1, s2, rest, htrace, h1, hloaded, hcatalog, h2⟩
    rw [List.append_assoc] at htrace
    obtain ⟨rfl, heq⟩ := h.unique h1 htrace
    cases heq
    exact ⟨hloaded, catalog, s2, rest, hcatalog, List.append_cancel_left htrace, h2⟩
  · rintro ⟨hloaded, catalog, t3, t4, hcatalog, rfl, h3⟩
    exact ⟨discovery, catalog, t1, t3, t4, by rw [List.append_assoc], h, hloaded, hcatalog, h3⟩

/-- Every run returns, and the read session is closed exactly once if and only if the catalog was
loaded and its headers could be mapped; the other return paths never try to close it. -/
theorem cleanup_once_iff {extraction : Option Ez3ExtractionRequest} {trace : List Tool.Event}
    {out : Except StdException Int} (h : Runs (run extraction) trace out) :
    (∃ status, out = .ok status) ∧ (AttemptsCleanupOnce trace ↔ Opened trace) := by
  obtain ⟨discovery, t1, t2, rfl, hno1, hloads, h1, h2⟩ :=
    (always_noPoll (always_readCatalog mapping_ne_poll read_ne_poll)).split h
  rw [opened_append_iff h1]
  by_cases hstatus : discovery.status = .loaded
  · obtain ⟨catalog, loader, hcatalog, haccepted, _⟩ := hloads hstatus
    simp only [hstatus, hcatalog] at h2
    have heven : ∀ entry ∈ catalog.entries, 2 ∣ entry.start.toNat := fun entry hmem =>
      Nat.dvd_trans (by decide) (haccepted.start hmem).2
    obtain ⟨ready, t3, t4, rfl, hno3, _, h3, h4⟩ :=
      (always_noPoll (always_prepareHeaders mapping_ne_poll)).ends.split h2
    cases ready with
    | false =>
      obtain ⟨rfl, rfl⟩ := runs_pure_iff.mp h4
      refine ⟨⟨2, rfl⟩, iff_of_false ?_ ?_⟩
      · rw [List.append_nil]
        exact not_attempts (List.forall_mem_append.mpr ⟨hno1, hno3⟩)
      · rintro ⟨_, catalog', s3, s4, hcatalog', htrace, h3'⟩
        cases hcatalog.symm.trans hcatalog'
        obtain ⟨_, heq⟩ := h3.unique h3' htrace
        cases heq
    | true =>
      obtain ⟨hok, before, during, after, out', rfl, hrun, hbefore, hafter⟩ :=
        closesOnce_inspectMapped heven h4
      refine ⟨hok, iff_of_true ?_ ⟨hstatus, catalog, t3, _, hcatalog, rfl, h3⟩⟩
      refine ⟨t1 ++ t3 ++ before, during, after, out', by simp, hrun, ?_, hafter⟩
      simp only [List.forall_mem_append]
      exact ⟨⟨hno1, hno3⟩, hbefore⟩
  · have hrest : t2 = [] ∧ ∃ status, out = .ok status := by
      cases hs : discovery.status with
      | loaded => exact absurd hs hstatus
      | readFailed =>
        simp only [hs] at h2
        obtain ⟨rfl, rfl⟩ := runs_pure_iff.mp h2
        exact ⟨rfl, 2, rfl⟩
      | missingBranch | branchOutOfRange | invalidCatalog | entryLimitExceeded =>
        simp only [hs] at h2
        obtain ⟨rfl, rfl⟩ := runs_pure_iff.mp h2
        exact ⟨rfl, 3, rfl⟩
    obtain ⟨rfl, hok⟩ := hrest
    refine ⟨hok, iff_of_false ?_ fun hopen => hstatus hopen.1⟩
    rw [List.append_nil]
    exact not_attempts hno1

/-- What an erased card answers to the first read. -/
def blankTrace : List Tool.Event :=
  [⟨.usb (.out (readCommand 0 4)), true⟩,
    ⟨.usb (.inExact 4), some [0xFF, 0xFF, 0xFF, 0xFF]⟩]

theorem runs_blank : Runs (run none) blankTrace (.ok 3) := by
  have hread : Runs (usb (read 0 4)) blankTrace (.ok (some [0xFF, 0xFF, 0xFF, 0xFF])) :=
    runs_usb_iff.mpr ⟨_, rfl, runs_read_piece (by decide) (by decide) (by decide)⟩
  have hcatalog : Runs (Ez3CatalogReader.read reads cardImageLimit
      Ez3CatalogParser.structuralSlotCount) blankTrace
      (.ok { status := .missingBranch, firstBytes := [0xFF, 0xFF, 0xFF, 0xFF] }) :=
    runs_bind_iff.mpr (.inr ⟨_, blankTrace, [], rfl, hread, .pure⟩)
  exact runs_bind_iff.mpr (.inr ⟨_, blankTrace, [], rfl, hcatalog, .pure⟩)

theorem cleanup_once_iff_blank :
    (∃ status : Int, (.ok 3 : Except StdException Int) = .ok status) ∧
      (AttemptsCleanupOnce blankTrace ↔ Opened blankTrace) :=
  cleanup_once_iff runs_blank

/-- A blank card is reported and the session left as it is. -/
theorem blank_not_closed :
    Path memory { kind := .ez3Flash } blankTrace { kind := .ez3Flash } ∧
      (∀ e ∈ blankTrace, Legal e) ∧ Runs (run none) blankTrace (.ok 3) ∧
      ¬ AttemptsCleanupOnce blankTrace := by
  refine ⟨.cons rfl (.cons rfl .nil), ?_, runs_blank, not_attempts ?_⟩
  · simp [blankTrace, Legal, Transport.Legal]
  · simp only [blankTrace, List.forall_mem_cons]
    refine ⟨fun h => ?_, fun h => ?_, by simp⟩
    · exact absurd (Transport.Op.out.inj (Tool.Op.usb.inj h)) (by decide)
    · cases h

/-! ## Staying inside the mapping -/

section Mapping

variable {c : ReadOnlyCartridge} {h : List Tool.Event}

theorem passive_finishSession : Always Passive Returns (usb finishSession : Tool Bool) :=
  always_usb_passive (always_finishSession (by decide))

theorem passive_failAfterCleanup {status : Int} :
    Always Passive Returns (failAfterCleanup status) := by
  refine passive_finishSession.then fun ok => ?_
  cases ok with
  | false => trivial
  | true => trivial

theorem passive_writeRom {outputPath rom : Bytes} :
    Always Passive Returns (writeRom outputPath rom) := by
  refine passive_finishSession.then fun ok => ?_
  cases ok with
  | false => trivial
  | true =>
    refine Always.then (always_ask id) fun written => ?_
    cases written with
    | false => trivial
    | true => trivial

theorem wp_readBlocks {start : UInt32} {size : Nat} (hp : LimitProven c.linearReadLimit h)
    (heven : 2 ∣ start.toNat) (hfit : start.toNat + size ≤ c.linearReadLimit.toNat) :
    Wp memory.recording MayRead (usb (readBlocks start size 0))
      (Gives fun _ s => ∃ t, s = (c, h ++ t)) (c, h) := by
  have hmax := hp.le
  refine wp_packetsBelow (always_readBlocks heven ?_ 0 (Nat.dvd_zero _)) hp
  intro offset hlt done hdone
  have haddr : (start + UInt32.ofNat offset).toNat = start.toNat + offset := by
    rw [UInt32.toNat_add, UInt32.toNat_ofNat']
    omega
  exact packetBelow_piece hdone (by omega) hmax

theorem wp_extractExtent {entry : CatalogEntry} {index : Nat} {inclusiveEnd loaderStart : UInt32}
    {isSingle : Bool} {outputPath : Bytes} (hp : LimitProven c.linearReadLimit h)
    (heven : 2 ∣ entry.start.toNat) (hle : entry.start ≤ inclusiveEnd) :
    Wp memory.recording MayRead
      (extractExtent entry index inclusiveEnd loaderStart isSingle outputPath)
      (Gives fun _ s => Kept c h s) (c, h) := by
  rw [extractExtent]
  refine wp_bind (wp_prepareLinearForAddress hp) ?_
  rintro ready ⟨c1, h1⟩ ⟨hkept, hready⟩
  cases ready with
  | false =>
    exact wp_gives_mono (wp_passive passive_failAfterCleanup hkept.proven) fun _ _ => hkept.trans
  | true =>
    have hlimit := hready rfl
    have hsub := UInt32.toNat_sub_of_le _ _ hle
    rw [UInt32.le_iff_toNat_le] at hle
    refine wp_bind (wp_readBlocks hkept.proven heven (by dsimp only at hlimit ⊢; omega)) ?_
    rintro image s ⟨t, rfl⟩
    have hkept2 : Kept c h (c1, h1 ++ t) := hkept.trans (Kept.refl hkept.proven t)
    have hpassive : ∀ {p : Tool Int}, Always Passive Returns p →
        Wp memory.recording MayRead p (Gives fun _ s => Kept c h s) (c1, h1 ++ t) :=
      fun hp => wp_gives_mono (wp_passive hp hkept2.proven) fun _ _ => hkept2.trans
    cases image with
    | none => exact hpassive passive_failAfterCleanup
    | some image =>
      dsimp only
      cases reconstructed image entry index loaderStart isSingle with
      | none => exact hpassive passive_failAfterCleanup
      | some rom => exact hpassive passive_writeRom

theorem wp_extractEz3Rom {entries : List CatalogEntry} {loaderStart : UInt32} {isSingle : Bool}
    {request : Ez3ExtractionRequest} (hp : LimitProven c.linearReadLimit h)
    (heven : ∀ entry ∈ entries, 2 ∣ entry.start.toNat) :
    Wp memory.recording MayRead (extractEz3Rom entries loaderStart isSingle request)
      (Gives fun _ s => Kept c h s) (c, h) := by
  rw [extractEz3Rom]
  split
  · exact wp_passive passive_failAfterCleanup hp
  · dsimp only
    split
    · exact wp_passive passive_failAfterCleanup hp
    · split
      case isTrue => exact wp_passive passive_failAfterCleanup hp
      case isFalse hle =>
        split
        · exact wp_passive passive_failAfterCleanup hp
        · exact wp_extractExtent hp (heven _ (List.getElem_mem _)) (UInt32.not_lt.mp hle)

theorem mappingMode_cases (loaderEnd : UInt32) :
    (mappingMode loaderEnd = .linear32MiB ∧ linear24Limit.toNat ≤ loaderEnd.toNat) ∨
      (mappingMode loaderEnd = .linear24MiB ∧ linear16Limit.toNat ≤ loaderEnd.toNat) ∨
      (mappingMode loaderEnd = .linear16MiB ∧ flashWindowLimit.toNat ≤ loaderEnd.toNat) ∨
      mappingMode loaderEnd = .lower8MiB := by
  simp only [← UInt32.le_iff_toNat_le]
  rw [mappingMode]
  split
  case isTrue h => exact .inl ⟨rfl, h⟩
  case isFalse =>
    split
    case isTrue h => exact .inr (.inl ⟨rfl, h⟩)
    case isFalse =>
      split
      case isTrue h => exact .inr (.inr (.inl ⟨rfl, h⟩))
      case isFalse => exact .inr (.inr (.inr rfl))

/-- The workflow's own idea of the mapping agrees with the limit: where it prepares none for the
headers, they are below it already. -/
theorem highest_lt_limit {highest loaderEnd limit : UInt32} (hp : LimitProven limit h)
    (hlt : loaderEnd.toNat < limit.toNat) (hmax : highest < cardImageLimit)
    (h24 : ¬ (highest ≥ linear24Limit ∧ mappingMode loaderEnd ≠ .linear32MiB))
    (h16 : ¬ (highest ≥ linear16Limit ∧ mappingMode loaderEnd ≠ .linear24MiB ∧
      mappingMode loaderEnd ≠ .linear32MiB))
    (h8 : ¬ (highest ≥ flashWindowLimit ∧ mappingMode loaderEnd = .lower8MiB)) :
    highest.toNat < limit.toNat := by
  have hlimit : limit.toNat = 0x00800000 ∨ limit.toNat = 0x01000000 ∨
      limit.toNat = 0x01800000 ∨ limit.toNat = 0x02000000 := by
    obtain rfl | rfl | rfl | rfl := hp.cases <;> decide
  have hflash : flashWindowLimit.toNat = 0x00800000 := rfl
  have hlinear16 : linear16Limit.toNat = 0x01000000 := rfl
  have hlinear24 : linear24Limit.toNat = 0x01800000 := rfl
  have hcard : cardImageLimit.toNat = 0x02000000 := rfl
  have hmode := mappingMode_cases loaderEnd
  rw [ge_iff_le, UInt32.le_iff_toNat_le] at h24 h16 h8
  rw [UInt32.lt_iff_toNat_lt] at hmax
  obtain ⟨hm, hle⟩ | ⟨hm, hle⟩ | ⟨hm, hle⟩ | hm := hmode
  · omega
  · have : ¬ linear24Limit.toNat ≤ highest.toNat := fun h => h24 ⟨h, by rw [hm]; decide⟩
    omega
  · have : ¬ linear16Limit.toNat ≤ highest.toNat :=
      fun h => h16 ⟨h, by rw [hm]; decide, by rw [hm]; decide⟩
    omega
  · have : ¬ flashWindowLimit.toNat ≤ highest.toNat := fun h => h8 ⟨h, hm⟩
    omega

theorem wp_prepareHeaders {highest loaderEnd : UInt32} (hp : LimitProven c.linearReadLimit h)
    (hloader : loaderEnd.toNat < c.linearReadLimit.toNat) (hmax : highest < cardImageLimit) :
    Wp memory.recording MayRead (prepareHeaders highest (mappingMode loaderEnd))
      (Gives fun ok s => Kept c h s ∧ (ok = true → highest.toNat < s.1.linearReadLimit.toNat))
      (c, h) := by
  rw [prepareHeaders]
  split
  · exact wp_prepareLinearForAddress hp
  · split
    · exact wp_prepareLinearForAddress hp
    · split
      · exact wp_prepareLinearForAddress hp
      · have hstay : Kept c h (c, h) := by simpa using Kept.refl hp []
        exact ⟨hstay, fun _ => highest_lt_limit hp hloader hmax ‹_› ‹_› ‹_›⟩

theorem wp_readHeaders {entries : List CatalogEntry} (hp : LimitProven c.linearReadLimit h)
    (hentries : ∀ entry ∈ entries, 2 ∣ entry.start.toNat ∧
      entry.start.toNat + 0xC0 ≤ c.linearReadLimit.toNat) :
    Wp memory.recording MayRead (readHeaders entries) (Gives fun _ s => ∃ t, s = (c, h ++ t))
      (c, h) := by
  induction entries generalizing h with
  | nil => exact ⟨[], by simp⟩
  | cons entry entries ih =>
    obtain ⟨⟨heven, hfit⟩, hrest⟩ := List.forall_mem_cons.mp hentries
    have hA : Always (Transport.Sends (PacketBelow c.linearReadLimit)) Returns
        (readGbaHeader entry.start) :=
      always_readGbaHeader heven fun _ hlt => packetBelow_piece hlt hfit hp.le
    refine wp_bind (wp_packetsBelow hA hp) ?_
    rintro header s ⟨t, rfl⟩
    refine wp_gives_mono (ih (hp.append t) hrest) ?_
    rintro _ s ⟨t', rfl⟩
    exact ⟨t ++ t', by rw [List.append_assoc]⟩

theorem le_foldl_max {entries : List CatalogEntry} {highest : UInt32} :
    highest.toNat ≤ (entries.foldl (fun highest e => max highest e.start) highest).toNat ∧
      ∀ entry ∈ entries, entry.start.toNat ≤
        (entries.foldl (fun highest e => max highest e.start) highest).toNat := by
  induction entries generalizing highest with
  | nil => simp
  | cons entry entries ih =>
    obtain ⟨hle, hmem⟩ := @ih (max highest entry.start)
    rw [toNat_max] at hle
    rw [List.foldl_cons, List.forall_mem_cons]
    exact ⟨by omega, by omega, hmem⟩

theorem foldl_max_lt {entries : List CatalogEntry} {highest limit : UInt32}
    (hlt : highest.toNat < limit.toNat)
    (hentries : ∀ entry ∈ entries, entry.start.toNat < limit.toNat) :
    (entries.foldl (fun highest e => max highest e.start) highest).toNat < limit.toNat := by
  induction entries generalizing highest with
  | nil => exact hlt
  | cons entry entries ih =>
    obtain ⟨hentry, hrest⟩ := List.forall_mem_cons.mp hentries
    exact ih (by rw [toNat_max]; omega) hrest

theorem wp_inspectMapped {catalog : Ez3CatalogLayout} {loaderStart : UInt32}
    {extraction : Option Ez3ExtractionRequest} (hp : LimitProven c.linearReadLimit h)
    (hentries : ∀ entry ∈ catalog.entries, 2 ∣ entry.start.toNat ∧
      entry.start.toNat + 0xC0 ≤ c.linearReadLimit.toNat) :
    Wp memory.recording MayRead (inspectMapped catalog loaderStart extraction)
      (Gives fun _ s => Kept c h s) (c, h) := by
  refine wp_bind (wp_readHeaders hp hentries) ?_
  rintro _ s ⟨t, rfl⟩
  have hkept : Kept c h (c, h ++ t) := Kept.refl hp t
  cases extraction with
  | some request =>
    exact wp_gives_mono (wp_extractEz3Rom hkept.proven fun entry hmem => (hentries entry hmem).1)
      fun _ _ => hkept.trans
  | none =>
    refine wp_gives_mono (wp_passive (passive_finishSession.then fun ok => ?_) hkept.proven)
      fun _ _ => hkept.trans
    cases ok with
    | false => trivial
    | true => trivial

theorem wp_run {extraction : Option Ez3ExtractionRequest} (hp : LimitProven c.linearReadLimit h) :
    Wp memory.recording MayRead (run extraction) (Gives fun _ s => Kept c h s) (c, h) := by
  rw [run, inspectCard]
  refine wp_bind (wp_readCatalog hp) ?_
  rintro discovery ⟨c1, h1⟩ ⟨hkept, hloads, hend⟩
  cases hs : discovery.status with
  | loaded =>
    obtain ⟨catalog, loader, hcatalog, haccepted, _⟩ := hloads hs
    simp only [hcatalog]
    refine wp_bind (wp_prepareHeaders hkept.proven (hend hs)
      (UInt32.lt_iff_toNat_lt.mpr (foldl_max_lt (by decide) fun entry hmem => ?_))) ?_
    · exact UInt32.lt_iff_toNat_lt.mp (haccepted.start hmem).1
    rintro ready ⟨c2, h2⟩ ⟨hkept2, hready⟩
    have hall := hkept.trans hkept2
    cases ready with
    | false => exact hall
    | true =>
      refine wp_gives_mono (wp_inspectMapped hall.proven fun entry hmem => ?_)
        fun _ _ => hall.trans
      obtain ⟨_, hdvd⟩ := haccepted.start hmem
      exact ⟨Nat.dvd_trans (by decide) hdvd, LimitProven.header_fits hall.proven hdvd
        (Nat.lt_of_le_of_lt (le_foldl_max.2 entry hmem) (hready rfl))⟩
  | _ => exact hkept

end Mapping

/-- The cartridge is initialized, then `body` runs. -/
def afterInitialize {α : Type} (body : Tool α) : Tool (Option α) := do
  if !(← initializeCartridge) then return none
  return some (← body)

/-- Each ROM read covers only bytes below the limit in force at that moment, which is the default
or was stored after an acknowledged mapping sequence. -/
def ReadsStayBelow {α : Type} (p : Tool α) : Prop :=
  ∀ {c c' : ReadOnlyCartridge} {trace : List Tool.Event} {out : Except StdException α},
    Runs p trace out → Path memory c trace c' →
    ∀ {pre post : List Tool.Event} {o : Tool.Op} {r : Tool.Reply o},
      trace = pre ++ ⟨o, r⟩ :: post → IsRomRead o →
      ∃ m, Path memory c pre m ∧ ReadsBelow m.linearReadLimit o ∧
        LimitProven m.linearReadLimit pre

theorem readsStayBelow_afterInitialize {α : Type} {body : Tool α}
    (hbody : ∀ c h, LimitProven c.linearReadLimit h →
      Wp memory.recording MayRead body (Gives fun _ s => Proven s) (c, h)) :
    ReadsStayBelow (afterInitialize body) := by
  intro c c' trace out run path pre post o r hsplit hread
  have hwp : Wp memory.recording MayRead (afterInitialize body) (Gives fun _ s => Proven s)
      (c, []) := by
    refine wp_bind wp_initializeCartridge ?_
    rintro ok ⟨c1, h1⟩ hp
    cases ok with
    | false => exact hp
    | true => exact wp_bind (hbody c1 h1 hp) fun _ _ hp2 => hp2
  obtain ⟨m, hpre, hbelow, hproven⟩ := (hwp.sound_recording run path).1 hsplit
  exact ⟨m, hpre, hbelow, hproven hread⟩

theorem reads_below_limit {extraction : Option Ez3ExtractionRequest} {imageLimit : UInt32}
    {entryLimit : Nat} :
    ReadsStayBelow (afterInitialize (run extraction)) ∧
      ReadsStayBelow (afterInitialize (Ez3CatalogReader.read reads imageLimit entryLimit)) := by
  refine ⟨readsStayBelow_afterInitialize fun c h hp => ?_,
    readsStayBelow_afterInitialize fun c h hp => ?_⟩
  · exact wp_gives_mono (wp_run hp) fun _ _ hkept => hkept.proven
  · exact wp_gives_mono (wp_readCatalog hp) fun _ _ ⟨hkept, _⟩ => hkept.proven

end Ez3CardWorkflow

end Ezfadvance
