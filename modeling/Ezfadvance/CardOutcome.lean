import Ezfadvance.CardReader

/-!
# CardOutcome

The card reader on a cartridge that can be read: its exit status and its file in terms of the bytes
the cartridge holds.

* `Shows`: an answered ROM read inside an acknowledged mapping gives the bytes of the cartridge. Every
  other transfer may fail, or be answered with anything.
* `CardReader.onCard`: the reader as a function of these bytes.
* `wp_readCatalog_shows`, `wp_readBlocks_shows`: each read of the session is the read of the bytes.
* `CardReader.run_onCard`: a session reports a failed transfer or file, or it does what `onCard` says.
-/

namespace Ezfadvance

open Interact Interact.Program CartridgeFormat ReadOnlyCartridge ReadSessionTransition Tool

/-- The default limit, or one whose mapping sequence has been acknowledged in full. -/
def Mapped (limit : UInt32) (h : List Tool.Event) : Prop :=
  limit = 0x00800000 ∨ ∃ selection before after, (limit, selection) ∈ mappings ∧
    h = before ++ mappingExchange selection ++ after

/-- The cartridge can be read up to `stop`: an official one needs no mapping. -/
def Readable (kind : CartridgeKind) (h : List Tool.Event) (stop : Nat) : Prop :=
  (kind = .officialGbaRom ∧ stop ≤ 0x02000000) ∨ ∃ limit, Mapped limit h ∧ stop ≤ limit.toNat

/-- A ROM read and its answer. -/
def romRead (word length : UInt32) (data : Bytes) : List Tool.Event :=
  [⟨.usb (.out (command 0x91 0x00 word length 0x00)), true⟩,
    ⟨.usb (.inExact length.toNat), some data⟩]

/-- The ROM reads that are answered show what the cartridge holds, as far as it can be read. -/
def Shows (kind : CartridgeKind) (card : Nat → UInt8) (trace : List Tool.Event) : Prop :=
  ∀ ⦃pre post word length data⦄, trace = pre ++ romRead word length data ++ post →
    Readable kind pre (2 * word.toNat + length.toNat) →
    data = readCard card (2 * word.toNat) length.toNat

theorem mapping_le {limit : UInt32} {selection : List Tx} (hmem : (limit, selection) ∈ mappings) :
    limit.toNat ≤ 2 ^ 25 := by
  simp only [mappings, List.mem_cons, Prod.mk.injEq, List.not_mem_nil, or_false] at hmem
  obtain ⟨rfl, _⟩ | ⟨rfl, _⟩ | ⟨rfl, _⟩ := hmem <;> decide

theorem LimitProven.mapped {limit : UInt32} {h : List Tool.Event} (hp : LimitProven limit h) :
    Mapped limit h := by
  obtain rfl | ⟨selection, cartridge, before, after, hmem, _, rfl⟩ := hp
  · exact .inl rfl
  · exact .inr ⟨selection, before, _, hmem, rfl⟩

theorem LimitProven.readable {kind : CartridgeKind} {limit : UInt32} {h : List Tool.Event}
    {stop : Nat} (hp : LimitProven limit h) (hstop : stop ≤ limit.toNat) : Readable kind h stop :=
  .inr ⟨limit, hp.mapped, hstop⟩

section Shows

variable {kind : CartridgeKind} {card : Nat → UInt8} {h : List Tool.Event}

theorem Readable.append {stop : Nat} (hr : Readable kind h stop) (t : List Tool.Event) :
    Readable kind (h ++ t) stop := by
  obtain hofficial | ⟨limit, rfl | ⟨selection, before, after, hmem, rfl⟩, hstop⟩ := hr
  · exact .inl hofficial
  · exact .inr ⟨_, .inl rfl, hstop⟩
  · exact .inr ⟨limit, .inr ⟨selection, before, after ++ t, hmem, by simp⟩, hstop⟩

theorem Readable.mono {stop stop' : Nat} (hr : Readable kind h stop) (hle : stop' ≤ stop) :
    Readable kind h stop' := by
  obtain ⟨hkind, hstop⟩ | ⟨limit, hmapped, hstop⟩ := hr
  · exact .inl ⟨hkind, by omega⟩
  · exact .inr ⟨limit, hmapped, by omega⟩

theorem Readable.le {stop : Nat} (hr : Readable kind h stop) : stop ≤ 2 ^ 25 := by
  obtain ⟨_, hstop⟩ | ⟨limit, hmapped, hstop⟩ := hr
  · exact hstop
  · have hlimit : limit.toNat ≤ 2 ^ 25 := by
      obtain rfl | ⟨selection, _, _, hmem, _⟩ := hmapped
      · decide
      · exact mapping_le hmem
    omega

theorem Shows.front {t : List Tool.Event} (hs : Shows kind card (h ++ t)) : Shows kind card h := by
  intro pre post word length data hsplit hr
  exact hs (by rw [hsplit, List.append_assoc]) hr

theorem readCard_append {start m n : Nat} :
    readCard card start (m + n) = readCard card start m ++ readCard card (start + m) n := by
  simp [readCard, List.range_add, Nat.add_assoc]

/-! ## Reads -/

/-- Each piece of a read that is answered holds bytes of the cartridge. -/
theorem runs_readFrom_shows {byteAddress : UInt32} {length : Nat} (done : Nat)
    {t : List Transport.Event} {data : Bytes} (heven : 2 ∣ byteAddress.toNat)
    (hr : Readable kind h (byteAddress.toNat + length)) (hdone : 2 ∣ done ∨ length ≤ done)
    (run : Runs (readFrom byteAddress length done : Usb StdException _) t (.ok (some data)))
    (hs : Shows kind card (h ++ t.map event)) :
    data = readCard card (byteAddress.toNat + done) (length - done) := by
  have hmax := hr.le
  induction done using readFrom.induct length generalizing h t data with
  | case1 done hlt piece =>
    rename_i ih
    have hpiece : piece = min 0x10000 (length - done) := rfl
    have heven' : 2 ∣ done := hdone.resolve_right (by omega)
    have haddr : (byteAddress + UInt32.ofNat done).toNat = byteAddress.toNat + done := by
      rw [UInt32.toNat_add, UInt32.toNat_ofNat']
      omega
    have hword : 2 * ((byteAddress + UInt32.ofNat done) / 2).toNat = byteAddress.toNat + done := by
      rw [UInt32.toNat_div, haddr, show (2 : UInt32).toNat = 2 from rfl]
      omega
    have hlen : (UInt32.ofNat piece).toNat = piece := by
      rw [UInt32.toNat_ofNat']
      omega
    rw [readFrom, if_pos hlt] at run
    obtain ⟨input, t2, rfl, hrest⟩ := (runs_answerExact_iff (by simp) (by rfl)).mp run
    obtain ⟨rest, t3, t4, rfl, hread, hjoin⟩ := runs_bind_ok hrest
    cases rest with
    | none => cases (runs_pure_iff.mp hjoin).2
    | some rest =>
      obtain ⟨rfl, hdata⟩ := runs_pure_iff.mp hjoin
      cases hdata
      rw [List.append_nil] at hs
      have hfirst : input = readCard card (byteAddress.toNat + done) piece := by
        have := @hs h (t3.map event) _ (UInt32.ofNat piece) input (by
          rw [romRead, hlen, List.append_assoc]
          rfl) (hr.mono (by omega))
        rwa [hword, hlen] at this
      have hs' : Shows kind card (h ++ romRead ((byteAddress + UInt32.ofNat done) / 2)
          (UInt32.ofNat piece) input ++ t3.map event) := by
        rw [List.append_assoc, romRead, hlen]
        exact hs
      have hnext := ih (hr.append _) (by omega) hread hs'
      rw [hfirst, hnext, ← Nat.add_assoc, ← readCard_append]
      congr 1
      omega
  | case2 done hge =>
    rw [readFrom, if_neg hge] at run
    obtain ⟨_, hdata⟩ := runs_pure_iff.mp run
    cases hdata
    rw [Nat.sub_eq_zero_of_le (Nat.not_lt.mp hge)]
    rfl

theorem runs_read_shows {byteAddress : UInt32} {length : Nat} {t : List Transport.Event}
    {data : Bytes} (heven : 2 ∣ byteAddress.toNat)
    (hr : Readable kind h (byteAddress.toNat + length))
    (run : Runs (ReadOnlyCartridge.read byteAddress length) t (.ok (some data)))
    (hs : Shows kind card (h ++ t.map event)) : data = readCard card byteAddress.toNat length := by
  rw [ReadOnlyCartridge.read, if_neg (not_not_intro (even_of_dvd heven))] at run
  exact runs_readFrom_shows 0 heven hr (.inl (Nat.dvd_zero _)) run hs

/-- The blocks from `offset` on, put together, are the bytes of the cartridge. -/
theorem runs_readBlocks_shows {start : UInt32} {size : Nat} (offset : Nat)
    {t : List Transport.Event} {image : Bytes} (heven : 2 ∣ start.toNat) (hoff : 2 ∣ offset)
    (hr : Readable kind h (start.toNat + size))
    (run : Runs (Ez3CardWorkflow.readBlocks start size offset) t (.ok (some image)))
    (hs : Shows kind card (h ++ t.map event)) :
    image = readCard card (start.toNat + offset) (size - offset) := by
  have hmax := hr.le
  induction offset using Ez3CardWorkflow.readBlocks.induct size generalizing h t image with
  | case1 offset hlt =>
    rename_i ih
    have haddr : (start + UInt32.ofNat offset).toNat = start.toNat + offset := by
      rw [UInt32.toNat_add, UInt32.toNat_ofNat']
      omega
    rw [Ez3CardWorkflow.readBlocks, if_pos hlt] at run
    obtain ⟨block, t1, t2, rfl, hread, hrest⟩ := runs_bind_ok run
    rw [List.map_append, ← List.append_assoc] at hs
    cases block with
    | none => cases (runs_pure_iff.mp hrest).2
    | some block =>
      obtain ⟨rest, t3, t4, rfl, hblocks, hjoin⟩ := runs_bind_ok hrest
      cases rest with
      | none => cases (runs_pure_iff.mp hjoin).2
      | some rest =>
        obtain ⟨rfl, himage⟩ := runs_pure_iff.mp hjoin
        cases himage
        rw [List.append_nil] at hs
        have hblock := runs_read_shows (by rw [haddr]; omega) (hr.mono (by rw [haddr]; omega)) hread
          hs.front
        have hnext := ih (by omega) (hr.append _) hblocks hs
        rw [hblock, hnext, haddr]
        by_cases hfull : offset + 0x10000 ≤ size
        · rw [show size - offset = 0x10000 + (size - (offset + 0x10000)) by omega, readCard_append,
            ← Nat.add_assoc, Nat.min_eq_left (by omega)]
        · have hempty : readCard card (start.toNat + (offset + 0x10000))
              (size - (offset + 0x10000)) = [] := by
            rw [Nat.sub_eq_zero_of_le (by omega)]
            rfl
          rw [hempty, List.append_nil, Nat.min_eq_right (by omega)]
  | case2 offset hge =>
    rw [Ez3CardWorkflow.readBlocks, if_neg hge] at run
    obtain ⟨_, himage⟩ := runs_pure_iff.mp run
    cases himage
    rw [Nat.sub_eq_zero_of_le (Nat.not_lt.mp hge)]
    rfl

end Shows

/-! ## Discovery -/

section Specs

variable (kind : CartridgeKind) (card : Nat → UInt8) {c : ReadOnlyCartridge} {h : List Tool.Event}

/-- Reads below the limit, and what they say about the cartridge. -/
theorem wp_usb_shows {α : Type} {p : Usb StdException α} {Q : α → Prop}
    (hA : Always (Transport.Sends (PacketBelow c.linearReadLimit)) Returns p)
    (hp : LimitProven c.linearReadLimit h)
    (hQ : ∀ t a, Runs p t (.ok a) → Shows kind card (h ++ t.map event) → Q a) :
    Wp memory.recording MayRead (usb p)
      (Gives fun a s => (∃ t, s = (c, h ++ t)) ∧ (Shows kind card s.2 → Q a)) (c, h) := by
  have hruns := @wp_usb (fun _ _ => True) c h _ _ _ hA fun _ _ _ => trivial
  refine wp_gives_mono (wp_gives_and (wp_packetsBelow hA hp) hruns) ?_
  rintro a s ⟨hkept, t, rfl, run⟩
  exact ⟨hkept, hQ t a run⟩

theorem wp_read_shows {byteAddress : UInt32} {length : Nat} (hp : LimitProven c.linearReadLimit h)
    (heven : 2 ∣ byteAddress.toNat) (hfit : byteAddress.toNat + length ≤ c.linearReadLimit.toNat) :
    Wp memory.recording MayRead (usb (ReadOnlyCartridge.read byteAddress length))
      (Gives fun r s => (∃ t, s = (c, h ++ t)) ∧ (Shows kind card s.2 →
        ∀ data, r = some data → data = readCard card byteAddress.toNat length)) (c, h) := by
  refine wp_usb_shows kind card (always_read (even_of_dvd heven) fun _ hlt =>
    packetBelow_piece hlt hfit hp.le) hp ?_
  rintro t r run hs data rfl
  exact runs_read_shows heven (hp.readable hfit) run hs

theorem wp_readBlocks_shows {start : UInt32} {size : Nat} (hp : LimitProven c.linearReadLimit h)
    (heven : 2 ∣ start.toNat) (hfit : start.toNat + size ≤ c.linearReadLimit.toNat) :
    Wp memory.recording MayRead (usb (Ez3CardWorkflow.readBlocks start size 0))
      (Gives fun r s => (∃ t, s = (c, h ++ t)) ∧ (Shows kind card s.2 →
        ∀ image, r = some image → image = readCard card start.toNat size)) (c, h) := by
  have hmax := hp.le
  refine wp_usb_shows kind card (Ez3CardWorkflow.always_readBlocks heven ?_ 0 (Nat.dvd_zero _)) hp ?_
  · intro offset hlt done hdone
    have haddr : (start + UInt32.ofNat offset).toNat = start.toNat + offset := by
      rw [UInt32.toNat_add, UInt32.toNat_ofNat']
      omega
    exact packetBelow_piece hdone (by omega) hmax
  · rintro t r run hs image rfl
    exact runs_readBlocks_shows 0 heven (Nat.dvd_zero _) (hp.readable hfit) run hs

/-- The catalog reader, over the transport, fails to read or finds what the cartridge holds. -/
theorem wp_readCatalog_shows {imageLimit : UInt32} {entryLimit : Nat}
    (hp : LimitProven c.linearReadLimit h) :
    Wp memory.recording MayRead (Ez3CatalogReader.read reads imageLimit entryLimit)
      (Gives fun result s => Kept c h s ∧ (Shows kind card s.2 → result.status ≠ .readFailed →
        Ez3CatalogReader.read (LinearReads.ofCard card) imageLimit entryLimit = .ok result))
      (c, h) := by
  have hstart : (0 : UInt32).toNat + 4 ≤ c.linearReadLimit.toNat := by
    have := hp.ge
    rw [UInt32.toNat_zero]
    omega
  rw [Ez3CatalogReader.read]
  refine wp_bind (wp_read_shows kind card hp (Nat.dvd_zero _) hstart) ?_
  rintro word s ⟨⟨t, rfl⟩, hword⟩
  have hp1 := hp.append t
  cases word with
  | none => exact ⟨Kept.refl hp t, fun _ hno => absurd rfl hno⟩
  | some firstBytes =>
    dsimp only
    cases hbranch : armBranchTarget (readLe32 firstBytes 0) with
    | none =>
      refine ⟨Kept.refl hp t, fun hs _ => ?_⟩
      obtain rfl := hword hs _ rfl
      unfold Ez3CatalogReader.read
      simp only [LinearReads.ofCard, Bind.bind, Except.bind, hbranch]
      rfl
    | some loaderStart =>
      dsimp only
      split
      case isTrue hrange =>
        refine ⟨Kept.refl hp t, fun hs _ => ?_⟩
        obtain rfl := hword hs _ rfl
        unfold Ez3CatalogReader.read
        simp only [LinearReads.ofCard, Bind.bind, Except.bind, hbranch, if_pos hrange]
        rfl
      case isFalse hrange =>
        refine wp_bind (wp_prepareLinearForAddress hp1) ?_
        rintro ready ⟨c2, h2⟩ ⟨hkept, hready⟩
        have hall : Kept c h (c2, h2) := (Kept.refl hp t).trans hkept
        cases ready with
        | false => exact ⟨hall, fun _ hno => absurd rfl hno⟩
        | true =>
          have hbelow := hready rfl
          have hle := hkept.proven.le
          have hrange' := hrange
          rw [not_or, ge_iff_le, UInt32.lt_iff_toNat_lt, UInt32.le_iff_toNat_le] at hrange'
          have hC0 : (0xC0 : UInt32).toNat = 0xC0 := rfl
          have heven := branchTarget_even hbranch (by omega)
          have hend := toNat_loaderEnd (Nat.not_le.mp hrange'.2)
          dsimp only at hbelow hle
          refine wp_bind (wp_read_shows kind card hkept.proven heven (by omega)) ?_
          rintro bytes s ⟨⟨t2, rfl⟩, hbytes⟩
          have hall2 : Kept c h (c2, h2 ++ t2) := hall.trans (Kept.refl hkept.proven t2)
          cases bytes with
          | none => exact ⟨hall2, fun _ hno => absurd rfl hno⟩
          | some loader =>
            dsimp only
            obtain ⟨parsed, hparse, hspec⟩ := @Ez3CatalogParser.parse_total loader imageLimit
            rw [hparse]
            refine And.intro hall2 fun hs _ => ?_
            obtain ⟨t1, rfl⟩ := hkept.grown
            dsimp only at hs
            rw [List.append_assoc] at hs
            obtain rfl := hword hs.front _ rfl
            rw [← List.append_assoc] at hs
            obtain rfl := hbytes hs _ rfl
            have hinside : loaderStart + UInt32.ofNat
                (Ez3CatalogReader.readLength imageLimit loaderStart - 1) < 0x02000000 := by
              rw [UInt32.lt_iff_toNat_lt, show (0x02000000 : UInt32).toNat = 2 ^ 25 from rfl]
              omega
            unfold Ez3CatalogReader.read
            simp only [LinearReads.ofCard, Bind.bind, Except.bind, hbranch, if_neg hrange, hinside,
              decide_true, Bool.not_true, Bool.false_eq_true, if_false, hparse]
            rfl

end Specs

/-! ## The reader as a function of the cartridge -/

/-- An exit status, and what was written to the output file if it was created. -/
structure CardOutcome where
  status : Int
  file : Option Bytes := none
  deriving DecidableEq

namespace Ez3CardWorkflow

/-- What becomes of a ROM that was read: it has to be restored and to have a valid header. -/
def romOutcome : Except ExtractionError Bytes → CardOutcome
  | .error _ => { status := 3 }
  | .ok rom => if validGbaRomHeader rom then { status := 0, file := some rom } else { status := 3 }

def extractOnCard (card : Nat → UInt8) (catalog : Ez3CatalogLayout) (loaderStart : UInt32)
    (romNumber : Nat) : CardOutcome :=
  if h : romNumber = 0 ∨ romNumber > catalog.entries.length then { status := 1 }
  else
    have : romNumber - 1 < catalog.entries.length := by omega
    romOutcome (Ezfadvance.extractEz3Rom card catalog.entries[romNumber - 1] (romNumber - 1) loaderStart
      (catalog.kind == .single))

/-- The inspection, or the extraction of one ROM, on a card that answers by itself. -/
def onCard (card : Nat → UInt8) (romNumber : Option Nat) : CardOutcome :=
  match Ez3CatalogReader.read (LinearReads.ofCard card) cardImageLimit
    Ez3CatalogParser.structuralSlotCount with
  | .error _ => { status := 3 }
  | .ok discovery =>
    match discovery.status, discovery.catalog with
    | .loaded, some catalog =>
      romNumber.elim { status := 0 } (extractOnCard card catalog discovery.loaderStart)
    | _, _ => { status := 3 }

end Ez3CardWorkflow

namespace CardReader

def inspectOfficialOnCard (card : Nat → UInt8) : CardOutcome :=
  if validGbaRomHeader (readCard card 0 0xC0) then { status := 0 } else { status := 3 }

def extractOfficialOnCard (card : Nat → UInt8) : CardOutcome :=
  if !validGbaRomHeader (readCard card 0 blockSize) then { status := 3 }
  else
    let image := readCard card 0 dumpSize
    match trimmedGbaRomSize image with
    | none => { status := 3 }
    | some outputSize => { status := 0, file := some (image.take outputSize) }

/-- The card reader on a cartridge of this kind, once it is initialized. -/
def onCard (kind : CartridgeKind) (card : Nat → UInt8) (options : CardReaderOptions) : CardOutcome :=
  match decideCardReaderAction kind options with
  | .inspectOfficial => inspectOfficialOnCard card
  | .extractOfficial => extractOfficialOnCard card
  | .inspectEz3 => Ez3CardWorkflow.onCard card none
  | .extractEz3 romNumber => Ez3CardWorkflow.onCard card (some romNumber)
  | .reject => { status := 1 }

end CardReader

/-- A session may create the file of the outcome, once the trace shows the cartridge. -/
def MayCreate (kind : CartridgeKind) (card : Nat → UInt8) (outcome : CardOutcome)
    (outputPath : Bytes) : ReadOnlyCartridge × List Tool.Event → Tool.Op → Prop :=
  CardReader.Creates fun h path data =>
    Shows kind card h → path = outputPath ∧ outcome.file = some data

/-- The status of a session: 2, or that of the outcome, and then its file was created. -/
def Reports (kind : CartridgeKind) (card : Nat → UInt8) (outcome : CardOutcome) (outputPath : Bytes)
    (status : Int) (s : ReadOnlyCartridge × List Tool.Event) : Prop :=
  Shows kind card s.2 → status = 2 ∨ status = outcome.status ∧
    ∀ data, outcome.file = some data → ∃ before, s.2 = before ++ [⟨.write outputPath data, true⟩]

section Outcome

variable {kind : CartridgeKind} {card : Nat → UInt8} {outcome : CardOutcome} {outputPath : Bytes}
  {c : ReadOnlyCartridge} {h : List Tool.Event} {α : Type}

theorem Reports.failed {s : ReadOnlyCartridge × List Tool.Event} :
    Reports kind card outcome outputPath 2 s :=
  fun _ => .inl rfl

/-- What touches no file may be done on the way to any outcome. -/
theorem wp_noFile_may {A : Tool.Op → Prop} {R : Except StdException α → Prop}
    {may : ReadOnlyCartridge × List Tool.Event → Tool.Op → Prop} {p : Tool α}
    {Q : Except StdException α → ReadOnlyCartridge × List Tool.Event → Prop}
    {s : ReadOnlyCartridge × List Tool.Event} (hA : Always A R p)
    (hno : ∀ o, A o → CardReader.NoFile o) (hwp : Wp memory.recording may p Q s) :
    Wp memory.recording (MayCreate kind card outcome outputPath) p Q s :=
  hA.wp_may (fun _ o ho => CardReader.creates_of_noFile (hno o ho)) hwp

theorem wp_failAfterCleanup {status : Int}
    (hstatus : status ≠ 2 → Shows kind card h → outcome = { status }) :
    Wp memory.recording (MayCreate kind card outcome outputPath)
      (Ez3CardWorkflow.failAfterCleanup status) (Gives (Reports kind card outcome outputPath))
      (c, h) := by
  refine wp_usb_bind CardReader.always_finish_any (fun _ _ _ => trivial) fun ok t _ => ?_
  cases ok with
  | false => exact .failed
  | true =>
    intro hs
    by_cases hfailed : status = 2
    · exact .inl hfailed
    · rw [hstatus hfailed hs.front]
      exact .inr ⟨rfl, fun data hno => by cases hno⟩

theorem wp_writeRom {rom : Bytes}
    (hrom : Shows kind card h → outcome = { status := 0, file := some rom }) :
    Wp memory.recording (MayCreate kind card outcome outputPath)
      (Ez3CardWorkflow.writeRom outputPath rom) (Gives (Reports kind card outcome outputPath))
      (c, h) := by
  refine wp_usb_bind CardReader.always_finish_any (fun _ _ _ => trivial) fun ok t _ => ?_
  cases ok with
  | false => exact .failed
  | true =>
    refine And.intro (fun _ hs => ?_) fun written s hstep => ?_
    · have hs' : Shows kind card h := Shows.front hs
      rw [hrom hs']
      exact ⟨rfl, rfl⟩
    · cases written with
      | false => exact .failed
      | true =>
        obtain ⟨_, hs2⟩ := hstep
        intro hs
        rw [hs2] at hs
        have hs' : Shows kind card h := hs.front.front
        rw [hrom hs']
        refine .inr ⟨rfl, fun data hdata => ⟨h ++ t.map event, ?_⟩⟩
        cases hdata
        exact hs2

/-- The ROM that is built from an extent and what becomes of it. -/
theorem romOutcome_eq {image : Bytes} {entry : CatalogEntry} {index : Nat} {loaderStart : UInt32}
    {isSingle : Bool} :
    Ez3CardWorkflow.romOutcome (restoredRom (reconstructEz3Rom image entry (index == 0) entry.start
        loaderStart (if isSingle then 0x660 else Ez3CatalogParser.loaderReadSize))) =
      (Ez3CardWorkflow.reconstructed image entry index loaderStart isSingle).elim { status := 3 }
        fun rom => { status := 0, file := some rom } := by
  rw [Ez3CardWorkflow.reconstructed, restoredRom]
  generalize reconstructEz3Rom image entry (index == 0) entry.start loaderStart _ = rom
  obtain ⟨rom, restored⟩ := rom
  cases restored with
  | false => rfl
  | true =>
    show Ez3CardWorkflow.romOutcome (.ok rom) = _
    rw [Ez3CardWorkflow.romOutcome]
    cases validGbaRomHeader rom with
    | false => rfl
    | true => rfl

theorem noFile_of_mapping {o : Tool.Op} (h : Tool.Sends (fun _ => True) o) : CardReader.NoFile o :=
  CardReader.noFile_of_sends h

theorem wp_extractExtent_card {entry : CatalogEntry} {index : Nat}
    {inclusiveEnd loaderStart : UInt32} {isSingle : Bool} (hp : LimitProven c.linearReadLimit h)
    (heven : 2 ∣ entry.start.toNat) (hle : entry.start ≤ inclusiveEnd)
    (houtcome : Shows kind card h → outcome = Ez3CardWorkflow.romOutcome (restoredRom
      (reconstructEz3Rom (readCard card entry.start.toNat ((inclusiveEnd - entry.start).toNat + 1))
        entry (index == 0) entry.start loaderStart
        (if isSingle then 0x660 else Ez3CatalogParser.loaderReadSize)))) :
    Wp memory.recording (MayCreate kind card outcome outputPath)
      (Ez3CardWorkflow.extractExtent entry index inclusiveEnd loaderStart isSingle outputPath)
      (Gives (Reports kind card outcome outputPath)) (c, h) := by
  have hprepare : Always (Tool.Sends fun _ => True) Returns
      (prepareLinearForAddress inclusiveEnd) :=
    always_prepareLinearForAddress fun _ _ _ _ => trivial
  have hblocks : ∀ {size : Nat}, Always (Tool.Sends fun _ => True) Returns
      (usb (Ez3CardWorkflow.readBlocks entry.start size 0)) :=
    always_usb (Ez3CardWorkflow.always_readBlocks heven (fun _ _ _ _ => trivial) 0 (Nat.dvd_zero _))
  rw [Ez3CardWorkflow.extractExtent]
  refine wp_bind (wp_noFile_may hprepare (fun _ => noFile_of_mapping)
    (wp_prepareLinearForAddress hp)) ?_
  rintro ready ⟨c1, h1⟩ ⟨hkept, hready⟩
  obtain ⟨t1, rfl⟩ := hkept.grown
  cases ready with
  | false => exact wp_failAfterCleanup fun hno => absurd rfl hno
  | true =>
    have hlimit : inclusiveEnd.toNat < c1.linearReadLimit.toNat := hready rfl
    have hsub := UInt32.toNat_sub_of_le _ _ hle
    rw [UInt32.le_iff_toNat_le] at hle
    have hfit : entry.start.toNat + ((inclusiveEnd - entry.start).toNat + 1) ≤
        c1.linearReadLimit.toNat := by omega
    refine wp_bind (wp_noFile_may hblocks (fun _ => noFile_of_mapping)
      (wp_readBlocks_shows kind card hkept.proven heven hfit)) ?_
    rintro image s ⟨⟨t2, rfl⟩, himage⟩
    cases image with
    | none => exact wp_failAfterCleanup fun hno => absurd rfl hno
    | some image =>
      have hrom : Shows kind card (h ++ t1 ++ t2) → outcome = (Ez3CardWorkflow.reconstructed image
          entry index loaderStart isSingle).elim { status := 3 }
            fun rom => { status := 0, file := some rom } := by
        intro hs
        rw [houtcome hs.front.front, ← himage hs image rfl, romOutcome_eq]
      dsimp only
      cases hrec : Ez3CardWorkflow.reconstructed image entry index loaderStart isSingle with
      | none => exact wp_failAfterCleanup fun _ hs => by rw [hrom hs, hrec]; rfl
      | some rom => exact wp_writeRom fun hs => by rw [hrom hs, hrec]; rfl

theorem wp_extractEz3Rom_card {catalog : Ez3CatalogLayout} {loaderStart : UInt32} {romNumber : Nat}
    (hp : LimitProven c.linearReadLimit h) (heven : ∀ entry ∈ catalog.entries, 2 ∣ entry.start.toNat)
    (houtcome : Shows kind card h →
      outcome = Ez3CardWorkflow.extractOnCard card catalog loaderStart romNumber) :
    Wp memory.recording (MayCreate kind card outcome outputPath)
      (Ez3CardWorkflow.extractEz3Rom catalog.entries loaderStart (catalog.kind == .single)
        ⟨romNumber, outputPath⟩)
      (Gives (Reports kind card outcome outputPath)) (c, h) := by
  rw [Ez3CardWorkflow.extractEz3Rom]
  split
  case isTrue hnumber =>
    refine wp_failAfterCleanup fun _ hs => ?_
    rw [houtcome hs, Ez3CardWorkflow.extractOnCard, dif_pos hnumber]
  case isFalse hnumber =>
    have hindex : romNumber - 1 < catalog.entries.length :=
      Ez3CardWorkflow.index_lt_of_romNumber hnumber
    have hentry := heven _ (List.getElem_mem hindex)
    rw [Ez3CardWorkflow.extractOnCard, dif_neg hnumber] at houtcome
    dsimp only at houtcome ⊢
    generalize catalog.entries[romNumber - 1] = entry at hentry houtcome ⊢
    have hfail : ∀ e, Ezfadvance.extractEz3Rom card entry (romNumber - 1) loaderStart
        (catalog.kind == .single) = .error e → Wp memory.recording
          (MayCreate kind card outcome outputPath) (Ez3CardWorkflow.failAfterCleanup 3)
          (Gives (Reports kind card outcome outputPath)) (c, h) := by
      intro e he
      refine wp_failAfterCleanup fun _ hs => ?_
      rw [houtcome hs, he]
      rfl
    rw [Ezfadvance.extractEz3Rom] at hfail houtcome
    split
    case h_1 hend => exact hfail _ (by rw [show entry.storedEnd 0x02000000 = none from hend])
    case h_2 inclusiveEnd hend =>
      rw [show entry.storedEnd 0x02000000 = some inclusiveEnd from hend] at hfail houtcome
      dsimp only at hfail houtcome
      split
      case isTrue hlt => exact hfail _ (by rw [if_pos hlt])
      case isFalse hle =>
        rw [if_neg hle] at hfail houtcome
        split
        case isTrue hnone => exact hfail _ (by rw [if_pos hnone])
        case isFalse hsome =>
          rw [if_neg hsome] at houtcome
          exact wp_extractExtent_card hp hentry (UInt32.not_lt.mp hle) houtcome

theorem wp_inspectMapped_card {catalog : Ez3CatalogLayout} {loaderStart : UInt32}
    {romNumber : Option Nat} (hp : LimitProven c.linearReadLimit h)
    (hentries : ∀ entry ∈ catalog.entries, 2 ∣ entry.start.toNat ∧
      entry.start.toNat + 0xC0 ≤ c.linearReadLimit.toNat)
    (houtcome : Shows kind card h → outcome = romNumber.elim { status := 0 }
      (Ez3CardWorkflow.extractOnCard card catalog loaderStart)) :
    Wp memory.recording (MayCreate kind card outcome outputPath)
      (Ez3CardWorkflow.inspectMapped catalog loaderStart
        (romNumber.map fun romNumber => ⟨romNumber, outputPath⟩))
      (Gives (Reports kind card outcome outputPath)) (c, h) := by
  have hheaders := Ez3CardWorkflow.always_readHeaders (P := fun _ => True)
    (fun entry hmem => (hentries entry hmem).1) fun _ _ => trivial
  refine wp_bind (wp_noFile_may hheaders (fun _ => noFile_of_mapping)
    (Ez3CardWorkflow.wp_readHeaders hp hentries)) ?_
  rintro _ s ⟨t, rfl⟩
  cases romNumber with
  | some romNumber =>
    exact wp_extractEz3Rom_card (hp.append t) (fun entry hmem => (hentries entry hmem).1)
      fun hs => houtcome hs.front
  | none =>
    refine wp_usb_bind CardReader.always_finish_any (fun _ _ _ => trivial) fun ok t2 _ => ?_
    cases ok with
    | false => exact .failed
    | true =>
      intro hs
      rw [houtcome hs.front.front]
      exact .inr ⟨rfl, fun data hno => by cases hno⟩

/-- The workflow, on a cartridge whose limit is accounted for. -/
theorem wp_run_card {romNumber : Option Nat} (hp : LimitProven c.linearReadLimit h) :
    Wp memory.recording
      (MayCreate kind card (Ez3CardWorkflow.onCard card romNumber) outputPath)
      (Ez3CardWorkflow.run (romNumber.map fun romNumber => ⟨romNumber, outputPath⟩))
      (Gives (Reports kind card (Ez3CardWorkflow.onCard card romNumber) outputPath)) (c, h) := by
  have hcatalog := @always_readCatalog (fun _ => True) Ez3CardWorkflow.cardImageLimit
    Ez3CatalogParser.structuralSlotCount (fun _ _ _ _ => trivial) fun _ _ => trivial
  rw [Ez3CardWorkflow.run, Ez3CardWorkflow.inspectCard]
  refine wp_bind (wp_noFile_may hcatalog (fun _ => noFile_of_mapping)
    (wp_gives_and (wp_readCatalog hp) (wp_readCatalog_shows kind card hp))) ?_
  rintro discovery ⟨c1, h1⟩ ⟨⟨hkept, hloads, hend⟩, _, hshows⟩
  have houtcome : discovery.status ≠ .readFailed → Shows kind card h1 →
      Ez3CardWorkflow.onCard card romNumber = match discovery.status, discovery.catalog with
        | .loaded, some catalog => romNumber.elim { status := 0 }
            (Ez3CardWorkflow.extractOnCard card catalog discovery.loaderStart)
        | _, _ => { status := 3 } := by
    intro hread hs
    rw [Ez3CardWorkflow.onCard, hshows hs hread]
  cases hstatus : discovery.status with
  | loaded =>
    obtain ⟨catalog, loader, hcatalog, haccepted, _⟩ := hloads hstatus
    simp only [hcatalog]
    have hheaders := @Ez3CardWorkflow.always_prepareHeaders (fun _ => True)
      (Ez3CardWorkflow.highestStart catalog.entries)
      (Ez3CardWorkflow.mappingMode discovery.loaderEnd) fun _ _ _ _ => trivial
    refine wp_bind (wp_noFile_may hheaders (fun _ => noFile_of_mapping)
      (Ez3CardWorkflow.wp_prepareHeaders hkept.proven (hend hstatus)
        (UInt32.lt_iff_toNat_lt.mpr (Ez3CardWorkflow.foldl_max_lt (by decide) fun entry hmem => ?_)))) ?_
    · exact UInt32.lt_iff_toNat_lt.mp (haccepted.start hmem).1
    rintro ready ⟨c2, h2⟩ ⟨hkept2, hready⟩
    obtain ⟨t2, rfl⟩ := hkept2.grown
    cases ready with
    | false => exact .failed
    | true =>
      refine wp_inspectMapped_card hkept2.proven (fun entry hmem => ?_) fun hs => ?_
      · obtain ⟨_, hdvd⟩ := haccepted.start hmem
        exact ⟨Nat.dvd_trans (by decide) hdvd, LimitProven.header_fits hkept2.proven hdvd
          (Nat.lt_of_le_of_lt (Ez3CardWorkflow.le_foldl_max.2 entry hmem) (hready rfl))⟩
      · rw [houtcome (by rw [hstatus]; decide) hs.front, hstatus, hcatalog]
  | readFailed => exact .failed
  | _ =>
    intro hs
    rw [houtcome (by rw [hstatus]; decide) hs, hstatus]
    exact .inr ⟨rfl, fun data hno => by cases hno⟩

end Outcome

/-! ## Official cartridges -/

namespace CardReader

section Official

variable {card : Nat → UInt8} {outputPath : Bytes} {c : ReadOnlyCartridge} {h : List Tool.Event}

/-- A scan up to `offset` that shows the cartridge. -/
structure ScanShows (card : Nat → UInt8) (offset : Nat) (scan : OfficialScan) : Prop where
  image : scan.readOk = true → scan.image = readCard card 0 offset
  valid : scan.readOk = true → 0 < offset → validGbaRomHeader (readCard card 0 blockSize) = true
  checked : scan.headerChecked = true →
    scan.headerOk = validGbaRomHeader (readCard card 0 blockSize)

theorem ScanShows.add {offset : Nat} {scan : OfficialScan} (hs : ScanShows card offset scan)
    (hok : scan.readOk = true) :
    ScanShows card (offset + blockSize) (scan.add offset (readCard card offset blockSize)) := by
  have himage : scan.image ++ readCard card offset blockSize = readCard card 0 (offset + blockSize) := by
    rw [hs.image hok, readCard_append, Nat.zero_add]
  rw [OfficialScan.add]
  split
  case isTrue hzero =>
    subst hzero
    refine ⟨fun _ => himage, fun hvalid _ => ?_, fun _ => ?_⟩
    · simpa only using hvalid
    · simp only
  case isFalse hpos =>
    exact ⟨fun _ => himage, fun _ _ => hs.valid hok (Nat.pos_of_ne_zero hpos), hs.checked⟩

/-- The scan goes on as long as blocks are answered, and shows the cartridge up to its end. -/
theorem runs_scanFrom_shows (offset : Nat) (scan : OfficialScan) {t : List Transport.Event}
    {scan' : OfficialScan} (run : Runs (scanFrom offset scan) t (.ok scan'))
    (hshows : Shows .officialGbaRom card (h ++ t.map event)) (hs : ScanShows card offset scan)
    (hdvd : 0x10000 ∣ offset) (hle : offset ≤ dumpSize) : ScanShows card dumpSize scan' := by
  induction offset, scan using scanFrom.induct generalizing h t with
  | case1 offset scan hmore ihfail ih =>
    obtain ⟨hlt, hok⟩ := hmore
    rw [scanFrom, if_pos ⟨hlt, hok⟩] at run
    obtain ⟨block, t1, t2, rfl, hread, hrest⟩ := runs_bind_ok run
    rw [List.map_append, ← List.append_assoc] at hshows
    simp only [dumpSize] at hlt hle
    have hnext : 0x10000 ∣ offset + blockSize := Nat.dvd_add hdvd (Nat.dvd_refl _)
    have hle' : offset + blockSize ≤ dumpSize := by
      simp only [blockSize, dumpSize]
      omega
    cases block with
    | none =>
      refine ihfail hrest hshows ⟨fun hno => ?_, fun hno => ?_, hs.checked⟩ hnext hle'
      · cases hno
      · cases hno
    | some block =>
      have haddr : (UInt32.ofNat offset).toNat = offset := by
        rw [UInt32.toNat_ofNat']
        omega
      have hblock := runs_read_shows (by rw [haddr]; omega)
        (.inl ⟨rfl, by rw [haddr, blockSize]; omega⟩) hread hshows.front
      have hadd := hs.add hok
      rw [haddr] at hblock
      rw [← hblock] at hadd
      exact ih block hrest hshows hadd hnext hle'
  | case2 offset scan hdone =>
    rw [scanFrom, if_neg hdone] at run
    obtain ⟨_, hscan⟩ := runs_pure_iff.mp run
    cases hscan
    by_cases hok : scan'.readOk = true
    · have hend : offset = dumpSize := by
        have hge : ¬ offset < dumpSize := fun hlt => hdone ⟨hlt, hok⟩
        omega
      rw [← hend]
      exact hs
    · exact ⟨fun hread => absurd hread hok, fun hread => absurd hread hok, hs.checked⟩

theorem wp_extractOfficial_card :
    Wp memory.recording (MayCreate .officialGbaRom card (extractOfficialOnCard card) outputPath)
      (extractOfficialCartridge outputPath)
      (Gives fun status s => s.1 = c ∧
        Reports .officialGbaRom card (extractOfficialOnCard card) outputPath status s) (c, h) := by
  refine wp_usb_bind (always_scanFrom (P := fun _ => True) (fun _ _ => trivial) 0 {}
    (Nat.dvd_zero _)) (fun _ _ _ => trivial) fun scan t run => ?_
  have hscan : Shows .officialGbaRom card (h ++ t.map event) → ScanShows card dumpSize scan :=
    fun hs => runs_scanFrom_shows 0 {} run hs
      ⟨fun _ => rfl, fun _ hpos => absurd hpos (Nat.lt_irrefl _), fun hno => by cases hno⟩
      (Nat.dvd_zero _) (Nat.zero_le _)
  refine wp_usb_bind always_finish_any (fun _ _ _ => trivial) fun finishOk t2 _ => ?_
  rw [finishExtraction]
  split
  case isTrue hinvalid =>
    refine ⟨rfl, fun hs => ?_⟩
    rw [Bool.and_eq_true, Bool.not_eq_true'] at hinvalid
    rw [extractOfficialOnCard, ← (hscan hs.front).checked hinvalid.1, hinvalid.2]
    exact .inr ⟨rfl, fun data hno => by cases hno⟩
  case isFalse =>
    split
    · exact ⟨rfl, .failed⟩
    case isFalse hread =>
      split
      · exact ⟨rfl, .failed⟩
      · rw [Bool.not_eq_true', Bool.not_eq_false] at hread
        have houtcome : Shows .officialGbaRom card (h ++ t.map event) →
            extractOfficialOnCard card = match trimmedGbaRomSize scan.image with
              | none => { status := 3 }
              | some outputSize => { status := 0, file := some (scan.image.take outputSize) } := by
          intro hs
          have hvalid := (hscan hs).valid hread (by decide)
          rw [extractOfficialOnCard, if_neg (by rw [hvalid]; decide), (hscan hs).image hread]
        cases hsize : trimmedGbaRomSize scan.image with
        | none =>
          rw [hsize] at houtcome
          refine ⟨rfl, fun hs => ?_⟩
          rw [houtcome hs.front]
          exact .inr ⟨rfl, fun data hno => by cases hno⟩
        | some outputSize =>
          rw [hsize] at houtcome
          dsimp only at houtcome ⊢
          refine And.intro (fun _ hs => ?_) fun written s hstep => ?_
          · have hs' : Shows .officialGbaRom card (h ++ t.map event) := Shows.front hs
            rw [houtcome hs']
            exact ⟨rfl, rfl⟩
          · obtain ⟨hkept, hs2⟩ := hstep
            cases written with
            | false => exact ⟨hkept, .failed⟩
            | true =>
              refine ⟨hkept, fun hs => ?_⟩
              rw [hs2] at hs
              have hs' : Shows .officialGbaRom card (h ++ t.map event) := hs.front.front
              rw [houtcome hs']
              refine .inr ⟨rfl, fun data hdata => ⟨h ++ t.map event ++ t2.map event, ?_⟩⟩
              cases hdata
              exact hs2

/-- A header that cannot be read is reported like one that is not valid. -/
theorem wp_inspectOfficial_card :
    Wp memory.recording (MayCreate .officialGbaRom card (inspectOfficialOnCard card) outputPath)
      inspectOfficialCartridge
      (Gives fun status s => s.1 = c ∧ (status = 3 ∨
        Reports .officialGbaRom card (inspectOfficialOnCard card) outputPath status s)) (c, h) := by
  have hread := @always_read (fun _ => True) 0 0xC0 rfl fun _ _ => trivial
  refine wp_usb_bind hread (fun _ _ _ => trivial) fun header t run => ?_
  have hheader : Shows .officialGbaRom card (h ++ t.map event) → ∀ bytes, header = some bytes →
      bytes = readCard card 0 0xC0 := by
    rintro hs bytes rfl
    exact runs_read_shows (Nat.dvd_zero _) (.inl ⟨rfl, by decide⟩) run hs
  have hrejected : Wp memory.recording
      (MayCreate .officialGbaRom card (inspectOfficialOnCard card) outputPath)
      (usb finishSession >>= fun ok => if (!ok) = true then .pure 2 else .pure 3)
      (Gives fun status s => s.1 = c ∧ (status = 3 ∨
        Reports .officialGbaRom card (inspectOfficialOnCard card) outputPath status s))
      (c, h ++ t.map event) := by
    refine wp_usb_bind always_finish_any (fun _ _ _ => trivial) fun ok t2 _ => ?_
    cases ok with
    | false => exact ⟨rfl, .inr .failed⟩
    | true => exact ⟨rfl, .inl rfl⟩
  cases header with
  | none => exact hrejected
  | some bytes =>
    dsimp only
    cases hvalid : validGbaRomHeader bytes with
    | false => exact hrejected
    | true =>
      refine wp_usb_bind always_finish_any (fun _ _ _ => trivial) fun ok t2 _ => ?_
      cases ok with
      | false => exact ⟨rfl, .inr .failed⟩
      | true =>
        refine ⟨rfl, .inr fun hs => ?_⟩
        rw [hheader hs.front bytes rfl] at hvalid
        rw [inspectOfficialOnCard, if_pos hvalid]
        exact .inr ⟨rfl, fun data hno => by cases hno⟩

end Official

/-! ## The whole tool -/

theorem noFile_usb {α : Type} {p : Usb StdException α} : Always NoFile Anyhow (usb p) := by
  induction p with
  | pure a => trivial
  | throw e => trivial
  | op o k ih => exact ⟨trivial, ih⟩

theorem noFile_initializeCartridge : Always NoFile Anyhow initializeCartridge := by
  have hcatalog := @always_readCatalog (fun _ => True) 0x02000000
    Ez3CatalogParser.structuralSlotCount (fun _ _ _ _ => trivial) fun _ _ => trivial
  have hcontent : Always NoFile Anyhow classifyCartridgeContent := by
    refine (hcatalog.weaken fun _ => noFile_of_mapping).anyhow.andThen fun discovery => ?_
    split
    · trivial
    · exact noFile_usb.andThen fun header => by cases header <;> trivial
  have hclassify : ∀ before after, Always NoFile Anyhow (classify before after) := by
    intro before after
    refine And.intro trivial fun fields => And.intro trivial fun _ => And.intro trivial fun now => ?_
    show Always NoFile Anyhow (if now.kind = .unknown then _ else _)
    split
    · exact hcontent.andThen fun kind => And.intro trivial fun _ => And.intro trivial fun _ => trivial
    · trivial
  refine And.intro trivial fun _ => noFile_usb.andThen fun ids => ?_
  cases ids with
  | none => trivial
  | some ids =>
    refine (hclassify _ _).andThen fun _ => And.intro trivial fun cartridge => ?_
    show Always NoFile Anyhow (if cartridge.kind = .officialGbaRom then _ else _)
    split
    · trivial
    · split
      · trivial
      · exact noFile_usb

theorem official_of_action {kind : CartridgeKind} {options : CardReaderOptions}
    (h : decideCardReaderAction kind options = .inspectOfficial ∨
      decideCardReaderAction kind options = .extractOfficial) : kind = .officialGbaRom := by
  cases kind with
  | officialGbaRom => rfl
  | ez3Flash =>
    rw [decideCardReaderAction] at h
    split at h <;> simp at h
  | unknown => simp [decideCardReaderAction] at h

section Run

variable {card : Nat → UInt8} {options : CardReaderOptions} {c c' : ReadOnlyCartridge}
  {h trace : List Tool.Event} {out : Except StdException Int}

/-- The end of a session on an initialized cartridge: as the cartridge asks for, or a failure. -/
def Ended (card : Nat → UInt8) (options : CardReaderOptions) (kind : CartridgeKind) (status : Int)
    (s : ReadOnlyCartridge × List Tool.Event) : Prop :=
  s.1.kind = kind ∧
    (Reports kind card (onCard kind card options) options.outputPath status s ∨
      decideCardReaderAction kind options = .inspectOfficial ∧ status = 3)

theorem wp_ez3_card {romNumber : Option Nat} (hp : LimitProven c.linearReadLimit h)
    (honCard : onCard c.kind card options = Ez3CardWorkflow.onCard card romNumber) :
    Wp memory.recording (MayCreate c.kind card (onCard c.kind card options) options.outputPath)
      (Ez3CardWorkflow.run (romNumber.map fun romNumber => ⟨romNumber, options.outputPath⟩))
      (Gives (Ended card options c.kind)) (c, h) := by
  have hwp := @wp_run_card c.kind card options.outputPath c h romNumber hp
  rw [← honCard] at hwp
  exact wp_gives_mono (wp_gives_and hwp (Ez3CardWorkflow.wp_run hp))
    fun status s ⟨hreports, hkept⟩ => ⟨hkept.kind, .inl hreports⟩

/-- What follows the initialization. -/
theorem wp_initialized (hp : LimitProven c.linearReadLimit h) :
    Wp memory.recording (MayCreate c.kind card (onCard c.kind card options) options.outputPath)
      (do
        match decideCardReaderAction (← load).kind options with
        | .inspectOfficial => inspectOfficialCartridge
        | .extractOfficial => extractOfficialCartridge options.outputPath
        | .inspectEz3 => Ez3CardWorkflow.run none
        | .extractEz3 romNumber => Ez3CardWorkflow.run (some ⟨romNumber, options.outputPath⟩)
        | .reject =>
          if !(← usb finishSession) then return 2
          return 1)
      (Gives (Ended card options c.kind)) (c, h) := by
  refine wp_load_bind trivial ?_
  have hp' := hp.append [⟨.load, c⟩]
  have honCard : onCard c.kind card options = match decideCardReaderAction c.kind options with
      | .inspectOfficial => inspectOfficialOnCard card
      | .extractOfficial => extractOfficialOnCard card
      | .inspectEz3 => Ez3CardWorkflow.onCard card none
      | .extractEz3 romNumber => Ez3CardWorkflow.onCard card (some romNumber)
      | .reject => { status := 1 } := rfl
  cases haction : decideCardReaderAction c.kind options with
  | inspectEz3 => exact @wp_ez3_card card options c _ none hp' (by rw [honCard, haction])
  | extractEz3 romNumber =>
    exact @wp_ez3_card card options c _ (some romNumber) hp' (by rw [honCard, haction])
  | inspectOfficial =>
    have hkind := official_of_action (.inl haction)
    rw [haction] at honCard
    rw [honCard, hkind]
    refine wp_gives_mono wp_inspectOfficial_card fun status s ⟨hfields, hend⟩ => ?_
    rw [Ended, ← hkind, honCard, hfields, haction]
    refine ⟨rfl, hend.symm.imp (fun hreports => ?_) fun hstatus => ⟨rfl, hstatus⟩⟩
    rw [hkind]
    exact hreports
  | extractOfficial =>
    have hkind := official_of_action (.inr haction)
    rw [haction] at honCard
    rw [honCard, hkind]
    refine wp_gives_mono wp_extractOfficial_card fun status s ⟨hfields, hreports⟩ => ?_
    rw [Ended, ← hkind, honCard, hfields]
    refine ⟨rfl, .inl ?_⟩
    rw [hkind]
    exact hreports
  | reject =>
    rw [haction] at honCard
    refine wp_usb_bind always_finish_any (fun _ _ _ => trivial) fun ok t _ => ?_
    cases ok with
    | false => exact ⟨rfl, .inl .failed⟩
    | true =>
      refine ⟨rfl, .inl fun _ => ?_⟩
      rw [honCard]
      exact .inr ⟨rfl, fun data hno => by cases hno⟩

/-- A legal run ends as its cartridge asks for, or with 2, and may create no file but the one of the
outcome. -/
theorem ended_of_run (run : LegalRun (CardReader.run options) c trace out c') :
    ∃ status, out = .ok status ∧
      (status = 2 ∨ Ended card options c'.kind status (c', trace)) ∧
      (Shows c'.kind card trace → ∀ e ∈ trace, NoFile e.1 ∨ ∃ data,
        e.1 = .write options.outputPath data ∧ (onCard c'.kind card options).file = some data) := by
  obtain ⟨hrun, hpath, hlegal⟩ := run
  obtain ⟨e, herror, _⟩ | ⟨ok, t1, t2, rfl, hinit, hrest⟩ := runs_bind_iff.mp hrun
  · exact ((wp_initializeCartridge.sound_recording herror hpath).2).elim
  · obtain ⟨c1, hpath1, hpath2⟩ := path_append_iff.mp hpath
    have hp : LimitProven c1.linearReadLimit t1 :=
      (wp_initializeCartridge.sound_recording hinit hpath1).2
    have hfirst : ∀ e ∈ t1, NoFile e.1 := (noFile_initializeCartridge.run hinit).1
    cases ok with
    | false =>
      obtain ⟨rfl, rfl⟩ := runs_pure_iff.mp hrest
      refine ⟨2, rfl, .inl rfl, fun _ e he => .inl (hfirst e ?_)⟩
      simpa using he
    | true =>
      have hrecorded : Path memory.recording (c1, t1) t2 (c', t1 ++ t2) :=
        path_recording_iff.mpr ⟨hpath2, rfl⟩
      obtain ⟨hmay, hend⟩ := (@wp_initialized card options c1 t1 hp).sound hrest hrecorded
      cases out with
      | error e => exact hend.elim
      | ok status =>
        have hkind : c'.kind = c1.kind := hend.1
        rw [← hkind] at hend hmay
        refine ⟨status, rfl, .inr hend, fun hshows e he => ?_⟩
        obtain he | he := List.mem_append.mp he
        · exact .inl (hfirst e he)
        · obtain ⟨before, after, rfl⟩ := List.append_of_mem he
          obtain ⟨m, hm, hcreates⟩ := hmay rfl
          obtain ⟨_, hm2⟩ := path_recording_iff.mp hm
          rw [MayCreate] at hcreates
          rw [← List.append_assoc] at hlegal hshows
          obtain ⟨o, r⟩ := e
          cases o with
          | write path data =>
            obtain ⟨rfl, hdata⟩ := hcreates
              (by rw [hm2]; exact fun e he => hlegal e (List.mem_append_left _ he))
              (by rw [hm2]; exact hshows.front)
            exact .inr ⟨data, rfl, hdata⟩
          | writeNew path data => exact hcreates.elim
          | _ => exact .inl trivial

/-- On a cartridge that shows its bytes, a session of the card reader ends with 2, for a transfer or a
file that failed, or with what the reader makes of these bytes, and creates no file but that one.
Only the inspection of an official cartridge reports a header it could not read as an invalid one. -/
theorem run_onCard (run : LegalRun (CardReader.run options) c trace out c')
    (hshows : Shows c'.kind card trace) :
    ∃ status, out = .ok status ∧
      (status = 2 ∨
        (status = (onCard c'.kind card options).status ∧
          ∀ data, (onCard c'.kind card options).file = some data →
            ∃ before, trace = before ++ [⟨.write options.outputPath data, true⟩]) ∨
        (decideCardReaderAction c'.kind options = .inspectOfficial ∧ status = 3)) ∧
      ∀ e ∈ trace, NoFile e.1 ∨ ∃ data, e.1 = .write options.outputPath data ∧
        (onCard c'.kind card options).file = some data := by
  obtain ⟨status, hok, hend, hwrites⟩ := @ended_of_run card options c c' trace out run
  refine ⟨status, hok, ?_, hwrites hshows⟩
  obtain hfailed | ⟨_, hreports | hofficial⟩ := hend
  · exact .inl hfailed
  · exact (hreports hshows).imp_right .inl
  · exact .inr (.inr hofficial)

end Run

end CardReader

end Ezfadvance
