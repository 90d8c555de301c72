import Ezfadvance.ReadMapping

/-!
# OfficialCartridge

Which commands `initializeCartridge` sends to a cartridge that it then takes for an official GBA
cartridge. The content is classified with the catalog reader of the EZ3 cards first.

* `Ez3Only`: the `0x95` read prime and the payloads of the EZ3 window selection.
* `HighBranch`: a first word that sends the catalog reader to a loader above the first 8 MiB.
* `official_clean_iff`: the first word decides whether an EZ3-only command may be sent.
-/

namespace Ezfadvance

open Interact Interact.Program CartridgeFormat ReadOnlyCartridge ReadSessionTransition Tool

namespace OfficialCartridge

def ez3Payloads : List Bytes := [[0x02, 0x00], [0x00, 0x40], [0x00, 0x80], [0x00, 0xC0]]

/-- A packet of the EZ3 protocol that an official cartridge must not see. -/
def Ez3Packet (data : Bytes) : Prop := data.take 3 = [0x5A, 0xA5, 0x95] ∨ data ∈ ez3Payloads

instance (data : Bytes) : Decidable (Ez3Packet data) := inferInstanceAs (Decidable (_ ∨ _))

def Ez3Only : Tool.Op → Prop
  | .usb (.out data) => Ez3Packet data
  | _ => False

def Clean (trace : List Tool.Event) : Prop := ∀ e ∈ trace, ¬ Ez3Only e.1

/-- A branch into the card whose loader, as the catalog reader reads it, ends at or above 8 MiB. -/
def HighBranch (imageLimit firstWord : UInt32) : Prop :=
  ∃ loaderStart, armBranchTarget firstWord = some loaderStart ∧
    ¬ (loaderStart < 0xC0 ∨ loaderStart ≥ imageLimit) ∧
    0x00800000 ≤ loaderStart + UInt32.ofNat (Ez3CatalogReader.readLength imageLimit loaderStart - 1)

/-- The 32 MiB of a card. -/
def cardImageLimit : UInt32 := 0x02000000

/-- The first ROM read of the trace asks the four bytes at 0 and gets these. -/
def FirstBytes (trace : List Tool.Event) (bytes : Bytes) : Prop :=
  ∃ before after, trace = before ++ ⟨.usb (.out (readCommand 0 4)), true⟩ ::
      ⟨.usb (.inExact 4), some bytes⟩ :: after ∧ ∀ e ∈ before, ¬ IsRomRead e.1

/-- A complete initialization that found an official cartridge. -/
def OfficialRun (trace : List Tool.Event) : Prop :=
  ∃ c c', LegalRun initializeCartridge c trace (.ok true) c' ∧ c'.kind = .officialGbaRom

theorem clean_of_sends {t : List Transport.Event}
    (h : ∀ e ∈ t, Transport.Sends (fun data => ¬ Ez3Packet data) e.1) :
    Clean (t.map event) := by
  intro e he
  obtain ⟨e', he', rfl⟩ := List.mem_map.mp he
  have hsends := h e' he'
  obtain ⟨o, r⟩ := e'
  cases o with
  | out data => exact hsends
  | inExact wanted => exact id
  | inMax maximum => exact id
  | selectBank bankValue => exact id

theorem Clean.append {t1 t2 : List Tool.Event} (h1 : Clean t1) (h2 : Clean t2) :
    Clean (t1 ++ t2) :=
  List.forall_mem_append.mpr ⟨h1, h2⟩

/-- A linear read is no EZ3-only packet. -/
theorem read_clean (word length : UInt32) : ¬ Ez3Packet (command 0x91 0x00 word length 0x00) := by
  rintro (h | h)
  · exact absurd (congrArg (·.getD 2 0) h) (by decide : (0x91 : UInt8) ≠ 0x95)
  · have hlen : ∀ data ∈ ez3Payloads, data.length = 2 := by decide
    exact absurd (hlen _ h) (by rw [length_command]; decide)

/-! ## A run whose first word is no high branch -/

/-- So far nothing is decided: neither an EZ3-only packet nor a ROM read was sent. -/
def Fresh (h : List Tool.Event) : Prop := Clean h ∧ ∀ e ∈ h, ¬ IsRomRead e.1

/-- Nothing EZ3-only was sent, or the first word is to blame. -/
def Decided (imageLimit : UInt32) (h : List Tool.Event) : Prop :=
  Clean h ∨ ∃ bytes, FirstBytes h bytes ∧ HighBranch imageLimit (readLe32 bytes 0)

theorem FirstBytes.append {h t : List Tool.Event} {bytes : Bytes} (hfirst : FirstBytes h bytes) :
    FirstBytes (h ++ t) bytes := by
  obtain ⟨before, after, rfl, hno⟩ := hfirst
  exact ⟨before, after ++ t, by simp, hno⟩

theorem Decided.append {imageLimit : UInt32} {h t : List Tool.Event} (hd : Decided imageLimit h)
    (ht : Clean t) : Decided imageLimit (h ++ t) := by
  obtain hclean | ⟨bytes, hfirst, hhigh⟩ := hd
  · exact .inl (hclean.append ht)
  · exact .inr ⟨bytes, hfirst.append, hhigh⟩

section Specs

variable {imageLimit : UInt32} {c : ReadOnlyCartridge} {h : List Tool.Event}

/-- Transport code that sends nothing EZ3-only. -/
theorem wp_clean {α : Type} {p : Usb StdException α}
    (hA : Always (Transport.Sends fun data => ¬ Ez3Packet data) Returns p) :
    Wp memory.recording (fun _ _ => True) (usb p)
      (Gives fun a s => ∃ t, s = (c, h ++ t.map event) ∧ Clean (t.map event) ∧
        Runs p t (.ok a)) (c, h) := by
  refine wp_gives_mono (wp_usb hA fun _ _ _ => trivial) ?_
  rintro a s ⟨t, rfl, run⟩
  exact ⟨t, rfl, clean_of_sends (hA.run run).1, run⟩

theorem always_read_clean {byteAddress : UInt32} {length : Nat} (heven : 2 ∣ byteAddress.toNat) :
    Always (Transport.Sends fun data => ¬ Ez3Packet data) Returns (read byteAddress length) :=
  always_read (even_of_dvd heven) fun _ _ => read_clean _ _

/-- A mapping is prepared only for an address above the first 8 MiB. -/
theorem wp_prepareLoader {inclusiveEnd : UInt32} {bytes : Bytes} (hd : Decided imageLimit h)
    (hfirst : FirstBytes h bytes)
    (hhigh : 0x00800000 ≤ inclusiveEnd → HighBranch imageLimit (readLe32 bytes 0)) :
    Wp memory.recording (fun _ _ => True) (prepareLinearForAddress inclusiveEnd)
      (Gives fun _ s => Decided imageLimit s.2) (c, h) := by
  by_cases hlow : inclusiveEnd < 0x00800000
  · rw [prepareLinearForAddress, requiredLinearReadLimit, if_pos hlow]
    exact hd
  · have hall : Always (Tool.Sends fun _ => True) Returns (prepareLinearForAddress inclusiveEnd) := by
      refine always_prepareLinearForAddress ?_
      intro tx _ data _
      trivial
    refine wp_gives_mono (hall.wp_grown fun _ _ _ => trivial) ?_
    rintro ok s ⟨t, hs⟩
    rw [hs]
    exact .inr ⟨bytes, hfirst.append, hhigh (UInt32.not_lt.mp hlow)⟩

theorem wp_readCatalog {entryLimit : Nat} (hfresh : Fresh h) :
    Wp memory.recording (fun _ _ => True) (Ez3CatalogReader.read reads imageLimit entryLimit)
      (Gives fun _ s => Decided imageLimit s.2) (c, h) := by
  rw [Ez3CatalogReader.read]
  refine wp_bind (wp_clean (always_read_clean (Nat.dvd_zero _))) ?_
  rintro word s ⟨t, rfl, hclean, run⟩
  have hd : Decided imageLimit (h ++ t.map event) := .inl (hfresh.1.append hclean)
  cases word with
  | none => exact hd
  | some firstBytes =>
    dsimp only
    cases hbranch : armBranchTarget (readLe32 firstBytes 0) with
    | none => exact hd
    | some loaderStart =>
      dsimp only
      split
      case isTrue => exact hd
      case isFalse hrange =>
        have hfirst : FirstBytes (h ++ t.map event) firstBytes := by
          rw [runs_read_piece_ok (by decide) (by decide) run]
          exact ⟨h, [], rfl, hfresh.2⟩
        refine wp_bind (wp_prepareLoader hd hfirst ?_) ?_
        · exact fun hge => ⟨loaderStart, hbranch, hrange, hge⟩
        rintro ready ⟨c2, h2⟩ hd2
        cases ready with
        | false => exact hd2
        | true =>
          rw [not_or, UInt32.lt_iff_toNat_lt] at hrange
          have hC0 : (0xC0 : UInt32).toNat = 0xC0 := rfl
          have heven := branchTarget_even hbranch (by omega)
          refine wp_bind (wp_clean (always_read_clean heven)) ?_
          rintro bytes s ⟨t2, rfl, hclean2, _⟩
          have hd3 := Decided.append hd2 hclean2
          cases bytes with
          | none => exact hd3
          | some loader =>
            dsimp only
            obtain ⟨parsed, hparse, _⟩ := @Ez3CatalogParser.parse_total loader imageLimit
            rw [hparse]
            exact hd3

theorem wp_classifyCartridgeContent (hfresh : Fresh h) :
    Wp memory.recording (fun _ _ => True) classifyCartridgeContent
      (Gives fun _ s => Decided cardImageLimit s.2) (c, h) := by
  refine wp_bind (wp_readCatalog hfresh) ?_
  rintro discovery ⟨c1, h1⟩ hd
  show Wp _ _ (if discovery.status = .loaded then _ else _) _ _
  split
  · exact hd
  · refine wp_bind (wp_clean (always_read_clean (Nat.dvd_zero _))) ?_
    rintro header s ⟨t, rfl, hclean, _⟩
    have hd2 := Decided.append hd hclean
    cases header with
    | none => exact hd2
    | some header => exact hd2

theorem Clean.snoc {o : Tool.Op} {r : Tool.Reply o} (hclean : Clean h) (ho : ¬ Ez3Only o) :
    Clean (h ++ [⟨o, r⟩]) :=
  hclean.append (by simpa [Clean] using ho)

theorem Fresh.snoc {o : Tool.Op} {r : Tool.Reply o} (hfresh : Fresh h) (ho : ¬ Ez3Only o)
    (hread : ¬ IsRomRead o) : Fresh (h ++ [⟨o, r⟩]) :=
  ⟨hfresh.1.snoc ho, List.forall_mem_append.mpr ⟨hfresh.2, by simpa using hread⟩⟩

theorem wp_classify {beforeFlashId afterFlashId : Bytes} (hfresh : Fresh h) :
    Wp memory.recording (fun _ _ => True) (classify beforeFlashId afterFlashId)
      (Gives fun _ s => Decided cardImageLimit s.2) (c, h) := by
  rw [classify]
  refine wp_load_bind trivial (wp_store_bind trivial (wp_load_bind trivial ?_))
  have hfresh1 : Fresh (h ++ [⟨.load, c⟩] ++ [⟨.store { c with
      kind := classifyProbeBehavior beforeFlashId afterFlashId }, ()⟩] ++ [⟨.load, { c with
        kind := classifyProbeBehavior beforeFlashId afterFlashId }⟩]) :=
    ((hfresh.snoc id id).snoc id id).snoc id id
  split
  · refine wp_bind (wp_classifyCartridgeContent hfresh1) ?_
    rintro kind ⟨c2, h2⟩ hd
    refine wp_load_bind trivial (And.intro trivial fun _ s step => ?_)
    show Decided cardImageLimit s.2
    rw [step.2, List.append_assoc]
    exact Decided.append hd (by simp [Clean, Ez3Only])
  · exact .inl hfresh1.1

theorem always_probe_quiet : Always (Transport.Sends fun data =>
    ¬ Ez3Packet data ∧ data.take 4 ≠ romReadOpcode) Returns
    (probe : Usb StdException (Option (Bytes × Bytes))) :=
  always_probe (by decide) (by decide)

theorem fresh_of_sends {t : List Transport.Event} (hfresh : Fresh h)
    (ht : ∀ e ∈ t, Transport.Sends (fun data => ¬ Ez3Packet data ∧ data.take 4 ≠ romReadOpcode)
      e.1) : Fresh (h ++ t.map event) := by
  refine ⟨hfresh.1.append (clean_of_sends fun e he => ?_),
    List.forall_mem_append.mpr ⟨hfresh.2, ?_⟩⟩
  · have hsends := ht e he
    obtain ⟨o, r⟩ := e
    cases o with
    | out data => exact hsends.1
    | _ => exact hsends
  · intro e he
    obtain ⟨e', he', rfl⟩ := List.mem_map.mp he
    have hsends := ht e' he'
    obtain ⟨o, r⟩ := e'
    cases o with
    | out data => exact hsends.2
    | inExact wanted => exact id
    | inMax maximum => exact id
    | selectBank bankValue => exact id

/-- After an initialization that found an official cartridge, only a high branch explains an
EZ3-only packet. -/
theorem wp_initializeCartridge :
    Wp memory.recording (fun _ _ => True) initializeCartridge
      (Gives fun ok s => ok = true → s.1.kind = .officialGbaRom → Decided cardImageLimit s.2)
      (c, []) := by
  rw [initializeCartridge]
  refine wp_store_bind trivial ?_
  have hfresh : Fresh [⟨.store { kind := .unknown, linearReadLimit := 0x00800000 }, ()⟩] :=
    ⟨by simp [Clean, Ez3Only], by simp [IsRomRead]⟩
  refine wp_usb_bind always_probe_quiet (fun _ _ _ => trivial) ?_
  intro ids t run
  have hfresh2 := fresh_of_sends hfresh (always_probe_quiet.run run).1
  cases ids with
  | none => exact fun hno => by cases hno
  | some ids =>
    refine wp_bind (wp_classify hfresh2) ?_
    rintro _ ⟨c2, h2⟩ hd
    refine wp_load_bind trivial ?_
    split
    case isTrue => exact fun _ _ => Decided.append hd (by simp [Clean, Ez3Only])
    case isFalse hkind =>
      split
      · exact fun hno => by cases hno
      · have hprime : Always (Transport.Sends fun _ => True) Returns readPrime :=
          always_readPrime trivial fun _ _ => trivial
        refine wp_gives_mono (wp_usb hprime fun _ _ _ => trivial) ?_
        rintro ok s ⟨t, rfl, _⟩ _ hofficial
        exact absurd hofficial hkind

end Specs

/-- The first ROM read of a trace, and with it its answer, is determined. -/
theorem FirstBytes.unique {trace : List Tool.Event} {bytes bytes' : Bytes}
    (h : FirstBytes trace bytes) (h' : FirstBytes trace bytes') : bytes = bytes' := by
  obtain ⟨before, after, rfl, hno⟩ := h
  obtain ⟨before', after', heq, hno'⟩ := h'
  induction before generalizing before' with
  | nil =>
    cases before' with
    | nil =>
      cases heq
      rfl
    | cons e before' =>
      rw [List.nil_append, List.cons_append, List.cons.injEq] at heq
      exact absurd (by rw [← heq.1]; exact rfl) (hno' e (List.mem_cons_self ..))
  | cons e before ih =>
    obtain ⟨he, hbefore⟩ := List.forall_mem_cons.mp hno
    cases before' with
    | nil =>
      rw [List.nil_append, List.cons_append, List.cons.injEq] at heq
      exact absurd (by rw [heq.1]; exact rfl) he
    | cons e' before' =>
      rw [List.cons_append, List.cons_append, List.cons.injEq] at heq
      exact ih hbefore before' heq.2 fun e he => hno' e (List.mem_cons_of_mem _ he)

theorem clean_of_run {trace : List Tool.Event} (h : OfficialRun trace) :
    Decided cardImageLimit trace := by
  obtain ⟨c, c', ⟨run, path, _⟩, hkind⟩ := h
  exact (wp_initializeCartridge.sound_recording run path).2 rfl hkind

/-! ## A run whose first word is a high branch -/

def startupExchange : List Transport.Event :=
  [⟨.out resetCommand, true⟩, ⟨.inExact 1, some [0]⟩, ⟨.out readinessCommand, true⟩,
    ⟨.inExact 1, some [1]⟩, ⟨.out setupCommand, true⟩, ⟨.inExact 13, some setupCommand⟩]

def flashIdExchange (flashId : Bytes) : List Transport.Event :=
  [⟨.out (command 0x91 0x02 0 4 0x00), true⟩, ⟨.inExact 4, some flashId⟩]

def tx92TwoAtExchange (address : UInt32) (first second : UInt8) : List Transport.Event :=
  exchange (command92TwoAt address) [first, second]

/-- The probes, all acknowledged, with one flash id read twice. -/
def probeExchange (flashId : Bytes) : List Transport.Event :=
  (startupExchange ++ ((probePrefix 0 0 0 0 0 0).flatMap Tx.exchange ++
    (tx92TwoAtExchange 0x555 0xAA 0x00 ++ (tx92TwoAtExchange 0x2AA 0x55 0x00 ++
      (tx92TwoAtExchange 0x555 0x90 0x00 ++ []))))) ++
    (flashIdExchange flashId ++
      ((([.two 0x90 0x00] ++ probeReset true ++ probePrefix 0 0 0 0 0 0 ++ [.two 0x90 0x00] :
        List Tx).flatMap Tx.exchange) ++
        (flashIdExchange flashId ++ ((probeReset false).flatMap Tx.exchange ++ []))))

theorem runs_startup : Runs (startup : Usb StdException Bool) startupExchange (.ok true) :=
  .op (.op (.op (.op (.op (.op .pure)))))

theorem runs_flashId {flashId : Bytes} :
    Runs (read91Sub2Four : Usb StdException _) (flashIdExchange flashId) (.ok (some flashId)) :=
  .op (.op .pure)

theorem runs_probe {flashId : Bytes} :
    Runs (probe : Usb StdException _) (probeExchange flashId) (.ok (some (flashId, flashId))) := by
  have hsend : ∀ {transfers : List Tx}, Runs (sendAll transfers : Usb StdException Bool)
      (transfers.flatMap Tx.exchange) (.ok true) := runs_sendAll_true_iff.mpr rfl
  have hat : ∀ {address : UInt32} {first second : UInt8},
      Runs (tx92TwoAt address first second : Usb StdException Bool)
        (tx92TwoAtExchange address first second) (.ok true) :=
    runs_commandDataEcho_true_iff.mpr rfl
  exact (runs_startup.both (hsend.both (hat.both (hat.both (hat.both .pure))))).bind
    (runs_flashId.bind (hsend.bind (runs_flashId.bind (hsend.bind .pure))))

theorem legal_probeExchange {flashId : Bytes} (hlen : flashId.length = 4) :
    ∀ e ∈ probeExchange flashId, Transport.Legal e := by
  have hstartup : ∀ e ∈ startupExchange, Transport.Legal e := by
    simp [startupExchange, Transport.Legal, setupCommand]
  have hflash : ∀ e ∈ flashIdExchange flashId, Transport.Legal e := by
    simp [flashIdExchange, Transport.Legal, hlen]
  simp only [probeExchange, List.forall_mem_append]
  exact ⟨⟨hstartup, legal_flatMap_exchange _, legal_exchange, legal_exchange, legal_exchange,
    by simp⟩, hflash, legal_flatMap_exchange _, hflash, legal_flatMap_exchange _, by simp⟩

section HighRun

variable {c : ReadOnlyCartridge} {limit : UInt32} {selection : List Tx}

/-- The mapping that an address above the first 8 MiB needs. -/
theorem prepareLinearForAddress_eq {address : UInt32} (h8 : 0x00800000 ≤ address)
    (h32 : address < 0x02000000) : ∃ limit selection, (limit, selection) ∈ mappings ∧
      prepareLinearForAddress address = prepareLinear limit selection := by
  cases addressClass address with
  | default below _ _ => exact absurd below (UInt32.not_lt.mpr h8)
  | mapped limit selection mem _ _ _ prepare => exact ⟨limit, selection, mem, prepare⟩
  | outside above _ _ => exact absurd h32 (UInt32.not_lt.mpr above)

theorem readLength_pos {imageLimit loaderStart : UInt32} (h : loaderStart < imageLimit) :
    0 < Ez3CatalogReader.readLength imageLimit loaderStart := by
  rw [UInt32.lt_iff_toNat_lt] at h
  have hsub : (imageLimit - loaderStart).toNat = imageLimit.toNat - loaderStart.toNat :=
    UInt32.toNat_sub_of_le _ _ (by rw [UInt32.le_iff_toNat_le]; omega)
  rw [Ez3CatalogReader.readLength, hsub, Ez3CatalogParser.loaderReadSize]
  omega

theorem loaderEnd_lt {imageLimit loaderStart : UInt32} (h : loaderStart < imageLimit) :
    loaderStart + UInt32.ofNat (Ez3CatalogReader.readLength imageLimit loaderStart - 1) <
      imageLimit := by
  rw [UInt32.lt_iff_toNat_lt] at h ⊢
  have hend := toNat_loaderEnd h
  have hsub : (imageLimit - loaderStart).toNat = imageLimit.toNat - loaderStart.toNat :=
    UInt32.toNat_sub_of_le _ _ (by rw [UInt32.le_iff_toNat_le]; omega)
  have hlen : Ez3CatalogReader.readLength imageLimit loaderStart ≤
      imageLimit.toNat - loaderStart.toNat := by
    rw [Ez3CatalogReader.readLength, hsub]
    exact Nat.min_le_right _ _
  omega

def wordExchange (word : UInt32) : List Tool.Event :=
  [⟨.usb (.out (readCommand 0 4)), true⟩, ⟨.usb (.inExact 4), some (le32 word)⟩]

def loaderFails (imageLimit loaderStart : UInt32) : List Tool.Event :=
  [⟨.usb (.out (readCommand loaderStart
    (min 0x10000 (Ez3CatalogReader.readLength imageLimit loaderStart)))), false⟩]

/-- The catalog reader maps the loader of a high branch before it fails to read it. -/
theorem legalRun_readCatalog {imageLimit word loaderStart : UInt32} (entryLimit : Nat)
    (hbranch : armBranchTarget word = some loaderStart)
    (hrange : ¬ (loaderStart < 0xC0 ∨ loaderStart ≥ imageLimit))
    (hprepare : prepareLinearForAddress
      (loaderStart + UInt32.ofNat (Ez3CatalogReader.readLength imageLimit loaderStart - 1)) =
        prepareLinear limit selection) (hlt : c.linearReadLimit < limit) :
    ∃ result, result.status ≠ .loaded ∧
      LegalRun (Ez3CatalogReader.read reads imageLimit entryLimit) c
        (wordExchange word ++ (prepareTrace c limit selection ++
          (loaderFails imageLimit loaderStart ++ []))) (.ok result)
        { c with linearReadLimit := limit } := by
  have hloader : ¬ loaderStart < 0xC0 := fun h => hrange (.inl h)
  have hC0 : (0xC0 : UInt32).toNat = 0xC0 := rfl
  rw [UInt32.lt_iff_toNat_lt, hC0] at hloader
  have heven := branchTarget_even hbranch (by omega)
  have hpos := readLength_pos (UInt32.not_le.mp fun h => hrange (.inr h))
  have hword : LegalRun (usb (read 0 4)) c (wordExchange word) (.ok (some (le32 word))) c :=
    legalRun_usb (runs_read_piece (Nat.dvd_zero _) (by decide) (by decide))
      (by simp [Transport.Legal])
  have hfails : LegalRun (usb (read loaderStart (Ez3CatalogReader.readLength imageLimit loaderStart)))
      { c with linearReadLimit := limit } (loaderFails imageLimit loaderStart) (.ok none)
      { c with linearReadLimit := limit } :=
    legalRun_usb (runs_read_fails heven hpos) (by simp [Transport.Legal])
  have hprepared := @legalRun_prepareLinear c limit selection hlt
  refine ⟨{ firstBytes := le32 word, loaderStart := loaderStart, loaderEnd := loaderStart +
    UInt32.ofNat (Ez3CatalogReader.readLength imageLimit loaderStart - 1) }, by simp, ?_⟩
  refine hword.bind ?_
  dsimp only
  rw [readLe32_le32, hbranch]
  dsimp only
  rw [if_neg hrange]
  show LegalRun (prepareLinearForAddress _ >>= _) _ _ _ _
  rw [hprepare]
  exact hprepared.bind (hfails.bind legalRun_pure)

/-- The header of an official cartridge: the entry branch, the fixed byte and the complement check. -/
def officialHeader (word : UInt32) : Bytes :=
  le32 word ++ List.replicate 0xAE 0 ++ [0x96] ++ List.replicate 10 0 ++ [0x51, 0x00, 0x00]

theorem length_officialHeader {word : UInt32} : (officialHeader word).length = 0xC0 := by
  simp only [officialHeader, List.length_append, List.length_replicate, List.length_cons,
    List.length_nil, length_le32]

theorem take_officialHeader {word : UInt32} : (officialHeader word).take 4 = le32 word := rfl

/-- The entry branch lies outside of what the header check covers. -/
theorem validGbaRomHeader_officialHeader {word : UInt32} :
    validGbaRomHeader (officialHeader word) = true := by
  have hzero : validGbaRomHeader (officialHeader 0) = true := by decide +kernel
  have hbehind : ∀ w j, 4 ≤ j → (officialHeader w)[j]? =
      (List.replicate 0xAE 0 ++ ([0x96] ++ (List.replicate 10 0 ++ [0x51, 0x00, 0x00])))[j - 4]? := by
    intro w j hj
    rw [officialHeader, List.append_assoc, List.append_assoc, List.append_assoc,
      List.getElem?_append_right (by rw [length_le32]; exact hj), length_le32]
  rw [← hzero]
  refine validGbaRomHeader_congr (Nat.le_of_eq length_officialHeader.symm)
    (Nat.le_of_eq length_officialHeader.symm) fun j hj _ => ?_
  rw [hbehind word j (by omega), hbehind 0 j (by omega)]

theorem classify_officialHeader {word : UInt32} :
    classifyContentHeader (officialHeader word) = .officialGbaRom := by
  have hzero : (0x00 : UInt8) ∈ (officialHeader word).take 0xC0 := by
    rw [List.take_of_length_le (Nat.le_of_eq length_officialHeader)]
    have hblank : (0x00 : UInt8) ∈ List.replicate 0xAE (0x00 : UInt8) :=
      List.mem_replicate.mpr ⟨by decide, rfl⟩
    exact List.mem_append_left _ (List.mem_append_left _ (List.mem_append_left _
      (List.mem_append_right _ hblank)))
  rw [classifyContentHeader, if_neg, if_pos validGbaRomHeader_officialHeader]
  rintro ⟨_, hall⟩
  exact absurd (List.all_eq_true.mp hall _ hzero) (by decide)

def headerExchange (word : UInt32) : List Tool.Event :=
  [⟨.usb (.out (readCommand 0 0xC0)), true⟩,
    ⟨.usb (.inExact 0xC0), some (officialHeader word)⟩]

def unknownFlashId : Bytes := [0x00, 0x00, 0x00, 0x00]

theorem legalRun_classifyCartridgeContent {word loaderStart : UInt32}
    (hbranch : armBranchTarget word = some loaderStart)
    (hrange : ¬ (loaderStart < 0xC0 ∨ loaderStart ≥ cardImageLimit))
    (hprepare : prepareLinearForAddress (loaderStart +
      UInt32.ofNat (Ez3CatalogReader.readLength cardImageLimit loaderStart - 1)) =
        prepareLinear limit selection) (hlt : c.linearReadLimit < limit) :
    LegalRun classifyCartridgeContent c
      (wordExchange word ++ (prepareTrace c limit selection ++
        (loaderFails cardImageLimit loaderStart ++ [])) ++ (headerExchange word ++ []))
      (.ok .officialGbaRom) { c with linearReadLimit := limit } := by
  obtain ⟨result, hno, hrun⟩ := legalRun_readCatalog Ez3CatalogParser.structuralSlotCount hbranch
    hrange hprepare hlt
  have hheader : LegalRun (usb (read 0 0xC0)) { c with linearReadLimit := limit }
      (headerExchange word) (.ok (some (officialHeader word))) { c with linearReadLimit := limit } :=
    legalRun_usb (runs_read_piece (Nat.dvd_zero _) (by decide) (by decide))
      (by simp [Transport.Legal, length_officialHeader])
  refine hrun.bind ?_
  show LegalRun (if result.status = .loaded then _ else _) _ _ _ _
  rw [if_neg hno]
  refine hheader.bind ?_
  dsimp only
  rw [classify_officialHeader]
  exact legalRun_pure

end HighRun

/-- Every mapping sequence selects a window. -/
theorem mapping_not_clean {limit : UInt32} {selection : List Tx}
    (hmem : (limit, selection) ∈ mappings) :
    (⟨.usb (.out [0x02, 0x00]), true⟩ : Tool.Event) ∈ mappingExchange selection := by
  have htx : Tx.two 0x02 0x00 ∈ mappingTransfers selection := by
    simp only [mappings, List.mem_cons, Prod.mk.injEq, List.not_mem_nil, or_false] at hmem
    obtain ⟨_, rfl⟩ | ⟨_, rfl⟩ | ⟨_, rfl⟩ := hmem <;> decide
  exact List.mem_map.mpr ⟨⟨.out [0x02, 0x00], true⟩, List.mem_flatMap.mpr
    ⟨_, htx, by simp [Tx.exchange, exchange]⟩, rfl⟩

/-- An initialization that classifies the content as official, and leaves this limit. -/
def officialTrace (content : List Tool.Event) (limit : UInt32) : List Tool.Event :=
  [⟨.store {}, ()⟩] ++ ((probeExchange unknownFlashId).map event ++
    (([⟨.load, {}⟩] ++ ([⟨.store {}, ()⟩] ++ ([⟨.load, {}⟩] ++ (content ++
      ([⟨.load, { linearReadLimit := limit }⟩] ++
        [⟨.store { kind := .officialGbaRom, linearReadLimit := limit }, ()⟩]))))) ++
      ([⟨.load, { kind := .officialGbaRom, linearReadLimit := limit }⟩] ++ [])))

theorem legalRun_officialTrace {content : List Tool.Event} {limit : UInt32}
    (h : LegalRun classifyCartridgeContent {} content (.ok .officialGbaRom)
      { linearReadLimit := limit }) :
    LegalRun initializeCartridge {} (officialTrace content limit) (.ok true)
      { kind := .officialGbaRom, linearReadLimit := limit } := by
  have hprobe : LegalRun (usb probe) {} ((probeExchange unknownFlashId).map event)
      (.ok (some (unknownFlashId, unknownFlashId))) {} :=
    legalRun_usb runs_probe (legal_probeExchange rfl)
  have hclassify : LegalRun (classify unknownFlashId unknownFlashId) {} _ (.ok ())
      { kind := .officialGbaRom, linearReadLimit := limit } :=
    legalRun_load.bind (legalRun_store.bind (legalRun_load.bind (h.bind
      (legalRun_load.bind legalRun_store))))
  exact legalRun_store.bind (hprobe.bind (hclassify.bind (legalRun_load.bind legalRun_pure)))

theorem infix_officialTrace {part content : List Tool.Event} {limit : UInt32}
    (h : part <:+: content) : part <:+: officialTrace content limit :=
  List.infix_append_of_infix_right (List.infix_append_of_infix_right
    (List.infix_append_of_infix_left (List.infix_append_of_infix_right
      (List.infix_append_of_infix_right (List.infix_append_of_infix_right
        (List.infix_append_of_infix_left h))))))

theorem firstBytes_wordExchange {before : List Tool.Event} (after : List Tool.Event)
    (word : UInt32) (hbefore : ∀ e ∈ before, ¬ IsRomRead e.1) :
    FirstBytes (before ++ (wordExchange word ++ after)) (le32 word) :=
  ⟨before, after, rfl, hbefore⟩

/-- On a card whose first word is a high branch, an initialization may send EZ3-only packets, read a
header that starts with this word, and end with an official cartridge. -/
theorem officialRun_of_highBranch {word : UInt32} (h : HighBranch cardImageLimit word) :
    ∃ trace, OfficialRun trace ∧ FirstBytes trace (le32 word) ∧ headerExchange word <:+: trace ∧
      ¬ Clean trace := by
  obtain ⟨loaderStart, hbranch, hrange, hhigh⟩ := h
  obtain ⟨limit, selection, hmem, hprepare⟩ := prepareLinearForAddress_eq hhigh
    (loaderEnd_lt (UInt32.not_le.mp fun h => hrange (.inr h)))
  have hcontent := @legalRun_classifyCartridgeContent {} _ _ _ _ hbranch hrange hprepare
    (mapping_gt hmem)
  have hrun := legalRun_officialTrace hcontent
  have hfresh : Fresh ([⟨.store {}, ()⟩] ++ (probeExchange unknownFlashId).map event) :=
    fresh_of_sends ⟨by simp [Clean, Ez3Only], by simp [IsRomRead]⟩
      (always_probe_quiet.run runs_probe).1
  have hbefore := List.forall_mem_append.mpr
    ⟨hfresh.2, (by simp [IsRomRead] : ∀ e ∈ ([⟨.load, {}⟩, ⟨.store {}, ()⟩, ⟨.load, {}⟩] :
      List Tool.Event), ¬ IsRomRead e.1)⟩
  refine ⟨_, ⟨{}, _, hrun, rfl⟩, ?_, ?_, ?_⟩
  · have hfirst := fun after => firstBytes_wordExchange after word hbefore
    simp only [officialTrace, List.append_assoc, List.cons_append, List.nil_append] at hfirst ⊢
    exact hfirst _
  · exact infix_officialTrace (List.infix_append_of_infix_right List.infix_append_left)
  · intro hclean
    have hpacket : Ez3Only (.usb (.out [0x02, 0x00])) := .inr (by decide)
    refine hclean ⟨.usb (.out [0x02, 0x00]), true⟩ ?_ hpacket
    simp [officialTrace, prepareTrace, mapping_not_clean hmem]

theorem length_firstBytes {trace : List Tool.Event} {bytes : Bytes} (hrun : OfficialRun trace)
    (hfirst : FirstBytes trace bytes) : bytes.length = 4 := by
  obtain ⟨before, after, rfl, _⟩ := hfirst
  obtain ⟨c, c', hrun, _⟩ := hrun
  exact hrun.legal ⟨.usb (.inExact 4), some bytes⟩ (by simp)

theorem eq_le32 {bytes : Bytes} (h : bytes.length = 4) : bytes = le32 (readLe32 bytes 0) := by
  match bytes, h with
  | [b0, b1, b2, b3], _ => exact (le32_readLe32 b0 b1 b2 b3 []).symm

/-- Whether an EZ3-only packet may reach a cartridge that is then found official depends on its
first word alone; without one, none is sent. -/
theorem official_clean_iff (word : UInt32) :
    ((∀ trace, OfficialRun trace → FirstBytes trace (le32 word) → Clean trace) ↔
      ¬ HighBranch cardImageLimit word) ∧
    ∀ trace, OfficialRun trace → (∀ word, ¬ FirstBytes trace (le32 word)) → Clean trace := by
  refine ⟨⟨fun hall hhigh => ?_, fun hlow trace hrun hfirst => ?_⟩, fun trace hrun hnone => ?_⟩
  · obtain ⟨trace, hrun, hfirst, _, hno⟩ := officialRun_of_highBranch hhigh
    exact hno (hall trace hrun hfirst)
  · obtain hclean | ⟨bytes, hbytes, hhigh⟩ := clean_of_run hrun
    · exact hclean
    · rw [hbytes.unique hfirst, readLe32_le32] at hhigh
      exact absurd hhigh hlow
  · obtain hclean | ⟨bytes, hbytes, hhigh⟩ := clean_of_run hrun
    · exact hclean
    · rw [eq_le32 (length_firstBytes hrun hbytes)] at hbytes
      exact absurd hbytes (hnone _)

/-- A ROM that starts with a branch to `0x00800000`, as the header says that is read from it. -/
theorem official_not_clean : ∃ trace header, OfficialRun trace ∧
    FirstBytes trace [0xFE, 0xFF, 0x1F, 0xEA] ∧
    [⟨.usb (.out (readCommand 0 0xC0)), true⟩, ⟨.usb (.inExact 0xC0), some header⟩] <:+: trace ∧
    header.take 4 = [0xFE, 0xFF, 0x1F, 0xEA] ∧ ¬ Clean trace := by
  obtain ⟨trace, hrun, hfirst, hread, hno⟩ :=
    @officialRun_of_highBranch 0xEA1FFFFE ⟨0x00800000, by decide, by decide, by decide⟩
  exact ⟨trace, officialHeader 0xEA1FFFFE, hrun, hfirst, hread, take_officialHeader, hno⟩

end OfficialCartridge

end Ezfadvance
