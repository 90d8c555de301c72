import Ezfadvance.ReadMapping

/-!
# MappingSession

What `linear_read_limit_` still says after a mapping sequence has broken off. The calls that set up
or map the cartridge run in any order, on a transport that answers in any way.

* `MappingCall`, `MappingSession`: the calls, and the traces and fields they lead to.
* `Unresolved`: a mapping sequence was begun and none has been acknowledged in full since.
* `StartsSafely`: no sequence breaks off that was begun above the default limit.
* `prepared_resolved`: then no call that needs a mapping returns `true` over a broken one.
-/

namespace Ezfadvance

open Interact Interact.Program CartridgeFormat ReadOnlyCartridge Tool Protocol

inductive MappingCall where
  | initializeCartridge
  | prepareLinear16MiB
  | prepareLinear24MiB
  | prepareLinear32MiB
  | prepareLinearForAddress (address : UInt32)

namespace MappingCall

def run : MappingCall → Tool Bool
  | .initializeCartridge => ReadOnlyCartridge.initializeCartridge
  | .prepareLinear16MiB => ReadOnlyCartridge.prepareLinear16MiB
  | .prepareLinear24MiB => ReadOnlyCartridge.prepareLinear24MiB
  | .prepareLinear32MiB => ReadOnlyCartridge.prepareLinear32MiB
  | .prepareLinearForAddress address => ReadOnlyCartridge.prepareLinearForAddress address

/-- Prepares reads at or above 8 MiB. -/
def NeedsMapping : MappingCall → Prop
  | .initializeCartridge => False
  | .prepareLinear16MiB => True
  | .prepareLinear24MiB => True
  | .prepareLinear32MiB => True
  | .prepareLinearForAddress address => 0x00800000 ≤ address

end MappingCall

/-- Calls one after the other; the caller goes on after whatever one of them ends with. -/
inductive MappingSession : List Tool.Event → ReadOnlyCartridge → Prop where
  | start : MappingSession [] {}
  | call {h t : List Tool.Event} {c c' : ReadOnlyCartridge} {call : MappingCall}
      {out : Except StdException Bool} (session : MappingSession h c) (run : Runs call.run t out)
      (path : Path memory c t c') : MappingSession (h ++ t) c'

/-! ## Sequences begun and acknowledged -/

def firstTransfer : Tool.Event := ⟨.usb (.out command92Two), true⟩

/-- A mapping sequence begins with a control transfer that is sent right after the limit has been
looked up; `rest` is what came after that transfer. -/
def Begun (h : List Tool.Event) (fields : ReadOnlyCartridge) (rest : List Tool.Event) : Prop :=
  ∃ before, h = before ++ ⟨.load, fields⟩ :: firstTransfer :: rest

/-- A mapping sequence was acknowledged from its first to its last transfer. -/
def Acknowledged (t : List Tool.Event) : Prop :=
  ∃ limit selection, (limit, selection) ∈ mappings ∧ mappingExchange selection <:+: t

def Unresolved (h : List Tool.Event) : Prop :=
  ∃ fields rest, Begun h fields rest ∧ ¬ Acknowledged (firstTransfer :: rest)

/-- Each mapping sequence is begun at the default limit or acknowledged to its end. -/
def StartsSafely (h : List Tool.Event) : Prop :=
  ∀ fields rest, Begun h fields rest → fields.linearReadLimit = 0x00800000 ∨
    ∃ limit selection, (limit, selection) ∈ mappings ∧
      mappingExchange selection <+: firstTransfer :: rest

theorem Acknowledged.append {t : List Tool.Event} (h : Acknowledged t) (u : List Tool.Event) :
    Acknowledged (t ++ u) := by
  obtain ⟨limit, selection, hmem, hin⟩ := h
  exact ⟨limit, selection, hmem, hin.trans (List.prefix_append t u).isInfix⟩

theorem Begun.append {h : List Tool.Event} {fields : ReadOnlyCartridge} {rest : List Tool.Event}
    (hb : Begun h fields rest) (t : List Tool.Event) : Begun (h ++ t) fields (rest ++ t) := by
  obtain ⟨before, rfl⟩ := hb
  exact ⟨before, by rw [List.append_assoc]; rfl⟩

section Begun

variable {h t : List Tool.Event} {fields : ReadOnlyCartridge} {rest : List Tool.Event}

/-- Where a sequence of two traces put together begins: in the first, between them or in the
second. -/
theorem begun_append_cases (hb : Begun (h ++ t) fields rest) :
    (∃ rest', Begun h fields rest' ∧ rest = rest' ++ t) ∨
      ((∃ before, h = before ++ [⟨.load, fields⟩]) ∧ t = firstTransfer :: rest) ∨
      Begun t fields rest := by
  obtain ⟨before, heq⟩ := hb
  obtain ⟨rest1, hh, hrest⟩ | ⟨rest1, _, ht⟩ := split_append heq.symm
  · cases rest1 with
    | nil => exact .inr (.inl ⟨⟨before, hh⟩, hrest.symm⟩)
    | cons e rest1 =>
      cases hrest
      exact .inl ⟨rest1, ⟨before, hh⟩, rfl⟩
  · exact .inr (.inr ⟨rest1, ht⟩)

/-- What is added begins no sequence. -/
def NoBegin (h t : List Tool.Event) : Prop :=
  ∀ fields rest, Begun (h ++ t) fields rest → ∃ rest', Begun h fields rest' ∧ rest = rest' ++ t

theorem noBegin_one {e : Tool.Event} (he : e ≠ firstTransfer) : NoBegin h [e] := by
  intro fields rest hb
  obtain hin | ⟨_, hfirst⟩ | ⟨before, hown⟩ := begun_append_cases hb
  · exact hin
  · cases hfirst
    exact absurd rfl he
  · have hlength := congrArg List.length hown
    simp only [List.length_append, List.length_cons, List.length_nil] at hlength
    omega

theorem not_begun_usb (t : List Transport.Event) : ¬ Begun (t.map event) fields rest := by
  rintro ⟨before, heq⟩
  have hload : (⟨.load, fields⟩ : Tool.Event) ∈ t.map event := by rw [heq]; simp
  obtain ⟨e, _, he⟩ := List.mem_map.mp hload
  cases he

theorem noBegin_usb {t : List Transport.Event} (hfirst : ∀ e ∈ t, event e ≠ firstTransfer) :
    NoBegin h (t.map event) := by
  intro fields rest hb
  obtain hin | ⟨_, heq⟩ | hown := begun_append_cases hb
  · exact hin
  · obtain ⟨e, he, hfirst'⟩ := List.mem_map.mp (heq ▸ List.mem_cons_self : firstTransfer ∈ t.map event)
    exact absurd hfirst' (hfirst e he)
  · exact absurd hown (not_begun_usb t)

theorem Unresolved.before (hno : NoBegin h t) (hu : Unresolved (h ++ t)) : Unresolved h := by
  obtain ⟨fields, rest, hb, hack⟩ := hu
  obtain ⟨rest', hb', rfl⟩ := hno fields rest hb
  exact ⟨fields, rest', hb', fun h => hack (h.append t)⟩

end Begun

/-! ## A sequence that breaks off -/

/-- The answer that lets a two-byte control transfer go on. -/
def Affirmed : Transport.Event → Prop
  | ⟨.out _, sent⟩ => sent = true
  | ⟨.inMax _, reply⟩ => reply = some command92Two
  | _ => True

theorem affirmed_exchange {first second : UInt8} :
    ∀ e ∈ (Tx.two first second).exchange, Affirmed e := by
  simp [Tx.exchange, exchange, Affirmed]

theorem runs_out_false {data : Bytes} {t : List Transport.Event}
    (h : Runs (Usb.out data : Usb StdException Bool) t (.ok false)) :
    t.length = 1 ∧ ∃ e ∈ t, ¬ Affirmed e := by
  obtain ⟨r, rfl, hr⟩ := runs_ask_iff.mp h
  cases hr
  exact ⟨rfl, _, List.mem_singleton_self _, Bool.false_ne_true⟩

theorem runs_expectReply_false {t : List Transport.Event}
    (h : Runs (Usb.expectReply command92Two : Usb StdException Bool) t (.ok false)) :
    t.length = 1 ∧ ∃ e ∈ t, ¬ Affirmed e := by
  obtain ⟨reply, t1, t2, rfl, hin, hcompare⟩ := runs_bind_ok h
  obtain rfl := runs_ask hin
  cases reply with
  | none =>
    obtain ⟨rfl, _⟩ := runs_pure_iff.mp hcompare
    exact ⟨rfl, _, List.mem_cons_self, nofun⟩
  | some response =>
    obtain ⟨rfl, hno⟩ := runs_pure_iff.mp hcompare
    refine ⟨rfl, _, List.mem_cons_self, fun hyes => ?_⟩
    obtain rfl : response = command92Two := Option.some.inj hyes
    simp at hno

theorem runs_tx92Two_broken {first second : UInt8} {t : List Transport.Event}
    (h : Runs ((Tx.two first second).send : Usb StdException Bool) t (.ok false)) :
    t.length ≤ 3 ∧ ∃ e ∈ t, ¬ Affirmed e := by
  rw [Tx.send, tx92Two, commandDataEcho, allOf, allOf, allOf, allOf, both_true] at h
  obtain hcommand | ⟨t1, t2, rfl, h1, h2⟩ := runs_both_false_iff.mp h
  · obtain ⟨hlen, hbad⟩ := runs_out_false hcommand
    exact ⟨by omega, hbad⟩
  obtain rfl := runs_out_true_iff.mp h1
  obtain hdata | ⟨t3, t4, rfl, h3, h4⟩ := runs_both_false_iff.mp h2
  · obtain ⟨hlen, e, he, hbad⟩ := runs_out_false hdata
    exact ⟨by rw [List.length_append, hlen]; decide, e, List.mem_append_right _ he, hbad⟩
  · obtain rfl := runs_out_true_iff.mp h3
    obtain ⟨hlen, e, he, hbad⟩ := runs_expectReply_false h4
    refine ⟨?_, e, List.mem_append_right _ (List.mem_append_right _ he), hbad⟩
    rw [List.length_append, List.length_append, hlen]
    exact Nat.le_refl 3

theorem runs_sendAll_broken {transfers : List Tx} {t : List Transport.Event}
    (htwo : ∀ tx ∈ transfers, ∃ first second, tx = .two first second)
    (h : Runs (sendAll transfers : Usb StdException Bool) t (.ok false)) :
    t.length ≤ 3 * transfers.length ∧ ∃ e ∈ t, ¬ Affirmed e := by
  induction transfers generalizing t with
  | nil => cases h
  | cons tx transfers ih =>
    obtain ⟨⟨first, second, rfl⟩, hrest⟩ := List.forall_mem_cons.mp htwo
    rw [sendAll, List.map_cons, allOf] at h
    obtain hbroken | ⟨t1, t2, rfl, h1, h2⟩ := runs_both_false_iff.mp h
    · obtain ⟨hlen, hbad⟩ := runs_tx92Two_broken hbroken
      exact ⟨by rw [List.length_cons]; omega, hbad⟩
    · obtain ⟨hlen, e, he, hbad⟩ := ih hrest h2
      have hsent := runs_send_true_iff.mp h1
      have hlen1 : t1.length = 3 := by
        rw [hsent]
        rfl
      refine ⟨?_, e, List.mem_append_right _ he, hbad⟩
      rw [List.length_append, List.length_cons]
      omega

/-- All three sequences are of fourteen two-byte transfers. -/
theorem mappings_transfers {limit : UInt32} {selection : List Tx}
    (hmem : (limit, selection) ∈ mappings) : (mappingTransfers selection).length = 14 ∧
      ∀ tx ∈ mappingTransfers selection, ∃ first second, tx = .two first second := by
  simp only [mappings, List.mem_cons, Prod.mk.injEq, List.not_mem_nil, or_false] at hmem
  obtain ⟨_, rfl⟩ | ⟨_, rfl⟩ | ⟨_, rfl⟩ := hmem
  · exact ⟨rfl, by simp [mappingTransfers, selection16MiB, flashStatus, finishReadMapping]⟩
  · exact ⟨rfl, by simp [mappingTransfers, selection24MiB, flashStatus, finishReadMapping]⟩
  · exact ⟨rfl, by simp [mappingTransfers, selection32MiB, flashStatus, finishReadMapping]⟩

theorem length_flatMap_exchange (transfers : List Tx) :
    (transfers.flatMap Tx.exchange).length = 3 * transfers.length := by
  induction transfers with
  | nil => rfl
  | cons tx transfers ih =>
    have hlen : tx.exchange.length = 3 := by cases tx <;> rfl
    rw [List.flatMap_cons, List.length_append, List.length_cons, ih, hlen]
    omega

/-- A sequence that broke off is no acknowledged one, whatever follows. -/
theorem broken_not_acknowledged {limit limit' : UInt32} {selection selection' : List Tx}
    {t : List Transport.Event} {more : List Tool.Event} (hmem : (limit, selection) ∈ mappings)
    (hmem' : (limit', selection') ∈ mappings)
    (h : Runs (sendAll (mappingTransfers selection) : Usb StdException Bool) t (.ok false)) :
    ¬ mappingExchange selection' <+: t.map event ++ more := by
  intro hprefix
  obtain ⟨hlen14, htwo⟩ := mappings_transfers hmem
  obtain ⟨hlen14', htwo'⟩ := mappings_transfers hmem'
  obtain ⟨hlen, e, he, hbad⟩ := runs_sendAll_broken htwo h
  have hwithin : t.map event <+: mappingExchange selection' := by
    refine List.prefix_of_prefix_length_le (List.prefix_append _ more) hprefix ?_
    rw [mappingExchange, List.length_map, List.length_map, length_flatMap_exchange]
    omega
  obtain ⟨e', he', heq⟩ := List.mem_map.mp (hwithin.subset (List.mem_map_of_mem he))
  obtain ⟨tx, htx, hin⟩ := List.mem_flatMap.mp he'
  obtain ⟨first, second, rfl⟩ := htwo' tx htx
  have hsame : e' = e := by
    obtain ⟨o, r⟩ := e
    obtain ⟨o', r'⟩ := e'
    cases heq
    rfl
  exact hbad (hsame ▸ affirmed_exchange e' hin)

/-! ## What the remembered limit says -/

/-- Over an unresolved sequence the limit is the default one, in each history that goes on safely. -/
def Remembered (c : ReadOnlyCartridge) (h : List Tool.Event) : Prop :=
  ∀ more, StartsSafely (h ++ more) → Unresolved h → c.linearReadLimit = 0x00800000

section Remembered

variable {c c' : ReadOnlyCartridge} {h t : List Tool.Event}

theorem remembered_default (hdefault : c.linearReadLimit = 0x00800000) : Remembered c h :=
  fun _ _ _ => hdefault

theorem Remembered.append (hr : Remembered c h) (hno : NoBegin h t)
    (hsame : c'.linearReadLimit = c.linearReadLimit) : Remembered c' (h ++ t) := by
  intro more hsafe hu
  rw [List.append_assoc] at hsafe
  rw [hsame]
  exact hr (t ++ more) hsafe (hu.before hno)

theorem Remembered.looked (hr : Remembered c h) : Remembered c (h ++ [⟨.load, c'⟩]) :=
  hr.append (noBegin_one (by simp [firstTransfer])) rfl

theorem Remembered.stored (hr : Remembered c h)
    (hsame : c'.linearReadLimit = c.linearReadLimit) : Remembered c' (h ++ [⟨.store c', ()⟩]) :=
  hr.append (noBegin_one (by simp [firstTransfer])) hsame

/-- Transport code that sends no control command. -/
theorem Remembered.reads {α : Type} {p : Usb StdException α}
    (hA : Always (Transport.Sends (· ≠ command92Two)) Returns p) (hr : Remembered c h) :
    Wp memory.recording (fun _ _ => True) (usb p) (Gives fun _ s => Remembered s.1 s.2) (c, h) := by
  refine wp_gives_mono (wp_usb hA fun _ _ _ => trivial) ?_
  rintro a s ⟨t, rfl, run⟩
  refine hr.append (noBegin_usb fun e he hfirst => ?_) rfl
  have hsends := (hA.run run).1 e he
  obtain ⟨o, r⟩ := e
  cases hfirst
  exact hsends rfl

theorem wp_prepareLinear_remembered {limit : UInt32} {selection : List Tx}
    (hmem : (limit, selection) ∈ mappings) (hr : Remembered c h) :
    Wp memory.recording (fun _ _ => True) (prepareLinear limit selection)
      (Gives fun ok s => Remembered s.1 s.2 ∧
        (ok = true → StartsSafely s.2 → ¬ Unresolved s.2)) (c, h) := by
  have hlooked : NoBegin h [⟨.load, c⟩] := noBegin_one (by simp [firstTransfer])
  rw [prepareLinear]
  refine wp_load_bind trivial ?_
  by_cases hge : c.linearReadLimit ≥ limit
  · rw [if_pos hge]
    refine ⟨hr.looked, fun _ hsafe hu => ?_⟩
    have hdefault := hr [⟨.load, c⟩] hsafe (hu.before hlooked)
    rw [hdefault] at hge
    exact absurd (mapping_gt hmem) (UInt32.not_lt.mpr hge)
  · rw [if_neg hge]
    refine wp_usb_bind (always_mapping hmem) (fun _ _ _ => trivial) ?_
    intro prepared t run
    cases prepared with
    | false =>
      refine ⟨fun more hsafe hu => ?_, fun hno => by cases hno⟩
      obtain ⟨fields, rest, hb, hack⟩ := hu
      obtain ⟨rest', hb', rfl⟩ | ⟨⟨before, hlast⟩, hfirst⟩ | hown := begun_append_cases hb
      · have hu' : Unresolved (h ++ [⟨.load, c⟩]) := ⟨fields, rest', hb', fun h => hack (h.append _)⟩
        refine hr ([⟨.load, c⟩] ++ (t.map event ++ more)) ?_ (hu'.before hlooked)
        rwa [← List.append_assoc, ← List.append_assoc]
      · have hfields := (List.append_inj' hlast rfl).2
        cases hfields
        obtain hdefault | ⟨limit', selection', hmem', hfull⟩ := hsafe _ _ (hb.append more)
        · exact hdefault
        · rw [← List.cons_append, ← hfirst] at hfull
          exact absurd hfull (broken_not_acknowledged hmem hmem' run)
      · exact absurd hown (not_begun_usb t)
    | true =>
      rw [runs_sendAll_true_iff.mp run]
      refine wp_store_bind trivial ?_
      have hresolved : ¬ Unresolved (h ++ [⟨.load, c⟩] ++ mappingExchange selection ++
          [⟨.store { c with linearReadLimit := limit }, ()⟩]) := by
        intro hu
        obtain ⟨fields, rest, hb, hack⟩ := hu.before (noBegin_one (by simp [firstTransfer]))
        refine hack ⟨limit, selection, hmem, ?_⟩
        obtain ⟨rest', _, rfl⟩ | ⟨_, hfirst⟩ | hown := begun_append_cases hb
        · exact (List.suffix_append (firstTransfer :: rest') _).isInfix
        · exact hfirst ▸ List.infix_rfl
        · exact absurd hown (not_begun_usb _)
      exact ⟨fun _ _ hu => absurd hu hresolved, fun _ _ => hresolved⟩

theorem wp_prepareLinearForAddress_remembered {address : UInt32} (hr : Remembered c h) :
    Wp memory.recording (fun _ _ => True) (prepareLinearForAddress address)
      (Gives fun ok s => Remembered s.1 s.2 ∧ (ok = true → 0x00800000 ≤ address →
        StartsSafely s.2 → ¬ Unresolved s.2)) (c, h) := by
  cases addressClass address with
  | default below _ prepare =>
    rw [prepare]
    exact ⟨hr, fun _ habove => absurd below (UInt32.not_lt.mpr habove)⟩
  | mapped limit selection mem _ _ _ prepare =>
    rw [prepare]
    exact wp_gives_mono (wp_prepareLinear_remembered mem hr) fun ok s hs =>
      ⟨hs.1, fun hok _ => hs.2 hok⟩
  | outside _ _ prepare =>
    rw [prepare]
    exact ⟨hr, nofun⟩

theorem readCommand_ne (address : UInt32) (piece : Nat) :
    readCommand address piece ≠ command92Two := by
  simp [readCommand, command, command92Two]

theorem wp_read_remembered {byteAddress : UInt32} {length : Nat} (heven : byteAddress &&& 1 = 0)
    (hr : Remembered c h) :
    Wp memory.recording (fun _ _ => True) (usb (ReadOnlyCartridge.read byteAddress length))
      (Gives fun _ s => Remembered s.1 s.2) (c, h) :=
  Remembered.reads (always_read heven fun _ _ => readCommand_ne _ _) hr

theorem wp_readCatalog_remembered {imageLimit : UInt32} {entryLimit : Nat}
    (hr : Remembered c h) :
    Wp memory.recording (fun _ _ => True) (Ez3CatalogReader.read reads imageLimit entryLimit)
      (Gives fun _ s => Remembered s.1 s.2) (c, h) := by
  rw [Ez3CatalogReader.read]
  refine wp_bind (wp_read_remembered rfl hr) ?_
  rintro word ⟨c1, h1⟩ hr1
  cases word with
  | none => exact hr1
  | some firstBytes =>
    dsimp only
    cases hbranch : armBranchTarget (readLe32 firstBytes 0) with
    | none => exact hr1
    | some loaderStart =>
      dsimp only
      split
      case isTrue => exact hr1
      case isFalse hrange =>
        refine wp_bind (wp_prepareLinearForAddress_remembered hr1) ?_
        rintro ready ⟨c2, h2⟩ ⟨hr2, _⟩
        cases ready with
        | false => exact hr2
        | true =>
          rw [not_or, UInt32.lt_iff_toNat_lt] at hrange
          have hC0 : (0xC0 : UInt32).toNat = 0xC0 := rfl
          refine wp_bind (wp_read_remembered
            (even_of_dvd (branchTarget_even hbranch (by omega))) hr2) ?_
          rintro bytes ⟨c3, h3⟩ hr3
          cases bytes with
          | none => exact hr3
          | some loader =>
            dsimp only
            obtain ⟨parsed, hparse, _⟩ := @Ez3CatalogParser.parse_total loader imageLimit
            rw [hparse]
            exact hr3

theorem wp_classifyCartridgeContent_remembered (hr : Remembered c h) :
    Wp memory.recording (fun _ _ => True) classifyCartridgeContent
      (Gives fun _ s => Remembered s.1 s.2) (c, h) := by
  refine wp_bind (wp_readCatalog_remembered hr) ?_
  rintro discovery ⟨c1, h1⟩ hr1
  show Wp _ _ (if discovery.status = .loaded then _ else _) _ _
  split
  · exact hr1
  · refine wp_bind (wp_read_remembered rfl hr1) ?_
    rintro header ⟨c2, h2⟩ hr2
    cases header with
    | none => exact hr2
    | some header => exact hr2

theorem wp_classify_remembered {beforeFlashId afterFlashId : Bytes}
    (hdefault : c.linearReadLimit = 0x00800000) :
    Wp memory.recording (fun _ _ => True) (classify beforeFlashId afterFlashId)
      (Gives fun _ s => Remembered s.1 s.2) (c, h) := by
  rw [classify]
  refine wp_load_bind trivial (wp_store_bind trivial (wp_load_bind trivial ?_))
  split
  · refine wp_bind (wp_classifyCartridgeContent_remembered (remembered_default hdefault)) ?_
    rintro kind ⟨c2, h2⟩ hr2
    refine wp_load_bind trivial (And.intro trivial fun _ s step => ?_)
    show Remembered s.1 s.2
    rw [step.1, step.2]
    exact hr2.looked.stored rfl
  · exact remembered_default hdefault

theorem wp_initializeCartridge_remembered :
    Wp memory.recording (fun _ _ => True) initializeCartridge
      (Gives fun _ s => Remembered s.1 s.2) (c, h) := by
  rw [initializeCartridge]
  refine wp_store_bind trivial ?_
  have hprobe : Always (Transport.Sends fun _ => True) Returns
      (probe : Usb StdException (Option (Bytes × Bytes))) :=
    always_probe (fun _ _ => trivial) fun _ _ _ _ => trivial
  refine wp_usb_bind hprobe (fun _ _ _ => trivial) ?_
  intro ids t run
  cases ids with
  | none => exact remembered_default rfl
  | some ids =>
    refine wp_bind (wp_classify_remembered rfl) ?_
    rintro _ ⟨c2, h2⟩ hr2
    refine wp_load_bind trivial ?_
    split
    · exact hr2.looked
    · split
      · exact hr2.looked
      · refine Remembered.reads (always_readPrime ?_ fun _ _ => readCommand_ne _ _) hr2.looked
        decide

theorem wp_call (call : MappingCall) (hr : Remembered c h) :
    Wp memory.recording (fun _ _ => True) call.run (Gives fun ok s => Remembered s.1 s.2 ∧
      (ok = true → call.NeedsMapping → StartsSafely s.2 → ¬ Unresolved s.2)) (c, h) := by
  have hlinear : ∀ {limit : UInt32} {selection : List Tx}, (limit, selection) ∈ mappings →
      Wp memory.recording (fun _ _ => True) (prepareLinear limit selection)
        (Gives fun ok s => Remembered s.1 s.2 ∧
          (ok = true → True → StartsSafely s.2 → ¬ Unresolved s.2)) (c, h) :=
    fun hmem => wp_gives_mono (wp_prepareLinear_remembered hmem hr) fun ok s hs =>
      ⟨hs.1, fun hok _ => hs.2 hok⟩
  cases call with
  | initializeCartridge =>
    exact wp_gives_mono wp_initializeCartridge_remembered fun ok s hs => ⟨hs, fun _ hno => hno.elim⟩
  | prepareLinear16MiB => exact hlinear (by simp [mappings])
  | prepareLinear24MiB => exact hlinear (by simp [mappings])
  | prepareLinear32MiB => exact hlinear (by simp [mappings])
  | prepareLinearForAddress address => exact wp_prepareLinearForAddress_remembered hr

end Remembered

/-! ## Calls in any order -/

section Session

variable {c c' : ReadOnlyCartridge} {h t : List Tool.Event} {call : MappingCall}

theorem remembered_call {out : Except StdException Bool} (hr : Remembered c h)
    (run : Runs call.run t out) (path : Path memory c t c') : Remembered c' (h ++ t) ∧
      (out = .ok true → call.NeedsMapping → StartsSafely (h ++ t) → ¬ Unresolved (h ++ t)) := by
  have hpath : Path memory.recording (c, h) t (c', h ++ t) := path_recording_iff.mpr ⟨path, rfl⟩
  have hout := ((wp_call call hr).sound run hpath).2
  cases out with
  | error e => exact hout.elim
  | ok ok =>
    refine ⟨hout.1, ?_⟩
    rintro ⟨⟩
    exact hout.2 rfl

theorem remembered_session (session : MappingSession h c) : Remembered c h := by
  induction session with
  | start => exact remembered_default rfl
  | call _ run path ih => exact (remembered_call ih run path).1

/-- Where every sequence is begun at the default limit or acknowledged to its end, a call that needs
a mapping returns `true` only once a whole sequence has been acknowledged. -/
theorem prepared_resolved (session : MappingSession h c) (run : Runs call.run t (.ok true))
    (path : Path memory c t c') (hneeds : call.NeedsMapping) (hsafe : StartsSafely (h ++ t)) :
    ¬ Unresolved (h ++ t) :=
  (remembered_call (remembered_session session) run path).2 rfl hneeds hsafe

/-- A sequence that breaks off: its first packet is sent, the next one is not. -/
def breaksOff : List Transport.Event := [⟨.out command92Two, true⟩, ⟨.out [0xFF, 0xFF], false⟩]

def brokenTrace (c : ReadOnlyCartridge) : List Tool.Event :=
  [⟨.load, c⟩] ++ (breaksOff.map event ++ [])

theorem runs_breaksOff {selection : List Tx} :
    Runs (sendAll (mappingTransfers selection) : Usb StdException Bool) breaksOff (.ok false) := by
  have hdata : Runs (Usb.out [0xFF, 0xFF] : Usb StdException Bool)
      [⟨.out [0xFF, 0xFF], false⟩] (.ok false) := .op .pure
  refine runs_both_false_iff.mpr (.inl (runs_both_false_iff.mpr (.inr ?_)))
  exact ⟨[⟨.out command92Two, true⟩], _, rfl, runs_out_true_iff.mpr rfl,
    runs_both_false_iff.mpr (.inl hdata)⟩

/-- The call fails, and the remembered limit stays. -/
theorem legalRun_brokenTrace {limit : UInt32} {selection : List Tx}
    (hlt : c.linearReadLimit < limit) :
    LegalRun (prepareLinear limit selection) c (brokenTrace c) (.ok false) c := by
  refine legalRun_load.bind ?_
  show LegalRun (if c.linearReadLimit ≥ limit then _ else _) _ _ _ _
  rw [if_neg (UInt32.not_le.mpr hlt)]
  exact (legalRun_usb runs_breaksOff (by simp [breaksOff, Transport.Legal])).bind legalRun_pure

/-- What is left of a sequence that broke off is too short to be one. -/
theorem unresolved_brokenTrace (hshort : t.length ≤ 1) : Unresolved (h ++ brokenTrace c ++ t) := by
  refine ⟨c, ⟨.usb (.out [0xFF, 0xFF]), false⟩ :: t, ⟨h, ?_⟩, ?_⟩
  · rw [List.append_assoc]
    rfl
  · rintro ⟨limit, selection, hmem, hin⟩
    have hlen := hin.length_le
    rw [mappingExchange, List.length_map, length_flatMap_exchange, (mappings_transfers hmem).1,
      List.length_cons, List.length_cons] at hlen
    omega

theorem startsSafely_of_loads
    (hloads : ∀ fields, ⟨.load, fields⟩ ∈ h → fields.linearReadLimit = 0x00800000) :
    StartsSafely h := by
  rintro fields rest ⟨before, rfl⟩
  exact .inl (hloads fields (by simp))

theorem load_mem_prepareTrace {limit : UInt32} {selection : List Tx} {fields : ReadOnlyCartridge}
    (hload : (⟨.load, fields⟩ : Tool.Event) ∈ prepareTrace c limit selection) : fields = c := by
  simp only [prepareTrace, mappingExchange, List.append_nil, List.mem_append, List.mem_singleton,
    List.mem_map] at hload
  obtain hown | ⟨e, _, he⟩ | hstore := hload
  · cases hown
    rfl
  · cases he
  · cases hstore

theorem load_mem_brokenTrace {fields : ReadOnlyCartridge}
    (hload : (⟨.load, fields⟩ : Tool.Event) ∈ brokenTrace c) : fields = c := by
  simp only [brokenTrace, List.append_nil, List.mem_append, List.mem_singleton,
    List.mem_map] at hload
  obtain hown | ⟨e, _, he⟩ := hload
  · cases hown
    rfl
  · cases he

/-- A call that breaks off leaves its sequence unresolved; the next one resolves it. -/
theorem prepared_resolved_16MiB :
    Unresolved ([] ++ brokenTrace {} ++ []) ∧
      ¬ Unresolved ([] ++ brokenTrace {} ++ prepareTrace {} 0x01000000 selection16MiB) := by
  have hbroken := @legalRun_brokenTrace {} 0x01000000 selection16MiB (by decide)
  have hrun := @legalRun_prepareLinear {} 0x01000000 selection16MiB (by decide)
  have session := @MappingSession.call _ _ _ _ .prepareLinear16MiB _ .start hbroken.run hbroken.path
  refine ⟨unresolved_brokenTrace (Nat.zero_le _),
    @prepared_resolved _ _ _ _ .prepareLinear16MiB session hrun.run hrun.path trivial
      (startsSafely_of_loads fun fields hload => ?_)⟩
  obtain hload | hload := List.mem_append.mp hload
  · rw [load_mem_brokenTrace hload]
  · rw [load_mem_prepareTrace hload]

/-- The 24-MiB sequence breaks off behind its first transfer while the limit is that of the 16-MiB
mapping; the call for 0x00900000 then looks the limit up, sends nothing and returns `true`. -/
theorem broken_mapping_forgotten :
    ¬ ∀ (h t : List Tool.Event) (c c' : ReadOnlyCartridge) (call : MappingCall),
      MappingSession h c → Runs call.run t (.ok true) → Path memory c t c' → call.NeedsMapping →
        ¬ Unresolved (h ++ t) := by
  intro hclaim
  let c16 : ReadOnlyCartridge := { linearReadLimit := 0x01000000 }
  have h16 := @legalRun_prepareLinear {} 0x01000000 selection16MiB (by decide)
  have h24 := @legalRun_brokenTrace c16 0x01800000 selection24MiB (by decide)
  have hagain : Runs (prepareLinearForAddress 0x00900000) [⟨.load, c16⟩] (.ok true) :=
    .op .pure
  have s16 := @MappingSession.call _ _ _ _ .prepareLinear16MiB _ .start h16.run h16.path
  have s24 := @MappingSession.call _ _ _ _ .prepareLinear24MiB _ s16 h24.run h24.path
  exact hclaim _ _ _ c16 (.prepareLinearForAddress 0x00900000) s24 hagain (.cons ⟨rfl, rfl⟩ .nil)
    (show (0x00800000 : UInt32) ≤ 0x00900000 by decide) (unresolved_brokenTrace (Nat.le_refl 1))

end Session

end Ezfadvance
