import Ezfadvance.ReadOnlyCartridge

/-!
# ReadMapping

What the linear read mapping allows. Every `0x91/00` read has to stay below `linear_read_limit_`,
and that limit is 8 MiB until a mapping sequence is acknowledged in full.

* `ReadsBelow`: a ROM read, if it is one, ends at or below a limit.
* `LimitProven`: the trace so far shows where the limit comes from.
* `Kept`: what every operation of the session keeps of the fields and of the trace.
* `wp_prepareLinearForAddress`, `wp_read`, `wp_readCatalog`: one specification an operation.
-/

namespace Ezfadvance

open Interact Interact.Program CartridgeFormat ReadOnlyCartridge Tool

def romReadOpcode : Bytes := [0x5A, 0xA5, 0x91, 0x00]

def IsRomRead : Tool.Op → Prop
  | .usb (.out data) => data.take 4 = romReadOpcode
  | _ => False

/-- A packet that, if it is a ROM read, covers only bytes below `limit`. -/
def PacketBelow (limit : UInt32) (data : Bytes) : Prop :=
  data.take 4 = romReadOpcode →
    2 * (readLe32 data 4).toNat + (readLe32 data 8).toNat ≤ limit.toNat

def ReadsBelow (limit : UInt32) : Tool.Op → Prop
  | .usb (.out data) => PacketBelow limit data
  | _ => True

theorem ReadsBelow.of_other {limit : UInt32} {o : Tool.Op} (h : ¬ IsRomRead o) :
    ReadsBelow limit o := by
  cases o with
  | usb o =>
    cases o with
    | out data => exact fun hread => absurd hread h
    | inExact wanted => trivial
    | inMax maximum => trivial
    | selectBank bankValue => trivial
  | load => trivial
  | store cartridge => trivial
  | write path data => trivial
  | writeNew path data => trivial

/-! ## Where the limit comes from -/

def mappings : List (UInt32 × List Tx) :=
  [(0x01000000, selection16MiB), (0x01800000, selection24MiB), (0x02000000, selection32MiB)]

/-- A mapping sequence with every transfer acknowledged. -/
def mappingExchange (selection : List Tx) : List Tool.Event :=
  ((mappingTransfers selection).flatMap Tx.exchange).map event

/-- The limit is the default, or it was stored right after an acknowledged mapping sequence. -/
def LimitProven (limit : UInt32) (h : List Tool.Event) : Prop :=
  limit = 0x00800000 ∨ ∃ selection cartridge before after, (limit, selection) ∈ mappings ∧
    cartridge.linearReadLimit = limit ∧
    h = before ++ mappingExchange selection ++ ⟨.store cartridge, ()⟩ :: after

theorem LimitProven.append {limit : UInt32} {h : List Tool.Event} (hp : LimitProven limit h)
    (t : List Tool.Event) : LimitProven limit (h ++ t) := by
  obtain hdefault | ⟨selection, cartridge, before, after, hmem, hc, rfl⟩ := hp
  · exact .inl hdefault
  · exact .inr ⟨selection, cartridge, before, after ++ t, hmem, hc, by simp⟩

/-- The default or one of the three larger mappings. -/
theorem LimitProven.cases {limit : UInt32} {h : List Tool.Event} (hp : LimitProven limit h) :
    limit = 0x00800000 ∨ limit = 0x01000000 ∨ limit = 0x01800000 ∨ limit = 0x02000000 := by
  obtain hdefault | ⟨selection, cartridge, before, after, hmem, hc, rfl⟩ := hp
  · exact .inl hdefault
  · simp only [mappings, List.mem_cons, Prod.mk.injEq, List.not_mem_nil, or_false] at hmem
    obtain ⟨rfl, _⟩ | ⟨rfl, _⟩ | ⟨rfl, _⟩ := hmem
    · exact .inr (.inl rfl)
    · exact .inr (.inr (.inl rfl))
    · exact .inr (.inr (.inr rfl))

theorem LimitProven.ge {limit : UInt32} {h : List Tool.Event} (hp : LimitProven limit h) :
    0x00800000 ≤ limit.toNat := by
  obtain rfl | rfl | rfl | rfl := hp.cases
  · exact Nat.le_refl _
  · decide
  · decide
  · decide

/-- From the fields `c` and the trace `h` on: the limit is still accounted for and has not shrunk,
the kind is the same, and the trace has only grown. -/
structure Kept (c : ReadOnlyCartridge) (h : List Tool.Event)
    (s : ReadOnlyCartridge × List Tool.Event) : Prop where
  proven : LimitProven s.1.linearReadLimit s.2
  grown : ∃ t, s.2 = h ++ t
  limit : c.linearReadLimit.toNat ≤ s.1.linearReadLimit.toNat
  kind : s.1.kind = c.kind

theorem Kept.trans {c : ReadOnlyCartridge} {h : List Tool.Event}
    {m s : ReadOnlyCartridge × List Tool.Event} (h1 : Kept c h m) (h2 : Kept m.1 m.2 s) :
    Kept c h s := by
  obtain ⟨t1, ht1⟩ := h1.grown
  obtain ⟨t2, ht2⟩ := h2.grown
  exact ⟨h2.proven, ⟨t1 ++ t2, by rw [ht2, ht1, List.append_assoc]⟩, h1.limit.trans h2.limit,
    h2.kind.trans h1.kind⟩

/-- A ROM read stays below the limit in force, and the trace so far accounts for that limit. -/
def MayRead (s : ReadOnlyCartridge × List Tool.Event) (o : Tool.Op) : Prop :=
  ReadsBelow s.1.linearReadLimit o ∧ (IsRomRead o → LimitProven s.1.linearReadLimit s.2)

theorem MayRead.of_other {s : ReadOnlyCartridge × List Tool.Event} {o : Tool.Op}
    (h : ¬ IsRomRead o) : MayRead s o :=
  ⟨.of_other h, fun hread => absurd hread h⟩

section Specs

variable {c : ReadOnlyCartridge} {h : List Tool.Event}

theorem Kept.refl (hp : LimitProven c.linearReadLimit h) (t : List Tool.Event) :
    Kept c h (c, h ++ t) :=
  ⟨hp.append t, ⟨t, rfl⟩, Nat.le_refl _, rfl⟩

/-- Packets that are no ROM reads may be sent at any moment. -/
theorem MayRead.of_sends {s : ReadOnlyCartridge × List Tool.Event} {o : Transport.Op}
    (h : Transport.Sends (fun data => data.take 4 ≠ romReadOpcode) o) : MayRead s (.usb o) := by
  refine .of_other ?_
  cases o with
  | out data => exact h
  | inExact wanted => exact id
  | inMax maximum => exact id
  | selectBank bankValue => exact id

/-- A mapping whose packets are no ROM reads. -/
theorem always_mapping {selection : List Tx} {limit : UInt32}
    (hmem : (limit, selection) ∈ mappings) :
    Always (Transport.Sends fun data => data.take 4 ≠ romReadOpcode) Returns
      (sendAll (mappingTransfers selection) : Usb StdException Bool) := by
  refine always_sendAll ?_ trivial
  simp only [mappings, List.mem_cons, Prod.mk.injEq, List.not_mem_nil, or_false] at hmem
  obtain ⟨_, rfl⟩ | ⟨_, rfl⟩ | ⟨_, rfl⟩ := hmem
  · exact (by decide : ∀ tx ∈ mappingTransfers selection16MiB, ∀ data ∈ tx.packets,
      data.take 4 ≠ romReadOpcode)
  · exact (by decide : ∀ tx ∈ mappingTransfers selection24MiB, ∀ data ∈ tx.packets,
      data.take 4 ≠ romReadOpcode)
  · exact (by decide : ∀ tx ∈ mappingTransfers selection32MiB, ∀ data ∈ tx.packets,
      data.take 4 ≠ romReadOpcode)

theorem wp_prepareLinear {limit : UInt32} {selection : List Tx}
    (hmem : (limit, selection) ∈ mappings)
    (hp : LimitProven c.linearReadLimit h) :
    Wp memory.recording MayRead (prepareLinear limit selection)
      (Gives fun ok s => Kept c h s ∧ (ok = true → limit.toNat ≤ s.1.linearReadLimit.toNat))
      (c, h) := by
  rw [prepareLinear]
  refine wp_load_bind (.of_other id) ?_
  by_cases hge : c.linearReadLimit ≥ limit
  · rw [if_pos hge]
    exact ⟨Kept.refl hp _, fun _ => UInt32.le_iff_toNat_le.mp hge⟩
  · rw [if_neg hge]
    refine wp_usb_bind (always_mapping hmem) (fun t o ho => .of_sends ho) ?_
    intro prepared t run
    cases prepared with
    | false =>
      rw [List.append_assoc]
      exact ⟨Kept.refl hp _, fun hno => by cases hno⟩
    | true =>
      rw [runs_sendAll_true_iff.mp run]
      refine wp_store_bind (.of_other id) ?_
      refine ⟨⟨?_, ?_, ?_, rfl⟩, fun _ => Nat.le_refl _⟩
      · exact .inr ⟨selection, _, h ++ [⟨.load, c⟩], [], hmem, rfl, rfl⟩
      · exact ⟨_, by rw [List.append_assoc, List.append_assoc]⟩
      · exact Nat.le_of_lt (UInt32.lt_iff_toNat_lt.mp (UInt32.not_le.mp hge))

/-- Neither a ROM read nor a store. -/
def Passive : Tool.Op → Prop
  | .store _ => False
  | o => ¬ IsRomRead o

theorem wp_passive {α : Type} {p : Tool α} (hA : Always Passive Returns p)
    (hp : LimitProven c.linearReadLimit h) :
    Wp memory.recording MayRead p (Gives fun _ s => Kept c h s) (c, h) := by
  have hstart : Kept c h (c, h) := by simpa using Kept.refl hp []
  refine wp_mono (hA.wp (I := Kept c h) ?_ ?_ hstart) ?_
  · intro s o _ ho
    refine .of_other ?_
    cases o with
    | store cartridge => exact id
    | _ => exact ho
  · intro s o r s' ho step hkept
    have hsame : s'.1 = s.1 := by
      cases o with
      | store cartridge => exact ho.elim
      | load => exact step.1.2
      | _ => exact step.1
    refine hkept.trans ⟨?_, ⟨_, step.2⟩, by rw [hsame], by rw [hsame]⟩
    rw [hsame, step.2]
    exact hkept.proven.append _
  · intro out s hs
    cases out with
    | ok a => exact hs.2
    | error e => exact hs.1.elim

/-- What the class of an address asks for. -/
inductive AddressClass (address : UInt32) : Prop where
  | default (below : address < 0x00800000)
      (required : requiredLinearReadLimit address = some 0x00800000)
      (prepare : prepareLinearForAddress address = .pure true)
  | mapped (limit : UInt32) (selection : List Tx) (mem : (limit, selection) ∈ mappings)
      (below : address.toNat < limit.toNat) (above : limit.toNat ≤ address.toNat + 0x00800000)
      (required : requiredLinearReadLimit address = some limit)
      (prepare : prepareLinearForAddress address = prepareLinear limit selection)
  | outside (above : 0x02000000 ≤ address) (required : requiredLinearReadLimit address = none)
      (prepare : prepareLinearForAddress address = .pure false)

theorem addressClass (address : UInt32) : AddressClass address := by
  by_cases h8 : address < 0x00800000
  · have hrequired : requiredLinearReadLimit address = some 0x00800000 := by
      rw [requiredLinearReadLimit, if_pos h8]
    exact .default h8 hrequired (by rw [prepareLinearForAddress, hrequired]; rfl)
  have h8' : 0x00800000 ≤ address.toNat := UInt32.le_iff_toNat_le.mp (UInt32.not_lt.mp h8)
  by_cases h16 : address < 0x01000000
  · have hrequired : requiredLinearReadLimit address = some 0x01000000 := by
      rw [requiredLinearReadLimit, if_neg h8, if_pos h16]
    exact .mapped 0x01000000 selection16MiB (by simp [mappings]) (UInt32.lt_iff_toNat_lt.mp h16)
      (Nat.add_le_add_right h8' 0x00800000) hrequired
      (by rw [prepareLinearForAddress, hrequired]; rfl)
  have h16' : 0x01000000 ≤ address.toNat := UInt32.le_iff_toNat_le.mp (UInt32.not_lt.mp h16)
  by_cases h24 : address < 0x01800000
  · have hrequired : requiredLinearReadLimit address = some 0x01800000 := by
      rw [requiredLinearReadLimit, if_neg h8, if_neg h16, if_pos h24]
    exact .mapped 0x01800000 selection24MiB (by simp [mappings]) (UInt32.lt_iff_toNat_lt.mp h24)
      (Nat.add_le_add_right h16' 0x00800000) hrequired
      (by rw [prepareLinearForAddress, hrequired]; rfl)
  have h24' : 0x01800000 ≤ address.toNat := UInt32.le_iff_toNat_le.mp (UInt32.not_lt.mp h24)
  by_cases h32 : address < 0x02000000
  · have hrequired : requiredLinearReadLimit address = some 0x02000000 := by
      rw [requiredLinearReadLimit, if_neg h8, if_neg h16, if_neg h24, if_pos h32]
    exact .mapped 0x02000000 selection32MiB (by simp [mappings]) (UInt32.lt_iff_toNat_lt.mp h32)
      (Nat.add_le_add_right h24' 0x00800000) hrequired
      (by rw [prepareLinearForAddress, hrequired]; rfl)
  · have hrequired : requiredLinearReadLimit address = none := by
      rw [requiredLinearReadLimit, if_neg h8, if_neg h16, if_neg h24, if_neg h32]
    exact .outside (UInt32.not_lt.mp h32) hrequired (by rw [prepareLinearForAddress, hrequired])

/-- Every address class prepares the mapping that holds it. -/
theorem wp_prepareLinearForAddress {address : UInt32}
    (hp : LimitProven c.linearReadLimit h) :
    Wp memory.recording MayRead (prepareLinearForAddress address)
      (Gives fun ok s => Kept c h s ∧
        (ok = true → address.toNat < s.1.linearReadLimit.toNat)) (c, h) := by
  have hstay : Kept c h (c, h) := by simpa using Kept.refl hp []
  cases addressClass address with
  | default below _ prepare =>
    rw [prepare]
    exact ⟨hstay, fun _ => Nat.lt_of_lt_of_le (UInt32.lt_iff_toNat_lt.mp below) hp.ge⟩
  | mapped limit selection mem below _ _ prepare =>
    rw [prepare]
    refine wp_gives_mono (wp_prepareLinear mem hp) fun ok s ⟨hkept, hok⟩ => ⟨hkept, ?_⟩
    exact fun htrue => Nat.lt_of_lt_of_le below (hok htrue)
  | outside _ _ prepare =>
    rw [prepare]
    exact ⟨hstay, fun hno => by cases hno⟩

theorem LimitProven.le {limit : UInt32} (hp : LimitProven limit h) : limit.toNat ≤ 2 ^ 25 := by
  obtain rfl | rfl | rfl | rfl := hp.cases
  · decide
  · decide
  · decide
  · decide

/-- The default limit and the mappings are whole numbers of 64-KiB blocks. -/
theorem LimitProven.header_fits {start limit : UInt32} (hp : LimitProven limit h)
    (hdvd : 0x10000 ∣ start.toNat) (hlt : start.toNat < limit.toNat) :
    start.toNat + 0xC0 ≤ limit.toNat := by
  have hlimit : 0x10000 ∣ limit.toNat := by
    obtain rfl | rfl | rfl | rfl := hp.cases <;> decide
  omega

/-- Each piece of a read that ends below the limit does. -/
theorem packetBelow_piece {byteAddress limit : UInt32} {length done : Nat} (hlt : done < length)
    (hfit : byteAddress.toNat + length ≤ limit.toNat) (hlimit : limit.toNat ≤ 2 ^ 25) :
    PacketBelow limit
      (readCommand (byteAddress + UInt32.ofNat done) (min 0x10000 (length - done))) := by
  intro _
  have hdone : (UInt32.ofNat done).toNat = done := by
    rw [UInt32.toNat_ofNat', Nat.mod_eq_of_lt (by omega)]
  have haddr : (byteAddress + UInt32.ofNat done).toNat = byteAddress.toNat + done := by
    rw [UInt32.toNat_add, hdone, Nat.mod_eq_of_lt (by omega)]
  have hpiece : (UInt32.ofNat (min 0x10000 (length - done))).toNat = min 0x10000 (length - done) := by
    rw [UInt32.toNat_ofNat', Nat.mod_eq_of_lt (by omega)]
  have htwo : (2 : UInt32).toNat = 2 := rfl
  rw [readCommand, readLe32_command_word, readLe32_command_length, hpiece, UInt32.toNat_div, haddr,
    htwo]
  omega

/-- Transport code whose reads stay below the limit. -/
theorem wp_packetsBelow {α : Type} {p : Usb StdException α}
    (hA : Always (Transport.Sends (PacketBelow c.linearReadLimit)) Returns p)
    (hp : LimitProven c.linearReadLimit h) :
    Wp memory.recording MayRead (usb p) (Gives fun _ s => ∃ t, s = (c, h ++ t)) (c, h) := by
  refine wp_gives_mono (wp_usb hA fun t o ho => ⟨?_, fun _ => hp.append t⟩) ?_
  · cases o with
    | out data => exact ho
    | inExact wanted => trivial
    | inMax maximum => trivial
    | selectBank bankValue => trivial
  · rintro r s ⟨t, rfl, _⟩
    exact ⟨_, rfl⟩

theorem wp_read {byteAddress : UInt32} {length : Nat}
    (hp : LimitProven c.linearReadLimit h) (heven : 2 ∣ byteAddress.toNat)
    (hfit : byteAddress.toNat + length ≤ c.linearReadLimit.toNat) :
    Wp memory.recording MayRead (usb (read byteAddress length))
      (Gives fun _ s => ∃ t, s = (c, h ++ t)) (c, h) :=
  wp_packetsBelow (always_read (even_of_dvd heven) fun _ hlt => packetBelow_piece hlt hfit hp.le) hp

/-- The end of the loader that is read, without wrapping around. -/
theorem toNat_loaderEnd {imageLimit loaderStart : UInt32}
    (hlt : loaderStart.toNat < imageLimit.toNat) :
    (loaderStart + UInt32.ofNat (Ez3CatalogReader.readLength imageLimit loaderStart - 1)).toNat + 1 =
      loaderStart.toNat + Ez3CatalogReader.readLength imageLimit loaderStart := by
  have hsub : (imageLimit - loaderStart).toNat = imageLimit.toNat - loaderStart.toNat :=
    UInt32.toNat_sub_of_le _ _ (by rw [UInt32.le_iff_toNat_le]; omega)
  have hmax := imageLimit.toNat_lt
  rw [UInt32.toNat_add, UInt32.toNat_ofNat', Ez3CatalogReader.readLength, hsub,
    Ez3CatalogParser.loaderReadSize]
  omega

theorem wp_readCatalog {imageLimit : UInt32} {entryLimit : Nat}
    (hp : LimitProven c.linearReadLimit h) :
    Wp memory.recording MayRead (Ez3CatalogReader.read reads imageLimit entryLimit)
      (Gives fun result s => Kept c h s ∧ Loads imageLimit entryLimit result ∧
        (result.status = .loaded → result.loaderEnd.toNat < s.1.linearReadLimit.toNat)) (c, h) := by
  have hnone : ∀ {result : Ez3CatalogReadResult} {limit : UInt32}, result.status ≠ .loaded →
      Loads imageLimit entryLimit result ∧
        (result.status = .loaded → result.loaderEnd.toNat < limit.toNat) :=
    fun hno => ⟨fun h => absurd h hno, fun h => absurd h hno⟩
  have hstart : 0 + 4 ≤ c.linearReadLimit.toNat := by have := hp.ge; omega
  rw [Ez3CatalogReader.read]
  refine wp_bind (wp_read hp (Nat.dvd_zero _) hstart) ?_
  rintro word s ⟨t, rfl⟩
  have hp1 := hp.append t
  cases word with
  | none => exact ⟨Kept.refl hp t, hnone (by simp)⟩
  | some firstBytes =>
    dsimp only
    cases hbranch : armBranchTarget (readLe32 firstBytes 0) with
    | none => exact ⟨Kept.refl hp t, hnone (by simp)⟩
    | some loaderStart =>
      dsimp only
      split
      case isTrue => exact ⟨Kept.refl hp t, hnone (by simp)⟩
      case isFalse hrange =>
        refine wp_bind (wp_prepareLinearForAddress hp1) ?_
        rintro ready ⟨c2, h2⟩ ⟨hkept, hready⟩
        have hall : Kept c h (c2, h2) := (Kept.refl hp t).trans hkept
        cases ready with
        | false => exact ⟨hall, hnone (by simp)⟩
        | true =>
          have hbelow : (loaderStart + UInt32.ofNat
              (Ez3CatalogReader.readLength imageLimit loaderStart - 1)).toNat <
                c2.linearReadLimit.toNat := hready rfl
          rw [not_or, ge_iff_le, UInt32.lt_iff_toNat_lt, UInt32.le_iff_toNat_le] at hrange
          have hC0 : (0xC0 : UInt32).toNat = 0xC0 := rfl
          have heven := branchTarget_even hbranch (by omega)
          have hend := toNat_loaderEnd (Nat.not_le.mp hrange.2)
          refine wp_bind (wp_read hkept.proven heven (by omega)) ?_
          rintro bytes s ⟨t2, rfl⟩
          have hall2 : Kept c h (c2, h2 ++ t2) := hall.trans (Kept.refl hkept.proven t2)
          cases bytes with
          | none => exact ⟨hall2, hnone (by simp)⟩
          | some loader =>
            dsimp only
            obtain ⟨parsed, hparse, hspec⟩ := @Ez3CatalogParser.parse_total loader imageLimit
            rw [hparse]
            refine And.intro hall2 ⟨loads_finish hspec, fun hloaded => ?_⟩
            cases parsed with
            | none => cases hloaded
            | some layout =>
              dsimp only [Ez3CatalogReader.finish] at hloaded ⊢
              split at hloaded
              case isTrue => cases hloaded
              case isFalse hentries =>
                rw [if_neg hentries]
                exact hbelow

theorem passive_of_sends {o : Transport.Op}
    (h : Transport.Sends (fun data => data.take 4 ≠ romReadOpcode) o) : Passive (.usb o) := by
  cases o with
  | out data => exact h
  | inExact wanted => exact id
  | inMax maximum => exact id
  | selectBank bankValue => exact id

theorem always_usb_passive {α : Type} {p : Usb StdException α}
    (hA : Always (Transport.Sends fun data => data.take 4 ≠ romReadOpcode) Returns p) :
    Always Passive Returns (usb p) :=
  always_usb (hA.weaken fun _ => passive_of_sends)

/-- The fields as they are now: what a program goes on from. -/
def Proven (s : ReadOnlyCartridge × List Tool.Event) : Prop :=
  LimitProven s.1.linearReadLimit s.2

theorem wp_classifyCartridgeContent (hp : LimitProven c.linearReadLimit h) :
    Wp memory.recording MayRead classifyCartridgeContent (Gives fun _ s => Proven s) (c, h) := by
  refine wp_bind (wp_readCatalog hp) ?_
  rintro discovery ⟨c1, h1⟩ ⟨hkept, _, _⟩
  show Wp _ _ (if discovery.status = .loaded then _ else _) _ _
  split
  · exact hkept.proven
  · have hge := hkept.proven.ge
    refine wp_bind (wp_read hkept.proven (Nat.dvd_zero _) (by simp at hge ⊢; omega)) ?_
    rintro header s ⟨t, rfl⟩
    cases header with
    | none => exact hkept.proven.append t
    | some header => exact hkept.proven.append t

theorem wp_classify {beforeFlashId afterFlashId : Bytes} (hp : LimitProven c.linearReadLimit h) :
    Wp memory.recording MayRead (classify beforeFlashId afterFlashId)
      (Gives fun _ s => Proven s) (c, h) := by
  rw [classify]
  refine wp_load_bind (.of_other id) (wp_store_bind (.of_other id) (wp_load_bind (.of_other id) ?_))
  have hp1 : LimitProven c.linearReadLimit _ :=
    ((hp.append [⟨.load, c⟩]).append [⟨.store { c with
      kind := classifyProbeBehavior beforeFlashId afterFlashId }, ()⟩]).append [⟨.load, { c with
        kind := classifyProbeBehavior beforeFlashId afterFlashId }⟩]
  split
  · refine wp_bind (wp_classifyCartridgeContent hp1) ?_
    rintro kind ⟨c2, h2⟩ hp2
    refine wp_load_bind (.of_other id) (And.intro (.of_other id) fun _ s step => ?_)
    have hlimit : s.1.linearReadLimit = c2.linearReadLimit := congrArg (·.linearReadLimit) step.1
    show LimitProven s.1.linearReadLimit s.2
    rw [hlimit, step.2]
    exact (hp2.append _).append _
  · exact hp1

theorem wp_readPrime (hp : LimitProven c.linearReadLimit h) :
    Wp memory.recording MayRead (usb readPrime) (Gives fun _ s => Proven s) (c, h) := by
  have hge := hp.ge
  have hA : Always (Transport.Sends (PacketBelow c.linearReadLimit)) Returns readPrime :=
    always_readPrime (fun hread => absurd hread (by decide)) fun _ hlt =>
      packetBelow_piece hlt (by simp at hge ⊢; omega) hp.le
  refine wp_gives_mono (wp_packetsBelow hA hp) ?_
  rintro _ s ⟨t, rfl⟩
  exact hp.append t

/-- After `initializeCartridge`, whatever it found, the limit is accounted for. -/
theorem wp_initializeCartridge :
    Wp memory.recording MayRead initializeCartridge (Gives fun _ s => Proven s) (c, h) := by
  rw [initializeCartridge]
  refine wp_store_bind (.of_other id) ?_
  refine wp_bind (wp_passive (always_usb_passive (always_probe (by decide) (by decide))) (.inl rfl)) ?_
  rintro ids ⟨c1, h1⟩ hkept
  cases ids with
  | none => exact hkept.proven
  | some ids =>
    refine wp_bind (wp_classify hkept.proven) ?_
    rintro _ ⟨c2, h2⟩ hp2
    refine wp_load_bind (.of_other id) ?_
    have hp3 := LimitProven.append hp2 [⟨.load, c2⟩]
    split
    · exact hp3
    · split
      · exact hp3
      · exact wp_readPrime hp3

end Specs

/-! ## An acknowledged mapping -/

theorem mapping_gt {limit : UInt32} {selection : List Tx} (hmem : (limit, selection) ∈ mappings) :
    0x00800000 < limit := by
  simp only [mappings, List.mem_cons, Prod.mk.injEq, List.not_mem_nil, or_false] at hmem
  obtain ⟨rfl, _⟩ | ⟨rfl, _⟩ | ⟨rfl, _⟩ := hmem <;> decide

theorem legal_exchange {command data : Bytes} : ∀ e ∈ exchange command data, Transport.Legal e := by
  simp [exchange, Transport.Legal]

theorem legal_flatMap_exchange (transfers : List Tx) :
    ∀ e ∈ transfers.flatMap Tx.exchange, Transport.Legal e := by
  intro e he
  obtain ⟨tx, _, he⟩ := List.mem_flatMap.mp he
  cases tx with
  | two first second => exact legal_exchange e he
  | one selector value => exact legal_exchange e he

section Acknowledged

variable {c : ReadOnlyCartridge} {limit : UInt32} {selection : List Tx}

def prepareTrace (c : ReadOnlyCartridge) (limit : UInt32) (selection : List Tx) :
    List Tool.Event :=
  [⟨.load, c⟩] ++ (mappingExchange selection ++
    ([⟨.store { c with linearReadLimit := limit }, ()⟩] ++ []))

theorem legalRun_prepareLinear (hlt : c.linearReadLimit < limit) :
    LegalRun (prepareLinear limit selection) c (prepareTrace c limit selection) (.ok true)
      { c with linearReadLimit := limit } := by
  refine legalRun_load.bind ?_
  show LegalRun (if c.linearReadLimit ≥ limit then _ else _) _ _ _ _
  rw [if_neg (UInt32.not_le.mpr hlt)]
  exact (legalRun_usb (runs_sendAll_true_iff.mpr rfl) (legal_flatMap_exchange _)).bind
    (legalRun_store.bind legalRun_pure)

end Acknowledged

end Ezfadvance
