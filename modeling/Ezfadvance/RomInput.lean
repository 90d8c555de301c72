import Ezfadvance.LoadedImage

/-!
# RomInput

What the writer takes from its command line and from a ROM file before it builds an image
(`writer_options.cpp`, `rom_input_loader.cpp`, `rom_analyzer.cpp`): the name of the ROM in the catalog
and the target of its first branch.

* `validMenuTitle`, `deriveCatalogName`: the two sources of a name, together `CatalogName`.
* `catalogName_plausible_iff`: the catalog reader accepts the entry unless the name is blank.
* `entry_restored`: the first word comes back from the recorded target, if that is at least 8.
-/

namespace Ezfadvance

open Segments CartridgeFormat

/-! ## Names -/

def WriterOptions.validMenuTitle (title : Bytes) : Bool :=
  if title.isEmpty ∨ title.length > 16 then false
  else title.all fun character => !decide (character < 0x20 ∨ character > 0x7E)

namespace RomInputLoader

/-- The last position that holds one of these characters. -/
def findLastOf (text characters : Bytes) : Option Nat :=
  (List.range text.length).reverse.find? fun i => characters.contains (text.getD i 0)

/-- The loop of `deriveCatalogName`. -/
def nameOfStem : Bytes → Bytes → Bytes
  | [], name => name
  | character :: stem, name =>
    if name.length ≥ 16 then name
    else if 0x20 ≤ character ∧ character ≤ 0x7E then nameOfStem stem (name ++ [character])
    else nameOfStem stem (name ++ ascii "_")

def deriveCatalogName (path : Bytes) : Bytes :=
  let stem := match findLastOf path (ascii "/\\") with
    | none => path
    | some slash => path.drop (slash + 1)
  let stem := match findLastOf stem (ascii ".") with
    | none => stem
    | some dot => if dot ≠ 0 then stem.take dot else stem
  let name := nameOfStem stem []
  if name.isEmpty then ascii "ROM" else name

end RomInputLoader

open WriterOptions RomInputLoader

/-- The names that a ROM can have in the catalog. -/
inductive CatalogName : Bytes → Prop where
  | title {title : Bytes} (h : validMenuTitle title = true) : CatalogName title
  | derived (path : Bytes) : CatalogName (deriveCatalogName path)

theorem nameOfStem_printable {stem name : Bytes} (h : Printable name) (hlen : name.length ≤ 16) :
    Printable (nameOfStem stem name) ∧ (nameOfStem stem name).length ≤ 16 := by
  induction stem generalizing name with
  | nil => exact ⟨h, hlen⟩
  | cons character stem ih =>
    have hmore : ∀ {c : UInt8}, 0x20 ≤ c ∧ c ≤ 0x7E → Printable (name ++ [c]) := by
      intro c hc
      exact List.forall_mem_append.mpr ⟨h, List.forall_mem_singleton.mpr hc⟩
    rw [nameOfStem]
    split
    · exact ⟨h, hlen⟩
    case isFalse hroom =>
      have hnext : ∀ c : UInt8, (name ++ [c]).length ≤ 16 := by
        intro c
        rw [List.length_append, List.length_singleton]
        omega
      split
      case isTrue hc => exact ih (hmore hc) (hnext _)
      case isFalse => exact ih (hmore (by decide)) (hnext _)

theorem validMenuTitle_iff {title : Bytes} :
    validMenuTitle title = true ↔ 1 ≤ title.length ∧ title.length ≤ 16 ∧ Printable title := by
  rw [validMenuTitle]
  split
  case isTrue hbad =>
    refine iff_of_false (by decide) ?_
    rintro ⟨hpos, hlen, _⟩
    obtain hempty | hlong := hbad
    · rw [List.isEmpty_iff.mp hempty] at hpos
      exact absurd hpos (by decide)
    · exact absurd hlen (Nat.not_le.mpr hlong)
  case isFalse hgood =>
    obtain ⟨hne, hlen⟩ := not_or.mp hgood
    have hpos : 1 ≤ title.length := List.length_pos_iff.mpr fun h => hne (List.isEmpty_iff.mpr h)
    have hrange : ∀ c : UInt8, (!decide (c < 0x20 ∨ c > 0x7E)) = true ↔ 0x20 ≤ c ∧ c ≤ 0x7E := by
      intro c
      rw [Bool.not_eq_true', decide_eq_false_iff_not, not_or, gt_iff_lt, UInt8.not_lt, UInt8.not_lt]
    rw [List.all_eq_true]
    simp only [hrange, hpos, Nat.not_lt.mp hlen, true_and]
    rfl

theorem CatalogName.printable {name : Bytes} (h : CatalogName name) :
    Printable name ∧ name.length ≤ 16 := by
  cases h with
  | title h =>
    obtain ⟨_, hlen, hprintable⟩ := validMenuTitle_iff.mp h
    exact ⟨hprintable, hlen⟩
  | derived path =>
    have hname : ∀ name : Bytes, Printable name ∧ name.length ≤ 16 →
        Printable (if name.isEmpty then ascii "ROM" else name) ∧
          (if name.isEmpty then ascii "ROM" else name).length ≤ 16 := by
      intro name h
      split
      · exact ⟨by simp [Printable, ascii], by decide⟩
      · exact h
    exact hname _ (nameOfStem_printable (fun c hc => by cases hc) (by decide))

/-- The entry of an accepted name is plausible in its place, and stays below the start that was
recorded, unless the name is blank. -/
theorem catalogName_plausible_iff {r : RomInfo} {t loader : Bytes} {off : Nat} {first : Bool}
    (hname : CatalogName r.name) (hwrite : writeCatalogEntry t off r first = .ok loader) :
    ∃ entry, CatalogEntry.parse loader off first = .ok entry ∧
      entry.start.toNat ≤ r.start.toNat ∧
      (0x10000 ∣ r.start.toNat → 0x10000 ∣ entry.start.toNat) ∧
      ∀ limit : UInt32, entry.start < limit → (first = false → 0x10000 ∣ entry.start.toNat) →
        (entry.isPlausible limit first = true ↔ ∃ c ∈ r.name, c ≠ 0x20) := by
  obtain ⟨hprintable, hlen⟩ := hname.printable
  have hroom : off + 28 ≤ t.length := by
    by_contra hno
    rw [writeCatalogEntry, if_pos (by omega)] at hwrite
    cases hwrite
  rw [writeCatalogEntry_eq hroom, Except.ok.injEq] at hwrite
  have hblit : off + (catalogEntryBytes r first).length ≤ t.length := by
    rw [length_catalogEntryBytes]
    exact hroom
  have hparse := @parse_recorded loader off r first (by rw [← hwrite, length_blit hblit]; exact hroom)
    (by rw [← hwrite, slice_blit_self hblit length_catalogEntryBytes])
  refine ⟨_, hparse, ?_, ?_, fun limit hlimit haligned => ?_⟩
  · dsimp only
    split
    · exact Nat.zero_le _
    · rw [toNat_packedStart_unpack]
      omega
  · dsimp only
    split
    · exact fun _ => Nat.dvd_zero _
    · rw [toNat_packedStart_unpack]
      omega
  · have hplace : first = true ∨ 0x10000 ∣ (if first = true then 0 else
        (packedStartOf r >>> 8) * 2 : UInt32).toNat := by
      cases first with
      | true => exact .inl rfl
      | false => exact .inr (haligned rfl)
    rw [CatalogEntry.isPlausible_iff]
    simp only [hlimit, hplace, and_true, recordedEntry]
    rw [List.take_of_length_le hlen, cleanAscii_padded hprintable, trimRight_ne_nil_iff]

/-- A ROM with a one-letter name, in the second slot of a catalog. -/
def namedRom (name : Bytes) : RomInfo where
  name := name
  data := []
  start := 0x00010000

theorem catalogName_plausible_iff_letter :
    ∃ loader entry, writeCatalogEntry (List.replicate 56 0x00) 28 (namedRom (ascii "A")) false =
        .ok loader ∧
      CatalogEntry.parse loader 28 false = .ok entry ∧
      (entry.isPlausible 0x02000000 false = true ↔ ∃ c ∈ ascii "A", c ≠ 0x20) := by
  have hwrite := @writeCatalogEntry_eq (List.replicate 56 0x00) 28 (namedRom (ascii "A")) false
    (by decide)
  obtain ⟨entry, hparse, hle, hdvd, hplausible⟩ :=
    catalogName_plausible_iff (.title (by decide)) hwrite
  refine ⟨_, entry, hwrite, hparse, hplausible 0x02000000 ?_ fun _ => hdvd (by decide)⟩
  exact UInt32.lt_iff_toNat_lt.mpr (Nat.lt_of_le_of_lt hle (by decide))

/-- Four spaces are a valid menu title and the name of a file, and hide the catalog. -/
theorem blank_name_not_plausible :
    validMenuTitle (ascii "    ") = true ∧ deriveCatalogName (ascii "roms/    .gba") = ascii "    " ∧
      ∃ loader entry, writeCatalogEntry (List.replicate 56 0x00) 28 (namedRom (ascii "    ")) false =
          .ok loader ∧
        CatalogEntry.parse loader 28 false = .ok entry ∧ entry.start = 0x00010000 ∧
        entry.isPlausible 0x02000000 false = false := by
  have hwrite := @writeCatalogEntry_eq (List.replicate 56 0x00) 28 (namedRom (ascii "    ")) false
    (by decide)
  exact ⟨by decide, by decide, _, _, hwrite, rfl, by decide, by decide⟩

/-! ## The entry branch -/

/-- The target of the first branch, without which a ROM is not accepted. -/
def RomAnalyzer.originalEntryTarget (rom : Bytes) : Option UInt32 :=
  if rom.length ≥ 4 then armBranchTarget (readLe32 rom 0) else none

/-- With the target of a ROM's first branch recorded, restoring gives that branch back and leaves the
other bytes alone, if the target is at least 8; otherwise it fails. And a branch that can be built
leads where it was built for. -/
theorem entry_restored {original rom : Bytes} {entry : CatalogEntry}
    (htarget : RomAnalyzer.originalEntryTarget original = some entry.targetOrStart)
    (hrom : 4 ≤ rom.length) :
    (8 ≤ entry.targetOrStart.toNat → ∃ restored, restoreEz3Entry rom entry true = (restored, true) ∧
      restored.take 4 = original.take 4 ∧ restored.drop 4 = rom.drop 4) ∧
    (entry.targetOrStart.toNat < 8 → restoreEz3Entry rom entry true = (rom, false)) ∧
    ∀ target w, makeArmBranch target = .ok w → armBranchTarget w = some target := by
  rw [RomAnalyzer.originalEntryTarget] at htarget
  split at htarget
  case isFalse => cases htarget
  case isTrue hlen =>
    have hwords : le32 (readLe32 original 0) = original.take 4 := by
      match original, hlen with
      | b0 :: b1 :: b2 :: b3 :: rest, _ => exact le32_readLe32 b0 b1 b2 b3 rest
    refine ⟨fun h8 => ?_, fun h8 => ?_, fun _ _ => armBranchTarget_of_make⟩
    · have hmake := makeArmBranch_of_target htarget h8
      have hfour : (original.take 4).length = 4 := by rw [List.length_take]; omega
      have hblit : blit rom 0 (original.take 4) = original.take 4 ++ rom.drop 4 := by
        rw [blit, hfour]
        rfl
      refine ⟨blit rom 0 (original.take 4), ?_, ?_, ?_⟩
      · rw [restoreEz3Entry, hmake, ← hwords]
        simp only [Bool.not_true, if_neg (Nat.not_lt.mpr hrom)]
        rfl
      · rw [hblit]
        exact List.take_left' hfour
      · rw [hblit]
        exact List.drop_left' hfour
    · rw [restoreEz3Entry]
      simp only [Bool.not_true, if_neg (Nat.not_lt.mpr hrom)]
      cases hmake : makeArmBranch entry.targetOrStart with
      | ok w =>
        have := makeArmBranch_eq_ok.mp hmake
        omega
      | error e => rfl

/-- The entry of ROM 1 in a catalog, with this target. -/
def entryTo (target : UInt32) : CatalogEntry where
  name := ascii "A"
  type := 9
  mapping := 3
  packedStart := 3
  start := 0
  targetOrStart := target

theorem entry_restored_header :
    ∃ restored, restoreEz3Entry [0xFF, 0xFF, 0xFF, 0xFF, 0x55] (entryTo 0xC0) true =
        (restored, true) ∧
      restored.take 4 = le32 0xEA00002E ∧ restored.drop 4 = [0x55] :=
  (@entry_restored (le32 0xEA00002E) [0xFF, 0xFF, 0xFF, 0xFF, 0x55] (entryTo 0xC0) (by decide)
    (by decide)).1 (by decide)

/-- A ROM whose first word branches to itself is accepted, and not restored. -/
theorem self_branch_not_restored :
    RomAnalyzer.originalEntryTarget (le32 0xEAFFFFFE) = some 0 ∧
      restoreEz3Entry [0xFF, 0xFF, 0xFF, 0xFF] (entryTo 0) true =
        ([0xFF, 0xFF, 0xFF, 0xFF], false) := by
  decide

end Ezfadvance
