import Mathlib.Data.Nat.Find
import Ezfadvance.FlashCard
import Ezfadvance.Lib.Occurrence
import Ezfadvance.SaveCatalogAnalyzer

/-!
# SaveMarkerScan

What `SaveCatalogAnalyzer::detectSaveMarker` finds in a ROM that it reads in 64-KiB chunks.

* `contents`, `reading`: a ROM as a function of the address, and a cartridge that answers from it.
* `Detected`: the first chunk end behind which a pattern is complete, and the first such pattern.
* `exec_detectSaveMarker`: the scan ends with what is `Detected` in the span.
-/

namespace Ezfadvance

open Interact Interact.Program CartridgeFormat ReadOnlyCartridge Occurrence

/-- The bytes from `address` on; the address wraps as `std::uint32_t` does. -/
def contents (content : UInt32 → UInt8) (address : UInt32) (length : Nat) : Bytes :=
  (List.range length).map fun i => content (address + UInt32.ofNat i)

/-- A cartridge whose reads all succeed. The state is the last packet sent. -/
def reading (content : UInt32 → UInt8) (packet : Bytes) :
    (o : Transport.Op) → Transport.Reply o × Bytes
  | .out data => (true, data)
  | .inExact wanted =>
    let address := 2 * readLe32 packet 4
    if packet = readCommand address wanted then (some (contents content address wanted), packet)
    else (none, packet)
  | .inMax _ => (none, packet)
  | .selectBank _ => ((), packet)

section Contents

variable {content : UInt32 → UInt8} {address : UInt32} {m n : Nat}

@[simp] theorem length_contents : (contents content address n).length = n := by
  rw [contents, List.length_map, List.length_range]

theorem contents_add : contents content address (m + n) =
    contents content address m ++ contents content (address + UInt32.ofNat m) n := by
  rw [contents, List.range_add, List.map_append, List.map_map]
  refine congrArg (contents content address m ++ ·) (List.map_congr_left fun i _ => ?_)
  rw [Function.comp, UInt32.ofNat_add, UInt32.add_assoc]

theorem take_contents (h : m ≤ n) :
    (contents content address n).take m = contents content address m := by
  obtain ⟨rest, rfl⟩ := Nat.exists_eq_add_of_le h
  rw [contents_add, List.take_left' length_contents]

theorem contents_const {b : UInt8} (h : ∀ i < n, content (address + UInt32.ofNat i) = b) :
    contents content address n = List.replicate n b := by
  rw [List.eq_replicate_iff]
  refine ⟨length_contents, fun x hx => ?_⟩
  obtain ⟨i, hi, rfl⟩ := List.mem_map.mp hx
  exact h i (List.mem_range.mp hi)

theorem two_mul_half (heven : 2 ∣ address.toNat) : 2 * (address / 2) = address := by
  rw [← UInt32.toNat_inj, UInt32.toNat_mul, UInt32.toNat_div]
  have hlt := address.toNat_lt
  show 2 * (address.toNat / 2) % 2 ^ 32 = address.toNat
  omega

theorem exec_read_piece {packet : Bytes} (heven : 2 ∣ address.toNat) (hpos : 0 < n)
    (hpiece : n ≤ 0x10000) :
    exec (reading content) (read address n) packet =
      (.ok (some (contents content address n)), readCommand address n) := by
  have hanswer : reading content (readCommand address n) (.inExact n) =
      (some (contents content address n), readCommand address n) := by
    have hword : 2 * readLe32 (readCommand address n) 4 = address := by
      rw [readCommand, readLe32_command_word, two_mul_half heven]
    rw [reading, hword]
    exact if_pos rfl
  rw [ReadOnlyCartridge.read, if_neg (not_not_intro (even_of_dvd heven)),
    readFrom_piece hpos hpiece]
  exact (exec_answered rfl).trans (exec_answered hanswer)

end Contents

namespace SaveCatalogAnalyzer

/-! ## What the scan finds -/

/-- Nothing is found in the whole of `s`, or something is for the first time with chunk `k`. -/
def Detected (s marker : Bytes) : Prop :=
  (marker = [] ∧ ∀ p ∈ patterns, ¬ p <:+: s) ∨
    ∃ k p, (∀ q ∈ patterns, ¬ q <:+: s.take (k * chunkSize)) ∧
      patterns.find? (containsPattern (s.take ((k + 1) * chunkSize))) = some p ∧
      marker = markerName p

theorem patterns_bounds : ∀ p ∈ patterns, p ≠ [] ∧ p.length ≤ overlap + 1 := by decide

theorem containsPattern_iff {data p : Bytes} (hp : p ∈ patterns) :
    containsPattern data p = true ↔ p <:+: data := by
  have hne := (patterns_bounds p hp).1
  rw [containsPattern, Bool.and_eq_true, Bool.not_eq_true', List.isEmpty_eq_false_iff,
    decide_eq_true_eq]
  exact and_iff_right hne

section Scan

variable {content : UInt32 → UInt8} {start : UInt32} {span : Nat}

theorem drop_contents {position length : Nat} (h : position + length ≤ span) :
    contents content (start + UInt32.ofNat position) length =
      ((contents content start span).drop position).take length := by
  rw [List.take_drop, take_contents h, contents_add, List.drop_left' length_contents]

/-- What is kept of the bytes before `position`. -/
def carried (s : Bytes) (position : Nat) : Bytes := (s.take position).drop (position - overlap)

section Carry

variable {s : Bytes} {position length : Nat}

theorem carried_append (hle : position ≤ s.length) :
    carried s position ++ (s.drop position).take length =
      (s.take (position + length)).drop (position - overlap) := by
  rw [List.take_add, List.drop_append_of_le_length (by rw [List.length_take]; omega)]
  rfl

theorem carried_next (hle : position + length ≤ s.length) :
    ((s.take (position + length)).drop (position - overlap)).drop
        (((s.take (position + length)).drop (position - overlap)).length -
          min overlap ((s.take (position + length)).drop (position - overlap)).length) =
      carried s (position + length) := by
  rw [List.drop_drop, List.length_drop, List.length_take, carried]
  refine congrArg (fun n => (s.take (position + length)).drop n) ?_
  omega

/-- The carry holds all that a pattern could need of the chunks that hold none. -/
theorem find_joined (hclear : ∀ q ∈ patterns, ¬ q <:+: s.take position) :
    patterns.find? (containsPattern ((s.take (position + length)).drop (position - overlap))) =
      patterns.find? (containsPattern (s.take (position + length))) := by
  rw [← List.head?_filter, ← List.head?_filter]
  refine congrArg List.head? (List.filter_congr fun p hp => ?_)
  obtain ⟨hne, hlen⟩ := patterns_bounds p hp
  rw [Bool.eq_iff_iff, containsPattern_iff hp, containsPattern_iff hp]
  refine infix_window hne hlen ?_
  rw [List.take_take, Nat.min_eq_left (Nat.le_add_right _ _)]
  exact hclear p hp

end Carry

/-- One chunk: a pattern in the bytes read so far ends the scan, else it goes on behind them. -/
theorem exec_detectChunk {s packet : Bytes} {position length : Nat} (heven : 2 ∣ start.toNat)
    (hdvd : 2 ∣ position) (hs : s = contents content start span) (hlt : position < span)
    (hlength : length = min chunkSize (span - position))
    (hclear : ∀ q ∈ patterns, ¬ q <:+: s.take position) :
    ∃ packet', exec (reading content) (detectFrom start span position (carried s position)) packet =
      match patterns.find? (containsPattern (s.take (position + length))) with
      | some p => (.ok (markerName p), packet')
      | none => exec (reading content)
          (detectFrom start span (position + length) (carried s (position + length))) packet' := by
  have hlen : s.length = span := by rw [hs, length_contents]
  have hpos : 0 < length := by
    rw [hlength, chunkSize]
    omega
  have hpiece : length ≤ 0x10000 := hlength ▸ Nat.min_le_left _ _
  have hread := @exec_read_piece content _ _ packet (even_add heven hdvd) hpos hpiece
  rw [@drop_contents _ _ span _ _ (by omega), ← hs] at hread
  rw [detectFrom, if_pos hlt, ← hlength]
  refine ⟨readCommand (start + UInt32.ofNat position) length, (exec_bind_ok hread).trans ?_⟩
  dsimp only
  rw [carried_append (by omega), carried_next (by omega), find_joined hclear]
  cases patterns.find? (containsPattern (s.take (position + length))) with
  | some p => rfl
  | none => rfl

theorem exec_detectFrom {s : Bytes} (heven : 2 ∣ start.toNat)
    (hs : s = contents content start span) (position : Nat) (packet : Bytes)
    (hposition : position < span → ∃ k, position = k * chunkSize)
    (hclear : ∀ q ∈ patterns, ¬ q <:+: s.take position) :
    ∃ marker packet', exec (reading content)
        (detectFrom start span position (carried s position)) packet = (.ok marker, packet') ∧
      Detected s marker := by
  have hlen : s.length = span := by rw [hs, length_contents]
  induction hleft : span - position using Nat.strongRecOn generalizing position packet with
  | _ left ih =>
    by_cases hlt : position < span
    · obtain ⟨k, rfl⟩ := hposition hlt
      obtain ⟨length, hmin⟩ : ∃ n, n = min chunkSize (span - k * chunkSize) := ⟨_, rfl⟩
      have hdvd : 2 ∣ k * chunkSize := (show 2 ∣ chunkSize by decide).mul_left k
      obtain ⟨packet', hchunk⟩ :=
        exec_detectChunk heven hdvd hs hlt hmin hclear
      rw [hchunk]
      have hlength : length ≤ chunkSize ∧ 0 < length ∧ k * chunkSize + length ≤ span ∧
          (k * chunkSize + length < span → length = chunkSize) := by
        simp only [chunkSize] at hmin hlt ⊢
        omega
      obtain ⟨hpiece, hpos, hend, hfull⟩ := hlength
      have hsucc : (k + 1) * chunkSize = k * chunkSize + chunkSize := Nat.succ_mul _ _
      have hstop : s.take (k * chunkSize + length) = s.take ((k + 1) * chunkSize) := by
        by_cases hnext : k * chunkSize + length < span
        · rw [hsucc, hfull hnext]
        · rw [List.take_of_length_le (by omega), List.take_of_length_le (by omega)]
      cases hfind : patterns.find? (containsPattern (s.take (k * chunkSize + length))) with
      | some p => exact ⟨markerName p, packet', rfl, .inr ⟨k, p, hclear, hstop ▸ hfind, rfl⟩⟩
      | none =>
        refine ih _ ?_ _ packet' ?_ ?_ rfl
        · omega
        · intro hnext
          exact ⟨k + 1, by rw [hsucc, hfull hnext]⟩
        · intro q hq
          rw [← containsPattern_iff hq]
          exact List.find?_eq_none.mp hfind q hq
    · rw [detectFrom, if_neg hlt]
      rw [List.take_of_length_le (by omega)] at hclear
      exact ⟨[], packet, rfl, .inl ⟨rfl, hclear⟩⟩

theorem exec_detectSaveMarker (heven : span ≠ 0 → 2 ∣ start.toNat) (packet : Bytes) :
    ∃ marker packet', exec (reading content) (detectSaveMarker start span) packet =
        (.ok marker, packet') ∧ Detected (contents content start span) marker := by
  by_cases hspan : span = 0
  · subst hspan
    rw [detectSaveMarker, detectFrom, if_neg (Nat.lt_irrefl 0)]
    exact ⟨[], packet, rfl, .inl ⟨rfl, show ∀ p ∈ patterns, ¬ p <:+: [] by decide⟩⟩
  · refine exec_detectFrom (heven hspan) rfl 0 packet (fun _ => ⟨0, (Nat.zero_mul _).symm⟩) ?_
    rw [List.take_zero]
    decide

theorem Detected.sound {s marker : Bytes} (h : Detected s marker) :
    (marker ≠ [] ↔ ∃ p ∈ patterns, p <:+: s) ∧
      (marker ≠ [] → ∃ p ∈ patterns, p <:+: s ∧ marker = markerName p) := by
  obtain ⟨rfl, hnone⟩ | ⟨k, p, _, hfind, rfl⟩ := h
  · refine ⟨iff_of_false (fun h => h rfl) ?_, fun h => absurd rfl h⟩
    rintro ⟨p, hp, hin⟩
    exact hnone p hp hin
  · have hp := List.mem_of_find?_eq_some hfind
    have hin : p <:+: s :=
      ((containsPattern_iff hp).mp (List.find?_some hfind)).trans (List.take_prefix _ s).isInfix
    have hname : ∀ q ∈ patterns, markerName q ≠ [] := by decide
    exact ⟨iff_of_true (hname p hp) ⟨p, hp, hin⟩, fun _ => ⟨p, hp, hin, rfl⟩⟩

end Scan

/-! ## Every occurrence is found -/

/-- Where every read succeeds, the scan ends, it gives a marker if and only if a pattern occurs in
the span, and the marker names one that does. -/
theorem marker_found_iff {content : UInt32 → UInt8} {start : UInt32} {span : Nat} {packet : Bytes}
    (heven : span ≠ 0 → 2 ∣ start.toNat) :
    ∃ marker packet', exec (reading content) (detectSaveMarker start span) packet =
        (.ok marker, packet') ∧
      (marker ≠ [] ↔ ∃ p ∈ patterns, p <:+: contents content start span) ∧
      (marker ≠ [] → ∃ p ∈ patterns, p <:+: contents content start span ∧ marker = markerName p) := by
  obtain ⟨marker, packet', hrun, hdetected⟩ := @exec_detectSaveMarker content start span heven packet
  exact ⟨marker, packet', hrun, hdetected.sound⟩

def sramV111 : Bytes := ascii "SRAM_V111"

/-- `SRAM_V111` behind `n` zero bytes. -/
def paddedMarker (n : Nat) (address : UInt32) : UInt8 :=
  if address.toNat < n then 0 else sramV111.getD (address.toNat - n) 0

theorem contents_paddedMarker {n : Nat} (h : n + sramV111.length < 2 ^ 32) :
    contents (paddedMarker n) 0 (n + sramV111.length) = List.replicate n 0 ++ sramV111 := by
  have haddr : ∀ i < n + sramV111.length, (0 + UInt32.ofNat i).toNat = i := by
    intro i hi
    rw [UInt32.zero_add, UInt32.toNat_ofNat', Nat.mod_eq_of_lt (by omega)]
  rw [contents_add]
  congr 1
  · refine contents_const fun i hi => ?_
    rw [paddedMarker, haddr i (by omega), if_pos hi]
  · refine List.ext_getElem length_contents fun i hi _ => ?_
    rw [length_contents] at hi
    have := haddr (n + i) (by omega)
    simp only [contents, List.getElem_map, List.getElem_range]
    rw [UInt32.add_assoc, ← UInt32.ofNat_add, paddedMarker, this, if_neg (by omega),
      Nat.add_sub_cancel_left, List.getD_eq_getElem _ _ hi]

/-- A chunk ends behind the first four bytes of the marker. -/
theorem marker_found_iff_straddling : ∃ marker packet',
    exec (reading (paddedMarker 0xFFFC)) (detectSaveMarker 0 (0xFFFC + sramV111.length)) [] =
        (.ok marker, packet') ∧
      (∃ p ∈ patterns, p <:+: List.replicate 0xFFFC 0 ++ sramV111) ∧
      ∃ p ∈ patterns, p <:+: List.replicate 0xFFFC 0 ++ sramV111 ∧ marker = markerName p := by
  have hoccurs : ∃ p ∈ patterns, p <:+: List.replicate 0xFFFC 0 ++ sramV111 :=
    ⟨sramV111, by decide, List.infix_append_right⟩
  obtain ⟨marker, packet', hrun, hiff, hnames⟩ :=
    @marker_found_iff (paddedMarker 0xFFFC) 0 (0xFFFC + sramV111.length) [] fun _ => Nat.dvd_zero 2
  rw [contents_paddedMarker (by decide)] at hiff hnames
  exact ⟨marker, packet', hrun, hoccurs, hnames (hiff.mpr hoccurs)⟩

/-! ## The longest marker -/

def sramV : Bytes := ascii "SRAM_V"

/-- `SRAM_V111` occurs, and no listed pattern does but itself and the `SRAM_V` it begins with. -/
def SramV111Only (s : Bytes) : Prop :=
  (∃ i, OccursAt sramV111 s i) ∧
    ∀ p ∈ patterns, ∀ i, OccursAt p s i → p = sramV111 ∨ (p = sramV ∧ OccursAt sramV111 s i)

def FirstAt (p s : Bytes) (i : Nat) : Prop := OccursAt p s i ∧ ∀ j, OccursAt p s j → i ≤ j

/-- A chunk ends behind the sixth, seventh or eighth byte of a text that begins at `i`. -/
def CutBehindSramV (i : Nat) : Prop :=
  i % chunkSize + sramV.length ≤ chunkSize ∧ chunkSize < i % chunkSize + sramV111.length

instance (i : Nat) : Decidable (CutBehindSramV i) := inferInstanceAs (Decidable (_ ∧ _))

theorem cutBehindSramV_iff {i k : Nat} (hbefore : k * chunkSize < i + sramV.length)
    (hbehind : i + sramV.length ≤ (k + 1) * chunkSize) :
    CutBehindSramV i ↔ (k + 1) * chunkSize < i + sramV111.length := by
  have hlen : sramV111.length = 9 ∧ sramV.length = 6 := ⟨rfl, rfl⟩
  rw [CutBehindSramV, chunkSize] at *
  omega

theorem Detected.of_sramV111Only {s marker : Bytes} {i : Nat} (h : Detected s marker)
    (honly : SramV111Only s) (hfirst : FirstAt sramV111 s i) :
    marker = if CutBehindSramV i then sramV else sramV111 := by
  obtain ⟨hi, hmin⟩ := hfirst
  obtain ⟨_, hnone⟩ | ⟨k, p, hclear, hfind, rfl⟩ := h
  · exact absurd (infix_iff_occursAt.mpr ⟨i, hi⟩) (hnone sramV111 (by decide))
  have hbefore : k * chunkSize < i + sramV.length := Nat.lt_of_not_le fun hle =>
    hclear sramV (by decide) ((infix_take_iff (by decide)).mpr ⟨i, hi.of_longer (by decide), hle⟩)
  have hp := List.mem_of_find?_eq_some hfind
  obtain ⟨j, hj, hend⟩ := (infix_take_iff (patterns_bounds p hp).1).mp
    ((containsPattern_iff hp).mp (List.find?_some hfind))
  by_cases hwhole : i + sramV111.length ≤ (k + 1) * chunkSize
  · -- The whole text has been read, and it is the first pattern tried.
    have hin : containsPattern (s.take ((k + 1) * chunkSize)) sramV111 = true :=
      (containsPattern_iff (by decide)).mpr ((infix_take_iff (by decide)).mpr ⟨i, hi, hwhole⟩)
    have hlen : sramV.length ≤ sramV111.length := by decide
    have hcut := cutBehindSramV_iff hbefore (by omega)
    have hhead := (List.find?_cons_of_pos hin).symm.trans hfind
    cases hhead
    rw [if_neg fun h => absurd (hcut.mp h) (Nat.not_lt.mpr hwhole)]
    rfl
  · obtain rfl | ⟨rfl, hj111⟩ := honly.2 p hp j hj
    · have := hmin j hj
      omega
    · have hle := hmin j hj111
      have hcut := cutBehindSramV_iff hbefore ((Nat.add_le_add_right hle _).trans hend)
      rw [if_pos (hcut.mpr (Nat.lt_of_not_le hwhole))]
      rfl

theorem SramV111Only.first {s : Bytes} (h : SramV111Only s) : ∃ i, FirstAt sramV111 s i :=
  ⟨Nat.find h.1, Nat.find_spec h.1, fun _ hj => Nat.find_min' h.1 hj⟩

/-- Where the only listed text in the span is `SRAM_V111`, it is reported if and only if no chunk
ends behind the sixth, seventh or eighth byte of its first occurrence. -/
theorem sramV111_reported_iff {content : UInt32 → UInt8} {start : UInt32} {span : Nat}
    {packet : Bytes} (heven : span ≠ 0 → 2 ∣ start.toNat)
    (honly : SramV111Only (contents content start span)) :
    (exec (reading content) (detectSaveMarker start span) packet).1 = .ok sramV111 ↔
      ∀ i, FirstAt sramV111 (contents content start span) i → ¬ CutBehindSramV i := by
  obtain ⟨marker, packet', hrun, hdetected⟩ := @exec_detectSaveMarker content start span heven packet
  have hmarker := fun i => hdetected.of_sramV111Only honly (i := i)
  rw [hrun, Except.ok.injEq]
  constructor
  · rintro rfl i hfirst hcut
    have := hmarker i hfirst
    rw [if_pos hcut] at this
    exact absurd this (by decide)
  · intro h
    obtain ⟨i, hfirst⟩ := honly.first
    rw [hmarker i hfirst, if_neg (h i hfirst)]

theorem padded_occursAt_iff {n i : Nat} {p : Bytes} (hp : p ∈ patterns) :
    OccursAt p (List.replicate n 0 ++ sramV111) i ↔ n ≤ i ∧ OccursAt p sramV111 (i - n) := by
  have hhead : ∀ p ∈ patterns, p.head? ≠ some 0 := by decide
  exact occursAt_behind_iff (patterns_bounds p hp).1 (hhead p hp)

theorem padded_sramV111Only {n : Nat} : SramV111Only (List.replicate n 0 ++ sramV111) := by
  have hown : ∀ p ∈ patterns, ∀ j < 10, OccursAt p sramV111 j →
      p = sramV111 ∨ (p = sramV ∧ OccursAt sramV111 sramV111 j) := by decide
  refine ⟨⟨n, (padded_occursAt_iff (by decide)).mpr ⟨Nat.le_refl n, ?_⟩⟩, fun p hp i hi => ?_⟩
  · rw [Nat.sub_self]
    decide
  · obtain ⟨hle, hj⟩ := (padded_occursAt_iff hp).mp hi
    have hbound := hj.le_length (patterns_bounds p hp).1
    rw [padded_occursAt_iff (by decide)]
    obtain rfl | ⟨rfl, h111⟩ := hown p hp (i - n)
      (Nat.lt_succ_of_le ((Nat.le_add_right _ _).trans hbound)) hj
    · exact .inl rfl
    · exact .inr ⟨rfl, hle, h111⟩

theorem padded_first {n : Nat} : FirstAt sramV111 (List.replicate n 0 ++ sramV111) n := by
  refine ⟨(padded_occursAt_iff (by decide)).mpr ⟨Nat.le_refl n, ?_⟩, fun j hj => ?_⟩
  · rw [Nat.sub_self]
    decide
  · exact ((padded_occursAt_iff (by decide)).mp hj).1

theorem sramV111_reported_iff_unpadded :
    (exec (reading (paddedMarker 0)) (detectSaveMarker 0 9) []).1 = .ok sramV111 := by
  have hcontents := @contents_paddedMarker 0 (by decide)
  refine (@sramV111_reported_iff _ 0 9 _ (fun _ => Nat.dvd_zero 2) ?_).mpr fun i hi => ?_
  · exact hcontents ▸ padded_sramV111Only
  · have hle : i ≤ 0 := hi.2 0 (show OccursAt sramV111 (contents (paddedMarker 0) 0 9) 0 from
      hcontents ▸ padded_first.1)
    obtain rfl := Nat.le_zero.mp hle
    decide

/-- Behind 0xFFF8 bytes the text is cut after its eighth byte, and `SRAM_V` is reported. -/
theorem cut_marker_shortened : ¬ ∀ (content : UInt32 → UInt8) (start : UInt32) (span : Nat),
    2 ∣ start.toNat → SramV111Only (contents content start span) →
    (exec (reading content) (detectSaveMarker start span) []).1 = .ok sramV111 := by
  intro h
  have hcontents := @contents_paddedMarker 0xFFF8 (by decide)
  have hreported := h (paddedMarker 0xFFF8) 0 (0xFFF8 + sramV111.length) (Nat.dvd_zero 2)
    (hcontents ▸ padded_sramV111Only)
  obtain ⟨marker, packet, hrun, hdetected⟩ := @exec_detectSaveMarker (paddedMarker 0xFFF8) 0
    (0xFFF8 + sramV111.length) (fun _ => Nat.dvd_zero 2) []
  rw [hcontents] at hdetected
  have hmarker := hdetected.of_sramV111Only padded_sramV111Only padded_first
  rw [hrun, hmarker, if_pos (by decide)] at hreported
  exact absurd (Except.ok.inj hreported) (by decide)

end SaveCatalogAnalyzer

end Ezfadvance
