import Mathlib.Data.List.Infix

/-!
# Lib.Occurrence

Where a pattern occurs in a list, and what a search of a part of the list can tell about all of it.

* `OccursAt p s i`: the pattern `p` begins at offset `i` of `s`.
* `infix_window`: once `p` is known not to occur in a prefix, only its last `p.length - 1` places
  have to be searched again with what follows.
* `infix_take_iff`: which prefixes of `s` contain the pattern.
* `findFrom p s i`: the first occurrence at or behind `i`.
-/

namespace Occurrence

def OccursAt {α : Type} (p s : List α) (i : Nat) : Prop := p <+: s.drop i

instance {α : Type} [DecidableEq α] (p s : List α) (i : Nat) : Decidable (OccursAt p s i) :=
  inferInstanceAs (Decidable (p <+: s.drop i))

variable {α : Type} {p q s t : List α} {i n w : Nat}

theorem infix_iff_occursAt : p <:+: s ↔ ∃ i, OccursAt p s i := by
  constructor
  · rintro ⟨u, v, rfl⟩
    refine ⟨u.length, v, ?_⟩
    rw [List.append_assoc, List.drop_left]
  · rintro ⟨i, h⟩
    exact h.isInfix.trans (List.drop_suffix i s).isInfix

theorem OccursAt.le_length (h : OccursAt p s i) (hp : p ≠ []) : i + p.length ≤ s.length := by
  have hle := h.length_le
  have hpos := List.length_pos_iff.mpr hp
  rw [List.length_drop] at hle
  omega

/-- A pattern begins wherever a longer one does. -/
theorem OccursAt.of_longer (h : OccursAt q s i) (hpq : p <+: q) : OccursAt p s i := hpq.trans h

theorem occursAt_take_iff (hp : p ≠ []) :
    OccursAt p (s.take n) i ↔ OccursAt p s i ∧ i + p.length ≤ n := by
  have hpos := List.length_pos_iff.mpr hp
  rw [OccursAt, OccursAt, List.drop_take, List.prefix_take_iff]
  refine and_congr_right fun _ => ?_
  omega

theorem occursAt_drop_iff : OccursAt p (s.drop n) i ↔ OccursAt p s (n + i) := by
  rw [OccursAt, OccursAt, List.drop_drop]

theorem infix_take_iff (hp : p ≠ []) :
    p <:+: s.take n ↔ ∃ i, OccursAt p s i ∧ i + p.length ≤ n := by
  rw [infix_iff_occursAt]
  exact exists_congr fun i => occursAt_take_iff hp

theorem infix_window (hp : p ≠ []) (hw : p.length ≤ w + 1) (hnot : ¬ p <:+: s.take n) :
    p <:+: s.drop (n - w) ↔ p <:+: s := by
  refine ⟨fun h => h.trans (List.drop_suffix _ s).isInfix, fun h => ?_⟩
  obtain ⟨i, hi⟩ := infix_iff_occursAt.mp h
  by_cases hlate : n - w ≤ i
  · refine infix_iff_occursAt.mpr ⟨i - (n - w), occursAt_drop_iff.mpr ?_⟩
    rwa [Nat.add_sub_cancel' hlate]
  · exact absurd ((infix_take_iff hp).mpr ⟨i, hi, by omega⟩) hnot

/-- Behind a filler that the pattern does not begin with, nothing new occurs. -/
theorem occursAt_behind_iff {a : α} (hp : p ≠ []) (hhead : p.head? ≠ some a) :
    OccursAt p (List.replicate n a ++ t) i ↔ n ≤ i ∧ OccursAt p t (i - n) := by
  have hlen : (List.replicate n a).length = n := List.length_replicate
  by_cases hi : n ≤ i
  · rw [OccursAt, List.drop_append, List.drop_eq_nil_of_le (by omega), hlen, List.nil_append]
    exact (and_iff_right hi).symm
  · refine iff_of_false (fun h => ?_) fun h => hi h.1
    obtain ⟨b, q, rfl⟩ := List.exists_cons_of_ne_nil hp
    obtain ⟨rest, hrest⟩ := h
    rw [List.drop_append_of_le_length (by omega), List.drop_replicate,
      show n - i = n - i - 1 + 1 by omega, List.replicate_succ] at hrest
    exact hhead (congrArg some (List.cons.inj hrest).1)

/-! ## The first occurrence -/

def findFrom {α : Type} [DecidableEq α] (p s : List α) (i : Nat) : Option Nat :=
  if i + p.length ≤ s.length then
    if OccursAt p s i then some i else findFrom p s (i + 1)
  else none
termination_by s.length + 1 - i
decreasing_by omega

section Find

variable [DecidableEq α] {j : Nat}

theorem findFrom_eq_some (h : findFrom p s i = some j) :
    i ≤ j ∧ j + p.length ≤ s.length ∧ OccursAt p s j ∧
      ∀ k, i ≤ k → k < j → ¬ OccursAt p s k := by
  induction i using findFrom.induct p s with
  | case1 i hle hi =>
    rw [findFrom, if_pos hle, if_pos hi] at h
    cases h
    exact ⟨Nat.le_refl _, hle, hi, fun k hik hki => absurd hki (Nat.not_lt.mpr hik)⟩
  | case2 i hle hi ih =>
    rw [findFrom, if_pos hle, if_neg hi] at h
    obtain ⟨hij, hend, hj, hfirst⟩ := ih h
    refine ⟨Nat.le_of_succ_le hij, hend, hj, fun k hik hkj => ?_⟩
    obtain rfl | hlt := Nat.eq_or_lt_of_le hik
    · exact hi
    · exact hfirst k hlt hkj
  | case3 i hgt =>
    rw [findFrom, if_neg hgt] at h
    cases h

theorem findFrom_eq_none (hp : p ≠ []) (h : findFrom p s i = none) :
    ∀ k, i ≤ k → ¬ OccursAt p s k := by
  induction i using findFrom.induct p s with
  | case1 i hle hi =>
    rw [findFrom, if_pos hle, if_pos hi] at h
    cases h
  | case2 i hle hi ih =>
    rw [findFrom, if_pos hle, if_neg hi] at h
    intro k hik
    obtain rfl | hlt := Nat.eq_or_lt_of_le hik
    · exact hi
    · exact ih h k hlt
  | case3 i hgt =>
    intro k hik hk
    have := hk.le_length hp
    omega

end Find

end Occurrence
