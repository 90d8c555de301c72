import Ezfadvance.Lib.Rounding

/-!
# Lib.FirstFit

First fit by scanning runs: walk over the cells from `i` up to `limit`, stop at each maximal run
of blank cells, round its start up to the alignment and take the run when the request still fits
behind that.

* `scanWhile`      — the inner loop: the first cell at or after `i` where the test fails.
* `firstFit`       — the outer loop, with the rounding of the run start as a parameter.
* `Slot`           — what a usable place is, without any scan: aligned, and blank from `pad` cells
  before it to its end.
* `firstFit_spec`  — the scan returns the least slot, and nothing exactly when there is none.
* `firstFitM`      — the same scan where looking at a cell can fail; `firstFitM_eq`: it fails at no
  cell below the limit that can be looked at.
-/

namespace FirstFit

def scanWhile (p : Nat → Bool) (limit i : Nat) : Nat :=
  if i < limit ∧ p i = true then scanWhile p limit (i + 1) else i
  termination_by limit - i

theorem le_scanWhile {p : Nat → Bool} {limit i : Nat} : i ≤ scanWhile p limit i := by
  fun_induction scanWhile p limit i with
  | case1 i _ ih => omega
  | case2 i _ => omega

theorem scanWhile_le {p : Nat → Bool} {limit i : Nat} (h : i ≤ limit) :
    scanWhile p limit i ≤ limit := by
  fun_induction scanWhile p limit i with
  | case1 i hi ih => exact ih (by omega)
  | case2 i _ => exact h

theorem scanWhile_of_lt {p : Nat → Bool} {limit i j : Nat} (hi : i ≤ j)
    (hj : j < scanWhile p limit i) : p j = true := by
  fun_induction scanWhile p limit i with
  | case1 i h ih =>
    by_cases hij : j = i
    · rw [hij]; exact h.2
    · exact ih (by omega) hj
  | case2 i _ => omega

theorem scanWhile_stop {p : Nat → Bool} {limit i : Nat} (h : scanWhile p limit i < limit) :
    p (scanWhile p limit i) = false := by
  fun_induction scanWhile p limit i with
  | case1 i _ ih => exact ih h
  | case2 i hi =>
    cases hp : p i with
    | false => rfl
    | true => exact absurd ⟨h, hp⟩ hi

/-- The scan moves past a cell that passes the test. -/
theorem lt_scanWhile {p : Nat → Bool} {limit i : Nat} (hi : i < limit) (hp : p i = true) :
    i < scanWhile p limit i := by
  rw [scanWhile, if_pos ⟨hi, hp⟩]
  exact le_scanWhile

/-- End of the first run of blank cells at or after `i`. -/
theorem runEnd_gt {blank : Nat → Bool} {limit i : Nat} (hi : i < limit) :
    i < scanWhile blank limit (scanWhile (fun j => !blank j) limit i) := by
  cases hb : blank i with
  | false =>
    have h1 : i < scanWhile (fun j => !blank j) limit i := lt_scanWhile hi (by simp [hb])
    exact Nat.lt_of_lt_of_le h1 le_scanWhile
  | true =>
    have h1 : scanWhile (fun j => !blank j) limit i = i := by
      rw [scanWhile, if_neg (by simp [hb])]
    rw [h1]
    exact lt_scanWhile hi hb

def firstFit (blank : Nat → Bool) (align : Nat → Nat) (limit size i : Nat) : Option Nat :=
  if _h : i < limit then
    let runStart := scanWhile (fun j => !blank j) limit i
    let runEnd := scanWhile blank limit runStart
    if runEnd ≤ runStart then firstFit blank align limit size runEnd
    else
      let aligned := align runStart
      if aligned ≤ runEnd ∧ size ≤ runEnd - aligned then some aligned
      else firstFit blank align limit size runEnd
  else none
  termination_by limit - i
  decreasing_by
    all_goals
      have := @runEnd_gt blank limit i _h
      omega

/-- A place for `size` cells at or after `lo`: aligned to `m`, blank, and with `pad` blank cells
before it. -/
structure Slot (blank : Nat → Bool) (m pad limit size lo a : Nat) : Prop where
  aligned : m ∣ a
  above : lo + pad ≤ a
  fits : a + size ≤ limit
  blank : ∀ j, a ≤ j + pad → j < a + size → blank j = true

/-- `a` is the least slot. -/
def LeastSlot (blank : Nat → Bool) (m pad limit size lo a : Nat) : Prop :=
  Slot blank m pad limit size lo a ∧ ∀ b, Slot blank m pad limit size lo b → a ≤ b

section Spec

variable {blank : Nat → Bool} {align : Nat → Nat} {m pad limit size : Nat}

theorem LeastSlot.unique {lo a b : Nat} (ha : LeastSlot blank m pad limit size lo a)
    (hb : LeastSlot blank m pad limit size lo b) : a = b :=
  Nat.le_antisymm (ha.2 b hb.1) (hb.2 a ha.1)

/-- A slot lies in one run: it starts no earlier than the run does, and either it is inside the
first run or it is a slot of the cells behind that run. -/
theorem Slot.cases_run {i a : Nat} (h : Slot blank m pad limit size i a) (hsize : 0 < size) :
    let runStart := scanWhile (fun j => !blank j) limit i
    let runEnd := scanWhile blank limit runStart
    (runStart + pad ≤ a ∧ a + size ≤ runEnd) ∨ Slot blank m pad limit size runEnd a := by
  intro runStart runEnd
  obtain ⟨hm, hlo, hfit, hblank⟩ := h
  have hstart : runStart + pad ≤ a := by
    by_cases hlt : runStart + pad ≤ a
    · exact hlt
    · have h1 := @scanWhile_of_lt (fun j => !blank j) limit i (a - pad)
        (by omega) (by show a - pad < runStart; omega)
      rw [hblank (a - pad) (by omega) (by omega)] at h1
      cases h1
  by_cases hend : a < runEnd + pad
  · left
    refine ⟨hstart, ?_⟩
    by_cases hle : a + size ≤ runEnd
    · exact hle
    · have h2 : blank runEnd = false := scanWhile_stop (by show runEnd < limit; omega)
      rw [hblank runEnd (by omega) (by omega)] at h2
      cases h2
  · right
    exact ⟨hm, by omega, hfit, hblank⟩

/-- The scan returns the least slot at or after `i`. -/
theorem firstFit_spec {i : Nat} (hm : 0 < m) (hsize : 0 < size)
    (halign : ∀ x, x < limit → align x = Rounding.up (x + pad) m) :
    (∀ a, firstFit blank align limit size i = some a → LeastSlot blank m pad limit size i a) ∧
      (firstFit blank align limit size i = none → ∀ a, ¬ Slot blank m pad limit size i a) := by
  -- a slot behind the first run is a slot, and the least one unless the first run holds one
  have hnext : ∀ {i e a : Nat}, i ≤ e → Slot blank m pad limit size e a →
      Slot blank m pad limit size i a := by
    intro i e a hie h
    exact ⟨h.aligned, by have := h.above; omega, h.fits, h.blank⟩
  fun_induction firstFit blank align limit size i with
  | case1 i hi runStart runEnd hempty ih =>
    have hgt : i < runEnd := runEnd_gt hi
    refine ⟨fun a ha => ?_, fun hnone a ha => ?_⟩
    · obtain ⟨hslot, hleast⟩ := ih.1 a ha
      refine ⟨hnext (by omega) hslot, fun b hb => ?_⟩
      rcases hb.cases_run hsize with ⟨h1, h2⟩ | hb'
      · have h2 : b + size ≤ runEnd := h2
        omega
      · exact hleast b hb'
    · rcases ha.cases_run hsize with ⟨h1, h2⟩ | ha'
      · have h2 : a + size ≤ runEnd := h2
        omega
      · exact ih.2 hnone a ha'
  | case2 i hi runStart runEnd hrun aligned hfit =>
    have hend : runEnd ≤ limit := scanWhile_le (scanWhile_le (by omega))
    have hstart : i ≤ runStart := le_scanWhile
    have haligned : aligned = Rounding.up (runStart + pad) m := halign _ (by omega)
    have hge : runStart + pad ≤ aligned := haligned ▸ Rounding.le_up hm
    refine ⟨fun a ha => ?_, fun hnone => by cases hnone⟩
    cases ha
    refine ⟨⟨haligned ▸ Rounding.dvd_up _ _, by omega, by omega, ?_⟩, fun b hb => ?_⟩
    · intro j hj1 hj2
      exact scanWhile_of_lt (by show runStart ≤ j; omega) (by show j < runEnd; omega)
    · rcases hb.cases_run hsize with ⟨h1, _⟩ | hb'
      · rw [haligned]
        exact Rounding.up_le hm h1 hb.aligned
      · have := hb'.above
        have : runEnd + pad ≤ b := this
        omega
  | case3 i hi runStart runEnd hrun aligned hfit ih =>
    have hgt : i < runEnd := runEnd_gt hi
    have hend : runEnd ≤ limit := scanWhile_le (scanWhile_le (by omega))
    have haligned : aligned = Rounding.up (runStart + pad) m := halign _ (by omega)
    have hnot : ∀ b, Slot blank m pad limit size i b → Slot blank m pad limit size runEnd b := by
      intro b hb
      rcases hb.cases_run hsize with ⟨h1, h2⟩ | hb'
      · have hle : aligned ≤ b := haligned ▸ Rounding.up_le hm h1 hb.aligned
        have h3 : b + size ≤ runEnd := h2
        exact absurd ⟨by omega, by omega⟩ hfit
      · exact hb'
    refine ⟨fun a ha => ?_, fun hnone a ha => ih.2 hnone a (hnot a ha)⟩
    obtain ⟨hslot, hleast⟩ := ih.1 a ha
    exact ⟨hnext (by omega) hslot, fun b hb => hleast b (hnot b hb)⟩
  | case4 i hi =>
    refine ⟨fun a ha => (nomatch ha), fun _ a ha => ?_⟩
    have := ha.above
    have := ha.fits
    omega

theorem firstFit_some {i a : Nat} (hm : 0 < m) (hsize : 0 < size)
    (halign : ∀ x, x < limit → align x = Rounding.up (x + pad) m)
    (h : firstFit blank align limit size i = some a) : LeastSlot blank m pad limit size i a :=
  (firstFit_spec hm hsize halign).1 a h

theorem firstFit_none {i : Nat} (hm : 0 < m) (hsize : 0 < size)
    (halign : ∀ x, x < limit → align x = Rounding.up (x + pad) m)
    (h : firstFit blank align limit size i = none) (a : Nat) :
    ¬ Slot blank m pad limit size i a :=
  (firstFit_spec hm hsize halign).2 h a

end Spec

/-! ## Cells that can fail -/

section Fallible

variable {ε : Type}

def scanWhileM (p : Nat → Except ε Bool) (limit i : Nat) : Except ε Nat :=
  if i < limit then
    match p i with
    | .error e => .error e
    | .ok true => scanWhileM p limit (i + 1)
    | .ok false => .ok i
  else .ok i
  termination_by limit - i

theorem le_scanWhileM {p : Nat → Except ε Bool} {limit i j : Nat}
    (h : scanWhileM p limit i = .ok j) : i ≤ j := by
  induction i using scanWhileM.induct p limit with
  | case1 i hi e hp =>
    rw [scanWhileM, if_pos hi, hp] at h
    cases h
  | case2 i hi hp ih =>
    rw [scanWhileM, if_pos hi, hp] at h
    exact Nat.le_of_succ_le (ih h)
  | case3 i hi hp =>
    rw [scanWhileM, if_pos hi, hp] at h
    exact Nat.le_of_eq (Except.ok.inj h)
  | case4 i hi =>
    rw [scanWhileM, if_neg hi] at h
    exact Nat.le_of_eq (Except.ok.inj h)

/-- A scan for the end of the first run moves on, whatever the cells are. -/
theorem runEndM_gt {blank : Nat → Except ε Bool} {limit i runStart runEnd : Nat} (hi : i < limit)
    (hstart : scanWhileM (fun j => (blank j).map (!·)) limit i = .ok runStart)
    (hend : scanWhileM blank limit runStart = .ok runEnd) : i < runEnd := by
  rw [scanWhileM, if_pos hi] at hstart
  cases hb : blank i with
  | error e =>
    rw [hb] at hstart
    cases hstart
  | ok b =>
    cases b with
    | false =>
      rw [hb] at hstart
      have := le_scanWhileM hstart
      have := le_scanWhileM hend
      omega
    | true =>
      rw [hb] at hstart
      cases hstart
      rw [scanWhileM, if_pos hi, hb] at hend
      exact le_scanWhileM hend

def firstFitM (blank : Nat → Except ε Bool) (align : Nat → Nat) (limit size i : Nat) :
    Except ε (Option Nat) :=
  if _hi : i < limit then
    match _hstart : scanWhileM (fun j => (blank j).map (!·)) limit i with
    | .error e => .error e
    | .ok runStart =>
      match _hend : scanWhileM blank limit runStart with
      | .error e => .error e
      | .ok runEnd =>
        if runEnd ≤ runStart then firstFitM blank align limit size runEnd
        else
          let aligned := align runStart
          if aligned ≤ runEnd ∧ size ≤ runEnd - aligned then .ok (some aligned)
          else firstFitM blank align limit size runEnd
  else .ok none
  termination_by limit - i
  decreasing_by
    all_goals
      have := runEndM_gt _hi _hstart _hend
      omega

theorem scanWhileM_eq {p : Nat → Except ε Bool} {q : Nat → Bool} {limit i : Nat}
    (h : ∀ j, j < limit → p j = .ok (q j)) : scanWhileM p limit i = .ok (scanWhile q limit i) := by
  fun_induction scanWhile q limit i with
  | case1 i hi ih => rw [scanWhileM, if_pos hi.1, h i hi.1, hi.2, ih]
  | case2 i hi =>
    rw [scanWhileM]
    by_cases hlt : i < limit
    · rw [if_pos hlt, h i hlt]
      cases hq : q i with
      | true => exact absurd ⟨hlt, hq⟩ hi
      | false => rfl
    · rw [if_neg hlt]

/-- One turn of the scan. -/
theorem firstFitM_run {blank : Nat → Except ε Bool} {align : Nat → Nat}
    {limit size i runStart runEnd : Nat} (hi : i < limit)
    (hstart : scanWhileM (fun j => (blank j).map (!·)) limit i = .ok runStart)
    (hend : scanWhileM blank limit runStart = .ok runEnd) :
    firstFitM blank align limit size i =
      if runEnd ≤ runStart then firstFitM blank align limit size runEnd
      else if align runStart ≤ runEnd ∧ size ≤ runEnd - align runStart then
        .ok (some (align runStart))
      else firstFitM blank align limit size runEnd := by
  rw [firstFitM, dif_pos hi]
  split
  case h_1 e hfail =>
    rw [hstart] at hfail
    cases hfail
  case h_2 s hs =>
    obtain rfl : runStart = s := Except.ok.inj (hstart.symm.trans hs)
    split
    case h_1 e hfail =>
      rw [hend] at hfail
      cases hfail
    case h_2 e he =>
      obtain rfl : runEnd = e := Except.ok.inj (hend.symm.trans he)
      rfl

/-- The scan looks at no cell at or behind `limit`. -/
theorem firstFitM_eq {blank : Nat → Except ε Bool} {cell : Nat → Bool} {align : Nat → Nat}
    {limit size i : Nat} (h : ∀ j, j < limit → blank j = .ok (cell j)) :
    firstFitM blank align limit size i = .ok (firstFit cell align limit size i) := by
  have hnot : ∀ j, j < limit → (blank j).map (!·) = .ok (!cell j) := by
    intro j hj
    rw [h j hj]
    rfl
  fun_induction firstFit cell align limit size i with
  | case1 i hi runStart runEnd hempty ih =>
    rw [firstFitM_run hi (scanWhileM_eq hnot) (scanWhileM_eq h), if_pos hempty, ih]
  | case2 i hi runStart runEnd hrun aligned hfit =>
    rw [firstFitM_run hi (scanWhileM_eq hnot) (scanWhileM_eq h), if_neg hrun, if_pos hfit]
  | case3 i hi runStart runEnd hrun aligned hfit ih =>
    rw [firstFitM_run hi (scanWhileM_eq hnot) (scanWhileM_eq h), if_neg hrun, if_neg hfit, ih]
  | case4 i hi => rw [firstFitM, dif_neg hi]

end Fallible

end FirstFit
