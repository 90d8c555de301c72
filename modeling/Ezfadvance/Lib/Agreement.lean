import Mathlib.Data.List.Basic

/-!
# Lib.Agreement

A scan that gathers values from many places and reports one only if all places agree.

* `Verdict.note`: what one more value makes of the verdict so far; a conflict stays one.
* `Reflects S v`: the verdict on the set `S`, whatever the order in which it was met.
* `foldlM_gathers`: a loop whose steps each add to the set leaves the union reflected.
-/

namespace Agreement

inductive Verdict (κ : Type) where
  | silent
  | agreed (k : κ)
  | conflicting

variable {κ : Type}

def Verdict.note [DecidableEq κ] : Verdict κ → κ → Verdict κ
  | .silent, k => .agreed k
  | .agreed k', k => if k' = k then .agreed k' else .conflicting
  | .conflicting, _ => .conflicting

def Reflects (S : κ → Prop) : Verdict κ → Prop
  | .silent => ∀ k, ¬ S k
  | .agreed k => ∀ k', S k' ↔ k' = k
  | .conflicting => ∃ k k', S k ∧ S k' ∧ k ≠ k'

variable {S T : κ → Prop} {v : Verdict κ} {k : κ}

theorem Reflects.note [DecidableEq κ] (h : Reflects S v) (k : κ) :
    Reflects (fun k' => S k' ∨ k' = k) (v.note k) := by
  cases v with
  | silent => exact fun k' => or_iff_right (h k')
  | agreed k₀ =>
    rw [Verdict.note]
    split
    case isTrue heq =>
      subst heq
      exact fun k' => (or_iff_left_of_imp fun hk' => (h k').mpr hk').trans (h k')
    case isFalse hne => exact ⟨k₀, k, .inl ((h k₀).mpr rfl), .inr rfl, hne⟩
  | conflicting =>
    obtain ⟨k₁, k₂, h1, h2, hne⟩ := h
    exact ⟨k₁, k₂, .inl h1, .inl h2, hne⟩

theorem Reflects.congr (h : Reflects S v) (hST : ∀ k, S k ↔ T k) : Reflects T v := by
  obtain rfl : S = T := funext fun k => propext (hST k)
  exact h

/-- One value is agreed on if and only if it is the only one. -/
theorem Reflects.agreed_iff (h : Reflects S v) : v = .agreed k ↔ ∀ k', S k' ↔ k' = k := by
  constructor
  · rintro rfl
    exact h
  · intro hk
    cases v with
    | silent => exact absurd ((hk k).mpr rfl) (h k)
    | agreed k₀ => rw [(hk k₀).mp ((h k₀).mpr rfl)]
    | conflicting =>
      obtain ⟨k₁, k₂, h1, h2, hne⟩ := h
      exact absurd (((hk k₁).mp h1).trans ((hk k₂).mp h2).symm) hne

theorem foldlM_gathers {ε σ ι : Type} {I : (κ → Prop) → σ → Prop} {step : σ → ι → Except ε σ}
    {adds : ι → κ → Prop} {items : List ι}
    (hcongr : ∀ S T s, (∀ k, S k ↔ T k) → I S s → I T s)
    (hstep : ∀ i ∈ items, ∀ S s, I S s →
      ∃ s', step s i = .ok s' ∧ I (fun k => S k ∨ adds i k) s')
    {s : σ} (h : I S s) :
    ∃ s', items.foldlM step s = .ok s' ∧ I (fun k => S k ∨ ∃ i ∈ items, adds i k) s' := by
  induction items generalizing S s with
  | nil => exact ⟨s, rfl, hcongr S _ s (fun k => by simp) h⟩
  | cons i items ih =>
    obtain ⟨hi, hitems⟩ := List.forall_mem_cons.mp hstep
    obtain ⟨s1, h1, hs1⟩ := hi S s h
    obtain ⟨s2, h2, hs2⟩ := ih hitems hs1
    refine ⟨s2, ?_, hcongr _ _ s2 (fun k => ?_) hs2⟩
    · rw [List.foldlM_cons, h1]
      exact h2
    · rw [List.exists_mem_cons_iff, or_assoc]

end Agreement
