import Ezfadvance.Lib.Segments

/-!
# Lib.Overlay

Blocks laid over each other in an address space that is otherwise blank. A block may overwrite
the blank cells of an earlier one; its own cells that are not blank are the live ones.

* `overlay f s xs`  — the memory `f` after `xs` is written at `s`.
* `Live bs a v`     — some block of `bs` puts the non-blank value `v` at `a`.
* `Renders bs f`    — `f` shows every live value, and is blank everywhere else.
* `Renders.snoc`    — writing a block behind the live cells of the others keeps `Renders`.
* `Vacant bs lo hi` — no live cell in `[lo, hi)`.
-/

namespace Overlay

open Segments

variable {α : Type}

structure Block (α : Type) where
  start : Nat
  cells : List α

def overlay (f : Nat → α) (s : Nat) (xs : List α) : Nat → α :=
  fun a => if s ≤ a then xs.getD (a - s) (f a) else f a

theorem overlay_of_lt {f : Nat → α} {s a : Nat} {xs : List α} (h : a < s) :
    overlay f s xs a = f a := by
  rw [overlay, if_neg (by omega)]

theorem overlay_of_ge {f : Nat → α} {s a : Nat} {xs : List α} (h : s + xs.length ≤ a) :
    overlay f s xs a = f a := by
  unfold overlay
  split
  · rw [getD_eq_of_ge (by omega)]
  · rfl

theorem overlay_of_mem {f : Nat → α} {s a : Nat} {xs : List α} {d : α} (h1 : s ≤ a)
    (h2 : a < s + xs.length) : overlay f s xs a = xs.getD (a - s) d := by
  rw [overlay, if_pos h1, List.getD_eq_getElem _ _ (by omega), List.getD_eq_getElem _ _ (by omega)]

theorem overlay_nil {f : Nat → α} {s : Nat} : overlay f s [] = f := by
  funext a
  by_cases h : a < s
  · exact overlay_of_lt h
  · exact overlay_of_ge (by simp only [List.length_nil]; omega)

theorem overlay_getElem? {f : Nat → α} {s a : Nat} {xs : List α} {v : α} (h1 : s ≤ a)
    (h2 : xs[a - s]? = some v) : overlay f s xs a = v := by
  rw [overlay, if_pos h1, List.getD_eq_getElem?_getD, h2, Option.getD_some]

/-- Reading a buffer after a copy into it. -/
theorem getD_blit_eq_overlay {xs ys : List α} {off : Nat} {d : α}
    (h : off + ys.length ≤ xs.length) :
    (fun a => (blit xs off ys).getD a d) = overlay (fun a => xs.getD a d) off ys := by
  funext a
  rw [getD_blit h]
  by_cases h1 : off ≤ a ∧ a < off + ys.length
  · rw [if_pos h1, overlay_of_mem h1.1 h1.2]
  · rw [if_neg h1]
    by_cases h2 : a < off
    · rw [overlay_of_lt h2]
    · rw [overlay_of_ge (by omega)]

/-! ## Live cells -/

def Live (blank : α) (bs : List (Block α)) (a : Nat) (v : α) : Prop :=
  v ≠ blank ∧ ∃ b ∈ bs, b.start ≤ a ∧ b.cells[a - b.start]? = some v

theorem live_nil {blank : α} {a : Nat} {v : α} : ¬ Live blank [] a v := by
  rintro ⟨_, b, hb, _⟩
  cases hb

theorem live_append {blank : α} {bs cs : List (Block α)} {a : Nat} {v : α} :
    Live blank (bs ++ cs) a v ↔ Live blank bs a v ∨ Live blank cs a v := by
  simp only [Live, List.mem_append]
  grind

theorem live_singleton {blank : α} {b : Block α} {a : Nat} {v : α} :
    Live blank [b] a v ↔ v ≠ blank ∧ b.start ≤ a ∧ b.cells[a - b.start]? = some v := by
  simp only [Live, List.mem_singleton, exists_eq_left]

structure Renders (blank : α) (bs : List (Block α)) (f : Nat → α) : Prop where
  live : ∀ a v, Live blank bs a v → f a = v
  blank : ∀ a, (∀ v, ¬ Live blank bs a v) → f a = blank

theorem renders_nil {blank : α} : Renders blank [] (fun _ => blank) :=
  ⟨fun _ _ h => absurd h live_nil, fun _ _ => rfl⟩

theorem Renders.snoc {blank : α} {bs : List (Block α)} {f : Nat → α} {b : Block α}
    (h : Renders blank bs f) (hbelow : ∀ a v, Live blank bs a v → a < b.start) :
    Renders blank (bs ++ [b]) (overlay f b.start b.cells) := by
  constructor
  · intro a v hv
    rw [live_append, live_singleton] at hv
    rcases hv with hv | ⟨_, hs, hc⟩
    · rw [overlay_of_lt (hbelow a v hv)]
      exact h.live a v hv
    · exact overlay_getElem? hs hc
  · intro a hv
    have hbs : f a = blank := by
      apply h.blank a
      intro v hl
      exact hv v (live_append.mpr (.inl hl))
    by_cases hin : b.start ≤ a ∧ a < b.start + b.cells.length
    · have hc : b.cells[a - b.start]? = some (overlay f b.start b.cells a) := by
        rw [getElem?_eq_some_iff_getD (d := blank) (by omega), overlay_of_mem hin.1 hin.2]
      by_cases hb : overlay f b.start b.cells a = blank
      · exact hb
      · exact absurd (live_append.mpr (.inr (live_singleton.mpr ⟨hb, hin.1, hc⟩))) (hv _)
    · by_cases hlt : a < b.start
      · rw [overlay_of_lt hlt, hbs]
      · rw [overlay_of_ge (by omega), hbs]

/-! ## Vacant ranges -/

def Vacant (blank : α) (bs : List (Block α)) (lo hi : Nat) : Prop :=
  ∀ a, lo ≤ a → a < hi → ∀ v, ¬ Live blank bs a v

theorem Renders.vacant_iff {blank : α} {bs : List (Block α)} {f : Nat → α} {lo hi : Nat}
    (h : Renders blank bs f) : Vacant blank bs lo hi ↔ ∀ a, lo ≤ a → a < hi → f a = blank := by
  constructor
  · intro hv a h1 h2
    exact h.blank a (hv a h1 h2)
  · intro hf a h1 h2 v hv
    exact hv.1 ((h.live a v hv).symm.trans (hf a h1 h2))

end Overlay
