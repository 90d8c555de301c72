import Mathlib.Data.List.GetD

/-!
# Lib.Segments

Buffers as lists, written at an offset: the list forms of a copy, a fill and a resize of a
vector.

* `blit xs off ys`    — copy `ys` over `xs` from `off` on.
* `fill xs lo hi v`   — set `[lo, hi)` to `v`.
* `resize xs n v`     — cut or grow to `n` entries, new ones being `v`.
* `slice xs off len`  — the `len` entries from `off` on.

Every operation is described by one equation about `getD`: what stands at index `i` afterwards,
also past the end of the list, where the default is read.
-/

namespace Segments

def blit {α : Type} (xs : List α) (off : Nat) (ys : List α) : List α :=
  xs.take off ++ ys ++ xs.drop (off + ys.length)

def fill {α : Type} (xs : List α) (lo hi : Nat) (v : α) : List α :=
  blit xs lo (List.replicate (hi - lo) v)

def resize {α : Type} (xs : List α) (n : Nat) (v : α) : List α :=
  xs.take n ++ List.replicate (n - xs.length) v

def slice {α : Type} (xs : List α) (off len : Nat) : List α :=
  (xs.drop off).take len

section Length

variable {α : Type} {xs ys : List α} {off lo hi n : Nat} {v : α}

theorem length_blit (h : off + ys.length ≤ xs.length) : (blit xs off ys).length = xs.length := by
  simp only [blit, List.length_append, List.length_take, List.length_drop]
  omega

theorem length_fill (h : hi ≤ xs.length) (hlo : lo ≤ hi) : (fill xs lo hi v).length = xs.length := by
  rw [fill, length_blit (by simp only [List.length_replicate]; omega)]

theorem length_resize : (resize xs n v).length = n := by
  simp only [resize, List.length_append, List.length_take, List.length_replicate]
  omega

theorem length_slice : (slice xs off n).length = min n (xs.length - off) := by
  simp [slice]

end Length

section Reading

variable {α : Type} {xs ys : List α} {off lo hi n i : Nat} {v d : α}

theorem getD_eq_of_ge (h : xs.length ≤ i) : xs.getD i d = d :=
  List.getD_eq_default _ _ h

/-- Two lists of one length are equal when they read the same inside it. -/
theorem ext_getD (hl : xs.length = ys.length) (h : ∀ i, i < xs.length → xs.getD i d = ys.getD i d) :
    xs = ys := by
  apply List.ext_getElem hl
  intro i h1 h2
  have := h i h1
  rwa [List.getD_eq_getElem _ _ h1, List.getD_eq_getElem _ _ h2] at this

theorem getElem?_eq_some_iff_getD (h : i < xs.length) : xs[i]? = some v ↔ xs.getD i d = v := by
  rw [List.getD_eq_getElem _ _ h, List.getElem?_eq_getElem h, Option.some.injEq]

theorem getD_append :
    (xs ++ ys).getD i d = if i < xs.length then xs.getD i d else ys.getD (i - xs.length) d := by
  simp only [List.getD_eq_getElem?_getD, List.getElem?_append]
  split <;> rfl

theorem getD_replicate : (List.replicate n v).getD i d = if i < n then v else d := by
  simp only [List.getD_eq_getElem?_getD, List.getElem?_replicate]
  split <;> rfl

theorem getD_take : (xs.take n).getD i d = if i < n then xs.getD i d else d := by
  simp only [List.getD_eq_getElem?_getD, List.getElem?_take]
  split <;> rfl

theorem getD_drop : (xs.drop n).getD i d = xs.getD (n + i) d := by
  simp only [List.getD_eq_getElem?_getD, List.getElem?_drop]

theorem getD_slice : (slice xs off n).getD i d = if i < n then xs.getD (off + i) d else d := by
  rw [slice, getD_take, getD_drop]

theorem getD_set :
    (xs.set n v).getD i d = if i = n ∧ n < xs.length then v else xs.getD i d := by
  simp only [List.getD_eq_getElem?_getD, List.getElem?_set]
  by_cases hn : n = i
  · subst hn
    by_cases hl : n < xs.length
    · simp [hl]
    · simp [hl]
  · simp [hn, Ne.symm hn]

theorem getD_blit (h : off + ys.length ≤ xs.length) :
    (blit xs off ys).getD i d =
      if off ≤ i ∧ i < off + ys.length then ys.getD (i - off) d else xs.getD i d := by
  have hlen : (xs.take off).length = off := by simp only [List.length_take]; omega
  rw [blit, getD_append, getD_append, getD_take, getD_drop, List.length_append, hlen]
  by_cases h1 : i < off
  · rw [if_pos (by omega), if_pos h1, if_pos h1, if_neg (by omega)]
  · by_cases h2 : i < off + ys.length
    · rw [if_pos h2, if_neg h1, if_pos ⟨by omega, h2⟩]
    · rw [if_neg h2, if_neg (by omega), show off + ys.length + (i - (off + ys.length)) = i by omega]

theorem getD_fill (h : hi ≤ xs.length) (hlo : lo ≤ hi) :
    (fill xs lo hi v).getD i d = if lo ≤ i ∧ i < hi then v else xs.getD i d := by
  rw [fill, getD_blit (by simp only [List.length_replicate]; omega), List.length_replicate,
    getD_replicate]
  by_cases hi' : lo ≤ i ∧ i < hi
  · rw [if_pos (by omega), if_pos (by omega), if_pos hi']
  · rw [if_neg (by omega), if_neg hi']

/-- What was written is read back. -/
theorem slice_blit_self (h : off + ys.length ≤ xs.length) (hn : ys.length = n) :
    slice (blit xs off ys) off n = ys := by
  have hpre : (xs.take off).length = off := by rw [List.length_take]; omega
  rw [slice, blit, List.append_assoc, List.drop_left' hpre, List.take_left' hn]

/-- Writing inside what has just been written changes only that. -/
theorem blit_blit_inner {zs : List α} {k : Nat} (h : off + ys.length ≤ xs.length)
    (hk : k + zs.length ≤ ys.length) :
    blit (blit xs off ys) (off + k) zs = blit xs off (blit ys k zs) := by
  have hin : (blit ys k zs).length = ys.length := length_blit hk
  have hout : (blit xs off ys).length = xs.length := length_blit h
  apply List.ext_getElem?
  intro i
  by_cases hi : i < xs.length
  · have hl : i < (blit (blit xs off ys) (off + k) zs).length := by
      rw [length_blit (by omega)]; omega
    have hr : i < (blit xs off (blit ys k zs)).length := by rw [length_blit (by omega)]; omega
    rw [List.getElem?_eq_getElem hl, List.getElem?_eq_getElem hr,
      ← List.getD_eq_getElem _ xs[i] hl, ← List.getD_eq_getElem _ xs[i] hr,
      getD_blit (by omega), getD_blit h, getD_blit (by omega), hin, getD_blit hk]
    by_cases h1 : off + k ≤ i ∧ i < off + k + zs.length
    · rw [if_pos h1, if_pos (by omega), if_pos (by omega), show i - off - k = i - (off + k) by omega]
    · rw [if_neg h1]
      by_cases h2 : off ≤ i ∧ i < off + ys.length
      · rw [if_pos h2, if_pos h2, if_neg (by omega)]
      · rw [if_neg h2, if_neg h2]
  · rw [List.getElem?_eq_none (by rw [length_blit (by omega)]; omega),
      List.getElem?_eq_none (by rw [length_blit (by omega)]; omega)]

theorem blit_cons {y : α} {ys : List α} (h : off + (ys.length + 1) ≤ xs.length) :
    blit (xs.set off y) (off + 1) ys = blit xs off (y :: ys) := by
  have hset : (xs.set off y).take (off + 1) = xs.take off ++ [y] := by
    rw [List.take_set, List.take_add_one, List.getElem?_eq_getElem (by omega), Option.toList_some,
      List.set_append_right _ _ (by rw [List.length_take]; omega), List.length_take,
      Nat.min_eq_left (by omega), Nat.sub_self, List.set_cons_zero]
  rw [blit, blit, hset, List.drop_set_of_lt (by omega), List.length_cons, List.append_assoc,
    List.append_assoc, List.append_assoc, List.cons_append, List.nil_append, List.cons_append,
    show off + 1 + ys.length = off + (ys.length + 1) by omega]

/-- Growing with the default changes nothing a reader sees; cutting hides what lies behind. -/
theorem getD_resize : (resize xs n d).getD i d = if i < n then xs.getD i d else d := by
  rw [resize, getD_append, getD_take, getD_replicate, List.length_take]
  by_cases h1 : i < n
  · by_cases h2 : i < xs.length
    · rw [if_pos (by omega), if_pos h1]
    · rw [if_neg (by omega), if_pos h1, getD_eq_of_ge (by omega : xs.length ≤ i)]
      split <;> rfl
  · rw [if_neg (by omega), if_neg h1]
    split <;> rfl

end Reading

end Segments
