import Mathlib.Data.Nat.Digits.Defs

/-!
# Lib.Arguments

Reading a command line: a loop over arguments that stops at the first bad one, and the numbers that
arguments hold.

* `readAll`           — the loop: a step takes the state on or rejects the argument.
* `readAll_accepts`   — it ends well if and only if each argument is accepted.
* `LastGiven`         — a setting after the loop: what the last argument that names it gave, or what
  it was before.
* `readAll_lastGiven`, `readAll_filter`, `readAll_flag` — what the step does to one field, carried over
  the loop.
* `value`             — a number in positional notation; `guard_iff`: a bound checked before the
  multiplication.
-/

namespace Arguments

/-! ## The loop -/

section Loop

variable {σ α ε : Type}

/-- The state behind the arguments, or the first rejection with the state it met. -/
def readAll (step : σ → α → Except ε σ) : List α → σ → Except (ε × σ) σ
  | [], s => .ok s
  | a :: arguments, s =>
    match step s a with
    | .error e => .error (e, s)
    | .ok s' => readAll step arguments s'

variable {step : σ → α → Except ε σ} {a : α} {arguments : List α} {s s' : σ}

theorem readAll_cons : readAll step (a :: arguments) s = .ok s' ↔
    ∃ mid, step s a = .ok mid ∧ readAll step arguments mid = .ok s' := by
  rw [readAll]
  cases step s a with
  | error e => simp
  | ok mid => simp

theorem readAll_accepts {Accepts : α → Prop}
    (hstep : ∀ s a, (∃ s', step s a = .ok s') ↔ Accepts a) :
    (∃ s', readAll step arguments s = .ok s') ↔ ∀ a ∈ arguments, Accepts a := by
  induction arguments generalizing s with
  | nil => simp [readAll]
  | cons a arguments ih =>
    rw [List.forall_mem_cons, ← hstep s a]
    constructor
    · rintro ⟨s', h⟩
      obtain ⟨mid, hmid, hrest⟩ := readAll_cons.mp h
      exact ⟨⟨mid, hmid⟩, ih.mp ⟨s', hrest⟩⟩
    · rintro ⟨⟨mid, hmid⟩, hrest⟩
      obtain ⟨s', hs'⟩ := (@ih mid).mpr hrest
      exact ⟨s', readAll_cons.mpr ⟨mid, hmid, hs'⟩⟩

/-- A field to which each kept argument is appended. -/
theorem readAll_filter {field : σ → List α} {keep : α → Bool}
    (hstep : ∀ s a s', step s a = .ok s' → field s' = field s ++ [a].filter keep)
    (h : readAll step arguments s = .ok s') : field s' = field s ++ arguments.filter keep := by
  induction arguments generalizing s with
  | nil =>
    cases h
    exact (List.append_nil _).symm
  | cons a arguments ih =>
    obtain ⟨mid, hmid, hrest⟩ := readAll_cons.mp h
    rw [ih hrest, hstep s a mid hmid, List.append_assoc, ← List.filter_append]
    rfl

/-- A field that is set from the first argument on that sets it. -/
theorem readAll_flag {field : σ → Bool} {Sets : α → Prop}
    (hstep : ∀ s a s', step s a = .ok s' → (field s' = true ↔ field s = true ∨ Sets a))
    (h : readAll step arguments s = .ok s') :
    field s' = true ↔ field s = true ∨ ∃ a ∈ arguments, Sets a := by
  induction arguments generalizing s with
  | nil =>
    cases h
    simp
  | cons a arguments ih =>
    obtain ⟨mid, hmid, hrest⟩ := readAll_cons.mp h
    rw [ih hrest, hstep s a mid hmid, or_assoc]
    simp only [List.mem_cons, exists_eq_or_imp]

end Loop

/-! ## Settings -/

section Settings

variable {α β : Type} {Names : α → β → Prop} {a : α} {arguments : List α}
  {before mid after : Option β}

/-- Between `before` and `after` the arguments gave a setting that `Names` reads off them. -/
def LastGiven (Names : α → β → Prop) (arguments : List α) (before after : Option β) : Prop :=
  (∃ front a rest v, arguments = front ++ a :: rest ∧ Names a v ∧
      (∀ b ∈ rest, ∀ w, ¬ Names b w) ∧ after = some v) ∨
    ((∀ a ∈ arguments, ∀ v, ¬ Names a v) ∧ after = before)

theorem LastGiven.nil : LastGiven Names [] before before :=
  .inr ⟨by simp, rfl⟩

theorem LastGiven.cons (hset : ∀ v, Names a v → mid = some v)
    (hkeep : (∀ v, ¬ Names a v) → mid = before) (h : LastGiven Names arguments mid after) :
    LastGiven Names (a :: arguments) before after := by
  obtain ⟨front, b, rest, v, rfl, hnames, hrest, hafter⟩ | ⟨hnone, rfl⟩ := h
  · exact .inl ⟨a :: front, b, rest, v, rfl, hnames, hrest, hafter⟩
  · by_cases hnames : ∃ v, Names a v
    · obtain ⟨v, hv⟩ := hnames
      exact .inl ⟨[], a, arguments, v, rfl, hv, hnone, hset v hv⟩
    · have hno : ∀ v, ¬ Names a v := fun v hv => hnames ⟨v, hv⟩
      exact .inr ⟨List.forall_mem_cons.mpr ⟨hno, hnone⟩, hkeep hno⟩

theorem readAll_lastGiven {σ ε : Type} {step : σ → α → Except ε σ} {field : σ → Option β}
    {s s' : σ}
    (hset : ∀ s a s' v, step s a = .ok s' → Names a v → field s' = some v)
    (hkeep : ∀ s a s', step s a = .ok s' → (∀ v, ¬ Names a v) → field s' = field s)
    (h : readAll step arguments s = .ok s') :
    LastGiven Names arguments (field s) (field s') := by
  induction arguments generalizing s with
  | nil =>
    cases h
    exact .nil
  | cons a arguments ih =>
    obtain ⟨mid, hmid, hrest⟩ := readAll_cons.mp h
    exact .cons (fun v => hset s a mid v hmid) (hkeep s a mid hmid) (ih hrest)

end Settings

/-! ## Numbers -/

section Numbers

variable {base : Nat} {digits : List Nat}

/-- The number that the digits write, the first the most significant, behind a number read
before. -/
def value (base : Nat) (digits : List Nat) (before : Nat) : Nat :=
  digits.foldl (fun read digit => read * base + digit) before

theorem value_cons {digit before : Nat} :
    value base (digit :: digits) before = value base digits (before * base + digit) := rfl

theorem le_value (hbase : 0 < base) (before : Nat) : before ≤ value base digits before := by
  induction digits generalizing before with
  | nil => exact Nat.le_refl _
  | cons digit digits ih =>
    calc before ≤ before * base := Nat.le_mul_of_pos_right _ hbase
      _ ≤ before * base + digit := Nat.le_add_right _ _
      _ ≤ value base (digit :: digits) before := ih _

theorem value_eq_ofDigits (before : Nat) : value base digits before =
    Nat.ofDigits base digits.reverse + before * base ^ digits.length := by
  induction digits generalizing before with
  | nil => simp [value]
  | cons digit digits ih =>
    rw [value_cons, ih, Nat.ofDigits_reverse_cons, List.length_cons, Nat.pow_succ]
    ring

/-- The check that the next digit keeps the number within `maximum`, without computing it. -/
theorem guard_iff {digit read maximum : Nat} (hbase : 0 < base) :
    digit > maximum ∨ read > (maximum - digit) / base ↔ maximum < read * base + digit := by
  rw [gt_iff_lt, gt_iff_lt, Nat.div_lt_iff_lt_mul hbase]
  omega

end Numbers

end Arguments
