import Mathlib.Data.List.Basic

/-!
# Lib.Interact

Programs that talk to an environment: they ask an operation, get an answer of its type and go on
from there, and end with a value or an error.

* `Runs p trace out`   — some environment answers `p` as `trace` says, and `p` ends with `out`.
* `Always A Q p`       — whatever the answers, `p` asks only operations in `A` and ends in `Q`.
* `exec dev p s`       — the run of `p` on the device `dev` from the state `s`.
* `Succeeds dev P p Q` — from every state in `P` the device brings `p` to `true` and a state in `Q`.

Each has one rule for `bind` and one for `both`, the conjunction that stops at the first `false`.
-/

namespace Interact

inductive Program (Op : Type) (Reply : Op → Type) (ε α : Type) where
  | pure (a : α)
  | throw (e : ε)
  | op (o : Op) (k : Reply o → Program Op Reply ε α)

/-- An operation and its answer. -/
abbrev Event (Op : Type) (Reply : Op → Type) : Type := (o : Op) × Reply o

namespace Program

variable {Op : Type} {Reply : Op → Type} {ε α β : Type}

def bind : Program Op Reply ε α → (α → Program Op Reply ε β) → Program Op Reply ε β
  | .pure a, f => f a
  | .throw e, _ => .throw e
  | .op o k, f => .op o fun r => (k r).bind f

instance : Monad (Program Op Reply ε) where
  pure := .pure
  bind := bind

def tryCatch : Program Op Reply ε α → (ε → Program Op Reply ε α) → Program Op Reply ε α
  | .pure a, _ => .pure a
  | .throw e, f => f e
  | .op o k, f => .op o fun r => (k r).tryCatch f

instance : MonadExceptOf ε (Program Op Reply ε) where
  throw := .throw
  tryCatch := tryCatch

def ask (o : Op) : Program Op Reply ε (Reply o) := .op o .pure

/-- `p`, and `q` only if `p` gives `true`. -/
def both (p q : Program Op Reply ε Bool) : Program Op Reply ε Bool :=
  p >>= fun ok => if ok then q else .pure false

def allOf : List (Program Op Reply ε Bool) → Program Op Reply ε Bool
  | [] => .pure true
  | p :: ps => both p (allOf ps)

end Program

open Program

variable {Op : Type} {Reply : Op → Type} {ε α β : Type}

/-! ## Runs -/

inductive Runs : Program Op Reply ε α → List (Event Op Reply) → Except ε α → Prop where
  | pure {a : α} : Runs (.pure a) [] (.ok a)
  | throw {e : ε} : Runs (.throw e) [] (.error e)
  | op {o : Op} {k : Reply o → Program Op Reply ε α} {r : Reply o}
      {trace : List (Event Op Reply)} {out : Except ε α} (run : Runs (k r) trace out) :
      Runs (.op o k) (⟨o, r⟩ :: trace) out

theorem runs_pure_iff {a : α} {trace : List (Event Op Reply)} {out : Except ε α} :
    Runs (.pure a) trace out ↔ trace = [] ∧ out = .ok a := by
  constructor
  · rintro ⟨⟩
    exact ⟨rfl, rfl⟩
  · rintro ⟨rfl, rfl⟩
    exact .pure

theorem runs_op_iff {o : Op} {k : Reply o → Program Op Reply ε α} {trace : List (Event Op Reply)}
    {out : Except ε α} :
    Runs (.op o k) trace out ↔ ∃ r rest, trace = ⟨o, r⟩ :: rest ∧ Runs (k r) rest out := by
  constructor
  · rintro (_ | _ | ⟨run⟩)
    exact ⟨_, _, rfl, run⟩
  · rintro ⟨r, rest, rfl, run⟩
    exact .op run

theorem runs_ask {o : Op} {r : Reply o} {trace : List (Event Op Reply)}
    (h : Runs (ask o : Program Op Reply ε (Reply o)) trace (.ok r)) : trace = [⟨o, r⟩] := by
  obtain ⟨r', rest, rfl, hrest⟩ := runs_op_iff.mp h
  obtain ⟨rfl, hr⟩ := runs_pure_iff.mp hrest
  cases hr
  rfl

theorem runs_ask_ok_iff {o : Op} {r : Reply o} {trace : List (Event Op Reply)} :
    Runs (ask o : Program Op Reply ε (Reply o)) trace (.ok r) ↔ trace = [⟨o, r⟩] := by
  constructor
  · exact runs_ask
  · rintro rfl
    exact .op .pure

/-- A run of a sequence that ends with a value is a run of the first part and one of the second. -/
theorem runs_bind_ok {p : Program Op Reply ε α} {f : α → Program Op Reply ε β}
    {trace : List (Event Op Reply)} {b : β} (h : Runs (p >>= f) trace (.ok b)) :
    ∃ a t1 t2, trace = t1 ++ t2 ∧ Runs p t1 (.ok a) ∧ Runs (f a) t2 (.ok b) := by
  induction p generalizing trace with
  | pure a => exact ⟨a, [], trace, rfl, .pure, h⟩
  | throw e => cases h
  | op o k ih =>
    obtain ⟨r, rest, rfl, run⟩ := runs_op_iff.mp h
    obtain ⟨a, t1, t2, rfl, h1, h2⟩ := ih r run
    exact ⟨a, ⟨o, r⟩ :: t1, t2, rfl, .op h1, h2⟩

theorem runs_throw_iff {e : ε} {trace : List (Event Op Reply)} {out : Except ε α} :
    Runs (.throw e) trace out ↔ trace = [] ∧ out = .error e := by
  constructor
  · rintro ⟨⟩
    exact ⟨rfl, rfl⟩
  · rintro ⟨rfl, rfl⟩
    exact .throw

/-- A run of a sequence: the first part throws, or it gives a value and the second part runs. -/
theorem runs_bind_iff {p : Program Op Reply ε α} {f : α → Program Op Reply ε β}
    {trace : List (Event Op Reply)} {out : Except ε β} :
    Runs (p >>= f) trace out ↔
      (∃ e, Runs p trace (.error e) ∧ out = .error e) ∨
      ∃ a t1 t2, trace = t1 ++ t2 ∧ Runs p t1 (.ok a) ∧ Runs (f a) t2 out := by
  induction p generalizing trace with
  | pure a =>
    constructor
    · exact fun h => .inr ⟨a, [], trace, rfl, .pure, h⟩
    · rintro (⟨e, h, rfl⟩ | ⟨a', t1, t2, rfl, h1, h2⟩)
      · cases h
      · cases h1
        exact h2
  | throw e =>
    constructor
    · intro h
      obtain ⟨rfl, rfl⟩ := runs_throw_iff.mp h
      exact .inl ⟨e, .throw, rfl⟩
    · rintro (⟨e', h, rfl⟩ | ⟨a', t1, t2, rfl, h1, h2⟩)
      · cases h
        exact .throw
      · cases h1
  | op o k ih =>
    constructor
    · intro h
      obtain ⟨r, rest, rfl, run⟩ := runs_op_iff.mp h
      obtain ⟨e, he, rfl⟩ | ⟨a, t1, t2, rfl, h1, h2⟩ := (ih r).mp run
      · exact .inl ⟨e, .op he, rfl⟩
      · exact .inr ⟨a, ⟨o, r⟩ :: t1, t2, rfl, .op h1, h2⟩
    · rintro (⟨e, h, rfl⟩ | ⟨a, t1, t2, rfl, h1, h2⟩)
      · obtain ⟨r, rest, rfl, run⟩ := runs_op_iff.mp h
        exact .op ((ih r).mpr (.inl ⟨e, run, rfl⟩))
      · obtain ⟨r, rest, rfl, run⟩ := runs_op_iff.mp h1
        exact .op ((ih r).mpr (.inr ⟨a, rest, t2, rfl, run, h2⟩))

/-- A run with a handler: it passes the handler by, or the handler runs behind what was thrown. -/
theorem runs_tryCatch_iff {p : Program Op Reply ε α} {f : ε → Program Op Reply ε α}
    {trace : List (Event Op Reply)} {out : Except ε α} :
    Runs (p.tryCatch f) trace out ↔
      (∃ a, Runs p trace (.ok a) ∧ out = .ok a) ∨
      ∃ e t1 t2, trace = t1 ++ t2 ∧ Runs p t1 (.error e) ∧ Runs (f e) t2 out := by
  induction p generalizing trace with
  | pure a =>
    constructor
    · intro h
      obtain ⟨rfl, rfl⟩ := runs_pure_iff.mp h
      exact .inl ⟨a, .pure, rfl⟩
    · rintro (⟨a', h, rfl⟩ | ⟨e, t1, t2, rfl, h, _⟩)
      · exact h
      · cases h
  | throw e =>
    constructor
    · exact fun h => .inr ⟨e, [], trace, rfl, .throw, h⟩
    · rintro (⟨a, h, rfl⟩ | ⟨e', t1, t2, rfl, h1, h2⟩)
      · cases h
      · cases h1
        exact h2
  | op o k ih =>
    constructor
    · intro h
      obtain ⟨r, rest, rfl, run⟩ := runs_op_iff.mp h
      obtain ⟨a, ha, rfl⟩ | ⟨e, t1, t2, rfl, h1, h2⟩ := (ih r).mp run
      · exact .inl ⟨a, .op ha, rfl⟩
      · exact .inr ⟨e, ⟨o, r⟩ :: t1, t2, rfl, .op h1, h2⟩
    · rintro (⟨a, h, rfl⟩ | ⟨e, t1, t2, rfl, h1, h2⟩)
      · obtain ⟨r, rest, rfl, run⟩ := runs_op_iff.mp h
        exact .op ((ih r).mpr (.inl ⟨a, run, rfl⟩))
      · obtain ⟨r, rest, rfl, run⟩ := runs_op_iff.mp h1
        exact .op ((ih r).mpr (.inr ⟨e, rest, t2, rfl, run, h2⟩))

theorem Runs.bind {p : Program Op Reply ε α} {f : α → Program Op Reply ε β} {a : α}
    {t1 t2 : List (Event Op Reply)} {out : Except ε β} (h1 : Runs p t1 (.ok a))
    (h2 : Runs (f a) t2 out) : Runs (p >>= f) (t1 ++ t2) out :=
  runs_bind_iff.mpr (.inr ⟨a, t1, t2, rfl, h1, h2⟩)

theorem Runs.both {p q : Program Op Reply ε Bool} {t1 t2 : List (Event Op Reply)}
    {out : Except ε Bool} (h1 : Runs p t1 (.ok true)) (h2 : Runs q t2 out) :
    Runs (p.both q) (t1 ++ t2) out :=
  h1.bind h2

theorem runs_both_true_iff {p q : Program Op Reply ε Bool} {trace : List (Event Op Reply)} :
    Runs (both p q) trace (.ok true) ↔
      ∃ t1 t2, trace = t1 ++ t2 ∧ Runs p t1 (.ok true) ∧ Runs q t2 (.ok true) := by
  constructor
  · intro h
    obtain ⟨a, t1, t2, rfl, h1, h2⟩ := runs_bind_ok h
    cases a with
    | true => exact ⟨t1, t2, rfl, h1, h2⟩
    | false => cases h2
  · rintro ⟨t1, t2, rfl, h1, h2⟩
    exact h1.both h2

theorem runs_both_false_iff {p q : Program Op Reply ε Bool} {trace : List (Event Op Reply)} :
    Runs (both p q) trace (.ok false) ↔ Runs p trace (.ok false) ∨
      ∃ t1 t2, trace = t1 ++ t2 ∧ Runs p t1 (.ok true) ∧ Runs q t2 (.ok false) := by
  constructor
  · intro h
    obtain ⟨a, t1, t2, rfl, h1, h2⟩ := runs_bind_ok h
    cases a with
    | true => exact .inr ⟨t1, t2, rfl, h1, h2⟩
    | false =>
      obtain ⟨rfl, _⟩ := runs_pure_iff.mp h2
      rw [List.append_nil]
      exact .inl h1
  · rintro (h | ⟨t1, t2, rfl, h1, h2⟩)
    · have hstop := h.bind (f := fun ok => if ok then q else .pure false) .pure
      rwa [List.append_nil] at hstop
    · exact h1.both h2

theorem runs_allOf_nil_iff {trace : List (Event Op Reply)} :
    Runs (allOf [] : Program Op Reply ε Bool) trace (.ok true) ↔ trace = [] := by
  rw [allOf, runs_pure_iff]
  exact and_iff_left rfl

/-- A sequence gives `true` if each part does, one after the other. -/
theorem runs_allOf_map_iff {ι : Type} {step : ι → Program Op Reply ε Bool} {items : List ι}
    {trace : List (Event Op Reply)} :
    Runs (allOf (items.map step)) trace (.ok true) ↔
      ∃ parts, List.Forall₂ (fun i t => Runs (step i) t (.ok true)) items parts ∧
        trace = parts.flatten := by
  induction items generalizing trace with
  | nil =>
    rw [List.map_nil, runs_allOf_nil_iff]
    constructor
    · rintro rfl
      exact ⟨[], .nil, rfl⟩
    · rintro ⟨_, ⟨⟩, rfl⟩
      rfl
  | cons i items ih =>
    rw [List.map_cons, allOf, runs_both_true_iff]
    constructor
    · rintro ⟨t1, t2, rfl, h1, h2⟩
      obtain ⟨parts, hparts, rfl⟩ := ih.mp h2
      exact ⟨t1 :: parts, .cons h1 hparts, rfl⟩
    · rintro ⟨_, _ | ⟨h1, hparts⟩, rfl⟩
      exact ⟨_, _, rfl, h1, ih.mpr ⟨_, hparts, rfl⟩⟩

/-- A sequence gives `false` if one of its parts does, after those before it gave `true`. -/
theorem runs_allOf_false_iff {ι : Type} {step : ι → Program Op Reply ε Bool} {items : List ι}
    {trace : List (Event Op Reply)} :
    Runs (allOf (items.map step)) trace (.ok false) ↔
      ∃ done i rest t1 t2, items = done ++ i :: rest ∧ trace = t1 ++ t2 ∧
        Runs (allOf (done.map step)) t1 (.ok true) ∧ Runs (step i) t2 (.ok false) := by
  induction items generalizing trace with
  | nil =>
    constructor
    · intro h
      cases h
    · rintro ⟨done, i, rest, _, _, hitems, _⟩
      simp at hitems
  | cons j items ih =>
    rw [List.map_cons, allOf, runs_both_false_iff]
    constructor
    · rintro (hj | ⟨t, t', rfl, hj, hrest⟩)
      · exact ⟨[], j, items, [], trace, rfl, rfl, .pure, hj⟩
      · obtain ⟨done, i, rest, t1, t2, rfl, rfl, hdone, hi⟩ := ih.mp hrest
        exact ⟨j :: done, i, rest, t ++ t1, t2, rfl, (List.append_assoc _ _ _).symm,
          hj.both hdone, hi⟩
    · rintro ⟨done, i, rest, t1, t2, hitems, rfl, hdone, hi⟩
      cases done with
      | nil =>
        obtain rfl := runs_allOf_nil_iff.mp hdone
        cases hitems
        exact .inl hi
      | cons j' done =>
        obtain ⟨rfl, rfl⟩ := List.cons.inj hitems
        obtain ⟨t, t', rfl, hj, hdone⟩ := runs_both_true_iff.mp hdone
        exact .inr ⟨t, t' ++ t2, List.append_assoc _ _ _, hj,
          ih.mpr ⟨done, i, rest, t', t2, rfl, rfl, hdone, hi⟩⟩

theorem runs_ask_iff {o : Op} {trace : List (Event Op Reply)} {out : Except ε (Reply o)} :
    Runs (ask o) trace out ↔ ∃ r, trace = [⟨o, r⟩] ∧ out = .ok r := by
  constructor
  · intro h
    obtain ⟨r, rest, rfl, hrest⟩ := runs_op_iff.mp h
    obtain ⟨rfl, rfl⟩ := runs_pure_iff.mp hrest
    exact ⟨r, rfl, rfl⟩
  · rintro ⟨r, rfl, rfl⟩
    exact .op .pure

/-- The answers decide a run: two runs of a program along one trace are the same. -/
theorem Runs.unique {p : Program Op Reply ε α} {t t' x y : List (Event Op Reply)}
    {out out' : Except ε α} (h : Runs p t out) (h' : Runs p t' out') (heq : t ++ x = t' ++ y) :
    t = t' ∧ out = out' := by
  induction h generalizing t' with
  | pure =>
    obtain ⟨rfl, rfl⟩ := runs_pure_iff.mp h'
    exact ⟨rfl, rfl⟩
  | throw =>
    obtain ⟨rfl, rfl⟩ := runs_throw_iff.mp h'
    exact ⟨rfl, rfl⟩
  | op _ ih =>
    obtain ⟨r', rest', rfl, hrun⟩ := runs_op_iff.mp h'
    rw [List.cons_append, List.cons_append, List.cons.injEq] at heq
    obtain ⟨he, hrest⟩ := heq
    cases he
    obtain ⟨rfl, rfl⟩ := ih hrun hrest
    exact ⟨rfl, rfl⟩

/-! ## What holds whatever the answers -/

def Always (A : Op → Prop) (Q : Except ε α → Prop) : Program Op Reply ε α → Prop
  | .pure a => Q (.ok a)
  | .throw e => Q (.error e)
  | .op o k => A o ∧ ∀ r, Always A Q (k r)

section Always

variable {A : Op → Prop} {Q Q' : Except ε α → Prop} {R : Except ε β → Prop}

theorem Always.run {p : Program Op Reply ε α} {trace : List (Event Op Reply)} {out : Except ε α}
    (h : Always A Q p) (run : Runs p trace out) : (∀ e ∈ trace, A e.1) ∧ Q out := by
  induction run with
  | pure => exact ⟨by simp, h⟩
  | throw => exact ⟨by simp, h⟩
  | op _ ih =>
    obtain ⟨hrest, hout⟩ := ih (h.2 _)
    exact ⟨List.forall_mem_cons.mpr ⟨h.1, hrest⟩, hout⟩

theorem Always.mono {p : Program Op Reply ε α} (h : Always A Q p) (hQ : ∀ out, Q out → Q' out) :
    Always A Q' p := by
  induction p with
  | pure a => exact hQ _ h
  | throw e => exact hQ _ h
  | op o k ih => exact ⟨h.1, fun r => ih r (h.2 r)⟩

theorem Always.bind {p : Program Op Reply ε α} {f : α → Program Op Reply ε β} (h : Always A Q p)
    (hok : ∀ a, Q (.ok a) → Always A R (f a)) (herr : ∀ e, Q (.error e) → R (.error e)) :
    Always A R (p >>= f) := by
  induction p with
  | pure a => exact hok a h
  | throw e => exact herr e h
  | op o k ih => exact ⟨h.1, fun r => ih r (h.2 r)⟩

end Always

/-- Ends with a value, not with an error. -/
def Returns : Except ε α → Prop
  | .ok _ => True
  | .error _ => False

theorem always_ask {A : Op → Prop} {o : Op} (h : A o) :
    Always A Returns (ask o : Program Op Reply ε (Reply o)) :=
  And.intro h fun _ => trivial

theorem Always.then {A : Op → Prop} {p : Program Op Reply ε α} {f : α → Program Op Reply ε β}
    (h : Always A Returns p) (hf : ∀ a, Always A Returns (f a)) : Always A Returns (p >>= f) :=
  h.bind (fun a _ => hf a) fun _ h => h

theorem Always.both {A : Op → Prop} {p q : Program Op Reply ε Bool} (hp : Always A Returns p)
    (hq : Always A Returns q) : Always A Returns (p.both q) := by
  refine hp.then fun ok => ?_
  cases ok with
  | true => exact hq
  | false => trivial

theorem always_allOf {A : Op → Prop} {ps : List (Program Op Reply ε Bool)}
    (h : ∀ p ∈ ps, Always A Returns p) : Always A Returns (allOf ps) := by
  induction ps with
  | nil => trivial
  | cons p ps ih =>
    obtain ⟨hp, hps⟩ := List.forall_mem_cons.mp h
    exact hp.both (ih hps)

theorem Always.weaken {A B : Op → Prop} {Q : Except ε α → Prop} {p : Program Op Reply ε α}
    (h : Always A Q p) (hAB : ∀ o, A o → B o) : Always B Q p := by
  induction p with
  | pure a => exact h
  | throw e => exact h
  | op o k ih => exact ⟨hAB o h.1, fun r => ih r (h.2 r)⟩

/-- Ends in any way at all. -/
def Anyhow : Except ε α → Prop := fun _ => True

theorem Always.anyhow {A : Op → Prop} {Q : Except ε α → Prop} {p : Program Op Reply ε α}
    (h : Always A Q p) : Always A Anyhow p :=
  h.mono fun _ _ => trivial

theorem always_any (p : Program Op Reply ε α) : Always (fun _ => True) Anyhow p := by
  induction p with
  | pure a => trivial
  | throw e => trivial
  | op o k ih => exact ⟨trivial, ih⟩

theorem Always.andThen {A : Op → Prop} {p : Program Op Reply ε α} {f : α → Program Op Reply ε β}
    (hp : Always A Anyhow p) (hf : ∀ a, Always A Anyhow (f a)) : Always A Anyhow (p >>= f) :=
  hp.bind (fun a _ => hf a) fun _ _ => trivial

theorem Always.caught {A : Op → Prop} {p : Program Op Reply ε α} {f : ε → Program Op Reply ε α}
    (hp : Always A Anyhow p) (hf : ∀ e, Always A Anyhow (f e)) :
    Always A Anyhow (p.tryCatch f) := by
  induction p with
  | pure a => trivial
  | throw e => exact hf e
  | op o k ih => exact ⟨hp.1, fun r => ih r (hp.2 r)⟩

/-- Ends with a value in `Q`. -/
def Ends (Q : α → Prop) : Except ε α → Prop
  | .ok a => Q a
  | .error _ => False

theorem Always.ends {A : Op → Prop} {p : Program Op Reply ε α} (h : Always A Returns p) :
    Always A (Ends fun _ => True) p := by
  refine h.mono fun out hout => ?_
  cases out with
  | ok a => trivial
  | error e => exact hout

/-- A first part that always ends with a value splits the run. -/
theorem Always.split {A : Op → Prop} {Q : α → Prop} {p : Program Op Reply ε α}
    {f : α → Program Op Reply ε β} {trace : List (Event Op Reply)} {out : Except ε β}
    (h : Always A (Ends Q) p) (run : Runs (p >>= f) trace out) :
    ∃ a t1 t2, trace = t1 ++ t2 ∧ (∀ e ∈ t1, A e.1) ∧ Q a ∧ Runs p t1 (.ok a) ∧
      Runs (f a) t2 out := by
  obtain ⟨e, he, _⟩ | ⟨a, t1, t2, rfl, h1, h2⟩ := runs_bind_iff.mp run
  · exact (h.run he).2.elim
  · obtain ⟨hA, hQ⟩ := h.run h1
    exact ⟨a, t1, t2, rfl, hA, hQ, h1, h2⟩

theorem both_true {p : Program Op Reply ε Bool} : p.both (.pure true) = p := by
  induction p with
  | pure a =>
    cases a with
    | true => rfl
    | false => rfl
  | throw e => rfl
  | op o k ih => exact congrArg (Program.op o) (funext ih)

theorem both_assoc {p q r : Program Op Reply ε Bool} :
    (p.both q).both r = p.both (q.both r) := by
  induction p with
  | pure a =>
    cases a with
    | true => rfl
    | false => rfl
  | throw e => rfl
  | op o k ih => exact congrArg (Program.op o) (funext ih)

theorem allOf_three {p q r : Program Op Reply ε Bool} : allOf [p, q, r] = (p.both q).both r := by
  rw [allOf, allOf, allOf, allOf, both_true, both_assoc]

/-! ## Where a run does what -/

/-- An element of two lists put together is in the first or in the second. -/
theorem split_append {γ : Type} {before after t1 t2 : List γ} {e : γ}
    (h : before ++ e :: after = t1 ++ t2) :
    (∃ rest, t1 = before ++ e :: rest ∧ after = rest ++ t2) ∨
      ∃ rest, before = t1 ++ rest ∧ t2 = rest ++ e :: after := by
  obtain ⟨rest, ht1, hrest⟩ | ⟨rest, hbefore, ht2⟩ := List.append_eq_append_iff.mp h
  · cases rest with
    | nil => exact .inr ⟨[], by rw [ht1, List.append_nil, List.append_nil], hrest.symm⟩
    | cons e' rest =>
      cases hrest
      exact .inl ⟨rest, ht1, rfl⟩
  · exact .inr ⟨rest, hbefore, ht2⟩

section Event

variable {before after : List (Event Op Reply)} {e : Event Op Reply}

/-- What the first part cannot do, a run does after that part has ended. -/
theorem Always.run_after {A : Op → Prop} {p : Program Op Reply ε α} {f : α → Program Op Reply ε β}
    {out : Except ε β} (h : Always A Returns p) (run : Runs (p >>= f) (before ++ e :: after) out)
    (he : ¬ A e.1) :
    ∃ a t rest, before = t ++ rest ∧ Runs p t (.ok a) ∧ Runs (f a) (rest ++ e :: after) out := by
  obtain ⟨a, t1, t2, heq, hA, _, h1, h2⟩ := h.ends.split run
  obtain ⟨rest, rfl, _⟩ | ⟨rest, rfl, rfl⟩ := split_append heq
  · exact absurd (hA e (by simp)) he
  · exact ⟨a, t1, rest, rfl, h1, h2⟩

theorem Always.both_after {A : Op → Prop} {p q : Program Op Reply ε Bool} {out : Except ε Bool}
    (h : Always A Returns p) (run : Runs (p.both q) (before ++ e :: after) out) (he : ¬ A e.1) :
    ∃ t rest, before = t ++ rest ∧ Runs p t (.ok true) ∧ Runs q (rest ++ e :: after) out := by
  obtain ⟨ok, t, rest, hbefore, h1, h2⟩ := h.run_after run he
  cases ok with
  | true => exact ⟨t, rest, hbefore, h1, h2⟩
  | false =>
    obtain ⟨hnil, _⟩ := runs_pure_iff.mp h2
    simp at hnil

/-- What the second part cannot do, a run does in the first part. -/
theorem Always.run_within {A : Op → Prop} {p : Program Op Reply ε α} {f : α → Program Op Reply ε β}
    {out : Except ε β} (h : ∀ a, Always A Anyhow (f a))
    (run : Runs (p >>= f) (before ++ e :: after) out) (he : ¬ A e.1) :
    ∃ after1 after2 end1, after = after1 ++ after2 ∧ Runs p (before ++ e :: after1) end1 := by
  obtain ⟨_, h1, _⟩ | ⟨a, t1, t2, heq, h1, h2⟩ := runs_bind_iff.mp run
  · exact ⟨after, [], _, (List.append_nil after).symm, h1⟩
  · obtain ⟨rest, rfl, rfl⟩ | ⟨rest, _, rfl⟩ := split_append heq
    · exact ⟨rest, t2, _, rfl, h1⟩
    · exact absurd (((h a).run h2).1 e (by simp)) he

/-- An event of a sequence is one of its parts', and the parts before it have succeeded. -/
theorem runs_allOf_event {ι : Type} {step : ι → Program Op Reply ε Bool} {items : List ι}
    {out : Except ε Bool} (run : Runs (allOf (items.map step)) (before ++ e :: after) out) :
    ∃ done i rest t t' after1 after2 end1, items = done ++ i :: rest ∧ before = t ++ t' ∧
      after = after1 ++ after2 ∧ Runs (allOf (done.map step)) t (.ok true) ∧
      Runs (step i) (t' ++ e :: after1) end1 := by
  induction items generalizing before with
  | nil =>
    obtain ⟨hnil, _⟩ := runs_pure_iff.mp run
    simp at hnil
  | cons i items ih =>
    obtain ⟨_, h1, _⟩ | ⟨ok, t1, t2, heq, h1, h2⟩ := runs_bind_iff.mp run
    · exact ⟨[], i, items, [], before, after, [], _, rfl, rfl, (List.append_nil after).symm, .pure,
        h1⟩
    · obtain ⟨rest, rfl, rfl⟩ | ⟨rest, rfl, rfl⟩ := split_append heq
      · exact ⟨[], i, items, [], before, rest, t2, _, rfl, rfl, rfl, .pure, h1⟩
      · cases ok with
        | false =>
          obtain ⟨hnil, _⟩ := runs_pure_iff.mp h2
          simp at hnil
        | true =>
          obtain ⟨done, j, tail, t, t', after1, after2, end1, rfl, rfl, rfl, hdone, hj⟩ := ih h2
          exact ⟨i :: done, j, tail, t1 ++ t, t', after1, after2, end1, rfl,
            (List.append_assoc _ _ _).symm, rfl, h1.both hdone, hj⟩

end Event

/-! ## Running on a device -/

section Device

variable {σ : Type} (dev : σ → (o : Op) → Reply o × σ)

def exec : Program Op Reply ε α → σ → Except ε α × σ
  | .pure a, s => (.ok a, s)
  | .throw e, s => (.error e, s)
  | .op o k, s => exec (k (dev s o).1) (dev s o).2

variable {dev}

theorem exec_bind_ok {p : Program Op Reply ε α} {f : α → Program Op Reply ε β} {s s' : σ} {a : α}
    (h : exec dev p s = (.ok a, s')) : exec dev (p >>= f) s = exec dev (f a) s' := by
  induction p generalizing s with
  | pure b =>
    cases h
    rfl
  | throw e => cases h
  | op o k ih => exact ih (dev s o).1 h

theorem exec_pure {a : α} {s : σ} :
    exec dev (Pure.pure a : Program Op Reply ε α) s = (.ok a, s) := rfl

theorem exec_ask {o : Op} {s : σ} :
    exec dev (ask o : Program Op Reply ε (Reply o)) s = (.ok (dev s o).1, (dev s o).2) := rfl

theorem exec_answered {o : Op} {r : Reply o} {f : Reply o → Program Op Reply ε α} {s s' : σ}
    (h : dev s o = (r, s')) : exec dev (ask o >>= f) s = exec dev (f r) s' :=
  exec_bind_ok (by rw [exec_ask, h])

theorem exec_both_true {p q : Program Op Reply ε Bool} {s s' : σ}
    (h : exec dev p s = (.ok true, s')) : exec dev (both p q) s = exec dev q s' :=
  exec_bind_ok h

/-- Parts that each give `true` and have an effect on what a state stands for. -/
theorem exec_allOf {ι τ : Type} {step : ι → Program Op Reply ε Bool} {items : List ι}
    {state : τ → σ} {effect : τ → ι → τ}
    (h : ∀ i ∈ items, ∀ a, exec dev (step i) (state a) = (.ok true, state (effect a i))) {a : τ} :
    exec dev (allOf (items.map step)) (state a) = (.ok true, state (items.foldl effect a)) := by
  induction items generalizing a with
  | nil => rfl
  | cons i items ih =>
    obtain ⟨hi, hitems⟩ := List.forall_mem_cons.mp h
    rw [List.map_cons, allOf, exec_both_true (hi a), ih hitems, List.foldl_cons]

/-- From every state in `P` the program gives `true` and leaves a state in `Q`. -/
def Succeeds (dev : σ → (o : Op) → Reply o × σ) (P : σ → Prop) (p : Program Op Reply ε Bool)
    (Q : σ → Prop) : Prop :=
  ∀ s, P s → ∃ s', exec dev p s = (.ok true, s') ∧ Q s'

variable {P Q R : σ → Prop}

theorem Succeeds.skip : Succeeds dev P (.pure true : Program Op Reply ε Bool) P :=
  fun s h => ⟨s, rfl, h⟩

theorem Succeeds.mono {p : Program Op Reply ε Bool} {Q' : σ → Prop} (h : Succeeds dev P p Q)
    (hQ : ∀ s, Q s → Q' s) : Succeeds dev P p Q' := by
  intro s hs
  obtain ⟨s', hrun, hq⟩ := h s hs
  exact ⟨s', hrun, hQ s' hq⟩

theorem Succeeds.both {p q : Program Op Reply ε Bool} (hp : Succeeds dev P p Q)
    (hq : Succeeds dev Q q R) : Succeeds dev P (p.both q) R := by
  intro s hs
  obtain ⟨s1, h1, hs1⟩ := hp s hs
  obtain ⟨s2, h2, hs2⟩ := hq s1 hs1
  exact ⟨s2, by rw [exec_both_true h1, h2], hs2⟩

theorem Succeeds.allOf {ps : List (Program Op Reply ε Bool)} (h : ∀ p ∈ ps, Succeeds dev P p P) :
    Succeeds dev P (allOf ps) P := by
  induction ps with
  | nil => exact .skip
  | cons p ps ih =>
    obtain ⟨hp, hps⟩ := List.forall_mem_cons.mp h
    exact hp.both (ih hps)

end Device

end Interact
