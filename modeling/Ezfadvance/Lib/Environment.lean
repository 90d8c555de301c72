import Ezfadvance.Lib.Interact

/-!
# Lib.Environment

Programs in an environment that has a state of its own.

* `Env`, `Path`     — which answers are possible in a state, and the states a trace leads through.
* `Wp env may p Q`  — in this state, whatever the environment does, `p` asks only what `may` allows
  at that moment and ends in `Q`. `Wp.sound` turns it into a fact about runs.
* `Gives Q`         — ends with a value in `Q`, and never with an error.
* `Attempts env F P p R` — from `P`, `p` ends with `true` in `R` or with `false` in `F`.
* `Env.recording`   — the environment that also keeps the trace so far.
* `Program.lift`    — a program over a smaller set of operations, inside a larger one.
-/

namespace Interact

open Program

variable {Op : Type} {Reply : Op → Type} {ε α β σ : Type}

/-- The answers that are possible in a state, each with the states it may lead to. -/
abbrev Env (Op : Type) (Reply : Op → Type) (σ : Type) : Type :=
  σ → (o : Op) → Reply o → σ → Prop

inductive Path (env : Env Op Reply σ) : σ → List (Event Op Reply) → σ → Prop where
  | nil {s : σ} : Path env s [] s
  | cons {s s1 s2 : σ} {o : Op} {r : Reply o} {trace : List (Event Op Reply)}
      (step : env s o r s1) (rest : Path env s1 trace s2) : Path env s (⟨o, r⟩ :: trace) s2

section Path

variable {env : Env Op Reply σ}

theorem path_nil_iff {s s' : σ} : Path env s [] s' ↔ s' = s := by
  constructor
  · rintro ⟨⟩
    rfl
  · rintro rfl
    exact .nil

theorem path_cons_iff {s s' : σ} {o : Op} {r : Reply o} {trace : List (Event Op Reply)} :
    Path env s (⟨o, r⟩ :: trace) s' ↔ ∃ m, env s o r m ∧ Path env m trace s' := by
  constructor
  · rintro (_ | ⟨step, rest⟩)
    exact ⟨_, step, rest⟩
  · rintro ⟨m, step, rest⟩
    exact .cons step rest

theorem path_append_iff {s s' : σ} {t1 t2 : List (Event Op Reply)} :
    Path env s (t1 ++ t2) s' ↔ ∃ m, Path env s t1 m ∧ Path env m t2 s' := by
  induction t1 generalizing s with
  | nil => simp [path_nil_iff]
  | cons e t1 ih =>
    obtain ⟨o, r⟩ := e
    rw [List.cons_append, path_cons_iff]
    constructor
    · rintro ⟨m, step, rest⟩
      obtain ⟨m', h1, h2⟩ := ih.mp rest
      exact ⟨m', .cons step h1, h2⟩
    · rintro ⟨m', h1, h2⟩
      obtain ⟨m, step, h1⟩ := path_cons_iff.mp h1
      exact ⟨m, step, ih.mpr ⟨m', h1, h2⟩⟩

/-- What every allowed step keeps, a whole path keeps. -/
theorem Path.invariant {A : Op → Prop} {I : σ → Prop}
    (hstep : ∀ {s o r s'}, A o → env s o r s' → I s → I s') {s s' : σ}
    {trace : List (Event Op Reply)} (h : Path env s trace s') (hA : ∀ e ∈ trace, A e.1)
    (hI : I s) : I s' := by
  induction h with
  | nil => exact hI
  | cons step _ ih =>
    obtain ⟨ho, hrest⟩ := List.forall_mem_cons.mp hA
    exact ih hrest (hstep ho step hI)

/-- Each event of a path is one that the environment can make. -/
theorem Path.forall_mem {P : Event Op Reply → Prop}
    (hstep : ∀ {s o r s'}, env s o r s' → P ⟨o, r⟩) {s s' : σ} {trace : List (Event Op Reply)}
    (h : Path env s trace s') : ∀ e ∈ trace, P e := by
  induction h with
  | nil => simp
  | cons step _ ih => exact List.forall_mem_cons.mpr ⟨hstep step, ih⟩

/-- The same path in an environment that sees less of the state. -/
theorem Path.map {τ : Type} {env' : Env Op Reply τ} {f : σ → τ}
    (hstep : ∀ {s o r s'}, env s o r s' → env' (f s) o r (f s')) {s s' : σ}
    {trace : List (Event Op Reply)} (h : Path env s trace s') : Path env' (f s) trace (f s') := by
  induction h with
  | nil => exact .nil
  | cons step _ ih => exact .cons (hstep step) ih

/-- A device whose steps are steps of the environment: what it executes is a run there. -/
theorem exec_path {τ : Type} {dev : τ → (o : Op) → Reply o × τ} {state : τ → σ}
    (hstep : ∀ s o, env (state s) o (dev s o).1 (state (dev s o).2)) {p : Program Op Reply ε α}
    {s : τ} :
    ∃ trace, Runs p trace (exec dev p s).1 ∧ Path env (state s) trace (state (exec dev p s).2) := by
  induction p generalizing s with
  | pure a => exact ⟨[], .pure, .nil⟩
  | throw e => exact ⟨[], .throw, .nil⟩
  | op o k ih =>
    obtain ⟨trace, run, path⟩ := @ih (dev s o).1 (dev s o).2
    exact ⟨⟨o, (dev s o).1⟩ :: trace, .op run, .cons (hstep s o) path⟩

end Path

/-! ## Weakest preconditions -/

def Wp (env : Env Op Reply σ) (may : σ → Op → Prop) :
    Program Op Reply ε α → (Except ε α → σ → Prop) → σ → Prop
  | .pure a, Q, s => Q (.ok a) s
  | .throw e, Q, s => Q (.error e) s
  | .op o k, Q, s => may s o ∧ ∀ r s', env s o r s' → Wp env may (k r) Q s'

/-- Ends with a value in `Q`. -/
def Gives (Q : α → σ → Prop) : Except ε α → σ → Prop
  | .ok a, s => Q a s
  | .error _, _ => False

section Wp

variable {env : Env Op Reply σ} {may : σ → Op → Prop}

/-- Along a run each operation is allowed at its moment, and the end is as promised. -/
theorem Wp.sound {p : Program Op Reply ε α} {Q : Except ε α → σ → Prop} {s s' : σ}
    {trace : List (Event Op Reply)} {out : Except ε α} (h : Wp env may p Q s)
    (run : Runs p trace out) (path : Path env s trace s') :
    (∀ {pre o r post}, trace = pre ++ ⟨o, r⟩ :: post → ∃ m, Path env s pre m ∧ may m o) ∧
      Q out s' := by
  induction run generalizing s with
  | pure =>
    cases path
    exact ⟨fun hsplit => by simp at hsplit, h⟩
  | throw =>
    cases path
    exact ⟨fun hsplit => by simp at hsplit, h⟩
  | op _ ih =>
    obtain ⟨m, step, rest⟩ := path_cons_iff.mp path
    obtain ⟨hmay, hout⟩ := ih (h.2 _ _ step) rest
    refine ⟨fun {pre o r post} hsplit => ?_, hout⟩
    cases pre with
    | nil =>
      cases hsplit
      exact ⟨s, .nil, h.1⟩
    | cons e pre =>
      rw [List.cons_append, List.cons.injEq] at hsplit
      obtain ⟨rfl, hsplit⟩ := hsplit
      obtain ⟨m', hpre, hm'⟩ := hmay hsplit
      exact ⟨m', .cons step hpre, hm'⟩

theorem wp_mono {p : Program Op Reply ε α} {Q Q' : Except ε α → σ → Prop} {s : σ}
    (h : Wp env may p Q s) (hQ : ∀ out s', Q out s' → Q' out s') : Wp env may p Q' s := by
  induction p generalizing s with
  | pure a => exact hQ _ _ h
  | throw e => exact hQ _ _ h
  | op o k ih => exact ⟨h.1, fun r s' step => ih r (h.2 r s' step)⟩

theorem wp_gives_mono {p : Program Op Reply ε α} {Q Q' : α → σ → Prop} {s : σ}
    (h : Wp env may p (Gives Q) s) (hQ : ∀ a s', Q a s' → Q' a s') :
    Wp env may p (Gives Q') s := by
  refine wp_mono h fun out s' hout => ?_
  cases out with
  | ok a => exact hQ a s' hout
  | error e => exact hout

/-- Two specifications of one program hold together. -/
theorem wp_and {may' : σ → Op → Prop} {p : Program Op Reply ε α} {Q Q' : Except ε α → σ → Prop}
    {s : σ} (h : Wp env may p Q s) (h' : Wp env may' p Q' s) :
    Wp env may p (fun out s' => Q out s' ∧ Q' out s') s := by
  induction p generalizing s with
  | pure a => exact ⟨h, h'⟩
  | throw e => exact ⟨h, h'⟩
  | op o k ih => exact ⟨h.1, fun r s' step => ih r (h.2 r s' step) (h'.2 r s' step)⟩

theorem wp_gives_and {may' : σ → Op → Prop} {p : Program Op Reply ε α} {Q Q' : α → σ → Prop} {s : σ}
    (h : Wp env may p (Gives Q) s) (h' : Wp env may' p (Gives Q') s) :
    Wp env may p (Gives fun a s' => Q a s' ∧ Q' a s') s := by
  refine wp_mono (wp_and h h') fun out s' hout => ?_
  cases out with
  | ok a => exact hout
  | error e => exact hout.1

/-- What a program asks may be allowed for a reason of its own. -/
theorem Always.wp_may {A : Op → Prop} {R : Except ε α → Prop} {may' : σ → Op → Prop}
    {p : Program Op Reply ε α} {Q : Except ε α → σ → Prop} {s : σ} (hA : Always A R p)
    (hmay : ∀ s o, A o → may' s o) (h : Wp env may p Q s) : Wp env may' p Q s := by
  induction p generalizing s with
  | pure a => exact h
  | throw e => exact h
  | op o k ih => exact ⟨hmay s o hA.1, fun r s' step => ih r (hA.2 r) (h.2 r s' step)⟩

theorem wp_ask {o : Op} {Q : Except ε (Reply o) → σ → Prop} {s : σ} (hmay : may s o)
    (h : ∀ r s', env s o r s' → Q (.ok r) s') :
    Wp env may (ask o : Program Op Reply ε (Reply o)) Q s :=
  And.intro hmay h

theorem wp_bind {p : Program Op Reply ε α} {f : α → Program Op Reply ε β} {Q : α → σ → Prop}
    {R : Except ε β → σ → Prop} {s : σ} (hp : Wp env may p (Gives Q) s)
    (hf : ∀ a s', Q a s' → Wp env may (f a) R s') : Wp env may (p >>= f) R s := by
  induction p generalizing s with
  | pure a => exact hf a s hp
  | throw e => exact hp.elim
  | op o k ih => exact ⟨hp.1, fun r s' step => ih r (hp.2 r s' step)⟩

/-- `wp_bind` for a first part that may end with an error. -/
theorem wp_bind_anyhow {p : Program Op Reply ε α} {f : α → Program Op Reply ε β}
    {Q : Except ε α → σ → Prop} {R : Except ε β → σ → Prop} {s : σ} (hp : Wp env may p Q s)
    (hok : ∀ a s', Q (.ok a) s' → Wp env may (f a) R s')
    (herr : ∀ e s', Q (.error e) s' → R (.error e) s') : Wp env may (p >>= f) R s := by
  induction p generalizing s with
  | pure a => exact hok a s hp
  | throw e => exact herr e s hp
  | op o k ih => exact ⟨hp.1, fun r s' step => ih r (hp.2 r s' step)⟩

theorem wp_both {p q : Program Op Reply ε Bool} {Q : Bool → σ → Prop}
    {R : Except ε Bool → σ → Prop} {s : σ} (hp : Wp env may p (Gives Q) s)
    (hq : ∀ s', Q true s' → Wp env may q R s') (hno : ∀ s', Q false s' → R (.ok false) s') :
    Wp env may (p.both q) R s := by
  refine wp_bind hp fun ok s' h => ?_
  cases ok with
  | true => exact hq s' h
  | false => exact hno s' h

/-- A program that asks only `A` keeps what the operations in `A` keep. -/
theorem Always.wp {A : Op → Prop} {I : σ → Prop} {Q : Except ε α → Prop}
    {p : Program Op Reply ε α} {s : σ} (h : Always A Q p)
    (hmay : ∀ s o, I s → A o → may s o)
    (hstep : ∀ {s o r s'}, A o → env s o r s' → I s → I s') (hI : I s) :
    Wp env may p (fun out s' => Q out ∧ I s') s := by
  induction p generalizing s with
  | pure a => exact ⟨h, hI⟩
  | throw e => exact ⟨h, hI⟩
  | op o k ih => exact ⟨hmay s o hI h.1, fun r s' step => ih r (h.2 r) (hstep h.1 step hI)⟩

end Wp

/-! ## Devices -/

/-- The environment that is one device. -/
def deviceEnv (dev : σ → (o : Op) → Reply o × σ) : Env Op Reply σ :=
  fun s o r s' => dev s o = (r, s')

section Device

variable {dev : σ → (o : Op) → Reply o × σ}

/-- On a device a specification is about the one run there is. -/
theorem wp_device_iff {p : Program Op Reply ε α} {Q : Except ε α → σ → Prop} {s : σ} :
    Wp (deviceEnv dev) (fun _ _ => True) p Q s ↔ Q (exec dev p s).1 (exec dev p s).2 := by
  induction p generalizing s with
  | pure a => exact Iff.rfl
  | throw e => exact Iff.rfl
  | op o k ih =>
    rw [exec, ← ih]
    constructor
    · exact fun h => h.2 _ _ rfl
    · refine fun h => And.intro trivial fun r s' hstep => ?_
      rw [show dev s o = (r, s') from hstep] at h
      exact h

theorem exec_runs {p : Program Op Reply ε α} {s : σ} :
    ∃ trace, Runs p trace (exec dev p s).1 ∧ Path (deviceEnv dev) s trace (exec dev p s).2 := by
  have hstep : ∀ s o, deviceEnv dev (id s) o (dev s o).1 (id (dev s o).2) := fun _ _ => rfl
  exact exec_path hstep

/-- The device answers in one way, so a run that it takes part in is the one it executes. -/
theorem exec_of_path {p : Program Op Reply ε α} {s s' : σ} {trace : List (Event Op Reply)}
    {out : Except ε α} (run : Runs p trace out) (path : Path (deviceEnv dev) s trace s') :
    exec dev p s = (out, s') := by
  induction run generalizing s with
  | pure =>
    obtain rfl := path_nil_iff.mp path
    rfl
  | throw =>
    obtain rfl := path_nil_iff.mp path
    rfl
  | op _ ih =>
    obtain ⟨m, hstep, rest⟩ := path_cons_iff.mp path
    rw [exec, show dev s _ = (_, m) from hstep]
    exact ih rest

end Device

/-! ## Attempts -/

/-- From `P` the program ends with `true` in `R`, or with `false` in `F`. -/
def Attempts (env : Env Op Reply σ) (F P : σ → Prop) (p : Program Op Reply ε Bool)
    (R : σ → Prop) : Prop :=
  ∀ s, P s → Wp env (fun _ _ => True) p
    (Gives fun ok s' => (ok = true → R s') ∧ (ok = false → F s')) s

namespace Attempts

variable {env : Env Op Reply σ} {F P R T : σ → Prop} {p q : Program Op Reply ε Bool}

theorem mono (h : Attempts env F P p R) (hR : ∀ s, R s → T s) : Attempts env F P p T :=
  fun s hs => wp_gives_mono (h s hs) fun _ s' hok => ⟨fun htrue => hR s' (hok.1 htrue), hok.2⟩

theorem pre {P' : σ → Prop} (h : Attempts env F P p R) (hP : ∀ s, P' s → P s) :
    Attempts env F P' p R := fun s hs => h s (hP s hs)

theorem skip : Attempts env F P (.pure true : Program Op Reply ε Bool) P := by
  intro s hs
  exact And.intro (fun _ => hs) fun hno => absurd hno.symm Bool.false_ne_true

theorem both (hp : Attempts env F P p R) (hq : Attempts env F R q T) :
    Attempts env F P (p.both q) T := by
  intro s hs
  refine wp_both (hp s hs) (fun s' h => hq s' (h.1 rfl)) fun s' h => ?_
  exact And.intro (fun hno => absurd hno Bool.false_ne_true) fun _ => h.2 rfl

/-- A list of attempts, each of which carries the invariant on. -/
theorem allOf_map {ι τ : Type} {step : ι → Program Op Reply ε Bool} {effect : τ → ι → τ}
    {I : τ → σ → Prop} {items : List ι}
    (h : ∀ i ∈ items, ∀ t, Attempts env F (I t) (step i) (I (effect t i))) (t : τ) :
    Attempts env F (I t) (allOf (items.map step)) (I (items.foldl effect t)) := by
  induction items generalizing t with
  | nil => exact skip
  | cons i items ih =>
    obtain ⟨hi, hitems⟩ := List.forall_mem_cons.mp h
    exact (hi t).both (ih hitems (effect t i))

end Attempts

/-! ## Keeping the trace -/

/-- The same environment, with the trace so far as part of its state. -/
def Env.recording (env : Env Op Reply σ) : Env Op Reply (σ × List (Event Op Reply)) :=
  fun s o r s' => env s.1 o r s'.1 ∧ s'.2 = s.2 ++ [⟨o, r⟩]

theorem path_recording_iff {env : Env Op Reply σ} {s s' : σ × List (Event Op Reply)}
    {trace : List (Event Op Reply)} :
    Path env.recording s trace s' ↔ Path env s.1 trace s'.1 ∧ s'.2 = s.2 ++ trace := by
  induction trace generalizing s with
  | nil =>
    rw [path_nil_iff, path_nil_iff, List.append_nil]
    exact Prod.ext_iff
  | cons e trace ih =>
    obtain ⟨o, r⟩ := e
    simp only [path_cons_iff, ih, Env.recording]
    constructor
    · rintro ⟨m, ⟨step, hm⟩, rest, hs'⟩
      exact ⟨⟨m.1, step, rest⟩, by rw [hs', hm, List.append_assoc]; rfl⟩
    · rintro ⟨⟨m, step, rest⟩, hs'⟩
      exact ⟨(m, s.2 ++ [⟨o, r⟩]), ⟨step, rfl⟩, rest, by rw [hs', List.append_assoc]; rfl⟩

/-- Whatever a program asks, the trace only grows. -/
theorem Always.wp_grown {env : Env Op Reply σ} {A : Op → Prop} {p : Program Op Reply ε α} {s : σ}
    {h : List (Event Op Reply)} {may : σ × List (Event Op Reply) → Op → Prop}
    (hA : Always A Returns p) (hmay : ∀ s o, A o → may s o) :
    Wp env.recording may p (Gives fun _ s' => ∃ t, s'.2 = h ++ t) (s, h) := by
  refine wp_mono (hA.wp (I := fun s' => ∃ t, s'.2 = h ++ t) (fun s o _ => hmay s o) ?_
    ⟨[], (List.append_nil h).symm⟩) ?_
  · rintro s1 o r s2 _ ⟨_, hs2⟩ ⟨t, hs1⟩
    exact ⟨t ++ [⟨o, r⟩], by rw [hs2, hs1, List.append_assoc]⟩
  · intro out s' hout
    cases out with
    | ok a => exact hout.2
    | error e => exact hout.1.elim

/-- A program that asks only `A` adds a run of its own to the trace. -/
theorem Always.wp_runs {env : Env Op Reply σ} {A : Op → Prop} {Q : Except ε α → Prop}
    {p : Program Op Reply ε α} {s : σ} {h : List (Event Op Reply)}
    {may : σ × List (Event Op Reply) → Op → Prop} (hA : Always A Q p)
    (hmay : ∀ s t o, A o → may (s, h ++ t) o) :
    Wp env.recording may p (fun out s' => ∃ t, s'.2 = h ++ t ∧ Runs p t out) (s, h) := by
  induction p generalizing s h with
  | pure a => exact ⟨[], (List.append_nil h).symm, .pure⟩
  | throw e => exact ⟨[], (List.append_nil h).symm, .throw⟩
  | op o k ih =>
    refine And.intro (by simpa using hmay s [] o hA.1) fun r s' step => ?_
    have hstep := @ih r s'.1 (h ++ [⟨o, r⟩]) (hA.2 r) fun s t o ho => by
      rw [List.append_assoc]
      exact hmay s _ o ho
    rw [← step.2] at hstep
    refine wp_mono hstep ?_
    rintro out s2 ⟨t, hs2, run⟩
    exact ⟨⟨o, r⟩ :: t, by rw [hs2, step.2, List.append_assoc]; rfl, .op run⟩

/-- `Wp.sound`, with the operation before which the trace so far was `pre`. -/
theorem Wp.sound_recording {env : Env Op Reply σ}
    {may : σ × List (Event Op Reply) → Op → Prop} {p : Program Op Reply ε α}
    {Q : Except ε α → σ × List (Event Op Reply) → Prop} {s s' : σ}
    {trace : List (Event Op Reply)} {out : Except ε α} (h : Wp env.recording may p Q (s, []))
    (run : Runs p trace out) (path : Path env s trace s') :
    (∀ {pre o r post}, trace = pre ++ ⟨o, r⟩ :: post →
      ∃ m, Path env s pre m ∧ may (m, pre) o) ∧ Q out (s', trace) := by
  have hpath : Path env.recording (s, []) trace (s', trace) :=
    path_recording_iff.mpr ⟨path, rfl⟩
  obtain ⟨hmay, hout⟩ := h.sound run hpath
  refine ⟨fun {pre o r post} hsplit => ?_, hout⟩
  obtain ⟨⟨m, hist⟩, hpre, hm⟩ := hmay hsplit
  obtain ⟨hpath, rfl⟩ := path_recording_iff.mp hpre
  exact ⟨m, hpath, hm⟩

/-! ## Lifting -/

section Lift

variable {Op' : Type} {Reply' : Op' → Type} (inj : Op → Op')

def Program.lift : Program Op (fun o => Reply' (inj o)) ε α → Program Op' Reply' ε α
  | .pure a => .pure a
  | .throw e => .throw e
  | .op o k => .op (inj o) fun r => (k r).lift

def liftEvent (e : Event Op fun o => Reply' (inj o)) : Event Op' Reply' := ⟨inj e.1, e.2⟩

variable {inj}

theorem runs_lift_iff {p : Program Op (fun o => Reply' (inj o)) ε α}
    {trace : List (Event Op' Reply')} {out : Except ε α} :
    Runs (p.lift inj) trace out ↔ ∃ t, trace = t.map (liftEvent inj) ∧ Runs p t out := by
  induction p generalizing trace with
  | pure a =>
    constructor
    · intro h
      obtain ⟨rfl, rfl⟩ := runs_pure_iff.mp h
      exact ⟨[], rfl, .pure⟩
    · rintro ⟨t, rfl, h⟩
      obtain ⟨rfl, rfl⟩ := runs_pure_iff.mp h
      exact .pure
  | throw e =>
    constructor
    · intro h
      obtain ⟨rfl, rfl⟩ := runs_throw_iff.mp h
      exact ⟨[], rfl, .throw⟩
    · rintro ⟨t, rfl, h⟩
      obtain ⟨rfl, rfl⟩ := runs_throw_iff.mp h
      exact .throw
  | op o k ih =>
    constructor
    · intro h
      obtain ⟨r, rest, rfl, run⟩ := runs_op_iff.mp h
      obtain ⟨t, rfl, ht⟩ := (ih r).mp run
      exact ⟨⟨o, r⟩ :: t, rfl, .op ht⟩
    · rintro ⟨t, rfl, h⟩
      obtain ⟨r, rest, rfl, run⟩ := runs_op_iff.mp h
      exact .op ((ih r).mpr ⟨rest, rfl, run⟩)

theorem always_lift {A : Op' → Prop} {Q : Except ε α → Prop}
    {p : Program Op (fun o => Reply' (inj o)) ε α} (h : Always (fun o => A (inj o)) Q p) :
    Always A Q (p.lift inj) := by
  induction p with
  | pure a => exact h
  | throw e => exact h
  | op o k ih => exact ⟨h.1, fun r => ih r (h.2 r)⟩

end Lift

end Interact
