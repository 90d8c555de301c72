import Ezfadvance.Lib.Environment

/-!
# Lib.Implement

Programs whose operations are carried out by programs over other operations, and a last action that is
taken however a program ends.

* `Program.implement`  — each operation replaced by the program that carries it out.
* `Carries`            — the traces of the two levels: each event with a run that answers it.
* `runs_implement_iff` — a run below is a run above whose events are carried.
* `Program.finallyDo`  — the last action: `runs_finallyDo_iff`, `wp_finallyDo`.
-/

namespace Interact

open Program

variable {Op Op' : Type} {Reply : Op → Type} {Reply' : Op' → Type} {ε α σ : Type}

/-! ## Implementations -/

def Program.implement (handle : (o : Op) → Program Op' Reply' ε (Reply o)) :
    Program Op Reply ε α → Program Op' Reply' ε α
  | .pure a => .pure a
  | .throw e => .throw e
  | .op o k => handle o >>= fun r => (k r).implement handle

/-- The events of the first trace, one after the other, are answered by the runs that make up the
second. -/
inductive Carries (handle : (o : Op) → Program Op' Reply' ε (Reply o)) :
    List (Event Op Reply) → List (Event Op' Reply') → Prop where
  | nil : Carries handle [] []
  | cons {o : Op} {r : Reply o} {trace : List (Event Op Reply)} {part rest : List (Event Op' Reply')}
      (answered : Runs (handle o) part (.ok r)) (carries : Carries handle trace rest) :
      Carries handle (⟨o, r⟩ :: trace) (part ++ rest)

section Implement

variable {handle : (o : Op) → Program Op' Reply' ε (Reply o)} {A : Op → Prop} {B : Op' → Prop}

/-- What answers every event, answers those of a trace. -/
theorem Carries.forall_mem {P : Event Op Reply → Prop}
    (hP : ∀ {o r part}, Runs (handle o) part (.ok r) → P ⟨o, r⟩) {trace : List (Event Op Reply)}
    {below : List (Event Op' Reply')} (h : Carries handle trace below) : ∀ e ∈ trace, P e := by
  induction h with
  | nil => simp
  | cons answered _ ih => exact List.forall_mem_cons.mpr ⟨hP answered, ih⟩

/-- A run of a program whose operations never throw is a run of the program above. -/
theorem runs_implement_iff (hreturns : ∀ o, Always B Returns (handle o))
    {p : Program Op Reply ε α} {below : List (Event Op' Reply')} {out : Except ε α} :
    Runs (p.implement handle) below out ↔ ∃ trace, Runs p trace out ∧ Carries handle trace below := by
  induction p generalizing below with
  | pure a =>
    constructor
    · intro h
      obtain ⟨rfl, rfl⟩ := runs_pure_iff.mp h
      exact ⟨[], .pure, .nil⟩
    · rintro ⟨trace, h, hcarries⟩
      obtain ⟨rfl, rfl⟩ := runs_pure_iff.mp h
      cases hcarries
      exact .pure
  | throw e =>
    constructor
    · intro h
      obtain ⟨rfl, rfl⟩ := runs_throw_iff.mp h
      exact ⟨[], .throw, .nil⟩
    · rintro ⟨trace, h, hcarries⟩
      obtain ⟨rfl, rfl⟩ := runs_throw_iff.mp h
      cases hcarries
      exact .throw
  | op o k ih =>
    constructor
    · intro h
      obtain ⟨e, herr, _⟩ | ⟨r, part, rest, rfl, hanswer, hrest⟩ := runs_bind_iff.mp h
      · exact ((hreturns o).run herr).2.elim
      · obtain ⟨trace, hrun, hcarries⟩ := (ih r).mp hrest
        exact ⟨⟨o, r⟩ :: trace, .op hrun, .cons hanswer hcarries⟩
    · rintro ⟨trace, h, hcarries⟩
      obtain ⟨r, rest, rfl, hrun⟩ := runs_op_iff.mp h
      cases hcarries with
      | cons answered carries => exact answered.bind ((ih r).mpr ⟨rest, hrun, carries⟩)

/-- A program above that asks only `A` asks only `B` below, if the implementations of `A` do. -/
theorem Always.implement (hhandle : ∀ o, A o → Always B Returns (handle o)) {Q : Except ε α → Prop}
    {p : Program Op Reply ε α} (h : Always A Q p) : Always B Q (p.implement handle) := by
  induction p with
  | pure a => exact h
  | throw e => exact h
  | op o k ih => exact (hhandle o h.1).bind (fun r _ => ih r (h.2 r)) fun _ hno => hno.elim

end Implement

/-! ## A last action -/

/-- `p`, then `last`, whether `p` ends with a value or with an error. -/
def Program.finallyDo :
    Program Op Reply ε α → Program Op Reply ε Unit → Program Op Reply ε α
  | .pure a, last => last >>= fun _ => .pure a
  | .throw e, last => last >>= fun _ => .throw e
  | .op o k, last => .op o fun r => (k r).finallyDo last

section Finally

variable {last : Program Op Reply ε Unit} {p : Program Op Reply ε α} {A : Op → Prop}

theorem runs_finallyDo_iff (hreturns : Always A Returns last) {trace : List (Event Op Reply)}
    {out : Except ε α} :
    Runs (p.finallyDo last) trace out ↔
      ∃ t1 t2, trace = t1 ++ t2 ∧ Runs p t1 out ∧ Runs last t2 (.ok ()) := by
  induction p generalizing trace with
  | pure a =>
    constructor
    · intro h
      obtain ⟨e, herr, _⟩ | ⟨_, t1, t2, rfl, hlast, hend⟩ := runs_bind_iff.mp h
      · exact (hreturns.run herr).2.elim
      · obtain ⟨rfl, rfl⟩ := runs_pure_iff.mp hend
        exact ⟨[], t1, by rw [List.append_nil, List.nil_append], .pure, hlast⟩
    · rintro ⟨t1, t2, rfl, h, hlast⟩
      obtain ⟨rfl, rfl⟩ := runs_pure_iff.mp h
      have := hlast.bind (f := fun _ => .pure a) .pure
      rwa [List.append_nil] at this
  | throw e =>
    constructor
    · intro h
      obtain ⟨e', herr, _⟩ | ⟨_, t1, t2, rfl, hlast, hend⟩ := runs_bind_iff.mp h
      · exact (hreturns.run herr).2.elim
      · obtain ⟨rfl, rfl⟩ := runs_throw_iff.mp hend
        exact ⟨[], t1, by rw [List.append_nil, List.nil_append], .throw, hlast⟩
    · rintro ⟨t1, t2, rfl, h, hlast⟩
      obtain ⟨rfl, rfl⟩ := runs_throw_iff.mp h
      have := hlast.bind (f := fun _ => (.throw e : Program Op Reply ε α)) .throw
      rwa [List.append_nil] at this
  | op o k ih =>
    constructor
    · intro h
      obtain ⟨r, rest, rfl, hrun⟩ := runs_op_iff.mp h
      obtain ⟨t1, t2, rfl, hk, hlast⟩ := (ih r).mp hrun
      exact ⟨⟨o, r⟩ :: t1, t2, rfl, .op hk, hlast⟩
    · rintro ⟨t1, t2, rfl, h, hlast⟩
      obtain ⟨r, rest, rfl, hrun⟩ := runs_op_iff.mp h
      exact .op ((ih r).mpr ⟨rest, t2, rfl, hrun, hlast⟩)

/-- What the program leaves, the last action brings to the end. -/
theorem wp_finallyDo {env : Env Op Reply σ} {may : σ → Op → Prop} {R : Except ε α → σ → Prop}
    {Q : Except ε α → σ → Prop} {s : σ} (hp : Wp env may p R s)
    (hlast : ∀ out s', R out s' → Wp env may last (Gives fun _ => Q out) s') :
    Wp env may (p.finallyDo last) Q s := by
  induction p generalizing s with
  | pure a => exact wp_bind (hlast _ _ hp) fun _ _ h => h
  | throw e => exact wp_bind (hlast _ _ hp) fun _ _ h => h
  | op o k ih => exact ⟨hp.1, fun r s' hstep => ih r (hp.2 r s' hstep)⟩

end Finally

end Interact
