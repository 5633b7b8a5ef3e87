import Mathlib

/-! Runs of a state machine, as left folds of a total step function over the list of events.

    `Always step ok s es` says that every event of the run meets `ok` in the state it is taken from. Three rules carry
    every safety result of the project: an invariant kept by the steps that meet `ok` holds after the run (`inv_run`), a
    per-step property that follows from the invariant holds all along it (`always_of_inv`), and where the two are
    equivalent step by step they are equivalent as properties of whole runs (`always_iff`). -/

namespace Honey.Schemes

variable {σ ε : Type*} {step : σ → ε → σ} {ok good : σ → ε → Prop} {Inv : σ → Prop}

/-- Every event of the run from `s` meets `ok` in the state it is taken from. -/
def Always (step : σ → ε → σ) (ok : σ → ε → Prop) : σ → List ε → Prop
  | _, [] => True
  | s, e :: es => ok s e ∧ Always step ok (step s e) es

@[simp] theorem always_nil (s : σ) : Always step ok s [] := trivial

@[simp] theorem always_cons (s : σ) (e : ε) (es : List ε) :
    Always step ok s (e :: es) ↔ ok s e ∧ Always step ok (step s e) es := Iff.rfl

theorem always_append : ∀ (es fs : List ε) (s : σ),
    Always step ok s (es ++ fs) ↔ Always step ok s es ∧ Always step ok (es.foldl step s) fs
  | [], fs, s => by simp
  | e :: es, fs, s => by
    simp only [List.cons_append, always_cons, List.foldl_cons, always_append es fs (step s e), and_assoc]

theorem always_and : ∀ (es : List ε) (s : σ),
    Always step (fun s e => ok s e ∧ good s e) s es ↔ Always step ok s es ∧ Always step good s es
  | [], _ => by simp
  | e :: es, s => by
    simp only [always_cons, always_and es (step s e)]
    tauto

/-- `Always` read at the prefixes of the run: `ok` holds in every state reached, for the event taken there. -/
theorem always_iff_prefixes (s : σ) (es : List ε) :
    Always step ok s es ↔ ∀ pre e suf, es = pre ++ e :: suf → ok (pre.foldl step s) e := by
  constructor
  · rintro h pre e suf rfl
    rw [always_append] at h
    exact h.2.1
  · induction es generalizing s with
    | nil => intro _; trivial
    | cons e es ih =>
      intro h
      refine ⟨h [] e es rfl, ih _ ?_⟩
      intro pre e' suf hes
      exact h (e :: pre) e' suf (by rw [hes, List.cons_append])

/-- An invariant kept by every step that meets `ok` holds at the end of a run that meets it. -/
theorem inv_run (hstep : ∀ s e, Inv s → ok s e → Inv (step s e)) :
    ∀ (es : List ε) (s : σ), Inv s → Always step ok s es → Inv (es.foldl step s)
  | [], _, hs, _ => hs
  | e :: es, s, hs, h => inv_run hstep es (step s e) (hstep s e hs h.1) h.2

theorem inv_foldl (hstep : ∀ s e, Inv s → Inv (step s e)) (es : List ε) (s : σ) (hs : Inv s) : Inv (es.foldl step s) :=
  List.foldlRecOn es step hs fun s hs e _ => hstep s e hs

/-- What each step guarantees under the invariant is guaranteed all along the run. -/
theorem always_of_inv (hstep : ∀ s e, Inv s → ok s e → Inv (step s e)) (hgood : ∀ s e, Inv s → ok s e → good s e) :
    ∀ (es : List ε) (s : σ), Inv s → Always step ok s es → Always step good s es
  | [], _, _, _ => trivial
  | e :: es, s, hs, h =>
    ⟨hgood s e hs h.1, always_of_inv hstep hgood es (step s e) (hstep s e hs h.1) h.2⟩

/-- Two per-step properties that are equivalent under an invariant which they keep are equivalent as
    properties of runs. -/
theorem always_iff (hstep : ∀ s e, Inv s → ok s e → Inv (step s e)) (hiff : ∀ s e, Inv s → (good s e ↔ ok s e)) :
    ∀ (es : List ε) (s : σ), Inv s → (Always step good s es ↔ Always step ok s es)
  | [], _, _ => Iff.rfl
  | e :: es, s, hs => by
    rw [always_cons, hiff s e hs]
    refine and_congr_right fun h => ?_
    exact always_iff hstep hiff es (step s e) (hstep s e hs h)

end Honey.Schemes
