import Mathlib

/-! Programs over the operations of a machine that may go down between any two of them.

        p -- op --> answer -- op --> answer -- … --> value
              |                |
              +-- no turn left: the machine went down here, with the state it had

    A `Prog` is what is done next after every answer. `exec` runs one against the turns of the world, one for each
    operation, and stops where they end. `wp` is the weakest precondition with a condition that has to hold wherever the
    machine may go down. -/

namespace Honey.Schemes

/-- A program over the operations `Op` with answers `Ans`. -/
inductive Prog (Op : Type) (Ans : Op → Type) (α : Type) where
  | done (a : α)
  | call (o : Op) (next : Ans o → Prog Op Ans α)

namespace Prog

variable {Op : Type} {Ans : Op → Type} {α β ε : Type}

def bind : Prog Op Ans α → (α → Prog Op Ans β) → Prog Op Ans β
  | done a, f => f a
  | call o next, f => call o fun x => (next x).bind f

instance : Monad (Prog Op Ans) where
  pure := done
  bind := bind

/-- One operation. -/
def perform (o : Op) : Prog Op Ans (Ans o) := call o done

variable {σ τ : Type}

/-- The state in which the program ends and its value with the turns that are left, or the state in
    which the turns ran out. -/
def exec (step : (o : Op) → τ → σ → σ × Ans o) : Prog Op Ans α → List τ → σ → σ × Option (α × List τ)
  | done a, ts, s => (s, some (a, ts))
  | call _ _, [], s => (s, none)
  | call o next, t :: ts, s => exec step (next (step o t s).2) ts (step o t s).1

/-- From here the program ends with `post`, and `crash` holds before each of its operations. -/
def wp (step : (o : Op) → τ → σ → σ × Ans o) (crash : σ → Prop) : Prog Op Ans α → (α → σ → Prop) → σ → Prop
  | done a, post, s => post a s
  | call o next, post, s =>
    crash s ∧ ∀ t, wp step crash (next (step o t s).2) post (step o t s).1

section

variable {step : (o : Op) → τ → σ → σ × Ans o} {crash : σ → Prop} {post : α → σ → Prop} {s : σ}

/-! ### Rules -/

theorem wp_perform (o : Op) {post : Ans o → σ → Prop} : wp step crash (perform o) post s ↔
    crash s ∧ ∀ t, post (step o t s).2 (step o t s).1 := Iff.rfl

theorem wp_bind (f : α → Prog Op Ans β) {post : β → σ → Prop} : ∀ (p : Prog Op Ans α) (s : σ),
    wp step crash (p >>= f) post s ↔ wp step crash p (fun a s => wp step crash (f a) post s) s
  | done _, _ => Iff.rfl
  | call o next, s => and_congr_right fun _ => forall_congr' fun t =>
    wp_bind f (next (step o t s).2) (step o t s).1

theorem wp_mono {post' : α → σ → Prop} (h : ∀ a s, post a s → post' a s) :
    ∀ (p : Prog Op Ans α) (s : σ), wp step crash p post s → wp step crash p post' s
  | done a, s, hp => h a s hp
  | call o next, s, hp => ⟨hp.1, fun t => wp_mono h (next (step o t s).2) _ (hp.2 t)⟩

/-- A postcondition of a program that may fail: one for a value and one for an error. -/
def onOk (ok : α → σ → Prop) (error : ε → σ → Prop) : Except ε α → σ → Prop
  | .ok a, s => ok a s
  | .error e, s => error e s

theorem wp_onOk {p : Prog Op Ans (Except ε α)} {ok error : σ → Prop}
    (hp : wp step crash p (fun _ s => ok s) s) (h : ∀ s, ok s → error s) :
    wp step crash p (onOk (fun _ s => ok s) fun _ s => error s) s := by
  refine wp_mono (fun r s hs => ?_) p s hp
  cases r with
  | ok a => exact hs
  | error e => exact h s hs

/-- The rule of sequence: the first part reaches `mid`, or it fails with the postcondition. -/
theorem wp_seq {x : ExceptT ε (Prog Op Ans) α} {f : α → ExceptT ε (Prog Op Ans) β}
    {mid : α → σ → Prop} {post : Except ε β → σ → Prop}
    (hx : wp step crash x.run (onOk mid fun e s => post (.error e) s) s)
    (hf : ∀ a s, mid a s → wp step crash (f a).run post s) : wp step crash (x >>= f).run post s := by
  change wp step crash (x.run >>= _) post s
  rw [wp_bind]
  refine wp_mono (fun r s h => ?_) x.run s hx
  cases r with
  | ok a => exact hf a s h
  | error e => exact h

theorem exec_of_wp : ∀ (p : Prog Op Ans α) (ts : List τ) (s : σ), wp step crash p post s →
    match exec step p ts s with
    | (s', some (a, _)) => post a s'
    | (s', none) => crash s'
  | done _, _, _, h => h
  | call _ _, [], _, h => h.1
  | call o next, t :: ts, s, h => exec_of_wp (next (step o t s).2) ts (step o t s).1 (h.2 t)

end

/-! ### Invariants -/

section

variable (step : (o : Op) → τ → σ → σ × Ans o) (inv : σ → Prop)

/-- The invariant holds wherever the machine may go down in the program, and at its end. -/
def Keeps (p : Prog Op Ans α) : Prop := ∀ s, inv s → wp step inv p (fun _ s => inv s) s

variable {step inv}

theorem keeps_pure (a : α) : Keeps step inv (pure a) := fun _ h => h

theorem keeps_perform {o : Op} (h : ∀ t s, inv s → inv (step o t s).1) :
    Keeps step inv (perform o : Prog Op Ans (Ans o)) := fun s hs => ⟨hs, fun t => h t s hs⟩

theorem keeps_bind {p : Prog Op Ans α} {f : α → Prog Op Ans β} (hp : Keeps step inv p)
    (hf : ∀ a, Keeps step inv (f a)) : Keeps step inv (p >>= f) := by
  intro s hs
  rw [wp_bind]
  exact wp_mono (fun a s h => hf a s h) p s (hp s hs)

theorem keeps_then {x : ExceptT ε (Prog Op Ans) α} {f : α → ExceptT ε (Prog Op Ans) β}
    (hx : Keeps step inv x.run) (hf : ∀ a, Keeps step inv (f a).run) : Keeps step inv (x >>= f).run := by
  intro s hs
  exact wp_seq (wp_onOk (hx s hs) fun _ h => h) fun a s h => hf a s h

theorem keeps_throw (e : ε) : Keeps step inv (throw e : ExceptT ε (Prog Op Ans) α).run := fun _ h => h

end

end Prog

end Honey.Schemes
