import Mathlib.Init

/-! # Computations with a state and an early exit

    `EStateM ε σ` runs a computation that may stop with an error and keeps the
    state it had then.  Two facts about a sequence of such computations carry
    the proofs that use them: it succeeds exactly when each part does, one
    after the other (`bind_ok_iff`), and it leaves alone whatever each part
    leaves alone (`Keeps.bind`). -/

namespace ErrorState

variable {ε σ α β γ : Type}

/-- The state at the end, also after an error. -/
def final : EStateM.Result ε σ α → σ
  | .ok _ s => s
  | .error _ s => s

@[simp] theorem final_ok (a : α) (s : σ) :
    final (.ok a s : EStateM.Result ε σ α) = s := rfl

@[simp] theorem final_error (e : ε) (s : σ) :
    final (.error e s : EStateM.Result ε σ α) = s := rfl

/-- **SUCCESS OF A SEQUENCE**: both parts succeed, in this order. -/
theorem bind_ok_iff {x : EStateM ε σ α} {f : α → EStateM ε σ β} {s t : σ}
    {b : β} :
    (x >>= f) s = .ok b t ↔ ∃ a s', x s = .ok a s' ∧ f a s' = .ok b t := by
  show (EStateM.bind x f s = _) ↔ _
  cases hx : x s with
  | ok a s' =>
      simp only [EStateM.bind, hx]
      refine ⟨fun h => ⟨a, s', rfl, h⟩, ?_⟩
      rintro ⟨a', s'', heq, h⟩
      obtain ⟨rfl, rfl⟩ := EStateM.Result.ok.inj heq
      exact h
  | error e s' =>
      simp only [EStateM.bind, hx]
      refine iff_of_false (fun h => nomatch h) ?_
      rintro ⟨a', s'', heq, -⟩
      cases heq

/-- A sequence whose first part succeeds goes on with the second. -/
theorem bind_of_ok {x : EStateM ε σ α} (f : α → EStateM ε σ β) {s s' : σ}
    {a : α} (h : x s = .ok a s') : (x >>= f) s = f a s' := by
  show EStateM.bind x f s = _
  simp only [EStateM.bind, h]

/-- A sequence whose first part stops, stops there. -/
theorem bind_of_error {x : EStateM ε σ α} (f : α → EStateM ε σ β) {s s' : σ}
    {e : ε} (h : x s = .error e s') : (x >>= f) s = .error e s' := by
  show EStateM.bind x f s = _
  simp only [EStateM.bind, h]

/-- The computation leaves a part of the state alone. -/
def Keeps (g : σ → γ) (x : EStateM ε σ α) : Prop :=
  ∀ s, g (final (x s)) = g s

/-- What the second part leaves alone is as the first part left it. -/
theorem final_bind {g : σ → γ} {x : EStateM ε σ α} {f : α → EStateM ε σ β}
    (hf : ∀ a, Keeps g (f a)) (s : σ) :
    g (final ((x >>= f) s)) = g (final (x s)) := by
  cases h : x s with
  | ok a s' =>
      rw [bind_of_ok f h]
      exact hf a s'
  | error e s' => rw [bind_of_error f h, final_error, final_error]

theorem Keeps.bind {g : σ → γ} {x : EStateM ε σ α} {f : α → EStateM ε σ β}
    (hx : Keeps g x) (hf : ∀ a, Keeps g (f a)) : Keeps g (x >>= f) :=
  fun s => (final_bind hf s).trans (hx s)

theorem keeps_pure (g : σ → γ) (a : α) :
    Keeps g (pure a : EStateM ε σ α) :=
  fun _ => rfl

theorem keeps_throw (g : σ → γ) (e : ε) :
    Keeps g (throw e : EStateM ε σ α) :=
  fun _ => rfl

end ErrorState
