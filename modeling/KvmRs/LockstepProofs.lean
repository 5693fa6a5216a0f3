import KvmRs.TransitionProofs

/-! # Two runs in lockstep

    Two runs of one system side by side: a pair of states, and a list of pairs
    of actions.  `both` steps the two together, and `outputs` is what a run
    shows to an observer.

    A relation between the two states that every step keeps, under which a
    step has as many outputs on either side, reduces the outputs of whole runs
    to those of single steps (`outputs_eq_iff`): the runs look alike exactly
    if every pair of steps does.  A relation under which the second side can
    follow the first one carries whole runs (`exec_simulates`); a relation to
    the states of another machine, under which what a step shows is a run of
    that machine, makes what a run shows a run of it (`exec_outputs`). -/

namespace Lockstep

open Transition

variable {S A L : Type}

/-- One step of each side. -/
def both (step : S → A → Option S) (p : S × S) (a : A × A) :
    Option (S × S) :=
  (step p.1 a.1).bind fun s => (step p.2 a.2).map fun s' => (s, s')

/-- What a run shows, step by step. -/
def outputs (step : S → A → Option S) (out : S → A → S → List L) :
    S → List A → List L
  | _, [] => []
  | s, a :: as =>
      match step s a with
      | some s' => out s a s' ++ outputs step out s' as
      | none => []

variable {step : S → A → Option S} {out : S → A → S → List L}

theorem both_some {p p' : S × S} {a : A × A} :
    both step p a = some p' ↔
      step p.1 a.1 = some p'.1 ∧ step p.2 a.2 = some p'.2 := by
  simp only [both, Option.bind_eq_some_iff, Option.map_eq_some_iff]
  constructor
  · rintro ⟨s, hs, s', hs', rfl⟩
    exact ⟨hs, hs'⟩
  · rintro ⟨hs, hs'⟩
    exact ⟨p'.1, hs, p'.2, hs', rfl⟩

/-- The two sides run together exactly if each of them runs. -/
theorem exec_both {t : S × S} :
    ∀ (as : List (A × A)) (p : S × S),
      exec (both step) p as = some t ↔
        exec step p.1 (as.map Prod.fst) = some t.1 ∧
          exec step p.2 (as.map Prod.snd) = some t.2 := by
  intro as
  induction as with
  | nil =>
      intro p
      simp only [exec, List.map_nil, Option.some.injEq]
      exact Prod.ext_iff
  | cons a as ih =>
      intro p
      constructor
      · intro hrun
        obtain ⟨p', hp', hrest⟩ := exec_cons hrun
        obtain ⟨hs, hs'⟩ := both_some.mp hp'
        rw [List.map_cons, List.map_cons, exec_cons_some hs,
          exec_cons_some hs']
        exact (ih p').mp hrest
      · rintro ⟨hrun, hrun'⟩
        obtain ⟨s, hs, hrest⟩ := exec_cons hrun
        obtain ⟨s', hs', hrest'⟩ := exec_cons hrun'
        have hp' : both step p a = some (s, s') := both_some.mpr ⟨hs, hs'⟩
        rw [exec_cons_some hp']
        exact (ih (s, s')).mpr ⟨hrest, hrest'⟩

theorem outputs_cons_some {s s' : S} {a : A} {as : List A}
    (h : step s a = some s') :
    outputs step out s (a :: as) = out s a s' ++ outputs step out s' as := by
  simp only [outputs, h]

/-- **LOOKING ALIKE**: if the relation `R` survives every pair of steps that
    `ok` allows, and makes each of them show as much on one side as on the
    other, and the same exactly under `same`, then two related runs show the
    same exactly if `same` holds at every step. -/
theorem outputs_eq_iff {R : S × S → Prop} {ok same : S × S → A × A → Prop}
    (hkeep : ∀ p a p', R p → ok p a → both step p a = some p' → R p')
    (hlength : ∀ p a p', R p → ok p a → both step p a = some p' →
      (out p.1 a.1 p'.1).length = (out p.2 a.2 p'.2).length)
    (hsame : ∀ p a p', R p → ok p a → both step p a = some p' →
      (out p.1 a.1 p'.1 = out p.2 a.2 p'.2 ↔ same p a)) :
    ∀ (as : List (A × A)) (p t : S × S), R p →
      Guarded (both step) ok p as → exec (both step) p as = some t →
      (outputs step out p.1 (as.map Prod.fst)
          = outputs step out p.2 (as.map Prod.snd) ↔
        Guarded (both step) same p as) := by
  intro as
  induction as with
  | nil => exact fun p t _ _ _ => iff_of_true rfl trivial
  | cons a as ih =>
      intro p t hR hok hrun
      obtain ⟨p', hp', hrest⟩ := exec_cons hrun
      obtain ⟨hs, hs'⟩ := both_some.mp hp'
      obtain ⟨hoka, hokas⟩ := (guarded_cons_some hp').mp hok
      have hlater := ih p' t (hkeep p a p' hR hoka hp') hokas hrest
      rw [List.map_cons, List.map_cons, outputs_cons_some hs,
        outputs_cons_some hs', guarded_cons_some hp', ← hlater,
        ← hsame p a p' hR hoka hp']
      constructor
      · intro h
        exact List.append_inj h (hlength p a p' hR hoka hp')
      · rintro ⟨hnow, hthen⟩
        rw [hnow, hthen]

/-- **FOLLOWING**: if the second side can follow every step of the first one
    that `ok` allows, and stays related, it can follow every such run. -/
theorem exec_simulates {R : S × S → Prop} {ok : S × S → A × A → Prop}
    (hfollow : ∀ p a s, R p → ok p a → step p.1 a.1 = some s →
      ∃ s', step p.2 a.2 = some s' ∧ R (s, s')) :
    ∀ (as : List (A × A)) (p : S × S) (t : S), R p →
      Guarded (both step) ok p as →
      exec step p.1 (as.map Prod.fst) = some t →
      ∃ t', exec step p.2 (as.map Prod.snd) = some t' ∧ R (t, t') := by
  intro as
  induction as with
  | nil =>
      intro p t hR _ hrun
      refine ⟨p.2, rfl, ?_⟩
      rw [← Option.some.inj hrun]
      exact hR
  | cons a as ih =>
      intro p t hR hok hrun
      rw [List.map_cons] at hrun
      obtain ⟨s, hs, hrest⟩ := exec_cons hrun
      obtain ⟨s', hs', hR'⟩ := hfollow p a s hR hok.1 hs
      have hboth : both step p a = some (s, s') := both_some.mpr ⟨hs, hs'⟩
      obtain ⟨t', ht', hend⟩ :=
        ih (s, s') t hR' ((guarded_cons_some hboth).mp hok).2 hrest
      refine ⟨t', ?_, hend⟩
      rw [List.map_cons, exec_cons_some hs']
      exact ht'

/-- **REFINEMENT**: if what every allowed step shows is a run of the abstract
    machine, from a related state to a related one, so is what a whole run
    shows. -/
theorem exec_outputs {Q : Type} {astep : Q → L → Option Q} {R : S → Q → Prop}
    {ok : S → A → Prop}
    (hstep : ∀ s q a s', R s q → ok s a → step s a = some s' →
      ∃ q', exec astep q (out s a s') = some q' ∧ R s' q') :
    ∀ (as : List A) (s : S) (q : Q) (t : S), R s q → Guarded step ok s as →
      exec step s as = some t →
      ∃ q', exec astep q (outputs step out s as) = some q' ∧ R t q' := by
  intro as
  induction as with
  | nil =>
      intro s q t hR _ hrun
      refine ⟨q, rfl, ?_⟩
      rw [← Option.some.inj hrun]
      exact hR
  | cons a as ih =>
      intro s q t hR hok hrun
      obtain ⟨s', hs, hrest⟩ := exec_cons hrun
      obtain ⟨q₁, hnow, hR'⟩ := hstep s q a s' hR hok.1 hs
      obtain ⟨q', hthen, hend⟩ :=
        ih s' q₁ t hR' ((guarded_cons_some hs).mp hok).2 hrest
      refine ⟨q', ?_, hend⟩
      rw [outputs_cons_some hs, exec_append hnow, hthen]

/-- What is shown can be read in another way, step by step. -/
theorem outputs_flatMap {M : Type} {read : L → List M}
    {out' : S → A → S → List M}
    (h : ∀ s a s', step s a = some s' →
      (out s a s').flatMap read = out' s a s') :
    ∀ (as : List A) (s : S),
      (outputs step out s as).flatMap read = outputs step out' s as := by
  intro as
  induction as with
  | nil => exact fun _ => rfl
  | cons a as ih =>
      intro s
      cases hs : step s a with
      | none => simp only [outputs, hs, List.flatMap_nil]
      | some s' =>
          rw [outputs_cons_some hs, outputs_cons_some hs, List.flatMap_append,
            h s a s' hs, ih s']

/-- **HISTORY**: a relation between states and what was shown so far, kept by
    every step that adds what it shows, holds of whole runs. -/
theorem outputs_recorded {R : S → List L → Prop}
    (hstep : ∀ shown s a s', R s shown → step s a = some s' →
      R s' (shown ++ out s a s')) :
    ∀ (as : List A) (s : S) (shown : List L) (t : S), R s shown →
      exec step s as = some t → R t (shown ++ outputs step out s as) := by
  intro as
  induction as with
  | nil =>
      intro s shown t hR hrun
      rw [outputs, List.append_nil, ← Option.some.inj hrun]
      exact hR
  | cons a as ih =>
      intro s shown t hR hrun
      obtain ⟨s', hs, hrest⟩ := exec_cons hrun
      rw [outputs_cons_some hs, ← List.append_assoc]
      exact ih s' _ t (hstep shown s a s' hR hs) hrest

end Lockstep
