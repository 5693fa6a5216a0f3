import Mathlib.Algebra.BigOperators.Group.Finset.Basic
import Mathlib.Algebra.GroupWithZero.Nat
import Mathlib.Data.Fintype.Basic
import Mathlib.Logic.Function.Basic
import Mathlib.Tactic.ByContra

/-! # Guarded runs of a partial step function

    A system is a partial step function `S → A → Option S`; an interleaving
    is the list of its actions.  `exec` runs the list and fails as soon as an
    action is not enabled, `Guarded` says that every action is taken in a
    state where a side condition holds, and `Always` that a property holds in
    every state the run passes through.

    Two rules carry every safety result built on this file: a step-preserved
    invariant survives every guarded run (`invariant_exec`), and a property
    that one step keeps exactly when its guard holds is kept by a whole run
    exactly when the run is guarded (`always_iff_guarded` for a property of
    states, `allSteps_iff_guarded` and `allSteps_iff_guarded_of_exec` for one
    of steps).  `Happens` says that
    some action of the run was of a certain kind, and `established_exec` what
    holds ever after.  A decreasing measure bounds the length of every run
    (`exec_length_le`) and brings every schedule to its end (`exists_stuck`).
    Where a state has one component per party,
    `sum_update` says what one party's step does to a total over all of
    them. -/

namespace Transition

/-- The two parties of a small run are the literals `0` and `1`. -/
instance instNeZeroTwo : NeZero 2 := ⟨Nat.succ_ne_zero 1⟩

variable {S A : Type}

/-- Run the actions in order; `none` as soon as one is not enabled. -/
def exec (step : S → A → Option S) : S → List A → Option S
  | s, [] => some s
  | s, a :: as =>
      match step s a with
      | some s' => exec step s' as
      | none => none

/-- Every action of the run is taken in a state where `ok` holds. -/
def Guarded (step : S → A → Option S) (ok : S → A → Prop) :
    S → List A → Prop
  | _, [] => True
  | s, a :: as =>
      ok s a ∧
        match step s a with
        | some s' => Guarded step ok s' as
        | none => True

/-- The property holds in every state the run passes through. -/
def Always (step : S → A → Option S) (P : S → Prop) : S → List A → Prop
  | s, [] => P s
  | s, a :: as =>
      P s ∧
        match step s a with
        | some s' => Always step P s' as
        | none => True

/-- Every step of the run is related to the states around it by `R`. -/
def AllSteps (step : S → A → Option S) (R : S → A → S → Prop) :
    S → List A → Prop
  | _, [] => True
  | s, a :: as =>
      match step s a with
      | some s' => R s a s' ∧ AllSteps step R s' as
      | none => True

/-- Some action of the run is taken in a state where `P` holds. -/
def Happens (step : S → A → Option S) (P : S → A → Prop) :
    S → List A → Prop
  | _, [] => False
  | s, a :: as =>
      P s a ∨
        match step s a with
        | some s' => Happens step P s' as
        | none => False

/-- Guardedness of a concrete run is decided by running it. -/
def decideGuarded (step : S → A → Option S) {ok : S → A → Prop}
    (dec : ∀ s a, Decidable (ok s a)) :
    (as : List A) → (s : S) → Decidable (Guarded step ok s as)
  | [], _ => isTrue trivial
  | a :: as, s =>
      match dec s a with
      | isFalse h => isFalse (fun hg => h hg.1)
      | isTrue h =>
          match hs : step s a with
          | none => isTrue ⟨h, by rw [hs]; trivial⟩
          | some s' =>
              match decideGuarded step dec as s' with
              | isTrue hr => isTrue ⟨h, by rw [hs]; exact hr⟩
              | isFalse hr =>
                  isFalse (fun hg => hr (by have h2 := hg.2; rwa [hs] at h2))

instance guardedDecidable (step : S → A → Option S) (ok : S → A → Prop)
    [dec : ∀ s a, Decidable (ok s a)] (s : S) (as : List A) :
    Decidable (Guarded step ok s as) :=
  decideGuarded step dec as s

section Equations

variable {step : S → A → Option S}

theorem exec_cons_some {s s' : S} {a : A} (h : step s a = some s')
    (as : List A) : exec step s (a :: as) = exec step s' as := by
  show (match step s a with
    | some s' => exec step s' as
    | none => none) = exec step s' as
  rw [h]

/-- Inversion of a nonempty run. -/
theorem exec_cons {s t : S} {a : A} {as : List A}
    (h : exec step s (a :: as) = some t) :
    ∃ s', step s a = some s' ∧ exec step s' as = some t := by
  cases hs : step s a with
  | none =>
      rw [show exec step s (a :: as)
        = (match step s a with
          | some s' => exec step s' as
          | none => none) from rfl, hs] at h
      cases h
  | some s' =>
      rw [exec_cons_some hs] at h
      exact ⟨s', rfl, h⟩

/-- One run after another. -/
theorem exec_append {bs : List A} {t : S} :
    ∀ {as : List A} {s : S}, exec step s as = some t →
      exec step s (as ++ bs) = exec step t bs := by
  intro as
  induction as with
  | nil =>
      intro s h
      have hst : s = t := Option.some.inj h
      rw [hst, List.nil_append]
  | cons a as ih =>
      intro s h
      obtain ⟨s', hs, hr⟩ := exec_cons h
      rw [List.cons_append, exec_cons_some hs]
      exact ih hr

/-- Inversion of a run in two parts. -/
theorem exec_split {bs : List A} {u : S} :
    ∀ {as : List A} {s : S}, exec step s (as ++ bs) = some u →
      ∃ t, exec step s as = some t ∧ exec step t bs = some u := by
  intro as
  induction as with
  | nil => exact fun {s} h => ⟨s, rfl, h⟩
  | cons a as ih =>
      intro s h
      obtain ⟨s', hs, hr⟩ := exec_cons h
      rw [exec_cons_some hs]
      exact ih hr

theorem guarded_cons_some {ok : S → A → Prop} {s s' : S} {a : A}
    {as : List A} (h : step s a = some s') :
    Guarded step ok s (a :: as) ↔ ok s a ∧ Guarded step ok s' as := by
  show (ok s a ∧ match step s a with
    | some s' => Guarded step ok s' as
    | none => True) ↔ ok s a ∧ Guarded step ok s' as
  rw [h]

theorem always_cons_some {P : S → Prop} {s s' : S} {a : A} {as : List A}
    (h : step s a = some s') :
    Always step P s (a :: as) ↔ P s ∧ Always step P s' as := by
  show (P s ∧ match step s a with
    | some s' => Always step P s' as
    | none => True) ↔ P s ∧ Always step P s' as
  rw [h]

theorem allSteps_cons_some {R : S → A → S → Prop} {s s' : S} {a : A}
    {as : List A} (h : step s a = some s') :
    AllSteps step R s (a :: as) ↔ R s a s' ∧ AllSteps step R s' as := by
  show (match step s a with
    | some s' => R s a s' ∧ AllSteps step R s' as
    | none => True) ↔ R s a s' ∧ AllSteps step R s' as
  rw [h]

/-- The steps after a run are steps of the longer run. -/
theorem allSteps_append {R : S → A → S → Prop} {bs : List A} {t : S} :
    ∀ {as : List A} {s : S}, exec step s as = some t →
      AllSteps step R s (as ++ bs) → AllSteps step R t bs := by
  intro as
  induction as with
  | nil =>
      intro s h hall
      have hst : s = t := Option.some.inj h
      exact hst ▸ hall
  | cons a as ih =>
      intro s h hall
      obtain ⟨s', hs, hr⟩ := exec_cons h
      rw [List.cons_append, allSteps_cons_some hs] at hall
      exact ih hr hall.2

end Equations

section Rules

variable {step : S → A → Option S} {ok : S → A → Prop} {Inv P : S → Prop}

/-- **THE INVARIANT RULE**: what every guarded step preserves holds at the
    end of every guarded run. -/
theorem invariant_exec
    (hstep : ∀ s a s', Inv s → ok s a → step s a = some s' → Inv s') :
    ∀ (as : List A) (s t : S), Inv s → Guarded step ok s as →
      exec step s as = some t → Inv t := by
  intro as
  induction as with
  | nil =>
      intro s t hi _ he
      have hst : s = t := Option.some.inj he
      exact hst ▸ hi
  | cons a as ih =>
      intro s t hi hg he
      obtain ⟨s', hs, hr⟩ := exec_cons he
      obtain ⟨hok, hg'⟩ := (guarded_cons_some hs).mp hg
      exact ih s' t (hstep s a s' hi hok hs) hg' hr

/-- A side condition that holds in every state holds along every run. -/
theorem guarded_of_forall :
    ∀ (as : List A) (s : S), (∀ a ∈ as, ∀ s, ok s a) →
      Guarded step ok s as := by
  intro as
  induction as with
  | nil => exact fun _ _ => trivial
  | cons a as ih =>
      intro s h
      refine ⟨h a (List.mem_cons_self ..) s, ?_⟩
      cases step s a with
      | none => trivial
      | some s' => exact ih s' fun b hb => h b (List.mem_cons_of_mem a hb)

/-- Two side conditions on one run are one side condition. -/
theorem guarded_and {ok₁ ok₂ : S → A → Prop} :
    ∀ (as : List A) (s : S), Guarded step ok₁ s as → Guarded step ok₂ s as →
      Guarded step (fun s a => ok₁ s a ∧ ok₂ s a) s as := by
  intro as
  induction as with
  | nil => exact fun _ _ _ => trivial
  | cons a as ih =>
      intro s h₁ h₂
      refine ⟨⟨h₁.1, h₂.1⟩, ?_⟩
      have hr₁ := h₁.2
      have hr₂ := h₂.2
      cases hs : step s a with
      | none => trivial
      | some s' =>
          rw [hs] at hr₁ hr₂
          exact ih s' hr₁ hr₂

/-- The unguarded rule: a step-preserved invariant holds in every reachable
    state. -/
theorem invariant_reachable
    (hstep : ∀ s a s', Inv s → step s a = some s' → Inv s') :
    ∀ (as : List A) (s t : S), Inv s → exec step s as = some t → Inv t := by
  intro as
  induction as with
  | nil =>
      intro s t hi he
      have hst : s = t := Option.some.inj he
      exact hst ▸ hi
  | cons a as ih =>
      intro s t hi he
      obtain ⟨s', hs, hr⟩ := exec_cons he
      exact ih s' t (hstep s a s' hi hs) hr

/-- **THE HISTORY RULE**: a relation between the past and the state that every
    step keeps holds in every reachable state. -/
theorem history_reachable {R : List A → S → Prop}
    (hstep : ∀ past s a s', R past s → step s a = some s' →
      R (past ++ [a]) s') :
    ∀ (as past : List A) (s t : S), R past s → exec step s as = some t →
      R (past ++ as) t := by
  intro as
  induction as with
  | nil =>
      intro past s t hR he
      have hst : s = t := Option.some.inj he
      rw [List.append_nil]
      exact hst ▸ hR
  | cons a as ih =>
      intro past s t hR he
      obtain ⟨s', hs, hr⟩ := exec_cons he
      have hlater := ih (past ++ [a]) s' t (hstep past s a s' hR hs) hr
      rwa [List.append_assoc, List.singleton_append] at hlater

/-- **THE BACKWARD RULE**: what holds at the end of a run and is never lost
    going back, step by step, guards the run. -/
theorem guarded_of_last
    (hstep : ∀ s a s', Inv s → step s a = some s' → Inv s')
    (hback : ∀ s a s', Inv s → step s a = some s' → P s' → P s ∧ ok s a) :
    ∀ (as : List A) (s t : S), Inv s → exec step s as = some t → P t →
      P s ∧ Guarded step ok s as := by
  intro as
  induction as with
  | nil =>
      intro s t _ he hP
      rw [Option.some.inj he]
      exact ⟨hP, trivial⟩
  | cons a as ih =>
      intro s t hi he hP
      obtain ⟨s', hs, hr⟩ := exec_cons he
      obtain ⟨hP', hg⟩ := ih s' t (hstep s a s' hi hs) hr hP
      obtain ⟨hnow, hok⟩ := hback s a s' hi hs hP'
      exact ⟨hnow, (guarded_cons_some hs).mpr ⟨hok, hg⟩⟩

/-- **THE SAME RUNS**: two systems that take the same steps where an invariant
    holds have the same runs from there. -/
theorem exec_congr {step' : S → A → Option S} {allowed : A → Prop}
    (hsame : ∀ s a, Inv s → allowed a → step s a = step' s a)
    (hstep : ∀ s a s', Inv s → allowed a → step s a = some s' → Inv s') :
    ∀ (as : List A) (s : S), Inv s → (∀ a ∈ as, allowed a) →
      exec step s as = exec step' s as := by
  intro as
  induction as with
  | nil => exact fun _ _ _ => rfl
  | cons a as ih =>
      intro s hi has
      have ha := has a (List.mem_cons_self ..)
      have heq := hsame s a hi ha
      cases hs : step s a with
      | none => simp only [exec, ← heq, hs]
      | some s' =>
          rw [exec_cons_some hs, exec_cons_some (heq ▸ hs)]
          exact ih s' (hstep s a s' hi ha hs)
            fun b hb => has b (List.mem_cons_of_mem a hb)

/-- **THE MEASURE RULE**: where every step takes something away, a run is no
    longer than what there was to take. -/
theorem exec_length_le {μ : S → Nat}
    (hstep : ∀ s a s', Inv s → step s a = some s' → Inv s' ∧ μ s' < μ s) :
    ∀ (as : List A) (s t : S), Inv s → exec step s as = some t →
      as.length + μ t ≤ μ s := by
  intro as
  induction as with
  | nil =>
      intro s t _ he
      have hst : s = t := Option.some.inj he
      rw [hst, List.length_nil, Nat.zero_add]
  | cons a as ih =>
      intro s t hi he
      obtain ⟨s', hs, hr⟩ := exec_cons he
      obtain ⟨hi', hlt⟩ := hstep s a s' hi hs
      have hrest := ih s' t hi' hr
      rw [List.length_cons]
      omega

/-- **THE SCHEDULE RULE**: where every step takes something away, and some
    step keeps the invariant as long as there is any, a schedule that keeps it
    comes to a state without a step. -/
theorem exists_stuck {μ : S → Nat}
    (hless : ∀ s a s', Inv s → step s a = some s' → μ s' < μ s)
    (hgo : ∀ s, Inv s → (∀ a, step s a = none) ∨
      ∃ a s', step s a = some s' ∧ Inv s') :
    ∀ s, Inv s → ∃ as t, exec step s as = some t ∧ Inv t ∧
      ∀ a, step t a = none := by
  have hall : ∀ (n : Nat) (s : S), μ s ≤ n → Inv s →
      ∃ as t, exec step s as = some t ∧ Inv t ∧ ∀ a, step t a = none := by
    intro n
    induction n with
    | zero =>
        intro s hn hi
        rcases hgo s hi with hstuck | ⟨a, s', hs, -⟩
        · exact ⟨[], s, rfl, hi, hstuck⟩
        · have hlt := hless s a s' hi hs
          omega
    | succ n ih =>
        intro s hn hi
        rcases hgo s hi with hstuck | ⟨a, s', hs, hi'⟩
        · exact ⟨[], s, rfl, hi, hstuck⟩
        · have hlt := hless s a s' hi hs
          obtain ⟨as, t, hr, ht⟩ := ih s' (by omega) hi'
          exact ⟨a :: as, t, (exec_cons_some hs as).trans hr, ht⟩
  exact fun s hi => hall (μ s) s (Nat.le_refl _) hi

/-- What a guarded step's invariant implies holds all along a guarded run. -/
theorem always_of_guarded (hP : ∀ s, Inv s → P s)
    (hstep : ∀ s a s', Inv s → ok s a → step s a = some s' → Inv s') :
    ∀ (as : List A) (s : S), Inv s → Guarded step ok s as →
      Always step P s as := by
  intro as
  induction as with
  | nil => exact fun s hi _ => hP s hi
  | cons a as ih =>
      intro s hi hg
      refine ⟨hP s hi, ?_⟩
      cases hs : step s a with
      | none => trivial
      | some s' =>
          obtain ⟨hok, hg'⟩ := (guarded_cons_some hs).mp hg
          exact ih s' (hstep s a s' hi hok hs) hg'

/-- What the invariant and the guard give of one step holds of every step of
    a guarded run. -/
theorem allSteps_of_guarded {R : S → A → S → Prop}
    (hR : ∀ s a s', Inv s → ok s a → step s a = some s' → R s a s')
    (hstep : ∀ s a s', Inv s → ok s a → step s a = some s' → Inv s') :
    ∀ (as : List A) (s : S), Inv s → Guarded step ok s as →
      AllSteps step R s as := by
  intro as
  induction as with
  | nil => exact fun _ _ _ => trivial
  | cons a as ih =>
      intro s hi hg
      cases hs : step s a with
      | none =>
          show (match step s a with
            | some s' => R s a s' ∧ AllSteps step R s' as
            | none => True)
          rw [hs]
          trivial
      | some s' =>
          obtain ⟨hok, hg'⟩ := (guarded_cons_some hs).mp hg
          rw [allSteps_cons_some hs]
          exact ⟨hR s a s' hi hok hs, ih s' (hstep s a s' hi hok hs) hg'⟩

/-- **THE EVENT RULE**: what an event establishes and every guarded step
    keeps holds at the end of every guarded run in which the event has
    happened. -/
theorem established_exec {E : S → A → Prop}
    (hstep : ∀ s a s', Inv s → ok s a → step s a = some s' → Inv s')
    (hset : ∀ s a s', Inv s → ok s a → E s a → step s a = some s' → P s')
    (hkeep : ∀ s a s', Inv s → ok s a → P s → step s a = some s' → P s') :
    ∀ (as : List A) (s t : S), Inv s → Guarded step ok s as →
      P s ∨ Happens step E s as → exec step s as = some t → P t := by
  intro as
  induction as with
  | nil =>
      intro s t _ _ hor he
      have hst : s = t := Option.some.inj he
      rcases hor with hP | hE
      · exact hst ▸ hP
      · exact hE.elim
  | cons a as ih =>
      intro s t hi hg hor he
      obtain ⟨s', hs, hr⟩ := exec_cons he
      obtain ⟨hok, hg'⟩ := (guarded_cons_some hs).mp hg
      refine ih s' t (hstep s a s' hi hok hs) hg' ?_ hr
      rcases hor with hP | hE
      · exact Or.inl (hkeep s a s' hi hok hP hs)
      · have hE' : E s a ∨ Happens step E s' as := by
          rw [show Happens step E s (a :: as)
            = (E s a ∨ match step s a with
              | some s' => Happens step E s' as
              | none => False) from rfl, hs] at hE
          exact hE
        rcases hE' with hnow | hlater
        · exact Or.inl (hset s a s' hi hok hnow hs)
        · exact Or.inr hlater

/-- **THE EXACTNESS RULE**: if, under the invariant, a guarded step keeps the
    invariant and an unguarded one breaks the property, then the property
    holds all along an executable run exactly when the run is guarded. -/
theorem always_iff_guarded
    (hP : ∀ s, Inv s → P s)
    (hkeep : ∀ s a s', Inv s → ok s a → step s a = some s' → Inv s')
    (hbreak : ∀ s a s', Inv s → ¬ ok s a → step s a = some s' → ¬ P s') :
    ∀ (as : List A) (s t : S), Inv s → exec step s as = some t →
      (Always step P s as ↔ Guarded step ok s as) := by
  intro as
  induction as with
  | nil =>
      intro s t hi _
      exact ⟨fun _ => trivial, fun _ => hP s hi⟩
  | cons a as ih =>
      intro s t hi he
      obtain ⟨s', hs, hr⟩ := exec_cons he
      rw [always_cons_some hs, guarded_cons_some hs]
      constructor
      · rintro ⟨-, hall⟩
        have hPs' : P s' := by
          cases as with
          | nil => exact hall
          | cons b bs => exact hall.1
        have hok : ok s a := by
          by_contra hno
          exact hbreak s a s' hi hno hs hPs'
        exact ⟨hok, (ih s' t (hkeep s a s' hi hok hs) hr).mp hall⟩
      · rintro ⟨hok, hg⟩
        exact ⟨hP s hi, (ih s' t (hkeep s a s' hi hok hs) hr).mpr hg⟩

/-- **ONCE LOST, LOST FOR GOOD**: a property that no step regains holds all
    along a run exactly if it holds at its end. -/
theorem always_iff_last (hlost : ∀ s a s', ¬ P s → step s a = some s' → ¬ P s') :
    ∀ (as : List A) (s t : S), exec step s as = some t →
      (Always step P s as ↔ P t) := by
  intro as
  induction as with
  | nil =>
      intro s t he
      have hst : s = t := Option.some.inj he
      exact hst ▸ Iff.rfl
  | cons a as ih =>
      intro s t he
      obtain ⟨s', hs, hr⟩ := exec_cons he
      rw [always_cons_some hs, ih s' t hr]
      refine and_iff_right_of_imp fun ht => ?_
      by_contra hno
      exact invariant_reachable hlost as s' t (hlost s a s' hno hs) hr ht

/-- **EXACTNESS STEP BY STEP**: where every action is enabled and one step
    is as `R` wants it exactly when its guard holds, all steps of a run are
    exactly when the run is guarded. -/
theorem allSteps_iff_guarded {R : S → A → S → Prop}
    (hiff : ∀ s a, ∃ s', step s a = some s' ∧ (R s a s' ↔ ok s a)) :
    ∀ (as : List A) (s : S),
      AllSteps step R s as ↔ Guarded step ok s as := by
  intro as
  induction as with
  | nil => exact fun _ => Iff.rfl
  | cons a as ih =>
      intro s
      obtain ⟨s', hs, hR⟩ := hiff s a
      rw [guarded_cons_some hs, allSteps_cons_some hs, ← hR, ← ih s']

/-- The same for a partial step function and under an invariant, along a run
    that can be carried out. -/
theorem allSteps_iff_guarded_of_exec {R : S → A → S → Prop}
    (hstep : ∀ s a s', Inv s → step s a = some s' →
      Inv s' ∧ (R s a s' ↔ ok s a)) :
    ∀ (as : List A) (s t : S), Inv s → exec step s as = some t →
      (AllSteps step R s as ↔ Guarded step ok s as) := by
  intro as
  induction as with
  | nil => exact fun _ _ _ _ => Iff.rfl
  | cons a as ih =>
      intro s t hi he
      obtain ⟨s', hs, hr⟩ := exec_cons he
      obtain ⟨hi', hR⟩ := hstep s a s' hi hs
      rw [guarded_cons_some hs, allSteps_cons_some hs, ← hR, ← ih s' t hi' hr]

end Rules

section Parties

variable {C P : Type} [Fintype C] [DecidableEq C]

/-- **ONE PARTY MOVES**: a total over all parties changes by the share of the
    one whose component is replaced. -/
theorem sum_update (f : C → P → Nat) (g : C → P) (c : C) (v : P) :
    (∑ x, f x (Function.update g c v x)) + f c (g c)
      = (∑ x, f x (g x)) + f c v := by
  have hsplit : ∀ h : C → P, ∑ x, f x (h x)
      = f c (h c) + ∑ x ∈ Finset.univ.erase c, f x (h x) :=
    fun h => (Finset.add_sum_erase _ _ (Finset.mem_univ c)).symm
  have hrest : ∑ x ∈ Finset.univ.erase c, f x (Function.update g c v x)
      = ∑ x ∈ Finset.univ.erase c, f x (g x) := by
    refine Finset.sum_congr rfl ?_
    intro x hx
    rw [Function.update_of_ne (Finset.ne_of_mem_erase hx)]
  rw [hsplit (Function.update g c v), hsplit g, hrest, Function.update_self]
  omega

end Parties

end Transition
