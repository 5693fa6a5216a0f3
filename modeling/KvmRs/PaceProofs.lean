import Mathlib.Data.List.Pairwise
import KvmRs.TransitionProofs

/-! # Firing at a limited pace

    A trigger that fires at most once each time it is armed, and leaves at
    least `gap` between two firings.  The machine refuses a firing that comes
    too early or finds the trigger spent, so its runs are exactly the well
    paced sequences of marks.

    Firings of a run are spaced (`spaced_of_exec`), and no window of time
    holds more of them than fit into it (`count_window_le`). -/

namespace Pace

open Transition

/-- What can be seen of the trigger. -/
inductive Mark where
  | fired (time : Nat)
  | armed
  deriving DecidableEq

/-- Is the trigger armed, and when did it fire last? -/
structure Trigger where
  ready : Bool
  last : Option Nat
  deriving DecidableEq

def Trigger.start : Trigger where
  ready := true
  last := none

/-- Has the gap since the last firing passed? -/
def Trigger.rested (gap : Nat) (q : Trigger) (now : Nat) : Bool :=
  match q.last with
  | some t => decide (t + gap ≤ now)
  | none => true

def pace (gap : Nat) (q : Trigger) : Mark → Option Trigger
  | .fired now =>
      if q.ready && q.rested gap now then
        some { ready := false, last := some now }
      else none
  | .armed => some { q with ready := true }

/-- The times of the firings. -/
def times : List Mark → List Nat
  | [] => []
  | .fired t :: ms => t :: times ms
  | .armed :: ms => times ms

/-- At least `gap` from each to every later one. -/
def Spaced (gap : Nat) (ts : List Nat) : Prop :=
  ts.Pairwise fun t t' => t + gap ≤ t'

variable {gap : Nat}

/-- Every firing of a run rests after the last one, and after each before
    it. -/
theorem spaced_of_exec :
    ∀ (ms : List Mark) (q q' : Trigger), exec (pace gap) q ms = some q' →
      Spaced gap (times ms) ∧
        ∀ t, q.last = some t → ∀ t' ∈ times ms, t + gap ≤ t' := by
  intro ms
  -- on the marks: the first firing stands before all the others
  induction ms with
  | nil =>
      intro q q' _
      exact ⟨List.Pairwise.nil, fun _ _ _ h => nomatch h⟩
  | cons m ms ih =>
      intro q q' hrun
      obtain ⟨q₁, hm, hrest⟩ := exec_cons hrun
      obtain ⟨hspaced, hafter⟩ := ih q₁ q' hrest
      cases m with
      | armed =>
          refine ⟨hspaced, ?_⟩
          rw [← Option.some.inj hm] at hafter
          exact hafter
      | fired now =>
          simp only [pace] at hm
          split at hm
          · rename_i hready
            rw [← Option.some.inj hm] at hafter
            refine ⟨List.Pairwise.cons (hafter now rfl) hspaced, ?_⟩
            intro t ht t' ht'
            have hnow : t + gap ≤ now := by
              have hrested := (Bool.and_eq_true_iff.mp hready).2
              simp only [Trigger.rested, ht] at hrested
              exact of_decide_eq_true hrested
            rcases List.mem_cons.mp ht' with rfl | hlater
            · exact hnow
            · have hgap := hafter now rfl t' hlater
              omega
          · cases hm

/-- The later ones of a spaced list push the end away. -/
theorem Spaced.last_lt {t stop : Nat} {ts : List Nat}
    (h : Spaced gap (t :: ts)) (hstop : ∀ t' ∈ t :: ts, t' < stop) :
    t + ts.length * gap < stop := by
  induction ts generalizing t with
  | nil =>
      rw [List.length_nil, Nat.zero_mul]
      exact hstop t List.mem_cons_self
  | cons t₁ ts ih =>
      obtain ⟨hfirst, hrest⟩ := List.pairwise_cons.mp h
      have hlast := ih hrest fun t' ht' => hstop t' (List.mem_cons_of_mem t ht')
      have hnext := hfirst t₁ List.mem_cons_self
      rw [List.length_cons, Nat.add_one_mul]
      omega

/-- **NO BURSTS**: a window of length `span` holds at most
    `span / gap + 1` of them. -/
theorem count_window_le (hgap : 0 < gap) {ts : List Nat}
    (h : Spaced gap ts) (start span : Nat) :
    (ts.filter fun t => start ≤ t ∧ t < start + span).length
      ≤ span / gap + 1 := by
  have hin : ∀ t ∈ ts.filter fun t => start ≤ t ∧ t < start + span,
      start ≤ t ∧ t < start + span :=
    fun t ht => of_decide_eq_true (List.mem_filter.mp ht).2
  have hspaced : Spaced gap
      (ts.filter fun t => start ≤ t ∧ t < start + span) := h.filter _
  cases hts : ts.filter fun t => start ≤ t ∧ t < start + span with
  | nil => exact Nat.zero_le _
  | cons t rest =>
      rw [hts] at hin hspaced
      have hlast := hspaced.last_lt fun t' ht' => (hin t' ht').2
      have hfirst := (hin t List.mem_cons_self).1
      have hfit : rest.length ≤ span / gap := by
        rw [Nat.le_div_iff_mul_le hgap]
        omega
      rw [List.length_cons]
      omega

end Pace
