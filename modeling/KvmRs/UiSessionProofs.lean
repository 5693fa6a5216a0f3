import KvmRs.TransitionProofs

/-! # The UI's session slot

    Every `connect_to_server` and `disconnect_from_server` bumps the
    generation and then takes whatever session is in the slot; a connect goes
    on to install its own session, drives it, reconnects it, and at last
    clears the slot if the generation is still its own.

    Installing checks the generation under the slot's lock.  Taking and the
    last clearing do not: between the bump and the take, or between the check
    and the clearing, newer calls may have taken the slot and installed a
    session of their own.  If they have not (`InTurn`), every session that is
    driven and not cancelled is in the slot, where the next reset finds it;
    otherwise a session runs on that nobody can stop, or one is cancelled by
    a call that it supersedes. -/

namespace KvmUiSession

open Transition

/-- The command that calls `reset_session`. -/
inductive Kind where
  | connect | disconnect
  deriving DecidableEq

/-- Where a call, or the task it has spawned, is. -/
inductive Phase where
  | idle
  /-- In `reset_session`: the generation is bumped, the slot not yet taken. -/
  | taking (kind : Kind)
  /-- In `Session::connect`. -/
  | connecting
  /-- Its session is installed and driven. -/
  | driving
  /-- The session has ended and is being reconnected. -/
  | reconnecting
  /-- Out of the loop, about to compare the generation. -/
  | closing
  /-- The generation was its own: about to clear the slot. -/
  | clearing
  | done
  deriving DecidableEq

/-- The call's `reset_session` has taken the slot. -/
def Phase.taken : Phase → Bool
  | .idle => false
  | .taking _ => false
  | _ => true

structure Call where
  phase : Phase
  gen : Nat

variable {C : Type}

/-- `AppState`, the cancel tokens and the calls; a call's session and token
    go by the call. -/
structure World (C : Type) where
  generation : Nat
  session : Option C
  cancelled : C → Bool
  call : C → Call

def World.start (C : Type) : World C where
  generation := 0
  session := none
  cancelled := fun _ => false
  call := fun _ => ⟨.idle, 0⟩

inductive Action (C : Type) where
  | bump (c : C) (kind : Kind)
  | take (c : C)
  | connectFails (c : C)
  | install (c : C)
  /-- `session.run` returns. -/
  | runEnds (c : C)
  | reconnect (c : C)
  /-- The loop is left without a reconnected session. -/
  | giveUp (c : C)
  | check (c : C)
  | clear (c : C)
  deriving DecidableEq

section System

variable [DecidableEq C]

def World.goto (w : World C) (c : C) (ph : Phase) : World C :=
  { w with call := Function.update w.call c { w.call c with phase := ph } }

/-- `install_active_session` that finds the generation unchanged. -/
def World.installed (w : World C) (c : C) : World C :=
  { w.goto c .driving with session := some c }

def cancel (cancelled : C → Bool) (c : C) : C → Bool :=
  Function.update cancelled c true

/-- One atomic step of a call or of its task. -/
def step (w : World C) : Action C → Option (World C)
  | .bump c kind =>
      if (w.call c).phase = .idle then
        some { w with
          generation := w.generation + 1
          call := Function.update w.call c ⟨.taking kind, w.generation + 1⟩ }
      else none
  | .take c =>
      match (w.call c).phase with
      | .taking kind =>
          some { w.goto c (if kind = .connect then .connecting else .done) with
            session := none
            cancelled := match w.session with
              | some prev => cancel w.cancelled prev
              | none => w.cancelled }
      | _ => none
  | .connectFails c =>
      if (w.call c).phase = .connecting then some (w.goto c .done) else none
  | .install c =>
      if (w.call c).phase = .connecting then
        if w.generation = (w.call c).gen then some (w.installed c)
        else some { w.goto c .done with cancelled := cancel w.cancelled c }
      else none
  | .runEnds c =>
      if (w.call c).phase = .driving then
        some (w.goto c (if w.cancelled c then .closing else .reconnecting))
      else none
  | .reconnect c =>
      if (w.call c).phase = .reconnecting then
        if w.generation = (w.call c).gen then some (w.installed c)
        else some (w.goto c .closing)
      else none
  | .giveUp c =>
      if (w.call c).phase = .reconnecting then some (w.goto c .closing)
      else none
  | .check c =>
      if (w.call c).phase = .closing then
        some (w.goto c
          (if w.generation = (w.call c).gen then .clearing else .done))
      else none
  | .clear c =>
      if (w.call c).phase = .clearing then
        some { w.goto c .done with session := none }
      else none

end System

/-- A session that is driven and not cancelled is in the slot, or a
    `reset_session` in progress is about to take it. -/
def Supervised (w : World C) : Prop :=
  ∀ c, (w.call c).phase = .driving → w.cancelled c = false →
    w.session = some c ∨ ∃ d kind, (w.call d).phase = .taking kind

/-- A `reset_session` cancels no session of a newer call. -/
def SparesNewer (w : World C) (a : Action C) (w' : World C) : Prop :=
  ∀ c d, a = .take c → w.cancelled d = false → w'.cancelled d = true →
    (w.call d).gen ≤ (w.call c).gen

/-- The slot is taken and cleared before any newer call has taken it. -/
def InTurn (w : World C) : Action C → Prop
  | .take c => ∀ d, (w.call c).gen < (w.call d).gen →
      (w.call d).phase.taken = false
  | .clear c => ∀ d, (w.call c).gen < (w.call d).gen →
      (w.call d).phase.taken = false
  | _ => True

/-! ## The invariant -/

/-- The slot belongs to the newest call that has taken it, and holds every
    session that is driven and not cancelled. -/
structure Owned (w : World C) : Prop where
  bound : ∀ c, (w.call c).phase ≠ .idle → (w.call c).gen ≤ w.generation
  distinct : ∀ c d, (w.call c).phase ≠ .idle → (w.call d).phase ≠ .idle →
    (w.call c).gen = (w.call d).gen → c = d
  holder : ∀ d, w.session = some d → (w.call d).phase.taken = true
  newest : ∀ d, w.session = some d → ∀ c, (w.call c).phase.taken = true →
    (w.call c).gen ≤ (w.call d).gen
  driven : ∀ c, (w.call c).phase = .driving → w.cancelled c = false →
    w.session = some c

theorem owned_start : Owned (World.start C) where
  bound := fun _ h => absurd rfl h
  distinct := fun _ _ h => absurd rfl h
  holder := fun _ h => nomatch h
  newest := fun _ h => nomatch h
  driven := fun _ h => nomatch h

theorem taken_ne_idle {ph : Phase} (h : ph.taken = true) : ph ≠ .idle := by
  rintro rfl
  cases h

section Steps

variable [DecidableEq C] {w : World C} {c : C}

@[simp] theorem goto_gen (ph : Phase) (d : C) :
    ((w.goto c ph).call d).gen = (w.call d).gen := by
  by_cases hd : d = c
  · simp only [World.goto, hd, Function.update_self]
  · simp only [World.goto, Function.update_of_ne hd]

theorem goto_phase_self (ph : Phase) : ((w.goto c ph).call c).phase = ph := by
  simp only [World.goto, Function.update_self]

theorem goto_phase_ne {d : C} (hd : d ≠ c) (ph : Phase) :
    ((w.goto c ph).call d).phase = (w.call d).phase := by
  simp only [World.goto, Function.update_of_ne hd]

/-- A call that is not idle moves on.  What is left to show is about the
    slot: its holder is the newest that has taken it, and everything driven
    and not cancelled is in it. -/
theorem Owned.move (h : Owned w) {w' : World C} {ph : Phase}
    (hgen : w'.generation = w.generation)
    (hcall : w'.call = (w.goto c ph).call)
    (hold : (w.call c).phase ≠ .idle)
    (hslot : ∀ d, w'.session = some d → (w'.call d).phase.taken = true ∧
      ∀ e, (w'.call e).phase.taken = true →
        (w.call e).gen ≤ (w.call d).gen)
    (hdriven : ∀ e, (w'.call e).phase = .driving → w'.cancelled e = false →
      w'.session = some e) : Owned w' := by
  have hgens : ∀ d, (w'.call d).gen = (w.call d).gen := by
    intro d
    rw [hcall, goto_gen]
  have hidle : ∀ d, (w'.call d).phase ≠ .idle → (w.call d).phase ≠ .idle := by
    intro d hd
    rw [hcall] at hd
    by_cases hdc : d = c
    · rw [hdc]
      exact hold
    · rw [goto_phase_ne hdc] at hd
      exact hd
  refine ⟨?_, ?_, fun d hd => (hslot d hd).1, ?_, hdriven⟩
  · intro d hd
    rw [hgens, hgen]
    exact h.bound d (hidle d hd)
  · intro d e hd he heq
    rw [hgens, hgens] at heq
    exact h.distinct d e (hidle d hd) (hidle e he) heq
  · intro d hd e he
    rw [hgens, hgens]
    exact (hslot d hd).2 e he

/-- A call that has taken the slot goes on without touching it, and does not
    start to drive. -/
theorem Owned.go_on (h : Owned w) {w' : World C} {ph : Phase}
    (hgen : w'.generation = w.generation)
    (hcall : w'.call = (w.goto c ph).call) (hsession : w'.session = w.session)
    (hcancelled : ∀ d, w'.cancelled d = false → w.cancelled d = false)
    (hold : (w.call c).phase.taken = true) (hnew : ph.taken = true)
    (hdrive : ph ≠ .driving) : Owned w' := by
  have htaken : ∀ d, (w'.call d).phase.taken = true →
      (w.call d).phase.taken = true := by
    intro d hd
    rw [hcall] at hd
    by_cases hdc : d = c
    · rw [hdc]
      exact hold
    · rw [goto_phase_ne hdc] at hd
      exact hd
  refine h.move hgen hcall (taken_ne_idle hold) ?_ ?_
  · intro d hd
    rw [hsession] at hd
    refine ⟨?_, fun e he => h.newest d hd e (htaken e he)⟩
    rw [hcall]
    by_cases hdc : d = c
    · rw [hdc, goto_phase_self]
      exact hnew
    · rw [goto_phase_ne hdc]
      exact h.holder d hd
  · intro e he hc
    rw [hsession]
    rw [hcall] at he
    by_cases hec : e = c
    · rw [hec, goto_phase_self] at he
      exact absurd he hdrive
    · rw [goto_phase_ne hec] at he
      exact h.driven e he (hcancelled e hc)

/-- A call installs its session while the generation is its own: the slot is
    empty or holds its own old one. -/
theorem Owned.install (h : Owned w) (hold : (w.call c).phase.taken = true)
    (hgen : w.generation = (w.call c).gen) : Owned (w.installed c) := by
  refine h.move rfl rfl (taken_ne_idle hold) ?_ ?_
  · intro d hd
    obtain rfl := Option.some.inj hd
    refine ⟨?_, ?_⟩
    · show ((w.goto c .driving).call c).phase.taken = true
      rw [goto_phase_self]
      rfl
    · intro e he
      rw [← hgen]
      refine h.bound e ?_
      by_cases hec : e = c
      · rw [hec]
        exact taken_ne_idle hold
      · have he' : ((w.goto c .driving).call e).phase.taken = true := he
        rw [goto_phase_ne hec] at he'
        exact taken_ne_idle he'
  · intro e he hc
    have he' : ((w.goto c .driving).call e).phase = .driving := he
    by_cases hec : e = c
    · rw [hec]
      rfl
    · -- whoever else is driven would be in the slot, and newer
      rw [goto_phase_ne hec] at he'
      have hslot := h.driven e he' hc
      have hle := h.newest e hslot c hold
      have hidle : (w.call e).phase ≠ .idle := by
        rw [he']
        exact fun h => nomatch h
      have hbound := h.bound e hidle
      have heq : (w.call e).gen = (w.call c).gen := by omega
      exact absurd (h.distinct e c hidle (taken_ne_idle hold) heq) hec

/-- A reset empties the slot and cancels what was in it. -/
theorem Owned.take (h : Owned w) {kind : Kind} {ph : Phase}
    (hp : (w.call c).phase = .taking kind) (hdrive : ph ≠ .driving)
    {w' : World C} (hgen : w'.generation = w.generation)
    (hcall : w'.call = (w.goto c ph).call) (hsession : w'.session = none)
    (hcancelled : ∀ d, w'.cancelled d = false → w.cancelled d = false ∧
      w.session ≠ some d) : Owned w' := by
  refine h.move hgen hcall ?_ ?_ ?_
  · rw [hp]
    exact fun h => nomatch h
  · intro d hd
    rw [hsession] at hd
    cases hd
  · intro e he hc
    rw [hcall] at he
    obtain ⟨hlive, hnot⟩ := hcancelled e hc
    by_cases hec : e = c
    · rw [hec, goto_phase_self] at he
      exact absurd he hdrive
    · rw [goto_phase_ne hec] at he
      exact absurd (h.driven e he hlive) hnot

/-- A finished task clears the slot before any newer call has taken it. -/
theorem Owned.clear (h : Owned w) (hp : (w.call c).phase = .clearing)
    (hturn : InTurn w (.clear c)) :
    Owned { w.goto c .done with session := none } := by
  have hold : (w.call c).phase.taken = true := by rw [hp]; rfl
  refine h.move rfl rfl (taken_ne_idle hold) (fun d hd => nomatch hd) ?_
  intro e he hc
  have he' : ((w.goto c .done).call e).phase = .driving := he
  by_cases hec : e = c
  · rw [hec, goto_phase_self] at he'
    cases he'
  · rw [goto_phase_ne hec] at he'
    have hslot := h.driven e he' hc
    have hidle : (w.call e).phase ≠ .idle := by
      rw [he']
      exact fun h => nomatch h
    -- whoever is in the slot is no newer call, so it is this one
    rcases Nat.lt_or_ge (w.call c).gen (w.call e).gen with hlt | hge
    · have hno := hturn e hlt
      rw [h.holder e hslot] at hno
      cases hno
    · have heq := Nat.le_antisymm hge (h.newest e hslot c hold)
      exact absurd (h.distinct e c hidle (taken_ne_idle hold) heq) hec

/-- A call begins: its generation is above all others. -/
theorem Owned.bump (h : Owned w) (hp : (w.call c).phase = .idle)
    (kind : Kind) :
    Owned { w with
      generation := w.generation + 1
      call := Function.update w.call c ⟨.taking kind, w.generation + 1⟩ } := by
  have hself : Function.update w.call c ⟨.taking kind, w.generation + 1⟩ c
      = ⟨.taking kind, w.generation + 1⟩ := Function.update_self ..
  have hother : ∀ {d : C}, d ≠ c →
      Function.update w.call c ⟨.taking kind, w.generation + 1⟩ d = w.call d :=
    fun hd => Function.update_of_ne hd _ _
  -- a call that has not begun holds no slot
  have hslot : ∀ d, w.session = some d → d ≠ c := by
    rintro d hd rfl
    have ht := h.holder d hd
    rw [hp] at ht
    cases ht
  refine ⟨?_, ?_, ?_, ?_, ?_⟩
  · intro d hd
    by_cases hdc : d = c
    · simp only [hdc, hself]
      exact Nat.le_refl _
    · simp only [hother hdc] at hd ⊢
      exact Nat.le_succ_of_le (h.bound d hd)
  · intro d e hd he heq
    by_cases hdc : d = c
    · by_cases hec : e = c
      · rw [hdc, hec]
      · simp only [hdc, hself, hother hec] at he heq
        have hle := h.bound e he
        omega
    · by_cases hec : e = c
      · simp only [hec, hself, hother hdc] at hd heq
        have hle := h.bound d hd
        omega
      · simp only [hother hdc, hother hec] at hd he heq
        exact h.distinct d e hd he heq
  · intro d hd
    simp only [hother (hslot d hd)]
    exact h.holder d hd
  · intro d hd e he
    by_cases hec : e = c
    · simp only [hec, hself] at he
      cases he
    · simp only [hother hec, hother (hslot d hd)] at he ⊢
      exact h.newest d hd e he
  · intro e he hc
    by_cases hec : e = c
    · simp only [hec, hself] at he
      cases he
    · simp only [hother hec] at he
      exact h.driven e he hc

/-- **ONE STEP** in turn keeps the slot with its owner. -/
theorem owned_step (w : World C) (a : Action C) (w' : World C) (h : Owned w)
    (hok : InTurn w a) (hs : step w a = some w') : Owned w' := by
  cases a with
  | bump c kind =>
      simp only [step] at hs
      split at hs
      · rename_i hp
        rw [← Option.some.inj hs]
        exact h.bump hp kind
      · cases hs
  | take c =>
      simp only [step] at hs
      split at hs
      · rename_i kind hp
        rw [← Option.some.inj hs]
        refine h.take hp ?_ rfl rfl rfl ?_
        · split <;> exact fun h => nomatch h
        · intro d hd
          cases hprev : w.session with
          | none =>
              simp only [hprev] at hd
              exact ⟨hd, fun h => nomatch h⟩
          | some prev =>
              simp only [hprev, cancel] at hd
              by_cases hdp : d = prev
              · rw [hdp, Function.update_self] at hd
                cases hd
              · rw [Function.update_of_ne hdp] at hd
                exact ⟨hd, fun h => hdp (Option.some.inj h).symm⟩
      · cases hs
  | connectFails c =>
      simp only [step] at hs
      split at hs
      · rename_i hp
        rw [← Option.some.inj hs]
        exact h.go_on rfl rfl rfl (fun _ hd => hd) (by rw [hp]; rfl) rfl
          (fun h => nomatch h)
      · cases hs
  | install c =>
      simp only [step] at hs
      split at hs
      · rename_i hp
        have hold : (w.call c).phase.taken = true := by rw [hp]; rfl
        split at hs
        · rename_i hgen
          rw [← Option.some.inj hs]
          exact h.install hold hgen
        · -- superseded: the new session is cancelled and never driven
          rw [← Option.some.inj hs]
          refine h.go_on rfl rfl rfl ?_ hold rfl (fun h => nomatch h)
          intro d hd
          by_cases hdc : d = c
          · simp only [cancel, hdc, Function.update_self] at hd
            cases hd
          · simp only [cancel, Function.update_of_ne hdc] at hd
            exact hd
      · cases hs
  | runEnds c =>
      simp only [step] at hs
      split at hs
      · rename_i hp
        rw [← Option.some.inj hs]
        refine h.go_on rfl rfl rfl (fun _ hd => hd) (by rw [hp]; rfl) ?_ ?_
        · split <;> rfl
        · split <;> exact fun h => nomatch h
      · cases hs
  | reconnect c =>
      simp only [step] at hs
      split at hs
      · rename_i hp
        have hold : (w.call c).phase.taken = true := by rw [hp]; rfl
        split at hs
        · rename_i hgen
          rw [← Option.some.inj hs]
          exact h.install hold hgen
        · rw [← Option.some.inj hs]
          exact h.go_on rfl rfl rfl (fun _ hd => hd) hold rfl
            (fun h => nomatch h)
      · cases hs
  | giveUp c =>
      simp only [step] at hs
      split at hs
      · rename_i hp
        rw [← Option.some.inj hs]
        exact h.go_on rfl rfl rfl (fun _ hd => hd) (by rw [hp]; rfl) rfl
          (fun h => nomatch h)
      · cases hs
  | check c =>
      simp only [step] at hs
      split at hs
      · rename_i hp
        rw [← Option.some.inj hs]
        refine h.go_on rfl rfl rfl (fun _ hd => hd) (by rw [hp]; rfl) ?_ ?_
        · split <;> rfl
        · split <;> exact fun h => nomatch h
      · cases hs
  | clear c =>
      simp only [step] at hs
      split at hs
      · rename_i hp
        rw [← Option.some.inj hs]
        exact h.clear hp hok
      · cases hs

/-- A reset that takes the slot in turn cancels nothing newer. -/
theorem spares_newer (w : World C) (a : Action C) (w' : World C)
    (h : Owned w) (hok : InTurn w a) (hs : step w a = some w') :
    SparesNewer w a w' := by
  rintro c d rfl hlive hcancelled
  simp only [step] at hs
  split at hs
  · rw [← Option.some.inj hs] at hcancelled
    cases hprev : w.session with
    | none =>
        simp only [hprev, hlive] at hcancelled
        cases hcancelled
    | some prev =>
        simp only [hprev, cancel] at hcancelled
        by_cases hdp : d = prev
        · subst hdp
          by_contra hnewer
          have hno := hok d (by omega)
          rw [h.holder d hprev] at hno
          cases hno
        · rw [Function.update_of_ne hdp, hlive] at hcancelled
          cases hcancelled
  · cases hs

/-- **EVERY LIVE SESSION IS SUPERVISED**: with any number of calls and any
    interleaving in which the slot is taken and cleared in turn, every session
    that is driven and not cancelled can be reached through the slot, and no
    reset cancels a session of a newer call. -/
theorem sessions_supervised (acts : List (Action C))
    (hok : Guarded step InTurn (World.start C) acts) :
    Always step Supervised (World.start C) acts ∧
      AllSteps step SparesNewer (World.start C) acts := by
  refine ⟨?_, ?_⟩
  · refine always_of_guarded ?_ owned_step acts _ owned_start hok
    exact fun w h c hdrive hlive => Or.inl (h.driven c hdrive hlive)
  · exact allSteps_of_guarded spares_newer owned_step acts _ owned_start hok

end Steps

/-! ## Two calls -/

instance [Fintype C] (w : World C) (a : Action C) : Decidable (InTurn w a) :=
  match a with
  | .take c =>
      inferInstanceAs (Decidable (∀ d, (w.call c).gen < (w.call d).gen →
        (w.call d).phase.taken = false))
  | .clear c =>
      inferInstanceAs (Decidable (∀ d, (w.call c).gen < (w.call d).gen →
        (w.call d).phase.taken = false))
  | .bump _ _ => isTrue trivial
  | .connectFails _ => isTrue trivial
  | .install _ => isTrue trivial
  | .runEnds _ => isTrue trivial
  | .reconnect _ => isTrue trivial
  | .giveUp _ => isTrue trivial
  | .check _ => isTrue trivial

/-- Call 0 connects, and call 1 supersedes it while it is being driven. -/
def superseded : List (Action (Fin 2)) :=
  [.bump 0 .connect, .take 0, .install 0, .bump 1 .connect, .take 1,
    .install 1, .runEnds 0, .check 0]

/-- Call 0's task has found the generation its own; before it clears the
    slot, call 1 installs its session. -/
def lateClear : List (Action (Fin 2)) :=
  [.bump 0 .connect, .take 0, .install 0, .runEnds 0, .giveUp 0, .check 0,
    .bump 1 .connect, .take 1, .install 1, .clear 0]

/-- Call 0, a disconnect, takes the slot only after the newer call 1 has
    installed its session. -/
def lateTake : List (Action (Fin 2)) :=
  [.bump 0 .disconnect, .bump 1 .connect, .take 1, .install 1, .take 0]

theorem sessions_supervised_superseded :
    Always step Supervised (World.start (Fin 2)) superseded ∧
      AllSteps step SparesNewer (World.start (Fin 2)) superseded :=
  sessions_supervised superseded (by decide)

/-- **BOTH RACES**: after `lateClear` call 1's session is driven, not
    cancelled and in no slot, and no reset is in progress; the last step of
    `lateTake` cancels a session of a newer call. -/
theorem late_clear_and_late_take :
    (¬ ∀ (acts : List (Action (Fin 2))) (w : World (Fin 2)),
      exec step (World.start (Fin 2)) acts = some w → Supervised w) ∧
    ¬ ∀ acts : List (Action (Fin 2)),
      AllSteps step SparesNewer (World.start (Fin 2)) acts := by
  refine ⟨?_, ?_⟩
  · intro hall
    rcases hall lateClear _ rfl 1 rfl rfl with hslot | htaking
    · cases hslot
    · rcases Fin.exists_fin_two.mp htaking with ⟨kind, h⟩ | ⟨kind, h⟩
      · cases h
      · cases h
  · intro hall
    have hbad := (hall lateTake).2.2.2.2.1 0 1 rfl rfl rfl
    exact absurd hbad (by decide)

end KvmUiSession
