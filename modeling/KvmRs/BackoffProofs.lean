import KvmRs.ReconnectProofs
import Mathlib.Data.List.Infix

/-! # The backoff of the two loops

    `run_with_reconnect` sleeps after each attempt; the loop that
    `connect_to_server` spawns drives a session first and then sleeps before
    each attempt of a loop inside.  Here each of them is a machine that waits
    for one thing at a time: a connect, a session or a sleep.

    From the first session on the machines take the same steps unless they are
    cancelled (`step_eq`), and sleep a power of two that counts the failures
    since the last session (`after_outcomes`).  The attempts of the file on
    reconnecting are those of the machines (`paced_step`). -/

namespace KvmBackoff

open Transition
open KvmConnect (Library ConnectError ConnectOptions)
open KvmReconnect (Loop Run Attempt MAX_BACKOFF)

/-- What an attempt comes to. -/
inductive Outcome where
  /-- A session, which ends after some time. -/
  | success
  | nonFatal
  | fatal
  deriving DecidableEq

/-- What a loop sets about. -/
inductive Event where
  | connect
  | sleep (secs : Nat)
  deriving DecidableEq

/-- What a loop waits for. -/
inductive Waiting where
  | connect | session | sleep
  /-- The loop has returned. -/
  | nothing
  deriving DecidableEq

structure Control where
  waiting : Waiting
  /-- There was a session. -/
  started : Bool
  backoff : Nat
  cancelled : Bool
  /-- A newer call of the UI has bumped the generation. -/
  superseded : Bool
  trace : List Event
  deriving DecidableEq

inductive Action where
  /-- `Session::connect` returns. -/
  | connected (o : Outcome)
  /-- `session.run` returns. -/
  | ended
  /-- The sleep is over; `path` says whether `Config::default_path` succeeds
      then. -/
  | slept (path : Bool)
  /-- The sleep is interrupted by the cancellation. -/
  | woken
  | cancel
  | supersede
  deriving DecidableEq

/-- Before the first connect, which has begun. -/
def Control.start : Control where
  waiting := .connect
  started := false
  backoff := 1
  cancelled := false
  superseded := false
  trace := [.connect]

def Control.connect (s : Control) : Control :=
  { s with waiting := .connect, trace := s.trace ++ [.connect] }

/-- Reset the backoff and drive the session. -/
def Control.drive (s : Control) : Control :=
  { s with waiting := .session, started := true, backoff := 1 }

def Control.sleep (s : Control) : Control :=
  { s with waiting := .sleep, trace := s.trace ++ [.sleep s.backoff] }

/-- Sleep longer the next time. -/
def Control.double (s : Control) : Control :=
  { s with backoff := min (s.backoff * 2) MAX_BACKOFF }

def Control.stop (s : Control) : Control := { s with waiting := .nothing }

/-- Sleep unless cancelled. -/
def Control.pause (s : Control) : Control :=
  if s.cancelled then s.stop else s.sleep

/-- The loop of the command line. -/
def runWithReconnect (s : Control) : Action → Option Control
  | .connected o =>
      match s.waiting with
      | .connect =>
          match o with
          | .success => some s.drive
          | .nonFatal => some s.pause
          | .fatal => some s.stop
      | _ => none
  | .ended =>
      match s.waiting with
      | .session => some s.pause
      | _ => none
  | .slept _ =>
      match s.waiting with
      | .sleep =>
          some (if s.cancelled then s.double.stop else s.double.connect)
      | _ => none
  | .woken =>
      if s.waiting = .sleep ∧ s.cancelled = true then some s.stop else none
  | .cancel => some { s with cancelled := true }
  | .supersede => none

/-- The command of the UI, and the loop it spawns after its first connect. -/
def connectToServer (s : Control) : Action → Option Control
  | .connected o =>
      match s.waiting with
      | .connect =>
          match o with
          | .success => some (if s.superseded then s.stop else s.drive)
          | .nonFatal =>
              -- the first connect is not retried
              some (if s.superseded || !s.started then s.stop else s.sleep)
          | .fatal => some s.stop
      | _ => none
  | .ended =>
      match s.waiting with
      | .session => some s.pause
      | _ => none
  | .slept path =>
      match s.waiting with
      | .sleep => some (if path then s.double.connect else s.double.stop)
      | _ => none
  | .woken =>
      if s.waiting = .sleep ∧ s.cancelled = true then some s.stop else none
  | .cancel =>
      -- the token comes with the first session
      if s.started then some { s with cancelled := true } else none
  | .supersede => some { s with superseded := true }

def step : Loop → Control → Action → Option Control
  | .runWithReconnect _ => runWithReconnect
  | .connectToServer _ _ => connectToServer

/-! ## Without cancellation -/

/-- No cancellation, and the path of the config is found. -/
def Action.Undisturbed : Action → Prop
  | .connected _ => True
  | .ended => True
  | .slept path => path = true
  | .woken => False
  | .cancel => False
  | .supersede => False

structure Calm (s : Control) : Prop where
  cancelled : s.cancelled = false
  superseded : s.superseded = false

/-- And there was a session. -/
structure Settled (s : Control) : Prop extends Calm s where
  started : s.started = true

section Steps

variable {s s' : Control} {a : Action}

theorem Calm.pause (h : Calm s) : s.pause = s.sleep :=
  if_neg (by simp [h.cancelled])

/-- **THE SAME STEP**: after the first session it does not matter where the
    sleep is written. -/
theorem step_eq (h : Settled s) (ha : a.Undisturbed) :
    runWithReconnect s a = connectToServer s a := by
  cases a with
  | connected o =>
      cases o with
      | success =>
          simp only [runWithReconnect, connectToServer, h.superseded,
            Bool.false_eq_true, if_false]
      | nonFatal =>
          simp only [runWithReconnect, connectToServer, h.superseded, h.started,
            h.pause, Bool.not_true, Bool.or_self, Bool.false_eq_true, if_false]
      | fatal => rfl
  | ended => rfl
  | slept path =>
      have hpath : path = true := ha
      simp only [runWithReconnect, connectToServer, h.cancelled, hpath,
        Bool.false_eq_true, if_false, if_true]
  | woken => exact ha.elim
  | cancel => exact ha.elim
  | supersede => exact ha.elim

/-- Nothing is cancelled by what goes on in the loop. -/
theorem settled_step (h : Settled s) (ha : a.Undisturbed)
    (hs : runWithReconnect s a = some s') : Settled s' := by
  have hpause := h.pause
  obtain ⟨⟨hc, hsup⟩, hst⟩ := h
  cases a with
  | connected o =>
      simp only [runWithReconnect] at hs
      split at hs
      · cases o with
        | success => exact Option.some.inj hs ▸ ⟨⟨hc, hsup⟩, rfl⟩
        | nonFatal => exact Option.some.inj hs ▸ hpause ▸ ⟨⟨hc, hsup⟩, hst⟩
        | fatal => exact Option.some.inj hs ▸ ⟨⟨hc, hsup⟩, hst⟩
      · cases hs
  | ended =>
      simp only [runWithReconnect] at hs
      split at hs
      · exact Option.some.inj hs ▸ hpause ▸ ⟨⟨hc, hsup⟩, hst⟩
      · cases hs
  | slept path =>
      simp only [runWithReconnect, hc, Bool.false_eq_true, if_false] at hs
      split at hs
      · exact Option.some.inj hs ▸ ⟨⟨hc, hsup⟩, hst⟩
      · cases hs
  | woken => exact ha.elim
  | cancel => exact ha.elim
  | supersede => exact ha.elim

theorem step_same (l : Loop) (h : Settled s) (ha : a.Undisturbed) :
    step l s a = runWithReconnect s a := by
  cases l with
  | runWithReconnect opts => rfl
  | connectToServer pin trust => exact (step_eq h ha).symm

/-- The loops have the same runs from any point after the first session. -/
theorem exec_same (l l' : Loop) (h : Settled s) {as : List Action}
    (has : ∀ a ∈ as, a.Undisturbed) :
    exec (step l) s as = exec (step l') s as := by
  refine exec_congr ?_ ?_ as s h has
  · intro s a hs ha
    rw [step_same l hs ha, step_same l' hs ha]
  · intro s a s' hs ha hstep
    rw [step_same l hs ha] at hstep
    exact settled_step hs ha hstep

end Steps

/-! ## Attempt by attempt -/

/-- What happens in an attempt with this outcome and up to the next one. -/
def Outcome.actions : Outcome → List Action
  | .success => [.connected .success, .ended, .slept true]
  | .nonFatal => [.connected .nonFatal, .slept true]
  | .fatal => [.connected .fatal]

/-- A loop that has returned takes no notice. -/
def heed (l : Loop) (s : Control) (a : Action) : Option Control :=
  if s.waiting = .nothing then some s else step l s a

/-- What a loop does while its attempts come to this. -/
def performed (l : Loop) (os : List Outcome) : Option (List Event) :=
  (exec (heed l) Control.start (os.flatMap Outcome.actions)).map Control.trace

/-- The failures in a row at the end. -/
def failures (os : List Outcome) : Nat :=
  (os.reverse.takeWhile fun o => o = .nonFatal).length

/-- The sleep and the connect that follow these outcomes. -/
def retry (os : List Outcome) : List Event :=
  [.sleep (min 30 (2 ^ failures os)), .connect]

/-- A connect, and a retry after all outcomes so far, each time, until one of
    them is fatal. -/
def expected (os : List Outcome) : List Event :=
  .connect :: (os.inits.filter fun sofar =>
    sofar ≠ [] ∧ .fatal ∉ sofar).flatMap retry

/-- The loop at the beginning of the attempt after this outcome. -/
def Control.after (s : Control) : Outcome → Control
  | .success => s.drive.sleep.double.connect
  | .nonFatal => s.sleep.double.connect
  | .fatal => s.stop

/-- What the loop has done so far, and what it is about to do. -/
structure After (os : List Outcome) (s : Control) : Prop where
  settled : Settled s
  trace : s.trace = expected os
  returned : .fatal ∈ os → s.waiting = .nothing
  waiting : .fatal ∉ os → s.waiting = .connect
  backoff : .fatal ∉ os → s.backoff = min 30 (2 ^ (failures os + 1))

section Attempts

variable {l : Loop} {s s' : Control} {o : Outcome} {os : List Outcome}

theorem step_success (h : Calm s) (hwait : s.waiting = .connect) :
    step l s (.connected .success) = some s.drive := by
  cases l with
  | runWithReconnect opts => simp only [step, runWithReconnect, hwait]
  | connectToServer pin trust =>
      simp only [step, connectToServer, hwait, h.superseded,
        Bool.false_eq_true, if_false]

theorem step_nonFatal (h : Calm s) (hwait : s.waiting = .connect)
    (hretry : s.started = true ∨ ∃ opts, l = .runWithReconnect opts) :
    step l s (.connected .nonFatal) = some s.sleep := by
  cases l with
  | runWithReconnect opts => simp only [step, runWithReconnect, hwait, h.pause]
  | connectToServer pin trust =>
      have hst : s.started = true := hretry.resolve_right (by simp)
      simp only [step, connectToServer, hwait, h.superseded, hst, Bool.not_true,
        Bool.or_self, Bool.false_eq_true, if_false]

theorem step_fatal (hwait : s.waiting = .connect) :
    step l s (.connected .fatal) = some s.stop := by
  cases l with
  | runWithReconnect opts => simp only [step, runWithReconnect, hwait]
  | connectToServer pin trust => simp only [step, connectToServer, hwait]

theorem step_ended (h : Calm s) (hwait : s.waiting = .session) :
    step l s .ended = some s.sleep := by
  cases l with
  | runWithReconnect opts => simp only [step, runWithReconnect, hwait, h.pause]
  | connectToServer pin trust =>
      simp only [step, connectToServer, hwait, h.pause]

theorem step_slept (h : Calm s) (hwait : s.waiting = .sleep) :
    step l s (.slept true) = some s.double.connect := by
  cases l with
  | runWithReconnect opts =>
      simp only [step, runWithReconnect, hwait, h.cancelled,
        Bool.false_eq_true, if_false]
  | connectToServer pin trust =>
      simp only [step, connectToServer, hwait, if_true]

/-- A loop that waits for something takes notice. -/
theorem heed_some {a : Action} (w : Waiting) (hwait : s.waiting = w)
    (hw : w ≠ .nothing) (hs : step l s a = some s') :
    heed l s a = some s' :=
  (if_neg (hwait ▸ hw)).trans hs

/-- An attempt after which the loop is not left. -/
theorem heed_attempt (h : Calm s) (hwait : s.waiting = .connect)
    (hretry : s.started = true ∨ (∃ opts, l = .runWithReconnect opts) ∨
      o ≠ .nonFatal) :
    exec (heed l) s o.actions = some (s.after o) := by
  cases o with
  | success =>
      have hdrive : Calm s.drive := ⟨h.cancelled, h.superseded⟩
      have hsleep : Calm s.drive.sleep := ⟨h.cancelled, h.superseded⟩
      have hconnected := heed_some (l := l) .connect hwait (by decide)
        (step_success h hwait)
      have hended := heed_some (l := l) .session rfl (by decide)
        (step_ended hdrive rfl)
      have hslept := heed_some (l := l) .sleep rfl (by decide)
        (step_slept hsleep rfl)
      rw [Outcome.actions, exec_cons_some hconnected, exec_cons_some hended,
        exec_cons_some hslept]
      rfl
  | nonFatal =>
      have hsleep : Calm s.sleep := ⟨h.cancelled, h.superseded⟩
      have hagain : s.started = true ∨ ∃ opts, l = .runWithReconnect opts :=
        hretry.imp_right fun h => h.resolve_right (fun hne => hne rfl)
      have hconnected := heed_some .connect hwait (by decide)
        (step_nonFatal h hwait hagain)
      have hslept := heed_some (l := l) .sleep rfl (by decide)
        (step_slept hsleep rfl)
      rw [Outcome.actions, exec_cons_some hconnected, exec_cons_some hslept]
      rfl
  | fatal =>
      have hconnected := heed_some (l := l) .connect hwait (by decide)
        (step_fatal hwait)
      rw [Outcome.actions, exec_cons_some hconnected]
      rfl

theorem heed_returned (h : s.waiting = .nothing) (as : List Action) :
    exec (heed l) s as = some s := by
  induction as with
  | nil => rfl
  | cons a as ih => rw [exec_cons_some (if_pos h), ih]

/-- The first connect of the UI is not retried. -/
theorem heed_first_failure {pin : Option String} {trust : Bool}
    (hwait : s.waiting = .connect) (hst : s.started = false) :
    exec (heed (.connectToServer pin trust)) s Outcome.nonFatal.actions
      = some s.stop := by
  have hstep : step (.connectToServer pin trust) s (.connected .nonFatal)
      = some s.stop := by
    simp only [step, connectToServer, hwait, hst, Bool.not_false, Bool.or_true,
      if_true]
  rw [Outcome.actions,
    exec_cons_some (heed_some .connect hwait (by decide) hstep)]
  exact heed_returned rfl _

theorem failures_success : failures (os ++ [.success]) = 0 := by
  rw [failures, List.reverse_append]
  rfl

theorem failures_nonFatal :
    failures (os ++ [.nonFatal]) = failures os + 1 := by
  rw [failures, List.reverse_append]
  rfl

/-- One more outcome, one more retry, unless one of them was fatal. -/
theorem expected_snoc : expected (os ++ [o])
    = expected os ++ if .fatal ∈ os ++ [o] then [] else retry (os ++ [o]) := by
  have hinits : (os ++ [o]).inits = os.inits ++ [os ++ [o]] := by
    rw [List.inits_append]
    rfl
  rw [expected, hinits, List.filter_append, List.flatMap_append]
  by_cases hfatal : .fatal ∈ os ++ [o]
  · rw [if_pos hfatal, List.filter_cons_of_neg (by simp [hfatal])]
    rfl
  · rw [if_neg hfatal, List.filter_cons_of_pos (by simpa using hfatal),
      List.filter_nil, List.flatMap_singleton]
    rfl

/-- The first session. -/
theorem after_success : After [.success] (Control.start.after .success) where
  settled := ⟨⟨rfl, rfl⟩, rfl⟩
  trace := rfl
  returned := fun h => absurd h (by decide)
  waiting := fun _ => rfl
  backoff := fun _ => rfl

/-- **ONE ATTEMPT MORE**, if no outcome has been fatal. -/
theorem After.snoc (h : After os s) (hfatal : .fatal ∉ os) (o : Outcome) :
    After (os ++ [o]) (s.after o) := by
  obtain ⟨⟨⟨hc, hsup⟩, hst⟩, htrace, -, -, hbackoff⟩ := h
  have hb := hbackoff hfatal
  cases o with
  | success =>
      have hno : .fatal ∉ os ++ [.success] := by simpa using hfatal
      refine ⟨⟨⟨hc, hsup⟩, rfl⟩, ?_, fun h => absurd h hno, fun _ => rfl, ?_⟩
      · rw [expected_snoc, if_neg hno, retry, failures_success, ← htrace]
        exact List.append_assoc ..
      · intro _
        rw [failures_success]
        rfl
  | nonFatal =>
      have hno : .fatal ∉ os ++ [.nonFatal] := by simpa using hfatal
      refine ⟨⟨⟨hc, hsup⟩, hst⟩, ?_, fun h => absurd h hno, fun _ => rfl, ?_⟩
      · rw [expected_snoc, if_neg hno, retry, failures_nonFatal, ← htrace, ← hb]
        exact List.append_assoc ..
      · intro _
        show min (s.backoff * 2) MAX_BACKOFF = _
        rw [failures_nonFatal, hb, MAX_BACKOFF, Nat.pow_succ 2 (_ + 1)]
        omega
  | fatal =>
      have hyes : .fatal ∈ os ++ [.fatal] := by simp
      refine ⟨⟨⟨hc, hsup⟩, hst⟩, ?_, fun _ => rfl, fun h => absurd hyes h,
        fun h => absurd hyes h⟩
      rw [expected_snoc, if_pos hyes, List.append_nil, ← htrace]
      rfl

/-- After a fatal outcome nothing is added. -/
theorem After.snoc_fatal (h : After os s) (hfatal : .fatal ∈ os)
    (o : Outcome) : After (os ++ [o]) s := by
  have hyes : .fatal ∈ os ++ [o] := List.mem_append_left _ hfatal
  refine ⟨h.settled, ?_, fun _ => h.returned hfatal, fun hno => absurd hyes hno,
    fun hno => absurd hyes hno⟩
  rw [expected_snoc, if_pos hyes, List.append_nil, h.trace]

/-- **EVERY ATTEMPT**: after any outcomes the loop has done what is expected
    of it. -/
theorem after_outcomes (l : Loop) (os : List Outcome) :
    ∃ s, exec (heed l) Control.start
        ((.success :: os).flatMap Outcome.actions) = some s ∧
      After (.success :: os) s := by
  induction os using List.reverseRecOn with
  | nil =>
      have hfirst : exec (heed l) Control.start Outcome.success.actions
          = some (Control.start.after .success) :=
        heed_attempt ⟨rfl, rfl⟩ rfl (Or.inr (Or.inr (by decide)))
      exact ⟨_, hfirst, after_success⟩
  | append_singleton os o ih =>
      obtain ⟨s, hrun, hs⟩ := ih
      rw [← List.cons_append, List.flatMap_append, exec_append hrun,
        List.flatMap_singleton]
      by_cases hfatal : .fatal ∈ Outcome.success :: os
      · exact ⟨s, heed_returned (hs.returned hfatal) _, hs.snoc_fatal hfatal o⟩
      · exact ⟨s.after o, heed_attempt hs.settled.toCalm (hs.waiting hfatal)
          (Or.inl hs.settled.started), hs.snoc hfatal o⟩

end Attempts

/-- What the two loops have in common after a first successful connect: what
    they do, and that this is a connect and, after each outcome until one is
    fatal, a sleep of `2 ^ k` seconds but at most 30, `k` being the number of
    failures since the last success, and another connect.  Halfway through an
    attempt they are in the same state, too. -/
structure BackOffAlike (l l' : Loop) (os : List Outcome) : Prop where
  policy : performed l (.success :: os) = some (expected (.success :: os))
  same : performed l' (.success :: os) = performed l (.success :: os)
  halfway : ∀ as, (∀ a ∈ as, a.Undisturbed) →
    exec (step l) Control.start (.connected .success :: as)
      = exec (step l') Control.start (.connected .success :: as)

theorem performed_expected (l : Loop) (os : List Outcome) :
    performed l (.success :: os) = some (expected (.success :: os)) := by
  obtain ⟨s, hrun, hs⟩ := after_outcomes l os
  rw [performed, hrun, ← hs.trace]
  rfl

/-- **THE LOOPS BACK OFF ALIKE**: for every sequence of outcomes after a first
    successful connect and without cancellation. -/
theorem loops_back_off_alike (l l' : Loop) (os : List Outcome) :
    BackOffAlike l l' os where
  policy := performed_expected l os
  same := (performed_expected l' os).trans (performed_expected l os).symm
  halfway := by
    intro as has
    have hcalm : Calm Control.start := ⟨rfl, rfl⟩
    rw [exec_cons_some (step_success hcalm rfl),
      exec_cons_some (step_success hcalm rfl)]
    exact exec_same l l' ⟨⟨rfl, rfl⟩, rfl⟩ has

/-- Six failures, a session, and one more failure. -/
example : expected [.success, .nonFatal, .nonFatal, .nonFatal, .nonFatal,
      .nonFatal, .nonFatal, .success, .nonFatal, .fatal, .success]
    = [.connect, .sleep 1, .connect, .sleep 2, .connect, .sleep 4, .connect,
      .sleep 8, .connect, .sleep 16, .connect, .sleep 30, .connect, .sleep 30,
      .connect, .sleep 1, .connect, .sleep 2, .connect] := by
  decide

/-! ## Real attempts -/

/-- How long the sleeps are. -/
def sleeps (trace : List Event) : List Nat :=
  trace.filterMap fun e =>
    match e with
    | .sleep secs => some secs
    | .connect => none

def outcomeOf {R : Type} : Except ConnectError R → Outcome
  | .ok _ => .success
  | .error (.fatal _) => .fatal
  | .error (.other _) => .nonFatal

/-- What an attempt of a run comes to. -/
def outcome (k : Library) (l : Loop) (r : Run) (x : Attempt) : Outcome :=
  outcomeOf ((r.call l x).run k (r.load x)).result

def outcomes (k : Library) (l : Loop) : Run → List Attempt → List Outcome
  | _, [] => []
  | r, x :: xs =>
      outcome k l r x ::
        match KvmReconnect.step k l r x with
        | some r' => outcomes k l r' xs
        | none => []

/-- The run at the time of the next connect: in the UI a sleep later. -/
def atConnect : Loop → Run → Run
  | .runWithReconnect _, r => r
  | .connectToServer _ _, r =>
      if r.started = true ∧ r.stopped = false then r.pause else r

/-- The machine keeps the pauses of the run. -/
structure Paced (l : Loop) (r : Run) (s : Control) : Prop extends Calm s where
  waiting : s.waiting = if r.stopped then .nothing else .connect
  started : s.started = r.started
  backoff : s.backoff = (atConnect l r).backoff
  slept : sleeps s.trace = (atConnect l r).slept

/-- The machine is as far as the run. -/
structure Abreast (r : Run) (s : Control) : Prop extends Calm s where
  started : s.started = r.started
  backoff : s.backoff = r.backoff
  slept : sleeps s.trace = r.slept

section Paced

variable {k : Library} {l : Loop} {r r' : Run} {x : Attempt} {s : Control}

theorem paced_start (l : Loop) (disk : KvmClientConfig.Config)
    (addr : List Char) : Paced l (Run.start disk addr) Control.start where
  cancelled := rfl
  superseded := rfl
  waiting := rfl
  started := rfl
  backoff := by cases l <;> rfl
  slept := by cases l <;> rfl

theorem sleeps_append (t t' : List Event) :
    sleeps (t ++ t') = sleeps t ++ sleeps t' :=
  List.filterMap_append ..

theorem sleeps_success :
    sleeps (s.after .success).trace = sleeps s.trace ++ [1] := by
  show sleeps ((s.trace ++ [.sleep 1]) ++ [.connect]) = _
  rw [sleeps_append, sleeps_append]
  exact List.append_nil _

theorem sleeps_nonFatal :
    sleeps (s.after .nonFatal).trace = sleeps s.trace ++ [s.backoff] := by
  show sleeps ((s.trace ++ [.sleep s.backoff]) ++ [.connect]) = _
  rw [sleeps_append, sleeps_append]
  exact List.append_nil _

/-- A session, whatever else is recorded of it, and the sleep after it. -/
theorem Abreast.session (h : Abreast r s) (hst : r'.started = true)
    (hbackoff : r'.backoff = 1) (hslept : r'.slept = r.slept) :
    Abreast r'.pause (s.after .success) where
  cancelled := h.cancelled
  superseded := h.superseded
  started := hst.symm
  backoff := by
    show 2 = min (r'.backoff * 2) MAX_BACKOFF
    rw [hbackoff]
    rfl
  slept := by
    rw [sleeps_success, h.slept, ← hslept, ← hbackoff]
    rfl

/-- A failure and the sleep after it. -/
theorem Abreast.failed (h : Abreast r s) :
    Abreast r.pause (s.after .nonFatal) where
  cancelled := h.cancelled
  superseded := h.superseded
  started := h.started
  backoff := by
    show min (s.backoff * 2) MAX_BACKOFF = _
    rw [h.backoff]
    rfl
  slept := by
    rw [sleeps_nonFatal, h.slept, h.backoff]
    rfl

theorem Abreast.stop (h : Abreast r s) :
    Abreast { r with stopped := true } s.stop where
  cancelled := h.cancelled
  superseded := h.superseded
  started := h.started
  backoff := h.backoff
  slept := h.slept

theorem atConnect_started : (atConnect l r).started = r.started := by
  cases l with
  | runWithReconnect opts => rfl
  | connectToServer pin trust =>
      rw [atConnect]
      split <;> rfl

theorem atConnect_stopped (h : r.stopped = true) : atConnect l r = r := by
  cases l with
  | runWithReconnect opts => rfl
  | connectToServer pin trust => exact if_neg (by simp [h])

theorem atConnect_session {pin : Option String} {trust : Bool}
    (hst : r.started = true) (hstopped : r.stopped = false) :
    atConnect (.connectToServer pin trust) r = r.pause :=
  if_pos ⟨hst, hstopped⟩

theorem Paced.abreast (h : Paced l r s) : Abreast (atConnect l r) s where
  cancelled := h.cancelled
  superseded := h.superseded
  started := h.started.trans atConnect_started.symm
  backoff := h.backoff
  slept := h.slept

theorem Abreast.paced (h : Abreast (atConnect l r) s)
    (hwait : s.waiting = if r.stopped then .nothing else .connect) :
    Paced l r s where
  cancelled := h.cancelled
  superseded := h.superseded
  waiting := hwait
  started := h.started.trans atConnect_started
  backoff := h.backoff
  slept := h.slept

theorem Paced.waits (h : Paced l r s) (hstopped : r.stopped = false) :
    s.waiting = .connect := by
  rw [h.waiting, hstopped]
  rfl

/-- The loop returns. -/
theorem Abreast.returned (h : Abreast r s) :
    Paced l { r with stopped := true } s.stop := by
  refine Abreast.paced ?_ rfl
  rw [atConnect_stopped rfl]
  exact h.stop

/-- An attempt of the command line, which sleeps after it. -/
theorem paced_runWithReconnect {opts : ConnectOptions}
    (h : Paced (.runWithReconnect opts) r s) (hstopped : r.stopped = false)
    (hs : KvmReconnect.step k (.runWithReconnect opts) r x = some r') :
    Paced (.runWithReconnect opts) r'
      (s.after (outcome k (.runWithReconnect opts) r x)) := by
  have habreast : Abreast r s := h.abreast
  have hrunning : Waiting.connect
      = if r.stopped then Waiting.nothing else Waiting.connect := by
    rw [hstopped]
    rfl
  rw [KvmReconnect.step, if_neg (by simp [hstopped])] at hs
  rw [outcome]
  cases hres : ((r.call (.runWithReconnect opts) x).run k (r.load x)).result with
  | ok session =>
      simp only [hres] at hs
      rw [← Option.some.inj hs]
      exact Abreast.paced (habreast.session rfl rfl rfl) hrunning
  | error e =>
      simp only [hres] at hs
      cases e with
      | fatal msg =>
          rw [← Option.some.inj hs]
          exact habreast.returned
      | other msg =>
          rw [← Option.some.inj hs]
          exact Abreast.paced habreast.failed hrunning

/-- An attempt of the UI, which sleeps before it. -/
theorem paced_connectToServer {pin : Option String} {trust : Bool}
    (h : Paced (.connectToServer pin trust) r s) (hstopped : r.stopped = false)
    (hx : x.superseded = false)
    (hs : KvmReconnect.step k (.connectToServer pin trust) r x = some r') :
    Paced (.connectToServer pin trust) r'
      (if r.started = true ∨
          outcome k (.connectToServer pin trust) r x ≠ .nonFatal then
        s.after (outcome k (.connectToServer pin trust) r x)
      else s.stop) := by
  have habreast := h.abreast
  have hpstarted := @atConnect_started (.connectToServer pin trust) r
  have hp : atConnect (.connectToServer pin trust) r
      = if r.started = true then r.pause else r := by
    simp only [atConnect, hstopped, and_true]
  rw [hp] at habreast hpstarted
  rw [KvmReconnect.step, if_neg (by simp [hstopped])] at hs
  generalize (if r.started = true then r.pause else r) = p at *
  rw [outcome]
  cases hres : ((r.call (.connectToServer pin trust) x).run k (r.load x)).result with
  | ok session =>
      simp only [hres, hx] at hs
      rw [← Option.some.inj hs, if_pos (Or.inr (by simp [outcomeOf]))]
      refine Abreast.paced ?_ rfl
      rw [atConnect_session rfl rfl]
      exact habreast.session rfl rfl rfl
  | error e =>
      simp only [hres, hx] at hs
      cases e with
      | fatal msg =>
          rw [← Option.some.inj hs, if_pos (Or.inr (by simp [outcomeOf]))]
          exact habreast.returned
      | other msg =>
          rw [← Option.some.inj hs]
          cases hst : r.started with
          | false =>
              rw [if_neg (by simp [outcomeOf])]
              exact habreast.returned
          | true =>
              have hrunning : Abreast { p with stopped := false } s :=
                ⟨habreast.toCalm, habreast.started, habreast.backoff,
                  habreast.slept⟩
              have hat : atConnect (.connectToServer pin trust)
                  { p with stopped := false } = { p with stopped := false }.pause :=
                atConnect_session (hpstarted.trans hst) rfl
              rw [if_pos (Or.inl rfl)]
              refine Abreast.paced ?_ rfl
              rw [Bool.not_true, Bool.or_self, hat]
              exact hrunning.failed

/-- **THE MACHINE AT AN ATTEMPT**: unless superseded, each attempt of a run is
    one of the machine. -/
theorem paced_step (h : Paced l r s) (hx : x.superseded = false)
    (hs : KvmReconnect.step k l r x = some r') :
    ∃ s', exec (heed l) s (outcome k l r x).actions = some s' ∧
      Paced l r' s' := by
  have hstopped : r.stopped = false := by
    rw [KvmReconnect.step] at hs
    split at hs
    · cases hs
    · exact Bool.not_eq_true _ ▸ ‹_›
  have hwait := h.waits hstopped
  cases l with
  | runWithReconnect opts =>
      exact ⟨_, heed_attempt h.toCalm hwait (Or.inr (Or.inl ⟨opts, rfl⟩)),
        paced_runWithReconnect h hstopped hs⟩
  | connectToServer pin trust =>
      refine ⟨_, ?_, paced_connectToServer h hstopped hx hs⟩
      split
      · rename_i hretry
        rw [← h.started] at hretry
        exact heed_attempt h.toCalm hwait (hretry.imp_right Or.inr)
      · rename_i hgiveUp
        obtain ⟨hst, hout⟩ := not_or.mp hgiveUp
        rw [not_not.mp hout]
        exact heed_first_failure hwait (h.started.trans (Bool.not_eq_true _ ▸ hst))

/-- **THE MACHINE KEEPS PACE** with every run of either loop that is not
    superseded. -/
theorem paced_run {xs : List Attempt} (h : Paced l r s)
    (hxs : ∀ x ∈ xs, x.superseded = false)
    (hrun : exec (KvmReconnect.step k l) r xs = some r') :
    ∃ s', exec (heed l) s ((outcomes k l r xs).flatMap Outcome.actions)
        = some s' ∧ Paced l r' s' := by
  induction xs generalizing r s with
  | nil =>
      rw [← Option.some.inj hrun]
      exact ⟨s, rfl, h⟩
  | cons x xs ih =>
      obtain ⟨r₁, hstep, hrest⟩ := exec_cons hrun
      obtain ⟨s₁, hs₁, hpaced⟩ :=
        paced_step h (hxs x (List.mem_cons_self ..)) hstep
      obtain ⟨s₂, hs₂, hend⟩ :=
        ih hpaced (fun y hy => hxs y (List.mem_cons_of_mem x hy)) hrest
      refine ⟨s₂, ?_, hend⟩
      rw [outcomes, hstep, List.flatMap_cons, exec_append hs₁]
      exact hs₂

/-- The pauses of a run that begins with a session are those expected of its
    outcomes. -/
theorem pauses_expected {disk : KvmClientConfig.Config} {addr : List Char}
    {xs : List Attempt} {os : List Outcome}
    (hxs : ∀ x ∈ xs, x.superseded = false)
    (hos : outcomes k l (Run.start disk addr) xs = .success :: os)
    (hrun : exec (KvmReconnect.step k l) (Run.start disk addr) xs = some r') :
    (atConnect l r').slept = sleeps (expected (.success :: os)) := by
  obtain ⟨s, hs, hpaced⟩ := paced_run (paced_start l disk addr) hxs hrun
  obtain ⟨s', hs', hafter⟩ := after_outcomes l os
  rw [hos, hs'] at hs
  rw [← hpaced.slept, ← Option.some.inj hs, hafter.trace]

end Paced

end KvmBackoff
