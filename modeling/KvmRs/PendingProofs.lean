import KvmRs.TransitionProofs
import Mathlib.Algebra.BigOperators.Group.Finset.Piecewise

/-! # Pending connections

    The accept loops of `run_server` and `FileTransferServer::run`, and how
    long the task of a connection keeps its permit.  Both loops drop a new
    connection when the semaphore has no permit left; `handle_client` registers
    a connection once it is paired and then gives its permit back, the task of
    a file transfer only when it ends.  So the cap of the control server is a
    cap on pending connections, and that of the file server one on all open
    ones. -/

namespace KvmPending

open Transition

/-- The same constant in `server.rs` and `file_transfer.rs`. -/
def MAX_PENDING_CONNECTIONS : Nat := 256

/-- Where a connection stands. -/
inductive Stage where
  /-- Not yet accepted. -/
  | incoming
  /-- Accepted and dropped: there was no permit. -/
  | dropped
  /-- In `acceptor.accept`, under `HANDSHAKE_TIMEOUT`. -/
  | handshaking
  /-- In the handler, which has not yet accepted the pairing. -/
  | pairing
  /-- `PairAccept` is sent; `handle_client` puts the connection into the
      registry and has not yet dropped the permit. -/
  | registering
  | paired
  | closed
  deriving DecidableEq

/-- What can happen to a connection.  `pairFailed` is every error by which
    the handler returns before the pairing is through. -/
inductive Event (C : Type) where
  | accept (c : C)
  | tlsOk (c : C)
  | tlsFailed (c : C)
  | tlsTimedOut (c : C)
  | pairOk (c : C)
  | registered (c : C)
  | pairFailed (c : C)
  | ended (c : C)

/-- Where the permit goes: into the handler, which drops it after pairing, or
    into the task around it. -/
structure Listener where
  handlerDropsPermit : Bool

/-- `run_server`: `handle_client` calls `drop(pending_permit)`. -/
def runServer : Listener := ⟨true⟩

/-- `FileTransferServer::run`: `let _permit = permit;` in the task. -/
def fileTransferServer : Listener := ⟨false⟩

/-- The permits left in the semaphore, and the connections. -/
structure World (C : Type) where
  permits : Nat
  stage : C → Stage

def start (C : Type) : World C where
  permits := MAX_PENDING_CONNECTIONS
  stage := fun _ => .incoming

section Steps

variable {C : Type} [DecidableEq C]

/-- A connection goes on from a stage, and its task gives back `released`
    permits on the way. -/
def World.move (w : World C) (c : C) (before after : Stage)
    (released : Nat) : Option (World C) :=
  if w.stage c = before then
    some ⟨w.permits + released, Function.update w.stage c after⟩
  else none

def step (l : Listener) (w : World C) : Event C → Option (World C)
  | .accept c =>
      if w.stage c = .incoming then
        -- `try_acquire_owned`
        match w.permits with
        | 0 => some ⟨0, Function.update w.stage c .dropped⟩
        | n + 1 => some ⟨n, Function.update w.stage c .handshaking⟩
      else none
  | .tlsOk c => w.move c .handshaking .pairing 0
  | .tlsFailed c => w.move c .handshaking .closed 1
  | .tlsTimedOut c => w.move c .handshaking .closed 1
  | .pairOk c =>
      w.move c .pairing (if l.handlerDropsPermit then .registering else .paired)
        0
  | .registered c =>
      w.move c .registering .paired (if l.handlerDropsPermit then 1 else 0)
  | .pairFailed c => w.move c .pairing .closed 1
  | .ended c =>
      w.move c .paired .closed (if l.handlerDropsPermit then 0 else 1)

/-- A connection is dropped exactly if the semaphore is empty. -/
theorem step_accept {l : Listener} {w w' : World C} {c : C}
    (hs : step l w (.accept c) = some w') :
    w'.stage c = .dropped ↔ w.permits = 0 := by
  simp only [step] at hs
  split at hs
  · split at hs
    · rename_i hnone
      rw [← Option.some.inj hs]
      exact iff_of_true (Function.update_self ..) hnone
    · rename_i n hsome
      rw [← Option.some.inj hs, hsome]
      refine iff_of_false ?_ (Nat.succ_ne_zero n)
      intro hdrop
      have hstage : Function.update w.stage c .handshaking c = .dropped := hdrop
      rw [Function.update_self] at hstage
      cases hstage
  · cases hs

end Steps

/-! ## The permits are accounted for -/

def Stage.isPending : Stage → Bool
  | .handshaking => true
  | .pairing => true
  | .registering => true
  | _ => false

/-- The permits a connection holds at a stage. -/
def Listener.held (l : Listener) : Stage → Nat
  | .handshaking => 1
  | .pairing => 1
  | .registering => 1
  | .paired => if l.handlerDropsPermit then 0 else 1
  | _ => 0

section Accounts

variable {C : Type} [Fintype C]

/-- The connections that have not yet finished handshake and pairing, the
    registration that ends it included. -/
def pending (w : World C) : Nat :=
  (Finset.univ.filter fun c => (w.stage c).isPending).card

/-- The connections of paired devices. -/
def pairedOpen (w : World C) : Nat :=
  (Finset.univ.filter fun c => w.stage c = .paired).card

/-- Every permit is in the semaphore or with a connection. -/
def Accounted (l : Listener) (w : World C) : Prop :=
  w.permits + ∑ c, l.held (w.stage c) = MAX_PENDING_CONNECTIONS

theorem accounted_start (l : Listener) : Accounted l (start C) := by
  have hnone : ∑ c, l.held ((start C).stage c) = 0 :=
    Finset.sum_eq_zero fun c _ => rfl
  rw [Accounted, hnone]
  rfl

/-- The permits that are out, by who has them. -/
theorem sum_held (l : Listener) (w : World C) :
    ∑ c, l.held (w.stage c)
      = pending w + if l.handlerDropsPermit then 0 else pairedOpen w := by
  have hsplit : ∀ s : Stage, l.held s = (if s.isPending then 1 else 0)
      + if l.handlerDropsPermit then 0 else if s = .paired then 1 else 0 := by
    intro s
    cases s <;> simp [Listener.held, Stage.isPending]
  rw [pending, pairedOpen, Finset.card_filter, Finset.card_filter,
    Finset.sum_congr rfl fun c _ => hsplit (w.stage c), Finset.sum_add_distrib]
  congr 1
  split
  · exact Finset.sum_const_zero
  · rfl

theorem Accounted.pending_le {l : Listener} {w : World C}
    (h : Accounted l w) : pending w ≤ MAX_PENDING_CONNECTIONS := by
  rw [Accounted, sum_held] at h
  omega

variable [DecidableEq C]

/-- What a connection had and no longer holds is back in the semaphore. -/
theorem Accounted.update {l : Listener} {w : World C} (h : Accounted l w)
    (c : C) (after : Stage) {permits : Nat}
    (hp : permits + l.held after = w.permits + l.held (w.stage c)) :
    Accounted l ⟨permits, Function.update w.stage c after⟩ := by
  have hsum := sum_update (fun _ s => l.held s) w.stage c after
  rw [Accounted] at h ⊢
  show permits + ∑ x, l.held (Function.update w.stage c after x) = _
  omega

theorem accounted_move {l : Listener} {w w' : World C} {c : C}
    {before after : Stage} {released : Nat} (h : Accounted l w)
    (hs : w.move c before after released = some w')
    (hheld : l.held before = released + l.held after) : Accounted l w' := by
  rw [World.move] at hs
  split at hs
  · rename_i hstage
    rw [← Option.some.inj hs]
    refine h.update c after ?_
    rw [hstage, hheld, Nat.add_assoc]
  · cases hs

/-- **ONE STEP** keeps the accounts. -/
theorem accounted_step {l : Listener} {w w' : World C} {e : Event C}
    (h : Accounted l w) (hs : step l w e = some w') : Accounted l w' := by
  cases e with
  | accept c =>
      simp only [step] at hs
      split at hs
      · rename_i hstage
        split at hs
        · rename_i hnone
          rw [← Option.some.inj hs]
          exact h.update c .dropped (by rw [hstage, hnone]; rfl)
        · rename_i n hsome
          rw [← Option.some.inj hs]
          exact h.update c .handshaking (by rw [hstage, hsome]; rfl)
      · cases hs
  | tlsOk c => exact accounted_move h hs rfl
  | tlsFailed c => exact accounted_move h hs rfl
  | tlsTimedOut c => exact accounted_move h hs rfl
  | pairOk c =>
      refine accounted_move h hs ?_
      cases hl : l.handlerDropsPermit <;> simp [Listener.held, hl]
  | registered c =>
      refine accounted_move h hs ?_
      simp only [Listener.held]
      split <;> rfl
  | pairFailed c => exact accounted_move h hs rfl
  | ended c =>
      refine accounted_move h hs ?_
      simp only [Listener.held]
      split <;> rfl

end Accounts

/-! ## Who is dropped -/

section Drops

variable {C : Type} [DecidableEq C] [Fintype C]

/-- A new connection is dropped only if as many connections as the cap allows
    are pending. -/
def DropsOnlyWhenFull (w : World C) (e : Event C) (w' : World C) : Prop :=
  ∀ c, e = .accept c → w'.stage c = .dropped →
    pending w = MAX_PENDING_CONNECTIONS

/-- When a connection comes in, no paired connection is open or there are
    fewer open connections than permits. -/
def Uncontended (w : World C) : Event C → Prop
  | .accept _ => pairedOpen w = 0 ∨
      pending w + pairedOpen w < MAX_PENDING_CONNECTIONS
  | _ => True

/-- The control server: an empty semaphore means that all are pending. -/
theorem runServer_drops {w w' : World C} {e : Event C}
    (h : Accounted runServer w) (hs : step runServer w e = some w') :
    DropsOnlyWhenFull w e w' := by
  rintro c rfl hdrop
  have hempty := (step_accept hs).mp hdrop
  rw [Accounted, sum_held, hempty] at h
  simpa [runServer] using h

/-- The file server: an empty semaphore means that all are pending only if
    none is paired. -/
theorem fileTransferServer_drops {w w' : World C} {e : Event C}
    (h : Accounted fileTransferServer w)
    (hs : step fileTransferServer w e = some w') :
    DropsOnlyWhenFull w e w' ↔ Uncontended w e := by
  cases e with
  | accept c =>
      have hiff := step_accept hs
      rw [Accounted, sum_held] at h
      have hsum : w.permits + (pending w + pairedOpen w)
          = MAX_PENDING_CONNECTIONS := h
      constructor
      · intro hfull
        rw [Uncontended]
        by_cases hempty : w.permits = 0
        · have hall := hfull c rfl (hiff.mpr hempty)
          omega
        · omega
      · rintro hok c' heq hdrop
        obtain rfl := Event.accept.inj heq
        have hempty := hiff.mp hdrop
        rw [Uncontended] at hok
        omega
  | _ =>
      refine iff_of_true ?_ trivial
      intro c heq
      cases heq

theorem fileTransferServer_exact (w : World C) (e : Event C) (w' : World C)
    (h : Accounted fileTransferServer w)
    (hs : step fileTransferServer w e = some w') :
    Accounted fileTransferServer w' ∧
      (DropsOnlyWhenFull w e w' ↔ Uncontended w e) :=
  ⟨accounted_step h hs, fileTransferServer_drops h hs⟩

/-- The cap is kept all along the run, and only pending connections count
    against it. -/
def Capped (l : Listener) (run : List (Event C)) : Prop :=
  Always (step l) (fun w => pending w ≤ MAX_PENDING_CONNECTIONS) (start C) run ∧
    AllSteps (step l) DropsOnlyWhenFull (start C) run

theorem always_pending_le (l : Listener) (run : List (Event C)) :
    Always (step l) (fun w => pending w ≤ MAX_PENDING_CONNECTIONS) (start C)
      run :=
  always_of_guarded (fun _ => Accounted.pending_le)
    (fun _ _ _ h _ => accounted_step h) run _ (accounted_start l)
    (guarded_of_forall run _ fun _ _ _ => trivial)

/-- **THE TWO CAPS**: over any number of connections and in every order of
    what happens to them, the control server drops a new connection only when
    256 are pending; the file server does exactly in the runs in which no
    connection comes in while paired transfers and pending connections
    together use up the permits. -/
theorem pending_cap (run : List (Event C)) :
    (∀ t, exec (step runServer) (start C) run = some t →
      Capped runServer run) ∧
    (∀ t, exec (step fileTransferServer) (start C) run = some t →
      (Capped fileTransferServer run ↔
        Guarded (step fileTransferServer) Uncontended (start C) run)) := by
  constructor
  · intro t _
    refine ⟨always_pending_le runServer run, ?_⟩
    exact allSteps_of_guarded (fun _ _ _ h _ => runServer_drops h)
      (fun _ _ _ h _ => accounted_step h) run _ (accounted_start runServer)
      (guarded_of_forall run _ fun _ _ _ => trivial)
  · intro t he
    have hexact : AllSteps (step fileTransferServer) DropsOnlyWhenFull
        (start C) run
          ↔ Guarded (step fileTransferServer) Uncontended (start C) run :=
      allSteps_iff_guarded_of_exec fileTransferServer_exact run (start C) t
        (accounted_start fileTransferServer) he
    rw [Capped, hexact]
    exact and_iff_right (always_pending_le fileTransferServer run)

end Drops

/-! ## Transfers in place of handshakes -/

/-- The first `n` connections are paired and transfer a file each. -/
def transferring (n : Nat) : World (Fin 257) where
  permits := MAX_PENDING_CONNECTIONS - n
  stage := fun c => if c.val < n then .paired else .incoming

/-- A connection that comes through to its transfer. -/
def comesThrough (c : Fin 257) : List (Event (Fin 257)) :=
  [.accept c, .tlsOk c, .pairOk c]

theorem exec_comesThrough {n : Nat} (h : n < 256) :
    exec (step fileTransferServer) (transferring n)
        (comesThrough (Fin.ofNat 257 n))
      = some (transferring (n + 1)) := by
  have hval : (Fin.ofNat 257 n).val = n := Nat.mod_eq_of_lt (by omega)
  have hstage : (transferring n).stage (Fin.ofNat 257 n) = .incoming :=
    if_neg (by rw [hval]; omega)
  obtain ⟨m, hm⟩ : ∃ m, MAX_PENDING_CONNECTIONS - n = m + 1 :=
    ⟨255 - n, by rw [MAX_PENDING_CONNECTIONS]; omega⟩
  have haccept : step fileTransferServer (transferring n)
      (.accept (Fin.ofNat 257 n))
        = some ⟨m, Function.update (transferring n).stage (Fin.ofNat 257 n)
          .handshaking⟩ := by
    simp only [step, hstage, if_true, show (transferring n).permits = m + 1
      from hm]
  rw [comesThrough, exec_cons_some haccept]
  simp only [exec, step, World.move, Function.update_self, if_true,
    Function.update_idem, fileTransferServer, Bool.false_eq_true, if_false,
    Nat.add_zero]
  have hpermits : m = MAX_PENDING_CONNECTIONS - (n + 1) := by omega
  have hstages : Function.update (transferring n).stage (Fin.ofNat 257 n)
      .paired = (transferring (n + 1)).stage := by
    funext c
    show _ = if c.val < n + 1 then Stage.paired else .incoming
    by_cases hc : c = Fin.ofNat 257 n
    · rw [hc, Function.update_self, if_pos (by rw [hval]; omega)]
    · have hne : c.val ≠ n := by
        intro heq
        exact hc (Fin.ext (heq.trans hval.symm))
      rw [Function.update_of_ne hc]
      show (if c.val < n then Stage.paired else .incoming) = _
      simp only [Nat.lt_succ_iff_lt_or_eq, hne, or_false]
  rw [hpermits, hstages]
  rfl

/-- One transfer after the other is begun, and none ends. -/
theorem exec_transfers : ∀ n ≤ 256,
    exec (step fileTransferServer) (start (Fin 257))
        ((List.range n).flatMap fun i => comesThrough (Fin.ofNat 257 i))
      = some (transferring n) := by
  intro n
  induction n with
  | zero => exact fun _ => rfl
  | succ n ih =>
      intro h
      rw [List.range_succ, List.flatMap_append, exec_append (ih (by omega)),
        List.flatMap_singleton]
      exact exec_comesThrough (by omega)

/-- **TRANSFERS USE UP THE PENDING SLOTS**: while 256 paired devices transfer
    files, no connection is pending and the next one is dropped. -/
theorem transfers_fill_cap :
    exec (step fileTransferServer) (start (Fin 257))
        ((List.range 256).flatMap fun i => comesThrough (Fin.ofNat 257 i))
      = some (transferring 256) ∧
    pending (transferring 256) = 0 ∧
    ¬ Capped fileTransferServer
      (((List.range 256).flatMap fun i => comesThrough (Fin.ofNat 257 i))
        ++ [.accept 256]) := by
  have hnone : pending (transferring 256) = 0 := by
    rw [pending, Finset.card_eq_zero, Finset.filter_eq_empty_iff]
    intro c _
    show ¬ (if c.val < 256 then Stage.paired else .incoming).isPending = true
    split <;> decide
  refine ⟨exec_transfers 256 (Nat.le_refl _), hnone, ?_⟩
  rintro ⟨-, hall⟩
  have hlast := allSteps_append (exec_transfers 256 (Nat.le_refl _)) hall
  -- the semaphore is empty, so the one that comes now is dropped
  have hdrop : step fileTransferServer (transferring 256) (.accept 256)
      = some ⟨0, Function.update (transferring 256).stage 256 .dropped⟩ := rfl
  rw [allSteps_cons_some hdrop] at hlast
  have hfull := hlast.1 256 rfl ((step_accept hdrop).mpr rfl)
  rw [hnone] at hfull
  cases hfull

/-- A connection that comes in beside one transfer finds a permit. -/
theorem pending_cap_two :
    Capped runServer ([.accept 0, .tlsOk 0, .pairOk 0, .accept 1] :
      List (Event (Fin 2))) ∧
    Capped fileTransferServer ([.accept 0, .tlsOk 0, .pairOk 0, .accept 1] :
      List (Event (Fin 2))) := by
  have hcap := pending_cap ([.accept 0, .tlsOk 0, .pairOk 0, .accept 1] :
    List (Event (Fin 2)))
  refine ⟨hcap.1 _ rfl, (hcap.2 _ rfl).mpr ?_⟩
  refine ⟨Or.inl ?_, trivial, trivial, Or.inr ?_, trivial⟩
  · decide
  · decide

end KvmPending
