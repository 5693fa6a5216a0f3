import KvmRs.CaptureProofs
import KvmRs.ControlProofs

/-! # The UI's copy of the forwarding flag

    The UI keeps `forwarding_active`, which follows the `ToggleForward`
    notices of the session it holds, and sends the negation of it when the
    user toggles.  A notice is sent to everybody when the flag changes, and to
    a first client when `auto_forward` turns the flag on for it; a client that
    joins while forwarding is on is told nothing.

    Connects, disconnects and toggles are whole operations here, each with
    its messages delivered; what the server does in each is what its handler
    does, step by step (`join_refines`, `leave_refines`, `request_refines`).
    `TellsUi` says when a join leaves the UI with the right value, and
    `ui_in_sync_iff` that nothing else goes wrong. -/

namespace KvmUi

open KvmEnvelope KvmControl Transition

/-! ## The server's operations -/

section Server

variable {C : Type}

/-- The registry and the flag. -/
structure Server (C : Type) where
  registry : Finset C
  enabled : Bool

variable [DecidableEq C]

/-- A client enters the registry; the notices are for itself. -/
def Server.join (autoForward : Bool) (s : Server C) (c : C) :
    Server C × List Envelope :=
  let registry := insert c s.registry
  if registry.card = 1 ∧ autoForward = true then
    (⟨registry, true⟩, if s.enabled then [] else [.toggleForward true])
  else (⟨registry, s.enabled⟩, [])

/-- A client leaves the registry. -/
def Server.leave (autoForward : Bool) (s : Server C) (c : C) : Server C :=
  let registry := s.registry.erase c
  ⟨registry, if registry = ∅ ∧ autoForward = true then false else s.enabled⟩

/-- A client asks for forwarding to be on or off; the notices are for
    everybody. -/
def Server.request (s : Server C) (desired : Bool) :
    Server C × List Envelope :=
  if desired ≠ s.enabled then
    (⟨s.registry, desired⟩, toggleBroadcasts desired)
  else (s, [])

/-- The hotkey is pressed. -/
def Server.hotkey (s : Server C) : Server C × List Envelope :=
  (⟨s.registry, !s.enabled⟩,
    KvmCapture.forwarderBroadcasts (.forwardingToggled !s.enabled))

/-! ## What the handlers do -/

variable {Ip : Type} [DecidableEq Ip] {k : Settings} {ip : C → Ip}
  {w : World C Ip} {c : C}

/-- The server as the handlers see it. -/
def view (w : World C Ip) : Server C := ⟨w.registry, w.forwardingEnabled⟩

/-- The handler registers and, if it is the first, honours `auto_forward`:
    that is `join`. -/
theorem join_refines {req : KvmAuth.PairRequest}
    (hp : (w.conns c).phase = .registering req) :
    ∃ acts w', exec (step k ip) w acts = some w' ∧
      view w' = ((view w).join k.autoForward c).1 ∧
      (w'.conns c).phase = .looping ∧
      (w'.conns c).sent
        = (w.conns c).sent ++ ((view w).join k.autoForward c).2 := by
  by_cases hfirst : (insert c w.registry).card = 1
  · cases hauto : k.autoForward with
    | false =>
        refine ⟨[.advance c, .advance c], ?_⟩
        simp [exec, step, advance, hp, hfirst, hauto, World.set, Conn.goto,
          view, Server.join]
    | true =>
        refine ⟨[.advance c, .advance c], ?_⟩
        simp [exec, step, advance, hp, hfirst, hauto, World.set, Conn.goto,
          view, Server.join]
        rfl
  · refine ⟨[.advance c], ?_⟩
    simp [exec, step, advance, hp, hfirst, World.set, Conn.goto, view,
      Server.join]

/-- The handler whose loop has ended deregisters and, if it was the last,
    honours `auto_forward`: that is `leave`. -/
theorem leave_refines (hp : (w.conns c).phase = .leaving) :
    ∃ acts w', exec (step k ip) w acts = some w' ∧
      view w' = (view w).leave k.autoForward c ∧
      (w'.conns c).phase = .farewell := by
  by_cases hlast : w.registry.erase c = ∅
  · refine ⟨[.advance c, .advance c], ?_⟩
    simp [exec, step, advance, hp, hlast, World.set, Conn.goto, view,
      Server.leave]
  · refine ⟨[.advance c], ?_⟩
    simp [exec, step, advance, hp, hlast, World.set, Conn.goto, view,
      Server.leave]

/-- A handler makes its broadcasts one by one and waits again. -/
theorem broadcasting_run :
    ∀ (es : List Envelope) (w : World C Ip),
      (w.conns c).phase = .broadcasting es →
      ∃ acts w', exec (step k ip) w acts = some w' ∧ view w' = view w ∧
        (w'.conns c).phase = .looping ∧
        ∀ d ∈ w.registry, (w'.conns d).sent = (w.conns d).sent ++ es := by
  intro es
  induction es with
  | nil =>
      intro w hp
      refine ⟨[.advance c], w.set c ((w.conns c).goto .looping []), ?_, rfl,
        ?_, ?_⟩
      · simp only [exec, step, advance, hp]
      · simp only [World.set, Function.update_self, Conn.goto]
      · intro d _
        by_cases hd : d = c
        · simp only [World.set, hd, Function.update_self, Conn.goto]
        · simp only [World.set, Function.update_of_ne hd, List.append_nil]
  | cons e es ih =>
      intro w hp
      have hnext : ((w.set c ((w.conns c).goto (.broadcasting es) [])).broadcast
          e |>.conns c).phase = .broadcasting es := by
        simp only [World.broadcast, World.set, Function.update_self]
        split <;> rfl
      obtain ⟨acts, w', hrun, hview, hphase, hsent⟩ := ih _ hnext
      refine ⟨.advance c :: acts, w', ?_, hview, hphase, ?_⟩
      · rw [← hrun]
        exact exec_cons_some (by simp only [step, advance, hp]) acts
      · intro d hd
        rw [hsent d hd]
        rcases eq_or_ne d c with rfl | hdc
        · simp [World.broadcast, World.set, hd, Conn.goto]
        · simp [World.broadcast, World.set, hd, Function.update_of_ne hdc]

/-- The handler serves a `ToggleForward`: that is `request`, and everybody in
    the registry gets its notices. -/
theorem request_refines (hp : (w.conns c).phase = .looping) (desired : Bool) :
    ∃ acts w', exec (step k ip) w acts = some w' ∧
      view w' = ((view w).request desired).1 ∧
      (w'.conns c).phase = .looping ∧
      ∀ d ∈ w.registry, (w'.conns d).sent
        = (w.conns d).sent ++ ((view w).request desired).2 := by
  by_cases hsame : desired = w.forwardingEnabled
  · refine ⟨[.receive c (.toggleForward desired)], ?_⟩
    simp [exec, step, onEnvelope, hp, hsame, World.set, Conn.goto, view,
      Server.request]
    intro d _
    by_cases hd : d = c
    · rw [hd, Function.update_self]
    · rw [Function.update_of_ne hd]
  · -- load, store, and then the broadcasts
    obtain ⟨stored, hstored, hview, hphase, hsent⟩ : ∃ stored : World C Ip,
        exec (step k ip) w [.receive c (.toggleForward desired), .advance c]
          = some stored ∧
        view stored = ⟨w.registry, desired⟩ ∧
        (stored.conns c).phase = .broadcasting (toggleBroadcasts desired) ∧
        ∀ d, (stored.conns d).sent = (w.conns d).sent := by
      simp [exec, step, onEnvelope, advance, hp, hsame, World.set, Conn.goto,
        view]
      intro d
      by_cases hd : d = c
      · rw [hd, Function.update_self]
      · rw [Function.update_of_ne hd]
    obtain ⟨acts, w', hrun, hview', hphase', hsent'⟩ :=
      broadcasting_run _ stored hphase
    have hreg : stored.registry = w.registry := congrArg Server.registry hview
    refine ⟨[.receive c (.toggleForward desired), .advance c] ++ acts, w', ?_,
      ?_, hphase', ?_⟩
    · rw [exec_append hstored]
      exact hrun
    · rw [hview', hview]
      simp [Server.request, view, hsame]
    · intro d hd
      rw [hsent' d (hreg ▸ hd), hsent d]
      simp [Server.request, view, hsame]

end Server

/-! ## The UI -/

/-- The UI's session. -/
inductive Link where
  | none
  | connected
  /-- Lost, and being reconnected in the background. -/
  | lost
  deriving DecidableEq

variable {C : Type}

/-- The server's clients are the UI, which is `none`, and the others. -/
structure State (C : Type) where
  server : Server (Option C)
  link : Link
  forwardingActive : Bool

inductive Action (C : Type) where
  /-- Another client comes, goes, or sends `ToggleForward`. -/
  | connect (c : C)
  | disconnect (c : C)
  | toggle (c : C) (desired : Bool)
  | hotkey
  /-- `connect_to_server` that succeeds. -/
  | uiConnect
  /-- `disconnect_from_server`, or a `connect_to_server` that fails. -/
  | uiDisconnect
  /-- The connection is lost, reconnected, or given up for good. -/
  | uiLose
  | uiReconnect
  | uiGiveUp
  /-- `toggle_forwarding`. -/
  | uiToggle
  deriving DecidableEq

def State.start (C : Type) : State C where
  server := ⟨∅, false⟩
  link := .none
  forwardingActive := false

/-- The event task stores each `ForwardingChanged`. -/
def hear (active : Bool) (es : List Envelope) : Bool :=
  es.foldl (fun active e => match e with
    | .toggleForward on => on
    | _ => active) active

/-- Notices for everybody; the UI hears them if it is connected. -/
def State.notify (s : State C) (r : Server (Option C) × List Envelope) :
    State C :=
  { s with
    server := r.1
    forwardingActive :=
      if s.link = .connected then hear s.forwardingActive r.2
      else s.forwardingActive }

section System

variable [DecidableEq C] (autoForward : Bool)

/-- The server sees the UI's connection end, if there is one. -/
def State.drop (s : State C) : Server (Option C) :=
  if s.link = .connected then s.server.leave autoForward none else s.server

/-- The UI's connection comes up, with what `forwarding_active` is then. -/
def State.joined (s : State C) (active : Bool) (server : Server (Option C)) :
    State C :=
  let r := server.join autoForward none
  { s with
    server := r.1
    link := .connected
    forwardingActive := hear active r.2 }

def step (s : State C) : Action C → Option (State C)
  | .connect c =>
      if some c ∉ s.server.registry then
        some { s with server := (s.server.join autoForward (some c)).1 }
      else none
  | .disconnect c =>
      if some c ∈ s.server.registry then
        some { s with server := s.server.leave autoForward (some c) }
      else none
  | .toggle c desired =>
      if some c ∈ s.server.registry then
        some (s.notify (s.server.request desired))
      else none
  | .hotkey => some (s.notify s.server.hotkey)
  | .uiConnect =>
      -- `reset_session` first: the old session ends, the copy is cleared
      some (s.joined autoForward false (s.drop autoForward))
  | .uiDisconnect =>
      some ⟨s.drop autoForward, .none, false⟩
  | .uiLose =>
      if s.link = .connected then
        some { s with server := s.drop autoForward, link := .lost }
      else none
  | .uiReconnect =>
      if s.link = .lost then
        some (s.joined autoForward s.forwardingActive s.server)
      else none
  | .uiGiveUp =>
      if s.link = .lost then some ⟨s.server, .none, false⟩ else none
  | .uiToggle =>
      if s.link = .connected then
        some (s.notify (s.server.request !s.forwardingActive))
      else none

/-- A connected UI has the flag's value, and its toggle flips the flag. -/
def InSync (s : State C) : Prop :=
  s.link = .connected → s.forwardingActive = s.server.enabled ∧
    ∃ s', step autoForward s .uiToggle = some s' ∧
      s'.server.enabled = !s.server.enabled

/-- The UI joins while forwarding is off, or rejoins while the flag is as it
    knew it, or is turned on for it. -/
def TellsUi (s : State C) : Action C → Prop
  | .uiConnect => (s.drop autoForward).enabled = false
  | .uiReconnect => s.link = .lost →
      s.forwardingActive = s.server.enabled ∨
        (s.server.registry = ∅ ∧ autoForward = true ∧
          s.server.enabled = false)
  | _ => True

/-! ## The invariant -/

/-- The UI is registered while it is connected, and has the flag's value. -/
structure Synced (s : State C) : Prop where
  listed : none ∈ s.server.registry ↔ s.link = .connected
  agrees : s.link = .connected → s.forwardingActive = s.server.enabled

omit [DecidableEq C] in
theorem synced_start : Synced (State.start C) where
  listed := ⟨fun h => absurd h (Finset.notMem_empty _), fun h => nomatch h⟩
  agrees := fun h => nomatch h

variable {autoForward}

omit [DecidableEq C] in
theorem hear_toggle (active on : Bool) :
    hear active (toggleBroadcasts on) = on := by
  cases on <;> rfl

omit [DecidableEq C] in
/-- Everybody who is told of a request has the flag's value afterwards. -/
theorem hear_request {s : Server (Option C)} {active desired : Bool}
    (h : active = s.enabled) :
    hear active (s.request desired).2 = (s.request desired).1.enabled := by
  by_cases hd : desired ≠ s.enabled
  · simp only [Server.request, if_pos hd, hear_toggle]
  · simp only [Server.request, if_neg hd]
    exact h

omit [DecidableEq C] in
theorem hear_hotkey (s : Server (Option C)) (active : Bool) :
    hear active s.hotkey.2 = s.hotkey.1.enabled := by
  simp only [Server.hotkey]
  cases s.enabled <;> rfl

omit [DecidableEq C] in
theorem request_registry (s : Server (Option C)) (desired : Bool) :
    (s.request desired).1.registry = s.registry := by
  by_cases hd : desired ≠ s.enabled
  · simp only [Server.request, if_pos hd]
  · simp only [Server.request, if_neg hd]

theorem join_registry (s : Server (Option C)) (c : Option C) :
    (s.join autoForward c).1.registry = insert c s.registry := by
  simp only [Server.join]
  split <;> rfl

/-- A newcomer has the right value exactly if it had before, or if it is the
    first client and forwarding is turned on for it. -/
theorem hear_join {s : Server (Option C)} {c : Option C} {active : Bool}
    (hc : c ∉ s.registry) :
    hear active (s.join autoForward c).2
        = (s.join autoForward c).1.enabled ↔
      active = s.enabled ∨
        (s.registry = ∅ ∧ autoForward = true ∧ s.enabled = false) := by
  have hcard : (insert c s.registry).card = 1 ↔ s.registry = ∅ := by
    rw [Finset.card_insert_of_notMem hc, ← Finset.card_eq_zero]
    omega
  by_cases hfirst : s.registry = ∅ ∧ autoForward = true
  · have hjoin : (insert c s.registry).card = 1 ∧ autoForward = true :=
      ⟨hcard.mpr hfirst.1, hfirst.2⟩
    simp only [Server.join, if_pos hjoin]
    cases hen : s.enabled with
    | true =>
        show active = true ↔ active = true ∨ _
        simp
    | false => exact iff_of_true rfl (Or.inr ⟨hfirst.1, hfirst.2, rfl⟩)
  · have hjoin : ¬ ((insert c s.registry).card = 1 ∧ autoForward = true) :=
      fun h => hfirst ⟨hcard.mp h.1, h.2⟩
    simp only [Server.join, if_neg hjoin]
    show active = s.enabled ↔ _
    exact ⟨Or.inl, fun h => h.elim id fun hf => absurd ⟨hf.1, hf.2.1⟩ hfirst⟩

/-- While somebody else is registered, coming and going does not touch the
    flag. -/
theorem join_enabled {s : Server (Option C)} {c d : Option C} (hne : d ≠ c)
    (hd : d ∈ s.registry) : (s.join autoForward c).1.enabled = s.enabled := by
  have hcard : (insert c s.registry).card ≠ 1 := by
    intro hone
    obtain ⟨x, hx⟩ := Finset.card_eq_one.mp hone
    have hdx : d ∈ ({x} : Finset (Option C)) :=
      hx ▸ Finset.mem_insert_of_mem hd
    have hcx : c ∈ ({x} : Finset (Option C)) :=
      hx ▸ Finset.mem_insert_self c _
    exact hne ((Finset.mem_singleton.mp hdx).trans
      (Finset.mem_singleton.mp hcx).symm)
  simp only [Server.join, if_neg (fun h => hcard (And.left h))]

theorem leave_enabled {s : Server (Option C)} {c d : Option C} (hne : d ≠ c)
    (hd : d ∈ s.registry) :
    (s.leave autoForward c).enabled = s.enabled := by
  have hempty : s.registry.erase c ≠ ∅ := by
    intro h
    have hmem : d ∈ s.registry.erase c := Finset.mem_erase.mpr ⟨hne, hd⟩
    rw [h] at hmem
    exact Finset.notMem_empty d hmem
  simp only [Server.leave, if_neg (fun h => hempty (And.left h))]

/-- The UI is not registered once its connection has ended. -/
theorem Synced.not_listed_drop {s : State C} (h : Synced s) :
    none ∉ (s.drop autoForward).registry := by
  by_cases hc : s.link = .connected
  · simp only [State.drop, if_pos hc]
    exact Finset.notMem_erase _ _
  · simp only [State.drop, if_neg hc]
    exact fun hmem => hc (h.listed.mp hmem)

omit [DecidableEq C] in
theorem Synced.not_listed_lost {s : State C} (h : Synced s)
    (hlost : s.link = .lost) : none ∉ s.server.registry := by
  rw [h.listed, hlost]
  exact fun h => nomatch h

omit [DecidableEq C] in
/-- A UI that is neither registered nor connected has nothing to agree on. -/
theorem synced_away {s : State C} (hlisted : none ∉ s.server.registry)
    (haway : s.link ≠ .connected) : Synced s :=
  ⟨iff_of_false hlisted haway, fun hc => absurd hc haway⟩

omit [DecidableEq C] in
/-- A notice to everybody keeps a connected UI in step. -/
theorem Synced.notify {s : State C} (h : Synced s)
    {r : Server (Option C) × List Envelope}
    (hreg : r.1.registry = s.server.registry)
    (hear : s.forwardingActive = s.server.enabled →
      hear s.forwardingActive r.2 = r.1.enabled) : Synced (s.notify r) := by
  refine ⟨?_, ?_⟩
  · show none ∈ r.1.registry ↔ s.link = .connected
    rw [hreg]
    exact h.listed
  · intro hc
    have hc' : s.link = .connected := hc
    simp only [State.notify, if_pos hc']
    exact hear (h.agrees hc')

/-- The UI joins: it is in step exactly if it already was, or is told. -/
theorem joined_agrees_iff (s : State C) {active : Bool}
    {server : Server (Option C)} (hno : none ∉ server.registry) :
    Synced (s.joined autoForward active server) ↔
      active = server.enabled ∨
        (server.registry = ∅ ∧ autoForward = true ∧
          server.enabled = false) := by
  rw [← hear_join hno]
  constructor
  · exact fun h => h.agrees rfl
  · intro hh
    refine ⟨iff_of_true ?_ rfl, fun _ => hh⟩
    show none ∈ (server.join autoForward none).1.registry
    rw [join_registry]
    exact Finset.mem_insert_self _ _

/-- **IN STEP MEANS IN SYNC**: the toggle of a UI that has the flag's value
    flips the flag. -/
theorem Synced.inSync {s : State C} (h : Synced s) : InSync autoForward s := by
  intro hc
  have hagree := h.agrees hc
  refine ⟨hagree, _, if_pos hc, ?_⟩
  have hne : (!s.server.enabled) ≠ s.server.enabled := by
    cases s.server.enabled <;> decide
  simp only [State.notify, Server.request, hagree, if_pos hne]

/-- **ONE STEP**: with the UI told at its joins, every operation keeps it in
    step. -/
theorem synced_step (s : State C) (a : Action C) (s' : State C)
    (h : Synced s) (hok : TellsUi autoForward s a)
    (hs : step autoForward s a = some s') : Synced s' := by
  have hui : ∀ {c : C}, (none : Option C) ≠ some c := fun h => nomatch h
  cases a with
  | connect c =>
      simp only [step] at hs
      split at hs
      · rw [← Option.some.inj hs]
        refine ⟨?_, ?_⟩
        -- a connected UI is registered, so nobody else is the first client
        · show none ∈ (s.server.join autoForward (some c)).1.registry ↔ _
          rw [join_registry, Finset.mem_insert]
          exact (or_iff_right hui).trans h.listed
        · intro hc
          show s.forwardingActive = (s.server.join autoForward (some c)).1.enabled
          rw [join_enabled hui (h.listed.mpr hc)]
          exact h.agrees hc
      · cases hs
  | disconnect c =>
      simp only [step] at hs
      split at hs
      · rw [← Option.some.inj hs]
        refine ⟨?_, ?_⟩
        · show none ∈ s.server.registry.erase (some c) ↔ _
          rw [Finset.mem_erase]
          exact (and_iff_right hui).trans h.listed
        · intro hc
          show s.forwardingActive = (s.server.leave autoForward (some c)).enabled
          rw [leave_enabled hui (h.listed.mpr hc)]
          exact h.agrees hc
      · cases hs
  | toggle c desired =>
      simp only [step] at hs
      split at hs
      · rw [← Option.some.inj hs]
        exact h.notify (request_registry _ _) hear_request
      · cases hs
  | hotkey =>
      rw [← Option.some.inj hs]
      exact h.notify rfl fun _ => hear_hotkey _ _
  | uiConnect =>
      -- `reset_session` has cleared the copy: the flag has to be off
      rw [← Option.some.inj hs]
      refine (joined_agrees_iff s h.not_listed_drop).mpr (Or.inl ?_)
      exact (show (s.drop autoForward).enabled = false from hok).symm
  | uiDisconnect =>
      rw [← Option.some.inj hs]
      exact synced_away h.not_listed_drop fun h => nomatch h
  | uiLose =>
      simp only [step] at hs
      split at hs
      · rw [← Option.some.inj hs]
        exact synced_away h.not_listed_drop fun h => nomatch h
      · cases hs
  | uiReconnect =>
      simp only [step] at hs
      split at hs
      · rename_i hlost
        rw [← Option.some.inj hs]
        exact (joined_agrees_iff s (h.not_listed_lost hlost)).mpr (hok hlost)
      · cases hs
  | uiGiveUp =>
      simp only [step] at hs
      split at hs
      · rename_i hlost
        rw [← Option.some.inj hs]
        exact synced_away (h.not_listed_lost hlost) fun h => nomatch h
      · cases hs
  | uiToggle =>
      simp only [step] at hs
      split at hs
      · rw [← Option.some.inj hs]
        exact h.notify (request_registry _ _) hear_request
      · cases hs

/-- A join at which the UI is not told leaves it out of sync. -/
theorem untold_breaks (s : State C) (a : Action C) (s' : State C)
    (h : Synced s) (hno : ¬ TellsUi autoForward s a)
    (hs : step autoForward s a = some s') : ¬ InSync autoForward s' := by
  -- a connected UI that is in sync would be in step
  have hbreak : ∀ {active : Bool} {server : Server (Option C)},
      none ∉ server.registry →
      ¬ (active = server.enabled ∨ (server.registry = ∅ ∧
        autoForward = true ∧ server.enabled = false)) →
      ¬ InSync autoForward (s.joined autoForward active server) := by
    intro active server hn huntold hsync
    exact huntold ((hear_join hn).mp (hsync rfl).1)
  cases a with
  | uiConnect =>
      rw [← Option.some.inj hs]
      refine hbreak h.not_listed_drop ?_
      rintro (hsame | ⟨-, -, hoff⟩)
      · exact hno hsame.symm
      · exact hno hoff
  | uiReconnect =>
      simp only [step] at hs
      split at hs
      · rename_i hlost
        rw [← Option.some.inj hs]
        exact hbreak (h.not_listed_lost hlost) fun htold => hno fun _ => htold
      · cases hs
  | _ => exact absurd trivial hno

end System

/-! ## Whole histories -/

/-- **THE UI IS IN SYNC EXACTLY IF IT IS TOLD**: over every history of
    connects, disconnects, reconnects and toggles, with `auto_forward` on or
    off, a connected UI always has the flag's value and its toggle always
    flips the flag, exactly if at each of its joins the flag was as it took it
    to be or was turned on for it. -/
theorem ui_in_sync_iff [DecidableEq C] (autoForward : Bool)
    (acts : List (Action C)) (t : State C)
    (hrun : exec (step autoForward) (State.start C) acts = some t) :
    Always (step autoForward) (InSync autoForward) (State.start C) acts ↔
      Guarded (step autoForward) (TellsUi autoForward) (State.start C) acts :=
  always_iff_guarded (fun _ h => h.inSync) synced_step untold_breaks acts _ t
    synced_start hrun

/-- The UI connects as the first client, is told that forwarding is on, and
    switches it off. -/
theorem ui_in_sync_iff_first_client :
    Always (step true) (InSync true) (State.start Unit)
      [.uiConnect, .uiToggle] := by
  refine (ui_in_sync_iff true _ _ rfl).mpr ?_
  exact ⟨rfl, trivial, trivial⟩

/-- **A UI THAT JOINS LATE IS WRONG**: forwarding is on when the UI connects;
    it is told nothing, takes it to be off, and its toggle does nothing. -/
theorem ui_joins_while_on :
    ¬ ∀ (autoForward : Bool) (acts : List (Action Unit)) (t : State Unit),
      exec (step autoForward) (State.start Unit) acts = some t →
      InSync autoForward t := by
  intro hall
  have hsync := hall false [.connect (), .hotkey, .uiConnect] _ rfl rfl
  exact absurd hsync.1 (by decide)

end KvmUi
