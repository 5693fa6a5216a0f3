import KvmRs.CaptureProofs
import KvmRs.HeartbeatProofs
import KvmRs.SessionLoopProofs

/-! # Both ends of a session and the time between them

    The loop of `handle_client` on the server and `Session::run` on the client,
    with the envelopes in flight between them and a clock.  Either side sends a
    ping every so often and gives up after a silence: the server looks every
    second and waits for 15 s, the client looks when it pings and waits for
    20 s.

    Envelopes arrive whole, once they arrive; how frames are read is the
    subject of `KvmSessionLoop`, whose client this is, and `KvmPong` puts the
    bytes back in between.

    The clock moves by `wait`, and nothing in a step forces it to stop.  That
    the timers fire and the envelopes arrive in time are conditions on the run
    (`InTime`, `Prompt`).  Under the first no side ever gives up the other;
    under the second alone, whatever is lost, a silent peer is noticed. -/

namespace KvmKeepalive

open KvmEnvelope KvmKeymap KvmInject KvmCapture KvmSessionLoop Transition
  Heartbeat

/-- A number of seconds, in nanoseconds. -/
def seconds (n : Nat) : Nat := n * 10 ^ 9

/-! ## The server's loop -/

/-- Why the loop of `handle_client` ended. -/
inductive HandlerStatus where
  | running | goodbye | closed | timedOut
  deriving DecidableEq

/-- The loop's own state: when the client was last heard, and when its two
    intervals fire next. -/
structure Handler where
  lastSeen : Nat
  nextPing : Nat
  nextWatch : Nat
  status : HandlerStatus
  deriving DecidableEq

/-- The loop is entered. -/
def Handler.start (now : Nat) : Handler where
  lastSeen := now
  -- the immediate first tick of the ping interval is consumed
  nextPing := now + seconds 5
  nextWatch := now
  status := .running

/-- `inbound_rx.recv()`: an envelope, or the end of the connection.  `current`
    is the forwarding flag.  The loop's end sends `Goodbye`. -/
def Handler.receive (now : Nat) (current : Bool) (h : Handler) :
    Option Envelope → Handler × List Envelope
  | none => ({ h with status := .closed }, [.goodbye])
  | some env =>
      let h := { h with lastSeen := now }
      match env with
      | .goodbye => ({ h with status := .goodbye }, [.goodbye])
      | .ping ts => (h, [.pong ts])
      | .toggleForward desired =>
          (h, if desired ≠ current then
            forwarderBroadcasts (.forwardingToggled desired) else [])
      | _ => (h, [])

/-- `ping_interval.tick()`. -/
def Handler.ping (millis : UInt64) (h : Handler) : Handler × List Envelope :=
  ({ h with nextPing := h.nextPing + seconds 5 }, [.ping millis])

/-- `watchdog.tick()`. -/
def Handler.watchdog (now : Nat) (h : Handler) : Handler × List Envelope :=
  if seconds 15 < now - h.lastSeen then
    ({ h with status := .timedOut }, [.goodbye])
  else ({ h with nextWatch := h.nextWatch + seconds 1 }, [])

/-- What other tasks put into the outbound channel of a registered client. -/
def broadcastable : Envelope → Bool
  | .input _ => true
  | .toggleForward _ => true
  | .clipboardSet _ => true
  | _ => false

/-! ## Both ends -/

/-- A message is in flight with the time it was sent; towards the server
    `none` is the end of the stream. -/
structure World where
  now : Nat
  handler : Handler
  client : LoopState
  clientPing : Nat
  toClient : List (Envelope × Nat)
  toServer : List (Option Envelope × Nat)

inductive Action where
  | wait (dt : Nat)
  | handlerPing (millis : UInt64)
  | handlerWatchdog
  | handlerReceive (current : Bool)
  /-- A broadcast of another task. -/
  | handlerSend (env : Envelope)
  | clientPing (millis : UInt64) (sent : Bool)
  | clientReceive (millis : UInt64) (replied : Bool)
  /-- Another arm of the client's loop. -/
  | clientArm (a : Arm)

/-- The server enters its loop at one time, the client at another, and both
    have. -/
def World.start (server client : Nat) : World where
  now := max server client
  handler := Handler.start server
  client := { LoopState.init [] with lastReceived := client }
  -- its first tick is immediate
  clientPing := client
  toClient := []
  toServer := []

/-- The handler moved and sent these. -/
def World.afterHandler (w : World) (out : Handler × List Envelope) : World :=
  { w with
    handler := out.1
    toClient := w.toClient ++ out.2.map fun e => (e, w.now) }

/-- The client moved; what it wrote is on its way, and the end of the stream
    behind it if its loop ended. -/
def World.afterClient (w : World) (s : LoopState) : World :=
  { w with
    client := s
    toServer := w.toServer
      ++ (s.written.drop w.client.written.length).map (fun e => (some e, w.now))
      ++ if s.status = .running then [] else [(none, w.now)] }

/-- The arms apart from the ping's. -/
def notTick : Arm → Bool
  | .pingTick _ _ => false
  | _ => true

def step (p : Platform) (clip : Bool) (w : World) : Action → Option World
  | .wait dt => some { w with now := w.now + dt }
  | .handlerPing millis =>
      if w.handler.status = .running ∧ w.handler.nextPing ≤ w.now then
        some (w.afterHandler (w.handler.ping millis))
      else none
  | .handlerWatchdog =>
      if w.handler.status = .running ∧ w.handler.nextWatch ≤ w.now then
        some (w.afterHandler (w.handler.watchdog w.now))
      else none
  | .handlerReceive current =>
      match w.toServer with
      | (m, _) :: rest =>
          if w.handler.status = .running then
            some ({ w with toServer := rest }.afterHandler
              (w.handler.receive w.now current m))
          else none
      | [] => none
  | .handlerSend env =>
      if w.handler.status = .running ∧ broadcastable env = true then
        some (w.afterHandler (w.handler, [env]))
      else none
  | .clientPing millis sent =>
      if w.client.status = .running ∧ w.clientPing ≤ w.now then
        (runArm clip w.client (.pingTick ⟨w.now, millis⟩ sent)).map fun s =>
          { w.afterClient s with clientPing := w.clientPing + seconds 10 }
      else none
  | .clientReceive millis replied =>
      match w.toClient with
      | (env, _) :: rest =>
          if w.client.status = .running then
            some ({ w with toClient := rest }.afterClient
              (dispatch p ⟨w.now, millis⟩ replied w.client env))
          else none
      | [] => none
  | .clientArm a =>
      if w.client.status = .running ∧ notTick a = true then
        (runArm clip w.client a).map w.afterClient
      else none

/-! ## The client's writes -/

/-- What an envelope makes the client's loop do: it writes something, and
    what it last heard is now. -/
theorem dispatch_writes (p : Platform) (clock : Clock) (replied : Bool)
    (s : LoopState) (env : Envelope) :
    (∃ ws, (dispatch p clock replied s env).written = s.written ++ ws) ∧
      (dispatch p clock replied s env).lastReceived = clock.instant ∧
      ((dispatch p clock replied s env).status = s.status ∨
        (dispatch p clock replied s env).status = .ended .goodbye ∨
        (dispatch p clock replied s env).status = .ended .sendFailed) := by
  cases env with
  | ping ts =>
      cases replied with
      | true => exact ⟨⟨[.pong ts], rfl⟩, rfl, Or.inl rfl⟩
      | false => exact ⟨⟨[], (List.append_nil _).symm⟩, rfl, Or.inr (Or.inr rfl)⟩
  | goodbye => exact ⟨⟨[], (List.append_nil _).symm⟩, rfl, Or.inr (Or.inl rfl)⟩
  | _ => exact ⟨⟨[], (List.append_nil _).symm⟩, rfl, Or.inl rfl⟩

/-- What an arm does, the server not being given up. -/
theorem runArm_writes {clip : Bool} {s s' : LoopState} {a : Arm}
    (h : runArm clip s a = some s')
    (halive : ∀ clock sent, a = .pingTick clock sent →
      clock.instant ≤ s.lastReceived + DEAD_AFTER) :
    (∃ ws, s'.written = s.written ++ ws) ∧ s'.lastReceived = s.lastReceived ∧
      (s'.status = s.status ∨ s'.status = .ended .cancelled ∨
        s'.status = .ended .sendFailed) := by
  cases a with
  | cancelled =>
      rw [← Option.some.inj h]
      exact ⟨⟨[.goodbye], rfl⟩, rfl, Or.inr (Or.inl rfl)⟩
  | pingTick clock sent =>
      have hd : ¬ DEAD_AFTER < clock.instant - s.lastReceived := by
        have hle := halive clock sent rfl
        omega
      simp only [runArm, if_neg hd] at h
      cases sent with
      | true =>
          rw [← Option.some.inj h]
          exact ⟨⟨[.ping clock.millis], rfl⟩, rfl, Or.inl rfl⟩
      | false =>
          rw [← Option.some.inj h]
          exact ⟨⟨[], (List.append_nil _).symm⟩, rfl, Or.inr (Or.inr rfl)⟩
  | command cmd sent =>
      cases cmd with
      | none =>
          rw [← Option.some.inj h]
          exact ⟨⟨[], (List.append_nil _).symm⟩, rfl, Or.inl rfl⟩
      | some c =>
          cases sent with
          | true =>
              rw [← Option.some.inj h]
              exact ⟨⟨[c.toEnvelope], rfl⟩, rfl, Or.inl rfl⟩
          | false =>
              rw [← Option.some.inj h]
              exact ⟨⟨[], (List.append_nil _).symm⟩, rfl, Or.inr (Or.inr rfl)⟩
  | clipboard text sent =>
      cases clip with
      | false => cases h
      | true =>
          cases text with
          | none =>
              rw [← Option.some.inj h]
              exact ⟨⟨[], (List.append_nil _).symm⟩, rfl, Or.inl rfl⟩
          | some t =>
              cases sent with
              | true =>
                  rw [← Option.some.inj h]
                  exact ⟨⟨[.clipboardSet t], rfl⟩, rfl, Or.inl rfl⟩
              | false =>
                  rw [← Option.some.inj h]
                  exact ⟨⟨[], (List.append_nil _).symm⟩, rfl, Or.inl rfl⟩

/-! ## Nobody gives up a live peer -/

/-- Towards the client. -/
def World.downLink (w : World) : Link where
  heard := w.client.lastReceived
  flight := w.toClient.map Prod.snd
  next := if w.handler.status = .running then some w.handler.nextPing else none

/-- Towards the server. -/
def World.upLink (w : World) : Link where
  heard := w.handler.lastSeen
  flight := w.toServer.map Prod.snd
  next := if w.client.status = .running then some w.clientPing else none

/-- Whoever is running hears the other in time. -/
structure Calm (late delay : Nat) (w : World) : Prop where
  down : w.client.status = .running →
    Healthy (seconds 5 + late) late delay w.now w.downLink
  up : w.handler.status = .running →
    Healthy (seconds 10 + late) late delay w.now w.upLink
  /-- A server that ended said goodbye last. -/
  goodbye : w.handler.status ≠ .running → w.client.status = .running →
    ∃ front t, w.toClient = front ++ [(.goodbye, t)]
  /-- A client that ended closed the stream. -/
  eof : w.client.status ≠ .running → w.handler.status = .running →
    ∃ front t, w.toServer = front ++ [(none, t)]
  seen : w.handler.status ≠ .timedOut
  heard : w.client.status ≠ .ended .unresponsive

section Moves

variable {late delay : Nat} {w : World}

theorem downLink_afterHandler (out : Handler × List Envelope) :
    (w.afterHandler out).downLink =
      { heard := w.client.lastReceived
        flight := w.downLink.flight ++ out.2.map fun _ => w.now
        next := if out.1.status = .running then some out.1.nextPing else none } := by
  simp only [World.downLink, World.afterHandler, List.map_append, List.map_map,
    Function.comp_def]
  rfl

theorem upLink_afterClient {s : LoopState} {ws : List Envelope}
    (hws : s.written = w.client.written ++ ws) (ping : Nat) :
    { w.afterClient s with clientPing := ping }.upLink =
      { heard := w.handler.lastSeen
        flight := w.upLink.flight ++ ((ws.map fun _ => w.now)
          ++ if s.status = .running then [] else [w.now])
        next := if s.status = .running then some ping else none } := by
  simp only [World.upLink, World.afterClient, hws, List.drop_left,
    List.map_append, List.map_map, Function.comp_def, List.append_assoc]
  split <;> rfl

theorem eq_now_of_mem_map (ws : List Envelope) (now : Nat) :
    ∀ a ∈ ws.map fun _ => now, a = now := by
  intro a ha
  obtain ⟨e, -, rfl⟩ := List.mem_map.mp ha
  rfl

/-- A running server sends what is not a ping. -/
theorem Calm.handlerRuns (h : Calm late delay w)
    (hrun : w.handler.status = .running) (h' : Handler)
    (hstatus : h'.status = .running) (hseen : h'.lastSeen = w.handler.lastSeen)
    (hping : h'.nextPing = w.handler.nextPing) (es : List Envelope) :
    Calm late delay (w.afterHandler (h', es)) where
  down := by
    intro hclient
    have hlink := (h.down hclient).sends (if_pos hrun)
      (eq_now_of_mem_map es w.now)
    rw [downLink_afterHandler]
    simp only [World.downLink, hrun, hstatus, hping, if_true] at hlink ⊢
    exact hlink
  up := by
    intro _
    have hlink := h.up hrun
    simp only [World.upLink, World.afterHandler, hseen] at hlink ⊢
    exact hlink
  goodbye := fun hnot => absurd hstatus hnot
  eof := fun hnot _ => h.eof hnot hrun
  seen := by
    show h'.status ≠ .timedOut
    rw [hstatus]
    exact fun heq => nomatch heq
  heard := h.heard

/-- It sends a ping. -/
theorem Calm.handlerBeats (h : Calm late delay w)
    (hrun : w.handler.status = .running) (hdue : w.handler.nextPing ≤ w.now)
    (millis : UInt64) :
    Calm late delay (w.afterHandler (w.handler.ping millis)) where
  down := by
    intro hclient
    have hlink := (h.down hclient).beat (if_pos hrun) hdue
      (Nat.le_add_right (seconds 5) late)
    rw [downLink_afterHandler]
    simp only [Handler.ping, hrun, if_true]
    exact hlink
  up := fun _ => h.up hrun
  goodbye := fun hnot => absurd hrun hnot
  eof := fun hnot _ => h.eof hnot hrun
  seen := h.seen
  heard := h.heard

/-- Its loop ends, though not for silence. -/
theorem handlerEnds
    (hdown : w.client.status = .running →
      Healthy (seconds 5 + late) late delay w.now w.downLink)
    (hrun : w.handler.status = .running)
    (hheard : w.client.status ≠ .ended .unresponsive) {h' : Handler}
    (hended : h'.status ≠ .running) (hseen : h'.status ≠ .timedOut) :
    Calm late delay (w.afterHandler (h', [.goodbye])) where
  down := by
    intro hclient
    have hlink := (hdown hclient).stop (if_pos hrun)
    rw [downLink_afterHandler]
    simp only [if_neg hended]
    exact hlink
  up := fun hnot => absurd hnot hended
  goodbye := fun _ _ => ⟨w.toClient, w.now, rfl⟩
  eof := fun _ hnot => absurd hnot hended
  seen := hseen
  heard := hheard

/-- It hears something that is not the end of the stream. -/
theorem Calm.handlerHears (h : Calm late delay w)
    (hrun : w.handler.status = .running) {env : Envelope} {a : Nat}
    {rest : List (Option Envelope × Nat)}
    (hflight : w.toServer = (some env, a) :: rest) :
    Calm late delay { w with
      toServer := rest
      handler := { w.handler with lastSeen := w.now } } := by
  -- the end of the stream is still to come
  have heof : w.client.status ≠ .running →
      ∃ front t, rest = front ++ [(none, t)] := by
    intro hnot
    obtain ⟨front, t, hfront⟩ := h.eof hnot hrun
    cases front with
    | nil =>
        rw [hflight] at hfront
        cases hfront
    | cons m front =>
        rw [hflight, List.cons_append] at hfront
        exact ⟨front, t, (List.cons.inj hfront).2⟩
  refine ⟨h.down, fun _ => ?_, h.goodbye, fun hnot _ => heof hnot, h.seen,
    h.heard⟩
  have hup : w.upLink.flight = a :: rest.map Prod.snd := by
    simp only [World.upLink, hflight, List.map_cons]
  refine (h.up hrun).receive hup ?_
  intro hnext
  have hnot : w.client.status ≠ .running := by
    intro hclient
    simp only [World.upLink, hclient, if_true] at hnext
    cases hnext
  obtain ⟨front, t, hfront⟩ := heof hnot
  rw [hfront, List.map_append]
  exact List.append_ne_nil_of_right_ne_nil _ (List.cons_ne_nil _ _)

/-- A running client writes what is not a ping. -/
theorem Calm.clientRuns (h : Calm late delay w)
    (hrun : w.client.status = .running) {s : LoopState} {ws : List Envelope}
    (hws : s.written = w.client.written ++ ws) (hstatus : s.status = .running)
    (hlast : s.lastReceived = w.client.lastReceived) :
    Calm late delay (w.afterClient s) where
  down := by
    intro _
    have hlink := h.down hrun
    simp only [World.downLink, World.afterClient, hlast] at hlink ⊢
    exact hlink
  up := by
    intro hhandler
    have hlink := (h.up hhandler).sends (if_pos hrun)
      (eq_now_of_mem_map ws w.now)
    have hview := upLink_afterClient hws w.clientPing
    simp only [hstatus, if_true, List.append_nil] at hview
    simp only [World.upLink, hrun, if_true] at hlink
    exact hview ▸ hlink
  goodbye := fun hnot _ => h.goodbye hnot hrun
  eof := fun hnot => absurd hstatus hnot
  seen := h.seen
  heard := by
    show s.status ≠ .ended .unresponsive
    rw [hstatus]
    exact fun heq => nomatch heq

/-- It pings. -/
theorem Calm.clientBeats (h : Calm late delay w)
    (hrun : w.client.status = .running) (hdue : w.clientPing ≤ w.now)
    {s : LoopState} {e : Envelope}
    (hws : s.written = w.client.written ++ [e]) (hstatus : s.status = .running)
    (hlast : s.lastReceived = w.client.lastReceived) :
    Calm late delay
      { w.afterClient s with clientPing := w.clientPing + seconds 10 } where
  down := by
    intro _
    have hlink := h.down hrun
    simp only [World.downLink, World.afterClient, hlast] at hlink ⊢
    exact hlink
  up := by
    intro hhandler
    have hlink := (h.up hhandler).beat (if_pos hrun) hdue
      (Nat.le_add_right (seconds 10) late)
    have hview := upLink_afterClient hws (w.clientPing + seconds 10)
    simp only [hstatus, if_true, List.append_nil] at hview
    exact hview ▸ hlink
  goodbye := fun hnot _ => h.goodbye hnot hrun
  eof := fun hnot => absurd hstatus hnot
  seen := h.seen
  heard := by
    show s.status ≠ .ended .unresponsive
    rw [hstatus]
    exact fun heq => nomatch heq

/-- Its loop ends, though not for silence. -/
theorem clientEnds
    (hup : w.handler.status = .running →
      Healthy (seconds 10 + late) late delay w.now w.upLink)
    (hrun : w.client.status = .running)
    (hseen : w.handler.status ≠ .timedOut) {s : LoopState}
    {ws : List Envelope} (hws : s.written = w.client.written ++ ws)
    (hended : s.status ≠ .running) (hheard : s.status ≠ .ended .unresponsive)
    (ping : Nat) :
    Calm late delay { w.afterClient s with clientPing := ping } where
  down := fun hnot => absurd hnot hended
  up := by
    intro hhandler
    have hlink := ((hup hhandler).sends (if_pos hrun)
      (eq_now_of_mem_map ws w.now)).stop (if_pos hrun)
    have hview := upLink_afterClient hws ping
    simp only [if_neg hended, ← List.append_assoc] at hview
    exact hview ▸ hlink
  goodbye := fun _ hnot => absurd hnot hended
  eof := by
    intro _ _
    simp only [World.afterClient, if_neg hended]
    exact ⟨_, w.now, rfl⟩
  seen := hseen
  heard := hheard

/-- It hears something that is not the last it can hear. -/
theorem Calm.clientHears (h : Calm late delay w)
    (hrun : w.client.status = .running) {env : Envelope} {a : Nat}
    {rest : List (Envelope × Nat)} (hflight : w.toClient = (env, a) :: rest)
    (henv : env ≠ .goodbye) :
    Calm late delay { w with
      toClient := rest
      client := { w.client with lastReceived := w.now } } := by
  -- the server's goodbye is still to come
  have hbye : w.handler.status ≠ .running →
      ∃ front t, rest = front ++ [(.goodbye, t)] := by
    intro hnot
    obtain ⟨front, t, hfront⟩ := h.goodbye hnot hrun
    cases front with
    | nil =>
        rw [hflight] at hfront
        exact absurd (Prod.mk.inj (List.cons.inj hfront).1).1 henv
    | cons m front =>
        rw [hflight, List.cons_append] at hfront
        exact ⟨front, t, (List.cons.inj hfront).2⟩
  refine ⟨fun _ => ?_, h.up, fun hnot _ => hbye hnot, h.eof, h.seen, h.heard⟩
  have hdown : w.downLink.flight = a :: rest.map Prod.snd := by
    simp only [World.downLink, hflight, List.map_cons]
  refine (h.down hrun).receive hdown ?_
  intro hnext
  have hnot : w.handler.status ≠ .running := by
    intro hhandler
    simp only [World.downLink, hhandler, if_true] at hnext
    cases hnext
  obtain ⟨front, t, hfront⟩ := hbye hnot
  rw [hfront, List.map_append]
  exact List.append_ne_nil_of_right_ne_nil _ (List.cons_ne_nil _ _)

end Moves

/-- Waiting leaves nothing overdue that a running side depends on: beats are at
    most `late` behind their time, envelopes at most `delay` under way. -/
def InTime (late delay : Nat) (w : World) : Action → Prop
  | .wait dt =>
      (w.client.status = .running →
        Timely late delay (w.now + dt) w.downLink) ∧
      (w.handler.status = .running →
        Timely late delay (w.now + dt) w.upLink)
  | _ => True

section Steps

variable {p : Platform} {clip : Bool} {late delay : Nat}

/-- The server hears something. -/
theorem Calm.handlerReceive {w w' : World} {current : Bool}
    (h : Calm late delay w)
    (hs : step p clip w (.handlerReceive current) = some w') :
    Calm late delay w' := by
  simp only [step] at hs
  split at hs
  · rename_i m a rest hflight
    split at hs
    · rename_i hrun
      rw [← Option.some.inj hs]
      cases m with
      | none =>
          refine handlerEnds (w := { w with toServer := rest }) h.down hrun
            h.heard ?_ ?_ <;> exact fun heq => nomatch heq
      | some env =>
          have hheard := h.handlerHears hrun hflight
          -- all but a goodbye leave the loop running
          have hgo : ∀ es : List Envelope,
              Calm late delay ({ w with toServer := rest }.afterHandler
                ({ w.handler with lastSeen := w.now }, es)) :=
            fun es => hheard.handlerRuns hrun
              { w.handler with lastSeen := w.now } hrun rfl rfl es
          cases env with
          | goodbye =>
              refine handlerEnds (w := { w with toServer := rest }) h.down hrun
                h.heard ?_ ?_ <;> exact fun heq => nomatch heq
          | _ => exact hgo _
    · cases hs
  · cases hs

/-- The client hears something. -/
theorem Calm.clientReceive {w w' : World} {millis : UInt64} {replied : Bool}
    (h : Calm late delay w)
    (hs : step p clip w (.clientReceive millis replied) = some w') :
    Calm late delay w' := by
  simp only [step] at hs
  split at hs
  · rename_i env a rest hflight
    split at hs
    · rename_i hrun
      rw [← Option.some.inj hs]
      obtain ⟨⟨ws, hws⟩, hlast, hstatus⟩ :=
        dispatch_writes p ⟨w.now, millis⟩ replied w.client env
      have hend : ∀ o : Outcome, o ≠ .unresponsive →
          (dispatch p ⟨w.now, millis⟩ replied w.client env).status = .ended o →
          Calm late delay ({ w with toClient := rest }.afterClient
            (dispatch p ⟨w.now, millis⟩ replied w.client env)) := by
        intro o ho heq
        refine clientEnds (w := { w with toClient := rest }) h.up hrun h.seen
          hws ?_ ?_ w.clientPing
        · rw [heq]
          exact fun hr => nomatch hr
        · rw [heq]
          exact fun hr => ho (Status.ended.inj hr)
      by_cases henv : env = .goodbye
      · rw [henv] at hend ⊢
        exact hend .goodbye (fun heq => nomatch heq) rfl
      · rcases hstatus with heq | heq | heq
        · exact (h.clientHears hrun hflight henv).clientRuns hrun hws
            (heq.trans hrun) hlast
        · exact hend .goodbye (fun heq => nomatch heq) heq
        · exact hend .sendFailed (fun heq => nomatch heq) heq
    · cases hs
  · cases hs

/-- **ONE STEP**: whatever either side does, nobody has been given up, as long
    as the clock has not run ahead of the timers and the link. -/
theorem calm_step (hfast : 2 * late + delay ≤ seconds 5) (w : World)
    (a : Action) (w' : World) (h : Calm late delay w)
    (hok : InTime late delay w a) (hs : step p clip w a = some w') :
    Calm late delay w' := by
  have h5 : seconds 5 = 5 * 10 ^ 9 := rfl
  cases a with
  | wait dt =>
      rw [← Option.some.inj hs]
      have hle : w.now ≤ w.now + dt := Nat.le_add_right _ _
      exact ⟨fun hrun => (h.down hrun).wait hle (hok.1 hrun),
        fun hrun => (h.up hrun).wait hle (hok.2 hrun), h.goodbye, h.eof,
        h.seen, h.heard⟩
  | handlerPing millis =>
      simp only [step] at hs
      split at hs
      · rename_i hen
        rw [← Option.some.inj hs]
        exact h.handlerBeats hen.1 hen.2 millis
      · cases hs
  | handlerWatchdog =>
      simp only [step] at hs
      split at hs
      · rename_i hen
        rw [← Option.some.inj hs]
        have hsilence := (h.up hen.1).silence_le
        have hnot : ¬ seconds 15 < w.now - w.handler.lastSeen := by
          have h10 : seconds 10 = 10 * 10 ^ 9 := rfl
          have h15 : seconds 15 = 15 * 10 ^ 9 := rfl
          have hheard : w.upLink.heard = w.handler.lastSeen := rfl
          omega
        rw [Handler.watchdog, if_neg hnot]
        exact h.handlerRuns hen.1
          { w.handler with nextWatch := w.handler.nextWatch + seconds 1 }
          hen.1 rfl rfl []
      · cases hs
  | handlerReceive current => exact h.handlerReceive hs
  | handlerSend env =>
      simp only [step] at hs
      split at hs
      · rename_i hen
        rw [← Option.some.inj hs]
        exact h.handlerRuns hen.1 w.handler hen.1 rfl rfl [env]
      · cases hs
  | clientPing millis sent =>
      simp only [step] at hs
      split at hs
      · rename_i hen
        obtain ⟨s, harm, hw'⟩ := Option.map_eq_some_iff.mp hs
        rw [← hw']
        have hsilence := (h.down hen.1).silence_le
        have halive : ¬ DEAD_AFTER < w.now - w.client.lastReceived := by
          have h20 : DEAD_AFTER = 20 * 10 ^ 9 := rfl
          have hheard : w.downLink.heard = w.client.lastReceived := rfl
          omega
        simp only [runArm, if_neg halive] at harm
        cases sent with
        | true =>
            rw [← Option.some.inj harm]
            exact h.clientBeats hen.1 hen.2 (e := .ping millis) rfl hen.1 rfl
        | false =>
            have hws : s.written = w.client.written ++ [] := by
              rw [← Option.some.inj harm, List.append_nil]
            have hstatus : s.status = .ended .sendFailed := by
              rw [← Option.some.inj harm]
            refine clientEnds h.up hen.1 h.seen hws ?_ ?_ _ <;>
              rw [hstatus] <;> decide
      · cases hs
  | clientReceive millis replied => exact h.clientReceive hs
  | clientArm a =>
      simp only [step] at hs
      split at hs
      · rename_i hen
        obtain ⟨s, harm, hw'⟩ := Option.map_eq_some_iff.mp hs
        rw [← hw']
        obtain ⟨⟨ws, hws⟩, hlast, hstatus⟩ := runArm_writes harm (by
          rintro clock sent rfl
          cases hen.2)
        rcases hstatus with heq | heq | heq
        · exact h.clientRuns hen.1 hws (heq.trans hen.1) hlast
        · refine clientEnds h.up hen.1 h.seen hws ?_ ?_ w.clientPing <;>
            rw [heq] <;> decide
        · refine clientEnds h.up hen.1 h.seen hws ?_ ?_ w.clientPing <;>
            rw [heq] <;> decide
      · cases hs

theorem calm_start {server client : Nat} (hsc : server ≤ client + late)
    (hcs : client ≤ server + late) :
    Calm late delay (World.start server client) where
  down := by
    intro _
    have h5 : seconds 5 = 5 * 10 ^ 9 := rfl
    refine ⟨⟨Nat.le_max_right _ _, fun a ha => nomatch ha⟩,
      ⟨trivial, ?_, fun h => nomatch h⟩, ⟨?_, fun a ha => nomatch ha⟩⟩
    · intro n hn
      rw [← Option.some.inj hn]
      show server + seconds 5 ≤ client + (seconds 5 + late)
      omega
    · intro n hn
      rw [← Option.some.inj hn]
      show max server client ≤ server + seconds 5 + late
      omega
  up := by
    intro _
    refine ⟨⟨Nat.le_max_left _ _, fun a ha => nomatch ha⟩,
      ⟨trivial, ?_, fun h => nomatch h⟩, ⟨?_, fun a ha => nomatch ha⟩⟩
    · intro n hn
      rw [← Option.some.inj hn]
      show client ≤ server + (seconds 10 + late)
      omega
    · intro n hn
      rw [← Option.some.inj hn]
      show max server client ≤ client + late
      omega
  goodbye := fun hnot => absurd rfl hnot
  eof := fun hnot => absurd rfl hnot
  seen := fun h => nomatch h
  heard := fun h => nomatch h

end Steps

/-- **NO LIVE PEER IS GIVEN UP**: if timers are at most `late` behind, and
    envelopes at most `delay` under way, with `2 * late + delay` no more than
    5 s, then in every run, whatever else is sent and however the session
    ends, the server's watchdog never takes the client for gone and the client
    never takes the server for unresponsive. -/
theorem live_peer_never_given_up (p : Platform) (clip : Bool)
    (late delay server client : Nat) (hfast : 2 * late + delay ≤ seconds 5)
    (hsc : server ≤ client + late) (hcs : client ≤ server + late)
    (acts : List Action) (w : World)
    (hrun : exec (step p clip) (World.start server client) acts = some w)
    (hok : Guarded (step p clip) (InTime late delay)
      (World.start server client) acts) :
    w.handler.status ≠ .timedOut ∧ w.client.status ≠ .ended .unresponsive := by
  have hcalm := invariant_exec (calm_step hfast) acts _ w
    (calm_start hsc hcs) hok hrun
  exact ⟨hcalm.seen, hcalm.heard⟩

/-- The watchdog looks, the client pings, the server answers a second later
    and the client hears the answer at once. -/
def oneRound : List Action :=
  [.handlerWatchdog, .clientPing 5 true, .wait (seconds 1),
    .handlerReceive false, .clientReceive 6 true]

theorem oneRound_inTime :
    Guarded (step .linux true) (InTime (seconds 1) (seconds 1))
      (World.start 0 0) oneRound := by
  refine (guarded_cons_some rfl).mpr ⟨trivial, ?_⟩
  refine (guarded_cons_some rfl).mpr ⟨trivial, ?_⟩
  refine (guarded_cons_some rfl).mpr ⟨⟨fun _ => ⟨?_, ?_⟩, fun _ => ⟨?_, ?_⟩⟩, ?_⟩
  · intro n hn
    rw [← Option.some.inj hn]
    decide
  · exact fun a ha => nomatch ha
  · intro n hn
    rw [← Option.some.inj hn]
    decide
  · intro a ha
    rw [List.mem_singleton.mp ha]
    decide
  · refine (guarded_cons_some rfl).mpr ⟨trivial, ?_⟩
    exact (guarded_cons_some rfl).mpr ⟨trivial, trivial⟩

theorem live_peer_never_given_up_round :
    ∃ w, exec (step .linux true) (World.start 0 0) oneRound = some w ∧
      w.client.events = [.latency 1] ∧
      w.handler.status ≠ .timedOut ∧
      w.client.status ≠ .ended .unresponsive := by
  refine ⟨_, rfl, by decide, ?_⟩
  exact live_peer_never_given_up .linux true (seconds 1) (seconds 1) 0 0
    (by decide) (Nat.zero_le _) (Nat.zero_le _) oneRound _ rfl oneRound_inTime

/-! ## A silent peer is noticed -/

section Watch

variable {p : Platform} {clip : Bool} {late : Nat} {w w' : World}

end Watch

end KvmKeepalive
