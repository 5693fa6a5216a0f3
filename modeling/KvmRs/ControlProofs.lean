import Mathlib.Data.Finset.Card
import Mathlib.Data.Finset.Insert
import KvmRs.AuthProofs
import KvmRs.RateLimitProofs
import KvmRs.TransitionProofs

/-! # The control channel

    `handle_client` for any number of connections over the shared server state:
    handshake, pairing, registration, the message loop and the way out.  Every
    await and every access to shared state ends a step, so the connections
    interleave at each of them, with the capture forwarder and the clipboard
    watcher as environment.

    The invariant `Secure` reads off each phase what the connection must have
    received by then.  From it follow who may be paired, who may be registered,
    and that a connection outside the registry has no say and hears nothing. -/

namespace KvmControl

open KvmEnvelope KvmAuth KvmRateLimit Transition

/-- Clipboard payloads larger than this are ignored. -/
def MAX_CLIPBOARD_BYTES : Nat := 1024 * 1024

/-- How long a client may be silent (15 s). -/
def WATCHDOG_LIMIT : Nat := 15 * 10 ^ 9

/-- What does not change while the server runs. -/
structure Settings where
  sha256 : List UInt8 → Vector UInt8 32
  pin : String
  filePort : UInt16
  serverName : String
  autoForward : Bool
  clipboardSync : Bool
  /-- The local clipboard could be opened, so there is a command queue. -/
  hasClipboard : Bool

/-- What a connection's handler does next. -/
inductive Phase where
  /-- Read the `Hello`. -/
  | hello
  /-- Send the `HelloAck`. -/
  | greeting
  /-- Read the `PairRequest`. -/
  | awaitingPair
  /-- Ask the limiter. -/
  | checking (req : PairRequest)
  /-- Look the fingerprint up. -/
  | readingConfig (req : PairRequest)
  /-- Compare the proof. -/
  | comparing (req : PairRequest)
  /-- Add the device to the config. -/
  | adding (req : PairRequest)
  /-- Send the `PairAccept`. -/
  | accepting (req : PairRequest)
  /-- Enter the registry. -/
  | registering (req : PairRequest)
  /-- The registry was empty before: honour `auto_forward`. -/
  | firstClient
  /-- Wait in the message loop. -/
  | looping
  /-- Serve a `ToggleForward`: store the flag, then broadcast. -/
  | storing (desired : Bool)
  | broadcasting (es : List Envelope)
  /-- Serve a `ClipboardSet`. -/
  | clipboard (text : String)
  /-- The loop has ended: leave the registry. -/
  | leaving
  /-- The registry is empty now: honour `auto_forward`. -/
  | lastClient
  /-- Send the `Goodbye`. -/
  | farewell
  | ended
  deriving DecidableEq

/-- A connection, with what was received and sent on it.  `registered` says
    that it has ever been in the registry, `acceptedPaired` that its
    fingerprint was a paired device when `PairAccept` was sent. -/
structure Conn where
  phase : Phase
  received : List Envelope
  sent : List Envelope
  lastSeen : Nat
  registered : Bool
  acceptedPaired : Bool
  deriving DecidableEq

def Conn.new : Conn where
  phase := .hello
  received := []
  sent := []
  lastSeen := 0
  registered := false
  acceptedPaired := false

variable {C Ip : Type}

structure World (C Ip : Type) where
  now : Nat
  pairedDevices : List String
  registry : Finset C
  forwardingEnabled : Bool
  clipboardQueue : List String
  rateLimiter : RateLimiter Ip
  conns : C → Conn

inductive Action (C : Type) where
  /-- An envelope arrives where the handler reads one. -/
  | receive (c : C) (e : Envelope)
  /-- The handler's next step. -/
  | advance (c : C)
  /-- A read or send fails, or a deadline passes, before registration. -/
  | fail (c : C)
  /-- The reader task has stopped. -/
  | closed (c : C)
  | pingTick (c : C) (ts : UInt64)
  | watchdog (c : C)
  /-- The forwarder, the clipboard watcher or the shutdown broadcasts. -/
  | broadcast (e : Envelope)
  /-- The capture thread stores to the flag. -/
  | hotkey (on : Bool)
  /-- The clipboard watcher takes a command. -/
  | takeClipboard
  | tick (d : Nat)
  deriving DecidableEq

/-- The connection that acts, if any. -/
def Action.actor : Action C → Option C
  | .receive c _ => some c
  | .advance c => some c
  | .fail c => some c
  | .closed c => some c
  | .pingTick c _ => some c
  | .watchdog c => some c
  | _ => none

def World.start (C Ip : Type) (paired : List String) (enabled : Bool) :
    World C Ip where
  now := 0
  pairedDevices := paired
  registry := ∅
  forwardingEnabled := enabled
  clipboardQueue := []
  rateLimiter := fun _ => none
  conns := fun _ => Conn.new

/-- Go on, and send these envelopes first. -/
def Conn.goto (x : Conn) (ph : Phase) (es : List Envelope) : Conn :=
  { x with phase := ph, sent := x.sent ++ es }

/-- The broadcasts of a toggle asked for by a client. -/
def toggleBroadcasts (desired : Bool) : List Envelope :=
  (if desired then [] else [.input .releaseAll]) ++ [.toggleForward desired]

/-- The handler's reaction to an envelope, where it reads one. -/
def onEnvelope (enabled : Bool) (now : Nat) (x : Conn) (e : Envelope) :
    Option Conn :=
  match x.phase with
  | .hello =>
      match e with
      | .hello _ version _ =>
          if version ≠ PROTOCOL_VERSION then
            some (x.goto .ended
              [.error ("protocol version mismatch: server="
                ++ PROTOCOL_VERSION ++ ", client=" ++ version)])
          else some (x.goto .greeting [])
      | _ => some (x.goto .ended [.error "expected Hello"])
  | .awaitingPair =>
      match e with
      | .pairRequest nonce fingerprint proof =>
          some (x.goto (.checking ⟨nonce, fingerprint, proof⟩) [])
      | _ => some (x.goto .ended [.error "expected PairRequest"])
  | .looping =>
      let x := { x with lastSeen := now }
      match e with
      | .goodbye => some (x.goto .leaving [])
      | .ping ts => some (x.goto .looping [.pong ts])
      | .toggleForward desired =>
          some (x.goto
            (if desired ≠ enabled then .storing desired else .looping) [])
      | .clipboardSet text => some (x.goto (.clipboard text) [])
      | _ => some x
  | _ => none

section System

variable [DecidableEq C] [DecidableEq Ip]

def World.set (w : World C Ip) (c : C) (x : Conn) : World C Ip :=
  { w with conns := Function.update w.conns c x }

/-- `broadcast`: one envelope to everyone in the registry. -/
def World.broadcast (w : World C Ip) (e : Envelope) : World C Ip :=
  { w with
    conns := fun c =>
      if c ∈ w.registry then
        { w.conns c with sent := (w.conns c).sent ++ [e] }
      else w.conns c }

/-- The handler's next step, outside its reads. -/
def advance (k : Settings) (ip : C → Ip) (w : World C Ip) (c : C) :
    Option (World C Ip) :=
  let x := w.conns c
  match x.phase with
  | .greeting =>
      some (w.set c (x.goto .awaitingPair [.helloAck k.filePort k.serverName]))
  | .checking req =>
      some (w.set c (
        if isRateLimited w.rateLimiter (ip c) w.now then
          x.goto .ended
            [.pairReject "too many failed pairing attempts; try again later"]
        else x.goto (.readingConfig req) []))
  | .readingConfig req =>
      some (w.set c (x.goto
        (if req.fingerprint ∈ w.pairedDevices then .accepting req
          else .comparing req) []))
  | .comparing req =>
      if proofOk k.sha256 k.pin req then
        some (w.set c (x.goto (.adding req) []))
      else
        some ({ w with
          rateLimiter := recordPairingFailure w.rateLimiter (ip c) w.now }.set
            c (x.goto .ended
              [.pairReject "pairing PIN required or incorrect"]))
  | .adding req =>
      some ({ w with
        pairedDevices := req.fingerprint :: w.pairedDevices }.set c
          (x.goto (.accepting req) []))
  | .accepting req =>
      some (w.set c { x.goto (.registering req) [.pairAccept] with
        acceptedPaired := decide (req.fingerprint ∈ w.pairedDevices) })
  | .registering _ =>
      let registry := insert c w.registry
      some ({ w with registry := registry }.set c
        { x.goto (if registry.card = 1 then .firstClient else .looping) [] with
          registered := true
          lastSeen := w.now })
  | .firstClient =>
      if k.autoForward then
        some ({ w with forwardingEnabled := true }.set c
          (x.goto .looping
            (if w.forwardingEnabled then [] else [.toggleForward true])))
      else some (w.set c (x.goto .looping []))
  | .storing desired =>
      some ({ w with forwardingEnabled := desired }.set c
        (x.goto (.broadcasting (toggleBroadcasts desired)) []))
  | .broadcasting [] => some (w.set c (x.goto .looping []))
  | .broadcasting (e :: es) =>
      some ((w.set c (x.goto (.broadcasting es) [])).broadcast e)
  | .clipboard text =>
      some ({ w with
        clipboardQueue := w.clipboardQueue ++
          (if k.clipboardSync ∧ (ByteCodec.utf8 text).length
              ≤ MAX_CLIPBOARD_BYTES ∧ k.hasClipboard then [text]
            else []) }.set c (x.goto .looping []))
  | .leaving =>
      let registry := w.registry.erase c
      some ({ w with registry := registry }.set c
        (x.goto (if registry = ∅ then .lastClient else .farewell) []))
  | .lastClient =>
      some ({ w with
        forwardingEnabled :=
          if k.autoForward then false else w.forwardingEnabled }.set c
            (x.goto .farewell []))
  | .farewell => some (w.set c (x.goto .ended [.goodbye]))
  | _ => none

/-- The phases in which a failed read or send ends the handler. -/
def Phase.mayFail : Phase → Bool
  | .hello => true
  | .greeting => true
  | .awaitingPair => true
  | .accepting _ => true
  | _ => false

/-- One step of one connection or of the environment. -/
def step (k : Settings) (ip : C → Ip) (w : World C Ip) :
    Action C → Option (World C Ip)
  | .receive c e =>
      (onEnvelope w.forwardingEnabled w.now (w.conns c) e).map fun x =>
        w.set c { x with received := x.received ++ [e] }
  | .advance c => advance k ip w c
  | .fail c =>
      if (w.conns c).phase.mayFail then
        some (w.set c ((w.conns c).goto .ended []))
      else none
  | .closed c =>
      if (w.conns c).phase = .looping then
        some (w.set c ((w.conns c).goto .leaving []))
      else none
  | .pingTick c ts =>
      if (w.conns c).phase = .looping then
        some (w.set c ((w.conns c).goto .looping [.ping ts]))
      else none
  | .watchdog c =>
      if (w.conns c).phase = .looping then
        some (w.set c ((w.conns c).goto
          (if WATCHDOG_LIMIT < w.now - (w.conns c).lastSeen then .leaving
            else .looping) []))
      else none
  | .broadcast e => some (w.broadcast e)
  | .hotkey on => some { w with forwardingEnabled := on }
  | .takeClipboard =>
      match w.clipboardQueue with
      | _ :: rest => some { w with clipboardQueue := rest }
      | [] => none
  | .tick d => some { w with now := w.now + d }

variable {k : Settings} {ip : C → Ip} {w w' : World C Ip} {c : C}

/-- A failed read or send ends the handler. -/
theorem step_fail (hs : step k ip w (.fail c) = some w') :
    (w.conns c).phase.mayFail = true ∧
      w' = w.set c ((w.conns c).goto .ended []) := by
  simp only [step] at hs
  split at hs
  · rename_i hf
    exact ⟨hf, (Option.some.inj hs).symm⟩
  · cases hs

/-- The message loop's own events: it goes on or ends. -/
def Action.inLoop (c : C) : Action C → Prop
  | .closed c' => c' = c
  | .pingTick c' _ => c' = c
  | .watchdog c' => c' = c
  | _ => False

theorem step_inLoop {a : Action C} (ha : a.inLoop c)
    (hs : step k ip w a = some w') :
    (w.conns c).phase = .looping ∧
      ∃ ph es, (ph = .leaving ∨ ph = .looping) ∧
        w' = w.set c ((w.conns c).goto ph es) := by
  cases a <;> simp only [Action.inLoop] at ha <;> subst ha <;>
    simp only [step] at hs <;> split at hs
  case closed.isTrue hp =>
      exact ⟨hp, _, _, Or.inl rfl, (Option.some.inj hs).symm⟩
  case pingTick.isTrue hp =>
      exact ⟨hp, _, _, Or.inr rfl, (Option.some.inj hs).symm⟩
  case watchdog.isTrue hp =>
      refine ⟨hp, _, _, ?_, (Option.some.inj hs).symm⟩
      split
      · exact Or.inl rfl
      · exact Or.inr rfl
  all_goals cases hs

/-- Outside `advance` an acting connection changes only itself. -/
theorem step_actor {a : Action C} (ha : a.actor = some c)
    (hadv : a ≠ .advance c) (hs : step k ip w a = some w') :
    ∃ x, w' = w.set c x := by
  have hloop : a.inLoop c → ∃ x, w' = w.set c x := by
    intro hin
    obtain ⟨-, ph, es, -, hw⟩ := step_inLoop hin hs
    exact ⟨_, hw⟩
  cases a with
  | receive c' e =>
      obtain ⟨x, -, rfl⟩ := Option.map_eq_some_iff.mp hs
      obtain rfl : c' = c := Option.some.inj ha
      exact ⟨_, rfl⟩
  | advance c' =>
      exact absurd (congrArg Action.advance (Option.some.inj ha)) hadv
  | fail c' =>
      obtain rfl : c' = c := Option.some.inj ha
      exact ⟨_, (step_fail hs).2⟩
  | closed c' => exact hloop (Option.some.inj ha)
  | pingTick c' ts => exact hloop (Option.some.inj ha)
  | watchdog c' => exact hloop (Option.some.inj ha)
  | broadcast e => cases ha
  | hotkey on => cases ha
  | takeClipboard => cases ha
  | tick d => cases ha

end System

/-! ## What a connection has shown -/

/-- The connection began with a `Hello` of the right version and this
    request. -/
def Requested (received : List Envelope) (req : PairRequest) : Prop :=
  ∃ name caps rest, received = .hello name PROTOCOL_VERSION caps ::
    .pairRequest req.nonce req.fingerprint req.proof :: rest

/-- The connection has proved to know the PIN for this fingerprint. -/
def Proved (k : Settings) (received : List Envelope) (fp : String) : Prop :=
  ∃ req, Requested received req ∧ req.fingerprint = fp ∧
    req.proof = pairingProof k.sha256 k.pin req.nonce fp

/-- Envelopes that only a registered client may see. -/
def privileged : Envelope → Bool
  | .input _ => true
  | .toggleForward _ => true
  | .clipboardSet _ => true
  | _ => false

/-- The handler is between entering and leaving the registry. -/
def Phase.inRegistry : Phase → Bool
  | .firstClient => true
  | .looping => true
  | .storing _ => true
  | .broadcasting _ => true
  | .clipboard _ => true
  | .leaving => true
  | _ => false

/-- The handler has been in the registry. -/
def Phase.afterRegistering : Phase → Bool
  | .lastClient => true
  | .farewell => true
  | ph => ph.inRegistry

/-- What the handler must have received to be in its phase. -/
def PhaseOk (k : Settings) (x : Conn) : Prop :=
  match x.phase with
  | .hello => x.received = []
  | .greeting => ∃ name caps, x.received = [.hello name PROTOCOL_VERSION caps]
  | .awaitingPair =>
      ∃ name caps, x.received = [.hello name PROTOCOL_VERSION caps]
  | .checking req => Requested x.received req
  | .readingConfig req => Requested x.received req
  | .comparing req => Requested x.received req
  | .adding req => Requested x.received req ∧
      req.proof = pairingProof k.sha256 k.pin req.nonce req.fingerprint
  | .accepting req => Requested x.received req
  | .registering req => Requested x.received req ∧ x.acceptedPaired = true
  | _ => True

/-- One connection against the paired devices and its place in the
    registry. -/
structure ConnOk (k : Settings) (paired : List String) (listed : Prop)
    (x : Conn) : Prop where
  phase : PhaseOk k x
  accepting : ∀ req, x.phase = .accepting req → req.fingerprint ∈ paired
  listed_iff : listed ↔ x.phase.inRegistry = true
  registered : x.phase.afterRegistering = true → x.registered = true
  history : x.registered = true →
    ∃ req, Requested x.received req ∧ x.acceptedPaired = true
  quiet : x.registered = false → ∀ e ∈ x.sent, privileged e = false

/-- The invariant. -/
structure Secure (k : Settings) (initial : List String) (w : World C Ip) :
    Prop where
  conn : ∀ c, ConnOk k w.pairedDevices (c ∈ w.registry) (w.conns c)
  paired : ∀ fp ∈ w.pairedDevices,
    fp ∈ initial ∨ ∃ c, Proved k (w.conns c).received fp

theorem Requested.append {received : List Envelope} {req : PairRequest}
    (h : Requested received req) (es : List Envelope) :
    Requested (received ++ es) req := by
  obtain ⟨name, caps, rest, rfl⟩ := h
  exact ⟨name, caps, rest ++ es, rfl⟩

theorem Proved.append {k : Settings} {received : List Envelope} {fp : String}
    (h : Proved k received fp) (es : List Envelope) :
    Proved k (received ++ es) fp := by
  obtain ⟨req, hreq, hfp, hproof⟩ := h
  exact ⟨req, hreq.append es, hfp, hproof⟩

theorem secure_start (k : Settings) (paired : List String) (enabled : Bool) :
    Secure k paired (World.start C Ip paired enabled) where
  conn := by
    intro c
    refine ⟨rfl, fun _ h => (nomatch h), ?_, fun h => (nomatch h),
      fun h => (nomatch h), fun _ _ h => (nomatch h)⟩
    exact ⟨fun h => absurd h (Finset.notMem_empty c), fun h => nomatch h⟩
  paired := fun _ h => Or.inl h

/-- More paired devices do no harm to a connection. -/
theorem ConnOk.mono {k : Settings} {paired paired' : List String}
    {listed listed' : Prop} {x : Conn} (h : ConnOk k paired listed x)
    (hsub : ∀ fp ∈ paired, fp ∈ paired') (hl : listed' ↔ listed) :
    ConnOk k paired' listed' x :=
  ⟨h.phase, fun req hr => hsub _ (h.accepting req hr),
    hl.trans h.listed_iff, h.registered, h.history, h.quiet⟩

/-- A registered connection may be sent anything. -/
theorem ConnOk.send {k : Settings} {paired : List String} {listed : Prop}
    {x : Conn} (h : ConnOk k paired listed x) (hreg : x.registered = true)
    (es : List Envelope) :
    ConnOk k paired listed { x with sent := x.sent ++ es } := by
  refine ⟨h.phase, h.accepting, h.listed_iff, h.registered, h.history, ?_⟩
  intro hno
  rw [show x.registered = false from hno] at hreg
  cases hreg

section Steps

variable [DecidableEq C] {k : Settings} {initial : List String}
  {w : World C Ip} {c : C}

/-- A step that replaces one connection and perhaps adds paired devices or
    changes that connection's place in the registry. -/
theorem Secure.set (h : Secure k initial w) {x : Conn} {w' : World C Ip}
    (hconns : w'.conns = Function.update w.conns c x)
    (hsub : ∀ fp ∈ w.pairedDevices, fp ∈ w'.pairedDevices)
    (hreg : ∀ c', c' ≠ c → (c' ∈ w'.registry ↔ c' ∈ w.registry))
    (hx : ConnOk k w'.pairedDevices (c ∈ w'.registry) x)
    (hgrow : ∃ es, x.received = (w.conns c).received ++ es)
    (hnew : ∀ fp ∈ w'.pairedDevices, fp ∈ w.pairedDevices ∨
      Proved k x.received fp) : Secure k initial w' := by
  obtain ⟨es, hes⟩ := hgrow
  refine ⟨?_, ?_⟩
  · intro c'
    rw [hconns]
    by_cases hc : c' = c
    · rw [hc, Function.update_self]
      exact hx
    · rw [Function.update_of_ne hc]
      exact (h.conn c').mono hsub (hreg c' hc)
  · intro fp hfp
    rcases hnew fp hfp with hold | hproved
    · rcases h.paired fp hold with hinit | ⟨c', hc'⟩
      · exact Or.inl hinit
      · refine Or.inr ⟨c', ?_⟩
        rw [hconns]
        by_cases hc : c' = c
        · rw [hc, Function.update_self, hes]
          rw [hc] at hc'
          exact hc'.append es
        · rw [Function.update_of_ne hc]
          exact hc'
    · refine Or.inr ⟨c, ?_⟩
      rw [hconns, Function.update_self]
      exact hproved

/-- A step of an unregistered connection that stays outside the registry and
    adds no paired device. -/
theorem Secure.goto (h : Secure k initial w) {x : Conn} {w' : World C Ip}
    (hconns : w'.conns = Function.update w.conns c x)
    (hpaired : w'.pairedDevices = w.pairedDevices)
    (hreg : w'.registry = w.registry)
    (hx : ConnOk k w.pairedDevices (c ∈ w.registry) x)
    (hgrow : ∃ es, x.received = (w.conns c).received ++ es) :
    Secure k initial w' := by
  refine h.set hconns ?_ ?_ ?_ hgrow ?_
  · exact fun fp hfp => hpaired ▸ hfp
  · exact fun c' _ => by rw [hreg]
  · rw [hpaired, hreg]
    exact hx
  · exact fun fp hfp => Or.inl (hpaired ▸ hfp)

/-- A handler that has not been registered goes on to a phase outside the
    registry and sends something harmless. -/
theorem ConnOk.outside {paired : List String} {listed : Prop} {x x' : Conn}
    (h : ConnOk k paired listed x) (hout : x.phase.afterRegistering = false)
    (hout' : x'.phase.afterRegistering = false) (hph : PhaseOk k x')
    (hacc : ∀ req, x'.phase = .accepting req → req.fingerprint ∈ paired)
    (hreg : x'.registered = x.registered)
    (hhist : x'.registered = true →
      ∃ req, Requested x'.received req ∧ x'.acceptedPaired = true)
    {es : List Envelope} (hsent : x'.sent = x.sent ++ es)
    (hes : ∀ e ∈ es, privileged e = false) : ConnOk k paired listed x' := by
  have hno : ∀ y : Conn, y.phase.afterRegistering = false →
      y.phase.inRegistry = false := by
    intro y hy
    cases hyp : y.phase <;>
      simp [hyp, Phase.afterRegistering, Phase.inRegistry] at hy ⊢
  refine ⟨hph, hacc, ?_, ?_, hhist, ?_⟩
  · rw [h.listed_iff, hno x hout, hno x' hout']
  · rw [hout']
    exact fun h => nomatch h
  · intro hr e he
    rw [hsent] at he
    rcases List.mem_append.mp he with he | he
    · exact h.quiet (hreg ▸ hr) e he
    · exact hes e he

/-- In the phases from the registration on nothing more is asked for. -/
theorem phaseOk_late {x : Conn}
    (h : x.phase.afterRegistering = true ∨ x.phase = .ended) :
    PhaseOk k x ∧ ∀ req, x.phase ≠ .accepting req := by
  cases hp : x.phase <;>
    simp [PhaseOk, hp, Phase.afterRegistering, Phase.inRegistry] at h ⊢

/-- A registered handler goes on. -/
theorem ConnOk.inside {paired : List String} {listed listed' : Prop}
    {x x' : Conn} (h : ConnOk k paired listed x)
    (hin : x.phase.afterRegistering = true)
    (hlate : x'.phase.afterRegistering = true ∨ x'.phase = .ended)
    (hlisted : listed' ↔ x'.phase.inRegistry = true)
    (hreg : x'.registered = x.registered)
    (hacc : x'.acceptedPaired = x.acceptedPaired)
    (hgrow : ∃ es, x'.received = x.received ++ es) :
    ConnOk k paired listed' x' := by
  have hr : x'.registered = true := hreg.trans (h.registered hin)
  obtain ⟨es, hes⟩ := hgrow
  obtain ⟨hph, hno⟩ := @phaseOk_late k x' hlate
  refine ⟨hph, fun req heq => absurd heq (hno req), hlisted, fun _ => hr,
    ?_, ?_⟩
  · intro _
    obtain ⟨req, hreq, hap⟩ := h.history (h.registered hin)
    exact ⟨req, hes ▸ hreq.append es, hacc.trans hap⟩
  · intro hf
    rw [hr] at hf
    cases hf

/-- The handler reads an envelope. -/
theorem secure_receive (h : Secure k initial w) {e : Envelope} {x : Conn}
    (hx : onEnvelope w.forwardingEnabled w.now (w.conns c) e = some x) :
    Secure k initial
      (w.set c { x with received := x.received ++ [e] }) := by
  have hok := h.conn c
  have hph := hok.phase
  -- the reaction keeps what was received and how the connection stands
  have hout : ∀ (ph : Phase) (es : List Envelope),
      (w.conns c).phase.afterRegistering = false →
      ph.afterRegistering = false → (∀ req, ph ≠ .accepting req) →
      PhaseOk k { (w.conns c).goto ph es with
        received := (w.conns c).received ++ [e] } →
      (∀ e' ∈ es, privileged e' = false) →
      Secure k initial (w.set c { (w.conns c).goto ph es with
        received := (w.conns c).received ++ [e] }) := by
    intro ph es hold hnew hacc hphok hes
    refine h.goto rfl rfl rfl ?_ ⟨[e], rfl⟩
    refine hok.outside hold hnew hphok ?_ rfl ?_ rfl hes
    · exact fun req heq => absurd heq (hacc req)
    · intro hr
      obtain ⟨req, hreq, hap⟩ := hok.history hr
      exact ⟨req, hreq.append [e], hap⟩
  cases hp : (w.conns c).phase <;>
    simp only [onEnvelope, hp, reduceCtorEq] at hx
  case hello =>
      simp only [PhaseOk, hp] at hph
      cases e <;> simp only [Option.some.injEq] at hx
      case hello name version caps =>
          split at hx
          · rw [← Option.some.inj hx]
            refine hout _ _ (by rw [hp]; rfl) rfl (by simp) trivial ?_
            simp [privileged]
          · rename_i hv
            rw [← Option.some.inj hx]
            refine hout _ _ (by rw [hp]; rfl) rfl (by simp) ?_ (by simp)
            refine ⟨name, caps, ?_⟩
            show (w.conns c).received ++ _ = _
            rw [hph, not_not.mp hv]
            rfl
      all_goals
        rw [← hx]
        refine hout _ _ (by rw [hp]; rfl) rfl (by simp) trivial ?_
        simp [privileged]
  case awaitingPair =>
      simp only [PhaseOk, hp] at hph
      obtain ⟨name, caps, hrec⟩ := hph
      cases e <;> simp only [Option.some.injEq] at hx
      case pairRequest nonce fp proof =>
          rw [← hx]
          refine hout _ _ (by rw [hp]; rfl) rfl (by simp) ?_ (by simp)
          refine ⟨name, caps, [], ?_⟩
          show (w.conns c).received ++ _ = _
          rw [hrec]
          rfl
      all_goals
        rw [← hx]
        refine hout _ _ (by rw [hp]; rfl) rfl (by simp) trivial ?_
        simp [privileged]
  case looping =>
      have hin : (w.conns c).phase.afterRegistering = true := by rw [hp]; rfl
      -- whatever it is, the handler stays in the registry
      have hgo : x.phase.inRegistry = true ∧
          x.registered = (w.conns c).registered ∧
          x.acceptedPaired = (w.conns c).acceptedPaired ∧
          x.received = (w.conns c).received := by
        cases e <;> simp only [Option.some.injEq] at hx <;> rw [← hx]
        case toggleForward desired =>
            refine ⟨?_, rfl, rfl, rfl⟩
            show Phase.inRegistry (if _ then _ else _) = true
            split <;> rfl
        all_goals
          refine ⟨?_, rfl, rfl, rfl⟩
          simp [Conn.goto, Phase.inRegistry]
      obtain ⟨hreg, hr, hap, hrec⟩ := hgo
      have hafter : x.phase.afterRegistering = true := by
        cases hq : x.phase <;>
          simp [hq, Phase.afterRegistering, Phase.inRegistry] at hreg ⊢
      refine h.goto rfl rfl rfl ?_ ⟨[e], by show _ ++ _ = _; rw [hrec]⟩
      refine hok.inside hin (Or.inl hafter) ?_ hr hap ⟨[e], ?_⟩
      · rw [hok.listed_iff, hp]
        exact ⟨fun _ => hreg, fun _ => rfl⟩
      · show _ ++ _ = _
        rw [hrec]

/-- A handler that has not been registered moves on without reading. -/
theorem secure_outside (h : Secure k initial w) {ph : Phase}
    {es : List Envelope} {w' : World C Ip}
    (hconns : w'.conns
      = Function.update w.conns c ((w.conns c).goto ph es))
    (hpaired : w'.pairedDevices = w.pairedDevices)
    (hreg : w'.registry = w.registry)
    (hout : (w.conns c).phase.afterRegistering = false)
    (hout' : ph.afterRegistering = false)
    (hph : PhaseOk k ((w.conns c).goto ph es))
    (hacc : ∀ req, ph = .accepting req → req.fingerprint ∈ w.pairedDevices)
    (hes : ∀ e ∈ es, privileged e = false) : Secure k initial w' := by
  have hok := h.conn c
  refine h.goto hconns hpaired hreg ?_ ⟨[], (List.append_nil _).symm⟩
  exact hok.outside hout hout' hph hacc rfl hok.history rfl hes

/-- A registered handler moves on without reading, inside the registry. -/
theorem secure_inside (h : Secure k initial w) {ph : Phase}
    {es : List Envelope} {w' : World C Ip}
    (hconns : w'.conns
      = Function.update w.conns c ((w.conns c).goto ph es))
    (hpaired : w'.pairedDevices = w.pairedDevices)
    (hreg : w'.registry = w.registry)
    (hin : (w.conns c).phase.afterRegistering = true)
    (hlate : ph.afterRegistering = true ∨ ph = .ended)
    (hsame : ph.inRegistry = (w.conns c).phase.inRegistry) :
    Secure k initial w' := by
  have hok := h.conn c
  refine h.goto hconns hpaired hreg ?_ ⟨[], (List.append_nil _).symm⟩
  refine hok.inside hin hlate ?_ rfl rfl ⟨[], (List.append_nil _).symm⟩
  rw [hok.listed_iff]
  show _ ↔ ph.inRegistry = true
  rw [hsame]

/-- Broadcasting reaches registered connections only. -/
theorem secure_broadcast (h : Secure k initial w) (e : Envelope) :
    Secure k initial (w.broadcast e) := by
  have hrec : ∀ c, ((w.broadcast e).conns c).received
      = (w.conns c).received := by
    intro c
    simp only [World.broadcast]
    split <;> rfl
  refine ⟨?_, ?_⟩
  · intro c
    have hok := h.conn c
    show ConnOk k w.pairedDevices (c ∈ w.registry) ((w.broadcast e).conns c)
    simp only [World.broadcast]
    split
    · rename_i hc
      refine hok.send (hok.registered ?_) [e]
      have hin := hok.listed_iff.mp hc
      cases hp : (w.conns c).phase <;>
        simp [hp, Phase.afterRegistering, Phase.inRegistry] at hin ⊢
    · exact hok
  · intro fp hfp
    rcases h.paired fp hfp with hinit | ⟨c, hc⟩
    · exact Or.inl hinit
    · exact Or.inr ⟨c, hrec c ▸ hc⟩

/-- The only step that pairs a device; it comes with a proof. -/
theorem secure_pair (h : Secure k initial w) {req : PairRequest}
    (hp : (w.conns c).phase = .adding req) {w' : World C Ip}
    (hconns : w'.conns
      = Function.update w.conns c ((w.conns c).goto (.accepting req) []))
    (hpaired : w'.pairedDevices = req.fingerprint :: w.pairedDevices)
    (hreg : w'.registry = w.registry) : Secure k initial w' := by
  have hok := h.conn c
  have hph := hok.phase
  simp only [PhaseOk, hp] at hph
  have hmore : ∀ fp ∈ w.pairedDevices, fp ∈ w'.pairedDevices := by
    intro fp hfp
    rw [hpaired]
    exact List.mem_cons_of_mem _ hfp
  refine h.set hconns hmore ?_ ?_ ⟨[], (List.append_nil _).symm⟩ ?_
  · exact fun c' _ => by rw [hreg]
  · refine (hok.mono hmore (by rw [hreg])).outside (by rw [hp]; rfl) rfl hph.1
      ?_ rfl hok.history rfl (by simp)
    intro req' heq
    rw [← Phase.accepting.inj heq, hpaired]
    exact List.mem_cons_self
  · intro fp hfp
    rw [hpaired] at hfp
    rcases List.mem_cons.mp hfp with rfl | hfp
    · exact Or.inr ⟨req, hph.1, rfl, hph.2⟩
    · exact Or.inl hfp

/-- The handler enters the registry. -/
theorem secure_register (h : Secure k initial w) {req : PairRequest}
    (hp : (w.conns c).phase = .registering req) {ph : Phase}
    (hin : ph.inRegistry = true) {w' : World C Ip}
    (hconns : w'.conns = Function.update w.conns c
      { (w.conns c).goto ph [] with registered := true, lastSeen := w.now })
    (hpaired : w'.pairedDevices = w.pairedDevices)
    (hreg : w'.registry = insert c w.registry) : Secure k initial w' := by
  have hok := h.conn c
  have hph := hok.phase
  simp only [PhaseOk, hp] at hph
  have hlate : ph.afterRegistering = true := by
    cases ph <;> simp [Phase.afterRegistering, Phase.inRegistry] at hin ⊢
  refine h.set hconns ?_ ?_ ?_ ⟨[], (List.append_nil _).symm⟩ ?_
  · exact fun fp hfp => hpaired ▸ hfp
  · intro c' hc'
    rw [hreg, Finset.mem_insert]
    exact ⟨fun h => h.resolve_left hc', Or.inr⟩
  · obtain ⟨hphok, hno⟩ := @phaseOk_late k
      { (w.conns c).goto ph [] with registered := true, lastSeen := w.now }
      (Or.inl hlate)
    refine ⟨hphok, fun req' heq => absurd heq (hno req'), ?_, fun _ => rfl,
      ?_, fun h => nomatch h⟩
    · rw [hreg]
      exact ⟨fun _ => hin, fun _ => Finset.mem_insert_self c _⟩
    · intro _
      exact ⟨req, hph.1, hph.2⟩
  · exact fun fp hfp => Or.inl (hpaired ▸ hfp)

/-- The handler leaves the registry. -/
theorem secure_leave (h : Secure k initial w)
    (hp : (w.conns c).phase = .leaving) {ph : Phase}
    (hlate : ph.afterRegistering = true) (hout : ph.inRegistry = false)
    {w' : World C Ip}
    (hconns : w'.conns = Function.update w.conns c ((w.conns c).goto ph []))
    (hpaired : w'.pairedDevices = w.pairedDevices)
    (hreg : w'.registry = w.registry.erase c) : Secure k initial w' := by
  have hok := h.conn c
  refine h.set hconns ?_ ?_ ?_ ⟨[], (List.append_nil _).symm⟩ ?_
  · exact fun fp hfp => hpaired ▸ hfp
  · intro c' hc'
    rw [hreg, Finset.mem_erase]
    exact ⟨And.right, fun h => ⟨hc', h⟩⟩
  · rw [hpaired]
    refine hok.inside (by rw [hp]; rfl) (Or.inl hlate) ?_ rfl rfl
      ⟨[], (List.append_nil _).symm⟩
    rw [hreg]
    show c ∈ w.registry.erase c ↔ ph.inRegistry = true
    rw [hout]
    exact ⟨fun h => absurd h (Finset.notMem_erase c _), fun h => nomatch h⟩
  · exact fun fp hfp => Or.inl (hpaired ▸ hfp)

/-- The steps outside the reads. -/
theorem secure_advance [DecidableEq Ip] {ip : C → Ip} {w' : World C Ip}
    (h : Secure k initial w) (hs : advance k ip w c = some w') :
    Secure k initial w' := by
  have hph := (h.conn c).phase
  simp only [PhaseOk] at hph
  cases hp : (w.conns c).phase with
  | hello => simp only [advance, hp] at hs; cases hs
  | awaitingPair => simp only [advance, hp] at hs; cases hs
  | looping => simp only [advance, hp] at hs; cases hs
  | ended => simp only [advance, hp] at hs; cases hs
  | greeting =>
      simp only [hp] at hph
      simp only [advance, hp] at hs
      rw [← Option.some.inj hs]
      exact secure_outside h rfl rfl rfl (by rw [hp]; rfl) rfl hph
        (fun _ h => nomatch h) (by simp [privileged])
  | checking req =>
      simp only [hp] at hph
      simp only [advance, hp] at hs
      rw [← Option.some.inj hs]
      split
      · exact secure_outside h rfl rfl rfl (by rw [hp]; rfl) rfl trivial
          (fun _ h => nomatch h) (by simp [privileged])
      · exact secure_outside h rfl rfl rfl (by rw [hp]; rfl) rfl hph
          (fun _ h => nomatch h) (by simp)
  | readingConfig req =>
      simp only [hp] at hph
      simp only [advance, hp] at hs
      rw [← Option.some.inj hs]
      by_cases hin : req.fingerprint ∈ w.pairedDevices
      · simp only [hin, if_true]
        refine secure_outside h rfl rfl rfl (by rw [hp]; rfl) rfl hph ?_
          (by simp)
        intro req' heq
        rw [← Phase.accepting.inj heq]
        exact hin
      · simp only [hin, if_false]
        exact secure_outside h rfl rfl rfl (by rw [hp]; rfl) rfl hph
          (fun _ h => nomatch h) (by simp)
  | comparing req =>
      simp only [hp] at hph
      simp only [advance, hp] at hs
      split at hs
      · rename_i hproof
        rw [← Option.some.inj hs]
        refine secure_outside h rfl rfl rfl (by rw [hp]; rfl) rfl ?_
          (fun _ h => nomatch h) (by simp)
        exact ⟨hph, ((proofMatches_iff _ _).mp hproof).symm⟩
      · rw [← Option.some.inj hs]
        exact secure_outside h rfl rfl rfl (by rw [hp]; rfl) rfl trivial
          (fun _ h => nomatch h) (by simp [privileged])
  | adding req =>
      simp only [advance, hp] at hs
      rw [← Option.some.inj hs]
      exact secure_pair h hp rfl rfl rfl
  | accepting req =>
      simp only [hp] at hph
      simp only [advance, hp] at hs
      rw [← Option.some.inj hs]
      have hin := (h.conn c).accepting req hp
      refine h.goto rfl rfl rfl ?_ ⟨[], (List.append_nil _).symm⟩
      refine (h.conn c).outside (by rw [hp]; rfl) rfl ?_ (fun _ h => nomatch h)
        rfl ?_ rfl (by simp [privileged])
      · exact ⟨hph, decide_eq_true hin⟩
      · exact fun _ => ⟨req, hph, decide_eq_true hin⟩
  | registering req =>
      simp only [advance, hp] at hs
      rw [← Option.some.inj hs]
      refine secure_register h hp ?_ rfl rfl rfl
      split <;> rfl
  | firstClient =>
      simp only [advance, hp] at hs
      split at hs <;> rw [← Option.some.inj hs] <;>
        exact secure_inside h rfl rfl rfl (by rw [hp]; rfl) (Or.inl rfl)
          (by rw [hp]; rfl)
  | storing desired =>
      simp only [advance, hp] at hs
      rw [← Option.some.inj hs]
      exact secure_inside h rfl rfl rfl (by rw [hp]; rfl) (Or.inl rfl)
        (by rw [hp]; rfl)
  | broadcasting es =>
      cases es with
      | nil =>
          simp only [advance, hp] at hs
          rw [← Option.some.inj hs]
          exact secure_inside h rfl rfl rfl (by rw [hp]; rfl) (Or.inl rfl)
            (by rw [hp]; rfl)
      | cons e es =>
          simp only [advance, hp] at hs
          rw [← Option.some.inj hs]
          refine secure_broadcast ?_ e
          exact secure_inside h rfl rfl rfl (by rw [hp]; rfl) (Or.inl rfl)
            (by rw [hp]; rfl)
  | clipboard text =>
      simp only [advance, hp] at hs
      rw [← Option.some.inj hs]
      exact secure_inside h rfl rfl rfl (by rw [hp]; rfl) (Or.inl rfl)
        (by rw [hp]; rfl)
  | leaving =>
      simp only [advance, hp] at hs
      rw [← Option.some.inj hs]
      refine secure_leave h hp ?_ ?_ rfl rfl rfl
      · split <;> rfl
      · split <;> rfl
  | lastClient =>
      simp only [advance, hp] at hs
      rw [← Option.some.inj hs]
      exact secure_inside h rfl rfl rfl (by rw [hp]; rfl) (Or.inl rfl)
        (by rw [hp]; rfl)
  | farewell =>
      simp only [advance, hp] at hs
      rw [← Option.some.inj hs]
      exact secure_inside h rfl rfl rfl (by rw [hp]; rfl) (Or.inr rfl)
        (by rw [hp]; rfl)

/-- **ONE STEP**: every step of every connection, and of the environment,
    keeps the server secure. -/
theorem secure_step [DecidableEq Ip] {ip : C → Ip} (w : World C Ip)
    (a : Action C) (w' : World C Ip) (h : Secure k initial w)
    (hs : step k ip w a = some w') : Secure k initial w' := by
  have hloop : ∀ c, a.inLoop c → Secure k initial w' := by
    intro c hin
    obtain ⟨hp, ph, es, hph, rfl⟩ := step_inLoop hin hs
    rcases hph with rfl | rfl
    · exact secure_inside h rfl rfl rfl (by rw [hp]; rfl) (Or.inl rfl)
        (by rw [hp]; rfl)
    · exact secure_inside h rfl rfl rfl (by rw [hp]; rfl) (Or.inl rfl)
        (by rw [hp])
  cases a with
  | receive c e =>
      obtain ⟨x, hx, rfl⟩ := Option.map_eq_some_iff.mp hs
      exact secure_receive h hx
  | advance c => exact secure_advance h hs
  | fail c =>
      obtain ⟨hf, rfl⟩ := step_fail hs
      refine secure_outside h rfl rfl rfl ?_ rfl trivial
        (fun _ h => nomatch h) (by simp)
      cases hp : (w.conns c).phase <;>
        simp [hp, Phase.mayFail, Phase.afterRegistering,
          Phase.inRegistry] at hf ⊢
  | closed c => exact hloop c rfl
  | pingTick c ts => exact hloop c rfl
  | watchdog c => exact hloop c rfl
  | broadcast e =>
      rw [← Option.some.inj hs]
      exact secure_broadcast h e
  | hotkey on =>
      rw [← Option.some.inj hs]
      exact ⟨h.conn, h.paired⟩
  | takeClipboard =>
      simp only [step] at hs
      split at hs
      · rw [← Option.some.inj hs]
        exact ⟨h.conn, h.paired⟩
      · cases hs
  | tick d =>
      rw [← Option.some.inj hs]
      exact ⟨h.conn, h.paired⟩

/-- A connection that has never been registered changes neither the flag nor
    the clipboard queue. -/
theorem unregistered_powerless [DecidableEq Ip] {ip : C → Ip}
    (h : Secure k initial w) (hno : (w.conns c).registered = false)
    {a : Action C} {w' : World C Ip} (ha : a.actor = some c)
    (hs : step k ip w a = some w') :
    w'.forwardingEnabled = w.forwardingEnabled ∧
      w'.clipboardQueue = w.clipboardQueue := by
  have hout : (w.conns c).phase.afterRegistering = false := by
    by_contra hin
    rw [(h.conn c).registered (Bool.not_eq_false _ ▸ hin)] at hno
    cases hno
  by_cases hadv : a = .advance c
  · have hs' : advance k ip w c = some w' := by
      rw [hadv] at hs
      exact hs
    cases hp : (w.conns c).phase <;>
      simp only [hp, Phase.afterRegistering, Phase.inRegistry,
        reduceCtorEq] at hout <;>
      simp only [advance, hp, reduceCtorEq] at hs'
    case comparing req =>
        split at hs' <;> rw [← Option.some.inj hs'] <;> exact ⟨rfl, rfl⟩
    all_goals
      rw [← Option.some.inj hs']
      exact ⟨rfl, rfl⟩
  · obtain ⟨x, rfl⟩ := step_actor ha hadv hs
    exact ⟨rfl, rfl⟩

end Steps

/-! ## The guarantees -/

section Guarantees

variable [DecidableEq C] [DecidableEq Ip]

/-- Every paired device was paired from the start or has shown a proof made
    with the PIN, after a `Hello` of the right version. -/
def PairedByProof (k : Settings) (initial : List String) (w : World C Ip) :
    Prop :=
  ∀ fp ∈ w.pairedDevices,
    fp ∈ initial ∨ ∃ c, Proved k (w.conns c).received fp

/-- Whoever is in the registry got there after a `Hello` of the right version
    and a request whose fingerprint was paired when it was accepted; a handler
    that has returned is not in it; and when the message loop has ended, in
    whatever way, the next step of the handler takes it out. -/
def RegistryGuarded (k : Settings) (ip : C → Ip) (w : World C Ip) : Prop :=
  (∀ c ∈ w.registry, (w.conns c).registered = true ∧
      ∃ req, Requested (w.conns c).received req ∧
        (w.conns c).acceptedPaired = true) ∧
    (∀ c, (w.conns c).phase = .ended → c ∉ w.registry) ∧
    (∀ c, (w.conns c).phase = .leaving →
      ∃ w', step k ip w (.advance c) = some w' ∧ c ∉ w'.registry) ∧
    ∀ c a w', c ∈ w.registry → step k ip w a = some w' →
      c ∈ w'.registry ∨ (a = .advance c ∧ (w.conns c).phase = .leaving)

/-- A connection that has never been registered is sent nothing privileged,
    and no step of it changes the flag or the clipboard queue. -/
def UnregisteredPowerless (k : Settings) (ip : C → Ip) (w : World C Ip) :
    Prop :=
  ∀ c, (w.conns c).registered = false →
    (∀ e ∈ (w.conns c).sent, privileged e = false) ∧
      ∀ a w', a.actor = some c → step k ip w a = some w' →
        w'.forwardingEnabled = w.forwardingEnabled ∧
          w'.clipboardQueue = w.clipboardQueue

variable {k : Settings} {ip : C → Ip} {initial : List String}
  {w : World C Ip}

/-- The registry shrinks only by the leaving step of the one that leaves. -/
theorem registry_step {a : Action C} {w' : World C Ip} {c : C}
    (hc : c ∈ w.registry) (hs : step k ip w a = some w') :
    c ∈ w'.registry ∨ (a = .advance c ∧ (w.conns c).phase = .leaving) := by
  have hother : ∀ c', a.actor = some c' → a ≠ .advance c' →
      c ∈ w'.registry ∨ (a = .advance c ∧ (w.conns c).phase = .leaving) := by
    intro c' ha hadv
    obtain ⟨x, rfl⟩ := step_actor ha hadv hs
    exact Or.inl hc
  cases a with
  | advance c' =>
      have hs' : advance k ip w c' = some w' := hs
      cases hp : (w.conns c').phase <;>
        simp only [advance, hp, reduceCtorEq] at hs'
      case leaving =>
          rw [← Option.some.inj hs']
          by_cases heq : c = c'
          · exact Or.inr ⟨by rw [heq], by rw [heq]; exact hp⟩
          · exact Or.inl (Finset.mem_erase.mpr ⟨heq, hc⟩)
      case registering req =>
          rw [← Option.some.inj hs']
          exact Or.inl (Finset.mem_insert_of_mem hc)
      case broadcasting es =>
          cases es <;> simp only at hs' <;> rw [← Option.some.inj hs'] <;>
            exact Or.inl hc
      case comparing req =>
          split at hs' <;> rw [← Option.some.inj hs'] <;> exact Or.inl hc
      case firstClient =>
          split at hs' <;> rw [← Option.some.inj hs'] <;> exact Or.inl hc
      all_goals
        rw [← Option.some.inj hs']
        exact Or.inl hc
  | receive c' e => exact hother c' rfl nofun
  | fail c' => exact hother c' rfl nofun
  | closed c' => exact hother c' rfl nofun
  | pingTick c' ts => exact hother c' rfl nofun
  | watchdog c' => exact hother c' rfl nofun
  | broadcast e => rw [← Option.some.inj hs]; exact Or.inl hc
  | hotkey on => rw [← Option.some.inj hs]; exact Or.inl hc
  | tick d => rw [← Option.some.inj hs]; exact Or.inl hc
  | takeClipboard =>
      simp only [step] at hs
      split at hs
      · rw [← Option.some.inj hs]; exact Or.inl hc
      · cases hs

theorem Secure.registryGuarded (h : Secure k initial w) :
    RegistryGuarded k ip w := by
  refine ⟨?_, ?_, ?_, fun c a w' => registry_step⟩
  · intro c hc
    have hok := h.conn c
    have hin := hok.listed_iff.mp hc
    have hreg : (w.conns c).registered = true := by
      refine hok.registered ?_
      cases hp : (w.conns c).phase <;>
        simp [hp, Phase.afterRegistering, Phase.inRegistry] at hin ⊢
    exact ⟨hreg, hok.history hreg⟩
  · intro c hp hc
    have hin := (h.conn c).listed_iff.mp hc
    rw [hp] at hin
    cases hin
  · intro c hp
    refine ⟨_, by simp only [step, advance, hp]; rfl, ?_⟩
    exact Finset.notMem_erase c _

theorem Secure.unregisteredPowerless (h : Secure k initial w) :
    UnregisteredPowerless k ip w :=
  fun c hno => ⟨(h.conn c).quiet hno,
    fun _ _ ha hs => unregistered_powerless h hno ha hs⟩

/-- **THE CONTROL CHANNEL IS GUARDED**: for any settings, any number of
    connections sending any envelopes and any interleaving, in every reachable
    state the paired devices, the registry and the flag are what the handshake
    allows. -/
theorem control_channel_guarded (k : Settings) (ip : C → Ip)
    (initial : List String) (enabled : Bool) (acts : List (Action C))
    (w : World C Ip)
    (hrun : exec (step k ip) (World.start C Ip initial enabled) acts
      = some w) :
    PairedByProof k initial w ∧ RegistryGuarded k ip w ∧
      UnregisteredPowerless k ip w := by
  have h : Secure k initial w :=
    invariant_reachable secure_step acts _ w
      (secure_start k initial enabled) hrun
  exact ⟨h.paired, h.registryGuarded, h.unregisteredPowerless⟩

end Guarantees

/-- Settings with the PIN 123456. -/
def settings : Settings where
  sha256 := fun _ => digest123456
  pin := "123456"
  filePort := 4001
  serverName := "server"
  autoForward := false
  clipboardSync := true
  hasClipboard := true

/-- Connection 0 pairs and registers; connection 1 says `Goodbye` at once. -/
def pairAndGreet : List (Action (Fin 2)) :=
  [.receive 0 (.hello "laptop" PROTOCOL_VERSION ⟨true, true, false⟩),
    .receive 1 .goodbye, .advance 0,
    .receive 0 (.pairRequest (Vector.replicate 16 0) "AA" digest123456),
    .advance 0, .advance 0, .advance 0, .advance 0, .advance 0, .advance 0]

/-- A run of the theorem: connection 0 is registered, connection 1 is not. -/
theorem control_channel_guarded_pairing :
    ∃ w : World (Fin 2) Unit,
      (PairedByProof settings [] w ∧ RegistryGuarded settings (fun _ => ()) w ∧
        UnregisteredPowerless settings (fun _ => ()) w) ∧
      w.registry = {0} ∧ w.pairedDevices = ["AA"] ∧
      (w.conns 1).sent = [.error "expected Hello"] := by
  have hrun : (exec (step settings (fun _ => ()))
      (World.start (Fin 2) Unit [] false) pairAndGreet).map
        (fun w => (w.registry, w.pairedDevices, (w.conns 1).sent))
      = some ({0}, ["AA"], [.error "expected Hello"]) := by
    decide
  obtain ⟨w, hw, hv⟩ := Option.map_eq_some_iff.mp hrun
  obtain ⟨hreg, hrest⟩ := Prod.mk.inj hv
  obtain ⟨hpaired, hsent⟩ := Prod.mk.inj hrest
  exact ⟨w, control_channel_guarded settings _ [] false pairAndGreet w hw,
    hreg, hpaired, hsent⟩

end KvmControl
