import KvmRs.ConnectProofs
import KvmRs.ControlProofs

/-! # The two halves of the handshake

    `perform_handshake` of the client against `handle_client` of the server,
    over a stream that loses nothing: every envelope that can be framed
    arrives as it was sent.  The server serves what it has received until it
    waits for more, and the client reads its answers in order.

    Both sides go by the same four envelopes.  The answer to the `PairRequest`
    is the only one that depends on the server's state (`request_accepted`,
    `request_rejected`), and the client succeeds exactly if it is
    `PairAccept`. -/

namespace KvmHandshake

open ByteCodec KvmEnvelope KvmAuth KvmRateLimit KvmClientConfig KvmControl
open KvmConnect hiding step

/-! ## The stream -/

/-- `send_envelope` can frame it. -/
def Framed (e : Envelope) : Prop :=
  (envelope.write e).length ≤ MAX_ENVELOPE_SIZE

instance (e : Envelope) : Decidable (Framed e) :=
  inferInstanceAs (Decidable (_ ≤ _))

/-- `send_envelope` on a stream that takes every byte. -/
def sendEnvelope (e : Envelope) : Except (List Char) Unit :=
  match serializeEnvelope e with
  | .ok _ => .ok ()
  | .error _ => .error "Invalid message".toList

section Stream

variable {C Ip : Type} [DecidableEq C] [DecidableEq Ip]

/-- What the handler does next of its own accord.  Of the envelopes it sends
    up to the registration only the `HelloAck` can be too long. -/
def nextAction (k : Settings) (w : World C Ip) (c : C) : Action C :=
  if (w.conns c).phase = .greeting ∧
      ¬ Framed (.helloAck k.filePort k.serverName) then .fail c
  else .advance c

/-- The handler goes on until it waits or has returned. -/
def drive (k : Settings) (ip : C → Ip) (c : C) :
    Nat → World C Ip → World C Ip
  | 0, w => w
  | n + 1, w =>
      match step k ip w (nextAction k w c) with
      | some w' => drive k ip c n w'
      | none => w

/-- More steps than there are phases between two reads. -/
def BUSY : Nat := 8

/-- The handler receives an envelope and serves it. -/
def serve (k : Settings) (ip : C → Ip) (c : C) (w : World C Ip)
    (e : Envelope) : World C Ip :=
  match step k ip w (.receive c e) with
  | some w' => drive k ip c BUSY w'
  | none => w

/-- The `i`-th `read_envelope` of the client: the server has sent it, or has
    closed the stream. -/
def readReply (w : World C Ip) (c : C) (i : Nat) :
    Except (List Char) Envelope :=
  match (w.conns c).sent[i]? with
  | some e => .ok e
  | none => .error "IO error: early eof".toList

/-- The client drops the stream; a handler that still waits fails. -/
def hangUp (k : Settings) (ip : C → Ip) (c : C) (w : World C Ip) :
    World C Ip :=
  (step k ip w (.fail c)).getD w

/-- What the client's calls give against this server. -/
def streamTo (k : Settings) (ip : C → Ip) (c : C) (w : World C Ip)
    (hello request : Envelope) : Stream where
  helloSent := sendEnvelope hello
  helloReply := readReply (serve k ip c w hello) c 0
  requestSent := sendEnvelope request
  pairReply := readReply ([hello, request].foldl (serve k ip c) w) c 1

/-- `perform_handshake` against `handle_client` for connection `c`: the
    client's outcome and the server afterwards. -/
def handshake (lib : Library) (m : Machine) (config : Config)
    (opts : ConnectOptions) (k : Settings) (ip : C → Ip) (w : World C Ip)
    (c : C) : Outcome (UInt16 × String) × World C Ip :=
  let request :=
    pairRequestEnvelope lib m (config.ensureClientSecret m.secret) opts
  let out := performHandshake lib m config opts
    (streamTo k ip c w (helloEnvelope m) request)
  let w' := out.sent.foldl (serve k ip c) w
  match out.result with
  | .ok _ => (out, w')
  | .error _ => (out, hangUp k ip c w')

end Stream

/-! ## What can be framed -/

theorem sendEnvelope_framed {e : Envelope} (h : Framed e) :
    sendEnvelope e = .ok () := by
  simp only [sendEnvelope, serializeEnvelope]
  rw [if_neg (Nat.not_lt.mpr h)]

/-- A `PairRequest` is as long as its fingerprint asks for. -/
theorem pairRequest_length (nonce : Vector UInt8 16) (fp : String)
    (proof : Vector UInt8 32) :
    (envelope.write (.pairRequest nonce fp proof)).length
      = 60 + (utf8 fp).length := by
  show (leBytes 4 2 ++ (nonce.toList ++
    ((leBytes 8 (utf8 fp).length ++ utf8 fp) ++ proof.toList))).length = _
  simp only [List.length_append, leBytes_length, Vector.length_toList]
  omega

theorem helloAck_length (port : UInt16) (name : String) :
    (envelope.write (.helloAck port name)).length
      = 14 + (utf8 name).length := by
  show (leBytes 4 1 ++ (leBytes 2 port.toNat ++
    (leBytes 8 (utf8 name).length ++ utf8 name))).length = _
  simp only [List.length_append, leBytes_length]
  omega

/-- Fingerprints are short. -/
theorem clientFingerprint_length (config : Config)
    (sha256 : List UInt8 → Vector UInt8 32) :
    (utf8 (config.clientFingerprint sha256)).length ≤ 256 := by
  have hhex : ∀ bs : List UInt8,
      ((hexEncode bs).map Char.utf8Size).sum ≤ 8 * bs.length := by
    intro bs
    induction bs with
    | nil => exact Nat.le_refl 0
    | cons b bs ih =>
        have h1 := Char.utf8Size_le_four (Nat.digitChar (b.toNat / 16))
        have h2 := Char.utf8Size_le_four (Nat.digitChar (b.toNat % 16))
        simp only [hexEncode, List.flatMap_cons, List.map_append,
          List.sum_append, hexPair, List.map_cons, List.map_nil, List.sum_cons,
          List.sum_nil, List.length_cons] at ih ⊢
        omega
  rw [Config.clientFingerprint, utf8_ofList_length]
  refine Nat.le_trans (hhex _) ?_
  rw [Vector.length_toList]

/-- The client can always send its `PairRequest`. -/
theorem pairRequest_framed (lib : Library) (m : Machine) (config : Config)
    (opts : ConnectOptions) :
    Framed (pairRequestEnvelope lib m config opts) := by
  have hlen := clientFingerprint_length config lib.sha256
  rw [Framed, pairRequestEnvelope, pairRequest_length]
  exact Nat.le_trans (Nat.add_le_add_left hlen 60) (by decide)

/-! ## The server's half -/

section Server

variable {C Ip : Type} [DecidableEq C] [DecidableEq Ip] {k : Settings}
  {ip : C → Ip} {w : World C Ip} {c : C}

/-- One more step of a handler whose `HelloAck` can be sent. -/
theorem drive_succ (hack : Framed (.helloAck k.filePort k.serverName))
    (n : Nat) :
    drive k ip c (n + 1) w
      = match advance k ip w c with
        | some w' => drive k ip c n w'
        | none => w := by
  have hnext : nextAction k w c = .advance c :=
    if_neg (fun h => h.2 hack)
  simp only [drive, hnext, step]

theorem drive_step (hack : Framed (.helloAck k.filePort k.serverName))
    {n : Nat} {w' : World C Ip} (h : advance k ip w c = some w') :
    drive k ip c (n + 1) w = drive k ip c n w' := by
  rw [drive_succ hack, h]

theorem drive_waits (hack : Framed (.helloAck k.filePort k.serverName))
    (h : advance k ip w c = none) (n : Nat) : drive k ip c n w = w := by
  cases n with
  | zero => rfl
  | succ n => rw [drive_succ hack, h]

/-- The handler reads the `Hello` of a client of this version. -/
theorem receive_hello (hnew : w.conns c = Conn.new) (m : Machine) :
    step k ip w (.receive c (helloEnvelope m))
      = some (w.set c ⟨.greeting, [helloEnvelope m], [], 0, false, false⟩) := by
  simp only [step, hnew]
  rfl

/-- It answers with the `HelloAck`. -/
theorem serve_hello (hack : Framed (.helloAck k.filePort k.serverName))
    (hnew : w.conns c = Conn.new) (m : Machine) :
    serve k ip c w (helloEnvelope m)
      = w.set c ⟨.awaitingPair, [helloEnvelope m],
          [.helloAck k.filePort k.serverName], 0, false, false⟩ := by
  have hgreet : advance k ip
      (w.set c ⟨.greeting, [helloEnvelope m], [], 0, false, false⟩) c
      = some (w.set c ⟨.awaitingPair, [helloEnvelope m],
          [.helloAck k.filePort k.serverName], 0, false, false⟩) := by
    simp only [advance, World.set, Function.update_self, Conn.goto,
      Function.update_idem, List.nil_append]
  have hwait : advance k ip (w.set c ⟨.awaitingPair, [helloEnvelope m],
      [.helloAck k.filePort k.serverName], 0, false, false⟩) c = none := by
    simp only [advance, World.set, Function.update_self]
  rw [serve, receive_hello hnew]
  show drive k ip c (7 + 1) _ = _
  rw [drive_step hack hgreet, drive_waits hack hwait]

/-- The handler takes a step to this phase and sends these envelopes. -/
structure Moves (k : Settings) (ip : C → Ip) (c : C) (ph : Phase)
    (es : List Envelope) (w w' : World C Ip) : Prop where
  advance : advance k ip w c = some w'
  phase : (w'.conns c).phase = ph
  sent : (w'.conns c).sent = (w.conns c).sent ++ es

theorem moves_set {w₁ : World C Ip} {x : Conn} {es : List Envelope}
    (h : advance k ip w c = some (w₁.set c x))
    (hsent : x.sent = (w.conns c).sent ++ es) :
    Moves k ip c x.phase es w (w₁.set c x) := by
  have hx : (w₁.set c x).conns c = x := Function.update_self ..
  exact ⟨h, by rw [hx], by rw [hx, hsent]⟩

theorem Moves.drive {ph : Phase} {es : List Envelope} {w' : World C Ip}
    (h : Moves k ip c ph es w w')
    (hack : Framed (.helloAck k.filePort k.serverName)) (n : Nat) :
    drive k ip c (n + 1) w = KvmHandshake.drive k ip c n w' := by
  rw [drive_succ hack, h.advance]

/-- Paired devices, registry and flag are the same. -/
structure Quiet (w w' : World C Ip) : Prop where
  paired : w'.pairedDevices = w.pairedDevices
  registry : w'.registry = w.registry
  flag : w'.forwardingEnabled = w.forwardingEnabled

omit [DecidableEq C] [DecidableEq Ip] in
theorem Quiet.trans {w₁ w₂ w₃ : World C Ip} (h : Quiet w₁ w₂)
    (h' : Quiet w₂ w₃) : Quiet w₁ w₃ :=
  ⟨h'.paired.trans h.paired, h'.registry.trans h.registry,
    h'.flag.trans h.flag⟩

section Phases

variable {req : PairRequest}

/-- A limited peer is turned away. -/
theorem moves_limited (hp : (w.conns c).phase = .checking req)
    (hl : isRateLimited w.rateLimiter (ip c) w.now = true) :
    ∃ reason w', Moves k ip c .ended [.pairReject reason] w w' ∧
      Quiet w w' := by
  have h : advance k ip w c = some (w.set c ((w.conns c).goto .ended
      [.pairReject "too many failed pairing attempts; try again later"])) := by
    simp only [advance, hp, hl, if_true]
  exact ⟨_, _, moves_set h rfl, rfl, rfl, rfl⟩

theorem moves_unlimited (hp : (w.conns c).phase = .checking req)
    (hl : isRateLimited w.rateLimiter (ip c) w.now = false) :
    ∃ w', Moves k ip c (.readingConfig req) [] w w' ∧ Quiet w w' := by
  have h : advance k ip w c
      = some (w.set c ((w.conns c).goto (.readingConfig req) [])) := by
    simp only [advance, hp, hl, Bool.false_eq_true, if_false]
  exact ⟨_, moves_set h rfl, rfl, rfl, rfl⟩

theorem moves_known (hp : (w.conns c).phase = .readingConfig req)
    (hin : req.fingerprint ∈ w.pairedDevices) :
    ∃ w', Moves k ip c (.accepting req) [] w w' ∧ Quiet w w' := by
  have h : advance k ip w c
      = some (w.set c ((w.conns c).goto (.accepting req) [])) := by
    simp only [advance, hp, hin, if_true]
  exact ⟨_, moves_set h rfl, rfl, rfl, rfl⟩

theorem moves_unknown (hp : (w.conns c).phase = .readingConfig req)
    (hin : req.fingerprint ∉ w.pairedDevices) :
    ∃ w', Moves k ip c (.comparing req) [] w w' ∧ Quiet w w' := by
  have h : advance k ip w c
      = some (w.set c ((w.conns c).goto (.comparing req) [])) := by
    simp only [advance, hp, hin, if_false]
  exact ⟨_, moves_set h rfl, rfl, rfl, rfl⟩

theorem moves_proved (hp : (w.conns c).phase = .comparing req)
    (hok : proofOk k.sha256 k.pin req = true) :
    ∃ w', Moves k ip c (.adding req) [] w w' ∧ Quiet w w' := by
  have h : advance k ip w c
      = some (w.set c ((w.conns c).goto (.adding req) [])) := by
    simp only [advance, hp, hok, if_true]
  exact ⟨_, moves_set h rfl, rfl, rfl, rfl⟩

/-- A wrong proof is recorded and turned away. -/
theorem moves_unproved (hp : (w.conns c).phase = .comparing req)
    (hok : proofOk k.sha256 k.pin req = false) :
    ∃ reason w', Moves k ip c .ended [.pairReject reason] w w' ∧
      Quiet w w' := by
  have h : advance k ip w c = some ({ w with
      rateLimiter := recordPairingFailure w.rateLimiter (ip c) w.now }.set c
        ((w.conns c).goto .ended
          [.pairReject "pairing PIN required or incorrect"])) := by
    simp only [advance, hp, hok, Bool.false_eq_true, if_false]
  exact ⟨_, _, moves_set h rfl, rfl, rfl, rfl⟩

theorem moves_adding (hp : (w.conns c).phase = .adding req) :
    ∃ w', Moves k ip c (.accepting req) [] w w' ∧
      w'.pairedDevices = req.fingerprint :: w.pairedDevices := by
  have h : advance k ip w c = some ({ w with
      pairedDevices := req.fingerprint :: w.pairedDevices }.set c
        ((w.conns c).goto (.accepting req) [])) := by
    simp only [advance, hp]
  exact ⟨_, moves_set h rfl, rfl⟩

theorem moves_accepting (hp : (w.conns c).phase = .accepting req) :
    ∃ w', Moves k ip c (.registering req) [.pairAccept] w w' ∧
      w'.pairedDevices = w.pairedDevices := by
  have h : advance k ip w c = some (w.set c
      { (w.conns c).goto (.registering req) [.pairAccept] with
        acceptedPaired := decide (req.fingerprint ∈ w.pairedDevices) }) := by
    simp only [advance, hp]
  exact ⟨_, moves_set h rfl, rfl⟩

theorem moves_registering (hp : (w.conns c).phase = .registering req) :
    ∃ ph w', (ph = .firstClient ∨ ph = .looping) ∧
      Moves k ip c ph [] w w' ∧ w'.pairedDevices = w.pairedDevices ∧
      c ∈ w'.registry := by
  have h : advance k ip w c = some ({ w with
      registry := insert c w.registry }.set c
        { (w.conns c).goto (if (insert c w.registry).card = 1 then .firstClient
            else .looping) [] with
          registered := true
          lastSeen := w.now }) := by
    simp only [advance, hp]
  refine ⟨_, _, ?_, moves_set h rfl, rfl, Finset.mem_insert_self c _⟩
  show (if _ then _ else _) = _ ∨ (if _ then _ else _) = _
  split
  · exact Or.inl rfl
  · exact Or.inr rfl

theorem moves_firstClient (hp : (w.conns c).phase = .firstClient) :
    ∃ es w', Moves k ip c .looping es w w' ∧
      w'.pairedDevices = w.pairedDevices ∧ w'.registry = w.registry := by
  by_cases hauto : k.autoForward = true
  · have h : advance k ip w c = some ({ w with forwardingEnabled := true }.set c
        ((w.conns c).goto .looping
          (if w.forwardingEnabled then [] else [.toggleForward true]))) := by
      simp only [advance, hp, hauto, if_true]
    exact ⟨_, _, moves_set h rfl, rfl, rfl⟩
  · have h : advance k ip w c
        = some (w.set c ((w.conns c).goto .looping [])) := by
      simp only [advance, hp, hauto, Bool.false_eq_true, if_false]
    exact ⟨_, _, moves_set h rfl, rfl, rfl⟩

theorem drive_looping (hack : Framed (.helloAck k.filePort k.serverName))
    (hp : (w.conns c).phase = .looping) (n : Nat) :
    drive k ip c n w = w :=
  drive_waits hack (by simp only [advance, hp]) n

theorem drive_ended (hack : Framed (.helloAck k.filePort k.serverName))
    (hp : (w.conns c).phase = .ended) (n : Nat) :
    drive k ip c n w = w :=
  drive_waits hack (by simp only [advance, hp]) n

/-- What the server has done once it has accepted the request. -/
structure Accepted (c : C) (fp : String) (sent : List Envelope)
    (w : World C Ip) : Prop where
  paired : fp ∈ w.pairedDevices
  registered : c ∈ w.registry
  reply : ∃ rest, (w.conns c).sent = sent ++ .pairAccept :: rest

/-- Accepting ends in the registry. -/
theorem drive_accepting (hack : Framed (.helloAck k.filePort k.serverName))
    (hp : (w.conns c).phase = .accepting req)
    (hin : req.fingerprint ∈ w.pairedDevices) (n : Nat) :
    Accepted c req.fingerprint (w.conns c).sent
      (drive k ip c (n + 3) w) := by
  obtain ⟨w₁, hm₁, hpaired₁⟩ := @moves_accepting C Ip _ _ k ip w c req hp
  obtain ⟨ph, w₂, hph, hm₂, hpaired₂, hreg₂⟩ :=
    @moves_registering C Ip _ _ k ip w₁ c req hm₁.phase
  rw [hm₁.drive hack (n + 2), hm₂.drive hack (n + 1)]
  rcases hph with rfl | rfl
  · -- the first client: perhaps a `ToggleForward` behind the answer
    obtain ⟨es, w₃, hm₃, hpaired₃, hreg₃⟩ :=
      @moves_firstClient C Ip _ _ k ip w₂ c hm₂.phase
    rw [hm₃.drive hack n, drive_looping hack hm₃.phase]
    refine ⟨?_, hreg₃ ▸ hreg₂, es, ?_⟩
    · rw [hpaired₃, hpaired₂, hpaired₁]
      exact hin
    · rw [hm₃.sent, hm₂.sent, hm₁.sent]
      simp
  · rw [drive_looping hack hm₂.phase]
    refine ⟨?_, hreg₂, [], ?_⟩
    · rw [hpaired₂, hpaired₁]
      exact hin
    · rw [hm₂.sent, hm₁.sent]
      simp

/-- What the server has done once it has rejected the request. -/
structure Rejected (c : C) (before w : World C Ip) : Prop where
  quiet : Quiet before w
  ended : (w.conns c).phase = .ended
  reply : ∃ reason, (w.conns c).sent
    = (before.conns c).sent ++ [.pairReject reason]

/-- The envelope of a request. -/
def requestOf (req : PairRequest) : Envelope :=
  .pairRequest req.nonce req.fingerprint req.proof

/-- The handler reads the request. -/
theorem serve_request (hp : (w.conns c).phase = .awaitingPair) :
    ∃ w', serve k ip c w (requestOf req) = drive k ip c BUSY w' ∧
      (w'.conns c).phase = .checking req ∧
      (w'.conns c).sent = (w.conns c).sent ∧ Quiet w w' ∧
      w'.rateLimiter = w.rateLimiter ∧ w'.now = w.now := by
  have h : step k ip w (.receive c (requestOf req)) = some (w.set c
      { (w.conns c).goto (.checking req) [] with
        received := (w.conns c).received ++ [requestOf req] }) := by
    simp only [step, onEnvelope, hp, requestOf]
    rfl
  have hserve : serve k ip c w (requestOf req) = drive k ip c BUSY (w.set c
      { (w.conns c).goto (.checking req) [] with
        received := (w.conns c).received ++ [requestOf req] }) := by
    rw [serve, h]
  refine ⟨_, hserve, ?_, ?_, ⟨rfl, rfl, rfl⟩, rfl, rfl⟩
  · simp only [World.set, Function.update_self, Conn.goto]
  · simp only [World.set, Function.update_self, Conn.goto, List.append_nil]

/-- **THE SERVER ACCEPTS** a peer that is not limited and has a paired
    fingerprint or the right proof. -/
theorem request_accepted (hack : Framed (.helloAck k.filePort k.serverName))
    (hp : (w.conns c).phase = .awaitingPair)
    (hl : isRateLimited w.rateLimiter (ip c) w.now = false)
    (hreq : req.fingerprint ∈ w.pairedDevices ∨
      proofOk k.sha256 k.pin req = true) :
    Accepted c req.fingerprint (w.conns c).sent
      (serve k ip c w (requestOf req)) := by
  obtain ⟨w₀, hserve, hp₀, hsent₀, hq₀, hlim₀, hnow₀⟩ :=
    @serve_request C Ip _ _ k ip w c req hp
  rw [← hlim₀, ← hnow₀] at hl
  obtain ⟨w₁, hm₁, hq₁⟩ := @moves_unlimited C Ip _ _ k ip w₀ c req hp₀ hl
  have hpaired₁ : w₁.pairedDevices = w.pairedDevices :=
    hq₁.paired.trans hq₀.paired
  have hsent₁ : (w₁.conns c).sent = (w.conns c).sent := by
    rw [hm₁.sent, hsent₀, List.append_nil]
  rw [hserve, show BUSY = 7 + 1 from rfl, hm₁.drive hack]
  by_cases hin : req.fingerprint ∈ w₁.pairedDevices
  · -- a paired device: the proof is not looked at
    obtain ⟨w₂, hm₂, hq₂⟩ := @moves_known C Ip _ _ k ip w₁ c req hm₁.phase hin
    have hacc := @drive_accepting C Ip _ _ k ip w₂ c req hack hm₂.phase
      (hq₂.paired ▸ hin) 3
    rw [hm₂.drive hack 6, ← hsent₁,
      show (w₁.conns c).sent = (w₂.conns c).sent by
        rw [hm₂.sent, List.append_nil]]
    exact hacc
  · -- a new device: it is added before the answer goes out
    have hok := hreq.resolve_left (hpaired₁ ▸ hin)
    obtain ⟨w₂, hm₂, hq₂⟩ :=
      @moves_unknown C Ip _ _ k ip w₁ c req hm₁.phase hin
    obtain ⟨w₃, hm₃, hq₃⟩ := @moves_proved C Ip _ _ k ip w₂ c req hm₂.phase hok
    obtain ⟨w₄, hm₄, hpaired₄⟩ :=
      @moves_adding C Ip _ _ k ip w₃ c req hm₃.phase
    have hacc := @drive_accepting C Ip _ _ k ip w₄ c req hack hm₄.phase
      (hpaired₄ ▸ List.mem_cons_self) 1
    rw [hm₂.drive hack 6, hm₃.drive hack 5, hm₄.drive hack 4, ← hsent₁,
      show (w₁.conns c).sent = (w₄.conns c).sent by
        rw [hm₄.sent, hm₃.sent, hm₂.sent]
        simp only [List.append_nil]]
    exact hacc

/-- **THE SERVER REJECTS** every other peer and remembers at most its
    failure. -/
theorem request_rejected (hack : Framed (.helloAck k.filePort k.serverName))
    (hp : (w.conns c).phase = .awaitingPair)
    (hreq : isRateLimited w.rateLimiter (ip c) w.now = true ∨
      (req.fingerprint ∉ w.pairedDevices ∧
        proofOk k.sha256 k.pin req = false)) :
    Rejected c w (serve k ip c w (requestOf req)) := by
  obtain ⟨w₀, hserve, hp₀, hsent₀, hq₀, hlim₀, hnow₀⟩ :=
    @serve_request C Ip _ _ k ip w c req hp
  rw [hserve, show BUSY = 7 + 1 from rfl]
  cases hl : isRateLimited w.rateLimiter (ip c) w.now with
  | true =>
      rw [← hlim₀, ← hnow₀] at hl
      obtain ⟨reason, w₁, hm₁, hq₁⟩ :=
        @moves_limited C Ip _ _ k ip w₀ c req hp₀ hl
      rw [hm₁.drive hack, drive_ended hack hm₁.phase]
      exact ⟨hq₀.trans hq₁, hm₁.phase, reason, by rw [hm₁.sent, hsent₀]⟩
  | false =>
      obtain ⟨hin, hok⟩ := hreq.resolve_left (by rw [hl]; exact nofun)
      rw [← hlim₀, ← hnow₀] at hl
      obtain ⟨w₁, hm₁, hq₁⟩ := @moves_unlimited C Ip _ _ k ip w₀ c req hp₀ hl
      have hq₀₁ := hq₀.trans hq₁
      obtain ⟨w₂, hm₂, hq₂⟩ := @moves_unknown C Ip _ _ k ip w₁ c req hm₁.phase
        (hq₀₁.paired ▸ hin)
      obtain ⟨reason, w₃, hm₃, hq₃⟩ :=
        @moves_unproved C Ip _ _ k ip w₂ c req hm₂.phase hok
      rw [hm₁.drive hack 7, hm₂.drive hack 6, hm₃.drive hack 5,
        drive_ended hack hm₃.phase]
      refine ⟨(hq₀₁.trans hq₂).trans hq₃, hm₃.phase, reason, ?_⟩
      rw [hm₃.sent, hm₂.sent, hm₁.sent, hsent₀]
      simp only [List.append_nil]

end Phases

end Server

/-! ## The two halves together -/

/-- The PIN the client goes by. -/
def clientPin (m : Machine) (opts : ConnectOptions) : String :=
  (opts.pin.or m.pairingPin).getD ""

/-- The fingerprint the client shows, of a stored or a fresh secret. -/
def shownFingerprint (lib : Library) (m : Machine) (config : Config) :
    String :=
  (config.ensureClientSecret m.secret).clientFingerprint lib.sha256

/-- What `pairing_proof` hashes. -/
def proofInput (pin : String) (nonce : Vector UInt8 16) (fp : String) :
    List UInt8 :=
  utf8 pin ++ [0] ++ nonce.toList ++ [0] ++ utf8 fp

/-- For one nonce and fingerprint, the PIN can be read off. -/
theorem proofInput_injective {pin pin' : String} {nonce : Vector UInt8 16}
    {fp : String} (h : proofInput pin nonce fp = proofInput pin' nonce fp) :
    pin = pin' := by
  simp only [proofInput, List.append_assoc] at h
  exact utf8_injective (List.append_cancel_right h)

section Agreement

variable {C Ip : Type} [DecidableEq C] [DecidableEq Ip]

/-- The server lets this client in: its address is not limited, and its
    fingerprint is paired or its PIN is the server's. -/
def Admits (lib : Library) (m : Machine) (config : Config)
    (opts : ConnectOptions) (k : Settings) (ip : C → Ip) (w : World C Ip)
    (c : C) : Prop :=
  isRateLimited w.rateLimiter (ip c) w.now = false ∧
    (shownFingerprint lib m config ∈ w.pairedDevices ∨
      clientPin m opts = k.pin)

/-- Client and server agree on how the handshake went. -/
structure Agreement (lib : Library) (m : Machine) (config : Config)
    (opts : ConnectOptions) (k : Settings) (ip : C → Ip) (w : World C Ip)
    (c : C) : Prop where
  ok_iff_registered :
    (∃ v, (handshake lib m config opts k ip w c).1.result = .ok v)
      ↔ c ∈ (handshake lib m config opts k ip w c).2.registry
  registered_iff : c ∈ (handshake lib m config opts k ip w c).2.registry
    ↔ Admits lib m config opts k ip w c
  admitted : Admits lib m config opts k ip w c →
    (handshake lib m config opts k ip w c).1.result
        = .ok (k.filePort, k.serverName) ∧
      shownFingerprint lib m config
        ∈ (handshake lib m config opts k ip w c).2.pairedDevices
  refused : ¬ Admits lib m config opts k ip w c →
    (∃ msg, (handshake lib m config opts k ip w c).1.result
        = .error (.fatal msg)) ∧
      Quiet w (handshake lib m config opts k ip w c).2

variable {lib : Library} {m : Machine} {config : Config}
  {opts : ConnectOptions} {k : Settings} {ip : C → Ip} {w : World C Ip} {c : C}

/-- The request of this client. -/
def requestFor (lib : Library) (m : Machine) (config : Config)
    (opts : ConnectOptions) : PairRequest where
  nonce := m.nonce
  fingerprint := shownFingerprint lib m config
  proof := pairingProof lib.sha256 (clientPin m opts) m.nonce
    (shownFingerprint lib m config)

/-- Unless SHA-256 collides on the two inputs, the server finds the proof
    right exactly if the PINs are equal. -/
theorem requestFor_proofOk (hlib : lib.sha256 = k.sha256)
    (hsha : k.sha256 (proofInput (clientPin m opts) m.nonce
        (shownFingerprint lib m config))
      = k.sha256 (proofInput k.pin m.nonce (shownFingerprint lib m config)) →
        proofInput (clientPin m opts) m.nonce (shownFingerprint lib m config)
          = proofInput k.pin m.nonce (shownFingerprint lib m config)) :
    proofOk k.sha256 k.pin (requestFor lib m config opts) = true
      ↔ clientPin m opts = k.pin := by
  rw [proofOk, proofMatches_iff, requestFor, hlib]
  constructor
  · intro h
    exact proofInput_injective (hsha h.symm)
  · intro h
    rw [h]

/-- The client's side, once the stream has carried it to the last reply. -/
theorem performHandshake_replied {x : Stream} {port : UInt16} {name : String}
    {reply : Envelope} (h1 : x.helloSent = .ok ())
    (h2 : x.helloReply = .ok (.helloAck port name))
    (h3 : x.requestSent = .ok ()) (h4 : x.pairReply = .ok reply) :
    (performHandshake lib m config opts x).sent
        = [helloEnvelope m, requestOf (requestFor lib m config opts)] ∧
      (performHandshake lib m config opts x).result
        = (onPairReply lib reply).map fun _ => (port, name) := by
  simp only [performHandshake, h1, h2, h3, h4, onHelloReply]
  exact ⟨rfl, trivial⟩

/-- The server after the `Hello`. -/
def greeted (k : Settings) (m : Machine) (w : World C Ip) (c : C) :
    World C Ip :=
  w.set c ⟨.awaitingPair, [helloEnvelope m],
    [.helloAck k.filePort k.serverName], 0, false, false⟩

/-- **THE CLIENT'S SIDE**: its result is its reaction to the second envelope
    the server sends, and the server has served both of its own. -/
theorem handshake_replied (hhello : Framed (helloEnvelope m))
    (hack : Framed (.helloAck k.filePort k.serverName))
    (hnew : w.conns c = Conn.new) {reply : Envelope} {rest : List Envelope}
    {w' : World C Ip}
    (hw' : serve k ip c (greeted k m w c)
      (requestOf (requestFor lib m config opts)) = w')
    (hsent : (w'.conns c).sent
      = .helloAck k.filePort k.serverName :: reply :: rest) :
    (handshake lib m config opts k ip w c).1.result
        = (onPairReply lib reply).map (fun _ => (k.filePort, k.serverName)) ∧
      (handshake lib m config opts k ip w c).2
        = match onPairReply lib reply with
          | .ok _ => w'
          | .error _ => hangUp k ip c w' := by
  have hserved : serve k ip c w (helloEnvelope m) = greeted k m w c :=
    serve_hello hack hnew m
  -- the client sends both, so this is the server it leaves behind
  have hboth : [helloEnvelope m, requestOf (requestFor lib m config opts)].foldl
      (serve k ip c) w = w' := by
    rw [List.foldl_cons, List.foldl_cons, List.foldl_nil, hserved, hw']
  have hstream : ∀ request, request = requestOf (requestFor lib m config opts) →
      (performHandshake lib m config opts
          (streamTo k ip c w (helloEnvelope m) request)).sent
        = [helloEnvelope m, requestOf (requestFor lib m config opts)] ∧
      (performHandshake lib m config opts
          (streamTo k ip c w (helloEnvelope m) request)).result
        = (onPairReply lib reply).map
            (fun _ => (k.filePort, k.serverName)) := by
    rintro _ rfl
    refine performHandshake_replied (sendEnvelope_framed hhello) ?_
      (sendEnvelope_framed ?_) ?_
    · show readReply (serve k ip c w (helloEnvelope m)) c 0 = _
      rw [hserved, readReply, greeted, World.set]
      simp only [Function.update_self, List.getElem?_cons_zero]
    · exact pairRequest_framed lib m (config.ensureClientSecret m.secret) opts
    · show readReply ([_, _].foldl (serve k ip c) w) c 1 = _
      rw [hboth, readReply, hsent]
      rfl
  obtain ⟨hs, hr⟩ := hstream
    (pairRequestEnvelope lib m (config.ensureClientSecret m.secret) opts) rfl
  simp only [handshake, hr, hs, hboth]
  cases hreply : onPairReply lib reply with
  | ok u =>
      rw [hreply] at hr
      exact ⟨hr, rfl⟩
  | error e =>
      rw [hreply] at hr
      exact ⟨hr, rfl⟩

/-- A handler that has returned does not notice. -/
theorem hangUp_ended (hp : (w.conns c).phase = .ended) :
    hangUp k ip c w = w := by
  simp only [hangUp, step, hp, Phase.mayFail, Bool.false_eq_true, if_false,
    Option.getD_none]

theorem handshake_admitted (hhello : Framed (helloEnvelope m))
    (hack : Framed (.helloAck k.filePort k.serverName))
    (hnew : w.conns c = Conn.new)
    (hl : isRateLimited w.rateLimiter (ip c) w.now = false)
    (hreq : shownFingerprint lib m config ∈ w.pairedDevices ∨
      proofOk k.sha256 k.pin (requestFor lib m config opts) = true) :
    (handshake lib m config opts k ip w c).1.result
        = .ok (k.filePort, k.serverName) ∧
      c ∈ (handshake lib m config opts k ip w c).2.registry ∧
      shownFingerprint lib m config
        ∈ (handshake lib m config opts k ip w c).2.pairedDevices := by
  have hconn : (greeted k m w c).conns c = ⟨.awaitingPair, [helloEnvelope m],
      [.helloAck k.filePort k.serverName], 0, false, false⟩ :=
    Function.update_self ..
  have hacc := @request_accepted C Ip _ _ k ip (greeted k m w c) c
    (requestFor lib m config opts) hack (by rw [hconn]) hl hreq
  rw [hconn] at hacc
  obtain ⟨rest, hsent⟩ := hacc.reply
  obtain ⟨hres, hw⟩ := @handshake_replied C Ip _ _ lib m config opts k ip w c
    hhello hack hnew .pairAccept rest _ rfl hsent
  rw [hw]
  exact ⟨hres, hacc.registered, hacc.paired⟩

theorem handshake_refused (hhello : Framed (helloEnvelope m))
    (hack : Framed (.helloAck k.filePort k.serverName))
    (hnew : w.conns c = Conn.new)
    (hreq : isRateLimited w.rateLimiter (ip c) w.now = true ∨
      (shownFingerprint lib m config ∉ w.pairedDevices ∧
        proofOk k.sha256 k.pin (requestFor lib m config opts) = false)) :
    (∃ msg, (handshake lib m config opts k ip w c).1.result
        = .error (.fatal msg)) ∧
      Quiet w (handshake lib m config opts k ip w c).2 := by
  have hconn : (greeted k m w c).conns c = ⟨.awaitingPair, [helloEnvelope m],
      [.helloAck k.filePort k.serverName], 0, false, false⟩ :=
    Function.update_self ..
  have hrej := @request_rejected C Ip _ _ k ip (greeted k m w c) c
    (requestFor lib m config opts) hack (by rw [hconn]) hreq
  obtain ⟨reason, hsent⟩ := hrej.reply
  rw [hconn] at hsent
  obtain ⟨hres, hw⟩ := @handshake_replied C Ip _ _ lib m config opts k ip w c
    hhello hack hnew (.pairReject reason) [] _ rfl hsent
  rw [hw]
  refine ⟨⟨_, hres⟩, ?_⟩
  show Quiet w (hangUp k ip c _)
  rw [hangUp_ended hrej.ended]
  exact ⟨hrej.quiet.paired, hrej.quiet.registry, hrej.quiet.flag⟩

/-- **THE TWO HALVES AGREE**: for any client config, options, machine and
    server state, when the two greetings can be framed, the client succeeds
    exactly if the server registers the connection, and that exactly if it
    admits the client; otherwise the client gives up for good and the server
    is as before.  SHA-256 need only tell the two proof inputs apart. -/
theorem handshake_agreement (lib : Library) (m : Machine) (config : Config)
    (opts : ConnectOptions) (k : Settings) (ip : C → Ip) (w : World C Ip)
    (c : C) (hlib : lib.sha256 = k.sha256) (hnew : w.conns c = Conn.new)
    (hfresh : c ∉ w.registry) (hhello : Framed (helloEnvelope m))
    (hack : Framed (.helloAck k.filePort k.serverName))
    (hsha : k.sha256 (proofInput (clientPin m opts) m.nonce
        (shownFingerprint lib m config))
      = k.sha256 (proofInput k.pin m.nonce (shownFingerprint lib m config)) →
        proofInput (clientPin m opts) m.nonce (shownFingerprint lib m config)
          = proofInput k.pin m.nonce (shownFingerprint lib m config)) :
    Agreement lib m config opts k ip w c := by
  -- the server's check of the proof is a comparison of the PINs
  have hproof := requestFor_proofOk hlib hsha
  by_cases hadm : Admits lib m config opts k ip w c
  · obtain ⟨hres, hreg, hpaired⟩ := @handshake_admitted C Ip _ _ lib m config
      opts k ip w c hhello hack hnew hadm.1 (hadm.2.imp_right hproof.mpr)
    exact ⟨iff_of_true ⟨_, hres⟩ hreg, iff_of_true hreg hadm,
      fun _ => ⟨hres, hpaired⟩, fun h => absurd hadm h⟩
  · have hreq : isRateLimited w.rateLimiter (ip c) w.now = true ∨
        (shownFingerprint lib m config ∉ w.pairedDevices ∧
          proofOk k.sha256 k.pin (requestFor lib m config opts) = false) := by
      rw [Admits, not_and_or, Bool.not_eq_false, not_or, ← hproof,
        Bool.not_eq_true] at hadm
      exact hadm
    obtain ⟨⟨msg, hres⟩, hquiet⟩ := @handshake_refused C Ip _ _ lib m config
      opts k ip w c hhello hack hnew hreq
    have hout : c ∉ (handshake lib m config opts k ip w c).2.registry := by
      rw [hquiet.registry]
      exact hfresh
    refine ⟨iff_of_false ?_ hout, iff_of_false hout hadm,
      fun h => absurd h hadm, fun _ => ⟨⟨msg, hres⟩, hquiet⟩⟩
    rintro ⟨v, hv⟩
    rw [hres] at hv
    cases hv

/-- A `HelloAck` that cannot be framed ends the handler, and the client finds
    the stream closed. -/
theorem handshake_unframed (hhello : Framed (helloEnvelope m))
    (hack : ¬ Framed (.helloAck k.filePort k.serverName))
    (hnew : w.conns c = Conn.new) :
    (handshake lib m config opts k ip w c).1.result
      = .error (.other "IO error: early eof".toList) := by
  have hnext : nextAction k
      (w.set c ⟨.greeting, [helloEnvelope m], [], 0, false, false⟩) c
        = .fail c := by
    refine if_pos ⟨?_, hack⟩
    simp only [World.set, Function.update_self]
  have hfail : step k ip
      (w.set c ⟨.greeting, [helloEnvelope m], [], 0, false, false⟩) (.fail c)
        = some (w.set c ⟨.ended, [helloEnvelope m], [], 0, false, false⟩) := by
    simp only [step, World.set, Function.update_self, Phase.mayFail, if_true,
      Conn.goto, List.append_nil, Function.update_idem]
  -- the handler has returned, so nothing else is ever sent
  have hlast : nextAction k
      (w.set c ⟨.ended, [helloEnvelope m], [], 0, false, false⟩) c
        = .advance c := by
    refine if_neg ?_
    simp only [World.set, Function.update_self, reduceCtorEq, false_and,
      not_false_eq_true]
  have hstop : step k ip
      (w.set c ⟨.ended, [helloEnvelope m], [], 0, false, false⟩) (.advance c)
        = none := by
    simp only [step, advance, World.set, Function.update_self]
  have hserved : serve k ip c w (helloEnvelope m)
      = w.set c ⟨.ended, [helloEnvelope m], [], 0, false, false⟩ := by
    rw [serve, receive_hello hnew]
    show drive k ip c (6 + 1 + 1) _ = _
    rw [drive, hnext, hfail]
    show drive k ip c (6 + 1) _ = _
    rw [drive, hlast, hstop]
  have hreply : (streamTo k ip c w (helloEnvelope m) (pairRequestEnvelope lib m
      (config.ensureClientSecret m.secret) opts)).helloReply
        = .error "IO error: early eof".toList := by
    show readReply (serve k ip c w (helloEnvelope m)) c 0 = _
    rw [hserved, readReply, World.set]
    simp only [Function.update_self, List.getElem?_nil]
  have hsent : (streamTo k ip c w (helloEnvelope m) (pairRequestEnvelope lib m
      (config.ensureClientSecret m.secret) opts)).helloSent = .ok () :=
    sendEnvelope_framed hhello
  simp only [handshake, performHandshake, hsent, hreply]

end Agreement

/-! ## A PIN that is right and a name that is too long -/

/-- SHA-256 on what the run below hashes: the secret of zeros and the proof
    for the PIN 123456. -/
def sha256Pin (bytes : List UInt8) : Vector UInt8 32 :=
  if bytes = proofInput "123456" (Vector.replicate 16 0)
      "66687aadf862bd776c8fc18b8e9f8e20089714856ee233b3902a591d0d5f2925" then
    #v[0xbb, 0x59, 0x63, 0x02, 0x6c, 0x6d, 0x3d, 0x90, 0x05, 0x56, 0x8f, 0x32,
      0xbf, 0x56, 0xfd, 0x3f, 0x55, 0xcf, 0x5f, 0x08, 0x00, 0xc3, 0x80, 0xd2,
      0xf2, 0x2b, 0xd7, 0x32, 0xa3, 0x7e, 0xc4, 0x1e]
  else sha256Table bytes

/-- A new client with the right PIN is let in and told the port and name. -/
theorem handshake_agreement_pin :
    Agreement { library with sha256 := sha256Pin } machine Config.default
        ⟨some "123456", false, none⟩ { settings with sha256 := sha256Pin }
        (fun _ => ()) (World.start Unit Unit [] false) () ∧
      (handshake { library with sha256 := sha256Pin } machine Config.default
        ⟨some "123456", false, none⟩ { settings with sha256 := sha256Pin }
        (fun _ => ()) (World.start Unit Unit [] false) ()).1.result
          = .ok (4001, "server") := by
  have h := handshake_agreement { library with sha256 := sha256Pin } machine
    Config.default ⟨some "123456", false, none⟩
    { settings with sha256 := sha256Pin } (fun _ => ())
    (World.start Unit Unit [] false) () rfl rfl (Finset.notMem_empty ())
    (by decide +kernel) (by decide +kernel) (fun _ => rfl)
  exact ⟨h, (h.admitted ⟨rfl, Or.inr rfl⟩).1⟩

/-- A server whose name fills a frame by itself. -/
def longNamed : Settings :=
  { settings with
    serverName := String.ofList (List.replicate MAX_ENVELOPE_SIZE 'a') }

theorem longNamed_unframed :
    ¬ Framed (.helloAck longNamed.filePort longNamed.serverName) := by
  have hlen : (utf8 longNamed.serverName).length = MAX_ENVELOPE_SIZE := by
    show (utf8 (String.ofList (List.replicate MAX_ENVELOPE_SIZE 'a'))).length
      = MAX_ENVELOPE_SIZE
    rw [utf8_ofList_length, List.map_replicate, List.sum_replicate_nat,
      show Char.utf8Size 'a' = 1 from rfl, Nat.mul_one]
  rw [Framed, helloAck_length, hlen]
  omega

/-- **A NAME THAT FILLS A FRAME**: the client's fingerprint is paired and its
    address not limited, but the `HelloAck` cannot be sent; the client fails
    with an error that it takes for a passing one. -/
theorem name_too_long :
    Admits library machine Config.default ⟨none, false, none⟩ longNamed
        (fun _ => ())
        (World.start Unit Unit
          [shownFingerprint library machine Config.default] false) () ∧
      ¬ Agreement library machine Config.default ⟨none, false, none⟩ longNamed
        (fun _ => ())
        (World.start Unit Unit
          [shownFingerprint library machine Config.default] false) () := by
  have hadm : Admits library machine Config.default ⟨none, false, none⟩
      longNamed (fun _ => ())
      (World.start Unit Unit
        [shownFingerprint library machine Config.default] false) () :=
    ⟨rfl, Or.inl (List.mem_singleton.mpr rfl)⟩
  refine ⟨hadm, ?_⟩
  intro h
  have hres := (h.admitted hadm).1
  rw [handshake_unframed (by decide +kernel) longNamed_unframed rfl] at hres
  cases hres

end KvmHandshake
