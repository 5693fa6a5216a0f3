import KvmRs.AddrProofs
import KvmRs.AuthProofs
import KvmRs.ClientConfigProofs
import KvmRs.TransitionProofs

/-! # Connecting and pinning

    `Session::connect`: the pinned TLS handshake, pairing, and the entries it
    leaves in `known_servers`.  A connect writes two of them, under the
    address it dialled and under the file port the server names; the second
    key is the server's choice, and any pin that is there is lost. -/

namespace KvmConnect

open KvmEnvelope KvmText KvmAddr KvmAuth KvmClientConfig Transition

/-- What the client calls outside this repository. -/
structure Library where
  sha256 : List UInt8 → Vector UInt8 32
  casing : Casing
  /-- The `Debug` rendering of an envelope. -/
  debug : Envelope → List Char

/-- What the machine gives one attempt: its host name, `KVM_PAIRING_PIN`,
    random bytes and the clock. -/
structure Machine where
  hostname : Option String
  pairingPin : Option String
  secret : Vector UInt8 32
  nonce : Vector UInt8 16
  now : Nat

structure ConnectOptions where
  pin : Option String
  trustNewCert : Bool
  expectedFingerprint : Option (List Char)
  deriving DecidableEq

/-- A failed attempt.  A fatal one is not retried. -/
inductive ConnectError where
  | fatal (msg : List Char)
  | other (msg : List Char)
  deriving DecidableEq

/-- What a call leaves in `config`, what it has sent, and its result. -/
structure Outcome (R : Type) where
  config : Config
  sent : List Envelope
  result : Except ConnectError R

/-! ## The verifier -/

/-- The SHA-256 fingerprint of a certificate as uppercase colon-separated hex
    pairs. -/
def fingerprintDer (k : Library) (cert : List UInt8) : List Char :=
  List.intercalate [':']
    ((k.sha256 cert).toList.map fun b => (hexPair b).map Char.toUpper)

/-- `PinnedCertVerifier::new`: what the verifier will compare with. -/
def newVerifier (k : Library) (required : Option (List Char)) :
    Option (List Char) :=
  required.map k.casing.toUppercase

/-- `verify_server_cert`, for the verifier's own requirement.  It always
    notes `fingerprintDer` of the certificate as observed. -/
def verifyServerCert (k : Library) (required : Option (List Char))
    (cert : List UInt8) : Except (List Char) Unit :=
  let fp := fingerprintDer k cert
  match required with
  | some expected =>
      if eqIgnoreAsciiCase expected fp then .ok ()
      else .error ("server certificate fingerprint mismatch: expected ".toList
        ++ expected ++ ", got ".toList ++ fp ++ (". Pass --trust-new-cert to "
        ++ "trust the new certificate, or verify --fingerprint.").toList)
  | none => .ok ()

theorem hexPair_isUpper (b : UInt8) :
    IsUpper ((hexPair b).map Char.toUpper) := by
  have hdigit : ∀ n < 16, ((Nat.digitChar n).toUpper).toNat < 128 ∧
      ((Nat.digitChar n).toUpper).toUpper = (Nat.digitChar n).toUpper := by
    decide
  intro c hc
  have hb : b.toNat < 256 := b.toNat_lt
  simp only [hexPair, List.map_cons, List.map_nil, List.mem_cons,
    List.not_mem_nil, or_false] at hc
  rcases hc with rfl | rfl
  · exact hdigit _ (by omega)
  · exact hdigit _ (by omega)

/-- Fingerprints are written in upper case. -/
theorem fingerprintDer_isUpper (k : Library) (cert : List UInt8) :
    IsUpper (fingerprintDer k cert) := by
  refine isUpper_intercalate ?_ ?_
  · intro c hc
    rw [List.mem_singleton.mp hc]
    decide
  · intro l hl
    obtain ⟨b, -, rfl⟩ := List.mem_map.mp hl
    exact hexPair_isUpper b

/-- A requirement admits at most one fingerprint. -/
theorem verifyServerCert_some {k : Library} {expected : List Char}
    {cert : List UInt8} :
    verifyServerCert k (some expected) cert = .ok ()
      ↔ expected.map Char.toUpper = fingerprintDer k cert := by
  rw [← eqIgnoreAsciiCase_iff (fingerprintDer_isUpper k cert)]
  simp only [verifyServerCert]
  split
  · rename_i h
    exact iff_of_true rfl h
  · rename_i h
    exact iff_of_false (fun h => nomatch h) h

/-- A stored fingerprint admits the certificates that have it. -/
theorem verifyServerCert_stored {k : Library} {pinned cert : List UInt8}
    (h : verifyServerCert k (newVerifier k (some (fingerprintDer k pinned)))
      cert = .ok ()) :
    fingerprintDer k cert = fingerprintDer k pinned := by
  have hup := fingerprintDer_isUpper k pinned
  rw [newVerifier, Option.map_some, hup.toUppercase, verifyServerCert_some,
    hup.map_toUpper] at h
  exact h.symm

/-! ## Pairing -/

/-- The results of the two sends and the two reads of the handshake. -/
structure Stream where
  helloSent : Except (List Char) Unit
  helloReply : Except (List Char) Envelope
  requestSent : Except (List Char) Unit
  pairReply : Except (List Char) Envelope

def helloEnvelope (m : Machine) : Envelope :=
  .hello (m.hostname.getD "kvm-client") PROTOCOL_VERSION Caps.default

/-- The answer to `Hello`: the file-transfer port and the server's name. -/
def onHelloReply (k : Library) :
    Envelope → Except ConnectError (UInt16 × String)
  | .helloAck fileTransferPort serverName => .ok (fileTransferPort, serverName)
  | .error msg =>
      if contains (k.casing.toLowercase msg.toList) "version".toList then
        .error (.fatal msg.toList)
      else .error (.other ("server error: ".toList ++ msg.toList))
  | e => .error (.other ("unexpected response: ".toList ++ k.debug e))

def pairRequestEnvelope (k : Library) (m : Machine) (config : Config)
    (opts : ConnectOptions) : Envelope :=
  let fingerprint := config.clientFingerprint k.sha256
  let pin := (opts.pin.or m.pairingPin).getD ""
  .pairRequest m.nonce fingerprint
    (pairingProof k.sha256 pin m.nonce fingerprint)

/-- The answer to `PairRequest`. -/
def onPairReply (k : Library) : Envelope → Except ConnectError Unit
  | .pairAccept => .ok ()
  | .pairReject reason =>
      .error (.fatal ("pairing rejected: ".toList ++ reason.toList ++
        if contains (k.casing.toLowercase reason.toList) "pin".toList then
          " (pass --pin <code>, or set KVM_PAIRING_PIN)".toList
        else []))
  | e => .error (.other ("unexpected pairing response: ".toList ++ k.debug e))

/-- The post-TLS half of connecting: `Hello` / `HelloAck`, then
    `PairRequest` / `PairAccept`. -/
def performHandshake (k : Library) (m : Machine) (config : Config)
    (opts : ConnectOptions) (x : Stream) : Outcome (UInt16 × String) :=
  let hello := helloEnvelope m
  match x.helloSent with
  | .error e => ⟨config, [], .error (.other e)⟩
  | .ok () =>
      match x.helloReply with
      | .error e => ⟨config, [hello], .error (.other e)⟩
      | .ok reply =>
          match onHelloReply k reply with
          | .error e => ⟨config, [hello], .error e⟩
          | .ok ack =>
              let config := config.ensureClientSecret m.secret
              match x.requestSent with
              | .error e => ⟨config, [hello], .error (.other e)⟩
              | .ok () =>
                  let sent := [hello, pairRequestEnvelope k m config opts]
                  match x.pairReply with
                  | .error e => ⟨config, sent, .error (.other e)⟩
                  | .ok reply =>
                      ⟨config, sent, (onPairReply k reply).map fun _ => ack⟩

/-! ## Connecting -/

/-- How far the peer lets an attempt come. -/
inductive Peer where
  /-- `TcpStream::connect` fails. -/
  | unreachable
  /-- The TLS handshake fails before a certificate is seen. -/
  | noCertificate (msg : List Char)
  /-- A certificate is presented; the handshake may still fail after it. -/
  | certificate (cert : List UInt8) (rest : Except (List Char) Stream)

structure Session where
  host : List Char
  serverName : String
  fingerprint : List Char
  fileTransferPort : UInt16
  deriving DecidableEq

/-- The fingerprint the certificate must have, if any. -/
def requiredFp (k : Library) (config : Config) (opts : ConnectOptions)
    (normalizedAddr : List Char) : Option (List Char) :=
  match opts.expectedFingerprint with
  | some fp => some (k.casing.toUppercase fp)
  | none =>
      if opts.trustNewCert then none
      else config.knownFingerprint normalizedAddr

/-- How a failed TLS handshake is reported. -/
def tlsError (normalizedAddr msg : List Char) : ConnectError :=
  if contains msg "fingerprint mismatch".toList then .fatal msg
  else .other ("TLS handshake failed with ".toList ++ normalizedAddr)

/-- `connector.connect`, with the verifier in the middle. -/
def tlsConnect (k : Library) (required : Option (List Char))
    (normalizedAddr : List Char) :
    Peer → Except ConnectError (List UInt8 × Stream)
  | .unreachable =>
      .error (.other ("failed to connect to ".toList ++ normalizedAddr))
  | .noCertificate msg => .error (tlsError normalizedAddr msg)
  | .certificate cert rest =>
      match verifyServerCert k (newVerifier k required) cert with
      | .error msg =>
          .error (tlsError normalizedAddr ("unexpected error: ".toList ++ msg))
      | .ok () =>
          match rest with
          | .error msg => .error (tlsError normalizedAddr msg)
          | .ok stream => .ok (cert, stream)

/-- The address under which a server dialled as `addr` is pinned. -/
def normalizedAddr (addr : List Char) : Option (List Char) :=
  match parseHostPort addr DEFAULT_CONTROL_PORT with
  | .ok (host, port) => some (formatHostPort host port)
  | .error _ => none

/-- The entries of a connect that has come through. -/
def pinServer (config : Config) (host : List Char) (port filePort : UInt16)
    (serverName : String) (observedFp : List Char) (now : Nat) : Config :=
  let normalizedAddr := formatHostPort host port
  let config := config.addKnownServer serverName normalizedAddr observedFp now
  let fileAddr := formatHostPort host filePort
  if fileAddr ≠ normalizedAddr then
    config.addKnownServerAlias serverName fileAddr observedFp now
  else config

/-- Connect to `addr`, with fingerprint pinning and pairing. -/
def connect (k : Library) (m : Machine) (addr : List Char) (config : Config)
    (opts : ConnectOptions) (peer : Peer) : Outcome Session :=
  match parseHostPort addr DEFAULT_CONTROL_PORT with
  | .error msg => ⟨config, [], .error (.other msg)⟩
  | .ok (host, port) =>
      let normalizedAddr := formatHostPort host port
      let required := requiredFp k config opts normalizedAddr
      match tlsConnect k required normalizedAddr peer with
      | .error e => ⟨config, [], .error e⟩
      | .ok (cert, stream) =>
          let hs := performHandshake k m config opts stream
          match hs.result with
          | .error e => ⟨hs.config, hs.sent, .error e⟩
          | .ok (filePort, serverName) =>
              let observedFp := fingerprintDer k cert
              ⟨pinServer hs.config host port filePort serverName observedFp
                m.now, hs.sent,
                .ok ⟨host, serverName, observedFp, filePort⟩⟩

/-! ## What a connect does to the pins -/

/-- The server names this file port and accepts the pairing. -/
structure Stream.Accepts (x : Stream) (filePort : UInt16)
    (serverName : String) : Prop where
  helloSent : x.helloSent = .ok ()
  helloReply : x.helloReply = .ok (.helloAck filePort serverName)
  requestSent : x.requestSent = .ok ()
  pairReply : x.pairReply = .ok .pairAccept

theorem onHelloReply_ok {k : Library} {e : Envelope} {p : UInt16}
    {name : String} (h : onHelloReply k e = .ok (p, name)) :
    e = .helloAck p name := by
  cases e with
  | helloAck q n =>
      obtain ⟨rfl, rfl⟩ := Prod.mk.inj (Except.ok.inj h)
      rfl
  | error msg =>
      simp only [onHelloReply] at h
      split at h <;> cases h
  | _ => cases h

theorem onPairReply_ok {k : Library} {e : Envelope}
    (h : onPairReply k e = .ok ()) : e = .pairAccept := by
  cases e with
  | pairAccept => rfl
  | _ => cases h

section Handshake

variable {k : Library} {m : Machine} {config : Config} {opts : ConnectOptions}
  {x : Stream}

/-- All that pairing does to the config is to generate a secret. -/
theorem performHandshake_config :
    (performHandshake k m config opts x).config = config ∨
      (performHandshake k m config opts x).config
        = config.ensureClientSecret m.secret := by
  simp only [performHandshake]
  repeat' split
  all_goals first | exact Or.inl rfl | exact Or.inr rfl

theorem performHandshake_accepts {p : UInt16} {name : String}
    (h : x.Accepts p name) :
    (performHandshake k m config opts x).config
        = config.ensureClientSecret m.secret ∧
      (performHandshake k m config opts x).result = .ok (p, name) := by
  simp only [performHandshake, h.helloSent, h.helloReply, h.requestSent,
    h.pairReply, onHelloReply, onPairReply, Except.map, and_self]

theorem performHandshake_ok {p : UInt16} {name : String}
    (h : (performHandshake k m config opts x).result = .ok (p, name)) :
    x.Accepts p name := by
  simp only [performHandshake] at h
  split at h
  · cases h
  · rename_i hsent
    split at h
    · cases h
    · rename_i reply hreply
      split at h
      · cases h
      · rename_i ack hack
        split at h
        · cases h
        · rename_i hreq
          split at h
          · cases h
          · rename_i answer hans
            cases hp : onPairReply k answer with
            | error e =>
                rw [hp] at h
                cases h
            | ok u =>
                rw [hp] at h
                have hpair : ack = (p, name) := Except.ok.inj h
                rw [hpair] at hack
                refine ⟨hsent, ?_, hreq, ?_⟩
                · rw [hreply, onHelloReply_ok hack]
                · rw [hans, onPairReply_ok hp]

end Handshake

/-- One call of `Session::connect`, with everything it meets. -/
structure Call where
  machine : Machine
  addr : List Char
  opts : ConnectOptions
  peer : Peer

def Call.run (k : Library) (config : Config) (c : Call) : Outcome Session :=
  connect k c.machine c.addr config c.opts c.peer

/-- The address parses, the certificate is presented, passes the verifier and
    the handshake ends well, and the server names this file port and accepts
    the pairing. -/
structure Admitted (k : Library) (config : Config) (c : Call)
    (host : List Char) (port : UInt16) (cert : List UInt8)
    (filePort : UInt16) (serverName : String) : Prop where
  addr : parseHostPort c.addr DEFAULT_CONTROL_PORT = .ok (host, port)
  trusted : verifyServerCert k (newVerifier k
    (requiredFp k config c.opts (formatHostPort host port))) cert = .ok ()
  peer : ∃ stream, c.peer = .certificate cert (.ok stream) ∧
    stream.Accepts filePort serverName

theorem pinServer_known (config : Config) (host : List Char)
    (port filePort : UInt16) (name : String) (fp : List Char) (now : Nat)
    (a : List Char) :
    (pinServer config host port filePort name fp now).knownFingerprint a
      = if a = formatHostPort host filePort ∨ a = formatHostPort host port
        then some fp else config.knownFingerprint a := by
  simp only [pinServer]
  by_cases hf : formatHostPort host filePort = formatHostPort host port
  · rw [if_neg (not_not.mpr hf), addKnownServer_known, hf]
    simp only [or_self]
  · rw [if_pos hf, addKnownServerAlias_known, addKnownServer_known]
    by_cases h : a = formatHostPort host filePort
    · rw [if_pos h, if_pos (Or.inl h)]
    · rw [if_neg h]
      simp only [h, false_or]

section Pins

variable {k : Library} {config : Config} {c : Call}

theorem tlsConnect_ok {required : Option (List Char)} {addr : List Char}
    {peer : Peer} {cert : List UInt8} {stream : Stream} :
    tlsConnect k required addr peer = .ok (cert, stream)
      ↔ verifyServerCert k (newVerifier k required) cert = .ok () ∧
        peer = .certificate cert (.ok stream) := by
  constructor
  · intro h
    cases peer with
    | unreachable => cases h
    | noCertificate msg => cases h
    | certificate shown rest =>
        simp only [tlsConnect] at h
        split at h
        · cases h
        · rename_i hv
          cases rest with
          | error msg => cases h
          | ok st =>
              obtain ⟨rfl, rfl⟩ := Prod.mk.inj (Except.ok.inj h)
              exact ⟨hv, rfl⟩
  · rintro ⟨hv, rfl⟩
    simp only [tlsConnect, hv]

/-- **A SUCCESSFUL CONNECT** generates a secret if there is none and writes
    its entries. -/
theorem connect_run {host : List Char} {port : UInt16} {cert : List UInt8}
    {filePort : UInt16} {name : String}
    (h : Admitted k config c host port cert filePort name) :
    (c.run k config).result
        = .ok ⟨host, name, fingerprintDer k cert, filePort⟩ ∧
      (c.run k config).config
        = pinServer (config.ensureClientSecret c.machine.secret) host port
          filePort name (fingerprintDer k cert) c.machine.now := by
  obtain ⟨stream, hpeer, hacc⟩ := h.peer
  have htls : tlsConnect k (requiredFp k config c.opts
      (formatHostPort host port)) (formatHostPort host port) c.peer
        = .ok (cert, stream) :=
    tlsConnect_ok.mpr ⟨h.trusted, hpeer⟩
  have hhs := @performHandshake_accepts k c.machine config c.opts _ _ _ hacc
  simp only [Call.run, connect, h.addr, htls, hhs.1, hhs.2, and_self]

/-- It pins the certificate under both addresses. -/
theorem connect_admitted {host : List Char} {port : UInt16}
    {cert : List UInt8} {filePort : UInt16} {name : String}
    (h : Admitted k config c host port cert filePort name) :
    (c.run k config).result
        = .ok ⟨host, name, fingerprintDer k cert, filePort⟩ ∧
      ∀ a, (c.run k config).config.knownFingerprint a
        = if a = formatHostPort host filePort ∨ a = formatHostPort host port
          then some (fingerprintDer k cert)
          else config.knownFingerprint a := by
  obtain ⟨hok, hconfig⟩ := connect_run h
  refine ⟨hok, ?_⟩
  intro a
  rw [hconfig, pinServer_known, ensureClientSecret_known]

/-- **A CONNECT** is admitted, or fails with nothing but a secret to show. -/
theorem connect_cases (k : Library) (config : Config) (c : Call) :
    (∃ host port cert filePort name,
      Admitted k config c host port cert filePort name) ∨
    ((∃ e, (c.run k config).result = .error e) ∧
      ((c.run k config).config = config ∨
        (c.run k config).config
          = config.ensureClientSecret c.machine.secret)) := by
  cases haddr : parseHostPort c.addr DEFAULT_CONTROL_PORT with
  | error msg =>
      right
      simp only [Call.run, connect, haddr]
      exact ⟨⟨_, rfl⟩, Or.inl trivial⟩
  | ok hp =>
      obtain ⟨host, port⟩ := hp
      cases htls : tlsConnect k (requiredFp k config c.opts
          (formatHostPort host port)) (formatHostPort host port) c.peer with
      | error e =>
          right
          simp only [Call.run, connect, haddr, htls]
          exact ⟨⟨_, rfl⟩, Or.inl trivial⟩
      | ok shown =>
          obtain ⟨cert, stream⟩ := shown
          cases hhs : (performHandshake k c.machine config c.opts
              stream).result with
          | error e =>
              right
              simp only [Call.run, connect, haddr, htls, hhs]
              exact ⟨⟨_, rfl⟩, performHandshake_config⟩
          | ok ack =>
              left
              obtain ⟨hv, hpeer⟩ := tlsConnect_ok.mp htls
              exact ⟨host, port, cert, ack.1, ack.2, haddr, hv, stream, hpeer,
                performHandshake_ok hhs⟩

/-- A failed connect leaves the pins alone. -/
theorem failed_known {config' : Config} {bytes : Vector UInt8 32}
    (h : config' = config ∨ config' = config.ensureClientSecret bytes)
    (a : List Char) :
    config'.knownFingerprint a = config.knownFingerprint a := by
  rcases h with rfl | rfl
  · rfl
  · exact ensureClientSecret_known config bytes a

end Pins

/-! ## What a connect leaves behind -/

/-- The certificate's fingerprint is this text, letter case aside. -/
def Matches (k : Library) (fp : List Char) (cert : List UInt8) : Prop :=
  eqIgnoreAsciiCase (k.casing.toUppercase fp) (fingerprintDer k cert) = true

/-- The fingerprint that `send_file` requires. -/
def sendFileRequiredFp (config : Config) (opts : ConnectOptions)
    (host : List Char) (port : UInt16) : Option (List Char) :=
  opts.expectedFingerprint.or
    (config.knownFingerprint (formatHostPort host port))

theorem verifyServerCert_matches {k : Library} {fp : List Char}
    {cert : List UInt8} :
    verifyServerCert k (newVerifier k (some fp)) cert = .ok ()
      ↔ Matches k fp cert := by
  rw [newVerifier, Option.map_some, verifyServerCert_some, Matches,
    eqIgnoreAsciiCase_iff (fingerprintDer_isUpper k cert)]

/-- A text that spells a fingerprint in any case is upper-cased to it. -/
theorem toUppercase_spelled {k : Library} {fp : List Char}
    {cert : List UInt8} (h : fp.map Char.toUpper = fingerprintDer k cert) :
    k.casing.toUppercase fp = fingerprintDer k cert := by
  rw [k.casing.toUppercase_ascii, h]
  intro c hc
  refine ascii_of_toUpper ?_
  refine (fingerprintDer_isUpper k cert _ ?_).1
  rw [← h]
  exact List.mem_map_of_mem hc

/-- The state and the result of a connect that has come through, for the
    certificate that was presented. -/
structure Pinned (k : Library) (config : Config) (c : Call)
    (cert : List UInt8) (s : Session) (address : List Char)
    (config' : Config) : Prop where
  presented : ∃ stream, c.peer = .certificate cert (.ok stream)
  dialled : normalizedAddr c.addr = some address
  fingerprint : s.fingerprint = fingerprintDer k cert
  expected : ∀ fp, c.opts.expectedFingerprint = some fp →
    Matches k (k.casing.toUppercase fp) cert ∧
      ((∀ ch ∈ fp, ch.toNat < 128) →
        fp.map Char.toUpper = fingerprintDer k cert)
  stored : c.opts.expectedFingerprint = none → c.opts.trustNewCert = false →
    ∀ fp, config.knownFingerprint address = some fp → Matches k fp cert
  control : config'.knownFingerprint address = some (fingerprintDer k cert)
  file : config'.knownFingerprint (formatHostPort s.host s.fileTransferPort)
    = some (fingerprintDer k cert)
  /-- `send_file` admits this certificate's fingerprint and no other, unless
      it is told another one. -/
  sendFile : ∀ opts : ConnectOptions,
    (∀ fp, opts.expectedFingerprint = some fp →
      fp.map Char.toUpper = fingerprintDer k cert) →
    ∀ shown, verifyServerCert k (newVerifier k (sendFileRequiredFp config' opts
        s.host s.fileTransferPort)) shown = .ok ()
      ↔ fingerprintDer k shown = fingerprintDer k cert
  last : config'.lastServer = some address
  others : ∀ a, a ≠ address → a ≠ formatHostPort s.host s.fileTransferPort →
    config'.knownServers a = config.knownServers a

theorem pinServer_last (config : Config) (host : List Char)
    (port filePort : UInt16) (name : String) (fp : List Char) (now : Nat) :
    (pinServer config host port filePort name fp now).lastServer
      = some (formatHostPort host port) := by
  simp only [pinServer]
  split <;> rfl

theorem pinServer_others (config : Config) (host : List Char)
    (port filePort : UInt16) (name : String) (fp : List Char) (now : Nat)
    {a : List Char} (hport : a ≠ formatHostPort host port)
    (hfile : a ≠ formatHostPort host filePort) :
    (pinServer config host port filePort name fp now).knownServers a
      = config.knownServers a := by
  have hcontrol : (config.addKnownServer name (formatHostPort host port) fp
      now).knownServers a = config.knownServers a :=
    Function.update_of_ne hport _ _
  simp only [pinServer]
  split
  · exact (Function.update_of_ne hfile _ _).trans hcontrol
  · exact hcontrol

/-- What a requirement of the fingerprint of `cert` admits. -/
theorem verifyServerCert_spelled {k : Library} {fp : List Char}
    {cert shown : List UInt8} (h : fp.map Char.toUpper = fingerprintDer k cert) :
    verifyServerCert k (newVerifier k (some fp)) shown = .ok ()
      ↔ fingerprintDer k shown = fingerprintDer k cert := by
  rw [newVerifier, Option.map_some, toUppercase_spelled h,
    verifyServerCert_some, (fingerprintDer_isUpper k cert).map_toUpper]
  exact eq_comm

/-- An admitted connect has checked the certificate and pinned it. -/
theorem Admitted.pinned {k : Library} {config : Config} {c : Call}
    {host : List Char} {port : UInt16} {cert : List UInt8}
    {filePort : UInt16} {name : String}
    (h : Admitted k config c host port cert filePort name) :
    Pinned k config c cert ⟨host, name, fingerprintDer k cert, filePort⟩
      (formatHostPort host port) (c.run k config).config where
  presented := by
    obtain ⟨stream, hpeer, -⟩ := h.peer
    exact ⟨stream, hpeer⟩
  dialled := by simp only [normalizedAddr, h.addr]
  fingerprint := rfl
  expected := by
    intro fp hfp
    have htrusted := h.trusted
    simp only [requiredFp, hfp] at htrusted
    refine ⟨verifyServerCert_matches.mp htrusted, ?_⟩
    -- the upper case of ASCII text is not changed by upper-casing it again
    intro hascii
    have hup := isUpper_map_toUpper hascii
    rw [k.casing.toUppercase_ascii fp hascii, verifyServerCert_matches, Matches,
      hup.toUppercase, eqIgnoreAsciiCase_iff (fingerprintDer_isUpper k cert),
      hup.map_toUpper] at htrusted
    exact htrusted
  stored := by
    intro hnone htrust fp hfp
    have htrusted := h.trusted
    simp only [requiredFp, hnone, htrust, hfp, Bool.false_eq_true, if_false]
      at htrusted
    exact verifyServerCert_matches.mp htrusted
  control := by
    rw [(connect_admitted h).2, if_pos (Or.inr rfl)]
  file := by
    rw [(connect_admitted h).2, if_pos (Or.inl rfl)]
  sendFile := by
    intro opts hopts shown
    cases hfp : opts.expectedFingerprint with
    | none =>
        rw [sendFileRequiredFp, hfp, Option.none_or, (connect_admitted h).2,
          if_pos (Or.inl rfl)]
        exact verifyServerCert_spelled
          (fingerprintDer_isUpper k cert).map_toUpper
    | some fp =>
        rw [sendFileRequiredFp, hfp, Option.some_or]
        exact verifyServerCert_spelled (hopts fp hfp)
  last := by
    rw [(connect_run h).2, pinServer_last]
  others := by
    intro a haddr hfile
    rw [(connect_run h).2, pinServer_others _ _ _ _ _ _ _ haddr hfile,
      ensureClientSecret_servers]

/-- **CONNECT PINS OR LEAVES THE PINS ALONE**: whatever the address, the
    config, the options, the certificate and the replies, a connect fails and
    `known_servers` and `last_server` are as they were, or it comes through
    with the certificate that was asked for and that certificate is pinned. -/
theorem connect_pins_or_fails (k : Library) (config : Config) (c : Call) :
    ((∃ e, (c.run k config).result = .error e) ∧
      (c.run k config).config.knownServers = config.knownServers ∧
      (c.run k config).config.lastServer = config.lastServer) ∨
    ∃ cert s address, (c.run k config).result = .ok s ∧
      Pinned k config c cert s address (c.run k config).config := by
  rcases connect_cases k config c with
    ⟨host, port, cert, filePort, name, hadm⟩ | ⟨herr, hsame | hsecret⟩
  · right
    exact ⟨cert, _, _, (connect_run hadm).1, hadm.pinned⟩
  · left
    rw [hsame]
    exact ⟨hsame ▸ herr, rfl, rfl⟩
  · left
    rw [hsecret]
    exact ⟨herr, ensureClientSecret_servers _ _, ensureClientSecret_last _ _⟩

/-! ## Trust on first use, over any sequence of connects -/

/-- One call after the other on one config. -/
def step (k : Library) (config : Config) (c : Call) : Option Config :=
  some (c.run k config).config

/-- A stored fingerprint changes only for the address that is dialled, and
    only if the options ask for it. -/
def Tofu (config : Config) (c : Call) (config' : Config) : Prop :=
  ∀ a fp fp', config.knownFingerprint a = some fp →
    config'.knownFingerprint a = some fp' → fp ≠ fp' →
      normalizedAddr c.addr = some a ∧
        (c.opts.trustNewCert = true ∨
          c.opts.expectedFingerprint.isSome = true)

/-- The certificate agrees with what is stored under the server's file port
    and, unless the options say otherwise, to the letter with what is stored
    under the dialled address. -/
def Undisturbed (k : Library) (config : Config) (c : Call) : Prop :=
  ∀ host port cert filePort name,
    Admitted k config c host port cert filePort name →
      (formatHostPort host filePort ≠ formatHostPort host port →
        ∀ fp, config.knownFingerprint (formatHostPort host filePort) = some fp →
          fp = fingerprintDer k cert) ∧
      (c.opts.trustNewCert = false → c.opts.expectedFingerprint = none →
        ∀ fp, config.knownFingerprint (formatHostPort host port) = some fp →
          fp = fingerprintDer k cert)

/-- The dialled address of an admitted call. -/
theorem Admitted.dials {k : Library} {config : Config} {c : Call}
    {host : List Char} {port : UInt16} {cert : List UInt8}
    {filePort : UInt16} {name : String}
    (h : Admitted k config c host port cert filePort name) :
    normalizedAddr c.addr = some (formatHostPort host port) := by
  simp only [normalizedAddr, h.addr]

theorem tofu_of_undisturbed {k : Library} {config : Config} {c : Call}
    (h : Undisturbed k config c) : Tofu config c (c.run k config).config := by
  intro a fp fp' hold hnew hne
  rcases connect_cases k config c with
    ⟨host, port, cert, filePort, name, hadm⟩ | ⟨-, hsame⟩
  · obtain ⟨hfile, hdial⟩ := h host port cert filePort name hadm
    rw [(connect_admitted hadm).2] at hnew
    by_cases ha : a = formatHostPort host port
    · refine ⟨ha ▸ hadm.dials, ?_⟩
      by_contra hopts
      rw [not_or, Bool.not_eq_true, Bool.not_eq_true] at hopts
      rw [if_pos (Or.inr ha)] at hnew
      refine hne ?_
      have hnone : c.opts.expectedFingerprint = none :=
        Option.isNone_iff_eq_none.mp (Option.isSome_eq_false_iff.mp hopts.2)
      rw [hdial hopts.1 hnone fp (ha ▸ hold)]
      exact Option.some.inj hnew
    · -- only the file port's address is left to have changed
      exfalso
      refine hne ?_
      by_cases haf : a = formatHostPort host filePort
      · rw [if_pos (Or.inl haf)] at hnew
        rw [hfile (fun heq => ha (haf.trans heq)) fp (haf ▸ hold)]
        exact Option.some.inj hnew
      · rw [if_neg (not_or.mpr ⟨haf, ha⟩), hold] at hnew
        exact Option.some.inj hnew
  · rw [failed_known hsame, hold] at hnew
    exact absurd (Option.some.inj hnew) hne

theorem undisturbed_of_tofu {k : Library} {config : Config} {c : Call}
    (h : Tofu config c (c.run k config).config) : Undisturbed k config c := by
  intro host port cert filePort name hadm
  have hknown := (connect_admitted hadm).2
  constructor
  · intro hne fp hold
    by_contra hfp
    have hnew := hknown (formatHostPort host filePort)
    rw [if_pos (Or.inl rfl)] at hnew
    have hdial := (h _ fp _ hold hnew hfp).1
    rw [hadm.dials] at hdial
    exact hne (Option.some.inj hdial).symm
  · intro htrust hexpected fp hold
    by_contra hfp
    have hnew := hknown (formatHostPort host port)
    rw [if_pos (Or.inr rfl)] at hnew
    rcases (h _ fp _ hold hnew hfp).2 with ht | he
    · rw [htrust] at ht
      cases ht
    · rw [hexpected] at he
      cases he

/-- **TRUST ON FIRST USE**: for any config and any sequence of connects to any
    addresses, with any options, certificates and replies, stored fingerprints
    change only on request exactly if every server that is let in agrees with
    the pin that its file port already has, and the pin it was checked against
    is written the way `fingerprint_der` writes it. -/
theorem pins_change_only_on_request (k : Library) (config : Config)
    (calls : List Call) :
    AllSteps (step k) Tofu config calls
      ↔ Guarded (step k) (Undisturbed k) config calls := by
  refine allSteps_iff_guarded ?_ calls config
  intro config c
  exact ⟨(c.run k config).config, rfl,
    undisturbed_of_tofu, tofu_of_undisturbed⟩

/-! ## Two servers on one host -/

/-- SHA-256 on the bytes that the runs below hash: two certificates, a client
    secret of zeros and the proof made with it. -/
def sha256Table (bytes : List UInt8) : Vector UInt8 32 :=
  if bytes = [1] then
    #v[0x4b, 0xf5, 0x12, 0x2f, 0x34, 0x45, 0x54, 0xc5, 0x3b, 0xde, 0x2e, 0xbb,
      0x8c, 0xd2, 0xb7, 0xe3, 0xd1, 0x60, 0x0a, 0xd6, 0x31, 0xc3, 0x85, 0xa5,
      0xd7, 0xcc, 0xe2, 0x3c, 0x77, 0x85, 0x45, 0x9a]
  else if bytes = [2] then
    #v[0xdb, 0xc1, 0xb4, 0xc9, 0x00, 0xff, 0xe4, 0x8d, 0x57, 0x5b, 0x5d, 0xa5,
      0xc6, 0x38, 0x04, 0x01, 0x25, 0xf6, 0x5d, 0xb0, 0xfe, 0x3e, 0x24, 0x49,
      0x4b, 0x76, 0xea, 0x98, 0x64, 0x57, 0xd9, 0x86]
  else if bytes = List.replicate 32 0 then
    #v[0x66, 0x68, 0x7a, 0xad, 0xf8, 0x62, 0xbd, 0x77, 0x6c, 0x8f, 0xc1, 0x8b,
      0x8e, 0x9f, 0x8e, 0x20, 0x08, 0x97, 0x14, 0x85, 0x6e, 0xe2, 0x33, 0xb3,
      0x90, 0x2a, 0x59, 0x1d, 0x0d, 0x5f, 0x29, 0x25]
  else
    #v[0x84, 0x10, 0xd9, 0x3f, 0x2b, 0x7d, 0xe4, 0xc0, 0x9c, 0x43, 0x70, 0xba,
      0xd0, 0x11, 0xa3, 0x8e, 0x61, 0x68, 0xc5, 0xf9, 0x73, 0xab, 0xdc, 0x57,
      0x55, 0x88, 0x2c, 0x39, 0x3d, 0xe1, 0x65, 0x87]

/-- The case tables on ASCII text. -/
def asciiCasing : Casing where
  toUppercase s := s.map Char.toUpper
  toLowercase s := s.map Char.toLower
  toUppercase_ascii := fun _ _ => rfl

def library : Library where
  sha256 := sha256Table
  casing := asciiCasing
  debug := fun _ => []

def machine : Machine where
  hostname := some "laptop"
  pairingPin := none
  secret := Vector.replicate 32 0
  nonce := Vector.replicate 16 0
  now := 0

/-- A server with this certificate and file port that accepts the pairing. -/
def friendly (cert : List UInt8) (filePort : UInt16) : Peer :=
  .certificate cert (.ok ⟨.ok (), .ok (.helloAck filePort "desk"), .ok (),
    .ok .pairAccept⟩)

/-- A connect without a PIN, with this `trust_new_cert`. -/
def call (addr : String) (trust : Bool) (cert : List UInt8)
    (filePort : UInt16) : Call where
  machine := machine
  addr := addr.toList
  opts := ⟨none, trust, none⟩
  peer := friendly cert filePort

/-- **THE FILE PORT OF ONE SERVER IS ANOTHER SERVER**: the server on port 4000
    names port 4001 for files, where a server with another certificate is
    known; connecting to the first replaces the pin of the second. -/
theorem alias_replaces_pin :
    ∃ c₁ c₂,
      exec (step library) Config.default
        [call "10.0.0.5:4001" false [1] 4002] = some c₁ ∧
      step library c₁ (call "10.0.0.5:4000" false [2] 4001) = some c₂ ∧
      c₁.knownFingerprint "10.0.0.5:4001".toList
        = some (fingerprintDer library [1]) ∧
      c₂.knownFingerprint "10.0.0.5:4001".toList
        = some (fingerprintDer library [2]) ∧
      ¬ AllSteps (step library) Tofu Config.default
        [call "10.0.0.5:4001" false [1] 4002,
          call "10.0.0.5:4000" false [2] 4001] := by
  refine ⟨_, _, rfl, rfl, rfl, rfl, ?_⟩
  rintro ⟨-, htofu, -⟩
  have hdial := (htofu "10.0.0.5:4001".toList _ _ rfl rfl (by decide)).1
  exact absurd hdial (by decide)

end KvmConnect
