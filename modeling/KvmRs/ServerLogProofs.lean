import KvmRs.ControlProofs
import KvmRs.FileChannelProofs

/-! # The server's log

    The two accept loops and the handlers they spawn, as far as they log at
    the levels info, warn and error; lines of the target `audit` are marked.
    A handler's error is logged by the loop that has spawned it.

    `Server` is the control channel beside the file channel, which asks the
    same config for paired devices.  Every step says what it logs (`log`); an
    operation inside a step that may fail has its error text in the event. -/

namespace KvmServerLog

open KvmAuth KvmEnvelope KvmFileChannel KvmRateLimit
open KvmControl hiding Settings Action step advance

variable {C Ip D : Type}

/-- What does not change while the server runs, and how it writes what is not
    text: socket addresses, addresses, and messages under `{:?}`. -/
structure Settings (C Ip D : Type) where
  control : KvmControl.Settings
  files : KvmFileChannel.Settings D
  peerIp : C → Ip
  peerAddr : C → Text
  ipText : Ip → Text
  debug : Envelope → Text

structure Server (C Ip D : Type) where
  control : World C Ip
  files : Channel D

/-- A server that has just started. -/
def Server.start (C Ip D : Type) (paired : List String) (enabled : Bool)
    (dir : Directory.Dir KvmFileName.Name) : Server C Ip D where
  control := World.start C Ip paired enabled
  files := Channel.start D dir

/-- The two accept loops. -/
inductive Listener where
  | control | file
  deriving DecidableEq

inductive Event (C D : Type) where
  /-- A connection from this address finds no permit. -/
  | dropped (l : Listener) (addr : Text)
  | accepted (l : Listener) (addr : Text)
  | acceptFailed (l : Listener) (err : Text)
  | tlsFailed (l : Listener) (addr err : Text)
  | tlsTimedOut (l : Listener) (addr : Text)
  /-- The forwarder reports a hotkey. -/
  | hotkeyReported (on : Bool)
  | shutdown
  /-- A writer task cannot send. -/
  | writeFailed (err : Text)
  /-- A step of the control channel, and the error in it if there is one. -/
  | control (a : KvmControl.Action C) (err : Option Text)
  | file (a : KvmFileChannel.Action D)
  deriving DecidableEq

/-- Only the first two reads of a handler have a deadline. -/
def hasDeadline : KvmControl.Phase → Bool
  | .hello => true
  | .awaitingPair => true
  | _ => false

/-- A failure without an error is a deadline that has passed. -/
def permitted (w : World C Ip) : KvmControl.Action C → Option Text → Bool
  | .fail c, none => hasDeadline (w.conns c).phase
  | _, _ => true

def step [DecidableEq C] [DecidableEq Ip] [DecidableEq D]
    (k : Settings C Ip D) (s : Server C Ip D) :
    Event C D → Option (Server C Ip D)
  | .control a err =>
      if permitted s.control a err then
        (KvmControl.step k.control k.peerIp s.control a).map
          fun w => { s with control := w }
      else none
  | .file a =>
      (KvmFileChannel.step k.files s.control.pairedDevices s.files a).map
        fun w => { s with files := w }
  | _ => some s

/-! ## The lines -/

def auditInfo (text : Text) : LogLine := ⟨.info, true, text⟩

def auditWarn (text : Text) : LogLine := ⟨.warn, true, text⟩

def boolText (b : Bool) : Text :=
  if b then "true".toList else "false".toList

/-- The first eleven characters of a fingerprint, and an ellipsis. -/
def redactFingerprint (fingerprint : String) : Text :=
  fingerprint.toList.take 11 ++ "...".toList

/-- The name in the `Hello`. -/
def clientName (x : KvmControl.Conn) : Text :=
  match x.received with
  | .hello name _ _ :: _ => name.toList
  | _ => []

/-- The fingerprint in the `PairRequest`. -/
def clientFingerprint (x : KvmControl.Conn) : String :=
  match x.received with
  | _ :: .pairRequest _ fingerprint _ :: _ => fingerprint
  | _ => ""

def quoted (name : Text) : Text := "'".toList ++ name ++ "'".toList

/-- What the accept loops log by themselves. -/
def dropLine : Listener → Text → LogLine
  | .control, addr =>
      warnLine (("Too many pending (unhandshaked/unpaired) connections; "
        ++ "dropping new connection from ").toList ++ addr)
  | .file, addr =>
      warnLine ("Too many pending file-transfer connections; dropping ".toList
        ++ addr)

def acceptLine : Listener → Text → LogLine
  | .control, addr => infoLine ("New connection from ".toList ++ addr)
  | .file, addr =>
      infoLine ("File transfer connection from ".toList ++ addr)

def acceptFailedLine : Listener → Text → LogLine
  | .control, err =>
      ⟨.error, false, "Failed to accept connection: ".toList ++ err⟩
  | .file, err =>
      ⟨.error, false,
        "Failed to accept file transfer connection: ".toList ++ err⟩

def tlsFailedLine : Listener → Text → Text → LogLine
  | .control, addr, err =>
      ⟨.error, false,
        "TLS handshake failed for ".toList ++ addr ++ ": ".toList ++ err⟩
  | .file, addr, err =>
      ⟨.error, false, "File transfer TLS handshake failed for ".toList ++ addr
        ++ ": ".toList ++ err⟩

def tlsTimedOutLine : Listener → Text → LogLine
  | .control, addr =>
      warnLine ("TLS handshake timed out for ".toList ++ addr)
  | .file, addr =>
      warnLine ("File transfer TLS handshake timed out for ".toList ++ addr)

section Handler

variable (k : Settings C Ip D) (c : C)

/-- How `run_server` reports the error of a handler. -/
def handlerError (err : Text) : LogLine where
  level := .error
  audit := false
  text :=
    "Error handling client ".toList ++ k.peerAddr c ++ ": ".toList ++ err

/-- The peer's address without the port. -/
def peerText : Text := k.ipText (k.peerIp c)

/-- Where a deadline has passed. -/
def timeoutText : KvmControl.Phase → Text
  | .hello => "timed out waiting for Hello from ".toList
  | _ => "timed out waiting for PairRequest from ".toList

/-- On an envelope, from the client of this name. -/
def receiveLog (name : Text) (ph : KvmControl.Phase) (e : Envelope)
    (err : Option Text) : List LogLine :=
  match ph with
  | .hello =>
      match e with
      | .hello name version _ =>
          if version ≠ PROTOCOL_VERSION then
            [handlerError k c ("protocol version mismatch from ".toList
              ++ peerText k c ++ " (".toList ++ quoted name.toList
              ++ "): ".toList ++ version.toList)]
          else []
      | _ =>
          [handlerError k c ("expected Hello message from ".toList
            ++ peerText k c)]
  | .awaitingPair =>
      match e with
      | .pairRequest _ _ _ => []
      | _ =>
          -- the answer to it may fail to be sent
          [handlerError k c (err.getD
            ("expected PairRequest message from ".toList ++ peerText k c))]
  | .looping =>
      match e with
      | .goodbye =>
          [infoLine ("Client ".toList ++ quoted name
            ++ " sent Goodbye".toList)]
      | .ping _ => []
      | .pong _ => []
      | .toggleForward _ => []
      | .clipboardSet _ => []
      | e =>
          [warnLine ("Unhandled message from ".toList ++ quoted name
            ++ ": ".toList ++ k.debug e)]
  | _ => []

/-- On the handler's next step. -/
def advanceLog (w : World C Ip) (err : Option Text) : List LogLine :=
  let name := quoted (clientName (w.conns c))
  match (w.conns c).phase with
  | .checking _ =>
      if isRateLimited w.rateLimiter (k.peerIp c) w.now then
        [auditWarn ("rejected pairing from rate-limited peer ".toList
            ++ peerText k c),
          handlerError k c (err.getD ("peer ".toList ++ peerText k c
            ++ " is rate-limited".toList))]
      else []
  | .readingConfig req =>
      if req.fingerprint ∈ w.pairedDevices then
        [auditInfo (name ++ " (".toList ++ redactFingerprint req.fingerprint
          ++ ") re-connected (already paired)".toList)]
      else []
  | .comparing req =>
      if proofOk k.control.sha256 k.control.pin req then []
      else
        [auditWarn ("rejected pairing from ".toList ++ peerText k c
            ++ " (bad PIN, fingerprint ".toList
            ++ redactFingerprint req.fingerprint ++ ")".toList),
          -- the handler's error has the whole fingerprint
          handlerError k c (err.getD ("pairing rejected for ".toList
            ++ peerText k c ++ " (".toList ++ req.fingerprint.toList
            ++ ")".toList))]
  | .adding req =>
      (err.map fun e =>
        warnLine ("Failed to persist config after pairing: ".toList
          ++ e)).toList
      ++ [auditInfo ("paired new device ".toList ++ name ++ " (".toList
        ++ redactFingerprint req.fingerprint ++ ") from ".toList
        ++ peerText k c)]
  | .firstClient =>
      if k.control.autoForward && !w.forwardingEnabled then
        [auditInfo
          "auto_forward: forwarding turned ON (first client paired)".toList]
      else []
  | .storing desired =>
      [auditInfo ("forwarding toggled by client ".toList ++ name
        ++ ": ".toList ++ boolText desired)]
  | .lastClient =>
      if k.control.autoForward && w.forwardingEnabled then
        [auditInfo ("auto_forward: forwarding turned OFF "
          ++ "(last client disconnected)").toList]
      else []
  | .farewell =>
      [auditInfo ("disconnected: ".toList ++ name ++ " (".toList
        ++ redactFingerprint (clientFingerprint (w.conns c)) ++ ")".toList)]
  | _ => []

end Handler

/-- The lines of a step of the control channel. -/
def controlLog (k : Settings C Ip D) (w : World C Ip) (err : Option Text) :
    KvmControl.Action C → List LogLine
  | .receive c e =>
      receiveLog k c (clientName (w.conns c)) (w.conns c).phase e err
  | .advance c => advanceLog k c w err
  | .fail c =>
      [handlerError k c (err.getD
        (timeoutText (w.conns c).phase ++ peerText k c))]
  | .closed c =>
      [infoLine ("Client ".toList ++ quoted (clientName (w.conns c))
        ++ " connection closed".toList)]
  | .watchdog c =>
      if WATCHDOG_LIMIT < w.now - (w.conns c).lastSeen then
        [warnLine ("Client ".toList ++ quoted (clientName (w.conns c))
          ++ " timed out (no activity for 15s)".toList)]
      else []
  | _ => []

/-- What a step from `s` to `s'` logs. -/
def log (k : Settings C Ip D) (s : Server C Ip D) (e : Event C D)
    (s' : Server C Ip D) : List LogLine :=
  match e with
  | .dropped l addr => [dropLine l addr]
  | .accepted l addr => [acceptLine l addr]
  | .acceptFailed l err => [acceptFailedLine l err]
  | .tlsFailed l addr err => [tlsFailedLine l addr err]
  | .tlsTimedOut l addr => [tlsTimedOutLine l addr]
  | .hotkeyReported on =>
      [auditInfo ("input forwarding toggled via hotkey: ".toList
        ++ boolText on)]
  | .shutdown =>
      [infoLine "Shutdown signal received, disconnecting clients...".toList]
  | .writeFailed err =>
      [⟨.error, false, "Failed to send envelope: ".toList ++ err⟩]
  | .control a err => controlLog k s.control err a
  | .file a => KvmFileChannel.log k.files s.files a s'.files

end KvmServerLog
