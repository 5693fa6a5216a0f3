import KvmRs.FrameStreamProofs
import KvmRs.TransferFrameProofs

/-! # The file channel

    `handle_transfer` around the transfer itself: the pairing check, the
    offer, the answers to the peer and the log lines.  Any number of
    connections share the downloads directory; `Channel` is all of them.

    For one connection, `Run` adds the peer's byte stream, of which the
    envelopes are read first and the data afterwards.  `Ok` is the invariant
    of that routine, over all its exits. -/

namespace KvmFileChannel

open Directory KvmEnvelope KvmFileName KvmFraming KvmFrameStream
open KvmTransferFrame
open KvmTransfer hiding Action World step advance
open Transition

/-- Text in a log line. -/
abbrev Text := List Char

def decimal (n : Nat) : Text := Nat.toDigits 10 n

inductive Level where
  | info | warn | error
  deriving DecidableEq

/-- A log line; `audit` marks those of the target `audit`. -/
structure LogLine where
  level : Level
  audit : Bool
  text : Text
  deriving DecidableEq

variable {D : Type}

/-- What does not change while the server runs, and how it writes what is not
    text: addresses, errors of the protocol, percentages, paths. -/
structure Settings (D : Type) where
  sha256 : List UInt8 → List UInt8
  maxFileSize : Nat
  addr : D → Text
  protocolError : ProtocolError → Text
  percent : Nat → Nat → Text
  path : Name → Text

/-- Why a peer is sent away. -/
inductive Refusal where
  | unpaired (fingerprint : String)
  | noPairRequest
  | oversize (id : Uuid)
  deriving DecidableEq

/-- What the peer is told. -/
def Refusal.reply : Refusal → Envelope
  | .unpaired _ =>
      .pairReject "device not paired; pair over the control channel first"
  | .noPairRequest => .error "expected PairRequest"
  | .oversize id => .fileReject id "file exceeds maximum allowed size"

/-- The error that the handler returns, if it is one. -/
def Refusal.err : Refusal → Option Text
  | .unpaired fingerprint =>
      some ("unpaired device attempted file transfer: ".toList
        ++ fingerprint.toList)
  | .noPairRequest => some "expected PairRequest on file channel".toList
  | .oversize _ => none

/-- What a connection does next. -/
inductive Stage where
  /-- Read the `PairRequest`. -/
  | pairing
  /-- Send the `PairAccept`. -/
  | accepting
  /-- Send the refusal and return. -/
  | refusing (why : Refusal)
  /-- Read the `FileOffer`. -/
  | offering
  /-- Go through the phases of the transfer. -/
  | serving
  /-- Send the `FileAccept`. -/
  | announcing
  | returned
  deriving DecidableEq

/-- A connection: the id of its offer, the two offsets of the receiving loop,
    the reason for a rejection, and what was sent. -/
structure Conn where
  stage : Stage
  id : Uuid
  startOffset : Nat
  lastLogBytes : Nat
  reason : String
  sent : List Envelope
  deriving DecidableEq

def Conn.new : Conn where
  stage := .pairing
  id := ⟨Vector.replicate 16 0⟩
  startOffset := 0
  lastLogBytes := 0
  reason := ""
  sent := []

structure Channel (D : Type) where
  files : KvmTransfer.World D
  conns : D → Conn

def Channel.start (D : Type) (dir : Dir Name) : Channel D where
  files := World.start D dir
  conns := fun _ => Conn.new

/-- The phase of a connection's transfer. -/
def Channel.phase (w : Channel D) (d : D) : Phase :=
  (w.files.transfers d).phase

inductive Action (D : Type) where
  /-- The first envelope arrives. -/
  | request (d : D) (e : Envelope)
  /-- The deadline for it passes. -/
  | timeout (d : D)
  /-- The handler sends what it is about to send. -/
  | reply (d : D)
  /-- The envelope after the pairing arrives. -/
  | offer (d : D) (e : Envelope)
  /-- The next step on the directory; if it fails, then with this error. -/
  | advance (d : D) (err : Text)
  /-- A chunk of data arrives and is written. -/
  | chunk (d : D) (bs : List UInt8)
  /-- The read of more data returns no bytes. -/
  | endOfData (d : D)
  /-- The hashing loop reads at most `n` bytes. -/
  | rehash (d : D) (n : Nat)
  /-- A read, write or send fails with this error. -/
  | fail (d : D) (err : Text)
  deriving DecidableEq

/-- `handle_transfer` on the first envelope. -/
def onRequest (paired : List String) (x : Conn) : Envelope → Conn
  | .pairRequest _ fingerprint _ =>
      if fingerprint ∈ paired then { x with stage := .accepting }
      else { x with stage := .refusing (.unpaired fingerprint) }
  | _ => { x with stage := .refusing .noPairRequest }

/-- The handler sends, and goes on or returns. -/
def onReply (x : Conn) : Option Conn :=
  match x.stage with
  | .accepting =>
      some { x with stage := .offering, sent := x.sent ++ [.pairAccept] }
  | .refusing why =>
      some { x with stage := .returned, sent := x.sent ++ [why.reply] }
  | .announcing =>
      some { x with
        stage := .serving
        sent := x.sent ++
          [.fileAccept x.id (UInt64.ofNat x.startOffset)] }
  | _ => none

/-- The fields of a `FileOffer`. -/
def offerOf : Envelope → Option (Uuid × Offer)
  | .fileOffer id name size sha256 =>
      some (id, ⟨name.toList, size.toNat, sha256.toList⟩)
  | _ => none

/-- The size exceeds a non-zero limit. -/
def oversize (maxFileSize size : Nat) : Bool :=
  decide (maxFileSize ≠ 0 ∧ maxFileSize < size)

/-- The connection after a step of the transfer from one phase to the next. -/
def onAdvance (x : Conn) : Phase → Phase → Conn
  | _, .receiving _ _ startOffset =>
      { x with
        stage := .announcing
        startOffset := startOffset
        lastLogBytes := startOffset }
  | .removing, _ =>
      { x with
        stage := .returned
        sent := x.sent ++ [.fileReject x.id x.reason] }
  | .completing _ _, _ =>
      { x with
        stage := .returned
        sent := x.sent ++ [.fileComplete x.id] }
  | _, .ended => { x with stage := .returned }
  | _, _ => x

/-- How many bytes are there between two log lines on the progress. -/
def logThreshold (size : Nat) : Nat := max (min (size / 10) (10 * 1024 * 1024)) 1

/-- The progress is logged after a chunk. -/
def logsProgress (size received lastLogBytes : Nat) : Bool :=
  decide (logThreshold size ≤ received - lastLogBytes)

/-- The bytes received so far. -/
def receivedBytes : Phase → Nat
  | .receiving _ _ received => received
  | _ => 0

/-- The phases in which an operation can fail by itself: neither the search
    for a free name nor the last answer does. -/
def mayFail : Phase → Bool
  | .waiting => false
  | .removing => false
  | .choosing _ => false
  | .completing _ _ => false
  | .ended => false
  | _ => true

section System

variable [DecidableEq D]

def Channel.set (w : Channel D) (d : D) (x : Conn) : Channel D :=
  { w with conns := Function.update w.conns d x }

/-- A step of the transfer while it is being served. -/
def Channel.serve (k : Settings D) (w : Channel D) (d : D)
    (a : KvmTransfer.Action D) (next : KvmTransfer.World D → Conn) :
    Option (Channel D) :=
  if (w.conns d).stage = .serving then
    (KvmTransfer.step k.sha256 k.maxFileSize w.files a).map fun files =>
      { w with files := files }.set d (next files)
  else none

/-- One step of one connection; `paired` are the devices in the config. -/
def step (k : Settings D) (paired : List String) (w : Channel D) :
    Action D → Option (Channel D)
  | .request d e =>
      match (w.conns d).stage with
      | .pairing => some (w.set d (onRequest paired (w.conns d) e))
      | _ => none
  | .timeout d =>
      match (w.conns d).stage with
      | .pairing => some (w.set d { w.conns d with stage := .returned })
      | _ => none
  | .reply d => (onReply (w.conns d)).map (w.set d)
  | .offer d e =>
      match (w.conns d).stage with
      | .offering =>
          match offerOf e with
          | some (id, o) =>
              (KvmTransfer.step k.sha256 k.maxFileSize w.files
                (.offer d o)).map fun files =>
                { w with files := files }.set d
                  { w.conns d with
                    id := id
                    stage :=
                      if oversize k.maxFileSize o.size then
                        .refusing (.oversize id)
                      else .serving }
          | none => some (w.set d { w.conns d with stage := .returned })
      | _ => none
  | .advance d _ =>
      w.serve k d (.advance d) fun files =>
        onAdvance (w.conns d) (w.phase d) (files.transfers d).phase
  | .chunk d bs =>
      let x := w.conns d
      let received := receivedBytes (w.phase d) + bs.length
      w.serve k d (.chunk d bs) fun files =>
        { x with
          lastLogBytes :=
            if logsProgress (files.transfers d).offer.size received
              x.lastLogBytes then received else x.lastLogBytes }
  | .endOfData d =>
      w.serve k d (.endOfStream d) fun _ =>
        { w.conns d with reason := "transfer incomplete" }
  | .rehash d n =>
      w.serve k d (.read d n) fun _ =>
        { w.conns d with reason := "Checksum mismatch" }
  | .fail d _ =>
      let x := { w.conns d with stage := Stage.returned }
      match (w.conns d).stage with
      | .pairing => some (w.set d x)
      | .accepting => some (w.set d x)
      | .refusing _ => some (w.set d x)
      | .offering => some (w.set d x)
      | .returned => none
      | _ =>
          if mayFail (w.phase d) then
            (KvmTransfer.step k.sha256 k.maxFileSize w.files (.abort d)).map
              fun files => { w with files := files }.set d x
          else none

@[simp] theorem set_conns_self (w : Channel D) (d : D) (x : Conn) :
    (w.set d x).conns d = x :=
  Function.update_self d _ _

theorem serve_some {k : Settings D} {w w' : Channel D} {d : D}
    {a : KvmTransfer.Action D} {next : KvmTransfer.World D → Conn}
    (hs : w.serve k d a next = some w') :
    (w.conns d).stage = .serving ∧
      ∃ files, KvmTransfer.step k.sha256 k.maxFileSize w.files a
          = some files ∧
        w' = { w with files := files }.set d (next files) := by
  rw [Channel.serve] at hs
  split at hs
  · rename_i hst
    obtain ⟨files, hfiles, hw⟩ := Option.map_eq_some_iff.mp hs
    exact ⟨hst, files, hfiles, hw.symm⟩
  · cases hs

end System

/-! ## The log -/

/-- How `FileTransferServer::run` reports the error of a handler. -/
def errorLine (k : Settings D) (d : D) (err : Text) : LogLine where
  level := .error
  audit := false
  text := "File transfer error from ".toList ++ k.addr d ++ ": ".toList ++ err

def infoLine (text : Text) : LogLine := ⟨.info, false, text⟩

def warnLine (text : Text) : LogLine := ⟨.warn, false, text⟩

/-- What a step from `w` to `w'` logs. -/
def log (k : Settings D) (w : Channel D) (a : Action D) (w' : Channel D) :
    List LogLine :=
  match a with
  | .request _ _ => []
  | .timeout d =>
      [errorLine k d
        "timed out waiting for PairRequest on file channel".toList]
  | .reply d =>
      let o := (w.files.transfers d).offer
      match (w.conns d).stage with
      | .refusing why => (why.err.map (errorLine k d)).toList
      | .announcing =>
          [infoLine ("Receiving file '".toList ++ o.safeName ++ "' (".toList
            ++ decimal o.size ++ " bytes)".toList)]
      | _ => []
  | .offer d e =>
      match offerOf e with
      | some (_, o) =>
          if oversize k.maxFileSize o.size then
            [warnLine ("Rejecting '".toList ++ o.safeName ++ "': ".toList
              ++ decimal o.size
              ++ " bytes exceeds the configured limit of ".toList
              ++ decimal k.maxFileSize ++ " bytes".toList)]
          else []
      | none => [errorLine k d "Expected FileOffer".toList]
  | .advance d err =>
      let o := (w.files.transfers d).offer
      match w.phase d, w'.phase d with
      | .removing, _ => []
      | .completing _ _, _ => []
      | _, .resuming offset =>
          [infoLine ("Resuming download for '".toList ++ o.safeName
            ++ "' at offset ".toList ++ decimal offset)]
      | _, .completing dest _ =>
          [infoLine ("File '".toList ++ o.safeName
            ++ "' received and verified -> ".toList ++ k.path dest)]
      | _, .ended => [errorLine k d err]
      | _, _ => []
  | .chunk d bs =>
      let o := (w.files.transfers d).offer
      let received := receivedBytes (w.phase d) + bs.length
      if logsProgress o.size received (w.conns d).lastLogBytes then
        [infoLine ("Receiving '".toList ++ o.safeName ++ "': ".toList
          ++ k.percent received o.size ++ "% (".toList ++ decimal received
          ++ "/".toList ++ decimal o.size ++ ")".toList)]
      else []
  | .endOfData d =>
      let o := (w.files.transfers d).offer
      match w'.phase d with
      | .removing =>
          [warnLine ("File '".toList ++ o.safeName
            ++ "' transfer incomplete (".toList
            ++ decimal (receivedBytes (w.phase d)) ++ "/".toList
            ++ decimal o.size ++ " bytes received)".toList)]
      | _ => []
  | .rehash d _ =>
      match w'.phase d with
      | .removing =>
          [warnLine ("SHA256 checksum mismatch for '".toList
            ++ (w.files.transfers d).offer.safeName ++ "'".toList)]
      | _ => []
  | .fail d err => [errorLine k d err]

/-! ## One connection and its byte stream -/

/-- The routine for one peer, and the chunks of its stream still unread. -/
structure Run where
  channel : Channel Unit
  unread : List (List UInt8)

inductive Move where
  /-- `read_envelope`, for the `PairRequest` or the `FileOffer`. -/
  | readEnvelope
  | timeout
  | reply
  | advance (err : Text)
  /-- Read at most `n` bytes of data. -/
  | receive (n : Nat)
  | endOfData
  | rehash (n : Nat)
  | fail (err : Text)
  deriving DecidableEq

def Run.start (dir : Dir Name) (stream : List (List UInt8)) : Run where
  channel := Channel.start Unit dir
  unread := stream

def Run.conn (s : Run) : Conn := s.channel.conns ()

def Run.dir (s : Run) : Dir Name := s.channel.files.dir

def Run.phase (s : Run) : Phase := s.channel.phase ()

/-- The size that was offered. -/
def Run.size (s : Run) : Nat := (s.channel.files.transfers ()).offer.size

/-- The envelope that was read, or the error. -/
def onRead (k : Settings Unit) (action : Envelope → Action Unit) :
    Except ProtocolError Envelope → Action Unit
  | .ok e => action e
  | .error err => .fail () (k.protocolError err)

/-- The data that a read of at most `n` bytes returns: no more than is
    missing, and no more than has arrived. -/
def Run.available (s : Run) (n : Nat) : List UInt8 :=
  s.unread.flatten.take (min n (s.size - receivedBytes s.phase))

def Run.step (k : Settings Unit) (paired : List String) (s : Run) :
    Move → Option Run
  | .readEnvelope =>
      let read := readEnvelope .fresh s.unread
      match s.conn.stage with
      | .pairing =>
          (KvmFileChannel.step k paired s.channel
            (onRead k (.request ()) read.1)).map fun w => ⟨w, read.2⟩
      | .offering =>
          (KvmFileChannel.step k paired s.channel
            (onRead k (.offer ()) read.1)).map fun w => ⟨w, read.2⟩
      | _ => none
  | .timeout =>
      (KvmFileChannel.step k paired s.channel (.timeout ())).map
        fun w => ⟨w, s.unread⟩
  | .reply =>
      (KvmFileChannel.step k paired s.channel (.reply ())).map
        fun w => ⟨w, s.unread⟩
  | .advance err =>
      (KvmFileChannel.step k paired s.channel (.advance () err)).map
        fun w => ⟨w, s.unread⟩
  | .receive n =>
      let bs := s.available n
      (KvmFileChannel.step k paired s.channel (.chunk () bs)).map
        fun w => ⟨w, [s.unread.flatten.drop bs.length]⟩
  | .endOfData =>
      -- nothing is missing, or the stream has ended
      if receivedBytes s.phase = s.size ∨ s.unread.flatten = [] then
        (KvmFileChannel.step k paired s.channel (.endOfData ())).map
          fun w => ⟨w, s.unread⟩
      else none
  | .rehash n =>
      (KvmFileChannel.step k paired s.channel (.rehash () n)).map
        fun w => ⟨w, s.unread⟩
  | .fail err =>
      (KvmFileChannel.step k paired s.channel (.fail () err)).map
        fun w => ⟨w, s.unread⟩

/-- The offer of a stream that is let in: its first envelope is the
    `PairRequest` of a paired device, its second a `FileOffer`, and the size
    does not exceed a non-zero limit. -/
def admitted (maxFileSize : Nat) (paired : List String)
    (stream : List (List UInt8)) : Option Offer :=
  match readEnvelope .fresh stream with
  | (.ok (.pairRequest _ fingerprint _), behind) =>
      if fingerprint ∈ paired then
        match (readEnvelope .fresh behind).1 with
        | .ok e =>
            match offerOf e with
            | some (_, o) => if oversize maxFileSize o.size then none else some o
            | none => none
        | .error _ => none
      else none
  | _ => none

/-! ## The invariant -/

/-- The stream begins with the request of a paired device. -/
def LetIn (paired : List String) (stream behind : List (List UInt8)) : Prop :=
  ∃ nonce fingerprint proof,
    readEnvelope .fresh stream
      = (.ok (.pairRequest nonce fingerprint proof), behind) ∧
    fingerprint ∈ paired

/-- The offer was let in, and nothing but its transfer has happened. -/
def Admitted (k : Settings Unit) (paired : List String) (dir : Dir Name)
    (stream : List (List UInt8)) (files : KvmTransfer.World Unit) : Prop :=
  ∃ o, admitted k.maxFileSize paired stream = some o ∧
    Inside k.sha256 o dir files ()

/-- What a stage says about the stream and the directory. -/
def StageOk (k : Settings Unit) (paired : List String) (dir : Dir Name)
    (stream : List (List UInt8)) (s : Run) : Prop :=
  match s.conn.stage with
  | .pairing => s.channel.files = World.start Unit dir ∧ s.unread = stream
  | .accepting => s.channel.files = World.start Unit dir ∧
      LetIn paired stream s.unread
  | .offering => s.channel.files = World.start Unit dir ∧
      LetIn paired stream s.unread
  | .refusing _ => s.dir = dir
  | .serving => Admitted k paired dir stream s.channel.files
  | .announcing => Admitted k paired dir stream s.channel.files
  | .returned => s.dir = dir ∨ Admitted k paired dir stream s.channel.files

/-- Neither subtraction of the routine goes below zero: what remains is
    `size - start_offset`, and the progress since the last log line is
    `received_bytes - last_log_bytes`. -/
structure NoUnderflow (s : Run) : Prop where
  startOffset : s.conn.startOffset ≤ s.size
  lastLogBytes : ∀ i mode received, s.phase = .receiving i mode received →
    s.conn.lastLogBytes ≤ received

structure Ok (k : Settings Unit) (paired : List String) (dir : Dir Name)
    (stream : List (List UInt8)) (s : Run) : Prop where
  stage : StageOk k paired dir stream s
  counters : NoUnderflow s

section Steps

variable {k : Settings Unit} {paired : List String} {dir : Dir Name}
  {stream : List (List UInt8)} {s s' : Run}

theorem ok_start (k : Settings Unit) (paired : List String) (dir : Dir Name)
    (stream : List (List UInt8)) :
    Ok k paired dir stream (Run.start dir stream) where
  stage := ⟨rfl, rfl⟩
  counters := by
    refine ⟨Nat.le_refl 0, ?_⟩
    intro i mode received hph
    cases hph

/-- The counters after a step that leaves the transfer alone. -/
theorem NoUnderflow.keep (h : NoUnderflow s)
    (hfiles : s'.channel.files = s.channel.files)
    (hstart : s'.conn.startOffset = s.conn.startOffset)
    (hlast : s'.conn.lastLogBytes = s.conn.lastLogBytes) :
    NoUnderflow s' := by
  refine ⟨?_, ?_⟩
  · rw [hstart, Run.size, hfiles]
    exact h.startOffset
  · intro i mode received hph
    rw [Run.phase, Channel.phase, hfiles] at hph
    rw [hlast]
    exact h.lastLogBytes i mode received hph

/-- A stage in or after the transfer. -/
theorem stageOk_admitted
    (hst : s.conn.stage = .serving ∨ s.conn.stage = .announcing ∨
      s.conn.stage = .returned)
    (h : Admitted k paired dir stream s.channel.files) :
    StageOk k paired dir stream s := by
  rcases hst with hst | hst | hst <;> simp only [StageOk, hst]
  · exact h
  · exact h
  · exact Or.inr h

/-- The stages before an offer is let in. -/
theorem StageOk.early (h : StageOk k paired dir stream s)
    (hst : s.conn.stage ≠ .serving ∧ s.conn.stage ≠ .announcing ∧
      s.conn.stage ≠ .returned) : s.dir = dir := by
  have hfiles : s.channel.files = World.start Unit dir → s.dir = dir := by
    intro hfiles
    rw [Run.dir, hfiles]
    rfl
  rw [StageOk] at h
  cases hcase : s.conn.stage <;> simp only [hcase] at h
  case pairing => exact hfiles h.1
  case accepting => exact hfiles h.1
  case offering => exact hfiles h.1
  case refusing => exact h
  case serving => exact absurd hcase hst.1
  case announcing => exact absurd hcase hst.2.1
  case returned => exact absurd hcase hst.2.2

/-- Whichever the stage, nothing has happened to the directory or the offer
    was let in. -/
theorem StageOk.dir_or_admitted (h : StageOk k paired dir stream s) :
    s.dir = dir ∨ Admitted k paired dir stream s.channel.files := by
  by_cases hst : s.conn.stage ≠ .serving ∧ s.conn.stage ≠ .announcing ∧
      s.conn.stage ≠ .returned
  · exact Or.inl (h.early hst)
  · rw [StageOk] at h
    cases hcase : s.conn.stage <;> simp only [hcase] at h hst
    case serving => exact Or.inr h
    case announcing => exact Or.inr h
    case returned => exact h
    all_goals exact absurd (by simp) hst

theorem onRequest_counters (paired : List String) (x : Conn) (e : Envelope) :
    (onRequest paired x e).startOffset = x.startOffset ∧
      (onRequest paired x e).lastLogBytes = x.lastLogBytes := by
  cases e with
  | pairRequest nonce fingerprint proof =>
      by_cases hin : fingerprint ∈ paired
      · rw [onRequest, if_pos hin]
        exact ⟨rfl, rfl⟩
      · rw [onRequest, if_neg hin]
        exact ⟨rfl, rfl⟩
  | _ => exact ⟨rfl, rfl⟩

/-- The first envelope. -/
theorem ok_request (h : Ok k paired dir stream s)
    (hst : s.conn.stage = .pairing) {e : Envelope}
    {behind : List (List UInt8)}
    (hread : readEnvelope .fresh s.unread = (.ok e, behind)) :
    Ok k paired dir stream
      ⟨s.channel.set () (onRequest paired s.conn e), behind⟩ := by
  have hstage := h.stage
  simp only [StageOk, hst] at hstage
  obtain ⟨hfiles, hunread⟩ := hstage
  have hdir : s.channel.files.dir = dir := by
    rw [hfiles]
    rfl
  rw [hunread] at hread
  refine ⟨?_, h.counters.keep rfl ?_ ?_⟩
  · cases e with
    | pairRequest nonce fingerprint proof =>
        by_cases hin : fingerprint ∈ paired
        · simp only [StageOk, Run.conn, set_conns_self, onRequest, hin,
            if_true]
          exact ⟨hfiles, nonce, fingerprint, proof, hread, hin⟩
        · simp only [StageOk, Run.conn, set_conns_self, onRequest, hin,
            if_false]
          exact hdir
    | _ =>
        simp only [StageOk, Run.conn, set_conns_self, onRequest]
        exact hdir
  · rw [Run.conn, set_conns_self]
    exact (onRequest_counters paired s.conn e).1
  · rw [Run.conn, set_conns_self]
    exact (onRequest_counters paired s.conn e).2

/-- The handler returns before the offer was let in. -/
theorem ok_return (h : Ok k paired dir stream s) (hdir : s.dir = dir)
    (behind : List (List UInt8)) :
    Ok k paired dir stream
      ⟨s.channel.set () { s.conn with stage := .returned }, behind⟩ := by
  refine ⟨?_, h.counters.keep rfl ?_ ?_⟩
  · simp only [StageOk, Run.conn, set_conns_self]
    exact Or.inl hdir
  · rw [Run.conn, set_conns_self]
  · rw [Run.conn, set_conns_self]

/-- The stream that has come so far, and this offer behind it. -/
theorem admitted_eq {behind : List (List UInt8)} {e : Envelope} {id : Uuid}
    {o : Offer} (hin : LetIn paired stream behind)
    (hread : (readEnvelope .fresh behind).1 = .ok e)
    (hoffer : offerOf e = some (id, o))
    (hsize : oversize k.maxFileSize o.size = false) :
    admitted k.maxFileSize paired stream = some o := by
  obtain ⟨nonce, fingerprint, proof, hfirst, hpaired⟩ := hin
  simp only [admitted, hfirst, hpaired, if_true, hread, hoffer, hsize,
    Bool.false_eq_true, if_false]

/-- The envelope after the pairing. -/
theorem ok_offer (h : Ok k paired dir stream s)
    (hst : s.conn.stage = .offering) {e : Envelope}
    {behind : List (List UInt8)}
    (hread : readEnvelope .fresh s.unread = (.ok e, behind))
    {w : Channel Unit}
    (hs : step k paired s.channel (.offer () e) = some w) :
    Ok k paired dir stream ⟨w, behind⟩ := by
  have hstage := h.stage
  simp only [StageOk, hst] at hstage
  obtain ⟨hfiles, hin⟩ := hstage
  have hdir : s.channel.files.dir = dir := by
    rw [hfiles]
    rfl
  have hwaiting : (s.channel.files.transfers ()).phase = .waiting := by
    rw [hfiles]
    rfl
  have hst' : (s.channel.conns ()).stage = .offering := hst
  simp only [step, hst'] at hs
  cases ho : offerOf e with
  | none =>
      simp only [ho] at hs
      rw [← Option.some.inj hs]
      exact ok_return h hdir behind
  | some p =>
      obtain ⟨id, o⟩ := p
      simp only [ho] at hs
      obtain ⟨files, hstep, rfl⟩ := Option.map_eq_some_iff.mp hs
      have hinside := inside_offer hwaiting hstep
      rw [hdir] at hinside
      have hphase : ∀ i mode received,
          (files.transfers ()).phase ≠ .receiving i mode received := by
        intro i mode received hph
        simp only [KvmTransfer.step, hwaiting] at hstep
        rw [← Option.some.inj hstep] at hph
        simp only [Function.update_self] at hph
        split at hph <;> cases hph
      have hzero : s.conn.startOffset ≤ 0 := by
        have hstart := h.counters.startOffset
        rw [Run.size, hfiles] at hstart
        exact hstart
      refine ⟨?_, ?_, ?_⟩
      · cases hover : oversize k.maxFileSize o.size with
        | true =>
            simp only [StageOk, Run.conn, set_conns_self, if_true]
            show files.dir = dir
            simp only [KvmTransfer.step, hwaiting] at hstep
            rw [← Option.some.inj hstep]
            exact hdir
        | false =>
            simp only [StageOk, Run.conn, set_conns_self, Bool.false_eq_true,
              if_false]
            exact ⟨o, admitted_eq hin (congrArg Prod.fst hread) ho hover,
              hinside⟩
      · rw [Run.conn, set_conns_self]
        exact Nat.le_trans hzero (Nat.zero_le _)
      · intro i mode received hph
        exact absurd hph (hphase i mode received)

/-- A transfer comes to be receiving when it has opened its file, or by
    another chunk. -/
theorem step_receiving {w w' : KvmTransfer.World Unit}
    {a : KvmTransfer.Action Unit} {i : Nat} {mode : WriteMode} {received : Nat}
    (hs : KvmTransfer.step k.sha256 k.maxFileSize w a = some w')
    (hph' : (w'.transfers ()).phase = .receiving i mode received) :
    a = .advance () ∨ ∃ bs i' mode' before, a = .chunk () bs ∧
      (w.transfers ()).phase = .receiving i' mode' before ∧
      received = before + bs.length := by
  cases a with
  | advance c => exact Or.inl rfl
  | offer c o =>
      cases hph : (w.transfers ()).phase <;>
        simp only [KvmTransfer.step, hph, reduceCtorEq] at hs
      rw [← Option.some.inj hs] at hph'
      simp only [Function.update_self] at hph'
      split at hph' <;> cases hph'
  | chunk c bs =>
      cases hph : (w.transfers ()).phase <;>
        simp only [KvmTransfer.step, hph, reduceCtorEq] at hs
      split at hs
      · rw [← Option.some.inj hs, goto_self] at hph'
        split at hph'
        · cases hph'
        · cases hph'
          exact Or.inr ⟨bs, _, _, _, rfl, rfl, rfl⟩
      · cases hs
  | endOfStream c =>
      cases hph : (w.transfers ()).phase <;>
        simp only [KvmTransfer.step, hph, reduceCtorEq] at hs
      rw [← Option.some.inj hs, goto_self] at hph'
      split at hph' <;> cases hph'
  | read c n =>
      cases hph : (w.transfers ()).phase <;>
        simp only [KvmTransfer.step, hph, reduceCtorEq] at hs
      split at hs
      · rw [← Option.some.inj hs, goto_self] at hph'
        split at hph'
        · cases hph'
        · split at hph' <;> cases hph'
      · cases hs
  | abort c =>
      have hended : w' = w.goto () .ended := by
        cases hph : (w.transfers ()).phase <;>
          simp only [KvmTransfer.step, hph, reduceCtorEq,
            Option.some.injEq] at hs <;>
          exact hs.symm
      rw [hended, goto_self] at hph'
      cases hph'

/-- A step of the transfer that is served: what is left to show is where the
    connection goes on and how its counters stand. -/
theorem ok_serve {a : KvmTransfer.Action Unit}
    {next : KvmTransfer.World Unit → Conn} {w : Channel Unit}
    (h : Ok k paired dir stream s) (hoffer : ∀ c o, a ≠ .offer c o)
    (hs : s.channel.serve k () a next = some w)
    (hstage : ∀ files, (next files).stage = .serving ∨
      (next files).stage = .announcing ∨ (next files).stage = .returned)
    (hcounters : ∀ files,
      KvmTransfer.step k.sha256 k.maxFileSize s.channel.files a = some files →
      TransferOk k.sha256 files.dir (files.transfers ()) →
      (files.transfers ()).offer.size = s.size →
      (next files).startOffset ≤ s.size ∧
        ∀ i mode received,
          (files.transfers ()).phase = .receiving i mode received →
          (next files).lastLogBytes ≤ received)
    (behind : List (List UInt8)) :
    Ok k paired dir stream ⟨w, behind⟩ := by
  obtain ⟨hst, files, hstep, rfl⟩ := serve_some hs
  have hadm := h.stage
  simp only [StageOk, Run.conn, hst] at hadm
  obtain ⟨o, ho, hin⟩ := hadm
  have hin' := inside_step hin hoffer hstep
  have hsame := offer_step hoffer hstep
  have hsize : (files.transfers ()).offer.size = s.size :=
    congrArg Offer.size hsame
  obtain ⟨hstart, hlast⟩ := hcounters files hstep hin'.ok hsize
  refine ⟨stageOk_admitted ?_ ⟨o, ho, hin'⟩, ?_, ?_⟩
  · rw [Run.conn, set_conns_self]
    exact hstage files
  · rw [Run.conn, set_conns_self]
    exact hstart.trans_eq hsize.symm
  · intro i mode received hph
    rw [Run.conn, set_conns_self]
    exact hlast i mode received hph

theorem onAdvance_stage (x : Conn) (ph ph' : Phase)
    (hx : x.stage = .serving) :
    (onAdvance x ph ph').stage = .serving ∨
      (onAdvance x ph ph').stage = .announcing ∨
      (onAdvance x ph ph').stage = .returned := by
  rw [onAdvance.eq_def]
  split
  · exact Or.inr (Or.inl rfl)
  · exact Or.inr (Or.inr rfl)
  · exact Or.inr (Or.inr rfl)
  · exact Or.inr (Or.inr rfl)
  · exact Or.inl hx

/-- Only opening the file sets the counters. -/
theorem onAdvance_counters (x : Conn) (ph ph' : Phase) :
    (∃ i mode received, ph' = .receiving i mode received ∧
      (onAdvance x ph ph').startOffset = received ∧
      (onAdvance x ph ph').lastLogBytes = received) ∨
    ((∀ i mode received, ph' ≠ .receiving i mode received) ∧
      (onAdvance x ph ph').startOffset = x.startOffset) := by
  by_cases hrec : ∃ i mode received, ph' = .receiving i mode received
  · obtain ⟨i, mode, received, rfl⟩ := hrec
    exact Or.inl ⟨i, mode, received, rfl, rfl, rfl⟩
  · refine Or.inr ⟨?_, ?_⟩
    · intro i mode received hph
      exact hrec ⟨i, mode, received, hph⟩
    · rw [onAdvance.eq_def]
      split
      · exact absurd ⟨_, _, _, rfl⟩ hrec
      all_goals rfl

/-- The steps outside the two loops. -/
theorem ok_advance {err : Text} {w : Channel Unit}
    (h : Ok k paired dir stream s)
    (hs : step k paired s.channel (.advance () err) = some w) :
    Ok k paired dir stream ⟨w, s.unread⟩ := by
  have hst := (serve_some hs).1
  refine ok_serve h (by rintro c o ⟨⟩) hs
    (fun _ => onAdvance_stage _ _ _ hst) ?_ s.unread
  intro files hstep hok hsize
  rcases onAdvance_counters (s.channel.conns ()) (s.channel.phase ())
      (files.transfers ()).phase with
    ⟨i, mode, received, hph, hstart, hlast⟩ | ⟨hno, hstart⟩
  · -- the file is open: both counters start at what it holds
    simp only [TransferOk, hph] at hok
    obtain ⟨bs, -, -, hle, -⟩ := hok
    refine ⟨?_, ?_⟩
    · rw [hstart, ← hsize]
      exact hle
    · intro i' mode' received' hph'
      rw [hlast]
      rw [hph] at hph'
      cases hph'
      exact Nat.le_refl _
  · refine ⟨?_, ?_⟩
    · rw [hstart]
      exact h.counters.startOffset
    · intro i mode received hph
      exact absurd hph (hno i mode received)

/-- A chunk: the progress is counted from the last line at most. -/
theorem ok_chunk {bs : List UInt8} {w : Channel Unit}
    (h : Ok k paired dir stream s)
    (hs : step k paired s.channel (.chunk () bs) = some w)
    (behind : List (List UInt8)) :
    Ok k paired dir stream ⟨w, behind⟩ := by
  have hst := (serve_some hs).1
  refine ok_serve h (by rintro c o ⟨⟩) hs
    (fun _ => Or.inl hst) ?_ behind
  intro files hstep hok hsize
  refine ⟨h.counters.startOffset, ?_⟩
  intro i mode received hph
  rcases step_receiving hstep hph with
    hadv | ⟨bs', i', mode', before, ha, hbefore, hreceived⟩
  · cases hadv
  · cases ha
    have hlast := h.counters.lastLogBytes i' mode' before hbefore
    have hcount : receivedBytes (s.channel.phase ()) = before := by
      rw [Channel.phase, hbefore]
      rfl
    simp only [hcount]
    split
    · exact Nat.le_of_eq hreceived.symm
    · exact hlast.trans (hreceived ▸ Nat.le_add_right before bs.length)

/-- The other steps of the transfer leave the receiving loop. -/
theorem ok_leave {a : KvmTransfer.Action Unit}
    {next : KvmTransfer.World Unit → Conn} {w : Channel Unit}
    (h : Ok k paired dir stream s) (hoffer : ∀ c o, a ≠ .offer c o)
    (hadv : a ≠ .advance ()) (hchunk : ∀ bs, a ≠ .chunk () bs)
    (hs : s.channel.serve k () a next = some w)
    (hstage : ∀ files, (next files).stage = .serving)
    (hstart : ∀ files, (next files).startOffset = s.conn.startOffset)
    (behind : List (List UInt8)) :
    Ok k paired dir stream ⟨w, behind⟩ := by
  refine ok_serve h hoffer hs (fun files => Or.inl (hstage files)) ?_ behind
  intro files hstep _ _
  refine ⟨?_, ?_⟩
  · rw [hstart]
    exact h.counters.startOffset
  · intro i mode received hph
    rcases step_receiving hstep hph with ha | ⟨bs, -, -, -, ha, -, -⟩
    · exact absurd ha hadv
    · exact absurd ha (hchunk bs)

theorem ok_reply {w : Channel Unit} (h : Ok k paired dir stream s)
    (hs : step k paired s.channel (.reply ()) = some w) :
    Ok k paired dir stream ⟨w, s.unread⟩ := by
  obtain ⟨x, hx, rfl⟩ := Option.map_eq_some_iff.mp hs
  have hstage := h.stage
  rw [StageOk] at hstage
  have hcases : ∃ st es, x = { s.conn with stage := st, sent := es } ∧
      ((s.conn.stage = .accepting ∧ st = .offering) ∨
        ((∃ why, s.conn.stage = .refusing why) ∧ st = .returned) ∨
        (s.conn.stage = .announcing ∧ st = .serving)) := by
    rw [onReply] at hx
    split at hx
    · rename_i hst
      exact ⟨_, _, (Option.some.inj hx).symm, Or.inl ⟨hst, rfl⟩⟩
    · rename_i hst
      exact ⟨_, _, (Option.some.inj hx).symm, Or.inr (Or.inl ⟨⟨_, hst⟩, rfl⟩)⟩
    · rename_i hst
      exact ⟨_, _, (Option.some.inj hx).symm, Or.inr (Or.inr ⟨hst, rfl⟩)⟩
    · cases hx
  obtain ⟨st, es, rfl, hnext⟩ := hcases
  refine ⟨?_, h.counters.keep rfl ?_ ?_⟩
  · rcases hnext with ⟨hst, rfl⟩ | ⟨⟨why, hst⟩, rfl⟩ | ⟨hst, rfl⟩
    · simp only [hst] at hstage
      simp only [StageOk, Run.conn, set_conns_self]
      exact hstage
    · simp only [hst] at hstage
      simp only [StageOk, Run.conn, set_conns_self]
      exact Or.inl hstage
    · simp only [hst] at hstage
      simp only [StageOk, Run.conn, set_conns_self]
      exact hstage
  · rw [Run.conn, set_conns_self]
  · rw [Run.conn, set_conns_self]

/-- An error ends the routine where it is. -/
theorem ok_fail {err : Text} {w : Channel Unit}
    (h : Ok k paired dir stream s)
    (hs : step k paired s.channel (.fail () err) = some w)
    (behind : List (List UInt8)) :
    Ok k paired dir stream ⟨w, behind⟩ := by
  -- outside the transfer the handler just returns
  have hearly : s.dir = dir →
      some (s.channel.set () { s.conn with stage := .returned }) = some w →
      Ok k paired dir stream ⟨w, behind⟩ := by
    intro hdir hw
    rw [← Option.some.inj hw]
    exact ok_return h hdir behind
  -- inside it the transfer is given up
  have habort : Admitted k paired dir stream s.channel.files →
      (if mayFail (s.channel.phase ()) then
        (KvmTransfer.step k.sha256 k.maxFileSize s.channel.files
          (.abort ())).map fun files =>
            { s.channel with files := files }.set ()
              { s.conn with stage := .returned }
        else none) = some w →
      Ok k paired dir stream ⟨w, behind⟩ := by
    rintro ⟨o, ho, hin⟩ hw
    split at hw
    · obtain ⟨files, hstep, rfl⟩ := Option.map_eq_some_iff.mp hw
      have hin' := inside_step hin (by rintro c o ⟨⟩) hstep
      have hsame := offer_step (by rintro c o ⟨⟩) hstep
      have hsize : (files.transfers ()).offer.size = s.size :=
        congrArg Offer.size hsame
      refine ⟨stageOk_admitted ?_ ⟨o, ho, hin'⟩, ?_, ?_⟩
      · rw [Run.conn, set_conns_self]
        exact Or.inr (Or.inr rfl)
      · rw [Run.conn, set_conns_self]
        exact h.counters.startOffset.trans_eq hsize.symm
      · intro i mode received hph
        rcases step_receiving hstep hph with ha | ⟨bs, -, -, -, ha, -, -⟩ <;>
          cases ha
    · cases hw
  have hstage := h.stage
  simp only [step] at hs
  cases hst : (s.channel.conns ()).stage <;> simp only [hst] at hs
  case serving =>
      simp only [StageOk, Run.conn, hst] at hstage
      exact habort hstage hs
  case announcing =>
      simp only [StageOk, Run.conn, hst] at hstage
      exact habort hstage hs
  case returned => cases hs
  all_goals
    refine hearly (hstage.early ?_) hs
    rw [Run.conn, hst]
    refine ⟨?_, ?_, ?_⟩ <;> rintro ⟨⟩

/-- **ONE STEP** of the routine, whatever the stream and the reads. -/
theorem ok_step (s : Run) (m : Move) (s' : Run)
    (h : Ok k paired dir stream s) (hs : Run.step k paired s m = some s') :
    Ok k paired dir stream s' := by
  cases m with
  | readEnvelope =>
      have hread : readEnvelope .fresh s.unread
          = ((readEnvelope .fresh s.unread).1,
            (readEnvelope .fresh s.unread).2) := rfl
      simp only [Run.step] at hs
      split at hs
      · rename_i hst
        obtain ⟨w, hw, rfl⟩ := Option.map_eq_some_iff.mp hs
        cases hr : (readEnvelope .fresh s.unread).1 with
        | error err =>
            rw [hr] at hw
            exact ok_fail h hw _
        | ok e =>
            rw [hr] at hw hread
            have hst' : (s.channel.conns ()).stage = .pairing := hst
            simp only [onRead, step, hst'] at hw
            rw [← Option.some.inj hw]
            exact ok_request h hst hread
      · rename_i hst
        obtain ⟨w, hw, rfl⟩ := Option.map_eq_some_iff.mp hs
        cases hr : (readEnvelope .fresh s.unread).1 with
        | error err =>
            rw [hr] at hw
            exact ok_fail h hw _
        | ok e =>
            rw [hr] at hw hread
            exact ok_offer h hst hread hw
      · cases hs
  | timeout =>
      obtain ⟨w, hw, rfl⟩ := Option.map_eq_some_iff.mp hs
      simp only [step] at hw
      split at hw
      · rename_i hst
        have hearly : s.dir = dir := by
          refine h.stage.early ?_
          rw [Run.conn, hst]
          refine ⟨?_, ?_, ?_⟩ <;> rintro ⟨⟩
        rw [← Option.some.inj hw]
        exact ok_return h hearly s.unread
      · cases hw
  | reply =>
      obtain ⟨w, hw, rfl⟩ := Option.map_eq_some_iff.mp hs
      exact ok_reply h hw
  | advance err =>
      obtain ⟨w, hw, rfl⟩ := Option.map_eq_some_iff.mp hs
      exact ok_advance h hw
  | receive n =>
      obtain ⟨w, hw, rfl⟩ := Option.map_eq_some_iff.mp hs
      exact ok_chunk h hw _
  | endOfData =>
      simp only [Run.step] at hs
      split at hs
      · obtain ⟨w, hw, rfl⟩ := Option.map_eq_some_iff.mp hs
        have hst := (serve_some hw).1
        exact ok_leave h (by rintro c o ⟨⟩) (by rintro ⟨⟩) (by rintro bs ⟨⟩)
          hw (fun _ => hst) (fun _ => rfl) s.unread
      · cases hs
  | rehash n =>
      obtain ⟨w, hw, rfl⟩ := Option.map_eq_some_iff.mp hs
      have hst := (serve_some hw).1
      exact ok_leave h (by rintro c o ⟨⟩) (by rintro ⟨⟩) (by rintro bs ⟨⟩)
        hw (fun _ => hst) (fun _ => rfl) s.unread
  | fail err =>
      obtain ⟨w, hw, rfl⟩ := Option.map_eq_some_iff.mp hs
      exact ok_fail h hw _

end Steps

/-- **WHAT A PEER CAN DO TO THE DIRECTORY**: for every SHA-256, limit, list of
    paired devices, directory and byte stream, and at any time of the routine,
    a stream that is not let in has changed nothing; one that is let in has
    changed at most the `.part` file, which is not longer than offered, and
    one name that was free, which is a file of the offered size and hash; and
    no subtraction has gone below zero.  The directory is one of plain files,
    without links. -/
theorem transfer_confined (k : Settings Unit) (paired : List String)
    (dir : Dir Name) (stream : List (List UInt8)) (moves : List Move)
    (s : Run)
    (hrun : exec (Run.step k paired) (Run.start dir stream) moves = some s) :
    (admitted k.maxFileSize paired stream = none →
      ∀ n, s.dir.entry n = dir.entry n) ∧
    (∀ o, admitted k.maxFileSize paired stream = some o →
      Confined k.sha256 o dir s.dir) ∧
    NoUnderflow s := by
  have h : Ok k paired dir stream s :=
    invariant_reachable ok_step moves _ s (ok_start k paired dir stream) hrun
  refine ⟨?_, ?_, h.counters⟩
  · intro hnone n
    rcases h.stage.dir_or_admitted with hdir | ⟨o, ho, -⟩
    · rw [hdir]
    · rw [hnone] at ho
      cases ho
  · intro o ho
    rcases h.stage.dir_or_admitted with hdir | ⟨o', ho', hin⟩
    · rw [hdir]
      exact confined_refl k.sha256 o dir
    · rw [ho] at ho'
      cases ho'
      exact hin.confined

/-! ## A file of one byte -/

/-- A server without a limit; SHA-256 is `sha256OfA`. -/
def settingsA : Settings Unit where
  sha256 := sha256OfA
  maxFileSize := 0
  addr := fun _ => "10.0.0.7".toList
  protocolError := fun _ => "I/O error".toList
  percent := fun _ _ => "100.0".toList
  path := fun n => "./downloads/".toList ++ n

/-- The request of the device `AA` and the offer of the file `"a"`, in one
    piece, then the file. -/
def streamA : List (List UInt8) :=
  [frame (.pairRequest (Vector.replicate 16 0) "AA" (Vector.replicate 32 0))
    ++ frame (.fileOffer ⟨Vector.replicate 16 0⟩ "a" 1
      #v[0xca, 0x97, 0x81, 0x12, 0xca, 0x1b, 0xbd, 0xca, 0xfa, 0xc2, 0x31,
        0xb3, 0x9a, 0x23, 0xdc, 0x4d, 0xa7, 0x86, 0xef, 0xf8, 0x14, 0x7c,
        0x4f, 0x72, 0xb9, 0x80, 0x77, 0x85, 0xaf, 0xee, 0x48, 0xbb]),
    [0x61]]

/-- A directory with an empty `a`, and an `a.part` of two bytes. -/
def dirA : Dir Name :=
  ((Dir.empty.create "a".toList).1.create "a.part".toList).1.append 1 [1, 2]

/-- The `.part` file is truncated, the byte received, and the file stored
    beside the one of its name. -/
def movesA : List Move :=
  [.readEnvelope, .reply, .readEnvelope, .advance [], .advance [],
    .advance [], .reply, .receive 9, .advance [], .rehash 9, .rehash 9,
    .advance [], .advance [], .advance [], .advance []]

theorem transfer_confined_one_byte :
    ∃ s, exec (Run.step settingsA ["AA"]) (Run.start dirA streamA) movesA
        = some s ∧
      Confined sha256OfA (offerA "a".toList) dirA s.dir ∧ NoUnderflow s ∧
      s.dir.read "a (1)".toList = some [0x61] ∧
      s.dir.read "a".toList = some [] ∧ s.dir.read "a.part".toList = none := by
  have hrun : (exec (Run.step settingsA ["AA"]) (Run.start dirA streamA)
      movesA).map (fun s => (s.dir.read "a (1)".toList, s.dir.read "a".toList,
        s.dir.read "a.part".toList))
      = some (some [0x61], some [], none) := by
    decide +kernel
  obtain ⟨s, hs, hv⟩ := Option.map_eq_some_iff.mp hrun
  obtain ⟨hnew, hrest⟩ := Prod.mk.inj hv
  obtain ⟨hold, hpart⟩ := Prod.mk.inj hrest
  obtain ⟨-, hconfined, hcounters⟩ :=
    transfer_confined settingsA ["AA"] dirA streamA movesA s hs
  exact ⟨s, hs, hconfined _ (by decide +kernel), hcounters, hnew, hold, hpart⟩

end KvmFileChannel
