import KvmRs.ClientConfigProofs
import KvmRs.RevokeProofs
import KvmRs.TransferProofs

/-! # An upload, end to end

    `send_file` of the client against `handle_transfer` of the server, over
    one stream and with no other transfer.  The two sides take turns in any
    order; every read, of the file, of the stream or of the `.part` file,
    returns as many bytes as it likes, up to its buffer.  The TLS stream takes
    all that the client writes, but holds a tail of it back when the socket
    would block; `send_envelope` flushes, the loop that sends the file does
    not.

    The server resumes a `.part` file that is shorter than the offer and
    truncates any other one (`Upload.kept`), so what it hashes in the end is
    `Upload.assembled`.  The invariant `Agree` ties both sides to that, byte
    by byte. -/

namespace KvmUpload

open Directory KvmAuth KvmClientConfig KvmEnvelope KvmFileName KvmRevoke
open KvmTransfer hiding Action step advance
open Transition

/-- What an upload depends on: the client's file and credentials, and the
    server's paired devices and limit. -/
structure Upload where
  sha256 : List UInt8 → Vector UInt8 32
  config : Config
  nonce : Vector UInt8 16
  fileName : List Char
  file : List UInt8
  paired : Finset String
  maxFileSize : Nat

def Upload.digest (u : Upload) (bytes : List UInt8) : List UInt8 :=
  (u.sha256 bytes).toList

/-- The client's `FileOffer`, once it has hashed these bytes. -/
def Upload.offerOf (u : Upload) (hashed : List UInt8) : Offer where
  name := u.fileName
  size := u.file.length
  sha256 := u.digest hashed

/-- The client's `PairRequest` on the file channel: an empty PIN will do. -/
def Upload.pairRequest (u : Upload) : Envelope :=
  let fingerprint := u.config.clientFingerprint u.sha256
  .pairRequest u.nonce fingerprint
    (pairingProof u.sha256 "" u.nonce fingerprint)

/-- The server's answers after the pairing. -/
inductive Reply where
  | fileAccept (startOffset : Nat)
  | fileReject (reason : List Char)
  | fileComplete
  deriving DecidableEq

/-- What `send_file` does next. -/
inductive Client where
  /-- Pair on the file channel. -/
  | pairing
  /-- Read the file for its hash; `acc` has been hashed. -/
  | hashing (acc : List UInt8)
  /-- Wait for the answer to the offer. -/
  | offered
  /-- Read the file from here on and send it. -/
  | sending (sentBytes : Nat)
  /-- Wait for the verdict. -/
  | awaiting
  | done
  | failed (msg : List Char)
  deriving DecidableEq

/-- `send_file` has returned. -/
def Client.returned : Client → Bool
  | .done => true
  | .failed _ => true
  | _ => false

/-- Both sides, the bytes on their way to the server and those that the
    client's TLS stream has not yet given to the socket, all that the server
    has answered, and why it is about to reject. -/
structure State where
  client : Client
  server : World Unit
  stream : List UInt8
  held : List UInt8
  replies : List Reply
  reason : List Char

def start (dir : Dir Name) : State where
  client := .pairing
  server := World.start Unit dir
  stream := []
  held := []
  replies := []
  reason := []

/-- What a TLS stream holds back at most when the socket would block: 64 KiB
    of records, and the 16 KiB of a record of which only a part has gone
    out, since the server can read none of it. -/
def BUFFER_LIMIT : Nat := 65536 + 16384

inductive Action where
  /-- The client pairs. -/
  | pair
  /-- The client reads at most `n` bytes for its hash; at the end of the file
      it sends the offer. -/
  | hash (n : Nat)
  /-- The client reads the answer to the offer. -/
  | readAnswer
  /-- The client reads at most `n` bytes and writes them; of all it was given
      the TLS stream holds the last `kept` bytes back. -/
  | send (n kept : Nat)
  /-- The client reads the verdict. -/
  | readVerdict
  /-- The server's next step outside its loops. -/
  | advance
  /-- The server reads at most `n` bytes from the stream. -/
  | receive (n : Nat)
  /-- The server's read from the stream returns no bytes. -/
  | endOfData
  /-- The server reads at most `n` bytes back for its hash. -/
  | rehash (n : Nat)
  deriving DecidableEq

/-- The steps of `send_file`. -/
def ofClient : Action → Bool
  | .pair => true
  | .hash _ => true
  | .readAnswer => true
  | .send _ _ => true
  | .readVerdict => true
  | _ => false

/-- The answer on the file channel. -/
def onPairReply : Envelope → Client
  | .pairAccept => .hashing []
  | .pairReject reason =>
      .failed ("file channel rejected: ".toList ++ reason.toList)
  | _ => .failed "unexpected response on file channel".toList

/-- A `FileReject`, in either place. -/
def rejected (u : Upload) (reason : List Char) : Client :=
  .failed ("server rejected file '".toList ++ u.fileName ++ "': ".toList
    ++ reason)

def onAnswer (u : Upload) : Reply → Client
  | .fileAccept startOffset => .sending startOffset
  | .fileReject reason => rejected u reason
  | .fileComplete => .failed "unexpected response from server".toList

def onVerdict (u : Upload) : Reply → Client
  | .fileComplete => .done
  | .fileReject reason => rejected u reason
  | .fileAccept _ => .failed "unexpected response from server".toList

/-- The server's phase. -/
def State.phase (s : State) : Phase := (s.server.transfers ()).phase

/-- What the server answers to the offer itself. -/
def offerReply (w : World Unit) : List Reply :=
  match (w.transfers ()).phase with
  | .ended => [.fileReject "file exceeds maximum allowed size".toList]
  | _ => []

/-- What the server sends along with a step from one phase to the next. -/
def advanceReply (reason : List Char) : Phase → Phase → List Reply
  | .removing, _ => [.fileReject reason]
  | .completing _ _, _ => [.fileComplete]
  | _, .receiving _ _ startOffset => [.fileAccept startOffset]
  | _, _ => []

/-- The size the server was offered. -/
def State.size (s : State) : Nat := (s.server.transfers ()).offer.size

/-- The server's read of at most `n` bytes, limited to what is missing. -/
def State.available (s : State) (n received : Nat) : List UInt8 :=
  s.stream.take (min n (s.size - received))

def step (u : Upload) (s : State) : Action → Option State
  | .pair =>
      match s.client with
      | .pairing =>
          some { s with
            client := onPairReply (onFilePairRequest u.paired u.pairRequest).1 }
      | _ => none
  | .hash n =>
      match s.client with
      | .hashing acc =>
          if 0 < n ∧ n ≤ CHUNK_SIZE then
            let bs := (u.file.drop acc.length).take n
            if bs ≠ [] then some { s with client := .hashing (acc ++ bs) }
            else
              -- the end of the file: the offer goes out
              (KvmTransfer.step u.digest u.maxFileSize s.server
                (.offer () (u.offerOf acc))).map fun w =>
                { s with
                  client := .offered
                  server := w
                  replies := s.replies ++ offerReply w }
          else none
      | _ => none
  | .readAnswer =>
      match s.client, s.replies[0]? with
      | .offered, some r => some { s with client := onAnswer u r }
      | _, _ => none
  | .send n kept =>
      match s.client with
      | .sending sentBytes =>
          if 0 < n ∧ n ≤ CHUNK_SIZE ∧ kept ≤ BUFFER_LIMIT then
            let bs := (u.file.drop sentBytes).take n
            if bs ≠ [] then
              -- `write_all` returns once the TLS stream has taken everything
              let given := s.held ++ bs
              some { s with
                client := .sending (sentBytes + bs.length)
                stream := s.stream ++ given.take (given.length - kept)
                held := given.drop (given.length - kept) }
            -- the end of the file, whatever the server has read by now; there
            -- is no flush, and no later read writes what is held back
            else some { s with client := .awaiting }
          else none
      | _ => none
  | .readVerdict =>
      match s.client, s.replies[1]? with
      | .awaiting, some r => some { s with client := onVerdict u r }
      | _, _ => none
  | .advance =>
      (KvmTransfer.advance s.server ()).map fun w =>
        { s with
          server := w
          replies := s.replies ++
            advanceReply s.reason s.phase (w.transfers ()).phase }
  | .receive n =>
      match s.phase with
      | .receiving _ _ received =>
          if 0 < n ∧ n ≤ CHUNK_SIZE then
            let bs := s.available n received
            (KvmTransfer.step u.digest u.maxFileSize s.server
              (.chunk () bs)).map fun w =>
              { s with server := w, stream := s.stream.drop bs.length }
          else none
      | _ => none
  | .endOfData =>
      match s.phase with
      | .receiving _ _ received =>
          -- nothing is missing any more, or the client has hung up
          if received = s.size ∨
              (s.stream = [] ∧ s.client.returned = true) then
            (KvmTransfer.step u.digest u.maxFileSize s.server
              (.endOfStream ())).map fun w =>
              { s with server := w, reason := "transfer incomplete".toList }
          else none
      | _ => none
  | .rehash n =>
      (KvmTransfer.step u.digest u.maxFileSize s.server (.read () n)).map
        fun w => { s with server := w, reason := "Checksum mismatch".toList }

/-! ## What a step of the client can do -/

section Inversion

variable {u : Upload} {s s' : State}

theorem pair_cases (hs : step u s .pair = some s') :
    s.client = .pairing ∧ s' = { s with
      client := onPairReply (onFilePairRequest u.paired u.pairRequest).1 } := by
  cases hc : s.client <;> simp only [step, hc, reduceCtorEq] at hs
  exact ⟨rfl, (Option.some.inj hs).symm⟩

/-- More of the file is hashed, or all of it was and the offer goes out. -/
theorem hash_cases {n : Nat} (hs : step u s (.hash n) = some s') :
    ∃ acc bs, s.client = .hashing acc ∧ 0 < n ∧
      (u.file.drop acc.length).take n = bs ∧
      ((bs ≠ [] ∧ s' = { s with client := .hashing (acc ++ bs) }) ∨
        (bs = [] ∧ ∃ w, KvmTransfer.step u.digest u.maxFileSize s.server
          (.offer () (u.offerOf acc)) = some w ∧ s' = { s with
            client := .offered
            server := w
            replies := s.replies ++ offerReply w })) := by
  cases hc : s.client <;> simp only [step, hc, reduceCtorEq] at hs
  rename_i acc
  split at hs
  · rename_i hn
    refine ⟨acc, _, rfl, hn.1, rfl, ?_⟩
    split at hs
    · rename_i hmore
      exact Or.inl ⟨hmore, (Option.some.inj hs).symm⟩
    · rename_i hend
      obtain ⟨w, hw, rfl⟩ := Option.map_eq_some_iff.mp hs
      exact Or.inr ⟨not_not.mp hend, w, hw, rfl⟩
  · cases hs

theorem readAnswer_cases (hs : step u s .readAnswer = some s') :
    ∃ r, s.client = .offered ∧ s.replies[0]? = some r ∧
      s' = { s with client := onAnswer u r } := by
  cases hc : s.client <;> simp only [step, hc, reduceCtorEq] at hs
  split at hs
  · rename_i r _ hr
    exact ⟨r, rfl, hr, (Option.some.inj hs).symm⟩
  · cases hs

/-- More of the file is written, or all of it was and the client goes on to
    wait. -/
theorem send_cases {n kept : Nat} (hs : step u s (.send n kept) = some s') :
    ∃ sentBytes bs, s.client = .sending sentBytes ∧
      (u.file.drop sentBytes).take n = bs ∧
      ((bs ≠ [] ∧ s' = { s with
          client := .sending (sentBytes + bs.length)
          stream := s.stream ++
            (s.held ++ bs).take ((s.held ++ bs).length - kept)
          held := (s.held ++ bs).drop ((s.held ++ bs).length - kept) }) ∨
        (bs = [] ∧ u.file.length ≤ sentBytes ∧
          s' = { s with client := .awaiting })) := by
  cases hc : s.client <;> simp only [step, hc, reduceCtorEq] at hs
  rename_i sentBytes
  split at hs
  · rename_i hn
    refine ⟨sentBytes, _, rfl, rfl, ?_⟩
    split at hs
    · rename_i hmore
      exact Or.inl ⟨hmore, (Option.some.inj hs).symm⟩
    · rename_i hend
      refine Or.inr ⟨not_not.mp hend, ?_, (Option.some.inj hs).symm⟩
      -- a read that returns nothing is one at the end of the file
      rcases List.take_eq_nil_iff.mp (not_not.mp hend) with h0 | hdrop
      · omega
      · exact List.drop_eq_nil_iff.mp hdrop
  · cases hs

theorem readVerdict_cases (hs : step u s .readVerdict = some s') :
    ∃ r, s.client = .awaiting ∧ s.replies[1]? = some r ∧
      s' = { s with client := onVerdict u r } := by
  cases hc : s.client <;> simp only [step, hc, reduceCtorEq] at hs
  split at hs
  · rename_i r _ hr
    exact ⟨r, rfl, hr, (Option.some.inj hs).symm⟩
  · cases hs

end Inversion

/-! ## What the server will have -/

def Upload.offer (u : Upload) : Offer := u.offerOf u.file

def Upload.part (u : Upload) : Name := u.offer.part

/-- What the server keeps of the `.part` file that was there before. -/
def Upload.kept (u : Upload) (d : Dir Name) : List UInt8 :=
  match d.read u.part with
  | some old => if old.length < u.file.length then old else []
  | none => []

/-- What the `.part` file holds when everything has arrived. -/
def Upload.assembled (u : Upload) (d : Dir Name) : List UInt8 :=
  u.kept d ++ u.file.drop (u.kept d).length

section Assembled

variable {u : Upload} {d : Dir Name}

theorem kept_length_le : (u.kept d).length ≤ u.file.length := by
  rw [Upload.kept]
  split
  · split
    · rename_i h
      exact Nat.le_of_lt h
    · exact Nat.zero_le _
  · exact Nat.zero_le _

/-- Only a file of no bytes can be kept whole. -/
theorem kept_length_lt (hne : u.file ≠ []) :
    (u.kept d).length < u.file.length := by
  have hpos := List.length_pos_of_ne_nil hne
  rw [Upload.kept]
  split
  · split
    · assumption
    · exact hpos
  · exact hpos

theorem assembled_length : (u.assembled d).length = u.file.length := by
  have hle := @kept_length_le u d
  rw [Upload.assembled, List.length_append, List.length_drop]
  omega

theorem assembled_take_kept :
    (u.assembled d).take (u.kept d).length = u.kept d := by
  rw [Upload.assembled, List.take_left]

/-- Behind what was kept comes the file. -/
theorem assembled_drop {r : Nat} (hr : (u.kept d).length ≤ r) :
    (u.assembled d).drop r = u.file.drop r := by
  rw [Upload.assembled, List.drop_append, List.drop_eq_nil_of_le hr,
    List.nil_append, List.drop_drop]
  congr 1
  omega

/-- What is assembled is the file exactly if what was kept is a prefix. -/
theorem assembled_eq_iff : u.assembled d = u.file ↔ u.kept d <+: u.file := by
  rw [Upload.assembled]
  constructor
  · intro h
    exact ⟨_, h⟩
  · rintro ⟨rest, hrest⟩
    rw [← hrest, List.drop_left]

end Assembled

/-! ## The invariant -/

/-- The `.part` file is there with these bytes, and nothing else has
    changed. -/
structure Holds (u : Upload) (d : Dir Name) (w : World Unit) (inode : Nat)
    (bytes : List UInt8) : Prop where
  offer : (w.transfers ()).offer = u.offer
  entry : w.dir.entry u.part = some (inode, bytes)
  frame : ∀ m, m ≠ u.part → w.dir.entry m = d.entry m
  next : w.dir.next ≤ d.next + 1

/-- The offer is there and nothing has been done about it. -/
structure Untouched (u : Upload) (d : Dir Name) (w : World Unit)
    (stream : List UInt8) (replies : List Reply) : Prop where
  offer : (w.transfers ()).offer = u.offer
  dir : w.dir = d
  stream : stream = []
  replies : replies = []

/-- Everything has arrived. -/
structure Arrived (u : Upload) (d : Dir Name) (sent : Nat)
    (stream : List UInt8) (replies : List Reply) : Prop where
  sent : sent = u.file.length
  stream : stream = []
  replies : replies = [.fileAccept (u.kept d).length]

/-- The file is at a path that was free. -/
def Stored (u : Upload) (d d' : Dir Name) : Prop :=
  ∃ dest, d.read dest = none ∧ d'.read dest = some u.file

/-- The server's side, when the file has gone to the socket up to `sent`. -/
def ServerOk (u : Upload) (d : Dir Name) (sent : Nat) (w : World Unit)
    (stream : List UInt8) (replies : List Reply) : Prop :=
  match (w.transfers ()).phase with
  | .waiting => w.dir = d ∧ stream = [] ∧ replies = []
  | .checking => Untouched u d w stream replies
  | .sizing => Untouched u d w stream replies ∧ d.exists u.part = true
  | .resuming offset => Untouched u d w stream replies ∧
      offset = (u.kept d).length ∧ ∃ i, d.entry u.part = some (i, u.kept d)
  | .creating => Untouched u d w stream replies ∧ u.kept d = []
  | .receiving i mode received =>
      Holds u d w i ((u.assembled d).take received) ∧
      (u.kept d).length ≤ received ∧ received ≤ sent ∧
      (mode = .append ∨ mode = .at received) ∧
      stream = (u.file.drop received).take (sent - received) ∧
      replies = [.fileAccept (u.kept d).length]
  | .removing => Arrived u d sent stream replies ∧
      (∃ i, Holds u d w i (u.assembled d)) ∧ u.assembled d ≠ u.file
  | .verifying => Arrived u d sent stream replies ∧
      ∃ i, Holds u d w i (u.assembled d)
  | .hashing i acc => Arrived u d sent stream replies ∧
      Holds u d w i (u.assembled d) ∧ acc <+: u.assembled d
  | .choosing k => Arrived u d sent stream replies ∧
      (∃ i, Holds u d w i (u.assembled d)) ∧ u.assembled d = u.file ∧
      ∀ j < k, w.dir.exists (candidateName u.offer.safeName j) = true
  | .promoting dest => Arrived u d sent stream replies ∧
      (∃ i, Holds u d w i (u.assembled d)) ∧ u.assembled d = u.file ∧
      w.dir.entry dest = none
  | .completing dest _ => Arrived u d sent stream replies ∧
      d.read dest = none ∧ w.dir.read dest = some u.file ∧
      u.assembled d = u.file
  | .ended => sent = u.file.length ∧
      ((replies = [.fileAccept (u.kept d).length, .fileComplete] ∧
          Stored u d w.dir ∧ u.assembled d = u.file) ∨
        ((∃ reason, replies
            = [.fileAccept (u.kept d).length, .fileReject reason]) ∧
          w.dir.read u.part = none ∧ u.assembled d ≠ u.file))

section Replies

variable {u : Upload} {d : Dir Name} {sent : Nat} {w : World Unit}
  {stream : List UInt8} {replies : List Reply}

/-- What the server has answered at any time. -/
theorem ServerOk.replies_cases (h : ServerOk u d sent w stream replies) :
    replies = [] ∨ replies = [.fileAccept (u.kept d).length] ∨
      replies = [.fileAccept (u.kept d).length, .fileComplete] ∨
      ∃ reason, replies
        = [.fileAccept (u.kept d).length, .fileReject reason] := by
  simp only [ServerOk] at h
  cases hph : (w.transfers ()).phase <;> simp only [hph] at h
  case waiting => exact Or.inl h.2.2
  case checking => exact Or.inl h.replies
  case sizing => exact Or.inl h.1.replies
  case resuming => exact Or.inl h.1.replies
  case creating => exact Or.inl h.1.replies
  case receiving => exact Or.inr (Or.inl h.2.2.2.2.2)
  case ended =>
      rcases h.2 with ⟨hr, -⟩ | ⟨hr, -⟩
      · exact Or.inr (Or.inr (Or.inl hr))
      · exact Or.inr (Or.inr (Or.inr hr))
  all_goals exact Or.inr (Or.inl h.1.replies)

/-- The answer to the offer accepts what was kept. -/
theorem ServerOk.answer (h : ServerOk u d sent w stream replies) {r : Reply}
    (hr : replies[0]? = some r) : r = .fileAccept (u.kept d).length := by
  rcases h.replies_cases with hx | hx | hx | ⟨reason, hx⟩ <;> rw [hx] at hr
  · cases hr
  all_goals exact (Option.some.inj hr).symm

/-- Once the offer is accepted, bytes can only be on their way while the
    server receives. -/
theorem ServerOk.receiving_or_sent (h : ServerOk u d sent w stream replies)
    (hr : replies ≠ []) :
    (∃ i mode received, (w.transfers ()).phase = .receiving i mode received) ∨
      sent = u.file.length := by
  simp only [ServerOk] at h
  cases hph : (w.transfers ()).phase <;> simp only [hph] at h
  case waiting => exact absurd h.2.2 hr
  case checking => exact absurd h.replies hr
  case sizing => exact absurd h.1.replies hr
  case resuming => exact absurd h.1.replies hr
  case creating => exact absurd h.1.replies hr
  case receiving => exact Or.inl ⟨_, _, _, rfl⟩
  case ended => exact Or.inr h.1
  all_goals exact Or.inr h.1.sent

end Replies

/-- How far the client has sent the file. -/
def Client.sentBytes (u : Upload) (d : Dir Name) : Client → Nat
  | .pairing => (u.kept d).length
  | .hashing _ => (u.kept d).length
  | .offered => (u.kept d).length
  | .sending n => n
  | _ => u.file.length

/-- The client's side. -/
def ClientOk (u : Upload) (d : Dir Name) (s : State) : Prop :=
  match s.client with
  | .pairing => s.phase = .waiting
  | .hashing acc => s.phase = .waiting ∧ acc <+: u.file
  | .offered => s.phase ≠ .waiting
  | .sending n => s.replies ≠ [] ∧ (u.kept d).length ≤ n ∧ n ≤ u.file.length
  | .awaiting => s.replies ≠ []
  | .done => s.replies = [.fileAccept (u.kept d).length, .fileComplete]
  | .failed _ => ∃ reason, s.replies
      = [.fileAccept (u.kept d).length, .fileReject reason]

/-- How far the file has gone to the socket. -/
def State.wired (u : Upload) (d : Dir Name) (s : State) : Nat :=
  s.client.sentBytes u d - s.held.length

/-- The invariant. -/
structure Agree (u : Upload) (d : Dir Name) (s : State) : Prop where
  client : ClientOk u d s
  server : ServerOk u d (s.wired u d) s.server s.stream s.replies
  /-- What is held back comes next in the file. -/
  held : s.held <+: u.file.drop (s.wired u d)
  room : (u.kept d).length + s.held.length ≤ s.client.sentBytes u d

theorem agree_start (u : Upload) (d : Dir Name) : Agree u d (start d) where
  client := rfl
  server := ⟨rfl, rfl, rfl⟩
  held := List.nil_prefix
  room := Nat.le_refl _

/-- Whether the server has been offered the file. -/
def begun : Phase → Bool
  | .waiting => false
  | _ => true

/-- Whether it has yet to return. -/
def atWork : Phase → Bool
  | .waiting => false
  | .ended => false
  | _ => true

theorem ne_waiting_of_begun {ph : Phase} (h : begun ph = true) :
    ph ≠ .waiting := by
  rintro rfl
  cases h

theorem begun_of_atWork {ph : Phase} (h : atWork ph = true) :
    begun ph = true := by
  cases ph <;> first | rfl | cases h

/-! ## What is left to do -/

/-- More candidates than the directory can have names. -/
def probes (d : Dir Name) : Nat := d.next + 3

def Client.work (u : Upload) : Client → Nat
  | .pairing => 2 * u.file.length + 6
  | .hashing acc => (u.file.length - acc.length) + u.file.length + 5
  | .offered => u.file.length + 4
  | .sending n => (u.file.length - n) + 2
  | .awaiting => 1
  | _ => 0

def phaseWork (u : Upload) (d : Dir Name) : Phase → Nat
  | .waiting => 2 * u.file.length + probes d + 10
  | .checking => 2 * u.file.length + probes d + 9
  | .sizing => 2 * u.file.length + probes d + 8
  | .resuming _ => 2 * u.file.length + probes d + 7
  | .creating => 2 * u.file.length + probes d + 7
  | .receiving _ _ received =>
      (u.file.length - received) + u.file.length + probes d + 6
  | .verifying => u.file.length + probes d + 5
  | .hashing _ acc => (u.file.length - acc.length) + probes d + 4
  | .choosing i => (probes d - i) + 3
  | .promoting _ => 2
  | .completing _ _ => 1
  | .removing => 1
  | .ended => 0

/-- An upper bound for the steps that can still be taken. -/
def State.work (u : Upload) (d : Dir Name) (s : State) : Nat :=
  s.client.work u + phaseWork u d s.phase

/-- A step that keeps the invariant and takes something away. -/
def Next (u : Upload) (d : Dir Name) (s s' : State) : Prop :=
  Agree u d s' ∧ s'.work u d < s.work u d

/-- The client is paired, its file is not too long, and SHA-256 tells what
    the server will have from the file, if they are different. -/
structure Permitted (u : Upload) (d : Dir Name) : Prop where
  paired : u.config.clientFingerprint u.sha256 ∈ u.paired
  size : u.maxFileSize = 0 ∨ u.file.length ≤ u.maxFileSize
  noCollision : u.sha256 (u.assembled d) = u.sha256 u.file →
    u.assembled d = u.file

/-! ## The client's steps -/

section Client

variable {u : Upload} {d : Dir Name} {s s' : State}

/-- A step of the client alone. -/
theorem next_client {c : Client} (h : Agree u d s)
    (hclient : ClientOk u d { s with client := c })
    (hsent : c.sentBytes u d = s.client.sentBytes u d)
    (hwork : c.work u < s.client.work u) :
    Next u d s { s with client := c } := by
  have hwired : ({ s with client := c } : State).wired u d = s.wired u d := by
    rw [State.wired, hsent]
    rfl
  refine ⟨⟨hclient, ?_, ?_, ?_⟩, ?_⟩
  · rw [hwired]
    exact h.server
  · rw [hwired]
    exact h.held
  · show _ ≤ c.sentBytes u d
    rw [hsent]
    exact h.room
  · show c.work u + phaseWork u d s.phase < _
    exact Nat.add_lt_add_right hwork _

/-- A paired client may go on. -/
theorem onPairReply_paired (hp : Permitted u d) :
    onPairReply (onFilePairRequest u.paired u.pairRequest).1
      = .hashing [] := by
  simp only [Upload.pairRequest, onFilePairRequest, hp.paired, if_true,
    onPairReply]

theorem next_pair (hp : Permitted u d) (h : Agree u d s)
    (hs : step u s .pair = some s') : Next u d s s' := by
  obtain ⟨hc, rfl⟩ := pair_cases hs
  have hok := h.client
  simp only [ClientOk, hc] at hok
  rw [onPairReply_paired hp]
  refine next_client h ⟨hok, List.nil_prefix⟩ (by rw [hc]; rfl) ?_
  rw [hc]
  show (u.file.length - 0) + u.file.length + 5 < 2 * u.file.length + 6
  omega

/-- At the end of the file the client offers it. -/
theorem next_offer (hp : Permitted u d) (h : Agree u d s)
    (hc : s.client = .hashing u.file) {w : World Unit}
    (hw : KvmTransfer.step u.digest u.maxFileSize s.server
      (.offer () u.offer) = some w) :
    Next u d s { s with
      client := .offered
      server := w
      replies := s.replies ++ offerReply w } := by
  have hok := h.client
  simp only [ClientOk, hc] at hok
  have hph : (s.server.transfers ()).phase = .waiting := hok.1
  have hsrv := h.server
  simp only [ServerOk, hph] at hsrv
  have hlimit : ¬ (u.maxFileSize ≠ 0 ∧ u.maxFileSize < u.offer.size) := by
    rintro ⟨hne, hlt⟩
    rcases hp.size with h0 | hle
    · exact hne h0
    · exact Nat.not_lt.mpr hle hlt
  simp only [KvmTransfer.step, hph, hlimit, if_false] at hw
  have ht : w.transfers () = ⟨u.offer, .checking⟩ := by
    rw [← Option.some.inj hw]
    exact Function.update_self () _ s.server.transfers
  have hdir : w.dir = s.server.dir := by
    rw [← Option.some.inj hw]
  have hphase : ({ s with
      client := Client.offered
      server := w
      replies := s.replies ++ offerReply w } : State).phase = .checking := by
    rw [State.phase, ht]
  have hwired : ({ s with
      client := Client.offered
      server := w
      replies := s.replies ++ offerReply w } : State).wired u d
        = s.wired u d := by
    rw [State.wired, State.wired, hc]
    rfl
  refine ⟨⟨?_, ?_, hwired ▸ h.held, ?_⟩, ?_⟩
  · show State.phase _ ≠ .waiting
    rw [hphase]
    exact ne_waiting_of_begun rfl
  · simp only [ServerOk, ht]
    refine ⟨by rw [ht], hdir.trans hsrv.1, hsrv.2.1, ?_⟩
    show s.replies ++ offerReply w = []
    rw [hsrv.2.2, offerReply, ht]
    rfl
  · have hroom := h.room
    rw [hc] at hroom
    exact hroom
  · rw [State.work, State.work, hphase, hok.1, hc]
    show u.file.length + 4 + (2 * u.file.length + probes d + 9)
      < (u.file.length - u.file.length) + u.file.length + 5
        + (2 * u.file.length + probes d + 10)
    omega

theorem next_hash (hp : Permitted u d) (h : Agree u d s) {n : Nat}
    (hs : step u s (.hash n) = some s') : Next u d s s' := by
  obtain ⟨acc, bs, hc, hn, hbs, hstep⟩ := hash_cases hs
  have hok := h.client
  simp only [ClientOk, hc] at hok
  obtain ⟨hmore, hend⟩ := prefix_read hok.2 hn
  rw [hbs] at hmore hend
  rcases hstep with ⟨hne, rfl⟩ | ⟨hnil, w, hw, rfl⟩
  · refine next_client h ⟨hok.1, hmore⟩ (by rw [hc]; rfl) ?_
    rw [hc]
    have hle := hmore.length_le
    have hpos := List.length_pos_of_ne_nil hne
    rw [List.length_append] at hle
    simp only [Client.work, List.length_append]
    omega
  · -- all of the file was hashed, so the offer is the one of the file
    rw [hend hnil] at hc hw
    exact next_offer hp h hc hw

theorem next_readAnswer (h : Agree u d s)
    (hs : step u s .readAnswer = some s') : Next u d s s' := by
  obtain ⟨r, hc, hr, rfl⟩ := readAnswer_cases hs
  have hle := @kept_length_le u d
  have hne : s.replies ≠ [] := by
    intro hnil
    rw [hnil] at hr
    cases hr
  rw [h.server.answer hr]
  refine next_client h ⟨hne, Nat.le_refl _, hle⟩ (by rw [hc]; rfl) ?_
  rw [hc]
  simp only [onAnswer, Client.work]
  omega

/-- Some more of the file has gone to the socket. -/
theorem serverOk_wired {wired : Nat} {bs : List UInt8}
    (h : ServerOk u d wired s.server s.stream s.replies)
    (hr : s.replies ≠ []) (hbs : bs <+: u.file.drop wired) :
    ServerOk u d (wired + bs.length) s.server (s.stream ++ bs) s.replies := by
  rcases h.receiving_or_sent hr with ⟨i, mode, received, hph⟩ | hall
  · simp only [ServerOk, hph] at h ⊢
    obtain ⟨hholds, hkept, hsent, hmode, hstream, hreplies⟩ := h
    refine ⟨hholds, hkept, by omega, hmode, ?_, hreplies⟩
    -- the bytes on the stream and the new ones follow each other in the file
    obtain ⟨k, rfl⟩ := Nat.exists_eq_add_of_le hsent
    rw [hstream, Nat.add_sub_cancel_left, Nat.add_assoc,
      Nat.add_sub_cancel_left, List.take_add, List.drop_drop,
      ← List.prefix_iff_eq_take.mp hbs]
  · rw [hall, List.drop_length] at hbs
    rw [List.prefix_nil.mp hbs, List.append_nil]
    exact h

/-- What the TLS stream has been given follows what has gone out. -/
theorem Agree.given (h : Agree u d s) {sentBytes n : Nat}
    (hc : s.client = .sending sentBytes) :
    s.wired u d + s.held.length = sentBytes ∧
      s.held ++ (u.file.drop sentBytes).take n
        <+: u.file.drop (s.wired u d) := by
  have hroom := h.room
  rw [hc] at hroom
  have hsum : s.wired u d + s.held.length = sentBytes := by
    rw [State.wired, hc]
    show sentBytes - s.held.length + s.held.length = sentBytes
    have hroom' : (u.kept d).length + s.held.length ≤ sentBytes := hroom
    omega
  refine ⟨hsum, ?_⟩
  obtain ⟨rest, hrest⟩ := h.held
  have hdrop : u.file.drop sentBytes = rest := by
    rw [← hsum, ← List.drop_drop, ← hrest, List.drop_left]
  rw [hdrop, ← hrest]
  exact (List.prefix_append_right_inj _).mpr (List.take_prefix n rest)

theorem next_send (h : Agree u d s) {n kept : Nat}
    (hs : step u s (.send n kept) = some s') : Next u d s s' := by
  obtain ⟨sentBytes, bs, hc, hbs, hstep⟩ := send_cases hs
  have hok := h.client
  simp only [ClientOk, hc] at hok
  obtain ⟨hr, hkept, hle⟩ := hok
  rcases hstep with ⟨hne, rfl⟩ | ⟨-, hend, rfl⟩
  · have hpos := List.length_pos_of_ne_nil hne
    have hlen : sentBytes + bs.length ≤ u.file.length := by
      rw [← hbs, List.length_take, List.length_drop]
      omega
    obtain ⟨hsum, hgiven⟩ := h.given (n := n) hc
    rw [hbs] at hgiven
    generalize hg : s.held ++ bs = given at *
    have hlength : s.held.length + bs.length = given.length := by
      rw [← hg, List.length_append]
    generalize hm : given.length - kept = m at *
    have hout : (given.take m).length = m := by
      rw [List.length_take]
      omega
    have hback : (given.drop m).length = given.length - m :=
      List.length_drop
    have hwired : (⟨.sending (sentBytes + bs.length), s.server,
        s.stream ++ given.take m, given.drop m, s.replies, s.reason⟩ :
          State).wired u d = s.wired u d + (given.take m).length := by
      show sentBytes + bs.length - (given.drop m).length = _
      omega
    have hroom := h.room
    rw [hc] at hroom
    have hroom' : (u.kept d).length + s.held.length ≤ sentBytes := hroom
    refine ⟨⟨⟨hr, Nat.le_trans hkept (Nat.le_add_right _ _), hlen⟩, ?_, ?_,
      ?_⟩, ?_⟩
    · rw [hwired]
      exact serverOk_wired h.server hr
        ((List.take_prefix m given).trans hgiven)
    · rw [hwired, hout, ← List.drop_drop]
      exact hgiven.drop m
    · show _ + (given.drop m).length ≤ sentBytes + bs.length
      omega
    · refine Nat.add_lt_add_right ?_ _
      rw [hc]
      simp only [Client.work]
      omega
  · have hall : u.file.length = sentBytes := Nat.le_antisymm hend hle
    refine next_client h hr (by rw [hc]; exact hall) ?_
    rw [hc]
    simp only [Client.work]
    omega

theorem next_readVerdict (h : Agree u d s)
    (hs : step u s .readVerdict = some s') : Next u d s s' := by
  obtain ⟨r, hc, hr, rfl⟩ := readVerdict_cases hs
  rcases h.server.replies_cases with hx | hx | hx | ⟨reason, hx⟩
  · rw [hx] at hr
    cases hr
  · rw [hx] at hr
    cases hr
  · rw [hx] at hr
    rw [← Option.some.inj hr]
    exact next_client h hx (by rw [hc]; rfl) (by rw [hc]; exact Nat.one_pos)
  · rw [hx] at hr
    rw [← Option.some.inj hr]
    exact next_client h ⟨reason, hx⟩ (by rw [hc]; rfl)
      (by rw [hc]; exact Nat.one_pos)

end Client

/-! ## The server's steps -/

section Server

variable {u : Upload} {d : Dir Name} {s s' : State}

/-- The server has a last word only when it has returned. -/
theorem ServerOk.ended_of_two {sent : Nat} {w : World Unit}
    {stream : List UInt8} {a b : Reply}
    (h : ServerOk u d sent w stream [a, b]) :
    (w.transfers ()).phase = .ended := by
  simp only [ServerOk] at h
  cases hph : (w.transfers ()).phase <;> simp only [hph] at h
  case waiting => cases h.2.2
  case checking => cases h.replies
  case sizing => cases h.1.replies
  case resuming => cases h.1.replies
  case creating => cases h.1.replies
  case receiving => cases h.2.2.2.2.2
  case ended => rfl
  all_goals cases h.1.replies

theorem Agree.sentBytes_le (h : Agree u d s) :
    s.client.sentBytes u d ≤ u.file.length := by
  have hok := h.client
  cases hc : s.client <;> simp only [ClientOk, hc] at hok
  case sending => exact hok.2.2
  case pairing => exact kept_length_le
  case hashing => exact kept_length_le
  case offered => exact kept_length_le
  all_goals exact Nat.le_refl _

theorem Agree.wired_le (h : Agree u d s) : s.wired u d ≤ u.file.length :=
  Nat.le_trans (Nat.sub_le _ _) h.sentBytes_le

/-- If all of the file has gone to the socket, nothing is held back. -/
theorem Agree.held_nil (h : Agree u d s)
    (hall : s.wired u d = u.file.length) : s.held = [] := by
  have hheld := h.held
  rw [hall, List.drop_length] at hheld
  exact List.prefix_nil.mp hheld

/-- While there is an offer without an answer, the client waits for it. -/
theorem Agree.offered (h : Agree u d s)
    (hw : (s.server.transfers ()).phase ≠ .waiting) (hr : s.replies = []) :
    s.wired u d = (u.kept d).length := by
  have hok := h.client
  have hroom := h.room
  -- before the answer nothing was written, so nothing is held back
  have hstart : s.client.sentBytes u d = (u.kept d).length →
      s.wired u d = (u.kept d).length := by
    intro hsent
    rw [State.wired]
    omega
  cases hc : s.client <;> simp only [ClientOk, hc] at hok
  case pairing => exact absurd hok hw
  case hashing => exact absurd hok.1 hw
  case offered => exact hstart (by rw [hc]; rfl)
  case sending => exact absurd hr hok.1
  case awaiting => exact absurd hr hok
  case done =>
      rw [hr] at hok
      cases hok
  case failed =>
      obtain ⟨reason, hok⟩ := hok
      rw [hr] at hok
      cases hok

/-- A step of the server. -/
theorem next_server (h : Agree u d s) {ph ph' : Phase}
    (hph : (s.server.transfers ()).phase = ph) (hatWork : atWork ph = true)
    {w : World Unit} {stream : List UInt8}
    {es : List Reply} {reason : List Char}
    (hph' : (w.transfers ()).phase = ph') (hbegun : begun ph' = true)
    (hok : ServerOk u d (s.wired u d) w stream (s.replies ++ es))
    (hwork : phaseWork u d ph' < phaseWork u d ph) :
    Next u d s ⟨s.client, w, stream, s.held, s.replies ++ es, reason⟩ := by
  have hcl := h.client
  have hsrv := h.server
  have hstart : s.phase ≠ .waiting := by
    rw [State.phase, hph]
    exact ne_waiting_of_begun (begun_of_atWork hatWork)
  have hopen : ∀ a b, s.replies ≠ [a, b] := by
    intro a b hr
    rw [hr] at hsrv
    rw [← hph, hsrv.ended_of_two] at hatWork
    cases hatWork
  refine ⟨⟨?_, hok, h.held, h.room⟩, ?_⟩
  · -- a client that has returned has two replies, and then so has the server
    simp only [ClientOk] at hcl ⊢
    cases hc : s.client <;> simp only [hc] at hcl ⊢
    case pairing => exact absurd hcl hstart
    case hashing => exact absurd hcl.1 hstart
    case offered =>
        show (w.transfers ()).phase ≠ .waiting
        rw [hph']
        exact ne_waiting_of_begun hbegun
    case sending =>
        exact ⟨fun hnil => hcl.1 (List.append_eq_nil_iff.mp hnil).1, hcl.2⟩
    case awaiting =>
        exact fun hnil => hcl (List.append_eq_nil_iff.mp hnil).1
    case done => exact absurd hcl (hopen _ _)
    case failed =>
        obtain ⟨reason, hcl⟩ := hcl
        exact absurd hcl (hopen _ _)
  · show s.client.work u + phaseWork u d (w.transfers ()).phase < _
    rw [hph', State.work, State.phase, hph]
    exact Nat.add_lt_add_left hwork _

theorem goto_phase (w : World Unit) (ph : Phase) :
    ((w.goto () ph).transfers ()).phase = ph := by
  rw [goto_self]

theorem kept_of_absent (h : d.exists u.part = false) : u.kept d = [] := by
  rw [Upload.kept, Dir.read, exists_eq_false.mp h]
  rfl

theorem kept_of_shorter {i : Nat} {old : List UInt8}
    (h : d.entry u.part = some (i, old)) (hlt : old.length < u.file.length) :
    u.kept d = old := by
  rw [Upload.kept, Dir.read, h]
  exact if_pos hlt

theorem kept_of_longer {i : Nat} {old : List UInt8}
    (h : d.entry u.part = some (i, old))
    (hle : ¬ old.length < u.file.length) : u.kept d = [] := by
  rw [Upload.kept, Dir.read, h]
  exact if_neg hle

/-- A step of the server outside its loops. -/
theorem next_advance (h : Agree u d s) {ph ph' : Phase}
    (hph : (s.server.transfers ()).phase = ph) (hatWork : atWork ph = true)
    {w : World Unit} (hadv : KvmTransfer.advance s.server () = some w)
    (hph' : (w.transfers ()).phase = ph') (hbegun : begun ph' = true)
    (hok : ServerOk u d (s.wired u d) w s.stream
      (s.replies ++ advanceReply s.reason ph ph'))
    (hwork : phaseWork u d ph' < phaseWork u d ph)
    (hs : step u s .advance = some s') : Next u d s s' := by
  rw [step, hadv, Option.map_some, Option.some.injEq, State.phase, hph,
    hph'] at hs
  rw [← hs]
  exact next_server h hph hatWork hph' hbegun hok hwork

theorem Untouched.goto {stream : List UInt8} {replies : List Reply}
    (h : Untouched u d s.server stream replies) (ph : Phase) :
    Untouched u d (s.server.goto () ph) stream (replies ++ []) := by
  refine ⟨?_, h.dir, h.stream, ?_⟩
  · rw [goto_self]
    exact h.offer
  · rw [h.replies]
    rfl

/-- Looking for the `.part` file. -/
theorem next_checking (h : Agree u d s)
    (hph : (s.server.transfers ()).phase = .checking)
    (hs : step u s .advance = some s') : Next u d s s' := by
  have hsrv := h.server
  simp only [ServerOk, hph] at hsrv
  cases hex : d.exists u.part with
  | true =>
      have hadv : KvmTransfer.advance s.server ()
          = some (s.server.goto () .sizing) := by
        simp only [KvmTransfer.advance, hph, hsrv.offer, hsrv.dir]
        rw [show u.offer.part = u.part from rfl, hex, if_pos rfl]
      refine next_advance h hph rfl hadv (goto_phase ..) rfl ?_
        (Nat.lt_succ_self _) hs
      simp only [ServerOk, goto_self]
      exact ⟨hsrv.goto .sizing, hex⟩
  | false =>
      have hadv : KvmTransfer.advance s.server ()
          = some (s.server.goto () .creating) := by
        simp only [KvmTransfer.advance, hph, hsrv.offer, hsrv.dir]
        rw [show u.offer.part = u.part from rfl, hex,
          if_neg Bool.false_ne_true]
      refine next_advance h hph rfl hadv (goto_phase ..) rfl ?_
        (by simp only [phaseWork]; omega) hs
      simp only [ServerOk, goto_self]
      exact ⟨hsrv.goto .creating, kept_of_absent hex⟩

/-- Comparing its size with the offer. -/
theorem next_sizing (h : Agree u d s)
    (hph : (s.server.transfers ()).phase = .sizing)
    (hs : step u s .advance = some s') : Next u d s s' := by
  have hsrv := h.server
  simp only [ServerOk, hph] at hsrv
  obtain ⟨hun, hex⟩ := hsrv
  obtain ⟨⟨i, old⟩, hold⟩ := Option.isSome_iff_exists.mp hex
  have hread : s.server.dir.read (s.server.transfers ()).offer.part
      = some old := by
    rw [hun.dir, hun.offer, Dir.read, show u.offer.part = u.part from rfl, hold]
    rfl
  have hsize : (s.server.transfers ()).offer.size = u.file.length := by
    rw [hun.offer]
    rfl
  by_cases hlt : old.length < u.file.length
  · have hadv : KvmTransfer.advance s.server ()
        = some (s.server.goto () (.resuming old.length)) := by
      simp only [KvmTransfer.advance, hph, hread, hsize, hlt, if_true]
    have hkept := kept_of_shorter hold hlt
    refine next_advance h hph rfl hadv (goto_phase ..) rfl ?_
      (Nat.lt_succ_self _) hs
    simp only [ServerOk, goto_self]
    exact ⟨hun.goto (.resuming old.length), by rw [hkept],
      i, by rw [hkept]; exact hold⟩
  · have hadv : KvmTransfer.advance s.server ()
        = some (s.server.goto () .creating) := by
      simp only [KvmTransfer.advance, hph, hread, hsize, hlt, if_false]
    refine next_advance h hph rfl hadv (goto_phase ..) rfl ?_
      (Nat.lt_succ_self _) hs
    simp only [ServerOk, goto_self]
    exact ⟨hun.goto .creating, kept_of_longer hold hlt⟩

/-- The `.part` file is open and holds what was kept: the first answer. -/
theorem serverOk_accepted (h : Agree u d s)
    (hun : Untouched u d s.server s.stream s.replies)
    (hw : (s.server.transfers ()).phase ≠ .waiting) {dir : Dir Name}
    {i : Nat} {mode : WriteMode} {offset : Nat}
    (hoff : offset = (u.kept d).length)
    (hentry : dir.entry u.part = some (i, u.kept d))
    (hframe : ∀ m, m ≠ u.part → dir.entry m = d.entry m)
    (hnext : dir.next ≤ d.next + 1)
    (hmode : mode = .append ∨ mode = .at offset) :
    ServerOk u d (s.wired u d)
      ({ s.server with dir := dir }.goto () (.receiving i mode offset))
      s.stream (s.replies ++ [.fileAccept offset]) := by
  -- the client is still waiting, so nothing of the file is on the stream
  have hsent := h.offered hw hun.replies
  simp only [ServerOk, goto_self]
  rw [hsent, hoff, assembled_take_kept]
  refine ⟨⟨?_, hentry, hframe, hnext⟩, Nat.le_refl _, Nat.le_refl _,
    hoff ▸ hmode, ?_, ?_⟩
  · rw [goto_self]
    exact hun.offer
  · rw [hun.stream, Nat.sub_self, List.take_zero]
  · rw [hun.replies]
    rfl

theorem next_resuming (h : Agree u d s) {offset : Nat}
    (hph : (s.server.transfers ()).phase = .resuming offset)
    (hs : step u s .advance = some s') : Next u d s s' := by
  have hsrv := h.server
  simp only [ServerOk, hph] at hsrv
  obtain ⟨hun, hoff, i, hentry⟩ := hsrv
  have hadv : KvmTransfer.advance s.server ()
      = some (s.server.goto () (.receiving i .append offset)) := by
    simp only [KvmTransfer.advance, hph, hun.dir, hun.offer]
    rw [show u.offer.part = u.part from rfl, hentry]
  refine next_advance h hph rfl hadv (goto_phase ..) rfl ?_
    (by simp only [phaseWork]; omega) hs
  exact serverOk_accepted h hun (by rw [hph]; exact ne_waiting_of_begun rfl)
    hoff (by rw [hun.dir]; exact hentry) (by rw [hun.dir]; exact fun _ _ => rfl)
    (by rw [hun.dir]; exact Nat.le_succ _) (Or.inl rfl)

theorem next_creating (h : Agree u d s)
    (hph : (s.server.transfers ()).phase = .creating)
    (hs : step u s .advance = some s') : Next u d s s' := by
  have hsrv := h.server
  simp only [ServerOk, hph] at hsrv
  obtain ⟨hun, hkept⟩ := hsrv
  have hadv : KvmTransfer.advance s.server ()
      = some ({ s.server with dir := (d.create u.part).1 }.goto ()
        (.receiving (d.create u.part).2 (.at 0) 0)) := by
    simp only [KvmTransfer.advance, hph, hun.dir, hun.offer]
    rfl
  refine next_advance h hph rfl hadv (goto_phase ..) rfl ?_
    (by simp only [phaseWork]; omega) hs
  exact serverOk_accepted h hun (by rw [hph]; exact ne_waiting_of_begun rfl)
    (by rw [hkept]; rfl) (by rw [hkept]; exact entry_create_self d u.part)
    (fun m hm => entry_create_of_ne hm) (create_next_le d u.part)
    (Or.inr rfl)

theorem Holds.goto {w : World Unit} {i : Nat} {bytes : List UInt8}
    (h : Holds u d w i bytes) (ph : Phase) :
    Holds u d (w.goto () ph) i bytes := by
  refine ⟨?_, h.entry, h.frame, h.next⟩
  rw [goto_self]
  exact h.offer

theorem Arrived.keep {sent : Nat} {stream : List UInt8} {replies : List Reply}
    (h : Arrived u d sent stream replies) :
    Arrived u d sent stream (replies ++ []) :=
  ⟨h.sent, h.stream, by rw [List.append_nil]; exact h.replies⟩

/-- Opening the `.part` file again. -/
theorem next_verifying (h : Agree u d s)
    (hph : (s.server.transfers ()).phase = .verifying)
    (hs : step u s .advance = some s') : Next u d s s' := by
  have hsrv := h.server
  simp only [ServerOk, hph] at hsrv
  obtain ⟨harr, i, hholds⟩ := hsrv
  have hadv : KvmTransfer.advance s.server ()
      = some (s.server.goto () (.hashing i [])) := by
    simp only [KvmTransfer.advance, hph, hholds.offer]
    rw [show u.offer.part = u.part from rfl, hholds.entry]
  refine next_advance h hph rfl hadv (goto_phase ..) rfl ?_
    (by simp only [phaseWork, List.length_nil]; omega) hs
  simp only [ServerOk, goto_self]
  exact ⟨harr.keep, hholds.goto _, List.nil_prefix⟩

/-- The candidates tried so far are names of files, so there are not many. -/
theorem probed_le {w : World Unit} {i k : Nat} {bytes : List UInt8}
    (hholds : Holds u d w i bytes)
    (htried : ∀ j < k,
      w.dir.exists (candidateName u.offer.safeName j) = true) :
    k < probes d := by
  -- the numbered ones are different names; the first may be any of them
  have hle : k - 1 ≤ w.dir.next := by
    refine @le_next Name w.dir (k - 1)
      (fun j => candidateName u.offer.safeName (j + 1)) ?_ ?_
    · exact fun a _ b _ hab => candidateName_injective hab
    · exact fun j hj => htried (j + 1) (by omega)
  have hnext := hholds.next
  rw [probes]
  omega

/-- Probing for the destination. -/
theorem next_choosing (h : Agree u d s) {k : Nat}
    (hph : (s.server.transfers ()).phase = .choosing k)
    (hs : step u s .advance = some s') : Next u d s s' := by
  have hsrv := h.server
  simp only [ServerOk, hph] at hsrv
  obtain ⟨harr, ⟨i, hholds⟩, hfile, htried⟩ := hsrv
  cases hex : s.server.dir.exists (candidateName u.offer.safeName k) with
  | true =>
      have hadv : KvmTransfer.advance s.server ()
          = some (s.server.goto () (.choosing (k + 1))) := by
        simp only [KvmTransfer.advance, hph, hholds.offer, hex, if_true]
      have hmore : ∀ j < k + 1,
          s.server.dir.exists (candidateName u.offer.safeName j) = true := by
        intro j hj
        rcases Nat.lt_succ_iff_lt_or_eq.mp hj with hlt | rfl
        · exact htried j hlt
        · exact hex
      have hbound := probed_le hholds hmore
      refine next_advance h hph rfl hadv (goto_phase ..) rfl ?_
        (by simp only [phaseWork]; omega) hs
      simp only [ServerOk, goto_self]
      exact ⟨harr.keep, ⟨i, hholds.goto _⟩, hfile, hmore⟩
  | false =>
      have hadv : KvmTransfer.advance s.server ()
          = some (s.server.goto ()
            (.promoting (candidateName u.offer.safeName k))) := by
        simp only [KvmTransfer.advance, hph, hholds.offer, hex,
          Bool.false_eq_true, if_false]
      refine next_advance h hph rfl hadv (goto_phase ..) rfl ?_
        (by simp only [phaseWork]; omega) hs
      simp only [ServerOk, goto_self]
      exact ⟨harr.keep, ⟨i, hholds.goto _⟩, hfile, exists_eq_false.mp hex⟩

/-- Renaming to a destination that was never taken. -/
theorem next_promoting (h : Agree u d s) {dest : Name}
    (hph : (s.server.transfers ()).phase = .promoting dest)
    (hs : step u s .advance = some s') : Next u d s s' := by
  have hsrv := h.server
  simp only [ServerOk, hph] at hsrv
  obtain ⟨harr, ⟨i, hholds⟩, hfile, hfree⟩ := hsrv
  obtain ⟨dir, hren⟩ := @rename_of_entry _ _ s.server.dir u.part dest _
    hholds.entry
  obtain ⟨⟨f, hf, hdest⟩, -⟩ := rename_some hren
  have hadv : KvmTransfer.advance s.server ()
      = some ({ s.server with dir := dir }.goto ()
        (.completing dest (s.server.dir.exists dest))) := by
    simp only [KvmTransfer.advance, hph, hholds.offer]
    rw [show u.offer.part = u.part from rfl, hren]
  refine next_advance h hph rfl hadv (goto_phase ..) rfl ?_
    (Nat.lt_succ_self _) hs
  simp only [ServerOk, goto_self]
  -- the `.part` name is taken, so the free candidate is another name
  have hne : dest ≠ u.part := by
    rintro rfl
    rw [hholds.entry] at hfree
    cases hfree
  refine ⟨harr.keep, ?_, ?_, hfile⟩
  · rw [Dir.read, ← hholds.frame dest hne, hfree]
    rfl
  · show dir.read dest = _
    rw [Dir.read, hdest, Option.some.inj (hf.symm.trans hholds.entry), hfile]
    rfl

theorem next_completing (h : Agree u d s) {dest : Name} {replaced : Bool}
    (hph : (s.server.transfers ()).phase = .completing dest replaced)
    (hs : step u s .advance = some s') : Next u d s s' := by
  have hsrv := h.server
  simp only [ServerOk, hph] at hsrv
  obtain ⟨harr, hfree, hread, hfile⟩ := hsrv
  have hadv : KvmTransfer.advance s.server ()
      = some ({ s.server with
        confirmed := s.server.confirmed ++
          [Confirmation.mk (s.server.transfers ()).offer dest
            (s.server.dir.read dest) replaced] }.goto () .ended) := by
    simp only [KvmTransfer.advance, hph]
  refine next_advance h hph rfl hadv (goto_phase ..) rfl ?_
    (Nat.lt_succ_self _) hs
  simp only [ServerOk, goto_self]
  refine ⟨harr.sent, Or.inl ⟨?_, ⟨dest, hfree, hread⟩, hfile⟩⟩
  rw [harr.replies]
  rfl

/-- Removing what was assembled wrongly. -/
theorem next_removing (h : Agree u d s)
    (hph : (s.server.transfers ()).phase = .removing)
    (hs : step u s .advance = some s') : Next u d s s' := by
  have hsrv := h.server
  simp only [ServerOk, hph] at hsrv
  obtain ⟨harr, ⟨i, hholds⟩, hfile⟩ := hsrv
  have hadv : KvmTransfer.advance s.server ()
      = some ({ s.server with dir := s.server.dir.remove u.part }.goto ()
        .ended) := by
    simp only [KvmTransfer.advance, hph, hholds.offer]
    rfl
  refine next_advance h hph rfl hadv (goto_phase ..) rfl ?_
    (Nat.lt_succ_self _) hs
  simp only [ServerOk, goto_self]
  refine ⟨harr.sent, Or.inr ⟨⟨s.reason, ?_⟩, ?_, hfile⟩⟩
  · rw [harr.replies]
    rfl
  · show (s.server.dir.remove u.part).read u.part = none
    rw [Dir.read, entry_remove_self]
    rfl

/-- Nothing is missing any more. -/
theorem arrived_of_all {sent : Nat} {w : World Unit} {stream : List UInt8}
    {replies : List Reply} {i received : Nat}
    (hall : received = u.file.length) (hle : received ≤ sent)
    (hsent : sent ≤ u.file.length)
    (hholds : Holds u d w i ((u.assembled d).take received))
    (hstream : stream = (u.file.drop received).take (sent - received))
    (hreplies : replies = [.fileAccept (u.kept d).length]) :
    Arrived u d sent stream replies ∧ ∃ i, Holds u d w i (u.assembled d) := by
  have heq : sent = u.file.length := by omega
  refine ⟨⟨heq, ?_, hreplies⟩, i, ?_⟩
  · rw [hstream, heq, hall, Nat.sub_self, List.take_zero]
  · rw [hall, ← @assembled_length u d, List.take_length] at hholds
    exact hholds

theorem writeChunk_next (dir : Dir Name) (inode : Nat) (mode : WriteMode)
    (bs : List UInt8) : (writeChunk dir inode mode bs).1.next = dir.next := by
  cases mode <;> rfl

/-- Writing the next bytes of the file to the `.part` file. -/
theorem Holds.write {w : World Unit} {i received : Nat} {mode : WriteMode}
    {bs : List UInt8}
    (h : Holds u d w i ((u.assembled d).take received))
    (hle : received ≤ u.file.length) (hkept : (u.kept d).length ≤ received)
    (hmode : mode = .append ∨ mode = .at received)
    (hbs : bs <+: u.file.drop received) (ph : Phase) :
    Holds u d ({ w with dir := (writeChunk w.dir i mode bs).1 }.goto () ph) i
        ((u.assembled d).take (received + bs.length)) ∧
      ((writeChunk w.dir i mode bs).2 = .append ∨
        (writeChunk w.dir i mode bs).2 = .at (received + bs.length)) := by
  have hlen : ((u.assembled d).take received).length = received := by
    rw [List.length_take, assembled_length]
    omega
  have htake : (u.assembled d).take received ++ bs
      = (u.assembled d).take (received + bs.length) := by
    rw [List.take_add, assembled_drop hkept, ← List.prefix_iff_eq_take.mp hbs]
  obtain ⟨hself, hframe, hmode'⟩ := writeChunk_spec h.entry
    (hlen.symm ▸ hmode) bs
  rw [hlen] at hmode'
  rw [htake] at hself
  refine ⟨⟨?_, hself, ?_, ?_⟩, hmode'⟩
  · rw [goto_self]
    exact h.offer
  · intro m hm
    exact (hframe m hm).trans (h.frame m hm)
  · show (writeChunk w.dir i mode bs).1.next ≤ d.next + 1
    rw [writeChunk_next]
    exact h.next

/-- A chunk of what is on the stream. -/
theorem next_receive (h : Agree u d s) {n : Nat}
    (hs : step u s (.receive n) = some s') : Next u d s s' := by
  have hsrv := h.server
  have hle := h.wired_le
  cases hph : (s.server.transfers ()).phase <;>
    simp only [step, State.phase, hph, reduceCtorEq] at hs
  rename_i i mode received
  simp only [ServerOk, hph] at hsrv
  obtain ⟨hholds, hkept, hsent, hmode, hstream, hreplies⟩ := hsrv
  have hsize : (s.server.transfers ()).offer.size = u.file.length := by
    rw [hholds.offer]
    rfl
  by_cases hn : 0 < n ∧ n ≤ CHUNK_SIZE
  · rw [if_pos hn] at hs
    obtain ⟨w, hw, rfl⟩ := Option.map_eq_some_iff.mp hs
    generalize hbs : s.available n received = bs at hw ⊢
    rw [State.available, hstream, List.take_take] at hbs
    -- what is read is the next piece of the file, and no more than was sent
    have hpre : bs <+: u.file.drop received := hbs ▸ List.take_prefix ..
    have hshort : bs.length ≤ s.wired u d - received := by
      rw [← hbs]
      refine Nat.le_trans (List.length_take_le ..) (Nat.min_le_right ..)
    simp only [KvmTransfer.step, hph] at hw
    split at hw
    · rename_i hb
      have hpos := List.length_pos_of_ne_nil hb.1
      have hrest : s.stream.drop bs.length
          = (u.file.drop (received + bs.length)).take
              (s.wired u d - (received + bs.length)) := by
        rw [hstream, List.drop_take, List.drop_drop, Nat.sub_sub]
      rw [← Option.some.inj hw, ← List.append_nil s.replies]
      refine next_server h hph rfl (goto_phase ..) ?_ ?_ ?_
      · split <;> rfl
      · rw [List.append_nil]
        by_cases hdone : (s.server.transfers ()).offer.size
            ≤ received + bs.length
        · simp only [ServerOk, goto_self, hdone, if_true]
          refine arrived_of_all (by omega) (by omega) hle
            (hholds.write (by omega) hkept hmode hpre _).1 hrest hreplies
        · simp only [ServerOk, goto_self, hdone, if_false]
          obtain ⟨hholds', hmode'⟩ := hholds.write (by omega) hkept hmode hpre
            (.receiving i (writeChunk s.server.dir i mode bs).2
              (received + bs.length))
          exact ⟨hholds', by omega, by omega, hmode', hrest, hreplies⟩
      · split <;> simp only [phaseWork] <;> omega
    · cases hw
  · rw [if_neg hn] at hs
    cases hs

/-- The server has read all it asked for. -/
theorem next_endOfData (h : Agree u d s)
    (hs : step u s .endOfData = some s') : Next u d s s' := by
  have hcl := h.client
  have hsrv := h.server
  have hle := h.wired_le
  cases hph : (s.server.transfers ()).phase <;>
    simp only [step, State.phase, hph, reduceCtorEq] at hs
  rename_i i mode received
  simp only [ServerOk, hph] at hsrv
  obtain ⟨hholds, hkept, hsent, hmode, hstream, hreplies⟩ := hsrv
  have hsize : (s.server.transfers ()).offer.size = u.file.length := by
    rw [hholds.offer]
    rfl
  -- the client has not hung up, for it has not heard the last word
  have hopen : s.client.returned = false := by
    cases hc : s.client <;> simp only [ClientOk, hc] at hcl
    case done =>
        rw [hreplies] at hcl
        cases hcl
    case failed =>
        obtain ⟨reason, hcl⟩ := hcl
        rw [hreplies] at hcl
        cases hcl
    all_goals rfl
  split at hs
  · rename_i hcond
    have hall : received = (s.server.transfers ()).offer.size := by
      rcases hcond with hall | ⟨-, hgone⟩
      · exact hall
      · rw [hopen] at hgone
        cases hgone
    obtain ⟨w, hw, rfl⟩ := Option.map_eq_some_iff.mp hs
    simp only [KvmTransfer.step, hph] at hw
    rw [if_pos hall] at hw
    rw [← Option.some.inj hw, ← List.append_nil s.replies]
    refine next_server h hph rfl (goto_phase ..) rfl ?_ ?_
    · simp only [ServerOk, goto_self]
      rw [List.append_nil]
      exact arrived_of_all (hall.trans hsize) hsent hle (hholds.goto _) hstream
        hreplies
    · simp only [phaseWork]
      omega
  · cases hs

/-- The server hashes what it has. -/
theorem next_rehash (hp : Permitted u d) (h : Agree u d s) {n : Nat}
    (hs : step u s (.rehash n) = some s') : Next u d s s' := by
  have hsrv := h.server
  obtain ⟨w, hw, rfl⟩ := Option.map_eq_some_iff.mp hs
  cases hph : (s.server.transfers ()).phase <;>
    simp only [KvmTransfer.step, hph, reduceCtorEq] at hw
  rename_i i acc
  simp only [ServerOk, hph] at hsrv
  obtain ⟨harr, hholds, hacc⟩ := hsrv
  by_cases hn : 0 < n ∧ n ≤ CHUNK_SIZE
  · rw [if_pos hn, (entry_eq_some.mp hholds.entry).2] at hw
    obtain ⟨hmore, hend⟩ := prefix_read hacc hn.1
    rw [← Option.some.inj hw, ← List.append_nil s.replies]
    refine next_server h hph rfl (goto_phase ..) ?_ ?_ ?_
    · split
      · rfl
      · split <;> rfl
    · by_cases hnil : ((u.assembled d).drop acc.length).take n = []
      · -- everything was read back: the digests decide
        by_cases hsha : u.digest acc = (s.server.transfers ()).offer.sha256
        · simp only [ServerOk, goto_self, hnil, ne_eq, not_true_eq_false,
            if_false, hsha, if_true]
          rw [hend hnil, hholds.offer] at hsha
          have hfile := hp.noCollision (Vector.toList_inj.mp hsha)
          exact ⟨harr.keep, ⟨i, hholds.goto _⟩, hfile,
            fun j hj => absurd hj (Nat.not_lt_zero j)⟩
        · simp only [ServerOk, goto_self, hnil, ne_eq, not_true_eq_false,
            if_false, hsha]
          refine ⟨harr.keep, ⟨i, hholds.goto _⟩, ?_⟩
          intro hfile
          rw [hend hnil, hfile, hholds.offer] at hsha
          exact hsha rfl
      · simp only [ServerOk, goto_self, hnil, ne_eq, not_false_eq_true,
          if_true]
        exact ⟨harr.keep, hholds.goto _, hmore⟩
    · have hmore' := hmore.length_le
      rw [List.length_append, assembled_length] at hmore'
      split
      · rename_i hne
        have hpos := List.length_pos_of_ne_nil hne
        simp only [phaseWork, List.length_append]
        omega
      · split <;> simp only [phaseWork] <;> omega
  · rw [if_neg hn] at hw
    cases hw

end Server

end KvmUpload
