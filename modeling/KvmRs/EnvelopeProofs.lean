import KvmRs.CodecProofs

/-! # The wire protocol: envelopes and their bincode bytes

    The messages of `common/src/lib.rs` and the bytes bincode 1.3 gives them:
    fixed-width little-endian integers, a 32-bit variant index in front of
    every enum, a 64-bit length in front of strings and of a `Uuid`, and
    fixed-size arrays without a length.  Each format is assembled from the
    codec combinators, so `envelope` carries the round trip and the canonical
    form of all sixteen variants. -/

namespace KvmEnvelope

open ByteCodec

/-- Protocol version of this build; a peer with another one is refused. -/
def PROTOCOL_VERSION : String := "0.2.0"

/-- Default port of the control channel. -/
def DEFAULT_CONTROL_PORT : UInt16 := 4000

/-- Upper bound for a single framed message. -/
def MAX_ENVELOPE_SIZE : Nat := 10 * 1024 * 1024

/-- Capabilities a peer advertises in `Hello`. -/
structure Caps where
  clipboard : Bool
  fileTransfer : Bool
  internetShare : Bool
  deriving DecidableEq

/-- `Caps::default()`. -/
def Caps.default : Caps where
  clipboard := true
  fileTransfer := true
  internetShare := false

inductive MouseButton where
  | left | right | middle | back | forward
  deriving DecidableEq

/-- Keyboard and mouse events on the wire. -/
inductive Event where
  | mouseDelta (dx dy : Int32)
  | mouseButtonPress (button : MouseButton)
  | mouseButtonRelease (button : MouseButton)
  | wheel (deltaX deltaY : Int32)
  | keyPress (code : UInt32) (modifiers : UInt8)
  | keyRelease (code : UInt32) (modifiers : UInt8)
  | releaseAll
  deriving DecidableEq

/-- A 128-bit identifier, kept as its sixteen bytes. -/
structure Uuid where
  bytes : Vector UInt8 16
  deriving DecidableEq

/-- The protocol messages, in the order that fixes their variant index. -/
inductive Envelope where
  | hello (name version : String) (caps : Caps)
  | helloAck (fileTransferPort : UInt16) (serverName : String)
  | pairRequest (nonce : Vector UInt8 16) (fingerprint : String)
      (proof : Vector UInt8 32)
  | pairAccept
  | pairReject (reason : String)
  | toggleForward (on : Bool)
  | input (event : Event)
  | clipboardSet (text : String)
  | fileOffer (id : Uuid) (name : String) (size : UInt64)
      (sha256 : Vector UInt8 32)
  | fileAccept (id : Uuid) (startOffset : UInt64)
  | fileReject (id : Uuid) (reason : String)
  | fileComplete (id : Uuid)
  | ping (ts : UInt64)
  | pong (ts : UInt64)
  | error (msg : String)
  | goodbye
  deriving DecidableEq

/-! ## Formats of the parts -/

def caps : Codec Caps :=
  along (pair bool (pair bool bool))
    ⟨fun v => ⟨v.1, v.2.1, v.2.2⟩,
      fun c => (c.clipboard, c.fileTransfer, c.internetShare),
      fun _ => rfl, fun _ => rfl⟩

def MouseButton.index : MouseButton → UInt32
  | .left => 0
  | .right => 1
  | .middle => 2
  | .back => 3
  | .forward => 4

def mouseButton : Codec MouseButton :=
  oneOf MouseButton.index [.left, .right, .middle, .back, .forward]
    (fun b => by cases b <;> decide)
    (fun a b => by cases a <;> cases b <;> decide)

def uuid : Codec Uuid :=
  along (sizedBytes 16) ⟨Uuid.mk, Uuid.bytes, fun _ => rfl, fun _ => rfl⟩

/-- The variants of `Event`. -/
inductive EventTag where
  | mouseDelta | mouseButtonPress | mouseButtonRelease | wheel
  | keyPress | keyRelease | releaseAll
  deriving DecidableEq

def EventTag.index : EventTag → UInt32
  | .mouseDelta => 0
  | .mouseButtonPress => 1
  | .mouseButtonRelease => 2
  | .wheel => 3
  | .keyPress => 4
  | .keyRelease => 5
  | .releaseAll => 6

def eventTag : Codec EventTag :=
  oneOf EventTag.index
    [.mouseDelta, .mouseButtonPress, .mouseButtonRelease, .wheel, .keyPress,
      .keyRelease, .releaseAll]
    (fun t => by cases t <;> decide)
    (fun a b => by cases a <;> cases b <;> decide)

/-- The fields behind each variant of `Event`. -/
def EventTag.Fields : EventTag → Type
  | .mouseDelta => Int32 × Int32
  | .mouseButtonPress => MouseButton
  | .mouseButtonRelease => MouseButton
  | .wheel => Int32 × Int32
  | .keyPress => UInt32 × UInt8
  | .keyRelease => UInt32 × UInt8
  | .releaseAll => Unit

def eventFields : (t : EventTag) → Codec t.Fields
  | .mouseDelta => pair i32 i32
  | .mouseButtonPress => mouseButton
  | .mouseButtonRelease => mouseButton
  | .wheel => pair i32 i32
  | .keyPress => pair u32 byte
  | .keyRelease => pair u32 byte
  | .releaseAll => unit

/-- An event is its variant with the fields behind it. -/
def eventEquiv : (Σ t : EventTag, t.Fields) ≃ Event where
  toFun
    | ⟨.mouseDelta, (dx, dy)⟩ => .mouseDelta dx dy
    | ⟨.mouseButtonPress, b⟩ => .mouseButtonPress b
    | ⟨.mouseButtonRelease, b⟩ => .mouseButtonRelease b
    | ⟨.wheel, (dx, dy)⟩ => .wheel dx dy
    | ⟨.keyPress, (code, mods)⟩ => .keyPress code mods
    | ⟨.keyRelease, (code, mods)⟩ => .keyRelease code mods
    | ⟨.releaseAll, ()⟩ => .releaseAll
  invFun
    | .mouseDelta dx dy => ⟨.mouseDelta, (dx, dy)⟩
    | .mouseButtonPress b => ⟨.mouseButtonPress, b⟩
    | .mouseButtonRelease b => ⟨.mouseButtonRelease, b⟩
    | .wheel dx dy => ⟨.wheel, (dx, dy)⟩
    | .keyPress code mods => ⟨.keyPress, (code, mods)⟩
    | .keyRelease code mods => ⟨.keyRelease, (code, mods)⟩
    | .releaseAll => ⟨.releaseAll, ()⟩
  left_inv := by rintro ⟨t, f⟩; cases t <;> rfl
  right_inv := by intro e; cases e <;> rfl

def event : Codec Event := along (tagged eventTag eventFields) eventEquiv

/-! ## The envelope format -/

/-- The variants of `Envelope`. -/
inductive Tag where
  | hello | helloAck | pairRequest | pairAccept | pairReject | toggleForward
  | input | clipboardSet | fileOffer | fileAccept | fileReject | fileComplete
  | ping | pong | error | goodbye
  deriving DecidableEq

def Tag.index : Tag → UInt32
  | .hello => 0
  | .helloAck => 1
  | .pairRequest => 2
  | .pairAccept => 3
  | .pairReject => 4
  | .toggleForward => 5
  | .input => 6
  | .clipboardSet => 7
  | .fileOffer => 8
  | .fileAccept => 9
  | .fileReject => 10
  | .fileComplete => 11
  | .ping => 12
  | .pong => 13
  | .error => 14
  | .goodbye => 15

def tag : Codec Tag :=
  oneOf Tag.index
    [.hello, .helloAck, .pairRequest, .pairAccept, .pairReject,
      .toggleForward, .input, .clipboardSet, .fileOffer, .fileAccept,
      .fileReject, .fileComplete, .ping, .pong, .error, .goodbye]
    (fun t => by cases t <;> decide)
    (fun a b => by cases a <;> cases b <;> decide)

/-- The fields behind each variant of `Envelope`. -/
def Tag.Fields : Tag → Type
  | .hello => String × String × Caps
  | .helloAck => UInt16 × String
  | .pairRequest => Vector UInt8 16 × String × Vector UInt8 32
  | .pairAccept => Unit
  | .pairReject => String
  | .toggleForward => Bool
  | .input => Event
  | .clipboardSet => String
  | .fileOffer => Uuid × String × UInt64 × Vector UInt8 32
  | .fileAccept => Uuid × UInt64
  | .fileReject => Uuid × String
  | .fileComplete => Uuid
  | .ping => UInt64
  | .pong => UInt64
  | .error => String
  | .goodbye => Unit

def fields : (t : Tag) → Codec t.Fields
  | .hello => pair string (pair string caps)
  | .helloAck => pair u16 string
  | .pairRequest => pair (array 16) (pair string (array 32))
  | .pairAccept => unit
  | .pairReject => string
  | .toggleForward => bool
  | .input => event
  | .clipboardSet => string
  | .fileOffer => pair uuid (pair string (pair u64 (array 32)))
  | .fileAccept => pair uuid u64
  | .fileReject => pair uuid string
  | .fileComplete => uuid
  | .ping => u64
  | .pong => u64
  | .error => string
  | .goodbye => unit

/-- An envelope is its variant with the fields behind it. -/
def envelopeEquiv : (Σ t : Tag, t.Fields) ≃ Envelope where
  toFun
    | ⟨.hello, (name, version, caps)⟩ => .hello name version caps
    | ⟨.helloAck, (port, name)⟩ => .helloAck port name
    | ⟨.pairRequest, (nonce, fp, proof)⟩ => .pairRequest nonce fp proof
    | ⟨.pairAccept, ()⟩ => .pairAccept
    | ⟨.pairReject, reason⟩ => .pairReject reason
    | ⟨.toggleForward, on⟩ => .toggleForward on
    | ⟨.input, ev⟩ => .input ev
    | ⟨.clipboardSet, text⟩ => .clipboardSet text
    | ⟨.fileOffer, (id, name, size, sha)⟩ => .fileOffer id name size sha
    | ⟨.fileAccept, (id, off)⟩ => .fileAccept id off
    | ⟨.fileReject, (id, reason)⟩ => .fileReject id reason
    | ⟨.fileComplete, id⟩ => .fileComplete id
    | ⟨.ping, ts⟩ => .ping ts
    | ⟨.pong, ts⟩ => .pong ts
    | ⟨.error, msg⟩ => .error msg
    | ⟨.goodbye, ()⟩ => .goodbye
  invFun
    | .hello name version caps => ⟨.hello, (name, version, caps)⟩
    | .helloAck port name => ⟨.helloAck, (port, name)⟩
    | .pairRequest nonce fp proof => ⟨.pairRequest, (nonce, fp, proof)⟩
    | .pairAccept => ⟨.pairAccept, ()⟩
    | .pairReject reason => ⟨.pairReject, reason⟩
    | .toggleForward on => ⟨.toggleForward, on⟩
    | .input ev => ⟨.input, ev⟩
    | .clipboardSet text => ⟨.clipboardSet, text⟩
    | .fileOffer id name size sha => ⟨.fileOffer, (id, name, size, sha)⟩
    | .fileAccept id off => ⟨.fileAccept, (id, off)⟩
    | .fileReject id reason => ⟨.fileReject, (id, reason)⟩
    | .fileComplete id => ⟨.fileComplete, id⟩
    | .ping ts => ⟨.ping, ts⟩
    | .pong ts => ⟨.pong, ts⟩
    | .error msg => ⟨.error, msg⟩
    | .goodbye => ⟨.goodbye, ()⟩
  left_inv := by rintro ⟨t, f⟩; cases t <;> rfl
  right_inv := by intro e; cases e <;> rfl

/-- The bincode format of an envelope. -/
def envelope : Codec Envelope := along (tagged tag fields) envelopeEquiv

/-! ## `serialize_envelope` and `deserialize_envelope` -/

/-- The protocol errors that framing can produce. -/
inductive ProtocolError where
  | io
  | serialization
  | invalidMessage
  deriving DecidableEq

/-- The four big-endian bytes of a frame length. -/
def toBeBytes (n : Nat) : List UInt8 := (leBytes 4 n).reverse

/-- `u32::from_be_bytes`. -/
def fromBeBytes (bs : List UInt8) : Nat := ofLeBytes bs.reverse

/-- The payload behind its length, refused when it is too long to frame. -/
def serializeEnvelope (e : Envelope) : Except ProtocolError (List UInt8) :=
  let data := envelope.write e
  if MAX_ENVELOPE_SIZE < data.length then .error .invalidMessage
  else .ok (toBeBytes data.length ++ data)

/-- Parse one payload; bincode ignores bytes behind the value. -/
def deserializeEnvelope (data : List UInt8) : Except ProtocolError Envelope :=
  match envelope.parse data with
  | some (e, _) => .ok e
  | none => .error .serialization

theorem deserialize_write (e : Envelope)
    (h : (envelope.write e).length ≤ MAX_ENVELOPE_SIZE) :
    deserializeEnvelope (envelope.write e) = .ok e := by
  have hlt : (envelope.write e).length < 2 ^ 64 :=
    Nat.lt_of_le_of_lt h (by decide)
  have hp := envelope.parse_write e [] hlt
  rw [List.append_nil] at hp
  unfold deserializeEnvelope
  rw [hp]

/-- What a successful serialization is. -/
theorem serialize_ok {e : Envelope} {frame : List UInt8}
    (h : serializeEnvelope e = .ok frame) :
    (envelope.write e).length ≤ MAX_ENVELOPE_SIZE ∧
      frame = toBeBytes (envelope.write e).length ++ envelope.write e := by
  unfold serializeEnvelope at h
  by_cases hl : MAX_ENVELOPE_SIZE < (envelope.write e).length
  · rw [if_pos hl] at h
    cases h
  · rw [if_neg hl] at h
    exact ⟨by omega, (Except.ok.inj h).symm⟩

@[simp] theorem toBeBytes_length (n : Nat) : (toBeBytes n).length = 4 := by
  unfold toBeBytes
  rw [List.length_reverse, leBytes_length]

theorem fromBeBytes_toBeBytes {n : Nat} (h : n < 2 ^ 32) :
    fromBeBytes (toBeBytes n) = n := by
  unfold fromBeBytes toBeBytes
  rw [List.reverse_reverse, ofLeBytes_leBytes]
  exact Nat.mod_eq_of_lt h

end KvmEnvelope
