import KvmRs.CodecProofs

/-! # The client's config

    `client.toml` in memory: the client's secret and the servers it knows,
    keyed by the address that was dialled. -/

namespace KvmClientConfig

open ByteCodec

/-! ## Hex -/

/-- The two hex digits of a byte, in lower case. -/
def hexPair (b : UInt8) : List Char :=
  [Nat.digitChar (b.toNat / 16), Nat.digitChar (b.toNat % 16)]

def hexEncode (bytes : List UInt8) : List Char := bytes.flatMap hexPair

/-- `char::to_digit(16)` of an ASCII byte. -/
def toDigit16 (b : UInt8) : Option UInt8 :=
  if 48 ≤ b ∧ b ≤ 57 then some (b - 48)
  else if 97 ≤ b ∧ b ≤ 102 then some (b - 87)
  else if 65 ≤ b ∧ b ≤ 70 then some (b - 55)
  else none

/-- Pairs of hex digits; `none` on an odd one out. -/
def hexDecodePairs : List UInt8 → Option (List UInt8)
  | [] => some []
  | [_] => none
  | hi :: lo :: rest =>
      match toDigit16 hi, toDigit16 lo, hexDecodePairs rest with
      | some h, some l, some bs => some ((h <<< 4 ||| l) :: bs)
      | _, _, _ => none

/-- Decode a hex string, byte by byte. -/
def hexDecode (s : String) : Option (List UInt8) := hexDecodePairs (utf8 s)

/-! ## Config -/

structure KnownServer where
  name : String
  address : List Char
  fingerprint : List Char
  lastConnected : Nat
  deriving DecidableEq

structure Config where
  lastServer : Option (List Char)
  knownServers : List Char → Option KnownServer
  autoConnect : Bool
  clientSecret : String

def Config.default : Config where
  lastServer := none
  knownServers := fun _ => none
  autoConnect := false
  clientSecret := ""

/-- Generate `client_secret` from random bytes if it isn't set yet. -/
def Config.ensureClientSecret (c : Config) (bytes : Vector UInt8 32) :
    Config :=
  if c.clientSecret = "" then
    { c with clientSecret := String.ofList (hexEncode bytes.toList) }
  else c

/-- This client's fingerprint, the hex `SHA-256` of its secret. -/
def Config.clientFingerprint (c : Config)
    (sha256 : List UInt8 → Vector UInt8 32) : String :=
  let bytes := (hexDecode c.clientSecret).getD []
  String.ofList (hexEncode (sha256 bytes).toList)

/-- Record the server under an additional address, without touching
    `last_server`. -/
def Config.addKnownServerAlias (c : Config) (name : String)
    (address fingerprint : List Char) (now : Nat) : Config :=
  { c with
    knownServers := Function.update c.knownServers address
      (some ⟨name, address, fingerprint, now⟩) }

/-- Record the server under the address that was dialled. -/
def Config.addKnownServer (c : Config) (name : String)
    (address fingerprint : List Char) (now : Nat) : Config :=
  { c.addKnownServerAlias name address fingerprint now with
    lastServer := some address }

def Config.knownFingerprint (c : Config) (address : List Char) :
    Option (List Char) :=
  (c.knownServers address).map KnownServer.fingerprint

/-! ## What an update leaves alone -/

@[simp] theorem ensureClientSecret_known (c : Config) (bytes : Vector UInt8 32)
    (a : List Char) :
    (c.ensureClientSecret bytes).knownFingerprint a = c.knownFingerprint a := by
  rw [Config.ensureClientSecret]
  split <;> rfl

@[simp] theorem ensureClientSecret_servers (c : Config)
    (bytes : Vector UInt8 32) :
    (c.ensureClientSecret bytes).knownServers = c.knownServers := by
  rw [Config.ensureClientSecret]
  split <;> rfl

@[simp] theorem ensureClientSecret_last (c : Config)
    (bytes : Vector UInt8 32) :
    (c.ensureClientSecret bytes).lastServer = c.lastServer := by
  rw [Config.ensureClientSecret]
  split <;> rfl

theorem addKnownServerAlias_known (c : Config) (name : String)
    (address fp : List Char) (now : Nat) (a : List Char) :
    (c.addKnownServerAlias name address fp now).knownFingerprint a
      = if a = address then some fp else c.knownFingerprint a := by
  show ((Function.update c.knownServers address _) a).map _ = _
  by_cases h : a = address
  · rw [if_pos h, h, Function.update_self]
    rfl
  · rw [if_neg h, Function.update_of_ne h]
    rfl

theorem addKnownServer_known (c : Config) (name : String)
    (address fp : List Char) (now : Nat) (a : List Char) :
    (c.addKnownServer name address fp now).knownFingerprint a
      = if a = address then some fp else c.knownFingerprint a :=
  addKnownServerAlias_known c name address fp now a

end KvmClientConfig
