import KvmRs.ConnectProofs
import KvmRs.ControlProofs
import KvmRs.HexProofs
import KvmRs.UploadOutcomeProofs

/-! # The client's identity

    Both channels present the hash of what `client_secret` decodes to.  A
    secret that is not hex decodes to nothing and is hashed as no bytes at
    all: every such client has the same fingerprint, which anyone can compute
    and which is a credential once a server has paired it. -/

namespace KvmIdentity

open ByteCodec KvmAuth KvmClientConfig KvmEnvelope KvmHex Transition
open KvmConnect (Library Machine ConnectOptions Stream performHandshake
  pairRequestEnvelope helloEnvelope)
open KvmUpload (Upload)
open KvmUploadOutcome (sha256Stale)

/-- The bytes whose hash is the client's fingerprint. -/
def secretBytes (c : Config) : List UInt8 := (hexDecode c.clientSecret).getD []

/-- A digest in hex, as fingerprints of clients are written. -/
def fingerprintOf (digest : Vector UInt8 32) : String :=
  String.ofList (hexEncode digest.toList)

/-- The secret is hex. -/
def HexSecret (c : Config) : Prop := HexBytes (utf8 c.clientSecret)

/-- The secret in lower case. -/
def lowerSecret (c : Config) : List Char := c.clientSecret.toList.map Char.toLower

/-- If this is a `PairRequest`, it presents the hash of these bytes. -/
def Presents (sha256 : List UInt8 → Vector UInt8 32) (bytes : List UInt8) :
    Envelope → Prop
  | .pairRequest _ fingerprint _ => fingerprint = fingerprintOf (sha256 bytes)
  | _ => True

/-! ## The secret -/

section Secret

variable {c c' : Config} {random : Vector UInt8 32}

theorem clientFingerprint_eq (sha256 : List UInt8 → Vector UInt8 32) :
    c.clientFingerprint sha256 = fingerprintOf (sha256 (secretBytes c)) := rfl

theorem secretBytes_of_hex (h : HexSecret c) :
    hexDecode c.clientSecret = some (secretBytes c) := by
  obtain ⟨out, hout⟩ := hexDecode_iff.mpr h
  rw [secretBytes, hout]
  rfl

theorem secretBytes_of_not_hex (h : ¬ HexSecret c) : secretBytes c = [] := by
  rw [secretBytes]
  cases hdec : hexDecode c.clientSecret with
  | none => rfl
  | some out => exact absurd (hexDecode_iff.mp ⟨out, hdec⟩) h

/-- A generated secret is 32 bytes of hex. -/
theorem ensured_empty (h : c.clientSecret = "") :
    (c.ensureClientSecret random).clientSecret
      = String.ofList (hexEncode random.toList) := by
  rw [Config.ensureClientSecret, if_pos h]

theorem ensured_nonempty (h : c.clientSecret ≠ "") :
    c.ensureClientSecret random = c := by
  rw [Config.ensureClientSecret, if_neg h]

theorem ensured_ne_empty : (c.ensureClientSecret random).clientSecret ≠ "" := by
  by_cases h : c.clientSecret = ""
  · rw [ensured_empty h]
    intro hempty
    have hdec := decode_encode random.toList
    rw [hempty] at hdec
    have hlen : ([] : List UInt8).length = random.toList.length :=
      congrArg List.length (Option.some.inj hdec)
    rw [Vector.length_toList] at hlen
    cases hlen
  · rw [ensured_nonempty h]
    exact h

/-- After `ensure_client_secret` the secret is hex exactly if there was none,
    or it was hex before. -/
theorem hexSecret_ensured :
    HexSecret (c.ensureClientSecret random)
      ↔ c.clientSecret = "" ∨ HexSecret c := by
  by_cases h : c.clientSecret = ""
  · refine iff_of_true ?_ (Or.inl h)
    rw [HexSecret, ensured_empty h]
    exact hexDecode_iff.mp ⟨_, decode_encode random.toList⟩
  · rw [ensured_nonempty h, or_iff_right h]

/-- A secret that is there has bytes to hash exactly if it is hex. -/
theorem secretBytes_ne_nil (h : c.clientSecret ≠ "") :
    secretBytes c ≠ [] ↔ HexSecret c := by
  constructor
  · intro hne
    by_contra hhex
    exact hne (secretBytes_of_not_hex hhex)
  · intro hhex hnil
    have hdec := secretBytes_of_hex hhex
    rw [hnil] at hdec
    exact h (decoded_nil hdec)

/-- Two secrets that are there have the same bytes to hash exactly if neither
    is hex, or both are and differ in letter case at most. -/
theorem secretBytes_eq_iff (h : c.clientSecret ≠ "")
    (h' : c'.clientSecret ≠ "") :
    secretBytes c = secretBytes c'
      ↔ (HexSecret c ↔ HexSecret c') ∧
        (HexSecret c → lowerSecret c = lowerSecret c') := by
  by_cases hhex : HexSecret c
  · by_cases hhex' : HexSecret c'
    · have hcase := decoded_eq_iff (secretBytes_of_hex hhex)
        (secretBytes_of_hex hhex')
      constructor
      · intro heq
        exact ⟨iff_of_true hhex hhex', fun _ => hcase.mp heq⟩
      · rintro ⟨-, hlower⟩
        exact hcase.mpr (hlower hhex)
    · refine iff_of_false ?_ fun h => hhex' (h.1.mp hhex)
      rw [secretBytes_of_not_hex hhex']
      exact (secretBytes_ne_nil h).mpr hhex
  · rw [secretBytes_of_not_hex hhex]
    constructor
    · intro hnil
      have hhex' : ¬ HexSecret c' :=
        fun hhex' => (secretBytes_ne_nil h').mpr hhex' hnil.symm
      exact ⟨iff_of_false hhex hhex', fun h => absurd h hhex⟩
    · rintro ⟨hiff, -⟩
      rw [secretBytes_of_not_hex (hiff.not.mp hhex)]

end Secret

/-! ## What is sent -/

section Sent

variable {k : Library} {m : Machine} {config : Config} {opts : ConnectOptions}
  {x : Stream} {e : Envelope}

/-- The handshake sends `Hello` and the `PairRequest` of the config that has
    its secret. -/
theorem mem_sent (h : e ∈ (performHandshake k m config opts x).sent) :
    e = helloEnvelope m ∨
      e = pairRequestEnvelope k m (config.ensureClientSecret m.secret) opts := by
  simp only [performHandshake] at h
  repeat' split at h
  all_goals simp only [List.mem_cons, List.not_mem_nil, or_false] at h
  all_goals first | exact h | exact Or.inl h

/-- The handshake presents the hash of the secret. -/
theorem handshake_presents
    (h : e ∈ (performHandshake k m config opts x).sent) :
    Presents k.sha256 (secretBytes (config.ensureClientSecret m.secret)) e := by
  rcases mem_sent h with rfl | rfl
  · exact trivial
  · exact clientFingerprint_eq k.sha256

end Sent

/-! ## Two clients -/

/-- What the fingerprint of a config says about its secret: the handshake and
    an upload present the hash of the secret's bytes, and there are any
    exactly if the config came without a secret or with a hex one. -/
structure Identifies (config : Config) (random : Vector UInt8 32) : Prop where
  handshake : ∀ (k : Library) (m : Machine) (opts : ConnectOptions) (x : Stream),
    m.secret = random → ∀ e ∈ (performHandshake k m config opts x).sent,
      Presents k.sha256 (secretBytes (config.ensureClientSecret random)) e
  upload : ∀ u : Upload, u.config = config.ensureClientSecret random →
    Presents u.sha256 (secretBytes u.config) u.pairRequest
  nonempty : secretBytes (config.ensureClientSecret random) ≠ []
    ↔ config.clientSecret = "" ∨ HexSecret config

theorem identifies (config : Config) (random : Vector UInt8 32) :
    Identifies config random where
  handshake := by
    rintro k m opts x rfl e he
    exact handshake_presents he
  upload := fun u _ => clientFingerprint_eq u.sha256
  nonempty := by
    rw [secretBytes_ne_nil ensured_ne_empty, hexSecret_ensured]

/-- **A FINGERPRINT IDENTIFIES A HEX SECRET**: for any two configs, the bytes
    whose hash they present are the same exactly if neither secret is hex, or
    both are and differ in letter case at most. -/
theorem fingerprint_identifies_hex_secret (config config' : Config)
    (random random' : Vector UInt8 32) :
    Identifies config random ∧ Identifies config' random' ∧
      (secretBytes (config.ensureClientSecret random)
          = secretBytes (config'.ensureClientSecret random')
        ↔ (HexSecret (config.ensureClientSecret random)
            ↔ HexSecret (config'.ensureClientSecret random')) ∧
          (HexSecret (config.ensureClientSecret random) →
            lowerSecret (config.ensureClientSecret random)
              = lowerSecret (config'.ensureClientSecret random'))) :=
  ⟨identifies config random, identifies config' random',
    secretBytes_eq_iff ensured_ne_empty ensured_ne_empty⟩

/-! ## Secrets written by hand -/

/-- The hash of the empty string. -/
def emptyFingerprint : String :=
  "e3b0c44298fc1c149afbf4c8996fb92427ae41e4649b934ca495991b7852b855"

/-- A config with this secret. -/
def withSecret (secret : String) : Config :=
  { Config.default with clientSecret := secret }

/-- What the client with this secret sends to a server that accepts it.  Its
    proof is the only other thing that is hashed. -/
def sentWith (secret : String) : List Envelope :=
  (performHandshake { KvmConnect.library with sha256 := sha256Stale }
    KvmConnect.machine (withSecret secret) ⟨none, false, none⟩
    ⟨.ok (), .ok (.helloAck 4001 "desk"), .ok (), .ok .pairAccept⟩).sent

/-- A server with another PIN and the device of the empty hash. -/
def pairedServer : KvmControl.World (Fin 1) Unit :=
  KvmControl.World.start (Fin 1) Unit [emptyFingerprint] false

/-- Someone who has no secret presents the empty hash with a proof of zeros. -/
def presentEmpty : List (KvmControl.Action (Fin 1)) :=
  [.receive 0 (.hello "anyone" PROTOCOL_VERSION Caps.default), .advance 0,
    .receive 0 (.pairRequest (Vector.replicate 16 0) emptyFingerprint
      (Vector.replicate 32 0)),
    .advance 0, .advance 0, .advance 0]

/-- **HAND-EDITED SECRETS SHARE THE EMPTY HASH**: `zz` is not hex and `abc`
    has an odd length; both clients present the hash of no bytes, and a server
    that has paired it accepts it from anyone. -/
theorem edited_secrets_share_empty_hash :
    secretBytes ((withSecret "zz").ensureClientSecret (Vector.replicate 32 0))
        = [] ∧
      secretBytes ((withSecret "abc").ensureClientSecret
        (Vector.replicate 32 0)) = [] ∧
      lowerSecret (withSecret "zz") ≠ lowerSecret (withSecret "abc") ∧
      sentWith "zz" = [helloEnvelope KvmConnect.machine,
        .pairRequest (Vector.replicate 16 0) emptyFingerprint
          (pairingProof sha256Stale "" (Vector.replicate 16 0)
            emptyFingerprint)] ∧
      sentWith "abc" = sentWith "zz" ∧
      (exec (KvmControl.step KvmControl.settings fun _ => ()) pairedServer
        presentEmpty).map (fun w => (w.conns 0).sent)
        = some [.helloAck 4001 "server", .pairAccept] := by
  have hfingerprint :
      (withSecret "zz").clientFingerprint sha256Stale = emptyFingerprint := by
    decide
  refine ⟨rfl, rfl, by decide, ?_, rfl, by decide⟩
  rw [← hfingerprint]
  rfl

end KvmIdentity
