import KvmRs.AddrProofs
import KvmRs.EnvelopeProofs
import KvmRs.ErrorStateProofs
import KvmRs.GuessingProofs

/-! # The SOCKS5 negotiation

    `Socks5Server::negotiate` on every finite stream of bytes: the greeting,
    the credentials where anonymous access is not allowed, and the request
    with its three forms of address.  Where the stream ends the peer has
    closed; writes succeed. -/

namespace KvmSocks5

open KvmEnvelope KvmAuth KvmRateLimit KvmGuessing KvmAddr ErrorState

def SOCKS5_VERSION : UInt8 := 0x05

def AUTH_NO_AUTH : UInt8 := 0x00

def CMD_CONNECT : UInt8 := 0x01

def ATYP_IPV4 : UInt8 := 0x01

def ATYP_DOMAIN : UInt8 := 0x03

def ATYP_IPV6 : UInt8 := 0x04

/-! ## Rendering addresses -/

/-- A decimal number. -/
def decimal (n : Nat) : List Char := Nat.toDigits 10 n

/-- `Ipv4Addr` as text, from its octets. -/
def ipv4Text (octets : List UInt8) : List Char :=
  ".".toList.intercalate (octets.map fun o => decimal o.toNat)

/-- The segments of an IPv6 address. -/
def segments : List UInt8 → List Nat
  | a :: b :: rest => (256 * a.toNat + b.toNat) :: segments rest
  | _ => []

/-- A run of zero segments. -/
structure Span where
  start : Nat
  len : Nat

/-- The first longest run of zero segments: `i` is the index of the next
    segment, `current` the run that reaches up to it. -/
def longestZeroes : Nat → Span → Span → List Nat → Span
  | _, _, longest, [] => longest
  | i, current, longest, segment :: rest =>
      if segment = 0 then
        let current : Span :=
          ⟨if current.len = 0 then i else current.start, current.len + 1⟩
        longestZeroes (i + 1) current
          (if longest.len < current.len then current else longest) rest
      else longestZeroes (i + 1) ⟨0, 0⟩ longest rest

/-- `fmt_subslice`: the segments in hexadecimal, separated by colons. -/
def fmtSubslice (chunk : List Nat) : List Char :=
  ":".toList.intercalate (chunk.map (Nat.toDigits 16))

/-- `Ipv6Addr` as text. -/
def ipv6Text (ip : Vector UInt8 16) : List Char :=
  if ip.toList.take 12 = List.replicate 10 0 ++ [0xff, 0xff] then
    "::ffff:".toList ++ ipv4Text (ip.toList.drop 12)
  else
    let all := segments ip.toList
    let zeroes := longestZeroes 0 ⟨0, 0⟩ ⟨0, 0⟩ all
    if 1 < zeroes.len then
      fmtSubslice (all.take zeroes.start) ++ "::".toList
        ++ fmtSubslice (all.drop (zeroes.start + zeroes.len))
    else fmtSubslice all

example : ipv6Text #v[0, 1, 0, 0, 0, 2, 0, 3, 0, 0, 0, 0, 0, 0xab, 0, 0]
    = "1:0:2:3::ab:0".toList := by decide

/-- The address of a request. -/
inductive Address where
  | ipv4 (ip : Vector UInt8 4)
  | domain (name : String)
  | ipv6 (ip : Vector UInt8 16)

/-- The host as it stands in the target. -/
def Address.host : Address → List Char
  | .ipv4 ip => ipv4Text ip.toList
  | .domain name => name.toList
  | .ipv6 ip => "[".toList ++ ipv6Text ip ++ "]".toList

/-- `format!("{}:{}", host, port)`. -/
def Address.target (a : Address) (port : UInt16) : List Char :=
  a.host ++ ":".toList ++ decimal port.toNat

/-! ## The negotiation -/

/-- Why the negotiation stops. -/
inductive NegotiateError where
  /-- the stream ends inside a `read_exact` -/
  | io
  | unsupportedVersion (version : UInt8)
  | rateLimited
  /-- authentication required but no username/password is configured -/
  | noCredentials
  | noUserPass
  | unsupportedAuthVersion (version : UInt8)
  | authenticationFailed
  | noNoAuth
  | unsupportedCommand
  | invalidUtf8
  | unsupportedAddressType (atyp : UInt8)
  deriving DecidableEq

/-- The two directions of the stream, and the limiter. -/
structure Session (Ip : Type) where
  input : List UInt8
  output : List UInt8
  limiter : RateLimiter Ip

variable {Ip : Type}

/-- A part of the negotiation. -/
abbrev Negotiation (Ip : Type) := EStateM NegotiateError (Session Ip)

/-- `read_exact` into an array. -/
def readArray (n : Nat) : Negotiation Ip (Vector UInt8 n) := fun s =>
  if h : n ≤ s.input.length then
    .ok ⟨(s.input.take n).toArray, by
        rw [List.size_toArray, List.length_take, Nat.min_eq_left h]⟩
      { s with input := s.input.drop n }
  else .error .io { s with input := [] }

/-- `read_exact` into a fresh vector of a given length. -/
def readVec (n : Nat) : Negotiation Ip (List UInt8) := do
  let bytes ← readArray n
  return bytes.toList

def writeAll (bytes : List UInt8) : Negotiation Ip Unit := fun s =>
  .ok () { s with output := s.output ++ bytes }

/-- `u16::from_be_bytes`. -/
def portOf (port_buf : Vector UInt8 2) : UInt16 :=
  UInt16.ofNat (256 * port_buf[0].toNat + port_buf[1].toNat)

/-- No config at all allows anonymous access. -/
def anonymousAllowed (config : Option Socks5Config) : Bool :=
  match config with
  | some c => c.allowAnonymous
  | none => true

def hasCredentials (config : Option Socks5Config) : Bool :=
  match config with
  | some c => c.username.isSome && c.password.isSome
  | none => false

/-- Tell the peer, and stop. -/
def refuse {α : Type} (reply : List UInt8) (e : NegotiateError) :
    Negotiation Ip α := do
  writeAll reply
  throw e

/-- Version and methods of the greeting. -/
def readMethods : Negotiation Ip (List UInt8) := do
  let header ← readArray 2
  if header[0] ≠ SOCKS5_VERSION then throw (.unsupportedVersion header[0])
  else readVec header[1].toNat

/-- A length byte and that many bytes. -/
def readField : Negotiation Ip (List UInt8) := do
  let len ← readArray 1
  readVec len[0].toNat

/-- Version, username and password of the credential message. -/
def readCredentials : Negotiation Ip (List UInt8 × List UInt8) := do
  let auth_ver ← readArray 1
  if auth_ver[0] ≠ 0x01 then
    refuse [0x01, 0x01] (.unsupportedAuthVersion auth_ver[0])
  else do
    let uname ← readField
    let pass ← readField
    return (uname, pass)

/-- Both fields are compared, whatever the first comparison says. -/
def credentialsMatch (config : Option Socks5Config)
    (uname pass : List UInt8) : Bool :=
  let expected_user := (config.bind (·.username)).getD ""
  let expected_pass := (config.bind (·.password)).getD ""
  constantTimeEq uname (ByteCodec.utf8 expected_user)
    && constantTimeEq pass (ByteCodec.utf8 expected_pass)

section Limiter

variable [DecidableEq Ip]

/-- `record_pairing_failure` on the limiter of the proxy. -/
def recordFailure (ip : Ip) (now : Nat) : Negotiation Ip Unit := fun s =>
  .ok () { s with limiter := recordPairingFailure s.limiter ip now }

/-- Read the credentials and compare them; a failure is recorded at
    `failedAt`. -/
def checkCredentials (config : Option Socks5Config) (ip : Ip)
    (failedAt : Nat) : Negotiation Ip Unit := do
  let (uname, pass) ← readCredentials
  if credentialsMatch config uname pass then writeAll [0x01, 0x00]
  else do
    recordFailure ip failedAt
    refuse [0x01, 0x01] .authenticationFailed

/-- Choose a method and, if need be, check the credentials.  The limiter is
    asked at `checkedAt`. -/
def authenticate (config : Option Socks5Config) (ip : Ip)
    (checkedAt failedAt : Nat) (methods : List UInt8) :
    Negotiation Ip Unit := do
  let limiter := (← get).limiter
  if anonymousAllowed config then
    if AUTH_NO_AUTH ∉ methods then refuse [SOCKS5_VERSION, 0xFF] .noNoAuth
    else writeAll [SOCKS5_VERSION, AUTH_NO_AUTH]
  else if isRateLimited limiter ip checkedAt then
    refuse [SOCKS5_VERSION, 0xFF] .rateLimited
  else if ¬ hasCredentials config then throw .noCredentials
  else if AUTH_USER_PASS ∉ methods then
    refuse [SOCKS5_VERSION, 0xFF] .noUserPass
  else do
    writeAll [SOCKS5_VERSION, AUTH_USER_PASS]
    checkCredentials config ip failedAt

/-- The address and the port of a request, by the type of the address. -/
def readAddress (atyp : UInt8) : Negotiation Ip (List Char) := do
  if atyp = ATYP_IPV4 then
    let ip_buf ← readArray 4
    let port_buf ← readArray 2
    return (Address.ipv4 ip_buf).target (portOf port_buf)
  else if atyp = ATYP_DOMAIN then
    let domain_buf ← readField
    let port_buf ← readArray 2
    match ByteCodec.ofUtf8 domain_buf with
    | none => throw .invalidUtf8
    | some name => return (Address.domain name).target (portOf port_buf)
  else if atyp = ATYP_IPV6 then
    let ip_buf ← readArray 16
    let port_buf ← readArray 2
    return (Address.ipv6 ip_buf).target (portOf port_buf)
  else
    refuse [SOCKS5_VERSION, 0x08, 0x00, 0x01, 0, 0, 0, 0, 0, 0]
      (.unsupportedAddressType atyp)

/-- The request: only `CONNECT` is served. -/
def readTarget : Negotiation Ip (List Char) := do
  let req_header ← readArray 4
  if req_header[0] ≠ SOCKS5_VERSION ∨ req_header[1] ≠ CMD_CONNECT then
    refuse [SOCKS5_VERSION, 0x07, 0x00, 0x01, 0, 0, 0, 0, 0, 0]
      .unsupportedCommand
  else readAddress req_header[3]

/-- `Socks5Server::negotiate`. -/
def negotiate (config : Option Socks5Config) (ip : Ip)
    (checkedAt failedAt : Nat) : Negotiation Ip (List Char) := do
  let methods ← readMethods
  authenticate config ip checkedAt failedAt methods
  readTarget

end Limiter

/-! ## The parts succeed -/

section Parts

variable {s t : Session Ip}

theorem readArray_ok_iff {n : Nat} {v : Vector UInt8 n} :
    readArray n s = .ok v t ↔
      ∃ rest, s.input = v.toList ++ rest ∧ t = { s with input := rest } := by
  by_cases h : n ≤ s.input.length
  · simp only [readArray, dif_pos h, EStateM.Result.ok.injEq]
    constructor
    · rintro ⟨rfl, rfl⟩
      exact ⟨s.input.drop n, (List.take_append_drop n s.input).symm, rfl⟩
    · rintro ⟨rest, hin, rfl⟩
      have hlen : v.toList.length = n := Vector.length_toList
      refine ⟨?_, ?_⟩
      · apply Vector.toList_inj.mp
        show s.input.take n = v.toList
        rw [hin, List.take_left' hlen]
      · rw [hin, List.drop_left' hlen]
  · simp only [readArray, dif_neg h, reduceCtorEq, false_iff]
    rintro ⟨rest, hin, -⟩
    rw [hin, List.length_append, Vector.length_toList] at h
    omega

theorem readVec_ok_iff {n : Nat} {bytes : List UInt8} :
    readVec n s = .ok bytes t ↔
      bytes.length = n ∧ ∃ rest, s.input = bytes ++ rest ∧
        t = { s with input := rest } := by
  rw [readVec, bind_ok_iff]
  constructor
  · rintro ⟨v, u, hv, hpure⟩
    obtain ⟨rfl, rfl⟩ := EStateM.Result.ok.inj hpure
    exact ⟨Vector.length_toList, readArray_ok_iff.mp hv⟩
  · rintro ⟨hlen, hread⟩
    refine ⟨⟨bytes.toArray, hlen⟩, t, readArray_ok_iff.mpr hread, rfl⟩

@[simp] theorem refuse_ne_ok {α : Type} {reply : List UInt8}
    {e : NegotiateError} {a : α} :
    (refuse reply e : Negotiation Ip α) s = .ok a t ↔ False :=
  ⟨fun h => (nomatch h), False.elim⟩

@[simp] theorem throw_ne_ok {α : Type} {e : NegotiateError} {a : α} :
    (throw e : Negotiation Ip α) s = .ok a t ↔ False :=
  ⟨fun h => (nomatch h), False.elim⟩

/-- A byte that counts some bytes behind it. -/
theorem byte_eq_ofNat_iff {b : UInt8} {n : Nat} :
    n = b.toNat ↔ n < 256 ∧ b = UInt8.ofNat n := by
  constructor
  · rintro rfl
    exact ⟨b.toNat_lt, UInt8.ofNat_toNat.symm⟩
  · rintro ⟨hn, rfl⟩
    rw [UInt8.toNat_ofNat', Nat.mod_eq_of_lt hn]

theorem toList_one (v : Vector UInt8 1) : v.toList = [v[0]] := by
  match v with
  | ⟨⟨[a]⟩, _⟩ => rfl

theorem toList_two (v : Vector UInt8 2) : v.toList = [v[0], v[1]] := by
  match v with
  | ⟨⟨[a, b]⟩, _⟩ => rfl

theorem toList_four (v : Vector UInt8 4) :
    v.toList = [v[0], v[1], v[2], v[3]] := by
  match v with
  | ⟨⟨[a, b, c, d]⟩, _⟩ => rfl

/-- A field as it stands on the stream. -/
def fieldBytes (bytes : List UInt8) : List UInt8 :=
  UInt8.ofNat bytes.length :: bytes

theorem readField_ok_iff {bytes : List UInt8} :
    readField s = .ok bytes t ↔
      bytes.length < 256 ∧ ∃ rest, s.input = fieldBytes bytes ++ rest ∧
        t = { s with input := rest } := by
  rw [readField, bind_ok_iff]
  constructor
  · rintro ⟨len, u, hlen, hvec⟩
    obtain ⟨rest, hin, rfl⟩ := readArray_ok_iff.mp hlen
    obtain ⟨hn, rest', hin', rfl⟩ := readVec_ok_iff.mp hvec
    obtain ⟨hlt, hb⟩ := byte_eq_ofNat_iff.mp hn
    refine ⟨hlt, rest', ?_, rfl⟩
    rw [hin, toList_one, hb, show rest = bytes ++ rest' from hin']
    rfl
  · rintro ⟨hlt, rest, hin, rfl⟩
    refine ⟨#v[UInt8.ofNat bytes.length], { s with input := bytes ++ rest },
      readArray_ok_iff.mpr ⟨bytes ++ rest, hin, rfl⟩, ?_⟩
    refine readVec_ok_iff.mpr ⟨?_, rest, rfl, rfl⟩
    exact byte_eq_ofNat_iff.mpr ⟨hlt, rfl⟩

theorem readMethods_ok_iff {methods : List UInt8} :
    readMethods s = .ok methods t ↔
      methods.length < 256 ∧ ∃ rest,
        s.input = SOCKS5_VERSION :: fieldBytes methods ++ rest ∧
        t = { s with input := rest } := by
  rw [readMethods, bind_ok_iff]
  constructor
  · rintro ⟨header, u, hheader, hvec⟩
    obtain ⟨rest, hin, rfl⟩ := readArray_ok_iff.mp hheader
    by_cases hv : header[0] ≠ SOCKS5_VERSION
    · rw [if_pos hv, throw_ne_ok] at hvec
      exact hvec.elim
    · rw [if_neg hv] at hvec
      obtain ⟨hn, rest', hin', rfl⟩ := readVec_ok_iff.mp hvec
      obtain ⟨hlt, hb⟩ := byte_eq_ofNat_iff.mp hn
      refine ⟨hlt, rest', ?_, rfl⟩
      rw [hin, toList_two, hb, not_not.mp hv,
        show rest = methods ++ rest' from hin']
      rfl
  · rintro ⟨hlt, rest, hin, rfl⟩
    refine ⟨#v[SOCKS5_VERSION, UInt8.ofNat methods.length],
      { s with input := methods ++ rest },
      readArray_ok_iff.mpr ⟨methods ++ rest, hin, rfl⟩, ?_⟩
    rw [if_neg (by exact not_not.mpr rfl)]
    refine readVec_ok_iff.mpr ⟨?_, rest, rfl, rfl⟩
    exact byte_eq_ofNat_iff.mpr ⟨hlt, rfl⟩

/-- A credential message as it stands on the stream. -/
def credentialBytes (uname pass : List UInt8) : List UInt8 :=
  0x01 :: fieldBytes uname ++ fieldBytes pass

theorem readCredentials_ok_iff {uname pass : List UInt8} :
    readCredentials s = .ok (uname, pass) t ↔
      uname.length < 256 ∧ pass.length < 256 ∧ ∃ rest,
        s.input = credentialBytes uname pass ++ rest ∧
        t = { s with input := rest } := by
  rw [readCredentials, bind_ok_iff]
  constructor
  · rintro ⟨auth_ver, u, hver, hfields⟩
    obtain ⟨rest, hin, rfl⟩ := readArray_ok_iff.mp hver
    by_cases hv : auth_ver[0] ≠ 0x01
    · rw [if_pos hv, refuse_ne_ok] at hfields
      exact hfields.elim
    · rw [if_neg hv, bind_ok_iff] at hfields
      obtain ⟨uname', u', huser, hfields⟩ := hfields
      obtain ⟨pass', u'', hpass, hpure⟩ := bind_ok_iff.mp hfields
      obtain ⟨heq, rfl⟩ := EStateM.Result.ok.inj hpure
      obtain ⟨rfl, rfl⟩ := Prod.mk.inj heq
      obtain ⟨hulen, rest', hin', rfl⟩ := readField_ok_iff.mp huser
      obtain ⟨hplen, rest'', hin'', rfl⟩ := readField_ok_iff.mp hpass
      refine ⟨hulen, hplen, rest'', ?_, rfl⟩
      rw [hin, toList_one, not_not.mp hv,
        show rest = fieldBytes uname' ++ rest' from hin',
        show rest' = fieldBytes pass' ++ rest'' from hin'']
      simp [credentialBytes]
  · rintro ⟨hulen, hplen, rest, hin, rfl⟩
    refine ⟨#v[0x01],
      { s with input := fieldBytes uname ++ (fieldBytes pass ++ rest) },
      readArray_ok_iff.mpr ⟨_, ?_, rfl⟩, ?_⟩
    · rw [hin]
      simp [credentialBytes]
    rw [if_neg (by exact not_not.mpr rfl), bind_ok_iff]
    refine ⟨uname, { s with input := fieldBytes pass ++ rest },
      readField_ok_iff.mpr ⟨hulen, _, rfl, rfl⟩, ?_⟩
    refine bind_ok_iff.mpr ⟨pass, { s with input := rest },
      readField_ok_iff.mpr ⟨hplen, _, rfl, rfl⟩, rfl⟩

/-- The type and the bytes of an address as they stand on the stream. -/
def Address.bytes : Address → List UInt8
  | .ipv4 ip => ATYP_IPV4 :: ip.toList
  | .domain name => ATYP_DOMAIN :: fieldBytes (ByteCodec.utf8 name)
  | .ipv6 ip => ATYP_IPV6 :: ip.toList

/-- The length of a domain fits into its length byte. -/
def Address.Fits : Address → Prop
  | .domain name => (ByteCodec.utf8 name).length < 256
  | _ => True

/-- An address of fixed length, and the port behind it. -/
theorem readIp_ok_iff {n : Nat} {address : Vector UInt8 n → Address}
    {target : List Char} :
    (do
      let ip_buf ← readArray n
      let port_buf ← readArray 2
      return (address ip_buf).target (portOf port_buf) :
        Negotiation Ip (List Char)) s = .ok target t ↔
      ∃ ip port rest, s.input = ip.toList ++ port.toList ++ rest ∧
        target = (address ip).target (portOf port) ∧
        t = { s with input := rest } := by
  rw [bind_ok_iff]
  constructor
  · rintro ⟨ip, u, hip, h⟩
    obtain ⟨port, u', hport, hpure⟩ := bind_ok_iff.mp h
    obtain ⟨rfl, rfl⟩ := EStateM.Result.ok.inj hpure
    obtain ⟨rest, hin, rfl⟩ := readArray_ok_iff.mp hip
    obtain ⟨rest', hin', rfl⟩ := readArray_ok_iff.mp hport
    refine ⟨ip, port, rest', ?_, rfl, rfl⟩
    rw [hin, show rest = port.toList ++ rest' from hin', List.append_assoc]
  · rintro ⟨ip, port, rest, hin, rfl, rfl⟩
    rw [List.append_assoc] at hin
    refine ⟨ip, { s with input := port.toList ++ rest },
      readArray_ok_iff.mpr ⟨_, hin, rfl⟩, ?_⟩
    exact bind_ok_iff.mpr ⟨port, _, readArray_ok_iff.mpr ⟨rest, rfl, rfl⟩, rfl⟩

/-- A name, which has to be UTF-8, and the port behind it. -/
theorem readName_ok_iff {target : List Char} :
    (do
      let domain_buf ← readField
      let port_buf ← readArray 2
      match ByteCodec.ofUtf8 domain_buf with
      | none => throw .invalidUtf8
      | some name => return (Address.domain name).target (portOf port_buf) :
        Negotiation Ip (List Char)) s = .ok target t ↔
      ∃ name port rest, (Address.domain name).Fits ∧
        s.input = fieldBytes (ByteCodec.utf8 name) ++ port.toList ++ rest ∧
        target = (Address.domain name).target (portOf port) ∧
        t = { s with input := rest } := by
  rw [bind_ok_iff]
  constructor
  · rintro ⟨bytes, u, hfield, h⟩
    obtain ⟨port, u', hport, hname⟩ := bind_ok_iff.mp h
    obtain ⟨hlen, rest, hin, rfl⟩ := readField_ok_iff.mp hfield
    obtain ⟨rest', hin', rfl⟩ := readArray_ok_iff.mp hport
    cases hutf : ByteCodec.ofUtf8 bytes with
    | none =>
        simp only [hutf, throw_ne_ok] at hname
    | some name =>
        simp only [hutf] at hname
        obtain ⟨rfl, rfl⟩ := EStateM.Result.ok.inj hname
        have hbytes := (ByteCodec.ofUtf8_eq_some bytes name).mp hutf
        rw [hbytes] at hlen hin
        refine ⟨name, port, rest', hlen, ?_, rfl, rfl⟩
        rw [hin, show rest = port.toList ++ rest' from hin', List.append_assoc]
  · rintro ⟨name, port, rest, hfits, hin, rfl, rfl⟩
    have hutf : ByteCodec.ofUtf8 (ByteCodec.utf8 name) = some name :=
      (ByteCodec.ofUtf8_eq_some _ name).mpr rfl
    rw [List.append_assoc] at hin
    refine ⟨ByteCodec.utf8 name, { s with input := port.toList ++ rest },
      readField_ok_iff.mpr ⟨hfits, _, hin, rfl⟩, ?_⟩
    refine bind_ok_iff.mpr ⟨port, { s with input := rest },
      readArray_ok_iff.mpr ⟨rest, rfl, rfl⟩, ?_⟩
    simp only [hutf]
    rfl

/-- What a request for this address and port gives, and what it leaves. -/
theorem readAddress_ok_iff {atyp : UInt8} {target : List Char} :
    readAddress atyp s = .ok target t ↔
      ∃ (a : Address) (port : Vector UInt8 2) (rest : List UInt8), a.Fits ∧
        atyp :: s.input = a.bytes ++ port.toList ++ rest ∧
        target = a.target (portOf port) ∧ t = { s with input := rest } := by
  rw [readAddress]
  constructor
  · intro h
    by_cases h1 : atyp = ATYP_IPV4
    · rw [if_pos h1] at h
      obtain ⟨ip, port, rest, hin, htarget, ht⟩ := readIp_ok_iff.mp h
      exact ⟨.ipv4 ip, port, rest, trivial, by rw [h1, hin]; rfl, htarget, ht⟩
    rw [if_neg h1] at h
    by_cases h3 : atyp = ATYP_DOMAIN
    · rw [if_pos h3] at h
      obtain ⟨name, port, rest, hfits, hin, htarget, ht⟩ := readName_ok_iff.mp h
      exact ⟨.domain name, port, rest, hfits, by rw [h3, hin]; rfl, htarget, ht⟩
    rw [if_neg h3] at h
    by_cases h4 : atyp = ATYP_IPV6
    · rw [if_pos h4] at h
      obtain ⟨ip, port, rest, hin, htarget, ht⟩ := readIp_ok_iff.mp h
      exact ⟨.ipv6 ip, port, rest, trivial, by rw [h4, hin]; rfl, htarget, ht⟩
    · rw [if_neg h4, refuse_ne_ok] at h
      exact h.elim
  · rintro ⟨a, port, rest, hfits, hin, htarget, ht⟩
    cases a with
    | ipv4 ip =>
        obtain ⟨hatyp, hin⟩ := List.cons.inj hin
        rw [if_pos hatyp]
        exact readIp_ok_iff.mpr ⟨ip, port, rest, hin, htarget, ht⟩
    | domain name =>
        obtain ⟨hatyp, hin⟩ := List.cons.inj hin
        rw [if_neg (by rw [hatyp]; decide), if_pos hatyp]
        exact readName_ok_iff.mpr ⟨name, port, rest, hfits, hin, htarget, ht⟩
    | ipv6 ip =>
        obtain ⟨hatyp, hin⟩ := List.cons.inj hin
        rw [if_neg (by rw [hatyp]; decide), if_neg (by rw [hatyp]; decide),
          if_pos hatyp]
        exact readIp_ok_iff.mpr ⟨ip, port, rest, hin, htarget, ht⟩

/-- A request as it stands on the stream. -/
def requestBytes (reserved : UInt8) (a : Address) (port : Vector UInt8 2) :
    List UInt8 :=
  SOCKS5_VERSION :: CMD_CONNECT :: reserved :: a.bytes ++ port.toList

theorem readTarget_ok_iff {target : List Char} :
    readTarget s = .ok target t ↔
      ∃ reserved a port rest, a.Fits ∧
        s.input = requestBytes reserved a port ++ rest ∧
        target = a.target (portOf port) ∧ t = { s with input := rest } := by
  rw [readTarget, bind_ok_iff]
  constructor
  · rintro ⟨header, u, hheader, h⟩
    obtain ⟨rest, hin, rfl⟩ := readArray_ok_iff.mp hheader
    by_cases hv : header[0] ≠ SOCKS5_VERSION ∨ header[1] ≠ CMD_CONNECT
    · rw [if_pos hv, refuse_ne_ok] at h
      exact h.elim
    · rw [if_neg hv] at h
      obtain ⟨hver, hcmd⟩ := not_or.mp hv
      obtain ⟨a, port, rest', hfits, hin', htarget, rfl⟩ :=
        readAddress_ok_iff.mp h
      have hin'' : header[3] :: rest = a.bytes ++ port.toList ++ rest' := hin'
      refine ⟨header[2], a, port, rest', hfits, ?_, htarget, rfl⟩
      rw [hin, toList_four, not_not.mp hver, not_not.mp hcmd]
      simp only [requestBytes, List.cons_append, List.nil_append, hin'']
  · rintro ⟨reserved, a, port, rest, hfits, hin, htarget, rfl⟩
    obtain ⟨atyp, addr, haddr⟩ : ∃ atyp addr, a.bytes = atyp :: addr := by
      cases a with
      | ipv4 ip => exact ⟨_, _, rfl⟩
      | domain name => exact ⟨_, _, rfl⟩
      | ipv6 ip => exact ⟨_, _, rfl⟩
    refine ⟨#v[SOCKS5_VERSION, CMD_CONNECT, reserved, atyp],
      { s with input := addr ++ port.toList ++ rest },
      readArray_ok_iff.mpr ⟨_, ?_, rfl⟩, ?_⟩
    · rw [hin, requestBytes, haddr]
      rfl
    · rw [if_neg (by simp)]
      refine readAddress_ok_iff.mpr ⟨a, port, rest, hfits, ?_, htarget, rfl⟩
      rw [haddr]
      rfl

/-! ## Credentials -/

theorem hasCredentials_iff {config : Option Socks5Config} :
    hasCredentials config = true ↔ ∃ c username password,
      config = some c ∧ c.username = some username ∧
        c.password = some password := by
  cases config with
  | none => simp [hasCredentials]
  | some c => simp [hasCredentials, Option.isSome_iff_exists]

theorem credentialsMatch_iff {c : Socks5Config} {username password : String}
    (hu : c.username = some username) (hp : c.password = some password)
    {uname pass : List UInt8} :
    credentialsMatch (some c) uname pass = true ↔
      uname = ByteCodec.utf8 username ∧ pass = ByteCodec.utf8 password := by
  simp [credentialsMatch, hu, hp, constantTimeEq_iff]

/-- The bytes between greeting and request that let a peer in. -/
def Authorised (config : Option Socks5Config) (limited : Bool)
    (methods auth : List UInt8) : Prop :=
  if anonymousAllowed config then auth = [] ∧ AUTH_NO_AUTH ∈ methods
  else limited = false ∧ AUTH_USER_PASS ∈ methods ∧
    ∃ c username password, config = some c ∧ c.username = some username ∧
      c.password = some password ∧ (ByteCodec.utf8 username).length < 256 ∧
      (ByteCodec.utf8 password).length < 256 ∧
      auth = credentialBytes (ByteCodec.utf8 username)
        (ByteCodec.utf8 password)

section Authenticate

variable [DecidableEq Ip] {config : Option Socks5Config} {ip : Ip}
  {checkedAt failedAt : Nat} {methods : List UInt8}

theorem checkCredentials_ok_iff :
    checkCredentials config ip failedAt s = .ok () t ↔
      ∃ uname pass u, readCredentials s = .ok (uname, pass) u ∧
        credentialsMatch config uname pass = true ∧
        t = { u with output := u.output ++ [0x01, 0x00] } := by
  rw [checkCredentials, bind_ok_iff]
  constructor
  · rintro ⟨⟨uname, pass⟩, u, hread, h⟩
    by_cases hm : credentialsMatch config uname pass = true
    · simp only [hm, if_true] at h
      exact ⟨uname, pass, u, hread, hm, (EStateM.Result.ok.inj h).2.symm⟩
    · simp only [hm] at h
      cases h
  · rintro ⟨uname, pass, u, hread, hm, rfl⟩
    refine ⟨(uname, pass), u, hread, ?_⟩
    simp only [hm, if_true]
    rfl

/-- The peer gets as far as the credential message. -/
def MayLogIn (config : Option Socks5Config) (limited : Bool)
    (methods : List UInt8) : Prop :=
  limited = false ∧ hasCredentials config = true ∧ AUTH_USER_PASS ∈ methods

theorem authenticate_anonymous (hanon : anonymousAllowed config = true) :
    authenticate config ip checkedAt failedAt methods s
      = if AUTH_NO_AUTH ∈ methods then
          .ok () { s with output := s.output ++ [SOCKS5_VERSION, AUTH_NO_AUTH] }
        else .error .noNoAuth
          { s with output := s.output ++ [SOCKS5_VERSION, 0xFF] } := by
  have hget : (get : Negotiation Ip (Session Ip)) s = .ok s s := rfl
  rw [authenticate, bind_of_ok _ hget, if_pos hanon]
  by_cases hm : AUTH_NO_AUTH ∈ methods
  · rw [if_pos hm, if_neg (not_not.mpr hm)]
    rfl
  · rw [if_neg hm, if_pos hm]
    rfl

theorem authenticate_login (hanon : ¬ anonymousAllowed config = true)
    (hlogin : MayLogIn config (isRateLimited s.limiter ip checkedAt) methods) :
    authenticate config ip checkedAt failedAt methods s
      = checkCredentials config ip failedAt { s with
        output := s.output ++ [SOCKS5_VERSION, AUTH_USER_PASS] } := by
  obtain ⟨hlim, hcred, hm⟩ := hlogin
  have hget : (get : Negotiation Ip (Session Ip)) s = .ok s s := rfl
  rw [authenticate, bind_of_ok _ hget, if_neg hanon,
    if_neg (by rw [hlim]; exact Bool.false_ne_true),
    if_neg (not_not.mpr hcred), if_neg (not_not.mpr hm)]
  rfl

theorem authenticate_refused (hanon : ¬ anonymousAllowed config = true)
    (hlogin : ¬ MayLogIn config (isRateLimited s.limiter ip checkedAt)
      methods) :
    ∃ e u, authenticate config ip checkedAt failedAt methods s = .error e u ∧
      u.limiter = s.limiter := by
  have hget : (get : Negotiation Ip (Session Ip)) s = .ok s s := rfl
  rw [authenticate, bind_of_ok _ hget, if_neg hanon]
  by_cases hlim : isRateLimited s.limiter ip checkedAt = true
  · rw [if_pos hlim]
    exact ⟨_, _, rfl, rfl⟩
  rw [if_neg hlim]
  by_cases hcred : hasCredentials config = true
  · rw [if_neg (not_not.mpr hcred)]
    by_cases hm : AUTH_USER_PASS ∈ methods
    · exact absurd ⟨Bool.eq_false_of_not_eq_true hlim, hcred, hm⟩ hlogin
    · rw [if_pos hm]
      exact ⟨_, _, rfl, rfl⟩
  · rw [if_pos hcred]
    exact ⟨_, _, rfl, rfl⟩

/-- The way through the authentication, and what it consumes. -/
theorem authenticate_ok_iff :
    authenticate config ip checkedAt failedAt methods s = .ok () t ↔
      ∃ auth rest, s.input = auth ++ rest ∧
        Authorised config (isRateLimited s.limiter ip checkedAt) methods auth ∧
        t = { s with
          input := rest
          output := s.output ++
            if anonymousAllowed config then [SOCKS5_VERSION, AUTH_NO_AUTH]
            else [SOCKS5_VERSION, AUTH_USER_PASS, 0x01, 0x00] } := by
  by_cases hanon : anonymousAllowed config = true
  · rw [authenticate_anonymous hanon]
    simp only [hanon, if_true, Authorised]
    by_cases hm : AUTH_NO_AUTH ∈ methods
    · rw [if_pos hm, EStateM.Result.ok.injEq]
      constructor
      · rintro ⟨-, rfl⟩
        exact ⟨[], s.input, rfl, ⟨rfl, hm⟩, rfl⟩
      · rintro ⟨auth, rest, hin, ⟨rfl, -⟩, rfl⟩
        rw [List.nil_append] at hin
        rw [← hin]
        exact ⟨rfl, rfl⟩
    · rw [if_neg hm]
      refine iff_of_false (fun h => nomatch h) ?_
      rintro ⟨auth, rest, -, ⟨-, hmem⟩, -⟩
      exact hm hmem
  simp only [hanon, Authorised]
  by_cases hlogin : MayLogIn config (isRateLimited s.limiter ip checkedAt)
    methods
  · rw [authenticate_login hanon hlogin, checkCredentials_ok_iff]
    obtain ⟨hlim, hcred, hm⟩ := hlogin
    obtain ⟨c, username, password, rfl, hu, hp⟩ := hasCredentials_iff.mp hcred
    constructor
    · rintro ⟨uname, pass, u, hread, hmatch, rfl⟩
      obtain ⟨hul, hpl, rest, hin, rfl⟩ := readCredentials_ok_iff.mp hread
      obtain ⟨rfl, rfl⟩ := (credentialsMatch_iff hu hp).mp hmatch
      refine ⟨_, rest, hin, ⟨hlim, hm, c, username, password, rfl, hu, hp, hul,
        hpl, rfl⟩, ?_⟩
      simp
    · rintro ⟨auth, rest, hin, ⟨-, -, c', username', password', hc', hu', hp',
        hul, hpl, rfl⟩, rfl⟩
      obtain rfl := Option.some.inj hc'
      obtain rfl := Option.some.inj (hu.symm.trans hu')
      obtain rfl := Option.some.inj (hp.symm.trans hp')
      refine ⟨_, _, _, readCredentials_ok_iff.mpr ⟨hul, hpl, rest, hin, rfl⟩,
        (credentialsMatch_iff hu hp).mpr ⟨rfl, rfl⟩, ?_⟩
      simp
  · obtain ⟨e, u, herr, -⟩ := authenticate_refused hanon hlogin
    rw [herr]
    refine iff_of_false (fun h => nomatch h) ?_
    rintro ⟨auth, rest, -, ⟨hlim, hm, c, username, password, hc, hu, hp, -⟩, -⟩
    exact hlogin ⟨hlim,
      hasCredentials_iff.mpr ⟨c, username, password, hc, hu, hp⟩, hm⟩

/-- **THE WAY THROUGH**: exactly these streams, and exactly the bytes behind
    the request stay unread. -/
theorem negotiate_ok_iff {target : List Char} {rest : List UInt8} :
    (∃ t, negotiate config ip checkedAt failedAt s = .ok target t ∧
      t.input = rest) ↔
      ∃ methods auth reserved a port, methods.length < 256 ∧
        Authorised config (isRateLimited s.limiter ip checkedAt) methods auth ∧
        a.Fits ∧
        s.input = SOCKS5_VERSION :: fieldBytes methods ++ auth
          ++ requestBytes reserved a port ++ rest ∧
        target = a.target (portOf port) := by
  constructor
  · rintro ⟨t, h, rfl⟩
    rw [negotiate, bind_ok_iff] at h
    obtain ⟨methods, u, hmethods, h⟩ := h
    obtain ⟨⟨⟩, u', hauth, htarget⟩ := bind_ok_iff.mp h
    obtain ⟨hlen, rest₁, hin₁, rfl⟩ := readMethods_ok_iff.mp hmethods
    obtain ⟨auth, rest₂, hin₂, hok, rfl⟩ := authenticate_ok_iff.mp hauth
    obtain ⟨reserved, a, port, rest₃, hfits, hin₃, rfl, rfl⟩ :=
      readTarget_ok_iff.mp htarget
    refine ⟨methods, auth, reserved, a, port, hlen, hok, hfits, ?_, rfl⟩
    rw [hin₁, show rest₁ = auth ++ rest₂ from hin₂,
      show rest₂ = requestBytes reserved a port ++ rest₃ from hin₃]
    simp
  · rintro ⟨methods, auth, reserved, a, port, hlen, hok, hfits, hin, rfl⟩
    have hin' : s.input = SOCKS5_VERSION :: fieldBytes methods
        ++ (auth ++ (requestBytes reserved a port ++ rest)) := by
      rw [hin]
      simp
    have hmethods := readMethods_ok_iff.mpr ⟨hlen, _, hin', rfl⟩
    have hauth := (@authenticate_ok_iff Ip { s with
      input := auth ++ (requestBytes reserved a port ++ rest) } _ _
      config ip checkedAt failedAt methods).mpr ⟨auth, _, rfl, hok, rfl⟩
    rw [negotiate, bind_of_ok _ hmethods, bind_of_ok _ hauth]
    exact ⟨_, readTarget_ok_iff.mpr
      ⟨reserved, a, port, rest, hfits, rfl, rfl, rfl⟩, rfl⟩

/-! ## The limiter -/

omit [DecidableEq Ip] in
theorem keeps_readArray (n : Nat) :
    Keeps Session.limiter (readArray n : Negotiation Ip _) := by
  intro u
  simp only [readArray]
  split <;> rfl

omit [DecidableEq Ip] in
theorem keeps_readVec (n : Nat) :
    Keeps Session.limiter (readVec n : Negotiation Ip _) :=
  (keeps_readArray n).bind fun _ => keeps_pure _ _

omit [DecidableEq Ip] in
theorem keeps_readField :
    Keeps Session.limiter (readField : Negotiation Ip _) :=
  (keeps_readArray 1).bind fun _ => keeps_readVec _

omit [DecidableEq Ip] in
theorem keeps_refuse {α : Type} (reply : List UInt8) (e : NegotiateError) :
    Keeps Session.limiter (refuse reply e : Negotiation Ip α) :=
  fun _ => rfl

omit [DecidableEq Ip] in
theorem keeps_readMethods :
    Keeps Session.limiter (readMethods : Negotiation Ip _) := by
  refine (keeps_readArray 2).bind fun header => ?_
  by_cases hv : header[0] ≠ SOCKS5_VERSION
  · rw [if_pos hv]
    exact keeps_throw _ _
  · rw [if_neg hv]
    exact keeps_readVec _

omit [DecidableEq Ip] in
theorem keeps_readCredentials :
    Keeps Session.limiter (readCredentials : Negotiation Ip _) := by
  refine (keeps_readArray 1).bind fun auth_ver => ?_
  by_cases hv : auth_ver[0] ≠ 0x01
  · rw [if_pos hv]
    exact keeps_refuse _ _
  · rw [if_neg hv]
    exact keeps_readField.bind fun _ =>
      keeps_readField.bind fun _ => keeps_pure _ _

omit [DecidableEq Ip] in
theorem keeps_readTarget :
    Keeps Session.limiter (readTarget : Negotiation Ip _) := by
  have haddr : ∀ atyp,
      Keeps Session.limiter (readAddress atyp : Negotiation Ip _) := by
    intro atyp
    rw [readAddress]
    split
    · exact (keeps_readArray 4).bind fun _ =>
        (keeps_readArray 2).bind fun _ => keeps_pure _ _
    split
    · refine keeps_readField.bind fun bytes =>
        (keeps_readArray 2).bind fun _ => ?_
      cases ByteCodec.ofUtf8 bytes with
      | none => exact keeps_throw _ _
      | some name => exact keeps_pure _ _
    split
    · exact (keeps_readArray 16).bind fun _ =>
        (keeps_readArray 2).bind fun _ => keeps_pure _ _
    · exact keeps_refuse _ _
  refine (keeps_readArray 4).bind fun header => ?_
  by_cases hv : header[0] ≠ SOCKS5_VERSION ∨ header[1] ≠ CMD_CONNECT
  · rw [if_pos hv]
    exact keeps_refuse _ _
  · rw [if_neg hv]
    exact haddr _

/-- The limiter after the credential message. -/
theorem checkCredentials_limiter :
    (final (checkCredentials config ip failedAt s)).limiter ≠ s.limiter ↔
      ∃ uname pass u, readCredentials s = .ok (uname, pass) u ∧
        credentialsMatch config uname pass = false := by
  have hkeep := keeps_readCredentials s
  rw [checkCredentials]
  cases hread : readCredentials s with
  | error e u =>
      rw [hread] at hkeep
      rw [bind_of_error _ hread]
      refine iff_of_false (not_not.mpr hkeep) ?_
      rintro ⟨uname, pass, u', heq, -⟩
      cases heq
  | ok credentials u =>
      obtain ⟨uname, pass⟩ := credentials
      rw [hread] at hkeep
      have hu : u.limiter = s.limiter := hkeep
      rw [bind_of_ok _ hread]
      by_cases hm : credentialsMatch config uname pass = true
      · simp only [hm, if_true]
        refine iff_of_false (not_not.mpr hu) ?_
        rintro ⟨uname', pass', u', heq, hno⟩
        obtain ⟨heq, -⟩ := EStateM.Result.ok.inj heq
        obtain ⟨rfl, rfl⟩ := Prod.mk.inj heq
        rw [hm] at hno
        cases hno
      · simp only [hm, Bool.false_eq_true, if_false]
        refine iff_of_true ?_
          ⟨uname, pass, u, rfl, Bool.eq_false_of_not_eq_true hm⟩
        show recordPairingFailure u.limiter ip failedAt ≠ s.limiter
        rw [← hu]
        exact recordPairingFailure_ne _ _ _

/-- The limiter after the authentication. -/
theorem authenticate_limiter :
    (final (authenticate config ip checkedAt failedAt methods s)).limiter
        ≠ s.limiter ↔
      anonymousAllowed config = false ∧
        MayLogIn config (isRateLimited s.limiter ip checkedAt) methods ∧
        ∃ uname pass rest, uname.length < 256 ∧ pass.length < 256 ∧
          s.input = credentialBytes uname pass ++ rest ∧
          credentialsMatch config uname pass = false := by
  by_cases hanon : anonymousAllowed config = true
  · rw [authenticate_anonymous hanon, hanon]
    refine iff_of_false ?_ (fun h => nomatch h.1)
    split <;> exact not_not.mpr rfl
  by_cases hlogin : MayLogIn config (isRateLimited s.limiter ip checkedAt)
    methods
  · rw [authenticate_login hanon hlogin]
    refine (checkCredentials_limiter (s := { s with
      output := s.output ++ [SOCKS5_VERSION, AUTH_USER_PASS] })).trans ?_
    constructor
    · rintro ⟨uname, pass, u, hread, hno⟩
      obtain ⟨hul, hpl, rest, hin, -⟩ := readCredentials_ok_iff.mp hread
      exact ⟨Bool.eq_false_of_not_eq_true hanon, hlogin, uname, pass, rest, hul,
        hpl, hin, hno⟩
    · rintro ⟨-, -, uname, pass, rest, hul, hpl, hin, hno⟩
      exact ⟨uname, pass, _,
        readCredentials_ok_iff.mpr ⟨hul, hpl, rest, hin, rfl⟩, hno⟩
  · obtain ⟨e, u, herr, hu⟩ := authenticate_refused hanon hlogin
    rw [herr]
    exact iff_of_false (not_not.mpr hu) (fun h => hlogin h.2.1)

/-- A complete credential message with wrong credentials, where one is
    asked for. -/
def WrongCredentials (config : Option Socks5Config) (limited : Bool)
    (stream : List UInt8) : Prop :=
  anonymousAllowed config = false ∧
    ∃ methods uname pass rest, methods.length < 256 ∧
      MayLogIn config limited methods ∧ uname.length < 256 ∧
      pass.length < 256 ∧
      stream = SOCKS5_VERSION :: fieldBytes methods
        ++ credentialBytes uname pass ++ rest ∧
      ∀ c username password, config = some c → c.username = some username →
        c.password = some password →
        ¬ (uname = ByteCodec.utf8 username ∧ pass = ByteCodec.utf8 password)

/-- With both credentials configured, a mismatch is a mismatch with them. -/
theorem credentialsMatch_false_iff (hcred : hasCredentials config = true)
    {uname pass : List UInt8} :
    credentialsMatch config uname pass = false ↔
      ∀ c username password, config = some c → c.username = some username →
        c.password = some password →
        ¬ (uname = ByteCodec.utf8 username ∧
          pass = ByteCodec.utf8 password) := by
  obtain ⟨c, username, password, rfl, hu, hp⟩ := hasCredentials_iff.mp hcred
  rw [← Bool.not_eq_true, credentialsMatch_iff hu hp]
  constructor
  · rintro h c' username' password' hc' hu' hp'
    obtain rfl := Option.some.inj hc'
    obtain rfl := Option.some.inj (hu.symm.trans hu')
    obtain rfl := Option.some.inj (hp.symm.trans hp')
    exact h
  · exact fun h => h c username password rfl hu hp

theorem negotiate_limiter :
    (final (negotiate config ip checkedAt failedAt s)).limiter ≠ s.limiter ↔
      WrongCredentials config (isRateLimited s.limiter ip checkedAt)
        s.input := by
  have hkeep := keeps_readMethods s
  rw [negotiate]
  cases hread : readMethods s with
  | error e u =>
      rw [hread] at hkeep
      rw [bind_of_error _ hread]
      refine iff_of_false (not_not.mpr hkeep) ?_
      rintro ⟨-, methods, uname, pass, rest, hlen, -, -, -, hin, -⟩
      rw [List.append_assoc] at hin
      rw [readMethods_ok_iff.mpr ⟨hlen, _, hin, rfl⟩] at hread
      cases hread
  | ok methods u =>
      obtain ⟨hlen, rest, hin, rfl⟩ := readMethods_ok_iff.mp hread
      rw [bind_of_ok _ hread, final_bind fun _ => keeps_readTarget]
      refine (authenticate_limiter (s := { s with input := rest })).trans ?_
      constructor
      · rintro ⟨hanon, hlogin, uname, pass, rest', hul, hpl, hin', hno⟩
        refine ⟨hanon, methods, uname, pass, rest', hlen, hlogin, hul, hpl, ?_,
          (credentialsMatch_false_iff hlogin.2.1).mp hno⟩
        rw [hin, List.append_assoc]
        exact congrArg _ hin'
      · rintro ⟨hanon, methods', uname, pass, rest', hlen', hlogin, hul, hpl,
          hin', hno⟩
        -- the greeting is read in one way only
        rw [List.append_assoc] at hin'
        rw [readMethods_ok_iff.mpr ⟨hlen', _, hin', rfl⟩] at hread
        obtain ⟨rfl, hsame⟩ := EStateM.Result.ok.inj hread
        refine ⟨hanon, hlogin, uname, pass, rest', hul, hpl, ?_,
          (credentialsMatch_false_iff hlogin.2.1).mpr hno⟩
        exact (congrArg Session.input hsame).symm

end Authenticate

end Parts

/-! ## The negotiation as a whole -/

/-- Cutting a target at its last colon gives back the host text and the
    port. -/
theorem target_rsplitOnce (a : Address) (port : UInt16) :
    rsplitOnce ':' (a.target port) = some (a.host, decimal port.toNat) ∧
      parseU16 (decimal port.toNat) = some port := by
  refine ⟨?_, parseU16_toDigits port⟩
  have hno : ':' ∉ decimal port.toNat := by
    intro hmem
    have hbad := Nat.isDigit_of_mem_toDigits (by decide) (by decide) hmem
    exact absurd hbad (by decide)
  rw [Address.target, List.append_assoc]
  exact rsplitOnce_append hno

/-- **THE NEGOTIATION**: which streams are let through to which target, what
    they leave unread, and when the limiter changes; for every stream, config
    and limiter state. -/
theorem negotiation_spec [DecidableEq Ip] (config : Option Socks5Config)
    (ip : Ip) (checkedAt failedAt : Nat) (limiter : RateLimiter Ip)
    (stream : List UInt8) :
    (∀ target rest,
      (∃ t, negotiate config ip checkedAt failedAt ⟨stream, [], limiter⟩
          = .ok target t ∧ t.input = rest) ↔
        ∃ methods auth reserved a port, methods.length < 256 ∧
          Authorised config (isRateLimited limiter ip checkedAt) methods auth ∧
          a.Fits ∧
          stream = SOCKS5_VERSION :: fieldBytes methods ++ auth
            ++ requestBytes reserved a port ++ rest ∧
          target = a.target (portOf port)) ∧
    (∀ (a : Address) (port : UInt16),
      rsplitOnce ':' (a.target port) = some (a.host, decimal port.toNat) ∧
        parseU16 (decimal port.toNat) = some port) ∧
    ((final (negotiate config ip checkedAt failedAt
        ⟨stream, [], limiter⟩)).limiter ≠ limiter ↔
      WrongCredentials config (isRateLimited limiter ip checkedAt) stream) :=
  ⟨fun _ _ => negotiate_ok_iff, target_rsplitOnce, negotiate_limiter⟩

/-- The credentials `ab`/`c`, then a request for `x:256` with one byte behind
    it. -/
example :
    (match negotiate (some ⟨some "ab", some "c", false⟩) () 0 0
        (⟨[5, 1, 2, 1, 2, 97, 98, 1, 99, 5, 1, 0, 3, 1, 120, 1, 0, 7], [],
          fun _ => none⟩ : Session Unit) with
      | .ok target t => (target, t.input)
      | .error _ t => ([], t.input)) = ("x:256".toList, [7]) := by
  decide

end KvmSocks5
