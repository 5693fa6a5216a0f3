import KvmRs.ConnectProofs

/-! # The server's certificate across restarts

    `setup_tls_server`: a start that finds one of `server.crt` and
    `server.key` missing generates a pair and writes the two files, one after
    the other; a start that finds both loads them.  A process may be stopped
    at any point, also in the middle of a write.  One process at a time uses
    the directory, and nobody else touches it.

    The order of the two writes is what makes this work: as long as there is
    no key a start begins anew, and once there is one the certificate beside
    it is complete and belongs to it. -/

namespace KvmServerCert

open KvmClientConfig KvmConnect Transition

/-- A self-signed certificate in DER and its private key. -/
structure CertifiedKey where
  cert : List UInt8
  key : List UInt8
  deriving DecidableEq

/-- PEM as it is written and read outside this repository, and
    `with_single_cert`. -/
structure Pem where
  serializePem : CertifiedKey → List UInt8
  serializePrivateKeyPem : CertifiedKey → List UInt8
  certs : List UInt8 → Option (List (List UInt8))
  pkcs8PrivateKeys : List UInt8 → Option (List (List UInt8))
  withSingleCert : List (List UInt8) → List UInt8 → Bool

/-- What is written for `p` reads back as `p`; of a key that is cut short
    nothing else than that key is read. -/
structure Pem.Lawful (k : Pem) (p : CertifiedKey) : Prop where
  certs : k.certs (k.serializePem p) = some [p.cert]
  keys : ∀ bytes keys, bytes <+: k.serializePrivateKeyPem p →
    k.pkcs8PrivateKeys bytes = some keys → keys = [] ∨ keys = [p.key]
  key : k.pkcs8PrivateKeys (k.serializePrivateKeyPem p) = some [p.key]
  accepted : k.withSingleCert [p.cert] p.key = true

/-- `server.crt` and `server.key`. -/
structure CertDir where
  crt : Option (List UInt8)
  key : Option (List UInt8)
  deriving DecidableEq

/-- Where the process is. -/
inductive Phase where
  | down
  | generating
  /-- `rest` is what `write_all` has still to write. -/
  | writingCert (p : CertifiedKey) (rest : List UInt8)
  | writingKey (p : CertifiedKey) (rest : List UInt8)
  | loading
  | serving (chain : List (List UInt8)) (key : List UInt8)
  deriving DecidableEq

structure State where
  dir : CertDir
  phase : Phase
  deriving DecidableEq

/-- Before the first start. -/
def State.fresh : State := ⟨⟨none, none⟩, .down⟩

inductive Action where
  | start
  /-- `generate_simple_self_signed`; the certificate file is created or
      truncated. -/
  | generate (p : CertifiedKey)
  /-- A write of `n` bytes goes through. -/
  | write (n : Nat)
  /-- The file written to is complete. -/
  | close
  | load
  /-- The process ends: by itself, with an error, or killed. -/
  | stop
  deriving DecidableEq

/-- `load_private_key`: the first of the keys. -/
def loadPrivateKey (k : Pem) (bytes : List UInt8) : Option (List UInt8) :=
  (k.pkcs8PrivateKeys bytes).bind List.head?

/-- The end of `setup_tls_server`. -/
def loadFiles (k : Pem) (dir : CertDir) :
    Option (List (List UInt8) × List UInt8) := do
  let certs ← dir.crt.bind k.certs
  let key ← dir.key.bind (loadPrivateKey k)
  if k.withSingleCert certs key then some (certs, key) else none

def step (k : Pem) (s : State) : Action → Option State
  | .start =>
      if s.phase = .down then
        if s.dir.crt = none ∨ s.dir.key = none then
          some { s with phase := .generating }
        else some { s with phase := .loading }
      else none
  | .generate p =>
      if s.phase = .generating then
        some { dir := { s.dir with crt := some [] }
               phase := .writingCert p (k.serializePem p) }
      else none
  | .write n =>
      match s.phase with
      | .writingCert p rest =>
          if 0 < n ∧ n ≤ rest.length then
            some { dir := { s.dir with
                     crt := s.dir.crt.map (· ++ rest.take n) }
                   phase := .writingCert p (rest.drop n) }
          else none
      | .writingKey p rest =>
          if 0 < n ∧ n ≤ rest.length then
            some { dir := { s.dir with
                     key := s.dir.key.map (· ++ rest.take n) }
                   phase := .writingKey p (rest.drop n) }
          else none
      | _ => none
  | .close =>
      match s.phase with
      -- `write_private_key` opens its file with `truncate(true)`
      | .writingCert p [] =>
          some { dir := { s.dir with key := some [] }
                 phase := .writingKey p (k.serializePrivateKeyPem p) }
      | .writingKey _ [] => some { s with phase := .loading }
      | _ => none
  | .load =>
      if s.phase = .loading then
        match loadFiles k s.dir with
        | some (chain, key) => some { s with phase := .serving chain key }
        | none => some { s with phase := .down }
      else none
  | .stop => some { s with phase := .down }

/-- `get_certificate_fingerprint`, which the log shows at startup;
    `fingerprint_der` is the client's. -/
def getCertificateFingerprint (k : Pem) (lib : Library) (dir : CertDir) :
    Option (List Char) :=
  ((dir.crt.bind k.certs).bind List.head?).map (fingerprintDer lib)

/-! ## What is in the directory -/

section Directory

variable {k : Pem} {made : CertifiedKey → Prop} {s s' : State} {d : CertDir}
  {p : CertifiedKey}

/-- The files of `p`, the key perhaps cut short. -/
structure Holds (k : Pem) (d : CertDir) (p : CertifiedKey) : Prop where
  crt : d.crt = some (k.serializePem p)
  key : ∃ bytes, d.key = some bytes ∧ bytes <+: k.serializePrivateKeyPem p

/-- A key is there only beside the certificate it belongs to. -/
def Paired (k : Pem) (made : CertifiedKey → Prop) (d : CertDir) : Prop :=
  d.key = none ∨ ∃ p, made p ∧ Holds k d p

/-- What the process is doing agrees with what is in the directory. -/
def Agrees (k : Pem) (made : CertifiedKey → Prop) (d : CertDir) :
    Phase → Prop
  | .down => True
  | .generating => d.key = none
  | .writingCert p rest => made p ∧ d.key = none ∧
      ∃ written, d.crt = some written ∧ written ++ rest = k.serializePem p
  | .writingKey p rest => made p ∧ d.crt = some (k.serializePem p) ∧
      ∃ written, d.key = some written ∧
        written ++ rest = k.serializePrivateKeyPem p
  | .loading => d.key ≠ none
  | .serving chain key => loadFiles k d = some (chain, key) ∧
      ∃ p, made p ∧ Holds k d p ∧ chain = [p.cert] ∧ key = p.key

structure Sound (k : Pem) (made : CertifiedKey → Prop) (s : State) : Prop where
  paired : Paired k made s.dir
  agrees : Agrees k made s.dir s.phase

theorem sound_fresh : Sound k made State.fresh where
  paired := Or.inl rfl
  agrees := trivial

/-- A directory with a key is one of a pair that was made. -/
theorem Paired.holds (h : Paired k made d) (hkey : d.key ≠ none) :
    ∃ p, made p ∧ Holds k d p := h.resolve_left hkey

/-- What `load_private_key` reads of a key, whole or cut short. -/
theorem loadPrivateKey_cut {bytes key : List UInt8} (hp : k.Lawful p)
    (hcut : bytes <+: k.serializePrivateKeyPem p)
    (h : loadPrivateKey k bytes = some key) : key = p.key := by
  obtain ⟨keys, hkeys, hhead⟩ := Option.bind_eq_some_iff.mp h
  rcases hp.keys bytes keys hcut hkeys with rfl | rfl
  · cases hhead
  · exact (Option.some.inj hhead).symm

theorem loadFiles_some {chain : List (List UInt8)} {key : List UInt8} :
    loadFiles k d = some (chain, key) ↔
      d.crt.bind k.certs = some chain ∧
        d.key.bind (loadPrivateKey k) = some key ∧
        k.withSingleCert chain key = true := by
  simp only [loadFiles, Option.bind_eq_bind, Option.bind_eq_some_iff]
  constructor
  · rintro ⟨certs, hcerts, key', hkey', hboth⟩
    split at hboth
    · rename_i haccepted
      obtain ⟨rfl, rfl⟩ := Prod.mk.inj (Option.some.inj hboth)
      exact ⟨hcerts, hkey', haccepted⟩
    · cases hboth
  · rintro ⟨hcerts, hkey, haccepted⟩
    exact ⟨chain, hcerts, key, hkey, if_pos haccepted⟩

/-- What is loaded from the files of `p` is `p`. -/
theorem Holds.load (h : Holds k d p) (hp : k.Lawful p)
    {chain : List (List UInt8)} {key : List UInt8}
    (hload : loadFiles k d = some (chain, key)) :
    chain = [p.cert] ∧ key = p.key := by
  obtain ⟨hcerts, hkey, -⟩ := loadFiles_some.mp hload
  obtain ⟨bytes, hbytes, hcut⟩ := h.key
  rw [h.crt, Option.bind_some, hp.certs] at hcerts
  rw [hbytes, Option.bind_some] at hkey
  exact ⟨(Option.some.inj hcerts).symm, loadPrivateKey_cut hp hcut hkey⟩

/-- The guard: the pairs generated are among those made. -/
def Makes (made : CertifiedKey → Prop) (_ : State) (a : Action) : Prop :=
  ∀ p, a = .generate p → made p

theorem sound_start (h : Sound k made s) (hs : step k s .start = some s') :
    Sound k made s' := by
  simp only [step] at hs
  split at hs
  · split at hs
    · rename_i hmissing
      rw [← Option.some.inj hs]
      refine ⟨h.paired, ?_⟩
      rcases h.paired with hkey | ⟨p, -, hholds⟩
      · exact hkey
      · rcases hmissing with hcrt | hkey
        · rw [hholds.crt] at hcrt
          cases hcrt
        · exact hkey
    · rename_i hboth
      rw [← Option.some.inj hs]
      exact ⟨h.paired, (not_or.mp hboth).2⟩
  · cases hs

theorem sound_generate (h : Sound k made s) (hp : made p)
    (hs : step k s (.generate p) = some s') : Sound k made s' := by
  simp only [step] at hs
  split at hs
  · rename_i hphase
    have hkey : s.dir.key = none := by
      have hagrees := h.agrees
      rwa [hphase] at hagrees
    rw [← Option.some.inj hs]
    exact ⟨Or.inl hkey, hp, hkey, [], rfl, rfl⟩
  · cases hs

theorem sound_write (h : Sound k made s) {n : Nat}
    (hs : step k s (.write n) = some s') : Sound k made s' := by
  have hagrees := h.agrees
  simp only [step] at hs
  split at hs
  · rename_i p rest hphase
    rw [hphase] at hagrees
    obtain ⟨hp, hkey, written, hcrt, hwhole⟩ := hagrees
    split at hs
    · rw [← Option.some.inj hs]
      refine ⟨Or.inl hkey, hp, hkey, written ++ rest.take n, ?_, ?_⟩
      · simp only [hcrt, Option.map_some]
      · rw [List.append_assoc, List.take_append_drop, hwhole]
    · cases hs
  · rename_i p rest hphase
    rw [hphase] at hagrees
    obtain ⟨hp, hcrt, written, hkey, hwhole⟩ := hagrees
    split at hs
    · rw [← Option.some.inj hs]
      have hnew : (s.dir.key.map (· ++ rest.take n))
          = some (written ++ rest.take n) := by
        simp only [hkey, Option.map_some]
      have hwhole' : written ++ rest.take n ++ rest.drop n
          = k.serializePrivateKeyPem p := by
        rw [List.append_assoc, List.take_append_drop, hwhole]
      refine ⟨Or.inr ⟨p, hp, hcrt, _, hnew, rest.drop n, hwhole'⟩, ?_⟩
      exact ⟨hp, hcrt, _, hnew, hwhole'⟩
    · cases hs
  · cases hs

theorem sound_close (h : Sound k made s)
    (hs : step k s .close = some s') : Sound k made s' := by
  have hagrees := h.agrees
  simp only [step] at hs
  split at hs
  · rename_i p hphase
    rw [hphase] at hagrees
    obtain ⟨hp, -, written, hcrt, hwhole⟩ := hagrees
    rw [List.append_nil] at hwhole
    rw [← Option.some.inj hs]
    have hdone : s.dir.crt = some (k.serializePem p) := by rw [hcrt, hwhole]
    exact ⟨Or.inr ⟨p, hp, hdone, [], rfl, List.nil_prefix⟩,
      hp, hdone, [], rfl, rfl⟩
  · rename_i p hphase
    rw [hphase] at hagrees
    obtain ⟨-, -, written, hkey, -⟩ := hagrees
    rw [← Option.some.inj hs]
    refine ⟨h.paired, ?_⟩
    show s.dir.key ≠ none
    rw [hkey]
    exact Option.some_ne_none written
  · cases hs

theorem sound_load (hlawful : ∀ p, made p → k.Lawful p) (h : Sound k made s)
    (hs : step k s .load = some s') : Sound k made s' := by
  have hagrees := h.agrees
  simp only [step] at hs
  split at hs
  · rename_i hphase
    rw [hphase] at hagrees
    obtain ⟨p, hp, hholds⟩ := h.paired.holds hagrees
    split at hs
    · rename_i chain key hload
      obtain ⟨hchain, hkey⟩ := hholds.load (hlawful p hp) hload
      rw [← Option.some.inj hs]
      exact ⟨h.paired, hload, p, hp, hholds, hchain, hkey⟩
    · rw [← Option.some.inj hs]
      exact ⟨h.paired, trivial⟩
  · cases hs

theorem sound_step (hlawful : ∀ p, made p → k.Lawful p) (s : State)
    (a : Action) (s' : State) (h : Sound k made s) (hmade : Makes made s a)
    (hs : step k s a = some s') : Sound k made s' := by
  cases a with
  | start => exact sound_start h hs
  | generate p => exact sound_generate h (hmade p rfl) hs
  | write n => exact sound_write h hs
  | close => exact sound_close h hs
  | load => exact sound_load hlawful h hs
  | stop =>
      rw [← Option.some.inj hs]
      exact ⟨h.paired, trivial⟩

/-- The run rule, for the pairs that the run itself generates. -/
theorem sound_exec {acts : List Action}
    (hlawful : ∀ p, Action.generate p ∈ acts → k.Lawful p)
    (hrun : exec (step k) State.fresh acts = some s) :
    Sound k (fun p => Action.generate p ∈ acts) s := by
  refine invariant_exec (sound_step hlawful) acts State.fresh s sound_fresh
    (guarded_of_forall acts _ ?_) hrun
  rintro a ha - p rfl
  exact ha

end Directory

/-! ## Once it has served -/

/-- The directory is `d`, which loads as this chain and this key, and nobody
    is about to write. -/
structure Settled (k : Pem) (d : CertDir) (chain : List (List UInt8))
    (key : List UInt8) (s : State) : Prop where
  dir : s.dir = d
  loads : loadFiles k d = some (chain, key)
  phase : s.phase = .down ∨ s.phase = .loading ∨ s.phase = .serving chain key

section Settled

variable {k : Pem} {d : CertDir} {chain : List (List UInt8)}
  {key : List UInt8} {s : State}

/-- What loads is there. -/
theorem Settled.present (h : Settled k d chain key s) :
    ¬ (s.dir.crt = none ∨ s.dir.key = none) := by
  obtain ⟨hcerts, hkey, -⟩ := loadFiles_some.mp h.loads
  rw [h.dir]
  rintro (hnone | hnone)
  · rw [hnone] at hcerts
    cases hcerts
  · rw [hnone] at hkey
    cases hkey

/-- No later step writes. -/
theorem settled_step (s : State) (a : Action) (s' : State)
    (h : Settled k d chain key s) (hs : step k s a = some s') :
    Settled k d chain key s' := by
  cases a with
  | start =>
      simp only [step] at hs
      split at hs
      · rw [if_neg h.present] at hs
        rw [← Option.some.inj hs]
        exact ⟨h.dir, h.loads, Or.inr (Or.inl rfl)⟩
      · cases hs
  | load =>
      simp only [step, h.dir, h.loads] at hs
      split at hs
      · rw [← Option.some.inj hs]
        exact ⟨rfl, h.loads, Or.inr (Or.inr rfl)⟩
      · cases hs
  | stop =>
      rw [← Option.some.inj hs]
      exact ⟨h.dir, h.loads, Or.inl rfl⟩
  | _ =>
      rcases h.phase with hp | hp | hp <;>
        (simp only [step, hp, reduceCtorEq, if_false] at hs)

/-- A start that is left alone serves. -/
theorem Settled.restart (h : Settled k d chain key s) (hdown : s.phase = .down) :
    exec (step k) s [.start, .load]
      = some { s with phase := .serving chain key } := by
  have hstart : step k s .start = some { s with phase := .loading } := by
    simp only [step]
    rw [if_pos hdown, if_neg h.present]
  have hload : step k { s with phase := .loading } .load
      = some { s with phase := .serving chain key } := by
    simp only [step, if_true, h.dir, h.loads]
  rw [exec_cons_some hstart, exec_cons_some hload]
  rfl

end Settled

/-- A client that has pinned this certificate gets through the TLS
    handshake. -/
theorem pinned_connects {lib : Library} {cert : List UInt8} {config : Config}
    {opts : ConnectOptions} {addr : List Char} (stream : Stream)
    (hopts : opts.expectedFingerprint = none)
    (hpin : config.knownFingerprint addr = some (fingerprintDer lib cert)) :
    tlsConnect lib (requiredFp lib config opts addr) addr
      (.certificate cert (.ok stream)) = .ok (cert, stream) := by
  have hup := fingerprintDer_isUpper lib cert
  have hok : verifyServerCert lib
      (newVerifier lib (some (fingerprintDer lib cert))) cert = .ok () := by
    rw [newVerifier, Option.map_some, hup.toUppercase, verifyServerCert_some,
      hup.map_toUpper]
  cases htrust : opts.trustNewCert with
  | true =>
      simp only [requiredFp, hopts, htrust, if_true, tlsConnect, newVerifier,
        Option.map_none, verifyServerCert]
  | false =>
      simp only [requiredFp, hopts, htrust, Bool.false_eq_true, if_false, hpin,
        tlsConnect, hok]

/-- **THE CERTIFICATE SURVIVES RESTARTS**: from an empty directory, whatever
    starts were cut short, a server that has once served presents one of the
    certificates it generated, with the key that belongs to it.  Ever after it
    serves with these, every start that is left alone does serve, the
    fingerprint it logs is that certificate's, and no client that has pinned
    it is turned away. -/
theorem certificate_survives_restarts (k : Pem) (lib : Library)
    (acts acts' : List Action) (s t : State) (chain : List (List UInt8))
    (key : List UInt8)
    (hlawful : ∀ p, Action.generate p ∈ acts → k.Lawful p)
    (hrun : exec (step k) State.fresh acts = some s)
    (hserving : s.phase = .serving chain key)
    (hlater : exec (step k) s acts' = some t) :
    ∃ p, Action.generate p ∈ acts ∧ chain = [p.cert] ∧ key = p.key ∧
      (∀ chain' key', t.phase = .serving chain' key' →
        chain' = chain ∧ key' = key) ∧
      (t.phase = .down → exec (step k) t [.start, .load]
        = some { t with phase := .serving chain key }) ∧
      getCertificateFingerprint k lib t.dir
        = some (fingerprintDer lib p.cert) ∧
      ∀ (config : Config) (opts : ConnectOptions) (addr : List Char)
        (stream : Stream), opts.expectedFingerprint = none →
        config.knownFingerprint addr = some (fingerprintDer lib p.cert) →
        tlsConnect lib (requiredFp lib config opts addr) addr
          (.certificate p.cert (.ok stream)) = .ok (p.cert, stream) := by
  have hagrees := (sound_exec hlawful hrun).agrees
  rw [hserving] at hagrees
  obtain ⟨hloads, p, hp, hholds, hchain, hkey⟩ := hagrees
  -- the directory stays as it was when the server came up
  have ht := invariant_reachable settled_step acts' s t
    ⟨rfl, hloads, Or.inr (Or.inr hserving)⟩ hlater
  refine ⟨p, hp, hchain, hkey, ?_, ht.restart, ?_, ?_⟩
  · intro chain' key' hphase
    rcases ht.phase with hdown | hloading | hup
    · rw [hdown] at hphase
      cases hphase
    · rw [hloading] at hphase
      cases hphase
    · rw [hup] at hphase
      obtain ⟨rfl, rfl⟩ := Phase.serving.inj hphase
      exact ⟨rfl, rfl⟩
  · simp only [getCertificateFingerprint, ht.dir, hholds.crt, Option.bind_some,
      (hlawful p hp).certs, List.head?_cons, Option.map_some]
  · exact fun config opts addr stream => pinned_connects stream

/-- A certificate and a key of one byte. -/
def pair (b : UInt8) : CertifiedKey := ⟨[b], [b]⟩

def pemText (label body : String) : List UInt8 :=
  ByteCodec.utf8 ("-----BEGIN " ++ label ++ "-----\n" ++ body
    ++ "\n-----END " ++ label ++ "-----\n")

/-- One section of the PEM of these pairs; an unfinished one is an error. -/
def readPem (label : String) (bytes : List UInt8) :
    Option (List (List UInt8)) :=
  if bytes = [] then some []
  else if bytes = pemText label "AQ==" then some [[1]]
  else if bytes = pemText label "Ag==" then some [[2]]
  else none

def samplePem : Pem where
  serializePem p :=
    pemText "CERTIFICATE" (if p.cert = [1] then "AQ==" else "Ag==")
  serializePrivateKeyPem p :=
    pemText "PRIVATE KEY" (if p.key = [1] then "AQ==" else "Ag==")
  certs := readPem "CERTIFICATE"
  pkcs8PrivateKeys := readPem "PRIVATE KEY"
  withSingleCert := fun _ _ => true

theorem samplePem_lawful {b : UInt8} (hb : b = 1 ∨ b = 2) :
    samplePem.Lawful (pair b) := by
  have hapart : ¬ pemText "PRIVATE KEY" "AQ==" <+: pemText "PRIVATE KEY" "Ag=="
      ∧ ¬ pemText "PRIVATE KEY" "Ag==" <+: pemText "PRIVATE KEY" "AQ==" := by
    decide +kernel
  rcases hb with rfl | rfl
  · refine ⟨by decide +kernel, ?_, by decide +kernel, rfl⟩
    intro bytes keys hcut hkeys
    simp only [samplePem, readPem] at hkeys
    split_ifs at hkeys with h0 h1 h2
    · exact Or.inl (Option.some.inj hkeys).symm
    · exact Or.inr (Option.some.inj hkeys).symm
    · exact absurd (h2 ▸ hcut) hapart.2
  · refine ⟨by decide +kernel, ?_, by decide +kernel, rfl⟩
    intro bytes keys hcut hkeys
    simp only [samplePem, readPem] at hkeys
    split_ifs at hkeys with h0 h1 h2
    · exact Or.inl (Option.some.inj hkeys).symm
    · exact absurd (h1 ▸ hcut) hapart.1
    · exact Or.inr (Option.some.inj hkeys).symm

/-- The first start is killed while it writes the certificate, the second one
    serves with a pair of its own. -/
def killedOnce : List Action :=
  [.start, .generate (pair 1), .write 20, .stop, .start, .generate (pair 2),
    .write 59, .close, .write 30, .write 29, .close, .load]

theorem certificate_survives_restarts_killed :
    ∃ s t, exec (step samplePem) State.fresh killedOnce = some s ∧
      exec (step samplePem) s [.stop, .start, .load] = some t ∧
      t.phase = .serving [[2]] [2] ∧
      getCertificateFingerprint samplePem library t.dir
        = some (fingerprintDer library [2]) := by
  let files : CertDir := ⟨some (pemText "CERTIFICATE" "Ag=="),
    some (pemText "PRIVATE KEY" "Ag==")⟩
  let s : State := ⟨files, .serving [[2]] [2]⟩
  have hrun : exec (step samplePem) State.fresh killedOnce = some s := by
    decide +kernel
  have hagain : exec (step samplePem) s [.stop, .start, .load] = some s := by
    decide +kernel
  have hlawful : ∀ p, Action.generate p ∈ killedOnce → samplePem.Lawful p := by
    intro p hp
    have hp' : p = pair 1 ∨ p = pair 2 := by
      simpa [killedOnce] using hp
    rcases hp' with rfl | rfl
    · exact samplePem_lawful (Or.inl rfl)
    · exact samplePem_lawful (Or.inr rfl)
  obtain ⟨p, -, hchain, -, -, -, hlogged, -⟩ :=
    certificate_survives_restarts samplePem library killedOnce
      [.stop, .start, .load] s s [[2]] [2] hlawful hrun rfl hagain
  refine ⟨s, s, hrun, hagain, rfl, ?_⟩
  rw [hlogged, ← (List.cons.inj hchain).1]

end KvmServerCert
