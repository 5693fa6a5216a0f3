import KvmRs.HandshakeProofs
import KvmRs.IdentityProofs

/-! # The PIN is needed once

    A server over several lives: it runs, with any number of other connections
    in any interleaving, saves its config after each pairing, and is started
    again from what is in the config file, with another PIN and other
    settings.  Other processes write the file too (`kvm-server --revoke`), and
    a save that fails is only logged.

    A client that has been let in once, is in the file, and keeps the secret
    of its own config is let in by every later handshake whatever PIN it shows
    or does not show, unless its address is rate-limited at that moment or the
    file was written without it. -/

namespace KvmPairOnce

open KvmEnvelope KvmAuth KvmRateLimit KvmClientConfig KvmConnect KvmControl
  KvmHandshake KvmIdentity Transition

variable {C Ip : Type} [DecidableEq C] [DecidableEq Ip]

/-- A server process, its settings and what it is doing, and the paired
    devices in the config file. -/
structure Process (C Ip : Type) where
  settings : Settings
  world : KvmControl.World C Ip
  file : List String

inductive Life (C : Type) where
  /-- A step of the process; `saved` says whether a save went through. -/
  | act (a : KvmControl.Action C) (saved : Bool)
  /-- Another process writes the file, or a save that fails damages it. -/
  | rewrite (devices : List String)
  /-- The process ends, and a new one loads the file. -/
  | restart (settings : Settings) (forwarding : Bool)

/-- The process moves on; when it has paired a device it saves its config. -/
def Process.served (s : Process C Ip) (w : KvmControl.World C Ip)
    (saved : Bool) : Process C Ip :=
  { s with
    world := w
    file := if w.pairedDevices ≠ s.world.pairedDevices ∧ saved = true then
        w.pairedDevices else s.file }

def live (ip : C → Ip) (s : Process C Ip) : Life C → Option (Process C Ip)
  | .act a saved =>
      (KvmControl.step s.settings ip s.world a).map fun w => s.served w saved
  | .rewrite devices => some { s with file := devices }
  | .restart settings forwarding =>
      some { settings := settings
             world := World.start C Ip s.file forwarding
             file := s.file }

/-- Whoever else writes the file leaves the device in it. -/
def Keeps (fp : String) (_ : Process C Ip) : Life C → Prop
  | .rewrite devices => fp ∈ devices
  | _ => True

/-! ## The server remembers -/

section Server

variable {k : Settings} {ip : C → Ip} {w w' : KvmControl.World C Ip}

/-- A handler's step forgets no paired device. -/
theorem advance_remembers {c : C} (h : advance k ip w c = some w') :
    ∀ fp ∈ w.pairedDevices, fp ∈ w'.pairedDevices := by
  intro fp hfp
  cases hp : (w.conns c).phase with
  | comparing req =>
      simp only [advance, hp] at h
      split at h <;> (rw [← Option.some.inj h]; exact hfp)
  | adding req =>
      simp only [advance, hp] at h
      rw [← Option.some.inj h]
      exact List.mem_cons_of_mem req.fingerprint hfp
  | firstClient =>
      simp only [advance, hp] at h
      split at h <;> (rw [← Option.some.inj h]; exact hfp)
  | broadcasting es =>
      cases es <;>
        (simp only [advance, hp] at h; rw [← Option.some.inj h]; exact hfp)
  | hello => simp only [advance, hp, reduceCtorEq] at h
  | awaitingPair => simp only [advance, hp, reduceCtorEq] at h
  | looping => simp only [advance, hp, reduceCtorEq] at h
  | ended => simp only [advance, hp, reduceCtorEq] at h
  | _ =>
      simp only [advance, hp] at h
      rw [← Option.some.inj h]
      exact hfp

/-- No step does. -/
theorem step_remembers {a : KvmControl.Action C}
    (h : KvmControl.step k ip w a = some w') :
    ∀ fp ∈ w.pairedDevices, fp ∈ w'.pairedDevices := by
  intro fp hfp
  cases a with
  | receive c e =>
      obtain ⟨x, -, hw⟩ := Option.map_eq_some_iff.mp h
      rw [← hw]
      exact hfp
  | advance c => exact advance_remembers h fp hfp
  | takeClipboard =>
      simp only [KvmControl.step] at h
      split at h
      · rw [← Option.some.inj h]
        exact hfp
      · cases h
  | broadcast e => rw [← Option.some.inj h]; exact hfp
  | hotkey on => rw [← Option.some.inj h]; exact hfp
  | tick d => rw [← Option.some.inj h]; exact hfp
  | _ =>
      simp only [KvmControl.step] at h
      split at h
      · rw [← Option.some.inj h]
        exact hfp
      · cases h

/-- The server knows the device, and so does the file. -/
def Remembered (fp : String) (s : Process C Ip) : Prop :=
  fp ∈ s.world.pairedDevices ∧ fp ∈ s.file

omit [DecidableEq C] [DecidableEq Ip] in
/-- What is saved is what the process knows. -/
theorem Remembered.served {fp : String} {s : Process C Ip}
    (h : Remembered fp s) (hw : fp ∈ w.pairedDevices) (saved : Bool) :
    Remembered fp (s.served w saved) := by
  refine ⟨hw, ?_⟩
  simp only [Process.served]
  split
  · exact hw
  · exact h.2

/-- **ONE STEP** of a life forgets no device that the file keeps. -/
theorem live_remembers (fp : String) (s : Process C Ip) (l : Life C)
    (s' : Process C Ip) (hfp : Remembered fp s) (hok : Keeps fp s l)
    (h : live ip s l = some s') : Remembered fp s' := by
  cases l with
  | act a saved =>
      obtain ⟨w, hw, hs'⟩ := Option.map_eq_some_iff.mp h
      rw [← hs']
      exact hfp.served (step_remembers hw fp hfp.1) saved
  | rewrite devices =>
      rw [← Option.some.inj h]
      exact ⟨hfp.1, hok⟩
  | restart settings forwarding =>
      rw [← Option.some.inj h]
      exact ⟨hfp.2, hfp.2⟩

omit [DecidableEq C] [DecidableEq Ip] in
/-- A device that was paired and saved is in the file. -/
theorem served_file {fp : String} {s : Process C Ip}
    (hnew : fp ∉ s.world.pairedDevices) (hw : fp ∈ w.pairedDevices) :
    fp ∈ (s.served w true).file := by
  have hne : w.pairedDevices ≠ s.world.pairedDevices := by
    intro heq
    rw [heq] at hw
    exact hnew hw
  simp only [Process.served, hne, ne_eq, not_false_eq_true, and_self, if_true]
  exact hw

end Server

/-! ## The client keeps its fingerprint -/

section Client

variable {lib : Library} {m : Machine} {config : Config}
  {opts : ConnectOptions} {k : Settings} {ip : C → Ip}
  {w : KvmControl.World C Ip} {c : C}

/-- A handshake that succeeds leaves a secret in the config. -/
theorem handshake_config {v : UInt16 × String}
    (hok : (handshake lib m config opts k ip w c).1.result = .ok v) :
    (handshake lib m config opts k ip w c).1.config
      = config.ensureClientSecret m.secret := by
  have hout : (handshake lib m config opts k ip w c).1
      = performHandshake lib m config opts (streamTo k ip c w (helloEnvelope m)
          (pairRequestEnvelope lib m (config.ensureClientSecret m.secret)
            opts)) := by
    simp only [handshake]
    split <;> rfl
  rw [hout] at hok ⊢
  exact (performHandshake_accepts (performHandshake_ok hok)).1

/-- With that secret the fingerprint is the same, whatever the machine. -/
theorem shownFingerprint_kept {config' : Config} (m' : Machine)
    (h : config'.clientSecret
      = (config.ensureClientSecret m.secret).clientSecret) :
    shownFingerprint lib m' config' = shownFingerprint lib m config := by
  have hne : config'.clientSecret ≠ "" := by
    rw [h]
    exact ensured_ne_empty
  simp only [shownFingerprint, ensured_nonempty hne, Config.clientFingerprint,
    h]

/-- Whoever is let in is paired. -/
theorem handshake_pairs {v : UInt16 × String}
    (hhello : Framed (helloEnvelope m))
    (hack : Framed (.helloAck k.filePort k.serverName))
    (hnew : w.conns c = Conn.new)
    (hok : (handshake lib m config opts k ip w c).1.result = .ok v) :
    shownFingerprint lib m config
      ∈ (handshake lib m config opts k ip w c).2.pairedDevices := by
  by_cases hreq : isRateLimited w.rateLimiter (ip c) w.now = true ∨
      (shownFingerprint lib m config ∉ w.pairedDevices ∧
        proofOk k.sha256 k.pin (requestFor lib m config opts) = false)
  · obtain ⟨⟨msg, hmsg⟩, -⟩ := handshake_refused hhello hack hnew hreq
    rw [hmsg] at hok
    cases hok
  · rw [not_or, not_and_or, not_not, Bool.not_eq_true, Bool.not_eq_false]
      at hreq
    exact (handshake_admitted hhello hack hnew hreq.1 hreq.2).2.2

end Client

/-- **THE PIN IS NEEDED ONCE**: a client that was let in once, is in the
    server's config file then, and has kept its secret is let in again, with
    any options and on any machine, by the same server in any later life of
    it, however many other clients it has served in between, exactly if its
    address is not rate-limited; provided that nobody, by revoking it or
    otherwise, writes the file without it. -/
theorem pin_needed_once (lib : Library) (m m' : Machine)
    (config config' : Config) (opts opts' : ConnectOptions) (ip : C → Ip)
    (s after t : Process C Ip) (c c' : C) (v : UInt16 × String) (saved : Bool)
    (lives : List (Life C))
    (hhello : Framed (helloEnvelope m)) (hhello' : Framed (helloEnvelope m'))
    (hack : Framed (.helloAck s.settings.filePort s.settings.serverName))
    (hack' : Framed (.helloAck t.settings.filePort t.settings.serverName))
    (hnew : s.world.conns c = Conn.new) (hnew' : t.world.conns c' = Conn.new)
    (hok : (handshake lib m config opts s.settings ip s.world c).1.result
      = .ok v)
    (hafter : after = s.served
      (handshake lib m config opts s.settings ip s.world c).2 saved)
    (hfile : shownFingerprint lib m config ∈ after.file)
    (hkept : config'.clientSecret
      = (handshake lib m config opts s.settings ip s.world
          c).1.config.clientSecret)
    (hlives : exec (live ip) after lives = some t)
    (hkeeps : Guarded (live ip) (Keeps (shownFingerprint lib m config)) after
      lives) :
    (∃ v', (handshake lib m' config' opts' t.settings ip t.world c').1.result
        = .ok v') ↔
      isRateLimited t.world.rateLimiter (ip c') t.world.now = false := by
  have hpaired : Remembered (shownFingerprint lib m config) after := by
    refine ⟨?_, hfile⟩
    rw [hafter]
    exact handshake_pairs hhello hack hnew hok
  have hstill := (invariant_exec
    (live_remembers (shownFingerprint lib m config)) lives _ t hpaired hkeeps
    hlives).1
  rw [handshake_config hok] at hkept
  rw [← shownFingerprint_kept m' hkept] at hstill
  cases hl : isRateLimited t.world.rateLimiter (ip c') t.world.now with
  | false =>
      refine iff_of_true ?_ rfl
      exact ⟨_, (handshake_admitted hhello' hack' hnew' hl (Or.inl hstill)).1⟩
  | true =>
      refine iff_of_false ?_ (fun h => nomatch h)
      rintro ⟨v', hv'⟩
      obtain ⟨⟨msg, hmsg⟩, -⟩ :=
        handshake_refused hhello' hack' hnew' (Or.inl hl)
      rw [hmsg] at hv'
      cases hv'

/-- A server with the PIN 123456, before any connection. -/
def firstLife : Process Unit Unit where
  settings := { settings with sha256 := sha256Pin }
  world := World.start Unit Unit [] false
  file := []

/-- A client pairs with it and is saved, the server is started again with
    another PIN, and the client comes back without one. -/
theorem pin_needed_once_restart :
    ∃ (config : Config) (t : Process Unit Unit) (v : UInt16 × String),
      t.settings.pin = "654321" ∧
      (handshake { library with sha256 := sha256Pin } machine config
        ⟨none, false, none⟩ t.settings (fun _ => ()) t.world ()).1.result
          = .ok v := by
  have hall := @handshake_admitted Unit Unit _ _
    { library with sha256 := sha256Pin } machine Config.default
    ⟨some "123456", false, none⟩ firstLife.settings (fun _ => ())
    firstLife.world () (by decide +kernel) (by decide +kernel) rfl rfl
    (Or.inr (by decide +kernel))
  have hfile := served_file (s := firstLife) List.not_mem_nil hall.2.2
  have hagain := fun t hnew hack hlives => pin_needed_once
    { library with sha256 := sha256Pin } machine machine Config.default _
    ⟨some "123456", false, none⟩ ⟨none, false, none⟩ (fun _ => ()) firstLife _
    t () () _ true [.restart { firstLife.settings with pin := "654321" } false]
    (by decide +kernel) (by decide +kernel) (by decide +kernel) hack rfl hnew
    hall.1 rfl hfile rfl hlives ⟨trivial, trivial⟩
  have hback := (hagain _ rfl (by decide +kernel) rfl).mpr rfl
  obtain ⟨v, hv⟩ := hback
  exact ⟨_, _, v, rfl, hv⟩

end KvmPairOnce
