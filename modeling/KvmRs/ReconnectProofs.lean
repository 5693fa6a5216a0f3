import KvmRs.ConnectProofs

/-! # Reconnecting

    The two loops that keep a session alive: `run_with_reconnect` of the
    command line and the one that `connect_to_server` of the UI spawns.  Each
    attempt loads the config again and connects with the options of the first
    one.

    What keeps a run with one server is that its next connect accepts only one
    fingerprint (`Locked`): the expected one if the options name it, else the
    one in the file.  `trust_new_cert` is not taken back after the first
    connect, and then nothing does. -/

namespace KvmReconnect

open KvmText KvmAddr KvmClientConfig KvmConnect Transition

/-- Longest pause between two attempts, in seconds. -/
def MAX_BACKOFF : Nat := 30

/-- `config.save`; where it fails, what the next load will find. -/
inductive Save where
  | ok
  | failed (left : Config)

def Save.after : Save → Config → Config
  | .ok, config => config
  | .failed left, _ => left

/-- What one attempt meets: whether the config file can be read, the machine
    and the peer, the save, and in the UI whether a newer call has superseded
    this one. -/
structure Attempt where
  readable : Bool
  machine : Machine
  peer : Peer
  save : Save
  superseded : Bool

inductive Loop where
  | runWithReconnect (opts : ConnectOptions)
  | connectToServer (pin : Option String) (trustNewCert : Bool)

def Loop.opts : Loop → ConnectOptions
  | .runWithReconnect opts => opts
  | .connectToServer pin trustNewCert => ⟨pin, trustNewCert, none⟩

/-- A run of either loop: the config in the file, the address of the next
    connect, whether one has succeeded, the pauses, the fingerprint that the
    first successful connect pinned, and the servers with which there was a
    session. -/
structure Run where
  disk : Config
  target : List Char
  started : Bool
  backoff : Nat
  slept : List Nat
  pinned : Option (List Char)
  servers : List Peer
  stopped : Bool

def Run.start (disk : Config) (addr : List Char) : Run where
  disk := disk
  target := addr
  started := false
  backoff := 1
  slept := []
  pinned := none
  servers := []
  stopped := false

/-- `Config::load_or_default`. -/
def Run.load (r : Run) (x : Attempt) : Config :=
  if x.readable then r.disk else Config.default

/-- Sleep, and sleep longer the next time. -/
def Run.pause (r : Run) : Run :=
  { r with
    slept := r.slept ++ [r.backoff]
    backoff := min (r.backoff * 2) MAX_BACKOFF }

/-- A session is established: save the config. -/
def Run.establish (r : Run) (config : Config) (x : Attempt) : Run :=
  { r with
    disk := x.save.after config
    started := true
    backoff := 1
    pinned := r.pinned.or
      ((normalizedAddr r.target).bind config.knownFingerprint)
    servers := r.servers ++ [x.peer] }

/-- The connect of the next attempt. -/
def Run.call (r : Run) (l : Loop) (x : Attempt) : Call where
  machine := x.machine
  addr := r.target
  opts := l.opts
  peer := x.peer

/-- One attempt, with the pause that goes with it. -/
def step (k : Library) (l : Loop) (r : Run) (x : Attempt) : Option Run :=
  if r.stopped then none
  else
    let out := (r.call l x).run k (r.load x)
    match l with
    | .runWithReconnect _ =>
        match out.result with
        | .ok _ => some (r.establish out.config x).pause
        | .error (.fatal _) => some { r with stopped := true }
        | .error (.other _) => some r.pause
    | .connectToServer _ _ =>
        let paused := if r.started then r.pause else r
        match out.result with
        | .ok _ =>
            some { paused.establish out.config x with
              target :=
                if r.started then r.target
                else (normalizedAddr r.target).getD r.target
              stopped := x.superseded }
        | .error (.fatal _) => some { paused with stopped := true }
        | .error (.other _) =>
            -- the first connect is not retried
            some { paused with stopped := !r.started || x.superseded }

/-- The fingerprint of the certificate a peer presents. -/
def fingerprintOf (k : Library) : Peer → Option (List Char)
  | .certificate cert _ => some (fingerprintDer k cert)
  | _ => none

/-- Every session was with the server that the first connect pinned. -/
def SamePin (k : Library) (r : Run) : Prop :=
  ∀ p ∈ r.servers, ∃ fp, r.pinned = some fp ∧ fingerprintOf k p = some fp

/-- The UI goes on with the normalised address; it has to mean the same. -/
def Loop.Stable (l : Loop) (addr : List Char) : Prop :=
  match l with
  | .runWithReconnect _ => True
  | .connectToServer _ _ =>
      ∀ a a', normalizedAddr addr = some a → normalizedAddr a = some a' →
        a' = a

/-- The options name the fingerprint; or, once there was a session, they do
    not ask for a new one and the file can be read, and where saving after a
    connect fails, the file has the new pin all the same. -/
def Kept (k : Library) (l : Loop) (r : Run) (x : Attempt) : Prop :=
  l.opts.expectedFingerprint.isSome = true ∨
    ((r.started = true → l.opts.trustNewCert = false ∧ x.readable = true) ∧
      l.Stable r.target ∧
      ∀ left host port cert filePort name, x.save = .failed left →
        Admitted k (r.load x) (r.call l x) host port cert filePort name →
          left.knownFingerprint (formatHostPort host port)
            = some (fingerprintDer k cert))

section Steps

variable {k : Library} {l : Loop} {r r' : Run} {x : Attempt}

/-- An attempt that fails leaves the file, the pin and the address alone. -/
theorem step_of_error {e : ConnectError}
    (he : ((r.call l x).run k (r.load x)).result = .error e)
    (hs : step k l r x = some r') :
    r'.disk = r.disk ∧ r'.pinned = r.pinned ∧ r'.servers = r.servers ∧
      r'.started = r.started ∧ r'.target = r.target := by
  simp only [step] at hs
  split at hs
  · cases hs
  · cases l with
    | runWithReconnect opts =>
        rw [he] at hs
        cases e with
        | fatal msg =>
            rw [← Option.some.inj hs]
            exact ⟨rfl, rfl, rfl, rfl, rfl⟩
        | other msg =>
            rw [← Option.some.inj hs]
            exact ⟨rfl, rfl, rfl, rfl, rfl⟩
    | connectToServer pin trust =>
        rw [he] at hs
        cases e with
        | fatal msg =>
            rw [← Option.some.inj hs]
            split <;> exact ⟨rfl, rfl, rfl, rfl, rfl⟩
        | other msg =>
            rw [← Option.some.inj hs]
            split <;> exact ⟨rfl, rfl, rfl, rfl, rfl⟩

/-- An attempt that succeeds saves the config and adds a session; the UI goes
    on with the normalised address. -/
theorem step_of_admitted {host : List Char} {port : UInt16}
    {cert : List UInt8} {filePort : UInt16} {name : String}
    (hadm : Admitted k (r.load x) (r.call l x) host port cert filePort name)
    (hs : step k l r x = some r') :
    r'.disk = x.save.after ((r.call l x).run k (r.load x)).config ∧
      r'.pinned = r.pinned.or (some (fingerprintDer k cert)) ∧
      r'.servers = r.servers ++ [x.peer] ∧ r'.started = true ∧
      (r'.target = r.target ∨
        (∃ pin trust, l = .connectToServer pin trust) ∧
          r'.target = formatHostPort host port) := by
  obtain ⟨hok, hknown⟩ := connect_admitted hadm
  have hdial : normalizedAddr r.target = some (formatHostPort host port) :=
    hadm.dials
  have hpin : (normalizedAddr r.target).bind
      ((r.call l x).run k (r.load x)).config.knownFingerprint
        = some (fingerprintDer k cert) := by
    rw [hdial, Option.bind_some, hknown, if_pos (Or.inr rfl)]
  simp only [step] at hs
  split at hs
  · cases hs
  · cases l with
    | runWithReconnect opts =>
        rw [hok] at hs
        rw [← Option.some.inj hs, ← hpin]
        exact ⟨rfl, rfl, rfl, rfl, Or.inl rfl⟩
    | connectToServer pin trust =>
        rw [hok] at hs
        rw [← Option.some.inj hs, ← hpin]
        cases r.started with
        | true => exact ⟨rfl, rfl, rfl, rfl, Or.inl rfl⟩
        | false =>
            refine ⟨rfl, rfl, rfl, rfl, Or.inr ⟨⟨pin, trust, rfl⟩, ?_⟩⟩
            show (normalizedAddr r.target).getD r.target = _
            rw [hdial]
            rfl

end Steps

/-! ## The lock -/

/-- The next connect accepts this fingerprint only: whatever it loads if the
    options name the fingerprint, else if it goes by what is in the file. -/
def Locked (k : Library) (l : Loop) (r : Run) (fp : List Char) : Prop :=
  ∀ config, (l.opts.expectedFingerprint = none →
      l.opts.trustNewCert = false ∧ config = r.disk) →
    ∀ a cert, normalizedAddr r.target = some a →
      verifyServerCert k (newVerifier k (requiredFp k config l.opts a)) cert
        = .ok () → fingerprintDer k cert = fp

/-- The invariant: there was no session yet, or all were with one server and
    the next one will be. -/
def Faithful (k : Library) (l : Loop) (r : Run) : Prop :=
  (r.pinned = none ∧ r.servers = []) ∨
    (r.started = true ∧ ∃ fp, r.pinned = some fp ∧
      (∀ p ∈ r.servers, fingerprintOf k p = some fp) ∧ Locked k l r fp)

section Locking

variable {k : Library} {l : Loop} {r r' : Run} {x : Attempt}
  {host : List Char} {port : UInt16} {cert : List UInt8} {filePort : UInt16}
  {name : String}

/-- After the save, the file has the new pin. -/
theorem saved_pin (hkept : Kept k l r x)
    (hopts : l.opts.expectedFingerprint = none)
    (hadm : Admitted k (r.load x) (r.call l x) host port cert filePort name) :
    (x.save.after ((r.call l x).run k (r.load x)).config).knownFingerprint
        (formatHostPort host port) = some (fingerprintDer k cert) := by
  cases hsave : x.save with
  | ok =>
      rw [show Save.after .ok _ = ((r.call l x).run k (r.load x)).config from rfl,
        (connect_admitted hadm).2, if_pos (Or.inr rfl)]
  | failed left =>
      rcases hkept with hexp | ⟨-, -, hleft⟩
      · rw [hopts] at hexp
        cases hexp
      · exact hleft left host port cert filePort name hsave hadm

/-- Once there was a session, an attempt goes by what is in the file. -/
theorem load_eq (hkept : Kept k l r x) (hst : r.started = true)
    (hopts : l.opts.expectedFingerprint = none) :
    l.opts.trustNewCert = false ∧ r.load x = r.disk := by
  rcases hkept with hexp | ⟨hread, -, -⟩
  · rw [hopts] at hexp
    cases hexp
  · refine ⟨(hread hst).1, ?_⟩
    rw [Run.load, if_pos (hread hst).2]

/-- The next connect looks the pin up under the same address. -/
theorem same_key (hstable : l.Stable r.target)
    (hadm : Admitted k (r.load x) (r.call l x) host port cert filePort name)
    (htarget : r'.target = r.target ∨
      (∃ pin trust, l = .connectToServer pin trust) ∧
        r'.target = formatHostPort host port) {a : List Char}
    (ha : normalizedAddr r'.target = some a) :
    a = formatHostPort host port := by
  have hdial : normalizedAddr r.target = some (formatHostPort host port) :=
    hadm.dials
  rcases htarget with ht | ⟨⟨pin, trust, rfl⟩, ht⟩
  · rw [ht, hdial] at ha
    exact (Option.some.inj ha).symm
  · rw [ht] at ha
    exact hstable _ _ hdial ha

/-- **THE FIRST SESSION LOCKS**: after a session under the condition, the next
    connect accepts only the same certificate's fingerprint. -/
theorem locked_after (hkept : Kept k l r x)
    (hadm : Admitted k (r.load x) (r.call l x) host port cert filePort name)
    (hdisk : r'.disk = x.save.after ((r.call l x).run k (r.load x)).config)
    (htarget : r'.target = r.target ∨
      (∃ pin trust, l = .connectToServer pin trust) ∧
        r'.target = formatHostPort host port) :
    Locked k l r' (fingerprintDer k cert) := by
  intro config hconfig a shown ha hshown
  cases hopts : l.opts.expectedFingerprint with
  | some fp =>
      -- the requirement does not depend on the file
      have hnow : requiredFp k config l.opts a
          = some (k.casing.toUppercase fp) := by
        simp only [requiredFp, hopts]
      have hthen : requiredFp k (r.load x) (r.call l x).opts
          (formatHostPort host port) = some (k.casing.toUppercase fp) := by
        simp only [requiredFp, Run.call, hopts]
      have htrusted := hadm.trusted
      rw [hthen, newVerifier, Option.map_some, verifyServerCert_some]
        at htrusted
      rw [hnow, newVerifier, Option.map_some, verifyServerCert_some] at hshown
      exact hshown.symm.trans htrusted
  | none =>
      have hpin := saved_pin hkept hopts hadm
      obtain ⟨htrust, hfile⟩ := hconfig hopts
      rcases hkept with hexp | ⟨-, hstable, -⟩
      · rw [hopts] at hexp
        cases hexp
      · have hnow : requiredFp k config l.opts a
            = some (fingerprintDer k cert) := by
          rw [same_key hstable hadm htarget ha, hfile, hdisk]
          simp only [requiredFp, hopts, htrust, Bool.false_eq_true, if_false]
          exact hpin
        rw [hnow] at hshown
        exact verifyServerCert_stored hshown

end Locking

/-- **ONE ATTEMPT** keeps the run with its server. -/
theorem faithful_step {k : Library} {l : Loop} (r : Run) (x : Attempt)
    (r' : Run) (h : Faithful k l r) (hkept : Kept k l r x)
    (hs : step k l r x = some r') : Faithful k l r' := by
  rcases connect_cases k (r.load x) (r.call l x) with
    ⟨host, port, cert, filePort, name, hadm⟩ | ⟨⟨e, he⟩, -⟩
  · obtain ⟨hdisk, hpin, hserv, hstarted, htarget⟩ := step_of_admitted hadm hs
    have hlock := locked_after hkept hadm hdisk htarget
    obtain ⟨stream, hpeer, -⟩ := hadm.peer
    have hnew : fingerprintOf k x.peer = some (fingerprintDer k cert) := by
      rw [show x.peer = .certificate cert (.ok stream) from hpeer]
      rfl
    refine Or.inr ⟨hstarted, ?_⟩
    rcases h with ⟨hnone, hempty⟩ | ⟨hst, fp, hsome, hall, hlocked⟩
    · refine ⟨fingerprintDer k cert, ?_, ?_, hlock⟩
      · rw [hpin, hnone]
        rfl
      · intro p hp
        rw [hserv, hempty, List.nil_append, List.mem_singleton] at hp
        rw [hp, hnew]
    · have hfp : fingerprintDer k cert = fp :=
        hlocked _ (load_eq hkept hst) _ cert hadm.dials hadm.trusted
      refine ⟨fp, ?_, ?_, hfp ▸ hlock⟩
      · rw [hpin, hsome]
        rfl
      · intro p hp
        rw [hserv, List.mem_append, List.mem_singleton] at hp
        rcases hp with hp | rfl
        · exact hall p hp
        · rw [hnew, hfp]
  · obtain ⟨hdisk, hpin, hserv, hstarted, htarget⟩ := step_of_error he hs
    rcases h with ⟨hnone, hempty⟩ | ⟨hst, fp, hsome, hall, hlocked⟩
    · exact Or.inl ⟨hpin.trans hnone, hserv.trans hempty⟩
    · refine Or.inr ⟨hstarted.trans hst, fp, hpin.trans hsome,
        hserv ▸ hall, ?_⟩
      intro config hconfig a cert ha hcert
      rw [htarget] at ha
      rw [hdisk] at hconfig
      exact hlocked config hconfig a cert ha hcert

/-- **RECONNECTS STAY WITH THE SERVER**: for either loop, any address and
    options, any config on disk and any attempts, every session of the run is
    with a certificate whose fingerprint the first connect pinned, provided
    the options name it, or no attempt after the first session is made with
    `trust_new_cert` and each new pin gets to the file, under the address that
    is dialled next, and is read back. -/
theorem reconnects_keep_pin (k : Library) (l : Loop) (disk : Config)
    (addr : List Char) (xs : List Attempt) (r : Run)
    (hrun : exec (step k l) (Run.start disk addr) xs = some r)
    (hkept : Guarded (step k l) (Kept k l) (Run.start disk addr) xs) :
    SamePin k r := by
  have hstart : Faithful k l (Run.start disk addr) := Or.inl ⟨rfl, rfl⟩
  rcases invariant_exec faithful_step xs _ r hstart hkept hrun with
    ⟨-, hempty⟩ | ⟨-, fp, hsome, hall, -⟩
  · intro p hp
    rw [hempty] at hp
    cases hp
  · exact fun p hp => ⟨fp, hsome, hall p hp⟩

/-- An attempt that meets this peer, and can read and write the file. -/
def meets (peer : Peer) : Attempt where
  readable := true
  machine := machine
  peer := peer
  save := .ok
  superseded := false

/-- A run that meets the condition: the server is lost, comes back, and is
    then replaced by another one, which is refused. -/
theorem reconnects_keep_pin_refuses_other :
    ∃ r, SamePin library r ∧ r.servers.length = 2 ∧ r.stopped = true ∧
      r.slept = [1, 2, 1] := by
  let l : Loop := .runWithReconnect ⟨none, false, none⟩
  let xs : List Attempt := [friendly [1] 4001, .unreachable,
    friendly [1] 4001, friendly [2] 4001].map meets
  have hkept : Guarded (step library l) (Kept library l)
      (Run.start Config.default "desk".toList) xs := by
    refine guarded_of_forall xs _ ?_
    intro x hx r
    obtain ⟨p, -, rfl⟩ := List.mem_map.mp hx
    refine Or.inr ⟨fun _ => ⟨rfl, rfl⟩, trivial, ?_⟩
    intro left _ _ _ _ _ hsave
    cases hsave
  exact ⟨_, reconnects_keep_pin library l Config.default "desk".toList xs _
    rfl hkept, rfl, rfl, rfl⟩

/-- **A NEW CERTIFICATE IS TRUSTED EVERY TIME**: with `trust_new_cert`, in
    both loops, the second connect of the run accepts and pins another
    certificate than the first. -/
theorem reconnect_trusts_other_server :
    (∃ r, exec (step library (.runWithReconnect ⟨none, true, none⟩))
        (Run.start Config.default "desk".toList)
        [meets (friendly [1] 4001), meets (friendly [2] 4001)] = some r ∧
      r.pinned = some (fingerprintDer library [1]) ∧
      ¬ SamePin library r) ∧
    (∃ r, exec (step library (.connectToServer none true))
        (Run.start Config.default "desk".toList)
        [meets (friendly [1] 4001), meets (friendly [2] 4001)] = some r ∧
      r.pinned = some (fingerprintDer library [1]) ∧
      ¬ SamePin library r) := by
  have hother : ∀ r : Run, r.pinned = some (fingerprintDer library [1]) →
      friendly [2] 4001 ∈ r.servers → ¬ SamePin library r := by
    intro r hpin hmem hsame
    obtain ⟨fp, hfp, hpeer⟩ := hsame _ hmem
    have heq : some (fingerprintDer library [1])
        = some (fingerprintDer library [2]) :=
      hpin.symm.trans (hfp.trans hpeer.symm)
    exact absurd heq (by decide)
  constructor
  · refine ⟨_, rfl, rfl, hother _ rfl ?_⟩
    exact List.mem_cons_of_mem _ (List.mem_cons_self ..)
  · refine ⟨_, rfl, rfl, hother _ rfl ?_⟩
    exact List.mem_cons_of_mem _ (List.mem_cons_self ..)

end KvmReconnect
