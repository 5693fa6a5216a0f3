import KvmRs.ConnectProofs
import KvmRs.SharedFileProofs
import Mathlib.Data.List.Permutation

/-! # `client.toml`

    The operations of the client on one config file: a connect, of the UI or
    of a reconnect attempt, and `forget_server`.  Each loads the whole config
    and saves the whole config; a connect waits for the server in between.  A
    connect that fails saves nothing, and neither does forgetting an unknown
    server.

    Nothing keeps the file from changing in between.  Where it does not, the
    file is what the operations give one after the other. -/

namespace KvmClientFile

open KvmText KvmAddr KvmClientConfig KvmConnect SharedFile Transition

/-- Remove a known server; `true` if it was present. -/
def forgetServer (c : Config) (address : List Char) : Config × Bool :=
  ({ c with knownServers := Function.update c.knownServers address none },
    (c.knownServers address).isSome)

inductive Operation where
  /-- `connect_to_server`, or an attempt of one of the reconnect loops. -/
  | connect (c : Call)
  | forget (address : List Char)

/-- What an operation saves. -/
def modify (k : Library) (config : Config) : Operation → Option Config
  | .connect c =>
      match (c.run k config).result with
      | .ok _ => some (c.run k config).config
      | .error _ => none
  | .forget address =>
      let removed := forgetServer config address
      if removed.2 then some removed.1 else none

/-- The file, if there is one; `load_or_default` and `save`. -/
def clientToml (k : Library) : Editor (Option Config) Config Operation where
  load file := file.getD Config.default
  modify := modify k
  save := some

/-! ## What an operation saves -/

section Saved

variable {k : Library} {config config' : Config} {op : Operation}

/-- A connect saves if it was admitted. -/
theorem modify_connect {c : Call}
    (h : modify k config (.connect c) = some config') :
    ∃ host port cert filePort name,
      Admitted k config c host port cert filePort name ∧
        config' = pinServer (config.ensureClientSecret c.machine.secret) host
          port filePort name (fingerprintDer k cert) c.machine.now := by
  simp only [modify] at h
  rcases connect_cases k config c with
    ⟨host, port, cert, filePort, name, hadm⟩ | ⟨⟨e, he⟩, -⟩
  · obtain ⟨hok, hconfig⟩ := connect_run hadm
    rw [hok] at h
    exact ⟨host, port, cert, filePort, name, hadm,
      (Option.some.inj h).symm.trans hconfig⟩
  · rw [he] at h
    cases h

theorem modify_forget {address : List Char}
    (h : modify k config (.forget address) = some config') :
    config' = (forgetServer config address).1 := by
  simp only [modify] at h
  split at h
  · exact (Option.some.inj h).symm
  · cases h

theorem pinServer_secret (c : Config) (host : List Char)
    (port filePort : UInt16) (name : String) (fp : List Char) (now : Nat) :
    (pinServer c host port filePort name fp now).clientSecret
      = c.clientSecret := by
  simp only [pinServer]
  split <;> rfl

/-- No operation changes a secret that is there. -/
theorem modify_secret (h : modify k config op = some config')
    (hsecret : config.clientSecret ≠ "") :
    config'.clientSecret = config.clientSecret := by
  cases op with
  | connect c =>
      obtain ⟨host, port, cert, filePort, name, -, rfl⟩ := modify_connect h
      rw [pinServer_secret, Config.ensureClientSecret, if_neg hsecret]
  | forget address =>
      rw [modify_forget h]
      rfl

/-- Only a connect to a server makes it known. -/
theorem modify_known {address : List Char}
    (h : modify k config op = some config')
    (hbefore : config.knownServers address = none)
    (hafter : config'.knownServers address ≠ none) :
    ∃ c host port cert filePort name, op = .connect c ∧
      Admitted k config c host port cert filePort name ∧
        (address = formatHostPort host port ∨
          address = formatHostPort host filePort) := by
  cases op with
  | connect c =>
      obtain ⟨host, port, cert, filePort, name, hadm, rfl⟩ := modify_connect h
      refine ⟨c, host, port, cert, filePort, name, rfl, hadm, ?_⟩
      by_contra hother
      rw [not_or] at hother
      rw [pinServer_others _ _ _ _ _ _ _ hother.1 hother.2,
        ensureClientSecret_servers] at hafter
      exact hafter hbefore
  | forget gone =>
      rw [modify_forget h] at hafter
      refine absurd ?_ hafter
      show Function.update config.knownServers gone none address = none
      by_cases hgone : address = gone
      · rw [hgone, Function.update_self]
      · rw [Function.update_of_ne hgone]
        exact hbefore

end Saved

/-! ## Every run -/

section Runs

variable {P : Type}

/-- A saved secret is still there after the step. -/
def SecretKept (w : World (Option Config) Config Operation P)
    (_ : Action Operation P) (w' : World (Option Config) Config Operation P) :
    Prop :=
  ∀ config, w.file = some config → config.clientSecret ≠ "" →
    ∃ config', w'.file = some config' ∧
      config'.clientSecret = config.clientSecret

/-- A server that was not in the file, because it was forgotten or never
    known, comes into it by a connect to that server that loaded the file
    without it. -/
def KnownByConnect (k : Library)
    (w : World (Option Config) Config Operation P) (a : Action Operation P)
    (w' : World (Option Config) Config Operation P) : Prop :=
  ∀ address,
    ((clientToml k).load w.file).knownServers address = none →
    ((clientToml k).load w'.file).knownServers address ≠ none →
      ∃ p c copy result host port cert filePort name, a = .save p ∧
        w.proc p = .modified (.connect c) copy result ∧
        copy.knownServers address = none ∧
        Admitted k copy c host port cert filePort name ∧
          (address = formatHostPort host port ∨
            address = formatHostPort host filePort)

variable [DecidableEq P] {k : Library} {file : Option Config}

theorem secretKept_step (w : World (Option Config) Config Operation P)
    (a : Action Operation P) (w' : World (Option Config) Config Operation P)
    (h : Serial (clientToml k) file w) (hok : Unchanged (clientToml k) w a)
    (hs : step (clientToml k) w a = some w') : SecretKept w a w' := by
  intro config hfile hsecret
  rcases file_step h hok hs with
    hsame | ⟨p, op, copy, v, -, -, hload, hmodify, hsaved⟩
  · exact ⟨config, hsame.trans hfile, rfl⟩
  · have hcopy : config = copy := by
      rw [← hload, hfile]
      rfl
    rw [← hcopy] at hmodify
    exact ⟨v, hsaved, modify_secret hmodify hsecret⟩

theorem knownByConnect_step (w : World (Option Config) Config Operation P)
    (a : Action Operation P) (w' : World (Option Config) Config Operation P)
    (h : Serial (clientToml k) file w) (hok : Unchanged (clientToml k) w a)
    (hs : step (clientToml k) w a = some w') : KnownByConnect k w a w' := by
  intro address hbefore hafter
  rcases file_step h hok hs with
    hsame | ⟨p, op, copy, v, ha, hp, hload, hmodify, hsaved⟩
  · rw [hsame] at hafter
    exact absurd hbefore hafter
  · rw [hload] at hbefore
    rw [hsaved] at hafter
    obtain ⟨c, host, port, cert, filePort, name, rfl, hadm, haddress⟩ :=
      modify_known hmodify hbefore hafter
    exact ⟨p, c, copy, _, host, port, cert, filePort, name, ha, hp, hbefore,
      hadm, haddress⟩

/-- **THE CONFIG FILE IS SERIAL**: for any number of processes and any
    interleaving of loads, modifications and saves in which the file, whenever
    an operation saves, is what that operation loaded, the file is at any time
    the result of the completed operations in some order; a saved secret never
    changes, and a forgotten server comes back only by a later connect. -/
theorem client_file_serial (k : Library) (file : Option Config)
    (acts : List (Action Operation P))
    (w : World (Option Config) Config Operation P)
    (hrun : exec (step (clientToml k)) (World.start Config Operation P file)
      acts = some w)
    (hok : Guarded (step (clientToml k)) (Unchanged (clientToml k))
      (World.start Config Operation P file) acts) :
    (∃ order, order.Perm w.completed ∧
      (clientToml k).replay file order = w.file) ∧
    AllSteps (step (clientToml k)) SecretKept
      (World.start Config Operation P file) acts ∧
    AllSteps (step (clientToml k)) (KnownByConnect k)
      (World.start Config Operation P file) acts :=
  ⟨serial_exec (clientToml k) file acts w hrun hok,
    allSteps_of_guarded secretKept_step serial_step acts _
      (serial_start (clientToml k) file) hok,
    allSteps_of_guarded knownByConnect_step serial_step acts _
      (serial_start (clientToml k) file) hok⟩

end Runs

/-- A first connect to the server on port 4000, and one to another server on
    port 5000 with another secret drawn for it. -/
def firstConnect : Operation :=
  .connect (call "10.0.0.5:4000" false [1] 4001)

def secondConnect : Operation :=
  .connect { call "10.0.0.6:5000" false [2] 5001 with
    machine := { machine with secret := Vector.replicate 32 1 } }

/-- One operation after the other is serial. -/
theorem client_file_serial_in_turn :
    ∃ w : World (Option Config) Config Operation (Fin 2),
      exec (step (clientToml library))
        (World.start Config Operation (Fin 2) none)
        [.load 0 firstConnect, .modify 0, .save 0,
          .load 1 secondConnect, .modify 1, .save 1] = some w ∧
      ∃ order, order.Perm w.completed ∧
        (clientToml library).replay none order = w.file := by
  refine ⟨_, rfl, ?_⟩
  refine (client_file_serial library none [.load 0 firstConnect, .modify 0,
    .save 0, .load 1 secondConnect, .modify 1, .save 1] _ rfl ?_).1
  refine ⟨trivial, trivial, ?_, trivial, trivial, ?_, trivial⟩
  · intro op copy v hp
    exact (Proc.modified.inj hp).2.1
  · intro op copy v hp
    exact (Proc.modified.inj hp).2.1

/-- **TWO FIRST CONNECTS OVERLAP**: both load before either saves, so both
    draw a secret; the second save takes the first server out of the file
    again and replaces the secret.  No order of the two does that. -/
theorem first_connects_overlap :
    ∃ w : World (Option Config) Config Operation (Fin 2),
      exec (step (clientToml library))
        (World.start Config Operation (Fin 2) none)
        [.load 0 firstConnect, .load 1 secondConnect, .modify 0, .modify 1,
          .save 0, .save 1] = some w ∧
      (¬ ∃ order, order.Perm w.completed ∧
        (clientToml library).replay none order = w.file) ∧
      ¬ AllSteps (step (clientToml library)) SecretKept
        (World.start Config Operation (Fin 2) none)
        [.load 0 firstConnect, .load 1 secondConnect, .modify 0, .modify 1,
          .save 0, .save 1] := by
  refine ⟨_, rfl, ?_, ?_⟩
  · rintro ⟨order, hperm, hfile⟩
    have hknown : ∀ file : Option Config,
        (clientToml library).replay none order = file →
        ((file.getD Config.default).knownServers
          "10.0.0.5:4000".toList).isSome = true := by
      rintro file rfl
      rcases List.perm_pair.mp hperm with rfl | rfl
      · rfl
      · rfl
    exact absurd (hknown _ hfile) (by decide)
  · rintro ⟨-, -, -, -, -, hkept, -⟩
    obtain ⟨config', hfile, hsecret⟩ := hkept _ rfl (by decide)
    rw [← Option.some.inj hfile] at hsecret
    exact absurd hsecret (by decide)

end KvmClientFile
