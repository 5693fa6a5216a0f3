import Mathlib.Data.List.Forall2
import KvmRs.LockstepProofs
import KvmRs.ServerLogProofs

/-! # Fingerprints in the log

    Two runs of the server side by side, whose clients differ in nothing but
    their fingerprints behind the eleventh character, and in the proofs that
    depend on them.  `TwinServer` is what this comes to in the states: every
    step keeps it, as long as both fingerprints are paired or unpaired where
    the handlers look them up, and both proofs right or wrong.

    Three steps write more of a fingerprint to the log than its beginning
    (`exposed`); all other lines of the two runs are the same. -/

namespace KvmRedaction

open KvmAuth KvmEnvelope KvmServerLog Lockstep Transition
open KvmControl hiding Settings Action step advance
open KvmFileChannel hiding Settings Action step log

variable {C Ip D : Type}

/-! ## What may differ -/

/-- The part of a fingerprint that the log shows is the same. -/
def SameStart (fp fp' : String) : Prop :=
  fp.toList.take 11 = fp'.toList.take 11

instance sameStartDecidable (fp fp' : String) :
    Decidable (SameStart fp fp') :=
  inferInstanceAs (Decidable (_ = _))

inductive TwinEnvelope : Envelope → Envelope → Prop where
  | same (e : Envelope) : TwinEnvelope e e
  | pairRequest (nonce : Vector UInt8 16) {fp fp' : String}
      (proof proof' : Vector UInt8 32) (h : SameStart fp fp') :
      TwinEnvelope (.pairRequest nonce fp proof)
        (.pairRequest nonce fp' proof')

/-- The phases that remember a request. -/
def hasRequest : KvmControl.Phase → Bool
  | .checking _ => true
  | .readingConfig _ => true
  | .comparing _ => true
  | .adding _ => true
  | .accepting _ => true
  | .registering _ => true
  | _ => false

inductive TwinPhase : KvmControl.Phase → KvmControl.Phase → Prop where
  | plain (ph : KvmControl.Phase) (h : hasRequest ph = false) : TwinPhase ph ph
  | checking {r r' : PairRequest}
      (h : SameStart r.fingerprint r'.fingerprint) :
      TwinPhase (.checking r) (.checking r')
  | readingConfig {r r' : PairRequest}
      (h : SameStart r.fingerprint r'.fingerprint) :
      TwinPhase (.readingConfig r) (.readingConfig r')
  | comparing {r r' : PairRequest}
      (h : SameStart r.fingerprint r'.fingerprint) :
      TwinPhase (.comparing r) (.comparing r')
  | adding {r r' : PairRequest}
      (h : SameStart r.fingerprint r'.fingerprint) :
      TwinPhase (.adding r) (.adding r')
  | accepting {r r' : PairRequest}
      (h : SameStart r.fingerprint r'.fingerprint) :
      TwinPhase (.accepting r) (.accepting r')
  | registering {r r' : PairRequest}
      (h : SameStart r.fingerprint r'.fingerprint) :
      TwinPhase (.registering r) (.registering r')

/-- Two connections to the control channel. -/
structure TwinConn (x x' : KvmControl.Conn) : Prop where
  phase : TwinPhase x.phase x'.phase
  received : List.Forall₂ TwinEnvelope x.received x'.received
  lastSeen : x.lastSeen = x'.lastSeen

/-- Two states of the control channel.  The paired devices may be any. -/
structure TwinWorld (w w' : World C Ip) : Prop where
  now : w.now = w'.now
  registry : w.registry = w'.registry
  forwardingEnabled : w.forwardingEnabled = w'.forwardingEnabled
  rateLimiter : w.rateLimiter = w'.rateLimiter
  conns : ∀ c, TwinConn (w.conns c) (w'.conns c)

/-- Two stages of a connection to the file channel. -/
inductive TwinStage : Stage → Stage → Prop where
  | same (st : Stage) : TwinStage st st
  | unpaired {fp fp' : String} (h : SameStart fp fp') :
      TwinStage (.refusing (.unpaired fp)) (.refusing (.unpaired fp'))

/-- Two states of the file channel. -/
structure TwinChannel (w w' : Channel D) : Prop where
  files : w.files = w'.files
  conns : ∀ d, ∃ st, TwinStage (w.conns d).stage st ∧
    w'.conns d = { w.conns d with stage := st }

structure TwinServer (s s' : Server C Ip D) : Prop where
  control : TwinWorld s.control s'.control
  files : TwinChannel s.files s'.files

/-- Two events. -/
inductive TwinEvent : Event C D → Event C D → Prop where
  | same (e : Event C D) : TwinEvent e e
  | receive (c : C) {e e' : Envelope} (err : Option Text)
      (h : TwinEnvelope e e') :
      TwinEvent (.control (.receive c e) err) (.control (.receive c e') err)
  | request (d : D) {e e' : Envelope} (h : TwinEnvelope e e') :
      TwinEvent (.file (.request d e)) (.file (.request d e'))
  | offer (d : D) {e e' : Envelope} (h : TwinEnvelope e e') :
      TwinEvent (.file (.offer d e)) (.file (.offer d e'))

/-- Whether the fingerprint that a handler looks up is paired. -/
def paired (s : Server C Ip D) : Event C D → Option Bool
  | .control (.advance c) _ =>
      match (s.control.conns c).phase with
      | .readingConfig req =>
          some (decide (req.fingerprint ∈ s.control.pairedDevices))
      | _ => none
  | .file (.request _ (.pairRequest _ fp _)) =>
      some (decide (fp ∈ s.control.pairedDevices))
  | _ => none

/-- Whether the proof that a handler compares is right. -/
def verdict (k : Settings C Ip D) (s : Server C Ip D) :
    Event C D → Option Bool
  | .control (.advance c) _ =>
      match (s.control.conns c).phase with
      | .comparing req =>
          some (proofOk k.control.sha256 k.control.pin req)
      | _ => none
  | _ => none

/-- The same paired or unpaired status, and the same verdict. -/
def SameAnswers (k : Settings C Ip D) (p : Server C Ip D × Server C Ip D)
    (e : Event C D × Event C D) : Prop :=
  paired p.1 e.1 = paired p.2 e.2 ∧ verdict k p.1 e.1 = verdict k p.2 e.2

instance sameAnswersDecidable (k : Settings C Ip D)
    (p : Server C Ip D × Server C Ip D) (e : Event C D × Event C D) :
    Decidable (SameAnswers k p e) :=
  inferInstanceAs (Decidable (_ ∧ _))

/-- What a step shows of a credential in full: the fingerprint of a pairing
    that fails, if the rejection could be sent; the `{:?}` of a `PairRequest`
    in the message loop; and the fingerprint of an unpaired device that is
    turned away from the file channel. -/
def exposed (k : Settings C Ip D) (s : Server C Ip D) :
    Event C D → Option Text
  | .control (.advance c) none =>
      match (s.control.conns c).phase with
      | .comparing req =>
          if proofOk k.control.sha256 k.control.pin req then none
          else some req.fingerprint.toList
      | _ => none
  | .control (.receive c (.pairRequest nonce fp proof)) _ =>
      match (s.control.conns c).phase with
      | .looping => some (k.debug (.pairRequest nonce fp proof))
      | _ => none
  | .file (.reply d) =>
      match (s.files.conns d).stage with
      | .refusing (.unpaired fp) => some fp.toList
      | _ => none
  | _ => none

/-- The step shows the same in both runs. -/
def SameExposure (k : Settings C Ip D) (p : Server C Ip D × Server C Ip D)
    (e : Event C D × Event C D) : Prop :=
  exposed k p.1 e.1 = exposed k p.2 e.2

instance sameExposureDecidable (k : Settings C Ip D)
    (p : Server C Ip D × Server C Ip D) (e : Event C D × Event C D) :
    Decidable (SameExposure k p e) :=
  inferInstanceAs (Decidable (_ = _))

/-! ## The control channel -/

section Control

theorem TwinPhase.refl (ph : KvmControl.Phase) : TwinPhase ph ph := by
  cases ph with
  | checking req => exact .checking rfl
  | readingConfig req => exact .readingConfig rfl
  | comparing req => exact .comparing rfl
  | adding req => exact .adding rfl
  | accepting req => exact .accepting rfl
  | registering req => exact .registering rfl
  | _ => exact .plain _ rfl

variable {x x' : KvmControl.Conn}

/-- Going on to twin phases. -/
theorem TwinConn.goto (h : TwinConn x x') {ph ph' : KvmControl.Phase}
    (hph : TwinPhase ph ph') (es es' : List Envelope) :
    TwinConn (x.goto ph es) (x'.goto ph' es') :=
  ⟨hph, h.received, h.lastSeen⟩

variable [DecidableEq C] {w w' : World C Ip} {c : C}

theorem TwinWorld.set (h : TwinWorld w w') (hx : TwinConn x x') :
    TwinWorld (w.set c x) (w'.set c x') where
  now := h.now
  registry := h.registry
  forwardingEnabled := h.forwardingEnabled
  rateLimiter := h.rateLimiter
  conns := by
    intro d
    by_cases hd : d = c
    · rw [hd]
      simp only [World.set, Function.update_self]
      exact hx
    · simp only [World.set, Function.update_of_ne hd]
      exact h.conns d

theorem TwinWorld.broadcast (h : TwinWorld w w') (e : Envelope) :
    TwinWorld (w.broadcast e) (w'.broadcast e) where
  now := h.now
  registry := h.registry
  forwardingEnabled := h.forwardingEnabled
  rateLimiter := h.rateLimiter
  conns := by
    intro d
    have hd := h.conns d
    simp only [World.broadcast, h.registry]
    split
    · exact ⟨hd.phase, hd.received, hd.lastSeen⟩
    · exact hd

/-- The handlers get the same answer where they look a fingerprint up or
    compare a proof. -/
structure SameChecks (k : KvmControl.Settings) (w w' : World C Ip) (c : C) :
    Prop where
  paired : ∀ r r', (w.conns c).phase = .readingConfig r →
    (w'.conns c).phase = .readingConfig r' →
    (r.fingerprint ∈ w.pairedDevices ↔ r'.fingerprint ∈ w'.pairedDevices)
  verdict : ∀ r r', (w.conns c).phase = .comparing r →
    (w'.conns c).phase = .comparing r' →
    proofOk k.sha256 k.pin r = proofOk k.sha256 k.pin r'

/-- An envelope that arrives where both handlers read one. -/
theorem twin_onEnvelope {enabled : Bool} {now : Nat} (h : TwinConn x x')
    {e e' : Envelope} (he : TwinEnvelope e e') {y y' : KvmControl.Conn}
    (hy : onEnvelope enabled now x e = some y)
    (hy' : onEnvelope enabled now x' e' = some y') :
    TwinConn { y with received := y.received ++ [e] }
      { y' with received := y'.received ++ [e'] } := by
  have happ : List.Forall₂ TwinEnvelope (x.received ++ [e])
      (x'.received ++ [e']) :=
    List.rel_append h.received (List.Forall₂.cons he List.Forall₂.nil)
  have hph := h.phase
  generalize hx : x.phase = ph at hph
  generalize hx' : x'.phase = ph' at hph
  cases hph with
  | plain _ hno =>
      cases ph <;> simp only [onEnvelope, hx, hx', reduceCtorEq] at hy hy'
      case hello =>
          cases he with
          | same e =>
              cases e with
              | hello name version caps =>
                  simp only at hy hy'
                  split at hy <;> rename_i hv
                  · rw [if_pos hv] at hy'
                    rw [← Option.some.inj hy, ← Option.some.inj hy']
                    exact ⟨.plain _ rfl, happ, h.lastSeen⟩
                  · rw [if_neg hv] at hy'
                    rw [← Option.some.inj hy, ← Option.some.inj hy']
                    exact ⟨.plain _ rfl, happ, h.lastSeen⟩
              | _ =>
                  rw [← Option.some.inj hy, ← Option.some.inj hy']
                  exact ⟨.plain _ rfl, happ, h.lastSeen⟩
          | pairRequest nonce proof proof' hfp =>
              rw [← Option.some.inj hy, ← Option.some.inj hy']
              exact ⟨.plain _ rfl, happ, h.lastSeen⟩
      case awaitingPair =>
          cases he with
          | same e =>
              cases e with
              | pairRequest nonce fp proof =>
                  rw [← Option.some.inj hy, ← Option.some.inj hy']
                  exact ⟨.checking rfl, happ, h.lastSeen⟩
              | _ =>
                  rw [← Option.some.inj hy, ← Option.some.inj hy']
                  exact ⟨.plain _ rfl, happ, h.lastSeen⟩
          | pairRequest nonce proof proof' hfp =>
              rw [← Option.some.inj hy, ← Option.some.inj hy']
              exact ⟨.checking hfp, happ, h.lastSeen⟩
      case looping =>
          cases he with
          | same e =>
              cases e with
              | toggleForward desired =>
                  rw [← Option.some.inj hy, ← Option.some.inj hy']
                  exact ⟨TwinPhase.refl _, happ, rfl⟩
              | _ =>
                  rw [← Option.some.inj hy, ← Option.some.inj hy']
                  exact ⟨.plain _ rfl, happ, rfl⟩
          | pairRequest nonce proof proof' hfp =>
              rw [← Option.some.inj hy, ← Option.some.inj hy']
              exact ⟨.plain _ rfl, happ, rfl⟩
  | checking _ => simp only [onEnvelope, hx, reduceCtorEq] at hy
  | readingConfig _ => simp only [onEnvelope, hx, reduceCtorEq] at hy
  | comparing _ => simp only [onEnvelope, hx, reduceCtorEq] at hy
  | adding _ => simp only [onEnvelope, hx, reduceCtorEq] at hy
  | accepting _ => simp only [onEnvelope, hx, reduceCtorEq] at hy
  | registering _ => simp only [onEnvelope, hx, reduceCtorEq] at hy

variable [DecidableEq Ip] {k : KvmControl.Settings} {ip : C → Ip}
  {v v' : World C Ip}

/-- The handler's next step in both runs, if it learns the same from the
    config and from the proof. -/
theorem twin_advance (h : TwinWorld w w') (hchecks : SameChecks k w w' c)
    (hs : KvmControl.advance k ip w c = some v)
    (hs' : KvmControl.advance k ip w' c = some v') : TwinWorld v v' := by
  obtain ⟨hpaired, hverdict⟩ := hchecks
  have hc := h.conns c
  have hph := hc.phase
  generalize hx : (w.conns c).phase = ph at hph hpaired hverdict
  generalize hx' : (w'.conns c).phase = ph' at hph hpaired hverdict
  cases hph with
  | checking hfp =>
      simp only [KvmControl.advance, hx, hx', ← h.rateLimiter, ← h.now] at hs hs'
      rw [← Option.some.inj hs, ← Option.some.inj hs']
      refine h.set ?_
      split
      · exact hc.goto (.plain _ rfl) _ _
      · exact hc.goto (.readingConfig hfp) _ _
  | readingConfig hfp =>
      simp only [KvmControl.advance, hx, hx', ← hpaired _ _ rfl rfl] at hs hs'
      rw [← Option.some.inj hs, ← Option.some.inj hs']
      refine h.set ?_
      split
      · exact hc.goto (.accepting hfp) _ _
      · exact hc.goto (.comparing hfp) _ _
  | comparing hfp =>
      simp only [KvmControl.advance, hx, hx', ← hverdict _ _ rfl rfl] at hs hs'
      split at hs
      · rename_i hok
        rw [if_pos hok] at hs'
        rw [← Option.some.inj hs, ← Option.some.inj hs']
        exact h.set (hc.goto (.adding hfp) _ _)
      · rename_i hbad
        rw [if_neg hbad] at hs'
        rw [← Option.some.inj hs, ← Option.some.inj hs', ← h.rateLimiter,
          ← h.now]
        exact TwinWorld.set ⟨rfl, h.registry, h.forwardingEnabled, rfl,
          h.conns⟩ (hc.goto (.plain _ rfl) _ _)
  | adding hfp =>
      simp only [KvmControl.advance, hx, hx'] at hs hs'
      rw [← Option.some.inj hs, ← Option.some.inj hs']
      exact TwinWorld.set ⟨h.now, h.registry, h.forwardingEnabled,
        h.rateLimiter, h.conns⟩ (hc.goto (.accepting hfp) _ _)
  | accepting hfp =>
      simp only [KvmControl.advance, hx, hx'] at hs hs'
      rw [← Option.some.inj hs, ← Option.some.inj hs']
      exact h.set ⟨.registering hfp, hc.received, hc.lastSeen⟩
  | registering hfp =>
      simp only [KvmControl.advance, hx, hx', ← h.registry, ← h.now] at hs hs'
      rw [← Option.some.inj hs, ← Option.some.inj hs']
      exact TwinWorld.set ⟨rfl, rfl, h.forwardingEnabled, h.rateLimiter,
        h.conns⟩ ⟨TwinPhase.refl _, hc.received, rfl⟩
  | plain _ hno =>
      cases ph <;>
        simp only [KvmControl.advance, hx, hx', reduceCtorEq] at hs hs'
      case checking | readingConfig | comparing | adding | accepting |
          registering => cases hno
      case greeting =>
          rw [← Option.some.inj hs, ← Option.some.inj hs']
          exact h.set (hc.goto (.plain _ rfl) _ _)
      case firstClient =>
          split at hs <;> rename_i hauto
          · rw [if_pos hauto] at hs'
            rw [← Option.some.inj hs, ← Option.some.inj hs']
            exact TwinWorld.set ⟨h.now, h.registry, rfl, h.rateLimiter,
              h.conns⟩ (hc.goto (.plain _ rfl) _ _)
          · rw [if_neg hauto] at hs'
            rw [← Option.some.inj hs, ← Option.some.inj hs']
            exact h.set (hc.goto (.plain _ rfl) _ _)
      case storing desired =>
          rw [← Option.some.inj hs, ← Option.some.inj hs']
          exact TwinWorld.set ⟨h.now, h.registry, rfl, h.rateLimiter,
            h.conns⟩ (hc.goto (.plain _ rfl) _ _)
      case broadcasting es =>
          cases es with
          | nil =>
              simp only at hs hs'
              rw [← Option.some.inj hs, ← Option.some.inj hs']
              exact h.set (hc.goto (.plain _ rfl) _ _)
          | cons e es =>
              simp only at hs hs'
              rw [← Option.some.inj hs, ← Option.some.inj hs']
              exact (h.set (hc.goto (.plain _ rfl) _ _)).broadcast e
      case clipboard text =>
          rw [← Option.some.inj hs, ← Option.some.inj hs']
          exact TwinWorld.set ⟨h.now, h.registry, h.forwardingEnabled,
            h.rateLimiter, h.conns⟩ (hc.goto (.plain _ rfl) _ _)
      case leaving =>
          rw [← h.registry] at hs'
          rw [← Option.some.inj hs, ← Option.some.inj hs']
          exact TwinWorld.set ⟨h.now, rfl, h.forwardingEnabled,
            h.rateLimiter, h.conns⟩ (hc.goto (TwinPhase.refl _) _ _)
      case lastClient =>
          rw [← h.forwardingEnabled] at hs'
          rw [← Option.some.inj hs, ← Option.some.inj hs']
          exact TwinWorld.set ⟨h.now, h.registry, rfl, h.rateLimiter,
            h.conns⟩ (hc.goto (.plain _ rfl) _ _)
      case farewell =>
          rw [← Option.some.inj hs, ← Option.some.inj hs']
          exact h.set (hc.goto (.plain _ rfl) _ _)

/-- Two actions of the control channel. -/
inductive TwinAction : KvmControl.Action C → KvmControl.Action C → Prop where
  | same (a : KvmControl.Action C) : TwinAction a a
  | receive (c : C) {e e' : Envelope} (h : TwinEnvelope e e') :
      TwinAction (.receive c e) (.receive c e')

theorem twin_receive (h : TwinWorld w w') {e e' : Envelope}
    (he : TwinEnvelope e e')
    (hs : KvmControl.step k ip w (.receive c e) = some v)
    (hs' : KvmControl.step k ip w' (.receive c e') = some v') :
    TwinWorld v v' := by
  obtain ⟨y, hy, rfl⟩ := Option.map_eq_some_iff.mp hs
  obtain ⟨y', hy', rfl⟩ := Option.map_eq_some_iff.mp hs'
  rw [← h.forwardingEnabled, ← h.now] at hy'
  exact h.set (twin_onEnvelope (h.conns c) he hy hy')

omit [DecidableEq Ip] in
/-- An event of the message loop. -/
theorem twin_looping (h : TwinWorld w w') {ph : KvmControl.Phase}
    {es : List Envelope}
    (hs : (if (w.conns c).phase = .looping then
      some (w.set c ((w.conns c).goto ph es)) else none) = some v)
    (hs' : (if (w'.conns c).phase = .looping then
      some (w'.set c ((w'.conns c).goto ph es)) else none) = some v') :
    TwinWorld v v' := by
  split at hs
  · split at hs'
    · rw [← Option.some.inj hs, ← Option.some.inj hs']
      exact h.set ((h.conns c).goto (TwinPhase.refl ph) _ _)
    · cases hs'
  · cases hs

/-- **A STEP OF THE CONTROL CHANNEL** in both runs. -/
theorem twin_control (h : TwinWorld w w') {a a' : KvmControl.Action C}
    (ha : TwinAction a a')
    (hchecks : ∀ c, a = .advance c → SameChecks k w w' c)
    (hs : KvmControl.step k ip w a = some v)
    (hs' : KvmControl.step k ip w' a' = some v') : TwinWorld v v' := by
  cases ha with
  | receive c he => exact twin_receive h he hs hs'
  | same =>
      cases a with
      | receive c e => exact twin_receive h (.same e) hs hs'
      | advance c =>
          exact twin_advance h (hchecks c rfl) hs hs'
      | fail c =>
          rw [(step_fail hs).2, (step_fail hs').2]
          exact h.set ((h.conns c).goto (.plain _ rfl) _ _)
      | closed c => exact twin_looping h hs hs'
      | pingTick c ts => exact twin_looping h hs hs'
      | watchdog c =>
          simp only [KvmControl.step, ← h.now, ← (h.conns c).lastSeen] at hs hs'
          exact twin_looping h hs hs'
      | broadcast e =>
          rw [← Option.some.inj hs, ← Option.some.inj hs']
          exact h.broadcast e
      | hotkey on =>
          rw [← Option.some.inj hs, ← Option.some.inj hs']
          exact ⟨h.now, h.registry, rfl, h.rateLimiter, h.conns⟩
      | takeClipboard =>
          simp only [KvmControl.step] at hs hs'
          split at hs
          · split at hs'
            · rw [← Option.some.inj hs, ← Option.some.inj hs']
              exact ⟨h.now, h.registry, h.forwardingEnabled, h.rateLimiter,
                h.conns⟩
            · cases hs'
          · cases hs
      | tick d =>
          rw [← Option.some.inj hs, ← Option.some.inj hs']
          exact ⟨congrArg (· + d) h.now, h.registry, h.forwardingEnabled,
            h.rateLimiter, h.conns⟩

end Control

/-! ## The file channel -/

section Files

/-- Two connections to the file channel. -/
def TwinFile (x x' : KvmFileChannel.Conn) : Prop :=
  ∃ st, TwinStage x.stage st ∧ x' = { x with stage := st }

theorem TwinFile.refl (x : KvmFileChannel.Conn) : TwinFile x x :=
  ⟨x.stage, .same _, rfl⟩

/-- They are the same, or about to be told that they are unpaired. -/
theorem TwinFile.cases {x x' : KvmFileChannel.Conn} (h : TwinFile x x') :
    x' = x ∨ ∃ fp fp', SameStart fp fp' ∧
      x.stage = .refusing (.unpaired fp) ∧
      x' = { x with stage := .refusing (.unpaired fp') } := by
  obtain ⟨st, hst, rfl⟩ := h
  generalize hx : x.stage = st₀ at hst
  cases hst with
  | same =>
      refine Or.inl ?_
      rw [← hx]
  | unpaired hfp => exact Or.inr ⟨_, _, hfp, rfl, rfl⟩

variable [DecidableEq D] {k : KvmFileChannel.Settings D}
  {w w' v v' : Channel D} {d : D}

omit [DecidableEq D] in
theorem TwinChannel.withFiles (h : TwinChannel w w')
    (files : KvmTransfer.World D) :
    TwinChannel { w with files := files } { w' with files := files } :=
  ⟨rfl, h.conns⟩

theorem TwinChannel.set (h : TwinChannel w w') {x x' : KvmFileChannel.Conn}
    (hx : TwinFile x x') : TwinChannel (w.set d x) (w'.set d x') where
  files := h.files
  conns := by
    intro d'
    by_cases hd : d' = d
    · rw [hd, set_conns_self, set_conns_self]
      exact hx
    · simp only [Channel.set, Function.update_of_ne hd]
      exact h.conns d'

/-- A step of the transfer itself. -/
theorem twin_serve (h : TwinChannel w w') {a : KvmTransfer.Action D}
    {next next' : KvmTransfer.World D → KvmFileChannel.Conn}
    (hnext : w'.conns d = w.conns d → next' = next)
    (hs : w.serve k d a next = some v) (hs' : w'.serve k d a next' = some v') :
    TwinChannel v v' := by
  obtain ⟨hst, files, hfiles, rfl⟩ := serve_some hs
  obtain ⟨-, files', hfiles', rfl⟩ := serve_some hs'
  rw [← h.files, hfiles] at hfiles'
  rw [← Option.some.inj hfiles']
  rcases TwinFile.cases (h.conns d) with hsame | ⟨fp, fp', -, hx, -⟩
  · rw [hnext hsame]
    exact (h.withFiles files).set (TwinFile.refl _)
  · rw [hst] at hx
    cases hx

/-- The devices that send two requests are both paired or both not. -/
def SamePaired (paired paired' : List String) (e e' : Envelope) : Prop :=
  ∀ n n' fp fp' p p', e = .pairRequest n fp p → e' = .pairRequest n' fp' p' →
    (fp ∈ paired ↔ fp' ∈ paired')

theorem twin_onRequest (paired paired' : List String)
    (x : KvmFileChannel.Conn) {e e' : Envelope} (he : TwinEnvelope e e')
    (hpaired : SamePaired paired paired' e e') :
    TwinFile (onRequest paired x e) (onRequest paired' x e') := by
  have hrequest : ∀ fp fp' n n' p p', SameStart fp fp' →
      (fp ∈ paired ↔ fp' ∈ paired') →
      TwinFile (onRequest paired x (.pairRequest n fp p))
        (onRequest paired' x (.pairRequest n' fp' p')) := by
    intro fp fp' n n' p p' hfp hin
    by_cases hp : fp ∈ paired
    · rw [onRequest, onRequest, if_pos hp, if_pos (hin.mp hp)]
      exact TwinFile.refl _
    · rw [onRequest, onRequest, if_neg hp, if_neg (fun hp' => hp (hin.mpr hp'))]
      exact ⟨_, .unpaired hfp, rfl⟩
  cases he with
  | same =>
      cases e with
      | pairRequest n fp p =>
          exact hrequest fp fp n n p p rfl (hpaired n n fp fp p p rfl rfl)
      | _ => exact TwinFile.refl _
  | pairRequest n p p' hfp =>
      exact hrequest _ _ n n p p' hfp (hpaired n n _ _ p p' rfl rfl)

/-- Two actions of the file channel. -/
inductive TwinFileAction :
    KvmFileChannel.Action D → KvmFileChannel.Action D → Prop where
  | same (a : KvmFileChannel.Action D) : TwinFileAction a a
  | request (d : D) {e e' : Envelope} (h : TwinEnvelope e e') :
      TwinFileAction (.request d e) (.request d e')
  | offer (d : D) {e e' : Envelope} (h : TwinEnvelope e e') :
      TwinFileAction (.offer d e) (.offer d e')

theorem offerOf_twin {e e' : Envelope} (h : TwinEnvelope e e') :
    offerOf e' = offerOf e := by
  cases h <;> rfl

theorem twin_request (h : TwinChannel w w') {paired paired' : List String}
    {e e' : Envelope} (he : TwinEnvelope e e')
    (hpaired : SamePaired paired paired' e e')
    (hs : KvmFileChannel.step k paired w (.request d e) = some v)
    (hs' : KvmFileChannel.step k paired' w' (.request d e') = some v') :
    TwinChannel v v' := by
  simp only [KvmFileChannel.step] at hs hs'
  rcases TwinFile.cases (h.conns d) with hsame | ⟨fp, fp', -, hx, -⟩
  · rw [hsame] at hs'
    split at hs
    · rename_i hst
      simp only [hst] at hs'
      rw [← Option.some.inj hs, ← Option.some.inj hs']
      exact h.set (twin_onRequest paired paired' _ he hpaired)
    · cases hs
  · simp only [hx, reduceCtorEq] at hs

theorem twin_offer (h : TwinChannel w w') {paired paired' : List String}
    {e e' : Envelope} (he : TwinEnvelope e e')
    (hs : KvmFileChannel.step k paired w (.offer d e) = some v)
    (hs' : KvmFileChannel.step k paired' w' (.offer d e') = some v') :
    TwinChannel v v' := by
  simp only [KvmFileChannel.step, offerOf_twin he, ← h.files] at hs hs'
  rcases TwinFile.cases (h.conns d) with hsame | ⟨fp, fp', -, hx, -⟩
  · rw [hsame] at hs'
    split at hs
    · rename_i hst
      simp only [hst] at hs'
      cases ho : offerOf e with
      | none =>
          simp only [ho] at hs hs'
          rw [← Option.some.inj hs, ← Option.some.inj hs']
          exact h.set (TwinFile.refl _)
      | some p =>
          simp only [ho] at hs hs'
          obtain ⟨files, hfiles, rfl⟩ := Option.map_eq_some_iff.mp hs
          obtain ⟨files', hfiles', rfl⟩ := Option.map_eq_some_iff.mp hs'
          rw [hfiles] at hfiles'
          rw [← Option.some.inj hfiles']
          exact (h.withFiles files).set (TwinFile.refl _)
    · cases hs
  · simp only [hx, reduceCtorEq] at hs

/-- The handler sends: two refusals send the same. -/
theorem twin_reply (h : TwinChannel w w') {paired paired' : List String}
    (hs : KvmFileChannel.step k paired w (.reply d) = some v)
    (hs' : KvmFileChannel.step k paired' w' (.reply d) = some v') :
    TwinChannel v v' := by
  obtain ⟨y, hy, rfl⟩ := Option.map_eq_some_iff.mp hs
  obtain ⟨y', hy', rfl⟩ := Option.map_eq_some_iff.mp hs'
  refine h.set ?_
  rcases TwinFile.cases (h.conns d) with hsame | ⟨fp, fp', -, hx, hx'⟩
  · rw [hsame, hy] at hy'
    rw [← Option.some.inj hy']
    exact TwinFile.refl y
  · simp only [onReply, hx] at hy
    simp only [onReply, hx'] at hy'
    rw [← Option.some.inj hy, ← Option.some.inj hy']
    exact TwinFile.refl _

/-- The handler returns with an error. -/
theorem twin_fail (h : TwinChannel w w') {paired paired' : List String}
    {err : Text} (hs : KvmFileChannel.step k paired w (.fail d err) = some v)
    (hs' : KvmFileChannel.step k paired' w' (.fail d err) = some v') :
    TwinChannel v v' := by
  have hphase : w'.phase d = w.phase d := by
    rw [Channel.phase, Channel.phase, h.files]
  simp only [KvmFileChannel.step, ← h.files, hphase] at hs hs'
  rcases TwinFile.cases (h.conns d) with hsame | ⟨fp, fp', -, hx, hx'⟩
  · rw [hsame] at hs'
    have habort : ∀ x : KvmFileChannel.Conn,
        (if mayFail (w.phase d) then
          (KvmTransfer.step k.sha256 k.maxFileSize w.files (.abort d)).map
            fun files => { w with files := files }.set d x
          else none) = some v →
        (if mayFail (w.phase d) then
          (KvmTransfer.step k.sha256 k.maxFileSize w.files (.abort d)).map
            fun files => { w' with files := files }.set d x
          else none) = some v' → TwinChannel v v' := by
      intro x hv hv'
      split at hv
      · rename_i hmay
        rw [if_pos hmay] at hv'
        obtain ⟨files, hfiles, rfl⟩ := Option.map_eq_some_iff.mp hv
        obtain ⟨files', hfiles', rfl⟩ := Option.map_eq_some_iff.mp hv'
        rw [hfiles] at hfiles'
        rw [← Option.some.inj hfiles']
        exact (h.withFiles files).set (TwinFile.refl x)
      · cases hv
    cases hst : (w.conns d).stage <;> simp only [hst] at hs hs'
    case serving => exact habort _ hs hs'
    case announcing => exact habort _ hs hs'
    case returned => cases hs
    all_goals
      rw [← Option.some.inj hs, ← Option.some.inj hs']
      exact h.set (TwinFile.refl _)
  · simp only [hx] at hs
    simp only [hx'] at hs'
    rw [← Option.some.inj hs, ← Option.some.inj hs']
    exact h.set (TwinFile.refl _)

/-- **A STEP OF THE FILE CHANNEL** in both runs. -/
theorem twin_file (h : TwinChannel w w') {paired paired' : List String}
    {a a' : KvmFileChannel.Action D} (ha : TwinFileAction a a')
    (hpaired : ∀ d e e', a = .request d e → a' = .request d e' →
      SamePaired paired paired' e e')
    (hs : KvmFileChannel.step k paired w a = some v)
    (hs' : KvmFileChannel.step k paired' w' a' = some v') :
    TwinChannel v v' := by
  have hphase : ∀ d, w'.phase d = w.phase d := by
    intro d
    rw [Channel.phase, Channel.phase, h.files]
  cases ha with
  | request d he => exact twin_request h he (hpaired d _ _ rfl rfl) hs hs'
  | offer d he => exact twin_offer h he hs hs'
  | same =>
      cases a with
      | request d e =>
          exact twin_request h (.same e) (hpaired d e e rfl rfl) hs hs'
      | offer d e => exact twin_offer h (.same e) hs hs'
      | reply d => exact twin_reply h hs hs'
      | fail d err => exact twin_fail h hs hs'
      | timeout d =>
          simp only [KvmFileChannel.step] at hs hs'
          rcases TwinFile.cases (h.conns d) with hsame | ⟨fp, fp', -, hx, -⟩
          · rw [hsame] at hs'
            split at hs
            · rename_i hst
              simp only [hst] at hs'
              rw [← Option.some.inj hs, ← Option.some.inj hs']
              exact h.set (TwinFile.refl _)
            · cases hs
          · simp only [hx, reduceCtorEq] at hs
      | advance d err =>
          refine twin_serve (d := d) h ?_ hs hs'
          intro hsame
          rw [hsame, hphase d]
      | chunk d bs =>
          refine twin_serve (d := d) h ?_ hs hs'
          intro hsame
          rw [hsame, hphase d]
      | endOfData d =>
          refine twin_serve (d := d) h ?_ hs hs'
          intro hsame
          rw [hsame]
      | rehash d n =>
          refine twin_serve (d := d) h ?_ hs hs'
          intro hsame
          rw [hsame]

end Files

/-! ## The lines of a step -/

section Lines

/-- As many lines on either side, and the same exactly if as much of a
    credential is shown. -/
def Shows (lines lines' : List LogLine) (shown shown' : Option Text) : Prop :=
  lines.length = lines'.length ∧ (lines = lines' ↔ shown = shown')

theorem shows_same {lines lines' : List LogLine} {shown shown' : Option Text}
    (h : lines = lines') (hshown : shown = shown') :
    Shows lines lines' shown shown' :=
  ⟨congrArg List.length h, iff_of_true h hshown⟩

/-- A last line with the credential in it. -/
theorem shows_last {lines : List LogLine} {level : Level} {audit : Bool}
    {before behind text text' : Text} :
    Shows (lines ++ [⟨level, audit, before ++ text ++ behind⟩])
      (lines ++ [⟨level, audit, before ++ text' ++ behind⟩])
      (some text) (some text') := by
  refine ⟨by rw [List.length_append, List.length_append]; rfl, ?_⟩
  constructor
  · intro h
    have hline := List.singleton_inj.mp (List.append_cancel_left h)
    have htext := congrArg LogLine.text hline
    exact congrArg some
      (List.append_cancel_left (List.append_cancel_right htext))
  · intro h
    rw [Option.some.inj h]

theorem redact_of_sameStart {fp fp' : String} (h : SameStart fp fp') :
    redactFingerprint fp = redactFingerprint fp' := by
  rw [redactFingerprint, redactFingerprint, show _ = _ from h]

variable {x x' : KvmControl.Conn}

theorem clientName_twin (h : TwinConn x x') : clientName x = clientName x' := by
  have hr := h.received
  rw [clientName, clientName]
  generalize x.received = es at hr
  generalize x'.received = es' at hr
  cases hr with
  | nil => rfl
  | @cons e e' _ _ he _ =>
      cases he with
      | same => cases e <;> rfl
      | pairRequest nonce proof proof' hfp => rfl

theorem clientFingerprint_twin (h : TwinConn x x') :
    SameStart (clientFingerprint x) (clientFingerprint x') := by
  have hr := h.received
  rw [clientFingerprint, clientFingerprint]
  generalize x.received = es at hr
  generalize x'.received = es' at hr
  cases hr with
  | nil => rfl
  | cons _ hrest =>
      cases hrest with
      | nil => rfl
      | @cons e e' _ _ he _ =>
          cases he with
          | same => cases e <;> rfl
          | pairRequest nonce proof proof' hfp => exact hfp

variable {k : Settings C Ip D} {s s' : Server C Ip D} {c : C}

/-- The lines of an envelope on the control channel. -/
theorem shows_receive (h : TwinWorld s.control s'.control) {e e' : Envelope}
    (he : TwinEnvelope e e') (err : Option Text) :
    Shows (controlLog k s.control err (.receive c e))
      (controlLog k s'.control err (.receive c e'))
      (exposed k s (.control (.receive c e) err))
      (exposed k s' (.control (.receive c e') err)) := by
  have hname := clientName_twin (h.conns c)
  have hph := (h.conns c).phase
  rw [controlLog, controlLog, ← hname]
  generalize hx : (s.control.conns c).phase = ph at hph
  generalize hx' : (s'.control.conns c).phase = ph' at hph
  cases he with
  | same e =>
      have hshown : exposed k s (.control (.receive c e) err)
          = exposed k s' (.control (.receive c e) err) := by
        cases e <;> simp only [exposed, hx, hx']
        cases hph <;> rfl
      refine shows_same ?_ hshown
      cases hph <;> rfl
  | @pairRequest nonce fp fp' proof proof' hfp =>
      simp only [exposed, hx, hx']
      cases hph with
      | plain _ hno =>
          cases ph with
          | looping =>
              have hlast := @shows_last [] .warn false
                ("Unhandled message from ".toList
                  ++ quoted (clientName (s.control.conns c)) ++ ": ".toList)
                [] (k.debug (.pairRequest nonce fp proof))
                (k.debug (.pairRequest nonce fp' proof'))
              simp only [List.append_nil] at hlast
              exact hlast
          | _ => exact shows_same rfl rfl
      | _ => exact shows_same rfl rfl

/-- Outside the comparison the handler's next step exposes nothing. -/
theorem exposed_advance {err : Option Text}
    (hne : ∀ r, (s.control.conns c).phase ≠ .comparing r) :
    exposed k s (.control (.advance c) err) = none := by
  cases err with
  | some e => rfl
  | none =>
      cases hph : (s.control.conns c).phase with
      | comparing r => exact absurd hph (hne r)
      | _ => simp only [exposed, hph]

/-- The lines of the handler's next step. -/
theorem shows_advance (h : TwinWorld s.control s'.control)
    (err : Option Text)
    (hchecks : SameChecks k.control s.control s'.control c) :
    Shows (advanceLog k c s.control err) (advanceLog k c s'.control err)
      (exposed k s (.control (.advance c) err))
      (exposed k s' (.control (.advance c) err)) := by
  obtain ⟨hpaired, hverdict⟩ := hchecks
  have hname := clientName_twin (h.conns c)
  have hfirst := redact_of_sameStart (clientFingerprint_twin (h.conns c))
  have hph := (h.conns c).phase
  have hquiet := @exposed_advance _ _ _ k s c err
  have hquiet' := @exposed_advance _ _ _ k s' c err
  rw [advanceLog, advanceLog, ← hname, ← hfirst, ← h.rateLimiter, ← h.now,
    ← h.forwardingEnabled]
  generalize hx : (s.control.conns c).phase = ph at hph hpaired hverdict hquiet
  generalize hx' : (s'.control.conns c).phase = ph'
    at hph hpaired hverdict hquiet'
  cases hph with
  | plain _ hno =>
      have hne : ∀ r, ph ≠ .comparing r := by
        rintro r rfl
        cases hno
      refine shows_same ?_ ((hquiet hne).trans (hquiet' hne).symm)
      cases ph <;> first | rfl | cases hno
  | checking hfp =>
      exact shows_same rfl ((hquiet (by rintro r ⟨⟩)).trans
        (hquiet' (by rintro r ⟨⟩)).symm)
  | accepting hfp =>
      exact shows_same rfl ((hquiet (by rintro r ⟨⟩)).trans
        (hquiet' (by rintro r ⟨⟩)).symm)
  | registering hfp =>
      exact shows_same rfl ((hquiet (by rintro r ⟨⟩)).trans
        (hquiet' (by rintro r ⟨⟩)).symm)
  | readingConfig hfp =>
      refine shows_same ?_ ((hquiet (by rintro r ⟨⟩)).trans
        (hquiet' (by rintro r ⟨⟩)).symm)
      simp only [hpaired _ _ rfl rfl, redact_of_sameStart hfp]
  | adding hfp =>
      refine shows_same ?_ ((hquiet (by rintro r ⟨⟩)).trans
        (hquiet' (by rintro r ⟨⟩)).symm)
      simp only [redact_of_sameStart hfp]
  | @comparing r r' hfp =>
      have hver := hverdict r r' rfl rfl
      simp only [← hver, ← redact_of_sameStart hfp]
      by_cases hok : proofOk k.control.sha256 k.control.pin r = true
      · refine shows_same (by rw [if_pos hok, if_pos hok]) ?_
        cases err with
        | some e => rfl
        | none => simp only [exposed, hx, hx', ← hver, hok, if_true]
      · rw [if_neg hok, if_neg hok]
        cases err with
        | some e => exact shows_same rfl rfl
        | none =>
            simp only [exposed, hx, hx', ← hver, if_neg hok]
            -- the audit line shows the beginning, the error all of it
            have hlast := @shows_last
              [auditWarn ("rejected pairing from ".toList ++ peerText k c
                ++ " (bad PIN, fingerprint ".toList
                ++ redactFingerprint r.fingerprint ++ ")".toList)]
              .error false
              ("Error handling client ".toList ++ k.peerAddr c ++ ": ".toList
                ++ ("pairing rejected for ".toList ++ peerText k c
                  ++ " (".toList))
              ")".toList r.fingerprint.toList r'.fingerprint.toList
            simp only [List.append_assoc] at hlast
            simp only [handlerError, Option.getD_none, List.append_assoc]
            exact hlast

/-- The lines of any step of the control channel. -/
theorem shows_control (h : TwinWorld s.control s'.control)
    {a a' : KvmControl.Action C} (ha : TwinAction a a') (err : Option Text)
    (hchecks : ∀ c, a = .advance c →
      SameChecks k.control s.control s'.control c)
    (hfail : ∀ c, a = .fail c → err = none →
      hasDeadline (s.control.conns c).phase = true) :
    Shows (controlLog k s.control err a) (controlLog k s'.control err a')
      (exposed k s (.control a err)) (exposed k s' (.control a' err)) := by
  cases ha with
  | receive c he => exact shows_receive h he err
  | same =>
      cases a with
      | receive c e => exact shows_receive h (.same e) err
      | advance c => exact shows_advance h err (hchecks c rfl)
      | fail c =>
          refine shows_same ?_ (by cases err <;> rfl)
          cases err with
          | some e => rfl
          | none =>
              -- a deadline: the phase is one of two that remember no request
              have hdeadline := hfail c rfl rfl
              have hph := (h.conns c).phase
              simp only [controlLog, Option.getD_none]
              generalize (s.control.conns c).phase = ph at hph hdeadline
              generalize (s'.control.conns c).phase = ph' at hph
              cases hph with
              | plain _ hno => rfl
              | _ => cases hdeadline
      | closed c =>
          refine shows_same ?_ rfl
          simp only [controlLog, clientName_twin (h.conns c)]
      | watchdog c =>
          refine shows_same ?_ rfl
          simp only [controlLog, clientName_twin (h.conns c), h.now,
            (h.conns c).lastSeen]
      | pingTick c ts => exact shows_same rfl rfl
      | broadcast e => exact shows_same rfl rfl
      | hotkey on => exact shows_same rfl rfl
      | takeClipboard => exact shows_same rfl rfl
      | tick d => exact shows_same rfl rfl

/-- The lines of a step of the file channel. -/
theorem shows_file {v v' : Server C Ip D} (h : TwinChannel s.files s'.files)
    (hv : TwinChannel v.files v'.files) {a a' : KvmFileChannel.Action D}
    (ha : TwinFileAction a a') :
    Shows (KvmFileChannel.log k.files s.files a v.files)
      (KvmFileChannel.log k.files s'.files a' v'.files)
      (exposed k s (.file a)) (exposed k s' (.file a')) := by
  have hphase : ∀ d, s'.files.phase d = s.files.phase d := by
    intro d
    rw [Channel.phase, Channel.phase, h.files]
  have hphase' : ∀ d, v'.files.phase d = v.files.phase d := by
    intro d
    rw [Channel.phase, Channel.phase, hv.files]
  have hlast : ∀ d, (s'.files.conns d).lastLogBytes
      = (s.files.conns d).lastLogBytes := by
    intro d
    obtain ⟨st, -, hx⟩ := h.conns d
    rw [hx]
  cases ha with
  | request d he => exact shows_same rfl rfl
  | offer d he =>
      refine shows_same ?_ rfl
      simp only [KvmFileChannel.log, offerOf_twin he]
  | same =>
      cases a with
      | reply d =>
          simp only [KvmFileChannel.log, exposed, ← h.files]
          rcases TwinFile.cases (h.conns d) with
            hsame | ⟨fp, fp', -, hx, hx'⟩
          · rw [hsame]
            exact shows_same rfl rfl
          · simp only [hx, hx', Refusal.err, Option.map_some,
              Option.toList_some, errorLine]
            have hshows := @shows_last [] .error false
              ("File transfer error from ".toList ++ k.files.addr d
                ++ ": ".toList
                ++ "unpaired device attempted file transfer: ".toList)
              [] fp.toList fp'.toList
            simp only [List.append_nil, List.nil_append, List.append_assoc]
              at hshows
            simp only [List.append_assoc]
            exact hshows
      | request d e => exact shows_same rfl rfl
      | timeout d => exact shows_same rfl rfl
      | fail d err => exact shows_same rfl rfl
      | offer d e => exact shows_same rfl rfl
      | advance d err =>
          refine shows_same ?_ rfl
          simp only [KvmFileChannel.log, hphase, hphase', h.files]
      | chunk d bs =>
          refine shows_same ?_ rfl
          simp only [KvmFileChannel.log, hphase, hlast, h.files]
      | endOfData d =>
          refine shows_same ?_ rfl
          simp only [KvmFileChannel.log, hphase, hphase', h.files]
      | rehash d n =>
          refine shows_same ?_ rfl
          simp only [KvmFileChannel.log, hphase', h.files]

end Lines

/-! ## Both runs -/

section Runs

variable [DecidableEq C] [DecidableEq Ip] [DecidableEq D]
  {k : Settings C Ip D} {s s' v v' : Server C Ip D}

/-- A step of the control channel, in the state and in the log. -/
theorem twin_step_control (h : TwinServer s s')
    {a a' : KvmControl.Action C} (ha : TwinAction a a') {err : Option Text}
    (hsame : SameAnswers k (s, s') (.control a err, .control a' err))
    (hs : step k s (.control a err) = some v)
    (hs' : step k s' (.control a' err) = some v') :
    TwinServer v v' ∧
      Shows (log k s (.control a err) v) (log k s' (.control a' err) v')
        (exposed k s (.control a err)) (exposed k s' (.control a' err)) := by
  have hchecks : ∀ c, a = .advance c →
      SameChecks k.control s.control s'.control c := by
    rintro c rfl
    cases ha
    refine ⟨?_, ?_⟩
    · intro r r' hr hr'
      have hanswer := hsame.1
      simp only [paired, hr, hr', Option.some.injEq, decide_eq_decide]
        at hanswer
      exact hanswer
    · intro r r' hr hr'
      have hanswer := hsame.2
      simp only [verdict, hr, hr', Option.some.injEq] at hanswer
      exact hanswer
  simp only [step] at hs hs'
  split at hs
  · rename_i hmay
    split at hs'
    · obtain ⟨w, hw, rfl⟩ := Option.map_eq_some_iff.mp hs
      obtain ⟨w', hw', rfl⟩ := Option.map_eq_some_iff.mp hs'
      refine ⟨⟨twin_control h.control ha hchecks hw hw', h.files⟩, ?_⟩
      refine shows_control h.control ha err hchecks ?_
      rintro c rfl rfl
      exact hmay
    · cases hs'
  · cases hs

/-- A step of the file channel, in the state and in the log. -/
theorem twin_step_file (h : TwinServer s s')
    {a a' : KvmFileChannel.Action D} (ha : TwinFileAction a a')
    (hsame : SameAnswers k (s, s') (.file a, .file a'))
    (hs : step k s (.file a) = some v) (hs' : step k s' (.file a') = some v') :
    TwinServer v v' ∧
      Shows (log k s (.file a) v) (log k s' (.file a') v')
        (exposed k s (.file a)) (exposed k s' (.file a')) := by
  obtain ⟨w, hw, rfl⟩ := Option.map_eq_some_iff.mp hs
  obtain ⟨w', hw', rfl⟩ := Option.map_eq_some_iff.mp hs'
  have htwin : TwinChannel w w' := by
    refine twin_file h.files ha ?_ hw hw'
    rintro d e e' rfl rfl n n' fp fp' p p' rfl rfl
    have hanswer := hsame.1
    simp only [paired, Option.some.injEq, decide_eq_decide] at hanswer
    exact hanswer
  exact ⟨⟨h.control, htwin⟩,
    @shows_file _ _ _ k s s' { s with files := w } { s' with files := w' }
      h.files htwin a a' ha⟩

/-- **ONE STEP OF BOTH RUNS** keeps them twins, and logs the same exactly if
    it exposes the same. -/
theorem twin_step (h : TwinServer s s') {e e' : Event C D}
    (he : TwinEvent e e') (hsame : SameAnswers k (s, s') (e, e'))
    (hs : step k s e = some v) (hs' : step k s' e' = some v') :
    TwinServer v v' ∧
      Shows (log k s e v) (log k s' e' v') (exposed k s e)
        (exposed k s' e') := by
  -- events that only log
  have hother : some s = some v → some s' = some v' →
      log k s e v = log k s' e' v' → exposed k s e = exposed k s' e' →
      TwinServer v v' ∧ Shows (log k s e v) (log k s' e' v')
        (exposed k s e) (exposed k s' e') := by
    intro hv hv' hlines hshown
    refine ⟨?_, shows_same hlines hshown⟩
    rw [← Option.some.inj hv, ← Option.some.inj hv']
    exact h
  cases he with
  | receive c err he => exact twin_step_control h (.receive c he) hsame hs hs'
  | request d he => exact twin_step_file h (.request d he) hsame hs hs'
  | offer d he => exact twin_step_file h (.offer d he) hsame hs hs'
  | same =>
      cases e with
      | control a err => exact twin_step_control h (.same a) hsame hs hs'
      | file a => exact twin_step_file h (.same a) hsame hs hs'
      | dropped l addr => exact hother hs hs' rfl rfl
      | accepted l addr => exact hother hs hs' rfl rfl
      | acceptFailed l err => exact hother hs hs' rfl rfl
      | tlsFailed l addr err => exact hother hs hs' rfl rfl
      | tlsTimedOut l addr => exact hother hs hs' rfl rfl
      | hotkeyReported on => exact hother hs hs' rfl rfl
      | shutdown => exact hother hs hs' rfl rfl
      | writeFailed err => exact hother hs hs' rfl rfl

end Runs

section Main

variable [DecidableEq C] [DecidableEq Ip] [DecidableEq D]

/-- **THE LOG KEEPS CREDENTIALS BACK, WITH THREE EXCEPTIONS**: for any number
    of connections to both channels and any interleaving, two runs that differ
    in nothing but clients' fingerprints behind the eleventh character and the
    proofs made with them, with the same paired or unpaired status and the
    same verdict at every step, have the same log exactly if no step exposes
    a fingerprint in which they differ. -/
theorem log_redacted (k : Settings C Ip D) (s s' t t' : Server C Ip D)
    (events : List (Event C D × Event C D)) (hstart : TwinServer s s')
    (hrun : exec (step k) s (events.map Prod.fst) = some t)
    (hrun' : exec (step k) s' (events.map Prod.snd) = some t')
    (hevents : ∀ e ∈ events, TwinEvent e.1 e.2)
    (hanswers : Guarded (both (step k)) (SameAnswers k) (s, s') events) :
    outputs (step k) (log k) s (events.map Prod.fst)
        = outputs (step k) (log k) s' (events.map Prod.snd) ↔
      Guarded (both (step k)) (SameExposure k) (s, s') events := by
  have hboth : exec (both (step k)) (s, s') events = some (t, t') :=
    (exec_both events (s, s')).mpr ⟨hrun, hrun'⟩
  have hok := guarded_and events (s, s')
    (guarded_of_forall events (s, s') fun e he _ => hevents e he) hanswers
  refine outputs_eq_iff (R := fun p => TwinServer p.1 p.2) ?_ ?_ ?_ events
    (s, s') (t, t') hstart hok hboth
  · rintro p e p' h ⟨he, hsame⟩ hp
    obtain ⟨hs, hs'⟩ := both_some.mp hp
    exact (twin_step h he hsame hs hs').1
  · rintro p e p' h ⟨he, hsame⟩ hp
    obtain ⟨hs, hs'⟩ := both_some.mp hp
    exact (twin_step h he hsame hs hs').2.1
  · rintro p e p' h ⟨he, hsame⟩ hp
    obtain ⟨hs, hs'⟩ := both_some.mp hp
    exact (twin_step h he hsame hs hs').2.2

end Main

/-! ## Two fingerprints with the same beginning -/

/-- Whichever devices are paired. -/
theorem twin_start (paired paired' : List String) (enabled : Bool)
    (dir : Directory.Dir KvmFileName.Name) :
    TwinServer (Server.start C Ip D paired enabled dir)
      (Server.start C Ip D paired' enabled dir) where
  control := ⟨rfl, rfl, rfl, rfl,
    fun _ => ⟨.plain _ rfl, List.Forall₂.nil, rfl⟩⟩
  files := ⟨rfl, fun _ => TwinFile.refl _⟩

/-- One client, at 10.0.0.7. -/
def oneClient : Settings Unit Unit Unit where
  control := KvmControl.settings
  files := settingsA
  peerIp := fun _ => ()
  peerAddr := fun _ => "10.0.0.7:50000".toList
  ipText := fun _ => "10.0.0.7".toList
  debug := fun _ => "PairRequest { .. }".toList

/-- The client says who it is, with one fingerprint or the other, and the
    handler goes on to its look at the config. -/
def introduced : List (Event Unit Unit × Event Unit Unit) :=
  let hello : Event Unit Unit :=
    .control (.receive () (.hello "laptop" PROTOCOL_VERSION
      ⟨true, true, false⟩)) none
  let pair (fp : String) : Event Unit Unit :=
    .control (.receive () (.pairRequest (Vector.replicate 16 0) fp
      (Vector.replicate 32 0))) none
  let advance : Event Unit Unit := .control (.advance ()) none
  [(hello, hello), (advance, advance),
    (pair "AA:BB:CC:DD:EE:01", pair "AA:BB:CC:DD:EE:02"),
    (advance, advance), (advance, advance)]

theorem introduced_twin : ∀ e ∈ introduced, TwinEvent e.1 e.2 := by
  intro e he
  simp only [introduced, List.mem_cons, List.not_mem_nil, or_false] at he
  rcases he with rfl | rfl | rfl | rfl | rfl
  · exact .same _
  · exact .same _
  · exact .receive () none (.pairRequest _ _ _ (by decide))
  · exact .same _
  · exact .same _

/-- A client that is paired already: its line in the log is the same with
    either fingerprint. -/
theorem log_redacted_reconnect :
    outputs (step oneClient) (log oneClient)
        (Server.start Unit Unit Unit ["AA:BB:CC:DD:EE:01"] false
          Directory.Dir.empty) (introduced.map Prod.fst)
      = outputs (step oneClient) (log oneClient)
        (Server.start Unit Unit Unit ["AA:BB:CC:DD:EE:02"] false
          Directory.Dir.empty) (introduced.map Prod.snd) := by
  obtain ⟨t, ht⟩ := Option.isSome_iff_exists.mp
    (show (exec (step oneClient) (Server.start Unit Unit Unit
      ["AA:BB:CC:DD:EE:01"] false Directory.Dir.empty)
        (introduced.map Prod.fst)).isSome = true by decide)
  obtain ⟨t', ht'⟩ := Option.isSome_iff_exists.mp
    (show (exec (step oneClient) (Server.start Unit Unit Unit
      ["AA:BB:CC:DD:EE:02"] false Directory.Dir.empty)
        (introduced.map Prod.snd)).isSome = true by decide)
  exact (log_redacted oneClient _ _ t t' introduced (twin_start _ _ _ _) ht ht'
    introduced_twin (by decide)).mpr (by decide)

/-- **A FAILED PAIRING SHOWS THE FINGERPRINT**: neither fingerprint is paired
    and both proofs are wrong; the audit lines are the same, the errors of the
    handler are not. -/
theorem failed_pairing_shows_fingerprint :
    let advance : Event Unit Unit × Event Unit Unit :=
      (.control (.advance ()) none, .control (.advance ()) none)
    let events := introduced ++ [advance]
    let s := Server.start Unit Unit Unit [] false Directory.Dir.empty
    (∃ t, exec (step oneClient) s (events.map Prod.fst) = some t) ∧
      (∃ t, exec (step oneClient) s (events.map Prod.snd) = some t) ∧
      (∀ e ∈ events, TwinEvent e.1 e.2) ∧
      Guarded (both (step oneClient)) (SameAnswers oneClient) (s, s) events ∧
      outputs (step oneClient) (log oneClient) s (events.map Prod.fst)
        ≠ outputs (step oneClient) (log oneClient) s
          (events.map Prod.snd) := by
  refine ⟨Option.isSome_iff_exists.mp (by decide),
    Option.isSome_iff_exists.mp (by decide), ?_, by decide,
    by decide +kernel⟩
  intro e he
  rcases List.mem_append.mp he with he | he
  · exact introduced_twin e he
  · rw [List.mem_singleton.mp he]
    exact .same _

end KvmRedaction
