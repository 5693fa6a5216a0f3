import KvmRs.ConnectProofs
import KvmRs.ControlProofs
import KvmRs.SessionLoopProofs

/-! # Both ends in turn

    What a client sends on the control channel is a `Hello`, a `PairRequest`
    and then what the message loop of the server has an arm for (`Said`).
    What the server sends to such a client is a `HelloAck`, the answer to the
    request and then what the message loop of the client has an arm for
    (`Turn`), whatever the other connections and the broadcasts do meanwhile.
    So neither end ever gets to the arm for what it does not expect. -/

namespace KvmTranscript

open KvmConnect (Library Machine Stream ConnectOptions performHandshake
  onHelloReply onPairReply)
open KvmAuth KvmControl KvmEnvelope KvmRateLimit Transition

/-! ## The two languages -/

/-- How far a client is. -/
inductive Said where
  | nothing | hello | request
  deriving DecidableEq

/-- The arms of the server's message loop. -/
def mayAsk : Envelope → Bool
  | .goodbye => true
  | .ping _ => true
  | .pong _ => true
  | .toggleForward _ => true
  | .clipboardSet _ => true
  | _ => false

def Said.next : Said → Envelope → Option Said
  | .nothing, .hello _ version _ =>
      if version = PROTOCOL_VERSION then some .hello else none
  | .hello, .pairRequest _ _ _ => some .request
  | .request, e => if mayAsk e then some .request else none
  | _, _ => none

/-- A client could have sent this so far. -/
def ClientTalk (es : List Envelope) : Prop :=
  ∃ said, exec Said.next .nothing es = some said

/-- How far a server is. -/
inductive Turn where
  | greeting | pairing | talking | over
  deriving DecidableEq

/-- The arms of the client's message loop that the server makes use of. -/
def mayTell : Envelope → Bool
  | .input _ => true
  | .clipboardSet _ => true
  | .toggleForward _ => true
  | .ping _ => true
  | .pong _ => true
  | .goodbye => true
  | _ => false

def Turn.next : Turn → Envelope → Option Turn
  | .greeting, .helloAck _ _ => some .pairing
  | .pairing, .pairAccept => some .talking
  | .pairing, .pairReject _ => some .over
  | .talking, e => if mayTell e then some .talking else none
  | _, _ => none

/-- Whose turn it is in a phase of the handler. -/
def turnOf : Phase → Option Turn
  | .hello => some .greeting
  | .greeting => some .greeting
  | .awaitingPair => some .pairing
  | .checking _ => some .pairing
  | .readingConfig _ => some .pairing
  | .comparing _ => some .pairing
  | .adding _ => some .pairing
  | .accepting _ => some .pairing
  | .ended => none
  | _ => some .talking

/-- What the handler goes on with when it has read this. -/
def Expected : Phase → Envelope → Prop
  | .hello, e => ∃ name caps, e = .hello name PROTOCOL_VERSION caps
  | .awaitingPair, e =>
      ∃ nonce fingerprint proof, e = .pairRequest nonce fingerprint proof
  | .looping, e => mayAsk e = true
  | _, _ => True

/-- What the forwarder, the clipboard watcher and the shutdown broadcast. -/
def announced : Envelope → Bool
  | .input _ => true
  | .toggleForward _ => true
  | .clipboardSet _ => true
  | .goodbye => true
  | _ => false

section Languages

theorem mayTell_of_announced {e : Envelope} (h : announced e = true) :
    mayTell e = true := by
  cases e with
  | input ev => rfl
  | toggleForward on => rfl
  | clipboardSet text => rfl
  | goodbye => rfl
  | _ => cases h

theorem clientTalk_start {es fs : List Envelope}
    (h : ClientTalk (es ++ fs)) : ClientTalk es := by
  obtain ⟨said, hsaid⟩ := h
  obtain ⟨t, ht, -⟩ := exec_split hsaid
  exact ⟨t, ht⟩

/-- The loop goes on talking. -/
theorem talking_all {es : List Envelope}
    (h : ∀ e ∈ es, mayTell e = true) :
    exec Turn.next .talking es = some .talking := by
  induction es with
  | nil => rfl
  | cons e es ih =>
      rw [exec_cons_some (if_pos (h e (List.mem_cons_self ..)))]
      exact ih fun e' he' => h e' (List.mem_cons_of_mem e he')

/-- A request was sent: what came behind it is for the loop. -/
theorem clientTalk_requested {received : List Envelope} {req : PairRequest}
    (hreq : Requested received req) {e : Envelope}
    (h : ClientTalk (received ++ [e])) : mayAsk e = true := by
  obtain ⟨name, caps, rest, rfl⟩ := hreq
  obtain ⟨said, hsaid⟩ := h
  obtain ⟨t, ht, hlast⟩ := exec_split hsaid
  -- the state stays `request` from the request on
  have hstay : ∀ (es : List Envelope) (u : Said),
      exec Said.next .request es = some u → u = .request := by
    intro es
    induction es with
    | nil => exact fun u hu => (Option.some.inj hu).symm
    | cons e' es ih =>
        intro u hu
        obtain ⟨v, hv, hrest⟩ := exec_cons hu
        simp only [Said.next] at hv
        split at hv
        · rw [← Option.some.inj hv] at hrest
          exact ih u hrest
        · cases hv
  have hreached : exec Said.next .request rest = some t := ht
  rw [hstay rest t hreached] at hlast
  obtain ⟨v, hv, -⟩ := exec_cons hlast
  simp only [Said.next] at hv
  split at hv
  · assumption
  · cases hv

end Languages

/-! ## One step of a handler -/

section Handler

variable {C Ip : Type} {k : Settings} {ip : C → Ip} {w w' : World C Ip}
  {c : C}

/-- From one phase to the next, and what the connection is sent on the way. -/
inductive Onward (k : Settings) (ip : C → Ip) (w : World C Ip) (c : C) :
    Phase → Phase → List Envelope → Prop where
  | greeted : Onward k ip w c .greeting .awaitingPair
      [.helloAck k.filePort k.serverName]
  | limited (req : PairRequest)
      (h : isRateLimited w.rateLimiter (ip c) w.now = true) :
      Onward k ip w c (.checking req) .ended
        [.pairReject "too many failed pairing attempts; try again later"]
  | checked (req : PairRequest)
      (h : isRateLimited w.rateLimiter (ip c) w.now = false) :
      Onward k ip w c (.checking req) (.readingConfig req) []
  | known (req : PairRequest) (h : req.fingerprint ∈ w.pairedDevices) :
      Onward k ip w c (.readingConfig req) (.accepting req) []
  | unknown (req : PairRequest)
      (h : req.fingerprint ∉ w.pairedDevices) :
      Onward k ip w c (.readingConfig req) (.comparing req) []
  | proved (req : PairRequest)
      (h : proofOk k.sha256 k.pin req = true) :
      Onward k ip w c (.comparing req) (.adding req) []
  | refused (req : PairRequest)
      (h : proofOk k.sha256 k.pin req = false) :
      Onward k ip w c (.comparing req) .ended
        [.pairReject "pairing PIN required or incorrect"]
  | added (req : PairRequest) :
      Onward k ip w c (.adding req) (.accepting req) []
  | accepted (req : PairRequest) :
      Onward k ip w c (.accepting req) (.registering req) [.pairAccept]
  | registered (req : PairRequest) (ph : Phase)
      (hph : ph = .firstClient ∨ ph = .looping) :
      Onward k ip w c (.registering req) ph []
  | autoForwarded (es : List Envelope)
      (hes : es = [] ∨ es = [.toggleForward true]) :
      Onward k ip w c .firstClient .looping es
  | stored (desired : Bool) :
      Onward k ip w c (.storing desired)
        (.broadcasting (toggleBroadcasts desired)) []
  /-- A broadcast, in the registry and outside it. -/
  | told (e : Envelope) (es : List Envelope) (h : c ∈ w.registry) :
      Onward k ip w c (.broadcasting (e :: es)) (.broadcasting es) [e]
  | missed (e : Envelope) (es : List Envelope) (h : c ∉ w.registry) :
      Onward k ip w c (.broadcasting (e :: es)) (.broadcasting es) []
  | announced : Onward k ip w c (.broadcasting []) .looping []
  | queued (text : String) : Onward k ip w c (.clipboard text) .looping []
  | left (ph : Phase) (hph : ph = .lastClient ∨ ph = .farewell) :
      Onward k ip w c .leaving ph []
  | emptied : Onward k ip w c .lastClient .farewell []
  | farewell : Onward k ip w c .farewell .ended [.goodbye]

/-- What the handler's own step does to its connection. -/
structure Advanced (k : Settings) (ip : C → Ip) (w : World C Ip) (c : C)
    (x x' : Conn) : Prop where
  onward : ∃ es, Onward k ip w c x.phase x'.phase es ∧ x'.sent = x.sent ++ es
  received : x'.received = x.received
  registered : x'.registered = x.registered ∨
    (∃ req, x.phase = .registering req) ∧ x'.registered = true
  accepted : x'.acceptedPaired = x.acceptedPaired ∨
    ∃ req, x.phase = .accepting req

theorem advanced_goto {x : Conn} {ph : Phase} {es : List Envelope}
    (h : Onward k ip w c x.phase ph es) : Advanced k ip w c x (x.goto ph es) :=
  ⟨⟨es, h, rfl⟩, rfl, Or.inl rfl, Or.inl rfl⟩

theorem advanced [DecidableEq C] [DecidableEq Ip]
    (hs : advance k ip w c = some w') :
    Advanced k ip w c (w.conns c) (w'.conns c) := by
  have hset : ∀ (v : World C Ip) (x : Conn),
      Advanced k ip w c (w.conns c) x →
        Advanced k ip w c (w.conns c) ((v.set c x).conns c) := by
    intro v x hx
    simp only [World.set, Function.update_self]
    exact hx
  have hgo : ∀ (v : World C Ip) (ph : Phase) (es : List Envelope),
      Onward k ip w c (w.conns c).phase ph es →
        Advanced k ip w c (w.conns c)
          ((v.set c ((w.conns c).goto ph es)).conns c) :=
    fun v ph es h => hset v _ (advanced_goto h)
  cases hp : (w.conns c).phase with
  | greeting =>
      simp only [advance, hp] at hs
      rw [← Option.some.inj hs]
      exact hgo _ _ _ (hp ▸ .greeted)
  | checking req =>
      simp only [advance, hp] at hs
      rw [← Option.some.inj hs]
      refine hset _ _ ?_
      split
      · rename_i hlim
        exact advanced_goto (hp ▸ .limited req hlim)
      · rename_i hlim
        exact advanced_goto (hp ▸ .checked req (Bool.not_eq_true _ ▸ hlim))
  | readingConfig req =>
      simp only [advance, hp] at hs
      rw [← Option.some.inj hs]
      refine hset _ _ ?_
      split
      · rename_i hin
        exact advanced_goto (hp ▸ .known req hin)
      · rename_i hout
        exact advanced_goto (hp ▸ .unknown req hout)
  | comparing req =>
      simp only [advance, hp] at hs
      split at hs
      · rename_i hproof
        rw [← Option.some.inj hs]
        exact hgo _ _ _ (hp ▸ .proved req hproof)
      · rename_i hproof
        rw [← Option.some.inj hs]
        exact hgo _ _ _ (hp ▸ .refused req (Bool.not_eq_true _ ▸ hproof))
  | adding req =>
      simp only [advance, hp] at hs
      rw [← Option.some.inj hs]
      exact hgo _ _ _ (hp ▸ .added req)
  | accepting req =>
      simp only [advance, hp] at hs
      rw [← Option.some.inj hs]
      refine hset _ _ ⟨⟨_, hp ▸ .accepted req, rfl⟩, rfl, Or.inl rfl, ?_⟩
      exact Or.inr ⟨req, hp⟩
  | registering req =>
      simp only [advance, hp] at hs
      rw [← Option.some.inj hs]
      refine hset _ _ ⟨⟨_, hp ▸ .registered req _ ?_, rfl⟩, rfl,
        Or.inr ⟨⟨req, hp⟩, rfl⟩, Or.inl rfl⟩
      simp only [Conn.goto]
      split
      · exact Or.inl rfl
      · exact Or.inr rfl
  | firstClient =>
      simp only [advance, hp] at hs
      split at hs
      · rw [← Option.some.inj hs]
        refine hgo _ _ _ (hp ▸ .autoForwarded _ ?_)
        split
        · exact Or.inl rfl
        · exact Or.inr rfl
      · rw [← Option.some.inj hs]
        exact hgo _ _ _ (hp ▸ .autoForwarded _ (Or.inl rfl))
  | storing desired =>
      simp only [advance, hp] at hs
      rw [← Option.some.inj hs]
      exact hgo _ _ _ (hp ▸ .stored desired)
  | broadcasting es =>
      cases es with
      | nil =>
          simp only [advance, hp] at hs
          rw [← Option.some.inj hs]
          exact hgo _ _ _ (hp ▸ .announced)
      | cons e es =>
          simp only [advance, hp] at hs
          rw [← Option.some.inj hs]
          simp only [World.broadcast, World.set, Function.update_self]
          split
          · rename_i hin
            refine ⟨⟨[e], hp ▸ .told e es hin, ?_⟩, rfl, Or.inl rfl,
              Or.inl rfl⟩
            simp only [Conn.goto, List.append_nil]
          · rename_i hout
            exact advanced_goto (hp ▸ .missed e es hout)
  | clipboard text =>
      simp only [advance, hp] at hs
      rw [← Option.some.inj hs]
      exact hgo _ _ _ (hp ▸ .queued text)
  | leaving =>
      simp only [advance, hp] at hs
      rw [← Option.some.inj hs]
      refine hgo _ _ _ (hp ▸ .left _ ?_)
      split
      · exact Or.inl rfl
      · exact Or.inr rfl
  | lastClient =>
      simp only [advance, hp] at hs
      rw [← Option.some.inj hs]
      exact hgo _ _ _ (hp ▸ .emptied)
  | farewell =>
      simp only [advance, hp] at hs
      rw [← Option.some.inj hs]
      exact hgo _ _ _ (hp ▸ .farewell)
  | hello => simp only [advance, hp, reduceCtorEq] at hs
  | awaitingPair => simp only [advance, hp, reduceCtorEq] at hs
  | looping => simp only [advance, hp, reduceCtorEq] at hs
  | ended => simp only [advance, hp, reduceCtorEq] at hs

end Handler

/-! ## One connection -/

/-- What was sent on a connection is as far as its phase.  One that was in the
    registry and is over has got a `Goodbye`, and nothing behind it. -/
structure InTurn (x : Conn) : Prop where
  turn : ∃ turn, exec Turn.next .greeting x.sent = some turn ∧
    ∀ u, turnOf x.phase = some u → turn = u
  early : turnOf x.phase = some .greeting ∨ turnOf x.phase = some .pairing →
    x.registered = false
  farewell : x.registered = true → x.phase = .ended →
    x.sent.getLast? = some .goodbye

section Connection

variable {x x' : Conn} {es : List Envelope} {u u' : Turn}

theorem InTurn.sent (h : InTurn x) (hu : turnOf x.phase = some u)
    (hes : exec Turn.next u es = some u') :
    exec Turn.next .greeting (x.sent ++ es) = some u' := by
  obtain ⟨turn, hturn, hphase⟩ := h.turn
  rw [exec_append hturn, hphase u hu]
  exact hes

/-- A connection that is not in the registry goes on. -/
theorem InTurn.outside (h : InTurn x) (hu : turnOf x.phase = some u)
    (hes : exec Turn.next u es = some u') (hreg : x.registered = false)
    (hsent : x'.sent = x.sent ++ es) (hreg' : x'.registered = x.registered)
    (hphase : ∀ v, turnOf x'.phase = some v → u' = v) : InTurn x' := by
  refine ⟨⟨u', ?_, hphase⟩, fun _ => hreg'.trans hreg, ?_⟩
  · rw [hsent]
    exact h.sent hu hes
  · intro hin
    rw [hreg', hreg] at hin
    cases hin

/-- The message loop goes on. -/
theorem InTurn.inside (h : InTurn x) (hu : turnOf x.phase = some .talking)
    (hes : ∀ e ∈ es, mayTell e = true) (hsent : x'.sent = x.sent ++ es)
    (hphase : turnOf x'.phase = some .talking) : InTurn x' := by
  refine ⟨⟨.talking, ?_, ?_⟩, ?_, ?_⟩
  · rw [hsent]
    exact h.sent hu (talking_all hes)
  · intro v hv
    rw [hphase] at hv
    exact Option.some.inj hv
  · rw [hphase]
    rintro (hv | hv) <;> cases hv
  · intro _ hend
    rw [hend] at hphase
    cases hphase

/-- The last thing that is sent. -/
theorem InTurn.goodbye (h : InTurn x) (hu : turnOf x.phase = some .talking)
    (hsent : x'.sent = x.sent ++ [.goodbye]) (hphase : x'.phase = .ended) :
    InTurn x' where
  turn := by
    refine ⟨.talking, by rw [hsent]; exact h.sent hu rfl, ?_⟩
    intro v hv
    rw [hphase] at hv
    cases hv
  early := by
    rw [hphase]
    rintro (hv | hv) <;> cases hv
  farewell := by
    intro _ _
    rw [hsent]
    exact List.getLast?_concat

theorem inTurn_new : InTurn Conn.new where
  turn := by
    refine ⟨.greeting, rfl, ?_⟩
    intro v hv
    exact Option.some.inj hv
  early := fun _ => rfl
  farewell := by
    rintro ⟨⟩

end Connection

section Steps

variable {C Ip : Type} {k : Settings} {ip : C → Ip} {initial : List String}
  {w w' : World C Ip} {c : C}

/-- An envelope arrives. -/
theorem inTurn_receive (hsec : Secure k initial w) (h : InTurn (w.conns c))
    {e : Envelope} {x : Conn}
    (htalk : ClientTalk ((w.conns c).received ++ [e]))
    (hx : onEnvelope w.forwardingEnabled w.now (w.conns c) e = some x) :
    InTurn { x with received := x.received ++ [e] } ∧
      Expected (w.conns c).phase e := by
  have hphase := (hsec.conn c).phase
  cases hp : (w.conns c).phase with
  | hello =>
      simp only [PhaseOk, hp] at hphase
      have hreg := h.early (Or.inl (by rw [hp]; rfl))
      rw [hphase, List.nil_append] at htalk
      obtain ⟨said, hsaid⟩ := htalk
      obtain ⟨v, hv, -⟩ := exec_cons hsaid
      cases e with
      | hello name version caps =>
          simp only [Said.next] at hv
          split at hv
          · rename_i hversion
            simp only [onEnvelope, hp, hversion, ne_eq, not_true_eq_false,
              if_false] at hx
            rw [← Option.some.inj hx]
            refine ⟨h.outside (by rw [hp]; rfl) rfl hreg rfl rfl ?_,
              name, caps, by rw [hversion]⟩
            exact fun v hv => Option.some.inj hv
          · cases hv
      | _ => cases hv
  | awaitingPair =>
      simp only [PhaseOk, hp] at hphase
      have hreg := h.early (Or.inr (by rw [hp]; rfl))
      obtain ⟨name, caps, hrec⟩ := hphase
      rw [hrec] at htalk
      obtain ⟨said, hsaid⟩ := htalk
      obtain ⟨t, ht, hlast⟩ := exec_split hsaid
      have hhello : Said.next .nothing (.hello name PROTOCOL_VERSION caps)
          = some .hello := by
        simp only [Said.next, if_true]
      rw [exec_cons_some hhello] at ht
      obtain ⟨v, hv, -⟩ := exec_cons hlast
      rw [← Option.some.inj ht] at hv
      cases e with
      | pairRequest nonce fp proof =>
          simp only [onEnvelope, hp] at hx
          rw [← Option.some.inj hx]
          refine ⟨h.outside (by rw [hp]; rfl) rfl hreg rfl rfl ?_,
            nonce, fp, proof, rfl⟩
          exact fun v hv => Option.some.inj hv
      | _ => cases hv
  | looping =>
      have hin : turnOf (w.conns c).phase = some .talking := by rw [hp]; rfl
      have hafter : (w.conns c).phase.afterRegistering = true := by
        rw [hp]
        rfl
      obtain ⟨req, hreq, -⟩ :=
        (hsec.conn c).history ((hsec.conn c).registered hafter)
      have hask := clientTalk_requested hreq htalk
      refine ⟨?_, hask⟩
      simp only [onEnvelope, hp] at hx
      cases e with
      | goodbye =>
          rw [← Option.some.inj hx]
          exact h.inside hin (List.forall_mem_nil _) rfl rfl
      | ping ts =>
          rw [← Option.some.inj hx]
          exact h.inside hin (List.forall_mem_singleton.mpr rfl) rfl rfl
      | pong ts =>
          rw [← Option.some.inj hx]
          exact h.inside hin (List.forall_mem_nil _)
            (List.append_nil _).symm rfl
      | toggleForward desired =>
          rw [← Option.some.inj hx]
          refine h.inside hin (List.forall_mem_nil _) rfl ?_
          show turnOf (if _ then _ else _) = some .talking
          split <;> rfl
      | clipboardSet text =>
          rw [← Option.some.inj hx]
          exact h.inside hin (List.forall_mem_nil _) rfl rfl
      | _ => cases hask
  | _ => simp only [onEnvelope, hp, reduceCtorEq] at hx

variable [DecidableEq C] [DecidableEq Ip]

/-- The loop's own events send nothing but a `Ping`. -/
theorem loop_sends {a : Action C} (ha : a.inLoop c)
    (hs : step k ip w a = some w') :
    (w.conns c).phase = .looping ∧
      ∃ ph es, (ph = .leaving ∨ ph = .looping) ∧
        (∀ e ∈ es, ∃ ts, e = .ping ts) ∧
        w' = w.set c ((w.conns c).goto ph es) := by
  obtain ⟨hp, -⟩ := step_inLoop ha hs
  cases a with
  | closed d =>
      obtain rfl : d = c := ha
      simp only [step, hp, if_true] at hs
      exact ⟨hp, _, _, Or.inl rfl, List.forall_mem_nil _,
        (Option.some.inj hs).symm⟩
  | pingTick d ts =>
      obtain rfl : d = c := ha
      simp only [step, hp, if_true] at hs
      exact ⟨hp, _, _, Or.inr rfl, List.forall_mem_singleton.mpr ⟨ts, rfl⟩,
        (Option.some.inj hs).symm⟩
  | watchdog d =>
      obtain rfl : d = c := ha
      simp only [step, hp, if_true] at hs
      refine ⟨hp, _, _, ?_, List.forall_mem_nil _, (Option.some.inj hs).symm⟩
      split
      · exact Or.inl rfl
      · exact Or.inr rfl
  | _ => cases ha

/-- A connection hears from the others only what they broadcast, and only in
    the registry. -/
theorem others_step {a : Action C} (ha : a.actor ≠ some c)
    (hs : step k ip w a = some w') :
    w'.conns c = w.conns c ∨
      ∃ e, c ∈ w.registry ∧
        w'.conns c = { w.conns c with sent := (w.conns c).sent ++ [e] } ∧
        (a = .broadcast e ∨
          ∃ d es, (w.conns d).phase = .broadcasting (e :: es)) := by
  have hset : ∀ d, a.actor = some d → a ≠ .advance d →
      w'.conns c = w.conns c := by
    intro d hactor hadv
    obtain ⟨x, rfl⟩ := step_actor hactor hadv hs
    refine Function.update_of_ne ?_ _ _
    rintro rfl
    exact ha hactor
  cases a with
  | receive d e => exact Or.inl (hset d rfl (by simp))
  | fail d => exact Or.inl (hset d rfl (by simp))
  | closed d => exact Or.inl (hset d rfl (by simp))
  | pingTick d ts => exact Or.inl (hset d rfl (by simp))
  | watchdog d => exact Or.inl (hset d rfl (by simp))
  | broadcast e =>
      rw [← Option.some.inj hs]
      by_cases hin : c ∈ w.registry
      · exact Or.inr ⟨e, hin, if_pos hin, Or.inl rfl⟩
      · exact Or.inl (if_neg hin)
  | hotkey on =>
      rw [← Option.some.inj hs]
      exact Or.inl rfl
  | takeClipboard =>
      simp only [step] at hs
      split at hs
      · rw [← Option.some.inj hs]
        exact Or.inl rfl
      · cases hs
  | tick d =>
      rw [← Option.some.inj hs]
      exact Or.inl rfl
  | advance d =>
      have hne : c ≠ d := fun h => ha (congrArg some h.symm)
      simp only [step] at hs
      cases hp : (w.conns d).phase with
      | comparing req =>
          simp only [advance, hp] at hs
          split at hs <;> rw [← Option.some.inj hs] <;>
            exact Or.inl (Function.update_of_ne hne _ _)
      | firstClient =>
          simp only [advance, hp] at hs
          split at hs <;> rw [← Option.some.inj hs] <;>
            exact Or.inl (Function.update_of_ne hne _ _)
      | broadcasting es =>
          cases es with
          | nil =>
              simp only [advance, hp] at hs
              rw [← Option.some.inj hs]
              exact Or.inl (Function.update_of_ne hne _ _)
          | cons e es =>
              simp only [advance, hp] at hs
              rw [← Option.some.inj hs]
              simp only [World.broadcast, World.set,
                Function.update_of_ne hne]
              by_cases hin : c ∈ w.registry
              · exact Or.inr ⟨e, hin, if_pos hin, Or.inr ⟨d, es, hp⟩⟩
              · exact Or.inl (if_neg hin)
      | hello => simp only [advance, hp, reduceCtorEq] at hs
      | awaitingPair => simp only [advance, hp, reduceCtorEq] at hs
      | looping => simp only [advance, hp, reduceCtorEq] at hs
      | ended => simp only [advance, hp, reduceCtorEq] at hs
      | _ =>
          simp only [advance, hp] at hs
          rw [← Option.some.inj hs]
          exact Or.inl (Function.update_of_ne hne _ _)

/-- A handler is about to broadcast only such envelopes. -/
def Sayable (ok : Envelope → Bool) (x : Conn) : Prop :=
  ∀ es, x.phase = .broadcasting es → ∀ e ∈ es, ok e = true

theorem mayTell_toggle (desired : Bool) :
    ∀ e ∈ toggleBroadcasts desired, mayTell e = true := by
  cases desired <;> decide

variable {ok : Envelope → Bool}

/-- The handler's own step: it goes to another phase. -/
theorem sayable_advance
    (htoggle : ∀ desired, ∀ e ∈ toggleBroadcasts desired, ok e = true)
    (h : Sayable ok (w.conns c)) (hs : advance k ip w c = some w') :
    Sayable ok (w'.conns c) := by
  obtain ⟨⟨es, hon, -⟩, -⟩ := advanced hs
  intro fs hfs
  rw [hfs] at hon
  generalize hp : (w.conns c).phase = p at hon
  cases hon with
  | stored desired => exact htoggle desired
  | told e es hin => exact fun e' he' => h _ hp e' (List.mem_cons_of_mem e he')
  | missed e es hout =>
      exact fun e' he' => h _ hp e' (List.mem_cons_of_mem e he')
  | registered req ph hph => rcases hph with hph | hph <;> cases hph
  | left ph hph => rcases hph with hph | hph <;> cases hph

/-- Reading an envelope does not make a handler broadcast at once. -/
theorem sayable_receive {e : Envelope} {enabled : Bool} {now : Nat}
    {x y : Conn} (hx : onEnvelope enabled now x e = some y) :
    ∀ es, y.phase ≠ .broadcasting es := by
  intro es hes
  cases hp : x.phase with
  | hello =>
      simp only [onEnvelope, hp] at hx
      cases e with
      | hello name version caps =>
          simp only at hx
          split at hx <;> rw [← Option.some.inj hx] at hes <;> cases hes
      | _ =>
          rw [← Option.some.inj hx] at hes
          cases hes
  | awaitingPair =>
      simp only [onEnvelope, hp] at hx
      cases e <;> rw [← Option.some.inj hx] at hes <;> cases hes
  | looping =>
      simp only [onEnvelope, hp] at hx
      cases e with
      | toggleForward desired =>
          rw [← Option.some.inj hx] at hes
          simp only [Conn.goto] at hes
          split at hes <;> cases hes
      | _ =>
          rw [← Option.some.inj hx] at hes
          simp only [Conn.goto, reduceCtorEq] at hes
  | _ => simp only [onEnvelope, hp, reduceCtorEq] at hx

theorem sayable_step {a : Action C}
    (htoggle : ∀ desired, ∀ e ∈ toggleBroadcasts desired, ok e = true)
    (h : ∀ d, Sayable ok (w.conns d)) (hs : step k ip w a = some w') (c : C) :
    Sayable ok (w'.conns c) := by
  by_cases hactor : a.actor = some c
  · have hloop : a.inLoop c → Sayable ok (w'.conns c) := by
      intro hin
      obtain ⟨-, ph, es, hph, rfl⟩ := step_inLoop hin hs
      intro fs hfs
      simp only [World.set, Function.update_self, Conn.goto] at hfs
      rcases hph with rfl | rfl <;> cases hfs
    cases a with
    | receive d e =>
        obtain rfl : d = c := Option.some.inj hactor
        obtain ⟨x, hx, rfl⟩ := Option.map_eq_some_iff.mp hs
        intro es hes
        simp only [World.set, Function.update_self] at hes
        exact absurd hes (sayable_receive hx es)
    | advance d =>
        obtain rfl : d = c := Option.some.inj hactor
        exact sayable_advance htoggle (h d) hs
    | fail d =>
        obtain rfl : d = c := Option.some.inj hactor
        obtain ⟨-, rfl⟩ := step_fail hs
        intro es hes
        simp only [World.set, Function.update_self, Conn.goto] at hes
        cases hes
    | closed d => exact hloop (Option.some.inj hactor)
    | pingTick d ts => exact hloop (Option.some.inj hactor)
    | watchdog d => exact hloop (Option.some.inj hactor)
    | broadcast e => cases hactor
    | hotkey on => cases hactor
    | takeClipboard => cases hactor
    | tick d => cases hactor
  · rcases others_step hactor hs with hsame | ⟨e, -, htold, -⟩
    · rw [hsame]
      exact h c
    · rw [htold]
      exact h c

/-- The handler's own steps. -/
theorem inTurn_advance (h : InTurn (w.conns c))
    (hsay : Sayable mayTell (w.conns c))
    (hs : advance k ip w c = some w') : InTurn (w'.conns c) := by
  obtain ⟨⟨es, hon, hsent⟩, -, hreg, -⟩ := advanced hs
  -- before the connection is in the registry, and in it
  have hout : ∀ u u', turnOf (w.conns c).phase = some u →
      (u = .greeting ∨ u = .pairing) → exec Turn.next u es = some u' →
      (∀ v, turnOf (w'.conns c).phase = some v → u' = v) →
      InTurn (w'.conns c) := by
    intro u u' hu hearly hes hphase
    have hno := h.early (hearly.imp (fun hg => by rw [hu, hg])
      (fun hg => by rw [hu, hg]))
    refine h.outside hu hes hno hsent (hreg.resolve_right ?_) hphase
    rintro ⟨⟨req, hp⟩, -⟩
    rw [hp] at hu
    rcases hearly with rfl | rfl <;> cases hu
  have hin : turnOf (w.conns c).phase = some .talking →
      (∀ e ∈ es, mayTell e = true) →
      turnOf (w'.conns c).phase = some .talking → InTurn (w'.conns c) :=
    fun hu hes hphase => h.inside hu hes hsent hphase
  have hsame : ∀ u v : Turn, some u = some v → u = v :=
    fun u v huv => Option.some.inj huv
  have hnone : ∀ u v : Turn, (none : Option Turn) = some v → u = v := by
    rintro u v ⟨⟩
  generalize hp : (w.conns c).phase = p at hon hout hin
  generalize hp' : (w'.conns c).phase = p' at hon hout hin
  cases hon with
  | greeted => exact hout _ _ rfl (Or.inl rfl) rfl (hsame _)
  | limited req hlim => exact hout _ _ rfl (Or.inr rfl) rfl (hnone _)
  | checked req hlim => exact hout _ _ rfl (Or.inr rfl) rfl (hsame _)
  | known req hpaired => exact hout _ _ rfl (Or.inr rfl) rfl (hsame _)
  | unknown req hpaired => exact hout _ _ rfl (Or.inr rfl) rfl (hsame _)
  | proved req hproof => exact hout _ _ rfl (Or.inr rfl) rfl (hsame _)
  | refused req hproof => exact hout _ _ rfl (Or.inr rfl) rfl (hnone _)
  | added req => exact hout _ _ rfl (Or.inr rfl) rfl (hsame _)
  | accepted req => exact hout _ _ rfl (Or.inr rfl) rfl (hsame _)
  | registered req ph hph =>
      refine hin rfl (List.forall_mem_nil _) ?_
      rcases hph with rfl | rfl <;> rfl
  | autoForwarded es hes =>
      refine hin rfl ?_ rfl
      rcases hes with rfl | rfl
      · exact List.forall_mem_nil _
      · exact List.forall_mem_singleton.mpr rfl
  | stored desired => exact hin rfl (List.forall_mem_nil _) rfl
  | told e es hlisted =>
      have he := hsay _ hp e (List.mem_cons_self ..)
      exact hin rfl (List.forall_mem_singleton.mpr he) rfl
  | missed e es hlisted => exact hin rfl (List.forall_mem_nil _) rfl
  | announced => exact hin rfl (List.forall_mem_nil _) rfl
  | queued text => exact hin rfl (List.forall_mem_nil _) rfl
  | left ph hph =>
      refine hin rfl (List.forall_mem_nil _) ?_
      rcases hph with rfl | rfl <;> rfl
  | emptied => exact hin rfl (List.forall_mem_nil _) rfl
  | farewell => exact h.goodbye (by rw [hp]; rfl) hsent hp'

/-- What the step takes from the connection and from the broadcasts. -/
def Proper (c : C) (w : World C Ip) (a : Action C) : Prop :=
  (∀ e, a = .receive c e → ClientTalk ((w.conns c).received ++ [e])) ∧
    ∀ e, a = .broadcast e → announced e = true

structure Spoken (k : Settings) (initial : List String) (c : C)
    (w : World C Ip) : Prop where
  secure : Secure k initial w
  sayable : ∀ d, Sayable mayTell (w.conns d)
  turn : InTurn (w.conns c)

/-- **ONE STEP** leaves a connection in turn, whoever takes it. -/
theorem spoken_step (w : World C Ip) (a : Action C) (w' : World C Ip)
    (h : Spoken k initial c w) (hok : Proper c w a)
    (hs : step k ip w a = some w') : Spoken k initial c w' := by
  refine ⟨secure_step w a w' h.secure hs,
    sayable_step mayTell_toggle h.sayable hs, ?_⟩
  by_cases hactor : a.actor = some c
  · have hloop : a.inLoop c → InTurn (w'.conns c) := by
      intro hin
      obtain ⟨hp, ph, es, hph, hes, rfl⟩ := loop_sends hin hs
      simp only [World.set, Function.update_self]
      refine h.turn.inside (by rw [hp]; rfl) ?_ rfl ?_
      · intro e he
        obtain ⟨ts, rfl⟩ := hes e he
        rfl
      · rcases hph with rfl | rfl <;> rfl
    cases a with
    | receive d e =>
        obtain rfl : d = c := Option.some.inj hactor
        obtain ⟨x, hx, rfl⟩ := Option.map_eq_some_iff.mp hs
        simp only [World.set, Function.update_self]
        exact (inTurn_receive h.secure h.turn (hok.1 e rfl) hx).1
    | advance d =>
        obtain rfl : d = c := Option.some.inj hactor
        exact inTurn_advance h.turn (h.sayable d) hs
    | fail d =>
        obtain rfl : d = c := Option.some.inj hactor
        obtain ⟨hfail, rfl⟩ := step_fail hs
        simp only [World.set, Function.update_self]
        have hout : ∃ u, turnOf (w.conns d).phase = some u ∧
            (u = .greeting ∨ u = .pairing) := by
          cases hp : (w.conns d).phase with
          | hello => exact ⟨_, rfl, Or.inl rfl⟩
          | greeting => exact ⟨_, rfl, Or.inl rfl⟩
          | awaitingPair => exact ⟨_, rfl, Or.inr rfl⟩
          | accepting req => exact ⟨_, rfl, Or.inr rfl⟩
          | _ =>
              rw [hp] at hfail
              cases hfail
        obtain ⟨u, hu, hearly⟩ := hout
        have hreg := h.turn.early (hearly.imp (fun hg => by rw [hu, hg])
          (fun hg => by rw [hu, hg]))
        refine h.turn.outside hu rfl hreg rfl rfl ?_
        rintro v ⟨⟩
    | closed d => exact hloop (Option.some.inj hactor)
    | pingTick d ts => exact hloop (Option.some.inj hactor)
    | watchdog d => exact hloop (Option.some.inj hactor)
    | broadcast e => cases hactor
    | hotkey on => cases hactor
    | takeClipboard => cases hactor
    | tick d => cases hactor
  · rcases others_step hactor hs with hsame | ⟨e, hin, htold, hwho⟩
    · rw [hsame]
      exact h.turn
    · have htell : mayTell e = true := by
        rcases hwho with rfl | ⟨d, es, hd⟩
        · exact mayTell_of_announced (hok.2 e rfl)
        · exact h.sayable d _ hd e (List.mem_cons_self ..)
      have hlisted := (h.secure.conn c).listed_iff.mp hin
      have htalking : turnOf (w.conns c).phase = some .talking := by
        cases hp : (w.conns c).phase <;> rw [hp] at hlisted <;>
          first | rfl | cases hlisted
      rw [htold]
      exact h.turn.inside htalking (List.forall_mem_singleton.mpr htell) rfl
        htalking

/-! ## Whole runs of the server -/

theorem received_onEnvelope {e : Envelope} {enabled : Bool} {now : Nat}
    {x y : Conn} (hx : onEnvelope enabled now x e = some y) :
    y.received = x.received := by
  cases hp : x.phase with
  | hello =>
      simp only [onEnvelope, hp] at hx
      cases e with
      | hello name version caps =>
          simp only at hx
          split at hx <;> rw [← Option.some.inj hx] <;> rfl
      | _ =>
          rw [← Option.some.inj hx]
          rfl
  | awaitingPair =>
      simp only [onEnvelope, hp] at hx
      cases e <;> rw [← Option.some.inj hx] <;> rfl
  | looping =>
      simp only [onEnvelope, hp] at hx
      cases e <;> rw [← Option.some.inj hx] <;> rfl
  | _ => simp only [onEnvelope, hp, reduceCtorEq] at hx

/-- Only what arrives is received. -/
theorem received_step {a : Action C} (hs : step k ip w a = some w') :
    (∀ e, a = .receive c e →
        (w'.conns c).received = (w.conns c).received ++ [e]) ∧
      ((∀ e, a ≠ .receive c e) →
        (w'.conns c).received = (w.conns c).received) := by
  constructor
  · rintro e rfl
    obtain ⟨x, hx, rfl⟩ := Option.map_eq_some_iff.mp hs
    simp only [World.set, Function.update_self]
    rw [received_onEnvelope hx]
  · intro hno
    by_cases hactor : a.actor = some c
    · have hloop : a.inLoop c →
          (w'.conns c).received = (w.conns c).received := by
        intro hin
        obtain ⟨-, ph, es, -, rfl⟩ := step_inLoop hin hs
        simp only [World.set, Function.update_self, Conn.goto]
      cases a with
      | receive d e =>
          obtain rfl : d = c := Option.some.inj hactor
          exact absurd rfl (hno e)
      | advance d =>
          obtain rfl : d = c := Option.some.inj hactor
          exact (advanced hs).received
      | fail d =>
          obtain rfl : d = c := Option.some.inj hactor
          obtain ⟨-, rfl⟩ := step_fail hs
          simp only [World.set, Function.update_self, Conn.goto]
      | closed d => exact hloop (Option.some.inj hactor)
      | pingTick d ts => exact hloop (Option.some.inj hactor)
      | watchdog d => exact hloop (Option.some.inj hactor)
      | broadcast e => cases hactor
      | hotkey on => cases hactor
      | takeClipboard => cases hactor
      | tick d => cases hactor
    · rcases others_step hactor hs with hsame | ⟨e, -, htold, -⟩
      · rw [hsame]
      · rw [htold]

/-- If a client could have sent all of it, it could have sent each part. -/
theorem proper_run {actions : List (Action C)} {t : World C Ip}
    (hrun : exec (step k ip) w actions = some t)
    (htalk : ClientTalk (t.conns c).received)
    (hann : ∀ e, Action.broadcast e ∈ actions → announced e = true) :
    Guarded (step k ip) (Proper c) w actions := by
  have hheard : Guarded (step k ip) (fun w a => ∀ e, a = .receive c e →
      ClientTalk ((w.conns c).received ++ [e])) w actions := by
    refine (guarded_of_last (P := fun w => ClientTalk (w.conns c).received)
      (fun _ _ _ (_ : True) _ => trivial) ?_ actions w t trivial hrun htalk).2
    intro w a w' _ hs htalk'
    obtain ⟨hmore, hsame⟩ := received_step (c := c) hs
    by_cases hreceive : ∃ e, a = .receive c e
    · obtain ⟨e, rfl⟩ := hreceive
      rw [hmore e rfl] at htalk'
      refine ⟨clientTalk_start htalk', ?_⟩
      rintro e' he'
      cases he'
      exact htalk'
    · have hno := not_exists.mp hreceive
      rw [hsame hno] at htalk'
      exact ⟨htalk', fun e he => absurd he (hno e)⟩
  have hbroadcast : Guarded (step k ip) (fun _ a => ∀ e, a = .broadcast e →
      announced e = true) w actions := by
    refine guarded_of_forall actions w ?_
    rintro a ha - e rfl
    exact hann e ha
  exact guarded_and actions w hheard hbroadcast

/-- **THE SERVER SPEAKS IN TURN**: to a connection that has sent what a client
    sends, in every run, whatever the other connections do and whatever is
    broadcast; and it expected all that was sent to it there. -/
theorem server_in_turn (k : Settings) (ip : C → Ip) (initial : List String)
    (enabled : Bool) (c : C) (actions : List (Action C)) (t : World C Ip)
    (hrun : exec (step k ip) (World.start C Ip initial enabled) actions
      = some t)
    (htalk : ClientTalk (t.conns c).received)
    (hann : ∀ e, Action.broadcast e ∈ actions → announced e = true) :
    InTurn (t.conns c) ∧
      AllSteps (step k ip) (fun w a _ => ∀ e, a = .receive c e →
        Expected (w.conns c).phase e) (World.start C Ip initial enabled)
        actions := by
  have hproper := proper_run hrun htalk hann
  have hstart : Spoken k initial c (World.start C Ip initial enabled) := by
    refine ⟨secure_start k initial enabled, ?_, inTurn_new⟩
    rintro d es ⟨⟩
  refine ⟨(invariant_exec spoken_step actions _ t hstart hproper hrun).turn,
    allSteps_of_guarded ?_ spoken_step actions _ hstart hproper⟩
  rintro w a w' hspoken hok hs e rfl
  obtain ⟨x, hx, -⟩ := Option.map_eq_some_iff.mp hs
  exact (inTurn_receive hspoken.secure hspoken.turn (hok.1 e rfl) hx).2

end Steps

/-! ## The client -/

section Client

open KvmSessionLoop (LoopState)

/-- All that a client sends on a connection: the handshake, and what the loop
    writes if there is one. -/
def clientSays (lib : Library) (m : Machine) (config : KvmClientConfig.Config)
    (opts : ConnectOptions) (x : Stream) (written : List Envelope) :
    List Envelope :=
  let out := performHandshake lib m config opts x
  match out.result with
  | .ok _ => out.sent ++ written
  | .error _ => out.sent

theorem request_all {es : List Envelope} (h : ∀ e ∈ es, mayAsk e = true) :
    exec Said.next .request es = some .request := by
  induction es with
  | nil => rfl
  | cons e es ih =>
      rw [exec_cons_some (if_pos (h e (List.mem_cons_self ..)))]
      exact ih fun e' he' => h e' (List.mem_cons_of_mem e he')

theorem clientTalk_says (lib : Library) (m : Machine)
    (config : KvmClientConfig.Config) (opts : ConnectOptions) (x : Stream)
    {written : List Envelope} (h : ∀ e ∈ written, mayAsk e = true) :
    ClientTalk (clientSays lib m config opts x written) := by
  have hhello : Said.next .nothing (KvmConnect.helloEnvelope m)
      = some .hello := by
    simp only [KvmConnect.helloEnvelope, Said.next, if_true]
  have hall : ClientTalk ([KvmConnect.helloEnvelope m,
      KvmConnect.pairRequestEnvelope lib m (config.ensureClientSecret m.secret)
        opts] ++ written) := by
    refine ⟨.request, ?_⟩
    rw [List.cons_append, exec_cons_some hhello]
    exact request_all h
  simp only [clientSays, performHandshake]
  cases x.helloSent with
  | error err => exact ⟨.nothing, rfl⟩
  | ok _ =>
      cases x.helloReply with
      | error err => exact @clientTalk_start [_] _ hall
      | ok reply =>
          cases hack : onHelloReply lib reply with
          | error err =>
              simp only [hack]
              exact @clientTalk_start [_] _ hall
          | ok ack =>
              simp only [hack]
              cases x.requestSent with
              | error err => exact @clientTalk_start [_] _ hall
              | ok _ =>
                  cases x.pairReply with
                  | error err => exact clientTalk_start hall
                  | ok reply =>
                      cases hpair : onPairReply lib reply with
                      | error err =>
                          simp only [hpair]
                          exact clientTalk_start hall
                      | ok _ =>
                          simp only [hpair]
                          exact hall

/-- The loop has written only what the server's loop has an arm for. -/
def Asks (s : LoopState) : Prop := ∀ e ∈ s.written, mayAsk e = true

theorem Asks.write {s s' : LoopState} (h : Asks s) {e : Envelope}
    (he : mayAsk e = true) (hs : s'.written = s.written ++ [e]) : Asks s' := by
  intro e' he'
  rw [hs] at he'
  rcases List.mem_append.mp he' with he' | he'
  · exact h e' he'
  · rw [List.mem_singleton.mp he']
    exact he

/-- A step that writes nothing. -/
theorem Asks.keep {s s' : LoopState} (h : Asks s)
    (hs : s'.written = s.written) : Asks s' := by
  rw [Asks, hs]
  exact h

theorem asks_dispatch {p : KvmKeymap.Platform} {clock : KvmSessionLoop.Clock}
    {replied : Bool} {s : LoopState} (h : Asks s) (e : Envelope) :
    Asks (KvmSessionLoop.dispatch p clock replied s e) := by
  cases e with
  | ping ts =>
      cases replied with
      | true => exact h.write (e := .pong ts) rfl rfl
      | false => exact h.keep rfl
  | _ => exact h.keep rfl

theorem asks_runArm {clip : Bool} {s s' : LoopState}
    {a : KvmSessionLoop.Arm} (h : Asks s)
    (hs : KvmSessionLoop.runArm clip s a = some s') : Asks s' := by
  cases a with
  | cancelled =>
      rw [← Option.some.inj hs]
      exact h.write (e := .goodbye) rfl rfl
  | pingTick clock sent =>
      simp only [KvmSessionLoop.runArm] at hs
      split at hs
      · rw [← Option.some.inj hs]
        exact h.keep rfl
      · split at hs
        · rw [← Option.some.inj hs]
          exact h.write (e := .ping clock.millis) rfl rfl
        · rw [← Option.some.inj hs]
          exact h.keep rfl
  | command cmd sent =>
      cases cmd with
      | none =>
          rw [← Option.some.inj hs]
          exact h.keep rfl
      | some cmd =>
          simp only [KvmSessionLoop.runArm] at hs
          split at hs
          · rw [← Option.some.inj hs]
            exact h.write (e := cmd.toEnvelope) (by cases cmd <;> rfl) rfl
          · rw [← Option.some.inj hs]
            exact h.keep rfl
  | clipboard text sent =>
      simp only [KvmSessionLoop.runArm] at hs
      split at hs
      · split at hs
        · rename_i t
          rw [← Option.some.inj hs]
          exact h.write (e := .clipboardSet t) rfl rfl
        · rw [← Option.some.inj hs]
          exact h.keep rfl
      · cases hs

theorem asks_step {p : KvmKeymap.Platform} {clip : Bool} (s : LoopState)
    (a : KvmSessionLoop.Action) (s' : LoopState) (h : Asks s)
    (hs : KvmSessionLoop.step p clip s a = some s') : Asks s' := by
  cases a with
  | arrive n =>
      rw [← Option.some.inj hs]
      exact h.keep rfl
  | close =>
      rw [← Option.some.inj hs]
      exact h.keep rfl
  | poll clock replied =>
      simp only [KvmSessionLoop.step] at hs
      split at hs
      · cases hs
      · split at hs
        · split at hs <;> rw [← Option.some.inj hs] <;> exact h.keep rfl
        · rw [← Option.some.inj hs]
          refine asks_dispatch ?_ _
          exact h.keep rfl
        · rw [← Option.some.inj hs]
          exact h.keep rfl
  | arm a =>
      simp only [KvmSessionLoop.step] at hs
      split at hs
      · cases hs
      · exact asks_runArm h hs

/-- What a client makes of what it has read: the answer to its `Hello` gives
    it the file port, the answer to its `PairRequest` is one of the two it
    knows, and its loop has an arm for the rest. -/
structure Understood (lib : Library) (read : List Envelope) : Prop where
  hello : ∀ e rest, read = e :: rest → ∃ ack, onHelloReply lib e = .ok ack
  pair : ∀ e e' rest, read = e :: e' :: rest →
    e' = .pairAccept ∨ ∃ reason, e' = .pairReject reason ∧ rest = []
  loop : ∀ e e' rest, read = e :: e' :: rest →
    ∀ e'' ∈ rest, mayTell e'' = true

theorem talking_mem {es : List Envelope} {u : Turn}
    (h : exec Turn.next .talking es = some u) :
    ∀ e ∈ es, mayTell e = true := by
  induction es with
  | nil =>
      intro e he
      exact absurd he List.not_mem_nil
  | cons e es ih =>
      obtain ⟨v, hv, hrest⟩ := exec_cons h
      simp only [Turn.next] at hv
      split at hv
      · rename_i htell
        rw [← Option.some.inj hv] at hrest
        intro e' he'
        rcases List.mem_cons.mp he' with rfl | he'
        · exact htell
        · exact ih hrest e' he'
      · cases hv

/-- The server's language is understood. -/
theorem understood_of_turn (lib : Library) {read : List Envelope} {u : Turn}
    (h : exec Turn.next .greeting read = some u) : Understood lib read := by
  have hfirst : ∀ e rest, read = e :: rest →
      (∃ port name, e = .helloAck port name) ∧
        exec Turn.next .pairing rest = some u := by
    rintro e rest rfl
    obtain ⟨v, hv, hrest⟩ := exec_cons h
    cases e with
    | helloAck port name =>
        rw [← Option.some.inj hv] at hrest
        exact ⟨⟨port, name, rfl⟩, hrest⟩
    | _ => cases hv
  have hsecond : ∀ e e' rest, read = e :: e' :: rest →
      (e' = .pairAccept ∧ exec Turn.next .talking rest = some u) ∨
        ∃ reason, e' = .pairReject reason ∧ rest = [] := by
    intro e e' rest hread
    obtain ⟨v, hv, hrest⟩ := exec_cons (hfirst e _ hread).2
    cases e' with
    | pairAccept =>
        rw [← Option.some.inj hv] at hrest
        exact Or.inl ⟨rfl, hrest⟩
    | pairReject reason =>
        refine Or.inr ⟨reason, rfl, ?_⟩
        rw [← Option.some.inj hv] at hrest
        cases rest with
        | nil => rfl
        | cons e'' rest =>
            obtain ⟨_, hover, -⟩ := exec_cons hrest
            cases hover
    | _ => cases hv
  refine ⟨?_, ?_, ?_⟩
  · intro e rest hread
    obtain ⟨⟨port, name, rfl⟩, -⟩ := hfirst e rest hread
    exact ⟨(port, name), rfl⟩
  · intro e e' rest hread
    exact (hsecond e e' rest hread).imp And.left id
  · intro e e' rest hread
    rcases hsecond e e' rest hread with ⟨-, htalking⟩ | ⟨reason, -, rfl⟩
    · exact talking_mem htalking
    · intro e'' he''
      exact absurd he'' List.not_mem_nil

end Client

/-- **BOTH ENDS IN TURN**: let a client do its handshake and run its loop,
    whatever it reads, and let the server run with any number of connections,
    of which one has received the first of what the client has sent.  Then the
    server expected each of these, and a client understands whatever it reads
    of the answers.  If it was in the registry and is over, the last of them
    is a `Goodbye`. -/
theorem both_ends_in_turn {C Ip : Type} [DecidableEq C] [DecidableEq Ip]
    (lib : Library) (m : Machine) (config : KvmClientConfig.Config)
    (opts : ConnectOptions) (x : Stream) (p : KvmKeymap.Platform) (clip : Bool)
    (bytes : List UInt8) (acts : List KvmSessionLoop.Action)
    (loop : KvmSessionLoop.LoopState) (k : Settings) (ip : C → Ip)
    (initial : List String) (enabled : Bool) (c : C)
    (actions : List (Action C)) (t : World C Ip)
    (hloop : exec (KvmSessionLoop.step p clip)
      (KvmSessionLoop.LoopState.init bytes) acts = some loop)
    (hrun : exec (step k ip) (World.start C Ip initial enabled) actions
      = some t)
    (hann : ∀ e, Action.broadcast e ∈ actions → announced e = true)
    (hheard : (t.conns c).received
      <+: clientSays lib m config opts x loop.written) :
    AllSteps (step k ip) (fun w a _ => ∀ e, a = .receive c e →
        Expected (w.conns c).phase e) (World.start C Ip initial enabled)
        actions ∧
      (∀ read, read <+: (t.conns c).sent → Understood lib read) ∧
      ((t.conns c).registered = true → (t.conns c).phase = .ended →
        (t.conns c).sent.getLast? = some .goodbye) := by
  have hasks : Asks loop := by
    refine invariant_reachable asks_step acts _ loop ?_ hloop
    intro e he
    exact absurd he List.not_mem_nil
  have htalk : ClientTalk (t.conns c).received := by
    obtain ⟨rest, hrest⟩ := hheard
    refine @clientTalk_start _ rest ?_
    rw [hrest]
    exact clientTalk_says lib m config opts x hasks
  obtain ⟨hturn, hexpected⟩ :=
    server_in_turn k ip initial enabled c actions t hrun htalk hann
  refine ⟨hexpected, ?_, hturn.farewell⟩
  rintro read ⟨rest, hrest⟩
  obtain ⟨u, hu, -⟩ := hturn.turn
  rw [← hrest] at hu
  obtain ⟨v, hv, -⟩ := exec_split hu
  exact understood_of_turn lib hv

/-- A visit of a client that is paired, in a server that broadcasts one
    toggle: the handshake, the toggle, `Goodbye`. -/
def visit : List (Action Unit) :=
  let config := KvmClientConfig.Config.default.ensureClientSecret
    KvmConnect.machine.secret
  [.receive () (KvmConnect.helloEnvelope KvmConnect.machine), .advance (),
    .receive () (KvmConnect.pairRequestEnvelope KvmConnect.library
      KvmConnect.machine config ⟨none, false, none⟩),
    .advance (), .advance (), .advance (), .advance (), .advance (),
    .broadcast (.toggleForward true), .receive () .goodbye, .advance (),
    .advance (), .advance ()]

/-- The server has paired the client's fingerprint. -/
def visitStart : World Unit Unit :=
  World.start Unit Unit
    [(KvmClientConfig.Config.default.ensureClientSecret
      KvmConnect.machine.secret).clientFingerprint KvmConnect.sha256Table]
    false

theorem both_ends_in_turn_visit :
    ∃ t, exec (step settings fun _ => ()) visitStart visit = some t ∧
      Understood KvmConnect.library (t.conns ()).sent ∧
      (t.conns ()).sent.getLast? = some .goodbye := by
  let stream : Stream :=
    ⟨.ok (), .ok (.helloAck 4001 "server"), .ok (), .ok .pairAccept⟩
  obtain ⟨t, hrun⟩ := Option.isSome_iff_exists.mp
    (show (exec (step settings fun _ => ()) visitStart visit).isSome = true
      by decide +kernel)
  obtain ⟨loop, hloop⟩ := Option.isSome_iff_exists.mp
    (show (exec (KvmSessionLoop.step .linux false)
      (KvmSessionLoop.LoopState.init []) [.arm .cancelled]).isSome = true
      by decide)
  have hwritten : (exec (KvmSessionLoop.step .linux false)
      (KvmSessionLoop.LoopState.init []) [.arm .cancelled]).map
        KvmSessionLoop.LoopState.written = some [.goodbye] := rfl
  have hend : (exec (step settings fun _ => ()) visitStart visit).map
      (fun t => ((t.conns ()).registered, (t.conns ()).phase,
        decide ((t.conns ()).received
          <+: clientSays KvmConnect.library KvmConnect.machine
            KvmClientConfig.Config.default ⟨none, false, none⟩ stream
            [.goodbye])))
      = some (true, .ended, true) := by decide +kernel
  rw [hloop, Option.map_some, Option.some.injEq] at hwritten
  rw [hrun] at hend
  obtain ⟨hreg, hphase, hheard⟩ := by
    simpa only [Option.map_some, Option.some.injEq, Prod.mk.injEq,
      decide_eq_true_eq] using hend
  rw [← hwritten] at hheard
  have hann : ∀ e, Action.broadcast e ∈ visit → announced e = true := by
    intro e he
    simp only [visit, List.mem_cons, reduceCtorEq, Action.broadcast.injEq,
      List.not_mem_nil, false_or, or_false] at he
    rw [he]
    rfl
  obtain ⟨-, hread, hbye⟩ := both_ends_in_turn KvmConnect.library
    KvmConnect.machine KvmClientConfig.Config.default ⟨none, false, none⟩
    stream .linux false [] [.arm .cancelled] loop settings (fun _ => ()) _
    false () visit t hloop hrun hann hheard
  exact ⟨t, hrun, hread _ (List.prefix_refl _), hbye hreg hphase⟩

end KvmTranscript
