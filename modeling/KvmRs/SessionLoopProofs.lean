import KvmRs.TransitionProofs
import KvmRs.FramingProofs
import KvmRs.InjectProofs

/-! # The client's message loop, `Session::run`

    Each iteration of the loop races five `select!` arms, one of which is a
    fresh `read_envelope`.  The arm that completes first wins and the futures
    of the others are dropped; a dropped `read_envelope` takes the bytes it
    has already consumed with it, because `read_exact` keeps them in its own
    buffer and nowhere else.

    The state separates the bytes still on the network (`wire`), those that
    arrived but were not read (`buf`), and those inside the pending future
    (`fut`).  `StreamInv` ties them to the frames the server sent; it is kept
    by every step except one: an arm that completes, and lets the loop go on,
    while the pending future is part-way through a frame. -/

namespace KvmSessionLoop

open KvmEnvelope KvmFraming KvmInject KvmKeymap Transition

/-- Commands of a `SessionController`. -/
inductive Command where
  | toggleForward (on : Bool)
  | sendClipboard (text : String)
  deriving DecidableEq

/-- What the loop reports to its observer. -/
inductive SessionEvent where
  | forwardingChanged (on : Bool)
  | clipboardReceived (bytes : Nat)
  | latency (ms : UInt64)
  | error (msg : String)
  deriving DecidableEq

/-- Ways the loop ends. -/
inductive Outcome where
  | cancelled
  | goodbye
  | unresponsive
  | sendFailed
  | readFailed (e : ProtocolError)
  deriving DecidableEq

inductive Status where
  | running
  | ended (o : Outcome)
  deriving DecidableEq

/-- One reading of both clocks: the monotonic one in nanoseconds, and
    `now_millis()`. -/
structure Clock where
  instant : Nat
  millis : UInt64
  deriving DecidableEq

/-- Silence after which the server counts as gone (20 s). -/
def DEAD_AFTER : Nat := 20 * 10 ^ 9

structure LoopState where
  wire : List UInt8
  closed : Bool
  buf : List UInt8
  fut : ReadFuture
  lastReceived : Nat
  injector : InputInjector
  clipIn : List String
  written : List Envelope
  events : List SessionEvent
  dispatched : List Envelope
  status : Status
  deriving DecidableEq

/-- The loop as it starts on a connection whose peer sends `stream`. -/
def LoopState.init (stream : List UInt8) : LoopState where
  wire := stream
  closed := false
  buf := []
  fut := ReadFuture.fresh
  lastReceived := 0
  injector := InputInjector.new
  clipIn := []
  written := []
  events := []
  dispatched := []
  status := .running

/-- The arms that race with `read_envelope`.  `sent` says whether the write
    the arm makes goes through. -/
inductive Arm where
  | cancelled
  | pingTick (clock : Clock) (sent : Bool)
  | command (cmd : Option Command) (sent : Bool)
  | clipboard (text : Option String) (sent : Bool)
  deriving DecidableEq

inductive Action where
  /-- the next `n` bytes of the network arrive -/
  | arrive (n : Nat)
  /-- the peer closes its side behind the last byte -/
  | close
  /-- the read arm is polled; `replied` says whether a `Pong` could be sent -/
  | poll (clock : Clock) (replied : Bool)
  /-- another arm completes first -/
  | arm (a : Arm)
  deriving DecidableEq

def Command.toEnvelope : Command → Envelope
  | .toggleForward on => .toggleForward on
  | .sendClipboard text => .clipboardSet text

/-- `saturating_sub` on the millisecond clock. -/
def saturatingSub (a b : UInt64) : UInt64 := if b ≤ a then a - b else 0

/-- Handle one envelope that was read. -/
def dispatch (p : Platform) (clock : Clock) (replied : Bool) (s : LoopState)
    (env : Envelope) : LoopState :=
  let s := { s with
    lastReceived := clock.instant
    dispatched := s.dispatched ++ [env]
    injector := injectorAfter p s.injector env }
  match env with
  | .clipboardSet text =>
      { s with
        clipIn := s.clipIn ++ [text]
        events := s.events ++ [.clipboardReceived (ByteCodec.utf8 text).length] }
  | .toggleForward on =>
      { s with events := s.events ++ [.forwardingChanged on] }
  | .ping ts =>
      if replied then { s with written := s.written ++ [.pong ts] }
      else { s with status := .ended .sendFailed }
  | .pong ts =>
      { s with events := s.events ++ [.latency (saturatingSub clock.millis ts)] }
  | .goodbye => { s with status := .ended .goodbye }
  | .error msg => { s with events := s.events ++ [.error msg] }
  | _ => s

/-- Does the loop go on after this arm? -/
def Arm.continues (s : LoopState) : Arm → Bool
  | .cancelled => false
  | .pingTick clock sent =>
      !(decide (DEAD_AFTER < clock.instant - s.lastReceived)) && sent
  | .command none _ => true
  | .command (some _) sent => sent
  | .clipboard _ _ => true

/-- An arm other than the read arm completes: its body runs and the pending
    `read_envelope` is dropped. -/
def runArm (clipboardEnabled : Bool) (s : LoopState) :
    Arm → Option LoopState
  | .cancelled =>
      some { s with
        fut := ReadFuture.fresh
        written := s.written ++ [.goodbye]
        status := .ended .cancelled }
  | .pingTick clock sent =>
      if DEAD_AFTER < clock.instant - s.lastReceived then
        some { s with fut := ReadFuture.fresh, status := .ended .unresponsive }
      else if sent then
        some { s with
          fut := ReadFuture.fresh
          written := s.written ++ [.ping clock.millis] }
      else some { s with fut := ReadFuture.fresh, status := .ended .sendFailed }
  | .command none _ => some { s with fut := ReadFuture.fresh }
  | .command (some cmd) sent =>
      if sent then
        some { s with
          fut := ReadFuture.fresh
          written := s.written ++ [cmd.toEnvelope] }
      else some { s with fut := ReadFuture.fresh, status := .ended .sendFailed }
  | .clipboard text sent =>
      -- the arm is gated on the clipboard having opened
      if clipboardEnabled then
        match text, sent with
        | some t, true =>
            some { s with
              fut := ReadFuture.fresh
              written := s.written ++ [.clipboardSet t] }
        | _, _ => some { s with fut := ReadFuture.fresh }
      else none

/-- One step of the loop or of the network below it. -/
def step (p : Platform) (clipboardEnabled : Bool) (s : LoopState) :
    Action → Option LoopState
  | .arrive n =>
      some { s with buf := s.buf ++ s.wire.take n, wire := s.wire.drop n }
  | .close => some { s with closed := true }
  | .poll clock replied =>
      match s.status with
      | .ended _ => none
      | .running =>
          match pollRead s.fut s.buf with
          | (.pending f, rest) =>
              if s.closed = true ∧ s.wire = [] then
                some { s with buf := rest, status := .ended (.readFailed .io) }
              else some { s with fut := f, buf := rest }
          | (.ready (.ok env), rest) =>
              some (dispatch p clock replied
                { s with fut := ReadFuture.fresh, buf := rest } env)
          | (.ready (.error e), rest) =>
              some { s with buf := rest, status := .ended (.readFailed e) }
  | .arm a =>
      match s.status with
      | .ended _ => none
      | .running => runArm clipboardEnabled s a

/-! ## The property and its side condition -/

/-- The loop ended by cancellation, `Goodbye` or keepalive timeout. -/
def EndedEarly (s : LoopState) : Prop :=
  s.status = .ended .cancelled ∨ s.status = .ended .goodbye
    ∨ s.status = .ended .unresponsive

/-- What was dispatched is a prefix of what the server sent, and all of it
    once every byte has arrived and been read. -/
def InOrder (sent : List Envelope) (s : LoopState) : Prop :=
  s.dispatched <+: sent ∧
    (s.wire = [] → s.buf = [] → ¬ EndedEarly s → s.dispatched = sent)

/-- No arm completes, with the loop going on, while the pending read holds
    part of a frame. -/
def BetweenFrames (s : LoopState) : Action → Prop
  | .arm a => a.continues s = true → s.fut = ReadFuture.fresh
  | _ => True

instance betweenFramesDecidable (s : LoopState) (a : Action) :
    Decidable (BetweenFrames s a) := by
  cases a <;> simp only [BetweenFrames] <;> infer_instance

/-- The bytes in the future, in the buffer and on the wire are the frames
    that were not dispatched yet, and the future holds less than a frame. -/
def StreamInv (sent : List Envelope) (s : LoopState) : Prop :=
  ∃ (todo : List Envelope) (p : List UInt8),
    sent = s.dispatched ++ todo ∧
    p ++ s.buf ++ s.wire = todo.flatMap frame ∧
    (∀ e rest, todo = e :: rest → p.length < (frame e).length) ∧
    (s.status = .running → s.fut = after p)

theorem streamInv_inOrder {sent : List Envelope} {s : LoopState}
    (h : StreamInv sent s) : InOrder sent s := by
  obtain ⟨todo, p, hsent, hbytes, hpart, -⟩ := h
  refine ⟨⟨todo, hsent.symm⟩, ?_⟩
  intro hw hb _
  cases todo with
  | nil => rw [hsent, List.append_nil]
  | cons e rest =>
      -- a missing frame would have to fit into an unfinished one
      have hlt := hpart e rest rfl
      rw [hw, hb, List.append_nil, List.append_nil] at hbytes
      rw [hbytes, List.flatMap_cons, List.length_append] at hlt
      omega

/-! ## Step lemmas -/

theorem dispatch_bytes (p : Platform) (clock : Clock) (replied : Bool)
    (s : LoopState) (env : Envelope) :
    (dispatch p clock replied s env).wire = s.wire ∧
      (dispatch p clock replied s env).buf = s.buf ∧
      (dispatch p clock replied s env).fut = s.fut ∧
      (dispatch p clock replied s env).dispatched = s.dispatched ++ [env] := by
  cases env with
  | ping ts => cases replied <;> exact ⟨rfl, rfl, rfl, rfl⟩
  | _ => exact ⟨rfl, rfl, rfl, rfl⟩

theorem runArm_bytes {clip : Bool} {s s' : LoopState} {a : Arm}
    (h : runArm clip s a = some s') :
    s'.wire = s.wire ∧ s'.buf = s.buf ∧ s'.dispatched = s.dispatched ∧
      s'.fut = ReadFuture.fresh ∧
      (s'.status = .running → a.continues s = true) := by
  cases a with
  | cancelled =>
      rw [← Option.some.inj h]
      exact ⟨rfl, rfl, rfl, rfl, fun hs => nomatch hs⟩
  | pingTick clock sent =>
      by_cases hd : DEAD_AFTER < clock.instant - s.lastReceived
      · simp only [runArm, if_pos hd] at h
        rw [← Option.some.inj h]
        exact ⟨rfl, rfl, rfl, rfl, fun hs => nomatch hs⟩
      · cases sent with
        | true =>
            simp only [runArm, if_neg hd] at h
            rw [← Option.some.inj h]
            exact ⟨rfl, rfl, rfl, rfl, fun _ => by
              simp [Arm.continues, hd]⟩
        | false =>
            simp only [runArm, if_neg hd] at h
            rw [← Option.some.inj h]
            exact ⟨rfl, rfl, rfl, rfl, fun hs => nomatch hs⟩
  | command cmd sent =>
      cases cmd with
      | none =>
          rw [← Option.some.inj h]
          exact ⟨rfl, rfl, rfl, rfl, fun _ => rfl⟩
      | some c =>
          cases sent with
          | true =>
              rw [← Option.some.inj h]
              exact ⟨rfl, rfl, rfl, rfl, fun _ => rfl⟩
          | false =>
              rw [← Option.some.inj h]
              exact ⟨rfl, rfl, rfl, rfl, fun hs => nomatch hs⟩
  | clipboard text sent =>
      cases clip with
      | false => cases h
      | true =>
          cases text with
          | none =>
              rw [← Option.some.inj h]
              exact ⟨rfl, rfl, rfl, rfl, fun _ => rfl⟩
          | some t =>
              cases sent <;>
                (rw [← Option.some.inj h]
                 exact ⟨rfl, rfl, rfl, rfl, fun _ => rfl⟩)

/-- Bytes moving from the network to the buffer keep the stream. -/
theorem streamInv_arrive {sent : List Envelope} {s : LoopState} (n : Nat)
    (h : StreamInv sent s) :
    StreamInv sent
      { s with buf := s.buf ++ s.wire.take n, wire := s.wire.drop n } := by
  obtain ⟨todo, p, hsent, hbytes, hpart, hfut⟩ := h
  refine ⟨todo, p, hsent, ?_, hpart, hfut⟩
  rw [← hbytes]
  simp only [List.append_assoc, List.take_append_drop]

/-- What one poll finds: either the available bytes stay short of the frame,
    or they complete it. -/
theorem poll_cases {e : Envelope} {p buf tail rest : List UInt8}
    (hbytes : p ++ buf ++ tail = frame e ++ rest)
    (hp : p.length < (frame e).length) :
    (∃ missing, missing ≠ [] ∧ p ++ buf ++ missing = frame e) ∨
      (∃ q buf', q ≠ [] ∧ buf = q ++ buf' ∧ p ++ q = frame e ∧
        buf' ++ tail = rest) := by
  by_cases hlen : (p ++ buf).length < (frame e).length
  · -- the frame is a proper extension of what is there
    left
    obtain ⟨missing, hm⟩ : ∃ m, p ++ buf ++ m = frame e := by
      rcases List.append_eq_append_iff.mp hbytes with ⟨m, h1, -⟩ | ⟨m, h1, -⟩
      · exact ⟨m, h1.symm⟩
      · rw [h1, List.length_append] at hlen
        omega
    refine ⟨missing, ?_, hm⟩
    intro hnil
    rw [hnil, List.append_nil] at hm
    rw [hm] at hlen
    omega
  · right
    rw [List.append_assoc] at hbytes
    rcases List.append_eq_append_iff.mp hbytes with ⟨q, h1, h2⟩ | ⟨m, h1, -⟩
    · -- `q` is what the frame lacks behind `p`
      have hq : q.length ≤ buf.length := by
        have hl := congrArg List.length h1
        rw [List.length_append] at hl
        rw [List.length_append] at hlen
        omega
      rcases List.append_eq_append_iff.mp h2 with ⟨b, hb1, hb2⟩ | ⟨b, hb1, hb2⟩
      · -- the buffer ends inside `q`, so it is exactly `q`
        have hbl : b = [] := by
          have hl := congrArg List.length hb1
          rw [List.length_append] at hl
          exact List.length_eq_zero_iff.mp (by omega)
        subst hbl
        rw [List.append_nil] at hb1
        refine ⟨q, [], ?_, by rw [← hb1, List.append_nil], h1.symm, ?_⟩
        · intro hnil
          rw [hnil, List.append_nil] at h1
          rw [h1] at hp
          omega
        · rw [hb2]
          rfl
      · refine ⟨q, b, ?_, hb1, h1.symm, hb2.symm⟩
        intro hnil
        rw [hnil, List.append_nil] at h1
        rw [h1] at hp
        omega
    · rw [h1, List.length_append] at hp
      omega

/-- Polling the read arm keeps the stream. -/
theorem streamInv_poll {p₀ : Platform} {clip : Bool} {sent : List Envelope}
    (hsize : ∀ e ∈ sent, (envelope.write e).length ≤ MAX_ENVELOPE_SIZE)
    {s s' : LoopState} {clock : Clock} {replied : Bool}
    (h : StreamInv sent s)
    (hs : step p₀ clip s (.poll clock replied) = some s') :
    StreamInv sent s' := by
  obtain ⟨todo, p, hsent, hbytes, hpart, hfut⟩ := h
  cases hst : s.status with
  | ended o => simp only [step, hst] at hs; cases hs
  | running =>
      have hf := hfut hst
      cases todo with
      | nil =>
          -- nothing is left: the poll stays pending on no bytes
          have hnil : p ++ s.buf ++ s.wire = [] := hbytes
          obtain ⟨hpb, hw⟩ := List.append_eq_nil_iff.mp hnil
          obtain ⟨hp, hb⟩ := List.append_eq_nil_iff.mp hpb
          have hpoll : pollRead s.fut s.buf = (.pending s.fut, []) := by
            rw [hb]; rfl
          simp only [step, hst, hpoll] at hs
          by_cases hc : s.closed = true ∧ s.wire = []
          · rw [if_pos hc] at hs
            rw [← Option.some.inj hs]
            refine ⟨[], [], hsent, ?_, ?_, ?_⟩
            · show [] ++ [] ++ s.wire = []
              rw [hw]
              rfl
            · intro e rest hnil
              cases hnil
            · intro hrunning
              cases hrunning
          · rw [if_neg hc] at hs
            rw [← Option.some.inj hs]
            refine ⟨[], [], hsent, ?_, ?_, ?_⟩
            · show [] ++ [] ++ s.wire = []
              rw [hw]
              rfl
            · intro e rest hnil
              cases hnil
            · intro _
              show s.fut = after []
              rw [hf, hp]
      | cons e rest =>
          have hmem : e ∈ sent := by rw [hsent]; simp
          have hlt := hpart e rest rfl
          rw [List.flatMap_cons] at hbytes
          rcases poll_cases hbytes hlt with
            ⟨missing, hne, hm⟩ | ⟨q, buf', hne, hbuf, hq, hrest⟩
          · -- part of a frame: the bytes move into the future
            have hpoll := pollRead_within (hsize e hmem) s.buf p missing hm hne
            simp only [step, hst, hf, hpoll] at hs
            have hkeep : (p ++ s.buf) ++ [] ++ s.wire
                = (e :: rest).flatMap frame := by
              rw [List.append_nil, List.flatMap_cons]
              exact hbytes
            have hpart' : ∀ e' rest', e :: rest = e' :: rest' →
                (p ++ s.buf).length < (frame e').length := by
              intro e' rest' heq
              have hpos : 0 < missing.length := List.length_pos_iff.mpr hne
              have hl : (p ++ s.buf ++ missing).length
                  = (p ++ s.buf).length + missing.length := List.length_append
              rw [← (List.cons.inj heq).1, ← hm, hl]
              omega
            by_cases hc : s.closed = true ∧ s.wire = []
            · rw [if_pos hc] at hs
              rw [← Option.some.inj hs]
              exact ⟨e :: rest, p ++ s.buf, hsent, hkeep, hpart',
                fun h => nomatch h⟩
            · rw [if_neg hc] at hs
              rw [← Option.some.inj hs]
              exact ⟨e :: rest, p ++ s.buf, hsent, hkeep, hpart', fun _ => rfl⟩
          · -- the frame is complete: its envelope is dispatched
            have hpoll := pollRead_frame (hsize e hmem) q p buf' hq hne
            simp only [step, hst, hf, hbuf, hpoll] at hs
            rw [← Option.some.inj hs]
            refine ⟨rest, [], ?_, ?_, ?_, ?_⟩
            · rw [(dispatch_bytes p₀ clock replied _ e).2.2.2, hsent,
                List.append_assoc, List.singleton_append]
            · rw [(dispatch_bytes p₀ clock replied _ e).1,
                (dispatch_bytes p₀ clock replied _ e).2.1, List.nil_append]
              exact hrest
            · intro e' rest' _
              rw [frame_length, List.length_nil]
              omega
            · intro _
              rw [(dispatch_bytes p₀ clock replied _ e).2.2.1, after_nil]

/-- **ONE STEP**: every step taken between frames keeps the stream. -/
theorem streamInv_step {p₀ : Platform} {clip : Bool} {sent : List Envelope}
    (hsize : ∀ e ∈ sent, (envelope.write e).length ≤ MAX_ENVELOPE_SIZE)
    (s : LoopState) (a : Action) (s' : LoopState)
    (h : StreamInv sent s) (hok : BetweenFrames s a)
    (hs : step p₀ clip s a = some s') : StreamInv sent s' := by
  cases a with
  | arrive n =>
      rw [← Option.some.inj hs]
      exact streamInv_arrive n h
  | close =>
      rw [← Option.some.inj hs]
      exact h
  | poll clock replied => exact streamInv_poll hsize h hs
  | arm a =>
      cases hst : s.status with
      | ended o => simp only [step, hst] at hs; cases hs
      | running =>
          simp only [step, hst] at hs
          obtain ⟨hw, hb, hd, hf, hc⟩ := runArm_bytes hs
          obtain ⟨todo, p, hsent, hbytes, hpart, hfut⟩ := h
          refine ⟨todo, p, by rw [hd]; exact hsent, by rw [hb, hw]; exact hbytes,
            hpart, ?_⟩
          intro hrun
          -- the dropped future had consumed nothing
          have hfresh : s.fut = ReadFuture.fresh := hok (hc hrun)
          have hp : p = [] := after_eq_fresh (by rw [← hfut hst, hfresh])
          rw [hf, hp, after_nil]

/-- **IN-ORDER DISPATCH**: for every list of envelopes the server could send,
    every chunking of its bytes and every interleaving of the arms in which
    no arm drops a part-read frame, the loop dispatches a prefix of the list,
    and the whole list once every byte has been read. -/
theorem dispatch_in_order (p : Platform) (clip : Bool)
    (sent : List Envelope) (stream : List UInt8)
    (hsent : sendAll sent = .ok stream)
    (acts : List Action) (s : LoopState)
    (hrun : exec (step p clip) (LoopState.init stream) acts = some s)
    (hok : Guarded (step p clip) BetweenFrames (LoopState.init stream) acts) :
    InOrder sent s := by
  obtain ⟨hsize, hstream⟩ := sendAll_ok hsent
  have hinit : StreamInv sent (LoopState.init stream) := by
    refine ⟨sent, [], rfl, hstream, ?_, fun _ => rfl⟩
    intro e rest _
    rw [frame_length, List.length_nil]
    omega
  exact streamInv_inOrder
    (invariant_exec (streamInv_step hsize) acts _ s hinit hok hrun)

/-- A run that meets the condition: a keepalive tick lands between the two
    frames, and both envelopes are dispatched. -/
theorem dispatch_in_order_across_tick :
    ∃ s, InOrder [.toggleForward true, .goodbye] s ∧
      s.dispatched = [.toggleForward true, .goodbye] := by
  let acts : List Action :=
    [.arrive 3, .poll ⟨0, 0⟩ true, .arrive 6, .poll ⟨1, 1⟩ true,
      .arm (.pingTick ⟨2, 2⟩ true), .arrive 9, .poll ⟨3, 3⟩ true]
  have hsent : sendAll [.toggleForward true, .goodbye]
      = .ok [0, 0, 0, 5, 5, 0, 0, 0, 1, 0, 0, 0, 4, 15, 0, 0, 0] := by decide
  have hrun : (exec (step .linux true) (LoopState.init
      [0, 0, 0, 5, 5, 0, 0, 0, 1, 0, 0, 0, 4, 15, 0, 0, 0]) acts).map
        (fun s => s.dispatched) = some [.toggleForward true, .goodbye] := by
    decide
  obtain ⟨s, hs, hd⟩ := Option.map_eq_some_iff.mp hrun
  exact ⟨s, dispatch_in_order .linux true _ _ hsent acts s hs (by decide), hd⟩

/-- **A TICK INSIDE A FRAME LOSES IT**: the server sends one `ToggleForward`
    in nine bytes; two arrive and are read, a keepalive tick fires, the rest
    arrives and is read.  The loop is still running with nothing left to
    read, and has dispatched nothing. -/
theorem dispatch_loses_split_frame :
    ∃ s, sendAll [.toggleForward true]
        = .ok [0, 0, 0, 5, 5, 0, 0, 0, 1] ∧
      exec (step .linux true) (LoopState.init [0, 0, 0, 5, 5, 0, 0, 0, 1])
        [.arrive 2, .poll ⟨0, 0⟩ true, .arm (.pingTick ⟨0, 0⟩ true),
          .arrive 7, .poll ⟨1, 1⟩ true] = some s ∧
      s.status = .running ∧ ¬ InOrder [.toggleForward true] s := by
  refine ⟨_, by decide, rfl, rfl, ?_⟩
  intro h
  have hall := h.2 rfl rfl (by
    rintro (h | h | h) <;> exact nomatch h)
  cases hall

end KvmSessionLoop
