import KvmRs.KeepaliveProofs

/-! # Pongs answer pings

    The client takes the time in a `Pong` for that of its own `Ping` and
    reports the difference as the latency.  Both ends are those of
    `KvmKeepalive`, but the connection towards the client carries bytes: a
    task takes the envelopes from the outbound channel and writes their
    frames, and the client's loop reads as many bytes as have arrived.

    As long as no arm of that loop drops a half-read frame, the pongs the
    client has heard are the first of its own pings, in order: none is missing
    in between, made up or answered twice.  A dropped frame can leave bytes of
    a clipboard text where a frame should begin, and they may read as a
    `Pong` that nobody sent. -/

namespace KvmPong

open KvmEnvelope KvmKeymap KvmInject KvmCapture KvmKeepalive Transition
open KvmFraming (frame frame_length)
open KvmSessionLoop (LoopState Arm Status DEAD_AFTER runArm runArm_bytes
  dispatch dispatch_bytes BetweenFrames StreamInv streamInv_step)

/-! ## The connection in bytes -/

/-- Both ends, the client's `wire` holding what was written to it and
    `toClient` being the outbound channel, and whether the task that writes is
    still running. -/
structure Connection where
  ends : World
  writing : Bool

def Connection.start (server client : Nat) : Connection where
  ends := World.start server client
  writing := true

inductive Action where
  /-- A step of either loop that reads nothing from the client's stream. -/
  | loop (a : KvmKeepalive.Action)
  /-- The task that writes takes an envelope from the channel. -/
  | write
  /-- Bytes arrive at the client, its stream is closed, or its loop polls the
      read arm. -/
  | read (a : KvmSessionLoop.Action)

/-- All steps but the arrival of a whole envelope. -/
def ofLoop : KvmKeepalive.Action → Bool
  | .clientReceive _ _ => false
  | _ => true

/-- The steps of the client's stream and of its read arm, at this time. -/
def ofRead (now : Nat) : KvmSessionLoop.Action → Bool
  | .arm _ => false
  | .poll clock _ => decide (clock.instant = now)
  | _ => true

/-- Bytes are put on the stream to the client. -/
def putOnStream (w : World) (left : List (Envelope × Nat))
    (bytes : List UInt8) : World :=
  { w with
    toClient := left
    client := { w.client with wire := w.client.wire ++ bytes } }

def step (p : Platform) (clip : Bool) (c : Connection) :
    Action → Option Connection
  | .loop a =>
      if ofLoop a = true then
        (KvmKeepalive.step p clip c.ends a).map fun w => { c with ends := w }
      else none
  | .write =>
      match c.ends.toClient with
      | (e, _) :: rest =>
          if c.writing = true then
            match serializeEnvelope e with
            | .ok bytes => some { c with ends := putOnStream c.ends rest bytes }
            -- `send_envelope` has failed and the task ends
            | .error _ =>
                some { ends := putOnStream c.ends rest [], writing := false }
          else none
      | [] => none
  | .read a =>
      if c.ends.client.status = .running ∧ ofRead c.ends.now a = true then
        (KvmSessionLoop.step p clip c.ends.client a).map fun s =>
          { c with ends := c.ends.afterClient s }
      else none

/-- No arm completes, with the client's loop going on, while the pending read
    holds part of a frame. -/
def WholeFrames (c : Connection) : Action → Prop
  | .loop (.clientPing millis sent) =>
      BetweenFrames c.ends.client (.arm (.pingTick ⟨c.ends.now, millis⟩ sent))
  | .loop (.clientArm a) => BetweenFrames c.ends.client (.arm a)
  | _ => True

instance wholeFramesDecidable (c : Connection) (a : Action) :
    Decidable (WholeFrames c a) := by
  unfold WholeFrames
  split <;> infer_instance

/-! ## The account of pings and pongs -/

/-- The times of the pings among these. -/
def pings (es : List Envelope) : List UInt64 :=
  es.filterMap fun
    | .ping ts => some ts
    | _ => none

def pongs (es : List Envelope) : List UInt64 :=
  es.filterMap fun
    | .pong ts => some ts
    | _ => none

/-- What the client has pinged is answered in what was written, answered in
    the channel, or still to be answered; a running server answers what is
    under way to it. -/
def Echo (wrote : List Envelope) (w : World) : Prop :=
  ∃ rest, pings w.client.written
      = pongs wrote ++ pongs (w.toClient.map Prod.fst) ++ rest ∧
    (w.handler.status = .running → rest = pings (w.toServer.filterMap Prod.fst))

section Echoes

variable {p : Platform} {clip : Bool} {wrote : List Envelope} {w w' : World}

theorem pings_append (es fs : List Envelope) :
    pings (es ++ fs) = pings es ++ pings fs := List.filterMap_append

theorem pongs_append (es fs : List Envelope) :
    pongs (es ++ fs) = pongs es ++ pongs fs := List.filterMap_append

/-- The server answers what it took, or stops. -/
theorem Echo.handler (h : Echo wrote w) (hrun : w.handler.status = .running)
    {m : List Envelope} {left : List (Option Envelope × Nat)}
    (hleft : w.toServer.filterMap Prod.fst = m ++ left.filterMap Prod.fst)
    {out : Handler × List Envelope}
    (hout : out.1.status = .running ∧ pongs out.2 = pings m ∨
      out.1.status ≠ .running ∧ pongs out.2 = []) :
    Echo wrote ({ w with toServer := left }.afterHandler out) := by
  obtain ⟨rest, hpings, hrest⟩ := h
  rw [hrest hrun, hleft, pings_append] at hpings
  have hfirst : (w.toClient ++ out.2.map fun e => (e, w.now)).map Prod.fst
      = w.toClient.map Prod.fst ++ out.2 := by
    rw [List.map_append, List.map_map, Function.comp_def, List.map_id']
  rcases hout with ⟨hgo, hpongs⟩ | ⟨hend, hpongs⟩
  · refine ⟨pings (left.filterMap Prod.fst), ?_, fun _ => rfl⟩
    simp only [World.afterHandler, hfirst, pongs_append, hpongs]
    rw [hpings]
    simp only [List.append_assoc]
  · refine ⟨pings m ++ pings (left.filterMap Prod.fst), ?_,
      fun hr => absurd hr hend⟩
    simp only [World.afterHandler, hfirst, pongs_append, hpongs,
      List.append_nil]
    exact hpings

/-- What the client writes is under way. -/
theorem Echo.client (h : Echo wrote w) {s : LoopState} {ws : List Envelope}
    (hws : s.written = w.client.written ++ ws) (ping : Nat) :
    Echo wrote { w.afterClient s with clientPing := ping } := by
  obtain ⟨rest, hpings, hrest⟩ := h
  have hsent : ((w.toServer ++ ws.map (fun e => (some e, w.now))
      ++ if s.status = Status.running then [] else [(none, w.now)]).filterMap
        Prod.fst) = w.toServer.filterMap Prod.fst ++ ws := by
    split <;> simp
  refine ⟨rest ++ pings ws, ?_, fun hr => ?_⟩
  · simp only [World.afterClient, hws, pings_append]
    rw [hpings]
    simp only [List.append_assoc]
  · simp only [World.afterClient, hws, List.drop_left]
    rw [hsent, pings_append, ← hrest hr]

/-- What is written has left the channel. -/
theorem Echo.written (h : Echo wrote w) {e : Envelope} {sentAt : Nat}
    {left : List (Envelope × Nat)} (hleft : w.toClient = (e, sentAt) :: left)
    (bytes : List UInt8) :
    Echo (wrote ++ [e]) (putOnStream w left bytes) := by
  obtain ⟨rest, hpings, hrest⟩ := h
  refine ⟨rest, ?_, hrest⟩
  rw [hleft, List.map_cons, ← List.singleton_append, pongs_append] at hpings
  rw [pongs_append, List.append_assoc (pongs wrote)]
  exact hpings

/-- What cannot be written is no pong. -/
theorem Echo.unwritten (h : Echo wrote w) {e : Envelope} {sentAt : Nat}
    {left : List (Envelope × Nat)} (hleft : w.toClient = (e, sentAt) :: left)
    {err : ProtocolError} (hfail : serializeEnvelope e = .error err) :
    Echo wrote (putOnStream w left []) := by
  obtain ⟨rest, hpings, hrest⟩ := h
  refine ⟨rest, ?_, hrest⟩
  have hno : pongs [e] = [] := by
    cases e with
    | pong ts =>
        have hshort : (envelope.write (.pong ts)).length = 12 := by
          show (ByteCodec.leBytes 4 13 ++ ByteCodec.leBytes 8 ts.toNat).length
            = 12
          simp
        simp only [serializeEnvelope, hshort] at hfail
        cases hfail
    | _ => rfl
  rw [hleft, List.map_cons, ← List.singleton_append, pongs_append, hno,
    List.nil_append] at hpings
  exact hpings

/-- What the server does with a message: answer a ping, or nothing with a
    pong in it. -/
theorem receive_pongs (now : Nat) (current : Bool) (h : Handler)
    (hrun : h.status = .running) (m : Option Envelope) :
    (h.receive now current m).1.status = .running ∧
        pongs (h.receive now current m).2 = pings m.toList ∨
      (h.receive now current m).1.status ≠ .running ∧
        pongs (h.receive now current m).2 = [] := by
  cases m with
  | none => exact Or.inr ⟨fun hr => (nomatch hr), rfl⟩
  | some env =>
      cases env with
      | goodbye => exact Or.inr ⟨fun hr => (nomatch hr), rfl⟩
      | toggleForward desired =>
          refine Or.inl ⟨hrun, ?_⟩
          simp only [Handler.receive]
          split
          · cases desired <;> rfl
          · rfl
      | _ => exact Or.inl ⟨hrun, rfl⟩

/-- An arm only adds to what was written. -/
theorem runArm_wrote {s s' : LoopState} {a : Arm}
    (h : runArm clip s a = some s') : ∃ ws, s'.written = s.written ++ ws := by
  cases a with
  | cancelled =>
      rw [← Option.some.inj h]
      exact ⟨[.goodbye], rfl⟩
  | pingTick clock sent =>
      by_cases hd : DEAD_AFTER < clock.instant - s.lastReceived
      · simp only [runArm, if_pos hd] at h
        rw [← Option.some.inj h]
        exact ⟨[], (List.append_nil _).symm⟩
      · simp only [runArm, if_neg hd] at h
        cases sent with
        | true =>
            rw [← Option.some.inj h]
            exact ⟨[.ping clock.millis], rfl⟩
        | false =>
            rw [← Option.some.inj h]
            exact ⟨[], (List.append_nil _).symm⟩
  | command cmd sent =>
      refine (runArm_writes h fun clock sent heq => ?_).1
      cases heq
  | clipboard text sent =>
      refine (runArm_writes h fun clock sent heq => ?_).1
      cases heq

/-- So does the read arm. -/
theorem read_wrote {s s' : LoopState} {a : KvmSessionLoop.Action} {now : Nat}
    (ha : ofRead now a = true) (h : KvmSessionLoop.step p clip s a = some s') :
    ∃ ws, s'.written = s.written ++ ws := by
  cases a with
  | arm a => cases ha
  | arrive n =>
      rw [← Option.some.inj h]
      exact ⟨[], (List.append_nil _).symm⟩
  | close =>
      rw [← Option.some.inj h]
      exact ⟨[], (List.append_nil _).symm⟩
  | poll clock replied =>
      simp only [KvmSessionLoop.step] at h
      split at h
      · cases h
      · split at h
        · split at h <;>
            (rw [← Option.some.inj h]
             exact ⟨[], (List.append_nil _).symm⟩)
        · rw [← Option.some.inj h]
          exact (dispatch_writes p clock replied _ _).1
        · rw [← Option.some.inj h]
          exact ⟨[], (List.append_nil _).symm⟩

/-- **ONE STEP** of either loop keeps the account. -/
theorem echo_step {a : KvmKeepalive.Action} (ha : ofLoop a = true)
    (h : Echo wrote w) (hs : KvmKeepalive.step p clip w a = some w') :
    Echo wrote w' := by
  cases a with
  | wait dt =>
      rw [← Option.some.inj hs]
      exact h
  | handlerPing millis =>
      simp only [KvmKeepalive.step] at hs
      split at hs
      · rename_i hen
        rw [← Option.some.inj hs]
        exact h.handler hen.1 (m := []) rfl (Or.inl ⟨hen.1, rfl⟩)
      · cases hs
  | handlerWatchdog =>
      simp only [KvmKeepalive.step] at hs
      split at hs
      · rename_i hen
        rw [← Option.some.inj hs]
        refine h.handler hen.1 (m := []) rfl ?_
        simp only [Handler.watchdog]
        split
        · refine Or.inr ⟨fun hr => ?_, rfl⟩
          cases hr
        · exact Or.inl ⟨hen.1, rfl⟩
      · cases hs
  | handlerReceive current =>
      simp only [KvmKeepalive.step] at hs
      split at hs
      · rename_i m a rest hflight
        split at hs
        · rename_i hrun
          rw [← Option.some.inj hs]
          refine h.handler hrun (m := m.toList) ?_
            (receive_pongs w.now current w.handler hrun m)
          rw [hflight]
          cases m <;> rfl
        · cases hs
      · cases hs
  | handlerSend env =>
      simp only [KvmKeepalive.step] at hs
      split at hs
      · rename_i hen
        rw [← Option.some.inj hs]
        refine h.handler hen.1 (m := []) rfl (Or.inl ⟨hen.1, ?_⟩)
        cases env with
        | pong ts => cases hen.2
        | _ => rfl
      · cases hs
  | clientPing millis sent =>
      simp only [KvmKeepalive.step] at hs
      split at hs
      · obtain ⟨s, harm, hw'⟩ := Option.map_eq_some_iff.mp hs
        rw [← hw']
        obtain ⟨ws, hws⟩ := runArm_wrote harm
        exact h.client hws _
      · cases hs
  | clientReceive millis replied => cases ha
  | clientArm a =>
      simp only [KvmKeepalive.step] at hs
      split at hs
      · obtain ⟨s, harm, hw'⟩ := Option.map_eq_some_iff.mp hs
        rw [← hw']
        obtain ⟨ws, hws⟩ := runArm_wrote harm
        exact h.client hws w.clientPing
      · cases hs

end Echoes

/-! ## What is read -/

section Frames

variable {p : Platform} {clip : Bool} {wrote : List Envelope}

/-- Another frame behind the ones that were written. -/
theorem streamInv_append {s : LoopState} (h : StreamInv wrote s)
    (e : Envelope) :
    StreamInv (wrote ++ [e]) { s with wire := s.wire ++ frame e } := by
  obtain ⟨todo, part, hsent, hbytes, hpart, hfut⟩ := h
  refine ⟨todo ++ [e], part, ?_, ?_, ?_, hfut⟩
  · rw [hsent, List.append_assoc]
  · rw [List.flatMap_append, List.flatMap_singleton, ← hbytes]
    simp only [List.append_assoc]
  · intro e' rest htodo
    cases todo with
    | nil =>
        -- nothing was left, so nothing is half-read
        have hnil : part = [] :=
          (List.append_eq_nil_iff.mp (List.append_eq_nil_iff.mp hbytes).1).1
        rw [hnil, frame_length, List.length_nil]
        omega
    | cons x xs => exact hpart e' xs (by rw [(List.cons.inj htodo).1])

/-- The loops leave the client's stream alone, apart from the future of a read
    that an arm drops. -/
theorem loop_stream {w w' : World} {a : KvmKeepalive.Action} {b : Bool}
    (ha : ofLoop a = true)
    (hfit : ∀ e ∈ wrote, (envelope.write e).length ≤ MAX_ENVELOPE_SIZE)
    (h : StreamInv wrote w.client) (hok : WholeFrames ⟨w, b⟩ (.loop a))
    (hs : KvmKeepalive.step p clip w a = some w') :
    StreamInv wrote w'.client := by
  have harms : ∀ arm s, w.client.status = .running →
      BetweenFrames w.client (.arm arm) → runArm clip w.client arm = some s →
      StreamInv wrote s := by
    intro arm s hrun hbetween harm
    have hstep : KvmSessionLoop.step p clip w.client (.arm arm) = some s := by
      simp only [KvmSessionLoop.step, hrun]
      exact harm
    exact streamInv_step hfit w.client (.arm arm) s h hbetween hstep
  cases a with
  | clientReceive millis replied => cases ha
  | clientPing millis sent =>
      simp only [KvmKeepalive.step] at hs
      split at hs
      · rename_i hen
        obtain ⟨s, harm, rfl⟩ := Option.map_eq_some_iff.mp hs
        exact harms _ s hen.1 hok harm
      · cases hs
  | clientArm arm =>
      simp only [KvmKeepalive.step] at hs
      split at hs
      · rename_i hen
        obtain ⟨s, harm, rfl⟩ := Option.map_eq_some_iff.mp hs
        exact harms _ s hen.1 hok harm
      · cases hs
  | wait dt =>
      rw [← Option.some.inj hs]
      exact h
  | handlerReceive current =>
      simp only [KvmKeepalive.step] at hs
      split at hs
      · split at hs
        · rw [← Option.some.inj hs]
          exact h
        · cases hs
      · cases hs
  | _ =>
      simp only [KvmKeepalive.step] at hs
      split at hs
      · rw [← Option.some.inj hs]
        exact h
      · cases hs

/-- What was written to the client accounts for its pings, and is what its
    loop reads. -/
structure Accounted (wrote : List Envelope) (c : Connection) : Prop where
  echo : Echo wrote c.ends
  stream : StreamInv wrote c.ends.client
  fits : ∀ e ∈ wrote, (envelope.write e).length ≤ MAX_ENVELOPE_SIZE

/-- **ONE STEP** in which no half-read frame is dropped. -/
theorem accounted_step (c : Connection) (a : Action) (c' : Connection)
    (h : ∃ wrote, Accounted wrote c) (hok : WholeFrames c a)
    (hs : step p clip c a = some c') : ∃ wrote, Accounted wrote c' := by
  obtain ⟨wrote, h⟩ := h
  cases a with
  | loop a =>
      simp only [step] at hs
      split at hs
      · rename_i ha
        obtain ⟨w, hw, rfl⟩ := Option.map_eq_some_iff.mp hs
        exact ⟨wrote, echo_step ha h.echo hw,
          loop_stream ha h.fits h.stream hok hw, h.fits⟩
      · cases hs
  | write =>
      simp only [step] at hs
      split at hs
      · rename_i e sentAt rest hqueue
        split at hs
        · split at hs
          · rename_i bytes hbytes
            obtain ⟨hle, hframe⟩ := serialize_ok hbytes
            rw [← Option.some.inj hs]
            refine ⟨wrote ++ [e], h.echo.written hqueue bytes, ?_, ?_⟩
            · have hmore := streamInv_append h.stream e
              rw [frame, ← hframe] at hmore
              exact hmore
            · intro x hx
              rcases List.mem_append.mp hx with hx | hx
              · exact h.fits x hx
              · rw [List.mem_singleton.mp hx]
                exact hle
          · rename_i err hfail
            rw [← Option.some.inj hs]
            refine ⟨wrote, h.echo.unwritten hqueue hfail, ?_, h.fits⟩
            simp only [putOnStream, List.append_nil]
            exact h.stream
        · cases hs
      · cases hs
  | read a =>
      simp only [step] at hs
      split at hs
      · rename_i hen
        obtain ⟨s, hread, rfl⟩ := Option.map_eq_some_iff.mp hs
        obtain ⟨ws, hws⟩ := read_wrote hen.2 hread
        refine ⟨wrote, h.echo.client hws c.ends.clientPing, ?_, h.fits⟩
        refine streamInv_step h.fits c.ends.client a s h.stream ?_ hread
        cases a with
        | arm a => cases hen.2
        | _ => trivial
      · cases hs

end Frames

/-- **PONGS ANSWER PINGS**: in every run in which no arm of the client's loop
    drops a half-read frame, however slow the connection, however its bytes
    are cut and whatever else is sent over it, the times in the pongs that the
    client has handled are those of its first pings, each of them once and in
    order. -/
theorem pongs_answer_pings (p : Platform) (clip : Bool) (server client : Nat)
    (acts : List Action) (c : Connection)
    (hrun : exec (step p clip) (Connection.start server client) acts = some c)
    (hframes : Guarded (step p clip) WholeFrames
      (Connection.start server client) acts) :
    pongs c.ends.client.dispatched <+: pings c.ends.client.written := by
  have hstart : Accounted [] (Connection.start server client) := by
    refine ⟨⟨[], rfl, fun _ => rfl⟩, ⟨[], [], rfl, rfl, ?_, fun _ => rfl⟩, ?_⟩
    · rintro e rest ⟨⟩
    · exact fun e he => absurd he List.not_mem_nil
  obtain ⟨wrote, hecho, hstream, -⟩ := invariant_exec accounted_step acts _ c
    ⟨[], hstart⟩ hframes hrun
  obtain ⟨rest, hpings, -⟩ := hecho
  obtain ⟨todo, -, hwrote, -⟩ := hstream
  rw [hpings, hwrote, pongs_append, List.append_assoc, List.append_assoc]
  exact List.prefix_append _ _

/-- The client pings, the server answers, and the answer arrives in two
    pieces. -/
def oneRoundInBytes : List Action :=
  [.loop .handlerWatchdog, .loop (.clientPing 5 true), .loop (.wait 10),
    .loop (.handlerReceive false), .write, .read (.arrive 9),
    .read (.poll ⟨10, 6⟩ true), .read (.arrive 7), .read (.poll ⟨10, 6⟩ true)]

/-- One round: the only pong answers the only ping. -/
theorem pongs_answer_pings_round :
    ∃ c, exec (step .linux true) (Connection.start 0 0) oneRoundInBytes
        = some c ∧
      c.ends.client.dispatched = [.pong 5] ∧
      pongs c.ends.client.dispatched <+: pings c.ends.client.written := by
  have hround : (exec (step .linux true) (Connection.start 0 0)
      oneRoundInBytes).map (fun c => c.ends.client.dispatched)
      = some [.pong 5] := by
    decide
  obtain ⟨c, hc, hheard⟩ := Option.map_eq_some_iff.mp hround
  exact ⟨c, hc, hheard, pongs_answer_pings .linux true 0 0 oneRoundInBytes c hc
    (by decide)⟩

/-- Without the condition: behind the sixteen bytes in front of a copied text
    a tick drops the read, and the text reads as a pong. -/
example :
    (exec (step .linux true) (Connection.start 0 0)
      [.loop (.handlerSend (.clipboardSet (String.ofList
        ([0, 0, 0, 12, 13, 0, 0, 0, 7, 0, 0, 0, 0, 0, 0, 0].map Char.ofNat)))),
        .write, .read (.arrive 16), .read (.poll ⟨0, 0⟩ true),
        .loop (.clientPing 5 true), .read (.arrive 16),
        .read (.poll ⟨0, 1⟩ true)]).map
          (fun c => (pongs c.ends.client.dispatched, c.ends.client.written))
      = some ([7], [.ping 5]) := by
  decide

end KvmPong
