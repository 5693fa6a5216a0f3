import KvmRs.CaptureProofs
import KvmRs.InjectProofs
import KvmRs.TransitionProofs

/-! # Switching forwarding off while input is in flight

    Three kinds of task touch `forwarding_enabled` and the clients: the
    capture thread (load the flag, decide, send into the capture channel), the
    forwarder (receive, broadcast), and one handler per client that serves its
    `ToggleForward` requests (load, store, broadcast twice).  Every
    connection delivers in order.

    `due` is a ghost: the broadcasts that remain to be made, in the order of
    the flag accesses they rest on (the load for an input, the store for a
    toggle).  Nothing in the code keeps this order.  As long as every
    broadcast is the oldest one due (`InOrder`), a client that was switched
    off gets no input and ends up holding nothing. -/

namespace KvmForwarding

open KvmEnvelope KvmKeymap KvmInject KvmCapture Transition

/-! ## Streams of envelopes -/

/-- The last toggle seen by a client, after one more envelope. -/
def toggleAfter (m : Option Bool) : Envelope → Option Bool
  | .toggleForward on => some on
  | _ => m

/-- The last toggle of a stream. -/
def lastToggle (m : Option Bool) (es : List Envelope) : Option Bool :=
  es.foldl toggleAfter m

/-- Input of the user, as opposed to `ReleaseAll`. -/
def userInput : Envelope → Bool
  | .input .releaseAll => false
  | .input _ => true
  | _ => false

/-- No user input stands between a `ToggleForward(false)` and the next
    `ToggleForward(true)`; `m` is the last toggle before the stream. -/
def QuietWhileOff : Option Bool → List Envelope → Prop
  | _, [] => True
  | m, e :: es =>
      ¬ (m = some false ∧ userInput e = true) ∧
        QuietWhileOff (toggleAfter m e) es

theorem lastToggle_append (m : Option Bool) (es fs : List Envelope) :
    lastToggle m (es ++ fs) = lastToggle (lastToggle m es) fs :=
  List.foldl_append

theorem quietWhileOff_append (m : Option Bool) (es fs : List Envelope) :
    QuietWhileOff m (es ++ fs) ↔
      QuietWhileOff m es ∧ QuietWhileOff (lastToggle m es) fs := by
  induction es generalizing m with
  | nil => exact (true_and _).symm ▸ Iff.rfl
  | cons e es ih =>
      show (_ ∧ QuietWhileOff (toggleAfter m e) (es ++ fs)) ↔ _
      rw [ih (toggleAfter m e)]
      exact and_assoc.symm

/-- The broadcasts of a toggle hold no user input. -/
theorem quietWhileOff_toggle (m : Option Bool) (on : Bool) :
    QuietWhileOff m (forwarderBroadcasts (.forwardingToggled on)) := by
  cases on with
  | true => exact ⟨fun h => (nomatch h.2), trivial⟩
  | false =>
      exact ⟨fun h => (nomatch h.2), fun h => (nomatch h.2), trivial⟩

theorem lastToggle_toggle (m : Option Bool) (on : Bool) :
    lastToggle m (forwarderBroadcasts (.forwardingToggled on)) = some on := by
  cases on <;> rfl

/-- Switching off releases everything. -/
theorem injectorAfterAll_switchOff (p : Platform) (inj : InputInjector) :
    injectorAfterAll p inj (forwarderBroadcasts (.forwardingToggled false))
      = InputInjector.new := rfl

/-! ## The tasks -/

/-- Where the capture thread is: it has loaded the flag for an event, or it
    is sending what it decided (nothing left: it waits for an event). -/
inductive CapturePc where
  | loaded (nowEnabled : Bool) (r : Readings) (ev : EventType)
  | sending (msgs : List CaptureEvent)
  deriving DecidableEq

/-- Where a client's handler is in serving a `ToggleForward` request. -/
inductive HandlerPc where
  | toStore (desired : Bool)
  | toBroadcast (es : List Envelope)
  deriving DecidableEq

variable {C : Type}

structure World (C : Type) where
  enabled : Bool
  capture : CaptureState
  capturePc : CapturePc
  captureChannel : List CaptureEvent
  forwarder : List Envelope
  handler : C → HandlerPc
  wire : C → List Envelope
  client : C → InputInjector
  received : C → List Envelope
  due : List Envelope

inductive Action (C : Type) where
  /-- The capture thread takes up an event and loads the flag. -/
  | load (r : Readings) (ev : EventType)
  /-- It decides, and stores the flag if the hotkey fired. -/
  | decide
  /-- It sends one message into the capture channel. -/
  | send
  /-- The forwarder receives one message. -/
  | recv
  /-- The forwarder makes one broadcast. -/
  | broadcast
  /-- The client's handler receives a request and loads the flag. -/
  | toggle (c : C) (desired : Bool)
  /-- The handler stores the flag. -/
  | store (c : C)
  /-- The handler makes one broadcast. -/
  | handlerBroadcast (c : C)
  /-- The client receives one envelope. -/
  | deliver (c : C)
  deriving DecidableEq

/-- Every task idle, every client fresh. -/
def World.start (C : Type) (enabled : Bool) (hotkey : Option HotkeyChord) :
    World C where
  enabled := enabled
  capture := CaptureState.start enabled hotkey
  capturePc := .sending []
  captureChannel := []
  forwarder := []
  handler := fun _ => .toBroadcast []
  wire := fun _ => []
  client := fun _ => InputInjector.new
  received := fun _ => []
  due := []

/-- `broadcast`: one envelope to every connection, under one lock. -/
def World.sendAll (w : World C) (e : Envelope) : World C :=
  { w with wire := fun c => w.wire c ++ [e], due := w.due.erase e }

/-- The input that the event will be forwarded as, as an envelope. -/
def forwarded (o : ProcessOutcome) : List Envelope :=
  (o.forward.map Envelope.input).toList

/-- The broadcasts of the toggle, if the hotkey fired. -/
def toggledBroadcasts (o : ProcessOutcome) : List Envelope :=
  (o.toggled.map CaptureEvent.forwardingToggled).toList.flatMap
    forwarderBroadcasts

/-- One step of one task. -/
def step [DecidableEq C] (p : Platform) (w : World C) :
    Action C → Option (World C)
  | .load r ev =>
      match w.capturePc with
      | .sending [] =>
          some { w with
            capturePc := .loaded w.enabled r ev
            due := w.due
              ++ forwarded (processEvent r w.enabled w.capture ev).2 }
      | _ => none
  | .decide =>
      match w.capturePc with
      | .loaded nowEnabled r ev =>
          let out := processEvent r nowEnabled w.capture ev
          some { w with
            enabled := out.2.toggled.getD w.enabled
            capture := out.1
            capturePc := .sending (captureEvents out.2)
            due := w.due ++ toggledBroadcasts out.2 }
      | _ => none
  | .send =>
      match w.capturePc with
      | .sending (m :: ms) =>
          some { w with
            capturePc := .sending ms
            captureChannel := w.captureChannel ++ [m] }
      | _ => none
  | .recv =>
      match w.forwarder, w.captureChannel with
      | [], m :: ms =>
          some { w with
            captureChannel := ms
            forwarder := forwarderBroadcasts m }
      | _, _ => none
  | .broadcast =>
      match w.forwarder with
      | e :: es => some ({ w with forwarder := es }.sendAll e)
      | [] => none
  | .toggle c desired =>
      match w.handler c with
      | .toBroadcast [] =>
          if desired ≠ w.enabled then
            some { w with
              handler := Function.update w.handler c (.toStore desired) }
          else some w
      | _ => none
  | .store c =>
      match w.handler c with
      | .toStore desired =>
          let es := forwarderBroadcasts (.forwardingToggled desired)
          some { w with
            enabled := desired
            handler := Function.update w.handler c (.toBroadcast es)
            due := w.due ++ es }
      | _ => none
  | .handlerBroadcast c =>
      match w.handler c with
      | .toBroadcast (e :: es) =>
          some ({ w with
            handler := Function.update w.handler c (.toBroadcast es) }.sendAll e)
      | _ => none
  | .deliver c =>
      match w.wire c with
      | e :: es =>
          some { w with
            wire := Function.update w.wire c es
            client := Function.update w.client c
              (injectorAfter p (w.client c) e)
            received := Function.update w.received c (w.received c ++ [e]) }
      | [] => none

/-- Nothing is in flight: every task is idle, every channel and connection
    empty. -/
structure Drained (w : World C) : Prop where
  capture : w.capturePc = .sending []
  channel : w.captureChannel = []
  forwarder : w.forwarder = []
  handler : ∀ c, w.handler c = .toBroadcast []
  wire : ∀ c, w.wire c = []

/-- Once off and drained no client holds anything, and no client that was
    switched off received user input. -/
def OffMeansReleased (w : World C) : Prop :=
  (w.enabled = false → Drained w → ∀ c,
      (w.client c).heldKeys = [] ∧ (w.client c).heldButtons = []) ∧
    ∀ c, QuietWhileOff none (w.received c)

/-- Every broadcast is the oldest one due. -/
def InOrder (w : World C) : Action C → Prop
  | .broadcast =>
      ∀ e es, w.forwarder = e :: es → w.due.head? = some e
  | .handlerBroadcast c =>
      ∀ e es, w.handler c = .toBroadcast (e :: es) → w.due.head? = some e
  | _ => True

/-! ## One client's stream -/

/-- What one client has received and what is still ahead of it, against the
    flag: no user input while off, the last toggle is not behind the flag,
    and with the flag off everything ends released. -/
structure StreamOk (p : Platform) (enabled : Bool) (client : InputInjector)
    (received ahead : List Envelope) : Prop where
  quiet : QuietWhileOff none (received ++ ahead)
  toggle : lastToggle none (received ++ ahead) = some false → enabled = false
  released : enabled = false →
    injectorAfterAll p client ahead = InputInjector.new

section Streams

variable {p : Platform} {enabled : Bool} {client : InputInjector}
  {received ahead : List Envelope}

/-- Input taken up while the flag is on may join the stream. -/
theorem StreamOk.input (h : StreamOk p true client received ahead)
    (ev : Event) : StreamOk p true client received (ahead ++ [.input ev]) := by
  have hon : lastToggle none (received ++ ahead) ≠ some false :=
    fun hm => nomatch h.toggle hm
  refine ⟨?_, ?_, fun h => nomatch h⟩
  · rw [← List.append_assoc, quietWhileOff_append]
    exact ⟨h.quiet, fun hm => hon hm.1, trivial⟩
  · rw [← List.append_assoc, lastToggle_append]
    exact fun hm => absurd hm hon

/-- A toggle may always join it, and sets the flag. -/
theorem StreamOk.switch (h : StreamOk p enabled client received ahead)
    (on : Bool) : StreamOk p on client received
      (ahead ++ forwarderBroadcasts (.forwardingToggled on)) := by
  refine ⟨?_, ?_, ?_⟩
  · rw [← List.append_assoc, quietWhileOff_append]
    exact ⟨h.quiet, quietWhileOff_toggle _ on⟩
  · rw [← List.append_assoc, lastToggle_append, lastToggle_toggle]
    exact fun hm => Option.some.inj hm
  · rintro rfl
    rw [injectorAfterAll_append, injectorAfterAll_switchOff]

/-- Delivery moves the front of the stream. -/
theorem StreamOk.deliver {e : Envelope}
    (h : StreamOk p enabled client received (e :: ahead)) :
    StreamOk p enabled (injectorAfter p client e) (received ++ [e]) ahead := by
  have hstream : received ++ [e] ++ ahead = received ++ e :: ahead := by
    rw [List.append_assoc, List.singleton_append]
  exact ⟨hstream ▸ h.quiet, hstream ▸ h.toggle, h.released⟩

end Streams

/-! ## The invariant -/

/-- What the capture thread still owes. -/
def capturePending (st : CaptureState) : CapturePc → List Envelope
  | .loaded nowEnabled r ev => forwarded (processEvent r nowEnabled st ev).2
  | .sending msgs => msgs.flatMap forwarderBroadcasts

/-- What a handler still owes. -/
def handlerPending : HandlerPc → List Envelope
  | .toStore _ => []
  | .toBroadcast es => es

variable [Fintype C]

/-- How many broadcasts are in flight. -/
def pendingCount (w : World C) : Nat :=
  (capturePending w.capture w.capturePc).length
    + (w.captureChannel.flatMap forwarderBroadcasts).length
    + w.forwarder.length
    + ∑ c, (handlerPending (w.handler c)).length

/-- The invariant: `due` counts what is in flight, and every client's stream,
    with `due` behind it, agrees with the flag. -/
structure Ordered (p : Platform) (w : World C) : Prop where
  count : w.due.length = pendingCount w
  stream : ∀ c,
    StreamOk p w.enabled (w.client c) (w.received c) (w.wire c ++ w.due)

theorem ordered_start (p : Platform) (enabled : Bool)
    (hotkey : Option HotkeyChord) :
    Ordered p (World.start C enabled hotkey) where
  count := by
    have hzero : ∑ _c : C, (handlerPending (.toBroadcast [])).length = 0 :=
      Finset.sum_const_zero
    show 0 = 0 + 0 + 0 + ∑ _c : C, (handlerPending (.toBroadcast [])).length
    rw [hzero]
  stream := fun _ => ⟨trivial, fun h => (nomatch h), fun _ => rfl⟩

theorem Ordered.due_nil {p : Platform} {w : World C} (h : Ordered p w)
    (hd : Drained w) : w.due = [] := by
  have hzero : pendingCount w = 0 := by
    simp only [pendingCount, hd.capture, hd.channel, hd.forwarder, hd.handler,
      capturePending, handlerPending, List.flatMap_nil, List.length_nil,
      Finset.sum_const_zero, Nat.add_zero]
  exact List.length_eq_zero_iff.mp (h.count.trans hzero)

theorem Ordered.offMeansReleased {p : Platform} {w : World C}
    (h : Ordered p w) : OffMeansReleased w := by
  refine ⟨?_, ?_⟩
  · intro hoff hd c
    have hrel := (h.stream c).released hoff
    rw [h.due_nil hd, hd.wire c] at hrel
    have hnew : w.client c = InputInjector.new := hrel
    rw [hnew]
    exact ⟨rfl, rfl⟩
  · intro c
    exact ((quietWhileOff_append _ _ _).mp (h.stream c).quiet).1

/-! ## One step -/

/-- What `process_event` forwards was taken up with the flag on. -/
theorem forwarded_cases (r : Readings) (en : Bool) (st : CaptureState)
    (ev : EventType) :
    forwarded (processEvent r en st ev).2 = [] ∨
      (en = true ∧ ∃ e, forwarded (processEvent r en st ev).2 = [.input e]) := by
  cases hf : (processEvent r en st ev).2.forward with
  | none => exact Or.inl (by simp only [forwarded, hf]; rfl)
  | some e =>
      refine Or.inr ⟨(forward_only_enabled hf).1, e, ?_⟩
      simp only [forwarded, hf]
      rfl

/-- The capture thread sends the toggle and the input of one decision. -/
theorem captureEvents_broadcasts (o : ProcessOutcome) :
    (captureEvents o).flatMap forwarderBroadcasts
      = toggledBroadcasts o ++ forwarded o := by
  rw [captureEvents, List.flatMap_append]
  cases hf : o.forward with
  | none => simp only [forwarded, hf]; rfl
  | some e => simp only [forwarded, hf]; rfl

/-- The broadcast that is due next leaves every stream as it is. -/
theorem Ordered.sendAll {p : Platform} {w : World C} {e : Envelope}
    {rest : List Envelope} (hdue : w.due = e :: rest)
    (hstream : ∀ c,
      StreamOk p w.enabled (w.client c) (w.received c) (w.wire c ++ w.due))
    (hcount : rest.length = pendingCount w) : Ordered p (w.sendAll e) := by
  have hrest : (w.sendAll e).due = rest := by
    show w.due.erase e = rest
    rw [hdue, List.erase_cons_head]
  refine ⟨?_, ?_⟩
  · rw [hrest]
    exact hcount
  · intro c
    rw [hrest]
    show StreamOk p w.enabled (w.client c) (w.received c)
      (w.wire c ++ [e] ++ rest)
    rw [List.append_assoc, List.singleton_append, ← hdue]
    exact hstream c

/-- The capture thread takes up an event: its input is due from now on. -/
theorem Ordered.load {p : Platform} {w : World C} (h : Ordered p w)
    (hpc : w.capturePc = .sending []) (r : Readings) (ev : EventType) :
    Ordered p { w with
      capturePc := .loaded w.enabled r ev
      due := w.due ++ forwarded (processEvent r w.enabled w.capture ev).2 } := by
  refine ⟨?_, ?_⟩
  · have hcount := h.count
    simp only [pendingCount, hpc, capturePending, List.flatMap_nil,
      List.length_nil, List.length_append] at hcount ⊢
    omega
  · intro c
    have hc := h.stream c
    rcases forwarded_cases r w.enabled w.capture ev with hf | ⟨hen, e, hf⟩
    · rw [hf, List.append_nil]
      exact hc
    · rw [hf, ← List.append_assoc]
      rw [hen] at hc
      simp only [hen]
      exact hc.input e

/-- It decides: the toggle, if there is one, is due behind everything else. -/
theorem Ordered.decide {p : Platform} {w : World C} (h : Ordered p w)
    {en : Bool} {r : Readings} {ev : EventType}
    (hpc : w.capturePc = .loaded en r ev) :
    Ordered p { w with
      enabled := (processEvent r en w.capture ev).2.toggled.getD w.enabled
      capture := (processEvent r en w.capture ev).1
      capturePc := .sending (captureEvents (processEvent r en w.capture ev).2)
      due := w.due
        ++ toggledBroadcasts (processEvent r en w.capture ev).2 } := by
  refine ⟨?_, ?_⟩
  · have hcount := h.count
    simp only [pendingCount, hpc, capturePending, List.length_append,
      captureEvents_broadcasts] at hcount ⊢
    omega
  · intro c
    cases ht : (processEvent r en w.capture ev).2.toggled with
    | none =>
        simp only [toggledBroadcasts, ht]
        show StreamOk p w.enabled (w.client c) (w.received c)
          (w.wire c ++ (w.due ++ []))
        rw [List.append_nil]
        exact h.stream c
    | some on =>
        simp only [toggledBroadcasts, ht]
        show StreamOk p on (w.client c) (w.received c)
          (w.wire c ++ (w.due ++
            (forwarderBroadcasts (.forwardingToggled on) ++ [])))
        rw [List.append_nil, ← List.append_assoc]
        exact (h.stream c).switch on

/-- One handler moves: its share of what is in flight is replaced. -/
theorem pendingCount_handler [DecidableEq C] (w : World C) (c : C)
    (pc : HandlerPc) :
    pendingCount { w with handler := Function.update w.handler c pc }
        + (handlerPending (w.handler c)).length
      = pendingCount w + (handlerPending pc).length := by
  have hsum := sum_update (fun _ h => (handlerPending h).length)
    w.handler c pc
  simp only [pendingCount]
  omega

/-- A handler stores the flag: its broadcasts are due behind everything
    else. -/
theorem Ordered.store [DecidableEq C] {p : Platform} {w : World C}
    (h : Ordered p w) {c : C} {desired : Bool}
    (hh : w.handler c = .toStore desired) :
    Ordered p { w with
      enabled := desired
      handler := Function.update w.handler c
        (.toBroadcast (forwarderBroadcasts (.forwardingToggled desired)))
      due := w.due ++ forwarderBroadcasts (.forwardingToggled desired) } := by
  refine ⟨?_, ?_⟩
  · have hcount := h.count
    have hmove := pendingCount_handler w c
      (.toBroadcast (forwarderBroadcasts (.forwardingToggled desired)))
    simp only [pendingCount, hh, handlerPending, List.length_nil,
      List.length_append] at hcount hmove ⊢
    omega
  · intro c'
    rw [← List.append_assoc]
    exact (h.stream c').switch desired

/-- A client receives the front of its stream. -/
theorem Ordered.deliver [DecidableEq C] {p : Platform} {w : World C}
    (h : Ordered p w) {c : C} {e : Envelope} {es : List Envelope}
    (hw : w.wire c = e :: es) :
    Ordered p { w with
      wire := Function.update w.wire c es
      client := Function.update w.client c (injectorAfter p (w.client c) e)
      received := Function.update w.received c (w.received c ++ [e]) } := by
  refine ⟨h.count, ?_⟩
  intro c'
  by_cases hc : c' = c
  · rw [hc]
    have hstream := h.stream c
    rw [hw, List.cons_append] at hstream
    simp only [Function.update_self]
    exact hstream.deliver
  · simp only [Function.update_of_ne hc]
    exact h.stream c'

/-- **ONE STEP**: every step in which no broadcast overtakes an older one
    keeps the invariant. -/
theorem ordered_step [DecidableEq C] {p : Platform} (w : World C)
    (a : Action C) (w' : World C) (h : Ordered p w) (hok : InOrder w a)
    (hs : step p w a = some w') : Ordered p w' := by
  have hcount := h.count
  cases a with
  | load r ev =>
      simp only [step] at hs
      split at hs
      · rename_i hpc
        rw [← Option.some.inj hs]
        exact h.load hpc r ev
      · cases hs
  | decide =>
      simp only [step] at hs
      split at hs
      · rename_i hpc
        rw [← Option.some.inj hs]
        exact h.decide hpc
      · cases hs
  | send =>
      simp only [step] at hs
      split at hs
      · rename_i m ms hpc
        rw [← Option.some.inj hs]
        refine ⟨?_, h.stream⟩
        simp only [pendingCount, hpc, capturePending, List.flatMap_cons,
          List.flatMap_append, List.flatMap_nil, List.append_nil,
          List.length_append] at hcount ⊢
        omega
      · cases hs
  | recv =>
      simp only [step] at hs
      split at hs
      · rename_i m ms hf hch
        rw [← Option.some.inj hs]
        refine ⟨?_, h.stream⟩
        simp only [pendingCount, hf, hch, List.flatMap_cons,
          List.length_append, List.length_nil] at hcount ⊢
        omega
      · cases hs
  | broadcast =>
      simp only [step] at hs
      split at hs
      · rename_i e es hf
        rw [← Option.some.inj hs]
        obtain ⟨rest, hdue⟩ := List.head?_eq_some_iff.mp (hok e es hf)
        refine Ordered.sendAll hdue h.stream ?_
        simp only [pendingCount, hf, hdue, List.length_cons] at hcount ⊢
        omega
      · cases hs
  | toggle c desired =>
      simp only [step] at hs
      split at hs
      · rename_i hh
        split at hs
        · rw [← Option.some.inj hs]
          refine ⟨?_, h.stream⟩
          have hmove := pendingCount_handler w c (.toStore desired)
          simp only [hh, handlerPending, List.length_nil] at hmove ⊢
          omega
        · rw [← Option.some.inj hs]
          exact h
      · cases hs
  | store c =>
      simp only [step] at hs
      split at hs
      · rename_i desired hh
        rw [← Option.some.inj hs]
        exact h.store hh
      · cases hs
  | handlerBroadcast c =>
      simp only [step] at hs
      split at hs
      · rename_i e es hh
        rw [← Option.some.inj hs]
        obtain ⟨rest, hdue⟩ := List.head?_eq_some_iff.mp (hok e es hh)
        refine Ordered.sendAll hdue h.stream ?_
        have hmove := pendingCount_handler w c (.toBroadcast es)
        simp only [hh, hdue, handlerPending, List.length_cons]
          at hcount hmove ⊢
        omega
      · cases hs
  | deliver c =>
      simp only [step] at hs
      split at hs
      · rename_i e es hw
        rw [← Option.some.inj hs]
        exact h.deliver hw
      · cases hs

/-! ## Whole runs -/

/-- **OFF MEANS RELEASED**: with any number of clients, any chord and any
    interleaving in which no broadcast overtakes an older one, a drained
    server that is off has clients that hold nothing, and no client gets user
    input between a switch-off and the next switch-on. -/
theorem off_means_released [DecidableEq C] (p : Platform) (enabled : Bool)
    (hotkey : Option HotkeyChord) (acts : List (Action C)) (w : World C)
    (hrun : exec (step p) (World.start C enabled hotkey) acts = some w)
    (hok : Guarded (step p) InOrder (World.start C enabled hotkey) acts) :
    OffMeansReleased w :=
  (invariant_exec ordered_step acts _ w (ordered_start p enabled hotkey)
    hok hrun).offMeansReleased

instance inOrderDecidable (w : World C) (a : Action C) :
    Decidable (InOrder w a) :=
  match a with
  | .broadcast =>
      match h : w.forwarder with
      | [] => isTrue (fun e es he => by rw [h] at he; exact nomatch he)
      | e :: es =>
          decidable_of_iff (w.due.head? = some e)
            ⟨fun hd e' es' he => by
                rw [h] at he
                exact (List.cons.inj he).1 ▸ hd,
              fun hd => hd e es h⟩
  | .handlerBroadcast c =>
      match h : w.handler c with
      | .toStore _ => isTrue (fun e es he => by rw [h] at he; exact nomatch he)
      | .toBroadcast [] =>
          isTrue (fun e es he => by rw [h] at he; exact nomatch he)
      | .toBroadcast (e :: es) =>
          decidable_of_iff (w.due.head? = some e)
            ⟨fun hd e' es' he => by
                rw [h] at he
                exact (List.cons.inj (HandlerPc.toBroadcast.inj he)).1 ▸ hd,
              fun hd => hd e es h⟩
  | .load _ _ => isTrue trivial
  | .decide => isTrue trivial
  | .send => isTrue trivial
  | .recv => isTrue trivial
  | .toggle _ _ => isTrue trivial
  | .store _ => isTrue trivial
  | .deliver _ => isTrue trivial

/-- A key press taken up while forwarding is on, up to its sending. -/
def typeA : List (Action (Fin 2)) :=
  [.load Readings.zero (.keyPress .keyA), .decide, .send]

/-- Client 0 asks for forwarding to stop and its handler serves it. -/
def switchOff : List (Action (Fin 2)) :=
  [.toggle 0 false, .store 0, .handlerBroadcast 0, .handlerBroadcast 0]

/-- Both clients receive three envelopes. -/
def deliverAll : List (Action (Fin 2)) :=
  [.deliver 0, .deliver 0, .deliver 0, .deliver 1, .deliver 1, .deliver 1]

/-- A run that meets the condition: the key press is broadcast before the
    switch-off, and the client ends up holding nothing. -/
theorem off_means_released_after_key :
    ∃ w : World (Fin 2), OffMeansReleased w ∧ w.enabled = false ∧
      w.received 1 = [.input (.keyPress 30 0), .input .releaseAll,
        .toggleForward false] := by
  have hrun : (exec (step .linux) (World.start (Fin 2) true none)
      (typeA ++ [.recv, .broadcast] ++ switchOff ++ deliverAll)).map
        (fun w => (w.enabled, w.received 1))
      = some (false, [.input (.keyPress 30 0), .input .releaseAll,
          .toggleForward false]) := by
    decide
  obtain ⟨w, hw, hv⟩ := Option.map_eq_some_iff.mp hrun
  refine ⟨w, off_means_released .linux true none _ w hw (by decide), ?_, ?_⟩
  · exact congrArg Prod.fst hv
  · exact congrArg Prod.snd hv

/-- **INPUT OVERTAKEN BY A SWITCH-OFF STAYS HELD**: a key press has been sent
    into the capture channel when client 0's handler stores `false` and makes
    both its broadcasts; only then does the forwarder broadcast the press.
    Forwarding is off, nothing is in flight, and client 1 holds `a`. -/
theorem off_leaves_key_held :
    ∃ w : World (Fin 2),
      exec (step .linux) (World.start (Fin 2) true none)
        (typeA ++ switchOff ++ [.recv, .broadcast] ++ deliverAll) = some w ∧
      w.enabled = false ∧ Drained w ∧
      (w.client 1).heldKeys = [.unicode 'a'] ∧ ¬ OffMeansReleased w := by
  refine ⟨_, rfl, rfl, ⟨rfl, rfl, rfl, ?_, ?_⟩, by decide, ?_⟩
  · decide
  · decide
  · rintro ⟨-, hquiet⟩
    exact (hquiet 1).2.2.1 ⟨rfl, rfl⟩

end KvmForwarding
