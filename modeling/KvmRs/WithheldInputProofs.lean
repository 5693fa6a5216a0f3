import KvmRs.ControlProofs
import KvmRs.ForwardingProofs

/-! # Input withheld under `grab`

    The capture thread in front of the whole control channel: it loads the
    flag, decides, and sends what it decided to the forwarder, which
    broadcasts it to the registry.  The handlers of all connections come and
    go meanwhile.

    An event is withheld because forwarding is on, whoever is connected.  What
    becomes of it is decided later, by the registry of the moment in which the
    forwarder broadcasts it: it goes to everyone who is registered then, and
    to nobody if there is no one. -/

namespace KvmWithheld

open KvmEnvelope KvmKeymap KvmCapture KvmForwarding KvmControl Transition

/-- The envelopes of keys, buttons and the wheel. -/
def isWithholdable : Envelope → Bool
  | .input .releaseAll => false
  | .input (.mouseDelta _ _) => false
  | .input _ => true
  | _ => false

/-- The press or release of the hotkey's base key, consumed by the hotkey. -/
def consumedByHotkey (st : CaptureState) : EventType → Bool
  | .keyPress k =>
      consumesChord st.hotkey k (computeModifiers (insert k st.pressedKeys))
  | .keyRelease k => decide (k ∈ st.hotkeySwallowedKeys)
  | _ => false

/-- The event, if `handle_grab_event` withholds it and not for the hotkey,
    with what it is forwarded as. -/
def withheldBy (r : Readings) (enabled : Bool) (st : CaptureState)
    (ev : EventType) : List (EventType × Option Event) :=
  let out := (processEvent r enabled st ev).2
  if out.swallow = true ∧ consumedByHotkey st ev = false then
    [(ev, out.forward)]
  else []

/-! ## What the callback owes for a withheld event -/

/-- The toggle's broadcasts are no input of a key, button or wheel. -/
theorem toggle_not_withholdable (toggled : Option Bool) :
    ((toggled.map CaptureEvent.forwardingToggled).toList.flatMap
      forwarderBroadcasts).filter isWithholdable = [] := by
  cases toggled with
  | none => rfl
  | some on => cases on <;> rfl

theorem emitted_filter (o : ProcessOutcome) :
    (emitted o).filter isWithholdable
      = ((o.forward.map Envelope.input).toList).filter isWithholdable := by
  rw [emitted, captureEvents, List.flatMap_append, List.filter_append,
    toggle_not_withholdable, List.nil_append]
  cases o.forward <;> rfl

/-- An event that is not about the hotkey. -/
theorem forwardIf_withheld {enabled : Bool} {ev : EventType} {e : Event}
    (h : isWithholdable (.input e) = true) :
    (if (forwardIf enabled e).swallow = true ∧ false = false then
        [(ev, (forwardIf enabled e).forward)]
      else []).map (fun entry => entry.2.map Envelope.input)
      = ((emitted (forwardIf enabled e)).filter isWithholdable).map some := by
  rw [emitted_filter]
  cases enabled with
  | false => rfl
  | true =>
      show [some (Envelope.input e)]
        = (List.filter isWithholdable [.input e]).map some
      rw [List.filter_singleton, h]
      rfl

/-- **WHAT IS WITHHELD IS FORWARDED**: of the keys, buttons and wheel turns,
    an event makes the forwarder broadcast exactly what is withheld of it. -/
theorem withheldBy_eq (r : Readings) (enabled : Bool) (st : CaptureState)
    (ev : EventType) :
    (withheldBy r enabled st ev).map (fun entry => entry.2.map Envelope.input)
      = ((emitted (processEvent r enabled st ev).2).filter
          isWithholdable).map some := by
  cases ev with
  | keyPress k =>
      by_cases hc : Completes st k
      · obtain ⟨-, -, -, -, hforward, -⟩ :=
          @processEvent_keyPress_chord r enabled st k hc
        have hcons : consumedByHotkey st (.keyPress k) = true := hc
        rw [emitted_filter, withheldBy, hforward, hcons]
        simp
      · obtain ⟨-, -, -, hout⟩ :=
          @processEvent_keyPress_plain r enabled st k hc
        have hcons : consumedByHotkey st (.keyPress k) = false :=
          Bool.eq_false_of_not_eq_true hc
        rw [withheldBy, hout, hcons]
        exact forwardIf_withheld rfl
  | keyRelease k =>
      by_cases hc : k ∈ st.hotkeySwallowedKeys
      · obtain ⟨-, -, -, hout⟩ :=
          @processEvent_keyRelease_swallowed r enabled st k hc
        have hcons : consumedByHotkey st (.keyRelease k) = true :=
          decide_eq_true hc
        rw [withheldBy, hout, hcons]
        rfl
      · obtain ⟨-, -, -, hout⟩ :=
          @processEvent_keyRelease_plain r enabled st k hc
        have hcons : consumedByHotkey st (.keyRelease k) = false :=
          decide_eq_false hc
        rw [withheldBy, hout, hcons]
        exact forwardIf_withheld rfl
  | buttonPress b => exact forwardIf_withheld rfl
  | buttonRelease b => exact forwardIf_withheld rfl
  | wheel deltaX deltaY => exact forwardIf_withheld rfl
  | mouseMove x y =>
      obtain ⟨hswallow, -, hforward⟩ := processEvent_mouseMove r enabled st x y
      rw [emitted_filter, withheldBy, hswallow]
      rcases hforward with hnone | ⟨-, dx, dy, hmove⟩
      · rw [hnone]
        rfl
      · rw [hmove]
        rfl

/-! ## The tasks -/

variable {C Ip : Type}

/-- `withheld` are the events kept from the local OS, `broadcasts` what the
    forwarder has broadcast and to whom. -/
structure World (C Ip : Type) where
  server : KvmControl.World C Ip
  capture : CaptureState
  capturePc : CapturePc
  captureChannel : List CaptureEvent
  forwarder : List Envelope
  withheld : List (EventType × Option Event)
  broadcasts : List (Envelope × Finset C)

inductive Action (C : Type) where
  /-- A handler, the clipboard watcher, the shutdown or the clock. -/
  | server (a : KvmControl.Action C)
  /-- The capture thread takes up an event and loads the flag. -/
  | load (r : Readings) (ev : EventType)
  /-- It decides, and stores the flag if the hotkey fired. -/
  | decide
  /-- It sends one message into the capture channel. -/
  | send
  /-- The forwarder receives one message. -/
  | recv
  /-- The forwarder makes one broadcast. -/
  | broadcast
  deriving DecidableEq

def World.start (C Ip : Type) (paired : List String) (enabled : Bool)
    (hotkey : Option HotkeyChord) : World C Ip where
  server := KvmControl.World.start C Ip paired enabled
  capture := CaptureState.start enabled hotkey
  capturePc := .sending []
  captureChannel := []
  forwarder := []
  withheld := []
  broadcasts := []

/-- The capture thread and the forwarder have steps of their own. -/
def elsewhere : KvmControl.Action C → Bool
  | .hotkey _ => false
  | .broadcast (.clipboardSet _) => true
  | .broadcast .goodbye => true
  | .broadcast _ => false
  | _ => true

/-- One step of one task. -/
def step [DecidableEq C] [DecidableEq Ip] (k : Settings) (ip : C → Ip)
    (w : World C Ip) : Action C → Option (World C Ip)
  | .server a =>
      if elsewhere a then
        (KvmControl.step k ip w.server a).map fun server =>
          { w with server := server }
      else none
  | .load r ev =>
      match w.capturePc with
      | .sending [] =>
          some { w with capturePc := .loaded w.server.forwardingEnabled r ev }
      | _ => none
  | .decide =>
      match w.capturePc with
      | .loaded nowEnabled r ev =>
          let out := processEvent r nowEnabled w.capture ev
          some { w with
            server := { w.server with
              forwardingEnabled :=
                out.2.toggled.getD w.server.forwardingEnabled }
            capture := out.1
            capturePc := .sending (captureEvents out.2)
            withheld := w.withheld ++ withheldBy r nowEnabled w.capture ev }
      | _ => none
  | .send =>
      match w.capturePc with
      | .sending (m :: ms) =>
          some { w with
            capturePc := .sending ms
            captureChannel := w.captureChannel ++ [m] }
      | _ => none
  | .recv =>
      match w.forwarder, w.captureChannel with
      | [], m :: ms =>
          some { w with
            captureChannel := ms
            forwarder := forwarderBroadcasts m }
      | _, _ => none
  | .broadcast =>
      match w.forwarder with
      | e :: es =>
          some { w with
            server := w.server.broadcast e
            forwarder := es
            broadcasts := w.broadcasts ++ [(e, w.server.registry)] }
      | [] => none

/-- What is decided and not yet broadcast, in order. -/
def inFlight (w : World C Ip) : List Envelope :=
  w.forwarder ++ w.captureChannel.flatMap forwarderBroadcasts
    ++ match w.capturePc with
      | .loaded _ _ _ => []
      | .sending msgs => msgs.flatMap forwarderBroadcasts

/-- What a client has been sent of keys, buttons and the wheel. -/
def heard (x : Conn) : List Envelope := x.sent.filter isWithholdable

/-! ## The handlers send no input -/

/-- What the handler is about to broadcast is no input. -/
def Clean : Phase → Prop
  | .broadcasting es => ∀ e ∈ es, isWithholdable e = false
  | _ => True

/-- A handler's own step: nothing of the kind is sent or prepared. -/
structure Silent (x y : Conn) : Prop where
  heard : heard y = heard x
  clean : Clean y.phase

/-- What is sent is no input, and neither is what is prepared. -/
theorem silent_sent {x y : Conn} {es : List Envelope}
    (hsent : y.sent = x.sent ++ es)
    (hes : ∀ e ∈ es, isWithholdable e = false) (hph : Clean y.phase) :
    Silent x y where
  heard := by
    have hnone : es.filter isWithholdable = [] := by
      rw [List.filter_eq_nil_iff]
      intro e he
      rw [hes e he]
      exact Bool.false_ne_true
    rw [heard, heard, hsent, List.filter_append, hnone]
    exact List.append_nil _
  clean := hph

theorem silent_goto {x : Conn} {ph : Phase} {es : List Envelope}
    (hes : ∀ e ∈ es, isWithholdable e = false) (hph : Clean ph) :
    Silent x (x.goto ph es) := silent_sent rfl hes hph

theorem Silent.refl {x : Conn} (h : Clean x.phase) : Silent x x := ⟨rfl, h⟩

/-- Reading an envelope. -/
theorem silent_onEnvelope {enabled : Bool} {now : Nat} {x y : Conn}
    {e : Envelope} (h : onEnvelope enabled now x e = some y) : Silent x y := by
  have hgoto : ∀ {x' : Conn} {ph : Phase} {es : List Envelope},
      x'.sent = x.sent → (∀ e ∈ es, isWithholdable e = false) → Clean ph →
      Silent x (x'.goto ph es) := by
    intro x' ph es hsent hes hph
    refine silent_sent ?_ hes hph
    show x'.sent ++ es = x.sent ++ es
    rw [hsent]
  cases hp : x.phase <;> simp only [onEnvelope, hp, reduceCtorEq] at h
  case hello =>
      cases e <;> simp only [Option.some.injEq] at h
      case hello name version caps =>
          split at h <;> rw [← Option.some.inj h] <;>
            exact hgoto rfl (by simp [isWithholdable]) trivial
      all_goals
        rw [← h]
        exact hgoto rfl (by simp [isWithholdable]) trivial
  case awaitingPair =>
      cases e <;> simp only [Option.some.injEq] at h <;> rw [← h] <;>
        exact hgoto rfl (by simp [isWithholdable]) trivial
  case looping =>
      cases e <;> simp only [Option.some.injEq] at h <;> rw [← h]
      case toggleForward desired =>
          refine hgoto rfl (by simp) ?_
          split <;> trivial
      case goodbye => exact hgoto rfl (by simp) trivial
      case ping ts => exact hgoto rfl (by simp [isWithholdable]) trivial
      case clipboardSet text => exact hgoto rfl (by simp) trivial
      all_goals exact silent_sent (List.append_nil _).symm (by simp) trivial

section Handlers

variable [DecidableEq C] {w w' : KvmControl.World C Ip} {c : C}

/-- One connection is replaced. -/
theorem silent_set (hclean : ∀ d, Clean (w.conns d).phase) {x : Conn}
    (hx : Silent (w.conns c) x)
    (hconns : w'.conns = Function.update w.conns c x) (d : C) :
    Silent (w.conns d) (w'.conns d) := by
  rw [hconns]
  by_cases hd : d = c
  · rw [hd, Function.update_self]
    exact hx
  · rw [Function.update_of_ne hd]
    exact Silent.refl (hclean d)

/-- A broadcast of something else. -/
theorem silent_broadcast (hclean : ∀ d, Clean (w.conns d).phase) {e : Envelope}
    (he : isWithholdable e = false) (d : C) :
    Silent (w.conns d) ((w.broadcast e).conns d) := by
  simp only [KvmControl.World.broadcast]
  split
  · refine silent_sent rfl ?_ (hclean d)
    intro e' he'
    rw [List.mem_singleton.mp he']
    exact he
  · exact Silent.refl (hclean d)

theorem Silent.trans {x y z : Conn} (h : Silent x y) (h' : Silent y z) :
    Silent x z := ⟨h'.heard.trans h.heard, h'.clean⟩

variable [DecidableEq Ip] {k : Settings} {ip : C → Ip}

/-- A handler's step outside its reads. -/
theorem silent_advance (hclean : ∀ d, Clean (w.conns d).phase)
    (hs : advance k ip w c = some w') (d : C) :
    Silent (w.conns d) (w'.conns d) := by
  have hset : ∀ {x : Conn} {es : List Envelope} {v : KvmControl.World C Ip},
      v.conns = Function.update w.conns c x →
      x.sent = (w.conns c).sent ++ es →
      (∀ e ∈ es, isWithholdable e = false) → Clean x.phase →
      Silent (w.conns d) (v.conns d) :=
    fun hconns hsent hes hph =>
      silent_set hclean (silent_sent hsent hes hph) hconns d
  cases hp : (w.conns c).phase <;>
    simp only [advance, hp, reduceCtorEq] at hs
  case checking req =>
      rw [← Option.some.inj hs]
      split <;> exact hset rfl rfl (by simp [isWithholdable]) trivial
  case readingConfig req =>
      rw [← Option.some.inj hs]
      refine hset rfl rfl (by simp) ?_
      show Clean (if _ then _ else _)
      split <;> trivial
  case comparing req =>
      split at hs <;> rw [← Option.some.inj hs] <;>
        exact hset rfl rfl (by simp [isWithholdable]) trivial
  case registering req =>
      rw [← Option.some.inj hs]
      refine hset rfl rfl (by simp) ?_
      show Clean (if _ then _ else _)
      split <;> trivial
  case firstClient =>
      split at hs <;> rw [← Option.some.inj hs]
      · refine hset rfl rfl ?_ ?_
        · split <;> simp [isWithholdable]
        · trivial
      · exact hset rfl rfl (by simp) trivial
  case storing desired =>
      rw [← Option.some.inj hs]
      refine hset rfl rfl (by simp) ?_
      -- a toggle's broadcasts are prepared
      show ∀ e ∈ toggleBroadcasts desired, isWithholdable e = false
      cases desired <;> simp [toggleBroadcasts, isWithholdable]
  case broadcasting es =>
      have hes : ∀ e ∈ es, isWithholdable e = false := by
        have hc := hclean c
        rw [hp] at hc
        exact hc
      cases es with
      | nil =>
          simp only at hs
          rw [← Option.some.inj hs]
          exact hset rfl rfl (by simp) trivial
      | cons e es =>
          simp only at hs
          rw [← Option.some.inj hs]
          have hrest : Clean (.broadcasting es) :=
            fun e' he' => hes e' (List.mem_cons_of_mem e he')
          have hgo : ∀ d', Silent (w.conns d')
              ((w.set c ((w.conns c).goto (.broadcasting es) [])).conns d') :=
            silent_set hclean (silent_goto (by simp) hrest) rfl
          exact (hgo d).trans (silent_broadcast (fun d' => (hgo d').clean)
            (hes e (List.mem_cons_self ..)) d)
  case leaving =>
      rw [← Option.some.inj hs]
      refine hset rfl rfl (by simp) ?_
      show Clean (if _ then _ else _)
      split <;> trivial
  all_goals
    rw [← Option.some.inj hs]
    exact hset rfl rfl (by simp [isWithholdable]) trivial

/-- **THE HANDLERS SEND NO INPUT**, nor do the other tasks: a client is sent
    keys, buttons and the wheel by the forwarder alone. -/
theorem silent_step {a : KvmControl.Action C} (ha : elsewhere a = true)
    (hclean : ∀ d, Clean (w.conns d).phase)
    (hs : KvmControl.step k ip w a = some w') (d : C) :
    Silent (w.conns d) (w'.conns d) := by
  have hset : ∀ {c : C} {ph : Phase} {es : List Envelope},
      (∀ e ∈ es, isWithholdable e = false) → Clean ph →
      Silent (w.conns d) ((w.set c ((w.conns c).goto ph es)).conns d) :=
    fun hes hph => silent_set hclean (silent_goto hes hph) rfl d
  cases a with
  | receive c e =>
      obtain ⟨x, hx, rfl⟩ := Option.map_eq_some_iff.mp hs
      have hread : Silent (w.conns c) { x with received := x.received ++ [e] } :=
        ⟨(silent_onEnvelope hx).heard, (silent_onEnvelope hx).clean⟩
      exact silent_set hclean hread rfl d
  | advance c => exact silent_advance hclean hs d
  | fail c =>
      obtain ⟨-, rfl⟩ := step_fail hs
      exact hset (by simp) trivial
  | closed c =>
      simp only [KvmControl.step] at hs
      split at hs
      · rw [← Option.some.inj hs]
        exact hset (by simp) trivial
      · cases hs
  | pingTick c ts =>
      simp only [KvmControl.step] at hs
      split at hs
      · rw [← Option.some.inj hs]
        exact hset (by simp [isWithholdable]) trivial
      · cases hs
  | watchdog c =>
      simp only [KvmControl.step] at hs
      split at hs
      · rw [← Option.some.inj hs]
        refine hset (by simp) ?_
        split <;> trivial
      · cases hs
  | broadcast e =>
      rw [← Option.some.inj hs]
      refine silent_broadcast hclean ?_ d
      cases e <;> first | rfl | cases ha
  | hotkey on => cases ha
  | takeClipboard =>
      simp only [KvmControl.step] at hs
      split at hs
      · rw [← Option.some.inj hs]
        exact Silent.refl (hclean d)
      · cases hs
  | tick n =>
      rw [← Option.some.inj hs]
      exact Silent.refl (hclean d)

end Handlers

/-! ## The invariant -/

/-- The inputs of the broadcasts that had the client among their
    recipients. -/
def addressedTo [DecidableEq C] (broadcasts : List (Envelope × Finset C))
    (c : C) : List Envelope :=
  ((broadcasts.filter fun b => c ∈ b.2).map Prod.fst).filter isWithholdable

/-- What was withheld is what was broadcast, with what is in flight behind
    it; and each client has heard the broadcasts made while it was
    registered. -/
structure Passed [DecidableEq C] (w : World C Ip) : Prop where
  passed : w.withheld.map (fun entry => entry.2.map Envelope.input)
    = ((w.broadcasts.map Prod.fst ++ inFlight w).filter isWithholdable).map some
  heard : ∀ c, heard (w.server.conns c) = addressedTo w.broadcasts c
  clean : ∀ c, Clean (w.server.conns c).phase

section Steps

variable [DecidableEq C]

theorem passed_start (paired : List String) (enabled : Bool)
    (hotkey : Option HotkeyChord) :
    Passed (World.start C Ip paired enabled hotkey) where
  passed := rfl
  heard := fun _ => rfl
  clean := fun _ => trivial

variable {w w' : World C Ip}

/-- Only the place of what is in flight changes. -/
theorem Passed.shift (h : Passed w) (hwithheld : w'.withheld = w.withheld)
    (hbroadcasts : w'.broadcasts = w.broadcasts)
    (hserver : w'.server.conns = w.server.conns)
    (hflight : inFlight w' = inFlight w) : Passed w' where
  passed := by
    rw [hwithheld, hbroadcasts, hflight]
    exact h.passed
  heard := by
    rw [hserver, hbroadcasts]
    exact h.heard
  clean := by
    rw [hserver]
    exact h.clean

theorem addressedTo_append (broadcasts : List (Envelope × Finset C))
    (e : Envelope) (recipients : Finset C) (c : C) :
    addressedTo (broadcasts ++ [(e, recipients)]) c
      = addressedTo broadcasts c
        ++ if c ∈ recipients then [e].filter isWithholdable else [] := by
  rw [addressedTo, List.filter_append, List.map_append, List.filter_append,
    List.filter_singleton]
  by_cases hc : c ∈ recipients
  · simp [hc, addressedTo]
  · simp [hc, addressedTo]

/-- A broadcast is heard by everyone it is addressed to. -/
theorem heard_broadcast (v : KvmControl.World C Ip) (e : Envelope) (c : C) :
    heard ((v.broadcast e).conns c)
      = heard (v.conns c)
        ++ if c ∈ v.registry then [e].filter isWithholdable else [] := by
  simp only [KvmControl.World.broadcast]
  split
  · exact List.filter_append ..
  · exact (List.append_nil _).symm

theorem passed_broadcast (h : Passed w) {e : Envelope} {es : List Envelope}
    (hes : w.forwarder = e :: es) :
    Passed { w with
      server := w.server.broadcast e
      forwarder := es
      broadcasts := w.broadcasts ++ [(e, w.server.registry)] } where
  passed := by
    have hsame := h.passed
    rw [hsame]
    congr 2
    show _ = (w.broadcasts ++ [(e, w.server.registry)]).map Prod.fst
      ++ (es ++ w.captureChannel.flatMap forwarderBroadcasts ++ _)
    rw [inFlight, hes, List.map_append]
    simp only [List.map_cons, List.map_nil, List.append_assoc,
      List.cons_append, List.nil_append]
  heard := by
    intro c
    rw [addressedTo_append, ← h.heard c]
    exact heard_broadcast w.server e c
  clean := by
    intro c
    show Clean ((w.server.broadcast e).conns c).phase
    simp only [KvmControl.World.broadcast]
    split <;> exact h.clean c

theorem passed_decide (h : Passed w) {nowEnabled : Bool} {r : Readings}
    {ev : EventType} (hpc : w.capturePc = .loaded nowEnabled r ev) :
    Passed { w with
      server := { w.server with
        forwardingEnabled :=
          (processEvent r nowEnabled w.capture ev).2.toggled.getD
            w.server.forwardingEnabled }
      capture := (processEvent r nowEnabled w.capture ev).1
      capturePc :=
        .sending (captureEvents (processEvent r nowEnabled w.capture ev).2)
      withheld := w.withheld ++ withheldBy r nowEnabled w.capture ev } where
  passed := by
    have hsame := h.passed
    rw [inFlight, hpc, List.append_nil] at hsame
    rw [List.map_append, hsame, withheldBy_eq, ← List.map_append,
      ← List.filter_append, List.append_assoc]
    rfl
  heard := h.heard
  clean := h.clean

variable [DecidableEq Ip] {k : Settings} {ip : C → Ip}

/-- **ONE STEP** passes on what was withheld. -/
theorem passed_step (w : World C Ip) (a : Action C) (w' : World C Ip)
    (h : Passed w) (hs : step k ip w a = some w') : Passed w' := by
  cases a with
  | server a =>
      simp only [step] at hs
      split at hs
      · rename_i ha
        obtain ⟨v, hv, rfl⟩ := Option.map_eq_some_iff.mp hs
        have hsilent := silent_step ha h.clean hv
        exact ⟨h.passed, fun c => (hsilent c).heard.trans (h.heard c),
          fun c => (hsilent c).clean⟩
      · cases hs
  | load r ev =>
      simp only [step] at hs
      split at hs
      · rename_i hpc
        rw [← Option.some.inj hs]
        refine h.shift rfl rfl rfl ?_
        simp only [inFlight, hpc, List.flatMap_nil]
      · cases hs
  | decide =>
      simp only [step] at hs
      split at hs
      · rename_i nowEnabled r ev hpc
        rw [← Option.some.inj hs]
        exact passed_decide h hpc
      · cases hs
  | send =>
      simp only [step] at hs
      split at hs
      · rename_i m ms hpc
        rw [← Option.some.inj hs]
        refine h.shift rfl rfl rfl ?_
        simp only [inFlight, hpc, List.flatMap_append, List.flatMap_cons,
          List.flatMap_nil, List.append_nil, List.append_assoc]
      · cases hs
  | recv =>
      simp only [step] at hs
      split at hs
      · rename_i m ms hforwarder hchannel
        rw [← Option.some.inj hs]
        refine h.shift rfl rfl rfl ?_
        simp only [inFlight, hforwarder, hchannel, List.flatMap_cons,
          List.nil_append]
      · cases hs
  | broadcast =>
      simp only [step] at hs
      split at hs
      · rename_i e es hes
        rw [← Option.some.inj hs]
        exact passed_broadcast h hes
      · cases hs

/-- Every broadcast of the forwarder goes to whoever is registered then. -/
def GoesToRegistered (w : World C Ip) (_ : Action C) (w' : World C Ip) :
    Prop :=
  w'.broadcasts = w.broadcasts ∨
    ∃ e, w'.broadcasts = w.broadcasts ++ [(e, w.server.registry)]

theorem goesToRegistered_step (w : World C Ip) (a : Action C)
    (w' : World C Ip) (hs : step k ip w a = some w') :
    GoesToRegistered w a w' := by
  cases a with
  | broadcast =>
      simp only [step] at hs
      split at hs
      · rename_i e es hes
        rw [← Option.some.inj hs]
        exact Or.inr ⟨e, rfl⟩
      · cases hs
  | server a =>
      simp only [step] at hs
      split at hs
      · obtain ⟨v, hv, rfl⟩ := Option.map_eq_some_iff.mp hs
        exact Or.inl rfl
      · cases hs
  | _ =>
      simp only [step] at hs
      split at hs
      · rw [← Option.some.inj hs]
        exact Or.inl rfl
      · cases hs

/-- Every withheld event is broadcast to somebody. -/
def NothingLost (w : World C Ip) : Prop :=
  ∀ b ∈ w.broadcasts, isWithholdable b.1 = true → b.2.Nonempty

/-- **WITHHELD INPUT GOES TO WHO IS REGISTERED**: in every run, the keys,
    buttons and wheel turns withheld from the local OS are broadcast in order
    and once each, every broadcast is made to exactly those who are registered
    then, and each client is sent exactly those made to it; so an event
    reaches at least one client exactly if the registry is not empty then. -/
theorem withheld_goes_to_registered (k : Settings) (ip : C → Ip)
    (paired : List String) (enabled : Bool) (hotkey : Option HotkeyChord)
    (acts : List (Action C)) (w : World C Ip)
    (hrun : exec (step k ip) (World.start C Ip paired enabled hotkey) acts
      = some w) :
    w.withheld.map (fun entry => entry.2.map Envelope.input)
        = ((w.broadcasts.map Prod.fst ++ inFlight w).filter
            isWithholdable).map some ∧
      AllSteps (step k ip) GoesToRegistered
        (World.start C Ip paired enabled hotkey) acts ∧
      ∀ c, heard (w.server.conns c) = addressedTo w.broadcasts c := by
  have hstart : Passed (World.start C Ip paired enabled hotkey) :=
    passed_start paired enabled hotkey
  have h : Passed w := invariant_reachable passed_step acts _ w hstart hrun
  refine ⟨h.passed, ?_, h.heard⟩
  exact allSteps_of_guarded (fun w a w' _ _ => goesToRegistered_step w a w')
    (fun w a w' h _ => passed_step w a w' h) acts _ hstart
    (guarded_of_forall acts _ fun _ _ _ => trivial)

end Steps

/-- The way of one captured event through the tasks; `msgs` messages are
    sent, and `es` broadcasts made of each. -/
def captured (ev : EventType) (msgs es : Nat) : List (Action (Fin 2)) :=
  [.load Readings.zero ev, .decide] ++ List.replicate msgs .send
    ++ (List.replicate msgs (.recv :: List.replicate es .broadcast)).flatten

/-- Forwarding is on and connection 0 is registered when `A` is pressed. -/
theorem withheld_goes_to_registered_one :
    ∃ w : World (Fin 2) Unit,
      w.withheld = [(.keyPress .keyA, some (.keyPress (keyToCode .keyA) 0))] ∧
      heard (w.server.conns 0) = [.input (.keyPress (keyToCode .keyA) 0)] ∧
      heard (w.server.conns 0) = addressedTo w.broadcasts 0 ∧
      heard (w.server.conns 1) = addressedTo w.broadcasts 1 := by
  have hrun : (exec (step settings (fun _ => ()))
      (World.start (Fin 2) Unit [] true (some ctrlAltF))
      (pairAndGreet.map Action.server ++ captured (.keyPress .keyA) 1 1)).map
        (fun w => (w.withheld, heard (w.server.conns 0)))
      = some ([(.keyPress .keyA, some (.keyPress (keyToCode .keyA) 0))],
        [.input (.keyPress (keyToCode .keyA) 0)]) := by
    decide
  obtain ⟨w, hw, hv⟩ := Option.map_eq_some_iff.mp hrun
  obtain ⟨hwithheld, hheard⟩ := Prod.mk.inj hv
  obtain ⟨-, -, hall⟩ := withheld_goes_to_registered settings _ [] true
    (some ctrlAltF) _ w hw
  exact ⟨w, hwithheld, hheard, hall 0, hall 1⟩

/-- **INPUT FOR NOBODY**: the hotkey turns forwarding on while nobody is
    connected; the `A` that is pressed next is kept from the local OS and
    broadcast to no one. -/
theorem withheld_key_reaches_nobody :
    ∃ w : World (Fin 2) Unit,
      exec (step settings (fun _ => ()))
        (World.start (Fin 2) Unit [] false (some ctrlAltF))
        (captured (.keyPress .controlLeft) 0 0
          ++ captured (.keyPress .alt) 0 0 ++ captured (.keyPress .keyF) 1 1
          ++ captured (.keyPress .keyA) 1 1) = some w ∧
      w.withheld.map Prod.fst = [.keyPress .keyA] ∧ inFlight w = [] ∧
      (∀ c, heard (w.server.conns c) = []) ∧ ¬ NothingLost w := by
  refine ⟨_, rfl, rfl, rfl, ?_, ?_⟩
  · intro c
    rfl
  · intro h
    have hlost := h (.input (.keyPress (keyToCode .keyA) 3), ∅) (by decide) rfl
    exact absurd hlost Finset.not_nonempty_empty

end KvmWithheld
