import KvmRs.ForwardingProofs
import KvmRs.LockstepProofs

/-! # The way of the user's input

    Input passes from the capture thread through the capture channel and the
    forwarder onto every connection, while handlers put toggles and releases
    between it.  In any interleaving every client gets the input that the
    callback decided to forward in the order of the decisions, all of it once
    everything has arrived, and nothing else. -/

namespace KvmInputOrder

open KvmEnvelope KvmKeymap KvmInject KvmCapture KvmForwarding Transition
  Lockstep

variable {C : Type}

/-- The user's input among these. -/
def inputs (es : List Envelope) : List Envelope := es.filter userInput

/-- The input that a step decides to forward. -/
def decided (w : World C) (a : Action C) (_ : World C) : List Envelope :=
  match a, w.capturePc with
  | .decide, .loaded en r ev => forwarded (processEvent r en w.capture ev).2
  | _, _ => []

/-- What the capture thread has decided to send and has not sent yet. -/
def unsent : CapturePc → List Envelope
  | .loaded _ _ _ => []
  | .sending msgs => msgs.flatMap forwarderBroadcasts

/-- The way to one client, from what it has received back to the capture
    thread. -/
def way (w : World C) (c : C) : List Envelope :=
  w.received c ++ w.wire c ++ w.forwarder
    ++ w.captureChannel.flatMap forwarderBroadcasts ++ unsent w.capturePc

/-- Every client's way holds this input, and no handler holds any. -/
structure Carries (w : World C) (history : List Envelope) : Prop where
  way : ∀ c, inputs (way w c) = history
  handler : ∀ c, inputs (handlerPending (w.handler c)) = []

theorem inputs_append (es fs : List Envelope) :
    inputs (es ++ fs) = inputs es ++ inputs fs := List.filter_append ..

theorem inputs_cons_of_not {e : Envelope} {es : List Envelope}
    (h : userInput e = false) : inputs (e :: es) = inputs es :=
  List.filter_cons_of_neg (by rw [h]; exact Bool.false_ne_true)

theorem inputs_toggle (on : Bool) :
    inputs (forwarderBroadcasts (.forwardingToggled on)) = [] := by
  cases on <;> rfl

theorem inputs_toggledBroadcasts (o : ProcessOutcome) :
    inputs (toggledBroadcasts o) = [] := by
  cases ht : o.toggled with
  | none => simp only [toggledBroadcasts, ht]; rfl
  | some on =>
      simp only [toggledBroadcasts, ht]
      cases on <;> rfl

/-- Whatever is forwarded is the user's. -/
theorem inputs_forwarded (r : Readings) (en : Bool) (s : CaptureState)
    (ev : EventType) :
    inputs (forwarded (processEvent r en s ev).2)
      = forwarded (processEvent r en s ev).2 := by
  cases hf : (processEvent r en s ev).2.forward with
  | none => simp only [forwarded, hf]; rfl
  | some e =>
      have hne : e ≠ .releaseAll := (forward_only_enabled hf).2.2
      simp only [forwarded, hf]
      cases e with
      | releaseAll => exact absurd rfl hne
      | _ => rfl

/-! ## One step -/

section Steps

variable {p : Platform} {w w' : World C} {history : List Envelope}

/-- A broadcast moves input from the forwarder onto every connection. -/
theorem carries_broadcast [DecidableEq C] {e : Envelope} {es : List Envelope}
    (h : Carries w history) (hf : w.forwarder = e :: es) :
    Carries ({ w with forwarder := es }.sendAll e) history where
  way := by
    intro c
    have hway := h.way c
    rw [way, hf] at hway
    rw [← hway]
    simp only [way, World.sendAll, List.append_assoc, List.cons_append,
      List.nil_append]
  handler := h.handler

/-- A handler's broadcast puts something else between it. -/
theorem carries_handlerBroadcast [DecidableEq C] {c : C} {e : Envelope}
    {es : List Envelope} (h : Carries w history)
    (hh : w.handler c = .toBroadcast (e :: es)) :
    Carries ({ w with
      handler := Function.update w.handler c (.toBroadcast es) }.sendAll e)
      history := by
  have hnone := h.handler c
  rw [hh] at hnone
  have he : userInput e = false := by
    cases hu : userInput e with
    | false => rfl
    | true =>
        have hkept : inputs (e :: es) = e :: inputs es :=
          List.filter_cons_of_pos hu
        have hnil : e :: inputs es = [] := hkept.symm.trans hnone
        cases hnil
  have hes : inputs es = [] := (inputs_cons_of_not he).symm.trans hnone
  refine ⟨fun c' => ?_, fun c' => ?_⟩
  · have hsingle : inputs [e] = [] := inputs_cons_of_not he
    have hway := h.way c'
    simp only [way, World.sendAll, inputs_append, hsingle, List.append_nil]
      at hway ⊢
    exact hway
  · show inputs (handlerPending (Function.update w.handler c _ c')) = []
    by_cases hc : c' = c
    · rw [hc, Function.update_self]
      exact hes
    · rw [Function.update_of_ne hc]
      exact h.handler c'

/-- A handler at another point that holds no input either. -/
theorem carries_handler [DecidableEq C] {c : C} {pc : HandlerPc}
    (h : Carries w history) (hpc : inputs (handlerPending pc) = []) (c' : C) :
    inputs (handlerPending (Function.update w.handler c pc c')) = [] := by
  by_cases hc : c' = c
  · rw [hc, Function.update_self]
    exact hpc
  · rw [Function.update_of_ne hc]
    exact h.handler c'

/-- Delivery moves the front of the connection. -/
theorem carries_deliver [DecidableEq C] {c : C} {e : Envelope}
    {es : List Envelope} {client : C → InputInjector}
    (h : Carries w history) (hw : w.wire c = e :: es) :
    Carries { w with
      wire := Function.update w.wire c es
      client := client
      received := Function.update w.received c (w.received c ++ [e]) }
      history where
  way := by
    intro c'
    have hway := h.way c'
    by_cases hc : c' = c
    · rw [hc] at hway ⊢
      rw [← hway]
      simp only [way, Function.update_self, hw, List.append_assoc,
        List.cons_append, List.nil_append]
    · rw [← hway]
      simp only [way, Function.update_of_ne hc]
  handler := h.handler

/-- **ONE STEP**: what a step decides to forward joins the end of every
    client's way, and nothing on it is lost or overtaken. -/
theorem carries_step [DecidableEq C] (w : World C) (a : Action C)
    (w' : World C) (h : Carries w history) (hs : step p w a = some w') :
    Carries w' (history ++ decided w a w') := by
  cases a with
  | load r ev =>
      simp only [step] at hs
      split at hs
      · rename_i hpc
        rw [← Option.some.inj hs]
        simp only [decided, List.append_nil]
        refine ⟨fun c => ?_, h.handler⟩
        have hway := h.way c
        simp only [way, hpc] at hway ⊢
        exact hway
      · cases hs
  | decide =>
      simp only [step] at hs
      split at hs
      · rename_i en r ev hpc
        rw [← Option.some.inj hs]
        simp only [decided, hpc]
        refine ⟨fun c => ?_, h.handler⟩
        have hway := h.way c
        simp only [way, hpc, unsent, List.append_nil] at hway
        simp only [way, unsent, captureEvents_broadcasts, inputs_append,
          inputs_toggledBroadcasts, inputs_forwarded, List.nil_append]
        rw [← hway]
        simp only [inputs_append]
      · cases hs
  | send =>
      simp only [step] at hs
      split at hs
      · rename_i m ms hpc
        rw [← Option.some.inj hs]
        simp only [decided, List.append_nil]
        refine ⟨fun c => ?_, h.handler⟩
        have hway := h.way c
        rw [← hway]
        simp only [way, hpc, unsent, List.flatMap_cons, List.flatMap_append,
          List.flatMap_nil, List.append_nil, List.append_assoc]
      · cases hs
  | recv =>
      simp only [step] at hs
      split at hs
      · rename_i m ms hf hch
        rw [← Option.some.inj hs]
        simp only [decided, List.append_nil]
        refine ⟨fun c => ?_, h.handler⟩
        have hway := h.way c
        rw [← hway]
        simp only [way, hf, hch, List.flatMap_cons, List.append_nil,
          List.append_assoc]
      · cases hs
  | broadcast =>
      simp only [step] at hs
      split at hs
      · rename_i e es hf
        rw [← Option.some.inj hs]
        simp only [decided, List.append_nil]
        exact carries_broadcast h hf
      · cases hs
  | toggle c desired =>
      simp only [step] at hs
      split at hs
      · simp only [decided, List.append_nil]
        split at hs
        · rw [← Option.some.inj hs]
          exact ⟨h.way, carries_handler h rfl⟩
        · rw [← Option.some.inj hs]
          exact h
      · cases hs
  | store c =>
      simp only [step] at hs
      split at hs
      · rename_i desired hh
        rw [← Option.some.inj hs]
        simp only [decided, List.append_nil]
        exact ⟨h.way, carries_handler h (inputs_toggle desired)⟩
      · cases hs
  | handlerBroadcast c =>
      simp only [step] at hs
      split at hs
      · rename_i e es hh
        rw [← Option.some.inj hs]
        simp only [decided, List.append_nil]
        exact carries_handlerBroadcast h hh
      · cases hs
  | deliver c =>
      simp only [step] at hs
      split at hs
      · rename_i e es hw
        rw [← Option.some.inj hs]
        simp only [decided, List.append_nil]
        exact carries_deliver h hw
      · cases hs

end Steps

/-! ## Whole runs -/

/-- **INPUT KEEPS ITS ORDER**: with any number of clients that are registered
    throughout, in any interleaving of the capture thread, the forwarder and
    the handlers, the user input that a client has received is a prefix of
    what the callback decided to forward, and once everything has arrived it
    is all of it. -/
theorem input_keeps_order [DecidableEq C] (p : Platform) (enabled : Bool)
    (hotkey : Option HotkeyChord) (acts : List (Action C)) (w : World C)
    (hrun : exec (step p) (World.start C enabled hotkey) acts = some w) (c : C) :
    inputs (w.received c)
        <+: outputs (step p) decided (World.start C enabled hotkey) acts ∧
      (Drained w → inputs (w.received c)
        = outputs (step p) decided (World.start C enabled hotkey) acts) := by
  have hstart : Carries (World.start C enabled hotkey) [] :=
    ⟨fun _ => rfl, fun _ => rfl⟩
  have hend := outputs_recorded
    (fun history w a w' h hs => carries_step w a w' h hs) acts _ [] w hstart hrun
  have hway := hend.way c
  rw [List.nil_append] at hway
  rw [← hway]
  simp only [way, List.append_assoc, inputs_append]
  refine ⟨List.prefix_append _ _, fun hd => ?_⟩
  rw [hd.wire c, hd.forwarder, hd.channel, hd.capture]
  exact (List.append_nil _).symm

/-- A switch-off overtakes a key press, but the press is not lost. -/
theorem input_keeps_order_overtaken :
    ∃ w : World (Fin 2),
      exec (step .linux) (World.start (Fin 2) true none)
        (typeA ++ switchOff ++ [.recv, .broadcast] ++ deliverAll) = some w ∧
      inputs (w.received 1) = [.input (.keyPress 30 0)] := by
  have hrun : (exec (step .linux) (World.start (Fin 2) true none)
      (typeA ++ switchOff ++ [.recv, .broadcast] ++ deliverAll)).map
        (fun w => (w.capturePc, w.captureChannel, w.forwarder))
      = some (.sending [], [], []) := by
    decide
  obtain ⟨w, hw, hv⟩ := Option.map_eq_some_iff.mp hrun
  refine ⟨w, hw, ?_⟩
  obtain ⟨hpc, hch, hf⟩ : w.capturePc = .sending [] ∧ w.captureChannel = []
      ∧ w.forwarder = [] := by
    obtain ⟨hpc, hrest⟩ := Prod.mk.inj hv
    exact ⟨hpc, Prod.mk.inj hrest⟩
  have hquiet : (exec (step .linux) (World.start (Fin 2) true none)
      (typeA ++ switchOff ++ [.recv, .broadcast] ++ deliverAll)).map
        (fun w => decide (∀ c, w.handler c = .toBroadcast [] ∧ w.wire c = []))
      = some true := by
    decide
  rw [hw] at hquiet
  have hall := of_decide_eq_true (Option.some.inj hquiet)
  have hdrained : Drained w :=
    ⟨hpc, hch, hf, fun c => (hall c).1, fun c => (hall c).2⟩
  rw [(input_keeps_order .linux true none _ w hw 1).2 hdrained]
  decide

end KvmInputOrder
