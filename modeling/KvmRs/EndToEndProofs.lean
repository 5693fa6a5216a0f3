import KvmRs.InputOrderProofs
import KvmRs.SessionEndProofs

/-! # From the server's keyboard to the client's system

    The whole way of the user's input: the callback decides to forward an
    event, the forwarder broadcasts it, the connection carries it as bytes in
    frames, `Session::run` reads it back and the injector calls enigo.  Key
    codes, modifiers, envelopes and frames are gone at the other end: the calls
    that input makes there are those that the events themselves mean
    (`meaning`), in the order of the decisions. -/

namespace KvmEndToEnd

open ByteCodec KvmEnvelope KvmKeymap KvmFraming KvmInject KvmCapture
  KvmForwarding KvmInputOrder Transition Lockstep
open KvmSessionEnd (callsOf)
open KvmSessionLoop (LoopState StreamInv BetweenFrames streamInv_step)

/-! ## What an event means -/

/-- The calls that an event of the user means to the client's system. -/
def meaning (p : Platform) (s : CaptureState) : EventType → List EnigoCall
  | .keyPress k => (keyImage p k).toList.map fun c => .key c .press
  | .keyRelease k => (keyImage p k).toList.map fun c => .key c .release
  | .buttonPress b => [.button (buttonImage b) .press]
  | .buttonRelease b => [.button (buttonImage b) .release]
  | .mouseMove x y => [.moveMouse (asI32 (x - s.lastX)) (asI32 (y - s.lastY))]
  | .wheel dx dy =>
      (if dy.toInt32 ≠ 0 then [.scrollVertical (-dy.toInt32)] else [])
        ++ (if dx.toInt32 ≠ 0 then [.scrollHorizontal dx.toInt32] else [])

/-- What the user's input means, if it is forwarded. -/
def meant (p : Platform) (r : Readings) (en : Bool) (s : CaptureState)
    (ev : EventType) : List EnigoCall :=
  if (processEvent r en s ev).2.forward.isSome then meaning p s ev else []

/-- What a step of the server's system means to every client. -/
def stepMeant {C : Type} (p : Platform) (w : World C) (a : Action C)
    (_ : World C) : List EnigoCall :=
  match a, w.capturePc with
  | .decide, .loaded en r ev => meant p r en w.capture ev
  | _, _ => []

/-- The calls that input makes, whatever is held. -/
def inputCalls (p : Platform) : Envelope → List EnigoCall
  | .input ev => (InputInjector.new.inject p ev).2
  | _ => []

/-- The calls that a step of the client's loop makes for input. -/
def stepCalls (p : Platform) (s : LoopState) (_ : KvmSessionLoop.Action)
    (s' : LoopState) : List EnigoCall :=
  (inputs (s'.dispatched.drop s.dispatched.length)).flatMap
    (callsOf p s.injector)

/-- Input makes the same calls with any injector. -/
theorem callsOf_input (p : Platform) (inj : InputInjector) {e : Envelope}
    (h : userInput e = true) : callsOf p inj e = inputCalls p e := by
  cases e with
  | input ev =>
      cases ev with
      | releaseAll => cases h
      | keyPress code mods =>
          simp only [callsOf, inputCalls, InputInjector.inject]
          split <;> rfl
      | keyRelease code mods =>
          simp only [callsOf, inputCalls, InputInjector.inject]
          split <;> rfl
      | _ => rfl
  | _ => cases h

/-- The wire's codes and modifiers add nothing and lose nothing. -/
theorem inputCalls_forwarded (p : Platform) (r : Readings) (en : Bool)
    (s : CaptureState) (ev : EventType) :
    (forwarded (processEvent r en s ev).2).flatMap (inputCalls p)
      = meant p r en s ev := by
  -- every forwarding branch but the mouse move is a `forwardIf`
  have hplain : ∀ e : Event, (processEvent r en s ev).2 = forwardIf en e →
      inputCalls p (.input e) = meaning p s ev →
      (forwarded (processEvent r en s ev).2).flatMap (inputCalls p)
        = meant p r en s ev := by
    intro e ho hcalls
    simp only [meant, ho]
    cases en with
    | true =>
        simp only [forwardIf, forwarded, if_true, Option.isSome_some,
          Option.map_some, Option.toList_some, List.flatMap_cons,
          List.flatMap_nil, List.append_nil]
        exact hcalls
    | false => rfl
  have hnone : (processEvent r en s ev).2.forward = none →
      (forwarded (processEvent r en s ev).2).flatMap (inputCalls p)
        = meant p r en s ev := by
    intro hf
    simp only [meant, forwarded, hf]
    rfl
  cases ev with
  | keyPress k =>
      by_cases hc : Completes s k
      · exact hnone (processEvent_keyPress_chord hc).2.2.2.2.1
      · refine hplain _ (processEvent_keyPress_plain hc).2.2.2 ?_
        simp only [inputCalls, InputInjector.inject, meaning, keyImage]
        split
        · rename_i c hk
          rw [hk]
          rfl
        · rename_i hk
          rw [hk]
          rfl
  | keyRelease k =>
      by_cases hk : k ∈ s.hotkeySwallowedKeys
      · refine hnone ?_
        rw [(processEvent_keyRelease_swallowed hk).2.2.2]
      · refine hplain _ (processEvent_keyRelease_plain hk).2.2.2 ?_
        simp only [inputCalls, InputInjector.inject, meaning, keyImage]
        split
        · rename_i c hk
          rw [hk]
          rfl
        · rename_i hk
          rw [hk]
          rfl
  | buttonPress b => exact hplain _ rfl rfl
  | buttonRelease b => exact hplain _ rfl rfl
  | wheel dx dy => exact hplain _ rfl rfl
  | mouseMove x y =>
      cases hf : (processEvent r en s (.mouseMove x y)).2.forward with
      | none => exact hnone hf
      | some e =>
          have he : e = .mouseDelta (asI32 (x - s.lastX))
              (asI32 (y - s.lastY)) := by
            simp only [processEvent, processMouseMove] at hf
            split at hf
            · cases hf
            · split at hf
              · cases hf
              · simp only at hf
                split at hf
                · exact (Option.some.inj hf).symm
                · cases hf
          simp only [meant, forwarded, hf, he]
          rfl

/-! ## Everything broadcast fits a frame -/

/-- `serialize_envelope` succeeds. -/
def Fits (e : Envelope) : Prop := (envelope.write e).length ≤ MAX_ENVELOPE_SIZE

theorem input_length (ev : Event) : (envelope.write (.input ev)).length ≤ 16 := by
  cases ev with
  | mouseDelta dx dy =>
      show (leBytes 4 6 ++ (leBytes 4 0 ++ (leBytes 4 dx.toUInt32.toNat
        ++ leBytes 4 dy.toUInt32.toNat))).length ≤ 16
      simp
  | mouseButtonPress b =>
      show (leBytes 4 6 ++ (leBytes 4 1 ++ leBytes 4 b.index.toNat)).length ≤ 16
      simp
  | mouseButtonRelease b =>
      show (leBytes 4 6 ++ (leBytes 4 2 ++ leBytes 4 b.index.toNat)).length ≤ 16
      simp
  | wheel dx dy =>
      show (leBytes 4 6 ++ (leBytes 4 3 ++ (leBytes 4 dx.toUInt32.toNat
        ++ leBytes 4 dy.toUInt32.toNat))).length ≤ 16
      simp
  | keyPress code mods =>
      show (leBytes 4 6 ++ (leBytes 4 4 ++ (leBytes 4 code.toNat
        ++ leBytes 1 mods.toNat))).length ≤ 16
      simp
  | keyRelease code mods =>
      show (leBytes 4 6 ++ (leBytes 4 5 ++ (leBytes 4 code.toNat
        ++ leBytes 1 mods.toNat))).length ≤ 16
      simp
  | releaseAll => decide

theorem fits_input (ev : Event) : Fits (.input ev) :=
  (input_length ev).trans (by decide)

theorem fits_broadcast (m : CaptureEvent) :
    ∀ e ∈ forwarderBroadcasts m, Fits e := by
  intro e he
  cases m with
  | input ev =>
      rw [List.mem_singleton.mp he]
      exact fits_input ev
  | forwardingToggled on =>
      have htoggle : Fits (.toggleForward on) := by
        cases on <;> (show _ ≤ _; decide)
      rcases List.mem_append.mp he with hrelease | hlast
      · cases on with
        | true => cases hrelease
        | false =>
            rw [List.mem_singleton.mp hrelease]
            exact fits_input .releaseAll
      · rw [List.mem_singleton.mp hlast]
        exact htoggle

/-- Whatever is anywhere between the tasks and the clients fits. -/
structure AllFit {C : Type} (w : World C) : Prop where
  forwarder : ∀ e ∈ w.forwarder, Fits e
  handler : ∀ c, ∀ e ∈ handlerPending (w.handler c), Fits e
  sent : ∀ c, ∀ e ∈ w.received c ++ w.wire c, Fits e

section Fitting

variable {C : Type} {p : Platform} {w : World C}

/-- A broadcast of something that fits. -/
theorem AllFit.sendAll (h : AllFit w) {e : Envelope} (he : Fits e) :
    AllFit (w.sendAll e) where
  forwarder := h.forwarder
  handler := h.handler
  sent := by
    intro c x hx
    have hsplit : x ∈ w.received c ++ w.wire c ∨ x = e := by
      simp only [World.sendAll, List.mem_append, List.mem_singleton] at hx ⊢
      tauto
    rcases hsplit with hold | rfl
    · exact h.sent c x hold
    · exact he

/-- A handler that owes something else. -/
theorem AllFit.withHandler [DecidableEq C] (h : AllFit w) {c : C} {pc : HandlerPc}
    (hpc : ∀ e ∈ handlerPending pc, Fits e) :
    AllFit { w with handler := Function.update w.handler c pc } where
  forwarder := h.forwarder
  handler := by
    intro c' e he
    by_cases hc : c' = c
    · rw [hc] at he
      simp only [Function.update_self] at he
      exact hpc e he
    · simp only [Function.update_of_ne hc] at he
      exact h.handler c' e he
  sent := h.sent

/-- **ONE STEP** puts nothing in between that does not fit. -/
theorem allFit_step [DecidableEq C] (w : World C) (a : Action C) (w' : World C)
    (h : AllFit w) (hs : step p w a = some w') : AllFit w' := by
  cases a with
  | load r ev =>
      simp only [step] at hs
      split at hs
      · rw [← Option.some.inj hs]
        exact ⟨h.forwarder, h.handler, h.sent⟩
      · cases hs
  | decide =>
      simp only [step] at hs
      split at hs
      · rw [← Option.some.inj hs]
        exact ⟨h.forwarder, h.handler, h.sent⟩
      · cases hs
  | send =>
      simp only [step] at hs
      split at hs
      · rw [← Option.some.inj hs]
        exact ⟨h.forwarder, h.handler, h.sent⟩
      · cases hs
  | recv =>
      simp only [step] at hs
      split at hs
      · rename_i m ms hf hch
        rw [← Option.some.inj hs]
        exact ⟨fits_broadcast m, h.handler, h.sent⟩
      · cases hs
  | broadcast =>
      simp only [step] at hs
      split at hs
      · rename_i e es hf
        rw [← Option.some.inj hs]
        have hall := h.forwarder
        rw [hf] at hall
        have hrest : AllFit { w with forwarder := es } :=
          ⟨fun x hx => hall x (List.mem_cons_of_mem e hx), h.handler, h.sent⟩
        exact hrest.sendAll (hall e List.mem_cons_self)
      · cases hs
  | toggle c desired =>
      simp only [step] at hs
      split at hs
      · split at hs
        · rw [← Option.some.inj hs]
          exact h.withHandler fun e he => absurd he List.not_mem_nil
        · rw [← Option.some.inj hs]
          exact h
      · cases hs
  | store c =>
      simp only [step] at hs
      split at hs
      · rename_i desired hh
        rw [← Option.some.inj hs]
        have hpc : ∀ e ∈ handlerPending (.toBroadcast
            (forwarderBroadcasts (.forwardingToggled desired))), Fits e :=
          fits_broadcast (.forwardingToggled desired)
        have hrest := h.withHandler (c := c) hpc
        exact ⟨hrest.forwarder, hrest.handler, hrest.sent⟩
      · cases hs
  | handlerBroadcast c =>
      simp only [step] at hs
      split at hs
      · rename_i e es hh
        rw [← Option.some.inj hs]
        have hall := h.handler c
        rw [hh] at hall
        have hes : ∀ x ∈ handlerPending (.toBroadcast es), Fits x :=
          fun x hx => hall x (List.mem_cons_of_mem e hx)
        exact (h.withHandler hes).sendAll (hall e List.mem_cons_self)
      · cases hs
  | deliver c =>
      simp only [step] at hs
      split at hs
      · rename_i e es hw
        rw [← Option.some.inj hs]
        refine ⟨h.forwarder, h.handler, fun c' => ?_⟩
        by_cases hc : c' = c
        · have hsent := h.sent c
          rw [hw] at hsent
          simp only [hc, Function.update_self, List.append_assoc,
            List.singleton_append]
          exact hsent
        · simp only [Function.update_of_ne hc]
          exact h.sent c'
      · cases hs

end Fitting

/-! ## The whole way -/

/-- A step of the loop makes the calls of the input it dispatches. -/
theorem stepCalls_dispatched {p : Platform} {clip : Bool}
    {a : KvmSessionLoop.Action} {s s' : LoopState}
    (hs : KvmSessionLoop.step p clip s a = some s') :
    (inputs s'.dispatched).flatMap (inputCalls p)
      = (inputs s.dispatched).flatMap (inputCalls p) ++ stepCalls p s a s' := by
  rcases KvmSessionEnd.loop_step_injector hs with ⟨hd, -⟩ | ⟨env, hd, -⟩
  · simp only [stepCalls, hd, List.drop_length]
    exact (List.append_nil _).symm
  · simp only [stepCalls, hd, List.drop_left, inputs_append, List.flatMap_append]
    congr 1
    cases hu : userInput env with
    | false =>
        have hnone : inputs [env] = [] := inputs_cons_of_not hu
        rw [hnone]
        rfl
    | true =>
        have hone : inputs [env] = [env] := List.filter_cons_of_pos hu
        simp only [hone, List.flatMap_cons, List.flatMap_nil, List.append_nil]
        exact (callsOf_input p s.injector hu).symm

/-- The calls for input are those of the input that was dispatched. -/
theorem calls_of_dispatched {p : Platform} {clip : Bool} {stream : List UInt8}
    {moves : List KvmSessionLoop.Action} {t : LoopState}
    (hrun : exec (KvmSessionLoop.step p clip) (LoopState.init stream) moves
      = some t) :
    outputs (KvmSessionLoop.step p clip) (stepCalls p) (LoopState.init stream)
        moves
      = (inputs t.dispatched).flatMap (inputCalls p) := by
  have hstep : ∀ shown s a s',
      shown = (inputs s.dispatched).flatMap (inputCalls p) →
      KvmSessionLoop.step p clip s a = some s' →
      shown ++ stepCalls p s a s'
        = (inputs s'.dispatched).flatMap (inputCalls p) := by
    intro shown s a s' hshown hs
    rw [hshown, stepCalls_dispatched hs]
  exact outputs_recorded hstep moves (LoopState.init stream) [] t rfl hrun

/-- What the decisions mean is what the decided input makes of itself. -/
theorem meant_of_decided {C : Type} [DecidableEq C] (p : Platform)
    (acts : List (Action C)) (w : World C) :
    (outputs (step p) decided w acts).flatMap (inputCalls p)
      = outputs (step p) (stepMeant p) w acts := by
  refine outputs_flatMap (fun w a w' _ => ?_) acts w
  cases a with
  | decide =>
      cases hpc : w.capturePc with
      | loaded en r ev =>
          simp only [decided, stepMeant, hpc]
          exact inputCalls_forwarded p r en w.capture ev
      | sending msgs =>
          simp only [decided, stepMeant, hpc]
          rfl
  | _ => rfl

/-- With every byte read, every envelope has been dispatched. -/
theorem all_dispatched {sent : List Envelope} {s : LoopState}
    (h : StreamInv sent s) (hwire : s.wire = []) (hbuf : s.buf = []) :
    s.dispatched = sent := by
  obtain ⟨todo, part, hsent, hbytes, hshort, -⟩ := h
  cases todo with
  | nil => rw [hsent, List.append_nil]
  | cons e rest =>
      have hlt := hshort e rest rfl
      rw [hwire, hbuf, List.append_nil, List.append_nil] at hbytes
      rw [hbytes, List.flatMap_cons, List.length_append] at hlt
      omega

/-- **WHAT IS TYPED IS INJECTED**: take any run of the server's tasks with any
    number of clients that are registered throughout, and any run of one
    client's loop on the bytes that have been broadcast to it, however they
    are cut, in which no arm drops a half-read frame.  The calls that the
    client makes for input are the first of those that the user's events mean,
    in order, and all of them once everything has been broadcast and read. -/
theorem typed_is_injected {C : Type} [DecidableEq C] (p : Platform)
    (clip enabled : Bool) (hotkey : Option HotkeyChord)
    (acts : List (Action C)) (w : World C) (c : C)
    (moves : List KvmSessionLoop.Action) (s : LoopState)
    (hserver : exec (step p) (World.start C enabled hotkey) acts = some w)
    (hclient : exec (KvmSessionLoop.step p clip)
      (LoopState.init ((w.received c ++ w.wire c).flatMap frame)) moves
        = some s)
    (hframes : Guarded (KvmSessionLoop.step p clip) BetweenFrames
      (LoopState.init ((w.received c ++ w.wire c).flatMap frame)) moves) :
    outputs (KvmSessionLoop.step p clip) (stepCalls p)
        (LoopState.init ((w.received c ++ w.wire c).flatMap frame)) moves
      <+: outputs (step p) (stepMeant p) (World.start C enabled hotkey) acts ∧
    (w.capturePc = .sending [] → w.captureChannel = [] → w.forwarder = [] →
      s.wire = [] → s.buf = [] →
      outputs (KvmSessionLoop.step p clip) (stepCalls p)
          (LoopState.init ((w.received c ++ w.wire c).flatMap frame)) moves
        = outputs (step p) (stepMeant p) (World.start C enabled hotkey)
          acts) := by
  -- the input on the client's way is what was decided
  have hstart : Carries (World.start C enabled hotkey) [] :=
    ⟨fun _ => rfl, fun _ => rfl⟩
  have hway := (outputs_recorded (fun history w a w' h hs =>
    carries_step w a w' h hs) acts _ [] w hstart hserver).way c
  rw [List.nil_append] at hway
  -- the loop dispatches what was sent, in order
  have hempty : AllFit (World.start C enabled hotkey) :=
    ⟨fun _ h => (nomatch h), fun _ _ h => (nomatch h), fun _ _ h => nomatch h⟩
  have hfit : AllFit w := invariant_exec
    (fun w a w' h (_ : True) hs => allFit_step w a w' h hs) acts _ w hempty
    (guarded_of_forall acts _ fun _ _ _ => trivial) hserver
  have hinit : StreamInv (w.received c ++ w.wire c)
      (LoopState.init ((w.received c ++ w.wire c).flatMap frame)) := by
    refine ⟨w.received c ++ w.wire c, [], rfl, rfl, ?_, fun _ => rfl⟩
    intro e rest _
    rw [frame_length, List.length_nil]
    omega
  have hstream := invariant_exec (streamInv_step (hfit.sent c)) moves _ s hinit
    hframes hclient
  rw [calls_of_dispatched hclient, ← meant_of_decided, ← hway]
  simp only [way, List.append_assoc] at hstream ⊢
  rw [← List.append_assoc, inputs_append, List.flatMap_append]
  refine ⟨?_, fun hpc hch hf hwire hbuf => ?_⟩
  · obtain ⟨todo, -, hsent, -⟩ := hstream
    rw [hsent, inputs_append, List.flatMap_append, List.append_assoc]
    exact List.prefix_append _ _
  · rw [all_dispatched hstream hwire hbuf, hpc, hch, hf]
    exact (List.append_nil _).symm

/-- The bytes that reach client 1 when `a` is typed. -/
def aOnTheWire : List UInt8 :=
  ([Envelope.input (.keyPress 30 0)] : List Envelope).flatMap frame

/-- They arrive in two pieces. -/
def readInTwo : List KvmSessionLoop.Action :=
  [.arrive 7, .poll ⟨0, 0⟩ true, .arrive 100, .poll ⟨0, 0⟩ true]

/-- `a` is typed on the server and pressed on the client. -/
theorem typed_is_injected_press :
    ∃ w : World (Fin 2), ∃ s,
      exec (step .linux) (World.start (Fin 2) true none)
        (typeA ++ [.recv, .broadcast]) = some w ∧
      exec (KvmSessionLoop.step .linux false) (LoopState.init aOnTheWire)
        readInTwo = some s ∧
      outputs (KvmSessionLoop.step .linux false) (stepCalls .linux)
        (LoopState.init aOnTheWire) readInTwo
          = [.key (.unicode 'a') .press] := by
  refine ⟨_, _, rfl, rfl, ?_⟩
  have hall := (typed_is_injected .linux false true none
    (typeA ++ [.recv, .broadcast]) _ 1 readInTwo _ rfl rfl
    (by decide)).2 rfl rfl rfl rfl rfl
  exact hall.trans (by decide)

end KvmEndToEnd
