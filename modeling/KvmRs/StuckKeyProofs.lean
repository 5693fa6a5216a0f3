import KvmRs.CaptureProofs
import KvmRs.InjectProofs
import KvmRs.TransitionProofs

/-! # Keys held on the client

    One client stays registered and only the hotkey toggles forwarding.  Each
    captured event is followed by everything it causes: the callback, the
    forwarder's broadcasts, and the client's injector.  The question is
    whether the client ever holds a key that is no longer down on the server.

    The invariant `Tracked` is the reason why it does not, and `SameRoute` the
    one situation in which it does: a repeat of the hotkey's base key that is
    forwarded although the press before it was swallowed, or the other way
    round.  `step_tracked` shows that every other event keeps the invariant. -/

namespace KvmStuckKey

open KvmEnvelope KvmKeymap KvmInject KvmCapture Transition

/-- The server's flag and capture state, the client's injector, and the keys
    and buttons that are physically down. -/
structure World where
  enabled : Bool
  capture : CaptureState
  client : InputInjector
  down : Physical
  deriving DecidableEq

/-- A captured event with the readings taken while it is processed. -/
structure Captured where
  readings : Readings
  event : EventType
  deriving DecidableEq

/-- Nothing is down, the client has just registered. -/
def World.start (enabled : Bool) (hotkey : Option HotkeyChord) : World where
  enabled := enabled
  capture := CaptureState.start enabled hotkey
  client := InputInjector.new
  down := Physical.none

/-- One captured event, run through to the client. -/
def step (p : Platform) (w : World) (a : Captured) : Option World :=
  match w.down.next a.event with
  | none => none
  | some down =>
      let out := processEvent a.readings w.enabled w.capture a.event
      some {
        enabled := out.2.toggled.getD w.enabled
        capture := out.1
        client := injectorAfterAll p w.client (emitted out.2)
        down := down }

/-- Everything the client holds is the image of something that is down. -/
def HeldIsDown (p : Platform) (w : World) : Prop :=
  (∀ c ∈ w.client.heldKeys, ∃ k ∈ w.down.keys, keyImage p k = some c) ∧
    (∀ c ∈ w.client.heldButtons, ∃ b ∈ w.down.buttons, buttonImage b = c)

/-- A repeated press while forwarding is on takes the route of the press
    before it: it completes the chord exactly if that one did. -/
def SameRoute (w : World) (a : Captured) : Prop :=
  match a.event with
  | .keyPress k =>
      k ∈ w.down.keys → w.enabled = true →
        (Completes w.capture k ↔ k ∈ w.capture.hotkeySwallowedKeys)
  | _ => True

instance sameRouteDecidable (w : World) (a : Captured) :
    Decidable (SameRoute w a) :=
  match h : a.event with
  | .keyPress k =>
      decidable_of_iff (k ∈ w.down.keys → w.enabled = true →
        (Completes w.capture k ↔ k ∈ w.capture.hotkeySwallowedKeys))
        (by rw [SameRoute, h])
  | .keyRelease _ => isTrue (by rw [SameRoute, h]; trivial)
  | .buttonPress _ => isTrue (by rw [SameRoute, h]; trivial)
  | .buttonRelease _ => isTrue (by rw [SameRoute, h]; trivial)
  | .mouseMove _ _ => isTrue (by rw [SameRoute, h]; trivial)
  | .wheel _ _ => isTrue (by rw [SameRoute, h]; trivial)

/-- The invariant: the capture knows what is down, a client that is off holds
    nothing, and every key the client holds comes from a down key whose
    release will not be swallowed. -/
structure Tracked (p : Platform) (w : World) : Prop where
  pressed : w.capture.pressedKeys = w.down.keys
  swallowed : w.capture.hotkeySwallowedKeys ⊆ w.down.keys
  off : w.enabled = false → w.client = InputInjector.new
  keys : ∀ c ∈ w.client.heldKeys, ∃ k ∈ w.down.keys,
    k ∉ w.capture.hotkeySwallowedKeys ∧ keyImage p k = some c
  buttons : ∀ c ∈ w.client.heldButtons, ∃ b ∈ w.down.buttons,
    buttonImage b = c

theorem Tracked.heldIsDown {p : Platform} {w : World} (h : Tracked p w) :
    HeldIsDown p w := by
  refine ⟨?_, h.buttons⟩
  intro c hc
  obtain ⟨k, hk, -, himg⟩ := h.keys c hc
  exact ⟨k, hk, himg⟩

theorem tracked_start (p : Platform) (enabled : Bool)
    (hotkey : Option HotkeyChord) : Tracked p (World.start enabled hotkey) where
  pressed := rfl
  swallowed := fun _ h => h
  off := fun _ => rfl
  keys := fun _ hc => nomatch hc
  buttons := fun _ hc => nomatch hc

/-! ## What one event makes the client do -/

section Client

variable {o : ProcessOutcome}

theorem emitted_silent (hf : o.forward = none) (ht : o.toggled = none) :
    emitted o = [] := by
  simp only [emitted, captureEvents, hf, ht]
  rfl

theorem emitted_input {ev : Event} (hf : o.forward = some ev)
    (ht : o.toggled = none) : emitted o = [.input ev] := by
  simp only [emitted, captureEvents, hf, ht]
  rfl

theorem emitted_toggled {on : Bool} (hf : o.forward = none)
    (ht : o.toggled = some on) :
    emitted o = forwarderBroadcasts (.forwardingToggled on) := by
  simp only [emitted, captureEvents, hf, ht]
  exact List.append_nil _

/-- A toggle leaves the client holding nothing, if it held nothing while
    forwarding was off. -/
theorem client_toggled (p : Platform) {inj : InputInjector} {en : Bool}
    (hoff : en = false → inj = InputInjector.new) :
    injectorAfterAll p inj (forwarderBroadcasts (.forwardingToggled (!en)))
      = InputInjector.new := by
  cases en with
  | true => rfl
  | false =>
      rw [hoff rfl]
      rfl

end Client

/-! ## The step lemmas, one per kind of event -/

section Steps

variable {p : Platform} {w : World} {r : Readings}

/-- Inversion of a step. -/
theorem step_some {ev : EventType} {w' : World}
    (hs : step p w ⟨r, ev⟩ = some w') :
    ∃ d, w.down.next ev = some d ∧
      w' = {
        enabled := (processEvent r w.enabled w.capture ev).2.toggled.getD
          w.enabled
        capture := (processEvent r w.enabled w.capture ev).1
        client := injectorAfterAll p w.client
          (emitted (processEvent r w.enabled w.capture ev).2)
        down := d } := by
  cases hd : w.down.next ev with
  | none => simp only [step, hd] at hs; cases hs
  | some d =>
      simp only [step, hd] at hs
      exact ⟨d, rfl, (Option.some.inj hs).symm⟩

/-- A press that completes the chord. -/
theorem tracked_keyPress_chord (h : Tracked p w) {k : Key} {w' : World}
    (hc : Completes w.capture k) (hok : SameRoute w ⟨r, .keyPress k⟩)
    (hs : step p w ⟨r, .keyPress k⟩ = some w') : Tracked p w' := by
  obtain ⟨hpr, -, hsw, -, hfw, htog⟩ :=
    @processEvent_keyPress_chord r w.enabled w.capture k hc
  rw [← Option.some.inj hs]
  -- the key itself is never the witness of a held key
  have hkeys : w.enabled = true → ∀ c ∈ w.client.heldKeys,
      ∃ k' ∈ insert k w.down.keys,
        k' ∉ insert k w.capture.hotkeySwallowedKeys ∧
          keyImage p k' = some c := by
    intro hen c hcm
    obtain ⟨k', hk', hns, himg⟩ := h.keys c hcm
    have hne : k' ≠ k := by
      rintro rfl
      exact hns ((hok hk' hen).mp hc)
    refine ⟨k', Finset.mem_insert_of_mem hk', ?_, himg⟩
    rw [Finset.mem_insert]
    rintro (he | hm)
    · exact hne he
    · exact hns hm
  refine ⟨?_, ?_, ?_, ?_, ?_⟩
  · show _ = insert k w.down.keys
    rw [hpr, h.pressed]
  · show _ ⊆ insert k w.down.keys
    rw [hsw]
    exact Finset.insert_subset_insert k h.swallowed
  · intro hoff
    rcases htog with ht | ⟨ht, -⟩
    · simp only [ht, Option.getD_none] at hoff
      show injectorAfterAll p w.client (emitted _) = InputInjector.new
      rw [emitted_silent hfw ht, h.off hoff]
      rfl
    · show injectorAfterAll p w.client (emitted _) = InputInjector.new
      rw [emitted_toggled hfw ht]
      exact client_toggled p h.off
  · intro c hcm
    show ∃ k' ∈ insert k w.down.keys, k' ∉ _ ∧ keyImage p k' = some c
    rw [hsw]
    rcases htog with ht | ⟨ht, -⟩
    · have hcm' : c ∈ w.client.heldKeys := by
        rw [emitted_silent hfw ht] at hcm
        exact hcm
      cases hen : w.enabled with
      | true => exact hkeys hen c hcm'
      | false => rw [h.off hen] at hcm'; cases hcm'
    · rw [emitted_toggled hfw ht, client_toggled p h.off] at hcm
      cases hcm
  · intro c hcm
    rcases htog with ht | ⟨ht, -⟩
    · rw [emitted_silent hfw ht] at hcm
      exact h.buttons c hcm
    · rw [emitted_toggled hfw ht, client_toggled p h.off] at hcm
      cases hcm

/-- An event outside the chord never toggles, so the client either gets the
    one input or nothing. -/
theorem client_plain {w : World} (h : Tracked p w) {ev : Event}
    {o : ProcessOutcome} (ho : o = forwardIf w.enabled ev) :
    (w.enabled = true ∧
        injectorAfterAll p w.client (emitted o)
          = injectorAfter p w.client (.input ev)) ∨
      (w.enabled = false ∧
        injectorAfterAll p w.client (emitted o) = InputInjector.new) := by
  rw [ho]
  cases hen : w.enabled with
  | true => exact Or.inl ⟨rfl, rfl⟩
  | false => exact Or.inr ⟨rfl, h.off hen⟩

/-- A press outside the chord. -/
theorem tracked_keyPress_plain (h : Tracked p w) {k : Key} {w' : World}
    (hc : ¬ Completes w.capture k) (hok : SameRoute w ⟨r, .keyPress k⟩)
    (hs : step p w ⟨r, .keyPress k⟩ = some w') : Tracked p w' := by
  obtain ⟨hpr, -, hsw, ho⟩ :=
    @processEvent_keyPress_plain r w.enabled w.capture k hc
  rw [← Option.some.inj hs]
  have hcl := client_plain h ho
  refine ⟨?_, ?_, ?_, ?_, ?_⟩
  · show _ = insert k w.down.keys
    rw [hpr, h.pressed]
  · show _ ⊆ insert k w.down.keys
    rw [hsw]
    exact h.swallowed.trans (Finset.subset_insert k _)
  · intro hoff
    rcases hcl with ⟨hen, -⟩ | ⟨-, hcl⟩
    · simp only [ho, forwardIf_toggled, Option.getD_none] at hoff
      rw [hen] at hoff
      cases hoff
    · exact hcl
  · intro c hcm
    show ∃ k' ∈ insert k w.down.keys, k' ∉ _ ∧ keyImage p k' = some c
    rw [hsw]
    rcases hcl with ⟨hen, hcl⟩ | ⟨-, hcl⟩
    · rw [hcl, mem_heldKeys_keyPress] at hcm
      rcases hcm with hcm | himg
      · obtain ⟨k', hk', hns, himg⟩ := h.keys c hcm
        exact ⟨k', Finset.mem_insert_of_mem hk', hns, himg⟩
      · refine ⟨k, Finset.mem_insert_self k _, ?_, himg⟩
        -- a swallowed key is down, and then the repeat would complete too
        intro hks
        exact hc ((hok (h.swallowed hks) hen).mpr hks)
    · rw [hcl] at hcm
      cases hcm
  · intro c hcm
    rcases hcl with ⟨-, hcl⟩ | ⟨-, hcl⟩
    · rw [hcl, heldButtons_keyPress] at hcm
      exact h.buttons c hcm
    · rw [hcl] at hcm
      cases hcm

/-- A release of a swallowed key. -/
theorem tracked_keyRelease_swallowed (h : Tracked p w) {k : Key} {w' : World}
    (hk : k ∈ w.capture.hotkeySwallowedKeys)
    (hs : step p w ⟨r, .keyRelease k⟩ = some w') : Tracked p w' := by
  obtain ⟨hpr, -, hsw, ho⟩ :=
    @processEvent_keyRelease_swallowed r w.enabled w.capture k hk
  simp only [step, Physical.next, if_pos (h.swallowed hk)] at hs
  rw [← Option.some.inj hs]
  refine ⟨?_, ?_, ?_, ?_, ?_⟩
  · show _ = w.down.keys.erase k
    rw [hpr, h.pressed]
  · show _ ⊆ w.down.keys.erase k
    rw [hsw]
    exact Finset.erase_subset_erase k h.swallowed
  · intro hoff
    simp only [ho, Option.getD_none] at hoff
    simp only [ho]
    exact h.off hoff
  · intro c hcm
    simp only [ho] at hcm
    obtain ⟨k', hk', hns, himg⟩ := h.keys c hcm
    have hne : k' ≠ k := by
      rintro rfl
      exact hns hk
    refine ⟨k', Finset.mem_erase.mpr ⟨hne, hk'⟩, ?_, himg⟩
    rw [hsw]
    exact fun hm => hns (Finset.mem_of_mem_erase hm)
  · intro c hcm
    simp only [ho] at hcm
    exact h.buttons c hcm

/-- Any other release. -/
theorem tracked_keyRelease_plain (h : Tracked p w) {k : Key} {w' : World}
    (hk : k ∉ w.capture.hotkeySwallowedKeys)
    (hs : step p w ⟨r, .keyRelease k⟩ = some w') : Tracked p w' := by
  obtain ⟨hpr, -, hsw, ho⟩ :=
    @processEvent_keyRelease_plain r w.enabled w.capture k hk
  by_cases hd : k ∈ w.down.keys
  · simp only [step, Physical.next, if_pos hd] at hs
    rw [← Option.some.inj hs]
    have hcl := client_plain h ho
    refine ⟨?_, ?_, ?_, ?_, ?_⟩
    · show _ = w.down.keys.erase k
      rw [hpr, h.pressed]
    · show _ ⊆ w.down.keys.erase k
      rw [hsw]
      intro k' hk'
      refine Finset.mem_erase.mpr ⟨?_, h.swallowed hk'⟩
      rintro rfl
      exact hk hk'
    · intro hoff
      rcases hcl with ⟨hen, -⟩ | ⟨-, hcl⟩
      · simp only [ho, forwardIf_toggled, Option.getD_none] at hoff
        rw [hen] at hoff
        cases hoff
      · exact hcl
    · intro c hcm
      show ∃ k' ∈ w.down.keys.erase k, k' ∉ _ ∧ keyImage p k' = some c
      rw [hsw]
      rcases hcl with ⟨-, hcl⟩ | ⟨-, hcl⟩
      · rw [hcl, mem_heldKeys_keyRelease] at hcm
        obtain ⟨k', hk', hns, himg⟩ := h.keys c hcm.1
        refine ⟨k', Finset.mem_erase.mpr ⟨?_, hk'⟩, hns, himg⟩
        rintro rfl
        exact hcm.2 himg
      · rw [hcl] at hcm
        cases hcm
    · intro c hcm
      rcases hcl with ⟨-, hcl⟩ | ⟨-, hcl⟩
      · rw [hcl, heldButtons_keyRelease] at hcm
        exact h.buttons c hcm
      · rw [hcl] at hcm
        cases hcm
  · simp only [step, Physical.next, if_neg hd] at hs
    cases hs

/-- An event that is not about keys: the key sets stay, and it is enough to
    say what the client holds afterwards. -/
theorem tracked_nonKey (h : Tracked p w) {ev : EventType} {w' : World}
    (hs : step p w ⟨r, ev⟩ = some w')
    (hp : ∀ k, ev ≠ .keyPress k) (hr : ∀ k, ev ≠ .keyRelease k)
    (hoff : w.enabled = false → w'.client = InputInjector.new)
    (hkeys : w'.client.heldKeys = w.client.heldKeys)
    (hbuttons : ∀ c ∈ w'.client.heldButtons, ∃ b ∈ w'.down.buttons,
      buttonImage b = c) : Tracked p w' := by
  obtain ⟨hpr, -, hsw, ht⟩ := @processEvent_sets r w.enabled w.capture ev hp hr
  obtain ⟨d, hd, hw⟩ := step_some hs
  have hdown : d.keys = w.down.keys := Physical.next_keys hp hr hd
  refine ⟨?_, ?_, ?_, ?_, hbuttons⟩
  · rw [hw]
    show (processEvent r w.enabled w.capture ev).1.pressedKeys = d.keys
    rw [hpr, hdown, h.pressed]
  · rw [hw]
    show (processEvent r w.enabled w.capture ev).1.hotkeySwallowedKeys ⊆ d.keys
    rw [hsw, hdown]
    exact h.swallowed
  · intro hno
    refine hoff ?_
    rw [hw] at hno
    simpa only [ht, Option.getD_none] using hno
  · intro c hcm
    rw [hkeys] at hcm
    rw [hw]
    show ∃ k ∈ d.keys, k ∉ (processEvent r w.enabled w.capture
      ev).1.hotkeySwallowedKeys ∧ keyImage p k = some c
    rw [hsw, hdown]
    exact h.keys c hcm

/-- Such an event when it is forwarded as `e` while forwarding is on. -/
theorem tracked_forwarded (h : Tracked p w) {ev : EventType} {e : Event}
    {w' : World} (hs : step p w ⟨r, ev⟩ = some w')
    (hp : ∀ k, ev ≠ .keyPress k) (hr : ∀ k, ev ≠ .keyRelease k)
    (ho : (processEvent r w.enabled w.capture ev).2 = forwardIf w.enabled e)
    (hkeys : (injectorAfter p w.client (.input e)).heldKeys
      = w.client.heldKeys)
    (hbuttons : ∀ c ∈ (injectorAfter p w.client (.input e)).heldButtons,
      ∃ b ∈ w'.down.buttons, buttonImage b = c) : Tracked p w' := by
  obtain ⟨d, hd, hw⟩ := step_some hs
  have hcl : w'.client = injectorAfterAll p w.client
      (emitted (processEvent r w.enabled w.capture ev).2) := by rw [hw]
  rcases client_plain h ho with ⟨hen, hon⟩ | ⟨hen, hoff⟩
  · refine tracked_nonKey h hs hp hr ?_ ?_ ?_
    · intro hno
      rw [hen] at hno
      cases hno
    · rw [hcl, hon, hkeys]
    · rw [hcl, hon]
      exact hbuttons
  · refine tracked_nonKey h hs hp hr ?_ ?_ ?_
    · intro _
      rw [hcl, hoff]
    · rw [hcl, hoff, h.off hen]
    · rw [hcl, hoff]
      exact fun _ hc => nomatch hc

/-- **ONE EVENT**: every event that takes the route of the press before it
    keeps the client tracked. -/
theorem step_tracked (w : World) (a : Captured) (w' : World)
    (h : Tracked p w) (hok : SameRoute w a) (hs : step p w a = some w') :
    Tracked p w' := by
  obtain ⟨r, ev⟩ := a
  obtain ⟨d, hd, hw⟩ := step_some hs
  cases ev with
  | keyPress k =>
      by_cases hc : Completes w.capture k
      · exact tracked_keyPress_chord h hc hok hs
      · exact tracked_keyPress_plain h hc hok hs
  | keyRelease k =>
      by_cases hk : k ∈ w.capture.hotkeySwallowedKeys
      · exact tracked_keyRelease_swallowed h hk hs
      · exact tracked_keyRelease_plain h hk hs
  | buttonPress b =>
      refine tracked_forwarded h hs (by simp) (by simp) rfl rfl ?_
      intro c hcm
      rw [hw, ← Option.some.inj hd]
      rcases mem_heldButtons_press.mp hcm with hcm | rfl
      · obtain ⟨b', hb', himg⟩ := h.buttons c hcm
        exact ⟨b', Finset.mem_insert_of_mem hb', himg⟩
      · exact ⟨b, Finset.mem_insert_self b _, rfl⟩
  | buttonRelease b =>
      refine tracked_forwarded h hs (by simp) (by simp) rfl rfl ?_
      intro c hcm
      by_cases hb : b ∈ w.down.buttons
      · simp only [Physical.next, if_pos hb] at hd
        rw [hw, ← Option.some.inj hd]
        obtain ⟨hcm, hne⟩ := mem_heldButtons_release.mp hcm
        obtain ⟨b', hb', himg⟩ := h.buttons c hcm
        refine ⟨b', Finset.mem_erase.mpr ⟨?_, hb'⟩, himg⟩
        rintro rfl
        exact hne himg.symm
      · simp only [Physical.next, if_neg hb] at hd
        cases hd
  | mouseMove x y =>
      obtain ⟨-, ht, hf⟩ := processEvent_mouseMove r w.enabled w.capture x y
      -- a cursor motion does not touch the held lists
      have hsame : w'.client = w.client := by
        rw [hw]
        show injectorAfterAll p w.client (emitted _) = w.client
        rcases hf with hf | ⟨-, dx, dy, hf⟩
        · rw [emitted_silent hf ht]
          rfl
        · rw [emitted_input hf ht]
          rfl
      refine tracked_nonKey h hs (by simp) (by simp) ?_ (by rw [hsame]) ?_
      · intro hoff
        rw [hsame, h.off hoff]
      · rw [hsame, hw, ← Option.some.inj hd]
        exact h.buttons
  | wheel dx dy =>
      refine tracked_forwarded h hs (by simp) (by simp) rfl rfl ?_
      rw [hw, ← Option.some.inj hd]
      exact h.buttons

end Steps

/-! ## Whole runs -/

/-- **NO KEY STAYS STUCK ON THE CLIENT**: for every chord, every initial flag
    and every sequence of captured events whose repeats take the route of the
    press before them, the client holds only images of what is down. -/
theorem client_holds_only_down (p : Platform) (enabled : Bool)
    (hotkey : Option HotkeyChord) (evs : List Captured) (w : World)
    (hrun : exec (step p) (World.start enabled hotkey) evs = some w)
    (hok : Guarded (step p) SameRoute (World.start enabled hotkey) evs) :
    HeldIsDown p w :=
  (invariant_exec step_tracked evs _ w (tracked_start p enabled hotkey)
    hok hrun).heldIsDown

/-- An event captured at the start of the clock. -/
def at0 (ev : EventType) : Captured := ⟨Readings.zero, ev⟩

/-- A run that meets the condition: the chord switches forwarding on, its key
    repeats and is released first, and then `A` is held. -/
theorem client_holds_only_down_after_chord :
    ∃ w, HeldIsDown .linux w ∧ w.enabled = true ∧
      w.client.heldKeys = [.unicode 'a'] := by
  let evs : List Captured :=
    [at0 (.keyPress .controlLeft), at0 (.keyPress .alt), at0 (.keyPress .keyF),
      at0 (.keyPress .keyF), at0 (.keyRelease .keyF),
      at0 (.keyRelease .controlLeft), at0 (.keyRelease .alt),
      at0 (.keyPress .keyA), at0 (.keyPress .keyA)]
  have hrun : (exec (step .linux) (World.start false (some ctrlAltF)) evs).map
      (fun w => (w.enabled, w.client.heldKeys))
        = some (true, [.unicode 'a']) := by
    decide
  obtain ⟨w, hw, hv⟩ := Option.map_eq_some_iff.mp hrun
  refine ⟨w, client_holds_only_down .linux false (some ctrlAltF) evs w hw
    (by decide), ?_, ?_⟩
  · exact congrArg Prod.fst hv
  · exact congrArg Prod.snd hv

/-- **A REPEAT OF THE HOTKEY'S KEY STICKS**: Ctrl+Alt+F switches forwarding
    on; Ctrl is released while F is still down; the next repeat of F no longer
    completes the chord and is forwarded; the release of F is swallowed.
    Nothing but Alt is down, and the client holds `f`. -/
theorem client_holds_released_key :
    ∃ w, exec (step .linux) (World.start false (some ctrlAltF))
        [at0 (.keyPress .controlLeft), at0 (.keyPress .alt),
          at0 (.keyPress .keyF), at0 (.keyRelease .controlLeft),
          at0 (.keyPress .keyF), at0 (.keyRelease .keyF)] = some w ∧
      w.down.keys = {.alt} ∧ w.client.heldKeys = [.unicode 'f'] ∧
      ¬ HeldIsDown .linux w := by
  refine ⟨_, rfl, by decide, by decide, ?_⟩
  rintro ⟨hkeys, -⟩
  obtain ⟨k, hk, himg⟩ := hkeys (.unicode 'f') (by decide)
  have hkalt : k = .alt := Finset.mem_singleton.mp hk
  rw [hkalt] at himg
  cases himg

end KvmStuckKey
