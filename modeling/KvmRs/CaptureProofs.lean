import Mathlib.Data.Finset.Basic
import Mathlib.Data.Finset.Insert
import KvmRs.KeymapProofs

/-! # Input capture on the server

    The capture callback of `server/src/capture.rs`, one event at a time.
    `enabled` is shared with the rest of the server, so it is not part of
    `CaptureState`: the value that `process_event` loads is an argument, and
    the value it stores, when the hotkey fires, is `toggled` of the outcome.
    Clock readings, the display size and whether the cursor warp succeeded
    come from outside as `Readings`.

    The section on specifications says once, per kind of event, what the
    callback changes and emits; the files on stuck keys and on interleavings
    use only those statements. -/

namespace KvmCapture

open KvmEnvelope KvmKeymap

/-- Minimum time between hotkey activations (250 ms, in nanoseconds). -/
def HOTKEY_DEBOUNCE : Nat := 250 * 10 ^ 6

/-- Distance in pixels from a screen edge that triggers the cursor warp. -/
def EDGE_THRESHOLD : Int := 2

/-- A parsed toggle chord: required modifiers and one trigger key. -/
structure HotkeyChord where
  ctrl : Bool
  alt : Bool
  shift : Bool
  metaKey : Bool
  key : Key
  deriving DecidableEq

/-- The default `toggle_forward` hotkey, Ctrl+Alt+F. -/
def ctrlAltF : HotkeyChord where
  ctrl := true
  alt := true
  shift := false
  metaKey := false
  key := .keyF

/-- `rdev::EventType`, with integer cursor positions. -/
inductive EventType where
  | keyPress (k : Key)
  | keyRelease (k : Key)
  | buttonPress (b : Button)
  | buttonRelease (b : Button)
  | mouseMove (x y : Int)
  | wheel (deltaX deltaY : Int64)
  deriving DecidableEq

/-- What the callback reads from its surroundings: `Instant::now()` in
    nanoseconds, `rdev::display_size()`, and whether `rdev::simulate`
    succeeds. -/
structure Readings where
  now : Nat
  displaySize : Option (Nat × Nat)
  simulateOk : Bool
  deriving DecidableEq

/-- No time has passed and there is no display to ask. -/
def Readings.zero : Readings where
  now := 0
  displaySize := none
  simulateOk := true

structure CaptureState where
  wasEnabled : Bool
  lastX : Int
  lastY : Int
  pressedKeys : Finset Key
  warping : Bool
  seedNext : Bool
  lastHotkeyFire : Option Nat
  hotkey : Option HotkeyChord
  hotkeySwallowedKeys : Finset Key
  deriving DecidableEq

/-- The state that `InputCapture::start` creates. -/
def CaptureState.start (enabled : Bool) (hotkey : Option HotkeyChord) :
    CaptureState where
  wasEnabled := enabled
  lastX := 0
  lastY := 0
  pressedKeys := ∅
  warping := false
  seedNext := true
  lastHotkeyFire := none
  hotkey := hotkey
  hotkeySwallowedKeys := ∅

/-- What the callback decided: whether the local OS must not see the event,
    what to forward, and the new value of `enabled` if the hotkey fired. -/
structure ProcessOutcome where
  swallow : Bool
  forward : Option Event
  toggled : Option Bool
  deriving DecidableEq

/-- `ProcessOutcome::default()`. -/
def ProcessOutcome.default : ProcessOutcome where
  swallow := false
  forward := none
  toggled := none

/-! ## Modifiers and the chord -/

def CTRL : UInt8 := 1
def ALT : UInt8 := 2
def SHIFT : UInt8 := 4
def META : UInt8 := 8

def computeModifiers (pressed : Finset Key) : UInt8 :=
  (if .controlLeft ∈ pressed ∨ .controlRight ∈ pressed then CTRL else 0)
    ||| (if .alt ∈ pressed ∨ .altGr ∈ pressed then ALT else 0)
    ||| (if .shiftLeft ∈ pressed ∨ .shiftRight ∈ pressed then SHIFT else 0)
    ||| (if .metaLeft ∈ pressed ∨ .metaRight ∈ pressed then META else 0)

def chordSatisfied (hk : HotkeyChord) (mods : UInt8) : Bool :=
  let required : UInt8 :=
    (if hk.ctrl then CTRL else 0) ||| (if hk.alt then ALT else 0)
      ||| (if hk.shift then SHIFT else 0) ||| (if hk.metaKey then META else 0)
  mods &&& required == required

/-- A press of `key` with these modifiers completes the chord. -/
def consumesChord (hotkey : Option HotkeyChord) (key : Key) (mods : UInt8) :
    Bool :=
  match hotkey with
  | some hk => key == hk.key && chordSatisfied hk mods
  | none => false

/-! ## The callback -/

/-- The hotkey was pressed: flip forwarding unless it fired just before.
    `duration_since` is zero for an earlier instant. -/
def tryFireHotkey (r : Readings) (st : CaptureState) (nowEnabled : Bool) :
    CaptureState × Option Bool :=
  let debounced : Bool :=
    match st.lastHotkeyFire with
    | some prev => decide (r.now - prev < HOTKEY_DEBOUNCE)
    | none => false
  if debounced then (st, none)
  else
    ({ st with
        lastHotkeyFire := some r.now
        wasEnabled := !nowEnabled
        seedNext := st.seedNext || !nowEnabled },
      some (!nowEnabled))

/-- The `as i32` cast of an integer-valued float: it saturates. -/
def asI32 (d : Int) : Int32 := Int32.ofInt (max (-2 ^ 31) (min (2 ^ 31 - 1) d))

/-- The cursor is at an edge of the display. -/
def nearEdge (w h : Nat) (x y : Int) : Bool :=
  decide (x ≤ EDGE_THRESHOLD ∨ y ≤ EDGE_THRESHOLD
    ∨ (w : Int) - 1 - EDGE_THRESHOLD ≤ x ∨ (h : Int) - 1 - EDGE_THRESHOLD ≤ y)

/-- The cursor moved: the move that completes a warp and the first move after
    switching on only seed the position. -/
def processMouseMove (r : Readings) (st : CaptureState) (x y : Int)
    (nowEnabled : Bool) : CaptureState × Option Event :=
  if st.warping then
    ({ st with warping := false, lastX := x, lastY := y }, none)
  else if st.seedNext then
    ({ st with seedNext := false, lastX := x, lastY := y }, none)
  else
    let dx := asI32 (x - st.lastX)
    let dy := asI32 (y - st.lastY)
    let warp : Bool :=
      match nowEnabled, r.displaySize with
      | true, some (w, h) =>
          decide (0 < w) && decide (0 < h) && nearEdge w h x y && r.simulateOk
      | _, _ => false
    ({ st with warping := warp, lastX := x, lastY := y },
      if nowEnabled = true ∧ (dx ≠ 0 ∨ dy ≠ 0) then some (.mouseDelta dx dy)
      else none)

/-- An event that is forwarded and kept from the local OS while forwarding
    is on, and left alone while it is off. -/
def forwardIf (nowEnabled : Bool) (ev : Event) : ProcessOutcome :=
  if nowEnabled then { swallow := true, forward := some ev, toggled := none }
  else ProcessOutcome.default

/-- One captured event, with the value of `enabled` that was loaded. -/
def processEvent (r : Readings) (nowEnabled : Bool) (st₀ : CaptureState) :
    EventType → CaptureState × ProcessOutcome :=
  -- forwarding just turned on: the next mouse move only seeds the position
  let st : CaptureState := { st₀ with
    wasEnabled := nowEnabled
    seedNext := st₀.seedNext || (nowEnabled && !st₀.wasEnabled) }
  fun
  | .keyPress key =>
      let pressed := insert key st.pressedKeys
      let mods := computeModifiers pressed
      if consumesChord st.hotkey key mods then
        let st' := { st with
          pressedKeys := pressed
          hotkeySwallowedKeys := insert key st.hotkeySwallowedKeys }
        if key ∈ st.pressedKeys then
          (st', { swallow := true, forward := none, toggled := none })
        else
          let fired := tryFireHotkey r st' nowEnabled
          (fired.1, { swallow := true, forward := none, toggled := fired.2 })
      else
        ({ st with pressedKeys := pressed },
          forwardIf nowEnabled (.keyPress (keyToCode key) mods))
  | .keyRelease key =>
      let pressed := st.pressedKeys.erase key
      let mods := computeModifiers pressed
      -- only a key whose press was consumed has its release swallowed
      if key ∈ st.hotkeySwallowedKeys then
        ({ st with
            pressedKeys := pressed
            hotkeySwallowedKeys := st.hotkeySwallowedKeys.erase key },
          { swallow := true, forward := none, toggled := none })
      else
        ({ st with pressedKeys := pressed },
          forwardIf nowEnabled (.keyRelease (keyToCode key) mods))
  | .buttonPress b =>
      (st, forwardIf nowEnabled (.mouseButtonPress (convertMouseButton b)))
  | .buttonRelease b =>
      (st, forwardIf nowEnabled (.mouseButtonRelease (convertMouseButton b)))
  | .wheel deltaX deltaY =>
      (st, forwardIf nowEnabled (.wheel deltaX.toInt32 deltaY.toInt32))
  | .mouseMove x y =>
      let moved := processMouseMove r st x y nowEnabled
      (moved.1, { swallow := false, forward := moved.2, toggled := none })

/-- What the callback hands to the forwarder task. -/
inductive CaptureEvent where
  | input (ev : Event)
  | forwardingToggled (on : Bool)
  deriving DecidableEq

/-- The sends of `dispatch`: the toggle first, then the input. -/
def captureEvents (o : ProcessOutcome) : List CaptureEvent :=
  (o.toggled.map CaptureEvent.forwardingToggled).toList
    ++ (o.forward.map CaptureEvent.input).toList

/-- The forwarder's broadcasts for one message of the capture channel. -/
def forwarderBroadcasts : CaptureEvent → List Envelope
  | .input ev => [.input ev]
  | .forwardingToggled on =>
      (if on then [] else [.input .releaseAll]) ++ [.toggleForward on]

/-- Everything one captured event makes the forwarder broadcast. -/
def emitted (o : ProcessOutcome) : List Envelope :=
  (captureEvents o).flatMap forwarderBroadcasts

/-! ## Specifications -/

section Specs

variable {r : Readings} {en : Bool} {st : CaptureState}

@[simp] theorem forwardIf_toggled (ev : Event) :
    (forwardIf en ev).toggled = none := by
  cases en <;> rfl

@[simp] theorem forwardIf_swallow (ev : Event) :
    (forwardIf en ev).swallow = en := by
  cases en <;> rfl

/-- What `forwardIf` forwards is its own event, and only while on. -/
theorem forwardIf_forward {ev e : Event}
    (h : (forwardIf en ev).forward = some e) : en = true ∧ e = ev := by
  cases en with
  | true => exact ⟨rfl, (Option.some.inj h).symm⟩
  | false => cases h

/-- The hotkey is debounced, or it fires. -/
theorem tryFireHotkey_cases (r : Readings) (st : CaptureState) (en : Bool) :
    tryFireHotkey r st en = (st, none) ∨
      tryFireHotkey r st en = ({ st with
        lastHotkeyFire := some r.now
        wasEnabled := !en
        seedNext := st.seedNext || !en }, some (!en)) := by
  -- the two branches of the debounce test
  have hsplit : ∀ b : Bool, (if b then (st, none) else
      ({ st with
          lastHotkeyFire := some r.now
          wasEnabled := !en
          seedNext := st.seedNext || !en }, some (!en)))
      = tryFireHotkey r st en →
      (tryFireHotkey r st en = (st, none) ∨
        tryFireHotkey r st en = ({ st with
          lastHotkeyFire := some r.now
          wasEnabled := !en
          seedNext := st.seedNext || !en }, some (!en))) := by
    intro b hb
    cases b with
    | true => exact Or.inl hb.symm
    | false => exact Or.inr hb.symm
  exact hsplit _ rfl

/-- Firing the hotkey flips the loaded value and touches no key set. -/
theorem tryFireHotkey_spec (r : Readings) (st : CaptureState) (en : Bool) :
    (tryFireHotkey r st en).1.pressedKeys = st.pressedKeys ∧
      (tryFireHotkey r st en).1.hotkey = st.hotkey ∧
      (tryFireHotkey r st en).1.hotkeySwallowedKeys = st.hotkeySwallowedKeys ∧
      ((tryFireHotkey r st en).2 = none ∨
        (tryFireHotkey r st en).2 = some (!en)) := by
  rcases tryFireHotkey_cases r st en with h | h
  · rw [h]
    exact ⟨rfl, rfl, rfl, Or.inl rfl⟩
  · rw [h]
    exact ⟨rfl, rfl, rfl, Or.inr rfl⟩

/-- The chord is completed by this press. -/
def Completes (st : CaptureState) (k : Key) : Prop :=
  consumesChord st.hotkey k (computeModifiers (insert k st.pressedKeys)) = true

instance completesDecidable (st : CaptureState) (k : Key) :
    Decidable (Completes st k) :=
  inferInstanceAs (Decidable (_ = true))

/-- A press that completes the chord: swallowed, nothing forwarded, and on a
    first press possibly a toggle. -/
theorem processEvent_keyPress_chord {k : Key} (h : Completes st k) :
    (processEvent r en st (.keyPress k)).1.pressedKeys
        = insert k st.pressedKeys ∧
      (processEvent r en st (.keyPress k)).1.hotkey = st.hotkey ∧
      (processEvent r en st (.keyPress k)).1.hotkeySwallowedKeys
        = insert k st.hotkeySwallowedKeys ∧
      (processEvent r en st (.keyPress k)).2.swallow = true ∧
      (processEvent r en st (.keyPress k)).2.forward = none ∧
      ((processEvent r en st (.keyPress k)).2.toggled = none ∨
        ((processEvent r en st (.keyPress k)).2.toggled = some (!en)
          ∧ k ∉ st.pressedKeys)) := by
  have hc : consumesChord st.hotkey k
      (computeModifiers (insert k st.pressedKeys)) = true := h
  by_cases hr : k ∈ st.pressedKeys
  · simp only [processEvent, hc, if_pos hr, if_true, true_or, and_self]
  · simp only [processEvent, hc, if_neg hr, if_true]
    obtain ⟨h1, h2, h3, h4⟩ := tryFireHotkey_spec r
      { st with
        wasEnabled := en
        seedNext := st.seedNext || (en && !st.wasEnabled)
        pressedKeys := insert k st.pressedKeys
        hotkeySwallowedKeys := insert k st.hotkeySwallowedKeys } en
    refine ⟨h1, h2, h3, trivial, trivial, ?_⟩
    rcases h4 with h4 | h4
    · exact Or.inl h4
    · exact Or.inr ⟨h4, hr⟩

/-- Any other press: forwarded exactly while forwarding is on. -/
theorem processEvent_keyPress_plain {k : Key} (h : ¬ Completes st k) :
    (processEvent r en st (.keyPress k)).1.pressedKeys
        = insert k st.pressedKeys ∧
      (processEvent r en st (.keyPress k)).1.hotkey = st.hotkey ∧
      (processEvent r en st (.keyPress k)).1.hotkeySwallowedKeys
        = st.hotkeySwallowedKeys ∧
      (processEvent r en st (.keyPress k)).2 = forwardIf en
        (.keyPress (keyToCode k)
          (computeModifiers (insert k st.pressedKeys))) := by
  have hc : ¬ consumesChord st.hotkey k
      (computeModifiers (insert k st.pressedKeys)) = true := h
  simp only [processEvent, if_neg hc]
  exact ⟨trivial, trivial, trivial, trivial⟩

/-- The release of a key whose press was consumed: swallowed and forgotten. -/
theorem processEvent_keyRelease_swallowed {k : Key}
    (h : k ∈ st.hotkeySwallowedKeys) :
    (processEvent r en st (.keyRelease k)).1.pressedKeys
        = st.pressedKeys.erase k ∧
      (processEvent r en st (.keyRelease k)).1.hotkey = st.hotkey ∧
      (processEvent r en st (.keyRelease k)).1.hotkeySwallowedKeys
        = st.hotkeySwallowedKeys.erase k ∧
      (processEvent r en st (.keyRelease k)).2
        = { swallow := true, forward := none, toggled := none } := by
  simp only [processEvent, if_pos h]
  exact ⟨trivial, trivial, trivial, trivial⟩

/-- Any other release: forwarded exactly while forwarding is on. -/
theorem processEvent_keyRelease_plain {k : Key}
    (h : k ∉ st.hotkeySwallowedKeys) :
    (processEvent r en st (.keyRelease k)).1.pressedKeys
        = st.pressedKeys.erase k ∧
      (processEvent r en st (.keyRelease k)).1.hotkey = st.hotkey ∧
      (processEvent r en st (.keyRelease k)).1.hotkeySwallowedKeys
        = st.hotkeySwallowedKeys ∧
      (processEvent r en st (.keyRelease k)).2 = forwardIf en
        (.keyRelease (keyToCode k)
          (computeModifiers (st.pressedKeys.erase k))) := by
  simp only [processEvent, if_neg h]
  exact ⟨trivial, trivial, trivial, trivial⟩

/-- Events that are not about keys leave the key sets and the chord alone. -/
theorem processEvent_sets {ev : EventType}
    (hp : ∀ k, ev ≠ .keyPress k) (hr : ∀ k, ev ≠ .keyRelease k) :
    (processEvent r en st ev).1.pressedKeys = st.pressedKeys ∧
      (processEvent r en st ev).1.hotkey = st.hotkey ∧
      (processEvent r en st ev).1.hotkeySwallowedKeys
        = st.hotkeySwallowedKeys ∧
      (processEvent r en st ev).2.toggled = none := by
  cases ev with
  | keyPress k => exact absurd rfl (hp k)
  | keyRelease k => exact absurd rfl (hr k)
  | buttonPress b => exact ⟨rfl, rfl, rfl, forwardIf_toggled _⟩
  | buttonRelease b => exact ⟨rfl, rfl, rfl, forwardIf_toggled _⟩
  | wheel dx dy => exact ⟨rfl, rfl, rfl, forwardIf_toggled _⟩
  | mouseMove x y =>
      simp only [processEvent, processMouseMove]
      split
      · exact ⟨rfl, rfl, rfl, trivial⟩
      · split <;> exact ⟨rfl, rfl, rfl, trivial⟩

/-- A mouse move forwards a delta or nothing, and only while forwarding is
    on. -/
theorem processEvent_mouseMove (r : Readings) (en : Bool) (st : CaptureState)
    (x y : Int) :
    (processEvent r en st (.mouseMove x y)).2.swallow = false ∧
      (processEvent r en st (.mouseMove x y)).2.toggled = none ∧
      ((processEvent r en st (.mouseMove x y)).2.forward = none ∨
        (en = true ∧ ∃ dx dy,
          (processEvent r en st (.mouseMove x y)).2.forward
            = some (.mouseDelta dx dy))) := by
  refine ⟨rfl, rfl, ?_⟩
  simp only [processEvent, processMouseMove]
  split
  · exact Or.inl rfl
  · split
    · exact Or.inl rfl
    · simp only
      split
      · rename_i _ _ h
        exact Or.inr ⟨h.1, _, _, rfl⟩
      · exact Or.inl rfl

/-- **NOTHING IS FORWARDED WHILE OFF**: input leaves the callback only if the
    value loaded was `true`, never together with a toggle, and is never a
    `ReleaseAll`. -/
theorem forward_only_enabled {ev : EventType} {e : Event}
    (h : (processEvent r en st ev).2.forward = some e) :
    en = true ∧ (processEvent r en st ev).2.toggled = none ∧
      e ≠ .releaseAll := by
  -- every forwarding branch but the mouse move is a `forwardIf`
  have hplain : ∀ ev' : Event,
      (processEvent r en st ev).2 = forwardIf en ev' → ev' ≠ .releaseAll →
      en = true ∧ (processEvent r en st ev).2.toggled = none ∧
        e ≠ .releaseAll := by
    intro ev' ho hne
    rw [ho] at h ⊢
    obtain ⟨hen, he⟩ := forwardIf_forward h
    exact ⟨hen, forwardIf_toggled _, he ▸ hne⟩
  cases ev with
  | keyPress k =>
      by_cases hc : Completes st k
      · rw [(processEvent_keyPress_chord hc).2.2.2.2.1] at h
        cases h
      · exact hplain _ (processEvent_keyPress_plain hc).2.2.2
          (fun h => nomatch h)
  | keyRelease k =>
      by_cases hs : k ∈ st.hotkeySwallowedKeys
      · rw [(processEvent_keyRelease_swallowed hs).2.2.2] at h
        cases h
      · exact hplain _ (processEvent_keyRelease_plain hs).2.2.2
          (fun h => nomatch h)
  | buttonPress b => exact hplain _ rfl (fun h => nomatch h)
  | buttonRelease b => exact hplain _ rfl (fun h => nomatch h)
  | wheel dx dy => exact hplain _ rfl (fun h => nomatch h)
  | mouseMove x y =>
      obtain ⟨-, ht, hf⟩ := processEvent_mouseMove r en st x y
      rcases hf with hf | ⟨hen, dx, dy, hf⟩
      · rw [hf] at h
        cases h
      · rw [hf] at h
        rw [← Option.some.inj h]
        exact ⟨hen, ht, fun h => nomatch h⟩

end Specs

/-! ## The keyboard and mouse in front of the capture -/

/-- The keys and buttons physically down. -/
structure Physical where
  keys : Finset Key
  buttons : Finset Button
  deriving DecidableEq

def Physical.none : Physical where
  keys := ∅
  buttons := ∅

/-- The hardware behind an event: a press may repeat, a release needs the key
    or button to be down. -/
def Physical.next (d : Physical) : EventType → Option Physical
  | .keyPress k => some { d with keys := insert k d.keys }
  | .keyRelease k =>
      if k ∈ d.keys then some { d with keys := d.keys.erase k } else Option.none
  | .buttonPress b => some { d with buttons := insert b d.buttons }
  | .buttonRelease b =>
      if b ∈ d.buttons then some { d with buttons := d.buttons.erase b }
      else Option.none
  | .mouseMove _ _ => some d
  | .wheel _ _ => some d

/-- Only key events change which keys are down. -/
theorem Physical.next_keys {d d' : Physical} {ev : EventType}
    (hp : ∀ k, ev ≠ .keyPress k) (hr : ∀ k, ev ≠ .keyRelease k)
    (h : d.next ev = some d') : d'.keys = d.keys := by
  cases ev with
  | keyPress k => exact absurd rfl (hp k)
  | keyRelease k => exact absurd rfl (hr k)
  | buttonPress b => rw [← Option.some.inj h]
  | buttonRelease b =>
      by_cases hb : b ∈ d.buttons
      · simp only [Physical.next, if_pos hb] at h
        rw [← Option.some.inj h]
      · simp only [Physical.next, if_neg hb] at h
        cases h
  | mouseMove x y => rw [← Option.some.inj h]
  | wheel dx dy => rw [← Option.some.inj h]

end KvmCapture
