import KvmRs.HeldInputProofs
import KvmRs.StuckKeyProofs

/-! # Keys with one image

    Two keys of the server can be one key of the client: both Alts, both
    Metas, both Returns, the numpad and the digits off Windows; every unknown
    button is the left one.  The client keeps a set, so the release of one of
    them lifts the key that the other holds.  That is the only way in which a
    key is released early: there is no hotkey here, and forwarding stays
    on. -/

namespace KvmAlias

open KvmEnvelope KvmKeymap KvmInject KvmCapture HeldOrder
open KvmStuckKey (Captured at0 emitted_input emitted_silent)
open KvmHeldInput (Op)

/-- What the session does with an envelope; every press takes. -/
def clientOps : Envelope → List Op
  | .input ev => [.inject ev true]
  | .toggleForward on => if on then [] else [.releaseAll]
  | _ => []

/-- The server's capture, and the client with what it has down. -/
structure World where
  capture : CaptureState
  client : KvmHeldInput.World
  deriving DecidableEq

def World.start : World where
  capture := CaptureState.start true none
  client := KvmHeldInput.World.new

/-- One captured event while forwarding is on, run through to the client. -/
def step (p : Platform) (w : World) (a : Captured) : World :=
  let out := processEvent a.readings true w.capture a.event
  { capture := out.1
    client := ((emitted out.2).flatMap clientOps).foldl (KvmHeldInput.step p)
      w.client }

def run (p : Platform) (evs : List Captured) : World :=
  evs.foldl (step p) World.start

/-- What is done to the keys of the server. -/
def keyStroke (a : Captured) : Stroke Key :=
  match a.event with
  | .keyPress k => .press k
  | .keyRelease k => .release k
  | _ => .other

/-- What is done to the buttons of the server. -/
def buttonStroke (a : Captured) : Stroke Button :=
  match a.event with
  | .buttonPress b => .press b
  | .buttonRelease b => .release b
  | _ => .other

/-- The injector of this client is the one of the session. -/
theorem client_injector (p : Platform) (c : KvmHeldInput.World) (e : Envelope) :
    ((clientOps e).foldl (KvmHeldInput.step p) c).injector
      = injectorAfter p c.injector e := by
  cases e with
  | input ev => cases ev <;> rfl
  | toggleForward on => cases on <;> rfl
  | _ => rfl

/-! ## One event -/

section Steps

variable {p : Platform} {w : World} {r : Readings}

/-- Without a hotkey no press completes it and no release is swallowed. -/
structure Plain (st : CaptureState) : Prop where
  hotkey : st.hotkey = none
  swallowed : st.hotkeySwallowedKeys = ∅

theorem Plain.not_completes {st : CaptureState} (h : Plain st) (k : Key) :
    ¬ Completes st k := by
  rw [Completes, h.hotkey]
  exact Bool.false_ne_true

theorem Plain.not_swallowed {st : CaptureState} (h : Plain st) (k : Key) :
    k ∉ st.hotkeySwallowedKeys := by
  rw [h.swallowed]
  exact Finset.notMem_empty k

/-- The client gets one input, and it is about the images of the keys and
    buttons that the event is about. -/
structure Forwards (p : Platform) (w : World) (a : Captured) (ev : Event) :
    Prop where
  input : ev ≠ .releaseAll
  client : (step p w a).client = KvmHeldInput.step p w.client (.inject ev true)
  keys : KvmHeldInput.keyStroke p (.inject ev true)
    = (keyStroke a).map (keyImage p)
  buttons : KvmHeldInput.buttonStroke (.inject ev true)
    = (buttonStroke a).map (some ∘ buttonImage)

theorem client_input {a : Captured} {ev : Event}
    (h : (processEvent a.readings true w.capture a.event).2
      = forwardIf true ev) :
    (step p w a).client = KvmHeldInput.step p w.client (.inject ev true) := by
  rw [step, h]
  rfl

/-- A cursor motion leaves what is down. -/
theorem os_mouseMove (x y : Int) :
    (step p w ⟨r, .mouseMove x y⟩).client.os = w.client.os := by
  obtain ⟨-, ht, hf⟩ := processEvent_mouseMove r true w.capture x y
  rw [step]
  rcases hf with hf | ⟨-, dx, dy, hf⟩
  · rw [emitted_silent hf ht]
    rfl
  · rw [emitted_input hf ht]
    rfl

/-- The event is no stroke and leaves what is down. -/
structure Idles (p : Platform) (w : World) (a : Captured) : Prop where
  os : (step p w a).client.os = w.client.os
  keys : keyStroke a = .other
  buttons : buttonStroke a = .other

/-- Everything but a cursor motion is forwarded. -/
theorem forwards_or_idles (h : Plain w.capture) (a : Captured) :
    (∃ ev, Forwards p w a ev) ∨ Idles p w a := by
  obtain ⟨r, ev⟩ := a
  cases ev with
  | keyPress k =>
      obtain ⟨-, -, -, hout⟩ :=
        @processEvent_keyPress_plain r true w.capture k (h.not_completes k)
      exact Or.inl ⟨_, by simp, client_input hout, rfl, rfl⟩
  | keyRelease k =>
      obtain ⟨-, -, -, hout⟩ :=
        @processEvent_keyRelease_plain r true w.capture k (h.not_swallowed k)
      exact Or.inl ⟨_, by simp, client_input hout, rfl, rfl⟩
  | buttonPress b => exact Or.inl ⟨_, by simp, client_input rfl, rfl, rfl⟩
  | buttonRelease b => exact Or.inl ⟨_, by simp, client_input rfl, rfl, rfl⟩
  | wheel dx dy => exact Or.inl ⟨_, by simp, client_input rfl, rfl, rfl⟩
  | mouseMove x y => exact Or.inr ⟨os_mouseMove x y, rfl, rfl⟩

/-- A key of the client is down after an event exactly if the event presses
    a key with this image, or leaves it down. -/
theorem mem_keys_step (h : Plain w.capture) (a : Captured) (c : EnigoKey) :
    c ∈ (step p w a).client.os.keys
      ↔ (keyStroke a).map (keyImage p) = .press c ∨
        (c ∈ w.client.os.keys ∧ ¬ ((keyStroke a).map (keyImage p)).Lifts c) := by
  rcases @forwards_or_idles p w h a with ⟨ev, hev⟩ | hidle
  · rw [hev.client, KvmHeldInput.step_inject hev.input, ← hev.keys]
    exact mem_lower
  · rw [hidle.os, hidle.keys]
    simp [Stroke.map, Stroke.Lifts]

/-- And so is a button. -/
theorem mem_buttons_step (h : Plain w.capture) (a : Captured)
    (c : EnigoButton) :
    c ∈ (step p w a).client.os.buttons
      ↔ (buttonStroke a).map (some ∘ buttonImage) = .press c ∨
        (c ∈ w.client.os.buttons ∧
          ¬ ((buttonStroke a).map (some ∘ buttonImage)).Lifts c) := by
  rcases @forwards_or_idles p w h a with ⟨ev, hev⟩ | hidle
  · rw [hev.client, KvmHeldInput.step_inject hev.input, ← hev.buttons]
    exact mem_lower
  · rw [hidle.os, hidle.buttons]
    simp [Stroke.map, Stroke.Lifts]

/-- No event makes the capture learn of a hotkey. -/
theorem step_plain (h : Plain w.capture) (a : Captured) :
    Plain (step p w a).capture := by
  obtain ⟨r, ev⟩ := a
  -- every specification says what becomes of the two fields
  have hkept : (processEvent r true w.capture ev).1.hotkey = w.capture.hotkey ∧
      (processEvent r true w.capture ev).1.hotkeySwallowedKeys
        = w.capture.hotkeySwallowedKeys := by
    cases ev with
    | keyPress k =>
        obtain ⟨-, hhotkey, hswallowed, -⟩ :=
          @processEvent_keyPress_plain r true w.capture k (h.not_completes k)
        exact ⟨hhotkey, hswallowed⟩
    | keyRelease k =>
        obtain ⟨-, hhotkey, hswallowed, -⟩ :=
          @processEvent_keyRelease_plain r true w.capture k (h.not_swallowed k)
        exact ⟨hhotkey, hswallowed⟩
    | buttonPress b => exact ⟨rfl, rfl⟩
    | buttonRelease b => exact ⟨rfl, rfl⟩
    | wheel dx dy => exact ⟨rfl, rfl⟩
    | mouseMove x y =>
        obtain ⟨-, hhotkey, hswallowed, -⟩ :=
          @processEvent_sets r true w.capture (.mouseMove x y) (by simp) (by simp)
        exact ⟨hhotkey, hswallowed⟩
  exact ⟨hkept.1.trans h.hotkey, hkept.2.trans h.swallowed⟩

end Steps

/-! ## Whole runs -/

section Runs

variable (p : Platform) (evs : List Captured)

theorem run_snoc (a : Captured) : run p (evs ++ [a]) = step p (run p evs) a := by
  rw [run, List.foldl_append]
  rfl

theorem run_plain : Plain (run p evs).capture := by
  induction evs using List.reverseRecOn with
  | nil => exact ⟨rfl, rfl⟩
  | append_singleton evs a ih =>
      rw [run_snoc]
      exact step_plain ih a

/-- What the strokes on the server's keys are on the client's. -/
def keyStrokes : List (Stroke EnigoKey) :=
  (evs.map keyStroke).map (Stroke.map (keyImage p))

/-- What the strokes on the server's buttons are on the client's. -/
def buttonStrokes : List (Stroke EnigoButton) :=
  (evs.map buttonStroke).map (Stroke.map (some ∘ buttonImage))

/-- A key is down on the client exactly if the last stroke on a key with this
    image was a press. -/
theorem mem_keys_run (c : EnigoKey) :
    c ∈ (run p evs).client.os.keys ↔ Held (keyStrokes p evs) c := by
  induction evs using List.reverseRecOn with
  | nil => exact iff_of_false (Finset.notMem_empty c) not_held_nil
  | append_singleton evs a ih =>
      rw [run_snoc, mem_keys_step (run_plain p evs), ih, keyStrokes, keyStrokes,
        List.map_append, List.map_append]
      exact held_snoc.symm

theorem mem_buttons_run (c : EnigoButton) :
    c ∈ (run p evs).client.os.buttons ↔ Held (buttonStrokes evs) c := by
  induction evs using List.reverseRecOn with
  | nil => exact iff_of_false (Finset.notMem_empty c) not_held_nil
  | append_singleton evs a ih =>
      rw [run_snoc, mem_buttons_step (run_plain p evs), ih, buttonStrokes,
        buttonStrokes, List.map_append, List.map_append]
      exact held_snoc.symm

end Runs

/-- While a key or button of the server is down that was pressed in the run,
    its image is down on the client exactly if nothing else with this image
    was released since something with this image was last pressed; and always
    if nothing else has this image. -/
structure ReleasedByAlias (p : Platform) (evs : List Captured) (w : World) :
    Prop where
  keys : ∀ k c, keyImage p k = some c → Held (evs.map keyStroke) k →
    (c ∈ w.client.os.keys
      ↔ ¬ LiftedByOther (keyImage p) (evs.map keyStroke) k c)
  lone_keys : ∀ k c, keyImage p k = some c →
    (∀ k', keyImage p k' = some c → k' = k) →
    Held (evs.map keyStroke) k → c ∈ w.client.os.keys
  buttons : ∀ b, Held (evs.map buttonStroke) b →
    (buttonImage b ∈ w.client.os.buttons
      ↔ ¬ LiftedByOther (some ∘ buttonImage) (evs.map buttonStroke) b
        (buttonImage b))
  lone_buttons : ∀ b, (∀ b', buttonImage b' = buttonImage b → b' = b) →
    Held (evs.map buttonStroke) b → buttonImage b ∈ w.client.os.buttons

/-- **ONLY AN ALIAS RELEASES EARLY**: for every sequence of captured events
    with forwarding on and no hotkey. -/
theorem only_alias_releases_early (p : Platform) (evs : List Captured) :
    ReleasedByAlias p evs (run p evs) where
  keys := by
    intro k c hc hk
    rw [mem_keys_run]
    exact held_map_iff hc hk
  lone_keys := by
    intro k c hc hlone hk
    rw [mem_keys_run]
    exact held_map_of_unique hc hk hlone
  buttons := by
    intro b hb
    rw [mem_buttons_run]
    exact held_map_iff rfl hb
  lone_buttons := by
    intro b hlone hb
    rw [mem_buttons_run]
    exact held_map_of_unique rfl hb fun b' hb' => hlone b' (Option.some.inj hb')

/-- **ALTGR LETS GO OF ALT**: Alt is pressed, then AltGr; AltGr is released.
    Alt is still down on the server, and no longer on the client. -/
theorem altGr_releases_alt :
    let evs := [at0 (.keyPress .alt), at0 (.keyPress .altGr),
      at0 (.keyRelease .altGr)]
    Held (evs.map keyStroke) .alt ∧ keyImage .linux .alt = some .alt ∧
      .alt ∉ (run .linux evs).client.os.keys := by
  refine ⟨⟨[], [.press .altGr, .release .altGr], rfl, ?_⟩, by decide, by decide⟩
  intro s hs
  rcases List.mem_cons.mp hs with rfl | hs
  · exact not_false
  · rw [List.mem_singleton.mp hs]
    exact Key.noConfusion

end KvmAlias
