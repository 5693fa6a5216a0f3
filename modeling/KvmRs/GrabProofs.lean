import KvmRs.CaptureProofs
import KvmRs.TransitionProofs

/-! # Keys held on the server machine under `grab`

    Under `grab` the callback decides which events the local OS sees.  The OS
    believes a key down from the press it was shown until a release it is
    shown; this file asks when that belief stays within what is really down,
    with `enabled` stored to from outside between any two events.

    `localDown` records what was pressed locally: a press, first or repeated,
    with forwarding off and the chord not completed.  The belief stays right
    exactly as long as every release of a locally pressed key or button finds
    forwarding off and its key not swallowed (`os_down_iff`). -/

namespace KvmGrab

open KvmKeymap KvmCapture Transition

/-- The flag, the capture state, what is down, what the OS believes to be
    down, and what was pressed locally. -/
structure World where
  enabled : Bool
  capture : CaptureState
  down : Physical
  osDown : Physical
  localDown : Physical
  deriving DecidableEq

inductive Action where
  /-- The OS reports an event to the callback. -/
  | event (r : Readings) (ev : EventType)
  /-- Another part of the server stores to `enabled`. -/
  | store (on : Bool)
  deriving DecidableEq

def World.start (enabled : Bool) (hotkey : Option HotkeyChord) : World where
  enabled := enabled
  capture := CaptureState.start enabled hotkey
  down := Physical.none
  osDown := Physical.none
  localDown := Physical.none

/-- `handle_grab_event`: the event is passed on unless it is swallowed. -/
def handleGrabEvent (r : Readings) (enabled : Bool) (st : CaptureState)
    (ev : EventType) : CaptureState × Option Bool × Option EventType :=
  let out := processEvent r enabled st ev
  (out.1, out.2.toggled, if out.2.swallow then none else some ev)

/-- The OS's belief after an event that reached it. -/
def believe (d : Physical) : EventType → Physical
  | .keyPress k => { d with keys := insert k d.keys }
  | .keyRelease k => { d with keys := d.keys.erase k }
  | .buttonPress b => { d with buttons := insert b d.buttons }
  | .buttonRelease b => { d with buttons := d.buttons.erase b }
  | .mouseMove _ _ => d
  | .wheel _ _ => d

/-- What was pressed locally, from the inputs alone: a press counts with
    forwarding off and the chord not completed. -/
def recordLocal (w : World) : EventType → Physical
  | .keyPress k =>
      if w.enabled = false ∧ ¬ Completes w.capture k then
        { w.localDown with keys := insert k w.localDown.keys }
      else w.localDown
  | .keyRelease k => { w.localDown with keys := w.localDown.keys.erase k }
  | .buttonPress b =>
      if w.enabled = false then
        { w.localDown with buttons := insert b w.localDown.buttons }
      else w.localDown
  | .buttonRelease b =>
      { w.localDown with buttons := w.localDown.buttons.erase b }
  | .mouseMove _ _ => w.localDown
  | .wheel _ _ => w.localDown

/-- One event or one store. -/
def step (w : World) : Action → Option World
  | .store on => some { w with enabled := on }
  | .event r ev =>
      match w.down.next ev with
      | none => none
      | some down =>
          let out := handleGrabEvent r w.enabled w.capture ev
          some {
            enabled := out.2.1.getD w.enabled
            capture := out.1
            down := down
            osDown := out.2.2.elim w.osDown (believe w.osDown)
            localDown := recordLocal w ev }

/-- The OS believes down only what is down. -/
def OsIsDown (w : World) : Prop :=
  w.osDown.keys ⊆ w.down.keys ∧ w.osDown.buttons ⊆ w.down.buttons

/-- What was pressed locally is released locally. -/
def ReleasedLocally (w : World) : Action → Prop
  | .event _ (.keyRelease k) =>
      k ∈ w.localDown.keys →
        w.enabled = false ∧ k ∉ w.capture.hotkeySwallowedKeys
  | .event _ (.buttonRelease b) =>
      b ∈ w.localDown.buttons → w.enabled = false
  | _ => True

/-- The invariant: the OS believes down exactly what was pressed locally, and
    all of that is down. -/
structure Faithful (w : World) : Prop where
  os : w.osDown = w.localDown
  keys : w.localDown.keys ⊆ w.down.keys
  buttons : w.localDown.buttons ⊆ w.down.buttons

theorem Faithful.osIsDown {w : World} (h : Faithful w) : OsIsDown w := by
  rw [OsIsDown, h.os]
  exact ⟨h.keys, h.buttons⟩

theorem faithful_start (enabled : Bool) (hotkey : Option HotkeyChord) :
    Faithful (World.start enabled hotkey) where
  os := rfl
  keys := fun _ h => h
  buttons := fun _ h => h

/-! ## Which events the OS is shown -/

section Shown

variable {r : Readings} {en : Bool} {st : CaptureState}

/-- A key press is hidden exactly when it completes the chord or is
    forwarded. -/
theorem swallow_keyPress (k : Key) :
    (processEvent r en st (.keyPress k)).2.swallow = true
      ↔ ¬ (en = false ∧ ¬ Completes st k) := by
  by_cases hc : Completes st k
  · rw [(processEvent_keyPress_chord hc).2.2.2.1]
    simp [hc]
  · rw [(processEvent_keyPress_plain hc).2.2.2, forwardIf_swallow]
    simp [hc]

/-- A key release is hidden exactly when it is forwarded or the key's press
    was consumed. -/
theorem swallow_keyRelease (k : Key) :
    (processEvent r en st (.keyRelease k)).2.swallow = true
      ↔ ¬ (en = false ∧ k ∉ st.hotkeySwallowedKeys) := by
  by_cases hk : k ∈ st.hotkeySwallowedKeys
  · rw [(processEvent_keyRelease_swallowed hk).2.2.2]
    simp [hk]
  · rw [(processEvent_keyRelease_plain hk).2.2.2, forwardIf_swallow]
    simp [hk]

end Shown

/-! ## One step -/

/-- Inversion of an event step. -/
theorem step_event {w w' : World} {r : Readings} {ev : EventType}
    (hs : step w (.event r ev) = some w') :
    ∃ d, w.down.next ev = some d ∧ w'.down = d ∧
      w'.localDown = recordLocal w ev ∧
      w'.osDown = (if (processEvent r w.enabled w.capture ev).2.swallow = true
        then w.osDown else believe w.osDown ev) := by
  cases hd : w.down.next ev with
  | none => simp only [step, hd] at hs; cases hs
  | some d =>
      simp only [step, hd, handleGrabEvent] at hs
      rw [← Option.some.inj hs]
      refine ⟨d, rfl, rfl, rfl, ?_⟩
      show Option.elim (if _ then none else some ev) w.osDown _ = _
      split <;> rfl

/-- What was pressed locally stays within what is down. -/
theorem recordLocal_down {w : World} {ev : EventType} {d : Physical}
    (hk : w.localDown.keys ⊆ w.down.keys)
    (hb : w.localDown.buttons ⊆ w.down.buttons)
    (hd : w.down.next ev = some d) :
    (recordLocal w ev).keys ⊆ d.keys ∧
      (recordLocal w ev).buttons ⊆ d.buttons := by
  cases ev with
  | keyPress k =>
      rw [← Option.some.inj hd]
      simp only [recordLocal]
      split
      · exact ⟨Finset.insert_subset_insert k hk, hb⟩
      · exact ⟨hk.trans (Finset.subset_insert k _), hb⟩
  | keyRelease k =>
      by_cases hm : k ∈ w.down.keys
      · simp only [Physical.next, if_pos hm] at hd
        rw [← Option.some.inj hd]
        exact ⟨Finset.erase_subset_erase k hk, hb⟩
      · simp only [Physical.next, if_neg hm] at hd
        cases hd
  | buttonPress b =>
      rw [← Option.some.inj hd]
      simp only [recordLocal]
      split
      · exact ⟨hk, Finset.insert_subset_insert b hb⟩
      · exact ⟨hk, hb.trans (Finset.subset_insert b _)⟩
  | buttonRelease b =>
      by_cases hm : b ∈ w.down.buttons
      · simp only [Physical.next, if_pos hm] at hd
        rw [← Option.some.inj hd]
        exact ⟨hk, Finset.erase_subset_erase b hb⟩
      · simp only [Physical.next, if_neg hm] at hd
        cases hd
  | mouseMove x y =>
      rw [← Option.some.inj hd]
      exact ⟨hk, hb⟩
  | wheel dx dy =>
      rw [← Option.some.inj hd]
      exact ⟨hk, hb⟩

/-- Under the guard, what the OS is shown is what is recorded as local. -/
theorem shown_eq_recordLocal {w : World} {r : Readings} {ev : EventType}
    (hok : ReleasedLocally w (.event r ev)) :
    (if (processEvent r w.enabled w.capture ev).2.swallow = true
      then w.localDown else believe w.localDown ev) = recordLocal w ev := by
  cases ev with
  | keyPress k =>
      by_cases hl : w.enabled = false ∧ ¬ Completes w.capture k
      · rw [if_neg (by rw [swallow_keyPress]; exact not_not.mpr hl),
          recordLocal, if_pos hl]
        rfl
      · rw [if_pos ((swallow_keyPress k).mpr hl), recordLocal, if_neg hl]
  | keyRelease k =>
      by_cases hl : w.enabled = false ∧ k ∉ w.capture.hotkeySwallowedKeys
      · rw [if_neg (by rw [swallow_keyRelease]; exact not_not.mpr hl)]
        rfl
      · -- hidden, so the guard says that it was not pressed locally
        have hno : k ∉ w.localDown.keys := fun hm => hl (hok hm)
        rw [if_pos ((swallow_keyRelease k).mpr hl), recordLocal,
          Finset.erase_eq_of_notMem hno]
  | buttonPress b =>
      have hsw : (processEvent r w.enabled w.capture (.buttonPress b)).2.swallow
          = w.enabled := forwardIf_swallow _
      rw [hsw]
      cases hen : w.enabled with
      | true =>
          rw [if_pos rfl, recordLocal, if_neg (by rw [hen]; exact nofun)]
      | false =>
          rw [if_neg nofun, recordLocal, if_pos hen]
          rfl
  | buttonRelease b =>
      have hsw : (processEvent r w.enabled w.capture
          (.buttonRelease b)).2.swallow = w.enabled := forwardIf_swallow _
      rw [hsw]
      cases hen : w.enabled with
      | true =>
          have hno : b ∉ w.localDown.buttons := by
            intro hm
            have hoff := hok hm
            rw [hen] at hoff
            cases hoff
          rw [if_pos rfl, recordLocal, Finset.erase_eq_of_notMem hno]
      | false =>
          rw [if_neg nofun]
          rfl
  | mouseMove x y => exact ite_self _
  | wheel dx dy => exact ite_self _

/-- A guarded step keeps the OS's belief faithful. -/
theorem faithful_step (w : World) (a : Action) (w' : World)
    (h : Faithful w) (hok : ReleasedLocally w a) (hs : step w a = some w') :
    Faithful w' := by
  cases a with
  | store on =>
      rw [← Option.some.inj hs]
      exact ⟨h.os, h.keys, h.buttons⟩
  | event r ev =>
      obtain ⟨d, hd, hdown, hloc, hos⟩ := step_event hs
      obtain ⟨hk, hb⟩ := recordLocal_down h.keys h.buttons hd
      refine ⟨?_, ?_, ?_⟩
      · rw [hos, hloc, h.os, shown_eq_recordLocal hok]
      · rw [hloc, hdown]
        exact hk
      · rw [hloc, hdown]
        exact hb

/-- A hidden release of something pressed locally leaves the OS wrong. -/
theorem not_osIsDown_step (w : World) (a : Action) (w' : World)
    (h : Faithful w) (hno : ¬ ReleasedLocally w a) (hs : step w a = some w') :
    ¬ OsIsDown w' := by
  cases a with
  | store on => exact absurd trivial hno
  | event r ev =>
      obtain ⟨d, hd, hdown, hloc, hos⟩ := step_event hs
      rintro ⟨hkeys, hbuttons⟩
      cases ev with
      | keyRelease k =>
          obtain ⟨hm, hl⟩ := Classical.not_imp.mp hno
          rw [if_pos ((swallow_keyRelease k).mpr hl), h.os] at hos
          simp only [Physical.next, if_pos (h.keys hm)] at hd
          rw [hos, hdown, ← Option.some.inj hd] at hkeys
          exact Finset.notMem_erase k _ (hkeys hm)
      | buttonRelease b =>
          obtain ⟨hm, hl⟩ := Classical.not_imp.mp hno
          have hen : w.enabled = true := eq_true_of_ne_false hl
          have hsw : (processEvent r w.enabled w.capture
              (.buttonRelease b)).2.swallow = true :=
            (forwardIf_swallow _).trans hen
          rw [if_pos hsw, h.os] at hos
          simp only [Physical.next, if_pos (h.buttons hm)] at hd
          rw [hos, hdown, ← Option.some.inj hd] at hbuttons
          exact Finset.notMem_erase b _ (hbuttons hm)
      | keyPress k => exact hno trivial
      | buttonPress b => exact hno trivial
      | mouseMove x y => exact hno trivial
      | wheel dx dy => exact hno trivial

/-! ## Whole runs -/

/-- **WHEN NOTHING STAYS STUCK UNDER GRAB**: for every chord and every
    interleaving of events and stores to `enabled`, the OS's belief stays
    within what is down all along the run exactly when everything pressed
    locally is also released locally. -/
theorem os_down_iff (enabled : Bool) (hotkey : Option HotkeyChord)
    (acts : List Action) (w : World)
    (hrun : exec step (World.start enabled hotkey) acts = some w) :
    Always step OsIsDown (World.start enabled hotkey) acts ↔
      Guarded step ReleasedLocally (World.start enabled hotkey) acts :=
  always_iff_guarded (fun _ h => h.osIsDown) faithful_step not_osIsDown_step
    acts _ w (faithful_start enabled hotkey) hrun

instance releasedLocallyDecidable (w : World) (a : Action) :
    Decidable (ReleasedLocally w a) :=
  match a with
  | .store _ => isTrue trivial
  | .event _ (.keyRelease k) =>
      inferInstanceAs (Decidable (k ∈ w.localDown.keys →
        w.enabled = false ∧ k ∉ w.capture.hotkeySwallowedKeys))
  | .event _ (.buttonRelease b) =>
      inferInstanceAs (Decidable (b ∈ w.localDown.buttons → w.enabled = false))
  | .event _ (.keyPress _) => isTrue trivial
  | .event _ (.buttonPress _) => isTrue trivial
  | .event _ (.mouseMove _ _) => isTrue trivial
  | .event _ (.wheel _ _) => isTrue trivial

/-- An event at the start of the clock. -/
def at0 (ev : EventType) : Action := .event Readings.zero ev

/-- A run that meets the condition: `A` is typed locally, another part of the
    server switches forwarding on, and `B` is pressed and released remotely. -/
theorem os_down_iff_between_keys :
    Always step OsIsDown (World.start false (some ctrlAltF))
      [at0 (.keyPress .keyA), at0 (.keyPress .keyA), at0 (.keyRelease .keyA),
        .store true, at0 (.keyPress .keyB), at0 (.keyRelease .keyB)] := by
  have hrun : (exec step (World.start false (some ctrlAltF))
      [at0 (.keyPress .keyA), at0 (.keyPress .keyA), at0 (.keyRelease .keyA),
        .store true, at0 (.keyPress .keyB), at0 (.keyRelease .keyB)]).isSome
        = true := by
    decide
  obtain ⟨w, hw⟩ := Option.isSome_iff_exists.mp hrun
  exact (os_down_iff false (some ctrlAltF) _ w hw).mpr (by decide)

/-- **THE CHORD'S OWN MODIFIERS STICK**: forwarding is off, Ctrl and Alt are
    pressed and reach the OS, F completes the chord and switches forwarding
    on, and the releases of all three are swallowed.  Nothing is down, and
    the OS believes Ctrl and Alt down. -/
theorem os_keeps_chord_modifiers :
    ∃ w, exec step (World.start false (some ctrlAltF))
        [at0 (.keyPress .controlLeft), at0 (.keyPress .alt),
          at0 (.keyPress .keyF), at0 (.keyRelease .keyF),
          at0 (.keyRelease .alt), at0 (.keyRelease .controlLeft)] = some w ∧
      w.down.keys = ∅ ∧ w.osDown.keys = {.controlLeft, .alt} ∧
      ¬ OsIsDown w := by
  refine ⟨_, rfl, by decide, by decide, ?_⟩
  rintro ⟨hkeys, -⟩
  have hctrl : Key.controlLeft ∈ (∅ : Finset Key) := hkeys (by decide)
  exact Finset.notMem_empty _ hctrl

end KvmGrab
