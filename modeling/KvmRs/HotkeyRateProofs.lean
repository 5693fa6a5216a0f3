import KvmRs.PrivacyProofs
import KvmRs.PaceProofs

/-! # How often the hotkey can switch forwarding

    The capture thread of `KvmForwarding`, seen through the firings of the
    hotkey and the releases of its base key.  Whatever the user types, whatever
    the clock says and whatever the other tasks do in between, what is seen is
    a run of the paced trigger: the chord fires once each time it is pressed,
    and never within `HOTKEY_DEBOUNCE` of the last time. -/

namespace KvmHotkeyRate

open KvmEnvelope KvmKeymap KvmInject KvmCapture KvmForwarding KvmPrivacy
  Transition Lockstep Pace

/-- What one decision of the callback shows: the base key let go, then the
    hotkey fired. -/
def decisionMarks (r : Readings) (en : Bool) (s : CaptureState)
    (ev : EventType) : List Mark :=
  (match ev, s.hotkey with
    | .keyRelease k, some hk => if k = hk.key then [.armed] else []
    | _, _ => [])
    ++ (if (processEvent r en s ev).2.toggled.isSome then [.fired r.now]
        else [])

/-- What one step of the system shows. -/
def stepMarks {C : Type} (w : World C) (a : Action C) (_ : World C) :
    List Mark :=
  match a, w.capturePc with
  | .decide, .loaded en r ev => decisionMarks r en w.capture ev
  | _, _ => []

/-- The trigger as the callback keeps it: the time of the last firing, and
    spent only while the base key is down. -/
structure Tracks (s : CaptureState) (q : Trigger) : Prop where
  last : q.last = s.lastHotkeyFire
  spent : q.ready = false → ∃ hk, s.hotkey = some hk ∧ hk.key ∈ s.pressedKeys

section Decisions

variable {r : Readings} {en : Bool} {s : CaptureState} {q : Trigger}

/-- The hotkey fires only when it has rested, and notes the time. -/
theorem tryFireHotkey_rested (h : Tracks s q) :
    (tryFireHotkey r s en).2 = none ∧
        (tryFireHotkey r s en).1.lastHotkeyFire = s.lastHotkeyFire ∨
      (tryFireHotkey r s en).2 = some (!en) ∧
        (tryFireHotkey r s en).1.lastHotkeyFire = some r.now ∧
        q.rested HOTKEY_DEBOUNCE r.now = true := by
  cases hlast : s.lastHotkeyFire with
  | none =>
      right
      have hq : q.last = none := h.last.trans hlast
      simp only [tryFireHotkey, hlast, Bool.false_eq_true, if_false,
        Trigger.rested, hq]
      exact ⟨trivial, trivial, trivial⟩
  | some prev =>
      by_cases hd : r.now - prev < HOTKEY_DEBOUNCE
      · left
        simp only [tryFireHotkey, hlast, hd, decide_true, if_true]
        exact ⟨trivial, trivial⟩
      · right
        have hq : q.last = some prev := h.last.trans hlast
        have hrest : prev + HOTKEY_DEBOUNCE ≤ r.now := by
          have hpos : 0 < HOTKEY_DEBOUNCE := by decide
          omega
        simp only [tryFireHotkey, hlast, hd, decide_false, Bool.false_eq_true,
          if_false, Trigger.rested, hq, hrest, decide_true]
        exact ⟨trivial, trivial, trivial⟩

/-- A decision that shows nothing: the last firing is kept, and so is the
    base key if it was down. -/
theorem Tracks.kept (h : Tracks s q) {s' : CaptureState}
    (hlast : s'.lastHotkeyFire = s.lastHotkeyFire) (hchord : s'.hotkey = s.hotkey)
    (hkey : ∀ hk, s.hotkey = some hk → hk.key ∈ s.pressedKeys →
      hk.key ∈ s'.pressedKeys) : Tracks s' q where
  last := h.last.trans hlast.symm
  spent := by
    intro hready
    obtain ⟨hk, hhk, hdown⟩ := h.spent hready
    exact ⟨hk, hchord.trans hhk, hkey hk hhk hdown⟩

/-- The trigger fires with the hotkey, while the base key is down. -/
theorem fire_paced (h : Tracks s q) (hready : q.ready = true)
    {hk : HotkeyChord} (hhk : s.hotkey = some hk)
    (hdown : hk.key ∈ s.pressedKeys) :
    ∃ q', exec (pace HOTKEY_DEBOUNCE) q
        (if (tryFireHotkey r s en).2.isSome then [.fired r.now] else [])
        = some q' ∧
      Tracks (tryFireHotkey r s en).1 q' := by
  obtain ⟨hpressed, hchord, -, -⟩ := tryFireHotkey_spec r s en
  rcases tryFireHotkey_rested h with ⟨hout, hlast⟩ | ⟨hout, hlast, hrested⟩
  · refine ⟨q, ?_, h.kept hlast hchord fun hk _ hdown => ?_⟩
    · rw [hout]
      rfl
    · rw [hpressed]
      exact hdown
  · refine ⟨{ ready := false, last := some r.now }, ?_, hlast.symm, fun _ => ?_⟩
    · rw [hout]
      have hfires : (q.ready && q.rested HOTKEY_DEBOUNCE r.now) = true :=
        Bool.and_eq_true_iff.mpr ⟨hready, hrested⟩
      simp only [Option.isSome_some, if_true, exec, pace, hfires]
    · rw [hchord, hpressed]
      exact ⟨hk, hhk, hdown⟩

/-- A press: the chord fires the trigger if it is ready and rested. -/
theorem decision_press (h : Tracks s q) (k : Key) :
    ∃ q', exec (pace HOTKEY_DEBOUNCE) q (decisionMarks r en s (.keyPress k))
        = some q' ∧
      Tracks (processEvent r en s (.keyPress k)).1 q' := by
  by_cases hc : consumesChord s.hotkey k
      (computeModifiers (insert k s.pressedKeys)) = true
  · by_cases hr : k ∈ s.pressedKeys
    · -- a repeat
      simp only [decisionMarks, processEvent, if_pos hc, if_pos hr]
      refine ⟨q, rfl, h.kept rfl rfl ?_⟩
      exact fun hk _ hdown => Finset.mem_insert_of_mem hdown
    · simp only [decisionMarks, processEvent, if_pos hc, if_neg hr,
        List.nil_append]
      have hchord : ∃ hk, s.hotkey = some hk ∧ k = hk.key := by
        cases hhk : s.hotkey with
        | none => rw [hhk] at hc; cases hc
        | some hk =>
            rw [hhk] at hc
            exact ⟨hk, rfl, beq_iff_eq.mp (Bool.and_eq_true_iff.mp hc).1⟩
      obtain ⟨hk, hhk, hkey⟩ := hchord
      have hready : q.ready = true := by
        -- the base key was up
        cases hq : q.ready with
        | true => rfl
        | false =>
            obtain ⟨hk', hhk', hdown⟩ := h.spent hq
            rw [hhk] at hhk'
            rw [← Option.some.inj hhk', ← hkey] at hdown
            exact absurd hdown hr
      refine fire_paced (h.kept rfl rfl ?_) hready hhk ?_
      · exact fun hk _ hdown => Finset.mem_insert_of_mem hdown
      · rw [← hkey]
        exact Finset.mem_insert_self k _
  · simp only [decisionMarks, processEvent, if_neg hc]
    refine ⟨q, ?_, h.kept rfl rfl ?_⟩
    · rw [forwardIf_toggled]
      rfl
    · exact fun hk _ hdown => Finset.mem_insert_of_mem hdown

/-- A release: that of the base key arms the trigger. -/
theorem decision_release (h : Tracks s q) (k : Key) :
    ∃ q', exec (pace HOTKEY_DEBOUNCE) q (decisionMarks r en s (.keyRelease k))
        = some q' ∧
      Tracks (processEvent r en s (.keyRelease k)).1 q' := by
  have hstate : (processEvent r en s (.keyRelease k)).1.lastHotkeyFire
        = s.lastHotkeyFire ∧
      (processEvent r en s (.keyRelease k)).1.hotkey = s.hotkey ∧
      (processEvent r en s (.keyRelease k)).1.pressedKeys
        = s.pressedKeys.erase k ∧
      (processEvent r en s (.keyRelease k)).2.toggled = none := by
    by_cases hk : k ∈ s.hotkeySwallowedKeys
    · simp only [processEvent, if_pos hk]
      exact ⟨trivial, trivial, trivial, trivial⟩
    · simp only [processEvent, if_neg hk, forwardIf_toggled]
      exact ⟨trivial, trivial, trivial, trivial⟩
  obtain ⟨hlast, hchord, hpressed, htoggled⟩ := hstate
  simp only [decisionMarks, htoggled]
  cases hhk : s.hotkey with
  | none =>
      refine ⟨q, rfl, h.kept hlast hchord fun hk hsome => ?_⟩
      rw [hhk] at hsome
      cases hsome
  | some hk =>
      by_cases hkey : k = hk.key
      · refine ⟨{ q with ready := true }, ?_, h.last.trans hlast.symm,
          fun hready => absurd hready.symm Bool.false_ne_true⟩
        simp only [if_pos hkey]
        rfl
      · refine ⟨q, ?_, h.kept hlast hchord fun hk' hsome hdown => ?_⟩
        · simp only [if_neg hkey]
          rfl
        · rw [hhk] at hsome
          rw [hpressed, ← Option.some.inj hsome]
          rw [← Option.some.inj hsome] at hdown
          exact Finset.mem_erase.mpr ⟨fun heq => hkey heq.symm, hdown⟩

/-- **ONE DECISION** is paced. -/
theorem decision_paced (h : Tracks s q) (ev : EventType) :
    ∃ q', exec (pace HOTKEY_DEBOUNCE) q (decisionMarks r en s ev) = some q' ∧
      Tracks (processEvent r en s ev).1 q' := by
  cases ev with
  | keyPress k => exact decision_press h k
  | keyRelease k => exact decision_release h k
  | buttonPress b =>
      refine ⟨q, ?_, h.kept rfl rfl fun _ _ hdown => hdown⟩
      simp only [decisionMarks, processEvent, forwardIf_toggled]
      rfl
  | buttonRelease b =>
      refine ⟨q, ?_, h.kept rfl rfl fun _ _ hdown => hdown⟩
      simp only [decisionMarks, processEvent, forwardIf_toggled]
      rfl
  | wheel dx dy =>
      refine ⟨q, ?_, h.kept rfl rfl fun _ _ hdown => hdown⟩
      simp only [decisionMarks, processEvent, forwardIf_toggled]
      rfl
  | mouseMove x y =>
      refine ⟨q, rfl, ?_⟩
      simp only [processEvent, processMouseMove]
      split
      · exact h.kept rfl rfl fun _ _ hdown => hdown
      · split
        · exact h.kept rfl rfl fun _ _ hdown => hdown
        · exact h.kept rfl rfl fun _ _ hdown => hdown

end Decisions

/-! ## The whole system -/

section Runs

variable {C : Type} [DecidableEq C] {p : Platform}

/-- **ONE STEP** is paced: only the decisions show anything or touch the
    callback's state. -/
theorem step_paced (w : World C) (q : Trigger) (a : Action C) (w' : World C)
    (h : Tracks w.capture q) (hs : step p w a = some w') :
    ∃ q', exec (pace HOTKEY_DEBOUNCE) q (stepMarks w a w') = some q' ∧
      Tracks w'.capture q' := by
  by_cases ha : elsewhere a = true
  · obtain ⟨hcap, -, -⟩ := step_elsewhere ha hs w.capture w.capturePc
    have hmarks : stepMarks w a w' = [] := by
      cases a with
      | decide => cases ha
      | _ => rfl
    rw [hmarks, hcap]
    exact ⟨q, rfl, h⟩
  · cases a with
    | load r ev =>
        simp only [step] at hs
        split at hs
        · rw [← Option.some.inj hs]
          exact ⟨q, rfl, h⟩
        · cases hs
    | decide =>
        simp only [step] at hs
        split at hs
        · rename_i en r ev hpc
          rw [← Option.some.inj hs]
          simp only [stepMarks, hpc]
          exact decision_paced h ev
        · cases hs
    | send =>
        simp only [step] at hs
        split at hs
        · rw [← Option.some.inj hs]
          exact ⟨q, rfl, h⟩
        · cases hs
    | recv => exact absurd rfl ha
    | broadcast => exact absurd rfl ha
    | toggle i desired => exact absurd rfl ha
    | store i => exact absurd rfl ha
    | handlerBroadcast i => exact absurd rfl ha
    | deliver i => exact absurd rfl ha

/-- **THE HOTKEY IS PACED**: in every run, with any chord, any events, any
    clock and any interleaving with the clients' own toggles, the firings of
    the hotkey are a run of the paced trigger; so they are spaced, and no
    window of time holds more of them than its length allows. -/
theorem hotkey_is_paced (p : Platform) (enabled : Bool)
    (hotkey : Option HotkeyChord) (acts : List (Action C)) (w : World C)
    (hrun : exec (step p) (World.start C enabled hotkey) acts = some w) :
    (∃ q, exec (pace HOTKEY_DEBOUNCE) Trigger.start
        (outputs (step p) stepMarks (World.start C enabled hotkey) acts)
        = some q) ∧
      ∀ start span, ((times (outputs (step p) stepMarks
          (World.start C enabled hotkey) acts)).filter
            fun t => start ≤ t ∧ t < start + span).length
        ≤ span / HOTKEY_DEBOUNCE + 1 := by
  have hstart : Tracks (World.start C enabled hotkey).capture Trigger.start :=
    ⟨rfl, fun h => nomatch h⟩
  obtain ⟨q, hq, -⟩ := exec_outputs
    (fun s q a s' hR (_ : True) hs => step_paced s q a s' hR hs) acts _ _ w
    hstart (guarded_of_forall acts _ fun _ _ _ => trivial) hrun
  refine ⟨⟨q, hq⟩, ?_⟩
  exact count_window_le (by decide) (spaced_of_exec _ _ _ hq).1

end Runs

/-- The capture thread handles one event that forwards nothing. -/
def typed (now : Nat) (ev : EventType) : List (Action (Fin 1)) :=
  [.load { now := now, displaySize := none, simulateOk := true } ev, .decide]

/-- With Ctrl and Alt down, F is tapped three times: at once, after 100 ms
    and after 300 ms. -/
def threeTaps : List (Action (Fin 1)) :=
  typed 0 (.keyPress .controlLeft) ++ typed 0 (.keyPress .alt)
    ++ typed 0 (.keyPress .keyF) ++ [.send]
    ++ typed 0 (.keyRelease .keyF)
    ++ typed (100 * 10 ^ 6) (.keyPress .keyF)
    ++ typed (100 * 10 ^ 6) (.keyRelease .keyF)
    ++ typed (300 * 10 ^ 6) (.keyPress .keyF)

/-- The second tap comes too early. -/
theorem hotkey_is_paced_taps :
    outputs (step .linux) stepMarks
        (World.start (Fin 1) false (some ctrlAltF)) threeTaps
      = [.fired 0, .armed, .armed, .fired (300 * 10 ^ 6)] ∧
    ((times (outputs (step .linux) stepMarks
        (World.start (Fin 1) false (some ctrlAltF)) threeTaps)).filter
          fun t => 0 ≤ t ∧ t < 0 + 10 ^ 9).length
      ≤ 10 ^ 9 / HOTKEY_DEBOUNCE + 1 := by
  have hrun : (exec (step .linux) (World.start (Fin 1) false (some ctrlAltF))
      threeTaps).isSome = true := by
    decide
  obtain ⟨w, hw⟩ := Option.isSome_iff_exists.mp hrun
  refine ⟨by decide, ?_⟩
  exact (hotkey_is_paced .linux false (some ctrlAltF) threeTaps w hw).2 0 _

end KvmHotkeyRate
