import KvmRs.ForwardingProofs
import KvmRs.LockstepProofs

/-! # What is typed while forwarding is off

    The capture callback sees every event, whether forwarding is on or not,
    and remembers which keys are down and where the cursor was.  What it
    remembers of the time when forwarding is off does not reach a client:
    two runs of the whole system that differ in the keys, buttons, wheel turns
    and cursor positions captured while the flag is off send every client the
    same envelopes.

    The keys of the modifiers and the base key of the hotkey are excepted
    (`Telling`): their state is part of later events. -/

namespace KvmPrivacy

open KvmEnvelope KvmKeymap KvmInject KvmCapture KvmForwarding Transition
  Lockstep

/-- The keys that `compute_modifiers` looks up. -/
def modifierKeys : List Key :=
  [.controlLeft, .controlRight, .alt, .altGr, .shiftLeft, .shiftRight,
    .metaLeft, .metaRight]

/-- The keys whose being down matters to what is forwarded later. -/
def Telling (hotkey : Option HotkeyChord) (k : Key) : Prop :=
  k ∈ modifierKeys ∨ ∃ hk, hotkey = some hk ∧ k = hk.key

/-- Events that mean nothing to the callback while forwarding is off. -/
inductive Local (hotkey : Option HotkeyChord) : EventType → Prop where
  | keyPress {k : Key} (h : ¬ Telling hotkey k) : Local hotkey (.keyPress k)
  | keyRelease {k : Key} (h : ¬ Telling hotkey k) : Local hotkey (.keyRelease k)
  | buttonPress (b : Button) : Local hotkey (.buttonPress b)
  | buttonRelease (b : Button) : Local hotkey (.buttonRelease b)
  | wheel (dx dy : Int64) : Local hotkey (.wheel dx dy)

/-- Two events between which there is no difference while it is off: two of
    those, or two positions of the cursor. -/
inductive Unseen (hotkey : Option HotkeyChord) : EventType → EventType → Prop where
  | ofLocal {ev ev' : EventType} (h : Local hotkey ev) (h' : Local hotkey ev') :
      Unseen hotkey ev ev'
  | motion (x y x' y' : Int) : Unseen hotkey (.mouseMove x y) (.mouseMove x' y')

/-- Two states of the callback between which no later event can tell. -/
structure Twin (s s' : CaptureState) : Prop where
  wasEnabled : s'.wasEnabled = s.wasEnabled
  warping : s'.warping = s.warping
  seedNext : s'.seedNext = s.seedNext
  lastHotkeyFire : s'.lastHotkeyFire = s.lastHotkeyFire
  hotkey : s'.hotkey = s.hotkey
  swallowed : s'.hotkeySwallowedKeys = s.hotkeySwallowedKeys
  onlyTelling : ∀ k ∈ s.hotkeySwallowedKeys, Telling s.hotkey k
  pressed : ∀ k, Telling s.hotkey k → (k ∈ s.pressedKeys ↔ k ∈ s'.pressedKeys)
  position : s.wasEnabled = true → s.seedNext = false → s.warping = false →
    s'.lastX = s.lastX ∧ s'.lastY = s.lastY

section Callback

variable {r : Readings} {en : Bool} {s s' : CaptureState} {k : Key}

theorem computeModifiers_congr {p p' : Finset Key}
    (h : ∀ k ∈ modifierKeys, (k ∈ p ↔ k ∈ p')) :
    computeModifiers p = computeModifiers p' := by
  simp only [modifierKeys, List.forall_mem_cons, List.not_mem_nil] at h
  obtain ⟨hcl, hcr, ha, hg, hsl, hsr, hml, hmr, -⟩ := h
  simp only [computeModifiers, hcl, hcr, ha, hg, hsl, hsr, hml, hmr]

theorem Twin.insert (h : Twin s s') (k : Key) :
    ∀ j, Telling s.hotkey j →
      (j ∈ Insert.insert k s.pressedKeys ↔ j ∈ Insert.insert k s'.pressedKeys) := by
  intro j hj
  rw [Finset.mem_insert, Finset.mem_insert, h.pressed j hj]

theorem Twin.erase (h : Twin s s') (k : Key) :
    ∀ j, Telling s.hotkey j →
      (j ∈ s.pressedKeys.erase k ↔ j ∈ s'.pressedKeys.erase k) := by
  intro j hj
  rw [Finset.mem_erase, Finset.mem_erase, h.pressed j hj]

/-- A press that completes the chord is one of the base key. -/
theorem telling_of_consumes {hotkey : Option HotkeyChord} {mods : UInt8}
    (h : consumesChord hotkey k mods = true) : Telling hotkey k := by
  cases hotkey with
  | none => cases h
  | some hk =>
      have hkey : (k == hk.key) = true := (Bool.and_eq_true_iff.mp h).1
      exact Or.inr ⟨hk, rfl, beq_iff_eq.mp hkey⟩

/-- What the callback does before it looks at the event. -/
def enter (en : Bool) (s : CaptureState) : CaptureState :=
  { s with
    wasEnabled := en
    seedNext := s.seedNext || (en && !s.wasEnabled) }

/-- Switching on seeds the position, so positions from before never count. -/
theorem Twin.enter (h : Twin s s') (en : Bool) :
    Twin (enter en s) (enter en s') where
  wasEnabled := rfl
  warping := h.warping
  seedNext := by
    show (s'.seedNext || (en && !s'.wasEnabled)) = _
    rw [h.seedNext, h.wasEnabled]
    rfl
  lastHotkeyFire := h.lastHotkeyFire
  hotkey := h.hotkey
  swallowed := h.swallowed
  onlyTelling := h.onlyTelling
  pressed := h.pressed
  position := by
    intro hen hseed hwarp
    have hon : en = true := hen
    have hboth : (s.seedNext || (en && !s.wasEnabled)) = false := hseed
    rw [hon, Bool.true_and, Bool.or_eq_false_iff, Bool.not_eq_false'] at hboth
    exact h.position hboth.2 hboth.1 hwarp

/-- Other keys pressed, as long as the telling ones agree. -/
theorem Twin.withPressed (h : Twin s s') {q q' : Finset Key}
    (hq : ∀ k, Telling s.hotkey k → (k ∈ q ↔ k ∈ q')) :
    Twin { s with pressedKeys := q } { s' with pressedKeys := q' } :=
  { h with pressed := hq }

/-- One more telling key to be swallowed. -/
theorem Twin.swallow (h : Twin s s') (hk : Telling s.hotkey k) :
    Twin
      { s with hotkeySwallowedKeys := Insert.insert k s.hotkeySwallowedKeys }
      { s' with
        hotkeySwallowedKeys := Insert.insert k s'.hotkeySwallowedKeys } := by
  refine { h with swallowed := ?_, onlyTelling := ?_ }
  · rw [h.swallowed]
  · intro j hj
    rcases Finset.mem_insert.mp hj with rfl | hj
    · exact hk
    · exact h.onlyTelling j hj

/-- One key less to be swallowed. -/
theorem Twin.unswallow (h : Twin s s') (k : Key) :
    Twin { s with hotkeySwallowedKeys := s.hotkeySwallowedKeys.erase k }
      { s' with hotkeySwallowedKeys := s'.hotkeySwallowedKeys.erase k } := by
  refine { h with swallowed := ?_, onlyTelling := ?_ }
  · rw [h.swallowed]
  · exact fun j hj => h.onlyTelling j (Finset.mem_of_mem_erase hj)

/-- Firing seeds the position when it switches on. -/
theorem Twin.fired (h : Twin s s') (now : Nat) (en : Bool) :
    Twin
      { s with
        lastHotkeyFire := some now
        wasEnabled := !en
        seedNext := s.seedNext || !en }
      { s' with
        lastHotkeyFire := some now
        wasEnabled := !en
        seedNext := s'.seedNext || !en } where
  wasEnabled := rfl
  warping := h.warping
  seedNext := by rw [h.seedNext]
  lastHotkeyFire := rfl
  hotkey := h.hotkey
  swallowed := h.swallowed
  onlyTelling := h.onlyTelling
  pressed := h.pressed
  position := by
    intro hon hseed
    have hoff : (s.seedNext || !en) = false := hseed
    rw [Bool.or_eq_false_iff] at hoff
    exact absurd (hoff.2.symm.trans hon) Bool.false_ne_true

/-- The hotkey fires on both sides or on neither. -/
theorem Twin.fire (h : Twin s s') (r : Readings) (en : Bool) :
    (tryFireHotkey r s en).2 = (tryFireHotkey r s' en).2 ∧
      Twin (tryFireHotkey r s en).1 (tryFireHotkey r s' en).1 := by
  cases hlast : s.lastHotkeyFire with
  | none =>
      simp only [tryFireHotkey, h.lastHotkeyFire, hlast, Bool.false_eq_true,
        if_false]
      exact ⟨trivial, h.fired r.now en⟩
  | some prev =>
      by_cases hd : r.now - prev < HOTKEY_DEBOUNCE
      · simp only [tryFireHotkey, h.lastHotkeyFire, hlast, hd, decide_true,
          if_true]
        exact ⟨trivial, h⟩
      · simp only [tryFireHotkey, h.lastHotkeyFire, hlast, hd, decide_false,
          Bool.false_eq_true, if_false]
        exact ⟨trivial, h.fired r.now en⟩

/-- A move of the cursor to the same place. -/
theorem Twin.move (h : Twin s s') (r : Readings) (x y : Int) (en : Bool)
    (hen : s.wasEnabled = en) :
    (processMouseMove r s x y en).2 = (processMouseMove r s' x y en).2 ∧
      Twin (processMouseMove r s x y en).1
        (processMouseMove r s' x y en).1 := by
  by_cases hw : s.warping = true
  · have hw' : s'.warping = true := h.warping.trans hw
    simp only [processMouseMove, if_pos hw, if_pos hw']
    exact ⟨trivial, { h with
      warping := rfl, position := fun _ _ _ => ⟨rfl, rfl⟩ }⟩
  · have hw' : ¬ s'.warping = true := by rwa [h.warping]
    by_cases hs : s.seedNext = true
    · have hs' : s'.seedNext = true := h.seedNext.trans hs
      simp only [processMouseMove, if_neg hw, if_neg hw', if_pos hs, if_pos hs']
      exact ⟨trivial, { h with
        seedNext := rfl, position := fun _ _ _ => ⟨rfl, rfl⟩ }⟩
    · have hs' : ¬ s'.seedNext = true := by rwa [h.seedNext]
      cases en with
      | false =>
          simp only [processMouseMove, if_neg hw, if_neg hw', if_neg hs,
            if_neg hs', Bool.false_eq_true, false_and, if_false]
          exact ⟨trivial, { h with
            warping := rfl, position := fun _ _ _ => ⟨rfl, rfl⟩ }⟩
      | true =>
          obtain ⟨hx, hy⟩ := h.position hen (Bool.eq_false_iff.mpr hs)
            (Bool.eq_false_iff.mpr hw)
          simp only [processMouseMove, if_neg hw, if_neg hw', if_neg hs,
            if_neg hs', hx, hy]
          exact ⟨trivial, { h with
            warping := rfl, position := fun _ _ _ => ⟨rfl, rfl⟩ }⟩

/-- **THE SAME EVENT**: twins decide the same, and stay twins. -/
theorem processEvent_same (h : Twin s s') (r : Readings) (en : Bool)
    (ev : EventType) :
    (processEvent r en s ev).2 = (processEvent r en s' ev).2 ∧
      Twin (processEvent r en s ev).1 (processEvent r en s' ev).1 := by
  have hin := h.enter en
  cases ev with
  | keyPress k =>
      have hp := hin.withPressed (hin.insert k)
      have hmods : computeModifiers (insert k s.pressedKeys)
          = computeModifiers (insert k s'.pressedKeys) :=
        computeModifiers_congr fun j hj => hp.pressed j (Or.inl hj)
      by_cases hc : consumesChord s.hotkey k
          (computeModifiers (insert k s.pressedKeys)) = true
      · have hc' : consumesChord s'.hotkey k
            (computeModifiers (insert k s'.pressedKeys)) = true := by
          rwa [h.hotkey, ← hmods]
        have hk : Telling s.hotkey k := telling_of_consumes hc
        have hboth := hp.swallow hk
        by_cases hr : k ∈ s.pressedKeys
        · have hr' : k ∈ s'.pressedKeys := (h.pressed k hk).mp hr
          simp only [processEvent, if_pos hc, if_pos hc', if_pos hr,
            if_pos hr']
          exact ⟨trivial, hboth⟩
        · have hr' : k ∉ s'.pressedKeys := fun hin => hr ((h.pressed k hk).mpr hin)
          simp only [processEvent, if_pos hc, if_pos hc', if_neg hr,
            if_neg hr']
          obtain ⟨hout, hstate⟩ := hboth.fire r en
          exact ⟨congrArg (ProcessOutcome.mk true none) hout, hstate⟩
      · have hc' : ¬ consumesChord s'.hotkey k
            (computeModifiers (insert k s'.pressedKeys)) = true := by
          rwa [h.hotkey, ← hmods]
        simp only [processEvent, if_neg hc, if_neg hc']
        exact ⟨congrArg (fun m => forwardIf en (.keyPress (keyToCode k) m))
          hmods, hp⟩
  | keyRelease k =>
      have hp := hin.withPressed (hin.erase k)
      have hmods : computeModifiers (s.pressedKeys.erase k)
          = computeModifiers (s'.pressedKeys.erase k) :=
        computeModifiers_congr fun j hj => hp.pressed j (Or.inl hj)
      by_cases hk : k ∈ s.hotkeySwallowedKeys
      · have hk' : k ∈ s'.hotkeySwallowedKeys := by rwa [h.swallowed]
        simp only [processEvent, if_pos hk, if_pos hk']
        exact ⟨trivial, hp.unswallow k⟩
      · have hk' : k ∉ s'.hotkeySwallowedKeys := by rwa [h.swallowed]
        simp only [processEvent, if_neg hk, if_neg hk']
        exact ⟨congrArg (fun m => forwardIf en (.keyRelease (keyToCode k) m))
          hmods, hp⟩
  | buttonPress b => exact ⟨rfl, hin⟩
  | buttonRelease b => exact ⟨rfl, hin⟩
  | wheel dx dy => exact ⟨rfl, hin⟩
  | mouseMove x y =>
      obtain ⟨hout, hstate⟩ := hin.move r x y en rfl
      exact ⟨congrArg (fun f => ProcessOutcome.mk false f none) hout, hstate⟩

/-- The callback never changes its chord. -/
theorem processEvent_hotkey (r : Readings) (en : Bool) (s : CaptureState)
    (ev : EventType) : (processEvent r en s ev).1.hotkey = s.hotkey := by
  cases ev with
  | keyPress k =>
      by_cases hc : Completes s k
      · exact (processEvent_keyPress_chord hc).2.1
      · exact (processEvent_keyPress_plain hc).2.1
  | keyRelease k =>
      by_cases hk : k ∈ s.hotkeySwallowedKeys
      · exact (processEvent_keyRelease_swallowed hk).2.1
      · exact (processEvent_keyRelease_plain hk).2.1
  | buttonPress b => rfl
  | buttonRelease b => rfl
  | wheel dx dy => rfl
  | mouseMove x y =>
      exact (@processEvent_sets r en s (.mouseMove x y) (fun _ h => nomatch h)
        (fun _ h => nomatch h)).2.1

/-- While it is off a local event changes no more than which of the other
    keys are down. -/
theorem processEvent_local {ev : EventType} (hl : Local s.hotkey ev)
    (hs : ∀ k ∈ s.hotkeySwallowedKeys, Telling s.hotkey k) (r : Readings) :
    ∃ q : Finset Key, (∀ k, Telling s.hotkey k → (k ∈ q ↔ k ∈ s.pressedKeys)) ∧
      processEvent r false s ev
        = ({ enter false s with pressedKeys := q }, ProcessOutcome.default) := by
  cases hl with
  | @keyPress k hk =>
      refine ⟨insert k s.pressedKeys, ?_, ?_⟩
      · intro j hj
        have hne : j ≠ k := fun h => hk (h ▸ hj)
        rw [Finset.mem_insert, or_iff_right hne]
      · have hc : ¬ consumesChord s.hotkey k
            (computeModifiers (insert k s.pressedKeys)) = true :=
          fun h => hk (telling_of_consumes h)
        simp only [processEvent, if_neg hc]
        rfl
  | @keyRelease k hk =>
      refine ⟨s.pressedKeys.erase k, ?_, ?_⟩
      · intro j hj
        have hne : j ≠ k := fun h => hk (h ▸ hj)
        rw [Finset.mem_erase, and_iff_right hne]
      · have hnot : k ∉ s.hotkeySwallowedKeys := fun h => hk (hs k h)
        simp only [processEvent, if_neg hnot]
        rfl
  | buttonPress b => exact ⟨s.pressedKeys, fun _ _ => Iff.rfl, rfl⟩
  | buttonRelease b => exact ⟨s.pressedKeys, fun _ _ => Iff.rfl, rfl⟩
  | wheel dx dy => exact ⟨s.pressedKeys, fun _ _ => Iff.rfl, rfl⟩

/-- While it is off the cursor may be anywhere. -/
theorem Twin.moveOff (h : Twin s s') (hoff : s.wasEnabled = false)
    (r r' : Readings) (x y x' y' : Int) :
    (processMouseMove r s x y false).2 = none ∧
      (processMouseMove r' s' x' y' false).2 = none ∧
      Twin (processMouseMove r s x y false).1
        (processMouseMove r' s' x' y' false).1 := by
  have hpos : ∀ {P : Prop}, s.wasEnabled = true → P :=
    fun hon => absurd (hoff.symm.trans hon) Bool.false_ne_true
  by_cases hw : s.warping = true
  · have hw' : s'.warping = true := h.warping.trans hw
    simp only [processMouseMove, if_pos hw, if_pos hw']
    exact ⟨trivial, trivial, { h with
      warping := rfl, position := fun hon => hpos hon }⟩
  · have hw' : ¬ s'.warping = true := by rwa [h.warping]
    by_cases hs : s.seedNext = true
    · have hs' : s'.seedNext = true := h.seedNext.trans hs
      simp only [processMouseMove, if_neg hw, if_neg hw', if_pos hs, if_pos hs']
      exact ⟨trivial, trivial, { h with
        seedNext := rfl, position := fun hon => hpos hon }⟩
    · have hs' : ¬ s'.seedNext = true := by rwa [h.seedNext]
      simp only [processMouseMove, if_neg hw, if_neg hw', if_neg hs,
        if_neg hs', Bool.false_eq_true, false_and, if_false]
      exact ⟨trivial, trivial, { h with
        warping := rfl, position := fun hon => hpos hon }⟩

/-- **DIFFERENT EVENTS WHILE OFF**: the callback decides nothing for either,
    and the states stay twins. -/
theorem processEvent_unseen (h : Twin s s') {ev ev' : EventType}
    (hu : Unseen s.hotkey ev ev') (r r' : Readings) :
    (processEvent r false s ev).2 = ProcessOutcome.default ∧
      (processEvent r' false s' ev').2 = ProcessOutcome.default ∧
      Twin (processEvent r false s ev).1 (processEvent r' false s' ev').1 := by
  have hin := h.enter false
  cases hu with
  | ofLocal hl hl' =>
      obtain ⟨q, hq, heq⟩ := processEvent_local hl h.onlyTelling r
      obtain ⟨q', hq', heq'⟩ := processEvent_local (h.hotkey.symm ▸ hl')
        (by rw [h.swallowed, h.hotkey]; exact h.onlyTelling) r'
      rw [heq, heq']
      refine ⟨rfl, rfl, hin.withPressed fun k hk => ?_⟩
      rw [hq k hk, hq' k (h.hotkey.symm ▸ hk)]
      exact h.pressed k hk
  | motion x y x' y' =>
      obtain ⟨hout, hout', hstate⟩ := hin.moveOff rfl r r' x y x' y'
      exact ⟨congrArg (fun f => ProcessOutcome.mk false f none) hout,
        congrArg (fun f => ProcessOutcome.mk false f none) hout', hstate⟩

end Callback

/-! ## The whole system -/

section Runs

variable {C : Type} {p : Platform} {hotkey : Option HotkeyChord}

/-- The capture thread is at the same point on both sides, up to events that
    mean nothing. -/
inductive SamePc (hotkey : Option HotkeyChord) : CapturePc → CapturePc → Prop where
  | refl (pc : CapturePc) : SamePc hotkey pc pc
  | unseen (r r' : Readings) {ev ev' : EventType}
      (h : Unseen hotkey ev ev') :
      SamePc hotkey (.loaded false r ev) (.loaded false r' ev')

/-- Two worlds that differ in what the callback remembers, and in no way that
    a later event can tell. -/
structure Alike (hotkey : Option HotkeyChord) (q : World C × World C) :
    Prop where
  chord : q.1.capture.hotkey = hotkey
  twin : Twin q.1.capture q.2.capture
  pc : SamePc hotkey q.1.capturePc q.2.capturePc
  rest : q.2 = { q.1 with
    capture := q.2.capture, capturePc := q.2.capturePc }

/-- Both sides act alike, except that the capture thread may take up another
    event while forwarding is off. -/
inductive SameAction (hotkey : Option HotkeyChord) (q : World C × World C) :
    Action C × Action C → Prop where
  | refl (a : Action C) : SameAction hotkey q (a, a)
  | unseen (r r' : Readings) {ev ev' : EventType}
      (hoff : q.1.enabled = false) (h : Unseen hotkey ev ev') :
      SameAction hotkey q (.load r ev, .load r' ev')

theorem SamePc.sending {msgs : List CaptureEvent} {pc : CapturePc}
    (h : SamePc hotkey (.sending msgs) pc) : pc = .sending msgs := by
  cases h
  rfl

theorem alike_start (enabled : Bool) :
    Alike hotkey (World.start C enabled hotkey, World.start C enabled hotkey) where
  chord := rfl
  twin := ⟨rfl, rfl, rfl, rfl, rfl, rfl, fun _ h => (nomatch h),
    fun _ _ => Iff.rfl, fun _ _ _ => ⟨rfl, rfl⟩⟩
  pc := .refl _
  rest := rfl

/-- Both capture threads take up an event, decided alike. -/
theorem Alike.load [DecidableEq C] {w w' w₁ : World C} {r r' : Readings}
    {ev ev' : EventType} (h : Alike hotkey (w, w'))
    (hout : (processEvent r w.enabled w.capture ev).2
      = (processEvent r' w.enabled w'.capture ev').2)
    (hpc : SamePc hotkey (.loaded w.enabled r ev) (.loaded w.enabled r' ev'))
    (hs : step p w (.load r ev) = some w₁) :
    ∃ w₁', step p w' (.load r' ev') = some w₁' ∧ Alike hotkey (w₁, w₁') := by
  obtain ⟨hchord, htwin, hsame, hrest⟩ := h
  simp only at hchord htwin hsame hrest
  simp only [step] at hs
  split at hs
  · rename_i hidle
    rw [← Option.some.inj hs]
    rw [hidle] at hsame
    have hidle' := hsame.sending
    simp only [step, hidle']
    refine ⟨_, rfl, hchord, htwin, ?_, ?_⟩
    · have hen : w'.enabled = w.enabled := by rw [hrest]
      rw [hen]
      exact hpc
    · rw [hrest]
      simp only [hout]
  · cases hs

/-- Both decide. -/
theorem Alike.decide [DecidableEq C] {w w' w₁ : World C}
    (h : Alike hotkey (w, w')) (hs : step p w .decide = some w₁) :
    ∃ w₁', step p w' .decide = some w₁' ∧ Alike hotkey (w₁, w₁') := by
  obtain ⟨hchord, htwin, hsame, hrest⟩ := h
  simp only at hchord htwin hsame hrest
  simp only [step] at hs
  split at hs
  · rename_i en r ev hloaded
    rw [← Option.some.inj hs]
    rw [hloaded] at hsame
    have hkept := processEvent_hotkey r en w.capture ev
    -- the other thread has an event loaded as well, and decides the same
    have hboth : ∃ r' ev', w'.capturePc = .loaded en r' ev' ∧
        (processEvent r en w.capture ev).2
          = (processEvent r' en w'.capture ev').2 ∧
        Twin (processEvent r en w.capture ev).1
          (processEvent r' en w'.capture ev').1 := by
      cases hpc' : w'.capturePc with
      | sending msgs =>
          rw [hpc'] at hsame
          cases hsame
      | loaded en' r' ev' =>
          rw [hpc'] at hsame
          cases hsame with
          | refl pc => exact ⟨r, ev, rfl, processEvent_same htwin r en ev⟩
          | unseen r r' hu =>
              obtain ⟨hout, hout', hstate⟩ :=
                processEvent_unseen htwin (hchord.symm ▸ hu) r r'
              exact ⟨r', ev', rfl, hout.trans hout'.symm, hstate⟩
    obtain ⟨r', ev', hloaded', hout, hstate⟩ := hboth
    simp only [step, hloaded']
    refine ⟨_, rfl, hkept.trans hchord, hstate, ?_, ?_⟩
    · rw [hout]
      exact .refl _
    · rw [hrest]
      simp only [hout]
  · cases hs

/-- Both send. -/
theorem Alike.send [DecidableEq C] {w w' w₁ : World C}
    (h : Alike hotkey (w, w')) (hs : step p w .send = some w₁) :
    ∃ w₁', step p w' .send = some w₁' ∧ Alike hotkey (w₁, w₁') := by
  obtain ⟨hchord, htwin, hsame, hrest⟩ := h
  simp only at hchord htwin hsame hrest
  simp only [step] at hs
  split at hs
  · rename_i m ms hpc
    rw [← Option.some.inj hs]
    rw [hpc] at hsame
    have hpc' := hsame.sending
    simp only [step, hpc']
    refine ⟨_, rfl, hchord, htwin, .refl _, ?_⟩
    rw [hrest]
  · cases hs

/-- The steps of the other tasks. -/
def elsewhere : Action C → Bool
  | .load _ _ => false
  | .decide => false
  | .send => false
  | _ => true

/-- They neither look at the capture thread nor change it. -/
theorem step_elsewhere [DecidableEq C] {w w₁ : World C} {a : Action C}
    (ha : elsewhere a = true) (hs : step p w a = some w₁) (c : CaptureState)
    (pc : CapturePc) :
    w₁.capture = w.capture ∧ w₁.capturePc = w.capturePc ∧
      step p { w with capture := c, capturePc := pc } a
        = some { w₁ with capture := c, capturePc := pc } := by
  cases a with
  | load r ev => cases ha
  | decide => cases ha
  | send => cases ha
  | recv =>
      simp only [step] at hs ⊢
      split at hs
      · rw [← Option.some.inj hs]
        exact ⟨rfl, rfl, rfl⟩
      · cases hs
  | broadcast =>
      simp only [step] at hs ⊢
      split at hs
      · rw [← Option.some.inj hs]
        exact ⟨rfl, rfl, rfl⟩
      · cases hs
  | toggle i desired =>
      simp only [step] at hs ⊢
      split at hs
      · by_cases hd : desired ≠ w.enabled
        · rw [if_pos hd] at hs ⊢
          rw [← Option.some.inj hs]
          exact ⟨rfl, rfl, rfl⟩
        · rw [if_neg hd] at hs ⊢
          rw [← Option.some.inj hs]
          exact ⟨rfl, rfl, rfl⟩
      · cases hs
  | store i =>
      simp only [step] at hs ⊢
      split at hs
      · rw [← Option.some.inj hs]
        exact ⟨rfl, rfl, rfl⟩
      · cases hs
  | handlerBroadcast i =>
      simp only [step] at hs ⊢
      split at hs
      · rw [← Option.some.inj hs]
        exact ⟨rfl, rfl, rfl⟩
      · cases hs
  | deliver i =>
      simp only [step] at hs ⊢
      split at hs
      · rw [← Option.some.inj hs]
        exact ⟨rfl, rfl, rfl⟩
      · cases hs

/-- **ONE STEP OF BOTH**: the second world can follow, and stays alike. -/
theorem alike_step [DecidableEq C] (q : World C × World C)
    (a : Action C × Action C) (w₁ : World C) (h : Alike hotkey q)
    (hsame : SameAction hotkey q a) (hs : step p q.1 a.1 = some w₁) :
    ∃ w₁', step p q.2 a.2 = some w₁' ∧ Alike hotkey (w₁, w₁') := by
  obtain ⟨w, w'⟩ := q
  cases hsame with
  | unseen r r' hoff hu =>
      have hoff' : w.enabled = false := hoff
      obtain ⟨hout, hout', -⟩ := processEvent_unseen h.twin
        (h.chord.symm ▸ hu) r r'
      refine Alike.load h ?_ ?_ hs
      · rw [hoff']
        exact hout.trans hout'.symm
      · rw [hoff']
        exact .unseen r r' hu
  | refl a =>
      by_cases ha : elsewhere a = true
      · obtain ⟨hcap, hpc, hstep⟩ :=
          step_elsewhere ha hs w'.capture w'.capturePc
        rw [← h.rest] at hstep
        refine ⟨_, hstep, ?_, ?_, ?_, rfl⟩
        · exact (congrArg CaptureState.hotkey hcap).trans h.chord
        · show Twin w₁.capture w'.capture
          rw [hcap]
          exact h.twin
        · show SamePc hotkey w₁.capturePc w'.capturePc
          rw [hpc]
          exact h.pc
      · cases a with
        | load r ev =>
            exact Alike.load h (processEvent_same h.twin r w.enabled ev).1
              (.refl _) hs
        | decide => exact Alike.decide h hs
        | send => exact Alike.send h hs
        | recv => exact absurd rfl ha
        | broadcast => exact absurd rfl ha
        | toggle i desired => exact absurd rfl ha
        | store i => exact absurd rfl ha
        | handlerBroadcast i => exact absurd rfl ha
        | deliver i => exact absurd rfl ha

/-- **WHAT IS TYPED WHILE OFF STAYS HERE**: take any run, with any number of
    clients and any interleaving, and replace what the capture thread takes up
    while the flag is off by other keys, buttons, wheel turns and cursor
    positions.  The replaced run is possible too, and the flag, every channel,
    what every client received and what it holds are the same. -/
theorem local_typing_stays_local [DecidableEq C] (p : Platform)
    (enabled : Bool) (hotkey : Option HotkeyChord)
    (acts : List (Action C × Action C)) (w : World C)
    (hsame : Guarded (both (step p)) (SameAction hotkey)
      (World.start C enabled hotkey, World.start C enabled hotkey) acts)
    (hrun : exec (step p) (World.start C enabled hotkey) (acts.map Prod.fst)
      = some w) :
    ∃ w', exec (step p) (World.start C enabled hotkey) (acts.map Prod.snd)
        = some w' ∧
      w'.enabled = w.enabled ∧ w'.captureChannel = w.captureChannel ∧
      w'.forwarder = w.forwarder ∧ w'.handler = w.handler ∧
      w'.wire = w.wire ∧ w'.received = w.received ∧ w'.client = w.client := by
  obtain ⟨w', hrun', hend⟩ := exec_simulates alike_step acts
    (World.start C enabled hotkey, World.start C enabled hotkey) w
    (alike_start enabled) hsame hrun
  obtain ⟨-, -, -, hrest⟩ := hend
  simp only at hrest
  refine ⟨w', hrun', ?_, ?_, ?_, ?_, ?_, ?_, ?_⟩ <;> rw [hrest]

end Runs

/-- Neither key tells anything, with the default chord. -/
theorem local_press {k : Key} (hm : k ∉ modifierKeys) (hf : k ≠ .keyF) :
    Local (some ctrlAltF) (.keyPress k) := by
  refine .keyPress ?_
  rintro (hk | ⟨hk, hchord, rfl⟩)
  · exact hm hk
  · rw [← Option.some.inj hchord] at hf
    exact hf rfl

/-- The rest of both runs: client 0 switches forwarding on, and `a` is
    typed. -/
def thenTypeA : List (Action (Fin 2)) :=
  [.decide, .toggle 0 true, .store 0, .handlerBroadcast 0,
    .load Readings.zero (.keyPress .keyA), .decide, .send, .recv, .broadcast,
    .deliver 1, .deliver 1]

/-- While it is off, `p` is typed in one run and `q` in the other, and the
    cursor moves elsewhere. -/
def typedPairs : List (Action (Fin 2) × Action (Fin 2)) :=
  [(.load Readings.zero (.keyPress .keyP),
      .load Readings.zero (.keyPress .keyQ)),
    (.decide, .decide),
    (.load Readings.zero (.mouseMove 0 0),
      .load Readings.zero (.mouseMove 640 480))]
    ++ thenTypeA.map fun a => (a, a)

theorem typedPairs_same :
    Guarded (both (step .linux)) (SameAction (some ctrlAltF))
      (World.start (Fin 2) false (some ctrlAltF),
        World.start (Fin 2) false (some ctrlAltF)) typedPairs := by
  have hlocal : Unseen (some ctrlAltF) (.keyPress .keyP) (.keyPress .keyQ) :=
    .ofLocal (local_press (by decide) (by decide))
      (local_press (by decide) (by decide))
  refine (guarded_cons_some rfl).mpr ⟨.unseen _ _ rfl hlocal, ?_⟩
  refine (guarded_cons_some rfl).mpr ⟨.refl _, ?_⟩
  refine (guarded_cons_some rfl).mpr ⟨.unseen _ _ rfl (.motion _ _ _ _), ?_⟩
  refine guarded_of_forall _ _ fun a ha s => ?_
  obtain ⟨b, -, rfl⟩ := List.mem_map.mp ha
  exact .refl b

/-- Client 1 receives the same of both. -/
theorem local_typing_stays_local_typed :
    ∃ w : World (Fin 2),
      exec (step .linux) (World.start (Fin 2) false (some ctrlAltF))
        (typedPairs.map Prod.snd) = some w ∧
      w.received 1 = [.toggleForward true, .input (.keyPress 30 0)] := by
  have hrun : (exec (step .linux) (World.start (Fin 2) false (some ctrlAltF))
      (typedPairs.map Prod.fst)).map (fun w => w.received 1)
      = some [.toggleForward true, .input (.keyPress 30 0)] := by
    decide
  obtain ⟨w, hw, hv⟩ := Option.map_eq_some_iff.mp hrun
  obtain ⟨w', hw', -, -, -, -, -, hreceived, -⟩ :=
    local_typing_stays_local .linux false (some ctrlAltF) typedPairs w
      typedPairs_same hw
  exact ⟨w', hw', (congrFun hreceived 1).trans hv⟩

end KvmPrivacy
