import KvmRs.CaptureProofs
import KvmRs.TransitionProofs
import Mathlib.Algebra.BigOperators.Group.List.Basic
import Mathlib.Algebra.Group.Prod

/-! # Cursor motion and edge warps

    The callback sees absolute positions and forwards their differences.  At
    an edge it puts the cursor back to the centre, and that is reported like
    any other motion: at the end of the queue, behind whatever the user has
    done in the meantime.  The flag `warping` takes the next report for the
    warp.

    `Aligned` says where the warp's report is: at the head of the queue as
    long as the flag is up, and nowhere else.  It holds where a warp finds
    the queue empty; otherwise a motion of the user is dropped in its place,
    and the jump to the centre is forwarded. -/

namespace KvmWarp

open KvmEnvelope KvmCapture Transition

/-- A position, or a displacement. -/
abbrev Point := Int × Int

/-- Who moved the cursor, and if it was the user, by how much. -/
inductive Mover where
  | user (d : Point)
  | warp
  deriving DecidableEq

/-- A `MouseMove` event on its way to the callback. -/
structure Report where
  pos : Point
  mover : Mover
  deriving DecidableEq

/-- What the user did with the cursor before this report. -/
def Report.moved (r : Report) : Point :=
  match r.mover with
  | .user d => d
  | .warp => 0

/-- A report that was processed: the value of `enabled` that was loaded,
    whether it was consumed for seeding or for a warp, and what was
    forwarded. -/
structure Entry where
  report : Report
  on : Bool
  consumed : Bool
  forward : Option Event
  deriving DecidableEq

/-- The delta that an event forwards. -/
def deltaOf : Option Event → Option Point
  | some (.mouseDelta dx dy) => some (dx.toInt, dy.toInt)
  | _ => none

def Entry.delta (e : Entry) : Option Point := deltaOf e.forward

/-- What the client's cursor is moved by. -/
def Entry.sent (e : Entry) : Point := e.delta.getD 0

/-- The shared flag, the capture, where the cursor is, the reports that wait
    for the callback, oldest first, and what has been processed and
    forwarded. -/
structure World where
  enabled : Bool
  capture : CaptureState
  cursor : Point
  queue : List Report
  log : List Entry
  deltas : List Point
  deriving DecidableEq

def World.start (enabled : Bool) (hotkey : Option HotkeyChord) (cursor : Point) :
    World where
  enabled := enabled
  capture := CaptureState.start enabled hotkey
  cursor := cursor
  queue := []
  log := []
  deltas := []

inductive Action where
  /-- The user moves the cursor. -/
  | userMove (d : Point)
  /-- The rest of the server stores to the flag. -/
  | toggle (on : Bool)
  /-- The callback gets an event that is not a motion. -/
  | captured (r : Readings) (ev : EventType)
  /-- The callback gets the oldest report.  If it warps, the cursor ends up
      at `landing`, the centre of the screen. -/
  | deliver (r : Readings) (landing : Point)
  deriving DecidableEq

/-- The next report only tells where the cursor is: it is taken for a warp, or
    it is the first one after switching on. -/
def World.consumes (w : World) : Bool :=
  w.capture.warping || (w.capture.seedNext ||
    (w.enabled && !w.capture.wasEnabled))

def step (w : World) : Action → Option World
  | .userMove d =>
      some { w with
        cursor := w.cursor + d
        queue := w.queue ++ [⟨w.cursor + d, .user d⟩] }
  | .toggle on => some { w with enabled := on }
  | .captured _ (.mouseMove _ _) => none
  | .captured r ev =>
      let out := processEvent r w.enabled w.capture ev
      some { w with
        enabled := out.2.toggled.getD w.enabled
        capture := out.1
        deltas := w.deltas ++ (deltaOf out.2.forward).toList }
  | .deliver r landing =>
      match w.queue with
      | [] => none
      | report :: rest =>
          let out := processEvent r w.enabled w.capture
            (.mouseMove report.pos.1 report.pos.2)
          -- the flag is only up if a warp was issued just now
          let warped := out.1.warping
          some {
            enabled := w.enabled
            capture := out.1
            cursor := if warped then landing else w.cursor
            queue := if warped then rest ++ [⟨landing, .warp⟩] else rest
            log := w.log ++ [⟨report, w.enabled, w.consumes, out.2.forward⟩]
            deltas := w.deltas ++ (deltaOf out.2.forward).toList }

/-! ## What the callback does with a report -/

/-- A motion to this position makes the callback put the cursor back. -/
def Warps (r : Readings) (w : World) (pos : Point) : Prop :=
  w.enabled = true ∧ w.consumes = false ∧ ∃ width height,
    r.displaySize = some (width, height) ∧ 0 < width ∧ 0 < height ∧
      nearEdge width height pos.1 pos.2 = true ∧ r.simulateOk = true

/-- The displacement fits into the fields of a `MouseDelta`. -/
def Fits (d : Point) : Prop :=
  (-2 ^ 31 ≤ d.1 ∧ d.1 < 2 ^ 31) ∧ -2 ^ 31 ≤ d.2 ∧ d.2 < 2 ^ 31

theorem asI32_toInt {d : Int} (h : -2 ^ 31 ≤ d ∧ d < 2 ^ 31) :
    (asI32 d).toInt = d := by
  have hclamp : max (-2 ^ 31) (min (2 ^ 31 - 1) d) = d := by omega
  rw [asI32, hclamp]
  exact Int32.toInt_ofInt_of_le h.1 h.2

section Callback

variable {r : Readings} {w : World} {pos : Point}

/-- The callback's answer to a report. -/
def motion (r : Readings) (w : World) (pos : Point) :
    CaptureState × ProcessOutcome :=
  processEvent r w.enabled w.capture (.mouseMove pos.1 pos.2)

/-- The position is remembered in any case. -/
theorem motion_last :
    (motion r w pos).1.lastX = pos.1 ∧ (motion r w pos).1.lastY = pos.2 := by
  simp only [motion, processEvent, processMouseMove]
  split
  · exact ⟨rfl, rfl⟩
  · split
    · exact ⟨rfl, rfl⟩
    · exact ⟨rfl, rfl⟩

/-- A consumed report leaves nothing behind. -/
theorem motion_consumed (h : w.consumes = true) :
    (motion r w pos).1.warping = false ∧ (motion r w pos).2.forward = none := by
  simp only [motion, processEvent, processMouseMove]
  split
  · exact ⟨rfl, rfl⟩
  · rename_i hwarping
    rw [World.consumes, Bool.eq_false_iff.mpr hwarping, Bool.false_or] at h
    rw [if_pos h]
    exact ⟨Bool.eq_false_iff.mpr hwarping, rfl⟩

/-- Any other one may warp, and is forwarded while forwarding is on. -/
theorem motion_tracked (h : w.consumes = false) :
    ((motion r w pos).1.warping = true ↔ Warps r w pos) ∧
      (motion r w pos).2.forward
        = if w.enabled = true ∧ (asI32 (pos.1 - w.capture.lastX) ≠ 0 ∨
            asI32 (pos.2 - w.capture.lastY) ≠ 0) then
          some (.mouseDelta (asI32 (pos.1 - w.capture.lastX))
            (asI32 (pos.2 - w.capture.lastY)))
        else none := by
  have hcons := h
  rw [World.consumes, Bool.or_eq_false_iff] at h
  obtain ⟨hwarping, hseed⟩ := h
  simp only [motion, processEvent, processMouseMove, hwarping, hseed,
    Bool.false_eq_true, if_false]
  refine ⟨?_, trivial⟩
  rw [Warps]
  cases hen : w.enabled with
  | false => simp
  | true =>
      cases hdisplay : r.displaySize with
      | none => simp
      | some size =>
          obtain ⟨width, height⟩ := size
          simp only [Bool.and_eq_true, decide_eq_true_iff, hcons, true_and,
            Option.some.injEq, Prod.mk.injEq]
          constructor
          · rintro ⟨⟨⟨hw, hh⟩, hedge⟩, hok⟩
            exact ⟨width, height, ⟨rfl, rfl⟩, hw, hh, hedge, hok⟩
          · rintro ⟨_, _, ⟨rfl, rfl⟩, hw, hh, hedge, hok⟩
            exact ⟨⟨⟨hw, hh⟩, hedge⟩, hok⟩

end Callback

/-- The condition under which the flag means what it says: a warp is issued
    only when no report waits, and what is forwarded fits. -/
def Orderly (w : World) : Action → Prop
  | .deliver r _ =>
      match w.queue with
      | [] => True
      | report :: rest =>
          (Warps r w report.pos → rest = []) ∧
            (w.enabled = true → w.consumes = false → Fits report.moved)
  | _ => True

instance fitsDecidable (d : Point) : Decidable (Fits d) :=
  inferInstanceAs (Decidable ((_ ∧ _) ∧ _ ∧ _))

instance warpsDecidable (r : Readings) (w : World) (pos : Point) :
    Decidable (Warps r w pos) :=
  decidable_of_iff
    (w.consumes = false ∧ (motion r w pos).1.warping = true)
    ⟨fun h => (motion_tracked h.1).1.mp h.2,
      fun h => ⟨h.2.1, (motion_tracked h.2.1).1.mpr h⟩⟩

instance orderlyDecidable (w : World) (a : Action) : Decidable (Orderly w a) :=
  match a with
  | .userMove _ => isTrue trivial
  | .toggle _ => isTrue trivial
  | .captured _ _ => isTrue trivial
  | .deliver r _ =>
      match h : w.queue with
      | [] => isTrue (by rw [Orderly, h]; trivial)
      | report :: rest =>
          decidable_of_iff ((Warps r w report.pos → rest = []) ∧
            (w.enabled = true → w.consumes = false → Fits report.moved))
            (by rw [Orderly, h])

/-! ## The queue -/

/-- The reports lead from one position to another, step by step where the user
    moved. -/
def Chained : Point → List Report → Point → Prop
  | p, [], c => p = c
  | p, r :: rs, c =>
      (∀ d, r.mover = .user d → r.pos = p + d) ∧ Chained r.pos rs c

def Report.ByUser (r : Report) : Prop := ∃ d, r.mover = .user d

/-- Where the report of a warp is: at the head while the flag is up, and
    nowhere else. -/
def Pending : Bool → List Report → Prop
  | true, queue => ∃ pos rest, queue = ⟨pos, .warp⟩ :: rest ∧
      ∀ r ∈ rest, r.ByUser
  | false, queue => ∀ r ∈ queue, r.ByUser

section Queue

variable {p c : Point} {queue rest : List Report} {report : Report}
  {warping : Bool}

/-- A motion of the user goes on where the queue ends. -/
theorem Chained.snoc (h : Chained p queue c) (d : Point) :
    Chained p (queue ++ [⟨c + d, .user d⟩]) (c + d) := by
  induction queue generalizing p with
  | nil =>
      have hp : p = c := h
      refine ⟨?_, rfl⟩
      intro d' hd'
      rw [hp, Mover.user.inj hd']
  | cons r queue ih => exact ⟨h.1, ih h.2⟩

theorem Pending.snoc (h : Pending warping queue) (pos d : Point) :
    Pending warping (queue ++ [⟨pos, .user d⟩]) := by
  have hnew : ∀ r ∈ [(⟨pos, .user d⟩ : Report)], r.ByUser := by
    intro r hr
    rw [List.mem_singleton.mp hr]
    exact ⟨d, rfl⟩
  cases warping with
  | false => exact List.forall_mem_append.mpr ⟨h, hnew⟩
  | true =>
      obtain ⟨at', rest, rfl, hrest⟩ := h
      exact ⟨at', rest ++ [⟨pos, .user d⟩], rfl,
        List.forall_mem_append.mpr ⟨hrest, hnew⟩⟩

/-- Behind the head there are only motions of the user. -/
theorem Pending.tail (h : Pending warping (report :: rest)) :
    Pending false rest := by
  cases warping with
  | false => exact fun r hr => h r (List.mem_cons_of_mem _ hr)
  | true =>
      obtain ⟨pos, rest', heq, hrest⟩ := h
      rw [(List.cons.inj heq).2]
      exact hrest

end Queue

/-! ## The invariant -/

/-- A processed report: what is forwarded is what the user did, if forwarding
    was on and the report not consumed. -/
structure Entry.Sound (e : Entry) : Prop where
  own : ∀ d, e.delta = some d → e.on = true ∧ e.report.mover = .user d
  sent : e.sent
    = if e.on = true ∧ e.consumed = false then e.report.moved else 0

/-- The position before the queue, from which the callback counts unless the
    next report only seeds it, and the last one that was processed. -/
structure Tracks (w : World) (p : Point) : Prop where
  chained : Chained p w.queue w.cursor
  last : w.capture.seedNext = true ∨ (w.capture.lastX, w.capture.lastY) = p
  logged : ∀ e ∈ w.log.getLast?, e.report.pos = p

/-- One report follows the other: the user moved from there to here. -/
def Follows (e e' : Entry) : Prop :=
  ∀ d, e'.report.mover = .user d → e'.report.pos = e.report.pos + d

structure Aligned (w : World) : Prop where
  tracks : ∃ p, Tracks w p
  pending : Pending w.capture.warping w.queue
  sound : ∀ e ∈ w.log, e.Sound
  consecutive : w.log.IsChain Follows
  deltas : w.deltas = w.log.filterMap Entry.delta

theorem aligned_start (enabled : Bool) (hotkey : Option HotkeyChord)
    (cursor : Point) : Aligned (World.start enabled hotkey cursor) where
  tracks := ⟨cursor, rfl, Or.inl rfl, fun _ h => absurd h (by simp [World.start])⟩
  pending := fun _ h => absurd h List.not_mem_nil
  sound := fun _ h => absurd h List.not_mem_nil
  consecutive := List.IsChain.nil
  deltas := rfl

section Steps

variable {w : World} {r : Readings}

theorem aligned_userMove (h : Aligned w) (d : Point) :
    Aligned { w with
      cursor := w.cursor + d
      queue := w.queue ++ [⟨w.cursor + d, .user d⟩] } := by
  obtain ⟨p, hp⟩ := h.tracks
  exact ⟨⟨p, hp.chained.snoc d, hp.last, hp.logged⟩, h.pending.snoc _ d,
    h.sound, h.consecutive, h.deltas⟩

/-- What an event that is not a motion leaves alone. -/
structure Motionless (st st' : CaptureState) (forward : Option Event) : Prop where
  lastX : st'.lastX = st.lastX
  lastY : st'.lastY = st.lastY
  warping : st'.warping = st.warping
  seedNext : st.seedNext = true → st'.seedNext = true
  forward : deltaOf forward = none

theorem deltaOf_forwardIf {en : Bool} {ev : Event}
    (h : ∀ dx dy, ev ≠ .mouseDelta dx dy) :
    deltaOf (forwardIf en ev).forward = none := by
  cases en with
  | false => rfl
  | true =>
      cases ev with
      | mouseDelta dx dy => exact absurd rfl (h dx dy)
      | _ => rfl

theorem tryFireHotkey_motionless (st : CaptureState) (en : Bool) :
    Motionless st (tryFireHotkey r st en).1 none := by
  rcases tryFireHotkey_cases r st en with h | h
  · rw [h]
    exact ⟨rfl, rfl, rfl, id, rfl⟩
  · rw [h]
    refine ⟨rfl, rfl, rfl, ?_, rfl⟩
    intro hseed
    simp only [hseed, Bool.true_or]

theorem Motionless.trans {st st₁ st₂ : CaptureState} {f f' : Option Event}
    (h : Motionless st st₁ f) (h' : Motionless st₁ st₂ f') :
    Motionless st st₂ f' where
  lastX := h'.lastX.trans h.lastX
  lastY := h'.lastY.trans h.lastY
  warping := h'.warping.trans h.warping
  seedNext := fun hs => h'.seedNext (h.seedNext hs)
  forward := h'.forward

theorem processEvent_motionless {en : Bool} {st : CaptureState} {ev : EventType}
    (hmove : ∀ x y, ev ≠ .mouseMove x y) :
    Motionless st (processEvent r en st ev).1
      (processEvent r en st ev).2.forward := by
  have hseed : st.seedNext = true →
      (st.seedNext || (en && !st.wasEnabled)) = true := by
    intro hs
    rw [hs, Bool.true_or]
  cases ev with
  | keyPress k =>
      simp only [processEvent]
      split
      · split
        · exact ⟨rfl, rfl, rfl, hseed, rfl⟩
        · have hpressed : Motionless st { st with
              wasEnabled := en
              seedNext := st.seedNext || (en && !st.wasEnabled)
              pressedKeys := insert k st.pressedKeys
              hotkeySwallowedKeys := insert k st.hotkeySwallowedKeys } none :=
            ⟨rfl, rfl, rfl, hseed, rfl⟩
          exact hpressed.trans (tryFireHotkey_motionless _ en)
      · exact ⟨rfl, rfl, rfl, hseed, deltaOf_forwardIf (by simp)⟩
  | keyRelease k =>
      simp only [processEvent]
      split
      · exact ⟨rfl, rfl, rfl, hseed, rfl⟩
      · exact ⟨rfl, rfl, rfl, hseed, deltaOf_forwardIf (by simp)⟩
  | buttonPress b => exact ⟨rfl, rfl, rfl, hseed, deltaOf_forwardIf (by simp)⟩
  | buttonRelease b => exact ⟨rfl, rfl, rfl, hseed, deltaOf_forwardIf (by simp)⟩
  | wheel dx dy => exact ⟨rfl, rfl, rfl, hseed, deltaOf_forwardIf (by simp)⟩
  | mouseMove x y => exact absurd rfl (hmove x y)

theorem aligned_captured (h : Aligned w) {ev : EventType}
    (hmove : ∀ x y, ev ≠ .mouseMove x y) :
    Aligned { w with
      enabled := (processEvent r w.enabled w.capture ev).2.toggled.getD w.enabled
      capture := (processEvent r w.enabled w.capture ev).1
      deltas := w.deltas ++
        (deltaOf (processEvent r w.enabled w.capture ev).2.forward).toList } := by
  have hstill := @processEvent_motionless r w.enabled w.capture ev hmove
  obtain ⟨p, hp⟩ := h.tracks
  refine ⟨⟨p, hp.chained, ?_, hp.logged⟩, ?_, h.sound, h.consecutive, ?_⟩
  · rw [hstill.lastX, hstill.lastY]
    exact hp.last.imp_left hstill.seedNext
  · rw [hstill.warping]
    exact h.pending
  · rw [hstill.forward]
    exact (List.append_nil _).trans h.deltas

/-! ## Processing a report -/

section Deliver

variable {report : Report} {rest : List Report} {landing : Point}

/-- The entry for a report that is processed. -/
def World.entry (w : World) (r : Readings) (report : Report) : Entry :=
  ⟨report, w.enabled, w.consumes, (motion r w report.pos).2.forward⟩

/-- A consumed report forwards nothing. -/
theorem sound_consumed (h : w.consumes = true) : (w.entry r report).Sound := by
  have hforward := (@motion_consumed r w report.pos h).2
  have hdelta : (w.entry r report).delta = none := by
    rw [Entry.delta, World.entry, hforward]
    rfl
  refine ⟨?_, ?_⟩
  · intro d hd
    rw [hdelta] at hd
    cases hd
  · rw [Entry.sent, hdelta, if_neg]
    · rfl
    · rintro ⟨-, hno⟩
      exact Bool.eq_false_iff.mp hno h

/-- A motion of the user that is not consumed forwards what the user did. -/
theorem sound_tracked {p d : Point} (h : w.consumes = false)
    (hlast : (w.capture.lastX, w.capture.lastY) = p)
    (hmover : report.mover = .user d) (hpos : report.pos = p + d)
    (hfits : w.enabled = true → Fits d) : (w.entry r report).Sound := by
  have hforward := (@motion_tracked r w report.pos h).2
  have hx : report.pos.1 - w.capture.lastX = d.1 := by
    rw [hpos, ← hlast]
    exact add_sub_cancel_left _ _
  have hy : report.pos.2 - w.capture.lastY = d.2 := by
    rw [hpos, ← hlast]
    exact add_sub_cancel_left _ _
  have hmoved : report.moved = d := by
    rw [Report.moved, hmover]
  rw [hx, hy] at hforward
  cases hen : w.enabled with
  | false =>
      have hdelta : (w.entry r report).delta = none := by
        rw [Entry.delta, World.entry, hforward, hen, if_neg (by simp)]
        rfl
      refine ⟨?_, ?_⟩
      · intro d hd
        rw [hdelta] at hd
        cases hd
      · rw [Entry.sent, hdelta, World.entry, hen, if_neg (by simp)]
        rfl
  | true =>
      obtain ⟨hdx, hdy⟩ := hfits hen
      by_cases hzero : asI32 d.1 ≠ 0 ∨ asI32 d.2 ≠ 0
      · have hdelta : (w.entry r report).delta = some d := by
          rw [Entry.delta, World.entry, hforward, if_pos ⟨hen, hzero⟩, deltaOf,
            asI32_toInt hdx, asI32_toInt hdy]
        refine ⟨?_, ?_⟩
        · intro d' hd'
          rw [hdelta] at hd'
          exact ⟨hen, by rw [← Option.some.inj hd']; exact hmover⟩
        · rw [Entry.sent, hdelta, if_pos ⟨hen, h⟩]
          exact hmoved.symm
      · -- no displacement at all
        have hd : d = 0 := by
          push Not at hzero
          have hd1 := asI32_toInt hdx
          have hd2 := asI32_toInt hdy
          rw [hzero.1] at hd1
          rw [hzero.2] at hd2
          exact Prod.ext hd1.symm hd2.symm
        have hdelta : (w.entry r report).delta = none := by
          rw [Entry.delta, World.entry, hforward, if_neg fun h => hzero h.2]
          rfl
        refine ⟨?_, ?_⟩
        · intro d' hd'
          rw [hdelta] at hd'
          cases hd'
        · rw [Entry.sent, hdelta, if_pos ⟨hen, h⟩]
          exact (hmoved.trans hd).symm

/-- The world after a report was processed. -/
def World.after (w : World) (r : Readings) (report : Report)
    (rest : List Report) (landing : Point) : World where
  enabled := w.enabled
  capture := (motion r w report.pos).1
  cursor := if (motion r w report.pos).1.warping then landing else w.cursor
  queue := if (motion r w report.pos).1.warping then
    rest ++ [⟨landing, .warp⟩] else rest
  log := w.log ++ [w.entry r report]
  deltas := w.deltas ++ (deltaOf (motion r w report.pos).2.forward).toList

/-- What is left of the invariant once it is known what was forwarded and
    where the queue goes on. -/
theorem aligned_after {p : Point} (h : Aligned w) (hp : Tracks w p)
    (hqueue : w.queue = report :: rest) (hsound : (w.entry r report).Sound)
    (hchained : Chained report.pos (w.after r report rest landing).queue
      (w.after r report rest landing).cursor)
    (hpending : Pending (motion r w report.pos).1.warping
      (w.after r report rest landing).queue) :
    Aligned (w.after r report rest landing) := by
  have hchain := hp.chained
  rw [hqueue] at hchain
  refine ⟨⟨report.pos, hchained, Or.inr ?_, ?_⟩, hpending, ?_, ?_, ?_⟩
  · exact Prod.ext motion_last.1 motion_last.2
  · intro e he
    have hlast : (w.after r report rest landing).log.getLast?
        = some (w.entry r report) := List.getLast?_concat
    rw [hlast] at he
    rw [← Option.some.inj he]
    rfl
  · exact List.forall_mem_append.mpr ⟨h.sound,
      List.forall_mem_singleton.mpr hsound⟩
  · refine List.isChain_append.mpr ⟨h.consecutive, List.IsChain.singleton _, ?_⟩
    intro e he e' he' d hd
    rw [← Option.some.inj he'] at hd ⊢
    rw [hp.logged e he]
    exact hchain.1 d hd
  · show w.deltas ++ _ = (w.log ++ [w.entry r report]).filterMap Entry.delta
    have hone : (deltaOf (motion r w report.pos).2.forward).toList
        = [w.entry r report].filterMap Entry.delta := by
      show (w.entry r report).delta.toList = _
      cases hdelta : (w.entry r report).delta with
      | none => rw [List.filterMap_cons_none hdelta]; rfl
      | some d => rw [List.filterMap_cons_some hdelta]; rfl
    rw [List.filterMap_append, h.deltas, hone]

/-- A report that is processed in order. -/
theorem aligned_deliver (h : Aligned w) (hqueue : w.queue = report :: rest)
    (hwarp : Warps r w report.pos → rest = [])
    (hfits : w.enabled = true → w.consumes = false → Fits report.moved) :
    Aligned (w.after r report rest landing) := by
  obtain ⟨p, hp⟩ := h.tracks
  have hchain := hp.chained
  rw [hqueue] at hchain
  have htail : Pending false rest := (hqueue ▸ h.pending).tail
  cases hcons : w.consumes with
  | true =>
      have hdown := (@motion_consumed r w report.pos hcons).1
      refine aligned_after h hp hqueue (sound_consumed hcons) ?_ ?_
      · simp only [World.after, hdown]
        exact hchain.2
      · simp only [World.after, hdown]
        exact htail
  | false =>
      -- the flag is down, so the report is the user's
      have hidle := hcons
      rw [World.consumes, Bool.or_eq_false_iff, Bool.or_eq_false_iff] at hidle
      obtain ⟨hwarping, hseed, -⟩ := hidle
      have hpending := h.pending
      rw [hwarping, hqueue] at hpending
      obtain ⟨d, hd⟩ := hpending report List.mem_cons_self
      have hlast := hp.last.resolve_left (Bool.eq_false_iff.mp hseed)
      have hmoved : report.moved = d := by
        rw [Report.moved, hd]
      have hsound := sound_tracked (r := r) hcons hlast hd (hchain.1 d hd)
        fun hen => hmoved ▸ hfits hen hcons
      cases hflag : (motion r w report.pos).1.warping with
      | false =>
          refine aligned_after h hp hqueue hsound ?_ ?_
          · simp only [World.after, hflag]
            exact hchain.2
          · simp only [World.after, hflag]
            exact htail
      | true =>
          have hnil := hwarp ((motion_tracked hcons).1.mp hflag)
          refine aligned_after h hp hqueue hsound ?_ ?_
          · simp only [World.after, hflag, hnil]
            refine ⟨?_, rfl⟩
            intro d hd
            cases hd
          · simp only [World.after, hflag, hnil]
            exact ⟨landing, [], rfl, fun r hr => absurd hr List.not_mem_nil⟩

end Deliver

end Steps

/-- **ONE ACTION** in order keeps the flag on the warp's report. -/
theorem step_aligned (w : World) (a : Action) (w' : World) (h : Aligned w)
    (hok : Orderly w a) (hs : step w a = some w') : Aligned w' := by
  cases a with
  | userMove d =>
      rw [← Option.some.inj hs]
      exact aligned_userMove h d
  | toggle on =>
      rw [← Option.some.inj hs]
      exact ⟨h.tracks.imp fun p hp => ⟨hp.chained, hp.last, hp.logged⟩,
        h.pending, h.sound, h.consecutive, h.deltas⟩
  | captured r ev =>
      cases ev with
      | mouseMove x y => cases hs
      | keyPress k =>
          rw [← Option.some.inj hs]
          exact aligned_captured h (by simp)
      | keyRelease k =>
          rw [← Option.some.inj hs]
          exact aligned_captured h (by simp)
      | buttonPress b =>
          rw [← Option.some.inj hs]
          exact aligned_captured h (by simp)
      | buttonRelease b =>
          rw [← Option.some.inj hs]
          exact aligned_captured h (by simp)
      | wheel dx dy =>
          rw [← Option.some.inj hs]
          exact aligned_captured h (by simp)
  | deliver r landing =>
      cases hqueue : w.queue with
      | nil =>
          simp only [step, hqueue] at hs
          cases hs
      | cons report rest =>
          simp only [step, hqueue] at hs
          simp only [Orderly, hqueue] at hok
          rw [← Option.some.inj hs]
          exact aligned_deliver h hqueue hok.1 hok.2

/-! ## Whole runs -/

/-- The forwarded deltas are the user's: each one is the displacement between
    its report and the one before it, none is forwarded while off, and they
    add up to what the user did while on, less what was consumed. -/
structure Faithful (w : World) : Prop where
  all : w.deltas = w.log.filterMap Entry.delta
  own : ∀ e ∈ w.log, ∀ d, e.delta = some d →
    e.on = true ∧ e.report.mover = .user d
  consecutive : w.log.IsChain Follows
  sum : w.deltas.sum
    = ((w.log.filter fun e => e.on).map fun e => e.report.moved).sum
      - ((w.log.filter fun e => e.on && e.consumed).map fun e =>
        e.report.moved).sum

/-- What is sent adds up to the deltas. -/
theorem sum_deltas (log : List Entry) :
    (log.filterMap Entry.delta).sum = (log.map Entry.sent).sum := by
  induction log with
  | nil => rfl
  | cons e log ih =>
      rw [List.map_cons, List.sum_cons, ← ih, Entry.sent]
      cases hdelta : e.delta with
      | none =>
          rw [List.filterMap_cons_none hdelta]
          exact (zero_add _).symm
      | some d =>
          rw [List.filterMap_cons_some hdelta, List.sum_cons]
          rfl

/-- If every report sends what it should, the sums are what they should be. -/
theorem sum_sent {log : List Entry} (h : ∀ e ∈ log, e.Sound) :
    (log.map Entry.sent).sum
      = ((log.filter fun e => e.on).map fun e => e.report.moved).sum
        - ((log.filter fun e => e.on && e.consumed).map fun e =>
          e.report.moved).sum := by
  induction log with
  | nil => rfl
  | cons e log ih =>
      obtain ⟨he, hlog⟩ := List.forall_mem_cons.mp h
      rw [List.map_cons, List.sum_cons, ih hlog, he.sent, List.filter_cons,
        List.filter_cons]
      cases e.on with
      | false => simp
      | true =>
          cases e.consumed with
          | true => simp
          | false => simp [add_sub_assoc]

theorem Aligned.faithful {w : World} (h : Aligned w) : Faithful w where
  all := h.deltas
  own := fun e he => (h.sound e he).own
  consecutive := h.consecutive
  sum := by rw [h.deltas, sum_deltas, sum_sent h.sound]

/-- **DELTAS ARE THE USER'S**: for every flag, hotkey and position of the
    cursor to start with, and every order of motions, toggles, other events
    and reports in which each warp finds the queue empty. -/
theorem deltas_are_user_motion (enabled : Bool) (hotkey : Option HotkeyChord)
    (cursor : Point) (acts : List Action) (w : World)
    (hrun : exec step (World.start enabled hotkey cursor) acts = some w)
    (hok : Guarded step Orderly (World.start enabled hotkey cursor) acts) :
    Faithful w :=
  (invariant_exec step_aligned acts _ w (aligned_start enabled hotkey cursor)
    hok hrun).faithful

/-- A display of 1920 by 1080 pixels. -/
def fullHd : Readings where
  now := 0
  displaySize := some (1920, 1080)
  simulateOk := true

/-- The user starts at the centre, goes to the left edge and on from the
    centre, where the warp has put the cursor. -/
def toTheEdge : List Action :=
  [.userMove (0, 10), .deliver fullHd (960, 540), .userMove (-959, 0),
    .deliver fullHd (960, 540), .userMove (5, 0), .deliver fullHd (960, 540),
    .deliver fullHd (960, 540)]

/-- The theorem at a warp that finds the queue empty. -/
theorem deltas_are_user_motion_at_edge :
    ∃ w, Faithful w ∧ w.deltas = [(-959, 0), (5, 0)] := by
  have hrun : (exec step (World.start true none (960, 540)) toTheEdge).map
      World.deltas = some [(-959, 0), (5, 0)] := by
    decide
  obtain ⟨w, hw, hdeltas⟩ := Option.map_eq_some_iff.mp hrun
  exact ⟨w, deltas_are_user_motion true none (960, 540) toTheEdge w hw
    (by decide), hdeltas⟩

/-- **A QUEUED MOTION IS TAKEN FOR THE WARP**: the user reaches the left edge
    and moves on before the callback sees it; the second motion is dropped as
    if it were the warp, and the jump to the centre is forwarded. -/
theorem queued_motion_leaks_warp :
    ∃ w, exec step (World.start true none (960, 540))
        [.userMove (0, 10), .deliver fullHd (960, 540), .userMove (-959, 0),
          .userMove (5, 0), .deliver fullHd (960, 540),
          .deliver fullHd (960, 540), .deliver fullHd (960, 540)] = some w ∧
      w.deltas = [(-959, 0), (954, -10)] ∧ ¬ Faithful w := by
  refine ⟨_, rfl, by decide, ?_⟩
  intro h
  -- the last entry is the warp's, and forwards a delta
  have hlast := (h.own ⟨⟨(960, 540), .warp⟩, true, false,
    some (.mouseDelta 954 (-10))⟩ (by decide) (954, -10) (by decide)).2
  cases hlast

end KvmWarp
