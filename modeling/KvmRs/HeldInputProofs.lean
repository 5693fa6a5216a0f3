import KvmRs.HeldOrderProofs
import KvmRs.InjectProofs

/-! # What the operating system has down

    The injector's calls against the operating system: a press may fail, and
    is remembered all the same; a release does not.  The two held lists are
    ordered by the first press since the last release, which is how
    `release_all` can go back through them. -/

namespace KvmHeldInput

open KvmEnvelope KvmKeymap KvmInject HeldOrder

/-- Keys and buttons that are down because of the injector. -/
structure Os where
  keys : Finset EnigoKey
  buttons : Finset EnigoButton
  deriving DecidableEq

def Os.up : Os where
  keys := ∅
  buttons := ∅

/-- The effect of a call; `took` says whether a press succeeds. -/
def Os.call (took : Bool) (os : Os) : EnigoCall → Os
  | .key k .press =>
      { os with keys := if took then insert k os.keys else os.keys }
  | .key k .release => { os with keys := os.keys.erase k }
  | .button b .press =>
      { os with buttons := if took then insert b os.buttons else os.buttons }
  | .button b .release => { os with buttons := os.buttons.erase b }
  | _ => os

/-- What is done with the injector.  An event issues at most one press, and
    `took` is its result. -/
inductive Op where
  | inject (ev : Event) (took : Bool)
  | releaseAll

structure World where
  injector : InputInjector
  os : Os
  deriving DecidableEq

def World.new : World where
  injector := InputInjector.new
  os := Os.up

def step (p : Platform) (w : World) : Op → World
  | .inject ev took =>
      let out := w.injector.inject p ev
      { injector := out.1, os := out.2.foldl (Os.call took) w.os }
  | .releaseAll =>
      let out := w.injector.releaseAll
      { injector := out.1, os := out.2.foldl (Os.call true) w.os }

def run (p : Platform) (ops : List Op) : World := ops.foldl (step p) World.new

/-- What an operation means for the keys. -/
def keyStroke (p : Platform) : Op → Stroke EnigoKey
  | .inject (.keyPress code _) _ => (Stroke.press code).map (codeToKey p)
  | .inject (.keyRelease code _) _ => (Stroke.release code).map (codeToKey p)
  | .inject .releaseAll _ => .clear
  | .inject _ _ => .other
  | .releaseAll => .clear

/-- What an operation means for the buttons. -/
def buttonStroke : Op → Stroke EnigoButton
  | .inject (.mouseButtonPress b) _ => .press (convertWireButton b)
  | .inject (.mouseButtonRelease b) _ => .release (convertWireButton b)
  | .inject .releaseAll _ => .clear
  | .inject _ _ => .other
  | .releaseAll => .clear

/-- The result of an operation's press. -/
def Op.took : Op → Bool
  | .inject _ took => took
  | .releaseAll => true

/-- The world after these strokes on the keys and buttons. -/
def World.stroke (w : World) (took : Bool) (key : Stroke EnigoKey)
    (button : Stroke EnigoButton) : World where
  injector := ⟨hold w.injector.heldKeys key, hold w.injector.heldButtons button⟩
  os := ⟨lower took w.os.keys key, lower took w.os.buttons button⟩

/-! ## Releases -/

section Release

variable {took : Bool} {os : Os}

theorem call_keys (ks : List EnigoKey) :
    (ks.map fun k => EnigoCall.key k .release).foldl (Os.call took) os
      = { os with keys := os.keys.filter fun k => k ∉ ks } := by
  induction ks generalizing os with
  | nil => simp
  | cons k ks ih =>
      rw [List.map_cons, List.foldl_cons, ih]
      congr 1
      ext x
      simp only [Os.call, Finset.mem_filter, Finset.mem_erase, List.mem_cons,
        not_or]
      tauto

theorem call_buttons (bs : List EnigoButton) :
    (bs.map fun b => EnigoCall.button b .release).foldl (Os.call took) os
      = { os with buttons := os.buttons.filter fun b => b ∉ bs } := by
  induction bs generalizing os with
  | nil => simp
  | cons b bs ih =>
      rw [List.map_cons, List.foldl_cons, ih]
      congr 1
      ext x
      simp only [Os.call, Finset.mem_filter, Finset.mem_erase, List.mem_cons,
        not_or]
      tauto

end Release

/-! ## The invariant -/

/-- The lists have everything that is down. -/
structure Covers (w : World) : Prop where
  keys : ∀ k ∈ w.os.keys, k ∈ w.injector.heldKeys
  buttons : ∀ b ∈ w.os.buttons, b ∈ w.injector.heldButtons

/-- Releasing the whole list leaves nothing down. -/
theorem filter_covered {α : Type} [DecidableEq α] {down : Finset α}
    {held : List α} (h : ∀ x ∈ down, x ∈ held) :
    (down.filter fun x => x ∉ held.reverse) = ∅ := by
  refine Finset.filter_eq_empty_iff.mpr fun x hx => not_not.mpr ?_
  exact List.mem_reverse.mpr (h x hx)

section Steps

variable {p : Platform} {w : World} {took : Bool}

theorem covers_new : Covers World.new where
  keys := fun _ hk => absurd hk (Finset.notMem_empty _)
  buttons := fun _ hb => absurd hb (Finset.notMem_empty _)

/-- `release_all` lets go of everything that is down. -/
theorem step_releaseAll (h : Covers w) : step p w .releaseAll = World.new := by
  simp only [step, InputInjector.releaseAll, List.foldl_append, call_keys,
    call_buttons, filter_covered h.keys, filter_covered h.buttons]
  rfl

/-- A `ReleaseAll` event is `release_all`. -/
theorem step_inject_releaseAll :
    step p w (.inject .releaseAll took) = step p w .releaseAll := by
  simp only [step, InputInjector.inject, InputInjector.releaseAll,
    List.foldl_append, call_keys, call_buttons]

/-- Scrolling holds nothing. -/
theorem step_wheel (dx dy : Int32) :
    step p w (.inject (.wheel dx dy) took) = w := by
  simp only [step, InputInjector.inject]
  split <;> split <;> rfl

/-- Any other event is a stroke on the keys and one on the buttons. -/
theorem step_inject {ev : Event} (h : ev ≠ .releaseAll) :
    step p w (.inject ev took)
      = w.stroke took (keyStroke p (.inject ev took))
        (buttonStroke (.inject ev took)) := by
  cases ev with
  | mouseDelta dx dy => rfl
  | mouseButtonPress b => rfl
  | mouseButtonRelease b => rfl
  | wheel dx dy => exact step_wheel dx dy
  | keyPress code mods =>
      show _ = w.stroke took ((Stroke.press code).map (codeToKey p)) .other
      simp only [step, InputInjector.inject]
      cases hk : codeToKey p code with
      | none =>
          rw [map_press_none hk]
          rfl
      | some k =>
          rw [map_press hk]
          rfl
  | keyRelease code mods =>
      show _ = w.stroke took ((Stroke.release code).map (codeToKey p)) .other
      simp only [step, InputInjector.inject]
      cases hk : codeToKey p code with
      | none =>
          rw [map_release_none hk]
          rfl
      | some k =>
          rw [map_release hk]
          rfl
  | releaseAll => exact absurd rfl h

/-- **ONE OPERATION** is what its strokes are, if the lists have everything
    that is down. -/
theorem step_stroke (h : Covers w) (op : Op) :
    step p w op = w.stroke op.took (keyStroke p op) (buttonStroke op) := by
  cases op with
  | releaseAll => exact step_releaseAll h
  | inject ev took =>
      by_cases hev : ev = .releaseAll
      · rw [hev, step_inject_releaseAll, step_releaseAll h]
        rfl
      · exact step_inject hev

/-- And then they still have. -/
theorem step_covers (h : Covers w) (op : Op) : Covers (step p w op) := by
  rw [step_stroke h]
  exact ⟨lower_mem_hold h.keys _, lower_mem_hold h.buttons _⟩

end Steps

/-! ## Whole histories -/

section Runs

variable (p : Platform) (ops : List Op)

theorem run_snoc (op : Op) : run p (ops ++ [op]) = step p (run p ops) op := by
  rw [run, List.foldl_append]
  rfl

theorem run_covers : Covers (run p ops) := by
  induction ops using List.reverseRecOn with
  | nil => exact covers_new
  | append_singleton ops op ih =>
      rw [run_snoc]
      exact step_covers ih op

theorem run_heldKeys :
    (run p ops).injector.heldKeys = (ops.map (keyStroke p)).foldl hold [] := by
  induction ops using List.reverseRecOn with
  | nil => rfl
  | append_singleton ops op ih =>
      rw [run_snoc, step_stroke (run_covers p ops), List.map_append,
        List.foldl_append, ← ih]
      rfl

theorem run_heldButtons :
    (run p ops).injector.heldButtons = (ops.map buttonStroke).foldl hold [] := by
  induction ops using List.reverseRecOn with
  | nil => rfl
  | append_singleton ops op ih =>
      rw [run_snoc, step_stroke (run_covers p ops), List.map_append,
        List.foldl_append, ← ih]
      rfl

end Runs

/-- The lists cover what is down and are in press order, and `release_all`
    goes back through each of them, leaves nothing behind, and has nothing to
    do when it is called again. -/
structure Tracks (p : Platform) (ops : List Op) (w : World) : Prop where
  covers : Covers w
  keys : InPressOrder (ops.map (keyStroke p)) w.injector.heldKeys
  buttons : InPressOrder (ops.map buttonStroke) w.injector.heldButtons
  releases : w.injector.releaseAll.2
    = w.injector.heldKeys.reverse.map (fun k => .key k .release)
      ++ w.injector.heldButtons.reverse.map (fun b => .button b .release)
  cleared : step p w .releaseAll = World.new
  again : (step p w .releaseAll).injector.releaseAll = (InputInjector.new, [])

/-- **HELD LISTS TRACK THE SYSTEM**: for every sequence of events and
    `release_all` calls, whatever presses fail. -/
theorem held_lists_track_os (p : Platform) (ops : List Op) :
    Tracks p ops (run p ops) := by
  have hcovers := run_covers p ops
  have hcleared : step p (run p ops) .releaseAll = World.new :=
    step_releaseAll hcovers
  refine ⟨hcovers, ?_, ?_, rfl, hcleared, ?_⟩
  · rw [run_heldKeys]
    exact inPressOrder_held _
  · rw [run_heldButtons]
    exact inPressOrder_held _
  · rw [hcleared]
    rfl

/-- Shift fails to go down before `a` and repeats; `b` is released although it
    was never pressed. -/
example : (run .linux [.inject (.keyPress 42 0) false,
      .inject (.keyPress 30 0) true, .inject (.keyPress 42 0) true,
      .inject (.keyRelease 48 0) true]).injector.releaseAll.2
    = [.key (.unicode 'a') .release, .key .lShift .release] := by
  decide

end KvmHeldInput
