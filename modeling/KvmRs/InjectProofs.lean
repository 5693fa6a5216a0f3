import KvmRs.KeymapProofs

/-! # The client's input injector

    `InputInjector` turns received events into enigo calls and remembers what
    it holds down, so that everything can be released at once.  Results of
    the enigo calls are ignored by the source, so the model returns the calls
    issued and keeps only the two held lists as state.

    One lemma per kind of event says what it does to the two lists; later
    files use these and never the body of `inject`. -/

namespace KvmInject

open KvmEnvelope KvmKeymap

/-- `enigo::Direction`. -/
inductive Direction where
  | press | release
  deriving DecidableEq

/-- The calls the injector makes into enigo. -/
inductive EnigoCall where
  | moveMouse (dx dy : Int32)
  | button (b : EnigoButton) (d : Direction)
  | scrollVertical (length : Int32)
  | scrollHorizontal (length : Int32)
  | key (k : EnigoKey) (d : Direction)
  deriving DecidableEq

/-- What the injector believes is held, in press order. -/
structure InputInjector where
  heldKeys : List EnigoKey
  heldButtons : List EnigoButton
  deriving DecidableEq

/-- A fresh injector holds nothing. -/
def InputInjector.new : InputInjector where
  heldKeys := []
  heldButtons := []

/-- `if !held.contains(&x) { held.push(x) }`. -/
def pushHeld {α : Type} [DecidableEq α] (held : List α) (x : α) : List α :=
  if x ∈ held then held else held ++ [x]

/-- `held.retain(|h| *h != x)`. -/
def dropHeld {α : Type} [DecidableEq α] (held : List α) (x : α) : List α :=
  held.filter (fun h => h ≠ x)

/-- Release everything held, most recently pressed first. -/
def InputInjector.releaseAll (inj : InputInjector) :
    InputInjector × List EnigoCall :=
  (InputInjector.new,
    inj.heldKeys.reverse.map (fun k => .key k .release)
      ++ inj.heldButtons.reverse.map (fun b => .button b .release))

/-- Inject one event. -/
def InputInjector.inject (p : Platform) (inj : InputInjector) :
    Event → InputInjector × List EnigoCall
  | .mouseDelta dx dy => (inj, [.moveMouse dx dy])
  | .mouseButtonPress button =>
      let b := convertWireButton button
      ({ inj with heldButtons := pushHeld inj.heldButtons b },
        [.button b .press])
  | .mouseButtonRelease button =>
      let b := convertWireButton button
      ({ inj with heldButtons := dropHeld inj.heldButtons b },
        [.button b .release])
  | .wheel deltaX deltaY =>
      -- the vertical axis is negated: rdev counts up, enigo counts down
      (inj, (if deltaY ≠ 0 then [.scrollVertical (-deltaY)] else [])
        ++ (if deltaX ≠ 0 then [.scrollHorizontal deltaX] else []))
  | .keyPress code _ =>
      match codeToKey p code with
      | some k =>
          ({ inj with heldKeys := pushHeld inj.heldKeys k }, [.key k .press])
      | none => (inj, [])
  | .keyRelease code _ =>
      match codeToKey p code with
      | some k =>
          ({ inj with heldKeys := dropHeld inj.heldKeys k }, [.key k .release])
      | none => (inj, [])
  | .releaseAll => inj.releaseAll

theorem mem_pushHeld {α : Type} [DecidableEq α] {held : List α} {x y : α} :
    y ∈ pushHeld held x ↔ y ∈ held ∨ y = x := by
  by_cases hx : x ∈ held
  · simp only [pushHeld, if_pos hx]
    constructor
    · exact Or.inl
    · rintro (h | rfl)
      · exact h
      · exact hx
  · simp only [pushHeld, if_neg hx, List.mem_append, List.mem_singleton]

theorem mem_dropHeld {α : Type} [DecidableEq α] {held : List α} {x y : α} :
    y ∈ dropHeld held x ↔ y ∈ held ∧ y ≠ x := by
  simp [dropHeld]

/-! ## What `Session::run` does with a received envelope -/

/-- The injector after the message loop handled one envelope: input goes to
    `inject`, and both `ReleaseAll` and a switch-off release everything. -/
def injectorAfter (p : Platform) (inj : InputInjector) :
    Envelope → InputInjector
  | .input .releaseAll => inj.releaseAll.1
  | .input ev => (inj.inject p ev).1
  | .toggleForward on => if on then inj else inj.releaseAll.1
  | _ => inj

/-- The injector after a sequence of envelopes. -/
def injectorAfterAll (p : Platform) (inj : InputInjector)
    (envs : List Envelope) : InputInjector :=
  envs.foldl (injectorAfter p) inj

theorem injectorAfterAll_append (p : Platform) (inj : InputInjector)
    (es fs : List Envelope) :
    injectorAfterAll p inj (es ++ fs)
      = injectorAfterAll p (injectorAfterAll p inj es) fs :=
  List.foldl_append

/-- A forwarded key press can only add the key's image. -/
theorem mem_heldKeys_keyPress {p : Platform} {inj : InputInjector} {k : Key}
    {mods : UInt8} {c : EnigoKey} :
    c ∈ (injectorAfter p inj (.input (.keyPress (keyToCode k) mods))).heldKeys
      ↔ c ∈ inj.heldKeys ∨ keyImage p k = some c := by
  cases hk : codeToKey p (keyToCode k) with
  | none =>
      simp only [injectorAfter, InputInjector.inject, hk, keyImage,
        reduceCtorEq, or_false]
  | some c' =>
      simp only [injectorAfter, InputInjector.inject, hk, keyImage,
        mem_pushHeld, Option.some.injEq]
      exact or_congr_right eq_comm

/-- A forwarded key release removes exactly the key's image. -/
theorem mem_heldKeys_keyRelease {p : Platform} {inj : InputInjector} {k : Key}
    {mods : UInt8} {c : EnigoKey} :
    c ∈ (injectorAfter p inj (.input (.keyRelease (keyToCode k) mods))).heldKeys
      ↔ c ∈ inj.heldKeys ∧ keyImage p k ≠ some c := by
  cases hk : codeToKey p (keyToCode k) with
  | none =>
      simp only [injectorAfter, InputInjector.inject, hk, keyImage,
        reduceCtorEq, ne_eq, not_false_iff, and_true]
  | some c' =>
      simp only [injectorAfter, InputInjector.inject, hk, keyImage,
        mem_dropHeld, ne_eq, Option.some.injEq]
      exact and_congr_right (fun _ => not_congr eq_comm)

theorem mem_heldButtons_press {p : Platform} {inj : InputInjector}
    {b : Button} {c : EnigoButton} :
    c ∈ (injectorAfter p inj
        (.input (.mouseButtonPress (convertMouseButton b)))).heldButtons
      ↔ c ∈ inj.heldButtons ∨ c = buttonImage b := by
  simp only [injectorAfter, InputInjector.inject, mem_pushHeld, buttonImage]

theorem mem_heldButtons_release {p : Platform} {inj : InputInjector}
    {b : Button} {c : EnigoButton} :
    c ∈ (injectorAfter p inj
        (.input (.mouseButtonRelease (convertMouseButton b)))).heldButtons
      ↔ c ∈ inj.heldButtons ∧ c ≠ buttonImage b := by
  simp only [injectorAfter, InputInjector.inject, mem_dropHeld, buttonImage]

/-- Key events leave the buttons alone. -/
theorem heldButtons_keyPress (p : Platform) (inj : InputInjector)
    (code : UInt32) (mods : UInt8) :
    (injectorAfter p inj (.input (.keyPress code mods))).heldButtons
      = inj.heldButtons := by
  simp only [injectorAfter, InputInjector.inject]
  split <;> rfl

theorem heldButtons_keyRelease (p : Platform) (inj : InputInjector)
    (code : UInt32) (mods : UInt8) :
    (injectorAfter p inj (.input (.keyRelease code mods))).heldButtons
      = inj.heldButtons := by
  simp only [injectorAfter, InputInjector.inject]
  split <;> rfl

end KvmInject
