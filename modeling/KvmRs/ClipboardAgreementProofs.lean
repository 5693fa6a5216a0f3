import KvmRs.ClipboardProofs

/-! # The two clipboards

    One server and one paired client with both watchers running: copies on
    either side, the moves of the two loops and in-order delivery both ways,
    with all calls succeeding.  Each watcher remembers the text it last sent
    or applied; the text that is last on its way to one side is what the other
    side remembers, as long as the two directions are not used at once. -/

namespace KvmClipboardAgreement

open Transition KvmClipboard

def other : Side → Side
  | .server => .client
  | .client => .server

theorem other_ne (x : Side) : other x ≠ x := by
  cases x <;> decide

theorem other_other (x : Side) : other (other x) = x := by
  cases x <;> rfl

theorem eq_or_other (x y : Side) : y = x ∨ y = other x := by
  cases x <;> cases y <;> decide

/-! ## Two memories and the texts between them -/

section Memories

variable {V : Type}

/-- What the sides remember (`seen`), what they hold, what is on the way to
    each, oldest first, and whose copy is not yet looked at (`due`). -/
structure Agreeing (seen : Side → Option V) (held : Side → V)
    (way : Side → List V) (due : Side → Bool) : Prop where
  apart : ∀ x, way x = [] ∨ way (other x) = []
  last : ∀ x v, (way x).getLast? = some v → seen (other x) = some v
  settled : ∀ x, due x = false → seen x = some (held x)
  agree : (∀ x, way x = []) →
    seen .client = none ∨ seen .server = seen .client

variable {seen : Side → Option V} {held : Side → V} {way : Side → List V}
  {due : Side → Bool}

/-- With nothing on the way and nothing left to look at, both hold the same. -/
theorem Agreeing.held_eq (h : Agreeing seen held way due)
    (hway : ∀ x, way x = []) (hdue : ∀ x, due x = false) :
    held .server = held .client := by
  have hserver := h.settled .server (hdue .server)
  have hclient := h.settled .client (hdue .client)
  rcases h.agree hway with hnone | heq
  · rw [hclient] at hnone
    cases hnone
  · rw [hserver, hclient] at heq
    exact Option.some.inj heq

theorem Agreeing.copy (h : Agreeing seen held way due) (x : Side) (v : V) :
    Agreeing seen (Function.update held x v) way
      (Function.update due x true) where
  apart := h.apart
  last := h.last
  settled := by
    intro y hy
    by_cases hyx : y = x
    · rw [hyx, Function.update_self] at hy
      cases hy
    · rw [Function.update_of_ne hyx] at hy ⊢
      exact h.settled y hy
  agree := h.agree

/-- A look at a copy that is remembered already. -/
theorem Agreeing.look (h : Agreeing seen held way due) {x : Side}
    (hx : seen x = some (held x)) :
    Agreeing seen held way (Function.update due x false) where
  apart := h.apart
  last := h.last
  settled := by
    intro y hy
    by_cases hyx : y = x
    · rw [hyx]
      exact hx
    · rw [Function.update_of_ne hyx] at hy
      exact h.settled y hy
  agree := h.agree

/-- A side sends what it holds while nothing is on its way to it. -/
theorem Agreeing.send (h : Agreeing seen held way due) {x : Side}
    (hfree : way x = []) :
    Agreeing (Function.update seen x (some (held x))) held
      (Function.update way (other x) (way (other x) ++ [held x]))
      (Function.update due x false) where
  apart := by
    have hx : Function.update way (other x) (way (other x) ++ [held x]) x
        = [] := by
      rw [Function.update_of_ne (other_ne x).symm]
      exact hfree
    intro y
    rcases eq_or_other x y with rfl | rfl
    · exact Or.inl hx
    · right
      rw [other_other]
      exact hx
  last := by
    intro y v hv
    rcases eq_or_other x y with rfl | rfl
    · rw [Function.update_of_ne (other_ne y).symm, hfree] at hv
      cases hv
    · rw [Function.update_self, List.getLast?_concat] at hv
      rw [other_other, Function.update_self]
      exact hv
  settled := by
    intro y hy
    by_cases hyx : y = x
    · rw [hyx, Function.update_self]
    · rw [Function.update_of_ne hyx] at hy ⊢
      exact h.settled y hy
  agree := by
    intro hway
    have hnil := hway (other x)
    rw [Function.update_self] at hnil
    exact absurd hnil (List.append_ne_nil_of_right_ne_nil _ (List.cons_ne_nil _ _))

/-- Only one direction is in use. -/
theorem Agreeing.free_of_way (h : Agreeing seen held way due) {x : Side}
    {v : V} {rest : List V} (hx : way x = v :: rest) : way (other x) = [] := by
  rcases h.apart x with hnil | hnil
  · rw [hx] at hnil
    cases hnil
  · exact hnil

/-- A side takes the oldest text on its way to it, and remembers it. -/
theorem Agreeing.take (h : Agreeing seen held way due) {x : Side} {v : V}
    {rest : List V} (hx : way x = v :: rest) {held' : Side → V}
    (hothers : ∀ y, y ≠ x → held' y = held y)
    (hset : held' x = v ∨ held' x = held x ∧ seen x = some v) :
    Agreeing (Function.update seen x (some v)) held'
      (Function.update way x rest) due where
  apart := by
    have hfree := h.free_of_way hx
    intro y
    rcases eq_or_other x y with rfl | rfl
    · exact Or.inr ((Function.update_of_ne (other_ne y) ..).trans hfree)
    · exact Or.inl ((Function.update_of_ne (other_ne x) ..).trans hfree)
  last := by
    have hfree := h.free_of_way hx
    intro y u hu
    rcases eq_or_other x y with rfl | rfl
    · rw [Function.update_self] at hu
      rw [Function.update_of_ne (other_ne y)]
      refine h.last y u ?_
      rw [hx, List.getLast?_cons, hu]
      rfl
    · rw [Function.update_of_ne (other_ne x), hfree] at hu
      cases hu
  settled := by
    intro y hy
    have hold := h.settled y hy
    by_cases hyx : y = x
    · rw [hyx, Function.update_self]
      rcases hset with hnew | ⟨hsame, hseen⟩
      · rw [hnew]
      · rw [hyx, hseen] at hold
        rw [hsame]
        exact hold
    · rw [Function.update_of_ne hyx, hothers y hyx]
      exact hold
  agree := by
    -- the one that was taken was the last, and the other side remembers it
    intro hway
    have hrest := hway x
    rw [Function.update_self] at hrest
    have hother : seen (other x) = some v := by
      refine h.last x v ?_
      rw [hx, hrest]
      rfl
    right
    cases x with
    | server =>
        rw [Function.update_self, Function.update_of_ne (by decide)]
        exact hother.symm
    | client =>
        rw [Function.update_self, Function.update_of_ne (by decide)]
        exact hother

/-- The server's first look: nothing was sent to the client yet. -/
theorem Agreeing.start (h : Agreeing seen held way due)
    (hnone : seen .server = none) :
    Agreeing (Function.update seen .server (some (held .server))) held way
      due where
  apart := h.apart
  last := by
    intro y u hu
    have hold := h.last y u hu
    cases y with
    | server => exact (Function.update_of_ne (by decide) ..).trans hold
    | client =>
        rw [show other Side.client = .server from rfl, hnone] at hold
        cases hold
  settled := by
    intro y hy
    have hold := h.settled y hy
    cases y with
    | server => exact Function.update_self ..
    | client => exact (Function.update_of_ne (by decide) ..).trans hold
  agree := by
    intro hway
    left
    rw [Function.update_of_ne (by decide)]
    rcases h.agree hway with hclient | heq
    · exact hclient
    · rw [← heq, hnone]

end Memories

/-! ## The system -/

/-- The two watchers, the texts on the wire to each, and which watchers have
    not read the clipboard since the last copy there. -/
structure World where
  watcher : Side → Watcher
  wire : Side → List String
  due : Side → Bool

def start (initial : Side → String) : World where
  watcher := fun x => newWatcher x (initial x)
  wire := fun _ => []
  due := fun _ => true

inductive Action where
  /-- A user copies a text. -/
  | copy (x : Side) (text : String)
  /-- The next move of a watcher's loop. -/
  | run (x : Side) (m : Move)
  /-- The oldest text on the wire reaches the queue. -/
  | deliver (x : Side)

/-- The moves of a loop in which every call succeeds. -/
def Move.succeeds : Move → Bool
  | .start readOk => readOk
  | .recv setOk => setOk
  | .drained => true
  | .poll readOk sendOk => readOk && sendOk
  | _ => false

/-- The watcher has read the clipboard. -/
def Move.polls : Move → Bool
  | .poll _ _ => true
  | _ => false

def World.set (w : World) (x : Side) (next : Watcher) : World :=
  { w with watcher := Function.update w.watcher x next }

def step (w : World) : Action → Option World
  | .copy x text =>
      if Shareable text then
        (act x (w.watcher x) (.place text)).map fun next =>
          { w.set x next.1 with due := Function.update w.due x true }
      else none
  | .run x m =>
      if Move.succeeds m then
        (act x (w.watcher x) m).map fun next =>
          { w.set x next.1 with
            wire := Function.update w.wire (other x)
              (w.wire (other x) ++ (next.2.map Content.text).toList)
            due := if Move.polls m then Function.update w.due x false
              else w.due }
      else none
  | .deliver x =>
      match w.wire x with
      | [] => none
      | text :: rest =>
          -- the server's handler drops what is too long
          if x = .server ∧ MAX_CLIPBOARD_BYTES < text.utf8ByteSize then
            some { w with wire := Function.update w.wire x rest }
          else
            (act x (w.watcher x) (.arrive text)).map fun next =>
              { w.set x next.1 with wire := Function.update w.wire x rest }

/-- What is on its way to a side, oldest first. -/
def World.onWay (w : World) (x : Side) : List String :=
  (w.watcher x).queue ++ w.wire x

/-- A watcher sends only while nothing of the other side is on its way to
    it. -/
def InTurn (w : World) : Action → Prop
  | .run x (.poll _ _) => (w.watcher x).Changed → w.onWay x = []
  | _ => True

instance inTurnDecidable (w : World) : (a : Action) → Decidable (InTurn w a)
  | .run x (.poll _ _) =>
      inferInstanceAs (Decidable ((w.watcher x).Changed → w.onWay x = []))
  | .run _ (.place _) => isTrue trivial
  | .run _ (.arrive _) => isTrue trivial
  | .run _ (.start _) => isTrue trivial
  | .run _ (.recv _) => isTrue trivial
  | .run _ .drained => isTrue trivial
  | .run _ .disconnected => isTrue trivial
  | .copy _ _ => isTrue trivial
  | .deliver _ => isTrue trivial

/-- Both watchers have run since the last copy, and no text is on the wire or
    in a queue. -/
def Quiet (w : World) : Prop :=
  ∀ x, w.due x = false ∧ (w.watcher x).queue = [] ∧ w.wire x = []

/-- When all is quiet, the clipboards hold the same text. -/
def Converged (w : World) : Prop :=
  Quiet w → (w.watcher .server).clipboard.text
    = (w.watcher .client).clipboard.text

def World.seen (w : World) (x : Side) : Option String :=
  (w.watcher x).lastSeen

def World.held (w : World) (x : Side) : String :=
  (w.watcher x).clipboard.text

/-- The two memories of a world. -/
structure InSync (w : World) : Prop where
  agreeing : Agreeing w.seen w.held w.onWay w.due
  clipboards : ∀ x, Shareable (w.watcher x).clipboard.text
  texts : ∀ x, ∀ text ∈ w.onWay x, Shareable text
  starting : ∀ x, (w.watcher x).phase = .starting →
    x = .server ∧ (w.watcher x).lastSeen = none

theorem inSync_start (initial : Side → String)
    (h : ∀ x, Shareable (initial x)) : InSync (start initial) where
  agreeing := {
    apart := fun _ => Or.inl rfl
    last := by
      intro x v hv
      cases hv
    settled := by
      intro x hx
      cases hx
    agree := fun _ => Or.inl rfl }
  clipboards := h
  texts := by
    intro x text ht
    cases ht
  starting := by
    intro x hx
    cases x with
    | server => exact ⟨rfl, rfl⟩
    | client => cases hx

/-- One watcher's state is replaced. -/
theorem InSync.replace {w w' : World} (h : InSync w) {x : Side}
    {next : Watcher} (hw : w'.watcher = Function.update w.watcher x next)
    (hagree : Agreeing (Function.update w.seen x next.lastSeen)
      (Function.update w.held x next.clipboard.text) w'.onWay w'.due)
    (hclip : Shareable next.clipboard.text)
    (htexts : ∀ y, ∀ text ∈ w'.onWay y, Shareable text)
    (hstart : next.phase = .starting → x = .server ∧ next.lastSeen = none) :
    InSync w' where
  agreeing := by
    have hseen : w'.seen = Function.update w.seen x next.lastSeen := by
      show Watcher.lastSeen ∘ w'.watcher = _
      rw [hw, Function.comp_update]
      rfl
    have hheld : w'.held = Function.update w.held x next.clipboard.text := by
      show (fun v : Watcher => v.clipboard.text) ∘ w'.watcher = _
      rw [hw, Function.comp_update]
      rfl
    rw [hseen, hheld]
    exact hagree
  clipboards := by
    intro y
    rw [hw]
    by_cases hy : y = x
    · rw [hy, Function.update_self]
      exact hclip
    · rw [Function.update_of_ne hy]
      exact h.clipboards y
  texts := htexts
  starting := by
    intro y
    rw [hw]
    by_cases hy : y = x
    · rw [hy, Function.update_self]
      exact hstart
    · rw [Function.update_of_ne hy]
      exact h.starting y

/-- The texts on the way, when one queue and the wires are replaced. -/
theorem onWay_eq {w w' : World} {x : Side} {next : Watcher}
    (hw : w'.watcher = Function.update w.watcher x next)
    (hwire : w'.wire x = w.wire x) (hqueue : next.queue = (w.watcher x).queue) :
    w'.onWay = Function.update w.onWay (other x)
      ((w.watcher (other x)).queue ++ w'.wire (other x)) := by
  funext y
  show (w'.watcher y).queue ++ w'.wire y = _
  rw [hw]
  rcases eq_or_other x y with rfl | rfl
  · rw [Function.update_self, Function.update_of_ne (other_ne y).symm, hqueue,
      hwire]
    rfl
  · rw [Function.update_of_ne (other_ne x), Function.update_self]

/-- A user copies a text. -/
theorem inSync_copy {w : World} {x : Side} {text : String} {next : Watcher}
    (h : InSync w) (hshare : Shareable text)
    (hseen : next.lastSeen = (w.watcher x).lastSeen)
    (hclip : next.clipboard.text = text)
    (hqueue : next.queue = (w.watcher x).queue)
    (hphase : next.phase = (w.watcher x).phase) :
    InSync { w.set x next with due := Function.update w.due x true } := by
  have hway : ({ w.set x next with
      due := Function.update w.due x true } : World).onWay = w.onWay :=
    (@onWay_eq w { w.set x next with due := Function.update w.due x true } x
      next rfl rfl hqueue).trans (Function.update_eq_self _ _)
  refine h.replace rfl ?_ (hclip ▸ hshare) (hway ▸ h.texts) ?_
  · rw [hway, hseen, hclip,
      show Function.update w.seen x (w.watcher x).lastSeen = w.seen from
        Function.update_eq_self x w.seen]
    exact h.agreeing.copy x text
  · rw [hphase, hseen]
    exact h.starting x

/-- The oldest text on the wire goes into the queue behind it. -/
theorem inSync_deliver {w : World} {x : Side} {text : String}
    {rest : List String} {next : Watcher} (h : InSync w)
    (hwire : w.wire x = text :: rest)
    (hseen : next.lastSeen = (w.watcher x).lastSeen)
    (hclip : next.clipboard = (w.watcher x).clipboard)
    (hqueue : next.queue = (w.watcher x).queue ++ [text])
    (hphase : next.phase = (w.watcher x).phase) :
    InSync { w.set x next with wire := Function.update w.wire x rest } := by
  have hway : ({ w.set x next with
      wire := Function.update w.wire x rest } : World).onWay = w.onWay := by
    funext y
    show (Function.update w.watcher x next y).queue
      ++ Function.update w.wire x rest y = (w.watcher y).queue ++ w.wire y
    by_cases hy : y = x
    · rw [hy, Function.update_self, Function.update_self, hqueue, hwire,
        List.append_assoc]
      rfl
    · rw [Function.update_of_ne hy, Function.update_of_ne hy]
  refine h.replace rfl ?_ (hclip ▸ h.clipboards x) (hway ▸ h.texts) ?_
  · rw [hway, hseen, hclip,
      show Function.update w.seen x (w.watcher x).lastSeen = w.seen from
        Function.update_eq_self x w.seen,
      show Function.update w.held x (w.watcher x).clipboard.text = w.held from
        Function.update_eq_self x w.held]
    exact h.agreeing
  · rw [hphase, hseen]
    exact h.starting x

/-- What a succeeding move of a loop does to the watcher and sends. -/
theorem act_succeeds {x : Side} {v : Watcher} {m : Move}
    {next : Watcher × Option Content} (hm : Move.succeeds m = true)
    (hs : act x v m = some next) :
    (v.phase = .starting ∧ Move.polls m = false ∧
      next = ({ v with lastSeen := some v.clipboard.text, phase := .draining },
        none)) ∨
    (∃ text rest, v.queue = text :: rest ∧ Move.polls m = false ∧
      v.phase = .draining ∧
      next = (Watcher.onRemote { v with queue := rest } text true x, none)) ∨
    (Move.polls m = false ∧ next = ({ v with phase := .polling }, none)) ∨
    (Move.polls m = true ∧ v.Changed ∧
      next = ({ v with
        lastSeen := some v.clipboard.text
        phase := .draining }, some v.clipboard)) ∨
    (Move.polls m = true ∧ ¬ v.Changed ∧
      next = ({ v with phase := .draining }, none)) := by
  cases m with
  | start readOk =>
      obtain rfl : readOk = true := hm
      simp only [act, if_true] at hs
      split at hs
      · rename_i hphase
        exact Or.inl ⟨hphase, rfl, (Option.some.inj hs).symm⟩
      · cases hs
  | recv setOk =>
      obtain rfl : setOk = true := hm
      simp only [act] at hs
      split at hs
      · rename_i hphase hqueue
        exact Or.inr (Or.inl ⟨_, _, hqueue, rfl, hphase,
          (Option.some.inj hs).symm⟩)
      · cases hs
  | drained =>
      simp only [act] at hs
      split at hs
      · exact Or.inr (Or.inr (Or.inl ⟨rfl, (Option.some.inj hs).symm⟩))
      · cases hs
  | poll readOk sendOk =>
      obtain ⟨rfl, rfl⟩ := Bool.and_eq_true_iff.mp hm
      simp only [act, true_and, Bool.true_eq_false, and_false, if_false] at hs
      split at hs
      · split at hs
        · rename_i hchanged
          exact Or.inr (Or.inr (Or.inr (Or.inl ⟨rfl, hchanged,
            (Option.some.inj hs).symm⟩)))
        · rename_i hsame
          exact Or.inr (Or.inr (Or.inr (Or.inr ⟨rfl, hsame,
            (Option.some.inj hs).symm⟩)))
      · cases hs
  | _ => cases hm

/-- A text that is set is on the clipboard and remembered; the server leaves
    the clipboard alone if it remembers the text already. -/
theorem onRemote_true {v : Watcher} {text : String} (x : Side)
    (hshare : Shareable text) :
    (v.onRemote text true x).lastSeen = some text ∧
    (v.onRemote text true x).queue = v.queue ∧
    (v.onRemote text true x).phase = v.phase ∧
    ((v.onRemote text true x).clipboard.text = text ∨
      (v.onRemote text true x).clipboard.text = v.clipboard.text ∧
        v.lastSeen = some text) := by
  cases x with
  | client => exact ⟨rfl, rfl, rfl, Or.inl rfl⟩
  | server =>
      simp only [Watcher.onRemote]
      split
      · exact ⟨rfl, rfl, rfl, Or.inl rfl⟩
      · rename_i hno
        have hseen : v.lastSeen = some text := by
          by_contra hne
          exact hno ⟨hne, hshare.2⟩
        exact ⟨hseen, rfl, rfl, Or.inr ⟨rfl, hseen⟩⟩

/-- A look, or a move that touches nothing the sides remember. -/
theorem inSync_quiet {w : World} {x : Side} {next : Watcher}
    {due : Side → Bool} (h : InSync w)
    (hseen : next.lastSeen = (w.watcher x).lastSeen)
    (hclip : next.clipboard = (w.watcher x).clipboard)
    (hqueue : next.queue = (w.watcher x).queue)
    (hphase : next.phase ≠ .starting)
    (hdue : Agreeing w.seen w.held w.onWay due) :
    InSync { w.set x next with
      wire := Function.update w.wire (other x) (w.wire (other x) ++ [])
      due := due } := by
  have hway : ({ w.set x next with
      wire := Function.update w.wire (other x) (w.wire (other x) ++ [])
      due := due } : World).onWay = w.onWay := by
    rw [List.append_nil, Function.update_eq_self]
    exact (@onWay_eq w { w.set x next with due := due } x next rfl rfl
      hqueue).trans (Function.update_eq_self _ _)
  refine h.replace rfl ?_ (hclip ▸ h.clipboards x) (hway ▸ h.texts)
    fun hs => absurd hs hphase
  rw [hway, hseen, hclip,
    show Function.update w.seen x (w.watcher x).lastSeen = w.seen from
      Function.update_eq_self x w.seen,
    show Function.update w.held x (w.watcher x).clipboard.text = w.held from
      Function.update_eq_self x w.held]
  exact hdue

/-- The oldest queued text is taken. -/
theorem inSync_take {w : World} {x : Side} {text : String}
    {rest : List String} (h : InSync w)
    (hqueue : (w.watcher x).queue = text :: rest)
    (hphase : (w.watcher x).phase = .draining) :
    InSync { w.set x (Watcher.onRemote { w.watcher x with queue := rest } text
        true x) with
      wire := Function.update w.wire (other x) (w.wire (other x) ++ []) } := by
  have hfirst : w.onWay x = text :: (rest ++ w.wire x) := by
    rw [World.onWay, hqueue, List.cons_append]
  have hshare : Shareable text := by
    refine h.texts x text ?_
    rw [hfirst]
    exact List.mem_cons_self ..
  obtain ⟨hseen, hrest, hkept, hset⟩ := onRemote_true
    (v := { w.watcher x with queue := rest }) x hshare
  have hway : ({ w.set x (Watcher.onRemote { w.watcher x with queue := rest }
        text true x) with
      wire := Function.update w.wire (other x) (w.wire (other x) ++ []) } :
        World).onWay = Function.update w.onWay x (rest ++ w.wire x) := by
    rw [List.append_nil, Function.update_eq_self]
    funext y
    show (Function.update w.watcher x _ y).queue ++ w.wire y = _
    by_cases hy : y = x
    · rw [hy, Function.update_self, Function.update_self, hrest]
    · rw [Function.update_of_ne hy, Function.update_of_ne hy]
      rfl
  have hclip : Shareable (Watcher.onRemote { w.watcher x with queue := rest }
      text true x).clipboard.text := by
    rcases hset with hnew | ⟨hsame, -⟩
    · rw [hnew]
      exact hshare
    · rw [hsame]
      exact h.clipboards x
  refine h.replace rfl ?_ hclip ?_ ?_
  · rw [hway, hseen]
    refine h.agreeing.take hfirst ?_ ?_
    · exact fun y hy => Function.update_of_ne hy ..
    · rw [Function.update_self]
      exact hset
  · rw [hway]
    intro y t ht
    by_cases hy : y = x
    · rw [hy, Function.update_self] at ht
      refine h.texts x t ?_
      rw [hfirst]
      exact List.mem_cons_of_mem _ ht
    · rw [Function.update_of_ne hy] at ht
      exact h.texts y t ht
  · rw [hkept, hphase]
    exact Phase.noConfusion

/-- The clipboard's text is sent while nothing is on the way. -/
theorem inSync_send {w : World} {x : Side} {next : Watcher} (h : InSync w)
    (hfree : w.onWay x = [])
    (hseen : next.lastSeen = some (w.watcher x).clipboard.text)
    (hclip : next.clipboard = (w.watcher x).clipboard)
    (hqueue : next.queue = (w.watcher x).queue)
    (hphase : next.phase ≠ .starting) :
    InSync { w.set x next with
      wire := Function.update w.wire (other x)
        (w.wire (other x) ++ [(w.watcher x).clipboard.text])
      due := Function.update w.due x false } := by
  have hway : ({ w.set x next with
      wire := Function.update w.wire (other x)
        (w.wire (other x) ++ [(w.watcher x).clipboard.text])
      due := Function.update w.due x false } : World).onWay
        = Function.update w.onWay (other x)
          (w.onWay (other x) ++ [(w.watcher x).clipboard.text]) := by
    refine (@onWay_eq w _ x next rfl ?_ hqueue).trans ?_
    · exact Function.update_of_ne (other_ne x).symm ..
    · show Function.update w.onWay (other x) (_ ++ Function.update w.wire
        (other x) (w.wire (other x) ++ [(w.watcher x).clipboard.text])
        (other x)) = _
      rw [Function.update_self, ← List.append_assoc]
      rfl
  refine h.replace rfl ?_ (hclip ▸ h.clipboards x) ?_
    fun hs => absurd hs hphase
  · rw [hway, hseen, hclip,
      show Function.update w.held x (w.watcher x).clipboard.text = w.held from
        Function.update_eq_self x w.held]
    exact h.agreeing.send hfree
  · rw [hway]
    intro y t ht
    by_cases hy : y = other x
    · rw [hy, Function.update_self] at ht
      rcases List.mem_append.mp ht with ht | ht
      · exact h.texts (other x) t ht
      · rw [List.mem_singleton.mp ht]
        exact h.clipboards x
    · rw [Function.update_of_ne hy] at ht
      exact h.texts y t ht

/-- The server's thread reads the clipboard for the first time. -/
theorem inSync_started {w : World} {x : Side} (h : InSync w)
    (hphase : (w.watcher x).phase = .starting) :
    InSync { w.set x { w.watcher x with
          lastSeen := some (w.watcher x).clipboard.text, phase := .draining } with
      wire := Function.update w.wire (other x) (w.wire (other x) ++ []) } := by
  obtain ⟨rfl, hnone⟩ := h.starting x hphase
  have hway : ({ w.set .server { w.watcher .server with
        lastSeen := some (w.watcher .server).clipboard.text
        phase := .draining } with
      wire := Function.update w.wire (other .server)
        (w.wire (other .server) ++ []) } : World).onWay = w.onWay := by
    rw [List.append_nil, Function.update_eq_self]
    exact (@onWay_eq w (w.set .server { w.watcher .server with
      lastSeen := some (w.watcher .server).clipboard.text
      phase := .draining }) .server _ rfl rfl rfl).trans
        (Function.update_eq_self _ _)
  refine h.replace rfl ?_ (h.clipboards .server) (hway ▸ h.texts)
    Phase.noConfusion
  rw [hway, show Function.update w.held .server
    (w.watcher .server).clipboard.text = w.held from
      Function.update_eq_self Side.server w.held]
  exact h.agreeing.start hnone

theorem inSync_run {w w' : World} {x : Side} {m : Move} (h : InSync w)
    (hok : InTurn w (.run x m)) (hs : step w (.run x m) = some w') :
    InSync w' := by
  simp only [step] at hs
  split at hs
  · rename_i hm
    obtain ⟨next, hact, rfl⟩ := Option.map_eq_some_iff.mp hs
    rcases act_succeeds hm hact with ⟨hphase, hpoll, rfl⟩ |
      ⟨text, rest, hqueue, hpoll, hphase, rfl⟩ | ⟨hpoll, rfl⟩ |
      ⟨hpoll, hchanged, rfl⟩ | ⟨hpoll, hsame, rfl⟩
    · rw [hpoll]
      exact inSync_started h hphase
    · rw [hpoll]
      exact inSync_take h hqueue hphase
    · rw [hpoll]
      exact inSync_quiet h rfl rfl rfl Phase.noConfusion h.agreeing
    · rw [hpoll]
      have hfree : w.onWay x = [] := by
        cases m with
        | poll readOk sendOk => exact hok hchanged
        | _ => cases hpoll
      exact inSync_send h hfree rfl rfl rfl Phase.noConfusion
    · rw [hpoll]
      have hseen : (w.watcher x).lastSeen
          = some (w.watcher x).clipboard.text := by
        by_contra hne
        exact hsame ⟨hne, h.clipboards x⟩
      exact inSync_quiet h rfl rfl rfl Phase.noConfusion
        (h.agreeing.look hseen)
  · cases hs

/-- **ONE STEP** keeps the two memories in sync. -/
theorem inSync_step (w : World) (a : Action) (w' : World) (h : InSync w)
    (hok : InTurn w a) (hs : step w a = some w') : InSync w' := by
  cases a with
  | copy x text =>
      simp only [step] at hs
      split at hs
      · rename_i hshare
        obtain ⟨next, hact, rfl⟩ := Option.map_eq_some_iff.mp hs
        obtain rfl := Option.some.inj hact
        exact inSync_copy h hshare rfl rfl rfl rfl
      · cases hs
  | run x m => exact inSync_run h hok hs
  | deliver x =>
      simp only [step] at hs
      split at hs
      · cases hs
      · rename_i text rest hwire
        -- no text on the way is too long
        have hshare : Shareable text := by
          refine h.texts x text ?_
          rw [World.onWay, hwire]
          exact List.mem_append_right _ (List.mem_cons_self ..)
        rw [if_neg fun hlong => absurd hshare.2 (Nat.not_le.mpr hlong.2)] at hs
        obtain ⟨next, hact, rfl⟩ := Option.map_eq_some_iff.mp hs
        obtain rfl := Option.some.inj hact
        exact inSync_deliver h hwire rfl rfl rfl rfl

theorem InSync.converged {w : World} (h : InSync w) : Converged w := by
  intro hquiet
  refine h.agreeing.held_eq ?_ fun x => (hquiet x).1
  intro x
  rw [World.onWay, (hquiet x).2.1, (hquiet x).2.2]
  rfl

/-- **THE CLIPBOARDS CONVERGE**: from any two texts, for any copies on either
    side and any interleaving of the loops and deliveries, the clipboards are
    equal whenever all is quiet, in every run in which no watcher sends while
    a text of the other side is on its way to it. -/
theorem clipboards_converge (initial : Side → String)
    (hinitial : ∀ x, Shareable (initial x)) (run : List Action)
    (hrun : Guarded step InTurn (start initial) run) :
    Always step Converged (start initial) run :=
  always_of_guarded (fun _ h => h.converged) inSync_step run _
    (inSync_start initial hinitial) hrun

/-- The two texts that are there at first. -/
def texts : Side → String
  | .server => "desk"
  | .client => "laptop"

/-- The moves of one iteration that finds the queue empty. -/
def lookOnce (x : Side) : List Action :=
  [.run x .drained, .run x (.poll true true)]

/-- The moves by which a text on the wire is applied. -/
def takeOver (x : Side) : List Action :=
  [.deliver x, .run x (.recv true)] ++ lookOnce x

/-- The client's text comes over, and then a copy of the server's user. -/
def inTurn : List Action :=
  [.run .server (.start true)] ++ lookOnce .client ++ takeOver .server
    ++ [.copy .server "note"] ++ lookOnce .server ++ takeOver .client

theorem texts_shareable (x : Side) : Shareable (texts x) := by
  cases x <;> decide

/-- The copy has come over. -/
theorem clipboards_converge_in_turn :
    Always step Converged (start texts) inTurn ∧
      ∃ w, exec step (start texts) inTurn = some w ∧ Quiet w ∧
        (w.watcher .client).clipboard.text = "note" := by
  constructor
  · exact clipboards_converge texts texts_shareable inTurn (by decide)
  · refine ⟨_, rfl, ?_, rfl⟩
    intro x
    cases x <;> decide

/-- **CROSSED COPIES CHANGE PLACES**: both users copy, both watchers send, and
    both apply what the other has sent. -/
theorem crossed_copies_swap :
    ∃ w, exec step (start texts)
        ([.run .server (.start true), .copy .server "left",
            .copy .client "right"] ++ lookOnce .server ++ lookOnce .client
          ++ takeOver .server ++ takeOver .client) = some w ∧
      (w.watcher .server).clipboard.text = "right" ∧
      (w.watcher .client).clipboard.text = "left" ∧
      Quiet w ∧ ¬ Converged w := by
  refine ⟨_, rfl, rfl, rfl, ?_⟩
  refine (and_iff_left_of_imp ?_).mpr ?_
  · intro hquiet hconverged
    exact absurd (hconverged hquiet) (by decide)
  · intro x
    cases x <;> decide

end KvmClipboardAgreement
