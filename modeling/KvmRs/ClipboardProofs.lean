import KvmRs.TransitionProofs

/-! # The clipboard watchers

    The loops of `spawn_clipboard_watcher` on the server and of `spawn_with`
    on the client.  Both apply the texts that are queued for them, read the
    clipboard and send a text they do not remember.  `last_seen` is meant to
    know what is on the clipboard already; the server updates it before it
    calls `set_text` and forgets what the clipboard still holds when the call
    fails.

    With both ends running the clipboards agree as long as no watcher sends
    while a text of the other side is on its way to it; two copies that cross
    change places. -/

namespace KvmClipboard

open Transition

/-- The same limit in `server.rs` and `clipboard.rs`. -/
def MAX_CLIPBOARD_BYTES : Nat := 1024 * 1024

inductive Side where
  | server
  | client
  deriving DecidableEq

/-- A text on the clipboard and where it is from: the user's placement of
    that number, or the other side. -/
structure Content where
  text : String
  placement : Option Nat
  deriving DecidableEq

inductive Phase where
  /-- The server's thread has not yet read the clipboard once. -/
  | starting
  /-- In the loop over the queued texts. -/
  | draining
  /-- About to read the clipboard. -/
  | polling
  /-- The client's thread has returned. -/
  | stopped
  deriving DecidableEq

/-- A watcher thread and the clipboard it owns.  `placements` are the texts
    the user has placed, from the first one on. -/
structure Watcher where
  clipboard : Content
  placements : List String
  lastSeen : Option String
  queue : List String
  phase : Phase
  deriving DecidableEq

/-- A watcher as it starts, on the client with each session.  What is on the
    clipboard then was placed by the user too. -/
def newWatcher (side : Side) (initial : String) : Watcher where
  clipboard := ⟨initial, some 0⟩
  placements := [initial]
  lastSeen := none
  queue := []
  phase := match side with
    | .server => .starting
    | .client => .draining

/-! ## The loops -/

/-- `set_text`: what fails leaves the clipboard as it was. -/
def Watcher.setText (w : Watcher) (text : String) (ok : Bool) : Watcher :=
  if ok then { w with clipboard := ⟨text, none⟩ } else w

/-- One text from the queue.  The server remembers it and then sets it, the
    client sets it and remembers it if that went well. -/
def Watcher.onRemote (w : Watcher) (text : String) (ok : Bool) :
    Side → Watcher
  | .server =>
      if w.lastSeen ≠ some text ∧ text.utf8ByteSize ≤ MAX_CLIPBOARD_BYTES then
        Watcher.setText { w with lastSeen := some text } text ok
      else w
  | .client =>
      if ok then { w.setText text ok with lastSeen := some text } else w

/-- A text that a watcher may send. -/
def Shareable (text : String) : Prop :=
  text ≠ "" ∧ text.utf8ByteSize ≤ MAX_CLIPBOARD_BYTES

instance shareableDecidable (text : String) : Decidable (Shareable text) :=
  inferInstanceAs (Decidable (_ ∧ _))

/-- The clipboard holds something to send. -/
def Watcher.Changed (w : Watcher) : Prop :=
  w.lastSeen ≠ some w.clipboard.text ∧ Shareable w.clipboard.text

instance changedDecidable (w : Watcher) : Decidable w.Changed :=
  inferInstanceAs (Decidable (_ ∧ _))

inductive Move where
  /-- The user copies a text. -/
  | place (text : String)
  /-- A text of the other side is put into the queue. -/
  | arrive (text : String)
  /-- The server's first `get_text`. -/
  | start (readOk : Bool)
  /-- `try_recv` gives a text and `set_text` is called. -/
  | recv (setOk : Bool)
  /-- `try_recv` finds the queue empty. -/
  | drained
  /-- `try_recv` finds the queue empty and the session gone. -/
  | disconnected
  /-- `get_text`, and the send of what it gives. -/
  | poll (readOk sendOk : Bool)
  deriving DecidableEq

/-- One move, and what is sent by it. -/
def act (side : Side) (w : Watcher) : Move → Option (Watcher × Option Content)
  | .place text =>
      some ({ w with
        clipboard := ⟨text, some w.placements.length⟩
        placements := w.placements ++ [text] }, none)
  | .arrive text => some ({ w with queue := w.queue ++ [text] }, none)
  | .start readOk =>
      if w.phase = .starting then
        -- `get_text().unwrap_or_default()`
        some ({ w with
          lastSeen := some (if readOk then w.clipboard.text else "")
          phase := .draining }, none)
      else none
  | .recv setOk =>
      match w.phase, w.queue with
      | .draining, text :: rest =>
          some (Watcher.onRemote { w with queue := rest } text setOk side, none)
      | _, _ => none
  | .drained =>
      match w.phase, w.queue with
      | .draining, [] => some ({ w with phase := .polling }, none)
      | _, _ => none
  | .disconnected =>
      match side, w.phase, w.queue with
      | .client, .draining, [] => some ({ w with phase := .stopped }, none)
      | _, _, _ => none
  | .poll readOk sendOk =>
      if w.phase = .polling then
        if readOk = true ∧ w.Changed then
          -- only the client's send can fail, and its thread returns then
          if side = .client ∧ sendOk = false then
            some ({ w with
              lastSeen := some w.clipboard.text
              phase := .stopped }, none)
          else
            some ({ w with
              lastSeen := some w.clipboard.text
              phase := .draining }, some w.clipboard)
        else some ({ w with phase := .draining }, none)
      else none

/-! ## No echo -/

/-- A watcher and everything it has sent. -/
structure Log where
  watcher : Watcher
  sent : List Content
  deriving DecidableEq

def newLog (side : Side) (initial : String) : Log :=
  ⟨newWatcher side initial, []⟩

def step (side : Side) (s : Log) (m : Move) : Option Log :=
  (act side s.watcher m).map fun next =>
    ⟨next.1, s.sent ++ next.2.toList⟩

/-- Everything that was sent is a text the user placed, and no placement was
    sent twice. -/
structure NoEcho (s : Log) : Prop where
  placed : ∀ c ∈ s.sent, ∃ i, c.placement = some i ∧
    s.watcher.placements[i]? = some c.text
  once : (s.sent.map Content.placement).Nodup

/-- When the server's `set_text` fails, the clipboard does not hold a text
    that the watcher knows. -/
def KeepsMemory (side : Side) (s : Log) : Move → Prop
  | .recv false => side = .client ∨
      ∀ text rest, s.watcher.queue = text :: rest →
        s.watcher.lastSeen ≠ some text → text.utf8ByteSize ≤ MAX_CLIPBOARD_BYTES →
          s.watcher.lastSeen ≠ some s.watcher.clipboard.text ∨
            ¬ Shareable s.watcher.clipboard.text
  | _ => True

/-- The clipboard holds nothing that would be sent though it came from the
    other side or was sent before. -/
structure Remembers (s : Log) : Prop where
  noEcho : NoEcho s
  origin : ∀ i, s.watcher.clipboard.placement = some i →
    s.watcher.placements[i]? = some s.watcher.clipboard.text
  known : (s.watcher.clipboard.placement = none ∨
      s.watcher.clipboard.placement ∈ s.sent.map Content.placement) →
    ¬ s.watcher.Changed
  starting : s.watcher.phase = .starting →
    s.watcher.clipboard.placement ≠ none ∧ s.sent = []

theorem remembers_newLog (side : Side) (initial : String) :
    Remembers (newLog side initial) where
  noEcho := ⟨fun _ hc => absurd hc List.not_mem_nil, List.nodup_nil⟩
  origin := by
    intro i hi
    have hzero : 0 = i := Option.some.inj hi
    rw [← hzero]
    rfl
  known := by
    rintro (hnone | hmem)
    · cases hnone
    · cases hmem
  starting := fun _ => ⟨Option.some_ne_none 0, rfl⟩

/-- A move that leaves the clipboard alone, sends nothing and makes nothing
    look new. -/
theorem Remembers.keep {s : Log} {w : Watcher} (h : Remembers s)
    (hclip : w.clipboard = s.watcher.clipboard)
    (hplaced : w.placements = s.watcher.placements)
    (hchanged : w.clipboard = s.watcher.clipboard → w.Changed →
      s.watcher.Changed)
    (hphase : w.phase = .starting → s.watcher.phase = .starting) :
    Remembers ⟨w, s.sent⟩ where
  noEcho := ⟨by rw [hplaced]; exact h.noEcho.placed, h.noEcho.once⟩
  origin := by rw [hclip, hplaced]; exact h.origin
  known := by
    rw [hclip]
    intro hold hnew
    exact h.known hold (hchanged hclip hnew)
  starting := by
    intro hstart
    rw [hclip]
    exact h.starting (hphase hstart)

/-- A text of the other side is on the clipboard and remembered. -/
theorem Remembers.set {s : Log} {w : Watcher} {text : String}
    (h : Remembers s) (hclip : w.clipboard = ⟨text, none⟩)
    (hplaced : w.placements = s.watcher.placements)
    (hseen : w.lastSeen = some text) (hphase : w.phase ≠ .starting) :
    Remembers ⟨w, s.sent⟩ where
  noEcho := ⟨by rw [hplaced]; exact h.noEcho.placed, h.noEcho.once⟩
  origin := by
    intro i hi
    rw [hclip] at hi
    cases hi
  known := by
    rintro - ⟨hne, -⟩
    rw [hclip] at hne
    exact hne hseen
  starting := fun hstart => absurd hstart hphase

/-- Placements that were sent were made. -/
theorem Remembers.lt_of_sent {s : Log} (h : Remembers s) {i : Nat}
    (hi : some i ∈ s.sent.map Content.placement) :
    i < s.watcher.placements.length := by
  obtain ⟨c, hc, heq⟩ := List.mem_map.mp hi
  obtain ⟨j, hj, htext⟩ := h.noEcho.placed c hc
  rw [heq, Option.some.injEq] at hj
  rw [hj]
  exact (List.getElem?_eq_some_iff.mp htext).1

theorem remembers_place {s : Log} (h : Remembers s) (text : String) :
    Remembers ⟨{ s.watcher with
      clipboard := ⟨text, some s.watcher.placements.length⟩
      placements := s.watcher.placements ++ [text] }, s.sent⟩ where
  noEcho := by
    refine ⟨?_, h.noEcho.once⟩
    intro c hc
    obtain ⟨i, hi, htext⟩ := h.noEcho.placed c hc
    refine ⟨i, hi, ?_⟩
    exact (List.getElem?_append_left
      (List.getElem?_eq_some_iff.mp htext).1).trans htext
  origin := by
    intro i hi
    have hlast : s.watcher.placements.length = i := Option.some.inj hi
    rw [← hlast]
    exact List.getElem?_concat_length
  known := by
    rintro (hnone | hmem)
    · cases hnone
    · exact absurd (h.lt_of_sent hmem) (Nat.lt_irrefl _)
  starting := by
    intro hstart
    exact ⟨Option.some_ne_none _, (h.starting hstart).2⟩

/-- The clipboard's text is sent: it is the user's, and for the first
    time. -/
theorem remembers_send {s : Log} (h : Remembers s)
    (hchanged : s.watcher.Changed) :
    Remembers ⟨{ s.watcher with
      lastSeen := some s.watcher.clipboard.text
      phase := .draining }, s.sent ++ [s.watcher.clipboard]⟩ where
  noEcho := by
    have hfresh : ¬ (s.watcher.clipboard.placement = none ∨
        s.watcher.clipboard.placement ∈ s.sent.map Content.placement) :=
      fun hknown => h.known hknown hchanged
    rw [not_or] at hfresh
    constructor
    · intro c hc
      rcases List.mem_append.mp hc with hc | hc
      · exact h.noEcho.placed c hc
      · rw [List.mem_singleton.mp hc]
        obtain ⟨i, hi⟩ := Option.ne_none_iff_exists'.mp hfresh.1
        exact ⟨i, hi, h.origin i hi⟩
    · show ((s.sent ++ [s.watcher.clipboard]).map Content.placement).Nodup
      rw [List.map_append, List.map_singleton, ← List.concat_eq_append]
      exact h.noEcho.once.concat hfresh.2
  origin := h.origin
  known := fun _ hnew => hnew.1 rfl
  starting := fun hstart => Phase.noConfusion hstart

/-- **ONE TEXT FROM THE QUEUE** is remembered if it is set, and what was
    remembered before if it is not. -/
theorem remembers_onRemote {side : Side} {s : Log} {text : String}
    {rest : List String} {ok : Bool} (h : Remembers s)
    (hqueue : s.watcher.queue = text :: rest)
    (hphase : s.watcher.phase = .draining)
    (hok : KeepsMemory side s (.recv ok)) :
    Remembers ⟨Watcher.onRemote { s.watcher with queue := rest } text ok side,
      s.sent⟩ := by
  have hstart : s.watcher.phase ≠ .starting := by
    rw [hphase]
    exact Phase.noConfusion
  have hdrop : Remembers ⟨{ s.watcher with queue := rest }, s.sent⟩ :=
    h.keep rfl rfl (fun _ hnew => hnew) id
  cases side with
  | server =>
      simp only [Watcher.onRemote]
      split
      · rename_i htry
        cases ok with
        | true => exact hdrop.set rfl rfl rfl hstart
        | false =>
            -- the memory is gone, but it was of something else
            refine h.keep rfl rfl ?_ (fun hs => hs)
            rintro - ⟨-, hshare⟩
            rcases hok with hside | hkeep
            · cases hside
            rcases hkeep text rest hqueue htry.1 htry.2 with hne | hno
            · exact ⟨hne, hshare⟩
            · exact absurd hshare hno
      · exact hdrop
  | client =>
      cases ok with
      | true => exact hdrop.set rfl rfl rfl hstart
      | false => exact hdrop

/-- The server's first read: nothing was sent, and the text is the user's. -/
theorem remembers_start {s : Log} (h : Remembers s)
    (hstart : s.watcher.phase = .starting) (seen : String) :
    Remembers ⟨{ s.watcher with lastSeen := some seen, phase := .draining },
      s.sent⟩ where
  noEcho := ⟨h.noEcho.placed, h.noEcho.once⟩
  origin := h.origin
  known := by
    obtain ⟨hplace, hsent⟩ := h.starting hstart
    rintro (hnone | hmem)
    · exact absurd hnone hplace
    · rw [hsent] at hmem
      cases hmem
  starting := fun hs => Phase.noConfusion hs

/-- What a silent move leaves is as it was without the send. -/
theorem Remembers.silent {w : Watcher} {sent : List Content}
    (h : Remembers ⟨w, sent⟩) :
    Remembers ⟨w, sent ++ (none : Option Content).toList⟩ := by
  rw [show sent ++ (none : Option Content).toList = sent from
    List.append_nil sent]
  exact h

/-- **ONE MOVE** keeps the memory. -/
theorem remembers_step {side : Side} (s : Log) (m : Move) (s' : Log)
    (h : Remembers s) (hok : KeepsMemory side s m)
    (hs : step side s m = some s') : Remembers s' := by
  obtain ⟨next, hact, rfl⟩ := Option.map_eq_some_iff.mp hs
  cases m with
  | place text =>
      obtain rfl := Option.some.inj hact
      exact (remembers_place h text).silent
  | arrive text =>
      obtain rfl := Option.some.inj hact
      refine Remembers.silent ?_
      exact h.keep rfl rfl (fun _ hnew => hnew) id
  | start readOk =>
      simp only [act] at hact
      split at hact
      · rename_i hstart
        obtain rfl := Option.some.inj hact
        exact (remembers_start h hstart _).silent
      · cases hact
  | recv setOk =>
      simp only [act] at hact
      split at hact
      · rename_i hphase hqueue
        obtain rfl := Option.some.inj hact
        exact (remembers_onRemote h hqueue hphase hok).silent
      · cases hact
  | drained =>
      simp only [act] at hact
      split at hact
      · obtain rfl := Option.some.inj hact
        refine Remembers.silent ?_
        exact h.keep rfl rfl (fun _ hnew => hnew) Phase.noConfusion
      · cases hact
  | disconnected =>
      simp only [act] at hact
      split at hact
      · obtain rfl := Option.some.inj hact
        refine Remembers.silent ?_
        exact h.keep rfl rfl (fun _ hnew => hnew) Phase.noConfusion
      · cases hact
  | poll readOk sendOk =>
      simp only [act] at hact
      split at hact
      · split at hact
        · rename_i hsend
          split at hact
          · obtain rfl := Option.some.inj hact
            refine Remembers.silent ?_
            exact h.keep rfl rfl (fun _ hnew => absurd rfl hnew.1)
              Phase.noConfusion
          · obtain rfl := Option.some.inj hact
            exact remembers_send h hsend.2
        · obtain rfl := Option.some.inj hact
          refine Remembers.silent ?_
          exact h.keep rfl rfl (fun _ hnew => hnew) Phase.noConfusion
      · cases hact

/-- **NO ECHO**: whatever texts come in, whatever the user copies, and
    whichever calls fail, the client's watcher sends only what its user
    placed, each placement at most once; so does the server's in every run in
    which no `set_text` fails while the clipboard holds a text that it
    remembers. -/
theorem clipboard_no_echo (side : Side) (initial : String) (run : List Move)
    (hrun : Guarded (step side) (KeepsMemory side) (newLog side initial) run) :
    Always (step side) NoEcho (newLog side initial) run :=
  always_of_guarded (fun _ h => h.noEcho) remembers_step run _
    (remembers_newLog side initial) hrun

/-- A remote text is applied and the user copies another; the next `set_text`
    fails while the clipboard holds what the watcher has not seen yet. -/
theorem clipboard_no_echo_server :
    Always (step .server) NoEcho (newLog .server "")
      [.start true, .arrive "remote", .recv true, .place "mine", .arrive "lost",
        .recv false, .drained, .poll true true] := by
  refine clipboard_no_echo .server "" _ ?_
  refine ⟨trivial, trivial, trivial, trivial, trivial, Or.inr ?_, trivial,
    trivial, trivial⟩
  intro text rest hqueue hne hlen
  left
  decide

/-- **A FAILED `set_text` ECHOES**: the server has applied one remote text and
    fails to apply the next; it then takes the first for a copy of its user
    and sends it back. -/
theorem failed_set_echoes :
    ∃ s, exec (step .server) (newLog .server "")
        [.start true, .arrive "first", .recv true, .arrive "second",
          .recv false, .drained, .poll true true] = some s ∧
      s.sent = [⟨"first", none⟩] ∧ ¬ NoEcho s := by
  refine ⟨_, rfl, rfl, ?_⟩
  intro h
  obtain ⟨i, hi, -⟩ := h.placed ⟨"first", none⟩ (List.mem_singleton_self _)
  cases hi

end KvmClipboard
