import KvmRs.ClipboardProofs
import KvmRs.PairOnceProofs
import KvmRs.TranscriptProofs

/-! # One clipboard, many clients

    The handlers queue the texts of their clients for the server's watcher,
    and the watcher broadcasts what it finds on the clipboard to everyone in
    the registry.  So the clipboard of the server is where the texts of one
    client could come to another.

    They do not as long as no `set_text` fails: every client is sent a part of
    what the server's user has copied, in that order and nothing twice.  What
    the watcher puts on the clipboard came from a client that was let in. -/

namespace KvmClipboardHub

open KvmClipboard (Content Log NoEcho Remembers)
open KvmControl (Settings World Conn Requested Proved Secure)
open KvmEnvelope KvmTranscript Transition

/-! ## The two machines together -/

/-- The control channel and the watcher.  The command queue is the same in
    both. -/
structure Hub (C Ip : Type) where
  world : World C Ip
  log : Log

inductive Action (C : Type) where
  | control (a : KvmControl.Action C)
  | watch (m : KvmClipboard.Move)
  deriving DecidableEq

variable {C Ip : Type}

def Hub.start (C Ip : Type) (paired : List String) (enabled : Bool)
    (clipboard : String) : Hub C Ip :=
  ⟨World.start C Ip paired enabled, KvmClipboard.newLog .server clipboard⟩

/-- What the control channel leaves to the watcher. -/
def ofWatcher : KvmControl.Action C → Bool
  | .takeClipboard => true
  | .broadcast (.clipboardSet _) => true
  | _ => false

/-- What the watcher leaves to the control channel; the server's watcher does
    not end. -/
def ofControl : KvmClipboard.Move → Bool
  | .arrive _ => true
  | .disconnected => true
  | _ => false

section System

variable [DecidableEq C] [DecidableEq Ip]

/-- The broadcast of what was sent. -/
def tell (w : World C Ip) : Option Content → World C Ip
  | some c => w.broadcast (.clipboardSet c.text)
  | none => w

def step (k : Settings) (ip : C → Ip) (h : Hub C Ip) :
    Action C → Option (Hub C Ip)
  | .control a =>
      if ofWatcher a then none
      else
        (KvmControl.step k ip h.world a).map fun w =>
          ⟨w, { h.log with
            watcher := { h.log.watcher with queue := w.clipboardQueue } }⟩
  | .watch m =>
      -- without a clipboard there is no watcher
      if ofControl m || !k.hasClipboard then none
      else
        (KvmClipboard.act .server h.log.watcher m).map fun next =>
          ⟨tell { h.world with clipboardQueue := next.1.queue } next.2,
            ⟨next.1, h.log.sent ++ next.2.toList⟩⟩

/-- No `set_text` fails that would make the watcher forget what is on the
    clipboard. -/
def Retains (h : Hub C Ip) : Action C → Prop
  | .control _ => True
  | .watch m => KvmClipboard.KeepsMemory .server h.log m

end System

/-! ## What is promised -/

def copyOf : Envelope → Option String
  | .clipboardSet text => some text
  | _ => none

/-- The texts of the `ClipboardSet`s. -/
def copies (es : List Envelope) : List String := es.filterMap copyOf

/-- The connection is or was in the registry, and asked for it with a
    fingerprint that was paired from the start or that came with a proof of
    the PIN. -/
def Admitted (k : Settings) (initial : List String) (w : World C Ip) (c : C) :
    Prop :=
  (w.conns c).registered = true ∧
    ∃ req, Requested (w.conns c).received req ∧
      (req.fingerprint ∈ initial ∨
        ∃ d, Proved k (w.conns d).received req.fingerprint)

/-- A client that was let in has sent this text, and it may be applied. -/
def Offered (k : Settings) (initial : List String) (w : World C Ip)
    (text : String) : Prop :=
  k.clipboardSync = true ∧
    (ByteCodec.utf8 text).length ≤ KvmControl.MAX_CLIPBOARD_BYTES ∧
    ∃ c, Admitted k initial w c ∧
      Envelope.clipboardSet text ∈ (w.conns c).received

structure Private (k : Settings) (initial : List String) (h : Hub C Ip) :
    Prop where
  /-- What a client is sent are copies of the server's user, in their
      order. -/
  toClients : ∀ c, ∃ picks : List Nat, picks.Pairwise (· < ·) ∧
    (copies (h.world.conns c).sent).map some
      = picks.map (h.log.watcher.placements[·]?)
  onlyAdmitted : ∀ c, copies (h.world.conns c).sent ≠ [] →
    Admitted k initial h.world c
  toServer : ∀ text, h.log.watcher.clipboard = ⟨text, none⟩ →
    Offered k initial h.world text

/-! ## One connection -/

/-- What a step that is not the watcher's does to a connection. -/
structure Goes (x x' : Conn) : Prop where
  sent : copies x'.sent = copies x.sent
  received : x.received <+: x'.received
  registered : x.registered = true → x'.registered = true
  accepted : x'.acceptedPaired = true →
    x.acceptedPaired = true ∨ ∃ req, x.phase = .accepting req
  pending : ∀ text, x'.phase = .clipboard text →
    x.phase = .clipboard text ∨ Envelope.clipboardSet text ∈ x'.received

/-- No copy. -/
def plain (e : Envelope) : Bool := (copyOf e).isNone

section Connection

variable {x x' : Conn}

theorem copies_append (es fs : List Envelope) :
    copies (es ++ fs) = copies es ++ copies fs :=
  List.filterMap_append

theorem plain_toggle (desired : Bool) :
    ∀ e ∈ KvmControl.toggleBroadcasts desired, plain e = true := by
  cases desired <;> decide

theorem copies_of_plain {e : Envelope} (h : plain e = true) :
    copies [e] = [] :=
  List.filterMap_cons_none (Option.isNone_iff_eq_none.mp h)

theorem copies_pings {es : List Envelope} (h : ∀ e ∈ es, ∃ ts, e = .ping ts) :
    copies es = [] := by
  rw [copies, List.filterMap_eq_nil_iff]
  intro e he
  obtain ⟨ts, rfl⟩ := h e he
  rfl

theorem Goes.refl (x : Conn) : Goes x x where
  sent := rfl
  received := List.prefix_refl _
  registered := id
  accepted := Or.inl
  pending := fun _ => Or.inl

/-- The handler goes on and sends nothing of the clipboard. -/
theorem goes_goto {ph : KvmControl.Phase} {es : List Envelope}
    (hes : copies es = []) (hph : ∀ text, ph ≠ .clipboard text) :
    Goes x (x.goto ph es) where
  sent := by
    show copies (x.sent ++ es) = copies x.sent
    rw [copies_append, hes, List.append_nil]
  received := List.prefix_refl _
  registered := id
  accepted := Or.inl
  pending := fun text h => absurd h (hph text)

/-- What is broadcast comes on top. -/
theorem Goes.hear (h : Goes x x') {e : Envelope} (he : plain e = true) :
    Goes x { x' with sent := x'.sent ++ [e] } where
  sent := by
    show copies (x'.sent ++ [e]) = copies x.sent
    rw [copies_append, copies_of_plain he, List.append_nil]
    exact h.sent
  received := h.received
  registered := h.registered
  accepted := h.accepted
  pending := h.pending

/-- An envelope arrives. -/
theorem goes_receive {e : Envelope} {enabled : Bool} {now : Nat}
    (hx : KvmControl.onEnvelope enabled now x e = some x') :
    Goes x { x' with received := x'.received ++ [e] } := by
  have hrec := received_onEnvelope hx
  suffices h : ∃ es, x'.sent = x.sent ++ es ∧ copies es = [] ∧
      x'.registered = x.registered ∧ x'.acceptedPaired = x.acceptedPaired ∧
      ∀ text, x'.phase = .clipboard text → e = .clipboardSet text by
    obtain ⟨es, hsent, hes, hreg, hacc, hphase⟩ := h
    refine ⟨?_, ?_, ?_, ?_, ?_⟩
    · rw [hsent, copies_append, hes, List.append_nil]
    · rw [hrec]
      exact List.prefix_append _ _
    · rw [hreg]
      exact id
    · rw [hacc]
      exact Or.inl
    · intro text htext
      rw [← hphase text htext]
      exact Or.inr (List.mem_append_right _ (List.mem_singleton_self e))
  cases hp : x.phase with
  | hello =>
      simp only [KvmControl.onEnvelope, hp] at hx
      cases e with
      | hello name version caps =>
          simp only at hx
          split at hx <;> rw [← Option.some.inj hx] <;>
            exact ⟨_, rfl, rfl, rfl, rfl, by simp [Conn.goto]⟩
      | _ =>
          rw [← Option.some.inj hx]
          exact ⟨_, rfl, rfl, rfl, rfl, by simp [Conn.goto]⟩
  | awaitingPair =>
      simp only [KvmControl.onEnvelope, hp] at hx
      cases e <;> rw [← Option.some.inj hx] <;>
        exact ⟨_, rfl, rfl, rfl, rfl, by simp [Conn.goto]⟩
  | looping =>
      simp only [KvmControl.onEnvelope, hp] at hx
      cases e with
      | toggleForward desired =>
          rw [← Option.some.inj hx]
          refine ⟨_, rfl, rfl, rfl, rfl, ?_⟩
          intro text
          simp only [Conn.goto]
          split <;> simp
      | clipboardSet text =>
          rw [← Option.some.inj hx]
          refine ⟨_, rfl, rfl, rfl, rfl, ?_⟩
          intro text' htext
          rw [KvmControl.Phase.clipboard.inj htext]
      | goodbye =>
          rw [← Option.some.inj hx]
          exact ⟨_, rfl, rfl, rfl, rfl, by simp [Conn.goto]⟩
      | ping ts =>
          rw [← Option.some.inj hx]
          exact ⟨_, rfl, rfl, rfl, rfl, by simp [Conn.goto]⟩
      | _ =>
          rw [← Option.some.inj hx]
          exact ⟨[], (List.append_nil _).symm, rfl, rfl, rfl, by simp⟩
  | _ => simp only [KvmControl.onEnvelope, hp, reduceCtorEq] at hx

end Connection

/-! ## The control channel's steps -/

section Control

variable [DecidableEq C] [DecidableEq Ip] {k : Settings} {ip : C → Ip}
  {w w' : World C Ip} {c : C}

/-- The handler's own steps. -/
theorem goes_advance (hplain : Sayable plain (w.conns c))
    (hs : KvmControl.advance k ip w c = some w') :
    Goes (w.conns c) (w'.conns c) := by
  obtain ⟨⟨es, hon, hsent⟩, hrec, hreg, hacc⟩ := advanced hs
  have hes : copies es = [] := by
    generalize hp : (w.conns c).phase = p at hon
    generalize (w'.conns c).phase = p' at hon
    cases hon with
    | told e es hin =>
        exact copies_of_plain (hplain _ hp e (List.mem_cons_self ..))
    | autoForwarded es hes => rcases hes with rfl | rfl <;> rfl
    | _ => rfl
  have hphase : ∀ text, (w'.conns c).phase ≠ .clipboard text := by
    intro text htext
    rw [htext] at hon
    generalize (w.conns c).phase = p at hon
    cases hon with
    | registered req ph hph => rcases hph with hph | hph <;> cases hph
    | left ph hph => rcases hph with hph | hph <;> cases hph
  refine ⟨?_, by rw [hrec], ?_, ?_, fun text h => absurd h (hphase text)⟩
  · rw [hsent, copies_append, hes, List.append_nil]
  · rcases hreg with hreg | ⟨-, hreg⟩
    · rw [hreg]
      exact id
    · exact fun _ => hreg
  · rcases hacc with hacc | hacc
    · rw [hacc]
      exact Or.inl
    · exact fun _ => Or.inr hacc

/-- No step of the control channel sends a copy to anyone. -/
theorem goes_step {a : KvmControl.Action C} (ha : ofWatcher a = false)
    (hplain : ∀ d, Sayable plain (w.conns d))
    (hs : KvmControl.step k ip w a = some w') (c : C) :
    Goes (w.conns c) (w'.conns c) := by
  by_cases hactor : a.actor = some c
  · have hloop : a.inLoop c → Goes (w.conns c) (w'.conns c) := by
      intro hin
      obtain ⟨-, ph, es, hph, hes, rfl⟩ := loop_sends hin hs
      simp only [World.set, Function.update_self]
      refine goes_goto (copies_pings hes) ?_
      rintro text rfl
      rcases hph with hph | hph <;> cases hph
    cases a with
    | receive d e =>
        obtain rfl : d = c := Option.some.inj hactor
        obtain ⟨x, hx, rfl⟩ := Option.map_eq_some_iff.mp hs
        simp only [World.set, Function.update_self]
        exact goes_receive hx
    | advance d =>
        obtain rfl : d = c := Option.some.inj hactor
        exact goes_advance (hplain d) hs
    | fail d =>
        obtain rfl : d = c := Option.some.inj hactor
        obtain ⟨-, rfl⟩ := KvmControl.step_fail hs
        simp only [World.set, Function.update_self]
        exact goes_goto rfl fun _ => KvmControl.Phase.noConfusion
    | closed d => exact hloop (Option.some.inj hactor)
    | pingTick d ts => exact hloop (Option.some.inj hactor)
    | watchdog d => exact hloop (Option.some.inj hactor)
    | broadcast e => cases hactor
    | hotkey on => cases hactor
    | takeClipboard => cases hactor
    | tick d => cases hactor
  · rcases others_step hactor hs with hsame | ⟨e, -, htold, hwho⟩
    · rw [hsame]
      exact Goes.refl _
    · rw [htold]
      refine (Goes.refl _).hear ?_
      rcases hwho with rfl | ⟨d, es, hd⟩
      · cases e <;> first | rfl | cases ha
      · exact hplain d _ hd e (List.mem_cons_self ..)

/-- **THE COMMAND QUEUE** grows by the texts of the handlers. -/
theorem queue_step {a : KvmControl.Action C} (ha : ofWatcher a = false)
    (hs : KvmControl.step k ip w a = some w') :
    w'.clipboardQueue = w.clipboardQueue ∨
      ∃ c text, (w.conns c).phase = .clipboard text ∧
        k.clipboardSync = true ∧
        (ByteCodec.utf8 text).length ≤ KvmControl.MAX_CLIPBOARD_BYTES ∧
        w'.clipboardQueue = w.clipboardQueue ++ [text] := by
  cases a with
  | advance c =>
      simp only [KvmControl.step] at hs
      cases hp : (w.conns c).phase with
      | clipboard text =>
          simp only [KvmControl.advance, hp] at hs
          rw [← Option.some.inj hs]
          simp only [World.set]
          split
          · rename_i hok
            exact Or.inr ⟨c, text, hp, hok.1, hok.2.1, rfl⟩
          · exact Or.inl (List.append_nil _)
      | comparing req =>
          simp only [KvmControl.advance, hp] at hs
          split at hs <;> (rw [← Option.some.inj hs]; exact Or.inl rfl)
      | firstClient =>
          simp only [KvmControl.advance, hp] at hs
          split at hs <;> (rw [← Option.some.inj hs]; exact Or.inl rfl)
      | broadcasting es =>
          cases es <;> simp only [KvmControl.advance, hp] at hs <;>
            (rw [← Option.some.inj hs]; exact Or.inl rfl)
      | hello => simp only [KvmControl.advance, hp, reduceCtorEq] at hs
      | awaitingPair => simp only [KvmControl.advance, hp, reduceCtorEq] at hs
      | looping => simp only [KvmControl.advance, hp, reduceCtorEq] at hs
      | ended => simp only [KvmControl.advance, hp, reduceCtorEq] at hs
      | _ =>
          simp only [KvmControl.advance, hp] at hs
          rw [← Option.some.inj hs]
          exact Or.inl rfl
  | broadcast e =>
      rw [← Option.some.inj hs]
      exact Or.inl rfl
  | hotkey on =>
      rw [← Option.some.inj hs]
      exact Or.inl rfl
  | tick d =>
      rw [← Option.some.inj hs]
      exact Or.inl rfl
  | takeClipboard => cases ha
  | receive c e =>
      obtain ⟨x, rfl⟩ := KvmControl.step_actor rfl (by simp) hs
      exact Or.inl rfl
  | fail c =>
      obtain ⟨x, rfl⟩ := KvmControl.step_actor rfl (by simp) hs
      exact Or.inl rfl
  | closed c =>
      obtain ⟨x, rfl⟩ := KvmControl.step_actor rfl (by simp) hs
      exact Or.inl rfl
  | pingTick c ts =>
      obtain ⟨x, rfl⟩ := KvmControl.step_actor rfl (by simp) hs
      exact Or.inl rfl
  | watchdog c =>
      obtain ⟨x, rfl⟩ := KvmControl.step_actor rfl (by simp) hs
      exact Or.inl rfl

end Control

/-! ## The watcher's moves -/

/-- What a move of the watcher does to its clipboard and its queue. -/
inductive Moves (w w' : KvmClipboard.Watcher) : Option Content → Prop where
  /-- The clipboard stays. -/
  | rest (hclip : w'.clipboard = w.clipboard)
      (hplaced : w'.placements = w.placements) (hqueue : w'.queue ⊆ w.queue) :
      Moves w w' none
  | place (text : String)
      (hclip : w'.clipboard = ⟨text, some w.placements.length⟩)
      (hplaced : w'.placements = w.placements ++ [text])
      (hqueue : w'.queue ⊆ w.queue) : Moves w w' none
  | apply (text : String) (htext : text ∈ w.queue)
      (hclip : w'.clipboard = ⟨text, none⟩)
      (hplaced : w'.placements = w.placements) (hqueue : w'.queue ⊆ w.queue) :
      Moves w w' none
  | send (hnew : w.Changed) (hclip : w'.clipboard = w.clipboard)
      (hplaced : w'.placements = w.placements) (hqueue : w'.queue ⊆ w.queue) :
      Moves w w' (some w.clipboard)

theorem Moves.queue {w w' : KvmClipboard.Watcher} {out : Option Content}
    (h : Moves w w' out) : w'.queue ⊆ w.queue := by
  cases h <;> assumption

theorem moves_act {w w' : KvmClipboard.Watcher} {m : KvmClipboard.Move}
    {out : Option Content} (hm : ofControl m = false)
    (hs : KvmClipboard.act .server w m = some (w', out)) : Moves w w' out := by
  cases m with
  | place text =>
      obtain ⟨rfl, rfl⟩ := Prod.mk.inj (Option.some.inj hs)
      exact .place text rfl rfl (List.Subset.refl _)
  | arrive text => cases hm
  | start readOk =>
      simp only [KvmClipboard.act] at hs
      split at hs
      · obtain ⟨rfl, rfl⟩ := Prod.mk.inj (Option.some.inj hs)
        exact .rest rfl rfl (List.Subset.refl _)
      · cases hs
  | recv setOk =>
      simp only [KvmClipboard.act] at hs
      split at hs
      · rename_i text rest hphase hqueue
        obtain ⟨rfl, rfl⟩ := Prod.mk.inj (Option.some.inj hs)
        have hsub : rest ⊆ w.queue := by
          rw [hqueue]
          exact List.subset_cons_self ..
        simp only [KvmClipboard.Watcher.onRemote]
        split
        · cases setOk with
          | true =>
              refine .apply text ?_ rfl rfl hsub
              rw [hqueue]
              exact List.mem_cons_self ..
          | false => exact .rest rfl rfl hsub
        · exact .rest rfl rfl hsub
      · cases hs
  | drained =>
      simp only [KvmClipboard.act] at hs
      split at hs
      · obtain ⟨rfl, rfl⟩ := Prod.mk.inj (Option.some.inj hs)
        exact .rest rfl rfl (List.Subset.refl _)
      · cases hs
  | disconnected => cases hm
  | poll readOk sendOk =>
      simp only [KvmClipboard.act] at hs
      split at hs
      · split at hs
        · rename_i hnew
          simp only [reduceCtorEq, false_and, if_false] at hs
          obtain ⟨rfl, rfl⟩ := Prod.mk.inj (Option.some.inj hs)
          exact .send hnew.2 rfl rfl (List.Subset.refl _)
        · obtain ⟨rfl, rfl⟩ := Prod.mk.inj (Option.some.inj hs)
          exact .rest rfl rfl (List.Subset.refl _)
      · cases hs

/-- What was sent is in the order in which it was copied, and the clipboard
    holds the latest copy or none. -/
structure InOrder (l : Log) : Prop where
  sent : (l.sent.filterMap Content.placement).Pairwise (· < ·)
  latest : ∀ i, l.watcher.clipboard.placement = some i →
    i + 1 = l.watcher.placements.length

theorem inOrder_newLog (initial : String) :
    InOrder (KvmClipboard.newLog .server initial) where
  sent := List.Pairwise.nil
  latest := by
    rintro i ⟨⟩
    rfl

/-- A move keeps the order. -/
theorem inOrder_moves {l : Log} {w' : KvmClipboard.Watcher}
    {out : Option Content} (h : InOrder l) (hrem : Remembers l)
    (hmove : Moves l.watcher w' out) :
    InOrder ⟨w', l.sent ++ out.toList⟩ := by
  cases hmove with
  | rest hclip hplaced hqueue =>
      refine ⟨by rw [Option.toList_none, List.append_nil]; exact h.sent, ?_⟩
      rw [hclip, hplaced]
      exact h.latest
  | place text hclip hplaced hqueue =>
      refine ⟨by rw [Option.toList_none, List.append_nil]; exact h.sent, ?_⟩
      intro i hi
      rw [hclip] at hi
      rw [hplaced, List.length_append, ← Option.some.inj hi]
      rfl
  | apply text htext hclip hplaced hqueue =>
      refine ⟨by rw [Option.toList_none, List.append_nil]; exact h.sent, ?_⟩
      intro i hi
      rw [hclip] at hi
      cases hi
  | send hnew hclip hplaced hqueue =>
      refine ⟨?_, by rw [hclip, hplaced]; exact h.latest⟩
      -- what is sent now is the latest copy, and it was not sent before
      have hfresh : ¬ (l.watcher.clipboard.placement = none ∨
          l.watcher.clipboard.placement ∈ l.sent.map Content.placement) :=
        fun hold => hrem.known hold hnew
      rw [not_or] at hfresh
      obtain ⟨i, hi⟩ := Option.ne_none_iff_exists'.mp hfresh.1
      rw [List.filterMap_append, List.pairwise_append]
      refine ⟨h.sent, ?_, ?_⟩
      · show ([l.watcher.clipboard].filterMap Content.placement).Pairwise _
        rw [List.filterMap_cons_some hi]
        exact List.pairwise_singleton _ _
      · intro j hj j' hj'
        have hsame : j' = i := by
          rw [Option.toList_some, List.filterMap_cons_some hi] at hj'
          exact List.mem_singleton.mp hj'
        obtain ⟨c, hc, hcj⟩ := List.mem_filterMap.mp hj
        have hmem : some j ∈ l.sent.map Content.placement := by
          rw [← hcj]
          exact List.mem_map_of_mem hc
        have hlt := hrem.lt_of_sent hmem
        have hlast := h.latest i hi
        have hne : j ≠ i := by
          rintro rfl
          exact hfresh.2 (hi ▸ hmem)
        omega

/-! ## The invariant -/

/-- No connection has lost what it received, and none its place in the
    history of the registry. -/
def Later (w w' : World C Ip) : Prop :=
  ∀ c, (w.conns c).received <+: (w'.conns c).received ∧
    ((w.conns c).registered = true → (w'.conns c).registered = true)

section Later

variable {k : Settings} {initial : List String} {w w' : World C Ip} {c : C}

theorem Admitted.later (h : Admitted k initial w c) (hlater : Later w w') :
    Admitted k initial w' c := by
  obtain ⟨hreg, req, hreq, hfp⟩ := h
  refine ⟨(hlater c).2 hreg, req, ?_, ?_⟩
  · obtain ⟨es, hes⟩ := (hlater c).1
    rw [← hes]
    exact hreq.append es
  · rcases hfp with hfp | ⟨d, hproved⟩
    · exact Or.inl hfp
    · obtain ⟨es, hes⟩ := (hlater d).1
      refine Or.inr ⟨d, ?_⟩
      rw [← hes]
      exact hproved.append es

theorem Offered.later {text : String} (h : Offered k initial w text)
    (hlater : Later w w') : Offered k initial w' text := by
  obtain ⟨hsync, hlen, c, hadm, hmem⟩ := h
  exact ⟨hsync, hlen, c, hadm.later hlater, (hlater c).1.subset hmem⟩

end Later

structure Relays (k : Settings) (initial : List String) (h : Hub C Ip) :
    Prop where
  secure : Secure k initial h.world
  queue : h.world.clipboardQueue = h.log.watcher.queue
  sayable : ∀ c, Sayable plain (h.world.conns c)
  pending : ∀ c text, (h.world.conns c).phase = .clipboard text →
    Envelope.clipboardSet text ∈ (h.world.conns c).received
  accepted : ∀ c, (h.world.conns c).acceptedPaired = true →
    ∃ req, Requested (h.world.conns c).received req ∧
      req.fingerprint ∈ h.world.pairedDevices
  heard : ∀ c, (copies (h.world.conns c).sent).Sublist
    (h.log.sent.map Content.text)
  remembers : Remembers h.log
  inOrder : InOrder h.log
  queued : ∀ text ∈ h.world.clipboardQueue, Offered k initial h.world text
  applied : ∀ text, h.log.watcher.clipboard = ⟨text, none⟩ →
    Offered k initial h.world text

theorem relays_start (k : Settings) (initial : List String) (enabled : Bool)
    (clipboard : String) :
    Relays k initial (Hub.start C Ip initial enabled clipboard) where
  secure := KvmControl.secure_start k initial enabled
  queue := rfl
  sayable := by
    rintro c es ⟨⟩
  pending := by
    rintro c text ⟨⟩
  accepted := by
    rintro c ⟨⟩
  heard := fun _ => List.Sublist.refl _
  remembers := KvmClipboard.remembers_newLog .server clipboard
  inOrder := inOrder_newLog clipboard
  queued := fun _ h => absurd h List.not_mem_nil
  applied := by
    rintro text ⟨⟩

section Invariant

variable {k : Settings} {initial : List String} {h : Hub C Ip}

/-- Whoever was in the registry was let in. -/
theorem Relays.admitted (hr : Relays k initial h) {c : C}
    (hreg : (h.world.conns c).registered = true) :
    Admitted k initial h.world c := by
  obtain ⟨-, -, hacc⟩ := (hr.secure.conn c).history hreg
  obtain ⟨req, hreq, hfp⟩ := hr.accepted c hacc
  exact ⟨hreg, req, hreq, hr.secure.paired _ hfp⟩

/-- A handler that is about to queue a text has it from a client that was let
    in. -/
theorem Relays.offered (hr : Relays k initial h) {c : C} {text : String}
    (hp : (h.world.conns c).phase = .clipboard text)
    (hsync : k.clipboardSync = true)
    (hlen : (ByteCodec.utf8 text).length ≤ KvmControl.MAX_CLIPBOARD_BYTES) :
    Offered k initial h.world text := by
  refine ⟨hsync, hlen, c, hr.admitted ?_, hr.pending c text hp⟩
  refine (hr.secure.conn c).registered ?_
  rw [hp]
  rfl

variable [DecidableEq C]

/-- What a broadcast of the watcher does to a connection. -/
theorem tell_conns (w : World C Ip) (out : Option Content) (c : C) :
    ∃ es, (tell w out).conns c
        = { w.conns c with sent := (w.conns c).sent ++ es } ∧
      (copies es).Sublist (out.toList.map Content.text) := by
  cases out with
  | none => exact ⟨[], by rw [List.append_nil]; rfl, List.Sublist.refl _⟩
  | some x =>
      by_cases hin : c ∈ w.registry
      · exact ⟨[.clipboardSet x.text], if_pos hin, List.Sublist.refl _⟩
      · refine ⟨[], ?_, List.nil_sublist _⟩
        rw [List.append_nil]
        exact if_neg hin

theorem tell_fields (w : World C Ip) (out : Option Content) :
    (tell w out).clipboardQueue = w.clipboardQueue ∧
      (tell w out).pairedDevices = w.pairedDevices := by
  cases out <;> exact ⟨rfl, rfl⟩

theorem secure_tell {w : World C Ip} (hsec : Secure k initial w)
    (out : Option Content) : Secure k initial (tell w out) := by
  cases out with
  | none => exact hsec
  | some x => exact KvmControl.secure_broadcast hsec _

/-- **A MOVE OF THE WATCHER**. -/
theorem relays_watch {m : KvmClipboard.Move} {v : KvmClipboard.Watcher}
    {out : Option Content} (hr : Relays k initial h)
    (hm : ofControl m = false)
    (hok : KvmClipboard.KeepsMemory .server h.log m)
    (hs : KvmClipboard.act .server h.log.watcher m = some (v, out)) :
    Relays k initial
      ⟨tell { h.world with clipboardQueue := v.queue } out,
        ⟨v, h.log.sent ++ out.toList⟩⟩ := by
  have hmove := moves_act hm hs
  have htell := tell_conns { h.world with clipboardQueue := v.queue } out
  obtain ⟨hqueue, hpaired⟩ :=
    tell_fields { h.world with clipboardQueue := v.queue } out
  have hsec : Secure k initial { h.world with clipboardQueue := v.queue } :=
    ⟨hr.secure.conn, hr.secure.paired⟩
  have hrem : Remembers ⟨v, h.log.sent ++ out.toList⟩ := by
    refine KvmClipboard.remembers_step h.log m _ hr.remembers hok ?_
    exact Option.map_eq_some_iff.mpr ⟨(v, out), hs, rfl⟩
  have hlater : Later h.world
      (tell { h.world with clipboardQueue := v.queue } out) := by
    intro c
    obtain ⟨es, hes, -⟩ := htell c
    rw [hes]
    exact ⟨List.prefix_refl _, id⟩
  have hsub : v.queue ⊆ h.world.clipboardQueue := by
    rw [hr.queue]
    exact hmove.queue
  refine ⟨secure_tell hsec out, hqueue, ?_, ?_, ?_, ?_, hrem,
    inOrder_moves hr.inOrder hr.remembers hmove, ?_, ?_⟩
  · intro c
    obtain ⟨es, hes, -⟩ := htell c
    rw [hes]
    exact hr.sayable c
  · intro c
    obtain ⟨es, hes, -⟩ := htell c
    rw [hes]
    exact hr.pending c
  · intro c
    obtain ⟨es, hes, -⟩ := htell c
    rw [hes, hpaired]
    exact hr.accepted c
  · intro c
    obtain ⟨es, hes, hsent⟩ := htell c
    rw [hes, List.map_append]
    show (copies (_ ++ es)).Sublist _
    rw [copies_append]
    exact (hr.heard c).append hsent
  · intro text htext
    rw [hqueue] at htext
    exact (hr.queued text (hsub htext)).later hlater
  · intro text hclip
    refine Offered.later ?_ hlater
    cases hmove with
    | rest hsame hplaced hqueue =>
        rw [hsame] at hclip
        exact hr.applied text hclip
    | place text' hnew hplaced hqueue =>
        rw [hnew] at hclip
        cases hclip
    | apply text' htext hnew hplaced hqueue =>
        rw [hnew] at hclip
        rw [← (Content.mk.inj hclip).1]
        exact hr.queued text' (hr.queue ▸ htext)
    | send hnew hsame hplaced hqueue =>
        rw [hsame] at hclip
        exact hr.applied text hclip

variable [DecidableEq Ip] {ip : C → Ip}

/-- **A STEP OF THE CONTROL CHANNEL**. -/
theorem relays_control {a : KvmControl.Action C} {w' : World C Ip}
    (hr : Relays k initial h) (ha : ofWatcher a = false)
    (hs : KvmControl.step k ip h.world a = some w') :
    Relays k initial ⟨w', { h.log with
      watcher := { h.log.watcher with queue := w'.clipboardQueue } }⟩ := by
  have hgo := goes_step ha hr.sayable hs
  have hlater : Later h.world w' :=
    fun c => ⟨(hgo c).received, (hgo c).registered⟩
  refine ⟨KvmControl.secure_step _ a w' hr.secure hs, rfl,
    sayable_step plain_toggle hr.sayable hs, ?_, ?_, ?_,
    hr.remembers.keep rfl rfl (fun _ hnew => hnew) id,
    ⟨hr.inOrder.sent, hr.inOrder.latest⟩, ?_,
    fun text hclip => (hr.applied text hclip).later hlater⟩
  · intro c text hp
    rcases (hgo c).pending text hp with hold | hnew
    · exact (hgo c).received.subset (hr.pending c text hold)
    · exact hnew
  · intro c hacc
    have hold : ∃ req, Requested (h.world.conns c).received req ∧
        req.fingerprint ∈ h.world.pairedDevices := by
      rcases (hgo c).accepted hacc with hold | ⟨req, hp⟩
      · exact hr.accepted c hold
      · have hphase := (hr.secure.conn c).phase
        rw [KvmControl.PhaseOk, hp] at hphase
        exact ⟨req, hphase, (hr.secure.conn c).accepting req hp⟩
    obtain ⟨req, hreq, hfp⟩ := hold
    obtain ⟨es, hes⟩ := (hgo c).received
    refine ⟨req, ?_, KvmPairOnce.step_remembers hs _ hfp⟩
    rw [← hes]
    exact hreq.append es
  · intro c
    rw [(hgo c).sent]
    exact hr.heard c
  · intro text htext
    refine Offered.later ?_ hlater
    rcases queue_step ha hs with hsame | ⟨c, text', hp, hsync, hlen, hmore⟩
    · rw [hsame] at htext
      exact hr.queued text htext
    · rw [hmore] at htext
      rcases List.mem_append.mp htext with hold | hnew
      · exact hr.queued text hold
      · rw [List.mem_singleton.mp hnew]
        exact hr.offered hp hsync hlen

theorem relays_step (h : Hub C Ip) (a : Action C) (h' : Hub C Ip)
    (hr : Relays k initial h) (hok : Retains h a)
    (hs : step k ip h a = some h') : Relays k initial h' := by
  cases a with
  | control a =>
      simp only [step] at hs
      split at hs
      · cases hs
      · rename_i ha
        obtain ⟨w', hw, rfl⟩ := Option.map_eq_some_iff.mp hs
        exact relays_control hr (Bool.not_eq_true _ ▸ ha) hw
  | watch m =>
      simp only [step] at hs
      split at hs
      · cases hs
      · rename_i hm
        obtain ⟨next, hnext, rfl⟩ := Option.map_eq_some_iff.mp hs
        rw [Bool.or_eq_true, not_or] at hm
        exact relays_watch hr (Bool.not_eq_true _ ▸ hm.1) hok hnext

end Invariant

/-! ## The promise -/

section Promise

variable {k : Settings} {initial : List String} {h : Hub C Ip}

/-- Whoever was never registered is sent no copy. -/
theorem Relays.registered (hr : Relays k initial h) {c : C}
    (hc : copies (h.world.conns c).sent ≠ []) :
    (h.world.conns c).registered = true := by
  by_contra hreg
  refine hc (List.filterMap_eq_nil_iff.mpr ?_)
  intro e he
  have hquiet := (hr.secure.conn c).quiet (Bool.not_eq_true _ ▸ hreg) e he
  cases e with
  | clipboardSet text => cases hquiet
  | _ => rfl

/-- Some of what was sent, read as copies of the user. -/
theorem picks_of_sent {placements : List String} {cs : List Content}
    (hplaced : ∀ c ∈ cs, ∃ i, c.placement = some i ∧
      placements[i]? = some c.text) :
    (cs.map Content.text).map some
      = (cs.filterMap Content.placement).map (placements[·]?) := by
  induction cs with
  | nil => rfl
  | cons c cs ih =>
      obtain ⟨i, hi, htext⟩ := hplaced c (List.mem_cons_self ..)
      rw [List.filterMap_cons_some hi, List.map_cons, List.map_cons,
        List.map_cons, htext,
        ih fun c' hc' => hplaced c' (List.mem_cons_of_mem c hc')]

theorem Relays.promised (hr : Relays k initial h) : Private k initial h where
  toClients := by
    intro c
    obtain ⟨cs, hsub, hcs⟩ := List.sublist_map_iff.mp (hr.heard c)
    refine ⟨cs.filterMap Content.placement,
      hr.inOrder.sent.sublist (hsub.filterMap _), ?_⟩
    rw [hcs]
    exact picks_of_sent fun c' hc' =>
      hr.remembers.noEcho.placed c' (hsub.subset hc')
  onlyAdmitted := fun _ hc => hr.admitted (hr.registered hc)
  toServer := hr.applied

end Promise

/-- **NO CLIENT READS ANOTHER'S CLIPBOARD**: however many clients come and go,
    whatever they copy and whenever the watcher looks, each client is sent
    only what the server's user has copied, in that order and no copy twice,
    and only after it was let in; what is put on the server's clipboard was
    sent by a client that was let in.  This holds all along every run in
    which no `set_text` fails that would make the watcher forget. -/
theorem clipboards_stay_apart {C Ip : Type} [DecidableEq C] [DecidableEq Ip]
    (k : Settings) (ip : C → Ip) (initial : List String) (enabled : Bool)
    (clipboard : String) (run : List (Action C))
    (hrun : Guarded (step k ip) Retains
      (Hub.start C Ip initial enabled clipboard) run) :
    Always (step k ip) (Private k initial)
      (Hub.start C Ip initial enabled clipboard) run :=
  always_of_guarded (fun _ h => h.promised) relays_step run _
    (relays_start k initial enabled clipboard) hrun

theorem retains_of_ne [DecidableEq C] [DecidableEq Ip] {h : Hub C Ip}
    {a : Action C} (ha : a ≠ .watch (.recv false)) : Retains h a := by
  cases a with
  | control a => trivial
  | watch m =>
      cases m with
      | recv ok =>
          cases ok with
          | true => trivial
          | false => exact absurd rfl ha
      | _ => trivial

/-- A client pairs, and its handler takes so many steps after that. -/
def pairing (c : Fin 2) (steps : Nat) : List (KvmControl.Action (Fin 2)) :=
  [.receive c (.hello "laptop" PROTOCOL_VERSION ⟨true, true, false⟩),
    .advance c,
    .receive c (.pairRequest (Vector.replicate 16 0) "AA"
      KvmAuth.digest123456)] ++ List.replicate steps (.advance c)

/-- Two clients pair, the first copies a text, and then the server's user
    does. -/
def twoCopies : List (Action (Fin 2)) :=
  (pairing 0 7 ++ pairing 1 4).map Action.control ++
    [.watch (.start true), .control (.receive 0 (.clipboardSet "mine")),
      .control (.advance 0), .watch (.recv true), .watch .drained,
      .watch (.poll true true), .watch (.place "ours"), .watch .drained,
      .watch (.poll true true)]

/-- The text of the first client is on the server's clipboard and goes to
    nobody; the copy of the server's user goes to both. -/
theorem clipboards_stay_apart_two :
    Always (step KvmControl.settings fun _ => ())
        (Private KvmControl.settings [])
        (Hub.start (Fin 2) Unit [] false "") twoCopies ∧
      (exec (step KvmControl.settings fun _ => ())
        (Hub.start (Fin 2) Unit [] false "") twoCopies).map
          (fun h => (copies (h.world.conns 0).sent,
            copies (h.world.conns 1).sent))
        = some (["ours"], ["ours"]) := by
  refine ⟨clipboards_stay_apart _ _ [] false "" twoCopies ?_, by decide⟩
  refine guarded_of_forall twoCopies _ ?_
  intro a ha h
  refine retains_of_ne ?_
  rintro rfl
  exact absurd ha (by decide)

end KvmClipboardHub
