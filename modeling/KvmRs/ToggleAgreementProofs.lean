import KvmRs.ForwardingProofs

/-! # What the clients believe about forwarding

    Every store to `forwarding_enabled`, by the hotkey or by a client's
    handler, is announced to all clients with `ToggleForward`.  Store and
    announcement are separate steps, and the hotkey's announcement takes the
    way through the capture channel, so two announcements can be made in the
    other order than their stores.

    The announcements still to be made are those in `due`.  As long as
    none is made that leaves only outdated ones behind (`LatestStaysDue`), the
    last announcement is the flag's value whenever all are made; otherwise
    every client ends up with the wrong value. -/

namespace KvmToggle

open KvmEnvelope KvmKeymap KvmCapture KvmForwarding Transition

variable {C : Type}

/-- Everything sent to a client, delivered or not. -/
def sent (w : World C) (c : C) : List Envelope := w.received c ++ w.wire c

/-- An announcement is still due. -/
def ToggleIn (es : List Envelope) : Prop := ∃ on, .toggleForward on ∈ es

/-- If any announcement is still due, one of the current value is. -/
def LatestDue (enabled : Bool) (due : List Envelope) : Prop :=
  ToggleIn due → .toggleForward enabled ∈ due

/-- The envelope that the action broadcasts. -/
def broadcastOf (w : World C) : Action C → Option Envelope
  | .broadcast => w.forwarder.head?
  | .handlerBroadcast c => (handlerPending (w.handler c)).head?
  | _ => none

/-- An announcement is made only if it leaves none behind, or one of the
    current value among them. -/
def LatestStaysDue (w : World C) (a : Action C) : Prop :=
  ∀ on, broadcastOf w a = some (.toggleForward on) →
    LatestDue w.enabled (w.due.erase (.toggleForward on))

/-- The action stores to the flag. -/
def Toggles (w : World C) : Action C → Prop
  | .store _ => True
  | .decide => ∃ en r ev, w.capturePc = .loaded en r ev ∧
      (processEvent r en w.capture ev).2.toggled ≠ none
  | _ => False

/-- No toggle is in progress and the capture channel is empty. -/
structure Idle (w : World C) : Prop where
  capture : ∀ msgs, w.capturePc = .sending msgs →
    ∀ on, .forwardingToggled on ∉ msgs
  channel : w.captureChannel = []
  forwarder : ¬ ToggleIn w.forwarder
  handler : ∀ c, ¬ ToggleIn (handlerPending (w.handler c))

/-! ## What is due -/

section Counting

variable [Fintype C]

/-- How many broadcasts of an envelope are in flight. -/
def pendingOf (w : World C) (e : Envelope) : Nat :=
  (capturePending w.capture w.capturePc).count e
    + (w.captureChannel.flatMap forwarderBroadcasts).count e
    + w.forwarder.count e
    + ∑ c, (handlerPending (w.handler c)).count e

/-- One handler moves: its share of what is in flight is replaced. -/
theorem pendingOf_handler [DecidableEq C] (w : World C) (c : C)
    (pc : HandlerPc) (e : Envelope) :
    pendingOf { w with handler := Function.update w.handler c pc } e
        + (handlerPending (w.handler c)).count e
      = pendingOf w e + (handlerPending pc).count e := by
  have hsum := sum_update (fun _ h => (handlerPending h).count e)
    w.handler c pc
  simp only [pendingOf]
  omega

/-- What a step does to the flag, to what is sent and to what is due. -/
inductive Effect (w : World C) (a : Action C) (w' : World C) : Prop
  /-- Neither a store nor a broadcast; perhaps some input falls due. -/
  | quiet (es : List Envelope) (made : broadcastOf w a = none)
      (no : ¬ Toggles w a) (inputs : ¬ ToggleIn es)
      (enabled : w'.enabled = w.enabled) (sent : sent w' = sent w)
      (due : w'.due = w.due ++ es)
      (pending : ∀ e, pendingOf w' e = pendingOf w e + es.count e)
  | store (on : Bool) (made : broadcastOf w a = none)
      (enabled : w'.enabled = on) (sent : sent w' = sent w)
      (due : w'.due = w.due ++ forwarderBroadcasts (.forwardingToggled on))
      (pending : ∀ e, pendingOf w' e = pendingOf w e
        + (forwarderBroadcasts (.forwardingToggled on)).count e)
  | broadcast (e : Envelope) (made : broadcastOf w a = some e)
      (no : ¬ Toggles w a) (enabled : w'.enabled = w.enabled)
      (sent : ∀ c, sent w' c = sent w c ++ [e])
      (due : w'.due = w.due.erase e)
      (pending : ∀ x, pendingOf w x = pendingOf w' x + [e].count x)

theorem toggleIn_append {es fs : List Envelope} :
    ToggleIn (es ++ fs) ↔ ToggleIn es ∨ ToggleIn fs := by
  constructor
  · rintro ⟨on, h⟩
    rcases List.mem_append.mp h with h | h
    · exact Or.inl ⟨on, h⟩
    · exact Or.inr ⟨on, h⟩
  · rintro (⟨on, h⟩ | ⟨on, h⟩)
    · exact ⟨on, List.mem_append_left _ h⟩
    · exact ⟨on, List.mem_append_right _ h⟩

theorem not_toggleIn_nil : ¬ ToggleIn [] := by
  rintro ⟨on, hmem⟩
  exact List.not_mem_nil hmem

/-- What `process_event` forwards is input. -/
theorem forwarded_no_toggle (o : ProcessOutcome) : ¬ ToggleIn (forwarded o) := by
  rintro ⟨on, h⟩
  cases hf : o.forward with
  | none => simp [forwarded, hf] at h
  | some e => simp [forwarded, hf] at h

theorem effect_step [DecidableEq C] {p : Platform} {w w' : World C}
    {a : Action C} (hs : step p w a = some w') :
    Effect w a w' := by
  cases a with
  | load r ev =>
      simp only [step] at hs
      split at hs
      · rename_i hpc
        rw [← Option.some.inj hs]
        refine .quiet _ rfl id (forwarded_no_toggle _) rfl rfl rfl ?_
        intro e
        simp only [pendingOf, hpc, capturePending, List.flatMap_nil,
          List.count_nil]
        omega
      · cases hs
  | decide =>
      simp only [step] at hs
      split at hs
      · rename_i en r ev hpc
        rw [← Option.some.inj hs]
        have hcap : ∀ e, pendingOf { w with
            enabled := (processEvent r en w.capture ev).2.toggled.getD w.enabled
            capture := (processEvent r en w.capture ev).1
            capturePc :=
              .sending (captureEvents (processEvent r en w.capture ev).2)
            due := w.due
              ++ toggledBroadcasts (processEvent r en w.capture ev).2 } e
            = pendingOf w e
              + (toggledBroadcasts (processEvent r en w.capture ev).2).count e
            := by
          intro e
          simp only [pendingOf, hpc, capturePending, captureEvents_broadcasts,
            List.count_append]
          omega
        -- only the chord makes this step a store
        cases ht : (processEvent r en w.capture ev).2.toggled with
        | none =>
            have hnil : toggledBroadcasts (processEvent r en w.capture ev).2
                = [] := by simp [toggledBroadcasts, ht]
            rw [ht, hnil] at hcap
            rw [hnil]
            refine .quiet [] rfl ?_ not_toggleIn_nil rfl rfl rfl hcap
            rintro ⟨en', r', ev', hpc', hno⟩
            rw [hpc] at hpc'
            obtain ⟨rfl, rfl, rfl⟩ := CapturePc.loaded.inj hpc'
            exact hno ht
        | some on =>
            have hon : toggledBroadcasts (processEvent r en w.capture ev).2
                = forwarderBroadcasts (.forwardingToggled on) := by
              simp [toggledBroadcasts, ht]
            rw [ht, hon] at hcap
            rw [hon]
            exact .store on rfl rfl rfl rfl hcap
      · cases hs
  | send =>
      simp only [step] at hs
      split at hs
      · rename_i m ms hpc
        rw [← Option.some.inj hs]
        refine .quiet [] rfl id not_toggleIn_nil rfl rfl
          (List.append_nil _).symm ?_
        intro e
        simp only [pendingOf, hpc, capturePending, List.flatMap_cons,
          List.flatMap_append, List.flatMap_nil, List.append_nil,
          List.count_append, List.count_nil]
        omega
      · cases hs
  | recv =>
      simp only [step] at hs
      split at hs
      · rename_i m ms hf hch
        rw [← Option.some.inj hs]
        refine .quiet [] rfl id not_toggleIn_nil rfl rfl
          (List.append_nil _).symm ?_
        intro e
        simp only [pendingOf, hf, hch, List.flatMap_cons, List.count_append,
          List.count_nil]
        omega
      · cases hs
  | broadcast =>
      simp only [step] at hs
      split at hs
      · rename_i e es hf
        rw [← Option.some.inj hs]
        refine .broadcast e ?_ id rfl ?_ rfl ?_
        · simp only [broadcastOf, hf, List.head?_cons]
        · exact fun c => (List.append_assoc _ _ _).symm
        · intro x
          simp only [pendingOf, hf, World.sendAll, List.count_cons,
            List.count_nil]
          omega
      · cases hs
  | toggle c desired =>
      simp only [step] at hs
      split at hs
      · rename_i hh
        split at hs
        · rw [← Option.some.inj hs]
          refine .quiet [] rfl id not_toggleIn_nil rfl rfl
            (List.append_nil _).symm ?_
          intro e
          have hmove := pendingOf_handler w c (.toStore desired) e
          simp only [hh, handlerPending, List.count_nil] at hmove ⊢
          omega
        · rw [← Option.some.inj hs]
          exact .quiet [] rfl id not_toggleIn_nil rfl rfl
            (List.append_nil _).symm (fun _ => rfl)
      · cases hs
  | store c =>
      simp only [step] at hs
      split at hs
      · rename_i desired hh
        rw [← Option.some.inj hs]
        refine .store desired rfl rfl rfl rfl ?_
        intro e
        have hmove := pendingOf_handler w c
          (.toBroadcast (forwarderBroadcasts (.forwardingToggled desired))) e
        simp only [pendingOf, hh, handlerPending, List.count_nil] at hmove ⊢
        omega
      · cases hs
  | handlerBroadcast c =>
      simp only [step] at hs
      split at hs
      · rename_i e es hh
        rw [← Option.some.inj hs]
        refine .broadcast e ?_ id rfl ?_ rfl ?_
        · simp only [broadcastOf, hh, handlerPending, List.head?_cons]
        · exact fun c => (List.append_assoc _ _ _).symm
        · intro x
          have hmove := pendingOf_handler w c (.toBroadcast es) x
          simp only [pendingOf, hh, handlerPending, World.sendAll,
            List.count_cons, List.count_nil] at hmove ⊢
          omega
      · cases hs
  | deliver c =>
      simp only [step] at hs
      split at hs
      · rename_i e es hw
        rw [← Option.some.inj hs]
        refine .quiet [] rfl id not_toggleIn_nil rfl ?_
          (List.append_nil _).symm (fun _ => rfl)
        funext c'
        by_cases hc : c' = c
        · subst hc
          simp only [sent, Function.update_self, hw]
          rw [List.append_assoc, List.singleton_append]
        · simp only [sent, Function.update_of_ne hc]
      · cases hs

/-! ## The invariant -/

/-- What is due is what is in flight, the current value is among it, and
    once nothing is due the clients have the current value. -/
structure Announced (w : World C) : Prop where
  count : ∀ e, w.due.count e = pendingOf w e
  latest : LatestDue w.enabled w.due
  told : ¬ ToggleIn w.due → ∀ c, lastToggle none (sent w c) = none ∨
    lastToggle none (sent w c) = some w.enabled

/-- A toggle has happened: it is announced or due to be. -/
def Heard (w : World C) : Prop :=
  ToggleIn w.due ∨ ∀ c, lastToggle none (sent w c) ≠ none

theorem announced_start (enabled : Bool) (hotkey : Option HotkeyChord) :
    Announced (World.start C enabled hotkey) where
  count := by
    intro e
    have hzero : ∑ _c : C, (handlerPending (.toBroadcast [])).count e = 0 :=
      Finset.sum_const_zero
    show 0 = 0 + 0 + 0 + ∑ _c : C, (handlerPending (.toBroadcast [])).count e
    rw [hzero]
  latest := fun h => absurd h not_toggleIn_nil
  told := fun _ _ => Or.inl rfl

theorem lastToggle_concat (es : List Envelope) (e : Envelope) :
    lastToggle none (es ++ [e]) = toggleAfter (lastToggle none es) e := by
  rw [lastToggle_append]
  rfl

/-- The announcement of a toggle. -/
theorem toggle_mem_broadcasts (on : Bool) :
    .toggleForward on ∈ forwarderBroadcasts (.forwardingToggled on) := by
  cases on <;> simp [forwarderBroadcasts]

/-- Either an envelope announces a value or it changes nobody's mind. -/
theorem toggle_or_not (e : Envelope) :
    (∃ on, e = .toggleForward on) ∨
      ((∀ on, .toggleForward on ≠ e) ∧ ∀ m, toggleAfter m e = m) := by
  cases e with
  | toggleForward on => exact Or.inl ⟨on, rfl⟩
  | _ => exact Or.inr ⟨fun _ h => (nomatch h), fun _ => rfl⟩

theorem ToggleIn.of_erase {es : List Envelope} {e : Envelope}
    (h : ToggleIn (es.erase e)) : ToggleIn es := by
  obtain ⟨on, hmem⟩ := h
  exact ⟨on, List.mem_of_mem_erase hmem⟩

theorem ToggleIn.erase {es : List Envelope} {e : Envelope}
    (he : ∀ on, .toggleForward on ≠ e) (h : ToggleIn es) :
    ToggleIn (es.erase e) := by
  obtain ⟨on, hmem⟩ := h
  exact ⟨on, (List.mem_erase_of_ne (he on)).mpr hmem⟩

/-- **ONE STEP**: an announcement that leaves the current value due, if any,
    keeps the invariant, and so does every other step. -/
theorem announced_step [DecidableEq C] {p : Platform} (w : World C)
    (a : Action C) (w' : World C) (h : Announced w)
    (hok : LatestStaysDue w a) (hs : step p w a = some w') :
    Announced w' := by
  cases effect_step hs with
  | quiet es made no inputs enabled sent due pending =>
      have hiff : ToggleIn (w.due ++ es) ↔ ToggleIn w.due := by
        rw [toggleIn_append]
        exact or_iff_left inputs
      refine ⟨?_, ?_, ?_⟩
      · intro e
        rw [due, List.count_append, h.count, pending]
      · rw [due, enabled, LatestDue, hiff]
        exact fun ht => List.mem_append_left _ (h.latest ht)
      · rw [due, enabled, sent, hiff]
        exact h.told
  | store on made enabled sent due pending =>
      have hmem : .toggleForward on ∈ w'.due := by
        rw [due]
        exact List.mem_append_right _ (toggle_mem_broadcasts on)
      refine ⟨?_, ?_, ?_⟩
      · intro e
        rw [due, List.count_append, h.count, pending]
      · rw [enabled]
        exact fun _ => hmem
      · exact fun hno => absurd ⟨on, hmem⟩ hno
  | broadcast e made no enabled sent due pending =>
      -- what is broadcast was in flight, so it was due
      have hdue : e ∈ w.due := by
        rw [← List.count_pos_iff, h.count, pending, List.count_singleton_self]
        omega
      refine ⟨?_, ?_, ?_⟩
      · intro x
        have hx := h.count x
        rw [pending] at hx
        rw [due, List.count_erase, hx, List.count_singleton]
        omega
      · rw [due, enabled]
        rcases toggle_or_not e with ⟨on, rfl⟩ | ⟨hne, -⟩
        · exact hok on made
        · intro ht
          exact (List.mem_erase_of_ne (hne _)).mpr (h.latest ht.of_erase)
      · intro hnone c
        rw [due] at hnone
        rw [sent c, lastToggle_concat, enabled]
        rcases toggle_or_not e with ⟨on, rfl⟩ | ⟨hne, hsame⟩
        · -- the last announcement: the current value is not left behind
          have hcur := h.latest ⟨on, hdue⟩
          by_cases hon : on = w.enabled
          · exact Or.inr (by rw [hon]; rfl)
          · refine absurd ⟨w.enabled, (List.mem_erase_of_ne ?_).mpr hcur⟩ hnone
            exact fun heq => hon (Envelope.toggleForward.inj heq).symm
        · rw [hsame]
          exact h.told (fun ht => hnone (ht.erase hne)) c

/-- A store is heard of. -/
theorem heard_toggle [DecidableEq C] {p : Platform} (w : World C)
    (a : Action C) (w' : World C) (ht : Toggles w a)
    (hs : step p w a = some w') : Heard w' := by
  cases effect_step hs with
  | quiet es made no => exact absurd ht no
  | store on made enabled sent due =>
      refine Or.inl ⟨on, ?_⟩
      rw [due]
      exact List.mem_append_right _ (toggle_mem_broadcasts on)
  | broadcast e made no => exact absurd ht no

/-- What was heard of stays heard of. -/
theorem heard_step [DecidableEq C] {p : Platform} (w : World C)
    (a : Action C) (w' : World C) (h : Heard w)
    (hs : step p w a = some w') : Heard w' := by
  cases effect_step hs with
  | quiet es made no inputs enabled sent due =>
      rw [Heard, due, sent]
      exact h.imp_left fun ht => toggleIn_append.mpr (Or.inl ht)
  | store on made enabled sent due =>
      rw [Heard, due, sent]
      exact h.imp_left fun ht => toggleIn_append.mpr (Or.inl ht)
  | broadcast e made no enabled sent due =>
      rcases toggle_or_not e with ⟨on, rfl⟩ | ⟨hne, hsame⟩
      · refine Or.inr fun c => ?_
        rw [sent c, lastToggle_concat]
        exact fun hnone => nomatch hnone
      · rcases h with ht | hall
        · refine Or.inl ?_
          rw [due]
          exact ht.erase hne
        · refine Or.inr fun c => ?_
          rw [sent c, lastToggle_concat, hsame]
          exact hall c

/-- A message of the capture channel that is no toggle announces nothing. -/
theorem no_toggle_broadcasts {msgs : List CaptureEvent}
    (h : ∀ on, .forwardingToggled on ∉ msgs) :
    ¬ ToggleIn (msgs.flatMap forwarderBroadcasts) := by
  rintro ⟨on, hmem⟩
  obtain ⟨m, hm, hin⟩ := List.mem_flatMap.mp hmem
  cases m with
  | input ev => simp [forwarderBroadcasts] at hin
  | forwardingToggled on' => exact h on' hm

/-- Where no toggle is in progress, no announcement is due. -/
theorem Announced.idle {w : World C} (h : Announced w) (hidle : Idle w) :
    ¬ ToggleIn w.due := by
  rintro ⟨on, hmem⟩
  have hzero : ∀ {es : List Envelope}, ¬ ToggleIn es →
      es.count (.toggleForward on) = 0 :=
    fun hno => List.count_eq_zero.mpr fun hin => hno ⟨on, hin⟩
  have hcap : ¬ ToggleIn (capturePending w.capture w.capturePc) := by
    cases hpc : w.capturePc with
    | loaded en r ev => exact forwarded_no_toggle _
    | sending msgs => exact no_toggle_broadcasts (hidle.capture msgs hpc)
  have hsum : ∑ c, (handlerPending (w.handler c)).count (.toggleForward on)
      = 0 := Finset.sum_eq_zero fun c _ => hzero (hidle.handler c)
  -- nobody has one in flight, and what is due is what is in flight
  have hcount := h.count (.toggleForward on)
  rw [pendingOf, hidle.channel, hzero hcap, hzero hidle.forwarder, hsum,
    List.flatMap_nil, List.count_nil] at hcount
  have hpos := List.count_pos_iff.mpr hmem
  omega

/-! ## Whole runs -/

/-- **THE CLIENTS AGREE WITH THE FLAG**: with any clients, any chord and any
    interleaving in which no announcement leaves only outdated ones behind,
    the last `ToggleForward` sent to each client is the flag's value whenever
    a toggle has happened and none is in progress. -/
theorem clients_agree_with_flag [DecidableEq C] (p : Platform)
    (enabled : Bool) (hotkey : Option HotkeyChord) (acts : List (Action C))
    (w : World C)
    (hrun : exec (step p) (World.start C enabled hotkey) acts = some w)
    (hok : Guarded (step p) LatestStaysDue (World.start C enabled hotkey) acts)
    (htoggled : Happens (step p) Toggles (World.start C enabled hotkey) acts)
    (hidle : Idle w) :
    ∀ c, lastToggle none (sent w c) = some w.enabled := by
  have hstart : Announced (World.start C enabled hotkey) :=
    announced_start enabled hotkey
  have hann : Announced w :=
    invariant_exec announced_step acts _ w hstart hok hrun
  have hheard : Heard w := by
    refine established_exec announced_step ?_ ?_ acts _ w hstart hok
      (Or.inr htoggled) hrun
    · exact fun s a s' _ _ ht hs => heard_toggle s a s' ht hs
    · exact fun s a s' _ _ hh hs => heard_step s a s' hh hs
  have hnone := hann.idle hidle
  intro c
  rcases hann.told hnone c with hno | hyes
  · rcases hheard with ht | hall
    · exact absurd ht hnone
    · exact absurd hno (hall c)
  · exact hyes

end Counting

/-! ## Two clients -/

instance (es : List Envelope) : Decidable (ToggleIn es) :=
  inferInstanceAs (Decidable (∃ on, .toggleForward on ∈ es))

instance (enabled : Bool) (due : List Envelope) :
    Decidable (LatestDue enabled due) :=
  inferInstanceAs (Decidable (_ → _))

instance (w : World C) (a : Action C) : Decidable (LatestStaysDue w a) :=
  inferInstanceAs (Decidable (∀ on,
    broadcastOf w a = some (.toggleForward on) →
      LatestDue w.enabled (w.due.erase (.toggleForward on))))

/-- Client 0 switches forwarding on, and client 1 off after that has been
    announced. -/
def inTurn : List (Action (Fin 2)) :=
  [.toggle 0 true, .store 0, .handlerBroadcast 0,
    .toggle 1 false, .store 1, .handlerBroadcast 1, .handlerBroadcast 1]

/-- Client 1 switches forwarding off before client 0's handler has announced
    that it is on. -/
def crossed : List (Action (Fin 2)) :=
  [.toggle 0 true, .store 0, .toggle 1 false, .store 1,
    .handlerBroadcast 1, .handlerBroadcast 1, .handlerBroadcast 0]

/-- A capture thread that has nothing to send is in no toggle. -/
theorem idle_of_nothing_to_send {w : World C}
    (hcap : w.capturePc = .sending []) (hch : w.captureChannel = [])
    (hfw : ¬ ToggleIn w.forwarder)
    (hh : ∀ c, ¬ ToggleIn (handlerPending (w.handler c))) : Idle w := by
  refine ⟨?_, hch, hfw, hh⟩
  intro msgs hmsgs on
  rw [hcap] at hmsgs
  rw [← CapturePc.sending.inj hmsgs]
  exact List.not_mem_nil

theorem clients_agree_with_flag_in_turn :
    ∃ w : World (Fin 2),
      exec (step .linux) (World.start (Fin 2) false none) inTurn = some w ∧
      w.enabled = false ∧ lastToggle none (sent w 0) = some false := by
  refine ⟨_, rfl, rfl, ?_⟩
  exact clients_agree_with_flag .linux false none inTurn _ rfl (by decide)
    (Or.inr (Or.inl trivial))
    (idle_of_nothing_to_send rfl rfl (by decide) (by decide)) 0

/-- **CROSSED ANNOUNCEMENTS**: forwarding is off, nothing is in progress, and
    the last announcement to both clients says that it is on. -/
theorem crossed_announcements :
    ¬ ∀ (acts : List (Action (Fin 2))) (w : World (Fin 2)),
      exec (step .linux) (World.start (Fin 2) false none) acts = some w →
      Happens (step .linux) Toggles (World.start (Fin 2) false none) acts →
      Idle w → ∀ c, lastToggle none (sent w c) = some w.enabled := by
  intro hall
  have hwrong := hall crossed _ rfl (Or.inr (Or.inl trivial))
    (idle_of_nothing_to_send rfl rfl (by decide) (by decide)) 0
  exact absurd hwrong (by decide)

end KvmToggle
