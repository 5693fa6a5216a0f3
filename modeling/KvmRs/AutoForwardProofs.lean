import KvmRs.ControlProofs

/-! # `auto_forward` against the registry

    With `auto_forward` set, the handler that finds the registry empty when it
    enters turns forwarding on, and the one that leaves it empty turns it off.
    Neither holds the registry while it does so: the config is read in
    between, and other handlers come and go meanwhile.

    A first client is still in the registry when it turns forwarding on, so
    its swap is never late.  A last client is not: by the time it turns
    forwarding off, a new client may have entered and turned it on.  If no
    last client is overtaken in this way (`NotOvertaken`), the flag follows
    the registry in every run (`auto_forward_follows_registry`); one
    overtaken last client leaves a connected client without forwarding
    (`last_client_overtaken`). -/

namespace KvmAutoForward

open KvmEnvelope KvmAuth KvmControl Transition

variable {C Ip : Type}

/-- The handler is between a registry update and the swap that goes with
    it. -/
def between : Phase → Bool
  | .firstClient => true
  | .lastClient => true
  | _ => false

/-- No handler is between its registry update and its swap. -/
def Settled (w : World C Ip) : Prop := ∀ c, between (w.conns c).phase = false

/-- The flag is on exactly when someone is registered. -/
def FollowsRegistry (w : World C Ip) : Prop :=
  w.forwardingEnabled = true ↔ w.registry.Nonempty

/-- Neither the hotkey nor a client stores to the flag in this step. -/
def NoToggle (w : World C Ip) : Action C → Prop
  | .hotkey _ => False
  | .advance c => ∀ desired, (w.conns c).phase ≠ .storing desired
  | _ => True

/-- A last client that turns forwarding off finds the registry still empty,
    or a first client that is yet to turn it on again. -/
def NotOvertaken (w : World C Ip) : Action C → Prop
  | .advance c => (w.conns c).phase = .lastClient →
      w.registry = ∅ ∨ ∃ d, (w.conns d).phase = .firstClient
  | _ => True

/-! ## What a step does -/

section Steps

variable [DecidableEq C] {k : Settings} {w w' : World C Ip} {c : C}

/-- What a step does to the registry, the flag and the handlers in between. -/
inductive Effect (k : Settings) (w w' : World C Ip) : Action C → Prop
  /-- Nothing of these changes. -/
  | quiet {a : Action C} (registry : w'.registry = w.registry)
      (flag : w'.forwardingEnabled = w.forwardingEnabled)
      (stay : ∀ d, between (w.conns d).phase = true ∨
        between (w'.conns d).phase = true →
        (w'.conns d).phase = (w.conns d).phase) : Effect k w w' a
  | register (c : C) (registry : w'.registry = insert c w.registry)
      (flag : w'.forwardingEnabled = w.forwardingEnabled)
      (others : ∀ d, d ≠ c → w'.conns d = w.conns d)
      (before : between (w.conns c).phase = false)
      (first : w.registry = ∅ → (w'.conns c).phase = .firstClient) :
      Effect k w w' (.advance c)
  | turnOn (c : C) (before : (w.conns c).phase = .firstClient)
      (registry : w'.registry = w.registry)
      (flag : w'.forwardingEnabled = (k.autoForward || w.forwardingEnabled))
      (others : ∀ d, d ≠ c → w'.conns d = w.conns d) :
      Effect k w w' (.advance c)
  | leave (c : C) (before : (w.conns c).phase = .leaving)
      (registry : w'.registry = w.registry.erase c)
      (flag : w'.forwardingEnabled = w.forwardingEnabled)
      (others : ∀ d, d ≠ c → w'.conns d = w.conns d)
      (last : w'.registry = ∅ → (w'.conns c).phase = .lastClient) :
      Effect k w w' (.advance c)
  | turnOff (c : C) (before : (w.conns c).phase = .lastClient)
      (registry : w'.registry = w.registry)
      (flag : w'.forwardingEnabled = (!k.autoForward && w.forwardingEnabled))
      (others : ∀ d, d ≠ c → w'.conns d = w.conns d) :
      Effect k w w' (.advance c)
  | toggle (c : C) (desired : Bool)
      (before : (w.conns c).phase = .storing desired) :
      Effect k w w' (.advance c)
  | hotkey (on : Bool) : Effect k w w' (.hotkey on)

/-- A handler that is not in between moves on and is not in between. -/
theorem Effect.move {a : Action C} {x : Conn}
    (hphase : ∀ d, (w'.conns d).phase = (Function.update w.conns c x d).phase)
    (hreg : w'.registry = w.registry)
    (hflag : w'.forwardingEnabled = w.forwardingEnabled)
    (hold : between (w.conns c).phase = false)
    (hnew : between x.phase = false) : Effect k w w' a := by
  refine .quiet hreg hflag ?_
  intro d hd
  rw [hphase d] at hd ⊢
  by_cases hdc : d = c
  · rw [hdc, Function.update_self, hold, hnew] at hd
    rcases hd with h | h
    · cases h
    · cases h
  · rw [Function.update_of_ne hdc]

/-- Reading an envelope leaves the handler outside the two swaps. -/
theorem between_onEnvelope {enabled : Bool} {now : Nat} {x y : Conn}
    {e : Envelope} (h : onEnvelope enabled now x e = some y) :
    between x.phase = false ∧ between y.phase = false := by
  cases hp : x.phase <;> simp only [onEnvelope, hp, reduceCtorEq] at h
  case hello =>
      refine ⟨rfl, ?_⟩
      cases e <;> simp only [Option.some.injEq] at h
      case hello name version caps =>
          split at h <;> rw [← Option.some.inj h] <;> rfl
      all_goals rw [← h]; rfl
  case awaitingPair =>
      refine ⟨rfl, ?_⟩
      cases e <;> simp only [Option.some.injEq] at h <;> rw [← h] <;> rfl
  case looping =>
      refine ⟨rfl, ?_⟩
      cases e <;> simp only [Option.some.injEq] at h <;> rw [← h]
      case toggleForward desired =>
          show between (if _ then _ else _) = false
          split <;> rfl
      all_goals rfl

/-- A broadcast leaves every handler where it is. -/
theorem broadcast_phase (e : Envelope) (d : C) :
    ((w.broadcast e).conns d).phase = (w.conns d).phase := by
  simp only [World.broadcast]
  split <;> rfl

variable [DecidableEq Ip] {ip : C → Ip}

/-- A step of a handler outside its reads. -/
theorem effect_advance (hs : advance k ip w c = some w') :
    Effect k w w' (.advance c) := by
  have hmove : ∀ {x : Conn} {v : World C Ip},
      (∀ d, (v.conns d).phase = (Function.update w.conns c x d).phase) →
      v.registry = w.registry →
      v.forwardingEnabled = w.forwardingEnabled →
      between (w.conns c).phase = false → between x.phase = false →
      Effect k w v (.advance c) := Effect.move
  cases hp : (w.conns c).phase <;>
    simp only [advance, hp, reduceCtorEq] at hs
  case registering req =>
      rw [← Option.some.inj hs]
      refine .register c rfl rfl ?_ (by rw [hp]; rfl) ?_
      · exact fun d hd => Function.update_of_ne hd _ _
      · intro hempty
        show (Function.update w.conns c _ c).phase = _
        rw [Function.update_self]
        simp [Conn.goto, hempty]
  case firstClient =>
      split at hs
      · rename_i hauto
        rw [← Option.some.inj hs]
        refine .turnOn c hp rfl ?_ ?_
        · rw [hauto]; rfl
        · exact fun d hd => Function.update_of_ne hd _ _
      · rename_i hauto
        rw [← Option.some.inj hs]
        refine .turnOn c hp rfl ?_ ?_
        · rw [Bool.eq_false_of_not_eq_true hauto]; rfl
        · exact fun d hd => Function.update_of_ne hd _ _
  case leaving =>
      rw [← Option.some.inj hs]
      refine .leave c hp rfl rfl ?_ ?_
      · exact fun d hd => Function.update_of_ne hd _ _
      · intro hempty
        have hempty' : w.registry.erase c = ∅ := hempty
        show (Function.update w.conns c _ c).phase = _
        rw [Function.update_self]
        simp only [Conn.goto, hempty', if_true]
  case lastClient =>
      rw [← Option.some.inj hs]
      refine .turnOff c hp rfl ?_ ?_
      · cases k.autoForward <;> rfl
      · exact fun d hd => Function.update_of_ne hd _ _
  case storing desired => exact .toggle c desired hp
  case broadcasting es =>
      cases es with
      | nil =>
          simp only at hs
          rw [← Option.some.inj hs]
          exact hmove (fun _ => rfl) rfl rfl (by rw [hp]; rfl) rfl
      | cons e es =>
          simp only at hs
          rw [← Option.some.inj hs]
          exact hmove (broadcast_phase e) rfl rfl (by rw [hp]; rfl) rfl
  case comparing req =>
      split at hs <;> rw [← Option.some.inj hs] <;>
        exact hmove (fun _ => rfl) rfl rfl (by rw [hp]; rfl) rfl
  case checking req =>
      rw [← Option.some.inj hs]
      refine hmove (fun _ => rfl) rfl rfl (by rw [hp]; rfl) ?_
      split <;> rfl
  case readingConfig req =>
      rw [← Option.some.inj hs]
      refine hmove (fun _ => rfl) rfl rfl (by rw [hp]; rfl) ?_
      show between (if _ then _ else _) = false
      split <;> rfl
  all_goals
    rw [← Option.some.inj hs]
    exact hmove (fun _ => rfl) rfl rfl (by rw [hp]; rfl) rfl

/-- **WHAT A STEP DOES**, for every step of every handler and of the
    environment. -/
theorem effect_step {a : Action C} (hs : step k ip w a = some w') :
    Effect k w w' a := by
  have hloop : ∀ c, a.inLoop c → Effect k w w' a := by
    intro c hin
    obtain ⟨hp, ph, es, hph, rfl⟩ := step_inLoop hin hs
    refine Effect.move (fun _ => rfl) rfl rfl (by rw [hp]; rfl) ?_
    rcases hph with rfl | rfl <;> rfl
  cases a with
  | receive c e =>
      obtain ⟨x, hx, rfl⟩ := Option.map_eq_some_iff.mp hs
      obtain ⟨hold, hnew⟩ := between_onEnvelope hx
      exact Effect.move (fun _ => rfl) rfl rfl hold hnew
  | advance c => exact effect_advance hs
  | fail c =>
      obtain ⟨hf, rfl⟩ := step_fail hs
      refine Effect.move (fun _ => rfl) rfl rfl ?_ rfl
      cases hp : (w.conns c).phase <;>
        simp [hp, Phase.mayFail, between] at hf ⊢
  | closed c => exact hloop c rfl
  | pingTick c ts => exact hloop c rfl
  | watchdog c => exact hloop c rfl
  | broadcast e =>
      rw [← Option.some.inj hs]
      exact .quiet rfl rfl fun d _ => broadcast_phase e d
  | hotkey on => exact .hotkey on
  | takeClipboard =>
      simp only [step] at hs
      split at hs
      · rw [← Option.some.inj hs]
        exact .quiet rfl rfl fun _ _ => rfl
      · cases hs
  | tick d =>
      rw [← Option.some.inj hs]
      exact .quiet rfl rfl fun _ _ => rfl

end Steps

/-! ## The invariant -/

/-- The flag follows the registry, up to the handlers in between. -/
structure Following (w : World C Ip) : Prop where
  on : w.registry ≠ ∅ → w.forwardingEnabled = true ∨
    ∃ c, (w.conns c).phase = .firstClient
  off : w.registry = ∅ → w.forwardingEnabled = false ∨
    ∃ c, (w.conns c).phase = .lastClient

theorem following_start (paired : List String) :
    Following (World.start C Ip paired false) where
  on := fun h => absurd rfl h
  off := fun _ => Or.inl rfl

/-- Nobody is in between, so the flag follows the registry. -/
theorem Following.settled {w : World C Ip} (h : Following w)
    (hw : Settled w) : FollowsRegistry w := by
  have hnone : ∀ {ph : Phase}, between ph = true →
      ¬ ∃ c, (w.conns c).phase = ph := by
    rintro ph hph ⟨c, hc⟩
    have hno := hw c
    rw [hc, hph] at hno
    cases hno
  refine ⟨?_, ?_⟩
  · intro hon
    rw [Finset.nonempty_iff_ne_empty]
    intro hempty
    rcases h.off hempty with hoff | hlast
    · rw [hon] at hoff
      cases hoff
    · exact hnone rfl hlast
  · intro hne
    rcases h.on (Finset.nonempty_iff_ne_empty.mp hne) with hon | hfirst
    · exact hon
    · exact absurd hfirst (hnone rfl)

/-- A handler that waits to turn the flag on or off waits on while another
    one moves. -/
theorem still_waiting {w w' : World C Ip} {c : C} {ph : Phase}
    (others : ∀ d, d ≠ c → w'.conns d = w.conns d)
    (hc : (w.conns c).phase ≠ ph) (h : ∃ d, (w.conns d).phase = ph) :
    ∃ d, (w'.conns d).phase = ph := by
  obtain ⟨d, hd⟩ := h
  have hdc : d ≠ c := by
    intro heq
    rw [heq] at hd
    exact hc hd
  refine ⟨d, ?_⟩
  rw [others d hdc]
  exact hd

section Runs

variable [DecidableEq C] [DecidableEq Ip] {k : Settings} {ip : C → Ip}
  {initial : List String}

/-- **ONE STEP**: without a toggle, a step in which no last client is
    overtaken keeps the flag following the registry. -/
theorem following_step (hauto : k.autoForward = true) {w w' : World C Ip}
    {a : Action C} (hsec : Secure k initial w) (h : Following w)
    (htoggle : NoToggle w a) (hok : NotOvertaken w a)
    (hs : step k ip w a = some w') : Following w' := by
  cases effect_step hs with
  | quiet registry flag stay =>
      have hstay : ∀ {ph : Phase}, between ph = true →
          (∃ d, (w.conns d).phase = ph) → ∃ d, (w'.conns d).phase = ph := by
        rintro ph hph ⟨d, hd⟩
        refine ⟨d, ?_⟩
        rw [stay d (Or.inl (by rw [hd]; exact hph))]
        exact hd
      refine ⟨?_, ?_⟩
      · intro hne
        rw [registry] at hne
        rw [flag]
        exact (h.on hne).imp_right (hstay rfl)
      · intro hempty
        rw [registry] at hempty
        rw [flag]
        exact (h.off hempty).imp_right (hstay rfl)
  | register c registry flag others before first =>
      refine ⟨?_, ?_⟩
      · intro _
        by_cases hempty : w.registry = ∅
        · exact Or.inr ⟨c, first hempty⟩
        · rw [flag]
          refine (h.on hempty).imp_right (still_waiting others ?_)
          intro hc
          rw [hc] at before
          cases before
      · intro hempty
        rw [registry] at hempty
        exact absurd hempty (Finset.insert_ne_empty c w.registry)
  | turnOn c before registry flag others =>
      -- the first client is still registered when it turns forwarding on
      have hc : c ∈ w.registry :=
        (hsec.conn c).listed_iff.mpr (by rw [before]; rfl)
      refine ⟨?_, ?_⟩
      · intro _
        rw [flag, hauto]
        exact Or.inl rfl
      · intro hempty
        rw [registry] at hempty
        rw [hempty] at hc
        exact absurd hc (Finset.notMem_empty c)
  | leave c before registry flag others last =>
      refine ⟨?_, ?_⟩
      -- who is waiting to turn forwarding on is not the one who leaves
      · intro hne
        have hne' : w.registry ≠ ∅ := by
          intro hempty
          rw [registry, hempty, Finset.erase_empty] at hne
          exact hne rfl
        rw [flag]
        refine (h.on hne').imp_right (still_waiting others ?_)
        rw [before]
        exact fun hc => nomatch hc
      · exact fun hempty => Or.inr ⟨c, last hempty⟩
  | turnOff c before registry flag others =>
      refine ⟨?_, ?_⟩
      -- somebody is registered again: its own swap has to come after this one
      · intro hne
        rw [registry] at hne
        rcases hok before with hempty | hfirst
        · exact absurd hempty hne
        · refine Or.inr (still_waiting others ?_ hfirst)
          rw [before]
          exact fun hc => nomatch hc
      · intro _
        rw [flag, hauto]
        exact Or.inl rfl
  | toggle c desired before => exact absurd before (htoggle desired)
  | hotkey on => exact absurd htoggle id

/-- **AUTO_FORWARD FOLLOWS THE REGISTRY**: with `auto_forward` set and no
    explicit toggle, in every run in which no last client is overtaken, the
    flag is on exactly when someone is registered, in every state where no
    handler is between its registry update and its swap. -/
theorem auto_forward_follows_registry (k : Settings)
    (hauto : k.autoForward = true) (ip : C → Ip) (paired : List String)
    (acts : List (Action C)) (w : World C Ip)
    (htoggle : Guarded (step k ip) NoToggle (World.start C Ip paired false)
      acts)
    (hok : Guarded (step k ip) NotOvertaken (World.start C Ip paired false)
      acts)
    (hrun : exec (step k ip) (World.start C Ip paired false) acts = some w)
    (hsettled : Settled w) : FollowsRegistry w := by
  have hstep : ∀ (s : World C Ip) (a : Action C) (s' : World C Ip),
      Secure k paired s ∧ Following s → NoToggle s a ∧ NotOvertaken s a →
      step k ip s a = some s' → Secure k paired s' ∧ Following s' := by
    rintro s a s' ⟨hsec, hfol⟩ ⟨ht, hn⟩ hs
    exact ⟨secure_step s a s' hsec hs, following_step hauto hsec hfol ht hn hs⟩
  have hinv := invariant_exec hstep acts _ w
    ⟨secure_start k paired false, following_start paired⟩
    (guarded_and acts _ htoggle hok) hrun
  exact hinv.2.settled hsettled

end Runs

/-! ## Two clients -/

instance (w : World C Ip) (a : Action C) : Decidable (NoToggle w a) :=
  match a with
  | .hotkey _ => isFalse id
  | .advance c =>
      inferInstanceAs (Decidable (∀ d, (w.conns c).phase ≠ .storing d))
  | .receive _ _ => isTrue trivial
  | .fail _ => isTrue trivial
  | .closed _ => isTrue trivial
  | .pingTick _ _ => isTrue trivial
  | .watchdog _ => isTrue trivial
  | .broadcast _ => isTrue trivial
  | .takeClipboard => isTrue trivial
  | .tick _ => isTrue trivial

instance [Fintype C] [DecidableEq C] (w : World C Ip) (a : Action C) :
    Decidable (NotOvertaken w a) :=
  match a with
  | .hotkey _ => isTrue trivial
  | .advance c =>
      inferInstanceAs (Decidable ((w.conns c).phase = .lastClient →
        w.registry = ∅ ∨ ∃ d, (w.conns d).phase = .firstClient))
  | .receive _ _ => isTrue trivial
  | .fail _ => isTrue trivial
  | .closed _ => isTrue trivial
  | .pingTick _ _ => isTrue trivial
  | .watchdog _ => isTrue trivial
  | .broadcast _ => isTrue trivial
  | .takeClipboard => isTrue trivial
  | .tick _ => isTrue trivial

instance [Fintype C] (w : World C Ip) : Decidable (Settled w) :=
  inferInstanceAs (Decidable (∀ c, between (w.conns c).phase = false))

instance (w : World C Ip) : Decidable (FollowsRegistry w) :=
  inferInstanceAs (Decidable (_ ↔ _))

/-- A server with `auto_forward` set. -/
def autoSettings : Settings := { settings with autoForward := true }

/-- An already paired device connects, up to its entry into the registry. -/
def enter (c : Fin 2) : List (Action (Fin 2)) :=
  [.receive c (.hello "laptop" PROTOCOL_VERSION ⟨true, true, false⟩),
    .advance c,
    .receive c (.pairRequest (Vector.replicate 16 0) "AA" digest123456),
    .advance c, .advance c, .advance c, .advance c]

/-- Client 0 comes, turns forwarding on and goes; client 1 comes after it
    has turned forwarding off. -/
def oneAfterTheOther : List (Action (Fin 2)) :=
  enter 0 ++ [.advance 0, .closed 0, .advance 0, .advance 0]
    ++ enter 1 ++ [.advance 1]

/-- Client 1 comes and turns forwarding on before client 0, which has left,
    turns it off. -/
def overtaking : List (Action (Fin 2)) :=
  enter 0 ++ [.advance 0, .closed 0, .advance 0]
    ++ enter 1 ++ [.advance 1, .advance 0]

theorem auto_forward_follows_registry_in_turn :
    ∃ w : World (Fin 2) Unit,
      exec (step autoSettings fun _ => ()) (World.start _ _ ["AA"] false)
        oneAfterTheOther = some w ∧ w.registry = {1} ∧ FollowsRegistry w := by
  have hrun : (exec (step autoSettings fun _ => ())
      (World.start (Fin 2) Unit ["AA"] false) oneAfterTheOther).map
        (fun w => (w.registry, decide (Settled w))) = some ({1}, true) := by
    decide
  obtain ⟨w, hw, hv⟩ := Option.map_eq_some_iff.mp hrun
  obtain ⟨hreg, hset⟩ := Prod.mk.inj hv
  exact ⟨w, hw, hreg, auto_forward_follows_registry autoSettings rfl _ ["AA"]
    oneAfterTheOther w (by decide) (by decide) hw (of_decide_eq_true hset)⟩

/-- The overtaken last client leaves a registered client without
    forwarding. -/
theorem last_client_overtaken :
    ¬ ∀ (acts : List (Action (Fin 2))) (w : World (Fin 2) Unit),
      Guarded (step autoSettings fun _ => ()) NoToggle
        (World.start (Fin 2) Unit ["AA"] false) acts →
      exec (step autoSettings fun _ => ())
        (World.start (Fin 2) Unit ["AA"] false) acts = some w →
      Settled w → FollowsRegistry w := by
  intro hall
  have hrun : (exec (step autoSettings fun _ => ())
      (World.start (Fin 2) Unit ["AA"] false) overtaking).map
        (fun w => (decide (Settled w), decide (FollowsRegistry w)))
      = some (true, false) := by
    decide
  obtain ⟨w, hw, hv⟩ := Option.map_eq_some_iff.mp hrun
  obtain ⟨hset, hno⟩ := Prod.mk.inj hv
  exact of_decide_eq_false hno
    (hall overtaking w (by decide) hw (of_decide_eq_true hset))

end KvmAutoForward
