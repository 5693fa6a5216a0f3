import KvmRs.HeldInputProofs
import KvmRs.SessionLoopProofs

/-! # What a session leaves behind

    `Session::run` against the client's operating system.  Whatever bytes the
    server sends, however they are cut, whichever arms of the loop complete
    first (in the middle of a frame too) and whichever presses fail, nothing
    is down once the loop has ended and `release_all` has run; nor after a
    switch-off or a `ReleaseAll` on the way. -/

namespace KvmSessionEnd

open KvmEnvelope KvmKeymap KvmInject KvmSessionLoop Transition
open KvmHeldInput (Os Op Covers step_covers step_releaseAll
  step_inject_releaseAll covers_new)

/-- The loop, and what is down because of it. -/
structure Session where
  loop : LoopState
  os : Os

/-- A step of the loop; `took` says whether a press in it succeeds. -/
structure Move where
  act : Action
  took : Bool

/-- The calls that handling one envelope makes into enigo. -/
def callsOf (p : Platform) (inj : InputInjector) : Envelope → List EnigoCall
  | .input .releaseAll => inj.releaseAll.2
  | .input ev => (inj.inject p ev).2
  | .toggleForward on => if on then [] else inj.releaseAll.2
  | _ => []

/-- The loop moves; what it dispatched is injected. -/
def step (p : Platform) (clip : Bool) (s : Session) (m : Move) :
    Option Session :=
  (KvmSessionLoop.step p clip s.loop m.act).map fun loop =>
    { loop := loop
      os := ((loop.dispatched.drop s.loop.dispatched.length).flatMap
        (callsOf p s.loop.injector)).foldl (Os.call m.took) s.os }

/-- A session on a connection whose peer sends these bytes. -/
def Session.start (stream : List UInt8) : Session where
  loop := LoopState.init stream
  os := Os.up

/-- `injector.release_all()` behind the loop. -/
def Session.finish (s : Session) : Os :=
  s.loop.injector.releaseAll.2.foldl (Os.call true) s.os

/-- The injector beside what is down. -/
def Session.held (s : Session) : KvmHeldInput.World where
  injector := s.loop.injector
  os := s.os

/-! ## One step -/

/-- The other arms leave the injector alone. -/
theorem runArm_injector {clip : Bool} {s s' : LoopState} {a : Arm}
    (h : runArm clip s a = some s') : s'.injector = s.injector := by
  cases a with
  | cancelled => rw [← Option.some.inj h]
  | pingTick clock sent =>
      simp only [runArm] at h
      split at h
      · rw [← Option.some.inj h]
      · split at h <;> rw [← Option.some.inj h]
  | command cmd sent =>
      cases cmd with
      | none => rw [← Option.some.inj h]
      | some c =>
          simp only [runArm] at h
          split at h <;> rw [← Option.some.inj h]
  | clipboard text sent =>
      cases clip with
      | false => cases h
      | true =>
          simp only [runArm, if_true] at h
          split at h <;> rw [← Option.some.inj h]

/-- A step of the loop dispatches one envelope or none, and the injector
    follows. -/
theorem loop_step_injector {p : Platform} {clip : Bool} {s s' : LoopState}
    {a : Action} (h : KvmSessionLoop.step p clip s a = some s') :
    (s'.dispatched = s.dispatched ∧ s'.injector = s.injector) ∨
      ∃ env, s'.dispatched = s.dispatched ++ [env] ∧
        s'.injector = injectorAfter p s.injector env := by
  cases a with
  | arrive n =>
      rw [← Option.some.inj h]
      exact Or.inl ⟨rfl, rfl⟩
  | close =>
      rw [← Option.some.inj h]
      exact Or.inl ⟨rfl, rfl⟩
  | poll clock replied =>
      simp only [KvmSessionLoop.step] at h
      split at h
      · cases h
      · split at h
        · split at h <;> (rw [← Option.some.inj h]; exact Or.inl ⟨rfl, rfl⟩)
        · rename_i env rest _
          rw [← Option.some.inj h]
          refine Or.inr ⟨env, ?_, ?_⟩
          · exact (dispatch_bytes p clock replied _ env).2.2.2
          · cases env with
            | ping ts => cases replied <;> rfl
            | _ => rfl
        · rw [← Option.some.inj h]
          exact Or.inl ⟨rfl, rfl⟩
  | arm a =>
      simp only [KvmSessionLoop.step] at h
      split at h
      · cases h
      · refine Or.inl ⟨(runArm_bytes h).2.2.1, ?_⟩
        exact runArm_injector h

/-- Handling an envelope is an operation on the injector, or none. -/
theorem held_after (p : Platform) (took : Bool) (w : KvmHeldInput.World)
    (h : Covers w) (env : Envelope) :
    Covers { injector := injectorAfter p w.injector env
             os := (callsOf p w.injector env).foldl (Os.call took) w.os } ∧
      (env = .toggleForward false ∨ env = .input .releaseAll →
        (callsOf p w.injector env).foldl (Os.call took) w.os = Os.up) := by
  have hclear : w.injector.releaseAll.2.foldl (Os.call took) w.os = Os.up := by
    have hone : KvmHeldInput.step p w (.inject .releaseAll took)
        = KvmHeldInput.World.new :=
      step_inject_releaseAll.trans (step_releaseAll h)
    exact congrArg KvmHeldInput.World.os hone
  -- a release leaves the covering empty
  have hreleased : Covers { injector := w.injector.releaseAll.1
                            os := Os.up } := covers_new
  cases env with
  | input ev =>
      cases ev with
      | releaseAll =>
          refine ⟨?_, fun _ => hclear⟩
          simp only [injectorAfter, callsOf, hclear]
          exact hreleased
      | _ =>
          refine ⟨step_covers h (.inject _ took), ?_⟩
          rintro (heq | heq) <;> cases heq
  | toggleForward on =>
      cases on with
      | true =>
          refine ⟨h, ?_⟩
          rintro (heq | heq) <;> cases heq
      | false =>
          refine ⟨?_, fun _ => hclear⟩
          have hcalls : callsOf p w.injector (.toggleForward false)
              = w.injector.releaseAll.2 := rfl
          rw [hcalls, hclear]
          exact hreleased
  | _ =>
      refine ⟨h, ?_⟩
      rintro (heq | heq) <;> cases heq

/-- What the handling of the last envelope promises. -/
structure Settled (s : Session) : Prop where
  covers : Covers s.held
  /-- Nothing is down right after a switch-off or a `ReleaseAll`. -/
  released : ∀ front env, s.loop.dispatched = front ++ [env] →
    env = .toggleForward false ∨ env = .input .releaseAll → s.os = Os.up

/-- **ONE STEP** keeps what is down in the lists. -/
theorem settled_step {p : Platform} {clip : Bool} (s : Session) (m : Move)
    (s' : Session) (h : Settled s) (hs : step p clip s m = some s') :
    Settled s' := by
  obtain ⟨loop, hloop, hs'⟩ := Option.map_eq_some_iff.mp hs
  rw [← hs']
  rcases loop_step_injector hloop with ⟨hd, hi⟩ | ⟨env, hd, hi⟩
  · have hcalls : loop.dispatched.drop s.loop.dispatched.length = [] := by
      rw [hd, List.drop_length]
    simp only [hcalls, List.flatMap_nil, List.foldl_nil]
    refine ⟨?_, fun front env hfront => h.released front env (hd ▸ hfront)⟩
    have hcovers := h.covers
    simp only [Session.held, hi] at hcovers ⊢
    exact hcovers
  · have hcalls : loop.dispatched.drop s.loop.dispatched.length = [env] := by
      rw [hd, List.drop_left]
    simp only [hcalls, List.flatMap_cons, List.flatMap_nil, List.append_nil]
    obtain ⟨hcovers, hup⟩ := held_after p m.took s.held h.covers env
    refine ⟨?_, fun front env' hfront hkind => ?_⟩
    · simp only [Session.held, hi] at hcovers ⊢
      exact hcovers
    · rw [hd] at hfront
      have henv : env = env' :=
        List.singleton_inj.mp (List.append_inj' hfront rfl).2
      exact hup (henv ▸ hkind)

/-- **NOTHING STAYS DOWN**: for every byte stream a server sends, every run of
    the loop on it and every choice of presses that fail, as long as enigo's
    releases succeed, nothing is down after the `release_all` behind the loop,
    however and wherever it ended, and nothing is down right after a
    switch-off or a `ReleaseAll`. -/
theorem session_leaves_nothing_down (p : Platform) (clip : Bool)
    (stream : List UInt8) (moves : List Move) (s : Session)
    (hrun : exec (step p clip) (Session.start stream) moves = some s) :
    s.finish = Os.up ∧
      ∀ front env, s.loop.dispatched = front ++ [env] →
        env = .toggleForward false ∨ env = .input .releaseAll →
        s.os = Os.up := by
  have hstart : Settled (Session.start stream) := by
    refine ⟨covers_new, fun front env hfront => ?_⟩
    exact absurd hfront.symm
      (List.append_ne_nil_of_right_ne_nil front (List.cons_ne_nil env []))
  have hend := invariant_exec
    (fun s m s' h (_ : True) hs => settled_step s m s' h hs) moves _ s hstart
    (guarded_of_forall moves _ fun _ _ _ => trivial) hrun
  refine ⟨?_, hend.released⟩
  exact congrArg KvmHeldInput.World.os
    (step_releaseAll (p := p) hend.covers)

/-- A press of `a`, and a part of the next frame. -/
def tornStream : List UInt8 :=
  KvmFraming.frame (.input (.keyPress 30 0)) ++ [0, 0]

/-- Both arrive, and the server vanishes. -/
def tornMoves : List Move :=
  [⟨.arrive 100, true⟩, ⟨.poll ⟨0, 0⟩ true, true⟩, ⟨.close, true⟩,
    ⟨.poll ⟨0, 0⟩ true, true⟩]

theorem session_leaves_nothing_down_torn :
    ∃ s, exec (step .linux false) (Session.start tornStream) tornMoves = some s ∧
      s.loop.status = .ended (.readFailed .io) ∧
      s.os.keys = {.unicode 'a'} ∧ s.finish = Os.up := by
  refine ⟨_, rfl, by decide, by decide, ?_⟩
  exact (session_leaves_nothing_down .linux false tornStream tornMoves _ rfl).1

end KvmSessionEnd
