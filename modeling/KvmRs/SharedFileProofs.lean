import KvmRs.TransitionProofs
import Mathlib.Data.List.Basic

/-! # One file, many writers

    Processes that each load a file, modify their copy and save it whole, in
    any interleaving.  An operation may decide to save nothing.  If every save
    finds the file as it was loaded, the file is at any time the result of the
    completed operations one after the other: those that save in the order of
    their saves, and one that saves nothing where it loaded. -/

namespace SharedFile

open Transition

variable {F V O P : Type}

/-- How a file is read and written, and what an operation makes of its copy;
    `none` if it does not save. -/
structure Editor (F V O : Type) where
  load : F → V
  modify : V → O → Option V
  save : V → F

inductive Proc (V O : Type) where
  | idle
  | loaded (op : O) (copy : V)
  | modified (op : O) (copy : V) (result : Option V)

structure World (F V O P : Type) where
  file : F
  proc : P → Proc V O
  completed : List O

inductive Action (O P : Type) where
  | load (p : P) (op : O)
  | modify (p : P)
  /-- Save the result, if there is one, and return. -/
  | save (p : P)

def World.start (V O P : Type) (file : F) : World F V O P where
  file := file
  proc := fun _ => .idle
  completed := []

def World.set [DecidableEq P] (w : World F V O P) (p : P) (x : Proc V O) :
    World F V O P :=
  { w with proc := Function.update w.proc p x }

def step [DecidableEq P] (s : Editor F V O) (w : World F V O P) :
    Action O P → Option (World F V O P)
  | .load p op =>
      match w.proc p with
      | .idle => some (w.set p (.loaded op (s.load w.file)))
      | _ => none
  | .modify p =>
      match w.proc p with
      | .loaded op copy => some (w.set p (.modified op copy (s.modify copy op)))
      | _ => none
  | .save p =>
      match w.proc p with
      | .modified op _ result =>
          some ({ w with
            file := (result.map s.save).getD w.file
            completed := w.completed ++ [op] }.set p .idle)
      | _ => none

/-- One operation on its own. -/
def Editor.perform (s : Editor F V O) (file : F) (op : O) : F :=
  ((s.modify (s.load file) op).map s.save).getD file

/-- The operations one after the other. -/
def Editor.replay (s : Editor F V O) (file : F) (ops : List O) : F :=
  ops.foldl s.perform file

/-- What is saved was made of what is in the file. -/
def Unchanged (s : Editor F V O) (w : World F V O P) : Action O P → Prop
  | .save p => ∀ op copy v, w.proc p = .modified op copy (some v) →
      s.load w.file = copy
  | _ => True

section Replays

variable {s : Editor F V O} {file : F}

theorem replay_append (ops ops' : List O) :
    s.replay file (ops ++ ops') = s.replay (s.replay file ops) ops' :=
  List.foldl_append

/-- An operation that saves nothing does nothing. -/
theorem perform_none {op : O} (h : s.modify (s.load file) op = none) :
    s.perform file op = file := by
  rw [Editor.perform, h]
  rfl

theorem perform_some {op : O} {v : V}
    (h : s.modify (s.load file) op = some v) : s.perform file op = s.save v := by
  rw [Editor.perform, h]
  rfl

/-- The copy is what the file was like at some point of the order. -/
def LoadedIn (s : Editor F V O) (file : F) (order : List O) (copy : V) : Prop :=
  ∃ before after, order = before ++ after ∧
    s.load (s.replay file before) = copy

theorem LoadedIn.append {order : List O} {copy : V}
    (h : LoadedIn s file order copy) (ops : List O) :
    LoadedIn s file (order ++ ops) copy := by
  obtain ⟨before, after, rfl, hcopy⟩ := h
  exact ⟨before, after ++ ops, List.append_assoc .., hcopy⟩

/-- An operation that saves nothing, put where it loaded, changes nothing. -/
theorem replay_insert {before after : List O} {op : O}
    (hop : s.modify (s.load (s.replay file before)) op = none) :
    s.replay file (before ++ op :: after)
      = s.replay file (before ++ after) := by
  rw [replay_append, replay_append]
  show s.replay (s.perform (s.replay file before) op) after = _
  rw [perform_none hop]

theorem LoadedIn.insert {before after : List O} {op : O} {copy : V}
    (hop : s.modify (s.load (s.replay file before)) op = none)
    (h : LoadedIn s file (before ++ after) copy) :
    LoadedIn s file (before ++ op :: after) copy := by
  obtain ⟨before', after', heq, hcopy⟩ := h
  rcases List.append_eq_append_iff.mp heq with
    ⟨mid, rfl, rfl⟩ | ⟨mid, rfl, rfl⟩
  · -- the copy was loaded later
    refine ⟨before ++ op :: mid, after', ?_, ?_⟩
    · rw [List.append_assoc, List.cons_append]
    · rw [replay_insert hop]
      exact hcopy
  · exact ⟨before', mid ++ op :: after, List.append_assoc .., hcopy⟩

end Replays

/-! ## The invariant -/

/-- Some order of the completed operations gives the file, and every operation
    in progress loaded its copy at some point of it. -/
def InOrder (s : Editor F V O) (file : F) (w : World F V O P)
    (order : List O) : Prop :=
  order.Perm w.completed ∧ s.replay file order = w.file ∧
    (∀ p op copy, w.proc p = .loaded op copy → LoadedIn s file order copy) ∧
    ∀ p op copy result, w.proc p = .modified op copy result →
      LoadedIn s file order copy ∧ result = s.modify copy op

def Serial (s : Editor F V O) (file : F) (w : World F V O P) : Prop :=
  ∃ order, InOrder s file w order

theorem serial_start (s : Editor F V O) (file : F) :
    Serial s file (World.start V O P file) := by
  refine ⟨[], List.Perm.refl _, rfl, ?_, ?_⟩
  · intro p op copy h
    cases h
  · intro p op copy result h
    cases h

section Steps

variable [DecidableEq P] {s : Editor F V O} {file : F} {w : World F V O P}
  {order : List O} {p : P}

/-- One process goes on, over an order that still has all the copies. -/
theorem InOrder.set (h : InOrder s file w order) {w' : World F V O P}
    {order' : List O} {x : Proc V O}
    (hproc : w'.proc = Function.update w.proc p x)
    (hperm : order'.Perm w'.completed)
    (hreplay : s.replay file order' = w'.file)
    (hkeep : ∀ copy, LoadedIn s file order copy →
      LoadedIn s file order' copy)
    (hloaded : ∀ op copy, x = .loaded op copy → LoadedIn s file order' copy)
    (hmodified : ∀ op copy result, x = .modified op copy result →
      LoadedIn s file order' copy ∧ result = s.modify copy op) :
    InOrder s file w' order' := by
  obtain ⟨-, -, hold, hmod⟩ := h
  refine ⟨hperm, hreplay, ?_, ?_⟩
  · intro q op copy hq
    rw [hproc] at hq
    by_cases hqp : q = p
    · rw [hqp, Function.update_self] at hq
      exact hloaded op copy hq
    · rw [Function.update_of_ne hqp] at hq
      exact hkeep copy (hold q op copy hq)
  · intro q op copy result hq
    rw [hproc] at hq
    by_cases hqp : q = p
    · rw [hqp, Function.update_self] at hq
      exact hmodified op copy result hq
    · rw [Function.update_of_ne hqp] at hq
      obtain ⟨hin, hresult⟩ := hmod q op copy result hq
      exact ⟨hkeep copy hin, hresult⟩

theorem serial_load (h : InOrder s file w order) (op : O) :
    InOrder s file (w.set p (.loaded op (s.load w.file))) order := by
  obtain ⟨hperm, hreplay, -, -⟩ := id h
  refine h.set rfl hperm hreplay (fun _ => id) ?_ ?_
  · intro op' copy heq
    obtain ⟨-, rfl⟩ := Proc.loaded.inj heq
    exact ⟨order, [], (List.append_nil _).symm, by rw [hreplay]⟩
  · intro op' copy result heq
    cases heq

theorem serial_modify (h : InOrder s file w order) {op : O} {copy : V}
    (hp : w.proc p = .loaded op copy) :
    InOrder s file (w.set p (.modified op copy (s.modify copy op))) order := by
  obtain ⟨hperm, hreplay, hold, -⟩ := id h
  refine h.set rfl hperm hreplay (fun _ => id) ?_ ?_
  · intro op' copy' heq
    cases heq
  · intro op' copy' result heq
    obtain ⟨rfl, rfl, rfl⟩ := Proc.modified.inj heq
    exact ⟨hold p op copy hp, rfl⟩

/-- A save on top of what was loaded comes last. -/
theorem serial_saved (h : InOrder s file w order) {op : O} {copy v : V}
    (hp : w.proc p = .modified op copy (some v))
    (hsame : s.load w.file = copy) :
    InOrder s file ({ w with
      file := s.save v
      completed := w.completed ++ [op] }.set p .idle) (order ++ [op]) := by
  obtain ⟨hperm, hreplay, -, hmod⟩ := id h
  obtain ⟨-, hresult⟩ := hmod p op copy (some v) hp
  refine h.set rfl (hperm.append_right [op]) ?_ (fun _ hin => hin.append [op])
    ?_ ?_
  · rw [replay_append, hreplay]
    refine perform_some ?_
    rw [hsame]
    exact hresult.symm
  · intro op' copy' heq
    cases heq
  · intro op' copy' result heq
    cases heq

/-- An operation that saves nothing comes where it loaded. -/
theorem serial_unsaved (h : InOrder s file w order) {op : O} {copy : V}
    (hp : w.proc p = .modified op copy none) :
    ∃ order', InOrder s file ({ w with
      completed := w.completed ++ [op] }.set p .idle) order' := by
  obtain ⟨hperm, hreplay, -, hmod⟩ := id h
  obtain ⟨⟨before, after, rfl, hcopy⟩, hresult⟩ := hmod p op copy none hp
  have hop : s.modify (s.load (s.replay file before)) op = none := by
    rw [hcopy]
    exact hresult.symm
  refine ⟨before ++ op :: after, h.set rfl ?_ ?_ (fun _ => LoadedIn.insert hop)
    ?_ ?_⟩
  · refine List.perm_middle.trans ?_
    exact (hperm.cons op).trans (List.perm_append_singleton op _).symm
  · rw [replay_insert hop]
    exact hreplay
  · intro op' copy' heq
    cases heq
  · intro op' copy' result heq
    cases heq

/-- **ONE STEP** keeps the completed operations in some order. -/
theorem serial_step (w : World F V O P) (a : Action O P) (w' : World F V O P)
    (h : Serial s file w) (hok : Unchanged s w a)
    (hs : step s w a = some w') : Serial s file w' := by
  obtain ⟨order, h⟩ := h
  cases a with
  | load p op =>
      simp only [step] at hs
      split at hs
      · rw [← Option.some.inj hs]
        exact ⟨order, serial_load h op⟩
      · cases hs
  | modify p =>
      simp only [step] at hs
      split at hs
      · rename_i op copy hp
        rw [← Option.some.inj hs]
        exact ⟨order, serial_modify h hp⟩
      · cases hs
  | save p =>
      simp only [step] at hs
      split at hs
      · rename_i op copy result hp
        rw [← Option.some.inj hs]
        cases result with
        | some v => exact ⟨_, serial_saved h hp (hok op copy v hp)⟩
        | none => exact serial_unsaved h hp
      · cases hs

/-- A step leaves the file alone or saves what an operation makes of it. -/
theorem file_step (h : Serial s file w) {a : Action O P} {w' : World F V O P}
    (hok : Unchanged s w a) (hs : step s w a = some w') :
    w'.file = w.file ∨ ∃ p op copy v, a = .save p ∧
      w.proc p = .modified op copy (some v) ∧ s.load w.file = copy ∧
        s.modify copy op = some v ∧ w'.file = s.save v := by
  obtain ⟨order, -, -, -, hmod⟩ := h
  cases a with
  | load p op =>
      simp only [step] at hs
      split at hs
      · rw [← Option.some.inj hs]
        exact Or.inl rfl
      · cases hs
  | modify p =>
      simp only [step] at hs
      split at hs
      · rw [← Option.some.inj hs]
        exact Or.inl rfl
      · cases hs
  | save p =>
      simp only [step] at hs
      split at hs
      · rename_i op copy result hp
        rw [← Option.some.inj hs]
        cases result with
        | some v =>
            exact Or.inr ⟨p, op, copy, v, rfl, hp, hok op copy v hp,
              (hmod p op copy (some v) hp).2.symm, rfl⟩
        | none => exact Or.inl rfl
      · cases hs

/-- **SERIAL ORDER**: in every run in which what is saved was made of what is
    in the file, the file is at the end the result of the completed operations
    one after the other in some order. -/
theorem serial_exec (s : Editor F V O) (file : F) (acts : List (Action O P))
    (w : World F V O P)
    (hrun : exec (step s) (World.start V O P file) acts = some w)
    (hok : Guarded (step s) (Unchanged s) (World.start V O P file) acts) :
    ∃ order, order.Perm w.completed ∧ s.replay file order = w.file := by
  obtain ⟨order, hperm, hreplay, -⟩ := invariant_exec serial_step acts _ w
    (serial_start s file) hok hrun
  exact ⟨order, hperm, hreplay⟩

end Steps

end SharedFile
