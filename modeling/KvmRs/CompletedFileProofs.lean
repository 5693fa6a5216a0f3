import KvmRs.TransferProofs

/-! # Files that a transfer has completed

    Transfers handled one after the other, each with any offered name, size,
    hash and byte stream.  A completed file shares its directory with the
    `.part` files of later transfers, so it is kept exactly as long as no later
    transfer works under its name: `PartUnused`. -/

namespace KvmCompletedFile

open Directory KvmFileName KvmTransfer Transition

variable {C : Type}

/-- The transfer has not begun or has returned. -/
def Idle (t : Transfer) : Prop := t.phase = .waiting ∨ t.phase = .ended

instance idleDecidable (t : Transfer) : Decidable (Idle t) :=
  inferInstanceAs (Decidable (_ ∨ _))

/-- One after the other: an offer is taken up when no transfer is running. -/
def Sequential (w : World C) : Action C → Prop
  | .offer _ _ => ∀ c, Idle (w.transfers c)
  | _ => True

/-- The `.part` name of an accepted offer is not the name of a completed
    file. -/
def PartUnused (maxFileSize : Nat) (w : World C) : Action C → Prop
  | .offer c o => ∀ n ∈ gained maxFileSize w (.offer c o),
      ∀ r ∈ w.confirmed, r.dest ≠ n
  | _ => True

/-- Every completed file is at its path with its content. -/
def Kept (w : World C) : Prop :=
  ∀ r ∈ w.confirmed, ∃ bs, r.content = some bs ∧ w.dir.read r.dest = some bs

/-- The invariant: one transfer at a time, and what it owns is not a completed
    file. -/
structure Apart (sha256 : List UInt8 → List UInt8) (w : World C) : Prop where
  sound : Sound sha256 w
  single : ∀ c c', ¬ Idle (w.transfers c) → ¬ Idle (w.transfers c') → c = c'
  kept : Kept w
  apart : ∀ c n, Owns (w.transfers c) n → ∀ r ∈ w.confirmed, r.dest ≠ n

theorem not_owns_of_idle {t : Transfer} (h : Idle t) (n : Name) :
    ¬ Owns t n := by
  rintro (⟨hp, -⟩ | hd)
  · rcases h with h | h <;> rw [h] at hp <;> cases hp
  · rcases h with h | h <;> rw [h] at hd <;> cases hd

theorem apart_start (sha256 : List UInt8 → List UInt8) (dir : Dir Name) :
    Apart sha256 (World.start C dir) where
  sound := sound_start dir
  single := fun _ _ h => absurd (Or.inl rfl) h
  kept := fun _ h => nomatch h
  apart := fun _ _ _ _ h => nomatch h

/-- The entry behind a completed file. -/
theorem Kept.exists {w : World C} (h : Kept w) {r : Confirmation}
    (hr : r ∈ w.confirmed) : w.dir.exists r.dest = true := by
  obtain ⟨bs, -, hread⟩ := h r hr
  cases he : w.dir.entry r.dest with
  | none =>
      rw [Dir.read, he] at hread
      cases hread
  | some f => rw [Dir.exists, he]; rfl

section Steps

variable [DecidableEq C] {sha256 : List UInt8 → List UInt8}
  {maxFileSize : Nat}

/-- Every step but an offer belongs to a running transfer. -/
theorem running_of_step {w w' : World C} {a : Action C}
    (hs : step sha256 maxFileSize w a = some w')
    (hoffer : ∀ c o, a ≠ .offer c o) : ¬ Idle (w.transfers a.actor) := by
  rintro (hph | hph) <;> cases a with
  | offer c o => exact hoffer c o rfl
  | advance c =>
      simp only [Action.actor] at hph
      simp only [step, advance, hph, reduceCtorEq] at hs
  | chunk c bs =>
      simp only [Action.actor] at hph
      simp only [step, hph, reduceCtorEq] at hs
  | endOfStream c =>
      simp only [Action.actor] at hph
      simp only [step, hph, reduceCtorEq] at hs
  | read c n =>
      simp only [Action.actor] at hph
      simp only [step, hph, reduceCtorEq] at hs
  | abort c =>
      simp only [Action.actor] at hph
      simp only [step, hph, reduceCtorEq] at hs

/-- While one transfer acts, every other one is idle. -/
theorem others_idle {w w' : World C} {a : Action C} (h : Apart sha256 w)
    (hseq : Sequential w a) (hs : step sha256 maxFileSize w a = some w')
    {c : C} (hc : c ≠ a.actor) : Idle (w.transfers c) := by
  by_contra hrun
  by_cases hoffer : ∃ c' o, a = .offer c' o
  · obtain ⟨c', o, rfl⟩ := hoffer
    exact hrun (hseq c)
  · refine hc (h.single c a.actor hrun (running_of_step hs ?_))
    intro c' o heq
    exact hoffer ⟨c', o, heq⟩

omit [DecidableEq C] in
/-- A name taken by a step is not that of a completed file. -/
theorem gained_not_completed {w : World C} {a : Action C}
    (hkept : Kept w) (hunused : PartUnused maxFileSize w a) {n : Name}
    (hn : gained maxFileSize w a = some n) :
    ∀ r ∈ w.confirmed, r.dest ≠ n := by
  intro r hr
  cases a with
  | offer c o => exact hunused n hn r hr
  | advance c =>
      -- the candidate was found free, and a completed file exists
      rintro rfl
      simp only [gained] at hn
      split at hn
      · split at hn
        · cases hn
        · rename_i hfree
          rw [Option.some.inj hn] at hfree
          exact hfree (hkept.exists hr)
      · cases hn
  | chunk c bs => cases hn
  | endOfStream c => cases hn
  | read c k => cases hn
  | abort c => cases hn

/-- **ONE STEP**: a sequential step on an unused `.part` name keeps every
    completed file. -/
theorem apart_step (w : World C) (a : Action C) (w' : World C)
    (h : Apart sha256 w) (hok : Sequential w a ∧ PartUnused maxFileSize w a)
    (hs : step sha256 maxFileSize w a = some w') : Apart sha256 w' := by
  obtain ⟨hseq, hunused⟩ := hok
  have heff := effect_step (h.sound.ok a.actor) hs
  have hidle : ∀ c, c ≠ a.actor → Idle (w'.transfers c) := by
    intro c hc
    rw [heff.others c hc]
    exact others_idle h hseq hs hc
  have hexcl : Exclusive maxFileSize w a :=
    fun n _ c hc => not_owns_of_idle (others_idle h hseq hs hc) n
  -- the files completed before the step
  have hold : ∀ r ∈ w.confirmed, ∃ bs,
      r.content = some bs ∧ w'.dir.read r.dest = some bs := by
    intro r hr
    obtain ⟨bs, hbs, hread⟩ := h.kept r hr
    refine ⟨bs, hbs, ?_⟩
    have hsame : w'.dir.entry r.dest = w.dir.entry r.dest :=
      heff.frame r.dest (fun hown => h.apart a.actor r.dest hown r hr rfl)
    rw [Dir.read, hsame]
    exact hread
  refine ⟨sound_step w a w' h.sound hexcl hs, ?_, ?_, ?_⟩
  · intro c c' hc hc'
    have heq : c = a.actor := by
      by_contra hne
      exact hc (hidle c hne)
    have heq' : c' = a.actor := by
      by_contra hne
      exact hc' (hidle c' hne)
    rw [heq, heq']
  · intro r hr
    rcases heff.confirmed with hsame | ⟨r', hnew, ⟨bs, hbs, -⟩, hcont, -⟩
    · exact hold r (hsame ▸ hr)
    · rw [hnew] at hr
      rcases List.mem_append.mp hr with hr | hr
      · exact hold r hr
      · rw [List.mem_singleton.mp hr]
        exact ⟨bs, hbs, by rw [← hcont, hbs]⟩
  · intro c n hown r hr
    have hc : c = a.actor := by
      by_contra hne
      exact not_owns_of_idle (hidle c hne) n hown
    rw [hc] at hown
    rcases heff.confirmed with hsame | ⟨r', -, -, -, hended⟩
    · rw [hsame] at hr
      rcases owns_step hs hown with hbefore | hgain
      · exact h.apart a.actor n hbefore r hr
      · exact gained_not_completed h.kept hunused hgain r hr
    · -- a transfer that has just confirmed owns nothing
      exact absurd hown (not_owns_of_idle (Or.inr hended) n)

/-- **COMPLETED FILES ARE KEPT**: for every SHA-256, limit, directory and
    sequence of transfers one after the other, as long as no accepted offer's
    `.part` name is that of a completed file, every completed file keeps its
    path and its content. -/
theorem completed_files_kept (sha256 : List UInt8 → List UInt8)
    (maxFileSize : Nat) (dir : Dir Name) (acts : List (Action C))
    (w : World C)
    (hrun : exec (step sha256 maxFileSize) (World.start C dir) acts = some w)
    (hseq : Guarded (step sha256 maxFileSize) Sequential
      (World.start C dir) acts)
    (hok : Guarded (step sha256 maxFileSize) (PartUnused maxFileSize)
      (World.start C dir) acts) :
    Kept w :=
  (invariant_exec apart_step acts _ w (apart_start sha256 dir)
    (guarded_and acts _ hseq hok) hrun).kept

end Steps

/-! ## Two transfers in a row -/

instance sequentialDecidable [Fintype C] (w : World C) (a : Action C) :
    Decidable (Sequential w a) :=
  match a with
  | .offer _ _ => inferInstanceAs (Decidable (∀ c, Idle (w.transfers c)))
  | .advance _ => isTrue trivial
  | .chunk _ _ => isTrue trivial
  | .endOfStream _ => isTrue trivial
  | .read _ _ => isTrue trivial
  | .abort _ => isTrue trivial

instance partUnusedDecidable (m : Nat) (w : World C) (a : Action C) :
    Decidable (PartUnused m w a) :=
  match a with
  | .offer c o => inferInstanceAs (Decidable
      (∀ n ∈ gained m w (.offer c o), ∀ r ∈ w.confirmed, r.dest ≠ n))
  | .advance _ => isTrue trivial
  | .chunk _ _ => isTrue trivial
  | .endOfStream _ => isTrue trivial
  | .read _ _ => isTrue trivial
  | .abort _ => isTrue trivial

/-- A run that meets the condition: one name is offered twice, and the second
    file gets the next candidate. -/
theorem completed_files_kept_same_name :
    ∃ w : World (Fin 2), Kept w ∧ w.confirmed.map Confirmation.dest
      = ["a".toList, "a (1)".toList] := by
  have hrun : (exec (step sha256OfA 0) (World.start (Fin 2) Dir.empty)
      (receiveA 0 "a".toList ++ promoteA 0 ++ receiveA 1 "a".toList
        ++ [.advance 1] ++ promoteA 1)).map
        (fun w => w.confirmed.map Confirmation.dest)
      = some ["a".toList, "a (1)".toList] := by
    decide
  obtain ⟨w, hw, hv⟩ := Option.map_eq_some_iff.mp hrun
  exact ⟨w, completed_files_kept sha256OfA 0 Dir.empty _ w hw (by decide)
    (by decide), hv⟩

/-- `a.part` is received and completed; then `a` is offered with two bytes
    and the stream ends at once. -/
def partThenShort : List (Action (Fin 2)) :=
  receiveA 0 "a.part".toList ++ promoteA 0 ++
    [.offer 1 ⟨"a".toList, 2, sha256OfA [0x61]⟩, .advance 1, .advance 1,
      .advance 1, .endOfStream 1, .advance 1]

/-- **A LATER OFFER DELETES A COMPLETED FILE**: the `.part` file of the second
    offer is the completed file, which is shorter than offered, so it is
    resumed; nothing more arrives, and it is removed as incomplete. -/
theorem offer_removes_completed_file :
    ∃ w : World (Fin 2),
      exec (step sha256OfA 0) (World.start (Fin 2) Dir.empty) partThenShort
        = some w ∧
      Guarded (step sha256OfA 0) Sequential (World.start (Fin 2) Dir.empty)
        partThenShort ∧
      w.confirmed.map (fun r => (r.dest, r.content))
        = [("a.part".toList, some [0x61])] ∧
      w.dir.read "a.part".toList = none ∧ ¬ Kept w := by
  refine ⟨_, rfl, by decide, by decide, by decide, ?_⟩
  intro h
  obtain ⟨bs, -, hread⟩ := h ⟨offerA "a.part".toList, "a.part".toList,
    some [0x61], false⟩ (List.mem_singleton.mpr rfl)
  cases hread

end KvmCompletedFile
