import KvmRs.TransferProofs

/-! # What one transfer may touch

    A single `handle_transfer` works under two names: the `.part` name of the
    sanitised offer, and a destination that it has found free.  `Confined`
    says what may have become of the directory at any time, after whichever
    exit; `step_dir` is the one case analysis behind it. -/

namespace KvmTransferFrame

open Directory KvmFileName KvmTransfer

variable {C : Type}

/-- What a transfer of `o` may have made of the directory `d₀`: the `.part`
    file is as it was, gone, or not longer than offered; and at most one name
    that was free is a file now, with the offered size and hash. -/
structure Confined (sha256 : List UInt8 → List UInt8) (o : Offer)
    (d₀ d : Dir Name) : Prop where
  part : d.entry o.part = d₀.entry o.part ∨
    ∀ f, d.entry o.part = some f → f.2.length ≤ o.size
  others : (∀ n, n ≠ o.part → d.entry n = d₀.entry n) ∨
    ∃ dest, dest ≠ o.part ∧ d₀.entry dest = none ∧
      (∃ f, d.entry dest = some f ∧ f.2.length = o.size ∧
        sha256 f.2 = o.sha256) ∧
      ∀ n, n ≠ o.part → n ≠ dest → d.entry n = d₀.entry n

theorem confined_refl (sha256 : List UInt8 → List UInt8) (o : Offer)
    (d : Dir Name) : Confined sha256 o d d where
  part := Or.inl rfl
  others := Or.inl (fun _ _ => rfl)

/-- A transfer of `o` in progress or over, in a directory that was `d₀`
    before. -/
structure Inside (sha256 : List UInt8 → List UInt8) (o : Offer)
    (d₀ : Dir Name) (w : World C) (c : C) : Prop where
  offer : (w.transfers c).offer = o
  ok : TransferOk sha256 w.dir (w.transfers c)
  confined : Confined sha256 o d₀ w.dir
  early : (w.transfers c).phase.holdsPart = true →
    ∀ n, n ≠ o.part → w.dir.entry n = d₀.entry n

variable [DecidableEq C] {sha256 : List UInt8 → List UInt8}
  {maxFileSize : Nat} {w w' : World C}

/-- The effect of a step on the directory: none, one on the `.part` file
    only, which is not longer than offered afterwards, or the rename. -/
inductive DirEffect (w w' : World C) (c : C) : Prop where
  | same (dir : w'.dir = w.dir)
      (late : (w'.transfers c).phase.holdsPart = true →
        (w.transfers c).phase.holdsPart = true)
  | part (held : (w.transfers c).phase.holdsPart = true)
      (frame : ∀ n, n ≠ (w.transfers c).offer.part →
        w'.dir.entry n = w.dir.entry n)
      (short : ∀ f, w'.dir.entry (w.transfers c).offer.part = some f →
        f.2.length ≤ (w.transfers c).offer.size)
  | rename (dest : Name) (before : (w.transfers c).phase = .promoting dest)
      (after : (w'.transfers c).phase.holdsPart = false)
      (dir : w.dir.rename (w.transfers c).offer.part dest = some w'.dir)

/-- A step that only changes the phase. -/
theorem dirEffect_goto {c : C} {ph : Phase}
    (hheld : (w.transfers c).phase.holdsPart = true ∨ ph.holdsPart = false) :
    DirEffect w (w.goto c ph) c := by
  refine .same rfl ?_
  intro hlate
  rw [goto_self] at hlate
  rcases hheld with hheld | hno
  · exact hheld
  · rw [hno] at hlate
    cases hlate

/-- The steps outside the two loops. -/
theorem dirEffect_advance {c : C} (hs : advance w c = some w') :
    DirEffect w w' c := by
  cases hph : (w.transfers c).phase with
  | waiting => simp only [advance, hph] at hs; cases hs
  | receiving i mode received =>
      simp only [advance, hph] at hs; cases hs
  | hashing i acc => simp only [advance, hph] at hs; cases hs
  | ended => simp only [advance, hph] at hs; cases hs
  | checking =>
      simp only [advance, hph] at hs
      rw [← Option.some.inj hs]
      exact dirEffect_goto (Or.inl (by rw [hph]; rfl))
  | sizing =>
      simp only [advance, hph] at hs
      split at hs <;> rw [← Option.some.inj hs] <;>
        exact dirEffect_goto (Or.inl (by rw [hph]; rfl))
  | resuming offset =>
      simp only [advance, hph] at hs
      split at hs <;> rw [← Option.some.inj hs] <;>
        exact dirEffect_goto (Or.inl (by rw [hph]; rfl))
  | creating =>
      simp only [advance, hph] at hs
      rw [← Option.some.inj hs]
      refine .part (by rw [hph]; rfl) (fun n hn => entry_create_of_ne hn) ?_
      intro f hf
      rw [show f = _ from Option.some.inj (hf.symm.trans
        (entry_create_self w.dir (w.transfers c).offer.part))]
      exact Nat.zero_le _
  | removing =>
      simp only [advance, hph] at hs
      rw [← Option.some.inj hs]
      refine .part (by rw [hph]; rfl) (fun n hn => entry_remove_of_ne hn) ?_
      intro f hf
      have hgone := (entry_remove_self w.dir _).symm.trans hf
      cases hgone
  | verifying =>
      simp only [advance, hph] at hs
      split at hs <;> rw [← Option.some.inj hs] <;>
        exact dirEffect_goto (Or.inl (by rw [hph]; rfl))
  | choosing k =>
      simp only [advance, hph] at hs
      rw [← Option.some.inj hs]
      exact dirEffect_goto (Or.inl (by rw [hph]; rfl))
  | promoting dest =>
      simp only [advance, hph] at hs
      split at hs
      · rw [← Option.some.inj hs]
        exact dirEffect_goto (Or.inr rfl)
      · rename_i d hren
        rw [← Option.some.inj hs]
        refine .rename dest hph ?_ hren
        rw [goto_self]
        rfl
  | completing dest replaced =>
      simp only [advance, hph] at hs
      rw [← Option.some.inj hs]
      refine .same rfl ?_
      rw [goto_self]
      exact fun hlate => Bool.noConfusion hlate

/-- A chunk: the `.part` file has grown, up to the offered size. -/
theorem dirEffect_chunk {c : C} {bs : List UInt8}
    (hok : TransferOk sha256 w.dir (w.transfers c))
    (hs : step sha256 maxFileSize w (.chunk c bs) = some w') :
    DirEffect w w' c := by
  have heff := effect_step hok hs
  cases hph : (w.transfers c).phase <;>
    simp only [step, hph, reduceCtorEq] at hs
  have hheld : (w.transfers c).phase.holdsPart = true := by
    rw [hph]
    rfl
  refine .part hheld ?_ ?_
  · intro n hn
    refine heff.frame n ?_
    rintro (⟨-, hp⟩ | hd)
    · exact hn hp.symm
    · rw [Action.actor, hph] at hd
      cases hd
  · have hafter := heff.ok
    split at hs
    · rw [← Option.some.inj hs, Action.actor, goto_self] at hafter
      rw [← Option.some.inj hs]
      intro f hf
      split at hafter
      · obtain ⟨i, bs, he, hlen⟩ := hafter
        rw [show f = _ from Option.some.inj (hf.symm.trans he)]
        exact Nat.le_of_eq hlen
      · obtain ⟨bs, he, hlen, hle, -⟩ := hafter
        rw [show f = _ from Option.some.inj (hf.symm.trans he)]
        exact hlen.trans_le hle
    · cases hs

/-- **WHAT A STEP DOES TO THE DIRECTORY**, once the offer is there. -/
theorem dirEffect_step {a : Action C}
    (hok : TransferOk sha256 w.dir (w.transfers a.actor))
    (hoffer : ∀ c o, a ≠ .offer c o)
    (hs : step sha256 maxFileSize w a = some w') :
    DirEffect w w' a.actor := by
  cases a with
  | offer c o => exact absurd rfl (hoffer c o)
  | advance c => exact dirEffect_advance hs
  | chunk c bs => exact dirEffect_chunk hok hs
  | endOfStream c =>
      cases hph : (w.transfers c).phase <;>
        simp only [step, hph, reduceCtorEq] at hs
      have hheld : (w.transfers c).phase.holdsPart = true := by
        rw [hph]
        rfl
      rw [← Option.some.inj hs]
      exact dirEffect_goto (Or.inl hheld)
  | read c n =>
      cases hph : (w.transfers c).phase <;>
        simp only [step, hph, reduceCtorEq] at hs
      have hheld : (w.transfers c).phase.holdsPart = true := by
        rw [hph]
        rfl
      split at hs
      · rw [← Option.some.inj hs]
        exact dirEffect_goto (Or.inl hheld)
      · cases hs
  | abort c =>
      cases hph : (w.transfers c).phase <;>
        simp only [step, hph, reduceCtorEq, Option.some.injEq] at hs <;>
        exact hs ▸ dirEffect_goto (Or.inr rfl)

/-- The offer stays. -/
theorem offer_step {a : Action C} (hoffer : ∀ c o, a ≠ .offer c o)
    (hs : step sha256 maxFileSize w a = some w') :
    (w'.transfers a.actor).offer = (w.transfers a.actor).offer := by
  have hgoto : ∀ (v : World C) (c : C) (ph : Phase),
      v.transfers = w.transfers →
      ((v.goto c ph).transfers c).offer = (w.transfers c).offer := by
    intro v c ph hv
    rw [goto_self, hv]
  cases a with
  | offer c o => exact absurd rfl (hoffer c o)
  | advance c =>
      cases hph : (w.transfers c).phase <;>
        simp only [step, advance, hph, reduceCtorEq] at hs
      case sizing | resuming | verifying | promoting =>
          split at hs <;> rw [← Option.some.inj hs] <;>
            exact hgoto _ c _ rfl
      all_goals
        rw [← Option.some.inj hs]
        exact hgoto _ c _ rfl
  | chunk c bs =>
      cases hph : (w.transfers c).phase <;>
        simp only [step, hph, reduceCtorEq] at hs
      split at hs
      · rw [← Option.some.inj hs]
        exact hgoto _ c _ rfl
      · cases hs
  | endOfStream c =>
      cases hph : (w.transfers c).phase <;>
        simp only [step, hph, reduceCtorEq] at hs
      rw [← Option.some.inj hs]
      exact hgoto _ c _ rfl
  | read c n =>
      cases hph : (w.transfers c).phase <;>
        simp only [step, hph, reduceCtorEq] at hs
      split at hs
      · rw [← Option.some.inj hs]
        exact hgoto _ c _ rfl
      · cases hs
  | abort c =>
      cases hph : (w.transfers c).phase <;>
        simp only [step, hph, reduceCtorEq, Option.some.injEq] at hs <;>
        exact hs ▸ hgoto w c .ended rfl

section Keep

variable {o : Offer} {d₀ : Dir Name} {c : C}

/-- A fresh transfer has touched nothing. -/
theorem inside_offer (hph : (w.transfers c).phase = .waiting)
    (hs : step sha256 maxFileSize w (.offer c o) = some w') :
    Inside sha256 o w.dir w' c := by
  have hok : TransferOk sha256 w.dir (w.transfers c) := by
    rw [TransferOk, hph]
    trivial
  have heff := effect_step hok hs
  have hfiles : (w'.transfers c).offer = o ∧ w'.dir = w.dir := by
    simp only [step, hph] at hs
    rw [← Option.some.inj hs]
    exact ⟨by simp only [Function.update_self], rfl⟩
  refine ⟨hfiles.1, heff.ok, ?_, ?_⟩
  · rw [hfiles.2]
    exact confined_refl sha256 o w.dir
  · intro _ n _
    rw [hfiles.2]

/-- **A STEP STAYS INSIDE**: whatever the next step of the transfer. -/
theorem inside_step {a : Action C} (h : Inside sha256 o d₀ w a.actor)
    (hoffer : ∀ c o, a ≠ .offer c o)
    (hs : step sha256 maxFileSize w a = some w') :
    Inside sha256 o d₀ w' a.actor := by
  have hok' := (effect_step h.ok hs).ok
  have hsame : (w'.transfers a.actor).offer = o :=
    (offer_step hoffer hs).trans h.offer
  cases dirEffect_step h.ok hoffer hs with
  | same hdir hlate =>
      refine ⟨hsame, hok', ?_, ?_⟩
      · rw [hdir]
        exact h.confined
      · intro hheld
        rw [hdir]
        exact h.early (hlate hheld)
  | part hheld hframe hshort =>
      rw [h.offer] at hframe hshort
      have hrest : ∀ n, n ≠ o.part → w'.dir.entry n = d₀.entry n := by
        intro n hn
        rw [hframe n hn, h.early hheld n hn]
      exact ⟨hsame, hok', ⟨Or.inr hshort, Or.inl hrest⟩, fun _ => hrest⟩
  | rename dest hbefore hafter hdir =>
      have hpromoting := h.ok
      simp only [TransferOk, hbefore, h.offer] at hpromoting
      obtain ⟨⟨i, bs, he, hlen, hsha⟩, hfree⟩ := hpromoting
      rw [h.offer] at hdir
      -- the destination was free and the `.part` file was there
      have hne : dest ≠ o.part := by
        rintro rfl
        rw [he] at hfree
        cases hfree
      have hearly := h.early (by rw [hbefore]; rfl)
      obtain ⟨⟨f, hf, hdest⟩, hframe⟩ := rename_some hdir
      have hfeq : f = (i, bs) := Option.some.inj (hf.symm.trans he)
      refine ⟨hsame, hok', ⟨Or.inr ?_, Or.inr ⟨dest, hne, ?_, ?_, ?_⟩⟩, ?_⟩
      · intro g hg
        rw [rename_old hdir hne.symm] at hg
        cases hg
      · rw [← hearly dest hne]
        exact hfree
      · exact ⟨(i, bs), by rw [hdest, hfeq], hlen, hsha⟩
      · intro n hn hnd
        rw [hframe n hn hnd, hearly n hn]
      · intro hheld
        rw [hafter] at hheld
        cases hheld

end Keep

end KvmTransferFrame
