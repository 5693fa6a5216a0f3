import Mathlib.Data.Finset.Card
import Mathlib.Logic.Function.Basic

/-! # A directory of plain files

    Names map to inodes and inodes to contents, so that an open file keeps
    its bytes when its name is renamed or removed.  No inode has two names;
    the structure carries this, and every operation keeps it.

    `entry` is what a name stands for: its inode with the content.  Each
    operation has one lemma for the name it is about and one frame lemma:
    every other entry is unchanged. -/

namespace Directory

variable {N : Type}

/-- Names, contents, and the next free inode. -/
structure Dir (N : Type) where
  names : N → Option Nat
  content : Nat → List UInt8
  next : Nat
  unlinked : ∀ a b i, names a = some i → names b = some i → a = b
  fresh : ∀ a i, names a = some i → i < next

/-- No file at all. -/
def Dir.empty : Dir N where
  names := fun _ => none
  content := fun _ => []
  next := 0
  unlinked := fun _ _ _ h => nomatch h
  fresh := fun _ _ h => nomatch h

/-- The inode and the bytes behind a name. -/
def Dir.entry (d : Dir N) (n : N) : Option (Nat × List UInt8) :=
  (d.names n).map (fun i => (i, d.content i))

def Dir.exists (d : Dir N) (n : N) : Bool := (d.entry n).isSome

/-- The bytes behind a name. -/
def Dir.read (d : Dir N) (n : N) : Option (List UInt8) :=
  (d.entry n).map Prod.snd

/-- Replace the content of an inode. -/
def Dir.setContent (d : Dir N) (i : Nat) (bs : List UInt8) : Dir N :=
  { d with content := Function.update d.content i bs }

/-- A write at the end, as a file opened for append does. -/
def Dir.append (d : Dir N) (i : Nat) (bs : List UInt8) : Dir N :=
  d.setContent i (d.content i ++ bs)

/-- The bytes of a file after a write at a position; a gap reads as zeros. -/
def overwrite (old : List UInt8) (pos : Nat) (bs : List UInt8) :
    List UInt8 :=
  (old ++ List.replicate (pos - old.length) 0).take pos ++ bs
    ++ old.drop (pos + bs.length)

/-- A write at a position. -/
def Dir.writeAt (d : Dir N) (i pos : Nat) (bs : List UInt8) : Dir N :=
  d.setContent i (overwrite (d.content i) pos bs)

theorem overwrite_end (old bs : List UInt8) :
    overwrite old old.length bs = old ++ bs := by
  simp [overwrite]

section Contents

variable {d : Dir N} {n m : N} {i : Nat} {bs : List UInt8}

theorem entry_eq_some :
    d.entry n = some (i, bs) ↔ d.names n = some i ∧ d.content i = bs := by
  simp only [Dir.entry, Option.map_eq_some_iff, Prod.mk.injEq]
  constructor
  · rintro ⟨j, hj, rfl, hb⟩
    exact ⟨hj, hb⟩
  · rintro ⟨hi, hb⟩
    exact ⟨i, hi, rfl, hb⟩

theorem exists_eq_false : d.exists n = false ↔ d.entry n = none := by
  rw [Dir.exists, Option.isSome_eq_false_iff, Option.isNone_iff_eq_none]

/-- There are no more names than inodes. -/
theorem le_next {k : Nat} {f : Nat → N}
    (hf : ∀ a < k, ∀ b < k, f a = f b → a = b)
    (hall : ∀ j < k, d.exists (f j) = true) : k ≤ d.next := by
  have hname : ∀ j < k, ∃ i, d.names (f j) = some i := by
    intro j hj
    obtain ⟨e, he⟩ := Option.isSome_iff_exists.mp (hall j hj)
    exact ⟨e.1, (entry_eq_some.mp he).1⟩
  have hinode : ∀ j < k, d.names (f j) = some ((d.names (f j)).getD 0) := by
    intro j hj
    obtain ⟨i, hi⟩ := hname j hj
    rw [hi, Option.getD_some]
  have hcard : (Finset.range k).card ≤ (Finset.range d.next).card := by
    refine Finset.card_le_card_of_injOn (fun j => (d.names (f j)).getD 0) ?_ ?_
    · intro j hj
      have hj' := Finset.mem_range.mp hj
      exact Finset.mem_coe.mpr
        (Finset.mem_range.mpr (d.fresh _ _ (hinode j hj')))
    · intro a ha b hb hab
      have ha' := Finset.mem_range.mp ha
      have hb' := Finset.mem_range.mp hb
      refine hf a ha' b hb' (d.unlinked _ _ _ (hinode a ha') ?_)
      rw [show (d.names (f a)).getD 0 = (d.names (f b)).getD 0 from hab]
      exact hinode b hb'
  rwa [Finset.card_range, Finset.card_range] at hcard

theorem entry_setContent_self (h : d.names n = some i) (bs : List UInt8) :
    (d.setContent i bs).entry n = some (i, bs) := by
  refine entry_eq_some.mpr ⟨h, ?_⟩
  simp only [Dir.setContent, Function.update_self]

/-- Writing to an inode changes no entry but the one it is named by. -/
theorem entry_setContent_of_ne (h : d.names n = some i) (hm : m ≠ n)
    (bs : List UInt8) : (d.setContent i bs).entry m = d.entry m := by
  show (d.names m).map _ = (d.names m).map _
  cases hj : d.names m with
  | none => rfl
  | some j =>
      have hji : j ≠ i := by
        rintro rfl
        exact hm (d.unlinked m n j hj h)
      simp only [Dir.setContent, Option.map_some, Function.update_of_ne hji]

end Contents

variable [DecidableEq N]

/-- Open for writing: truncate the file, or create it empty.  Returns its
    inode. -/
def Dir.create (d : Dir N) (n : N) : Dir N × Nat :=
  match h : d.names n with
  | some i => (d.setContent i [], i)
  | none =>
      ({ names := Function.update d.names n (some d.next)
         content := Function.update d.content d.next []
         next := d.next + 1
         unlinked := by
           intro a b i ha hb
           by_cases hna : a = n
           · by_cases hnb : b = n
             · rw [hna, hnb]
             · rw [hna, Function.update_self] at ha
               rw [Function.update_of_ne hnb, ← Option.some.inj ha] at hb
               exact absurd (d.fresh b d.next hb) (Nat.lt_irrefl _)
           · rw [Function.update_of_ne hna] at ha
             by_cases hnb : b = n
             · rw [hnb, Function.update_self] at hb
               rw [← Option.some.inj hb] at ha
               exact absurd (d.fresh a d.next ha) (Nat.lt_irrefl _)
             · rw [Function.update_of_ne hnb] at hb
               exact d.unlinked a b i ha hb
         fresh := by
           intro a i ha
           by_cases hna : a = n
           · rw [hna, Function.update_self] at ha
             rw [← Option.some.inj ha]
             exact Nat.lt_succ_self _
           · rw [Function.update_of_ne hna] at ha
             exact Nat.lt_succ_of_lt (d.fresh a i ha) }, d.next)

/-- Remove a name; open files keep their bytes. -/
def Dir.remove (d : Dir N) (n : N) : Dir N :=
  { d with
    names := Function.update d.names n none
    unlinked := by
      intro a b i ha hb
      by_cases hna : a = n
      · rw [hna, Function.update_self] at ha
        cases ha
      · by_cases hnb : b = n
        · rw [hnb, Function.update_self] at hb
          cases hb
        · rw [Function.update_of_ne hna] at ha
          rw [Function.update_of_ne hnb] at hb
          exact d.unlinked a b i ha hb
    fresh := by
      intro a i ha
      by_cases hna : a = n
      · rw [hna, Function.update_self] at ha
        cases ha
      · rw [Function.update_of_ne hna] at ha
        exact d.fresh a i ha }

/-- Give the inode `i` the name `n`, which no other name has. -/
def Dir.link (d : Dir N) (n : N) (i : Nat) (hi : i < d.next)
    (hfree : ∀ a, d.names a ≠ some i) : Dir N :=
  { d with
    names := Function.update d.names n (some i)
    unlinked := by
      intro a b j ha hb
      by_cases hna : a = n
      · by_cases hnb : b = n
        · rw [hna, hnb]
        · rw [hna, Function.update_self] at ha
          rw [Function.update_of_ne hnb, ← Option.some.inj ha] at hb
          exact absurd hb (hfree b)
      · rw [Function.update_of_ne hna] at ha
        by_cases hnb : b = n
        · rw [hnb, Function.update_self] at hb
          rw [← Option.some.inj hb] at ha
          exact absurd ha (hfree a)
        · rw [Function.update_of_ne hnb] at hb
          exact d.unlinked a b j ha hb
    fresh := by
      intro a j ha
      by_cases hna : a = n
      · rw [hna, Function.update_self] at ha
        rw [← Option.some.inj ha]
        exact hi
      · rw [Function.update_of_ne hna] at ha
        exact d.fresh a j ha }

theorem Dir.remove_unnamed {d : Dir N} {a : N} {i : Nat}
    (h : d.names a = some i) (b : N) : (d.remove a).names b ≠ some i := by
  intro hb
  by_cases hba : b = a
  · rw [hba] at hb
    simp only [Dir.remove, Function.update_self] at hb
    cases hb
  · simp only [Dir.remove, Function.update_of_ne hba] at hb
    exact hba (d.unlinked b a i hb h)

/-- Rename `a` to `b`, replacing what `b` was; fails if `a` does not
    exist. -/
def Dir.rename (d : Dir N) (a b : N) : Option (Dir N) :=
  match h : d.names a with
  | none => none
  | some i =>
      some ((d.remove a).link b i (d.fresh a i h) (Dir.remove_unnamed h))

/-! ## What the operations on names do to the entries -/

section Entries

variable {d : Dir N} {n m : N}

theorem entry_create_self (d : Dir N) (n : N) :
    (d.create n).1.entry n = some ((d.create n).2, []) := by
  simp only [Dir.create]
  split
  · rename_i i h
    exact entry_setContent_self h []
  · refine entry_eq_some.mpr ⟨?_, ?_⟩
    · exact Function.update_self n _ d.names
    · exact Function.update_self d.next _ d.content

theorem entry_create_of_ne (hm : m ≠ n) :
    (d.create n).1.entry m = d.entry m := by
  simp only [Dir.create]
  split
  · rename_i i h
    exact entry_setContent_of_ne h hm []
  · simp only [Dir.entry, Function.update_of_ne hm]
    cases hj : d.names m with
    | none => rfl
    | some j =>
        -- a named inode is not the fresh one
        have hne : j ≠ d.next := Nat.ne_of_lt (d.fresh m j hj)
        simp only [Option.map_some, Function.update_of_ne hne]

/-- Creating a file takes at most one inode. -/
theorem create_next_le (d : Dir N) (n : N) :
    (d.create n).1.next ≤ d.next + 1 := by
  simp only [Dir.create]
  split
  · exact Nat.le_succ _
  · exact Nat.le_refl _

theorem entry_remove_self (d : Dir N) (n : N) : (d.remove n).entry n = none := by
  simp only [Dir.entry, Dir.remove, Function.update_self, Option.map_none]

theorem entry_remove_of_ne (hm : m ≠ n) :
    (d.remove n).entry m = d.entry m := by
  simp only [Dir.entry, Dir.remove, Function.update_of_ne hm]

/-- A file that exists can be renamed. -/
theorem rename_of_entry {f : Nat × List UInt8} (h : d.entry n = some f) :
    ∃ d', d.rename n m = some d' := by
  have hn : d.names n = some f.1 := (entry_eq_some.mp h).1
  simp only [Dir.rename]
  split
  · rename_i hnone
    rw [hn] at hnone
    cases hnone
  · exact ⟨_, rfl⟩

/-- Inversion of a rename: the new name stands for what the old one did, and
    every third entry is unchanged. -/
theorem rename_some {a b : N} {d' : Dir N} (h : d.rename a b = some d') :
    (∃ f, d.entry a = some f ∧ d'.entry b = some f) ∧
      (∀ m, m ≠ a → m ≠ b → d'.entry m = d.entry m) := by
  simp only [Dir.rename] at h
  split at h
  · cases h
  · rename_i i hi
    rw [← Option.some.inj h]
    refine ⟨⟨(i, d.content i), entry_eq_some.mpr ⟨hi, rfl⟩, ?_⟩, ?_⟩
    · exact entry_eq_some.mpr ⟨Function.update_self b _ _, rfl⟩
    · intro m hma hmb
      simp only [Dir.entry, Dir.link, Dir.remove, Function.update_of_ne hma,
        Function.update_of_ne hmb]

/-- After a rename to another name the old one is free. -/
theorem rename_old {a b : N} {d' : Dir N} (h : d.rename a b = some d')
    (hne : a ≠ b) : d'.entry a = none := by
  simp only [Dir.rename] at h
  split at h
  · cases h
  · rw [← Option.some.inj h]
    simp only [Dir.entry, Dir.link, Dir.remove, Function.update_of_ne hne,
      Function.update_self, Option.map_none]

end Entries

/-! ## Changes at some names only -/

omit [DecidableEq N] in
/-- Every name outside of `A` stands for the same file as before. -/
def Within (A : N → Prop) (d d' : Dir N) : Prop :=
  ∀ n, ¬ A n → d'.entry n = d.entry n

section Within

variable {A : N → Prop} {d d' : Dir N} {n m : N} {i : Nat}

omit [DecidableEq N] in
theorem within_refl (A : N → Prop) (d : Dir N) : Within A d d :=
  fun _ _ => rfl

omit [DecidableEq N] in
theorem Within.trans {d'' : Dir N} (h : Within A d d')
    (h' : Within A d' d'') : Within A d d'' :=
  fun n hn => (h' n hn).trans (h n hn)

omit [DecidableEq N] in
theorem Within.mono {B : N → Prop} (h : Within A d d')
    (hB : ∀ n, A n → B n) : Within B d d' :=
  fun n hn => h n (mt (hB n) hn)

omit [DecidableEq N] in
/-- Outside of `A` a file has the name it had. -/
theorem Within.named (h : Within A d d') (hn : d'.names n = some i) :
    A n ∨ d.names n = some i := by
  by_cases hA : A n
  · exact Or.inl hA
  · have he : d'.entry n = some (i, d'.content i) := entry_eq_some.mpr ⟨hn, rfl⟩
    exact Or.inr (entry_eq_some.mp ((h n hA).symm.trans he)).1

omit [DecidableEq N] in
/-- Writing to a file that has no name outside of `A`. -/
theorem within_setContent (h : ∀ n, d.names n = some i → A n)
    (bs : List UInt8) : Within A d (d.setContent i bs) := by
  intro n hn
  show (d.names n).map _ = (d.names n).map _
  cases hj : d.names n with
  | none => rfl
  | some j =>
      have hji : j ≠ i := by
        rintro rfl
        exact hn (h n hj)
      simp only [Dir.setContent, Option.map_some, Function.update_of_ne hji]

theorem within_create (h : A n) : Within A d (d.create n).1 := by
  intro m hm
  refine entry_create_of_ne ?_
  rintro rfl
  exact hm h

theorem within_remove (h : A n) : Within A d (d.remove n) := by
  intro m hm
  refine entry_remove_of_ne ?_
  rintro rfl
  exact hm h

theorem within_rename (hn : A n) (hm : A m) (h : d.rename n m = some d') :
    Within A d d' := by
  intro a ha
  refine (rename_some h).2 a ?_ ?_
  · rintro rfl
    exact ha hn
  · rintro rfl
    exact ha hm

end Within

end Directory
