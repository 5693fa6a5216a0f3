import Mathlib.Data.Finset.Erase
import Mathlib.Data.Finset.Insert
import Mathlib.Data.List.Induction
import Mathlib.Data.List.Nodup

/-! # What is held, in the order of the presses

    A history of strokes on things of any kind: presses, releases, and strokes
    that lift everything.  A thing is *up* to a point of the history if it has
    been pressed and not lifted since; it is held *since* the press that found
    it lifted.

    A list that a press extends, unless the thing is in it, and a lift
    shrinks, is the list of what is held, ordered by since when
    (`inPressOrder_held`).

    Where a history is seen through a map that identifies some things, what is
    held stays so until another thing with the same image is released
    (`held_map_iff`). -/

namespace HeldOrder

inductive Stroke (α : Type) where
  | press (x : α)
  | release (x : α)
  /-- Everything is lifted. -/
  | clear
  /-- Nothing is pressed or lifted. -/
  | other

variable {α β : Type}

/-- The stroke lifts `x`. -/
def Stroke.Lifts (x : α) : Stroke α → Prop
  | .press _ => False
  | .release y => y = x
  | .clear => True
  | .other => False

/-- `x` has been pressed and not lifted since. -/
def Held (ss : List (Stroke α)) (x : α) : Prop :=
  ∃ before after, ss = before ++ .press x :: after ∧
    ∀ s ∈ after, ¬ s.Lifts x

/-- `x` is held, and stroke `i` is the first press of it since it was last
    lifted. -/
def Since (ss : List (Stroke α)) (x : α) (i : Nat) : Prop :=
  ∃ before after, ss = before ++ .press x :: after ∧ before.length = i ∧
    ¬ Held before x ∧ ∀ s ∈ after, ¬ s.Lifts x

/-- The stroke on the image of its thing, which not everything has. -/
def Stroke.map (f : α → Option β) : Stroke α → Stroke β
  | .press x =>
      match f x with
      | some y => .press y
      | none => .other
  | .release x =>
      match f x with
      | some y => .release y
      | none => .other
  | .clear => .clear
  | .other => .other

/-- Something else than `x` with the image `y` was released, and nothing with
    this image has been pressed since. -/
def LiftedByOther (f : α → Option β) (ss : List (Stroke α)) (x : α) (y : β) :
    Prop :=
  ∃ before x' after, ss = before ++ .release x' :: after ∧ x' ≠ x ∧
    f x' = some y ∧ ∀ s ∈ after, s.map f ≠ .press y

/-! ## One more stroke -/

section Snoc

variable {ss : List (Stroke α)} {s : Stroke α} {x : α} {i : Nat}

/-- An element of a list that is one longer: the last one, or one of the
    others. -/
theorem snoc_eq_split {β : Type} {l before after : List β} {a b : β} :
    l ++ [b] = before ++ a :: after
      ↔ (after = [] ∧ l = before ∧ b = a) ∨
        ∃ front, after = front ++ [b] ∧ l = before ++ a :: front := by
  constructor
  · intro h
    rcases List.eq_nil_or_concat after with rfl | ⟨front, c, rfl⟩
    · obtain ⟨hl, hb⟩ := List.append_inj' h rfl
      exact Or.inl ⟨rfl, hl, (List.cons.inj hb).1⟩
    · rw [List.concat_eq_append, ← List.cons_append,
        ← List.append_assoc] at h
      obtain ⟨hl, hb⟩ := List.append_inj' h rfl
      refine Or.inr ⟨front, ?_, hl⟩
      rw [List.concat_eq_append, (List.cons.inj hb).1]
  · rintro (⟨rfl, rfl, rfl⟩ | ⟨front, rfl, rfl⟩)
    · rfl
    · rw [List.append_assoc, List.cons_append]

theorem forall_mem_snoc {β : Type} {P : β → Prop} {l : List β} {b : β} :
    (∀ c ∈ l ++ [b], P c) ↔ (∀ c ∈ l, P c) ∧ P b := by
  rw [List.forall_mem_append, List.forall_mem_singleton]

theorem not_held_nil : ¬ Held ([] : List (Stroke α)) x := by
  rintro ⟨before, after, h, -⟩
  exact absurd h.symm (by simp)

/-- A stroke presses `x`, or leaves it held. -/
theorem held_snoc :
    Held (ss ++ [s]) x ↔ s = .press x ∨ (Held ss x ∧ ¬ s.Lifts x) := by
  constructor
  · rintro ⟨before, after, h, hafter⟩
    rcases snoc_eq_split.mp h with ⟨-, -, hs⟩ | ⟨front, rfl, hss⟩
    · exact Or.inl hs
    · obtain ⟨hfront, hs⟩ := forall_mem_snoc.mp hafter
      exact Or.inr ⟨⟨before, front, hss, hfront⟩, hs⟩
  · rintro (rfl | ⟨⟨before, after, rfl, hafter⟩, hs⟩)
    · exact ⟨ss, [], rfl, fun s hs => absurd hs List.not_mem_nil⟩
    · refine ⟨before, after ++ [s], ?_, forall_mem_snoc.mpr ⟨hafter, hs⟩⟩
      exact snoc_eq_split.mpr (Or.inr ⟨after, rfl, rfl⟩)

/-- The last stroke is a first press. -/
theorem since_press (h : ¬ Held ss x) : Since (ss ++ [.press x]) x ss.length :=
  ⟨ss, [], rfl, rfl, h, fun _ hs => absurd hs List.not_mem_nil⟩

/-- A stroke that does not lift `x` leaves it held since it was. -/
theorem Since.snoc (h : Since ss x i) (hs : ¬ s.Lifts x) :
    Since (ss ++ [s]) x i := by
  obtain ⟨before, after, rfl, hlen, hno, hafter⟩ := h
  refine ⟨before, after ++ [s], ?_, hlen, hno, forall_mem_snoc.mpr ⟨hafter, hs⟩⟩
  exact snoc_eq_split.mpr (Or.inr ⟨after, rfl, rfl⟩)

end Snoc

/-! ## Since when -/

section SinceWhen

variable {ss : List (Stroke α)} {x : α} {i : Nat}

theorem Since.lt (h : Since ss x i) : i < ss.length := by
  obtain ⟨before, after, rfl, rfl, -, -⟩ := h
  rw [List.length_append, List.length_cons]
  omega

/-- What is held is so since some press. -/
theorem Held.since (h : Held ss x) : ∃ i, Since ss x i := by
  induction ss using List.reverseRecOn with
  | nil => exact absurd h not_held_nil
  | append_singleton ss s ih =>
      by_cases hbefore : Held ss x
      · obtain ⟨i, hi⟩ := ih hbefore
        rcases held_snoc.mp h with rfl | ⟨-, hs⟩
        · exact ⟨i, hi.snoc not_false⟩
        · exact ⟨i, hi.snoc hs⟩
      · rcases held_snoc.mp h with hs | ⟨hheld, -⟩
        · rw [hs]
          exact ⟨_, since_press hbefore⟩
        · exact absurd hheld hbefore

end SinceWhen

/-! ## The list of what is held -/

/-- The list is what is held, without repetition, ordered by since when. -/
structure InPressOrder (ss : List (Stroke α)) (held : List α) : Prop where
  nodup : held.Nodup
  mem : ∀ x, x ∈ held ↔ Held ss x
  order : held.Pairwise fun x y => ∃ i j, Since ss x i ∧ Since ss y j ∧ i < j

section Extend

variable {ss : List (Stroke α)} {held : List α} {x : α}

theorem inPressOrder_nil : InPressOrder ([] : List (Stroke α)) [] where
  nodup := List.nodup_nil
  mem := fun _ => iff_of_false List.not_mem_nil not_held_nil
  order := List.Pairwise.nil

/-- A repeated press changes nothing. -/
theorem InPressOrder.press_held (h : InPressOrder ss held) (hx : x ∈ held) :
    InPressOrder (ss ++ [.press x]) held where
  nodup := h.nodup
  mem := by
    intro y
    rw [held_snoc, h.mem]
    constructor
    · exact fun hy => Or.inr ⟨hy, not_false⟩
    · rintro (heq | ⟨hy, -⟩)
      · rw [← Stroke.press.inj heq]
        exact (h.mem x).mp hx
      · exact hy
  order := by
    refine h.order.imp ?_
    rintro y z ⟨i, j, hi, hj, hlt⟩
    exact ⟨i, j, hi.snoc not_false, hj.snoc not_false, hlt⟩

/-- A first press comes after all that are held. -/
theorem InPressOrder.press_new (h : InPressOrder ss held) (hx : x ∉ held) :
    InPressOrder (ss ++ [.press x]) (held ++ [x]) where
  nodup := List.nodup_append.mpr ⟨h.nodup, List.nodup_singleton x, by
    rintro y hy z hz rfl
    exact hx (List.mem_singleton.mp hz ▸ hy)⟩
  mem := by
    intro y
    rw [held_snoc, List.mem_append, List.mem_singleton, h.mem]
    constructor
    · rintro (hy | rfl)
      · exact Or.inr ⟨hy, not_false⟩
      · exact Or.inl rfl
    · rintro (heq | ⟨hy, -⟩)
      · exact Or.inr (Stroke.press.inj heq).symm
      · exact Or.inl hy
  order := by
    have hlast : Since (ss ++ [.press x]) x ss.length :=
      since_press fun hheld => hx ((h.mem x).mpr hheld)
    refine List.pairwise_append.mpr ⟨?_, List.pairwise_singleton _ _, ?_⟩
    · refine h.order.imp ?_
      rintro y z ⟨i, j, hi, hj, hlt⟩
      exact ⟨i, j, hi.snoc not_false, hj.snoc not_false, hlt⟩
    · intro y hy z hz
      obtain ⟨i, hi⟩ := ((h.mem y).mp hy).since
      rw [List.mem_singleton.mp hz]
      exact ⟨i, ss.length, hi.snoc not_false, hlast, hi.lt⟩

/-- A stroke that presses nothing leaves what it does not lift. -/
theorem InPressOrder.lift (h : InPressOrder ss held) {s : Stroke α}
    (hpress : ∀ y, s ≠ .press y) {kept : List α} (hsub : kept.Sublist held)
    (hkept : ∀ y, y ∈ kept ↔ y ∈ held ∧ ¬ s.Lifts y) :
    InPressOrder (ss ++ [s]) kept where
  nodup := h.nodup.sublist hsub
  mem := by
    intro y
    rw [held_snoc, hkept, h.mem, or_iff_right (hpress y)]
  order := by
    refine (h.order.sublist hsub).imp_of_mem ?_
    rintro y z hy hz ⟨i, j, hi, hj, hlt⟩
    exact ⟨i, j, hi.snoc ((hkept y).mp hy).2, hj.snoc ((hkept z).mp hz).2, hlt⟩

end Extend

section List

variable [DecidableEq α]

/-- The list after a stroke. -/
def hold (held : List α) : Stroke α → List α
  | .press x => if x ∈ held then held else held ++ [x]
  | .release x => held.filter fun y => y ≠ x
  | .clear => []
  | .other => held

/-- **ONE STROKE** keeps the list of what is held. -/
theorem InPressOrder.snoc {ss : List (Stroke α)} {held : List α}
    (h : InPressOrder ss held) (s : Stroke α) :
    InPressOrder (ss ++ [s]) (hold held s) := by
  cases s with
  | press x =>
      rw [hold]
      split
      · exact h.press_held ‹_›
      · exact h.press_new ‹_›
  | release x =>
      refine h.lift (by simp) List.filter_sublist ?_
      intro y
      rw [hold, List.mem_filter, decide_eq_true_iff]
      exact and_congr_right fun _ => not_congr eq_comm
  | clear =>
      refine h.lift (by simp) (List.nil_sublist held) ?_
      intro y
      exact iff_of_false List.not_mem_nil fun hy => hy.2 trivial
  | other =>
      refine h.lift (by simp) (List.Sublist.refl held) ?_
      intro y
      exact (and_iff_left not_false).symm

/-- **THE LIST IS WHAT IS HELD**: after any history. -/
theorem inPressOrder_held (ss : List (Stroke α)) :
    InPressOrder ss (ss.foldl hold []) := by
  induction ss using List.reverseRecOn with
  | nil => exact inPressOrder_nil
  | append_singleton ss s ih =>
      rw [List.foldl_append]
      exact ih.snoc s

/-- What is down after a stroke, where a press may fail. -/
def lower (took : Bool) (down : Finset α) : Stroke α → Finset α
  | .press x => if took then insert x down else down
  | .release x => down.erase x
  | .clear => ∅
  | .other => down

/-- The list has everything that is down, whether or not presses take. -/
theorem lower_mem_hold {took : Bool} {down : Finset α} {held : List α}
    (h : ∀ x ∈ down, x ∈ held) (s : Stroke α) :
    ∀ x ∈ lower took down s, x ∈ hold held s := by
  intro x hx
  cases s with
  | press y =>
      have hpush : x ∈ held ∨ x = y := by
        cases took with
        | false => exact Or.inl (h x hx)
        | true => exact (Finset.mem_insert.mp hx).symm.imp_left (h x)
      rw [hold]
      split
      · rename_i hy
        rcases hpush with hx | rfl
        · exact hx
        · exact hy
      · exact List.mem_append.mpr (hpush.imp_right List.mem_singleton.mpr)
  | release y =>
      obtain ⟨hne, hx⟩ := Finset.mem_erase.mp hx
      exact List.mem_filter.mpr ⟨h x hx, decide_eq_true hne⟩
  | clear => exact absurd hx (Finset.notMem_empty x)
  | other => exact h x hx

/-- If presses take, a stroke puts a thing down or leaves it there. -/
theorem mem_lower {down : Finset α} {s : Stroke α} {x : α} :
    x ∈ lower true down s ↔ s = .press x ∨ (x ∈ down ∧ ¬ s.Lifts x) := by
  cases s with
  | press y =>
      show x ∈ insert y down ↔ _
      rw [Finset.mem_insert, Stroke.press.injEq, eq_comm]
      exact or_congr_right (and_iff_left not_false).symm
  | release y =>
      show x ∈ down.erase y ↔ _
      rw [Finset.mem_erase, and_comm, ne_comm]
      exact (or_iff_right (by simp)).symm
  | clear =>
      refine iff_of_false (Finset.notMem_empty x) ?_
      rintro (heq | ⟨-, hno⟩)
      · cases heq
      · exact hno trivial
  | other =>
      refine Iff.trans ?_ (or_iff_right (by simp)).symm
      exact (and_iff_left not_false).symm

end List

/-! ## Through a map -/

section Map

variable {f : α → Option β} {ss : List (Stroke α)} {s : Stroke α} {x : α}
  {y : β}

/-- A stroke that lifts a thing lifts its image. -/
theorem Stroke.Lifts.map (hf : f x = some y) (h : s.Lifts x) :
    (s.map f).Lifts y := by
  cases s with
  | press z => exact absurd h not_false
  | release z =>
      rw [Stroke.Lifts] at h
      simp only [Stroke.map, h, hf, Stroke.Lifts]
  | clear => exact h
  | other => exact h

/-- A stroke that lifts the image and not the thing is the release of
    another. -/
theorem release_of_lifts_map (h : (s.map f).Lifts y) (hx : ¬ s.Lifts x) :
    ∃ x', s = .release x' ∧ x' ≠ x ∧ f x' = some y := by
  cases s with
  | press z =>
      simp only [Stroke.map] at h
      cases hz : f z with
      | none => rw [hz] at h; exact absurd h not_false
      | some w => rw [hz] at h; exact absurd h not_false
  | release z =>
      simp only [Stroke.map] at h
      cases hz : f z with
      | none => rw [hz] at h; exact absurd h not_false
      | some w =>
          rw [hz] at h
          have hw : w = y := h
          exact ⟨z, rfl, hx, hw ▸ hz⟩
  | clear => exact absurd trivial hx
  | other => exact absurd h not_false

theorem map_press (hf : f x = some y) :
    (Stroke.press x).map f = .press y := by
  simp only [Stroke.map, hf]

theorem map_release (hf : f x = some y) :
    (Stroke.release x).map f = .release y := by
  simp only [Stroke.map, hf]

theorem map_press_none (hf : f x = none) : (Stroke.press x).map f = .other := by
  simp only [Stroke.map, hf]

theorem map_release_none (hf : f x = none) :
    (Stroke.release x).map f = .other := by
  simp only [Stroke.map, hf]

/-- Without a press nothing is held that was not. -/
theorem not_held_append {ss after : List (Stroke β)} (h : ¬ Held ss y)
    (hafter : ∀ s ∈ after, s ≠ .press y) : ¬ Held (ss ++ after) y := by
  induction after using List.reverseRecOn with
  | nil =>
      rw [List.append_nil]
      exact h
  | append_singleton after s ih =>
      obtain ⟨hbefore, hs⟩ := forall_mem_snoc.mp hafter
      rw [← List.append_assoc, held_snoc]
      rintro (heq | ⟨hheld, -⟩)
      · exact hs heq
      · exact ih hbefore hheld

/-- A release by another thing lifts the image. -/
theorem LiftedByOther.not_held (h : LiftedByOther f ss x y) :
    ¬ Held (ss.map (Stroke.map f)) y := by
  obtain ⟨before, x', after, rfl, -, hf, hafter⟩ := h
  have hlifted : ¬ Held (before.map (Stroke.map f) ++ [.release y]) y := by
    rw [held_snoc]
    rintro (heq | ⟨-, hno⟩)
    · cases heq
    · exact hno rfl
  have hall : ∀ s ∈ after.map (Stroke.map f), s ≠ .press y := by
    intro s hs
    obtain ⟨s', hs', rfl⟩ := List.mem_map.mp hs
    exact hafter s' hs'
  have hno := not_held_append hlifted hall
  rwa [List.map_append, List.map_cons, map_release hf, List.append_cons]

/-- The image of a thing that is held is held, or another release lifted
    it. -/
theorem Held.map (hf : f x = some y) (h : Held ss x) :
    Held (ss.map (Stroke.map f)) y ∨ LiftedByOther f ss x y := by
  induction ss using List.reverseRecOn with
  | nil => exact absurd h not_held_nil
  | append_singleton ss s ih =>
      rw [List.map_append, List.map_singleton, held_snoc]
      rcases held_snoc.mp h with rfl | ⟨hbefore, hs⟩
      · exact Or.inl (Or.inl (map_press hf))
      · by_cases hpress : s.map f = .press y
        · exact Or.inl (Or.inl hpress)
        · by_cases hlifts : (s.map f).Lifts y
          · obtain ⟨x', rfl, hne, hx'⟩ := release_of_lifts_map hlifts hs
            exact Or.inr ⟨ss, x', [], rfl, hne, hx',
              fun _ hs => absurd hs List.not_mem_nil⟩
          · rcases ih hbefore with hheld | ⟨before, x', after, rfl, hne, hx', hno⟩
            · exact Or.inl (Or.inr ⟨hheld, hlifts⟩)
            · refine Or.inr ⟨before, x', after ++ [s], ?_, hne, hx',
                forall_mem_snoc.mpr ⟨hno, hpress⟩⟩
              rw [List.append_assoc, List.cons_append]

/-- **HELD UNTIL ANOTHER RELEASE**: while a thing is held, its image is,
    exactly until something else with this image is released. -/
theorem held_map_iff (hf : f x = some y) (h : Held ss x) :
    Held (ss.map (Stroke.map f)) y ↔ ¬ LiftedByOther f ss x y := by
  constructor
  · exact fun hheld hother => hother.not_held hheld
  · exact (h.map hf).resolve_right

/-- The image of nothing but `x` is held while `x` is. -/
theorem held_map_of_unique (hf : f x = some y) (h : Held ss x)
    (hunique : ∀ x', f x' = some y → x' = x) :
    Held (ss.map (Stroke.map f)) y := by
  refine (held_map_iff hf h).mpr ?_
  rintro ⟨before, x', after, -, hne, hx', -⟩
  exact hne (hunique x' hx')

end Map

end HeldOrder
