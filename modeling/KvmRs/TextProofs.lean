import Mathlib.Data.List.DropRight

/-! # Characters and trimming

    The character classes, the trimming and the searching of Rust strings, on
    lists of characters.  The case tables of Unicode are a parameter, of which
    only the ASCII part is known. -/

namespace KvmText

/-- `char::is_whitespace`: the Unicode property `White_Space`. -/
def isWhitespace (c : Char) : Bool :=
  let n := c.toNat
  decide (9 ≤ n ∧ n ≤ 13 ∨ n = 0x20 ∨ n = 0x85 ∨ n = 0xA0 ∨ n = 0x1680
    ∨ 0x2000 ≤ n ∧ n ≤ 0x200A ∨ n = 0x2028 ∨ n = 0x2029 ∨ n = 0x202F
    ∨ n = 0x205F ∨ n = 0x3000)

/-- `char::is_control`: the Unicode category `Cc`. -/
def isControl (c : Char) : Bool :=
  let n := c.toNat
  decide (n ≤ 0x1F ∨ 0x7F ≤ n ∧ n ≤ 0x9F)

/-- `str::trim`. -/
def trim (s : List Char) : List Char :=
  ((s.dropWhile isWhitespace).reverse.dropWhile isWhitespace).reverse

/-- `str::contains`. -/
def contains : List Char → List Char → Bool
  | [], pat => pat.isEmpty
  | c :: s, pat => pat.isPrefixOf (c :: s) || contains s pat

/-- `str::eq_ignore_ascii_case`. -/
def eqIgnoreAsciiCase (a b : List Char) : Bool :=
  a.map Char.toUpper == b.map Char.toUpper

/-- `str::to_uppercase` and `str::to_lowercase`. -/
structure Casing where
  toUppercase : List Char → List Char
  toLowercase : List Char → List Char
  toUppercase_ascii : ∀ s, (∀ c ∈ s, c.toNat < 128) →
    toUppercase s = s.map Char.toUpper

/-- Plain upper case: what an ASCII upper-casing leaves alone. -/
def IsUpper (s : List Char) : Prop :=
  ∀ c ∈ s, c.toNat < 128 ∧ c.toUpper = c

theorem IsUpper.map_toUpper {s : List Char} (h : IsUpper s) :
    s.map Char.toUpper = s := by
  calc s.map Char.toUpper = s.map id :=
        List.map_congr_left fun c hc => (h c hc).2
    _ = s := List.map_id s

/-- Upper-casing does nothing to plain upper case. -/
theorem IsUpper.toUppercase {s : List Char} (h : IsUpper s) (t : Casing) :
    t.toUppercase s = s := by
  rw [t.toUppercase_ascii s fun c hc => (h c hc).1, h.map_toUpper]

/-- What becomes ASCII by changing the case of ASCII letters was ASCII. -/
theorem ascii_of_toUpper {c : Char} (h : c.toUpper.toNat < 128) :
    c.toNat < 128 := by
  by_cases hlow : 'a'.val ≤ c.val ∧ c.val ≤ 'z'.val
  · have hle : c.val.toNat ≤ 122 := hlow.2
    exact Nat.lt_of_le_of_lt hle (by decide)
  · have hsame : c.toUpper = c := dif_neg hlow
    rw [hsame] at h
    exact h

/-- What holds of the first 128 characters holds of ASCII. -/
theorem ascii_char {P : Char → Prop} (hall : ∀ n < 128, P (Char.ofNat n))
    {c : Char} (hc : c.toNat < 128) : P c := by
  have hn := hall c.toNat hc
  rwa [Char.ofNat_toNat] at hn

/-- The upper case of ASCII text is plain upper case. -/
theorem isUpper_map_toUpper {s : List Char} (h : ∀ c ∈ s, c.toNat < 128) :
    IsUpper (s.map Char.toUpper) := by
  intro c hc
  obtain ⟨d, hd, rfl⟩ := List.mem_map.mp hc
  exact @ascii_char (fun d => d.toUpper.toNat < 128 ∧
    d.toUpper.toUpper = d.toUpper) (by decide) d (h d hd)

/-! ## Letter case -/

/-- What holds of ASCII and of everything else holds of every character. -/
theorem forall_char {P : Char → Prop} (hascii : ∀ n < 128, P (Char.ofNat n))
    (hother : ∀ c : Char, 128 ≤ c.toNat → P c) (c : Char) : P c := by
  by_cases hc : c.toNat < 128
  · exact ascii_char hascii hc
  · exact hother c (Nat.le_of_not_lt hc)

/-- Beyond ASCII the two case changes do nothing. -/
theorem toLower_of_other {c : Char} (h : 128 ≤ c.toNat) : c.toLower = c := by
  refine dif_neg fun hup => ?_
  have hle : c.toNat ≤ 90 := hup.2
  omega

theorem toUpper_of_other {c : Char} (h : 128 ≤ c.toNat) : c.toUpper = c := by
  refine dif_neg fun hlow => ?_
  have hle : c.toNat ≤ 122 := hlow.2
  omega

theorem toUpper_toLower (c : Char) : c.toLower.toUpper = c.toUpper := by
  refine @forall_char (fun c => c.toLower.toUpper = c.toUpper) (by decide) ?_ c
  intro c hc
  show c.toLower.toUpper = c.toUpper
  rw [toLower_of_other hc]

theorem toLower_toUpper (c : Char) : c.toUpper.toLower = c.toLower := by
  refine @forall_char (fun c => c.toUpper.toLower = c.toLower) (by decide) ?_ c
  intro c hc
  show c.toUpper.toLower = c.toLower
  rw [toUpper_of_other hc]

theorem isWhitespace_toLower (c : Char) :
    isWhitespace c.toLower = isWhitespace c := by
  refine @forall_char (fun c => isWhitespace c.toLower = isWhitespace c)
    (by decide) ?_ c
  intro c hc
  show isWhitespace c.toLower = isWhitespace c
  rw [toLower_of_other hc]

/-- Two texts are the same in lower case exactly if they are in upper case. -/
theorem map_toLower_eq_iff {a b : List Char} :
    a.map Char.toLower = b.map Char.toLower
      ↔ a.map Char.toUpper = b.map Char.toUpper := by
  have hup : ∀ s : List Char,
      (s.map Char.toLower).map Char.toUpper = s.map Char.toUpper := by
    intro s
    rw [List.map_map]
    exact List.map_congr_left fun c _ => toUpper_toLower c
  have hlow : ∀ s : List Char,
      (s.map Char.toUpper).map Char.toLower = s.map Char.toLower := by
    intro s
    rw [List.map_map]
    exact List.map_congr_left fun c _ => toLower_toUpper c
  constructor
  · intro h
    rw [← hup a, h, hup b]
  · intro h
    rw [← hlow a, h, hlow b]

/-- Letter case does not matter to trimming. -/
theorem trim_map_toLower (s : List Char) :
    trim (s.map Char.toLower) = (trim s).map Char.toLower := by
  have hspace : isWhitespace ∘ Char.toLower = isWhitespace :=
    funext isWhitespace_toLower
  rw [trim, trim, List.dropWhile_map, ← List.map_reverse, List.dropWhile_map,
    ← List.map_reverse, hspace]

/-- What is before the first separator, and what is behind it. -/
theorem cut_at_first {α : Type} {s : α} {x x' y y' : List α} (hx : s ∉ x)
    (hx' : s ∉ x') (h : x ++ s :: y = x' ++ s :: y') : x = x' ∧ y = y' := by
  induction x generalizing x' with
  | nil =>
      cases x' with
      | nil => exact ⟨rfl, (List.cons.inj h).2⟩
      | cons a x' =>
          have ha : s = a := (List.cons.inj h).1
          exact absurd (ha ▸ List.mem_cons_self) hx'
  | cons a x ih =>
      cases x' with
      | nil =>
          have ha : a = s := (List.cons.inj h).1
          exact absurd (ha ▸ List.mem_cons_self) hx
      | cons b x' =>
          obtain ⟨rfl, htail⟩ := List.cons.inj h
          obtain ⟨hxs, hys⟩ := ih (fun hs => hx (List.mem_cons_of_mem _ hs))
            (fun hs => hx' (List.mem_cons_of_mem _ hs)) htail
          exact ⟨congrArg (a :: ·) hxs, hys⟩

/-! ## Trimming -/

/-- Neither end of the text is whitespace. -/
structure Trimmed (s : List Char) : Prop where
  head : ∀ c, s.head? = some c → isWhitespace c = false
  last : ∀ c, s.getLast? = some c → isWhitespace c = false

section Trimming

variable {s t : List Char}

theorem dropWhile_of_head (h : ∀ c, s.head? = some c → isWhitespace c = false) :
    s.dropWhile isWhitespace = s := by
  cases s with
  | nil => rfl
  | cons c s => exact List.dropWhile_cons_of_neg (by rw [h c rfl]; decide)

/-- Trimming at the end does nothing exactly if the end is not whitespace. -/
theorem rdropWhile_iff : s.rdropWhile isWhitespace = s
    ↔ ∀ c, s.getLast? = some c → isWhitespace c = false := by
  rw [List.rdropWhile_eq_self_iff]
  constructor
  · intro h c hc
    have hne : s ≠ [] := by
      rintro rfl
      cases hc
    rw [List.getLast?_eq_some_getLast hne] at hc
    rw [← Option.some.inj hc]
    exact Bool.not_eq_true _ ▸ h hne
  · intro h hne
    rw [h _ (List.getLast?_eq_some_getLast hne)]
    decide

theorem Trimmed.trim (h : Trimmed s) : trim s = s := by
  show (s.dropWhile isWhitespace).rdropWhile isWhitespace = s
  rw [dropWhile_of_head h.head, rdropWhile_iff.mpr h.last]

theorem trimmed_trim (s : List Char) : Trimmed (trim s) where
  head := by
    intro c hc
    have hprefix : trim s <+: s.dropWhile isWhitespace :=
      List.rdropWhile_prefix isWhitespace (s.dropWhile isWhitespace)
    obtain ⟨rest, hrest⟩ := hprefix
    have hhead := List.head?_dropWhile_not isWhitespace s
    rw [← hrest, List.head?_append, hc] at hhead
    exact hhead
  last := by
    have hidem : (trim s).rdropWhile isWhitespace = trim s :=
      List.rdropWhile_idempotent isWhitespace (s.dropWhile isWhitespace)
    exact rdropWhile_iff.mp hidem

/-- What is left of a text by trimming is part of it. -/
theorem mem_of_mem_trim {c : Char} (hc : c ∈ trim s) : c ∈ s := by
  have hfront : trim s <+: s.dropWhile isWhitespace :=
    List.rdropWhile_prefix isWhitespace (s.dropWhile isWhitespace)
  exact (List.dropWhile_sublist isWhitespace).mem (hfront.subset hc)

/-- What is put behind a text keeps its trimming at the end. -/
theorem trim_append (h : Trimmed t) (hne : t ≠ []) :
    trim (s ++ t) = s.dropWhile isWhitespace ++ t := by
  have hdrop : (s ++ t).dropWhile isWhitespace
      = s.dropWhile isWhitespace ++ t := by
    rw [List.dropWhile_append]
    split
    · rename_i hempty
      rw [dropWhile_of_head h.head, List.isEmpty_iff.mp hempty, List.nil_append]
    · rfl
  show ((s ++ t).dropWhile isWhitespace).rdropWhile isWhitespace = _
  rw [hdrop, rdropWhile_iff]
  intro c hc
  rw [List.getLast?_append_of_ne_nil _ hne] at hc
  exact h.last c hc

end Trimming

theorem mem_intersperse {sep l : List Char} {ls : List (List Char)}
    (h : l ∈ ls.intersperse sep) : l = sep ∨ l ∈ ls := by
  induction ls with
  | nil => cases h
  | cons x ls ih =>
      cases ls with
      | nil => exact Or.inr h
      | cons y ls =>
          rw [List.intersperse_cons_cons, List.mem_cons, List.mem_cons] at h
          rcases h with rfl | rfl | h
          · exact Or.inr (List.mem_cons_self ..)
          · exact Or.inl rfl
          · exact (ih h).imp id (List.mem_cons_of_mem x)

theorem isUpper_intercalate {sep : List Char} {ls : List (List Char)}
    (hsep : IsUpper sep) (hls : ∀ l ∈ ls, IsUpper l) :
    IsUpper (sep.intercalate ls) := by
  intro c hc
  obtain ⟨l, hl, hcl⟩ := List.mem_flatten.mp hc
  rcases mem_intersperse hl with rfl | hl
  · exact hsep c hcl
  · exact hls l hl c hcl

theorem eqIgnoreAsciiCase_iff {a b : List Char} (hb : IsUpper b) :
    eqIgnoreAsciiCase a b = true ↔ a.map Char.toUpper = b := by
  rw [eqIgnoreAsciiCase, beq_iff_eq, hb.map_toUpper]

end KvmText
