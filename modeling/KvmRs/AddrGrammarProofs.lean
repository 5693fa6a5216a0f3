import KvmRs.AddrProofs
import Mathlib.Data.List.Basic

/-! # The grammar of addresses

    `parse_host_port` as a grammar: a trimmed text is a bracketed host with or
    without a port, a host and a port, or a bare host.  Every text has at most
    one reading, and the parser finds it.

    From this follows when the text that `format_host_port` writes is read
    back as the host and the port it was made of. -/

namespace KvmAddrGrammar

open KvmText KvmAddr

/-- The readings of a trimmed text, with `d` as the default port. -/
inductive HostPort (d : UInt16) : List Char → List Char → UInt16 → Prop where
  | bracketed {h : List Char} (hclose : ']' ∉ h) (hne : h ≠ []) :
      HostPort d ('[' :: (h ++ [']'])) h d
  | bracketedPort {h q : List Char} {p : UInt16} (hclose : ']' ∉ h)
      (hne : h ≠ []) (hport : parseU16 q = some p) :
      HostPort d ('[' :: (h ++ ']' :: ':' :: q)) h p
  | bare {h : List Char} (hne : h ≠ []) (hopen : h.head? ≠ some '[')
      (hcount : h.count ':' ≠ 1) : HostPort d h h d
  | withPort {h q : List Char} {p : UInt16} (hne : h ≠ [])
      (hopen : h.head? ≠ some '[') (hcolon : ':' ∉ h) (hport : ':' ∉ q)
      (hparse : parseU16 q = some p) : HostPort d (h ++ ':' :: q) h p

/-! ## Cutting -/

section Cutting

variable {c : Char} {s before after : List Char}

theorem splitOnce_of_notMem (h : c ∉ s) : splitOnce c s = none := by
  have hall : ∀ x ∈ s, decide (x ≠ c) = true := by
    intro x hx
    refine decide_eq_true ?_
    rintro rfl
    exact h hx
  have hdrop : s.dropWhile (fun x => decide (x ≠ c)) = [] :=
    List.dropWhile_eq_nil_iff.mpr hall
  simp only [splitOnce, hdrop]

/-- Cutting finds the first `c`, and what is before it has none. -/
theorem splitOnce_some :
    splitOnce c s = some (before, after)
      ↔ s = before ++ c :: after ∧ c ∉ before := by
  constructor
  · intro h
    by_cases hc : c ∈ s
    · obtain ⟨as, bs, rfl, has⟩ := List.eq_append_cons_of_mem hc
      rw [splitOnce_append has] at h
      obtain ⟨rfl, rfl⟩ := Prod.mk.inj (Option.some.inj h)
      exact ⟨rfl, has⟩
    · rw [splitOnce_of_notMem hc] at h
      cases h
  · rintro ⟨rfl, hc⟩
    exact splitOnce_append hc

/-- A text with one `c` is cut there. -/
theorem rsplitOnce_of_count (h : s.count c = 1) :
    ∃ before after, s = before ++ c :: after ∧ c ∉ before ∧ c ∉ after ∧
      rsplitOnce c s = some (before, after) := by
  have hc : c ∈ s := List.count_pos_iff.mp (by omega)
  obtain ⟨as, bs, rfl, has⟩ := List.eq_append_cons_of_mem hc
  rw [List.count_append, List.count_cons_self, List.count_eq_zero.mpr has] at h
  have hbs : c ∉ bs := List.count_eq_zero.mp (by omega)
  exact ⟨as, bs, rfl, has, hbs, rsplitOnce_append hbs⟩

end Cutting

/-! ## The parser -/

section Parser

variable {s h rest : List Char} {d p : UInt16}

/-- A reading is what the parser returns. -/
theorem ok_of_reading {t : List Char} (ht : trim s = t) (hr : HostPort d t h p) :
    parseHostPort s d = .ok (h, p) := by
  cases hr with
  | bracketed hclose hne =>
      cases h with
      | nil => exact absurd rfl hne
      | cons c h => simp only [parseHostPort, ht, splitOnce_append hclose]
  | bracketedPort hclose hne hport =>
      cases h with
      | nil => exact absurd rfl hne
      | cons c h => simp only [parseHostPort, ht, splitOnce_append hclose, hport]
  | bare hne hopen hcount =>
      simp only [parseHostPort, ht]
      split
      · exact absurd rfl hne
      · exact absurd rfl hopen
      · rw [if_pos hcount]
  | @withPort h q p hne hopen hcolon hport hparse =>
      have hcount : (h ++ ':' :: q).count ':' = 1 := by
        rw [List.count_append, List.count_cons_self,
          List.count_eq_zero.mpr hcolon, List.count_eq_zero.mpr hport]
      cases h with
      | nil => exact absurd rfl hne
      | cons c h =>
          simp only [parseHostPort, ht]
          split
          · rename_i heq
            cases heq
          · rename_i rest heq
            obtain ⟨rfl, -⟩ := List.cons.inj heq
            exact absurd rfl hopen
          · rw [if_neg (not_not.mpr hcount), rsplitOnce_append hport]
            simp only [hparse]

/-- What the parser returns is a reading. -/
theorem reading_of_ok (hok : parseHostPort s d = .ok (h, p)) :
    HostPort d (trim s) h p := by
  simp only [parseHostPort] at hok
  split at hok
  · cases hok
  · rename_i rest ht
    rw [ht]
    split at hok
    · cases hok
    · cases hok
    · rename_i host after hne hcut
      obtain ⟨rfl, hclose⟩ := splitOnce_some.mp hcut
      have hne' : host ≠ [] := hne
      split at hok
      · obtain ⟨rfl, rfl⟩ := Prod.mk.inj (Except.ok.inj hok)
        exact .bracketed hclose hne'
      · rename_i q
        split at hok
        · rename_i port hport
          obtain ⟨rfl, rfl⟩ := Prod.mk.inj (Except.ok.inj hok)
          exact .bracketedPort hclose hne' hport
        · cases hok
      · cases hok
  · rename_i hempty hopen
    have hopen' : (trim s).head? ≠ some '[' := by
      intro hhead
      obtain ⟨rest, hrest⟩ := List.head?_eq_some_iff.mp hhead
      exact hopen rest hrest
    split at hok
    · rename_i hcount
      obtain ⟨hh, rfl⟩ := Prod.mk.inj (Except.ok.inj hok)
      rw [← hh]
      exact .bare hempty hopen' hcount
    · rename_i hcount
      obtain ⟨before, after, heq, hb, ha, hcut⟩ :=
        rsplitOnce_of_count (not_not.mp hcount)
      rw [heq] at hopen' hok ⊢
      rw [← heq, hcut] at hok
      cases before with
      | nil => cases hok
      | cons c before =>
          simp only at hok
          split at hok
          · rename_i port hport
            obtain ⟨rfl, rfl⟩ := Prod.mk.inj (Except.ok.inj hok)
            exact .withPort (List.cons_ne_nil c before) hopen' hb ha hport
          · cases hok

/-- **THE PARSER FINDS THE READING**, and there is no other one. -/
theorem parse_ok_iff :
    parseHostPort s d = .ok (h, p) ↔ HostPort d (trim s) h p :=
  ⟨reading_of_ok, ok_of_reading rfl⟩

end Parser

/-! ## Reading back -/

/-- What is written of a port. -/
theorem portDigits (p : UInt16) :
    Nat.toDigits 10 p.toNat ≠ [] ∧
      ∀ c ∈ Nat.toDigits 10 p.toNat, c ≠ ':' ∧ c ≠ ']' ∧
        isWhitespace c = false := by
  refine ⟨Nat.toDigits_ne_nil, ?_⟩
  intro c hc
  have hdigit : c.isDigit = true :=
    Nat.isDigit_of_mem_toDigits (by decide) (by decide) hc
  simp only [Char.isDigit, Bool.and_eq_true, decide_eq_true_eq] at hdigit
  have hlow : 48 ≤ c.toNat := UInt32.le_iff_toNat_le.mp hdigit.1
  have hhigh : c.toNat ≤ 57 := UInt32.le_iff_toNat_le.mp hdigit.2
  refine ⟨?_, ?_, ?_⟩
  · rintro rfl
    exact absurd hhigh (by decide)
  · rintro rfl
    exact absurd hhigh (by decide)
  · refine decide_eq_false ?_
    omega

/-- Only the front of a host can be trimmed when a port is behind it. -/
theorem trim_with_port (h : List Char) (p : UInt16) :
    trim (h ++ ":".toList ++ Nat.toDigits 10 p.toNat)
      = h.dropWhile isWhitespace ++ ':' :: Nat.toDigits 10 p.toNat := by
  obtain ⟨hds, hdigits⟩ := portDigits p
  rw [List.append_assoc]
  refine trim_append ⟨?_, ?_⟩ (List.cons_ne_nil _ _)
  · intro c hc
    rw [← Option.some.inj hc]
    decide
  · intro c hc
    change (':' :: Nat.toDigits 10 p.toNat).getLast? = some c at hc
    rw [List.getLast?_cons_of_ne_nil hds] at hc
    exact (hdigits c (List.mem_of_getLast? hc)).2.2

section Rereading

variable {d p : UInt16} {t u h ds : List Char}

theorem HostPort.ne_nil (hr : HostPort d t h p) : h ≠ [] := by
  cases hr <;> assumption

/-- A text that begins with a bracket is a bracketed host. -/
theorem HostPort.no_close (hr : HostPort d t h p) (ht : t.head? = some '[') :
    ']' ∉ h := by
  cases hr with
  | bracketed hclose hne => exact hclose
  | bracketedPort hclose hne hport => exact hclose
  | bare hne hopen hcount => exact absurd ht hopen
  | @withPort h q p hne hopen hcolon hport hparse =>
      rw [List.head?_append_of_ne_nil h hne] at ht
      exact absurd ht hopen

/-- A text with one colon: what is before it is the host, perhaps in
    brackets. -/
theorem HostPort.one_colon (hr : HostPort d (u ++ ':' :: ds) h p)
    (hu : ':' ∉ u) (hds : ∀ c ∈ ds, c ≠ ':' ∧ c ≠ ']') :
    parseU16 ds = some p ∧
      (h = u ∧ u.head? ≠ some '[' ∨ u = '[' :: (h ++ [']'])) := by
  have hno : ':' ∉ ds := fun hc => (hds ':' hc).1 rfl
  generalize ht : u ++ ':' :: ds = t at hr
  have hcount : t.count ':' = 1 := by
    rw [← ht, List.count_append, List.count_cons_self,
      List.count_eq_zero.mpr hu, List.count_eq_zero.mpr hno]
  cases hr with
  | bracketed hclose hne =>
      -- the text ends with a digit
      have hlast := congrArg List.getLast? ht
      rw [← List.cons_append, List.getLast?_concat,
        List.getLast?_append_of_ne_nil _ (List.cons_ne_nil _ _)] at hlast
      have hmem := List.mem_of_getLast? hlast
      rcases List.mem_cons.mp hmem with heq | hin
      · exact absurd heq (by decide)
      · exact absurd rfl (hds ']' hin).2
  | @bracketedPort h q p hclose hne hport =>
      have hcat : '[' :: (h ++ ']' :: ':' :: q)
          = ('[' :: (h ++ [']'])) ++ ':' :: q := by simp
      rw [hcat, List.count_append, List.count_cons_self] at hcount
      have hfirst : ':' ∉ '[' :: (h ++ [']']) :=
        List.count_eq_zero.mp (by omega)
      obtain ⟨rfl, rfl⟩ := cut_at_first hu hfirst (ht.trans hcat)
      exact ⟨hport, Or.inr rfl⟩
  | bare hne hopen hcount' => exact absurd hcount hcount'
  | @withPort h q p hne hopen hcolon hport hparse =>
      obtain ⟨rfl, rfl⟩ := cut_at_first hu hcolon ht
      exact ⟨hparse, Or.inl ⟨rfl, hopen⟩⟩

/-- The hosts that survive being written and read again. -/
def Rereads (h : List Char) : Prop :=
  if ':' ∈ h then ']' ∉ h
  else ∀ c, h.head? = some c → c ≠ '[' ∧ isWhitespace c = false

/-- Writing a host with colons brackets it. -/
theorem reread_colon (hcolon : ':' ∈ h) :
    parseHostPort (formatHostPort h p) d = .ok (h, p) ↔ ']' ∉ h := by
  obtain ⟨hne, hdigits⟩ := portDigits p
  have htext : formatHostPort h p
      = '[' :: (h ++ ']' :: ':' :: Nat.toDigits 10 p.toNat) := by
    rw [formatHostPort, if_pos hcolon]
    simp
  have htrim : trim (formatHostPort h p)
      = '[' :: (h ++ ']' :: ':' :: Nat.toDigits 10 p.toNat) := by
    rw [htext]
    refine Trimmed.trim ⟨?_, ?_⟩
    · intro c hc
      rw [← Option.some.inj hc]
      decide
    · intro c hc
      have hcat : '[' :: (h ++ ']' :: ':' :: Nat.toDigits 10 p.toNat)
          = ('[' :: (h ++ [']', ':'])) ++ Nat.toDigits 10 p.toNat := by simp
      rw [hcat, List.getLast?_append_of_ne_nil _ hne] at hc
      exact (hdigits c (List.mem_of_getLast? hc)).2.2
  rw [parse_ok_iff, htrim]
  constructor
  · intro hr
    exact hr.no_close rfl
  · intro hclose
    refine .bracketedPort hclose ?_ (parseU16_toDigits p)
    rintro rfl
    cases hcolon

/-- Writing any other host leaves it as it is, and trimming may change it. -/
theorem reread_plain (hne : h ≠ []) (hcolon : ':' ∉ h) :
    parseHostPort (formatHostPort h p) d = .ok (h, p)
      ↔ ∀ c, h.head? = some c → c ≠ '[' ∧ isWhitespace c = false := by
  obtain ⟨hds, hdigits⟩ := portDigits p
  have htrim : trim (formatHostPort h p)
      = h.dropWhile isWhitespace ++ ':' :: Nat.toDigits 10 p.toNat := by
    rw [formatHostPort, if_neg hcolon, trim_with_port]
  have hcolon' : ':' ∉ h.dropWhile isWhitespace := fun hc =>
    hcolon ((List.dropWhile_sublist isWhitespace).mem hc)
  rw [parse_ok_iff, htrim]
  constructor
  · intro hr c hc
    obtain ⟨-, ⟨hhost, hopen⟩ | hbracket⟩ := hr.one_colon hcolon'
      (fun c hc => ⟨(hdigits c hc).1, (hdigits c hc).2.1⟩)
    · rw [← hhost, hc] at hopen
      refine ⟨fun heq => hopen (by rw [heq]), ?_⟩
      have hhead := List.head?_dropWhile_not isWhitespace h
      rw [← hhost, hc] at hhead
      exact hhead
    · -- the brackets make the text longer
      have hlen := (List.dropWhile_sublist isWhitespace (l := h)).length_le
      rw [hbracket] at hlen
      simp only [List.length_cons, List.length_append, List.length_nil] at hlen
      omega
  · intro hhead
    rw [dropWhile_of_head fun c hc => (hhead c hc).2]
    refine .withPort hne ?_ hcolon (fun hc => (hdigits ':' hc).1 rfl)
      (parseU16_toDigits p)
    intro hopen
    exact (hhead '[' hopen).1 rfl

theorem reread_iff (hne : h ≠ []) :
    parseHostPort (formatHostPort h p) d = .ok (h, p) ↔ Rereads h := by
  by_cases hcolon : ':' ∈ h
  · rw [Rereads, if_pos hcolon]
    exact reread_colon hcolon
  · rw [Rereads, if_neg hcolon]
    exact reread_plain hne hcolon

end Rereading

/-! ## Which addresses are stable -/

/-- The trimmed texts whose host survives: between brackets one with a colon,
    or one that begins with neither whitespace nor another bracket; without
    brackets one that is no IPv6 literal, or has no closing bracket in it. -/
def Rereadable (t : List Char) : Prop :=
  match t with
  | '[' :: rest =>
      let host := rest.takeWhile (· ≠ ']')
      ':' ∈ host ∨
        ∀ c, host.head? = some c → c ≠ '[' ∧ isWhitespace c = false
  | _ => t.count ':' ≤ 1 ∨ ']' ∉ t

section Stable

variable {d p : UInt16} {t h after : List Char}

theorem takeWhile_close (hclose : ']' ∉ h) :
    (h ++ ']' :: after).takeWhile (fun c => decide (c ≠ ']')) = h := by
  have hall : ∀ x ∈ h, decide (x ≠ ']') = true := by
    intro x hx
    refine decide_eq_true ?_
    rintro rfl
    exact hclose hx
  rw [List.takeWhile_append_of_pos hall]
  simp

theorem rereadable_bracketed (hclose : ']' ∉ h) :
    Rereadable ('[' :: (h ++ ']' :: after)) ↔ Rereads h := by
  show (':' ∈ (h ++ ']' :: after).takeWhile _ ∨ _) ↔ _
  rw [takeWhile_close hclose, Rereads]
  by_cases hcolon : ':' ∈ h
  · rw [if_pos hcolon]
    exact iff_of_true (Or.inl hcolon) hclose
  · rw [if_neg hcolon]
    exact or_iff_right hcolon

theorem rereadable_plain (hopen : t.head? ≠ some '[') :
    Rereadable t ↔ t.count ':' ≤ 1 ∨ ']' ∉ t := by
  unfold Rereadable
  split
  · exact absurd rfl hopen
  · exact Iff.rfl

/-- In terms of the host that was read. -/
theorem rereads_iff (hr : HostPort d t h p) (ht : Trimmed t) :
    Rereads h ↔ Rereadable t := by
  cases hr with
  | bracketed hclose hne => exact (rereadable_bracketed hclose).symm
  | bracketedPort hclose hne hport => exact (rereadable_bracketed hclose).symm
  | bare hne hopen hcount =>
      rw [rereadable_plain hopen, Rereads]
      by_cases hcolon : ':' ∈ t
      · rw [if_pos hcolon]
        have hpos := List.count_pos_iff.mpr hcolon
        exact (or_iff_right (by omega)).symm
      · rw [if_neg hcolon, List.count_eq_zero.mpr hcolon]
        refine iff_of_true ?_ (Or.inl (Nat.zero_le 1))
        intro c hc
        exact ⟨fun heq => hopen (by rw [hc, heq]), ht.head c hc⟩
  | @withPort h q p hne hopen hcolon hport hparse =>
      rw [rereadable_plain (by rwa [List.head?_append_of_ne_nil h hne]),
        Rereads, if_neg hcolon, List.count_append, List.count_cons_self,
        List.count_eq_zero.mpr hcolon, List.count_eq_zero.mpr hport]
      refine iff_of_true ?_ (Or.inl (Nat.le_refl 1))
      intro c hc
      refine ⟨fun heq => hopen (by rw [hc, heq]), ht.head c ?_⟩
      rw [List.head?_append_of_ne_nil h hne, hc]

end Stable

/-- **AN ADDRESS IS STABLE**, whatever default port it is read with the second
    time, exactly if its host survives being written. -/
theorem address_stable_iff (s : List Char) (d : UInt16) (h : List Char)
    (p : UInt16) (hok : parseHostPort s d = .ok (h, p)) :
    (∀ d', parseHostPort (formatHostPort h p) d' = .ok (h, p))
      ↔ Rereadable (trim s) := by
  have hr := parse_ok_iff.mp hok
  rw [← rereads_iff hr (trimmed_trim s)]
  constructor
  · intro hall
    exact (reread_iff hr.ne_nil).mp (hall d)
  · intro hh d'
    exact (reread_iff hr.ne_nil).mpr hh

/-- An IPv6 literal in brackets is read back. -/
theorem address_stable_iff_v6 :
    parseHostPort (formatHostPort "::1".toList 4100) 0
      = .ok ("::1".toList, 4100) :=
  (address_stable_iff "[::1]:4100".toList 4000 "::1".toList 4100 rfl).mpr
    (Or.inl (by decide)) 0

/-- **A BRACKET KEEPS A SPACE THAT WRITING LOSES**: the server is pinned as
    ` kvm:4000`, and that key leads to the host `kvm`. -/
theorem bracketed_space_is_lost :
    parseHostPort "[ kvm]".toList 4000 = .ok (" kvm".toList, 4000) ∧
      parseHostPort (formatHostPort " kvm".toList 4000) 4000
        = .ok ("kvm".toList, 4000) ∧
      parseHostPort (formatHostPort " kvm".toList 4000) 4000
        ≠ .ok (" kvm".toList, 4000) :=
  ⟨by decide, by decide, by decide⟩

end KvmAddrGrammar
