import KvmRs.FirstFreeProofs
import KvmRs.TransferProofs

/-! # Where a received file goes

    A peer offers any name.  What `sanitize_file_name` makes of it is one
    plain component of a path, and so are the candidates that
    `unique_dest_path` tries.  The candidates are all different: the numbered
    ones by their numbers, and each is longer than the name itself.  So the
    first free one is found after at most as many tries as there are entries,
    and one more.

    The transfers of `handle_transfer` probe the same candidates one by one. -/

namespace KvmDestPath

open KvmText KvmFileName FirstFree

/-- One component of a path, which leads nowhere but to a direct child. -/
structure Bare (n : Name) : Prop where
  ne_nil : n ≠ []
  no_slash : '/' ∉ n
  not_dot : n ≠ ['.']
  not_dotdot : n ≠ ['.', '.']

/-- What a sanitised name is. -/
structure Safe (n : Name) : Prop extends Bare n, Trimmed n where
  no_control : ∀ c ∈ n, isControl c = false

/-- `Path::join`: an absolute path replaces the directory. -/
def join (dir path : List Char) : List Char :=
  if path.head? = some '/' then path
  else if dir = [] ∨ dir.getLast? = some '/' then dir ++ path
  else dir ++ '/' :: path

/-- Finds a destination path in `dir` for `name`, in at most `fuel` tries;
    `entries` are the names that exist there. -/
def uniqueDestPath (dir : List Char) (entries : Finset Name) (name : Name)
    (fuel : Nat) : Option (List Char) :=
  (search (fun n => decide (n ∈ entries)) (candidateName name) fuel 0).map
    fun i => join dir (candidateName name i)

/-! ## Components -/

section Components

variable {n : Name} {path : List Char}

/-- A plain component is its own file name. -/
theorem Bare.fileName (h : Bare n) : KvmFileName.fileName n = some n := by
  have hsplit : n.splitOn '/' = [n] := List.splitOn_eq_singleton h.no_slash
  have hkeep : ([n].filter fun c => decide (c ≠ [] ∧ c ≠ ['.'])) = [n] := by
    refine List.filter_cons_of_pos (decide_eq_true ⟨h.ne_nil, h.not_dot⟩)
  simp only [KvmFileName.fileName, hsplit, hkeep, List.getLast?_singleton,
    if_neg h.not_dotdot]

/-- No piece of a split path has a separator. -/
theorem notMem_of_mem_splitOn {c : List Char} (hc : c ∈ path.splitOn '/') :
    '/' ∉ c := by
  -- induction on the path: a character opens a piece or is put into the first
  have hall : ∀ p : List Char, ∀ c ∈ p.splitOn '/', '/' ∉ c := by
    intro p
    induction p with
    | nil =>
        intro c hc
        rw [List.splitOn_nil, List.mem_singleton] at hc
        rw [hc]
        exact List.not_mem_nil
    | cons x p ih =>
        intro c hc
        rw [List.splitOn_cons_eq_if_modifyHead] at hc
        split at hc
        · rcases List.mem_cons.mp hc with rfl | hc
          · exact List.not_mem_nil
          · exact ih c hc
        · rename_i hx
          cases hp : p.splitOn '/' with
          | nil => exact absurd hp (List.splitOn_ne_nil '/' p)
          | cons d ds =>
              rw [hp] at hc ih
              rcases List.mem_cons.mp hc with rfl | hc
              · intro hslash
                rcases List.mem_cons.mp hslash with heq | hin
                · exact hx (beq_iff_eq.mpr heq.symm)
                · exact ih d List.mem_cons_self hin
              · exact ih c (List.mem_cons_of_mem d hc)
  exact hall path c hc

/-- A file name has no separator. -/
theorem no_slash_of_fileName (h : KvmFileName.fileName path = some n) :
    '/' ∉ n := by
  simp only [KvmFileName.fileName] at h
  split at h
  · rename_i c hlast
    split at h
    · cases h
    · rw [← Option.some.inj h]
      have hmem := List.mem_of_getLast? hlast
      exact notMem_of_mem_splitOn (List.mem_filter.mp hmem).1
  · cases h

end Components

/-! ## Sanitising -/

section Sanitising

variable {n : Name}

/-- The name for an offer without a usable one. -/
theorem safe_received_file : Safe "received_file".toList where
  ne_nil := by decide
  no_slash := by decide
  not_dot := by decide
  not_dotdot := by decide
  head := by
    intro c hc
    rw [← Option.some.inj hc]
    decide
  last := by
    intro c hc
    rw [← Option.some.inj hc]
    decide
  no_control := by
    have hall : ("received_file".toList.all fun c => !isControl c) = true := by
      decide
    intro c hc
    simpa only [Bool.not_eq_true'] using List.all_eq_true.mp hall c hc

theorem sanitize_safe (offered : List Char) : Safe (sanitizeFileName offered) := by
  have hslash : '/' ∉ trim ((fileName offered).getD []) := by
    intro hc
    refine absurd (mem_of_mem_trim hc) ?_
    cases hname : fileName offered with
    | none => exact List.not_mem_nil
    | some f => exact no_slash_of_fileName hname
  simp only [sanitizeFileName]
  split
  · exact safe_received_file
  · rename_i hgood
    simp only [not_or] at hgood
    obtain ⟨hne, hdot, hdotdot, hcontrol⟩ := hgood
    exact {
      ne_nil := hne
      no_slash := hslash
      not_dot := hdot
      not_dotdot := hdotdot
      toTrimmed := trimmed_trim _
      no_control := by
        intro c hc
        refine Bool.eq_false_iff.mpr fun hbad => hcontrol ?_
        exact List.any_eq_true.mpr ⟨c, hc, hbad⟩ }

/-- Sanitising a safe name does nothing. -/
theorem Safe.sanitize (h : Safe n) : sanitizeFileName n = n := by
  simp only [sanitizeFileName, h.toBare.fileName, Option.getD_some,
    h.toTrimmed.trim]
  refine if_neg ?_
  rintro (hnil | hdot | hdotdot | hany)
  · exact h.ne_nil hnil
  · exact h.not_dot hdot
  · exact h.not_dotdot hdotdot
  · obtain ⟨c, hc, hbad⟩ := List.any_eq_true.mp hany
    rw [h.no_control c hc] at hbad
    cases hbad

end Sanitising

/-! ## Candidates -/

section Candidates

variable {n : Name}

/-- Where a name is cut: nowhere, or at its last dot, which is not its first
    character. -/
theorem rsplit_cases (f : Name) :
    rsplitFileAtDot f = (some f, none) ∨ rsplitFileAtDot f = (none, some f) ∨
      ∃ before after, f = before ++ '.' :: after ∧ '.' ∉ after ∧
        rsplitFileAtDot f = (some before, some after) := by
  unfold rsplitFileAtDot
  split
  · exact Or.inl rfl
  · have hcut := List.takeWhile_append_dropWhile
      (p := fun c => decide (c ≠ '.')) (l := f.reverse)
    simp only
    split
    · rename_i hnone
      rw [hnone, List.append_nil] at hcut
      rw [hcut, List.reverse_reverse]
      exact Or.inr (Or.inl rfl)
    · rename_i c before hsome
      split
      · exact Or.inl rfl
      · refine Or.inr (Or.inr ⟨_, _, ?_, ?_, rfl⟩)
        · have hdot : c = '.' := by
            have hhead := List.head?_dropWhile_not
              (fun c => decide (c ≠ '.')) f.reverse
            rw [hsome] at hhead
            exact not_not.mp (of_decide_eq_false hhead)
          have hrev := congrArg List.reverse hcut
          rw [hsome, hdot, List.reverse_append, List.reverse_reverse,
            List.reverse_cons, List.append_assoc] at hrev
          exact hrev.symm
        · rw [List.mem_reverse]
          intro hmem
          have hnot := List.mem_takeWhile_imp hmem
          exact of_decide_eq_true hnot rfl

/-- Every numbered candidate is the name with its number put in at one
    place. -/
theorem candidate_shape (h : Bare n) :
    ∃ stem suffix, n = stem ++ suffix ∧ ∀ i, candidateName n (i + 1)
      = stem ++ (" (".toList ++ Nat.toDigits 10 (i + 1) ++ ")".toList)
        ++ suffix := by
  rcases rsplit_cases n with hcut | hcut | ⟨before, after, hn, -, hcut⟩
  · refine ⟨n, [], (List.append_nil n).symm, fun i => ?_⟩
    simp [candidateName, fileStem, extension, h.fileName, hcut]
  · refine ⟨n, [], (List.append_nil n).symm, fun i => ?_⟩
    simp [candidateName, fileStem, extension, h.fileName, hcut]
  · refine ⟨before, '.' :: after, hn, fun i => ?_⟩
    simp [candidateName, fileStem, extension, h.fileName, hcut]

/-- Every candidate is a plain component. -/
theorem candidate_bare (h : Bare n) (i : Nat) : Bare (candidateName n i) := by
  cases i with
  | zero => exact h
  | succ i =>
      obtain ⟨stem, suffix, hn, hshape⟩ := candidate_shape h
      have hparen : '(' ∈ candidateName n (i + 1) := by
        rw [hshape i]
        simp
      refine ⟨?_, ?_, ?_, ?_⟩
      · exact List.ne_nil_of_mem hparen
      · rw [hshape i]
        have hslash := h.no_slash
        rw [hn, List.mem_append, not_or] at hslash
        have hdigits : '/' ∉ Nat.toDigits 10 (i + 1) := fun hc =>
          absurd (Nat.isDigit_of_mem_toDigits (by decide) (by decide) hc)
            (by decide)
        simp [hslash.1, hslash.2, hdigits]
      · intro heq
        rw [heq] at hparen
        exact absurd hparen (by decide)
      · intro heq
        rw [heq] at hparen
        exact absurd hparen (by decide)

/-- All candidates are different. -/
theorem candidates_injective (h : Bare n) :
    Function.Injective (candidateName n) := by
  obtain ⟨stem, suffix, hn, hshape⟩ := candidate_shape h
  -- a numbered one is longer than the name
  have hlonger : ∀ i, candidateName n (i + 1) ≠ candidateName n 0 := by
    intro i heq
    have hlen := congrArg List.length heq
    rw [hshape i, show candidateName n 0 = n from rfl, hn] at hlen
    simp only [List.length_append] at hlen
    have htwo : " (".toList.length = 2 := rfl
    omega
  intro i j hij
  cases i with
  | zero =>
      cases j with
      | zero => rfl
      | succ j => exact absurd hij.symm (hlonger j)
  | succ i =>
      cases j with
      | zero => exact absurd hij (hlonger i)
      | succ j => rw [candidateName_injective hij]

end Candidates

/-! ## Destinations -/

/-- The directory as the beginning of a path. -/
def asDirectory (dir : List Char) : List Char :=
  if dir = [] ∨ dir.getLast? = some '/' then dir else dir ++ ['/']

/-- The path is the directory and one component. -/
def DirectChild (dir path : List Char) : Prop :=
  ∃ n, Bare n ∧ path = asDirectory dir ++ n

theorem join_bare {n : Name} (h : Bare n) (dir : List Char) :
    join dir n = asDirectory dir ++ n := by
  have hrelative : n.head? ≠ some '/' := fun hhead =>
    h.no_slash (List.mem_of_head? hhead)
  rw [join, if_neg hrelative, asDirectory]
  split
  · rfl
  · rw [List.append_assoc]
    rfl

/-- **EVERY OFFER HAS A PLACE**: whatever is offered and whatever exists, the
    name is reduced to a safe one, and the first free candidate, one of the
    first `entries.card + 1`, is found.  It is a new direct child.  So the
    number in it is at most that of the entries, and no `u64` overflows.  The
    entries are those for which `exists` holds; none is a link to nowhere. -/
theorem offer_has_place (offered dir : List Char) (entries : Finset Name) :
    Safe (sanitizeFileName offered) ∧
      sanitizeFileName (sanitizeFileName offered) = sanitizeFileName offered ∧
      ∃ k ≤ entries.card,
        IsFirst (fun n => decide (n ∈ entries))
          (candidateName (sanitizeFileName offered)) k ∧
        DirectChild dir (join dir (candidateName (sanitizeFileName offered) k)) ∧
        ∀ fuel, entries.card < fuel →
          uniqueDestPath dir entries (sanitizeFileName offered) fuel
            = some (join dir (candidateName (sanitizeFileName offered) k)) := by
  have hsafe := sanitize_safe offered
  have hbare := hsafe.toBare
  obtain ⟨k, hk, hfirst⟩ := exists_first (s := entries)
    (candidates_injective hbare)
  have hchild := candidate_bare hbare k
  refine ⟨hsafe, hsafe.sanitize, k, hk, hfirst,
    ⟨_, hchild, join_bare hchild dir⟩, ?_⟩
  intro fuel hfuel
  rw [uniqueDestPath, hfirst.search (Nat.zero_le k) (by omega)]
  rfl

/-! ## The transfers -/

section Transfers

open KvmTransfer Transition

variable {C : Type} [DecidableEq C] {w : World C} {c : C}
  {sha256 : List UInt8 → List UInt8} {maxFileSize : Nat}

/-- One probe. -/
theorem step_choosing {i : Nat} (hph : (w.transfers c).phase = .choosing i) :
    step sha256 maxFileSize w (.advance c) = some (w.goto c
      (if w.dir.exists (candidateName (w.transfers c).offer.safeName i)
        then .choosing (i + 1)
        else .promoting (candidateName (w.transfers c).offer.safeName i))) := by
  simp only [step, advance, hph]

/-- A transfer that probes the candidates comes to the first free one. -/
theorem choosing_finds_first {k : Nat} (m i : Nat) (hm : i + m = k)
    (hph : (w.transfers c).phase = .choosing i)
    (hfirst : IsFirst w.dir.exists
      (candidateName (w.transfers c).offer.safeName) k) :
    ∃ w', exec (step sha256 maxFileSize) w
        (List.replicate (m + 1) (.advance c)) = some w' ∧
      (w'.transfers c).phase
        = .promoting (candidateName (w.transfers c).offer.safeName k) := by
  induction m generalizing i w with
  | zero =>
      obtain rfl : i = k := hm
      have hs := @step_choosing C _ w c sha256 maxFileSize i hph
      rw [hfirst.free] at hs
      refine ⟨w.goto c (.promoting
        (candidateName (w.transfers c).offer.safeName i)), ?_, ?_⟩
      · rw [List.replicate_succ, exec, hs]
        rfl
      · rw [goto_self]
  | succ m ih =>
      have htaken := hfirst.before i (by omega)
      rw [List.replicate_succ, exec, step_choosing hph, if_pos htaken]
      -- the next candidate, in the same directory and for the same offer
      have hnext := ih (w := w.goto c (.choosing (i + 1))) (i + 1) (by omega)
        (by rw [goto_self]) (by rw [goto_self]; exact hfirst)
      rw [goto_self] at hnext
      exact hnext

end Transfers

end KvmDestPath
