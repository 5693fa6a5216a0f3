import KvmRs.AddrGrammarProofs
import KvmRs.EnvelopeProofs

/-! # `--server` and `--port`

    `main` of the client puts `--port` behind `--server` if that has no colon
    and does not begin with a bracket; otherwise it passes `--server` on, and
    `Session::connect` reads it with the default control port.  The parser
    itself knows better when a port is missing.

    The readings of both texts are compared with the one reading that the
    options mean: `--server`, with `--port` as the default. -/

namespace KvmServerArg

open KvmEnvelope KvmText KvmAddr KvmAddrGrammar

/-- The address string that `main` builds from the two options. -/
def serverAddr (server : List Char) (port : UInt16) : List Char :=
  if ':' ∈ server ∨ server.head? = some '[' then server
  else server ++ ":".toList ++ Nat.toDigits 10 port.toNat

/-- The host and port that are dialled are those of `--server`, with `--port`
    where it has none. -/
def DialsAsGiven (server : List Char) (port : UInt16) : Prop :=
  (parseHostPort (serverAddr server port) DEFAULT_CONTROL_PORT).toOption
    = (parseHostPort server port).toOption

/-- A trimmed text that is an address without a port of its own. -/
def Portless (t : List Char) : Prop :=
  match t with
  | '[' :: rest => ∃ h, rest = h ++ [']'] ∧ ']' ∉ h ∧ h ≠ []
  | _ => t ≠ [] ∧ t.count ':' ≠ 1

/-- Where `--server` has no port: either it is passed on and `--port` is the
    default port anyway, or `--port` is put right behind the host. -/
def PortPlaced (server : List Char) (port : UInt16) : Prop :=
  Portless (trim server) →
    if ':' ∈ server ∨ server.head? = some '[' then port = DEFAULT_CONTROL_PORT
    else ∀ c, server.getLast? = some c → isWhitespace c = false

/-! ## Texts without a port -/

section Portless

variable {d d' p : UInt16} {t h : List Char}

theorem portless_plain (hopen : t.head? ≠ some '[') :
    Portless t ↔ t ≠ [] ∧ t.count ':' ≠ 1 := by
  unfold Portless
  split
  · exact absurd rfl hopen
  · exact Iff.rfl

/-- Such a text is read with the default port, whatever that is. -/
theorem portless_reading (ht : Portless t) : ∃ h, ∀ d, HostPort d t h d := by
  by_cases hopen : t.head? = some '['
  · obtain ⟨rest, rfl⟩ := List.head?_eq_some_iff.mp hopen
    obtain ⟨h, rfl, hclose, hne⟩ := ht
    exact ⟨h, fun d => .bracketed hclose hne⟩
  · obtain ⟨hne, hcount⟩ := (portless_plain hopen).mp ht
    exact ⟨t, fun d => .bare hne hopen hcount⟩

theorem portless_port (hr : HostPort d t h p) (ht : Portless t) : p = d := by
  cases hr with
  | bracketed hclose hne => rfl
  | bracketedPort hclose hne hport =>
      obtain ⟨h', heq, hclose', -⟩ := ht
      obtain ⟨-, hrest⟩ := cut_at_first hclose hclose' heq
      cases hrest
  | bare hne hopen hcount => rfl
  | @withPort h q p hne hopen hcolon hport hparse =>
      have hopen' : (h ++ ':' :: q).head? ≠ some '[' := by
        rwa [List.head?_append_of_ne_nil h hne]
      obtain ⟨-, hcount⟩ := (portless_plain hopen').mp ht
      rw [List.count_append, List.count_cons_self,
        List.count_eq_zero.mpr hcolon, List.count_eq_zero.mpr hport] at hcount
      exact absurd rfl hcount

/-- A text with a port of its own does not need the default. -/
theorem port_of_its_own (hr : HostPort d t h p) (ht : ¬ Portless t) :
    HostPort d' t h p := by
  cases hr with
  | bracketed hclose hne => exact absurd ⟨h, rfl, hclose, hne⟩ ht
  | bracketedPort hclose hne hport => exact .bracketedPort hclose hne hport
  | bare hne hopen hcount =>
      exact absurd ((portless_plain hopen).mpr ⟨hne, hcount⟩) ht
  | withPort hne hopen hcolon hport hparse =>
      exact .withPort hne hopen hcolon hport hparse

/-- Two defaults give one reading exactly if they are equal or not used. -/
theorem readings_agree_iff :
    (∀ h p, HostPort d t h p ↔ HostPort d' t h p) ↔ (Portless t → d' = d) := by
  constructor
  · intro hall ht
    obtain ⟨h, hread⟩ := portless_reading ht
    exact (portless_port ((hall h d).mp (hread d)) ht).symm
  · intro heq h p
    by_cases ht : Portless t
    · rw [heq ht]
    · exact ⟨fun hr => port_of_its_own hr ht, fun hr => port_of_its_own hr ht⟩

end Portless

/-! ## A port that is put behind -/

/-- The host `h` alone, perhaps in brackets. -/
def Names (t h : List Char) : Prop :=
  h = t ∧ t ≠ [] ∧ t.head? ≠ some '[' ∨
    t = '[' :: (h ++ [']']) ∧ ']' ∉ h ∧ h ≠ []

section Appended

variable {d p q : UInt16} {s t h : List Char}

theorem names_of_one_colon (hcolon : ':' ∉ t) :
    HostPort d (t ++ ':' :: Nat.toDigits 10 p.toNat) h q
      ↔ q = p ∧ Names t h := by
  obtain ⟨hds, hdigits⟩ := portDigits p
  constructor
  · intro hr
    obtain ⟨hq, hhost⟩ := hr.one_colon hcolon
      fun c hc => ⟨(hdigits c hc).1, (hdigits c hc).2.1⟩
    rw [parseU16_toDigits] at hq
    refine ⟨(Option.some.inj hq).symm, ?_⟩
    rcases hhost with ⟨rfl, hopen⟩ | hbracket
    · exact Or.inl ⟨rfl, hr.ne_nil, hopen⟩
    · refine Or.inr ⟨hbracket, hr.no_close ?_, hr.ne_nil⟩
      rw [hbracket]
      rfl
  · rintro ⟨rfl, ⟨rfl, hne, hopen⟩ | ⟨rfl, hclose, hne⟩⟩
    · exact .withPort hne hopen hcolon (fun hc => (hdigits ':' hc).1 rfl)
        (parseU16_toDigits q)
    · have hcat : ('[' :: (h ++ [']'])) ++ ':' :: Nat.toDigits 10 q.toNat
          = '[' :: (h ++ ']' :: ':' :: Nat.toDigits 10 q.toNat) := by simp
      rw [hcat]
      exact .bracketedPort hclose hne (parseU16_toDigits q)

theorem names_of_no_colon (hcolon : ':' ∉ t) :
    HostPort d t h q ↔ q = d ∧ Names t h := by
  have hcount : t.count ':' ≠ 1 := by
    rw [List.count_eq_zero.mpr hcolon]
    decide
  constructor
  · intro hr
    cases hr with
    | bracketed hclose hne => exact ⟨rfl, Or.inr ⟨rfl, hclose, hne⟩⟩
    | bracketedPort hclose hne hport => simp at hcolon
    | bare hne hopen hcount => exact ⟨rfl, Or.inl ⟨rfl, hne, hopen⟩⟩
    | withPort hne hopen hcolon' hport hparse => simp at hcolon
  · rintro ⟨rfl, ⟨rfl, hne, hopen⟩ | ⟨rfl, hclose, hne⟩⟩
    · exact .bare hne hopen hcount
    · exact .bracketed hclose hne

theorem portless_iff_names (hcolon : ':' ∉ t) :
    Portless t ↔ ∃ h, Names t h := by
  constructor
  · intro ht
    obtain ⟨h, hread⟩ := portless_reading ht
    exact ⟨h, ((names_of_no_colon hcolon).mp (hread 0)).2⟩
  · rintro ⟨h, ⟨-, hne, hopen⟩ | ⟨rfl, hclose, hne⟩⟩
    · refine (portless_plain hopen).mpr ⟨hne, ?_⟩
      rw [List.count_eq_zero.mpr hcolon]
      decide
    · exact ⟨h, rfl, hclose, hne⟩

/-- Trimming at the end keeps the host exactly if there is nothing to trim. -/
theorem names_agree_iff (hcolon : ':' ∉ t)
    (hhead : ∀ c, t.head? = some c → isWhitespace c = false) :
    (∀ h, Names t h ↔ Names (t.rdropWhile isWhitespace) h)
      ↔ (Portless (t.rdropWhile isWhitespace) →
          t.rdropWhile isWhitespace = t) := by
  obtain ⟨spaces, hspaces⟩ : t.rdropWhile isWhitespace <+: t :=
    List.rdropWhile_prefix isWhitespace t
  have hcolon' : ':' ∉ t.rdropWhile isWhitespace := by
    intro hc
    rw [← hspaces] at hcolon
    exact hcolon (List.mem_append_left _ hc)
  have hfirst : t.rdropWhile isWhitespace ≠ [] →
      (t.rdropWhile isWhitespace).head? = t.head? := by
    intro hne
    conv => rhs; rw [← hspaces]
    exact (List.head?_append_of_ne_nil _ hne).symm
  constructor
  · intro hall ht
    obtain ⟨h, hn⟩ := (portless_iff_names hcolon').mp ht
    rcases (hall h).mpr hn with ⟨hm, hne, hopen⟩ | ⟨hm, hclose, hne⟩
    · rcases hn with ⟨hn, -, -⟩ | ⟨hn, -, -⟩
      · rw [← hn, hm]
      · rw [← hfirst (by rw [hn]; exact List.cons_ne_nil _ _), hn] at hopen
        exact absurd rfl hopen
    · rcases hn with ⟨-, hne', hopen'⟩ | ⟨hn, -, -⟩
      · rw [hfirst hne', hm] at hopen'
        exact absurd rfl hopen'
      · rw [hn, hm]
  · intro heq h
    by_cases ht : Portless (t.rdropWhile isWhitespace)
    · rw [heq ht]
    · have hno : ¬ Names (t.rdropWhile isWhitespace) h :=
        fun hn => ht ((portless_iff_names hcolon').mpr ⟨h, hn⟩)
      refine iff_of_false ?_ hno
      rintro (⟨-, hne, hopen⟩ | ⟨rfl, hclose, hne⟩)
      · -- a host that does not begin with whitespace leaves something
        have hne' : t.rdropWhile isWhitespace ≠ [] := by
          intro hnil
          obtain ⟨c, rest, rfl⟩ := List.exists_cons_of_ne_nil hne
          have hspace := List.rdropWhile_eq_nil_iff.mp hnil c
            List.mem_cons_self
          rw [hhead c rfl] at hspace
          cases hspace
        refine ht ((portless_plain (by rwa [hfirst hne'])).mpr ⟨hne', ?_⟩)
        rw [List.count_eq_zero.mpr hcolon']
        decide
      · have hlast : ('[' :: (h ++ [']'])).rdropWhile isWhitespace
            = '[' :: (h ++ [']']) := by
          rw [rdropWhile_iff]
          intro c hc
          rw [← List.cons_append, List.getLast?_concat] at hc
          rw [← Option.some.inj hc]
          decide
        refine ht ?_
        rw [hlast]
        exact ⟨h, rfl, hclose, hne⟩

/-- A host and the same host trimmed are named alike exactly if it does not
    end in whitespace. -/
theorem appended_agree_iff (hcolon : ':' ∉ s) :
    (∀ h, Names (s.dropWhile isWhitespace) h ↔ Names (trim s) h)
      ↔ (Portless (trim s) →
          ∀ c, s.getLast? = some c → isWhitespace c = false) := by
  have hdrop : ':' ∉ s.dropWhile isWhitespace := fun hc =>
    hcolon ((List.dropWhile_sublist isWhitespace).mem hc)
  have hhead : ∀ c, (s.dropWhile isWhitespace).head? = some c →
      isWhitespace c = false := by
    intro c hc
    have hnot := List.head?_dropWhile_not isWhitespace s
    rw [hc] at hnot
    exact hnot
  rw [show trim s = (s.dropWhile isWhitespace).rdropWhile isWhitespace from rfl,
    names_agree_iff hdrop hhead, rdropWhile_iff]
  refine imp_congr_right fun ht => ?_
  -- something is left, so both texts end alike
  have hne : s.dropWhile isWhitespace ≠ [] := by
    intro hnil
    rw [hnil] at ht
    exact absurd rfl ht.1
  obtain ⟨spaces, hspaces⟩ := List.dropWhile_suffix isWhitespace (l := s)
  rw [← List.getLast?_append_of_ne_nil spaces hne, hspaces]

end Appended

/-! ## The two options -/

/-- Equal results are equal readings. -/
theorem dialsAsGiven_iff {s : List Char} {p : UInt16} :
    DialsAsGiven s p ↔ ∀ h q,
      HostPort DEFAULT_CONTROL_PORT (trim (serverAddr s p)) h q
        ↔ HostPort p (trim s) h q := by
  have hsome : ∀ (s : List Char) (d : UInt16) (v : List Char × UInt16),
      (parseHostPort s d).toOption = some v ↔ HostPort d (trim s) v.1 v.2 := by
    intro s d v
    rw [← parse_ok_iff]
    cases parseHostPort s d with
    | ok v' => exact ⟨fun h => congrArg Except.ok (Option.some.inj h),
        fun h => congrArg some (Except.ok.inj h)⟩
    | error e =>
        constructor
        · intro h
          cases h
        · intro h
          cases h
  constructor
  · intro h host port
    rw [← hsome s p (host, port), ← h, hsome]
  · intro h
    refine Option.ext fun v => ?_
    rw [hsome, hsome]
    exact h v.1 v.2

/-- **`--port` IS USED WHERE IT IS NEEDED** exactly if it is put in the right
    place there. -/
theorem dials_as_given_iff (s : List Char) (p : UInt16) :
    DialsAsGiven s p ↔ PortPlaced s p := by
  rw [dialsAsGiven_iff, PortPlaced]
  by_cases hpass : ':' ∈ s ∨ s.head? = some '['
  · rw [serverAddr, if_pos hpass, if_pos hpass]
    exact readings_agree_iff
  · rw [serverAddr, if_neg hpass, if_neg hpass]
    have hcolon : ':' ∉ s := fun hc => hpass (Or.inl hc)
    rw [trim_with_port, ← appended_agree_iff hcolon]
    have htrim : ':' ∉ trim s := fun hc => hcolon (mem_of_mem_trim hc)
    have hdrop : ':' ∉ s.dropWhile isWhitespace := fun hc =>
      hcolon ((List.dropWhile_sublist isWhitespace).mem hc)
    constructor
    · intro hall h
      have hp := hall h p
      rw [names_of_one_colon hdrop, names_of_no_colon htrim] at hp
      simpa only [true_and] using hp
    · intro hall h q
      rw [names_of_one_colon hdrop, names_of_no_colon htrim, hall h]

/-- A host name gets the port of `--port`. -/
example : PortPlaced "kvm.local".toList 5000 := by
  intro _ c hc
  rw [← Option.some.inj hc]
  decide

/-- **`--port` IS IGNORED FOR IPv6 LITERALS**: `--server [::1] --port 5000`
    dials port 4000. -/
theorem port_ignored_for_ipv6 :
    parseHostPort (serverAddr "[::1]".toList 5000) DEFAULT_CONTROL_PORT
        = .ok ("::1".toList, 4000) ∧
      parseHostPort "[::1]".toList 5000 = .ok ("::1".toList, 5000) ∧
      ¬ DialsAsGiven "[::1]".toList 5000 := by
  refine ⟨rfl, rfl, ?_⟩
  intro h
  have hports : some ("::1".toList, (4000 : UInt16))
      = some ("::1".toList, (5000 : UInt16)) := h
  exact absurd hports (by decide)

end KvmServerArg
