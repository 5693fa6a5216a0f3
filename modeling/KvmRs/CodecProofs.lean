import Mathlib.Data.UInt
import Mathlib.Logic.Equiv.Defs
import Mathlib.Tactic.Ring

/-! # Binary codecs with both laws

    A `Codec` is a writer together with a prefix parser.  It carries two
    laws: parsing what was written gives the value back and leaves the rest
    untouched (`parse_write`), and whatever the parser accepts starts with
    the canonical writing of the value (`write_parse`).  The first law is
    only asked of writings shorter than `2^64` bytes, because length
    prefixes are 64-bit words.

    The combinators below (fixed-width little-endian words, pairs, partial
    isomorphisms, length-prefixed bytes, tagged sums) derive both laws from
    those of their parts, so a format built from them is round-trip and
    canonical by construction. -/

namespace ByteCodec

/-- A writer and a prefix parser for the same format. -/
structure Codec (α : Type) where
  write : α → List UInt8
  parse : List UInt8 → Option (α × List UInt8)
  parse_write : ∀ a rest, (write a).length < 2 ^ 64 →
    parse (write a ++ rest) = some (a, rest)
  write_parse : ∀ bs a rest, parse bs = some (a, rest) →
    bs = write a ++ rest

/-! ## Base-256 digits -/

/-- The `w` low base-256 digits of `n`, least significant first. -/
def leBytes : Nat → Nat → List UInt8
  | 0, _ => []
  | w + 1, n => UInt8.ofNat (n % 256) :: leBytes w (n / 256)

/-- The number whose base-256 digits are the given bytes. -/
def ofLeBytes : List UInt8 → Nat
  | [] => 0
  | b :: bs => b.toNat + 256 * ofLeBytes bs

@[simp] theorem leBytes_length (w n : Nat) : (leBytes w n).length = w := by
  induction w generalizing n with
  | zero => rfl
  | succ w ih =>
      show (leBytes w (n / 256)).length + 1 = w + 1
      rw [ih]

theorem ofLeBytes_leBytes (w n : Nat) :
    ofLeBytes (leBytes w n) = n % 256 ^ w := by
  induction w generalizing n with
  | zero =>
      show 0 = n % 1
      omega
  | succ w ih =>
      show (UInt8.ofNat (n % 256)).toNat + 256 * ofLeBytes (leBytes w (n / 256))
        = n % 256 ^ (w + 1)
      have hb : (UInt8.ofNat (n % 256)).toNat = n % 256 := by
        rw [UInt8.toNat_ofNat']
        omega
      rw [hb, ih, show (256 : Nat) ^ (w + 1) = 256 * 256 ^ w by ring,
        Nat.mod_mul]

theorem leBytes_ofLeBytes (bs : List UInt8) :
    leBytes bs.length (ofLeBytes bs) = bs := by
  induction bs with
  | nil => rfl
  | cons b bs ih =>
      have hb : b.toNat < 256 := b.toNat_lt
      show UInt8.ofNat ((b.toNat + 256 * ofLeBytes bs) % 256)
        :: leBytes bs.length ((b.toNat + 256 * ofLeBytes bs) / 256) = b :: bs
      rw [show (b.toNat + 256 * ofLeBytes bs) % 256 = b.toNat by omega,
        show (b.toNat + 256 * ofLeBytes bs) / 256 = ofLeBytes bs by omega,
        ih, UInt8.ofNat_toNat]

theorem ofLeBytes_lt (bs : List UInt8) : ofLeBytes bs < 256 ^ bs.length := by
  have h := ofLeBytes_leBytes bs.length (ofLeBytes bs)
  rw [leBytes_ofLeBytes] at h
  rw [h]
  exact Nat.mod_lt _ (Nat.pow_pos (by decide))

/-! ## Combinators -/

/-- The empty format. -/
def unit : Codec Unit where
  write _ := []
  parse bs := some ((), bs)
  parse_write := fun _ _ _ => rfl
  write_parse := by
    intro bs a rest h
    exact (Prod.mk.inj (Option.some.inj h)).2

/-- Exactly `n` raw bytes. -/
def raw (n : Nat) : Codec { bs : List UInt8 // bs.length = n } where
  write v := v.1
  parse bs :=
    if h : n ≤ bs.length then
      some (⟨bs.take n, by rw [List.length_take]; omega⟩, bs.drop n)
    else none
  parse_write := by
    rintro ⟨v, rfl⟩ rest -
    have hle : v.length ≤ (v ++ rest).length := by
      rw [List.length_append]; omega
    rw [dif_pos hle]
    simp only [List.take_left, List.drop_left]
  write_parse := by
    rintro bs ⟨v, hv⟩ rest h
    by_cases hn : n ≤ bs.length
    · rw [dif_pos hn] at h
      obtain ⟨h1, h2⟩ := Prod.mk.inj (Option.some.inj h)
      have hv' : bs.take n = v := congrArg Subtype.val h1
      show bs = v ++ rest
      rw [← hv', ← h2, List.take_append_drop]
    · rw [dif_neg hn] at h
      cases h

/-- Two formats in sequence. -/
def pair {α β : Type} (c : Codec α) (d : Codec β) : Codec (α × β) where
  write v := c.write v.1 ++ d.write v.2
  parse bs :=
    match c.parse bs with
    | none => none
    | some (a, bs') =>
        match d.parse bs' with
        | none => none
        | some (b, rest) => some ((a, b), rest)
  parse_write := by
    rintro ⟨a, b⟩ rest hlen
    have hlen' : (c.write a).length + (d.write b).length < 2 ^ 64 := by
      rw [← List.length_append]; exact hlen
    have ha := c.parse_write a (d.write b ++ rest) (by omega)
    have hb := d.parse_write b rest (by omega)
    simp only [List.append_assoc, ha, hb]
  write_parse := by
    rintro bs ⟨a, b⟩ rest h
    cases hc : c.parse bs with
    | none => rw [hc] at h; cases h
    | some p =>
        obtain ⟨a', bs'⟩ := p
        rw [hc] at h
        cases hd : d.parse bs' with
        | none => simp only [hd] at h; cases h
        | some q =>
            obtain ⟨b', rest'⟩ := q
            simp only [hd] at h
            obtain ⟨hv, hr⟩ := Prod.mk.inj (Option.some.inj h)
            obtain ⟨rfl, rfl⟩ := Prod.mk.inj hv
            subst hr
            rw [c.write_parse bs a' bs' hc, d.write_parse bs' b' rest' hd,
              List.append_assoc]

/-- Restrict a format along a partial isomorphism: `decode` recognises
    exactly the values of the form `encode b`. -/
def refine {α β : Type} (c : Codec α) (decode : α → Option β)
    (encode : β → α) (h : ∀ a b, decode a = some b ↔ a = encode b) :
    Codec β where
  write b := c.write (encode b)
  parse bs :=
    match c.parse bs with
    | none => none
    | some (a, rest) => (decode a).map (fun b => (b, rest))
  parse_write := by
    intro b rest hlen
    rw [c.parse_write (encode b) rest hlen]
    show (decode (encode b)).map _ = _
    rw [(h (encode b) b).mpr rfl]
    rfl
  write_parse := by
    intro bs b rest hp
    cases hc : c.parse bs with
    | none => rw [hc] at hp; cases hp
    | some p =>
        obtain ⟨a, bs'⟩ := p
        rw [hc] at hp
        obtain ⟨b', hb', heq⟩ := Option.map_eq_some_iff.mp hp
        obtain ⟨rfl, rfl⟩ := Prod.mk.inj heq
        rw [c.write_parse bs a bs' hc, (h a b').mp hb']

/-- Change the value type along an equivalence. -/
def along {α β : Type} (c : Codec α) (e : α ≃ β) : Codec β :=
  refine c (fun a => some (e a)) e.symm (by
    intro a b
    rw [Option.some.injEq]
    exact e.eq_symm_apply.symm)

/-- A tag, then the payload that the tag selects. -/
def tagged {ι : Type} {β : ι → Type} (t : Codec ι) (p : (i : ι) → Codec (β i)) :
    Codec (Sigma β) where
  write v := t.write v.1 ++ (p v.1).write v.2
  parse bs :=
    match t.parse bs with
    | none => none
    | some (i, bs') =>
        match (p i).parse bs' with
        | none => none
        | some (b, rest) => some (⟨i, b⟩, rest)
  parse_write := by
    rintro ⟨i, b⟩ rest hlen
    have hlen' : (t.write i).length + ((p i).write b).length < 2 ^ 64 := by
      rw [← List.length_append]; exact hlen
    have hi := t.parse_write i ((p i).write b ++ rest) (by omega)
    have hb := (p i).parse_write b rest (by omega)
    simp only [List.append_assoc, hi, hb]
  write_parse := by
    rintro bs v rest h
    cases ht : t.parse bs with
    | none => rw [ht] at h; cases h
    | some q =>
        obtain ⟨i, bs'⟩ := q
        rw [ht] at h
        cases hp : (p i).parse bs' with
        | none => simp only [hp] at h; cases h
        | some r =>
            obtain ⟨b, rest'⟩ := r
            simp only [hp] at h
            obtain ⟨rfl, rfl⟩ := Prod.mk.inj (Option.some.inj h)
            rw [t.write_parse bs i bs' ht, (p i).write_parse bs' b rest' hp,
              List.append_assoc]

/-! ## Words, booleans, byte strings -/

/-- A `w`-byte little-endian number. -/
def word (w : Nat) : Codec (Fin (256 ^ w)) :=
  refine (raw w)
    (fun v => some ⟨ofLeBytes v.1, by
      have h := ofLeBytes_lt v.1
      rw [v.2] at h
      exact h⟩)
    (fun n => ⟨leBytes w n.1, leBytes_length w n.1⟩) (by
      rintro ⟨v, rfl⟩ n
      rw [Option.some.injEq]
      constructor
      · intro h
        subst h
        exact Subtype.ext (leBytes_ofLeBytes v).symm
      · intro h
        have hv : v = leBytes v.length n.1 := congrArg Subtype.val h
        apply Fin.ext
        calc ofLeBytes v
            = ofLeBytes (leBytes v.length n.1) := congrArg ofLeBytes hv
          _ = n.1 % 256 ^ v.length := ofLeBytes_leBytes _ _
          _ = n.1 := Nat.mod_eq_of_lt n.2)

/-- A machine word type read off its `w`-byte number. -/
def machineWord {U : Type} (w : Nat) (ofNat : Nat → U) (toNat : U → Nat)
    (lt : ∀ u, toNat u < 256 ^ w)
    (toNat_ofNat : ∀ n, n < 256 ^ w → toNat (ofNat n) = n)
    (ofNat_toNat : ∀ u, ofNat (toNat u) = u) : Codec U :=
  along (word w) ⟨fun n => ofNat n.1, fun u => ⟨toNat u, lt u⟩,
    fun n => Fin.ext (toNat_ofNat n.1 n.2), ofNat_toNat⟩

/-- One byte. -/
def byte : Codec UInt8 :=
  machineWord 1 UInt8.ofNat UInt8.toNat (fun b => b.toNat_lt)
    (fun n h => by rw [UInt8.toNat_ofNat']; exact Nat.mod_eq_of_lt h)
    (fun _ => UInt8.ofNat_toNat)

/-- Little-endian 16-bit words. -/
def u16 : Codec UInt16 :=
  machineWord 2 UInt16.ofNat UInt16.toNat (fun b => b.toNat_lt)
    (fun n h => by rw [UInt16.toNat_ofNat']; exact Nat.mod_eq_of_lt h)
    (fun _ => UInt16.ofNat_toNat)

/-- Little-endian 32-bit words. -/
def u32 : Codec UInt32 :=
  machineWord 4 UInt32.ofNat UInt32.toNat (fun b => b.toNat_lt)
    (fun n h => by rw [UInt32.toNat_ofNat']; exact Nat.mod_eq_of_lt h)
    (fun _ => UInt32.ofNat_toNat)

/-- Little-endian 64-bit words. -/
def u64 : Codec UInt64 :=
  machineWord 8 UInt64.ofNat UInt64.toNat (fun b => b.toNat_lt)
    (fun n h => by rw [UInt64.toNat_ofNat']; exact Nat.mod_eq_of_lt h)
    (fun _ => UInt64.ofNat_toNat)

/-- Signed 32-bit words in two's complement. -/
def i32 : Codec Int32 :=
  along u32 ⟨fun n => n.toInt32, fun i => i.toUInt32,
    fun n => UInt32.toUInt32_toInt32 n, fun i => Int32.toInt32_toUInt32 i⟩

/-- A variant index: the 32-bit codes of a finite list of alternatives. -/
def oneOf {ι : Type} (code : ι → UInt32) (all : List ι)
    (hall : ∀ i, i ∈ all) (hinj : ∀ i j, code i = code j → i = j) :
    Codec ι :=
  refine u32 (fun a => all.find? (fun i => code i == a)) code (by
    intro a i
    constructor
    · intro h
      have := List.find?_some h
      exact (eq_of_beq this).symm
    · intro h
      subst h
      cases hf : all.find? (fun j => code j == code i) with
      | none =>
          have := List.find?_eq_none.mp hf i (hall i)
          exact absurd (beq_self_eq_true (code i)) this
      | some j =>
          have := List.find?_some hf
          rw [hinj j i (eq_of_beq this)])

/-- A boolean is the byte `0` or `1`; every other byte is refused. -/
def bool : Codec Bool :=
  refine byte
    (fun b => if b = 0 then some false else if b = 1 then some true else none)
    (fun v => if v then 1 else 0) (by
      intro a b
      by_cases h0 : a = 0
      · subst h0; cases b <;> decide
      · by_cases h1 : a = 1
        · subst h1; cases b <;> decide
        · rw [if_neg h0, if_neg h1]
          cases b with
          | false => exact ⟨fun h => (nomatch h), fun h => absurd h h0⟩
          | true => exact ⟨fun h => (nomatch h), fun h => absurd h h1⟩)

/-- A byte string behind its 64-bit length. -/
def bytes : Codec (List UInt8) where
  write l := leBytes 8 l.length ++ l
  parse bs :=
    match (word 8).parse bs with
    | none => none
    | some (n, bs') =>
        match (raw n.1).parse bs' with
        | none => none
        | some (l, rest) => some (l.1, rest)
  parse_write := by
    intro l rest hlen
    rw [List.length_append, leBytes_length] at hlen
    have hl : l.length < 256 ^ 8 := by
      have : (256 : Nat) ^ 8 = 2 ^ 64 := by decide
      omega
    have h1 := (word 8).parse_write ⟨l.length, hl⟩ (l ++ rest) (by
      show (leBytes 8 l.length).length < 2 ^ 64
      rw [leBytes_length]; decide)
    have h1' : (word 8).parse (leBytes 8 l.length ++ (l ++ rest))
      = some (⟨l.length, hl⟩, l ++ rest) := h1
    have h2 := (raw l.length).parse_write ⟨l, rfl⟩ rest (by
      show l.length < 2 ^ 64
      omega)
    have h2' : (raw l.length).parse (l ++ rest) = some (⟨l, rfl⟩, rest) := h2
    simp only [List.append_assoc, h1', h2']
  write_parse := by
    intro bs l rest h
    cases hw : (word 8).parse bs with
    | none => rw [hw] at h; cases h
    | some q =>
        obtain ⟨n, bs'⟩ := q
        rw [hw] at h
        cases hr : (raw n.1).parse bs' with
        | none => simp only [hr] at h; cases h
        | some r =>
            obtain ⟨⟨v, hv⟩, rest'⟩ := r
            simp only [hr] at h
            obtain ⟨rfl, rfl⟩ := Prod.mk.inj (Option.some.inj h)
            have e1 : bs = leBytes 8 n.1 ++ bs' := (word 8).write_parse bs n bs' hw
            have e2 : bs' = v ++ rest' := (raw n.1).write_parse bs' ⟨v, hv⟩ rest' hr
            rw [e1, e2, ← hv, List.append_assoc]

/-- A fixed-size array is its bytes, with no length in front. -/
def array (n : Nat) : Codec (Vector UInt8 n) :=
  along (raw n)
    ⟨fun v => ⟨v.1.toArray, by rw [List.size_toArray]; exact v.2⟩,
      fun v => ⟨v.toList, v.length_toList⟩,
      fun _ => rfl, fun _ => rfl⟩

/-- A fixed-size array written as a byte string: the length is in front and
    must be `n`. -/
def sizedBytes (n : Nat) : Codec (Vector UInt8 n) :=
  refine bytes
    (fun l => if h : l.length = n then
      some ⟨l.toArray, by rw [List.size_toArray]; exact h⟩ else none)
    (fun v => v.toList) (by
      intro l v
      constructor
      · intro h
        by_cases hn : l.length = n
        · rw [dif_pos hn] at h
          rw [← Option.some.inj h]
          rfl
        · rw [dif_neg hn] at h
          cases h
      · intro h
        subst h
        rw [dif_pos v.length_toList]
        rfl)

/-- The bytes of a UTF-8 string. -/
def utf8 (s : String) : List UInt8 := s.toByteArray.data.toList

/-- The string with the given UTF-8 bytes, if they are well formed. -/
def ofUtf8 (bs : List UInt8) : Option String := String.fromUTF8? ⟨bs.toArray⟩

theorem ofUtf8_eq_some (bs : List UInt8) (s : String) :
    ofUtf8 bs = some s ↔ bs = utf8 s := by
  unfold ofUtf8 utf8 String.fromUTF8?
  constructor
  · intro h
    by_cases hv : ByteArray.IsValidUTF8 ⟨bs.toArray⟩
    · rw [dif_pos hv] at h
      have hs := Option.some.inj h
      rw [← hs]
      rfl
    · rw [dif_neg hv] at h
      cases h
  · intro h
    subst h
    rw [show (⟨s.toByteArray.data.toList.toArray⟩ : ByteArray) = s.toByteArray
      from rfl, dif_pos s.isValidUTF8]
    rfl

theorem utf8_injective {s t : String} (h : utf8 s = utf8 t) : s = t := by
  have hs := (ofUtf8_eq_some (utf8 s) s).mpr rfl
  rw [h, (ofUtf8_eq_some (utf8 t) t).mpr rfl] at hs
  exact (Option.some.inj hs).symm

/-- The bytes of a string, counted character by character. -/
theorem utf8_ofList_length (cs : List Char) :
    (utf8 (String.ofList cs)).length = (cs.map Char.utf8Size).sum := by
  induction cs with
  | nil => rfl
  | cons c cs ih =>
      have hcat : String.ofList (c :: cs)
          = String.singleton c ++ String.ofList cs := by
        rw [String.singleton_eq_ofList, ← String.ofList_append]
        rfl
      rw [hcat]
      show (String.singleton c ++ String.ofList cs).utf8ByteSize = _
      rw [String.utf8ByteSize_append, String.utf8ByteSize_singleton,
        List.map_cons, List.sum_cons, ← ih]
      rfl

/-- A UTF-8 string behind its 64-bit byte length. -/
def string : Codec String := refine bytes ofUtf8 utf8 ofUtf8_eq_some

end ByteCodec
