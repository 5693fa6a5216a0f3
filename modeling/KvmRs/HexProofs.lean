import KvmRs.ClientConfigProofs
import KvmRs.TextProofs

/-! # Hex strings

    `hex_decode` reads a string as bytes, two at a time.  What it accepts is
    ASCII, an even number of hex digits, and the bytes it returns are written
    by `hex_encode` as the same string in lower case.

    Whether a string decodes is decided by its bytes (`HexBytes`).  The loop
    over the indices of the bytes never leaves them (`collectPairs_eq`). -/

namespace KvmHex

open ByteCodec KvmText KvmClientConfig

/-- The text whose characters are these bytes. -/
def asciiText (bs : List UInt8) : List Char :=
  bs.map fun b => Char.ofNat b.toNat

/-- An ASCII digit or one of the letters `a` to `f` in either case. -/
def IsHexDigit (b : UInt8) : Prop :=
  48 ≤ b ∧ b ≤ 57 ∨ 97 ≤ b ∧ b ≤ 102 ∨ 65 ≤ b ∧ b ≤ 70

/-- An even number of hex digits. -/
def HexBytes (bs : List UInt8) : Prop :=
  bs.length % 2 = 0 ∧ ∀ b ∈ bs, IsHexDigit b

/-! ## ASCII text -/

section Ascii

variable {bs : List UInt8} {cs : List Char} {s : String}

theorem utf8_cons (c : Char) (cs : List Char) :
    utf8 (String.ofList (c :: cs))
      = String.utf8EncodeChar c ++ utf8 (String.ofList cs) := by
  simp only [utf8, String.toByteArray_ofList, List.utf8Encode,
    List.flatMap_cons, List.toList_data_toByteArray]

/-- ASCII text is written byte by byte. -/
theorem utf8_asciiText (h : ∀ b ∈ bs, b < 128) :
    utf8 (String.ofList (asciiText bs)) = bs := by
  -- one byte is one character
  have hbyte : ∀ n < 128,
      String.utf8EncodeChar (Char.ofNat n) = [UInt8.ofNat n] := by
    decide +kernel
  induction bs with
  | nil => rfl
  | cons b bs ih =>
      show utf8 (String.ofList (Char.ofNat b.toNat :: asciiText bs)) = b :: bs
      have hb : b.toNat < 128 := UInt8.lt_iff_toNat_lt.mp (h b List.mem_cons_self)
      rw [utf8_cons, hbyte b.toNat hb, UInt8.ofNat_toNat,
        ih fun b hb => h b (List.mem_cons_of_mem _ hb)]
      rfl

/-- A string of ASCII bytes is the text of these bytes. -/
theorem toList_of_ascii (h : ∀ b ∈ utf8 s, b < 128) :
    s.toList = asciiText (utf8 s) := by
  have heq : String.ofList (asciiText (utf8 s)) = s :=
    utf8_injective (utf8_asciiText h)
  conv => lhs; rw [← heq]
  exact String.toList_ofList

end Ascii

/-! ## Digits -/

section Digits

variable {b d h l : UInt8}

theorem hexDigit_of_toDigit (hd : toDigit16 b = some d) : IsHexDigit b := by
  unfold toDigit16 at hd
  split at hd
  · exact Or.inl ‹_›
  · split at hd
    · exact Or.inr (Or.inl ‹_›)
    · split at hd
      · exact Or.inr (Or.inr ‹_›)
      · cases hd

theorem toDigit_of_hexDigit (hb : IsHexDigit b) : ∃ d, toDigit16 b = some d := by
  unfold toDigit16
  split
  · exact ⟨_, rfl⟩
  · split
    · exact ⟨_, rfl⟩
    · split
      · exact ⟨_, rfl⟩
      · rename_i hdecimal hlower hupper
        rcases hb with hb | hb | hb
        · exact absurd hb hdecimal
        · exact absurd hb hlower
        · exact absurd hb hupper

/-- A digit is ASCII, below 16, and written in lower case. -/
theorem toDigit_some (hd : toDigit16 b = some d) :
    b < 128 ∧ d < 16 ∧
      Nat.digitChar d.toNat = (Char.ofNat b.toNat).toLower := by
  have hall : ∀ n < 256, (toDigit16 (UInt8.ofNat n)).all fun e =>
      UInt8.ofNat n < 128 ∧ e < 16 ∧
        Nat.digitChar e.toNat = (Char.ofNat n).toLower := by
    decide +kernel
  have hb := hall b.toNat b.toNat_lt
  rw [UInt8.ofNat_toNat, hd] at hb
  exact of_decide_eq_true hb

end Digits

/-! ## Decoding -/

section Decoding

variable {bs out : List UInt8} {s t : String}

/-- Two digits make the byte that is written with them. -/
theorem hexPair_join {h l : UInt8} (hh : h < 16) (hl : l < 16) :
    hexPair (h <<< 4 ||| l) = [Nat.digitChar h.toNat, Nat.digitChar l.toNat] := by
  have hall : ∀ i < 16, ∀ j < 16,
      hexPair (UInt8.ofNat i <<< 4 ||| UInt8.ofNat j)
        = [Nat.digitChar i, Nat.digitChar j] := by
    decide +kernel
  have hpair := hall h.toNat (UInt8.lt_iff_toNat_lt.mp hh) l.toNat
    (UInt8.lt_iff_toNat_lt.mp hl)
  rwa [UInt8.ofNat_toNat, UInt8.ofNat_toNat] at hpair

theorem hexBytes_cons_cons {hi lo : UInt8} {rest : List UInt8} :
    HexBytes (hi :: lo :: rest)
      ↔ IsHexDigit hi ∧ IsHexDigit lo ∧ HexBytes rest := by
  simp only [HexBytes, List.length_cons, List.forall_mem_cons]
  have hparity : (rest.length + 1 + 1) % 2 = 0 ↔ rest.length % 2 = 0 := by omega
  rw [hparity]
  constructor
  · rintro ⟨hlen, hhi, hlo, hrest⟩
    exact ⟨hhi, hlo, hlen, hrest⟩
  · rintro ⟨hhi, hlo, hlen, hrest⟩
    exact ⟨hlen, hhi, hlo, hrest⟩

/-- Inversion of decoding: two digits, and the rest decodes. -/
theorem hexDecodePairs_cons {hi lo : UInt8} {rest : List UInt8} :
    hexDecodePairs (hi :: lo :: rest) = some out
      ↔ ∃ h l bs, toDigit16 hi = some h ∧ toDigit16 lo = some l ∧
        hexDecodePairs rest = some bs ∧ out = (h <<< 4 ||| l) :: bs := by
  rw [hexDecodePairs]
  constructor
  · intro hdec
    split at hdec
    · rename_i h l bs hhi hlo hrest
      exact ⟨h, l, bs, hhi, hlo, hrest, (Option.some.inj hdec).symm⟩
    · cases hdec
  · rintro ⟨h, l, bs, hhi, hlo, hrest, rfl⟩
    rw [hhi, hlo, hrest]

/-- What decodes is ASCII, and is written again in lower case. -/
theorem hexDecodePairs_some (hdec : hexDecodePairs bs = some out) :
    (∀ b ∈ bs, b < 128) ∧
      hexEncode out = (asciiText bs).map Char.toLower := by
  induction bs using List.twoStepInduction generalizing out with
  | nil =>
      rw [← Option.some.inj hdec]
      exact ⟨fun b hb => absurd hb List.not_mem_nil, rfl⟩
  | singleton b => cases hdec
  | cons_cons hi lo rest ih _ =>
      obtain ⟨h, l, bs, hhi, hlo, hrest, rfl⟩ := hexDecodePairs_cons.mp hdec
      obtain ⟨hascii, hwritten⟩ := ih hrest
      obtain ⟨hhi128, hh, hhchar⟩ := toDigit_some hhi
      obtain ⟨hlo128, hl, hlchar⟩ := toDigit_some hlo
      refine ⟨List.forall_mem_cons.mpr ⟨hhi128,
        List.forall_mem_cons.mpr ⟨hlo128, hascii⟩⟩, ?_⟩
      show hexPair (h <<< 4 ||| l) ++ hexEncode bs = _
      rw [hexPair_join hh hl, hwritten, hhchar, hlchar]
      rfl

/-- Exactly an even number of digits decodes. -/
theorem hexDecodePairs_iff :
    (∃ out, hexDecodePairs bs = some out) ↔ HexBytes bs := by
  induction bs using List.twoStepInduction with
  | nil =>
      exact iff_of_true ⟨[], rfl⟩ ⟨rfl, fun b hb => absurd hb List.not_mem_nil⟩
  | singleton b =>
      refine iff_of_false ?_ ?_
      · rintro ⟨out, hout⟩
        cases hout
      · rintro ⟨hlen, -⟩
        cases hlen
  | cons_cons hi lo rest ih _ =>
      rw [hexBytes_cons_cons, ← ih]
      constructor
      · rintro ⟨out, hdec⟩
        obtain ⟨h, l, bs, hhi, hlo, hrest, -⟩ := hexDecodePairs_cons.mp hdec
        exact ⟨hexDigit_of_toDigit hhi, hexDigit_of_toDigit hlo, bs, hrest⟩
      · rintro ⟨hhi, hlo, bs, hrest⟩
        obtain ⟨h, hh⟩ := toDigit_of_hexDigit hhi
        obtain ⟨l, hl⟩ := toDigit_of_hexDigit hlo
        exact ⟨_, hexDecodePairs_cons.mpr ⟨h, l, bs, hh, hl, hrest, rfl⟩⟩

theorem hexDecode_iff : (∃ out, hexDecode s = some out) ↔ HexBytes (utf8 s) :=
  hexDecodePairs_iff

/-- A decoded string is the lower-case writing of its bytes. -/
theorem hexDecode_lower (hdec : hexDecode s = some out) :
    hexEncode out = s.toList.map Char.toLower := by
  obtain ⟨hascii, hwritten⟩ := hexDecodePairs_some hdec
  rw [hwritten, toList_of_ascii hascii]

/-- The byte of a written digit. -/
def digitByte (n : Nat) : UInt8 := UInt8.ofNat (Nat.digitChar n).toNat

theorem digitByte_spec : ∀ n < 16,
    String.utf8EncodeChar (Nat.digitChar n) = [digitByte n] ∧
      toDigit16 (digitByte n) = some (UInt8.ofNat n) := by
  decide +kernel

theorem nibbles_join (b : UInt8) :
    UInt8.ofNat (b.toNat / 16) <<< 4 ||| UInt8.ofNat (b.toNat % 16) = b := by
  have hall : ∀ n < 256,
      UInt8.ofNat (n / 16) <<< 4 ||| UInt8.ofNat (n % 16) = UInt8.ofNat n := by
    decide +kernel
  rw [hall b.toNat b.toNat_lt, UInt8.ofNat_toNat]

/-- What is written decodes to the bytes it was made of. -/
theorem decode_encode (bs : List UInt8) :
    hexDecode (String.ofList (hexEncode bs)) = some bs := by
  induction bs with
  | nil => rfl
  | cons b bs ih =>
      have hb := b.toNat_lt
      obtain ⟨hhi, hhi'⟩ := digitByte_spec (b.toNat / 16) (by omega)
      obtain ⟨hlo, hlo'⟩ := digitByte_spec (b.toNat % 16) (by omega)
      have hbytes : utf8 (String.ofList (hexEncode (b :: bs)))
          = digitByte (b.toNat / 16) :: digitByte (b.toNat % 16)
            :: utf8 (String.ofList (hexEncode bs)) := by
        show utf8 (String.ofList (Nat.digitChar (b.toNat / 16)
          :: Nat.digitChar (b.toNat % 16) :: hexEncode bs)) = _
        rw [utf8_cons, utf8_cons, hhi, hlo]
        rfl
      rw [hexDecode, hbytes, hexDecodePairs_cons]
      exact ⟨_, _, bs, hhi', hlo', ih, by rw [nibbles_join]⟩

theorem hexEncode_injective {bs bs' : List UInt8}
    (h : hexEncode bs = hexEncode bs') : bs = bs' := by
  have hdec := decode_encode bs
  rw [h, decode_encode bs'] at hdec
  exact (Option.some.inj hdec).symm

/-- Two strings decode to the same bytes exactly if they differ in letter
    case at most. -/
theorem decoded_eq_iff {bs bs' : List UInt8} (hs : hexDecode s = some bs)
    (ht : hexDecode t = some bs') :
    bs = bs' ↔ s.toList.map Char.toLower = t.toList.map Char.toLower := by
  rw [← hexDecode_lower hs, ← hexDecode_lower ht]
  constructor
  · rintro rfl
    rfl
  · exact hexEncode_injective

/-- Only the empty string decodes to nothing. -/
theorem decoded_nil (hs : hexDecode s = some []) : s = "" := by
  have hlower := hexDecode_lower hs
  have hnil : s.toList = [] := List.map_eq_nil_iff.mp hlower.symm
  exact String.toList_eq_nil_iff.mp hnil

end Decoding

/-! ## The loop over the indices

    `hex_decode` reads its bytes by index.  `Except Nat` is a computation that
    stops at an index out of range. -/

/-- `bytes[i]`. -/
def byteAt (bytes : List UInt8) (i : Nat) : Except Nat UInt8 :=
  match bytes[i]? with
  | some b => .ok b
  | none => .error i

/-- The closure over the indices; it returns before the second byte if the
    first one is no digit. -/
def decodePairAt (bytes : List UInt8) (i : Nat) : Except Nat (Option UInt8) := do
  let some hi := toDigit16 (← byteAt bytes i) | return none
  let some lo := toDigit16 (← byteAt bytes (i + 1)) | return none
  return some ((hi.toUInt32 <<< 4) ||| lo.toUInt32).toUInt8

/-- `collect`, which stops at the first `None`. -/
def collectPairs (bytes : List UInt8) :
    List Nat → Except Nat (Option (List UInt8))
  | [] => return some []
  | i :: is => do
      let some b ← decodePairAt bytes i | return none
      let some bs ← collectPairs bytes is | return none
      return some (b :: bs)

/-- `hex_decode`, index by index. -/
def hexDecodeIndexed (s : String) : Except Nat (Option (List UInt8)) :=
  let bytes := utf8 s
  if bytes.length % 2 ≠ 0 then return none
  else collectPairs bytes (List.range' 0 ((bytes.length + 1) / 2) 2)

section Indices

variable {bytes : List UInt8} {i : Nat}

/-- The nibbles are joined in 32 bits and cut to eight. -/
theorem join_nibbles (h l : UInt8) :
    ((h.toUInt32 <<< 4) ||| l.toUInt32).toUInt8 = h <<< 4 ||| l := by
  rw [UInt32.toUInt8_or]
  simp

/-- In front of two bytes both indices are in range. -/
theorem decodePairAt_eq {hi lo : UInt8} {rest : List UInt8}
    (hdrop : bytes.drop i = hi :: lo :: rest) :
    decodePairAt bytes i = .ok (match toDigit16 hi, toDigit16 lo with
      | some h, some l => some (h <<< 4 ||| l)
      | _, _ => none) := by
  have hhi : bytes[i + 0]? = some hi := by
    rw [← List.getElem?_drop, hdrop]
    rfl
  have hlo : bytes[i + 1]? = some lo := by
    rw [← List.getElem?_drop, hdrop]
    rfl
  rw [Nat.add_zero] at hhi
  simp only [decodePairAt, byteAt, hhi, hlo]
  cases hh : toDigit16 hi with
  | none => simp only [bind, Except.bind, hh]; rfl
  | some h =>
      cases hl : toDigit16 lo with
      | none => simp only [bind, Except.bind, hh, hl]; rfl
      | some l =>
          simp only [bind, Except.bind, hh, hl, join_nibbles]
          rfl

/-- **NO INDEX IS OUT OF RANGE**: from `i` on, the loop decodes the bytes that
    are left. -/
theorem collectPairs_eq {n : Nat} (hlen : bytes.length = i + 2 * n) :
    collectPairs bytes (List.range' i n 2)
      = .ok (hexDecodePairs (bytes.drop i)) := by
  induction n generalizing i with
  | zero =>
      rw [List.drop_of_length_le (by omega)]
      rfl
  | succ n ih =>
      have hlast : i + 1 < bytes.length := by omega
      have hdrop : bytes.drop i
          = bytes[i] :: bytes[i + 1] :: bytes.drop (i + 2) := by
        rw [List.drop_eq_getElem_cons (by omega),
          List.drop_eq_getElem_cons hlast]
      have hrest := @ih (i + 2) (by omega)
      rw [List.range'_succ, collectPairs, decodePairAt_eq hdrop, hrest, hdrop,
        hexDecodePairs]
      cases toDigit16 bytes[i] with
      | none => rfl
      | some h =>
          cases toDigit16 bytes[i + 1] with
          | none => rfl
          | some l =>
              cases hexDecodePairs (bytes.drop (i + 2)) with
              | none => rfl
              | some bs => rfl

/-- The loop is the decoding by pairs. -/
theorem hexDecodeIndexed_eq (s : String) :
    hexDecodeIndexed s = .ok (hexDecode s) := by
  rw [hexDecodeIndexed]
  by_cases hlen : (utf8 s).length % 2 = 0
  · rw [if_neg (not_not.mpr hlen), collectPairs_eq (by omega)]
    rfl
  · rw [if_pos hlen]
    have hnone : hexDecode s = none := by
      rw [Option.eq_none_iff_forall_ne_some]
      intro out hout
      exact hlen (hexDecode_iff.mp ⟨out, hout⟩).1
    rw [hnone]
    rfl

end Indices

/-- What `hex_decode` makes of a string: it does not read out of range, and
    the bytes it returns are those whose writing is the string in lower case,
    if the string is an even number of digits. -/
structure Decodes (s : String) : Prop where
  in_range : ∃ out, hexDecodeIndexed s = .ok out
  decodes_iff : (∃ bs, hexDecodeIndexed s = .ok (some bs)) ↔ HexBytes (utf8 s)
  decoded_iff : ∀ bs, hexDecodeIndexed s = .ok (some bs)
    ↔ HexBytes (utf8 s) ∧ hexEncode bs = s.toList.map Char.toLower

/-- **HEX IS READ AS IT IS WRITTEN**: every list of bytes is read back from
    its writing, and every string, whatever its characters, is decoded exactly
    if it is an even number of hex digits. -/
theorem hex_codec (bs : List UInt8) (s : String) :
    hexDecodeIndexed (String.ofList (hexEncode bs)) = .ok (some bs) ∧
      Decodes s := by
  refine ⟨?_, ⟨_, hexDecodeIndexed_eq s⟩, ?_, ?_⟩
  · rw [hexDecodeIndexed_eq, decode_encode]
  · rw [hexDecodeIndexed_eq, ← hexDecode_iff]
    simp only [Except.ok.injEq]
  · intro out
    rw [hexDecodeIndexed_eq, Except.ok.injEq]
    constructor
    · intro hdec
      exact ⟨hexDecode_iff.mp ⟨out, hdec⟩, hexDecode_lower hdec⟩
    · rintro ⟨hhex, hlower⟩
      obtain ⟨out', hdec⟩ := hexDecode_iff.mpr hhex
      rw [hdec, hexEncode_injective ((hexDecode_lower hdec).trans hlower.symm)]

/-- Four bytes, of which the two of `é` are no digits. -/
example : hexDecodeIndexed "aé0" = .ok none := by decide

end KvmHex
