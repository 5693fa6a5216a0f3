import KvmRs.KeymapProofs
import Mathlib.Data.List.Chain

/-! # Codes of keys

    `key_to_code` gives every named key a code of its own below `0x10000`, in
    the order of the table, and puts the unknown keys behind them.  The client
    knows the named ones and drops everything from `0x10000` on.

    The sum `0x10000 + n` is made in 32 bits.  From `n = 0xFFFF0000` on it
    wraps around into the table. -/

namespace KvmKeyCode

open KvmKeymap

/-- The named keys, in the order of their codes. -/
def canonicalKeys : List Key :=
  [.escape, .num1, .num2, .num3, .num4, .num5, .num6, .num7, .num8, .num9,
    .num0, .minus, .equal, .backspace, .tab, .keyQ, .keyW, .keyE, .keyR, .keyT,
    .keyY, .keyU, .keyI, .keyO, .keyP, .leftBracket, .rightBracket, .return,
    .controlLeft, .keyA, .keyS, .keyD, .keyF, .keyG, .keyH, .keyJ, .keyK,
    .keyL, .semiColon, .quote, .backQuote, .shiftLeft, .backSlash, .keyZ,
    .keyX, .keyC, .keyV, .keyB, .keyN, .keyM, .comma, .dot, .slash,
    .shiftRight, .kpMultiply, .alt, .space, .capsLock, .f1, .f2, .f3, .f4, .f5,
    .f6, .f7, .f8, .f9, .f10, .numLock, .scrollLock, .kp7, .kp8, .kp9,
    .kpMinus, .kp4, .kp5, .kp6, .kpPlus, .kp1, .kp2, .kp3, .kp0, .kpDelete,
    .intlBackslash, .f11, .f12, .kpReturn, .controlRight, .kpDivide,
    .printScreen, .altGr, .home, .upArrow, .pageUp, .leftArrow, .rightArrow,
    .endKey, .downArrow, .pageDown, .insert, .delete, .pause, .metaLeft,
    .metaRight, .function]

/-- The code without the limit of 32 bits. -/
def codeValue : Key → Nat
  | .unknown n => 0x10000 + n.toNat
  | k => (keyToCode k).toNat

/-- The unknown keys for which the sum does not fit. -/
def Wraps (k : Key) : Prop := ∃ n, k = .unknown n ∧ 0xFFFF0000 ≤ n

/-- What `key_to_code` and the client's table promise about two keys. -/
structure CodesFaithful (k k' : Key) : Prop where
  injective : keyToCode k = keyToCode k' → k = k'
  no_overflow : (keyToCode k).toNat = codeValue k ∧
    (keyToCode k').toNat = codeValue k'
  dropped_iff : ∀ p, p ≠ .macos →
    (codeToKey p (keyToCode k) = none ↔ ∃ n, k = .unknown n) ∧
      (codeToKey p (keyToCode k') = none ↔ ∃ n, k' = .unknown n)

/-! ## The named keys -/

theorem unknown_or_canonical (k : Key) :
    (∃ n, k = .unknown n) ∨ k ∈ canonicalKeys := by
  cases k with
  | unknown n => exact Or.inl ⟨n, rfl⟩
  | _ => exact Or.inr (by decide)

theorem codes_increase :
    (canonicalKeys.map keyToCode).Pairwise (· < ·) := by
  rw [← List.isChain_iff_pairwise]
  decide +kernel

theorem canonical_code_lt : ∀ k ∈ canonicalKeys, keyToCode k < 0x10000 := by
  decide

/-- Both targets that know a numeric keypad and a NumLock key have a key for
    every named one. -/
theorem canonical_known : ∀ k ∈ canonicalKeys,
    codeToKey .windows (keyToCode k) ≠ none ∧
      codeToKey .linux (keyToCode k) ≠ none := by
  decide +kernel

theorem canonical_injective {k k' : Key} (hk : k ∈ canonicalKeys)
    (hk' : k' ∈ canonicalKeys) (h : keyToCode k = keyToCode k') : k = k' := by
  have hnodup : (canonicalKeys.map keyToCode).Nodup :=
    codes_increase.imp fun hlt heq => absurd (heq ▸ hlt) (UInt32.lt_irrefl _)
  exact List.inj_on_of_nodup_map hnodup hk hk' h

theorem codeToKey_high {p : Platform} {code : UInt32} (h : 0x10000 ≤ code) :
    codeToKey p code = none :=
  if_pos h

/-! ## The unknown keys -/

section Unknown

variable {k : Key} {n : UInt32}

/-- Up to the limit the sum is the sum. -/
theorem unknown_value (h : ¬ Wraps (.unknown n)) :
    (keyToCode (.unknown n)).toNat = 0x10000 + n.toNat := by
  have hlt : n < 0xFFFF0000 :=
    UInt32.not_le.mp fun hle => h ⟨n, rfl, hle⟩
  have hn : n.toNat < 0xFFFF0000 := UInt32.lt_iff_toNat_lt.mp hlt
  show (0x10000 + n).toNat = _
  rw [UInt32.toNat_add]
  exact Nat.mod_eq_of_lt (by show 0x10000 + n.toNat < 2 ^ 32; omega)

theorem unknown_high (h : ¬ Wraps (.unknown n)) :
    0x10000 ≤ keyToCode (.unknown n) := by
  rw [UInt32.le_iff_toNat_le, unknown_value h]
  exact Nat.le_add_right _ _

/-- From the limit on the sum comes out too small. -/
theorem wraps_value (h : Wraps k) : (keyToCode k).toNat ≠ codeValue k := by
  obtain ⟨n, rfl, hn⟩ := h
  have hle : 0xFFFF0000 ≤ n.toNat := UInt32.le_iff_toNat_le.mp hn
  have hlt := (keyToCode (.unknown n)).toNat_lt
  show (keyToCode (.unknown n)).toNat ≠ 0x10000 + n.toNat
  omega

/-- A key whose sum fits has its own value. -/
theorem code_value (h : ¬ Wraps k) : (keyToCode k).toNat = codeValue k := by
  cases k with
  | unknown n => exact unknown_value h
  | _ => rfl

end Unknown

/-! ## Any two keys -/

/-- A client with a keypad drops exactly the unknown keys. -/
theorem dropped_iff_unknown {p : Platform} {k : Key} (hp : p ≠ .macos)
    (h : ¬ Wraps k) :
    codeToKey p (keyToCode k) = none ↔ ∃ n, k = .unknown n := by
  constructor
  · intro hnone
    rcases unknown_or_canonical k with hunknown | hcanonical
    · exact hunknown
    · obtain ⟨hwindows, hlinux⟩ := canonical_known k hcanonical
      cases p with
      | windows => exact absurd hnone hwindows
      | linux => exact absurd hnone hlinux
      | macos => exact absurd rfl hp
  · rintro ⟨n, rfl⟩
    exact codeToKey_high (unknown_high h)

/-- No code is given twice. -/
theorem code_injective {k k' : Key} (h : ¬ Wraps k) (h' : ¬ Wraps k')
    (hcode : keyToCode k = keyToCode k') : k = k' := by
  -- a named key's code is below those of the unknown ones
  have hapart : ∀ {k₁ : Key} {n : UInt32}, k₁ ∈ canonicalKeys →
      ¬ Wraps (.unknown n) → keyToCode k₁ ≠ keyToCode (.unknown n) := by
    intro k₁ n hk₁ hn heq
    have hlt := canonical_code_lt k₁ hk₁
    rw [heq] at hlt
    exact absurd (unknown_high hn) (UInt32.not_le.mpr hlt)
  rcases unknown_or_canonical k with ⟨n, rfl⟩ | hk
  · rcases unknown_or_canonical k' with ⟨n', rfl⟩ | hk'
    · have hsum : 0x10000 + n.toNat = 0x10000 + n'.toNat := by
        rw [← unknown_value h, ← unknown_value h', hcode]
      rw [UInt32.toNat_inj.mp (Nat.add_left_cancel hsum)]
    · exact absurd hcode.symm (hapart hk' h)
  · rcases unknown_or_canonical k' with ⟨n', rfl⟩ | hk'
    · exact absurd hcode (hapart hk h')
    · exact canonical_injective hk hk' hcode

/-- **CODES ARE FAITHFUL UP TO THE WRAP**: exactly for keys whose sums fit. -/
theorem codes_faithful_iff (k k' : Key) :
    CodesFaithful k k' ↔ ¬ Wraps k ∧ ¬ Wraps k' := by
  constructor
  · intro h
    exact ⟨fun hw => wraps_value hw h.no_overflow.1,
      fun hw => wraps_value hw h.no_overflow.2⟩
  · rintro ⟨h, h'⟩
    exact ⟨code_injective h h', ⟨code_value h, code_value h'⟩,
      fun _ hp => ⟨dropped_iff_unknown hp h, dropped_iff_unknown hp h'⟩⟩

/-- **AN UNKNOWN KEY TYPES ESCAPE**: its code wraps around to 1. -/
theorem unknown_key_injects_escape :
    keyToCode (.unknown 0xFFFF0001) = keyToCode .escape ∧
      codeToKey .linux (keyToCode (.unknown 0xFFFF0001)) = some .escape ∧
      ¬ CodesFaithful (.unknown 0xFFFF0001) .escape := by
  refine ⟨by decide, by decide, ?_⟩
  intro h
  exact absurd (h.injective (by decide)) (by decide)

end KvmKeyCode
