import KvmRs.EnvelopeProofs

/-! # Proofs and credentials

    The pairing proof of the control channel and the comparison of secrets.
    SHA-256 is a parameter.  Both comparisons accumulate the differences of
    all bytes, so that their timing does not depend on where the first one
    is; they decide equality all the same. -/

namespace KvmAuth

open ByteCodec KvmEnvelope

/-- The accumulator of both comparisons. -/
def xorDiff (a b : List UInt8) : UInt8 :=
  (a.zip b).foldl (fun diff p => diff ||| (p.1 ^^^ p.2)) 0

/-- Constant-time comparison of two proofs. -/
def proofMatches (a b : Vector UInt8 32) : Bool :=
  xorDiff a.toList b.toList == 0

/-- Constant-time comparison of credentials of any length. -/
def constantTimeEq (a b : List UInt8) : Bool :=
  if a.length ≠ b.length then false else xorDiff a b == 0

/-- `SHA-256(pin || 0x00 || nonce || 0x00 || fingerprint)`. -/
def pairingProof (sha256 : List UInt8 → Vector UInt8 32) (pin : String)
    (nonce : Vector UInt8 16) (fingerprint : String) : Vector UInt8 32 :=
  sha256 (utf8 pin ++ [0] ++ nonce.toList ++ [0] ++ utf8 fingerprint)

/-- The fields of a `PairRequest`. -/
structure PairRequest where
  nonce : Vector UInt8 16
  fingerprint : String
  proof : Vector UInt8 32
  deriving DecidableEq

/-- The proof is the one made with this PIN. -/
def proofOk (sha256 : List UInt8 → Vector UInt8 32) (pin : String)
    (req : PairRequest) : Bool :=
  proofMatches (pairingProof sha256 pin req.nonce req.fingerprint) req.proof

/-- The accumulator only grows, and ends at zero exactly if it started there
    and no pair differs. -/
theorem foldl_xor_eq_zero (ps : List (UInt8 × UInt8)) (d : UInt8) :
    ps.foldl (fun diff p => diff ||| (p.1 ^^^ p.2)) d = 0
      ↔ d = 0 ∧ ∀ p ∈ ps, p.1 = p.2 := by
  induction ps generalizing d with
  | nil => simp
  | cons p ps ih =>
      rw [List.foldl_cons, ih, UInt8.or_eq_zero_iff, UInt8.xor_eq_zero_iff,
        List.forall_mem_cons, and_assoc]

theorem forall_zip_eq {a b : List UInt8} (h : a.length = b.length) :
    (∀ p ∈ a.zip b, p.1 = p.2) ↔ a = b := by
  induction a generalizing b with
  | nil =>
      rw [List.length_nil] at h
      rw [List.length_eq_zero_iff.mp h.symm]
      simp
  | cons x a ih =>
      cases b with
      | nil => cases h
      | cons y b =>
          rw [List.zip_cons_cons, List.forall_mem_cons,
            ih (Nat.succ.inj h), List.cons.injEq]

theorem xorDiff_eq_zero {a b : List UInt8} (h : a.length = b.length) :
    xorDiff a b = 0 ↔ a = b := by
  rw [xorDiff, foldl_xor_eq_zero, forall_zip_eq h]
  exact and_iff_right rfl

/-- **COMPARING PROOFS DECIDES EQUALITY**. -/
theorem proofMatches_iff (a b : Vector UInt8 32) :
    proofMatches a b = true ↔ a = b := by
  rw [proofMatches, beq_iff_eq, xorDiff_eq_zero (by simp)]
  exact Vector.toList_inj

/-- **COMPARING CREDENTIALS DECIDES EQUALITY**. -/
theorem constantTimeEq_iff (a b : List UInt8) :
    constantTimeEq a b = true ↔ a = b := by
  by_cases h : a.length = b.length
  · rw [constantTimeEq, if_neg (not_not.mpr h), beq_iff_eq, xorDiff_eq_zero h]
  · rw [constantTimeEq, if_pos h]
    constructor
    · exact fun h => nomatch h
    · rintro rfl
      exact absurd rfl h

/-- SHA-256 of the proof input for the PIN 123456, a nonce of zeros and the
    fingerprint `AA`. -/
def digest123456 : Vector UInt8 32 :=
  #v[0x73, 0xa9, 0x31, 0x2d, 0x92, 0xc8, 0x45, 0x79, 0x34, 0x71, 0x03, 0xb7,
    0xe7, 0x3e, 0xa7, 0xfd, 0x4c, 0xf3, 0x30, 0x57, 0x7f, 0x0c, 0x40, 0x2e,
    0x52, 0xab, 0xb7, 0xbf, 0x06, 0x1b, 0xda, 0xd6]

end KvmAuth
