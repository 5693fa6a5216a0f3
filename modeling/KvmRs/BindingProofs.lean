import KvmRs.HandshakeProofs
import Mathlib.Data.Set.Function

/-! # What a pairing proof binds

    `pairing_proof` hashes the PIN, the nonce and the fingerprint with a zero
    byte between them.  Nonces and fingerprints may contain zero bytes
    themselves.  The nonce has a fixed length, so that only the end of the PIN
    can be in doubt, and a PIN without a zero byte ends at the first one.

    No function into 32 bytes is injective on all messages; SHA-256 is assumed
    to be so on the set of messages that are ever hashed. -/

namespace KvmBinding

open ByteCodec KvmText KvmAuth KvmHandshake

section Inputs

variable {pin pin' fp fp' : String} {nonce nonce' : Vector UInt8 16}

theorem proofInput_eq (pin : String) (nonce : Vector UInt8 16) (fp : String) :
    proofInput pin nonce fp = utf8 pin ++ 0 :: (nonce.toList ++ 0 :: utf8 fp) := by
  simp only [proofInput, List.append_assoc, List.cons_append, List.nil_append]

/-- Behind the PIN everything can be read off: the nonce has 16 bytes. -/
theorem request_injective (h : nonce.toList ++ 0 :: utf8 fp
    = nonce'.toList ++ 0 :: utf8 fp') : nonce = nonce' ∧ fp = fp' := by
  have hlen : nonce.toList.length = nonce'.toList.length := by
    rw [Vector.length_toList, Vector.length_toList]
  obtain ⟨hnonce, htail⟩ := List.append_inj h hlen
  exact ⟨Vector.toList_inj.mp hnonce, utf8_injective (List.cons.inj htail).2⟩

/-- For one PIN, the nonce and the fingerprint can be read off. -/
theorem proofInput_same_pin
    (h : proofInput pin nonce fp = proofInput pin nonce' fp') :
    nonce = nonce' ∧ fp = fp' := by
  rw [proofInput_eq, proofInput_eq] at h
  exact request_injective (List.cons.inj (List.append_cancel_left h)).2

/-- Of PINs without a zero byte, everything can be read off. -/
theorem proofInput_no_nul (hpin : 0 ∉ utf8 pin) (hpin' : 0 ∉ utf8 pin')
    (h : proofInput pin nonce fp = proofInput pin' nonce' fp') :
    pin = pin' ∧ nonce = nonce' ∧ fp = fp' := by
  rw [proofInput_eq, proofInput_eq] at h
  obtain ⟨hp, hrest⟩ := cut_at_first hpin hpin' h
  exact ⟨utf8_injective hp, request_injective hrest⟩

/-- A zero byte in the PIN can be taken for the separator. -/
example : proofInput "" (Vector.replicate 16 0) "\x00"
    = proofInput "\x00" (Vector.replicate 16 0) "" := by
  decide

end Inputs

/-- Which proofs match, for messages among `Ms`. -/
structure Binding (sha256 : List UInt8 → Vector UInt8 32)
    (Ms : Set (List UInt8)) : Prop where
  same_pin : ∀ pin nonce fp nonce' fp', proofInput pin nonce fp ∈ Ms →
    proofInput pin nonce' fp' ∈ Ms →
    proofMatches (pairingProof sha256 pin nonce fp)
      (pairingProof sha256 pin nonce' fp') = true → nonce = nonce' ∧ fp = fp'
  same_request : ∀ nonce fp pin pin', proofInput pin nonce fp ∈ Ms →
    proofInput pin' nonce fp ∈ Ms →
    (proofMatches (pairingProof sha256 pin nonce fp)
      (pairingProof sha256 pin' nonce fp) = true ↔ pin = pin')
  no_nul : ∀ pin nonce fp pin' nonce' fp', 0 ∉ utf8 pin → 0 ∉ utf8 pin' →
    proofInput pin nonce fp ∈ Ms → proofInput pin' nonce' fp' ∈ Ms →
    (proofMatches (pairingProof sha256 pin nonce fp)
      (pairingProof sha256 pin' nonce' fp') = true
        ↔ pin = pin' ∧ nonce = nonce' ∧ fp = fp')

/-- Matching proofs were made from one message. -/
theorem input_of_matches {sha256 : List UInt8 → Vector UInt8 32}
    {Ms : Set (List UInt8)} (hsha : Ms.InjOn sha256) {pin pin' fp fp' : String}
    {nonce nonce' : Vector UInt8 16} (hm : proofInput pin nonce fp ∈ Ms)
    (hm' : proofInput pin' nonce' fp' ∈ Ms)
    (h : proofMatches (pairingProof sha256 pin nonce fp)
      (pairingProof sha256 pin' nonce' fp') = true) :
    proofInput pin nonce fp = proofInput pin' nonce' fp' :=
  hsha hm hm' ((proofMatches_iff _ _).mp h)

/-- **A PROOF BINDS WHAT IT WAS MADE OF**: with one PIN the nonce and the
    fingerprint, with one nonce and fingerprint the PIN, and with PINs that
    have no zero byte all three. -/
theorem proof_binds (sha256 : List UInt8 → Vector UInt8 32)
    (Ms : Set (List UInt8)) (hsha : Ms.InjOn sha256) : Binding sha256 Ms where
  same_pin := by
    intro pin nonce fp nonce' fp' hm hm' h
    exact proofInput_same_pin (input_of_matches hsha hm hm' h)
  same_request := by
    intro nonce fp pin pin' hm hm'
    constructor
    · intro h
      exact proofInput_injective (input_of_matches hsha hm hm' h)
    · rintro rfl
      exact (proofMatches_iff _ _).mpr rfl
  no_nul := by
    intro pin nonce fp pin' nonce' fp' hpin hpin' hm hm'
    constructor
    · intro h
      exact proofInput_no_nul hpin hpin' (input_of_matches hsha hm hm' h)
    · rintro ⟨rfl, rfl, rfl⟩
      exact (proofMatches_iff _ _).mpr rfl

/-- SHA-256 on two messages: the PINs 123456 and 654321, a nonce of zeros and
    the fingerprint `AA`. -/
def sha256Pins (bytes : List UInt8) : Vector UInt8 32 :=
  if bytes = proofInput "654321" (Vector.replicate 16 0) "AA" then
    #v[0x06, 0xc8, 0xc5, 0x1e, 0xd5, 0xf3, 0xc4, 0x49, 0x7c, 0x25, 0xeb, 0xc6,
      0xd7, 0xd6, 0xd2, 0xf7, 0x90, 0xf1, 0xba, 0x98, 0x1d, 0xb6, 0x12, 0xfb,
      0xec, 0x9a, 0xe2, 0x28, 0xcd, 0x78, 0x45, 0x7c]
  else digest123456

/-- The proof of another PIN does not match. -/
theorem proof_binds_pins :
    proofMatches
      (pairingProof sha256Pins "123456" (Vector.replicate 16 0) "AA")
      (pairingProof sha256Pins "654321" (Vector.replicate 16 0) "AA")
        = false := by
  have h := proof_binds sha256Pins
    {proofInput "123456" (Vector.replicate 16 0) "AA",
      proofInput "654321" (Vector.replicate 16 0) "AA"}
    (Set.injOn_pair.mpr fun heq => absurd heq (by decide))
  have hiff := h.same_request (Vector.replicate 16 0) "AA" "123456" "654321"
    (Or.inl rfl) (Or.inr rfl)
  exact Bool.eq_false_iff.mpr fun hmatch => absurd (hiff.mp hmatch) (by decide)

end KvmBinding
