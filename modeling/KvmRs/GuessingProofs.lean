import KvmRs.AuthProofs
import KvmRs.RateLimitProofs
import KvmRs.TransitionProofs

/-! # Guessing proofs and credentials

    Connections of the control channel and of the SOCKS5 proxy, from the
    request on: the limiter check, the wait for the config or for the peer's
    bytes, the comparison, and the recording of a failure.  Check and
    recording are separate critical sections, so connections that have passed
    the check and not yet failed are invisible to the limiter.

    `Unraced` says when that does not matter: a check lets a connection on only
    if no other one of its address is in between, or there is room for all of
    them to fail.  Then at most five wrong guesses of an address are compared
    in any ten minutes. -/

namespace KvmGuessing

open KvmEnvelope KvmAuth KvmRateLimit Transition

/-- The two services that check secrets, each with its own limiter. -/
inductive Service where
  | control | socks5
  deriving DecidableEq

structure Socks5Config where
  username : Option String
  password : Option String
  allowAnonymous : Bool

/-- What the server compares with. -/
structure Secrets where
  sha256 : List UInt8 → Vector UInt8 32
  pin : String
  socks5 : Socks5Config

def AUTH_USER_PASS : UInt8 := 2

/-- Where a connection is. -/
inductive Phase where
  /-- Waiting for the `PairRequest`, or for the SOCKS5 greeting. -/
  | reading
  /-- The request has arrived and is about to be checked. -/
  | requested (req : PairRequest)
  | greeted (methods : List UInt8)
  /-- Passed the check, waiting for the config. -/
  | passed (req : PairRequest)
  /-- Not a paired device: about to compare the proof. -/
  | unpaired (req : PairRequest)
  /-- Passed the check, waiting for the credentials. -/
  | credentialsDue
  /-- Compared and wrong: about to record the failure. -/
  | mismatched
  | ended
  deriving DecidableEq

variable {C Ip : Type}

structure World (C Ip : Type) where
  now : Nat
  paired : List String
  limiter : Service → RateLimiter Ip
  phase : C → Phase
  /-- When wrong guesses were compared, and when failures were recorded. -/
  compared : Service → Ip → List Nat
  recorded : Service → Ip → List Nat

inductive Action (C : Type) where
  | tick (d : Nat)
  | pairRequest (c : C) (req : PairRequest)
  | greeting (c : C) (methods : List UInt8)
  | check (c : C)
  | readConfig (c : C)
  | compareProof (c : C)
  | compareCredentials (c : C) (uname pass : List UInt8)
  | record (c : C)
  /-- The connection ends before anything is compared. -/
  | leave (c : C)

def World.start (C Ip : Type) (paired : List String) : World C Ip where
  now := 0
  paired := paired
  limiter := fun _ _ => none
  phase := fun _ => .reading
  compared := fun _ _ => []
  recorded := fun _ _ => []

/-- A guess in the credentials; both are always compared. -/
def credentialsOk (k : Secrets) (uname pass : List UInt8) : Bool :=
  constantTimeEq uname (ByteCodec.utf8 (k.socks5.username.getD ""))
    && constantTimeEq pass (ByteCodec.utf8 (k.socks5.password.getD ""))

section System

variable [DecidableEq C] [DecidableEq Ip] (k : Secrets)
  (service : C → Service) (ip : C → Ip)

/-- Where the check leads: `none` if the connection is not at its check. -/
def afterCheck (w : World C Ip) (c : C) : Option Phase :=
  let limited := isRateLimited (w.limiter (service c)) (ip c) w.now
  match w.phase c with
  | .requested req => some (if limited then .ended else .passed req)
  | .greeted methods =>
      some (
        if k.socks5.allowAnonymous then .ended
        else if limited then .ended
        else if k.socks5.username.isSome ∧ k.socks5.password.isSome
            ∧ AUTH_USER_PASS ∈ methods then .credentialsDue
        else .ended)
  | _ => none

def World.goto (w : World C Ip) (c : C) (ph : Phase) : World C Ip :=
  { w with phase := Function.update w.phase c ph }

/-- A wrong guess of connection `c` was compared. -/
def World.mismatch (w : World C Ip) (c : C) : World C Ip :=
  { w with
    phase := Function.update w.phase c .mismatched
    compared := Function.update w.compared (service c)
      (Function.update (w.compared (service c)) (ip c)
        (w.compared (service c) (ip c) ++ [w.now])) }

/-- One step of one connection, or of the clock. -/
def step (w : World C Ip) : Action C → Option (World C Ip)
  | .tick d => some { w with now := w.now + d }
  | .pairRequest c req =>
      if service c = .control ∧ w.phase c = .reading then
        some (w.goto c (.requested req))
      else none
  | .greeting c methods =>
      if service c = .socks5 ∧ w.phase c = .reading then
        some (w.goto c (.greeted methods))
      else none
  | .check c => (afterCheck k service ip w c).map (w.goto c)
  | .readConfig c =>
      match w.phase c with
      | .passed req =>
          some (w.goto c
            (if req.fingerprint ∈ w.paired then .ended else .unpaired req))
      | _ => none
  | .compareProof c =>
      match w.phase c with
      | .unpaired req =>
          some (if proofOk k.sha256 k.pin req then
              { w with paired := req.fingerprint :: w.paired }.goto c .ended
            else w.mismatch service ip c)
      | _ => none
  | .compareCredentials c uname pass =>
      match w.phase c with
      | .credentialsDue =>
          some (if credentialsOk k uname pass then w.goto c .ended
            else w.mismatch service ip c)
      | _ => none
  | .record c =>
      match w.phase c with
      | .mismatched =>
          some { w.goto c .ended with
            limiter := Function.update w.limiter (service c)
              (recordPairingFailure (w.limiter (service c)) (ip c) w.now)
            recorded := Function.update w.recorded (service c)
              (Function.update (w.recorded (service c)) (ip c)
                (w.recorded (service c) (ip c) ++ [w.now])) }
      | _ => none
  | .leave c =>
      match w.phase c with
      | .mismatched => none
      | .ended => none
      | _ => some (w.goto c .ended)

end System

/-! ## Phases of a check -/

/-- The connection has passed its check and not yet compared anything. -/
def Phase.isOpen : Phase → Nat
  | .passed _ => 1
  | .unpaired _ => 1
  | .credentialsDue => 1
  | _ => 0

/-- The connection has failed and not yet been recorded. -/
def Phase.isMismatched : Phase → Nat
  | .mismatched => 1
  | _ => 0

section Check

variable {k : Secrets} {service : C → Service} {ip : C → Ip}
  {w : World C Ip} {c : C} {ph : Phase}

/-- A check that leads to an open phase was passed. -/
theorem afterCheck_open
    (h : afterCheck k service ip w c = some ph) (ho : ph.isOpen = 1) :
    isRateLimited (w.limiter (service c)) (ip c) w.now = false := by
  by_contra hlim
  rw [Bool.not_eq_false] at hlim
  simp only [afterCheck, hlim, if_true, ite_self] at h
  split at h
  · rw [← Option.some.inj h] at ho
    cases ho
  · rw [← Option.some.inj h] at ho
    cases ho
  · cases h

/-- A check is made by a connection that has not failed, and leads to at most
    one comparison. -/
theorem afterCheck_from
    (h : afterCheck k service ip w c = some ph) :
    (w.phase c).isMismatched = 0 ∧ (ph.isOpen = 1 ∨ ph.isOpen = 0) := by
  cases hph : w.phase c <;> simp only [afterCheck, hph, reduceCtorEq] at h
  · rw [← Option.some.inj h]
    refine ⟨rfl, ?_⟩
    split
    · exact Or.inr rfl
    · exact Or.inl rfl
  · rw [← Option.some.inj h]
    refine ⟨rfl, ?_⟩
    split
    · exact Or.inr rfl
    · split
      · exact Or.inr rfl
      · split
        · exact Or.inl rfl
        · exact Or.inr rfl

end Check

/-! ## Counting -/

/-- Guesses compared at or after a time. -/
def countFrom (t : Nat) (times : List Nat) : Nat :=
  times.countP (fun c => t ≤ c)

/-- Guesses compared in the ten minutes from a time on. -/
def inWindow (t : Nat) (times : List Nat) : Nat :=
  times.countP (fun c => t ≤ c ∧ c < t + RATE_LIMIT_WINDOW)

variable [DecidableEq Ip] [Fintype C]

/-- How many connections of one address are in such a phase. -/
def tally (service : C → Service) (ip : C → Ip) (weight : Phase → Nat)
    (phase : C → Phase) (s : Service) (x : Ip) : Nat :=
  ∑ c, if service c = s ∧ ip c = x then weight (phase c) else 0

/-- The connections of one address between a passed check and the recording
    of their failure. -/
def inBetween (service : C → Service) (ip : C → Ip) (w : World C Ip)
    (s : Service) (x : Ip) : Nat :=
  tally service ip Phase.isOpen w.phase s x
    + tally service ip Phase.isMismatched w.phase s x

/-- At most five wrong guesses of any address in any ten minutes. -/
def AtMostFive (w : World C Ip) : Prop :=
  ∀ s x t, inWindow t (w.compared s x) ≤ 5

/-- A check lets a connection on to a comparison only if no other connection
    of the address is in between, or those that are and the failures that
    still count leave room for one more. -/
def Unraced (k : Secrets) (service : C → Service) (ip : C → Ip)
    (w : World C Ip) : Action C → Prop
  | .check c =>
      (∃ ph ∈ afterCheck k service ip w c, ph.isOpen = 1) →
        inBetween service ip w (service c) (ip c) = 0 ∨
          inBetween service ip w (service c) (ip c)
            + (recent w.now
                (failuresOf (w.limiter (service c)) (ip c))).length
              < RATE_LIMIT_MAX_FAILURES
  | _ => True

/-! ## The invariant -/

/-- The invariant: the limiter knows the recorded failures, every wrong guess
    is recorded or about to be, and the guesses that still count leave room
    for every connection that may yet fail. -/
structure Bounded (service : C → Service) (ip : C → Ip) (w : World C Ip) :
    Prop where
  tracks : ∀ s x, Tracks (w.recorded s x) (w.limiter s x)
  recordedPast : ∀ s x, ∀ t ∈ w.recorded s x, t ≤ w.now
  comparedPast : ∀ s x, ∀ t ∈ w.compared s x, t ≤ w.now
  matched : ∀ s x t, countFrom t (w.compared s x)
    ≤ countFrom t (w.recorded s x)
      + tally service ip Phase.isMismatched w.phase s x
  room : ∀ s x t, w.now < t + RATE_LIMIT_WINDOW →
    countFrom t (w.compared s x)
      + tally service ip Phase.isOpen w.phase s x ≤ 5
  window : AtMostFive w

theorem bounded_start (service : C → Service) (ip : C → Ip)
    (paired : List String) :
    Bounded service ip (World.start C Ip paired) where
  tracks := fun _ _ => rfl
  recordedPast := fun _ _ _ h => nomatch h
  comparedPast := fun _ _ _ h => nomatch h
  matched := fun _ _ _ => Nat.zero_le _
  room := by
    intro s x t _
    have hzero : tally service ip Phase.isOpen (fun _ => .reading) s x = 0 :=
      Finset.sum_eq_zero (fun c _ => ite_self 0)
    show 0 + tally service ip Phase.isOpen (fun _ => .reading) s x ≤ 5
    rw [hzero]
    omega
  window := fun _ _ _ => Nat.zero_le _

theorem countFrom_append (t : Nat) (times : List Nat) (now : Nat) :
    countFrom t (times ++ [now])
      = countFrom t times + (if t ≤ now then 1 else 0) := by
  simp only [countFrom, List.countP_append, List.countP_singleton,
    decide_eq_true_eq]

theorem inWindow_append (t : Nat) (times : List Nat) (now : Nat) :
    inWindow t (times ++ [now]) = inWindow t times
      + (if t ≤ now ∧ now < t + RATE_LIMIT_WINDOW then 1 else 0) := by
  simp only [inWindow, List.countP_append, List.countP_singleton,
    decide_eq_true_eq]

theorem inWindow_le_countFrom (t : Nat) (times : List Nat) :
    inWindow t times ≤ countFrom t times := by
  refine List.countP_mono_left ?_
  intro c _ hc
  rw [decide_eq_true_eq] at hc ⊢
  exact hc.1

/-- What was recorded from `t` on still counts while the window is open. -/
theorem countFrom_le_recent {t now : Nat} (h : now < t + RATE_LIMIT_WINDOW)
    (times : List Nat) : countFrom t times ≤ (recent now times).length := by
  rw [countFrom, recent, List.countP_eq_length_filter]
  refine (List.monotone_filter_right times ?_).length_le
  intro c hc
  have hpos := window_pos
  rw [decide_eq_true_eq] at hc ⊢
  omega

/-- Nothing is counted from a time in the future. -/
theorem countFrom_future {t now : Nat} (h : now < t) {times : List Nat}
    (hle : ∀ c ∈ times, c ≤ now) : countFrom t times = 0 := by
  refine List.countP_eq_zero.mpr ?_
  intro c hc
  have := hle c hc
  rw [decide_eq_true_eq]
  omega

/-- Per-address ghosts: an update at one address. -/
theorem update_ghost (g : Service → Ip → List Nat) (s : Service) (x : Ip)
    (v : List Nat) (s' : Service) (x' : Ip) :
    Function.update g s (Function.update (g s) x v) s' x'
      = if s' = s ∧ x' = x then v else g s' x' := by
  by_cases hs : s' = s
  · rw [hs, Function.update_self]
    by_cases hx : x' = x
    · rw [hx, Function.update_self, if_pos ⟨rfl, rfl⟩]
    · rw [Function.update_of_ne hx, if_neg (fun h => hx h.2)]
  · rw [Function.update_of_ne hs, if_neg (fun h => hs h.1)]

/-! ## One step -/

section Steps

variable [DecidableEq C] {service : C → Service} {ip : C → Ip}
  {w : World C Ip} {c : C}

/-- Moving one connection changes the tally of its own address by its own
    weight. -/
theorem tally_update (weight : Phase → Nat) (phase : C → Phase) (c : C)
    (ph : Phase) (s : Service) (x : Ip) :
    tally service ip weight (Function.update phase c ph) s x
        + (if service c = s ∧ ip c = x then weight (phase c) else 0)
      = tally service ip weight phase s x
        + (if service c = s ∧ ip c = x then weight ph else 0) :=
  sum_update (fun c ph => if service c = s ∧ ip c = x then weight ph else 0)
    phase c ph

/-- A connection that goes on without having failed, to a phase that is no
    more open. -/
theorem Bounded.goto (h : Bounded service ip w) {ph : Phase}
    (hm : (w.phase c).isMismatched = 0) (ho : ph.isOpen ≤ (w.phase c).isOpen) :
    Bounded service ip (w.goto c ph) := by
  refine ⟨h.tracks, h.recordedPast, h.comparedPast, ?_, ?_, h.window⟩
  · intro s x t
    have hold := h.matched s x t
    have htally := @tally_update C Ip _ _ _ service ip Phase.isMismatched
      w.phase c ph s x
    rw [hm, ite_self] at htally
    simp only [World.goto]
    omega
  · intro s x t ht
    have hold := h.room s x t ht
    have htally := @tally_update C Ip _ _ _ service ip Phase.isOpen
      w.phase c ph s x
    simp only [World.goto]
    split at htally <;> omega

/-- A connection that passes its check with room to fail. -/
theorem Bounded.pass (h : Bounded service ip w) {ph : Phase}
    (hm : (w.phase c).isMismatched = 0) (ho : ph.isOpen = 1)
    (hpass : isRateLimited (w.limiter (service c)) (ip c) w.now = false)
    (hroom : inBetween service ip w (service c) (ip c) = 0 ∨
      inBetween service ip w (service c) (ip c)
        + (recent w.now (failuresOf (w.limiter (service c)) (ip c))).length
          < RATE_LIMIT_MAX_FAILURES) :
    Bounded service ip (w.goto c ph) := by
  -- in either case there is room for one more failure
  have hfree : inBetween service ip w (service c) (ip c)
      + (recent w.now (w.recorded (service c) (ip c))).length < 5 := by
    have hpast := h.recordedPast (service c) (ip c)
    have htracks := h.tracks (service c) (ip c)
    rcases hroom with hzero | hlt
    · have := passes_recent_lt htracks hpast hpass
      rw [hzero, Nat.zero_add]
      exact this
    · rw [failuresOf, recent_failures htracks hpast] at hlt
      exact hlt
  refine ⟨h.tracks, h.recordedPast, h.comparedPast, ?_, ?_, h.window⟩
  · intro s x t
    have hold := h.matched s x t
    have htally := @tally_update C Ip _ _ _ service ip Phase.isMismatched
      w.phase c ph s x
    rw [hm, ite_self] at htally
    simp only [World.goto]
    omega
  · intro s x t ht
    have htally := @tally_update C Ip _ _ _ service ip Phase.isOpen
      w.phase c ph s x
    simp only [World.goto]
    by_cases hkey : service c = s ∧ ip c = x
    · obtain ⟨rfl, rfl⟩ := hkey
      have hmatch := h.matched (service c) (ip c) t
      have hrec : _ ≤ (recent w.now _).length :=
        countFrom_le_recent ht (w.recorded (service c) (ip c))
      rw [if_pos ⟨rfl, rfl⟩, if_pos ⟨rfl, rfl⟩, ho] at htally
      simp only [inBetween] at hfree
      omega
    · have hold := h.room s x t ht
      rw [if_neg hkey, if_neg hkey] at htally
      omega

/-- A wrong guess is compared. -/
theorem Bounded.mismatch (h : Bounded service ip w)
    (ho : (w.phase c).isOpen = 1) (hm : (w.phase c).isMismatched = 0) :
    Bounded service ip (w.mismatch service ip c) := by
  have hcompared : ∀ s x, (w.mismatch service ip c).compared s x
      = if s = service c ∧ x = ip c then w.compared s x ++ [w.now]
        else w.compared s x := by
    intro s x
    simp only [World.mismatch, update_ghost]
    split
    · rename_i heq
      rw [heq.1, heq.2]
    · rfl
  -- the guess moves from the open connections to the compared ones
  have hroom : ∀ s x t, w.now < t + RATE_LIMIT_WINDOW →
      countFrom t ((w.mismatch service ip c).compared s x)
        + tally service ip Phase.isOpen (w.mismatch service ip c).phase s x
          ≤ 5 := by
    intro s x t ht
    have hold := h.room s x t ht
    have htally := @tally_update C Ip _ _ _ service ip Phase.isOpen
      w.phase c .mismatched s x
    rw [hcompared]
    simp only [World.mismatch]
    by_cases hkey : s = service c ∧ x = ip c
    · rw [if_pos hkey, countFrom_append]
      rw [if_pos ⟨hkey.1.symm, hkey.2.symm⟩,
        if_pos ⟨hkey.1.symm, hkey.2.symm⟩, ho] at htally
      simp only [Phase.isOpen] at htally
      split <;> omega
    · have hkey' : ¬ (service c = s ∧ ip c = x) :=
        fun h => hkey ⟨h.1.symm, h.2.symm⟩
      rw [if_neg hkey]
      rw [if_neg hkey', if_neg hkey'] at htally
      omega
  refine ⟨h.tracks, h.recordedPast, ?_, ?_, hroom, ?_⟩
  · intro s x t ht
    rw [hcompared] at ht
    split at ht
    · rcases List.mem_append.mp ht with ht | ht
      · exact h.comparedPast s x t ht
      · exact Nat.le_of_eq (List.mem_singleton.mp ht)
    · exact h.comparedPast s x t ht
  · intro s x t
    have hold := h.matched s x t
    have htally := @tally_update C Ip _ _ _ service ip Phase.isMismatched
      w.phase c .mismatched s x
    rw [hcompared]
    simp only [World.mismatch]
    rw [hm, ite_self] at htally
    by_cases hkey : s = service c ∧ x = ip c
    · rw [if_pos hkey, countFrom_append]
      rw [if_pos ⟨hkey.1.symm, hkey.2.symm⟩] at htally
      simp only [Phase.isMismatched] at htally
      split <;> omega
    · rw [if_neg hkey]
      omega
  · intro s x t
    by_cases hopen : t ≤ w.now ∧ w.now < t + RATE_LIMIT_WINDOW
    · have := hroom s x t hopen.2
      have := inWindow_le_countFrom t
        ((w.mismatch service ip c).compared s x)
      omega
    · -- the new guess is not in this window
      have hold := h.window s x t
      rw [hcompared]
      split
      · rw [inWindow_append, if_neg hopen]
        exact hold
      · exact hold

/-- A failure is recorded. -/
theorem Bounded.record (h : Bounded service ip w)
    (hph : w.phase c = .mismatched) :
    Bounded service ip { w.goto c .ended with
      limiter := Function.update w.limiter (service c)
        (recordPairingFailure (w.limiter (service c)) (ip c) w.now)
      recorded := Function.update w.recorded (service c)
        (Function.update (w.recorded (service c)) (ip c)
          (w.recorded (service c) (ip c) ++ [w.now])) } := by
  refine ⟨?_, ?_, h.comparedPast, ?_, ?_, h.window⟩
  · intro s x
    simp only [update_ghost]
    by_cases hkey : s = service c ∧ x = ip c
    · rw [if_pos hkey, hkey.1, hkey.2, Function.update_self,
        recordPairingFailure, Function.update_self]
      exact (h.tracks (service c) (ip c)).record
        (h.recordedPast (service c) (ip c))
    · rw [if_neg hkey]
      have hsame : Function.update w.limiter (service c)
          (recordPairingFailure (w.limiter (service c)) (ip c) w.now) s x
          = w.limiter s x := by
        by_cases hs : s = service c
        · have hx : x ≠ ip c := fun hx => hkey ⟨hs, hx⟩
          rw [hs, Function.update_self, recordPairingFailure,
            Function.update_of_ne hx]
        · rw [Function.update_of_ne hs]
      rw [hsame]
      exact h.tracks s x
  · intro s x t ht
    simp only [update_ghost] at ht
    split at ht
    · rename_i hkey
      rcases List.mem_append.mp ht with ht | ht
      · exact h.recordedPast (service c) (ip c) t ht
      · exact Nat.le_of_eq (List.mem_singleton.mp ht)
    · exact h.recordedPast s x t ht
  · intro s x t
    have hold := h.matched s x t
    have htally := @tally_update C Ip _ _ _ service ip Phase.isMismatched
      w.phase c .ended s x
    simp only [World.goto, update_ghost]
    rw [hph] at htally
    simp only [Phase.isMismatched, ite_self, Nat.add_zero] at htally
    by_cases hkey : s = service c ∧ x = ip c
    · rw [if_pos hkey, countFrom_append, ← hkey.1, ← hkey.2]
      rw [if_pos ⟨hkey.1.symm, hkey.2.symm⟩] at htally
      by_cases ht : t ≤ w.now
      · rw [if_pos ht]
        omega
      · rw [countFrom_future (Nat.lt_of_not_le ht) (h.comparedPast s x)]
        exact Nat.zero_le _
    · have hkey' : ¬ (service c = s ∧ ip c = x) :=
        fun h => hkey ⟨h.1.symm, h.2.symm⟩
      rw [if_neg hkey]
      rw [if_neg hkey'] at htally
      omega
  · intro s x t ht
    have hold := h.room s x t ht
    have htally := @tally_update C Ip _ _ _ service ip Phase.isOpen
      w.phase c .ended s x
    rw [hph] at htally
    simp only [Phase.isOpen, ite_self, Nat.add_zero] at htally
    simp only [World.goto]
    omega

/-- **ONE STEP**: every step whose checks leave room keeps the bound. -/
theorem bounded_step {k : Secrets} (w : World C Ip) (a : Action C)
    (w' : World C Ip) (h : Bounded service ip w)
    (hok : Unraced k service ip w a)
    (hs : step k service ip w a = some w') : Bounded service ip w' := by
  cases a with
  | tick d =>
      rw [← Option.some.inj hs]
      refine ⟨h.tracks, ?_, ?_, h.matched, ?_, h.window⟩
      · exact fun s x t ht =>
          Nat.le_trans (h.recordedPast s x t ht) (Nat.le_add_right _ _)
      · exact fun s x t ht =>
          Nat.le_trans (h.comparedPast s x t ht) (Nat.le_add_right _ _)
      · intro s x t ht
        exact h.room s x t (Nat.lt_of_le_of_lt (Nat.le_add_right _ _) ht)
  | pairRequest c req =>
      simp only [step] at hs
      split at hs
      · rename_i hr
        rw [← Option.some.inj hs]
        exact h.goto (by rw [hr.2]; rfl) (Nat.zero_le _)
      · cases hs
  | greeting c methods =>
      simp only [step] at hs
      split at hs
      · rename_i hr
        rw [← Option.some.inj hs]
        exact h.goto (by rw [hr.2]; rfl) (Nat.zero_le _)
      · cases hs
  | check c =>
      obtain ⟨ph, hph, rfl⟩ := Option.map_eq_some_iff.mp hs
      obtain ⟨hm, ho⟩ := afterCheck_from hph
      rcases ho with ho | ho
      · exact h.pass hm ho (afterCheck_open hph ho) (hok ⟨ph, hph, ho⟩)
      · exact h.goto hm (by rw [ho]; exact Nat.zero_le _)
  | readConfig c =>
      cases hph : w.phase c <;> simp only [step, hph, reduceCtorEq] at hs
      rw [← Option.some.inj hs]
      refine h.goto (by rw [hph]; rfl) ?_
      rw [hph]
      split
      · exact Nat.zero_le _
      · exact Nat.le_refl _
  | compareProof c =>
      cases hph : w.phase c <;> simp only [step, hph, reduceCtorEq] at hs
      rename_i req
      rw [← Option.some.inj hs]
      split
      · have hp : Bounded service ip
            { w with paired := req.fingerprint :: w.paired } :=
          ⟨h.tracks, h.recordedPast, h.comparedPast, h.matched, h.room,
            h.window⟩
        exact hp.goto (by rw [hph]; rfl) (Nat.zero_le _)
      · exact h.mismatch (by rw [hph]; rfl) (by rw [hph]; rfl)
  | compareCredentials c uname pass =>
      cases hph : w.phase c <;> simp only [step, hph, reduceCtorEq] at hs
      rw [← Option.some.inj hs]
      split
      · exact h.goto (by rw [hph]; rfl) (Nat.zero_le _)
      · exact h.mismatch (by rw [hph]; rfl) (by rw [hph]; rfl)
  | record c =>
      cases hph : w.phase c <;> simp only [step, hph, reduceCtorEq] at hs
      rw [← Option.some.inj hs]
      exact h.record hph
  | leave c =>
      have hended : w' = w.goto c .ended ∧ (w.phase c).isMismatched = 0 := by
        cases hph : w.phase c <;>
          simp only [step, hph, reduceCtorEq, Option.some.injEq] at hs <;>
          exact ⟨hs.symm, rfl⟩
      rw [hended.1]
      exact h.goto hended.2 (Nat.zero_le _)

/-! ## Whole runs -/

/-- **AT MOST FIVE GUESSES**: for any secrets, any connections from any
    addresses to either service and any interleaving in which every check that
    lets a connection on leaves room for it to fail, at most five wrong
    guesses of one address are compared in any ten minutes. -/
theorem at_most_five_guesses (k : Secrets) (service : C → Service)
    (ip : C → Ip) (paired : List String) (acts : List (Action C))
    (w : World C Ip)
    (hrun : exec (step k service ip) (World.start C Ip paired) acts = some w)
    (hok : Guarded (step k service ip) (Unraced k service ip)
      (World.start C Ip paired) acts) :
    AtMostFive w :=
  (invariant_exec bounded_step acts _ w (bounded_start service ip paired)
    hok hrun).window

end Steps

/-! ## Six connections -/

instance unracedDecidable (k : Secrets) (service : C → Service)
    (ip : C → Ip) (w : World C Ip) (a : Action C) :
    Decidable (Unraced k service ip w a) :=
  match a with
  | .check c => inferInstanceAs (Decidable (
      (∃ ph ∈ afterCheck k service ip w c, ph.isOpen = 1) → _ ∨ _))
  | .tick _ => isTrue trivial
  | .pairRequest _ _ => isTrue trivial
  | .greeting _ _ => isTrue trivial
  | .readConfig _ => isTrue trivial
  | .compareProof _ => isTrue trivial
  | .compareCredentials _ _ _ => isTrue trivial
  | .record _ => isTrue trivial
  | .leave _ => isTrue trivial

/-- A server with the PIN 123456 and no SOCKS5 credentials. -/
def secrets : Secrets where
  sha256 := fun _ => digest123456
  pin := "123456"
  socks5 := ⟨none, none, false⟩

/-- A wrong guess. -/
def wrongRequest : PairRequest :=
  ⟨Vector.replicate 16 0, "AA", Vector.replicate 32 0⟩

/-- One connection's steps up to its check, and from there on. -/
def arrive (c : Fin 6) : List (Action (Fin 6)) :=
  [.pairRequest c wrongRequest, .check c]

def guess (c : Fin 6) : List (Action (Fin 6)) :=
  [.readConfig c, .compareProof c, .record c]

/-- A run that meets the condition: one connection after the other guesses,
    a second apart, and the sixth is turned away. -/
theorem at_most_five_guesses_in_turn :
    ∃ w : World (Fin 6) Unit, AtMostFive w ∧
      inWindow 0 (w.compared .control ()) = 5 ∧ w.phase 5 = .ended := by
  have hrun : (exec (step secrets (fun _ => .control) (fun _ => ()))
      (World.start (Fin 6) Unit [])
      (([0, 1, 2, 3, 4].flatMap fun c => arrive c ++ guess c ++
        [.tick (10 ^ 9)]) ++ arrive 5)).map
        (fun w => (inWindow 0 (w.compared .control ()), w.phase 5))
      = some (5, .ended) := by
    decide
  obtain ⟨w, hw, hv⟩ := Option.map_eq_some_iff.mp hrun
  refine ⟨w, at_most_five_guesses secrets _ _ [] _ w hw (by decide), ?_, ?_⟩
  · exact congrArg Prod.fst hv
  · exact congrArg Prod.snd hv

/-- **SIX CONNECTIONS GUESS AT ONCE**: six connections from one address pass
    the check before any of them has failed, and all six wrong proofs are
    compared at the same time. -/
theorem six_guesses_at_once :
    ∃ w : World (Fin 6) Unit,
      exec (step secrets (fun _ => .control) (fun _ => ()))
        (World.start (Fin 6) Unit [])
        (([0, 1, 2, 3, 4, 5].flatMap arrive)
          ++ [0, 1, 2, 3, 4, 5].flatMap guess) = some w ∧
      inWindow 0 (w.compared .control ()) = 6 ∧ ¬ AtMostFive w := by
  refine ⟨_, rfl, by decide, ?_⟩
  intro h
  exact absurd (h .control () 0) (by decide)

end KvmGuessing
