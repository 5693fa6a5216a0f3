import Mathlib.Algebra.Group.Nat.Defs
import Mathlib.Logic.Function.Basic
import Mathlib.Data.List.Basic
import Mathlib.Data.List.Induction

/-! # The failure limiter

    `is_rate_limited` and `record_pairing_failure`, which the control channel
    and the SOCKS5 proxy share, over a clock in nanoseconds.  The limiter
    keeps only part of its history; `Tracks` says which part, and
    `passes_recent_lt` what a passed check then tells about the whole
    history. -/

namespace KvmRateLimit

/-- How long failures count and how long a peer stays blocked (600 s). -/
def RATE_LIMIT_WINDOW : Nat := 600 * 10 ^ 9

theorem window_pos : 0 < RATE_LIMIT_WINDOW := by decide

/-- How many failures within the window block a peer. -/
def RATE_LIMIT_MAX_FAILURES : Nat := 5

structure RateLimitEntry where
  failures : List Nat
  blockedUntil : Option Nat
  deriving DecidableEq

/-- The map from peer addresses to their entries. -/
abbrev RateLimiter (Ip : Type) := Ip → Option RateLimitEntry

variable {Ip : Type}

def isRateLimited (map : RateLimiter Ip) (ip : Ip) (now : Nat) : Bool :=
  match map ip with
  | some entry =>
      match entry.blockedUntil with
      | some limit => decide (now < limit)
      | none => false
  | none => false

/-- The entry after one more failure; `duration_since` saturates at zero. -/
def RateLimitEntry.record (entry : RateLimitEntry) (now : Nat) :
    RateLimitEntry :=
  let failures :=
    entry.failures.filter (fun t => now - t < RATE_LIMIT_WINDOW) ++ [now]
  { failures := failures
    blockedUntil :=
      if RATE_LIMIT_MAX_FAILURES ≤ failures.length then
        some (now + RATE_LIMIT_WINDOW)
      else entry.blockedUntil }

def recordPairingFailure [DecidableEq Ip] (map : RateLimiter Ip) (ip : Ip)
    (now : Nat) : RateLimiter Ip :=
  Function.update map ip
    (some (((map ip).getD ⟨[], none⟩).record now))

/-- Recording a failure always changes the limiter: the new failure counts,
    so what is kept of the old ones and the new one is never the old list. -/
theorem recordPairingFailure_ne [DecidableEq Ip] (map : RateLimiter Ip)
    (ip : Ip) (now : Nat) : recordPairingFailure map ip now ≠ map := by
  intro h
  have hip : map ip = some (((map ip).getD ⟨[], none⟩).record now) := by
    rw [← Function.update_self ip (some (((map ip).getD ⟨[], none⟩).record now))
      map]
    exact (congrFun h ip).symm
  cases he : map ip with
  | none => rw [he] at hip; cases hip
  | some entry =>
      rw [he, Option.getD_some, Option.some.injEq] at hip
      have hfail := congrArg RateLimitEntry.failures hip
      have hkept : entry.failures
          = entry.failures.filter (fun t => now - t < RATE_LIMIT_WINDOW)
            ++ [now] := hfail
      -- the kept ones, filtered once more, would end in the new failure too
      have hagain := congrArg
        (List.filter (fun t => decide (now - t < RATE_LIMIT_WINDOW))) hkept
      have hself : decide (now - now < RATE_LIMIT_WINDOW) = true := by
        rw [Nat.sub_self]
        exact decide_eq_true window_pos
      rw [List.filter_append, List.filter_filter, List.filter_singleton, hself]
        at hagain
      simp at hagain

/-! ## What an entry knows -/

/-- The failures of a history that still count at a time. -/
def recent (now : Nat) (history : List Nat) : List Nat :=
  history.filter (fun t => now - t < RATE_LIMIT_WINDOW)

/-- The failures an address has in the limiter. -/
def failuresOf (map : RateLimiter Ip) (ip : Ip) : List Nat :=
  ((map ip).map RateLimitEntry.failures).getD []

/-- The entry of an address, against its whole history of failures in time
    order: it keeps those that counted at the last one, and if they were too
    many it is blocked from then on. -/
def Tracks (history : List Nat) : Option RateLimitEntry → Prop
  | none => history = []
  | some entry => ∃ last ∈ history, (∀ t ∈ history, t ≤ last) ∧
      entry.failures = recent last history ∧
      (RATE_LIMIT_MAX_FAILURES ≤ entry.failures.length →
        entry.blockedUntil = some (last + RATE_LIMIT_WINDOW))

/-- What counts later counted earlier. -/
theorem recent_recent {a b : Nat} (h : a ≤ b) (history : List Nat) :
    recent b (recent a history) = recent b history := by
  rw [recent, recent, List.filter_filter]
  refine List.filter_congr ?_
  intro t _
  rw [← Bool.decide_and]
  refine decide_eq_decide.mpr ⟨And.left, fun hb => ⟨hb, ?_⟩⟩
  omega

/-- The limiter's own list gives the failures that count now. -/
theorem recent_failures {history : List Nat} {entry : Option RateLimitEntry}
    (h : Tracks history entry) {now : Nat} (hnow : ∀ t ∈ history, t ≤ now) :
    recent now ((entry.map RateLimitEntry.failures).getD [])
      = recent now history := by
  cases entry with
  | none => rw [show history = [] from h]; rfl
  | some e =>
      obtain ⟨last, hlast, -, hf, -⟩ := h
      show recent now e.failures = recent now history
      rw [hf, recent_recent (hnow last hlast)]

/-- Recording a failure keeps those of the history that count now. -/
theorem record_failures {history : List Nat} {entry : Option RateLimitEntry}
    (h : Tracks history entry) {now : Nat} (hnow : ∀ t ∈ history, t ≤ now) :
    ((entry.getD ⟨[], none⟩).record now).failures
      = recent now (history ++ [now]) := by
  have hself : recent now [now] = [now] := by
    simp [recent, RATE_LIMIT_WINDOW]
  have hold : recent now (entry.getD ⟨[], none⟩).failures
      = recent now history := by
    rw [← recent_failures h hnow]
    cases entry <;> rfl
  show recent now (entry.getD ⟨[], none⟩).failures ++ [now] = _
  rw [hold, recent, recent, List.filter_append]
  exact congrArg _ hself.symm

/-- Recording a failure keeps track of the history. -/
theorem Tracks.record {history : List Nat} {entry : Option RateLimitEntry}
    (h : Tracks history entry) {now : Nat} (hnow : ∀ t ∈ history, t ≤ now) :
    Tracks (history ++ [now])
      (some ((entry.getD ⟨[], none⟩).record now)) := by
  refine ⟨now, by simp, ?_, record_failures h hnow, ?_⟩
  · intro t ht
    rcases List.mem_append.mp ht with ht | ht
    · exact hnow t ht
    · exact Nat.le_of_eq (List.mem_singleton.mp ht)
  · intro hmany
    exact if_pos hmany

/-- **A PASSED CHECK BOUNDS THE FAILURES**: an address that is not limited has
    fewer than five failures that still count. -/
theorem passes_recent_lt {map : RateLimiter Ip} {ip : Ip} {now : Nat}
    {history : List Nat} (h : Tracks history (map ip))
    (hnow : ∀ t ∈ history, t ≤ now) (hpass : isRateLimited map ip now = false) :
    (recent now history).length < RATE_LIMIT_MAX_FAILURES := by
  by_contra hmany
  rw [Nat.not_lt] at hmany
  cases he : map ip with
  | none =>
      rw [he] at h
      rw [show history = [] from h] at hmany
      cases hmany
  | some e =>
      rw [he] at h
      obtain ⟨last, hlast, hle, hf, hblock⟩ := h
      -- what counts now counted at the last failure, which blocked
      have hsub : (recent now history).length ≤ e.failures.length := by
        rw [hf, ← recent_recent (hnow last hlast)]
        exact List.length_filter_le _ _
      have hb := hblock (Nat.le_trans hmany hsub)
      -- and the block has not run out while any of them still counts
      obtain ⟨t, ht⟩ : ∃ t, t ∈ recent now history := by
        refine List.exists_mem_of_length_pos ?_
        exact Nat.lt_of_lt_of_le (by decide) hmany
      obtain ⟨htm, htc⟩ := List.mem_filter.mp ht
      have htl := hle t htm
      have hlim : isRateLimited map ip now = true := by
        simp only [isRateLimited, he, hb]
        rw [decide_eq_true_eq] at htc ⊢
        omega
      rw [hlim] at hpass
      cases hpass

/-! ## The limiter against the whole history -/

/-- The failures of one address. -/
def failureTimes [DecidableEq Ip] (history : List (Ip × Nat)) (ip : Ip) :
    List Nat :=
  (history.filter fun call => call.1 = ip).map Prod.snd

/-- The failures in the window that ends at `t`. -/
def windowAt (t : Nat) (times : List Nat) : List Nat :=
  times.filter fun s => s ≤ t ∧ t < s + RATE_LIMIT_WINDOW

/-- Some failure was one too many and its block has not run out. -/
def LimitedBy (times : List Nat) (now : Nat) : Prop :=
  ∃ t ∈ times, RATE_LIMIT_MAX_FAILURES ≤ (windowAt t times).length ∧
    now < t + RATE_LIMIT_WINDOW

/-- The calls of `record_pairing_failure`, in order. -/
def recordAll [DecidableEq Ip] (map : RateLimiter Ip)
    (history : List (Ip × Nat)) : RateLimiter Ip :=
  history.foldl (fun map call => recordPairingFailure map call.1 call.2) map

/-- What `record_pairing_failure` would do if it kept every failure and only
    counted those in the window. -/
def RateLimitEntry.recordUnpruned (entry : RateLimitEntry) (now : Nat) :
    RateLimitEntry :=
  let failures := entry.failures ++ [now]
  { failures := failures
    blockedUntil :=
      if RATE_LIMIT_MAX_FAILURES ≤ (recent now failures).length then
        some (now + RATE_LIMIT_WINDOW)
      else entry.blockedUntil }

def recordAllUnpruned [DecidableEq Ip] (map : RateLimiter Ip)
    (history : List (Ip × Nat)) : RateLimiter Ip :=
  history.foldl (fun map call => Function.update map call.1
    (some (((map call.1).getD ⟨[], none⟩).recordUnpruned call.2))) map

/-- At the last failure the window is what still counts. -/
theorem windowAt_last {times : List Nat} {t : Nat} (h : ∀ s ∈ times, s ≤ t) :
    windowAt t times = recent t times := by
  refine List.filter_congr ?_
  intro s hs
  have hpos := window_pos
  have hle := h s hs
  refine decide_eq_decide.mpr ?_
  omega

theorem windowAt_append_later {times : List Nat} {t m : Nat} (h : t < m) :
    windowAt t (times ++ [m]) = windowAt t times := by
  have hout : ¬ (m ≤ t ∧ t < m + RATE_LIMIT_WINDOW) := by omega
  rw [windowAt, List.filter_append, List.filter_singleton,
    decide_eq_false hout]
  exact List.append_nil _

/-- One more failure: it blocks if it is one too many, and otherwise changes
    nothing. -/
theorem limitedBy_append {times : List Nat} {m : Nat}
    (h : ∀ s ∈ times, s ≤ m) (now : Nat) :
    LimitedBy (times ++ [m]) now ↔
      if RATE_LIMIT_MAX_FAILURES ≤ (recent m (times ++ [m])).length then
        now < m + RATE_LIMIT_WINDOW
      else LimitedBy times now := by
  have hall : ∀ s ∈ times ++ [m], s ≤ m := by
    intro s hs
    rcases List.mem_append.mp hs with hs | hs
    · exact h s hs
    · exact Nat.le_of_eq (List.mem_singleton.mp hs)
  split
  · rename_i hmany
    constructor
    · rintro ⟨t, ht, -, hnow⟩
      have hle := hall t ht
      omega
    · intro hnow
      refine ⟨m, by simp, ?_, hnow⟩
      rw [windowAt_last hall]
      exact hmany
  · rename_i hfew
    constructor
    · rintro ⟨t, ht, hmany, hnow⟩
      have hlt : t < m := by
        refine Nat.lt_of_le_of_ne (hall t ht) ?_
        rintro rfl
        rw [windowAt_last hall] at hmany
        exact hfew hmany
      rw [windowAt_append_later hlt] at hmany
      refine ⟨t, ?_, hmany, hnow⟩
      rcases List.mem_append.mp ht with ht | ht
      · exact ht
      · exact absurd (List.mem_singleton.mp ht) (Nat.ne_of_lt hlt)
    · rintro ⟨t, ht, hmany, hnow⟩
      have hlt : t < m := by
        refine Nat.lt_of_le_of_ne (h t ht) ?_
        rintro rfl
        rw [windowAt_last h] at hmany
        refine hfew (Nat.le_trans hmany ?_)
        rw [recent, recent, List.filter_append, List.length_append]
        exact Nat.le_add_right _ _
      refine ⟨t, List.mem_append_left _ ht, ?_, hnow⟩
      rw [windowAt_append_later hlt]
      exact hmany

/-- The entry answers as the whole history of its address demands. -/
structure Answers (times : List Nat) (entry : Option RateLimitEntry) :
    Prop where
  tracks : Tracks times entry
  blocks : ∀ now,
    (∃ limit, entry.bind RateLimitEntry.blockedUntil = some limit ∧
      now < limit) ↔ LimitedBy times now

theorem answers_nil : Answers [] none where
  tracks := rfl
  blocks := by
    intro now
    refine iff_of_false ?_ ?_
    · rintro ⟨limit, hlimit, -⟩
      cases hlimit
    · rintro ⟨t, ht, -⟩
      cases ht

/-- Recording a failure keeps the answers right. -/
theorem Answers.record {times : List Nat} {entry : Option RateLimitEntry}
    (h : Answers times entry) {m : Nat} (hm : ∀ t ∈ times, t ≤ m) :
    Answers (times ++ [m]) (some ((entry.getD ⟨[], none⟩).record m)) where
  tracks := h.tracks.record hm
  blocks := by
    intro now
    have hfail := record_failures h.tracks hm
    have hold : (entry.getD ⟨[], none⟩).blockedUntil
        = entry.bind RateLimitEntry.blockedUntil := by
      cases entry <;> rfl
    have hblocked : ((entry.getD ⟨[], none⟩).record m).blockedUntil
        = if RATE_LIMIT_MAX_FAILURES ≤ (recent m (times ++ [m])).length then
            some (m + RATE_LIMIT_WINDOW)
          else entry.bind RateLimitEntry.blockedUntil := by
      rw [← hfail, ← hold]
      rfl
    rw [limitedBy_append hm, Option.bind_some, hblocked]
    split
    · constructor
      · rintro ⟨limit, hlimit, hnow⟩
        rw [← Option.some.inj hlimit] at hnow
        exact hnow
      · exact fun hnow => ⟨_, rfl, hnow⟩
    · exact h.blocks now

theorem isRateLimited_iff (map : RateLimiter Ip) (ip : Ip) (now : Nat) :
    isRateLimited map ip now = true ↔
      ∃ limit, (map ip).bind RateLimitEntry.blockedUntil = some limit ∧
        now < limit := by
  unfold isRateLimited
  cases map ip with
  | none => simp
  | some entry => cases h : entry.blockedUntil <;> simp [h]

section Histories

variable [DecidableEq Ip]

theorem failureTimes_append (history : List (Ip × Nat)) (call : Ip × Nat)
    (ip : Ip) :
    failureTimes (history ++ [call]) ip
      = failureTimes history ip ++ if call.1 = ip then [call.2] else [] := by
  rw [failureTimes, List.filter_append, List.map_append, List.filter_singleton]
  by_cases h : call.1 = ip <;> simp [failureTimes, h]

/-- In time order, the last call comes after every failure before it. -/
theorem sorted_concat {history : List (Ip × Nat)} {call : Ip × Nat}
    (h : ((history ++ [call]).map Prod.snd).Pairwise (· ≤ ·)) :
    (history.map Prod.snd).Pairwise (· ≤ ·) ∧
      ∀ ip, ∀ t ∈ failureTimes history ip, t ≤ call.2 := by
  rw [List.map_append, List.pairwise_append] at h
  obtain ⟨hbefore, -, hlast⟩ := h
  refine ⟨hbefore, ?_⟩
  intro ip t ht
  obtain ⟨earlier, hmem, rfl⟩ := List.mem_map.mp ht
  exact hlast _ (List.mem_map_of_mem (List.mem_filter.mp hmem).1) _
    (List.mem_singleton_self _)

/-- The limiter after any history in time order. -/
theorem answers_recordAll (history : List (Ip × Nat))
    (hsorted : (history.map Prod.snd).Pairwise (· ≤ ·)) (ip : Ip) :
    Answers (failureTimes history ip) (recordAll (fun _ => none) history ip) := by
  -- on the history, from its end: only the last call's own address changes
  induction history using List.reverseRecOn with
  | nil => exact answers_nil
  | append_singleton history call ih =>
      obtain ⟨hbefore, hlast⟩ := sorted_concat hsorted
      have hrec := ih hbefore
      rw [failureTimes_append, recordAll, List.foldl_append]
      show Answers _ (recordPairingFailure (recordAll (fun _ => none) history)
        call.1 call.2 ip)
      by_cases hip : call.1 = ip
      · rw [if_pos hip, recordPairingFailure, hip, Function.update_self]
        exact hrec.record (hlast ip)
      · rw [if_neg hip, List.append_nil, recordPairingFailure,
          Function.update_of_ne (Ne.symm hip)]
        exact hrec

/-- An entry that keeps every failure, beside the limiter's own. -/
structure Unpruned (times : List Nat) (whole entry : Option RateLimitEntry) :
    Prop where
  failures : (whole.getD ⟨[], none⟩).failures = times
  blocked : (whole.getD ⟨[], none⟩).blockedUntil
    = (entry.getD ⟨[], none⟩).blockedUntil

/-- Both count the same failures when one more is recorded. -/
theorem Unpruned.record {times : List Nat} {whole entry : Option RateLimitEntry}
    (h : Unpruned times whole entry) (htracks : Tracks times entry) {m : Nat}
    (hm : ∀ t ∈ times, t ≤ m) :
    Unpruned (times ++ [m]) (some ((whole.getD ⟨[], none⟩).recordUnpruned m))
      (some ((entry.getD ⟨[], none⟩).record m)) where
  failures := by
    show (whole.getD ⟨[], none⟩).failures ++ [m] = times ++ [m]
    rw [h.failures]
  blocked := by
    have hfail := record_failures htracks hm
    show (if RATE_LIMIT_MAX_FAILURES
          ≤ (recent m ((whole.getD ⟨[], none⟩).failures ++ [m])).length then
        some (m + RATE_LIMIT_WINDOW)
      else (whole.getD ⟨[], none⟩).blockedUntil)
      = if RATE_LIMIT_MAX_FAILURES
          ≤ ((entry.getD ⟨[], none⟩).record m).failures.length then
        some (m + RATE_LIMIT_WINDOW)
      else (entry.getD ⟨[], none⟩).blockedUntil
    rw [h.failures, h.blocked, hfail]

/-- The limiter that forgets beside the one that does not. -/
theorem unpruned_recordAll (history : List (Ip × Nat))
    (hsorted : (history.map Prod.snd).Pairwise (· ≤ ·)) (ip : Ip) :
    Unpruned (failureTimes history ip)
      (recordAllUnpruned (fun _ => none) history ip)
      (recordAll (fun _ => none) history ip) := by
  induction history using List.reverseRecOn with
  | nil => exact ⟨rfl, rfl⟩
  | append_singleton history call ih =>
      obtain ⟨hbefore, hlast⟩ := sorted_concat hsorted
      have hrec := ih hbefore
      rw [failureTimes_append, recordAll, recordAllUnpruned, List.foldl_append,
        List.foldl_append]
      show Unpruned _
        (Function.update (recordAllUnpruned (fun _ => none) history) call.1
          (some (((recordAllUnpruned (fun _ => none) history call.1).getD
            ⟨[], none⟩).recordUnpruned call.2)) ip)
        (recordPairingFailure (recordAll (fun _ => none) history)
          call.1 call.2 ip)
      by_cases hip : call.1 = ip
      · rw [if_pos hip, recordPairingFailure, hip, Function.update_self,
          Function.update_self]
        exact hrec.record (answers_recordAll history hbefore ip).tracks
          (hlast ip)
      · rw [if_neg hip, List.append_nil, recordPairingFailure,
          Function.update_of_ne (Ne.symm hip),
          Function.update_of_ne (Ne.symm hip)]
        exact hrec

/-- **THE LIMITER IS EXACT**: whatever failures were recorded, for whatever
    addresses, an address is limited exactly while the block of one of its own
    failures lasts that had at least five of them in the window ending with it.
    It is the answer its own failures alone give, and the answer of a limiter
    that never forgets a failure. -/
theorem rate_limited_iff (history : List (Ip × Nat))
    (hsorted : (history.map Prod.snd).Pairwise (· ≤ ·)) (ip : Ip) (now : Nat) :
    (isRateLimited (recordAll (fun _ => none) history) ip now = true ↔
      LimitedBy (failureTimes history ip) now) ∧
    isRateLimited (recordAll (fun _ => none)
        (history.filter fun call => call.1 = ip)) ip now
      = isRateLimited (recordAll (fun _ => none) history) ip now ∧
    isRateLimited (recordAllUnpruned (fun _ => none) history) ip now
      = isRateLimited (recordAll (fun _ => none) history) ip now := by
  have hexact : ∀ calls : List (Ip × Nat),
      (calls.map Prod.snd).Pairwise (· ≤ ·) →
      (isRateLimited (recordAll (fun _ => none) calls) ip now = true ↔
        LimitedBy (failureTimes calls ip) now) := by
    intro calls hcalls
    rw [isRateLimited_iff]
    exact (answers_recordAll calls hcalls ip).blocks now
  have hown : failureTimes (history.filter fun call => call.1 = ip) ip
      = failureTimes history ip := by
    rw [failureTimes, failureTimes, List.filter_filter]
    simp
  refine ⟨hexact history hsorted, ?_, ?_⟩
  · rw [Bool.eq_iff_iff, hexact history hsorted, ← hown]
    refine hexact _ ?_
    exact hsorted.sublist ((List.filter_sublist).map _)
  · have hblocked : ∀ entry : Option RateLimitEntry,
        entry.bind RateLimitEntry.blockedUntil
          = (entry.getD ⟨[], none⟩).blockedUntil := by
      intro entry
      cases entry <;> rfl
    rw [Bool.eq_iff_iff, isRateLimited_iff, isRateLimited_iff, hblocked,
      hblocked, (unpruned_recordAll history hsorted ip).blocked]

end Histories

/-- The fifth failure within ten minutes limits the address for as long. -/
theorem rate_limited_iff_fifth :
    LimitedBy (failureTimes [(1, 0), (2, 5), (1, 10), (1, 20), (1, 30), (1, 40)]
      1) 50 ∧
    isRateLimited (recordAll (fun _ => none)
      [(1, 0), (2, 5), (1, 10), (1, 20), (1, 30), (1, 40)]) 1 50 = true ∧
    isRateLimited (recordAllUnpruned (fun _ => none)
      [(1, 0), (2, 5), (1, 10), (1, 20), (1, 30), (1, 40)]) 2 50 = false := by
  have hone := rate_limited_iff
    [(1, 0), (2, 5), (1, 10), (1, 20), (1, 30), (1, 40)] (by decide) 1 50
  have htwo := rate_limited_iff
    [(1, 0), (2, 5), (1, 10), (1, 20), (1, 30), (1, 40)] (by decide) 2 50
  have hlimited : LimitedBy (failureTimes
      [(1, 0), (2, 5), (1, 10), (1, 20), (1, 30), (1, 40)] 1) 50 :=
    ⟨40, by decide, by decide, by decide⟩
  refine ⟨hlimited, hone.1.mpr hlimited, ?_⟩
  rw [htwo.2.2]
  decide

end KvmRateLimit
