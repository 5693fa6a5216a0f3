import Mathlib.Data.List.Infix

/-! # Heartbeats over a link that delays

    One party sends at least a beat per period over a link that keeps order;
    the other notes when it last heard something.  Beats are sent late by at
    most `late`, and every message is delivered within `delay`.  Other
    messages may stand between the beats.

    `Healthy` is kept by every step of either party (`sends`, `beat`, `stop`,
    `receive`) and by waiting in time, and bounds how long the receiver can
    have heard nothing (`silence_le`).  A sender that stops says farewell
    first, so its receiver does not wait for a beat either. -/

namespace Heartbeat

/-- One direction of a connection, in times: when the receiver last heard
    something, when each message in flight was sent (oldest first), and when
    the sender's next beat is due unless it has stopped. -/
structure Link where
  heard : Nat
  flight : List Nat
  next : Option Nat

/-- The last message sent. -/
def Link.latest (l : Link) : Nat := l.flight.getLastD l.heard

/-- Each message was sent at most `gap` after the one before it. -/
def Steady (gap : Nat) : Nat → List Nat → Prop
  | _, [] => True
  | a, b :: bs => b ≤ a + gap ∧ Steady gap b bs

/-- Nothing comes from the future. -/
structure Past (now : Nat) (l : Link) : Prop where
  heard : l.heard ≤ now
  flight : ∀ a ∈ l.flight, a ≤ now

/-- The messages are at most a period and its lateness apart, the next beat is
    due within a period, and a sender that has stopped left its farewell. -/
structure Fresh (period late : Nat) (l : Link) : Prop where
  steady : Steady (period + late) l.heard l.flight
  due : ∀ n, l.next = some n → n ≤ l.latest + period
  farewell : l.next = none → l.flight ≠ []

/-- The parties and the link keep their times: no beat is overdue by more than
    `late`, no message by more than `delay`. -/
structure Timely (late delay now : Nat) (l : Link) : Prop where
  beat : ∀ n, l.next = some n → now ≤ n + late
  delivery : ∀ a ∈ l.flight, now ≤ a + delay

theorem Steady.append {gap : Nat} {b : Nat} :
    ∀ {as : List Nat} {a : Nat}, Steady gap a as → b ≤ as.getLastD a + gap →
      Steady gap a (as ++ [b]) := by
  intro as
  induction as with
  | nil => exact fun _ hb => ⟨hb, trivial⟩
  | cons a' as ih =>
      intro a h hb
      rw [List.getLastD_cons] at hb
      exact ⟨h.1, ih h.2 hb⟩

/-- A message heard later only brings the next one nearer. -/
theorem Steady.later {gap a a' : Nat} {as : List Nat} (h : Steady gap a as)
    (ha : a ≤ a') : Steady gap a' as := by
  cases as with
  | nil => trivial
  | cons b bs => exact ⟨h.1.trans (Nat.add_le_add_right ha gap), h.2⟩

section Steps

variable {period late delay now n : Nat} {l : Link}

theorem Past.latest_le (h : Past now l) : l.latest ≤ now := by
  unfold Link.latest
  rcases List.mem_cons.mp (List.getLastD_mem_cons (l := l.flight)
    (a := l.heard)) with heq | hmem
  · rw [heq]
    exact h.heard
  · exact h.flight _ hmem

theorem Past.wait (h : Past now l) {now' : Nat} (hle : now ≤ now') :
    Past now' l where
  heard := h.heard.trans hle
  flight := fun a ha => (h.flight a ha).trans hle

/-- A message that follows the last one soon enough joins the flight. -/
theorem Fresh.push (h : Fresh period late l)
    (hsoon : now ≤ l.latest + (period + late)) {next : Option Nat}
    (hnext : ∀ n, next = some n → n ≤ now + period) :
    Fresh period late { l with flight := l.flight ++ [now], next := next } where
  steady := h.steady.append hsoon
  due := by
    intro n hn
    unfold Link.latest
    rw [List.getLastD_concat]
    exact hnext n hn
  farewell := fun _ =>
    List.append_ne_nil_of_right_ne_nil _ (List.cons_ne_nil _ _)

/-- A running sender never falls behind its next beat. -/
theorem Fresh.soon (h : Fresh period late l) (hn : l.next = some n)
    (hbeat : now ≤ n + late) : now ≤ l.latest + (period + late) := by
  have hdue := h.due n hn
  omega

/-- A message that is not a beat. -/
theorem Fresh.send (h : Fresh period late l) (hpast : Past now l)
    (hn : l.next = some n) (hbeat : now ≤ n + late) :
    Fresh period late { l with flight := l.flight ++ [now] } := by
  refine h.push (h.soon hn hbeat) fun n' hn' => ?_
  exact (h.due n' hn').trans (Nat.add_le_add_right hpast.latest_le period)

/-- Messages sent at one time keep the times of the link. -/
theorem Past.push (h : Past now l) {as : List Nat} (has : ∀ a ∈ as, a = now)
    (next : Option Nat) :
    Past now { l with flight := l.flight ++ as, next := next } where
  heard := h.heard
  flight := by
    intro a ha
    rcases List.mem_append.mp ha with hold | hnew
    · exact h.flight a hold
    · exact (has a hnew).le

theorem Timely.push (h : Timely late delay now l) {as : List Nat}
    (has : ∀ a ∈ as, a = now) {next : Option Nat}
    (hnext : ∀ n, next = some n → now ≤ n + late) :
    Timely late delay now { l with flight := l.flight ++ as, next := next } where
  beat := hnext
  delivery := by
    intro a ha
    rcases List.mem_append.mp ha with hold | hnew
    · exact h.delivery a hold
    · rw [has a hnew]
      exact Nat.le_add_right now delay

/-- Any number of messages that are not beats. -/
theorem Fresh.sends (h : Fresh period late l) (hpast : Past now l)
    (hn : l.next = some n) (hbeat : now ≤ n + late) {as : List Nat}
    (has : ∀ a ∈ as, a = now) :
    Fresh period late { l with flight := l.flight ++ as } := by
  induction as generalizing l with
  | nil =>
      rw [List.append_nil]
      exact h
  | cons a as ih =>
      have ha : a = now := has a List.mem_cons_self
      have hone := h.send hpast hn hbeat
      have hpast' : Past now { l with flight := l.flight ++ [now] } :=
        hpast.push (fun b hb => List.mem_singleton.mp hb) l.next
      have hrest := ih hone hpast' hn fun b hb => has b (List.mem_cons_of_mem a hb)
      rw [List.append_assoc, List.singleton_append] at hrest
      rw [ha]
      exact hrest

/-- A beat, with the next one due an interval after it was. -/
theorem Fresh.beat (h : Fresh period late l) (hn : l.next = some n)
    (hbeat : now ≤ n + late) (hreached : n ≤ now) {interval : Nat}
    (hinterval : interval ≤ period) :
    Fresh period late
      { l with flight := l.flight ++ [now], next := some (n + interval) } := by
  refine h.push (h.soon hn hbeat) fun n' hn' => ?_
  rw [← Option.some.inj hn']
  omega

/-- The farewell. -/
theorem Fresh.stop (h : Fresh period late l) (hn : l.next = some n)
    (hbeat : now ≤ n + late) :
    Fresh period late
      { l with flight := l.flight ++ [now], next := none } :=
  h.push (h.soon hn hbeat) fun _ hn' => absurd hn' (Option.some_ne_none _).symm

/-- The oldest message is heard; the last one a stopped sender left is not
    waited behind. -/
theorem Fresh.receive (h : Fresh period late l) {a : Nat} {rest : List Nat}
    (hflight : l.flight = a :: rest) (hpast : a ≤ now)
    (hmore : l.next = none → rest ≠ []) :
    Fresh period late { l with heard := now, flight := rest } := by
  have hsteady := h.steady
  rw [hflight] at hsteady
  refine ⟨hsteady.2.later hpast, ?_, hmore⟩
  intro n hn
  have hdue := h.due n hn
  unfold Link.latest at hdue ⊢
  rw [hflight, List.getLastD_cons] at hdue
  cases rest with
  | nil => exact hdue.trans (Nat.add_le_add_right hpast period)
  | cons b bs =>
      rw [List.getLastD_cons] at hdue ⊢
      exact hdue

/-- A link on which everything is in order. -/
structure Healthy (period late delay now : Nat) (l : Link) : Prop where
  past : Past now l
  fresh : Fresh period late l
  timely : Timely late delay now l

/-- Time passes, and nothing is overdue. -/
theorem Healthy.wait (h : Healthy period late delay now l) {now' : Nat}
    (hle : now ≤ now') (ht : Timely late delay now' l) :
    Healthy period late delay now' l :=
  ⟨h.past.wait hle, h.fresh, ht⟩

theorem Healthy.sends (h : Healthy period late delay now l)
    (hn : l.next = some n) {as : List Nat} (has : ∀ a ∈ as, a = now) :
    Healthy period late delay now { l with flight := l.flight ++ as } :=
  ⟨h.past.push has l.next, h.fresh.sends h.past hn (h.timely.beat n hn) has,
    h.timely.push has h.timely.beat⟩

theorem Healthy.beat (h : Healthy period late delay now l)
    (hn : l.next = some n) (hreached : n ≤ now) {interval : Nat}
    (hinterval : interval ≤ period) :
    Healthy period late delay now
      { l with flight := l.flight ++ [now], next := some (n + interval) } := by
  have hbeat := h.timely.beat n hn
  have hnow : ∀ a ∈ [now], a = now := fun a ha => List.mem_singleton.mp ha
  refine ⟨h.past.push hnow _, h.fresh.beat hn hbeat hreached hinterval,
    h.timely.push hnow fun n' hn' => ?_⟩
  rw [← Option.some.inj hn']
  omega

theorem Healthy.stop (h : Healthy period late delay now l)
    (hn : l.next = some n) :
    Healthy period late delay now
      { l with flight := l.flight ++ [now], next := none } := by
  have hnow : ∀ a ∈ [now], a = now := fun a ha => List.mem_singleton.mp ha
  exact ⟨h.past.push hnow _, h.fresh.stop hn (h.timely.beat n hn),
    h.timely.push hnow fun _ hn' => absurd hn' (Option.some_ne_none _).symm⟩

theorem Healthy.receive (h : Healthy period late delay now l) {a : Nat}
    {rest : List Nat} (hflight : l.flight = a :: rest)
    (hmore : l.next = none → rest ≠ []) :
    Healthy period late delay now { l with heard := now, flight := rest } := by
  have hin : ∀ b ∈ rest, b ∈ l.flight := by
    intro b hb
    rw [hflight]
    exact List.mem_cons_of_mem a hb
  have ha : a ≤ now := h.past.flight a (by rw [hflight]; exact List.mem_cons_self)
  exact ⟨⟨le_refl now, fun b hb => h.past.flight b (hin b hb)⟩,
    h.fresh.receive hflight ha hmore,
    ⟨h.timely.beat, fun b hb => h.timely.delivery b (hin b hb)⟩⟩

/-- **NO LONG SILENCE**: on a healthy link the receiver has heard something
    within a period, its lateness and the delay. -/
theorem Healthy.silence_le (h : Healthy period late delay now l) :
    now ≤ l.heard + (period + late + delay) := by
  cases hflight : l.flight with
  | nil =>
      cases hnext : l.next with
      | none => exact absurd hflight (h.fresh.farewell hnext)
      | some n =>
          have hdue := h.fresh.due n hnext
          have hbeat := h.timely.beat n hnext
          unfold Link.latest at hdue
          rw [hflight, List.getLastD_nil] at hdue
          omega
  | cons a rest =>
      have hsteady := h.fresh.steady
      rw [hflight] at hsteady
      have hfirst := hsteady.1
      have hdelivery := h.timely.delivery a
        (by rw [hflight]; exact List.mem_cons_self)
      omega

end Steps

end Heartbeat
