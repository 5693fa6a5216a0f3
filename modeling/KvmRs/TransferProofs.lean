import Mathlib.Data.Fintype.Basic
import KvmRs.DirectoryProofs
import KvmRs.FileNameProofs
import KvmRs.TransitionProofs

/-! # Concurrent file transfers

    Each connection runs `handle_transfer` once, and its steps on the
    downloads directory interleave with those of the others: existence check,
    size, open, chunk writes, re-read and hash, probing for a destination,
    rename, remove.  `Phase` says what a transfer does next; the constructor
    carries what it remembers.

    A transfer *owns* its `.part` name while it may still touch it, and its
    destination from choosing it until it is confirmed.  Nothing in the code
    enforces ownership.  The invariant `Sound` shows that it is all that is
    missing: if no two transfers in progress ever own one name, what is
    confirmed is on disk as offered. -/

namespace KvmTransfer

open Directory KvmFileName Transition

/-- The fields of a `FileOffer` that the receiver uses. -/
structure Offer where
  name : List Char
  size : Nat
  sha256 : List UInt8
  deriving DecidableEq

def Offer.safeName (o : Offer) : Name := sanitizeFileName o.name

/-- The name under which the offered file is received. -/
def Offer.part (o : Offer) : Name := partName o.safeName

/-- An open file to write to: at its end, or at its own position. -/
inductive WriteMode where
  | append
  | at (pos : Nat)
  deriving DecidableEq

/-- What a transfer does next. -/
inductive Phase where
  /-- No offer yet. -/
  | waiting
  /-- Test whether the `.part` file exists. -/
  | checking
  /-- Ask for its size. -/
  | sizing
  /-- Open it for append; it was `offset` bytes long. -/
  | resuming (offset : Nat)
  /-- Create or truncate it. -/
  | creating
  /-- Receive and write chunks. -/
  | receiving (inode : Nat) (mode : WriteMode) (received : Nat)
  /-- Remove the `.part` file and reject. -/
  | removing
  /-- Open it again for the hash. -/
  | verifying
  /-- Read it; `acc` has been hashed. -/
  | hashing (inode : Nat) (acc : List UInt8)
  /-- Probe the `i`-th candidate for the destination. -/
  | choosing (i : Nat)
  /-- Rename to the destination. -/
  | promoting (dest : Name)
  /-- Send `FileComplete`; `replaced` records whether the rename replaced
      an existing file. -/
  | completing (dest : Name) (replaced : Bool)
  /-- Returned, in whatever way. -/
  | ended
  deriving DecidableEq

structure Transfer where
  offer : Offer
  phase : Phase
  deriving DecidableEq

/-- What a `FileComplete` confirmed: the offer, the destination, the bytes
    behind it at that moment, and whether the rename replaced a file. -/
structure Confirmation where
  offer : Offer
  dest : Name
  content : Option (List UInt8)
  replaced : Bool
  deriving DecidableEq

variable {C : Type}

structure World (C : Type) where
  dir : Dir Name
  transfers : C → Transfer
  confirmed : List Confirmation

inductive Action (C : Type) where
  /-- A paired peer's offer arrives. -/
  | offer (c : C) (o : Offer)
  /-- The next step on the directory, outside the two loops. -/
  | advance (c : C)
  /-- A chunk arrives and is written. -/
  | chunk (c : C) (bs : List UInt8)
  /-- The receiving loop reads no more bytes. -/
  | endOfStream (c : C)
  /-- The hashing loop reads at most `n` bytes. -/
  | read (c : C) (n : Nat)
  /-- An I/O error ends the transfer; the write its `File` last took is
      through by then. -/
  | abort (c : C)
  deriving DecidableEq

/-- The size of the buffers of both loops. -/
def CHUNK_SIZE : Nat := 65536

/-- No transfer yet, over any directory. -/
def World.start (C : Type) (dir : Dir Name) : World C where
  dir := dir
  transfers := fun _ => ⟨⟨[], 0, []⟩, .waiting⟩
  confirmed := []

variable [DecidableEq C]

/-- Move one transfer to another phase. -/
def World.goto (w : World C) (c : C) (ph : Phase) : World C :=
  { w with
    transfers := Function.update w.transfers c
      { w.transfers c with phase := ph } }

/-- Write to the open `.part` file; returns the mode for the next write. -/
def writeChunk (d : Dir Name) (inode : Nat) (mode : WriteMode)
    (bs : List UInt8) : Dir Name × WriteMode :=
  match mode with
  | .append => (d.append inode bs, .append)
  | .at pos => (d.writeAt inode pos bs, .at (pos + bs.length))

/-- The step of a transfer outside the receiving and hashing loops. -/
def advance (w : World C) (c : C) : Option (World C) :=
  let o := (w.transfers c).offer
  match (w.transfers c).phase with
  | .checking =>
      some (w.goto c (if w.dir.exists o.part then .sizing else .creating))
  | .sizing =>
      match w.dir.read o.part with
      | none => some (w.goto c .ended)
      | some bs =>
          some (w.goto c
            (if bs.length < o.size then .resuming bs.length else .creating))
  | .resuming offset =>
      match w.dir.entry o.part with
      | none => some (w.goto c .ended)
      | some (i, _) => some (w.goto c (.receiving i .append offset))
  | .creating =>
      let created := w.dir.create o.part
      some ({ w with dir := created.1 }.goto c
        (.receiving created.2 (.at 0) 0))
  | .removing =>
      some ({ w with dir := w.dir.remove o.part }.goto c .ended)
  | .verifying =>
      match w.dir.entry o.part with
      | none => some (w.goto c .ended)
      | some (i, _) => some (w.goto c (.hashing i []))
  | .choosing i =>
      let candidate := candidateName o.safeName i
      some (w.goto c
        (if w.dir.exists candidate then .choosing (i + 1)
          else .promoting candidate))
  | .promoting dest =>
      match w.dir.rename o.part dest with
      | none => some (w.goto c .ended)
      | some dir =>
          some ({ w with dir := dir }.goto c
            (.completing dest (w.dir.exists dest)))
  | .completing dest replaced =>
      some ({ w with
        confirmed := w.confirmed ++
          [Confirmation.mk o dest (w.dir.read dest) replaced] }.goto c .ended)
  | _ => none

/-- One step of one transfer; `maxFileSize` is zero for no limit. -/
def step (sha256 : List UInt8 → List UInt8) (maxFileSize : Nat)
    (w : World C) : Action C → Option (World C)
  | .offer c o =>
      match (w.transfers c).phase with
      | .waiting =>
          let ph :=
            if maxFileSize ≠ 0 ∧ maxFileSize < o.size then Phase.ended
            else Phase.checking
          some { w with
            transfers := Function.update w.transfers c ⟨o, ph⟩ }
      | _ => none
  | .advance c => advance w c
  | .chunk c bs =>
      match (w.transfers c).phase with
      | .receiving i mode received =>
          let size := (w.transfers c).offer.size
          if bs ≠ [] ∧ bs.length ≤ CHUNK_SIZE
              ∧ received + bs.length ≤ size then
            let out := writeChunk w.dir i mode bs
            some ({ w with dir := out.1 }.goto c
              (if size ≤ received + bs.length then .verifying
                else .receiving i out.2 (received + bs.length)))
          else none
      | _ => none
  | .endOfStream c =>
      match (w.transfers c).phase with
      | .receiving _ _ received =>
          some (w.goto c
            (if received = (w.transfers c).offer.size then .verifying
              else .removing))
      | _ => none
  | .read c n =>
      match (w.transfers c).phase with
      | .hashing i acc =>
          if 0 < n ∧ n ≤ CHUNK_SIZE then
            let bs := ((w.dir.content i).drop acc.length).take n
            some (w.goto c
              (if bs ≠ [] then .hashing i (acc ++ bs)
                else if sha256 acc = (w.transfers c).offer.sha256 then
                  .choosing 0
                else .removing))
          else none
      | _ => none
  | .abort c =>
      match (w.transfers c).phase with
      | .waiting => none
      | .ended => none
      | _ => some (w.goto c .ended)

/-- The transfer an action belongs to. -/
def Action.actor : Action C → C
  | .offer c _ => c
  | .advance c => c
  | .chunk c _ => c
  | .endOfStream c => c
  | .read c _ => c
  | .abort c => c

/-! ## Ownership -/

/-- The transfer may still touch its `.part` name. -/
def Phase.holdsPart : Phase → Bool
  | .waiting => false
  | .completing _ _ => false
  | .ended => false
  | _ => true

/-- The destination chosen and not yet confirmed. -/
def Phase.dest : Phase → Option Name
  | .promoting n => some n
  | .completing n _ => some n
  | _ => none

def Owns (t : Transfer) (n : Name) : Prop :=
  (t.phase.holdsPart = true ∧ t.offer.part = n) ∨ t.phase.dest = some n

instance ownsDecidable (t : Transfer) (n : Name) : Decidable (Owns t n) :=
  inferInstanceAs (Decidable (_ ∨ _))

/-- What the transfer relies on in its current phase. -/
def TransferOk (sha256 : List UInt8 → List UInt8) (d : Dir Name)
    (t : Transfer) : Prop :=
  match t.phase with
  | .resuming offset => ∃ i bs, d.entry t.offer.part = some (i, bs) ∧
      bs.length = offset ∧ offset < t.offer.size
  | .receiving i mode received => ∃ bs,
      d.entry t.offer.part = some (i, bs) ∧ bs.length = received ∧
        received ≤ t.offer.size ∧ (mode = .append ∨ mode = .at received)
  | .verifying => ∃ i bs, d.entry t.offer.part = some (i, bs) ∧
      bs.length = t.offer.size
  | .hashing i acc => ∃ bs, d.entry t.offer.part = some (i, bs) ∧
      bs.length = t.offer.size ∧ acc <+: bs
  | .choosing _ => ∃ i bs, d.entry t.offer.part = some (i, bs) ∧
      bs.length = t.offer.size ∧ sha256 bs = t.offer.sha256
  | .promoting dest =>
      (∃ i bs, d.entry t.offer.part = some (i, bs) ∧
        bs.length = t.offer.size ∧ sha256 bs = t.offer.sha256) ∧
      d.entry dest = none
  | .completing dest replaced => ∃ i bs, d.entry dest = some (i, bs) ∧
      bs.length = t.offer.size ∧ sha256 bs = t.offer.sha256 ∧
        replaced = false
  | _ => True

/-- What was confirmed is what was offered. -/
def ConfirmedOk (sha256 : List UInt8 → List UInt8) (r : Confirmation) :
    Prop :=
  ∃ bs, r.content = some bs ∧ bs.length = r.offer.size ∧
    sha256 bs = r.offer.sha256 ∧ r.replaced = false

/-- A transfer relies only on the names it owns. -/
theorem TransferOk.congr {sha256 : List UInt8 → List UInt8}
    {d d' : Dir Name} {t : Transfer} (h : TransferOk sha256 d t)
    (hsame : ∀ n, Owns t n → d'.entry n = d.entry n) :
    TransferOk sha256 d' t := by
  obtain ⟨o, ph⟩ := t
  have hpart : ph.holdsPart = true → d'.entry o.part = d.entry o.part :=
    fun hh => hsame _ (Or.inl ⟨hh, rfl⟩)
  have hdest : ∀ n, ph.dest = some n → d'.entry n = d.entry n :=
    fun n hn => hsame n (Or.inr hn)
  cases ph with
  | waiting => trivial
  | checking => trivial
  | sizing => trivial
  | creating => trivial
  | removing => trivial
  | ended => trivial
  | resuming offset =>
      simp only [TransferOk, hpart rfl] at h ⊢
      exact h
  | receiving i mode received =>
      simp only [TransferOk, hpart rfl] at h ⊢
      exact h
  | verifying =>
      simp only [TransferOk, hpart rfl] at h ⊢
      exact h
  | hashing i acc =>
      simp only [TransferOk, hpart rfl] at h ⊢
      exact h
  | choosing i =>
      simp only [TransferOk, hpart rfl] at h ⊢
      exact h
  | promoting dest =>
      simp only [TransferOk, hpart rfl, hdest dest rfl] at h ⊢
      exact h
  | completing dest replaced =>
      simp only [TransferOk, hdest dest rfl] at h ⊢
      exact h

/-! ## The effect of one step -/

section Goto

variable (w : World C) (c : C) (ph : Phase)

@[simp] theorem goto_self :
    (w.goto c ph).transfers c = ⟨(w.transfers c).offer, ph⟩ :=
  Function.update_self c _ _

theorem goto_of_ne {c' : C} (h : c' ≠ c) :
    (w.goto c ph).transfers c' = w.transfers c' :=
  Function.update_of_ne h _ _

end Goto

/-- What a step of `c` does, whatever the other transfers do: they are
    untouched, so is every name that `c` does not own, what `c` relies on
    holds afterwards, and a confirmation speaks of what is there. -/
structure Effect (sha256 : List UInt8 → List UInt8) (w w' : World C)
    (c : C) : Prop where
  others : ∀ c', c' ≠ c → w'.transfers c' = w.transfers c'
  frame : ∀ n, ¬ Owns (w.transfers c) n → w'.dir.entry n = w.dir.entry n
  ok : TransferOk sha256 w'.dir (w'.transfers c)
  confirmed : w'.confirmed = w.confirmed ∨
    ∃ r, w'.confirmed = w.confirmed ++ [r] ∧ ConfirmedOk sha256 r ∧
      r.content = w'.dir.read r.dest ∧ (w'.transfers c).phase = .ended

/-- A step that only changes the phase. -/
theorem effect_goto {sha256 : List UInt8 → List UInt8} {w : World C} {c : C}
    {ph : Phase}
    (hok : TransferOk sha256 w.dir ⟨(w.transfers c).offer, ph⟩) :
    Effect sha256 w (w.goto c ph) c where
  others := fun _ h => goto_of_ne w c ph h
  frame := fun _ _ => rfl
  ok := by
    rw [goto_self]
    exact hok
  confirmed := Or.inl rfl

/-- A step that changes the directory, at names it owns only. -/
theorem effect_dir {sha256 : List UInt8 → List UInt8} {w : World C} {c : C}
    {ph : Phase} {d : Dir Name}
    (hframe : ∀ n, ¬ Owns (w.transfers c) n → d.entry n = w.dir.entry n)
    (hok : TransferOk sha256 d ⟨(w.transfers c).offer, ph⟩) :
    Effect sha256 w ({ w with dir := d }.goto c ph) c where
  others := fun _ h => goto_of_ne { w with dir := d } c ph h
  frame := hframe
  ok := by
    rw [goto_self]
    exact hok
  confirmed := Or.inl rfl

section Effects

variable {sha256 : List UInt8 → List UInt8} {w : World C} {c : C}

omit [DecidableEq C] in
/-- In a phase that holds the `.part` name, only that name is not framed. -/
theorem owns_part (h : (w.transfers c).phase.holdsPart = true) {n : Name}
    (hn : ¬ Owns (w.transfers c) n) : n ≠ (w.transfers c).offer.part := by
  rintro rfl
  exact hn (Or.inl ⟨h, rfl⟩)

/-- The steps outside the two loops. -/
theorem effect_advance {w' : World C}
    (hok : TransferOk sha256 w.dir (w.transfers c))
    (hs : advance w c = some w') : Effect sha256 w w' c := by
  simp only [TransferOk] at hok
  cases hph : (w.transfers c).phase with
  | waiting => simp only [advance, hph] at hs; cases hs
  | receiving i mode received =>
      simp only [advance, hph] at hs; cases hs
  | hashing i acc => simp only [advance, hph] at hs; cases hs
  | ended => simp only [advance, hph] at hs; cases hs
  | checking =>
      simp only [advance, hph] at hs
      rw [← Option.some.inj hs]
      refine effect_goto ?_
      split <;> trivial
  | sizing =>
      simp only [advance, hph, Dir.read] at hs
      cases he : w.dir.entry (w.transfers c).offer.part with
      | none =>
          rw [he] at hs
          rw [← Option.some.inj hs]
          exact effect_goto trivial
      | some f =>
          obtain ⟨i, bs⟩ := f
          rw [he] at hs
          rw [← Option.some.inj hs]
          refine effect_goto ?_
          by_cases hlt : bs.length < (w.transfers c).offer.size
          · simp only [hlt, if_true]
            exact ⟨i, bs, he, rfl, hlt⟩
          · simp only [hlt, if_false]
            trivial
  | resuming offset =>
      simp only [hph] at hok
      obtain ⟨i, bs, he, hlen, hlt⟩ := hok
      simp only [advance, hph, he] at hs
      rw [← Option.some.inj hs]
      exact effect_goto ⟨bs, he, hlen, Nat.le_of_lt hlt, Or.inl rfl⟩
  | creating =>
      simp only [advance, hph] at hs
      rw [← Option.some.inj hs]
      refine effect_dir ?_ ?_
      · intro n hn
        exact entry_create_of_ne (owns_part (by rw [hph]; rfl) hn)
      · exact ⟨[], entry_create_self _ _, rfl, Nat.zero_le _, Or.inr rfl⟩
  | removing =>
      simp only [advance, hph] at hs
      rw [← Option.some.inj hs]
      refine effect_dir ?_ trivial
      intro n hn
      exact entry_remove_of_ne (owns_part (by rw [hph]; rfl) hn)
  | verifying =>
      simp only [hph] at hok
      obtain ⟨i, bs, he, hlen⟩ := hok
      simp only [advance, hph, he] at hs
      rw [← Option.some.inj hs]
      exact effect_goto ⟨bs, he, hlen, List.nil_prefix⟩
  | choosing k =>
      simp only [hph] at hok
      simp only [advance, hph] at hs
      rw [← Option.some.inj hs]
      refine effect_goto ?_
      cases hex : w.dir.exists
          (candidateName (w.transfers c).offer.safeName k) with
      | true => exact hok
      | false => exact ⟨hok, exists_eq_false.mp hex⟩
  | promoting dest =>
      simp only [hph] at hok
      obtain ⟨⟨i, bs, he, hlen, hsha⟩, hfree⟩ := hok
      simp only [advance, hph] at hs
      cases hren : w.dir.rename (w.transfers c).offer.part dest with
      | none =>
          rw [hren] at hs
          rw [← Option.some.inj hs]
          exact effect_goto trivial
      | some d =>
          rw [hren] at hs
          rw [← Option.some.inj hs]
          obtain ⟨⟨f, hf, hdest⟩, hframe⟩ := rename_some hren
          have hfeq : f = (i, bs) := Option.some.inj (hf.symm.trans he)
          refine effect_dir ?_ ?_
          · intro n hn
            refine hframe n (owns_part (by rw [hph]; rfl) hn) ?_
            rintro rfl
            exact hn (Or.inr (by rw [hph]; rfl))
          · refine ⟨i, bs, ?_, hlen, hsha, exists_eq_false.mpr hfree⟩
            rw [hdest, hfeq]
  | completing dest replaced =>
      simp only [hph] at hok
      obtain ⟨i, bs, he, hlen, hsha, hrep⟩ := hok
      simp only [advance, hph] at hs
      rw [← Option.some.inj hs]
      refine ⟨fun _ h => goto_of_ne _ c _ h, fun _ _ => rfl, ?_, Or.inr ?_⟩
      · rw [goto_self]
        trivial
      · refine ⟨_, rfl, ⟨bs, ?_, hlen, hsha, hrep⟩, rfl, ?_⟩
        · show (w.dir.entry dest).map Prod.snd = some bs
          rw [he]
          rfl
        · rw [goto_self]

/-- A chunk goes to the end of the `.part` file in either mode. -/
theorem writeChunk_spec {d : Dir Name} {n : Name} {i : Nat}
    {old : List UInt8} {mode : WriteMode} (he : d.entry n = some (i, old))
    (hmode : mode = .append ∨ mode = .at old.length) (bs : List UInt8) :
    (writeChunk d i mode bs).1.entry n = some (i, old ++ bs) ∧
      (∀ m, m ≠ n → (writeChunk d i mode bs).1.entry m = d.entry m) ∧
      ((writeChunk d i mode bs).2 = .append ∨
        (writeChunk d i mode bs).2 = .at (old.length + bs.length)) := by
  obtain ⟨hn, hc⟩ := entry_eq_some.mp he
  rcases hmode with rfl | rfl
  · refine ⟨?_, ?_, Or.inl rfl⟩
    · show (d.setContent i (d.content i ++ bs)).entry n = _
      rw [entry_setContent_self hn, hc]
    · intro m hm
      exact entry_setContent_of_ne hn hm _
  · refine ⟨?_, ?_, Or.inr rfl⟩
    · show (d.setContent i (overwrite (d.content i) old.length bs)).entry n = _
      rw [entry_setContent_self hn, hc, overwrite_end]
    · intro m hm
      exact entry_setContent_of_ne hn hm _

/-- The bytes still to be hashed: a read takes the next ones, and none are
    left exactly at the end. -/
theorem prefix_read {acc bs : List UInt8} (h : acc <+: bs) {n : Nat}
    (hn : 0 < n) :
    acc ++ (bs.drop acc.length).take n <+: bs ∧
      ((bs.drop acc.length).take n = [] → acc = bs) := by
  obtain ⟨rest, rfl⟩ := h
  rw [List.drop_left]
  refine ⟨?_, ?_⟩
  · exact (List.prefix_append_right_inj acc).mpr (List.take_prefix n rest)
  · intro hnil
    rcases List.take_eq_nil_iff.mp hnil with h | h
    · omega
    · rw [h, List.append_nil]

/-- **ONE STEP**: whatever a transfer relies on, its step has the effect
    described above. -/
theorem effect_step {maxFileSize : Nat} {a : Action C} {w' : World C}
    (hok : TransferOk sha256 w.dir (w.transfers a.actor))
    (hs : step sha256 maxFileSize w a = some w') :
    Effect sha256 w w' a.actor := by
  cases a with
  | offer c o =>
      cases hph : (w.transfers c).phase <;>
        simp only [step, hph, reduceCtorEq] at hs
      rw [← Option.some.inj hs]
      refine ⟨fun _ h => Function.update_of_ne h _ _, fun _ _ => rfl, ?_,
        Or.inl rfl⟩
      show TransferOk sha256 w.dir (Function.update w.transfers c _ c)
      rw [Function.update_self]
      split <;> trivial
  | advance c => exact effect_advance hok hs
  | chunk c bs =>
      cases hph : (w.transfers c).phase <;>
        simp only [step, hph, reduceCtorEq] at hs
      rename_i i mode received
      simp only [TransferOk, Action.actor, hph] at hok
      obtain ⟨old, he, hlen, hle, hmode⟩ := hok
      by_cases hb : bs ≠ [] ∧ bs.length ≤ CHUNK_SIZE
          ∧ received + bs.length ≤ (w.transfers c).offer.size
      · rw [if_pos hb] at hs
        rw [← Option.some.inj hs]
        rw [← hlen] at hmode
        obtain ⟨hself, hframe, hmode'⟩ := writeChunk_spec he hmode bs
        have hlen' : (old ++ bs).length = received + bs.length := by
          rw [List.length_append, hlen]
        refine effect_dir ?_ ?_
        · intro n hn
          exact hframe n (owns_part (by rw [hph]; rfl) hn)
        · by_cases hdone : (w.transfers c).offer.size ≤ received + bs.length
          · simp only [hdone, if_true]
            refine ⟨i, old ++ bs, hself, ?_⟩
            rw [hlen']
            exact Nat.le_antisymm hb.2.2 hdone
          · simp only [hdone, if_false]
            rw [hlen] at hmode'
            exact ⟨old ++ bs, hself, hlen', hb.2.2, hmode'⟩
      · rw [if_neg hb] at hs
        cases hs
  | endOfStream c =>
      cases hph : (w.transfers c).phase <;>
        simp only [step, hph, reduceCtorEq] at hs
      rename_i i mode received
      simp only [TransferOk, Action.actor, hph] at hok
      obtain ⟨old, he, hlen, hle, hmode⟩ := hok
      rw [← Option.some.inj hs]
      refine effect_goto ?_
      by_cases hdone : received = (w.transfers c).offer.size
      · simp only [hdone, if_true]
        exact ⟨i, old, he, hlen.trans hdone⟩
      · simp only [hdone, if_false]
        trivial
  | read c n =>
      cases hph : (w.transfers c).phase <;>
        simp only [step, hph, reduceCtorEq] at hs
      rename_i i acc
      simp only [TransferOk, Action.actor, hph] at hok
      obtain ⟨bs, he, hlen, hacc⟩ := hok
      by_cases hn : 0 < n ∧ n ≤ CHUNK_SIZE
      · rw [if_pos hn, (entry_eq_some.mp he).2] at hs
        rw [← Option.some.inj hs]
        obtain ⟨hmore, hend⟩ := prefix_read hacc hn.1
        refine effect_goto ?_
        by_cases hnil : (bs.drop acc.length).take n = []
        · -- everything was read: the hash is that of the file
          simp only [hnil, ne_eq, not_true_eq_false, if_false]
          split
          · rename_i hsha
            refine ⟨i, bs, he, hlen, ?_⟩
            rw [← hend hnil]
            exact hsha
          · trivial
        · simp only [hnil, ne_eq, not_false_eq_true, if_true]
          exact ⟨bs, he, hlen, hmore⟩
      · rw [if_neg hn] at hs
        cases hs
  | abort c =>
      cases hph : (w.transfers c).phase <;>
        simp only [step, hph, reduceCtorEq, Option.some.injEq] at hs <;>
        exact hs ▸ effect_goto trivial

end Effects

/-! ## Who owns what after a step -/

section Ownership

variable {sha256 : List UInt8 → List UInt8} {maxFileSize : Nat}
  {w w' : World C}

/-- The name that a step takes: the `.part` name of an offer within the
    limit, or the candidate that was found free. -/
def gained (maxFileSize : Nat) (w : World C) : Action C → Option Name
  | .offer _ o =>
      if maxFileSize ≠ 0 ∧ maxFileSize < o.size then none else some o.part
  | .advance c =>
      match (w.transfers c).phase with
      | .choosing i =>
          let candidate := candidateName (w.transfers c).offer.safeName i
          if w.dir.exists candidate then none else some candidate
      | _ => none
  | _ => none

/-- A phase without a destination owns at most the `.part` name. -/
theorem owns_keep {t : Transfer} {ph : Phase} {n : Name}
    (hp : t.phase.holdsPart = true) (hd : ph.dest = none)
    (h : Owns ⟨t.offer, ph⟩ n) : Owns t n := by
  rcases h with ⟨-, hn⟩ | hn
  · exact Or.inl ⟨hp, hn⟩
  · rw [hd] at hn
    cases hn

theorem not_owns_ended {o : Offer} {n : Name} : ¬ Owns ⟨o, .ended⟩ n := by
  rintro (⟨h, -⟩ | h) <;> cases h

theorem owns_advance {c : C} {n : Name} (hs : advance w c = some w')
    (hn : Owns (w'.transfers c) n) :
    Owns (w.transfers c) n ∨ gained maxFileSize w (.advance c) = some n := by
  -- in every phase that advances to one without a destination
  have hkeep : ∀ (d : Dir Name) (ph : Phase),
      w' = { w with dir := d }.goto c ph → ph.dest = none →
      (w.transfers c).phase.holdsPart = true → Owns (w.transfers c) n := by
    intro d ph hw hd hp
    rw [hw, goto_self] at hn
    exact owns_keep hp hd hn
  cases hph : (w.transfers c).phase with
  | waiting => simp only [advance, hph] at hs; cases hs
  | receiving i mode received =>
      simp only [advance, hph] at hs; cases hs
  | hashing i acc => simp only [advance, hph] at hs; cases hs
  | ended => simp only [advance, hph] at hs; cases hs
  | checking =>
      simp only [advance, hph] at hs
      refine Or.inl (hkeep w.dir _ (Option.some.inj hs).symm ?_ (hph ▸ rfl))
      split <;> rfl
  | sizing =>
      simp only [advance, hph] at hs
      split at hs
      · exact Or.inl (hkeep w.dir _ (Option.some.inj hs).symm rfl (hph ▸ rfl))
      · refine Or.inl (hkeep w.dir _ (Option.some.inj hs).symm ?_ (hph ▸ rfl))
        split <;> rfl
  | resuming offset =>
      simp only [advance, hph] at hs
      split at hs <;>
        exact Or.inl (hkeep w.dir _ (Option.some.inj hs).symm rfl (hph ▸ rfl))
  | creating =>
      simp only [advance, hph] at hs
      exact Or.inl (hkeep _ _ (Option.some.inj hs).symm rfl (hph ▸ rfl))
  | removing =>
      simp only [advance, hph] at hs
      exact Or.inl (hkeep _ _ (Option.some.inj hs).symm rfl (hph ▸ rfl))
  | verifying =>
      simp only [advance, hph] at hs
      split at hs <;>
        exact Or.inl (hkeep w.dir _ (Option.some.inj hs).symm rfl (hph ▸ rfl))
  | choosing k =>
      simp only [advance, hph] at hs
      cases hex : w.dir.exists
          (candidateName (w.transfers c).offer.safeName k) with
      | true =>
          simp only [hex, if_true] at hs
          exact Or.inl (hkeep w.dir _ (Option.some.inj hs).symm rfl (hph ▸ rfl))
      | false =>
          simp only [hex, Bool.false_eq_true, if_false] at hs
          rw [← Option.some.inj hs, goto_self] at hn
          rcases hn with ⟨-, hn⟩ | hn
          · exact Or.inl (Or.inl ⟨by rw [hph]; rfl, hn⟩)
          · -- the destination is the only new name
            refine Or.inr ?_
            simp only [gained, hph, hex, Bool.false_eq_true, if_false]
            exact hn
  | promoting dest =>
      simp only [advance, hph] at hs
      split at hs
      · exact Or.inl (hkeep w.dir _ (Option.some.inj hs).symm rfl (hph ▸ rfl))
      · rw [← Option.some.inj hs, goto_self] at hn
        rcases hn with ⟨hn, -⟩ | hn
        · cases hn
        · exact Or.inl (Or.inr (by rw [hph]; exact hn))
  | completing dest replaced =>
      simp only [advance, hph] at hs
      rw [← Option.some.inj hs, goto_self] at hn
      exact absurd hn not_owns_ended

/-- **WHAT A STEP CAN TAKE**: an actor owns afterwards only what it owned or
    what the step says it gains. -/
theorem owns_step {a : Action C} {n : Name}
    (hs : step sha256 maxFileSize w a = some w')
    (hn : Owns (w'.transfers a.actor) n) :
    Owns (w.transfers a.actor) n ∨ gained maxFileSize w a = some n := by
  cases a with
  | offer c o =>
      cases hph : (w.transfers c).phase <;>
        simp only [step, hph, reduceCtorEq] at hs
      rw [← Option.some.inj hs] at hn
      simp only [Action.actor, Function.update_self] at hn
      by_cases hacc : maxFileSize ≠ 0 ∧ maxFileSize < o.size
      · rw [if_pos hacc] at hn
        exact absurd hn not_owns_ended
      · rw [if_neg hacc] at hn
        rcases hn with ⟨-, hn⟩ | hn
        · exact Or.inr (by rw [gained, if_neg hacc]; exact congrArg some hn)
        · cases hn
  | advance c => exact owns_advance hs hn
  | chunk c bs =>
      cases hph : (w.transfers c).phase <;>
        simp only [step, hph, reduceCtorEq] at hs
      split at hs
      · rw [← Option.some.inj hs, Action.actor, goto_self] at hn
        refine Or.inl (owns_keep (by rw [Action.actor, hph]; rfl) ?_ hn)
        split <;> rfl
      · cases hs
  | endOfStream c =>
      cases hph : (w.transfers c).phase <;>
        simp only [step, hph, reduceCtorEq] at hs
      rw [← Option.some.inj hs, Action.actor, goto_self] at hn
      refine Or.inl (owns_keep (by rw [Action.actor, hph]; rfl) ?_ hn)
      split <;> rfl
  | read c k =>
      cases hph : (w.transfers c).phase <;>
        simp only [step, hph, reduceCtorEq] at hs
      split at hs
      · rw [← Option.some.inj hs, Action.actor, goto_self] at hn
        refine Or.inl (owns_keep (by rw [Action.actor, hph]; rfl) ?_ hn)
        split
        · rfl
        · split <;> rfl
      · cases hs
  | abort c =>
      have hended : w' = w.goto c .ended := by
        cases hph : (w.transfers c).phase <;>
          simp only [step, hph, reduceCtorEq, Option.some.injEq] at hs <;>
          exact hs.symm
      rw [hended, Action.actor, goto_self] at hn
      exact absurd hn not_owns_ended

end Ownership

/-! ## Exclusive ownership -/

section Exclusive

variable {sha256 : List UInt8 → List UInt8} {maxFileSize : Nat}

/-- A step takes a name only if no other transfer in progress owns it. -/
def Exclusive (maxFileSize : Nat) (w : World C) (a : Action C) : Prop :=
  ∀ n ∈ gained maxFileSize w a, ∀ c, c ≠ a.actor → ¬ Owns (w.transfers c) n

instance exclusiveDecidable [Fintype C] (m : Nat) (w : World C)
    (a : Action C) : Decidable (Exclusive m w a) :=
  inferInstanceAs (Decidable
    (∀ n ∈ gained m w a, ∀ c, c ≠ a.actor → ¬ Owns (w.transfers c) n))

/-- Every confirmation was true when it was sent. -/
def AllConfirmedOk (sha256 : List UInt8 → List UInt8) (w : World C) : Prop :=
  ∀ r ∈ w.confirmed, ConfirmedOk sha256 r

/-- The invariant: names have one owner, every transfer can rely on what it
    has found out, and what was confirmed was true. -/
structure Sound (sha256 : List UInt8 → List UInt8) (w : World C) : Prop where
  owner : ∀ c c' n, Owns (w.transfers c) n → Owns (w.transfers c') n → c = c'
  ok : ∀ c, TransferOk sha256 w.dir (w.transfers c)
  confirmed : AllConfirmedOk sha256 w

omit [DecidableEq C] in
theorem sound_start (dir : Dir Name) : Sound sha256 (World.start C dir) where
  owner := by
    rintro c c' n (⟨h, -⟩ | h) <;> cases h
  ok := fun _ => trivial
  confirmed := fun _ h => nomatch h

theorem sound_step (w : World C) (a : Action C) (w' : World C)
    (h : Sound sha256 w) (hok : Exclusive maxFileSize w a)
    (hs : step sha256 maxFileSize w a = some w') : Sound sha256 w' := by
  have heff := effect_step (h.ok a.actor) hs
  -- the actor clashes with nobody else
  have hactor : ∀ c n, c ≠ a.actor → Owns (w'.transfers a.actor) n →
      ¬ Owns (w.transfers c) n := by
    intro c n hc hn hcn
    rcases owns_step hs hn with hold | hgain
    · exact hc (h.owner c a.actor n hcn hold)
    · exact hok n hgain c hc hcn
  refine ⟨?_, ?_, ?_⟩
  · intro c c' n hcn hcn'
    by_cases hc : c = a.actor
    · by_cases hc' : c' = a.actor
      · rw [hc, hc']
      · rw [hc] at hcn
        rw [heff.others c' hc'] at hcn'
        exact absurd hcn' (hactor c' n hc' hcn)
    · rw [heff.others c hc] at hcn
      by_cases hc' : c' = a.actor
      · rw [hc'] at hcn'
        exact absurd hcn (hactor c n hc hcn')
      · rw [heff.others c' hc'] at hcn'
        exact h.owner c c' n hcn hcn'
  · intro c
    by_cases hc : c = a.actor
    · rw [hc]
      exact heff.ok
    · rw [heff.others c hc]
      refine (h.ok c).congr ?_
      intro n hn
      refine heff.frame n ?_
      intro hown
      exact hc (h.owner c a.actor n hn hown)
  · intro r hr
    rcases heff.confirmed with hsame | ⟨r', hnew, hok', -⟩
    · rw [hsame] at hr
      exact h.confirmed r hr
    · rw [hnew] at hr
      rcases List.mem_append.mp hr with hr | hr
      · exact h.confirmed r hr
      · rw [List.mem_singleton.mp hr]
        exact hok'

/-- **WHAT IS CONFIRMED IS ON DISK**: for every SHA-256, any number of
    transfers over any directory and any interleaving in which no two
    transfers in progress ever own one name, every `FileComplete` was sent
    with the offered bytes at the destination, which replaced nothing. -/
theorem confirmed_is_on_disk (sha256 : List UInt8 → List UInt8)
    (maxFileSize : Nat) (dir : Dir Name) (acts : List (Action C))
    (w : World C)
    (hrun : exec (step sha256 maxFileSize) (World.start C dir) acts = some w)
    (hok : Guarded (step sha256 maxFileSize) (Exclusive maxFileSize)
      (World.start C dir) acts) :
    AllConfirmedOk sha256 w :=
  (invariant_exec sound_step acts _ w (sound_start dir) hok hrun).confirmed

end Exclusive

/-! ## Two transfers -/

/-- SHA-256 as far as the runs below hash: the digest of `"a"`. -/
def sha256OfA (bs : List UInt8) : List UInt8 :=
  if bs = [0x61] then
    [0xca, 0x97, 0x81, 0x12, 0xca, 0x1b, 0xbd, 0xca, 0xfa, 0xc2, 0x31, 0xb3,
      0x9a, 0x23, 0xdc, 0x4d, 0xa7, 0x86, 0xef, 0xf8, 0x14, 0x7c, 0x4f, 0x72,
      0xb9, 0x80, 0x77, 0x85, 0xaf, 0xee, 0x48, 0xbb]
  else []

/-- The one-byte file `"a"` under a given name. -/
def offerA (name : List Char) : Offer := ⟨name, 1, sha256OfA [0x61]⟩

/-- A connection receives the file afresh and checks its hash. -/
def receiveA (c : Fin 2) (name : List Char) : List (Action (Fin 2)) :=
  [.offer c (offerA name), .advance c, .advance c, .chunk c [0x61],
    .advance c, .read c 1, .read c 1]

/-- It finds its first candidate free, renames and confirms. -/
def promoteA (c : Fin 2) : List (Action (Fin 2)) :=
  [.advance c, .advance c, .advance c]

/-- Connection 1 opens the `.part` file of the given name. -/
def openPart (name : List Char) : List (Action (Fin 2)) :=
  [.offer 1 (offerA name), .advance 1, .advance 1]

/-- A run that meets the condition: connection 1 starts on another name
    between the hash check of connection 0 and its rename. -/
theorem confirmed_is_on_disk_beside_other :
    ∃ w : World (Fin 2), AllConfirmedOk sha256OfA w ∧
      w.confirmed
        = [⟨offerA "a".toList, "a".toList, some [0x61], false⟩] := by
  have hrun : (exec (step sha256OfA 0) (World.start (Fin 2) Dir.empty)
      (receiveA 0 "a".toList ++ openPart "b".toList ++ promoteA 0)).map
        (fun w => w.confirmed)
      = some [⟨offerA "a".toList, "a".toList, some [0x61], false⟩] := by
    decide
  obtain ⟨w, hw, hv⟩ := Option.map_eq_some_iff.mp hrun
  exact ⟨w, confirmed_is_on_disk sha256OfA 0 Dir.empty _ w hw (by decide), hv⟩

/-- **A SECOND OFFER TRUNCATES A VERIFIED FILE**: connection 0 has checked the
    hash of its `.part` file when connection 1 offers a file of the same name
    and size; the `.part` file is as long as offered, so it is created anew.
    Connection 0 renames and confirms an empty file. -/
theorem confirms_truncated_file :
    ∃ w : World (Fin 2),
      exec (step sha256OfA 0) (World.start (Fin 2) Dir.empty)
        (receiveA 0 "a".toList ++ openPart "a".toList ++ [.advance 1]
          ++ promoteA 0) = some w ∧
      w.confirmed = [⟨offerA "a".toList, "a".toList, some [], false⟩] ∧
      ¬ AllConfirmedOk sha256OfA w := by
  refine ⟨_, rfl, by decide, ?_⟩
  intro h
  obtain ⟨bs, hbs, hlen, -, -⟩ :=
    h ⟨offerA "a".toList, "a".toList, some [], false⟩ (List.mem_singleton.mpr rfl)
  rw [← Option.some.inj hbs] at hlen
  cases hlen

end KvmTransfer
