import KvmRs.AuditProofs

/-! # No file without the PIN

    The whole server: any number of control connections and of connections on
    the file channel, which share the downloads directory.  Whatever the
    transfers do to each other, they touch only names that some offer in
    progress gives them (`Fenced`); and an offer is only read from a peer that
    has presented the fingerprint of a paired device (`LetIn`).  The paired
    devices are those of the start and those that proved the PIN. -/

namespace KvmFileGuard

open Directory KvmEnvelope KvmFileName KvmTransfer Transition
open KvmControl (Secure Proved secure_step secure_start)
open KvmFileChannel (Refusal offerOf oversize onReply onRequest)
open KvmServerLog (Event Server)

/-! ## Transfers side by side -/

/-- A transfer of the offer may touch this name. -/
def Uses (o : Offer) (n : Name) : Prop :=
  n = o.part ∨ ∃ i, n = candidateName o.safeName i

/-- Whatever the transfer touches next is in `A`: the names of its offer, the
    destination that it has chosen, and the file that it has open, under
    whichever name that is now. -/
structure TransferFenced (A : Name → Prop) (d : Dir Name) (t : Transfer) :
    Prop where
  names : t.phase.holdsPart = true → ∀ n, Uses t.offer n → A n
  chosen : ∀ dest, t.phase = .promoting dest → A dest
  opened : ∀ i mode received, t.phase = .receiving i mode received →
    ∀ n, d.names n = some i → A n

structure Fenced {D : Type} (A : Name → Prop) (d₀ : Dir Name)
    (w : KvmTransfer.World D) : Prop where
  dir : Within A d₀ w.dir
  transfers : ∀ c, TransferFenced A w.dir (w.transfers c)

section Fence

variable {A B : Name → Prop} {d d' d₀ : Dir Name} {t : Transfer}

theorem TransferFenced.within (h : TransferFenced A d t)
    (hd : Within A d d') : TransferFenced A d' t := by
  refine ⟨h.names, h.chosen, ?_⟩
  intro i mode received hph n hn
  exact (hd.named hn).elim id (h.opened i mode received hph n)

theorem TransferFenced.mono (h : TransferFenced A d t)
    (hB : ∀ n, A n → B n) : TransferFenced B d t where
  names := fun hheld n hn => hB n (h.names hheld n hn)
  chosen := fun dest hph => hB dest (h.chosen dest hph)
  opened := fun i mode received hph n hn =>
    hB n (h.opened i mode received hph n hn)

/-- The next phase has nothing open and no destination. -/
theorem TransferFenced.goto (h : TransferFenced A d t) {ph : Phase}
    (hheld : t.phase.holdsPart = true ∨ ph.holdsPart = false)
    (hchosen : ∀ dest, ph ≠ .promoting dest)
    (hopened : ∀ i mode received, ph ≠ .receiving i mode received) :
    TransferFenced A d ⟨t.offer, ph⟩ := by
  refine ⟨?_, fun dest hph => absurd hph (hchosen dest),
    fun i mode received hph => absurd hph (hopened i mode received)⟩
  intro hph
  rcases hheld with hheld | hno
  · exact h.names hheld
  · rw [hno] at hph
    cases hph

/-- A file that is open under the `.part` name. -/
theorem TransferFenced.receive (h : TransferFenced A d t)
    (hheld : t.phase.holdsPart = true) {i : Nat}
    (hi : d'.names t.offer.part = some i) (mode : WriteMode)
    (received : Nat) :
    TransferFenced A d' ⟨t.offer, .receiving i mode received⟩ := by
  refine ⟨fun _ => h.names hheld, by rintro dest ⟨⟩, ?_⟩
  rintro j m r ⟨⟩ n hn
  rw [d'.unlinked n t.offer.part i hn hi]
  exact h.names hheld _ (Or.inl rfl)

variable {D : Type} {w w' : KvmTransfer.World D}

theorem Fenced.mono (h : Fenced A d₀ w) (hB : ∀ n, A n → B n) :
    Fenced B d₀ w where
  dir := h.dir.mono hB
  transfers := fun c => (h.transfers c).mono hB

theorem fenced_start (A : Name → Prop) (dir : Dir Name) :
    Fenced A dir (World.start D dir) where
  dir := within_refl A dir
  transfers := by
    intro c
    refine ⟨?_, ?_, ?_⟩
    · intro hheld
      cases hheld
    · intro dest hph
      cases hph
    · intro i mode received hph
      cases hph

variable [DecidableEq D] {c : D}

/-- A step of one transfer, at names of `A`. -/
theorem Fenced.goto (h : Fenced A d₀ w) (hd : Within A w.dir d) {ph : Phase}
    (ht : TransferFenced A d ⟨(w.transfers c).offer, ph⟩) :
    Fenced A d₀ ({ w with dir := d }.goto c ph) := by
  refine ⟨h.dir.trans hd, ?_⟩
  intro c'
  by_cases hc : c' = c
  · rw [hc, goto_self]
    exact ht
  · rw [goto_of_ne _ c ph hc]
    exact (h.transfers c').within hd

/-- A step that only changes the phase, and opens nothing. -/
theorem Fenced.idle (h : Fenced A d₀ w) {ph : Phase}
    (hheld : (w.transfers c).phase.holdsPart = true ∨ ph.holdsPart = false)
    (hchosen : ∀ dest, ph ≠ .promoting dest)
    (hopened : ∀ i mode received, ph ≠ .receiving i mode received) :
    Fenced A d₀ (w.goto c ph) :=
  h.goto (within_refl A w.dir) ((h.transfers c).goto hheld hchosen hopened)

/-- The steps outside the two loops. -/
theorem fenced_advance (h : Fenced A d₀ w)
    (hs : KvmTransfer.advance w c = some w') : Fenced A d₀ w' := by
  have ht := h.transfers c
  cases hph : (w.transfers c).phase with
  | waiting => simp only [KvmTransfer.advance, hph, reduceCtorEq] at hs
  | receiving i mode received =>
      simp only [KvmTransfer.advance, hph, reduceCtorEq] at hs
  | hashing i acc => simp only [KvmTransfer.advance, hph, reduceCtorEq] at hs
  | ended => simp only [KvmTransfer.advance, hph, reduceCtorEq] at hs
  | checking =>
      simp only [KvmTransfer.advance, hph] at hs
      rw [← Option.some.inj hs]
      refine h.idle (Or.inl (by rw [hph]; rfl)) ?_ ?_ <;> intros <;>
        split <;> simp
  | sizing =>
      have hheld : (w.transfers c).phase.holdsPart = true := by
        rw [hph]
        rfl
      simp only [KvmTransfer.advance, hph] at hs
      split at hs
      · rw [← Option.some.inj hs]
        exact h.idle (Or.inl hheld) (by simp) (by simp)
      · rw [← Option.some.inj hs]
        refine h.idle (Or.inl hheld) ?_ ?_ <;> intros <;> split <;> simp
  | resuming offset =>
      have hheld : (w.transfers c).phase.holdsPart = true := by
        rw [hph]
        rfl
      simp only [KvmTransfer.advance, hph] at hs
      split at hs
      · rw [← Option.some.inj hs]
        exact h.idle (Or.inl hheld) (by simp) (by simp)
      · rename_i i bs he
        rw [← Option.some.inj hs]
        exact h.goto (within_refl A w.dir)
          (ht.receive hheld (entry_eq_some.mp he).1 .append offset)
  | creating =>
      have hheld : (w.transfers c).phase.holdsPart = true := by
        rw [hph]
        rfl
      simp only [KvmTransfer.advance, hph] at hs
      rw [← Option.some.inj hs]
      refine h.goto (within_create (ht.names hheld _ (Or.inl rfl))) ?_
      exact ht.receive hheld
        (entry_eq_some.mp (entry_create_self w.dir _)).1 (.at 0) 0
  | removing =>
      have hheld : (w.transfers c).phase.holdsPart = true := by
        rw [hph]
        rfl
      have hd := within_remove (d := w.dir) (ht.names hheld _ (Or.inl rfl))
      simp only [KvmTransfer.advance, hph] at hs
      rw [← Option.some.inj hs]
      exact h.goto hd ((ht.within hd).goto (Or.inr rfl) (by simp) (by simp))
  | verifying =>
      have hheld : (w.transfers c).phase.holdsPart = true := by
        rw [hph]
        rfl
      simp only [KvmTransfer.advance, hph] at hs
      split at hs <;> rw [← Option.some.inj hs]
      · exact h.idle (Or.inl hheld) (by simp) (by simp)
      · exact h.idle (Or.inl hheld) (by simp) (by simp)
  | choosing i =>
      have hheld : (w.transfers c).phase.holdsPart = true := by
        rw [hph]
        rfl
      simp only [KvmTransfer.advance, hph] at hs
      rw [← Option.some.inj hs]
      split
      · exact h.idle (Or.inl hheld) (by simp) (by simp)
      · refine h.goto (within_refl A w.dir)
          ⟨fun _ => ht.names hheld, ?_, by rintro j mode received ⟨⟩⟩
        rintro dest ⟨⟩
        exact ht.names hheld _ (Or.inr ⟨i, rfl⟩)
  | promoting dest =>
      have hheld : (w.transfers c).phase.holdsPart = true := by
        rw [hph]
        rfl
      simp only [KvmTransfer.advance, hph] at hs
      split at hs
      · rw [← Option.some.inj hs]
        exact h.idle (Or.inl hheld) (by simp) (by simp)
      · rename_i d hren
        have hd := within_rename (ht.names hheld _ (Or.inl rfl))
          (ht.chosen dest hph) hren
        rw [← Option.some.inj hs]
        exact h.goto hd ((ht.within hd).goto (Or.inr rfl) (by simp) (by simp))
  | completing dest replaced =>
      simp only [KvmTransfer.advance, hph] at hs
      rw [← Option.some.inj hs]
      have hsame : Fenced A d₀ (w.goto c .ended) :=
        h.idle (Or.inr rfl) (by simp) (by simp)
      exact ⟨hsame.dir, hsame.transfers⟩

/-- **NOTHING OUTSIDE OF THE FENCE**: if the names of every offer that is let
    in are in `A`, so is everything that changes, whatever the transfers do to
    each other. -/
theorem fenced_step {sha256 : List UInt8 → List UInt8} {maxFileSize : Nat}
    {a : KvmTransfer.Action D} (h : Fenced A d₀ w)
    (hoffer : ∀ c o, a = .offer c o → oversize maxFileSize o.size = false →
      ∀ n, Uses o n → A n)
    (hs : KvmTransfer.step sha256 maxFileSize w a = some w') :
    Fenced A d₀ w' := by
  cases a with
  | offer c o =>
      cases hph : (w.transfers c).phase <;>
        simp only [KvmTransfer.step, hph, reduceCtorEq] at hs
      rw [← Option.some.inj hs]
      refine ⟨h.dir, ?_⟩
      intro c'
      by_cases hc : c' = c
      · simp only [hc, Function.update_self]
        by_cases hover : maxFileSize ≠ 0 ∧ maxFileSize < o.size
        · rw [if_pos hover]
          refine ⟨by rintro ⟨⟩, by rintro dest ⟨⟩, by rintro i m r ⟨⟩⟩
        · rw [if_neg hover]
          refine ⟨fun _ => hoffer c o rfl (decide_eq_false hover),
            by rintro dest ⟨⟩, by rintro i m r ⟨⟩⟩
      · simp only [Function.update_of_ne hc]
        exact h.transfers c'
  | advance c => exact fenced_advance h hs
  | chunk c bs =>
      cases hph : (w.transfers c).phase <;>
        simp only [KvmTransfer.step, hph, reduceCtorEq] at hs
      rename_i i mode received
      have ht := h.transfers c
      have hheld : (w.transfers c).phase.holdsPart = true := by
        rw [hph]
        rfl
      have hd : Within A w.dir (writeChunk w.dir i mode bs).1 := by
        cases mode <;>
          exact within_setContent (ht.opened i _ received hph) _
      split at hs
      · rw [← Option.some.inj hs]
        refine h.goto hd ?_
        split
        · exact (ht.within hd).goto (Or.inl hheld) (by simp) (by simp)
        · refine ⟨fun _ => ht.names hheld, by rintro dest ⟨⟩, ?_⟩
          rintro j m r ⟨⟩ n hn
          exact (ht.within hd).opened i mode received hph n hn
      · cases hs
  | endOfStream c =>
      cases hph : (w.transfers c).phase <;>
        simp only [KvmTransfer.step, hph, reduceCtorEq] at hs
      rw [← Option.some.inj hs]
      refine h.idle (Or.inl (by rw [hph]; rfl)) ?_ ?_ <;> intros <;>
        split <;> simp
  | read c n =>
      cases hph : (w.transfers c).phase <;>
        simp only [KvmTransfer.step, hph, reduceCtorEq] at hs
      split at hs
      · rw [← Option.some.inj hs]
        refine h.idle (Or.inl (by rw [hph]; rfl)) ?_ ?_ <;> intros <;>
          split
        · simp
        · split <;> simp
        · simp
        · split <;> simp
      · cases hs
  | abort c =>
      cases hph : (w.transfers c).phase <;>
        simp only [KvmTransfer.step, hph, reduceCtorEq,
          Option.some.injEq] at hs <;>
        exact hs ▸ h.idle (Or.inr rfl) (by simp) (by simp)

end Fence

/-! ## The gate -/

section Gate

variable {C Ip D : Type} {k : KvmServerLog.Settings C Ip D}
  {initial : List String} {past : List (Event C D)} {s s' : Server C Ip D}
  {d : D}

/-- The connection has presented the fingerprint of a paired device. -/
def LetIn (past : List (Event C D)) (s : Server C Ip D) (d : D) : Prop :=
  ∃ nonce fingerprint proof,
    Event.file (.request d (.pairRequest nonce fingerprint proof)) ∈ past ∧
      fingerprint ∈ s.control.pairedDevices

/-- The names that are given to a peer that was let in. -/
def Granted (maxFileSize : Nat) (past : List (Event C D))
    (s : Server C Ip D) (n : Name) : Prop :=
  ∃ d e id o, LetIn past s d ∧ Event.file (.offer d e) ∈ past ∧
    offerOf e = some (id, o) ∧ oversize maxFileSize o.size = false ∧ Uses o n

/-- The stages behind the pairing check. -/
def behindCheck : KvmFileChannel.Stage → Bool
  | .accepting => true
  | .offering => true
  | .serving => true
  | .announcing => true
  | _ => false

/-- A connection is behind the check only if it was let in, and otherwise it
    was only refused. -/
structure ConnGuarded (past : List (Event C D)) (s : Server C Ip D) (d : D)
    (x : KvmFileChannel.Conn) : Prop where
  behind : behindCheck x.stage = true → LetIn past s d
  answers : LetIn past s d ∨ ∀ e ∈ x.sent, ∃ why : Refusal, e = why.reply

structure FilesGuarded (k : KvmServerLog.Settings C Ip D)
    (initial : List String) (dir : Dir Name) (past : List (Event C D))
    (s : Server C Ip D) : Prop where
  control : Secure k.control initial s.control
  conns : ∀ d, ConnGuarded past s d (s.files.conns d)
  files : Fenced (Granted k.files.maxFileSize past s) dir s.files.files

theorem paired_refl (s : Server C Ip D) :
    ∀ fp ∈ s.control.pairedDevices, fp ∈ s.control.pairedDevices :=
  fun _ hfp => hfp

theorem LetIn.later (h : LetIn past s d)
    (hpaired : ∀ fp ∈ s.control.pairedDevices, fp ∈ s'.control.pairedDevices)
    (e : Event C D) : LetIn (past ++ [e]) s' d := by
  obtain ⟨nonce, fp, proof, hreq, hfp⟩ := h
  exact ⟨nonce, fp, proof, List.mem_append_left [e] hreq, hpaired fp hfp⟩

theorem Granted.later {maxFileSize : Nat} {n : Name}
    (h : Granted maxFileSize past s n)
    (hpaired : ∀ fp ∈ s.control.pairedDevices, fp ∈ s'.control.pairedDevices)
    (e : Event C D) : Granted maxFileSize (past ++ [e]) s' n := by
  obtain ⟨d, e', id, o, hin, hoffer, ho, hsize, hn⟩ := h
  exact ⟨d, e', id, o, hin.later hpaired e, List.mem_append_left [e] hoffer,
    ho, hsize, hn⟩

theorem ConnGuarded.later {x : KvmFileChannel.Conn}
    (h : ConnGuarded past s d x)
    (hpaired : ∀ fp ∈ s.control.pairedDevices, fp ∈ s'.control.pairedDevices)
    (e : Event C D) : ConnGuarded (past ++ [e]) s' d x where
  behind := fun hx => (h.behind hx).later hpaired e
  answers := h.answers.imp (fun hin => hin.later hpaired e) id

/-- Someone who was let in may be told anything. -/
theorem connGuarded_in (h : LetIn past s d) (x : KvmFileChannel.Conn) :
    ConnGuarded past s d x :=
  ⟨fun _ => h, Or.inl h⟩

/-- The handler returns. -/
theorem ConnGuarded.leave {x : KvmFileChannel.Conn}
    (h : ConnGuarded past s d x) :
    ConnGuarded past s d { x with stage := .returned } :=
  ⟨by rintro ⟨⟩, h.answers⟩

variable {dir : Dir Name}

/-- The files while only the past grows. -/
theorem FilesGuarded.fenced (h : FilesGuarded k initial dir past s)
    (hpaired : ∀ fp ∈ s.control.pairedDevices, fp ∈ s'.control.pairedDevices)
    (e : Event C D) :
    Fenced (Granted k.files.maxFileSize (past ++ [e]) s') dir s.files.files :=
  h.files.mono fun _ hn => hn.later hpaired e

/-- The first envelope. -/
theorem connGuarded_request {e : Envelope} {x : KvmFileChannel.Conn}
    (h : ConnGuarded past s d x) :
    ConnGuarded (past ++ [.file (.request d e)]) s d
      (onRequest s.control.pairedDevices x e) := by
  have hlater := h.later (paired_refl s) (.file (.request d e))
  cases e with
  | pairRequest nonce fp proof =>
      by_cases hfp : fp ∈ s.control.pairedDevices
      · exact connGuarded_in ⟨nonce, fp, proof,
          List.mem_append_right past (List.mem_singleton.mpr rfl), hfp⟩ _
      · rw [onRequest, if_neg hfp]
        exact ⟨by rintro ⟨⟩, hlater.answers⟩
  | _ => exact ⟨by rintro ⟨⟩, hlater.answers⟩

/-- What the handler is about to send. -/
theorem connGuarded_reply {x x' : KvmFileChannel.Conn}
    (h : ConnGuarded past s d x) (hx : onReply x = some x') :
    ConnGuarded past s d x' := by
  rw [onReply] at hx
  split at hx
  · rename_i hst
    rw [← Option.some.inj hx]
    exact connGuarded_in (h.behind (by rw [hst]; rfl)) _
  · rename_i why hst
    rw [← Option.some.inj hx]
    refine ⟨by rintro ⟨⟩, h.answers.imp id ?_⟩
    intro hall e he
    rcases List.mem_append.mp he with he | he
    · exact hall e he
    · exact ⟨why, List.mem_singleton.mp he⟩
  · rename_i hst
    rw [← Option.some.inj hx]
    exact connGuarded_in (h.behind (by rw [hst]; rfl)) _
  · cases hx

variable [DecidableEq D] {e : Event C D}

/-- One connection moves on, and the files with it. -/
theorem FilesGuarded.set (h : FilesGuarded k initial dir past s)
    {x : KvmFileChannel.Conn} {files : KvmTransfer.World D}
    (hx : ConnGuarded (past ++ [e]) s d x)
    (hfiles : Fenced (Granted k.files.maxFileSize (past ++ [e]) s) dir files) :
    FilesGuarded k initial dir (past ++ [e])
      { s with files := { s.files with files := files }.set d x } := by
  refine ⟨h.control, ?_, hfiles⟩
  intro d'
  by_cases hd : d' = d
  · rw [hd, KvmFileChannel.set_conns_self]
    exact ⟨hx.behind, hx.answers⟩
  · have hlater := (h.conns d').later (paired_refl s) e
    simp only [KvmFileChannel.Channel.set, Function.update_of_ne hd]
    exact ⟨hlater.behind, hlater.answers⟩

/-- A step of the transfer of someone who was let in. -/
theorem FilesGuarded.serve (h : FilesGuarded k initial dir past s)
    {a : KvmTransfer.Action D} {next : KvmTransfer.World D → KvmFileChannel.Conn}
    {w : KvmFileChannel.Channel D} (hoffer : ∀ c o, a ≠ .offer c o)
    (hs : s.files.serve k.files d a next = some w) :
    FilesGuarded k initial dir (past ++ [e]) { s with files := w } := by
  obtain ⟨hst, files, hstep, rfl⟩ := KvmFileChannel.serve_some hs
  have hin : LetIn past s d := (h.conns d).behind (by rw [hst]; rfl)
  have hfenced := h.fenced (paired_refl s) e
  refine h.set (connGuarded_in (hin.later (paired_refl s) e) _) ?_
  exact fenced_step hfenced (fun c o ho => absurd ho (hoffer c o)) hstep

/-- **ONE STEP ON THE FILE CHANNEL**. -/
theorem filesGuarded_file {a : KvmFileChannel.Action D}
    {w : KvmFileChannel.Channel D} (h : FilesGuarded k initial dir past s)
    (hs : KvmFileChannel.step k.files s.control.pairedDevices s.files a
      = some w) :
    FilesGuarded k initial dir (past ++ [.file a]) { s with files := w } := by
  have hfenced := h.fenced (paired_refl s) (.file a)
  have hlater := fun d =>
    (h.conns d).later (paired_refl s) (.file a)
  cases a with
  | request d e =>
      simp only [KvmFileChannel.step] at hs
      split at hs
      · rw [← Option.some.inj hs]
        exact h.set (connGuarded_request (h.conns d)) hfenced
      · cases hs
  | timeout d =>
      simp only [KvmFileChannel.step] at hs
      split at hs
      · rw [← Option.some.inj hs]
        exact h.set (hlater d).leave hfenced
      · cases hs
  | reply d =>
      obtain ⟨x, hx, rfl⟩ := Option.map_eq_some_iff.mp hs
      exact h.set (connGuarded_reply (hlater d) hx) hfenced
  | offer d e =>
      simp only [KvmFileChannel.step] at hs
      split at hs
      · rename_i hst
        have hin : LetIn past s d := (h.conns d).behind (by rw [hst]; rfl)
        have hin' := hin.later (paired_refl s) (.file (.offer d e))
        split at hs
        · rename_i id o ho
          obtain ⟨files, hstep, rfl⟩ := Option.map_eq_some_iff.mp hs
          refine h.set (connGuarded_in hin' _) (fenced_step hfenced ?_ hstep)
          rintro c o' hc hsize n hn
          cases hc
          exact ⟨d, e, id, o, hin',
            List.mem_append_right past (List.mem_singleton.mpr rfl), ho, hsize,
            hn⟩
        · rw [← Option.some.inj hs]
          exact h.set (hlater d).leave hfenced
      · cases hs
  | advance d err => exact h.serve (by rintro c o ⟨⟩) hs
  | chunk d bs => exact h.serve (by rintro c o ⟨⟩) hs
  | endOfData d => exact h.serve (by rintro c o ⟨⟩) hs
  | rehash d n => exact h.serve (by rintro c o ⟨⟩) hs
  | fail d err =>
      simp only [KvmFileChannel.step] at hs
      split at hs
      case h_5 => cases hs
      case h_6 =>
        split at hs
        · obtain ⟨files, hstep, rfl⟩ := Option.map_eq_some_iff.mp hs
          exact h.set (hlater d).leave
            (fenced_step hfenced (by rintro c o ⟨⟩) hstep)
        · cases hs
      all_goals
        rw [← Option.some.inj hs]
        exact h.set (hlater d).leave hfenced

/-- Nobody who is paired is forgotten while the server runs. -/
theorem paired_kept [DecidableEq C] [DecidableEq Ip]
    (hs : KvmServerLog.step k s e = some s') :
    ∀ fp ∈ s.control.pairedDevices, fp ∈ s'.control.pairedDevices := by
  intro fp hfp
  rw [KvmAudit.devices_step hs]
  exact List.mem_append_right _ hfp

/-- **ONE STEP OF THE SERVER**. -/
theorem filesGuarded_step [DecidableEq C] [DecidableEq Ip]
    (past : List (Event C D)) (s : Server C Ip D) (e : Event C D)
    (s' : Server C Ip D) (h : FilesGuarded k initial dir past s)
    (hs : KvmServerLog.step k s e = some s') :
    FilesGuarded k initial dir (past ++ [e]) s' := by
  have hpaired := paired_kept hs
  -- a step that leaves the files alone
  have helse : Secure k.control initial s'.control → s'.files = s.files →
      FilesGuarded k initial dir (past ++ [e]) s' := by
    intro hsec hfiles
    refine ⟨hsec, ?_, ?_⟩
    · intro d
      rw [hfiles]
      exact (h.conns d).later hpaired e
    · rw [hfiles]
      exact h.fenced hpaired e
  cases e with
  | control a err =>
      simp only [KvmServerLog.step] at hs
      split at hs
      · obtain ⟨w, hw, rfl⟩ := Option.map_eq_some_iff.mp hs
        exact helse (secure_step s.control a w h.control hw) rfl
      · cases hs
  | file a =>
      obtain ⟨w, hw, rfl⟩ := Option.map_eq_some_iff.mp hs
      exact filesGuarded_file h hw
  | _ =>
      rw [← Option.some.inj hs] at helse ⊢
      exact helse h.control rfl

end Gate

/-- The peer has presented a fingerprint that was paired at the start, or for
    which some control connection has proved that it knows the PIN. -/
def Entitled {C Ip D : Type} (k : KvmServerLog.Settings C Ip D)
    (initial : List String) (events : List (Event C D)) (t : Server C Ip D)
    (d : D) : Prop :=
  ∃ nonce fp proof,
    Event.file (.request d (.pairRequest nonce fp proof)) ∈ events ∧
      (fp ∈ initial ∨ ∃ c, Proved k.control (t.control.conns c).received fp)

/-- **NO FILE WITHOUT THE PIN**: in every run of the server, with any number
    of connections on either channel in any interleaving, a name in the
    downloads directory that does not stand for what it stood for at the start
    is one that the server gives to an offer within the limit, from a peer
    that is entitled to it; and everyone else was answered with refusals
    only.  The directory is one of plain files, without links. -/
theorem no_file_without_pin {C Ip D : Type} [DecidableEq C] [DecidableEq Ip]
    [DecidableEq D] (k : KvmServerLog.Settings C Ip D) (initial : List String)
    (enabled : Bool) (dir : Dir Name) (events : List (Event C D))
    (t : Server C Ip D)
    (hrun : exec (KvmServerLog.step k)
      (Server.start C Ip D initial enabled dir) events = some t) :
    (∀ n, t.files.files.dir.entry n ≠ dir.entry n →
      ∃ d e id o, Entitled k initial events t d ∧
        Event.file (.offer d e) ∈ events ∧ offerOf e = some (id, o) ∧
        oversize k.files.maxFileSize o.size = false ∧ Uses o n) ∧
      ∀ d, Entitled k initial events t d ∨
        ∀ e ∈ (t.files.conns d).sent, ∃ why : Refusal, e = why.reply := by
  have hstart : FilesGuarded k initial dir []
      (Server.start C Ip D initial enabled dir) := by
    refine ⟨secure_start k.control initial enabled, ?_, fenced_start _ dir⟩
    intro d
    refine ⟨by rintro ⟨⟩, Or.inr ?_⟩
    intro e he
    exact absurd he List.not_mem_nil
  have h := history_reachable filesGuarded_step events [] _ t hstart hrun
  rw [List.nil_append] at h
  have hentitled : ∀ d, LetIn events t d → Entitled k initial events t d := by
    rintro d ⟨nonce, fp, proof, hreq, hfp⟩
    exact ⟨nonce, fp, proof, hreq, h.control.paired fp hfp⟩
  refine ⟨?_, fun d => (h.conns d).answers.imp (hentitled d) id⟩
  intro n hn
  obtain ⟨d, e, id, o, hin, hoffer, ho, hsize, huses⟩ :=
    not_imp_comm.mp (h.files.dir n) hn
  exact ⟨d, e, id, o, hentitled d hin, hoffer, ho, hsize, huses⟩

/-- A server without a limit that has paired nobody yet. -/
def desk : KvmServerLog.Settings Unit Unit Unit where
  control := KvmControl.settings
  files := KvmFileChannel.settingsA
  peerIp := fun _ => ()
  peerAddr := fun _ => "10.0.0.7:50000".toList
  ipText := fun _ => "10.0.0.7".toList
  debug := fun _ => "FileAccept { .. }".toList

/-- The device `AA` pairs with the PIN and offers a file `a`, up to the
    creation of the `.part` file. -/
def pairAndOffer : List (Event Unit Unit) :=
  let advance : Event Unit Unit := .control (.advance ()) none
  [.control (.receive () (.hello "laptop" PROTOCOL_VERSION
      ⟨true, true, false⟩)) none,
    advance,
    .control (.receive () (.pairRequest (Vector.replicate 16 0) "AA"
      KvmAuth.digest123456)) none,
    advance, advance, advance, advance,
    .file (.request () (.pairRequest (Vector.replicate 16 0) "AA"
      (Vector.replicate 32 0))),
    .file (.reply ()),
    .file (.offer () (.fileOffer ⟨Vector.replicate 16 0⟩ "a" 1
      (Vector.replicate 32 0))),
    .file (.advance () []), .file (.advance () [])]

theorem no_file_without_pin_offer :
    ∃ t, exec (KvmServerLog.step desk)
        (Server.start Unit Unit Unit [] false Dir.empty) pairAndOffer
        = some t ∧
      t.files.files.dir.exists "a.part".toList = true ∧
      Entitled desk [] pairAndOffer t () := by
  obtain ⟨t, hrun⟩ := Option.isSome_iff_exists.mp
    (show (exec (KvmServerLog.step desk)
      (Server.start Unit Unit Unit [] false Dir.empty)
        pairAndOffer).isSome = true by decide)
  have hend : (exec (KvmServerLog.step desk)
      (Server.start Unit Unit Unit [] false Dir.empty) pairAndOffer).map
        (fun t => t.files.files.dir.exists "a.part".toList)
      = some true := by decide
  rw [hrun] at hend
  have hpart : t.files.files.dir.exists "a.part".toList = true :=
    Option.some.inj hend
  have hnew : t.files.files.dir.entry "a.part".toList
      ≠ (Dir.empty : Dir Name).entry "a.part".toList := by
    intro hsame
    have hnone := exists_eq_false.mpr hsame
    rw [hpart] at hnone
    cases hnone
  obtain ⟨d, e, id, o, hentitled, -⟩ := (no_file_without_pin desk [] false
    Dir.empty pairAndOffer t hrun).1 "a.part".toList hnew
  exact ⟨t, hrun, hpart, hentitled⟩

end KvmFileGuard
