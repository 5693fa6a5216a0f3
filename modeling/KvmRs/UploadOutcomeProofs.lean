import KvmRs.UploadProofs

/-! # How an upload ends

    Every step of an upload keeps `Agree` and takes something away from what
    is left to do, so every run comes to an end, however the reads are split
    and the sides interleave.  It ends the way the `.part` file that was there
    before decides, unless the client goes to wait for the verdict while its
    TLS stream holds bytes back (`Drained`): nothing writes them any more, so
    that the server waits for them and the client for the server. -/

namespace KvmUploadOutcome

open Directory KvmFileName KvmUpload
open KvmTransfer hiding Action step advance
open Transition

section Runs

variable {u : Upload} {d : Dir Name} {s s' : State}

/-- **ONE STEP**: every step of either side keeps the two sides in agreement
    and leaves less to do. -/
theorem next_step (hp : Permitted u d) (a : Action) (h : Agree u d s)
    (hs : step u s a = some s') : Next u d s s' := by
  cases a with
  | pair => exact next_pair hp h hs
  | hash n => exact next_hash hp h hs
  | readAnswer => exact next_readAnswer h hs
  | send n kept => exact next_send h hs
  | readVerdict => exact next_readVerdict h hs
  | receive n => exact next_receive h hs
  | endOfData => exact next_endOfData h hs
  | rehash n => exact next_rehash hp h hs
  | advance =>
      cases hph : (s.server.transfers ()).phase with
      | checking => exact next_checking h hph hs
      | sizing => exact next_sizing h hph hs
      | resuming offset => exact next_resuming h hph hs
      | creating => exact next_creating h hph hs
      | removing => exact next_removing h hph hs
      | verifying => exact next_verifying h hph hs
      | choosing k => exact next_choosing h hph hs
      | promoting dest => exact next_promoting h hph hs
      | completing dest replaced => exact next_completing h hph hs
      | waiting =>
          simp only [step, KvmTransfer.advance, hph, Option.map_none,
            reduceCtorEq] at hs
      | receiving i mode received =>
          simp only [step, KvmTransfer.advance, hph, Option.map_none,
            reduceCtorEq] at hs
      | hashing i acc =>
          simp only [step, KvmTransfer.advance, hph, Option.map_none,
            reduceCtorEq] at hs
      | ended =>
          simp only [step, KvmTransfer.advance, hph, Option.map_none,
            reduceCtorEq] at hs

/-! ## There is always a next step -/

/-- The phases in which the server goes on by itself. -/
def advances : Phase → Bool
  | .waiting => false
  | .receiving _ _ _ => false
  | .hashing _ _ => false
  | .ended => false
  | _ => true

theorem advance_enabled (h : advances (s.server.transfers ()).phase = true) :
    ∃ a s', step u s a = some s' := by
  have hadv : ∃ w, KvmTransfer.advance s.server () = some w := by
    cases hph : (s.server.transfers ()).phase <;>
      simp only [hph, advances, reduceCtorEq] at h <;>
      simp only [KvmTransfer.advance, hph]
    case sizing => split <;> exact ⟨_, rfl⟩
    case resuming => split <;> exact ⟨_, rfl⟩
    case verifying => split <;> exact ⟨_, rfl⟩
    case promoting => split <;> exact ⟨_, rfl⟩
    all_goals exact ⟨_, rfl⟩
  obtain ⟨w, hw⟩ := hadv
  exact ⟨.advance, _, by rw [step, hw]; rfl⟩

theorem hash_enabled {acc : List UInt8} (hc : s.client = .hashing acc)
    (hw : (s.server.transfers ()).phase = .waiting) :
    ∃ a s', step u s a = some s' := by
  refine ⟨.hash 1, ?_⟩
  simp only [step, hc]
  rw [if_pos (by decide)]
  split
  · exact ⟨_, rfl⟩
  · simp only [KvmTransfer.step, hw]
    exact ⟨_, rfl⟩

/-- The client sends, and as much as it likes is held back. -/
theorem send_enabled {n kept : Nat} (hc : s.client = .sending n)
    (hkept : kept ≤ BUFFER_LIMIT) :
    ∃ s', step u s (.send 1 kept) = some s' := by
  simp only [step, hc]
  rw [if_pos ⟨Nat.one_pos, by decide, hkept⟩]
  split <;> exact ⟨_, rfl⟩

/-- While something is missing it is on the stream, for all of it has gone to
    the socket. -/
theorem receive_enabled (h : Agree u d s)
    (hall : s.wired u d = u.file.length) {i received : Nat}
    {mode : WriteMode}
    (hph : (s.server.transfers ()).phase = .receiving i mode received) :
    ∃ a s', step u s a = some s' := by
  have hsrv := h.server
  simp only [ServerOk, hph] at hsrv
  obtain ⟨hholds, -, hle, -, hstream, -⟩ := hsrv
  have hsize : s.size = u.file.length := by
    rw [State.size, hholds.offer]
    rfl
  rw [hall] at hle hstream
  by_cases hdone : received = u.file.length
  · -- an empty file: there is nothing to wait for
    refine ⟨.endOfData, ?_⟩
    simp only [step, State.phase, hph, KvmTransfer.step]
    rw [if_pos (Or.inl (hdone.trans hsize.symm))]
    exact ⟨_, rfl⟩
  · refine ⟨.receive 1, ?_⟩
    have hlen : (s.available 1 received).length = 1 := by
      rw [State.available, hstream, hsize, List.length_take, List.length_take,
        List.length_drop]
      omega
    have hb : s.available 1 received ≠ [] ∧
        (s.available 1 received).length ≤ CHUNK_SIZE ∧
        received + (s.available 1 received).length
          ≤ (s.server.transfers ()).offer.size := by
      refine ⟨?_, ?_, ?_⟩
      · intro hnil
        rw [hnil] at hlen
        cases hlen
      · rw [hlen]
        decide
      · rw [hlen, show (s.server.transfers ()).offer.size = s.size from rfl,
          hsize]
        omega
    simp only [step, State.phase, hph, KvmTransfer.step]
    rw [if_pos (by decide), if_pos hb]
    exact ⟨_, rfl⟩

theorem rehash_enabled {i : Nat} {acc : List UInt8}
    (hph : (s.server.transfers ()).phase = .hashing i acc) :
    ∃ a s', step u s a = some s' := by
  refine ⟨.rehash 1, ?_⟩
  simp only [step, KvmTransfer.step, hph]
  rw [if_pos (by decide)]
  exact ⟨_, rfl⟩

/-- The client waits for an answer, and there is one or the server works on
    it. -/
theorem answer_enabled (h : Agree u d s) (hc : s.client = .offered) :
    ∃ a s', step u s a = some s' := by
  have hcl := h.client
  have hsrv := h.server
  simp only [ClientOk, hc] at hcl
  cases hr : s.replies with
  | cons r rest => exact ⟨.readAnswer, _, by simp only [step, hc, hr]; rfl⟩
  | nil =>
      refine advance_enabled ?_
      simp only [ServerOk, hr] at hsrv
      cases hph : (s.server.transfers ()).phase <;> simp only [hph] at hsrv
      case waiting => exact absurd hph hcl
      case checking => rfl
      case sizing => rfl
      case resuming => rfl
      case creating => rfl
      case receiving => cases hsrv.2.2.2.2.2
      case ended =>
          rcases hsrv.2 with ⟨hx, -⟩ | ⟨⟨reason, hx⟩, -⟩ <;> cases hx
      all_goals cases hsrv.1.replies

/-- The client waits for the last word with nothing held back, and there is
    one or the server works on it. -/
theorem verdict_enabled (h : Agree u d s) (hc : s.client = .awaiting)
    (hclear : s.held = []) : ∃ a s', step u s a = some s' := by
  have hcl := h.client
  have hsrv := h.server
  simp only [ClientOk, hc] at hcl
  have hread : ∀ a b, s.replies = [a, b] → ∃ a s', step u s a = some s' := by
    intro a b hr
    exact ⟨.readVerdict, _, by simp only [step, hc, hr]; rfl⟩
  simp only [ServerOk] at hsrv
  cases hph : (s.server.transfers ()).phase <;> simp only [hph] at hsrv
  case waiting => exact absurd hsrv.2.2 hcl
  case checking => exact absurd hsrv.replies hcl
  case sizing => exact absurd hsrv.1.replies hcl
  case resuming => exact absurd hsrv.1.replies hcl
  case creating => exact absurd hsrv.1.replies hcl
  case receiving =>
      refine receive_enabled h ?_ hph
      rw [State.wired, hc, hclear]
      rfl
  case hashing => exact rehash_enabled hph
  case ended =>
      rcases hsrv.2 with ⟨hr, -⟩ | ⟨⟨reason, hr⟩, -⟩
      · exact hread _ _ hr
      · exact hread _ _ hr
  all_goals exact advance_enabled (by rw [hph]; rfl)

/-- **NO DEADLOCK**: until `send_file` has returned, one side has a step,
    unless the client waits while bytes are held back. -/
theorem step_enabled (h : Agree u d s)
    (hclear : s.client = .awaiting → s.held = [])
    (hrun : s.client.returned = false) : ∃ a s', step u s a = some s' := by
  have hcl := h.client
  cases hc : s.client with
  | pairing => exact ⟨.pair, _, by simp only [step, hc]; rfl⟩
  | hashing acc =>
      simp only [ClientOk, hc] at hcl
      exact hash_enabled hc hcl.1
  | offered => exact answer_enabled h hc
  | sending n => exact ⟨_, send_enabled hc (Nat.zero_le _)⟩
  | awaiting => exact verdict_enabled h hc (hclear hc)
  | done =>
      rw [hc] at hrun
      cases hrun
  | failed msg =>
      rw [hc] at hrun
      cases hrun

/-! ## What is held back -/

/-- The client's next read finds the end of the file. -/
def atEnd (u : Upload) (s : State) : Action → Bool
  | .send _ _ =>
      match s.client with
      | .sending sentBytes => decide (u.file.length ≤ sentBytes)
      | _ => false
  | _ => false

/-- When the client finds the end of the file, its TLS stream holds nothing
    back. -/
def Drained (u : Upload) (s : State) (a : Action) : Prop :=
  atEnd u s a = true → s.held = []

instance drainedDecidable (u : Upload) (s : State) (a : Action) :
    Decidable (Drained u s a) :=
  inferInstanceAs (Decidable (atEnd u s a = true → s.held = []))

/-- The client waits for the verdict, and what the server waits for is held
    back. -/
def Stranded (s : State) : Prop := s.client = .awaiting ∧ s.held ≠ []

/-- A step that is not the client's leaves it as it is. -/
theorem server_client {a : Action} (ha : ofClient a = false)
    (hs : step u s a = some s') : s'.client = s.client ∧ s'.held = s.held := by
  cases a with
  | advance =>
      obtain ⟨w, -, rfl⟩ := Option.map_eq_some_iff.mp hs
      exact ⟨rfl, rfl⟩
  | receive n =>
      simp only [step] at hs
      split at hs
      · split at hs
        · obtain ⟨w, -, rfl⟩ := Option.map_eq_some_iff.mp hs
          exact ⟨rfl, rfl⟩
        · cases hs
      · cases hs
  | endOfData =>
      simp only [step] at hs
      split at hs
      · split at hs
        · obtain ⟨w, -, rfl⟩ := Option.map_eq_some_iff.mp hs
          exact ⟨rfl, rfl⟩
        · cases hs
      · cases hs
  | rehash n =>
      obtain ⟨w, -, rfl⟩ := Option.map_eq_some_iff.mp hs
      exact ⟨rfl, rfl⟩
  | pair => cases ha
  | hash n => cases ha
  | readAnswer => cases ha
  | send n kept => cases ha
  | readVerdict => cases ha

/-- `send_file` takes no step once it has returned. -/
theorem returned_server (hret : s.client.returned = true) {a : Action}
    (hs : step u s a = some s') : ofClient a = false := by
  have hno : ∀ c, s.client = c → c.returned = false → False := by
    intro c hc hfalse
    rw [hc, hfalse] at hret
    cases hret
  cases a with
  | pair => exact (hno _ (pair_cases hs).1 rfl).elim
  | hash n =>
      obtain ⟨acc, bs, hc, -⟩ := hash_cases hs
      exact (hno _ hc rfl).elim
  | readAnswer =>
      obtain ⟨r, hc, -⟩ := readAnswer_cases hs
      exact (hno _ hc rfl).elim
  | send n kept =>
      obtain ⟨sentBytes, bs, hc, -⟩ := send_cases hs
      exact (hno _ hc rfl).elim
  | readVerdict =>
      obtain ⟨r, hc, -⟩ := readVerdict_cases hs
      exact (hno _ hc rfl).elim
  | _ => rfl

/-- A stranded client stays so: the server has no last word while something
    is missing. -/
theorem stranded_step {a : Action} (h : Agree u d s) (hst : Stranded s)
    (hs : step u s a = some s') : Stranded s' := by
  obtain ⟨hc, hheld⟩ := hst
  cases ha : ofClient a with
  | false =>
      obtain ⟨hclient, hsame⟩ := server_client ha hs
      exact ⟨hclient.trans hc, hsame ▸ hheld⟩
  | true =>
      cases a with
      | readVerdict =>
          have hsrv := h.server
          obtain ⟨r, -, hr, -⟩ := readVerdict_cases hs
          rcases hsrv.replies_cases with hx | hx | hx | ⟨reason, hx⟩
          · rw [hx] at hr
            cases hr
          · rw [hx] at hr
            cases hr
          all_goals
            rw [hx] at hsrv
            have hph := hsrv.ended_of_two
            simp only [ServerOk, hph] at hsrv
            exact absurd (h.held_nil hsrv.1) hheld
      | pair => cases hc.symm.trans (pair_cases hs).1
      | hash n =>
          obtain ⟨acc, bs, hno, -⟩ := hash_cases hs
          cases hc.symm.trans hno
      | readAnswer =>
          obtain ⟨r, hno, -⟩ := readAnswer_cases hs
          cases hc.symm.trans hno
      | send n kept =>
          obtain ⟨sentBytes, bs, hno, -⟩ := send_cases hs
          cases hc.symm.trans hno
      | _ => cases ha

/-- The client goes on to wait at the end of the file, and only there. -/
theorem awaiting_step {a : Action} (hs : step u s a = some s')
    (hc : s'.client = .awaiting) :
    s'.held = s.held ∧ (s.client = .awaiting ∨ atEnd u s a = true) := by
  cases ha : ofClient a with
  | false =>
      obtain ⟨hclient, hheld⟩ := server_client ha hs
      exact ⟨hheld, Or.inl (hclient ▸ hc)⟩
  | true =>
      cases a with
      | pair =>
          obtain ⟨-, rfl⟩ := pair_cases hs
          simp only [onPairReply] at hc
          split at hc <;> cases hc
      | hash n =>
          obtain ⟨acc, bs, -, -, -, ⟨-, rfl⟩ | ⟨-, w, -, rfl⟩⟩ := hash_cases hs
          · cases hc
          · cases hc
      | readAnswer =>
          obtain ⟨r, -, -, rfl⟩ := readAnswer_cases hs
          cases r <;> cases hc
      | send n kept =>
          obtain ⟨sentBytes, bs, hwas, -, ⟨-, rfl⟩ | ⟨-, hend, rfl⟩⟩ :=
            send_cases hs
          · cases hc
          · refine ⟨rfl, Or.inr ?_⟩
            simp only [atEnd, hwas, decide_eq_true_eq]
            exact hend
      | readVerdict =>
          obtain ⟨r, -, -, rfl⟩ := readVerdict_cases hs
          cases r <;> cases hc
      | _ => cases ha

/-- What a client finds at the end of the file strands it. -/
theorem stranded_of_atEnd {a : Action} (hend : atEnd u s a = true)
    (hheld : s.held ≠ []) (hs : step u s a = some s') : Stranded s' := by
  cases a with
  | send n kept =>
      obtain ⟨sentBytes, bs, hc, hbs, ⟨hne, -⟩ | ⟨-, -, rfl⟩⟩ := send_cases hs
      · simp only [atEnd, hc, decide_eq_true_eq] at hend
        rw [List.drop_eq_nil_of_le hend, List.take_nil] at hbs
        exact absurd hbs.symm hne
      · exact ⟨rfl, hheld⟩
  | _ => cases hend

end Runs

/-! ## The outcome -/

/-- A run that has come to its end: neither side has a step to take. -/
structure Finished (u : Upload) (d : Dir Name) (acts : List Action)
    (s : State) : Prop where
  run : exec (step u) (start d) acts = some s
  stuck : ∀ a, step u s a = none

/-- Every run comes to its end: none is longer than what there is to do. -/
def Ends (u : Upload) (d : Dir Name) : Prop :=
  ∀ acts s, exec (step u) (start d) acts = some s →
    acts.length ≤ (start d).work u d

/-- `send_file` has returned on a `FileComplete`, and the file is at a path
    that was free. -/
def Completed (u : Upload) (d : Dir Name) (s : State) : Prop :=
  s.client = .done ∧ s.replies.getLast? = some .fileComplete ∧
    Stored u d s.server.dir

/-- `send_file` has failed on a `FileReject`, and the `.part` file is gone. -/
def Refused (u : Upload) (s : State) : Prop :=
  (∃ msg, s.client = .failed msg) ∧
    (∃ reason, s.replies.getLast? = some (.fileReject reason)) ∧
    s.server.dir.read u.part = none

/-- Whatever the reads and the interleaving, the attempt ends, and the file is
    stored exactly if nothing is held back at the end of it. -/
def Completes (u : Upload) (d : Dir Name) : Prop :=
  Ends u d ∧ ∀ acts s, Finished u d acts s →
    (Completed u d s ↔ Guarded (step u) (Drained u) (start d) acts)

/-- The same upload tried once more, with fresh random bytes. -/
def again (u : Upload) (nonce : Vector UInt8 16) : Upload :=
  { u with nonce := nonce }

/-- The attempt has completed, or it was refused and an immediate second one
    completes; and only a `.part` file that was shorter than the file and no
    prefix of it has made it fail. -/
def Settled (u : Upload) (d : Dir Name) (s : State) : Prop :=
  (Completed u d s ∨
    (Refused u s ∧ ∀ nonce, Completes (again u nonce) s.server.dir)) ∧
  (¬ Completed u d s → ∃ old, d.read u.part = some old ∧
    old.length < u.file.length ∧ ¬ old <+: u.file)

/-- Whatever the reads and the interleaving, the attempt ends, and it is
    settled exactly if nothing is held back at the end of the file. -/
def EndToEnd (u : Upload) (d : Dir Name) : Prop :=
  Ends u d ∧ ∀ acts s, Finished u d acts s →
    (Settled u d s ↔ Guarded (step u) (Drained u) (start d) acts)

section Outcome

variable {u : Upload} {d : Dir Name} {acts : List Action} {s : State}

theorem agree_exec (hp : Permitted u d)
    (hrun : exec (step u) (start d) acts = some s) : Agree u d s :=
  invariant_reachable (fun _ a _ h hs => (next_step hp a h hs).1) acts _ s
    (agree_start u d) hrun

theorem ends_of_permitted (hp : Permitted u d) : Ends u d := by
  intro acts s hrun
  have hlen := exec_length_le (fun _ a _ h hs => next_step hp a h hs) acts _ s
    (agree_start u d) hrun
  omega

/-- **THE TAIL DECIDES**: a run that has come to its end has brought
    `send_file` back exactly if nothing was held back at the end of the
    file. -/
theorem returned_iff_drained (hp : Permitted u d) (hfin : Finished u d acts s) :
    s.client.returned = true ↔
      Guarded (step u) (Drained u) (start d) acts := by
  constructor
  · intro hret
    refine (guarded_of_last (P := fun s => ¬ Stranded s)
      (fun s a s' h hs => (next_step hp a h hs).1) ?_ acts _ s (agree_start u d)
      hfin.run ?_).2
    · intro s a s' h hs hnot
      refine ⟨fun hst => hnot (stranded_step h hst hs), ?_⟩
      intro hend
      by_contra hheld
      exact hnot (stranded_of_atEnd hend hheld hs)
    · rintro ⟨hc, -⟩
      rw [hc] at hret
      cases hret
  · intro hdrained
    have hstep : ∀ s a s', Agree u d s ∧ (s.client = .awaiting → s.held = []) →
        Drained u s a → step u s a = some s' →
        Agree u d s' ∧ (s'.client = .awaiting → s'.held = []) := by
      rintro s a s' ⟨h, hclear⟩ hok hs
      refine ⟨(next_step hp a h hs).1, ?_⟩
      intro hc
      obtain ⟨hsame, hwas | hend⟩ := awaiting_step hs hc
      · exact hsame.trans (hclear hwas)
      · exact hsame.trans (hok hend)
    obtain ⟨h, hclear⟩ := invariant_exec hstep acts _ s
      ⟨agree_start u d, fun _ => rfl⟩ hdrained hfin.run
    by_contra hno
    obtain ⟨a, s', hs⟩ := step_enabled h hclear (Bool.not_eq_true _ ▸ hno)
    rw [hfin.stuck a] at hs
    cases hs

/-- What was kept and is no prefix of the file is a shorter `.part` file. -/
theorem shorter_of_kept (h : ¬ u.kept d <+: u.file) :
    ∃ old, d.read u.part = some old ∧ old.length < u.file.length ∧
      ¬ old <+: u.file := by
  rw [Upload.kept] at h
  split at h
  · rename_i old hold
    split at h
    · rename_i hlt
      exact ⟨old, hold, hlt, h⟩
    · exact absurd List.nil_prefix h
  · exact absurd List.nil_prefix h

/-- The two ways an attempt can have ended. -/
theorem outcome_cases (h : Agree u d s) (hret : s.client.returned = true) :
    Completed u d s ∨ (Refused u s ∧ ¬ u.kept d <+: u.file) := by
  have hcl := h.client
  have hsrv := h.server
  cases hc : s.client with
  | done =>
      simp only [ClientOk, hc] at hcl
      -- the server has had its last word, and it was `FileComplete`
      rw [hcl] at hsrv
      have hph := hsrv.ended_of_two
      simp only [ServerOk, hph] at hsrv
      rcases hsrv.2 with ⟨-, hstored, -⟩ | ⟨⟨reason, hr⟩, -⟩
      · exact Or.inl ⟨hc, by rw [hcl]; rfl, hstored⟩
      · cases hr
  | failed msg =>
      simp only [ClientOk, hc] at hcl
      obtain ⟨reason, hcl⟩ := hcl
      rw [hcl] at hsrv
      have hph := hsrv.ended_of_two
      simp only [ServerOk, hph] at hsrv
      rcases hsrv.2 with ⟨hr, -⟩ | ⟨-, hgone, hfile⟩
      · cases hr
      · refine Or.inr ⟨⟨⟨msg, hc⟩, ⟨reason, by rw [hcl]; rfl⟩, hgone⟩, ?_⟩
        exact fun hpre => hfile (assembled_eq_iff.mpr hpre)
  | pairing => rw [hc] at hret; cases hret
  | hashing acc => rw [hc] at hret; cases hret
  | offered => rw [hc] at hret; cases hret
  | sending n => rw [hc] at hret; cases hret
  | awaiting => rw [hc] at hret; cases hret

/-- Once `send_file` has returned, the server has too. -/
theorem stuck_of_returned (h : Agree u d s)
    (hret : s.client.returned = true) (a : Action) : step u s a = none := by
  have hended : s.phase = .ended := by
    have hcl := h.client
    have hsrv := h.server
    cases hc : s.client <;> simp only [ClientOk, hc] at hcl <;>
      rw [hc] at hret
    case done =>
        rw [hcl] at hsrv
        exact hsrv.ended_of_two
    case failed =>
        obtain ⟨reason, hcl⟩ := hcl
        rw [hcl] at hsrv
        exact hsrv.ended_of_two
    all_goals cases hret
  rw [State.phase] at hended
  cases ha : ofClient a with
  | false =>
      cases a <;> simp only [ofClient, reduceCtorEq] at ha <;>
        simp only [step, State.phase, KvmTransfer.advance, KvmTransfer.step,
          hended, Option.map_none]
  | true =>
      by_contra hne
      obtain ⟨s', hs⟩ := Option.ne_none_iff_exists'.mp hne
      exact Bool.false_ne_true ((returned_server hret hs).symm.trans ha)

theorem Completed.returned (h : Completed u d s) :
    s.client.returned = true := by
  rw [h.1]
  rfl

theorem Refused.returned (h : Refused u s) : s.client.returned = true := by
  obtain ⟨msg, hc⟩ := h.1
  rw [hc]
  rfl

/-- An attempt that keeps nothing but a prefix completes. -/
theorem completes_of_prefix (hp : Permitted u d)
    (hpre : u.kept d <+: u.file) : Completes u d := by
  refine ⟨ends_of_permitted hp, ?_⟩
  intro acts s hfin
  rw [← returned_iff_drained hp hfin]
  refine ⟨Completed.returned, fun hret => ?_⟩
  rcases outcome_cases (agree_exec hp hfin.run) hret with h | ⟨-, hno⟩
  · exact h
  · exact absurd hpre hno

/-- Without a `.part` file an attempt completes, whatever the nonce. -/
theorem again_completes (hp : Permitted u d) {d' : Dir Name}
    (hgone : d'.read u.part = none) (nonce : Vector UInt8 16) :
    Completes (again u nonce) d' := by
  have hkept : (again u nonce).kept d' = [] := by
    rw [Upload.kept]
    rw [show (again u nonce).part = u.part from rfl, hgone]
  have hpre : (again u nonce).kept d'
      <+: (again u nonce).file := by
    rw [hkept]
    exact List.nil_prefix
  -- what is assembled from nothing is the file, so no digest can mislead
  refine completes_of_prefix ⟨hp.paired, hp.size, fun _ => ?_⟩ hpre
  exact assembled_eq_iff.mpr hpre

/-! ## It can always happen -/

/-- The client has not come to the end of the file, or holds something
    back. -/
def Lagging (u : Upload) (s : State) : Prop :=
  match s.client with
  | .sending sentBytes => sentBytes < u.file.length ∨ s.held ≠ []
  | .awaiting => s.held ≠ []
  | .done => False
  | .failed _ => False
  | _ => True

/-- Every step keeps it that does not give the socket everything. -/
theorem lagging_step (hp : Permitted u d)
    (hleft : (u.kept d).length < u.file.length) {a : Action} {s' : State}
    (h : Agree u d s) (hlag : Lagging u s)
    (hkeep : ∀ n kept, a = .send n kept → 0 < kept)
    (hs : step u s a = some s') : Lagging u s' := by
  cases ha : ofClient a with
  | false =>
      obtain ⟨hclient, hheld⟩ := server_client ha hs
      simp only [Lagging, hclient, hheld]
      exact hlag
  | true =>
      cases a with
      | pair =>
          obtain ⟨-, rfl⟩ := pair_cases hs
          rw [onPairReply_paired hp]
          trivial
      | hash n =>
          obtain ⟨acc, bs, -, -, -, ⟨-, rfl⟩ | ⟨-, w, -, rfl⟩⟩ := hash_cases hs
          · trivial
          · trivial
      | readAnswer =>
          obtain ⟨r, -, hr, rfl⟩ := readAnswer_cases hs
          rw [h.server.answer hr]
          exact Or.inl hleft
      | send n kept =>
          have hpos := hkeep n kept rfl
          obtain ⟨sentBytes, bs, hc, -, ⟨hne, rfl⟩ | ⟨-, hend, rfl⟩⟩ :=
            send_cases hs
          · -- the last byte that was given stays behind
            have hlen := List.length_pos_of_ne_nil hne
            refine Or.inr fun hnil => ?_
            have hle := List.drop_eq_nil_iff.mp hnil
            rw [List.length_append] at hle
            omega
          · simp only [Lagging, hc] at hlag
            exact hlag.resolve_left (Nat.not_lt.mpr hend)
      | readVerdict =>
          obtain ⟨r, hc, -, -⟩ := readVerdict_cases hs
          simp only [Lagging, hc] at hlag
          obtain ⟨hstill, hheld⟩ := stranded_step h ⟨hc, hlag⟩ hs
          simp only [Lagging, hstill]
          exact hheld
      | _ => cases ha

/-- A schedule that holds the last byte of every read back. -/
theorem lagging_goes_on (hp : Permitted u d)
    (hleft : (u.kept d).length < u.file.length)
    (h : Agree u d s ∧ Lagging u s) :
    (∀ a, step u s a = none) ∨
      ∃ a s', step u s a = some s' ∧ Agree u d s' ∧ Lagging u s' := by
  by_cases hstuck : ∀ a, step u s a = none
  · exact Or.inl hstuck
  · refine Or.inr ?_
    have hgo : ∀ a s', (∀ n kept, a = .send n kept → 0 < kept) →
        step u s a = some s' →
        ∃ a s', step u s a = some s' ∧ Agree u d s' ∧ Lagging u s' := by
      intro a s' hkeep hs
      exact ⟨a, s', hs, (next_step hp a h.1 hs).1,
        lagging_step hp hleft h.1 h.2 hkeep hs⟩
    by_cases hsend : ∃ n, s.client = .sending n
    · obtain ⟨n, hc⟩ := hsend
      obtain ⟨s', hs⟩ := @send_enabled u s n 1 hc (by decide)
      refine hgo _ s' ?_ hs
      rintro n kept ⟨⟩
      exact Nat.one_pos
    · obtain ⟨a, hne⟩ := not_forall.mp hstuck
      obtain ⟨s', hs⟩ := Option.ne_none_iff_exists'.mp hne
      refine hgo a s' ?_ hs
      rintro n kept rfl
      obtain ⟨sentBytes, bs, hc, -⟩ := send_cases hs
      exact absurd ⟨sentBytes, hc⟩ hsend

/-- **ANY UPLOAD CAN HANG**: whatever the file, if it has any bytes, there is
    a run after which neither side has a step to take and the client waits for
    the verdict. -/
theorem exists_hanging (hp : Permitted u d) (hne : u.file ≠ []) :
    ∃ acts s, Finished u d acts s ∧ Stranded s := by
  obtain ⟨acts, s, hrun, ⟨h, hlag⟩, hstuck⟩ := exists_stuck
    (fun s a s' (h : Agree u d s ∧ Lagging u s) hs =>
      (next_step hp a h.1 hs).2)
    (fun _ => lagging_goes_on hp (kept_length_lt hne)) (start d)
    ⟨agree_start u d, trivial⟩
  refine ⟨acts, s, ⟨hrun, hstuck⟩, ?_⟩
  cases hc : s.client with
  | awaiting =>
      simp only [Lagging, hc] at hlag
      exact ⟨hc, hlag⟩
  | done => simp only [Lagging, hc] at hlag
  | failed msg => simp only [Lagging, hc] at hlag
  | _ =>
      -- anywhere else the client is not waiting, so there is a next step
      obtain ⟨a, s', hs⟩ := step_enabled h
        (fun hw => Client.noConfusion (hc.symm.trans hw)) (by rw [hc]; rfl)
      rw [hstuck a] at hs
      cases hs

end Outcome

/-- **AN UPLOAD, END TO END**: for every file, every directory with any
    `.part` file in it or none, every splitting of the reads and every
    interleaving, a paired client's upload of a permitted size ends.  Exactly
    if nothing is held back when the client comes to the end of its file, it
    completes at a path that was free, or is refused with the `.part` file
    removed and completes at the second attempt; and then only a `.part` file
    that was shorter than the file and no prefix of it is refused.  SHA-256
    need only tell the file from what the server has assembled. -/
theorem upload_end_to_end (u : Upload) (d : Dir Name)
    (hpaired : u.config.clientFingerprint u.sha256 ∈ u.paired)
    (hsize : u.maxFileSize = 0 ∨ u.file.length ≤ u.maxFileSize)
    (hsha : u.sha256 (u.assembled d) = u.sha256 u.file →
      u.assembled d = u.file) :
    EndToEnd u d := by
  have hp : Permitted u d := ⟨hpaired, hsize, hsha⟩
  refine ⟨ends_of_permitted hp, ?_⟩
  intro acts s hfin
  rw [← returned_iff_drained hp hfin]
  constructor
  · rintro ⟨hdone | ⟨hrefused, -⟩, -⟩
    · exact hdone.returned
    · exact hrefused.returned
  · intro hret
    rcases outcome_cases (agree_exec hp hfin.run) hret with h | ⟨hrefused, hno⟩
    · exact ⟨Or.inl h, fun hnot => absurd h hnot⟩
    · exact ⟨Or.inr ⟨hrefused, again_completes hp hrefused.2.2⟩,
        fun _ => shorter_of_kept hno⟩

/-! ## A stale `.part` file -/

/-- SHA-256 on what the run below hashes: no bytes, `"aa"`, `"ba"` and the
    proof of the client. -/
def sha256Stale (bytes : List UInt8) : Vector UInt8 32 :=
  if bytes = [] then
    #v[0xe3, 0xb0, 0xc4, 0x42, 0x98, 0xfc, 0x1c, 0x14, 0x9a, 0xfb, 0xf4, 0xc8,
      0x99, 0x6f, 0xb9, 0x24, 0x27, 0xae, 0x41, 0xe4, 0x64, 0x9b, 0x93, 0x4c,
      0xa4, 0x95, 0x99, 0x1b, 0x78, 0x52, 0xb8, 0x55]
  else if bytes = [0x61, 0x61] then
    #v[0x96, 0x1b, 0x6d, 0xd3, 0xed, 0xe3, 0xcb, 0x8e, 0xcb, 0xaa, 0xcb, 0xd6,
      0x8d, 0xe0, 0x40, 0xcd, 0x78, 0xeb, 0x2e, 0xd5, 0x88, 0x91, 0x30, 0xcc,
      0xeb, 0x4c, 0x49, 0x26, 0x8e, 0xa4, 0xd5, 0x06]
  else if bytes = [0x62, 0x61] then
    #v[0x97, 0x0f, 0x51, 0x9c, 0x2c, 0xad, 0xbc, 0xef, 0xb1, 0xe8, 0x16, 0x94,
      0xf9, 0x04, 0xbc, 0x62, 0x29, 0xdd, 0x2a, 0x83, 0x00, 0xe9, 0x8c, 0x6d,
      0x0d, 0x4f, 0xc4, 0xbf, 0xca, 0x58, 0x41, 0x40]
  else
    #v[0x47, 0xef, 0xda, 0x84, 0x19, 0xc3, 0xbe, 0xc6, 0xcf, 0x63, 0x63, 0x0b,
      0x8b, 0xbe, 0xd0, 0xcd, 0xdd, 0x83, 0xd3, 0x5d, 0xb2, 0x5c, 0x52, 0xfc,
      0x47, 0x79, 0xe6, 0x4a, 0x03, 0x59, 0x87, 0xe2]

/-- The file `a` with the bytes `"aa"`. -/
def staleUpload : Upload where
  sha256 := sha256Stale
  config := KvmClientConfig.Config.default
  nonce := Vector.replicate 16 0
  fileName := "a".toList
  file := [0x61, 0x61]
  paired := {KvmClientConfig.Config.default.clientFingerprint sha256Stale}
  maxFileSize := 0

/-- The directory has an `a.part` with the byte `"b"`. -/
def staleDir : Dir Name :=
  (Dir.empty.create "a.part".toList).1.append 0 [0x62]

def staleRun : List Action :=
  [.pair, .hash 1, .hash 9, .hash 1, .advance, .advance, .advance,
    .readAnswer, .send 8 0, .send 1 0, .receive 4, .advance, .rehash 2,
    .rehash 2, .advance, .readVerdict]

/-- The theorem at a stale `.part` file: with every byte on the wire the first
    attempt is refused, and a second one completes. -/
theorem upload_end_to_end_stale :
    EndToEnd staleUpload staleDir ∧
      ∃ s, exec (step staleUpload) (start staleDir) staleRun = some s ∧
        s.replies = [.fileAccept 1, .fileReject "Checksum mismatch".toList] ∧
        s.server.dir.read staleUpload.part = none ∧
        Completes staleUpload s.server.dir := by
  have hp : Permitted staleUpload staleDir :=
    ⟨Finset.mem_singleton_self _, Or.inl rfl, by decide⟩
  have h := upload_end_to_end staleUpload staleDir hp.paired hp.size
    hp.noCollision
  have hrun : (exec (step staleUpload) (start staleDir) staleRun).map
      (fun s => (s.client.returned, s.replies,
        s.server.dir.read staleUpload.part))
      = some (true, [.fileAccept 1,
          .fileReject "Checksum mismatch".toList], none) := by
    decide
  obtain ⟨s, hs, hv⟩ := Option.map_eq_some_iff.mp hrun
  obtain ⟨hret, hrest⟩ := Prod.mk.inj hv
  obtain ⟨hreplies, hgone⟩ := Prod.mk.inj hrest
  have hfin : Finished staleUpload staleDir staleRun s :=
    ⟨hs, stuck_of_returned (agree_exec hp hs) hret⟩
  refine ⟨h, s, hs, hreplies, hgone, ?_⟩
  rcases ((h.2 staleRun s hfin).mpr (by decide)).1 with
    ⟨-, hlast, -⟩ | ⟨-, hagain⟩
  · rw [hreplies] at hlast
    cases hlast
  · exact hagain (Vector.replicate 16 0)

/-! ## A tail that is held back -/

/-- 16 MiB, more than the sockets of both sides buffer. -/
def stalledFile : List UInt8 := List.replicate 16777216 0x61

/-- SHA-256 on it, and on the rest as before. -/
def sha256Stalled (bytes : List UInt8) : Vector UInt8 32 :=
  if bytes = stalledFile then
    #v[0x5b, 0x6f, 0xf2, 0xe1, 0x9d, 0x0d, 0xa0, 0xfe, 0x32, 0x30, 0x61,
      0x01, 0x8f, 0xc3, 0x81, 0x39, 0x34, 0x92, 0x88, 0x4e, 0x74, 0xaf, 0x82,
      0x96, 0xc8, 0x1a, 0xb9, 0xcb, 0x26, 0x94, 0x78, 0x3a]
  else sha256Stale bytes

/-- The same upload with the longer file. -/
def stalledUpload : Upload where
  sha256 := sha256Stalled
  config := KvmClientConfig.Config.default
  nonce := Vector.replicate 16 0
  fileName := "a".toList
  file := stalledFile
  paired := {KvmClientConfig.Config.default.clientFingerprint sha256Stalled}
  maxFileSize := 0

/-- **A HELD TAIL HANGS THE UPLOAD**: into an empty directory, with no I/O
    error anywhere, there is a run after which the client waits for the
    verdict, the server for the rest of the file, and neither can go on. -/
theorem held_tail_hangs :
    ∃ acts s, exec (step stalledUpload) (start Dir.empty) acts = some s ∧
      s.client = .awaiting ∧ s.held ≠ [] ∧
      (∀ a, step stalledUpload s a = none) ∧
      ¬ Settled stalledUpload Dir.empty s := by
  have hkept : stalledUpload.kept Dir.empty = [] := rfl
  have hp : Permitted stalledUpload Dir.empty := by
    refine ⟨Finset.mem_singleton_self _, Or.inl rfl, fun _ => ?_⟩
    rw [assembled_eq_iff, hkept]
    exact List.nil_prefix
  have hne : stalledUpload.file ≠ [] := List.cons_ne_nil _ _
  obtain ⟨acts, s, hfin, hc, hheld⟩ := exists_hanging hp hne
  refine ⟨acts, s, hfin.run, hc, hheld, hfin.stuck, ?_⟩
  rintro ⟨hdone | ⟨hrefused, -⟩, -⟩
  · have hret := hdone.returned
    rw [hc] at hret
    cases hret
  · have hret := hrefused.returned
    rw [hc] at hret
    cases hret

/-- With `"aa"`: both bytes are held back when the client goes to wait. -/
example :
    (exec (step staleUpload) (start Dir.empty)
      [.pair, .hash 2, .hash 1, .advance, .advance, .readAnswer, .send 2 2,
        .send 1 0]).map (fun s => (s.client, s.stream, s.held))
      = some (.awaiting, [], [0x61, 0x61]) := by
  decide

end KvmUploadOutcome
