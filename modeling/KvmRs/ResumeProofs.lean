import KvmRs.UploadOutcomeProofs

/-! # Interrupted uploads

    A connection that ends while the server receives ends in one of two ways:
    the read from the stream returns no bytes, or it returns an error.  The
    routine leaves through a different exit for each: the error is returned
    at once and the `.part` file stays, the empty read takes the branch that
    removes it.

    What a second attempt writes is followed through the run: together with
    what the client has not yet read it is always the rest of the file
    (`transferred_append`).  Whether all of it arrives is decided by the tail
    that its TLS stream may hold back (`Drained`). -/

namespace KvmResume

open Directory KvmFileName KvmUpload KvmUploadOutcome
open KvmTransfer hiding Action step advance
open Transition

/-- How a connection ends while the server receives. -/
inductive Ending where
  /-- A clean end of stream: the read returns no bytes. -/
  | endOfStream
  /-- The read returns an error. -/
  | readError
  deriving DecidableEq

/-- What the routine still does to the directory after the connection has
    ended; bytes it has not received by then are lost. -/
def interrupt (u : Upload) (w : World Unit) : Ending → Option (World Unit)
  | .endOfStream =>
      (KvmTransfer.step u.digest u.maxFileSize w (.endOfStream ())).bind
        fun w => KvmTransfer.advance w ()
  | .readError => KvmTransfer.step u.digest u.maxFileSize w (.abort ())

/-- What a step writes to the TLS stream. -/
def sentBy (u : Upload) (s : State) : Action → List UInt8
  | .send n _ =>
      match s.client with
      | .sending sentBytes => (u.file.drop sentBytes).take n
      | _ => []
  | _ => []

/-- What a run writes to it. -/
def transferred (u : Upload) : State → List Action → List UInt8
  | _, [] => []
  | s, a :: as =>
      match step u s a with
      | none => []
      | some s' => sentBy u s a ++ transferred u s' as

/-- The first `k` bytes of the file are in the `.part` file, and another
    attempt asks for the rest only: it comes to an end, is answered with the
    offset `k`, and writes nothing but the bytes behind it. -/
structure Resumes (u : Upload) (d : Dir Name) (k : Nat) : Prop where
  part : d.read u.part = some (u.file.take k)
  ends : ∀ nonce, Ends (again u nonce) d
  answer : ∀ nonce acts s,
    exec (step (again u nonce)) (start d) acts = some s →
      ∀ r ∈ s.replies.head?, r = .fileAccept k
  rest : ∀ nonce acts s,
    exec (step (again u nonce)) (start d) acts = some s →
      transferred (again u nonce) (start d) acts <+: u.file.drop k ∧
        (s.client = .done →
          s.replies = [.fileAccept k, .fileComplete] ∧
            transferred (again u nonce) (start d) acts = u.file.drop k)

/-! ## What goes over the stream -/

section Stream

variable {u : Upload} {d : Dir Name} {s s' : State}

/-- What a step sends is what lies between where the client was in the file
    and where it is afterwards. -/
theorem sentBy_append (hp : Permitted u d) (h : Agree u d s) {a : Action}
    (hs : step u s a = some s') :
    sentBy u s a ++ u.file.drop (s'.client.sentBytes u d)
      = u.file.drop (s.client.sentBytes u d) := by
  -- no step but `send` writes anything
  have hquiet : sentBy u s a = [] →
      s'.client.sentBytes u d = s.client.sentBytes u d →
      sentBy u s a ++ u.file.drop (s'.client.sentBytes u d)
        = u.file.drop (s.client.sentBytes u d) := by
    intro hnil hsame
    rw [hnil, hsame, List.nil_append]
  cases ha : ofClient a with
  | false =>
      refine hquiet ?_ (by rw [(server_client ha hs).1])
      cases a with
      | send n kept => cases ha
      | _ => rfl
  | true =>
      cases a with
      | pair =>
          obtain ⟨hc, rfl⟩ := pair_cases hs
          refine hquiet rfl ?_
          rw [onPairReply_paired hp, hc]
          rfl
      | hash n =>
          obtain ⟨acc, bs, hc, -, -, ⟨-, rfl⟩ | ⟨-, w, -, rfl⟩⟩ := hash_cases hs
          · exact hquiet rfl (by rw [hc]; rfl)
          · exact hquiet rfl (by rw [hc]; rfl)
      | readAnswer =>
          obtain ⟨r, hc, hr, rfl⟩ := readAnswer_cases hs
          refine hquiet rfl ?_
          rw [h.server.answer hr, hc]
          rfl
      | send n kept =>
          obtain ⟨sentBytes, bs, hc, hbs, ⟨-, rfl⟩ | ⟨hnil, hend, rfl⟩⟩ :=
            send_cases hs
          · simp only [sentBy, hc, hbs]
            show bs ++ u.file.drop (sentBytes + bs.length)
              = u.file.drop sentBytes
            rw [← List.drop_drop, ← hbs]
            exact List.prefix_iff_eq_append.mp (List.take_prefix _ _)
          · simp only [sentBy, hc, hbs, hnil, List.nil_append]
            show u.file.drop u.file.length = u.file.drop sentBytes
            rw [List.drop_length, List.drop_eq_nil_of_le hend]
      | readVerdict =>
          obtain ⟨r, hc, -, rfl⟩ := readVerdict_cases hs
          refine hquiet rfl ?_
          rw [hc]
          cases r <;> rfl
      | _ => cases ha

/-- Over a whole run: what was written, and what the client has yet to
    read. -/
theorem transferred_append (hp : Permitted u d) :
    ∀ (acts : List Action) (s s' : State), Agree u d s →
      exec (step u) s acts = some s' →
      transferred u s acts ++ u.file.drop (s'.client.sentBytes u d)
        = u.file.drop (s.client.sentBytes u d) := by
  intro acts
  induction acts with
  | nil =>
      intro s s' _ hrun
      rw [← Option.some.inj hrun]
      rfl
  | cons a acts ih =>
      intro s s' h hrun
      obtain ⟨s₁, hs₁, hrest⟩ := exec_cons hrun
      have hlater := ih s₁ s' (next_step hp a h hs₁).1 hrest
      simp only [transferred, hs₁]
      rw [List.append_assoc, hlater]
      exact sentBy_append hp h hs₁

end Stream

/-! ## What is left in the directory -/

section Interrupted

variable {u : Upload} {d : Dir Name} {s : State} {w : World Unit}
  {inode k : Nat} {mode : WriteMode}

/-- A `.part` file with a proper prefix of the file is kept. -/
theorem kept_of_part (hk : k < u.file.length) {d' : Dir Name}
    (hpart : d'.read u.part = some (u.file.take k)) (nonce : Vector UInt8 16) :
    (again u nonce).kept d' = u.file.take k := by
  rw [Upload.kept, show (again u nonce).part = u.part from rfl, hpart]
  refine if_pos ?_
  rw [List.length_take_of_le (Nat.le_of_lt hk)]
  exact hk

/-- With it another attempt is permitted: it assembles the file. -/
theorem permitted_again (hp : Permitted u d) {d' : Dir Name}
    (nonce : Vector UInt8 16)
    (hkept : (again u nonce).kept d' = u.file.take k) :
    Permitted (again u nonce) d' := by
  refine ⟨hp.paired, hp.size, fun _ => assembled_eq_iff.mpr ?_⟩
  rw [hkept]
  exact List.take_prefix k u.file

/-- A `.part` file with a proper prefix of the file resumes. -/
theorem resumes_of_part (hp : Permitted u d) (hk : k < u.file.length)
    {d' : Dir Name} (hpart : d'.read u.part = some (u.file.take k)) :
    Resumes u d' k := by
  have hlen : (u.file.take k).length = k :=
    List.length_take_of_le (Nat.le_of_lt hk)
  have hagain : ∀ nonce, Permitted (again u nonce) d' := fun nonce =>
    permitted_again hp nonce (kept_of_part hk hpart nonce)
  have hoffset : ∀ nonce, ((again u nonce).kept d').length = k := by
    intro nonce
    rw [kept_of_part hk hpart nonce, hlen]
  refine ⟨hpart, fun nonce => ends_of_permitted (hagain nonce), ?_, ?_⟩
  · intro nonce acts s' hrun r hr
    have hanswer := (agree_exec (hagain nonce) hrun).server.answer
      (List.head?_eq_getElem? ▸ hr)
    rw [hanswer, hoffset nonce]
  · intro nonce acts s' hrun
    have hsent := transferred_append (hagain nonce) acts _ _
      (agree_start (again u nonce) d') hrun
    have hfrom : (start d').client.sentBytes (again u nonce) d' = k :=
      hoffset nonce
    rw [hfrom] at hsent
    refine ⟨⟨_, hsent⟩, ?_⟩
    intro hdone
    have hcl := (agree_exec (hagain nonce) hrun).client
    simp only [ClientOk, hdone, hoffset nonce] at hcl
    refine ⟨hcl, ?_⟩
    have hend : u.file.drop (s'.client.sentBytes (again u nonce) d') = [] := by
      rw [hdone]
      exact List.drop_length
    rw [show (again u nonce).file = u.file from rfl, hend, List.append_nil]
      at hsent
    exact hsent

/-- And it completes unless a tail is held back. -/
theorem completes_of_part (hp : Permitted u d) (hk : k < u.file.length)
    {d' : Dir Name} (hpart : d'.read u.part = some (u.file.take k))
    (nonce : Vector UInt8 16) : Completes (again u nonce) d' := by
  have hkept := kept_of_part hk hpart nonce
  refine completes_of_prefix (permitted_again hp nonce hkept) ?_
  rw [hkept]
  exact List.take_prefix k u.file

/-- A fresh upload in the receiving loop has written what it received. -/
theorem part_of_receiving (h : Agree u d s) (hfresh : d.read u.part = none)
    (hph : s.phase = .receiving inode mode k) :
    s.server.dir.read u.part = some (u.file.take k) := by
  have hsrv := h.server
  rw [State.phase] at hph
  simp only [ServerOk, hph] at hsrv
  have hnil : u.kept d = [] := by
    rw [Upload.kept, hfresh]
  have hall : u.assembled d = u.file := by
    rw [assembled_eq_iff, hnil]
    exact List.nil_prefix
  rw [Dir.read, hsrv.1.entry, hall]
  rfl

/-- After an error the directory is left as it is. -/
theorem interrupt_readError (hph : s.phase = .receiving inode mode k)
    (hend : interrupt u s.server .readError = some w) :
    w.dir = s.server.dir := by
  rw [State.phase] at hph
  simp only [interrupt, KvmTransfer.step, hph] at hend
  rw [← Option.some.inj hend]
  rfl

/-- After an empty read the `.part` file is removed. -/
theorem interrupt_endOfStream (h : Agree u d s)
    (hph : s.phase = .receiving inode mode k) (hk : k < u.file.length)
    (hend : interrupt u s.server .endOfStream = some w) :
    w.dir.read u.part = none := by
  have hsrv := h.server
  rw [State.phase] at hph
  simp only [ServerOk, hph] at hsrv
  have hoffer := hsrv.1.offer
  have hshort : k ≠ u.offer.size := Nat.ne_of_lt hk
  simp only [interrupt, KvmTransfer.step, hph, hoffer, hshort, if_false,
    Option.bind_some, KvmTransfer.advance, goto_self] at hend
  rw [← Option.some.inj hend, Dir.read]
  show ((s.server.dir.remove u.part).entry u.part).map Prod.snd = none
  rw [entry_remove_self, Option.map_none]

end Interrupted

/-- **RESUMING AN UPLOAD**: for every file, every directory without a `.part`
    file of its name, every splitting of the reads and every interleaving, an
    upload that is cut after `k` of its bytes were received can be resumed
    there exactly if the connection ended with an error: a clean end of
    stream removes the `.part` file.  A second attempt resumes it and
    completes exactly if, besides, it holds nothing back at the end of the
    file. -/
theorem interrupted_upload_resumes (u : Upload) (d : Dir Name)
    (acts : List Action) (s : State) (inode k : Nat) (mode : WriteMode)
    (way : Ending) (w : World Unit)
    (hpaired : u.config.clientFingerprint u.sha256 ∈ u.paired)
    (hsize : u.maxFileSize = 0 ∨ u.file.length ≤ u.maxFileSize)
    (hfresh : d.read u.part = none)
    (hrun : exec (step u) (start d) acts = some s)
    (hcut : s.phase = .receiving inode mode k) (hk : k < u.file.length)
    (hend : interrupt u s.server way = some w) :
    (Resumes u w.dir k ↔ way = .readError) ∧
      ∀ nonce acts' s', Finished (again u nonce) w.dir acts' s' →
        (Resumes u w.dir k ∧ Completed (again u nonce) w.dir s' ↔
          way = .readError ∧ Guarded (step (again u nonce))
            (Drained (again u nonce)) (start w.dir) acts') := by
  have hnil : u.kept d = [] := by
    rw [Upload.kept, hfresh]
  have hp : Permitted u d := by
    refine ⟨hpaired, hsize, fun _ => assembled_eq_iff.mpr ?_⟩
    rw [hnil]
    exact List.nil_prefix
  have h := agree_exec hp hrun
  cases way with
  | endOfStream =>
      have hno : ¬ Resumes u w.dir k := by
        intro hres
        have hgone := interrupt_endOfStream h hcut hk hend
        rw [hres.part] at hgone
        cases hgone
      refine ⟨iff_of_false hno Ending.noConfusion, ?_⟩
      intro nonce acts' s' _
      exact iff_of_false (fun hres => hno hres.1)
        (fun hway => Ending.noConfusion hway.1)
  | readError =>
      have hpart : w.dir.read u.part = some (u.file.take k) := by
        rw [interrupt_readError hcut hend]
        exact part_of_receiving h hfresh hcut
      have hres := resumes_of_part hp hk hpart
      refine ⟨iff_of_true hres rfl, ?_⟩
      intro nonce acts' s' hfin
      rw [(completes_of_part hp hk hpart nonce).2 acts' s' hfin]
      exact ⟨fun hall => ⟨rfl, hall.2⟩, fun hall => ⟨hres, hall.2⟩⟩

/-! ## One byte of two -/

/-- The upload of `"aa"`, cut after the first byte. -/
def cutRun : List Action :=
  [.pair, .hash 2, .hash 1, .advance, .advance, .readAnswer, .send 1 0,
    .receive 1]

/-- The second attempt finds the byte there and sends the other one. -/
def resumedRun : List Action :=
  [.pair, .hash 2, .hash 1, .advance, .advance, .advance, .readAnswer,
    .send 8 0, .send 1 0, .receive 4, .advance, .rehash 2, .rehash 2,
    .advance, .advance, .advance, .readVerdict]

/-- After a read error the second attempt can go on where the first was cut,
    and this run of it completes. -/
theorem interrupted_upload_resumes_readError :
    ∃ s w, exec (step staleUpload) (start Dir.empty) cutRun = some s ∧
      interrupt staleUpload s.server .readError = some w ∧
      Resumes staleUpload w.dir 1 ∧
      ∃ s', exec (step staleUpload) (start w.dir) resumedRun = some s' ∧
        Completed staleUpload w.dir s' ∧
        transferred staleUpload (start w.dir) resumedRun = [0x61] := by
  refine ⟨_, _, rfl, rfl, ?_⟩
  have h := interrupted_upload_resumes staleUpload Dir.empty cutRun _ 0 1
    (.at 1) .readError _ (Finset.mem_singleton_self _) (Or.inl rfl) rfl rfl rfl
    (by decide) rfl
  refine ⟨h.1.mpr rfl, _, rfl, ?_, by decide⟩
  refine ((h.2 (Vector.replicate 16 0) resumedRun _ ⟨rfl, ?_⟩).mpr
    ⟨rfl, by decide⟩).2
  intro a
  cases a <;> rfl

/-- **A CLEAN END OF STREAM LOSES THE UPLOAD**: at the same cut the `.part`
    file is removed, and with it the byte that was received. -/
theorem clean_end_removes_part :
    ∃ s w, exec (step staleUpload) (start Dir.empty) cutRun = some s ∧
      s.phase = .receiving 0 (.at 1) 1 ∧
      interrupt staleUpload s.server .endOfStream = some w ∧
      w.dir.read staleUpload.part = none ∧ ¬ Resumes staleUpload w.dir 1 := by
  refine ⟨_, _, rfl, rfl, rfl, by decide, ?_⟩
  intro h
  have hpart := h.part
  revert hpart
  decide

end KvmResume
