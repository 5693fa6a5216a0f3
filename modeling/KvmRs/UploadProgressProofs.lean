import KvmRs.UploadOutcomeProofs

/-! # What the panel shows of an upload

    `send_file_to_server` of the control panel: `send_file` reports its
    progress on a channel with room for 32 reports, a task of its own passes
    them on to the panel, and the command itself announces the outcome.

    The reports are in order, and complete unless `send_file` ends on an I/O
    error, but nothing makes the command wait for the task: when the outcome
    overtakes reports, the panel, which shows what came last, is left with a
    percentage. -/

namespace KvmUploadProgress

open Directory KvmFileName KvmUpload KvmUploadOutcome Transition

/-- An event on `kvm://transfer`. -/
structure TransferProgress where
  fileName : List Char
  sent : Nat
  total : Nat
  done : Bool
  error : Option (List Char)
  deriving DecidableEq

/-- Bytes sent, and bytes altogether. -/
abbrev Report := Nat × Nat

/-- The upload, the channel and the panel. -/
structure State where
  upload : KvmUpload.State
  /-- The I/O error on which `send_file` has returned. -/
  error : Option (List Char)
  /-- The report for which `send_file` waits for room. -/
  pending : Option Report
  queue : List Report
  shown : List TransferProgress
  finished : Bool

def start (dir : Dir Name) : State where
  upload := KvmUpload.start dir
  error := none
  pending := none
  queue := []
  shown := []
  finished := false

def CHANNEL_CAPACITY : Nat := 32

inductive Action where
  /-- A step of the upload, on either side. -/
  | upload (a : KvmUpload.Action)
  /-- The connection or the file fails `send_file`, wherever it is: `?`.  An
      error on the server's side ends the connection and comes back as one of
      these; what the server then does with the `.part` file is not shown. -/
  | ioError (msg : List Char)
  /-- The waiting report gets into the channel. -/
  | report
  /-- The task passes a report on. -/
  | forward
  /-- `send_file` has returned. -/
  | finish
  deriving DecidableEq

/-- What `send_file` reports behind a step that ends like this. -/
def reportOf (u : Upload) : KvmUpload.Action → Client → Option Report
  | .send _ _, .sending sentBytes => some (sentBytes, u.file.length)
  | _, _ => none

def progressEvent (u : Upload) (r : Report) : TransferProgress where
  fileName := u.fileName
  sent := r.1
  total := r.2
  done := false
  error := none

/-- The last event of the command, with the error of `send_file`. -/
def doneEvent (u : Upload) (error : Option (List Char)) : TransferProgress where
  fileName := u.fileName
  sent := 0
  total := 0
  done := true
  error := error

/-- `send_file` has returned. -/
def State.returned (s : State) : Bool :=
  s.error.isSome || s.upload.client.returned

/-- The error it has returned. -/
def State.failure (s : State) : Option (List Char) :=
  s.error.or (match s.upload.client with
    | .failed msg => some msg
    | _ => none)

def step (u : Upload) (s : State) : Action → Option State
  | .upload a =>
      if ofClient a = true ∧ (s.pending ≠ none ∨ s.error ≠ none) then none
      else (KvmUpload.step u s.upload a).map fun up =>
        { s with
          upload := up
          pending := s.pending.or (reportOf u a up.client) }
  | .ioError msg =>
      if s.returned = false ∧ s.pending = none then
        some { s with error := some msg }
      else none
  | .report =>
      match s.pending with
      | some r =>
          if s.queue.length < CHANNEL_CAPACITY then
            some { s with pending := none, queue := s.queue ++ [r] }
          else none
      | none => none
  | .forward =>
      match s.queue with
      | r :: rest =>
          some { s with queue := rest, shown := s.shown ++ [progressEvent u r] }
      | [] => none
  | .finish =>
      if s.returned = true ∧ s.pending = none ∧ s.finished = false then
        some { s with
          shown := s.shown ++ [doneEvent u s.failure]
          finished := true }
      else none

/-- All reports so far: passed on, in the channel, and waiting. -/
def State.reports (s : State) : List Report :=
  (s.shown.filter (fun e => !e.done)).map (fun e => (e.sent, e.total))
    ++ s.queue ++ s.pending.toList

/-! ## One step of `send_file` -/

/-- Numbers that rise from `a` to `b`, ending there. -/
inductive Rises (a : Nat) : List Nat → Nat → Prop where
  | nil : Rises a [] a
  | snoc {l : List Nat} {b c : Nat} : Rises a l b → b < c → Rises a (l ++ [c]) c

section Rising

variable {a b : Nat} {l : List Nat}

theorem Rises.le (h : Rises a l b) : a ≤ b := by
  induction h with
  | nil => exact Nat.le_refl a
  | snoc _ hlt ih => exact Nat.le_trans ih (Nat.le_of_lt hlt)

theorem Rises.mem (h : Rises a l b) : ∀ x ∈ l, a < x ∧ x ≤ b := by
  induction h with
  | nil => exact fun x hx => absurd hx List.not_mem_nil
  | snoc hrest hlt ih =>
      intro x hx
      have hle := hrest.le
      rcases List.mem_append.mp hx with hx | hx
      · obtain ⟨hax, hxb⟩ := ih x hx
        exact ⟨hax, by omega⟩
      · rw [List.mem_singleton.mp hx]
        exact ⟨by omega, Nat.le_refl _⟩

theorem Rises.pairwise (h : Rises a l b) : l.Pairwise (· < ·) := by
  induction h with
  | nil => exact List.Pairwise.nil
  | snoc hrest hlt ih =>
      refine List.pairwise_append.mpr ⟨ih, List.pairwise_singleton _ _, ?_⟩
      intro x hx y hy
      rw [List.mem_singleton.mp hy]
      exact Nat.lt_of_le_of_lt (hrest.mem x hx).2 hlt

theorem Rises.last (h : Rises a l b) (hne : a ≠ b) : l.getLast? = some b := by
  cases h with
  | nil => exact absurd rfl hne
  | snoc hrest hlt => exact List.getLast?_concat

end Rising

section Client

variable {u : Upload} {d : Dir Name} {s s' : KvmUpload.State}

/-- Without a report, and as far as before. -/
def Quiet (u : Upload) (d : Dir Name) (s : KvmUpload.State)
    (a : KvmUpload.Action) (s' : KvmUpload.State) : Prop :=
  reportOf u a s'.client = none ∧
    s'.client.sentBytes u d = s.client.sentBytes u d

/-- With a report of how far it has come by then. -/
def Reports (u : Upload) (d : Dir Name) (s : KvmUpload.State)
    (a : KvmUpload.Action) (s' : KvmUpload.State) : Prop :=
  reportOf u a s'.client = some (s'.client.sentBytes u d, u.file.length) ∧
    s.client.sentBytes u d < s'.client.sentBytes u d

theorem quiet_pair (hp : Permitted u d)
    (hs : KvmUpload.step u s .pair = some s') : Quiet u d s .pair s' := by
  obtain ⟨hc, rfl⟩ := pair_cases hs
  rw [onPairReply_paired hp]
  exact ⟨rfl, by rw [hc]; rfl⟩

theorem quiet_hash {n : Nat} (hs : KvmUpload.step u s (.hash n) = some s') :
    Quiet u d s (.hash n) s' := by
  obtain ⟨acc, bs, hc, -, -, ⟨-, rfl⟩ | ⟨-, w, -, rfl⟩⟩ := hash_cases hs
  · exact ⟨rfl, by rw [hc]; rfl⟩
  · exact ⟨rfl, by rw [hc]; rfl⟩

theorem quiet_readAnswer (h : Agree u d s)
    (hs : KvmUpload.step u s .readAnswer = some s') :
    Quiet u d s .readAnswer s' := by
  obtain ⟨r, hc, hr, rfl⟩ := readAnswer_cases hs
  rw [h.server.answer hr]
  exact ⟨rfl, by rw [hc]; rfl⟩

theorem quiet_readVerdict (hs : KvmUpload.step u s .readVerdict = some s') :
    Quiet u d s .readVerdict s' := by
  obtain ⟨r, hc, -, rfl⟩ := readVerdict_cases hs
  refine ⟨rfl, ?_⟩
  rw [hc]
  cases r <;> rfl

theorem send_reports {n kept : Nat} (h : Agree u d s)
    (hs : KvmUpload.step u s (.send n kept) = some s') :
    Quiet u d s (.send n kept) s' ∨ Reports u d s (.send n kept) s' := by
  have hok := h.client
  obtain ⟨sentBytes, bs, hc, -, ⟨hne, rfl⟩ | ⟨-, hend, rfl⟩⟩ := send_cases hs
  · have hpos := List.length_pos_of_ne_nil hne
    refine Or.inr ⟨rfl, ?_⟩
    rw [hc]
    exact Nat.lt_add_of_pos_right hpos
  · simp only [ClientOk, hc] at hok
    refine Or.inl ⟨rfl, ?_⟩
    -- the read was empty, so all of the file has gone out
    rw [hc]
    exact Nat.le_antisymm hend hok.2.2

theorem quiet_server {a : KvmUpload.Action} (ha : ofClient a = false)
    (hs : KvmUpload.step u s a = some s') : Quiet u d s a s' := by
  refine ⟨?_, by rw [(server_client ha hs).1]⟩
  cases a with
  | send n kept => cases ha
  | _ => rfl

theorem upload_reports (hp : Permitted u d) (h : Agree u d s)
    {a : KvmUpload.Action} (hs : KvmUpload.step u s a = some s') :
    Quiet u d s a s' ∨ (ofClient a = true ∧ Reports u d s a s') := by
  cases ha : ofClient a with
  | false => exact Or.inl (quiet_server ha hs)
  | true =>
      cases a with
      | pair => exact Or.inl (quiet_pair hp hs)
      | hash n => exact Or.inl (quiet_hash hs)
      | readAnswer => exact Or.inl (quiet_readAnswer h hs)
      | readVerdict => exact Or.inl (quiet_readVerdict hs)
      | send n kept =>
          exact (send_reports h hs).imp_right fun hr => ⟨rfl, hr⟩
      | _ => cases ha

end Client

/-! ## The whole command -/

section Command

variable {u : Upload} {d : Dir Name} {s s' : State}

/-- The invariant. -/
structure Tracks (u : Upload) (d : Dir Name) (s : State) : Prop where
  agree : Agree u d s.upload
  rises : Rises (u.kept d).length (s.reports.map Prod.fst)
    (s.upload.client.sentBytes u d)
  totals : ∀ r ∈ s.reports, r.2 = u.file.length
  room : s.queue.length ≤ CHANNEL_CAPACITY
  returned : s.finished = true → s.returned = true ∧ s.pending = none
  outcome : s.shown.filter (·.done)
    = if s.finished then [doneEvent u s.failure] else []

theorem tracks_start (u : Upload) (d : Dir Name) : Tracks u d (start d) where
  agree := agree_start u d
  rises := .nil
  totals := fun _ hr => absurd hr List.not_mem_nil
  room := Nat.zero_le _
  returned := fun h => absurd h Bool.false_ne_true
  outcome := rfl

/-- A step of the upload without a report. -/
theorem Tracks.quiet (h : Tracks u d s) {up : KvmUpload.State}
    (hagree : Agree u d up)
    (hsent : up.client.sentBytes u d = s.upload.client.sentBytes u d)
    (hclient : s.finished = true → up.client = s.upload.client) :
    Tracks u d { s with upload := up } := by
  refine ⟨hagree, ?_, h.totals, h.room, ?_, ?_⟩
  · show Rises _ (s.reports.map Prod.fst) (up.client.sentBytes u d)
    rw [hsent]
    exact h.rises
  · intro hfin
    simp only [State.returned, hclient hfin]
    exact h.returned hfin
  · show s.shown.filter (·.done) = if s.finished then _ else []
    rw [h.outcome]
    cases hfin : s.finished with
    | false => rfl
    | true => simp only [if_true, State.failure, hclient hfin]

/-- A step with one; `send_file` now waits for room. -/
theorem Tracks.reporting (h : Tracks u d s) {up : KvmUpload.State}
    (hagree : Agree u d up) (hfin : s.finished = false)
    (hpending : s.pending = none)
    (hlt : s.upload.client.sentBytes u d < up.client.sentBytes u d) :
    Tracks u d { s with
      upload := up
      pending := some (up.client.sentBytes u d, u.file.length) } := by
  have hreports : ({ s with
      upload := up
      pending := some (up.client.sentBytes u d, u.file.length) } :
        State).reports
      = s.reports ++ [(up.client.sentBytes u d, u.file.length)] := by
    simp only [State.reports, hpending, Option.toList_some, Option.toList_none,
      List.append_nil]
  refine ⟨hagree, ?_, ?_, h.room, ?_, ?_⟩
  · rw [hreports, List.map_append]
    exact h.rises.snoc hlt
  · rw [hreports]
    intro r hr
    rcases List.mem_append.mp hr with hr | hr
    · exact h.totals r hr
    · rw [List.mem_singleton.mp hr]
  · exact fun h => absurd (hfin.symm.trans h) Bool.false_ne_true
  · show s.shown.filter (·.done) = if s.finished then _ else []
    rw [h.outcome, hfin]
    rfl

/-- Once the command is done, only the server moves on. -/
theorem Tracks.finished_server (h : Tracks u d s) (hfin : s.finished = true)
    {a : KvmUpload.Action} {up : KvmUpload.State}
    (hfree : ¬ (ofClient a = true ∧ (s.pending ≠ none ∨ s.error ≠ none)))
    (hup : KvmUpload.step u s.upload a = some up) : ofClient a = false := by
  have hret := (h.returned hfin).1
  cases herror : s.error with
  | none =>
      rw [State.returned, herror] at hret
      exact returned_server hret hup
  | some msg =>
      refine Bool.eq_false_iff.mpr fun ha => hfree ⟨ha, Or.inr ?_⟩
      rw [herror]
      exact Option.some_ne_none msg

theorem tracks_upload (hp : Permitted u d) (h : Tracks u d s)
    {a : KvmUpload.Action} (hs : step u s (.upload a) = some s') :
    Tracks u d s' := by
  simp only [step] at hs
  split at hs
  · cases hs
  · rename_i hfree
    obtain ⟨up, hup, rfl⟩ := Option.map_eq_some_iff.mp hs
    have hagree := (next_step hp a h.agree hup).1
    rcases upload_reports hp h.agree hup with ⟨hnone, hsent⟩ | ⟨ha, hsome, hlt⟩
    · rw [hnone, Option.or_none]
      refine h.quiet hagree hsent fun hfin => ?_
      exact (server_client (h.finished_server hfin hfree hup) hup).1
    · have hpending : s.pending = none :=
        not_not.mp fun hne => hfree ⟨ha, Or.inl hne⟩
      have hfin : s.finished = false := by
        refine Bool.eq_false_iff.mpr fun hfin => ?_
        have hserver := h.finished_server hfin hfree hup
        exact absurd (hserver.symm.trans ha) Bool.false_ne_true
      rw [hsome, hpending, Option.none_or]
      exact h.reporting hagree hfin hpending hlt

/-- The reports stay the same when one moves on. -/
theorem Tracks.moved (h : Tracks u d s)
    (hupload : s'.upload = s.upload) (hreports : s'.reports = s.reports)
    (hroom : s'.queue.length ≤ CHANNEL_CAPACITY)
    (hreturned : s'.finished = true → s'.returned = true ∧ s'.pending = none)
    (houtcome : s'.shown.filter (·.done)
      = if s'.finished then [doneEvent u s'.failure] else []) :
    Tracks u d s' where
  agree := hupload ▸ h.agree
  rises := by
    rw [hreports, hupload]
    exact h.rises
  totals := by
    rw [hreports]
    exact h.totals
  room := hroom
  returned := hreturned
  outcome := houtcome

theorem tracks_step (hp : Permitted u d) (s : State) (a : Action) (s' : State)
    (h : Tracks u d s) (hs : step u s a = some s') : Tracks u d s' := by
  cases a with
  | upload a => exact tracks_upload hp h hs
  | ioError msg =>
      simp only [step] at hs
      split at hs
      · rename_i hready
        rw [← Option.some.inj hs]
        have hfin : s.finished = false := by
          refine Bool.eq_false_iff.mpr fun hfin => ?_
          rw [(h.returned hfin).1] at hready
          exact Bool.noConfusion hready.1
        have houtcome := h.outcome
        rw [hfin] at houtcome
        refine h.moved rfl rfl h.room (fun hdone => ?_) ?_
        · exact absurd (hfin.symm.trans hdone) Bool.false_ne_true
        · simp only [hfin]
          exact houtcome
      · cases hs
  | report =>
      simp only [step] at hs
      split at hs
      · rename_i r hpending
        split at hs
        · rename_i hroom
          rw [← Option.some.inj hs]
          refine h.moved rfl ?_ ?_ ?_ h.outcome
          · simp only [State.reports, hpending, Option.toList_some,
              Option.toList_none, List.append_nil, List.append_assoc]
          · rw [List.length_append, List.length_singleton]
            exact hroom
          · exact fun hfin => ⟨(h.returned hfin).1, rfl⟩
        · cases hs
      · cases hs
  | forward =>
      simp only [step] at hs
      split at hs
      · rename_i r rest hqueue
        rw [← Option.some.inj hs]
        refine h.moved rfl ?_ ?_ h.returned ?_
        · simp only [State.reports, hqueue, List.filter_append,
            List.filter_singleton, progressEvent, Bool.not_false,
            Bool.cond_true, List.map_append, List.map_cons, List.map_nil,
            List.append_assoc, List.cons_append, List.nil_append]
        · have hroom := h.room
          rw [hqueue, List.length_cons] at hroom
          exact Nat.le_of_succ_le hroom
        · simp only [List.filter_append, List.filter_singleton, progressEvent,
            Bool.cond_false, List.append_nil]
          exact h.outcome
      · cases hs
  | finish =>
      simp only [step] at hs
      split at hs
      · rename_i hready
        rw [← Option.some.inj hs]
        refine h.moved rfl ?_ h.room (fun _ => ⟨hready.1, hready.2.1⟩) ?_
        · simp only [State.reports, List.filter_append, List.filter_singleton,
            doneEvent, Bool.not_true, Bool.cond_false, List.append_nil]
        · simp only [List.filter_append, List.filter_singleton, h.outcome,
            hready.2.2, doneEvent, Bool.false_eq_true, if_false, if_true,
            Bool.cond_true, List.nil_append]
          rfl
      · cases hs

/-! ## What is left on the panel -/

/-- The panel shows progress last, or is going to, after the outcome. -/
def Late (s : State) : Prop :=
  s.finished = true ∧
    (s.queue ≠ [] ∨ ∃ e, s.shown.getLast? = some e ∧ e.done = false)

/-- The command does not announce the outcome before the task has passed
    everything on. -/
def CaughtUp (s : State) (a : Action) : Prop := a = .finish → s.queue = []

instance caughtUpDecidable (s : State) (a : Action) :
    Decidable (CaughtUp s a) :=
  inferInstanceAs (Decidable (a = .finish → s.queue = []))

/-- The panel never recovers. -/
theorem late_step (s : State) (a : Action) (s' : State) (h : ¬ ¬ Late s)
    (hs : step u s a = some s') : ¬ ¬ Late s' := by
  obtain ⟨hfin, hlate⟩ := not_not.mp h
  refine not_not.mpr ?_
  cases a with
  | upload a =>
      simp only [step] at hs
      split at hs
      · cases hs
      · obtain ⟨up, -, rfl⟩ := Option.map_eq_some_iff.mp hs
        exact ⟨hfin, hlate⟩
  | ioError msg =>
      simp only [step] at hs
      split at hs
      · rw [← Option.some.inj hs]
        exact ⟨hfin, hlate⟩
      · cases hs
  | report =>
      simp only [step] at hs
      split at hs
      · split at hs
        · rw [← Option.some.inj hs]
          exact ⟨hfin, Or.inl (List.append_ne_nil_of_right_ne_nil _
            (List.cons_ne_nil _ _))⟩
        · cases hs
      · cases hs
  | forward =>
      simp only [step] at hs
      split at hs
      · rw [← Option.some.inj hs]
        exact ⟨hfin, Or.inr ⟨_, List.getLast?_concat, rfl⟩⟩
      · cases hs
  | finish =>
      simp only [step] at hs
      split at hs
      · rename_i hready
        exact absurd (hready.2.2.symm.trans hfin) Bool.false_ne_true
      · cases hs

theorem caughtUp_keeps (hp : Permitted u d) (s : State) (a : Action)
    (s' : State) (h : Tracks u d s ∧ ¬ Late s) (hok : CaughtUp s a)
    (hs : step u s a = some s') : Tracks u d s' ∧ ¬ Late s' := by
  obtain ⟨htracks, hnot⟩ := h
  refine ⟨tracks_step hp s a s' htracks hs, ?_⟩
  cases a with
  | upload a =>
      simp only [step] at hs
      split at hs
      · cases hs
      · obtain ⟨up, -, rfl⟩ := Option.map_eq_some_iff.mp hs
        exact hnot
  | ioError msg =>
      simp only [step] at hs
      split at hs
      · rw [← Option.some.inj hs]
        exact hnot
      · cases hs
  | report =>
      simp only [step] at hs
      split at hs
      · rename_i hpending
        split at hs
        · rw [← Option.some.inj hs]
          rintro ⟨hfin, -⟩
          rw [(htracks.returned hfin).2] at hpending
          cases hpending
        · cases hs
      · cases hs
  | forward =>
      simp only [step] at hs
      split at hs
      · rename_i hqueue
        rw [← Option.some.inj hs]
        rintro ⟨hfin, -⟩
        refine hnot ⟨hfin, Or.inl ?_⟩
        rw [hqueue]
        exact List.cons_ne_nil _ _
      · cases hs
  | finish =>
      simp only [step] at hs
      split at hs
      · rw [← Option.some.inj hs]
        rintro ⟨-, hqueue | ⟨e, hlast, hdone⟩⟩
        · exact hqueue (hok rfl)
        · rw [List.getLast?_concat] at hlast
          rw [← Option.some.inj hlast] at hdone
          cases hdone
      · cases hs

theorem overtaken_breaks (s : State) (a : Action) (s' : State)
    (hno : ¬ CaughtUp s a) (hs : step u s a = some s') : ¬ ¬ Late s' := by
  obtain ⟨rfl, hqueue⟩ := Classical.not_imp.mp hno
  simp only [step] at hs
  split at hs
  · rw [← Option.some.inj hs]
    exact not_not.mpr ⟨rfl, Or.inl hqueue⟩
  · cases hs

theorem late_iff_overtaken (hp : Permitted u d) {acts : List Action} {t : State}
    (hrun : exec (step u) (start d) acts = some t) :
    ¬ Late t ↔ Guarded (step u) CaughtUp (start d) acts := by
  rw [← always_iff_last late_step acts _ t hrun]
  refine always_iff_guarded (fun _ h => h.2) (caughtUp_keeps hp)
    (fun s a s' _ => overtaken_breaks s a s') acts _ t
    ⟨tracks_start u d, ?_⟩ hrun
  rintro ⟨hfin, -⟩
  cases hfin

/-- A command that has finished without an I/O error has reported all of the
    file. -/
theorem Tracks.reported (h : Tracks u d s) (hfin : s.finished = true)
    (hio : s.error = none) (hne : u.file ≠ []) :
    s.reports.getLast? = some (u.file.length, u.file.length) := by
  have hsent : s.upload.client.sentBytes u d = u.file.length := by
    have hret := (h.returned hfin).1
    rw [State.returned, hio] at hret
    cases hc : s.upload.client <;> rw [hc] at hret
    case done => rfl
    case failed => rfl
    all_goals cases hret
  have hlt := @kept_length_lt u d hne
  have hlast := h.rises.last (by omega)
  rw [List.getLast?_map, hsent] at hlast
  obtain ⟨r, hr, hfst⟩ := Option.map_eq_some_iff.mp hlast
  have hsnd := h.totals r (List.mem_of_getLast? hr)
  rw [hr]
  exact congrArg some (Prod.ext hfst hsnd)

end Command

/-- **WHAT THE PANEL SHOWS OF AN UPLOAD**: in every run of a permitted upload
    with the channel and the task, the reports rise strictly, from beyond what
    the server had kept of an earlier attempt and never beyond the size of the
    file, and have reached it when the command is done, unless `send_file` has
    met an I/O error; the outcome is announced once, then, with the error of
    `send_file`; and once everything is passed on it is what the panel is left
    with exactly if the command did not announce it before the task had caught
    up. -/
theorem progress_shown (u : Upload) (d : Dir Name) (acts : List Action)
    (t : State) (hp : Permitted u d)
    (hrun : exec (step u) (start d) acts = some t) :
    (t.reports.map Prod.fst).Pairwise (· < ·) ∧
      (∀ r ∈ t.reports, (u.kept d).length < r.1 ∧ r.1 ≤ r.2 ∧
        r.2 = u.file.length) ∧
      (t.finished = true → t.error = none → u.file ≠ [] →
        t.reports.getLast? = some (u.file.length, u.file.length)) ∧
      t.shown.filter (·.done)
        = (if t.finished then [doneEvent u t.failure] else []) ∧
      (t.finished = true → t.queue = [] →
        ((∃ e, t.shown.getLast? = some e ∧ e.done = true) ↔
          Guarded (step u) CaughtUp (start d) acts)) := by
  have h := invariant_reachable (tracks_step hp) acts _ t (tracks_start u d)
    hrun
  refine ⟨h.rises.pairwise, ?_, h.reported, h.outcome, ?_⟩
  · intro r hr
    obtain ⟨hlow, hhigh⟩ := h.rises.mem r.1 (List.mem_map_of_mem hr)
    have htotal := h.totals r hr
    have hle := h.agree.sentBytes_le
    exact ⟨hlow, by omega, htotal⟩
  · intro hfin hqueue
    rw [← late_iff_overtaken hp hrun]
    constructor
    · rintro ⟨e, hlast, hdone⟩ ⟨-, hne | ⟨e', hlast', hdone'⟩⟩
      · exact hne hqueue
      · rw [hlast] at hlast'
        rw [Option.some.inj hlast', hdone'] at hdone
        cases hdone
    · intro hnot
      have hne : t.shown ≠ [] := by
        intro hnil
        have houtcome := h.outcome
        rw [hnil, hfin] at houtcome
        cases houtcome
      obtain ⟨e, he⟩ := Option.ne_none_iff_exists'.mp
        (mt List.getLast?_eq_none_iff.mp hne)
      refine ⟨e, he, ?_⟩
      by_contra hdone
      exact hnot ⟨hfin, Or.inr ⟨e, he, Bool.not_eq_true _ ▸ hdone⟩⟩

/-- The upload over a stale `.part` file, up to the last read. -/
def staleUploading : List Action :=
  (staleRun.take 9).map .upload ++ [.report] ++ (staleRun.drop 9).map .upload

/-- The task has the report on the panel before the command is done, or
    behind the command's back. -/
theorem progress_shown_stale :
    ∃ t t', exec (step staleUpload) (start staleDir)
        (staleUploading ++ [.forward, .finish]) = some t ∧
      exec (step staleUpload) (start staleDir)
        (staleUploading ++ [.finish, .forward]) = some t' ∧
      t.reports = [(2, 2)] ∧
      (∃ e, t.shown.getLast? = some e ∧ e.done = true) ∧
      ¬ ∃ e, t'.shown.getLast? = some e ∧ e.done = true := by
  have hp : Permitted staleUpload staleDir :=
    ⟨Finset.mem_singleton_self _, Or.inl rfl, by decide⟩
  have hrun : (exec (step staleUpload) (start staleDir)
      (staleUploading ++ [.forward, .finish])).map
        (fun t => (t.reports, t.finished, t.queue))
      = some ([(2, 2)], true, []) := by decide +kernel
  have hrun' : (exec (step staleUpload) (start staleDir)
      (staleUploading ++ [.finish, .forward])).map
        (fun t => (t.finished, t.queue)) = some (true, []) := by
    decide +kernel
  obtain ⟨t, ht, hend⟩ := Option.map_eq_some_iff.mp hrun
  obtain ⟨t', ht', hend'⟩ := Option.map_eq_some_iff.mp hrun'
  simp only [Prod.mk.injEq] at hend hend'
  have hshown := (progress_shown staleUpload staleDir _ t hp ht).2.2.2.2
    hend.2.1 hend.2.2
  have hshown' := (progress_shown staleUpload staleDir _ t' hp ht').2.2.2.2
    hend'.1 hend'.2
  refine ⟨t, t', ht, ht', hend.1, hshown.mpr (by decide +kernel), ?_⟩
  intro h
  exact absurd (hshown'.mp h) (by decide +kernel)

end KvmUploadProgress
