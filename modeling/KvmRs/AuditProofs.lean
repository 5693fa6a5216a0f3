import KvmRs.LockstepProofs
import KvmRs.ServerLogProofs

/-! # The audit log

    What the handlers put on the audit log, as entries: who was turned away,
    who was let in, who toggled forwarding and who left.  The lines are those
    of the server's log that are marked (`auditLines_eq`).

    Read for one connection the entries are a session: nothing, or a
    rejection, or one entry that lets a device in, its toggles, and one that
    says it is gone (`Stage.next`).  Read for all connections they account for
    the paired devices and for the flag. -/

namespace KvmAudit

open KvmAuth KvmEnvelope KvmRateLimit KvmServerLog Lockstep Transition
open KvmControl hiding Settings Action step advance
open KvmFileChannel hiding Settings Action step log

variable {C Ip D : Type}

inductive AuditEntry where
  | rateLimited
  | badPin (fingerprint : String)
  | reconnected (name : Text) (fingerprint : String)
  | paired (name : Text) (fingerprint : String)
  | autoOn
  | toggled (name : Text) (desired : Bool)
  | autoOff
  | disconnected (name : Text) (fingerprint : String)
  deriving DecidableEq

/-- The entry on the log. -/
def AuditEntry.line (k : KvmServerLog.Settings C Ip D) (c : C) :
    AuditEntry → LogLine
  | .rateLimited =>
      auditWarn ("rejected pairing from rate-limited peer ".toList
        ++ peerText k c)
  | .badPin fingerprint =>
      auditWarn ("rejected pairing from ".toList ++ peerText k c
        ++ " (bad PIN, fingerprint ".toList ++ redactFingerprint fingerprint
        ++ ")".toList)
  | .reconnected name fingerprint =>
      auditInfo (quoted name ++ " (".toList ++ redactFingerprint fingerprint
        ++ ") re-connected (already paired)".toList)
  | .paired name fingerprint =>
      auditInfo ("paired new device ".toList ++ quoted name ++ " (".toList
        ++ redactFingerprint fingerprint ++ ") from ".toList ++ peerText k c)
  | .autoOn =>
      auditInfo "auto_forward: forwarding turned ON (first client paired)".toList
  | .toggled name desired =>
      auditInfo ("forwarding toggled by client ".toList ++ quoted name
        ++ ": ".toList ++ boolText desired)
  | .autoOff =>
      auditInfo ("auto_forward: forwarding turned OFF "
        ++ "(last client disconnected)").toList
  | .disconnected name fingerprint =>
      auditInfo ("disconnected: ".toList ++ quoted name ++ " (".toList
        ++ redactFingerprint fingerprint ++ ")".toList)

/-- What the handler's next step audits. -/
def audited (k : KvmServerLog.Settings C Ip D) (w : World C Ip) (c : C) :
    Option AuditEntry :=
  let name := clientName (w.conns c)
  match (w.conns c).phase with
  | .checking _ =>
      if isRateLimited w.rateLimiter (k.peerIp c) w.now then some .rateLimited
      else none
  | .readingConfig req =>
      if req.fingerprint ∈ w.pairedDevices then
        some (.reconnected name req.fingerprint)
      else none
  | .comparing req =>
      if proofOk k.control.sha256 k.control.pin req then none
      else some (.badPin req.fingerprint)
  | .adding req => some (.paired name req.fingerprint)
  | .firstClient =>
      if k.control.autoForward && !w.forwardingEnabled then some .autoOn
      else none
  | .storing desired => some (.toggled name desired)
  | .lastClient =>
      if k.control.autoForward && w.forwardingEnabled then some .autoOff
      else none
  | .farewell =>
      some (.disconnected name (clientFingerprint (w.conns c)))
  | _ => none

/-- The entries of a step of this connection. -/
def entries [DecidableEq C] (k : KvmServerLog.Settings C Ip D) (c : C)
    (s : Server C Ip D) (e : Event C D) : List AuditEntry :=
  match e with
  | .control (.advance c') _ =>
      if c' = c then (audited k s.control c).toList else []
  | _ => []

/-- The marked lines of a step of this connection. -/
def auditLines [DecidableEq C] (k : KvmServerLog.Settings C Ip D) (c : C)
    (s : Server C Ip D) (e : Event C D) (s' : Server C Ip D) : List LogLine :=
  match e with
  | .control a _ =>
      if a.actor = some c then (log k s e s').filter (·.audit) else []
  | _ => []

section Lines

variable {k : KvmServerLog.Settings C Ip D} {c : C} {w : World C Ip}

/-- Envelopes are never audited as such. -/
theorem receiveLog_unaudited (name : Text) (ph : KvmControl.Phase)
    (e : Envelope) (err : Option Text) :
    (receiveLog k c name ph e err).filter (·.audit) = [] := by
  cases ph with
  | hello =>
      cases e with
      | hello name version caps =>
          simp only [receiveLog]
          split <;> rfl
      | _ => rfl
  | awaitingPair => cases e <;> rfl
  | looping => cases e <;> rfl
  | _ => rfl

theorem advanceLog_audited (err : Option Text) :
    (advanceLog k c w err).filter (·.audit)
      = (audited k w c).toList.map (AuditEntry.line k c) := by
  cases hp : (w.conns c).phase with
  | checking req =>
      simp only [advanceLog, audited, hp]
      split <;> rfl
  | readingConfig req =>
      simp only [advanceLog, audited, hp]
      split <;> rfl
  | comparing req =>
      simp only [advanceLog, audited, hp]
      split <;> rfl
  | adding req =>
      simp only [advanceLog, audited, hp]
      cases err <;> rfl
  | firstClient =>
      simp only [advanceLog, audited, hp]
      split <;> rfl
  | lastClient =>
      simp only [advanceLog, audited, hp]
      split <;> rfl
  | _ =>
      simp only [advanceLog, audited, hp]
      rfl

variable [DecidableEq C] {s s' : Server C Ip D} {e : Event C D}

/-- **THE ENTRIES ARE WHAT IS LOGGED**: the marked lines of a step of a
    connection are its entries. -/
theorem auditLines_eq :
    auditLines k c s e s' = (entries k c s e).map (AuditEntry.line k c) := by
  cases e with
  | control a err =>
      cases a with
      | advance c' =>
          simp only [auditLines, entries, KvmControl.Action.actor,
            Option.some.injEq]
          by_cases hc : c' = c
          · rw [if_pos hc, if_pos hc, hc]
            exact advanceLog_audited err
          · rw [if_neg hc, if_neg hc]
            rfl
      | receive c' e =>
          simp only [auditLines, entries, log, controlLog,
            receiveLog_unaudited, ite_self, List.map_nil]
      | watchdog c' =>
          simp only [auditLines, entries, log, controlLog]
          split
          · split <;> rfl
          · rfl
      | _ =>
          simp only [auditLines, entries]
          split <;> rfl
  | _ => rfl

end Lines

/-! ## Sessions -/

/-- Where the audit log has a connection. -/
inductive Stage where
  | waiting
  | inside (name : Text) (fingerprint : String)
  | over
  deriving DecidableEq

/-- The entries of one connection, in order. -/
def Stage.next : Stage → AuditEntry → Option Stage
  | .waiting, .rateLimited => some .over
  | .waiting, .badPin _ => some .over
  | .waiting, .reconnected name fingerprint => some (.inside name fingerprint)
  | .waiting, .paired name fingerprint => some (.inside name fingerprint)
  | .inside name fingerprint, .autoOn => some (.inside name fingerprint)
  | .inside name fingerprint, .toggled name' _ =>
      if name' = name then some (.inside name fingerprint) else none
  | .inside name fingerprint, .autoOff => some (.inside name fingerprint)
  | .inside name fingerprint, .disconnected name' fingerprint' =>
      if name' = name ∧ fingerprint' = fingerprint then some .over else none
  | _, _ => none

/-- How far the handler is. -/
inductive Progress where
  | before | admitted | member | gone

def progress : KvmControl.Phase → Progress
  | .hello => .before
  | .greeting => .before
  | .awaitingPair => .before
  | .checking _ => .before
  | .readingConfig _ => .before
  | .comparing _ => .before
  | .adding _ => .before
  | .accepting _ => .admitted
  | .registering _ => .admitted
  | .ended => .gone
  | _ => .member

/-- The log has the connection where its handler is.  One that was let in and
    could not be told so is never registered, and the log hears no more. -/
def Fits (x : KvmControl.Conn) (st : Stage) : Prop :=
  match progress x.phase with
  | .before => st = .waiting ∧ x.registered = false
  | .admitted => st = .inside (clientName x) (clientFingerprint x) ∧
      x.registered = false
  | .member => st = .inside (clientName x) (clientFingerprint x)
  | .gone => x.registered = true → st = .over

section Fitting

variable {x x' : KvmControl.Conn} {st : Stage}

/-- Alike to the audit log. -/
structure Alike (x x' : KvmControl.Conn) : Prop where
  phase : x'.phase = x.phase
  received : x'.received = x.received
  registered : x'.registered = x.registered

theorem Fits.alike (h : Fits x st) (hx : Alike x x') : Fits x' st := by
  have hname : clientName x' = clientName x := by
    rw [clientName, clientName, hx.received]
  have hfp : clientFingerprint x' = clientFingerprint x := by
    rw [clientFingerprint, clientFingerprint, hx.received]
  rw [Fits, hx.phase, hx.registered, hname, hfp]
  exact h

theorem Fits.before (h : Fits x st) (hx : progress x.phase = .before) :
    st = .waiting ∧ x.registered = false := by
  rwa [Fits, hx] at h

theorem Fits.admitted (h : Fits x st) (hx : progress x.phase = .admitted) :
    st = .inside (clientName x) (clientFingerprint x) ∧
      x.registered = false := by
  rwa [Fits, hx] at h

theorem Fits.member (h : Fits x st) (hx : progress x.phase = .member) :
    st = .inside (clientName x) (clientFingerprint x) := by
  rwa [Fits, hx] at h

theorem fits_before (hx : progress x.phase = .before)
    (hreg : x.registered = false) : Fits x .waiting := by
  rw [Fits, hx]
  exact ⟨rfl, hreg⟩

theorem fits_member (hx : progress x.phase = .member)
    (hst : st = .inside (clientName x) (clientFingerprint x)) : Fits x st := by
  rw [Fits, hx]
  exact hst

/-- A handler that was never registered may end at any time. -/
theorem fits_unregistered (hx : x.phase = .ended)
    (hreg : x.registered = false) : Fits x st := by
  rw [Fits, hx]
  exact fun h => absurd (hreg.symm.trans h) Bool.false_ne_true

/-- The name and the fingerprint stay when more is received. -/
theorem named_append {req : PairRequest} (hreq : Requested x.received req)
    {es : List Envelope} (hx : x'.received = x.received ++ es) :
    clientName x' = clientName x ∧ clientFingerprint x' = clientFingerprint x ∧
      clientFingerprint x = req.fingerprint := by
  obtain ⟨name, caps, rest, hrec⟩ := hreq
  rw [hrec] at hx
  simp only [clientName, clientFingerprint, hrec, hx, List.cons_append, and_self]

end Fitting

section Steps

variable {k : KvmServerLog.Settings C Ip D} {initial : List String}
  {w w' : World C Ip} {c : C} {st : Stage}

/-- Someone in the registry has sent a request. -/
theorem requested_of_member (hsec : Secure k.control initial w)
    (hp : (w.conns c).phase.afterRegistering = true) :
    ∃ req, Requested (w.conns c).received req := by
  obtain ⟨req, hreq, -⟩ := (hsec.conn c).history ((hsec.conn c).registered hp)
  exact ⟨req, hreq⟩

/-- The entry of the handler's next step takes the session on, and the session
    is where the handler then is. -/
def Follows (k : KvmServerLog.Settings C Ip D) (w : World C Ip) (c : C)
    (st : Stage) (w' : World C Ip) : Prop :=
  ∃ st', exec Stage.next st (audited k w c).toList = some st' ∧
    Fits (w'.conns c) st'

theorem follows_none (haudit : audited k w c = none)
    (h : Fits (w'.conns c) st) : Follows k w c st w' :=
  ⟨st, by rw [haudit]; rfl, h⟩

theorem follows_some {entry : AuditEntry} {st' : Stage}
    (haudit : audited k w c = some entry)
    (hnext : Stage.next st entry = some st') (h : Fits (w'.conns c) st') :
    Follows k w c st w' := by
  refine ⟨st', ?_, h⟩
  rw [haudit, Option.toList_some, exec_cons_some hnext]
  rfl

theorem fits_receive (hsec : Secure k.control initial w)
    (h : Fits (w.conns c) st) {e : Envelope} {x : KvmControl.Conn}
    (hx : onEnvelope w.forwardingEnabled w.now (w.conns c) e = some x) :
    Fits { x with received := x.received ++ [e] } st := by
  cases hp : (w.conns c).phase with
  | hello =>
      obtain ⟨rfl, hreg⟩ := h.before (by rw [hp]; rfl)
      simp only [onEnvelope, hp] at hx
      cases e with
      | hello name version caps =>
          simp only at hx
          split at hx
          · rw [← Option.some.inj hx]
            exact fits_unregistered rfl hreg
          · rw [← Option.some.inj hx]
            exact fits_before rfl hreg
      | _ =>
          rw [← Option.some.inj hx]
          exact fits_unregistered rfl hreg
  | awaitingPair =>
      obtain ⟨rfl, hreg⟩ := h.before (by rw [hp]; rfl)
      simp only [onEnvelope, hp] at hx
      cases e with
      | pairRequest nonce fingerprint proof =>
          rw [← Option.some.inj hx]
          exact fits_before rfl hreg
      | _ =>
          rw [← Option.some.inj hx]
          exact fits_unregistered rfl hreg
  | looping =>
      have hst := h.member (by rw [hp]; rfl)
      obtain ⟨req, hreq⟩ := requested_of_member hsec
        (show (w.conns c).phase.afterRegistering = true by rw [hp]; rfl)
      -- whatever is asked for, the handler stays a member
      have hstay : progress x.phase = .member ∧
          x.received = (w.conns c).received := by
        simp only [onEnvelope, hp] at hx
        cases e with
        | toggleForward desired =>
            rw [← Option.some.inj hx]
            refine ⟨?_, rfl⟩
            show progress (if _ then _ else _) = .member
            split <;> rfl
        | _ =>
            rw [← Option.some.inj hx]
            exact ⟨rfl, rfl⟩
      have hmore : ({ x with received := x.received ++ [e] }
          : KvmControl.Conn).received = (w.conns c).received ++ [e] := by
        rw [hstay.2]
      obtain ⟨hname, hfp, -⟩ := named_append hreq hmore
      refine fits_member hstay.1 ?_
      rw [hname, hfp]
      exact hst
  | _ => simp only [onEnvelope, hp, reduceCtorEq] at hx

variable [DecidableEq C]

theorem alike_update {c' : C} (hne : c ≠ c') (conns : C → KvmControl.Conn)
    (x : KvmControl.Conn) :
    Alike (conns c) (Function.update conns c' x c) := by
  rw [Function.update_of_ne hne]
  exact ⟨rfl, rfl, rfl⟩

theorem fits_update {conns : C → KvmControl.Conn} {x : KvmControl.Conn}
    (h : Fits x st) : Fits (Function.update conns c x c) st := by
  rw [Function.update_self]
  exact h

/-- A device is let in. -/
theorem follows_admitted {req : PairRequest} {name : Text} {w'' : World C Ip}
    (hst : st = .waiting) (hreg : (w.conns c).registered = false)
    (hreq : Requested (w.conns c).received req)
    (hname : name = clientName (w.conns c))
    (haudit : audited k w c = some (.reconnected name req.fingerprint) ∨
      audited k w c = some (.paired name req.fingerprint)) :
    Follows k w c st
      (w''.set c ((w.conns c).goto (.accepting req) [])) := by
  have hnamed := named_append hreq (List.append_nil _).symm
  have hfits : Fits ((w.conns c).goto (.accepting req) [])
      (.inside name req.fingerprint) := by
    refine ⟨?_, hreg⟩
    rw [hname, ← hnamed.2.2]
    rfl
  have hnext : Stage.next .waiting (.reconnected name req.fingerprint)
      = some (.inside name req.fingerprint) := rfl
  have hnext' : Stage.next .waiting (.paired name req.fingerprint)
      = some (.inside name req.fingerprint) := rfl
  rw [hst]
  rcases haudit with haudit | haudit
  · exact follows_some haudit hnext (fits_update hfits)
  · exact follows_some haudit hnext' (fits_update hfits)

variable [DecidableEq Ip]

/-- A connection hears from the others only what is sent to it. -/
theorem alike_advance {c' : C} (hne : c ≠ c')
    (hs : KvmControl.advance k.control k.peerIp w c' = some w') :
    Alike (w.conns c) (w'.conns c) := by
  cases hp : (w.conns c').phase with
  | comparing req =>
      simp only [KvmControl.advance, hp] at hs
      split at hs <;> (rw [← Option.some.inj hs]; exact alike_update hne _ _)
  | firstClient =>
      simp only [KvmControl.advance, hp] at hs
      split at hs <;> (rw [← Option.some.inj hs]; exact alike_update hne _ _)
  | broadcasting es =>
      cases es with
      | nil =>
          simp only [KvmControl.advance, hp] at hs
          rw [← Option.some.inj hs]
          exact alike_update hne _ _
      | cons e es =>
          simp only [KvmControl.advance, hp] at hs
          rw [← Option.some.inj hs]
          simp only [World.broadcast, World.set, Function.update_of_ne hne]
          split <;> exact ⟨rfl, rfl, rfl⟩
  | hello => simp only [KvmControl.advance, hp, reduceCtorEq] at hs
  | awaitingPair => simp only [KvmControl.advance, hp, reduceCtorEq] at hs
  | looping => simp only [KvmControl.advance, hp, reduceCtorEq] at hs
  | ended => simp only [KvmControl.advance, hp, reduceCtorEq] at hs
  | _ =>
      simp only [KvmControl.advance, hp] at hs
      rw [← Option.some.inj hs]
      exact alike_update hne _ _

theorem alike_elsewhere {a : KvmControl.Action C} (ha : a.actor ≠ some c)
    (hs : KvmControl.step k.control k.peerIp w a = some w') :
    Alike (w.conns c) (w'.conns c) := by
  have hset : ∀ c', a.actor = some c' → a ≠ .advance c' →
      Alike (w.conns c) (w'.conns c) := by
    intro c' hactor hadv
    obtain ⟨x, rfl⟩ := step_actor hactor hadv hs
    refine alike_update ?_ _ _
    rintro rfl
    exact ha hactor
  cases a with
  | advance c' => exact alike_advance (fun h => ha (congrArg some h.symm)) hs
  | receive c' e => exact hset c' rfl (by simp)
  | fail c' => exact hset c' rfl (by simp)
  | closed c' => exact hset c' rfl (by simp)
  | pingTick c' ts => exact hset c' rfl (by simp)
  | watchdog c' => exact hset c' rfl (by simp)
  | broadcast e =>
      rw [← Option.some.inj hs]
      simp only [World.broadcast]
      split <;> exact ⟨rfl, rfl, rfl⟩
  | takeClipboard =>
      simp only [KvmControl.step] at hs
      split at hs
      · rw [← Option.some.inj hs]
        exact ⟨rfl, rfl, rfl⟩
      · cases hs
  | hotkey on =>
      rw [← Option.some.inj hs]
      exact ⟨rfl, rfl, rfl⟩
  | tick d =>
      rw [← Option.some.inj hs]
      exact ⟨rfl, rfl, rfl⟩

/-- Outside `advance` nothing is audited, and the log stays where it is. -/
theorem fits_quiet (hsec : Secure k.control initial w)
    (h : Fits (w.conns c) st) {a : KvmControl.Action C}
    (ha : a.actor = some c) (hadv : a ≠ .advance c)
    (hs : KvmControl.step k.control k.peerIp w a = some w') :
    Fits (w'.conns c) st := by
  have hloop : a.inLoop c → Fits (w'.conns c) st := by
    intro hin
    obtain ⟨hp, ph, es, hph, rfl⟩ := step_inLoop hin hs
    have hst := h.member (by rw [hp]; rfl)
    refine fits_update (fits_member ?_ hst)
    rcases hph with rfl | rfl <;> rfl
  cases a with
  | receive c' e =>
      obtain rfl : c' = c := Option.some.inj ha
      obtain ⟨x, hx, rfl⟩ := Option.map_eq_some_iff.mp hs
      exact fits_update (fits_receive hsec h hx)
  | advance c' =>
      exact absurd (congrArg KvmControl.Action.advance (Option.some.inj ha)) hadv
  | fail c' =>
      obtain rfl : c' = c := Option.some.inj ha
      obtain ⟨hfail, rfl⟩ := step_fail hs
      refine fits_update (fits_unregistered rfl ?_)
      cases hp : (w.conns c').phase with
      | hello => exact (h.before (by rw [hp]; rfl)).2
      | greeting => exact (h.before (by rw [hp]; rfl)).2
      | awaitingPair => exact (h.before (by rw [hp]; rfl)).2
      | accepting req => exact (h.admitted (by rw [hp]; rfl)).2
      | _ =>
          rw [hp] at hfail
          cases hfail
  | closed c' => exact hloop (Option.some.inj ha)
  | pingTick c' ts => exact hloop (Option.some.inj ha)
  | watchdog c' => exact hloop (Option.some.inj ha)
  | broadcast e => cases ha
  | hotkey on => cases ha
  | takeClipboard => cases ha
  | tick d => cases ha

/-- The handler's own steps. -/
theorem follows_advance (hsec : Secure k.control initial w)
    (h : Fits (w.conns c) st)
    (hs : KvmControl.advance k.control k.peerIp w c = some w') :
    Follows k w c st w' := by
  have hphase := (hsec.conn c).phase
  -- a member that stays one
  have hmember : ∀ ph es, progress (w.conns c).phase = .member →
      progress ph = .member → Fits ((w.conns c).goto ph es) st :=
    fun ph es hin hph => fits_member hph (h.member hin)
  have hrejected : Stage.next .waiting .rateLimited = some .over := rfl
  have hturnedAway : ∀ fp, Stage.next .waiting (.badPin fp) = some .over :=
    fun fp => rfl
  have hauto : progress (w.conns c).phase = .member →
      Stage.next st .autoOn = some st ∧ Stage.next st .autoOff = some st := by
    intro hin
    rw [h.member hin]
    exact ⟨rfl, rfl⟩
  cases hp : (w.conns c).phase with
  | greeting =>
      obtain ⟨rfl, hreg⟩ := h.before (by rw [hp]; rfl)
      simp only [KvmControl.advance, hp] at hs
      rw [← Option.some.inj hs]
      exact follows_none (by simp only [audited, hp])
        (fits_update (fits_before rfl hreg))
  | checking req =>
      obtain ⟨rfl, hreg⟩ := h.before (by rw [hp]; rfl)
      simp only [KvmControl.advance, hp] at hs
      rw [← Option.some.inj hs]
      by_cases hlim : isRateLimited w.rateLimiter (k.peerIp c) w.now = true
      · refine follows_some (by simp only [audited, hp, if_pos hlim])
          hrejected (fits_update ?_)
        rw [if_pos hlim]
        exact fits_unregistered rfl hreg
      · refine follows_none (by simp only [audited, hp, if_neg hlim])
          (fits_update ?_)
        rw [if_neg hlim]
        exact fits_before rfl hreg
  | readingConfig req =>
      obtain ⟨rfl, hreg⟩ := h.before (by rw [hp]; rfl)
      simp only [PhaseOk, hp] at hphase
      simp only [KvmControl.advance, hp] at hs
      rw [← Option.some.inj hs]
      by_cases hin : req.fingerprint ∈ w.pairedDevices
      · rw [if_pos hin]
        exact follows_admitted rfl hreg hphase rfl
          (Or.inl (by simp only [audited, hp, if_pos hin]))
      · rw [if_neg hin]
        exact follows_none (by simp only [audited, hp, if_neg hin])
          (fits_update (fits_before rfl hreg))
  | comparing req =>
      obtain ⟨rfl, hreg⟩ := h.before (by rw [hp]; rfl)
      simp only [KvmControl.advance, hp] at hs
      split at hs
      · rename_i hproof
        rw [← Option.some.inj hs]
        exact follows_none (by simp only [audited, hp, if_pos hproof])
          (fits_update (fits_before rfl hreg))
      · rename_i hproof
        rw [← Option.some.inj hs]
        exact follows_some (by simp only [audited, hp, if_neg hproof])
          (hturnedAway req.fingerprint)
          (fits_update (fits_unregistered rfl hreg))
  | adding req =>
      obtain ⟨rfl, hreg⟩ := h.before (by rw [hp]; rfl)
      simp only [PhaseOk, hp] at hphase
      simp only [KvmControl.advance, hp] at hs
      rw [← Option.some.inj hs]
      exact follows_admitted rfl hreg hphase.1 rfl
        (Or.inr (by simp only [audited, hp]))
  | accepting req =>
      have hst := h.admitted (by rw [hp]; rfl)
      simp only [KvmControl.advance, hp] at hs
      rw [← Option.some.inj hs]
      exact follows_none (by simp only [audited, hp]) (fits_update hst)
  | registering req =>
      have hst := (h.admitted (by rw [hp]; rfl)).1
      simp only [KvmControl.advance, hp] at hs
      rw [← Option.some.inj hs]
      refine follows_none (by simp only [audited, hp])
        (fits_update (fits_member ?_ hst))
      show progress (if _ then _ else _) = .member
      split <;> rfl
  | firstClient =>
      have hin : progress (w.conns c).phase = .member := by rw [hp]; rfl
      have hfits : Fits (w'.conns c) st := by
        simp only [KvmControl.advance, hp] at hs
        split at hs
        · rw [← Option.some.inj hs]
          exact fits_update (hmember _ _ hin rfl)
        · rw [← Option.some.inj hs]
          exact fits_update (hmember _ _ hin rfl)
      by_cases hon : (k.control.autoForward && !w.forwardingEnabled) = true
      · exact follows_some (by simp only [audited, hp, if_pos hon])
          (hauto hin).1 hfits
      · exact follows_none (by simp only [audited, hp, if_neg hon]) hfits
  | storing desired =>
      have hin : progress (w.conns c).phase = .member := by rw [hp]; rfl
      have hnext : Stage.next st (.toggled (clientName (w.conns c)) desired)
          = some st := by
        rw [h.member hin]
        exact if_pos rfl
      simp only [KvmControl.advance, hp] at hs
      rw [← Option.some.inj hs]
      exact follows_some (by simp only [audited, hp]) hnext
        (fits_update (hmember _ _ hin rfl))
  | broadcasting es =>
      have hin : progress (w.conns c).phase = .member := by rw [hp]; rfl
      refine follows_none (by simp only [audited, hp]) ?_
      cases es with
      | nil =>
          simp only [KvmControl.advance, hp] at hs
          rw [← Option.some.inj hs]
          exact fits_update (hmember _ _ hin rfl)
      | cons e es =>
          simp only [KvmControl.advance, hp] at hs
          rw [← Option.some.inj hs]
          have hgo := hmember (.broadcasting es) [] hin rfl
          simp only [World.broadcast, World.set, Function.update_self]
          split
          · exact hgo.alike ⟨rfl, rfl, rfl⟩
          · exact hgo
  | clipboard text =>
      have hin : progress (w.conns c).phase = .member := by rw [hp]; rfl
      simp only [KvmControl.advance, hp] at hs
      rw [← Option.some.inj hs]
      exact follows_none (by simp only [audited, hp])
        (fits_update (hmember _ _ hin rfl))
  | leaving =>
      have hin : progress (w.conns c).phase = .member := by rw [hp]; rfl
      simp only [KvmControl.advance, hp] at hs
      rw [← Option.some.inj hs]
      refine follows_none (by simp only [audited, hp])
        (fits_update (hmember _ _ hin ?_))
      split <;> rfl
  | lastClient =>
      have hin : progress (w.conns c).phase = .member := by rw [hp]; rfl
      have hfits : Fits (w'.conns c) st := by
        simp only [KvmControl.advance, hp] at hs
        rw [← Option.some.inj hs]
        exact fits_update (hmember _ _ hin rfl)
      by_cases hoff : (k.control.autoForward && w.forwardingEnabled) = true
      · exact follows_some (by simp only [audited, hp, if_pos hoff])
          (hauto hin).2 hfits
      · exact follows_none (by simp only [audited, hp, if_neg hoff]) hfits
  | farewell =>
      have hin : progress (w.conns c).phase = .member := by rw [hp]; rfl
      have hnext : Stage.next st (.disconnected (clientName (w.conns c))
          (clientFingerprint (w.conns c))) = some .over := by
        rw [h.member hin]
        exact if_pos ⟨rfl, rfl⟩
      simp only [KvmControl.advance, hp] at hs
      rw [← Option.some.inj hs]
      exact follows_some (by simp only [audited, hp]) hnext
        (fits_update fun _ => rfl)
  | hello => simp only [KvmControl.advance, hp, reduceCtorEq] at hs
  | awaitingPair => simp only [KvmControl.advance, hp, reduceCtorEq] at hs
  | looping => simp only [KvmControl.advance, hp, reduceCtorEq] at hs
  | ended => simp only [KvmControl.advance, hp, reduceCtorEq] at hs

end Steps

/-! ## Paired devices and the flag -/

/-- The device that an entry says is new. -/
def AuditEntry.device : AuditEntry → Option String
  | .paired _ fingerprint => some fingerprint
  | _ => none

/-- What an entry says of the flag. -/
def AuditEntry.flag : AuditEntry → Option Bool
  | .autoOn => some true
  | .toggled _ desired => some desired
  | .autoOff => some false
  | _ => none

/-- The devices that a step audits as new. -/
def newDevices (k : KvmServerLog.Settings C Ip D) (s : Server C Ip D) :
    Event C D → List String
  | .control (.advance c) _ =>
      ((audited k s.control c).bind AuditEntry.device).toList
  | _ => []

/-- Whoever changes the flag audits its new value; the hotkey is audited when
    the forwarder hears of it. -/
def FlagAudited (k : KvmServerLog.Settings C Ip D) (s : Server C Ip D)
    (e : Event C D) (s' : Server C Ip D) : Prop :=
  s'.control.forwardingEnabled = s.control.forwardingEnabled ∨
    (∃ on err, e = .control (.hotkey on) err) ∨
    ∃ c err, e = .control (.advance c) err ∧
      (audited k s.control c).bind AuditEntry.flag
        = some s'.control.forwardingEnabled

section Accounts

variable [DecidableEq C] [DecidableEq Ip] {k : KvmServerLog.Settings C Ip D}
  {w w' : World C Ip} {c : C}

/-- What a handler's step does to the paired devices and to the flag. -/
structure Accounted (k : KvmServerLog.Settings C Ip D) (w : World C Ip)
    (c : C) (w' : World C Ip) : Prop where
  devices : w'.pairedDevices
    = ((audited k w c).bind AuditEntry.device).toList ++ w.pairedDevices
  flag : w'.forwardingEnabled = w.forwardingEnabled ∨
    (audited k w c).bind AuditEntry.flag = some w'.forwardingEnabled

theorem accounted_advance
    (hs : KvmControl.advance k.control k.peerIp w c = some w') :
    Accounted k w c w' := by
  cases hp : (w.conns c).phase with
  | checking req =>
      simp only [KvmControl.advance, hp] at hs
      rw [← Option.some.inj hs]
      refine ⟨?_, Or.inl rfl⟩
      simp only [audited, hp]
      split <;> rfl
  | readingConfig req =>
      simp only [KvmControl.advance, hp] at hs
      rw [← Option.some.inj hs]
      refine ⟨?_, Or.inl rfl⟩
      simp only [audited, hp]
      split <;> rfl
  | comparing req =>
      simp only [KvmControl.advance, hp] at hs
      split at hs
      · rename_i hproof
        rw [← Option.some.inj hs]
        refine ⟨?_, Or.inl rfl⟩
        simp only [audited, hp, if_pos hproof]
        rfl
      · rename_i hproof
        rw [← Option.some.inj hs]
        refine ⟨?_, Or.inl rfl⟩
        simp only [audited, hp, if_neg hproof]
        rfl
  | adding req =>
      simp only [KvmControl.advance, hp] at hs
      rw [← Option.some.inj hs]
      refine ⟨?_, Or.inl rfl⟩
      simp only [audited, hp]
      rfl
  | firstClient =>
      simp only [KvmControl.advance, hp] at hs
      split at hs
      · rename_i hauto
        rw [← Option.some.inj hs]
        cases hon : w.forwardingEnabled with
        | true =>
            refine ⟨?_, Or.inl hon.symm⟩
            simp only [audited, hp, hauto, hon]
            rfl
        | false =>
            refine ⟨?_, Or.inr ?_⟩ <;>
              (simp only [audited, hp, hauto, hon]; rfl)
      · rename_i hauto
        rw [← Option.some.inj hs]
        refine ⟨?_, Or.inl rfl⟩
        simp only [audited, hp, Bool.not_eq_true _ ▸ hauto, Bool.false_and]
        rfl
  | storing desired =>
      simp only [KvmControl.advance, hp] at hs
      rw [← Option.some.inj hs]
      refine ⟨?_, Or.inr ?_⟩ <;> (simp only [audited, hp]; rfl)
  | lastClient =>
      simp only [KvmControl.advance, hp] at hs
      rw [← Option.some.inj hs]
      cases hauto : k.control.autoForward with
      | false =>
          refine ⟨?_, Or.inl rfl⟩
          simp only [audited, hp, hauto, Bool.false_and]
          rfl
      | true =>
          cases hon : w.forwardingEnabled with
          | false =>
              refine ⟨?_, Or.inl hon.symm⟩
              simp only [audited, hp, hauto, hon]
              rfl
          | true =>
              refine ⟨?_, Or.inr ?_⟩ <;>
                (simp only [audited, hp, hauto, hon]; rfl)
  | broadcasting es =>
      cases es <;>
        (simp only [KvmControl.advance, hp] at hs
         rw [← Option.some.inj hs]
         refine ⟨?_, Or.inl rfl⟩
         simp only [audited, hp]
         rfl)
  | farewell =>
      simp only [KvmControl.advance, hp] at hs
      rw [← Option.some.inj hs]
      refine ⟨?_, Or.inl rfl⟩
      simp only [audited, hp]
      rfl
  | hello => simp only [KvmControl.advance, hp, reduceCtorEq] at hs
  | awaitingPair => simp only [KvmControl.advance, hp, reduceCtorEq] at hs
  | looping => simp only [KvmControl.advance, hp, reduceCtorEq] at hs
  | ended => simp only [KvmControl.advance, hp, reduceCtorEq] at hs
  | _ =>
      simp only [KvmControl.advance, hp] at hs
      rw [← Option.some.inj hs]
      refine ⟨?_, Or.inl rfl⟩
      simp only [audited, hp]
      rfl

/-- Nobody else pairs a device, and only the capture thread stores to the
    flag. -/
theorem accounted_otherwise {a : KvmControl.Action C}
    (ha : ∀ c, a ≠ .advance c)
    (hs : KvmControl.step k.control k.peerIp w a = some w') :
    w'.pairedDevices = w.pairedDevices ∧
      (w'.forwardingEnabled = w.forwardingEnabled ∨ ∃ on, a = .hotkey on) := by
  have hset : ∀ c, a.actor = some c →
      w'.pairedDevices = w.pairedDevices ∧
        (w'.forwardingEnabled = w.forwardingEnabled ∨ ∃ on, a = .hotkey on) := by
    intro c hactor
    obtain ⟨x, rfl⟩ := step_actor hactor (ha c) hs
    exact ⟨rfl, Or.inl rfl⟩
  cases a with
  | receive c e => exact hset c rfl
  | advance c => exact absurd rfl (ha c)
  | fail c => exact hset c rfl
  | closed c => exact hset c rfl
  | pingTick c ts => exact hset c rfl
  | watchdog c => exact hset c rfl
  | broadcast e =>
      rw [← Option.some.inj hs]
      exact ⟨rfl, Or.inl rfl⟩
  | hotkey on =>
      rw [← Option.some.inj hs]
      exact ⟨rfl, Or.inr ⟨on, rfl⟩⟩
  | takeClipboard =>
      simp only [KvmControl.step] at hs
      split at hs
      · rw [← Option.some.inj hs]
        exact ⟨rfl, Or.inl rfl⟩
      · cases hs
  | tick d =>
      rw [← Option.some.inj hs]
      exact ⟨rfl, Or.inl rfl⟩

end Accounts

/-! ## The whole server -/

section Server

variable [DecidableEq C] [DecidableEq Ip] [DecidableEq D]
  {k : KvmServerLog.Settings C Ip D} {s s' : Server C Ip D} {e : Event C D}

/-- A step of the server is one of the control channel or leaves that
    alone. -/
theorem step_control (hs : step k s e = some s') :
    (∃ a err, e = .control a err ∧
        KvmControl.step k.control k.peerIp s.control a = some s'.control) ∨
      ((∀ a err, e ≠ .control a err) ∧ s'.control = s.control) := by
  cases e with
  | control a err =>
      simp only [step] at hs
      split at hs
      · obtain ⟨w, hw, rfl⟩ := Option.map_eq_some_iff.mp hs
        exact Or.inl ⟨a, err, rfl, hw⟩
      · cases hs
  | file a =>
      obtain ⟨w, -, rfl⟩ := Option.map_eq_some_iff.mp hs
      exact Or.inr ⟨fun _ _ => by simp, rfl⟩
  | _ =>
      rw [← Option.some.inj hs]
      exact Or.inr ⟨fun _ _ => by simp, rfl⟩

/-- **ONE STEP OF A SESSION**. -/
theorem session_step {initial : List String} {c : C} {st : Stage}
    (h : Secure k.control initial s.control ∧ Fits (s.control.conns c) st)
    (hs : step k s e = some s') :
    ∃ st', exec Stage.next st (entries k c s e) = some st' ∧
      Secure k.control initial s'.control ∧
        Fits (s'.control.conns c) st' := by
  rcases step_control hs with ⟨a, err, rfl, hw⟩ | ⟨hno, hsame⟩
  · have hsec := secure_step s.control a s'.control h.1 hw
    by_cases hadv : a = .advance c
    · rw [hadv] at hw ⊢
      obtain ⟨st', hst', hfits⟩ := follows_advance h.1 h.2 hw
      refine ⟨st', ?_, hsec, hfits⟩
      rw [entries, if_pos rfl]
      exact hst'
    · have hquiet : entries k c s (.control a err) = [] := by
        cases a with
        | advance c' =>
            exact if_neg fun hc => hadv (congrArg KvmControl.Action.advance hc)
        | _ => rfl
      rw [hquiet]
      refine ⟨st, rfl, hsec, ?_⟩
      by_cases hactor : a.actor = some c
      · exact fits_quiet h.1 h.2 hactor hadv hw
      · exact h.2.alike (alike_elsewhere hactor hw)
  · have hquiet : entries k c s e = [] := by
      cases e with
      | control a err => exact absurd rfl (hno a err)
      | _ => rfl
    rw [hquiet, hsame]
    exact ⟨st, rfl, h⟩

theorem devices_step (hs : step k s e = some s') :
    s'.control.pairedDevices = newDevices k s e ++ s.control.pairedDevices := by
  rcases step_control hs with ⟨a, err, rfl, hw⟩ | ⟨hno, hsame⟩
  · cases a with
    | advance c => exact (accounted_advance hw).devices
    | _ => exact (accounted_otherwise (by simp) hw).1
  · rw [hsame]
    cases e with
    | control a err => exact absurd rfl (hno a err)
    | _ => rfl

theorem flag_step (hs : step k s e = some s') : FlagAudited k s e s' := by
  rcases step_control hs with ⟨a, err, rfl, hw⟩ | ⟨-, hsame⟩
  · by_cases hadv : ∃ c, a = .advance c
    · obtain ⟨c, rfl⟩ := hadv
      rcases (accounted_advance hw).flag with hflag | hflag
      · exact Or.inl hflag
      · exact Or.inr (Or.inr ⟨c, err, rfl, hflag⟩)
    · rcases (accounted_otherwise (not_exists.mp hadv) hw).2 with
        hflag | ⟨on, rfl⟩
      · exact Or.inl hflag
      · exact Or.inr (Or.inl ⟨on, err, rfl⟩)
  · exact Or.inl (by rw [hsame])

end Server

section Runs

variable [DecidableEq C] [DecidableEq Ip] [DecidableEq D]
  (k : KvmServerLog.Settings C Ip D) (initial : List String) (enabled : Bool)
  (dir : Directory.Dir KvmFileName.Name) (events : List (Event C D))
  (t : Server C Ip D)
  (hrun : exec (step k) (Server.start C Ip D initial enabled dir) events
    = some t)
include hrun

/-- The lines of one connection. -/
theorem session_audited (c : C) :
    ∃ session st,
      outputs (step k) (auditLines k c)
          (Server.start C Ip D initial enabled dir) events
        = session.map (AuditEntry.line k c) ∧
      exec Stage.next .waiting session = some st ∧
      (c ∈ t.control.registry →
        st = .inside (clientName (t.control.conns c))
          (clientFingerprint (t.control.conns c))) ∧
      ((t.control.conns c).registered = true →
        (t.control.conns c).phase = .ended → st = .over) := by
  have hstart : Secure k.control initial
      (Server.start C Ip D initial enabled dir).control ∧
      Fits ((Server.start C Ip D initial enabled dir).control.conns c)
        .waiting :=
    ⟨secure_start k.control initial enabled, fits_before rfl rfl⟩
  have hfree : Guarded (step k) (fun _ _ => True)
      (Server.start C Ip D initial enabled dir) events :=
    guarded_of_forall events _ fun _ _ _ => trivial
  have hstep : ∀ s st e s',
      Secure k.control initial s.control ∧ Fits (s.control.conns c) st →
      True → step k s e = some s' →
      ∃ st', exec Stage.next st (entries k c s e) = some st' ∧
        Secure k.control initial s'.control ∧
          Fits (s'.control.conns c) st' :=
    fun s st e s' h _ hs => session_step h hs
  obtain ⟨st, hst, hsec, hfits⟩ :=
    exec_outputs hstep events _ _ t hstart hfree hrun
  refine ⟨_, st, ?_, hst, ?_, ?_⟩
  · rw [List.map_eq_flatMap]
    refine (outputs_flatMap ?_ events _).symm
    intro s e s' _
    rw [auditLines_eq, List.map_eq_flatMap]
  · intro hin
    have hphase := (hsec.conn c).listed_iff.mp hin
    refine hfits.member ?_
    cases hp : (t.control.conns c).phase with
    | firstClient => rfl
    | looping => rfl
    | storing desired => rfl
    | broadcasting es => rfl
    | clipboard text => rfl
    | leaving => rfl
    | _ =>
        rw [hp] at hphase
        cases hphase
  · intro hreg hend
    rw [Fits, hend] at hfits
    exact hfits hreg

theorem devices_audited :
    t.control.pairedDevices.Perm
      (outputs (step k) (fun s e _ => newDevices k s e)
        (Server.start C Ip D initial enabled dir) events ++ initial) := by
  refine outputs_recorded
    (R := fun s shown => s.control.pairedDevices.Perm (shown ++ initial))
    (fun shown s e s' h hs => ?_) events _ [] t (List.Perm.refl _) hrun
  rw [devices_step hs, List.append_assoc]
  exact (h.append_left _).trans (List.perm_append_comm_assoc ..)

end Runs

/-- **THE AUDIT LOG ACCOUNTS FOR EVERYTHING**: in every run of the server,
    with any number of connections in any interleaving, the audit lines of
    each connection are one session: nothing, or a rejection, or one line that
    lets the device in, toggles in its name, and one line that it is gone.
    Whoever is in the registry has been let in and is not gone; whoever was
    and has ended is gone.  The paired devices are those of the start and
    those audited as new.  And nobody but the capture thread changes the flag
    without a line that names its new value. -/
theorem audit_accounts [DecidableEq C] [DecidableEq Ip] [DecidableEq D]
    (k : KvmServerLog.Settings C Ip D) (initial : List String) (enabled : Bool)
    (dir : Directory.Dir KvmFileName.Name) (events : List (Event C D))
    (t : Server C Ip D)
    (hrun : exec (step k) (Server.start C Ip D initial enabled dir) events
      = some t) :
    (∀ c, ∃ session st,
      outputs (step k) (auditLines k c)
          (Server.start C Ip D initial enabled dir) events
        = session.map (AuditEntry.line k c) ∧
      exec Stage.next .waiting session = some st ∧
      (c ∈ t.control.registry →
        st = .inside (clientName (t.control.conns c))
          (clientFingerprint (t.control.conns c))) ∧
      ((t.control.conns c).registered = true →
        (t.control.conns c).phase = .ended → st = .over)) ∧
      t.control.pairedDevices.Perm
        (outputs (step k) (fun s e _ => newDevices k s e)
          (Server.start C Ip D initial enabled dir) events ++ initial) ∧
      AllSteps (step k) (FlagAudited k)
        (Server.start C Ip D initial enabled dir) events := by
  refine ⟨fun c => session_audited k initial enabled dir events t hrun c,
    devices_audited k initial enabled dir events t hrun, ?_⟩
  have hfree : Guarded (step k) (fun _ _ => True)
      (Server.start C Ip D initial enabled dir) events :=
    guarded_of_forall events _ fun _ _ _ => trivial
  have hflag : ∀ s e s', True → True → step k s e = some s' →
      FlagAudited k s e s' :=
    fun s e s' _ _ hs => flag_step hs
  exact allSteps_of_guarded hflag (fun _ _ _ _ _ _ => trivial) events _
    trivial hfree

/-- One device at a time, and forwarding that follows it. -/
def desk : KvmServerLog.Settings Unit Unit Unit where
  control := { KvmControl.settings with autoForward := true }
  files := settingsA
  peerIp := fun _ => ()
  peerAddr := fun _ => "10.0.0.7:50000".toList
  ipText := fun _ => "10.0.0.7".toList
  debug := fun _ => "FileAccept { .. }".toList

/-- A device that is paired comes back and says `Goodbye`. -/
def visit : List (Event Unit Unit) :=
  let advance : Event Unit Unit := .control (.advance ()) none
  [.control (.receive () (.hello "laptop" PROTOCOL_VERSION
      ⟨true, true, false⟩)) none,
    advance,
    .control (.receive () (.pairRequest (Vector.replicate 16 0)
      "AA:BB:CC:DD:EE:01" (Vector.replicate 32 0))) none,
    advance, advance, advance, advance, advance,
    .control (.receive () .goodbye) none,
    advance, advance, advance]

/-- It is let in, turns the flag on and off, and is gone. -/
theorem audit_accounts_visit :
    ∃ t, exec (step desk) (Server.start Unit Unit Unit ["AA:BB:CC:DD:EE:01"]
        false Directory.Dir.empty) visit = some t ∧
      (∃ session, outputs (step desk) (auditLines desk ())
          (Server.start Unit Unit Unit ["AA:BB:CC:DD:EE:01"] false
            Directory.Dir.empty) visit = session.map (AuditEntry.line desk ()) ∧
        exec Stage.next .waiting session = some .over) ∧
      t.control.forwardingEnabled = false := by
  obtain ⟨t, hrun⟩ := Option.isSome_iff_exists.mp
    (show (exec (step desk) (Server.start Unit Unit Unit ["AA:BB:CC:DD:EE:01"]
      false Directory.Dir.empty) visit).isSome = true by decide)
  have hend : (exec (step desk) (Server.start Unit Unit Unit
      ["AA:BB:CC:DD:EE:01"] false Directory.Dir.empty) visit).map
        (fun t => ((t.control.conns ()).registered,
          (t.control.conns ()).phase, t.control.forwardingEnabled))
      = some (true, .ended, false) := by decide
  rw [hrun] at hend
  obtain ⟨hreg, hphase, hoff⟩ := by
    simpa only [Option.map_some, Option.some.injEq, Prod.mk.injEq] using hend
  obtain ⟨session, st, hlines, hst, -, hover⟩ :=
    (audit_accounts desk _ false Directory.Dir.empty visit t hrun).1 ()
  rw [hover hreg hphase] at hst
  exact ⟨t, hrun, ⟨session, hlines, hst⟩, hoff⟩

end KvmAudit
