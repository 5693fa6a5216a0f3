import Mathlib.Data.Finset.Erase
import KvmRs.ControlProofs

/-! # Revoking against a running server

    `kvm-server --revoke` is a process of its own: it loads the config file,
    removes the device and saves the file.  A running server has loaded the
    same file when it started, decides by its own copy, and saves that copy
    whole whenever a device pairs.  Neither looks at what the other has done.

    A revoked device stays away from the file and from the running server
    exactly if every revoke saves while the server does not know the device
    and from a copy that brings nobody back, and no pairing saves a copy that
    does (`revocation_lasts_iff`). -/

namespace KvmRevoke

open KvmEnvelope KvmAuth KvmControl Transition

/-! ## Who is let in -/

/-- `handle_client` lets in a paired device, and one with a valid proof. -/
def handleClientAccepts (k : Settings) (paired : Finset String)
    (req : PairRequest) : Bool :=
  decide (req.fingerprint ∈ paired) || proofOk k.sha256 k.pin req

/-- `handle_transfer`'s reply to the first envelope, and whether it goes on:
    any proof will do, but the device must be paired. -/
def onFilePairRequest (paired : Finset String) : Envelope → Envelope × Bool
  | .pairRequest _ fingerprint _ =>
      if fingerprint ∈ paired then (.pairAccept, true)
      else (.pairReject "device not paired; pair over the control channel first",
        false)
  | _ => (.error "expected PairRequest", false)

section Refines

variable {C Ip : Type} [DecidableEq C] [DecidableEq Ip] {k : Settings}
  {ip : C → Ip} {w : World C Ip} {c : C} {req : PairRequest}

/-- The handler that has the config before it goes on to accept the request
    exactly if `handleClientAccepts` says so. -/
theorem handleClientAccepts_iff {paired : Finset String}
    (hpaired : ∀ fp, fp ∈ w.pairedDevices ↔ fp ∈ paired)
    (hp : (w.conns c).phase = .readingConfig req) :
    (∃ n w', exec (step k ip) w (List.replicate n (.advance c)) = some w' ∧
      (w'.conns c).phase = .accepting req) ↔
      handleClientAccepts k paired req = true := by
  by_cases hin : req.fingerprint ∈ w.pairedDevices
  · refine iff_of_true ⟨1, ?_⟩ ?_
    · simp [exec, step, advance, hp, hin, World.set, Conn.goto]
    · simp [handleClientAccepts, (hpaired _).mp hin]
  · have hout : req.fingerprint ∉ paired := fun h => hin ((hpaired _).mpr h)
    by_cases hproof : proofOk k.sha256 k.pin req = true
    · refine iff_of_true ⟨3, ?_⟩ ?_
      · simp [List.replicate, exec, step, advance, hp, hin, hproof, World.set,
          Conn.goto]
      · simp [handleClientAccepts, hproof]
    · refine iff_of_false ?_ ?_
      · rintro ⟨n, w', hrun, hacc⟩
        rcases n with _ | _ | _ | n
        · have hw : w = w' := Option.some.inj hrun
          rw [← hw, hp] at hacc
          cases hacc
        · simp [exec, step, advance, hp, hin] at hrun
          rw [← hrun] at hacc
          simp [World.set, Conn.goto] at hacc
        · simp [List.replicate, exec, step, advance, hp, hin, hproof,
            World.set, Conn.goto] at hrun
          rw [← hrun] at hacc
          simp at hacc
        · simp [List.replicate, exec, step, advance, hp, hin, hproof,
            World.set, Conn.goto] at hrun
      · simp [handleClientAccepts, hout, hproof]

end Refines

/-! ## The processes -/

/-- The operations on a fingerprint that have completed. -/
inductive Op where
  | paired | revoked
  deriving DecidableEq

/-- A running server: its copy of the paired devices, and the fingerprint
    whose pairing holds the config lock between the update and the save. -/
structure Server where
  memory : Finset String
  saving : Option String
  deriving DecidableEq

/-- A `--revoke` run. -/
inductive Revoke where
  | idle
  /-- The config is loaded, the device not yet removed. -/
  | loaded (fp : String) (copy : Finset String)
  | ended
  deriving DecidableEq

variable {R : Type}

/-- The paired devices in the file, the processes, and for each fingerprint
    the operation that completed last. -/
structure Disk (R : Type) where
  file : Finset String
  server : Option Server
  revoke : R → Revoke
  last : String → Option Op

inductive Event (R : Type) where
  /-- The server starts, and loads the config; it stops. -/
  | start
  | stop
  /-- A device has shown a valid proof: the copy is updated under the lock,
      and then saved; saving may fail, which is only logged. -/
  | pairAdd (fp : String)
  | pairSave (ok : Bool)
  | revokeLoad (r : R) (fp : String)
  | revokeSave (r : R) (ok : Bool)
  deriving DecidableEq

def Disk.initial (R : Type) (file : Finset String) : Disk R where
  file := file
  server := none
  revoke := fun _ => .idle
  last := fun _ => none

section System

variable [DecidableEq R]

def next (d : Disk R) : Event R → Option (Disk R)
  | .start =>
      match d.server with
      | none => some { d with server := some ⟨d.file, none⟩ }
      | some _ => none
  | .stop =>
      match d.server with
      | some _ => some { d with server := none }
      | none => none
  | .pairAdd fp =>
      match d.server with
      | some ⟨memory, none⟩ =>
          some { d with server := some ⟨insert fp memory, some fp⟩ }
      | _ => none
  | .pairSave ok =>
      match d.server with
      | some ⟨memory, some fp⟩ =>
          some { d with
            file := if ok then memory else d.file
            server := some ⟨memory, none⟩
            last := Function.update d.last fp (some .paired) }
      | _ => none
  | .revokeLoad r fp =>
      match d.revoke r with
      | .idle =>
          some { d with
            revoke := Function.update d.revoke r (.loaded fp d.file) }
      | _ => none
  | .revokeSave r ok =>
      match d.revoke r with
      | .loaded fp copy =>
          let d := { d with revoke := Function.update d.revoke r .ended }
          -- a device that is not found, or a failed save, is only logged
          if fp ∈ copy ∧ ok = true then
            some { d with
              file := copy.erase fp
              last := Function.update d.last fp (some .revoked) }
          else some d
      | _ => none

end System

/-- Neither `handle_client`, without a valid proof, nor `handle_transfer`
    accepts the fingerprint. -/
def Refused (k : Settings) (paired : Finset String) (fp : String) : Prop :=
  (∀ req : PairRequest, req.fingerprint = fp →
    proofOk k.sha256 k.pin req = false →
    handleClientAccepts k paired req = false) ∧
  ∀ nonce proof,
    (onFilePairRequest paired (.pairRequest nonce fp proof)).2 = false

/-- A fingerprint whose last operation was a revoke is not in the file, and
    the running server refuses it (while a pairing holds the lock, it does
    not decide). -/
def RevocationLasts (k : Settings) (d : Disk R) : Prop :=
  ∀ fp, d.last fp = some .revoked → fp ∉ d.file ∧
    ∀ s, d.server = some s → s.saving = none → Refused k s.memory fp

/-- A set of devices brings nobody back but `fp`. -/
def BringsNobodyBack (d : Disk R) (devices : Finset String) (fp : String) :
    Prop :=
  ∀ g ∈ devices, g ≠ fp → d.last g ≠ some .revoked

/-- A revoke saves while the server does not know the device, and from a copy
    in which nobody else was revoked since; a pairing saves no copy with a
    revoked device. -/
def Unforgotten (d : Disk R) : Event R → Prop
  | .pairSave _ => ∀ memory fp, d.server = some ⟨memory, some fp⟩ →
      BringsNobodyBack d memory fp
  | .revokeSave r ok => ∀ fp copy, d.revoke r = .loaded fp copy →
      fp ∈ copy → ok = true →
      (∀ memory, d.server = some ⟨memory, none⟩ → fp ∉ memory) ∧
        BringsNobodyBack d copy fp
  | _ => True

theorem refused_iff {k : Settings} {paired : Finset String} {fp : String} :
    Refused k paired fp ↔ fp ∉ paired := by
  constructor
  · rintro ⟨-, htransfer⟩ hin
    have hno := htransfer (Vector.replicate 16 0) (Vector.replicate 32 0)
    simp [onFilePairRequest, hin] at hno
  · intro hout
    refine ⟨?_, ?_⟩
    · rintro req rfl hproof
      simp [handleClientAccepts, hout, hproof]
    · intro nonce proof
      simp [onFilePairRequest, hout]

/-! ## One event -/

section Steps

variable {k : Settings} {d : Disk R}

/-- In terms of the file and the server's copy. -/
theorem revocationLasts_iff :
    RevocationLasts k d ↔ ∀ fp, d.last fp = some .revoked → fp ∉ d.file ∧
      ∀ memory, d.server = some ⟨memory, none⟩ → fp ∉ memory := by
  constructor
  · intro h fp hfp
    refine ⟨(h fp hfp).1, fun memory hs => ?_⟩
    exact refused_iff.mp ((h fp hfp).2 _ hs rfl)
  · intro h fp hfp
    refine ⟨(h fp hfp).1, ?_⟩
    rintro ⟨memory, saving⟩ hs hnone
    obtain rfl : saving = none := hnone
    exact refused_iff.mpr ((h fp hfp).2 memory hs)

/-- A pairing saves: exactly if the copy brings nobody back, everybody
    revoked stays revoked. -/
theorem lasts_pairSave_iff (h : RevocationLasts k d) {memory : Finset String}
    {fp : String} (ok : Bool) :
    RevocationLasts k { d with
        file := if ok then memory else d.file
        server := some ⟨memory, none⟩
        last := Function.update d.last fp (some .paired) } ↔
      BringsNobodyBack d memory fp := by
  rw [revocationLasts_iff] at h ⊢
  constructor
  · intro h' g hg hne hrev
    have hlast : Function.update d.last fp (some .paired) g
        = some .revoked := by
      rw [Function.update_of_ne hne]
      exact hrev
    -- the server is free again and decides from the copy it has saved
    exact (h' g hlast).2 memory rfl hg
  · intro hback g hg
    have hne : g ≠ fp := by
      rintro rfl
      simp only [Function.update_self] at hg
      cases hg
    simp only [Function.update_of_ne hne] at hg
    have hout : g ∉ memory := fun hin => hback g hin hne hg
    refine ⟨?_, ?_⟩
    · cases ok with
      | true => exact hout
      | false => exact (h g hg).1
    · intro memory' hs
      obtain rfl := congrArg Server.memory (Option.some.inj hs)
      exact hout

/-- A revoke saves: exactly if the server does not know the device and the
    copy brings nobody back, everybody revoked stays revoked. -/
theorem lasts_revokeSave_iff (h : RevocationLasts k d) {copy : Finset String}
    {fp : String} (revoke : R → Revoke) :
    RevocationLasts k { d with
        file := copy.erase fp
        revoke := revoke
        last := Function.update d.last fp (some .revoked) } ↔
      (∀ memory, d.server = some ⟨memory, none⟩ → fp ∉ memory) ∧
        BringsNobodyBack d copy fp := by
  rw [revocationLasts_iff] at h ⊢
  constructor
  · intro h'
    refine ⟨?_, ?_⟩
    · have hlast : Function.update d.last fp (some .revoked) fp
          = some .revoked := Function.update_self ..
      exact (h' fp hlast).2
    · intro g hg hne hrev
      have hlast : Function.update d.last fp (some .revoked) g
          = some .revoked := by
        rw [Function.update_of_ne hne]
        exact hrev
      exact (h' g hlast).1 (Finset.mem_erase.mpr ⟨hne, hg⟩)
  · rintro ⟨hserver, hback⟩ g hg
    by_cases hne : g = fp
    · rw [hne]
      exact ⟨Finset.notMem_erase fp copy, hserver⟩
    · simp only [Function.update_of_ne hne] at hg
      refine ⟨?_, (h g hg).2⟩
      intro hin
      exact hback g (Finset.mem_of_mem_erase hin) hne hg

variable [DecidableEq R]

/-- What a pairing's save does. -/
theorem next_pairSave {d d' : Disk R} {ok : Bool}
    (hs : next d (.pairSave ok) = some d') :
    ∃ memory fp, d.server = some ⟨memory, some fp⟩ ∧
      d' = { d with
        file := if ok then memory else d.file
        server := some ⟨memory, none⟩
        last := Function.update d.last fp (some .paired) } := by
  simp only [next] at hs
  split at hs
  · rename_i memory fp hserver
    exact ⟨memory, fp, hserver, (Option.some.inj hs).symm⟩
  · cases hs

/-- What a revoke's save does: the device is found and the save succeeds, or
    only the run ends. -/
theorem next_revokeSave {d d' : Disk R} {r : R} {ok : Bool}
    (hs : next d (.revokeSave r ok) = some d') :
    ∃ fp copy, d.revoke r = .loaded fp copy ∧
      ((fp ∈ copy ∧ ok = true) ∧
        d' = { d with
          file := copy.erase fp
          revoke := Function.update d.revoke r .ended
          last := Function.update d.last fp (some .revoked) } ∨
      ¬ (fp ∈ copy ∧ ok = true) ∧
        d' = { d with revoke := Function.update d.revoke r .ended }) := by
  simp only [next] at hs
  split at hs
  · rename_i fp copy hr
    refine ⟨fp, copy, hr, ?_⟩
    split at hs
    · rename_i hsaved
      exact Or.inl ⟨hsaved, (Option.some.inj hs).symm⟩
    · rename_i hnot
      exact Or.inr ⟨hnot, (Option.some.inj hs).symm⟩
  · cases hs

/-- **ONE EVENT** that forgets no revocation keeps them all. -/
theorem lasts_next (d : Disk R) (a : Event R) (d' : Disk R)
    (h : RevocationLasts k d) (hok : Unforgotten d a)
    (hs : next d a = some d') : RevocationLasts k d' := by
  cases a with
  | start =>
      simp only [next] at hs
      split at hs
      · rw [← Option.some.inj hs]
        rw [revocationLasts_iff] at h ⊢
        intro fp hfp
        refine ⟨(h fp hfp).1, ?_⟩
        intro memory hmem
        obtain rfl := congrArg Server.memory (Option.some.inj hmem)
        exact (h fp hfp).1
      · cases hs
  | stop =>
      simp only [next] at hs
      split at hs
      · rw [← Option.some.inj hs]
        exact fun fp hfp => ⟨(h fp hfp).1, fun s hs => nomatch hs⟩
      · cases hs
  | pairAdd fp =>
      simp only [next] at hs
      split at hs
      · rw [← Option.some.inj hs]
        rw [revocationLasts_iff] at h ⊢
        exact fun g hg => ⟨(h g hg).1, fun memory hm => nomatch hm⟩
      · cases hs
  | pairSave ok =>
      obtain ⟨memory, fp, hserver, rfl⟩ := next_pairSave hs
      exact (lasts_pairSave_iff h ok).mpr (hok memory fp hserver)
  | revokeLoad r fp =>
      simp only [next] at hs
      split at hs
      · rw [← Option.some.inj hs]
        exact h
      · cases hs
  | revokeSave r ok =>
      obtain ⟨fp, copy, hr, ⟨hsaved, rfl⟩ | ⟨-, rfl⟩⟩ := next_revokeSave hs
      · exact (lasts_revokeSave_iff h _).mpr (hok fp copy hr hsaved.1 hsaved.2)
      · exact h

/-- An event that forgets a revocation loses it. -/
theorem forgotten_next (d : Disk R) (a : Event R) (d' : Disk R)
    (h : RevocationLasts k d) (hno : ¬ Unforgotten d a)
    (hs : next d a = some d') : ¬ RevocationLasts k d' := by
  intro h'
  cases a with
  | pairSave ok =>
      obtain ⟨memory, fp, hserver, rfl⟩ := next_pairSave hs
      refine hno fun memory' fp' hserver' => ?_
      rw [hserver] at hserver'
      obtain ⟨rfl, hfp⟩ := Server.mk.inj (Option.some.inj hserver')
      obtain rfl := Option.some.inj hfp
      exact (lasts_pairSave_iff h ok).mp h'
  | revokeSave r ok =>
      obtain ⟨fp, copy, hr, hcase⟩ := next_revokeSave hs
      refine hno fun fp' copy' hr' hin hok => ?_
      rw [hr] at hr'
      obtain ⟨rfl, rfl⟩ := Revoke.loaded.inj hr'
      -- a revoke that only ends meets the condition, so this one has saved
      obtain ⟨-, rfl⟩ | ⟨hnot, -⟩ := hcase
      · exact (lasts_revokeSave_iff h _).mp h'
      · exact absurd ⟨hin, hok⟩ hnot
  | start => exact hno trivial
  | stop => exact hno trivial
  | pairAdd fp => exact hno trivial
  | revokeLoad r fp => exact hno trivial

end Steps

/-! ## Whole histories -/

/-- **REVOCATION LASTS EXACTLY IF IT IS NOT FORGOTTEN**: over every
    interleaving of server starts and stops, pairings and revokes on one
    config file, every fingerprint whose last completed operation is a
    revoke stays out of the file and is refused by the running server, exactly
    if every save meets the condition. -/
theorem revocation_lasts_iff [DecidableEq R] (k : Settings)
    (file : Finset String) (acts : List (Event R)) (t : Disk R)
    (hrun : exec next (Disk.initial R file) acts = some t) :
    Always next (RevocationLasts k) (Disk.initial R file) acts ↔
      Guarded next Unforgotten (Disk.initial R file) acts :=
  always_iff_guarded (fun _ h => h) lasts_next forgotten_next acts _ t
    (fun _ h => nomatch h) hrun

/-- A device is revoked before the server starts. -/
theorem revocation_lasts_iff_before_start :
    Always next (RevocationLasts settings) (Disk.initial Unit {"AA"})
      [.revokeLoad () "AA", .revokeSave () true, .start] := by
  refine (revocation_lasts_iff settings {"AA"} _ _ rfl).mpr ?_
  refine ⟨trivial, ?_, trivial, trivial⟩
  intro fp copy hr _ _
  obtain ⟨rfl, rfl⟩ := Revoke.loaded.inj hr
  refine ⟨fun memory hs => (nomatch hs), ?_⟩
  intro g hg hne
  exact absurd (Finset.mem_singleton.mp hg) hne

/-- **A RUNNING SERVER FORGETS**: a device is revoked while the server runs;
    the server goes on accepting it, and the next pairing puts it back into
    the file. -/
theorem running_server_forgets :
    ¬ ∀ (acts : List (Event Unit)) (d : Disk Unit),
      exec next (Disk.initial Unit {"AA"}) acts = some d →
      RevocationLasts settings d := by
  intro hall
  have hlasts := hall [.start, .revokeLoad () "AA", .revokeSave () true,
    .pairAdd "BB", .pairSave true] _ rfl "AA" rfl
  exact absurd hlasts.1 (by decide)

end KvmRevoke
