import AutoDeploy.Lib.Interleaving
import AutoDeploy.Protocol.Access
import AutoDeploy.Protocol.Theorems.Authority
import AutoDeploy.Protocol.Theorems.Expiry

namespace AutoDeploy.Protocol

open Function Lib Lib.Result Queue Store Deployment

-- The revocation of a server among other transactions.

-- What a revocation does before it looks for the server's leases.
def revokeAccess (now : Nat) (db : DB) (p : Principal) (serverID reason : String) : Except Error DB := do
  require (p.valid ∧ validOpaqueID serverID ∧ validReason reason) (.sentinel .serverAuthorizationDenied)
  lockAdministratorSession db now p
  let server ← found ((db.servers.get? serverID).filter fun s => s.ownerID == p.ownerID && s.status == .active)
    (.sentinel .serverAuthorizationDenied)
  during "revoke server" <| require (server.createdAt ≤ now)
    (DbError.checkViolation "servers" "servers_check1")
  let db := { db with servers := db.servers.put serverID { server with status := .revoked, revokedAt := some now } }
  let credential := db.credentials.find? fun _ c => c.serverID == serverID && c.status == .active
  during "revoke server credential" <| require (∀ row ∈ credential, row.2.issuedAt ≤ now)
    (DbError.checkViolation "server_credentials" "server_credentials_check1")
  pure (match credential with
    | none => db
    | some (id, c) =>
        { db with credentials := db.credentials.put id { c with status := .revoked, revokedAt := some now } })

-- The leases it finds.
def inFlightAttempts (db : DB) (serverID : String) : List Nat :=
  ((db.attempts.select fun _ a => a.serverID == serverID && a.state == .leased).insertionSort revokedBefore).map Prod.fst

-- One of them, once its rows are locked.
def revokeAttempt (now : Nat) (draws : Nat → Nat) (db : DB) (attemptID : Nat) : Except Error DB :=
  match inFlight db attemptID with
  | none => pure db
  | some (attempt, job) => do
      let (db, _) ← closeExpiredOrRevokedAttempt now (draws attemptID) db attempt.jobID attemptID
        attempt.environmentID attempt.attemptNumber job.deploymentID job.cancelRequestedAt.isSome
      pure db

-- The transactions that do not lock the row of a server. The last is the block a report writes in a transaction of
-- its own, which does not check the credential again.
def Txn.serverless : Txn → Prop
  | .requestCancellation _ _ => True
  | .expireOne _ _ => True
  | .markReconciled _ _ _ => True
  | .resolveActivation _ _ _ _ => True
  | .assignRouteHostname _ _ _ _ => True
  | .recordBlock _ _ _ => True
  | _ => False

-- The revocation waits for every lock. Its clock reading is fixed; the others may have read theirs at any time.
def revokeAmong (now : Nat) (draws : Nat → Nat) : Loop DB Nat Error where
  other db db' := ∃ t txn, txn.serverless ∧ db' = exec t db txn
  skips _ _ := False
  step := revokeAttempt now draws

-- What one lease needs of the reading and the draw: if it holds no unresolved activation it must end, if its activation
-- is authorized only it must be blocked.
structure Revocable (now : Nat) (draws : Nat → Nat) (db : DB) (attemptID : Nat) : Prop where
  ends : ∀ attempt slot job s, Holds (view db) attemptID attempt slot job → db.deployments.get? job.deploymentID = some s →
    ¬ AttemptUnresolved (view db) attemptID → Endable now (draws attemptID) attempt slot job s
  blocks : ∀ attempt slot job, Holds (view db) attemptID attempt slot job → Every db.operations.get? fun _ op =>
    op.attemptID = attemptID → op.state = .switchAuthorized → slot.updatedAt ≤ now

-- No attempt of the server is leased, but for those whose activation waits for reconciliation.
def Ended (db : DB) (serverID : String) : Prop :=
  Every db.attempts.get? fun id a => a.serverID = serverID → a.state = .leased →
    AttemptUnresolved (view db) id ∧ Every db.operations.get? fun _ op => op.attemptID = id → op.state = .reconciliationRequired

section

variable {db db' : DB} {now draw attemptID : Nat} {draws : Nat → Nat} {p : Principal} {serverID reason : String}
  {attempt : Attempt} {slot : Slot} {job : Job} {s : Snapshot}

-- Alone, a revocation is these parts one after another.
theorem revokeLoop_eq (attempts : List Nat) :
    revokeLoop now draws attempts db = attempts.foldlM (revokeAttempt now draws) db := by
  induction attempts generalizing db with
  | nil => rfl
  | cons attemptID rest ih =>
      rw [List.foldlM_cons, revokeLoop, revokeAttempt]
      cases inFlight db attemptID with
      | none => exact ih
      | some row =>
          simp only [bind_assoc, pure_bind]
          exact bind_congr fun r => ih

theorem revokeServer_eq : revokeServer now draws db p serverID reason = (do
    let db ← revokeAccess now db p serverID reason
    let db ← (inFlightAttempts db serverID).foldlM (revokeAttempt now draws) db
    pure (insertServerAuditEvent db ⟨p.userID, .serverRevoked, some serverID, reason⟩, ())) := by
  unfold revokeServer revokeAccess
  -- the checks and the two updates are the same on both sides
  rewrite [bind_assoc]
  refine bind_congr fun _ => ?_
  rewrite [bind_assoc]
  refine bind_congr fun _ => ?_
  rewrite [bind_assoc]
  refine bind_congr fun server => ?_
  rewrite [bind_assoc]
  refine bind_congr fun _ => ?_
  rewrite [bind_assoc]
  refine bind_congr fun _ => ?_
  rewrite [pure_bind]
  dsimp only [revokeInFlightLeases]
  rewrite [revokeLoop_eq]
  rfl

-- The checks before fail for lack of authority only: the stamps of a timed run are not ahead of its clock.
theorem revokeAccess_denied {clock : Nat} {e : Error} (h : timedSystem.Reachable (clock, db)) (hle : clock ≤ now)
    (herror : revokeAccess now db p serverID reason = .error e) : e = .sentinel .serverAuthorizationDenied := by
  have hregistered := (registered_of_reachable h).mono hle
  have hdenied : Throws (fun e => e = .sentinel .serverAuthorizationDenied)
      (revokeAccess now db p serverID reason) := by
    unfold revokeAccess
    refine .bind (.require rfl) fun _ => .bind (.require rfl) fun _ => ?_
    refine .bind_of_ok (.found rfl) fun server hserver => ?_
    simp only [found_eq_ok, Option.filter_eq_some_iff] at hserver
    have hcreated : server.createdAt ≤ now := hregistered.servers _ server hserver.1
    have hissued : ∀ row ∈ db.credentials.find? fun _ c => c.serverID == serverID && c.status == .active,
        row.2.issuedAt ≤ now := by
      intro row hrow
      exact hregistered.credentials row.1 row.2 (Table.find?_some hrow).1
    simp only [require_pos hcreated, require_pos hissued, during]
    exact .pure _
  exact hdenied e herror

-- What others leave of the rows a block is dated against: no operation is new, and a head is not older than its creation.
structure Revoking (now : Nat) (db : DB) : Prop where
  sound : Sound db
  operations : Every (view db).operations fun _ op => op.createdAt ≤ now
  routeHeads : Every (view db).routeHeads fun _ head => head.createdAt ≤ max head.updatedAt now

theorem Revoking.blockable (h : Revoking now db) (attemptID : Nat) (environmentID : String) :
    Blockable now (view db) attemptID environmentID :=
  ⟨fun id op hop _ => h.operations id op hop, fun head hhead => h.routeHeads environmentID head hhead⟩

variable {t : Nat} {v v' : View} {kind : Kind}

theorem operations_dated (h : Every v.operations fun _ op => op.createdAt ≤ now) (he : Effect t v kind v')
    (hkind : kind ≠ .authorizes) : Every v'.operations fun _ op => op.createdAt ≤ now := by
  cases he with
  | authorize _ _ _ _ _ _ _ _ _ _ _ _ _ _ _ _ _ => exact absurd rfl hkind
  | block _ hoperation _ _ _ _ _ _ => exact h.put (h _ _ hoperation :)
  | evidence hoperation _ _ _ _ => exact h.put (h _ _ hoperation :)
  | activate _ hoperation _ _ _ _ _ _ _ _ _ _ _ _ _ => exact h.put (h _ _ hoperation :)
  | abandon _ hoperation _ _ _ _ _ _ _ _ => exact h.put (h _ _ hoperation :)
  | _ => exact h

-- A later stamp keeps a head dated.
theorem dated_max {created updated : Nat} (h : created ≤ max updated now) : created ≤ max (max updated t) now := by
  omega

theorem routeHeads_dated (h : Every v.routeHeads fun _ head => head.createdAt ≤ max head.updatedAt now)
    (he : Effect t v kind v') : Every v'.routeHeads fun _ head => head.createdAt ≤ max head.updatedAt now := by
  cases he with
  | block _ _ _ _ hhead _ _ _ =>
      refine h.put ?_
      have hdated := h _ _ hhead
      unfold flagged
      split
      · exact hdated
      · exact dated_max hdated
  | activate _ _ _ _ _ _ hhead _ _ _ _ _ _ _ _ =>
      refine h.put ?_
      exact dated_max (h _ _ hhead)
  | abandon _ _ _ _ _ _ hhead _ _ _ =>
      refine h.put ?_
      have hdated := h _ _ hhead
      unfold unflagged
      split
      · exact dated_max hdated
      · exact hdated
  | createHead _ _ => exact h.put (Nat.le_max_left _ _)
  | rename _ _ _ _ hcreated => exact h.put (hcreated.trans (Nat.le_max_left _ _))
  | _ => exact h

theorem Revoking.effects {permitted : Kind → Prop} (h : Revoking now db) (he : Effects t permitted (view db) (view db'))
    (hkind : ¬ permitted .authorizes) (hsound : Sound db') : Revoking now db' := by
  refine ⟨hsound, ?_, ?_⟩
  · refine (he.preserves (P := fun v => Every v.operations fun _ op => op.createdAt ≤ now) h.sound.inv h.operations
      fun _ _ kind hpermitted _ h he => operations_dated h he ?_).2
    rintro rfl
    exact hkind hpermitted
  · exact (he.preserves (P := fun v => Every v.routeHeads fun _ head => head.createdAt ≤ max head.updatedAt now)
      h.sound.inv h.routeHeads fun _ _ _ _ _ h he => routeHeads_dated h he).2

-- A lease that was ended could be ended.
theorem closeAttemptOrdinary_endable (hinv : Inv (view db)) (hh : Holds (view db) attemptID attempt slot job)
    (hs : db.deployments.get? job.deploymentID = some s)
    (h : closeAttemptOrdinary now draw db attempt.jobID attemptID attempt.environmentID attempt.attemptNumber
      job.deploymentID job.cancelRequestedAt.isSome = .ok db') : Endable now draw attempt slot job s := by
  have hleased := ((hinv.occupancy.holds_fitsJob hh).leased hh.leased).1
  have hrunning := ((hinv.pipeline.fitsDeployment _ _ hh.jobRow).of_row hs).running (.inl hleased)
  simp only [closeAttemptOrdinary, bind_eq_ok, during_eq_ok, Prod.exists, pure_eq_ok] at h
  obtain ⟨db₁, _, hattempt, db₂, _, hslot, db₃, hjob, db₄, hdeployment, -⟩ := h
  obtain ⟨-, rfl, -⟩ := (updateAttempt_iff hh.attemptRow rfl).1 hattempt
  obtain ⟨hadvance, rfl, -⟩ := (updateSlot_iff (by exact hh.slotRow) rfl).1 hslot
  obtain ⟨hvalid, rfl⟩ := (endJob_iff (by exact hh.jobRow) hleased).1 hjob
  simp only [validateEnvironmentSlotUpdate, bind_eq_ok, require_eq_ok, exists_const] at hadvance
  obtain ⟨-, -, -, -, -, -, hwait, -, -, hupdated, -⟩ := validateAgentJobUpdate_eq_ok.1 hvalid
  obtain ⟨_, s', -, hends, -⟩ := closure_ends hdeployment hinv.pipeline.stored hs
  refine ⟨hadvance.2.1, hupdated, fun hunmarked hnumber => ?_, fun hover => ?_⟩
  · have hstate : closedJobState job.cancelRequestedAt.isSome attempt.attemptNumber = .retryWait := by
      simp [closedJobState, hunmarked, hnumber]
    simpa [endedJob, hstate] using hwait hstate
  · -- the deployment of a job that is over moves, from a running phase
    have hmoves : ∃ target, running target = false ∧ Moves now target s s' := by
      rcases hover with hmark | hlast
      · have hstate : closedJobState job.cancelRequestedAt.isSome attempt.attemptNumber = .cancelled := by
          simp [closedJobState, hmark]
        rw [hstate] at hends
        cases hends with
        | cancelled hmove => exact ⟨.cancelled, rfl, hmove⟩
        | kept hkept => simp at hkept
        | failed hfailed _ => simp at hfailed
      · by_cases hmark : job.cancelRequestedAt.isSome = true
        · have hstate : closedJobState job.cancelRequestedAt.isSome attempt.attemptNumber = .cancelled := by
            simp [closedJobState, hmark]
          rw [hstate] at hends
          cases hends with
          | cancelled hmove => exact ⟨.cancelled, rfl, hmove⟩
          | kept hkept => simp at hkept
          | failed hfailed _ => simp at hfailed
        · have hstate : closedJobState job.cancelRequestedAt.isSome attempt.attemptNumber = .dead := by
            simp [closedJobState, hmark, hlast]
          rw [hstate] at hends
          cases hends with
          | failed _ hmove => exact ⟨.failed, rfl, hmove⟩
          | kept hkept => simp at hkept
    obtain ⟨target, hnot, hmove⟩ := hmoves
    cases hmove with
    | step _ _ hlate => exact hlate
    | same hstatus =>
        rw [hstatus, hnot] at hrunning
        cases hrunning

theorem block_slotDated {operationID : Nat} {op : Operation} {summary : Bytes} (hinv : Inv (view db))
    (hopen : Open (view db) attemptID operationID attempt slot job op) (hstate : op.state = .switchAuthorized)
    (h : blockActivationForReconciliation now db attempt.jobID attemptID operationID attempt.environmentID summary =
      .ok db') : slot.updatedAt ≤ now := by
  obtain ⟨head, hhead, -⟩ := hopen.head hinv
  have hhead' : db.routeHeads.get? attempt.environmentID = some head := hhead
  simp only [blockActivationForReconciliation, bind_eq_ok, during_eq_ok, require_eq_ok, Prod.exists, hhead',
    pure_eq_ok] at h
  obtain ⟨db₁, n, hoperation, _, -, db₂, hflag, db₃, m, hslot, _, -, -⟩ := h
  obtain ⟨-, rfl, -⟩ := (updateOperation_iff hopen.operationRow (by simp [hstate])).1 hoperation
  obtain ⟨heads, rfl, -⟩ := flag_eq_ok hflag hhead
  obtain ⟨hflagged, -, -⟩ := (updateSlot_iff (by exact hopen.holds.slotRow) rfl).1 hslot
  simp only [validateEnvironmentSlotUpdate, bind_eq_ok, require_eq_ok, exists_const] at hflagged
  exact hflagged.2.1

-- The activation a diversion finds is the attempt's only one.
theorem divert_slotDated {operationID : Nat} {op : Operation} {r : DB × Bool} (hinv : Inv (view db))
    (hh : Holds (view db) attemptID attempt slot job) (hop : db.operations.get? operationID = some op)
    (hof : op.attemptID = attemptID) (hstate : op.state = .switchAuthorized)
    (h : divertUnresolvedActivation now db attempt.jobID attemptID attempt.environmentID = .ok r) :
    slot.updatedAt ≤ now := by
  have henvironment := ((hinv.activations.ofAttempt operationID op hop).of_row (hof ▸ hh.attemptRow)).environment
  have hfind : db.operations.find? (fun _ op => op.attemptID == attemptID && op.environmentID == attempt.environmentID &&
      unresolvedActivation op.state) = some (operationID, op) := by
    refine Table.find?_eq_of_unique hop (by simp [hof, henvironment, hstate]) fun other op' hop' hcond => ?_
    simp only [Bool.and_eq_true, beq_iff_eq] at hcond
    exact hinv.activations.unique other op' hop' operationID op hop (hcond.1.1.trans hof.symm)
  simp only [divertUnresolvedActivation, hfind, hstate, ne_eq, not_true_eq_false, if_false, bind_eq_ok] at h
  obtain ⟨db₁, hblock, -⟩ := h
  exact block_slotDated hinv ⟨hh, hop, hof, by simp [hstate]⟩ hstate hblock

-- A lease is ended or blocked by the revocation exactly when no row it writes carries a later stamp.
theorem Revoking.revokeAttempt_iff (h : Revoking now db) (hpositive : 0 < now) :
    Succeeds (revokeAttempt now draws db attemptID) ↔ Revocable now draws db attemptID := by
  have hinv := h.sound.inv
  constructor
  · rintro ⟨db', hok⟩
    refine ⟨fun attempt slot job s hh hs hresolved => ?_, fun attempt slot job hh operationID op hop hof hstate => ?_⟩
    · simp only [revokeAttempt, inFlight_of_holds hinv hh, closeExpiredOrRevokedAttempt, bind_eq_ok, Prod.exists] at hok
      obtain ⟨_, _, ⟨db₁, d, hdivert, hrest⟩, -⟩ := hok
      rcases divert_cases hinv hh hdivert with ⟨rfl, rfl, -⟩ | ⟨-, hunresolved, -⟩
      · simp only [Bool.false_eq_true, if_false, bind_eq_ok] at hrest
        obtain ⟨db₂, hordinary, -⟩ := hrest
        exact closeAttemptOrdinary_endable hinv hh hs hordinary
      · exact absurd hunresolved hresolved
    · simp only [revokeAttempt, inFlight_of_holds hinv hh, closeExpiredOrRevokedAttempt, bind_eq_ok, Prod.exists] at hok
      obtain ⟨_, _, ⟨db₁, d, hdivert, -⟩, -⟩ := hok
      exact divert_slotDated hinv hh hop hof hstate hdivert
  · intro hrevocable
    unfold revokeAttempt
    split
    · exact .pure _
    · rename_i attempt job hflight
      obtain ⟨slot, hh, -⟩ := inFlight_eq_some hflight
      obtain ⟨s, hs, -⟩ := hinv.pipeline.fitsDeployment _ _ hh.jobRow
      refine .bind_all (closeExpiredOrRevokedAttempt_accepted hinv hpositive hh hs
        (hrevocable.ends attempt slot job s hh hs) (hrevocable.blocks attempt slot job hh) (h.blockable _ _)) fun _ _ => .pure _

-- Every attempt of the server is handled or still to come.
def Settling (serverID : String) (pending : List Nat) (v : View) : Prop :=
  Every v.attempts fun id a => a.serverID = serverID → Handled v id ∨ id ∈ pending

-- Only a claim gives a server a new attempt.
theorem Settling.effect {pending : List Nat} (h : Settling serverID pending v) (he : Effect t v kind v')
    (hkind : kind ≠ .leases) : Settling serverID pending v' := by
  intro id a' hrow' hserver
  cases hrow : v.attempts id with
  | none => exact absurd (he.new_attempt hrow hrow').1 hkind
  | some a =>
      have hages := (he.attempt_ages hrow).of_row hrow'
      rcases h id a hrow (hages.serverID.symm.trans hserver) with hhandled | hpending
      · exact .inl (hhandled.effect he)
      · exact .inr hpending

theorem Settling.effects {pending : List Nat} {permitted : Kind → Prop} (h : Settling serverID pending v) (hinv : Inv v)
    (he : Effects t permitted v v') (hkind : ¬ permitted .leases) : Settling serverID pending v' := by
  refine (he.preserves (P := Settling serverID pending) hinv h fun _ _ kind hpermitted _ h he => h.effect he ?_).2
  rintro rfl
  exact hkind hpermitted

theorem settling_inFlight (db : DB) (serverID : String) :
    Settling serverID (inFlightAttempts db serverID) (view db) := by
  intro id a hrow hserver
  by_cases hleased : a.state = .leased
  · right
    refine List.mem_map.2 ⟨(id, a), ?_, rfl⟩
    refine (List.perm_insertionSort revokedBefore _).mem_iff.2 ((Table.mem_select _ _ _ _).2 ⟨hrow, ?_⟩)
    simp [hserver, hleased]
  · exact .inl ⟨a, hrow, fun h => absurd h hleased⟩

-- Once nothing is to come, the leases that are left are blocked ones.
theorem Settling.ended (h : Settling serverID [] (view db)) (hinv : Inv (view db)) : Ended db serverID := by
  intro id a hrow hserver hleased
  obtain hhandled | hpending := h id a hrow hserver
  · obtain ⟨operationID, op, hop, hof, hstate⟩ := hhandled.of_row hrow hleased
    refine ⟨⟨operationID, op, hop, hof, by simp [hstate]⟩, fun other op' hop' hof' => ?_⟩
    have hsame := hinv.activations.unique other op' hop' operationID op hop (hof'.trans hof.symm)
    subst hsame
    cases hop'.symm.trans hop
    exact hstate
  · cases hpending

-- What a revocation finds whenever it locks a lease.
structure RevokingServer (now : Nat) (serverID : String) (db : DB) (pending : List Nat) : Prop where
  revoking : Revoking now db
  settling : Settling serverID pending (view db)

-- A transaction that does not lock the row of a server neither activates nor claims.
theorem Txn.serverless_permits {txn : Txn} (h : txn.serverless) :
    ¬ Permits t db txn .authorizes ∧ ¬ Permits t db txn .leases := by
  refine ⟨fun hpermits => ?_, fun hpermits => ?_⟩
  · have hactivation := hpermits.authorizes rfl
    cases txn with
    | activate _ _ _ _ _ => exact h
    | _ => exact hactivation
  · have hclaim := hpermits.leases rfl
    cases txn with
    | claim _ _ _ => exact h
    | _ => exact hclaim

theorem Revoking.other (h : Revoking now db) (hother : (revokeAmong now draws).other db db') : Revoking now db' := by
  obtain ⟨t, txn, hserverless, rfl⟩ := hother
  exact h.effects (exec_effects h.sound.inv h.sound.reconciliations txn) (Txn.serverless_permits hserverless).1
    (h.sound.exec t txn)

theorem RevokingServer.other {pending : List Nat} (h : RevokingServer now serverID db pending)
    (hother : (revokeAmong now draws).other db db') : RevokingServer now serverID db' pending := by
  refine ⟨h.revoking.other hother, ?_⟩
  obtain ⟨t, txn, hserverless, rfl⟩ := hother
  have hsound := h.revoking.sound
  exact h.settling.effects hsound.inv (exec_effects hsound.inv hsound.reconciliations txn : Effects t _ _ _)
    (Txn.serverless_permits hserverless).2

theorem RevokingServer.step {rest : List Nat} (h : RevokingServer now serverID db (attemptID :: rest))
    (hstep : revokeAttempt now draws db attemptID = .ok db') : RevokingServer now serverID db' rest := by
  have hinv := h.revoking.sound.inv
  unfold revokeAttempt at hstep
  split at hstep
  · rename_i hflight
    simp only [pure_eq_ok] at hstep
    subst hstep
    refine ⟨h.revoking, fun id a hrow hserver => ?_⟩
    rcases h.settling id a hrow hserver with hhandled | hpending
    · exact .inl hhandled
    · rcases List.mem_cons.1 hpending with rfl | hrest
      · -- an attempt that is not in flight is closed
        refine .inl ⟨a, hrow, fun hleased => ?_⟩
        obtain ⟨slot, job, hh⟩ := hinv.occupancy.holds hrow hleased
        rw [inFlight_of_holds hinv hh] at hflight
        cases hflight
      · exact .inr hrest
  · rename_i attempt job hflight
    obtain ⟨slot, hh, -⟩ := inFlight_eq_some hflight
    simp only [bind_eq_ok, Prod.exists, pure_eq_ok] at hstep
    obtain ⟨db₁, diverted, hclose, rfl⟩ := hstep
    have he := closeExpiredOrRevokedAttempt_effects hinv hh hclose
    have hhandled := (closeExpiredOrRevokedAttempt_ends hinv hh hclose).handled hh.attemptRow
    have hrecon := (he.preserves (P := Reconciliations) hinv h.revoking.sound.reconciliations
      fun _ _ _ _ hinv hrecon he => hrecon.effect hinv he).2
    refine ⟨h.revoking.effects he (by simp [Ordinary]) ⟨hinv.effects he, hrecon⟩, fun id a hrow hserver => ?_⟩
    rcases h.settling.effects hinv he (by simp [Ordinary]) id a hrow hserver with hdone | hpending
    · exact .inl hdone
    · rcases List.mem_cons.1 hpending with rfl | hrest
      · exact .inl hhandled
      · exact .inr hrest

theorem revokeAccess_view {revoked : DB} (h : revokeAccess now db p serverID reason = .ok revoked) :
    view revoked = view db := by
  simp only [revokeAccess, bind_eq_ok, pure_eq_ok] at h
  obtain ⟨_, -, _, -, server, -, _, -, _, -, rfl⟩ := h
  split <;> rfl

theorem revoking_of_timed (h : Timed now db) : Revoking now db where
  sound := h.sound
  operations := h.clocked.operations
  routeHeads environmentID head hhead := (h.clocked.routeHeads environmentID head hhead).1.trans (Nat.le_max_right _ _)

-- A revocation waits for the locks of its leases. Once it has revoked the server, whatever commits before it looks for
-- the leases and between them, a lease is refused exactly when one of the rows it writes carries a later stamp. If no
-- lease is refused, the revocation ends every one of them.
theorem revocation_survives_others {clock : Nat} (h : timedSystem.Reachable (clock, db)) (hle : clock ≤ now) :
    (∀ e, revokeAccess now db p serverID reason = .error e → e = .sentinel .serverAuthorizationDenied) ∧
    ∀ revoked db₁, revokeAccess now db p serverID reason = .ok revoked →
      Relation.ReflTransGen (revokeAmong now draws).other revoked db₁ →
      (∀ q, (revokeAmong now draws).Run (Revocable now draws) ⟨db₁, inFlightAttempts db₁ serverID, none⟩ q →
        q.failed = none ∧ (q.pending = [] → Ended q.state serverID)) ∧
      ∀ q attemptID rest, (revokeAmong now draws).Run (fun _ _ => True) ⟨db₁, inFlightAttempts db₁ serverID, none⟩ q →
        q.pending = attemptID :: rest →
        (Succeeds (revokeAttempt now draws q.state attemptID) ↔ Revocable now draws q.state attemptID) := by
  have htimed := (timed_of_reachable h).mono hle
  refine ⟨fun e => revokeAccess_denied h hle, fun revoked db₁ hrevoke hothers => ?_⟩
  have hview := revokeAccess_view hrevoke
  have hrevoked : Revoking now revoked := by
    have hrevoking := revoking_of_timed htimed
    refine ⟨⟨?_, ?_⟩, ?_, ?_⟩
    · exact hview ▸ hrevoking.sound.inv
    · exact hview ▸ hrevoking.sound.reconciliations
    · exact hview ▸ hrevoking.operations
    · exact hview ▸ hrevoking.routeHeads
  have hstart : RevokingServer now serverID db₁ (inFlightAttempts db₁ serverID) :=
    ⟨chain_preserves (fun _ _ h hother => h.other hother) hothers hrevoked, settling_inFlight db₁ serverID⟩
  refine ⟨fun q hrun => ⟨?_, fun hdone => ?_⟩, fun q attemptID rest hrun _ => ?_⟩
  · exact hrun.never_fails (P := RevokingServer now serverID) (fun _ _ _ h hother => h.other hother)
      (fun _ _ _ _ hskip => hskip.elim) (fun _ _ _ _ h _ hok => h.step hok)
      (fun _ _ _ h hrevocable => (h.revoking.revokeAttempt_iff htimed.positive).2 hrevocable) hstart rfl
  · have hend := hrun.invariant (P := RevokingServer now serverID) (fun _ _ _ h hother => h.other hother)
      (fun _ _ _ _ hskip => hskip.elim) (fun _ _ _ _ h _ hok => h.step hok) hstart
    have hsettling := hend.settling
    rw [hdone] at hsettling
    exact hsettling.ended hend.revoking.sound.inv
  · have hnow := hrun.invariant (P := RevokingServer now serverID) (fun _ _ _ h hother => h.other hother)
      (fun _ _ _ _ hskip => hskip.elim) (fun _ _ _ _ h _ hok => h.step hok) hstart
    exact hnow.revoking.revokeAttempt_iff htimed.positive

end

-- The owner of the sample gets a second administrator, who cancels the leased job while the first one revokes the server.
def secondPrincipal : Principal := ⟨"usr2", "own", "ses2", 1, true⟩

def sampleStaffed : DB :=
  exec 1500 sampleLeased (.administer
    { sampleLeased.administration with
      users := sampleLeased.administration.users.put "usr2" ⟨"own", 1, true⟩
      sessions := sampleLeased.administration.sessions.put "ses2" ⟨"usr2", "own", 1, 10 ^ 12, 10 ^ 12, false⟩ }
    sampleLeased.servers sampleLeased.credentials)

theorem sampleStaffed_timed : timedSystem.Reachable (1500, sampleStaffed) := by
  have hregistered := (registered_of_reachable sampleLeased_timed).mono (by norm_num : 1000 ≤ 1500)
  exact sampleLeased_timed.step ⟨.administer _ _ _, by norm_num, hregistered, rfl⟩

theorem revocation_survives_earlier_cancellation :
    ∃ revoked q, revokeAccess 3000 sampleStaffed samplePrincipal "srv" "lost" = .ok revoked ∧
      (revokeAmong 3000 fun _ => 7).Run (Revocable 3000 fun _ => 7)
        ⟨exec 2500 revoked (.requestCancellation secondPrincipal 1), [1], none⟩ q ∧
      q.pending = [] ∧ q.failed = none ∧ Ended q.state "srv" := by
  have hstored : ((revokeAccess 3000 sampleStaffed samplePrincipal "srv" "lost").toOption.any fun revoked =>
      decide (inFlightAttempts (exec 2500 revoked (.requestCancellation secondPrincipal 1)) "srv" = [1]) &&
        (revokeAttempt 3000 (fun _ => 7) (exec 2500 revoked (.requestCancellation secondPrincipal 1)) 1).isOk) = true := by
    decide +kernel
  obtain ⟨revoked, hrevoke, hrest⟩ := ok_of_any hstored
  simp only [Bool.and_eq_true, decide_eq_true_eq] at hrest
  obtain ⟨hflight, hok⟩ := hrest
  have hother : (revokeAmong 3000 fun _ => 7).other revoked (exec 2500 revoked (.requestCancellation secondPrincipal 1)) :=
    ⟨2500, .requestCancellation secondPrincipal 1, trivial, rfl⟩
  obtain ⟨hruns, hiff⟩ := (revocation_survives_others sampleStaffed_timed (by norm_num : 1500 ≤ 3000)).2 revoked _ hrevoke
    (.single hother)
  rw [hflight] at hruns hiff
  cases hstep : revokeAttempt 3000 (fun _ => 7) (exec 2500 revoked (.requestCancellation secondPrincipal 1)) 1 with
  | error e =>
      rw [hstep] at hok
      cases hok
  | ok db' =>
      have hrevocable := (hiff _ 1 [] .refl rfl).1 ⟨db', hstep⟩
      have hrun : (revokeAmong 3000 fun _ => 7).Run (Revocable 3000 fun _ => 7)
          ⟨exec 2500 revoked (.requestCancellation secondPrincipal 1), [1], none⟩ ⟨db', [], none⟩ :=
        .single (.step hrevocable hstep)
      obtain ⟨hnone, hended⟩ := hruns _ hrun
      exact ⟨revoked, _, hrevoke, hrun, rfl, hnone, hended rfl⟩

theorem revocation_refused_after_cancellation :
    timedSystem.Reachable (1500, sampleStaffed) ∧
    ∃ revoked, revokeAccess 2000 sampleStaffed samplePrincipal "srv" "lost" = .ok revoked ∧
      inFlightAttempts revoked "srv" = [1] ∧
      (revokeAmong 2000 fun _ => 7).Run (fun _ _ => True) ⟨revoked, [1], none⟩
        ⟨exec 3000 revoked (.requestCancellation secondPrincipal 1), [1],
          some (.wrap "close agent job" (.db (.raised "agent job updated_at must be monotonic")))⟩ := by
  have hstored : ((revokeAccess 2000 sampleStaffed samplePrincipal "srv" "lost").toOption.any fun revoked =>
      decide (inFlightAttempts revoked "srv" = [1]) &&
        failsWith (revokeAttempt 2000 (fun _ => 7) (exec 3000 revoked (.requestCancellation secondPrincipal 1)) 1)
          (.wrap "close agent job" (.db (.raised "agent job updated_at must be monotonic")))) = true := by
    decide +kernel
  obtain ⟨revoked, hrevoke, hrest⟩ := ok_of_any hstored
  simp only [Bool.and_eq_true, decide_eq_true_eq] at hrest
  obtain ⟨hflight, hfails⟩ := hrest
  have hother : (revokeAmong 2000 fun _ => 7).Next (fun _ _ => True) ⟨revoked, [1], none⟩
      ⟨exec 3000 revoked (.requestCancellation secondPrincipal 1), [1], none⟩ :=
    .other ⟨3000, .requestCancellation secondPrincipal 1, trivial, rfl⟩
  exact ⟨sampleStaffed_timed, revoked, hrevoke, hflight, .head hother (.single (.fail trivial (error_of_failsWith hfails)))⟩

end AutoDeploy.Protocol
