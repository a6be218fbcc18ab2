import AutoDeploy.Protocol.Theorems.Resolution

namespace AutoDeploy.Protocol

open Function Lib Lib.Result Queue Store Deployment

-- A declared outcome, repeated or contradicted.

-- The call that declared it: the attempt's server for the attempt it names, or the owner for the attempt that flags the
-- environment, or the newest one if none does.
inductive Declared (db : DB) (environmentID : String) (attemptID : Nat) (outcome : ActivationOutcome) :
    Option Digest → DB → Prop
  | agent {db' : DB} {now fence : Nat} {serverID : String} {presented digest : Digest}
      (h : reconcileActivation now db serverID presented environmentID attemptID fence outcome digest = .ok (db', ())) :
      Declared db environmentID attemptID outcome (some digest) db'
  | owner {db' : DB} {now : Nat} {p : Principal} {reason : String} {slot : Slot}
      (hslot : db.slots.get? environmentID = some slot)
      (hof : slot.reconciliationAttemptID = some attemptID ∨
        (slot.reconciliationAttemptID = none ∧ newestAttempt db environmentID = some attemptID))
      (h : resolveActivation now db p environmentID outcome reason = .ok (db', ())) :
      Declared db environmentID attemptID outcome none db'

-- What the database says of it: the attempt is closed, its reconciliation is recorded, and its activation came to the
-- declared outcome.
structure Answered (v : View) (environmentID : String) (attemptID : Nat) (attempt : Attempt) (digest : Digest)
    (outcome : ActivationOutcome) : Prop where
  row : v.attempts attemptID = some attempt
  environment : attempt.environmentID = environmentID
  closed : attempt.state ≠ .leased
  recorded : Recorded v attempt.jobID attemptID
  answers : Answers v attemptID digest outcome

section

variable {db db' : DB} {now attemptID fence : Nat} {environmentID : String} {attempt : Attempt} {digest : Digest}
  {outcome outcome' : ActivationOutcome} {v v' : View} {kind : Kind}

theorem Effect.jobEvents_append (he : Effect now v kind v') : ∃ events, v'.jobEvents = v.jobEvents ++ events := by
  cases he with
  | lease _ _ _ _ _ _ _ _ _ _ _ _ _ _ _ => exact ⟨_, rfl⟩
  | close _ _ _ _ _ _ _ _ _ _ _ _ => exact ⟨_, rfl⟩
  | cancel _ _ _ _ _ _ => exact ⟨_, rfl⟩
  | mark _ _ _ _ _ _ _ _ _ _ => exact ⟨_, rfl⟩
  | authorize _ _ _ _ _ _ _ _ _ _ _ _ _ _ _ _ _ => exact ⟨_, rfl⟩
  | block _ _ _ _ _ _ _ _ => exact ⟨_, rfl⟩
  | evidence _ _ _ _ _ => exact ⟨_, rfl⟩
  | trace _ _ => exact ⟨_, rfl⟩
  | activate _ _ _ _ _ _ _ _ _ _ _ _ _ _ _ => exact ⟨_, rfl⟩
  | abandon _ _ _ _ _ _ _ _ _ _ => exact ⟨_, rfl⟩
  | clear _ _ _ _ _ => exact ⟨_, rfl⟩
  | _ => exact ⟨[], (List.append_nil _).symm⟩

-- It stays so.
theorem Answered.effect (h : Answered v environmentID attemptID attempt digest outcome) (he : Effect now v kind v') :
    Answered v' environmentID attemptID attempt digest outcome where
  row := he.closed_attempt h.row h.closed
  environment := h.environment
  closed := h.closed
  recorded := by
    obtain ⟨events, hevents⟩ := he.jobEvents_append
    obtain ⟨e, hmem, hevent⟩ := h.recorded
    exact ⟨e, hevents ▸ List.mem_append_left _ hmem, hevent⟩
  answers := h.answers.effect ⟨attempt, h.row, h.closed⟩ he

theorem max?_ids {α : Type} {rows : List (Nat × α)} {id : Nat} (hmem : id ∈ rows.map Prod.fst)
    (hle : ∀ other ∈ rows.map Prod.fst, other ≤ id) : (rows.map Prod.fst).max? = some id :=
  List.max?_eq_some_iff.2 ⟨hmem, hle⟩

-- The activation of an attempt, of which there is one at most.
theorem latestOperation_eq {operationID : Nat} {op : Operation} (hinv : Inv (view db))
    (hop : db.operations.get? operationID = some op) (hof : op.attemptID = attemptID) :
    latestOperation db attemptID = some op := by
  have hmax : ((db.operations.select fun _ op => op.attemptID == attemptID).map Prod.fst).max? = some operationID := by
    refine max?_ids (List.mem_map.2 ⟨(operationID, op), (Table.mem_select _ _ _ _).2 ⟨hop, by simp [hof]⟩, rfl⟩) ?_
    intro other hother
    obtain ⟨⟨_, op'⟩, hrow, rfl⟩ := List.mem_map.1 hother
    obtain ⟨hop', hof'⟩ := (Table.mem_select _ _ _ _).1 hrow
    have hsame := hinv.activations.unique _ op' hop' operationID op hop ((beq_iff_eq.1 hof').trans hof.symm)
    exact Nat.le_of_eq hsame
  unfold latestOperation
  rw [hmax]
  exact hop

theorem latestOperation_none (h : ∀ id op, db.operations.get? id = some op → op.attemptID ≠ attemptID) :
    latestOperation db attemptID = none := by
  have hnil : (db.operations.select fun _ op => op.attemptID == attemptID) = [] := by
    refine List.eq_nil_iff_forall_not_mem.2 fun row hrow => ?_
    obtain ⟨hop, hof⟩ := (Table.mem_select _ _ _ _).1 hrow
    exact h row.1 row.2 hop (beq_iff_eq.1 hof)
  simp [latestOperation, hnil]

-- So a repeat is judged by what the activation came to.
theorem agreeResolvedOutcome_eq (hinv : Inv (view db)) (h : Answers (view db) attemptID digest outcome)
    (presented : Option Digest) :
    agreeResolvedOutcome db attemptID outcome' presented =
      if outcome' = outcome ∧ (outcome = .activated → ∀ x ∈ presented, x = digest) then .ok ()
      else .error (.sentinel .integrityConflict) := by
  cases outcome with
  | activated =>
      obtain ⟨id, op, hop, hof, hstate, hdigest⟩ := h
      simp only [agreeResolvedOutcome, latestOperation_eq hinv hop hof, Option.map_some, hstate, pure_bind, forall_const]
      by_cases hsame : outcome' = .activated
      · simp [hsame, require, hdigest]
      · simp [hsame, require]
  | notActivated =>
      obtain ⟨id, op, hop, hof, hstate⟩ := h
      simp only [agreeResolvedOutcome, latestOperation_eq hinv hop hof, Option.map_some, hstate, pure_bind]
      by_cases hsame : outcome' = .notActivated
      · simp [hsame, require]
      · simp [hsame, require]
  | noActivation =>
      simp only [agreeResolvedOutcome, latestOperation_none h, Option.map_none, pure_bind]
      by_cases hsame : outcome' = .noActivation
      · simp [hsame, require]
      · simp [hsame, require]

-- What is agreed to is what the activation came to.
theorem agreeResolvedOutcome_answers {presented : Option Digest} (hinv : Inv (view db))
    (h : agreeResolvedOutcome db attemptID outcome presented = .ok ()) :
    ∃ digest, (outcome = .activated → ∀ x ∈ presented, x = digest) ∧ Answers (view db) attemptID digest outcome := by
  by_cases hany : ∃ id op, db.operations.get? id = some op ∧ op.attemptID = attemptID
  · obtain ⟨id, op, hop, hof⟩ := hany
    have hlatest := latestOperation_eq hinv hop hof
    cases hstate : op.state with
    | succeeded =>
        have hanswers : Answers (view db) attemptID op.routeDigest .activated := ⟨id, op, hop, hof, hstate, rfl⟩
        rw [agreeResolvedOutcome_eq hinv hanswers] at h
        split at h
        · rename_i hagree
          rw [hagree.1]
          exact ⟨op.routeDigest, hagree.2, hanswers⟩
        · cases h
    | failed =>
        have hanswers : Answers (view db) attemptID op.routeDigest .notActivated := ⟨id, op, hop, hof, hstate⟩
        rw [agreeResolvedOutcome_eq hinv hanswers] at h
        split at h
        · rename_i hagree
          rw [hagree.1]
          exact ⟨op.routeDigest, by simp, hanswers⟩
        · cases h
    | started => simp [agreeResolvedOutcome, hlatest, hstate] at h
    | switchAuthorized => simp [agreeResolvedOutcome, hlatest, hstate] at h
    | reconciliationRequired => simp [agreeResolvedOutcome, hlatest, hstate] at h
  · have hanswers : Answers (view db) attemptID (Sha256.sum []) .noActivation :=
      fun id op hop hof => hany ⟨id, op, hop, hof⟩
    rw [agreeResolvedOutcome_eq hinv hanswers] at h
    split at h
    · rename_i hagree
      rw [hagree.1]
      exact ⟨Sha256.sum [], by simp, hanswers⟩
    · cases h

theorem newestAttempt_iff : newestAttempt db environmentID = some attemptID ↔
    (At db.attempts.get? attemptID fun a => a.environmentID = environmentID) ∧
      Every db.attempts.get? fun other a => a.environmentID = environmentID → other ≤ attemptID := by
  have hmem (id : Nat) : id ∈ (db.attempts.select fun _ a => a.environmentID == environmentID).map Prod.fst ↔
      At db.attempts.get? id fun a => a.environmentID = environmentID := by
    constructor
    · intro hid
      obtain ⟨⟨_, a⟩, hrow, rfl⟩ := List.mem_map.1 hid
      obtain ⟨ha, hof⟩ := (Table.mem_select _ _ _ _).1 hrow
      exact ⟨a, ha, beq_iff_eq.1 hof⟩
    · rintro ⟨a, ha, hof⟩
      exact List.mem_map.2 ⟨(id, a), (Table.mem_select _ _ _ _).2 ⟨ha, by simp [hof]⟩, rfl⟩
  unfold newestAttempt
  rw [List.max?_eq_some_iff, hmem]
  constructor
  · rintro ⟨hrow, hle⟩
    exact ⟨hrow, fun other a ha hof => hle other ((hmem other).2 ⟨a, ha, hof⟩)⟩
  · rintro ⟨hrow, hle⟩
    refine ⟨hrow, fun other hother => ?_⟩
    obtain ⟨a, ha, hof⟩ := (hmem other).1 hother
    exact hle other a ha hof

-- A recorded reconciliation is one of a closed attempt that flags nothing.
theorem recorded_released {e : JobEvent} (h : Sound db) (hmem : e ∈ db.jobEvents) (hattempt : e.attemptID = some attemptID)
    (htype : e.eventType = .reconciled) : ∃ attempt, db.attempts.get? attemptID = some attempt ∧ attempt.state ≠ .leased ∧
      Recorded (view db) attempt.jobID attemptID := by
  obtain ⟨⟨attempt, hrow, hjob, hclosed⟩, -⟩ := h.reconciliations.recorded e hmem htype attemptID hattempt
  exact ⟨attempt, hrow, hclosed, e, hmem, hjob.symm, hattempt, htype⟩

theorem Declares.answered {declared : Option Digest} (h : Declares now db db' attempt.jobID attemptID outcome declared)
    (hinv : Inv (view db)) (hrecon : Reconciliations (view db)) (hrow : db.attempts.get? attemptID = some attempt)
    (henvironment : attempt.environmentID = environmentID) :
    ∃ attempt' digest, (outcome = .activated → ∀ x ∈ declared, x = digest) ∧
      attempt'.serverID = attempt.serverID ∧ attempt'.fence = attempt.fence ∧
      Answered (view db') environmentID attemptID attempt' digest outcome := by
  obtain ⟨digest, hdigest, hanswers⟩ := h.answers
  obtain ⟨attempt', hrow', hages⟩ := h.effect.attempt_ages hrow
  have hrecon' := hrecon.effect hinv h.effect
  obtain ⟨e, hmem, hjob, hof, htype⟩ := h.recorded
  have hclosed := ((hrecon'.recorded e hmem htype attemptID hof).closed.of_row hrow').2
  refine ⟨attempt', digest, hdigest, hages.serverID, hages.identity.2.1, hrow', hages.identity.1.trans henvironment, hclosed, ?_,
    hanswers⟩
  rw [hages.identity.2.2]
  exact h.recorded

-- A declaration that succeeded is recorded.
theorem Declared.answered {declared : Option Digest} (hsound : Sound db)
    (h : Declared db environmentID attemptID outcome declared db') :
    ∃ attempt digest, (outcome = .activated → ∀ x ∈ declared, x = digest) ∧
      Answered (view db') environmentID attemptID attempt digest outcome := by
  have hinv := hsound.inv
  have hrecon := hsound.reconciliations
  cases h with
  | agent hcall =>
      obtain ⟨slot, attempt, hslot, hattempt, hof, ⟨rfl, hevent, hagree⟩ | hdeclares⟩ :=
        reconcileActivation_cases hinv hrecon hcall
      · obtain ⟨digest, hdigest, hanswers⟩ := agreeResolvedOutcome_answers hinv hagree
        simp only [reconciledEvent, List.any_eq_true, Bool.and_eq_true, beq_iff_eq] at hevent
        obtain ⟨e, hmem, ⟨-, hattemptID⟩, htype⟩ := hevent
        obtain ⟨attempt', hrow, hclosed, hrecorded⟩ := recorded_released hsound hmem hattemptID htype
        cases hattempt.symm.trans hrow
        exact ⟨attempt, digest, hdigest, hattempt, hof.2.1, hclosed, hrecorded, hanswers⟩
      · obtain ⟨attempt', digest, hdigest, -, -, hanswered⟩ := hdeclares.answered hinv hrecon hattempt hof.2.1
        exact ⟨attempt', digest, hdigest, hanswered⟩
  | @owner _ _ p _ slot hslot hof hcall =>
      obtain ⟨slot', hslot', ⟨hnone, rfl, hconfirm⟩ | ⟨flagged, attempt, hflag, hattempt, hdeclares⟩⟩ :=
        resolveActivation_cases hinv hrecon hcall
      · cases hslot.symm.trans hslot'
        obtain ⟨-, hnewest⟩ := hof.resolve_left (by simp [hnone])
        simp only [confirmResolvedOutcome, hnewest, bind_eq_ok, found_eq_ok, require_eq_ok, Option.some.injEq] at hconfirm
        obtain ⟨_, rfl, job, -, _, ⟨-, hevent⟩, hagree⟩ := hconfirm
        obtain ⟨digest, hdigest, hanswers⟩ := agreeResolvedOutcome_answers hinv hagree
        simp only [List.any_eq_true, Bool.and_eq_true, beq_iff_eq] at hevent
        obtain ⟨e, hmem, hattemptID, htype⟩ := hevent
        obtain ⟨attempt, hrow, hclosed, hrecorded⟩ := recorded_released hsound hmem hattemptID htype
        have hof := (newestAttempt_iff.1 hnewest).1.of_row hrow
        exact ⟨attempt, digest, hdigest, hrow, hof, hclosed, hrecorded, hanswers⟩
      · cases hslot.symm.trans hslot'
        have hsame : flagged = attemptID := by
          rcases hof with hnamed | ⟨hnone, -⟩
          · exact Option.some.inj (hflag.symm.trans hnamed)
          · rw [hnone] at hflag
            cases hflag
        subst hsame
        have henvironment := (hinv.occupancy.flag_environment hattempt hslot hflag).symm
        obtain ⟨attempt', digest, hdigest, -, -, hanswered⟩ := hdeclares.answered hinv hrecon hattempt henvironment
        exact ⟨attempt', digest, hdigest, hanswered⟩

theorem Answered.unflagged (h : Answered (view db) environmentID attemptID attempt digest outcome) (hsound : Sound db) :
    Every db.slots.get? fun _ slot => slot.reconciliationAttemptID ≠ some attemptID := by
  obtain ⟨e, hmem, -, hof, htype⟩ := h.recorded
  exact (hsound.reconciliations.recorded e hmem htype attemptID hof).unflagged

-- Its server gets the same answer again, or a conflict.
theorem Answered.reconcile_repeat {presented digest' : Digest} {owner : String}
    (h : Answered (view db) environmentID attemptID attempt digest outcome) (hsound : Sound db)
    (hrequest : validOpaqueID attempt.serverID = true ∧ validOpaqueID environmentID = true ∧ 0 < attemptID)
    (hlock : lockActiveServerCredential db attempt.serverID presented = .ok owner) :
    reconcileActivation now db attempt.serverID presented environmentID attemptID attempt.fence outcome' digest' =
      if outcome' = outcome ∧ (outcome = .activated → digest' = digest) then .ok (db, ())
      else .error (.sentinel .integrityConflict) := by
  have hinv := hsound.inv
  have hrow : db.attempts.get? attemptID = some attempt := h.row
  obtain ⟨-, hfence, -, hclosedAt, -, -⟩ := checkAttempt_eq_ok.1 (hinv.occupancy.checked attemptID attempt hrow)
  obtain ⟨slot, hslot, -⟩ := hinv.occupancy.fitsSlot attemptID attempt hrow
  have hslot : db.slots.get? environmentID = some slot := h.environment ▸ hslot
  have hflag := h.unflagged hsound environmentID slot hslot
  have hevent : reconciledEvent db attempt.jobID attemptID = true := by
    obtain ⟨e, hmem, hjob, hof, htype⟩ := h.recorded
    have hmem : e ∈ db.jobEvents := hmem
    simp only [reconciledEvent, List.any_eq_true, Bool.and_eq_true, beq_iff_eq]
    exact ⟨e, hmem, ⟨hjob, hof⟩, htype⟩
  have hvalid : validOpaqueID attempt.serverID = true ∧ validOpaqueID environmentID = true ∧ 0 < attemptID ∧
      0 < attempt.fence := ⟨hrequest.1, hrequest.2.1, hrequest.2.2, hfence⟩
  have hclosed : attempt.state ≠ .leased ∧ attempt.closedAt.isSome = true := ⟨h.closed, hclosedAt.1 h.closed⟩
  have hnamed : True ∧ attempt.environmentID = environmentID ∧ True := ⟨trivial, h.environment, trivial⟩
  simp only [reconcileActivation, require_pos hvalid, hlock, hslot, hrow, found_some, ok_bind, if_pos hflag,
    require_pos hnamed, require_pos hclosed, require_pos hevent,
    agreeResolvedOutcome_eq hinv h.answers, Option.mem_def, Option.some.injEq, forall_eq']
  split <;> rfl

-- So does the owner, as long as the environment has no newer attempt.
theorem Answered.resolve_repeat {p : Principal} {reason : String}
    (h : Answered (view db) environmentID attemptID attempt digest outcome) (hsound : Sound db)
    (hnewest : Every db.attempts.get? fun other a => a.environmentID = environmentID → other ≤ attemptID)
    (hvalid : p.valid = true ∧ validOpaqueID environmentID = true) (hlive : administratorSessionLive db now p = true)
    (howner : At db.jobs.get? attempt.jobID fun job => job.ownerID = p.ownerID)
    (hreason : validReason ("outcome=" ++ outcome'.text ++ "; " ++ reason) = true) :
    resolveActivation now db p environmentID outcome' reason =
      if outcome' = outcome then .ok (db, ()) else .error (.sentinel .integrityConflict) := by
  have hinv := hsound.inv
  have hrow : db.attempts.get? attemptID = some attempt := h.row
  obtain ⟨slot, hslot, -⟩ := hinv.occupancy.fitsSlot attemptID attempt hrow
  have hslot : db.slots.get? environmentID = some slot := h.environment ▸ hslot
  have hflag : slot.reconciliationAttemptID = none := by
    -- a flag names the newest attempt, which is this one
    cases hflag : slot.reconciliationAttemptID with
    | none => rfl
    | some id =>
        have hge := hinv.occupancy.flagNewest environmentID slot hslot id hflag attemptID attempt hrow h.environment
        obtain ⟨a, ha, hof⟩ := (hinv.occupancy.flag environmentID slot hslot id hflag).2
        have hle := hnewest id a ha hof
        have hsame : id = attemptID := by omega
        exact absurd (hsame ▸ hflag) (h.unflagged hsound environmentID slot hslot)
  have hattempt : newestAttempt db environmentID = some attemptID :=
    newestAttempt_iff.2 ⟨⟨attempt, hrow, h.environment⟩, hnewest⟩
  obtain ⟨job, hjob, howner⟩ := howner
  have hfound : (db.attempts.get? attemptID).bind (fun a => db.jobs.get? a.jobID) = some job := by
    rw [hrow]
    exact hjob
  have hevent : db.jobEvents.any (fun e => e.attemptID == some attemptID && e.eventType == .reconciled) = true := by
    obtain ⟨e, hmem, -, hof, htype⟩ := h.recorded
    have hmem : e ∈ db.jobEvents := hmem
    simp only [List.any_eq_true, Bool.and_eq_true, beq_iff_eq]
    exact ⟨e, hmem, hof, htype⟩
  have hsession : lockAdministratorSession db now p = .ok () := require_pos ⟨hvalid.1, hlive⟩
  have hconfirm : confirmResolvedOutcome db p environmentID outcome' =
      if outcome' = outcome then .ok () else .error (.sentinel .integrityConflict) := by
    simp only [confirmResolvedOutcome, hattempt, hfound, found_some, ok_bind, require_pos (And.intro howner hevent),
      agreeResolvedOutcome_eq hinv h.answers]
    simp
  simp only [resolveActivation, require_pos hvalid, require_pos hreason, hsession, hslot, found_some, ok_bind, hflag, hconfirm]
  split <;> rfl

-- An unflagged environment answers for its newest attempt only.
theorem resolveActivation_newest {p : Principal} {reason : String} {slot : Slot} (hsound : Sound db)
    (hslot : db.slots.get? environmentID = some slot) (hflag : slot.reconciliationAttemptID = none)
    (h : resolveActivation now db p environmentID outcome reason = .ok (db', ())) :
    db' = db ∧ ∃ newest, newestAttempt db environmentID = some newest ∧
      agreeResolvedOutcome db newest outcome none = .ok () ∧
      ∃ e ∈ db.jobEvents, e.attemptID = some newest ∧ e.eventType = .reconciled := by
  obtain ⟨slot', hslot', ⟨-, hsame, hconfirm⟩ | ⟨_, _, hflagged, -, -⟩⟩ :=
    resolveActivation_cases hsound.inv hsound.reconciliations h
  · refine ⟨hsame, ?_⟩
    simp only [confirmResolvedOutcome, bind_eq_ok, found_eq_ok, require_eq_ok, List.any_eq_true, Bool.and_eq_true,
      beq_iff_eq] at hconfirm
    obtain ⟨newest, hnewest, job, -, _, ⟨-, e, hmem, hof, htype⟩, hagree⟩ := hconfirm
    exact ⟨newest, hnewest, hagree, e, hmem, hof, htype⟩
  · cases hslot.symm.trans hslot'
    rw [hflag] at hflagged
    cases hflagged

-- Once an outcome is declared, whatever runs later, the attempt's server is answered the same again while it presents
-- its active credential, and the owner while the environment has no newer attempt; another outcome or digest is a
-- conflict. With a newer attempt, an unflagged environment answers for the newest one.
theorem declared_resolution_repeats {declared : Option Digest} (h : leaseSystem.Reachable db)
    (hdeclared : Declared db environmentID attemptID outcome declared db') :
    ∃ attempt digest, db'.attempts.get? attemptID = some attempt ∧ (outcome = .activated → ∀ x ∈ declared, x = digest) ∧
      ∀ later, leaseSystem.Run db' later →
        (∀ now presented owner outcome' digest', validOpaqueID attempt.serverID = true →
          validOpaqueID environmentID = true → 0 < attemptID →
          lockActiveServerCredential later attempt.serverID presented = .ok owner →
          reconcileActivation now later attempt.serverID presented environmentID attemptID attempt.fence outcome' digest' =
            if outcome' = outcome ∧ (outcome = .activated → digest' = digest) then .ok (later, ())
            else .error (.sentinel .integrityConflict)) ∧
        ((Every later.attempts.get? fun other a => a.environmentID = environmentID → other ≤ attemptID) →
          ∀ now p outcome' reason, p.valid = true → validOpaqueID environmentID = true →
          administratorSessionLive later now p = true →
          (At later.jobs.get? attempt.jobID fun job => job.ownerID = p.ownerID) →
          validReason ("outcome=" ++ outcome'.text ++ "; " ++ reason) = true →
          resolveActivation now later p environmentID outcome' reason =
            if outcome' = outcome then .ok (later, ()) else .error (.sentinel .integrityConflict)) ∧
        ∀ newer a, later.attempts.get? newer = some a → a.environmentID = environmentID → attemptID < newer →
          ∀ now p outcome' reason slot later', later.slots.get? environmentID = some slot →
          slot.reconciliationAttemptID = none →
          resolveActivation now later p environmentID outcome' reason = .ok (later', ()) →
          later' = later ∧ ∃ newest, attemptID < newest ∧ newestAttempt later environmentID = some newest ∧
            agreeResolvedOutcome later newest outcome' none = .ok () ∧
            ∃ e ∈ later.jobEvents, e.attemptID = some newest ∧ e.eventType = .reconciled := by
  have hsound : Sound db := sound_of_reachable h
  obtain ⟨attempt, digest, hdigest, hanswered⟩ := hdeclared.answered hsound
  have hsound' : Sound db' := by
    cases hdeclared with
    | @agent _ now fence serverID presented digest hcall =>
        have hexec : exec now db (.reconcileActivation serverID presented environmentID attemptID fence outcome digest) = db' := by
          simp only [exec, hcall, committed]
        exact hexec ▸ hsound.exec now _
    | @owner _ now p reason slot _ _ hcall =>
        have hexec : exec now db (.resolveActivation p environmentID outcome reason) = db' := by
          simp only [exec, hcall, committed]
        exact hexec ▸ hsound.exec now _
  refine ⟨attempt, digest, hanswered.row, hdigest, fun later hrun => ?_⟩
  have hlater : Sound later := hsound'.run hrun
  have hstill : Answered (view later) environmentID attemptID attempt digest outcome :=
    hsound'.run_preserves (P := fun v => Answered v environmentID attemptID attempt digest outcome) hrun hanswered
      fun _ _ _ _ _ _ h he => h.effect he
  refine ⟨fun now presented owner outcome' digest' hserver henvironment hpositive hlock => ?_,
    fun hnewest now p outcome' reason hvalid henvironment hlive howner hreason => ?_,
    fun newer a hnewer hof hlt now p outcome' reason slot later' hslot hflag hcall => ?_⟩
  · exact hstill.reconcile_repeat hlater ⟨hserver, henvironment, hpositive⟩ hlock
  · exact hstill.resolve_repeat hlater hnewest ⟨hvalid, henvironment⟩ hlive howner hreason
  · obtain ⟨hsame, newest, hnewest, hagree, hevent⟩ := resolveActivation_newest hlater hslot hflag hcall
    have hle := (newestAttempt_iff.1 hnewest).2 newer a hnewer hof
    exact ⟨hsame, newest, Nat.lt_of_lt_of_le hlt hle, hnewest, hagree, hevent⟩

end

-- The server of the blocked sample declares its activation given up; then it is revoked.
def sampleDeclared : DB :=
  execAll sampleBlocked [(300 * second, .reconcileActivation "srv" sampleToken "env" 1 1 .notActivated sampleToken)]

def sampleDisowned : DB := execAll sampleDeclared [(400 * second, .revokeServer (fun _ => 7) samplePrincipal "srv" "lost")]

theorem execAll_agent {db : DB} {now attemptID fence : Nat} {serverID environmentID : String} {presented digest : Digest}
    {outcome : ActivationOutcome} {answer : DB × Unit}
    (h : reconcileActivation now db serverID presented environmentID attemptID fence outcome digest = .ok answer) :
    execAll db [(now, .reconcileActivation serverID presented environmentID attemptID fence outcome digest)] = answer.1 := by
  simp only [execAll, List.foldl_cons, List.foldl_nil, exec, h, committed]

theorem sampleDeclared_declared : Declared sampleBlocked "env" 1 .notActivated (some sampleToken) sampleDeclared := by
  have hcall : ((reconcileActivation (300 * second) sampleBlocked "srv" sampleToken "env" 1 1 .notActivated
      sampleToken).toOption.any fun _ => true) = true := by
    rw [sampleBlocked, sampleAuthorized_eq]
    decide +kernel
  obtain ⟨answer, hresult, -⟩ := ok_of_any hcall
  rw [sampleDeclared, execAll_agent hresult]
  exact .agent hresult

theorem declared_resolution_repeats_declined :
    reconcileActivation (400 * second) sampleDeclared "srv" sampleToken "env" 1 1 .notActivated sampleToken =
        .ok (sampleDeclared, ()) ∧
      reconcileActivation (400 * second) sampleDeclared "srv" sampleToken "env" 1 1 .activated sampleToken =
        .error (.sentinel .integrityConflict) ∧
      resolveActivation (400 * second) sampleDeclared samplePrincipal "env" .notActivated "checked" =
        .ok (sampleDeclared, ()) := by
  have hstored : (sampleDeclared.attempts.get? 1).any (fun a =>
        decide (a.serverID = "srv" ∧ a.fence = 1 ∧ a.jobID = 1)) = true ∧
      (sampleDeclared.jobs.get? 1).any (fun job => job.ownerID == "own") = true ∧
      (sampleDeclared.attempts.rows.all fun row => row.1 ≤ 1) = true ∧
      lockActiveServerCredential sampleDeclared "srv" sampleToken = .ok "own" ∧
      administratorSessionLive sampleDeclared (400 * second) samplePrincipal = true ∧
      validReason ("outcome=not_activated; " ++ "checked") = true := by
    rw [sampleDeclared, sampleBlocked, sampleAuthorized_eq]
    decide +kernel
  obtain ⟨hattempt, hjob, honly, hlock, hlive, hreason⟩ := hstored
  have hreachable : leaseSystem.Reachable sampleBlocked := timedSystem_reachable sampleBlocked_timed
  obtain ⟨attempt, digest, hrow, -, hruns⟩ := declared_resolution_repeats hreachable sampleDeclared_declared
  obtain ⟨hagent, howner, -⟩ := hruns sampleDeclared .refl
  rw [hrow] at hattempt
  simp only [Option.any_some, decide_eq_true_eq] at hattempt
  obtain ⟨hserver, hfence, hof⟩ := hattempt
  rw [hserver, hfence] at hagent
  simp only [Option.any_eq_true, beq_iff_eq] at hjob
  rw [← hof] at hjob
  have hnewest : Every sampleDeclared.attempts.get? fun other a => a.environmentID = "env" → other ≤ 1 := by
    intro other a ha _
    simpa using List.all_eq_true.1 honly _ ((Table.mem_rows_iff _ _ _).2 ha)
  refine ⟨?_, ?_, ?_⟩
  · exact hagent (400 * second) sampleToken "own" .notActivated sampleToken rfl rfl Nat.one_pos hlock
  · exact hagent (400 * second) sampleToken "own" .activated sampleToken rfl rfl Nat.one_pos hlock
  · exact howner hnewest (400 * second) samplePrincipal .notActivated "checked" rfl rfl hlive hjob hreason

theorem declared_resolution_refused_after_revocation :
    leaseSystem.Reachable sampleBlocked ∧
    Declared sampleBlocked "env" 1 .notActivated (some sampleToken) sampleDeclared ∧
    leaseSystem.Run sampleDeclared sampleDisowned ∧
    reconcileActivation (500 * second) sampleDisowned "srv" sampleToken "env" 1 1 .notActivated sampleToken =
      .error (.sentinel .serverAuthorizationDenied) := by
  have hfails : failsWith (reconcileActivation (500 * second) sampleDisowned "srv" sampleToken "env" 1 1 .notActivated
      sampleToken) (.sentinel .serverAuthorizationDenied) = true := by
    rw [sampleDisowned, sampleDeclared, sampleBlocked, sampleAuthorized_eq]
    decide +kernel
  exact ⟨timedSystem_reachable sampleBlocked_timed, sampleDeclared_declared, run_execAll fun _ _ _ => trivial,
    error_of_failsWith hfails⟩

end AutoDeploy.Protocol
