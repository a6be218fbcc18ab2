import AutoDeploy.Protocol.Theorems.Leases

namespace AutoDeploy.Protocol

open Function Lib Lib.Result Queue Store Deployment

-- A job marked for cancellation is running or closed.
def Final (v : View) : Prop :=
  Every v.jobs fun _ job => job.cancelRequestedAt.isSome → job.state = .leased ∨ job.state.terminal = true

-- The job is closed, or runs with a mark and the given attempts are still leased.
def Cancelling (jobID : Nat) (leases : Nat → Prop) (v : View) : Prop :=
  At v.jobs jobID fun job => job.state.terminal = true ∨ (job.state = .leased ∧ job.cancelRequestedAt.isSome ∧
    ∀ id, leases id → At v.attempts id fun attempt => attempt.jobID = jobID ∧ attempt.state = .leased)

section

variable {now : Nat} {v v' : View} {kind : Kind} {db db' : DB}

theorem Final.effect (h : Final v) (he : Effect now v kind v') (hkind : kind ≠ .revives) : Final v' := by
  cases he with
  | openSlot _ => exact h
  | freeze _ => exact h
  | candidate _ _ _ _ _ _ _ => exact h
  | lease _ _ _ _ _ _ _ _ _ _ _ _ _ _ _ => exact Every.write (fun id job _ hrow => h id job hrow) fun _ => .inl rfl
  | renew _ _ => exact h
  | close _ _ _ _ _ _ _ hends hwait _ _ _ =>
      refine Every.write (fun id job _ hrow => h id job hrow) fun hmarked => .inr ?_
      rcases hends.state_cases with hstate | hclosed
      · exact absurd hstate (hwait hkind hmarked)
      · exact hclosed
  | cancel _ _ _ _ _ _ => exact Every.write (fun id job _ hrow => h id job hrow) fun _ => .inr rfl
  | mark _ hstate _ _ _ _ _ _ _ _ => exact Every.write (fun id job _ hrow => h id job hrow) fun _ => .inl hstate
  | progress _ _ _ _ => exact h
  | authorize _ _ _ _ _ _ _ _ _ _ _ _ _ _ _ _ _ => exact h
  | block _ _ _ _ _ _ _ _ => exact h
  | evidence _ _ _ _ _ => exact h
  | trace _ _ => exact h
  | activate _ _ _ _ _ _ _ _ _ _ _ _ _ _ _ =>
      exact Every.write (fun id job _ hrow => h id job hrow) fun _ => .inr rfl
  | abandon _ _ _ _ _ _ _ _ _ _ => exact Every.write (fun id job _ hrow => h id job hrow) fun _ => .inr rfl
  | clear _ _ _ _ _ => exact h
  | createHead _ _ => exact h
  | rename _ _ _ _ _ => exact h

theorem Cancelling.effect {jobID : Nat} {leases : Nat → Prop} (h : Cancelling jobID leases v) (ho : Occupancy v)
    (he : Effect now v kind v') (hkind : kind ≠ .revives) : Cancelling jobID leases v' := by
  obtain ⟨job, hrow, hclosed | ⟨hleased, hmarked, hleases⟩⟩ := h
  · refine (he.job_moves ho hrow).imp fun job' hmoves => .inl ?_
    rw [hmoves.closed hclosed]
    exact hclosed
  · obtain ⟨job', hrow', hmoves⟩ := he.job_moves ho hrow
    refine .intro hrow' ?_
    by_cases hclosed : job'.state.terminal = true
    · exact .inl hclosed
    · have hleased' := (hmoves.ended hkind hmarked hleased).resolve_right hclosed
      refine .inr ⟨hleased', ?_, fun id hid => ?_⟩
      · rw [(hmoves.marked hmarked).resolve_right hclosed]
        exact hmarked
      · -- an attempt that closes would have ended the lease of the job
        obtain ⟨attempt, hattempt, hof, hheld⟩ := hleases id hid
        obtain ⟨attempt', hattempt', hages⟩ := he.attempt_ages hattempt
        refine .intro hattempt' ⟨hages.identity.2.2.trans hof, ?_⟩
        by_contra hfreed
        exact (he.closes hattempt hheld hattempt' hfreed).of_row (hof ▸ hrow') hleased'

theorem permits_not_revives (h : ∃ db txn, ¬ Revival now db txn ∧ Permits now db txn kind) : kind ≠ .revives := by
  obtain ⟨db, txn, hnot, hpermits⟩ := h
  exact fun hkind => hnot (hpermits.1 hkind)

theorem final_of_reachable (h : (leaseWhere fun now db txn => ¬ Revival now db txn).Reachable db) :
    Final (view db) := by
  obtain ⟨db₀, hinit, hrun⟩ := h
  have hinit : Initial db₀ := hinit
  refine Sound.run_preserves (P := Final) ⟨hinit.inv, hinit.reconciliations⟩ hrun (fun id job hrow hmarked => ?_)
    fun now v v' kind hpermits _ h he => h.effect he (permits_not_revives hpermits)
  simp [(hinit.jobs id job hrow).2.2.1] at hmarked

-- An accepted request leaves the job closed, or running with a mark.
theorem requestCancellation_cancelling {p : Principal} {jobID : Nat} (h : Sound db)
    (hrequest : requestCancellation now db p jobID = .ok (db', ())) :
    Cancelling jobID (fun id => At (view db').attempts id fun a => a.jobID = jobID ∧ a.state = .leased)
      (view db') := by
  refine (requestCancellation_effects h.inv hrequest).2.imp fun job hjob => ?_
  rcases hjob with hcancelled | ⟨hleased, hmarked⟩
  · exact .inl (by rw [hcancelled]; rfl)
  · exact .inr ⟨hleased, hmarked, fun _ hid => hid⟩

-- Asking again for such a job never reaches the database's checks.
theorem requestCancellation_no_db {p : Principal} {jobID : Nat} {e : Error}
    (h : At (view db).jobs jobID fun job => job.state.terminal = true ∨
      (job.state = .leased ∧ job.cancelRequestedAt.isSome))
    (herror : requestCancellation now db p jobID = .error e) : e.hasDb (fun _ => true) = false := by
  obtain ⟨job, hrow, hjob⟩ := h
  have hrow : db.jobs.get? jobID = some job := hrow
  refine (?_ : Throws (fun e => e.hasDb (fun _ => true) = false) (requestCancellation now db p jobID)) e herror
  refine Throws.bind (.require rfl) fun _ => Throws.bind (.require rfl) fun _ => ?_
  rw [hrow, found_some, ok_bind]
  refine Throws.bind (.require rfl) fun _ => ?_
  cases hstate : job.state with
  | queued => simp [hstate, JobState.terminal] at hjob
  | retryWait => simp [hstate, JobState.terminal] at hjob
  | leased =>
      simp only [hstate, JobState.terminal, Bool.false_eq_true, true_and, false_or] at hjob
      simp only [hjob, if_true]
      exact .pure _
  | cancelled => exact .pure _
  | succeeded => exact .error rfl
  | failed => exact .error rfl
  | dead => exact .error rfl

-- Cancellation is final in runs where no job marked for cancellation is put back to waiting: a marked job
-- never waits for a retry, what closes its attempt closes the job, and asking again never fails in the database.
theorem cancellation_final (h : (leaseWhere fun now db txn => ¬ Revival now db txn).Reachable db) :
    (∀ jobID job, db.jobs.get? jobID = some job → job.cancelRequestedAt.isSome → job.state ≠ .retryWait) ∧
    ∀ now p jobID requested, requestCancellation now db p jobID = .ok (requested, ()) →
      ∀ later, (leaseWhere fun now db txn => ¬ Revival now db txn).Run requested later →
        (∀ attemptID attempt attempt', requested.attempts.get? attemptID = some attempt → attempt.jobID = jobID →
          attempt.state = .leased → later.attempts.get? attemptID = some attempt' → attempt'.state ≠ .leased →
          ∃ job, later.jobs.get? jobID = some job ∧ job.state.terminal = true) ∧
        (∀ now' p' e, requestCancellation now' later p' jobID = .error e → e.hasDb (fun _ => true) = false) := by
  have hsound := sound_of_reachable h
  have hfinal := final_of_reachable h
  refine ⟨fun jobID job hrow hmarked hwait => ?_, fun now p jobID requested hrequest later hrun => ?_⟩
  · rcases hfinal jobID job hrow hmarked with hs | hs
    · simp [hwait] at hs
    · simp [hwait, JobState.terminal] at hs
  · have hstart := requestCancellation_cancelling hsound hrequest
    have hrequested : Sound requested := by
      have hexec := hsound.exec now (.requestCancellation p jobID)
      simpa only [exec, hrequest, committed] using hexec
    have hlater := hrequested.run_preserves (P := Cancelling jobID _) hrun hstart
      fun now v v' kind hpermits hinv h he => h.effect hinv.occupancy he (permits_not_revives hpermits)
    refine ⟨fun attemptID attempt attempt' hrow hof hleased hrow' hclosed => ?_, fun now' p' e herror => ?_⟩
    · obtain ⟨job, hjob, hterminal | ⟨-, -, hleases⟩⟩ := hlater
      · exact ⟨job, hjob, hterminal⟩
      · exact absurd ((hleases attemptID ⟨attempt, hrow, hof, hleased⟩).of_row hrow').2 hclosed
    · exact requestCancellation_no_db (hlater.imp fun job hjob => hjob.imp_right fun hjob => ⟨hjob.1, hjob.2.1⟩) herror

-- The running job of the sample: marked for cancellation, then given up by its agent.
def sampleCancelling : DB := exec 2000 sampleLeased (.requestCancellation samplePrincipal 1)

def sampleAcknowledged : DB :=
  execAll sampleCancelling [(3000, .acknowledgeCancellation "srv" sampleToken 1 1 "ack" sampleToken)]

theorem cancellation_final_acknowledged :
    requestCancellation 2000 sampleLeased samplePrincipal 1 = .ok (sampleCancelling, ()) ∧
    ∃ attempt attempt' job, sampleCancelling.attempts.get? 1 = some attempt ∧ attempt.state = .leased ∧
      sampleAcknowledged.attempts.get? 1 = some attempt' ∧ attempt'.state = .cancelled ∧
      sampleAcknowledged.jobs.get? 1 = some job ∧ job.state.terminal = true := by
  have hstored : (requestCancellation 2000 sampleLeased samplePrincipal 1).isOk = true ∧
      ((sampleCancelling.attempts.get? 1).map fun a => (a.jobID, a.state)) = some (1, .leased) ∧
      ((sampleAcknowledged.attempts.get? 1).map fun a => a.state) = some .cancelled := by
    decide +kernel
  obtain ⟨hok, hleased, hcancelled⟩ := hstored
  have hrequest : requestCancellation 2000 sampleLeased samplePrincipal 1 = .ok (sampleCancelling, ()) := by
    cases hcall : requestCancellation 2000 sampleLeased samplePrincipal 1 with
    | error e => simp [hcall, Except.isOk, Except.toBool] at hok
    | ok answer => simp only [sampleCancelling, exec, hcall, committed]
  obtain ⟨attempt, hrow, hfields⟩ := Option.map_eq_some_iff.1 hleased
  obtain ⟨hof, hstate⟩ := Prod.mk.inj hfields
  obtain ⟨attempt', hrow', hstate'⟩ := Option.map_eq_some_iff.1 hcancelled
  have hreachable : (leaseWhere fun now db txn => ¬ Revival now db txn).Reachable sampleLeased :=
    reachable_execAll (sampleDB_reachable _) (by simp [Revival])
  obtain ⟨job, hjob, hterminal⟩ := ((cancellation_final hreachable).2 2000 samplePrincipal 1 sampleCancelling hrequest
    sampleAcknowledged (run_execAll (by simp [Revival]))).1 1 attempt attempt' hrow hof hstate hrow' (by simp [hstate'])
  exact ⟨hrequest, attempt, attempt', job, hrow, hstate, hrow', hstate', hjob, hterminal⟩

-- ... or reported as failed for a reason that may pass, which puts the job back to waiting.
def sampleRevived : DB :=
  execAll sampleCancelling [(3000, .complete 7 "srv" sampleToken 1 1 ⟨.failed, some .transient, "first", sampleToken⟩)]

theorem cancellation_revived :
    leaseSystem.Reachable sampleRevived ∧
    ((sampleRevived.jobs.get? 1).map fun job => (job.state, job.cancelRequestedAt)) = some (.retryWait, some 2000) ∧
    ∃ e, requestCancellation 4000 sampleRevived samplePrincipal 1 = .error e ∧ e.hasDb (fun _ => true) = true := by
  have hstored : ((sampleRevived.jobs.get? 1).map fun job => (job.state, job.cancelRequestedAt)) =
        some (.retryWait, some 2000) ∧
      (match requestCancellation 4000 sampleRevived samplePrincipal 1 with
        | .ok _ => false
        | .error e => e.hasDb fun _ => true) = true := by
    decide +kernel
  have hreachable : leaseSystem.Reachable sampleLeased :=
    reachable_execAll (sampleDB_reachable _) fun _ _ _ => trivial
  refine ⟨reachable_execAll (reachable_exec hreachable 2000 trivial) fun _ _ _ => trivial, hstored.1, ?_⟩
  cases hcall : requestCancellation 4000 sampleRevived samplePrincipal 1 with
  | ok answer => simp [hcall] at hstored
  | error e => exact ⟨e, rfl, by simpa [hcall] using hstored.2⟩

end

end AutoDeploy.Protocol
