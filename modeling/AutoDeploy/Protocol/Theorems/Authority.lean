import AutoDeploy.Protocol.Authority
import AutoDeploy.Protocol.Theorems.Leases

namespace AutoDeploy.Protocol

open Function Lib Lib.Result Queue Store Deployment

-- The attempts a transaction gives time to: those a claim leases, and the one a renewal extends.
def Grants (now : Nat) (db : DB) (txn : Txn) (attemptID : Nat) : Prop :=
  match txn with
  | .claim _ _ _ => db.attempts.get? attemptID = none ∧ (exec now db txn).attempts.get? attemptID ≠ none
  | .renew _ _ renewed _ _ => renewed = attemptID ∧
      (exec now db txn).attempts.get? attemptID ≠ db.attempts.get? attemptID
  | _ => False

-- The timed system with a record of when each attempt was last given time.
def grantedSystem : System (Nat × DB × (Nat → Nat)) where
  initial state := timedSystem.initial (state.1, state.2.1)
  next state state' := ∃ txn, state.1 ≤ state'.1 ∧ Stamped state'.1 txn ∧ state'.2.1 = exec state'.1 state.2.1 txn ∧
    ∀ id, (Grants state'.1 state.2.1 txn id → state'.2.2 id = state'.1) ∧
      (¬ Grants state'.1 state.2.1 txn id → state'.2.2 id = state.2.2 id)

-- No call with the attempt's authority succeeds. A completion or an acknowledgement of a closed attempt only repeats
-- its answer, and is not one.
structure Powerless (now : Nat) (db : DB) (attemptID : Nat) : Prop where
  renew : ∀ serverID presented fence sequence answer,
    renew now db serverID presented attemptID fence sequence ≠ .ok answer
  complete : (At db.attempts.get? attemptID fun a => a.state = .leased) → ∀ draw serverID presented fence r answer,
    complete now draw db serverID presented attemptID fence r ≠ .ok answer
  activate : ∀ serverID presented fence imageDigest answer,
    activate now db serverID presented attemptID fence imageDigest ≠ .ok answer
  acknowledgeCancellation : (At db.attempts.get? attemptID fun a => a.state = .leased) →
    ∀ serverID presented fence operationID resultDigest answer,
    acknowledgeCancellation now db serverID presented attemptID fence operationID resultDigest ≠ .ok answer
  reportProgress : ∀ serverID presented fence phase answer,
    reportProgress now db serverID presented attemptID fence phase ≠ .ok answer
  authorizeMaterialization : ∀ serverID presented fence answer,
    authorizeMaterialization now db serverID presented attemptID fence ≠ .ok answer
  authorizeCheckout : ∀ serverID presented fence answer,
    authorizeCheckout now db serverID presented attemptID fence ≠ .ok answer

section

variable {clock now attemptID deadline : Nat} {db db' : DB} {granted granted' : Nat → Nat} {state state' : Nat × DB}

-- Every timed run has its record.
theorem granted_of_timed (h : timedSystem.Reachable state) :
    ∃ granted, grantedSystem.Reachable (state.1, state.2, granted) := by
  obtain ⟨state₀, hinit, hrun⟩ := h
  induction hrun with
  | refl => exact ⟨fun _ => 0, .of_initial hinit⟩
  | @tail state state' _ hnext ih =>
      obtain ⟨granted, hreachable⟩ := ih
      obtain ⟨txn, hle, hstamped, hexec⟩ := hnext
      classical
      refine ⟨fun id => if Grants state'.1 state.2 txn id then state'.1 else granted id, hreachable.step ?_⟩
      exact ⟨txn, hle, hstamped, hexec, fun id => ⟨fun h => if_pos h, fun h => if_neg h⟩⟩

theorem timed_of_granted (h : grantedSystem.Reachable (clock, db, granted)) : timedSystem.Reachable (clock, db) := by
  refine System.Reachable.invariant (P := fun state : Nat × DB × (Nat → Nat) => timedSystem.Reachable (state.1, state.2.1))
    ?_ ?_ h
  · rintro ⟨clock, db, granted⟩ hinit
    exact .of_initial hinit
  · rintro ⟨clock, db, granted⟩ ⟨clock', db', granted'⟩ h ⟨txn, hle, hstamped, hexec, -⟩
    exact h.step ⟨txn, hle, hstamped, hexec⟩

theorem renewedExpiry_le (attempt : Attempt) : renewedExpiry now attempt ≤ now + leaseDuration := by
  unfold renewedExpiry
  split
  · exact Nat.min_le_right _ _
  · exact Nat.le_refl _

-- A renewal touches one attempt, and gives it one lease from now.
theorem renew_rows {serverID : String} {presented : Digest} {fence sequence : Nat} {result : RenewalResult}
    (h : renew now db serverID presented attemptID fence sequence = .ok (db', result)) :
    (∀ id, id ≠ attemptID → db'.attempts.get? id = db.attempts.get? id) ∧
      (db'.attempts.get? attemptID = db.attempts.get? attemptID ∨
        At db'.attempts.get? attemptID fun a => a.authorityExpiresAt ≤ now + leaseDuration) := by
  simp only [renew, bind_eq_ok, require_eq_ok] at h
  obtain ⟨_, -, l, hl, _, hlive, h⟩ := h
  have hholds := holds_of_occupies hl hlive.1
  split at h
  · simp only [pure_eq_ok, Prod.mk.injEq] at h
    rw [← h.1]
    exact ⟨fun _ _ => rfl, .inl rfl⟩
  · simp only [bind_eq_ok, require_eq_ok, during_eq_ok, Prod.exists, pure_eq_ok, Prod.mk.injEq] at h
    obtain ⟨_, -, db₁, n, hupdate, rfl, -⟩ := h
    obtain ⟨-, rfl, -⟩ := (updateAttempt_iff hholds.attemptRow rfl).1 hupdate
    refine ⟨fun id hid => ?_, .inr ⟨_, Table.get?_put_self _ _ _, renewedExpiry_le _⟩⟩
    simp [putAttempt, Table.get?_put, hid]

-- The record bounds the deadlines after a renewal ...
theorem granted_renew {serverID : String} {presented : Digest} {fence sequence : Nat} (h : Granted granted (view db))
    (hyes : ∀ id, Grants now db (.renew serverID presented attemptID fence sequence) id → granted' id = now)
    (hno : ∀ id, ¬ Grants now db (.renew serverID presented attemptID fence sequence) id → granted' id = granted id) :
    Granted granted' (view (exec now db (.renew serverID presented attemptID fence sequence))) := by
  intro id a hrow
  have hrow : (exec now db (.renew serverID presented attemptID fence sequence)).attempts.get? id = some a := hrow
  by_cases hsame : (exec now db (.renew serverID presented attemptID fence sequence)).attempts.get? id =
      db.attempts.get? id
  · rw [hno id fun hgrants => hgrants.2 hsame]
    exact h id a (hsame.symm.trans hrow)
  · cases hrenew : renew now db serverID presented attemptID fence sequence with
    | error e => exact absurd (by simp [exec, hrenew, committed]) hsame
    | ok answer =>
        obtain ⟨hrest, hone⟩ := renew_rows hrenew
        by_cases hid : id = attemptID
        · subst hid
          rw [hyes id ⟨rfl, hsame⟩]
          simp only [exec, hrenew, committed] at hrow hsame
          exact (hone.resolve_left hsame).of_row hrow
        · exact absurd (by simpa [exec, hrenew, committed] using hrest id hid) hsame

-- ... and after every other transaction.
theorem granted_exec {txn : Txn} (h : Granted granted (view db)) (hsound : Sound db)
    (hyes : ∀ id, Grants now db txn id → granted' id = now)
    (hno : ∀ id, ¬ Grants now db txn id → granted' id = granted id) : Granted granted' (view (exec now db txn)) := by
  have hinv := hsound.inv
  have heffects : Effects now (Permits now db txn) _ _ := exec_effects hinv hsound.reconciliations txn
  by_cases hrenewal : txn.isRenewal
  · cases txn with
    | renew serverID presented attemptID fence sequence => exact granted_renew h hyes hno
    | _ => exact hrenewal.elim
  · have hbound := h.effects hinv heffects fun hpermits => hrenewal (hpermits.renews rfl)
    intro id a hrow
    have hle := hbound id a hrow
    have hkept (hgrants : Grants now db txn id) : db.attempts.get? id = none := by
      cases txn with
      | claim _ _ _ => exact hgrants.1
      | renew _ _ _ _ _ => exact absurd trivial hrenewal
      | _ => exact hgrants.elim
    cases hbefore : db.attempts.get? id with
    | some a₀ =>
        have hbefore' : (view db).attempts id = some a₀ := hbefore
        rw [hno id fun hgrants => by simp [hbefore] at hkept; exact hkept hgrants]
        simpa [hbefore'] using hle
    | none =>
        have hbefore' : (view db).attempts id = none := hbefore
        -- only a claim makes new attempts
        have hclaim : txn.isClaim := by
          by_contra hclaim
          have hnone := Effects.no_new_attempt hinv heffects (fun hpermits => hclaim (hpermits.leases rfl)) hbefore'
          rw [hnone] at hrow
          cases hrow
        have hgrants : Grants now db txn id := by
          cases txn with
          | claim _ _ _ => exact ⟨hbefore, fun hnone => by cases hnone.symm.trans hrow⟩
          | _ => exact hclaim.elim
        rw [hyes id hgrants]
        simpa [hbefore'] using hle

-- What every state of a recorded run satisfies.
structure Accounted (clock : Nat) (db : DB) (granted : Nat → Nat) : Prop where
  timed : Timed clock db
  granted : Granted granted (view db)
  marked : Marked clock (view db)

theorem marked_exec {txn : Txn} (h : Marked clock (view db)) (hle : clock ≤ now) (hsound : Sound db) :
    Marked now (view (exec now db txn)) :=
  hsound.exec_preserves (P := Marked now) (h.mono hle) fun _ _ _ _ hinv h he => h.effect hinv.occupancy he

theorem accounted_of_reachable (h : grantedSystem.Reachable (clock, db, granted)) : Accounted clock db granted := by
  refine System.Reachable.invariant (P := fun state : Nat × DB × (Nat → Nat) =>
    Accounted state.1 state.2.1 state.2.2) ?_ ?_ h
  · rintro ⟨clock, db, granted⟩ hinit
    have hnone : ∀ id, db.attempts.get? id = none := hinit.1.attempts
    refine ⟨timed_of_reachable (.of_initial hinit), fun id a hrow => ?_, fun id a hrow => ?_⟩
    · cases (hnone id).symm.trans hrow
    · cases (hnone id).symm.trans hrow
  · rintro ⟨clock, db, granted⟩ ⟨clock', db', granted'⟩ h ⟨txn, hle, -, hexec, hrecord⟩
    have hexec : db' = exec clock' db txn := hexec
    rw [hexec]
    exact ⟨h.timed.exec hle txn, granted_exec h.granted h.timed.sound (fun id => (hrecord id).1)
      fun id => (hrecord id).2, marked_exec h.marked hle h.timed.sound⟩

-- Every call with authority needs it to be live.
theorem powerless_of_lapsed (h : Lapsed (view db) attemptID deadline) (hpassed : deadline ≤ now) :
    Powerless now db attemptID := by
  obtain ⟨a, hrow, hdeadline⟩ := h
  have hdead {purpose serverID : String} {presented : Digest} {fence : Nat} {l : Lease}
      (hl : lockLease db purpose serverID presented attemptID = .ok l) (hlive : l.live now attemptID fence) : False := by
    obtain ⟨-, hattempt, -⟩ := lockLease_eq_ok hl
    cases hrow.symm.trans hattempt
    have := hlive.2.2
    omega
  have hrefused {purpose serverID : String} {presented : Digest} {fence : Nat} {l : Lease}
      (hl : authorizeLease now db purpose serverID presented attemptID fence = .ok l) : False := by
    simp only [authorizeLease, bind_eq_ok, require_eq_ok, pure_eq_ok] at hl
    obtain ⟨_, -, l, hl, _, ⟨-, -, hlive⟩, rfl⟩ := hl
    exact hdead hl hlive
  constructor
  case renew =>
    intro serverID presented fence sequence answer hok
    simp only [Store.renew, bind_eq_ok, require_eq_ok] at hok
    obtain ⟨_, -, l, hl, _, hlive, -⟩ := hok
    exact hdead hl hlive
  case complete =>
    intro hleased draw serverID presented fence r answer hok
    simp only [Store.complete, bind_eq_ok, require_eq_ok] at hok
    obtain ⟨_, -, l, hl, hok⟩ := hok
    obtain ⟨-, hattempt, -⟩ := lockLease_eq_ok hl
    rw [if_neg (not_not.2 (hleased.of_row hattempt))] at hok
    simp only [bind_eq_ok, require_eq_ok] at hok
    obtain ⟨_, -, _, hlive, -⟩ := hok
    exact hdead hl hlive
  case activate =>
    intro serverID presented fence imageDigest answer hok
    simp only [Store.activate, bind_eq_ok, require_eq_ok] at hok
    obtain ⟨_, -, l, hl, _, hlive, -⟩ := hok
    exact hdead hl hlive
  case acknowledgeCancellation =>
    intro hleased serverID presented fence operationID resultDigest answer hok
    simp only [Store.acknowledgeCancellation, bind_eq_ok, require_eq_ok] at hok
    obtain ⟨_, -, l, hl, hok⟩ := hok
    obtain ⟨-, hattempt, -⟩ := lockLease_eq_ok hl
    rw [if_neg (not_not.2 (hleased.of_row hattempt))] at hok
    simp only [bind_eq_ok, require_eq_ok] at hok
    obtain ⟨_, -, _, hlive, -⟩ := hok
    exact hdead hl hlive
  case reportProgress =>
    intro serverID presented fence phase answer hok
    simp only [Store.reportProgress, bind_eq_ok, require_eq_ok] at hok
    obtain ⟨_, -, l, hl, -⟩ := hok
    exact hrefused hl
  case authorizeMaterialization =>
    intro serverID presented fence answer hok
    simp only [Store.authorizeMaterialization, bind_eq_ok] at hok
    obtain ⟨l, hl, -⟩ := hok
    exact hrefused hl
  case authorizeCheckout =>
    intro serverID presented fence answer hok
    simp only [Store.authorizeCheckout, bind_eq_ok] at hok
    obtain ⟨l, hl, -⟩ := hok
    exact hrefused hl

-- Along a timed run: what effects at readings from `clock` on keep.
theorem Timed.run_preserves {P : View → Prop} (h : Timed state.1 state.2) (hrun : timedSystem.Run state state')
    (hP : P (view state.2))
    (hstep : ∀ now v v' kind, state.1 ≤ now → Inv v → P v → Effect now v kind v' → P v') :
    Timed state'.1 state'.2 ∧ P (view state'.2) := by
  induction hrun with
  | refl => exact ⟨h, hP⟩
  | tail hrun hnext ih =>
      obtain ⟨txn, hle, -, hexec⟩ := hnext
      obtain ⟨htimed, hP⟩ := ih
      rw [hexec]
      refine ⟨htimed.exec hle txn, htimed.sound.exec_preserves hP fun v v' kind _ => ?_⟩
      exact hstep _ v v' kind ((timedSystem_run hrun).2.trans hle)

-- A cancellation that commits caps the attempts that are not closed by then.
theorem capped_of_requestCancellation {p : Principal} {jobID : Nat} (h : Timed now db) (hmarked : Marked now (view db))
    (hrequest : requestCancellation now db p jobID = .ok (db', ())) :
    Capped (view db') jobID (now + cancellationGrace) (view db') := by
  obtain ⟨heffects, hrequested⟩ := requestCancellation_effects h.sound.inv hrequest
  have hinv := h.sound.inv.effects heffects
  have hmarked' : Marked now (view db') :=
    (heffects.preserves (P := Marked now) h.sound.inv hmarked fun _ _ _ _ hinv h he => h.effect hinv.occupancy he).2
  refine ⟨hrequested.imp fun job hjob => ?_, fun id a hrow hof => ?_⟩
  · rcases hjob with hcancelled | ⟨-, hmark⟩
    · exact .inr (by rw [hcancelled]; rfl)
    · exact .inl hmark
  · by_cases hleased : a.state = .leased
    · right
      obtain ⟨job, hjob, hfits⟩ := hinv.occupancy.fitsJob id a hrow
      rcases hrequested.of_row (hof ▸ hjob) with hcancelled | ⟨-, hmark⟩
      · cases hcancelled.symm.trans (hfits.leased hleased).1
      · obtain ⟨t, ht⟩ := Option.isSome_iff_exists.1 hmark
        obtain ⟨hle, hdeadline⟩ := (hmarked' id a hrow hleased).of_row hjob t ht
        exact ⟨_, hdeadline, Nat.add_le_add_right hle _⟩
    · exact .inl ⟨a, hrow, hleased⟩

-- Authority is bounded by the last grant and, once the job is cancelled, by the grace; and it never comes back.
theorem authority_bounded (h : grantedSystem.Reachable (clock, db, granted)) :
    (∀ attemptID a, db.attempts.get? attemptID = some a →
      a.authorityExpiresAt ≤ a.leaseExpiresAt ∧ a.authorityExpiresAt ≤ granted attemptID + leaseDuration) ∧
    (∀ t p jobID db', clock ≤ t → requestCancellation t db p jobID = .ok (db', ()) →
      ∀ state, timedSystem.Run (t, db') state → ∀ attemptID a, state.2.attempts.get? attemptID = some a →
        a.jobID = jobID → (At db'.attempts.get? attemptID fun a => a.state ≠ .leased) ∨
          a.authorityExpiresAt ≤ t + cancellationGrace) ∧
    ∀ attemptID a, db.attempts.get? attemptID = some a → a.authorityExpiresAt ≤ clock →
      ∀ state, timedSystem.Run (clock, db) state →
        (At state.2.attempts.get? attemptID fun a' => a'.authorityExpiresAt = a.authorityExpiresAt) ∧
        ∀ now, state.1 ≤ now → Powerless now state.2 attemptID := by
  obtain ⟨htimed, hgranted, hmarked⟩ := accounted_of_reachable h
  refine ⟨fun attemptID a hrow => ?_, fun t p jobID db' hle hrequest state hrun attemptID a hrow hof => ?_,
    fun attemptID a hrow hpassed state hrun => ?_⟩
  · exact ⟨(checkAttempt_eq_ok.1 (htimed.sound.inv.occupancy.checked attemptID a hrow)).2.2.1, hgranted attemptID a hrow⟩
  · have htimed' : Timed t db' := by
      have hexec := htimed.exec hle (.requestCancellation p jobID)
      simpa [exec, hrequest, committed] using hexec
    have hcapped := capped_of_requestCancellation (htimed.mono hle) (hmarked.mono hle) hrequest
    obtain ⟨hlater, hcapped'⟩ := Timed.run_preserves (P := Capped (view db') jobID (t + cancellationGrace)) (by exact htimed')
      hrun hcapped fun _ _ _ _ _ hinv h he => h.effect hinv.occupancy he
    rcases hcapped'.attempts attemptID a hrow hof with hclosed | ⟨d, hd, hle⟩
    · exact .inl hclosed
    · have hchecked := checkAttempt_eq_ok.1 (hlater.sound.inv.occupancy.checked attemptID a hrow)
      exact .inr ((hchecked.2.2.2.2.2 d hd).trans hle)
  · have hlapsed : Lapsed (view db) attemptID a.authorityExpiresAt := ⟨a, hrow, rfl⟩
    obtain ⟨-, hlapsed'⟩ := Timed.run_preserves (P := fun v => Lapsed v attemptID a.authorityExpiresAt) (by exact htimed)
      hrun hlapsed fun _ _ _ _ hle _ h he => h.effect (hpassed.trans hle) he
    refine ⟨hlapsed', fun now hnow => powerless_of_lapsed hlapsed' ?_⟩
    exact (hpassed.trans (timedSystem_run hrun).2).trans hnow

theorem sampleLeased_timed : timedSystem.Reachable (1000, sampleLeased) := by
  refine @timed_execAll 1 sampleDB [(1000, _)] sampleDB_timed (by simp) fun step hstep => ?_
  rw [List.mem_singleton.1 hstep]
  trivial

theorem authority_bounded_leased :
    ∃ granted a db' a', grantedSystem.Reachable (1000, sampleLeased, granted) ∧ sampleLeased.attempts.get? 1 = some a ∧
      a.state = .leased ∧ a.authorityExpiresAt ≤ granted 1 + leaseDuration ∧
      requestCancellation 2000 sampleLeased samplePrincipal 1 = .ok (db', ()) ∧ db'.attempts.get? 1 = some a' ∧
      a'.state = .leased ∧ a'.authorityExpiresAt ≤ 2000 + cancellationGrace := by
  obtain ⟨granted, hreachable⟩ := granted_of_timed sampleLeased_timed
  obtain ⟨hbound, hcap, -⟩ := authority_bounded hreachable
  have hstored : ((sampleLeased.attempts.get? 1).map fun a => a.state) = some .leased ∧
      ((requestCancellation 2000 sampleLeased samplePrincipal 1).toOption.any fun answer =>
        (answer.1.attempts.get? 1).map (fun a => (a.jobID, a.state)) == some (1, .leased)) = true := by
    decide +kernel
  obtain ⟨a, hrow, hleased⟩ := Option.map_eq_some_iff.1 hstored.1
  obtain ⟨⟨db', _⟩, hrequest, hlater⟩ := ok_of_any hstored.2
  obtain ⟨a', hrow', hfields⟩ := Option.map_eq_some_iff.1 (beq_iff_eq.1 hlater)
  obtain ⟨hof, hleased'⟩ := Prod.mk.inj hfields
  refine ⟨granted, a, db', a', hreachable, hrow, hleased, (hbound 1 a hrow).2, hrequest, hrow', hleased', ?_⟩
  rcases hcap 2000 samplePrincipal 1 db' (by norm_num) hrequest (2000, db') .refl 1 a' hrow' hof with hclosed | hle
  · exact absurd hleased' (hclosed.of_row hrow')
  · exact hle

-- An attempt that was closed before keeps the deadline it had.
def sampleWithdrawn : DB :=
  execAll sampleLeased [(2000, .complete 7 "srv" sampleToken 1 1 ⟨.failed, some .transient, "first", sampleToken⟩)]

theorem authority_of_closed_attempt :
    timedSystem.Reachable (2000, sampleWithdrawn) ∧
    ∃ db' a, requestCancellation 3000 sampleWithdrawn samplePrincipal 1 = .ok (db', ()) ∧
      db'.attempts.get? 1 = some a ∧ a.jobID = 1 ∧ 3000 + cancellationGrace < a.authorityExpiresAt := by
  constructor
  · refine @timed_execAll 1000 sampleLeased [(2000, _)] sampleLeased_timed (by simp) fun step hstep => ?_
    rw [List.mem_singleton.1 hstep]
    trivial
  · have hstored : ((requestCancellation 3000 sampleWithdrawn samplePrincipal 1).toOption.any fun answer =>
        (answer.1.attempts.get? 1).map (fun a => (a.jobID, decide (3000 + cancellationGrace < a.authorityExpiresAt))) ==
          some (1, true)) = true := by
      decide +kernel
    obtain ⟨⟨db', _⟩, hrequest, hlater⟩ := ok_of_any hstored
    obtain ⟨a, hrow, hfields⟩ := Option.map_eq_some_iff.1 (beq_iff_eq.1 hlater)
    obtain ⟨hof, hlate⟩ := Prod.mk.inj hfields
    exact ⟨db', a, hrequest, hrow, hof, of_decide_eq_true hlate⟩

end

end AutoDeploy.Protocol
