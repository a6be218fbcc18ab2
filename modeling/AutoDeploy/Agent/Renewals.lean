import AutoDeploy.Agent.LeaseLoop
import AutoDeploy.Lib.StopAndWait
import AutoDeploy.Protocol.Histories
import AutoDeploy.Protocol.Theorems.Leases

namespace AutoDeploy.Agent

open Function Lib Lib.Result Queue Store Protocol

section

variable {db db' : DB} {now attemptID fence sequence : Nat} {serverID : String} {presented : Digest} {attempt : Attempt}
  {g : Grant} {s s' : Renewal}

-- Everything an accepted renewal does: it repeats the stored answer, or takes the next sequence.
theorem renew_cases {result : RenewalResult} (hrow : db.attempts.get? attemptID = some attempt)
    (h : renew now db serverID presented attemptID fence sequence = .ok (db', result)) :
    (db' = db ∧ sequence = attempt.renewalSequence) ∨
      (sequence = attempt.renewalSequence + 1 ∧ ∃ attempt', db' = putAttempt db attemptID attempt' ∧
        attempt'.renewalSequence = sequence) := by
  simp only [renew, bind_eq_ok, require_eq_ok] at h
  obtain ⟨_, -, l, hl, _, hlive, h⟩ := h
  have hholds := holds_of_occupies hl hlive.1
  obtain rfl : l.attempt = attempt := Option.some.inj (hholds.attemptRow.symm.trans hrow)
  split at h
  · rename_i hsame
    simp only [pure_eq_ok, Prod.mk.injEq] at h
    exact .inl ⟨h.1.symm, hsame⟩
  · simp only [bind_eq_ok, require_eq_ok, during_eq_ok, Prod.exists, pure_eq_ok, Prod.mk.injEq] at h
    obtain ⟨_, hsequence, db₁, n, hupdate, rfl, -⟩ := h
    rw [updateAttempt_iff hholds.attemptRow rfl] at hupdate
    obtain ⟨-, rfl, -⟩ := hupdate
    exact .inr ⟨hsequence, _, rfl, rfl⟩

-- A request that arrives leaves the attempt as it was, or takes the next sequence.
theorem Grant.renew_row (hrow : db.attempts.get? g.attemptID = some attempt) :
    ∃ attempt', (g.renew now db sequence).1.attempts.get? g.attemptID = some attempt' ∧
      (attempt' = attempt ∨ sequence = attempt.renewalSequence + 1 ∧ attempt'.renewalSequence = sequence) ∧
      ∀ result, (g.renew now db sequence).2 = .ok result → sequence ≤ attempt'.renewalSequence := by
  unfold Grant.renew
  cases hcall : Store.renew now db g.serverID g.presented g.attemptID g.fence sequence with
  | error e => exact ⟨attempt, hrow, .inl rfl, fun result hresult => by cases hresult⟩
  | ok r =>
      obtain ⟨db', result⟩ := r
      obtain ⟨rfl, hsame⟩ | ⟨hnext, attempt', rfl, hwritten⟩ := renew_cases hrow hcall
      · exact ⟨attempt, hrow, .inl rfl, fun _ _ => hsame.le⟩
      · exact ⟨attempt', Table.get?_put_self _ _ _, .inr ⟨hnext, hwritten⟩, fun _ _ => hwritten.ge⟩

-- The other transactions leave the sequence alone.
theorem exec_renewalSequence {txn : Txn} (h : Sound db) (hother : ¬ renewsAttempt attemptID txn)
    (hrow : db.attempts.get? attemptID = some attempt) :
    ∃ attempt', (exec now db txn).attempts.get? attemptID = some attempt' ∧
      attempt'.renewalSequence = attempt.renewalSequence := by
  by_cases hrenewal : txn.isRenewal
  · cases txn with
    | renew serverID presented other fence sequence =>
        have hne : attemptID ≠ other := fun heq => hother heq.symm
        refine ⟨attempt, ?_, rfl⟩
        simp only [exec]
        cases hcall : renew now db serverID presented other fence sequence with
        | error e => exact hrow
        | ok r =>
            obtain ⟨db', result⟩ := r
            have hl : ∃ old, db.attempts.get? other = some old := by
              simp only [renew, bind_eq_ok, require_eq_ok] at hcall
              obtain ⟨_, -, l, hl, -⟩ := hcall
              exact ⟨l.attempt, (lockLease_eq_ok hl).2.1⟩
            obtain ⟨old, hold⟩ := hl
            obtain ⟨rfl, -⟩ | ⟨-, attempt', rfl, -⟩ := renew_cases hold hcall
            · exact hrow
            · simpa [committed, putAttempt, Table.get?_put, hne] using hrow
    | _ => exact absurd hrenewal fun h => h
  · refine h.exec_preserves (P := fun v => At v.attempts attemptID fun a =>
      a.renewalSequence = attempt.renewalSequence) (.intro hrow rfl) ?_
    rintro v v' kind hpermits - ⟨a, ha, hsame⟩ he
    refine (he.attempt_ages ha).imp fun a' hages => ?_
    cases hages with
    | same => exact hsame
    | renew hkind _ _ => exact absurd (hpermits.renews hkind) hrenewal
    | cap _ => exact hsame
    | close _ _ => exact hsame

-- The sequence the control plane has stored.
def Renewal.stored (g : Grant) (s : Renewal) : Nat :=
  ((s.db.attempts.get? g.attemptID).map Attempt.renewalSequence).getD 0

-- The abstract protocol the loop and the control plane carry out.
def Renewal.link (g : Grant) (s : Renewal) : Link :=
  ⟨s.loop.acknowledged, s.requests.map RenewalCall.sequence, s.stored g, s.extensions⟩

theorem stored_of_row (hrow : s.db.attempts.get? g.attemptID = some attempt) : s.stored g = attempt.renewalSequence := by
  simp [Renewal.stored, hrow]

structure Tracked (g : Grant) (s : Renewal) : Prop where
  reachable : leaseSystem.Reachable s.db
  row : ∃ attempt, s.db.attempts.get? g.attemptID = some attempt
  waiting : ∀ m, s.loop.waiting = some m →
    s.loop.sequence = s.loop.acknowledged + 1 ∧ m.sequence = s.loop.acknowledged + 1
  idle : s.loop.waiting = none → s.loop.returned = false → s.loop.sequence = s.loop.acknowledged
  confirmed : ∀ m result, (m, .ok result) ∈ s.responses → m.sequence ≤ s.stored g
  link : Link.system.Reachable (s.link g)

theorem Tracked.deliver {m : RenewalCall} (h : Tracked g s) (now : Nat) (hsent : m ∈ s.requests) :
    Tracked g { s with
      db := (g.renew now s.db m.sequence).1
      responses := s.responses ++ [(m, (g.renew now s.db m.sequence).2)]
      extensions := if (g.renew now s.db m.sequence).1.attempts.get? g.attemptID = s.db.attempts.get? g.attemptID
        then s.extensions else s.extensions ++ [m.sequence] } := by
  obtain ⟨attempt, hrow⟩ := h.row
  obtain ⟨attempt', hrow', hcases, haccepted⟩ :
    ∃ attempt', (g.renew now s.db m.sequence).1.attempts.get? g.attemptID = some attempt' ∧ _ := g.renew_row hrow
  have hstored : s.stored g = attempt.renewalSequence := stored_of_row hrow
  have hgrows : attempt.renewalSequence ≤ attempt'.renewalSequence := by
    rcases hcases with rfl | ⟨hnext, hwritten⟩
    · exact Nat.le_refl _
    · omega
  refine ⟨h.reachable.step ⟨now, .renew g.serverID g.presented g.attemptID g.fence m.sequence, trivial, rfl⟩,
    ⟨attempt', hrow'⟩, h.waiting, h.idle, fun m' result hmem => ?_, ?_⟩
  · rw [stored_of_row hrow']
    rcases List.mem_append.1 hmem with hold | hnew
    · have := h.confirmed m' result hold
      omega
    · simp only [List.mem_singleton, Prod.mk.injEq] at hnew
      obtain ⟨rfl, hanswer⟩ := hnew
      exact haccepted result hanswer.symm
  · refine h.link.step ?_
    rcases hcases with rfl | ⟨hnext, hwritten⟩
    · left
      simp [Renewal.link, Renewal.stored, hrow', hrow]
    · right
      have hchanged : ¬ some attempt' = some attempt := by
        intro heq
        cases heq
        omega
      have happly : (s.link g).Step { s.link g with
          accepted := (s.link g).accepted + 1, applied := (s.link g).applied ++ [(s.link g).accepted + 1] } := by
        refine .apply ?_
        show s.stored g + 1 ∈ s.requests.map RenewalCall.sequence
        rw [hstored, ← hnext]
        exact List.mem_map_of_mem hsent
      convert happly using 1
      simp only [Renewal.link, Renewal.stored, hrow', hrow, Option.map_some, Option.getD_some, hwritten, if_neg hchanged]
      rw [hnext]

theorem Tracked.step (h : Tracked g s) (hstep : Step g s s') : Tracked g s' := by
  cases hstep with
  | tick hidle hrunning =>
      have hsequence := h.idle hidle hrunning
      refine ⟨h.reachable, h.row, fun m hm => ?_, fun hnone => ?_, h.confirmed, ?_⟩
      · cases hm
        simp only [LeaseLoop.tick, LeaseLoop.nextCall, hsequence]
        exact ⟨trivial, trivial⟩
      · cases hnone
      · refine h.link.step (.inr ?_)
        have hsend : (s.link g).Step _ := .send
        convert hsend using 1
        simp [Renewal.link, Renewal.stored, LeaseLoop.tick, LeaseLoop.nextCall, hsequence]
  | deliver now hsent => exact h.deliver now hsent
  | @answer m answer hwaiting hanswer =>
      obtain ⟨hsequence, hm⟩ := h.waiting m hwaiting
      cases answer with
      | ok result =>
          refine ⟨h.reachable, h.row, fun m hm => (by cases hm), fun _ _ => rfl, h.confirmed, ?_⟩
          have hconfirmed := h.confirmed m result hanswer
          have hle : s.loop.acknowledged + 1 ≤ s.stored g := hm ▸ hconfirmed
          refine h.link.step (.inr ?_)
          have hconfirm : (s.link g).Step _ := .confirm hle
          convert hconfirm using 1
          simp [Renewal.link, Renewal.stored, LeaseLoop.answered, hsequence]
      | error e =>
          simp only [LeaseLoop.answered]
          split
          · exact ⟨h.reachable, h.row, fun m hm => (by cases hm), fun _ hreturned => (by cases hreturned), h.confirmed,
              h.link⟩
          · exact ⟨h.reachable, h.row, fun m hm => (by cases hm), fun _ _ => (by simp [LeaseLoop.lost, hsequence]),
              h.confirmed, h.link⟩
  | lose hwaiting =>
      obtain ⟨hsequence, -⟩ := h.waiting _ hwaiting
      exact ⟨h.reachable, h.row, fun m hm => (by cases hm), fun _ _ => (by simp [LeaseLoop.lost, hsequence]),
        h.confirmed, h.link⟩
  | done hidle =>
      exact ⟨h.reachable, h.row, fun m hm => h.waiting m hm, fun _ hreturned => (by cases hreturned), h.confirmed, h.link⟩
  | @commit now txn hother =>
      obtain ⟨attempt, hrow⟩ := h.row
      obtain ⟨attempt', hrow', hsame⟩ : ∃ attempt', (exec now s.db txn).attempts.get? g.attemptID = some attempt' ∧
        attempt'.renewalSequence = attempt.renewalSequence :=
        exec_renewalSequence (sound_of_reachable h.reachable) hother hrow
      have hstored : ({ s with db := exec now s.db txn } : Renewal).stored g = s.stored g := by
        simp [Renewal.stored, hrow', hrow, hsame]
      refine ⟨h.reachable.step ⟨now, txn, trivial, rfl⟩, ⟨attempt', hrow'⟩, h.waiting, h.idle, fun m result hmem => ?_, ?_⟩
      · rw [hstored]
        exact h.confirmed m result hmem
      · have hlink : ({ s with db := exec now s.db txn } : Renewal).link g = s.link g := by
          simp only [Renewal.link, hstored]
        rw [hlink]
        exact h.link

theorem tracked_of_reachable (h : (renewalSystem g).Reachable s) : Tracked g s := by
  refine h.invariant (P := Tracked g) ?_ fun s s' h hstep => h.step hstep
  rintro s ⟨hreachable, ⟨attempt, hrow, hzero⟩, hloop, hrequests, hresponses, hextensions⟩
  refine ⟨hreachable, ⟨attempt, hrow⟩, by simp [hloop, LeaseLoop.start], by simp [hloop, LeaseLoop.start],
    by simp [hresponses], .of_initial ?_⟩
  show s.link g = Link.start
  simp [Renewal.link, Renewal.stored, hrow, hzero, hloop, hrequests, hextensions, Link.start, LeaseLoop.start]

-- A renewal with the stored or the next sequence goes through while the attempt is the live occupant.
theorem renew_accepted {l : Lease} (hinv : Inv (view db))
    (hinput : validOpaqueID serverID = true ∧ 0 < attemptID ∧ 0 < fence)
    (hl : lockLease db "renew" serverID presented attemptID = .ok l) (hlive : l.live now attemptID fence)
    (hsequence : sequence = l.attempt.renewalSequence ∨ sequence = l.attempt.renewalSequence + 1) :
    Succeeds (renew now db serverID presented attemptID fence sequence) := by
  have hholds := holds_of_occupies hl hlive.1
  obtain ⟨hnumber, hfence, -, hclosed, hshape, -⟩ :=
    checkAttempt_eq_ok.1 (hinv.occupancy.checked attemptID l.attempt hholds.attemptRow)
  unfold renew
  refine Succeeds.bind (require_pos hinput) (Succeeds.bind hl (Succeeds.bind (require_pos hlive) ?_))
  by_cases hsame : sequence = l.attempt.renewalSequence
  · rw [if_pos hsame]
    exact .pure _
  · rw [if_neg hsame]
    have hnext := hsequence.resolve_left hsame
    refine Succeeds.bind (require_pos hnext) ?_
    refine Succeeds.bind (during_eq_ok.2 ((updateAttempt_iff hholds.attemptRow rfl).2 ⟨?_, rfl, rfl⟩)) (.pure _)
    simp only [validateAgentJobAttemptUpdate, bind_eq_ok, require_eq_ok, exists_const]
    refine ⟨rfl, hholds.leased, by omega, fun _ => trivial, fun _ => trivial, fun _ => trivial, ?_, ?_⟩
    · rintro ⟨hnone, hsome⟩
      rw [hnone] at hsome
      cases hsome
    · refine checkAttempt_eq_ok.2 ⟨hnumber, hfence, Nat.le_refl _, hclosed, hshape, fun deadline hdeadline => ?_⟩
      have hdeadline : l.attempt.cancelDeadlineAt = some deadline := hdeadline
      simp only [renewedExpiry, hdeadline]
      exact Nat.min_le_left _ _

-- A request with this sequence is answered while the attempt is the live occupant with unexpired authority.
def Admitted (g : Grant) (db : DB) (sequence : Nat) : Prop :=
  ∀ now l, validOpaqueID g.serverID = true ∧ 0 < g.attemptID ∧ 0 < g.fence →
    lockLease db "renew" g.serverID g.presented g.attemptID = .ok l → l.live now g.attemptID g.fence →
    ∃ db' result, renew now db g.serverID g.presented g.attemptID g.fence sequence = .ok (db', result)

theorem Tracked.admitted (h : Tracked g s) : Admitted g s.db (s.loop.acknowledged + 1) := by
  intro now l hinput hl hlive
  have hrow := (lockLease_eq_ok hl).2.1
  have hexpected := (Link.synchronous_of_reachable h.link).expected
  have hstored : (s.link g).accepted = l.attempt.renewalSequence := stored_of_row hrow
  rw [hstored] at hexpected
  obtain ⟨⟨db', result⟩, hcall⟩ := renew_accepted (sound_of_reachable h.reachable).inv hinput hl hlive hexpected
  exact ⟨db', result, hcall⟩

-- The stored sequence is the last acknowledged one or the next, neither the call in progress nor the next one can be
-- refused for its sequence, and every sequence up to the stored one has moved the deadlines exactly once.
theorem renewals_tolerate_loss (h : (renewalSystem g).Reachable s) :
    ∃ attempt, s.db.attempts.get? g.attemptID = some attempt ∧
      (attempt.renewalSequence = s.loop.acknowledged ∨ attempt.renewalSequence = s.loop.acknowledged + 1) ∧
      (∀ m, s.loop.waiting = some m → Admitted g s.db m.sequence) ∧
      (s.loop.waiting = none → s.loop.returned = false → Admitted g s.db s.loop.nextCall.sequence) ∧
      s.extensions = List.range' 1 attempt.renewalSequence ∧ s.extensions.Nodup := by
  have htracked := tracked_of_reachable h
  have hsynchronous := Link.synchronous_of_reachable htracked.link
  obtain ⟨attempt, hrow⟩ := htracked.row
  have hstored : (s.link g).accepted = attempt.renewalSequence := stored_of_row hrow
  refine ⟨attempt, hrow, ?_, fun m hm => ?_, fun hidle hrunning => ?_, ?_, hsynchronous.applied_once⟩
  · rw [← hstored]
    exact hsynchronous.accepted
  · rw [(htracked.waiting m hm).2]
    exact htracked.admitted
  · show Admitted g s.db (s.loop.sequence + 1)
    rw [htracked.idle hidle hrunning]
    exact htracked.admitted
  · rw [← hstored]
    exact hsynchronous.applied

-- The first request is given up for lost, sent again, and arrives after all.
def sampleGrant : Grant := ⟨"srv", sampleToken, 1, 1⟩

def sampleRetransmitted : Renewal where
  db := (sampleGrant.renew 2000 sampleLeased 1).1
  loop := LeaseLoop.start.tick.lost.tick
  requests := [⟨0, 1⟩, ⟨1, 1⟩]
  responses := [(⟨0, 1⟩, (sampleGrant.renew 2000 sampleLeased 1).2)]
  extensions :=
    if (sampleGrant.renew 2000 sampleLeased 1).1.attempts.get? 1 = sampleLeased.attempts.get? 1 then [] else [1]

theorem sampleRetransmitted_reachable : (renewalSystem sampleGrant).Reachable sampleRetransmitted := by
  have hstored : (sampleLeased.attempts.get? 1).map (fun a => a.renewalSequence) = some 0 := by decide +kernel
  obtain ⟨attempt, hrow, hzero⟩ := Option.map_eq_some_iff.1 hstored
  have hreachable : leaseSystem.Reachable sampleLeased :=
    reachable_execAll (sampleDB_reachable _) fun _ _ _ => trivial
  have hstart : (renewalSystem sampleGrant).Reachable ⟨sampleLeased, .start, [], [], []⟩ :=
    .of_initial ⟨hreachable, ⟨attempt, hrow, hzero⟩, rfl, rfl, rfl, rfl⟩
  have hsent := hstart.step (.tick rfl rfl)
  have hlost := hsent.step (.lose rfl)
  have hagain := hlost.step (.tick rfl rfl)
  exact hagain.step (.deliver (m := ⟨0, 1⟩) 2000 (by simp [LeaseLoop.nextCall, LeaseLoop.start]))

theorem renewals_tolerate_loss_retransmitted :
    sampleRetransmitted.loop.acknowledged = 0 ∧ sampleRetransmitted.extensions = [1] ∧
      ∃ attempt, sampleRetransmitted.db.attempts.get? 1 = some attempt ∧ attempt.renewalSequence = 1 ∧
        Admitted sampleGrant sampleRetransmitted.db 1 := by
  obtain ⟨attempt, hrow, -, hwaiting, -, hextensions, -⟩ := renewals_tolerate_loss sampleRetransmitted_reachable
  have happlied : sampleRetransmitted.extensions = [1] := by decide +kernel
  have hlength := congrArg List.length (happlied.symm.trans hextensions)
  rw [List.length_range'] at hlength
  exact ⟨rfl, happlied, attempt, hrow, hlength.symm, hwaiting ⟨1, 1⟩ rfl⟩

end

end AutoDeploy.Agent
