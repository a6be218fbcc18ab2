import AutoDeploy.Protocol.System

namespace AutoDeploy.Protocol

open Function Lib Lib.Result Queue Store Deployment

-- Times. Every stamp of a row is a reading of the database's clock, so none is ahead of it; and a running
-- attempt that was not asked to stop has at least a full lease from the time its job became available.
structure Clocked (clock : Nat) (v : View) : Prop where
  jobs : Every v.jobs fun _ job => job.updatedAt ≤ clock
  slots : Every v.slots fun _ slot => slot.updatedAt ≤ clock
  deployments : Every v.deployments fun _ s => s.updatedAt ≤ clock
  releases : Every v.releases fun _ release => release.createdAt ≤ clock ∧ release.updatedAt ≤ clock
  operations : Every v.operations fun _ op => op.createdAt ≤ clock
  routeHeads : Every v.routeHeads fun _ head => head.createdAt ≤ clock ∧ head.updatedAt ≤ clock
  leases : Every v.attempts fun _ a => a.state = .leased → At v.jobs a.jobID fun job =>
    job.availableAt ≤ clock ∧ (a.cancelDeadlineAt = none → job.availableAt + leaseDuration ≤ a.authorityExpiresAt)

section

variable {clock now attemptID jobID : Nat} {v v' : View} {kind : Kind} {attempt attempt' : Attempt} {slot : Slot}
  {job job' : Job} {s s' : Snapshot}

theorem Clocked.mono (h : Clocked clock v) (hle : clock ≤ now) : Clocked now v where
  jobs := h.jobs.imp fun _ _ _ ht => ht.trans hle
  slots := h.slots.imp fun _ _ _ ht => ht.trans hle
  deployments := h.deployments.imp fun _ _ _ ht => ht.trans hle
  releases := h.releases.imp fun _ _ _ ht => ⟨ht.1.trans hle, ht.2.trans hle⟩
  operations := h.operations.imp fun _ _ _ ht => ht.trans hle
  routeHeads := h.routeHeads.imp fun _ _ _ ht => ⟨ht.1.trans hle, ht.2.trans hle⟩
  leases := h.leases.imp fun _ _ _ ha hleased => (ha hleased).imp fun _ ht => ⟨ht.1.trans hle, ht.2⟩

theorem Moves.clocked {target : Status} (h : Moves now target s s') (hs : s.updatedAt ≤ now) : s'.updatedAt ≤ now := by
  cases h with
  | same _ => exact hs
  | step _ _ _ => exact Nat.le_refl now

theorem Ends.clocked {state : JobState} (h : Ends now s state s') (hs : s.updatedAt ≤ now) : s'.updatedAt ≤ now := by
  cases h with
  | kept _ => exact hs
  | failed _ hmove => exact hmove.clocked hs
  | cancelled hmove => exact hmove.clocked hs

theorem Vacates.clocked {slot' : Slot} (h : Vacates now attemptID slot slot') : slot'.updatedAt = now := by
  cases h with
  | free => rfl
  | retire => rfl

-- The leases of the other jobs, when one job is written whose lease has ended or keeps its time.
theorem Clocked.leases_write_job (job' : Job) (h : Clocked now v) (hjob : v.jobs jobID = some job)
    (hkeep : job'.availableAt = job.availableAt ∨
      Every v.attempts fun _ a => a.state = .leased → a.jobID ≠ jobID) :
    Every v.attempts fun _ a => a.state = .leased → At (update v.jobs jobID (some job')) a.jobID fun job =>
      job.availableAt ≤ now ∧ (a.cancelDeadlineAt = none → job.availableAt + leaseDuration ≤ a.authorityExpiresAt) := by
  intro id a hrow hleased
  refine (h.leases id a hrow hleased).write hjob fun hsame ht => ?_
  rcases hkeep with hkeep | hnone
  · rw [hkeep]
    exact ht
  · exact absurd hsame (hnone id a hrow hleased)

theorem flagged_clocked {head : RouteHead} (h : head.createdAt ≤ now ∧ head.updatedAt ≤ now) :
    (flagged now head).createdAt ≤ now ∧ (flagged now head).updatedAt ≤ now := by
  unfold flagged
  split
  · exact h
  · exact ⟨h.1, Nat.max_le.2 ⟨h.2, Nat.le_refl _⟩⟩

theorem unflagged_clocked {head : RouteHead} (h : head.createdAt ≤ now ∧ head.updatedAt ≤ now) :
    (unflagged now head).createdAt ≤ now ∧ (unflagged now head).updatedAt ≤ now := by
  unfold unflagged
  split
  · exact ⟨h.1, Nat.max_le.2 ⟨h.2, Nat.le_refl _⟩⟩
  · exact h

theorem readied_clocked {release : Release} (image : Digest) (h : release.createdAt ≤ now ∧ release.updatedAt ≤ now) :
    (readied now image release).createdAt ≤ now ∧ (readied now image release).updatedAt ≤ now := by
  unfold readied
  split
  · exact ⟨h.1, Nat.le_refl _⟩
  · exact h

theorem retain_clocked {releases : String → Option Release} (predecessor : Option String)
    (h : Every releases fun _ release => release.createdAt ≤ now ∧ release.updatedAt ≤ now) :
    Every (retain now releases predecessor) fun _ release => release.createdAt ≤ now ∧ release.updatedAt ≤ now := by
  intro id release hrow
  unfold retain at hrow
  split at hrow
  · obtain ⟨r, hr, rfl⟩ := Option.map_eq_some_iff.1 hrow
    exact ⟨(h id r hr).1, Nat.le_refl _⟩
  · exact h id release hrow

-- The end of an attempt. No other attempt of its job is leased.
theorem Clocked.close {slot' : Slot} {events : List JobEvent} {operations' : Nat → Option Operation}
    {releases' : String → Option Release} {routeHeads' : String → Option RouteHead} (h : Clocked now v)
    (ho : Occupancy v) (hh : Holds v attemptID attempt slot job)
    (hattempt : attempt'.jobID = attempt.jobID ∧ attempt'.state ≠ .leased) (hslot : slot'.updatedAt ≤ now)
    (hjob : job'.updatedAt ≤ now) (hs : s'.updatedAt ≤ now)
    (hoperations : Every operations' fun _ op => op.createdAt ≤ now)
    (hreleases : Every releases' fun _ release => release.createdAt ≤ now ∧ release.updatedAt ≤ now)
    (hrouteHeads : Every routeHeads' fun _ head => head.createdAt ≤ now ∧ head.updatedAt ≤ now) :
    Clocked now { v.close attemptID attempt' slot' job' s' events with
      operations := operations', releases := releases', routeHeads := routeHeads' } where
  jobs := h.jobs.put hjob
  slots := h.slots.put hslot
  deployments := h.deployments.put hs
  releases := hreleases
  operations := hoperations
  routeHeads := hrouteHeads
  leases := by
    refine Every.write (fun id a hne hrow hleased => ?_) fun hleased => absurd hleased hattempt.2
    refine (h.leases id a hrow hleased).write_of_ne fun hsame => hne ?_
    exact ho.leased_unique hh hrow hleased (.inr (hsame.trans hattempt.1))

theorem Clocked.effect (h : Clocked now v) (ho : Occupancy v) (he : Effect now v kind v') : Clocked now v' := by
  cases he with
  | openSlot _ => exact { h with slots := h.slots.put (Nat.le_refl _) }
  | freeze _ => exact { h with }
  | candidate _ _ _ _ hcreated hupdated _ =>
      exact { h with releases := h.releases.put ⟨hcreated.le, hupdated.le⟩ }
  | @lease jobID attemptID job slot s s' _ hjob hslot _ _ hstate _ havailable _ hfresh hdeployment hassigned _ _ _ _ =>
      refine { h with
        jobs := h.jobs.put (Nat.le_refl _)
        slots := h.slots.put (Nat.le_refl _)
        deployments := h.deployments.put ?_
        leases := Every.write (fun id a _ hrow => ?_) fun _ => ?_ }
      · have hs := h.deployments _ s hdeployment
        rcases hassigned with ⟨-, hmove⟩ | ⟨-, rfl⟩
        · exact hmove.clocked hs
        · exact hs
      · exact h.leases_write_job { job with
          state := .leased, attemptCount := job.attemptCount + 1, updatedAt := now } hjob (.inl rfl) id a hrow
      · exact At.write_self ⟨havailable, fun _ => Nat.add_le_add_right havailable _⟩
  | @renew attemptID attempt slot job hholds _ =>
      refine { h with leases := Every.write (fun id a _ hrow => h.leases id a hrow) fun _ => ?_ }
      refine (h.leases attemptID attempt hholds.attemptRow hholds.leased).imp fun job ht => ⟨ht.1, fun hnone => ?_⟩
      have hnone : attempt.cancelDeadlineAt = none := hnone
      simp only [renewedExpiry, hnone]
      exact Nat.add_le_add_right ht.1 _
  | close hholds _ hclosed _ hvacates _ hdeployment hends _ _ _ _ =>
      exact h.close ho hholds ⟨rfl, hclosed⟩ hvacates.clocked.le (Nat.le_refl _)
        (hends.clocked (h.deployments _ _ hdeployment)) h.operations h.releases h.routeHeads
  | cancel hjob _ _ hdeployment hmove _ =>
      exact { h with
        jobs := h.jobs.put (Nat.le_refl _)
        deployments := h.deployments.put (hmove.clocked (h.deployments _ _ hdeployment))
        leases := h.leases_write_job _ hjob (.inl rfl) }
  | @mark jobID attemptID job attempt _ _ hjob _ _ hattempt hleased hof _ _ _ _ =>
      have hleases := h.leases_write_job { job with cancelRequestedAt := some now, updatedAt := now } hjob (.inl rfl)
      refine { h with
        jobs := h.jobs.put (Nat.le_refl _)
        leases := Every.write (fun id a _ hrow => hleases id a hrow) fun _ => ?_ }
      exact (hleases attemptID attempt hattempt hleased).imp fun job ht => ⟨ht.1, fun hnone => by cases hnone⟩
  | progress _ _ hdeployment hmove =>
      exact { h with deployments := h.deployments.put (hmove.clocked (h.deployments _ _ hdeployment)) }
  | authorize _ _ _ _ _ _ hdeployment hmove _ _ hrelease _ _ _ _ _ _ =>
      exact { h with
        deployments := h.deployments.put (hmove.clocked (h.deployments _ _ hdeployment))
        releases := h.releases.put (readied_clocked _ (h.releases _ _ hrelease))
        operations := h.operations.put (Nat.le_refl _) }
  | block _ hoperation _ _ hhead _ _ _ =>
      exact { h with
        operations := h.operations.put (h.operations _ _ hoperation :)
        routeHeads := h.routeHeads.put (flagged_clocked (h.routeHeads _ _ hhead))
        slots := h.slots.put (Nat.le_refl _) }
  | evidence hoperation _ _ _ _ =>
      exact { h with
        operations := h.operations.put (h.operations _ _ hoperation :) }
  | trace _ _ => exact { h with }
  | activate hholds hoperation _ _ hdeployment hmove hhead _ _ hrelease _ _ _ _ _ =>
      exact h.close ho hholds ⟨rfl, by simp⟩ (Nat.le_refl _) (Nat.le_refl _)
        (hmove.clocked (h.deployments _ _ hdeployment))
        (h.operations.put (h.operations _ _ hoperation :))
        ((retain_clocked _ h.releases).put ⟨(h.releases _ _ hrelease).1, Nat.le_refl _⟩)
        (h.routeHeads.put ⟨(h.routeHeads _ _ hhead).1, Nat.max_le.2 ⟨(h.routeHeads _ _ hhead).2, Nat.le_refl _⟩⟩)
  | abandon hholds hoperation _ _ hdeployment hmove hhead _ _ _ =>
      exact h.close ho hholds ⟨rfl, by simp⟩ (Nat.le_refl _) (Nat.le_refl _)
        (hmove.clocked (h.deployments _ _ hdeployment))
        (h.operations.put (h.operations _ _ hoperation :))
        h.releases
        (h.routeHeads.put (unflagged_clocked (h.routeHeads _ _ hhead)))
  | clear hslot _ _ _ _ =>
      exact { h with slots := h.slots.put (Nat.le_refl _) }
  | createHead _ _ =>
      exact { h with
        routeHeads := h.routeHeads.put ⟨Nat.le_refl _, Nat.le_refl _⟩ }
  | rename hhead _ _ _ hcreated =>
      exact { h with
        routeHeads := h.routeHeads.put ⟨hcreated, Nat.le_refl _⟩ }

end

-- Servers and credentials carry stamps of the same clock.
structure Registered (clock : Nat) (servers : Table String Server) (credentials : Table Nat Credential) : Prop where
  servers : Every servers.get? fun _ server => server.createdAt ≤ clock
  credentials : Every credentials.get? fun _ credential => credential.issuedAt ≤ clock

def Stamped (now : Nat) : Txn → Prop
  | .administer _ servers credentials => Registered now servers credentials
  | _ => True

-- The lease system with a database clock that never goes backwards: a state is a reading and a database.
def timedSystem : System (Nat × DB) where
  initial state := Initial state.2 ∧ Clocked state.1 (view state.2) ∧
    Registered state.1 state.2.servers state.2.credentials ∧ 0 < state.1
  next state state' := ∃ txn, state.1 ≤ state'.1 ∧ Stamped state'.1 txn ∧ state'.2 = exec state'.1 state.2 txn

section

variable {clock clock' now : Nat} {db db' : DB} {state state' : Nat × DB}

theorem timedSystem_run (h : timedSystem.Run state state') : leaseSystem.Run state.2 state'.2 ∧ state.1 ≤ state'.1 := by
  induction h with
  | refl => exact ⟨.refl, Nat.le_refl _⟩
  | tail _ hnext ih =>
      obtain ⟨txn, hle, -, hexec⟩ := hnext
      exact ⟨ih.1.tail ⟨_, txn, trivial, hexec⟩, ih.2.trans hle⟩

-- Forgetting the clock.
theorem timedSystem_reachable (h : timedSystem.Reachable (clock, db)) : leaseSystem.Reachable db := by
  obtain ⟨state₀, ⟨hinit, -⟩, hrun⟩ := h
  exact ⟨state₀.2, hinit, (timedSystem_run hrun).1⟩

-- What every state of a timed run satisfies.
structure Timed (clock : Nat) (db : DB) : Prop where
  sound : Sound db
  clocked : Clocked clock (view db)
  positive : 0 < clock

theorem Timed.mono (h : Timed clock db) (hle : clock ≤ now) : Timed now db :=
  ⟨h.sound, h.clocked.mono hle, Nat.lt_of_lt_of_le h.positive hle⟩

theorem Clocked.effects {v v' : View} {permitted : Kind → Prop} (h : Clocked now v) (hinv : Inv v)
    (he : Effects now permitted v v') : Clocked now v' :=
  (he.preserves (P := Clocked now) hinv h fun _ _ _ _ hinv h he => h.effect hinv.occupancy he).2

theorem Timed.exec (h : Timed clock db) (hle : clock ≤ now) (txn : Txn) : Timed now (exec now db txn) := by
  have h' := h.mono hle
  exact ⟨h'.sound.exec now txn,
    h'.clocked.effects h'.sound.inv (exec_effects h'.sound.inv h'.sound.reconciliations txn), h'.positive⟩

theorem timed_of_reachable (h : timedSystem.Reachable (clock, db)) : Timed clock db := by
  refine System.Reachable.invariant (P := fun state : Nat × DB => Timed state.1 state.2) ?_ ?_ h
  · rintro ⟨clock, db⟩ ⟨hinit, hclocked, -, hpositive⟩
    have hinit : Initial db := hinit
    exact ⟨⟨hinit.inv, hinit.reconciliations⟩, hclocked, hpositive⟩
  · rintro ⟨clock, db⟩ ⟨clock', db'⟩ h ⟨txn, hle, -, hexec⟩
    have hexec : db' = Protocol.exec clock' db txn := hexec
    rw [hexec]
    exact h.exec hle txn

-- Transactions one after another at readings that do not go back.
theorem timed_execAll {steps : List (Nat × Txn)} (h : timedSystem.Reachable (clock, db))
    (hclock : (clock :: steps.map Prod.fst).IsChain (· ≤ ·)) (hstamped : ∀ step ∈ steps, Stamped step.1 step.2) :
    timedSystem.Reachable ((steps.map Prod.fst).getLastD clock, execAll db steps) := by
  induction steps generalizing db clock with
  | nil => exact h
  | cons step rest ih =>
      simp only [List.map_cons, List.isChain_cons_cons] at hclock
      obtain ⟨hstep, hrest⟩ := List.forall_mem_cons.1 hstamped
      have hnext : timedSystem.Reachable (step.1, exec step.1 db step.2) := h.step ⟨step.2, hclock.1, hstep, rfl⟩
      rw [List.map_cons, List.getLastD_cons]
      exact ih hnext hclock.2 hrest

end

theorem sampleDB_timed : timedSystem.Reachable (1, sampleDB) := by
  refine .of_initial ⟨sampleDB_initial, ?_, ?_, Nat.one_pos⟩
  · exact
      { jobs := every_single (Nat.le_refl 1)
        slots := fun _ _ h => by cases h
        deployments := every_single (Nat.le_refl 1)
        releases := fun _ _ h => by cases h
        operations := fun _ _ h => by cases h
        routeHeads := every_single ⟨Nat.le_refl 1, Nat.le_refl 1⟩
        leases := fun _ _ h => by cases h }
  · exact ⟨every_single (Nat.le_refl 1), every_single (Nat.le_refl 1)⟩

end AutoDeploy.Protocol
