import AutoDeploy.Protocol.Histories

namespace AutoDeploy.Protocol

open Function Lib Queue Store Deployment

-- The attempts of a job are numbered from one to its attempt count, each number once.
structure Numbering (attempts : Nat → Option Attempt) (jobs : Nat → Option Job) : Prop where
  distinct : Every attempts fun id a => Every attempts fun other b =>
    a.jobID = b.jobID → a.attemptNumber = b.attemptNumber → id = other
  complete : Every jobs fun jobID job => ∀ n, 1 ≤ n → n ≤ job.attemptCount →
    ∃ id a, attempts id = some a ∧ a.jobID = jobID ∧ a.attemptNumber = n

-- The attempt's activation was resolved as not activated.
def Declined (operations : Nat → Option Operation) (attemptID : Nat) : Prop :=
  ∃ id op, operations id = some op ∧ op.attemptID = attemptID ∧ op.state = .failed

-- What the last attempt of a job left behind. A job that waits for its retry may have been cancelled since.
inductive Outcome (declined : Prop) (a : Attempt) (job : Job) : Prop
  | declined (hdeclined : declined) (hattempt : a.state = .expired) (hjob : job.state = .failed)
  | ended (hnot : ¬ declined)
      (hverdict : Verdict a.attemptNumber job.cancelRequestedAt a.state a.failureClass job.state)
  | withdrawn {mark : Option Nat} (hnot : ¬ declined)
      (hverdict : Verdict a.attemptNumber mark a.state a.failureClass .retryWait) (hjob : job.state = .cancelled)

structure Outcomes (attempts : Nat → Option Attempt) (jobs : Nat → Option Job)
    (operations : Nat → Option Operation) : Prop where
  ended : Every attempts fun id a => a.state ≠ .leased → At jobs a.jobID fun job =>
    a.attemptNumber = job.attemptCount → Outcome (Declined operations id) a job
  declined : ∀ id, Declined operations id → At attempts id fun a => a.state ≠ .leased
  untried : Every jobs fun _ job => job.attemptCount = 0 → job.state = .queued ∨ job.state = .cancelled

-- What the end of a job leaves of its deployment.
structure Settled (state : JobState) (status : Status) : Prop where
  failed : state = .failed ∨ state = .dead → status = .failed
  cancelled : state = .cancelled → status = .cancelled

structure Settlements (jobs : Nat → Option Job) (deployments : String → Option Snapshot)
    (operations : Nat → Option Operation) : Prop where
  settled : Every jobs fun _ job => At deployments job.deploymentID fun s => Settled job.state s.status
  healthy : Every operations fun _ op => op.state = .succeeded →
    At deployments op.releaseID fun s => s.status = .healthy

structure Lifecycles (v : View) : Prop where
  numbering : Numbering v.attempts v.jobs
  outcomes : Outcomes v.attempts v.jobs v.operations
  settlements : Settlements v.jobs v.deployments v.operations

section

variable {now id attemptID jobID operationID : Nat} {v v' : View} {attempts : Nat → Option Attempt}
  {jobs : Nat → Option Job} {operations : Nat → Option Operation} {deployments : String → Option Snapshot}
  {attempt attempt' : Attempt} {job job' : Job} {slot : Slot} {op op' : Operation} {s s' : Snapshot}

theorem Numbering.write_attempt (h : Numbering attempts jobs) (hold : attempts attemptID = some attempt)
    (hjob : attempt'.jobID = attempt.jobID) (hnumber : attempt'.attemptNumber = attempt.attemptNumber) :
    Numbering (update attempts attemptID (some attempt')) jobs where
  distinct := by
    refine Every.write (fun id a hne hrow => ?_) ?_
    · refine Every.write (fun other b _ hrow' => h.distinct id a hrow other b hrow') fun hsame heq => ?_
      exact h.distinct id a hrow attemptID attempt hold (hsame.trans hjob) (heq.trans hnumber)
    · refine Every.write (fun other b _ hrow' hsame heq => ?_) fun _ _ => rfl
      exact h.distinct attemptID attempt hold other b hrow' (hjob.symm.trans hsame) (hnumber.symm.trans heq)
  complete jobID job hrow n hpos hle := by
    obtain ⟨id, a, ha, hof, hn⟩ := h.complete jobID job hrow n hpos hle
    by_cases hid : id = attemptID
    · subst hid
      rw [hold] at ha
      cases ha
      exact ⟨id, attempt', update_self _ _ _, hjob.trans hof, hnumber.trans hn⟩
    · exact ⟨id, a, (update_of_ne hid _ _).trans ha, hof, hn⟩

theorem Numbering.write_job (h : Numbering attempts jobs) (hold : jobs jobID = some job)
    (hcount : job'.attemptCount = job.attemptCount) : Numbering attempts (update jobs jobID (some job')) where
  distinct := h.distinct
  complete := Every.write (fun id j _ hrow => h.complete id j hrow) fun n hpos hle =>
    h.complete jobID job hold n hpos (hcount ▸ hle)

-- A new attempt takes the next number of its job.
theorem Numbering.lease (h : Numbering attempts jobs) (hjob : jobs jobID = some job)
    (hnone : attempts attemptID = none) (hof : attempt.jobID = jobID)
    (hnumber : attempt.attemptNumber = job.attemptCount + 1) (hcount : job'.attemptCount = job.attemptCount + 1)
    (hbelow : Every attempts fun _ a => a.jobID = jobID → a.attemptNumber ≤ job.attemptCount) :
    Numbering (update attempts attemptID (some attempt)) (update jobs jobID (some job')) where
  distinct := by
    refine Every.write (fun id a _ hrow => ?_) ?_
    · refine Every.write (fun other b _ hrow' => h.distinct id a hrow other b hrow') fun hsame heq => ?_
      have := hbelow id a hrow (hsame.trans hof)
      omega
    · refine Every.write (fun other b _ hrow' hsame heq => ?_) fun _ _ => rfl
      have := hbelow other b hrow' (hsame.symm.trans hof)
      omega
  complete := by
    have hkeep {n : Nat} {id : Nat} (hex : ∃ k a, attempts k = some a ∧ a.jobID = id ∧ a.attemptNumber = n) :
        ∃ k a, update attempts attemptID (some attempt) k = some a ∧ a.jobID = id ∧ a.attemptNumber = n := by
      obtain ⟨k, a, ha, hrest⟩ := hex
      have hne : k ≠ attemptID := by
        rintro rfl
        rw [hnone] at ha
        cases ha
      exact ⟨k, a, (update_of_ne hne _ _).trans ha, hrest⟩
    refine Every.write (fun id j _ hrow n hpos hle => hkeep (h.complete id j hrow n hpos hle)) fun n hpos hle => ?_
    by_cases hlast : n = job.attemptCount + 1
    · exact ⟨attemptID, attempt, update_self _ _ _, hof, hnumber.trans hlast.symm⟩
    · exact hkeep (h.complete jobID job hjob n hpos (by omega))

theorem Verdict.not_leased {number : Nat} {mark : Option Nat} {state : AttemptState} {c : Option FailureClass}
    {jobState : JobState} (h : Verdict number mark state c jobState) :
    state ≠ .leased ∧ jobState ≠ .leased ∧ jobState ≠ .queued := by
  cases h <;> simp

theorem Outcome.not_leased {declined : Prop} (h : Outcome declined attempt job) :
    job.state ≠ .leased ∧ job.state ≠ .queued := by
  cases h with
  | declined _ _ hjob => simp [hjob]
  | ended _ hverdict => exact hverdict.not_leased.2
  | withdrawn _ _ hjob => simp [hjob]

theorem Outcomes.write_attempt (h : Outcomes attempts jobs operations) (hold : attempts attemptID = some attempt)
    (hleased : attempt.state = .leased) (hleased' : attempt'.state = .leased) :
    Outcomes (update attempts attemptID (some attempt')) jobs operations where
  ended := Every.write (fun id a _ hrow => h.ended id a hrow) fun hclosed => absurd hleased' hclosed
  declined id hdeclined := by
    refine (h.declined id hdeclined).write_of_ne ?_
    rintro rfl
    exact (h.declined id hdeclined).of_row hold hleased
  untried := h.untried

theorem Outcomes.write_job (h : Outcomes attempts jobs operations) (hold : jobs jobID = some job)
    (hcount : job'.attemptCount = job.attemptCount) (hstate : job.state = .leased ∨ job'.state = .cancelled)
    (hkeep : ∀ declined a, Outcome declined a job → Outcome declined a job') :
    Outcomes attempts (update jobs jobID (some job')) operations where
  ended id a hrow hclosed := by
    refine (h.ended id a hrow hclosed).write hold fun _ hended heq => ?_
    exact hkeep _ a (hended (heq.trans hcount))
  declined := h.declined
  untried := by
    refine Every.write (fun id j _ hrow => h.untried id j hrow) fun hzero => ?_
    rcases hstate with hleased | hcancelled
    · have := h.untried jobID job hold (hcount ▸ hzero)
      simp [hleased] at this
    · exact .inr hcancelled

theorem Outcomes.write_operations {operations' : Nat → Option Operation} (h : Outcomes attempts jobs operations)
    (hsame : ∀ id, Declined operations' id ↔ Declined operations id) : Outcomes attempts jobs operations' where
  ended id a hrow hclosed := (h.ended id a hrow hclosed).imp fun job hended heq => by
    rw [hsame id]
    exact hended heq
  declined id hdeclined := h.declined id ((hsame id).1 hdeclined)
  untried := h.untried

theorem declined_write (hold : ∀ op, operations operationID = some op → op.state ≠ .failed)
    (hnew : op'.state ≠ .failed) (id : Nat) :
    Declined (update operations operationID (some op')) id ↔ Declined operations id := by
  constructor
  · rintro ⟨k, op, hrow, hof, hfailed⟩
    rcases update_eq_some.1 hrow with ⟨-, rfl⟩ | ⟨-, hrow⟩
    · exact absurd hfailed hnew
    · exact ⟨k, op, hrow, hof, hfailed⟩
  · rintro ⟨k, op, hrow, hof, hfailed⟩
    have hne : k ≠ operationID := by
      rintro rfl
      exact hold op hrow hfailed
    exact ⟨k, op, (update_of_ne hne _ _).trans hrow, hof, hfailed⟩

theorem declined_abandon (op' : Operation) (hold : operations operationID = some op) (hopen : op.state ≠ .failed)
    (hof : op'.attemptID = attemptID) (hfailed : op'.state = .failed) (id : Nat) :
    Declined (update operations operationID (some op')) id ↔ id = attemptID ∨ Declined operations id := by
  constructor
  · rintro ⟨k, x, hrow, hx, hstate⟩
    rcases update_eq_some.1 hrow with ⟨-, rfl⟩ | ⟨-, hrow⟩
    · exact .inl (hx.symm.trans hof)
    · exact .inr ⟨k, x, hrow, hx, hstate⟩
  · rintro (rfl | ⟨k, x, hrow, hx, hstate⟩)
    · exact ⟨operationID, op', update_self _ _ _, hof, hfailed⟩
    · have hne : k ≠ operationID := by
        rintro rfl
        rw [hold] at hrow
        cases hrow
        exact hopen hstate
      exact ⟨k, x, (update_of_ne hne _ _).trans hrow, hx, hstate⟩

-- The end of the running attempt of a job, whatever ends it. The earlier attempts have other numbers.
theorem Outcomes.close {operations' : Nat → Option Operation} (h : Outcomes attempts jobs operations)
    (hdistinct : Numbering attempts jobs) (hold : attempts attemptID = some attempt)
    (hjob : jobs attempt.jobID = some job) (hleased : job.state = .leased)
    (hnumber : attempt.attemptNumber = job.attemptCount) (hcount : job'.attemptCount = job.attemptCount)
    (hof : attempt'.jobID = attempt.jobID) (hclosed : attempt'.state ≠ .leased)
    (hothers : ∀ id, id ≠ attemptID → (Declined operations' id ↔ Declined operations id))
    (hended : Outcome (Declined operations' attemptID) attempt' job') :
    Outcomes (update attempts attemptID (some attempt')) (update jobs attempt.jobID (some job')) operations' where
  ended := by
    refine Every.write (fun id a hne hrow hclosed => ?_) fun _ => ?_
    · obtain ⟨j, hj, hended⟩ := h.ended id a hrow hclosed
      by_cases hsame : a.jobID = attempt.jobID
      · refine .intro (v := job') (by rw [hsame, update_self]) fun heq => ?_
        rw [hsame, hjob] at hj
        cases hj
        exact absurd (hdistinct.distinct id a hrow attemptID attempt hold hsame
          (heq.trans (hcount.trans hnumber.symm))) hne
      · refine .intro (v := j) ((update_of_ne hsame _ _).trans hj) fun heq => ?_
        rw [hothers id hne]
        exact hended heq
    · exact .intro (by rw [hof, update_self]) fun _ => hended
  declined id hdeclined := by
    by_cases hid : id = attemptID
    · subst hid
      exact At.write_self hclosed
    · exact (h.declined id ((hothers id hid).1 hdeclined)).write_of_ne hid
  untried := by
    refine Every.write (fun id j _ hrow => h.untried id j hrow) fun hzero => ?_
    have := h.untried _ job hjob (hcount ▸ hzero)
    simp [hleased] at this

-- A job and its deployment change together while the deployment is not healthy.
theorem Settlements.write (h : Settlements jobs deployments operations) (hjob : jobs jobID = some job)
    (hseparate : Every jobs fun id job => Every jobs fun other job' => job.deploymentID = job'.deploymentID → id = other)
    (hrow : deployments job.deploymentID = some s) (hunhealthy : s.status ≠ .healthy)
    (hsame : job'.deploymentID = job.deploymentID) (hsettled : Settled job'.state s'.status) :
    Settlements (update jobs jobID (some job')) (update deployments job.deploymentID (some s')) operations where
  settled := by
    refine Every.write (fun id j hne hj => ?_) (hsame ▸ At.write_self hsettled)
    refine (h.settled id j hj).write_of_ne fun heq => ?_
    exact hne (hseparate id j hj jobID job hjob heq)
  healthy id op hop hsucceeded := by
    refine (h.healthy id op hop hsucceeded).write hrow fun _ hhealthy => ?_
    exact absurd hhealthy hunhealthy

theorem Settlements.write_operation (h : Settlements jobs deployments operations) (hnew : op'.state = .succeeded →
    At deployments op'.releaseID fun s => s.status = .healthy) :
    Settlements jobs deployments (update operations operationID (some op')) where
  settled := h.settled
  healthy := Every.write (fun id op _ hop => h.healthy id op hop) hnew

theorem Ends.settles {state : JobState} (h : Ends now s state s') : Settled state s'.status := by
  cases h with
  | kept hstate => rcases hstate with rfl | rfl <;> exact ⟨by simp, by simp⟩
  | failed hstate hmove => exact ⟨fun _ => hmove.status, fun hs => by rcases hstate with h | h <;> simp [h] at hs⟩
  | cancelled hmove => exact ⟨by simp, fun _ => hmove.status⟩

theorem settled_of_open {state : JobState} {status : Status} (h : state.terminal = false) : Settled state status := by
  refine ⟨fun hs => ?_, fun hs => ?_⟩
  · rcases hs with rfl | rfl <;> cases h
  · rw [hs] at h
    cases h

-- The new attempt of a job has a number above those that ended.
theorem Outcomes.lease (h : Outcomes attempts jobs operations) (hjob : jobs jobID = some job)
    (hnone : attempts attemptID = none) (hleased : attempt.state = .leased)
    (hcount : job'.attemptCount = job.attemptCount + 1)
    (hbelow : Every attempts fun _ a => a.jobID = jobID → a.attemptNumber ≤ job.attemptCount) :
    Outcomes (update attempts attemptID (some attempt)) (update jobs jobID (some job')) operations where
  ended := by
    refine Every.write (fun id a _ hrow hclosed => ?_) fun hclosed => absurd hleased hclosed
    refine (h.ended id a hrow hclosed).write hjob fun hsame _ heq => ?_
    have := hbelow id a hrow hsame
    omega
  declined id hdeclined := (h.declined id hdeclined).insert hnone
  untried := Every.write (fun id j _ hrow => h.untried id j hrow) (by simp [hcount])

theorem unhealthy_of_running {status : Status} (h : running status = true) : status ≠ .healthy := by
  rintro rfl
  cases h

-- A deployment whose job is not closed is not healthy.
theorem Pipeline.unhealthy (hp : Pipeline v) (hjob : v.jobs jobID = some job)
    (hdeployment : v.deployments job.deploymentID = some s) (hopen : job.state.terminal = false) :
    s.status ≠ .healthy := by
  have hfits := hp.fits hjob hdeployment
  cases hstate : job.state with
  | queued => simp [(hfits.queued hstate).1]
  | leased => exact unhealthy_of_running (hfits.running (.inl hstate))
  | retryWait => exact unhealthy_of_running (hfits.running (.inr hstate))
  | succeeded => simp [hstate, JobState.terminal] at hopen
  | failed => simp [hstate, JobState.terminal] at hopen
  | cancelled => simp [hstate, JobState.terminal] at hopen
  | dead => simp [hstate, JobState.terminal] at hopen

theorem Occupancy.numbers_below (ho : Occupancy v) (hjob : v.jobs jobID = some job) :
    Every v.attempts fun _ a => a.jobID = jobID → a.attemptNumber ≤ job.attemptCount := by
  intro id a hrow hof
  exact ((ho.fitsJob id a hrow).of_row (hof ▸ hjob)).number

theorem open_of_idle (hstate : job.state = .queued ∨ job.state = .retryWait) : job.state.terminal = false := by
  rcases hstate with hs | hs <;> rw [hs] <;> rfl

-- A job cancelled while it waits keeps the end of its last attempt.
theorem Outcome.withdraw {declined : Prop} (h : Outcome declined attempt job)
    (hstate : job.state = .queued ∨ job.state = .retryWait) (hcancelled : job'.state = .cancelled) :
    Outcome declined attempt job' := by
  have hwaiting : job.state = .retryWait := by
    rcases hstate with hs | hs
    · exact absurd hs h.not_leased.2
    · exact hs
  cases h with
  | declined _ _ hjob => simp [hwaiting] at hjob
  | ended hnot hverdict => exact .withdrawn hnot (hwaiting ▸ hverdict) hcancelled
  | withdrawn _ _ hjob => simp [hwaiting] at hjob

theorem Outcomes.undeclined (h : Outcomes v.attempts v.jobs v.operations) (hh : Holds v attemptID attempt slot job) :
    ¬ Declined v.operations attemptID := by
  intro hdeclined
  exact (h.declined attemptID hdeclined).of_row hh.attemptRow hh.leased

-- The end of an attempt, with whatever happens to its activation.
theorem Lifecycles.close {operations' : Nat → Option Operation} {releases' : String → Option Release}
    {routeHeads' : String → Option RouteHead} {slot' : Slot} {events : List JobEvent}
    (h : Lifecycles v) (hinv : Inv v) (hh : Holds v attemptID attempt slot job)
    (hdeployment : v.deployments job.deploymentID = some s)
    (hattempt : attempt'.jobID = attempt.jobID ∧ attempt'.attemptNumber = attempt.attemptNumber ∧
      attempt'.state ≠ .leased)
    (hjob : job'.deploymentID = job.deploymentID ∧ job'.attemptCount = job.attemptCount)
    (hsettled : Settled job'.state s'.status)
    (hothers : ∀ id, id ≠ attemptID → (Declined operations' id ↔ Declined v.operations id))
    (hended : Outcome (Declined operations' attemptID) attempt' job')
    (hhealthy : Every operations' fun id op => op.state = .succeeded →
      v.operations id = some op ∨ (op.releaseID = job.deploymentID ∧ s'.status = .healthy)) :
    Lifecycles { v.close attemptID attempt' slot' job' s' events with
      operations := operations', releases := releases', routeHeads := routeHeads' } := by
  obtain ⟨hnumbering, houtcomes, hsettlements⟩ := h
  obtain ⟨hof, hnumber, hclosed⟩ := hattempt
  obtain ⟨hsame, hcount⟩ := hjob
  obtain ⟨hleased, hlast⟩ := (hinv.occupancy.holds_fitsJob hh).leased hh.leased
  have hunhealthy := hinv.pipeline.unhealthy hh.jobRow hdeployment (by rw [hleased]; rfl)
  have hwritten := hsettlements.write hh.jobRow hinv.pipeline.separate hdeployment hunhealthy hsame hsettled
  simp only [View.close]
  rw [hof, hsame]
  refine ⟨(hnumbering.write_attempt hh.attemptRow hof hnumber).write_job hh.jobRow hcount,
    houtcomes.close hnumbering hh.attemptRow hh.jobRow hleased hlast.symm hcount hof hclosed hothers hended,
    hwritten.settled, fun id op hop hsucceeded => ?_⟩
  rcases hhealthy id op hop hsucceeded with hold | ⟨hrelease, hstatus⟩
  · exact hwritten.healthy id op hold hsucceeded
  · rw [hrelease]
    exact At.write_self hstatus

theorem Lifecycles.effect {kind : Kind} (h : Lifecycles v) (hinv : Inv v) (he : Effect now v kind v') :
    Lifecycles v' := by
  have ⟨hnumbering, houtcomes, hsettlements⟩ := h
  have ho := hinv.occupancy
  have hp := hinv.pipeline
  have hleased {attemptID : Nat} {attempt : Attempt} {slot : Slot} {job : Job}
      (hh : Holds v attemptID attempt slot job) : job.state = .leased :=
    ((ho.holds_fitsJob hh).leased hh.leased).1
  -- a running job keeps its deployment from being settled
  have hmoves {attemptID : Nat} {attempt : Attempt} {slot : Slot} {job : Job} {s s' : Snapshot}
      (hh : Holds v attemptID attempt slot job) (hs : v.deployments job.deploymentID = some s) :
      Settlements v.jobs (update v.deployments job.deploymentID (some s')) v.operations := by
    rw [← update_row hh.jobRow]
    exact hsettlements.write hh.jobRow hp.separate hs (hp.unhealthy hh.jobRow hs (by rw [hleased hh]; rfl)) rfl
      (settled_of_open (by rw [hleased hh]; rfl))
  -- an operation that was not resolved as failed
  have hundeclined {operationID : Nat} {op op' : Operation} (hop : v.operations operationID = some op)
      (hstate : op.state ≠ .failed) (hnew : op'.state ≠ .failed) (id : Nat) :
      Declined (update v.operations operationID (some op')) id ↔ Declined v.operations id := by
    refine declined_write (fun x hx => ?_) hnew id
    rw [hop] at hx
    cases hx
    exact hstate
  cases he with
  | openSlot _ => exact ⟨hnumbering, houtcomes, hsettlements⟩
  | freeze _ => exact ⟨hnumbering, houtcomes, hsettlements⟩
  | candidate _ _ _ _ _ _ _ => exact ⟨hnumbering, houtcomes, hsettlements⟩
  | @lease jobID attemptID job _ _ _ _ hjob _ _ _ hstate _ _ _ hfresh hdeployment _ _ _ _ _ =>
      have hnone : v.attempts attemptID = none := by
        by_contra hsome
        obtain ⟨a, ha⟩ := Option.ne_none_iff_exists'.1 hsome
        exact Nat.lt_irrefl _ (hfresh ha)
      exact ⟨hnumbering.lease hjob hnone rfl rfl rfl (ho.numbers_below hjob),
        houtcomes.lease hjob hnone rfl rfl (ho.numbers_below hjob),
        hsettlements.write hjob hp.separate hdeployment (hp.unhealthy hjob hdeployment (open_of_idle hstate)) rfl
          (settled_of_open rfl)⟩
  | renew hholds _ =>
      exact ⟨hnumbering.write_attempt hholds.attemptRow rfl rfl,
        houtcomes.write_attempt hholds.attemptRow hholds.leased hholds.leased, hsettlements⟩
  | close hholds _ hclosed _ _ _ hdeployment hends _ _ _ hverdict =>
      exact h.close hinv hholds hdeployment ⟨rfl, rfl, hclosed⟩ ⟨rfl, rfl⟩ hends.settles (fun _ _ => Iff.rfl)
        (.ended (houtcomes.undeclined hholds) hverdict) fun _ _ hop _ => .inl hop
  | cancel hjob hstate _ hdeployment hmove _ =>
      exact ⟨hnumbering.write_job hjob rfl,
        houtcomes.write_job hjob rfl (.inr rfl) fun _ _ hended => hended.withdraw hstate rfl,
        hsettlements.write hjob hp.separate hdeployment (hp.unhealthy hjob hdeployment (open_of_idle hstate)) rfl
          ⟨by simp, fun _ => hmove.status⟩⟩
  | mark hjob hstate _ hattempt hleased _ hdeployment _ _ _ =>
      refine ⟨.write_job (hnumbering.write_attempt hattempt ?_ ?_) hjob ?_,
        .write_job (houtcomes.write_attempt hattempt hleased ?_) hjob ?_ (.inl hstate) fun _ _ hended =>
          absurd hstate hended.not_leased.1, ?_⟩
      · rfl
      · rfl
      · rfl
      · exact hleased
      · rfl
      rw [← update_row hdeployment]
      exact hsettlements.write hjob hp.separate hdeployment
        (hp.unhealthy hjob hdeployment (by rw [hstate]; rfl)) rfl (settled_of_open (by simp [hstate, JobState.terminal]))
  | progress hholds _ hdeployment _ => exact ⟨hnumbering, houtcomes, hmoves hholds hdeployment⟩
  | authorize hholds _ _ _ _ hfresh hdeployment _ _ _ _ _ _ _ _ _ _ =>
      exact ⟨hnumbering, houtcomes.write_operations (declined_write (fun op hop => by simp [hfresh] at hop)
        (by simp [authorizedOperation])),
        (hmoves hholds hdeployment).write_operation (by simp [authorizedOperation])⟩
  | block _ hoperation _ hstate _ _ _ _ =>
      exact ⟨hnumbering, houtcomes.write_operations (hundeclined hoperation (by simp [hstate]) (by simp)),
        hsettlements.write_operation (by simp)⟩
  | evidence hoperation hstate _ _ _ =>
      exact ⟨hnumbering, houtcomes.write_operations (hundeclined hoperation (by simp [hstate]) (by simp [hstate])),
        hsettlements.write_operation (by simp [hstate])⟩
  | trace _ _ => exact ⟨hnumbering, houtcomes, hsettlements⟩
  | @activate _ operationID _ _ _ _ _ op _ _ _ summary _ hholds hoperation hof hstate hdeployment hmove =>
      have hunfailed : op.state ≠ .failed := by
        intro hfailed
        simp [hfailed] at hstate
      have hofAttempt := (hinv.activations.ofAttempt operationID op hoperation).of_row (hof ▸ hholds.attemptRow)
      have hofJob := (hinv.activations.ofJob operationID op hoperation).of_row (hofAttempt.job ▸ hholds.jobRow)
      refine h.close hinv hholds hdeployment ⟨rfl, rfl, by simp⟩ ⟨rfl, rfl⟩ ⟨by simp, by simp⟩
        (fun id _ => hundeclined hoperation hunfailed (by simp) id) (.ended ?_ .succeeded)
        (Every.write (fun _ _ _ hop _ => .inl hop) fun _ => .inr ⟨hofJob.release, hmove.status⟩)
      rw [hundeclined hoperation hunfailed (by simp)]
      exact houtcomes.undeclined hholds
  | @abandon attemptID operationID _ _ _ _ _ op _ summary _ hholds hoperation hof hstate hdeployment hmove =>
      have hdeclined := declined_abandon { op with
        state := .failed, closedAt := some (op.closedAt.getD now), outcomeSummary := summary } hoperation
        (by simp [hstate]) hof rfl
      refine h.close hinv hholds hdeployment ⟨rfl, rfl, by simp⟩ ⟨rfl, rfl⟩ ⟨fun _ => hmove.status, by simp⟩
        (fun id hne => ?_) (.declined ((hdeclined attemptID).2 (.inl rfl)) rfl rfl)
        (Every.write (fun _ _ _ hop _ => .inl hop) (by simp))
      rw [hdeclined id]
      simp [hne]
  | clear _ _ _ _ _ => exact ⟨hnumbering, houtcomes, hsettlements⟩
  | createHead _ _ => exact ⟨hnumbering, houtcomes, hsettlements⟩
  | rename _ _ _ _ _ => exact ⟨hnumbering, houtcomes, hsettlements⟩

-- A deployment takes allowed steps only.
def StepsTo (s s' : Snapshot) : Prop := s' = s ∨ canTransition s.status s'.status = true

-- ... and records each one. Only a new activation moves it to activating, and nothing rolls it back.
def Advances (now : Nat) (kind : Kind) (s s' : Snapshot) : Prop :=
  s' = s ∨ ∃ target, canTransition s.status target = true ∧ (target = .activating → kind = .authorizes) ∧
    target ≠ .rolledBack ∧ s' = advanceSnapshot s target now

theorem Advances.stepsTo {kind : Kind} (h : Advances now kind s s') : StepsTo s s' := by
  rcases h with rfl | ⟨target, hstep, -, -, rfl⟩
  · exact .inl rfl
  · exact .inr hstep

theorem Moves.advances {target : Status} {kind : Kind} (h : Moves now target s s')
    (hactivating : target = .activating → kind = .authorizes) (hforward : target ≠ .rolledBack) :
    Advances now kind s s' := by
  cases h with
  | same _ => exact .inl rfl
  | step hstep _ _ => exact .inr ⟨target, hstep, hactivating, hforward, rfl⟩

theorem Ends.advances {state : JobState} {kind : Kind} (h : Ends now s state s') : Advances now kind s s' := by
  cases h with
  | kept _ => exact .inl rfl
  | failed _ hmove => exact hmove.advances (by simp) (by simp)
  | cancelled hmove => exact hmove.advances (by simp) (by simp)

theorem Advances.write {name key : String} {old new : Snapshot} {kind : Kind} (hrow : deployments name = some s)
    (hold : deployments key = some old) (h : Advances now kind old new) :
    At (update deployments key (some new)) name (Advances now kind s) := by
  by_cases hname : name = key
  · subst hname
    rw [hrow] at hold
    cases hold
    exact .intro (update_self _ _ _) h
  · exact .intro ((update_of_ne hname _ _).trans hrow) (.inl rfl)

theorem reportable_forward {phase : Status} (h : agentReportablePhase phase = true) :
    phase ≠ .activating ∧ phase ≠ .rolledBack := by
  constructor
  · rintro rfl
    cases h
  · rintro rfl
    cases h

theorem Effect.deployment_advances {kind : Kind} {name : String} (he : Effect now v kind v')
    (hrow : v.deployments name = some s) : At v'.deployments name (Advances now kind s) := by
  have hsame : At v.deployments name (Advances now kind s) := .intro hrow (.inl rfl)
  cases he with
  | openSlot _ => exact hsame
  | freeze _ => exact hsame
  | candidate _ _ _ _ _ _ _ => exact hsame
  | lease _ _ _ _ _ _ _ _ _ hdeployment hassigned _ _ _ _ =>
      rcases hassigned with ⟨-, hmove⟩ | ⟨-, rfl⟩
      · exact Advances.write hrow hdeployment (hmove.advances (by simp) (by simp))
      · exact Advances.write hrow hdeployment (.inl rfl)
  | renew _ _ => exact hsame
  | close _ _ _ _ _ _ hdeployment hends _ _ _ _ => exact Advances.write hrow hdeployment hends.advances
  | cancel _ _ _ hdeployment hmove _ => exact Advances.write hrow hdeployment (hmove.advances (by simp) (by simp))
  | mark _ _ _ _ _ _ _ _ _ _ => exact hsame
  | progress _ hphase hdeployment hmove =>
      obtain ⟨hactivating, hforward⟩ := reportable_forward hphase
      exact Advances.write hrow hdeployment (hmove.advances (fun h => absurd h hactivating) hforward)
  | authorize _ _ _ _ _ _ hdeployment hmove _ _ _ _ _ _ _ _ _ =>
      exact Advances.write hrow hdeployment (hmove.advances (fun _ => rfl) (by simp))
  | block _ _ _ _ _ _ _ _ => exact hsame
  | evidence _ _ _ _ _ => exact hsame
  | trace _ _ => exact hsame
  | activate _ _ _ _ hdeployment hmove _ _ _ _ _ _ _ _ _ =>
      exact Advances.write hrow hdeployment (hmove.advances (by simp) (by simp))
  | abandon _ _ _ _ hdeployment hmove _ _ _ _ =>
      exact Advances.write hrow hdeployment (hmove.advances (by simp) (by simp))
  | clear _ _ _ _ _ => exact hsame
  | createHead _ _ => exact hsame
  | rename _ _ _ _ _ => exact hsame

theorem Effect.deployment_steps {kind : Kind} {name : String} (he : Effect now v kind v')
    (hrow : v.deployments name = some s) : At v'.deployments name (StepsTo s) :=
  (he.deployment_advances hrow).imp fun _ h => h.stepsTo

theorem StepsTo.of_terminal (h : StepsTo s s') (hterminal : isTerminal s.status = true) : s' = s := by
  rcases h with h | hstep
  · exact h
  · cases hstatus : s.status <;> simp_all [isTerminal, canTransition]

end

end AutoDeploy.Protocol
