import AutoDeploy.Protocol.Activations

namespace AutoDeploy.Protocol

open Function Lib Lib.Result Queue Store Deployment

-- What a route head says is live, and the activation that made it so.
def Documents (v : View) (environmentID : String) (head : RouteHead) (id : String) : Prop :=
  ∃ operationID op, v.operations operationID = some op ∧ op.releaseID = id ∧ op.environmentID = environmentID ∧
    op.state = .succeeded ∧ op.expectedRouteRevision + 1 = head.routeRevision ∧
    Authorizes v.executions op head.hostname

structure Routes (v : View) : Prop where
  named : Every v.releases fun id _ => v.deployments id ≠ none
  keyed : Every v.releases fun id release => release.deploymentID = id
  activeHead : Every v.releases fun id release => release.state = .active →
    At v.routeHeads release.environmentID fun head => head.activeReleaseID = some id
  headActive : Every v.routeHeads fun environmentID head => ∀ id ∈ head.activeReleaseID,
    At v.releases id fun release => release.state = .active ∧ release.environmentID = environmentID
  documented : Every v.routeHeads fun environmentID head => ∀ id ∈ head.activeReleaseID,
    Documents v environmentID head id
  succeededOnce : Every v.operations fun operationID op => Every v.operations fun other op' =>
    op.state = .succeeded → op'.state = .succeeded → op.releaseID = op'.releaseID → operationID = other
  hostnames : Every v.routeHeads fun environmentID head => Every v.routeHeads fun other head' =>
    head.hostname = head'.hostname → environmentID = other

section

variable {now : Nat} {v v' : View} {attemptID operationID : Nat} {attempt : Attempt} {slot : Slot} {job : Job}
  {op : Operation} {s s' : Snapshot}

theorem Routes.headNamed (hp : Pipeline v) (hr : Routes v) :
    Every v.routeHeads fun _ head => head.activeReleaseID ≠ some "" := by
  intro environmentID head hrow hactive
  obtain ⟨release, hrelease, -⟩ := hr.headActive environmentID head hrow "" hactive
  cases hdeployment : v.deployments "" with
  | none => exact hr.named "" release hrelease hdeployment
  | some s => exact (hp.stored "" s hdeployment).named rfl

theorem written_ne_none {κ α : Type} [DecidableEq κ] {f : κ → Option α} {k : κ} {a : α} (x : κ) (h : f x ≠ none) :
    update f k (some a) x ≠ none := by
  by_cases hx : x = k
  · simp [hx]
  · simpa [hx] using h

theorem Routes.congr (hr : Routes v) (hdeployments : ∀ id, v.deployments id ≠ none → v'.deployments id ≠ none)
    (hreleases : v'.releases = v.releases) (hheads : v'.routeHeads = v.routeHeads)
    (hoperations : v'.operations = v.operations) (hexecutions : v'.executions = v.executions) : Routes v' := by
  obtain ⟨h₁, h₂, h₃, h₄, h₅, h₆, h₇⟩ := hr
  constructor
  case named =>
    intro id release hrow
    rw [hreleases] at hrow
    exact hdeployments id (h₁ id release hrow)
  case documented =>
    intro environmentID head hrow id hid
    rw [hheads] at hrow
    obtain ⟨o, op, hop, hrest⟩ := h₅ environmentID head hrow id hid
    exact ⟨o, op, hoperations ▸ hop, hexecutions ▸ hrest⟩
  all_goals simpa only [hreleases, hheads, hoperations]

theorem Documents.of_operations {operations : Nat → Option Operation} {environmentID id : String} {head : RouteHead}
    (h : Documents v environmentID head id)
    (hkeep : ∀ o x, v.operations o = some x → x.state = .succeeded → operations o = some x) :
    Documents { v with operations := operations } environmentID head id := by
  obtain ⟨o, x, hx, hid, henv, hstate, hrest⟩ := h
  exact ⟨o, x, hkeep o x hx hstate, hid, henv, hstate, hrest⟩

-- Operations that have not succeeded may come and change.
theorem Routes.write_operation (hr : Routes v) (operationID : Nat) (op' : Operation)
    (hold : ∀ x, v.operations operationID = some x → x.state ≠ .succeeded) (hnew : op'.state ≠ .succeeded) :
    Routes { v with operations := update v.operations operationID (some op') } := by
  have hkeep : ∀ o x, v.operations o = some x → x.state = .succeeded →
      update v.operations operationID (some op') o = some x := by
    intro o x hx hstate
    refine (update_of_ne ?_ _ _).trans hx
    rintro rfl
    exact hold x hx hstate
  refine ⟨hr.named, hr.keyed, hr.activeHead, hr.headActive,
    fun env head hrow id hid => (hr.documented env head hrow id hid).of_operations hkeep, ?_, hr.hostnames⟩
  refine Every.write (fun o x _ hx => ?_) fun _ _ _ hs => absurd hs hnew
  exact Every.write (fun o' x' _ hx' => hr.succeededOnce o x hx o' x' hx') fun _ hs => absurd hs hnew

theorem Routes.rewrite_operation (hr : Routes v) (op' : Operation) (hrow : v.operations operationID = some op)
    (hold : op.state ≠ .succeeded) (hnew : op'.state ≠ .succeeded) :
    Routes { v with operations := update v.operations operationID (some op') } := by
  refine hr.write_operation operationID op' (fun x hx => ?_) hnew
  rw [hrow] at hx
  cases hx
  exact hold

-- Releases that are not active may come and change.
theorem Routes.write_release {id : String} {release : Release} (hr : Routes v)
    (hold : ∀ r, v.releases id = some r → r.state ≠ .active) (hnew : release.state ≠ .active)
    (hnamed : v.deployments id ≠ none) (hkey : release.deploymentID = id) :
    Routes { v with releases := update v.releases id (some release) } where
  named := Every.write (fun k r _ hrow => hr.named k r hrow) hnamed
  keyed := Every.write (fun k r _ hrow => hr.keyed k r hrow) hkey
  activeHead := Every.write (fun k r _ hrow => hr.activeHead k r hrow) fun hs => absurd hs hnew
  headActive env head hrow k hk := by
    refine (hr.headActive env head hrow k hk).write_of_ne ?_
    rintro rfl
    obtain ⟨r, hrel, hactive, -⟩ := hr.headActive env head hrow k hk
    exact hold r hrel hactive
  documented := hr.documented
  succeededOnce := hr.succeededOnce
  hostnames := hr.hostnames

-- A route head whose hostname, revision and active release stay.
theorem Routes.write_head {environmentID : String} {head : RouteHead} (hr : Routes v) (head' : RouteHead)
    (hhead : v.routeHeads environmentID = some head) (hhostname : head'.hostname = head.hostname)
    (hrevision : head'.routeRevision = head.routeRevision) (hactive : head'.activeReleaseID = head.activeReleaseID) :
    Routes { v with routeHeads := update v.routeHeads environmentID (some head') } where
  named := hr.named
  keyed := hr.keyed
  activeHead id r hrow hs := (hr.activeHead id r hrow hs).write hhead fun _ h => hactive.trans h
  headActive := Every.write (fun env h _ hrow => hr.headActive env h hrow) (by
    rw [hactive]
    exact hr.headActive environmentID head hhead)
  documented := Every.write (fun env h _ hrow => hr.documented env h hrow) (by
    rw [hactive]
    intro id hid
    obtain ⟨o, x, hx, hxid, henv, hstate, hrev, hdoc⟩ := hr.documented environmentID head hhead id hid
    exact ⟨o, x, hx, hxid, henv, hstate, hrev.trans hrevision.symm, hhostname ▸ hdoc⟩)
  succeededOnce := hr.succeededOnce
  hostnames := by
    refine Every.write (fun env h _ hrow => ?_) ?_
    · refine Every.write (fun env' h' _ hrow' => hr.hostnames env h hrow env' h' hrow') fun heq => ?_
      exact hr.hostnames env h hrow environmentID head hhead (heq.trans hhostname)
    · refine Every.write (fun env' h' _ hrow' heq => ?_) fun _ => rfl
      exact hr.hostnames environmentID head hhead env' h' hrow' (hhostname ▸ heq)

theorem flagged_hostname {head : RouteHead} : (flagged now head).hostname = head.hostname := by
  unfold flagged
  split <;> rfl

theorem flagged_routeRevision {head : RouteHead} : (flagged now head).routeRevision = head.routeRevision := by
  unfold flagged
  split <;> rfl

theorem flagged_activeReleaseID {head : RouteHead} : (flagged now head).activeReleaseID = head.activeReleaseID := by
  unfold flagged
  split <;> rfl

theorem unflagged_hostname {head : RouteHead} : (unflagged now head).hostname = head.hostname := by
  unfold unflagged
  split <;> rfl

theorem unflagged_routeRevision {head : RouteHead} : (unflagged now head).routeRevision = head.routeRevision := by
  unfold unflagged
  split <;> rfl

theorem unflagged_activeReleaseID {head : RouteHead} :
    (unflagged now head).activeReleaseID = head.activeReleaseID := by
  unfold unflagged
  split <;> rfl

-- An attempt that does not exist yet has no activation.
theorem Routes.freeze {execution : ExecutionSnapshot} {bindings : Nat → Option (List FrozenBinding)}
    {literals : Nat → Option (List FrozenLiteral)} (ha : Activations v) (hr : Routes v)
    (hnone : v.attempts attemptID = none) :
    Routes { v with
      executions := update v.executions attemptID (some execution)
      frozenBindings := bindings
      frozenLiterals := literals } := by
  refine ⟨hr.named, hr.keyed, hr.activeHead, hr.headActive, fun env head hrow id hid => ?_, hr.succeededOnce,
    hr.hostnames⟩
  obtain ⟨o, x, hx, hxid, henv, hstate, hrev, hdoc⟩ := hr.documented env head hrow id hid
  refine ⟨o, x, hx, hxid, henv, hstate, hrev, hdoc.write_of_ne fun heq => ?_⟩
  obtain ⟨attempt, hattempt, -⟩ := ha.ofAttempt o x hx
  rw [heq, hnone] at hattempt
  cases hattempt

-- A route head without an active release may appear or change its hostname.
theorem Routes.write_inactive {environmentID : String} {head' : RouteHead} (hr : Routes v)
    (hold : ∀ h, v.routeHeads environmentID = some h → h.activeReleaseID = none)
    (hnew : head'.activeReleaseID = none)
    (hunique : ∀ id h, v.routeHeads id = some h → id ≠ environmentID → h.hostname ≠ head'.hostname) :
    Routes { v with routeHeads := update v.routeHeads environmentID (some head') } where
  named := hr.named
  keyed := hr.keyed
  activeHead id r hrow hs := by
    refine (hr.activeHead id r hrow hs).write_of_ne fun heq => ?_
    obtain ⟨h, hh, hactive⟩ := hr.activeHead id r hrow hs
    have := hold h (heq ▸ hh)
    simp [this] at hactive
  headActive := Every.write (fun env h _ hrow => hr.headActive env h hrow) (by simp [hnew])
  documented := Every.write (fun env h _ hrow => hr.documented env h hrow) (by simp [hnew])
  succeededOnce := hr.succeededOnce
  hostnames := by
    refine Every.write (fun env h hne hrow => ?_) ?_
    · refine Every.write (fun env' h' _ hrow' => hr.hostnames env h hrow env' h' hrow') fun heq => ?_
      exact absurd heq (hunique env h hrow hne)
    · refine Every.write (fun env' h' hne hrow' heq => ?_) fun _ => rfl
      exact absurd heq.symm (hunique env' h' hrow' hne)

theorem retain_eq_some {releases : String → Option Release} {predecessor : Option String} {id : String}
    {r : Release} : retain now releases predecessor id = some r ↔
      (predecessor = some id ∧ ∃ old, releases id = some old ∧
        r = { old with state := .retained, updatedAt := now }) ∨
      (predecessor ≠ some id ∧ releases id = some r) := by
  by_cases hid : predecessor = some id
  · simp only [retain, hid, if_true, Option.map_eq_some_iff, true_and, ne_eq, not_true_eq_false, false_and, or_false]
    constructor
    · rintro ⟨old, hold, rfl⟩
      exact ⟨old, hold, rfl⟩
    · rintro ⟨old, hold, rfl⟩
      exact ⟨old, hold, rfl⟩
  · simp [retain, hid]

-- The switch: the predecessor is the release that was active, and the document the operation
-- authorized is the one of the head's new revision.
theorem Routes.activate {head : RouteHead} {release : Release} (ha : Activations v) (hr : Routes v) (now : Nat)
    (op' : Operation)
    (hh : Holds v attemptID attempt slot job) (hrow : v.operations operationID = some op)
    (hof : op.attemptID = attemptID) (hopen : unresolvedActivation op.state = true)
    (hid : op.sameIdentity op') (hstate : op'.state = .succeeded)
    (hhead : v.routeHeads attempt.environmentID = some head)
    (hrevision : head.routeRevision = op.expectedRouteRevision)
    (hactive : head.activeReleaseID = op.expectedActiveReleaseID)
    (hrelease : v.releases op.releaseID = some release) (hready : release.state = .ready) :
    Routes { v with
      operations := update v.operations operationID (some op')
      releases := update (retain now v.releases op.expectedActiveReleaseID) op.releaseID
        (some { release with state := .active, updatedAt := now })
      routeHeads := update v.routeHeads attempt.environmentID (some { head with
        activeReleaseID := some op.releaseID
        routeRevision := head.routeRevision + 1
        reconciliationRequired := false
        updatedAt := max head.updatedAt now }) } := by
  have hopAttempt := (ha.ofAttempt _ op hrow).of_row (hof ▸ hh.attemptRow)
  have henvironment : release.environmentID = attempt.environmentID :=
    ((ha.ofRelease _ op hrow).of_row hrelease).environment.trans hopAttempt.environment
  have hofHead := (ha.ofHead _ op hrow).of_row (hopAttempt.environment ▸ hhead)
  have hrel : op'.releaseID = op.releaseID := by rw [hid]
  have henv : op'.environmentID = op.environmentID := by rw [hid]
  -- a release of another environment is neither the candidate nor the predecessor
  have hforeign : ∀ env h, env ≠ attempt.environmentID → v.routeHeads env = some h → ∀ id ∈ h.activeReleaseID,
      id ≠ op.releaseID ∧ op.expectedActiveReleaseID ≠ some id := by
    intro env h hne hrow' id hid'
    obtain ⟨r, hr', hstate', henv'⟩ := hr.headActive env h hrow' id hid'
    refine ⟨?_, fun hpred => hne ?_⟩
    · rintro rfl
      rw [hrelease] at hr'
      cases hr'
      simp [hready] at hstate'
    · have hown := (hr.headActive _ head hhead id (hactive.trans hpred)).of_row hr'
      exact henv'.symm.trans hown.2
  refine ⟨?named, ?keyed, ?activeHead, ?headActive, ?documented, ?succeededOnce, ?hostnames⟩
  case named =>
    refine Every.write (fun id r _ hr' => ?_) (hr.named _ release hrelease)
    rcases retain_eq_some.1 hr' with ⟨-, old, hold, -⟩ | ⟨-, hold⟩
    · exact hr.named id old hold
    · exact hr.named id r hold
  case keyed =>
    refine Every.write (fun id r _ hr' => ?_) (hr.keyed _ release hrelease)
    rcases retain_eq_some.1 hr' with ⟨-, old, hold, rfl⟩ | ⟨-, hold⟩
    · exact hr.keyed id old hold
    · exact hr.keyed id r hold
  case activeHead =>
    refine Every.write (fun id r _ hr' hs => ?_) fun _ => henvironment ▸ At.write_self rfl
    rcases retain_eq_some.1 hr' with ⟨-, old, hold, rfl⟩ | ⟨hpred, hold⟩
    · simp at hs
    · refine (hr.activeHead id r hold hs).write_of_ne fun heq => hpred ?_
      rw [← hactive]
      exact (hr.activeHead id r hold hs).of_row (heq ▸ hhead)
  case headActive =>
    refine Every.write (fun env h hne hrow' id hid' => ?_) fun id hid' => ?_
    · obtain ⟨hne₁, hne₂⟩ := hforeign env h hne hrow' id hid'
      exact (At.retain (hr.headActive env h hrow' id hid') fun hpred => absurd hpred hne₂).write_of_ne hne₁
    · cases hid'
      exact At.write_self ⟨rfl, henvironment⟩
  case documented =>
    refine Every.write (fun env h hne hrow' id hid' => ?_) fun id hid' => ?_
    · obtain ⟨o, x, hx, hxid, hxenv, hxstate, hrest⟩ := hr.documented env h hrow' id hid'
      refine ⟨o, x, (update_of_ne ?_ _ _).trans hx, hxid, hxenv, hxstate, hrest⟩
      rintro rfl
      rw [hrow] at hx
      cases hx
      simp [hxstate] at hopen
    · cases hid'
      refine ⟨operationID, op', by simp, hrel, henv.trans hopAttempt.environment, hstate, ?_, ?_⟩
      · rw [hid]
        exact congrArg (· + 1) hrevision.symm
      · rw [hid]
        exact hofHead.document hopen hrevision.symm
  case succeededOnce =>
    -- nothing else succeeded for a release that was still ready
    have hother : ∀ o x, v.operations o = some x → x.state = .succeeded → x.releaseID ≠ op.releaseID := by
      intro o x hx hs heq
      have hofx := ha.ofRelease o x hx
      rcases (hofx.of_row (heq ▸ hrelease)).live hs with hl | hl <;> simp [hready] at hl
    refine Every.write (fun o x _ hx => ?_) ?_
    · refine Every.write (fun o' x' _ hx' => hr.succeededOnce o x hx o' x' hx') fun hs _ heq => ?_
      exact absurd (heq.trans hrel) (hother o x hx hs)
    · refine Every.write (fun o' x' _ hx' _ hs heq => ?_) fun _ _ _ => rfl
      exact absurd (heq.symm.trans hrel) (hother o' x' hx' hs)
  case hostnames =>
    refine Every.write (fun env h _ hrow' => ?_) ?_
    · refine Every.write (fun env' h' _ hrow'' => hr.hostnames env h hrow' env' h' hrow'') fun heq => ?_
      exact hr.hostnames env h hrow' _ head hhead heq
    · refine Every.write (fun env' h' _ hrow'' heq => ?_) fun _ => rfl
      exact hr.hostnames _ head hhead env' h' hrow'' heq

theorem readied_not_active {image : Digest} {release : Release}
    (h : release.state = .candidate ∨ release.state = .ready) : (readied now image release).state ≠ .active := by
  unfold readied
  split
  · simp
  · rcases h with hs | hs <;> simp [hs]

theorem Routes.effect {kind : Kind} (ha : Activations v) (hr : Routes v) (he : Effect now v kind v') : Routes v' := by
  cases he with
  | openSlot _ => exact hr.congr (fun _ h => h) rfl rfl rfl rfl
  | freeze hnone => exact hr.freeze ha hnone
  | candidate hnone hstate hkey hdeployment _ _ _ =>
      exact hr.write_release (by simp [hnone]) (by simp [hstate]) hdeployment hkey
  | lease _ _ _ _ _ _ _ _ _ _ _ _ _ _ _ => exact hr.congr written_ne_none rfl rfl rfl rfl
  | renew _ _ => exact hr.congr (fun _ h => h) rfl rfl rfl rfl
  | close _ _ _ _ _ _ _ _ _ _ _ _ => exact hr.congr written_ne_none rfl rfl rfl rfl
  | cancel _ _ _ _ _ _ => exact hr.congr written_ne_none rfl rfl rfl rfl
  | mark _ _ _ _ _ _ _ _ _ _ => exact hr.congr (fun _ h => h) rfl rfl rfl rfl
  | progress _ _ _ _ => exact hr.congr written_ne_none rfl rfl rfl rfl
  | @authorize attemptID operationID attempt _ job _ _ head release _ image digest _ _ _ _ _ _ _ hfresh _ _ _ _
      hrelease hready _ _ _ _ _ =>
      have hidle : ∀ r, v.releases job.deploymentID = some r → r.state ≠ .active := by
        intro r hrow hs
        rw [hrelease] at hrow
        cases hrow
        rcases hready with hc | hc <;> simp [hs] at hc
      have hkey : (readied now image release).deploymentID = release.deploymentID := by
        unfold readied
        split <;> rfl
      have hnew : (readied now image release).state ≠ .active := readied_not_active hready
      have h₁ := hr.write_release hidle hnew (hr.named _ _ hrelease)
        (hkey.trans (hr.keyed _ _ hrelease))
      have h₂ := h₁.write_operation operationID (authorizedOperation now attemptID attempt job head image digest)
        (fun x hx => by simp [hfresh] at hx) (by simp [authorizedOperation])
      exact h₂.congr written_ne_none rfl rfl rfl rfl
  | @block _ _ _ _ _ op head summary _ _ hoperation _ hstate hhead _ _ _ =>
      have h₁ := hr.write_head (flagged now head) hhead flagged_hostname flagged_routeRevision flagged_activeReleaseID
      have h₂ := h₁.rewrite_operation { op with
        state := .reconciliationRequired, closedAt := some now, outcomeSummary := summary } hoperation
        (by simp [hstate]) (by simp)
      exact h₂.congr (fun _ h => h) rfl rfl rfl rfl
  | @evidence _ _ _ op summary _ hoperation hstate _ _ _ =>
      have h₁ := hr.rewrite_operation { op with outcomeSummary := summary } hoperation
        (by simp [hstate]) (by simp [hstate])
      exact h₁.congr (fun _ h => h) rfl rfl rfl rfl
  | trace _ _ => exact hr.congr (fun _ h => h) rfl rfl rfl rfl
  | @activate _ _ _ _ _ _ _ op _ _ _ summary _ hholds hoperation hof hstate _ _ hhead hrevision hactive hrelease
      hready _ _ _ _ =>
      have h₁ := Routes.activate ha hr now { op with
          state := .succeeded, closedAt := some (op.closedAt.getD now), outcomeSummary := summary }
        hholds hoperation hof hstate rfl rfl hhead hrevision hactive hrelease hready
      exact h₁.congr written_ne_none rfl rfl rfl rfl
  | @abandon _ _ _ _ _ _ _ op head summary _ _ hoperation _ hstate _ _ hhead _ _ _ =>
      have h₁ := hr.write_head (unflagged now head) hhead unflagged_hostname unflagged_routeRevision
        unflagged_activeReleaseID
      have h₂ := h₁.rewrite_operation { op with
        state := .failed, closedAt := some (op.closedAt.getD now), outcomeSummary := summary } hoperation
        (by simp [hstate]) (by simp)
      exact h₂.congr written_ne_none rfl rfl rfl rfl
  | clear _ _ _ _ _ => exact hr.congr (fun _ h => h) rfl rfl rfl rfl
  | createHead hnone hunique => exact hr.write_inactive (by simp [hnone]) rfl fun id h hrow _ => hunique id h hrow
  | rename hhead hinactive hunique _ _ =>
      refine hr.write_inactive (fun h hrow => ?_) hinactive hunique
      rw [hhead] at hrow
      cases hrow
      exact hinactive

end

end AutoDeploy.Protocol
