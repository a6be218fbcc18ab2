import AutoDeploy.Protocol.Theorems.Routes

namespace AutoDeploy.Protocol

open Function Lib Lib.Result Queue Store Deployment

-- The route an agent renders from an activation's answer and what its lease carries.
def responseRoute (attempt : Attempt) (job : Job) (execution : ExecutionSnapshot) (result : ActivationResult) :
    Traefik.EnvironmentRoute :=
  { environmentID := attempt.environmentID
    routeRevision := result.routeRevision
    hostname := result.hostname
    entrypointName := result.entrypointName
    certResolverName := result.certResolverName
    backendRuntimeInstanceID := result.backendRuntimeInstanceID
    backendPort := execution.containerPort
    backendScheme := execution.containerScheme
    releaseID := job.deploymentID
    fenceID := toString attempt.fence }

def renderedDigest (db : DB) (attemptID : Nat) (result : ActivationResult) : Option String := do
  let attempt ← db.attempts.get? attemptID
  let job ← db.jobs.get? attempt.jobID
  let execution ← db.executions.get? attemptID
  match Traefik.render (responseRoute attempt job execution result) with
  | .ok (_, digest) => some digest
  | .error _ => none

-- Every open authorization still fits the hostname of its route head.
def Faithful (v : View) : Prop :=
  Every v.operations fun _ op => op.state = .switchAuthorized →
    At v.routeHeads op.environmentID fun head => Authorizes v.executions op head.hostname

-- A hostname that changes under an open authorization.
def Redirects (now : Nat) (db : DB) : Txn → Prop
  | .assignRouteHostname p environmentID hostname expectedRevision =>
      (∃ head head', db.routeHeads.get? environmentID = some head ∧
        (exec now db (.assignRouteHostname p environmentID hostname expectedRevision)).routeHeads.get? environmentID =
          some head' ∧ head'.hostname ≠ head.hostname) ∧
      ∃ operationID op, db.operations.get? operationID = some op ∧ op.environmentID = environmentID ∧
        op.state = .switchAuthorized
  | _ => False

section

variable {now : Nat} {v v' : View} {kind : Kind} {db db' : DB}

-- An operation that is no longer open, and a route head that keeps its hostname.
theorem Faithful.settle {operationID : Nat} {op : Operation} {environmentID : String} {head head' : RouteHead}
    (h : Faithful v) (hstate : op.state ≠ .switchAuthorized) (hhead : v.routeHeads environmentID = some head)
    (hhostname : head'.hostname = head.hostname) :
    Faithful { v with
      operations := update v.operations operationID (some op)
      routeHeads := update v.routeHeads environmentID (some head') } := by
  refine Every.write (fun id x _ hrow hopen => ?_) fun hopen => absurd hopen hstate
  exact (h id x hrow hopen).write hhead fun _ hauthorizes => hhostname ▸ hauthorizes

theorem Faithful.effect (h : Faithful v) (ha : Activations v) (he : Effect now v kind v') (hkind : kind ≠ .renames) :
    Faithful v' := by
  cases he with
  | openSlot _ => exact h
  | freeze hnone =>
      intro id op hrow hopen
      obtain ⟨attempt, hattempt, -⟩ := ha.ofAttempt id op hrow
      refine (h id op hrow hopen).imp fun head hauthorizes => hauthorizes.write_of_ne ?_
      rintro rfl
      rw [hnone] at hattempt
      cases hattempt
  | candidate _ _ _ _ _ _ _ => exact h
  | lease _ _ _ _ _ _ _ _ _ _ _ _ _ _ _ => exact h
  | renew _ _ => exact h
  | close _ _ _ _ _ _ _ _ _ _ _ _ => exact h
  | cancel _ _ _ _ _ _ => exact h
  | mark _ _ _ _ _ _ _ _ _ _ => exact h
  | progress _ _ _ _ => exact h
  | authorize _ _ _ _ _ _ _ _ hhead _ _ _ _ hexecution hrender _ _ =>
      -- the new digest is that of the document for the hostname read with it
      exact Every.write (fun id op _ hrow => h id op hrow) fun _ => .intro hhead (.intro hexecution ⟨_, hrender⟩)
  | block _ _ _ _ hhead _ _ _ => exact h.settle (by simp) hhead flagged_hostname
  | evidence hoperation hstate _ _ _ =>
      exact Every.write (fun id op _ hrow => h id op hrow) fun hopen => by simp [hstate] at hopen
  | trace _ _ => exact h
  | activate _ _ _ _ _ _ hhead _ _ _ _ _ _ _ _ => exact h.settle (by simp) hhead rfl
  | abandon _ _ _ _ _ _ hhead _ _ _ => exact h.settle (by simp) hhead unflagged_hostname
  | clear _ _ _ _ _ => exact h
  | createHead hnone _ => exact fun id op hrow hopen => (h id op hrow hopen).insert hnone
  | rename _ _ _ _ _ => exact absurd rfl hkind

theorem Faithful.exec {txn : Txn} (hsound : Sound db) (h : Faithful (view db)) (htxn : ¬ Redirects now db txn) :
    Faithful (view (exec now db txn)) := by
  by_cases hrenaming : Renaming txn
  · cases txn with
    | assignRouteHostname p environmentID hostname expectedRevision =>
        obtain hplain | ⟨head, hhead, -, hview, -⟩ := assignRouteHostname_cases hsound.inv
          (Prod.mk.eta.symm : assignRouteHostname now db p environmentID hostname expectedRevision = _)
        · refine (hplain.preserves hsound.inv h fun v v' kind hother hinv h he => ?_).2
          exact h.effect hinv.activations he (by rw [show kind = .other from hother]; simp)
        · have hview : view (Protocol.exec now db (.assignRouteHostname p environmentID hostname expectedRevision)) = _ :=
            hview
          have hrow := congrFun (congrArg View.routeHeads hview) environmentID
          rw [hview]
          intro id op hop hopen
          by_cases henv : op.environmentID = environmentID
          · have hsame : normalizeRouteHostname hostname = head.hostname := by
              by_contra hne
              exact htxn ⟨⟨head, _, hhead, hrow.trans (update_self _ _ _), hne⟩, id, op, hop, henv, hopen⟩
            refine (h id op hop hopen).write hhead fun _ hauthorizes => ?_
            rw [← hsame] at hauthorizes
            exact hauthorizes
          · exact (h id op hop hopen).write_of_ne henv
    | _ => exact hrenaming.elim
  · refine hsound.exec_preserves h fun v v' kind hpermits hinv h he => h.effect hinv.activations he ?_
    rintro rfl
    exact hrenaming (hpermits.2 rfl)

theorem faithful_of_reachable (h : (leaseWhere fun now db txn => ¬ Redirects now db txn).Reachable db) :
    Faithful (view db) := by
  refine (h.invariant (P := fun db => Sound db ∧ Faithful (view db)) (fun db hinit => ?_) ?_).2
  · have hinit : Initial db := hinit
    exact ⟨⟨hinit.inv, hinit.reconciliations⟩, fun id op hrow => by cases (hinit.operations id).symm.trans hrow⟩
  · rintro db db' ⟨hsound, hfaithful⟩ ⟨now, txn, htxn, rfl⟩
    exact ⟨hsound.exec now txn, hfaithful.exec hsound htxn⟩

theorem renderedDigest_of_render {attemptID operationID routeRevision : Nat} {attempt : Attempt} {job : Job}
    {execution : ExecutionSnapshot} {hostname text : String} {doc : Bytes}
    (hattempt : db.attempts.get? attemptID = some attempt) (hjob : db.jobs.get? attempt.jobID = some job)
    (hexecution : db.executions.get? attemptID = some execution)
    (hrender : Traefik.render (activationRoute attempt.environmentID hostname routeRevision attemptID attempt.fence
      job.deploymentID execution) = .ok (doc, text)) :
    renderedDigest db attemptID (activationResult operationID routeRevision attemptID hostname text) = some text := by
  have hroute : responseRoute attempt job execution
      (activationResult operationID routeRevision attemptID hostname text) =
      activationRoute attempt.environmentID hostname routeRevision attemptID attempt.fence job.deploymentID
        execution := rfl
  simp only [renderedDigest, hattempt, hjob, hexecution, Option.bind_eq_bind, Option.bind_some, hroute, hrender]

-- In runs that never change the hostname under an open authorization, every answer of an activation
-- carries the digest of the route it describes.
theorem activate_response_consistent (h : (leaseWhere fun now db txn => ¬ Redirects now db txn).Reachable db)
    {serverID : String} {presented imageDigest : Digest} {attemptID fence : Nat} {result : ActivationResult}
    (hcall : activate now db serverID presented attemptID fence imageDigest = .ok (db', result)) :
    renderedDigest db attemptID result = some result.routeDigest := by
  have hinv := (sound_of_reachable h).inv
  obtain ⟨attempt, slot, job, hholds, -, rfl, hcases⟩ := activate_cases hinv hcall
  obtain ⟨-, operationID, op, head, hopen, hstate, hhead, rfl⟩ |
    ⟨-, head, execution, operationID, text, digest, hhead, hexecution, hrender, rfl⟩ := hcases
  · -- a replay: the stored digest is still that of the document for this hostname
    have hof := (hinv.activations.ofAttempt operationID op hopen.operationRow).of_row
      (hopen.ofAttempt ▸ hholds.attemptRow)
    have hjob := (hinv.activations.ofJob operationID op hopen.operationRow).of_row (hof.job ▸ hholds.jobRow)
    have hauthorizes := (faithful_of_reachable h operationID op hopen.operationRow hstate).of_row
      (hof.environment ▸ hhead)
    obtain ⟨execution, hexecution, doc, hrender⟩ := hauthorizes.digests
    rw [hof.environment, hof.fence, hjob.release, hopen.ofAttempt] at hrender
    rw [hopen.ofAttempt] at hexecution
    exact renderedDigest_of_render hholds.attemptRow hholds.jobRow hexecution hrender
  · obtain ⟨rfl, doc, hrender⟩ := renderRouteDigest_eq_ok hrender
    exact renderedDigest_of_render hholds.attemptRow hholds.jobRow hexecution hrender

theorem activate_response_consistent_sample :
    ∃ db' result, activate 7000 sampleAuthorized "srv" sampleToken 1 1 sampleToken = .ok (db', result) ∧
      renderedDigest sampleAuthorized 1 result = some result.routeDigest := by
  have hreplays : ((activate 7000 sampleAuthorized "srv" sampleToken 1 1 sampleToken).toOption.any fun _ => true) = true := by
    rw [sampleAuthorized_eq]
    decide +kernel
  obtain ⟨answer, hcall, -⟩ := ok_of_any hreplays
  refine ⟨answer.1, answer.2, hcall, activate_response_consistent (reachable_execAll (sampleDB_reachable _) ?_) hcall⟩
  simp [Redirects]

-- The environment of the authorized activation is given another hostname, and the activation is asked for again.
def sampleRedirected : DB :=
  exec 7000 sampleAuthorized (.assignRouteHostname samplePrincipal "env" "moved.example" (some 0))

theorem activate_response_redirected :
    leaseSystem.Reachable sampleRedirected ∧
    ∃ db' result, activate 8000 sampleRedirected "srv" sampleToken 1 1 sampleToken = .ok (db', result) ∧
      result.hostname = "moved.example" ∧ renderedDigest sampleRedirected 1 result ≠ some result.routeDigest := by
  refine ⟨reachable_exec sampleAuthorized_reachable 7000 trivial, ?_⟩
  have hanswer : ((activate 8000 sampleRedirected "srv" sampleToken 1 1 sampleToken).toOption.any fun answer =>
      answer.2.hostname == "moved.example" &&
        renderedDigest sampleRedirected 1 answer.2 != some answer.2.routeDigest) = true := by
    rw [sampleRedirected, sampleAuthorized_eq]
    decide +kernel
  obtain ⟨answer, hcall, hchecked⟩ := ok_of_any hanswer
  simp only [Bool.and_eq_true, beq_iff_eq, bne_iff_ne] at hchecked
  exact ⟨answer.1, answer.2, hcall, hchecked⟩

end

end AutoDeploy.Protocol
