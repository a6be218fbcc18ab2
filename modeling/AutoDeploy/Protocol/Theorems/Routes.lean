import AutoDeploy.Protocol.Theorems.Leases

namespace AutoDeploy.Protocol

open Lib Lib.Result Queue Store Deployment

-- A release of the environment that is live.
def ActiveRelease (db : DB) (environmentID releaseID : String) : Prop :=
  ∃ release, db.releases.get? releaseID = some release ∧ release.environmentID = environmentID ∧ release.state = .active

-- An activation of the release that went through.
def SucceededActivation (db : DB) (releaseID : String) (operationID : Nat) (op : Operation) : Prop :=
  db.operations.get? operationID = some op ∧ op.releaseID = releaseID ∧ op.state = .succeeded

-- The stored digest of an activation is that of the rendered document.
def Digests (op : Operation) (route : Traefik.EnvironmentRoute) : Prop :=
  ∃ doc, Traefik.render route = .ok (doc, Traefik.digestText op.routeDigest)

section

variable {db db' : DB} {now : Nat}

-- What is stored is the digest of the document, and its text reads back as it.
theorem renderRouteDigest_eq_ok {route : Traefik.EnvironmentRoute} {text : String} {digest : Digest}
    (h : renderRouteDigest route = .ok (text, digest)) :
    text = Traefik.digestText digest ∧ ∃ doc, Traefik.render route = .ok (doc, text) := by
  obtain ⟨⟨doc, text'⟩, hrender, h⟩ := bind_eq_ok.1 h
  obtain ⟨digest', hdecode, h⟩ := bind_eq_ok.1 h
  cases h
  have hrender : Traefik.render route = .ok (doc, text) := mapError_eq_ok.1 hrender
  have htext : text = Traefik.digest doc := by
    obtain ⟨_, -, hrender⟩ := bind_eq_ok.1 hrender
    obtain ⟨_, -, hrender⟩ := bind_eq_ok.1 hrender
    obtain ⟨_, -, hrender⟩ := bind_eq_ok.1 hrender
    cases hrender
    rfl
  have hdecode : Traefik.decodeDigest text = some digest := found_eq_ok.1 hdecode
  rw [htext, Traefik.digest, Traefik.decodeDigest_digestText] at hdecode
  cases hdecode
  exact ⟨htext, doc, hrender⟩

theorem Authorizes.digests {executions : Nat → Option ExecutionSnapshot} {op : Operation} {hostname : String}
    (h : Authorizes executions op hostname) :
    ∃ execution, executions op.attemptID = some execution ∧
      Digests op (activationRoute op.environmentID hostname (op.expectedRouteRevision + 1) op.attemptID op.fence
        op.releaseID execution) := by
  obtain ⟨execution, hexecution, text, hrender⟩ := h
  obtain ⟨rfl, hdoc⟩ := renderRouteDigest_eq_ok hrender
  exact ⟨execution, hexecution, hdoc⟩

-- What the database says is live is the one active release, and the document that was authorized for it.
theorem live_route_is_authorized (h : leaseSystem.Reachable db) (environmentID releaseID : String) :
    ((∃ head, db.routeHeads.get? environmentID = some head ∧ head.activeReleaseID = some releaseID) ↔
      ActiveRelease db environmentID releaseID ∧
        ∀ other, ActiveRelease db environmentID other → other = releaseID) ∧
    ∀ head, db.routeHeads.get? environmentID = some head → head.activeReleaseID = some releaseID →
      ∃ operationID op execution, SucceededActivation db releaseID operationID op ∧
        (∀ other op', SucceededActivation db releaseID other op' → other = operationID) ∧
        op.expectedRouteRevision + 1 = head.routeRevision ∧
        db.executions.get? op.attemptID = some execution ∧
        Digests op (activationRoute environmentID head.hostname head.routeRevision op.attemptID op.fence releaseID
          execution) := by
  have hroutes := (sound_of_reachable h).inv.routes
  refine ⟨⟨?_, ?_⟩, fun head hhead hactive => ?_⟩
  · rintro ⟨head, hhead, hactive⟩
    obtain ⟨release, hrelease, hstate, henv⟩ := hroutes.headActive environmentID head hhead releaseID hactive
    refine ⟨⟨release, hrelease, henv, hstate⟩, ?_⟩
    rintro other ⟨release', hrelease', rfl, hstate'⟩
    have hother := (hroutes.activeHead other release' hrelease' hstate').of_row hhead
    rw [hactive] at hother
    exact (Option.some.inj hother).symm
  · rintro ⟨⟨release, hrelease, rfl, hstate⟩, -⟩
    exact hroutes.activeHead releaseID release hrelease hstate
  · obtain ⟨operationID, op, hrow, rfl, rfl, hstate, hrevision, hauthorizes⟩ :=
      hroutes.documented environmentID head hhead releaseID hactive
    obtain ⟨execution, hexecution, hdigests⟩ := hauthorizes.digests
    rw [hrevision] at hdigests
    refine ⟨operationID, op, execution, ⟨hrow, rfl, hstate⟩, ?_, hrevision, hexecution, hdigests⟩
    rintro other op' ⟨hrow', hrelease', hstate'⟩
    exact hroutes.succeededOnce other op' hrow' operationID op hrow hstate' hstate hrelease'

-- The activation of the sample, reported as observed.
def sampleRouteDigest : Digest := ((sampleAuthorized.operations.get? 1).map fun op => op.routeDigest).getD sampleToken

def sampleActivated : DB :=
  exec 7000 sampleAuthorized (.report .none ⟨"srv", sampleToken, 1, 1, "1", true, sampleRouteDigest, []⟩)

theorem live_route_is_authorized_sample :
    ∃ head op execution, sampleActivated.routeHeads.get? "env" = some head ∧ head.activeReleaseID = some "dep" ∧
      head.routeRevision = 1 ∧ SucceededActivation sampleActivated "dep" 1 op ∧
      Digests op (activationRoute "env" "app.example" 1 op.attemptID op.fence "dep" execution) := by
  have hstored : ((sampleActivated.routeHeads.get? "env").map fun head =>
        (head.activeReleaseID, head.routeRevision, head.hostname)) = some (some "dep", 1, "app.example") ∧
      ∀ row ∈ sampleActivated.operations.rows, row.1 = 1 := by
    rw [sampleActivated, sampleRouteDigest, sampleAuthorized_eq]
    decide +kernel
  obtain ⟨hhead, honly⟩ := hstored
  obtain ⟨head, hrow, hfields⟩ := Option.map_eq_some_iff.1 hhead
  simp only [Prod.mk.injEq] at hfields
  obtain ⟨hactive, hrevision, hhostname⟩ := hfields
  obtain ⟨operationID, op, execution, hsucceeded, -, -, -, hdigests⟩ :=
    (live_route_is_authorized (reachable_exec sampleAuthorized_reachable 7000 trivial) "env" "dep").2 head hrow hactive
  have hone : operationID = 1 := honly (operationID, op) ((Table.mem_rows_iff _ _ _).2 hsucceeded.1)
  subst hone
  rw [hhostname, hrevision] at hdigests
  exact ⟨head, op, execution, hrow, hactive, hrevision, hsucceeded, hdigests⟩

end

end AutoDeploy.Protocol
