import AutoDeploy.Traefik

namespace AutoDeploy.Traefik

open Lib Lib.Result

inductive ErrorClass where
  | unknown
  | transient
  | configuration
  | malformed
deriving DecidableEq, Repr

inductive VerifyError where
  | invalid (cause : RouteError)
  | observation (cls : ErrorClass) (op : String)
  | routerNotLoaded
  | serviceNotLoaded
  | configRejected (router service : List String)
  | ruleMismatch (got want : String)
  | tlsMismatch (got want : String)
  | wrongBackend (got : List String) (want : String)
deriving DecidableEq, Repr

structure RouterAPIResponse where
  rule : String
  service : String
  status : String
  error : List String
  -- the `tls` object, if there is one: its certificate resolver
  tls : Option String
deriving DecidableEq, Repr

structure ServiceAPIResponse where
  status : String
  error : List String
  -- the `loadBalancer` object, if there is one: the URLs of its servers
  loadBalancer : Option (List String)
deriving DecidableEq, Repr

-- What one request to the observation API ends in. Of a body that was read in full only what it decodes to is kept:
-- nothing, where it is not of the expected shape.
inductive Answer (α : Type) where
  | unsendable
  | unreachable
  | redirected
  | unread
  | oversized
  | reply (status : Nat) (body : Option α)
deriving DecidableEq, Repr

-- The API, by the name that is asked for.
structure API where
  routers : String → Answer RouterAPIResponse
  services : String → Answer ServiceAPIResponse

def get {α : Type} (op : String) : Answer α → Except VerifyError (Nat × Option α)
  | .unsendable => .error (.observation .configuration op)
  | .unreachable => .error (.observation .transient op)
  | .redirected => .error (.observation .malformed op)
  | .unread => .error (.observation .transient op)
  | .oversized => .error (.observation .malformed op)
  | .reply status body => .ok (status, body)

-- Both observations: nothing is loaded under a name that is not found, any other refusal is transient.
def observe {α : Type} (op : String) (answer : Answer α) : Except VerifyError (Option α) := do
  let (status, body) ← get op answer
  if status = 404 then pure none
  else do
    require (200 ≤ status ∧ status < 300) (.observation .transient op)
    let decoded ← found body (.observation .malformed op)
    pure (some decoded)

structure RouterObservation where
  rule : String
  service : String
  tlsCertResolver : String
  configErrors : List String
deriving DecidableEq, Repr

structure ServiceObservation where
  backendURLs : List String
  configErrors : List String
deriving DecidableEq, Repr

-- An observation that is not loaded is `none`.
def observeRouter (api : API) (routerName : String) : Except VerifyError (Option RouterObservation) := do
  let answer ← observe "observe-router" (api.routers (routerName ++ "@file"))
  pure (answer.map fun decoded =>
    { rule := decoded.rule
      service := decoded.service
      tlsCertResolver := decoded.tls.getD ""
      configErrors := decoded.error })

def observeService (api : API) (svcName : String) : Except VerifyError (Option ServiceObservation) := do
  let answer ← observe "observe-service" (api.services (svcName ++ "@file"))
  pure (answer.map fun decoded =>
    { backendURLs := decoded.loadBalancer.getD []
      configErrors := decoded.error })

def containsExact (values : List String) (want : String) : Bool := values.any fun v => v == want

def verify (api : API) (r : EnvironmentRoute) : Except VerifyError (RouterObservation × ServiceObservation) := do
  r.validate.mapError .invalid
  let expectedBackend ← (backendServerURL r).mapError .invalid
  let expectedRule := ruleValue r.hostname
  let routerObs ← observeRouter api (routerName r)
  let svcObs ← observeService api (serviceName r)
  let router ← found routerObs .routerNotLoaded
  let service ← found svcObs .serviceNotLoaded
  require (router.configErrors = [] ∧ service.configErrors = [])
    (.configRejected router.configErrors service.configErrors)
  require (router.rule = expectedRule) (.ruleMismatch router.rule expectedRule)
  require (¬ (router.tlsCertResolver = "" ∨ router.tlsCertResolver ≠ r.certResolverName))
    (.tlsMismatch router.tlsCertResolver r.certResolverName)
  require (containsExact service.backendURLs expectedBackend) (.wrongBackend service.backendURLs expectedBackend)
  pure (router, service)

-- The answer shows an object.
def Answer.Loads {α : Type} (answer : Answer α) (decoded : α) : Prop :=
  ∃ status, answer = .reply status (some decoded) ∧ 200 ≤ status ∧ status < 300

def RouterAPIResponse.observed (decoded : RouterAPIResponse) : RouterObservation :=
  { rule := decoded.rule
    service := decoded.service
    tlsCertResolver := decoded.tls.getD ""
    configErrors := decoded.error }

def ServiceAPIResponse.backendURLs (decoded : ServiceAPIResponse) : List String := decoded.loadBalancer.getD []

theorem observe_loaded {α : Type} {op : String} {answer : Answer α} {decoded : α} :
    observe op answer = .ok (some decoded) ↔ answer.Loads decoded := by
  unfold observe Answer.Loads
  cases answer with
  | reply status body =>
      simp only [get, ok_bind, Answer.reply.injEq]
      by_cases hmissing : status = 404
      · simp only [hmissing, if_true, pure_eq_ok]
        constructor
        · intro h
          exact absurd h (by simp)
        · rintro ⟨_, ⟨rfl, -⟩, -, hlt⟩
          omega
      · simp only [hmissing, if_false, bind_eq_ok, require_eq_ok, found_eq_ok, pure_eq_ok, exists_const, Option.some.injEq]
        constructor
        · rintro ⟨hstatus, a, hbody, rfl⟩
          exact ⟨status, ⟨rfl, hbody⟩, hstatus⟩
        · rintro ⟨_, ⟨rfl, hbody⟩, hstatus⟩
          exact ⟨hstatus, decoded, hbody, rfl⟩
  | unsendable => simp [get]
  | unreachable => simp [get]
  | redirected => simp [get]
  | unread => simp [get]
  | oversized => simp [get]

-- What `verify` looks at.
structure Accepts (r : EnvironmentRoute) (router : RouterAPIResponse) (service : ServiceAPIResponse) : Prop where
  routerErrors : router.error = []
  serviceErrors : service.error = []
  rule : router.rule = ruleValue r.hostname
  resolver : router.tls = some r.certResolverName
  backend : ∃ url ∈ service.backendURLs, backendServerURL r = .ok url

theorem observeRouter_eq_ok {api : API} {name : String} {router : RouterObservation} :
    observeRouter api name = .ok (some router) ↔
      ∃ decoded, (api.routers (name ++ "@file")).Loads decoded ∧ decoded.observed = router := by
  simp only [observeRouter, bind_eq_ok, pure_eq_ok, Option.map_eq_some_iff]
  constructor
  · rintro ⟨answer, hanswer, decoded, rfl, hobserved⟩
    exact ⟨decoded, observe_loaded.1 hanswer, hobserved⟩
  · rintro ⟨decoded, hloads, hobserved⟩
    exact ⟨some decoded, observe_loaded.2 hloads, decoded, rfl, hobserved⟩

theorem observeService_eq_ok {api : API} {name : String} {service : ServiceObservation} :
    observeService api name = .ok (some service) ↔
      ∃ decoded, (api.services (name ++ "@file")).Loads decoded ∧ ⟨decoded.backendURLs, decoded.error⟩ = service := by
  simp only [observeService, bind_eq_ok, pure_eq_ok, Option.map_eq_some_iff]
  constructor
  · rintro ⟨answer, hanswer, decoded, rfl, hobserved⟩
    exact ⟨decoded, observe_loaded.1 hanswer, hobserved⟩
  · rintro ⟨decoded, hloads, hobserved⟩
    exact ⟨some decoded, observe_loaded.2 hloads, decoded, rfl, hobserved⟩

theorem certResolverName_ne {r : EnvironmentRoute} (h : r.validate = .ok ()) : r.certResolverName ≠ "" := by
  simp only [EnvironmentRoute.validate, bind_eq_ok, require_eq_ok, exists_const] at h
  obtain ⟨-, -, -, hresolver, -⟩ := h
  intro hempty
  rw [hempty] at hresolver
  exact absurd hresolver (by decide)

-- A route is verified when both objects are loaded and pass these checks.
theorem verify_succeeds_iff {api : API} {r : EnvironmentRoute} (h : r.validate = .ok ()) :
    (∃ result, verify api r = .ok result) ↔
      ∃ router service, (api.routers (routerName r ++ "@file")).Loads router ∧
        (api.services (serviceName r ++ "@file")).Loads service ∧ Accepts r router service := by
  have hresolver := certResolverName_ne h
  constructor
  · rintro ⟨result, hverify⟩
    simp only [verify, bind_eq_ok, mapError_eq_ok, found_eq_ok, require_eq_ok, pure_eq_ok, exists_const] at hverify
    obtain ⟨-, -, url, hurl, routerObs, hrouter, svcObs, hservice, router, rfl, service, rfl, hclean, hrule, htls, hcontains,
      -⟩ := hverify
    obtain ⟨router, hloads, rfl⟩ := observeRouter_eq_ok.1 hrouter
    obtain ⟨service, hloads', rfl⟩ := observeService_eq_ok.1 hservice
    refine ⟨router, service, hloads, hloads', hclean.1, hclean.2, hrule, ?_, url, ?_, hurl⟩
    · have hgot : router.tls.getD "" = r.certResolverName := by
        by_contra hne
        exact htls (.inr hne)
      cases hcase : router.tls with
      | none =>
          rw [hcase] at hgot
          exact absurd hgot.symm hresolver
      | some resolver =>
          rw [hcase] at hgot
          exact congrArg some hgot
    · simpa [containsExact] using hcontains
  · rintro ⟨router, service, hloads, hloads', haccepts⟩
    obtain ⟨url, hmem, hurl⟩ := haccepts.backend
    have hgot : router.observed.tlsCertResolver = r.certResolverName := by
      simp [RouterAPIResponse.observed, haccepts.resolver]
    refine ⟨(router.observed, ⟨service.backendURLs, service.error⟩), ?_⟩
    simp only [verify, bind_eq_ok, mapError_eq_ok, found_eq_ok, require_eq_ok, pure_eq_ok, exists_const]
    refine ⟨(), h, url, hurl, _, observeRouter_eq_ok.2 ⟨router, hloads, rfl⟩, _,
      observeService_eq_ok.2 ⟨service, hloads', rfl⟩, _, rfl, _, rfl, ⟨haccepts.routerErrors, haccepts.serviceErrors⟩,
      haccepts.rule, ?_, ?_, rfl⟩
    · rw [hgot]
      simp [hresolver]
    · simpa [containsExact] using hmem

-- The router sends its traffic to the service that is named for this route; the API may name the provider too.
def RoutesTo (r : EnvironmentRoute) (router : RouterAPIResponse) : Prop :=
  router.service = serviceName r ∨ router.service = serviceName r ++ "@file"

-- What activation authorized.
structure Authorized (r : EnvironmentRoute) (router : RouterAPIResponse) (service : ServiceAPIResponse) : Prop where
  noErrors : router.error = []
  enabled : router.status ≠ "disabled"
  rule : router.rule = ruleValue r.hostname
  resolver : router.tls = some r.certResolverName
  routes : RoutesTo r router
  backend : ∃ url, backendServerURL r = .ok url ∧ ∀ other, other ∈ service.backendURLs ↔ other = url

-- What `verify` does not look at: the status, the router's service and any further backend.
def Unnoticed (r : EnvironmentRoute) (router : RouterAPIResponse) (service : ServiceAPIResponse) : Prop :=
  router.status = "disabled" ∨ ¬ RoutesTo r router ∨ ∃ url ∈ service.backendURLs, backendServerURL r ≠ .ok url

theorem Accepts.authorized_iff {r : EnvironmentRoute} {router : RouterAPIResponse} {service : ServiceAPIResponse}
    (h : Accepts r router service) : Authorized r router service ↔ ¬ Unnoticed r router service := by
  obtain ⟨url, hmem, hurl⟩ := h.backend
  constructor
  · rintro ⟨-, henabled, -, -, hservice, url', hurl', hbackends⟩ hunnoticed
    rcases hunnoticed with hdisabled | helsewhere | ⟨other, hother, hne⟩
    · exact henabled hdisabled
    · exact helsewhere hservice
    · exact hne (((hbackends other).1 hother).symm ▸ hurl')
  · intro hnoticed
    refine ⟨h.routerErrors, fun hdisabled => hnoticed (.inl hdisabled), h.rule, h.resolver, ?_, url, hurl, ?_⟩
    · by_contra helsewhere
      exact hnoticed (.inr (.inl helsewhere))
    · intro other
      constructor
      · intro hother
        by_contra hne
        refine hnoticed (.inr (.inr ⟨other, hother, fun hsame => hne ?_⟩))
        rw [hurl, Except.ok.injEq] at hsame
        exact hsame.symm
      · rintro rfl
        exact hmem

theorem Answer.Loads.unique {α : Type} {answer : Answer α} {a b : α} (ha : answer.Loads a) (hb : answer.Loads b) :
    a = b := by
  obtain ⟨status, rfl, -⟩ := ha
  obtain ⟨status', hreply, -⟩ := hb
  rw [Answer.reply.injEq] at hreply
  exact Option.some.inj hreply.2

def VerifiesAuthorized (api : API) (r : EnvironmentRoute) : Prop :=
  ∀ result, verify api r = .ok result →
    ∃ router service, (api.routers (routerName r ++ "@file")).Loads router ∧
      (api.services (serviceName r ++ "@file")).Loads service ∧ Authorized r router service

theorem verified_authorized_iff (api : API) (r : EnvironmentRoute) (h : r.validate = .ok ()) :
    VerifiesAuthorized api r ↔
      ∀ router service, (api.routers (routerName r ++ "@file")).Loads router →
        (api.services (serviceName r ++ "@file")).Loads service → Accepts r router service →
          ¬ Unnoticed r router service := by
  constructor
  · intro hsound router service hloads hloads' haccepts
    obtain ⟨result, hverify⟩ := (verify_succeeds_iff h).2 ⟨router, service, hloads, hloads', haccepts⟩
    obtain ⟨router', service', hrouter, hservice, hauthorized⟩ := hsound result hverify
    rw [hrouter.unique hloads, hservice.unique hloads'] at hauthorized
    exact haccepts.authorized_iff.1 hauthorized
  · intro hnoticed result hverify
    obtain ⟨router, service, hloads, hloads', haccepts⟩ := (verify_succeeds_iff h).1 ⟨result, hverify⟩
    exact ⟨router, service, hloads, hloads', haccepts.authorized_iff.2 (hnoticed router service hloads hloads' haccepts)⟩

def checkedRoute : EnvironmentRoute where
  environmentID := "env1"
  routeRevision := 3
  hostname := "app.example.com"
  entrypointName := defaultEntrypointName
  certResolverName := defaultCertResolverName
  backendRuntimeInstanceID := "7"
  backendPort := 8080
  backendScheme := .http
  releaseID := "rel1"
  fenceID := "9"

-- The API as it is after an activation, but for the router's status and service and for further backends.
def loadedAPI (status service : String) (others : List String) : API where
  routers _ := .reply 200 (some ⟨"Host(`app.example.com`)", service, status, [], some "letsencrypt-production"⟩)
  services _ := .reply 200 (some ⟨"enabled", [], some ("http://autodeploy-rt-7:8080" :: others)⟩)

theorem verified_authorized_iff_loaded :
    VerifiesAuthorized (loadedAPI "enabled" "autodeploy-svc-env1-rel1-9@file" []) checkedRoute := by
  refine (verified_authorized_iff _ _ (by decide +kernel)).2 ?_
  intro router service hrouter hservice haccepts
  obtain rfl := hrouter.unique ⟨200, rfl, by decide, by decide⟩
  obtain rfl := hservice.unique ⟨200, rfl, by decide, by decide⟩
  rintro (hdisabled | helsewhere | ⟨url, hurl, hne⟩)
  · exact absurd hdisabled (by decide)
  · exact helsewhere (.inr (by decide))
  · obtain rfl := List.mem_singleton.1 hurl
    exact hne (by decide +kernel)

-- A disabled router that sends its traffic to the service of another release, next to a second backend.
theorem disabled_router_verified :
    ¬ ∀ (api : API) (r : EnvironmentRoute), r.validate = .ok () → VerifiesAuthorized api r := by
  intro hall
  have hverify : (verify (loadedAPI "disabled" "autodeploy-svc-env1-rel0-8@file" ["http://other:80"]) checkedRoute).isOk =
      true := by decide +kernel
  cases hresult : verify (loadedAPI "disabled" "autodeploy-svc-env1-rel0-8@file" ["http://other:80"]) checkedRoute with
  | error e =>
      rw [hresult] at hverify
      cases hverify
  | ok result =>
      obtain ⟨router, service, hrouter, -, hauthorized⟩ := hall _ checkedRoute (by decide +kernel) result hresult
      obtain rfl := hrouter.unique ⟨200, rfl, by decide, by decide⟩
      exact hauthorized.enabled rfl

end AutoDeploy.Traefik
