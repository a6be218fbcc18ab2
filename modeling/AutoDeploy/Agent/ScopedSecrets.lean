import AutoDeploy.Docker.Build

namespace AutoDeploy.Executor

open Lib Lib.Result Docker

structure MaterializedSecret where
  variableName : String
  deliveryScope : String
  value : String
deriving DecidableEq, Repr

structure SecretBinding where
  variableName : String
  deliveryScope : String
  secretVersionID : String
deriving DecidableEq, Repr

structure LiteralBinding where
  variableName : String
  deliveryScope : String
  value : String
deriving DecidableEq, Repr

-- Of the lease, what the two deliveries read.
structure Lease where
  secretBindings : List SecretBinding
  literalBindings : List LiteralBinding
deriving DecidableEq, Repr

inductive DeliveryError (ε : Type) where
  | fetch (e : ε)
  | noBuildValue (name : String)
  | noRuntimeValue (name : String)
  | build (e : BuildError)
  | run (e : RunError)

-- The set is fetched at most once; the first answer, an error too, is the answer for good.
structure SecretMaterializer (ε : Type) where
  fetched : Option (Except ε (List MaterializedSecret))
  calls : Nat

section

variable {ε : Type}

def newSecretMaterializer : SecretMaterializer ε := ⟨none, 0⟩

def fetch (client : Nat → Except ε (List MaterializedSecret)) (m : SecretMaterializer ε) :
    Except (DeliveryError ε) (List MaterializedSecret) × SecretMaterializer ε :=
  match m.fetched with
  | some answer => (answer.mapError .fetch, m)
  | none => ((client m.calls).mapError .fetch, ⟨some (client m.calls), m.calls + 1⟩)

-- A later entry of a name takes the place of an earlier one.
def byName (all : List MaterializedSecret) (name : String) : Option MaterializedSecret :=
  all.reverse.find? fun s => s.variableName = name

def scopedValue (scope : String) (all : List MaterializedSecret) (name : String) : Option String :=
  (byName all name).bind fun s => if s.deliveryScope = scope then some s.value else none

def buildValues (all : List MaterializedSecret) (bindings : List BuildSecretBinding) :
    Except (DeliveryError ε) (List BuildSecretValue) :=
  bindings.mapM fun b => do
    let value ← found (scopedValue deliveryScopeBuild all b.variableName) (.noBuildValue b.variableName)
    pure ⟨b.variableName, value⟩

def materializeBuildSecrets (client : Nat → Except ε (List MaterializedSecret)) (m : SecretMaterializer ε)
    (bindings : List BuildSecretBinding) : Except (DeliveryError ε) (List BuildSecretValue) × SecretMaterializer ε :=
  let out := fetch client m
  (out.1 >>= fun all => buildValues all bindings, out.2)

def runtimeValues (all : List MaterializedSecret) (needed : List SecretBinding) :
    Except (DeliveryError ε) (List ContainerEnv) :=
  needed.mapM fun b => do
    let value ← found (scopedValue deliveryScopeRuntime all b.variableName) (.noRuntimeValue b.variableName)
    pure ⟨b.variableName, value⟩

def runtimeScoped (bindings : List SecretBinding) : List SecretBinding :=
  bindings.filter fun b => b.deliveryScope = deliveryScopeRuntime

def runtimeSecretEnv (client : Nat → Except ε (List MaterializedSecret)) (m : SecretMaterializer ε)
    (bindings : List SecretBinding) : Except (DeliveryError ε) (List ContainerEnv) × SecretMaterializer ε :=
  if runtimeScoped bindings = [] then (.ok [], m)
  else
    let out := fetch client m
    (out.1 >>= fun all => runtimeValues all (runtimeScoped bindings), out.2)

def toScopedBindings (bindings : List SecretBinding) : List ScopedSecretBinding :=
  bindings.map fun b => ⟨b.variableName, b.deliveryScope, b.secretVersionID⟩

def literalRuntimeEnv (bindings : List LiteralBinding) : List ContainerEnv :=
  (bindings.filter fun b => b.deliveryScope = deliveryScopeRuntime).map fun b => ⟨b.variableName, b.value⟩

def containerEnv (client : Nat → Except ε (List MaterializedSecret)) (m : SecretMaterializer ε) (lease : Lease) :
    Except (DeliveryError ε) (List ContainerEnv) × SecretMaterializer ε :=
  let out := runtimeSecretEnv client m lease.secretBindings
  (out.1 >>= fun secretEnv => pure (secretEnv ++ literalRuntimeEnv lease.literalBindings), out.2)

def requestedBindings (lease : Lease) : List BuildSecretBinding :=
  buildScopedBindings (toScopedBindings lease.secretBindings)

-- The build, to the start of its subprocess.
def build (host : BuildHost) (identity : BuiltImageIdentity) (client : Nat → Except ε (List MaterializedSecret))
    (m : SecretMaterializer ε) (lease : Lease) : Except (DeliveryError ε) Subprocess × SecretMaterializer ε :=
  let bindings := requestedBindings lease
  match prepareBuild host identity bindings with
  | .error e => (.error (.build e), m)
  | .ok labels =>
      if bindings = [] then ((launchBuild host labels bindings []).mapError .build, m)
      else
        let out := materializeBuildSecrets client m bindings
        (out.1 >>= fun values => (launchBuild host labels bindings values).mapError .build, out.2)

-- What one execution delivers: the subprocess of the build, and the entries of the container when it comes to that.
structure Delivery (ε : Type) where
  subprocess : Except (DeliveryError ε) Subprocess
  entries : Option (Except (DeliveryError ε) (List String))
  fetches : Nat

def containerEntries (client : Nat → Except ε (List MaterializedSecret)) (m : SecretMaterializer ε) (lease : Lease) :
    Except (DeliveryError ε) (List String) × SecretMaterializer ε :=
  let out := containerEnv client m lease
  (out.1 >>= fun env => (buildEnvEntries env).mapError .run, out.2)

-- `built` is whether the subprocess came to an image.
def deliver (host : BuildHost) (identity : BuiltImageIdentity) (built : Subprocess → Bool)
    (client : Nat → Except ε (List MaterializedSecret)) (lease : Lease) : Delivery ε :=
  let started := build host identity client newSecretMaterializer lease
  match started.1 with
  | .error e => ⟨.error e, none, started.2.calls⟩
  | .ok p =>
      if built p then
        let entries := containerEntries client started.2 lease
        ⟨.ok p, some entries.1, entries.2.calls⟩
      else ⟨.ok p, none, started.2.calls⟩

-- The set is what the first fetch brought, in both places.
def Answers (client : Nat → Except ε (List MaterializedSecret)) (m : SecretMaterializer ε) : Prop :=
  m = newSecretMaterializer ∨ m = ⟨some (client 0), 1⟩

theorem fetch_answers {client : Nat → Except ε (List MaterializedSecret)} {m : SecretMaterializer ε}
    (h : Answers client m) :
    fetch client m = ((client 0).mapError .fetch, ⟨some (client 0), 1⟩) := by
  rcases h with rfl | rfl
  · rfl
  · rfl

def buildWith (host : BuildHost) (identity : BuiltImageIdentity) (lease : Lease) (all : List MaterializedSecret) :
    Except (DeliveryError ε) Subprocess := do
  let labels ← (prepareBuild host identity (requestedBindings lease)).mapError .build
  let values ← buildValues all (requestedBindings lease)
  (launchBuild host labels (requestedBindings lease) values).mapError .build

def entriesWith (lease : Lease) (all : List MaterializedSecret) : Except (DeliveryError ε) (List String) := do
  let secretEnv ← runtimeValues all (runtimeScoped lease.secretBindings)
  (buildEnvEntries (secretEnv ++ literalRuntimeEnv lease.literalBindings)).mapError .run

theorem build_eq (host : BuildHost) (identity : BuiltImageIdentity)
    {client : Nat → Except ε (List MaterializedSecret)} (lease : Lease) {all : List MaterializedSecret}
    (hclient : client 0 = .ok all) :
    (build host identity client newSecretMaterializer lease).1 = buildWith host identity lease all ∧
      Answers client (build host identity client newSecretMaterializer lease).2 := by
  have hfetch : fetch client newSecretMaterializer = ((client 0).mapError .fetch, ⟨some (client 0), 1⟩) :=
    fetch_answers (.inl rfl)
  simp only [build, buildWith]
  cases hprepare : prepareBuild host identity (requestedBindings lease) with
  | error e =>
      simp only
      exact ⟨rfl, .inl rfl⟩
  | ok labels =>
      simp only
      by_cases hnil : requestedBindings lease = []
      · rw [if_pos hnil, hnil]
        exact ⟨rfl, .inl rfl⟩
      · simp only [if_neg hnil, materializeBuildSecrets, hfetch, hclient]
        exact ⟨rfl, .inr (by rw [hclient])⟩

theorem containerEntries_eq {client : Nat → Except ε (List MaterializedSecret)} {lease : Lease}
    {all : List MaterializedSecret} {m : SecretMaterializer ε} (hclient : client 0 = .ok all) (hm : Answers client m) :
    (containerEntries client m lease).1 = entriesWith lease all ∧ Answers client (containerEntries client m lease).2 := by
  have hfetch := fetch_answers hm
  simp only [containerEntries, containerEnv, runtimeSecretEnv, entriesWith]
  by_cases hnil : runtimeScoped lease.secretBindings = []
  · simp only [hnil, if_true]
    exact ⟨rfl, hm⟩
  · simp only [if_neg hnil, hfetch, hclient]
    refine ⟨?_, .inr (by rw [hclient])⟩
    show ((runtimeValues all _ >>= _) >>= _) = _
    rw [bind_assoc]
    rfl

theorem deliver_subprocess {host : BuildHost} {identity : BuiltImageIdentity} {built : Subprocess → Bool}
    {client : Nat → Except ε (List MaterializedSecret)} {lease : Lease} {all : List MaterializedSecret}
    (hclient : client 0 = .ok all) :
    (deliver host identity built client lease).subprocess = buildWith host identity lease all := by
  obtain ⟨hbuild, -⟩ := build_eq host identity lease hclient
  rw [← hbuild]
  simp only [deliver]
  split
  · next e herror => exact herror.symm
  · next p hok =>
      split
      · exact hok.symm
      · exact hok.symm

theorem deliver_entries {host : BuildHost} {identity : BuiltImageIdentity} {built : Subprocess → Bool}
    {client : Nat → Except ε (List MaterializedSecret)} {lease : Lease} {all : List MaterializedSecret}
    {entries : Except (DeliveryError ε) (List String)} (hclient : client 0 = .ok all)
    (h : (deliver host identity built client lease).entries = some entries) : entries = entriesWith lease all := by
  obtain ⟨-, hanswers⟩ := build_eq host identity lease hclient
  simp only [deliver] at h
  split at h
  · cases h
  · split at h
    · rw [← (containerEntries_eq hclient hanswers).1]
      exact (Option.some.inj h).symm
    · cases h

theorem Answers.calls {client : Nat → Except ε (List MaterializedSecret)} {m : SecretMaterializer ε}
    (h : Answers client m) : m.calls ≤ 1 := by
  rcases h with rfl | rfl
  · exact Nat.zero_le 1
  · exact Nat.le_refl 1

theorem deliver_fetches (host : BuildHost) (identity : BuiltImageIdentity) (built : Subprocess → Bool)
    {client : Nat → Except ε (List MaterializedSecret)} (lease : Lease) {all : List MaterializedSecret}
    (hclient : client 0 = .ok all) : (deliver host identity built client lease).fetches ≤ 1 := by
  obtain ⟨-, hanswers⟩ := build_eq host identity lease hclient
  simp only [deliver]
  split
  · exact hanswers.calls
  · split
    · exact (containerEntries_eq hclient hanswers).2.calls
    · exact hanswers.calls

-- Two sets that say the same of one scope: name by name, an entry of the other scope hiding what it stands after.
def Agree (scope : String) (all all' : List MaterializedSecret) : Prop :=
  ∀ name, scopedValue scope all name = scopedValue scope all' name

-- Or entry by entry, whatever they have in the other scope.
def SameEntries (scope : String) (all all' : List MaterializedSecret) : Prop :=
  (all.filter fun s => s.deliveryScope = scope) = all'.filter fun s => s.deliveryScope = scope

theorem find?_filter_of_find? {α : Type} {p q : α → Bool} {xs : List α} {a : α} (h : xs.find? q = some a)
    (hp : p a = true) : (xs.filter p).find? q = some a := by
  induction xs with
  | nil => cases h
  | cons x xs ih =>
      by_cases hq : q x = true
      · rw [List.find?_cons_of_pos hq] at h
        cases h
        rw [List.filter_cons_of_pos hp, List.find?_cons_of_pos hq]
      · rw [List.find?_cons_of_neg hq] at h
        by_cases hx : p x = true
        · rw [List.filter_cons_of_pos hx, List.find?_cons_of_neg hq, ih h]
        · rw [List.filter_cons_of_neg hx, ih h]

-- An entry that counts and has the scope counts among those of the scope.
theorem scopedValue_eq_some {scope name v : String} {all : List MaterializedSecret}
    (h : scopedValue scope all name = some v) :
    ((all.filter fun s => s.deliveryScope = scope).reverse.find? fun s => s.variableName = name).map
      MaterializedSecret.value = some v := by
  simp only [scopedValue, byName, Option.bind_eq_some_iff] at h
  obtain ⟨s, hfind, hscope⟩ := h
  split at hscope
  · next heq =>
      have hkept := find?_filter_of_find? (p := fun s => decide (s.deliveryScope = scope)) hfind (decide_eq_true heq)
      rw [← List.filter_reverse, hkept]
      exact hscope
  · cases hscope

theorem SameEntries.value {scope name v v' : String} {all all' : List MaterializedSecret}
    (h : SameEntries scope all all') (hv : scopedValue scope all name = some v)
    (hv' : scopedValue scope all' name = some v') : v = v' := by
  have hfound := scopedValue_eq_some hv
  rw [h, scopedValue_eq_some hv'] at hfound
  exact (Option.some.inj hfound).symm

theorem mapM_agree {δ α β : Type} {f f' : α → Except δ β} (h : ∀ x y y', f x = .ok y → f' x = .ok y' → y = y')
    {xs : List α} {ys ys' : List β} (hys : xs.mapM f = .ok ys) (hys' : xs.mapM f' = .ok ys') : ys = ys' := by
  induction xs generalizing ys ys' with
  | nil =>
      simp only [List.mapM_nil, pure_eq_ok] at hys hys'
      rw [← hys, ← hys']
  | cons x xs ih =>
      simp only [List.mapM_cons, bind_eq_ok, pure_eq_ok] at hys hys'
      obtain ⟨y, hy, rest, hrest, rfl⟩ := hys
      obtain ⟨y', hy', rest', hrest', rfl⟩ := hys'
      rw [h x y y' hy hy', ih hrest hrest']

theorem buildValues_same {all all' : List MaterializedSecret} {bindings : List BuildSecretBinding}
    {values values' : List BuildSecretValue} (h : SameEntries deliveryScopeBuild all all')
    (hvalues : buildValues (ε := ε) all bindings = .ok values)
    (hvalues' : buildValues (ε := ε) all' bindings = .ok values') : values = values' := by
  refine mapM_agree (fun b v v' hv hv' => ?_) hvalues hvalues'
  simp only [bind_eq_ok, found_eq_ok, pure_eq_ok] at hv hv'
  obtain ⟨x, hx, rfl⟩ := hv
  obtain ⟨x', hx', rfl⟩ := hv'
  rw [h.value hx hx']

theorem runtimeValues_same {all all' : List MaterializedSecret} {needed : List SecretBinding}
    {env env' : List ContainerEnv} (h : SameEntries deliveryScopeRuntime all all')
    (henv : runtimeValues (ε := ε) all needed = .ok env) (henv' : runtimeValues (ε := ε) all' needed = .ok env') :
    env = env' := by
  refine mapM_agree (fun b v v' hv hv' => ?_) henv henv'
  simp only [bind_eq_ok, found_eq_ok, pure_eq_ok] at hv hv'
  obtain ⟨x, hx, rfl⟩ := hv
  obtain ⟨x', hx', rfl⟩ := hv'
  rw [h.value hx hx']

theorem buildValues_mem {all : List MaterializedSecret} {bindings : List BuildSecretBinding}
    {values : List BuildSecretValue} (h : buildValues (ε := ε) all bindings = .ok values) :
    ∀ v ∈ values, scopedValue deliveryScopeBuild all v.variableName = some v.value := by
  induction bindings generalizing values with
  | nil =>
      simp only [buildValues, List.mapM_nil, pure_eq_ok] at h
      subst h
      exact fun v hv => absurd hv List.not_mem_nil
  | cons b bindings ih =>
      simp only [buildValues, List.mapM_cons, bind_eq_ok, found_eq_ok, pure_eq_ok] at h
      obtain ⟨first, ⟨x, hx, rfl⟩, rest, hrest, rfl⟩ := h
      intro v hv
      rcases List.mem_cons.1 hv with rfl | hv
      · exact hx
      · exact ih hrest v hv

theorem prepareBuild_nodup {host : BuildHost} {identity : BuiltImageIdentity} {bindings : List BuildSecretBinding}
    {labels : Labels} (h : prepareBuild host identity bindings = .ok labels) :
    (bindings.map BuildSecretBinding.variableName).Nodup := by
  simp only [prepareBuild, validateBuildRequest, bind_eq_ok] at h
  obtain ⟨_, ⟨_, -, _, -, _, -, hcheck⟩, -⟩ := h
  exact (checkBindings_nodup hcheck).1

theorem buildWith_eq_ok {host : BuildHost} {identity : BuiltImageIdentity} {lease : Lease}
    {all : List MaterializedSecret} {p : Subprocess} (h : buildWith (ε := ε) host identity lease all = .ok p) :
    ∃ labels values, prepareBuild host identity (requestedBindings lease) = .ok labels ∧
      buildValues (ε := ε) all (requestedBindings lease) = .ok values ∧
      launchBuild host labels (requestedBindings lease) values = .ok p := by
  simp only [buildWith, bind_eq_ok, mapError_eq_ok] at h
  obtain ⟨labels, hlabels, values, hvalues, hlaunch⟩ := h
  exact ⟨labels, values, hlabels, hvalues, hlaunch⟩

-- A variable of the build reaches it once, with the value of its own scope.
structure Once (all : List MaterializedSecret) (p : Subprocess) (name : String) : Prop where
  environment : ∃ v, scopedValue deliveryScopeBuild all name = some v ∧
    (p.env.filter fun kv => envKey kv = name.toList) = [name ++ "=" ++ v]
  argument : ∃ names : List String, secretSpecs p.argv = secretSpecsFrom 0 names ∧ names.count name = 1
  unlisted : name ∉ subprocessEnvAllowlist

theorem buildWith_once {host : BuildHost} {identity : BuiltImageIdentity} {lease : Lease}
    {all : List MaterializedSecret} {p : Subprocess} (h : buildWith (ε := ε) host identity lease all = .ok p) {name : String}
    (hname : name ∈ (requestedBindings lease).map BuildSecretBinding.variableName) : Once all p name := by
  obtain ⟨labels, values, hprepare, hvalues, hlaunch⟩ := buildWith_eq_ok h
  have hnodup := prepareBuild_nodup hprepare
  have hlaunched := launchBuild_eq_ok hnodup hlaunch
  have hperm := sortedNames_perm (requestedBindings lease)
  obtain ⟨v, hv, hentry⟩ := hlaunched.delivered name hname
  refine ⟨⟨v, ?_, hentry⟩, ⟨sortedNames (requestedBindings lease), hlaunched.specs, ?_⟩, hlaunched.unlisted name hname⟩
  · rw [valueOf, Option.map_eq_some_iff] at hv
    obtain ⟨w, hw, rfl⟩ := hv
    have hsame : w.variableName = name := by simpa using List.find?_some hw
    rw [← hsame]
    exact buildValues_mem hvalues w (List.mem_of_find?_eq_some hw)
  · exact List.count_eq_one_of_mem (hperm.nodup_iff.2 hnodup) (hperm.mem_iff.2 hname)

-- What the two deliveries of one lease show of a materialized set, on any host.
structure ScopesSeparate (ε : Type) (host : BuildHost) (identity : BuiltImageIdentity) (built : Subprocess → Bool)
    (lease : Lease) : Prop where
  build_agree : ∀ (client client' : Nat → Except ε (List MaterializedSecret)) all all', client 0 = .ok all →
    client' 0 = .ok all' → Agree deliveryScopeBuild all all' →
      (deliver host identity built client lease).subprocess = (deliver host identity built client' lease).subprocess
  build_same : ∀ (client client' : Nat → Except ε (List MaterializedSecret)) all all' p p', client 0 = .ok all →
    client' 0 = .ok all' → SameEntries deliveryScopeBuild all all' →
      (deliver host identity built client lease).subprocess = .ok p →
        (deliver host identity built client' lease).subprocess = .ok p' → p = p'
  argv : ∃ argv, ∀ (client : Nat → Except ε (List MaterializedSecret)) all p, client 0 = .ok all →
    (deliver host identity built client lease).subprocess = .ok p → p.argv = argv
  runtime_agree : ∀ (client client' : Nat → Except ε (List MaterializedSecret)) all all' e e', client 0 = .ok all →
    client' 0 = .ok all' → Agree deliveryScopeRuntime all all' →
      (deliver host identity built client lease).entries = some e →
        (deliver host identity built client' lease).entries = some e' → e = e'
  runtime_same : ∀ (client client' : Nat → Except ε (List MaterializedSecret)) all all' entries entries',
    client 0 = .ok all → client' 0 = .ok all' → SameEntries deliveryScopeRuntime all all' →
      (deliver host identity built client lease).entries = some (.ok entries) →
        (deliver host identity built client' lease).entries = some (.ok entries') → entries = entries'
  once : ∀ (client : Nat → Except ε (List MaterializedSecret)) all p, client 0 = .ok all →
    (deliver host identity built client lease).subprocess = .ok p →
      ∀ b ∈ lease.secretBindings, b.deliveryScope = deliveryScopeBuild → Once all p b.variableName
  fetched : ∀ (client : Nat → Except ε (List MaterializedSecret)) all, client 0 = .ok all →
    (deliver host identity built client lease).fetches ≤ 1

theorem mem_requested {lease : Lease} {b : SecretBinding} (hb : b ∈ lease.secretBindings)
    (hscope : b.deliveryScope = deliveryScopeBuild) :
    b.variableName ∈ (requestedBindings lease).map BuildSecretBinding.variableName := by
  simp only [requestedBindings, buildScopedBindings, toScopedBindings, List.mem_map, List.mem_filter]
  exact ⟨⟨b.variableName, b.secretVersionID⟩,
    ⟨⟨b.variableName, b.deliveryScope, b.secretVersionID⟩, ⟨⟨b, hb, rfl⟩, decide_eq_true hscope⟩, rfl⟩, rfl⟩

theorem buildWith_agree {host : BuildHost} {identity : BuiltImageIdentity} {lease : Lease}
    {all all' : List MaterializedSecret} (h : Agree deliveryScopeBuild all all') :
    buildWith (ε := ε) host identity lease all = buildWith host identity lease all' := by
  have hvalues : buildValues (ε := ε) all (requestedBindings lease) = buildValues all' (requestedBindings lease) := by
    unfold buildValues
    simp only [h _]
  unfold buildWith
  rw [hvalues]

theorem entriesWith_agree {lease : Lease} {all all' : List MaterializedSecret}
    (h : Agree deliveryScopeRuntime all all') : entriesWith (ε := ε) lease all = entriesWith lease all' := by
  have hvalues : runtimeValues (ε := ε) all (runtimeScoped lease.secretBindings) =
      runtimeValues all' (runtimeScoped lease.secretBindings) := by
    unfold runtimeValues
    simp only [h _]
  unfold entriesWith
  rw [hvalues]

theorem buildWith_argv (ε : Type) (host : BuildHost) (identity : BuiltImageIdentity) (lease : Lease) :
    ∃ argv, ∀ all p, buildWith (ε := ε) host identity lease all = .ok p → p.argv = argv := by
  by_cases hany : ∃ all p, buildWith (ε := ε) host identity lease all = .ok p
  · obtain ⟨all, p, hp⟩ := hany
    refine ⟨p.argv, fun all' p' hp' => ?_⟩
    obtain ⟨labels, values, hprepare, -, hlaunch⟩ := buildWith_eq_ok hp
    obtain ⟨labels', values', hprepare', -, hlaunch'⟩ := buildWith_eq_ok hp'
    cases hprepare.symm.trans hprepare'
    exact launchBuild_argv hlaunch' hlaunch
  · exact ⟨[], fun all p hp => absurd ⟨all, p, hp⟩ hany⟩

theorem secret_scopes_separate (host : BuildHost) (identity : BuiltImageIdentity) (built : Subprocess → Bool)
    (lease : Lease) : ScopesSeparate ε host identity built lease := by
  refine ⟨?_, ?_, ?_, ?_, ?_, ?_, ?_⟩
  · intro client client' all all' hclient hclient' hagree
    rw [deliver_subprocess hclient, deliver_subprocess hclient', buildWith_agree hagree]
  · intro client client' all all' p p' hclient hclient' hsame hp hp'
    rw [deliver_subprocess hclient] at hp
    rw [deliver_subprocess hclient'] at hp'
    obtain ⟨labels, values, hprepare, hvalues, hlaunch⟩ := buildWith_eq_ok hp
    obtain ⟨labels', values', hprepare', hvalues', hlaunch'⟩ := buildWith_eq_ok hp'
    cases hprepare.symm.trans hprepare'
    cases buildValues_same hsame hvalues hvalues'
    exact Except.ok.inj (hlaunch.symm.trans hlaunch')
  · obtain ⟨argv, hargv⟩ := buildWith_argv ε host identity lease
    refine ⟨argv, fun client all p hclient hp => ?_⟩
    rw [deliver_subprocess hclient] at hp
    exact hargv all p hp
  · intro client client' all all' e e' hclient hclient' hagree he he'
    rw [deliver_entries hclient he, deliver_entries hclient' he', entriesWith_agree hagree]
  · intro client client' all all' entries entries' hclient hclient' hsame he he'
    have hok := deliver_entries hclient he
    have hok' := deliver_entries hclient' he'
    simp only [entriesWith, eq_comm (a := Except.ok _), bind_eq_ok, mapError_eq_ok] at hok hok'
    obtain ⟨env, henv, hentries⟩ := hok
    obtain ⟨env', henv', hentries'⟩ := hok'
    cases runtimeValues_same hsame henv henv'
    exact Except.ok.inj (hentries.symm.trans hentries')
  · intro client all p hclient hp b hb hscope
    rw [deliver_subprocess hclient] at hp
    exact buildWith_once hp (mem_requested hb hscope)
  · intro client all hclient
    exact deliver_fetches host identity built lease hclient

def sampleHost : BuildHost :=
  ⟨"/work", true, some "Dockerfile", true, fun _ => true, some "Dockerfile", some "/tmp/adbx1",
    fun name => if name = "PATH" then some "/usr/bin" else none⟩

def sampleImage : BuiltImageIdentity :=
  ⟨"owner", "project", "0123456789abcdef0123456789abcdef0123456789abcdef0123456789abcdef", "2"⟩

def sampleLease : Lease :=
  ⟨[⟨"TOKEN", "build", "v1"⟩, ⟨"KEY", "build", "v2"⟩, ⟨"PASSWORD", "runtime", "v3"⟩], [⟨"PORT", "runtime", "8080"⟩]⟩

def sampleSet : List MaterializedSecret :=
  [⟨"PASSWORD", "runtime", "p"⟩, ⟨"TOKEN", "build", "t"⟩, ⟨"KEY", "build", "k"⟩]

example : (deliver (ε := Unit) sampleHost sampleImage (fun _ => true) (fun _ => .ok sampleSet)
    sampleLease).subprocess.toOption.map (fun p => (secretSpecs p.argv, p.env)) =
      some (["id=build-secret-0,env=KEY", "id=build-secret-1,env=TOKEN"], ["PATH=/usr/bin", "KEY=k", "TOKEN=t"]) := by
  decide +kernel

end

end AutoDeploy.Executor
