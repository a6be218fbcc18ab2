import AutoDeploy.Docker.Run

namespace AutoDeploy.Docker

open Lib Lib.Result

def deliveryScopeBuild : String := "build"

def deliveryScopeRuntime : String := "runtime"

structure ScopedSecretBinding where
  variableName : String
  deliveryScope : String
  secretVersionID : String
deriving DecidableEq, Repr

structure BuildSecretBinding where
  variableName : String
  secretVersionID : String
deriving DecidableEq, Repr

def buildScopedBindings (bindings : List ScopedSecretBinding) : List BuildSecretBinding :=
  (bindings.filter fun b => b.deliveryScope = deliveryScopeBuild).map fun b => ⟨b.variableName, b.secretVersionID⟩

structure BuildSecretValue where
  variableName : String
  value : String
deriving DecidableEq, Repr

inductive BuildError where
  | emptyContextDir
  | contextDirUnusable
  | dockerfilePath
  | emptyBindingField
  | duplicateBinding (name : String)
  | buildxUnavailable
  | labels (e : LabelError)
  | valueCount (values bindings : Nat)
  | duplicateValue (name : String)
  | invalidName (name : String)
  | reservedName (name : String)
  | missingValue (name : String)
  | emptyValue (name : String)
  | redactor
  | metadataDir
  | environmentNUL
  | buildFailed
deriving DecidableEq, Repr

def subprocessEnvAllowlist : List String :=
  ["PATH", "HOME", "XDG_RUNTIME_DIR", "DOCKER_HOST", "DOCKER_CONFIG", "DOCKER_CONTEXT", "DOCKER_TLS_VERIFY",
    "DOCKER_CERT_PATH", "BUILDKIT_HOST", "BUILDX_BUILDER", "BUILDX_CONFIG"]

def reservedSecretEnvVars : List String :=
  ["PATH", "HOME", "XDG_RUNTIME_DIR", "DOCKER_HOST", "DOCKER_CONFIG", "DOCKER_CONTEXT", "DOCKER_TLS_VERIFY",
    "DOCKER_CERT_PATH", "BUILDKIT_HOST", "BUILDX_BUILDER", "BUILDX_CONFIG"]

-- What the host decides while a build is prepared: its files, the CLI, the agent's own environment, and whether the
-- output redactor takes the values. `dockerfile` is asked twice.
structure BuildHost where
  contextDir : String
  contextUsable : Bool
  dockerfile : Option String
  buildx : Bool
  redacts : List String → Bool
  dockerfileAgain : Option String
  metadataDir : Option String
  lookupEnv : String → Option String

def subprocessEnv (host : BuildHost) (secretEnv : List String) : List String :=
  (subprocessEnvAllowlist.filterMap fun name => (host.lookupEnv name).map fun v => name ++ "=" ++ v) ++ secretEnv

def opaqueSecretID (i : Nat) : String := "build-secret-" ++ toString i

structure ResolvedBuildSecret where
  id : String
  envVar : String
  value : String
deriving DecidableEq, Repr

-- No variable may come twice.
def checkValues : List String → List BuildSecretValue → Except BuildError Unit
  | _, [] => .ok ()
  | seen, v :: rest => do
      require (v.variableName ∉ seen) (.duplicateValue v.variableName)
      checkValues (v.variableName :: seen) rest

def valueOf (values : List BuildSecretValue) (name : String) : Option String :=
  (values.find? fun v => v.variableName = name).map BuildSecretValue.value

def resolveEach (values : List BuildSecretValue) : Nat → List BuildSecretBinding →
    Except BuildError (List ResolvedBuildSecret)
  | _, [] => .ok []
  | i, b :: rest => do
      require (envVarPattern b.variableName) (.invalidName b.variableName)
      require (b.variableName ∉ reservedSecretEnvVars) (.reservedName b.variableName)
      let value ← found (valueOf values b.variableName) (.missingValue b.variableName)
      require (value ≠ "") (.emptyValue b.variableName)
      let resolved ← resolveEach values (i + 1) rest
      pure (⟨opaqueSecretID i, b.variableName, value⟩ :: resolved)

def resolveBuildSecrets (bindings : List BuildSecretBinding) (values : List BuildSecretValue) :
    Except BuildError (List ResolvedBuildSecret) :=
  if bindings = [] then .ok []
  else do
    require (values.length = bindings.length) (.valueCount values.length bindings.length)
    checkValues [] values
    resolveEach values 0 (sortByName BuildSecretBinding.variableName bindings)

def secretSpec (id envVar : String) : String := "id=" ++ id ++ ",env=" ++ envVar

def buildxArgv (dockerfile : String) (labels : Labels) (secrets : List ResolvedBuildSecret) (metadataFile : String) :
    List String × List String :=
  (["buildx", "build", "--progress=plain", "--file", dockerfile] ++
      ((sortByName Prod.fst labels).flatMap fun label => ["--label", label.1 ++ "=" ++ label.2]) ++
      (secrets.flatMap fun s => ["--secret", secretSpec s.id s.envVar]) ++
      ["--metadata-file", metadataFile, "--load", "."],
    secrets.map fun s => s.envVar ++ "=" ++ s.value)

def checkBindings : List String → List BuildSecretBinding → Except BuildError Unit
  | _, [] => .ok ()
  | seen, b :: rest => do
      require (b.variableName ≠ "" ∧ b.secretVersionID ≠ "") .emptyBindingField
      require (b.variableName ∉ seen) (.duplicateBinding b.variableName)
      checkBindings (b.variableName :: seen) rest

def validateBuildRequest (host : BuildHost) (bindings : List BuildSecretBinding) : Except BuildError Unit := do
  require (host.contextDir ≠ "") .emptyContextDir
  require host.contextUsable .contextDirUnusable
  require host.dockerfile.isSome .dockerfilePath
  checkBindings [] bindings

-- `os/exec` on the way to the child: an entry with a NUL refuses the whole start, and of the entries of one variable
-- only the last is passed on.
def envKey (entry : String) : List Char := entry.toList.takeWhile (· ≠ '=')

def keepLast : List String → List String
  | [] => []
  | kv :: rest => if rest.any fun later => envKey later = envKey kv then keepLast rest else kv :: keepLast rest

def dedupEnv (env : List String) : Except BuildError (List String) := do
  require (env.all fun kv => !kv.toList.contains '\x00') .environmentNUL
  pure (keepLast env)

structure Subprocess where
  argv : List String
  env : List String
deriving DecidableEq, Repr

-- `build` up to where it asks for the values.
def prepareBuild (host : BuildHost) (identity : BuiltImageIdentity) (bindings : List BuildSecretBinding) :
    Except BuildError Labels := do
  validateBuildRequest host bindings
  require host.buildx .buildxUnavailable
  (builtImageLabels identity).mapError .labels

-- And from there to the start of the subprocess.
def launchBuild (host : BuildHost) (labels : Labels) (bindings : List BuildSecretBinding)
    (values : List BuildSecretValue) : Except BuildError Subprocess := do
  let resolved ← resolveBuildSecrets bindings values
  require (host.redacts (resolved.map ResolvedBuildSecret.value)) .redactor
  let dockerfile ← found host.dockerfileAgain .dockerfilePath
  let metaDir ← found host.metadataDir .metadataDir
  let (argv, secretEnv) := buildxArgv dockerfile labels resolved (metaDir ++ "/metadata.json")
  let env ← dedupEnv (subprocessEnv host secretEnv)
  pure ⟨"docker" :: argv, env⟩

-- The CLI's reading of its arguments: the values of its `--secret` options.
def secretSpecs : List String → List String
  | [] => []
  | [_] => []
  | flag :: value :: rest =>
      if flag = "--secret" then value :: secretSpecs rest
      else if flag ∈ ["--file", "--label", "--metadata-file"] then secretSpecs rest
      else secretSpecs (value :: rest)

def secretSpecsFrom : Nat → List String → List String
  | _, [] => []
  | i, name :: rest => secretSpec (opaqueSecretID i) name :: secretSpecsFrom (i + 1) rest

-- What a resolved secret is made of.
structure Resolved (values : List BuildSecretValue) (s : ResolvedBuildSecret) : Prop where
  value : valueOf values s.envVar = some s.value
  pattern : envVarPattern s.envVar = true
  unreserved : s.envVar ∉ reservedSecretEnvVars

theorem resolveEach_eq_ok {values : List BuildSecretValue} {i : Nat} {bindings : List BuildSecretBinding}
    {resolved : List ResolvedBuildSecret} (h : resolveEach values i bindings = .ok resolved) :
    resolved.map ResolvedBuildSecret.envVar = bindings.map BuildSecretBinding.variableName ∧
      resolved.map (fun s => secretSpec s.id s.envVar) =
        secretSpecsFrom i (bindings.map BuildSecretBinding.variableName) ∧
      ∀ s ∈ resolved, Resolved values s := by
  induction bindings generalizing i resolved with
  | nil =>
      cases h
      exact ⟨rfl, rfl, fun s hs => absurd hs List.not_mem_nil⟩
  | cons b bindings ih =>
      simp only [resolveEach, bind_eq_ok, require_eq_ok, found_eq_ok, pure_eq_ok] at h
      obtain ⟨_, hpattern, _, hreserved, value, hvalue, _, -, rest, hrest, rfl⟩ := h
      obtain ⟨hnames, hspecs, hresolved⟩ := ih hrest
      refine ⟨?_, ?_, ?_⟩
      · rw [List.map_cons, List.map_cons, hnames]
      · rw [List.map_cons, List.map_cons, hspecs, secretSpecsFrom]
      · intro s hs
        rcases List.mem_cons.1 hs with rfl | hs
        · exact ⟨hvalue, hpattern, hreserved⟩
        · exact hresolved s hs

-- The names of the bindings in the order in which they are handed over.
def sortedNames (bindings : List BuildSecretBinding) : List String :=
  (sortByName BuildSecretBinding.variableName bindings).map BuildSecretBinding.variableName

theorem sortedNames_perm (bindings : List BuildSecretBinding) :
    (sortedNames bindings).Perm (bindings.map BuildSecretBinding.variableName) :=
  (List.perm_insertionSort _ bindings).map _

theorem resolveBuildSecrets_eq_ok {bindings : List BuildSecretBinding} {values : List BuildSecretValue}
    {resolved : List ResolvedBuildSecret} (h : resolveBuildSecrets bindings values = .ok resolved) :
    resolved.map ResolvedBuildSecret.envVar = sortedNames bindings ∧
      resolved.map (fun s => secretSpec s.id s.envVar) = secretSpecsFrom 0 (sortedNames bindings) ∧
      ∀ s ∈ resolved, Resolved values s := by
  unfold resolveBuildSecrets at h
  split at h
  · next hnil =>
      subst hnil
      cases h
      exact ⟨rfl, rfl, fun s hs => absurd hs List.not_mem_nil⟩
  · simp only [bind_eq_ok] at h
    obtain ⟨_, -, _, -, hresolve⟩ := h
    exact resolveEach_eq_ok hresolve

theorem checkBindings_nodup {seen : List String} {bindings : List BuildSecretBinding} {u : Unit}
    (h : checkBindings seen bindings = .ok u) :
    (bindings.map BuildSecretBinding.variableName).Nodup ∧
      ∀ name ∈ bindings.map BuildSecretBinding.variableName, name ∉ seen := by
  induction bindings generalizing seen with
  | nil => exact ⟨List.nodup_nil, fun name hname => absurd hname List.not_mem_nil⟩
  | cons b bindings ih =>
      simp only [checkBindings, bind_eq_ok, require_eq_ok] at h
      obtain ⟨_, -, _, hnew, hrest⟩ := h
      obtain ⟨hnodup, hseen⟩ := ih hrest
      rw [List.map_cons]
      refine ⟨List.nodup_cons.2 ⟨fun hmem => hseen _ hmem List.mem_cons_self, hnodup⟩, fun name hname hold => ?_⟩
      rcases List.mem_cons.1 hname with rfl | hname
      · exact hnew hold
      · exact hseen name hname (List.mem_cons_of_mem _ hold)

-- The CLI finds exactly the secrets that were put there.
theorem secretSpecs_labels (labels : Labels) (rest : List String) :
    secretSpecs ((labels.flatMap fun label => ["--label", label.1 ++ "=" ++ label.2]) ++ rest) = secretSpecs rest := by
  induction labels with
  | nil => rfl
  | cons label labels ih =>
      rw [List.flatMap_cons, List.append_assoc, List.cons_append, List.cons_append, List.nil_append, secretSpecs,
        if_neg (by decide), if_pos (by decide)]
      exact ih

theorem secretSpecs_secrets (secrets : List ResolvedBuildSecret) (rest : List String) :
    secretSpecs ((secrets.flatMap fun s => ["--secret", secretSpec s.id s.envVar]) ++ rest) =
      secrets.map (fun s => secretSpec s.id s.envVar) ++ secretSpecs rest := by
  induction secrets with
  | nil => rfl
  | cons s secrets ih =>
      rw [List.flatMap_cons, List.append_assoc, List.cons_append, List.cons_append, List.nil_append, secretSpecs,
        if_pos rfl, List.map_cons, List.cons_append, ih]

theorem secretSpecs_argv (dockerfile : String) (labels : Labels) (secrets : List ResolvedBuildSecret)
    (metadataFile : String) : secretSpecs ("docker" :: (buildxArgv dockerfile labels secrets metadataFile).1) =
      secrets.map fun s => secretSpec s.id s.envVar := by
  have hhead (rest : List String) : secretSpecs ("docker" :: "buildx" :: "build" :: "--progress=plain" :: "--file" ::
      dockerfile :: rest) = secretSpecs rest := by
    simp [secretSpecs]
  have htail : secretSpecs ["--metadata-file", metadataFile, "--load", "."] = [] := by
    simp [secretSpecs]
  simp only [buildxArgv, List.cons_append, List.nil_append, List.append_assoc]
  rw [hhead, secretSpecs_labels, secretSpecs_secrets, htail, List.append_nil]

-- The arguments depend on the secrets only through what the CLI is told of them.
theorem buildxArgv_congr (dockerfile : String) (labels : Labels) {secrets secrets' : List ResolvedBuildSecret}
    (metadataFile : String)
    (h : secrets.map (fun s => secretSpec s.id s.envVar) = secrets'.map fun s => secretSpec s.id s.envVar) :
    (buildxArgv dockerfile labels secrets metadataFile).1 = (buildxArgv dockerfile labels secrets' metadataFile).1 := by
  have hflags (secrets : List ResolvedBuildSecret) : (secrets.flatMap fun s => ["--secret", secretSpec s.id s.envVar]) =
      (secrets.map fun s => secretSpec s.id s.envVar).flatMap fun spec => ["--secret", spec] := by
    rw [List.flatMap_map]
  simp only [buildxArgv, hflags, h]

-- Names that pass the pattern, and those of the allowlist, are what stands before the first `=` of their entry.
theorem envKey_entry {name : String} (h : ∀ c ∈ name.toList, c ≠ '=') (value : String) :
    envKey (name ++ "=" ++ value) = name.toList := by
  have hequals : "=".toList = ['='] := rfl
  rw [envKey, String.toList_append, String.toList_append, hequals, List.append_assoc, List.cons_append,
    List.takeWhile_append_of_pos (by simpa using h)]
  simp

theorem plain_of_pattern {name : String} (h : envVarPattern name = true) : ∀ c ∈ name.toList, c ≠ '=' := by
  unfold envVarPattern at h
  intro c hc heq
  subst heq
  cases hlist : name.toList with
  | nil =>
      rw [hlist] at hc
      exact absurd hc List.not_mem_nil
  | cons first rest =>
      rw [hlist] at hc h
      simp only [Bool.and_eq_true, List.all_eq_true] at h
      rcases List.mem_cons.1 hc with rfl | hc
      · exact absurd h.1 (by decide)
      · exact absurd (h.2 '=' hc) (by decide)

theorem plain_allowlist : ∀ name ∈ subprocessEnvAllowlist, ∀ c ∈ name.toList, c ≠ '=' := by
  have hall : subprocessEnvAllowlist.all (fun name => name.toList.all (· != '=')) = true := by decide +kernel
  intro name hname c hc
  have hchar := List.all_eq_true.1 (List.all_eq_true.1 hall name hname) c hc
  simpa using hchar

theorem keepLast_of_nodup {env : List String} (h : (env.map envKey).Nodup) : keepLast env = env := by
  induction env with
  | nil => rfl
  | cons kv rest ih =>
      rw [List.map_cons, List.nodup_cons] at h
      have hlast : (rest.any fun later => envKey later = envKey kv) = false := by
        rw [List.any_eq_false]
        intro later hlater hkey
        exact h.1 (of_decide_eq_true hkey ▸ List.mem_map_of_mem hlater)
      rw [keepLast, hlast, ih h.2]
      rfl

theorem filter_key_of_nodup {env : List String} (h : (env.map envKey).Nodup) {entry : String} (hmem : entry ∈ env) :
    (env.filter fun kv => envKey kv = envKey entry) = [entry] := by
  induction env with
  | nil => exact absurd hmem List.not_mem_nil
  | cons kv rest ih =>
      rw [List.map_cons, List.nodup_cons] at h
      rcases List.mem_cons.1 hmem with rfl | hmem
      · have hrest : (rest.filter fun kv => envKey kv = envKey entry) = [] := by
          rw [List.filter_eq_nil_iff]
          intro later hlater hkey
          exact h.1 (of_decide_eq_true hkey ▸ List.mem_map_of_mem hlater)
        rw [List.filter_cons, hrest]
        simp
      · have hne : ¬ envKey kv = envKey entry := fun hkey => h.1 (hkey ▸ List.mem_map_of_mem hmem)
        rw [List.filter_cons, if_neg (by simpa using hne), ih h.2 hmem]

theorem reserved_eq_allowlist : reservedSecretEnvVars = subprocessEnvAllowlist := rfl

-- The keys of the agent's own entries are those of the allowlist, some left out.
theorem ambient_keys (lookup : String → Option String) {names : List String}
    (hplain : ∀ name ∈ names, ∀ c ∈ name.toList, c ≠ '=') :
    ((names.filterMap fun name => (lookup name).map fun v => name ++ "=" ++ v).map envKey).Sublist
      (names.map String.toList) := by
  induction names with
  | nil => exact .slnil
  | cons name names ih =>
      have hrest := ih fun n hn => hplain n (List.mem_cons_of_mem name hn)
      rw [List.filterMap_cons, List.map_cons]
      cases lookup name with
      | none => exact hrest.cons _
      | some v =>
          rw [Option.map_some, List.map_cons, envKey_entry (hplain name List.mem_cons_self)]
          exact hrest.cons_cons _

theorem secret_keys {values : List BuildSecretValue} {resolved : List ResolvedBuildSecret}
    (h : ∀ s ∈ resolved, Resolved values s) :
    (resolved.map fun s => s.envVar ++ "=" ++ s.value).map envKey =
      (resolved.map ResolvedBuildSecret.envVar).map String.toList := by
  rw [List.map_map, List.map_map]
  exact List.map_congr_left fun s hs => envKey_entry (plain_of_pattern (h s hs).pattern) s.value

theorem subprocessEnv_nodup (host : BuildHost) {values : List BuildSecretValue} {resolved : List ResolvedBuildSecret}
    (h : ∀ s ∈ resolved, Resolved values s) (hnodup : (resolved.map ResolvedBuildSecret.envVar).Nodup) :
    ((subprocessEnv host (resolved.map fun s => s.envVar ++ "=" ++ s.value)).map envKey).Nodup := by
  have hinj : Function.Injective String.toList := fun _ _ => String.toList_inj.1
  have hambient := ambient_keys host.lookupEnv plain_allowlist
  have hallowlist : subprocessEnvAllowlist.Nodup := by decide +kernel
  rw [subprocessEnv, List.map_append, secret_keys h]
  refine List.Nodup.append ((hallowlist.map hinj).sublist hambient) (hnodup.map hinj) fun key hkey hsecret => ?_
  obtain ⟨name, hname, rfl⟩ := List.mem_map.1 (hambient.subset hkey)
  obtain ⟨other, hother, heq⟩ := List.mem_map.1 hsecret
  obtain ⟨s, hs, rfl⟩ := List.mem_map.1 hother
  have hreserved := (h s hs).unreserved
  rw [hinj heq, reserved_eq_allowlist] at hreserved
  exact hreserved hname

-- A subprocess that is started.
structure Launched (host : BuildHost) (labels : Labels) (bindings : List BuildSecretBinding)
    (values : List BuildSecretValue) (p : Subprocess) : Prop where
  specs : secretSpecs p.argv = secretSpecsFrom 0 (sortedNames bindings)
  delivered : ∀ name ∈ bindings.map BuildSecretBinding.variableName, ∃ v, valueOf values name = some v ∧
    (p.env.filter fun kv => envKey kv = name.toList) = [name ++ "=" ++ v]
  unlisted : ∀ name ∈ bindings.map BuildSecretBinding.variableName, name ∉ subprocessEnvAllowlist

theorem launchBuild_eq_ok {host : BuildHost} {labels : Labels} {bindings : List BuildSecretBinding}
    {values : List BuildSecretValue} {p : Subprocess}
    (hnodup : (bindings.map BuildSecretBinding.variableName).Nodup)
    (h : launchBuild host labels bindings values = .ok p) : Launched host labels bindings values p := by
  simp only [launchBuild, dedupEnv, bind_eq_ok, pure_eq_ok] at h
  obtain ⟨resolved, hresolve, _, -, dockerfile, -, metaDir, -, env, ⟨_, -, henv⟩, rfl⟩ := h
  obtain ⟨hnames, hspecs, hresolved⟩ := resolveBuildSecrets_eq_ok hresolve
  have hperm := sortedNames_perm bindings
  have hkeys := subprocessEnv_nodup host hresolved (by rw [hnames]; exact hperm.nodup_iff.2 hnodup)
  -- Every variable asked for was resolved.
  have hmem {name : String} (hname : name ∈ bindings.map BuildSecretBinding.variableName) :
      ∃ s ∈ resolved, s.envVar = name := by
    rw [← hperm.mem_iff, ← hnames] at hname
    exact List.mem_map.1 hname
  refine ⟨?_, fun name hname => ?_, fun name hname => ?_⟩
  · rw [secretSpecs_argv, hspecs]
  · obtain ⟨s, hs, rfl⟩ := hmem hname
    have hentry : s.envVar ++ "=" ++ s.value ∈
        subprocessEnv host (resolved.map fun s => s.envVar ++ "=" ++ s.value) :=
      List.mem_append_right _ (List.mem_map_of_mem (f := fun s => s.envVar ++ "=" ++ s.value) hs)
    have hkey := envKey_entry (plain_of_pattern (hresolved s hs).pattern) s.value
    refine ⟨s.value, (hresolved s hs).value, ?_⟩
    have hfilter := filter_key_of_nodup hkeys hentry
    rw [hkey] at hfilter
    have hpassed : subprocessEnv host (resolved.map fun s => s.envVar ++ "=" ++ s.value) = env :=
      (keepLast_of_nodup hkeys).symm.trans henv
    rw [hpassed] at hfilter
    exact hfilter
  · obtain ⟨s, hs, rfl⟩ := hmem hname
    exact (hresolved s hs).unreserved

-- Which values it was does not show in the arguments.
theorem launchBuild_argv {host : BuildHost} {labels : Labels} {bindings : List BuildSecretBinding}
    {values values' : List BuildSecretValue} {p p' : Subprocess} (h : launchBuild host labels bindings values = .ok p)
    (h' : launchBuild host labels bindings values' = .ok p') : p.argv = p'.argv := by
  simp only [launchBuild, bind_eq_ok, pure_eq_ok, found_eq_ok] at h h'
  obtain ⟨resolved, hresolve, _, -, dockerfile, hdockerfile, metaDir, hmetaDir, env, -, rfl⟩ := h
  obtain ⟨resolved', hresolve', _, -, dockerfile', hdockerfile', metaDir', hmetaDir', env', -, rfl⟩ := h'
  cases hdockerfile.symm.trans hdockerfile'
  cases hmetaDir.symm.trans hmetaDir'
  obtain ⟨-, hspecs, -⟩ := resolveBuildSecrets_eq_ok hresolve
  obtain ⟨-, hspecs', -⟩ := resolveBuildSecrets_eq_ok hresolve'
  show _ :: _ = _ :: _
  rw [buildxArgv_congr dockerfile labels _ (hspecs.trans hspecs'.symm)]

end AutoDeploy.Docker
