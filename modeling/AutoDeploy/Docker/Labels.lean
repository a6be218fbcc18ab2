import AutoDeploy.Traefik

namespace AutoDeploy.Docker

open Lib Lib.Result

def labelSchemaVersion : String := "v1"

inductive Label where
  | managed
  | schemaVersion
  | kind
  | ownerID
  | projectID
  | environmentID
  | serverID
  | deploymentID
  | releaseID
  | jobID
  | attemptID
  | fenceID
  | runtimeInstanceID
  | commitSHA
  | imageDigest
  | configDigest
  | sourceDigest
  | buildOperationID
deriving DecidableEq, Repr

def Label.text : Label → String
  | .managed => "io.autodeploy.managed"
  | .schemaVersion => "io.autodeploy.label-schema"
  | .kind => "io.autodeploy.kind"
  | .ownerID => "io.autodeploy.owner-id"
  | .projectID => "io.autodeploy.project-id"
  | .environmentID => "io.autodeploy.environment-id"
  | .serverID => "io.autodeploy.server-id"
  | .deploymentID => "io.autodeploy.deployment-id"
  | .releaseID => "io.autodeploy.release-id"
  | .jobID => "io.autodeploy.job-id"
  | .attemptID => "io.autodeploy.attempt-id"
  | .fenceID => "io.autodeploy.fence-id"
  | .runtimeInstanceID => "io.autodeploy.runtime-instance-id"
  | .commitSHA => "io.autodeploy.commit-sha"
  | .imageDigest => "io.autodeploy.image-digest"
  | .configDigest => "io.autodeploy.config-digest"
  | .sourceDigest => "io.autodeploy.source-digest"
  | .buildOperationID => "io.autodeploy.build-operation-id"

inductive Kind where
  | releaseRuntimeContainer
  | builtImage
deriving DecidableEq, Repr

def Kind.text : Kind → String
  | .releaseRuntimeContainer => "release-runtime-container"
  | .builtImage => "built-image"

inductive LabelError where
  | missing (field : String)
  | invalid (field : String)
deriving DecidableEq, Repr

def isLowerHex (c : Char) : Bool := Text.isDigit c || (decide ('a' ≤ c) && decide (c ≤ 'f'))

-- `^[a-f0-9]{n}$`
def hexText (n : Nat) (s : List Char) : Bool := decide (s.length = n) && s.all isLowerHex

-- `^(sha256:)?[a-f0-9]{64}$`
def hexDigestPattern (s : String) : Bool :=
  hexText 64 s.toList || (decide (s.toList.take 7 = "sha256:".toList) && hexText 64 (s.toList.drop 7))

def commitSHAPattern (s : String) : Bool := hexText 40 s.toList

def requirePattern (pattern : String → Bool) (field value : String) : Except LabelError String := do
  require (value ≠ "") (.missing field)
  require (pattern value) (.invalid field)
  pure value

def requireOpaqueID : String → String → Except LabelError String := requirePattern (Text.opaqueName 127)

def requireHexDigest : String → String → Except LabelError String := requirePattern hexDigestPattern

def requireCommitSHA : String → String → Except LabelError String := requirePattern commitSHAPattern

structure LabelField where
  key : Label
  value : String
  validate : String → String → Except LabelError String

-- The labels of a resource, first entry first; no key is entered twice.
abbrev Labels := List (String × String)

def kindLabels (kind : Kind) : Labels :=
  [(Label.managed.text, "true"), (Label.schemaVersion.text, labelSchemaVersion), (Label.kind.text, kind.text)]

def LabelField.build (f : LabelField) : Except LabelError (String × String) := do
  let v ← f.validate f.key.text f.value
  pure (f.key.text, v)

def buildLabels (kind : Kind) (fields : List LabelField) : Except LabelError Labels := do
  let built ← fields.mapM LabelField.build
  pure (kindLabels kind ++ built)

structure ReleaseResourceIdentity where
  ownerID : String
  projectID : String
  environmentID : String
  serverID : String
  deploymentID : String
  releaseID : String
  jobID : String
  attemptID : String
  fenceID : String
  runtimeInstanceID : String
  commitSHA : String
  imageDigest : String
  configDigest : String
deriving DecidableEq, Repr

def ReleaseResourceIdentity.fields (id : ReleaseResourceIdentity) : List LabelField :=
  [⟨.ownerID, id.ownerID, requireOpaqueID⟩, ⟨.projectID, id.projectID, requireOpaqueID⟩,
    ⟨.environmentID, id.environmentID, requireOpaqueID⟩, ⟨.serverID, id.serverID, requireOpaqueID⟩,
    ⟨.deploymentID, id.deploymentID, requireOpaqueID⟩, ⟨.releaseID, id.releaseID, requireOpaqueID⟩,
    ⟨.jobID, id.jobID, requireOpaqueID⟩, ⟨.attemptID, id.attemptID, requireOpaqueID⟩,
    ⟨.fenceID, id.fenceID, requireOpaqueID⟩, ⟨.runtimeInstanceID, id.runtimeInstanceID, requireOpaqueID⟩,
    ⟨.commitSHA, id.commitSHA, requireCommitSHA⟩, ⟨.imageDigest, id.imageDigest, requireHexDigest⟩,
    ⟨.configDigest, id.configDigest, requireHexDigest⟩]

def releaseRuntimeContainerLabels (id : ReleaseResourceIdentity) : Except LabelError Labels :=
  buildLabels .releaseRuntimeContainer id.fields

def releaseRuntimeContainerSelector (id : ReleaseResourceIdentity) : Except LabelError Labels :=
  buildLabels .releaseRuntimeContainer id.fields

structure BuiltImageIdentity where
  ownerID : String
  projectID : String
  sourceDigest : String
  buildOperationID : String
deriving DecidableEq, Repr

def BuiltImageIdentity.fields (id : BuiltImageIdentity) : List LabelField :=
  [⟨.ownerID, id.ownerID, requireOpaqueID⟩, ⟨.projectID, id.projectID, requireOpaqueID⟩,
    ⟨.sourceDigest, id.sourceDigest, requireHexDigest⟩, ⟨.buildOperationID, id.buildOperationID, requireOpaqueID⟩]

def builtImageLabels (id : BuiltImageIdentity) : Except LabelError Labels := buildLabels .builtImage id.fields

-- A value passes its check as it is: nothing is rewritten on the way into a label.
theorem requirePattern_eq_ok {pattern : String → Bool} {field value v : String}
    (h : requirePattern pattern field value = .ok v) : v = value := by
  simp only [requirePattern, bind_eq_ok, pure_eq_ok] at h
  obtain ⟨_, -, _, -, rfl⟩ := h
  rfl

def LabelField.pair (f : LabelField) : String × String := (f.key.text, f.value)

def LabelField.Verbatim (f : LabelField) : Prop := ∀ v, f.validate f.key.text f.value = .ok v → v = f.value

theorem build_eq_ok {f : LabelField} {entry : String × String} (hverbatim : f.Verbatim) (h : f.build = .ok entry) :
    entry = f.pair := by
  simp only [LabelField.build, bind_eq_ok, pure_eq_ok] at h
  obtain ⟨v, hv, rfl⟩ := h
  rw [hverbatim v hv]
  rfl

theorem mapM_build_eq_ok {fields : List LabelField} {built : Labels} (hverbatim : ∀ f ∈ fields, f.Verbatim)
    (h : fields.mapM LabelField.build = .ok built) : built = fields.map LabelField.pair := by
  induction fields generalizing built with
  | nil =>
      simp only [List.mapM_nil, pure_eq_ok] at h
      exact h.symm
  | cons f fields ih =>
      simp only [List.mapM_cons, bind_eq_ok, pure_eq_ok] at h
      obtain ⟨entry, hentry, rest, hrest, rfl⟩ := h
      rw [build_eq_ok (hverbatim f List.mem_cons_self) hentry,
        ih (fun g hg => hverbatim g (List.mem_cons_of_mem f hg)) hrest, List.map_cons]

theorem buildLabels_eq_ok {kind : Kind} {fields : List LabelField} {labels : Labels}
    (hverbatim : ∀ f ∈ fields, f.Verbatim) (h : buildLabels kind fields = .ok labels) :
    labels = kindLabels kind ++ fields.map LabelField.pair := by
  simp only [buildLabels, bind_eq_ok, pure_eq_ok] at h
  obtain ⟨built, hbuilt, rfl⟩ := h
  rw [mapM_build_eq_ok hverbatim hbuilt]

theorem release_verbatim (id : ReleaseResourceIdentity) : ∀ f ∈ id.fields, f.Verbatim := by
  simp only [ReleaseResourceIdentity.fields, List.mem_cons, List.not_mem_nil, or_false, forall_eq_or_imp, forall_eq,
    LabelField.Verbatim, requireOpaqueID, requireHexDigest, requireCommitSHA]
  exact ⟨fun _ => requirePattern_eq_ok, fun _ => requirePattern_eq_ok, fun _ => requirePattern_eq_ok,
    fun _ => requirePattern_eq_ok, fun _ => requirePattern_eq_ok, fun _ => requirePattern_eq_ok,
    fun _ => requirePattern_eq_ok, fun _ => requirePattern_eq_ok, fun _ => requirePattern_eq_ok,
    fun _ => requirePattern_eq_ok, fun _ => requirePattern_eq_ok, fun _ => requirePattern_eq_ok,
    fun _ => requirePattern_eq_ok⟩

-- The labels of an identity.
def identityLabels (id : ReleaseResourceIdentity) : Labels :=
  kindLabels .releaseRuntimeContainer ++ id.fields.map LabelField.pair

theorem releaseRuntimeContainerLabels_eq_ok {id : ReleaseResourceIdentity} {labels : Labels}
    (h : releaseRuntimeContainerLabels id = .ok labels) : labels = identityLabels id :=
  buildLabels_eq_ok (release_verbatim id) h

-- A container found by a selector has each of its labels.
def Carries (labels selector : Labels) : Prop := ∀ entry ∈ selector, labels.lookup entry.1 = some entry.2

instance (labels selector : Labels) : Decidable (Carries labels selector) := by
  unfold Carries
  infer_instance

def releaseKeys : List String := (identityLabels ⟨"", "", "", "", "", "", "", "", "", "", "", "", ""⟩).map Prod.fst

theorem identityLabels_keys (id : ReleaseResourceIdentity) : (identityLabels id).map Prod.fst = releaseKeys := rfl

theorem releaseKeys_nodup : releaseKeys.Nodup := by decide +kernel

theorem lookup_of_mem {labels : Labels} (hnodup : (labels.map Prod.fst).Nodup) {entry : String × String}
    (hmem : entry ∈ labels) (inherited : Labels) : (labels ++ inherited).lookup entry.1 = some entry.2 := by
  induction labels with
  | nil => exact absurd hmem List.not_mem_nil
  | cons first rest ih =>
      obtain ⟨key, value⟩ := first
      rw [List.map_cons, List.nodup_cons] at hnodup
      rw [List.cons_append]
      rcases List.mem_cons.1 hmem with rfl | hmem
      · rw [List.lookup_cons_self]
      · have hne : (entry.1 == key) = false := by
          rw [beq_eq_false_iff_ne]
          intro heq
          have hkey : entry.1 ∈ rest.map Prod.fst := List.mem_map_of_mem hmem
          rw [heq] at hkey
          exact hnodup.1 hkey
        rw [List.lookup_cons, hne]
        exact ih hnodup.2 hmem

-- What was created with an identity's labels carries them, whatever labels its image adds.
theorem identityLabels_carried (id : ReleaseResourceIdentity) (inherited : Labels) :
    Carries (identityLabels id ++ inherited) (identityLabels id) :=
  fun _ hentry => lookup_of_mem (by rw [identityLabels_keys]; exact releaseKeys_nodup) hentry inherited

-- No labels carry two identities.
theorem carries_unique {labels : Labels} {id other : ReleaseResourceIdentity} (h : Carries labels (identityLabels id))
    (hother : Carries labels (identityLabels other)) : id = other := by
  simp only [Carries, identityLabels, kindLabels, ReleaseResourceIdentity.fields, LabelField.pair, List.map_cons,
    List.map_nil, List.cons_append, List.nil_append, List.mem_cons, List.not_mem_nil, or_false, forall_eq_or_imp,
    forall_eq] at h hother
  obtain ⟨-, -, -, h⟩ := h
  obtain ⟨-, -, -, hother⟩ := hother
  cases id
  cases other
  simp_all only [Option.some.injEq]

end AutoDeploy.Docker
