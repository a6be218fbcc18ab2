import AutoDeploy.Secret.History
import AutoDeploy.Store.Report
import AutoDeploy.Store.Bindings
import AutoDeploy.Agent.Post
import AutoDeploy.Lib.Json

namespace AutoDeploy.Secret

open Lib Lib.Result Crypto

-- How a frozen version becomes a value on the agent: the authorization, the decryption, the response and its reader.

structure AuthorizationRequest where
  scope : Scope
  versionID : Bytes
  actorID : Bytes
  serviceID : Bytes
  deploymentID : Bytes
  leaseID : Bytes
  frozen : Bool
deriving DecidableEq, Repr

structure AuthorizationKey where
  scope : Scope
  versionID : Bytes
deriving DecidableEq, Repr

-- `SetAuthorizer`: exactly the keys it was built with.
def authorizeSecret (allowed : List AuthorizationKey) (r : AuthorizationRequest) : Bool :=
  allowed.contains ⟨r.scope, r.versionID⟩

def AuthorizationRequest.valid (r : AuthorizationRequest) (auditID : Bytes) : Bool :=
  validScope r.scope && validID r.versionID && validID auditID &&
    ((validID r.actorID && r.serviceID == []) || (validID r.serviceID && r.actorID == []))

def AuthorizationRequest.audit (r : AuthorizationRequest) (auditID : Bytes) (v : Version) (result : Outcome) : Audit where
  id := auditID
  ownerID := r.scope.ownerID
  secretID := r.scope.secretID
  versionID := v.id
  action := .materialized
  actorID := r.actorID
  serviceID := r.serviceID
  deploymentID := r.deploymentID
  leaseID := r.leaseID
  result := result
  oldVersionID := []
  kekID := v.envelope.kekID

-- An audit row of a refusal or a failure is not missed when it cannot be written.
def noteAudit (db : DB) (a : Audit) : DB :=
  match appendMaterializationAudit db a with
  | .ok db' => db'
  | .error _ => db

def materializeAuthorized (cipher : Cipher) (provider : KeyProvider) (allowed : List AuthorizationKey) (db : DB)
    (r : AuthorizationRequest) (auditID : Bytes) : Except ServiceError Bytes × DB :=
  if !r.valid auditID then (.error .invalidInput, db)
  else
    match getVersion db r.scope r.versionID with
    | .error _ => (.error (if authorizeSecret allowed r then .corrupt else .unauthorized), db)
    | .ok v =>
        if !authorizeSecret allowed r then
          (.error .unauthorized,
            if v.id = r.versionID ∧ v.scope = r.scope then noteAudit db (r.audit auditID v .denied) else db)
        else if v.id ≠ r.versionID ∨ v.scope ≠ r.scope then (.error .corrupt, db)
        else if v.state ≠ .active ∧ ¬ (r.frozen = true ∧ v.state = .superseded) then (.error .corrupt, db)
        else
          match decrypt cipher provider (cryptoScope v.scope v.id) v.envelope with
          | .error _ => (.error .corrupt, noteAudit db (r.audit auditID v .failed))
          | .ok plaintext =>
              match appendMaterializationAudit db (r.audit auditID v .success) with
              | .error _ => (.error .corrupt, db)
              | .ok db' => (.ok plaintext, db')

-- A row of the frozen set as the handler gets it.
structure FrozenSecretReference where
  variableName : Bytes
  deliveryScope : Bytes
  secretVersionID : Bytes
  secretID : Bytes
  purpose : Bytes
deriving DecidableEq, Repr

structure MaterializationAuthorization where
  attemptID : Nat
  fence : Nat
  ownerID : Bytes
  projectID : Bytes
  environmentID : Bytes
  deploymentID : Bytes
  secrets : List FrozenSecretReference
deriving DecidableEq, Repr

-- A frozen variable rechecked against the stored version; `none` is a row the join drops.
def frozenReference (db : DB) (ownerID projectID environmentID : Bytes) (b : Store.FrozenBinding) :
    Except Error (Option FrozenSecretReference) :=
  match db.versions.get? (Bytes.ofString b.secretVersionID) with
  | none => pure none
  | some row =>
      match db.heads.get? row.secretID with
      | none => pure none
      | some head => do
          require (row.state ≠ .revoked) (.sentinel .serverAuthorizationDenied)
          require (row.ownerID = ownerID ∧ row.projectID = projectID ∧ row.environmentID = environmentID ∧
            head.deliveryScope = Bytes.ofString b.deliveryScope.text) (.sentinel .serverAuthorizationDenied)
          pure (some ⟨Bytes.ofString b.variableName, Bytes.ofString b.deliveryScope.text,
            Bytes.ofString b.secretVersionID, row.secretID, head.purpose⟩)

def frozenReferences (db : DB) (ownerID projectID environmentID : Bytes) :
    List Store.FrozenBinding → Except Error (List FrozenSecretReference)
  | [] => pure []
  | b :: rest => do
      let reference ← frozenReference db ownerID projectID environmentID b
      let references ← frozenReferences db ownerID projectID environmentID rest
      pure (reference.toList ++ references)

-- The lease is checked as `Store.authorizeMaterialization` does; the secrets are the rows of this store.
def authorizeMaterialization (now : Nat) (store : Store.DB) (db : DB) (serverID : String) (presented : Digest)
    (attemptID fence : Nat) : Except Error MaterializationAuthorization := do
  let l ← Store.authorizeLease now store "materialization" serverID presented attemptID fence
  let ownerID := Bytes.ofString l.job.ownerID
  let projectID := Bytes.ofString l.job.projectID
  let environmentID := Bytes.ofString l.attempt.environmentID
  let secrets ← frozenReferences db ownerID projectID environmentID ((store.frozenBindings.get? attemptID).getD [])
  pure ⟨attemptID, fence, ownerID, projectID, environmentID, Bytes.ofString l.job.deploymentID, secrets⟩

namespace MaterializationAuthorization

def scope (a : MaterializationAuthorization) (ref : FrozenSecretReference) : Scope :=
  ⟨a.ownerID, a.projectID, a.environmentID, ref.secretID, ref.purpose, ref.deliveryScope⟩

def keys (a : MaterializationAuthorization) : List AuthorizationKey :=
  a.secrets.map fun ref => ⟨a.scope ref, ref.secretVersionID⟩

def leaseIdentifier (a : MaterializationAuthorization) : Bytes :=
  Bytes.ofString ("attempt-" ++ toString a.attemptID ++ "-fence-" ++ toString a.fence)

def request (a : MaterializationAuthorization) (serverID : String) (ref : FrozenSecretReference) :
    AuthorizationRequest where
  scope := a.scope ref
  versionID := ref.secretVersionID
  actorID := []
  serviceID := Bytes.ofString serverID
  deploymentID := a.deploymentID
  leaseID := a.leaseIdentifier
  frozen := true

end MaterializationAuthorization

-- One value as the response carries it and as the agent keeps it.
structure MaterializedSecret where
  variableName : Bytes
  deliveryScope : Bytes
  value : Bytes
deriving DecidableEq, Repr

def materializationAuditID (raw : Bytes) : Bytes :=
  Bytes.ofString "materialize-" ++ Bytes.ofString (String.ofList (Bytes.toHex raw))

-- The loop of the handler, from its `i`-th value on. `draws` are the random bytes of the audit ids. The first value
-- that cannot be had ends it.
def materializeAll (cipher : Cipher) (provider : KeyProvider) (a : MaterializationAuthorization) (serverID : String)
    (draws : Nat → Option Bytes) : Nat → DB → List FrozenSecretReference →
      Except (Nat × String) (List MaterializedSecret) × DB
  | _, db, [] => (.ok [], db)
  | i, db, ref :: refs =>
      match draws i with
      | none => (.error (500, "internal_error"), db)
      | some raw =>
          match materializeAuthorized cipher provider a.keys db (a.request serverID ref) (materializationAuditID raw) with
          | (.error _, db) => (.error (401, "unauthorized"), db)
          | (.ok plaintext, db) =>
              match materializeAll cipher provider a serverID draws (i + 1) db refs with
              | (.error e, db) => (.error e, db)
              | (.ok values, db) => (.ok (⟨ref.variableName, ref.deliveryScope, plaintext⟩ :: values), db)

def variableNameKey : Bytes := Bytes.ofString "variable_name"

def deliveryScopeKey : Bytes := Bytes.ofString "delivery_scope"

def valueKey : Bytes := Bytes.ofString "value"

def secretsKey : Bytes := Bytes.ofString "secrets"

def MaterializedSecret.view (s : MaterializedSecret) : Json :=
  .obj [(variableNameKey, .str s.variableName), (deliveryScopeKey, .str s.deliveryScope), (valueKey, .str s.value)]

def materializeResponse (values : List MaterializedSecret) : Json :=
  .obj [(secretsKey, .arr (values.map MaterializedSecret.view))]

def statusOf : Store.Answer → Nat × String
  | .retry => (503, "service_unavailable")
  | .refuse code => (if code = "unauthorized" then 401 else if code = "invalid_request" then 400 else 409, code)

-- The control plane when a request is served. `ring` is the key ring of its environment, when that can be read.
structure Situation where
  now : Nat
  store : Store.DB
  world : World
  ring : Option KeyProvider
  draws : Nat → Option Bytes

def refused (answer : Nat × String) : Agent.Reply Bytes := .refused answer.1 answer.2

def handleMaterializeSecrets (s : Situation) (serverID : String) (digest : Digest) (attemptID fence : Nat) :
    Agent.Reply Bytes × DB :=
  if !Store.validOpaqueID serverID then (.refused 401 "unauthorized", s.world.db)
  else if attemptID = 0 ∨ fence = 0 then (.refused 400 "invalid_request", s.world.db)
  else
    match authorizeMaterialization s.now s.store s.world.db serverID digest attemptID fence with
    | .error e => (refused (statusOf (Store.mapError e)), s.world.db)
    | .ok a =>
        match s.ring with
        | none => (.refused 503 "service_unavailable", s.world.db)
        | some provider =>
            match materializeAll s.world.vault.cipher provider a serverID s.draws 0 s.world.db a.secrets with
            | (.error e, db) => (refused e, db)
            | (.ok values, db) => (.ok (materializeResponse values).render, db)

-- Audit rows are all that a materialization writes.
structure Audited (db db' : DB) : Prop where
  heads : db'.heads = db.heads
  versions : db'.versions = db.versions

theorem Audited.trans {db₁ db₂ db₃ : DB} (h₁ : Audited db₁ db₂) (h₂ : Audited db₂ db₃) : Audited db₁ db₃ :=
  ⟨h₂.heads.trans h₁.heads, h₂.versions.trans h₁.versions⟩

theorem Audited.getVersion {db db' : DB} (h : Audited db db') (scope : Scope) (versionID : Bytes) :
    Secret.getVersion db' scope versionID = Secret.getVersion db scope versionID := by
  simp only [Secret.getVersion, h.heads, h.versions]

theorem getVersion_eq_ok {db : DB} {scope : Scope} {versionID : Bytes} {v : Version} (hid : versionID ≠ [])
    (h : getVersion db scope versionID = .ok v) :
    ∃ row head, db.versions.get? versionID = some row ∧ db.heads.get? row.secretID = some head ∧
      v = row.version versionID head := by
  simp only [getVersion, hid, if_false, bind_eq_ok, require_eq_ok, found_eq_ok, pure_eq_ok, Option.some.injEq] at h
  obtain ⟨head, hhead, _, _, _, rfl, row, hrow, _, hsecret, _, ⟨_, hscope, _⟩, rfl⟩ := h
  refine ⟨row, head, hrow, by rw [hsecret]; exact hhead, ?_⟩
  rw [← hscope]

-- An envelope decrypts to what it holds and to nothing else.
theorem decrypt_of_carries {vault : Vault} (hvault : vault.Sound) {provider : KeyProvider} {scope scope' : Crypto.Scope}
    {envelope : Envelope} {plaintext plaintext' : Bytes} (hcarries : vault.Carries scope plaintext envelope)
    (h : decrypt vault.cipher provider scope' envelope = .ok plaintext') : plaintext' = plaintext := by
  obtain ⟨w, _, value, hat, rfl, _, rfl⟩ := hcarries
  obtain ⟨w', _, value', hat', hsame, _, _, rfl⟩ := hvault.decrypt_iff.1 h
  have hciphertext : value.ciphertext = value'.ciphertext := congrArg Envelope.ciphertext hsame
  have hsealing := hvault.distinct.eq_of_ciphertext (hvault.value_sealed value (List.mem_of_getElem? hat))
    (hvault.value_sealed value' (List.mem_of_getElem? hat')) hciphertext
  rw [hvault.value_unique (List.mem_of_getElem? hat) (List.mem_of_getElem? hat') (congrArg Sealing.key hsealing)]

-- What was given to the create or the replace that made a version.
def World.given (w : World) (versionID : Bytes) : Bytes :=
  ((w.commits.find? fun c => c.mutation.version.id == versionID).map Commit.plaintext).getD []

theorem World.Recorded.given_eq {w : World} (hw : w.Recorded) {c : Commit} (hc : c ∈ w.commits) :
    w.given c.mutation.version.id = c.plaintext := by
  cases hfound : w.commits.find? fun c' => c'.mutation.version.id == c.mutation.version.id with
  | none =>
      have hnone := List.find?_eq_none.1 hfound c hc
      simp at hnone
  | some c' =>
      have hid := List.find?_some hfound
      rw [beq_iff_eq] at hid
      rw [World.given, hfound, List.inj_on_of_nodup_map hw.ids (List.mem_of_find?_eq_some hfound) hc hid]
      rfl

-- A materialization that succeeds gives the bytes of the commit, and only adds to the audit.
theorem materializeAuthorized_eq_ok {w : World} (hw : secretSystem.Reachable w) {provider : KeyProvider}
    {allowed : List AuthorizationKey} {db db' : DB} (hdb : Audited w.db db) {r : AuthorizationRequest}
    {auditID plaintext : Bytes}
    (h : materializeAuthorized w.vault.cipher provider allowed db r auditID = (.ok plaintext, db')) :
    plaintext = w.given r.versionID ∧ Audited w.db db' := by
  have hintact := World.Intact.of_reachable hw
  have hrecorded := World.Recorded.of_reachable hw
  unfold materializeAuthorized at h
  split at h
  · cases h
  rename_i hvalid
  split at h
  · cases h
  rename_i v hversion
  split at h
  · cases h
  split at h
  · cases h
  rename_i hsame
  split at h
  · cases h
  split at h
  · cases h
  rename_i text hdecrypt
  split at h
  · cases h
  rename_i written haudit
  obtain ⟨rfl, rfl⟩ : text = plaintext ∧ written = db' := by simpa using h
  have hid : r.versionID ≠ [] := by
    simp only [AuthorizationRequest.valid, validID, Bool.not_eq_true', Bool.not_eq_false, Bool.and_eq_true,
      decide_eq_true_eq] at hvalid
    exact hvalid.1.1.2.1
  rw [hdb.getVersion] at hversion
  obtain ⟨row, head, hrow, hhead, rfl⟩ := getVersion_eq_ok hid hversion
  obtain ⟨c, hc, hcommit, hcarries⟩ := hintact.stored r.versionID row head hrow hhead
  constructor
  · rw [decrypt_of_carries hintact.sound hcarries hdecrypt, ← hcommit, hrecorded.given_eq hc]
  · obtain ⟨_, _, _, _, rfl⟩ := appendMaterializationAudit_eq_ok haudit
    exact ⟨hdb.heads, hdb.versions⟩

theorem materializeAll_eq_ok {w : World} (hw : secretSystem.Reachable w) {provider : KeyProvider}
    {a : MaterializationAuthorization} {serverID : String} {draws : Nat → Option Bytes} {i : Nat} {db db' : DB}
    (hdb : Audited w.db db) {refs : List FrozenSecretReference} {values : List MaterializedSecret}
    (h : materializeAll w.vault.cipher provider a serverID draws i db refs = (.ok values, db')) :
    values = refs.map fun ref => ⟨ref.variableName, ref.deliveryScope, w.given ref.secretVersionID⟩ := by
  induction refs generalizing i db values with
  | nil =>
      cases h
      rfl
  | cons ref refs ih =>
      rw [materializeAll] at h
      split at h
      · cases h
      rename_i raw hraw
      split at h
      · cases h
      rename_i plaintext db₁ hone
      split at h
      · cases h
      rename_i rest db₂ hall
      obtain ⟨rfl, rfl⟩ := Prod.mk.inj h |>.imp_left Except.ok.inj
      obtain ⟨hplaintext, hdb₁⟩ := materializeAuthorized_eq_ok hw hdb hone
      rw [ih hdb₁ hall, hplaintext]
      rfl

-- What the agent should have of a frozen variable.
def World.delivered (w : World) (b : Store.FrozenBinding) : MaterializedSecret :=
  ⟨Bytes.ofString b.variableName, Bytes.ofString b.deliveryScope.text, w.given (Bytes.ofString b.secretVersionID)⟩

-- The foreign key of the frozen set.
def Referenced (db : DB) (frozen : List Store.FrozenBinding) : Prop :=
  ∀ b ∈ frozen, ∃ row, db.versions.get? (Bytes.ofString b.secretVersionID) = some row

theorem frozenReferences_eq_ok {db : DB} (hdb : db.Consistent) {ownerID projectID environmentID : Bytes}
    {frozen : List Store.FrozenBinding} (hfrozen : Referenced db frozen) {refs : List FrozenSecretReference}
    (h : frozenReferences db ownerID projectID environmentID frozen = .ok refs) :
    List.Forall₂ (fun b ref => ref.variableName = Bytes.ofString b.variableName ∧
      ref.deliveryScope = Bytes.ofString b.deliveryScope.text ∧
      ref.secretVersionID = Bytes.ofString b.secretVersionID) frozen refs := by
  induction frozen generalizing refs with
  | nil =>
      obtain rfl := pure_eq_ok.1 h
      exact .nil
  | cons b rest ih =>
      simp only [frozenReferences, bind_eq_ok, pure_eq_ok] at h
      obtain ⟨reference, hreference, references, hreferences, rfl⟩ := h
      obtain ⟨row, hrow⟩ := hfrozen b List.mem_cons_self
      obtain ⟨head, hhead⟩ := hdb.owned _ row hrow
      simp only [frozenReference, hrow, hhead, bind_eq_ok, require_eq_ok, pure_eq_ok] at hreference
      obtain ⟨_, _, _, _, rfl⟩ := hreference
      exact .cons ⟨rfl, rfl, rfl⟩ (ih (fun b hb => hfrozen b (List.mem_cons_of_mem _ hb)) hreferences)

theorem map_of_references {w : World} {frozen : List Store.FrozenBinding} {refs : List FrozenSecretReference}
    (h : List.Forall₂ (fun b ref => ref.variableName = Bytes.ofString b.variableName ∧
      ref.deliveryScope = Bytes.ofString b.deliveryScope.text ∧
      ref.secretVersionID = Bytes.ofString b.secretVersionID) frozen refs) :
    (refs.map fun ref => MaterializedSecret.mk ref.variableName ref.deliveryScope (w.given ref.secretVersionID)) =
      frozen.map w.delivered := by
  induction h with
  | nil => rfl
  | cons hone _ ih =>
      obtain ⟨hname, hscope, hversion⟩ := hone
      rw [List.map_cons, List.map_cons, ih, hname, hscope, hversion]
      rfl

-- An answered request carries the frozen set, each variable with the bytes its version was given.
theorem handleMaterializeSecrets_eq_ok {s : Situation} (hw : secretSystem.Reachable s.world) {serverID : String}
    {digest : Digest} {attemptID fence : Nat} {body : Bytes} {db : DB}
    (hfrozen : Referenced s.world.db ((s.store.frozenBindings.get? attemptID).getD []))
    (h : handleMaterializeSecrets s serverID digest attemptID fence = (.ok body, db)) :
    body = (materializeResponse (((s.store.frozenBindings.get? attemptID).getD []).map s.world.delivered)).render := by
  unfold handleMaterializeSecrets at h
  split at h
  · cases h
  split at h
  · cases h
  split at h
  · simp [refused] at h
  rename_i a hauthorized
  split at h
  · cases h
  rename_i provider hring
  split at h
  · simp [refused] at h
  rename_i values db' hvalues
  simp only [authorizeMaterialization, bind_eq_ok, pure_eq_ok] at hauthorized
  obtain ⟨l, _, refs, hrefs, rfl⟩ := hauthorized
  have hall := materializeAll_eq_ok hw ⟨rfl, rfl⟩ hvalues
  have hreferences := frozenReferences_eq_ok (World.Intact.of_reachable hw).consistent hfrozen hrefs
  rw [map_of_references hreferences] at hall
  cases h
  rw [hall]

-- Versions that exist keep what they were given.
theorem commits_step {w w' : World} (h : w.Step w') : ∃ more, w'.commits = w.commits ++ more := by
  cases h with
  | @commit i r m db hcall hcommit => exact ⟨[⟨m, r.plaintext⟩], rfl⟩
  | _ => exact ⟨[], (List.append_nil _).symm⟩

theorem commits_run {w w' : World} (h : secretSystem.Run w w') : ∃ more, w'.commits = w.commits ++ more := by
  induction h with
  | refl => exact ⟨[], (List.append_nil _).symm⟩
  | tail _ hstep ih =>
      obtain ⟨more, hmore⟩ := ih
      obtain ⟨e, hnext⟩ := hstep
      obtain ⟨last, hlast⟩ := commits_step (World.step_of_next hnext)
      exact ⟨more ++ last, by rw [hlast, hmore, List.append_assoc]⟩

theorem given_run {w w' : World} (hw : secretSystem.Reachable w) (h : secretSystem.Run w w') {id : Bytes}
    {row : VersionRow} (hrow : w.db.versions.get? id = some row) : w'.given id = w.given id := by
  have hintact := World.Intact.of_reachable hw
  obtain ⟨head, hhead⟩ := hintact.consistent.owned id row hrow
  obtain ⟨c, hc, rfl, -⟩ := hintact.stored id row head hrow hhead
  obtain ⟨more, hmore⟩ := commits_run h
  obtain ⟨w₀, hinit, hrun⟩ := hw
  have hw' : secretSystem.Reachable w' := ⟨w₀, hinit, hrun.trans h⟩
  rw [(World.Recorded.of_reachable ⟨w₀, hinit, hrun⟩).given_eq hc,
    (World.Recorded.of_reachable hw').given_eq (by rw [hmore]; exact List.mem_append_left _ hc)]

end AutoDeploy.Secret
