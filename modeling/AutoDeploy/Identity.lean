import AutoDeploy.Queue.Job
import AutoDeploy.Store.Digests

namespace AutoDeploy

open Lib Store Queue

namespace Webhook

-- What a push and its target are named by, in the order it is hashed.
def webhookFields (target : Target) (p : Push) : List String :=
  ["autodeploy:webhook:v1", target.ownerID, target.projectID, target.environmentID, target.serverID,
    toString p.repositoryID, p.ref, p.commitSHA]

def webhookEncoding (target : Target) (p : Push) : Bytes := (webhookFields target p).flatMap lengthPrefixed

def webhookSeed (target : Target) (p : Push) : List Char :=
  Bytes.toHex (Sha256.sum (webhookEncoding target p)).bytes

theorem webhookIDs_eq (target : Target) (p : Push) :
    webhookIDs target p = ("whd_" ++ String.ofList ((webhookSeed target p).take 40),
      "whj_" ++ String.ofList ((webhookSeed target p).drop 40)) := rfl

theorem lengthPrefixed_eq (value : String) :
    lengthPrefixed value = Bytes.bigEndian (Bytes.ofString value).length 4 ++ Bytes.ofString value := by
  have hlength : (Bytes.ofString value).length = value.utf8ByteSize := by simp [Bytes.ofString, String.toUTF8]
  rw [hlength, lengthPrefixed]
  simp only [Bytes.bigEndian, List.nil_append, List.cons_append, Nat.div_div_eq_div_mul, Nat.reduceMul, Nat.reducePow]

theorem webhookEncoding_eq (target : Target) (p : Push) :
    webhookEncoding target p = Bytes.prefixed 4 ((webhookFields target p).map Bytes.ofString) := by
  rw [webhookEncoding, Bytes.prefixed, List.flatMap_map]
  exact List.flatMap_congr fun value _ => lengthPrefixed_eq value

-- Four bytes hold the length of every field.
def FieldsFit (target : Target) (p : Push) : Prop :=
  ∀ value ∈ webhookFields target p, value.utf8ByteSize < 2 ^ 32

section

variable {target target' : Target} {p p' : Push}

theorem fields_of_encoding (hfit : FieldsFit target p) (hfit' : FieldsFit target' p')
    (h : webhookEncoding target p = webhookEncoding target' p') :
    target = target' ∧ p.repositoryID = p'.repositoryID ∧ p.ref = p'.ref ∧ p.commitSHA = p'.commitSHA := by
  have hbytes {target : Target} {p : Push} (hfit : FieldsFit target p) :
      ∀ field ∈ (webhookFields target p).map Bytes.ofString, field.length < 256 ^ 4 := by
    intro field hfield
    obtain ⟨value, hvalue, rfl⟩ := List.mem_map.1 hfield
    have hlength : (Bytes.ofString value).length = value.utf8ByteSize := by simp [Bytes.ofString, String.toUTF8]
    rw [hlength]
    exact hfit value hvalue
  rw [webhookEncoding_eq, webhookEncoding_eq] at h
  have hfields := Bytes.prefixed_injective (show 0 < 4 by decide) (hbytes hfit) (hbytes hfit') h
  have hsame := List.map_injective_iff.2 Bytes.ofString_injective hfields
  simp only [webhookFields, List.cons.injEq, and_true, true_and] at hsame
  obtain ⟨howner, hproject, henvironment, hserver, hrepository, href, hcommit⟩ := hsame
  refine ⟨?_, toString_injective_int hrepository, href, hcommit⟩
  obtain ⟨owner, project, environment, server⟩ := target
  obtain ⟨owner', project', environment', server'⟩ := target'
  simp only at howner hproject henvironment hserver
  rw [howner, hproject, henvironment, hserver]

theorem seed_of_prefixed {label : String} {s t : List Char} (h : label ++ String.ofList s = label ++ String.ofList t) :
    s = t := by
  have htext := congrArg String.toList h
  rw [String.toList_append, String.toList_append, String.toList_ofList, String.toList_ofList] at htext
  exact List.append_cancel_left htext

-- Either of the two names determines what it was made of, unless the parts of the two digests collide.
theorem fields_of_webhookIDs (hfit : FieldsFit target p) (hfit' : FieldsFit target' p')
    (hdeployment : (webhookSeed target p).take 40 = (webhookSeed target' p').take 40 →
      webhookEncoding target p = webhookEncoding target' p')
    (hkey : (webhookSeed target p).drop 40 = (webhookSeed target' p').drop 40 →
      webhookEncoding target p = webhookEncoding target' p')
    (h : (webhookIDs target p).1 = (webhookIDs target' p').1 ∨ (webhookIDs target p).2 = (webhookIDs target' p').2) :
    target = target' ∧ p.repositoryID = p'.repositoryID ∧ p.ref = p'.ref ∧ p.commitSHA = p'.commitSHA := by
  rw [webhookIDs_eq, webhookIDs_eq] at h
  rcases h with h | h
  · exact fields_of_encoding hfit hfit' (hdeployment (seed_of_prefixed h))
  · exact fields_of_encoding hfit hfit' (hkey (seed_of_prefixed h))

end

end Webhook

namespace Identity

open Webhook

-- The three digests that stand for something: each is equal for equal inputs only, as long as the two encodings
-- at hand do not collide.
theorem digests_identify :
    (∀ (cfg cfg' : FrozenExecution) (bindings bindings' literals literals' : List FrozenRow),
      (bindings.map FrozenRow.variableName).Nodup → (bindings'.map FrozenRow.variableName).Nodup →
      (literals.map FrozenRow.variableName).Nodup → (literals'.map FrozenRow.variableName).Nodup →
      (Sha256.sum (configEncoding cfg bindings literals) = Sha256.sum (configEncoding cfg' bindings' literals') →
        configEncoding cfg bindings literals = configEncoding cfg' bindings' literals') →
      (frozenConfigDigest cfg bindings literals = frozenConfigDigest cfg' bindings' literals' ↔
        cfg = cfg' ∧ (∀ row, row ∈ bindings ↔ row ∈ bindings') ∧ ∀ row, row ∈ literals ↔ row ∈ literals')) ∧
    (∀ j j' : DeploymentExecutionJob, j.valid = true → j'.valid = true →
      (Sha256.sum (payloadEncoding j) = Sha256.sum (payloadEncoding j') → payloadEncoding j = payloadEncoding j') →
      j.payloadDigest = j'.payloadDigest → j = j') ∧
    (∀ (target target' : Target) (p p' : Push), FieldsFit target p → FieldsFit target' p' →
      ((webhookSeed target p).take 40 = (webhookSeed target' p').take 40 →
        webhookEncoding target p = webhookEncoding target' p') →
      ((webhookSeed target p).drop 40 = (webhookSeed target' p').drop 40 →
        webhookEncoding target p = webhookEncoding target' p') →
      ((webhookIDs target p).1 = (webhookIDs target' p').1 ∨ (webhookIDs target p).2 = (webhookIDs target' p').2) →
      target = target' ∧ p.repositoryID = p'.repositoryID ∧ p.ref = p'.ref ∧ p.commitSHA = p'.commitSHA) := by
  refine ⟨?_, ?_, ?_⟩
  · intro cfg cfg' bindings bindings' literals literals' hbindings hbindings' hliterals hliterals' hsha
    exact frozenConfigDigest_eq_iff hbindings hbindings' hliterals hliterals' hsha
  · intro j j' hj hj' hsha h
    exact eq_of_payloadDigest hj hj' hsha h
  · intro target target' p p' hfit hfit' hdeployment hkey h
    exact fields_of_webhookIDs hfit hfit' hdeployment hkey h

def exampleConfig : FrozenExecution :=
  ⟨8080, "http", "blue_green", 30, 1, 500, 268435456, "unless-stopped", "/healthz", "app.example.com", 4⟩

def exampleJob : DeploymentExecutionJob :=
  { version := 1, kind := "deployment_execution", ownerID := "owner", projectID := "project", environmentID := "env",
    serverID := "server", deploymentID := "deployment", repositoryID := 7, ref := "refs/heads/main",
    commitSHA := "0123456789abcdef0123456789abcdef01234567", priority := 0,
    availableAt := ⟨⟨⟨2026, 1, 2, 3, 4, 5, 6000, 0⟩, by decide⟩, true, fun _ => rfl⟩, idempotencyKey := "key",
    payloadDigest := zeroDigest, state := "queued" }

def exampleTarget : Target := ⟨"owner", "project", "env", "server"⟩

def examplePush : Push := ⟨1, 7, 3, "refs/heads/main", "0123456789abcdef0123456789abcdef01234567"⟩

theorem sealed_valid {j : DeploymentExecutionJob} (h : j.sealed.fieldsValid = true) : j.sealed.valid = true := by
  rw [DeploymentExecutionJob.valid, Bool.and_eq_true]
  refine ⟨h, decide_eq_true ?_⟩
  rw [payloadDigest_sealed]
  rfl

theorem examplePush_fits (ref : String) (h : ref.utf8ByteSize < 2 ^ 32) :
    FieldsFit exampleTarget { examplePush with ref := ref } := by
  intro value hvalue
  simp only [webhookFields, List.mem_cons, List.not_mem_nil, or_false] at hvalue
  rcases hvalue with rfl | rfl | rfl | rfl | rfl | rfl | rfl | rfl
  · decide +kernel
  · decide +kernel
  · decide +kernel
  · decide +kernel
  · decide +kernel
  · decide +kernel
  · exact h
  · decide +kernel

-- The order of the bindings does not matter; another priority and another branch do.
theorem digests_identify_examples :
    frozenConfigDigest exampleConfig [⟨"A", "build", "v1"⟩, ⟨"B", "runtime", "v2"⟩] [] =
      frozenConfigDigest exampleConfig [⟨"B", "runtime", "v2"⟩, ⟨"A", "build", "v1"⟩] [] ∧
    exampleJob.sealed.payloadDigest ≠ ({ exampleJob with priority := 1 } : DeploymentExecutionJob).sealed.payloadDigest ∧
    (webhookIDs exampleTarget examplePush).2 ≠
      (webhookIDs exampleTarget { examplePush with ref := "refs/heads/next" }).2 := by
  refine ⟨?_, ?_, ?_⟩
  · have hencoding : configEncoding exampleConfig [⟨"A", "build", "v1"⟩, ⟨"B", "runtime", "v2"⟩] [] =
        configEncoding exampleConfig [⟨"B", "runtime", "v2"⟩, ⟨"A", "build", "v1"⟩] [] := by decide +kernel
    refine (digests_identify.1 exampleConfig exampleConfig _ _ [] [] (by decide +kernel) (by decide +kernel)
      List.nodup_nil List.nodup_nil (fun _ => hencoding)).2 ⟨rfl, fun row => ?_, fun row => Iff.rfl⟩
    simp only [List.mem_cons, List.not_mem_nil, or_false]
    exact or_comm
  · intro h
    have hjob := digests_identify.2.1 exampleJob.sealed ({ exampleJob with priority := 1 } : DeploymentExecutionJob).sealed
      (sealed_valid (by decide +kernel)) (sealed_valid (by decide +kernel))
      (fun hsum => absurd hsum (by decide +kernel)) h
    exact absurd (congrArg DeploymentExecutionJob.priority hjob) (by decide)
  · intro h
    have hpush := digests_identify.2.2 exampleTarget exampleTarget examplePush { examplePush with ref := "refs/heads/next" }
      (examplePush_fits _ (by decide +kernel)) (examplePush_fits _ (by decide +kernel))
      (fun hseed => absurd hseed (by decide +kernel)) (fun hseed => absurd hseed (by decide +kernel)) (.inr h)
    exact absurd hpush.2.2.1 (by decide +kernel)

end Identity

end AutoDeploy
