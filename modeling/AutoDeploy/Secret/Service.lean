import AutoDeploy.Secret.Store

namespace AutoDeploy.Secret

open Lib Lib.Result Crypto

inductive ServiceError where
  | invalidInput
  | unauthorized
  | corrupt
deriving DecidableEq, Repr

-- Who asks for a mutation, for the audit row.
structure OperationContext where
  auditID : Bytes
  actorID : Bytes
  serviceID : Bytes
  deploymentID : Bytes
  leaseID : Bytes
deriving DecidableEq, Repr

def validID (v : Bytes) : Bool := decide (v ≠ []) && decide (v.length ≤ 128)

def validScope (s : Scope) : Bool :=
  validID s.ownerID && validID s.projectID && validID s.environmentID && validID s.secretID &&
    (s.purpose == buildText || s.purpose == runtimeText || s.purpose == providerText) &&
    (s.deliveryScope == buildText || s.deliveryScope == runtimeText)

def validOperation (o : OperationContext) : Bool :=
  validID o.auditID && ((validID o.actorID && o.serviceID == []) || (validID o.serviceID && o.actorID == [])) &&
    (o.deploymentID == [] || validID o.deploymentID) && (o.leaseID == [] || validID o.leaseID)

def cryptoScope (s : Scope) (versionID : Bytes) : Crypto.Scope :=
  ⟨s.ownerID, s.projectID, s.environmentID, s.secretID, versionID, s.purpose, s.deliveryScope⟩

-- The three calls that write a version.
inductive Kind where
  | create
  | replace
  | replaceCompromised
deriving DecidableEq, Repr

def Kind.action : Kind → Action
  | .create => .created
  | .replace => .replaced
  | .replaceCompromised => .replacedCompromised

structure Request where
  kind : Kind
  scope : Scope
  versionID : Bytes
  operation : OperationContext
  plaintext : Bytes
deriving DecidableEq, Repr

def Request.cryptoScope (r : Request) : Crypto.Scope := Secret.cryptoScope r.scope r.versionID

def Request.audit (r : Request) (oldVersionID kekID : Bytes) : Audit where
  id := r.operation.auditID
  ownerID := r.scope.ownerID
  secretID := r.scope.secretID
  versionID := r.versionID
  action := r.kind.action
  actorID := r.operation.actorID
  serviceID := r.operation.serviceID
  deploymentID := r.operation.deploymentID
  leaseID := r.operation.leaseID
  result := .success
  oldVersionID := oldVersionID
  kekID := kekID

def Request.mutation (r : Request) (number : Nat) (oldVersionID : Bytes) (envelope : Envelope) : Mutation where
  version := ⟨r.versionID, r.scope, number, .active, envelope, 0⟩
  audit := r.audit oldVersionID envelope.kekID

-- A call before its `Encrypt`: the checks, and for the two replaces the read of the current version. It returns the
-- number of the new version and the version it replaces.
def begin (db : DB) (r : Request) : Except ServiceError (Nat × Bytes) := do
  require (validOperation r.operation ∧ validScope r.scope ∧ validID r.versionID ∧
    r.plaintext.length ≤ maxPlaintextBytes) .invalidInput
  match r.kind with
  | .create => pure (1, [])
  | .replace => do
      let old ← (getVersion db r.scope []).mapError fun _ => .corrupt
      require (old.state = .active) .invalidInput
      pure (old.number + 1, old.id)
  | .replaceCompromised => do
      let old ← (getVersion db r.scope []).mapError fun _ => .corrupt
      require (old.state = .active) .corrupt
      pure (old.number + 1, old.id)

-- The transaction at its end.
def Kind.commit (kind : Kind) (db : DB) (m : Mutation) : Except StoreError DB :=
  match kind with
  | .create => Secret.create db m
  | .replace => Secret.replace db m false
  | .replaceCompromised => Secret.replace db m true

-- How far a call is. The reservation commits before the sealing, and the sealing comes before the transaction; a
-- rewrap reads its version first.
inductive Call where
  | checked (r : Request) (number : Nat) (oldVersionID : Bytes)
  | reserved (r : Request) (number : Nat) (oldVersionID kekID kek : Bytes)
  | sealed (r : Request) (m : Mutation)
  | listed (v : Version)
  | rewrapReserved (v : Version) (dek newID newKey : Bytes)
  | rewrapSealed (v : Version) (envelope : Envelope)
  | ended
deriving DecidableEq, Repr

-- A create or a replace that committed.
structure Commit where
  mutation : Mutation
  plaintext : Bytes
deriving DecidableEq, Repr

-- The database, the cipher and the calls in progress, in any number of processes. `kekSeals` has one entry for each
-- data key sealed, the name of the key it was sealed under; `commits` remembers what was committed.
structure World where
  db : DB
  vault : Vault
  calls : List Call
  kekSeals : List Bytes
  commits : List Commit

inductive Event where
  | begin (r : Request)
  | reserve (i : Nat) (provider : KeyProvider)
  | reserveLost (kekID : Bytes)
  | encrypt (i : Nat) (draw : Draw)
  | commit (i : Nat)
  | list (id : Bytes)
  | rewrapReserve (i : Nat) (provider : KeyProvider)
  | rewrapSeal (i : Nat) (wrapped : Bytes)
  | rewrapStore (i : Nat)
  | abandon (i : Nat)
  | restart
  | initLedger (kekID generationID : Bytes)
  | audit (a : Audit)

instance (v : Vault) (plaintext : Bytes) (draw : Draw) : Decidable (v.FreshDraw plaintext draw) :=
  decidable_of_iff (draw.dek.length = keyBytes ∧ (∀ value ∈ v.values, value.dek ≠ draw.dek) ∧
      draw.value.length = plaintext.length + sealOverhead ∧ v.cipher.Fresh draw.value ∧
      draw.wrapped.length = keyBytes + sealOverhead ∧ v.cipher.Fresh draw.wrapped ∧ draw.value ≠ draw.wrapped)
    ⟨fun ⟨h₁, h₂, h₃, h₄, h₅, h₆, h₇⟩ => ⟨h₁, h₂, h₃, h₄, h₅, h₆, h₇⟩,
      fun ⟨h₁, h₂, h₃, h₄, h₅, h₆, h₇⟩ => ⟨h₁, h₂, h₃, h₄, h₅, h₆, h₇⟩⟩

instance (v : Vault) (wrapped : Bytes) : Decidable (v.FreshWrap wrapped) :=
  decidable_of_iff (wrapped.length = keyBytes + sealOverhead ∧ v.cipher.Fresh wrapped)
    ⟨fun ⟨h₁, h₂⟩ => ⟨h₁, h₂⟩, fun ⟨h₁, h₂⟩ => ⟨h₁, h₂⟩⟩

-- One step of one call, or nothing when the call is not there yet or its operation fails. A failed call changes
-- nothing; it is abandoned.
def World.next (w : World) : Event → Option World
  | .begin r => do
      let (number, oldVersionID) ← (Secret.begin w.db r).toOption
      pure { w with calls := w.calls ++ [.checked r number oldVersionID] }
  | .reserve i provider =>
      match w.calls[i]? with
      | some (.checked r number oldVersionID) => do
          let (kekID, kek) ← (encryptionKey provider r.cryptoScope r.plaintext).toOption
          let db ← (reserveWrapInvocation w.db kekID).toOption
          pure { w with db := db, calls := w.calls.set i (.reserved r number oldVersionID kekID kek) }
      | _ => none
  -- the reservation committed, and its caller died or was told that it failed
  | .reserveLost kekID => do
      let db ← (reserveWrapInvocation w.db kekID).toOption
      pure { w with db := db }
  | .encrypt i draw =>
      match w.calls[i]? with
      | some (.reserved r number oldVersionID kekID kek) =>
          if w.vault.FreshDraw r.plaintext draw then
            let envelope := (sealEnvelope w.vault.cipher kekID kek draw r.cryptoScope r.plaintext).1
            some { w with
              vault := w.vault.encrypted kekID kek draw r.cryptoScope r.plaintext
              kekSeals := kekID :: w.kekSeals
              calls := w.calls.set i (.sealed r (r.mutation number oldVersionID envelope)) }
          else none
      | _ => none
  | .commit i =>
      match w.calls[i]? with
      | some (.sealed r m) => do
          let db ← (r.kind.commit w.db m).toOption
          pure { w with db := db, calls := w.calls.set i .ended, commits := w.commits ++ [⟨m, r.plaintext⟩] }
      | _ => none
  | .list id => do
      let row ← w.db.versions.get? id
      let head ← w.db.heads.get? row.secretID
      pure { w with calls := w.calls ++ [.listed (row.version id head)] }
  | .rewrapReserve i provider =>
      match w.calls[i]? with
      | some (.listed v) => do
          let (dek, newID, newKey) ← (rewrapKeys w.vault.cipher provider (cryptoScope v.scope v.id) v.envelope).toOption
          let db ← (reserveWrapInvocation w.db newID).toOption
          pure { w with db := db, calls := w.calls.set i (.rewrapReserved v dek newID newKey) }
      | _ => none
  | .rewrapSeal i wrapped =>
      match w.calls[i]? with
      | some (.rewrapReserved v dek newID newKey) =>
          if w.vault.FreshWrap wrapped then
            let scope := cryptoScope v.scope v.id
            let envelope := (sealRewrapped w.vault.cipher newID newKey dek wrapped scope v.envelope).1
            some { w with
              vault := w.vault.rewrapped newID newKey dek wrapped scope v.envelope
              kekSeals := newID :: w.kekSeals
              calls := w.calls.set i (.rewrapSealed v envelope) }
          else none
      | _ => none
  | .rewrapStore i =>
      match w.calls[i]? with
      | some (.rewrapSealed v envelope) => do
          let db ← (rewrap w.db v.scope v.id v.envelopeRevision envelope).toOption
          pure { w with db := db, calls := w.calls.set i .ended }
      | _ => none
  | .abandon i => some { w with calls := w.calls.set i .ended }
  | .restart => some { w with calls := [] }
  | .initLedger kekID generationID => do
      let db ← (initializeActiveLedger w.db kekID generationID).toOption
      pure { w with db := db }
  | .audit a => do
      let db ← (appendMaterializationAudit w.db a).toOption
      pure { w with db := db }

def World.initial (generationID : Bytes) : World := ⟨.created generationID, .empty, [], [], []⟩

def secretSystem : System World where
  initial w := ∃ generationID, w = .initial generationID
  next w w' := ∃ e, w.next e = some w'

-- What the steps do, one case for each event.
inductive World.Step (w : World) : World → Prop
  | begin {r : Request} {number : Nat} {oldVersionID : Bytes} (h : Secret.begin w.db r = .ok (number, oldVersionID)) :
      Step w { w with calls := w.calls ++ [.checked r number oldVersionID] }
  | reserve {i number : Nat} {r : Request} {oldVersionID kekID kek : Bytes} {provider : KeyProvider} {db : DB}
      (hcall : w.calls[i]? = some (.checked r number oldVersionID))
      (hkey : encryptionKey provider r.cryptoScope r.plaintext = .ok (kekID, kek))
      (hreserve : reserveWrapInvocation w.db kekID = .ok db) :
      Step w { w with db := db, calls := w.calls.set i (.reserved r number oldVersionID kekID kek) }
  | reserveLost {kekID : Bytes} {db : DB} (hreserve : reserveWrapInvocation w.db kekID = .ok db) :
      Step w { w with db := db }
  | encrypt {i number : Nat} {r : Request} {oldVersionID kekID kek : Bytes} {draw : Draw}
      (hcall : w.calls[i]? = some (.reserved r number oldVersionID kekID kek))
      (hdraw : w.vault.FreshDraw r.plaintext draw) :
      Step w { w with
        vault := w.vault.encrypted kekID kek draw r.cryptoScope r.plaintext
        kekSeals := kekID :: w.kekSeals
        calls := w.calls.set i (.sealed r (r.mutation number oldVersionID
          (sealEnvelope w.vault.cipher kekID kek draw r.cryptoScope r.plaintext).1)) }
  | commit {i : Nat} {r : Request} {m : Mutation} {db : DB} (hcall : w.calls[i]? = some (.sealed r m))
      (hcommit : r.kind.commit w.db m = .ok db) :
      Step w { w with db := db, calls := w.calls.set i .ended, commits := w.commits ++ [⟨m, r.plaintext⟩] }
  | list {id : Bytes} {row : VersionRow} {head : Head} (hrow : w.db.versions.get? id = some row)
      (hhead : w.db.heads.get? row.secretID = some head) :
      Step w { w with calls := w.calls ++ [.listed (row.version id head)] }
  | rewrapReserve {i : Nat} {v : Version} {dek newID newKey : Bytes} {provider : KeyProvider} {db : DB}
      (hcall : w.calls[i]? = some (.listed v))
      (hkeys : rewrapKeys w.vault.cipher provider (cryptoScope v.scope v.id) v.envelope = .ok (dek, newID, newKey))
      (hreserve : reserveWrapInvocation w.db newID = .ok db) :
      Step w { w with db := db, calls := w.calls.set i (.rewrapReserved v dek newID newKey) }
  | rewrapSeal {i : Nat} {v : Version} {dek newID newKey wrapped : Bytes}
      (hcall : w.calls[i]? = some (.rewrapReserved v dek newID newKey)) (hwrap : w.vault.FreshWrap wrapped) :
      Step w { w with
        vault := w.vault.rewrapped newID newKey dek wrapped (cryptoScope v.scope v.id) v.envelope
        kekSeals := newID :: w.kekSeals
        calls := w.calls.set i (.rewrapSealed v
          (sealRewrapped w.vault.cipher newID newKey dek wrapped (cryptoScope v.scope v.id) v.envelope).1) }
  | rewrapStore {i : Nat} {v : Version} {envelope : Envelope} {db : DB}
      (hcall : w.calls[i]? = some (.rewrapSealed v envelope))
      (hstore : rewrap w.db v.scope v.id v.envelopeRevision envelope = .ok db) :
      Step w { w with db := db, calls := w.calls.set i .ended }
  | abandon {i : Nat} : Step w { w with calls := w.calls.set i .ended }
  | restart : Step w { w with calls := [] }
  | initLedger {kekID generationID : Bytes} {db : DB} (h : initializeActiveLedger w.db kekID generationID = .ok db) :
      Step w { w with db := db }
  | audit {a : Audit} {db : DB} (h : appendMaterializationAudit w.db a = .ok db) : Step w { w with db := db }

theorem World.step_of_next {w w' : World} {e : Event} (h : w.next e = some w') : w.Step w' := by
  cases e with
  | begin r =>
      simp only [World.next, Option.bind_eq_bind, Option.bind_eq_some_iff, toOption_eq_some, Option.pure_def,
        Option.some.injEq] at h
      obtain ⟨⟨number, oldVersionID⟩, hbegin, rfl⟩ := h
      exact .begin hbegin
  | reserve i provider =>
      simp only [World.next] at h
      split at h
      · rename_i hcall
        simp only [Option.bind_eq_bind, Option.bind_eq_some_iff, toOption_eq_some, Option.pure_def,
          Option.some.injEq] at h
        obtain ⟨⟨kekID, kek⟩, hkey, db, hreserve, rfl⟩ := h
        exact .reserve hcall hkey hreserve
      · cases h
  | reserveLost kekID =>
      simp only [World.next, Option.bind_eq_bind, Option.bind_eq_some_iff, toOption_eq_some, Option.pure_def,
        Option.some.injEq] at h
      obtain ⟨db, hreserve, rfl⟩ := h
      exact .reserveLost hreserve
  | encrypt i draw =>
      simp only [World.next] at h
      split at h
      · rename_i hcall
        split at h
        · rename_i hdraw
          cases h
          exact .encrypt hcall hdraw
        · cases h
      · cases h
  | commit i =>
      simp only [World.next] at h
      split at h
      · rename_i hcall
        simp only [Option.bind_eq_bind, Option.bind_eq_some_iff, toOption_eq_some, Option.pure_def,
          Option.some.injEq] at h
        obtain ⟨db, hcommit, rfl⟩ := h
        exact .commit hcall hcommit
      · cases h
  | list id =>
      simp only [World.next, Option.bind_eq_bind, Option.bind_eq_some_iff, Option.pure_def, Option.some.injEq] at h
      obtain ⟨row, hrow, head, hhead, rfl⟩ := h
      exact .list hrow hhead
  | rewrapReserve i provider =>
      simp only [World.next] at h
      split at h
      · rename_i hcall
        simp only [Option.bind_eq_bind, Option.bind_eq_some_iff, toOption_eq_some, Option.pure_def,
          Option.some.injEq] at h
        obtain ⟨⟨dek, newID, newKey⟩, hkeys, db, hreserve, rfl⟩ := h
        exact .rewrapReserve hcall hkeys hreserve
      · cases h
  | rewrapSeal i wrapped =>
      simp only [World.next] at h
      split at h
      · rename_i hcall
        split at h
        · rename_i hwrap
          cases h
          exact .rewrapSeal hcall hwrap
        · cases h
      · cases h
  | rewrapStore i =>
      simp only [World.next] at h
      split at h
      · rename_i hcall
        simp only [Option.bind_eq_bind, Option.bind_eq_some_iff, toOption_eq_some, Option.pure_def,
          Option.some.injEq] at h
        obtain ⟨db, hstore, rfl⟩ := h
        exact .rewrapStore hcall hstore
      · cases h
  | abandon i =>
      cases h
      exact .abandon
  | restart =>
      cases h
      exact .restart
  | initLedger kekID generationID =>
      simp only [World.next, Option.bind_eq_bind, Option.bind_eq_some_iff, toOption_eq_some, Option.pure_def,
        Option.some.injEq] at h
      obtain ⟨db, hinit, rfl⟩ := h
      exact .initLedger hinit
  | audit a =>
      simp only [World.next, Option.bind_eq_bind, Option.bind_eq_some_iff, toOption_eq_some, Option.pure_def,
        Option.some.injEq] at h
      obtain ⟨db, haudit, rfl⟩ := h
      exact .audit haudit

-- Every run is a run of these steps.
theorem Reachable.step_invariant {P : World → Prop} (hinit : ∀ generationID, P (.initial generationID))
    (hstep : ∀ w w', P w → w.Step w' → P w') {w : World} (h : secretSystem.Reachable w) : P w := by
  refine h.invariant ?_ ?_
  · rintro _ ⟨generationID, rfl⟩
    exact hinit generationID
  · rintro w w' hw ⟨e, hnext⟩
    exact hstep w w' hw (World.step_of_next hnext)

-- A schedule of events, as long as each of them can happen.
def World.run (w : World) : List Event → Option World
  | [] => some w
  | e :: events => (w.next e).bind fun w' => w'.run events

theorem World.run_of_events {w w' : World} {events : List Event} (h : w.run events = some w') :
    secretSystem.Run w w' := by
  induction events generalizing w with
  | nil =>
      cases h
      exact .refl
  | cons e events ih =>
      obtain ⟨w₁, hnext, hrest⟩ := Option.bind_eq_some_iff.1 h
      exact .head ⟨e, hnext⟩ (ih hrest)

theorem World.reachable_of_events {generationID : Bytes} {events : List Event} {w : World}
    (h : (World.initial generationID).run events = some w) : secretSystem.Reachable w :=
  ⟨_, ⟨generationID, rfl⟩, World.run_of_events h⟩

theorem World.exists_of_events {generationID : Bytes} {events : List Event} {p : World → Bool}
    (h : ((World.initial generationID).run events).any p = true) : ∃ w, secretSystem.Reachable w ∧ p w = true := by
  obtain ⟨w, hrun, hp⟩ := (Option.any_eq_true _ _).1 h
  exact ⟨w, World.reachable_of_events hrun, hp⟩

-- A secret made under the first of two keys.
def sampleScope : Scope :=
  ⟨Bytes.ofString "owner", Bytes.ofString "project", Bytes.ofString "environment", Bytes.ofString "token", runtimeText,
    runtimeText⟩

def sampleOperation (auditID : Bytes) : OperationContext := ⟨auditID, Bytes.ofString "admin", [], [], []⟩

def sampleGeneration : Bytes := Bytes.ofString "generation-00001"

def sampleCreate : Request :=
  ⟨.create, sampleScope, Bytes.ofString "version-1", sampleOperation (Bytes.ofString "audit-1"), Crypto.sampleSecret⟩

def sampleEvents : List Event :=
  [.initLedger firstID sampleGeneration, .begin sampleCreate, .reserve 0 (sampleRing firstID).provider,
    .encrypt 0 sampleDraw, .commit 0]

end AutoDeploy.Secret
