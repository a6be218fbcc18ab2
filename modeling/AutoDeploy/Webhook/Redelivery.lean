import AutoDeploy.Webhook.Push

namespace AutoDeploy.Webhook

open Lib Lib.Result Store

def processedReceipt (d : Delivery) (p : Push) : Receipt :=
  ⟨d.deliveryID, d.event, d.bodyDigest, .verified, .processed, p.installationID, p.repositoryID, p.ownerID⟩

-- The database after a receipt was taken and processed.
def received (db : WebhookDB) (d : Delivery) (p : Push) : WebhookDB :=
  { db with deliveries := db.deliveries.put db.deliveries.nextKey (processedReceipt d p) }

-- And after its intent, job and deployment were stored too.
def enqueued (db : WebhookDB) (d : Delivery) (p : Push) (j : Job) (snapshot : Deployment.Snapshot) : WebhookDB :=
  { received db d p with
    intents := db.intents.put db.intents.nextKey ⟨db.deliveries.nextKey, j.key, j.deploymentID⟩
    jobs := db.jobs.put db.jobs.nextKey j
    deployments := db.deployments.put j.deploymentID snapshot
    jobEvents := db.jobEvents ++ [db.jobs.nextKey] }

-- A known receipt is answered from what is stored.
structure Replayed (db : WebhookDB) (d : Delivery) (p : Push) (id : Nat) (r : Receipt) : Prop where
  known : db.deliveries.find? (fun _ r => r.deliveryID == d.deliveryID) = some (id, r)
  same : r.bodyDigest = d.bodyDigest ∧ r.event = d.event ∧ r.installationID = p.installationID ∧
    r.repositoryID = p.repositoryID ∧ r.githubOwnerID = p.ownerID

structure Unknown (db : WebhookDB) (d : Delivery) : Prop where
  id : db.deliveries.find? (fun _ r => r.deliveryID == d.deliveryID) = none
  body : db.deliveries.any (fun _ r => r.verification == .verified && r.bodyDigest == d.bodyDigest) = false

structure Insertable (db : WebhookDB) (j : Job) : Prop where
  key : db.intents.find? (fun _ i => i.key == j.key) = none
  intents : db.intents.any (fun _ i => i.deliveryID == db.deliveries.nextKey || i.deploymentID == j.deploymentID) = false
  jobs : db.jobs.any (fun _ j' => j'.deploymentID == j.deploymentID ||
    (j'.key.ownerID == j.key.ownerID && j'.idempotencyKey == j.idempotencyKey)) = false
  deployments : db.deployments.get? j.deploymentID = none

-- Everything the transaction can do: answer a known delivery, take a further delivery of a known intent, or enqueue.
theorem enqueue_cases {db db' : WebhookDB} {delivery : Delivery} {p : Push} {d : Deployment.Aggregate} {j : Job}
    {result : EnqueueResult} (hid : d.identity.deploymentID = j.deploymentID)
    (h : enqueueVerifiedPushTx db delivery p d j = .ok (db', result)) :
    (∃ id r, Replayed db delivery p id r ∧ resultForDelivery db id = .ok result ∧ db' = db) ∨
      (Unknown db delivery ∧ ∃ i x, db.intents.find? (fun _ i => i.key == j.key) = some (i, x) ∧
        resultOf db db.deliveries.nextKey (some x) = .ok result ∧ db' = received db delivery p) ∨
      (Unknown db delivery ∧ Insertable db j ∧ result = ⟨db.deliveries.nextKey, j.deploymentID, db.jobs.nextKey⟩ ∧
        db' = enqueued db delivery p j d.stored) := by
  unfold enqueueVerifiedPushTx insertOrResolveDelivery at h
  cases hfind : db.deliveries.find? fun _ r => r.deliveryID == delivery.deliveryID with
  | some row =>
      obtain ⟨id, r⟩ := row
      simp only [hfind, bind_eq_ok, require_eq_ok, pure_eq_ok, Prod.exists, Prod.mk.injEq] at h
      obtain ⟨_, _, _, ⟨_, hsame, rfl, rfl, rfl⟩, h⟩ := h
      simp only [Bool.not_false, if_true, bind_eq_ok, pure_eq_ok, Prod.mk.injEq] at h
      obtain ⟨_, hresult, rfl, rfl⟩ := h
      exact .inl ⟨id, r, ⟨hfind, hsame⟩, hresult, rfl⟩
  | none =>
      simp only [hfind, bind_eq_ok, require_eq_ok, pure_eq_ok, Prod.exists, Prod.mk.injEq] at h
      obtain ⟨_, _, _, ⟨_, hbody, rfl, rfl, rfl⟩, h⟩ := h
      have hunknown : Unknown db delivery := ⟨hfind, hbody⟩
      simp only [Bool.not_true, Bool.false_eq_true, if_false, bind_eq_ok, Prod.exists, insertOrResolveIntent] at h
      cases hkey : db.intents.find? fun _ i => i.key == j.key with
      | some row =>
          obtain ⟨i, x⟩ := row
          simp only [hkey, pure_eq_ok, Prod.mk.injEq] at h
          obtain ⟨_, _, _, ⟨rfl, rfl, rfl⟩, h⟩ := h
          simp only [Bool.not_false, if_true, bind_eq_ok, pure_eq_ok, Prod.mk.injEq, resultForStoredIntent,
            markDeliveryProcessed, require_eq_ok, found_eq_ok, Table.get?_put_self, Option.some.injEq] at h
          obtain ⟨_, hresult, _, ⟨_, rfl, _, -, rfl⟩, rfl, rfl⟩ := h
          rw [(Table.find?_some hkey).1] at hresult
          refine .inr (.inl ⟨hunknown, i, x, rfl, hresult, ?_⟩)
          simp [received, processedReceipt, Table.put_put]
      | none =>
          simp only [hkey, bind_eq_ok, require_eq_ok, pure_eq_ok, Prod.mk.injEq] at h
          obtain ⟨_, _, _, ⟨_, hintents, rfl, rfl, rfl⟩, h⟩ := h
          simp only [Bool.not_true, Bool.false_eq_true, if_false, bind_eq_ok, Prod.exists, insertJob, createDeployment,
            require_eq_ok, pure_eq_ok, Prod.mk.injEq, markDeliveryProcessed, found_eq_ok] at h
          obtain ⟨_, _, ⟨_, hjobs, rfl, rfl⟩, _, ⟨_, hfree, rfl⟩, _, ⟨_, hrow, _, -, rfl⟩, rfl, rfl⟩ := h
          rw [Table.get?_put_self] at hrow
          cases hrow
          refine .inr (.inr ⟨hunknown, ⟨hkey, hintents, hjobs, hid ▸ hfree⟩, by rw [hid], ?_⟩)
          simp [enqueued, received, processedReceipt, Table.put_put, hid]

-- What every history keeps: receipts, intents and jobs are one for each of what names them, and an intent has its
-- receipt, its job and its deployment.
structure Consistent (db : WebhookDB) : Prop where
  receipts : ∀ id r id' r', db.deliveries.get? id = some r → db.deliveries.get? id' = some r' →
    r.deliveryID = r'.deliveryID → id = id'
  keys : ∀ i x i' x', db.intents.get? i = some x → db.intents.get? i' = some x' → x.key = x'.key → i = i'
  senders : ∀ i x i' x', db.intents.get? i = some x → db.intents.get? i' = some x' → x.deliveryID = x'.deliveryID → i = i'
  referenced : ∀ i x, db.intents.get? i = some x → db.deliveries.get? x.deliveryID ≠ none
  queued : ∀ i x, db.intents.get? i = some x → ∃ id j, db.jobs.get? id = some j ∧ j.deploymentID = x.deploymentID
  single : ∀ id j id' j', db.jobs.get? id = some j → db.jobs.get? id' = some j' → j.deploymentID = j'.deploymentID →
    id = id'
  intended : ∀ id j, db.jobs.get? id = some j → ∃ i x, db.intents.get? i = some x ∧ x.deploymentID = j.deploymentID ∧
    x.key = j.key
  deployed : ∀ id, db.deployments.get? id ≠ none → ∃ i x, db.intents.get? i = some x ∧ x.deploymentID = id
  named : ∀ i x, db.intents.get? i = some x → x.deploymentID ≠ ""

theorem Consistent.of_initial {db : WebhookDB} (h : webhookSystem.initial db) : Consistent db := by
  obtain ⟨hdeliveries, hintents, hjobs, hdeployments⟩ := h
  constructor
  all_goals intros
  all_goals simp_all

theorem Consistent.received {db : WebhookDB} {d : Delivery} {p : Push} (h : Consistent db) (hunknown : Unknown db d) :
    Consistent (received db d p) where
  receipts := by
    refine Table.unique_put Receipt.deliveryID h.receipts fun id r hr hname => ?_
    have hfalse := Table.find?_none hunknown.id hr
    simp [processedReceipt] at hname
    simp [hname] at hfalse
  keys := h.keys
  senders := h.senders
  referenced i x hx := by
    obtain ⟨r, hr⟩ := Option.ne_none_iff_exists'.1 (h.referenced i x hx)
    have hkept : (db.deliveries.put db.deliveries.nextKey (processedReceipt d p)).get? x.deliveryID = some r :=
      Table.get?_put_of_fresh (Table.get?_nextKey _) hr
    exact Option.ne_none_iff_exists'.2 ⟨r, hkept⟩
  queued := h.queued
  single := h.single
  intended := h.intended
  deployed := h.deployed
  named := h.named

theorem Consistent.enqueued {db : WebhookDB} {d : Delivery} {p : Push} {j : Job} {snapshot : Deployment.Snapshot}
    (h : Consistent db) (hunknown : Unknown db d) (hinsert : Insertable db j) (hnamed : j.deploymentID ≠ "") :
    Consistent (enqueued db d p j snapshot) := by
  have hreceived := h.received hunknown (p := p)
  have hintents : ∀ i x, db.intents.get? i = some x →
      x.deliveryID ≠ db.deliveries.nextKey ∧ x.deploymentID ≠ j.deploymentID := by
    intro i x hx
    simpa using Table.any_eq_false hinsert.intents hx
  have hjobs : ∀ id j', db.jobs.get? id = some j' → j'.deploymentID ≠ j.deploymentID := by
    intro id j' hj' hsame
    have hfalse := Table.any_eq_false hinsert.jobs hj'
    simp [hsame] at hfalse
  -- the rows that were there are still there
  have hjob : ∀ {id j'}, db.jobs.get? id = some j' → (db.jobs.put db.jobs.nextKey j).get? id = some j' :=
    Table.get?_put_of_fresh (Table.get?_nextKey _)
  have hintent : ∀ {i x}, db.intents.get? i = some x →
      (db.intents.put db.intents.nextKey ⟨db.deliveries.nextKey, j.key, j.deploymentID⟩).get? i = some x :=
    Table.get?_put_of_fresh (Table.get?_nextKey _)
  constructor
  case receipts => exact hreceived.receipts
  case keys =>
    refine Table.unique_put Intent.key h.keys fun i x hx hkey => ?_
    have hfalse := Table.find?_none hinsert.key hx
    simp [hkey] at hfalse
  case senders => exact Table.unique_put Intent.deliveryID h.senders fun i x hx => (hintents i x hx).1
  case referenced =>
    intro i x hx
    obtain ⟨-, rfl⟩ | hx := Table.get?_put_cases hx
    · simp [AutoDeploy.Webhook.enqueued, AutoDeploy.Webhook.received]
    · exact hreceived.referenced i x hx
  case queued =>
    intro i x hx
    obtain ⟨-, rfl⟩ | hx := Table.get?_put_cases hx
    · exact ⟨db.jobs.nextKey, j, Table.get?_put_self _ _ _, rfl⟩
    · obtain ⟨id, j', hj', hsame⟩ := h.queued i x hx
      exact ⟨id, j', hjob hj', hsame⟩
  case single => exact Table.unique_put Job.deploymentID h.single hjobs
  case intended =>
    intro id j' hj'
    obtain ⟨-, rfl⟩ | hj' := Table.get?_put_cases hj'
    · exact ⟨db.intents.nextKey, _, Table.get?_put_self _ _ _, rfl, rfl⟩
    · obtain ⟨i, x, hx, hsame, hkey⟩ := h.intended id j' hj'
      exact ⟨i, x, hintent hx, hsame, hkey⟩
  case deployed =>
    intro id hid
    obtain ⟨s, hs⟩ := Option.ne_none_iff_exists'.1 hid
    obtain ⟨rfl, -⟩ | hs := Table.get?_put_cases hs
    · exact ⟨db.intents.nextKey, _, Table.get?_put_self _ _ _, rfl⟩
    · obtain ⟨i, x, hx, hsame⟩ := h.deployed id (Option.ne_none_iff_exists'.2 ⟨s, hs⟩)
      exact ⟨i, x, hintent hx, hsame⟩
  case named =>
    intro i x hx
    obtain ⟨-, rfl⟩ | hx := Table.get?_put_cases hx
    · exact hnamed
    · exact h.named i x hx

-- What a call has checked before it touches the tables.
structure Admitted (now : Nat) (db : WebhookDB) (d : Delivery) (p : Push) (target : Target)
    (aggregate : Deployment.Aggregate) : Prop where
  delivery : d.valid = true ∧ d.event = .push ∧ d.verification = .verified ∧ d.processing = .pending ∧ p.valid = true
  authority : lockWebhookAuthorityForPush db.authority p = .ok target
  created : Deployment.new ⟨(webhookIDs target p).1, target.projectID, target.environmentID, target.serverID,
    p.commitSHA⟩ now = .ok aggregate
  job : (newJob target p now).valid = true

theorem processPush_eq_ok {now : Nat} {db db' : WebhookDB} {d : Delivery} {p : Push} {result : EnqueueResult} :
    processPush now db d p = .ok (db', result) ↔ ∃ target aggregate, Admitted now db d p target aggregate ∧
      enqueueVerifiedPushTx db d p aggregate (newJob target p now) = .ok (db', result) := by
  simp only [processPush, bind_eq_ok, require_eq_ok, mapError_eq_ok]
  constructor
  · rintro ⟨_, hdelivery, target, hauthority, aggregate, hcreated, _, hjob, h⟩
    exact ⟨target, aggregate, ⟨hdelivery, hauthority, hcreated, hjob⟩, h⟩
  · rintro ⟨target, aggregate, hadmitted, h⟩
    exact ⟨(), hadmitted.delivery, target, hadmitted.authority, aggregate, hadmitted.created, (), hadmitted.job, h⟩

theorem Admitted.identity {now : Nat} {db : WebhookDB} {d : Delivery} {p : Push} {target : Target}
    {aggregate : Deployment.Aggregate} (h : Admitted now db d p target aggregate) :
    aggregate.identity.deploymentID = (newJob target p now).deploymentID := by
  have hcreated := h.created
  unfold Deployment.new at hcreated
  split at hcreated
  · cases hcreated
  · split at hcreated
    · cases hcreated
    · cases hcreated
      rfl

theorem newJob_named (target : Target) (p : Push) (now : Nat) : (newJob target p now).deploymentID ≠ "" := by
  simp [newJob, webhookIDs]

-- Everything a call can do.
theorem processPush_cases {now : Nat} {db db' : WebhookDB} {d : Delivery} {p : Push} {target : Target}
    {result : EnqueueResult} (hauthority : lockWebhookAuthorityForPush db.authority p = .ok target)
    (h : processPush now db d p = .ok (db', result)) :
    (∃ id r, Replayed db d p id r ∧ resultForDelivery db id = .ok result ∧ db' = db) ∨
      (Unknown db d ∧ ∃ i x, db.intents.find? (fun _ i => i.key == intentKey target p) = some (i, x) ∧
        resultOf db db.deliveries.nextKey (some x) = .ok result ∧ db' = received db d p) ∨
      (Unknown db d ∧ Insertable db (newJob target p now) ∧
        result = ⟨db.deliveries.nextKey, (newJob target p now).deploymentID, db.jobs.nextKey⟩ ∧
        ∃ snapshot, db' = enqueued db d p (newJob target p now) snapshot) := by
  obtain ⟨target', aggregate, hadmitted, h⟩ := processPush_eq_ok.1 h
  have htarget : target' = target := Except.ok.inj (hadmitted.authority.symm.trans hauthority)
  subst htarget
  obtain hcase | hcase | ⟨hunknown, hinsert, hresult, hdb⟩ := enqueue_cases hadmitted.identity h
  · exact .inl hcase
  · exact .inr (.inl hcase)
  · exact .inr (.inr ⟨hunknown, hinsert, hresult, _, hdb⟩)

theorem processPush_admits {now : Nat} {db db' : WebhookDB} {d : Delivery} {p : Push} {result : EnqueueResult}
    (h : processPush now db d p = .ok (db', result)) : ∃ target aggregate, Admitted now db d p target aggregate := by
  obtain ⟨target, aggregate, hadmitted, -⟩ := processPush_eq_ok.1 h
  exact ⟨target, aggregate, hadmitted⟩

theorem Consistent.processPush {now : Nat} {db db' : WebhookDB} {d : Delivery} {p : Push} {result : EnqueueResult}
    (h : Consistent db) (hpush : processPush now db d p = .ok (db', result)) : Consistent db' := by
  obtain ⟨target, aggregate, hadmitted⟩ := processPush_admits hpush
  obtain ⟨id, r, -, -, rfl⟩ | ⟨hunknown, i, x, -, -, rfl⟩ | ⟨hunknown, hinsert, -, snapshot, rfl⟩ :=
    processPush_cases hadmitted.authority hpush
  · exact h
  · exact h.received hunknown
  · exact h.enqueued hunknown hinsert (newJob_named target p now)

theorem Consistent.of_reachable {db : WebhookDB} (h : webhookSystem.Reachable db) : Consistent db := by
  refine h.invariant (fun _ hinit => .of_initial hinit) ?_
  rintro db db' h ⟨now, d, p, result, hpush⟩
  exact h.processPush hpush

-- A later state: every row is still there, and an intent of a receipt that was there is not new.
structure Extends (db db' : WebhookDB) : Prop where
  receipts : ∀ id r, db.deliveries.get? id = some r → db'.deliveries.get? id = some r
  intents : ∀ i x, db.intents.get? i = some x → db'.intents.get? i = some x
  jobs : ∀ id j, db.jobs.get? id = some j → db'.jobs.get? id = some j
  senders : ∀ i x, db'.intents.get? i = some x → db.deliveries.get? x.deliveryID ≠ none → db.intents.get? i = some x
  authority : db'.authority = db.authority

theorem Extends.refl (db : WebhookDB) : Extends db db :=
  ⟨fun _ _ h => h, fun _ _ h => h, fun _ _ h => h, fun _ _ h _ => h, rfl⟩

theorem Extends.trans {db db' db'' : WebhookDB} (h : Extends db db') (h' : Extends db' db'') : Extends db db'' where
  receipts id r hr := h'.receipts id r (h.receipts id r hr)
  intents i x hx := h'.intents i x (h.intents i x hx)
  jobs id j hj := h'.jobs id j (h.jobs id j hj)
  senders i x hx hknown := by
    obtain ⟨r, hr⟩ := Option.ne_none_iff_exists'.1 hknown
    exact h.senders i x (h'.senders i x hx (Option.ne_none_iff_exists'.2 ⟨r, h.receipts _ r hr⟩)) hknown
  authority := h'.authority.trans h.authority

theorem extends_received (db : WebhookDB) (d : Delivery) (p : Push) : Extends db (received db d p) where
  receipts _ _ hr := Table.get?_put_of_fresh (Table.get?_nextKey _) hr
  intents _ _ hx := hx
  jobs _ _ hj := hj
  senders _ _ hx _ := hx
  authority := rfl

theorem extends_enqueued (db : WebhookDB) (d : Delivery) (p : Push) (j : Job) (snapshot : Deployment.Snapshot) :
    Extends db (enqueued db d p j snapshot) where
  receipts _ _ hr := Table.get?_put_of_fresh (Table.get?_nextKey _) hr
  intents _ _ hx := Table.get?_put_of_fresh (Table.get?_nextKey _) hx
  jobs _ _ hj := Table.get?_put_of_fresh (Table.get?_nextKey _) hj
  senders i x hx hknown := by
    obtain ⟨-, rfl⟩ | hrow := Table.get?_put_cases hx
    · exact absurd (Table.get?_nextKey _) hknown
    · exact hrow
  authority := rfl

theorem extends_processPush {now : Nat} {db db' : WebhookDB} {d : Delivery} {p : Push} {result : EnqueueResult}
    (h : processPush now db d p = .ok (db', result)) : Extends db db' := by
  obtain ⟨target, aggregate, hadmitted⟩ := processPush_admits h
  obtain ⟨id, r, -, -, rfl⟩ | ⟨-, i, x, -, -, rfl⟩ | ⟨-, -, -, snapshot, rfl⟩ := processPush_cases hadmitted.authority h
  · exact .refl _
  · exact extends_received db d p
  · exact extends_enqueued db d p _ snapshot

theorem extends_run {db db' : WebhookDB} (h : webhookSystem.Run db db') : Extends db db' := by
  refine chain_preserves (P := Extends db) ?_ h (.refl db)
  rintro db₁ db₂ hextends ⟨now, d, p, result, hpush⟩
  exact hextends.trans (extends_processPush hpush)

-- The join of a receipt's intent and its job.
theorem resultForDelivery_eq_ok {db : WebhookDB} (h : Consistent db) {id : Nat} {result : EnqueueResult} :
    resultForDelivery db id = .ok result ↔ ∃ i x jobID j, db.intents.get? i = some x ∧ x.deliveryID = id ∧
      db.jobs.get? jobID = some j ∧ j.deploymentID = x.deploymentID ∧ result = ⟨id, x.deploymentID, jobID⟩ := by
  simp only [resultForDelivery, resultOf, bind_eq_ok, found_eq_ok, require_eq_ok, pure_eq_ok, Option.map_eq_some_iff,
    Prod.exists]
  constructor
  · rintro ⟨x, ⟨i, _, hfind, rfl⟩, jobID, j, hjob, _, -, rfl⟩
    obtain ⟨hx, hid⟩ := Table.find?_some hfind
    obtain ⟨hj, hsame⟩ := Table.find?_some hjob
    exact ⟨i, _, jobID, j, hx, by simpa using hid, hj, by simpa using hsame, rfl⟩
  · rintro ⟨i, x, jobID, j, hx, rfl, hj, hsame, rfl⟩
    have hfind : db.intents.find? (fun _ i => i.deliveryID == x.deliveryID) = some (i, x) :=
      Table.find?_eq_of_unique hx (by simp) fun i' x' hx' hid => h.senders i' x' i x hx' hx (by simpa using hid)
    have hjob : db.jobs.find? (fun _ j => j.deploymentID == x.deploymentID) = some (jobID, j) :=
      Table.find?_eq_of_unique hj (by simpa using hsame) fun id' j' hj' hid =>
        h.single id' j' jobID j hj' hj ((by simpa using hid : j'.deploymentID = x.deploymentID).trans hsame.symm)
    exact ⟨x, ⟨i, x, hfind, rfl⟩, jobID, j, hjob, (), h.named i x hx, rfl⟩

-- The checks of a call do not depend on when it is made.
theorem Admitted.again {now now' : Nat} {db db' : WebhookDB} {d : Delivery} {p : Push} {target : Target}
    {aggregate : Deployment.Aggregate} (h : Admitted now db d p target aggregate) (hauthority : db'.authority = db.authority)
    (hclock : 0 < now') : ∃ aggregate', Admitted now' db' d p target aggregate' := by
  have hcreated := h.created
  unfold Deployment.new at hcreated
  split at hcreated
  · cases hcreated
  · rename_i hidentity
    have hnow : now' ≠ 0 := by omega
    have hagain : ∃ aggregate', Deployment.new ⟨(webhookIDs target p).1, target.projectID, target.environmentID,
        target.serverID, p.commitSHA⟩ now' = .ok aggregate' := by
      simp only [Deployment.new, hidentity, if_neg hnow]
      exact ⟨_, rfl⟩
    obtain ⟨aggregate', hagain⟩ := hagain
    refine ⟨aggregate', h.delivery, by rw [hauthority]; exact h.authority, hagain, ?_⟩
    have hjob := h.job
    simp only [Job.valid, newJob, Bool.and_eq_true] at hjob ⊢
    obtain ⟨⟨hfields, -⟩, hkey⟩ := hjob
    exact ⟨⟨hfields, decide_eq_true hclock⟩, hkey⟩

-- Redelivering a known delivery is the query for the intent of its receipt.
theorem redeliver_iff {now : Nat} {db : WebhookDB} {d : Delivery} {p : Push} {target : Target}
    {aggregate : Deployment.Aggregate} {id : Nat} {r : Receipt} {result : EnqueueResult} (h : Consistent db)
    (hadmitted : Admitted now db d p target aggregate) (hrow : db.deliveries.get? id = some r)
    (hid : r.deliveryID = d.deliveryID)
    (hsame : r.bodyDigest = d.bodyDigest ∧ r.event = d.event ∧ r.installationID = p.installationID ∧
      r.repositoryID = p.repositoryID ∧ r.githubOwnerID = p.ownerID) :
    processPush now db d p = .ok (db, result) ↔ resultForDelivery db id = .ok result := by
  have hfind : db.deliveries.find? (fun _ r => r.deliveryID == d.deliveryID) = some (id, r) :=
    Table.find?_eq_of_unique hrow (by simpa using hid) fun id' r' hr' hname =>
      h.receipts id' r' id r hr' hrow ((by simpa using hname : r'.deliveryID = d.deliveryID).trans hid.symm)
  rw [processPush_eq_ok]
  constructor
  · rintro ⟨target', aggregate', -, htx⟩
    simp only [enqueueVerifiedPushTx, insertOrResolveDelivery, hfind, require_pos hsame, ok_bind, pure_bind,
      Bool.not_false, if_true, bind_eq_ok, pure_eq_ok, Prod.mk.injEq, true_and] at htx
    obtain ⟨_, hresult, rfl⟩ := htx
    exact hresult
  · intro hresult
    refine ⟨target, aggregate, hadmitted, ?_⟩
    simp only [enqueueVerifiedPushTx, insertOrResolveDelivery, hfind, require_pos hsame, ok_bind, pure_bind,
      Bool.not_false, if_true, hresult]
    rfl

-- One job and one deployment for each binding, repository, ref and commit.
structure OnePerIntent (db : WebhookDB) : Prop where
  job : ∀ id j id' j', db.jobs.get? id = some j → db.jobs.get? id' = some j' → j.key = j'.key → id = id'
  deployment : ∀ i x i' x', db.intents.get? i = some x → db.intents.get? i' = some x' → x.key = x'.key →
    x.deploymentID = x'.deploymentID
  owned : ∀ id, db.deployments.get? id ≠ none → ∃ i x, db.intents.get? i = some x ∧ x.deploymentID = id

theorem Consistent.onePerIntent {db : WebhookDB} (h : Consistent db) : OnePerIntent db where
  job id j id' j' hj hj' hkey := by
    obtain ⟨i, x, hx, hdeployment, hkey₁⟩ := h.intended id j hj
    obtain ⟨i', x', hx', hdeployment', hkey₂⟩ := h.intended id' j' hj'
    have hi := h.keys i x i' x' hx hx' (by rw [hkey₁, hkey₂, hkey])
    subst hi
    rw [hx] at hx'
    cases hx'
    exact h.single id j id' j' hj hj' (hdeployment.symm.trans hdeployment')
  deployment i x i' x' hx hx' hkey := by
    have hi := h.keys i x i' x' hx hx' hkey
    subst hi
    rw [hx] at hx'
    cases hx'
    rfl
  owned := h.deployed

-- The delivery was known, or it was the first of its intent.
def FirstOfIntent (db : WebhookDB) (d : Delivery) (p : Push) : Prop :=
  (∃ id r, db.deliveries.get? id = some r ∧ r.deliveryID = d.deliveryID) ∨
    ∀ target, lockWebhookAuthorityForPush db.authority p = .ok target →
      ∀ i x, db.intents.get? i = some x → x.key ≠ intentKey target p

theorem not_known_of_unknown {db : WebhookDB} {d : Delivery} (h : Unknown db d) :
    ¬ ∃ id r, db.deliveries.get? id = some r ∧ r.deliveryID = d.deliveryID := by
  rintro ⟨id, r, hr, hid⟩
  have hfalse := Table.find?_none h.id hr
  simp [hid] at hfalse

-- In every history: one job and one deployment for each intent, and an accepted delivery is answered the same again,
-- whatever came in between, exactly when it was the first of its intent.
theorem redelivery_iff_first {db : WebhookDB} (h : webhookSystem.Reachable db) :
    OnePerIntent db ∧ ∀ now d p db₁ result db₂ now', processPush now db d p = .ok (db₁, result) →
      webhookSystem.Run db₁ db₂ → 0 < now' →
        (processPush now' db₂ d p = .ok (db₂, result) ↔ FirstOfIntent db d p) := by
  have hconsistent := Consistent.of_reachable h
  refine ⟨hconsistent.onePerIntent, ?_⟩
  intro now d p db₁ result db₂ now' hpush hrun hclock
  have hreach₁ : webhookSystem.Reachable db₁ := h.step ⟨now, d, p, result, hpush⟩
  have hconsistent₂ := Consistent.of_reachable (hreach₁.run hrun)
  have hlater := extends_run hrun
  have hauthority := hlater.authority.trans (extends_processPush hpush).authority
  obtain ⟨target, aggregate, hadmitted⟩ := processPush_admits hpush
  obtain ⟨aggregate', hagain⟩ := hadmitted.again hauthority hclock
  obtain ⟨id, r, hreplayed, hresult, rfl⟩ | ⟨hunknown, i, x, hintent, hresult, rfl⟩ |
    ⟨hunknown, hinsert, rfl, snapshot, rfl⟩ := processPush_cases hadmitted.authority hpush
  · -- it was a redelivery itself
    obtain ⟨hrow, hid⟩ := Table.find?_some hreplayed.known
    have hid : r.deliveryID = d.deliveryID := by simpa using hid
    rw [redeliver_iff hconsistent₂ hagain (hlater.receipts id r hrow) hid hreplayed.same]
    refine iff_of_true ?_ (.inl ⟨id, r, hrow, hid⟩)
    obtain ⟨i, x, jobID, j, hx, hsent, hj, hsame, rfl⟩ := (resultForDelivery_eq_ok hconsistent).1 hresult
    exact (resultForDelivery_eq_ok hconsistent₂).2 ⟨i, x, jobID, j, hlater.intents i x hx, hsent, hlater.jobs jobID j hj,
      hsame, rfl⟩
  · -- another delivery holds the intent: the receipt has none of its own, then or later
    have hrow : (received db d p).deliveries.get? db.deliveries.nextKey = some (processedReceipt d p) :=
      Table.get?_put_self _ _ _
    rw [redeliver_iff hconsistent₂ hagain (hlater.receipts _ _ hrow) rfl ⟨rfl, rfl, rfl, rfl, rfl⟩]
    refine iff_of_false ?_ ?_
    · intro hanswer
      obtain ⟨i', x', jobID, j, hx', hsent, -⟩ := (resultForDelivery_eq_ok hconsistent₂).1 hanswer
      have hold : db.intents.get? i' = some x' := hlater.senders i' x' hx' (by rw [hsent, hrow]; simp)
      have hreferenced := hconsistent.referenced i' x' hold
      rw [hsent, Table.get?_nextKey] at hreferenced
      exact hreferenced rfl
    · rintro (hknown | hnone)
      · exact not_known_of_unknown hunknown hknown
      · obtain ⟨hx, hkey⟩ := Table.find?_some hintent
        exact hnone target hadmitted.authority i x hx (by simpa using hkey)
  · -- it made the intent
    have hrow : (enqueued db d p (newJob target p now) snapshot).deliveries.get? db.deliveries.nextKey =
        some (processedReceipt d p) := Table.get?_put_self _ _ _
    rw [redeliver_iff hconsistent₂ hagain (hlater.receipts _ _ hrow) rfl ⟨rfl, rfl, rfl, rfl, rfl⟩]
    refine iff_of_true ?_ (.inr ?_)
    · refine (resultForDelivery_eq_ok hconsistent₂).2 ⟨db.intents.nextKey, _, db.jobs.nextKey, newJob target p now,
        hlater.intents _ _ (Table.get?_put_self _ _ _), rfl, hlater.jobs _ _ (Table.get?_put_self _ _ _), rfl, rfl⟩
    · intro target' htarget' i x hx hkey
      have hsame : target' = target := Except.ok.inj (htarget'.symm.trans hadmitted.authority)
      subst hsame
      have hfalse := Table.find?_none hinsert.key hx
      simp [newJob, hkey] at hfalse

-- One binding of one repository, and two pushes of the same commit.
def sampleWebhookDB : WebhookDB where
  authority :=
    { registered := true
      installations := Table.empty.put 7 ⟨"owner", 9, true, false⟩
      repositories := Table.empty.put 42 ⟨7, "owner", 9, true⟩
      bindings := Table.empty.put ("owner", "project") ⟨42, 7, "refs/heads/main", some "env", some "srv", true⟩ }
  deliveries := .empty
  intents := .empty
  jobs := .empty
  deployments := .empty
  jobEvents := []

def samplePush : Push := ⟨7, 42, 9, "refs/heads/main", "c0ffeec0ffeec0ffeec0ffeec0ffeec0ffeec0ff"⟩

theorem length_sampleDelivery (body : UInt8) : (List.replicate 32 body).length = 32 := List.length_replicate

def sampleDelivery (id : String) (body : UInt8) : Delivery :=
  ⟨id, .push, ⟨List.replicate 32 body, length_sampleDelivery body⟩, .verified, .pending, .none⟩

def stateAfter {α : Type} (db : WebhookDB) (x : Except WebhookError (WebhookDB × α)) : WebhookDB :=
  (x.toOption.map Prod.fst).getD db

def sampleFirst : WebhookDB := stateAfter sampleWebhookDB (processPush 1000 sampleWebhookDB (sampleDelivery "first" 1) samplePush)

def sampleSecond : WebhookDB := stateAfter sampleFirst (processPush 2000 sampleFirst (sampleDelivery "second" 2) samplePush)

theorem ok_stateAfter {α : Type} (db : WebhookDB) {x : Except WebhookError (WebhookDB × α)}
    (h : x.toOption.any (fun _ => true) = true) : ∃ a, x = .ok (stateAfter db x, a) := by
  obtain ⟨⟨db', a⟩, rfl, -⟩ := ok_of_any h
  exact ⟨a, rfl⟩

theorem sampleFirst_accepted : ∃ result,
    processPush 1000 sampleWebhookDB (sampleDelivery "first" 1) samplePush = .ok (sampleFirst, result) :=
  ok_stateAfter _ (by decide +kernel)

theorem sampleSecond_accepted : ∃ result,
    processPush 2000 sampleFirst (sampleDelivery "second" 2) samplePush = .ok (sampleSecond, result) :=
  ok_stateAfter _ (by decide +kernel)

theorem redelivery_iff_first_sample :
    OnePerIntent sampleWebhookDB ∧ ∃ result,
      processPush 1000 sampleWebhookDB (sampleDelivery "first" 1) samplePush = .ok (sampleFirst, result) ∧
      processPush 3000 sampleSecond (sampleDelivery "first" 1) samplePush = .ok (sampleSecond, result) := by
  have hinit : webhookSystem.Reachable sampleWebhookDB :=
    .of_initial ⟨fun _ => rfl, fun _ => rfl, fun _ => rfl, fun _ => rfl⟩
  obtain ⟨result, hfirst⟩ := sampleFirst_accepted
  obtain ⟨result', hsecond⟩ := sampleSecond_accepted
  have hrun : webhookSystem.Run sampleFirst sampleSecond := .single ⟨2000, _, _, result', hsecond⟩
  obtain ⟨hone, hiff⟩ := redelivery_iff_first hinit
  refine ⟨hone, result, hfirst, (hiff 1000 _ _ _ _ _ 3000 hfirst hrun (by decide)).2 (.inr ?_)⟩
  intro target _ i x hx
  cases hx

-- The second delivery was accepted, and its redelivery is refused.
theorem second_delivery_not_redelivered :
    (∃ result, processPush 1000 sampleWebhookDB (sampleDelivery "first" 1) samplePush = .ok (sampleFirst, result)) ∧
      (∃ result, processPush 2000 sampleFirst (sampleDelivery "second" 2) samplePush = .ok (sampleSecond, result)) ∧
      processPush 3000 sampleSecond (sampleDelivery "second" 2) samplePush = .error .integrity := by
  exact ⟨sampleFirst_accepted, sampleSecond_accepted, error_of_failsWith (by decide +kernel)⟩

end AutoDeploy.Webhook
