import AutoDeploy.Checkout.Reservations

namespace AutoDeploy.Checkout

open Lib Lib.Result

-- The transactions that take an installation or some of its repositories away again. The session of whoever asks, the
-- account of the installation and the audit rows decide only whether one is made at all.

-- One repository of a complete listing from the provider.
structure Listed where
  repositoryID : Nat
  name : String
  fullName : String
deriving DecidableEq, Repr

def Listed.valid (r : Listed) : Bool := decide (0 < r.repositoryID) && r.name != "" && r.fullName != ""

def Listed.cloneURL (r : Listed) : String := "https://github.com/" ++ r.fullName ++ ".git"

inductive Withdrawal
  | disableInstallation (owner : String) (installationID : Nat)
  | reconcileInstallation (owner : String) (installationID : Nat) (repositories : List Listed)
  | completeHandoff (owner : String) (installationID : Nat) (repositories : List Listed)
  | installationSuspended (installationID : Nat)
  | repositoriesRemoved (installationID : Nat) (repositoryIDs : List Nat)
deriving DecidableEq, Repr

def Installation.deactivated (i : Installation) : Installation :=
  { i with active := false, suspended := true, revision := i.revision + 1 }

def Repository.deactivated (r : Repository) : Repository := { r with active := false, revision := r.revision + 1 }

def ProjectBinding.deactivated (b : ProjectBinding) : ProjectBinding :=
  { b with active := false, revision := b.revision + 1 }

-- UPDATE of the three tables, one WHERE each.
def Authority.deactivate (a : Authority) (installations : Nat → Installation → Bool)
    (repositories : Nat → Repository → Bool) (bindings : String × String → ProjectBinding → Bool) : Authority where
  bindings := a.bindings.mapValues fun k b => if bindings k b then b.deactivated else b
  repositories := a.repositories.mapValues fun k r => if repositories k r then r.deactivated else r
  installations := a.installations.mapValues fun k i => if installations k i then i.deactivated else i
  registered := a.registered
  referenced := by
    intro key b hb
    rw [Table.get?_mapValues, Option.map_eq_some_iff] at hb
    obtain ⟨b', hb', rfl⟩ := hb
    obtain ⟨r, hr, hinstallation, howner⟩ := a.referenced key b' hb'
    refine ⟨if repositories b'.repositoryID r then r.deactivated else r, ?_, ?_, ?_⟩
    · have hsame : (if bindings key b' then b'.deactivated else b').repositoryID = b'.repositoryID := by
        split <;> rfl
      rw [hsame, Table.get?_mapValues, hr]
      rfl
    · have hsame : (if bindings key b' then b'.deactivated else b').installationID = b'.installationID := by
        split <;> rfl
      rw [hsame, ← hinstallation]
      split <;> rfl
    · rw [← howner]
      split <;> rfl

-- What a listing says about a repository that is already there.
def Listed.refresh (listed : Listed) (r : Repository) : Repository :=
  { r with cloneURL := listed.cloneURL, active := true, revision := r.revision + 1 }

def Authority.refresh (a : Authority) (owner : String) (installationID : Nat) (listed : Listed) : Authority where
  bindings := a.bindings
  repositories := a.repositories.mapValues fun k r =>
    if k == listed.repositoryID && r.ownerID == owner && r.installationID == installationID then listed.refresh r else r
  installations := a.installations
  registered := a.registered
  referenced := by
    intro key b hb
    obtain ⟨r, hr, hinstallation, howner⟩ := a.referenced key b hb
    rw [Table.get?_mapValues, hr]
    refine ⟨_, rfl, ?_, ?_⟩
    · rw [← hinstallation]
      dsimp only
      split <;> rfl
    · rw [← howner]
      dsimp only
      split <;> rfl

-- INSERT of a repository, or the refresh of one that belongs to the same installation and owner.
def Authority.upsert (a : Authority) (owner : String) (installationID : Nat) (listed : Listed) : Option Authority :=
  match hrow : a.repositories.get? listed.repositoryID with
  | some r =>
      if r.ownerID = owner ∧ r.installationID = installationID then some (a.refresh owner installationID listed) else none
  | none =>
      some {
        bindings := a.bindings
        repositories := a.repositories.put listed.repositoryID ⟨owner, installationID, listed.cloneURL, 1, true⟩
        installations := a.installations
        registered := a.registered
        referenced := by
          intro key b hb
          obtain ⟨r, hr, hsame⟩ := a.referenced key b hb
          exact ⟨r, Table.get?_put_of_fresh hrow hr, hsame⟩ }

-- INSERT of an installation, or the activation of one of the same owner.
def Authority.activate (a : Authority) (owner : String) (installationID : Nat) : Option Authority :=
  match a.installations.get? installationID with
  | some i =>
      if i.ownerID = owner then
        some { a with installations := a.installations.put installationID { i with active := true, suspended := false } }
      else none
  | none => some { a with installations := a.installations.put installationID ⟨owner, 1, true, false⟩ }

def ofInstallation (owner : String) (installationID : Nat) (r : Repository) : Bool :=
  r.ownerID == owner && r.installationID == installationID

-- The active repositories of an installation that a complete listing no longer has.
def unlisted (owner : String) (installationID : Nat) (repositories : List Listed) (k : Nat) (r : Repository) : Bool :=
  ofInstallation owner installationID r && r.active && !(repositories.map Listed.repositoryID).contains k

-- The active bindings of an owner to repositories that were just deactivated.
def boundTo (a : Authority) (owner : String) (repositories : Nat → Repository → Bool) (k : String × String)
    (b : ProjectBinding) : Bool :=
  k.1 == owner && b.active && (a.repositories.get? b.repositoryID).any (repositories b.repositoryID)

def Authority.deactivateUnlisted (a : Authority) (owner : String) (installationID : Nat) (repositories : List Listed) :
    Authority :=
  a.deactivate (fun _ _ => false) (unlisted owner installationID repositories)
    (boundTo a owner (unlisted owner installationID repositories))

def liveOf (owner : String) (installationID : Nat) (r : Reservation) : Bool :=
  r.snapshot.ownerID == owner && r.snapshot.installationID == installationID && r.state.live

def invalidatedCheckoutIDs (db : GitHubDB) (owner : String) (installationID : Nat) : List String :=
  (db.reservations.select fun _ r => liveOf owner installationID r).map Prod.fst

-- A withdrawal that goes through gives the tables after it and the reservations it invalidated. An installation that
-- is already inactive is disabled without a change.
def Withdrawal.apply (db : GitHubDB) : Withdrawal → Option (GitHubDB × List String)
  | .disableInstallation owner installationID => do
      let i ← (db.authority.installations.get? installationID).filter fun i => i.ownerID == owner
      if i.active then
        let repositories := fun _ r => ofInstallation owner installationID r && r.active
        let authority := db.authority.deactivate (fun k i => k == installationID && i.ownerID == owner && i.active)
          repositories (boundTo db.authority owner repositories)
        some (invalidateCheckouts { db with authority := authority } owner installationID,
          invalidatedCheckoutIDs db owner installationID)
      else some (db, [])
  | .reconcileInstallation owner installationID repositories => do
      let _ ← (db.authority.installations.get? installationID).filter fun i =>
        i.ownerID == owner && i.active && !i.suspended
      if repositories.all Listed.valid then
        let refreshed := repositories.foldl (fun a r => a.refresh owner installationID r) db.authority
        let authority := refreshed.deactivateUnlisted owner installationID repositories
        some (invalidateCheckouts { db with authority := authority } owner installationID,
          invalidatedCheckoutIDs db owner installationID)
      else none
  | .completeHandoff owner installationID repositories => do
      let activated ← db.authority.activate owner installationID
      if repositories.all Listed.valid then
        let upserted ← repositories.foldlM (fun a r => a.upsert owner installationID r) activated
        some ({ db with authority := upserted.deactivateUnlisted owner installationID repositories }, [])
      else none
  | .installationSuspended installationID => do
      let _ ← db.authority.installations.get? installationID
      let authority := db.authority.deactivate (fun k _ => k == installationID)
        (fun _ r => r.installationID == installationID) (fun _ b => b.installationID == installationID)
      some ({ db with authority := authority }, [])
  | .repositoriesRemoved installationID repositoryIDs =>
      if repositoryIDs.all fun id =>
          (db.authority.repositories.get? id).any fun r => r.installationID == installationID then
        let authority := repositoryIDs.foldl (fun a id => a.deactivate (fun _ _ => false)
          (fun k r => k == id && r.installationID == installationID)
          (fun _ b => b.repositoryID == id && b.installationID == installationID)) db.authority
        some ({ db with authority := authority }, [])
      else none

-- The two that also invalidate the reservations.
def Withdrawal.invalidates : Withdrawal → Bool
  | .disableInstallation .. | .reconcileInstallation .. => true
  | .completeHandoff .. | .installationSuspended .. | .repositoriesRemoved .. => false

-- Whose authority a withdrawal takes away: that of a whole installation, or that of some of its repositories.
def Withdrawal.withdraws (a : Authority) (s : Snapshot) : Withdrawal → Bool
  | .disableInstallation owner installationID =>
      s.ownerID == owner && s.installationID == installationID &&
        (a.installations.get? installationID).any Installation.active
  | .reconcileInstallation owner installationID repositories | .completeHandoff owner installationID repositories =>
      s.ownerID == owner && s.installationID == installationID &&
        (a.repositories.get? s.repositoryID).any (unlisted owner installationID repositories s.repositoryID)
  | .installationSuspended installationID => s.installationID == installationID
  | .repositoriesRemoved installationID repositoryIDs =>
      s.installationID == installationID && repositoryIDs.contains s.repositoryID

-- Whoever is authorized has an active repository in an active installation.
theorem authorized_active {a : Authority} {owner project : String} {s : Snapshot}
    (h : authorized a owner project = some s) :
    (∃ r, a.repositories.get? s.repositoryID = some r ∧ r.active = true ∧ r.installationID = s.installationID) ∧
      ∃ i, a.installations.get? s.installationID = some i ∧ i.active = true := by
  simp only [authorized, Option.bind_eq_bind, Option.bind_eq_some_iff, Option.filter_eq_some_iff,
    Bool.and_eq_true] at h
  obtain ⟨b, ⟨hb, -⟩, r, ⟨hr, -, hractive⟩, i, ⟨hi, ⟨-, hiactive⟩, -⟩, hregistered⟩ := h
  split at hregistered
  case isFalse => cases hregistered
  case isTrue =>
      cases hregistered
      obtain ⟨r', hr', hinstallation, -⟩ := a.referenced _ b hb
      cases hr.symm.trans hr'
      exact ⟨⟨r, hr, hractive, hinstallation⟩, i, hi, hiactive⟩

theorem Authority.get?_refresh_of_ne {a : Authority} {owner : String} {installationID k : Nat} {listed : Listed}
    (hk : k ≠ listed.repositoryID) :
    (a.refresh owner installationID listed).repositories.get? k = a.repositories.get? k := by
  simp [refresh, hk]

theorem Authority.get?_upsert_of_ne {a a' : Authority} {owner : String} {installationID k : Nat} {listed : Listed}
    (h : a.upsert owner installationID listed = some a') (hk : k ≠ listed.repositoryID) :
    a'.repositories.get? k = a.repositories.get? k := by
  unfold upsert at h
  split at h
  · split at h
    · cases h
      exact get?_refresh_of_ne hk
    · cases h
  · cases h
    simp only [Table.get?_put, if_neg hk]

-- A listing leaves the repositories it does not have alone.
theorem Authority.get?_refreshAll {owner : String} {installationID k : Nat} {repositories : List Listed}
    (hk : k ∉ repositories.map Listed.repositoryID) (a : Authority) :
    (repositories.foldl (fun a r => a.refresh owner installationID r) a).repositories.get? k = a.repositories.get? k := by
  induction repositories generalizing a with
  | nil => rfl
  | cons r rest ih =>
      rw [List.map_cons, List.mem_cons, not_or] at hk
      rw [List.foldl_cons, ih hk.2, get?_refresh_of_ne hk.1]

theorem Authority.get?_upsertAll {owner : String} {installationID k : Nat} {repositories : List Listed}
    (hk : k ∉ repositories.map Listed.repositoryID) {a a' : Authority}
    (h : repositories.foldlM (fun a r => a.upsert owner installationID r) a = some a') :
    a'.repositories.get? k = a.repositories.get? k := by
  induction repositories generalizing a with
  | nil =>
      cases h
      rfl
  | cons r rest ih =>
      rw [List.map_cons, List.mem_cons, not_or] at hk
      rw [List.foldlM_cons, Option.bind_eq_bind, Option.bind_eq_some_iff] at h
      obtain ⟨a₁, ha₁, hrest⟩ := h
      rw [ih hk.2 hrest, get?_upsert_of_ne ha₁ hk.1]

theorem Authority.repositories_activate {a a' : Authority} {owner : String} {installationID : Nat}
    (h : a.activate owner installationID = some a') : a'.repositories = a.repositories := by
  unfold activate at h
  split at h
  · split at h
    · cases h
      rfl
    · cases h
  · cases h
    rfl

theorem unlisted_not_mem {o : Option Repository} {owner : String} {installationID k : Nat} {repositories : List Listed}
    (h : o.any (unlisted owner installationID repositories k) = true) : k ∉ repositories.map Listed.repositoryID := by
  rw [Option.any_eq_true] at h
  obtain ⟨r, -, hr⟩ := h
  simp only [unlisted, Bool.and_eq_true, Bool.not_eq_true', List.contains_eq_mem, decide_eq_false_iff_not] at hr
  exact hr.2

-- What a row is after the three updates.
theorem Authority.get?_deactivate {a : Authority} {installations : Nat → Installation → Bool}
    {repositories : Nat → Repository → Bool} {bindings : String × String → ProjectBinding → Bool} {k : Nat}
    {r : Repository} (h : (a.deactivate installations repositories bindings).repositories.get? k = some r) :
    ∃ old, a.repositories.get? k = some old ∧ r.installationID = old.installationID ∧
      (r.active = true → old.active = true ∧ repositories k old = false) := by
  simp only [deactivate, Table.get?_mapValues, Option.map_eq_some_iff] at h
  obtain ⟨old, hold, rfl⟩ := h
  refine ⟨old, hold, ?_, ?_⟩
  · split <;> rfl
  · intro hactive
    split at hactive
    case isTrue => cases hactive
    case isFalse hnot => exact ⟨hactive, by simpa using hnot⟩

theorem Authority.active_deactivateUnlisted {a : Authority} {owner : String} {installationID k : Nat}
    {repositories : List Listed} {r : Repository}
    (hr : (a.deactivateUnlisted owner installationID repositories).repositories.get? k = some r)
    (hactive : r.active = true) :
    (a.repositories.get? k).any (unlisted owner installationID repositories k) = false := by
  obtain ⟨old, hold, -, hkept⟩ := get?_deactivate hr
  rw [hold, Option.any_some]
  exact (hkept hactive).2

-- Repositories that are removed one after the other are all inactive in the end.
theorem Authority.active_removed {installationID k : Nat} {ids : List Nat} {a : Authority} {r : Repository}
    (hr : (ids.foldl (fun a id => a.deactivate (fun _ _ => false)
      (fun k r => k == id && r.installationID == installationID)
      (fun _ b => b.repositoryID == id && b.installationID == installationID)) a).repositories.get? k = some r)
    (hactive : r.active = true) :
    (∃ old, a.repositories.get? k = some old ∧ old.active = true ∧ r.installationID = old.installationID) ∧
      (r.installationID = installationID → k ∉ ids) := by
  induction ids generalizing a with
  | nil => exact ⟨⟨r, hr, hactive, rfl⟩, by simp⟩
  | cons id rest ih =>
      rw [List.foldl_cons] at hr
      obtain ⟨⟨mid, hmid, hmidactive, hsame⟩, hrest⟩ := ih hr
      obtain ⟨old, hold, hinstallation, hkept⟩ := get?_deactivate hmid
      obtain ⟨holdactive, hnot⟩ := hkept hmidactive
      refine ⟨⟨old, hold, holdactive, hsame.trans hinstallation⟩, ?_⟩
      intro hid
      rw [List.mem_cons, not_or]
      refine ⟨?_, hrest hid⟩
      rintro rfl
      simp [← hinstallation, ← hsame, hid] at hnot

-- Right after a withdrawal nobody is authorized for what it took away.
theorem Withdrawal.apply_unauthorized {w : Withdrawal} {db db' : GitHubDB} {ids : List String}
    (h : w.apply db = some (db', ids)) {owner project : String} {s : Snapshot}
    (hauthorized : authorized db'.authority owner project = some s) : w.withdraws db.authority s = false := by
  obtain ⟨⟨r, hr, hractive, hinstallation⟩, i, hi, hiactive⟩ := authorized_active hauthorized
  cases w with
  | disableInstallation owner installationID =>
      simp only [apply, Option.bind_eq_bind, Option.bind_eq_some_iff, Option.filter_eq_some_iff] at h
      obtain ⟨old, ⟨hold, howner⟩, h⟩ := h
      by_contra hwithdraws
      simp only [withdraws, Bool.not_eq_false, Bool.and_eq_true, beq_iff_eq] at hwithdraws
      obtain ⟨⟨-, hid⟩, hactive⟩ := hwithdraws
      rw [hold, Option.any_some] at hactive
      rw [if_pos hactive] at h
      cases h
      rw [beq_iff_eq] at howner
      simp only [invalidateCheckouts, Authority.deactivate, Table.get?_mapValues, hid, hold, Option.map_some, beq_self_eq_true,
        howner, hactive, Bool.and_self, if_true, Option.some.injEq] at hi
      subst hi
      cases hiactive
  | reconcileInstallation owner installationID repositories =>
      simp only [apply, Option.bind_eq_bind, Option.bind_eq_some_iff] at h
      obtain ⟨_, -, h⟩ := h
      split at h
      case isFalse => cases h
      case isTrue =>
          cases h
          have hlisted := Authority.active_deactivateUnlisted hr hractive
          by_contra hwithdraws
          simp only [withdraws, Bool.not_eq_false, Bool.and_eq_true] at hwithdraws
          have hany := hwithdraws.2
          rw [← Authority.get?_refreshAll (unlisted_not_mem hany) db.authority, hlisted] at hany
          cases hany
  | completeHandoff owner installationID repositories =>
      simp only [apply, Option.bind_eq_bind, Option.bind_eq_some_iff] at h
      obtain ⟨activated, hactivated, h⟩ := h
      split at h
      case isFalse => cases h
      case isTrue =>
          simp only [Option.bind_eq_some_iff] at h
          obtain ⟨upserted, hupserted, h⟩ := h
          cases h
          have hlisted := Authority.active_deactivateUnlisted hr hractive
          by_contra hwithdraws
          simp only [withdraws, Bool.not_eq_false, Bool.and_eq_true] at hwithdraws
          have hany := hwithdraws.2
          rw [← Authority.repositories_activate hactivated,
            ← Authority.get?_upsertAll (unlisted_not_mem hany) hupserted, hlisted] at hany
          cases hany
  | installationSuspended installationID =>
      simp only [apply, Option.bind_eq_bind, Option.bind_eq_some_iff] at h
      obtain ⟨old, hold, h⟩ := h
      cases h
      by_contra hwithdraws
      simp only [withdraws, Bool.not_eq_false, beq_iff_eq] at hwithdraws
      simp only [Authority.deactivate, Table.get?_mapValues, hwithdraws, hold, Option.map_some, beq_self_eq_true, if_true,
        Option.some.injEq] at hi
      subst hi
      cases hiactive
  | repositoriesRemoved installationID repositoryIDs =>
      simp only [apply] at h
      split at h
      case isFalse => cases h
      case isTrue =>
          cases h
          obtain ⟨-, hkept⟩ := Authority.active_removed hr hractive
          by_contra hwithdraws
          simp only [withdraws, Bool.not_eq_false, Bool.and_eq_true, beq_iff_eq, List.contains_iff_mem] at hwithdraws
          exact hkept (hinstallation.trans hwithdraws.1) hwithdraws.2

end AutoDeploy.Checkout
