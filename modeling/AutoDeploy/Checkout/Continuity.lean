import AutoDeploy.Checkout.Requests
import AutoDeploy.Checkout.Withdrawals
import AutoDeploy.Lib.Revisions
import AutoDeploy.Lib.Runs

namespace AutoDeploy.Checkout

open Lib Lib.Result

-- UNIQUE (owner_id, repository_id): no other project of the owner has a row for the repository, active or not.
def Authority.unbound (a : Authority) (owner project : String) (repositoryID : Nat) : Bool :=
  !a.bindings.any fun key b => key.1 == owner && key.2 != project && b.repositoryID == repositoryID

theorem Authority.eq_of_unbound {a : Authority} {owner project project' : String} {repositoryID : Nat} {b : ProjectBinding}
    (h : a.unbound owner project repositoryID = true) (hb : a.bindings.get? (owner, project') = some b)
    (hsame : b.repositoryID = repositoryID) : project' = project := by
  simp only [Authority.unbound, Bool.not_eq_true'] at h
  simpa [hsame] using Table.any_eq_false h hb

-- INSERT of a project's binding, or its next revision. The repository has to be active, and so has its installation,
-- and the row must not break the table's second key.
def Authority.bindRepository (a : Authority) (owner project : String) (repositoryID : Nat) : Option Authority :=
  match hrow : a.repositories.get? repositoryID with
  | none => none
  | some r =>
      if hactive : r.ownerID = owner ∧ r.active = true ∧ a.registered = true ∧
          (a.installations.get? r.installationID).any (fun i => i.ownerID == owner && i.active && !i.suspended) = true ∧
          a.unbound owner project repositoryID = true then
        some {
          bindings := a.bindings.put (owner, project) ⟨r.installationID, repositoryID,
            ((a.bindings.get? (owner, project)).map ProjectBinding.revision).getD 0 + 1, true⟩
          repositories := a.repositories
          installations := a.installations
          registered := a.registered
          referenced := by
            intro key b hb
            obtain ⟨rfl, rfl⟩ | hb := Table.get?_put_cases hb
            · exact ⟨r, hrow, rfl, hactive.1⟩
            · exact a.referenced key b hb }
      else none

-- What can happen to the tables: a withdrawal (two of which also activate), a binding, or anything that leaves the
-- authority as it is, as every transaction of a checkout does.
inductive AuthorityChange (db db' : GitHubDB) : Prop
  | withdrawal (w : Withdrawal) (ids : List String) (h : w.apply db = some (db', ids))
  | binding (owner project : String) (repositoryID : Nat)
      (h : db.authority.bindRepository owner project repositoryID = some db'.authority)
  | checkout (h : db'.authority = db.authority)

def authoritySystem : System GitHubDB where
  initial db := (∀ k, db.authority.bindings.get? k = none) ∧ (∀ k, db.authority.repositories.get? k = none) ∧
    ∀ k, db.authority.installations.get? k = none
  next := AuthorityChange

def Installation.usable (i : Installation) : Bool := i.active && !i.suspended

-- An installation that is activated again keeps its revision, one that stops being usable does not.
def Installation.Kept (i i' : Installation) : Prop := i'.ownerID = i.ownerID ∧ (i.usable = true → i'.usable = true)

theorem Installation.Kept.trans (i j k : Installation) (h : i.Kept j) (h' : j.Kept k) : i.Kept k :=
  ⟨h'.1.trans h.1, fun husable => h'.2 (h.2 husable)⟩

-- The authority after any number of changes: every row is there and has counted what happened to it.
structure Authority.Later (a a' : Authority) : Prop where
  bindings : a.bindings.Counts ProjectBinding.revision Eq a'.bindings
  repositories : a.repositories.Counts Repository.revision Eq a'.repositories
  installations : a.installations.Counts Installation.revision Installation.Kept a'.installations
  registered : a'.registered = a.registered

theorem Installation.Kept.refl (i : Installation) : i.Kept i := ⟨rfl, id⟩

namespace Authority.Later

variable {a a' a'' : Authority}

theorem refl (a : Authority) : a.Later a :=
  ⟨.refl (fun _ => rfl) _, .refl (fun _ => rfl) _, .refl Installation.Kept.refl _, rfl⟩

theorem trans (h : a.Later a') (h' : a'.Later a'') : a.Later a'' where
  bindings := h.bindings.trans (fun _ _ _ => Eq.trans) h'.bindings
  repositories := h.repositories.trans (fun _ _ _ => Eq.trans) h'.repositories
  installations := h.installations.trans Installation.Kept.trans h'.installations
  registered := h'.registered.trans h.registered

theorem deactivate (a : Authority) (installations : Nat → Installation → Bool) (repositories : Nat → Repository → Bool)
    (bindings : String × String → ProjectBinding → Bool) : a.Later (a.deactivate installations repositories bindings) where
  bindings := by
    refine .mapValues fun k b => ?_
    split
    · exact .inl (Nat.lt_succ_self _)
    · exact .inr ⟨rfl, rfl⟩
  repositories := by
    refine .mapValues fun k r => ?_
    split
    · exact .inl (Nat.lt_succ_self _)
    · exact .inr ⟨rfl, rfl⟩
  installations := by
    refine .mapValues fun k i => ?_
    split
    · exact .inl (Nat.lt_succ_self _)
    · exact .inr ⟨rfl, .refl i⟩
  registered := rfl

theorem refresh (a : Authority) (owner : String) (installationID : Nat) (listed : Listed) :
    a.Later (a.refresh owner installationID listed) where
  bindings := .refl (fun _ => rfl) _
  repositories := by
    refine .mapValues fun k r => ?_
    split
    · exact .inl (Nat.lt_succ_self _)
    · exact .inr ⟨rfl, rfl⟩
  installations := .refl Installation.Kept.refl _
  registered := rfl

theorem refreshAll (owner : String) (installationID : Nat) (repositories : List Listed) (a : Authority) :
    a.Later (repositories.foldl (fun a r => a.refresh owner installationID r) a) := by
  induction repositories generalizing a with
  | nil => exact refl a
  | cons listed repositories ih => exact (refresh a owner installationID listed).trans (ih _)

theorem upsert {owner : String} {installationID : Nat} {listed : Listed}
    (h : a.upsert owner installationID listed = some a') : a.Later a' := by
  unfold Authority.upsert at h
  split at h
  · split at h
    · cases h
      exact refresh a owner installationID listed
    · cases h
  · rename_i hrow
    cases h
    refine ⟨.refl (fun _ => rfl) _, .put (fun _ => rfl) fun r hr => ?_, .refl Installation.Kept.refl _, rfl⟩
    rw [hrow] at hr
    cases hr

theorem upsertAll {owner : String} {installationID : Nat} {repositories : List Listed}
    (h : repositories.foldlM (fun a r => a.upsert owner installationID r) a = some a') : a.Later a' := by
  induction repositories generalizing a with
  | nil =>
      cases h
      exact refl _
  | cons listed repositories ih =>
      simp only [List.foldlM_cons, Option.bind_eq_bind, Option.bind_eq_some_iff] at h
      obtain ⟨b, hb, h⟩ := h
      exact (upsert hb).trans (ih h)

theorem activate {owner : String} {installationID : Nat} (h : a.activate owner installationID = some a') :
    a.Later a' := by
  unfold Authority.activate at h
  split at h
  · rename_i i hi
    split at h
    · cases h
      refine ⟨.refl (fun _ => rfl) _, .refl (fun _ => rfl) _, .put Installation.Kept.refl fun j hj => ?_, rfl⟩
      rw [hi] at hj
      cases hj
      exact .inr ⟨rfl, rfl, fun _ => rfl⟩
    · cases h
  · rename_i hi
    cases h
    refine ⟨.refl (fun _ => rfl) _, .refl (fun _ => rfl) _, .put Installation.Kept.refl fun j hj => ?_, rfl⟩
    rw [hi] at hj
    cases hj

theorem removeAll (installationID : Nat) (repositoryIDs : List Nat) (a : Authority) :
    a.Later (repositoryIDs.foldl (fun a id => a.deactivate (fun _ _ => false)
      (fun k r => k == id && r.installationID == installationID)
      (fun _ b => b.repositoryID == id && b.installationID == installationID)) a) := by
  induction repositoryIDs generalizing a with
  | nil => exact refl a
  | cons id repositoryIDs ih => exact (deactivate a _ _ _).trans (ih _)

theorem withdrawal {db db' : GitHubDB} {w : Withdrawal} {ids : List String} (h : w.apply db = some (db', ids)) :
    db.authority.Later db'.authority := by
  cases w with
  | disableInstallation owner installationID =>
      simp only [Withdrawal.apply, Option.bind_eq_bind, Option.bind_eq_some_iff] at h
      obtain ⟨i, -, h⟩ := h
      split at h
      · cases h
        exact deactivate _ _ _ _
      · cases h
        exact refl _
  | reconcileInstallation owner installationID repositories =>
      simp only [Withdrawal.apply, Option.bind_eq_bind, Option.bind_eq_some_iff] at h
      obtain ⟨i, -, h⟩ := h
      split at h
      · cases h
        exact (refreshAll owner installationID repositories _).trans (deactivate _ _ _ _)
      · cases h
  | completeHandoff owner installationID repositories =>
      simp only [Withdrawal.apply, Option.bind_eq_bind, Option.bind_eq_some_iff] at h
      obtain ⟨activated, hactivated, h⟩ := h
      split at h
      · simp only [Option.bind_eq_some_iff] at h
        obtain ⟨upserted, hupserted, h⟩ := h
        cases h
        exact (activate hactivated).trans ((upsertAll hupserted).trans (deactivate _ _ _ _))
      · cases h
  | installationSuspended installationID =>
      simp only [Withdrawal.apply, Option.bind_eq_bind, Option.bind_eq_some_iff] at h
      obtain ⟨i, -, h⟩ := h
      cases h
      exact deactivate _ _ _ _
  | repositoriesRemoved installationID repositoryIDs =>
      simp only [Withdrawal.apply] at h
      split at h
      · cases h
        exact removeAll installationID repositoryIDs _
      · cases h

theorem bindRepository {owner project : String} {repositoryID : Nat}
    (h : a.bindRepository owner project repositoryID = some a') : a.Later a' := by
  unfold Authority.bindRepository at h
  split at h
  · cases h
  · split at h
    · cases h
      refine ⟨.put (fun _ => rfl) fun b hb => ?_, .refl (fun _ => rfl) _, .refl Installation.Kept.refl _, rfl⟩
      rw [hb]
      exact .inl (Nat.lt_succ_self _)
    · cases h

end Authority.Later

theorem AuthorityChange.later {db db' : GitHubDB} (h : AuthorityChange db db') : db.authority.Later db'.authority := by
  cases h with
  | withdrawal w ids h => exact .withdrawal h
  | binding owner project repositoryID h => exact .bindRepository h
  | checkout h => exact h ▸ .refl _

theorem later_of_run {db db' : GitHubDB} (h : authoritySystem.Run db db') : db.authority.Later db'.authority := by
  refine chain_preserves (P := fun db' => db.authority.Later db'.authority) ?_ h (.refl _)
  intro db₁ db₂ hlater hchange
  exact hlater.trans (AuthorityChange.later hchange)

-- What an authorized project stands on.
theorem authorized_iff {a : Authority} {s : Snapshot} : authorized a s.ownerID s.projectID = some s ↔
    ∃ b r i, a.bindings.get? (s.ownerID, s.projectID) = some b ∧ b.active = true ∧
      a.repositories.get? b.repositoryID = some r ∧ (r.ownerID = s.ownerID ∧ r.active = true) ∧
      a.installations.get? b.installationID = some i ∧ (i.ownerID = s.ownerID ∧ i.usable = true) ∧
      a.registered = true ∧ s = ⟨s.ownerID, s.projectID, b.installationID, b.repositoryID, b.revision, r.revision,
        i.revision, r.cloneURL⟩ := by
  simp only [authorized, Option.bind_eq_bind, Option.bind_eq_some_iff, Option.filter_eq_some_iff, Bool.and_eq_true,
    beq_iff_eq, Installation.usable]
  constructor
  · rintro ⟨b, ⟨hb, hactive⟩, r, ⟨hr, hrow⟩, i, ⟨hi, ⟨howner, hiactive⟩, hsuspended⟩, hregistered⟩
    split at hregistered
    case isFalse => cases hregistered
    case isTrue hyes =>
        exact ⟨b, r, i, hb, hactive, hr, hrow, hi, ⟨howner, hiactive, hsuspended⟩, hyes,
          (Option.some.inj hregistered).symm⟩
  · rintro ⟨b, r, i, hb, hactive, hr, hrow, hi, ⟨howner, hiactive, hsuspended⟩, hregistered, hs⟩
    refine ⟨b, ⟨hb, hactive⟩, r, ⟨hr, hrow⟩, i, ⟨hi, ⟨howner, hiactive⟩, hsuspended⟩, ?_⟩
    rw [if_pos hregistered, ← hs]

-- A binding that was captured and is still valid later was authorized all the time in between, with the same
-- revisions and the same repository to clone: nothing was withdrawn and given back unseen.
theorem revalidated_held_throughout {db db' db'' : GitHubDB} {s : Snapshot}
    (hcaptured : authorized db.authority s.ownerID s.projectID = some s) (hrun : authoritySystem.Run db db')
    (hrun' : authoritySystem.Run db' db'') (hvalid : revalidate db''.authority s = .ok ()) :
    authorized db'.authority s.ownerID s.projectID = some s := by
  have hlater := later_of_run hrun
  have hlater' := later_of_run hrun'
  obtain ⟨b, r, i, hb, hactive, hr, hrow, hi, hinstallation, hregistered, hs⟩ := authorized_iff.1 hcaptured
  -- the three rows in between and in the end
  obtain ⟨b', hb', hcount⟩ := hlater.bindings _ b hb
  obtain ⟨b'', hb'', hcount'⟩ := hlater'.bindings _ b' hb'
  obtain ⟨r', hr', hrcount⟩ := hlater.repositories _ r hr
  obtain ⟨r'', hr'', hrcount'⟩ := hlater'.repositories _ r' hr'
  obtain ⟨i', hi', hicount⟩ := hlater.installations _ i hi
  obtain ⟨i'', hi'', hicount'⟩ := hlater'.installations _ i' hi'
  simp only [revalidate, bind_eq_ok, found_eq_ok, require_eq_ok] at hvalid
  obtain ⟨current, hcurrent, hinstallationID, hrepositoryID, hbrevision, hrrevision, hirevision⟩ := hvalid
  obtain ⟨howner, hproject, -, -⟩ := authorized_eq_some hcurrent
  rw [← howner, ← hproject] at hcurrent
  obtain ⟨c, d, e, hc, -, hd, -, he, -, -, hcurrent⟩ := authorized_iff.1 hcurrent
  rw [howner, hproject] at hc hcurrent
  rw [hb''] at hc
  cases hc
  rw [hcurrent, hs] at hinstallationID hrepositoryID hbrevision hrrevision hirevision
  simp only at hinstallationID hrepositoryID hbrevision hrrevision hirevision
  rw [hrepositoryID, hr''] at hd
  rw [hinstallationID, hi''] at he
  cases hd
  cases he
  -- what has counted nothing in the end has counted nothing in between
  have hbsame : b = b' := hcount.between hcount' hbrevision
  have hrsame : r = r' := hrcount.between hrcount' hrrevision
  have hikept : i.Kept i' := hicount.between hicount' hirevision
  have hicounted : i'.revision = i.revision := by
    have hle := hicount.le
    have hle' := hicount'.le
    omega
  subst hbsame hrsame
  refine authorized_iff.2 ⟨b, r, i', hb', hactive, hr', hrow, hi', ⟨hikept.1.trans hinstallation.1, hikept.2 hinstallation.2⟩,
    hlater.registered.trans hregistered, ?_⟩
  rw [hicounted]
  exact hs

-- The sample project's binding, captured before another project is bound to a second repository.
def sampleSnapshot : Snapshot := ⟨"owner", "project", 7, 42, 1, 1, 1, "https://github.com/owner/app.git"⟩

def sampleLibrary : Listed := ⟨43, "lib", "owner/lib"⟩

theorem revalidated_held_throughout_second : ∃ a a', sampleAuthority.upsert "owner" 7 sampleLibrary = some a ∧
    a.bindRepository "owner" "other" 43 = some a' ∧ authorized a' "owner" "project" = some sampleSnapshot := by
  have hstored : (sampleAuthority.upsert "owner" 7 sampleLibrary).any (fun a =>
      authorized a "owner" "project" == some sampleSnapshot && (a.bindRepository "owner" "other" 43).any fun a' =>
        (revalidate a' sampleSnapshot).toOption.any fun _ => true) = true := by
    decide +kernel
  obtain ⟨a, hupsert, hany⟩ := (Option.any_eq_true _ _).1 hstored
  simp only [Bool.and_eq_true, beq_iff_eq] at hany
  obtain ⟨hcaptured, hany⟩ := hany
  obtain ⟨a', hbind, hvalid⟩ := (Option.any_eq_true _ _).1 hany
  obtain ⟨⟨⟩, hrevalidated, -⟩ := ok_of_any hvalid
  have hrun : authoritySystem.Run ⟨a, .empty⟩ ⟨a', .empty⟩ := .single (.binding "owner" "other" 43 hbind)
  exact ⟨a, a', hupsert, hbind, @revalidated_held_throughout ⟨a, .empty⟩ ⟨a', .empty⟩ ⟨a', .empty⟩ sampleSnapshot
    hcaptured hrun .refl hrevalidated⟩

-- What every history keeps: an active repository has a usable installation of its owner, an active binding an active
-- repository, and a repository one project of its owner at most.
structure Supported (a : Authority) : Prop where
  repositories : ∀ k r, a.repositories.get? k = some r → r.active = true →
    ∃ i, a.installations.get? r.installationID = some i ∧ i.ownerID = r.ownerID ∧ i.usable = true
  bindings : ∀ key b, a.bindings.get? key = some b → b.active = true →
    ∃ r, a.repositories.get? b.repositoryID = some r ∧ r.active = true
  exclusive : ∀ owner project project' b b', a.bindings.get? (owner, project) = some b →
    a.bindings.get? (owner, project') = some b' → b.repositoryID = b'.repositoryID → project = project'

namespace Supported

variable {a a' : Authority} {owner : String} {installationID : Nat}

-- Repositories that lose their installation are taken along, and bindings that lose their repository are too.
theorem deactivate (h : Supported a) {installations : Nat → Installation → Bool} {repositories : Nat → Repository → Bool}
    {bindings : String × String → ProjectBinding → Bool}
    (hrepositories : ∀ k r i, r.active = true → i.ownerID = r.ownerID → installations r.installationID i = true →
      repositories k r = true)
    (hbindings : ∀ key b r, a.repositories.get? b.repositoryID = some r → r.ownerID = key.1 →
      r.installationID = b.installationID → b.active = true → repositories b.repositoryID r = true →
        bindings key b = true) :
    Supported (a.deactivate installations repositories bindings) where
  repositories k r' hr' hactive := by
    simp only [Authority.deactivate, Table.get?_mapValues, Option.map_eq_some_iff] at hr' ⊢
    obtain ⟨r, hr, rfl⟩ := hr'
    by_cases hsel : repositories k r = true
    · simp [hsel, Repository.deactivated] at hactive
    · rw [if_neg hsel] at hactive ⊢
      obtain ⟨i, hi, howner, husable⟩ := h.repositories k r hr hactive
      have hkept : ¬ installations r.installationID i = true := fun hlost => hsel (hrepositories k r i hactive howner hlost)
      exact ⟨i, ⟨i, hi, by rw [if_neg hkept]⟩, howner, husable⟩
  bindings key b' hb' hactive := by
    simp only [Authority.deactivate, Table.get?_mapValues, Option.map_eq_some_iff] at hb' ⊢
    obtain ⟨b, hb, rfl⟩ := hb'
    by_cases hsel : bindings key b = true
    · simp [hsel, ProjectBinding.deactivated] at hactive
    · rw [if_neg hsel] at hactive ⊢
      obtain ⟨r, hr, hractive⟩ := h.bindings key b hb hactive
      obtain ⟨r', hr', hinstallation, howner⟩ := a.referenced key b hb
      cases hr.symm.trans hr'
      have hkept : ¬ repositories b.repositoryID r = true := fun hlost =>
        hsel (hbindings key b r hr howner hinstallation hactive hlost)
      exact ⟨r, ⟨r, hr, by rw [if_neg hkept]⟩, hractive⟩
  exclusive owner project project' b b' hb hb' hsame := by
    have hkept (key : String × String) (b : ProjectBinding) :
        (if bindings key b then b.deactivated else b).repositoryID = b.repositoryID := by
      split <;> rfl
    simp only [Authority.deactivate, Table.get?_mapValues, Option.map_eq_some_iff] at hb hb'
    obtain ⟨old, hold, rfl⟩ := hb
    obtain ⟨old', hold', rfl⟩ := hb'
    rw [hkept, hkept] at hsame
    exact h.exclusive owner project project' old old' hold hold' hsame

-- The bindings found through the repositories of one owner are all there are.
theorem boundTo_of_lost {repositories : Nat → Repository → Bool}
    (howned : ∀ k r, repositories k r = true → r.ownerID = owner) (key : String × String) (b : ProjectBinding)
    (r : Repository) (hr : a.repositories.get? b.repositoryID = some r) (howner : r.ownerID = key.1)
    (_ : r.installationID = b.installationID) (hactive : b.active = true) (hlost : repositories b.repositoryID r = true) :
    boundTo a owner repositories key b = true := by
  have hkey : key.1 = owner := howner.symm.trans (howned _ r hlost)
  simp [boundTo, hkey, hactive, hr, hlost]

theorem deactivateUnlisted (h : Supported a) (repositories : List Listed) :
    Supported (a.deactivateUnlisted owner installationID repositories) := by
  refine h.deactivate (fun k r i _ _ hlost => ?_) (boundTo_of_lost fun k r hunlisted => ?_)
  · cases hlost
  · simp only [unlisted, ofInstallation, Bool.and_eq_true, beq_iff_eq] at hunlisted
    exact hunlisted.1.1.1

-- An installation that its repositories can be activated under.
def Usable (a : Authority) (owner : String) (installationID : Nat) : Prop :=
  ∃ i, a.installations.get? installationID = some i ∧ i.ownerID = owner ∧ i.usable = true

theorem refresh (h : Supported a) (husable : Usable a owner installationID) (listed : Listed) :
    Supported (a.refresh owner installationID listed) where
  repositories k r' hr' hactive := by
    simp only [Authority.refresh, Table.get?_mapValues, Option.map_eq_some_iff] at hr' ⊢
    obtain ⟨r, hr, rfl⟩ := hr'
    split
    · rename_i hsel
      simp only [Bool.and_eq_true, beq_iff_eq] at hsel
      obtain ⟨i, hi, howner, hiusable⟩ := husable
      exact ⟨i, by rw [← hi, ← hsel.2]; rfl, howner.trans hsel.1.2.symm, hiusable⟩
    · rename_i hsel
      rw [if_neg hsel] at hactive
      exact h.repositories k r hr hactive
  bindings key b hb hactive := by
    obtain ⟨r, hr, hractive⟩ := h.bindings key b hb hactive
    simp only [Authority.refresh, Table.get?_mapValues, hr, Option.map_some, Option.some.injEq]
    refine ⟨_, rfl, ?_⟩
    split
    · rfl
    · exact hractive
  exclusive := h.exclusive

theorem refreshAll (h : Supported a) (husable : Usable a owner installationID) (repositories : List Listed) :
    Supported (repositories.foldl (fun a r => a.refresh owner installationID r) a) := by
  induction repositories generalizing a with
  | nil => exact h
  | cons listed repositories ih => exact ih (h.refresh husable listed) husable

theorem upsert (h : Supported a) (husable : Usable a owner installationID) {listed : Listed}
    (hupsert : a.upsert owner installationID listed = some a') : Supported a' ∧ Usable a' owner installationID := by
  unfold Authority.upsert at hupsert
  split at hupsert
  · split at hupsert
    · cases hupsert
      exact ⟨h.refresh husable listed, husable⟩
    · cases hupsert
  · rename_i hrow
    cases hupsert
    refine ⟨⟨fun k r hr hactive => ?_, fun key b hb hactive => ?_, h.exclusive⟩, husable⟩
    · obtain ⟨-, rfl⟩ | hr := Table.get?_put_cases hr
      · exact husable
      · exact h.repositories k r hr hactive
    · obtain ⟨r, hr, hractive⟩ := h.bindings key b hb hactive
      exact ⟨r, Table.get?_put_of_fresh hrow hr, hractive⟩

theorem upsertAll (h : Supported a) (husable : Usable a owner installationID) {repositories : List Listed}
    (hupsert : repositories.foldlM (fun a r => a.upsert owner installationID r) a = some a') : Supported a' := by
  induction repositories generalizing a with
  | nil =>
      cases hupsert
      exact h
  | cons listed repositories ih =>
      simp only [List.foldlM_cons, Option.bind_eq_bind, Option.bind_eq_some_iff] at hupsert
      obtain ⟨b, hb, hupsert⟩ := hupsert
      obtain ⟨hsupported, husable⟩ := h.upsert husable hb
      exact ih hsupported husable hupsert

theorem activate (h : Supported a) (hactivate : a.activate owner installationID = some a') :
    Supported a' ∧ Usable a' owner installationID := by
  unfold Authority.activate at hactivate
  split at hactivate
  · rename_i i hi
    split at hactivate
    · rename_i howner
      cases hactivate
      refine ⟨⟨fun k r hr hactive => ?_, h.bindings, h.exclusive⟩, _, Table.get?_put_self _ _ _, howner, rfl⟩
      obtain ⟨j, hj, hjowner, hjusable⟩ := h.repositories k r hr hactive
      by_cases hsame : r.installationID = installationID
      · rw [hsame] at hj ⊢
        cases hi.symm.trans hj
        exact ⟨_, Table.get?_put_self _ _ _, hjowner, rfl⟩
      · exact ⟨j, by rw [Table.get?_put, if_neg hsame, hj], hjowner, hjusable⟩
    · cases hactivate
  · rename_i hi
    cases hactivate
    refine ⟨⟨fun k r hr hactive => ?_, h.bindings, h.exclusive⟩, _, Table.get?_put_self _ _ _, rfl, rfl⟩
    obtain ⟨j, hj, hjowner, hjusable⟩ := h.repositories k r hr hactive
    exact ⟨j, Table.get?_put_of_fresh hi hj, hjowner, hjusable⟩

theorem removeAll (h : Supported a) (repositoryIDs : List Nat) :
    Supported (repositoryIDs.foldl (fun a id => a.deactivate (fun _ _ => false)
      (fun k r => k == id && r.installationID == installationID)
      (fun _ b => b.repositoryID == id && b.installationID == installationID)) a) := by
  induction repositoryIDs generalizing a with
  | nil => exact h
  | cons id repositoryIDs ih =>
      refine ih (h.deactivate (fun k r i _ _ hlost => ?_) fun key b r _ _ hinstallation _ hlost => ?_)
      · cases hlost
      · rw [← hinstallation]
        exact hlost

theorem withdrawal {db db' : GitHubDB} {w : Withdrawal} {ids : List String} (h : Supported db.authority)
    (happly : w.apply db = some (db', ids)) : Supported db'.authority := by
  cases w with
  | disableInstallation owner installationID =>
      simp only [Withdrawal.apply, Option.bind_eq_bind, Option.bind_eq_some_iff] at happly
      obtain ⟨i, -, happly⟩ := happly
      split at happly
      · cases happly
        have howned (k : Nat) (r : Repository) (hlost : (ofInstallation owner installationID r && r.active) = true) :
            r.ownerID = owner := by
          simp only [ofInstallation, Bool.and_eq_true, beq_iff_eq] at hlost
          exact hlost.1.1
        refine h.deactivate (fun k r i hactive howner hlost => ?_)
          (@boundTo_of_lost _ _ (fun _ r => ofInstallation owner installationID r && r.active) howned)
        simp only [Bool.and_eq_true, beq_iff_eq] at hlost
        simp [ofInstallation, hactive, hlost.1.1, ← howner, hlost.1.2]
      · cases happly
        exact h
  | reconcileInstallation owner installationID repositories =>
      simp only [Withdrawal.apply, Option.bind_eq_bind, Option.bind_eq_some_iff, Option.filter_eq_some_iff,
        Bool.and_eq_true, beq_iff_eq] at happly
      obtain ⟨i, ⟨hi, ⟨howner, hactive⟩, hsuspended⟩, happly⟩ := happly
      split at happly
      · cases happly
        have husable : Usable db.authority owner installationID :=
          ⟨i, hi, howner, by simp only [Installation.usable, hactive, hsuspended, Bool.and_self]⟩
        exact (h.refreshAll husable repositories).deactivateUnlisted repositories
      · cases happly
  | completeHandoff owner installationID repositories =>
      simp only [Withdrawal.apply, Option.bind_eq_bind, Option.bind_eq_some_iff] at happly
      obtain ⟨activated, hactivated, happly⟩ := happly
      split at happly
      · simp only [Option.bind_eq_some_iff] at happly
        obtain ⟨upserted, hupserted, happly⟩ := happly
        cases happly
        obtain ⟨hsupported, husable⟩ := h.activate hactivated
        exact (hsupported.upsertAll husable hupserted).deactivateUnlisted repositories
      · cases happly
  | installationSuspended installationID =>
      simp only [Withdrawal.apply, Option.bind_eq_bind, Option.bind_eq_some_iff] at happly
      obtain ⟨i, -, happly⟩ := happly
      cases happly
      refine h.deactivate (fun k r i _ _ hlost => hlost) fun key b r _ _ hinstallation _ hlost => ?_
      rw [← hinstallation]
      exact hlost
  | repositoriesRemoved installationID repositoryIDs =>
      simp only [Withdrawal.apply] at happly
      split at happly
      · cases happly
        exact h.removeAll repositoryIDs
      · cases happly

theorem bindRepository {project : String} {repositoryID : Nat} (h : Supported a)
    (hbind : a.bindRepository owner project repositoryID = some a') : Supported a' := by
  unfold Authority.bindRepository at hbind
  split at hbind
  · cases hbind
  · rename_i r hrow
    split at hbind
    · rename_i hactive
      cases hbind
      have hfree := hactive.2.2.2.2
      refine ⟨h.repositories, fun key b hb hbactive => ?_, fun owner' first second b b' hb hb' hsame => ?_⟩
      · obtain ⟨-, rfl⟩ | hb := Table.get?_put_cases hb
        · exact ⟨r, hrow, hactive.2.1⟩
        · exact h.bindings key b hb hbactive
      · -- the row of the project is new, and no other row has its repository
        obtain ⟨hkey, rfl⟩ | hold := Table.get?_put_cases hb
        · obtain ⟨rfl, rfl⟩ := Prod.mk.inj hkey
          obtain ⟨hkey', rfl⟩ | hold' := Table.get?_put_cases hb'
          · exact (Prod.mk.inj hkey').2.symm
          · exact (Authority.eq_of_unbound hfree hold' hsame.symm).symm
        · obtain ⟨hkey', rfl⟩ | hold' := Table.get?_put_cases hb'
          · obtain ⟨rfl, rfl⟩ := Prod.mk.inj hkey'
            exact Authority.eq_of_unbound hfree hold hsame
          · exact h.exclusive owner' first second b b' hold hold' hsame
    · cases hbind

theorem of_reachable {db : GitHubDB} (h : authoritySystem.Reachable db) : Supported db.authority := by
  refine h.invariant (P := fun db => Supported db.authority) ?_ ?_
  · rintro db ⟨hbindings, hrepositories, -⟩
    refine ⟨fun k r hr => ?_, fun key b hb => ?_, fun owner project project' b b' hb => ?_⟩
    · rw [hrepositories] at hr
      cases hr
    · rw [hbindings] at hb
      cases hb
    · rw [hbindings] at hb
      cases hb
  · intro db db' hsupported hchange
    cases hchange with
    | withdrawal w ids happly => exact hsupported.withdrawal happly
    | binding owner project repositoryID hbind => exact hsupported.bindRepository hbind
    | checkout hsame => exact hsame ▸ hsupported

end Supported

-- In every history the mark on the binding says it all: whoever has an active one is authorized, and no binding
-- outlives its repository or its installation.
theorem authorized_iff_bound {db : GitHubDB} (h : authoritySystem.Reachable db) (owner project : String) :
    (authorized db.authority owner project).isSome = true ↔
      db.authority.registered = true ∧ ∃ b, db.authority.bindings.get? (owner, project) = some b ∧ b.active = true := by
  have hsupported := Supported.of_reachable h
  constructor
  · intro hsome
    obtain ⟨s, hs⟩ := Option.isSome_iff_exists.1 hsome
    obtain ⟨howner, hproject, -, -⟩ := authorized_eq_some hs
    rw [← howner, ← hproject] at hs ⊢
    obtain ⟨b, r, i, hb, hactive, -, -, -, -, hregistered, -⟩ := authorized_iff.1 hs
    exact ⟨hregistered, b, hb, hactive⟩
  · rintro ⟨hregistered, b, hb, hactive⟩
    obtain ⟨r, hr, hractive⟩ := hsupported.bindings _ b hb hactive
    obtain ⟨r', hr', hinstallation, howner⟩ := db.authority.referenced _ b hb
    cases hr.symm.trans hr'
    obtain ⟨i, hi, hiowner, husable⟩ := hsupported.repositories _ r hr hractive
    rw [hinstallation] at hi
    let s : Snapshot := ⟨owner, project, b.installationID, b.repositoryID, b.revision, r.revision, i.revision, r.cloneURL⟩
    have hs : authorized db.authority s.ownerID s.projectID = some s :=
      authorized_iff.2 ⟨b, r, i, hb, hactive, hr, ⟨howner, hractive⟩, hi, ⟨hiowner.trans howner, husable⟩, hregistered, rfl⟩
    exact Option.isSome_iff_exists.2 ⟨s, hs⟩

-- A setup that ends with one repository, and a project bound to it.
theorem authorized_iff_bound_first : ∃ db, authoritySystem.Reachable db ∧
    (authorized db.authority "owner" "project").isSome = true := by
  let listed : Listed := ⟨42, "app", "owner/app"⟩
  have hempty : authoritySystem.initial ⟨⟨.empty, .empty, .empty, true, fun _ _ h => by cases h⟩, .empty⟩ :=
    ⟨fun _ => rfl, fun _ => rfl, fun _ => rfl⟩
  have hstored : ((Withdrawal.completeHandoff "owner" 7 [listed]).apply
      ⟨⟨.empty, .empty, .empty, true, fun _ _ h => by cases h⟩, .empty⟩).any (fun result =>
        (result.1.authority.bindRepository "owner" "project" 42).any fun a =>
          a.registered && (a.bindings.get? ("owner", "project")).any ProjectBinding.active) = true := by
    decide +kernel
  obtain ⟨⟨db, ids⟩, happly, hany⟩ := (Option.any_eq_true _ _).1 hstored
  obtain ⟨a, hbind, hbound⟩ := (Option.any_eq_true _ _).1 hany
  simp only [Bool.and_eq_true, Option.any_eq_true] at hbound
  obtain ⟨hregistered, b, hb, hactive⟩ := hbound
  have hdb : authoritySystem.Reachable db := .step (.of_initial hempty) (.withdrawal _ ids happly)
  have hreachable : authoritySystem.Reachable ⟨a, .empty⟩ := hdb.step (.binding "owner" "project" 42 hbind)
  exact ⟨_, hreachable, (authorized_iff_bound hreachable "owner" "project").2 ⟨hregistered, b, hb, hactive⟩⟩

-- In every history a repository is cloned for one project of its owner.
theorem eq_of_authorized {db : GitHubDB} (h : authoritySystem.Reachable db) {s s' : Snapshot}
    (hs : authorized db.authority s.ownerID s.projectID = some s)
    (hs' : authorized db.authority s'.ownerID s'.projectID = some s') (howner : s.ownerID = s'.ownerID)
    (hrepository : s.repositoryID = s'.repositoryID) : s.projectID = s'.projectID := by
  obtain ⟨b, r, i, hb, -, -, -, -, -, -, heq⟩ := authorized_iff.1 hs
  obtain ⟨b', r', i', hb', -, -, -, -, -, -, heq'⟩ := authorized_iff.1 hs'
  have hbound : s.repositoryID = b.repositoryID := congrArg Snapshot.repositoryID heq
  have hbound' : s'.repositoryID = b'.repositoryID := congrArg Snapshot.repositoryID heq'
  rw [← howner] at hb'
  exact (Supported.of_reachable h).exclusive _ _ _ b b' hb hb' (by rw [← hbound, ← hbound', hrepository])

end AutoDeploy.Checkout
