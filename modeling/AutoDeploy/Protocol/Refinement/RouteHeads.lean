import AutoDeploy.Protocol.Refinement.Report

namespace AutoDeploy.Protocol

open Function Lib Lib.Result Queue Store Deployment

-- What the assignment of a hostname does to the protocol's rows.

section

variable {db db' : DB} {now : Nat} {p : Principal} {environmentID hostname : String} {answer : Except Error RouteHead}

@[simp] theorem view_hostnameFailure : view (hostnameFailure db p environmentID hostname) = view db := rfl

@[simp] theorem view_hostnameSuccess {revision : Nat} :
    view (hostnameSuccess db p environmentID hostname revision) = view db := rfl

theorem createRouteHead_effects (h : createRouteHead now db p environmentID hostname = (db', answer)) :
    Effects now Ordinary (view db) (view db') := by
  unfold createRouteHead at h
  simp only at h
  split at h
  · split at h
    · rw [← (Prod.mk.inj h).1]
      exact Effects.refl
    · rw [← (Prod.mk.inj h).1]
      exact Effects.refl
  · rename_i db₁ hinsert
    rw [← (Prod.mk.inj h).1, view_hostnameSuccess]
    simp only [insertRouteHead, bind_eq_ok, require_eq_ok, pure_eq_ok] at hinsert
    obtain ⟨_, hfree, _, hunique, rfl⟩ := hinsert
    have hnone : db.routeHeads.get? environmentID = none := by simpa [Table.contains] using hfree
    have hother : ∀ id head, (view db).routeHeads id = some head → head.hostname ≠ hostname := by
      intro id head hrow
      simpa using Table.any_eq_false hunique hrow
    have he : Effect now (view db) .other _ := Effect.createHead hnone hother
    exact Effects.ordinary (view_putRouteHead db environmentID _ ▸ he)

theorem validateRouteHeadUpdate_unique {old new : RouteHead}
    (h : validateRouteHeadUpdate db environmentID old new = .ok ()) :
    old.updatedAt ≤ new.updatedAt ∧ new.createdAt ≤ new.updatedAt ∧
      ∀ id head, db.routeHeads.get? id = some head → id ≠ environmentID → head.hostname ≠ new.hostname := by
  obtain ⟨-, hupdated, -, hcreated, hunique, -⟩ := validateRouteHeadUpdate_eq_ok.1 h
  refine ⟨hupdated, hcreated, fun id head hrow hne => ?_⟩
  simpa [hne] using Table.any_eq_false hunique hrow

-- The hostname changes only while no release is active.
theorem updateRouteHeadHostname_cases {expectedRevision : Nat} (hinv : Inv (view db))
    (h : updateRouteHeadHostname now db p environmentID hostname expectedRevision = (db', answer)) :
    view db' = view db ∨ ∃ head, db.routeHeads.get? environmentID = some head ∧
      view db' = { view db with routeHeads := update (view db).routeHeads environmentID (some { head with
        hostname := hostname, routeRevision := head.routeRevision + 1, updatedAt := now }) } ∧
      Effect now (view db) .renames (view db') := by
  unfold updateRouteHeadHostname at h
  simp only at h
  split at h
  · rw [← (Prod.mk.inj h).1]
    exact .inl rfl
  · rename_i head hhead
    split at h
    · rw [← (Prod.mk.inj h).1]
      exact .inl rfl
    · rename_i hactive
      split at h
      · rw [← (Prod.mk.inj h).1]
        exact .inl rfl
      · split at h
        · split at h
          · rw [← (Prod.mk.inj h).1]
            exact .inl rfl
          · rw [← (Prod.mk.inj h).1]
            exact .inl rfl
        · rename_i db₁ _ hupdate
          rw [← (Prod.mk.inj h).1, view_hostnameSuccess]
          obtain ⟨hvalid, rfl, -⟩ := (updateRouteHead_iff hhead rfl).1 hupdate
          obtain ⟨hupdated, hcreated, hunique⟩ := validateRouteHeadUpdate_unique hvalid
          -- no release has the empty name
          have hinactive : head.activeReleaseID = none := by
            cases hid : head.activeReleaseID with
            | none => rfl
            | some id =>
                simp only [hid, Option.getD_some, ne_eq, not_not] at hactive
                exact absurd (hactive ▸ hid) ((hinv.routes.headNamed hinv.pipeline) environmentID head hhead)
          refine .inr ⟨head, hhead, view_putRouteHead _ _ _, ?_⟩
          have he : Effect now (view db) .renames _ := Effect.rename hhead hinactive hunique hupdated hcreated
          exact view_putRouteHead db environmentID _ ▸ he

theorem assignRouteHostname_cases {expectedRevision : Option Nat} (hinv : Inv (view db))
    (h : assignRouteHostname now db p environmentID hostname expectedRevision = (db', answer)) :
    Effects now Ordinary (view db) (view db') ∨ ∃ head, db.routeHeads.get? environmentID = some head ∧
      expectedRevision.isSome ∧
      view db' = { view db with routeHeads := update (view db).routeHeads environmentID (some { head with
        hostname := normalizeRouteHostname hostname, routeRevision := head.routeRevision + 1, updatedAt := now }) } ∧
      Effect now (view db) .renames (view db') := by
  unfold assignRouteHostname at h
  simp only at h
  split at h
  · split at h
    · exact .inl (createRouteHead_effects h)
    · rcases updateRouteHeadHostname_cases hinv h with hsame | ⟨head, hhead, hview, he⟩
      · exact .inl (Effects.of_eq hsame)
      · exact .inr ⟨head, hhead, rfl, hview, he⟩
  · rw [← (Prod.mk.inj h).1]
    exact .inl Effects.refl

end

end AutoDeploy.Protocol
