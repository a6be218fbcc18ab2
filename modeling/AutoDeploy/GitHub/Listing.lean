import AutoDeploy.GitHub.Provider
import Mathlib.Data.List.Nodup

namespace AutoDeploy.GitHubApp

open Lib Lib.Result

def repositoryIDs (repositories : List Repository) : List Int := repositories.map Repository.id

-- One page: what is added is what the page holds, and no more than the whole may hold.
theorem addRepositories_eq_ok {listed more out : List Repository} (h : addRepositories listed more = .ok out) :
    out = listed ++ more ∧ ((repositoryIDs listed).Nodup → (repositoryIDs out).Nodup) ∧
      (listed.length ≤ maxRepositories → out.length ≤ maxRepositories) := by
  induction more generalizing listed with
  | nil =>
      cases h
      exact ⟨(List.append_nil _).symm, id, id⟩
  | cons r more ih =>
      simp only [addRepositories, bind_eq_ok, require_eq_ok] at h
      obtain ⟨_, -, _, hnew, _, hbound, hrest⟩ := h
      obtain ⟨rfl, hnodup, hlength⟩ := ih hrest
      refine ⟨by rw [List.append_assoc, List.singleton_append], fun hlisted => hnodup ?_, fun _ => hlength ?_⟩
      · rw [repositoryIDs, List.map_append, List.map_singleton]
        exact List.nodup_append.2 ⟨hlisted, List.nodup_singleton _, by
          rintro x hx y hy rfl
          rw [List.mem_singleton] at hy
          exact hnew (hy ▸ hx)⟩
      · rw [List.length_append, List.length_singleton]
        exact hbound

theorem addRepositories_of_fits {listed more : List Repository} (hvalid : ∀ r ∈ more, validEntry r = true)
    (hnodup : (repositoryIDs (listed ++ more)).Nodup) (hlength : (listed ++ more).length ≤ maxRepositories) :
    addRepositories listed more = .ok (listed ++ more) := by
  induction more generalizing listed with
  | nil => rw [addRepositories, List.append_nil]
  | cons r more ih =>
      have hassoc : listed ++ r :: more = (listed ++ [r]) ++ more := by
        rw [List.append_assoc, List.singleton_append]
      have hnew : r.id ∉ listed.map Repository.id := by
        intro hmem
        rw [repositoryIDs, List.map_append, List.map_cons] at hnodup
        exact (List.nodup_append.1 hnodup).2.2 r.id hmem r.id List.mem_cons_self rfl
      have hbound : listed.length + 1 ≤ maxRepositories := by
        rw [List.length_append, List.length_cons] at hlength
        omega
      rw [addRepositories, require_pos (hvalid r List.mem_cons_self), require_pos hnew, require_pos hbound, ok_bind,
        ok_bind, ok_bind, hassoc]
      exact ih (fun x hx => hvalid x (List.mem_cons_of_mem r hx)) (hassoc ▸ hnodup) (hassoc ▸ hlength)

-- Whatever the pages say: a list that comes out has no entry twice, is within bounds and has the length last reported.
structure Listed (totals : List Int) (repositories : List Repository) : Prop where
  distinct : (repositoryIDs repositories).Nodup
  bounded : repositories.length ≤ maxRepositories
  total : totals.getLast? = some (repositories.length : Int)

theorem listPages_listed {pages : Nat → Exchange Page} {left page : Nat} {listed repositories : List Repository}
    (hnodup : (repositoryIDs listed).Nodup) (hbound : listed.length ≤ maxRepositories)
    (h : (listPages pages left page listed).1 = .ok repositories) :
    Listed (listPages pages left page listed).2 repositories := by
  induction left generalizing page listed with
  | zero => cases h
  | succ left ih =>
      rw [listPages] at h ⊢
      split at h
      · cases h
      · next wire hwire =>
          simp only
          split at h
          · cases h
          · next hchecks =>
              rw [if_neg hchecks]
              split at h
              · cases h
              · next more hmore =>
                  obtain ⟨-, hnodup', hbound'⟩ := addRepositories_eq_ok hmore
                  split at h
                  · next htotal =>
                      rw [if_pos htotal]
                      cases h
                      exact ⟨hnodup' hnodup, hbound' hbound, by rw [htotal]; rfl⟩
                  · next htotal =>
                      rw [if_neg htotal]
                      split at h
                      · cases h
                      · next hmoreToCome =>
                          rw [if_neg hmoreToCome]
                          have hrest := ih (hnodup' hnodup) (hbound' hbound) h
                          refine ⟨hrest.distinct, hrest.bounded, ?_⟩
                          have htotal := hrest.total
                          simp only
                          cases htotals : (listPages pages left (page + 1) more).2 with
                          | nil =>
                              rw [htotals] at htotal
                              cases htotal
                          | cons first rest =>
                              rw [htotals] at htotal
                              rw [List.getLast?_cons_cons]
                              exact htotal

-- The page of a list that stays as it is.
def pageOf (repositories : List Repository) (page : Nat) : Page :=
  ⟨repositories.length, (repositories.drop (100 * (page - 1))).take 100⟩

theorem take_pages (repositories : List Repository) {page : Nat} (hpage : 1 ≤ page) :
    repositories.take (100 * (page - 1)) ++ (pageOf repositories page).repositories = repositories.take (100 * page) := by
  have hsplit : 100 * page = 100 * (page - 1) + 100 := by omega
  rw [hsplit, List.take_add]
  rfl

theorem listPages_served {pages : Nat → Exchange Page} {repositories : List Repository}
    (hserved : ∀ page, 1 ≤ page → doJSON true 200 (pages page) = .ok (pageOf repositories page))
    (hvalid : ∀ r ∈ repositories, validEntry r = true) (hnodup : (repositoryIDs repositories).Nodup)
    (hlength : repositories.length ≤ maxRepositories) (left page : Nat) (hpage : 1 ≤ page) (hleft : page + left = 11)
    (hmore : page = 1 ∨ 100 * (page - 1) < repositories.length) (hlast : 1 ≤ left) :
    (listPages pages left page (repositories.take (100 * (page - 1)))).1 = .ok repositories := by
  have hmax : maxRepositories = 1000 := rfl
  induction left generalizing page with
  | zero => omega
  | succ left ih =>
      have hsub : ∀ r ∈ (pageOf repositories page).repositories, validEntry r = true := fun r hr =>
        hvalid r (List.mem_of_mem_drop (List.mem_of_mem_take hr))
      have hadd : addRepositories (repositories.take (100 * (page - 1))) (pageOf repositories page).repositories =
          .ok (repositories.take (100 * page)) := by
        rw [← take_pages repositories hpage]
        apply addRepositories_of_fits hsub
        · rw [take_pages repositories hpage]
          exact (hnodup.sublist ((List.take_sublist _ _).map _))
        · rw [take_pages repositories hpage, List.length_take]
          omega
      have hcount : (pageOf repositories page).repositories.length =
          min 100 (repositories.length - 100 * (page - 1)) := by
        rw [pageOf, List.length_take, List.length_drop]
      have htotal : (pageOf repositories page).totalCount = repositories.length := rfl
      have hchecks : ¬ ((pageOf repositories page).totalCount < 0 ∨
          (maxRepositories : Int) < (pageOf repositories page).totalCount ∨
            100 < (pageOf repositories page).repositories.length) := by
        rw [htotal, hcount]
        omega
      rw [listPages, hserved page hpage]
      simp only [hadd]
      rw [if_neg hchecks]
      -- Either everything is listed, or the page was full and another one is due.
      by_cases hall : repositories.length ≤ 100 * page
      · rw [List.take_of_length_le hall, if_pos htotal.symm]
      · have hlisted : (repositories.take (100 * page)).length = 100 * page := by
          rw [List.length_take]
          omega
        have hnot : ¬ (((repositories.take (100 * page)).length : Int) = (pageOf repositories page).totalCount) := by
          rw [hlisted, htotal]
          omega
        have hfull : ¬ ((pageOf repositories page).totalCount < ((repositories.take (100 * page)).length : Int) ∨
            (pageOf repositories page).repositories.length < 100) := by
          rw [hlisted, htotal, hcount]
          omega
        rw [if_neg hnot, if_neg hfull]
        have hnext := ih (page + 1) (by omega) (by omega) (.inr (by rw [Nat.add_sub_cancel]; omega)) (by omega)
        rw [Nat.add_sub_cancel] at hnext
        exact hnext

-- A provider that does its part for an installation: it mints a token of the installation's own selection, serves the
-- list as it is, and revokes.
structure Serves (w : ListWorld) (selection : String) (repositories : List Repository) : Prop where
  mints : ∃ wire, doJSON false 201 w.mint = .ok wire ∧ validToken wire.token wire.expiresAt w.now = true ∧
    wire.permissions = [("metadata", "read")] ∧ wire.repositorySelection = selection ∧
      revokeToken wire.token w.revoke = .ok ()
  pages : ∀ page, 1 ≤ page → doJSON true 200 (w.pages page) = .ok (pageOf repositories page)

theorem listInstallationRepositories_all {id : Int} {w : ListWorld} {repositories : List Repository} (hid : 0 < id)
    (hserves : Serves w "all" repositories) (hvalid : ∀ r ∈ repositories, validEntry r = true)
    (hnodup : (repositoryIDs repositories).Nodup) (hlength : repositories.length ≤ maxRepositories) :
    (listInstallationRepositories id w).1.result = .ok repositories := by
  obtain ⟨⟨wire, hmint, htoken, hpermissions, hselection, hrevoke⟩, hpages⟩ := hserves
  have haccepts : acceptsDiscovery wire w.now = true := by
    rw [acceptsDiscovery, htoken, hselection, hpermissions]
    decide
  have hminted : mintDiscoveryToken id w.now w.mint w.revokeMint =
      ⟨.ok ⟨wire.token, wire.expiresAt, [], "", wire.permissions⟩, []⟩ := by
    rw [mintDiscoveryToken, mint, if_pos hid, hmint]
    simp only [haccepts, if_true]
  have hlisted : (listPages w.pages maxPages 1 []).1 = .ok repositories :=
    listPages_served hpages hvalid hnodup hlength 10 1 (Nat.le_refl 1) rfl (.inl rfl) (by decide)
  simp only [listInstallationRepositories, hminted, hrevoke, hlisted]

theorem listInstallationRepositories_refused (id : Int) {w : ListWorld} {selection : String}
    {repositories : List Repository} (hserves : Serves w selection repositories) (hselection : selection ≠ "all") :
    ∃ errs, (listInstallationRepositories id w).1.result = .error errs := by
  obtain ⟨⟨wire, hmint, -, -, hsame, -⟩, -⟩ := hserves
  have hrefused : acceptsDiscovery wire w.now = false := by
    have hne : (wire.repositorySelection == "all") = false := by
      rw [hsame, beq_eq_false_iff_ne]
      exact hselection
    rw [acceptsDiscovery, hne, Bool.and_false, Bool.false_and]
  have hminted : ∃ errs, (mintDiscoveryToken id w.now w.mint w.revokeMint).result = .error errs := by
    rw [mintDiscoveryToken, mint, hmint]
    simp only [hrefused, Bool.false_eq_true, if_false, revokeInvalidMint]
    split
    · split
      · exact ⟨_, rfl⟩
      · split
        · exact ⟨_, rfl⟩
        · exact ⟨_, rfl⟩
    · exact ⟨_, rfl⟩
  obtain ⟨errs, herrs⟩ := hminted
  exact ⟨errs, by simp only [listInstallationRepositories, herrs]⟩

theorem listInstallationRepositories_listed {id : Int} {w : ListWorld} {repositories : List Repository}
    (h : (listInstallationRepositories id w).1.result = .ok repositories) :
    Listed (listInstallationRepositories id w).2 repositories := by
  simp only [listInstallationRepositories] at h ⊢
  split at h
  · cases h
  · split at h
    · next token _ _ listed hrevoke hlisted =>
        cases h
        exact listPages_listed List.nodup_nil (Nat.zero_le _) hlisted
    · cases h
    · cases h
    · cases h

-- The installations that can be listed, of those `GetInstallation` takes, and what any listing is.
theorem installation_listed_iff {id : Int} {x : Exchange Installation} {installation : Installation} {w : ListWorld}
    {repositories : List Repository} (hget : getInstallation id x = .ok installation)
    (hserves : Serves w installation.repositorySelection repositories)
    (hvalid : ∀ r ∈ repositories, validEntry r = true) (hnodup : (repositoryIDs repositories).Nodup)
    (hlength : repositories.length ≤ maxRepositories) :
    ((listInstallationRepositories id w).1.result = .ok repositories ↔ installation.repositorySelection = "all") ∧
      ∀ id w repositories, (listInstallationRepositories id w).1.result = .ok repositories →
        Listed (listInstallationRepositories id w).2 repositories := by
  refine ⟨⟨fun hlisted => ?_, fun hall => ?_⟩, fun _ _ _ => listInstallationRepositories_listed⟩
  · by_contra hselection
    obtain ⟨errs, herrs⟩ := listInstallationRepositories_refused id hserves hselection
    cases hlisted.symm.trans herrs
  · have hid : 0 < id := by
      simp only [getInstallation, bind_eq_ok, require_eq_ok] at hget
      obtain ⟨_, hid, -⟩ := hget
      exact hid
    exact listInstallationRepositories_all hid (hall ▸ hserves) hvalid hnodup hlength

def exchangeOf {α : Type} (status : Nat) (out : α) : Exchange α := ⟨true, .response ⟨status, false, some out⟩, .failed⟩

def installationOf (selection : String) : Installation := ⟨7, 2, "Organization", false, "Organization", selection⟩

def twoRepositories : List Repository :=
  [⟨42, "", 2, "app", "acme/app", "main"⟩, ⟨43, "", 2, "site", "acme/site", "main"⟩]

-- A provider that does its part for these two.
def servingWorld (selection : String) : ListWorld where
  now := second
  mint := exchangeOf 201 ⟨"token", 3601 * second, [("metadata", "read")], selection, []⟩
  revokeMint := exchangeOf 204 ()
  pages page := exchangeOf 200 (pageOf twoRepositories page)
  revoke := exchangeOf 204 ()

theorem serves_servingWorld (selection : String) : Serves (servingWorld selection) selection twoRepositories := by
  have htoken : validToken "token" (3601 * second) second = true := by decide
  have hrevoke : revokeToken "token" (exchangeOf 204 ()) = .ok () := by decide
  exact ⟨⟨⟨"token", 3601 * second, [("metadata", "read")], selection, []⟩, rfl, htoken, rfl, rfl, hrevoke⟩,
    fun _ _ => rfl⟩

theorem installation_listed_iff_twoRepositories :
    (listInstallationRepositories 7 (servingWorld "all")).1.result = .ok twoRepositories := by
  have hget : getInstallation 7 (exchangeOf 200 (installationOf "all")) = .ok (installationOf "all") := by decide
  exact (installation_listed_iff hget (serves_servingWorld "all") (by decide) (by decide)
    (by decide)).1.2 rfl

-- The same two repositories, selected for the installation one by one.
theorem selected_installation_refused : ¬ ∀ (id : Int) (x : Exchange Installation) (installation : Installation)
    (w : ListWorld) (repositories : List Repository), getInstallation id x = .ok installation →
      Serves w installation.repositorySelection repositories → (∀ r ∈ repositories, validEntry r = true) →
        (repositoryIDs repositories).Nodup → repositories.length ≤ maxRepositories →
          (listInstallationRepositories id w).1.result = .ok repositories := by
  intro hall
  have hget : getInstallation 7 (exchangeOf 200 (installationOf "selected")) = .ok (installationOf "selected") := by
    decide
  have hlisted := hall 7 _ _ _ _ hget (serves_servingWorld "selected") (by decide) (by decide)
    (by decide)
  obtain ⟨errs, herrs⟩ := listInstallationRepositories_refused 7 (serves_servingWorld "selected") (by decide)
  cases hlisted.symm.trans herrs

end AutoDeploy.GitHubApp
