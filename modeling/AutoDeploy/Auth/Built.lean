import AutoDeploy.Auth.Identities
import AutoDeploy.Auth.Turns

namespace AutoDeploy.Auth

open Lib

-- What the rings guarantee of an identity: few aliases, well-formed versions, none of them twice.
structure ThrottleIdentity.Formed (identity : ThrottleIdentity) : Prop where
  few : identity.aliases.length ≤ maxThrottleAliases
  versions : ∀ key ∈ identity.candidates, validThrottleKeyVersion key.keyVersion = true
  distinct : (identity.candidates.map ThrottleAlias.keyVersion).Nodup
  untagged : identity.recoveryUserID = ""

theorem validThrottleKeyVersion_of_valid {version : String} (h : validKeyVersion version = true) :
    validThrottleKeyVersion version = true := by
  simp only [validKeyVersion, validThrottleKeyVersion, Bool.and_eq_true, List.all_eq_true] at h ⊢
  refine ⟨h.1, fun c hc => ?_⟩
  have := h.2 c hc
  simp only [Bool.or_eq_true] at this ⊢
  tauto

namespace WebConfig

variable {config : WebConfig}

theorem csrf_ring (config : WebConfig) : config.csrfKeys.keys.size ≤ 5 ∧
    (config.csrfKeys.keys.get? config.csrfKeys.activeVersion).isSome = true ∧
      ∀ entry ∈ config.csrfKeys.keys.rows, validKeyVersion entry.1 = true := by
  have h := config.csrf_valid
  simp only [CSRFKeyRing.validate, Bool.and_eq_true, decide_eq_true_eq, List.all_eq_true] at h
  obtain ⟨⟨⟨-, -, hsize⟩, hactive⟩, hkeys⟩ := h
  obtain ⟨key, hkey, -⟩ := (Option.any_eq_true _ _).1 hactive
  exact ⟨hsize, by simp [hkey], fun entry hmem => (hkeys entry hmem).1.1⟩

theorem mem_retainedVersions {version : String} : version ∈ config.retainedVersions ↔
    version ∈ config.csrfKeys.keys.rows.map Prod.fst ∧ version ≠ config.csrfKeys.activeVersion := by
  simp only [retainedVersions, List.mem_filter, List.mem_insertionSort, bne_iff_ne]

theorem nodup_versions (config : WebConfig) : (config.csrfKeys.activeVersion :: config.retainedVersions).Nodup := by
  refine List.nodup_cons.2 ⟨fun hmem => (mem_retainedVersions.1 hmem).2 rfl, ?_⟩
  exact ((List.perm_insertionSort _ _).nodup_iff.2 config.csrfKeys.keys.nodup).filter _

theorem length_retainedVersions_le (config : WebConfig) : config.retainedVersions.length ≤ 4 := by
  obtain ⟨hsize, hactive, -⟩ := config.csrf_ring
  obtain ⟨key, hkey⟩ := Option.isSome_iff_exists.1 hactive
  -- The active version is one of at most five.
  have hsub : (config.csrfKeys.activeVersion :: config.retainedVersions) ⊆ config.csrfKeys.keys.rows.map Prod.fst := by
    intro version hmem
    rcases List.mem_cons.1 hmem with rfl | hmem
    · exact List.mem_map.2 ⟨_, (Table.mem_rows_iff _ _ _).2 hkey, rfl⟩
    · exact (mem_retainedVersions.1 hmem).1
  have hlen := (List.subperm_of_subset config.nodup_versions hsub).length_le
  simp only [List.length_cons, List.length_map] at hlen
  have : config.csrfKeys.keys.rows.length ≤ 5 := hsize
  omega

theorem valid_version {version : String} (hmem : version ∈ config.csrfKeys.activeVersion :: config.retainedVersions) :
    validThrottleKeyVersion version = true := by
  obtain ⟨-, hactive, hkeys⟩ := config.csrf_ring
  obtain ⟨key, hkey⟩ := Option.isSome_iff_exists.1 hactive
  refine validThrottleKeyVersion_of_valid ?_
  rcases List.mem_cons.1 hmem with rfl | hmem
  · exact hkeys _ ((Table.mem_rows_iff _ _ _).2 hkey)
  · obtain ⟨entry, hentry, rfl⟩ := List.mem_map.1 (mem_retainedVersions.1 hmem).1
    exact hkeys entry hentry

private theorem mapM_versions {versions : List String} {digest : String → Option Digest} {aliases : List ThrottleAlias}
    (h : (versions.mapM fun version => (digest version).map fun d => (⟨version, d⟩ : ThrottleAlias)) = some aliases) :
    aliases.map ThrottleAlias.keyVersion = versions := by
  induction versions generalizing aliases with
  | nil =>
      simp only [List.mapM_nil, Option.pure_def, Option.some.injEq] at h
      simp [← h]
  | cons version rest ih =>
      simp only [List.mapM_cons, Option.pure_def, Option.bind_eq_bind, Option.bind_eq_some_iff, Option.map_eq_some_iff,
        Option.some.injEq] at h
      obtain ⟨first, ⟨d, -, rfl⟩, others, hothers, rfl⟩ := h
      simp [ih hothers]

theorem csrfIdentity_formed {kind : ThrottleKind} {domain : String} {components : List Bytes}
    {identity : ThrottleIdentity} (h : config.csrfIdentity kind domain components "" = some identity) :
    identity.kind = kind ∧ identity.Formed := by
  simp only [csrfIdentity, Option.bind_eq_bind, Option.bind_eq_some_iff, Option.pure_def, Option.some.injEq] at h
  obtain ⟨aliases, haliases, digest, -, rfl⟩ := h
  have hversions := mapM_versions haliases
  have hall : ∀ key : ThrottleAlias, key ∈ (⟨config.csrfKeys.activeVersion, digest⟩ : ThrottleAlias) :: aliases →
      key.keyVersion ∈ config.csrfKeys.activeVersion :: config.retainedVersions := by
    intro key hmem
    rw [← hversions]
    rcases List.mem_cons.1 hmem with rfl | hmem
    · exact List.mem_cons_self
    · exact List.mem_cons_of_mem _ (List.mem_map_of_mem hmem)
  refine ⟨rfl, ?_, fun key hmem => valid_version (hall key hmem), ?_, rfl⟩
  · have := config.length_retainedVersions_le
    rw [← hversions, List.length_map] at this
    exact this
  · simp only [ThrottleIdentity.candidates, ThrottleIdentity.primary, List.map_cons, hversions]
    exact config.nodup_versions

theorem usernameIdentity_formed {username : Bytes} {identity : ThrottleIdentity}
    (h : config.usernameIdentity username = some identity) : identity.kind = .username ∧ identity.Formed := by
  simp only [usernameIdentity, Option.bind_eq_bind, Option.bind_eq_some_iff, Option.pure_def, Option.some.injEq] at h
  obtain ⟨digests, hdigests, first, hfirst, rfl⟩ := h
  have hring := config.username_valid
  simp only [UsernameThrottleKeyRing.validate, Bool.and_eq_true, decide_eq_true_eq, List.all_eq_true] at hring
  obtain ⟨⟨⟨⟨⟨⟨-, hfew⟩, hversions⟩, hnodup⟩, -⟩, -⟩, -⟩ := hring
  unfold UsernameThrottleKeyRing.usernameDigests at hdigests
  split at hdigests
  · cases hdigests
    simp only [UsernameThrottleKeyRing.versions, List.map_cons, List.tail_cons] at hnodup hversions ⊢
    have hnames : (List.zipWith ThrottleAlias.mk config.usernameThrottleKeys.retainedVersions
        (config.usernameThrottleKeys.retainedVersions.map fun version =>
          Hmac.sum ((config.usernameThrottleKeys.keys.get? version).getD [])
            (Bytes.ofString "autodeploy/username-throttle/v1" ++ [0] ++ username))).map ThrottleAlias.keyVersion =
        config.usernameThrottleKeys.retainedVersions := by
      rw [List.zipWith_map_right, List.zipWith_self, List.map_map]
      exact List.map_id _
    refine ⟨trivial, ?_, fun key hmem => ?_, ?_, rfl⟩
    · simpa [maxThrottleAliases] using hfew
    · refine validThrottleKeyVersion_of_valid (hversions key.keyVersion ?_).1
      rw [← hnames]
      rcases List.mem_cons.1 hmem with rfl | hmem
      · exact List.mem_cons_self
      · exact List.mem_cons_of_mem _ (List.mem_map_of_mem hmem)
    · simp only [ThrottleIdentity.candidates, ThrottleIdentity.primary, List.map_cons, hnames]
      exact hnodup
  · cases hdigests

-- A pair, a username and an address, in this order.
theorem identities_formed {ip username : Bytes} {malformed : Bool} {ids : List ThrottleIdentity}
    (h : config.identities ip username "" malformed = some ids) :
    ∃ pair name address, ids = [pair, name, address] ∧ pair.kind = .pair ∧ name.kind = .username ∧ address.kind = .ip ∧
      pair.Formed ∧ name.Formed ∧ address.Formed := by
  simp only [identities, Option.bind_eq_bind, Option.bind_eq_some_iff, Option.pure_def, Option.some.injEq] at h
  obtain ⟨pair, hpair, address, haddress, name, hname, rfl⟩ := h
  obtain ⟨hip, haddress⟩ := csrfIdentity_formed haddress
  have hpair : pair.kind = .pair ∧ pair.Formed := by
    unfold pairIdentity at hpair
    split at hpair
    · exact csrfIdentity_formed hpair
    · exact csrfIdentity_formed hpair
  have hname : name.kind = .username ∧ name.Formed := by
    unfold nameIdentity at hname
    split at hname
    · exact csrfIdentity_formed hname
    · exact usernameIdentity_formed hname
  exact ⟨pair, name, address, rfl, hpair.1, hname.1, hip, hpair.2, hname.2, haddress⟩

end WebConfig

theorem ThrottleIdentity.Formed.nodup_kinded {identity : ThrottleIdentity} (h : identity.Formed) : identity.kinded.Nodup := by
  refine List.Nodup.of_map (fun key => key.2.keyVersion) ?_
  simpa [ThrottleIdentity.kinded, Function.comp_def] using h.distinct

theorem mem_kinded {identity : ThrottleIdentity} {entry : ThrottleKind × ThrottleAlias} (h : entry ∈ identity.kinded) :
    entry.1 = identity.kind := by
  obtain ⟨key, -, rfl⟩ := List.mem_map.1 h
  rfl

-- A reservation of the handler passes the repository's check unless a version has the reserved name or a digest is zero.
theorem validate_built_iff {pair name address : ThrottleIdentity} {maxRows : Nat} (hmax : 8 ≤ maxRows ∧ maxRows ≤ 100000)
    (hkinds : pair.kind = .pair ∧ name.kind = .username ∧ address.kind = .ip)
    (hformed : pair.Formed ∧ name.Formed ∧ address.Formed) :
    validateThrottleIdentities [pair, name, address] maxRows = .ok () ↔
      ∀ identity ∈ [pair, name, address], ∀ key ∈ identity.candidates,
        key.keyVersion ≠ "overflow" ∧ key.digest ≠ zeroDigest := by
  obtain ⟨hpair, hname, haddress⟩ := hformed
  have hall : ∀ identity ∈ [pair, name, address], identity.Formed := by simp [hpair, hname, haddress]
  rw [validateThrottleIdentities_eq_ok]
  constructor
  · rintro ⟨-, hvalid, -⟩ identity hmem key hkey
    exact ((hvalid identity hmem).keys key hkey).2
  · intro husable
    refine ⟨⟨by simp, by simp, hmax⟩, fun identity hmem => ?_, ?_⟩
    · have hformed := hall identity hmem
      exact ⟨hformed.few, fun hne => absurd hformed.untagged hne,
        fun key hkey => ⟨hformed.versions key hkey, husable identity hmem key hkey⟩⟩
    · have hdiffer : ∀ {x y : ThrottleIdentity}, x.kind ≠ y.kind → List.Disjoint x.kinded y.kinded := by
        intro x y hne entry hx hy
        exact hne ((mem_kinded hx).symm.trans (mem_kinded hy))
      simp only [List.flatMap_cons, List.flatMap_nil, List.append_nil]
      refine hpair.nodup_kinded.append (hname.nodup_kinded.append haddress.nodup_kinded (hdiffer ?_)) ?_
      · simp [hkinds.2.1, hkinds.2.2]
      · refine List.disjoint_append_right.2 ⟨hdiffer ?_, hdiffer ?_⟩
        · simp [hkinds.1, hkinds.2.1]
        · simp [hkinds.1, hkinds.2.2]

end AutoDeploy.Auth
