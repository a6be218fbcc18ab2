import AutoDeploy.Traefik.Documents

namespace AutoDeploy.Traefik

open Lib Lib.Result Text

-- The names that keep the environments of one directory apart.

def routeFilePrefix : String := "environment-"

def routeFileExtension : String := ".yml"

def routeFileName (environmentID : String) : String := routeFilePrefix ++ environmentID ++ routeFileExtension

-- The second identifier is the first, a hyphen, and what could itself be an identifier.
def Continues (e e' : String) : Prop := ∃ x : String, e' = e ++ "-" ++ x ∧ x.toList.head?.any isAlphanumeric = true

-- No object of two environments has the same name.
def NamesApart (r r' : EnvironmentRoute) : Prop :=
  serviceName r ≠ serviceName r' ∧ routerName r ≠ routerName r' ∧
    routeFileName r.environmentID ≠ routeFileName r'.environmentID

theorem append_right_injective {s t u : String} (h : s ++ t = s ++ u) : t = u := by
  have hlist := congrArg String.toList h
  rw [String.toList_append, String.toList_append] at hlist
  exact String.toList_inj.1 (List.append_cancel_left hlist)

theorem append_left_injective {s t u : String} (h : s ++ u = t ++ u) : s = t := by
  have hlist := congrArg String.toList h
  rw [String.toList_append, String.toList_append] at hlist
  exact String.toList_inj.1 (List.append_cancel_right hlist)

theorem routerName_injective {r r' : EnvironmentRoute} (h : routerName r = routerName r') :
    r.environmentID = r'.environmentID := append_right_injective h

theorem routeFileName_injective {e e' : String} (h : routeFileName e = routeFileName e') : e = e' :=
  append_right_injective (append_left_injective h)

-- The part of a service name after its label.
def serviceTail (r : EnvironmentRoute) : List Char :=
  r.environmentID.toList ++ '-' :: (r.releaseID.toList ++ '-' :: r.fenceID.toList)

theorem hyphen_toList : "-".toList = ['-'] := by decide

theorem serviceName_eq_iff (r r' : EnvironmentRoute) : serviceName r = serviceName r' ↔ serviceTail r = serviceTail r' := by
  have hjoin (label a b c : String) : (label ++ a ++ "-" ++ b ++ "-" ++ c).toList =
      label.toList ++ (a.toList ++ '-' :: (b.toList ++ '-' :: c.toList)) := by
    simp only [String.toList_append, List.append_assoc, hyphen_toList, List.cons_append, List.nil_append]
  have htext (r : EnvironmentRoute) : (serviceName r).toList = "autodeploy-svc-".toList ++ serviceTail r :=
    hjoin _ _ _ _
  rw [← String.toList_inj, htext, htext]
  exact ⟨List.append_cancel_left, fun h => congrArg _ h⟩

theorem opaqueName_head {n : Nat} {s : String} (h : opaqueName n s = true) :
    ∃ c rest, s.toList = c :: rest ∧ isAlphanumeric c = true ∧ rest.length ≤ n := by
  unfold opaqueName at h
  split at h
  · cases h
  · rename_i c rest hs
    simp only [Bool.and_eq_true, decide_eq_true_eq] at h
    exact ⟨c, rest, hs, h.1.1, h.1.2⟩

theorem validate_eq_ok (r : EnvironmentRoute) : r.validate = .ok () ↔
    opaqueName 127 r.environmentID = true ∧ Healthgate.validRouteHostname r.hostname = true ∧
      opaqueName 62 r.entrypointName = true ∧ opaqueName 62 r.certResolverName = true ∧
      (Dockerid.containerName r.backendRuntimeInstanceID).isSome = true ∧ (1 ≤ r.backendPort ∧ r.backendPort ≤ 65535) ∧
      opaqueName 127 r.releaseID = true ∧ opaqueName 127 r.fenceID = true := by
  simp only [EnvironmentRoute.validate, bind_eq_ok, require_eq_ok, exists_const]

-- A shorter identifier with the same service name leaves a hyphen and the start of its release.
theorem continues_of_shorter {r r' : EnvironmentRoute} (hrelease : opaqueName 127 r.releaseID = true) {y : List Char}
    (hy : r'.environmentID.toList = r.environmentID.toList ++ y) (hne : r.environmentID ≠ r'.environmentID)
    (htail : '-' :: (r.releaseID.toList ++ '-' :: r.fenceID.toList) =
      y ++ '-' :: (r'.releaseID.toList ++ '-' :: r'.fenceID.toList)) : Continues r.environmentID r'.environmentID := by
  cases y with
  | nil =>
      rw [List.append_nil] at hy
      exact absurd (String.toList_inj.1 hy.symm) hne
  | cons first x =>
      rw [List.cons_append, List.cons.injEq] at htail
      obtain ⟨rfl, htail⟩ := htail
      obtain ⟨c, rest, hlist, hfirst, -⟩ := opaqueName_head hrelease
      refine ⟨String.ofList x, ?_, ?_⟩
      · apply String.toList_inj.1
        simp only [hy, String.toList_append, List.append_assoc, hyphen_toList, String.toList_ofList, List.cons_append,
          List.nil_append]
      · rw [String.toList_ofList]
        rw [hlist, List.cons_append] at htail
        cases x with
        | nil =>
            -- A release does not start with a hyphen.
            rw [List.nil_append, List.cons.injEq] at htail
            rw [htail.1] at hfirst
            exact absurd hfirst (by decide)
        | cons c' x =>
            rw [List.cons_append, List.cons.injEq] at htail
            rw [List.head?_cons, ← htail.1]
            exact hfirst

theorem continues_of_serviceName_eq {r r' : EnvironmentRoute} (h : r.validate = .ok ()) (h' : r'.validate = .ok ())
    (hne : r.environmentID ≠ r'.environmentID) (hname : serviceName r = serviceName r') :
    Continues r.environmentID r'.environmentID ∨ Continues r'.environmentID r.environmentID := by
  rw [serviceName_eq_iff] at hname
  rcases List.append_eq_append_iff.1 hname with ⟨y, hy, htail⟩ | ⟨y, hy, htail⟩
  · exact .inl (continues_of_shorter ((validate_eq_ok r).1 h).2.2.2.2.2.2.1 hy hne htail)
  · exact .inr (continues_of_shorter ((validate_eq_ok r').1 h').2.2.2.2.2.2.1 hy hne.symm htail)

-- A route of an environment that serves one host.
def plainRoute (environmentID releaseID fenceID : String) : EnvironmentRoute where
  environmentID := environmentID
  routeRevision := 1
  hostname := "app.example"
  entrypointName := defaultEntrypointName
  certResolverName := defaultCertResolverName
  backendRuntimeInstanceID := "1"
  backendPort := 8080
  backendScheme := .http
  releaseID := releaseID
  fenceID := fenceID

theorem validate_plainRoute {environmentID releaseID fenceID : String} (henvironment : opaqueName 127 environmentID = true)
    (hrelease : opaqueName 127 releaseID = true) (hfence : opaqueName 127 fenceID = true) :
    (plainRoute environmentID releaseID fenceID).validate = .ok () := by
  have hrest : Healthgate.validRouteHostname "app.example" = true ∧ opaqueName 62 defaultEntrypointName = true ∧
      opaqueName 62 defaultCertResolverName = true ∧ (Dockerid.containerName "1").isSome = true := by decide +kernel
  exact (validate_eq_ok _).2 ⟨henvironment, hrest.1, hrest.2.1, hrest.2.2.1, hrest.2.2.2, ⟨by simp [plainRoute], by simp [plainRoute]⟩, hrelease, hfence⟩

-- The release of the shorter identifier takes in what the longer one has more.
theorem serviceName_collides {e e' : String} (he : opaqueName 127 e = true) (he' : opaqueName 127 e' = true)
    (h : Continues e e') : ∃ r r', r.validate = .ok () ∧ r'.validate = .ok () ∧ r.environmentID = e ∧
      r'.environmentID = e' ∧ serviceName r = serviceName r' := by
  obtain ⟨x, rfl, hx⟩ := h
  have hrelease : opaqueName 127 x = true := by
    have hlist : (e ++ "-" ++ x).toList = e.toList ++ '-' :: x.toList := by
      rw [String.toList_append, String.toList_append, List.append_assoc, hyphen_toList, List.cons_append, List.nil_append]
    obtain ⟨c, rest, heq, -, hlength⟩ := opaqueName_head he'
    have hchars : ∀ d ∈ x.toList, nameChar d = true := fun d hd =>
      opaqueName_chars he' (hlist ▸ List.mem_append_right _ (List.mem_cons_of_mem _ hd))
    have hshort : x.toList.length ≤ 127 := by
      have htotal := congrArg List.length (hlist.symm.trans heq)
      simp only [List.length_append, List.length_cons] at htotal
      omega
    unfold opaqueName
    cases hxs : x.toList with
    | nil =>
        rw [hxs] at hx
        cases hx
    | cons first rest' =>
        rw [hxs] at hx hchars hshort
        rw [List.length_cons] at hshort
        have hfirst : isAlphanumeric first = true := hx
        have hrest : rest'.all (fun d => isAlphanumeric d || d == '_' || d == '-') = true :=
          List.all_eq_true.2 fun d hd => hchars d (List.mem_cons_of_mem _ hd)
        simp only [hfirst, hrest, Bool.true_and, Bool.and_true, decide_eq_true_eq]
        omega
  refine ⟨plainRoute e x "r-f", plainRoute (e ++ "-" ++ x) "r" "f", validate_plainRoute he hrelease (by decide),
    validate_plainRoute he' (by decide) (by decide), rfl, rfl, ?_⟩
  rw [serviceName_eq_iff]
  have hfence : "r-f".toList = "r".toList ++ '-' :: "f".toList := by decide
  simp only [serviceTail, plainRoute, String.toList_append, List.append_assoc, hyphen_toList, hfence, List.cons_append,
    List.nil_append]

theorem names_apart_iff (e e' : String) (he : opaqueName 127 e = true) (he' : opaqueName 127 e' = true) (hne : e ≠ e') :
    (∀ r r' : EnvironmentRoute, r.validate = .ok () → r'.validate = .ok () → r.environmentID = e → r'.environmentID = e' →
      NamesApart r r') ↔ ¬ Continues e e' ∧ ¬ Continues e' e := by
  constructor
  · intro h
    refine ⟨fun hcontinues => ?_, fun hcontinues => ?_⟩
    · obtain ⟨r, r', hr, hr', hid, hid', hname⟩ := serviceName_collides he he' hcontinues
      exact (h r r' hr hr' hid hid').1 hname
    · obtain ⟨r', r, hr', hr, hid', hid, hname⟩ := serviceName_collides he' he hcontinues
      exact (h r r' hr hr' hid hid').1 hname.symm
  · rintro ⟨hleft, hright⟩ r r' hr hr' rfl rfl
    refine ⟨fun hname => ?_, fun hname => hne (routerName_injective hname), fun hname => hne (routeFileName_injective hname)⟩
    rcases continues_of_serviceName_eq hr hr' hne hname with hcontinues | hcontinues
    · exact hleft hcontinues
    · exact hright hcontinues

-- Two identifiers of which neither starts the other.
theorem names_apart_iff_siblings :
    (∀ r r' : EnvironmentRoute, r.validate = .ok () → r'.validate = .ok () → r.environmentID = "staging" →
      r'.environmentID = "production" → NamesApart r r') ↔
        ¬ Continues "staging" "production" ∧ ¬ Continues "production" "staging" :=
  names_apart_iff "staging" "production" (by decide) (by decide) (by decide)

-- `a` with the release `b` and the fence `c-d`, and `a-b` with the release `c` and the fence `d`.
theorem serviceName_shared : ¬ ∀ r r' : EnvironmentRoute, r.validate = .ok () → r'.validate = .ok () →
    r.environmentID ≠ r'.environmentID → NamesApart r r' := by
  intro h
  have hapart := h (plainRoute "a" "b" "c-d") (plainRoute "a-b" "c" "d")
    (validate_plainRoute (by decide) (by decide) (by decide)) (validate_plainRoute (by decide) (by decide) (by decide))
    (by decide)
  exact hapart.1 (by decide)

end AutoDeploy.Traefik
