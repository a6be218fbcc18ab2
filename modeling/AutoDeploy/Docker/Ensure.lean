import AutoDeploy.Docker.Run

namespace AutoDeploy.Docker

open Lib Lib.Result Lib.Threads

-- Containers are neither removed nor relabelled.
def Kept (e e' : Engine) : Prop :=
  ∀ c ∈ e.containers, ∃ c' ∈ e'.containers, c'.id = c.id ∧ c'.labels = c.labels

theorem Kept.refl (e : Engine) : Kept e e := fun c hc => ⟨c, hc, rfl, rfl⟩

theorem kept_create {e : Engine} {c : Container} (hname : c.name ∉ e.containers.map Container.name)
    (hid : c.id ∉ e.containers.map Container.id) : Kept e (e.create c hname hid) :=
  fun c hc => ⟨c, List.mem_cons_of_mem _ hc, rfl, rfl⟩

theorem kept_start (e : Engine) (id : String) (caller : ReleaseResourceIdentity) : Kept e (e.start id caller) :=
  fun c hc => ⟨c.started id caller, List.mem_map_of_mem hc, started_id id caller c, started_labels id caller c⟩

-- Whatever carries the labels of an identity has the identity's name, and whoever had it started is that identity.
structure Sound (e : Engine) : Prop where
  owned : ∀ c ∈ e.containers, ∀ id, Carries c.labels (identityLabels id) →
    Dockerid.containerName id.runtimeInstanceID = some c.name
  started : ∀ c ∈ e.containers, ∀ id ∈ c.startedBy, Carries c.labels (identityLabels id)

theorem Sound.create {e : Engine} (h : Sound e) {c : Container} (hname : c.name ∉ e.containers.map Container.name)
    (hid : c.id ∉ e.containers.map Container.id)
    (howned : ∀ id, Carries c.labels (identityLabels id) → Dockerid.containerName id.runtimeInstanceID = some c.name)
    (hfresh : c.startedBy = []) : Sound (e.create c hname hid) := by
  constructor
  · intro c' hc' id hcarries
    rcases List.mem_cons.1 hc' with rfl | hc'
    · exact howned id hcarries
    · exact h.owned c' hc' id hcarries
  · intro c' hc' id hstarted
    rcases List.mem_cons.1 hc' with rfl | hc'
    · rw [hfresh] at hstarted
      exact absurd hstarted List.not_mem_nil
    · exact h.started c' hc' id hstarted

-- The container a call has settled on carries its identity.
def Known (e : Engine) (identity : ReleaseResourceIdentity) (id : String) : Prop :=
  ∃ c ∈ e.containers, c.id = id ∧ Carries c.labels (identityLabels identity)

theorem Known.kept {e e' : Engine} (hkept : Kept e e') {identity : ReleaseResourceIdentity} {id : String}
    (h : Known e identity id) : Known e' identity id := by
  obtain ⟨c, hc, hid, hcarries⟩ := h
  obtain ⟨c', hc', hid', hlabels⟩ := hkept c hc
  exact ⟨c', hc', hid'.trans hid, hlabels ▸ hcarries⟩

theorem Sound.start {e : Engine} (h : Sound e) {id : String} {caller : ReleaseResourceIdentity}
    (hknown : Known e caller id) : Sound (e.start id caller) := by
  have hmem {c : Container} (hc : c ∈ (e.start id caller).containers) :
      ∃ c₀ ∈ e.containers, c₀.started id caller = c := List.mem_map.1 hc
  constructor
  · intro c hc other hcarries
    obtain ⟨c₀, hc₀, rfl⟩ := hmem hc
    rw [started_name]
    rw [started_labels] at hcarries
    exact h.owned c₀ hc₀ other hcarries
  · intro c hc other hstarted
    obtain ⟨c₀, hc₀, rfl⟩ := hmem hc
    rw [started_labels]
    by_cases hid : c₀.id = id
    · rw [Container.started, if_pos hid] at hstarted
      rcases List.mem_cons.1 hstarted with rfl | hstarted
      · obtain ⟨c₁, hc₁, hid₁, hcarries⟩ := hknown
        have heq : c₀ = c₁ := List.inj_on_of_nodup_map e.ids hc₀ hc₁ (hid.trans hid₁.symm)
        rw [heq]
        exact hcarries
      · exact h.started c₀ hc₀ other hstarted
    · rw [Container.started, if_neg hid] at hstarted
      exact h.started c₀ hc₀ other hstarted

-- What holds of the engine at each stage of a call.
def Assertion (e : Engine) (_ : Nat) : Stage → Prop
  | .foreign => True
  | .find req _ selector => selector = identityLabels req.identity
  | .network _ _ => True
  | .create req name payload =>
      payload.labels = identityLabels req.identity ∧
        Dockerid.containerName req.identity.runtimeInstanceID = some name
  | .findAgain req selector _ => selector = identityLabels req.identity
  | .start req id => Known e req.identity id
  | .inspect req id => Known e req.identity id
  | .done _ (.error _) => True
  | .done req (.ok inspect) => Known e req.identity inspect.id

theorem Assertion.kept {e e' : Engine} (hkept : Kept e e') {t : Nat} {stage : Stage} (h : Assertion e t stage) :
    Assertion e' t stage := by
  cases stage with
  | foreign => trivial
  | find req network selector => exact h
  | network req network => trivial
  | create req name payload => exact h
  | findAgain req selector conflict => exact h
  | start req id => exact Known.kept hkept h
  | inspect req id => exact Known.kept hkept h
  | done req result =>
      cases result with
      | error e => trivial
      | ok inspect => exact Known.kept hkept h

-- A failure in place of an answer is never taken for one.
theorem getJSON_failure {α : Type} (op : Op) (f : Failure) : ∃ err, getJSON op (f.reply : Reply α) = .error err := by
  cases f with
  | transport cls => exact ⟨_, rfl⟩
  | status code =>
      by_cases hok : 200 ≤ code ∧ code < 300
      · exact ⟨.engine ⟨.malformed, op, 0⟩, by simp [Failure.reply, getJSON, checkStatus, decodeJSON, require_pos hok]⟩
      · exact ⟨.engine ⟨if 500 ≤ code then .transient else .configuration, op, code⟩,
          by rw [Failure.reply, getJSON, checkStatus, require_neg hok, error_bind]⟩

theorem exchange_cases {α : Type} (turn : Turn) (e : Engine) (handled : Engine × Reply α) :
    exchange turn e handled = (e, turn.failure.reply) ∨ exchange turn e handled = (handled.1, turn.failure.reply) ∨
      exchange turn e handled = handled := by
  unfold exchange
  cases turn.fate with
  | unhandled => exact .inl rfl
  | lost => exact .inr (.inl rfl)
  | delivered => exact .inr (.inr rfl)

-- One lookup: the engine is as it was, and what is found carries the selector.
theorem find_turn (e : Engine) (turn : Turn) (selector : Labels) :
    (exchange turn e (e.list selector)).1 = e ∧
      ∀ found, findReleaseRuntimeContainer (exchange turn e (e.list selector)).2 = .ok (some found) →
        ∃ c ∈ e.containers, c.id = found.id ∧ Carries c.labels selector := by
  have hfailure (found : ContainerSummary) : findReleaseRuntimeContainer turn.failure.reply ≠ .ok (some found) := by
    intro h
    obtain ⟨err, herr⟩ := getJSON_failure (α := List ContainerSummary) .containerList turn.failure
    rw [findReleaseRuntimeContainer, listContainersByLabels, herr] at h
    cases h
  rcases exchange_cases turn e (e.list selector) with h | h | h
  · rw [h]
    exact ⟨rfl, fun found hfound => absurd hfound (hfailure found)⟩
  · rw [h]
    exact ⟨rfl, fun found hfound => absurd hfound (hfailure found)⟩
  · rw [h]
    refine ⟨rfl, fun found hfound => ?_⟩
    have hlist : listContainersByLabels (e.list selector).2 =
        .ok ((e.containers.filter fun c => Carries c.labels selector).map fun c => ⟨c.id, c.labels⟩) := rfl
    rw [findReleaseRuntimeContainer, hlist, ok_bind] at hfound
    split at hfound
    · cases hfound
    · next one hone =>
        cases hfound
        have hmem : found ∈ (e.containers.filter fun c => Carries c.labels selector).map
            (fun c => (⟨c.id, c.labels⟩ : ContainerSummary)) := by
          rw [hone]
          exact List.mem_singleton_self found
        obtain ⟨c, hc, rfl⟩ := List.mem_map.1 hmem
        obtain ⟨hc, hcarries⟩ := List.mem_filter.1 hc
        exact ⟨c, hc, rfl, of_decide_eq_true hcarries⟩
    · cases hfound

theorem selector_eq_ok {id : ReleaseResourceIdentity} {selector : Labels}
    (h : releaseRuntimeContainerSelector id = .ok selector) : selector = identityLabels id :=
  buildLabels_eq_ok (release_verbatim id) h

-- A turn of a call or of somebody else: the engine stays sound and keeps what it has, and the stage that is reached is
-- the one asserted.
structure GoodTurn (e : Engine) (t : Nat) (out : Engine × Stage) : Prop where
  sound : Sound out.1
  kept : Kept e out.1
  holds : Assertion out.1 t out.2

theorem GoodTurn.same {e : Engine} {t : Nat} {out : Engine × Stage} (h : Sound e) (hengine : out.1 = e)
    (hholds : Assertion e t out.2) : GoodTurn e t out := by
  refine ⟨?_, ?_, ?_⟩
  · rw [hengine]
    exact h
  · rw [hengine]
    exact Kept.refl e
  · rw [hengine]
    exact hholds

theorem find_good {e : Engine} {t : Nat} {turn : Turn} {req : RunContainerRequest} {network : String} {selector : Labels}
    (h : Sound e) (hselector : selector = identityLabels req.identity) :
    GoodTurn e t (next e t turn (.find req network selector)) := by
  subst hselector
  obtain ⟨hengine, hfound⟩ := find_turn e turn (identityLabels req.identity)
  refine GoodTurn.same h hengine ?_
  show Assertion e t (afterFind req network _)
  unfold afterFind
  split
  · trivial
  · next found hok => exact hfound found hok
  · trivial

theorem findAgain_good {e : Engine} {t : Nat} {turn : Turn} {req : RunContainerRequest} {conflict : RunError}
    {selector : Labels} (h : Sound e) (hselector : selector = identityLabels req.identity) :
    GoodTurn e t (next e t turn (.findAgain req selector conflict)) := by
  subst hselector
  obtain ⟨hengine, hfound⟩ := find_turn e turn (identityLabels req.identity)
  refine GoodTurn.same h hengine ?_
  show Assertion e t (afterFindAgain req conflict _)
  unfold afterFindAgain
  split
  · trivial
  · next found hok => exact hfound found hok
  · trivial

theorem prepareCreate_eq_ok {req req' : RunContainerRequest} {reply : Reply NetworkInspect} {name : String}
    {payload : ContainerCreateRequest} (h : prepareCreate req reply = .ok (req', name, payload)) :
    payload.labels = identityLabels req'.identity ∧
      Dockerid.containerName req'.identity.runtimeInstanceID = some name := by
  simp only [prepareCreate, containerName, bind_eq_ok, pure_eq_ok, mapError_eq_ok, found_eq_ok, Prod.mk.injEq] at h
  obtain ⟨network, -, networkID, -, _, -, labels, hlabels, found, hname, rfl, rfl, rfl⟩ := h
  exact ⟨releaseRuntimeContainerLabels_eq_ok hlabels, hname⟩

theorem network_good {e : Engine} {t : Nat} {turn : Turn} {req : RunContainerRequest} {network : String} (h : Sound e) :
    GoodTurn e t (next e t turn (.network req network)) := by
  have hengine : (exchange turn e (e.inspectNetwork turn)).1 = e := by
    have hhandled : (e.inspectNetwork turn).1 = e := by
      unfold Engine.inspectNetwork
      split <;> rfl
    rcases exchange_cases turn e (e.inspectNetwork turn) with heq | heq | heq
    · rw [heq]
    · rw [heq, hhandled]
    · rw [heq, hhandled]
  refine GoodTurn.same h hengine ?_
  show Assertion e t (afterNetwork req _)
  unfold afterNetwork
  split
  · trivial
  · next hok => exact prepareCreate_eq_ok hok

-- What the engine makes of a creation.
theorem createNamed_cases (e : Engine) (turn : Turn) (name : String) (labels : Labels) :
    (∃ status, e.createNamed turn name labels = (e, .answered status none)) ∨
      ∃ hname hid, e.createNamed turn name labels =
        (e.create ⟨turn.freshID, name, labels ++ turn.imageLabels, []⟩ hname hid, .answered 201 (some turn.freshID)) := by
  unfold Engine.createNamed
  split
  · exact .inl ⟨409, rfl⟩
  · next hname =>
      split
      · exact .inl ⟨500, rfl⟩
      · next hid => exact .inr ⟨hname, hid, rfl⟩

theorem createContainer_bodyless {name id : String} {status : Nat} :
    createContainer name (.answered status none) ≠ .ok id := by
  intro h
  simp only [createContainer, decodeJSON, bind_eq_ok, found_eq_ok, reduceCtorEq, false_and, exists_const, and_false] at h

theorem createContainer_failure {name id : String} (f : Failure) : createContainer name f.reply ≠ .ok id := by
  cases f with
  | transport cls => simp [Failure.reply, createContainer]
  | status code => exact createContainer_bodyless

theorem afterCreate_asserted {e : Engine} {t : Nat} {req : RunContainerRequest} {name : String} {reply : Reply String}
    (hok : ∀ id, createContainer name reply = .ok id → Known e req.identity id) :
    Assertion e t (afterCreate req name reply) := by
  unfold afterCreate
  split
  · next id hid => exact hok id hid
  · split
    · trivial
    · next selector hselector => exact selector_eq_ok hselector
  · trivial

theorem create_good {e : Engine} {t : Nat} {turn : Turn} {req : RunContainerRequest} {name : String}
    {payload : ContainerCreateRequest} (h : Sound e) (hlabels : payload.labels = identityLabels req.identity)
    (hname : Dockerid.containerName req.identity.runtimeInstanceID = some name) :
    GoodTurn e t (next e t turn (.create req name payload)) := by
  -- With no container created the call is told so, or is told nothing.
  have hsame (reply : Reply String) (hno : ∀ id, createContainer name reply ≠ .ok id) :
      GoodTurn e t (e, afterCreate req name reply) :=
    .same h rfl (afterCreate_asserted fun id hid => absurd hid (hno id))
  show GoodTurn e t ((exchange turn e (e.createNamed turn name payload.labels)).1, afterCreate req name _)
  rcases createNamed_cases e turn name payload.labels with ⟨status, hcase⟩ | ⟨hfree, hid, hcase⟩
  · rw [hcase]
    rcases exchange_cases turn e (e, (.answered status none : Reply String)) with heq | heq | heq
    · rw [heq]
      exact hsame _ fun id => createContainer_failure turn.failure
    · rw [heq]
      exact hsame _ fun id => createContainer_failure turn.failure
    · rw [heq]
      exact hsame _ fun id => createContainer_bodyless
  · rw [hcase]
    have hcarries : Carries (payload.labels ++ turn.imageLabels) (identityLabels req.identity) := by
      rw [hlabels]
      exact identityLabels_carried req.identity turn.imageLabels
    have hsound : Sound (e.create ⟨turn.freshID, name, payload.labels ++ turn.imageLabels, []⟩ hfree hid) := by
      refine h.create hfree hid (fun id hother => ?_) rfl
      rw [← carries_unique hcarries hother]
      exact hname
    rcases exchange_cases turn e (e.create ⟨turn.freshID, name, payload.labels ++ turn.imageLabels, []⟩ hfree hid,
      (.answered 201 (some turn.freshID) : Reply String)) with heq | heq | heq
    · rw [heq]
      exact hsame _ fun id => createContainer_failure turn.failure
    · rw [heq]
      exact ⟨hsound, kept_create hfree hid,
        afterCreate_asserted fun id hok => absurd hok (createContainer_failure turn.failure)⟩
    · rw [heq]
      refine ⟨hsound, kept_create hfree hid, afterCreate_asserted fun id hok => ?_⟩
      simp only [createContainer, decodeJSON, found_some, bind_eq_ok, pure_eq_ok] at hok
      obtain ⟨_, -, _, -, id', hid', _, -, rfl⟩ := hok
      cases hid'
      exact ⟨_, List.mem_cons_self, rfl, hcarries⟩

theorem start_good {e : Engine} {t : Nat} {turn : Turn} {req : RunContainerRequest} {id : String} (h : Sound e)
    (hknown : Known e req.identity id) : GoodTurn e t (next e t turn (.start req id)) := by
  have hafter (e' : Engine) (hknown' : Known e' req.identity id) (reply : Reply Unit) :
      Assertion e' t (afterStart req id reply) := by
    unfold afterStart
    split
    · trivial
    · exact hknown'
  have hhandled : (e.startNamed id req.identity).1 = e.start id req.identity := by
    obtain ⟨c, hc, rfl, -⟩ := hknown
    rw [Engine.startNamed, if_pos (List.mem_map_of_mem hc)]
  have hkept := kept_start e id req.identity
  show GoodTurn e t ((exchange turn e (e.startNamed id req.identity)).1, afterStart req id _)
  rcases exchange_cases turn e (e.startNamed id req.identity) with heq | heq | heq
  · rw [heq]
    exact .same h rfl (hafter e hknown _)
  · rw [heq, hhandled]
    exact ⟨h.start hknown, hkept, hafter _ (hknown.kept hkept) _⟩
  · rw [heq, hhandled]
    exact ⟨h.start hknown, hkept, hafter _ (hknown.kept hkept) _⟩

theorem inspect_good {e : Engine} {t : Nat} {turn : Turn} {req : RunContainerRequest} {id : String} (h : Sound e)
    (hknown : Known e req.identity id) : GoodTurn e t (next e t turn (.inspect req id)) := by
  -- The container is inspected under the ID by which it is known.
  have hhandled : ∃ name, e.inspect id = (e, .answered 200 (some ⟨id, name⟩)) := by
    obtain ⟨c, hc, hid, -⟩ := hknown
    unfold Engine.inspect
    cases hfind : e.containers.find? fun c => c.id = id with
    | none => exact absurd hid (by simpa using List.find?_eq_none.1 hfind c hc)
    | some c' =>
        have hid' : c'.id = id := by simpa using List.find?_some hfind
        refine ⟨"/" ++ c'.name, ?_⟩
        simp only [hid']
  obtain ⟨name, hhandled⟩ := hhandled
  have hfailure : ∃ err, inspectContainer turn.failure.reply = .error err := by
    obtain ⟨err, herr⟩ := getJSON_failure (α := ContainerInspect) .containerInspect turn.failure
    exact ⟨err, by rw [inspectContainer, herr, error_bind]⟩
  obtain ⟨err, hfailure⟩ := hfailure
  show GoodTurn e t ((exchange turn e (e.inspect id)).1, .done req (inspectContainer _))
  rw [hhandled]
  rcases exchange_cases turn e (e, (.answered 200 (some ⟨id, name⟩) : Reply ContainerInspect)) with heq | heq | heq
  · rw [heq, hfailure]
    exact .same h rfl trivial
  · rw [heq, hfailure]
    exact .same h rfl trivial
  · rw [heq]
    refine .same h rfl ?_
    show Assertion e t (.done req (inspectContainer (.answered 200 (some ⟨id, name⟩))))
    cases hresult : inspectContainer (.answered 200 (some ⟨id, name⟩)) with
    | error err => trivial
    | ok out =>
        simp only [inspectContainer, getJSON, checkStatus, decodeJSON, found_some, bind_eq_ok, pure_eq_ok] at hresult
        obtain ⟨out', ⟨_, -, hout⟩, _, -, rfl⟩ := hresult
        cases hout
        exact hknown

theorem foreign_not_carries {labels : Labels} (h : Foreign labels) (id : ReleaseResourceIdentity) :
    ¬ Carries labels (identityLabels id) := by
  intro hcarries
  exact h (hcarries (Label.kind.text, Kind.releaseRuntimeContainer.text) (by simp [identityLabels, kindLabels]))

theorem foreign_good {e : Engine} {t : Nat} {turn : Turn} (h : Sound e) : GoodTurn e t (next e t turn .foreign) := by
  show GoodTurn e t (e.createForeign turn, .foreign)
  unfold Engine.createForeign
  split
  · next hforeign =>
      rcases createNamed_cases e turn turn.name [] with ⟨status, hcase⟩ | ⟨hname, hid, hcase⟩
      · rw [hcase]
        exact .same h rfl trivial
      · rw [hcase]
        exact ⟨h.create hname hid (fun id hcarries => absurd hcarries (foreign_not_carries hforeign id)) rfl,
          kept_create hname hid, trivial⟩
  · exact .same h rfl trivial

theorem next_good {e : Engine} {t : Nat} (turn : Turn) {stage : Stage} (h : Sound e) (hstage : Assertion e t stage) :
    GoodTurn e t (next e t turn stage) := by
  cases stage with
  | foreign => exact foreign_good h
  | find req network selector => exact find_good h hstage
  | network req network => exact network_good h
  | create req name payload => exact create_good h hstage.1 hstage.2
  | findAgain req selector conflict => exact findAgain_good h hstage
  | start req id => exact start_good h hstage
  | inspect req id => exact inspect_good h hstage
  | done req result => exact .same h rfl hstage

-- The calls of a run are at their start, or are somebody else's doing.
def Initial (stage : Stage) : Prop :=
  stage = .foreign ∨ ∃ req network, stage = ensureReleaseRuntimeContainer req network

theorem Initial.asserted {stage : Stage} (h : Initial stage) (e : Engine) (t : Nat) : Assertion e t stage := by
  rcases h with rfl | ⟨req, network, rfl⟩
  · trivial
  · unfold ensureReleaseRuntimeContainer
    split
    · trivial
    · split
      · trivial
      · next selector hselector => exact selector_eq_ok hselector

theorem run_sound {e : Engine} {stages : Nat → Stage} (hforeign : ∀ c ∈ e.containers, Foreign c.labels ∧ c.startedBy = [])
    (hinitial : ∀ t, Initial (stages t)) (turns : List (Nat × Turn)) :
    Sound (callers.run ⟨e, stages⟩ turns).shared ∧ Asserts Assertion (callers.run ⟨e, stages⟩ turns) := by
  refine run_invariant (I := fun c => Sound c.shared ∧ Asserts Assertion c) ?_ (allows_true turns) ⟨⟨?_, ?_⟩, ?_⟩
  · rintro c turn ⟨hsound, hasserts⟩ -
    have hgood := next_good turn.2 hsound (hasserts turn.1)
    exact ⟨hgood.sound, hasserts.step (fun u l _ hl => hl.kept hgood.kept) hgood.holds⟩
  · intro c hc id hcarries
    exact absurd hcarries (foreign_not_carries (hforeign c hc).1 id)
  · intro c hc id hid
    rw [(hforeign c hc).2] at hid
    exact absurd hid List.not_mem_nil
  · exact fun t => (hinitial t).asserted e t

-- At most one container carries an identity: two of them would have one name.
theorem Sound.unique {e : Engine} (h : Sound e) {id : ReleaseResourceIdentity} {c c' : Container}
    (hc : c ∈ e.containers) (hc' : c' ∈ e.containers) (hcarries : Carries c.labels (identityLabels id))
    (hcarries' : Carries c'.labels (identityLabels id)) : c = c' := by
  have hname := (h.owned c hc id hcarries).symm.trans (h.owned c' hc' id hcarries')
  exact List.inj_on_of_nodup_map e.names hc hc' (Option.some.inj hname)

-- What a run of any number of calls leaves.
structure Idempotent (c : Config Engine Stage) : Prop where
  one : ∀ id, (c.shared.containers.filter fun k => Carries k.labels (identityLabels id)).length ≤ 1
  returned : ∀ t req inspect, c.stage t = .done req (.ok inspect) → ∃ k ∈ c.shared.containers, k.id = inspect.id ∧
    Carries k.labels (identityLabels req.identity) ∧
      ∀ other, Carries k.labels (identityLabels other) → other = req.identity
  started : ∀ k ∈ c.shared.containers, ∀ id ∈ k.startedBy, Carries k.labels (identityLabels id) ∧
    ∀ other, Carries k.labels (identityLabels other) → other = id

theorem ensure_idempotent (e : Engine) (stages : Nat → Stage)
    (hforeign : ∀ c ∈ e.containers, Foreign c.labels ∧ c.startedBy = []) (hinitial : ∀ t, Initial (stages t))
    (turns : List (Nat × Turn)) : Idempotent (callers.run ⟨e, stages⟩ turns) := by
  obtain ⟨hsound, hasserts⟩ := run_sound hforeign hinitial turns
  generalize callers.run ⟨e, stages⟩ turns = c at hsound hasserts
  refine ⟨fun id => ?_, fun t req inspect hdone => ?_, fun k hk id hid => ?_⟩
  · by_contra hmany
    have hnodup : c.shared.containers.Nodup := List.Nodup.of_map Container.name c.shared.names
    have hfiltered := hnodup.filter fun k => Carries k.labels (identityLabels id)
    have hmem {k : Container} (hk : k ∈ c.shared.containers.filter fun k => Carries k.labels (identityLabels id)) :
        k ∈ c.shared.containers ∧ Carries k.labels (identityLabels id) := by
      simpa using hk
    cases hlist : c.shared.containers.filter fun k => Carries k.labels (identityLabels id) with
    | nil => simp [hlist] at hmany
    | cons first rest =>
        cases rest with
        | nil => simp [hlist] at hmany
        | cons second rest =>
            rw [hlist] at hmem hfiltered
            obtain ⟨hk, hcarries⟩ := hmem List.mem_cons_self
            obtain ⟨hk', hcarries'⟩ := hmem (List.mem_cons_of_mem _ List.mem_cons_self)
            have heq := hsound.unique hk hk' hcarries hcarries'
            rw [heq] at hfiltered
            exact (List.nodup_cons.1 hfiltered).1 List.mem_cons_self
  · have hknown : Assertion c.shared t (c.stage t) := hasserts t
    rw [hdone] at hknown
    obtain ⟨k, hk, hkid, hcarries⟩ := hknown
    exact ⟨k, hk, hkid, hcarries, fun other hother => carries_unique hother hcarries⟩
  · have hcarries := hsound.started k hk id hid
    exact ⟨hcarries, fun other hother => carries_unique hother hcarries⟩

def emptyEngine : Engine := ⟨[], List.nodup_nil, List.nodup_nil⟩

def sampleIdentity : ReleaseResourceIdentity :=
  ⟨"owner", "project", "environment", "server", "deployment", "release", "1", "2", "3", "2",
    "0123456789abcdef0123456789abcdef01234567",
    "0123456789abcdef0123456789abcdef0123456789abcdef0123456789abcdef",
    "fedcba9876543210fedcba9876543210fedcba9876543210fedcba9876543210"⟩

def sampleRequest : RunContainerRequest := ⟨sampleIdentity, "", 500, 268435456, "unless-stopped", [⟨"PORT", "8080"⟩]⟩

def sampleTurn (fate : Fate) : Turn :=
  ⟨fate, .transport .transient, "c1", [("io.autodeploy.kind", "built-image")], some ⟨"0123456789ab", "edge"⟩, ""⟩

-- Both calls look before either creates; the answer to the first creation is lost, and the second call adopts what
-- it finds.
def racingTurns : List (Nat × Turn) :=
  [(0, sampleTurn .delivered), (1, sampleTurn .delivered), (0, sampleTurn .delivered), (1, sampleTurn .delivered),
    (0, sampleTurn .lost), (1, sampleTurn .delivered), (1, sampleTurn .delivered), (1, sampleTurn .delivered),
    (1, sampleTurn .delivered)]

def Stage.returned : Stage → Option String
  | .done _ (.ok out) => some out.id
  | _ => none

theorem ensure_idempotent_racing :
    let c := callers.run ⟨emptyEngine, fun _ => ensureReleaseRuntimeContainer sampleRequest "edge"⟩ racingTurns
    (c.stage 0).returned = none ∧ (c.stage 1).returned = some "c1" ∧ Idempotent c := by
  intro c
  have hreturned : (c.stage 0).returned = none ∧ (c.stage 1).returned = some "c1" := by decide +kernel
  exact ⟨hreturned.1, hreturned.2, ensure_idempotent emptyEngine _ (fun _ hc => absurd hc List.not_mem_nil)
    (fun _ => .inr ⟨sampleRequest, "edge", rfl⟩) racingTurns⟩

end AutoDeploy.Docker
