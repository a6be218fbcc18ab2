import Mathlib.Data.List.Chain
import AutoDeploy.Deployment.Repository

namespace AutoDeploy.Deployment.History.Repository

open Lib Lib.Result

-- The two tables as an append-only log: each deployment has its head and its events numbered from one.

def taken (d : Aggregate) : Snapshot :=
  ⟨currentSchemaVersion, d.identity, d.status, d.createdAt, d.updatedAt, d.revision, d.events⟩

def eventRows (id : String) (next : Nat) : List Event → List EventRow
  | [] => []
  | event :: rest => eventRow id next event :: eventRows id (next + 1) rest

structure Holds (t : Tables) (id : String) (d : Aggregate) : Prop where
  key : d.identity.deploymentID = id
  well : Wellformed d
  head : t.deployments.get? id = some (headOf (taken d))
  rows : t.rowsOf id = eventRows id 1 d.events

def Vacant (t : Tables) (id : String) : Prop := t.deployments.get? id = none ∧ t.rowsOf id = []

def Kept (t : Tables) : Prop := ∀ id, Vacant t id ∨ ∃ d, Holds t id d

section Rows

variable {t t' : Tables} {id other : String} {next : Nat} {events more : List Event} {event : Event} {row : EventRow}

@[simp] theorem length_eventRows : (eventRows id next events).length = events.length := by
  induction events generalizing next with
  | nil => rfl
  | cons event rest ih => simp [eventRows, ih]

theorem eventRows_append : eventRows id next (events ++ more) =
    eventRows id next events ++ eventRows id (next + events.length) more := by
  induction events generalizing next with
  | nil => rfl
  | cons event rest ih =>
      simp only [eventRows, List.cons_append, ih, List.length_cons]
      rw [show next + 1 + rest.length = next + (rest.length + 1) by omega]

theorem mem_eventRows (h : row ∈ eventRows id next events) :
    row.deploymentID = id ∧ next ≤ row.revision ∧ row.revision < next + events.length := by
  induction events generalizing next with
  | nil => simp [eventRows] at h
  | cons event rest ih =>
      rcases List.mem_cons.1 h with rfl | hrest
      · simp [eventRow]
      · obtain ⟨hid, hlow, hhigh⟩ := ih hrest
        simp only [List.length_cons]
        exact ⟨hid, by omega, by omega⟩

theorem pairwise_eventRows : (eventRows id next events).Pairwise fun a b => decide (a.revision ≤ b.revision) = true := by
  induction events generalizing next with
  | nil => exact .nil
  | cons event rest ih =>
      refine List.pairwise_cons.2 ⟨fun row hrow => ?_, ih⟩
      obtain ⟨-, hlow, -⟩ := mem_eventRows hrow
      have hle : next ≤ row.revision := by omega
      exact decide_eq_true hle

theorem rowsOf_append_eventRows : ({ t with deploymentEvents := t.deploymentEvents ++ eventRows id next events } :
    Tables).rowsOf other = t.rowsOf other ++ if other = id then eventRows id next events else [] := by
  simp only [Tables.rowsOf, List.filter_append]
  congr 1
  split
  · rename_i heq
    refine List.filter_eq_self.2 fun row hrow => ?_
    simp [(mem_eventRows hrow).1, heq]
  · rename_i hne
    refine List.filter_eq_nil_iff.2 fun row hrow => ?_
    simp [(mem_eventRows hrow).1, Ne.symm hne]

-- The row before the next one, if there is one.
theorem find?_previous (hrows : t.rowsOf id = eventRows id 1 (events ++ [event])) :
    t.deploymentEvents.find? (fun r => r.deploymentID = id ∧ r.revision + 1 = events.length + 2) =
      some (eventRow id (events.length + 1) event) := by
  have hfind : t.deploymentEvents.find? (fun r => r.deploymentID = id ∧ r.revision + 1 = events.length + 2) =
      (t.rowsOf id).find? fun r => r.revision + 1 = events.length + 2 := by
    rw [Tables.rowsOf, List.find?_filter]
    congr 1
    funext r
    simp
  rw [hfind, hrows, eventRows_append, List.find?_append]
  have hnone : (eventRows id 1 events).find? (fun r => decide (r.revision + 1 = events.length + 2)) = none := by
    refine List.find?_eq_none.2 fun r hr => ?_
    obtain ⟨-, -, hhigh⟩ := mem_eventRows hr
    simp only [decide_eq_true_eq]
    omega
  rw [hnone]
  simp [eventRows, eventRow, Nat.add_comm]

theorem insertEvents_eq (h : insertEvents t id next events = .ok t') :
    t' = { t with deploymentEvents := t.deploymentEvents ++ eventRows id next events } := by
  induction events generalizing t next with
  | nil =>
      cases h
      simp [eventRows]
  | cons event rest ih =>
      simp only [insertEvents, insertEvent, bind_eq_ok, pure_eq_ok, require_eq_ok] at h
      obtain ⟨t₁, ⟨_, -, _, -, _, -, _, -, _, -, rfl⟩, hrest⟩ := h
      rw [ih hrest]
      simp [eventRows, List.append_assoc]

end Rows

section Values

variable {location : Option String} {t t' : Tables} {id : String} {d v : Aggregate} {current last : AnyStatus}
  {previousAt lastAt : Instant} {index : Nat} {events stored candidate : List Event}

-- How far along the lifecycle a status is at most. Every transition goes further.
def rank : AnyStatus → Nat
  | .known .queued => 0
  | .known .assigned => 1
  | .known .fetching => 2
  | .known .building => 3
  | .known .starting => 4
  | .known .healthChecking => 5
  | .known .activating => 6
  | .known .healthy => 7
  | _ => 8

theorem rank_le (status : AnyStatus) : rank status ≤ 8 := by
  unfold rank
  split <;> omega

theorem rank_lt_of_canTransition {source target : AnyStatus} (h : canTransition source target = true) :
    rank source < rank target := by
  cases source with
  | other text => cases h
  | known source =>
      cases target with
      | other text => cases h
      | known target =>
          revert h
          cases source <;> cases target <;> decide

theorem length_of_validateEvents (h : validateEvents current previousAt index events = .ok (last, lastAt)) :
    rank current + events.length ≤ 8 := by
  induction events generalizing current previousAt index with
  | nil => exact rank_le current
  | cons head rest ih =>
      simp only [validateEvents] at h
      split at h
      · cases h
      · split at h
        · cases h
        · rename_i hmove
          simp only [not_or, ne_eq, not_not, Bool.not_eq_false] at hmove
          have hrank := rank_lt_of_canTransition hmove.2.2
          have hrest := ih h
          simp only [List.length_cons]
          omega

-- The lifecycle has no cycle, so a revision never comes near what its column holds.
theorem revision_le (h : Wellformed d) : d.revision ≤ 9 := by
  obtain ⟨rest, hevents, hwalk⟩ := h.creation
  have hlength := length_of_validateEvents hwalk
  rw [h.recorded.revision, hevents, List.length_cons]
  omega

theorem checkedSnapshot_of_wellformed (h : Wellformed d) : checkedSnapshot d = .ok (taken d) := by
  have hsnapshot : d.snapshot = .ok (taken d) := snapshot_eq_ok.2 ⟨h.valid, rfl⟩
  have hrevision : postgresRevision (taken d).revision = .ok d.revision := by
    have hle := revision_le h
    have hsmall : ¬ 2 ^ 63 - 1 < d.revision := by omega
    exact if_neg hsmall
  simp only [checkedSnapshot, hsnapshot, Except.mapError, ok_bind, hrevision]
  rfl

theorem valid_of_transition {d' : Aggregate} {target : AnyStatus} {at_ : Instant} (h : d.transition target at_ = .ok d') :
    d.validate = .ok () := by
  unfold Aggregate.transition at h
  split at h
  · cases h
  · assumption

-- A value is well formed, or its validation fails and it has at most the creation event.
theorem Value.cases (h : Value d) : Wellformed d ∨ (d.validate ≠ .ok () ∧ d.events.length ≤ 1) := by
  induction h with
  | zero => exact .inr ⟨by decide, by simp⟩
  | @new identity createdAt d hnew =>
      by_cases hzero : createdAt.canonicalTime.isZero = true
      · obtain ⟨-, -, rfl⟩ := new_eq_ok.1 hnew
        refine .inr ⟨fun hvalid => ?_, by simp⟩
        have hcreated := (validate_eq_ok.1 hvalid).2.2.1.1
        rw [hzero] at hcreated
        cases hcreated
      · exact .inl (Built.wellformed (.new hnew (by simpa [NormalisesNonzero] using hzero)))
  | rehydrate hread => exact .inl (wellformed_of_rehydrate hread)
  | transition hd hstep ih =>
      rcases transition_cases hstep with rfl | ⟨rfl, hzero, hlate, hknown, hmove⟩
      · exact ih
      · have hvalid := valid_of_transition hstep
        have hwell := ih.resolve_right fun hbad => hbad.1 hvalid
        exact .inl (hwell.advance (Instant.canonical_canonicalTime _) hzero hlate hknown hmove)

theorem canonical_ofColumn {at_ : Instant} (h : at_.Canonical) : (ofColumn location (toColumn at_)).canonicalTime = at_ := by
  obtain ⟨hwhole, hlocation, hmonotonic⟩ := Instant.canonical_iff.1 h
  obtain ⟨n, place, monotonic⟩ := at_
  simp only at hwhole hlocation hmonotonic
  subst hlocation hmonotonic
  simp only [ofColumn, toColumn, Instant.canonicalTime, Instant.utc, Instant.truncate, Instant.mk.injEq, and_true]
  omega

theorem canonical_readEvents {next : Nat} (h : ∀ e ∈ events, e.occurredAt.Canonical) :
    ((eventRows id next events).map (readEvent location)).map
      (fun e => { e with occurredAt := e.occurredAt.canonicalTime }) = events := by
  induction events generalizing next with
  | nil => rfl
  | cons event rest ih =>
      simp only [eventRows, List.map_cons]
      rw [ih fun e he => h e (List.mem_cons_of_mem _ he)]
      simp only [readEvent, eventRow, canonical_ofColumn (h event List.mem_cons_self)]

-- What is read back is what was stored, whatever the location it is read in.
theorem canonical_assemble (h : Wellformed d) :
    (assemble location (headOf (taken d)) (eventRows id 1 d.events)).canonical = taken d := by
  have hsorted : (eventRows id 1 d.events).mergeSort (fun a b => a.revision ≤ b.revision) = eventRows id 1 d.events :=
    List.mergeSort_of_pairwise pairwise_eventRows
  simp only [assemble, hsorted, Snapshot.canonical, canonical_readEvents h.events]
  simp only [headOf, taken, canonical_ofColumn h.created, canonical_ofColumn h.updated]

theorem rehydrate_assemble (h : Wellformed d) :
    rehydrate (assemble location (headOf (taken d)) (eventRows id 1 d.events)) = .ok d :=
  rehydrate_eq_ok.2 ⟨h.valid, canonical_assemble h⟩

theorem Holds.readSnapshot_eq (h : Holds t id d) :
    readSnapshot location t id = .ok (assemble location (headOf (taken d)) (eventRows id 1 d.events)) := by
  simp [readSnapshot, h.head, h.rows]

theorem Holds.named (h : Holds t id d) : id ≠ "" := by
  have hidentity := (validate_eq_ok.1 h.well.valid).1
  rw [← h.key]
  intro hempty
  simp [validateIdentity, hempty] at hidentity

theorem Holds.getByID_eq (h : Holds t id d) : getByID location t id = .ok d := by
  simp only [getByID, require_pos h.named, ok_bind, h.readSnapshot_eq, rehydrate_assemble h.well]
  rfl

theorem Vacant.getByID_error (h : Vacant t id) : ∃ e, getByID location t id = .error e := by
  by_cases hid : id = ""
  · exact ⟨.notFound "empty ID", by simp only [getByID, require_neg (not_not.2 hid), error_bind]⟩
  · exact ⟨.notFound id, by simp only [getByID, require_pos hid, ok_bind, readSnapshot, h.1, found_none, error_bind]⟩

theorem Holds.unique (h : Holds t id d) (hget : getByID location t id = .ok v) : v = d := by
  rw [h.getByID_eq] at hget
  exact (Except.ok.inj hget).symm

-- On normalised times the comparison is the prefix relation.
theorem matchingPrefix_iff (hstored : ∀ e ∈ stored, e.occurredAt.Canonical)
    (hcandidate : ∀ e ∈ candidate, e.occurredAt.Canonical) :
    matchingPrefix stored candidate = true ↔ stored <+: candidate := by
  induction stored generalizing candidate with
  | nil => simp [matchingPrefix]
  | cons first rest ih =>
      cases candidate with
      | nil => simp [matchingPrefix]
      | cons other others =>
          have hrest := ih (fun e he => hstored e (List.mem_cons_of_mem _ he))
            fun e he => hcandidate e (List.mem_cons_of_mem _ he)
          have hequal : first.occurredAt.equal other.occurredAt = true ↔ first.occurredAt = other.occurredAt := by
            constructor
            · exact (hstored first List.mem_cons_self).eq_of_equal (hcandidate other List.mem_cons_self)
            · rintro heq
              rw [heq]
              exact Instant.equal_self _
          simp only [matchingPrefix, Bool.and_eq_true, beq_iff_eq, hequal, hrest, List.cons_prefix_cons]
          obtain ⟨source, target, occurredAt⟩ := first
          obtain ⟨source', target', occurredAt'⟩ := other
          simp only [Event.mk.injEq]
          tauto

end Values

-- Nothing but the rows of one deployment differs.
def Only (id : String) (t t' : Tables) : Prop :=
  ∀ other, other ≠ id → t'.deployments.get? other = t.deployments.get? other ∧ t'.rowsOf other = t.rowsOf other

section Save

variable {location : Option String} {t t' : Tables} {id other : String} {d v : Aggregate} {before more : List Event}
  {last : Event}

theorem known_of_canTransition {source target : AnyStatus} (h : canTransition source target = true) :
    isKnownStatus source = true ∧ isKnownStatus target = true := by
  cases source with
  | other text => cases h
  | known source =>
      cases target with
      | other text => cases h
      | known target => exact ⟨rfl, rfl⟩

theorem toColumn_mono {a b : Instant} (h : a.nanoseconds ≤ b.nanoseconds) : toColumn a ≤ toColumn b := by
  unfold toColumn
  omega

theorem validateDeploymentEvent_of_previous {row previous : EventRow} {head : Head}
    (hhead : t.deployments.get? row.deploymentID = some head) (hone : row.revision ≠ 1)
    (hprevious : t.deploymentEvents.find? (fun r => r.deploymentID = row.deploymentID ∧ r.revision + 1 = row.revision) =
      some previous) (hlate : previous.occurredAt ≤ row.occurredAt)
    (hmove : row.fromStatus = previous.toStatus ∧ canTransition row.fromStatus row.toStatus = true) :
    validateDeploymentEvent t row = .ok () := by
  simp only [validateDeploymentEvent, hhead, found_some, ok_bind, if_neg hone, hprevious, require_pos hlate,
    require_pos hmove]

-- An event that follows the last stored one passes the trigger, the constraints and the key.
theorem insertEvent_of_follows {event : Event} {head : Head} (hhead : t.deployments.get? id = some head)
    (hrows : t.rowsOf id = eventRows id 1 (before ++ [last])) (hfollows : Follows last event) :
    insertEvent t (eventRow id (before.length + 2) event) =
      .ok { t with deploymentEvents := t.deploymentEvents ++ [eventRow id (before.length + 2) event] } := by
  obtain ⟨hsource, hstep, hlate⟩ := hfollows
  obtain ⟨hknown, hknown'⟩ := known_of_canTransition hstep
  have hprevious := find?_previous hrows
  have htrigger : validateDeploymentEvent t (eventRow id (before.length + 2) event) = .ok () := by
    have hcolumn : toColumn last.occurredAt ≤ toColumn event.occurredAt := toColumn_mono hlate
    have hmove : event.source = last.target ∧ canTransition event.source event.target = true := by
      rw [hsource]
      exact ⟨rfl, hstep⟩
    exact validateDeploymentEvent_of_previous hhead (by simp [eventRow]) hprevious hcolumn hmove
  have hfresh : ∀ r ∈ t.deploymentEvents, ¬ (r.deploymentID = id ∧ r.revision = before.length + 2) := by
    rintro r hr ⟨hid, hrevision⟩
    have hmem : r ∈ t.rowsOf id := List.mem_filter.2 ⟨hr, by simpa using hid⟩
    rw [hrows] at hmem
    obtain ⟨-, -, hhigh⟩ := mem_eventRows hmem
    simp only [List.length_append, List.length_singleton] at hhigh
    omega
  have hsourceKnown : isKnownStatus event.source = true := by
    rw [hsource]
    exact hknown
  have hfresh' : ∀ r ∈ t.deploymentEvents, ¬ (r.deploymentID = (eventRow id (before.length + 2) event).deploymentID ∧
      r.revision = (eventRow id (before.length + 2) event).revision) := hfresh
  have hpositive : 0 < (eventRow id (before.length + 2) event).revision := Nat.succ_pos _
  have hfrom : (eventRow id (before.length + 2) event).fromStatus = .empty ∨
      isKnownStatus (eventRow id (before.length + 2) event).fromStatus = true := .inr hsourceKnown
  have hto : isKnownStatus (eventRow id (before.length + 2) event).toStatus = true := hknown'
  simp only [insertEvent, htrigger, ok_bind, require_pos hpositive, require_pos hfrom, require_pos hto,
    require_pos hfresh']
  rfl

theorem insertEvents_of_path {head : Head} (hhead : t.deployments.get? id = some head)
    (hrows : t.rowsOf id = eventRows id 1 (before ++ [last])) (hpath : (last :: more).IsChain Follows) :
    ∃ t', insertEvents t id (before.length + 2) more = .ok t' := by
  induction more generalizing t before last with
  | nil => exact ⟨t, rfl⟩
  | cons event rest ih =>
      obtain ⟨hfollows, hrest⟩ := List.isChain_cons_cons.1 hpath
      have hinsert := insertEvent_of_follows hhead hrows hfollows
      have hlength : (before ++ [last]).length + 2 = before.length + 2 + 1 := by simp
      have hnext : ({ t with deploymentEvents := t.deploymentEvents ++ [eventRow id (before.length + 2) event] } :
          Tables).rowsOf id = eventRows id 1 ((before ++ [last]) ++ [event]) := by
        have happend := @rowsOf_append_eventRows t id id (before.length + 2) [event]
        rw [if_pos rfl, hrows] at happend
        rw [@eventRows_append id 1 (before ++ [last]) [event]]
        simpa [eventRows, Nat.add_comm, Nat.add_left_comm] using happend
      obtain ⟨t', ht'⟩ := ih (t := { t with deploymentEvents := t.deploymentEvents ++
        [eventRow id (before.length + 2) event] }) hhead hnext hrest
      rw [hlength] at ht'
      exact ⟨t', by simp only [insertEvents, hinsert, ok_bind, ht']⟩

theorem checkHead_of_wellformed (h : Wellformed v) : checkHead (headOf (taken v)) = .ok () := by
  obtain ⟨hidentity, hknown, ⟨-, -, horder⟩, ⟨hpositive, -⟩, -⟩ := validate_eq_ok.1 h.valid
  have hcolumns : toColumn v.createdAt ≤ toColumn v.updatedAt := by
    rw [h.updated.before_eq] at horder
    simp only [decide_eq_false_iff_not, not_lt] at horder
    exact toColumn_mono horder
  have hrevision : 0 < v.revision := Nat.pos_of_ne_zero hpositive
  unfold validateIdentity at hidentity
  split_ifs at hidentity with hdeployment hproject henvironment hserver hcommit
  simp [checkHead, headOf, taken, hdeployment, hproject, henvironment, hserver, hcommit, hknown, hcolumns, hrevision,
    currentSchemaVersion, require]

-- A candidate that continues what is stored.
structure Extends (d v : Aggregate) : Prop where
  identity : d.identity = v.identity
  events : d.events <+: v.events
  further : d.events ≠ v.events

theorem revision_eq (h : Wellformed d) : d.revision = d.events.length := h.recorded.revision

theorem checkSave_iff (hd : Wellformed d) (hv : Wellformed v) :
    checkSave (taken v) (assemble location (headOf (taken d)) (eventRows id 1 d.events)) = .ok () ↔ Extends d v := by
  have hprefix : matchingPrefix (assemble location (headOf (taken d)) (eventRows id 1 d.events)).canonical.events
      (taken v).events = true ↔ d.events <+: v.events := by
    rw [canonical_assemble hd]
    exact matchingPrefix_iff hd.events hv.events
  have hidentity : (assemble location (headOf (taken d)) (eventRows id 1 d.events)).identity = d.identity := rfl
  have hrevision : (assemble location (headOf (taken d)) (eventRows id 1 d.events)).revision = d.events.length :=
    revision_eq hd
  have hrevision' : (taken v).revision = v.events.length := revision_eq hv
  simp only [checkSave, bind_eq_ok, require_eq_ok, mapError_eq_ok, rehydrate_assemble hd, hprefix, hidentity, hrevision,
    hrevision']
  constructor
  · rintro ⟨_, hsame, _, -, _, ⟨-, hevents⟩, hne⟩
    exact ⟨hsame, hevents, fun heq => hne (congrArg List.length heq)⟩
  · rintro ⟨hsame, hevents, hne⟩
    exact ⟨(), hsame, d, rfl, (), ⟨hevents.length_le, hevents⟩, fun hlength => hne (hevents.eq_of_length hlength)⟩

-- The creation event is the first of both, so they were created at the same time.
theorem Extends.createdAt (h : Extends d v) (hd : Wellformed d) (hv : Wellformed v) : d.createdAt = v.createdAt := by
  obtain ⟨rest, hevents, -⟩ := hd.creation
  obtain ⟨rest', hevents', -⟩ := hv.creation
  have hfirst := h.events
  rw [hevents, hevents', List.cons_prefix_cons] at hfirst
  exact congrArg Event.occurredAt hfirst.1

-- The tables after an accepted Save.
def saved (t : Tables) (id : String) (d v : Aggregate) : Tables :=
  ⟨t.deployments.put id (headOf (taken v)),
    t.deploymentEvents ++ eventRows id (d.events.length + 1) (v.events.drop d.events.length)⟩

theorem Holds.after_save (h : Holds t id d) (hv : Wellformed v) (hextends : Extends d v) : Holds (saved t id d v) id v := by
  have hsplit : d.events ++ v.events.drop d.events.length = v.events := by
    obtain ⟨more, hmore⟩ := hextends.events
    rw [← hmore, List.drop_left]
  refine ⟨?_, hv, ?_, ?_⟩
  · rw [← hextends.identity]
    exact h.key
  · exact Table.get?_put_self ..
  · have happend := @rowsOf_append_eventRows t id id (d.events.length + 1) (v.events.drop d.events.length)
    rw [if_pos rfl, h.rows] at happend
    refine happend.trans ?_
    rw [Nat.add_comm d.events.length 1, ← eventRows_append, hsplit]

theorem only_saved : Only id t (saved t id d v) := by
  intro other hne
  refine ⟨?_, ?_⟩
  · exact (Table.get?_put ..).trans (if_neg hne)
  · have happend := @rowsOf_append_eventRows t id other (d.events.length + 1) (v.events.drop d.events.length)
    rw [if_neg hne, List.append_nil] at happend
    exact happend

-- The new events go on from the last stored one, so none of them is refused.
theorem appendEvents_of_extends (h : Holds t id d) (hv : Wellformed v) (hextends : Extends d v) :
    appendEvents { t with deployments := t.deployments.put id (headOf (taken v)) } id (v.events.drop d.events.length) =
      .ok (saved t id d v) := by
  obtain ⟨before, last, hevents⟩ : ∃ before last, d.events = before ++ [last] := by
    obtain ⟨rest, hrest, -⟩ := h.well.creation
    have hne : d.events ≠ [] := by simp [hrest]
    exact ⟨_, _, (List.dropLast_append_getLast hne).symm⟩
  obtain ⟨more, hmore⟩ := hextends.events
  have hpath : (last :: more).IsChain Follows := by
    have hall := hv.recorded.path
    rw [← hmore, hevents, List.append_assoc] at hall
    exact hall.right_of_append
  have hdrop : v.events.drop d.events.length = more := by rw [← hmore, List.drop_left]
  have hrows := h.rows
  rw [hevents] at hrows
  obtain ⟨t', ht'⟩ := @insertEvents_of_path { t with deployments := t.deployments.put id (headOf (taken v)) } id before
    more last (headOf (taken v)) (Table.get?_put_self ..) hrows hpath
  have hcount : (({ t with deployments := t.deployments.put id (headOf (taken v)) } : Tables).rowsOf id).length + 1 =
      before.length + 2 := by
    have hsame : ({ t with deployments := t.deployments.put id (headOf (taken v)) } : Tables).rowsOf id = t.rowsOf id := rfl
    rw [hsame, hrows, length_eventRows, List.length_append, List.length_singleton]
  have hlength : before.length + 2 = d.events.length + 1 := by simp [hevents]
  rw [appendEvents, hdrop, hcount, ht', insertEvents_eq ht', saved, hdrop, hlength]
  rfl

theorem writeSave_of_extends (h : Holds t id d) (hv : Wellformed v) (hextends : Extends d v) :
    writeSave t (taken v) (assemble location (headOf (taken d)) (eventRows id 1 d.events)) = .ok (saved t id d v) := by
  have hkey : (taken v).identity.deploymentID = id := by
    rw [← h.key, hextends.identity]
    rfl
  have hrevision : (assemble location (headOf (taken d)) (eventRows id 1 d.events)).revision = d.events.length :=
    revision_eq h.well
  have hrow : (t.deployments.get? id).filter (fun head => decide (head.revision = d.events.length)) =
      some (headOf (taken d)) := by
    rw [h.head]
    simp [headOf, taken, revision_eq h.well]
  -- The update leaves the identity and the creation time, which the candidate shares.
  have hnext : (⟨(headOf (taken d)).identity, (taken v).version, (taken v).status, (headOf (taken d)).createdAt,
      toColumn (taken v).updatedAt, (taken v).revision⟩ : Head) = headOf (taken v) := by
    simp only [headOf, taken, hextends.identity, hextends.createdAt h.well hv]
  simp only [writeSave, hkey, hrevision, hrow, found_some, ok_bind, hnext, checkHead_of_wellformed hv]
  exact appendEvents_of_extends h hv hextends

-- Save succeeds exactly on the candidates that continue what is stored, and then the candidate is what is stored.
theorem Holds.saveTx_eq (h : Holds t id d) (hv : Wellformed v) (hkey : v.identity.deploymentID = id) :
    (Extends d v → saveTx location t v = .ok (saved t id d v)) ∧
      (¬ Extends d v → ∃ e, saveTx location t v = .error e) := by
  have hkey' : (taken v).identity.deploymentID = id := hkey
  have hstart : saveTx location t v =
      (checkSave (taken v) (assemble location (headOf (taken d)) (eventRows id 1 d.events)) >>= fun _ =>
        writeSave t (taken v) (assemble location (headOf (taken d)) (eventRows id 1 d.events))) := by
    simp only [saveTx, checkedSnapshot_of_wellformed hv, ok_bind, hkey', h.head, found_some, h.readSnapshot_eq]
  rw [hstart]
  constructor
  · intro hextends
    rw [(checkSave_iff h.well hv).2 hextends, ok_bind]
    exact writeSave_of_extends h hv hextends
  · intro hnot
    cases hcheck : checkSave (taken v) (assemble location (headOf (taken d)) (eventRows id 1 d.events)) with
    | error e => exact ⟨e, error_bind ..⟩
    | ok u => exact absurd ((checkSave_iff h.well hv).1 hcheck) hnot

theorem Vacant.saveTx_error (h : Vacant t v.identity.deploymentID) : ∃ e, saveTx location t v = .error e := by
  cases hsnapshot : checkedSnapshot v with
  | error e => exact ⟨e, by simp only [saveTx, hsnapshot, error_bind]⟩
  | ok snapshot =>
      have hidentity : snapshot.identity = v.identity := by
        simp only [checkedSnapshot, bind_eq_ok, mapError_eq_ok, pure_eq_ok, snapshot_eq_ok] at hsnapshot
        obtain ⟨_, ⟨-, rfl⟩, _, -, rfl⟩ := hsnapshot
        rfl
      exact ⟨.notFound v.identity.deploymentID, by
        simp only [saveTx, hsnapshot, ok_bind, hidentity, h.1, found_none, error_bind]⟩

theorem wellformed_of_checked {snapshot : Snapshot} (hvalue : Value v) (h : checkedSnapshot v = .ok snapshot) :
    Wellformed v ∧ snapshot = taken v := by
  simp only [checkedSnapshot, bind_eq_ok, mapError_eq_ok, pure_eq_ok, snapshot_eq_ok] at h
  obtain ⟨_, ⟨hvalid, rfl⟩, _, -, rfl⟩ := h
  exact ⟨hvalue.cases.resolve_right fun hbad => hbad.1 hvalid, rfl⟩

-- Everything an accepted Save does.
theorem saveTx_cases (hkept : Kept t) (hvalue : Value v) (h : saveTx location t v = .ok t') :
    ∃ d, Holds t v.identity.deploymentID d ∧ Wellformed v ∧ Extends d v ∧ t' = saved t v.identity.deploymentID d v := by
  have hchecked : ∃ snapshot, checkedSnapshot v = .ok snapshot := by
    simp only [saveTx, bind_eq_ok] at h
    obtain ⟨snapshot, hsnapshot, -⟩ := h
    exact ⟨snapshot, hsnapshot⟩
  obtain ⟨snapshot, hsnapshot⟩ := hchecked
  obtain ⟨hwell, -⟩ := wellformed_of_checked hvalue hsnapshot
  rcases hkept v.identity.deploymentID with hvacant | ⟨d, hholds⟩
  · obtain ⟨e, he⟩ := @Vacant.saveTx_error location t v hvacant
    rw [he] at h
    cases h
  · obtain ⟨hyes, hno⟩ := @Holds.saveTx_eq location t _ d v hholds hwell rfl
    by_cases hextends : Extends d v
    · rw [hyes hextends] at h
      exact ⟨d, hholds, hwell, hextends, (Except.ok.inj h).symm⟩
    · obtain ⟨e, he⟩ := hno hextends
      rw [he] at h
      cases h

-- Everything an accepted Create does.
theorem createTx_cases (hkept : Kept t) (hvalue : Value v) (h : createTx t v = .ok t') :
    Vacant t v.identity.deploymentID ∧ Holds t' v.identity.deploymentID v ∧ Only v.identity.deploymentID t t' := by
  simp only [createTx, appendEvents, bind_eq_ok, mapError_eq_ok, require_eq_ok] at h
  obtain ⟨snapshot, hsnapshot, _, -, _, hfree, hinsert⟩ := h
  obtain ⟨hwell, rfl⟩ := wellformed_of_checked hvalue hsnapshot
  have hvacant : Vacant t v.identity.deploymentID := by
    refine (hkept v.identity.deploymentID).resolve_right ?_
    rintro ⟨d, hholds⟩
    have hhead := hholds.head
    simp only [Table.contains, Option.isSome_eq_false_iff, Option.isNone_iff_eq_none] at hfree
    rw [show (taken v).identity.deploymentID = v.identity.deploymentID from rfl, hhead] at hfree
    cases hfree
  have hrows : ({ t with deployments := t.deployments.put (taken v).identity.deploymentID (headOf (taken v)) } :
      Tables).rowsOf (taken v).identity.deploymentID = [] := hvacant.2
  rw [hrows] at hinsert
  have heq := insertEvents_eq hinsert
  have happend : ∀ other, t'.rowsOf other = t.rowsOf other ++
      if other = v.identity.deploymentID then eventRows v.identity.deploymentID 1 v.events else [] := by
    intro other
    rw [heq]
    exact @rowsOf_append_eventRows t v.identity.deploymentID other 1 v.events
  refine ⟨hvacant, ⟨rfl, hwell, ?_, ?_⟩, fun other hne => ⟨?_, ?_⟩⟩
  · rw [heq]
    exact Table.get?_put_self ..
  · rw [happend, hvacant.2, if_pos rfl, List.nil_append]
  · rw [heq]
    exact (Table.get?_put ..).trans (if_neg hne)
  · rw [happend, if_neg hne, List.append_nil]

theorem Holds.of_only (h : Holds t other d) (honly : Only id t t') (hne : other ≠ id) : Holds t' other d := by
  obtain ⟨hhead, hrows⟩ := honly other hne
  exact ⟨h.key, h.well, hhead.trans h.head, hrows.trans h.rows⟩

theorem Vacant.of_only (h : Vacant t other) (honly : Only id t t') (hne : other ≠ id) : Vacant t' other := by
  obtain ⟨hhead, hrows⟩ := honly other hne
  exact ⟨hhead.trans h.1, hrows.trans h.2⟩

theorem Kept.of_only (h : Kept t) (honly : Only id t t') (hnew : Holds t' id v) : Kept t' := by
  intro other
  by_cases hne : other = id
  · rw [hne]
    exact .inr ⟨v, hnew⟩
  · exact (h other).imp (fun hvacant => hvacant.of_only honly hne) fun ⟨d, hholds⟩ => ⟨d, hholds.of_only honly hne⟩

theorem getByID_of_only (honly : Only id t t') (hne : other ≠ id) :
    getByID location t' other = getByID location t other := by
  obtain ⟨hhead, hrows⟩ := honly other hne
  simp only [getByID, readSnapshot, hhead, hrows]

-- What a deployment reads as is what the tables hold.
theorem Kept.holds_of_getByID (h : Kept t) (hget : getByID location t id = .ok d) : Holds t id d := by
  rcases h id with hvacant | ⟨d', hholds⟩
  · obtain ⟨e, he⟩ := @Vacant.getByID_error location t id hvacant
    rw [he] at hget
    cases hget
  · rw [hholds.unique hget]
    exact hholds

theorem Extends.wellformed (h : Extends d v) (hd : Wellformed d) (hvalue : Value v) : Wellformed v := by
  refine hvalue.cases.resolve_right fun hbad => ?_
  obtain ⟨rest, hevents, -⟩ := hd.creation
  have hlength := h.events.length_le
  have hone : d.events.length = v.events.length := by
    rw [hevents, List.length_cons] at hlength ⊢
    have hfew := hbad.2
    omega
  exact h.further (h.events.eq_of_length hone)

-- The contract of Save.
theorem Kept.saveTx_iff (h : Kept t) (hvalue : Value v) :
    (∃ t', saveTx location t v = .ok t') ↔
      ∃ d, getByID location t v.identity.deploymentID = .ok d ∧ Extends d v := by
  constructor
  · rintro ⟨t', ht'⟩
    obtain ⟨d, hholds, -, hextends, -⟩ := saveTx_cases h hvalue ht'
    exact ⟨d, hholds.getByID_eq, hextends⟩
  · rintro ⟨d, hget, hextends⟩
    have hholds := h.holds_of_getByID hget
    exact ⟨_, (hholds.saveTx_eq (hextends.wellformed hholds.well hvalue) rfl).1 hextends⟩

end Save

end AutoDeploy.Deployment.History.Repository
