import Mathlib.Data.List.Induction
import AutoDeploy.Deployment
import AutoDeploy.Lib.Instant

namespace AutoDeploy.Deployment.History

open Lib Lib.Result

-- The deployment aggregate as the domain package has it, with statuses and times as they arrive.

-- A status of the lifecycle, or any other text. A creation event starts from the empty text.
inductive AnyStatus where
  | known (status : Status)
  | other (text : String)
deriving DecidableEq, Repr

def AnyStatus.empty : AnyStatus := .other ""

def isKnownStatus : AnyStatus → Bool
  | .known _ => true
  | .other _ => false

def isTerminal : AnyStatus → Bool
  | .known status => Deployment.isTerminal status
  | .other _ => false

def canTransition : AnyStatus → AnyStatus → Bool
  | .known source, .known target => Deployment.canTransition source target
  | _, _ => false

structure Event where
  source : AnyStatus
  target : AnyStatus
  occurredAt : Instant
deriving DecidableEq, Repr

structure Snapshot where
  version : Nat
  identity : Identity
  status : AnyStatus
  createdAt : Instant
  updatedAt : Instant
  revision : Nat
  events : List Event
deriving DecidableEq, Repr

structure Aggregate where
  identity : Identity
  status : AnyStatus
  createdAt : Instant
  updatedAt : Instant
  revision : Nat
  events : List Event
deriving DecidableEq, Repr

-- The reasons of `validate`, in its order.
inductive Defect where
  | identity (cause : Deployment.Defect)
  | unknownStatus (status : AnyStatus)
  | timestamps
  | revisionCount
  | creationEventRequired
  | creationEvent
  | eventTimestamp (index : Nat)
  | eventTransition (source target : AnyStatus)
  | disagreesWithEvents
deriving DecidableEq, Repr

inductive Error where
  | invalidDeployment (cause : Defect)
  | creationTimestampRequired
  | unsupportedVersion (version : Nat)
  | invalidSnapshot (cause : Defect)
  | unknownStatus (status : AnyStatus)
  | invalidTransition (current requested : AnyStatus)
  | terminalState (current : AnyStatus)
  | invalidTimestamp (current requested : AnyStatus)
deriving DecidableEq, Repr

-- The walk over the events after the creation event.
def validateEvents (current : AnyStatus) (previousAt : Instant) (index : Nat) :
    List Event → Except Defect (AnyStatus × Instant)
  | [] => .ok (current, previousAt)
  | event :: rest =>
      if event.occurredAt.isZero || event.occurredAt.before previousAt then .error (.eventTimestamp index)
      else if event.source ≠ current ∨ isKnownStatus event.target = false ∨ canTransition current event.target = false then
        .error (.eventTransition event.source event.target)
      else validateEvents event.target event.occurredAt (index + 1) rest

def Aggregate.validate (d : Aggregate) : Except Defect Unit := do
  (validateIdentity d.identity).mapError .identity
  require (isKnownStatus d.status) (.unknownStatus d.status)
  require (d.createdAt.isZero = false ∧ d.updatedAt.isZero = false ∧ d.updatedAt.before d.createdAt = false) .timestamps
  require (d.revision ≠ 0 ∧ d.revision = d.events.length) .revisionCount
  let first ← found d.events.head? .creationEventRequired
  require (first.source = .empty ∧ first.target = .known .queued ∧ first.occurredAt.equal d.createdAt) .creationEvent
  let (current, previousAt) ← validateEvents (.known .queued) d.createdAt 1 d.events.tail
  require (current = d.status ∧ previousAt.equal d.updatedAt) .disagreesWithEvents

def new (identity : Identity) (createdAt : Instant) : Except Error Aggregate :=
  match validateIdentity identity with
  | .error e => .error (.invalidDeployment (.identity e))
  | .ok () =>
      if createdAt.isZero then .error .creationTimestampRequired
      else
        let createdAt := createdAt.canonicalTime
        .ok ⟨identity, .known .queued, createdAt, createdAt, 1, [⟨.empty, .known .queued, createdAt⟩]⟩

def Aggregate.snapshot (d : Aggregate) : Except Error Snapshot :=
  match d.validate with
  | .error e => .error (.invalidDeployment e)
  | .ok () => .ok ⟨currentSchemaVersion, d.identity, d.status, d.createdAt, d.updatedAt, d.revision, d.events⟩

-- The snapshot with its times as `Rehydrate` reads them.
def Snapshot.canonical (s : Snapshot) : Snapshot :=
  { s with
    createdAt := s.createdAt.canonicalTime
    updatedAt := s.updatedAt.canonicalTime
    events := s.events.map fun e => { e with occurredAt := e.occurredAt.canonicalTime } }

def rehydrate (s : Snapshot) : Except Error Aggregate :=
  if s.version ≠ currentSchemaVersion then .error (.unsupportedVersion s.version)
  else
    let s := s.canonical
    let d : Aggregate := ⟨s.identity, s.status, s.createdAt, s.updatedAt, s.revision, s.events⟩
    match d.validate with
    | .error e => .error (.invalidSnapshot e)
    | .ok () => .ok d

def Aggregate.advance (d : Aggregate) (target : AnyStatus) (at_ : Instant) : Aggregate :=
  { d with
    status := target
    updatedAt := at_
    revision := d.revision + 1
    events := d.events ++ [⟨d.status, target, at_⟩] }

def Aggregate.transition (d : Aggregate) (target : AnyStatus) (at_ : Instant) : Except Error Aggregate :=
  match d.validate with
  | .error e => .error (.invalidDeployment e)
  | .ok () =>
      if isKnownStatus target = false then .error (.unknownStatus target)
      else if target = d.status then .ok d
      else
        let at_ := at_.canonicalTime
        if at_.isZero || at_.before d.updatedAt then .error (.invalidTimestamp d.status target)
        else if isTerminal d.status then .error (.terminalState d.status)
        else if canTransition d.status target = false then .error (.invalidTransition d.status target)
        else .ok (d.advance target at_)

-- What a run of the program can hold: a new deployment, and what accepted transitions make of it. The parameter
-- says which creation times the callers pass.
inductive Built (created : Instant → Prop) : Aggregate → Prop
  | new {identity : Identity} {createdAt : Instant} {d : Aggregate} (h : new identity createdAt = .ok d)
      (hcreated : created createdAt) : Built created d
  | transition {d d' : Aggregate} {target : AnyStatus} {at_ : Instant} (hd : Built created d)
      (h : d.transition target at_ = .ok d') : Built created d'

-- `New` only refuses the zero instant itself; what normalises to it fails the first validation.
def NormalisesNonzero (t : Instant) : Prop := t.canonicalTime.isZero = false

def MicrosecondAfterZero (t : Instant) : Prop := 1000 ≤ t.nanoseconds

-- One event follows another: from where it ended, along the lifecycle, not earlier.
def Follows (e e' : Event) : Prop :=
  e'.source = e.target ∧ canTransition e.target e'.target = true ∧ e.occurredAt.nanoseconds ≤ e'.occurredAt.nanoseconds

-- A legal path of the status graph that starts with the creation event and ends where the head row says.
structure Recorded (d : Aggregate) : Prop where
  first : d.events.head? = some ⟨.empty, .known .queued, d.createdAt⟩
  path : d.events.IsChain Follows
  last : ∃ e, d.events.getLast? = some e ∧ e.target = d.status ∧ e.occurredAt = d.updatedAt
  revision : d.revision = d.events.length

section

variable {d d' : Aggregate} {current last target : AnyStatus} {previousAt lastAt at_ : Instant} {index : Nat}
  {events : List Event} {event : Event}

theorem validate_eq_ok : d.validate = .ok () ↔
    validateIdentity d.identity = .ok () ∧ isKnownStatus d.status = true ∧
    (d.createdAt.isZero = false ∧ d.updatedAt.isZero = false ∧ d.updatedAt.before d.createdAt = false) ∧
    (d.revision ≠ 0 ∧ d.revision = d.events.length) ∧
    (∃ first, d.events.head? = some first ∧ first.source = .empty ∧ first.target = .known .queued ∧
      first.occurredAt.equal d.createdAt = true) ∧
    ∃ lastAt, validateEvents (.known .queued) d.createdAt 1 d.events.tail = .ok (d.status, lastAt) ∧
      lastAt.equal d.updatedAt = true := by
  simp only [Aggregate.validate, bind_eq_ok, mapError_eq_ok, require_eq_ok, found_eq_ok, exists_const, Prod.exists]
  constructor
  · rintro ⟨_, hidentity, hknown, htimes, hcount, first, hfirst, hcreation, last, lastAt, hwalk, rfl, hlast⟩
    exact ⟨hidentity, hknown, htimes, hcount, ⟨first, hfirst, hcreation⟩, lastAt, hwalk, hlast⟩
  · rintro ⟨hidentity, hknown, htimes, hcount, ⟨first, hfirst, hcreation⟩, lastAt, hwalk, hlast⟩
    exact ⟨(), hidentity, hknown, htimes, hcount, first, hfirst, hcreation, d.status, lastAt, hwalk, rfl, hlast⟩

-- One more event is accepted where the walk before it ended.
theorem validateEvents_snoc : validateEvents current previousAt index (events ++ [event]) = .ok (last, lastAt) ↔
    last = event.target ∧ lastAt = event.occurredAt ∧ ∃ before, validateEvents current previousAt index events =
      .ok (event.source, before) ∧ event.occurredAt.isZero = false ∧ event.occurredAt.before before = false ∧
      isKnownStatus event.target = true ∧ canTransition event.source event.target = true := by
  induction events generalizing current previousAt index with
  | nil =>
      simp only [List.nil_append, validateEvents]
      constructor
      · intro h
        split at h
        · cases h
        · rename_i htime
          split at h
          · cases h
          · rename_i hmove
            simp only [Except.ok.injEq, Prod.mk.injEq] at h
            simp only [Bool.or_eq_true, not_or, Bool.not_eq_true] at htime
            simp only [not_or, ne_eq, not_not, Bool.not_eq_false] at hmove
            refine ⟨h.1.symm, h.2.symm, previousAt, by rw [hmove.1], htime.1, htime.2, hmove.2.1, ?_⟩
            rw [hmove.1]
            exact hmove.2.2
      · rintro ⟨rfl, rfl, before, hbefore, hzero, hearlier, hknown, hstep⟩
        simp only [Except.ok.injEq, Prod.mk.injEq] at hbefore
        obtain ⟨rfl, rfl⟩ := hbefore
        simp [hzero, hearlier, hknown, hstep]
  | cons head rest ih =>
      simp only [List.cons_append, validateEvents]
      split
      · simp
      · split
        · simp
        · exact ih

-- The walk ends no earlier than it starts.
theorem validateEvents_later (hprevious : previousAt.Canonical) (hevents : ∀ e ∈ events, e.occurredAt.Canonical)
    (hzero : previousAt.isZero = false) (h : validateEvents current previousAt index events = .ok (last, lastAt)) :
    lastAt.Canonical ∧ lastAt.isZero = false ∧ previousAt.nanoseconds ≤ lastAt.nanoseconds := by
  induction events generalizing current previousAt index with
  | nil =>
      simp only [validateEvents, Except.ok.injEq, Prod.mk.injEq] at h
      obtain ⟨-, rfl⟩ := h
      exact ⟨hprevious, hzero, le_refl _⟩
  | cons head rest ih =>
      simp only [validateEvents] at h
      split at h
      · cases h
      · rename_i htime
        split at h
        · cases h
        · have hhead := hevents head List.mem_cons_self
          simp only [Bool.or_eq_true, not_or, Bool.not_eq_true] at htime
          obtain ⟨hcanonical, hnonzero, hle⟩ := ih hhead (fun e he => hevents e (List.mem_cons_of_mem _ he)) htime.1 h
          have hbefore := htime.2
          rw [hhead.before_eq] at hbefore
          simp only [decide_eq_false_iff_not, not_lt] at hbefore
          exact ⟨hcanonical, hnonzero, le_trans hbefore hle⟩

-- The walk is a path.
theorem validateEvents_path {first : Event} (hevents : ∀ e ∈ events, e.occurredAt.Canonical)
    (h : validateEvents first.target first.occurredAt index events = .ok (last, lastAt)) :
    (first :: events).IsChain Follows ∧
      ∃ e, (first :: events).getLast? = some e ∧ e.target = last ∧ e.occurredAt = lastAt := by
  induction events generalizing first index with
  | nil =>
      simp only [validateEvents, Except.ok.injEq, Prod.mk.injEq] at h
      exact ⟨.singleton _, first, rfl, h⟩
  | cons head rest ih =>
      simp only [validateEvents] at h
      split at h
      · cases h
      · rename_i htime
        split at h
        · cases h
        · rename_i hmove
          simp only [Bool.or_eq_true, not_or, Bool.not_eq_true] at htime
          simp only [not_or, ne_eq, not_not, Bool.not_eq_false] at hmove
          obtain ⟨hpath, e, hlast, hends⟩ := ih (fun e he => hevents e (List.mem_cons_of_mem _ he)) h
          have hbefore := htime.2
          rw [(hevents head List.mem_cons_self).before_eq] at hbefore
          simp only [decide_eq_false_iff_not, not_lt] at hbefore
          refine ⟨.cons_cons ⟨hmove.1, hmove.2.2, hbefore⟩ hpath, e, ?_, hends⟩
          rw [List.getLast?_cons_cons]
          exact hlast

-- An aggregate that validates and whose times are normalised.
structure Wellformed (d : Aggregate) : Prop where
  valid : d.validate = .ok ()
  created : d.createdAt.Canonical
  updated : d.updatedAt.Canonical
  events : ∀ e ∈ d.events, e.occurredAt.Canonical

theorem Wellformed.creation (h : Wellformed d) :
    ∃ rest, d.events = ⟨.empty, .known .queued, d.createdAt⟩ :: rest ∧
      validateEvents (.known .queued) d.createdAt 1 rest = .ok (d.status, d.updatedAt) := by
  obtain ⟨-, -, htimes, -, ⟨first, hfirst, hsource, htarget, hequal⟩, lastAt, hwalk, hlast⟩ := validate_eq_ok.1 h.valid
  obtain ⟨rest, hevents⟩ : ∃ rest, d.events = first :: rest := List.head?_eq_some_iff.1 hfirst
  have hall := h.events
  rw [hevents] at hall hwalk
  have hat : first.occurredAt = d.createdAt := (hall first List.mem_cons_self).eq_of_equal h.created hequal
  obtain ⟨hcanonical, -, -⟩ := validateEvents_later h.created (fun e he => hall e (List.mem_cons_of_mem _ he)) htimes.1 hwalk
  refine ⟨rest, ?_, ?_⟩
  · rw [hevents, ← hsource, ← htarget, ← hat]
  · rw [← hcanonical.eq_of_equal h.updated hlast]
    exact hwalk

theorem Wellformed.recorded (h : Wellformed d) : Recorded d := by
  obtain ⟨rest, hevents, hwalk⟩ := h.creation
  have hall := h.events
  rw [hevents] at hall
  obtain ⟨hpath, hlast⟩ := @validateEvents_path d.status d.updatedAt 1 rest ⟨.empty, .known .queued, d.createdAt⟩
    (fun e he => hall e (List.mem_cons_of_mem _ he)) hwalk
  refine ⟨by rw [hevents]; rfl, hevents ▸ hpath, hevents ▸ hlast, ?_⟩
  exact (validate_eq_ok.1 h.valid).2.2.2.1.2

-- Everything an accepted transition can do.
theorem transition_cases (h : d.transition target at_ = .ok d') :
    d' = d ∨ d' = d.advance target at_.canonicalTime ∧ at_.canonicalTime.isZero = false ∧
      at_.canonicalTime.before d.updatedAt = false ∧ isKnownStatus target = true ∧
      canTransition d.status target = true := by
  unfold Aggregate.transition at h
  split at h
  · cases h
  · split at h
    · cases h
    · rename_i hknown
      split at h
      · cases h
        exact .inl rfl
      · dsimp only at h
        split at h
        · cases h
        · rename_i htime
          split at h
          · cases h
          · split at h
            · cases h
            · rename_i hstep
              cases h
              simp only [Bool.or_eq_true, not_or, Bool.not_eq_true] at htime
              exact .inr ⟨rfl, htime.1, htime.2, by simpa using hknown, by simpa using hstep⟩

theorem not_terminal_of_canTransition {source target : AnyStatus} (h : canTransition source target = true) :
    isTerminal source = false ∧ target ≠ source := by
  cases source with
  | other text => cases h
  | known source =>
      cases target with
      | other text => cases h
      | known target =>
          revert h
          cases source <;> cases target <;> decide

theorem transition_of_step (hvalid : d.validate = .ok ()) (hat : at_.Canonical) (hzero : at_.isZero = false)
    (hlate : at_.before d.updatedAt = false) (hknown : isKnownStatus target = true)
    (hstep : canTransition d.status target = true) : d.transition target at_ = .ok (d.advance target at_) := by
  obtain ⟨hterminal, hne⟩ := not_terminal_of_canTransition hstep
  have hcanonical : at_.canonicalTime = at_ := hat
  simp [Aggregate.transition, hvalid, hknown, hne, hcanonical, hzero, hlate, hterminal, hstep]

theorem Wellformed.advance (h : Wellformed d) (hat : at_.Canonical) (hzero : at_.isZero = false)
    (hlate : at_.before d.updatedAt = false) (hknown : isKnownStatus target = true)
    (hstep : canTransition d.status target = true) : Wellformed (d.advance target at_) := by
  obtain ⟨hidentity, -, htimes, hcount, -, -⟩ := validate_eq_ok.1 h.valid
  obtain ⟨rest, hevents, hwalk⟩ := h.creation
  have hnext : validateEvents (.known .queued) d.createdAt 1 (rest ++ [⟨d.status, target, at_⟩]) = .ok (target, at_) :=
    validateEvents_snoc.2 ⟨rfl, rfl, d.updatedAt, hwalk, hzero, hlate, hknown, hstep⟩
  have horder : at_.before d.createdAt = false := by
    have hupdated := htimes.2.2
    rw [h.updated.before_eq] at hupdated
    rw [hat.before_eq] at hlate ⊢
    simp only [decide_eq_false_iff_not, not_lt] at hupdated hlate ⊢
    exact le_trans hupdated hlate
  refine ⟨validate_eq_ok.2 ⟨hidentity, hknown, ⟨htimes.1, hzero, horder⟩, ?_, ?_, at_, ?_, at_.equal_self⟩, h.created, hat, ?_⟩
  · simp [Aggregate.advance, hcount.2]
  · refine ⟨⟨.empty, .known .queued, d.createdAt⟩, ?_, rfl, rfl, Instant.equal_self _⟩
    simp [Aggregate.advance, hevents]
  · simpa [Aggregate.advance, hevents] using hnext
  · intro e he
    rcases List.mem_append.1 he with hold | hnew
    · exact h.events e hold
    · rw [List.mem_singleton.1 hnew]
      exact hat

theorem new_eq_ok {identity : Identity} {createdAt : Instant} : new identity createdAt = .ok d ↔
    validateIdentity identity = .ok () ∧ createdAt.isZero = false ∧
      d = ⟨identity, .known .queued, createdAt.canonicalTime, createdAt.canonicalTime, 1,
        [⟨.empty, .known .queued, createdAt.canonicalTime⟩]⟩ := by
  unfold new
  split
  · rename_i e he
    simp [he]
  · rename_i hidentity
    cases hzero : createdAt.isZero with
    | true => simp
    | false => simp [hidentity, eq_comm]

-- The incremental definition only builds what the whole-log validator accepts.
theorem Built.wellformed (h : Built NormalisesNonzero d) : Wellformed d := by
  induction h with
  | new hnew hcreated =>
      obtain ⟨hidentity, -, rfl⟩ := new_eq_ok.1 hnew
      have hcanonical := Instant.canonical_canonicalTime ‹Instant›
      refine ⟨validate_eq_ok.2 ⟨hidentity, rfl, ⟨hcreated, hcreated, Instant.before_self _⟩, ?_, ?_, _, rfl, ?_⟩, hcanonical,
        hcanonical, ?_⟩
      · simp
      · exact ⟨_, rfl, rfl, rfl, Instant.equal_self _⟩
      · exact Instant.equal_self _
      · intro e he
        rw [List.mem_singleton.1 he]
        exact hcanonical
  | transition hd hstep ih =>
      rcases transition_cases hstep with rfl | ⟨rfl, hzero, hlate, hknown, hmove⟩
      · exact ih
      · exact ih.advance (Instant.canonical_canonicalTime _) hzero hlate hknown hmove

-- What the validator accepts, the incremental definition builds: by induction on the events from the last one back.
theorem Wellformed.built (h : Wellformed d) : Built NormalisesNonzero d := by
  obtain ⟨rest, hevents, hwalk⟩ := h.creation
  induction rest using List.reverseRecOn generalizing d with
  | nil =>
      obtain ⟨hidentity, -, htimes, hcount, -, -⟩ := validate_eq_ok.1 h.valid
      have hcreated : d.createdAt.canonicalTime = d.createdAt := h.created
      simp only [validateEvents, Except.ok.injEq, Prod.mk.injEq] at hwalk
      have hrevision : d.revision = 1 := by simp [hcount.2, hevents]
      have hnonzero : NormalisesNonzero d.createdAt := by
        show d.createdAt.canonicalTime.isZero = false
        rw [hcreated]
        exact htimes.1
      refine .new (new_eq_ok.2 ⟨hidentity, htimes.1, ?_⟩) hnonzero
      obtain ⟨identity, status, createdAt, updatedAt, revision, events⟩ := d
      simp only at hwalk hevents hrevision hcreated
      rw [hcreated, hevents, hrevision, ← hwalk.1, ← hwalk.2]
  | append_singleton init event ih =>
      obtain ⟨hidentity, hknownStatus, htimes, hcount, -, -⟩ := validate_eq_ok.1 h.valid
      obtain ⟨hstatus, hupdated, before, hinit, hzero, hlate, hknown, hstep⟩ := validateEvents_snoc.1 hwalk
      have hall := h.events
      rw [hevents] at hall
      have hinitial : ∀ e ∈ init, e.occurredAt.Canonical := fun e he => hall e (by simp [he])
      obtain ⟨hbefore, hnonzero, horder⟩ := validateEvents_later h.created hinitial htimes.1 hinit
      -- The aggregate before the last event.
      let d₀ : Aggregate := ⟨d.identity, event.source, d.createdAt, before, init.length + 1,
        ⟨.empty, .known .queued, d.createdAt⟩ :: init⟩
      have hsource : isKnownStatus event.source = true := by
        cases hcase : event.source with
        | known status => rfl
        | other text => simp [hcase, canTransition] at hstep
      have hwell : Wellformed d₀ := by
        refine ⟨validate_eq_ok.2 ⟨hidentity, hsource, ⟨htimes.1, hnonzero, ?_⟩, ?_, ?_, before, hinit, before.equal_self⟩,
          h.created, hbefore, ?_⟩
        · rw [hbefore.before_eq]
          simpa using horder
        · simp [d₀]
        · exact ⟨_, rfl, rfl, rfl, Instant.equal_self _⟩
        · intro e he
          rcases List.mem_cons.1 he with rfl | hold
          · exact h.created
          · exact hinitial e hold
      have hat : event.occurredAt.Canonical := hall event (by simp)
      have hlast : d = d₀.advance event.target event.occurredAt := by
        obtain ⟨identity, status, createdAt, updatedAt, revision, events⟩ := d
        simp only at hstatus hupdated hevents hcount
        subst hstatus hupdated hevents
        simp [d₀, Aggregate.advance, hcount.2]
      rw [hlast]
      exact .transition (ih hwell rfl hinit) (transition_of_step hwell.valid hat hzero hlate hknown hstep)

theorem Built.mono {created created' : Instant → Prop} (hsub : ∀ t, created t → created' t) (h : Built created d) :
    Built created' d := by
  induction h with
  | new hnew hcreated => exact .new hnew (hsub _ hcreated)
  | transition hd hstep ih => exact .transition ih hstep

-- A creation time at least one microsecond after the zero instant stays so.
theorem Built.createdAt_after (h : Built MicrosecondAfterZero d) : MicrosecondAfterZero d.createdAt := by
  induction h with
  | @new identity createdAt d hnew hcreated =>
      obtain ⟨-, -, rfl⟩ := new_eq_ok.1 hnew
      unfold MicrosecondAfterZero at hcreated ⊢
      simp only [Instant.canonicalTime, Instant.utc, Instant.truncate]
      omega
  | transition hd hstep ih =>
      rcases transition_cases hstep with rfl | ⟨rfl, -⟩
      · exact ih
      · exact ih

theorem normalisesNonzero_of_after {t : Instant} (h : MicrosecondAfterZero t) : NormalisesNonzero t := by
  unfold MicrosecondAfterZero at h
  simp only [NormalisesNonzero, Instant.isZero, Instant.canonicalTime, Instant.utc, Instant.truncate, beq_eq_false_iff_ne]
  omega

theorem snapshot_eq_ok {s : Snapshot} : d.snapshot = .ok s ↔ d.validate = .ok () ∧
    s = ⟨currentSchemaVersion, d.identity, d.status, d.createdAt, d.updatedAt, d.revision, d.events⟩ := by
  unfold Aggregate.snapshot
  split
  · rename_i e he
    simp [he]
  · rename_i hvalid
    simp [hvalid, eq_comm]

theorem rehydrate_eq_ok {s : Snapshot} : rehydrate s = .ok d ↔ d.validate = .ok () ∧
    s.canonical = ⟨currentSchemaVersion, d.identity, d.status, d.createdAt, d.updatedAt, d.revision, d.events⟩ := by
  obtain ⟨identity, status, createdAt, updatedAt, revision, events⟩ := d
  unfold rehydrate
  by_cases hversion : s.version = currentSchemaVersion
  · simp only [hversion, ne_eq, not_true_eq_false, if_false]
    have hcanonical : s.canonical.version = currentSchemaVersion := hversion
    split
    · rename_i e he
      constructor
      · intro h
        cases h
      · rintro ⟨hvalid, hs⟩
        rw [hs] at he
        rw [he] at hvalid
        cases hvalid
    · rename_i hvalid
      constructor
      · intro h
        cases h
        exact ⟨hvalid, by rw [← hcanonical]⟩
      · rintro ⟨-, hs⟩
        rw [hs]
  · simp only [hversion, ne_eq, not_false_eq_true, if_true, reduceCtorEq, false_iff, not_and]
    rintro - hs
    exact hversion (congrArg Snapshot.version hs)

-- A snapshot of normalised times is read as it is.
theorem Wellformed.canonical_stored (h : Wellformed d) :
    (⟨currentSchemaVersion, d.identity, d.status, d.createdAt, d.updatedAt, d.revision, d.events⟩ : Snapshot).canonical =
      ⟨currentSchemaVersion, d.identity, d.status, d.createdAt, d.updatedAt, d.revision, d.events⟩ := by
  have hcreated : d.createdAt.canonicalTime = d.createdAt := h.created
  have hupdated : d.updatedAt.canonicalTime = d.updatedAt := h.updated
  have hevents : d.events.map (fun e => { e with occurredAt := e.occurredAt.canonicalTime }) = d.events := by
    calc d.events.map (fun e => { e with occurredAt := e.occurredAt.canonicalTime })
        = d.events.map id := List.map_congr_left fun e he => by
          have hat : e.occurredAt.canonicalTime = e.occurredAt := h.events e he
          simp [hat]
      _ = d.events := List.map_id _
  simp [Snapshot.canonical, hcreated, hupdated, hevents]

theorem wellformed_of_rehydrate {s : Snapshot} (h : rehydrate s = .ok d) : Wellformed d := by
  obtain ⟨hvalid, hs⟩ := rehydrate_eq_ok.1 h
  have hcreated : s.createdAt.canonicalTime = d.createdAt := congrArg Snapshot.createdAt hs
  have hupdated : s.updatedAt.canonicalTime = d.updatedAt := congrArg Snapshot.updatedAt hs
  have hevents : s.events.map (fun e => { e with occurredAt := e.occurredAt.canonicalTime }) = d.events :=
    congrArg Snapshot.events hs
  refine ⟨hvalid, ?_, ?_, ?_⟩
  · rw [← hcreated]
    exact Instant.canonical_canonicalTime _
  · rw [← hupdated]
    exact Instant.canonical_canonicalTime _
  · rw [← hevents]
    intro e he
    obtain ⟨raw, -, rfl⟩ := List.mem_map.1 he
    exact Instant.canonical_canonicalTime _

end

-- The two definitions of a deployment agree: whatever is built is stored and read back, and whatever is read was
-- built, up to the normalisation of the times that were stored.
theorem deployment_round_trips :
    (∀ d, Built NormalisesNonzero d → Recorded d ∧ ∃ s, d.snapshot = .ok s ∧ rehydrate s = .ok d) ∧
    (∀ s d, rehydrate s = .ok d → Recorded d ∧ Built NormalisesNonzero d ∧ d.snapshot = .ok s.canonical) := by
  constructor
  · intro d hbuilt
    have hwell := hbuilt.wellformed
    refine ⟨hwell.recorded, _, snapshot_eq_ok.2 ⟨hwell.valid, rfl⟩, ?_⟩
    exact rehydrate_eq_ok.2 ⟨hwell.valid, hwell.canonical_stored⟩
  · intro s d hread
    have hwell := wellformed_of_rehydrate hread
    obtain ⟨hvalid, hs⟩ := rehydrate_eq_ok.1 hread
    exact ⟨hwell.recorded, hwell.built, snapshot_eq_ok.2 ⟨hvalid, hs⟩⟩

def sampleIdentity : Identity := ⟨"deployment", "project", "environment", "server", "commit"⟩

def sampleSnapshot (createdAt : Instant) : Snapshot :=
  ⟨currentSchemaVersion, sampleIdentity, .known .queued, createdAt, createdAt, 1, [⟨.empty, .known .queued, createdAt⟩]⟩

theorem deployment_round_trips_assigned :
    ∃ d d' s, new sampleIdentity ⟨1000, none, none⟩ = .ok d ∧ d.transition (.known .assigned) ⟨2500, some "Local", some 7⟩ = .ok d' ∧
      d'.snapshot = .ok s ∧ rehydrate s = .ok d' ∧ Built NormalisesNonzero d' := by
  obtain ⟨d, hnew⟩ : ∃ d, new sampleIdentity ⟨1000, none, none⟩ = .ok d := ⟨_, rfl⟩
  obtain ⟨d', hmove⟩ : ∃ d', d.transition (.known .assigned) ⟨2500, some "Local", some 7⟩ = .ok d' := by
    cases hnew
    exact ⟨_, rfl⟩
  have hbuilt : Built NormalisesNonzero d' := .transition (.new hnew (by unfold NormalisesNonzero; decide)) hmove
  obtain ⟨-, s, hstored, hread⟩ := deployment_round_trips.1 d' hbuilt
  exact ⟨d, d', s, hnew, hmove, hstored, hread, (deployment_round_trips.2 s d' hread).2.1⟩

-- A time between two microseconds and a time before the zero instant are both accepted, and no deployment created
-- a microsecond after the zero instant or later has either snapshot.
theorem rehydrated_without_deployment :
    ((∃ d, rehydrate (sampleSnapshot ⟨1500, none, none⟩) = .ok d) ∧
        ∀ d, Built MicrosecondAfterZero d → d.snapshot ≠ .ok (sampleSnapshot ⟨1500, none, none⟩)) ∧
      (∃ d, rehydrate (sampleSnapshot ⟨-1000000000, none, none⟩) = .ok d) ∧
        ∀ d, Built MicrosecondAfterZero d → d.snapshot ≠ .ok (sampleSnapshot ⟨-1000000000, none, none⟩) := by
  refine ⟨?_, ?_⟩
  · refine ⟨⟨_, rfl⟩, fun d hbuilt hsnapshot => ?_⟩
    have hcreated := (hbuilt.mono fun t => normalisesNonzero_of_after).wellformed.created
    have heq : (⟨1500, none, none⟩ : Instant) = d.createdAt := congrArg Snapshot.createdAt (snapshot_eq_ok.1 hsnapshot).2
    rw [← heq] at hcreated
    exact absurd hcreated (by unfold Instant.Canonical; decide)
  · refine ⟨⟨_, rfl⟩, fun d hbuilt hsnapshot => ?_⟩
    have hcreated := hbuilt.createdAt_after
    have heq : (⟨-1000000000, none, none⟩ : Instant) = d.createdAt :=
      congrArg Snapshot.createdAt (snapshot_eq_ok.1 hsnapshot).2
    rw [← heq] at hcreated
    exact absurd hcreated (by unfold MicrosecondAfterZero; decide)

-- The store's aggregate, whose rows hold known statuses and microseconds after the zero instant.

def instant (microseconds : Nat) : Instant := ⟨microseconds * 1000, none, none⟩

def Event.ofStored (e : Deployment.Event) : Event :=
  ⟨e.fromStatus.elim .empty .known, .known e.toStatus, instant e.occurredAt⟩

def Aggregate.ofStored (d : Deployment.Aggregate) : Aggregate :=
  ⟨d.identity, .known d.status, instant d.createdAt, instant d.updatedAt, d.revision, d.events.map .ofStored⟩

theorem instant_injective {a b : Nat} (h : instant a = instant b) : a = b := by
  simp only [instant, Instant.mk.injEq, and_true] at h
  omega

theorem canonical_instant (a : Nat) : (instant a).Canonical := by
  refine Instant.canonical_iff.2 ⟨?_, rfl, rfl⟩
  simp only [instant]
  omega

theorem isZero_instant (a : Nat) : (instant a).isZero = decide (a = 0) := by
  by_cases ha : a = 0
  · subst ha
    rfl
  · simp [Instant.isZero, instant, ha]

theorem before_instant (a b : Nat) : (instant a).before (instant b) = decide (a < b) := by
  rw [(canonical_instant a).before_eq, decide_eq_decide]
  simp only [instant]
  omega

-- The store's walk over the event rows is the domain's.
theorem validateEvents_ofStored {current last : Status} {previousAt lastAt index : Nat} {events : List Deployment.Event} :
    validateEvents (.known current) (instant previousAt) index (events.map .ofStored) = .ok (.known last, instant lastAt) ↔
      Deployment.validateEvents current previousAt index events = .ok (last, lastAt) := by
  induction events generalizing current previousAt index with
  | nil =>
      simp only [List.map_nil, validateEvents, Deployment.validateEvents, Except.ok.injEq, Prod.mk.injEq,
        AnyStatus.known.injEq]
      exact and_congr_right fun _ => ⟨instant_injective, congrArg instant⟩
  | cons event rest ih =>
      have htime : ((Event.ofStored event).occurredAt.isZero ||
          (Event.ofStored event).occurredAt.before (instant previousAt)) = true ↔
          event.occurredAt = 0 ∨ event.occurredAt < previousAt := by
        simp [Event.ofStored, isZero_instant, before_instant]
      have hmove : ((Event.ofStored event).source ≠ .known current ∨ isKnownStatus (Event.ofStored event).target = false ∨
          canTransition (.known current) (Event.ofStored event).target = false) ↔
          event.fromStatus ≠ some current ∨ Deployment.canTransition current event.toStatus = false := by
        cases hsource : event.fromStatus <;> simp [Event.ofStored, hsource, isKnownStatus, canTransition, AnyStatus.empty]
      simp only [List.map_cons, validateEvents, Deployment.validateEvents]
      by_cases hbad : event.occurredAt = 0 ∨ event.occurredAt < previousAt
      · rw [if_pos (htime.2 hbad), if_pos hbad]
        simp
      · rw [if_neg (fun h => hbad (htime.1 h)), if_neg hbad]
        by_cases hwrong : event.fromStatus ≠ some current ∨ Deployment.canTransition current event.toStatus = false
        · rw [if_pos (hmove.2 hwrong), if_pos hwrong]
          simp
        · rw [if_neg (fun h => hwrong (hmove.1 h)), if_neg hwrong]
          exact ih

variable {d : Deployment.Aggregate}

theorem ofStored_eq_creation {e : Deployment.Event} {createdAt : Nat} :
    Event.ofStored e = ⟨.empty, .known .queued, instant createdAt⟩ ↔ e = ⟨none, .queued, createdAt⟩ := by
  obtain ⟨source, target, occurredAt⟩ := e
  constructor
  · intro h
    simp only [Event.ofStored, Event.mk.injEq, AnyStatus.known.injEq] at h
    obtain ⟨hsource, rfl, hat⟩ := h
    rw [instant_injective hat]
    cases source with
    | none => rfl
    | some status => simp [AnyStatus.empty] at hsource
  · intro h
    cases h
    rfl

theorem validate_ofStored : (Aggregate.ofStored d).validate = .ok () ↔ d.validate = .ok () := by
  rw [Deployment.Aggregate.validate_eq_ok]
  constructor
  · intro h
    have hwell : Wellformed (.ofStored d) := by
      refine ⟨h, canonical_instant _, canonical_instant _, fun e he => ?_⟩
      obtain ⟨row, -, rfl⟩ := List.mem_map.1 he
      exact canonical_instant _
    obtain ⟨hidentity, -, ⟨hcreated, hupdated, horder⟩, hcount, -, -⟩ := validate_eq_ok.1 h
    obtain ⟨rest, hevents, hwalk⟩ := hwell.creation
    obtain ⟨first, rows, hrows, hfirst, hrest⟩ := List.map_eq_cons_iff.1 hevents
    have hstored := ofStored_eq_creation.1 hfirst
    subst hrest
    simp only [Aggregate.ofStored, isZero_instant, before_instant, decide_eq_false_iff_not, List.length_map] at *
    refine ⟨hidentity, ⟨hcreated, hupdated, by omega⟩, hcount, ?_, ?_⟩
    · rw [hrows, hstored]
      rfl
    · rw [hrows]
      exact validateEvents_ofStored.1 hwalk
  · rintro ⟨hidentity, ⟨hcreated, hupdated, horder⟩, hcount, hhead, hwalk⟩
    obtain ⟨rows, hrows⟩ := List.head?_eq_some_iff.1 hhead
    refine validate_eq_ok.2 ⟨hidentity, rfl, ⟨?_, ?_, ?_⟩, ?_, ?_, instant d.updatedAt, ?_, Instant.equal_self _⟩
    · simpa [Aggregate.ofStored, isZero_instant] using hcreated
    · simpa [Aggregate.ofStored, isZero_instant] using hupdated
    · simpa [Aggregate.ofStored, before_instant] using horder
    · simpa [Aggregate.ofStored] using hcount
    · refine ⟨.ofStored ⟨none, .queued, d.createdAt⟩, ?_, rfl, rfl, Instant.equal_self _⟩
      simp [Aggregate.ofStored, hrows]
    · rw [hrows] at hwalk
      simpa [Aggregate.ofStored, hrows] using validateEvents_ofStored.2 hwalk

-- A transition the store accepts is the domain's, with the same result.
theorem transition_ofStored {d' : Deployment.Aggregate} {target : Status} {at_ : Nat} (h : d.transition target at_ = .ok d') :
    (Aggregate.ofStored d).transition (.known target) (instant at_) = .ok (.ofStored d') := by
  obtain ⟨hvalid, hcases⟩ := Deployment.Aggregate.transition_cases h
  have hstored := validate_ofStored.2 hvalid
  rcases hcases with ⟨rfl, rfl⟩ | ⟨-, hstep, hzero, hlate, rfl⟩
  · have hstatus : (Aggregate.ofStored d').status = .known d'.status := rfl
    simp [Aggregate.transition, hstored, isKnownStatus, hstatus]
  · have hmove : canTransition (Aggregate.ofStored d).status (.known target) = true := hstep
    have hafter : (instant at_).before (Aggregate.ofStored d).updatedAt = false := by
      simp [Aggregate.ofStored, before_instant, hlate]
    rw [transition_of_step hstored (canonical_instant at_) (by simp [isZero_instant, hzero]) hafter rfl hmove]
    simp [Aggregate.advance, Deployment.Aggregate.advance, Aggregate.ofStored, Event.ofStored]

end AutoDeploy.Deployment.History
