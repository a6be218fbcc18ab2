import Mathlib.Data.Finset.Basic
import AutoDeploy.Deployment.Log
import AutoDeploy.Lib.Threads

namespace AutoDeploy.Deployment.History.Repository

open Lib Lib.Result Lib.Threads

-- Any number of Create and Save calls at once. A statement of a Save sees what is committed when it runs; from its
-- first statement on, the lock on the head row keeps the other Saves of that deployment waiting. What a transaction
-- writes is seen by nobody before it commits, so the writes are one turn with the commit.

inductive Call where
  | create (value : Aggregate)
  | save (value : Aggregate)

def Call.value : Call → Aggregate
  | .create value | .save value => value

def Call.deploymentID (call : Call) : String := call.value.identity.deploymentID

-- The call by itself.
def perform (location : Option String) (t : Tables) : Call → Except RepositoryError Tables
  | .create value => createTx t value
  | .save value => saveTx location t value

inductive Stage where
  | idle
  | called (call : Call)
  | locked (value : Aggregate) (snapshot : Snapshot)
  | loaded (value : Aggregate) (snapshot : Snapshot) (head : Head)
  | checked (value : Aggregate) (snapshot stored : Snapshot)
  | finished (call : Call) (failure : Option RepositoryError)

structure Shared where
  tables : Tables
  locks : Table String Nat

def Shared.release (s : Shared) (id : String) : Shared := { s with locks := s.locks.erase id }

-- One turn. The location is that of the process the call runs in.
def next (location : Nat → Option String) (s : Shared) (t : Nat) (_ : Unit) : Stage → Shared × Stage
  | .idle => (s, .idle)
  | .finished call failure => (s, .finished call failure)
  | .called (.create value) =>
      match createTx s.tables value with
      | .error e => (s, .finished (.create value) (some e))
      | .ok tables => ({ s with tables := tables }, .finished (.create value) none)
  | .called (.save value) =>
      match checkedSnapshot value with
      | .error e => (s, .finished (.save value) (some e))
      | .ok snapshot =>
          let id := snapshot.identity.deploymentID
          match s.tables.deployments.get? id with
          | none => (s, .finished (.save value) (some (.notFound id)))
          | some _ =>
              match s.locks.get? id with
              | some _ => (s, .called (.save value))
              | none => ({ s with locks := s.locks.put id t }, .locked value snapshot)
  | .locked value snapshot =>
      let id := snapshot.identity.deploymentID
      match s.tables.deployments.get? id with
      | none => (s.release id, .finished (.save value) (some (.notFound id)))
      | some head => (s, .loaded value snapshot head)
  | .loaded value snapshot head =>
      let id := snapshot.identity.deploymentID
      let stored := assemble (location t) head (s.tables.rowsOf id)
      match checkSave snapshot stored with
      | .error e => (s.release id, .finished (.save value) (some e))
      | .ok _ => (s, .checked value snapshot stored)
  | .checked value snapshot stored =>
      let id := snapshot.identity.deploymentID
      match writeSave s.tables snapshot stored with
      | .error e => (s.release id, .finished (.save value) (some e))
      | .ok tables => ({ s.release id with tables := tables }, .finished (.save value) none)

def writers (location : Nat → Option String) : Threads Shared Stage Unit := ⟨next location⟩

def Stage.call : Stage → Option Call
  | .idle => none
  | .called call | .finished call _ => some call
  | .locked value _ | .loaded value _ _ | .checked value _ _ => some (.save value)

-- The deployment whose lock a call has.
def Stage.holds : Stage → Option String
  | .locked _ snapshot | .loaded _ snapshot _ | .checked _ snapshot _ => some snapshot.identity.deploymentID
  | _ => none

def Stage.Finished (l : Stage) : Prop := ∃ call failure, l = .finished call failure

def Holding (s : Shared) (t : Nat) (id : String) : Prop :=
  s.locks.get? id = some t ∧ ∃ head, s.tables.deployments.get? id = some head

-- What a call has read is what is committed, as long as it has the lock.
def Knows (location : Nat → Option String) (s : Shared) (t : Nat) : Stage → Prop
  | .locked value snapshot =>
      checkedSnapshot value = .ok snapshot ∧ Holding s t snapshot.identity.deploymentID
  | .loaded value snapshot head =>
      checkedSnapshot value = .ok snapshot ∧ Holding s t snapshot.identity.deploymentID ∧
        s.tables.deployments.get? snapshot.identity.deploymentID = some head
  | .checked value snapshot stored =>
      checkedSnapshot value = .ok snapshot ∧ Holding s t snapshot.identity.deploymentID ∧
        readSnapshot (location t) s.tables snapshot.identity.deploymentID = .ok stored ∧
        checkSave snapshot stored = .ok ()
  | _ => True

def released (s : Shared) (l : Stage) : Table String Nat :=
  match l.holds with
  | none => s.locks
  | some id => s.locks.erase id

-- Everything one turn can do. A call that ends does in that turn what it would do by itself.
inductive Effect (location : Nat → Option String) (s : Shared) (t : Nat) (l : Stage) : Shared → Stage → Prop
  | waits : Effect location s t l s l
  | locks (value : Aggregate) (snapshot : Snapshot) (head : Head) (hl : l = .called (.save value))
      (hsnapshot : checkedSnapshot value = .ok snapshot)
      (hhead : s.tables.deployments.get? snapshot.identity.deploymentID = some head)
      (hfree : s.locks.get? snapshot.identity.deploymentID = none) :
      Effect location s t l { s with locks := s.locks.put snapshot.identity.deploymentID t } (.locked value snapshot)
  | reads (l' : Stage) (hcall : l'.call = l.call) (hholds : l'.holds = l.holds) (hknows : Knows location s t l')
      (hlocked : l.holds ≠ none) : Effect location s t l s l'
  | fails (call : Call) (e : RepositoryError) (hcall : l.call = some call) (hopen : ¬ l.Finished)
      (hperform : perform (location t) s.tables call = .error e) :
      Effect location s t l { s with locks := released s l } (.finished call (some e))
  | succeeds (call : Call) (tables : Tables) (hcall : l.call = some call) (hopen : ¬ l.Finished)
      (hholds : (∃ value, call = .create value) ∨ Holding s t call.deploymentID)
      (hperform : perform (location t) s.tables call = .ok tables) :
      Effect location s t l ⟨tables, released s l⟩ (.finished call none)

section

variable {location : Nat → Option String} {s s' : Shared} {t u : Nat} {l l' : Stage} {c c' : Config Shared Stage}
  {calls : Nat → Option Call} {id : String}

theorem identity_of_checked {value : Aggregate} {snapshot : Snapshot} (h : checkedSnapshot value = .ok snapshot) :
    snapshot.identity = value.identity := by
  simp only [checkedSnapshot, bind_eq_ok, mapError_eq_ok, pure_eq_ok, snapshot_eq_ok] at h
  obtain ⟨_, ⟨-, rfl⟩, _, -, rfl⟩ := h
  rfl

-- What Save does once its snapshot is checked and the head is read.
theorem saveTx_of_head {place : Option String} {tables : Tables} {value : Aggregate} {snapshot : Snapshot} {head : Head}
    (hsnapshot : checkedSnapshot value = .ok snapshot)
    (hhead : tables.deployments.get? snapshot.identity.deploymentID = some head) :
    saveTx place tables value =
      (checkSave snapshot (assemble place head (tables.rowsOf snapshot.identity.deploymentID)) >>= fun _ =>
        writeSave tables snapshot (assemble place head (tables.rowsOf snapshot.identity.deploymentID))) := by
  simp only [saveTx, readSnapshot, hsnapshot, ok_bind, hhead, found_some]
  rfl

theorem next_effect (h : Knows location s t l) : Effect location s t l (next location s t () l).1 (next location s t () l).2 := by
  cases l with
  | idle => exact .waits
  | finished call failure => exact .waits
  | called call =>
      have hopen : ¬ (Stage.called call).Finished := by
        rintro ⟨_, _, heq⟩
        cases heq
      cases call with
      | create value =>
          simp only [next]
          cases hcreate : createTx s.tables value with
          | error e => exact .fails (.create value) e rfl hopen hcreate
          | ok tables => exact .succeeds (.create value) tables rfl hopen (.inl ⟨value, rfl⟩) hcreate
      | save value =>
          simp only [next]
          cases hsnapshot : checkedSnapshot value with
          | error e =>
              refine .fails (.save value) e rfl hopen ?_
              simp only [perform, saveTx, hsnapshot, error_bind]
          | ok snapshot =>
              simp only
              cases hhead : s.tables.deployments.get? snapshot.identity.deploymentID with
              | none =>
                  refine .fails (.save value) _ rfl hopen ?_
                  simp only [perform, saveTx, hsnapshot, ok_bind, hhead, found_none, error_bind]
              | some head =>
                  simp only
                  cases hfree : s.locks.get? snapshot.identity.deploymentID with
                  | some holder => exact .waits
                  | none => exact .locks value snapshot head rfl hsnapshot hhead hfree
  | locked value snapshot =>
      obtain ⟨hsnapshot, hholding⟩ := h
      obtain ⟨head, hhead⟩ := hholding.2
      simp only [next, hhead]
      exact .reads (.loaded value snapshot head) rfl rfl ⟨hsnapshot, hholding, hhead⟩ (by simp [Stage.holds])
  | loaded value snapshot head =>
      obtain ⟨hsnapshot, hholding, hhead⟩ := h
      have hopen : ¬ (Stage.loaded value snapshot head).Finished := by
        rintro ⟨_, _, heq⟩
        cases heq
      have hsave := @saveTx_of_head (location t) s.tables value snapshot head hsnapshot hhead
      simp only [next]
      cases hcheck : checkSave snapshot (assemble (location t) head (s.tables.rowsOf snapshot.identity.deploymentID)) with
      | error e =>
          rw [hcheck, error_bind] at hsave
          exact .fails (.save value) e rfl hopen hsave
      | ok _ =>
          refine .reads (.checked value snapshot _) rfl rfl ⟨hsnapshot, hholding, ?_, hcheck⟩ (by simp [Stage.holds])
          simp only [readSnapshot, hhead, found_some, ok_bind]
          rfl
  | checked value snapshot stored =>
      obtain ⟨hsnapshot, hholding, hread, hcheck⟩ := h
      have hopen : ¬ (Stage.checked value snapshot stored).Finished := by
        rintro ⟨_, _, heq⟩
        cases heq
      obtain ⟨head, hhead⟩ := hholding.2
      have hstored : stored = assemble (location t) head (s.tables.rowsOf snapshot.identity.deploymentID) := by
        simp only [readSnapshot, hhead, found_some, ok_bind, pure_eq_ok] at hread
        exact hread.symm
      have hsave := @saveTx_of_head (location t) s.tables value snapshot head hsnapshot hhead
      rw [← hstored, hcheck, ok_bind] at hsave
      simp only [next]
      cases hwrite : writeSave s.tables snapshot stored with
      | error e =>
          rw [hwrite] at hsave
          exact .fails (.save value) e rfl hopen hsave
      | ok tables =>
          rw [hwrite] at hsave
          refine .succeeds (.save value) tables rfl hopen (.inr ?_) hsave
          rw [identity_of_checked hsnapshot] at hholding
          exact hholding

-- What another call knows stays true when its lock and the rows under it stay.
theorem Knows.frame (h : Knows location s u l)
    (hkeeps : ∀ id, Holding s u id → s'.locks.get? id = some u ∧
      s'.tables.deployments.get? id = s.tables.deployments.get? id ∧ s'.tables.rowsOf id = s.tables.rowsOf id) :
    Knows location s' u l := by
  have hholding : ∀ id, Holding s u id → Holding s' u id := by
    rintro id hold
    obtain ⟨hlock, hhead, -⟩ := hkeeps id hold
    exact ⟨hlock, by rw [hhead]; exact hold.2⟩
  cases l with
  | locked value snapshot => exact ⟨h.1, hholding _ h.2⟩
  | loaded value snapshot head =>
      refine ⟨h.1, hholding _ h.2.1, ?_⟩
      rw [(hkeeps _ h.2.1).2.1]
      exact h.2.2
  | checked value snapshot stored =>
      obtain ⟨hsnapshot, hold, hread, hcheck⟩ := h
      obtain ⟨-, hhead, hrows⟩ := hkeeps _ hold
      refine ⟨hsnapshot, hholding _ hold, ?_, hcheck⟩
      rw [readSnapshot, hhead, hrows]
      exact hread
  | idle => trivial
  | called call => trivial
  | finished call failure => trivial

-- What holds whenever calls with values of the domain have run for a while.
structure Running (location : Nat → Option String) (calls : Nat → Option Call) (c : Config Shared Stage) : Prop where
  kept : Kept c.shared.tables
  calls : ∀ t, (c.stage t).call = calls t
  knows : Asserts (Knows location) c
  owned : ∀ id t, c.shared.locks.get? id = some t → (c.stage t).holds = some id

theorem get?_released (hlock : s.locks.get? id = some u) (hother : l.holds ≠ some id) :
    (released s l).get? id = some u := by
  unfold released
  split
  · exact hlock
  · rename_i k hk
    rw [Table.get?_erase, if_neg]
    · exact hlock
    · rintro rfl
      exact hother hk

theorem get?_of_released (h : (released s l).get? id = some u) : s.locks.get? id = some u ∧ l.holds ≠ some id := by
  unfold released at h
  split at h
  · rename_i hnone
    exact ⟨h, by simp [hnone]⟩
  · rename_i k hk
    rw [Table.get?_erase] at h
    split at h
    · cases h
    · rename_i hne
      refine ⟨h, ?_⟩
      rw [hk]
      intro heq
      exact hne (Option.some.inj heq).symm

theorem Knows.holding (h : Knows location s t l) (hid : l.holds = some id) : Holding s t id := by
  cases l with
  | locked value snapshot =>
      cases hid
      exact h.2
  | loaded value snapshot head =>
      cases hid
      exact h.2.1
  | checked value snapshot stored =>
      cases hid
      exact h.2.1
  | idle => cases hid
  | called call => cases hid
  | finished call failure => cases hid

-- A call that succeeds changes the rows of its own deployment, and nobody else has that one locked.
theorem perform_cases {place : Option String} {tables tables' : Tables} {call : Call} (hkept : Kept tables)
    (hvalue : Value call.value) (h : perform place tables call = .ok tables') :
    Only call.deploymentID tables tables' ∧ Holds tables' call.deploymentID call.value := by
  cases call with
  | create value =>
      obtain ⟨-, hholds, honly⟩ := createTx_cases hkept hvalue h
      exact ⟨honly, hholds⟩
  | save value =>
      obtain ⟨d, hholds, hwell, hextends, rfl⟩ := saveTx_cases hkept hvalue h
      exact ⟨only_saved, hholds.after_save hwell hextends⟩

variable (hvalues : ∀ t call, calls t = some call → Value call.value)

include hvalues

theorem Running.step (h : Running location calls c) (turn : Nat × Unit) :
    Running location calls ((writers location).step c turn) := by
  obtain ⟨t, _⟩ := turn
  have hknows := h.knows t
  have heffect : Effect location c.shared t (c.stage t) ((writers location).moved c (t, ())).1
      ((writers location).moved c (t, ())).2 := next_effect hknows
  generalize hs' : ((writers location).moved c (t, ())).1 = s' at heffect
  generalize hl' : ((writers location).moved c (t, ())).2 = l' at heffect
  -- Each part from what the turn does to the shared state and to its own stage.
  have hassemble : Kept s'.tables → l'.call = calls t → Knows location s' t l' →
      (∀ u, u ≠ t → ∀ id, Holding c.shared u id → s'.locks.get? id = some u ∧
        s'.tables.deployments.get? id = c.shared.tables.deployments.get? id ∧
        s'.tables.rowsOf id = c.shared.tables.rowsOf id) →
      (∀ id u, s'.locks.get? id = some u → (u ≠ t ∧ c.shared.locks.get? id = some u) ∨ (u = t ∧ l'.holds = some id)) →
      Running location calls ((writers location).step c (t, ())) := by
    intro hkept hcall hown hothers howned
    refine ⟨by rw [step_shared, hs']; exact hkept, fun u => ?_, ?_, fun id u hlock => ?_⟩
    · by_cases hu : u = t
      · subst hu
        rw [← hcall, ← hl']
        exact congrArg Stage.call (@step_stage_self _ _ _ (writers location) c (u, ()))
      · rw [@step_stage_of_ne _ _ _ (writers location) c (t, ()) u hu]
        exact h.calls u
    · refine Asserts.step h.knows (fun u l hu hl => ?_) (by rw [hs', hl']; exact hown)
      rw [hs']
      exact hl.frame (hothers u hu)
    · rw [step_shared, hs'] at hlock
      rcases howned id u hlock with ⟨hu, hbefore⟩ | ⟨rfl, hholds⟩
      · rw [@step_stage_of_ne _ _ _ (writers location) c (t, ()) u hu]
        exact h.owned id u hbefore
      · rw [← hl'] at hholds
        rw [← hholds]
        exact congrArg Stage.holds (@step_stage_self _ _ _ (writers location) c (u, ()))
  -- The locks that are left after a call has ended.
  have hreleased : ∀ id u, (released c.shared (c.stage t)).get? id = some u →
      u ≠ t ∧ c.shared.locks.get? id = some u := by
    intro id u hlock
    obtain ⟨hbefore, hne⟩ := get?_of_released hlock
    refine ⟨?_, hbefore⟩
    rintro rfl
    exact hne (h.owned id u hbefore)
  have hkeptLock : ∀ u, u ≠ t → ∀ id, Holding c.shared u id → (released c.shared (c.stage t)).get? id = some u := by
    intro u hu id hold
    refine get?_released hold.1 fun hheld => ?_
    have hmine := (hknows.holding hheld).1
    rw [hold.1] at hmine
    exact hu (Option.some.inj hmine)
  cases heffect with
  | waits =>
      refine hassemble h.kept (h.calls t) hknows (fun u hu id hold => ⟨hold.1, rfl, rfl⟩) fun id u hlock => ?_
      by_cases hu : u = t
      · exact .inr ⟨hu, hu ▸ h.owned id u hlock⟩
      · exact .inl ⟨hu, hlock⟩
  | locks value snapshot head hl hsnapshot hhead hfree =>
      refine hassemble h.kept ?_ ⟨hsnapshot, Table.get?_put_self .., head, hhead⟩ (fun u hu id hold => ⟨?_, rfl, rfl⟩)
        fun id u hlock => ?_
      · rw [← h.calls t, hl]
        rfl
      · have hne : id ≠ snapshot.identity.deploymentID := by
          rintro rfl
          have hlock := hold.1
          rw [hfree] at hlock
          cases hlock
        exact ((Table.get?_put ..).trans (if_neg hne)).trans hold.1
      · have hlock' := hlock
        rw [Table.get?_put] at hlock'
        split at hlock'
        · rename_i heq
          exact .inr ⟨(Option.some.inj hlock').symm, congrArg some heq.symm⟩
        · refine .inl ⟨?_, hlock'⟩
          rintro rfl
          have hholds := h.owned id u hlock'
          rw [hl] at hholds
          cases hholds
  | reads _ hcall hholds hknows' hlocked =>
      refine hassemble h.kept (hcall.trans (h.calls t)) hknows' (fun u hu id hold => ⟨hold.1, rfl, rfl⟩) fun id u hlock => ?_
      by_cases hu : u = t
      · exact .inr ⟨hu, hholds.trans (hu ▸ h.owned id u hlock)⟩
      · exact .inl ⟨hu, hlock⟩
  | fails call e hcall hopen hperform =>
      exact hassemble h.kept (hcall.symm.trans (h.calls t)) trivial
        (fun u hu id hold => ⟨hkeptLock u hu id hold, rfl, rfl⟩) fun id u hlock => .inl (hreleased id u hlock)
  | succeeds call tables hcall hopen hmine hperform =>
      have hvalue : Value call.value := hvalues t call (by rw [← h.calls t]; exact hcall)
      obtain ⟨honly, hholds⟩ := perform_cases h.kept hvalue hperform
      refine hassemble (h.kept.of_only honly hholds) (hcall.symm.trans (h.calls t)) trivial
        (fun u hu id hold => ?_) fun id u hlock => .inl (hreleased id u hlock)
      have hne : id ≠ call.deploymentID := by
        rintro rfl
        rcases hmine with ⟨value, rfl⟩ | hmine
        · obtain ⟨hvacant, -⟩ := createTx_cases h.kept hvalue hperform
          obtain ⟨head, hhead⟩ := hold.2
          rw [show (Call.create value).deploymentID = value.identity.deploymentID from rfl] at hhead
          cases hvacant.1.symm.trans hhead
        · have hlock := hmine.1
          rw [hold.1] at hlock
          exact hu (Option.some.inj hlock)
      obtain ⟨hhead, hrows⟩ := honly id hne
      exact ⟨hkeptLock u hu id hold, hhead, hrows⟩

theorem Running.run (h : Running location calls c) (turns : List (Nat × Unit)) :
    Running location calls ((writers location).run c turns) :=
  run_invariant (fun _ turn hc _ => hc.step hvalues turn) (allows_true turns) h

end

def start (calls : Nat → Option Call) : Config Shared Stage :=
  ⟨⟨.empty, .empty⟩, fun t => (calls t).elim .idle .called⟩

theorem running_start (location : Nat → Option String) (calls : Nat → Option Call) :
    Running location calls (start calls) := by
  refine ⟨fun id => .inl ⟨rfl, rfl⟩, fun t => ?_, fun t => ?_, fun id t hlock => ?_⟩
  · cases hcall : calls t with
    | none => simp [start, hcall, Stage.call]
    | some call => simp [start, hcall, Stage.call]
  · cases hcall : calls t with
    | none => simp [start, hcall, Knows]
    | some call => simp [start, hcall, Knows]
  · cases hlock

section

variable {location : Nat → Option String} {t u : Nat} {c : Config Shared Stage} {calls : Nat → Option Call} {id : String}
  {turns : List (Nat × Unit)}

-- A turn leaves the tables and the outcome of its call open, or it is the whole call.
def Linear (location : Nat → Option String) (c : Config Shared Stage) (turn : Nat × Unit) : Prop :=
  let c' := (writers location).step c turn
  (c'.shared.tables = c.shared.tables ∧ ((c'.stage turn.1).Finished → c'.stage turn.1 = c.stage turn.1)) ∨
  (∃ call e, ¬ (c.stage turn.1).Finished ∧ c'.stage turn.1 = .finished call (some e) ∧
    perform (location turn.1) c.shared.tables call = .error e ∧ c'.shared.tables = c.shared.tables) ∨
  ∃ call, ¬ (c.stage turn.1).Finished ∧ c'.stage turn.1 = .finished call none ∧
    perform (location turn.1) c.shared.tables call = .ok c'.shared.tables

theorem Running.linear (h : Running location calls c) (turn : Nat × Unit) : Linear location c turn := by
  obtain ⟨t, _⟩ := turn
  have hstage := @step_stage_self _ _ _ (writers location) c (t, ())
  have hshared := @step_shared _ _ _ (writers location) c (t, ())
  have heffect : Effect location c.shared t (c.stage t) ((writers location).moved c (t, ())).1
      ((writers location).moved c (t, ())).2 := next_effect (h.knows t)
  generalize ((writers location).moved c (t, ())).1 = s' at heffect hshared
  generalize ((writers location).moved c (t, ())).2 = l' at heffect hstage
  cases heffect with
  | waits => exact .inl ⟨(congrArg Shared.tables hshared).trans rfl, fun _ => hstage⟩
  | locks value snapshot head hl hsnapshot hhead hfree =>
      refine .inl ⟨(congrArg Shared.tables hshared).trans rfl, ?_⟩
      rintro ⟨_, _, heq⟩
      rw [hstage] at heq
      cases heq
  | reads _ hcall hholds hknows hlocked =>
      refine .inl ⟨(congrArg Shared.tables hshared).trans rfl, ?_⟩
      rintro ⟨_, _, heq⟩
      rw [hstage] at heq
      rw [heq] at hholds
      exact absurd hholds.symm hlocked
  | fails call e hcall hopen hperform =>
      exact .inr (.inl ⟨call, e, hopen, hstage, hperform, (congrArg Shared.tables hshared).trans rfl⟩)
  | succeeds call tables hcall hopen hmine hperform =>
      refine .inr (.inr ⟨call, hopen, hstage, ?_⟩)
      rw [hshared]
      exact hperform

-- Saves that all continue one deployment, each with another event first.
structure Rivals (calls : Nat → Option Call) (d : Aggregate) (ts : Finset Nat) (v : Nat → Aggregate) :
    Prop where
  calls : ∀ t ∈ ts, calls t = some (.save (v t))
  continues : ∀ t ∈ ts, Extends d (v t)
  differ : ∀ t ∈ ts, ∀ u ∈ ts, t ≠ u → (v t).events[d.events.length]? ≠ (v u).events[d.events.length]?

-- Before the first of the rivals has ended, and from then on.
inductive Race (id : String) (d : Aggregate) (ts : Finset Nat) (v : Nat → Aggregate) (c : Config Shared Stage) : Prop
  | undecided (hholds : Holds c.shared.tables id d) (hnone : ∀ t ∈ ts, ¬ (c.stage t).Finished)
  | won (t : Nat) (ht : t ∈ ts) (hholds : Holds c.shared.tables id (v t))
      (hdone : c.stage t = .finished (.save (v t)) none)
      (hlost : ∀ u ∈ ts, u ≠ t → c.stage u ≠ .finished (.save (v u)) none)

theorem finished_step (h : (c.stage t).Finished) (turn : Nat × Unit) :
    ((writers location).step c turn).stage t = c.stage t := by
  obtain ⟨u, _⟩ := turn
  by_cases hu : t = u
  · subst hu
    obtain ⟨call, failure, hstage⟩ := h
    rw [@step_stage_self _ _ _ (writers location) c (t, ()), hstage]
    simp only [moved, writers, hstage, next]
  · exact step_stage_of_ne hu

theorem finished_run (h : (c.stage t).Finished) (turns : List (Nat × Unit)) :
    ((writers location).run c turns).stage t = c.stage t := by
  induction turns generalizing c with
  | nil => rfl
  | cons turn rest ih =>
      have hstep := @finished_step location t c h turn
      exact (ih (hstep ▸ h)).trans hstep

variable {d : Aggregate} {ts : Finset Nat} {v : Nat → Aggregate}

-- The winner's first new event is not the other's, so the other does not continue it.
theorem Rivals.not_continues (h : Rivals calls d ts v) (ht : t ∈ ts) (hu : u ∈ ts) (hne : t ≠ u) :
    ¬ Extends (v t) (v u) := by
  intro hextends
  obtain ⟨more, hmore⟩ := hextends.events
  have hlonger : d.events.length < (v t).events.length := by
    have hcontinues := h.continues t ht
    have hle := hcontinues.events.length_le
    have hdiffer : d.events.length ≠ (v t).events.length := fun heq =>
      hcontinues.further (hcontinues.events.eq_of_length heq)
    omega
  refine h.differ t ht u hu hne ?_
  rw [← hmore, List.getElem?_append_left hlonger]

-- The calls outside the race that could still save the deployment are none.
def Quiet (calls : Nat → Option Call) (id : String) (ts : Finset Nat) (c : Config Shared Stage) : Prop :=
  ∀ t, t ∉ ts → ∀ value, calls t = some (.save value) → value.identity.deploymentID = id → (c.stage t).Finished

variable (hvalues : ∀ t call, calls t = some call → Value call.value)

include hvalues

theorem Race.step (hrunning : Running location calls c) (hrivals : Rivals calls d ts v) (hquiet : Quiet calls id ts c)
    (h : Race id d ts v c) (turn : Nat × Unit) : Race id d ts v ((writers location).step c turn) := by
  have hlinear := hrunning.linear turn
  have hafter := (hrunning.step hvalues turn).calls turn.1
  have hothers : ∀ w, w ≠ turn.1 → ((writers location).step c turn).stage w = c.stage w :=
    fun w hw => step_stage_of_ne hw
  obtain ⟨htables, hsame⟩ | ⟨call, e, hopen, hstage, hperform, htables⟩ | ⟨call, hopen, hstage, hperform⟩ := hlinear
  · -- Nothing has been decided in this turn.
    have hfinished : ∀ w, (((writers location).step c turn).stage w).Finished →
        ((writers location).step c turn).stage w = c.stage w := by
      intro w hw
      by_cases hturn : w = turn.1
      · subst hturn
        exact hsame hw
      · exact hothers w hturn
    cases h with
    | undecided hholds hnone =>
        refine .undecided (htables ▸ hholds) fun t ht hdone => ?_
        rw [hfinished t hdone] at hdone
        exact hnone t ht hdone
    | won t ht hholds hdone hlost =>
        refine .won t ht (htables ▸ hholds) ((finished_step ⟨_, _, hdone⟩ turn).trans hdone) fun u hu hne hwon => ?_
        rw [hfinished u ⟨_, _, hwon⟩] at hwon
        exact hlost u hu hne hwon
  · -- A call has been refused.
    have hcall : calls turn.1 = some call := by rw [← hafter, hstage]; rfl
    cases h with
    | undecided hholds hnone =>
        by_cases hmem : turn.1 ∈ ts
        · exfalso
          rw [hrivals.calls _ hmem] at hcall
          cases hcall
          have hextends := hrivals.continues _ hmem
          have hvalue : Value (v turn.1) := hvalues turn.1 _ (hrivals.calls _ hmem)
          have hkey : (v turn.1).identity.deploymentID = id := by rw [← hextends.identity, hholds.key]
          have hsaved := (@Holds.saveTx_eq (location turn.1) _ _ _ _ hholds (hextends.wellformed hholds.well hvalue) hkey).1
            hextends
          rw [show perform (location turn.1) c.shared.tables (.save (v turn.1)) =
            saveTx (location turn.1) c.shared.tables (v turn.1) from rfl, hsaved] at hperform
          cases hperform
        · refine .undecided (htables ▸ hholds) fun t ht hdone => ?_
          rw [hothers t (fun heq => hmem (heq ▸ ht))] at hdone
          exact hnone t ht hdone
    | won t ht hholds hdone hlost =>
        refine .won t ht (htables ▸ hholds) ((finished_step ⟨_, _, hdone⟩ turn).trans hdone) fun u hu hne hwon => ?_
        by_cases hturn : u = turn.1
        · subst hturn
          rw [hstage] at hwon
          cases hwon
        · rw [hothers u hturn] at hwon
          exact hlost u hu hne hwon
  · -- A call has been accepted.
    have hcall : calls turn.1 = some call := by rw [← hafter, hstage]; rfl
    have hvalue : Value call.value := hvalues turn.1 call hcall
    obtain ⟨honly, hnew⟩ := perform_cases hrunning.kept hvalue hperform
    -- Another deployment's call leaves this one alone.
    have helsewhere : turn.1 ∉ ts → ∀ d', Holds c.shared.tables id d' → id ≠ call.deploymentID := by
      rintro hmem d' hholds rfl
      cases call with
      | create value =>
          obtain ⟨hvacant, -⟩ := createTx_cases hrunning.kept hvalue hperform
          cases hvacant.1.symm.trans hholds.head
      | save value => exact hopen (hquiet turn.1 hmem value hcall rfl)
    by_cases hmem : turn.1 ∈ ts
    · rw [hrivals.calls _ hmem] at hcall
      cases hcall
      obtain ⟨d', hholds', -, hextends, -⟩ := saveTx_cases hrunning.kept hvalue hperform
      have hkey : (v turn.1).identity.deploymentID = id := by
        rw [← (hrivals.continues _ hmem).identity]
        cases h with
        | undecided hholds hnone => exact hholds.key
        | won t ht hholds hdone hlost =>
            rw [(hrivals.continues t ht).identity]
            exact hholds.key
      cases h with
      | undecided hholds hnone =>
          refine .won turn.1 hmem (hkey ▸ hnew) hstage fun u hu hne hwon => ?_
          rw [hothers u hne] at hwon
          exact hnone u hu ⟨_, _, hwon⟩
      | won t ht hholds hdone hlost =>
          exfalso
          have hne : t ≠ turn.1 := by
            rintro rfl
            exact hopen ⟨_, _, hdone⟩
          have hsame : v t = d' := by
            have hget : getByID none c.shared.tables (v turn.1).identity.deploymentID = .ok d' := hholds'.getByID_eq
            rw [hkey] at hget
            exact (hholds.unique hget).symm
          rw [← hsame] at hextends
          exact hrivals.not_continues ht hmem hne hextends
    · have hstay : ∀ t ∈ ts, ((writers location).step c turn).stage t = c.stage t :=
        fun t ht => hothers t fun heq => hmem (heq ▸ ht)
      cases h with
      | undecided hholds hnone =>
          refine .undecided (hholds.of_only honly (helsewhere hmem d hholds)) fun t ht hdone => ?_
          rw [hstay t ht] at hdone
          exact hnone t ht hdone
      | won t ht hholds hdone hlost =>
          refine .won t ht (hholds.of_only honly (helsewhere hmem _ hholds)) ((hstay t ht).trans hdone)
            fun u hu hne hwon => ?_
          rw [hstay u hu] at hwon
          exact hlost u hu hne hwon

theorem Race.run (hrunning : Running location calls c) (hrivals : Rivals calls d ts v) (hquiet : Quiet calls id ts c)
    (h : Race id d ts v c) (turns : List (Nat × Unit)) : Race id d ts v ((writers location).run c turns) := by
  have hall : Running location calls ((writers location).run c turns) ∧ Quiet calls id ts ((writers location).run c turns) ∧
      Race id d ts v ((writers location).run c turns) := by
    refine run_invariant (I := fun c => Running location calls c ∧ Quiet calls id ts c ∧ Race id d ts v c)
      (fun c turn hc _ => ⟨hc.1.step hvalues turn, fun t ht value hcall hid => ?_, ?_⟩) (allows_true turns)
      ⟨hrunning, hquiet, h⟩
    · have hdone := hc.2.1 t ht value hcall hid
      rw [finished_step hdone turn]
      exact hdone
    · exact Race.step hvalues hc.1 hrivals hc.2.1 hc.2.2 turn
  exact hall.2.2

omit hvalues

-- A call ends by its own turns, and the lock it had is free then.
def EndsAlone (location : Nat → Option String) (c : Config Shared Stage) (t : Nat) (id : String) : Prop :=
  ∃ turns, (((writers location).run c turns).stage t).Finished ∧
    ((writers location).run c turns).shared.locks.get? id = none ∧
    ∀ u, u ≠ t → ((writers location).run c turns).stage u = c.stage u

theorem EndsAlone.of_step (h : EndsAlone location ((writers location).step c (t, ())) t id) : EndsAlone location c t id := by
  obtain ⟨turns, hdone, hlock, hothers⟩ := h
  exact ⟨(t, ()) :: turns, hdone, hlock, fun u hu => (hothers u hu).trans (step_stage_of_ne hu)⟩

theorem endsAlone_of_turn {call : Call} {failure : Option RepositoryError} {s : Shared}
    (hstage : ((writers location).moved c (t, ())).2 = .finished call failure)
    (hlocks : ((writers location).moved c (t, ())).1.locks = (s.release id).locks) : EndsAlone location c t id := by
  refine ⟨[(t, ())], ⟨call, failure, ?_⟩, ?_, fun u hu => step_stage_of_ne hu⟩
  · rw [← hstage]
    exact @step_stage_self _ _ _ (writers location) c (t, ())
  · show ((writers location).moved c (t, ())).1.locks.get? id = none
    rw [hlocks]
    simp [Shared.release, Table.get?_erase]

theorem endsAlone_of_checked {value : Aggregate} {snapshot stored : Snapshot}
    (hstage : c.stage t = .checked value snapshot stored) :
    EndsAlone location c t snapshot.identity.deploymentID := by
  cases hwrite : writeSave c.shared.tables snapshot stored with
  | error e =>
      refine @endsAlone_of_turn location t c _ (.save value) (some e) c.shared ?_ ?_
      · simp only [moved, writers, hstage, next, hwrite]
      · simp only [moved, writers, hstage, next, hwrite]
  | ok tables =>
      refine @endsAlone_of_turn location t c _ (.save value) none c.shared ?_ ?_
      · simp only [moved, writers, hstage, next, hwrite]
      · simp only [moved, writers, hstage, next, hwrite]

theorem endsAlone_of_loaded {value : Aggregate} {snapshot : Snapshot} {head : Head}
    (hstage : c.stage t = .loaded value snapshot head) : EndsAlone location c t snapshot.identity.deploymentID := by
  cases hcheck : checkSave snapshot
      (assemble (location t) head (c.shared.tables.rowsOf snapshot.identity.deploymentID)) with
  | error e =>
      refine @endsAlone_of_turn location t c _ (.save value) (some e) c.shared ?_ ?_
      · simp only [moved, writers, hstage, next, hcheck]
      · simp only [moved, writers, hstage, next, hcheck]
  | ok _ =>
      have hself := @step_stage_self _ _ _ (writers location) c (t, ())
      simp only [moved, writers, hstage, next, hcheck] at hself
      exact (endsAlone_of_checked hself).of_step

theorem ends_holding (h : Running location calls c) (hid : (c.stage t).holds = some id) : EndsAlone location c t id := by
  cases hstage : c.stage t with
  | locked value snapshot =>
      rw [hstage] at hid
      cases hid
      have hknows := h.knows t
      rw [hstage] at hknows
      obtain ⟨head, hhead⟩ := hknows.2.2
      have hself := @step_stage_self _ _ _ (writers location) c (t, ())
      simp only [moved, writers, hstage, next, hhead] at hself
      exact (endsAlone_of_loaded hself).of_step
  | loaded value snapshot head =>
      rw [hstage] at hid
      cases hid
      exact endsAlone_of_loaded hstage
  | checked value snapshot stored =>
      rw [hstage] at hid
      cases hid
      exact endsAlone_of_checked hstage
  | idle => rw [hstage] at hid; cases hid
  | called call => rw [hstage] at hid; cases hid
  | finished call failure => rw [hstage] at hid; cases hid

include hvalues

theorem ends_free {call : Call} (h : Running location calls c) (hstage : c.stage t = .called call)
    (hfree : c.shared.locks.get? call.deploymentID = none) :
    ∃ turns, (((writers location).run c turns).stage t).Finished := by
  have hself := @step_stage_self _ _ _ (writers location) c (t, ())
  have hrunning := h.step hvalues (t, ())
  have heffect : Effect location c.shared t (c.stage t) ((writers location).moved c (t, ())).1
      ((writers location).moved c (t, ())).2 := next_effect (h.knows t)
  generalize ((writers location).moved c (t, ())).1 = s' at heffect
  generalize hl' : ((writers location).moved c (t, ())).2 = l' at heffect hself
  cases heffect with
  | waits =>
      exfalso
      cases call with
      | create value =>
          simp only [moved, writers, hstage, next] at hl'
          split at hl'
          · cases hl'
          · cases hl'
      | save value =>
          simp only [moved, writers, hstage, next] at hl'
          split at hl'
          · cases hl'
          · rename_i snapshot hsnapshot
            split at hl'
            · cases hl'
            · rw [identity_of_checked hsnapshot, show c.shared.locks.get? value.identity.deploymentID = none from hfree] at hl'
              cases hl'
  | locks value snapshot head hl hsnapshot hhead hlock =>
      have hholds : (((writers location).step c (t, ())).stage t).holds = some snapshot.identity.deploymentID :=
        congrArg Stage.holds hself
      obtain ⟨turns, hdone, -, -⟩ := ends_holding hrunning hholds
      exact ⟨(t, ()) :: turns, hdone⟩
  | reads _ hcall hholds hknows hlocked =>
      rw [hstage] at hlocked
      exact absurd rfl hlocked
  | fails call' e hcall hopen hperform => exact ⟨[(t, ())], _, _, hself⟩
  | succeeds call' tables hcall hopen hmine hperform => exact ⟨[(t, ())], _, _, hself⟩

-- Whatever has happened so far, every call can still end.
theorem ends (h : Running location calls c) (hcall : calls t ≠ none) :
    ∃ turns, (((writers location).run c turns).stage t).Finished := by
  cases hstage : c.stage t with
  | idle =>
      rw [← h.calls t, hstage] at hcall
      exact absurd rfl hcall
  | finished call failure => exact ⟨[], call, failure, hstage⟩
  | locked value snapshot =>
      obtain ⟨turns, hdone, -, -⟩ := @ends_holding location t c calls _ h (by rw [hstage]; rfl)
      exact ⟨turns, hdone⟩
  | loaded value snapshot head =>
      obtain ⟨turns, hdone, -, -⟩ := @ends_holding location t c calls _ h (by rw [hstage]; rfl)
      exact ⟨turns, hdone⟩
  | checked value snapshot stored =>
      obtain ⟨turns, hdone, -, -⟩ := @ends_holding location t c calls _ h (by rw [hstage]; rfl)
      exact ⟨turns, hdone⟩
  | called call =>
      cases hlock : c.shared.locks.get? call.deploymentID with
      | none => exact ends_free hvalues h hstage hlock
      | some u =>
          -- The one that has the lock ends first.
          have hholder := h.owned _ _ hlock
          have hne : t ≠ u := by
            rintro rfl
            rw [hstage] at hholder
            cases hholder
          obtain ⟨turns, -, hfree, hothers⟩ := ends_holding h hholder
          obtain ⟨more, hdone⟩ := ends_free hvalues (h.run hvalues turns) ((hothers t hne).trans hstage) hfree
          refine ⟨turns ++ more, ?_⟩
          rw [Threads.run, List.foldl_append]
          exact hdone

theorem all_end (h : Running location calls c) (hcalls : ∀ t ∈ ts, calls t ≠ none) :
    ∃ turns, ∀ t ∈ ts, (((writers location).run c turns).stage t).Finished := by
  induction ts using Finset.induction_on with
  | empty => exact ⟨[], fun t ht => absurd ht (Finset.notMem_empty t)⟩
  | insert t ts _ ih =>
      obtain ⟨turns, hdone⟩ := ih fun u hu => hcalls u (Finset.mem_insert_of_mem hu)
      obtain ⟨more, hlast⟩ := ends hvalues (h.run hvalues turns) (hcalls t (Finset.mem_insert_self t ts))
      refine ⟨turns ++ more, fun u hu => ?_⟩
      rw [Threads.run, List.foldl_append]
      rcases Finset.mem_insert.1 hu with rfl | hold
      · exact hlast
      · have hstay := @finished_run location u _ (hdone u hold) more
        exact hstay ▸ hdone u hold

end

-- The stored deployments are an append-only log. Whatever Create and Save calls have run, in whatever order their
-- statements came: Save accepts a value exactly when it has the identity of what is stored and goes on from all of it,
-- and then the value is what is read; a refused call changes nothing; and of the Saves that go on from the same
-- revision with different events, one is accepted.
theorem deployment_log_append_only (location : Nat → Option String) (calls : Nat → Option Call)
    (hvalues : ∀ t call, calls t = some call → Value call.value) (turns : List (Nat × Unit)) :
    let c := (writers location).run (start calls) turns
    (∀ place id, c.shared.tables.deployments.contains id = true → ∃ d, getByID place c.shared.tables id = .ok d) ∧
    (∀ place v, Value v →
      ((∃ tables, saveTx place c.shared.tables v = .ok tables) ↔
        ∃ d, getByID place c.shared.tables v.identity.deploymentID = .ok d ∧ Extends d v) ∧
      ∀ tables, saveTx place c.shared.tables v = .ok tables →
        (∀ place', getByID place' tables v.identity.deploymentID = .ok v) ∧
        ∀ place' other, other ≠ v.identity.deploymentID →
          getByID place' tables other = getByID place' c.shared.tables other) ∧
    (∀ turn, Linear location c turn) ∧
    (∀ place id d (ts : Finset Nat) v, ts.Nonempty → getByID place c.shared.tables id = .ok d → Rivals calls d ts v →
      (∀ t ∈ ts, ¬ (c.stage t).Finished) → Quiet calls id ts c →
      (∃ more, ∀ t ∈ ts, (((writers location).run c more).stage t).Finished) ∧
      ∀ more, (∀ t ∈ ts, (((writers location).run c more).stage t).Finished) →
        ∃! t, t ∈ ts ∧ ((writers location).run c more).stage t = .finished (.save (v t)) none) := by
  intro c
  have hrunning : Running location calls c := (running_start location calls).run hvalues turns
  refine ⟨fun place id hrow => ?_, fun place v hvalue => ⟨hrunning.kept.saveTx_iff hvalue, fun tables hsaved => ?_⟩,
    fun turn => hrunning.linear turn, ?_⟩
  · rcases hrunning.kept id with hvacant | ⟨d, hholds⟩
    · rw [Table.contains, hvacant.1] at hrow
      cases hrow
    · exact ⟨d, hholds.getByID_eq⟩
  · obtain ⟨honly, hholds⟩ := @perform_cases place _ _ (.save v) hrunning.kept hvalue hsaved
    exact ⟨fun place' => hholds.getByID_eq, fun place' other hne => getByID_of_only honly hne⟩
  · intro place id d ts v hne hget hrivals hpending hquiet
    refine ⟨all_end hvalues hrunning fun t ht => ?_, fun more hdone => ?_⟩
    · rw [hrivals.calls t ht]
      exact Option.some_ne_none _
    · have hrace := Race.run hvalues hrunning hrivals hquiet
        (.undecided (hrunning.kept.holds_of_getByID hget) hpending) more
      cases hrace with
      | undecided hholds hnone =>
          obtain ⟨t, ht⟩ := hne
          exact absurd (hdone t ht) (hnone t ht)
      | won t ht hholds hwon hlost =>
          refine ⟨t, ⟨ht, hwon⟩, fun u hu => ?_⟩
          by_contra hother
          exact hlost u hu.1 hother hu.2

def queuedSample : Aggregate :=
  ⟨sampleIdentity, .known .queued, ⟨1000, none, none⟩, ⟨1000, none, none⟩, 1,
    [⟨.empty, .known .queued, ⟨1000, none, none⟩⟩]⟩

def twoOutcomes : Nat → Aggregate
  | 1 => queuedSample.advance (.known .assigned) ⟨2000, none, none⟩
  | _ => queuedSample.advance (.known .cancelled) ⟨2000, none, none⟩

-- A deployment is created; then it is assigned and cancelled at once.
def twoSaves : Nat → Option Call
  | 0 => some (.create queuedSample)
  | 1 => some (.save (twoOutcomes 1))
  | 2 => some (.save (twoOutcomes 2))
  | _ => none

theorem twoSaves_values (t : Nat) (call : Call) (h : twoSaves t = some call) : Value call.value := by
  have hqueued : Value queuedSample := .new (show new sampleIdentity ⟨1000, none, none⟩ = .ok queuedSample from rfl)
  have hassigned : Value (twoOutcomes 1) := .transition hqueued
    (show queuedSample.transition (.known .assigned) ⟨2000, none, none⟩ = .ok (twoOutcomes 1) from rfl)
  have hcancelled : Value (twoOutcomes 2) := .transition hqueued
    (show queuedSample.transition (.known .cancelled) ⟨2000, none, none⟩ = .ok (twoOutcomes 2) from rfl)
  unfold twoSaves at h
  split at h
  · cases h
    exact hqueued
  · cases h
    exact hassigned
  · cases h
    exact hcancelled
  · cases h

theorem deployment_log_append_only_twoSaves :
    let c := (writers fun _ => none).run (start twoSaves) [(0, ())]
    (∃ more, ∀ t ∈ ({1, 2} : Finset Nat), (((writers fun _ => none).run c more).stage t).Finished) ∧
    ∀ more, (∀ t ∈ ({1, 2} : Finset Nat), (((writers fun _ => none).run c more).stage t).Finished) →
      ∃! t, t ∈ ({1, 2} : Finset Nat) ∧
        ((writers fun _ => none).run c more).stage t = .finished (.save (twoOutcomes t)) none := by
  intro c
  have hcreated : Holds c.shared.tables "deployment" queuedSample :=
    (@createTx_cases .empty c.shared.tables queuedSample (fun id => .inl ⟨rfl, rfl⟩)
      (twoSaves_values 0 _ rfl) rfl).2.1
  refine (deployment_log_append_only (fun _ => none) twoSaves twoSaves_values [(0, ())]).2.2.2 none "deployment"
    queuedSample {1, 2} twoOutcomes ⟨1, by simp⟩ hcreated.getByID_eq ⟨?_, ?_, ?_⟩ ?_ ?_
  · intro t ht
    rcases Finset.mem_insert.1 ht with rfl | ht
    · rfl
    · rw [Finset.mem_singleton.1 ht]
      rfl
  · intro t ht
    rcases Finset.mem_insert.1 ht with rfl | ht
    · exact ⟨rfl, List.prefix_append _ _, by decide⟩
    · rw [Finset.mem_singleton.1 ht]
      exact ⟨rfl, List.prefix_append _ _, by decide⟩
  · decide
  · intro t ht
    rcases Finset.mem_insert.1 ht with rfl | ht
    · rintro ⟨_, _, heq⟩
      cases heq
    · rw [Finset.mem_singleton.1 ht]
      rintro ⟨_, _, heq⟩
      cases heq
  · intro t ht value hcall hid
    unfold twoSaves at hcall
    split at hcall
    · cases hcall
    · simp at ht
    · simp at ht
    · cases hcall

end AutoDeploy.Deployment.History.Repository
