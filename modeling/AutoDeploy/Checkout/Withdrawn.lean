import AutoDeploy.Checkout.Closing

namespace AutoDeploy.Checkout

open Lib Lib.Result Lib.Threads

-- What a withdrawal that has returned promises about the checkouts of its installation or repositories, and when it can
-- keep the promise.

def Live (s : Shared) (id : String) : Prop := ∃ row, s.store.reservations.get? id = some row ∧ row.state.live = true

-- Every reservation that was live is invalidated, every lease of it the process knows is marked, and no token of it
-- is delivered any more.
def WithdrawnForGood (s : Shared) : Prop :=
  ∀ later earlier ids live, s.log = later ++ .withdrawn ids live :: earlier →
    (∀ id ∈ live, InState s id .invalidated) ∧
      ∀ id ∈ ids, (∀ a, s.active.get? id = some a → LeaseOf s a id fun x => x.invalidated = true) ∧
        ∀ token, .delivered id token ∉ later

-- The turns that a withdrawal can rely on. It is one of the two that touch the reservations, or no reservation of it
-- is live; no start of it is between `ActivateMintAttempt` and the list of active leases; and every lease of it on that
-- list still has a live reservation. A close that gives up a lease before its token was delivered has it revoked.
def Unhindered (c : Config Shared Stage) (turn : Nat × Outcome) : Prop :=
  match c.stage turn.1 with
  | .withdrawing w => ∀ id ∈ covered c.shared.store w,
      (w.invalidates = true ∨ ¬ Live c.shared id) ∧ (∀ u row token, c.stage u ≠ .activated id row token) ∧
        ∀ a, c.shared.active.get? id = some a → Live c.shared id
  | .revokingLease .close _ a _ =>
      turn.2.revoked = true ∨ ∀ x, c.shared.leases.get? a = some x → ¬ x.Deliverable
  | _ => True

-- The stages of a start that has a lease and has not taken its token.
def Stage.holds (id : String) : Stage → Prop
  | .leased id' | .running id' | .published id' => id' = id
  | _ => False

-- Those after `StartCheckout`: nothing but the lease stands between them and the token.
def Stage.ready (id : String) : Stage → Prop
  | .running id' | .published id' => id' = id
  | _ => False

theorem Stage.ready.holds {id : String} {l : Stage} (h : l.ready id) : l.holds id := by
  cases l with
  | running id' | published id' => exact h
  | _ => exact h.elim

theorem At.leaseOf {s : Shared} {t : Nat} {l : Stage} {id : String} (hat : At s t l) (h : l.holds id) :
    LeaseOf s t id fun _ => True := by
  cases l with
  | leased id' | running id' | published id' =>
      cases h
      exact hat
  | _ => exact h.elim

theorem HeldLease.Becomes.deliverable {s' : Shared} {x x' : HeldLease} (h : x.Becomes s' x') (hable : x'.Deliverable) :
    x.Deliverable := by
  refine ⟨?_, ?_, ?_⟩
  · intro hempty
    exact hable.1 (h.emptied hempty)
  · have hdelivered := hable.2.1
    by_contra hnot
    rw [h.delivered (by simpa using hnot)] at hdelivered
    cases hdelivered
  · have hmarked := hable.2.2
    by_contra hnot
    rw [h.invalidated (by simpa using hnot)] at hmarked
    cases hmarked

-- The list of active leases has every lease that can still be delivered.
structure Tracked (c : Config Shared Stage) : Prop where
  active : ∀ id a, c.shared.active.get? id = some a → LeaseOf c.shared a id fun _ => True
  tracked : ∀ u id, (c.stage u).holds id → LeaseOf c.shared u id HeldLease.Deliverable →
    c.shared.active.get? id = some u
  removing : ∀ u id a closed, c.stage u = .removingLease .close id a closed →
    LeaseOf c.shared a id fun x => ¬ x.Deliverable

-- No token of the reservation can be delivered any more: no start of it can get past `StartCheckout`, those that did
-- find their lease unusable, and the list has no unmarked lease of it.
structure Settled (c : Config Shared Stage) (id : String) : Prop where
  barred : ∀ u, (c.stage u).ready id → ¬ LeaseOf c.shared u id HeldLease.Deliverable
  marked : ∀ a, c.shared.active.get? id = some a → LeaseOf c.shared a id fun x => x.invalidated = true

structure Withheld (c : Config Shared Stage) (id : String) : Prop where
  ended : Ended c.shared id
  unactivated : ∀ u row token, c.stage u ≠ .activated id row token

section

variable {c : Config Shared Stage} {turn : Nat × Outcome} {id : String}

theorem Withheld.step (h : Withheld c id) : Withheld (checkoutProcess.step c turn) id := by
  have hturn := turn_of c turn
  refine ⟨h.ended.grows hturn.rows, ?_⟩
  intro u row token hstage
  by_cases hu : u = turn.1
  · subst hu
    rw [step_stage_self] at hstage
    have hentered := hturn.entered
    rw [hstage] at hentered
    exact hentered.2 h.ended
  · rw [step_stage_of_ne hu] at hstage
    exact h.unactivated u row token hstage

-- A lease that can be delivered could be before, unless it has just been made.
theorem deliverable_before (h : Inv c) {a : Nat}
    (hlease : LeaseOf (checkoutProcess.step c turn).shared a id HeldLease.Deliverable) :
    LeaseOf c.shared a id HeldLease.Deliverable ∨ ∃ row token, a = turn.1 ∧ c.stage turn.1 = .activated id row token := by
  obtain ⟨x', hx', hid, hable⟩ := hlease
  obtain ⟨x, hx, hbecomes⟩ | ⟨ha, id', row, token, hstage, rfl⟩ := (turn_of c turn).lease_of (h.known turn.1) hx'
  · exact .inl ⟨x, hx, hbecomes.reservationID.symm.trans hid, hbecomes.deliverable hable⟩
  · cases hid
    exact .inr ⟨row, token, ha, hstage⟩

theorem Settled.step (h : Inv c) (hwithheld : Withheld c id) (hsettled : Settled c id) :
    Settled (checkoutProcess.step c turn) id := by
  have hturn := turn_of c turn
  have hat := h.known turn.1
  constructor
  · intro u hready hlease
    obtain hlease | ⟨row, token, -, hstage⟩ := deliverable_before h hlease
    · by_cases hu : u = turn.1
      · subst hu
        rw [step_stage_self] at hready
        have hentered := hturn.entered
        cases hl' : (checkoutProcess.moved c turn).2 with
        | running id' =>
            rw [hl'] at hready hentered
            cases hready
            obtain ⟨hstage, x, hx, -, hstate⟩ := hentered
            rw [hstage] at hat
            obtain ⟨y, hy, hid, -⟩ := hat
            cases hx.symm.trans hy
            rw [hid] at hstate
            exact hwithheld.ended.not_inState rfl hstate
        | published id' =>
            rw [hl'] at hready hentered
            cases hready
            exact hsettled.barred turn.1 (by rw [hentered]; rfl) hlease
        | _ =>
            rw [hl'] at hready
            exact hready
      · rw [step_stage_of_ne hu] at hready
        exact hsettled.barred u hready hlease
    · exact hwithheld.unactivated turn.1 row token hstage
  · intro a ha
    have hkept : ∀ {b}, c.shared.active.get? id = some b →
        LeaseOf (checkoutProcess.step c turn).shared b id fun x => x.invalidated = true := fun hb =>
      hturn.leaseOf hat (fun x x' hbecomes hx => hbecomes.invalidated hx) (hsettled.marked _ hb)
    rw [step_shared] at ha
    cases hturn.active with
    | same hactive =>
        rw [hactive] at ha
        exact hkept ha
    | added id' row token hstage hactive =>
        rw [hactive] at ha
        obtain ⟨rfl, -⟩ | ha := Table.get?_put_cases ha
        · exact absurd hstage (hwithheld.unactivated turn.1 row token)
        · exact hkept ha
    | removed closer id' b closed hstage hactive =>
        rw [hactive, Table.get?_erase] at ha
        split at ha
        · cases ha
        · exact hkept ha

-- After an unhindered revocation by a close, nothing can be delivered from the lease.
theorem revoked_undeliverable (h : Inv c) (hund : Unhindered c turn) {a : Nat} {consumed : Bool}
    (hstage : c.stage turn.1 = .revokingLease .close id a consumed) :
    LeaseOf (checkoutProcess.step c turn).shared a id fun x => ¬ x.Deliverable := by
  have hat := h.known turn.1
  rw [hstage] at hat
  obtain ⟨-, -, x, hx, hid, -⟩ := hat
  rw [Unhindered, hstage] at hund
  simp only [step_shared, moved, checkoutProcess, hstage, next]
  obtain ⟨hsame, hfailed⟩ | ⟨hsame, hempty⟩ | ⟨y, hy, htoken, hrevoke⟩ := c.shared.revoke_spec turn.2 a
  · rw [hsame]
    obtain hrevoked | hnot := hund
    · rw [hfailed] at hrevoked
      cases hrevoked
    · exact ⟨x, hx, hid, hnot x hx⟩
  · rw [hsame]
    exact ⟨x, hx, hid, fun hable => hable.1 (hempty x hx)⟩
  · cases hx.symm.trans hy
    rw [hrevoke]
    exact ⟨x.emptied, Table.get?_put_self .., hid, fun hable => hable.1 rfl⟩

theorem Tracked.step (h : Inv c) (htracked : Tracked c) (hund : Unhindered c turn) :
    Tracked (checkoutProcess.step c turn) := by
  have hturn := turn_of c turn
  have hat := h.known turn.1
  refine ⟨?_, ?_, ?_⟩
  · intro id a ha
    rw [step_shared] at ha
    cases hturn.active with
    | same hactive =>
        rw [hactive] at ha
        exact hturn.leaseOf_true hat (htracked.active id a ha)
    | added id' row token hstage hactive =>
        rw [hactive] at ha
        obtain ⟨rfl, rfl⟩ | ha := Table.get?_put_cases ha
        · refine ⟨newLease id row token, ?_, rfl, trivial⟩
          simp only [step_shared, moved, checkoutProcess, hstage, next]
          exact Table.get?_put_self ..
        · exact hturn.leaseOf_true hat (htracked.active id a ha)
    | removed closer id' b closed hstage hactive =>
        rw [hactive, Table.get?_erase] at ha
        split at ha
        · cases ha
        · exact hturn.leaseOf_true hat (htracked.active id a ha)
  · intro u id hholds hlease
    rw [step_shared]
    obtain hlease | ⟨row, token, rfl, hstage⟩ := deliverable_before h hlease
    · -- The start that has this lease had it before, and it was on the list.
      have hbefore : (c.stage u).holds id := by
        by_cases hu : u = turn.1
        · subst hu
          rw [step_stage_self] at hholds
          have hentered := hturn.entered
          cases hl' : (checkoutProcess.moved c turn).2 with
          | leased id' =>
              rw [hl'] at hholds hentered
              cases hholds
              obtain ⟨row, token, hstage⟩ := hentered
              rw [hstage] at hat
              obtain ⟨x, hx, -⟩ := hlease
              cases hat.2.2.symm.trans hx
          | running id' =>
              rw [hl'] at hholds hentered
              cases hholds
              rw [hentered.1]
              rfl
          | published id' =>
              rw [hl'] at hholds hentered
              cases hholds
              rw [hentered]
              rfl
          | _ =>
              rw [hl'] at hholds
              exact hholds.elim
        · rw [step_stage_of_ne hu] at hholds
          exact hholds
      have hlisted := htracked.tracked u id hbefore hlease
      obtain ⟨x, hx, hid, hable⟩ := hlease
      have howns : Owns c.shared u (c.stage u) id := .inr ⟨x, hx, hid, trivial⟩
      cases hturn.active with
      | same hactive =>
          rw [hactive]
          exact hlisted
      | added id' row token hstage hactive =>
          rw [hactive, Table.get?_put]
          split
          · rename_i hsame
            rw [h.exclusive u turn.1 id howns (.inl (by rw [hstage, hsame]; rfl))]
          · exact hlisted
      | removed closer id' b closed hstage hactive =>
          rw [hactive, Table.get?_erase]
          split
          · -- Whoever gives up this lease is the start itself, which is past these stages, or a close that emptied it.
            rename_i hsame
            subst hsame
            exfalso
            rw [hstage] at hat
            obtain ⟨hstart, -, y, hy, hidy, -⟩ := hat
            have hub := h.exclusive u b id howns (.inr ⟨y, hy, hidy, trivial⟩)
            subst hub
            cases closer with
            | start =>
                rw [hstart rfl, hstage] at hbefore
                exact hbefore
            | close =>
                obtain ⟨z, hz, -, hnot⟩ := htracked.removing turn.1 id u closed hstage
                cases hx.symm.trans hz
                exact hnot hable
          · exact hlisted
    · simp only [moved, checkoutProcess, hstage, next]
      exact Table.get?_put_self ..
  · intro u id a closed hstage
    have hkept : LeaseOf c.shared a id (fun x => ¬ x.Deliverable) →
        LeaseOf (checkoutProcess.step c turn).shared a id fun x => ¬ x.Deliverable :=
      hturn.leaseOf hat fun x x' hbecomes hx hable => hx (hbecomes.deliverable hable)
    by_cases hu : u = turn.1
    · subst hu
      rw [step_stage_self] at hstage
      have hentered := hturn.entered
      rw [hstage] at hentered
      obtain ⟨consumed, hbefore⟩ := hentered
      exact revoked_undeliverable h hund hbefore
    · rw [step_stage_of_ne hu] at hstage
      exact hkept (htracked.removing u id a closed hstage)

-- What a withdrawal under way has already brought about.
def Watch (c : Config Shared Stage) : Stage → Prop
  | .invalidating ids live pending =>
      (∀ id ∈ live, InState c.shared id .invalidated) ∧
        ∀ id ∈ ids, Withheld c id ∧ (id ∈ pending ∨ Settled c id)
  | .marked ids live pending a =>
      (∀ id ∈ live, InState c.shared id .invalidated) ∧
        ∀ id ∈ ids, Withheld c id ∧ (id ∈ pending ∨ Settled c id ∨ LeaseOf c.shared a id fun _ => True)
  | _ => True

theorem Watch.others (h : Inv c) {l : Stage} (hwatch : Watch c l) : Watch (checkoutProcess.step c turn) l := by
  have hturn := turn_of c turn
  have hinvalidated : ∀ {id}, InState c.shared id .invalidated →
      InState (checkoutProcess.step c turn).shared id .invalidated := fun hs => hs.grows hturn.rows rfl
  cases l with
  | invalidating ids live pending =>
      refine ⟨fun id hid => hinvalidated (hwatch.1 id hid), fun id hid => ?_⟩
      obtain ⟨hwithheld, hsettled⟩ := hwatch.2 id hid
      exact ⟨hwithheld.step, hsettled.imp_right fun hs => hs.step h hwithheld⟩
  | marked ids live pending a =>
      refine ⟨fun id hid => hinvalidated (hwatch.1 id hid), fun id hid => ?_⟩
      obtain ⟨hwithheld, hpending | hsettled | hlease⟩ := hwatch.2 id hid
      · exact ⟨hwithheld.step, .inl hpending⟩
      · exact ⟨hwithheld.step, .inr (.inl (hsettled.step h hwithheld))⟩
      · exact ⟨hwithheld.step, .inr (.inr (hturn.leaseOf_true (h.known turn.1) hlease))⟩
  | _ => trivial

-- A reservation that has no lease on the list has none that could be delivered.
theorem Settled.of_unlisted (htracked : Tracked c) (hnone : c.shared.active.get? id = none) :
    Settled c id := by
  constructor
  · intro u hready hlease
    rw [htracked.tracked u id hready.holds hlease] at hnone
    cases hnone
  · intro a ha
    rw [hnone] at ha
    cases ha

-- Once the one lease of the reservation is marked, it is settled.
theorem Settled.of_marked (h : Inv c) (htracked : Tracked c) {a : Nat}
    (hmarked : LeaseOf c.shared a id fun x => x.invalidated = true) : Settled c id := by
  obtain ⟨x, hx, hid, hinvalidated⟩ := hmarked
  have howns : Owns c.shared a (c.stage a) id := .inr ⟨x, hx, hid, trivial⟩
  constructor
  · rintro u hready ⟨y, hy, hidy, hable⟩
    have hsame := h.exclusive u a id (.inr ⟨y, hy, hidy, trivial⟩) howns
    subst hsame
    cases hx.symm.trans hy
    rw [hable.2.2] at hinvalidated
    cases hinvalidated
  · intro b hb
    have hsame := h.exclusive b a id (.inr (htracked.active id b hb)) howns
    subst hsame
    exact ⟨x, hx, hid, hinvalidated⟩

-- The commit of a withdrawal: what is live is invalidated and listed, and what is not has no lease on the list.
theorem watch_withdrawing (h : Inv c) (htracked : Tracked c) (hund : Unhindered c turn) {w : Withdrawal}
    (hstage : c.stage turn.1 = .withdrawing w) :
    Watch (checkoutProcess.step c turn) (checkoutProcess.moved c turn).2 := by
  have htracked' := htracked.step h hund
  have hturn := turn_of c turn
  rw [Unhindered, hstage] at hund
  cases happly : w.apply c.shared.store with
  | none =>
      simp only [moved, checkoutProcess, hstage, next, happly]
      trivial
  | some applied =>
      obtain ⟨db, pending⟩ := applied
      cases hfault : turn.2.fault with
      | some late =>
          simp only [moved, checkoutProcess, hstage, next, happly, hfault]
          cases late <;> trivial
      | none =>
          have hmoved : checkoutProcess.moved c turn =
              (c.shared.withStore db, .invalidating (covered c.shared.store w) (coveredLive c.shared.store w) pending) := by
            simp only [moved, checkoutProcess, hstage, next, happly, hfault]
          have hstore : (checkoutProcess.step c turn).shared = c.shared.withStore db := by
            rw [step_shared, hmoved]
          -- A covered reservation: live, and then invalidated and listed, or ended before.
          have hrow : ∀ {id row}, c.shared.store.reservations.get? id = some row →
              w.withdraws c.shared.store.authority row.snapshot = true → id ∈ covered c.shared.store w →
              row.state.live = true → id ∈ pending ∧ InState (checkoutProcess.step c turn).shared id .invalidated := by
            intro id row hrow hwithdraws hcovered hlive
            have hinvalidates := (hund id hcovered).1.resolve_right (by simpa using ⟨row, hrow, hlive⟩)
            obtain ⟨hmem, hrow'⟩ := Withdrawal.apply_invalidates happly hinvalidates hrow hwithdraws hlive
            exact ⟨hmem, hstore ▸ ⟨_, hrow', rfl⟩⟩
          rw [hmoved]
          refine ⟨fun id hid => ?_, fun id hid => ?_⟩
          · obtain ⟨⟨k, row⟩, hmem, rfl⟩ := List.mem_map.1 hid
            rw [Table.mem_select, Bool.and_eq_true] at hmem
            obtain ⟨hget, hwithdraws, hlive⟩ := hmem
            refine (hrow hget hwithdraws ?_ hlive).2
            exact List.mem_map_of_mem (f := Prod.fst) ((Table.mem_select _ _ k row).2 ⟨hget, hwithdraws⟩)
          · obtain ⟨⟨k, row⟩, hmem, rfl⟩ := List.mem_map.1 hid
            rw [Table.mem_select] at hmem
            obtain ⟨hget, hwithdraws⟩ := hmem
            obtain ⟨-, hunactivated, hlisted⟩ := hund k hid
            have hunactivated' : ∀ u row token, (checkoutProcess.step c turn).stage u ≠ .activated k row token := by
              intro u row token hu
              by_cases hself : u = turn.1
              · subst hself
                rw [step_stage_self, hmoved] at hu
                cases hu
              · rw [step_stage_of_ne hself] at hu
                exact hunactivated u row token hu
            by_cases hlive : row.state.live = true
            · obtain ⟨hmem, hstate⟩ := hrow hget hwithdraws hid hlive
              exact ⟨⟨hstate.ended rfl, hunactivated'⟩, .inl hmem⟩
            · have hended : Ended c.shared k := ⟨row, hget, by simpa using hlive⟩
              refine ⟨⟨hended.grows hturn.rows, hunactivated'⟩, .inr (.of_unlisted htracked' ?_)⟩
              rw [hstore]
              cases hactive : c.shared.active.get? k with
              | none => exact hactive
              | some a =>
                  obtain ⟨row', hrow', hlive'⟩ := hlisted a hactive
                  cases hget.symm.trans hrow'
                  exact absurd hlive' hlive

theorem watch_invalidating (h : Inv c) (htracked : Tracked c) (hund : Unhindered c turn) {ids live pending : List String}
    (hstage : c.stage turn.1 = .invalidating ids live (id :: pending)) (hwatch : Watch c (c.stage turn.1)) :
    Watch (checkoutProcess.step c turn) (checkoutProcess.moved c turn).2 := by
  have htracked' := htracked.step h hund
  have hwatch' : Watch (checkoutProcess.step c turn) (.invalidating ids live (id :: pending)) := by
    rw [hstage] at hwatch
    exact hwatch.others h
  cases hactive : c.shared.active.get? id with
  | none =>
      have hmoved : checkoutProcess.moved c turn = (c.shared, .invalidating ids live pending) := by
        simp only [moved, checkoutProcess, hstage, next, hactive]
      have hsettled : Settled (checkoutProcess.step c turn) id :=
        .of_unlisted htracked' (by rw [step_shared, hmoved]; exact hactive)
      rw [hmoved]
      refine ⟨hwatch'.1, fun id' hid => ?_⟩
      obtain ⟨hwithheld, hpending | hs⟩ := hwatch'.2 id' hid
      · obtain rfl | hpending := List.mem_cons.1 hpending
        · exact ⟨hwithheld, .inr hsettled⟩
        · exact ⟨hwithheld, .inl hpending⟩
      · exact ⟨hwithheld, .inr hs⟩
  | some a =>
      have hmoved : checkoutProcess.moved c turn = (c.shared, .marked ids live pending a) := by
        simp only [moved, checkoutProcess, hstage, next, hactive]
      have hlease : LeaseOf (checkoutProcess.step c turn).shared a id fun _ => True := by
        rw [step_shared, hmoved]
        exact htracked.active id a hactive
      rw [hmoved]
      refine ⟨hwatch'.1, fun id' hid => ?_⟩
      obtain ⟨hwithheld, hpending | hs⟩ := hwatch'.2 id' hid
      · obtain rfl | hpending := List.mem_cons.1 hpending
        · exact ⟨hwithheld, .inr (.inr hlease)⟩
        · exact ⟨hwithheld, .inl hpending⟩
      · exact ⟨hwithheld, .inr (.inl hs)⟩

theorem watch_marked (h : Inv c) (htracked : Tracked c) (hund : Unhindered c turn) {ids live pending : List String}
    {a : Nat} (hstage : c.stage turn.1 = .marked ids live pending a) (hwatch : Watch c (c.stage turn.1)) :
    Watch (checkoutProcess.step c turn) (checkoutProcess.moved c turn).2 := by
  have htracked' := htracked.step h hund
  have hmoved : checkoutProcess.moved c turn = (c.shared.invalidate a, .invalidating ids live pending) := by
    simp only [moved, checkoutProcess, hstage, next]
  rw [hstage] at hwatch
  have hwatch' : Watch (checkoutProcess.step c turn) (.marked ids live pending a) := hwatch.others h
  rw [hmoved]
  refine ⟨hwatch'.1, fun id' hid => ?_⟩
  obtain ⟨hwithheld, hpending | hs | -⟩ := hwatch'.2 id' hid
  · exact ⟨hwithheld, .inl hpending⟩
  · exact ⟨hwithheld, .inr hs⟩
  · obtain ⟨-, hpending | hs | ⟨x, hx, hidx, -⟩⟩ := hwatch.2 id' hid
    · exact ⟨hwithheld, .inl hpending⟩
    · exact ⟨hwithheld, .inr (hs.step h (hwatch.2 id' hid).1)⟩
    · refine ⟨hwithheld, .inr (.of_marked h.step htracked' (a := a) ?_)⟩
      rw [step_shared, hmoved]
      obtain ⟨hnone, -⟩ | ⟨y, hy, hmark⟩ := c.shared.invalidate_spec a
      · cases hnone.symm.trans hx
      · cases hx.symm.trans hy
        rw [hmark]
        exact ⟨x.marked, Table.get?_put_self .., hidx, rfl⟩

-- The invariant of the runs whose withdrawals are unhindered.
structure Guarded (c : Config Shared Stage) : Prop where
  inv : Inv c
  tracked : Tracked c
  watch : ∀ t, Watch c (c.stage t)
  returned : ∀ ids live, .withdrawn ids live ∈ c.shared.log → (∀ id ∈ live, InState c.shared id .invalidated) ∧
    ∀ id ∈ ids, Withheld c id ∧ Settled c id
  inOrder : ∀ later earlier ids live, c.shared.log = later ++ .withdrawn ids live :: earlier →
    ∀ id ∈ ids, ∀ token, .delivered id token ∉ later

theorem Guarded.step_watch (h : Guarded c) (hund : Unhindered c turn) (t : Nat) :
    Watch (checkoutProcess.step c turn) ((checkoutProcess.step c turn).stage t) := by
  by_cases ht : t = turn.1
  · subst ht
    rw [step_stage_self]
    have hentered := (turn_of c turn).entered
    have hwatch := h.watch turn.1
    cases hl' : (checkoutProcess.moved c turn).2 with
    | invalidating ids live pending =>
        rw [hl'] at hentered
        rw [← hl']
        obtain ⟨w, hstage⟩ | ⟨id, hstage⟩ | ⟨a, hstage⟩ := hentered
        · exact watch_withdrawing h.inv h.tracked hund hstage
        · exact watch_invalidating h.inv h.tracked hund hstage hwatch
        · exact watch_marked h.inv h.tracked hund hstage hwatch
    | marked ids live pending a =>
        rw [hl'] at hentered
        rw [← hl']
        obtain ⟨id, hstage⟩ := hentered
        exact watch_invalidating h.inv h.tracked hund hstage hwatch
    | _ => trivial
  · rw [step_stage_of_ne ht]
    exact (h.watch t).others h.inv

theorem Guarded.step_returned (h : Guarded c) (ids live : List String)
    (hmem : .withdrawn ids live ∈ (checkoutProcess.step c turn).shared.log) :
    (∀ id ∈ live, InState (checkoutProcess.step c turn).shared id .invalidated) ∧
      ∀ id ∈ ids, Withheld (checkoutProcess.step c turn) id ∧ Settled (checkoutProcess.step c turn) id := by
  have hturn := turn_of c turn
  -- It had returned before, or it returns now with nothing left to do.
  have hbefore : (∀ id ∈ live, InState c.shared id .invalidated) ∧ ∀ id ∈ ids, Withheld c id ∧ Settled c id := by
    cases hturn.log with
    | same hlog => exact h.returned ids live (hlog ▸ hmem)
    | withdrawn ids' live' hstage _ hlog =>
        rw [step_shared, hlog, List.mem_cons] at hmem
        obtain hsame | hmem := hmem
        · cases hsame
          have hwatch := h.watch turn.1
          rw [hstage] at hwatch
          refine ⟨hwatch.1, fun id hid => ?_⟩
          obtain ⟨hwithheld, hpending | hsettled⟩ := hwatch.2 id hid
          · cases hpending
          · exact ⟨hwithheld, hsettled⟩
        · exact h.returned ids live hmem
    | minted _ _ _ _ _ hlog | revoked _ hlog | delivered _ _ _ _ hlog | carried _ _ _ _ hlog | closed _ _ _ hlog =>
        rw [step_shared, hlog, List.mem_cons] at hmem
        exact h.returned ids live (hmem.resolve_left (by simp))
  refine ⟨fun id hid => (hbefore.1 id hid).grows hturn.rows rfl, fun id hid => ?_⟩
  obtain ⟨hwithheld, hsettled⟩ := hbefore.2 id hid
  exact ⟨hwithheld.step, hsettled.step h.inv hwithheld⟩

-- A token is delivered only from a lease that nothing bars.
theorem Settled.not_delivered (h : Inv c) (hsettled : Settled c id) {token : String} :
    (checkoutProcess.moved c turn).2 ≠ .delivered id token := by
  intro hl'
  have hentered := (turn_of c turn).entered
  rw [hl'] at hentered
  obtain ⟨hstage, x, hx, hable, -⟩ := hentered
  have hat := h.known turn.1
  rw [hstage] at hat
  obtain ⟨y, hy, hid, -⟩ := hat
  cases hx.symm.trans hy
  exact hsettled.barred turn.1 (by rw [hstage]; rfl) ⟨x, hx, hid, hable⟩

theorem Guarded.step_inOrder (h : Guarded c) (later earlier : List Happening) (ids live : List String)
    (hsplit : (checkoutProcess.step c turn).shared.log = later ++ .withdrawn ids live :: earlier) :
    ∀ id ∈ ids, ∀ token, .delivered id token ∉ later := by
  have hturn := turn_of c turn
  have hcons : ∀ x, x :: c.shared.log = (checkoutProcess.step c turn).shared.log →
      (∀ id token, x = .delivered id token → (checkoutProcess.moved c turn).2 = .delivered id token) →
      ∀ id ∈ ids, ∀ token, .delivered id token ∉ later := by
    intro x hlog hx id hid token hmem
    rw [← hlog] at hsplit
    cases later with
    | nil => cases hmem
    | cons y later =>
        rw [List.cons_append, List.cons.injEq] at hsplit
        obtain ⟨rfl, hsplit⟩ := hsplit
        obtain hsame | hmem := List.mem_cons.1 hmem
        · have hsettled := ((h.returned ids live (by simp [hsplit])).2 id hid).2
          exact hsettled.not_delivered h.inv (hx id token hsame.symm)
        · exact h.inOrder later earlier ids live hsplit id hid token hmem
  cases hturn.log with
  | same hlog =>
      rw [step_shared, hlog] at hsplit
      exact h.inOrder later earlier ids live hsplit
  | delivered id token _ hnext hlog =>
      refine hcons _ hlog.symm ?_
      intro id' token' hsame
      cases hsame
      exact hnext
  | minted _ _ _ _ _ hlog => exact hcons _ hlog.symm (by simp)
  | revoked _ hlog => exact hcons _ hlog.symm (by simp)
  | carried _ _ _ _ hlog => exact hcons _ hlog.symm (by simp)
  | closed _ _ _ hlog => exact hcons _ hlog.symm (by simp)
  | withdrawn _ _ _ _ hlog => exact hcons _ hlog.symm (by simp)

theorem Guarded.step (h : Guarded c) (hund : Unhindered c turn) : Guarded (checkoutProcess.step c turn) where
  inv := h.inv.step
  tracked := h.tracked.step h.inv hund
  watch := h.step_watch hund
  returned := h.step_returned
  inOrder := h.step_inOrder

end

theorem fresh_guarded (db : GitHubDB) : Guarded (fresh db) where
  inv := fresh_inv db
  tracked := ⟨by simp [fresh], fun _ _ hholds => hholds.elim, by simp [fresh]⟩
  watch _ := trivial
  returned := by simp [fresh]
  inOrder := by simp [fresh]

-- In every run whose withdrawals are unhindered: from the moment a withdrawal has returned, every reservation of it that
-- was live is invalidated, every lease of it that the process knows is marked, and no token of it is delivered. None
-- is reserved either before the authority is given again.
theorem withdrawn_authority_stops_tokens (db : GitHubDB) {turns : List (Nat × Outcome)}
    (hallowed : checkoutProcess.Allows Unhindered (fresh db) turns) :
    WithdrawnForGood (checkoutProcess.run (fresh db) turns).shared ∧
      ∀ (w : Withdrawal) (before after : GitHubDB) (ids : List String), w.apply before = some (after, ids) →
        ∀ now id owner project sha after' row, reserveCheckout now after id owner project sha = .ok (after', row) →
          w.withdraws before.authority row.snapshot = false := by
  constructor
  · have hguarded := run_invariant (fun _ _ h => h.step) hallowed (fresh_guarded db)
    intro later earlier ids live hsplit
    obtain ⟨hlive, hids⟩ := hguarded.returned ids live (by simp [hsplit])
    refine ⟨hlive, fun id hid => ⟨(hids id hid).2.marked, ?_⟩⟩
    exact hguarded.inOrder later earlier ids live hsplit id hid
  · intro w before after ids happly now id owner project sha after' row hreserve
    simp only [reserveCheckout, bind_eq_ok, require_eq_ok, found_eq_ok, pure_eq_ok, Prod.mk.injEq] at hreserve
    obtain ⟨_, -, snapshot, hauthorized, _, -, t, -, -, rfl⟩ := hreserve
    exact Withdrawal.apply_unauthorized happly hauthorized

-- With finitely many requests, whether a turn is unhindered can be looked up.
def unhinderedAmong (n : Nat) (c : Config Shared Stage) (turn : Nat × Outcome) : Bool :=
  decide (turn.1 < n) &&
    match c.stage turn.1 with
    | .withdrawing w =>
        w.invalidates && (covered c.shared.store w).all fun id =>
          ((List.range n).all fun u =>
            match c.stage u with
            | .activated id' _ _ => id' != id
            | _ => true) && (c.shared.store.reservations.get? id).any fun row => row.state.live
    | .revokingLease .close _ _ _ => turn.2.revoked
    | _ => true

theorem unhindered_of_among {n : Nat} {c : Config Shared Stage} {turn : Nat × Outcome}
    (hidle : Among n c) (h : unhinderedAmong n c turn = true) :
    Unhindered c turn ∧ Among n (checkoutProcess.step c turn) := by
  rw [unhinderedAmong, Bool.and_eq_true, decide_eq_true_eq] at h
  obtain ⟨hturn, h⟩ := h
  refine ⟨?_, hidle.step hturn⟩
  unfold Unhindered
  split
  · rename_i w hstage
    rw [hstage] at h
    simp only [Bool.and_eq_true, List.all_eq_true, List.mem_range] at h
    intro id hid
    obtain ⟨hother, hlive⟩ := h.2 id hid
    rw [Option.any_eq_true] at hlive
    refine ⟨.inl h.1, fun u row token hu => ?_, fun _ _ => hlive⟩
    by_cases hn : u < n
    · have hne := hother u hn
      rw [hu] at hne
      simp at hne
    · rw [hidle u (by omega)] at hu
      cases hu
  · rename_i hstage
    rw [hstage] at h
    exact .inl h
  · trivial

def withdrawTurns (w : Withdrawal) (steps : Nat) : List (Nat × Outcome) :=
  (3, { arrival := some (.withdraw w true) }) :: List.replicate steps (3, sampleSecond 28)

-- The installation is disabled between `StartCheckout` and the delivery: nothing is delivered.
theorem withdrawn_authority_stops_tokens_disabled :
    (checkoutProcess.run (fresh samplePlane.store) (begunTurns ++ startedTurns ++
        withdrawTurns (.disableInstallation "owner" 7) 4 ++ answeredTurns)).shared.log =
        [.withdrawn ["first"] ["first"], .minted "first" "ghs_token"] ∧
      WithdrawnForGood (checkoutProcess.run (fresh samplePlane.store) (begunTurns ++ startedTurns ++
        withdrawTurns (.disableInstallation "owner" 7) 4 ++ answeredTurns)).shared :=
  ⟨by decide, (withdrawn_authority_stops_tokens samplePlane.store
    (allows_of_checks (fun _ _ => unhindered_of_among (n := 4)) (by decide) fun _ _ => rfl)).1⟩

-- The installation is suspended by its webhook at the same moment: its reservation goes on and the token is delivered.
theorem suspended_installation_delivers :
    ¬ WithdrawnForGood (checkoutProcess.run (fresh samplePlane.store) (begunTurns ++ startedTurns ++
      withdrawTurns (.installationSuspended 7) 2 ++ answeredTurns)).shared := by
  have hlog : (checkoutProcess.run (fresh samplePlane.store) (begunTurns ++ startedTurns ++
      withdrawTurns (.installationSuspended 7) 2 ++ answeredTurns)).shared.log =
      [.carried "first" "ghs_token", .delivered "first" "ghs_token", .withdrawn ["first"] ["first"],
        .minted "first" "ghs_token"] := by
    decide
  intro h
  obtain ⟨-, hids⟩ := h [.carried "first" "ghs_token", .delivered "first" "ghs_token"] [.minted "first" "ghs_token"]
    ["first"] ["first"] hlog
  exact (hids "first" (by simp)).2 "ghs_token" (by simp)

end AutoDeploy.Checkout
