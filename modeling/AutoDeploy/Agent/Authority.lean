import AutoDeploy.Agent.Client
import AutoDeploy.Agent.LeaseLoop

namespace AutoDeploy.Agent

open Lib

-- A successful answer to a claim or a renewal gives authority for a while, counted from its arrival. The wire carries
-- the absolute deadline; the client parses it and nothing reads it.
structure RenewResult where
  authority : Nat
  cancelRequested : Bool
deriving DecidableEq, Repr

-- `runLease` from the claim's answer on, with the agent's monotonic clock and the context given to `Execute`.
structure LeaseRun where
  loop : LeaseLoop
  contextCancelled : Bool
  now : Nat
  respondedAt : Nat
  authority : Nat
deriving DecidableEq, Repr

def LeaseRun.start (authority : Nat) : LeaseRun := ⟨.start, false, 0, 0, authority⟩

inductive LeaseEvent where
  | wait (duration : Nat)
  | tick
  | renewed (answer : Except ClientError RenewResult)
  | outcome
  | contextDone
  | drained

-- What the loop does with the answer of `Renew`: everything but a stale lease is retried at the next tick.
def LeaseRun.answered (s : LeaseRun) : Except ClientError RenewResult → LeaseRun
  | .ok result =>
      { s with
        loop := { s.loop with
          cancelled := s.loop.cancelled || result.cancelRequested
          waiting := none
          acknowledged := s.loop.sequence }
        contextCancelled := s.contextCancelled || result.cancelRequested
        respondedAt := s.now
        authority := result.authority }
  | .error .staleLease =>
      { s with loop := { s.loop with waiting := none, returned := true }, contextCancelled := true }
  | .error _ => { s with loop := s.loop.lost }

-- The loop takes the outcome or the next tick only between two renewals. A parent context that ends cancels the one
-- given to `Execute` at once, also during a renewal.
def LeaseRun.next (s : LeaseRun) : LeaseEvent → Option LeaseRun
  | .wait duration => some { s with now := s.now + duration }
  | .tick => if s.loop.waiting = none ∧ s.loop.returned = false then some { s with loop := s.loop.tick } else none
  | .renewed answer => if s.loop.waiting.isSome then some (s.answered answer) else none
  | .outcome =>
      if s.loop.waiting = none ∧ s.loop.returned = false then
        some { s with loop := { s.loop with returned := true }, contextCancelled := true }
      else none
  | .contextDone => some { s with contextCancelled := true }
  | .drained =>
      if s.loop.waiting = none ∧ s.contextCancelled = true then
        some { s with loop := { s.loop with returned := true } }
      else none

def LeaseRun.run (s : LeaseRun) : List LeaseEvent → Option LeaseRun
  | [] => some s
  | e :: events => (s.next e).bind fun s' => s'.run events

-- The context is cancelled, or the authority last received still lasts.
def LeaseRun.InAuthority (s : LeaseRun) : Prop := s.contextCancelled = true ∨ s.now ≤ s.respondedAt + s.authority

-- Along a schedule, the authority last received runs out before anything else ends the work: `elapsed` is the time since
-- the answer that gave it. An answer of another kind, or none, makes no difference.
def overdue : Nat → Nat → List LeaseEvent → Bool
  | _, _, [] => false
  | elapsed, authority, .wait duration :: rest =>
      decide (authority < elapsed + duration) || overdue (elapsed + duration) authority rest
  | elapsed, authority, .tick :: rest => overdue elapsed authority rest
  | _, _, .renewed (.ok result) :: rest => if result.cancelRequested then false else overdue 0 result.authority rest
  | elapsed, authority, .renewed (.error e) :: rest =>
      if e = .staleLease then false else overdue elapsed authority rest
  | _, _, .outcome :: _ => false
  | _, _, .contextDone :: _ => false
  | elapsed, authority, .drained :: rest => overdue elapsed authority rest

section

variable {s s' : LeaseRun} {events : List LeaseEvent}

-- A cancelled context stays so.
theorem next_cancelled {e : LeaseEvent} (h : s.next e = some s') (hcancelled : s.contextCancelled = true) :
    s'.contextCancelled = true := by
  cases e with
  | wait duration =>
      cases h
      exact hcancelled
  | contextDone =>
      cases h
      rfl
  | renewed answer =>
      simp only [LeaseRun.next] at h
      split_ifs at h
      cases h
      cases answer with
      | ok result => simp [LeaseRun.answered, hcancelled]
      | error e => cases e <;> simp [LeaseRun.answered, hcancelled]
  | tick | outcome | drained =>
      simp only [LeaseRun.next] at h
      split_ifs at h
      cases h
      simp [hcancelled]

theorem run_cancelled (h : s.run events = some s') (hcancelled : s.contextCancelled = true) : s'.InAuthority := by
  induction events generalizing s with
  | nil =>
      cases h
      exact .inl hcancelled
  | cons e events ih =>
      obtain ⟨s₁, hnext, hrest⟩ := Option.bind_eq_some_iff.1 h
      exact ih hrest (next_cancelled hnext hcancelled)

-- In authority all along a schedule: now, and along the rest.
def LeaseRun.StaysInAuthority (s : LeaseRun) (events : List LeaseEvent) : Prop :=
  ∀ before s', before <+: events → s.run before = some s' → s'.InAuthority

theorem staysInAuthority_cons {e : LeaseEvent} {s₁ : LeaseRun} (hnext : s.next e = some s₁) :
    s.StaysInAuthority (e :: events) ↔ s.InAuthority ∧ s₁.StaysInAuthority events := by
  constructor
  · intro h
    refine ⟨h [] s List.nil_prefix rfl, ?_⟩
    intro before s' hbefore hrun
    refine h (e :: before) s' ((List.prefix_cons_inj e).2 hbefore) ?_
    simp [LeaseRun.run, hnext, hrun]
  · rintro ⟨hnow, hrest⟩ before s' hbefore hrun
    cases before with
    | nil =>
        cases hrun
        exact hnow
    | cons first before =>
        obtain ⟨rfl, htail⟩ := List.cons_prefix_cons.1 hbefore
        simp only [LeaseRun.run, hnext, Option.bind_some] at hrun
        exact hrest before s' htail hrun

theorem staysInAuthority_of_cancelled (hcancelled : s.contextCancelled = true) : s.StaysInAuthority events :=
  fun _ _ _ hrun => run_cancelled hrun hcancelled

-- The work stays within its authority exactly on the schedules that are never overdue.
theorem staysInAuthority_iff (hrun : s.run events = some s') (hlive : s.contextCancelled = false)
    (hclock : s.respondedAt ≤ s.now) (hnow : s.now ≤ s.respondedAt + s.authority) :
    s.StaysInAuthority events ↔ overdue (s.now - s.respondedAt) s.authority events = false := by
  induction events generalizing s with
  | nil =>
      simp only [overdue, iff_true]
      rintro before s' hbefore hbeforeRun
      rw [List.prefix_nil.1 hbefore] at hbeforeRun
      cases hbeforeRun
      exact .inr hnow
  | cons e events ih =>
      obtain ⟨s₁, hnext, hrest⟩ := Option.bind_eq_some_iff.1 hrun
      have hin : s.InAuthority := .inr hnow
      rw [staysInAuthority_cons hnext, and_iff_right hin]
      cases e with
      | wait duration =>
          cases hnext
          have helapsed : s.now + duration - s.respondedAt = s.now - s.respondedAt + duration := by omega
          by_cases hlate : s.authority < s.now - s.respondedAt + duration
          · -- the authority runs out during the wait
            simp only [overdue, hlate, decide_true, Bool.true_or, Bool.true_eq_false, iff_false]
            intro hstays
            obtain hcancelled | hdeadline := hstays [] _ List.nil_prefix rfl
            · exact absurd (hlive.symm.trans hcancelled) (by decide)
            · simp only at hdeadline
              omega
          · rw [ih hrest hlive (by simp only; omega) (by simp only; omega)]
            simp [overdue, hlate, helapsed]
      | tick =>
          simp only [LeaseRun.next] at hnext
          split_ifs at hnext
          cases hnext
          exact ih hrest hlive hclock hnow
      | drained =>
          simp only [LeaseRun.next] at hnext
          split_ifs at hnext with hdrained
          rw [hlive] at hdrained
          cases hdrained.2
      | contextDone =>
          cases hnext
          simp only [overdue, iff_true]
          exact staysInAuthority_of_cancelled rfl
      | outcome =>
          simp only [LeaseRun.next] at hnext
          split_ifs at hnext
          cases hnext
          simp only [overdue, iff_true]
          exact staysInAuthority_of_cancelled rfl
      | renewed answer =>
          simp only [LeaseRun.next] at hnext
          split_ifs at hnext
          cases hnext
          cases answer with
          | ok result =>
              cases hcancel : result.cancelRequested with
              | true =>
                  simp only [overdue, hcancel, if_true, iff_true]
                  exact staysInAuthority_of_cancelled (by simp [LeaseRun.answered, hcancel])
              | false =>
                  rw [ih hrest (by simp [LeaseRun.answered, hlive, hcancel]) (by simp [LeaseRun.answered])
                    (by simp [LeaseRun.answered])]
                  simp [overdue, hcancel, LeaseRun.answered]
          | error e =>
              by_cases hstale : e = .staleLease
              · subst hstale
                simp only [overdue, if_true, iff_true]
                exact staysInAuthority_of_cancelled rfl
              · have hlost : s.answered (.error e) = { s with loop := s.loop.lost } := by
                  cases e <;> first | rfl | exact absurd rfl hstale
                rw [hlost] at hrest ⊢
                rw [ih hrest hlive hclock hnow]
                simp [overdue, hstale]

end

-- Over every run of the lease loop: the context given to `Execute` is cancelled by the end of the authority last
-- received exactly when that authority never runs out before another answer or another end of the work.
theorem lease_stops_in_authority_iff {authority : Nat} {events : List LeaseEvent} {s : LeaseRun}
    (hrun : (LeaseRun.start authority).run events = some s) :
    (∀ before s', before <+: events → (LeaseRun.start authority).run before = some s' → s'.InAuthority) ↔
      overdue 0 authority events = false :=
  staysInAuthority_iff hrun rfl (le_refl 0) (Nat.zero_le _)

-- Every renewal from the first on is lost, and the work goes on.
def silentEvents : List LeaseEvent :=
  [.wait 30, .tick, .renewed (.error .transportFailure), .wait 30, .tick, .renewed (.error .unauthorized), .wait 31]

theorem lease_outlives_authority :
    ¬ ∀ (authority : Nat) (events : List LeaseEvent) (s : LeaseRun),
      (LeaseRun.start authority).run events = some s → s.InAuthority := by
  intro hclaim
  have hrun : ((LeaseRun.start 90).run silentEvents).any (fun s => !s.contextCancelled && decide (s.now = 91) &&
      decide (s.respondedAt + s.authority = 90)) = true := by decide
  obtain ⟨s, hs, hsample⟩ := (Option.any_eq_true _ _).1 hrun
  simp only [Bool.and_eq_true, Bool.not_eq_true', decide_eq_true_eq] at hsample
  obtain ⟨⟨hlive, hnow⟩, hdeadline⟩ := hsample
  obtain hcancelled | hin := hclaim 90 silentEvents s hs
  · rw [hlive] at hcancelled
    cases hcancelled
  · omega

theorem lease_stops_in_authority_iff_stale :
    ∃ s, (LeaseRun.start 90).run [.wait 30, .tick, .renewed (.ok ⟨90, false⟩), .wait 60, .tick,
      .renewed (.error .staleLease), .wait 500] = some s ∧ s.InAuthority := by
  have hrun : ((LeaseRun.start 90).run [.wait 30, .tick, .renewed (.ok ⟨90, false⟩), .wait 60, .tick,
      .renewed (.error .staleLease), .wait 500]).isSome = true := by decide
  obtain ⟨s, hs⟩ := Option.isSome_iff_exists.1 hrun
  exact ⟨s, hs, (lease_stops_in_authority_iff hs).2 (by decide) _ s (List.prefix_refl _) hs⟩

end AutoDeploy.Agent
