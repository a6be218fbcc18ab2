import AutoDeploy.Queue

namespace AutoDeploy.Docker

-- How a context ends.
inductive ContextError where
  | canceled
  | deadlineExceeded
deriving DecidableEq, Repr

inductive ContainerState where
  | unknown
  | running
  | notRunning
deriving DecidableEq, Repr

structure ContainerStatus where
  state : ContainerState
  exitCode : Int
  oomKilled : Bool
deriving DecidableEq, Repr

inductive HealthGateFailureReason where
  | none
  | deadlineExceeded
  | contextCancelled
  | containerNotRunning
deriving DecidableEq, Repr

structure HealthGateResult where
  success : Bool
  reason : HealthGateFailureReason
  exitCode : Int
  oomKilled : Bool
deriving DecidableEq, Repr

def classifyHealthGateResult (result : HealthGateResult) : Queue.FailureClass :=
  match result.reason with
  | .deadlineExceeded => .permanentConfiguration
  | .contextCancelled => .transient
  | .containerNotRunning => if result.oomKilled then .transient else .permanentConfiguration
  | .none => .corruptState

def HealthGateResult.healthy : HealthGateResult := ⟨true, .none, 0, false⟩

def deadlineResult : ContextError → HealthGateResult
  | .canceled => ⟨false, .contextCancelled, 0, false⟩
  | .deadlineExceeded => ⟨false, .deadlineExceeded, 0, false⟩

def notRunningResult (st : ContainerStatus) : HealthGateResult :=
  ⟨false, .containerNotRunning, st.exitCode, st.oomKilled⟩

-- What one turn of the loop meets: the context whenever it is looked at (`none` while it lasts), the answers of the two
-- functions, and how the wait ends (`none` when the interval has passed).
structure Round (ε : Type) where
  atTop : Option ContextError
  state : Except ε ContainerStatus
  afterState : Option ContextError
  probe : Except ε Bool
  wait : Option ContextError

-- What the loop did, in order.
inductive Event (ε : Type) where
  | observed (answer : Except ε ContainerStatus)
  | probed (answer : Except ε Bool)

variable {ε : Type}

-- The rest of a turn, once the container was seen running.
def probeRound (consecutiveRequired consecutive : Nat) (r : Round ε) :
    List (Event ε) × (Except ε HealthGateResult ⊕ Nat) :=
  match r.probe with
  | .error e => ([.probed r.probe], .inl (.error e))
  | .ok ok =>
      let consecutive := if ok then consecutive + 1 else 0
      if consecutiveRequired ≤ consecutive then ([.probed r.probe], .inl (.ok .healthy))
      else
        match r.wait with
        | some err => ([.probed r.probe], .inl (.ok (deadlineResult err)))
        | none => ([.probed r.probe], .inr consecutive)

-- One turn: it ends the gate, or the loop goes on with a new count.
def gateRound (consecutiveRequired consecutive : Nat) (r : Round ε) :
    List (Event ε) × (Except ε HealthGateResult ⊕ Nat) :=
  match r.atTop with
  | some err => ([], .inl (.ok (deadlineResult err)))
  | none =>
      match r.state with
      | .error e =>
          match r.afterState with
          | some err => ([.observed r.state], .inl (.ok (deadlineResult err)))
          | none => ([.observed r.state], .inl (.error e))
      | .ok st =>
          if st.state ≠ .running then ([.observed r.state], .inl (.ok (notRunningResult st)))
          else
            let (events, next) := probeRound consecutiveRequired consecutive r
            (.observed r.state :: events, next)

-- The loop, for a number of turns: its events, and its outcome if it has ended.
def gateLoop (rounds : Nat → Round ε) (consecutiveRequired : Nat) : Nat → Nat → Nat →
    List (Event ε) × Option (Except ε HealthGateResult)
  | 0, _, _ => ([], none)
  | turns + 1, i, consecutive =>
      match gateRound consecutiveRequired consecutive (rounds i) with
      | (events, .inl outcome) => (events, some outcome)
      | (events, .inr consecutive) =>
          let (later, outcome) := gateLoop rounds consecutiveRequired turns (i + 1) consecutive
          (events ++ later, outcome)

def runHealthGate (rounds : Nat → Round ε) (consecutiveRequired turns : Nat) :
    List (Event ε) × Option (Except ε HealthGateResult) :=
  gateLoop rounds consecutiveRequired turns 0 0

-- The purpose, over the whole history. There are four moments of a turn at which something can end the gate.
inductive Moment where
  | top
  | state
  | probe
  | wait
deriving DecidableEq, Repr

def Moment.rank : Moment → Nat
  | .top => 0
  | .state => 1
  | .probe => 2
  | .wait => 3

def Before (a b : Nat × Moment) : Prop := a.1 < b.1 ∨ a.1 = b.1 ∧ a.2.rank < b.2.rank

-- The ending event at a moment, if there is one, as it is reported: the end of the context, a container that is not
-- running, or an error. An observation that fails after the context has ended counts as the end of the context.
def Round.ending (r : Round ε) : Moment → Option (Except ε HealthGateResult)
  | .top => r.atTop.map fun err => .ok (deadlineResult err)
  | .state =>
      match r.state with
      | .error e =>
          match r.afterState with
          | some err => some (.ok (deadlineResult err))
          | none => some (.error e)
      | .ok st => if st.state = .running then none else some (.ok (notRunningResult st))
  | .probe =>
      match r.probe with
      | .error e => some (.error e)
      | .ok _ => none
  | .wait => r.wait.map fun err => .ok (deadlineResult err)

-- Probe `k` is the last of `n` successful ones in a row.
def Completes (rounds : Nat → Round ε) (n k : Nat) : Prop :=
  n ≤ k + 1 ∧ ∀ j < n, (rounds (k - j)).probe = .ok true

-- The first `n` successes in a row come before any ending event.
def Healthy (rounds : Nat → Round ε) (n : Nat) : Prop :=
  ∃ k, Completes rounds n k ∧ (∀ k' < k, ¬ Completes rounds n k') ∧
    ∀ i m, (Before (i, m) (k, .probe) ∨ (i, m) = (k, .probe)) → (rounds i).ending m = none

-- The first ending event, with no `n` successes in a row before it.
def EndsWith (rounds : Nat → Round ε) (n : Nat) (outcome : Except ε HealthGateResult) : Prop :=
  ∃ i m, (rounds i).ending m = some outcome ∧ (∀ j m', Before (j, m') (i, m) → (rounds j).ending m' = none) ∧
    ∀ k, Before (k, .probe) (i, m) → ¬ Completes rounds n k

-- The successes in a row before a turn.
def streak (rounds : Nat → Round ε) : Nat → Nat
  | 0 => 0
  | i + 1 =>
      match (rounds i).probe with
      | .ok true => streak rounds i + 1
      | _ => 0

theorem le_streak_iff (rounds : Nat → Round ε) (n i : Nat) :
    n ≤ streak rounds i ↔ n ≤ i ∧ ∀ j < n, (rounds (i - 1 - j)).probe = .ok true := by
  induction i generalizing n with
  | zero =>
      constructor
      · intro h
        have hzero : n = 0 := Nat.le_zero.1 h
        exact ⟨h, fun j hj => absurd hj (by omega)⟩
      · exact fun h => h.1
  | succ i ih =>
      cases n with
      | zero => exact ⟨fun _ => ⟨by omega, fun j hj => absurd hj (by omega)⟩, fun _ => Nat.zero_le _⟩
      | succ n =>
          -- the last of the probes is that of turn `i`, the others are those before it
          have hsplit : (∀ j < n + 1, (rounds (i + 1 - 1 - j)).probe = .ok true) ↔
              (rounds i).probe = .ok true ∧ ∀ j < n, (rounds (i - 1 - j)).probe = .ok true := by
            constructor
            · intro h
              refine ⟨h 0 (by omega), fun j hj => ?_⟩
              have := h (j + 1) (by omega)
              rwa [show i + 1 - 1 - (j + 1) = i - 1 - j by omega] at this
            · rintro ⟨hlast, hothers⟩ j hj
              cases j with
              | zero => exact hlast
              | succ j =>
                  rw [show i + 1 - 1 - (j + 1) = i - 1 - j by omega]
                  exact hothers j (by omega)
          rw [hsplit]
          by_cases hlast : (rounds i).probe = .ok true
          · have hstreak : streak rounds (i + 1) = streak rounds i + 1 := by
              rw [streak, hlast]
            rw [hstreak]
            constructor
            · intro h
              obtain ⟨hle, hothers⟩ := (ih n).1 (by omega)
              exact ⟨by omega, hlast, hothers⟩
            · rintro ⟨hle, -, hothers⟩
              have := (ih n).2 ⟨by omega, hothers⟩
              omega
          · have hstreak : streak rounds (i + 1) = 0 := by
              rw [streak]
              split
              · exact absurd ‹_› hlast
              · rfl
            rw [hstreak]
            constructor
            · intro h
              omega
            · rintro ⟨-, h, -⟩
              exact absurd h hlast

theorem completes_iff (rounds : Nat → Round ε) (n k : Nat) :
    Completes rounds n k ↔ n ≤ streak rounds (k + 1) := by
  rw [le_streak_iff]
  rfl

-- What a turn comes to when every turn before it went on.
def verdict (rounds : Nat → Round ε) (n i : Nat) : Option (Except ε HealthGateResult) :=
  ((rounds i).ending .top).or (((rounds i).ending .state).or (((rounds i).ending .probe).or
    ((if n ≤ streak rounds (i + 1) then some (.ok .healthy) else none).or ((rounds i).ending .wait))))

theorem gateRound_verdict (rounds : Nat → Round ε) (n i : Nat) :
    (gateRound n (streak rounds i) (rounds i)).2 =
      match verdict rounds n i with
      | some outcome => .inl outcome
      | none => .inr (streak rounds (i + 1)) := by
  have hstreak (b : Bool) (hb : (rounds i).probe = .ok b) :
      streak rounds (i + 1) = if b then streak rounds i + 1 else 0 := by
    rw [streak, hb]
    cases b <;> rfl
  unfold gateRound verdict Round.ending
  cases htop : (rounds i).atTop with
  | some err => rfl
  | none =>
      cases hstate : (rounds i).state with
      | error e =>
          cases (rounds i).afterState <;> rfl
      | ok st =>
          by_cases hrunning : st.state = .running
          · simp only [hrunning, ne_eq, not_true_eq_false, if_false, if_true, probeRound]
            cases hprobe : (rounds i).probe with
            | error e => rfl
            | ok b =>
                rw [hstreak b hprobe]
                by_cases hdone : n ≤ if b then streak rounds i + 1 else 0
                · simp [hdone]
                · cases hwait : (rounds i).wait <;> simp [hdone]
          · simp [hrunning]

theorem gateLoop_eq_some (rounds : Nat → Round ε) (n turns i : Nat) (outcome : Except ε HealthGateResult) :
    (gateLoop rounds n turns i (streak rounds i)).2 = some outcome ↔
      ∃ k, i ≤ k ∧ k < i + turns ∧ verdict rounds n k = some outcome ∧
        ∀ j, i ≤ j → j < k → verdict rounds n j = none := by
  induction turns generalizing i with
  | zero =>
      constructor
      · intro h
        cases h
      · rintro ⟨k, hle, hlt, -⟩
        omega
  | succ turns ih =>
      have hround := gateRound_verdict rounds n i
      rw [gateLoop]
      cases hcase : gateRound n (streak rounds i) (rounds i) with
      | mk events next =>
          rw [hcase] at hround
          cases hverdict : verdict rounds n i with
          | some first =>
              rw [hverdict] at hround
              obtain rfl : next = .inl first := hround
              constructor
              · intro h
                obtain rfl : first = outcome := Option.some.inj h
                exact ⟨i, le_refl i, by omega, hverdict, fun j hle hlt => absurd hlt (by omega)⟩
              · rintro ⟨k, hle, -, hk, hbefore⟩
                have hhere : k = i := by
                  by_contra hne
                  have := hbefore i (le_refl i) (by omega)
                  rw [hverdict] at this
                  cases this
                rw [hhere, hverdict] at hk
                exact hk
          | none =>
              rw [hverdict] at hround
              obtain rfl : next = .inr (streak rounds (i + 1)) := hround
              show (gateLoop rounds n turns (i + 1) (streak rounds (i + 1))).2 = some outcome ↔ _
              rw [ih]
              constructor
              · rintro ⟨k, hle, hlt, hk, hbefore⟩
                refine ⟨k, by omega, by omega, hk, fun j hj hjk => ?_⟩
                by_cases hji : j = i
                · rw [hji, hverdict]
                · exact hbefore j (by omega) hjk
              · rintro ⟨k, hle, hlt, hk, hbefore⟩
                have hlater : k ≠ i := by
                  rintro rfl
                  rw [hverdict] at hk
                  cases hk
                exact ⟨k, by omega, by omega, hk, fun j hj hjk => hbefore j (by omega) hjk⟩

theorem verdict_eq_none (rounds : Nat → Round ε) (n k : Nat) :
    verdict rounds n k = none ↔ (∀ m, (rounds k).ending m = none) ∧ ¬ Completes rounds n k := by
  rw [completes_iff]
  unfold verdict
  simp only [Option.or_eq_none_iff, ite_eq_right_iff, reduceCtorEq, imp_false]
  constructor
  · rintro ⟨htop, hstate, hprobe, hdone, hwait⟩
    refine ⟨fun m => ?_, hdone⟩
    cases m <;> assumption
  · rintro ⟨hnone, hdone⟩
    exact ⟨hnone _, hnone _, hnone _, hdone, hnone _⟩

-- A turn ends at its first ending event, or at its probe when that completes the count.
theorem verdict_eq_some (rounds : Nat → Round ε) (n k : Nat) (outcome : Except ε HealthGateResult) :
    verdict rounds n k = some outcome ↔
      (outcome = .ok .healthy ∧ Completes rounds n k ∧ ∀ m, m.rank ≤ 2 → (rounds k).ending m = none) ∨
        ∃ m, (rounds k).ending m = some outcome ∧ (∀ m', m'.rank < m.rank → (rounds k).ending m' = none) ∧
          (2 < m.rank → ¬ Completes rounds n k) := by
  rw [completes_iff]
  unfold verdict
  simp only [Option.or_eq_some_iff]
  constructor
  · rintro (h | ⟨htop, h | ⟨hstate, h | ⟨hprobe, h | ⟨hdone, h⟩⟩⟩⟩)
    · refine .inr ⟨.top, h, fun m hm => ?_, fun hm => ?_⟩
      · cases m <;> simp [Moment.rank] at hm
      · simp [Moment.rank] at hm
    · refine .inr ⟨.state, h, fun m hm => ?_, fun hm => ?_⟩
      · cases m <;> simp [Moment.rank] at hm
        exact htop
      · simp [Moment.rank] at hm
    · refine .inr ⟨.probe, h, fun m hm => ?_, fun hm => ?_⟩
      · cases m <;> simp [Moment.rank] at hm
        · exact htop
        · exact hstate
      · simp [Moment.rank] at hm
    · by_cases hdone : n ≤ streak rounds (k + 1)
      · rw [if_pos hdone, Option.some.injEq] at h
        refine .inl ⟨h.symm, hdone, fun m hm => ?_⟩
        cases m with
        | top => exact htop
        | state => exact hstate
        | probe => exact hprobe
        | wait => simp [Moment.rank] at hm
      · rw [if_neg hdone] at h
        cases h
    · have hcount : ¬ n ≤ streak rounds (k + 1) := by
        intro hle
        rw [if_pos hle] at hdone
        cases hdone
      refine .inr ⟨.wait, h, fun m hm => ?_, fun _ => hcount⟩
      cases m with
      | top => exact htop
      | state => exact hstate
      | probe => exact hprobe
      | wait => simp [Moment.rank] at hm
  · rintro (⟨rfl, hdone, hnone⟩ | ⟨m, h, hbefore, hcount⟩)
    · exact .inr ⟨hnone .top (by decide), .inr ⟨hnone .state (by decide), .inr ⟨hnone .probe (by decide),
        .inl (if_pos hdone)⟩⟩⟩
    · cases m with
      | top => exact .inl h
      | state => exact .inr ⟨hbefore .top (by decide), .inl h⟩
      | probe => exact .inr ⟨hbefore .top (by decide), .inr ⟨hbefore .state (by decide), .inl h⟩⟩
      | wait =>
          exact .inr ⟨hbefore .top (by decide), .inr ⟨hbefore .state (by decide), .inr ⟨hbefore .probe (by decide),
            .inr ⟨if_neg (hcount (by decide)), h⟩⟩⟩⟩

-- The turns before `k` went on.
theorem before_turn (rounds : Nat → Round ε) (n k : Nat) :
    (∀ j < k, verdict rounds n j = none) ↔
      (∀ j < k, ∀ m, (rounds j).ending m = none) ∧ ∀ j < k, ¬ Completes rounds n j := by
  simp only [verdict_eq_none]
  exact ⟨fun h => ⟨fun j hj => (h j hj).1, fun j hj => (h j hj).2⟩, fun h j hj => ⟨h.1 j hj, h.2 j hj⟩⟩

-- What the loop reports.
theorem reports_iff (rounds : Nat → Round ε) (n : Nat) (outcome : Except ε HealthGateResult) :
    (∃ turns, (runHealthGate rounds n turns).2 = some outcome) ↔
      (outcome = .ok .healthy ∧ Healthy rounds n) ∨ EndsWith rounds n outcome := by
  have hloop : (∃ turns, (runHealthGate rounds n turns).2 = some outcome) ↔
      ∃ k, verdict rounds n k = some outcome ∧ ∀ j < k, verdict rounds n j = none := by
    constructor
    · rintro ⟨turns, h⟩
      obtain ⟨k, -, -, hk, hbefore⟩ := (gateLoop_eq_some rounds n turns 0 outcome).1 h
      exact ⟨k, hk, fun j hj => hbefore j (Nat.zero_le j) hj⟩
    · rintro ⟨k, hk, hbefore⟩
      exact ⟨k + 1, (gateLoop_eq_some rounds n (k + 1) 0 outcome).2
        ⟨k, Nat.zero_le k, by omega, hk, fun j _ hj => hbefore j hj⟩⟩
  rw [hloop]
  constructor
  · rintro ⟨k, hk, hbefore⟩
    obtain ⟨hquiet, hshort⟩ := (before_turn rounds n k).1 hbefore
    rcases (verdict_eq_some rounds n k outcome).1 hk with ⟨rfl, hdone, hnone⟩ | ⟨m, hending, hfirst, hcount⟩
    · refine .inl ⟨rfl, k, hdone, hshort, fun i m hm => ?_⟩
      rcases hm with (hlt | ⟨rfl, hrank⟩) | heq
      · exact hquiet i hlt m
      · exact hnone m (Nat.le_of_lt hrank)
      · obtain ⟨rfl, rfl⟩ := Prod.mk.inj heq
        exact hnone .probe (by decide)
    · refine .inr ⟨k, m, hending, fun j m' hj => ?_, fun j hj => ?_⟩
      · rcases hj with hlt | ⟨rfl, hrank⟩
        · exact hquiet j hlt m'
        · exact hfirst m' hrank
      · rcases hj with hlt | ⟨rfl, hrank⟩
        · exact hshort j hlt
        · exact hcount hrank
  · rintro (⟨rfl, k, hdone, hshort, hnone⟩ | ⟨k, m, hending, hfirst, hcount⟩)
    · refine ⟨k, (verdict_eq_some rounds n k _).2 (.inl ⟨rfl, hdone, fun m hm => ?_⟩),
        (before_turn rounds n k).2 ⟨fun j hj m => hnone j m (.inl (.inl hj)), hshort⟩⟩
      have htop : Moment.top.rank < Moment.probe.rank := by decide
      have hstate : Moment.state.rank < Moment.probe.rank := by decide
      cases m with
      | top => exact hnone k .top (.inl (.inr ⟨rfl, htop⟩))
      | state => exact hnone k .state (.inl (.inr ⟨rfl, hstate⟩))
      | probe => exact hnone k .probe (.inr rfl)
      | wait => exact absurd hm (by decide)
    · exact ⟨k, (verdict_eq_some rounds n k _).2 (.inr ⟨m, hending, fun m' hm => hfirst k m' (.inr ⟨rfl, hm⟩),
        fun hm => hcount k (.inr ⟨rfl, hm⟩)⟩),
        (before_turn rounds n k).2 ⟨fun j hj m' => hfirst j m' (.inl hj), fun j hj => hcount j (.inl hj)⟩⟩

-- An ending event that is not an error is a failure for a reason.
theorem ending_result {r : Round ε} {m : Moment} {result : HealthGateResult} (h : r.ending m = some (.ok result)) :
    (∃ err, result = deadlineResult err) ∨ ∃ st, result = notRunningResult st := by
  cases m with
  | top =>
      obtain ⟨err, -, herr⟩ := Option.map_eq_some_iff.1 h
      exact .inl ⟨err, (Except.ok.inj herr).symm⟩
  | state =>
      unfold Round.ending at h
      cases hstate : r.state with
      | error e =>
          rw [hstate] at h
          cases hafter : r.afterState with
          | none =>
              rw [hafter] at h
              cases h
          | some err =>
              rw [hafter] at h
              exact .inl ⟨err, (Except.ok.inj (Option.some.inj h)).symm⟩
      | ok st =>
          rw [hstate] at h
          by_cases hrunning : st.state = .running
          · simp [hrunning] at h
          · simp only [hrunning, if_false] at h
            exact .inr ⟨st, (Except.ok.inj (Option.some.inj h)).symm⟩
  | probe =>
      unfold Round.ending at h
      cases hprobe : r.probe with
      | error e =>
          rw [hprobe] at h
          cases h
      | ok b =>
          rw [hprobe] at h
          cases h
  | wait =>
      obtain ⟨err, -, herr⟩ := Option.map_eq_some_iff.1 h
      exact .inl ⟨err, (Except.ok.inj herr).symm⟩

theorem ending_unhealthy {r : Round ε} {m : Moment} {result : HealthGateResult}
    (h : r.ending m = some (.ok result)) : result.success = false := by
  rcases ending_result h with ⟨err, rfl⟩ | ⟨st, rfl⟩
  · cases err <;> rfl
  · rfl

theorem ending_reason {r : Round ε} {m : Moment} {result : HealthGateResult}
    (h : r.ending m = some (.ok result)) : result.reason ≠ .none := by
  rcases ending_result h with ⟨err, rfl⟩ | ⟨st, rfl⟩
  · cases err <;> decide
  · exact HealthGateFailureReason.noConfusion

theorem EndsWith.not_healthy {rounds : Nat → Round ε} {n : Nat} {outcome : Except ε HealthGateResult}
    (h : EndsWith rounds n outcome) : ¬ Healthy rounds n := by
  rintro ⟨k, hdone, -, hnone⟩
  obtain ⟨i, m, hending, -, hcount⟩ := h
  by_cases hbefore : Before (k, .probe) (i, m)
  · exact hcount k hbefore hdone
  · -- otherwise the ending event is not after the last of the successful probes
    have hearly : Before (i, m) (k, .probe) ∨ (i, m) = (k, .probe) := by
      unfold Before at hbefore ⊢
      by_cases hlt : i < k
      · exact .inl (.inl hlt)
      · have heq : i = k := by
          by_contra hne
          exact hbefore (.inl (by omega))
        cases m with
        | top => exact .inl (.inr ⟨heq, show Moment.top.rank < Moment.probe.rank by decide⟩)
        | state => exact .inl (.inr ⟨heq, show Moment.state.rank < Moment.probe.rank by decide⟩)
        | probe => exact .inr (by rw [heq])
        | wait => exact absurd (.inr ⟨heq.symm, show Moment.probe.rank < Moment.wait.rank by decide⟩) hbefore
    rw [hnone i m hearly] at hending
    cases hending

-- Every probe comes right after the container was seen running.
def Guarded (events : List (Event ε)) : Prop :=
  ∀ before answer after, events = before ++ .probed answer :: after →
    ∃ earlier st, before = earlier ++ [.observed (.ok st)] ∧ st.state = .running

theorem Guarded.append {xs ys : List (Event ε)} (hx : Guarded xs) (hy : Guarded ys) : Guarded (xs ++ ys) := by
  intro before answer after h
  rcases List.append_eq_append_iff.1 h with ⟨between, hbefore, hys⟩ | ⟨between, hxs, hafter⟩
  · obtain ⟨earlier, st, hbetween, hrunning⟩ := hy between answer after hys
    exact ⟨xs ++ earlier, st, by rw [hbefore, hbetween, List.append_assoc], hrunning⟩
  · cases between with
    | nil =>
        obtain ⟨earlier, st, hnil, -⟩ := hy [] answer after hafter.symm
        exact absurd hnil (by simp)
    | cons event between =>
        obtain ⟨rfl, -⟩ := List.cons.inj hafter
        exact hx before answer between hxs

theorem guarded_nil : Guarded ([] : List (Event ε)) := by
  intro before answer after h
  exact absurd h (by simp)

theorem guarded_observed (answer : Except ε ContainerStatus) : Guarded [.observed answer] := by
  intro before answer after h
  cases before with
  | nil => cases h
  | cons event before => exact absurd (List.cons.inj h).2 (by simp)

theorem guarded_probed {st : ContainerStatus} (hrunning : st.state = .running) (answer : Except ε Bool) :
    Guarded [.observed (.ok st), .probed answer] := by
  intro before answer after h
  cases before with
  | nil => cases h
  | cons first before =>
      obtain ⟨rfl, hrest⟩ := List.cons.inj h
      cases before with
      | nil => exact ⟨[], st, rfl, hrunning⟩
      | cons event before => exact absurd (List.cons.inj hrest).2 (by simp)

theorem gateRound_guarded (n consecutive : Nat) (r : Round ε) : Guarded (gateRound n consecutive r).1 := by
  unfold gateRound
  cases r.atTop with
  | some err => exact guarded_nil
  | none =>
      cases hstate : r.state with
      | error e => cases r.afterState <;> exact guarded_observed _
      | ok st =>
          by_cases hrunning : st.state = .running
          · have hprobed : (probeRound n consecutive r).1 = [.probed r.probe] := by
              unfold probeRound
              cases r.probe with
              | error e => rfl
              | ok b =>
                  by_cases hdone : n ≤ if b then consecutive + 1 else 0
                  · simp [hdone]
                  · cases r.wait <;> simp [hdone]
            simp only [hrunning, ne_eq, not_true_eq_false, if_false, hprobed]
            exact guarded_probed hrunning _
          · simp only [hrunning, ne_eq, not_false_eq_true, if_true]
            exact guarded_observed _

theorem gateLoop_guarded (rounds : Nat → Round ε) (n turns i consecutive : Nat) :
    Guarded (gateLoop rounds n turns i consecutive).1 := by
  induction turns generalizing i consecutive with
  | zero => exact guarded_nil
  | succ turns ih =>
      have hround := gateRound_guarded n consecutive (rounds i)
      rw [gateLoop]
      cases hcase : gateRound n consecutive (rounds i) with
      | mk events next =>
          rw [hcase] at hround
          cases next with
          | inl outcome => exact hround
          | inr consecutive => exact hround.append (ih (i + 1) consecutive)

structure GateExact (rounds : Nat → Round ε) (n : Nat) : Prop where
  success : (∃ turns result, (runHealthGate rounds n turns).2 = some (.ok result) ∧ result.success = true) ↔
    Healthy rounds n
  outcomes : ∀ outcome, (∃ turns, (runHealthGate rounds n turns).2 = some outcome) ↔
    (Healthy rounds n ∧ outcome = .ok .healthy) ∨ (¬ Healthy rounds n ∧ EndsWith rounds n outcome)
  probes : ∀ turns, Guarded (runHealthGate rounds n turns).1

theorem health_gate_exact (rounds : Nat → Round ε) (n : Nat) : GateExact rounds n := by
  refine ⟨?_, fun outcome => ?_, fun turns => gateLoop_guarded rounds n turns 0 0⟩
  · constructor
    · rintro ⟨turns, result, hreport, hsuccess⟩
      rcases (reports_iff rounds n _).1 ⟨turns, hreport⟩ with ⟨-, hhealthy⟩ | ⟨i, m, hending, -⟩
      · exact hhealthy
      · rw [ending_unhealthy hending] at hsuccess
        cases hsuccess
    · intro hhealthy
      obtain ⟨turns, hreport⟩ := (reports_iff rounds n _).2 (.inl ⟨rfl, hhealthy⟩)
      exact ⟨turns, .healthy, hreport, rfl⟩
  · rw [reports_iff]
    constructor
    · rintro (⟨houtcome, hhealthy⟩ | hends)
      · exact .inl ⟨hhealthy, houtcome⟩
      · exact .inr ⟨hends.not_healthy, hends⟩
    · rintro (⟨hhealthy, houtcome⟩ | ⟨-, hends⟩)
      · exact .inl ⟨houtcome, hhealthy⟩
      · exact .inr hends

-- A gate that ended without an error is retried exactly when its context was cancelled or the container was killed for
-- want of memory, and its failure is never taken for corrupt state.
theorem classify_ended {rounds : Nat → Round ε} {n turns : Nat} {result : HealthGateResult}
    (h : (runHealthGate rounds n turns).2 = some (.ok result)) (hfailed : result.success = false) :
    classifyHealthGateResult result ≠ .corruptState ∧ ((classifyHealthGateResult result).retryable = true ↔
      result.reason = .contextCancelled ∨ result.reason = .containerNotRunning ∧ result.oomKilled = true) := by
  have hreason : result.reason ≠ .none := by
    rcases (reports_iff rounds n _).1 ⟨turns, h⟩ with ⟨houtcome, -⟩ | ⟨i, m, hending, -⟩
    · cases houtcome
      cases hfailed
    · exact ending_reason hending
  unfold classifyHealthGateResult
  cases hcase : result.reason with
  | none => exact absurd hcase hreason
  | deadlineExceeded => cases result.oomKilled <;> decide
  | contextCancelled => cases result.oomKilled <;> decide
  | containerNotRunning => cases result.oomKilled <;> decide

end AutoDeploy.Docker
