import AutoDeploy.Agent.Client

namespace AutoDeploy.Agent

-- What becomes of one attempt of a call. The control plane does its work unless the request is lost or refused with a
-- 503 on the way; `expired` says that the context of the call ended before another answer came.
inductive Fate where
  | requestLost
  | responseLost
  | unavailable
  | expired (served : Bool)
  | delivered
deriving DecidableEq, Repr

def Fate.reaches : Fate → Bool
  | .responseLost | .delivered => true
  | .expired served => served
  | _ => false

-- One fate for each attempt that `post` may make.
structure Fates where
  list : List Fate
  complete : list.length = maxRetries
deriving DecidableEq, Repr

section

variable {σ α : Type}

-- `serve` is the control plane: what the attempt returns when its response is read whole, and the state it leaves.
def attempt (serve : σ → Except ClientError α × σ) (s : σ) : Fate → Except ClientError α × σ
  | .requestLost => (.error .transportFailure, s)
  | .responseLost => (.error .transportFailure, (serve s).2)
  | .unavailable => (.error .serviceUnavailable, s)
  | .expired served => (.error .cancelled, if served then (serve s).2 else s)
  | .delivered => serve s

def postAll (serve : σ → Except ClientError α × σ) : List Fate → σ → Except ClientError α × σ
  | [], s => (.error .transportFailure, s)
  | fate :: fates, s =>
      match attempt serve s fate with
      | (.ok a, s') => (.ok a, s')
      | (.error e, s') => if e.retried = true ∧ fates ≠ [] then postAll serve fates s' else (.error e, s')

def post (serve : σ → Except ClientError α × σ) (fates : Fates) (s : σ) : Except ClientError α × σ :=
  postAll serve fates.list s

variable {serve : σ → Except ClientError α × σ}

-- What every attempt can return, the call can.
theorem postAll_rule {P : Except ClientError α → Prop} {I : σ → Prop} (hlost : P (.error .transportFailure))
    (hstep : ∀ s fate, I s → P (attempt serve s fate).1 ∧ I (attempt serve s fate).2) (fates : List Fate) {s : σ}
    (hs : I s) : P (postAll serve fates s).1 ∧ I (postAll serve fates s).2 := by
  induction fates generalizing s with
  | nil => exact ⟨hlost, hs⟩
  | cons fate fates ih =>
      obtain ⟨hresult, hstate⟩ := hstep s fate hs
      rw [postAll]
      split
      · rename_i a s' hattempt
        rw [hattempt] at hresult hstate
        exact ⟨hresult, hstate⟩
      · rename_i e s' hattempt
        rw [hattempt] at hresult hstate
        split
        · exact ih hstate
        · exact ⟨hresult, hstate⟩

-- Where every answer is the same success, one that is delivered decides the call.
theorem postAll_of_served {a : α} (hserve : ∀ s, (serve s).1 = .ok a) {fates : List Fate} (hdelivered : .delivered ∈ fates)
    (hlive : ∀ served, .expired served ∉ fates) (s : σ) : (postAll serve fates s).1 = .ok a := by
  induction fates generalizing s with
  | nil => cases hdelivered
  | cons fate fates ih =>
      have hrest : ∀ served, .expired served ∉ fates := fun served h => hlive served (List.mem_cons_of_mem _ h)
      have hretry (hne : fate ≠ .delivered) : .delivered ∈ fates ∧ fates ≠ [] := by
        obtain h | h := List.mem_cons.1 hdelivered
        · exact absurd h.symm hne
        · exact ⟨h, List.ne_nil_of_mem h⟩
      cases fate with
      | delivered =>
          have hok := hserve s
          rw [postAll, attempt]
          split
          · rename_i a' s' hanswer
            rw [hanswer] at hok
            exact hok
          · rename_i e s' hanswer
            rw [hanswer] at hok
            cases hok
      | expired served => exact absurd List.mem_cons_self (hlive served)
      | requestLost | responseLost | unavailable =>
          obtain ⟨hmem, hne⟩ := hretry (by decide)
          rw [postAll, attempt]
          simp only [ClientError.retried, true_and, ne_eq, hne, not_false_eq_true, if_true]
          exact ih hmem hrest _

end

end AutoDeploy.Agent
