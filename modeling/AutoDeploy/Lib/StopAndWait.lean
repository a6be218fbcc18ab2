import AutoDeploy.Lib.Runs

namespace AutoDeploy.Lib

-- Stop and wait over a network that loses, delays and repeats requests. The sender repeats the number after the last
-- acknowledged one until it is acknowledged; the receiver acts on the number after the last accepted one only.
structure Link where
  acknowledged : Nat
  sent : List Nat
  accepted : Nat
  applied : List Nat
deriving DecidableEq, Repr

namespace Link

inductive Step (l : Link) : Link → Prop
  | send : Step l { l with sent := l.sent ++ [l.acknowledged + 1] }
  | apply (hsent : l.accepted + 1 ∈ l.sent) :
      Step l { l with accepted := l.accepted + 1, applied := l.applied ++ [l.accepted + 1] }
  | confirm (haccepted : l.acknowledged + 1 ≤ l.accepted) : Step l { l with acknowledged := l.acknowledged + 1 }

def start : Link := ⟨0, [], 0, []⟩

def system : System Link where
  initial l := l = start
  next l l' := l' = l ∨ l.Step l'

-- Nothing beyond the next number was ever sent, the two ends differ by at most one, and the receiver has acted on
-- each number up to the accepted one exactly once.
structure Synchronous (l : Link) : Prop where
  sent : ∀ n ∈ l.sent, n ≤ l.acknowledged + 1
  accepted : l.accepted = l.acknowledged ∨ l.accepted = l.acknowledged + 1
  applied : l.applied = List.range' 1 l.accepted

variable {l l' : Link}

theorem Synchronous.step (h : l.Synchronous) (hstep : l.Step l') : l'.Synchronous := by
  have hends := h.accepted
  cases hstep with
  | send =>
      refine ⟨fun n hn => ?_, hends, h.applied⟩
      rcases List.mem_append.1 hn with hold | hnew
      · exact h.sent n hold
      · exact Nat.le_of_eq (List.mem_singleton.1 hnew)
  | apply hsent =>
      have hbound := h.sent _ hsent
      refine ⟨h.sent, ?_, ?_⟩
      · show l.accepted + 1 = l.acknowledged ∨ l.accepted + 1 = l.acknowledged + 1
        omega
      · show l.applied ++ [l.accepted + 1] = List.range' 1 (l.accepted + 1)
        rw [h.applied, List.range'_concat, Nat.one_mul, Nat.add_comm 1]
  | confirm haccepted =>
      refine ⟨fun n hn => ?_, ?_, h.applied⟩
      · exact Nat.le_succ_of_le (h.sent n hn)
      · show l.accepted = l.acknowledged + 1 ∨ l.accepted = l.acknowledged + 1 + 1
        omega

theorem synchronous_of_reachable (h : system.Reachable l) : l.Synchronous := by
  refine h.invariant (P := Synchronous) ?_ ?_
  · rintro l rfl
    exact ⟨by simp [start], .inl rfl, rfl⟩
  · rintro l l' h (rfl | hstep)
    · exact h
    · exact h.step hstep

-- The receiver never refuses the number the sender is at.
theorem Synchronous.expected (h : l.Synchronous) :
    l.acknowledged + 1 = l.accepted ∨ l.acknowledged + 1 = l.accepted + 1 := by
  have hends := h.accepted
  omega

theorem Synchronous.applied_once (h : l.Synchronous) : l.applied.Nodup := by
  rw [h.applied]
  exact List.nodup_range'

end Link

end AutoDeploy.Lib
