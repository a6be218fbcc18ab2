import AutoDeploy.Checkout.Tokens

namespace AutoDeploy.Checkout

open Lib Lib.Result Lib.Threads

-- What a close request that answered success promises, and when it can keep the promise.

-- Nothing of the reservation is under way and every token of it is taken back.
structure Shut (c : Config Shared Stage) (id : String) : Prop where
  ended : Ended c.shared id
  attempts : ∀ u, ¬ (c.stage u).attempts id
  taken : ∀ u token, c.stage u ≠ .delivered id token
  emptied : ∀ a x, c.shared.leases.get? a = some x → x.reservationID = id → x.token = ""
  revoked : ∀ token, .minted id token ∈ c.shared.log → .revoked token ∈ c.shared.log

-- No response carries a token of the reservation once it was closed, and what was minted for it is revoked.
def ClosedForGood (log : List Happening) (id : String) : Prop :=
  ∀ later earlier, log = later ++ .closed id :: earlier →
    (∀ token, .carried id token ∉ later) ∧ ∀ token, .minted id token ∈ log → .revoked token ∈ log

-- The turns that a close can rely on. The answer of the provider to a mint arrives; a token that turns out to be of no
-- use is revoked; and when a close marks its reservation, no start has taken the token from its lease without having
-- answered, and if the close saw no lease, no start is between its mint attempt and its lease, nor does any lease
-- of the reservation hold a token.
def Undisturbed (c : Config Shared Stage) (turn : Nat × Outcome) : Prop :=
  match c.stage turn.1 with
  | .minting _ _ => turn.2.token ≠ "" → turn.2.handed = true
  | .discarding _ _ => turn.2.revoked = true
  | .marking id seen =>
      (∀ u token, c.stage u ≠ .delivered id token) ∧
        (seen = none → (∀ u, ¬ (c.stage u).attempts id) ∧
          ∀ a x, c.shared.leases.get? a = some x → x.reservationID = id → x.token = "")
  | _ => True

-- Every token is revoked, known to the one request that is at work with it, or in its lease.
def TokensKnown (c : Config Shared Stage) : Prop :=
  ∀ id token, .minted id token ∈ c.shared.log → .revoked token ∈ c.shared.log ∨
    (∃ u, (c.stage u).carries id token) ∨ ∃ a, LeaseOf c.shared a id fun x => x.token = token

-- Whose reservation is closed, or is about to be reported closed.
def Reported (c : Config Shared Stage) (id : String) : Prop :=
  .closed id ∈ c.shared.log ∨ (∃ u, c.stage u = .closed id) ∨ c.shared.registry.Closed id

section

variable {c : Config Shared Stage} {turn : Nat × Outcome} {id : String}

-- What is shut stays shut, whatever the requests do.
theorem Shut.step (h : Inv c) (hshut : Shut c id) : Shut (checkoutProcess.step c turn) id := by
  have hturn := turn_of c turn
  have hat := h.known turn.1
  have hidle := hshut.attempts turn.1
  refine ⟨hshut.ended.grows hturn.rows, ?_, ?_, ?_, ?_⟩
  · intro u hattempts
    by_cases hu : u = turn.1
    · subst hu
      rw [step_stage_self] at hattempts
      obtain ⟨row, hminting⟩ | ⟨token, hcarries⟩ := hattempts.cases
      · exact (hturn.begins hminting).2 hshut.ended
      · obtain hcarries | ⟨-, row, hstage⟩ := hturn.carries hcarries
        · exact hidle hcarries.attempts
        · exact hidle (by rw [hstage]; rfl)
    · rw [step_stage_of_ne hu] at hattempts
      exact hshut.attempts u hattempts
  · intro u token hstage
    by_cases hu : u = turn.1
    · subst hu
      rw [step_stage_self] at hstage
      have hentered := hturn.entered
      rw [hstage] at hentered
      obtain ⟨hpublished, x, hx, hable, -⟩ := hentered
      rw [hpublished] at hat
      obtain ⟨y, hy, hid, -⟩ := hat
      cases hx.symm.trans hy
      exact hable.1 (hshut.emptied turn.1 x hx hid)
    · rw [step_stage_of_ne hu] at hstage
      exact hshut.taken u token hstage
  · intro a x' hx' hid
    obtain ⟨x, hx, hbecomes⟩ | ⟨-, id', row, token, hstage, rfl⟩ := hturn.lease_of hat hx'
    · exact hbecomes.emptied (hshut.emptied a x hx (hbecomes.reservationID.symm.trans hid))
    · refine absurd ?_ hidle
      rw [hstage]
      exact hid
  · intro token hmem
    obtain hmem | ⟨-, row, hstage⟩ := hturn.mem_minted hmem
    · exact hturn.log_mem (hshut.revoked token hmem)
    · exact absurd (by rw [hstage]; rfl) hidle

-- An undisturbed close has shut its reservation when it marks it.
theorem shut_of_marking (h : Inv c) (hknown : TokensKnown c) {t : Nat} {seen : Option Nat} {o : Outcome}
    (hstage : c.stage t = .marking id seen) (hund : Undisturbed c (t, o)) : Shut c id := by
  have hat := h.known t
  rw [hstage] at hat
  rw [Undisturbed, hstage] at hund
  obtain ⟨htaken, hunseen⟩ := hund
  -- The lease the close revoked is the only one of the reservation, and nobody else has the mint attempt.
  have hquiet : (∀ u, ¬ (c.stage u).attempts id) ∧
      ∀ a x, c.shared.leases.get? a = some x → x.reservationID = id → x.token = "" := by
    cases seen with
    | none => exact hunseen rfl
    | some a =>
        obtain ⟨y, hy, hid, htoken⟩ := hat.2 a rfl
        constructor
        · intro u hattempts
          have hsame := h.exclusive u a id (.inl hattempts) (.inr ⟨y, hy, hid, trivial⟩)
          subst hsame
          have hu := h.known u
          obtain ⟨row, hminting⟩ | ⟨token, hcarries⟩ := hattempts.cases
          · rw [hminting] at hu
            cases hu.2.symm.trans hy
          · cases hstage' : c.stage u with
            | minted _ _ _ | activated _ _ _ | discarding _ _ =>
                rw [hstage'] at hu
                cases hu.2.2.symm.trans hy
            | _ =>
                rw [hstage'] at hcarries
                exact hcarries
        · intro b x hx hidx
          have hsame := h.exclusive b a id (.inr ⟨x, hx, hidx, trivial⟩) (.inr ⟨y, hy, hid, trivial⟩)
          subst hsame
          cases hx.symm.trans hy
          exact htoken
  refine ⟨hat.1.ended rfl, hquiet.1, htaken, hquiet.2, ?_⟩
  intro token hmem
  obtain hrevoked | ⟨u, hcarries⟩ | ⟨a, x, hx, hid, htoken⟩ := hknown id token hmem
  · exact hrevoked
  · exact absurd hcarries.attempts (hquiet.1 u)
  · rw [hquiet.2 a x hx hid] at htoken
    exact absurd htoken.symm (h.ledger.minted id token hmem).1

-- A token that one request knows: the request still knows it, has put it into its lease, or has had it revoked.
theorem carries_step (hund : Undisturbed c turn) {token : String} (h : (c.stage turn.1).carries id token) :
    .revoked token ∈ (checkoutProcess.moved c turn).1.log ∨ (checkoutProcess.moved c turn).2.carries id token ∨
      LeaseOf (checkoutProcess.moved c turn).1 turn.1 id fun x => x.token = token := by
  cases hstage : c.stage turn.1 with
  | minted id' row token' =>
      rw [hstage] at h
      obtain ⟨rfl, rfl⟩ := h
      simp only [moved, checkoutProcess, hstage, next]
      split
      · exact .inr (.inl ⟨rfl, rfl⟩)
      · exact .inr (.inl ⟨rfl, rfl⟩)
  | activated id' row token' =>
      rw [hstage] at h
      obtain ⟨rfl, rfl⟩ := h
      simp only [moved, checkoutProcess, hstage, next]
      exact .inr (.inr ⟨newLease id' row token', Table.get?_put_self .., rfl, rfl⟩)
  | discarding id' token' =>
      rw [hstage] at h
      obtain ⟨rfl, rfl⟩ := h
      rw [Undisturbed, hstage] at hund
      simp only [moved, checkoutProcess, hstage, next, Shared.revokeToken]
      rw [if_pos hund]
      exact .inl List.mem_cons_self
  | _ =>
      rw [hstage] at h
      exact h.elim

theorem TokensKnown.step (h : Inv c) (hknown : TokensKnown c) (hund : Undisturbed c turn) :
    TokensKnown (checkoutProcess.step c turn) := by
  have hturn := turn_of c turn
  have hown : ∀ {id token}, (checkoutProcess.moved c turn).2.carries id token →
      ∃ u, ((checkoutProcess.step c turn).stage u).carries id token := by
    intro id token hcarries
    exact ⟨turn.1, by rw [step_stage_self]; exact hcarries⟩
  intro id token hmem
  obtain hmem | ⟨htoken, row, hstage⟩ := hturn.mem_minted hmem
  · obtain hrevoked | ⟨u, hcarries⟩ | ⟨a, x, hx, hid, rfl⟩ := hknown id token hmem
    · exact .inl (hturn.log_mem hrevoked)
    · by_cases hu : u = turn.1
      · subst hu
        obtain hrevoked | hcarries | hlease := carries_step hund hcarries
        · exact .inl hrevoked
        · exact .inr (.inl (hown hcarries))
        · exact .inr (.inr ⟨turn.1, hlease⟩)
      · exact .inr (.inl ⟨u, by rw [step_stage_of_ne hu]; exact hcarries⟩)
    · obtain ⟨x', hx', hbecomes⟩ := hturn.lease_becomes (h.known turn.1) hx
      obtain hsame | ⟨-, hrevoked⟩ := hbecomes.token
      · exact .inr (.inr ⟨a, x', hx', hbecomes.reservationID.trans hid, hsame⟩)
      · exact .inl hrevoked
  · cases hturn.log with
    | minted id' row' hstage' htoken' hnext hlog =>
        rw [Undisturbed, hstage'] at hund
        rw [step_shared, hlog, List.mem_cons] at hmem
        cases hstage.symm.trans hstage'
        obtain hsame | hmem := hmem
        · cases hsame
          exact .inr (.inl (hown (hnext (hund htoken'))))
        · exact absurd hmem (h.unminted turn.1 id row hstage token)
    | same hlog => exact absurd (hlog ▸ hmem) (h.unminted turn.1 id row hstage token)
    | revoked _ hlog =>
        rw [step_shared, hlog, List.mem_cons] at hmem
        exact absurd (hmem.resolve_left (by simp)) (h.unminted turn.1 id row hstage token)
    | delivered _ _ hstage' | carried _ _ hstage' | closed _ hstage' | withdrawn _ _ hstage' =>
        rw [hstage] at hstage'
        cases hstage'

-- Nothing is newly reported closed but what a close has just marked.
theorem reported_step (hreported : Reported (checkoutProcess.step c turn) id) :
    Reported c id ∨ ∃ seen, c.stage turn.1 = .marking id seen := by
  have hturn := turn_of c turn
  obtain hmem | ⟨u, hu⟩ | hentry := hreported
  · cases hturn.log with
    | same hlog => exact .inl (.inl (hlog ▸ hmem))
    | closed id' hstage _ hlog =>
        rw [step_shared, hlog, List.mem_cons] at hmem
        obtain hsame | hmem := hmem
        · cases hsame
          exact .inl (.inr (.inl ⟨turn.1, hstage⟩))
        · exact .inl (.inl hmem)
    | minted _ _ _ _ _ hlog | revoked _ hlog | delivered _ _ _ _ hlog | carried _ _ _ _ hlog | withdrawn _ _ _ _ hlog =>
        rw [step_shared, hlog, List.mem_cons] at hmem
        exact .inl (.inl (hmem.resolve_left (by simp)))
  · by_cases hself : u = turn.1
    · subst hself
      rw [step_stage_self] at hu
      have hentered := hturn.entered
      rw [hu] at hentered
      exact hentered.imp_left fun hentry => .inr (.inr hentry)
    · rw [step_stage_of_ne hself] at hu
      exact .inl (.inr (.inl ⟨u, hu⟩))
  · exact (hturn.closedEntry id hentry).imp_left fun hentry => .inr (.inr hentry)

-- No token is carried after a close has answered.
def InOrder (c : Config Shared Stage) : Prop :=
  ∀ id later earlier, c.shared.log = later ++ .closed id :: earlier → ∀ token, .carried id token ∉ later

theorem InOrder.step (horder : InOrder c) (hshut : ∀ id, Reported c id → Shut c id) :
    InOrder (checkoutProcess.step c turn) := by
  have hturn := turn_of c turn
  -- At most one thing is seen in a turn, and a token is carried only by a request that is about to answer.
  have hcons : ∀ x, x :: c.shared.log = (checkoutProcess.step c turn).shared.log →
      (∀ id token, x = .carried id token → c.stage turn.1 = .delivered id token) →
      InOrder (checkoutProcess.step c turn) := by
    intro x hlog hx id later earlier hsplit token hmem
    rw [← hlog] at hsplit
    cases later with
    | nil => cases hmem
    | cons y later =>
        rw [List.cons_append, List.cons.injEq] at hsplit
        obtain ⟨rfl, hsplit⟩ := hsplit
        obtain hsame | hmem := List.mem_cons.1 hmem
        · have hreported : Reported c id := .inl (by simp [hsplit])
          exact (hshut id hreported).taken turn.1 token (hx id token hsame.symm)
        · exact horder id later earlier hsplit token hmem
  cases hturn.log with
  | same hlog =>
      intro id later earlier hsplit
      rw [step_shared, hlog] at hsplit
      exact horder id later earlier hsplit
  | carried id token hstage _ hlog =>
      refine hcons _ hlog.symm ?_
      intro id' token' hsame
      cases hsame
      exact hstage
  | minted _ _ _ _ _ hlog => exact hcons _ hlog.symm (by simp)
  | revoked _ hlog => exact hcons _ hlog.symm (by simp)
  | delivered _ _ _ _ hlog => exact hcons _ hlog.symm (by simp)
  | closed _ _ _ hlog => exact hcons _ hlog.symm (by simp)
  | withdrawn _ _ _ _ hlog => exact hcons _ hlog.symm (by simp)

-- The invariant of the runs whose closes are undisturbed.
structure Kept (c : Config Shared Stage) : Prop where
  inv : Inv c
  tokens : TokensKnown c
  shut : ∀ id, Reported c id → Shut c id
  inOrder : InOrder c

theorem Kept.step (h : Kept c) (hund : Undisturbed c turn) : Kept (checkoutProcess.step c turn) := by
  refine ⟨h.inv.step, h.tokens.step h.inv hund, ?_, h.inOrder.step h.shut⟩
  intro id hreported
  obtain hreported | ⟨seen, hstage⟩ := reported_step hreported
  · exact (h.shut id hreported).step h.inv
  · exact (shut_of_marking h.inv h.tokens hstage hund).step h.inv

end

theorem fresh_kept (db : GitHubDB) : Kept (fresh db) where
  inv := fresh_inv db
  tokens := by simp [TokensKnown, fresh]
  shut := by
    rintro id (hmem | ⟨u, hu⟩ | ⟨e, he, -⟩)
    · cases hmem
    · cases hu
    · cases he
  inOrder := by simp [InOrder, fresh]

-- Whatever the requests of one process do, in whatever order and with whatever failures: at most one token is minted
-- for a reservation and at most one response carries one. When its closes are undisturbed, a close that answered is
-- the end of it: no later response carries a token, and every token of the reservation is revoked.
theorem one_usable_token (db : GitHubDB) (turns : List (Nat × Outcome)) (id : String) :
    (checkoutProcess.run (fresh db) turns).shared.log.countP (Happening.mints id) ≤ 1 ∧
      (checkoutProcess.run (fresh db) turns).shared.log.countP (Happening.carries id) ≤ 1 ∧
      (checkoutProcess.Allows Undisturbed (fresh db) turns →
        ClosedForGood (checkoutProcess.run (fresh db) turns).shared.log id) := by
  have hinv := run_inv db turns
  refine ⟨hinv.oneMint id, hinv.oneCarried id, fun hallowed => ?_⟩
  have hkept := run_invariant (fun _ _ h => h.step) hallowed (fresh_kept db)
  intro later earlier hsplit
  have hshut := hkept.shut id (.inl (by simp [hsplit]))
  exact ⟨hkept.inOrder id later earlier hsplit, hshut.revoked⟩

-- With finitely many requests, whether a turn is undisturbed can be looked up.
def undisturbedAmong (n : Nat) (c : Config Shared Stage) (turn : Nat × Outcome) : Bool :=
  decide (turn.1 < n) &&
    match c.stage turn.1 with
    | .minting _ _ => turn.2.token == "" || turn.2.handed
    | .discarding _ _ => turn.2.revoked
    | .marking id seen =>
        seen.isSome && (List.range n).all fun u =>
          match c.stage u with
          | .delivered id' _ => id' != id
          | _ => true
    | _ => true

-- The requests that ever came in are among the first `n`.
def Among (n : Nat) (c : Config Shared Stage) : Prop := ∀ u, n ≤ u → c.stage u = .idle

theorem Among.step {n : Nat} {c : Config Shared Stage} {turn : Nat × Outcome} (h : Among n c) (hturn : turn.1 < n) :
    Among n (checkoutProcess.step c turn) := by
  intro u hu
  rw [step_stage_of_ne (by omega)]
  exact h u hu

theorem undisturbed_of_among {n : Nat} {c : Config Shared Stage} {turn : Nat × Outcome}
    (hidle : Among n c) (h : undisturbedAmong n c turn = true) :
    Undisturbed c turn ∧ Among n (checkoutProcess.step c turn) := by
  rw [undisturbedAmong, Bool.and_eq_true, decide_eq_true_eq] at h
  obtain ⟨hturn, h⟩ := h
  refine ⟨?_, hidle.step hturn⟩
  unfold Undisturbed
  split
  · rename_i hstage
    rw [hstage] at h
    simp only [Bool.or_eq_true, beq_iff_eq] at h
    exact fun htoken => h.resolve_left htoken
  · rename_i hstage
    rw [hstage] at h
    exact h
  · rename_i id seen hstage
    rw [hstage] at h
    simp only [Bool.and_eq_true, List.all_eq_true, List.mem_range] at h
    refine ⟨fun u token hu => ?_, fun hnone => by simp [hnone] at h⟩
    by_cases hn : u < n
    · have hall := h.2 u hn
      rw [hu] at hall
      simp at hall
    · rw [hidle u (by omega)] at hu
      cases hu
  · trivial

def sampleSecond (n : Nat) : Outcome := { now := n * 10 ^ 6 }

-- The reservation is made and registered.
def begunTurns : List (Nat × Outcome) :=
  [(0, { arrival := some (.begin sampleCaller (some sampleJob)) }), (0, { sampleSecond 10 with id := "first" }),
    (0, sampleSecond 11)]

-- A start up to the commit of `StartCheckout`.
def startedTurns : List (Nat × Outcome) :=
  [(1, { arrival := some (.start "first" sampleCaller true) }), (1, sampleSecond 20), (1, sampleSecond 21),
    (1, { sampleSecond 22 with token := "ghs_token" }), (1, sampleSecond 23), (1, sampleSecond 24), (1, sampleSecond 25)]

-- The rest of it: the lease is published, the token is taken from it and the response is written.
def answeredTurns : List (Nat × Outcome) := [(1, sampleSecond 30), (1, sampleSecond 31), (1, sampleSecond 32)]

def closeTurns (steps : Nat) : List (Nat × Outcome) :=
  (2, { arrival := some (.close "first" sampleCaller true) }) :: List.replicate steps (2, sampleSecond 27)

theorem one_usable_token_closed :
    Happening.closed "first" ∈
        (checkoutProcess.run (fresh samplePlane.store) (begunTurns ++ startedTurns ++ answeredTurns ++ closeTurns 6)).shared.log ∧
      ClosedForGood
        (checkoutProcess.run (fresh samplePlane.store) (begunTurns ++ startedTurns ++ answeredTurns ++ closeTurns 6)).shared.log
        "first" :=
  ⟨by decide, (one_usable_token samplePlane.store _ "first").2.2
    (allows_of_checks (fun _ _ => undisturbed_of_among (n := 3)) (by decide) fun _ _ => rfl)⟩

-- A close whose look at the registry falls between `StartCheckout` and the publication of the lease: it answers that
-- all is closed, and the token goes out afterwards and is never revoked.
theorem close_misses_start :
    ¬ ClosedForGood
      (checkoutProcess.run (fresh samplePlane.store) (begunTurns ++ startedTurns ++ closeTurns 4 ++ answeredTurns)).shared.log
      "first" := by
  have hlog :
      (checkoutProcess.run (fresh samplePlane.store) (begunTurns ++ startedTurns ++ closeTurns 4 ++ answeredTurns)).shared.log =
        [.carried "first" "ghs_token", .delivered "first" "ghs_token", .closed "first", .minted "first" "ghs_token"] := by
    decide
  intro h
  rw [hlog] at h
  obtain ⟨-, hrevoked⟩ := h [.carried "first" "ghs_token", .delivered "first" "ghs_token"]
    [.minted "first" "ghs_token"] rfl
  simpa using hrevoked "ghs_token"

end AutoDeploy.Checkout
