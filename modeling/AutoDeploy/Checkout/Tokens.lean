import AutoDeploy.Checkout.Turns
import Mathlib.Data.List.Count

namespace AutoDeploy.Checkout

open Lib Lib.Result Lib.Threads

-- One reservation, one token: whoever takes the mint attempt of a reservation is the only one ever to hold a lease
-- of it.

def Owns (s : Shared) (t : Nat) (l : Stage) (id : String) : Prop := l.attempts id ∨ LeaseOf s t id fun _ => True

def Happening.mints (id : String) : Happening → Bool
  | .minted id' _ => id' == id
  | _ => false

def Happening.carries (id : String) : Happening → Bool
  | .carried id' _ => id' == id
  | _ => false

theorem Stage.carries.attempts {id token : String} {l : Stage} (h : l.carries id token) : l.attempts id := by
  cases l with
  | minted id' row token' | activated id' row token' | discarding id' token' => exact h.1
  | _ => exact h.elim

theorem Stage.attempts.cases {id : String} {l : Stage} (h : l.attempts id) :
    (∃ row, l = .minting id row) ∨ ∃ token, l.carries id token := by
  cases l with
  | minting id' row =>
      cases h
      exact .inl ⟨row, rfl⟩
  | minted id' row token | activated id' row token | discarding id' token => exact .inr ⟨token, h, rfl⟩
  | _ => exact h.elim

theorem At.spent {s : Shared} {t : Nat} {l : Stage} {id : String} (hat : At s t l) (h : l.attempts id) :
    Spent s id := by
  cases l with
  | minting id' row | minted id' row token | activated id' row token | discarding id' token =>
      cases h
      exact hat.1
  | _ => exact h.elim

theorem Owns.spent {s : Shared} {t : Nat} {l : Stage} {id : String} (hledger : Ledger s) (hat : At s t l)
    (h : Owns s t l id) : Spent s id := by
  obtain hattempts | ⟨x, hx, rfl, -⟩ := h
  · exact hat.spent hattempts
  · exact (hledger.lease t x hx).1

-- The invariant of every run: what each request knows, the ledger, and how often anything was minted or carried.
structure Inv (c : Config Shared Stage) : Prop where
  known : Asserts At c
  ledger : Ledger c.shared
  exclusive : Exclusive Owns c
  unminted : ∀ t id row, c.stage t = .minting id row → ∀ token, .minted id token ∉ c.shared.log
  oneMint : ∀ id, c.shared.log.countP (Happening.mints id) ≤ 1
  carrier : ∀ id token, .carried id token ∈ c.shared.log →
    ∃ t, c.stage t = .finished ∧ LeaseOf c.shared t id fun _ => True
  oneCarried : ∀ id, c.shared.log.countP (Happening.carries id) ≤ 1

section

variable {s s' : Shared} {t : Nat} {o : Outcome} {l l' : Stage}

theorem Turn.mem_minted (h : Turn s t o l s' l') {id token : String} (hmem : .minted id token ∈ s'.log) :
    .minted id token ∈ s.log ∨ (token ≠ "" ∧ ∃ row, l = .minting id row) := by
  cases h.log with
  | same hlog => exact .inl (hlog ▸ hmem)
  | minted id' row hstage htoken _ hlog =>
      rw [hlog, List.mem_cons] at hmem
      obtain hsame | hmem := hmem
      · cases hsame
        exact .inr ⟨htoken, row, hstage⟩
      · exact .inl hmem
  | revoked _ hlog | delivered _ _ _ _ hlog | carried _ _ _ _ hlog | closed _ _ _ hlog | withdrawn _ _ _ _ hlog =>
      rw [hlog, List.mem_cons] at hmem
      exact .inl (hmem.resolve_left (by simp))

theorem Turn.ledger (h : Turn s t o l s' l') (hat : At s t l) (hledger : Ledger s) : Ledger s' := by
  refine ⟨?_, ?_, ?_⟩
  · intro a x' hx'
    obtain ⟨x, hx, hbecomes⟩ | ⟨rfl, id, row, token, rfl, rfl⟩ := h.lease_of hat hx'
    · obtain ⟨hspent, token, hne, hminted, htoken⟩ := hledger.lease a x hx
      rw [hbecomes.reservationID]
      refine ⟨hspent.grows h.rows, token, hne, h.log_mem hminted, ?_⟩
      obtain hsame | ⟨hempty, hrevoked⟩ := htoken
      · subst hsame
        exact hbecomes.token
      · exact .inr ⟨hbecomes.emptied hempty, h.log_mem hrevoked⟩
    · have hne := (hledger.minted id token hat.2.1).1
      exact ⟨hat.1.grows h.rows, token, hne, h.log_mem hat.2.1, .inl rfl⟩
  · intro id a ha
    obtain hheld | ⟨id', rfl, hheld⟩ := h.held
    · rw [hheld] at ha
      exact h.leaseOf_true hat (hledger.held id a ha)
    · rw [hheld] at ha
      obtain ⟨rfl, rfl⟩ | ha := Table.get?_put_cases ha
      · exact h.leaseOf_true hat hat
      · exact h.leaseOf_true hat (hledger.held id a ha)
  · intro id token hmem
    obtain hmem | ⟨htoken, row, rfl⟩ := h.mem_minted hmem
    · exact ⟨(hledger.minted id token hmem).1, (hledger.minted id token hmem).2.grows h.rows⟩
    · exact ⟨htoken, hat.1.grows h.rows⟩

-- The request that takes a turn owns nothing new but a mint attempt that was never given.
theorem Turn.owns (h : Turn s t o l s' l') (hat : At s t l) {id : String} (hown : Owns s' t l' id) :
    Owns s t l id ∨ ¬ Spent s id := by
  obtain hattempts | ⟨x', hx', rfl, -⟩ := hown
  · obtain ⟨row, hminting⟩ | ⟨token, hcarries⟩ := hattempts.cases
    · exact .inr (h.begins hminting).1
    · obtain hcarries | ⟨-, row, rfl⟩ := h.carries hcarries
      · exact .inl (.inl hcarries.attempts)
      · exact .inl (.inl rfl)
  · obtain ⟨x, hx, hbecomes⟩ | ⟨-, id, row, token, rfl, rfl⟩ := h.lease_of hat hx'
    · exact .inl (.inr ⟨x, hx, hbecomes.reservationID.symm, trivial⟩)
    · exact .inl (.inl rfl)

theorem Turn.owns_others (h : Turn s t o l s' l') (hat : At s t l) {u : Nat} (hu : u ≠ t) {m : Stage} {id : String}
    (hown : Owns s' u m id) : Owns s u m id := by
  obtain hattempts | ⟨x', hx', rfl, -⟩ := hown
  · exact .inl hattempts
  · obtain ⟨x, hx, hbecomes⟩ | ⟨ht, -⟩ := h.lease_of hat hx'
    · exact .inr ⟨x, hx, hbecomes.reservationID.symm, trivial⟩
    · exact absurd ht hu

end

section

variable {c : Config Shared Stage} {turn : Nat × Outcome}

-- What a turn does, seen from the whole process.
theorem turn_of (c : Config Shared Stage) (turn : Nat × Outcome) :
    Turn c.shared turn.1 turn.2 (c.stage turn.1) (checkoutProcess.moved c turn).1 (checkoutProcess.moved c turn).2 :=
  next_turn ..

theorem Inv.asserts (h : Inv c) : Asserts At (checkoutProcess.step c turn) :=
  h.known.step (fun _ _ hu hm => (turn_of c turn).others (h.known turn.1) hu hm) (next_at turn.2 (h.known turn.1) h.ledger)

theorem Inv.owned (h : Inv c) : Exclusive Owns (checkoutProcess.step c turn) := by
  refine h.exclusive.step (fun u l k hu hown => (turn_of c turn).owns_others (h.known turn.1) hu hown) ?_
  intro id hown
  refine ((turn_of c turn).owns (h.known turn.1) hown).imp_right fun hspent u hu => ?_
  exact hspent (hu.spent h.ledger (h.known u))

-- A request that minted was the only one that could.
theorem Inv.minted_once (h : Inv c) {t : Nat} {id : String} {row : Reservation} (ht : c.stage t = .minting id row) :
    c.shared.log.countP (Happening.mints id) = 0 := by
  rw [List.countP_eq_zero]
  intro x hx
  cases x with
  | minted id' token =>
      intro hid
      rw [Happening.mints, beq_iff_eq] at hid
      subst hid
      exact h.unminted t id' row ht token hx
  | _ => simp [Happening.mints]

theorem Inv.step_unminted (h : Inv c) (t : Nat) (id : String) (row : Reservation)
    (ht : (checkoutProcess.step c turn).stage t = .minting id row) (token : String) :
    .minted id token ∉ (checkoutProcess.step c turn).shared.log := by
  intro hmem
  by_cases hturn : t = turn.1
  · subst hturn
    rw [step_stage_self] at ht
    obtain ⟨hspent, -⟩ := (turn_of c turn).begins ht
    obtain hmem | ⟨-, row', hstage⟩ := (turn_of c turn).mem_minted hmem
    · exact hspent (h.ledger.minted id token hmem).2
    · exact hspent ((h.known turn.1).spent (by rw [hstage]; rfl))
  · rw [step_stage_of_ne hturn] at ht
    obtain hmem | ⟨-, row', hstage⟩ := (turn_of c turn).mem_minted hmem
    · exact h.unminted t id row ht token hmem
    · exact hturn (h.exclusive t turn.1 id (.inl (by rw [ht]; rfl)) (.inl (by rw [hstage]; rfl)))

theorem Inv.step_oneMint (h : Inv c) (id : String) :
    (checkoutProcess.step c turn).shared.log.countP (Happening.mints id) ≤ 1 := by
  have hone := h.oneMint id
  cases (turn_of c turn).log with
  | same hlog => rw [step_shared, hlog]; exact hone
  | minted id' row hstage _ _ hlog =>
      rw [step_shared, hlog, List.countP_cons]
      by_cases hid : id' = id
      · subst hid
        rw [h.minted_once hstage]
        simp [Happening.mints]
      · simpa [Happening.mints, hid] using hone
  | revoked _ hlog | delivered _ _ _ _ hlog | carried _ _ _ _ hlog | closed _ _ _ hlog | withdrawn _ _ _ _ hlog =>
      rw [step_shared, hlog, List.countP_cons]
      simpa [Happening.mints] using hone

theorem Turn.mem_carried {s s' : Shared} {t : Nat} {o : Outcome} {l l' : Stage} (h : Turn s t o l s' l')
    {id token : String} (hmem : .carried id token ∈ s'.log) :
    .carried id token ∈ s.log ∨ (l = .delivered id token ∧ l' = .finished) := by
  cases h.log with
  | same hlog => exact .inl (hlog ▸ hmem)
  | carried id' token' hstage hnext hlog =>
      rw [hlog, List.mem_cons] at hmem
      obtain hsame | hmem := hmem
      · cases hsame
        exact .inr ⟨hstage, hnext⟩
      · exact .inl hmem
  | minted _ _ _ _ _ hlog | revoked _ hlog | delivered _ _ _ _ hlog | closed _ _ _ hlog | withdrawn _ _ _ _ hlog =>
      rw [hlog, List.mem_cons] at hmem
      exact .inl (hmem.resolve_left (by simp))

theorem finished_moved (h : c.stage turn.1 = .finished) : (checkoutProcess.moved c turn).2 = .finished := by
  simp only [moved, checkoutProcess, h, next]

theorem Inv.step_carrier (h : Inv c) (id token : String)
    (hmem : .carried id token ∈ (checkoutProcess.step c turn).shared.log) :
    ∃ t, (checkoutProcess.step c turn).stage t = .finished ∧
      LeaseOf (checkoutProcess.step c turn).shared t id fun _ => True := by
  have hturn := turn_of c turn
  obtain hmem | ⟨hstage, hnext⟩ := hturn.mem_carried hmem
  · obtain ⟨t, ht, hlease⟩ := h.carrier id token hmem
    refine ⟨t, ?_, hturn.leaseOf_true (h.known turn.1) hlease⟩
    by_cases hself : t = turn.1
    · subst hself
      rw [step_stage_self, finished_moved ht]
    · rw [step_stage_of_ne hself, ht]
  · refine ⟨turn.1, by rw [step_stage_self, hnext], hturn.leaseOf_true (h.known turn.1) ?_⟩
    have hat := h.known turn.1
    rw [hstage] at hat
    obtain ⟨-, x, hx, hid, -⟩ := hat
    exact ⟨x, hx, hid, trivial⟩

theorem Inv.step_oneCarried (h : Inv c) (id : String) :
    (checkoutProcess.step c turn).shared.log.countP (Happening.carries id) ≤ 1 := by
  have hone := h.oneCarried id
  cases (turn_of c turn).log with
  | same hlog => rw [step_shared, hlog]; exact hone
  | carried id' token hstage _ hlog =>
      rw [step_shared, hlog, List.countP_cons]
      by_cases hid : id' = id
      · subst hid
        -- Whoever carried one before has the lease, and so it is this very request, which has not answered yet.
        have hat := h.known turn.1
        rw [hstage] at hat
        obtain ⟨-, x, hx, hid, -⟩ := hat
        have hzero : c.shared.log.countP (Happening.carries id') = 0 := by
          rw [List.countP_eq_zero]
          intro y hy
          cases y with
          | carried id₁ token₁ =>
              intro hid₁
              rw [Happening.carries, beq_iff_eq] at hid₁
              subst hid₁
              obtain ⟨t, ht, hlease⟩ := h.carrier id₁ token₁ hy
              have hsame := h.exclusive t turn.1 id₁ (.inr hlease) (.inr ⟨x, hx, hid, trivial⟩)
              rw [hsame, hstage] at ht
              cases ht
          | _ => simp [Happening.carries]
        rw [hzero]
        simp [Happening.carries]
      · simpa [Happening.carries, hid] using hone
  | minted _ _ _ _ _ hlog | revoked _ hlog | delivered _ _ _ _ hlog | closed _ _ _ hlog | withdrawn _ _ _ _ hlog =>
      rw [step_shared, hlog, List.countP_cons]
      simpa [Happening.carries] using hone

theorem Inv.step (h : Inv c) : Inv (checkoutProcess.step c turn) where
  known := h.asserts
  ledger := (turn_of c turn).ledger (h.known turn.1) h.ledger
  exclusive := h.owned
  unminted := h.step_unminted
  oneMint := h.step_oneMint
  carrier := h.step_carrier
  oneCarried := h.step_oneCarried

end

theorem fresh_inv (db : GitHubDB) : Inv (fresh db) where
  known _ := Table.get?_empty _
  ledger := ⟨by simp [fresh], by simp [fresh], by simp [fresh]⟩
  exclusive := by
    rintro t u id (hattempts | ⟨x, hx, -⟩)
    · exact hattempts.elim
    · cases hx
  unminted := by simp [fresh]
  oneMint := by simp [fresh]
  carrier := by simp [fresh]
  oneCarried := by simp [fresh]

theorem run_inv (db : GitHubDB) (turns : List (Nat × Outcome)) : Inv (checkoutProcess.run (fresh db) turns) :=
  run_invariant (fun _ _ h _ => h.step) (allows_true turns) (fresh_inv db)

end AutoDeploy.Checkout
