import AutoDeploy.Checkout.Growth

namespace AutoDeploy.Checkout

open Lib Lib.Result Lib.Threads

-- Everything one turn can do to the leases and to what is seen from outside, and what a request knows at each stage.

def newLease (id : String) (row : Reservation) (token : String) : HeldLease :=
  ⟨⟨token, ⟨row.snapshot.cloneURL, row.commitSHA, id⟩, false, false⟩, row.snapshot⟩

def HeldLease.emptied (l : HeldLease) : HeldLease := { l with token := "" }

def HeldLease.handed (l : HeldLease) : HeldLease := { l with delivered := true }

def HeldLease.marked (l : HeldLease) : HeldLease := { l with invalidated := true }

def HeldLease.Deliverable (l : HeldLease) : Prop := l.token ≠ "" ∧ l.delivered = false ∧ l.invalidated = false

def LeaseOf (s : Shared) (a : Nat) (id : String) (P : HeldLease → Prop) : Prop :=
  ∃ l, s.leases.get? a = some l ∧ l.reservationID = id ∧ P l

-- The reservation a request has taken the mint attempt of, before there is a lease.
def Stage.attempts (id : String) : Stage → Prop
  | .minting id' _ | .minted id' _ _ | .activated id' _ _ | .discarding id' _ => id' = id
  | _ => False

-- A token that only this request knows.
def Stage.carries (id token : String) : Stage → Prop
  | .minted id' _ token' | .activated id' _ token' | .discarding id' token' => id' = id ∧ token' = token
  | _ => False

inductive LeaseEffect (s : Shared) (t : Nat) (l : Stage) (s' : Shared) : Prop
  | same (h : s'.leases = s.leases)
  | created (id : String) (row : Reservation) (token : String) (hstage : l = .activated id row token)
      (h : s'.leases = s.leases.put t (newLease id row token))
  | revoked (a : Nat) (x : HeldLease) (hx : s.leases.get? a = some x) (htoken : x.token ≠ "")
      (h : s'.leases = s.leases.put a x.emptied) (hlog : .revoked x.token ∈ s'.log)
  | delivered (id : String) (x : HeldLease) (hstage : l = .published id) (hx : s.leases.get? t = some x)
      (hable : x.Deliverable) (h : s'.leases = s.leases.put t x.handed)
  | marked (a : Nat) (x : HeldLease) (hx : s.leases.get? a = some x) (h : s'.leases = s.leases.put a x.marked)

inductive LogEffect (s : Shared) (t : Nat) (o : Outcome) (l : Stage) (s' : Shared) (l' : Stage) : Prop
  | same (h : s'.log = s.log)
  | minted (id : String) (row : Reservation) (hstage : l = .minting id row) (htoken : o.token ≠ "")
      (hnext : o.handed = true → l'.carries id o.token) (h : s'.log = .minted id o.token :: s.log)
  | revoked (token : String) (h : s'.log = .revoked token :: s.log)
  | delivered (id token : String) (hstage : l = .published id) (hnext : l' = .delivered id token)
      (h : s'.log = .delivered id token :: s.log)
  | carried (id token : String) (hstage : l = .delivered id token) (hnext : l' = .finished)
      (h : s'.log = .carried id token :: s.log)
  | closed (id : String) (hstage : l = .closed id) (hnext : l' = .finished) (h : s'.log = .closed id :: s.log)
  | withdrawn (ids live : List String) (hstage : l = .invalidating ids live []) (hnext : l' = .finished)
      (h : s'.log = .withdrawn ids live :: s.log)

-- What a request knows of the shared state when it is at a stage. Nobody else makes any of it false.
def At (s : Shared) (t : Nat) : Stage → Prop
  | .idle | .reserving .. | .claiming .. | .claimed .. => s.leases.get? t = none
  | .minting id _ => Spent s id ∧ s.leases.get? t = none
  | .minted id _ token | .activated id _ token => Spent s id ∧ .minted id token ∈ s.log ∧ s.leases.get? t = none
  | .discarding id token => Spent s id ∧ .minted id token ∈ s.log ∧ s.leases.get? t = none
  | .leased id | .running id | .published id => LeaseOf s t id fun _ => True
  | .delivered id token => .minted id token ∈ s.log ∧ LeaseOf s t id fun l => l.delivered = true
  | .closingLease closer id a => (closer = .start → a = t) ∧ LeaseOf s a id fun _ => True
  | .revokingLease closer id a consumed =>
      (closer = .start → a = t) ∧ (consumed = true → InState s id .consumed) ∧ LeaseOf s a id fun _ => True
  | .removingLease closer id a closed =>
      (closer = .start → a = t) ∧ (closed = true → InState s id .consumed) ∧
        LeaseOf s a id fun l => closed = true → l.token = ""
  | .marking id seen =>
      InState s id .consumed ∧ ∀ a, seen = some a → LeaseOf s a id fun l => l.token = ""
  | _ => True

-- The leases and the registry agree with the rows and with what was minted.
structure Ledger (s : Shared) : Prop where
  lease : ∀ a l, s.leases.get? a = some l → Spent s l.reservationID ∧ ∃ token, token ≠ "" ∧
    .minted l.reservationID token ∈ s.log ∧ (l.token = token ∨ (l.token = "" ∧ .revoked token ∈ s.log))
  held : ∀ id a, s.held.get? id = some a → LeaseOf s a id fun _ => True
  minted : ∀ id token, .minted id token ∈ s.log → token ≠ "" ∧ Spent s id

inductive ActiveEffect (s : Shared) (t : Nat) (l : Stage) (s' : Shared) : Prop
  | same (h : s'.active = s.active)
  | added (id : String) (row : Reservation) (token : String) (hstage : l = .activated id row token)
      (h : s'.active = s.active.put id t)
  | removed (closer : Closer) (id : String) (a : Nat) (closed : Bool) (hstage : l = .removingLease closer id a closed)
      (h : s'.active = s.active.erase id)

def Registry.Closed (reg : Registry) (id : String) : Prop := ∃ e, reg.get? id = some e ∧ e.closed = true

-- How a request comes to a stage at which it holds something.
def Entered (s : Shared) (t : Nat) (l : Stage) (s' : Shared) : Stage → Prop
  | .minting id _ => ¬ Spent s id ∧ ¬ Ended s id
  | .minted id _ token => .minted id token ∈ s'.log ∧ ∃ row, l = .minting id row
  | .discarding id token => l.carries id token ∨ (.minted id token ∈ s'.log ∧ ∃ row, l = .minting id row)
  | .activated id row token => l = .minted id row token ∧ ¬ Ended s id
  | .leased id => ∃ row token, l = .activated id row token
  | .running id =>
      l = .leased id ∧ ∃ x, s.leases.get? t = some x ∧ x.Deliverable ∧ InState s x.reservationID .active
  | .published id => l = .running id
  | .delivered id token => l = .published id ∧ ∃ x, s.leases.get? t = some x ∧ x.Deliverable ∧ x.token = token
  | .closed id => s.registry.Closed id ∨ ∃ seen, l = .marking id seen
  | .removingLease closer id a _ => ∃ consumed, l = .revokingLease closer id a consumed
  | .invalidating ids live pending =>
      (∃ w, l = .withdrawing w) ∨ (∃ id, l = .invalidating ids live (id :: pending)) ∨
        ∃ a, l = .marked ids live pending a
  | .marked ids live pending _ => ∃ id, l = .invalidating ids live (id :: pending)
  | _ => True

structure Turn (s : Shared) (t : Nat) (o : Outcome) (l : Stage) (s' : Shared) (l' : Stage) : Prop where
  rows : s.store.Grows s'.store
  held : s'.held = s.held ∨ ∃ id, l = .running id ∧ s'.held = s.held.put id t
  active : ActiveEffect s t l s'
  closedEntry : ∀ id, s'.registry.Closed id → s.registry.Closed id ∨ ∃ seen, l = .marking id seen
  leases : LeaseEffect s t l s'
  log : LogEffect s t o l s' l'
  entered : Entered s t l s' l'

section

variable {s : Shared} {t : Nat} {o : Outcome}

theorem Shared.closeCheckout_spec (s : Shared) (o : Outcome) (id : String) :
    ∃ db, s.store.Grows db ∧ (s.closeCheckout o id).1 = s.withStore db ∧
      ((s.closeCheckout o id).2 = true → InState (s.withStore db) id .consumed) := by
  refine ⟨(s.store.call o.fault (Checkout.closeCheckout o.now s.store id)).1, ?_, rfl, ?_⟩
  · exact GitHubDB.grows_call fun db u => closeCheckout_grows
  · intro hsome
    obtain ⟨u, hu⟩ := Option.isSome_iff_exists.1 hsome
    obtain ⟨row, hrow, ⟨hlive, hdb⟩ | ⟨hstate, hdb⟩⟩ := closeCheckout_effect (GitHubDB.call_eq_some (Prod.ext rfl hu))
    · exact ⟨_, (congrArg (fun db => db.reservations.get? id) hdb).trans (Table.get?_put_self ..), rfl⟩
    · exact ⟨row, (congrArg (fun db => db.reservations.get? id) hdb).trans hrow, hstate⟩

theorem Shared.revoke_spec (s : Shared) (o : Outcome) (a : Nat) :
    (s.revoke o a = (s, false) ∧ o.revoked = false) ∨
      (s.revoke o a = (s, true) ∧ ∀ x, s.leases.get? a = some x → x.token = "") ∨
      ∃ x, s.leases.get? a = some x ∧ x.token ≠ "" ∧
        s.revoke o a = ((s.setLease a x.emptied).note (.revoked x.token), true) := by
  unfold revoke
  cases hx : s.leases.get? a with
  | none => exact .inr (.inl ⟨rfl, by simp⟩)
  | some x =>
      by_cases htoken : x.token = ""
      · refine .inr (.inl ⟨?_, by simpa using htoken⟩)
        simp [CheckoutLease.revoke, htoken]
      · cases hrevoked : o.revoked with
        | false =>
            refine .inl ⟨?_, rfl⟩
            simp [CheckoutLease.revoke, htoken, Outcome.revokeToken, hrevoked]
        | true =>
            refine .inr (.inr ⟨x, rfl, htoken, ?_⟩)
            simp [CheckoutLease.revoke, htoken, Outcome.revokeToken, hrevoked, HeldLease.emptied]

theorem Shared.startLease_spec (s : Shared) (o : Outcome) (a : Nat) :
    ∃ db, s.store.Grows db ∧ (s.startLease o a).1 = s.withStore db ∧
      ((s.startLease o a).2 = true → ∃ x, s.leases.get? a = some x ∧ x.Deliverable ∧
        InState s x.reservationID .active ∧ InState (s.withStore db) x.reservationID .running) := by
  unfold startLease
  cases hx : s.leases.get? a with
  | none => exact ⟨s.store, .of_eq rfl, rfl, by simp⟩
  | some x =>
      dsimp only
      split
      case isTrue => exact ⟨s.store, .of_eq rfl, rfl, by simp⟩
      case isFalse hcan =>
          simp only [Bool.or_eq_true, beq_iff_eq, not_or, Bool.not_eq_true] at hcan
          refine ⟨(s.store.call o.fault (startCheckout o.now s.store x.reservationID x.snapshot)).1, ?_, rfl, ?_⟩
          · exact GitHubDB.grows_call fun db u => startCheckout_grows
          · intro hsome
            obtain ⟨u, hu⟩ := Option.isSome_iff_exists.1 hsome
            obtain ⟨row, hrow, hstate, hdb⟩ := startCheckout_effect (GitHubDB.call_eq_some (Prod.ext rfl hu))
            refine ⟨x, rfl, ⟨hcan.1.2, hcan.2, hcan.1.1.2⟩, ⟨row, hrow, hstate⟩, { row with state := .running }, ?_, rfl⟩
            exact (congrArg (fun db => db.reservations.get? x.reservationID) hdb).trans (Table.get?_put_self ..)

theorem Shared.deliverToken_spec (s : Shared) (a : Nat) (id : String) :
    s.deliverToken a id = (s, none) ∨
      ∃ x, s.leases.get? a = some x ∧ x.Deliverable ∧
        s.deliverToken a id = ((s.setLease a x.handed).note (.delivered id x.token), some x.token) := by
  unfold deliverToken
  cases hx : s.leases.get? a with
  | none => exact .inl rfl
  | some x =>
      by_cases hable : x.token == "" || x.delivered || x.invalidated
      · refine .inl ?_
        simp [CheckoutLease.deliverToken, hable]
      · refine .inr ⟨x, rfl, ?_, ?_⟩
        · simp only [Bool.or_eq_true, beq_iff_eq, not_or, Bool.not_eq_true] at hable
          exact ⟨hable.1.1, hable.1.2, hable.2⟩
        · simp [CheckoutLease.deliverToken, hable, HeldLease.handed]

theorem Shared.invalidate_spec (s : Shared) (a : Nat) :
    (s.leases.get? a = none ∧ s.invalidate a = s) ∨
      ∃ x, s.leases.get? a = some x ∧ s.invalidate a = s.setLease a x.marked := by
  unfold invalidate
  cases hx : s.leases.get? a with
  | none => exact .inl ⟨rfl, rfl⟩
  | some x => exact .inr ⟨x, rfl, rfl⟩

end

-- Changes that show nothing outside and leave the leases alone.
structure Silent (s s' : Shared) : Prop where
  rows : s.store.Grows s'.store
  leases : s'.leases = s.leases
  log : s'.log = s.log
  held : s'.held = s.held
  active : s'.active = s.active
  closedEntry : ∀ id, s'.registry.Closed id → s.registry.Closed id

theorem Silent.refl (s : Shared) : Silent s s := ⟨.of_eq rfl, rfl, rfl, rfl, rfl, fun _ h => h⟩

theorem Silent.store {s : Shared} {db : GitHubDB} (hrows : s.store.Grows db) : Silent s (s.withStore db) :=
  ⟨hrows, rfl, rfl, rfl, rfl, fun _ h => h⟩

theorem Silent.registry {s : Shared} {registry : Registry}
    (h : ∀ id, registry.Closed id → s.registry.Closed id) :
    Silent s { s with registry := registry } :=
  ⟨.of_eq rfl, rfl, rfl, rfl, rfl, h⟩

namespace Registry

theorem closed_of_sweep {reg : Registry} {now : Nat} {id : String} (h : (reg.sweep now).Closed id) : reg.Closed id := by
  obtain ⟨e, he, hclosed⟩ := h
  rw [sweep, Table.get?_keep, Option.filter_eq_some_iff] at he
  exact ⟨e, he.1, hclosed⟩

-- Writing an entry that is not closed closes nothing.
theorem closed_of_put {reg : Registry} {id id' : String} {e' : Entry} (h : Closed (reg.put id' e') id)
    (hopen : e'.closed = true → reg.Closed id') : reg.Closed id := by
  obtain ⟨e, he, hclosed⟩ := h
  obtain ⟨rfl, rfl⟩ | he := Table.get?_put_cases he
  · exact hopen hclosed
  · exact ⟨e, he, hclosed⟩

theorem closed_of_add {reg : Registry} {now : Nat} {id id' : String} {caller : Caller}
    (h : (reg.add id' caller now).Closed id) : reg.Closed id :=
  closed_of_sweep (closed_of_put h (by simp))

theorem closed_of_claimStart {reg reg' : Registry} {now : Nat} {id id' : String} {caller : Caller}
    (hclaim : reg.claimStart id' caller now = some reg') (h : reg'.Closed id) : reg.Closed id := by
  rw [claimStart, Option.map_eq_some_iff] at hclaim
  obtain ⟨e, he, rfl⟩ := hclaim
  rw [Option.filter_eq_some_iff, owned, Option.filter_eq_some_iff] at he
  exact closed_of_sweep (closed_of_put h fun hclosed => ⟨e, he.1.1, hclosed⟩)

theorem closed_of_amend {reg : Registry} {id id' : String} {applies : Entry → Bool} {change : Entry → Entry}
    (hchange : ∀ e, (change e).closed = e.closed) (h : (reg.amend id' applies change).Closed id) : reg.Closed id := by
  unfold amend at h
  split at h
  case h_2 => exact h
  case h_1 e he =>
      rw [Option.filter_eq_some_iff] at he
      exact closed_of_put h fun hclosed => ⟨e, he.1, (hchange e).symm.trans hclosed⟩

theorem closed_of_releaseStart {reg : Registry} {id id' : String} (h : (reg.releaseStart id').Closed id) :
    reg.Closed id :=
  closed_of_amend (fun e => show ({ e with started := false } : Entry).closed = e.closed from rfl) h

theorem closed_of_setLease {reg : Registry} {id id' : String} (h : (reg.setLease id').Closed id) : reg.Closed id :=
  closed_of_amend (fun e => show ({ e with leased := true } : Entry).closed = e.closed from rfl) h

theorem closed_of_markClosed {reg : Registry} {id id' : String} (h : (reg.markClosed id').Closed id) :
    reg.Closed id ∨ id' = id := by
  by_cases hid : id' = id
  · exact .inr hid
  · left
    unfold markClosed amend at h
    split at h
    case h_2 => exact h
    case h_1 e he =>
        obtain ⟨e', he', hclosed⟩ := h
        rw [Table.get?_put, if_neg (Ne.symm hid)] at he'
        exact ⟨e', he', hclosed⟩

end Registry

theorem Turn.quiet {s s' : Shared} {t : Nat} {o : Outcome} {l l' : Stage} (h : Silent s s')
    (hentered : Entered s t l s' l') : Turn s t o l s' l' :=
  ⟨h.rows, .inl h.held, .same h.active, fun id hid => .inl (h.closedEntry id hid), .same h.leases, .same h.log, hentered⟩

theorem arrive_turn (s : Shared) (t : Nat) (o : Outcome) (arrival : Arrival) :
    Turn s t o .idle (arrive s arrival).1 (arrive s arrival).2 := by
  cases arrival with
  | begin caller authorization =>
      cases authorization with
      | none => exact .quiet (.refl _) trivial
      | some a => exact .quiet (.refl _) (by dsimp only [arrive]; split <;> trivial)
  | start id caller permitted => exact .quiet (.refl _) (by dsimp only [arrive]; split <;> trivial)
  | close id caller permitted => exact .quiet (.refl _) (by dsimp only [arrive]; split <;> trivial)
  | withdraw w granted => exact .quiet (.refl _) (by dsimp only [arrive]; split <;> trivial)
  | reclaim a => exact .quiet (.refl _) (by dsimp only [arrive]; split <;> trivial)
  | administer authority => exact .quiet (.store (.of_eq rfl)) trivial

-- A reservation whose mint attempt is given was neither spent nor ended.
theorem claimed_turn (s : Shared) (t : Nat) (o : Outcome) (id : String) :
    Turn s t o (.claimed id) (next s t o (.claimed id)).1 (next s t o (.claimed id)).2 := by
  have hrows : s.store.Grows (s.store.call o.fault (beginMintAttempt o.now s.store id)).1 :=
    GitHubDB.grows_call fun db row => beginMintAttempt_grows
  simp only [next]
  cases hcall : s.store.call o.fault (beginMintAttempt o.now s.store id) with
  | mk db answer =>
      rw [hcall] at hrows
      cases answer with
      | none => exact .quiet (.store hrows) trivial
      | some row =>
          obtain ⟨hrow, hstate, hattempts, -⟩ := beginMintAttempt_effect (GitHubDB.call_eq_some hcall)
          refine .quiet (.store hrows) ?_
          dsimp only
          split
          · constructor
            · rintro ⟨row', hrow', hspent⟩
              cases hrow.symm.trans hrow'
              omega
            · exact fun hended => hended.not_inState rfl ⟨row, hrow, hstate⟩
          · trivial

theorem minting_turn (s : Shared) (t : Nat) (o : Outcome) (id : String) (row : Reservation) :
    Turn s t o (.minting id row) (next s t o (.minting id row)).1 (next s t o (.minting id row)).2 := by
  simp only [next]
  split
  case isTrue => exact .quiet (.refl _) trivial
  case isFalse htoken =>
      split
      case isFalse hlost =>
          exact ⟨.of_eq rfl, .inl rfl, .same rfl, fun _ h => .inl h, .same rfl,
            .minted id row rfl htoken (fun h => absurd h hlost) rfl, trivial⟩
      case isTrue =>
          -- In order or not, the token is known to this request alone.
          refine ⟨.of_eq rfl, .inl rfl, .same rfl, fun _ h => .inl h, .same rfl, .minted id row rfl htoken ?_ rfl, ?_⟩
          · intro _
            dsimp only
            split <;> exact ⟨rfl, rfl⟩
          · dsimp only
            split
            · exact ⟨List.mem_cons_self, row, rfl⟩
            · exact .inr ⟨List.mem_cons_self, row, rfl⟩

theorem minted_turn (s : Shared) (t : Nat) (o : Outcome) (id : String) (row : Reservation) (token : String) :
    Turn s t o (.minted id row token) (next s t o (.minted id row token)).1 (next s t o (.minted id row token)).2 := by
  have hrows : s.store.Grows (s.store.call o.fault (activateMintAttempt o.now s.store id row.snapshot)).1 :=
    GitHubDB.grows_call fun db u => activateMintAttempt_grows
  simp only [next]
  cases hcall : s.store.call o.fault (activateMintAttempt o.now s.store id row.snapshot) with
  | mk db answer =>
      rw [hcall] at hrows
      cases answer with
      | none => exact .quiet (.store hrows) (.inl ⟨rfl, rfl⟩)
      | some u =>
          obtain ⟨old, hold, hstate, -⟩ := activateMintAttempt_effect (GitHubDB.call_eq_some hcall)
          exact .quiet (.store hrows) ⟨rfl, fun hended => hended.not_inState rfl ⟨old, hold, hstate⟩⟩

theorem leased_turn (s : Shared) (t : Nat) (o : Outcome) (id : String) :
    Turn s t o (.leased id) (next s t o (.leased id)).1 (next s t o (.leased id)).2 := by
  obtain ⟨db, hrows, hstore, hstarted⟩ := s.startLease_spec o t
  simp only [next]
  cases hstart : s.startLease o t with
  | mk s' started =>
      rw [hstart] at hstore hstarted
      subst hstore
      cases started with
      | true =>
          obtain ⟨x, hx, hable, hstate, -⟩ := hstarted rfl
          exact .quiet (.store hrows) ⟨rfl, x, hx, hable, hstate⟩
      | false => exact .quiet (.store hrows) trivial

theorem published_turn (s : Shared) (t : Nat) (o : Outcome) (id : String) :
    Turn s t o (.published id) (next s t o (.published id)).1 (next s t o (.published id)).2 := by
  simp only [next]
  obtain hnone | ⟨x, hx, hable, hsome⟩ := s.deliverToken_spec t id
  · rw [hnone]
    exact .quiet (.refl _) trivial
  · rw [hsome]
    exact ⟨.of_eq rfl, .inl rfl, .same rfl, fun _ h => .inl h, .delivered id x rfl hx hable rfl,
      .delivered id x.token rfl rfl rfl, rfl, x, hx, hable, rfl⟩

-- `Revoke` of a lease, whoever asks for it and whatever comes next.
theorem revoke_turn (s : Shared) (t : Nat) (o : Outcome) (a : Nat) (l : Stage) {l' : Stage}
    (hentered : Entered s t l (s.revoke o a).1 l') : Turn s t o l (s.revoke o a).1 l' := by
  obtain ⟨hsame, -⟩ | ⟨hsame, -⟩ | ⟨x, hx, htoken, hrevoke⟩ := s.revoke_spec o a
  · rw [hsame] at hentered ⊢
    exact .quiet (.refl _) hentered
  · rw [hsame] at hentered ⊢
    exact .quiet (.refl _) hentered
  · rw [hrevoke] at hentered ⊢
    exact ⟨.of_eq rfl, .inl rfl, .same rfl, fun _ h => .inl h, .revoked a x hx htoken rfl List.mem_cons_self,
      .revoked x.token rfl, hentered⟩

theorem closeCheckout_turn (s : Shared) (t : Nat) (o : Outcome) (id : String) (l : Stage) {l' : Stage}
    (hentered : Entered s t l (s.closeCheckout o id).1 l') : Turn s t o l (s.closeCheckout o id).1 l' := by
  obtain ⟨db, hrows, hstore, -⟩ := s.closeCheckout_spec o id
  rw [hstore] at hentered ⊢
  exact .quiet (.store hrows) hentered

theorem next_turn (s : Shared) (t : Nat) (o : Outcome) (l : Stage) : Turn s t o l (next s t o l).1 (next s t o l).2 := by
  cases l with
  | idle =>
      cases harrival : o.arrival with
      | none =>
          simp only [next, harrival]
          exact .quiet (.refl _) trivial
      | some arrival =>
          simp only [next, harrival]
          exact arrive_turn s t o arrival
  | reserving caller a =>
      have hrows : s.store.Grows (s.store.call o.fault
          (reserveCheckout o.now s.store o.id a.ownerID a.projectID a.commitSHA)).1 :=
        GitHubDB.grows_call fun db row => reserveCheckout_grows
      simp only [next]
      cases hcall : s.store.call o.fault (reserveCheckout o.now s.store o.id a.ownerID a.projectID a.commitSHA) with
      | mk db answer =>
          rw [hcall] at hrows
          cases answer with
          | none => exact .quiet (.store hrows) trivial
          | some row => exact .quiet (.store hrows) (by dsimp only; split <;> trivial)
  | mismatched id => exact closeCheckout_turn s t o id _ trivial
  | registering id caller => exact .quiet (.registry fun id h => Registry.closed_of_add h) trivial
  | claiming id caller =>
      simp only [next]
      split
      · rename_i registry hclaim
        exact .quiet (.registry fun id h => Registry.closed_of_claimStart hclaim h) trivial
      · exact .quiet (.registry fun id h => Registry.closed_of_sweep h) trivial
  | claimed id => exact claimed_turn s t o id
  | minting id row => exact minting_turn s t o id row
  | minted id row token => exact minted_turn s t o id row token
  | discarding id token =>
      simp only [next, Shared.revokeToken]
      split
      · exact ⟨.of_eq rfl, .inl rfl, .same rfl, fun _ h => .inl h, .same rfl, .revoked token rfl, trivial⟩
      · exact .quiet (.refl _) trivial
  | dropping id => exact closeCheckout_turn s t o id _ trivial
  | releasing id => exact .quiet (.registry fun id h => Registry.closed_of_releaseStart h) trivial
  | activated id row token =>
      exact ⟨.of_eq rfl, .inl rfl, .added id row token rfl rfl, fun _ h => .inl h, .created id row token rfl rfl,
        .same rfl, row, token, rfl⟩
  | leased id => exact leased_turn s t o id
  | running id =>
      refine ⟨.of_eq rfl, ?_, .same rfl, fun id h => .inl (Registry.closed_of_setLease h), .same rfl, .same rfl, rfl⟩
      simp only [next]
      split
      · exact .inr ⟨id, rfl, rfl⟩
      · exact .inl rfl
  | published id => exact published_turn s t o id
  | delivered id token =>
      exact ⟨.of_eq rfl, .inl rfl, .same rfl, fun _ h => .inl h, .same rfl, .carried id token rfl rfl rfl, trivial⟩
  | matching id caller =>
      simp only [next]
      split
      · exact .quiet (.registry fun id h => Registry.closed_of_sweep h) trivial
      · rename_i e he
        refine .quiet (.registry fun id h => Registry.closed_of_sweep h) ?_
        dsimp only
        split
        · rename_i hclosed
          rw [Registry.owned, Option.filter_eq_some_iff] at he
          exact .inl (Registry.closed_of_sweep ⟨e, he.1, hclosed⟩)
        · split <;> trivial
  | closingRow id =>
      have hturn := fun l' => @closeCheckout_turn s t o id (.closingRow id) l'
      simp only [next]
      cases hclose : s.closeCheckout o id with
      | mk s' closed =>
          rw [hclose] at hturn
          cases closed with
          | true => exact hturn _ trivial
          | false => exact hturn _ trivial
  | marking id seen =>
      refine ⟨.of_eq rfl, .inl rfl, .same rfl, ?_, .same rfl, .same rfl, .inr ⟨seen, rfl⟩⟩
      intro id' hclosed
      refine (Registry.closed_of_markClosed hclosed).imp_right fun hid => ⟨seen, ?_⟩
      rw [hid]
  | closed id =>
      exact ⟨.of_eq rfl, .inl rfl, .same rfl, fun _ h => .inl h, .same rfl, .closed id rfl rfl rfl, trivial⟩
  | closingLease closer id a => exact closeCheckout_turn s t o id _ trivial
  | revokingLease closer id a consumed => exact revoke_turn s t o a _ ⟨consumed, rfl⟩
  | removingLease closer id a closed =>
      refine ⟨.of_eq rfl, .inl rfl, .removed closer id a closed rfl rfl, fun _ h => .inl h, .same rfl, .same rfl, ?_⟩
      cases closer with
      | start => trivial
      | close =>
          simp only [next, Closer.after]
          split <;> trivial
  | withdrawing w =>
      simp only [next]
      split
      · rename_i happly _
        exact .quiet (.store (Withdrawal.apply_grows happly)) (.inl ⟨w, rfl⟩)
      · rename_i happly _
        exact .quiet (.store (Withdrawal.apply_grows happly)) trivial
      · exact .quiet (.refl _) trivial
  | invalidating ids live pending =>
      cases pending with
      | nil =>
          exact ⟨.of_eq rfl, .inl rfl, .same rfl, fun _ h => .inl h, .same rfl, .withdrawn ids live rfl rfl rfl, trivial⟩
      | cons id pending =>
          simp only [next]
          split
          · exact .quiet (.refl _) ⟨id, rfl⟩
          · exact .quiet (.refl _) (.inr (.inl ⟨id, rfl⟩))
  | marked ids live pending a =>
      simp only [next]
      obtain ⟨-, hsame⟩ | ⟨x, hx, hmark⟩ := s.invalidate_spec a
      · rw [hsame]
        exact .quiet (.refl _) (.inr (.inr ⟨a, rfl⟩))
      · rw [hmark]
        exact ⟨.of_eq rfl, .inl rfl, .same rfl, fun _ h => .inl h, .marked a x hx rfl, .same rfl,
          .inr (.inr ⟨a, rfl⟩)⟩
  | reclaiming a => exact revoke_turn s t o a _ trivial
  | finished => exact .quiet (.refl _) trivial

-- What a turn leaves of a lease that was there.
structure HeldLease.Becomes (s' : Shared) (x x' : HeldLease) : Prop where
  reservationID : x'.reservationID = x.reservationID
  token : x'.token = x.token ∨ (x'.token = "" ∧ .revoked x.token ∈ s'.log)
  delivered : x.delivered = true → x'.delivered = true
  invalidated : x.invalidated = true → x'.invalidated = true

theorem HeldLease.Becomes.refl (s' : Shared) (x : HeldLease) : x.Becomes s' x :=
  ⟨rfl, .inl rfl, fun h => h, fun h => h⟩

theorem HeldLease.Becomes.emptied {s' : Shared} {x x' : HeldLease} (h : x.Becomes s' x') (htoken : x.token = "") :
    x'.token = "" := by
  obtain hsame | ⟨hempty, -⟩ := h.token
  · rw [hsame, htoken]
  · exact hempty

namespace Turn

variable {s s' : Shared} {t : Nat} {o : Outcome} {l l' : Stage}

theorem log_mem (h : Turn s t o l s' l') {x : Happening} (hx : x ∈ s.log) : x ∈ s'.log := by
  cases h.log with
  | same hlog => rwa [hlog]
  | minted _ _ _ _ _ hlog => exact hlog ▸ List.mem_cons_of_mem _ hx
  | revoked _ hlog => exact hlog ▸ List.mem_cons_of_mem _ hx
  | delivered _ _ _ _ hlog => exact hlog ▸ List.mem_cons_of_mem _ hx
  | carried _ _ _ _ hlog => exact hlog ▸ List.mem_cons_of_mem _ hx
  | closed _ _ _ hlog => exact hlog ▸ List.mem_cons_of_mem _ hx
  | withdrawn _ _ _ _ hlog => exact hlog ▸ List.mem_cons_of_mem _ hx

theorem begins (h : Turn s t o l s' l') {id : String} {row : Reservation} (hl' : l' = .minting id row) :
    ¬ Spent s id ∧ ¬ Ended s id := by
  subst hl'
  exact h.entered

-- A token only one request knows was known to it before, or it has just been minted.
theorem carries (h : Turn s t o l s' l') {id token : String} (hl' : l'.carries id token) :
    l.carries id token ∨ (.minted id token ∈ s'.log ∧ ∃ row, l = .minting id row) := by
  have hentered := h.entered
  cases l' with
  | minted id' row token' =>
      obtain ⟨rfl, rfl⟩ := hl'
      exact .inr hentered
  | activated id' row token' =>
      obtain ⟨rfl, rfl⟩ := hl'
      rw [hentered.1]
      exact .inl ⟨rfl, rfl⟩
  | discarding id' token' =>
      obtain ⟨rfl, rfl⟩ := hl'
      exact hentered
  | _ => exact hl'.elim

-- A row of the heap after one row was written.
theorem becomes_put {leases : Table Nat HeldLease} {a b : Nat} {x y y' : HeldLease} (hy : leases.get? b = some y)
    (hbecomes : y.Becomes s' y') (hx : leases.get? a = some x) :
    ∃ x', (leases.put b y').get? a = some x' ∧ x.Becomes s' x' := by
  by_cases hab : a = b
  · subst hab
    cases hx.symm.trans hy
    exact ⟨y', Table.get?_put_self .., hbecomes⟩
  · exact ⟨x, by rw [Table.get?_put, if_neg hab, hx], .refl s' x⟩

theorem lease_becomes (h : Turn s t o l s' l') (hat : At s t l) {a : Nat} {x : HeldLease}
    (hx : s.leases.get? a = some x) : ∃ x', s'.leases.get? a = some x' ∧ x.Becomes s' x' := by
  cases h.leases with
  | same hleases => exact ⟨x, by rw [hleases, hx], .refl s' x⟩
  | created id row token hstage hleases =>
      rw [hstage] at hat
      rw [hleases]
      exact ⟨x, Table.get?_put_of_fresh hat.2.2 hx, .refl s' x⟩
  | revoked b y hy htoken hleases hlog =>
      rw [hleases]
      exact becomes_put hy ⟨rfl, .inr ⟨rfl, hlog⟩, fun h => h, fun h => h⟩ hx
  | delivered id y hstage hy hable hleases =>
      rw [hleases]
      exact becomes_put hy ⟨rfl, .inl rfl, fun _ => rfl, fun h => h⟩ hx
  | marked b y hy hleases =>
      rw [hleases]
      exact becomes_put hy ⟨rfl, .inl rfl, fun h => h, fun _ => rfl⟩ hx

-- A lease that is there was there before, or the request that takes the turn has just made it.
theorem lease_of (h : Turn s t o l s' l') (hat : At s t l) {a : Nat} {x' : HeldLease} (hx' : s'.leases.get? a = some x') :
    (∃ x, s.leases.get? a = some x ∧ x.Becomes s' x') ∨
      (a = t ∧ ∃ id row token, l = .activated id row token ∧ x' = newLease id row token) := by
  cases hx : s.leases.get? a with
  | some x =>
      obtain ⟨x'', hx'', hbecomes⟩ := h.lease_becomes hat hx
      cases hx'.symm.trans hx''
      exact .inl ⟨x, rfl, hbecomes⟩
  | none =>
      have hput : ∀ {b y y'}, s.leases.get? b = some y → (s.leases.put b y').get? a = some x' → False := by
        intro b y y' hy hrow
        obtain ⟨rfl, -⟩ | hrow := Table.get?_put_cases hrow
        · cases hx.symm.trans hy
        · cases hx.symm.trans hrow
      cases h.leases with
      | same hleases =>
          rw [hleases, hx] at hx'
          cases hx'
      | created id row token hstage hleases =>
          rw [hleases] at hx'
          obtain ⟨ha, hlease⟩ | hrow := Table.get?_put_cases hx'
          · exact .inr ⟨ha, id, row, token, hstage, hlease⟩
          · cases hx.symm.trans hrow
      | revoked b y hy _ hleases _ => exact absurd (hleases ▸ hx') (hput hy)
      | delivered _ y _ hy _ hleases => exact absurd (hleases ▸ hx') (hput hy)
      | marked b y hy hleases => exact absurd (hleases ▸ hx') (hput hy)

theorem unleased (h : Turn s t o l s' l') (hat : At s t l) {u : Nat} (hu : u ≠ t) (hnone : s.leases.get? u = none) :
    s'.leases.get? u = none := by
  cases hx : s'.leases.get? u with
  | none => rfl
  | some x' =>
      obtain ⟨x, hx, -⟩ | ⟨ht, -⟩ := h.lease_of hat hx
      · cases hnone.symm.trans hx
      · exact absurd ht hu

theorem leaseOf (h : Turn s t o l s' l') (hat : At s t l) {a : Nat} {id : String} {P : HeldLease → Prop}
    (hP : ∀ x x' : HeldLease, x.Becomes s' x' → P x → P x') (hlease : LeaseOf s a id P) : LeaseOf s' a id P := by
  obtain ⟨x, hx, hid, hPx⟩ := hlease
  obtain ⟨x', hx', hbecomes⟩ := h.lease_becomes hat hx
  exact ⟨x', hx', hbecomes.reservationID.trans hid, hP x x' hbecomes hPx⟩

theorem leaseOf_true (h : Turn s t o l s' l') (hat : At s t l) {a : Nat} {id : String}
    (hlease : LeaseOf s a id fun _ => True) : LeaseOf s' a id fun _ => True :=
  h.leaseOf hat (fun _ _ _ _ => trivial) hlease

-- What the other requests know stays true.
theorem others (h : Turn s t o l s' l') (hat : At s t l) {u : Nat} (hu : u ≠ t) {m : Stage} (hm : At s u m) :
    At s' u m := by
  have hspent : ∀ {id}, Spent s id → Spent s' id := fun hs => hs.grows h.rows
  have hconsumed : ∀ {id}, InState s id .consumed → InState s' id .consumed := fun hs => hs.grows h.rows rfl
  cases m with
  | idle | reserving _ _ | claiming _ _ | claimed _ => exact h.unleased hat hu hm
  | minting id row => exact ⟨hspent hm.1, h.unleased hat hu hm.2⟩
  | minted id row token | activated id row token | discarding id token =>
      exact ⟨hspent hm.1, h.log_mem hm.2.1, h.unleased hat hu hm.2.2⟩
  | leased id | running id | published id => exact h.leaseOf_true hat hm
  | delivered id token =>
      exact ⟨h.log_mem hm.1, h.leaseOf hat (fun x x' hbecomes hx => hbecomes.delivered hx) hm.2⟩
  | closingLease closer id a => exact ⟨hm.1, h.leaseOf_true hat hm.2⟩
  | revokingLease closer id a consumed =>
      exact ⟨hm.1, fun hc => hconsumed (hm.2.1 hc), h.leaseOf_true hat hm.2.2⟩
  | removingLease closer id a closed =>
      exact ⟨hm.1, fun hc => hconsumed (hm.2.1 hc),
        h.leaseOf hat (fun x x' hbecomes hx hc => hbecomes.emptied (hx hc)) hm.2.2⟩
  | marking id seen =>
      exact ⟨hconsumed hm.1, fun a ha => h.leaseOf hat (fun x x' hbecomes hx => hbecomes.emptied hx) (hm.2 a ha)⟩
  | _ => trivial

end Turn

-- What the request itself knows after its turn.
theorem next_at {s : Shared} {t : Nat} {l : Stage} (o : Outcome) (hat : At s t l) (hledger : Ledger s) :
    At (next s t o l).1 t (next s t o l).2 := by
  have hturn := next_turn s t o l
  cases l with
  | idle =>
      simp only [next]
      cases o.arrival with
      | none => exact hat
      | some arrival =>
          cases arrival with
          | begin caller authorization =>
              cases authorization with
              | none => trivial
              | some a =>
                  simp only [arrive]
                  split
                  · exact hat
                  · trivial
          | start id caller permitted =>
              simp only [arrive]
              split
              · exact hat
              · trivial
          | close id caller permitted =>
              simp only [arrive]
              split <;> trivial
          | withdraw w granted =>
              simp only [arrive]
              split <;> trivial
          | reclaim a =>
              simp only [arrive]
              split <;> trivial
          | administer authority => trivial
  | reserving caller a =>
      simp only [next]
      split
      · trivial
      · dsimp only
        split <;> trivial
  | claiming id caller =>
      simp only [next]
      split
      · exact hat
      · trivial
  | claimed id =>
      simp only [next]
      cases hcall : s.store.call o.fault (beginMintAttempt o.now s.store id) with
      | mk db answer =>
          cases answer with
          | none => trivial
          | some row =>
              obtain ⟨-, -, -, hdb⟩ := beginMintAttempt_effect (GitHubDB.call_eq_some hcall)
              dsimp only
              split
              · refine ⟨⟨{ row with state := .minting, attempts := 1 }, ?_, Nat.le_refl 1⟩, hat⟩
                exact (congrArg (fun db => db.reservations.get? id) hdb).trans (Table.get?_put_self ..)
              · trivial
  | minting id row =>
      simp only [next]
      split
      · trivial
      · split
        · split
          · exact ⟨hat.1, List.mem_cons_self, hat.2⟩
          · exact ⟨hat.1, List.mem_cons_self, hat.2⟩
        · trivial
  | minted id row token =>
      simp only [next] at hturn ⊢
      split at hturn
      · exact ⟨hat.1.grows hturn.rows, hat.2.1, hat.2.2⟩
      · exact ⟨hat.1.grows hturn.rows, hat.2.1, hat.2.2⟩
  | activated id row token => exact ⟨newLease id row token, Table.get?_put_self .., rfl, trivial⟩
  | leased id =>
      obtain ⟨db, -, hstore, -⟩ := s.startLease_spec o t
      simp only [next]
      cases hstart : s.startLease o t with
      | mk s' started =>
          rw [hstart] at hstore
          subst hstore
          cases started with
          | true => exact hat
          | false => exact ⟨fun _ => rfl, hat⟩
  | running id => exact hat
  | published id =>
      simp only [next]
      obtain hnone | ⟨x, hx, hable, hsome⟩ := s.deliverToken_spec t id
      · rw [hnone]
        trivial
      · obtain ⟨y, hy, rfl, -⟩ := hat
        cases hx.symm.trans hy
        obtain ⟨-, token, -, hminted, hsame | ⟨hempty, -⟩⟩ := hledger.lease t x hx
        · rw [hsome]
          refine ⟨List.mem_cons_of_mem _ ?_, x.handed, Table.get?_put_self .., rfl, rfl⟩
          rw [hsame]
          exact hminted
        · exact absurd hempty hable.1
  | matching id caller =>
      simp only [next]
      split
      · trivial
      · dsimp only
        split
        · trivial
        · split
          · rename_i a ha
            refine ⟨by simp, hledger.held id a ?_⟩
            rw [Option.filter_eq_some_iff] at ha
            exact ha.1
          · trivial
  | closingRow id =>
      obtain ⟨db, -, hstore, hconsumed⟩ := s.closeCheckout_spec o id
      simp only [next]
      cases hclose : s.closeCheckout o id with
      | mk s' closed =>
          rw [hclose] at hstore hconsumed
          subst hstore
          cases closed with
          | true => exact ⟨hconsumed rfl, by simp⟩
          | false => trivial
  | closingLease closer id a =>
      obtain ⟨db, -, hstore, hconsumed⟩ := s.closeCheckout_spec o id
      simp only [next]
      cases hclose : s.closeCheckout o id with
      | mk s' closed =>
          rw [hclose] at hstore hconsumed
          subst hstore
          exact ⟨hat.1, hconsumed, hat.2⟩
  | revokingLease closer id a consumed =>
      obtain ⟨hstart, hconsumed, x, hx, hid, -⟩ := hat
      simp only [next]
      obtain ⟨hsame, -⟩ | ⟨hsame, hempty⟩ | ⟨y, hy, htoken, hrevoke⟩ := s.revoke_spec o a
      · rw [hsame]
        exact ⟨hstart, by simp, x, hx, hid, by simp⟩
      · rw [hsame]
        exact ⟨hstart, by simpa using hconsumed, x, hx, hid, fun _ => hempty x hx⟩
      · cases hx.symm.trans hy
        rw [hrevoke]
        exact ⟨hstart, fun hc => hconsumed (by simpa using hc), x.emptied, Table.get?_put_self .., hid, fun _ => rfl⟩
  | removingLease closer id a closed =>
      obtain ⟨-, hconsumed, hlease⟩ := hat
      cases closer with
      | start => trivial
      | close =>
          simp only [next, Closer.after]
          split
          case isFalse => trivial
          case isTrue hclosed =>
              refine ⟨hconsumed hclosed, ?_⟩
              rintro _ ⟨⟩
              obtain ⟨x, hx, hid, htoken⟩ := hlease
              exact ⟨x, hx, hid, htoken hclosed⟩
  | withdrawing w =>
      simp only [next]
      split <;> trivial
  | invalidating ids live pending =>
      cases pending with
      | nil => trivial
      | cons id pending =>
          simp only [next]
          split <;> trivial
  | _ => trivial

end AutoDeploy.Checkout
