import AutoDeploy.Checkout.Reservations

namespace AutoDeploy.Checkout

open Lib Lib.Result

-- The three checkout requests of an agent and the process-local registry they go through.

structure Caller where
  serverID : String
  attemptID : Int
  fence : Int
deriving DecidableEq, Repr

structure Entry where
  caller : Caller
  leased : Bool
  started : Bool
  closed : Bool
  expiresAt : Nat
deriving DecidableEq, Repr

abbrev Registry := Table String Entry

def checkoutRegistryTTL : Nat := 1800 * 10 ^ 6

namespace Registry

def sweep (reg : Registry) (now : Nat) : Registry := reg.keep fun _ e => decide (now < e.expiresAt)

def add (reg : Registry) (id : String) (caller : Caller) (now : Nat) : Registry :=
  (reg.sweep now).put id ⟨caller, false, false, false, now + checkoutRegistryTTL⟩

-- Only the caller that began a reservation finds it.
def owned (reg : Registry) (id : String) (caller : Caller) (now : Nat) : Option Entry :=
  ((reg.sweep now).get? id).filter fun e => e.caller == caller

def claimStart (reg : Registry) (id : String) (caller : Caller) (now : Nat) : Option Registry :=
  ((reg.owned id caller now).filter fun e => !e.started && !e.closed).map fun e =>
    (reg.sweep now).put id { e with started := true }

def amend (reg : Registry) (id : String) (applies : Entry → Bool) (change : Entry → Entry) : Registry :=
  match (reg.get? id).filter applies with
  | some e => reg.put id (change e)
  | none => reg

def releaseStart (reg : Registry) (id : String) : Registry :=
  reg.amend id (fun e => !e.leased) fun e => { e with started := false }

def setLease (reg : Registry) (id : String) : Registry := reg.amend id (fun _ => true) fun e => { e with leased := true }

def markClosed (reg : Registry) (id : String) : Registry :=
  reg.amend id (fun _ => true) fun e => { e with closed := true }

end Registry

-- What `AuthorizeCheckout` takes from the job of a current attempt. A cancelled job, an expired lease, a moved fence
-- or another server has none.
structure CheckoutAuthorization where
  ownerID : String
  projectID : String
  repositoryID : Nat
  commitSHA : String
deriving DecidableEq, Repr

inductive Answer
  | ok
  | invalidRequest
  | unauthorized
  | unavailable
deriving DecidableEq, Repr

structure Plane where
  store : GitHubDB
  registry : Registry

-- How a request ends: the answer, the registry, and what it called on the store, in order.
structure Handled where
  answer : Answer
  registry : Registry
  calls : List Call

def Caller.valid (c : Caller) : Bool := decide (0 < c.attemptID) && decide (0 < c.fence)

def validReservationID (id : String) : Bool := id != "" && decide (id.utf8ByteSize ≤ 128)

-- `clock` gives the time of each call of a request.
def handleCheckoutBegin (clock : Nat → Nat) (p : Plane) (id : String) (caller : Caller)
    (authorization : Option CheckoutAuthorization) : Handled :=
  if !caller.valid then ⟨.invalidRequest, p.registry, []⟩
  else
    match authorization with
    | none => ⟨.unauthorized, p.registry, []⟩
    | some a =>
        let reserve := Call.reserve (clock 0) id a.ownerID a.projectID a.commitSHA
        match reserveCheckout (clock 0) p.store id a.ownerID a.projectID a.commitSHA with
        | .error _ => ⟨.unavailable, p.registry, [reserve]⟩
        | .ok (_, row) =>
            if row.snapshot.repositoryID ≠ a.repositoryID ∨ row.commitSHA ≠ a.commitSHA then
              ⟨.unavailable, p.registry, [reserve, .close (clock 1) id]⟩
            else ⟨.ok, p.registry.add id caller (clock 1), [reserve]⟩

def Snapshot.valid (s : Snapshot) : Bool :=
  s.ownerID != "" && decide (s.ownerID.utf8ByteSize ≤ 128) && s.projectID != "" &&
    decide (s.projectID.utf8ByteSize ≤ 128) && decide (0 < s.installationID) && decide (0 < s.repositoryID) &&
    decide (0 < s.bindingRevision) && decide (0 < s.repositoryRevision) && decide (0 < s.installationRevision)

def mintable (id : String) (row : Reservation) : Bool :=
  row.snapshot.valid && CheckoutBinding.cloneURLValid ⟨row.snapshot.cloneURL, row.commitSHA, id⟩ &&
    row.commitSHA.utf8ByteSize == 40 && isLowerHex row.commitSHA

-- `Activate` and then `Start` of the lease; whatever does not come through is closed. `minted` says whether the
-- provider gave a token of the right shape.
def handleCheckoutStart (clock : Nat → Nat) (p : Plane) (id : String) (caller : Caller) (permitted minted : Bool) :
    Handled :=
  if !caller.valid || !validReservationID id then ⟨.invalidRequest, p.registry, []⟩
  else if !permitted then ⟨.unauthorized, p.registry, []⟩
  else
    match p.registry.claimStart id caller (clock 0) with
    | none => ⟨.unauthorized, p.registry.sweep (clock 0), []⟩
    | some reg =>
        let mint := Call.beginMint (clock 1) id
        match beginMintAttempt (clock 1) p.store id with
        | .error _ => ⟨.unavailable, reg.releaseStart id, [mint, .close (clock 2) id]⟩
        | .ok (db, row) =>
            if !mintable id row || !minted then
              ⟨.unavailable, reg.releaseStart id, [mint, .close (clock 2) id]⟩
            else
              let activate := Call.activateMint (clock 2) id row.snapshot
              match activateMintAttempt (clock 2) db id row.snapshot with
              | .error _ => ⟨.unavailable, reg.releaseStart id, [mint, activate, .close (clock 3) id]⟩
              | .ok (db, _) =>
                  let start := Call.start (clock 3) id row.snapshot
                  match startCheckout (clock 3) db id row.snapshot with
                  | .error _ => ⟨.unavailable, reg.releaseStart id, [mint, activate, start, .close (clock 4) id]⟩
                  | .ok _ => ⟨.ok, reg.setLease id, [mint, activate, start]⟩

-- A close needs the authorization and the registry entry of its own reservation. `revoked` says whether the provider
-- takes the token back.
def handleCheckoutClose (clock : Nat → Nat) (p : Plane) (id : String) (caller : Caller) (permitted revoked : Bool) :
    Handled :=
  if !caller.valid || !validReservationID id then ⟨.invalidRequest, p.registry, []⟩
  else if !permitted then ⟨.unauthorized, p.registry, []⟩
  else
    match p.registry.owned id caller (clock 0) with
    | none => ⟨.unauthorized, p.registry.sweep (clock 0), []⟩
    | some e =>
        let reg := p.registry.sweep (clock 0)
        if e.closed then ⟨.ok, reg, []⟩
        else
          match closeCheckout (clock 1) p.store id with
          | .error _ => ⟨.unavailable, reg, [.close (clock 1) id]⟩
          | .ok _ =>
              if e.leased && !revoked then ⟨.unavailable, reg, [.close (clock 1) id]⟩
              else ⟨.ok, reg.markClosed id, [.close (clock 1) id]⟩

inductive Request
  | start (id : String) (caller : Caller) (permitted minted : Bool)
  | close (id : String) (caller : Caller) (permitted revoked : Bool)
  | begin (id : String) (caller : Caller) (authorization : Option CheckoutAuthorization)

def Plane.handle (p : Plane) (clock : Nat → Nat) : Request → Handled
  | .begin id caller authorization => handleCheckoutBegin clock p id caller authorization
  | .start id caller permitted minted => handleCheckoutStart clock p id caller permitted minted
  | .close id caller permitted revoked => handleCheckoutClose clock p id caller permitted revoked

-- A crash stops a request after some of its calls and takes the registry with it. Lost answers change nothing here.
inductive Event
  | request (clock : Nat → Nat) (r : Request)
  | crash (clock : Nat → Nat) (r : Request) (made : Nat)
  | invalidate (owner : String) (installationID : Nat)
  | administer (authority : Authority)

def Plane.calls (p : Plane) : Event → List Call
  | .request clock r => (p.handle clock r).calls
  | .crash clock r made => (p.handle clock r).calls.take made
  | .invalidate owner installationID => [.invalidate owner installationID]
  | .administer authority => [.administer authority]

def Plane.step (p : Plane) (e : Event) : Plane where
  store := p.store.after (p.calls e)
  registry :=
    match e with
    | .request clock r => (p.handle clock r).registry
    | .crash .. => Table.empty
    | .invalidate .. | .administer .. => p.registry

def Plane.after (p : Plane) (events : List Event) : Plane := events.foldl Plane.step p

-- Every call of a run, in order.
def Plane.history (p : Plane) : List Event → List Call
  | [] => []
  | e :: rest => p.calls e ++ (p.step e).history rest

theorem Plane.store_after (p : Plane) (events : List Event) :
    (p.after events).store = p.store.after (p.history events) := by
  induction events generalizing p with
  | nil => rfl
  | cons e rest ih =>
      rw [Plane.history, GitHubDB.after_append]
      exact ih (p.step e)

namespace Registry

variable {reg : Registry} {id : String}

theorem get?_sweep_eq_none (h : reg.get? id = none) (now : Nat) : (reg.sweep now).get? id = none := by
  rw [sweep, Table.get?_keep, h]
  rfl

theorem owned_eq_none (h : reg.get? id = none) (caller : Caller) (now : Nat) : reg.owned id caller now = none := by
  rw [owned, get?_sweep_eq_none h]
  rfl

theorem get?_add_eq_none (h : reg.get? id = none) {id' : String} (hne : id ≠ id') (caller : Caller) (now : Nat) :
    (reg.add id' caller now).get? id = none := by
  rw [add, Table.get?_put, if_neg hne]
  exact get?_sweep_eq_none h now

-- No change of an entry adds one.
theorem get?_amend_eq_none (h : reg.get? id = none) (id' : String) (applies : Entry → Bool) (change : Entry → Entry) :
    (reg.amend id' applies change).get? id = none := by
  unfold amend
  split
  case h_2 => exact h
  case h_1 e he =>
      have hne : id ≠ id' := by
        rintro rfl
        rw [h] at he
        cases he
      rw [Table.get?_put, if_neg hne, h]

theorem claimStart_of_eq_none {reg' : Registry} {id' : String} {caller : Caller} {now : Nat} (h : reg.get? id = none)
    (hclaim : reg.claimStart id' caller now = some reg') : id ≠ id' ∧ reg'.get? id = none := by
  rw [claimStart, Option.map_eq_some_iff] at hclaim
  obtain ⟨e, he, rfl⟩ := hclaim
  have hne : id ≠ id' := by
    rintro rfl
    rw [owned_eq_none h] at he
    cases he
  refine ⟨hne, ?_⟩
  rw [Table.get?_put, if_neg hne]
  exact get?_sweep_eq_none h now

end Registry

-- A running reservation that the registry does not know.
structure Orphaned (p : Plane) (id : String) (row : Reservation) : Prop where
  running : Running p.store id row
  lost : p.registry.get? id = none

theorem running_after_of_kept {db : GitHubDB} {id : String} {row : Reservation} (h : Running db id row)
    {calls : List Call} (hkept : ∀ c ∈ calls, ¬ Releases id row c) : Running (db.after calls) id row := by
  induction calls generalizing db with
  | nil => exact h
  | cons c rest ih =>
      refine ih ?_ fun c hc => hkept c (List.mem_cons_of_mem _ hc)
      exact (running_exec_iff db c id row).2 (.inl ⟨h, hkept c List.mem_cons_self⟩)

theorem Running.ne_of_reserved {db db' : GitHubDB} {now : Nat} {id id' owner project sha : String}
    {row new : Reservation} (h : Running db id row)
    (hreserve : reserveCheckout now db id' owner project sha = .ok (db', new)) : id ≠ id' := by
  rintro rfl
  have hrow := h.1
  rw [(reserveCheckout_effect hreserve).1] at hrow
  cases hrow

theorem begin_of_orphaned {p : Plane} {id : String} {row : Reservation} (h : Orphaned p id row) (clock : Nat → Nat)
    (id' : String) (caller : Caller) (authorization : Option CheckoutAuthorization) :
    (∀ c ∈ (handleCheckoutBegin clock p id' caller authorization).calls, ¬ Releases id row c) ∧
      (handleCheckoutBegin clock p id' caller authorization).registry.get? id = none := by
  fun_cases handleCheckoutBegin clock p id' caller authorization with
  | case1 => exact ⟨by simp, h.lost⟩
  | case2 => exact ⟨by simp, h.lost⟩
  | case3 => exact ⟨by simp [Releases], h.lost⟩
  | case4 _ a _ db new hreserve =>
      have hne := h.running.ne_of_reserved hreserve
      exact ⟨by simp [Releases, Ne.symm hne], h.lost⟩
  | case5 _ a _ db new hreserve =>
      have hne := h.running.ne_of_reserved hreserve
      exact ⟨by simp [Releases], Registry.get?_add_eq_none h.lost hne caller _⟩

theorem start_of_orphaned {p : Plane} {id : String} {row : Reservation} (h : Orphaned p id row) (clock : Nat → Nat)
    (id' : String) (caller : Caller) (permitted minted : Bool) :
    (∀ c ∈ (handleCheckoutStart clock p id' caller permitted minted).calls, ¬ Releases id row c) ∧
      (handleCheckoutStart clock p id' caller permitted minted).registry.get? id = none := by
  fun_cases handleCheckoutStart clock p id' caller permitted minted with
  | case1 => exact ⟨by simp, h.lost⟩
  | case2 => exact ⟨by simp, h.lost⟩
  | case3 => exact ⟨by simp, Registry.get?_sweep_eq_none h.lost _⟩
  | case4 _ _ reg hclaim =>
      obtain ⟨hne, hreg⟩ := Registry.claimStart_of_eq_none h.lost hclaim
      exact ⟨by simp [Releases, Ne.symm hne], Registry.get?_amend_eq_none hreg ..⟩
  | case5 _ _ reg hclaim =>
      obtain ⟨hne, hreg⟩ := Registry.claimStart_of_eq_none h.lost hclaim
      exact ⟨by simp [Releases, Ne.symm hne], Registry.get?_amend_eq_none hreg ..⟩
  | case6 _ _ reg hclaim =>
      obtain ⟨hne, hreg⟩ := Registry.claimStart_of_eq_none h.lost hclaim
      exact ⟨by simp [Releases, Ne.symm hne], Registry.get?_amend_eq_none hreg ..⟩
  | case7 _ _ reg hclaim =>
      obtain ⟨hne, hreg⟩ := Registry.claimStart_of_eq_none h.lost hclaim
      exact ⟨by simp [Releases, Ne.symm hne], Registry.get?_amend_eq_none hreg ..⟩
  | case8 _ _ reg hclaim =>
      obtain ⟨hne, hreg⟩ := Registry.claimStart_of_eq_none h.lost hclaim
      exact ⟨by simp [Releases], Registry.get?_amend_eq_none hreg ..⟩

theorem close_of_orphaned {p : Plane} {id : String} {row : Reservation} (h : Orphaned p id row) (clock : Nat → Nat)
    (id' : String) (caller : Caller) (permitted revoked : Bool) :
    (∀ c ∈ (handleCheckoutClose clock p id' caller permitted revoked).calls, ¬ Releases id row c) ∧
      (handleCheckoutClose clock p id' caller permitted revoked).registry.get? id = none := by
  have hsweep := Registry.get?_sweep_eq_none h.lost
  have howned : ∀ {e : Entry}, p.registry.owned id' caller (clock 0) = some e → id' ≠ id := by
    rintro e he rfl
    rw [Registry.owned_eq_none h.lost] at he
    cases he
  fun_cases handleCheckoutClose clock p id' caller permitted revoked with
  | case1 => exact ⟨by simp, h.lost⟩
  | case2 => exact ⟨by simp, h.lost⟩
  | case3 => exact ⟨by simp, hsweep _⟩
  | case4 => exact ⟨by simp, hsweep _⟩
  | case5 _ _ e he => exact ⟨by simp [Releases, howned he], hsweep _⟩
  | case6 _ _ e he => exact ⟨by simp [Releases, howned he], hsweep _⟩
  | case7 _ _ e he => exact ⟨by simp [Releases, howned he], Registry.get?_amend_eq_none (hsweep _) ..⟩

theorem handle_of_orphaned {p : Plane} {id : String} {row : Reservation} (h : Orphaned p id row) (clock : Nat → Nat)
    (r : Request) :
    (∀ c ∈ (p.handle clock r).calls, ¬ Releases id row c) ∧ (p.handle clock r).registry.get? id = none := by
  cases r with
  | begin id' caller authorization => exact begin_of_orphaned h clock id' caller authorization
  | start id' caller permitted minted => exact start_of_orphaned h clock id' caller permitted minted
  | close id' caller permitted revoked => exact close_of_orphaned h clock id' caller permitted revoked

-- No request, crash or restart reaches a reservation that the registry lost: only an invalidation of its
-- installation does.
theorem orphaned_step {p : Plane} {id : String} {row : Reservation} (h : Orphaned p id row) {e : Event}
    (hkept : e ≠ .invalidate row.snapshot.ownerID row.snapshot.installationID) : Orphaned (p.step e) id row := by
  cases e with
  | request clock r =>
      obtain ⟨hcalls, hregistry⟩ := handle_of_orphaned h clock r
      exact ⟨running_after_of_kept h.running hcalls, hregistry⟩
  | crash clock r made =>
      obtain ⟨hcalls, -⟩ := handle_of_orphaned h clock r
      exact ⟨running_after_of_kept h.running fun c hc => hcalls c (List.mem_of_mem_take hc), Table.get?_empty id⟩
  | invalidate owner installationID =>
      refine ⟨running_after_of_kept h.running ?_, h.lost⟩
      intro c hc
      rw [List.mem_singleton.1 hc]
      rintro ⟨rfl, rfl⟩
      exact hkept rfl
  | administer authority =>
      refine ⟨running_after_of_kept h.running ?_, h.lost⟩
      intro c hc
      rw [List.mem_singleton.1 hc]
      exact not_false

theorem orphaned_after {p : Plane} {id : String} {row : Reservation} (h : Orphaned p id row) {events : List Event}
    (hkept : ∀ e ∈ events, e ≠ .invalidate row.snapshot.ownerID row.snapshot.installationID) :
    Orphaned (p.after events) id row := by
  induction events generalizing p with
  | nil => exact h
  | cons e rest ih =>
      exact ih (orphaned_step h (hkept e List.mem_cons_self)) fun e he => hkept e (List.mem_cons_of_mem _ he)

-- Whatever the time and the authority: nothing is reserved beside a running reservation of the same project.
theorem reserveCheckout_of_running {now : Nat} {db : GitHubDB} {id id' owner project sha : String} {row : Reservation}
    (h : Running db id row) (hproject : ofProject owner project row = true) :
    ¬ Succeeds (reserveCheckout now db id' owner project sha) := by
  rintro ⟨⟨db', new⟩, hreserve⟩
  simp only [reserveCheckout, bind_eq_ok, require_eq_ok, found_eq_ok, pure_eq_ok] at hreserve
  obtain ⟨_, -, snapshot, hactive, _, -, t, hinsert, -⟩ := hreserve
  obtain ⟨howner, hname, -⟩ := authorized_eq_some hactive
  obtain ⟨-, -, -, -, -, hany, -⟩ := insertReservation_eq_ok.1 hinsert
  have hexpired := ((expire_running_iff now owner project row row).2 ⟨rfl, h.2⟩).1
  have hlive := Table.any_eq_false hany (k := id) (v := row) (by simp [h.1, hexpired])
  simp [newReservation, howner, hname, hproject, h.2, ReservationState.live] at hlive

-- A control plane that restarts between the start and the close leaves the project without checkouts for good.
theorem orphaned_blocks {p : Plane} {id owner project : String} {row : Reservation} (h : Orphaned p id row)
    (hproject : ofProject owner project row = true) {events : List Event}
    (hkept : ∀ e ∈ events, e ≠ .invalidate row.snapshot.ownerID row.snapshot.installationID)
    (now : Nat) (id' sha : String) :
    ¬ Succeeds (reserveCheckout now (p.after events).store id' owner project sha) :=
  reserveCheckout_of_running (orphaned_after h hkept).running hproject

-- In every history of calls: once everything of an authorized project is past its time, the next reservation is
-- granted exactly when every start of the project was closed or invalidated.
theorem reserve_succeeds_iff_released {db : GitHubDB} (hempty : ∀ id, db.reservations.get? id = none)
    (calls : List Call) {now : Nat} {id owner project sha : String} {snapshot : Snapshot}
    (hactive : authorized (db.after calls).authority owner project = some snapshot)
    (hpast : ∀ id row, (db.after calls).reservations.get? id = some row → ofProject owner project row = true →
      row.expiresAt ≤ now)
    (hfresh : (db.after calls).reservations.get? id = none) :
    Succeeds (reserveCheckout now (db.after calls) id owner project sha) ↔
      Reservable snapshot sha ∧ ∀ id row, Unreleased db calls id row → ofProject owner project row = false := by
  rw [reserveCheckout_succeeds_iff hactive hpast hfresh]
  simp only [running_after_iff hempty calls]

def sampleAuthority : Authority where
  bindings := Table.empty.put ("owner", "project") ⟨7, 42, 1, true⟩
  repositories := Table.empty.put 42 ⟨"owner", 7, "https://github.com/owner/app.git", 1, true⟩
  installations := Table.empty.put 7 ⟨"owner", 1, true, false⟩
  registered := true
  referenced := by
    intro key b hb
    rw [Table.get?_put] at hb
    split at hb
    case isTrue hkey =>
        cases hb
        exact ⟨_, rfl, rfl, by rw [hkey]⟩
    case isFalse => cases hb

def samplePlane : Plane := ⟨⟨sampleAuthority, Table.empty⟩, Table.empty⟩

def sampleSHA : String := "aaaaaaaaaaaaaaaaaaaaaaaaaaaaaaaaaaaaaaaa"

def sampleCaller : Caller := ⟨"server", 1, 1⟩

def sampleJob : CheckoutAuthorization := ⟨"owner", "project", 42, sampleSHA⟩

-- One second passes with every call.
def sampleClock (since n : Nat) : Nat := (since + n) * 10 ^ 6

def sampleBegun : Event := .request (sampleClock 10) (.begin "first" sampleCaller (some sampleJob))

def sampleStarted : Event := .request (sampleClock 20) (.start "first" sampleCaller true true)

def sampleClosed : Event := .request (sampleClock 40) (.close "first" sampleCaller true true)

-- The process stops before it reads anything of the next request.
def sampleRestarted : Event := .crash (sampleClock 30) (.close "first" sampleCaller true true) 0

def sampleLater : Nat := 3600 * 10 ^ 6

-- The calls of a checkout that was closed.
def sampleCalls : List Call := samplePlane.history [sampleBegun, sampleStarted, sampleClosed]

theorem reserve_succeeds_iff_released_closed :
    Succeeds (reserveCheckout sampleLater (samplePlane.store.after sampleCalls) "second" "owner" "project" sampleSHA) ∧
      ∀ id row, Unreleased samplePlane.store sampleCalls id row → ofProject "owner" "project" row = false := by
  have hstored : (authorized (samplePlane.store.after sampleCalls).authority "owner" "project").isSome = true ∧
      (samplePlane.store.after sampleCalls).reservations.rows.all (fun row => decide (row.2.expiresAt ≤ sampleLater)) = true ∧
      (reserveCheckout sampleLater (samplePlane.store.after sampleCalls) "second" "owner" "project"
        sampleSHA).toOption.any (fun _ => true) = true := by
    decide
  obtain ⟨hactive, hall, hreserves⟩ := hstored
  obtain ⟨snapshot, hsnapshot⟩ := Option.isSome_iff_exists.1 hactive
  obtain ⟨result, hresult, -⟩ := ok_of_any hreserves
  refine ⟨⟨result, hresult⟩, ((reserve_succeeds_iff_released (fun id => Table.get?_empty id) sampleCalls hsnapshot ?_
    (by decide)).1 ⟨result, hresult⟩).2⟩
  intro id row hrow _
  simpa using List.all_eq_true.1 hall (id, row) ((Table.mem_rows_iff _ id row).2 hrow)

-- The agent asked for its close as it should, but the registry was gone with the old process.
def sampleLost : Plane := samplePlane.after [sampleBegun, sampleStarted, sampleRestarted, sampleClosed]

theorem lost_checkout_blocks_project :
    (authorized sampleLost.store.authority "owner" "project").isSome = true ∧
      (∀ id row, sampleLost.store.reservations.get? id = some row → row.expiresAt ≤ sampleLater) ∧
      sampleLost.store.reservations.get? "second" = none ∧
      ¬ Succeeds (reserveCheckout sampleLater sampleLost.store "second" "owner" "project" sampleSHA) := by
  have hstored : sampleLost.store.reservations.rows.all (fun row => decide (row.2.expiresAt ≤ sampleLater)) = true ∧
      (authorized sampleLost.store.authority "owner" "project").isSome = true ∧
      sampleLost.store.reservations.get? "second" = none ∧
      failsWith (reserveCheckout sampleLater sampleLost.store "second" "owner" "project" sampleSHA) .denied = true := by
    decide
  obtain ⟨hall, hactive, hfree, hfails⟩ := hstored
  refine ⟨hactive, ?_, hfree, ?_⟩
  · intro id row hrow
    simpa using List.all_eq_true.1 hall (id, row) ((Table.mem_rows_iff _ id row).2 hrow)
  · rintro ⟨result, hresult⟩
    have hdenied := error_of_failsWith hfails
    rw [hresult] at hdenied
    cases hdenied

end AutoDeploy.Checkout
