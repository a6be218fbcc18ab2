import AutoDeploy.Enrollment.Enroll

namespace AutoDeploy.Enrollment

open Lib Lib.Result Store Agent

-- The control plane would store the digest now.
def EnrollRun.accepts (input : EnrollInput) (s : EnrollRun) (now : Nat) : Prop :=
  ∃ digest result, credentialTokenDigest input.token = some digest ∧
    s.db.enroll now input.serverID input.enrollmentDigest digest = .ok result

-- What a run must do for the agent to hear of an accepted digest: a request is accepted while its attempt waits, or
-- after a crash, and answered with success; and no attempt ends without an answer once the digest is accepted.
def Event.Heard (input : EnrollInput) (s : EnrollRun) : Event → Prop
  | .deliver attempt now fault =>
      s.accepts input now → fault ≠ .beforeCommit →
        s.stage = .crashed ∨ (s.stage = .waiting attempt ∧ fault = .none)
  | .lose _ | .cancel _ => ¬ s.accepted input
  | _ => True

inductive EnrollRun.HeardStep (input : EnrollInput) (s : EnrollRun) : EnrollRun → Prop
  | event {e : Event} {s' : EnrollRun} (hheard : e.Heard input s) (h : s.next input e = some s') : HeardStep input s s'
  | other {db : Registry} (h : s.db.Keeps input db) : HeardStep input s { s with db := db }

def heardSystem (input : EnrollInput) : System EnrollRun where
  initial := EnrollRun.Initial input
  next := EnrollRun.HeardStep input

def EnrollRun.file (input : EnrollInput) (s : EnrollRun) : Prop :=
  s.dir.get? credentialFileName = some (.token input.token)

-- Before its first request `Enroll` is unknown to the control plane; from then on it has its file, and when the digest
-- is accepted it is still waiting for just that answer, or it has returned it.
structure EnrollRun.Sound (input : EnrollInput) (s : EnrollRun) : Prop where
  unsent : s.stage = .starting ∨ s.stage = .written → s.requests = [] ∧ s.responses = [] ∧ ¬ s.accepted input
  file : s.stage = .written ∨ (∃ n, s.stage = .ready n ∨ s.stage = .waiting n) → s.file input
  crashed : s.stage = .crashed → (s.requests = [] ∧ ¬ s.accepted input) ∨ s.file input
  ready : ∀ n, s.stage = .ready n → (∀ m ∈ s.requests, m < n) ∧ (∀ m r, (m, r) ∈ s.responses → m < n)
  waiting : ∀ n, s.stage = .waiting n → (∀ m ∈ s.requests, m ≤ n) ∧ (∀ m r, (m, r) ∈ s.responses → m ≤ n)
  once : s.requests.Nodup ∧ ∀ m ∈ s.requests, ∀ r, (m, r) ∉ s.responses
  heard : s.accepted input → s.file input ∧ (∀ n, s.stage ≠ .ready n) ∧
    ∀ n, s.stage = .waiting n → n ∉ s.requests ∧ ∀ r, (n, r) ∈ s.responses → ∃ version, r = .ok version

section

variable {input : EnrollInput} {s s' : EnrollRun}

theorem accepted_iff_of_keeps {db : Registry} (h : s.db.Keeps input db) :
    EnrollRun.accepted input { s with db := db } ↔ s.accepted input := by
  constructor
  · rintro ⟨digest, row', htoken, hrow', rfl⟩
    cases hrow : s.db.credentials.get? (input.serverID, 1) with
    | none => exact absurd htoken (h.foreign hrow row' hrow')
    | some row =>
        obtain ⟨stored, hstored, hsame⟩ := h.kept row hrow
        obtain rfl := Option.some.inj (hrow'.symm.trans hstored)
        exact ⟨row'.digest, row, htoken, hrow, hsame.symm⟩
  · rintro ⟨digest, row, htoken, hrow, rfl⟩
    obtain ⟨row', hrow', hsame⟩ := h.kept row hrow
    exact ⟨row.digest, row', htoken, hrow', hsame⟩

-- Another enrollment: of another server, or of this one with a digest that is not the token's.
theorem Registry.Keeps.enroll {db db' : Registry} {now version : Nat} {serverID : String} {enrolled presented : Digest}
    (h : db.enroll now serverID enrolled presented = .ok (db', version))
    (hother : serverID = input.serverID → credentialTokenDigest input.token ≠ some presented) : db.Keeps input db' := by
  obtain ⟨-, hfree, hput⟩ := Registry.enroll_eq_ok h
  constructor
  case kept =>
    intro row hrow
    exact ⟨row, hput ▸ Table.get?_put_of_fresh hfree hrow, rfl⟩
  case foreign =>
    intro hnone row' hrow'
    rw [hput] at hrow'
    obtain ⟨hkey, rfl⟩ | hrow' := Table.get?_put_cases hrow'
    · exact hother (Prod.mk.inj hkey).1.symm
    · rw [hnone] at hrow'
      cases hrow'

-- What the handler does to the tables: it stores the digest, or nothing.
theorem handleEnroll_cases (now : Nat) (fault : TransactionFault) (db : Registry) (input : EnrollInput)
    (digest : Digest) :
    ((handleEnroll now fault db input digest).1 = db ∧ ∀ version, (handleEnroll now fault db input digest).2 ≠ .ok version) ∨
      ((∃ result, db.enroll now input.serverID input.enrollmentDigest digest = .ok result) ∧ fault ≠ .beforeCommit ∧
        (fault = .none → (handleEnroll now fault db input digest).2 = .ok 1)) := by
  unfold handleEnroll
  cases henroll : db.enroll now input.serverID input.enrollmentDigest digest with
  | error e =>
      refine .inl ⟨rfl, ?_⟩
      intro version
      cases e <;> simp [enrollReply, unavailable]
  | ok result =>
      obtain ⟨db', version⟩ := result
      obtain ⟨rfl, _, _⟩ := Registry.enroll_eq_ok henroll
      cases fault with
      | none => exact .inr ⟨⟨_, rfl⟩, by decide, fun _ => rfl⟩
      | beforeCommit => exact .inl ⟨rfl, by simp [unavailable]⟩
      | afterCommit => exact .inr ⟨⟨_, rfl⟩, by decide, fun h => by cases h⟩

-- A write that succeeds leaves the token in place.
theorem writeCredentialAtomic_eq_ok {o : Outcome} {dir dir' : StateDir} {token : Bytes}
    (h : writeCredentialAtomic o dir token = (dir', .ok ())) : dir'.get? credentialFileName = some (.token token) := by
  unfold writeCredentialAtomic at h
  split at h
  · obtain ⟨_, rfl⟩ := Directory.write_eq_ok.1 h
    exact Table.get?_put_self _ _ _
  · split at h
    · cases h
    · cases h

namespace EnrollRun.Sound

-- An end that does not lose an accepted credential.
theorem ended (hs : s.Sound input) {dir : StateDir} (result : Except EnrollFailure Nat)
    (hkept : s.accepted input → dir.get? credentialFileName = some (.token input.token)) :
    EnrollRun.Sound input { s with dir := dir, stage := .returned result } := by
  constructor
  case unsent => rintro (h | h) <;> cases h
  case file => rintro (h | ⟨_, h | h⟩) <;> cases h
  case crashed => exact nofun
  case ready => exact nofun
  case waiting => exact nofun
  case once => exact hs.once
  case heard =>
    intro haccepted
    exact ⟨hkept haccepted, nofun, nofun⟩

theorem gaveUp (hs : s.Sound input) (hnot : ¬ s.accepted input) (failure : EnrollFailure) (removes : Bool) :
    (s.gaveUp failure removes).Sound input :=
  hs.ended _ fun haccepted => absurd haccepted hnot

theorem attemptFailed (hs : s.Sound input) {n : Nat} (hstage : s.stage = .waiting n) (hnot : ¬ s.accepted input)
    (e : ClientError) (removes : Bool) : (s.attemptFailed n e removes).Sound input := by
  unfold EnrollRun.attemptFailed nextAttempt
  split_ifs with hretry
  · obtain ⟨hrequests, hresponses⟩ := hs.waiting n hstage
    constructor
    case unsent => rintro (h | h) <;> cases h
    case file => exact fun _ => hs.file (.inr ⟨n, .inr hstage⟩)
    case crashed => exact nofun
    case ready =>
      intro next h
      cases h
      exact ⟨fun m hm => Nat.lt_succ_of_le (hrequests m hm), fun m r hm => Nat.lt_succ_of_le (hresponses m r hm)⟩
    case waiting => exact nofun
    case once => exact hs.once
    case heard => exact fun haccepted => absurd haccepted hnot
  · exact hs.gaveUp hnot _ _

theorem write (hs : s.Sound input) {o : Outcome} (h : s.next input (.write o) = some s') : s'.Sound input := by
  simp only [EnrollRun.next] at h
  split at h
  case h_2 => cases h
  case h_1 hstage =>
    obtain ⟨hrequests, hresponses, hnot⟩ := hs.unsent (.inl hstage)
    split at h
    · rename_i dir hwrite
      cases h
      have hfile := writeCredentialAtomic_eq_ok hwrite
      constructor
      case unsent => exact fun _ => ⟨hrequests, hresponses, hnot⟩
      case file => exact fun _ => hfile
      case crashed => exact nofun
      case ready => exact nofun
      case waiting => exact nofun
      case once => exact hs.once
      case heard => exact fun haccepted => absurd haccepted hnot
    · cases h
      exact hs.ended _ fun haccepted => absurd haccepted hnot
    · cases h
      constructor
      case unsent => rintro (h | h) <;> cases h
      case file => rintro (h | ⟨_, h | h⟩) <;> cases h
      case crashed => exact fun _ => .inl ⟨hrequests, hnot⟩
      case ready => exact nofun
      case waiting => exact nofun
      case once => exact hs.once
      case heard => exact fun haccepted => absurd haccepted hnot

theorem connect (hs : s.Sound input) {removes : Bool} (h : s.next input (.connect removes) = some s') :
    s'.Sound input := by
  simp only [EnrollRun.next] at h
  split at h
  case h_2 => cases h
  case h_1 hstage =>
    obtain ⟨hrequests, hresponses, hnot⟩ := hs.unsent (.inr hstage)
    split at h
    · cases h
      exact hs.gaveUp hnot _ _
    · split_ifs at h with hclient
      · cases h
        constructor
        case unsent => rintro (h | h) <;> cases h
        case file => exact fun _ => hs.file (.inl hstage)
        case crashed => exact nofun
        case ready =>
          intro n _
          simp only [hrequests, hresponses]
          exact ⟨fun m hm => absurd hm List.not_mem_nil, fun m r hm => absurd hm List.not_mem_nil⟩
        case waiting => exact nofun
        case once => exact hs.once
        case heard => exact fun haccepted => absurd haccepted hnot
      · cases h
        exact hs.gaveUp hnot _ _

theorem send (hs : s.Sound input) (h : s.next input .send = some s') : s'.Sound input := by
  simp only [EnrollRun.next] at h
  split at h
  case h_2 => cases h
  case h_1 n hstage =>
    cases h
    obtain ⟨hrequests, hresponses⟩ := hs.ready n hstage
    have hnot : ¬ s.accepted input := fun haccepted => (hs.heard haccepted).2.1 n hstage
    constructor
    case unsent => rintro (h | h) <;> cases h
    case file => exact fun _ => hs.file (.inr ⟨n, .inl hstage⟩)
    case crashed => exact nofun
    case ready => exact nofun
    case waiting =>
      intro current h
      cases h
      refine ⟨?_, fun m r hm => (hresponses m r hm).le⟩
      intro m hm
      obtain rfl | hm := List.mem_cons.1 hm
      · exact le_refl _
      · exact (hrequests m hm).le
    case once =>
      refine ⟨List.nodup_cons.2 ⟨fun hmem => lt_irrefl _ (hrequests n hmem), hs.once.1⟩, ?_⟩
      intro m hm r hr
      obtain rfl | hm := List.mem_cons.1 hm
      · exact lt_irrefl _ (hresponses m r hr)
      · exact hs.once.2 m hm r hr
    case heard => exact fun haccepted => absurd haccepted hnot

theorem crash (hs : s.Sound input) (h : s.next input .crash = some s') : s'.Sound input := by
  have hheld : (s.requests = [] ∧ ¬ s.accepted input) ∨ s.file input ∨ ∃ result, s.stage = .returned result := by
    cases hstage : s.stage with
    | starting =>
        obtain ⟨hrequests, _, hnot⟩ := hs.unsent (.inl hstage)
        exact .inl ⟨hrequests, hnot⟩
    | written => exact .inr (.inl (hs.file (.inl hstage)))
    | ready n => exact .inr (.inl (hs.file (.inr ⟨n, .inl hstage⟩)))
    | waiting n => exact .inr (.inl (hs.file (.inr ⟨n, .inr hstage⟩)))
    | returned result => exact .inr (.inr ⟨result, rfl⟩)
    | crashed => exact (hs.crashed hstage).imp_right .inl
  simp only [EnrollRun.next] at h
  split at h
  case h_1 => cases h
  case h_2 hother =>
    cases h
    constructor
    case unsent => rintro (h | h) <;> cases h
    case file => rintro (h | ⟨_, h | h⟩) <;> cases h
    case crashed =>
      intro _
      obtain hnone | hfile | ⟨result, hreturned⟩ := hheld
      · exact .inl hnone
      · exact .inr hfile
      · exact absurd hreturned (hother result)
    case ready => exact nofun
    case waiting => exact nofun
    case once => exact hs.once
    case heard =>
      intro haccepted
      exact ⟨(hs.heard haccepted).1, nofun, nofun⟩

theorem answer (hs : s.Sound input) {attempt : Nat} {reply : Reply Nat} {removes : Bool}
    (h : s.next input (.answer attempt reply removes) = some s') : s'.Sound input := by
  simp only [EnrollRun.next] at h
  split at h
  case h_2 => cases h
  case h_1 n hstage =>
    split_ifs at h with hanswer
    obtain ⟨rfl, hmem⟩ := hanswer
    split at h
    · cases h
      exact hs.ended _ fun haccepted => (hs.heard haccepted).1
    · rename_i e hreceived
      cases h
      refine hs.attemptFailed hstage ?_ e removes
      -- an accepted digest has been answered with success
      intro haccepted
      obtain ⟨_, hok⟩ := (hs.heard haccepted).2.2 n hstage
      obtain ⟨version, rfl⟩ := hok reply hmem
      cases hreceived

theorem lose (hs : s.Sound input) {removes : Bool} (hheard : Event.Heard input s (.lose removes))
    (h : s.next input (.lose removes) = some s') : s'.Sound input := by
  simp only [EnrollRun.next] at h
  split at h
  case h_2 => cases h
  case h_1 n hstage =>
    cases h
    exact hs.attemptFailed hstage hheard _ _

theorem cancel (hs : s.Sound input) {removes : Bool} (hheard : Event.Heard input s (.cancel removes))
    (h : s.next input (.cancel removes) = some s') : s'.Sound input := by
  simp only [EnrollRun.next] at h
  split at h
  case h_2 => cases h
  case h_1 n hstage =>
    split_ifs at h with hfirst
    cases h
    exact hs.gaveUp hheard _ _

-- The one event that changes what the control plane has.
theorem deliver (hs : s.Sound input) {attempt now : Nat} {fault : TransactionFault}
    (hheard : Event.Heard input s (.deliver attempt now fault))
    (h : s.next input (.deliver attempt now fault) = some s') : s'.Sound input := by
  simp only [EnrollRun.next, Option.bind_eq_bind, Option.bind_eq_some_iff] at h
  obtain ⟨digest, hdigest, h⟩ := h
  split_ifs at h with hmem
  obtain rfl := Option.some.inj h
  have hrest {m : Nat} (hm : m ∈ s.requests.erase attempt) : m ∈ s.requests := List.mem_of_mem_erase hm
  have hgone : attempt ∉ s.requests.erase attempt := fun hm => (List.Nodup.mem_erase_iff hs.once.1).1 hm |>.1 rfl
  have honce : (s.requests.erase attempt).Nodup ∧ ∀ m ∈ s.requests.erase attempt, ∀ r,
      (m, r) ∉ (attempt, (handleEnroll now fault s.db input digest).2) :: s.responses := by
    refine ⟨hs.once.1.erase attempt, ?_⟩
    intro m hm r hr
    obtain heq | hr := List.mem_cons.1 hr
    · obtain ⟨rfl, _⟩ := Prod.mk.inj heq
      exact hgone hm
    · exact hs.once.2 m (hrest hm) r hr
  have hsent : s.stage ≠ .starting ∧ s.stage ≠ .written := by
    constructor
    · intro hstage
      rw [(hs.unsent (.inl hstage)).1] at hmem
      cases hmem
    · intro hstage
      rw [(hs.unsent (.inr hstage)).1] at hmem
      cases hmem
  have hready (n : Nat) (hstage : s.stage = .ready n) : (∀ m ∈ s.requests.erase attempt, m < n) ∧ ∀ m r,
      (m, r) ∈ (attempt, (handleEnroll now fault s.db input digest).2) :: s.responses → m < n := by
    obtain ⟨hrequests, hresponses⟩ := hs.ready n hstage
    refine ⟨fun m hm => hrequests m (hrest hm), ?_⟩
    intro m r hr
    obtain heq | hr := List.mem_cons.1 hr
    · obtain ⟨rfl, _⟩ := Prod.mk.inj heq
      exact hrequests m hmem
    · exact hresponses m r hr
  have hwaiting (n : Nat) (hstage : s.stage = .waiting n) : (∀ m ∈ s.requests.erase attempt, m ≤ n) ∧ ∀ m r,
      (m, r) ∈ (attempt, (handleEnroll now fault s.db input digest).2) :: s.responses → m ≤ n := by
    obtain ⟨hrequests, hresponses⟩ := hs.waiting n hstage
    refine ⟨fun m hm => hrequests m (hrest hm), ?_⟩
    intro m r hr
    obtain heq | hr := List.mem_cons.1 hr
    · obtain ⟨rfl, _⟩ := Prod.mk.inj heq
      exact hrequests m hmem
    · exact hresponses m r hr
  obtain ⟨hsame, _⟩ | ⟨haccepts, hfault, hreply⟩ := handleEnroll_cases now fault s.db input digest
  · -- nothing is stored: an accepted digest was answered before, and this is an older request
    have hold : EnrollRun.accepted input { s with
        db := (handleEnroll now fault s.db input digest).1
        requests := s.requests.erase attempt
        responses := (attempt, (handleEnroll now fault s.db input digest).2) :: s.responses } → s.accepted input := by
      rw [hsame]
      exact id
    constructor
    case unsent => exact fun h => absurd h (not_or.2 hsent)
    case file => exact hs.file
    case crashed =>
      intro hstage
      obtain ⟨hnone, _⟩ | hfile := hs.crashed hstage
      · rw [hnone] at hmem
        cases hmem
      · exact .inr hfile
    case ready => exact hready
    case waiting => exact hwaiting
    case once => exact honce
    case heard =>
      intro haccepted
      obtain ⟨hfile, hnotReady, hanswered⟩ := hs.heard (hold haccepted)
      refine ⟨hfile, hnotReady, ?_⟩
      intro n hstage
      obtain ⟨hnone, hok⟩ := hanswered n hstage
      refine ⟨fun hm => hnone (hrest hm), ?_⟩
      intro r hr
      obtain heq | hr := List.mem_cons.1 hr
      · obtain ⟨rfl, _⟩ := Prod.mk.inj heq
        exact absurd hmem hnone
      · exact hok r hr
  · -- the digest is stored
    obtain ⟨result, hresult⟩ := haccepts
    have hwhere := hheard ⟨digest, result, hdigest, hresult⟩ hfault
    have hfile : s.file input := by
      obtain hcrashed | ⟨hstage, _⟩ := hwhere
      · obtain ⟨hnone, _⟩ | hfile := hs.crashed hcrashed
        · rw [hnone] at hmem
          cases hmem
        · exact hfile
      · exact hs.file (.inr ⟨attempt, .inr hstage⟩)
    constructor
    case unsent => exact fun h => absurd h (not_or.2 hsent)
    case file => exact hs.file
    case crashed => exact fun _ => .inr hfile
    case ready => exact hready
    case waiting => exact hwaiting
    case once => exact honce
    case heard =>
      intro _
      refine ⟨hfile, ?_, ?_⟩
      · intro n hstage
        obtain hcrashed | ⟨hwaits, _⟩ := hwhere
        · rw [hcrashed] at hstage
          cases hstage
        · rw [hwaits] at hstage
          cases hstage
      · intro n hstage
        obtain hcrashed | ⟨hwaits, rfl⟩ := hwhere
        · rw [hcrashed] at hstage
          cases hstage
        · rw [hwaits] at hstage
          cases hstage
          refine ⟨hgone, ?_⟩
          intro r hr
          obtain heq | hr := List.mem_cons.1 hr
          · exact ⟨1, (Prod.mk.inj heq).2.trans (hreply rfl)⟩
          · exact absurd hr (hs.once.2 attempt hmem r)

theorem other (hs : s.Sound input) {db : Registry} (h : s.db.Keeps input db) :
    EnrollRun.Sound input { s with db := db } := by
  have hsame : EnrollRun.accepted input { s with db := db } ↔ s.accepted input := accepted_iff_of_keeps h
  constructor
  case unsent =>
    intro hstage
    rw [hsame]
    exact hs.unsent hstage
  case file => exact hs.file
  case crashed =>
    intro hstage
    rw [hsame]
    exact hs.crashed hstage
  case ready => exact hs.ready
  case waiting => exact hs.waiting
  case once => exact hs.once
  case heard =>
    rw [hsame]
    exact hs.heard

theorem step (hs : s.Sound input) (h : s.HeardStep input s') : s'.Sound input := by
  cases h with
  | other hkeeps => exact hs.other hkeeps
  | @event e _ hheard hnext =>
      cases e with
      | write o => exact hs.write hnext
      | connect removes => exact hs.connect hnext
      | send => exact hs.send hnext
      | deliver attempt now fault => exact hs.deliver hheard hnext
      | answer attempt reply removes => exact hs.answer hnext
      | lose removes => exact hs.lose hheard hnext
      | cancel removes => exact hs.cancel hheard hnext
      | crash => exact hs.crash hnext

theorem of_reachable (h : (heardSystem input).Reachable s) : s.Sound input := by
  refine h.invariant ?_ ?_
  · intro s hinit
    have hstage := hinit.starting
    constructor
    case unsent => exact fun _ => ⟨hinit.requests, hinit.responses, hinit.unaccepted⟩
    case file =>
      rw [hstage]
      rintro (h | ⟨_, h | h⟩) <;> cases h
    case crashed =>
      rw [hstage]
      exact nofun
    case ready =>
      rw [hstage]
      exact nofun
    case waiting =>
      rw [hstage]
      exact nofun
    case once =>
      rw [hinit.requests]
      exact ⟨List.nodup_nil, fun m hm => absurd hm List.not_mem_nil⟩
    case heard => exact fun haccepted => absurd haccepted hinit.unaccepted
  · intro s s' hs hstep
    exact hs.step hstep

end EnrollRun.Sound

-- After its end `Enroll` leaves the directory alone.
theorem ended_step (hended : s.Ended) (h : s.HeardStep input s') : s'.Ended ∧ s'.dir = s.dir := by
  cases h with
  | other hkeeps => exact ⟨hended, rfl⟩
  | @event e _ hheard hnext =>
      cases e with
      | deliver attempt now fault =>
          simp only [EnrollRun.next, Option.bind_eq_bind, Option.bind_eq_some_iff] at hnext
          obtain ⟨digest, _, hnext⟩ := hnext
          split_ifs at hnext
          obtain rfl := Option.some.inj hnext
          exact ⟨hended, rfl⟩
      | crash =>
          simp only [EnrollRun.next] at hnext
          split at hnext
          · cases hnext
          · cases hnext
            exact ⟨.inr rfl, rfl⟩
      | write | connect | send | answer | lose | cancel =>
          obtain ⟨result, hstage⟩ | hstage := hended
          · simp [EnrollRun.next, hstage] at hnext
          · simp [EnrollRun.next, hstage] at hnext

theorem ended_run (hended : s.Ended) (h : (heardSystem input).Run s s') : s'.dir = s.dir := by
  have hkept : s'.Ended ∧ s'.dir = s.dir := by
    induction h with
    | refl => exact ⟨hended, rfl⟩
    | tail _ hnext ih =>
        obtain ⟨hended', hdir⟩ := ended_step ih.1 hnext
        exact ⟨hended', hdir.trans ih.2⟩
  exact hkept.2

-- When the agent hears of every acceptance, an accepted credential is never lost, and where the file is gone after the
-- end of `Enroll` the digest is never accepted, then or later.
theorem accepted_credential_kept (h : (heardSystem input).Reachable s) :
    (s.accepted input → s.Holds input) ∧
      (s.Ended → s.dir.get? credentialFileName = none →
        ∀ s', (heardSystem input).Run s s' → ¬ s'.accepted input) := by
  have hholds {s : EnrollRun} (h : (heardSystem input).Reachable s) (haccepted : s.accepted input) : s.file input :=
    ((EnrollRun.Sound.of_reachable h).heard haccepted).1
  constructor
  · intro haccepted
    have hfile := hholds h haccepted
    obtain ⟨digest, row, hdigest, hrow, rfl⟩ := haccepted
    exact ⟨input.token, row, hfile, hrow, hdigest⟩
  · intro hended hgone s' hrun haccepted
    have hfile := hholds (h.run hrun) haccepted
    rw [EnrollRun.file, ended_run hended hrun, hgone] at hfile
    cases hfile

end

-- A schedule of events, as long as each of them can happen.
def EnrollRun.run (input : EnrollInput) (s : EnrollRun) : List Event → Option EnrollRun
  | [] => some s
  | e :: events => (s.next input e).bind fun s' => s'.run input events

theorem EnrollRun.run_of_events {input : EnrollInput} {s s' : EnrollRun} {events : List Event}
    (h : s.run input events = some s') : (enrollmentSystem input).Run s s' := by
  induction events generalizing s with
  | nil =>
      cases h
      exact .refl
  | cons e events ih =>
      obtain ⟨s₁, hnext, hrest⟩ := Option.bind_eq_some_iff.1 h
      exact .head (.event hnext) (ih hrest)

def EnrollRun.hasReturned (s : EnrollRun) : Bool := match s.stage with
  | .returned _ => true
  | _ => false

theorem EnrollRun.returned_of_hasReturned {s : EnrollRun} (h : s.hasReturned = true) :
    ∃ result, s.stage = .returned result := by
  unfold EnrollRun.hasReturned at h
  split at h
  · rename_i result hreturned
    exact ⟨result, hreturned⟩
  · cases h

def sampleEnrollmentDigest : Digest := ⟨List.replicate 32 1, by decide⟩

def sampleInput : EnrollInput := ⟨"s1", sampleEnrollmentDigest, List.replicate 32 7, true⟩

def sampleStart : EnrollRun :=
  ⟨⟨Table.empty.put "s1" .active, Table.empty.put "s1" ⟨sampleEnrollmentDigest, 0, 100, none⟩, .empty⟩, .empty, .starting,
    [], []⟩

theorem sampleStart_initial : sampleStart.Initial sampleInput := by
  refine ⟨rfl, rfl, rfl, ?_⟩
  rintro ⟨digest, row, _, hrow, _⟩
  cases hrow

-- The first answer is lost, and the second attempt is refused because the first one was accepted.
def lostEvents : List Event :=
  [.write .done, .connect true, .send, .deliver 1 10 .none, .lose true, .send, .deliver 2 20 .none,
    .answer 2 (.refused 401 "unauthorized") true]

theorem lost_response_removes_credential :
    ¬ ∀ (input : EnrollInput) (s : EnrollRun), (enrollmentSystem input).Reachable s → s.accepted input → s.Ended →
      s.Holds input := by
  intro hclaim
  have hrun : (sampleStart.run sampleInput lostEvents).any (fun s =>
      s.hasReturned && s.dir.get? credentialFileName == none &&
        (credentialTokenDigest sampleInput.token).any (fun digest =>
          (s.db.credentials.get? (sampleInput.serverID, 1)).any (fun row => row.digest == digest))) = true := by
    decide +kernel
  obtain ⟨s, hs, hsample⟩ := (Option.any_eq_true _ _).1 hrun
  simp only [Bool.and_eq_true, beq_iff_eq, Option.any_eq_true] at hsample
  obtain ⟨⟨hstage, hgone⟩, digest, hdigest, row, hrow, hsame⟩ := hsample
  have hreachable : (enrollmentSystem sampleInput).Reachable s :=
    ⟨sampleStart, sampleStart_initial, EnrollRun.run_of_events hs⟩
  have hended : s.Ended := .inl (EnrollRun.returned_of_hasReturned hstage)
  obtain ⟨text, _, hfile, _, _⟩ := hclaim sampleInput s hreachable ⟨digest, row, hdigest, hrow, hsame⟩ hended
  rw [hgone] at hfile
  cases hfile

-- A schedule on which every request is answered while its attempt waits.
def EnrollRun.answeredRun (input : EnrollInput) (s : EnrollRun) : List Event → Option EnrollRun
  | [] => some s
  | e :: events =>
      let answered : Bool := match e, s.stage with
        | .deliver attempt _ fault, .waiting current => attempt == current && fault == .none
        | .deliver _ _ _, _ | .lose _, _ | .cancel _, _ => false
        | _, _ => true
      if answered then (s.next input e).bind fun s' => s'.answeredRun input events else none

theorem EnrollRun.answeredRun_of_events {input : EnrollInput} {s s' : EnrollRun} {events : List Event}
    (h : s.answeredRun input events = some s') : (heardSystem input).Run s s' := by
  induction events generalizing s with
  | nil =>
      cases h
      exact .refl
  | cons e events ih =>
      simp only [EnrollRun.answeredRun] at h
      split_ifs at h with hanswered
      obtain ⟨s₁, hnext, hrest⟩ := Option.bind_eq_some_iff.1 h
      refine .head (.event ?_ hnext) (ih hrest)
      cases e with
      | deliver attempt now fault =>
          intro _ _
          split at hanswered
          · rename_i heq hstage
            cases heq
            simp only [Bool.and_eq_true, beq_iff_eq] at hanswered
            obtain ⟨rfl, rfl⟩ := hanswered
            exact .inr ⟨hstage, rfl⟩
          all_goals simp_all
      | lose | cancel => simp at hanswered
      | _ => trivial

theorem accepted_credential_kept_answered :
    ∃ s, (heardSystem sampleInput).Reachable s ∧ s.accepted sampleInput ∧ s.Ended ∧ s.Holds sampleInput := by
  have hrun : (sampleStart.answeredRun sampleInput [.write .done, .connect true, .send, .deliver 1 10 .none,
      .answer 1 (.ok 1) true]).any (fun s =>
        s.hasReturned &&
          (credentialTokenDigest sampleInput.token).any (fun digest =>
            (s.db.credentials.get? (sampleInput.serverID, 1)).any (fun row => row.digest == digest))) = true := by
    decide +kernel
  obtain ⟨s, hs, hsample⟩ := (Option.any_eq_true _ _).1 hrun
  simp only [Bool.and_eq_true, beq_iff_eq, Option.any_eq_true] at hsample
  obtain ⟨hstage, digest, hdigest, row, hrow, hsame⟩ := hsample
  have hreachable : (heardSystem sampleInput).Reachable s :=
    ⟨sampleStart, sampleStart_initial, EnrollRun.answeredRun_of_events hs⟩
  have haccepted : s.accepted sampleInput := ⟨digest, row, hdigest, hrow, hsame⟩
  have hended : s.Ended := .inl (EnrollRun.returned_of_hasReturned hstage)
  exact ⟨s, hreachable, haccepted, hended, (accepted_credential_kept hreachable).1 haccepted⟩

end AutoDeploy.Enrollment
