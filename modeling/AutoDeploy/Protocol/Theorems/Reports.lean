import AutoDeploy.Protocol.Theorems.Routes

namespace AutoDeploy.Protocol

open Lib Lib.Result Queue Store Deployment

-- The operation went through, ...
def Succeeded (op : Operation) : Prop := op.state = .succeeded

-- ... or is blocked, or was given up from there, and its summary starts with one of the given texts, ...
def Blocked (evidence : Bytes → Prop) (op : Operation) : Prop :=
  (op.state = .reconciliationRequired ∨ op.state = .failed) ∧
    ∃ text, evidence text ∧ text ≠ [] ∧ text <+: op.outcomeSummary

-- The caller is told to repeat the call.
def Repeats (r : Except Error Unit) : Prop := ∃ e, r = .error e ∧ mapError e = .retry

-- ... or still waits, and the caller is told so.
def Outstanding (op : Operation) (r : Except Error Unit) : Prop := op.state = .switchAuthorized ∧ Repeats r

-- The summary that the one transaction of a run which took the operation out of its wait has left.
def BlockedMeanwhile (db db' : DB) (operationID : Nat) (text : Bytes) : Prop :=
  ∃ db₁ db₂, leaseSystem.Run db db₁ ∧ leaseSystem.next db₁ db₂ ∧ leaseSystem.Run db₂ db' ∧
    At (view db₁).operations operationID (fun op => op.state = .switchAuthorized) ∧
    At (view db₂).operations operationID fun op =>
      (op.state = .reconciliationRequired ∨ op.state = .failed) ∧ op.outcomeSummary = text

-- The evidence a call can find on its operation: its own, or that of a block between its two transactions.
def CallEvidence (f : Faults) (now : Nat) (between : DB → DB) (db : DB) (q : ReportRequest) (c : ReportContext)
    (text : Bytes) : Prop :=
  let first := (reportTx f now db q).db
  ReportEvidence f now db q c text ∨ BlockedMeanwhile first (between first) c.operationID text

section

variable {db db' : DB} {now now' : Nat} {f f' : Faults} {q : ReportRequest} {c : ReportContext} {between : DB → DB}
  {r : Except Error Unit} {operationID : Nat} {text : Bytes}

-- A block always says why.
theorem BlockedMeanwhile.ne_nil (h : BlockedMeanwhile db db' operationID text) (hsound : Sound db) : text ≠ [] := by
  obtain ⟨db₁, db₂, hrun, hnext, -, -, op, hop, hstate, rfl⟩ := h
  have hsound₂ : Sound db₂ := hsound.run (hrun.tail hnext)
  exact (hsound₂.inv.activations.checked operationID op hop).1.evidence hstate

theorem BlockedMeanwhile.tail {db'' : DB} (h : BlockedMeanwhile db db' operationID text)
    (hnext : leaseSystem.next db' db'') : BlockedMeanwhile db db'' operationID text := by
  obtain ⟨db₁, db₂, hrun, hblock, hrun', hwaiting, hblocked⟩ := h
  exact ⟨db₁, db₂, hrun, hblock, hrun'.tail hnext, hwaiting, hblocked⟩

theorem CallEvidence.ne_nil (h : CallEvidence f now between db q c text) (hsound : Sound (reportTx f now db q).db) :
    text ≠ [] := by
  rcases h with hown | hother
  · exact hown.ne_nil
  · exact hother.ne_nil hsound

-- Operations are never deleted.
theorem Effects.operation_stays {permitted : Kind → Prop} {v v' : View} (hinv : Inv v)
    (he : Effects now permitted v v') (hrow : v.operations operationID ≠ none) : v'.operations operationID ≠ none := by
  refine (he.preserves (P := fun v => v.operations operationID ≠ none) hinv hrow fun v v' _ _ _ hrow he => ?_).2
  obtain ⟨op, hop⟩ := Option.ne_none_iff_exists'.1 hrow
  obtain ⟨op', hop', -⟩ := he.operation_moves hop
  simp [hop']

-- An operation that waits is left waiting, or gone through, or blocked by the transaction that comes next.
theorem exec_waiting {txn : Txn} (h : Sound db) (hwaiting : At (view db).operations operationID fun op =>
      op.state = .switchAuthorized) :
    Stands (fun text => BlockedMeanwhile db (exec now db txn) operationID text) (exec now db txn) operationID := by
  have hsound := h.exec now txn
  have hstays : (view (exec now db txn)).operations operationID ≠ none := by
    refine (exec_effects h.inv h.reconciliations txn : Effects now _ _ _).operation_stays h.inv ?_
    obtain ⟨op, hop, -⟩ := hwaiting
    simp [hop]
  obtain ⟨op, hop⟩ := Option.ne_none_iff_exists'.1 hstays
  have hblocked (hstate : op.state = .reconciliationRequired ∨ op.state = .failed) :
      SettledWith (fun text => BlockedMeanwhile db (exec now db txn) operationID text) op := by
    refine .inr ⟨op.outcomeSummary, ⟨db, exec now db txn, .refl, ⟨now, txn, trivial, rfl⟩, .refl, hwaiting, ?_⟩, ?_⟩
    · exact ⟨op, hop, hstate, rfl⟩
    · exact .inr ⟨hstate, List.prefix_rfl⟩
  refine ⟨op, hop, ?_⟩
  cases hstate : op.state with
  | started => exact absurd hstate (hsound.inv.activations.checked operationID op hop).2
  | switchAuthorized => exact .inl hstate
  | succeeded => exact .inr (.inl hstate)
  | failed => exact .inr (hblocked (.inr hstate))
  | reconciliationRequired => exact .inr (hblocked (.inl hstate))

-- ... and one that is settled keeps the text it was blocked with.
theorem exec_settled {txn : Txn} {evidence : Bytes → Prop} (h : Sound db)
    (hsettled : At (view db).operations operationID (SettledWith evidence)) :
    At (view (exec now db txn)).operations operationID (SettledWith evidence) := by
  refine h.exec_preserves (P := fun v => At v.operations operationID (SettledWith evidence)) hsettled ?_
  rintro v v' kind - - ⟨op, hop, hsettled⟩ he
  exact (he.operation_moves hop).imp fun _ hmoves => hsettled.moves hmoves

theorem run_stands {evidence : Bytes → Prop} (h : Sound db) (hrun : leaseSystem.Run db db')
    (hstands : Stands evidence db operationID) :
    Stands (fun text => evidence text ∨ BlockedMeanwhile db db' operationID text) db' operationID := by
  induction hrun with
  | refl => exact hstands.mono fun _ => .inl
  | @tail db₁ db₂ hrun hnext ih =>
      have hsound : Sound db₁ := h.run hrun
      have hmono (text : Bytes) (hevidence : evidence text ∨ BlockedMeanwhile db db₁ operationID text) :
          evidence text ∨ BlockedMeanwhile db db₂ operationID text := hevidence.imp_right fun hother => hother.tail hnext
      obtain ⟨now, txn, -, rfl⟩ := id hnext
      obtain ⟨op, hop, hwaiting | hsettled⟩ := ih
      · refine (exec_waiting hsound ⟨op, hop, hwaiting⟩).mono ?_
        rintro text ⟨db₃, db₄, hrun₃, hblock, hrun₄, hblocked⟩
        exact .inr ⟨db₃, db₄, hrun.trans hrun₃, hblock, hrun₄, hblocked⟩
      · exact (exec_settled hsound ⟨op, hop, hsettled⟩).imp fun _ hsettled => .inr (hsettled.mono hmono)

-- The call, once its first transaction found the operation waiting and its attempt in the slot.
theorem reportTx_waiting (hlock : lockReport f db q = .ok c) (h : Waiting db q c) :
    reportTx f now db q = reportOpen f now db q c := by
  simp only [reportTx, hlock, h.state, if_pos h.occupies]

-- The outcome of the whole call, before it is read off the operation's row.
theorem report_decides (hsound : Sound db) (hlock : lockReport f db q = .ok c) (h : Waiting db q c)
    (hbetween : ∀ db, leaseSystem.Run db (between db))
    (hcall : reportActivationResult f now between f' now' db q = (db', r)) :
    Stands (CallEvidence f now between db q c) db' c.operationID ∧
      (Decided db' c.operationID ∨ Repeats r) := by
  have hhandles : Handles f now db q c (reportTx f now db q) := by
    rw [reportTx_waiting hlock h]
    exact reportOpen_handles h hsound.inv
  have hstep : Sound (reportTx f now db q).db := hsound.exec now (.report f q)
  have hstands := hhandles.leaves.stands
  unfold reportActivationResult at hcall
  simp only [hhandles.checked, if_true] at hcall
  split at hcall
  · rename_i answer hnext
    obtain ⟨rfl, rfl⟩ := Prod.mk.inj hcall
    refine ⟨hstands.mono fun _ => .inl, (hhandles.answer answer hnext).imp_right ?_⟩
    rintro ⟨e, rfl, hretry⟩
    exact ⟨_, rfl, hretry⟩
  · rename_i evidence conclude hnext
    obtain ⟨hevidence, hconclude⟩ := hhandles.fresh evidence conclude hnext
    rw [hlock] at hcall
    simp only at hcall
    have hmeanwhile : Sound (between (reportTx f now db q).db) := hstep.run (hbetween _)
    have hstands := run_stands hstep (hbetween _) hstands
    cases hblock : recordBlockInFreshTransaction f' now' (between (reportTx f now db q).db) (freshBlock q c evidence) with
    | mk ended outcome =>
        have hrecords := recordBlock_records hmeanwhile.inv hevidence.ne_nil hblock
        rw [hblock] at hcall
        obtain ⟨rfl, rfl⟩ := Prod.mk.inj hcall
        refine ⟨hrecords.stands _ (.inl hevidence) hstands, ?_⟩
        rcases hrecords.ends with ⟨e, rfl, hunrecorded⟩ | ⟨-, hdecided⟩
        · obtain ⟨e', he', hunrecorded'⟩ := hconclude e hunrecorded
          rw [he']
          exact .inr ⟨_, rfl, retryable_of_unrecorded hunrecorded'⟩
        · exact .inl hdecided

-- No report is lost: whatever fails, and whatever others commit meanwhile, the operation has gone through, or is
-- blocked with its evidence, or still waits with the caller told to repeat the call; and never two of these at once.
theorem report_never_lost (h : leaseSystem.Reachable db) (hlock : lockReport f db q = .ok c)
    (hoccupies : c.lease.occupies q.attemptID q.fence) (hstate : c.operation.state = .switchAuthorized)
    (hbetween : ∀ db, leaseSystem.Run db (between db))
    (hcall : reportActivationResult f now between f' now' db q = (db', r)) :
    let evidence := CallEvidence f now between db q c
    ∃ op, db'.operations.get? c.operationID = some op ∧
      (Succeeded op ∨ Blocked evidence op ∨ Outstanding op r) ∧
      ¬ (Succeeded op ∧ Blocked evidence op) ∧ ¬ (Succeeded op ∧ Outstanding op r) ∧
      ¬ (Blocked evidence op ∧ Outstanding op r) ∧
      ∀ e code, r = .error e → mapError e = .refuse code → op.state ≠ .switchAuthorized := by
  intro evidence
  have hsound := sound_of_reachable h
  obtain ⟨⟨op, hop, hstands⟩, hanswer⟩ :=
    report_decides hsound hlock ⟨lockReport_locked hlock, hoccupies, hstate⟩ hbetween hcall
  have hdisjoint {s s' : OperationState} (hs : op.state = s) (hs' : op.state = s') (hne : s ≠ s') : False :=
    hne (hs.symm.trans hs')
  refine ⟨op, hop, ?_, ?_, ?_, ?_, ?_⟩
  · rcases hstands with hwaiting | hsucceeded | ⟨text, hevidence, hsucceeded | hblocked⟩
    · exact .inr (.inr ⟨hwaiting, hanswer.resolve_left fun hdecided => (hdecided.of_row hop) hwaiting⟩)
    · exact .inl hsucceeded
    · exact .inl hsucceeded
    · exact .inr (.inl ⟨hblocked.1, text, hevidence, hevidence.ne_nil (hsound.exec now (.report f q)), hblocked.2⟩)
  · rintro ⟨hsucceeded, hblocked | hfailed, -⟩
    · exact hdisjoint hsucceeded hblocked (by decide)
    · exact hdisjoint hsucceeded hfailed (by decide)
  · rintro ⟨hsucceeded, hwaiting, -⟩
    exact hdisjoint hsucceeded hwaiting (by decide)
  · rintro ⟨⟨hblocked | hfailed, -⟩, hwaiting, -⟩
    · exact hdisjoint hblocked hwaiting (by decide)
    · exact hdisjoint hfailed hwaiting (by decide)
  · intro e code he hrefuse hwaiting
    obtain ⟨e', he', hretry⟩ := hanswer.resolve_left fun hdecided => (hdecided.of_row hop) hwaiting
    cases he.symm.trans he'
    cases hrefuse.symm.trans hretry

-- Two reports on the authorized activation of the sample: a success, and a failure whose COMMIT the server
-- applies although the connection is lost.
def sampleSuccess : ReportRequest := ⟨"srv", sampleToken, 1, 1, "1", true, sampleRouteDigest, []⟩

def sampleFailure : ReportRequest := ⟨"srv", sampleToken, 1, 1, "1", false, sampleToken, Bytes.ofString "exit 1"⟩

def lostConnection : Faults := ⟨fun _ _ => none, some (.net "connection reset", true)⟩

theorem lockReport_eq_of_check {check : ReportContext → Bool} (h : (lockReport f db q).toOption.any check = true) :
    ∃ c, lockReport f db q = .ok c ∧ check c = true := by
  cases hlock : lockReport f db q with
  | error e => simp [hlock, Except.toOption] at h
  | ok c => exact ⟨c, rfl, by simpa [hlock, Except.toOption] using h⟩

theorem report_never_lost_success :
    ∃ c op, lockReport .none sampleAuthorized sampleSuccess = .ok c ∧
      (reportActivationResult .none 7000 id .none 7000 sampleAuthorized sampleSuccess).1.operations.get? c.operationID =
        some op ∧ Succeeded op := by
  have hstored : ((lockReport .none sampleAuthorized sampleSuccess).toOption.any fun c =>
        decide (c.lease.occupies 1 1) && (c.operation.state == .switchAuthorized) && (c.operationID == 1)) = true ∧
      (((reportActivationResult .none 7000 id .none 7000 sampleAuthorized sampleSuccess).1.operations.get? 1).map
        fun op => op.state) = some .succeeded := by
    rw [sampleSuccess, sampleRouteDigest, sampleAuthorized_eq]
    decide +kernel
  obtain ⟨hlock, hstate⟩ := hstored
  obtain ⟨c, hlock, hcheck⟩ := lockReport_eq_of_check hlock
  simp only [Bool.and_eq_true, decide_eq_true_eq, beq_iff_eq] at hcheck
  obtain ⟨op, hop, -⟩ := report_never_lost sampleAuthorized_reachable hlock hcheck.1.1 hcheck.1.2 (fun _ => .refl)
    (Prod.mk.eta.symm : reportActivationResult .none 7000 id .none 7000 sampleAuthorized sampleSuccess = _)
  refine ⟨c, op, hlock, hop, ?_⟩
  rw [hcheck.2] at hop
  rw [hop] at hstate
  exact Option.some.inj hstate

theorem report_blocked_and_repeated :
    leaseSystem.Reachable sampleAuthorized ∧
    ∃ c op db' r, lockReport lostConnection sampleAuthorized sampleFailure = .ok c ∧ c.lease.occupies 1 1 ∧
      c.operation.state = .switchAuthorized ∧
      reportActivationResult lostConnection 7000 id .none 7000 sampleAuthorized sampleFailure = (db', r) ∧
      db'.operations.get? c.operationID = some op ∧
      Blocked (ReportEvidence lostConnection 7000 sampleAuthorized sampleFailure c) op ∧ Repeats r := by
  refine ⟨sampleAuthorized_reachable, ?_⟩
  have hstored : ((lockReport lostConnection sampleAuthorized sampleFailure).toOption.any fun c =>
        decide (c.lease.occupies 1 1) && (c.operation.state == .switchAuthorized) && (c.operationID == 1)) = true ∧
      (((reportActivationResult lostConnection 7000 id .none 7000 sampleAuthorized sampleFailure).1.operations.get?
        1).any fun op => (op.state == .reconciliationRequired) &&
          (op.outcomeSummary == failureOutcomeSummary (Bytes.ofString "exit 1"))) = true ∧
      (match (reportActivationResult lostConnection 7000 id .none 7000 sampleAuthorized sampleFailure).2 with
        | .ok _ => false
        | .error e => mapError e == .retry) = true := by
    rw [sampleAuthorized_eq]
    decide +kernel
  obtain ⟨hlock, hblocked, hrepeats⟩ := hstored
  obtain ⟨c, hlock, hcheck⟩ := lockReport_eq_of_check hlock
  simp only [Bool.and_eq_true, decide_eq_true_eq, beq_iff_eq] at hcheck
  cases hcall : reportActivationResult lostConnection 7000 id .none 7000 sampleAuthorized sampleFailure with
  | mk db' r =>
      rw [hcall] at hblocked hrepeats
      obtain ⟨op, hop, hblocked⟩ := (Option.any_eq_true _ _).1 hblocked
      simp only [Bool.and_eq_true, beq_iff_eq] at hblocked
      refine ⟨c, op, db', r, hlock, hcheck.1.1, hcheck.1.2, rfl, by rw [hcheck.2]; exact hop, ⟨.inl hblocked.1, _,
        .failure rfl, failureOutcomeSummary_ne_nil _, hblocked.2 ▸ List.prefix_rfl⟩, ?_⟩
      cases r with
      | ok _ => simp at hrepeats
      | error e => exact ⟨e, rfl, by simpa using hrepeats⟩

end

end AutoDeploy.Protocol
