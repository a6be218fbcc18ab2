import AutoDeploy.Checkout.Runner

namespace AutoDeploy.Checkout

open Lib Lib.Result

section

variable {σ : Type} {h : Host} {l : Lease σ} {s s' : σ} {op : GitOperation} {capture : Bool}

-- Everything around the operation went well, whatever its own exit.
structure Reached (h : Host) (l : Lease σ) (s : σ) (op : GitOperation) : Prop where
  stdoutPipe : h.stdoutPipe op = true
  stderrPipe : h.stderrPipe op = true
  writers : l.redactingWriter s = .ok ()
  workspace : h.duplicatesWorkspace op = true
  writersClosed : (h.spawn op).writersClosed = true

def Ran (h : Host) (l : Lease σ) (s : σ) (op : GitOperation) : Prop :=
  Reached h l s op ∧ (h.spawn op).ran = some ⟨0, .success⟩

-- The search for large files finds nothing: no match is an exit of its own.
def FindsNothing (h : Host) (l : Lease σ) (s : σ) : Prop :=
  Reached h l s .grepLFS ∧ ((h.spawn .grepLFS).ran = some ⟨1, .failed⟩ ∨
    (h.spawn .grepLFS).ran = some ⟨0, .success⟩ ∧ Utf8.trimSpace (h.spawn .grepLFS).output.toList = [])

def Prints (h : Host) (op : GitOperation) (text : String) : Prop :=
  Utf8.trimSpace (h.spawn op).output.toList = text.toList

-- The whole sequence goes well, with the lease in the states `Start` and the broker leave it in.
structure Fetches (h : Host) (l : Lease σ) (commitSHA : String) (s s₁ s₂ : σ) : Prop where
  init : Ran h l s .init
  remote : Ran h l s .remoteAddOrigin
  start : l.start s = (.ok (), s₁)
  broker : l.newAskPassBroker s₁ = (.ok (), s₂)
  askpass : h.duplicatesAskpass = true
  fetch : Ran h l s₂ .fetchExact
  fetchHead : Ran h l s₂ .revParseFetchHead ∧ Prints h .revParseFetchHead commitSHA
  checkout : Ran h l s₂ .checkoutFetchHead
  head : Ran h l s₂ .revParseHead ∧ Prints h .revParseHead commitSHA
  tree : Ran h l s₂ .lsTree ∧ unsafeTree (h.spawn .lsTree).output = false
  lfs : FindsNothing h l s₂

theorem execute_of_reached (hreached : Reached h l s op) : execute h l s op capture = (do
    let r ← found (h.spawn op).ran (.join .gitFailed .spawn)
    if r.exitClass ≠ .success ∨ r.exitCode ≠ 0 then
      if op = .grepLFS ∧ r.exitClass = .failed ∧ r.exitCode = 1 then .error .noMatch
      else .error (.exit op r.exitCode)
    else pure (if capture then (h.spawn op).output else "")) := by
  unfold execute
  rw [require_pos hreached.stdoutPipe, require_pos hreached.stderrPipe, hreached.writers,
    require_pos hreached.workspace, require_pos hreached.writersClosed]
  rfl

theorem execute_eq_ok {text : String} :
    execute h l s op capture = .ok text ↔ Ran h l s op ∧ text = if capture then (h.spawn op).output else "" := by
  constructor
  · intro hok
    simp only [execute, bind_eq_ok, require_eq_ok, mapError_eq_ok, found_eq_ok, exists_const] at hok
    obtain ⟨hstdout, hstderr, _, hwriters, _, -, hworkspace, hclosed, r, hran, hexit⟩ := hok
    split at hexit
    · split at hexit
      · cases hexit
      · cases hexit
    · rename_i hgood
      rw [not_or, not_not, not_not] at hgood
      obtain ⟨exitCode, exitClass⟩ := r
      obtain ⟨rfl, rfl⟩ : exitClass = .success ∧ exitCode = 0 := hgood
      exact ⟨⟨⟨hstdout, hstderr, hwriters, hworkspace, hclosed⟩, hran⟩, (pure_eq_ok.1 hexit).symm⟩
  · rintro ⟨⟨hreached, hran⟩, rfl⟩
    rw [execute_of_reached hreached, hran]
    rfl

theorem runGit_eq_ok {u : Unit} : runGit h l s op = .ok u ↔ Ran h l s op := by
  cases u
  simp only [runGit, bind_eq_ok, execute_eq_ok, pure_eq_ok, and_true]
  constructor
  · rintro ⟨_, hran, _⟩
    exact hran
  · intro hran
    exact ⟨_, hran, rfl⟩

theorem checkHead_eq_ok {commitSHA : String} {u : Unit} :
    checkHead h l s op commitSHA = .ok u ↔ Ran h l s op ∧ Prints h op commitSHA := by
  simp only [checkHead, bind_eq_ok, mapError_eq_ok, execute_eq_ok, require_eq_ok]
  constructor
  · rintro ⟨text, ⟨hran, rfl⟩, hprints⟩
    exact ⟨hran, hprints⟩
  · rintro ⟨hran, hprints⟩
    exact ⟨_, ⟨hran, rfl⟩, hprints⟩

theorem checkTree_eq_ok {u : Unit} :
    checkTree h l s = .ok u ↔ Ran h l s .lsTree ∧ unsafeTree (h.spawn .lsTree).output = false := by
  simp only [checkTree, bind_eq_ok, mapError_eq_ok, execute_eq_ok, require_eq_ok]
  constructor
  · rintro ⟨text, ⟨hran, rfl⟩, hsafe⟩
    exact ⟨hran, hsafe⟩
  · rintro ⟨hran, hsafe⟩
    exact ⟨_, ⟨hran, rfl⟩, hsafe⟩

-- Whatever fails around an operation is not mistaken for its own answer that nothing matches.
theorem reached_or_failed (h : Host) (l : Lease σ) (s : σ) (op : GitOperation) (capture : Bool) :
    Reached h l s op ∨ ∃ e, execute h l s op capture = .error e ∧ e ≠ .noMatch ∧ e.asCleanup = none := by
  by_cases hstdout : h.stdoutPipe op = true
  swap
  · exact .inr ⟨_, by rw [execute, require_neg hstdout]; rfl, by simp, rfl⟩
  by_cases hstderr : h.stderrPipe op = true
  swap
  · exact .inr ⟨_, by rw [execute, require_pos hstdout, require_neg hstderr]; rfl, by simp, rfl⟩
  cases hwriters : l.redactingWriter s with
  | error e =>
      exact .inr ⟨_, by rw [execute, require_pos hstdout, require_pos hstderr, hwriters]; rfl, by simp, rfl⟩
  | ok u =>
      by_cases hworkspace : h.duplicatesWorkspace op = true
      swap
      · exact .inr ⟨_, by rw [execute, require_pos hstdout, require_pos hstderr, hwriters, require_neg hworkspace]; rfl,
          by simp, rfl⟩
      by_cases hclosed : (h.spawn op).writersClosed = true
      swap
      · exact .inr ⟨_, by
          rw [execute, require_pos hstdout, require_pos hstderr, hwriters, require_pos hworkspace, require_neg hclosed]
          rfl, by simp, rfl⟩
      exact .inl ⟨hstdout, hstderr, hwriters, hworkspace, hclosed⟩

theorem execute_noMatch (hnone : execute h l s op capture = .error .noMatch) :
    Reached h l s op ∧ (h.spawn op).ran = some ⟨1, .failed⟩ := by
  rcases reached_or_failed h l s op capture with hreached | ⟨e, hfailed, hne, -⟩
  · refine ⟨hreached, ?_⟩
    rw [execute_of_reached hreached] at hnone
    cases hran : (h.spawn op).ran with
    | none =>
        rw [hran] at hnone
        cases hnone
    | some r =>
        rw [hran, found_some, ok_bind] at hnone
        split at hnone
        · split at hnone
          · rename_i hexit
            obtain ⟨exitCode, exitClass⟩ := r
            obtain ⟨rfl, rfl⟩ : exitClass = .failed ∧ exitCode = 1 := hexit.2
            rfl
          · cases hnone
        · cases hnone
  · rw [hfailed] at hnone
    exact absurd (Except.error.inj hnone) hne

theorem execute_plain : Throws (fun e => e.asCleanup = none) (execute h l s op capture) := by
  rcases reached_or_failed h l s op capture with hreached | ⟨e, hfailed, -, hplain⟩
  · rw [execute_of_reached hreached]
    refine Throws.bind (Throws.found rfl) fun r => Throws.ite (Throws.ite (Throws.error rfl) (Throws.error rfl)) ?_
    exact Throws.pure _
  · rw [hfailed]
    exact Throws.error hplain

theorem checkLFS_eq_ok {u : Unit} : checkLFS h l s = .ok u ↔ FindsNothing h l s := by
  cases u
  unfold checkLFS
  constructor
  · intro hok
    split at hok
    · rename_i hnone
      obtain ⟨hreached, hran⟩ := execute_noMatch hnone
      exact ⟨hreached, .inl hran⟩
    · cases hok
    · rename_i text htext
      obtain ⟨⟨hreached, hran⟩, rfl⟩ := execute_eq_ok.1 htext
      exact ⟨hreached, .inr ⟨hran, require_eq_ok.1 hok⟩⟩
  · rintro ⟨hreached, hran | ⟨hran, hblank⟩⟩
    · have hnone : execute h l s .grepLFS true = .error .noMatch := by
        rw [execute_of_reached hreached, hran]
        rfl
      rw [hnone]
    · rw [execute_eq_ok.2 ⟨⟨hreached, hran⟩, rfl⟩]
      exact require_pos hblank

theorem prepareWorkspace_eq_ok :
    prepareWorkspace h l s = .ok () ↔ Ran h l s .init ∧ Ran h l s .remoteAddOrigin := by
  simp only [prepareWorkspace, bind_eq_ok, runGit_eq_ok, exists_const]

theorem fetchSource_eq_ok {commitSHA : String} :
    fetchSource h l s commitSHA = .ok () ↔ h.duplicatesAskpass = true ∧ Ran h l s .fetchExact ∧
      (Ran h l s .revParseFetchHead ∧ Prints h .revParseFetchHead commitSHA) ∧ Ran h l s .checkoutFetchHead ∧
      (Ran h l s .revParseHead ∧ Prints h .revParseHead commitSHA) ∧
      (Ran h l s .lsTree ∧ unsafeTree (h.spawn .lsTree).output = false) ∧ FindsNothing h l s := by
  simp only [fetchSource, bind_eq_ok, require_eq_ok, runGit_eq_ok, checkHead_eq_ok, checkTree_eq_ok, checkLFS_eq_ok,
    exists_const]

theorem runSequence_eq_ok {binding : CheckoutBinding} {s₂ : σ} :
    runSequence h l s binding = (.ok (), s₂) ↔ ∃ s₁, Fetches h l binding.commitSHA s s₁ s₂ := by
  unfold runSequence
  constructor
  · intro hok
    split at hok
    · cases hok
    · rename_i hprepared
      obtain ⟨hinit, hremote⟩ := prepareWorkspace_eq_ok.1 hprepared
      split at hok
      · cases hok
      · rename_i s₁ hstart
        split at hok
        · cases hok
        · rename_i s₂' hbroker
          obtain ⟨hfetched, rfl⟩ := Prod.mk.inj hok
          obtain ⟨haskpass, hfetch, hfetchHead, hcheckout, hhead, htree, hlfs⟩ := fetchSource_eq_ok.1 hfetched
          exact ⟨s₁, hinit, hremote, hstart, hbroker, haskpass, hfetch, hfetchHead, hcheckout, hhead, htree, hlfs⟩
  · rintro ⟨s₁, hf⟩
    rw [prepareWorkspace_eq_ok.2 ⟨hf.init, hf.remote⟩, hf.start]
    simp only
    rw [hf.broker]
    simp only
    rw [fetchSource_eq_ok.2 ⟨hf.askpass, hf.fetch, hf.fetchHead, hf.checkout, hf.head, hf.tree, hf.lfs⟩]

-- No error of the sequence carries a result.
theorem runSequence_plain {binding : CheckoutBinding} : Throws (fun e => e.asCleanup = none)
    (runSequence h l s binding).1 := by
  have hgit : ∀ s op, Throws (fun e => e.asCleanup = none) (runGit h l s op) := fun s op =>
    Throws.bind execute_plain fun _ => Throws.pure ()
  have houtput : ∀ s op, Throws (fun e => e.asCleanup = none)
      ((execute h l s op true).mapError (CheckoutError.join .gitFailed)) := by
    intro s op e he
    cases hran : execute h l s op true with
    | ok text =>
        rw [hran] at he
        cases he
    | error e' =>
        rw [hran] at he
        cases he
        exact execute_plain e' hran
  have hhead : ∀ s op, Throws (fun e => e.asCleanup = none) (checkHead h l s op binding.commitSHA) := fun s op =>
    Throws.bind (houtput s op) fun _ => Throws.require rfl
  have htree : ∀ s, Throws (fun e => e.asCleanup = none) (checkTree h l s) := fun s =>
    Throws.bind (houtput s .lsTree) fun _ => Throws.require rfl
  have hlfs : ∀ s, Throws (fun e => e.asCleanup = none) (checkLFS h l s) := by
    intro s
    unfold checkLFS
    split
    · exact Throws.pure ()
    · rename_i e _ he
      exact Throws.error (execute_plain e he)
    · exact Throws.require rfl
  unfold runSequence
  split
  · rename_i e he
    have hprepare : Throws (fun e => e.asCleanup = none) (prepareWorkspace h l s) :=
      Throws.bind (hgit s .init) fun _ => hgit s .remoteAddOrigin
    exact Throws.error (hprepare e he)
  · split
    · exact Throws.error rfl
    · split
      · exact Throws.error rfl
      · rename_i s₂ _
        exact Throws.bind (Throws.require rfl) fun _ => Throws.bind (hgit s₂ .fetchExact) fun _ =>
          Throws.bind (hhead s₂ .revParseFetchHead) fun _ => Throws.bind (hgit s₂ .checkoutFetchHead) fun _ =>
          Throws.bind (hhead s₂ .revParseHead) fun _ => Throws.bind (htree s₂) fun _ => hlfs s₂

end

end AutoDeploy.Checkout
