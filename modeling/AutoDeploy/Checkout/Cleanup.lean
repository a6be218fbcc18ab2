import AutoDeploy.Checkout.Leases
import AutoDeploy.Checkout.Sequence

namespace AutoDeploy.Checkout

open Lib Lib.Result

section

variable {σ : Type} {h : Host} {l : Lease σ} {s : σ} {p : Progress σ} {e : CheckoutError}

def Owned (p : Progress σ) : Prop := ∃ r, p.result = some r ∧ r.closed = false

-- The helper has answered for the allocation, and the descriptor was closed once.
def Retired (p : Progress σ) : Prop :=
  (∃ answer ∈ p.releases, answer = .ok () ∨ answer = .error .denied) ∧ p.closes = 1 ∧ ¬ Owned p

-- What an error of a checkout says of its allocation: none was made, it is retired, or the error carries it.
def Accounted (e : CheckoutError) (p : Progress σ) : Prop :=
  p.result = none ∨ Retired p ∨ e.asCleanup.isSome = true ∧ Owned p

-- Everything up to the last search goes well, and leaves the lease in this state.
def Completes (h : Host) (l : Lease σ) (s s₂ : σ) : Prop :=
  (l.binding s).usable = true ∧ h.allocate = .ok () ∧ ∃ s₁, Fetches h l (l.binding s).commitSHA s s₁ s₂

-- The sequence determines the state it leaves the lease in.
theorem Completes.unique {s₂ s₂' : σ} (hcompletes : Completes h l s s₂) (hcompletes' : Completes h l s s₂') :
    s₂' = s₂ := by
  have hsame := (runSequence_eq_ok.2 hcompletes'.2.2).symm.trans (runSequence_eq_ok.2 hcompletes.2.2)
  exact (Prod.mk.inj hsame).2

-- An answer after which the release has to be asked for again.
def Pending (answer : Except QuotaError Unit) : Prop := ∃ q, answer = .error q ∧ q ≠ .denied

theorem Result.close_of_closed {r : Result} (hclosed : r.closed = true) : Result.close h p r = (r.err, p) := by
  simp [Result.close, hclosed]

-- Closing a result retires the allocation, or leaves it owned with the error.
theorem Result.close_cases {r : Result} (hopen : r.closed = false) (hzero : p.closes = 0) :
    (Retired (Result.close h p r).2 ∧ (∃ r', (Result.close h p r).2.result = some r' ∧ r'.closed = true) ∧
        ¬ Pending (h.release p.releases.length)) ∨
      (∃ pending, (Result.close h p r).1 = some pending ∧ Owned (Result.close h p r).2 ∧
        (Result.close h p r).2.closes = 0 ∧ Pending (h.release p.releases.length)) := by
  have hretired : ∀ answer denied, answer = .ok () ∨ answer = .error .denied →
      Retired (retire h { p with releases := p.releases ++ [answer] } denied).2 ∧
        ∃ r', (retire h { p with releases := p.releases ++ [answer] } denied).2.result = some r' ∧ r'.closed = true := by
    intro answer denied hanswer
    refine ⟨⟨⟨answer, by simp [retire], hanswer⟩, by simp [retire, hzero], ?_⟩, _, rfl, rfl⟩
    rintro ⟨r, hr, hopen⟩
    cases hr
    cases hopen
  unfold Result.close
  simp only [hopen, Bool.false_eq_true, if_false]
  cases hanswer : h.release p.releases.length with
  | ok u =>
      obtain ⟨hdone, hresult⟩ := hretired (.ok ()) none (.inl rfl)
      exact .inl ⟨hdone, hresult, by rintro ⟨q, hq, -⟩; cases hq⟩
  | error q =>
      cases q with
      | denied =>
          obtain ⟨hdone, hresult⟩ := hretired (.error .denied) (some (.quota .denied)) (.inr rfl)
          exact .inl ⟨hdone, hresult, by rintro ⟨q, hq, hne⟩; cases hq; exact hne rfl⟩
      | unavailable => exact .inr ⟨_, rfl, ⟨_, rfl, rfl⟩, hzero, _, rfl, by decide⟩
      | invalid => exact .inr ⟨_, rfl, ⟨_, rfl, rfl⟩, hzero, _, rfl, by decide⟩
      | retryable => exact .inr ⟨_, rfl, ⟨_, rfl, rfl⟩, hzero, _, rfl, by decide⟩

-- The allocation as a failed body leaves it: not made, retired, or open with its descriptor never closed.
def Unsettled (p : Progress σ) : Prop :=
  p.result = none ∨ ∃ r, p.result = some r ∧ (r.closed = true ∧ Retired p ∨ r.closed = false ∧ p.closes = 0)

theorem retireIndeterminate_cases (h : Host) (s : σ) (q : QuotaError) :
    ∃ e, (retireIndeterminate h ⟨s, none, [], 0⟩ q).1.err = some e ∧
      Unsettled (retireIndeterminate h ⟨s, none, [], 0⟩ q).2 := by
  have hclose := Result.close_cases (h := h) (p := ⟨s, some ⟨false, none⟩, [], 0⟩) (r := ⟨false, none⟩) rfl rfl
  unfold retireIndeterminate
  simp only
  split
  · rename_i hclosed
    obtain ⟨r, hr, hrclosed⟩ := (Option.any_eq_true _ _).1 hclosed
    refine ⟨_, rfl, .inr ⟨r, hr, .inl ⟨hrclosed, ?_⟩⟩⟩
    rcases hclose with ⟨hretired, -⟩ | ⟨_, -, ⟨r', hr', hopen⟩, -⟩
    · exact hretired
    · rw [hr] at hr'
      cases hr'
      rw [hrclosed] at hopen
      cases hopen
  · rename_i hopen
    have hleft : Unsettled (Result.close h ⟨s, some ⟨false, none⟩, [], 0⟩ ⟨false, none⟩).2 := by
      rcases hclose with ⟨-, ⟨r, hr, hclosed⟩, -⟩ | ⟨_, -, ⟨r, hr, hropen⟩, hzero, -⟩
      · exact absurd (by rw [hr]; exact hclosed) hopen
      · exact .inr ⟨r, hr, .inr ⟨hropen, hzero⟩⟩
    split
    · exact ⟨_, rfl, hleft⟩
    · exact ⟨_, rfl, hleft⟩

-- What the body leaves to the deferred function.
theorem checkoutBody_cases (h : Host) (l : Lease σ) (s : σ) :
    (∃ s₂, Completes h l s s₂ ∧
        checkoutBody h l ⟨s, none, [], 0⟩ = (⟨true, none⟩, ⟨s₂, some ⟨false, none⟩, [], 0⟩)) ∨
      ((∀ s₂, ¬ Completes h l s s₂) ∧ ∃ e, (checkoutBody h l ⟨s, none, [], 0⟩).1.err = some e ∧
        Unsettled (checkoutBody h l ⟨s, none, [], 0⟩).2) := by
  unfold checkoutBody
  by_cases husable : (l.binding s).usable = true
  swap
  · simp only [husable, Bool.false_eq_true, if_false]
    exact .inr ⟨fun s₂ hcompletes => husable hcompletes.1, _, rfl, .inl rfl⟩
  simp only [husable, if_true]
  cases hallocate : h.allocate with
  | error a =>
      have hnot : ∀ s₂, ¬ Completes h l s s₂ := fun s₂ hcompletes => by
        rw [Completes, hallocate] at hcompletes
        cases hcompletes.2.1
      cases a with
      | refused q => exact .inr ⟨hnot, _, rfl, .inl rfl⟩
      | indeterminate q => exact .inr ⟨hnot, retireIndeterminate_cases h s q⟩
  | ok u =>
      simp only
      cases hrun : runSequence h l s (l.binding s) with
      | mk answer s₂ =>
          cases answer with
          | ok u =>
              obtain ⟨s₁, hfetches⟩ := runSequence_eq_ok.1 hrun
              exact .inl ⟨s₂, ⟨husable, hallocate, s₁, hfetches⟩, rfl⟩
          | error e =>
              refine .inr ⟨fun s₂' hcompletes => ?_, e, rfl, .inr ⟨_, rfl, .inr ⟨rfl, rfl⟩⟩⟩
              rw [runSequence_eq_ok.2 hcompletes.2.2] at hrun
              cases hrun

-- The deferred function accounts for every allocation a failed body leaves.
theorem cleanUp_accounted {ret : Returned} (herr : ret.err = some e) (hleft : Unsettled p) :
    ∃ e', (cleanUp h ret p).1.err = some e' ∧ Accounted e' (cleanUp h ret p).2 := by
  unfold cleanUp
  rw [herr]
  rcases hleft with hnone | ⟨r, hr, ⟨hclosed, hretired⟩ | ⟨hopen, hzero⟩⟩
  · rw [hnone]
    exact ⟨e, herr, .inl hnone⟩
  · rw [hr]
    simp only [Result.close_of_closed hclosed]
    cases r.err with
    | none => exact ⟨_, rfl, .inr (.inl hretired)⟩
    | some pending => exact ⟨_, rfl, .inr (.inl hretired)⟩
  · rw [hr]
    simp only
    have hclose := Result.close_cases (h := h) hopen hzero
    cases hanswer : Result.close h p r with
    | mk answer p' =>
        rw [hanswer] at hclose
        cases answer with
        | none =>
            rcases hclose with ⟨hretired, -⟩ | ⟨_, hsome, -⟩
            · exact ⟨_, rfl, .inr (.inl hretired)⟩
            · cases hsome
        | some pending =>
            refine ⟨_, rfl, .inr ?_⟩
            rcases hclose with ⟨hretired, -⟩ | ⟨_, -, howned, -⟩
            · exact .inl hretired
            · exact .inr ⟨rfl, howned⟩

-- Closing the lease adds its error and touches no allocation.
theorem closeLease_accounted {ret : Returned} (herr : ret.err = some e) (haccounted : Accounted e p) :
    ∃ e', (closeLease l ret p).1.err = some e' ∧ Accounted e' (closeLease l ret p).2 := by
  unfold closeLease
  split
  · exact ⟨e, herr, haccounted⟩
  · rename_i q s' _
    rw [herr]
    refine ⟨.join e (.lease q), rfl, ?_⟩
    rcases haccounted with hnone | hretired | ⟨hcarried, howned⟩
    · exact .inl hnone
    · exact .inr (.inl hretired)
    · refine .inr (.inr ⟨?_, howned⟩)
      obtain ⟨cause, hcause⟩ := Option.isSome_iff_exists.1 hcarried
      simp [CheckoutError.asCleanup, hcause]

-- A checkout either completes and answers with its lease's close, or fails and accounts for its allocation.
theorem checkout_cases (h : Host) (l : Lease σ) (s : σ) :
    (∃ s₂, Completes h l s s₂ ∧ checkout h l s =
        (⟨true, match (l.close s₂).1 with | .ok () => none | .error q => some (.lease q)⟩,
          ⟨(l.close s₂).2, some ⟨false, none⟩, [], 0⟩)) ∨
      ((∀ s₂, ¬ Completes h l s s₂) ∧ ∃ e, (checkout h l s).1.err = some e ∧ Accounted e (checkout h l s).2) := by
  unfold checkout
  rcases checkoutBody_cases h l s with ⟨s₂, hcompletes, hbody⟩ | ⟨hnot, e, herr, hleft⟩
  · refine .inl ⟨s₂, hcompletes, ?_⟩
    rw [hbody]
    simp only [cleanUp, closeLease]
    cases hclose : l.close s₂ with
    | mk answer s₃ =>
        cases answer with
        | ok u => rfl
        | error q => rfl
  · refine .inr ⟨hnot, ?_⟩
    obtain ⟨e', herr', haccounted⟩ := cleanUp_accounted (h := h) herr hleft
    exact closeLease_accounted herr' haccounted

-- A checkout loses no allocation exactly when its lease does not refuse to close after everything else went well; the
-- agent's step moreover when the directory of the workspace is found or the helper answers for the release.
theorem checkout_accounts_iff (h : Host) (l : Lease σ) (s : σ) :
    ((∀ e, (checkout h l s).1.err = some e → Accounted e (checkout h l s).2) ↔
        ¬ ∃ s₂, Completes h l s s₂ ∧ ∃ q, (l.close s₂).1 = .error q) ∧
      ((∀ e, (agentCheckout h l s).1 = .error e → Owned (agentCheckout h l s).2 → e.asCleanup.isSome = true) ↔
        ¬ ∃ s₂, Completes h l s s₂ ∧
          ((∃ q, (l.close s₂).1 = .error q) ∨ (h.contextDir = none ∧ Pending (h.release 0)))) := by
  rcases checkout_cases h l s with ⟨s₂, hcompletes, hcheckout⟩ | ⟨hnot, e, herr, haccounted⟩
  · unfold agentCheckout
    rw [hcheckout]
    have howned : Owned (⟨(l.close s₂).2, some ⟨false, none⟩, [], 0⟩ : Progress σ) := ⟨_, rfl, rfl⟩
    cases hclose : (l.close s₂).1 with
    | error q =>
        refine ⟨iff_of_false (fun hall => ?_) fun hnone => ?_, iff_of_false (fun hall => ?_) fun hnone => ?_⟩
        · rcases hall _ rfl with hresult | ⟨-, -, hretired⟩ | ⟨hcarried, -⟩
          · cases hresult
          · exact hretired howned
          · cases hcarried
        · exact hnone ⟨s₂, hcompletes, q, hclose⟩
        · exact absurd (hall _ rfl howned) (by simp [CheckoutError.asCleanup])
        · exact hnone ⟨s₂, hcompletes, .inl ⟨q, hclose⟩⟩
    | ok u =>
        refine ⟨iff_of_true (fun e he => (by cases he)) ?_, ?_⟩
        · rintro ⟨s₂', hcompletes', q, hq⟩
          rw [hcompletes.unique hcompletes', hclose] at hq
          cases hq
        · simp only
          cases hdir : h.contextDir with
          | some dir =>
              refine iff_of_true (fun e he => (by cases he)) ?_
              rintro ⟨s₂', hcompletes', ⟨q, hq⟩ | ⟨hnone, -⟩⟩
              · rw [hcompletes.unique hcompletes', hclose] at hq
                cases hq
              · cases hnone
          | none =>
              have hrelease := Result.close_cases (h := h) (p := ⟨(l.close s₂).2, some ⟨false, none⟩, [], 0⟩)
                (r := ⟨false, none⟩) rfl rfl
              rcases hrelease with ⟨-, ⟨r, hr, hclosed⟩, hanswered⟩ | ⟨_, -, hkept, -, hpending⟩
              · refine iff_of_true (fun e _ hstill => ?_) ?_
                · obtain ⟨r', hr', hopen⟩ := hstill
                  rw [hr] at hr'
                  cases hr'
                  rw [hclosed] at hopen
                  cases hopen
                · rintro ⟨s₂', hcompletes', ⟨q, hq⟩ | ⟨-, hpending⟩⟩
                  · rw [hcompletes.unique hcompletes', hclose] at hq
                    cases hq
                  · exact hanswered hpending
              · refine iff_of_false (fun hall => ?_) fun hnone => ?_
                · exact absurd (hall _ rfl hkept) (by simp [CheckoutError.asCleanup])
                · exact hnone ⟨s₂, hcompletes, .inr ⟨rfl, hpending⟩⟩
  · have hagent : agentCheckout h l s = (.error e, (checkout h l s).2) := by
      unfold agentCheckout
      split
      · rename_i result e' p heq
        rw [heq] at herr
        cases herr
        rw [heq]
      · rename_i result p heq
        rw [heq] at herr
        cases herr
    refine ⟨iff_of_true (fun e' he' => ?_) fun ⟨s₂, hcompletes, _⟩ => hnot s₂ hcompletes,
      iff_of_true (fun e' he' howned => ?_) fun ⟨s₂, hcompletes, _⟩ => hnot s₂ hcompletes⟩
    · rw [herr] at he'
      cases he'
      exact haccounted
    · rw [hagent] at he' howned
      cases he'
      rcases haccounted with hnone | ⟨-, -, hretired⟩ | ⟨hcarried, -⟩
      · obtain ⟨r, hr, -⟩ := howned
        rw [hr] at hnone
        cases hnone
      · exact absurd howned hretired
      · exact hcarried

end

def sampleBinding : CheckoutBinding :=
  ⟨"https://github.com/owner/app.git", "0123456789abcdef0123456789abcdef01234567", "reservation"⟩

def sampleSpawn : GitOperation → Spawned
  | .revParseFetchHead => ⟨true, some ⟨0, .success⟩, "0123456789abcdef0123456789abcdef01234567\n"⟩
  | .revParseHead => ⟨true, some ⟨0, .success⟩, "0123456789abcdef0123456789abcdef01234567\n"⟩
  | .lsTree => ⟨true, some ⟨0, .success⟩, "100644 blob 8f2a\tREADME.md\n100755 blob 77b0\tbuild.sh\n"⟩
  | .grepLFS => ⟨true, some ⟨1, .failed⟩, ""⟩
  | _ => ⟨true, some ⟨0, .success⟩, ""⟩

def sampleHost : Host where
  allocate := .ok ()
  resolve := .ok ()
  release _ := .ok ()
  closesDescriptor := true
  stdoutPipe _ := true
  stderrPipe _ := true
  duplicatesWorkspace _ := true
  duplicatesAskpass := true
  spawn := sampleSpawn
  contextDir := some "/checkouts/1"

def sampleBoundary : Boundary := ⟨fun token => token != "", true⟩

-- The reservation cannot be closed after a checkout that went well.
def sampleUnclosed : Returned × Progress CheckoutLease :=
  checkout sampleHost (checkoutLease sampleBoundary ⟨.ok (), .error .controlPlane, .ok ()⟩)
    ⟨"token", sampleBinding, false, false⟩

theorem allocation_lost_with_lease :
    sampleUnclosed.1.err = some (.lease .stale) ∧ ¬ Accounted (.lease .stale) sampleUnclosed.2 ∧
      Owned sampleUnclosed.2 ∧ sampleUnclosed.2.releases = [] := by
  have hreturned : sampleUnclosed.1.err = some (.lease .stale) ∧ sampleUnclosed.2.result = some ⟨false, none⟩ ∧
      sampleUnclosed.2.releases.length = 0 ∧ sampleUnclosed.2.closes = 0 := by
    decide +kernel
  obtain ⟨herr, hresult, hreleases, hcloses⟩ := hreturned
  have howned : Owned sampleUnclosed.2 := ⟨_, hresult, rfl⟩
  refine ⟨herr, ?_, howned, List.length_eq_zero_iff.1 hreleases⟩
  rintro (hnone | ⟨-, -, hretired⟩ | ⟨hcarried, -⟩)
  · rw [hresult] at hnone
    cases hnone
  · exact hretired howned
  · cases hcarried

end AutoDeploy.Checkout
