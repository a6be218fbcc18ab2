import AutoDeploy.Checkout.Cleanup

namespace AutoDeploy.Checkout

open Lib Lib.Result

-- The quota helper, the system and every git operation do what they are asked.
structure Smooth (h : Host) (binding : CheckoutBinding) : Prop where
  allocate : h.allocate = .ok ()
  release : ∀ n, h.release n = .ok ()
  descriptor : h.closesDescriptor = true
  stdoutPipe : ∀ op, h.stdoutPipe op = true
  stderrPipe : ∀ op, h.stderrPipe op = true
  workspace : ∀ op, h.duplicatesWorkspace op = true
  askpass : h.duplicatesAskpass = true
  writersClosed : ∀ op, (h.spawn op).writersClosed = true
  ran : ∀ op, op ≠ .grepLFS → (h.spawn op).ran = some ⟨0, .success⟩
  fetchHead : Prints h .revParseFetchHead binding.commitSHA
  head : Prints h .revParseHead binding.commitSHA
  tree : unsafeTree (h.spawn .lsTree).output = false
  lfs : (h.spawn .grepLFS).ran = some ⟨1, .failed⟩ ∨
    (h.spawn .grepLFS).ran = some ⟨0, .success⟩ ∧ Utf8.trimSpace (h.spawn .grepLFS).output.toList = []

section

variable {σ : Type} {h : Host} {l : Lease σ} {s : σ} {binding : CheckoutBinding} {b : Boundary} {c : CheckoutClient}
  {v : CheckoutService} {token : String}

theorem Smooth.reached (hsmooth : Smooth h binding) (hwriters : l.redactingWriter s = .ok ()) (op : GitOperation) :
    Reached h l s op :=
  ⟨hsmooth.stdoutPipe op, hsmooth.stderrPipe op, hwriters, hsmooth.workspace op, hsmooth.writersClosed op⟩

-- With a smooth host, a lease that hands out its writers throughout sees the checkout through.
theorem Smooth.completes {s₁ s₂ : σ} (hsmooth : Smooth h binding) (husable : binding.usable = true)
    (hbinding : l.binding s = binding) (hbefore : l.redactingWriter s = .ok ()) (hstart : l.start s = (.ok (), s₁))
    (hbroker : l.newAskPassBroker s₁ = (.ok (), s₂)) (hafter : l.redactingWriter s₂ = .ok ()) :
    Completes h l s s₂ := by
  have hran : ∀ op, op ≠ .grepLFS → Ran h l s₂ op := fun op hop => ⟨hsmooth.reached hafter op, hsmooth.ran op hop⟩
  have hfirst : ∀ op, op ≠ .grepLFS → Ran h l s op := fun op hop => ⟨hsmooth.reached hbefore op, hsmooth.ran op hop⟩
  rw [Completes, hbinding]
  refine ⟨husable, hsmooth.allocate, s₁, ?_⟩
  exact {
    init := hfirst .init (by decide)
    remote := hfirst .remoteAddOrigin (by decide)
    start := hstart
    broker := hbroker
    askpass := hsmooth.askpass
    fetch := hran .fetchExact (by decide)
    fetchHead := ⟨hran .revParseFetchHead (by decide), hsmooth.fetchHead⟩
    checkout := hran .checkoutFetchHead (by decide)
    head := ⟨hran .revParseHead (by decide), hsmooth.head⟩
    tree := ⟨hran .lsTree (by decide), hsmooth.tree⟩
    lfs := ⟨hsmooth.reached hafter .grepLFS, hsmooth.lfs⟩ }

-- A lease without writers before `Start` fails the first operation, and with it the checkout.
theorem Smooth.fails {e : LeaseError} (hsmooth : Smooth h binding) (husable : binding.usable = true)
    (hbinding : l.binding s = binding) (hwriters : l.redactingWriter s = .error e) (hclose : (l.close s).1 = .ok ()) :
    (checkout h l s).1 = ⟨false, some .gitFailed⟩ := by
  have hinit : execute h l s .init false = .error .gitFailed := by
    rw [execute, require_pos (hsmooth.stdoutPipe .init), require_pos (hsmooth.stderrPipe .init), hwriters]
    rfl
  have hprepare : prepareWorkspace h l s = .error .gitFailed := by
    rw [prepareWorkspace, runGit, hinit]
    rfl
  have hrun : runSequence h l s binding = (.error .gitFailed, s) := by
    rw [runSequence, hprepare]
  have hbody : checkoutBody h l ⟨s, none, [], 0⟩ = (⟨false, some .gitFailed⟩, ⟨s, some ⟨false, none⟩, [], 0⟩) := by
    simp only [checkoutBody, hbinding, husable, if_true, hsmooth.allocate, hrun]
  have hcleaned : cleanUp h ⟨false, some .gitFailed⟩ ⟨s, some ⟨false, none⟩, [], 0⟩ =
      (⟨false, some .gitFailed⟩, ⟨s, some ⟨true, none⟩, [.ok ()], 1⟩) := by
    simp [cleanUp, Result.close, retire, hsmooth.release, hsmooth.descriptor, joinErrors, CheckoutError.asCleanup]
  simp only [checkout, hbody, hcleaned, closeLease]
  cases hanswer : l.close s with
  | mk answer s' =>
      rw [hanswer] at hclose
      cases hclose
      rfl

-- Where every call and every operation succeeds, the control plane's lease sees the checkout through, and the agent's
-- lease, asked for a writer before `Start`, fails it.
theorem agent_checkout_never_succeeds {attemptID fence : Int} (hattempt : 0 < attemptID ∧ 0 < fence)
    (husable : binding.usable = true) (hsmooth : Smooth h binding) (htoken : token ≠ "")
    (hredactable : b.redactable token = true) (hpipes : b.pipes = true)
    (hclient : c = ⟨.ok (binding.reservationID, binding), .ok token, .ok ()⟩) (hservice : v = ⟨.ok (), .ok (), .ok ()⟩) :
    (∃ lease, beginLease c attemptID fence = .ok lease ∧ lease.binding = binding ∧
        (checkout h (agentLease b c) lease).1 = ⟨false, some .gitFailed⟩) ∧
      (checkout h (checkoutLease b v) ⟨token, binding, false, false⟩).1 = ⟨true, none⟩ := by
  have hreserved : binding.reservationID ≠ "" := by
    simp only [CheckoutBinding.usable, Bool.and_eq_true, bne_iff_ne] at husable
    exact husable.2
  subst hclient hservice
  refine ⟨⟨⟨binding, binding.reservationID, false, false, "", false⟩, ?_, rfl, ?_⟩, ?_⟩
  · rw [beginLease, require_pos hattempt]
    simp only [ok_bind, require_pos hreserved]
    rfl
  · refine hsmooth.fails husable rfl (e := .unavailable) rfl ?_
    simp [agentLease, AgentLease.close, hreserved]
  · have hwriter : ∀ delivered, CheckoutLease.redactingWriter b ⟨token, binding, delivered, false⟩ = .ok () := by
      intro delivered
      simp [CheckoutLease.redactingWriter, Boundary.redactingWriter, htoken, hredactable]
    have hcompletes : Completes h (checkoutLease b ⟨.ok (), .ok (), .ok ()⟩) ⟨token, binding, false, false⟩
        ⟨token, binding, true, false⟩ := by
      have hstart : CheckoutLease.start ⟨.ok (), .ok (), .ok ()⟩ ⟨token, binding, false, false⟩ =
          (.ok (), ⟨token, binding, false, false⟩) := by
        simp [CheckoutLease.start, hreserved, htoken, Except.mapError]
      have hbroker : CheckoutLease.newAskPassBroker b ⟨token, binding, false, false⟩ =
          (.ok (), ⟨token, binding, true, false⟩) := by
        simp [CheckoutLease.newAskPassBroker, htoken, hpipes]
      exact hsmooth.completes husable rfl (hwriter false) hstart hbroker (hwriter true)
    have hclose : CheckoutLease.close ⟨.ok (), .ok (), .ok ()⟩ ⟨token, binding, true, false⟩ =
        (.ok (), ⟨"", binding, true, false⟩) := by
      simp [CheckoutLease.close, CheckoutLease.revoke, hreserved, htoken, Except.mapError]
    obtain ⟨s₂, hcompletes', hcheckout⟩ | ⟨hnot, -⟩ := checkout_cases h (checkoutLease b ⟨.ok (), .ok (), .ok ()⟩)
      ⟨token, binding, false, false⟩
    · rw [hcompletes.unique hcompletes'] at hcheckout
      rw [hcheckout, show (checkoutLease b _).close _ = _ from hclose]
    · exact absurd hcompletes (hnot _)

theorem sampleHost_smooth : Smooth sampleHost sampleBinding where
  allocate := rfl
  release _ := rfl
  descriptor := rfl
  stdoutPipe _ := rfl
  stderrPipe _ := rfl
  workspace _ := rfl
  askpass := rfl
  writersClosed op := by cases op <;> rfl
  ran op hop := by
    cases op with
    | grepLFS => exact absurd rfl hop
    | _ => rfl
  fetchHead := by unfold Prints; decide
  head := by unfold Prints; decide
  tree := by decide
  lfs := .inl rfl

def sampleClient : CheckoutClient := ⟨.ok (sampleBinding.reservationID, sampleBinding), .ok "token", .ok ()⟩

theorem agent_checkout_never_succeeds_sample :
    sampleBinding.usable = true ∧
      (∃ lease, beginLease sampleClient 1 1 = .ok lease ∧ lease.binding = sampleBinding ∧
        (checkout sampleHost (agentLease sampleBoundary sampleClient) lease).1 = ⟨false, some .gitFailed⟩) ∧
      (checkout sampleHost (checkoutLease sampleBoundary ⟨.ok (), .ok (), .ok ()⟩)
        ⟨"token", sampleBinding, false, false⟩).1 = ⟨true, none⟩ := by
  have husable : sampleBinding.usable = true := by decide
  exact ⟨husable, agent_checkout_never_succeeds ⟨by decide, by decide⟩ husable sampleHost_smooth (by decide) (by decide)
    rfl rfl rfl⟩

-- One checkout in which everything succeeds and the agent gets an error.
theorem agent_checkout_fails :
    sampleBinding.usable = true ∧ Smooth sampleHost sampleBinding ∧
      beginLease sampleClient 1 1 = .ok ⟨sampleBinding, "reservation", false, false, "", false⟩ ∧
      (checkout sampleHost (agentLease sampleBoundary sampleClient)
        ⟨sampleBinding, "reservation", false, false, "", false⟩).1 = ⟨false, some .gitFailed⟩ :=
  ⟨by decide, sampleHost_smooth, rfl, by decide⟩

end

end AutoDeploy.Checkout
