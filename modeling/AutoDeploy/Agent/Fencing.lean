import AutoDeploy.Agent.FenceStore
import AutoDeploy.Lib.Runs

namespace AutoDeploy.Agent

open Lib

-- What `runLease` reads of the lease a claim returned.
structure ClaimedLease where
  environmentID : String
  fence : Int64
deriving DecidableEq, Repr

-- How the first part of `runLease` ends: only the last one goes on to `Execute`.
inductive Acceptance
  | unreadable
  | rejected
  | unsaved
  | crashed
  | accepted
deriving DecidableEq, Repr

def acceptLease (first second : Outcome) (dir : FenceDirectory) (lease : ClaimedLease) : FenceDirectory × Acceptance :=
  match load dir lease.environmentID with
  | .error _ => (dir, .unreadable)
  | .ok (stored, existed) =>
      if existed && (stored.reconciliationRequired || decide (lease.fence ≤ stored.highestAcceptedFence)) then
        (dir, .rejected)
      else
        match save first second dir ⟨lease.environmentID, lease.fence, false⟩ with
        | (dir', .ok ()) => (dir', .accepted)
        | (dir', .error .error) => (dir', .unsaved)
        | (dir', .error .crash) => (dir', .crashed)

-- A state that cannot be read or written is only logged; a crash ends the process.
def Fence.mark (stored : Fence) (environmentID : String) : Fence :=
  { stored with environmentID := environmentID, reconciliationRequired := true }

def markReconciliationRequired (first second : Outcome) (dir : FenceDirectory) (environmentID : String) :
    FenceDirectory × Except Fault Unit :=
  match load dir environmentID with
  | .error _ => (dir, .ok ())
  | .ok (stored, _) => save first second dir (stored.mark environmentID)

-- The state directory, the lease in execution, and every invocation of `Execute` so far.
structure AgentRun where
  dir : FenceDirectory
  running : Option ClaimedLease
  executed : List ClaimedLease

def AgentRun.accept (first second : Outcome) (s : AgentRun) (lease : ClaimedLease) : AgentRun :=
  match acceptLease first second s.dir lease with
  | (dir', .accepted) => ⟨dir', some lease, s.executed ++ [lease]⟩
  | (dir', _) => { s with dir := dir' }

def AgentRun.fences (s : AgentRun) (environmentID : String) : List Int64 :=
  (s.executed.filter fun lease => lease.environmentID = environmentID).map ClaimedLease.fence

-- A restart after a crash finds the files as the crash left them, and no lease in execution.
inductive AgentRun.Step (s : AgentRun) : AgentRun → Prop
  | offer (lease : ClaimedLease) (first second : Outcome) (hidle : s.running = none) :
      Step s (s.accept first second lease)
  | stale {lease : ClaimedLease} (first second : Outcome) (hrunning : s.running = some lease) :
      Step s { s with dir := (markReconciliationRequired first second s.dir lease.environmentID).1, running := none }
  | finish {lease : ClaimedLease} (hrunning : s.running = some lease) : Step s { s with running := none }
  | crash : Step s { s with running := none }

-- Whatever the state directory holds when the agent is first started.
def agentSystem : System AgentRun where
  initial s := s.running = none ∧ s.executed = []
  next := AgentRun.Step

def Marked (dir : FenceDirectory) (environmentID : String) : Prop :=
  ∃ c stored, dir.get? (fenceFile environmentID) = some (.contents c) ∧ c.asFence = some stored ∧
    stored.reconciliationRequired = true

def Unreadable (dir : FenceDirectory) (environmentID : String) : Prop := ∃ e, load dir environmentID = .error e

section

variable {dir : FenceDirectory} {environmentID : String} {lease : ClaimedLease} {first second : Outcome}
  {s s' : AgentRun}

-- Everything accepting a lease can do.
theorem acceptLease_cases (first second : Outcome) (dir : FenceDirectory) (lease : ClaimedLease) :
    ((acceptLease first second dir lease).1 = dir ∧ (acceptLease first second dir lease).2 ≠ .accepted) ∨
      ∃ stored existed, load dir lease.environmentID = .ok (stored, existed) ∧
        (existed = true → stored.reconciliationRequired = false ∧ stored.highestAcceptedFence < lease.fence) ∧
        (acceptLease first second dir lease).1 =
          (save first second dir ⟨lease.environmentID, lease.fence, false⟩).1 ∧
        ((acceptLease first second dir lease).2 = .accepted →
          (save first second dir ⟨lease.environmentID, lease.fence, false⟩).2 = .ok ()) := by
  unfold acceptLease
  cases hload : load dir lease.environmentID with
  | error e => exact .inl ⟨rfl, fun h => (by cases h)⟩
  | ok r =>
      obtain ⟨stored, existed⟩ := r
      simp only
      split
      · exact .inl ⟨rfl, fun h => (by cases h)⟩
      · rename_i hguard
        refine .inr ⟨stored, existed, rfl, fun hexisted => ?_, ?_⟩
        · simpa [hexisted] using hguard
        · obtain ⟨dir', result⟩ := save first second dir ⟨lease.environmentID, lease.fence, false⟩
          cases result with
          | ok u => exact ⟨rfl, fun _ => rfl⟩
          | error fault =>
              cases fault with
              | error => exact ⟨rfl, fun h => (by cases h)⟩
              | crash => exact ⟨rfl, fun h => (by cases h)⟩

theorem markReconciliationRequired_cases (first second : Outcome) (dir : FenceDirectory) (environmentID : String) :
    (markReconciliationRequired first second dir environmentID).1 = dir ∨
      ∃ stored existed, load dir environmentID = .ok (stored, existed) ∧
        (markReconciliationRequired first second dir environmentID).1 =
          (save first second dir (stored.mark environmentID)).1 := by
  unfold markReconciliationRequired
  cases hload : load dir environmentID with
  | error e => exact .inl rfl
  | ok r => exact .inr ⟨r.1, r.2, rfl, rfl⟩

-- The agent will not execute in the environment: its state cannot be read, or is marked.
def Refused (dir : FenceDirectory) (environmentID : String) : Prop :=
  ∀ stored existed, load dir environmentID = .ok (stored, existed) → stored.reconciliationRequired = true

theorem refused_of_marked (h : Marked dir environmentID) : Refused dir environmentID := by
  intro stored existed hload
  obtain ⟨c, f, hfile, hf, hmarked⟩ := h
  obtain ⟨listed, -, ⟨-, -, hnone, -⟩ | ⟨-, -, -, c', hfile', hf'⟩⟩ := load_eq_ok hload
  · rw [hfile] at hnone
    cases hnone
  · rw [hfile] at hfile'
    cases hfile'
    rw [hf] at hf'
    cases hf'
    exact hmarked

theorem refused_of_unreadable (h : Unreadable dir environmentID) : Refused dir environmentID := by
  intro stored existed hload
  obtain ⟨e, he⟩ := h
  rw [he] at hload
  cases hload

-- A first encounter is never marked, so an environment that is refused is refused as one the agent has been in.
theorem Refused.existed (h : Refused dir environmentID) {stored : Fence} {existed : Bool}
    (hload : load dir environmentID = .ok (stored, existed)) : existed = true := by
  obtain ⟨listed, -, ⟨-, hzero, -⟩ | ⟨hexisted, -⟩⟩ := load_eq_ok hload
  · have hmarked := h stored existed hload
    rw [hzero] at hmarked
    cases hmarked
  · exact hexisted

theorem Refused.of_lapse {dir' : FenceDirectory} (h : Refused dir environmentID)
    (hlapse : load dir' environmentID = load dir environmentID ∨ load dir' environmentID = .error .corruptState) :
    Refused dir' environmentID := by
  intro stored existed hload
  rcases hlapse with hsame | hlost
  · exact h stored existed (hsame ▸ hload)
  · rw [hlost] at hload
    cases hload

-- A refused environment stays refused, and `Execute` is not invoked in it.
theorem Refused.accept (h : Refused s.dir environmentID) (first second : Outcome) (lease : ClaimedLease) :
    Refused (s.accept first second lease).dir environmentID ∧
      (s.accept first second lease).fences environmentID = s.fences environmentID := by
  have hdir : (s.accept first second lease).dir = (acceptLease first second s.dir lease).1 := by
    unfold AgentRun.accept
    split
    · rename_i heq
      rw [heq]
    · rename_i heq
      rw [heq]
  rw [hdir]
  by_cases hother : lease.environmentID = environmentID
  · subst hother
    have hrejected : (acceptLease first second s.dir lease).1 = s.dir ∧
        (acceptLease first second s.dir lease).2 ≠ .accepted := by
      rcases acceptLease_cases first second s.dir lease with hkept | ⟨stored, existed, hload, hguard, -⟩
      · exact hkept
      · have hmarked := h stored existed hload
        rw [(hguard (h.existed hload)).1] at hmarked
        cases hmarked
    refine ⟨by rw [hrejected.1]; exact h, ?_⟩
    unfold AgentRun.accept
    split
    · rename_i heq
      rw [heq] at hrejected
      exact absurd rfl hrejected.2
    · rfl
  · refine ⟨?_, ?_⟩
    · rcases acceptLease_cases first second s.dir lease with ⟨hkept, -⟩ | ⟨stored, existed, hload, -, hsaved, -⟩
      · rw [hkept]
        exact h
      · rw [hsaved]
        exact h.of_lapse (load_save_other hload (Ne.symm hother))
    · unfold AgentRun.accept
      split
      · simp [AgentRun.fences, List.filter_append, hother]
      · rfl

theorem Refused.step (h : Refused s.dir environmentID) (hstep : s.Step s') :
    Refused s'.dir environmentID ∧ s'.fences environmentID = s.fences environmentID := by
  cases hstep with
  | offer lease first second hidle => exact h.accept first second lease
  | @stale lease first second hrunning =>
      refine ⟨?_, rfl⟩
      show Refused (markReconciliationRequired first second s.dir lease.environmentID).1 environmentID
      rcases markReconciliationRequired_cases first second s.dir lease.environmentID with
        hkept | ⟨stored, existed, hload, hsaved⟩
      · rw [hkept]
        exact h
      · rw [hsaved]
        by_cases hother : environmentID = lease.environmentID
        · subst hother
          rcases load_save_self first second s.dir (stored.mark lease.environmentID) with hsame | hlost | hmarked
          · exact h.of_lapse (.inl hsame)
          · exact h.of_lapse (.inr hlost)
          · intro stored' existed' hload'
            rw [show load _ lease.environmentID = _ from hmarked] at hload'
            cases hload'
            rfl
        · exact h.of_lapse (load_save_other hload hother)
  | finish hrunning => exact ⟨h, rfl⟩
  | crash => exact ⟨h, rfl⟩

theorem Refused.run (h : Refused s.dir environmentID) (hrun : agentSystem.Run s s') :
    s'.fences environmentID = s.fences environmentID := by
  have hkept : Refused s'.dir environmentID ∧ s'.fences environmentID = s.fences environmentID := by
    refine chain_preserves (P := fun t => Refused t.dir environmentID ∧ t.fences environmentID = s.fences environmentID)
      ?_ hrun ⟨h, rfl⟩
    rintro t t' ⟨hrefused, hsame⟩ hstep
    obtain ⟨hrefused', hsame'⟩ := hrefused.step hstep
    exact ⟨hrefused', hsame'.trans hsame⟩
  exact hkept.2

-- Whatever is read of the environment is a fence at least as high.
def Reserved (dir : FenceDirectory) (environmentID : String) (fence : Int64) : Prop :=
  ∀ stored existed, load dir environmentID = .ok (stored, existed) →
    existed = true ∧ fence ≤ stored.highestAcceptedFence

theorem Reserved.of_lapse {dir' : FenceDirectory} {fence : Int64} (h : Reserved dir environmentID fence)
    (hlapse : load dir' environmentID = load dir environmentID ∨ load dir' environmentID = .error .corruptState) :
    Reserved dir' environmentID fence := by
  intro stored existed hload
  rcases hlapse with hsame | hlost
  · exact h stored existed (hsame ▸ hload)
  · rw [hlost] at hload
    cases hload

-- Saving a fence that is not lower keeps what is reserved.
theorem Reserved.save {fence : Int64} {f stored : Fence} {existed : Bool} (h : Reserved dir environmentID fence)
    (hload : load dir f.environmentID = .ok (stored, existed))
    (hhigher : existed = true → stored.highestAcceptedFence ≤ f.highestAcceptedFence) :
    Reserved (Agent.save first second dir f).1 environmentID fence := by
  by_cases hother : environmentID = f.environmentID
  · subst hother
    obtain ⟨hexisted, hfence⟩ := h stored existed hload
    rcases load_save_self first second dir f with hsame | hlost | hsaved
    · exact h.of_lapse (.inl hsame)
    · exact h.of_lapse (.inr hlost)
    · intro stored' existed' hload'
      rw [hsaved] at hload'
      cases hload'
      exact ⟨rfl, Int64.le_trans hfence (hhigher hexisted)⟩
  · exact h.of_lapse (load_save_other hload hother)

theorem Reserved.acceptLease {fence : Int64} (h : Reserved dir environmentID fence) (first second : Outcome)
    (lease : ClaimedLease) : Reserved (Agent.acceptLease first second dir lease).1 environmentID fence := by
  rcases acceptLease_cases first second dir lease with ⟨hkept, -⟩ | ⟨stored, existed, hload, hguard, hsaved, -⟩
  · rw [hkept]
    exact h
  · rw [hsaved]
    exact h.save (f := ⟨lease.environmentID, lease.fence, false⟩) hload fun hexisted =>
      Int64.le_of_lt (hguard hexisted).2

theorem Reserved.mark {fence : Int64} {other : String} (h : Reserved dir environmentID fence) (first second : Outcome) :
    Reserved (markReconciliationRequired first second dir other).1 environmentID fence := by
  rcases markReconciliationRequired_cases first second dir other with hkept | ⟨stored, existed, hload, hsaved⟩
  · rw [hkept]
    exact h
  · rw [hsaved]
    exact h.save (f := stored.mark other) hload fun _ => Int64.le_refl _

-- An accepted lease has its fence stored before `Execute` is invoked, and the fence is new.
theorem reserved_of_accepted {dir' : FenceDirectory} (h : acceptLease first second dir lease = (dir', .accepted)) :
    Reserved dir' lease.environmentID lease.fence ∧
      ∀ fence, Reserved dir lease.environmentID fence → fence < lease.fence := by
  rcases acceptLease_cases first second dir lease with ⟨-, hnot⟩ | ⟨stored, existed, hload, hguard, hsaved, haccepted⟩
  · rw [h] at hnot
    exact absurd rfl hnot
  · rw [h] at hsaved haccepted
    refine ⟨fun stored' existed' hload' => ?_, fun fence hreserved => ?_⟩
    · have hstored := load_saved (haccepted rfl)
      rw [← hsaved] at hstored
      rw [show load dir' lease.environmentID = _ from hstored] at hload'
      cases hload'
      exact ⟨rfl, Int64.le_refl _⟩
    · obtain ⟨hexisted, hle⟩ := hreserved stored existed hload
      exact Int64.lt_of_le_of_lt hle (hguard hexisted).2

structure Fenced (s : AgentRun) : Prop where
  reserved : ∀ lease ∈ s.executed, Reserved s.dir lease.environmentID lease.fence
  increasing : ∀ environmentID, (s.fences environmentID).Pairwise (· < ·)

theorem Fenced.step (h : Fenced s) (hstep : s.Step s') : Fenced s' := by
  cases hstep with
  | offer lease first second hidle =>
      unfold AgentRun.accept
      split
      · rename_i dir' heq
        obtain ⟨hreserved, hnew⟩ := reserved_of_accepted heq
        refine ⟨fun lease' hmem => ?_, fun environmentID => ?_⟩
        · rcases List.mem_append.1 hmem with hold | hlast
          · have hkept := (h.reserved lease' hold).acceptLease first second lease
            rw [heq] at hkept
            exact hkept
          · rw [List.mem_singleton.1 hlast]
            exact hreserved
        · have hincreasing := h.increasing environmentID
          by_cases hother : lease.environmentID = environmentID
          · subst hother
            simp only [AgentRun.fences, List.filter_append, List.map_append]
            refine List.pairwise_append.2 ⟨hincreasing, by simp, ?_⟩
            intro fence hfence fence' hfence'
            simp only [decide_true, List.filter_cons_of_pos, List.filter_nil, List.map_cons, List.map_nil,
              List.mem_singleton] at hfence'
            obtain ⟨lease', hmem, rfl⟩ := List.mem_map.1 hfence
            obtain ⟨hmem, henv⟩ := List.mem_filter.1 hmem
            rw [hfence']
            refine hnew _ ?_
            rw [← of_decide_eq_true henv]
            exact h.reserved lease' hmem
          · simpa [AgentRun.fences, List.filter_append, hother] using hincreasing
      · rename_i dir' verdict hnot heq
        refine ⟨fun lease' hmem => ?_, h.increasing⟩
        have hkept := (h.reserved lease' hmem).acceptLease first second lease
        rw [heq] at hkept
        exact hkept
  | stale first second hrunning =>
      exact ⟨fun lease' hmem => (h.reserved lease' hmem).mark first second, h.increasing⟩
  | finish hrunning => exact ⟨h.reserved, h.increasing⟩
  | crash => exact ⟨h.reserved, h.increasing⟩

-- The fences of one environment only ever grow from one invocation of `Execute` to the next, and an environment whose
-- stored state is marked or cannot be read back sees no further one.
theorem executes_under_new_fences (h : agentSystem.Reachable s) :
    (∀ environmentID, (s.fences environmentID).Pairwise (· < ·)) ∧
      ∀ environmentID, Marked s.dir environmentID ∨ Unreadable s.dir environmentID →
        ∀ s', agentSystem.Run s s' → s'.fences environmentID = s.fences environmentID := by
  refine ⟨?_, fun environmentID hbarred s' hrun => ?_⟩
  · have hfenced : Fenced s := by
      refine h.invariant (P := Fenced) ?_ fun s s' h hstep => h.step hstep
      rintro s ⟨-, hnone⟩
      exact ⟨by simp [hnone], by simp [AgentRun.fences, hnone]⟩
    exact hfenced.increasing
  · have hrefused : Refused s.dir environmentID := by
      rcases hbarred with hmarked | hunreadable
      · exact refused_of_marked hmarked
      · exact refused_of_unreadable hunreadable
    exact hrefused.run hrun

-- A crash between the two writes of the second save: its fence stays reserved, and the third lease is the next to run.
def sampleStart : AgentRun := ⟨.empty, none, []⟩

def sampleFirst : AgentRun := sampleStart.accept .done .done ⟨"env", 1⟩

def sampleCrashed : AgentRun :=
  { sampleFirst with running := none }.accept (.stopped .crash true (some 7)) .done ⟨"env", 2⟩

def sampleThird : AgentRun := (sampleCrashed.accept .done .done ⟨"env", 2⟩).accept .done .done ⟨"env", 3⟩

def sampleMarked : AgentRun :=
  { sampleThird with dir := (markReconciliationRequired .done .done sampleThird.dir "env").1, running := none }

theorem sampleMarked_reachable : agentSystem.Reachable sampleMarked := by
  have hrunning : sampleFirst.running = some ⟨"env", 1⟩ ∧ sampleCrashed.running = none ∧
      (sampleCrashed.accept .done .done ⟨"env", 2⟩).running = none ∧ sampleThird.running = some ⟨"env", 3⟩ := by
    decide +kernel
  have hstart : agentSystem.Reachable sampleStart := .of_initial ⟨rfl, rfl⟩
  have hfirst := hstart.step (.offer ⟨"env", 1⟩ .done .done rfl)
  have hcrashed := (hfirst.step (.finish hrunning.1)).step (.offer ⟨"env", 2⟩ (.stopped .crash true (some 7)) .done rfl)
  have hrejected := hcrashed.step (.offer ⟨"env", 2⟩ .done .done hrunning.2.1)
  have hthird := hrejected.step (.offer ⟨"env", 3⟩ .done .done hrunning.2.2.1)
  exact hthird.step (.stale .done .done hrunning.2.2.2)

theorem executes_under_new_fences_crashed :
    sampleMarked.fences "env" = [1, 3] ∧ Marked sampleMarked.dir "env" ∧
      ∀ s', agentSystem.Run sampleMarked s' → s'.fences "env" = [1, 3] := by
  have hfences : sampleMarked.fences "env" = [1, 3] := by decide +kernel
  have hfile : sampleMarked.dir.get? (fenceFile "env") = some (.contents (marshalFence ⟨"env", 3, true⟩)) := by
    decide +kernel
  have hmarked : Marked sampleMarked.dir "env" := ⟨_, _, hfile, rfl, rfl⟩
  obtain ⟨-, hbarred⟩ := executes_under_new_fences sampleMarked_reachable
  exact ⟨hfences, hmarked, fun s' hrun => (hbarred "env" (.inl hmarked) s' hrun).trans hfences⟩

end

end AutoDeploy.Agent
