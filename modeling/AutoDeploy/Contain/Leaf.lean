import AutoDeploy.Lib.Runs
import AutoDeploy.Lib.Utf8
import AutoDeploy.Lib.Words

namespace AutoDeploy.Contain

open Lib

def fields (text : List Char) : List (List Char) := Words.words Utf8.isSpace text

-- `populated 0` on a line of its own.
def eventsPopulatedZero (text : List Char) : Bool :=
  (text.splitOn '\n').any fun line => fields line == ["populated".toList, "0".toList]

-- A directory, as `fstat` tells it from others.
structure Identity where
  dev : Nat
  ino : Nat
deriving DecidableEq, Repr

-- The open file of the leaf: after its `Close` it has no descriptor any more, whatever `close` said.
inductive File where
  | open
  | closed
deriving DecidableEq, Repr

inductive Unlink where
  | removed
  | missing
  | failed
deriving DecidableEq, Repr

-- How the kernel calls of one `Close` go, each in its turn. The reads of `cgroup.events` are those before the deadline.
structure Calls where
  openKill : Bool
  writeKill : Bool
  closeKill : Bool
  events : List (Option (List Char))
  openEntry : Bool
  statEntry : Bool
  unlink : Unlink
  closeDir : Bool

-- The leaf, its manager's count, and the entry of the root directory under the leaf's name.
structure Leaf where
  id : Identity
  dir : File
  managed : Bool
  done : Bool
  leaves : Nat
  entry : Option Identity
  -- the directories that were removed
  removed : List Identity
deriving DecidableEq, Repr

-- A call relative to a closed file's descriptor fails.
def writeKill (l : Leaf) (c : Calls) : Bool :=
  decide (l.dir = .open) && c.openKill && c.writeKill && c.closeKill

def waitEmpty (l : Leaf) (c : Calls) : Bool :=
  decide (l.dir = .open) && c.events.any fun reading => reading.any eventsPopulatedZero

-- The entry under the leaf's name is still the directory that the leaf created.
def sameEntry (l : Leaf) (c : Calls) : Bool :=
  c.openEntry && c.statEntry && decide (l.entry = some l.id)

-- `unlinkat`: it removes what the name denotes. The entry is missing when somebody else has removed it since the check.
def unlinkEntry (l : Leaf) : Unlink → Leaf
  | .removed => { l with entry := none, removed := l.entry.toList ++ l.removed }
  | .missing => { l with entry := none }
  | .failed => l

def lower (l : Leaf) : Leaf :=
  { l with done := true, leaves := if l.managed then l.leaves - 1 else l.leaves }

-- `Close`: the leaf after it, and whether it returned without an error.
def Leaf.close (l : Leaf) (c : Calls) : Leaf × Bool :=
  if l.done then (l, true)
  else if !(writeKill l c && waitEmpty l c) then (l, false)
  else if !sameEntry l c then (l, false)
  else
    let l := { unlinkEntry l c.unlink with dir := .closed }
    if c.unlink = .failed then (l, false)
    else if !c.closeDir then (l, false)
    else (lower l, true)

-- The calls before the removal go well.
def reachesRemoval (l : Leaf) (c : Calls) : Bool :=
  !l.done && writeKill l c && waitEmpty l c && sameEntry l c

-- What a `Close` does: nothing, or it comes to the removal and closes the file.
theorem close_cases (l : Leaf) (c : Calls) :
    (l.done = true ∧ l.close c = (l, true)) ∨
    (l.done = false ∧ reachesRemoval l c = false ∧ l.close c = (l, false)) ∨
    (l.done = false ∧ reachesRemoval l c = true ∧ (c.unlink = .failed ∨ c.closeDir = false) ∧
      l.close c = ({ unlinkEntry l c.unlink with dir := .closed }, false)) ∨
    (l.done = false ∧ reachesRemoval l c = true ∧ c.unlink ≠ .failed ∧ c.closeDir = true ∧
      l.close c = (lower { unlinkEntry l c.unlink with dir := .closed }, true)) := by
  unfold Leaf.close reachesRemoval
  by_cases hdone : l.done = true
  · exact .inl ⟨hdone, by simp [hdone]⟩
  · have hdone : l.done = false := by simpa using hdone
    right
    by_cases hkill : (writeKill l c && waitEmpty l c) = true
    · by_cases hsame : sameEntry l c = true
      · by_cases hunlink : c.unlink = .failed
        · refine .inr (.inl ⟨hdone, ?_, .inl hunlink, ?_⟩)
          · simp [hdone, hsame, hkill]
          · simp [hdone, hkill, hsame, hunlink]
        · by_cases hclose : c.closeDir = true
          · refine .inr (.inr ⟨hdone, ?_, hunlink, hclose, ?_⟩)
            · simpa [hdone, hsame] using hkill
            · simp [hdone, hkill, hsame, hunlink, hclose]
          · have hclose : c.closeDir = false := by simpa using hclose
            refine .inr (.inl ⟨hdone, ?_, .inr hclose, ?_⟩)
            · simpa [hdone, hsame] using hkill
            · simp [hdone, hkill, hsame, hunlink, hclose]
      · refine .inl ⟨hdone, ?_, ?_⟩
        · simp [hsame]
        · simp [hdone, hkill, hsame]
    · have hkill : (writeKill l c && waitEmpty l c) = false := by simpa using hkill
      refine .inl ⟨hdone, ?_, ?_⟩
      · simp only [hdone, Bool.not_false, Bool.true_and, hkill, Bool.false_and]
      · simp [hdone, hkill]

-- What happens to a leaf: it is closed, or somebody else changes what its name denotes.
inductive Step where
  | close (calls : Calls)
  | rebind (entry : Option Identity)

def Leaf.step (l : Leaf) : Step → Leaf
  | .close c => (l.close c).1
  | .rebind entry => { l with entry }

def Leaf.after (l : Leaf) (steps : List Step) : Leaf := steps.foldl Leaf.step l

-- A `Close` that comes to the removal and fails there: the directory is not removed, or the file is not closed properly.
def Leaf.Interrupted (l : Leaf) : Step → Prop
  | .close c => reachesRemoval l c = true ∧ (c.unlink = .failed ∨ c.closeDir = false)
  | .rebind _ => False

-- A leaf as `Create` returns it.
structure Fresh (l : Leaf) : Prop where
  dir : l.dir = .open
  managed : l.managed = true
  pending : l.done = false
  counted : 0 < l.leaves
  entry : l.entry = some l.id
  removed : l.removed = []

def runs (start : Leaf) : System Leaf where
  initial l := l = start
  next l l' := ∃ step, l' = l.step step

def uninterrupted (start : Leaf) : System Leaf where
  initial l := l = start
  next l l' := ∃ step, ¬ l.Interrupted step ∧ l' = l.step step

-- Every call goes well, and no process is left.
structure Calls.Succeed (c : Calls) : Prop where
  openKill : c.openKill = true
  writeKill : c.writeKill = true
  closeKill : c.closeKill = true
  events : ∃ text, some text ∈ c.events ∧ eventsPopulatedZero text = true
  openEntry : c.openEntry = true
  statEntry : c.statEntry = true
  unlink : c.unlink = .removed
  closeDir : c.closeDir = true

-- What is promised of a leaf that started as `start`.
structure Retries (start l : Leaf) : Prop where
  retry : l.done = false → l.entry = some start.id → ∀ c : Calls, c.Succeed →
    (l.close c).2 = true ∧ (l.close c).1.entry = none ∧ (l.close c).1.removed = start.id :: l.removed ∧
      (l.close c).1.done = true ∧ (l.close c).1.leaves = start.leaves - 1
  pending : l.done = false → l.leaves = start.leaves
  further : l.done = true → l.leaves = start.leaves - 1 ∧ ∀ c : Calls, l.close c = (l, true)
  own : ∀ directory ∈ l.removed, directory = start.id

-- What every run keeps, interrupted or not.
structure Kept (start l : Leaf) : Prop where
  id : l.id = start.id
  managed : l.managed = true
  own : ∀ directory ∈ l.removed, directory = start.id
  pending : l.done = false → l.leaves = start.leaves
  lowered : l.done = true → l.leaves = start.leaves - 1

theorem Fresh.kept {l : Leaf} (h : Fresh l) : Kept l l := by
  refine ⟨rfl, h.managed, ?_, fun _ => rfl, fun hdone => ?_⟩
  · rw [h.removed]
    exact fun directory hmem => absurd hmem List.not_mem_nil
  · rw [h.pending] at hdone
    cases hdone

-- Only the entry that the check has seen is removed.
theorem Kept.unlink {start l : Leaf} (h : Kept start l) {c : Calls} (hreach : reachesRemoval l c = true) :
    Kept start { unlinkEntry l c.unlink with dir := .closed } := by
  have hentry : l.entry = some l.id := by
    simp only [reachesRemoval, sameEntry, Bool.and_eq_true, decide_eq_true_eq] at hreach
    exact hreach.2.2
  cases hcase : c.unlink with
  | removed =>
      refine ⟨h.id, h.managed, fun directory hmem => ?_, h.pending, h.lowered⟩
      rw [unlinkEntry, hentry] at hmem
      rcases List.mem_cons.1 hmem with rfl | hmem
      · exact h.id
      · exact h.own directory hmem
  | missing => exact ⟨h.id, h.managed, h.own, h.pending, h.lowered⟩
  | failed => exact ⟨h.id, h.managed, h.own, h.pending, h.lowered⟩

theorem unlinkEntry_done (l : Leaf) (u : Unlink) : (unlinkEntry l u).done = l.done := by
  cases u <;> rfl

theorem Kept.step {start l : Leaf} (h : Kept start l) (step : Step) : Kept start (l.step step) := by
  cases step with
  | rebind entry => exact ⟨h.id, h.managed, h.own, h.pending, h.lowered⟩
  | close c =>
      rw [Leaf.step]
      rcases close_cases l c with ⟨-, hclose⟩ | ⟨-, -, hclose⟩ | ⟨-, hreach, -, hclose⟩ | ⟨hdone, hreach, -, -, hclose⟩
      · rw [hclose]
        exact h
      · rw [hclose]
        exact h
      · rw [hclose]
        exact h.unlink hreach
      · rw [hclose]
        have hkept := h.unlink hreach
        have hleaves := hkept.pending ((unlinkEntry_done l c.unlink).trans hdone)
        refine ⟨hkept.id, hkept.managed, hkept.own, fun hpending => (by cases hpending), fun _ => ?_⟩
        unfold lower
        rw [if_pos hkept.managed]
        exact congrArg (· - 1) hleaves

theorem kept_of_reachable {start l : Leaf} (hfresh : Fresh start) (h : (runs start).Reachable l) : Kept start l := by
  refine System.Reachable.invariant ?_ ?_ h
  · rintro s rfl
    exact hfresh.kept
  · rintro s s' hs ⟨step, rfl⟩
    exact hs.step step

-- As long as no removal is interrupted, a leaf that is not done has its file.
def Usable (l : Leaf) : Prop := l.done = false → l.dir = .open

theorem Usable.step {l : Leaf} (h : Usable l) {step : Step} (hstep : ¬ l.Interrupted step) : Usable (l.step step) := by
  cases step with
  | rebind entry => exact h
  | close c =>
      rw [Leaf.step]
      rcases close_cases l c with ⟨-, hclose⟩ | ⟨-, -, hclose⟩ | ⟨-, hreach, hfail, -⟩ | ⟨-, -, -, -, hclose⟩
      · rw [hclose]
        exact h
      · rw [hclose]
        exact h
      · exact absurd ⟨hreach, hfail⟩ hstep
      · rw [hclose]
        intro hpending
        cases hpending

theorem usable_of_reachable {start l : Leaf} (hfresh : Fresh start) (h : (uninterrupted start).Reachable l) :
    Usable l := by
  refine System.Reachable.invariant ?_ ?_ h
  · rintro s rfl
    exact fun _ => hfresh.dir
  · rintro s s' hs ⟨step, hstep, rfl⟩
    exact hs.step hstep

theorem reachesRemoval_of_succeed {l : Leaf} {c : Calls} (hsucceed : c.Succeed) (hpending : l.done = false)
    (hdir : l.dir = .open) (hentry : l.entry = some l.id) : reachesRemoval l c = true := by
  obtain ⟨text, hmem, hzero⟩ := hsucceed.events
  have hempty : (c.events.any fun reading => reading.any eventsPopulatedZero) = true :=
    List.any_eq_true.2 ⟨some text, hmem, hzero⟩
  simp [reachesRemoval, writeKill, waitEmpty, sameEntry, hpending, hdir, hentry, hempty, hsucceed.openKill,
    hsucceed.writeKill, hsucceed.closeKill, hsucceed.openEntry, hsucceed.statEntry]

theorem Kept.retries {start l : Leaf} (hkept : Kept start l) (husable : Usable l) : Retries start l := by
  refine ⟨fun hpending hentry c hsucceed => ?_, hkept.pending, fun hdone => ⟨hkept.lowered hdone, fun c => ?_⟩, hkept.own⟩
  · rw [← hkept.id] at hentry
    have hreach := reachesRemoval_of_succeed hsucceed hpending (husable hpending) hentry
    rcases close_cases l c with ⟨hdone, -⟩ | ⟨-, hnot, -⟩ | ⟨-, -, hfail, -⟩ | ⟨-, -, -, -, hclose⟩
    · rw [hpending] at hdone
      cases hdone
    · rw [hreach] at hnot
      cases hnot
    · rcases hfail with hfail | hfail
      · rw [hsucceed.unlink] at hfail
        cases hfail
      · rw [hsucceed.closeDir] at hfail
        cases hfail
    · rw [hclose, hsucceed.unlink]
      refine ⟨rfl, rfl, ?_, rfl, ?_⟩
      · show l.entry.toList ++ l.removed = start.id :: l.removed
        rw [hentry, hkept.id]
        rfl
      · show (if l.managed then l.leaves - 1 else l.leaves) = start.leaves - 1
        rw [if_pos hkept.managed, hkept.pending hpending]
  · rcases close_cases l c with ⟨-, hclose⟩ | ⟨hpending, -⟩ | ⟨hpending, -⟩ | ⟨hpending, -⟩
    · exact hclose
    · rw [hdone] at hpending
      cases hpending
    · rw [hdone] at hpending
      cases hpending
    · rw [hdone] at hpending
      cases hpending

-- Without its file a leaf that is not done stays so for ever.
structure Stuck (l : Leaf) : Prop where
  pending : l.done = false
  dir : l.dir = .closed

theorem Stuck.close {l : Leaf} (h : Stuck l) (c : Calls) : l.close c = (l, false) := by
  have hnot : reachesRemoval l c = false := by
    simp [reachesRemoval, writeKill, h.dir]
  rcases close_cases l c with ⟨hdone, -⟩ | ⟨-, -, hclose⟩ | ⟨-, hreach, -⟩ | ⟨-, hreach, -⟩
  · rw [h.pending] at hdone
    cases hdone
  · exact hclose
  · rw [hnot] at hreach
    cases hreach
  · rw [hnot] at hreach
    cases hreach

theorem Stuck.after {l : Leaf} (h : Stuck l) (steps : List Step) : Stuck (l.after steps) ∧ (l.after steps).leaves = l.leaves := by
  induction steps generalizing l with
  | nil => exact ⟨h, rfl⟩
  | cons step steps ih =>
      have hstep : Stuck (l.step step) ∧ (l.step step).leaves = l.leaves := by
        cases step with
        | rebind entry => exact ⟨⟨h.pending, h.dir⟩, rfl⟩
        | close c =>
            rw [Leaf.step, h.close c]
            exact ⟨h, rfl⟩
      obtain ⟨hstuck, hleaves⟩ := ih hstep.1
      exact ⟨hstuck, hleaves.trans hstep.2⟩

theorem stuck_of_interrupted {l : Leaf} {c : Calls} (h : l.Interrupted (.close c)) :
    Stuck (l.close c).1 ∧ (l.close c).1.leaves = l.leaves := by
  obtain ⟨hreach, hfail⟩ := h
  rcases close_cases l c with ⟨hdone, -⟩ | ⟨-, hnot, -⟩ | ⟨hpending, -, -, hclose⟩ | ⟨-, -, hunlink, hdir, -⟩
  · simp [reachesRemoval, hdone] at hreach
  · rw [hreach] at hnot
    cases hnot
  · rw [hclose]
    refine ⟨⟨(unlinkEntry_done l c.unlink).trans hpending, rfl⟩, ?_⟩
    cases c.unlink <;> rfl
  · rcases hfail with hfail | hfail
    · exact absurd hfail hunlink
    · rw [hdir] at hfail
      cases hfail

-- In every run in which no removal is interrupted a leaf can be closed again until it is done; after one that is
-- interrupted every `Close` fails and the count stays.
theorem leaf_close_retries (start : Leaf) (hfresh : Fresh start) :
    (∀ l, (uninterrupted start).Reachable l → Retries start l) ∧
      ∀ l, (runs start).Reachable l → (∀ directory ∈ l.removed, directory = start.id) ∧
        ∀ c, l.Interrupted (.close c) → ∀ steps c',
          (((l.close c).1.after steps).close c').2 = false ∧ ((l.close c).1.after steps).leaves = start.leaves := by
  constructor
  · intro l hreach
    have hnext (s s' : Leaf) (h : (uninterrupted start).next s s') : (runs start).next s s' := by
      obtain ⟨step, -, hstep⟩ := h
      exact ⟨step, hstep⟩
    have hinitial (s : Leaf) (h : (uninterrupted start).initial s) : (runs start).initial s := h
    have hruns : (runs start).Reachable l := hreach.mono hinitial hnext
    exact (kept_of_reachable hfresh hruns).retries (usable_of_reachable hfresh hreach)
  · intro l hreach
    have hkept := kept_of_reachable hfresh hreach
    refine ⟨hkept.own, fun c hinterrupted steps c' => ?_⟩
    obtain ⟨hstuck, hleaves⟩ := stuck_of_interrupted hinterrupted
    obtain ⟨hlater, hcount⟩ := hstuck.after steps
    have hpending : l.done = false := by
      have := hinterrupted.1
      simp only [reachesRemoval, Bool.and_eq_true, Bool.not_eq_true'] at this
      exact this.1.1.1
    refine ⟨?_, hcount.trans (hleaves.trans (hkept.pending hpending))⟩
    rw [hlater.close c']

def freshLeaf : Leaf := ⟨⟨27, 4211⟩, .open, true, false, 2, some ⟨27, 4211⟩, []⟩

theorem fresh_freshLeaf : Fresh freshLeaf := ⟨rfl, rfl, rfl, by decide, rfl, rfl⟩

def goodCalls : Calls := ⟨true, true, true, [some "populated 0\nfrozen 0\n".toList], true, true, .removed, true⟩

-- The kill fails once; the next `Close` removes the leaf.
theorem leaf_close_retries_afterKill :
    ((freshLeaf.step (.close { goodCalls with writeKill := false })).close goodCalls).2 = true := by
  have hreach : (uninterrupted freshLeaf).Reachable (freshLeaf.step (.close { goodCalls with writeKill := false })) := by
    refine .step (.of_initial rfl) ⟨.close { goodCalls with writeKill := false }, ?_, rfl⟩
    rintro ⟨hreach, -⟩
    exact absurd hreach (by decide)
  have hretries := (leaf_close_retries freshLeaf fresh_freshLeaf).1 _ hreach
  refine (hretries.retry (by decide) (by decide) goodCalls ?_).1
  exact ⟨rfl, rfl, rfl, ⟨_, List.mem_singleton_self _, by decide⟩, rfl, rfl, rfl, rfl⟩

-- The directory is busy when it is to be removed: the next `Close` has no file to kill with, and fails.
theorem busy_leaf_stuck :
    ¬ ∀ (start l : Leaf), Fresh start → (runs start).Reachable l → Retries start l := by
  intro hall
  have hretries := hall freshLeaf (freshLeaf.step (.close { goodCalls with unlink := .failed })) fresh_freshLeaf
    (.step (.of_initial rfl) ⟨_, rfl⟩)
  have hsucceed : goodCalls.Succeed :=
    ⟨rfl, rfl, rfl, ⟨_, List.mem_singleton_self _, by decide⟩, rfl, rfl, rfl, rfl⟩
  have hclosed := (hretries.retry (by decide) (by decide) goodCalls hsucceed).1
  exact absurd hclosed (by decide)

end AutoDeploy.Contain
