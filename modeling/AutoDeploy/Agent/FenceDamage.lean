import AutoDeploy.Agent.FenceStore
import AutoDeploy.Lib.Runs

namespace AutoDeploy.Agent

open Function Lib Store

-- The state directory, the fence last written for each environment, and the environments a save has returned for.
structure StoreRun where
  dir : FenceDirectory
  written : String → Option Fence
  returned : List String

-- A file is lost, or holds something else. The writes of a save may end early, also by a crash.
inductive Event
  | save (first second : Outcome) (f : Fence)
  | lose (name : FileName)
  | corrupt (name : FileName) (file : File)

def StoreRun.save (first second : Outcome) (s : StoreRun) (f : Fence) : StoreRun where
  dir := (Agent.save first second s.dir f).1
  written := if f.valid && first.renames then update s.written f.environmentID (some f) else s.written
  returned :=
    match (Agent.save first second s.dir f).2 with
    | .ok () => f.environmentID :: s.returned
    | .error _ => s.returned

def StoreRun.apply (s : StoreRun) : Event → StoreRun
  | .save first second f => s.save first second f
  | .lose name => { s with dir := s.dir.erase name }
  | .corrupt name file => { s with dir := s.dir.put name file }

def Emptied (dir : FenceDirectory) : Prop := dir.get? indexFileName = none ∧ hasAnyFenceFile dir = false

-- Damage never empties the directory, and only a file that is there can be corrupted.
def Event.Possible (s : StoreRun) : Event → Prop
  | .save _ _ _ => True
  | .lose name => ¬ Emptied (s.dir.erase name)
  | .corrupt name _ => (s.dir.get? name).isSome = true

def storeSystem : System StoreRun where
  initial s := s.returned = []
  next s s' := ∃ event : Event, event.Possible s ∧ s' = s.apply event

-- What the store answers for every environment it has saved: an error, or the fence last written.
def Remembered (s : StoreRun) : Prop :=
  ∀ id ∈ s.returned, (∃ e, load s.dir id = .error e) ∨ ∃ f, s.written id = some f ∧ load s.dir id = .ok (f, true)

-- The index of two environments and the file of one are lost; the next save of the other starts a new index.
def sampleStoreStart : StoreRun := ⟨.empty, fun _ => none, []⟩

def sampleStored : StoreRun :=
  (sampleStoreStart.save .done .done ⟨"a", 5, false⟩).save .done .done ⟨"b", 1, false⟩

def sampleForgotten : StoreRun :=
  ((sampleStored.apply (.lose indexFileName)).apply (.lose (fenceFile "a"))).save .done .done ⟨"b", 2, false⟩

theorem lost_fence_read_as_first_encounter :
    storeSystem.Reachable sampleForgotten ∧ "a" ∈ sampleForgotten.returned ∧
      load sampleForgotten.dir "a" = .ok (⟨"a", 0, false⟩, false) := by
  have hpossible : hasAnyFenceFile (sampleStored.dir.erase indexFileName) = true ∧
      hasAnyFenceFile ((sampleStored.dir.erase indexFileName).erase (fenceFile "a")) = true := by
    decide +kernel
  have hanswer : "a" ∈ sampleForgotten.returned ∧
      (load sampleForgotten.dir "a").toOption = some (⟨"a", 0, false⟩, false) := by
    decide +kernel
  have hstart : storeSystem.Reachable sampleStoreStart := .of_initial rfl
  have hfirst := hstart.step ⟨.save .done .done ⟨"a", 5, false⟩, trivial, rfl⟩
  have hstored := hfirst.step ⟨.save .done .done ⟨"b", 1, false⟩, trivial, rfl⟩
  have hindex := hstored.step ⟨.lose indexFileName, fun h => absurd (hpossible.1.symm.trans h.2) (by decide), rfl⟩
  have hfile := hindex.step ⟨.lose (fenceFile "a"), fun h => absurd (hpossible.2.symm.trans h.2) (by decide), rfl⟩
  refine ⟨hfile.step ⟨.save .done .done ⟨"b", 2, false⟩, trivial, rfl⟩, hanswer.1, ?_⟩
  cases hload : load sampleForgotten.dir "a" with
  | error e =>
      rw [hload] at hanswer
      cases hanswer.2
  | ok r =>
      rw [hload] at hanswer
      rw [show r = _ from Option.some.inj hanswer.2]

-- A save that starts a new index finds the files of the other environments in place, a file is only lost while the
-- index, if it can be trusted, lists its environment, and nothing corrupt passes for an index or a fence that differs.
def Event.Harmless (s : StoreRun) : Event → Prop
  | .save _ _ f => loadIndex s.dir = none →
      ∀ id ∈ s.returned, id ≠ f.environmentID → (s.dir.get? (fenceFile id)).isSome = true
  | .lose name => ∀ id ∈ s.returned, name = fenceFile id → ∀ listed, loadIndex s.dir = some listed → id ∈ listed
  | .corrupt name file =>
      (name = indexFileName → ∀ c environments, file = .contents c → c.asIndex = some environments →
        (∀ id ∈ environments, validOpaqueID id = true) →
        ∀ id ∈ s.returned, s.dir.get? (fenceFile id) = none → id ∈ environments) ∧
      ∀ id ∈ s.returned, name = fenceFile id → ∀ c f, file = .contents c → c.asFence = some f →
        f.valid = true → f.environmentID = id → s.written id = some f

def guardedStore : System StoreRun where
  initial s := s.returned = []
  next s s' := ∃ event : Event, event.Possible s ∧ event.Harmless s ∧ s' = s.apply event

section

variable {s s' : StoreRun} {dir dir' : FenceDirectory} {f : Fence} {first second : Outcome} {name : FileName}
  {file : File}

-- Every environment saved is listed by an index that can be trusted or has its file, and the file tells what was
-- last written or cannot be read.
structure Guarded (s : StoreRun) : Prop where
  present : ∀ id ∈ s.returned, ∀ listed, loadIndex s.dir = some listed →
    id ∈ listed ∨ (s.dir.get? (fenceFile id)).isSome = true
  faithful : ∀ id ∈ s.returned, ∀ c f, s.dir.get? (fenceFile id) = some (.contents c) → c.asFence = some f →
    f.valid = true → f.environmentID = id → s.written id = some f

theorem Guarded.remembered (h : Guarded s) : Remembered s := by
  intro id hid
  cases hload : load s.dir id with
  | error e => exact .inl ⟨e, rfl⟩
  | ok r =>
      obtain ⟨stored, existed⟩ := r
      right
      obtain ⟨listed, hindex, ⟨-, -, hnone, hunlisted⟩ | ⟨rfl, hvalid, hsame, c, hfile, hf⟩⟩ := load_eq_ok hload
      · rcases h.present id hid listed hindex with hlisted | hpresent
        · exact absurd hlisted hunlisted
        · rw [hnone] at hpresent
          cases hpresent
      · exact ⟨stored, h.faithful id hid c stored hfile hf hvalid hsame, rfl⟩

theorem mem_returned_save {id : String} (h : id ∈ (s.save first second f).returned) (hne : id ≠ f.environmentID) :
    id ∈ s.returned := by
  unfold StoreRun.save at h
  simp only at h
  split at h
  · exact (List.mem_cons.1 h).resolve_left hne
  · exact h

-- The index a save leaves, when it can be trusted, lists every environment but those whose files are in place.
theorem saved_index_present {id : String} {listed : List String} (h : Guarded s)
    (hharmless : Event.Harmless s (.save first second f)) (hid : id ∈ s.returned) (hother : id ≠ f.environmentID)
    (hwrites : WritesFence s.dir dir f)
    (hafter : SameFiles dir dir' ∨ WritesIndex dir dir' (f.environmentID :: (loadIndex dir).getD []))
    (hindex : loadIndex dir' = some listed) : id ∈ listed ∨ (s.dir.get? (fenceFile id)).isSome = true := by
  rcases hafter with hsame | hindexed
  · rw [hsame.loadIndex_eq] at hindex
    rcases hwrites.loadIndex_cases with ⟨-, hkept⟩ | ⟨-, hnone⟩
    · exact h.present id hid listed (hkept ▸ hindex)
    · rw [hnone] at hindex
      cases hindex
  · obtain ⟨listed', hindex', hmem⟩ := hindexed.index
    obtain rfl : listed' = listed := Option.some.inj (hindex'.symm.trans hindex)
    rw [hmem, List.mem_cons]
    cases hbefore : loadIndex s.dir with
    | none => exact .inr (hharmless hbefore id hid hother)
    | some old =>
        rcases h.present id hid old hbefore with hlisted | hpresent
        · rcases hwrites.loadIndex_cases with ⟨-, hkept⟩ | ⟨hmissing, -⟩
          · rw [hkept, hbefore]
            exact .inl (.inr hlisted)
          · obtain ⟨rfl, -⟩ := get?_fenceFile_of_fresh id hmissing hbefore
            cases hlisted
        · exact .inr hpresent

theorem Guarded.save (h : Guarded s)
    (hharmless : Event.Harmless s (.save first second f)) : Guarded (s.save first second f) := by
  rcases save_cases first second s.dir f with ⟨hsame, hfailed, hnot⟩ | ⟨hvalid, hrenames, dir₁, hwrites, hafter⟩
  · have hreturned : (s.save first second f).returned = s.returned := by
      unfold StoreRun.save
      simp only
      split
      · rename_i hok
        exact absurd hok hfailed
      · rfl
    have hwritten : (s.save first second f).written = s.written := by
      unfold StoreRun.save
      simp only [Bool.and_eq_true, hnot, if_false]
    refine ⟨fun id hid listed hindex => ?_, fun id hid c g hfile hg hvalid henv => ?_⟩
    · rw [hreturned] at hid
      have hindex : loadIndex (Agent.save first second s.dir f).1 = some listed := hindex
      show _ ∨ ((Agent.save first second s.dir f).1.get? (fenceFile id)).isSome = true
      rw [hsame.fences _ isFenceFile_fenceFile]
      rw [hsame.loadIndex_eq] at hindex
      exact h.present id hid listed hindex
    · rw [hreturned] at hid
      rw [hwritten]
      refine h.faithful id hid c g ?_ hg hvalid henv
      rw [← hsame.fences _ isFenceFile_fenceFile]
      exact hfile
  · have hfences : ∀ id, (Agent.save first second s.dir f).1.get? (fenceFile id) = dir₁.get? (fenceFile id) := by
      intro id
      rcases hafter with ⟨hsame, -⟩ | ⟨-, hindexed⟩
      · exact hsame.fences _ isFenceFile_fenceFile
      · exact hindexed.fences _ isFenceFile_fenceFile
    have hwritten : (s.save first second f).written = update s.written f.environmentID (some f) := by
      unfold StoreRun.save
      simp only [hvalid, hrenames, Bool.and_self, if_true]
    refine ⟨fun id hid listed hindex => ?_, fun id hid c g hfile hg hgvalid henv => ?_⟩
    · show _ ∨ ((Agent.save first second s.dir f).1.get? (fenceFile id)).isSome = true
      rw [hfences]
      by_cases hother : id = f.environmentID
      · rw [hother, hwrites.get?_self]
        exact .inr rfl
      · rw [hwrites.get?_other hother]
        exact saved_index_present h hharmless (mem_returned_save hid hother) hother hwrites
          (hafter.imp And.left And.right) hindex
    · rw [hwritten]
      have hfile : (Agent.save first second s.dir f).1.get? (fenceFile id) = some (.contents c) := hfile
      rw [hfences] at hfile
      by_cases hother : id = f.environmentID
      · rw [hother, hwrites.get?_self] at hfile
        cases hfile
        cases hg
        rw [hother, update_self]
      · rw [hwrites.get?_other hother] at hfile
        rw [update_of_ne hother]
        exact h.faithful id (mem_returned_save hid hother) c g hfile hg hgvalid henv

-- Where the index itself is untouched, one that can be trusted could be trusted before.
theorem loadIndex_before {listed : List String} (hsame : dir'.get? indexFileName = dir.get? indexFileName)
    (hany : dir.get? indexFileName = none → hasAnyFenceFile dir = true → hasAnyFenceFile dir' = true)
    (hindex : loadIndex dir' = some listed) : loadIndex dir = some listed := by
  unfold loadIndex at hindex ⊢
  rw [hsame] at hindex
  cases hfile : dir.get? indexFileName with
  | none =>
      rw [hfile] at hindex
      by_cases hbefore : hasAnyFenceFile dir = true
      · simp [hany hfile hbefore] at hindex
      · by_cases hafter : hasAnyFenceFile dir' = true
        · simp [hafter] at hindex
        · simpa [hbefore, hafter] using hindex
  | some file =>
      rw [hfile] at hindex
      cases file with
      | unreadable => exact hindex
      | contents c => exact hindex

theorem Guarded.lose (h : Guarded s) (hpossible : Event.Possible s (.lose name))
    (hharmless : Event.Harmless s (.lose name)) : Guarded (s.apply (.lose name)) := by
  have hget : ∀ x, (s.dir.erase name).get? x = if x = name then none else s.dir.get? x := s.dir.get?_erase name
  refine ⟨fun id hid listed hindex => ?_, fun id hid c f hfile => ?_⟩
  · have hindex : loadIndex (s.dir.erase name) = some listed := hindex
    -- an index that can be trusted after the loss is the one from before it
    have hany : (s.dir.erase name).get? indexFileName = none → hasAnyFenceFile (s.dir.erase name) = true := by
      intro hmissing
      by_contra hnone
      exact hpossible ⟨hmissing, by simpa using hnone⟩
    have hkept : loadIndex s.dir = some listed := by
      by_cases hname : indexFileName = name
      · have hmissing := (hget indexFileName).trans (if_pos hname)
        unfold loadIndex at hindex
        rw [hmissing] at hindex
        simp [hany hmissing] at hindex
      · have hsame := (hget indexFileName).trans (if_neg hname)
        exact loadIndex_before hsame (fun hmissing _ => hany (hsame.trans hmissing)) hindex
    by_cases hname : fenceFile id = name
    · exact .inl (hharmless id hid hname.symm listed hkept)
    · show _ ∨ ((s.dir.erase name).get? (fenceFile id)).isSome = true
      rw [hget, if_neg hname]
      exact h.present id hid listed hkept
  · have hfile : (s.dir.erase name).get? (fenceFile id) = some (.contents c) := hfile
    rw [hget] at hfile
    split at hfile
    · cases hfile
    · exact h.faithful id hid c f hfile

theorem Guarded.corrupt (h : Guarded s) (hharmless : Event.Harmless s (.corrupt name file)) :
    Guarded (s.apply (.corrupt name file)) := by
  have hget : ∀ x, (s.dir.put name file).get? x = if x = name then some file else s.dir.get? x := fun x =>
    s.dir.get?_put name x file
  refine ⟨fun id hid listed hindex => ?_, fun id hid c f hfile hf hvalid henv => ?_⟩
  · have hindex : loadIndex (s.dir.put name file) = some listed := hindex
    show _ ∨ ((s.dir.put name file).get? (fenceFile id)).isSome = true
    by_cases hname : indexFileName = name
    · subst hname
      rw [hget, if_neg fenceFile_ne_index]
      cases hfile : s.dir.get? (fenceFile id) with
      | some _ => exact .inr rfl
      | none =>
          left
          unfold loadIndex at hindex
          rw [hget, if_pos rfl] at hindex
          cases file with
          | unreadable => cases hindex
          | contents c =>
              simp only at hindex
              split at hindex
              · cases hindex
              · rename_i environments hread
                split at hindex
                · rename_i hall
                  cases hindex
                  exact List.mem_dedup.2 (hharmless.1 rfl c environments rfl hread (List.all_eq_true.1 hall) id hid hfile)
                · cases hindex
    · by_cases hfence : fenceFile id = name
      · rw [hget, if_pos hfence]
        exact .inr rfl
      · rw [hget, if_neg hfence]
        have hsame := (hget indexFileName).trans (if_neg hname)
        refine h.present id hid listed (loadIndex_before hsame (fun _ hany => ?_) hindex)
        obtain ⟨x, hx, hsome⟩ := hasAnyFenceFile_iff.1 hany
        refine hasAnyFenceFile_iff.2 ⟨x, hx, ?_⟩
        rw [hget]
        split
        · rfl
        · exact hsome
  · have hfile : (s.dir.put name file).get? (fenceFile id) = some (.contents c) := hfile
    rw [hget] at hfile
    split at hfile
    · rename_i hname
      cases hfile
      exact hharmless.2 id hid hname.symm c f rfl hf hvalid henv
    · exact h.faithful id hid c f hfile hf hvalid henv

theorem Guarded.apply {event : Event} (h : Guarded s) (hpossible : event.Possible s) (hharmless : event.Harmless s) :
    Guarded (s.apply event) := by
  cases event with
  | save first second f => exact h.save hharmless
  | lose name => exact h.lose hpossible hharmless
  | corrupt name file => exact h.corrupt hharmless

-- Whatever is saved, lost or corrupted: an environment once saved is never taken for one the agent has not been in.
theorem saved_fences_remembered (h : guardedStore.Reachable s) : Remembered s := by
  have hguarded : Guarded s := by
    refine h.invariant (P := Guarded) ?_ ?_
    · intro s hinit
      have hinit : s.returned = [] := hinit
      exact ⟨by simp [hinit], by simp [hinit]⟩
    · rintro s s' h ⟨event, hpossible, hharmless, rfl⟩
      exact h.apply hpossible hharmless
  exact hguarded.remembered

-- Only the file is lost: the index still lists it.
def sampleLost : StoreRun := (sampleStored.apply (.lose (fenceFile "a"))).save .done .done ⟨"b", 2, false⟩

theorem saved_fences_remembered_lost :
    Remembered sampleLost ∧ sampleLost.returned = ["b", "b", "a"] ∧ (load sampleLost.dir "a").toOption = none ∧
      (load sampleLost.dir "b").toOption = some (⟨"b", 2, false⟩, true) := by
  have hpossible : hasAnyFenceFile (sampleStored.dir.erase (fenceFile "a")) = true ∧
      loadIndex (sampleStoreStart.save .done .done ⟨"a", 5, false⟩).dir = some ["a"] ∧
      loadIndex sampleStored.dir = some ["a", "b"] ∧
      loadIndex (sampleStored.dir.erase (fenceFile "a")) = some ["a", "b"] := by
    decide +kernel
  have hanswer : sampleLost.returned = ["b", "b", "a"] ∧
      (load sampleLost.dir "a").toOption = none ∧
      (load sampleLost.dir "b").toOption = some (⟨"b", 2, false⟩, true) := by
    decide +kernel
  obtain ⟨herased, hone, htwo, hafter⟩ := hpossible
  have hstart : guardedStore.Reachable sampleStoreStart := .of_initial rfl
  have hfirst := hstart.step ⟨.save .done .done ⟨"a", 5, false⟩, trivial, fun _ id hid => (by cases hid), rfl⟩
  have hstored := hfirst.step ⟨.save .done .done ⟨"b", 1, false⟩, trivial,
    fun hnone => absurd (hnone.symm.trans hone) (by decide), rfl⟩
  have hlisted : ∀ id ∈ sampleStored.returned, ∀ listed, loadIndex sampleStored.dir = some listed → id ∈ listed := by
    intro id hid listed hindex
    rw [← Option.some.inj (htwo.symm.trans hindex)]
    have hreturned : sampleStored.returned = ["b", "a"] := by decide +kernel
    rw [hreturned] at hid
    simpa [or_comm] using hid
  have hlost := hstored.step ⟨.lose (fenceFile "a"), fun h => absurd (herased.symm.trans h.2) (by decide),
    fun id hid _ => hlisted id hid, rfl⟩
  have hsaved := hlost.step ⟨.save .done .done ⟨"b", 2, false⟩, trivial,
    fun hnone => absurd (hnone.symm.trans hafter) (by decide), rfl⟩
  exact ⟨saved_fences_remembered hsaved, hanswer⟩

end

end AutoDeploy.Agent
