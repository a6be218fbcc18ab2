import AutoDeploy.Lib.Files
import AutoDeploy.Store.Access
import Mathlib.Data.List.Dedup
import Mathlib.Data.List.Sort

namespace AutoDeploy.Agent

open Lib Store

structure Fence where
  environmentID : String
  highestAcceptedFence : Int64
  reconciliationRequired : Bool
deriving DecidableEq, Repr

def Fence.valid (f : Fence) : Bool := validOpaqueID f.environmentID && decide (0 ≤ f.highestAcceptedFence)

-- A file's bytes, by what `json.Unmarshal` makes of them: as a fence and as an index.
structure Contents where
  asFence : Option Fence
  asIndex : Option (List String)
deriving DecidableEq, Repr

def marshalFence (f : Fence) : Contents := ⟨some f, some []⟩

def marshalIndex (environments : List String) : Contents := ⟨some ⟨"", 0, false⟩, some environments⟩

inductive File
  | contents (c : Contents)
  | unreadable
deriving DecidableEq, Repr

abbrev FenceDirectory := Directory File

def indexFileName : FileName := Bytes.ofString ".fence-index.json"

def fenceSuffix : FileName := Bytes.ofString ".json"

def hexByte (n : Nat) : UInt8 := UInt8.ofNat (if n < 10 then 48 + n else 87 + n)

def safeByte (c : UInt8) : Bool :=
  (97 ≤ c && c ≤ 122) || (65 ≤ c && c ≤ 90) || (48 ≤ c && c ≤ 57) || c == 45 || c == 95

def encodeByte (c : UInt8) : FileName :=
  if safeByte c then [c] else [37, hexByte (c.toNat / 16), hexByte (c.toNat % 16)]

def encodeName (id : String) : FileName := (Bytes.ofString id).flatMap encodeByte

def fenceFile (environmentID : String) : FileName := encodeName environmentID ++ fenceSuffix

def path (environmentID : String) : Option FileName :=
  if validOpaqueID environmentID then some (fenceFile environmentID) else none

inductive LoadError
  | invalidEnvironment
  | corruptState
deriving DecidableEq, Repr

-- The names `*.json` matches, the index itself apart.
def isFenceFile (name : FileName) : Bool := fenceSuffix.isSuffixOf name && name != indexFileName

def hasAnyFenceFile (dir : FenceDirectory) : Bool := dir.any fun name _ => isFenceFile name

-- The environments the index lists, or nothing when no file of the directory may be trusted.
def loadIndex (dir : FenceDirectory) : Option (List String) :=
  match dir.get? indexFileName with
  | none => if hasAnyFenceFile dir then none else some []
  | some .unreadable => none
  | some (.contents c) =>
      match c.asIndex with
      | none => none
      | some environments => if environments.all validOpaqueID then some environments.dedup else none

def load (dir : FenceDirectory) (environmentID : String) : Except LoadError (Fence × Bool) :=
  match path environmentID with
  | none => .error .invalidEnvironment
  | some name =>
      match loadIndex dir with
      | none => .error .corruptState
      | some listed =>
          match dir.get? name with
          | none =>
              if environmentID ∈ listed then .error .corruptState else .ok (⟨environmentID, 0, false⟩, false)
          | some .unreadable => .error .corruptState
          | some (.contents c) =>
              if environmentID ∈ listed then
                match c.asFence with
                | none => .error .corruptState
                | some f =>
                    if f.valid && f.environmentID == environmentID then .ok (f, true) else .error .corruptState
              else .error .corruptState

def writeFileAtomic (o : Outcome) (dir : FenceDirectory) (name : FileName) (c : Contents) :
    FenceDirectory × Except Fault Unit :=
  Directory.write o dir ".fence-" name (.contents c) .unreadable

-- An index that cannot be trusted is replaced by one with this environment alone.
def addToIndex (o : Outcome) (dir : FenceDirectory) (environmentID : String) : FenceDirectory × Except Fault Unit :=
  let listed := (loadIndex dir).getD []
  if environmentID ∈ listed then (dir, .ok ())
  else
    writeFileAtomic o dir indexFileName
      (marshalIndex ((environmentID :: listed).insertionSort (· ≤ ·)))

-- The fence file first, then the index. The outcomes are those of the two writes.
def save (first second : Outcome) (dir : FenceDirectory) (f : Fence) : FenceDirectory × Except Fault Unit :=
  if f.valid then
    match writeFileAtomic first dir (fenceFile f.environmentID) (marshalFence f) with
    | (dir', .error fault) => (dir', .error fault)
    | (dir', .ok ()) => addToIndex second dir' f.environmentID
  else (dir, .error .error)

section

variable {dir dir' : FenceDirectory} {environmentID other : String} {f : Fence} {first second : Outcome}

theorem encodeByte_ne_nil (c : UInt8) : encodeByte c ≠ [] := by
  unfold encodeByte
  split
  · exact List.cons_ne_nil _ _
  · exact List.cons_ne_nil _ _

private def unhex (c : UInt8) : Nat := if c.toNat < 87 then c.toNat - 48 else c.toNat - 87

private theorem unhex_hexByte {n : Nat} (hn : n < 16) : unhex (hexByte n) = n := by
  interval_cases n <;> rfl

private theorem encodeByte_prefix (c d : UInt8) (x y : FileName) (h : encodeByte c ++ x = encodeByte d ++ y) : c = d := by
  have hpercent : safeByte 37 = false := rfl
  unfold encodeByte at h
  by_cases hc : safeByte c = true
  · by_cases hd : safeByte d = true
    · rw [if_pos hc, if_pos hd] at h
      exact (List.cons.inj h).1
    · rw [if_pos hc, if_neg hd] at h
      rw [(List.cons.inj h).1, hpercent] at hc
      cases hc
  · by_cases hd : safeByte d = true
    · rw [if_neg hc, if_pos hd] at h
      rw [← (List.cons.inj h).1, hpercent] at hd
      cases hd
    · rw [if_neg hc, if_neg hd] at h
      simp only [List.cons_append, List.cons.injEq] at h
      obtain ⟨-, hhigh, hlow, -⟩ := h
      have hc' := c.toNat_lt
      have hd' := d.toNat_lt
      have hhigh := congrArg unhex hhigh
      have hlow := congrArg unhex hlow
      rw [unhex_hexByte (by omega), unhex_hexByte (by omega)] at hhigh hlow
      refine UInt8.toNat_inj.1 ?_
      omega

theorem fenceFile_injective : Function.Injective fenceFile := fun _ _ h =>
  Bytes.ofString_injective (Bytes.flatMap_injective encodeByte_ne_nil encodeByte_prefix (List.append_cancel_right h))

-- The index has a name no environment's file can have.
theorem fenceFile_ne_index : fenceFile environmentID ≠ indexFileName := by
  intro h
  unfold fenceFile encodeName at h
  cases hid : Bytes.ofString environmentID with
  | nil =>
      rw [hid] at h
      exact absurd h (by decide)
  | cons c rest =>
      have hsafe : safeByte 46 = false := rfl
      have hindex : indexFileName = 46 :: indexFileName.tail := rfl
      rw [hid, hindex, List.flatMap_cons, encodeByte] at h
      by_cases hc : safeByte c = true
      · rw [if_pos hc] at h
        rw [(List.cons.inj h).1, hsafe] at hc
        cases hc
      · rw [if_neg hc] at h
        exact absurd (List.cons.inj h).1 (by decide)

theorem isFenceFile_fenceFile : isFenceFile (fenceFile environmentID) = true := by
  have hsuffix : fenceSuffix.isSuffixOf (fenceFile environmentID) = true :=
    List.isSuffixOf_iff_suffix.2 (List.suffix_append _ _)
  simp [isFenceFile, hsuffix, fenceFile_ne_index]

theorem index_not_temporary (n : Nat) : indexFileName ≠ Directory.temporaryName ".fence-" n :=
  Directory.temporaryName_ne (show fenceSuffix <:+ indexFileName by decide) (by decide) (by decide)

theorem fence_not_temporary {name : FileName} (h : isFenceFile name = true) (n : Nat) :
    name ≠ Directory.temporaryName ".fence-" n := by
  simp only [isFenceFile, Bool.and_eq_true] at h
  exact Directory.temporaryName_ne (List.isSuffixOf_iff_suffix.1 h.1) (by decide) (by decide)

theorem hasAnyFenceFile_iff :
    hasAnyFenceFile dir = true ↔ ∃ name, isFenceFile name = true ∧ (dir.get? name).isSome = true := by
  simp only [hasAnyFenceFile, Table.any_iff, Option.isSome_iff_exists]
  constructor
  · rintro ⟨name, file, hfile, hname⟩
    exact ⟨name, hname, file, hfile⟩
  · rintro ⟨name, hname, file, hfile⟩
    exact ⟨name, file, hfile, hname⟩

-- The index and the fence files, which are all the store ever reads, are those of the other directory.
structure SameFiles (dir dir' : FenceDirectory) : Prop where
  index : dir'.get? indexFileName = dir.get? indexFileName
  fences : ∀ name, isFenceFile name = true → dir'.get? name = dir.get? name

theorem SameFiles.loadIndex_eq (h : SameFiles dir dir') : loadIndex dir' = loadIndex dir := by
  have hany : hasAnyFenceFile dir' = hasAnyFenceFile dir := by
    rw [Bool.eq_iff_iff, hasAnyFenceFile_iff, hasAnyFenceFile_iff]
    refine exists_congr fun name => and_congr_right fun hname => ?_
    rw [h.fences name hname]
  unfold loadIndex
  rw [h.index, hany]

theorem SameFiles.load_eq (h : SameFiles dir dir') : load dir' environmentID = load dir environmentID := by
  unfold load path
  by_cases hvalid : validOpaqueID environmentID = true
  · simp only [if_pos hvalid, h.loadIndex_eq, h.fences _ isFenceFile_fenceFile]
  · simp only [if_neg hvalid]

-- What is read of one environment: the index, and its own file.
def readBack (listed : Option (List String)) (file : Option File) (environmentID : String) :
    Except LoadError (Fence × Bool) :=
  match listed, file with
  | none, _ => .error .corruptState
  | some listed, none =>
      if environmentID ∈ listed then .error .corruptState else .ok (⟨environmentID, 0, false⟩, false)
  | some _, some .unreadable => .error .corruptState
  | some listed, some (.contents c) =>
      if environmentID ∈ listed then
        match c.asFence with
        | none => .error .corruptState
        | some f => if f.valid && f.environmentID == environmentID then .ok (f, true) else .error .corruptState
      else .error .corruptState

theorem load_eq_readBack (hvalid : validOpaqueID environmentID = true) :
    load dir environmentID = readBack (loadIndex dir) (dir.get? (fenceFile environmentID)) environmentID := by
  unfold load path readBack
  simp only [hvalid, if_true]
  cases loadIndex dir with
  | none => rfl
  | some listed =>
      cases dir.get? (fenceFile environmentID) with
      | none => rfl
      | some file =>
          cases file with
          | unreadable => rfl
          | contents c => rfl

theorem load_eq_invalid (hinvalid : ¬ validOpaqueID environmentID = true) :
    load dir environmentID = .error .invalidEnvironment := by
  unfold load path
  rw [if_neg hinvalid]

-- What is read is a first encounter, or what the environment's listed file holds.
theorem load_eq_ok {stored : Fence} {existed : Bool} (h : load dir environmentID = .ok (stored, existed)) :
    ∃ listed, loadIndex dir = some listed ∧
      ((existed = false ∧ stored = ⟨environmentID, 0, false⟩ ∧ dir.get? (fenceFile environmentID) = none ∧
          environmentID ∉ listed) ∨
        (existed = true ∧ stored.valid = true ∧ stored.environmentID = environmentID ∧
          ∃ c, dir.get? (fenceFile environmentID) = some (.contents c) ∧ c.asFence = some stored)) := by
  by_cases hvalid : validOpaqueID environmentID = true
  swap
  · rw [load_eq_invalid hvalid] at h
    cases h
  rw [load_eq_readBack hvalid] at h
  unfold readBack at h
  split at h
  · cases h
  · rename_i listed hindex hfile
    split at h
    · cases h
    · rename_i hlisted
      cases h
      exact ⟨listed, hindex, .inl ⟨rfl, rfl, hfile, hlisted⟩⟩
  · cases h
  · rename_i listed c hindex hfile
    split at h
    · split at h
      · cases h
      · rename_i f hf
        split at h
        · rename_i hchecked
          cases h
          obtain ⟨hvalid, hsame⟩ := Bool.and_eq_true_iff.1 hchecked
          exact ⟨listed, hindex, .inr ⟨rfl, hvalid, beq_iff_eq.1 hsame, c, hfile, hf⟩⟩
        · cases h
    · cases h

theorem loadIndex_valid {listed : List String} (h : loadIndex dir = some listed) :
    ∀ id ∈ listed, validOpaqueID id = true := by
  unfold loadIndex at h
  split at h
  · split at h
    · cases h
    · cases h
      simp
  · cases h
  · split at h
    · cases h
    · split at h
      · rename_i hall
        cases h
        intro id hid
        exact List.all_eq_true.1 hall id (List.mem_dedup.1 hid)
      · cases h

theorem getD_loadIndex_valid (dir : FenceDirectory) : ∀ id ∈ (loadIndex dir).getD [], validOpaqueID id = true := by
  cases hindex : loadIndex dir with
  | none => simp
  | some listed => exact loadIndex_valid hindex

-- The fence file is in place, everything else is as it was.
structure WritesFence (dir dir' : FenceDirectory) (f : Fence) : Prop where
  index : dir'.get? indexFileName = dir.get? indexFileName
  fences : ∀ name, isFenceFile name = true →
    dir'.get? name = if name = fenceFile f.environmentID then some (.contents (marshalFence f)) else dir.get? name

-- The index lists these environments, and the fence files are as they were.
structure WritesIndex (dir dir' : FenceDirectory) (environments : List String) : Prop where
  index : ∃ listed, loadIndex dir' = some listed ∧ ∀ id, id ∈ listed ↔ id ∈ environments
  fences : ∀ name, isFenceFile name = true → dir'.get? name = dir.get? name

theorem writeFence_eq (o : Outcome) (dir : FenceDirectory) (f : Fence) :
    if o.renames then WritesFence dir (writeFileAtomic o dir (fenceFile f.environmentID) (marshalFence f)).1 f
    else SameFiles dir (writeFileAtomic o dir (fenceFile f.environmentID) (marshalFence f)).1 := by
  have hindex := Directory.get?_write o dir ".fence-" (fenceFile f.environmentID) (.contents (marshalFence f))
    .unreadable index_not_temporary
  have hfences : ∀ name, isFenceFile name = true → _ = _ := fun name hname => Directory.get?_write o dir ".fence-"
    (fenceFile f.environmentID) (.contents (marshalFence f)) .unreadable (fence_not_temporary hname)
  rw [if_neg fun h => fenceFile_ne_index h.1.symm] at hindex
  split
  · rename_i hrenames
    exact ⟨hindex, fun name hname => (hfences name hname).trans (by simp [hrenames])⟩
  · rename_i hrenames
    exact ⟨hindex, fun name hname => (hfences name hname).trans (by simp [hrenames])⟩

theorem writeIndex_eq (o : Outcome) (dir : FenceDirectory) {environments : List String}
    (hvalid : ∀ id ∈ environments, validOpaqueID id = true) :
    if o.renames then WritesIndex dir (writeFileAtomic o dir indexFileName (marshalIndex environments)).1 environments
    else SameFiles dir (writeFileAtomic o dir indexFileName (marshalIndex environments)).1 := by
  have hindex := Directory.get?_write o dir ".fence-" indexFileName (.contents (marshalIndex environments))
    .unreadable index_not_temporary
  have hfences : ∀ name, isFenceFile name = true → _ = _ := fun name hname => Directory.get?_write o dir ".fence-"
    indexFileName (.contents (marshalIndex environments)) .unreadable (fence_not_temporary hname)
  have hother : ∀ name, isFenceFile name = true → name ≠ indexFileName := by
    rintro name hname rfl
    exact absurd hname (by decide)
  split
  · rename_i hrenames
    rw [if_pos ⟨rfl, hrenames⟩] at hindex
    refine ⟨⟨environments.dedup, ?_, fun id => List.mem_dedup⟩, fun name hname => ?_⟩
    · have hall : environments.all validOpaqueID = true := List.all_eq_true.2 hvalid
      unfold loadIndex writeFileAtomic
      rw [hindex]
      simp only [marshalIndex, hall, if_true]
    · exact (hfences name hname).trans (if_neg fun h => hother name hname h.1)
  · rename_i hrenames
    rw [if_neg fun h => hrenames h.2] at hindex
    exact ⟨hindex, fun name hname => (hfences name hname).trans (if_neg fun h => hrenames h.2)⟩

theorem SameFiles.refl (dir : FenceDirectory) : SameFiles dir dir := ⟨rfl, fun _ _ => rfl⟩

theorem addToIndex_cases (o : Outcome) (dir : FenceDirectory) (hvalid : validOpaqueID environmentID = true) :
    (SameFiles dir (addToIndex o dir environmentID).1 ∧
        ((addToIndex o dir environmentID).2 = .ok () → environmentID ∈ (loadIndex dir).getD [])) ∨
      WritesIndex dir (addToIndex o dir environmentID).1 (environmentID :: (loadIndex dir).getD []) := by
  unfold addToIndex
  by_cases hlisted : environmentID ∈ (loadIndex dir).getD []
  · simp only [hlisted, if_true]
    exact .inl ⟨.refl _, fun _ => trivial⟩
  · simp only [hlisted, if_false]
    have hids : ∀ id ∈ (environmentID :: (loadIndex dir).getD []).insertionSort (· ≤ ·),
        validOpaqueID id = true := by
      intro id hid
      rcases List.mem_cons.1 ((List.mem_insertionSort _).1 hid) with rfl | hold
      · exact hvalid
      · exact getD_loadIndex_valid dir id hold
    have hwrite := writeIndex_eq o dir hids
    by_cases hrenames : o.renames = true
    · rw [if_pos hrenames] at hwrite
      obtain ⟨listed, hindex, hmem⟩ := hwrite.index
      exact .inr ⟨⟨listed, hindex, fun id => (hmem id).trans (List.mem_insertionSort _)⟩, hwrite.fences⟩
    · rw [if_neg hrenames] at hwrite
      refine .inl ⟨hwrite, fun hok => ?_⟩
      cases o with
      | done => exact absurd rfl hrenames
      | stopped fault renamed temporary => cases hok

-- Everything a save can do, whatever happens to its two writes.
theorem save_cases (first second : Outcome) (dir : FenceDirectory) (f : Fence) :
    (SameFiles dir (save first second dir f).1 ∧ (save first second dir f).2 ≠ .ok () ∧
        ¬ (f.valid = true ∧ first.renames = true)) ∨
      (f.valid = true ∧ first.renames = true ∧ ∃ dir₁, WritesFence dir dir₁ f ∧
        ((SameFiles dir₁ (save first second dir f).1 ∧
            ((save first second dir f).2 = .ok () → f.environmentID ∈ (loadIndex dir₁).getD [])) ∨
          (first = .done ∧
            WritesIndex dir₁ (save first second dir f).1 (f.environmentID :: (loadIndex dir₁).getD [])))) := by
  by_cases hvalid : f.valid = true
  · have hfirst := writeFence_eq first dir f
    unfold save
    rw [if_pos hvalid]
    cases first with
    | stopped fault renamed temporary =>
        cases renamed with
        | false => exact .inl ⟨hfirst, fun h => (by cases h), fun h => (by cases h.2)⟩
        | true => exact .inr ⟨hvalid, rfl, _, hfirst, .inl ⟨.refl _, fun h => (by cases h)⟩⟩
    | done =>
        refine .inr ⟨hvalid, rfl, _, hfirst, ?_⟩
        rcases addToIndex_cases second (writeFileAtomic .done dir (fenceFile f.environmentID) (marshalFence f)).1
          (Bool.and_eq_true_iff.1 hvalid).1 with hsame | hwritten
        · exact .inl hsame
        · exact .inr ⟨rfl, hwritten⟩
  · unfold save
    rw [if_neg hvalid]
    exact .inl ⟨.refl _, fun h => (by cases h), fun h => hvalid h.1⟩

-- A fence file in a directory without an index makes the index untrusted; an index that is there stays what it is.
theorem WritesFence.loadIndex_cases (h : WritesFence dir dir' f) :
    (dir.get? indexFileName ≠ none ∧ loadIndex dir' = loadIndex dir) ∨
      (dir.get? indexFileName = none ∧ loadIndex dir' = none) := by
  have hwritten : dir'.get? (fenceFile f.environmentID) = _ := h.fences _ isFenceFile_fenceFile
  rw [if_pos rfl] at hwritten
  cases hindex : dir.get? indexFileName with
  | none =>
      refine .inr ⟨rfl, ?_⟩
      have hany : hasAnyFenceFile dir' = true :=
        hasAnyFenceFile_iff.2 ⟨_, isFenceFile_fenceFile, by rw [hwritten]; rfl⟩
      unfold loadIndex
      rw [h.index, hindex]
      simp only [hany, if_true]
  | some file =>
      refine .inl ⟨fun hnone => (by cases hnone), ?_⟩
      unfold loadIndex
      rw [h.index, hindex]
      cases file with
      | unreadable => rfl
      | contents c => rfl

theorem WritesFence.get?_other (h : WritesFence dir dir' f) (hne : other ≠ f.environmentID) :
    dir'.get? (fenceFile other) = dir.get? (fenceFile other) := by
  rw [h.fences _ isFenceFile_fenceFile, if_neg fun heq => hne (fenceFile_injective heq)]

theorem WritesFence.get?_self (h : WritesFence dir dir' f) :
    dir'.get? (fenceFile f.environmentID) = some (.contents (marshalFence f)) := by
  rw [h.fences _ isFenceFile_fenceFile, if_pos rfl]

theorem readBack_congr {listed listed' : List String} {file : Option File}
    (h : environmentID ∈ listed' ↔ environmentID ∈ listed) :
    readBack (some listed') file environmentID = readBack (some listed) file environmentID := by
  cases file with
  | none => simp only [readBack, h]
  | some file =>
      cases file with
      | unreadable => rfl
      | contents c => simp only [readBack, h]

theorem readBack_saved {listed : List String} (hvalid : f.valid = true) (hlisted : f.environmentID ∈ listed) :
    readBack (some listed) (some (.contents (marshalFence f))) f.environmentID = .ok (f, true) := by
  simp [readBack, marshalFence, hlisted, hvalid]

-- No index and no fence file: a directory nothing was ever saved in.
theorem get?_fenceFile_of_fresh {listed : List String} (environmentID : String) (hindex : dir.get? indexFileName = none)
    (hlisted : loadIndex dir = some listed) : listed = [] ∧ dir.get? (fenceFile environmentID) = none := by
  unfold loadIndex at hlisted
  rw [hindex] at hlisted
  by_cases hany : hasAnyFenceFile dir = true
  · simp [hany] at hlisted
  · simp only [hany, Bool.false_eq_true, if_false, Option.some.injEq] at hlisted
    refine ⟨hlisted.symm, ?_⟩
    cases hfile : dir.get? (fenceFile environmentID) with
    | none => rfl
    | some file => exact absurd (hasAnyFenceFile_iff.2 ⟨_, isFenceFile_fenceFile, by rw [hfile]; rfl⟩) hany

-- A save leaves what is read of the other environments, or makes it unreadable.
theorem load_save_other {r : Fence × Bool} (hload : load dir f.environmentID = .ok r) (hne : other ≠ f.environmentID) :
    load (save first second dir f).1 other = load dir other ∨
      load (save first second dir f).1 other = .error .corruptState := by
  by_cases hother : validOpaqueID other = true
  swap
  · exact .inl ((load_eq_invalid hother).trans (load_eq_invalid hother).symm)
  rcases save_cases first second dir f with ⟨hsame, -⟩ | ⟨hvalid, -, dir₁, hwrites, hafter⟩
  · exact .inl hsame.load_eq
  · rw [load_eq_readBack (Bool.and_eq_true_iff.1 hvalid).1] at hload
    obtain ⟨listed₀, hlisted₀⟩ : ∃ listed, loadIndex dir = some listed := by
      cases hindex : loadIndex dir with
      | none =>
          rw [hindex] at hload
          cases hload
      | some listed => exact ⟨listed, rfl⟩
    simp only [load_eq_readBack hother]
    rcases hafter with ⟨hsame, -⟩ | ⟨-, hwritten⟩
    · rw [hsame.loadIndex_eq, hsame.fences _ isFenceFile_fenceFile, hwrites.get?_other hne]
      rcases hwrites.loadIndex_cases with ⟨-, hindex⟩ | ⟨-, hindex⟩
      · exact .inl (by rw [hindex])
      · exact .inr (by rw [hindex]; rfl)
    · obtain ⟨listed, hlisted, hmem⟩ := hwritten.index
      left
      rw [hlisted, hlisted₀, hwritten.fences _ isFenceFile_fenceFile, hwrites.get?_other hne]
      refine readBack_congr ?_
      rw [hmem, List.mem_cons]
      rcases hwrites.loadIndex_cases with ⟨-, hindex⟩ | ⟨hmissing, hindex⟩
      · rw [hindex, hlisted₀]
        exact or_iff_right hne
      · obtain ⟨rfl, -⟩ := get?_fenceFile_of_fresh other hmissing hlisted₀
        rw [hindex]
        exact or_iff_right hne

-- Of the environment itself the old or the new fence is read, or nothing.
theorem load_save_self (first second : Outcome) (dir : FenceDirectory) (f : Fence) :
    load (save first second dir f).1 f.environmentID = load dir f.environmentID ∨
      load (save first second dir f).1 f.environmentID = .error .corruptState ∨
      load (save first second dir f).1 f.environmentID = .ok (f, true) := by
  rcases save_cases first second dir f with ⟨hsame, -⟩ | ⟨hvalid, -, dir₁, hwrites, hafter⟩
  · exact .inl hsame.load_eq
  · right
    have hread : ∀ listed, readBack listed (some (.contents (marshalFence f))) f.environmentID = .error .corruptState ∨
        readBack listed (some (.contents (marshalFence f))) f.environmentID = .ok (f, true) := by
      intro listed
      cases listed with
      | none => exact .inl rfl
      | some listed =>
          by_cases hlisted : f.environmentID ∈ listed
          · exact .inr (readBack_saved hvalid hlisted)
          · exact .inl (by simp [readBack, hlisted])
    have hfile : (save first second dir f).1.get? (fenceFile f.environmentID) =
        some (.contents (marshalFence f)) := by
      rcases hafter with ⟨hsame, -⟩ | ⟨-, hwritten⟩
      · rw [hsame.fences _ isFenceFile_fenceFile, hwrites.get?_self]
      · rw [hwritten.fences _ isFenceFile_fenceFile, hwrites.get?_self]
    rw [load_eq_readBack (Bool.and_eq_true_iff.1 hvalid).1, hfile]
    exact hread _

-- A save that returns has stored its fence.
theorem load_saved (hok : (save first second dir f).2 = .ok ()) :
    load (save first second dir f).1 f.environmentID = .ok (f, true) := by
  rcases save_cases first second dir f with ⟨-, hfailed, -⟩ | ⟨hvalid, -, dir₁, hwrites, hafter⟩
  · exact absurd hok hfailed
  · rw [load_eq_readBack (Bool.and_eq_true_iff.1 hvalid).1]
    rcases hafter with ⟨hsame, hlisted⟩ | ⟨-, hwritten⟩
    · have hlisted := hlisted hok
      rw [hsame.fences _ isFenceFile_fenceFile, hwrites.get?_self, hsame.loadIndex_eq]
      cases hindex : loadIndex dir₁ with
      | none =>
          rw [hindex] at hlisted
          cases hlisted
      | some listed =>
          rw [hindex] at hlisted
          exact readBack_saved hvalid hlisted
    · obtain ⟨listed, hindex, hmem⟩ := hwritten.index
      rw [hwritten.fences _ isFenceFile_fenceFile, hwrites.get?_self, hindex]
      exact readBack_saved hvalid ((hmem _).2 List.mem_cons_self)

end

end AutoDeploy.Agent
