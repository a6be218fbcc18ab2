import AutoDeploy.Agent.FenceStore

namespace AutoDeploy.Agent

open Lib Store

-- The longest name the usual file systems take.
def nameMax : Nat := 255

-- A file system that works: it refuses names that are too long, and nothing else.
def writeWithin (dir : FenceDirectory) (name : FileName) (c : Contents) : FenceDirectory × Except Fault Unit :=
  if name.length ≤ nameMax then writeFileAtomic .done dir name c else (dir, .error .error)

-- The failure for a name that is too long is not that of a missing file.
def readWithin (dir : FenceDirectory) (name : FileName) : Option File :=
  if name.length ≤ nameMax then dir.get? name else some .unreadable

def addToIndexWithin (dir : FenceDirectory) (environmentID : String) : FenceDirectory × Except Fault Unit :=
  let listed := (loadIndex dir).getD []
  if environmentID ∈ listed then (dir, .ok ())
  else writeWithin dir indexFileName (marshalIndex ((environmentID :: listed).insertionSort (· ≤ ·)))

def saveWithin (dir : FenceDirectory) (f : Fence) : FenceDirectory × Except Fault Unit :=
  if f.valid then
    match writeWithin dir (fenceFile f.environmentID) (marshalFence f) with
    | (dir', .error fault) => (dir', .error fault)
    | (dir', .ok ()) => addToIndexWithin dir' f.environmentID
  else (dir, .error .error)

def loadWithin (dir : FenceDirectory) (environmentID : String) : Except LoadError (Fence × Bool) :=
  match path environmentID with
  | none => .error .invalidEnvironment
  | some name => readBack (loadIndex dir) (readWithin dir name) environmentID

-- A name for one file of the directory, apart from the names the store uses for itself.
structure Usable (name : FileName) : Prop where
  component : name ≠ [] ∧ name ≠ Bytes.ofString "." ∧ name ≠ Bytes.ofString ".." ∧ 47 ∉ name ∧ 0 ∉ name
  short : name.length ≤ nameMax
  notIndex : name ≠ indexFileName
  notTemporary : ∀ n, name ≠ Directory.temporaryName ".fence-" n

-- Whatever the directory holds, a fence that is saved is read back.
def SavesBack (environmentID : String) : Prop :=
  ∀ (dir : FenceDirectory) (f : Fence), f.environmentID = environmentID → f.valid = true →
    (saveWithin dir f).2 = .ok () ∧ loadWithin (saveWithin dir f).1 environmentID = .ok (f, true)

-- A byte outside the allow-list takes three bytes of the name, and the suffix takes five.
def FitsName (environmentID : String) : Prop :=
  (Bytes.ofString environmentID).length + 2 * (Bytes.ofString environmentID).countP (fun c => !safeByte c) + 5 ≤ nameMax

theorem length_encode (bytes : Bytes) :
    (bytes.flatMap encodeByte).length = bytes.length + 2 * bytes.countP fun c => !safeByte c := by
  induction bytes with
  | nil => rfl
  | cons c bytes ih =>
      rw [List.flatMap_cons, List.length_append, ih, List.countP_cons, List.length_cons, encodeByte]
      by_cases hc : safeByte c = true
      · simp only [hc, if_true, List.length_singleton, Bool.not_true, Bool.false_eq_true, if_false]
        omega
      · simp only [hc, Bool.false_eq_true, if_false, List.length_cons, List.length_nil, Bool.not_false, if_true]
        omega

theorem length_fenceFile_le_iff (environmentID : String) :
    (fenceFile environmentID).length ≤ nameMax ↔ FitsName environmentID := by
  have hsuffix : fenceSuffix.length = 5 := rfl
  rw [fenceFile, encodeName, List.length_append, length_encode, hsuffix, FitsName]

-- The bytes a name can have: those of the allow-list, the percent sign and the dot of the suffix.
theorem mem_fenceFile {environmentID : String} {c : UInt8} (h : c ∈ fenceFile environmentID) :
    safeByte c = true ∨ c = 37 ∨ c = 46 := by
  have hhex {n : Nat} (hn : n < 16) : safeByte (hexByte n) = true := by
    have hall : (List.range 16).all (fun n => safeByte (hexByte n)) = true := by decide
    exact List.all_eq_true.1 hall n (List.mem_range.2 hn)
  rcases List.mem_append.1 h with hname | hsuffix
  · obtain ⟨d, -, hd⟩ := List.mem_flatMap.1 hname
    have hlt := d.toNat_lt
    unfold encodeByte at hd
    split at hd
    · rename_i hsafe
      rw [List.mem_singleton.1 hd]
      exact .inl hsafe
    · simp only [List.mem_cons, List.not_mem_nil, or_false] at hd
      rcases hd with rfl | rfl | rfl
      · exact .inr (.inl rfl)
      · exact .inl (hhex (by omega))
      · exact .inl (hhex (by omega))
  · have hall : fenceSuffix.all (fun c => safeByte c || c == 46) = true := by decide +kernel
    have hc := List.all_eq_true.1 hall c hsuffix
    rw [Bool.or_eq_true, beq_iff_eq] at hc
    exact hc.imp_right Or.inr

theorem notMem_fenceFile (environmentID : String) {c : UInt8} (hsafe : safeByte c = false) (h37 : c ≠ 37) (h46 : c ≠ 46) :
    c ∉ fenceFile environmentID := by
  intro h
  rcases mem_fenceFile h with h | h | h
  · rw [hsafe] at h
    cases h
  · exact h37 h
  · exact h46 h

-- Every requirement on a name but the length holds for every id.
theorem usable_fenceFile_iff (environmentID : String) :
    Usable (fenceFile environmentID) ↔ (fenceFile environmentID).length ≤ nameMax := by
  have hlength : 5 ≤ (fenceFile environmentID).length := by
    have hsuffix : fenceSuffix.length = 5 := rfl
    rw [fenceFile, List.length_append]
    omega
  have hshort {name : FileName} (h : name.length < 5) : fenceFile environmentID ≠ name := by
    rintro rfl
    omega
  constructor
  · exact Usable.short
  · intro hfits
    refine ⟨⟨hshort (by decide), hshort (by decide), hshort (by decide), ?_, ?_⟩, hfits, fenceFile_ne_index,
      fence_not_temporary isFenceFile_fenceFile⟩
    · exact notMem_fenceFile environmentID (by decide) (by decide) (by decide)
    · exact notMem_fenceFile environmentID (by decide) (by decide) (by decide)

theorem addToIndexWithin_eq (dir : FenceDirectory) (environmentID : String) :
    addToIndexWithin dir environmentID = addToIndex .done dir environmentID := by
  have hindex : indexFileName.length ≤ nameMax := by decide
  simp only [addToIndexWithin, addToIndex, writeWithin, hindex, if_true]

theorem addToIndex_done (dir : FenceDirectory) (environmentID : String) :
    (addToIndex .done dir environmentID).2 = .ok () := by
  unfold addToIndex
  simp only
  split
  · rfl
  · rfl

-- A name that fits is written and read like any other.
theorem saveWithin_eq {f : Fence} (hfits : (fenceFile f.environmentID).length ≤ nameMax) (dir : FenceDirectory) :
    saveWithin dir f = save .done .done dir f := by
  have hindex : addToIndexWithin = addToIndex .done := funext₂ addToIndexWithin_eq
  unfold saveWithin save writeWithin
  rewrite [if_pos hfits, hindex]
  rfl

theorem save_done {f : Fence} (hvalid : f.valid = true) (dir : FenceDirectory) : (save .done .done dir f).2 = .ok () := by
  unfold save
  rw [if_pos hvalid]
  exact addToIndex_done _ f.environmentID

theorem loadWithin_eq {environmentID : String} (hvalid : validOpaqueID environmentID = true)
    (hfits : (fenceFile environmentID).length ≤ nameMax) (dir : FenceDirectory) :
    loadWithin dir environmentID = load dir environmentID := by
  rw [load_eq_readBack hvalid, loadWithin, path, if_pos hvalid]
  simp only [readWithin, hfits, if_true]

-- A name that is too long is never written.
theorem saveWithin_refused {f : Fence} (hlong : ¬ (fenceFile f.environmentID).length ≤ nameMax) (dir : FenceDirectory) :
    saveWithin dir f = (dir, .error .error) := by
  unfold saveWithin writeWithin
  rw [if_neg hlong]
  split
  · rfl
  · rfl

theorem savesBack_iff {environmentID : String} (hvalid : validOpaqueID environmentID = true) :
    SavesBack environmentID ↔ (fenceFile environmentID).length ≤ nameMax := by
  constructor
  · intro h
    by_contra hlong
    have hfence : (⟨environmentID, 0, false⟩ : Fence).valid = true := Bool.and_eq_true_iff.2 ⟨hvalid, rfl⟩
    have hsaved := (h Table.empty ⟨environmentID, 0, false⟩ rfl hfence).1
    rw [saveWithin_refused hlong] at hsaved
    cases hsaved
  · rintro hfits dir f rfl hfence
    rw [saveWithin_eq hfits]
    refine ⟨save_done hfence dir, ?_⟩
    rw [loadWithin_eq hvalid hfits]
    exact load_saved (save_done hfence dir)

-- Names are apart for all ids. They are usable exactly when the escaped id leaves room for the suffix.
theorem fence_names_usable_iff {environmentID : String} (hvalid : validOpaqueID environmentID = true) :
    (((∀ other, validOpaqueID other = true → fenceFile other = fenceFile environmentID → other = environmentID) ∧
          Usable (fenceFile environmentID) ∧ SavesBack environmentID) ↔ FitsName environmentID) ∧
      (SavesBack environmentID ↔ FitsName environmentID) := by
  rw [usable_fenceFile_iff, savesBack_iff hvalid, length_fenceFile_le_iff]
  refine ⟨⟨fun h => h.2.1, fun h => ⟨?_, h, h⟩⟩, Iff.rfl⟩
  intro other _ hsame
  exact fenceFile_injective hsame

theorem fence_names_usable_iff_plain :
    validOpaqueID "env/1" = true ∧ SavesBack "env/1" :=
  ⟨by decide, (fence_names_usable_iff (by decide)).2.2 (by unfold FitsName; decide +kernel)⟩

-- Eighty-four slashes are an accepted id, and its name has 257 bytes.
theorem long_name_refused :
    validOpaqueID (String.ofList (List.replicate 84 '/')) = true ∧
      (fenceFile (String.ofList (List.replicate 84 '/'))).length = 257 ∧
      ¬ SavesBack (String.ofList (List.replicate 84 '/')) := by
  have hvalid : validOpaqueID (String.ofList (List.replicate 84 '/')) = true := by decide +kernel
  have hlength : (fenceFile (String.ofList (List.replicate 84 '/'))).length = 257 := by decide +kernel
  refine ⟨hvalid, hlength, ?_⟩
  rw [savesBack_iff hvalid, hlength]
  decide

end AutoDeploy.Agent
