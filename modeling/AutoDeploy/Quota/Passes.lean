import Mathlib.Algebra.Group.Nat.Defs
import Mathlib.Data.List.Nodup
import AutoDeploy.Quota.Workspace

namespace AutoDeploy.Quota

theorem validCleanupName_bytes (name : FileName) : validCleanupName name.bytes = true := by
  simp only [validCleanupName, Bool.and_eq_true, decide_eq_true_eq, List.all_eq_true]
  exact ⟨⟨⟨⟨name.nonempty, name.notSelf⟩, name.notParent⟩, name.short⟩, name.plain⟩

-- What a walk gets through in one go.
structure Fits (depth entries : Nat) (l : List Entry) : Prop where
  count : entries + countEntries l ≤ maxCleanupEntries
  height : depth + heightEntries l ≤ maxCleanupDepth

section

variable {chunk : List Entry → Nat} {depth entries : Nat} {names block ahead rest children l : List Entry}
  {name : FileName} {node : Node} {kind : Kind}

-- How a walk has to end: with everything removed, or cut short at an entry it has already read past.
structure Ends (depth entries : Nat) (l : List Entry) (w : Walked) : Prop where
  done : Fits depth entries l → w = ⟨.done, entries + countEntries l, [], []⟩
  cut : ¬ Fits depth entries l → w.outcome = .retryable ∧ w.passed ≠ []

theorem fits_file : Fits depth entries ((name, .file kind) :: l) ↔
    entries + 1 ≤ maxCleanupEntries ∧ Fits depth (entries + 1) l := by
  have hcount : countEntries ((name, .file kind) :: l) = 1 + countEntries l := by
    simp [countEntries, countEntry, Node.count]
  have hheight : heightEntries ((name, .file kind) :: l) = heightEntries l := by
    simp [heightEntries, heightEntry, Node.height]
  constructor
  · rintro ⟨hfew, hlow⟩
    rw [hcount] at hfew
    rw [hheight] at hlow
    exact ⟨by omega, by omega, hlow⟩
  · rintro ⟨-, hfew, hlow⟩
    exact ⟨by rw [hcount]; omega, by rw [hheight]; exact hlow⟩

theorem fits_dir : Fits depth entries ((name, .dir children) :: l) ↔
    Fits (depth + 1) (entries + 1) children ∧ Fits depth (entries + 1 + countEntries children) l := by
  have hcount : countEntries ((name, .dir children) :: l) = countEntries children + 1 + countEntries l := by
    simp [countEntries, countEntry, Node.count]
  have hheight : heightEntries ((name, .dir children) :: l) = max (heightEntries children + 1) (heightEntries l) := by
    simp [heightEntries, heightEntry, Node.height]
  constructor
  · rintro ⟨hfew, hlow⟩
    rw [hcount] at hfew
    rw [hheight] at hlow
    exact ⟨⟨by omega, by omega⟩, by omega, by omega⟩
  · rintro ⟨⟨hfew, hlow⟩, hfew', hlow'⟩
    exact ⟨by rw [hcount]; omega, by rw [hheight]; omega⟩

-- The walk reads on when it has no names left.
theorem walk_nil : walk chunk depth [] block ahead entries =
    if (readDir chunk readDirCount block ahead).1 = [] then
      ⟨.done, entries, (readDir chunk readDirCount block ahead).2.1, (readDir chunk readDirCount block ahead).2.2⟩
    else walk chunk depth (readDir chunk readDirCount block ahead).1 (readDir chunk readDirCount block ahead).2.1
      (readDir chunk readDirCount block ahead).2.2 entries := by
  rw [walk]
  split
  · rename_i heq
    simp [heq]
  · rename_i heq
    simp [heq]

theorem walk_limit (hlimit : maxCleanupEntries < entries + 1) :
    walk chunk depth ((name, node) :: rest) block ahead entries =
      ⟨.retryable, entries + 1, (name, node) :: rest ++ block, ahead⟩ := by
  rw [walk.eq_def]
  simp only [if_pos hlimit]

theorem walk_file (hlimit : entries + 1 ≤ maxCleanupEntries) :
    walk chunk depth ((name, .file kind) :: rest) block ahead entries =
      walk chunk depth rest block ahead (entries + 1) := by
  rw [walk.eq_def]
  simp only [if_neg (Nat.not_lt.2 hlimit), validCleanupName_bytes name, reduceCtorEq, if_false]

theorem walk_deep (hlimit : entries + 1 ≤ maxCleanupEntries) (hdeep : maxCleanupDepth < depth + 1) :
    walk chunk depth ((name, .dir children) :: rest) block ahead entries =
      ⟨.retryable, entries + 1, (name, .dir children) :: rest ++ block, ahead⟩ := by
  rw [walk.eq_def]
  simp only [if_neg (Nat.not_lt.2 hlimit), validCleanupName_bytes name, reduceCtorEq, if_false, if_pos hdeep]

-- A directory that is emptied is removed; one that is not stays, with what is left in it.
theorem walk_dir (hlimit : entries + 1 ≤ maxCleanupEntries) (hdeep : depth + 1 ≤ maxCleanupDepth) :
    let inner := walk chunk (depth + 1) [] [] children (entries + 1)
    (inner = ⟨.done, inner.entries, [], []⟩ → walk chunk depth ((name, .dir children) :: rest) block ahead entries =
      walk chunk depth rest block ahead inner.entries) ∧
    (inner.outcome = .retryable → walk chunk depth ((name, .dir children) :: rest) block ahead entries =
      ⟨.retryable, inner.entries, (name, .dir (inner.passed ++ inner.ahead)) :: rest ++ block, ahead⟩) := by
  intro inner
  rw [walk.eq_def chunk depth]
  simp only [if_neg (Nat.not_lt.2 hlimit), validCleanupName_bytes name, reduceCtorEq, if_false,
    if_neg (Nat.not_lt.2 hdeep)]
  constructor
  · intro hdone
    have houtcome : inner.outcome = .done := by rw [hdone]
    have hempty : (inner.passed ++ inner.ahead).isEmpty = true := by rw [hdone]; rfl
    simp only [inner] at houtcome hempty
    simp only [houtcome, hempty, if_true, inner]
  · intro hcut
    simp only [inner] at hcut
    simp only [hcut, inner]

theorem ends_cut {w : Walked} (hnot : ¬ Fits depth entries l) (houtcome : w.outcome = .retryable) (hpassed : w.passed ≠ []) :
    Ends depth entries l w :=
  ⟨fun hfits => absurd hfits hnot, fun _ => ⟨houtcome, hpassed⟩⟩

theorem Ends.file {w : Walked} (h : Ends depth (entries + 1) l w) (hlimit : entries + 1 ≤ maxCleanupEntries) :
    Ends depth entries ((name, .file kind) :: l) w := by
  refine ⟨fun hfits => ?_, fun hnot => h.cut fun hfits => hnot (fits_file.2 ⟨hlimit, hfits⟩)⟩
  rw [h.done (fits_file.1 hfits).2]
  simp only [countEntries, countEntry, Node.count, Walked.mk.injEq, and_true, true_and]
  omega

theorem Ends.dir {w : Walked} (h : Ends depth (entries + 1 + countEntries children) l w)
    (hfit : Fits (depth + 1) (entries + 1) children) : Ends depth entries ((name, .dir children) :: l) w := by
  refine ⟨fun hfits => ?_, fun hnot => h.cut fun hfits => hnot (fits_dir.2 ⟨hfit, hfits⟩)⟩
  rw [h.done (fits_dir.1 hfits).2]
  simp only [countEntries, countEntry, Node.count, Walked.mk.injEq, and_true, true_and]
  omega

theorem countEntries_cons : countEntries ((name, node) :: l) = node.count + 1 + countEntries l := by
  simp only [countEntries, countEntry]

-- By induction on what is still to be read; a read by itself moves nothing but the names.
theorem walk_ends (n : Nat) : ∀ depth names block ahead entries,
    2 * countEntries (names ++ (block ++ ahead)) + (if names = [] then 1 else 0) < n →
      entries ≤ maxCleanupEntries → depth ≤ maxCleanupDepth →
      Ends depth entries (names ++ (block ++ ahead)) (walk chunk depth names block ahead entries) := by
  induction n with
  | zero => intro depth names block ahead entries hlt; omega
  | succ n ih =>
      intro depth names block ahead entries hlt hentries hdepth
      cases names with
      | nil =>
          have hread := readDir_append chunk readDirCount block ahead
          rw [walk_nil]
          split
          · rename_i hnil
            obtain ⟨rfl, rfl⟩ := readDir_eq_nil hnil
            exact ⟨fun _ => rfl, fun hnot => absurd ⟨hentries, hdepth⟩ hnot⟩
          · rename_i hne
            rw [List.nil_append, ← hread]
            refine ih _ _ _ _ _ ?_ hentries hdepth
            rw [hread, if_neg hne]
            simp only [List.nil_append, if_true] at hlt
            omega
      | cons entry rest =>
          obtain ⟨name, node⟩ := entry
          simp only [reduceCtorEq, if_false, List.cons_append, countEntries_cons] at hlt
          by_cases hlimit : maxCleanupEntries < entries + 1
          · rw [walk_limit hlimit]
            refine ends_cut (fun hfits => ?_) rfl (by simp)
            have hcount := hfits.count
            rw [List.cons_append, countEntries_cons] at hcount
            omega
          · have hsmall : entries + 1 ≤ maxCleanupEntries := by omega
            cases node with
            | file kind =>
                rw [walk_file hsmall]
                exact (ih depth rest block ahead (entries + 1) (by split <;> omega) hsmall hdepth).file hsmall
            | dir children =>
                rw [Node.count] at hlt
                by_cases hdeep : maxCleanupDepth < depth + 1
                · rw [walk_deep hsmall hdeep]
                  refine ends_cut (fun hfits => ?_) rfl (by simp)
                  have hheight := (fits_dir.1 hfits).1.height
                  omega
                · have hlow : depth + 1 ≤ maxCleanupDepth := by omega
                  have hinner := ih (depth + 1) [] [] children (entries + 1) (by simp only [List.nil_append, if_true]; omega)
                    hsmall hlow
                  obtain ⟨hnext, hcut⟩ := @walk_dir chunk depth entries block ahead rest children name hsmall hlow
                  by_cases hfit : Fits (depth + 1) (entries + 1) children
                  · have hdone := hinner.done hfit
                    simp only [List.nil_append] at hdone
                    rw [hnext (by rw [hdone]), hdone]
                    exact (ih depth rest block ahead _ (by split <;> omega) hfit.count hdepth).dir hfit
                  · have houtcome := (hinner.cut hfit).1
                    rw [hcut houtcome]
                    exact ends_cut (fun hfits => hfit (fits_dir.1 hfits).1) rfl (by simp)

theorem removeWorkspaceContents_ends (chunk : List Entry → Nat) (ahead : List Entry) :
    Ends 0 0 ahead (removeWorkspaceContents chunk ahead) :=
  walk_ends _ 0 [] [] ahead 0 (Nat.lt_succ_self _) (Nat.zero_le _) (Nat.zero_le _)

-- What repeating Release has to do: it retires the workspace after some passes, every pass that does not complete
-- removes an entry, and a directory is found empty only when it is.
structure Progresses (chunk : List Entry → Nat) (accounting : Accounting) (w : Workspace) : Prop where
  completes : ∃ n, (passes chunk accounting w n).state = .terminal ∧ (passes chunk accounting w n).linked = false
  removes : ∀ n, (release chunk accounting (passes chunk accounting w n)).1.complete = false →
    countEntries (passes chunk accounting w (n + 1)).contents < countEntries (passes chunk accounting w n).contents
  empty : ∀ n, (passes chunk accounting w n).state ≠ .terminal →
    (emptyDir chunk ((passes chunk accounting w n).walked chunk)).1 = true →
      ((passes chunk accounting w n).walked chunk).contents = []

variable {accounting : Accounting} {w : Workspace}

theorem emptyDir_passed (h : w.passed ≠ []) : (emptyDir chunk w).2.passed ≠ [] := by
  simp [emptyDir, h]

-- What the position has passed stays behind it, and the directory is not removed with it.
theorem release_behind (hpassed : w.passed ≠ []) (hstate : w.state ≠ .terminal) :
    (release chunk accounting w).2.passed ≠ [] ∧ (release chunk accounting w).2.state ≠ .terminal := by
  have hwalked : (Workspace.walked chunk { w with state := .releasing }).passed ≠ [] := by
    simp [Workspace.walked, hpassed]
  have hempty := @emptyDir_passed chunk _ hwalked
  have hstay : (emptyDir chunk (Workspace.walked chunk { w with state := .releasing })).2.state = .releasing := rfl
  rw [release, if_neg hstate, cleanupLocked]
  split
  · exact ⟨hwalked, by simp [Workspace.walked]⟩
  · exact ⟨hwalked, by simp [Workspace.walked]⟩
  · simp only
    split
    · exact ⟨hempty, by rw [hstay]; decide⟩
    · split
      · exact ⟨hempty, by simp [hstay]⟩
      · split
        · exact ⟨hempty, by simp [hstay]⟩
        · rename_i hcontents
          exfalso
          simp only [Workspace.contents, Bool.not_eq_false, List.isEmpty_iff, List.append_eq_nil_iff] at hcontents
          exact hempty hcontents.1

theorem passes_behind (hpassed : w.passed ≠ []) (hstate : w.state ≠ .terminal) (n : Nat) :
    (passes chunk accounting w n).passed ≠ [] ∧ (passes chunk accounting w n).state ≠ .terminal := by
  induction n with
  | zero => exact ⟨hpassed, hstate⟩
  | succ n ih => exact release_behind ih.1 ih.2

-- A pass that is cut short leaves an entry behind the position.
theorem release_cut (hstate : w.state ≠ .terminal) (hcut : ¬ Fits 0 0 w.ahead) :
    (release chunk accounting w).2.passed ≠ [] ∧ (release chunk accounting w).2.state ≠ .terminal := by
  obtain ⟨houtcome, hpassed⟩ := (removeWorkspaceContents_ends chunk w.ahead).cut hcut
  rw [release, if_neg hstate, cleanupLocked]
  simp only [houtcome]
  exact ⟨by simp [Workspace.walked, hpassed], by simp [Workspace.walked]⟩

theorem passes_shift (n : Nat) :
    passes chunk accounting w (n + 1) = passes chunk accounting (release chunk accounting w).2 n := by
  induction n with
  | zero => rfl
  | succ n ih =>
      rw [passes, ih]
      rfl

-- One pass over a directory that fits, read from its first entry, retires the workspace.
theorem release_fits (hstate : w.state ≠ .terminal) (hpassed : w.passed = []) (hfits : Fits 0 0 w.ahead) :
    release chunk accounting w =
      (.success, { w with ahead := [], projectSet := false, limitsSet := false, linked := false, state := .terminal }) := by
  have hwalk := (removeWorkspaceContents_ends chunk w.ahead).done hfits
  have hwalked : Workspace.walked chunk { w with state := .releasing } = { w with ahead := [], state := .releasing } := by
    simp [Workspace.walked, hwalk, hpassed]
  have hempty : emptyDir chunk { w with ahead := [], state := .releasing } =
      (true, { w with ahead := [], state := .releasing }) := by
    simp [emptyDir, readDir]
  rw [release, if_neg hstate, cleanupLocked]
  simp only [hwalk, hwalked, hempty]
  simp [Workspace.contents, hpassed, accounting.empty]

-- Cut short once, the cleanup never ends.
theorem passes_of_cut (hstate : w.state ≠ .terminal) (hcut : ¬ Fits 0 0 w.ahead) (n : Nat) :
    (passes chunk accounting w n).state ≠ .terminal := by
  cases n with
  | zero => exact hstate
  | succ n =>
      obtain ⟨hpassed, hopen⟩ := @release_cut chunk accounting w hstate hcut
      rw [passes_shift]
      exact (passes_behind hpassed hopen n).2

theorem passes_terminal (hstate : w.state = .terminal) (n : Nat) : passes chunk accounting w n = w := by
  induction n with
  | zero => rfl
  | succ n ih => rw [passes, ih, release, if_pos hstate]

end

-- Cleanup completes exactly when the first pass reads the directory from its start and gets through it: a pass that is
-- cut short leaves behind the shared position what it has read and not removed, and no later pass finds that again.
theorem cleanup_progresses_iff (chunk : List Entry → Nat) (accounting : Accounting) (w : Workspace)
    (hstate : w.state ≠ .terminal) :
    Progresses chunk accounting w ↔
      w.passed = [] ∧ countEntries w.ahead ≤ maxCleanupEntries ∧ heightEntries w.ahead ≤ maxCleanupDepth := by
  have hfits : Fits 0 0 w.ahead ↔
      countEntries w.ahead ≤ maxCleanupEntries ∧ heightEntries w.ahead ≤ maxCleanupDepth := by
    constructor
    · rintro ⟨hfew, hlow⟩
      exact ⟨by omega, by omega⟩
    · rintro ⟨hfew, hlow⟩
      exact ⟨by omega, by omega⟩
  rw [← hfits]
  constructor
  · intro h
    obtain ⟨n, hterminal, -⟩ := h.completes
    constructor
    · by_contra hpassed
      exact (passes_behind hpassed hstate n).2 hterminal
    · by_contra hcut
      exact passes_of_cut hstate hcut n hterminal
  · rintro ⟨hpassed, hfit⟩
    have hfirst := @release_fits chunk accounting w hstate hpassed hfit
    have hlater : ∀ n, passes chunk accounting w (n + 1) =
        { w with ahead := [], projectSet := false, limitsSet := false, linked := false, state := .terminal } := by
      intro n
      rw [passes_shift, hfirst]
      exact passes_terminal rfl n
    refine ⟨⟨1, by rw [hlater 0], by rw [hlater 0]⟩, fun n hopen => ?_, fun n hopen _ => ?_⟩
    · cases n with
      | zero =>
          rw [passes, hfirst] at hopen
          cases hopen
      | succ n =>
          rw [hlater n, release, if_pos rfl] at hopen
          cases hopen
    · cases n with
      | zero =>
          have hwalk := (removeWorkspaceContents_ends chunk w.ahead).done hfit
          simp [passes, Workspace.walked, Workspace.contents, hwalk, hpassed]
      | succ n =>
          rw [hlater n] at hopen
          exact absurd rfl hopen

def perEntry : Accounting where
  usage l := (countEntries l, countEntries l)
  empty := by simp [countEntries]

-- A name of seventeen letters, one for each binary digit of a number.
def fileName (n : Nat) : FileName where
  bytes := (List.range 17).map fun i => if n.testBit i then 98 else 97
  nonempty := by simp
  notSelf := by simp [List.range_succ_eq_map]
  notParent := by simp [List.range_succ_eq_map]
  short := by simp
  plain := by
    intro c hc
    obtain ⟨i, -, rfl⟩ := List.mem_map.1 hc
    split <;> decide

theorem cleanup_progresses_iff_smallTree :
    Progresses (fun _ => 1) perEntry
      ⟨[], [(fileName 0, .file .symlink), (fileName 1, .dir [(fileName 2, .file .regular)])], true, true, true, .active⟩ :=
  (cleanup_progresses_iff (fun _ => 1) perEntry _ (by decide)).2 ⟨rfl, by decide, by decide⟩

theorem fileName_inj {n m : Nat} (hn : n < 2 ^ 17) (hm : m < 2 ^ 17) (h : fileName n = fileName m) : n = m := by
  refine Nat.eq_of_testBit_eq fun i => ?_
  by_cases hi : i < 17
  · have hbytes := congrArg (fun name => name.bytes[i]?) h
    simp only [fileName, List.getElem?_map, List.getElem?_range hi, Option.map_some, Option.some.injEq] at hbytes
    cases hbit : n.testBit i <;> cases hbit' : m.testBit i <;> simp_all
  · have hpower : 2 ^ 17 ≤ 2 ^ i := Nat.pow_le_pow_right (by decide) (by omega)
    rw [Nat.testBit_lt_two_pow (by omega), Nat.testBit_lt_two_pow (by omega)]

theorem countEntries_files (l : List Nat) : countEntries (l.map fun n => (fileName n, .file .regular)) = l.length := by
  induction l with
  | nil => simp [countEntries]
  | cons n rest ih =>
      simp only [List.map_cons, countEntries, countEntry, Node.count, ih, List.length_cons]
      omega

-- One regular file more than a pass may touch, in a workspace nobody has read from.
def crowded : Workspace :=
  ⟨[], (List.range 100001).map fun n => (fileName n, .file .regular), true, true, true, .active⟩

theorem crowded_stalls : (crowded.ahead.map Prod.fst).Nodup ∧
    ∀ chunk accounting, ¬ Progresses chunk accounting crowded := by
  constructor
  · have hnames : crowded.ahead.map Prod.fst = (List.range 100001).map fileName := by
      rw [crowded, List.map_map]
      rfl
    rw [hnames]
    refine List.Nodup.map_on (fun n hn m hm heq => ?_) List.nodup_range
    rw [List.mem_range] at hn hm
    exact fileName_inj (by omega) (by omega) heq
  · intro chunk accounting h
    obtain ⟨n, hterminal, -⟩ := h.completes
    have hstate : crowded.state ≠ .terminal := by simp [crowded]
    refine @passes_of_cut chunk accounting crowded hstate (fun hfits => ?_) n hterminal
    have hcount := hfits.count
    have hfiles : countEntries crowded.ahead = 100001 := by
      unfold crowded
      rw [countEntries_files, List.length_range]
    rw [hfiles, maxCleanupEntries] at hcount
    omega

end AutoDeploy.Quota
