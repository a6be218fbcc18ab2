import Mathlib.Data.List.Basic

namespace AutoDeploy.Quota

-- Removing what a checkout left in its workspace. All of it lies on the workspace's own device.

def maxCleanupEntries : Nat := 100000

def maxCleanupDepth : Nat := 64

-- How many names a read asks for.
def readDirCount : Nat := 256

def validCleanupName (name : List UInt8) : Bool :=
  name ≠ [] && name ≠ [46] && name ≠ [46, 46] && name.length ≤ 255 && name.all fun c => c ≠ 47 && c ≠ 0

-- What a file system lets an entry be called. The two entries every directory has are not listed.
structure FileName where
  bytes : List UInt8
  nonempty : bytes ≠ []
  notSelf : bytes ≠ [46]
  notParent : bytes ≠ [46, 46]
  short : bytes.length ≤ 255
  plain : ∀ c ∈ bytes, c ≠ 47 ∧ c ≠ 0

inductive Kind where
  | regular
  | symlink
  | fifo
  | socket
  | charDevice
  | blockDevice

inductive Node where
  | file (kind : Kind)
  | dir (entries : List (FileName × Node))

abbrev Entry := FileName × Node

mutual

-- The entries below a node.
def Node.count : Node → Nat
  | .file _ => 0
  | .dir entries => countEntries entries

def countEntries : List (FileName × Node) → Nat
  | [] => 0
  | entry :: rest => countEntry entry + countEntries rest

def countEntry : FileName × Node → Nat
  | (_, node) => node.count + 1

end

mutual

-- How many directories are nested in each other.
def Node.height : Node → Nat
  | .file _ => 0
  | .dir entries => heightEntries entries + 1

def heightEntries : List (FileName × Node) → Nat
  | [] => 0
  | entry :: rest => max (heightEntry entry) (heightEntries rest)

def heightEntry : FileName × Node → Nat
  | (_, node) => node.height

end

@[simp] theorem countEntries_append (a b : List Entry) : countEntries (a ++ b) = countEntries a + countEntries b := by
  induction a with
  | nil => simp [countEntries]
  | cons entry rest ih =>
      simp only [List.cons_append, countEntries, ih]
      omega

@[simp] theorem heightEntries_append (a b : List Entry) :
    heightEntries (a ++ b) = max (heightEntries a) (heightEntries b) := by
  induction a with
  | nil => simp [heightEntries]
  | cons entry rest ih => simp only [List.cons_append, heightEntries, ih, Nat.max_assoc]

-- The kernel hands out a directory in blocks from the position of the open descriptor on; `chunk` is how many more
-- entries than the next one fit into a block. `ReadDir` returns names from the last block and fetches another one when
-- it has used that up. What it gives back: the names, what is left of the block, and what the position has not reached.
def readDir (chunk : List Entry → Nat) : Nat → List Entry → List Entry → List Entry × List Entry × List Entry
  | 0, block, ahead => ([], block, ahead)
  | n + 1, entry :: block, ahead =>
      let (names, block, ahead) := readDir chunk n block ahead
      (entry :: names, block, ahead)
  | _ + 1, [], [] => ([], [], [])
  | n + 1, [], entry :: ahead =>
      let size := chunk (entry :: ahead)
      let (names, block, ahead) := readDir chunk n (ahead.take size) (ahead.drop size)
      (entry :: names, block, ahead)

theorem readDir_append (chunk : List Entry → Nat) (n : Nat) (block ahead : List Entry) :
    (readDir chunk n block ahead).1 ++ ((readDir chunk n block ahead).2.1 ++ (readDir chunk n block ahead).2.2) =
      block ++ ahead := by
  induction n generalizing block ahead with
  | zero => rfl
  | succ n ih =>
      cases block with
      | cons entry block =>
          simp only [readDir, List.cons_append]
          rw [ih block ahead]
      | nil =>
          cases ahead with
          | nil => rfl
          | cons entry ahead =>
              simp only [readDir, List.cons_append, List.nil_append]
              rw [ih, List.take_append_drop]

-- Reading returns nothing only at the end.
theorem readDir_eq_nil {chunk : List Entry → Nat} {n : Nat} {block ahead : List Entry}
    (h : (readDir chunk (n + 1) block ahead).1 = []) : block = [] ∧ ahead = [] := by
  cases block with
  | cons entry block => cases h
  | nil =>
      cases ahead with
      | cons entry ahead => cases h
      | nil => exact ⟨rfl, rfl⟩

inductive Outcome where
  | done
  | retryable
  | denied
deriving DecidableEq, Repr

-- How a walk through a directory ended: how many entries have been counted, what the position has passed and is still
-- there, and what the position has not reached.
structure Walked where
  outcome : Outcome
  entries : Nat
  passed : List Entry
  ahead : List Entry

-- The walk, from the names that a read has returned on. A directory is removed after a walk through a descriptor
-- of its own, which starts at its first entry.
def walk (chunk : List Entry → Nat) (depth : Nat) (names block ahead : List Entry) (entries : Nat) : Walked :=
  match names with
  | [] =>
      match _ : readDir chunk readDirCount block ahead with
      | ([], block', ahead') => ⟨.done, entries, block', ahead'⟩
      | (entry :: names, block', ahead') => walk chunk depth (entry :: names) block' ahead' entries
  | (name, node) :: rest =>
      let entries := entries + 1
      if maxCleanupEntries < entries then ⟨.retryable, entries, (name, node) :: rest ++ block, ahead⟩
      else if validCleanupName name.bytes = false then ⟨.denied, entries, (name, node) :: rest ++ block, ahead⟩
      else
        match node with
        | .file _ => walk chunk depth rest block ahead entries
        | .dir children =>
            if maxCleanupDepth < depth + 1 then
              ⟨.retryable, entries, (name, .dir children) :: rest ++ block, ahead⟩
            else
              let inner := walk chunk (depth + 1) [] [] children entries
              match inner.outcome with
              | .done =>
                  if (inner.passed ++ inner.ahead).isEmpty then walk chunk depth rest block ahead inner.entries
                  else ⟨.denied, inner.entries, (name, .dir (inner.passed ++ inner.ahead)) :: rest ++ block, ahead⟩
              | outcome =>
                  ⟨outcome, inner.entries, (name, .dir (inner.passed ++ inner.ahead)) :: rest ++ block, ahead⟩
termination_by (countEntries names + countEntries block + countEntries ahead, if names = [] then 1 else 0)
decreasing_by
  · rename_i hread
    have happend := readDir_append chunk readDirCount block ahead
    rw [hread] at happend
    have hcount := congrArg countEntries happend
    simp only [countEntries_append] at hcount
    simp only [countEntries, Prod.lex_def, if_false, if_true] at hcount ⊢
    omega
  · simp only [countEntries, countEntry, Prod.lex_def]
    omega
  · simp only [countEntries, countEntry, Node.count, Prod.lex_def]
    omega
  · simp only [countEntries, countEntry, Prod.lex_def]
    omega

def removeWorkspaceContents (chunk : List Entry → Nat) (ahead : List Entry) : Walked := walk chunk 0 [] [] ahead 0

-- The state of an allocation that has been active. Afterwards only its terminal record is left.
inductive Retiring where
  | active
  | releasing
  | terminal
deriving DecidableEq, Repr

-- A workspace with the read position that the agent's descriptor and the ones passed to the helper share.
structure Workspace where
  passed : List Entry
  ahead : List Entry
  projectSet : Bool
  limitsSet : Bool
  linked : Bool
  state : Retiring

def Workspace.contents (w : Workspace) : List Entry := w.passed ++ w.ahead

-- The blocks and inodes that the kernel charges to the project for what is in the workspace.
structure Accounting where
  usage : List Entry → Nat × Nat
  empty : usage [] = (0, 0)

-- One name from a new file on the same position. The block it was read with is passed over.
def emptyDir (chunk : List Entry → Nat) (w : Workspace) : Bool × Workspace :=
  let (names, block, ahead) := readDir chunk 1 [] w.ahead
  (names.isEmpty, { w with passed := w.passed ++ (names ++ block), ahead := ahead })

inductive ReleaseResult where
  | success
  | completed
  | denied
  | retryable
  | unavailable
deriving DecidableEq, Repr

-- A release is complete when it has just retired the workspace or finds that done.
def ReleaseResult.complete : ReleaseResult → Bool
  | .success | .completed => true
  | _ => false

-- The workspace when the walk of a pass has ended.
def Workspace.walked (chunk : List Entry → Nat) (w : Workspace) : Workspace :=
  { w with
    passed := w.passed ++ (removeWorkspaceContents chunk w.ahead).passed
    ahead := (removeWorkspaceContents chunk w.ahead).ahead }

-- The descriptor, the record and the mount have been checked and no call fails: a directory that is not empty is still
-- not removed.
def cleanupLocked (chunk : List Entry → Nat) (accounting : Accounting) (w : Workspace) : ReleaseResult × Workspace :=
  match (removeWorkspaceContents chunk w.ahead).outcome with
  | .retryable => (.retryable, w.walked chunk)
  | .denied => (.denied, w.walked chunk)
  | .done =>
      let (empty, w) := emptyDir chunk (w.walked chunk)
      if empty = false then (.retryable, w)
      else
        let w := { w with projectSet := false }
        if accounting.usage w.contents ≠ (0, 0) then (.retryable, w)
        else
          let w := { w with limitsSet := false }
          if w.contents.isEmpty = false then (.unavailable, w)
          else (.success, { w with linked := false, state := .terminal })

-- Release with the workspace's own descriptor and handle.
def release (chunk : List Entry → Nat) (accounting : Accounting) (w : Workspace) : ReleaseResult × Workspace :=
  if w.state = .terminal then (.completed, w)
  else cleanupLocked chunk accounting { w with state := .releasing }

def passes (chunk : List Entry → Nat) (accounting : Accounting) (w : Workspace) : Nat → Workspace
  | 0 => w
  | n + 1 => (release chunk accounting (passes chunk accounting w n)).2

end AutoDeploy.Quota
