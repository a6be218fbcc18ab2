import AutoDeploy.Lib.Bytes
import AutoDeploy.Lib.Table

namespace AutoDeploy.Lib

-- A directory: the files of given names. Only whole files are written, under a temporary name that is then given up
-- for the final one.
abbrev FileName := Bytes

abbrev Directory (α : Type) := Table FileName α

-- What ends a write early: an error the caller sees, or the end of the process.
inductive Fault
  | error
  | crash
deriving DecidableEq, Repr

-- A write that ends early has put the file in place or not, and may leave its temporary file behind.
inductive Outcome
  | done
  | stopped (fault : Fault) (renamed : Bool) (temporary : Option Nat)
deriving DecidableEq, Repr

def Outcome.renames : Outcome → Bool
  | .done => true
  | .stopped _ renamed _ => renamed

namespace Directory

variable {α : Type}

def temporarySuffix : FileName := Bytes.ofString ".tmp"

def temporaryName (stem : String) (n : Nat) : FileName := Bytes.ofString (stem ++ toString n) ++ temporarySuffix

def leave (dir : Directory α) (stem : String) (leftover : α) : Option Nat → Directory α
  | none => dir
  | some n => dir.put (temporaryName stem n) leftover

def write (o : Outcome) (dir : Directory α) (stem : String) (name : FileName) (file leftover : α) :
    Directory α × Except Fault Unit :=
  match o with
  | .done => (dir.put name file, .ok ())
  | .stopped fault renamed temporary =>
      (leave (if renamed then dir.put name file else dir) stem leftover temporary, .error fault)

theorem get?_leave {dir : Directory α} {stem : String} {leftover : α} {temporary : Option Nat} {x : FileName}
    (hx : ∀ n, x ≠ temporaryName stem n) : (dir.leave stem leftover temporary).get? x = dir.get? x := by
  cases temporary with
  | none => rfl
  | some n =>
      show (dir.put (temporaryName stem n) leftover).get? x = dir.get? x
      rw [Table.get?_put, if_neg (hx n)]

-- A write that goes through or not: under a name that is no temporary one, it puts the file in place or leaves it.
theorem get?_write (o : Outcome) (dir : Directory α) (stem : String) (name : FileName) (file leftover : α) {x : FileName}
    (hx : ∀ n, x ≠ temporaryName stem n) :
    (write o dir stem name file leftover).1.get? x =
      if x = name ∧ o.renames = true then some file else dir.get? x := by
  cases o with
  | done => simp [write, Outcome.renames, Table.get?_put]
  | stopped fault renamed temporary =>
      simp only [write, get?_leave hx, Outcome.renames]
      cases renamed with
      | false => simp
      | true => simp [Table.get?_put]

theorem write_eq_ok {o : Outcome} {dir dir' : Directory α} {stem : String} {name : FileName} {file leftover : α} :
    write o dir stem name file leftover = (dir', .ok ()) ↔ o = .done ∧ dir' = dir.put name file := by
  cases o with
  | done => simp [write, eq_comm]
  | stopped fault renamed temporary => simp [write]

-- A temporary file never has the suffix of another kind of file.
theorem temporaryName_ne {suffix x : FileName} (hsuffix : suffix <:+ x) (hne : ¬ suffix <:+ temporarySuffix)
    (hne' : ¬ temporarySuffix <:+ suffix) {stem : String} {n : Nat} : x ≠ temporaryName stem n := by
  rintro rfl
  rcases List.suffix_or_suffix_of_suffix hsuffix (List.suffix_append _ temporarySuffix) with h | h
  · exact hne h
  · exact hne' h

end Directory

namespace Bytes

variable {α β : Type}

-- A code no word of which begins another, and none of which is empty, can be read back.
theorem flatMap_injective {code : α → List β} (hne : ∀ a, code a ≠ [])
    (hcode : ∀ a b x y, code a ++ x = code b ++ y → a = b) : Function.Injective fun word : List α => word.flatMap code := by
  intro word
  induction word with
  | nil =>
      intro other h
      cases other with
      | nil => rfl
      | cons b other =>
          have hnil : code b ++ other.flatMap code = [] := h.symm
          exact absurd (List.append_eq_nil_iff.1 hnil).1 (hne b)
  | cons a word ih =>
      intro other h
      cases other with
      | nil =>
          have hnil : code a ++ word.flatMap code = [] := h
          exact absurd (List.append_eq_nil_iff.1 hnil).1 (hne a)
      | cons b other =>
          have hcons : code a ++ word.flatMap code = code b ++ other.flatMap code := h
          obtain rfl : a = b := hcode a b _ _ hcons
          rw [ih (List.append_cancel_left hcons)]

end Bytes

end AutoDeploy.Lib
