import AutoDeploy.Lib.Paths

namespace AutoDeploy.Lib

-- A file tree with symbolic links, and how a system call finds the way along a path.
namespace FileTree

open Paths

inductive Node where
  | directory
  | symlink (target : Bytes)
  | other
deriving DecidableEq, Repr

-- A place of the tree: the names from the root.
abbrev Location := List Bytes

-- Only directories have entries, and an entry has a name that is no step of another kind.
structure Tree where
  node : Location → Option Node
  root : node [] = some .directory
  parent : ∀ loc name, node (loc ++ [name]) ≠ none → node loc = some .directory
  named : ∀ loc, node loc ≠ none → ∀ name ∈ loc, Ordinary name ∧ slash ∉ name ∧ 0 ∉ name

-- A tree of finitely many entries.
def wellFormed (entries : List (Location × Node)) : Bool :=
  entries.lookup [] == some .directory && entries.all fun entry =>
    (entry.1 == [] || entries.lookup entry.1.dropLast == some .directory) &&
      entry.1.all fun name => decide (name ≠ [] ∧ name ≠ dot ∧ name ≠ dots ∧ slash ∉ name ∧ 0 ∉ name)

theorem mem_of_lookup_ne_none {entries : List (Location × Node)} {loc : Location} (h : entries.lookup loc ≠ none) :
    ∃ node, (loc, node) ∈ entries := by
  obtain ⟨node, hnode⟩ := Option.ne_none_iff_exists'.1 h
  obtain ⟨front, rest, rfl, -⟩ := List.lookup_eq_some_iff.1 hnode
  exact ⟨node, by simp⟩

def Tree.ofEntries (entries : List (Location × Node)) (h : wellFormed entries = true) : Tree where
  node := fun loc => entries.lookup loc
  root := beq_iff_eq.1 (Bool.and_eq_true_iff.1 h).1
  parent := by
    intro loc name hnode
    obtain ⟨node, hmem⟩ := mem_of_lookup_ne_none hnode
    have hentry := List.all_eq_true.1 (Bool.and_eq_true_iff.1 h).2 _ hmem
    have hparent := (Bool.and_eq_true_iff.1 hentry).1
    rw [Bool.or_eq_true, beq_iff_eq, beq_iff_eq, List.dropLast_concat] at hparent
    exact hparent.resolve_left (by simp)
  named := by
    intro loc hnode name hname
    obtain ⟨node, hmem⟩ := mem_of_lookup_ne_none hnode
    have hentry := List.all_eq_true.1 (Bool.and_eq_true_iff.1 h).2 _ hmem
    obtain ⟨h₁, h₂, h₃, h₄, h₅⟩ := of_decide_eq_true (List.all_eq_true.1 (Bool.and_eq_true_iff.1 hentry).2 name hname)
    exact ⟨⟨h₁, h₂, h₃⟩, h₄, h₅⟩

-- The most links that one call follows.
def maxLinks : Nat := 40

def rooted (path : Bytes) : Bool := decide (path.head? = some slash)

section

variable (tree : Tree)

-- Along the parts up to the first link; from there on the way is the jump's.
def walkWith (jump : Location → List Bytes → Option (Location × Nat)) (links : Nat) :
    Location → List Bytes → Option (Location × Nat)
  | loc, [] => some (loc, links)
  | loc, part :: rest =>
      if part = [] ∨ part = dot then walkWith jump links loc rest
      else if part = dots then walkWith jump links loc.dropLast rest
      else
        match tree.node (loc ++ [part]) with
        | none => none
        | some .directory => walkWith jump links (loc ++ [part]) rest
        | some (.symlink target) => jump (if rooted target then [] else loc) (segments target ++ rest)
        | some .other => if rest = [] then some (loc ++ [part], links) else none

-- Where the parts lead from a directory, and how many more links may be followed then.
def follow : Nat → Location → List Bytes → Option (Location × Nat)
  | 0 => walkWith tree (fun _ _ => none) 0
  | links + 1 => walkWith tree (follow links) (links + 1)

-- What stands at a clean absolute path. A link in the last place is not followed.
def lstat (parts : List Bytes) : Option (Location × Node) :=
  match parts.getLast? with
  | none => some ([], .directory)
  | some name =>
      match follow tree maxLinks [] parts.dropLast with
      | none => none
      | some (loc, _) => (tree.node (loc ++ [name])).map fun node => (loc ++ [name], node)

-- From a directory down through directories to something that is neither a directory nor a link.
def PlainFile : Location → List Bytes → Prop
  | _, [] => False
  | loc, [name] => tree.node (loc ++ [name]) = some .other
  | loc, name :: next :: rest =>
      tree.node (loc ++ [name]) = some .directory ∧ PlainFile (loc ++ [name]) (next :: rest)

end

-- The way along the parts, one step after the other, with the links that are left at its end.
inductive Reaches (tree : Tree) : Nat → Location → List Bytes → Location → Nat → Prop
  | done (links : Nat) (loc : Location) : Reaches tree links loc [] loc links
  | stay {links k : Nat} {loc l : Location} {part : Bytes} {rest : List Bytes} (hpart : part = [] ∨ part = dot)
      (h : Reaches tree links loc rest l k) : Reaches tree links loc (part :: rest) l k
  | up {links k : Nat} {loc l : Location} {rest : List Bytes} (h : Reaches tree links loc.dropLast rest l k) :
      Reaches tree links loc (dots :: rest) l k
  | down {links k : Nat} {loc l : Location} {part : Bytes} {rest : List Bytes} (hpart : Ordinary part)
      (hnode : tree.node (loc ++ [part]) = some .directory) (h : Reaches tree links (loc ++ [part]) rest l k) :
      Reaches tree links loc (part :: rest) l k
  | link {links k : Nat} {loc l : Location} {part target : Bytes} {rest : List Bytes} (hpart : Ordinary part)
      (hnode : tree.node (loc ++ [part]) = some (.symlink target))
      (h : Reaches tree links (if rooted target then [] else loc) (segments target ++ rest) l k) :
      Reaches tree (links + 1) loc (part :: rest) l k
  | file {links : Nat} {loc : Location} {part : Bytes} (hpart : Ordinary part)
      (hnode : tree.node (loc ++ [part]) = some .other) : Reaches tree links loc [part] (loc ++ [part]) links

section

variable {tree : Tree}

theorem follow_of_reaches {links k : Nat} {loc l : Location} {parts : List Bytes}
    (h : Reaches tree links loc parts l k) : follow tree links loc parts = some (l, k) := by
  have heq (links : Nat) : ∃ jump, follow tree links = walkWith tree jump links := by
    cases links with
    | zero => exact ⟨_, rfl⟩
    | succ links => exact ⟨_, rfl⟩
  induction h with
  | done links loc =>
      obtain ⟨jump, hjump⟩ := heq links
      rw [hjump]
      rfl
  | @stay links k loc l part rest hpart h ih =>
      obtain ⟨jump, hjump⟩ := heq links
      rw [hjump] at ih ⊢
      rw [walkWith, if_pos hpart, ih]
  | @up links k loc l rest h ih =>
      obtain ⟨jump, hjump⟩ := heq links
      rw [hjump] at ih ⊢
      rw [walkWith, if_neg (by decide), if_pos rfl, ih]
  | @down links k loc l part rest hpart hnode h ih =>
      obtain ⟨jump, hjump⟩ := heq links
      rw [hjump] at ih ⊢
      rw [walkWith, if_neg (not_or.2 ⟨hpart.1, hpart.2.1⟩), if_neg hpart.2.2, hnode]
      exact ih
  | link hpart hnode h ih =>
      rw [follow, walkWith, if_neg (not_or.2 ⟨hpart.1, hpart.2.1⟩), if_neg hpart.2.2, hnode]
      exact ih
  | @file links loc part hpart hnode =>
      obtain ⟨jump, hjump⟩ := heq links
      rw [hjump, walkWith, if_neg (not_or.2 ⟨hpart.1, hpart.2.1⟩), if_neg hpart.2.2, hnode]
      rfl

-- The outer induction is on the links that may still be followed, the inner one on the parts.
theorem reaches_of_walkWith {jump : Location → List Bytes → Option (Location × Nat)} {links k : Nat}
    (hjump : ∀ loc parts l k, jump loc parts = some (l, k) →
      ∃ fewer, links = fewer + 1 ∧ Reaches tree fewer loc parts l k)
    {loc l : Location} {parts : List Bytes} (h : walkWith tree jump links loc parts = some (l, k)) :
    Reaches tree links loc parts l k := by
  induction parts generalizing loc with
  | nil =>
      obtain ⟨rfl, rfl⟩ := Prod.mk.inj (Option.some.inj h)
      exact .done _ _
  | cons part rest ih =>
      rw [walkWith] at h
      split at h
      · rename_i hstay
        exact .stay hstay (ih h)
      · rename_i hstay
        split at h
        · rename_i hup
          rw [hup]
          exact .up (ih h)
        · rename_i hup
          have hpart : Ordinary part := ⟨fun hnil => hstay (.inl hnil), fun hdot => hstay (.inr hdot), hup⟩
          split at h
          · cases h
          · rename_i hnode
            exact .down hpart hnode (ih h)
          · rename_i target hnode
            obtain ⟨fewer, rfl, hreaches⟩ := hjump _ _ _ _ h
            exact .link hpart hnode hreaches
          · rename_i hnode
            split at h
            · rename_i hrest
              obtain ⟨rfl, rfl⟩ := Prod.mk.inj (Option.some.inj h)
              rw [hrest]
              exact .file hpart hnode
            · cases h

theorem reaches_iff {links k : Nat} {loc l : Location} {parts : List Bytes} :
    Reaches tree links loc parts l k ↔ follow tree links loc parts = some (l, k) := by
  refine ⟨follow_of_reaches, fun h => ?_⟩
  induction links generalizing loc l k parts with
  | zero => exact reaches_of_walkWith (fun _ _ _ _ hjump => by cases hjump) h
  | succ links ih => exact reaches_of_walkWith (fun _ _ _ _ hjump => ⟨links, rfl, ih hjump⟩) h

-- The same parts lead to the same place.
theorem Reaches.unique {links k k' : Nat} {loc l l' : Location} {parts : List Bytes}
    (h : Reaches tree links loc parts l k) (h' : Reaches tree links loc parts l' k') : l = l' ∧ k = k' := by
  rw [reaches_iff] at h h'
  rw [h] at h'
  exact Prod.mk.inj (Option.some.inj h')

-- From a directory the rest of the way is found as from the start.
theorem Reaches.append {links k k' : Nat} {loc l l' : Location} {xs ys : List Bytes}
    (h : Reaches tree links loc xs l k) (hl : tree.node l = some .directory) (h' : Reaches tree k l ys l' k') :
    Reaches tree links loc (xs ++ ys) l' k' := by
  induction h with
  | done links loc => exact h'
  | stay hpart h ih => exact .stay hpart (ih hl h')
  | up h ih => exact .up (ih hl h')
  | down hpart hnode h ih => exact .down hpart hnode (ih hl h')
  | link hpart hnode h ih =>
      have hrest := ih hl h'
      rw [List.append_assoc] at hrest
      exact .link hpart hnode hrest
  | file hpart hnode =>
      rw [hnode] at hl
      cases hl

theorem Reaches.split {links k : Nat} {loc l : Location} {xs ys : List Bytes}
    (h : Reaches tree links loc (xs ++ ys) l k) :
    ∃ l' k', Reaches tree links loc xs l' k' ∧ Reaches tree k' l' ys l k := by
  generalize hparts : xs ++ ys = parts at h
  induction h generalizing xs with
  | done links loc =>
      obtain ⟨rfl, rfl⟩ := List.append_eq_nil_iff.1 hparts
      exact ⟨loc, links, .done _ _, .done _ _⟩
  | @stay links k loc l part rest hpart h ih =>
      cases xs with
      | nil =>
          obtain rfl : ys = part :: rest := hparts
          exact ⟨loc, links, .done _ _, .stay hpart h⟩
      | cons x xs =>
          obtain ⟨rfl, hrest⟩ := List.cons.inj hparts
          obtain ⟨l', k', hfirst, hsecond⟩ := ih hrest
          exact ⟨l', k', .stay hpart hfirst, hsecond⟩
  | @up links k loc l rest h ih =>
      cases xs with
      | nil =>
          obtain rfl : ys = dots :: rest := hparts
          exact ⟨loc, links, .done _ _, .up h⟩
      | cons x xs =>
          obtain ⟨rfl, hrest⟩ := List.cons.inj hparts
          obtain ⟨l', k', hfirst, hsecond⟩ := ih hrest
          exact ⟨l', k', .up hfirst, hsecond⟩
  | @down links k loc l part rest hpart hnode h ih =>
      cases xs with
      | nil =>
          obtain rfl : ys = part :: rest := hparts
          exact ⟨loc, links, .done _ _, .down hpart hnode h⟩
      | cons x xs =>
          obtain ⟨rfl, hrest⟩ := List.cons.inj hparts
          obtain ⟨l', k', hfirst, hsecond⟩ := ih hrest
          exact ⟨l', k', .down hpart hnode hfirst, hsecond⟩
  | @link links k loc l part target rest hpart hnode h ih =>
      cases xs with
      | nil =>
          obtain rfl : ys = part :: rest := hparts
          exact ⟨loc, links + 1, .done _ _, .link hpart hnode h⟩
      | cons x xs =>
          obtain ⟨rfl, hrest⟩ := List.cons.inj hparts
          have hmore : (segments target ++ xs) ++ ys = segments target ++ rest := by
            rw [List.append_assoc]
            exact congrArg (segments target ++ ·) hrest
          obtain ⟨l', k', hfirst, hsecond⟩ := ih hmore
          exact ⟨l', k', .link hpart hnode hfirst, hsecond⟩
  | @file links loc part hpart hnode =>
      cases xs with
      | nil =>
          obtain rfl : ys = [part] := hparts
          exact ⟨loc, links, .done _ _, .file hpart hnode⟩
      | cons x xs =>
          obtain ⟨rfl, hrest⟩ := List.cons.inj hparts
          obtain ⟨rfl, rfl⟩ := List.append_eq_nil_iff.1 hrest
          exact ⟨_, _, .file hpart hnode, .done _ _⟩

-- Links that are left over stay left over.
theorem Reaches.more {links k : Nat} {loc l : Location} {parts : List Bytes} (h : Reaches tree links loc parts l k)
    (more : Nat) : Reaches tree (links + more) loc parts l (k + more) := by
  induction h with
  | done links loc => exact .done _ _
  | stay hpart h ih => exact .stay hpart ih
  | up h ih => exact .up ih
  | down hpart hnode h ih => exact .down hpart hnode ih
  | link hpart hnode h ih =>
      rw [Nat.add_right_comm]
      exact .link hpart hnode ih
  | file hpart hnode => exact .file hpart hnode

theorem Reaches.links_le {links k : Nat} {loc l : Location} {parts : List Bytes} (h : Reaches tree links loc parts l k) :
    k ≤ links := by
  induction h with
  | done links loc => exact le_refl _
  | stay hpart h ih => exact ih
  | up h ih => exact ih
  | down hpart hnode h ih => exact ih
  | link hpart hnode h ih => omega
  | file hpart hnode => exact le_refl _

theorem moves_eq_cons {part : Bytes} {ys moved : List Bytes} (h : moves ys = part :: moved) :
    ∃ stays rest, ys = stays ++ part :: rest ∧ (∀ s ∈ stays, s = [] ∨ s = dot) ∧ moves rest = moved := by
  obtain ⟨stays, rest, rfl, hstays, -, hrest⟩ := List.filter_eq_cons_iff.1 h
  refine ⟨stays, rest, rfl, fun s hs => ?_, hrest⟩
  have hstay := hstays s hs
  rw [decide_eq_true_eq] at hstay
  by_contra hmove
  exact hstay (not_or.1 hmove)

theorem Reaches.stays {links k : Nat} {loc l : Location} {stays rest : List Bytes} (hstays : ∀ s ∈ stays, s = [] ∨ s = dot)
    (h : Reaches tree links loc rest l k) : Reaches tree links loc (stays ++ rest) l k := by
  induction stays with
  | nil => exact h
  | cons s stays ih =>
      exact .stay (hstays s List.mem_cons_self) (ih fun t ht => hstays t (List.mem_cons_of_mem _ ht))

-- Parts that stay in place may be put in and left out on the way to a directory.
theorem Reaches.congr {links k : Nat} {loc l : Location} {xs ys : List Bytes} (h : Reaches tree links loc xs l k)
    (hl : tree.node l = some .directory) (hmoves : moves ys = moves xs) : Reaches tree links loc ys l k := by
  induction h generalizing ys with
  | done links loc =>
      have hstays : ∀ s ∈ ys, s = [] ∨ s = dot := by
        intro s hs
        by_contra hmove
        have hmem : s ∈ moves ys := List.mem_filter.2 ⟨hs, decide_eq_true (not_or.1 hmove)⟩
        rw [hmoves] at hmem
        cases hmem
      rw [← List.append_nil ys]
      exact .stays hstays (.done _ _)
  | stay hpart h ih =>
      rw [moves_stay hpart] at hmoves
      exact ih hl hmoves
  | up h ih =>
      rw [moves_move (by decide) (by decide)] at hmoves
      obtain ⟨stays, rest', rfl, hstays, hrest⟩ := moves_eq_cons hmoves
      exact .stays hstays (.up (ih hl hrest))
  | down hpart hnode h ih =>
      rw [moves_move hpart.1 hpart.2.1] at hmoves
      obtain ⟨stays, rest', rfl, hstays, hrest⟩ := moves_eq_cons hmoves
      exact .stays hstays (.down hpart hnode (ih hl hrest))
  | link hpart hnode h ih =>
      rw [moves_move hpart.1 hpart.2.1] at hmoves
      obtain ⟨stays, rest', rfl, hstays, hrest⟩ := moves_eq_cons hmoves
      refine .stays hstays (.link hpart hnode (ih hl ?_))
      rw [moves_append, moves_append, hrest]
  | file hpart hnode =>
      rw [hnode] at hl
      cases hl

end

end FileTree

end AutoDeploy.Lib
