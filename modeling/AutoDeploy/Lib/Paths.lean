import AutoDeploy.Lib.Bytes

namespace AutoDeploy.Lib

-- Slash-separated paths as they are read and cleaned without looking at any file.
namespace Paths

def slash : UInt8 := 47

def dot : Bytes := [46]

def dots : Bytes := [46, 46]

-- A part that is a name, and no step of another kind.
def Ordinary (part : Bytes) : Prop := part ≠ [] ∧ part ≠ dot ∧ part ≠ dots

-- The parts between slashes: always at least one.
def segments (s : Bytes) : List Bytes := s.splitOn slash

-- A path by its parts, without empty ones and dots, and with double dots at the front of a relative path only.
structure Path where
  rooted : Bool
  parts : List Bytes
deriving DecidableEq, Repr

namespace Path

def child (p : Path) (part : Bytes) : Path := ⟨p.rooted, p.parts ++ [part]⟩

-- The root is its own parent; above a relative path there is only another step up.
def parent (p : Path) : Path :=
  match p.parts.getLast? with
  | none => if p.rooted then p else p.child dots
  | some part => if part = dots then p.child dots else ⟨p.rooted, p.parts.dropLast⟩

def enter (p : Path) (part : Bytes) : Path :=
  if part = [] ∨ part = dot then p
  else if part = dots then p.parent
  else p.child part

def walk (p : Path) (parts : List Bytes) : Path := parts.foldl enter p

end Path

def clean (s : Bytes) : Path := Path.walk ⟨decide (s.head? = some slash), []⟩ (segments s)

-- Empty elements are ignored.
def join (dir name : Bytes) : Path := if dir = [] then clean name else clean (dir ++ slash :: name)

-- One step after the other: stay, go up or go down.
inductive Leads : Path → List Bytes → Path → Prop
  | done (p : Path) : Leads p [] p
  | stay {p q : Path} {part : Bytes} {parts : List Bytes} (hpart : part = [] ∨ part = dot) (h : Leads p parts q) :
      Leads p (part :: parts) q
  | up {p q : Path} {parts : List Bytes} (h : Leads p.parent parts q) : Leads p (dots :: parts) q
  | down {p q : Path} {part : Bytes} {parts : List Bytes} (hne : part ≠ []) (hdot : part ≠ dot) (hdots : part ≠ dots)
      (h : Leads (p.child part) parts q) : Leads p (part :: parts) q

theorem enter_of_ordinary {p : Path} {part : Bytes} (hne : part ≠ []) (hdot : part ≠ dot) (hdots : part ≠ dots) :
    p.enter part = p.child part := by
  rw [Path.enter, if_neg (not_or.2 ⟨hne, hdot⟩), if_neg hdots]

theorem leads_iff {p q : Path} {parts : List Bytes} : Leads p parts q ↔ p.walk parts = q := by
  constructor
  · intro h
    induction h with
    | done p => rfl
    | stay hpart h ih => rwa [Path.walk, List.foldl_cons, Path.enter, if_pos hpart]
    | up h ih => rwa [Path.walk, List.foldl_cons, Path.enter, if_neg (by decide), if_pos rfl]
    | down hne hdot hdots h ih => rwa [Path.walk, List.foldl_cons, enter_of_ordinary hne hdot hdots]
  · intro h
    induction parts generalizing p with
    | nil =>
        have hsame : p = q := h
        rw [hsame]
        exact .done q
    | cons part parts ih =>
        rw [Path.walk, List.foldl_cons] at h
        by_cases hstay : part = [] ∨ part = dot
        · rw [Path.enter, if_pos hstay] at h
          exact .stay hstay (ih h)
        · by_cases hdots : part = dots
          · subst hdots
            rw [Path.enter, if_neg hstay, if_pos rfl] at h
            exact .up (ih h)
          · obtain ⟨hne, hdot⟩ := not_or.1 hstay
            rw [enter_of_ordinary hne hdot hdots] at h
            exact .down hne hdot hdots (ih h)

theorem walk_append (p : Path) (xs ys : List Bytes) : p.walk (xs ++ ys) = (p.walk xs).walk ys := List.foldl_append

theorem child_injective {p q : Path} {x y : Bytes} (h : p.child x = q.child y) : p = q ∧ x = y := by
  obtain ⟨rooted, parts⟩ := p
  obtain ⟨rooted', parts'⟩ := q
  simp only [Path.child, Path.mk.injEq] at h
  obtain ⟨rfl, hparts⟩ := h
  obtain ⟨rfl, hlast⟩ := List.append_inj' hparts rfl
  exact ⟨rfl, List.singleton_inj.1 hlast⟩

theorem segments_ne_nil (s : Bytes) : segments s ≠ [] := List.splitOn_ne_nil slash s

theorem segments_cons_ne {b : UInt8} (hb : b ≠ slash) {rest part : Bytes} {parts : List Bytes}
    (h : segments rest = part :: parts) : segments (b :: rest) = (b :: part) :: parts := by
  unfold segments at h ⊢
  rw [List.splitOn_cons_eq_if_modifyHead, if_neg (by simpa using hb), h, List.modifyHead_cons]

theorem segments_slash (rest : Bytes) : segments (slash :: rest) = [] :: segments rest := by
  unfold segments
  rw [List.splitOn_cons_eq_if_modifyHead, if_pos (by simp)]

theorem segments_of_notMem {x : Bytes} (hx : slash ∉ x) : segments x = [x] := List.splitOn_eq_singleton hx

-- A text without slashes belongs to the last part of what it stands behind.
theorem segments_behind {x : Bytes} (hx : slash ∉ x) {s part : Bytes} {parts : List Bytes}
    (h : segments s = parts ++ [part]) : segments (s ++ x) = parts ++ [part ++ x] := by
  induction s generalizing parts part with
  | nil =>
      have hone : parts ++ [part] = [] ++ [[]] := h.symm
      obtain ⟨rfl, hpart⟩ := List.append_inj' hone rfl
      obtain rfl := List.singleton_inj.1 hpart
      simpa using segments_of_notMem hx
  | cons b s ih =>
      by_cases hb : b = slash
      · subst hb
        rw [segments_slash] at h
        cases parts with
        | nil =>
            have hnil : segments s = [] := (List.cons.inj h).2
            exact absurd hnil (segments_ne_nil s)
        | cons first parts =>
            obtain ⟨rfl, hrest⟩ := List.cons.inj h
            rw [List.cons_append, segments_slash, ih hrest, List.cons_append]
      · obtain ⟨first, rest, hs⟩ := List.exists_cons_of_ne_nil (segments_ne_nil s)
        rw [segments_cons_ne hb hs] at h
        cases parts with
        | nil =>
            obtain ⟨rfl, rfl⟩ := List.cons.inj h
            have hone := ih (show segments s = [] ++ [first] from hs)
            rw [List.cons_append, segments_cons_ne hb hone]
            rfl
        | cons first' parts =>
            obtain ⟨rfl, hrest⟩ := List.cons.inj h
            have hlast : segments s = (first :: parts) ++ [part] := by
              rw [hs, hrest]
              rfl
            have hmore := ih hlast
            rw [List.cons_append, segments_cons_ne hb hmore]
            rfl

-- Joining walks on from the cleaned directory.
theorem join_eq_walk {dir : Bytes} (hdir : dir ≠ []) (name : Bytes) :
    join dir name = (clean dir).walk (segments name) := by
  obtain ⟨b, rest, rfl⟩ := List.exists_cons_of_ne_nil hdir
  rw [join, if_neg hdir, clean, segments, List.splitOn_append_cons_self, walk_append]
  rfl

-- A name without slashes is the child of that name.
theorem join_name {dir name : Bytes} (hdir : dir ≠ []) (hslash : slash ∉ name) (hlength : 2 < name.length) :
    join dir name = (clean dir).child name := by
  rw [join_eq_walk hdir, segments_of_notMem hslash]
  refine enter_of_ordinary ?_ ?_ ?_
  · rintro rfl
    exact absurd hlength (by decide)
  · rintro rfl
    exact absurd hlength (by decide)
  · rintro rfl
    exact absurd hlength (by decide)

-- The parts that lead somewhere else.
def moves (parts : List Bytes) : List Bytes := parts.filter fun part => decide (part ≠ [] ∧ part ≠ dot)

theorem moves_stay {part : Bytes} (h : part = [] ∨ part = dot) (rest : List Bytes) :
    moves (part :: rest) = moves rest := by
  refine List.filter_cons_of_neg ?_
  rw [decide_eq_true_eq]
  rintro ⟨hne, hdot⟩
  exact h.elim hne hdot

theorem moves_move {part : Bytes} (hne : part ≠ []) (hdot : part ≠ dot) (rest : List Bytes) :
    moves (part :: rest) = part :: moves rest := List.filter_cons_of_pos (decide_eq_true ⟨hne, hdot⟩)

theorem moves_append (xs ys : List Bytes) : moves (xs ++ ys) = moves xs ++ moves ys := List.filter_append ..

theorem rooted_enter (p : Path) (part : Bytes) : (p.enter part).rooted = p.rooted := by
  unfold Path.enter Path.parent
  split
  · rfl
  · split
    · split
      · split
        · rfl
        · rfl
      · split
        · rfl
        · rfl
    · rfl

theorem rooted_walk (p : Path) (parts : List Bytes) : (p.walk parts).rooted = p.rooted := by
  induction parts generalizing p with
  | nil => rfl
  | cons part parts ih =>
      rw [Path.walk, List.foldl_cons]
      exact (ih (p.enter part)).trans (rooted_enter p part)

-- Steps up first, and none of them from the root; then names.
def Tidy (p : Path) : Prop :=
  ∃ ups names, p.parts = List.replicate ups dots ++ names ∧ (∀ name ∈ names, Ordinary name) ∧ (p.rooted = true → ups = 0)

theorem Tidy.child {p : Path} (h : Tidy p) {part : Bytes} (hpart : Ordinary part) : Tidy (p.child part) := by
  obtain ⟨ups, names, hparts, hnames, hrooted⟩ := h
  refine ⟨ups, names ++ [part], ?_, ?_, hrooted⟩
  · rw [Path.child, hparts, List.append_assoc]
  · intro name hname
    rcases List.mem_append.1 hname with hname | hname
    · exact hnames name hname
    · rw [List.mem_singleton.1 hname]
      exact hpart

theorem Tidy.parent {p : Path} (h : Tidy p) : Tidy p.parent := by
  obtain ⟨ups, names, hparts, hnames, hrooted⟩ := h
  rcases List.eq_nil_or_concat names with rfl | ⟨front, last, rfl⟩
  · rw [List.append_nil] at hparts
    cases ups with
    | zero =>
        have hnone : p.parts.getLast? = none := by
          rw [hparts]
          rfl
        rw [Path.parent, hnone]
        by_cases hroot : p.rooted = true
        · simp only [hroot, if_true]
          exact ⟨0, [], hparts, hnames, fun _ => rfl⟩
        · simp only [hroot, Bool.false_eq_true, if_false]
          refine ⟨1, [], ?_, hnames, fun h => absurd h hroot⟩
          rw [Path.child, hparts]
          rfl
    | succ ups =>
        have hlast : p.parts.getLast? = some dots := by
          rw [hparts, List.replicate_succ', List.getLast?_concat]
        rw [Path.parent, hlast]
        simp only [if_true]
        refine ⟨ups + 2, [], ?_, hnames, fun h => ?_⟩
        · rw [List.append_nil, Path.child, hparts]
          exact List.replicate_succ'.symm
        · have := hrooted h
          omega
  · have hordinary := hnames last (by simp)
    rw [List.concat_eq_append, ← List.append_assoc] at hparts
    have hlast : p.parts.getLast? = some last := by rw [hparts, List.getLast?_concat]
    rw [Path.parent, hlast]
    simp only [hordinary.2.2, if_false]
    refine ⟨ups, front, ?_, fun name hname => hnames name (by simp [hname]), hrooted⟩
    rw [hparts, List.dropLast_concat]

theorem Tidy.walk {p : Path} (h : Tidy p) (parts : List Bytes) : Tidy (p.walk parts) := by
  induction parts generalizing p with
  | nil => exact h
  | cons part parts ih =>
      rw [Path.walk, List.foldl_cons]
      refine ih ?_
      unfold Path.enter
      split
      · exact h
      · rename_i hstay
        split
        · exact h.parent
        · rename_i hup
          obtain ⟨hne, hdot⟩ := not_or.1 hstay
          exact h.child ⟨hne, hdot, hup⟩

theorem clean_tidy (s : Bytes) : Tidy (clean s) := by
  refine Tidy.walk ⟨0, [], rfl, ?_, fun _ => rfl⟩ (segments s)
  intro name hname
  cases hname

-- A clean path that does not start with a step up has names only.
theorem Tidy.ordinary {p : Path} (h : Tidy p) (hfirst : p.rooted = true ∨ p.parts.head? ≠ some dots) :
    ∀ part ∈ p.parts, Ordinary part := by
  obtain ⟨ups, names, hparts, hnames, hrooted⟩ := h
  have hzero : ups = 0 := by
    rcases hfirst with hroot | hhead
    · exact hrooted hroot
    · by_contra hpos
      obtain ⟨n, rfl⟩ := Nat.exists_eq_succ_of_ne_zero hpos
      rw [hparts, List.replicate_succ] at hhead
      exact hhead rfl
  rw [hparts, hzero]
  exact hnames

-- Without steps up the parts that move are put one behind the other.
theorem walk_without_dots {parts : List Bytes} (h : dots ∉ parts) (p : Path) :
    (p.walk parts).parts = p.parts ++ moves parts := by
  induction parts generalizing p with
  | nil => exact (List.append_nil _).symm
  | cons part parts ih =>
      have hpart : part ≠ dots := fun heq => h (heq ▸ List.mem_cons_self)
      have hrest := ih (fun hmem => h (List.mem_cons_of_mem _ hmem)) (p.enter part)
      rw [Path.walk, List.foldl_cons]
      refine hrest.trans ?_
      by_cases hstay : part = [] ∨ part = dot
      · rw [moves_stay hstay, Path.enter, if_pos hstay]
      · obtain ⟨hne, hdot⟩ := not_or.1 hstay
        rw [moves_move hne hdot, enter_of_ordinary hne hdot hpart, Path.child, List.append_assoc]
        rfl

end Paths

end AutoDeploy.Lib
