import AutoDeploy.Lib.FileTree
import AutoDeploy.Lib.Result

namespace AutoDeploy.Docker

open Lib Lib.Result Paths FileTree

inductive DockerfileError where
  | invalidPath
  | absolute
  | escapesContext
  | unusableContext
  | pathUnusable
  | traversesSymlink
  | isDirectory
  | componentNotDirectory (part : Bytes)
deriving DecidableEq, Repr

-- A process in its working directory, which os.Getwd gives an absolute path of.
structure Process where
  tree : Tree
  wd : Bytes
  cwd : Location
  wdRooted : rooted wd = true
  wdNames : ∃ links, Reaches tree maxLinks [] (segments wd) cwd links
  cwdDirectory : tree.node cwd = some .directory

-- filepath.Abs: cleaned without a look at the files.
def abs (p : Process) (path : Bytes) : Path := if rooted path then clean path else join p.wd path

-- The loop over the parts. The path is cleaned, so joining a part puts it behind.
def checkParts (tree : Tree) (current : Path) : List Bytes → Except DockerfileError Unit
  | [] => .ok ()
  | part :: rest =>
      match lstat tree (current.enter part).parts with
      | none => .error .pathUnusable
      | some (_, .symlink _) => .error .traversesSymlink
      | some (_, .directory) =>
          if rest = [] then .error .isDirectory else checkParts tree (current.enter part) rest
      | some (_, .other) => if rest = [] then .ok () else .error (.componentNotDirectory part)

def refusedByte (b : UInt8) : Bool := b == 0 || b == 13 || b == 10

def defaultDockerfile : Bytes := Bytes.ofString "Dockerfile"

-- The cleaned path is `.` without parts, and `..` or below it when its first part is.
def resolveDockerfilePath (p : Process) (contextDir dockerfilePath : Bytes) : Except DockerfileError Path := do
  require (dockerfilePath.any refusedByte = false) .invalidPath
  let path := if dockerfilePath = [] then defaultDockerfile else dockerfilePath
  require (rooted path = false) .absolute
  let cleaned := clean path
  require (cleaned.parts ≠ [] ∧ cleaned.parts.head? ≠ some dots) .escapesContext
  let absContext := abs p contextDir
  require ((lstat p.tree absContext.parts).any (fun found => found.2 == .directory) = true) .unusableContext
  checkParts p.tree absContext cleaned.parts
  pure cleaned

-- The directory that the system finds for the context path, where the build runs.
def Context (p : Process) (contextDir : Bytes) (loc : Location) : Prop :=
  p.tree.node loc = some .directory ∧
    ∃ links, Reaches p.tree maxLinks (if rooted contextDir then [] else p.cwd) (segments contextDir) loc links

-- The directory that is looked at: what the cleaned absolute path names, without a link in its last place.
def Checked (p : Process) (contextDir : Bytes) (loc : Location) : Prop :=
  lstat p.tree (abs p contextDir).parts = some (loc, .directory)

-- A path that stays inside when it is cleaned.
def Inside (path : Bytes) : Prop :=
  path.any refusedByte = false ∧ path ≠ [] ∧ rooted path = false ∧ (clean path).parts ≠ [] ∧
    (clean path).parts.head? ≠ some dots

-- What is returned is a plain file of the context, and every plain file of a real context is returned.
def Confined (p : Process) (contextDir dockerfilePath : Bytes) : Prop :=
  (∀ cleaned, resolveDockerfilePath p contextDir dockerfilePath = .ok cleaned →
      cleaned.rooted = false ∧ ∃ loc, Context p contextDir loc ∧ PlainFile p.tree loc cleaned.parts) ∧
    ∀ checked loc, Checked p contextDir checked → Context p contextDir loc → Inside dockerfilePath →
      PlainFile p.tree loc (clean dockerfilePath).parts →
      resolveDockerfilePath p contextDir dockerfilePath = .ok (clean dockerfilePath)

-- The default is the file of that name.
def effectivePath (dockerfilePath : Bytes) : Bytes := if dockerfilePath = [] then defaultDockerfile else dockerfilePath

def InContext (p : Process) (contextDir path : Bytes) : Prop :=
  ∃ loc, Context p contextDir loc ∧ PlainFile p.tree loc (clean path).parts

-- The directory that is looked at and the context agree on this file.
def Agree (p : Process) (contextDir dockerfilePath : Bytes) : Prop :=
  ∀ checked, Checked p contextDir checked → Inside (effectivePath dockerfilePath) →
    (PlainFile p.tree checked (clean (effectivePath dockerfilePath)).parts →
        InContext p contextDir (effectivePath dockerfilePath)) ∧
      (dockerfilePath ≠ [] → InContext p contextDir dockerfilePath →
        PlainFile p.tree checked (clean dockerfilePath).parts)

-- No step up, neither in the context path nor in the path of the directory that it starts from.
def NoSteps (p : Process) (contextDir : Bytes) : Prop :=
  dots ∉ segments contextDir ∧ (rooted contextDir = false → dots ∉ segments p.wd)

section

variable {p : Process} {tree : Tree} {contextDir dockerfilePath : Bytes}

-- From a directory that a path leads to, the next name is looked up there.
theorem lstat_child {parts : List Bytes} {loc : Location} {links : Nat} (h : Reaches tree maxLinks [] parts loc links)
    (name : Bytes) :
    lstat tree (parts ++ [name]) = (tree.node (loc ++ [name])).map fun node => (loc ++ [name], node) := by
  rw [lstat, List.getLast?_concat, List.dropLast_concat]
  simp only [reaches_iff.1 h]

theorem Reaches.child {parts : List Bytes} {loc : Location} {links : Nat} (h : Reaches tree maxLinks [] parts loc links)
    (hloc : tree.node loc = some .directory) {name : Bytes} (hname : Ordinary name)
    (hnode : tree.node (loc ++ [name]) = some .directory) :
    Reaches tree maxLinks [] (parts ++ [name]) (loc ++ [name]) links :=
  h.append hloc (.down hname hnode (.done _ _))

-- The loop stands in a directory and has names before it: it ends well when they lead down to a plain file.
theorem checkParts_eq_ok {current : Path} {loc : Location} {links : Nat} {parts : List Bytes}
    (hcurrent : Reaches tree maxLinks [] current.parts loc links) (hloc : tree.node loc = some .directory)
    (hparts : ∀ part ∈ parts, Ordinary part) (hne : parts ≠ []) :
    checkParts tree current parts = .ok () ↔ PlainFile tree loc parts := by
  induction parts generalizing current loc with
  | nil => exact absurd rfl hne
  | cons part rest ih =>
      have hpart := hparts part List.mem_cons_self
      have henter : (current.enter part).parts = current.parts ++ [part] := by
        rw [enter_of_ordinary hpart.1 hpart.2.1 hpart.2.2]
        rfl
      rw [checkParts, henter, lstat_child hcurrent]
      cases hnode : tree.node (loc ++ [part]) with
      | none =>
          cases rest with
          | nil => simp [PlainFile, hnode]
          | cons next rest => simp [PlainFile, hnode]
      | some node =>
          cases node with
          | symlink target =>
              cases rest with
              | nil => simp [PlainFile, hnode]
              | cons next rest => simp [PlainFile, hnode]
          | other =>
              cases rest with
              | nil => simp [PlainFile, hnode]
              | cons next rest => simp [PlainFile, hnode]
          | directory =>
              cases rest with
              | nil => simp [PlainFile, hnode]
              | cons next rest =>
                  have hchild := Reaches.child hcurrent hloc hpart hnode
                  rw [← henter] at hchild
                  have hrest := ih hchild hnode (fun x hx => hparts x (List.mem_cons_of_mem _ hx)) (List.cons_ne_nil _ _)
                  simp only [Option.map_some, List.cons_ne_nil, if_false, PlainFile, hnode, true_and]
                  exact hrest

theorem abs_rooted (p : Process) (contextDir : Bytes) : (abs p contextDir).rooted = true := by
  have hclean (s : Bytes) : (clean s).rooted = rooted s := rooted_walk _ _
  unfold abs
  split
  · rename_i hrooted
    rw [hclean]
    exact hrooted
  · have hwd : p.wd ≠ [] := by
      intro hnil
      have hrooted := p.wdRooted
      rw [hnil] at hrooted
      cases hrooted
    rw [join_eq_walk hwd, rooted_walk, hclean]
    exact p.wdRooted

theorem abs_tidy (p : Process) (contextDir : Bytes) : Tidy (abs p contextDir) := by
  unfold abs join
  split
  · exact clean_tidy _
  · split
    · exact clean_tidy _
    · exact clean_tidy _

-- The directory that is looked at is where its path leads.
theorem Checked.reaches {loc : Location} (h : Checked p contextDir loc) :
    p.tree.node loc = some .directory ∧ ∃ links, Reaches p.tree maxLinks [] (abs p contextDir).parts loc links := by
  have hordinary := (abs_tidy p contextDir).ordinary (.inl (abs_rooted p contextDir))
  unfold Checked at h
  rcases List.eq_nil_or_concat (abs p contextDir).parts with hparts | ⟨front, name, hparts⟩
  · rw [hparts] at h ⊢
    obtain ⟨rfl, -⟩ := Prod.mk.inj (Option.some.inj h)
    exact ⟨p.tree.root, maxLinks, .done _ _⟩
  · rw [List.concat_eq_append] at hparts
    rw [hparts] at h hordinary ⊢
    rw [lstat, List.getLast?_concat, List.dropLast_concat] at h
    simp only at h
    split at h
    · cases h
    · rename_i front' links hfront
      have hreaches := reaches_iff.2 hfront
      cases hnode : p.tree.node (front' ++ [name]) with
      | none => rw [hnode] at h; cases h
      | some node =>
          rw [hnode] at h
          obtain ⟨rfl, rfl⟩ := Prod.mk.inj (Option.some.inj h)
          have hparent := p.tree.parent front' name (by rw [hnode]; exact Option.some_ne_none _)
          exact ⟨hnode, links, Reaches.child hreaches hparent (hordinary name (by simp)) hnode⟩

theorem checked_unique {loc loc' : Location} (h : Checked p contextDir loc) (h' : Checked p contextDir loc') : loc = loc' := by
  unfold Checked at h h'
  rw [h] at h'
  exact (Prod.mk.inj (Option.some.inj h')).1

theorem resolveDockerfilePath_eq_ok {cleaned : Path} :
    resolveDockerfilePath p contextDir dockerfilePath = .ok cleaned ↔
      cleaned = clean (effectivePath dockerfilePath) ∧ Inside (effectivePath dockerfilePath) ∧
        ∃ checked, Checked p contextDir checked ∧
          PlainFile p.tree checked (clean (effectivePath dockerfilePath)).parts := by
  have hbytes : (effectivePath dockerfilePath).any refusedByte = dockerfilePath.any refusedByte := by
    unfold effectivePath
    split
    · rename_i hnil
      rw [hnil]
      decide
    · rfl
  have hne : effectivePath dockerfilePath ≠ [] := by
    unfold effectivePath
    split
    · decide
    · assumption
  have hchecked : (lstat p.tree (abs p contextDir).parts).any (fun found => found.2 == .directory) = true ↔
      ∃ checked, Checked p contextDir checked := by
    simp only [Option.any_eq_true, beq_iff_eq, Checked, Prod.exists]
    constructor
    · rintro ⟨loc, node, hfound, rfl⟩
      exact ⟨loc, hfound⟩
    · rintro ⟨loc, hfound⟩
      exact ⟨loc, .directory, hfound, rfl⟩
  have hloop (checked : Location) (h : Checked p contextDir checked) (hinside : Inside (effectivePath dockerfilePath)) :
      checkParts p.tree (abs p contextDir) (clean (effectivePath dockerfilePath)).parts = .ok () ↔
        PlainFile p.tree checked (clean (effectivePath dockerfilePath)).parts := by
    obtain ⟨hnode, links, hreaches⟩ := h.reaches
    exact checkParts_eq_ok hreaches hnode ((clean_tidy _).ordinary (.inr hinside.2.2.2.2)) hinside.2.2.2.1
  unfold resolveDockerfilePath
  simp only [bind_eq_ok, require_eq_ok, pure_eq_ok]
  constructor
  · rintro ⟨_, hrefused, _, hrelative, _, ⟨hparts, hfirst⟩, _, hcontext, _, hcheck, rfl⟩
    obtain ⟨checked, h⟩ := hchecked.1 hcontext
    have hinside : Inside (effectivePath dockerfilePath) := ⟨hbytes.trans hrefused, hne, hrelative, hparts, hfirst⟩
    exact ⟨rfl, hinside, checked, h, (hloop checked h hinside).1 hcheck⟩
  · rintro ⟨rfl, hinside, checked, h, hplain⟩
    obtain ⟨hrefused, -, hrelative, hparts, hfirst⟩ := id hinside
    exact ⟨(), hbytes.symm.trans hrefused, (), hrelative, (), ⟨hparts, hfirst⟩, (), hchecked.2 ⟨checked, h⟩, (),
      (hloop checked h hinside).2 hplain, rfl⟩

theorem Context.unique {loc loc' : Location} (h : Context p contextDir loc) (h' : Context p contextDir loc') :
    loc = loc' := by
  obtain ⟨-, links, hreaches⟩ := h
  obtain ⟨-, links', hreaches'⟩ := h'
  exact (hreaches.unique hreaches').1

theorem moves_moves (parts : List Bytes) : moves (moves parts) = moves parts := by
  unfold moves
  rw [List.filter_filter]
  simp only [Bool.and_self]

-- Without steps up the system finds the directory that the cleaned path names.
theorem Checked.context (hsteps : NoSteps p contextDir) {loc : Location} (h : Checked p contextDir loc) :
    Context p contextDir loc := by
  obtain ⟨hnode, links, hreaches⟩ := h.reaches
  refine ⟨hnode, ?_⟩
  unfold abs at hreaches
  split at hreaches
  · rename_i hrooted
    rw [clean, walk_without_dots hsteps.1, List.nil_append] at hreaches
    rw [if_pos hrooted]
    exact ⟨links, hreaches.congr hnode (moves_moves _).symm⟩
  · rename_i hrooted
    have hwd : p.wd ≠ [] := by
      intro hnil
      have hrooted := p.wdRooted
      rw [hnil] at hrooted
      cases hrooted
    have hcwd := hsteps.2 (Bool.eq_false_iff.2 hrooted)
    rw [join_eq_walk hwd, walk_without_dots hsteps.1, clean, walk_without_dots hcwd, List.nil_append] at hreaches
    obtain ⟨loc', links', hfirst, hsecond⟩ := hreaches.split
    obtain ⟨start, hstart⟩ := p.wdNames
    obtain ⟨rfl, rfl⟩ := hfirst.unique (hstart.congr p.cwdDirectory (moves_moves _))
    rw [if_neg hrooted]
    have hmore := (hsecond.congr hnode (moves_moves _).symm).more (maxLinks - links')
    rw [Nat.add_sub_of_le hfirst.links_le] at hmore
    exact ⟨_, hmore⟩

theorem agree_of_noSteps (hsteps : NoSteps p contextDir) : Agree p contextDir dockerfilePath := by
  intro checked hchecked _
  have hcontext := hchecked.context hsteps
  refine ⟨fun hplain => ⟨checked, hcontext, hplain⟩, ?_⟩
  rintro - ⟨loc, hloc, hplain⟩
  rwa [hcontext.unique hloc]

theorem confined_iff_agree : Confined p contextDir dockerfilePath ↔ Agree p contextDir dockerfilePath := by
  constructor
  · rintro ⟨hinside, houtside⟩ checked hchecked hpath
    refine ⟨fun hplain => ?_, ?_⟩
    · exact (hinside _ (resolveDockerfilePath_eq_ok.2 ⟨rfl, hpath, checked, hchecked, hplain⟩)).2
    · rintro hne ⟨loc, hloc, hplain⟩
      have hsame : effectivePath dockerfilePath = dockerfilePath := if_neg hne
      rw [hsame] at hpath
      have hresolved := houtside checked loc hchecked hloc hpath hplain
      obtain ⟨-, -, checked', hchecked', hplain'⟩ := resolveDockerfilePath_eq_ok.1 hresolved
      rw [hsame] at hplain'
      rwa [checked_unique hchecked hchecked']
  · intro hagree
    refine ⟨?_, ?_⟩
    · intro cleaned hresolved
      obtain ⟨rfl, hpath, checked, hchecked, hplain⟩ := resolveDockerfilePath_eq_ok.1 hresolved
      refine ⟨?_, (hagree checked hchecked hpath).1 hplain⟩
      exact (rooted_walk _ _).trans hpath.2.2.1
    · intro checked loc hchecked hloc hpath hplain
      have hsame : effectivePath dockerfilePath = dockerfilePath := if_neg hpath.2.1
      have hpath' : Inside (effectivePath dockerfilePath) := by rwa [hsame]
      have hfile := (hagree checked hchecked hpath').2 hpath.2.1 ⟨loc, hloc, hplain⟩
      refine resolveDockerfilePath_eq_ok.2 ⟨by rw [hsame], hpath', checked, hchecked, ?_⟩
      rwa [hsame]

-- The context path is cleaned before it is looked at, and used as it is: where a step up behind a link makes the two
-- lead to different directories, only their agreement on the file helps.
theorem dockerfile_confined_iff (p : Process) (contextDir dockerfilePath : Bytes) :
    (Confined p contextDir dockerfilePath ↔ Agree p contextDir dockerfilePath) ∧
      (NoSteps p contextDir → Confined p contextDir dockerfilePath) :=
  ⟨confined_iff_agree, fun hsteps => confined_iff_agree.2 (agree_of_noSteps hsteps)⟩

end

-- Below /w there are a Dockerfile and a link to /o/s; /o has no Dockerfile.
def linkedTree : Tree :=
  .ofEntries
    [([], .directory), ([[119]], .directory), ([[119], Bytes.ofString "link"], .symlink (Bytes.ofString "/o/s")),
      ([[119], defaultDockerfile], .other), ([[111]], .directory), ([[111], [115]], .directory)]
    (by decide)

def linkedProcess : Process where
  tree := linkedTree
  wd := [slash]
  cwd := []
  wdRooted := rfl
  wdNames := ⟨maxLinks, .stay (.inl rfl) (.stay (.inl rfl) (.done _ _))⟩
  cwdDirectory := rfl

-- The file of /w is checked, and the build runs in /o.
theorem context_left :
    resolveDockerfilePath linkedProcess (Bytes.ofString "/w/link/..") [] = .ok ⟨false, [defaultDockerfile]⟩ ∧
      Context linkedProcess (Bytes.ofString "/w/link/..") [[111]] ∧
      ¬ Confined linkedProcess (Bytes.ofString "/w/link/..") [] := by
  have hresolved : resolveDockerfilePath linkedProcess (Bytes.ofString "/w/link/..") [] =
      .ok ⟨false, [defaultDockerfile]⟩ := by
    have hpath : effectivePath [] = defaultDockerfile := rfl
    have hclean : clean defaultDockerfile = ⟨false, [defaultDockerfile]⟩ := by decide
    refine resolveDockerfilePath_eq_ok.2 ?_
    rw [hpath, hclean]
    refine ⟨rfl, ⟨by decide, by decide, by decide, by decide, by decide⟩,
      [[119]], ?_, ?_⟩
    · unfold Checked
      decide
    · have hfile : linkedTree.node ([[119]] ++ [defaultDockerfile]) = some .other := by decide
      exact hfile
  have hcontext : Context linkedProcess (Bytes.ofString "/w/link/..") [[111]] := by
    refine ⟨rfl, 39, ?_⟩
    rw [reaches_iff]
    decide
  refine ⟨hresolved, hcontext, fun hconfined => ?_⟩
  obtain ⟨-, loc, hloc, hplain⟩ := hconfined.1 _ hresolved
  rw [← hcontext.unique hloc] at hplain
  have hmissing : linkedTree.node ([[111]] ++ [defaultDockerfile]) = none := by decide
  rw [PlainFile, show linkedProcess.tree = linkedTree from rfl, hmissing] at hplain
  cases hplain

end AutoDeploy.Docker
