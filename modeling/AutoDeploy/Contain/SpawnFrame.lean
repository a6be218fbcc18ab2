import AutoDeploy.Lib.Frame
import AutoDeploy.Lib.Unicode
import AutoDeploy.Lib.Url

namespace AutoDeploy.Contain

open Lib Lib.Frame

-- A number on the wire: eight of them are operations.
abbrev GitOperation := UInt8

def gitInit : GitOperation := 1

def gitRemoteAddOrigin : GitOperation := 2

def gitFetchExact : GitOperation := 3

def gitRevParseFetchHead : GitOperation := 4

def gitRevParseHead : GitOperation := 5

def gitCheckoutFetchHead : GitOperation := 6

def gitLSTree : GitOperation := 7

def gitGrepLFS : GitOperation := 8

structure SpawnLimits where
  timeoutSeconds : UInt32
  maxOutput : UInt32
deriving DecidableEq, Repr

-- A descriptor that is not there is negative. Of the writers of the output it matters only that they are there.
structure SpawnRequest where
  operation : GitOperation
  arg : Bytes
  remoteURL : Bytes
  workspaceFD : Int
  stdoutFD : Int
  stderrFD : Int
  stdoutReadFD : Int
  stderrReadFD : Int
  askpassReadFD : Int
  stdout : Bool
  stderr : Bool
  limits : SpawnLimits
deriving DecidableEq, Repr

def isLowerHexChar (c : Char) : Bool := (decide ('0' ≤ c) && decide (c ≤ '9')) || (decide ('a' ≤ c) && decide (c ≤ 'f'))

def isLowerHex (s : Bytes) : Bool := (Unicode.text s).all isLowerHexChar

def isSegmentChar (c : Char) : Bool :=
  (decide ('a' ≤ c) && decide (c ≤ 'z')) || (decide ('A' ≤ c) && decide (c ≤ 'Z')) ||
    (decide ('0' ≤ c) && decide (c ≤ '9')) || c == '-' || c == '_' || c == '.'

def validGitHubSegment (s : Bytes) : Bool :=
  decide (s.length ≠ 0) && decide (s.length ≤ 100) && (Unicode.text s).all isSegmentChar

def https : Bytes := Bytes.ofString "https"

def gitHubHost : Bytes := Bytes.ofString "github.com"

def dotGit : Bytes := Bytes.ofString ".git"

def trimSlash (path : Bytes) : Bytes := if path.head? = some Url.slash then path.tail else path

-- An owner and a repository. A request target never has a fragment.
def validGitHubURL (s : Bytes) : Bool :=
  match Url.parseRequestURI s with
  | none => false
  | some u =>
      if u.scheme ≠ https ∨ u.host ≠ gitHubHost ∨ u.user ≠ none ∨ u.rawQuery ≠ [] ∨ u.escapedPath ≠ u.path then false
      else
        match (trimSlash u.path).splitOn Url.slash with
        | [owner, name] =>
            dotGit.isSuffixOf name && validGitHubSegment owner &&
              validGitHubSegment (name.take (name.length - dotGit.length))
        | _ => false

def lineBreaks : Bytes := [0x00, 0x0d, 0x0a]

-- The caller's fields are checked where they are sent and again where they are read.
def validSpawnOperation (op : GitOperation) (arg remote : Bytes) (hasAskpass : Bool) : Bool :=
  if 96 < arg.length ∨ 1800 < remote.length ∨ (arg ++ remote).any lineBreaks.contains = true then false
  else if op ∈ [gitInit, gitRevParseFetchHead, gitRevParseHead, gitCheckoutFetchHead, gitLSTree, gitGrepLFS] then
    arg.isEmpty && remote.isEmpty && !hasAskpass
  else if op = gitRemoteAddOrigin then arg.isEmpty && validGitHubURL remote && !hasAskpass
  else if op = gitFetchExact then decide (arg.length = 40) && isLowerHex arg && remote.isEmpty && hasAskpass
  else false

def SpawnRequest.hasAskpass (r : SpawnRequest) : Bool := decide (0 ≤ r.askpassReadFD)

def validSpawnRequest (r : SpawnRequest) : Bool :=
  if r.workspaceFD < 0 ∨ r.stdoutFD < 0 ∨ r.stderrFD < 0 ∨ r.stdoutReadFD < 0 ∨ r.stderrReadFD < 0 ∨
      r.stdout = false ∨ r.stderr = false ∨ r.limits.timeoutSeconds = 0 ∨ 300 < r.limits.timeoutSeconds ∨
      r.limits.maxOutput = 0 ∨ 0x100000 < r.limits.maxOutput then false
  else if 96 < r.arg.length ∨ 1800 < r.remoteURL.length ∨ (r.arg ++ r.remoteURL).any lineBreaks.contains = true then false
  else validSpawnOperation r.operation r.arg r.remoteURL r.hasAskpass

inductive Access where
  | readOnly
  | writeOnly
  | readWrite
deriving DecidableEq, Repr

inductive FileKind where
  | directory
  | pipe
  | other
deriving DecidableEq, Repr

structure Stat where
  kind : FileKind
  uid : UInt32
  gid : UInt32
  mode : Nat
deriving DecidableEq, Repr

-- What the kernel tells of open descriptors.
structure Descriptors where
  fstat : Int → Option Stat
  fdMode : Int → Option Access

def uniqueFDs (fds : List Int) : Bool := fds.all (fun fd => decide (0 ≤ fd)) && decide fds.Nodup

def Descriptors.validWriteFD (d : Descriptors) (fd : Int) : Bool :=
  d.fdMode fd == some .writeOnly || d.fdMode fd == some .readWrite

def Descriptors.validReadFD (d : Descriptors) (fd : Int) : Bool :=
  d.fdMode fd == some .readOnly || d.fdMode fd == some .readWrite

def Descriptors.validReadOnlyFD (d : Descriptors) (fd : Int) : Bool := d.fdMode fd == some .readOnly

def Descriptors.validDirectoryFD (d : Descriptors) (fd : Int) : Bool := (d.fstat fd).any fun st => st.kind == .directory

def Descriptors.validClientFDLayout (d : Descriptors) (r : SpawnRequest) : Bool :=
  uniqueFDs ([r.workspaceFD, r.stdoutFD, r.stderrFD, r.stdoutReadFD, r.stderrReadFD] ++
      if r.hasAskpass then [r.askpassReadFD] else []) &&
    d.validDirectoryFD r.workspaceFD && d.validWriteFD r.stdoutFD && d.validWriteFD r.stderrFD &&
    d.validReadFD r.stdoutReadFD && d.validReadFD r.stderrReadFD &&
    (!r.hasAskpass || d.validReadOnlyFD r.askpassReadFD)

def spawnFrameSize : Nat := 2048

def encodeSpawnRequest (r : SpawnRequest) : Bytes :=
  let b := List.replicate spawnFrameSize 0
  let b := put b 0 [1]
  let b := put b 1 [r.operation]
  let b := put b 2 [if r.hasAskpass then 4 else 3]
  let b := put b 4 (Bytes.bigEndian r.limits.timeoutSeconds.toNat 4)
  let b := put b 8 (Bytes.bigEndian r.limits.maxOutput.toNat 4)
  let b := put b 12 (Bytes.bigEndian r.arg.length 2)
  let b := put b 14 (Bytes.bigEndian r.remoteURL.length 2)
  let b := put b 16 r.arg
  put b (16 + r.arg.length) r.remoteURL

structure Message where
  frame : Bytes
  fds : List Int
deriving DecidableEq, Repr

inductive SpawnError where
  | invalid
  | denied
  | unavailable
deriving DecidableEq, Repr

structure SpawnClient where
  maxOutput : UInt32
deriving DecidableEq, Repr

-- What is sent over a connection, once there is one.
def SpawnClient.run (c : SpawnClient) (d : Descriptors) (connect : Except SpawnError Unit) (r : SpawnRequest) :
    Except SpawnError Message :=
  if validSpawnRequest r = false ∨ d.validClientFDLayout r = false ∨ c.maxOutput = 0 ∨ 0x100000 < c.maxOutput ∨
      c.maxOutput < r.limits.maxOutput then .error .invalid
  else do
    connect
    pure ⟨encodeSpawnRequest r, [r.workspaceFD, r.stdoutFD, r.stderrFD] ++ if r.hasAskpass then [r.askpassReadFD] else []⟩

inductive FrameError where
  | frame
  | length
  | padding
deriving DecidableEq, Repr

structure Decoded where
  operation : GitOperation
  arg : Bytes
  remote : Bytes
  limits : SpawnLimits
  fdCount : Nat
deriving DecidableEq, Repr

def decodeSpawnRequest (b : Bytes) : Except FrameError Decoded :=
  if b.length ≠ spawnFrameSize ∨ b[0]? ≠ some 1 ∨ (b[2]? ≠ some 3 ∧ b[2]? ≠ some 4) then .error .frame
  else
    let al := number (slice b 12 2)
    let ul := number (slice b 14 2)
    if 96 < al ∨ 1800 < ul ∨ b.length < 16 + al + ul then .error .length
    else if (b.drop (16 + al + ul)).any (· != 0) = true then .error .padding
    else
      .ok ⟨b.getD 1 0, slice b 16 al, slice b (16 + al) ul,
        ⟨UInt32.ofNat (number (slice b 4 4)), UInt32.ofNat (number (slice b 8 4))⟩, (b.getD 2 0).toNat⟩

section

variable {r : SpawnRequest}

-- What stands before the texts.
def header (r : SpawnRequest) : Bytes :=
  [1, r.operation, if r.hasAskpass then 4 else 3, 0] ++ Bytes.bigEndian r.limits.timeoutSeconds.toNat 4 ++
    Bytes.bigEndian r.limits.maxOutput.toNat 4 ++ Bytes.bigEndian r.arg.length 2 ++ Bytes.bigEndian r.remoteURL.length 2

theorem length_header (r : SpawnRequest) : (header r).length = 16 := by
  simp [header]

theorem encodeSpawnRequest_eq (harg : r.arg.length ≤ 96) (hremote : r.remoteURL.length ≤ 1800) :
    encodeSpawnRequest r = written spawnFrameSize (header r ++ r.arg ++ r.remoteURL) := by
  have hsize : spawnFrameSize = 2048 := rfl
  have hheader := length_header r
  rw [encodeSpawnRequest, ← written_nil]
  -- the numbers first: the fourth byte stays zero
  rw [put_next (by simp) (by simp [hsize]), put_next (by simp) (by simp [hsize]), put_next (by simp) (by simp [hsize]),
    put_written (by simp) (by simp [hsize]), put_next (by simp) (by simp [hsize]), put_next (by simp) (by simp [hsize]),
    put_next (by simp) (by simp [hsize])]
  have hnumbers : [] ++ [1] ++ [r.operation] ++ [if r.hasAskpass = true then 4 else 3] ++
      List.replicate (4 - ([] ++ [1] ++ [r.operation] ++ [if r.hasAskpass = true then 4 else 3]).length) 0 ++
      Bytes.bigEndian r.limits.timeoutSeconds.toNat 4 ++ Bytes.bigEndian r.limits.maxOutput.toNat 4 ++
      Bytes.bigEndian r.arg.length 2 ++ Bytes.bigEndian r.remoteURL.length 2 = header r := by
    simp [header]
  rw [hnumbers, put_next hheader.symm (by omega), put_next]
  · rw [List.length_append, hheader]
  · omega

theorem lengths_of_valid (h : validSpawnRequest r = true) : r.arg.length ≤ 96 ∧ r.remoteURL.length ≤ 1800 := by
  rw [validSpawnRequest] at h
  split at h
  · cases h
  split at h
  · cases h
  · rename_i hfields
    omega

-- The numbers of a frame are where they were written.
theorem slices_encode (harg : r.arg.length ≤ 96) (hremote : r.remoteURL.length ≤ 1800) :
    number (slice (encodeSpawnRequest r) 4 4) = r.limits.timeoutSeconds.toNat ∧
      number (slice (encodeSpawnRequest r) 8 4) = r.limits.maxOutput.toNat ∧
      number (slice (encodeSpawnRequest r) 12 2) = r.arg.length ∧
      number (slice (encodeSpawnRequest r) 14 2) = r.remoteURL.length := by
  rw [encodeSpawnRequest_eq harg hremote, written, header]
  generalize List.replicate _ (0 : UInt8) = zeros
  have htimeout := r.limits.timeoutSeconds.toNat_lt
  have hmax := r.limits.maxOutput.toNat_lt
  simp only [List.append_assoc]
  refine ⟨?_, ?_, ?_, ?_⟩
  · rw [slice_append (by simp) (by simp), number_bigEndian, Nat.mod_eq_of_lt (by omega)]
  · rw [← List.append_assoc, slice_append (by simp) (by simp), number_bigEndian, Nat.mod_eq_of_lt (by omega)]
  · rw [← List.append_assoc, ← List.append_assoc, slice_append (by simp) (by simp), number_bigEndian,
      Nat.mod_eq_of_lt (by omega)]
  · rw [← List.append_assoc, ← List.append_assoc, ← List.append_assoc, slice_append (by simp) (by simp),
      number_bigEndian, Nat.mod_eq_of_lt (by omega)]

theorem decodeSpawnRequest_encodeSpawnRequest (h : validSpawnRequest r = true) :
    decodeSpawnRequest (encodeSpawnRequest r) =
      .ok ⟨r.operation, r.arg, r.remoteURL, r.limits, if r.hasAskpass then 4 else 3⟩ := by
  obtain ⟨harg, hremote⟩ := lengths_of_valid h
  obtain ⟨htimeout, hmax, hal, hul⟩ := slices_encode harg hremote
  have hheader := length_header r
  have hsize : spawnFrameSize = 2048 := rfl
  have hframe := encodeSpawnRequest_eq harg hremote
  have hlength : (encodeSpawnRequest r).length = spawnFrameSize := by
    rw [hframe, length_written]
    simp only [List.length_append]
    omega
  have hfirst : (encodeSpawnRequest r)[0]? = some 1 := by
    rw [hframe]
    rfl
  have hcount : (encodeSpawnRequest r)[2]? = some (if r.hasAskpass then 4 else 3) := by
    rw [hframe]
    rfl
  have hoperation : (encodeSpawnRequest r)[1]? = some r.operation := by
    rw [hframe]
    rfl
  have hpadding : ((encodeSpawnRequest r).drop (16 + r.arg.length + r.remoteURL.length)).any (· != 0) = false := by
    rw [hframe, written, List.drop_left' (by simp only [List.length_append]; omega)]
    simp
  have hargument : slice (encodeSpawnRequest r) 16 r.arg.length = r.arg := by
    rw [hframe, written, List.append_assoc, List.append_assoc, slice_append hheader.symm rfl]
  have hurl : slice (encodeSpawnRequest r) (16 + r.arg.length) r.remoteURL.length = r.remoteURL := by
    rw [hframe, written, List.append_assoc (header r ++ r.arg), slice_append _ rfl]
    rw [List.length_append, hheader]
  rw [decodeSpawnRequest, if_neg, hal, hul, if_neg, if_neg]
  · rw [hargument, hurl, htimeout, hmax, List.getD_eq_getElem?_getD, List.getD_eq_getElem?_getD, hoperation, hcount]
    simp only [UInt32.ofNat_toNat, Option.getD_some]
    cases r.hasAskpass
    · rfl
    · rfl
  · rw [hpadding]
    simp
  · rw [hlength]
    omega
  · rw [hlength, hfirst, hcount]
    cases r.hasAskpass
    · simp
    · simp

-- What is accepted is sent in a frame that says all of it, with as many descriptors as it says.
theorem SpawnClient.decode_run {c : SpawnClient} {d : Descriptors} {connect : Except SpawnError Unit} {m : Message}
    (h : c.run d connect r = .ok m) :
    decodeSpawnRequest m.frame = .ok ⟨r.operation, r.arg, r.remoteURL, r.limits, m.fds.length⟩ := by
  rw [SpawnClient.run] at h
  split at h
  · cases h
  · rename_i hvalid
    have haccepted : validSpawnRequest r = true := by
      by_contra hnot
      exact hvalid (.inl (Bool.eq_false_of_not_eq_true hnot))
    cases connect with
    | error e => cases h
    | ok connected =>
        cases h
        rw [decodeSpawnRequest_encodeSpawnRequest haccepted]
        cases r.hasAskpass
        · rfl
        · rfl

end

end AutoDeploy.Contain
