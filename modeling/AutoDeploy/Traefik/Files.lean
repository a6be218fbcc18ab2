import AutoDeploy.Lib.Paths
import AutoDeploy.Lib.Threads
import AutoDeploy.Traefik.Names

namespace AutoDeploy.Traefik

open Lib Lib.Result Paths

-- What stands at a path.
inductive Entry where
  | file (content : Bytes)
  | symlink
  | other
deriving DecidableEq

abbrev Files := Path → Option Entry

inductive DirectoryKind where
  | directory
  | symlink
  | other
deriving DecidableEq

-- What Lstat says of the route directory.
structure DirectoryInfo where
  kind : DirectoryKind
  ownerUID : Nat
  perm : Nat

inductive FileError where
  | symlinkRefused
  | notDirectory
  | directoryOwnership
  | notRegularFile
  | directoryPermissions
  | routeFileTooLarge
  | invalidRoute (error : RouteError)
  -- A call that failed, by what was being done.
  | system (during : String)
deriving DecidableEq

structure Host where
  dir : Bytes
  uid : Nat

-- What the world answers to one call: the process may end before it, it may fail, a failing write has written
-- something, a temporary name gets random bytes, and the directory is as it is.
structure Reply where
  crashes : Bool
  fails : Bool
  written : Nat
  suffix : Option Bytes
  info : DirectoryInfo

def checkDirectoryPolicy (uid ownerUID perm : Nat) : Except FileError Unit := do
  require (ownerUID = uid ∨ ownerUID = 0) .directoryOwnership
  require (perm.testBit 1 = false) .directoryPermissions
  require (perm.testBit 4 = false ∨ ownerUID = uid ∨ ownerUID = 0) .directoryPermissions

-- No call takes a path that is empty or has a zero byte.
def verifyDirectory (host : Host) (a : Reply) : Except FileError Unit :=
  if host.dir = [] ∨ 0 ∈ host.dir ∨ a.fails = true then .error (.system "stat route directory")
  else
    match a.info.kind with
    | .symlink => .error .symlinkRefused
    | .other => .error .notDirectory
    | .directory => checkDirectoryPolicy host.uid a.info.ownerUID a.info.perm

def routeTempFileExtension : String := ".tmp"

def maxRouteFileBytes : Nat := 2 ^ 20

def routeFile (environmentID : Bytes) : Bytes :=
  Bytes.ofString routeFilePrefix ++ environmentID ++ Bytes.ofString routeFileExtension

def tempFile (environmentID suffix : Bytes) : Bytes :=
  Bytes.ofString routeFilePrefix ++ environmentID ++ Bytes.ofString "-" ++
    Bytes.ofString (String.ofList (Bytes.toHex suffix)) ++ Bytes.ofString routeTempFileExtension

inductive Request where
  | write (r : EnvironmentRoute)
  | remove (environmentID : Bytes)
  | readDigest (environmentID : Bytes)

def Request.environmentID : Request → Bytes
  | .write r => Bytes.ofString r.environmentID
  | .remove id => id
  | .readDigest id => id

-- The final path of a request's route file.
def Request.path (host : Host) (req : Request) : Path := join host.dir (routeFile req.environmentID)

def Request.tempPath (host : Host) (req : Request) (suffix : Bytes) : Path :=
  join host.dir (tempFile req.environmentID suffix)

inductive WriteOutcome where
  | written
  | unchanged
deriving DecidableEq

structure WriteResult where
  outcome : WriteOutcome
  digest : String
  previousDigest : String
deriving DecidableEq

-- How a request ends. A failure says whether the rename had been made and what it left behind.
inductive Result where
  | wrote (result : WriteResult)
  | removed
  | read (digest : Option String)
  | failed (error : FileError) (renamed : Bool) (leftover : Option Path)
deriving DecidableEq

-- Where a request is: the call it makes next, with what it has learned. The content it found is kept as `previous`.
inductive Stage where
  | verify
  | stat
  | read
  | create (attempts : Nat) (previous : Option Bytes)
  | write (temp : Path) (previous : Option Bytes)
  | sync (temp : Path) (previous : Option Bytes)
  | close (temp : Path) (previous : Option Bytes)
  | rename (temp : Path) (previous : Option Bytes)
  | openDir (previous : Option Bytes)
  | syncDir (previous : Option Bytes)
  | cleanup (temp : Path) (error : FileError)
  | unlink
  | finished (result : Result)
  | crashed (renamed : Bool) (leftover : Option Path)
deriving DecidableEq

namespace Stage

-- The temporary file of a request: while it works on it, and when it was left behind.
def temp : Stage → Option Path
  | .write temp _ | .sync temp _ | .close temp _ | .rename temp _ | .cleanup temp _ => some temp
  | .finished (.failed _ _ leftover) | .crashed _ leftover => leftover
  | _ => none

-- The temporary file has become the route file, and the directory is still to be synced.
def renamed : Stage → Bool
  | .openDir _ | .syncDir _ => true
  | _ => false

def crash : Stage → Stage
  | .finished result => .finished result
  | .crashed renamed leftover => .crashed renamed leftover
  | s => .crashed s.renamed s.temp

-- A failure before a temporary file exists, or after it has become the route file.
def fail (error : FileError) (renamed : Bool) : Stage := .finished (.failed error renamed none)

end Stage

def previousDigest (previous : Option Bytes) : String := (previous.map digest).getD ""

-- The document of a route that was rendered.
def document (r : EnvironmentRoute) : Bytes :=
  match render r with
  | .ok (doc, _) => doc
  | .error _ => []

def maxAttempts : Nat := 8

section

variable (host : Host) (req : Request)

def afterVerify (a : Reply) : Stage :=
  match verifyDirectory host a with
  | .error e => .fail e false
  | .ok () =>
      match req with
      | .write r =>
          match render r with
          | .error e => .fail (.invalidRoute e) false
          | .ok _ => .stat
      | _ => .stat

-- A path with a zero byte is refused before any call.
def Path.refused (p : Path) : Bool := p.parts.any fun part => part.contains 0

def afterStat (fs : Files) (a : Reply) : Stage :=
  if Path.refused (req.path host) = true ∨ a.fails = true then .fail (.system "stat route file") false
  else
    match fs (req.path host), req with
    | none, .write _ => .create maxAttempts none
    | none, .remove _ => .finished .removed
    | none, .readDigest _ => .finished (.read none)
    | some .symlink, _ => .fail .symlinkRefused false
    | some .other, _ => .fail .notRegularFile false
    | some (.file _), .remove _ => .unlink
    | some (.file _), _ => .read

def afterRead (fs : Files) (a : Reply) : Stage :=
  if a.fails = true then .fail (.system "read route file") false
  else
    match fs (req.path host) with
    | none => .fail (.system "open route file") false
    | some .symlink => .fail .symlinkRefused false
    | some .other => .fail .notRegularFile false
    | some (.file content) =>
        if maxRouteFileBytes < content.length then .fail .routeFileTooLarge false
        else
          match req with
          | .write r =>
              if digest content = digest (document r) then
                .finished (.wrote ⟨.unchanged, digest (document r), digest content⟩)
              else .create maxAttempts (some content)
          | _ => .finished (.read (some (digest content)))

-- An existing name, of whatever kind, is tried no further; the next attempt has another suffix.
def tryCreate (fs : Files) (a : Reply) (attempts : Nat) (previous : Option Bytes) : Files × Stage :=
  match attempts, a.suffix with
  | 0, _ => (fs, .fail (.system "could not create a unique temp file") false)
  | _ + 1, none => (fs, .fail (.system "generate temp file suffix") false)
  | attempts + 1, some suffix =>
      if a.fails = true then (fs, .fail (.system "create temp file") false)
      else if (fs (req.tempPath host suffix)).isSome = true then (fs, .create attempts previous)
      else (Function.update fs (req.tempPath host suffix) (some (.file [])), .write (req.tempPath host suffix) previous)

def requestedDocument : Request → Bytes
  | .write r => document r
  | _ => []

-- One call of a request.
def next (fs : Files) (a : Reply) (s : Stage) : Files × Stage :=
  if a.crashes = true then (fs, s.crash)
  else
    match s with
    | .verify => (fs, afterVerify host req a)
    | .stat => (fs, afterStat host req fs a)
    | .read => (fs, afterRead host req fs a)
    | .create attempts previous => tryCreate host req fs a attempts previous
    | .write temp previous =>
        if a.fails = true then
          (Function.update fs temp (some (.file ((requestedDocument req).take a.written))),
            .cleanup temp (.system "write temp route file"))
        else (Function.update fs temp (some (.file (requestedDocument req))), .sync temp previous)
    | .sync temp previous =>
        (fs, if a.fails = true then .cleanup temp (.system "fsync temp route file") else .close temp previous)
    | .close temp previous =>
        (fs, if a.fails = true then .cleanup temp (.system "close temp route file") else .rename temp previous)
    | .rename temp previous =>
        if a.fails = true then (fs, .cleanup temp (.system "rename"))
        else (Function.update (Function.update fs (req.path host) (fs temp)) temp none, .openDir previous)
    | .openDir previous =>
        (fs, if a.fails = true then .fail (.system "open route directory") true else .syncDir previous)
    | .syncDir previous =>
        (fs, if a.fails = true then .fail (.system "fsync route directory") true
          else .finished (.wrote ⟨.written, digest (requestedDocument req), previousDigest previous⟩))
    | .cleanup temp error =>
        -- the error of the removal is dropped
        if a.fails = true then (fs, .finished (.failed error false (some temp)))
        else (Function.update fs temp none, .finished (.failed error false none))
    | .unlink =>
        if a.fails = true then (fs, .fail (.system "remove route file") false)
        else (Function.update fs (req.path host) none, .finished .removed)
    | .finished result => (fs, .finished result)
    | .crashed renamed leftover => (fs, .crashed renamed leftover)

-- The paths that the next call is about.
def touched (a : Reply) : Stage → List Path
  | .stat => if Path.refused (req.path host) = true then [] else [req.path host]
  | .read | .unlink => [req.path host]
  | .create _ _ => (a.suffix.map fun suffix => req.tempPath host suffix).toList
  | .write temp _ | .sync temp _ | .close temp _ | .cleanup temp _ => [temp]
  | .rename temp _ => [temp, req.path host]
  | _ => []

end

-- Requests that are served at the same time, each at its own stage.
def server (host : Host) (requests : Nat → Request) : Threads Files Stage Reply :=
  ⟨fun fs t a s => next host (requests t) fs a s⟩

def start (fs : Files) : Config Files Stage := ⟨fs, fun _ => .verify⟩

end AutoDeploy.Traefik
