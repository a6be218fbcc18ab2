import AutoDeploy.Lib.Sha256
import AutoDeploy.Lib.Result

namespace AutoDeploy

open Lib Lib.Result

namespace Text

def isDigit (c : Char) : Bool := decide ('0' ≤ c) && decide (c ≤ '9')

def isLower (c : Char) : Bool := decide ('a' ≤ c) && decide (c ≤ 'z')

def isUpper (c : Char) : Bool := decide ('A' ≤ c) && decide (c ≤ 'Z')

def isAlphanumeric (c : Char) : Bool := isDigit c || isLower c || isUpper c

-- `^[A-Za-z0-9][A-Za-z0-9_-]{0,n}$`
def opaqueName (n : Nat) (s : String) : Bool :=
  match s.toList with
  | [] => false
  | c :: rest =>
      isAlphanumeric c && decide (rest.length ≤ n) &&
        rest.all fun x => isAlphanumeric x || x == '_' || x == '-'

-- The pieces of a text between separators: always at least one.
def splitOn (sep : Char) : List Char → List (List Char)
  | [] => [[]]
  | c :: rest =>
      match splitOn sep rest with
      | [] => [[c]]
      | piece :: pieces => if c = sep then [] :: piece :: pieces else (c :: piece) :: pieces

end Text

namespace Healthgate

open Text

def maxHostLabelBytes : Nat := 253

-- `[a-z0-9](?:[a-z0-9-]{0,61}[a-z0-9])?`
def routeHostLabel (label : List Char) : Bool :=
  let edge (c : Char) := isLower c || isDigit c
  match label with
  | [] => false
  | c :: rest =>
      edge c && decide (rest.length ≤ 62) && rest.all (fun x => edge x || x == '-') &&
        (rest.isEmpty || (rest.getLast?.any edge))

def validRouteHostname (host : String) : Bool :=
  let labels := splitOn '.' host.toList
  decide (host ≠ "") && decide (host.utf8ByteSize ≤ maxHostLabelBytes) &&
    decide (2 ≤ labels.length) && labels.all routeHostLabel &&
    !(labels.getLast?.any fun label => label.all isDigit)

end Healthgate

namespace Dockerid

def containerNamePrefix : String := "autodeploy-rt-"

def containerName (runtimeInstanceID : String) : Option String :=
  if Text.opaqueName 127 runtimeInstanceID then some (containerNamePrefix ++ runtimeInstanceID) else none

def attemptRuntimeInstanceID (attemptID : Nat) : String := toString attemptID

end Dockerid

namespace Traefik

open Text

def defaultEntrypointName : String := "websecure"

def defaultCertResolverName : String := "letsencrypt-production"

inductive Scheme where
  | http
  | https
deriving DecidableEq, Repr

def Scheme.text : Scheme → String
  | .http => "http"
  | .https => "https"

structure EnvironmentRoute where
  environmentID : String
  routeRevision : Nat
  hostname : String
  entrypointName : String
  certResolverName : String
  backendRuntimeInstanceID : String
  backendPort : Nat
  backendScheme : Scheme
  releaseID : String
  fenceID : String
deriving DecidableEq, Repr

-- Every one of these is an invalid-route error; the field that failed travels with it.
inductive RouteError where
  | environmentID (value : String)
  | hostname (value : String)
  | entrypointName (value : String)
  | certResolverName (value : String)
  | backendRuntimeInstanceID (value : String)
  | backendPort (value : Nat)
  | releaseID (value : String)
  | fenceID (value : String)
  | nonASCII (byte : UInt8) (offset : Nat)
deriving DecidableEq, Repr

def EnvironmentRoute.validate (r : EnvironmentRoute) : Except RouteError Unit := do
  require (opaqueName 127 r.environmentID) (.environmentID r.environmentID)
  require (Healthgate.validRouteHostname r.hostname) (.hostname r.hostname)
  require (opaqueName 62 r.entrypointName) (.entrypointName r.entrypointName)
  require (opaqueName 62 r.certResolverName) (.certResolverName r.certResolverName)
  require (Dockerid.containerName r.backendRuntimeInstanceID).isSome
    (.backendRuntimeInstanceID r.backendRuntimeInstanceID)
  require (1 ≤ r.backendPort ∧ r.backendPort ≤ 65535) (.backendPort r.backendPort)
  require (opaqueName 127 r.releaseID) (.releaseID r.releaseID)
  require (opaqueName 127 r.fenceID) (.fenceID r.fenceID)

def routerName (r : EnvironmentRoute) : String := "autodeploy-router-" ++ r.environmentID

def serviceName (r : EnvironmentRoute) : String :=
  "autodeploy-svc-" ++ r.environmentID ++ "-" ++ r.releaseID ++ "-" ++ r.fenceID

def backendServerURL (r : EnvironmentRoute) : Except RouteError String := do
  let name ← found (Dockerid.containerName r.backendRuntimeInstanceID)
    (.backendRuntimeInstanceID r.backendRuntimeInstanceID)
  pure (r.backendScheme.text ++ "://" ++ name ++ ":" ++ toString r.backendPort)

def hexUpper (n : Nat) : UInt8 := if n < 10 then UInt8.ofNat (48 + n) else UInt8.ofNat (55 + n)

-- One byte inside a double-quoted scalar.
def escapeYAMLByte (c : UInt8) : Bytes :=
  if c = 0x5c then [0x5c, 0x5c]
  else if c = 0x22 then [0x5c, 0x22]
  else if c = 0x0a then [0x5c, 0x6e]
  else if c = 0x0d then [0x5c, 0x72]
  else if c = 0x09 then [0x5c, 0x74]
  else if c < 0x20 ∨ c = 0x7f then [0x5c, 0x78, hexUpper (c.toNat / 16), hexUpper (c.toNat % 16)]
  else [c]

def quoteYAMLBody (offset : Nat) : Bytes → Except RouteError Bytes
  | [] => .ok []
  | c :: rest =>
      if 0x80 ≤ c then .error (.nonASCII c offset)
      else do
        let tail ← quoteYAMLBody (offset + 1) rest
        pure (escapeYAMLByte c ++ tail)

def quoteYAMLString (s : String) : Except RouteError Bytes := do
  let body ← quoteYAMLBody 0 (Bytes.ofString s)
  pure (0x22 :: body ++ [0x22])

def ruleValue (hostname : String) : String := "Host(`" ++ hostname ++ "`)"

def line (s : String) : Bytes := Bytes.ofString s

-- The document is a fixed sequence of lines with every scalar quoted.
def renderDocument (r : EnvironmentRoute) (router service backendURL : String) :
    Except RouteError Bytes := do
  let routerQ ← quoteYAMLString router
  let ruleQ ← quoteYAMLString (ruleValue r.hostname)
  let entrypointQ ← quoteYAMLString r.entrypointName
  let serviceQ ← quoteYAMLString service
  let resolverQ ← quoteYAMLString r.certResolverName
  let urlQ ← quoteYAMLString backendURL
  pure (
    line "# Generated by autodeploy internal/runtime/traefik. Do not edit by hand;\n" ++
    line "# this file is replaced atomically on every activation.\n" ++
    line ("# environment: " ++ r.environmentID ++ "\n") ++
    line ("# route_revision: " ++ toString r.routeRevision ++ "\n") ++
    line "http:\n" ++
    line "  routers:\n" ++
    line "    " ++ routerQ ++ line ":\n" ++
    line "      rule: " ++ ruleQ ++ line "\n" ++
    line "      entryPoints:\n" ++
    line "        - " ++ entrypointQ ++ line "\n" ++
    line "      service: " ++ serviceQ ++ line "\n" ++
    line "      tls:\n" ++
    line "        certResolver: " ++ resolverQ ++ line "\n" ++
    line "  services:\n" ++
    line "    " ++ serviceQ ++ line ":\n" ++
    line "      loadBalancer:\n" ++
    line "        servers:\n" ++
    line "          - url: " ++ urlQ ++ line "\n")

-- The textual form of a digest.
def digestText (d : Digest) : String := "sha256:" ++ String.ofList (Bytes.toHex d.bytes)

def digest (doc : Bytes) : String := digestText (Sha256.sum doc)

def render (r : EnvironmentRoute) : Except RouteError (Bytes × String) := do
  r.validate
  let backendURL ← backendServerURL r
  let doc ← renderDocument r (routerName r) (serviceName r) backendURL
  pure (doc, digest doc)

def trimDigestScheme : List Char → List Char
  | 's' :: 'h' :: 'a' :: '2' :: '5' :: '6' :: ':' :: rest => rest
  | s => s

-- What a reader of the textual digest recovers: trim the scheme, decode, check the length.
def decodeDigest (s : String) : Option Digest := do
  let bytes ← Bytes.ofHex (trimDigestScheme s.toList)
  Digest.ofBytes? bytes

@[simp] theorem decodeDigest_digestText (d : Digest) : decodeDigest (digestText d) = some d := by
  have htext : trimDigestScheme (digestText d).toList = Bytes.toHex d.bytes := by
    simp only [digestText, String.toList_append, String.toList_ofList]
    rfl
  simp [decodeDigest, htext]

-- A textual digest determines the digest.
theorem digestText_injective {d d' : Digest} (h : digestText d = digestText d') : d = d' := by
  have := congrArg decodeDigest h
  simpa using this

end Traefik

end AutoDeploy
