import AutoDeploy.Lib.Result

namespace AutoDeploy.GitHubApp

open Lib Lib.Result

def maxRepositories : Nat := 1000

def maxPages : Nat := 10

def maxTokenBytes : Nat := 8192

-- Times are nanoseconds since the zero time.
def second : Int := 1000000000

def tokenSafetyMargin : Int := 30 * second

def tokenExpiryTolerance : Int := 60 * second

structure ProviderError where
  statusCode : Nat
  rateLimited : Bool
  temporary : Bool
deriving DecidableEq, Repr

inductive Failure where
  | invalidIdentity
  | invalidResponse
  | signer
  | provider (e : ProviderError)
  | revocationRequired
  | checkoutUnavailable
  | checkoutStale
deriving DecidableEq, Repr

-- What `errors.Join` holds.
abbrev Errors := List Failure

-- A response: the body is nothing when it is too long, breaks off or does not decode.
structure Response (α : Type) where
  status : Nat
  rateLimited : Bool
  body : Option α

inductive Answer (α : Type) where
  | failed
  | response (r : Response α)

-- One call of `doJSON`, with what its first and its second attempt come to.
structure Exchange (α : Type) where
  signs : Bool
  first : Answer α
  second : Answer α

section

variable {α : Type}

def Response.error (r : Response α) : ProviderError where
  statusCode := r.status
  rateLimited := r.status == 429 || (r.status == 403 && r.rateLimited)
  temporary := r.status == 502 || r.status == 503 || r.status == 504

def decode (wantStatus : Nat) (r : Response α) : Except Failure α :=
  if r.status ≠ wantStatus then
    if 200 ≤ r.status ∧ r.status < 300 then .error .invalidResponse else .error (.provider r.error)
  else found r.body .invalidResponse

def attempt (wantStatus : Nat) : Answer α → Except Failure α
  | .failed => .error (.provider ⟨0, false, true⟩)
  | .response r => decode wantStatus r

def Failure.temporary : Failure → Bool
  | .provider e => e.temporary
  | _ => false

-- Only a `GET` is tried again.
def doJSON (get : Bool) (wantStatus : Nat) (x : Exchange α) : Except Failure α :=
  if x.signs then
    match attempt wantStatus x.first with
    | .ok out => .ok out
    | .error e => if get && e.temporary then attempt wantStatus x.second else .error e
  else .error .signer

-- A request whose body nobody decodes.
def Answer.bodyless : Answer α → Answer Unit
  | .failed => .failed
  | .response r => .response ⟨r.status, r.rateLimited, some ()⟩

end

def validText (s : String) (limit : Nat) : Bool :=
  decide (s ≠ "") && decide (s.utf8ByteSize ≤ limit) &&
    s.toList.all fun c => decide (0x21 ≤ c.toNat) && decide (c.toNat ≤ 0x7e)

structure Installation where
  id : Int
  accountID : Int
  accountType : String
  suspended : Bool
  targetType : String
  repositorySelection : String
deriving DecidableEq, Repr

def validOwner (accountID : Int) (type : String) : Bool :=
  decide (0 < accountID) && (type == "User" || type == "Organization")

def getInstallation (id : Int) (x : Exchange Installation) : Except Failure Installation := do
  require (0 < id) .invalidIdentity
  let wire ← doJSON true 200 x
  require (wire.id = id ∧ validOwner wire.accountID wire.accountType = true ∧ wire.targetType = wire.accountType ∧
    (wire.repositorySelection = "all" ∨ wire.repositorySelection = "selected")) .invalidResponse
  pure wire

structure Repository where
  id : Int
  nodeID : String
  ownerID : Int
  name : String
  fullName : String
  defaultBranch : String
deriving DecidableEq, Repr

def validRepository (id : Int) (name full : String) : Bool :=
  decide (0 < id) && validText name 255 && validText full 512 &&
    match full.toList.dropWhile (· ≠ '/') with
    | [] => false
    | _ :: repo =>
        let owner := full.toList.takeWhile (· ≠ '/')
        decide (owner ≠ []) && decide (repo = name.toList) && validText (String.ofList owner) 255 && !repo.contains '/'

def validEntry (r : Repository) : Bool :=
  validRepository r.id r.name r.fullName && (r.nodeID == "" || validText r.nodeID 255) &&
    (r.defaultBranch == "" || validText r.defaultBranch 255)

structure Page where
  totalCount : Int
  repositories : List Repository
deriving DecidableEq, Repr

structure MintWire where
  token : String
  expiresAt : Int
  permissions : List (String × String)
  repositorySelection : String
  repositories : List Int
deriving DecidableEq, Repr

structure Token where
  value : String
  expiresAt : Int
  repositoryIDs : List Int
  contents : String
  permissions : List (String × String)
deriving DecidableEq, Repr

def exactPermissions (got want : List (String × String)) : Bool :=
  decide (got.length = want.length) && want.all fun entry => (got.lookup entry.1).getD "" == entry.2

-- What may stand in a header.
def headerSafe (value : String) : Bool :=
  decide (value ≠ "") && decide (value.utf8ByteSize ≤ maxTokenBytes) &&
    !value.toList.any fun c => c == '\r' || c == '\n' || c == '\x00'

def validToken (value : String) (expiresAt now : Int) : Bool :=
  headerSafe value && decide (expiresAt ≠ 0) && decide (now + tokenSafetyMargin < expiresAt) &&
    decide (expiresAt < now + 3600 * second + tokenExpiryTolerance + 1)

def revokeToken (token : String) (x : Exchange Unit) : Except Failure Unit := do
  require (headerSafe token) .invalidIdentity
  doJSON false 204 ⟨x.signs, x.first.bodyless, x.second.bodyless⟩

-- What a call came to, with the tokens that were revoked on the way.
structure Outcome (α : Type) where
  result : Except Errors α
  revoked : List String

def revokeInvalidMint {α : Type} (token : String) (x : Exchange Unit) : Outcome α :=
  if token = "" then ⟨.error [.invalidResponse], []⟩
  else
    match revokeToken token x with
    | .error _ => ⟨.error [.invalidResponse, .revocationRequired], []⟩
    | .ok _ => ⟨.error [.invalidResponse], [token]⟩

def acceptsDiscovery (wire : MintWire) (now : Int) : Bool :=
  validToken wire.token wire.expiresAt now && wire.repositorySelection == "all" &&
    exactPermissions wire.permissions [("metadata", "read")]

def acceptsCheckout (repository : Int) (wire : MintWire) (now : Int) : Bool :=
  validToken wire.token wire.expiresAt now && wire.repositorySelection == "selected" &&
    exactPermissions wire.permissions [("contents", "read")] && wire.repositories == [repository]

-- What the two kinds of token differ in: the check of the answer, and the token made of it.
def mint (id : Int) (accepts : MintWire → Bool) (token : MintWire → Token) (x : Exchange MintWire)
    (revoke : Exchange Unit) : Outcome Token :=
  if 0 < id then
    match doJSON false 201 x with
    | .error e => ⟨.error [e], []⟩
    | .ok wire => if accepts wire then ⟨.ok (token wire), []⟩ else revokeInvalidMint wire.token revoke
  else ⟨.error [.invalidIdentity], []⟩

def mintDiscoveryToken (id now : Int) (x : Exchange MintWire) (revoke : Exchange Unit) : Outcome Token :=
  mint id (acceptsDiscovery · now) (fun wire => ⟨wire.token, wire.expiresAt, [], "", wire.permissions⟩) x revoke

def mintCheckoutToken (id : Int) (repos : List Int) (now : Int) (x : Exchange MintWire) (revoke : Exchange Unit) :
    Outcome Token :=
  match repos with
  | [repository] =>
      if 0 < repository then
        mint id (acceptsCheckout repository · now)
          (fun wire => ⟨wire.token, wire.expiresAt, [repository], "read", wire.permissions⟩) x revoke
      else ⟨.error [.invalidIdentity], []⟩
  | _ => ⟨.error [.invalidIdentity], []⟩

def addRepositories : List Repository → List Repository → Except Failure (List Repository)
  | listed, [] => .ok listed
  | listed, r :: rest => do
      require (validEntry r) .invalidResponse
      require (r.id ∉ listed.map Repository.id) .invalidResponse
      require (listed.length + 1 ≤ maxRepositories) .invalidResponse
      addRepositories (listed ++ [r]) rest

-- The pages from one on, and the totals they report.
def listPages (pages : Nat → Exchange Page) : Nat → Nat → List Repository → Except Failure (List Repository) × List Int
  | 0, _, _ => (.error .invalidResponse, [])
  | left + 1, page, listed =>
      match doJSON true 200 (pages page) with
      | .error e => (.error e, [])
      | .ok wire =>
          if wire.totalCount < 0 ∨ maxRepositories < wire.totalCount ∨ 100 < wire.repositories.length then
            (.error .invalidResponse, [wire.totalCount])
          else
            match addRepositories listed wire.repositories with
            | .error e => (.error e, [wire.totalCount])
            | .ok listed =>
                if (listed.length : Int) = wire.totalCount then (.ok listed, [wire.totalCount])
                else if wire.totalCount < listed.length ∨ wire.repositories.length < 100 then
                  (.error .invalidResponse, [wire.totalCount])
                else
                  let rest := listPages pages left (page + 1) listed
                  (rest.1, wire.totalCount :: rest.2)

-- What the provider and the clock say to one listing.
structure ListWorld where
  now : Int
  mint : Exchange MintWire
  revokeMint : Exchange Unit
  pages : Nat → Exchange Page
  revoke : Exchange Unit

-- The token is revoked whatever the pages came to.
def listInstallationRepositories (id : Int) (w : ListWorld) : Outcome (List Repository) × List Int :=
  let minted := mintDiscoveryToken id w.now w.mint w.revokeMint
  match minted.result with
  | .error errs => (⟨.error errs, minted.revoked⟩, [])
  | .ok token =>
      let listed := listPages w.pages maxPages 1 []
      match revokeToken token.value w.revoke, listed.1 with
      | .ok _, .ok repositories => (⟨.ok repositories, token.value :: minted.revoked⟩, listed.2)
      | .ok _, .error e => (⟨.error [e], token.value :: minted.revoked⟩, listed.2)
      | .error e, .ok _ => (⟨.error [.revocationRequired, e], minted.revoked⟩, listed.2)
      | .error _, .error e => (⟨.error [e, .revocationRequired], minted.revoked⟩, listed.2)

end AutoDeploy.GitHubApp
