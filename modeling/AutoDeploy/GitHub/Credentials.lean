import AutoDeploy.GitHub.Listing

namespace AutoDeploy.GitHubApp

open Lib Lib.Result

structure CheckoutBinding where
  ownerID : String
  projectID : String
  installationID : Int
  repositoryID : Int
  bindingRevision : Int
  repositoryRevision : Int
  installationRevision : Int
  cloneURL : String
  commitSHA : String
  reservationID : String
  authorizationRevision : Int
deriving DecidableEq, Repr

def CheckoutBinding.cloneURLValid (b : CheckoutBinding) : Bool :=
  "https://github.com/".toList.isPrefixOf b.cloneURL.toList && ".git".toList.isSuffixOf b.cloneURL.toList &&
    decide (b.cloneURL.utf8ByteSize ≤ 1024)

def CheckoutBinding.valid (b : CheckoutBinding) : Bool :=
  let legacy := decide (0 < b.authorizationRevision) && b.bindingRevision == 0 && b.repositoryRevision == 0 &&
    b.installationRevision == 0
  decide (b.ownerID ≠ "") && decide (b.ownerID.utf8ByteSize ≤ 128) && decide (b.projectID ≠ "") &&
    decide (b.projectID.utf8ByteSize ≤ 128) && decide (0 < b.installationID) && decide (0 < b.repositoryID) &&
      (legacy || (decide (0 < b.bindingRevision) && decide (0 < b.repositoryRevision) &&
        decide (0 < b.installationRevision)))

def isLowerHex (v : String) : Bool :=
  v.toList.all fun c => (decide ('0' ≤ c) && decide (c ≤ '9')) || (decide ('a' ≤ c) && decide (c ≤ 'f'))

def validCheckoutToken (t : Token) (repositoryID now : Int) : Bool :=
  validToken t.value t.expiresAt now && t.contents == "read" && exactPermissions t.permissions [("contents", "read")] &&
    t.repositoryIDs == [repositoryID]

-- The answer to a request for a token, with the token strings that are in its body, whatever becomes of the body.
structure MintAnswer where
  exchange : Exchange MintWire
  tokens : List String
  nonempty : ∀ t ∈ tokens, t ≠ ""
  appears : ∀ r wire, exchange.first = .response r → r.body = some wire → wire.token ≠ "" → wire.token ∈ tokens

-- The token strings of a body that was read: for a status that is not wanted it is read and thrown away, for another
-- success it is not read.
def MintAnswer.read (a : MintAnswer) : List String :=
  if a.exchange.signs then
    match a.exchange.first with
    | .failed => []
    | .response r => if r.status ≠ 201 ∧ 200 ≤ r.status ∧ r.status < 300 then [] else a.tokens
  else []

-- The body as the program takes it.
def MintAnswer.wire (a : MintAnswer) : Option MintWire := (doJSON false 201 a.exchange).toOption

def Outcome.errors {α : Type} (o : Outcome α) : Errors :=
  match o.result with
  | .ok _ => []
  | .error errs => errs

def Outcome.tokens (o : Outcome Token) : List String :=
  match o.result with
  | .ok token => [token.value]
  | .error _ => []

structure CheckoutLease where
  token : String
  binding : CheckoutBinding
  expires : Int
deriving DecidableEq, Repr

-- What the store, the provider and the clocks say to one activation.
structure ActivateWorld where
  begun : Option CheckoutBinding
  closes : Bool
  mintedAt : Int
  mint : MintAnswer
  revokeMint : Exchange Unit
  now : Int
  activates : Bool
  revoke : Exchange Unit

def ActivateWorld.closeErrors (w : ActivateWorld) : Errors := if w.closes then [] else [.checkoutUnavailable]

-- The token is given up: it is revoked unless there is none, and the reservation is closed.
def ActivateWorld.discard (w : ActivateWorld) (reason : Failure) (token : String) : Outcome CheckoutLease :=
  if token = "" then ⟨.error (reason :: w.closeErrors), []⟩
  else
    match revokeToken token w.revoke with
    | .error _ => ⟨.error (reason :: .revocationRequired :: w.closeErrors), []⟩
    | .ok _ => ⟨.error (reason :: w.closeErrors), [token]⟩

def usableBinding (reservationID : String) (b : CheckoutBinding) : Bool :=
  b.valid && decide (b.reservationID = reservationID) && b.cloneURLValid && decide (b.commitSHA.utf8ByteSize = 40) &&
    isLowerHex b.commitSHA

def activateBound (w : ActivateWorld) (b : CheckoutBinding) : Outcome CheckoutLease :=
  let minted := mintCheckoutToken b.installationID [b.repositoryID] w.mintedAt w.mint.exchange w.revokeMint
  match minted.result with
  | .error _ => ⟨.error (.checkoutUnavailable :: w.closeErrors), minted.revoked⟩
  | .ok t =>
      if validCheckoutToken t b.repositoryID w.now then
        if w.activates then ⟨.ok ⟨t.value, b, t.expiresAt⟩, []⟩ else w.discard .checkoutStale t.value
      else w.discard .checkoutUnavailable t.value

def activate (reservationID : String) (w : ActivateWorld) : Outcome CheckoutLease :=
  if reservationID = "" then ⟨.error [.checkoutUnavailable], []⟩
  else
    match w.begun with
    | none => ⟨.error (.checkoutUnavailable :: w.closeErrors), []⟩
    | some b =>
        if usableBinding reservationID b then activateBound w b
        else ⟨.error (.checkoutUnavailable :: w.closeErrors), []⟩

-- Each token of a body that was read is handed on to somebody who will revoke it, is revoked, or is in the error.
def Accounted (read returned revoked : List String) (errs : Errors) : Prop :=
  ∀ t ∈ read, t ∈ returned ∨ t ∈ revoked ∨ Failure.revocationRequired ∈ errs

def Fails (x : Except Failure Unit) : Prop := ∃ e, x = .error e

-- The operations' own errors.
theorem attempt_ne_revocation {α : Type} {want : Nat} {answer : Answer α} :
    attempt want answer ≠ .error .revocationRequired := by
  cases answer with
  | failed => simp [attempt]
  | response r =>
      rw [attempt, decode]
      split
      · split <;> simp
      · cases r.body with
        | none => simp
        | some out => simp

theorem doJSON_ne_revocation {α : Type} {get : Bool} {want : Nat} {x : Exchange α} :
    doJSON get want x ≠ .error .revocationRequired := by
  unfold doJSON
  split
  · split
    · simp
    · next e he =>
        split
        · exact attempt_ne_revocation
        · rw [← he]
          exact attempt_ne_revocation
  · simp

theorem addRepositories_ne_revocation {listed more : List Repository} :
    addRepositories listed more ≠ .error .revocationRequired := by
  induction more generalizing listed with
  | nil => simp [addRepositories]
  | cons r more ih =>
      unfold addRepositories require
      split
      · split
        · split
          · exact ih
          · simp
        · simp
      · simp

theorem listPages_ne_revocation {pages : Nat → Exchange Page} {left page : Nat} {listed : List Repository} :
    (listPages pages left page listed).1 ≠ .error .revocationRequired := by
  induction left generalizing page listed with
  | zero => simp [listPages]
  | succ left ih =>
      rw [listPages]
      split
      · next e he =>
          intro h
          cases h
          exact doJSON_ne_revocation he
      · split
        · simp
        · split
          · next e he =>
              intro h
              cases h
              exact addRepositories_ne_revocation he
          · split
            · simp
            · split
              · simp
              · exact ih

theorem read_nonempty {a : MintAnswer} {t : String} (h : t ∈ a.read) : t ≠ "" := by
  unfold MintAnswer.read at h
  split at h
  · split at h
    · exact absurd h List.not_mem_nil
    · split at h
      · exact absurd h List.not_mem_nil
      · exact a.nonempty t h
  · exact absurd h List.not_mem_nil

-- When a token that was read is accounted for, operation by operation.
def MintCovers (accepts : MintWire → Bool) (a : MintAnswer) (revoke : Exchange Unit) (t : String) : Prop :=
  ∃ wire, a.wire = some wire ∧
    (t = wire.token ∨ (accepts wire = false ∧ wire.token ≠ "" ∧ Fails (revokeToken wire.token revoke)))

theorem covers_error {a : MintAnswer} {e : Failure} (h : doJSON false 201 a.exchange = .error e) {P : MintWire → Prop} :
    ¬ ∃ wire, a.wire = some wire ∧ P wire := by
  rintro ⟨wire, hwire, -⟩
  rw [MintAnswer.wire, h] at hwire
  cases hwire

theorem covers_ok {a : MintAnswer} {wire : MintWire} (h : doJSON false 201 a.exchange = .ok wire) {P : MintWire → Prop} :
    (∃ wire, a.wire = some wire ∧ P wire) ↔ P wire := by
  rw [MintAnswer.wire, h]
  constructor
  · rintro ⟨other, hother, hp⟩
    cases hother
    exact hp
  · exact fun hp => ⟨wire, rfl, hp⟩

-- What is found wrong with a token is made good by revoking it, if there is a token and the provider does it.
theorem revokeInvalidMint_accounts {α : Type} (token : String) (revoke : Exchange Unit) {t : String} (ht : t ≠ "") :
    (t ∈ (revokeInvalidMint token revoke : Outcome α).revoked ∨
      Failure.revocationRequired ∈ (revokeInvalidMint token revoke : Outcome α).errors) ↔
        t = token ∨ (token ≠ "" ∧ Fails (revokeToken token revoke)) := by
  unfold revokeInvalidMint
  by_cases hempty : token = ""
  · subst hempty
    simp [Outcome.errors, ht]
  · rw [if_neg hempty]
    cases hrevoke : revokeToken token revoke with
    | error e => simp [Outcome.errors, Fails, hempty]
    | ok u => simp [Outcome.errors, Fails]

-- What a request for a token comes to.
theorem mint_error {id : Int} {accepts : MintWire → Bool} {token : MintWire → Token} {x : Exchange MintWire}
    {revoke : Exchange Unit} (hid : 0 < id) {e : Failure} (h : doJSON false 201 x = .error e) :
    mint id accepts token x revoke = ⟨.error [e], []⟩ := by
  rw [mint, if_pos hid, h]

theorem mint_accepted {id : Int} {accepts : MintWire → Bool} {token : MintWire → Token} {x : Exchange MintWire}
    {revoke : Exchange Unit} (hid : 0 < id) {wire : MintWire} (h : doJSON false 201 x = .ok wire)
    (haccepts : accepts wire = true) : mint id accepts token x revoke = ⟨.ok (token wire), []⟩ := by
  rw [mint, if_pos hid, h]
  exact if_pos haccepts

theorem mint_refused {id : Int} {accepts : MintWire → Bool} {token : MintWire → Token} {x : Exchange MintWire}
    {revoke : Exchange Unit} (hid : 0 < id) {wire : MintWire} (h : doJSON false 201 x = .ok wire)
    (haccepts : accepts wire = false) : mint id accepts token x revoke = revokeInvalidMint wire.token revoke := by
  rw [mint, if_pos hid, h]
  exact if_neg (by rw [haccepts]; decide)

theorem revokeInvalidMint_error {α : Type} (token : String) (revoke : Exchange Unit) :
    ∃ errs revoked, (revokeInvalidMint token revoke : Outcome α) = ⟨.error errs, revoked⟩ := by
  unfold revokeInvalidMint
  split
  · exact ⟨_, _, rfl⟩
  · split
    · exact ⟨_, _, rfl⟩
    · exact ⟨_, _, rfl⟩

theorem mint_accounts {id : Int} {accepts : MintWire → Bool} {token : MintWire → Token} {a : MintAnswer}
    {revoke : Exchange Unit} (hid : 0 < id) (htoken : ∀ wire, (token wire).value = wire.token) {t : String}
    (ht : t ∈ a.read) :
    (t ∈ (mint id accepts token a.exchange revoke).tokens ∨ t ∈ (mint id accepts token a.exchange revoke).revoked ∨
      Failure.revocationRequired ∈ (mint id accepts token a.exchange revoke).errors) ↔
        MintCovers accepts a revoke t := by
  cases hanswer : doJSON false 201 a.exchange with
  | error e =>
      have hne : Failure.revocationRequired ≠ e := fun heq => doJSON_ne_revocation (heq ▸ hanswer)
      rw [mint_error hid hanswer]
      simp only [Outcome.tokens, Outcome.errors, List.mem_singleton, List.not_mem_nil, hne, or_self, false_iff]
      exact covers_error hanswer
  | ok wire =>
      rw [MintCovers, covers_ok hanswer]
      cases haccepts : accepts wire with
      | true =>
          rw [mint_accepted hid hanswer haccepts]
          simp [Outcome.tokens, Outcome.errors, htoken]
      | false =>
          rw [mint_refused hid hanswer haccepts]
          have hnone : (revokeInvalidMint wire.token revoke : Outcome Token).tokens = [] := by
            obtain ⟨errs, revoked, heq⟩ := revokeInvalidMint_error (α := Token) wire.token revoke
            rw [heq]
            rfl
          rw [hnone]
          simp only [List.not_mem_nil, false_or, true_and]
          exact revokeInvalidMint_accounts wire.token revoke (read_nonempty ht)

-- The listing revokes its token itself, with the second of the two chances.
def ListCovers (w : ListWorld) (a : MintAnswer) (t : String) : Prop :=
  ∃ wire, a.wire = some wire ∧ (t = wire.token ∨ (wire.token ≠ "" ∧
    Fails (revokeToken wire.token (if acceptsDiscovery wire w.now then w.revoke else w.revokeMint))))

theorem headerSafe_ne {value : String} (h : headerSafe value = true) : value ≠ "" := by
  simp only [headerSafe, Bool.and_eq_true, decide_eq_true_eq] at h
  exact h.1.1

theorem acceptsDiscovery_ne {wire : MintWire} {now : Int} (h : acceptsDiscovery wire now = true) : wire.token ≠ "" := by
  simp only [acceptsDiscovery, validToken, Bool.and_eq_true] at h
  exact headerSafe_ne h.1.1.1.1.1

theorem list_accounts {id : Int} {w : ListWorld} {a : MintAnswer} (hid : 0 < id) (ha : w.mint = a.exchange) {t : String}
    (ht : t ∈ a.read) :
    (t ∈ (listInstallationRepositories id w).1.revoked ∨
      Failure.revocationRequired ∈ (listInstallationRepositories id w).1.errors) ↔ ListCovers w a t := by
  unfold listInstallationRepositories
  rw [ha]
  cases hanswer : doJSON false 201 a.exchange with
  | error e =>
      have hne : Failure.revocationRequired ≠ e := fun heq => doJSON_ne_revocation (heq ▸ hanswer)
      simp only [mintDiscoveryToken, mint_error hid hanswer, Outcome.errors, List.mem_singleton, List.not_mem_nil, hne, or_self, false_iff]
      exact covers_error hanswer
  | ok wire =>
      rw [ListCovers, covers_ok hanswer]
      cases haccepts : acceptsDiscovery wire w.now with
      | false =>
          have hrefused : mintDiscoveryToken id w.now a.exchange w.revokeMint = revokeInvalidMint wire.token w.revokeMint :=
            mint_refused hid hanswer haccepts
          have haccounts := revokeInvalidMint_accounts (α := Token) wire.token w.revokeMint (read_nonempty ht)
          obtain ⟨errs, revoked, heq⟩ := revokeInvalidMint_error (α := Token) wire.token w.revokeMint
          rw [heq] at hrefused haccounts
          simp only [hrefused, Bool.false_eq_true, if_false]
          exact haccounts
      | true =>
          have haccepted : mintDiscoveryToken id w.now a.exchange w.revokeMint =
              ⟨.ok ⟨wire.token, wire.expiresAt, [], "", wire.permissions⟩, []⟩ :=
            mint_accepted hid hanswer haccepts
          have hne := acceptsDiscovery_ne haccepts
          simp only [haccepted, if_true]
          cases hrevoke : revokeToken wire.token w.revoke with
          | ok u =>
              cases hlisted : (listPages w.pages maxPages 1 []).1 with
              | ok repositories => simp [Outcome.errors, Fails]
              | error e =>
                  have hne' : Failure.revocationRequired ≠ e := fun heq => listPages_ne_revocation (heq ▸ hlisted)
                  simp [Outcome.errors, Fails, hne']
          | error e =>
              cases hlisted : (listPages w.pages maxPages 1 []).1 with
              | ok repositories => simp [Outcome.errors, Fails, hne]
              | error e' => simp [Outcome.errors, Fails, hne]

-- An activation that gives a token up may report that; one that was handed none reports nothing of what `mint` said.
def checkoutToken (b : CheckoutBinding) (wire : MintWire) : Token :=
  ⟨wire.token, wire.expiresAt, [b.repositoryID], "read", wire.permissions⟩

def GivenUp (w : ActivateWorld) (b : CheckoutBinding) (wire : MintWire) : Prop :=
  validCheckoutToken (checkoutToken b wire) b.repositoryID w.now = false ∨ w.activates = false

def ActivateCovers (w : ActivateWorld) (b : CheckoutBinding) (t : String) : Prop :=
  ∃ wire, w.mint.wire = some wire ∧
    if acceptsCheckout b.repositoryID wire w.mintedAt then
      t = wire.token ∨ (GivenUp w b wire ∧ Fails (revokeToken wire.token w.revoke))
    else t = wire.token ∧ ¬ Fails (revokeToken wire.token w.revokeMint)

theorem closeErrors_ne (w : ActivateWorld) : Failure.revocationRequired ∉ w.closeErrors := by
  unfold ActivateWorld.closeErrors
  split <;> simp

def Outcome.lease (o : Outcome CheckoutLease) : List String :=
  match o.result with
  | .ok lease => [lease.token]
  | .error _ => []

def Outcome.accounts (o : Outcome CheckoutLease) (t : String) : Prop :=
  t ∈ o.lease ∨ t ∈ o.revoked ∨ Failure.revocationRequired ∈ o.errors

theorem discard_accounts {w : ActivateWorld} {reason : Failure} (hreason : reason ≠ .revocationRequired)
    {token t : String} (htoken : token ≠ "") :
    (w.discard reason token).accounts t ↔ t = token ∨ Fails (revokeToken token w.revoke) := by
  have hclose := closeErrors_ne w
  rw [ActivateWorld.discard, if_neg htoken]
  cases hrevoke : revokeToken token w.revoke with
  | error e => simp [Outcome.accounts, Outcome.lease, Outcome.errors, Fails]
  | ok u => simp [Outcome.accounts, Outcome.lease, Outcome.errors, Fails, hreason.symm, hclose]

theorem acceptsCheckout_ne {repository now : Int} {wire : MintWire} (h : acceptsCheckout repository wire now = true) :
    wire.token ≠ "" := by
  simp only [acceptsCheckout, validToken, Bool.and_eq_true] at h
  exact headerSafe_ne h.1.1.1.1.1.1

-- What `mint` revoked is all there is when it refuses.
theorem refused_accounts {w : ActivateWorld} {token t : String} (ht : t ≠ "") {errs : Errors} {revoked : List String}
    (h : (revokeInvalidMint token w.revokeMint : Outcome Token) = ⟨.error errs, revoked⟩) :
    (⟨.error (.checkoutUnavailable :: w.closeErrors), revoked⟩ : Outcome CheckoutLease).accounts t ↔
      t = token ∧ ¬ Fails (revokeToken token w.revokeMint) := by
  have hclose := closeErrors_ne w
  have hrevoked : t ∈ revoked ↔ t = token ∧ ¬ Fails (revokeToken token w.revokeMint) := by
    unfold revokeInvalidMint at h
    split at h
    · next hempty =>
        cases h
        simp [hempty, ht]
    · split at h
      · next e hrevoke =>
          cases h
          simp [hrevoke, Fails]
      · next hrevoke =>
          cases h
          simp [hrevoke, Fails]
  simp only [Outcome.accounts, Outcome.lease, Outcome.errors, List.not_mem_nil, List.mem_cons, reduceCtorEq, hclose,
    or_self, or_false, false_or]
  exact hrevoked

theorem usableBinding_positive {reservationID : String} {b : CheckoutBinding} (h : usableBinding reservationID b = true) :
    0 < b.installationID ∧ 0 < b.repositoryID := by
  simp only [usableBinding, CheckoutBinding.valid, Bool.and_eq_true, decide_eq_true_eq] at h
  exact ⟨h.1.1.1.1.1.1.2, h.1.1.1.1.1.2⟩

theorem activateBound_accounts {w : ActivateWorld} {b : CheckoutBinding} (hinstallation : 0 < b.installationID)
    (hrepository : 0 < b.repositoryID) {t : String} (ht : t ∈ w.mint.read) :
    (activateBound w b).accounts t ↔ ActivateCovers w b t := by
  have hclose := closeErrors_ne w
  have hmint : mintCheckoutToken b.installationID [b.repositoryID] w.mintedAt w.mint.exchange w.revokeMint =
      mint b.installationID (acceptsCheckout b.repositoryID · w.mintedAt) (checkoutToken b) w.mint.exchange
        w.revokeMint := by
    simp only [mintCheckoutToken, if_pos hrepository]
    rfl
  unfold activateBound
  rw [hmint]
  cases hanswer : doJSON false 201 w.mint.exchange with
  | error e =>
      rw [mint_error hinstallation hanswer]
      simp only [Outcome.accounts, Outcome.lease, Outcome.errors, List.not_mem_nil, List.mem_cons, reduceCtorEq, hclose,
        or_self, false_iff]
      exact covers_error hanswer
  | ok wire =>
      rw [ActivateCovers, covers_ok hanswer]
      cases haccepts : acceptsCheckout b.repositoryID wire w.mintedAt with
      | false =>
          obtain ⟨errs, revoked, heq⟩ := revokeInvalidMint_error (α := Token) wire.token w.revokeMint
          rw [mint_refused hinstallation hanswer haccepts, heq]
          exact refused_accounts (read_nonempty ht) heq
      | true =>
          have hne := acceptsCheckout_ne haccepts
          rw [mint_accepted hinstallation hanswer haccepts]
          simp only [if_true, GivenUp]
          cases hvalid : validCheckoutToken (checkoutToken b wire) b.repositoryID w.now with
          | false =>
              simp only [Bool.false_eq_true, if_false, true_or, true_and]
              exact discard_accounts (by decide) hne
          | true =>
              cases hactivates : w.activates with
              | false =>
                  simp only [Bool.false_eq_true, if_false, if_true, or_true, true_and]
                  exact discard_accounts (by decide) hne
              | true => simp [Outcome.accounts, Outcome.lease, Outcome.errors, checkoutToken]

-- The bodies that are read at all: a request has to be made.
def mintRead (made : Bool) (a : MintAnswer) : List String := if made then a.read else []

def activates (reservationID : String) (w : ActivateWorld) : Bool :=
  decide (reservationID ≠ "") && w.begun.any (usableBinding reservationID)

-- Which tokens of the answer to the mint are accounted for: all that were read, exactly if each is covered.
structure TokensAccounted (a : MintAnswer) : Prop where
  discovery : ∀ (id now : Int) (revoke : Exchange Unit),
    let o := mintDiscoveryToken id now a.exchange revoke
    Accounted (mintRead (decide (0 < id)) a) o.tokens o.revoked o.errors ↔
      ∀ t ∈ mintRead (decide (0 < id)) a, MintCovers (acceptsDiscovery · now) a revoke t
  checkout : ∀ (id repository now : Int) (revoke : Exchange Unit),
    let o := mintCheckoutToken id [repository] now a.exchange revoke
    Accounted (mintRead (decide (0 < id ∧ 0 < repository)) a) o.tokens o.revoked o.errors ↔
      ∀ t ∈ mintRead (decide (0 < id ∧ 0 < repository)) a, MintCovers (acceptsCheckout repository · now) a revoke t
  listing : ∀ (id : Int) (w : ListWorld), w.mint = a.exchange →
    let o := (listInstallationRepositories id w).1
    Accounted (mintRead (decide (0 < id)) a) [] o.revoked o.errors ↔
      ∀ t ∈ mintRead (decide (0 < id)) a, ListCovers w a t
  activation : ∀ (reservationID : String) (w : ActivateWorld), w.mint = a →
    let o := activate reservationID w
    Accounted (mintRead (activates reservationID w) a) o.lease o.revoked o.errors ↔
      ∀ t ∈ mintRead (activates reservationID w) a, ∀ b ∈ w.begun, ActivateCovers w b t

theorem minted_tokens_accounted_iff (a : MintAnswer) : TokensAccounted a := by
  refine ⟨fun id now revoke => ?_, fun id repository now revoke => ?_, fun id w ha => ?_, fun reservationID w ha => ?_⟩
  · refine forall_congr' fun t => forall_congr' fun ht => ?_
    unfold mintRead at ht
    split at ht
    · next hid => exact mint_accounts (of_decide_eq_true hid) (fun _ => rfl) ht
    · exact absurd ht List.not_mem_nil
  · refine forall_congr' fun t => forall_congr' fun ht => ?_
    unfold mintRead at ht
    split at ht
    · next hmade =>
        obtain ⟨hid, hrepository⟩ := of_decide_eq_true hmade
        simp only [mintCheckoutToken, if_pos hrepository]
        exact mint_accounts hid (fun _ => rfl) ht
    · exact absurd ht List.not_mem_nil
  · refine forall_congr' fun t => forall_congr' fun ht => ?_
    unfold mintRead at ht
    split at ht
    · next hid =>
        rw [← list_accounts (of_decide_eq_true hid) ha ht]
        simp only [List.not_mem_nil, false_or]
    · exact absurd ht List.not_mem_nil
  · subst ha
    refine forall_congr' fun t => forall_congr' fun ht => ?_
    unfold mintRead at ht
    split at ht
    · next hmade =>
        simp only [activates, Bool.and_eq_true, decide_eq_true_eq, Option.any_eq_true] at hmade
        obtain ⟨hid, b, hb, husable⟩ := hmade
        obtain ⟨hinstallation, hrepository⟩ := usableBinding_positive husable
        have hactivate : activate reservationID w = activateBound w b := by
          simp only [activate, if_neg hid, hb, husable, if_true]
        rw [hactivate, hb]
        simp only [Option.mem_def, Option.some.injEq, forall_eq']
        exact activateBound_accounts hinstallation hrepository ht
    · exact absurd ht List.not_mem_nil

-- A body with a token and a time that is none.
def undecodableAnswer : MintAnswer where
  exchange := ⟨true, .response ⟨201, false, none⟩, .failed⟩
  tokens := ["ghs_lost"]
  nonempty := by decide
  appears := by
    rintro r wire hr hwire
    cases hr
    cases hwire

-- A token for all repositories where one was asked for.
def wideAnswer : MintAnswer where
  exchange := exchangeOf 201 ⟨"ghs_wide", 3601 * second, [("contents", "read")], "all", [42]⟩
  tokens := ["ghs_wide"]
  nonempty := by decide
  appears := by
    rintro r wire hr hwire -
    cases hr
    cases hwire
    exact List.mem_singleton_self _

def sampleBinding : CheckoutBinding :=
  ⟨"owner", "project", 7, 42, 1, 1, 1, "https://github.com/acme/app.git", "0123456789abcdef0123456789abcdef01234567",
    "reservation", 0⟩

def wideWorld : ActivateWorld :=
  ⟨some sampleBinding, true, second, wideAnswer, ⟨true, .failed, .failed⟩, second, true, ⟨true, .failed, .failed⟩⟩

theorem minted_token_lost :
    (¬ ∀ (id repository now : Int) (a : MintAnswer) (revoke : Exchange Unit),
      let o := mintCheckoutToken id [repository] now a.exchange revoke
      Accounted (mintRead (decide (0 < id ∧ 0 < repository)) a) o.tokens o.revoked o.errors) ∧
    ¬ ∀ (reservationID : String) (w : ActivateWorld),
      let o := activate reservationID w
      Accounted (mintRead (activates reservationID w) w.mint) o.lease o.revoked o.errors := by
  constructor
  · intro hall
    have hlost := hall 7 42 second undecodableAnswer ⟨true, .failed, .failed⟩ "ghs_lost" (by decide +kernel)
    revert hlost
    decide +kernel
  · intro hall
    have hlost := hall "reservation" wideWorld "ghs_wide" (by decide +kernel)
    revert hlost
    decide +kernel

end AutoDeploy.GitHubApp
