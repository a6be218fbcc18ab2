import AutoDeploy.Lib.Interleaving
import AutoDeploy.Protocol.Theorems.Materialization
import AutoDeploy.Store.Bindings

namespace AutoDeploy.Protocol

open Lib Lib.Result Queue Store

section

variable {db db' : DB} {environmentID : String}

-- What one variable of the environment is bound to: a secret with the version it resolves to, or a literal.

def secretView (environmentID : String) (db : DB) (name : String) : Option (DeliveryScope × Option String) :=
  match db.administration.bindings.get? (environmentID, name) with
  | some ⟨scope, .secret headID⟩ => some (scope, activeVersion db headID)
  | _ => none

def literalView (environmentID : String) (db : DB) (name : String) : Option (DeliveryScope × String) :=
  match db.administration.bindings.get? (environmentID, name) with
  | some ⟨scope, .literal value⟩ => some (scope, value)
  | _ => none

-- The variables of an attempt are exactly the bindings of the environment at this moment: nothing is left out, none is
-- there twice, and every secret has its active version.
structure FrozenAt (db : DB) (environmentID : String) (bindings : List FrozenBinding) (literals : List FrozenLiteral) :
    Prop where
  secret : ∀ b : FrozenBinding, b ∈ bindings ↔ ∃ headID,
    db.administration.bindings.get? (environmentID, b.variableName) = some ⟨b.deliveryScope, .secret headID⟩ ∧
      activeVersion db headID = some b.secretVersionID
  literal : ∀ l : FrozenLiteral, l ∈ literals ↔
    db.administration.bindings.get? (environmentID, l.variableName) = some ⟨l.deliveryScope, .literal l.literalValue⟩
  complete : ∀ name scope headID,
    db.administration.bindings.get? (environmentID, name) = some ⟨scope, .secret headID⟩ →
      (activeVersion db headID).isSome = true
  distinct : (bindings.map FrozenBinding.variableName ++ literals.map FrozenLiteral.variableName).Nodup

theorem secretView_eq_some {name : String} {scope : DeliveryScope} {version : Option String} :
    secretView environmentID db name = some (scope, version) ↔ ∃ headID,
      db.administration.bindings.get? (environmentID, name) = some ⟨scope, .secret headID⟩ ∧
        activeVersion db headID = version := by
  unfold secretView
  cases hget : db.administration.bindings.get? (environmentID, name) with
  | none => simp
  | some b =>
      obtain ⟨scope', source⟩ := b
      cases source with
      | literal value => simp
      | secret headID => simp [and_comm, eq_comm]

theorem literalView_eq_some {name value : String} {scope : DeliveryScope} :
    literalView environmentID db name = some (scope, value) ↔
      db.administration.bindings.get? (environmentID, name) = some ⟨scope, .literal value⟩ := by
  unfold literalView
  cases hget : db.administration.bindings.get? (environmentID, name) with
  | none => simp
  | some b =>
      obtain ⟨scope', source⟩ := b
      cases source with
      | secret headID => simp
      | literal value' => simp

theorem mem_orderByVariable {α : Type} {name : α → String} {rows : List α} {x : α} :
    x ∈ orderByVariable name rows ↔ x ∈ rows :=
  List.mem_insertionSort _

theorem length_orderByVariable {α : Type} (name : α → String) (rows : List α) :
    (orderByVariable name rows).length = rows.length :=
  List.length_insertionSort _ _

theorem mem_secretBindings {name headID : String} {scope : DeliveryScope} :
    (name, scope, headID) ∈ secretBindings db environmentID ↔
      db.administration.bindings.get? (environmentID, name) = some ⟨scope, .secret headID⟩ := by
  simp only [secretBindings, List.mem_filterMap, Prod.exists]
  constructor
  · rintro ⟨env, name', ⟨scope', source⟩, hmem, hrow⟩
    obtain ⟨hget, henv⟩ := (Table.mem_select _ _ _ _).1 hmem
    cases source with
    | literal value => cases hrow
    | secret head =>
        cases hrow
        simp only [beq_iff_eq] at henv
        subst henv
        exact hget
  · intro hget
    exact ⟨environmentID, name, ⟨scope, .secret headID⟩, (Table.mem_select _ _ _ _).2 ⟨hget, by simp⟩, rfl⟩

theorem mem_joinSecretBindings {b : FrozenBinding} :
    b ∈ joinSecretBindings db environmentID ↔
      secretView environmentID db b.variableName = some (b.deliveryScope, some b.secretVersionID) := by
  simp only [joinSecretBindings, mem_orderByVariable, List.mem_filterMap, Prod.exists, Option.map_eq_some_iff,
    mem_secretBindings, secretView_eq_some]
  constructor
  · rintro ⟨name, scope, headID, hget, version, hversion, rfl⟩
    exact ⟨headID, hget, hversion⟩
  · rintro ⟨headID, hget, hversion⟩
    exact ⟨_, _, headID, hget, _, hversion, rfl⟩

theorem mem_literals {l : FrozenLiteral} :
    l ∈ resolveRuntimeLiteralBindings db environmentID ↔
      literalView environmentID db l.variableName = some (l.deliveryScope, l.literalValue) := by
  simp only [resolveRuntimeLiteralBindings, mem_orderByVariable, List.mem_filterMap, Prod.exists, literalView_eq_some]
  constructor
  · rintro ⟨env, name, ⟨scope, source⟩, hmem, hrow⟩
    obtain ⟨hget, henv⟩ := (Table.mem_select _ _ _ _).1 hmem
    simp only [beq_iff_eq] at henv
    subst henv
    cases source with
    | secret head => cases hrow
    | literal value =>
        cases hrow
        exact hget
  · intro hget
    exact ⟨environmentID, l.variableName, _, (Table.mem_select _ _ _ _).2 ⟨hget, by simp⟩, rfl⟩

-- The join loses a binding exactly when it has no active version.
theorem joinSecretBindings_complete_iff :
    (joinSecretBindings db environmentID).length = countSecretBindings db environmentID ↔
      ∀ name scope headID, db.administration.bindings.get? (environmentID, name) = some ⟨scope, .secret headID⟩ →
        (activeVersion db headID).isSome = true := by
  rw [joinSecretBindings, length_orderByVariable, countSecretBindings, List.filterMap_length_eq_length]
  simp only [Option.isSome_map, Prod.forall, mem_secretBindings]

theorem filterMap_sublist_map {α β γ : Type} {f : α → Option β} (name : β → γ) (key : α → γ) (rows : List α)
    (h : ∀ x y, f x = some y → name y = key x) :
    ((rows.filterMap f).map name).Sublist (rows.map key) := by
  induction rows with
  | nil => exact .slnil
  | cons x rest ih =>
      cases hx : f x with
      | none =>
          rw [List.filterMap_cons_none hx]
          exact ih.cons _
      | some y =>
          rw [List.filterMap_cons_some hx, List.map_cons, List.map_cons, h x y hx]
          exact ih.cons_cons _

theorem nodup_orderByVariable {α : Type} {name : α → String} {rows : List α} (h : (rows.map name).Nodup) :
    ((orderByVariable name rows).map name).Nodup :=
  (((List.perm_insertionSort _ rows).map name).nodup_iff).2 h

def boundName (row : (String × String) × Binding) : String := row.1.2

def boundRows (db : DB) (environmentID : String) : List ((String × String) × Binding) :=
  db.administration.bindings.select fun k _ => k.1 == environmentID

theorem nodup_boundNames (db : DB) (environmentID : String) :
    ((boundRows db environmentID).map boundName).Nodup := by
  refine List.Nodup.map_on ?_ (Table.nodup_select _ _)
  rintro ⟨⟨e, n⟩, b⟩ hmem ⟨⟨e', n'⟩, b'⟩ hmem' hname
  obtain ⟨hget, he⟩ := (Table.mem_select _ _ _ _).1 hmem
  obtain ⟨hget', he'⟩ := (Table.mem_select _ _ _ _).1 hmem'
  simp only [beq_iff_eq, boundName] at he he' hname
  subst he he' hname
  rw [hget] at hget'
  cases hget'
  rfl

-- Each of the two lists names a variable once.
theorem nodup_joinSecretBindings :
    ((joinSecretBindings db environmentID).map FrozenBinding.variableName).Nodup := by
  refine nodup_orderByVariable ((nodup_boundNames db environmentID).sublist ?_)
  have hbound : ((secretBindings db environmentID).map Prod.fst).Sublist
      ((boundRows db environmentID).map boundName) := by
    refine filterMap_sublist_map Prod.fst boundName _ ?_
    rintro ⟨key, scope, source⟩ y hy
    cases source with
    | literal value => cases hy
    | secret headID =>
        cases hy
        rfl
  refine (filterMap_sublist_map FrozenBinding.variableName Prod.fst _ ?_).trans hbound
  rintro x y hy
  obtain ⟨v, -, rfl⟩ := Option.map_eq_some_iff.1 hy
  rfl

theorem nodup_literals :
    ((resolveRuntimeLiteralBindings db environmentID).map FrozenLiteral.variableName).Nodup := by
  refine nodup_orderByVariable ((nodup_boundNames db environmentID).sublist ?_)
  refine filterMap_sublist_map FrozenLiteral.variableName boundName _ ?_
  rintro ⟨key, scope, source⟩ y hy
  cases source with
  | secret headID => cases hy
  | literal value =>
      cases hy
      rfl

-- A moment with the secrets of one state, all of them active, and the literals of another.
theorem frozenAt_of_views {moment joined listed : DB}
    (hsecrets : secretView environmentID moment = secretView environmentID joined)
    (hliterals : literalView environmentID moment = literalView environmentID listed)
    (hcomplete : (joinSecretBindings joined environmentID).length = countSecretBindings joined environmentID) :
    FrozenAt moment environmentID (joinSecretBindings joined environmentID)
      (resolveRuntimeLiteralBindings listed environmentID) where
  secret b := by
    rw [mem_joinSecretBindings, ← hsecrets]
    exact secretView_eq_some
  literal l := by
    rw [mem_literals, ← hliterals]
    exact literalView_eq_some
  complete name scope headID hget := by
    have hview : secretView environmentID joined name = some (scope, activeVersion moment headID) := by
      rw [← hsecrets]
      exact secretView_eq_some.2 ⟨headID, hget, rfl⟩
    obtain ⟨headID', hget', hversion⟩ := secretView_eq_some.1 hview
    rw [← hversion]
    exact joinSecretBindings_complete_iff.1 hcomplete name scope headID' hget'
  distinct := by
    rw [List.nodup_append]
    refine ⟨nodup_joinSecretBindings, nodup_literals, ?_⟩
    -- a variable in both lists would be bound twice at the moment
    rintro name hsecret _ hliteral rfl
    obtain ⟨b, hb, rfl⟩ := List.mem_map.1 hsecret
    obtain ⟨l, hl, hname⟩ := List.mem_map.1 hliteral
    rw [mem_joinSecretBindings, ← hsecrets] at hb
    rw [mem_literals, ← hliterals, hname] at hl
    obtain ⟨headID, hget, -⟩ := secretView_eq_some.1 hb
    have htwice := hget.symm.trans (literalView_eq_some.1 hl)
    simp at htwice

-- Where no binding is a literal before or after, the literals stay; so with the secrets, whose versions stay too.
theorem literalView_setBindings {bindings : Table (String × String) Binding} {key : String × String}
    (hother : ∀ k, k ≠ key → bindings.get? k = db.administration.bindings.get? k)
    (hold : ∀ scope value, db.administration.bindings.get? key ≠ some ⟨scope, .literal value⟩)
    (hnew : ∀ scope value, bindings.get? key ≠ some ⟨scope, .literal value⟩) :
    literalView environmentID (setBindings db bindings) = literalView environmentID db := by
  funext name
  refine Option.ext fun ⟨scope, value⟩ => ?_
  rw [literalView_eq_some, literalView_eq_some]
  by_cases hkey : (environmentID, name) = key
  · subst hkey
    exact ⟨fun h => absurd h (hnew scope value), fun h => absurd h (hold scope value)⟩
  · exact Eq.congr (hother _ hkey) rfl

theorem secretView_setBindings {bindings : Table (String × String) Binding} {key : String × String}
    (hother : ∀ k, k ≠ key → bindings.get? k = db.administration.bindings.get? k)
    (hold : ∀ scope headID, db.administration.bindings.get? key ≠ some ⟨scope, .secret headID⟩)
    (hnew : ∀ scope headID, bindings.get? key ≠ some ⟨scope, .secret headID⟩) :
    secretView environmentID (setBindings db bindings) = secretView environmentID db := by
  funext name
  refine Option.ext fun ⟨scope, version⟩ => ?_
  rw [secretView_eq_some, secretView_eq_some]
  refine exists_congr fun headID => and_congr_left' ?_
  by_cases hkey : (environmentID, name) = key
  · subst hkey
    exact ⟨fun h => absurd h (hnew scope headID), fun h => absurd h (hold scope headID)⟩
  · exact Eq.congr (hother _ hkey) rfl

-- No transaction touches the secrets and the literals of an environment at once.
theorem commit_keeps_one (db : DB) (e : Edit) :
    secretView environmentID (commit db e) = secretView environmentID db ∨
      literalView environmentID (commit db e) = literalView environmentID db := by
  unfold commit
  cases hrun : e.run db with
  | error err => exact .inl rfl
  | ok db' =>
      cases e with
      | addBinding now principal env input =>
          simp only [Edit.run, addEnvironmentRuntimeBinding, bind_eq_ok, require_eq_ok, pure_eq_ok] at hrun
          obtain ⟨_, -, _, -, _, hfree, _, -, rfl⟩ := hrun
          obtain ⟨name, scope, source⟩ := input
          have hother : ∀ k, k ≠ (env, name) → (db.administration.bindings.put (env, name) ⟨scope, source⟩).get? k =
              db.administration.bindings.get? k := fun k hk => by rw [Table.get?_put, if_neg hk]
          cases source with
          | literal value => exact .inl (secretView_setBindings hother (by simp [hfree]) (by simp))
          | secret headID => exact .inr (literalView_setBindings hother (by simp [hfree]) (by simp))
      | removeBinding now principal env name =>
          simp only [Edit.run, removeEnvironmentRuntimeBinding, bind_eq_ok, require_eq_ok, pure_eq_ok] at hrun
          obtain ⟨_, -, _, -, _, hbound, rfl⟩ := hrun
          have hother : ∀ k, k ≠ (env, name) → (db.administration.bindings.erase (env, name)).get? k =
              db.administration.bindings.get? k := fun k hk => by rw [Table.get?_erase, if_neg hk]
          obtain ⟨⟨scope, source⟩, hb⟩ := Option.isSome_iff_exists.1 hbound
          cases source with
          | literal value => exact .inl (secretView_setBindings hother (by simp [hb]) (by simp [Table.get?_erase]))
          | secret headID => exact .inr (literalView_setBindings hother (by simp [hb]) (by simp [Table.get?_erase]))
      | updateConfig now principal env settings expected =>
          simp only [Edit.run, updateEnvironmentRuntimeConfig, bind_eq_ok, require_eq_ok, found_eq_ok, pure_eq_ok] at hrun
          obtain ⟨_, -, stored, -, _, -, rfl⟩ := hrun
          exact .inl rfl
      | replaceSecret mutation compromised =>
          simp only [Edit.run, replaceSecret, bind_eq_ok, require_eq_ok, found_eq_ok, pure_eq_ok] at hrun
          obtain ⟨head, -, currentID, -, current, -, _, -, _, -, _, -, _, -, rfl⟩ := hrun
          exact .inr rfl

-- What a claim answers and stores is the plan it made.
theorem leaseCandidate_freezes {now jobID : Nat} {serverID : String} {job : Job} {slot : Slot}
    {config : ExecutionSnapshot} {bindings : List FrozenBinding} {literals : List FrozenLiteral} {lease : ClaimedLease}
    (h : leaseCandidate now db serverID jobID job slot (.fresh config bindings literals) = .ok (db', some lease)) :
    lease.secretBindings = bindings ∧ lease.literalBindings = literals ∧
      db'.frozenBindings.get? lease.attemptID = some bindings ∧
      db'.frozenLiterals.get? lease.attemptID = some literals := by
  simp only [leaseCandidate, bind_eq_ok, during_eq_ok, Prod.exists] at h
  obtain ⟨db₁, _, -, db₂, n, -, h⟩ := h
  split at h
  · simp at h
  · simp only [bind_eq_ok, during_eq_ok, Prod.exists, pure_eq_ok, Prod.mk.injEq, Option.some.injEq] at h
    obtain ⟨db₃, attemptID, -, db₄, _, -, db₅, -, db₆, execution, bindings', literals', hfreeze, db₇, hrelease, rfl,
      rfl⟩ := h
    simp only [freeze, pure_eq_ok, Prod.mk.injEq] at hfreeze
    obtain ⟨rfl, rfl, rfl, rfl⟩ := hfreeze
    obtain rfl | ⟨release, rfl, -⟩ := ensureRelease_cases hrelease
    · simp [appendAgentJobEvent]
    · simp [appendAgentJobEvent, putRelease]

theorem leaseCandidate_number {now jobID : Nat} {serverID : String} {job : Job} {slot : Slot} {plan : FreezePlan}
    {lease : ClaimedLease} (h : leaseCandidate now db serverID jobID job slot plan = .ok (db', some lease)) :
    lease.attemptNumber = job.attemptCount + 1 := by
  simp only [leaseCandidate, bind_eq_ok, during_eq_ok, Prod.exists] at h
  obtain ⟨db₁, _, -, db₂, n, -, h⟩ := h
  split at h
  · simp at h
  · simp only [bind_eq_ok, Prod.exists, pure_eq_ok, Prod.mk.injEq, Option.some.injEq] at h
    obtain ⟨_, _, -, _, _, -, _, -, _, _, _, _, -, _, -, -, rfl⟩ := h
    rfl

theorem commitAll_append (db : DB) (before later : List Edit) :
    commitAll db (before ++ later) = commitAll (commitAll db before) later :=
  List.foldl_append

theorem planFreezeAmid_alone (db : DB) (config : ExecutionSnapshot) (jobID : Nat) (job : Job) :
    planFreezeAmid db ⟨[], [], [], [], []⟩ config jobID job = planFreeze db config jobID job := by
  simp only [planFreezeAmid, commitAll, List.foldl_nil]
  by_cases hfirst : job.attemptCount = 0
  · simp only [planFreeze, if_pos hfirst, countLiteralBindings, and_true, joinSecretBindings, length_orderByVariable,
      countSecretBindings, resolveRuntimeSecretBindings]
    split
    · rfl
    · rfl
  · rw [if_neg hfirst]

-- Alone, the claim is `tryClaim`.
theorem tryClaimAmid_alone (now : Nat) (db : DB) (serverID : String) (jobID : Nat) (environmentID : String) :
    tryClaimAmid now db ⟨[], [], [], [], []⟩ serverID jobID environmentID =
      tryClaim now db serverID jobID environmentID := by
  unfold tryClaimAmid tryClaim
  simp only [planFreezeAmid_alone]
  rfl

-- The first attempt of a claim: the secrets the join saw, as many as were counted, and the literals seen last.
theorem tryClaimAmid_first {now jobID : Nat} {serverID : String} {g : Gaps} {lease : ClaimedLease}
    (h : tryClaimAmid now db g serverID jobID environmentID = .ok (db', some lease)) (hfirst : lease.attemptNumber = 1) :
    lease.secretBindings = joinSecretBindings (commitAll (commitAll db g.count) g.join) environmentID ∧
      lease.secretBindings.length = countSecretBindings (commitAll db g.count) environmentID ∧
      lease.literalBindings = resolveRuntimeLiteralBindings
        (commitAll (commitAll (commitAll (commitAll db g.count) g.join) g.literalCount) g.literals) environmentID ∧
      db'.frozenBindings.get? lease.attemptID = some lease.secretBindings ∧
      db'.frozenLiterals.get? lease.attemptID = some lease.literalBindings := by
  unfold tryClaimAmid at h
  split at h
  · simp at h
  · rename_i config slot job hclaimable
    obtain ⟨-, -, -, -, rfl, -⟩ := claimable_eq_some hclaimable
    obtain ⟨plan, hplan, h⟩ := bind_eq_ok.1 h
    cases plan with
    | none => simp at h
    | some plan =>
        have hnumber := leaseCandidate_number h
        have hnone : job.attemptCount = 0 := by omega
        simp only [planFreezeAmid, if_pos hnone, pure_eq_ok] at hplan
        split at hplan
        · rename_i hcounts
          cases hplan
          obtain ⟨hbindings, hliterals, hstored, hstored'⟩ := leaseCandidate_freezes h
          rw [hbindings, hliterals]
          exact ⟨rfl, hcounts.1, rfl, hstored, hstored'⟩
        · cases hplan

-- In every interleaving with as many secret bindings at the join as at the count, and with no change of a literal
-- after one of a secret between the join and the last statement, a first attempt gets the bindings of one moment.
theorem freezes_one_moment {now jobID : Nat} {serverID : String} {g : Gaps} {lease : ClaimedLease}
    (h : tryClaimAmid now db g serverID jobID environmentID = .ok (db', some lease)) (hfirst : lease.attemptNumber = 1)
    (hcount : countSecretBindings (commitAll (commitAll db g.count) g.join) environmentID =
      countSecretBindings (commitAll db g.count) environmentID)
    (horder : InOrder commit (secretView environmentID) (literalView environmentID)
      (commitAll (commitAll db g.count) g.join) (g.literalCount ++ g.literals)) :
    (db'.frozenBindings.get? lease.attemptID = some lease.secretBindings ∧
        db'.frozenLiterals.get? lease.attemptID = some lease.literalBindings) ∧
      ∃ before later, g.all = before ++ later ∧
        FrozenAt (commitAll db before) environmentID lease.secretBindings lease.literalBindings := by
  obtain ⟨hbindings, hlength, hliterals, hstored⟩ := tryClaimAmid_first h hfirst
  obtain ⟨before, later, hsplit, hsecrets, hlast⟩ := horder.exists_cut commit_keeps_one
  refine ⟨hstored, g.count ++ g.join ++ before, later ++ g.writes, ?_, ?_⟩
  · simp only [Gaps.all, List.append_assoc] at hsplit ⊢
    rw [← List.append_assoc g.literalCount, hsplit, List.append_assoc]
  · have hmoment : commitAll db (g.count ++ g.join ++ before) =
        commitAll (commitAll (commitAll db g.count) g.join) before := by
      rw [commitAll_append, commitAll_append]
    rw [hmoment, hbindings, hliterals, ← commitAll_append _ g.literalCount]
    refine frozenAt_of_views hsecrets hlast.symm ?_
    rw [hcount, ← hlength, hbindings]

end

-- One job of an environment whose only variable is a secret.
def sampleBound : DB :=
  ensureSlot 1000
    { sampleDB with
      administration :=
        { sampleDB.administration with
          bindings := Table.empty.put ("env", "TOKEN") ⟨.runtime, .secret "sec"⟩
          secretHeads := Table.empty.put "sec" ⟨some "ver", .runtime, .runtime⟩
          secretVersions := Table.empty.put "ver" ⟨"sec", "own", "prj", "env", .active⟩ } }
    "env"

def addLiteral (name value : String) : Edit :=
  .addBinding 1000 samplePrincipal "env" ⟨name, .runtime, .literal value⟩

def removeVariable (name : String) : Edit := .removeBinding 1000 samplePrincipal "env" name

-- A literal is added after the join; the secret goes once the literals are read.
def sampleOrdered : Gaps := ⟨[], [], [addLiteral "MODE" "on"], [], [removeVariable "TOKEN"]⟩

theorem freezes_one_moment_ordered :
    ∃ db' lease, tryClaimAmid 1000 sampleBound sampleOrdered "srv" 1 "env" = .ok (db', some lease) ∧
      lease.secretBindings = [⟨"TOKEN", .runtime, "ver"⟩] ∧ lease.literalBindings = [⟨"MODE", .runtime, "on"⟩] ∧
      ∃ before later, sampleOrdered.all = before ++ later ∧
        FrozenAt (commitAll sampleBound before) "env" lease.secretBindings lease.literalBindings := by
  have hcall : ((tryClaimAmid 1000 sampleBound sampleOrdered "srv" 1 "env").toOption.any fun r =>
      r.2.any fun lease => lease.attemptNumber == 1 && lease.secretBindings == [⟨"TOKEN", .runtime, "ver"⟩] &&
        lease.literalBindings == [⟨"MODE", .runtime, "on"⟩]) = true := by
    decide +kernel
  obtain ⟨⟨db', lease⟩, hok, hlease⟩ := ok_of_any hcall
  cases lease with
  | none => simp at hlease
  | some lease =>
      simp only [Option.any_some, Bool.and_eq_true, beq_iff_eq] at hlease
      have horder : InOrder commit (secretView "env") (literalView "env") sampleBound [addLiteral "MODE" "on"] := by
        intro before e between e' later hsplit
        have hlength := congrArg List.length hsplit
        simp only [List.length_append, List.length_cons, List.length_nil] at hlength
        omega
      exact ⟨db', lease, hok, hlease.1.2, hlease.2, (freezes_one_moment hok hlease.1.1 rfl horder).2⟩

-- The secret becomes a literal between the join and the statements that read the literals.
def sampleTorn : Gaps := ⟨[], [], [removeVariable "TOKEN", addLiteral "TOKEN" "plain"], [], []⟩

theorem torn_claim_freezes_twice :
    ∃ db' lease, tryClaimAmid 1000 sampleBound sampleTorn "srv" 1 "env" = .ok (db', some lease) ∧
      lease.attemptNumber = 1 ∧ lease.secretBindings = [⟨"TOKEN", .runtime, "ver"⟩] ∧
      lease.literalBindings = [⟨"TOKEN", .runtime, "plain"⟩] ∧
      ∀ before later, sampleTorn.all = before ++ later →
        ¬ FrozenAt (commitAll sampleBound before) "env" lease.secretBindings lease.literalBindings := by
  have hcall : ((tryClaimAmid 1000 sampleBound sampleTorn "srv" 1 "env").toOption.any fun r =>
      r.2.any fun lease => lease.attemptNumber == 1 && lease.secretBindings == [⟨"TOKEN", .runtime, "ver"⟩] &&
        lease.literalBindings == [⟨"TOKEN", .runtime, "plain"⟩]) = true := by
    decide +kernel
  obtain ⟨⟨db', lease⟩, hok, hlease⟩ := ok_of_any hcall
  cases lease with
  | none => simp at hlease
  | some lease =>
      simp only [Option.any_some, Bool.and_eq_true, beq_iff_eq] at hlease
      refine ⟨db', lease, hok, hlease.1.1, hlease.1.2, hlease.2, fun before later _ h => ?_⟩
      have hdistinct := h.distinct
      rw [hlease.1.2, hlease.2] at hdistinct
      simp at hdistinct

end AutoDeploy.Protocol
