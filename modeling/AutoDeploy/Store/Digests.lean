import AutoDeploy.Lib.Prefixed
import AutoDeploy.Store.Claim

namespace AutoDeploy.Store

open Lib

-- A frozen configuration as the digest reads it: numbers and texts, whatever they are.
structure FrozenExecution where
  containerPort : Int
  containerScheme : String
  releaseStrategy : String
  drainSeconds : Int
  healthPolicyRevision : Int
  cpuMillis : Int
  memoryBytes : Int
  restartPolicy : String
  healthGatePath : String
  healthGateHost : String
  configRevision : Int
deriving DecidableEq

-- A secret binding with its version, or a literal binding with its value.
structure FrozenRow where
  variableName : String
  deliveryScope : String
  value : String
deriving DecidableEq

def FrozenRow.parts (row : FrozenRow) : List String := [row.variableName, row.deliveryScope, row.value]

def FrozenExecution.parts (cfg : FrozenExecution) : List String :=
  [toString cfg.containerPort, cfg.containerScheme, cfg.releaseStrategy, toString cfg.drainSeconds,
    toString cfg.healthPolicyRevision, toString cfg.cpuMillis, toString cfg.memoryBytes, cfg.restartPolicy,
    cfg.healthGatePath, cfg.healthGateHost, toString cfg.configRevision]

-- Rows in the order of their names, behind their number.
def rowParts (rows : List FrozenRow) : List String :=
  toString rows.length :: (orderByVariable FrozenRow.variableName rows).flatMap FrozenRow.parts

def configParts (cfg : FrozenExecution) (bindings literals : List FrozenRow) : List String :=
  "3" :: (cfg.parts ++ (rowParts bindings ++ rowParts literals))

def configEncoding (cfg : FrozenExecution) (bindings literals : List FrozenRow) : Bytes :=
  Bytes.netstrings ((configParts cfg bindings literals).map Bytes.ofString)

def frozenConfigDigest (cfg : FrozenExecution) (bindings literals : List FrozenRow) : Digest :=
  Sha256.sum (configEncoding cfg bindings literals)

def ExecutionSnapshot.frozen (cfg : ExecutionSnapshot) : FrozenExecution :=
  ⟨cfg.containerPort, cfg.containerScheme.text, cfg.releaseStrategy.text, cfg.drainSeconds, cfg.healthPolicyRevision,
    cfg.cpuMillis, cfg.memoryBytes, cfg.restartPolicy.text, cfg.healthGatePath, cfg.healthGateHost, cfg.configRevision⟩

def FrozenBinding.frozen (b : FrozenBinding) : FrozenRow := ⟨b.variableName, b.deliveryScope.text, b.secretVersionID⟩

def FrozenLiteral.frozen (l : FrozenLiteral) : FrozenRow := ⟨l.variableName, l.deliveryScope.text, l.literalValue⟩

theorem lengthPrefixed_flatMap (parts : List String) :
    parts.flatMap lengthPrefixed = Bytes.netstrings (parts.map Bytes.ofString) := by
  induction parts with
  | nil => rfl
  | cons part parts ih =>
      have hlength : (Bytes.ofString part).length = part.utf8ByteSize := by simp [Bytes.ofString, String.toUTF8]
      have hcolon : Bytes.ofString ":" = [58] := by decide +kernel
      rw [List.flatMap_cons, ih, List.map_cons, Bytes.netstrings_cons, hlength, lengthPrefixed, hcolon]
      simp only [Bytes.decimal, List.append_assoc, List.singleton_append]
      rfl

theorem orderByVariable_map {α : Type} {name : α → String} {f : α → FrozenRow}
    (hname : ∀ x, (f x).variableName = name x) (rows : List α) :
    orderByVariable FrozenRow.variableName (rows.map f) = (orderByVariable name rows).map f := by
  unfold orderByVariable
  refine (List.map_insertionSort _ _ f rows fun x _ y _ => ?_).symm
  rw [hname, hname]

-- The digest that a claim computes is this one, of the stored values.
theorem computeConfigDigest_frozen (cfg : ExecutionSnapshot) (bindings : List FrozenBinding)
    (literals : List FrozenLiteral) :
    computeConfigDigest cfg bindings literals =
      frozenConfigDigest cfg.frozen (bindings.map FrozenBinding.frozen) (literals.map FrozenLiteral.frozen) := by
  have hrows {α : Type} (name : α → String) {f : α → FrozenRow} (hname : ∀ x, (f x).variableName = name x)
      (rows : List α) : rowParts (rows.map f) =
        toString (orderByVariable name rows).length :: (orderByVariable name rows).flatMap fun x => (f x).parts := by
    rw [rowParts, orderByVariable_map hname, List.flatMap_map, List.length_map, orderByVariable,
      List.length_insertionSort]
  rw [computeConfigDigest, frozenConfigDigest, configEncoding, ← lengthPrefixed_flatMap, configParts,
    hrows FrozenBinding.variableName (fun _ => rfl), hrows FrozenLiteral.variableName (fun _ => rfl)]
  simp only [List.append_assoc, List.cons_append, List.nil_append]
  rfl

section

variable {cfg cfg' : FrozenExecution} {rows rows' bindings bindings' literals literals' : List FrozenRow}

theorem FrozenRow.parts_injective {row row' : FrozenRow} (h : row.parts = row'.parts) : row = row' := by
  obtain ⟨name, scope, value⟩ := row
  obtain ⟨name', scope', value'⟩ := row'
  simp only [FrozenRow.parts, List.cons.injEq, and_true] at h
  obtain ⟨rfl, rfl, rfl⟩ := h
  rfl

theorem FrozenRow.flatMap_parts_injective (h : rows.flatMap FrozenRow.parts = rows'.flatMap FrozenRow.parts) :
    rows = rows' := by
  induction rows generalizing rows' with
  | nil =>
      cases rows' with
      | nil => rfl
      | cons row' rows' => cases h
  | cons row rows ih =>
      cases rows' with
      | nil => cases h
      | cons row' rows' =>
          rw [List.flatMap_cons, List.flatMap_cons] at h
          obtain ⟨hrow, hrest⟩ := List.append_inj h rfl
          rw [FrozenRow.parts_injective hrow, ih hrest]

theorem FrozenRow.length_flatMap_parts (rows : List FrozenRow) :
    (rows.flatMap FrozenRow.parts).length = 3 * rows.length := by
  induction rows with
  | nil => rfl
  | cons row rows ih =>
      rw [List.flatMap_cons, List.length_append, ih, List.length_cons]
      simp only [FrozenRow.parts, List.length_cons, List.length_nil]
      omega

theorem toString_injective_int {n m : Int} (h : toString n = toString m) : n = m :=
  Bytes.integer_injective (congrArg Bytes.ofString h)

theorem toString_injective_nat {n m : Nat} (h : toString n = toString m) : n = m :=
  Bytes.decimal_injective (congrArg Bytes.ofString h)

theorem FrozenExecution.parts_injective (h : cfg.parts = cfg'.parts) : cfg = cfg' := by
  obtain ⟨port, scheme, strategy, drain, health, cpu, memory, restart, path, host, revision⟩ := cfg
  obtain ⟨port', scheme', strategy', drain', health', cpu', memory', restart', path', host', revision'⟩ := cfg'
  simp only [FrozenExecution.parts, List.cons.injEq, and_true] at h
  obtain ⟨hport, rfl, rfl, hdrain, hhealth, hcpu, hmemory, rfl, rfl, rfl, hrevision⟩ := h
  obtain rfl := toString_injective_int hport
  obtain rfl := toString_injective_int hdrain
  obtain rfl := toString_injective_int hhealth
  obtain rfl := toString_injective_int hcpu
  obtain rfl := toString_injective_int hmemory
  obtain rfl := toString_injective_int hrevision
  rfl

-- The number of the rows says where they end.
theorem rowParts_cut {rest rest' : List String} (h : rowParts rows ++ rest = rowParts rows' ++ rest') :
    orderByVariable FrozenRow.variableName rows = orderByVariable FrozenRow.variableName rows' ∧ rest = rest' := by
  obtain ⟨hnumber, hrows⟩ := List.cons.inj h
  have hlength : rows.length = rows'.length := toString_injective_nat hnumber
  have hsame : ((orderByVariable FrozenRow.variableName rows).flatMap FrozenRow.parts).length =
      ((orderByVariable FrozenRow.variableName rows').flatMap FrozenRow.parts).length := by
    rw [FrozenRow.length_flatMap_parts, FrozenRow.length_flatMap_parts, orderByVariable, orderByVariable,
      List.length_insertionSort, List.length_insertionSort, hlength]
  obtain ⟨hsorted, hrest⟩ := List.append_inj hrows hsame
  exact ⟨FrozenRow.flatMap_parts_injective hsorted, hrest⟩

-- The parts determine the settings and the sorted rows.
theorem configParts_cut (h : configParts cfg bindings literals = configParts cfg' bindings' literals') :
    cfg = cfg' ∧
      orderByVariable FrozenRow.variableName bindings = orderByVariable FrozenRow.variableName bindings' ∧
      orderByVariable FrozenRow.variableName literals = orderByVariable FrozenRow.variableName literals' := by
  obtain ⟨hcfg, hrows⟩ := List.append_inj (List.cons.inj h).2 rfl
  obtain ⟨hbindings, hliterals⟩ := rowParts_cut hrows
  have hlast : rowParts literals ++ [] = rowParts literals' ++ [] := by rw [hliterals]
  exact ⟨FrozenExecution.parts_injective hcfg, hbindings, (rowParts_cut hlast).1⟩

theorem orderByVariable_sorted (rows : List FrozenRow) :
    (orderByVariable FrozenRow.variableName rows).Pairwise fun x y =>
      x.variableName.toList ≤ y.variableName.toList := by
  have htotal : Std.Total fun x y : FrozenRow => x.variableName.toList ≤ y.variableName.toList :=
    ⟨fun x y => le_total _ _⟩
  have htrans : IsTrans FrozenRow fun x y => x.variableName.toList ≤ y.variableName.toList :=
    ⟨fun x y z => le_trans⟩
  exact @List.pairwise_insertionSort FrozenRow _ _ htotal htrans rows

-- With unique names, the order in which the rows are given does not matter, and nothing but the rows does.
theorem orderByVariable_eq_iff (hrows : (rows.map FrozenRow.variableName).Nodup)
    (hrows' : (rows'.map FrozenRow.variableName).Nodup) :
    orderByVariable FrozenRow.variableName rows = orderByVariable FrozenRow.variableName rows' ↔
      ∀ row, row ∈ rows ↔ row ∈ rows' := by
  have hmem (rows : List FrozenRow) (row : FrozenRow) :
      row ∈ orderByVariable FrozenRow.variableName rows ↔ row ∈ rows := List.mem_insertionSort _
  constructor
  · intro h row
    rw [← hmem rows row, h, hmem]
  · intro h
    have hperm : (orderByVariable FrozenRow.variableName rows).Perm (orderByVariable FrozenRow.variableName rows') := by
      refine (List.perm_insertionSort _ rows).trans (List.Perm.trans ?_ (List.perm_insertionSort _ rows').symm)
      exact (List.perm_ext_iff_of_nodup hrows.of_map hrows'.of_map).2 h
    refine hperm.eq_of_pairwise ?_ (orderByVariable_sorted rows) (orderByVariable_sorted rows')
    intro x y hx hy hxy hyx
    -- two rows of one list with one name are one row
    have hname : x.variableName = y.variableName := String.toList_injective (le_antisymm hxy hyx)
    have hx : x ∈ rows' := (h x).1 ((hmem rows x).1 hx)
    have hy : y ∈ rows' := (hmem rows' y).1 hy
    exact List.inj_on_of_nodup_map hrows' hx hy hname

theorem rowParts_eq_of_sorted
    (h : orderByVariable FrozenRow.variableName rows = orderByVariable FrozenRow.variableName rows') :
    rowParts rows = rowParts rows' := by
  have hlength := congrArg List.length h
  rw [orderByVariable, orderByVariable, List.length_insertionSort, List.length_insertionSort] at hlength
  rw [rowParts, rowParts, h, hlength]

-- Equal digests for equal configurations, and for no others unless the two encodings collide.
theorem frozenConfigDigest_eq_iff (hbindings : (bindings.map FrozenRow.variableName).Nodup)
    (hbindings' : (bindings'.map FrozenRow.variableName).Nodup)
    (hliterals : (literals.map FrozenRow.variableName).Nodup)
    (hliterals' : (literals'.map FrozenRow.variableName).Nodup)
    (hsha : Sha256.sum (configEncoding cfg bindings literals) = Sha256.sum (configEncoding cfg' bindings' literals') →
      configEncoding cfg bindings literals = configEncoding cfg' bindings' literals') :
    frozenConfigDigest cfg bindings literals = frozenConfigDigest cfg' bindings' literals' ↔
      cfg = cfg' ∧ (∀ row, row ∈ bindings ↔ row ∈ bindings') ∧ ∀ row, row ∈ literals ↔ row ∈ literals' := by
  rw [← orderByVariable_eq_iff hbindings hbindings', ← orderByVariable_eq_iff hliterals hliterals']
  constructor
  · intro h
    have hparts := Bytes.netstrings_injective (hsha h)
    exact configParts_cut (List.map_injective_iff.2 Bytes.ofString_injective hparts)
  · rintro ⟨rfl, hsorted, hsorted'⟩
    rw [frozenConfigDigest, configEncoding, configParts, rowParts_eq_of_sorted hsorted, rowParts_eq_of_sorted hsorted']
    rfl

end

end AutoDeploy.Store
