import AutoDeploy.Contain.Leaf

namespace AutoDeploy.Contain

open Lib

structure Limits where
  memoryMax : Nat
  pidsMax : Nat
  ioMax : Nat
  cpuQuota : Nat
  cpuPeriod : Nat
  deviceMajor : Nat
  deviceMinor : Nat
deriving DecidableEq, Repr

def validLimits (l : Limits) : Bool :=
  decide (0 < l.memoryMax) && decide (0 < l.pidsMax) && decide (0 < l.ioMax) && decide (0 < l.cpuQuota) &&
    decide (0 < l.cpuPeriod) && decide (l.cpuQuota ≤ l.cpuPeriod)

-- The control files, in the order in which they are written.
inductive Control where
  | memoryMax
  | cpuMax
  | pidsMax
  | ioMax
deriving DecidableEq, Repr

def decimal (n : Nat) : List Char := (toString n).toList

def device (major minor : Nat) : List Char := decimal major ++ ':' :: decimal minor

-- What is written into a control file.
def controlValue (l : Limits) : Control → List Char
  | .memoryMax => decimal l.memoryMax
  | .cpuMax => decimal l.cpuQuota ++ ' ' :: decimal l.cpuPeriod
  | .pidsMax => decimal l.pidsMax
  | .ioMax => device l.deviceMajor l.deviceMinor ++ (' ' :: ("rbps=".toList ++ decimal l.ioMax)) ++
      (' ' :: ("wbps=".toList ++ decimal l.ioMax))

-- The rates of `io.max` as far as they were read.
structure Rates where
  rbps : Option (List Char)
  wbps : Option (List Char)

-- `strings.SplitN(f, "=", 2)` when it has two parts.
def cut : List Char → Option (List Char × List Char)
  | [] => none
  | c :: rest => if c = '=' then some ([], rest) else (cut rest).map fun parts => (c :: parts.1, parts.2)

def Rates.add (want : Rates) (f : List Char) : Option Rates :=
  match cut f with
  | none => none
  | some (key, value) =>
      if key = "rbps".toList then if want.rbps.getD [] ≠ [] then none else some { want with rbps := some value }
      else if key = "wbps".toList then if want.wbps.getD [] ≠ [] then none else some { want with wbps := some value }
      else none

-- The one spelling of the requested rates: nothing for any other attribute, a repeated one or a missing one.
def canonicalRates (name : List Char) (attributes : List (List Char)) : List Char :=
  match attributes.foldlM Rates.add ⟨none, none⟩ with
  | some ⟨some r, some w⟩ =>
      if r = [] ∨ w = [] then [] else name ++ " rbps=".toList ++ r ++ " wbps=".toList ++ w
  | _ => []

def canonicalControl (c : Control) (value : List Char) : List Char :=
  let words := fields value
  if c = .ioMax then
    match words with
    | name :: first :: others => canonicalRates name (first :: others)
    | _ => []
  else [' '].intercalate words

-- The kernel's side. What a leaf's controls hold: `none` is no limit.
structure IOLimits where
  rbps : Option Nat
  wbps : Option Nat
  riops : Option Nat
  wiops : Option Nat
deriving DecidableEq, Repr

structure Stored where
  memory : Option Nat
  cpuQuota : Option Nat
  cpuPeriod : Nat
  pids : Option Nat
  io : List ((Nat × Nat) × IOLimits)
deriving DecidableEq, Repr

inductive Attribute where
  | rbps
  | wbps
  | riops
  | wiops
deriving DecidableEq, Repr

def allAttributes : List Attribute := [.rbps, .wbps, .riops, .wiops]

def showLimit : Option Nat → List Char
  | none => "max".toList
  | some n => decimal n

def showAttribute (limits : IOLimits) : Attribute → List Char
  | .rbps => "rbps=".toList ++ showLimit limits.rbps
  | .wbps => "wbps=".toList ++ showLimit limits.wbps
  | .riops => "riops=".toList ++ showLimit limits.riops
  | .wiops => "wiops=".toList ++ showLimit limits.wiops

def showDevice (order : List Attribute) (entry : (Nat × Nat) × IOLimits) : List Char :=
  device entry.1.1 entry.1.2 ++ order.flatMap (fun a => ' ' :: showAttribute entry.2 a) ++ ['\n']

-- A control file as it is read back: `io.max` has a line for each limited device, its attributes in any order.
inductive Shows (s : Stored) : Control → List Char → Prop
  | memory : Shows s .memoryMax (showLimit s.memory ++ ['\n'])
  | cpu : Shows s .cpuMax (showLimit s.cpuQuota ++ ' ' :: decimal s.cpuPeriod ++ ['\n'])
  | pids : Shows s .pidsMax (showLimit s.pids ++ ['\n'])
  | io (order : (Nat × Nat) → List Attribute) (horder : ∀ d, (order d).Perm allAttributes) :
      Shows s .ioMax (s.io.flatMap fun entry => showDevice (order entry.1) entry)

-- The calls on the control files of one leaf: a write (with its open and close) and a read (with its open).
structure Kernel where
  write : Stored → Control → List Char → Stored × Bool
  read : Stored → Control → Option (List Char)

def Kernel.Documented (k : Kernel) : Prop := ∀ s c text, k.read s c = some text → Shows s c text

def readControl (k : Kernel) (s : Stored) (c : Control) : Option (List Char) :=
  (k.read s c).filter fun text => decide (text.length < 4096)

def writeExact (k : Kernel) (s : Stored) (c : Control) (value : List Char) : Stored × Bool :=
  match k.write s c value with
  | (s, false) => (s, false)
  | (s, true) =>
      match readControl k s c with
      | none => (s, false)
      | some got => (s, canonicalControl c got == canonicalControl c value)

def configureControls (k : Kernel) (l : Limits) : List Control → Stored → Stored × Bool
  | [], s => (s, true)
  | c :: controls, s =>
      match writeExact k s c (controlValue l c) with
      | (s, false) => (s, false)
      | (s, true) => configureControls k l controls s

def configureLeaf (k : Kernel) (s : Stored) (l : Limits) : Stored × Bool :=
  configureControls k l [.memoryMax, .cpuMax, .pidsMax, .ioMax] s

-- Printed text has no blanks.
theorem isSpace_of_range {c : Char} (hlow : 0x21 ≤ c.toNat) (hhigh : c.toNat ≤ 0x7e) : Utf8.isSpace c = false := by
  simp only [Utf8.isSpace, Bool.or_eq_false_iff, Bool.and_eq_false_iff, decide_eq_false_iff_not, beq_eq_false_iff_ne,
    ne_eq]
  omega

def Unspaced (text : List Char) : Prop := ∀ c ∈ text, Utf8.isSpace c = false

theorem unspaced_of_all {text : List Char} (h : text.all (fun c => !Utf8.isSpace c) = true) : Unspaced text := by
  intro c hc
  simpa using List.all_eq_true.1 h c hc

theorem Unspaced.append {s t : List Char} (hs : Unspaced s) (ht : Unspaced t) : Unspaced (s ++ t) := by
  intro c hc
  rcases List.mem_append.1 hc with hc | hc
  · exact hs c hc
  · exact ht c hc

theorem unspaced_decimal (n : Nat) : Unspaced (decimal n) := by
  intro c hc
  rw [decimal, Nat.toString_eq_repr, Nat.toList_repr] at hc
  have hdigit : c.isDigit = true := Nat.isDigit_of_mem_toDigits (by decide) (by decide) hc
  simp only [Char.isDigit, Bool.and_eq_true, decide_eq_true_eq] at hdigit
  have hlow : 48 ≤ c.toNat := hdigit.1
  have hhigh : c.toNat ≤ 57 := hdigit.2
  exact isSpace_of_range (by omega) (by omega)

theorem decimal_ne_nil (n : Nat) : decimal n ≠ [] := by
  rw [decimal, Nat.toString_eq_repr, Nat.toList_repr]
  exact Nat.toDigits_ne_nil

theorem word_device (major minor : Nat) : Words.IsWord Utf8.isSpace (device major minor) := by
  refine ⟨by simp [device], (unspaced_decimal major).append ?_⟩
  intro c hc
  rcases List.mem_cons.1 hc with rfl | hc
  · decide
  · exact unspaced_decimal minor c hc

theorem unspaced_showLimit (limit : Option Nat) : Unspaced (showLimit limit) := by
  cases limit with
  | none => exact unspaced_of_all (by decide)
  | some n => exact unspaced_decimal n

theorem word_showAttribute (limits : IOLimits) (a : Attribute) : Words.IsWord Utf8.isSpace (showAttribute limits a) := by
  have hword (name : String) (limit : Option Nat) (hne : name.toList ≠ []) (hname : Unspaced name.toList) :
      Words.IsWord Utf8.isSpace (name.toList ++ showLimit limit) :=
    ⟨fun hnil => hne (List.append_eq_nil_iff.1 hnil).1, hname.append (unspaced_showLimit limit)⟩
  cases a with
  | rbps => exact hword "rbps=" _ (by decide) (unspaced_of_all (by decide))
  | wbps => exact hword "wbps=" _ (by decide) (unspaced_of_all (by decide))
  | riops => exact hword "riops=" _ (by decide) (unspaced_of_all (by decide))
  | wiops => exact hword "wiops=" _ (by decide) (unspaced_of_all (by decide))

-- The words of a line: its first one, and one for each attribute.
theorem fields_line {first : List Char} (hfirst : Words.IsWord Utf8.isSpace first) (limits : IOLimits)
    (order : List Attribute) (rest : List Char) :
    fields (first ++ (order.flatMap (fun a => ' ' :: showAttribute limits a) ++ '\n' :: rest)) =
      first :: (order.map (showAttribute limits) ++ fields rest) := by
  induction order generalizing first with
  | nil => exact Words.words_word_cons hfirst (by decide) rest
  | cons a order ih =>
      rw [List.flatMap_cons, List.cons_append, List.cons_append, List.append_assoc]
      rw [fields, Words.words_word_cons hfirst (by decide)]
      exact congrArg (first :: ·) (ih (word_showAttribute limits a))

theorem foldlM_eq_none_of_mem {α β : Type} {f : β → α → Option β} {x : α} (hx : ∀ b, f b x = none) {xs : List α}
    (hmem : x ∈ xs) (b : β) : xs.foldlM f b = none := by
  induction xs generalizing b with
  | nil => exact absurd hmem List.not_mem_nil
  | cons y ys ih =>
      rw [List.foldlM_cons]
      rcases List.mem_cons.1 hmem with rfl | hmem
      · rw [hx b]
        rfl
      · cases f b y with
        | none => rfl
        | some b' => exact ih hmem b'

-- The limit on operations is printed even where there is none, and no attribute of that name is allowed.
theorem add_riops (limits : IOLimits) (want : Rates) : want.add (showAttribute limits .riops) = none := by
  have hcut : cut (showAttribute limits .riops) = some ("riops".toList, showLimit limits.riops) := rfl
  rw [Rates.add, hcut]
  rfl

-- No text the kernel prints for `io.max` has a canonical form.
theorem canonical_shown {s : Stored} {text : List Char} (h : Shows s .ioMax text) : canonicalControl .ioMax text = [] := by
  cases h with
  | io order horder =>
      cases hio : s.io with
      | nil => rfl
      | cons entry entries =>
          have hfields : fields ((entry :: entries).flatMap fun entry => showDevice (order entry.1) entry) =
              device entry.1.1 entry.1.2 :: ((order entry.1).map (showAttribute entry.2) ++
                fields (entries.flatMap fun entry => showDevice (order entry.1) entry)) := by
            rw [List.flatMap_cons, showDevice, List.append_assoc, List.append_assoc]
            exact fields_line (word_device _ _) entry.2 _ _
          have hriops : showAttribute entry.2 .riops ∈ (order entry.1).map (showAttribute entry.2) :=
            List.mem_map_of_mem ((horder entry.1).mem_iff.2 (by decide))
          have hmem := List.mem_append_left
            (fields (entries.flatMap fun entry => showDevice (order entry.1) entry)) hriops
          rw [canonicalControl, if_pos rfl, hfields]
          cases hattributes : (order entry.1).map (showAttribute entry.2) ++
              fields (entries.flatMap fun entry => showDevice (order entry.1) entry) with
          | nil => rfl
          | cons first others =>
              rw [hattributes] at hmem
              show canonicalRates _ (first :: others) = []
              rw [canonicalRates, foldlM_eq_none_of_mem (add_riops entry.2) hmem]

-- What is asked for has one.
theorem canonical_requested (l : Limits) : canonicalControl .ioMax (controlValue l .ioMax) ≠ [] := by
  have hrate (name : String) (hname : Unspaced name.toList) :
      Words.IsWord Utf8.isSpace (name.toList ++ decimal l.ioMax) :=
    ⟨fun hnil => decimal_ne_nil l.ioMax (List.append_eq_nil_iff.1 hnil).2, hname.append (unspaced_decimal l.ioMax)⟩
  have hr := hrate "rbps=" (unspaced_of_all (by decide))
  have hw := hrate "wbps=" (unspaced_of_all (by decide))
  have hfields : fields (controlValue l .ioMax) = [device l.deviceMajor l.deviceMinor, "rbps=".toList ++ decimal l.ioMax,
      "wbps=".toList ++ decimal l.ioMax] := by
    rw [controlValue, List.append_assoc, fields, List.cons_append, Words.words_word_cons (word_device _ _) (by decide),
      Words.words_word_cons hr (by decide), Words.words_word hw]
  have hrates : (["rbps=".toList ++ decimal l.ioMax, "wbps=".toList ++ decimal l.ioMax].foldlM Rates.add ⟨none, none⟩) =
      some ⟨some (decimal l.ioMax), some (decimal l.ioMax)⟩ := rfl
  rw [canonicalControl, if_pos rfl, hfields]
  show canonicalRates _ _ ≠ []
  rw [canonicalRates, hrates]
  simp [decimal_ne_nil]

theorem writeExact_io (k : Kernel) (hdocumented : k.Documented) (l : Limits) (s : Stored) :
    (writeExact k s .ioMax (controlValue l .ioMax)).2 = false := by
  unfold writeExact
  cases hwrite : k.write s .ioMax (controlValue l .ioMax) with
  | mk s ok =>
      cases ok with
      | false => rfl
      | true =>
          simp only
          cases hread : readControl k s .ioMax with
          | none => rfl
          | some got =>
              have hshows : Shows s .ioMax got :=
                hdocumented s .ioMax got (Option.filter_eq_some_iff.1 hread).1
              have hne := canonical_requested l
              show (canonicalControl .ioMax got == canonicalControl .ioMax (controlValue l .ioMax)) = false
              rw [canonical_shown hshows, beq_eq_false_iff_ne]
              exact hne.symm

-- So no leaf is ever configured.
theorem configureLeaf_fails (k : Kernel) (hdocumented : k.Documented) (s : Stored) (l : Limits) :
    (configureLeaf k s l).2 = false := by
  have hcontrols (controls : List Control) (hmem : .ioMax ∈ controls) (s : Stored) :
      (configureControls k l controls s).2 = false := by
    induction controls generalizing s with
    | nil => exact absurd hmem List.not_mem_nil
    | cons c controls ih =>
        rw [configureControls]
        cases hcase : writeExact k s c (controlValue l c) with
        | mk s' ok =>
            cases ok with
            | false => rfl
            | true =>
                rcases List.mem_cons.1 hmem with rfl | hmem
                · have hio := writeExact_io k hdocumented l s
                  rw [hcase] at hio
                  cases hio
                · exact ih hmem s'
  exact hcontrols _ (by decide) s

-- A leaf as `mkdir` makes it.
def fresh : Stored := ⟨none, none, 100000, none, []⟩

-- The leaf once a control holds exactly what was asked for.
def requested (l : Limits) (s : Stored) : Control → Stored
  | .memoryMax => { s with memory := some l.memoryMax }
  | .cpuMax => { s with cpuQuota := some l.cpuQuota, cpuPeriod := l.cpuPeriod }
  | .pidsMax => { s with pids := some l.pidsMax }
  | .ioMax => { s with io := [((l.deviceMajor, l.deviceMinor), ⟨some l.ioMax, some l.ioMax, none, none⟩)] }

def StoresExactly (k : Kernel) (l : Limits) : Prop :=
  ∀ s c, k.write s c (controlValue l c) = (requested l s c, true) ∧ (k.read (requested l s c) c).isSome = true

-- The limits of the leaf are the requested ones.
def Limited (s : Stored) (l : Limits) : Prop :=
  s.memory = some l.memoryMax ∧ s.cpuQuota = some l.cpuQuota ∧ s.cpuPeriod = l.cpuPeriod ∧ s.pids = some l.pidsMax ∧
    ∃ limits, s.io.lookup (l.deviceMajor, l.deviceMinor) = some limits ∧
      limits.rbps = some l.ioMax ∧ limits.wbps = some l.ioMax

-- The check agrees with what is stored, both ways.
def Agrees (k : Kernel) (l : Limits) : Prop :=
  (StoresExactly k l → (configureLeaf k fresh l).2 = true) ∧
    ((configureLeaf k fresh l).2 = true → Limited (configureLeaf k fresh l).1 l)

def showStored (s : Stored) : Control → List Char
  | .memoryMax => showLimit s.memory ++ ['\n']
  | .cpuMax => showLimit s.cpuQuota ++ ' ' :: decimal s.cpuPeriod ++ ['\n']
  | .pidsMax => showLimit s.pids ++ ['\n']
  | .ioMax => s.io.flatMap (showDevice allAttributes)

-- A kernel that takes every write of the requested values as it is.
def exactKernel (l : Limits) : Kernel where
  write s c _ := (requested l s c, true)
  read s c := some (showStored s c)

theorem exactKernel_documented (l : Limits) : (exactKernel l).Documented := by
  intro s c text hread
  cases hread
  cases c with
  | memoryMax => exact .memory
  | cpuMax => exact .cpu
  | pidsMax => exact .pids
  | ioMax => exact .io (fun _ => allAttributes) fun _ => List.Perm.refl _

theorem exactKernel_storesExactly (l : Limits) : StoresExactly (exactKernel l) l :=
  fun _ _ => ⟨rfl, rfl⟩

-- Whatever the limits, the check never succeeds, so it disagrees with every kernel that stores what it was asked to.
theorem limit_check_never_agrees (l : Limits) :
    (∀ k, Kernel.Documented k → (configureLeaf k fresh l).2 = false ∧ (Agrees k l ↔ ¬ StoresExactly k l)) ∧
      ∃ k, Kernel.Documented k ∧ StoresExactly k l := by
  refine ⟨fun k hdocumented => ?_, exactKernel l, exactKernel_documented l, exactKernel_storesExactly l⟩
  have hfails := configureLeaf_fails k hdocumented fresh l
  refine ⟨hfails, fun hagrees hstores => ?_, fun hnot => ⟨fun hstores => absurd hstores hnot, fun hok => ?_⟩⟩
  · have hok := hagrees.1 hstores
    rw [hfails] at hok
    cases hok
  · rw [hfails] at hok
    cases hok

def gibibyteLimits : Limits := ⟨1073741824, 64, 10485760, 100000, 100000, 8, 0⟩

theorem exact_limits_refused : ¬ ∀ l k page, validLimits l = true → 0 < page → page ∣ l.memoryMax →
    Kernel.Documented k → Agrees k l := by
  intro hall
  have hagrees := hall gibibyteLimits (exactKernel gibibyteLimits) 4096 (by decide) (by decide) (by decide)
    (exactKernel_documented _)
  have hok := hagrees.1 (exactKernel_storesExactly _)
  rw [configureLeaf_fails _ (exactKernel_documented _)] at hok
  cases hok

end AutoDeploy.Contain
