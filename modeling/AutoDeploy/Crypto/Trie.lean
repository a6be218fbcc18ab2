import AutoDeploy.Crypto.Matcher
import Mathlib.Data.List.Perm.Subperm
import Mathlib.Data.List.TakeWhile

namespace AutoDeploy.Crypto

open Lib Lib.Result Borders

def Sorted (edges : List Edge) : Prop := edges.Pairwise fun e f => e.byte < f.byte

-- The edges before the place that is searched for, and from it on.
theorem take_search (edges : List Edge) (b : UInt8) :
    edges.take (search edges b) = edges.takeWhile fun e => decide (e.byte < b) :=
  (List.prefix_iff_eq_take.1 (List.takeWhile_prefix _)).symm

theorem drop_search (edges : List Edge) (b : UInt8) :
    edges.drop (search edges b) = edges.dropWhile fun e => decide (e.byte < b) := by
  have hsplit := List.take_append_drop (search edges b) edges
  rw [take_search] at hsplit
  exact List.append_cancel_left (hsplit.trans List.takeWhile_append_dropWhile.symm)

theorem byte_lt_of_mem_takeWhile {edges : List Edge} {b : UInt8} {e : Edge}
    (h : e ∈ edges.takeWhile fun e => decide (e.byte < b)) : e.byte < b := by
  have htest := List.mem_takeWhile_imp h
  exact of_decide_eq_true htest

theorem findEdge_eq (edges : List Edge) (b : UInt8) :
    findEdge edges b = match (edges.dropWhile fun e => decide (e.byte < b)).head? with
      | some e => if e.byte = b then some e.node else none
      | none => none := by
  rewrite [findEdge, ← drop_search, List.head?_drop]
  rfl

theorem mem_dropWhile_of_le {edges : List Edge} {b : UInt8} {e : Edge} (he : e ∈ edges) (hb : b ≤ e.byte) :
    e ∈ edges.dropWhile fun e => decide (e.byte < b) := by
  rw [← List.takeWhile_append_dropWhile (p := fun e : Edge => decide (e.byte < b)) (l := edges)] at he
  rcases List.mem_append.1 he with he | he
  · have hlt := byte_lt_of_mem_takeWhile he
    rw [UInt8.lt_iff_toNat_lt] at hlt
    rw [UInt8.le_iff_toNat_le] at hb
    omega
  · exact he

-- In sorted edges the search finds the edge of a byte exactly when there is one.
theorem findEdge_iff {edges : List Edge} (hsorted : Sorted edges) {b : UInt8} {t : Nat} :
    findEdge edges b = some t ↔ ⟨b, t⟩ ∈ edges := by
  have hrest : Sorted (edges.dropWhile fun e => decide (e.byte < b)) := hsorted.sublist (List.dropWhile_sublist _)
  rw [findEdge_eq]
  constructor
  · intro h
    cases hhead : (edges.dropWhile fun e => decide (e.byte < b)).head? with
    | none => rw [hhead] at h; cases h
    | some e =>
        rw [hhead] at h
        have hmem := (List.dropWhile_sublist _).subset (List.mem_of_mem_head? hhead)
        simp only at h
        split at h
        · rename_i hbyte
          obtain rfl := Option.some.inj h
          rw [← hbyte]
          exact hmem
        · cases h
  · intro h
    have hmem := mem_dropWhile_of_le h (UInt8.le_refl b)
    cases hcase : edges.dropWhile fun e => decide (e.byte < b) with
    | nil => rw [hcase] at hmem; cases hmem
    | cons e rest =>
        rw [hcase] at hmem hrest
        have hle : ¬ e.byte < b := by
          have hhead := List.head?_dropWhile_not (fun e : Edge => decide (e.byte < b)) edges
          rw [hcase] at hhead
          simpa using hhead
        rcases List.mem_cons.1 hmem with rfl | hlater
        · simp
        · exact absurd ((List.pairwise_cons.1 hrest).1 _ hlater) hle

theorem mem_insertEdge {edges : List Edge} {e f : Edge} : f ∈ insertEdge edges e ↔ f ∈ edges ∨ f = e := by
  have hsplit := List.take_append_drop (search edges e.byte) edges
  conv_rhs => rw [← hsplit]
  simp only [insertEdge, List.mem_append, List.mem_cons]
  tauto

-- A new byte keeps the order.
theorem insertEdge_sorted {edges : List Edge} {e : Edge} (hsorted : Sorted edges) (hnew : findEdge edges e.byte = none) :
    Sorted (insertEdge edges e) := by
  have hbefore (f : Edge) (hf : f ∈ edges.takeWhile fun f => decide (f.byte < e.byte)) : f.byte < e.byte :=
    byte_lt_of_mem_takeWhile hf
  have hafter (f : Edge) (hf : f ∈ edges.dropWhile fun f => decide (f.byte < e.byte)) : e.byte < f.byte := by
    have hne : f.byte ≠ e.byte := by
      intro hbyte
      have hfound : findEdge edges e.byte = some f.node :=
        (findEdge_iff hsorted).2 (by rw [← hbyte]; exact (List.dropWhile_sublist _).subset hf)
      rw [hnew] at hfound
      cases hfound
    have hle : ¬ f.byte < e.byte := by
      cases hcase : edges.dropWhile fun f => decide (f.byte < e.byte) with
      | nil => rw [hcase] at hf; cases hf
      | cons g rest =>
          have hhead := List.head?_dropWhile_not (fun f : Edge => decide (f.byte < e.byte)) edges
          have hrest : Sorted (g :: rest) := hcase ▸ hsorted.sublist (List.dropWhile_sublist _)
          rw [hcase] at hhead hf
          have hg : ¬ g.byte < e.byte := by simpa using hhead
          rcases List.mem_cons.1 hf with rfl | hlater
          · exact hg
          · have := (List.pairwise_cons.1 hrest).1 f hlater
            rw [UInt8.lt_iff_toNat_lt] at *
            omega
    rw [UInt8.lt_iff_toNat_lt] at *
    have hnat : f.byte.toNat ≠ e.byte.toNat := fun h => hne (UInt8.toNat_inj.1 h)
    omega
  have hsplit : Sorted ((edges.takeWhile fun f => decide (f.byte < e.byte)) ++
      edges.dropWhile fun f => decide (f.byte < e.byte)) := by
    rw [List.takeWhile_append_dropWhile]
    exact hsorted
  obtain ⟨hfront, hback, hacross⟩ := List.pairwise_append.1 hsplit
  rw [Sorted, insertEdge, take_search, drop_search]
  refine List.pairwise_append.2 ⟨hfront, List.pairwise_cons.2 ⟨hafter, hback⟩, ?_⟩
  intro f hf g hg
  rcases List.mem_cons.1 hg with rfl | hg
  · exact hbefore f hf
  · exact hacross f hf g hg

theorem node_update (m : Matcher) (t : Nat) (f : ACNode → ACNode) (s : Nat) :
    (m.update t f).node s = if s = t ∧ t < m.nodes.length then f (m.node s) else m.node s := by
  unfold Matcher.update Matcher.node
  simp only [List.getD_eq_getElem?_getD, List.getElem?_modify]
  by_cases hst : t = s
  · subst hst
    by_cases hlt : t < m.nodes.length
    · simp [hlt]
    · simp [hlt]
  · have hts : ¬ s = t := fun h => hst h.symm
    simp [hst, hts]

@[simp] theorem length_update (m : Matcher) (t : Nat) (f : ACNode → ACNode) :
    (m.update t f).nodes.length = m.nodes.length := List.length_modify ..

-- The nodes stand for words, each for its own, and the edges for letters that go on from them.
structure Shape (m : Matcher) (words : List Bytes) : Prop where
  length : words.length = m.nodes.length
  root : words[0]? = some []
  nodup : words.Nodup
  closed : ∀ w c, w ++ [c] ∈ words → w ∈ words
  sorted : ∀ s, Sorted (m.node s).edges
  edges : ∀ s u, words[s]? = some u → ∀ e, e ∈ (m.node s).edges ↔ words[e.node]? = some (u ++ [e.byte])

section

variable {m : Matcher} {words : List Bytes} {patterns : List Bytes}

theorem Shape.edge_iff (h : Shape m words) {s : Nat} {u : Bytes} (hs : words[s]? = some u) {b : UInt8} {t : Nat} :
    m.edge s b = some t ↔ words[t]? = some (u ++ [b]) := by
  rw [Matcher.edge, findEdge_iff (h.sorted s), h.edges s u hs]

theorem Shape.edge_eq_none_iff (h : Shape m words) {s : Nat} {u : Bytes} (hs : words[s]? = some u) {b : UInt8} :
    m.edge s b = none ↔ u ++ [b] ∉ words := by
  rw [Option.eq_none_iff_forall_ne_some]
  constructor
  · intro hnone hmem
    obtain ⟨t, ht⟩ := List.mem_iff_getElem?.1 hmem
    exact hnone t ((h.edge_iff hs).2 ht)
  · intro hmem t ht
    exact hmem (List.mem_iff_getElem?.2 ⟨t, (h.edge_iff hs).1 ht⟩)

theorem Shape.unique (h : Shape m words) {s t : Nat} {u : Bytes} (hs : words[s]? = some u) (ht : words[t]? = some u) :
    s = t := by
  have hlt : s < words.length := (List.getElem?_eq_some_iff.1 hs).1
  exact (List.getElem?_inj hlt h.nodup).1 (hs.trans ht.symm)

theorem Shape.eq_zero_iff (h : Shape m words) {s : Nat} {u : Bytes} (hs : words[s]? = some u) : s = 0 ↔ u = [] := by
  constructor
  · rintro rfl
    rw [h.root] at hs
    exact (Option.some.inj hs).symm
  · rintro rfl
    exact h.unique hs h.root

-- Before the links: the terminal nodes are those of the patterns, and nothing is linked.
structure Built (m : Matcher) (words patterns : List Bytes) : Prop extends Shape m words where
  terminal : ∀ s u, words[s]? = some u → (m.node s).terminal = if u ∈ patterns then u.length else 0
  unlinked : ∀ s, (m.node s).fail = 0 ∧ (m.node s).outputLink = 0
  bounded : words.length ≤ maxRedactionNodes

theorem node_beyond {s : Nat} (h : m.nodes.length ≤ s) : m.node s = .empty := by
  rw [Matcher.node, List.getD_eq_getElem?_getD, List.getElem?_eq_none h]
  rfl

-- A letter that does not go on yet gets a node of its own.
theorem Built.grow (h : Built m words patterns) {s : Nat} {u : Bytes} (hs : words[s]? = some u) {b : UInt8}
    (hnew : u ++ [b] ∉ words) (hpattern : u ++ [b] ∉ patterns) (hroom : ¬ maxRedactionNodes ≤ m.nodes.length) :
    Built (Matcher.update { m with nodes := m.nodes ++ [.empty] } s
        fun n => { n with edges := insertEdge n.edges ⟨b, m.nodes.length⟩ })
      (words ++ [u ++ [b]]) patterns := by
  have hslt : s < words.length := (List.getElem?_eq_some_iff.1 hs).1
  have hlength := h.length
  have hnone : m.edge s b = none := (h.edge_eq_none_iff hs).2 hnew
  have hgrown (t : Nat) : ({ m with nodes := m.nodes ++ [.empty] } : Matcher).node t = m.node t := by
    rcases Nat.lt_or_ge t m.nodes.length with hlt | hge
    · simp [Matcher.node, List.getD_eq_getElem?_getD, List.getElem?_append_left hlt]
    · rw [node_beyond hge, Matcher.node, List.getD_eq_getElem?_getD]
      rcases Nat.eq_or_lt_of_le hge with heq | hgt
      · simp [← heq]
      · rw [List.getElem?_eq_none (by simp; omega)]
        rfl
  have hnode (t : Nat) : (Matcher.update { m with nodes := m.nodes ++ [.empty] } s
      fun n => { n with edges := insertEdge n.edges ⟨b, m.nodes.length⟩ }).node t =
        if t = s then { m.node s with edges := insertEdge (m.node s).edges ⟨b, m.nodes.length⟩ } else m.node t := by
    rw [node_update, hgrown]
    by_cases hts : t = s
    · subst hts
      rw [if_pos ⟨rfl, by simp; omega⟩, if_pos rfl]
    · rw [if_neg (fun hboth => hts hboth.1), if_neg hts]
  have hlast (t : Nat) : (words ++ [u ++ [b]])[t]? = some (u ++ [b]) ↔ t = words.length := by
    rw [List.getElem?_append]
    split
    · rename_i hlt
      refine ⟨fun hsome => absurd (List.mem_iff_getElem?.2 ⟨t, hsome⟩) hnew, fun heq => by omega⟩
    · rename_i hge
      rw [List.getElem?_singleton]
      constructor
      · intro hsome
        split at hsome
        · omega
        · cases hsome
      · intro heq
        rw [if_pos (by omega)]
  have hold (t : Nat) (w : Bytes) (hw : w ≠ u ++ [b]) : (words ++ [u ++ [b]])[t]? = some w ↔ words[t]? = some w := by
    rw [List.getElem?_append]
    split
    · rfl
    · rename_i hge
      rw [List.getElem?_singleton, List.getElem?_eq_none (by omega)]
      constructor
      · intro hsome
        split at hsome
        · exact absurd (Option.some.inj hsome).symm hw
        · cases hsome
      · intro hsome
        cases hsome
  have hsword (t : Nat) (w : Bytes) (ht : words[t]? = some w) : t = s ↔ w = u := by
    constructor
    · rintro rfl
      rw [hs] at ht
      exact (Option.some.inj ht).symm
    · rintro rfl
      exact h.unique ht hs
  have hempty : m.node words.length = .empty := node_beyond (by omega)
  refine ⟨⟨?_, ?_, ?_, ?_, ?_, ?_⟩, ?_, ?_, ?_⟩
  · simp [hlength]
  · exact (hold 0 [] (by simp)).2 h.root
  · exact List.nodup_append.2 ⟨h.nodup, List.nodup_singleton _, by
      rintro w hw v hv rfl
      rw [List.mem_singleton.1 hv] at hw
      exact hnew hw⟩
  · intro w c hmem
    rcases List.mem_append.1 hmem with hmem | hmem
    · exact List.mem_append_left _ (h.closed w c hmem)
    · obtain ⟨rfl, -⟩ := List.append_inj' (List.mem_singleton.1 hmem) rfl
      exact List.mem_append_left _ (List.mem_iff_getElem?.2 ⟨s, hs⟩)
  · intro t
    rw [hnode]
    split
    · exact insertEdge_sorted (h.sorted s) hnone
    · exact h.sorted t
  · intro t w ht e
    rw [hnode]
    by_cases hw : w = u ++ [b]
    · -- The new node has no edges, and no word goes on from its own.
      subst hw
      rw [(hlast t).1 ht, if_neg (by omega), hempty]
      refine ⟨fun hmem => absurd hmem List.not_mem_nil, fun hsome => ?_⟩
      rcases List.mem_append.1 (List.mem_iff_getElem?.2 ⟨_, hsome⟩) with hmem | hmem
      · exact absurd (h.closed _ _ hmem) hnew
      · exact absurd (List.mem_singleton.1 hmem) (by simp)
    · have ht := (hold t w hw).1 ht
      by_cases hts : t = s
      · obtain rfl := (hsword t w ht).1 hts
        rw [if_pos hts, mem_insertEdge, h.edges s w hs]
        by_cases hbyte : e.byte = b
        · rw [hbyte, hlast]
          constructor
          · rintro (hsome | rfl)
            · exact absurd (List.mem_iff_getElem?.2 ⟨_, hsome⟩) hnew
            · exact hlength.symm
          · intro hnodeEq
            right
            rw [hlength] at hnodeEq
            rw [← hnodeEq, ← hbyte]
        · have hne : w ++ [e.byte] ≠ w ++ [b] := by simpa using hbyte
          rw [hold _ _ hne]
          refine or_iff_left ?_
          rintro rfl
          exact hbyte rfl
      · have hwu : w ≠ u := fun heq => hts ((hsword t w ht).2 heq)
        have hne : w ++ [e.byte] ≠ u ++ [b] := fun heq => hwu (List.append_inj' heq rfl).1
        rw [if_neg hts, h.edges t w ht, hold _ _ hne]
  · intro t w ht
    rw [hnode]
    by_cases hw : w = u ++ [b]
    · subst hw
      rw [(hlast t).1 ht, if_neg (by omega), hempty, if_neg hpattern]
      rfl
    · have ht := (hold t w hw).1 ht
      split
      · rename_i hts
        rw [← h.terminal t w ht, hts]
      · exact h.terminal t w ht
  · intro t
    rw [hnode]
    split
    · exact h.unlinked s
    · exact h.unlinked t
  · have := h.bounded
    simp only [List.length_append, List.length_singleton]
    omega

theorem Shape.mem_of_isPrefix (h : Shape m words) {u w : Bytes} (hu : u ∈ words) (hfront : w <+: u) : w ∈ words := by
  induction u using List.reverseRecOn with
  | nil =>
      rw [List.prefix_nil.1 hfront]
      exact hu
  | append_singleton u b ih =>
      rcases List.prefix_concat_iff.1 hfront with rfl | hshort
      · exact hu
      · exact ih (h.closed u b hu) hshort

-- More words begin patterns than there may be nodes.
def TooMany (patterns : List Bytes) : Prop :=
  ∃ many : List Bytes, many.Nodup ∧ maxRedactionNodes < many.length ∧ ∀ w ∈ many, begins patterns w = true

-- The words of the nodes are those that begin a pattern.
def Covers (words patterns : List Bytes) : Prop := ∀ w, w ∈ words ↔ begins patterns w = true

theorem begins_concat_pattern {pattern w : Bytes} :
    begins (patterns ++ [pattern]) w = true ↔ begins patterns w = true ∨ w <+: pattern := by
  simp only [begins_iff, List.mem_append, List.mem_singleton]
  constructor
  · rintro (hnil | ⟨p, hp | rfl, hw⟩)
    · exact .inl (.inl hnil)
    · exact .inl (.inr ⟨p, hp, hw⟩)
    · exact .inr hw
  · rintro ((hnil | ⟨p, hp, hw⟩) | hw)
    · exact .inl hnil
    · exact .inr ⟨p, .inl hp, hw⟩
    · exact .inr ⟨pattern, .inr rfl, hw⟩

theorem insertByte_cases (h : Built m words patterns) (hpatterns : ∀ p ∈ patterns, p ∈ words) {s : Nat} {u : Bytes}
    (hs : words[s]? = some u) (b : UInt8) :
    (∃ m' t words', insertByte (m, s) b = .ok (m', t) ∧ Built m' words' patterns ∧ words'[t]? = some (u ++ [b]) ∧
        ∀ w, w ∈ words' ↔ w ∈ words ∨ w = u ++ [b]) ∨
      (insertByte (m, s) b = .error .redaction ∧ u ++ [b] ∉ words ∧ maxRedactionNodes ≤ words.length) := by
  unfold insertByte
  cases hedge : m.edge s b with
  | some t =>
      have ht := (h.edge_iff hs).1 hedge
      have hmem : u ++ [b] ∈ words := List.mem_iff_getElem?.2 ⟨t, ht⟩
      refine .inl ⟨m, t, words, rfl, h, ht, fun w => (or_iff_left_of_imp ?_).symm⟩
      rintro rfl
      exact hmem
  | none =>
      have hnew := (h.edge_eq_none_iff hs).1 hedge
      simp only
      split
      · rename_i hfull
        exact .inr ⟨rfl, hnew, by rw [h.length]; exact hfull⟩
      · rename_i hroom
        refine .inl ⟨_, _, words ++ [u ++ [b]], rfl, h.grow hs hnew (fun hp => hnew (hpatterns _ hp)) hroom, ?_, ?_⟩
        · rw [← h.length, List.getElem?_concat_length]
        · intro w
          rw [List.mem_append, List.mem_singleton]

-- The letters of a pattern from a node on.
theorem insertBytes_cases (h : Built m words patterns) (hpatterns : ∀ p ∈ patterns, p ∈ words) {s : Nat} {u : Bytes}
    (hs : words[s]? = some u) (rest : Bytes) :
    (∃ m' t words', rest.foldlM insertByte (m, s) = .ok (m', t) ∧ Built m' words' patterns ∧
        words'[t]? = some (u ++ rest) ∧ ∀ w, w ∈ words' ↔ w ∈ words ∨ w <+: u ++ rest) ∨
      (rest.foldlM insertByte (m, s) = .error .redaction ∧ ∃ many : List Bytes, many.Nodup ∧
        maxRedactionNodes < many.length ∧ ∀ w ∈ many, w ∈ words ∨ w <+: u ++ rest) := by
  induction rest generalizing m words s u with
  | nil =>
      have hu : u ∈ words := List.mem_iff_getElem?.2 ⟨s, hs⟩
      refine .inl ⟨m, s, words, rfl, h, by rwa [List.append_nil], fun w => (or_iff_left_of_imp ?_).symm⟩
      rw [List.append_nil]
      exact h.mem_of_isPrefix hu
  | cons b rest ih =>
      have hassoc : u ++ b :: rest = (u ++ [b]) ++ rest := by simp
      have hfront : u ++ [b] <+: (u ++ [b]) ++ rest := List.prefix_append _ _
      rw [List.foldlM_cons, hassoc]
      rcases insertByte_cases h hpatterns hs b with ⟨m₁, t, words₁, hinsert, h₁, ht, hwords⟩ | ⟨hinsert, hnew, hfull⟩
      · have hpatterns₁ : ∀ p ∈ patterns, p ∈ words₁ := fun p hp => (hwords p).2 (.inl (hpatterns p hp))
        have hboth (w : Bytes) : w ∈ words₁ ∨ w <+: (u ++ [b]) ++ rest ↔ w ∈ words ∨ w <+: (u ++ [b]) ++ rest := by
          rw [hwords, or_assoc]
          refine or_congr_right (or_iff_right_of_imp ?_)
          rintro rfl
          exact hfront
        rw [hinsert, ok_bind]
        rcases ih h₁ hpatterns₁ ht with ⟨m', t', words', hrest, h', ht', hwords'⟩ | ⟨hrest, many, hnodup, hmany, hall⟩
        · exact .inl ⟨m', t', words', hrest, h', ht', fun w => (hwords' w).trans (hboth w)⟩
        · exact .inr ⟨hrest, many, hnodup, hmany, fun w hw => (hboth w).1 (hall w hw)⟩
      · rw [hinsert]
        refine .inr ⟨rfl, words ++ [u ++ [b]], ?_, ?_, ?_⟩
        · refine List.nodup_append.2 ⟨h.nodup, List.nodup_singleton _, ?_⟩
          rintro w hw v hv rfl
          rw [List.mem_singleton.1 hv] at hw
          exact hnew hw
        · rw [List.length_append, List.length_singleton]
          omega
        · intro w hw
          rcases List.mem_append.1 hw with hw | hw
          · exact .inl hw
          · rw [List.mem_singleton.1 hw]
            exact .inr hfront

-- Marking the node of a pattern makes it one of the patterns.
theorem Built.mark (h : Built m words patterns) {t : Nat} {pattern : Bytes} (ht : words[t]? = some pattern) :
    Built (if (m.node t).terminal < pattern.length then
        m.update t fun n => { n with terminal := pattern.length, output := pattern.length } else m)
      words (patterns ++ [pattern]) := by
  have htlt : t < m.nodes.length := by
    rw [← h.length]
    exact (List.getElem?_eq_some_iff.1 ht).1
  have hterminal := h.terminal t pattern ht
  have hother (s : Nat) (u : Bytes) (hs : words[s]? = some u) (hst : s ≠ t) : u ∈ patterns ++ [pattern] ↔ u ∈ patterns := by
    rw [List.mem_append, List.mem_singleton]
    refine or_iff_left ?_
    rintro rfl
    exact hst (h.unique hs ht)
  split
  · rename_i hlt
    have hnode (s : Nat) := node_update m t (fun n => { n with terminal := pattern.length, output := pattern.length }) s
    have hedges (s : Nat) : ((m.update t fun n => { n with terminal := pattern.length, output := pattern.length }).node
        s).edges = (m.node s).edges := by
      rw [hnode]
      split
      · rfl
      · rfl
    refine ⟨⟨?_, h.root, h.nodup, h.closed, ?_, ?_⟩, ?_, ?_, h.bounded⟩
    · rw [length_update]
      exact h.length
    · intro s
      rw [hedges]
      exact h.sorted s
    · intro s u hs e
      rw [hedges]
      exact h.edges s u hs e
    · intro s u hs
      rw [hnode]
      by_cases hst : s = t
      · subst hst
        rw [ht] at hs
        obtain rfl := Option.some.inj hs
        rw [if_pos ⟨rfl, htlt⟩, if_pos (List.mem_append_right _ (List.mem_singleton_self _))]
      · rw [if_neg (fun hboth => hst hboth.1), h.terminal s u hs]
        simp only [hother s u hs hst]
    · intro s
      rw [hnode]
      split
      · exact h.unlinked s
      · exact h.unlinked s
  · rename_i hge
    refine ⟨h.toShape, ?_, h.unlinked, h.bounded⟩
    intro s u hs
    by_cases hst : s = t
    · subst hst
      rw [ht] at hs
      obtain rfl := Option.some.inj hs
      rw [if_pos (List.mem_append_right _ (List.mem_singleton_self _))]
      split at hterminal
      · exact hterminal
      · omega
    · rw [h.terminal s u hs]
      simp only [hother s u hs hst]

theorem insertPattern_cases (h : Built m words patterns) (hcovers : Covers words patterns) (pattern : Bytes) :
    (∃ m' words', insertPattern m pattern = .ok m' ∧ Built m' words' (patterns ++ [pattern]) ∧
        Covers words' (patterns ++ [pattern])) ∨
      (insertPattern m pattern = .error .redaction ∧ TooMany (patterns ++ [pattern])) := by
  have hstart : Built { m with maxPattern := max m.maxPattern pattern.length } words patterns :=
    ⟨⟨h.length, h.root, h.nodup, h.closed, h.sorted, h.edges⟩, h.terminal, h.unlinked, h.bounded⟩
  have hpatterns : ∀ p ∈ patterns, p ∈ words := fun p hp => (hcovers p).2 (begins_of_mem hp)
  unfold insertPattern
  rcases insertBytes_cases hstart hpatterns h.root pattern with
    ⟨m', t, words', hinsert, h', ht, hwords⟩ | ⟨hinsert, many, hnodup, hmany, hall⟩
  · rw [List.nil_append] at ht
    refine .inl ⟨_, words', ?_, h'.mark ht, ?_⟩
    · simp only [hinsert, ok_bind]
      split
      · rfl
      · rfl
    · intro w
      rw [hwords, List.nil_append, hcovers, begins_concat_pattern]
  · refine .inr ⟨?_, many, hnodup, hmany, fun w hw => ?_⟩
    · simp only [hinsert, error_bind]
    · rw [begins_concat_pattern, ← hcovers]
      exact hall w hw

theorem begins_append_left {more : List Bytes} {w : Bytes} (h : begins patterns w = true) :
    begins (patterns ++ more) w = true := by
  rcases begins_iff.1 h with hnil | ⟨p, hp, hw⟩
  · exact begins_iff.2 (.inl hnil)
  · exact begins_iff.2 (.inr ⟨p, List.mem_append_left _ hp, hw⟩)

theorem insertPatterns_cases (h : Built m words patterns) (hcovers : Covers words patterns) (rest : List Bytes) :
    (∃ m' words', rest.foldlM insertPattern m = .ok m' ∧ Built m' words' (patterns ++ rest) ∧
        Covers words' (patterns ++ rest)) ∨
      (rest.foldlM insertPattern m = .error .redaction ∧ TooMany (patterns ++ rest)) := by
  induction rest generalizing m words patterns with
  | nil =>
      refine .inl ⟨m, words, rfl, ?_, ?_⟩
      · rwa [List.append_nil]
      · rwa [List.append_nil]
  | cons pattern rest ih =>
      rw [List.foldlM_cons, List.append_cons]
      rcases insertPattern_cases h hcovers pattern with ⟨m₁, words₁, hinsert, h₁, hcovers₁⟩ | ⟨hinsert, hmany⟩
      · rw [hinsert, ok_bind]
        exact ih h₁ hcovers₁
      · rw [hinsert]
        obtain ⟨many, hnodup, hlong, hall⟩ := hmany
        exact .inr ⟨rfl, many, hnodup, hlong, fun w hw => begins_append_left (hall w hw)⟩

-- The trie of all patterns, or no room for it.
theorem trie_cases (patterns : List Bytes) :
    (∃ m words, patterns.foldlM insertPattern ⟨[.empty], 0⟩ = .ok m ∧ Built m words patterns ∧ Covers words patterns) ∨
      (patterns.foldlM insertPattern ⟨[.empty], 0⟩ = .error .redaction ∧ TooMany patterns) := by
  have hnode (s : Nat) : (⟨[.empty], 0⟩ : Matcher).node s = .empty := by
    cases s with
    | zero => rfl
    | succ s => rfl
  have hstart : Built ⟨[.empty], 0⟩ [[]] [] := by
    refine ⟨⟨rfl, rfl, List.nodup_singleton _, ?_, ?_, ?_⟩, ?_, ?_, by decide⟩
    · intro w c hmem
      exact absurd (List.mem_singleton.1 hmem) (by simp)
    · intro s
      rw [hnode]
      exact List.Pairwise.nil
    · intro s u hs e
      rw [hnode]
      refine ⟨fun hmem => absurd hmem List.not_mem_nil, fun hsome => ?_⟩
      exact absurd (List.mem_singleton.1 (List.mem_iff_getElem?.2 ⟨_, hsome⟩)) (by simp)
    · intro s u hs
      rw [hnode]
      rfl
    · intro s
      rw [hnode]
      exact ⟨rfl, rfl⟩
  have hcovers : Covers [[]] [] := by
    intro w
    rw [List.mem_singleton, begins_iff]
    simp
  exact insertPatterns_cases hstart hcovers patterns

-- There are at most as many words as nodes.
theorem Built.not_tooMany (h : Built m words patterns) (hcovers : Covers words patterns) : ¬ TooMany patterns := by
  rintro ⟨many, hnodup, hlong, hall⟩
  have hsub : many ⊆ words := fun w hw => (hcovers w).2 (hall w hw)
  have hle := (List.subperm_of_subset hnodup hsub).length_le
  have := h.bounded
  omega

end

end AutoDeploy.Crypto
