import AutoDeploy.Crypto.Trie

namespace AutoDeploy.Crypto

open Lib Lib.Result Borders

-- The links of a node: to the longest proper suffix of its word that has a node, and to the longest that is a pattern.
def Linked (m : Matcher) (words patterns : List Bytes) (s : Nat) : Prop :=
  ∀ u, words[s]? = some u → words[(m.node s).fail]? = some (border patterns u) ∧
    words[(m.node s).outputLink]? = some (outLink patterns u)

-- The automaton while it is linked: everything but the links is as the trie has it.
structure Automaton (m : Matcher) (words patterns : List Bytes) : Prop extends Shape m words where
  covers : Covers words patterns
  terminal : ∀ s u, words[s]? = some u → (m.node s).terminal = if u ∈ patterns then u.length else 0

section

variable {m : Matcher} {words patterns : List Bytes}

theorem Automaton.begins_of_word (h : Automaton m words patterns) {s : Nat} {u : Bytes} (hs : words[s]? = some u) :
    begins patterns u = true := (h.covers u).1 (List.mem_iff_getElem?.2 ⟨s, hs⟩)

theorem Automaton.edge_eq_none_iff' (h : Automaton m words patterns) {s : Nat} {u : Bytes} (hs : words[s]? = some u)
    {b : UInt8} : m.edge s b = none ↔ begins patterns (u ++ [b]) = false := by
  rw [h.edge_eq_none_iff hs, h.covers, Bool.not_eq_true]

theorem Automaton.children_nodup (h : Automaton m words patterns) {s : Nat} {u : Bytes} (hs : words[s]? = some u) :
    ((m.node s).edges.map Edge.node).Nodup := by
  refine List.pairwise_map.2 ((h.sorted s).imp_of_mem fun {e f} he hf hlt hsame => ?_)
  have hword := (h.edges s u hs e).1 he
  rw [hsame, (h.edges s u hs f).1 hf] at hword
  have hbyte : f.byte = e.byte := List.singleton_inj.1 (List.append_inj' (Option.some.inj hword) rfl).2
  rw [hbyte, UInt8.lt_iff_toNat_lt] at hlt
  omega

-- The prefixes of a word have nodes of their own, so a word is shorter than the number of nodes.
theorem Automaton.length_lt (h : Automaton m words patterns) {s : Nat} {u : Bytes} (hs : words[s]? = some u) :
    u.length < m.nodes.length := by
  have hsub : (List.range (u.length + 1)).map (fun n => u.take n) ⊆ words := by
    intro w hw
    obtain ⟨n, -, rfl⟩ := List.mem_map.1 hw
    exact h.mem_of_isPrefix (List.mem_iff_getElem?.2 ⟨s, hs⟩) (List.take_prefix n u)
  have hnodup : ((List.range (u.length + 1)).map fun n => u.take n).Nodup := by
    refine List.nodup_range.map_on fun n hn k hk hsame => ?_
    have hlength := congrArg List.length hsame
    rw [List.mem_range] at hn hk
    rw [List.length_take, List.length_take] at hlength
    omega
  have hle := (List.subperm_of_subset hnodup hsub).length_le
  rw [List.length_map, List.length_range, h.length] at hle
  omega

-- Following the failure links tries the suffixes of the word in turn, the longest first.
theorem seek_eq (h : Automaton m words patterns) {b : UInt8} {fuel s : Nat} {u : Bytes} (hs : words[s]? = some u)
    (hlinked : ∀ t w, words[t]? = some w → w.length ≤ u.length → Linked m words patterns t) (hfuel : u.length < fuel) :
    (∃ t, m.seek b fuel s = .ok (some t) ∧ words[t]? = some (longest patterns (u ++ [b]))) ∨
      (m.seek b fuel s = .ok none ∧ longest patterns (u ++ [b]) = longest patterns [b]) := by
  induction fuel generalizing s u with
  | zero => omega
  | succ fuel ih =>
      rw [Matcher.seek]
      split
      · rename_i hzero
        rw [(h.eq_zero_iff hs).1 hzero]
        exact .inr ⟨rfl, rfl⟩
      · rename_i hzero
        have hne : u ≠ [] := fun hnil => hzero ((h.eq_zero_iff hs).2 hnil)
        cases hedge : m.edge s b with
        | some t =>
            have ht := (h.edge_iff hs).1 hedge
            refine .inl ⟨t, rfl, ?_⟩
            rw [longest_of_begins (h.begins_of_word ht)]
            exact ht
        | none =>
            have hfails := (h.edge_eq_none_iff' hs).1 hedge
            have hfail := (hlinked s u hs (le_refl _) u hs).1
            have hshort : (border patterns u).length < u.length := length_border_lt hne
            rw [longest_of_fails hne hfails]
            exact ih hfail (fun t w ht hw => hlinked t w ht (by omega)) (by omega)

-- From the root the next letter alone counts.
theorem root_edge (h : Automaton m words patterns) (b : UInt8) :
    words[(m.edge 0 b).getD 0]? = some (longest patterns [b]) := by
  cases hedge : m.edge 0 b with
  | some t =>
      have ht := (h.edge_iff h.root).1 hedge
      rw [List.nil_append] at ht
      rw [longest_of_begins (h.begins_of_word ht)]
      exact ht
  | none =>
      have hfails := (h.edge_eq_none_iff' h.root).1 hedge
      rw [longest_singleton_of_fails hfails]
      exact h.root

theorem advance_eq (h : Automaton m words patterns) {b : UInt8} {s : Nat} {u : Bytes} (hs : words[s]? = some u)
    (hlinked : ∀ t w, words[t]? = some w → w.length ≤ u.length → Linked m words patterns t) :
    ∃ t, m.advance s b = .ok t ∧ words[t]? = some (longest patterns (u ++ [b])) := by
  have hfuel : u.length < m.nodes.length + 1 := Nat.lt_succ_of_lt (h.length_lt hs)
  unfold Matcher.advance
  rcases seek_eq h (b := b) hs hlinked hfuel with ⟨t, hseek, ht⟩ | ⟨hseek, hroot⟩
  · rw [hseek]
    exact ⟨t, rfl, ht⟩
  · rw [hseek, hroot]
    exact ⟨_, rfl, root_edge h b⟩

-- Links change nothing else.
theorem Automaton.relink (h : Automaton m words patterns) (t : Nat) (fail outputLink : Nat) (output : ACNode → Nat) :
    Automaton (m.update t fun n => { n with fail := fail, outputLink := outputLink, output := output n }) words patterns := by
  have hnode (s : Nat) := node_update m t (fun n => { n with fail := fail, outputLink := outputLink, output := output n }) s
  have hsame (s : Nat) :
      ((m.update t fun n => { n with fail := fail, outputLink := outputLink, output := output n }).node s).edges =
          (m.node s).edges ∧
        ((m.update t fun n => { n with fail := fail, outputLink := outputLink, output := output n }).node s).terminal =
          (m.node s).terminal := by
    rw [hnode]
    split
    · exact ⟨rfl, rfl⟩
    · exact ⟨rfl, rfl⟩
  refine ⟨⟨?_, h.root, h.nodup, h.closed, ?_, ?_⟩, h.covers, ?_⟩
  · rw [length_update]
    exact h.length
  · intro s
    rw [(hsame s).1]
    exact h.sorted s
  · intro s u hs e
    rw [(hsame s).1]
    exact h.edges s u hs e
  · intro s u hs
    rw [(hsame s).2]
    exact h.terminal s u hs

-- What is known of the nodes up to a depth is enough to link the nodes below.
theorem linkEdge_eq (h : Automaton m words patterns) {s : Nat} {u : Bytes} (hs : words[s]? = some u) (hne : u ≠ [])
    (hlinked : ∀ t w, words[t]? = some w → w.length ≤ u.length → Linked m words patterns t) {e : Edge}
    (he : words[e.node]? = some (u ++ [e.byte])) (queue : List Nat) :
    ∃ m', linkEdge s (m, queue) e = .ok (m', queue ++ [e.node]) ∧ Automaton m' words patterns ∧
      m'.nodes.length = m.nodes.length ∧ Linked m' words patterns e.node ∧
      ∀ t, t ≠ e.node → m'.node t = m.node t := by
  have hfail := (hlinked s u hs (le_refl _) u hs).1
  have hshort : (border patterns u).length < u.length := length_border_lt hne
  have hborder : border patterns (u ++ [e.byte]) = longest patterns (border patterns u ++ [e.byte]) := border_concat hne _
  have hnodes : (border patterns u).length < m.nodes.length + 1 := Nat.lt_succ_of_lt (h.length_lt hfail)
  have helt : e.node < m.nodes.length := by
    rw [← h.length]
    exact (List.getElem?_eq_some_iff.1 he).1
  -- The failure that is found is the node of the border.
  obtain ⟨failure, hfound, hfailure⟩ : ∃ failure, linkEdge s (m, queue) e =
      .ok (m.update e.node fun n =>
        { n with
          fail := failure
          outputLink := if 0 < (m.node failure).terminal then failure else (m.node failure).outputLink
          output := if n.output < (m.node failure).output then (m.node failure).output else n.output },
        queue ++ [e.node]) ∧ words[failure]? = some (border patterns (u ++ [e.byte])) := by
    unfold linkEdge
    rw [hborder]
    rcases seek_eq h (b := e.byte) hfail (fun t w ht hw => hlinked t w ht (by omega)) hnodes with
      ⟨t, hseek, ht⟩ | ⟨hseek, hroot⟩
    · simp only [hseek, ok_bind]
      exact ⟨t, rfl, ht⟩
    · have hedge := root_edge h e.byte
      simp only [hseek, ok_bind, hroot]
      cases hnext : m.edge 0 e.byte with
      | none =>
          rw [hnext] at hedge
          exact ⟨0, rfl, hedge⟩
      | some next =>
          rw [hnext] at hedge
          have hother : next ≠ e.node := by
            rintro rfl
            have hword := (h.edge_iff h.root).1 hnext
            rw [he] at hword
            exact hne (List.append_inj' (Option.some.inj hword) rfl).1
          refine ⟨next, ?_, hedge⟩
          simp only [ne_eq, hother, not_false_eq_true, if_true]
          rfl
  have hdepth : (border patterns (u ++ [e.byte])).length ≤ u.length := by
    have hlt : (border patterns (u ++ [e.byte])).length < (u ++ [e.byte]).length := length_border_lt (by simp)
    rw [List.length_append, List.length_singleton] at hlt
    omega
  have hnode (t : Nat) := node_update m e.node (fun n =>
    { n with
      fail := failure
      outputLink := if 0 < (m.node failure).terminal then failure else (m.node failure).outputLink
      output := if n.output < (m.node failure).output then (m.node failure).output else n.output }) t
  refine ⟨_, hfound, h.relink _ _ _ _, length_update .., ?_, ?_⟩
  · intro w hw
    rw [he] at hw
    obtain rfl := Option.some.inj hw
    rw [hnode, if_pos ⟨rfl, helt⟩]
    refine ⟨hfailure, ?_⟩
    have hterminal := h.terminal failure _ hfailure
    have hlink := (hlinked failure _ hfailure hdepth _ hfailure).2
    show words[if 0 < (m.node failure).terminal then failure else (m.node failure).outputLink]? = _
    split
    · rename_i hpos
      have hmem : border patterns (u ++ [e.byte]) ∈ patterns := by
        by_contra hmem
        rw [if_neg hmem] at hterminal
        omega
      rw [outLink_of_mem hmem]
      exact hfailure
    · rename_i hzero
      rw [outLink_of_notMem]
      · exact hlink
      · by_cases hmem : border patterns (u ++ [e.byte]) ∈ patterns
        · rw [if_pos hmem] at hterminal
          exact .inl (List.length_eq_zero_iff.1 (by omega))
        · exact .inr hmem
  · intro t ht
    rw [hnode, if_neg fun hboth => ht hboth.1]

theorem Linked.congr {m' : Matcher} {t : Nat} (h : Linked m words patterns t) (hnode : m'.node t = m.node t) :
    Linked m' words patterns t := by
  unfold Linked
  rw [hnode]
  exact h

-- All edges of a node: the nodes below it are linked, and nothing else changes.
theorem linkEdges_eq {s : Nat} {u : Bytes} (hs : words[s]? = some u) (hne : u ≠ []) (edges : List Edge)
    (h : Automaton m words patterns)
    (hlinked : ∀ t w, words[t]? = some w → w.length ≤ u.length → Linked m words patterns t)
    (hedges : ∀ e ∈ edges, words[e.node]? = some (u ++ [e.byte])) (hnodup : (edges.map Edge.node).Nodup)
    (queue : List Nat) :
    ∃ m', edges.foldlM (linkEdge s) (m, queue) = .ok (m', queue ++ edges.map Edge.node) ∧
      Automaton m' words patterns ∧ m'.nodes.length = m.nodes.length ∧
      (∀ t ∈ edges.map Edge.node, Linked m' words patterns t) ∧ ∀ t, t ∉ edges.map Edge.node → m'.node t = m.node t := by
  induction edges generalizing m queue with
  | nil => exact ⟨m, by rw [List.map_nil, List.append_nil]; rfl, h, rfl, fun t ht => absurd ht List.not_mem_nil, fun _ _ => rfl⟩
  | cons e edges ih =>
      have he := hedges e List.mem_cons_self
      rw [List.map_cons, List.nodup_cons] at hnodup
      obtain ⟨m₁, hfirst, h₁, hlength₁, hnew, hother⟩ := linkEdge_eq h hs hne hlinked he queue
      have hlinked₁ (t : Nat) (w : Bytes) (ht : words[t]? = some w) (hw : w.length ≤ u.length) :
          Linked m₁ words patterns t := by
        refine (hlinked t w ht hw).congr (hother t ?_)
        rintro rfl
        rw [he] at ht
        obtain rfl := Option.some.inj ht
        rw [List.length_append, List.length_singleton] at hw
        omega
      obtain ⟨m', hrest, h', hlength, hall, hkept⟩ :=
        ih h₁ hlinked₁ (fun f hf => hedges f (List.mem_cons_of_mem _ hf)) hnodup.2 (queue ++ [e.node])
      refine ⟨m', ?_, h', hlength.trans hlength₁, ?_, ?_⟩
      · rw [List.foldlM_cons, hfirst, ok_bind, hrest, List.append_assoc]
        rfl
      · intro t ht
        rw [List.map_cons] at ht
        rcases List.mem_cons.1 ht with rfl | ht
        · exact hnew.congr (hkept _ hnodup.1)
        · exact hall t ht
      · intro t ht
        rw [List.map_cons, List.mem_cons, not_or] at ht
        rw [hkept t ht.2, hother t ht.1]

def depth (words : List Bytes) (s : Nat) : Nat := (words.getD s []).length

theorem depth_eq {s : Nat} {u : Bytes} (hs : words[s]? = some u) : depth words s = u.length := by
  rw [depth, List.getD_eq_getElem?_getD, hs]
  rfl

-- The search: the nodes that were taken from the queue, and those in it. A node in either is linked, its parent was
-- taken, and the children of what was taken are there. The queue is ordered by depth and spans two depths.
structure Linking (m : Matcher) (words patterns : List Bytes) (taken queue : List Nat) : Prop
    extends Automaton m words patterns where
  start : Linked m words patterns 0
  linked : ∀ s ∈ taken ++ queue, Linked m words patterns s
  parents : ∀ s ∈ taken ++ queue, ∃ t u b, words[s]? = some (u ++ [b]) ∧ words[t]? = some u ∧ (t = 0 ∨ t ∈ taken)
  children : ∀ s u b t, s = 0 ∨ s ∈ taken → words[s]? = some u → words[t]? = some (u ++ [b]) → t ∈ taken ++ queue
  distinct : (taken ++ queue).Nodup
  ordered : queue.Pairwise fun s t => depth words s ≤ depth words t
  span : ∀ s ∈ queue, ∀ t ∈ queue, depth words t ≤ depth words s + 1

section

variable {taken queue : List Nat}

-- Up to the depth of the next node everything was reached.
theorem Linking.reached (h : Linking m words patterns taken queue) {u : Bytes} {s : Nat} (hs : words[s]? = some u)
    (hu : ∀ t ∈ queue, u.length ≤ depth words t) : s = 0 ∨ s ∈ taken ++ queue := by
  induction u using List.reverseRecOn generalizing s with
  | nil => exact .inl ((h.eq_zero_iff hs).2 rfl)
  | append_singleton u b ih =>
      have hmem : u ∈ words := h.closed u b (List.mem_iff_getElem?.2 ⟨s, hs⟩)
      obtain ⟨t, ht⟩ := List.mem_iff_getElem?.1 hmem
      have hshort : ∀ t ∈ queue, u.length < depth words t := by
        intro t ht
        have := hu t ht
        rw [List.length_append, List.length_singleton] at this
        omega
      right
      refine h.children t u b s ?_ ht hs
      rcases ih ht fun t ht => (hshort t ht).le with hzero | hreached
      · exact .inl hzero
      · rcases List.mem_append.1 hreached with htaken | hqueued
        · exact .inr htaken
        · have := hshort t hqueued
          rw [depth_eq ht] at this
          omega

theorem Linking.linked_of_depth (h : Linking m words patterns taken queue) {u : Bytes} {s : Nat} (hs : words[s]? = some u)
    (hu : ∀ t ∈ queue, u.length ≤ depth words t) : Linked m words patterns s := by
  rcases h.reached hs hu with rfl | hreached
  · exact h.start
  · exact h.linked s hreached

theorem Linking.step {state : Nat} (h : Linking m words patterns taken (state :: queue)) :
    ∃ m', (m.node state).edges.foldlM (linkEdge state) (m, queue) =
        .ok (m', queue ++ (m.node state).edges.map Edge.node) ∧ m'.nodes.length = m.nodes.length ∧
      Linking m' words patterns (taken ++ [state]) (queue ++ (m.node state).edges.map Edge.node) := by
  have hmem : state ∈ taken ++ state :: queue := List.mem_append_right _ List.mem_cons_self
  obtain ⟨parent, v, b, hstate, hparent, -⟩ := h.parents state hmem
  have hedges : ∀ e ∈ (m.node state).edges, words[e.node]? = some ((v ++ [b]) ++ [e.byte]) :=
    fun e he => (h.edges state _ hstate e).1 he
  have hdepth : ∀ t ∈ state :: queue, (v ++ [b]).length ≤ depth words t := by
    intro t ht
    rw [← depth_eq hstate]
    rcases List.mem_cons.1 ht with rfl | ht
    · exact le_refl _
    · exact (List.pairwise_cons.1 h.ordered).1 t ht
  have hnodup := h.children_nodup hstate
  obtain ⟨m', hfold, h', hlength, hlinked, hkept⟩ := linkEdges_eq hstate (by simp) (m.node state).edges h.toAutomaton
    (fun t w ht hw => h.linked_of_depth ht fun x hx => hw.trans (hdepth x hx)) hedges hnodup queue
  have hkid (t : Nat) (ht : t ∈ (m.node state).edges.map Edge.node) : ∃ c, words[t]? = some ((v ++ [b]) ++ [c]) := by
    obtain ⟨e, he, rfl⟩ := List.mem_map.1 ht
    exact ⟨e.byte, hedges e he⟩
  have hkidDepth (t : Nat) (ht : t ∈ (m.node state).edges.map Edge.node) : depth words t = depth words state + 1 := by
    obtain ⟨c, hc⟩ := hkid t ht
    rw [depth_eq hc, depth_eq hstate, List.length_append, List.length_singleton]
  -- A node is reached from its own parent only.
  have hfresh (t : Nat) (ht : t ∈ taken ++ state :: queue) : t ∉ (m.node state).edges.map Edge.node := by
    intro hmemKid
    obtain ⟨c, hc⟩ := hkid t hmemKid
    obtain ⟨t', u, c', hword, ht', hfrom⟩ := h.parents t ht
    rw [hc] at hword
    obtain ⟨rfl, -⟩ := List.append_inj' (Option.some.inj hword) rfl
    obtain rfl := h.unique ht' hstate
    rcases hfrom with hzero | htaken
    · have hnil := (h.eq_zero_iff hstate).1 hzero
      simp at hnil
    · exact (List.nodup_append.1 h.distinct).2.2 _ htaken _ List.mem_cons_self rfl
  have hsplit : taken ++ [state] ++ (queue ++ (m.node state).edges.map Edge.node) =
      (taken ++ state :: queue) ++ (m.node state).edges.map Edge.node := by simp
  refine ⟨m', hfold, hlength, h', ?_, ?_, ?_, ?_, ?_, ?_, ?_⟩
  · refine h.start.congr (hkept 0 ?_)
    intro hzero
    obtain ⟨c, hc⟩ := hkid 0 hzero
    rw [h.root] at hc
    simp at hc
  · intro t ht
    rw [hsplit] at ht
    rcases List.mem_append.1 ht with ht | ht
    · exact (h.linked t ht).congr (hkept t (hfresh t ht))
    · exact hlinked t ht
  · intro t ht
    rw [hsplit] at ht
    rcases List.mem_append.1 ht with ht | ht
    · obtain ⟨t', u, c, hword, ht', hfrom⟩ := h.parents t ht
      exact ⟨t', u, c, hword, ht', hfrom.imp_right (List.mem_append_left _)⟩
    · obtain ⟨c, hc⟩ := hkid t ht
      exact ⟨state, v ++ [b], c, hc, hstate, .inr (List.mem_append_right _ (List.mem_singleton_self _))⟩
  · intro s u c t hfrom hs ht
    rw [hsplit]
    have hold (hfrom : s = 0 ∨ s ∈ taken) : t ∈ (taken ++ state :: queue) ++ (m.node state).edges.map Edge.node :=
      List.mem_append_left _ (h.children s u c t hfrom hs ht)
    rcases hfrom with hzero | hmem
    · exact hold (.inl hzero)
    · rcases List.mem_append.1 hmem with htaken | hthis
      · exact hold (.inr htaken)
      · obtain rfl := List.mem_singleton.1 hthis
        refine List.mem_append_right _ (List.mem_map.2 ⟨⟨c, t⟩, (h.edges s u hs ⟨c, t⟩).2 ht, rfl⟩)
  · rw [hsplit]
    refine List.nodup_append.2 ⟨h.distinct, hnodup, ?_⟩
    rintro s hs t ht rfl
    exact hfresh s hs ht
  · refine List.pairwise_append.2 ⟨(List.pairwise_cons.1 h.ordered).2, ?_, ?_⟩
    · refine List.Pairwise.imp_of_mem (R := fun _ _ => True) ?_ (List.pairwise_of_forall fun _ _ => trivial)
      intro s t hs ht _
      rw [hkidDepth s hs, hkidDepth t ht]
    · intro s hs t ht
      rw [hkidDepth t ht]
      exact h.span state List.mem_cons_self s (List.mem_cons_of_mem _ hs)
  · intro s hs t ht
    have hlow (s : Nat) (hs : s ∈ queue) : depth words state ≤ depth words s := (List.pairwise_cons.1 h.ordered).1 s hs
    have hhigh (t : Nat) (ht : t ∈ queue) : depth words t ≤ depth words state + 1 :=
      h.span state List.mem_cons_self t (List.mem_cons_of_mem _ ht)
    rcases List.mem_append.1 hs with hs | hs
    · rcases List.mem_append.1 ht with ht | ht
      · exact h.span s (List.mem_cons_of_mem _ hs) t (List.mem_cons_of_mem _ ht)
      · have := hlow s hs
        rw [hkidDepth t ht]
        omega
    · rcases List.mem_append.1 ht with ht | ht
      · have := hhigh t ht
        rw [hkidDepth s hs]
        omega
      · rw [hkidDepth s hs, hkidDepth t ht]
        omega

-- Each node is taken once.
theorem Linking.length_le (h : Linking m words patterns taken queue) : taken.length + queue.length ≤ m.nodes.length := by
  have hsub : taken ++ queue ⊆ List.range m.nodes.length := by
    intro s hs
    obtain ⟨t, u, b, hword, -⟩ := h.parents s hs
    rw [List.mem_range, ← h.length]
    exact (List.getElem?_eq_some_iff.1 hword).1
  have hle := (List.subperm_of_subset h.distinct hsub).length_le
  rwa [List.length_append, List.length_range] at hle

theorem linkAll_eq {fuel : Nat} (h : Linking m words patterns taken queue)
    (hfuel : m.nodes.length ≤ fuel + taken.length) :
    ∃ m', linkAll fuel m queue = .ok m' ∧ Automaton m' words patterns ∧
      ∀ s u, words[s]? = some u → Linked m' words patterns s := by
  induction fuel generalizing m taken queue with
  | zero =>
      cases queue with
      | nil => exact ⟨m, rfl, h.toAutomaton, fun s u hs => h.linked_of_depth hs fun t ht => absurd ht List.not_mem_nil⟩
      | cons state queue =>
          have hle := h.length_le
          rw [List.length_cons] at hle
          omega
  | succ fuel ih =>
      cases queue with
      | nil => exact ⟨m, rfl, h.toAutomaton, fun s u hs => h.linked_of_depth hs fun t ht => absurd ht List.not_mem_nil⟩
      | cons state queue =>
          obtain ⟨m', hfold, hlength, h'⟩ := h.step
          rw [linkAll, hfold, ok_bind]
          refine ih h' ?_
          rw [hlength, List.length_append, List.length_singleton]
          omega

end

-- The search starts at the children of the root, whose links are those of a new node.
theorem Built.linking (h : Built m words patterns) (hcovers : Covers words patterns) :
    Linking m words patterns [] ((m.node 0).edges.map Edge.node) := by
  have hauto : Automaton m words patterns := ⟨h.toShape, hcovers, h.terminal⟩
  have hkid (t : Nat) (ht : t ∈ (m.node 0).edges.map Edge.node) : ∃ c, words[t]? = some [c] := by
    obtain ⟨e, he, rfl⟩ := List.mem_map.1 ht
    exact ⟨e.byte, (h.edges 0 [] h.root e).1 he⟩
  have hunlinked (s : Nat) (u : Bytes) (hs : words[s]? = some u) (hu : u.tail = []) : Linked m words patterns s := by
    intro w hw
    rw [hs] at hw
    obtain rfl := Option.some.inj hw
    rw [(h.unlinked s).1, (h.unlinked s).2, border, outLink, hu]
    exact ⟨h.root, h.root⟩
  have hdepth (t : Nat) (ht : t ∈ (m.node 0).edges.map Edge.node) : depth words t = 1 := by
    obtain ⟨c, hc⟩ := hkid t ht
    rw [depth_eq hc]
    rfl
  refine ⟨hauto, hunlinked 0 [] h.root rfl, ?_, ?_, ?_, ?_, ?_, ?_⟩
  · intro s hs
    obtain ⟨c, hc⟩ := hkid s hs
    exact hunlinked s [c] hc rfl
  · intro s hs
    obtain ⟨c, hc⟩ := hkid s hs
    exact ⟨0, [], c, hc, h.root, .inl rfl⟩
  · intro s u b t hfrom hs ht
    obtain rfl : s = 0 := hfrom.resolve_right List.not_mem_nil
    exact List.mem_map.2 ⟨⟨b, t⟩, (h.edges 0 u hs ⟨b, t⟩).2 ht, rfl⟩
  · exact hauto.children_nodup h.root
  · refine List.Pairwise.imp_of_mem (R := fun _ _ => True) ?_ (List.pairwise_of_forall fun _ _ => trivial)
    intro s t hs ht _
    rw [hdepth s hs, hdepth t ht]
  · intro s hs t ht
    rw [hdepth s hs, hdepth t ht]
    omega

-- A finished automaton has all its links.
structure Finished (m : Matcher) (words patterns : List Bytes) : Prop extends Automaton m words patterns where
  linked : ∀ s u, words[s]? = some u → Linked m words patterns s

theorem newMatcher_cases (patterns : List Bytes) :
    (∃ m words, newMatcher patterns = .ok m ∧ Finished m words patterns ∧ ¬ TooMany patterns) ∨
      (newMatcher patterns = .error .redaction ∧ TooMany patterns) := by
  unfold newMatcher
  rcases trie_cases patterns with ⟨m, words, htrie, h, hcovers⟩ | ⟨htrie, hmany⟩
  · have hfuel : m.nodes.length ≤ m.nodes.length + ([] : List Nat).length := Nat.le_refl _
    obtain ⟨m', hlink, h', hlinked⟩ := linkAll_eq (h.linking hcovers) hfuel
    rw [htrie, ok_bind]
    exact .inl ⟨m', words, hlink, ⟨h', hlinked⟩, h.not_tooMany hcovers⟩
  · rw [htrie]
    exact .inr ⟨rfl, hmany⟩

theorem Finished.run_eq (h : Finished m words patterns) (input : Bytes) :
    ∃ s, m.run input = .ok s ∧ words[s]? = some (longest patterns input) := by
  induction input using List.reverseRecOn with
  | nil => exact ⟨0, rfl, h.root⟩
  | append_singleton input b ih =>
      obtain ⟨s, hrun, hs⟩ := ih
      obtain ⟨t, hadvance, ht⟩ := advance_eq h.toAutomaton (b := b) hs fun t w ht _ => h.linked t w ht
      refine ⟨t, ?_, ?_⟩
      · unfold Matcher.run at hrun ⊢
        rw [List.foldlM_append, hrun, ok_bind, List.foldlM_cons, hadvance]
        rfl
      · rw [longest_concat]
        exact ht

theorem Shape.descend_eq (h : Shape m words) {s : Nat} {u : Bytes} (hs : words[s]? = some u) : m.descend u = some s := by
  induction u using List.reverseRecOn generalizing s with
  | nil =>
      rw [(h.eq_zero_iff hs).2 rfl]
      rfl
  | append_singleton u b ih =>
      obtain ⟨t, ht⟩ := List.mem_iff_getElem?.1 (h.closed u b (List.mem_iff_getElem?.2 ⟨s, hs⟩))
      have hfront := ih ht
      unfold Matcher.descend at hfront ⊢
      rw [List.foldlM_append, hfront]
      show List.foldlM (fun state b => m.edge state b) t [b] = some s
      rw [List.foldlM_cons, (h.edge_iff ht).2 hs]
      rfl

-- Each output link leads to the next shorter pattern that ends here.
theorem Finished.outputs_eq (h : Finished m words patterns) {fuel s : Nat} {u : Bytes} (hs : words[s]? = some u)
    (hfuel : u.length < fuel) : m.outputs fuel s = .ok ((ending patterns u).map List.length) := by
  induction fuel generalizing s u with
  | zero => omega
  | succ fuel ih =>
      rw [Matcher.outputs]
      split
      · rename_i hzero
        rw [(h.eq_zero_iff hs).1 hzero]
        rfl
      · rename_i hzero
        have hne : u ≠ [] := fun hnil => hzero ((h.eq_zero_iff hs).2 hnil)
        have hpos := List.length_pos_iff.2 hne
        have hshort : (outLink patterns u).length < u.length := length_outLink_lt hne
        rw [ih (h.linked s u hs u hs).2 (by omega), ok_bind, h.terminal s u hs, ending_outLink hne]
        by_cases hmem : u ∈ patterns
        · simp only [if_pos hmem, hpos, if_true, List.map_cons]
          rfl
        · simp only [if_neg hmem, Nat.lt_irrefl, if_false]
          rfl

-- After an input: the state is the node of its longest suffix that begins a pattern, and the output links list the
-- patterns that end with it.
def ReadsExactly (m : Matcher) (patterns : List Bytes) (input : Bytes) : Prop :=
  ∃ (state : Nat) (word : Bytes) (found : List Bytes), m.run input = .ok state ∧ m.descend word = some state ∧
    (word <:+ input ∧ begins patterns word = true ∧
      ∀ other, other <:+ input → begins patterns other = true → other.length ≤ word.length) ∧
    m.matchesAt state = .ok (found.map List.length) ∧ found.Nodup ∧
    ∀ p, p ∈ found ↔ p ∈ patterns ∧ p ≠ [] ∧ p <:+ input

-- For all patterns, unless they need more nodes than there may be.
theorem matcher_reads_exactly (patterns : List Bytes) :
    (newMatcher patterns = .error .redaction ∧ TooMany patterns) ∨
      ∃ m, newMatcher patterns = .ok m ∧ ¬ TooMany patterns ∧ ∀ input, ReadsExactly m patterns input := by
  rcases newMatcher_cases patterns with ⟨m, words, hnew, h, hroom⟩ | hrefused
  · refine .inr ⟨m, hnew, hroom, fun input => ?_⟩
    obtain ⟨s, hrun, hs⟩ := h.run_eq input
    refine ⟨s, longest patterns input, ending patterns input, hrun, h.descend_eq hs, ?_, ?_, ending_nodup input, ?_⟩
    · refine ⟨longest_isSuffix input, begins_longest input, fun other hsuffix hbegins => ?_⟩
      exact (isSuffix_longest hsuffix hbegins).length_le
    · rw [ending_longest]
      exact h.outputs_eq hs (Nat.lt_succ_of_lt (h.length_lt hs))
    · exact fun p => mem_ending
  · exact .inl hrefused

end

end AutoDeploy.Crypto
