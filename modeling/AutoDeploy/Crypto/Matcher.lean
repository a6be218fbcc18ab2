import AutoDeploy.Lib.Borders
import AutoDeploy.Lib.Bytes
import AutoDeploy.Lib.Result

namespace AutoDeploy.Crypto

open Lib Lib.Result Borders

structure Edge where
  byte : UInt8
  node : Nat
deriving DecidableEq, Repr

-- A node of the automaton. The root is node 0, and a link to 0 means that there is none.
structure ACNode where
  edges : List Edge
  fail : Nat
  outputLink : Nat
  terminal : Nat
  output : Nat
deriving DecidableEq, Repr

def ACNode.empty : ACNode := ⟨[], 0, 0, 0, 0⟩

structure Matcher where
  nodes : List ACNode
  maxPattern : Nat
deriving DecidableEq, Repr

def maxRedactionNodes : Nat := 2 ^ 16

-- A loop that runs out of its bound has its own outcome; that no loop does is proved below.
inductive MatcherError where
  | redaction
  | unbounded
deriving DecidableEq, Repr

-- sort.Search on edges in the order of their bytes: the first place whose byte is not smaller.
def search (edges : List Edge) (b : UInt8) : Nat := (edges.takeWhile fun e => decide (e.byte < b)).length

def findEdge (edges : List Edge) (b : UInt8) : Option Nat :=
  match edges[search edges b]? with
  | some e => if e.byte = b then some e.node else none
  | none => none

def insertEdge (edges : List Edge) (e : Edge) : List Edge :=
  edges.take (search edges e.byte) ++ e :: edges.drop (search edges e.byte)

namespace Matcher

variable (m : Matcher)

def node (state : Nat) : ACNode := m.nodes.getD state .empty

def edge (state : Nat) (b : UInt8) : Option Nat := findEdge (m.node state).edges b

def update (state : Nat) (f : ACNode → ACNode) : Matcher := { m with nodes := m.nodes.modify state f }

-- Along the failure links to the first node with such an edge, or to the root. The inner option is the node there.
def seek (b : UInt8) : Nat → Nat → Except MatcherError (Option Nat)
  | 0, _ => .error .unbounded
  | fuel + 1, state =>
      if state = 0 then .ok none
      else
        match m.edge state b with
        | some next => .ok (some next)
        | none => seek b fuel (m.node state).fail

def advance (state : Nat) (b : UInt8) : Except MatcherError Nat := do
  match ← m.seek b (m.nodes.length + 1) state with
  | some next => pure next
  | none => pure ((m.edge 0 b).getD 0)

-- The bytes are read one after the other, from the root.
def run (input : Bytes) : Except MatcherError Nat := input.foldlM (fun state b => m.advance state b) 0

-- The loop of recordSourceMatches: the lengths of the patterns that it records at a state.
def outputs : Nat → Nat → Except MatcherError (List Nat)
  | 0, _ => .error .unbounded
  | fuel + 1, state =>
      if state = 0 then .ok []
      else do
        let rest ← outputs fuel (m.node state).outputLink
        pure (if 0 < (m.node state).terminal then (m.node state).terminal :: rest else rest)

def matchesAt (state : Nat) : Except MatcherError (List Nat) := m.outputs (m.nodes.length + 1) state

-- The node that a word leads to along the edges.
def descend (word : Bytes) : Option Nat := word.foldlM (fun state b => m.edge state b) 0

end Matcher

def insertByte (cursor : Matcher × Nat) (b : UInt8) : Except MatcherError (Matcher × Nat) :=
  match cursor.1.edge cursor.2 b with
  | some next => .ok (cursor.1, next)
  | none =>
      if maxRedactionNodes ≤ cursor.1.nodes.length then .error .redaction
      else
        let next := cursor.1.nodes.length
        .ok (Matcher.update { cursor.1 with nodes := cursor.1.nodes ++ [.empty] } cursor.2
          fun n => { n with edges := insertEdge n.edges ⟨b, next⟩ }, next)

def insertPattern (m : Matcher) (pattern : Bytes) : Except MatcherError Matcher := do
  let m := { m with maxPattern := max m.maxPattern pattern.length }
  let (m, state) ← pattern.foldlM insertByte (m, 0)
  if (m.node state).terminal < pattern.length then
    pure (m.update state fun n => { n with terminal := pattern.length, output := pattern.length })
  else pure m

-- One edge of a node whose own links are there.
def linkEdge (state : Nat) (cursor : Matcher × List Nat) (e : Edge) : Except MatcherError (Matcher × List Nat) := do
  let m := cursor.1
  let failure ← match ← m.seek e.byte (m.nodes.length + 1) (m.node state).fail with
    | some next => pure next
    | none =>
        match m.edge 0 e.byte with
        | some next => pure (if next ≠ e.node then next else 0)
        | none => pure 0
  let target := m.node failure
  let m := m.update e.node fun n =>
    { n with
      fail := failure
      outputLink := if 0 < target.terminal then failure else target.outputLink
      output := if n.output < target.output then target.output else n.output }
  pure (m, cursor.2 ++ [e.node])

-- Breadth first: the queue has the nodes whose own links are there.
def linkAll : Nat → Matcher → List Nat → Except MatcherError Matcher
  | _, m, [] => .ok m
  | 0, _, _ :: _ => .error .unbounded
  | fuel + 1, m, state :: queue => do
      let (m, queue) ← (m.node state).edges.foldlM (linkEdge state) (m, queue)
      linkAll fuel m queue

def newMatcher (patterns : List Bytes) : Except MatcherError Matcher := do
  let m ← patterns.foldlM insertPattern ⟨[.empty], 0⟩
  linkAll m.nodes.length m ((m.node 0).edges.map Edge.node)

end AutoDeploy.Crypto
