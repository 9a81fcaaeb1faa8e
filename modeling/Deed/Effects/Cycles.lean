import Mathlib

/-!
# Which functions can reach themselves

`crates/deed-effects/src/cycles.rs`: the nodes of a call graph that lie on a cycle, by the
algorithm of Tarjan with its recursion on a stack of its own.  A missing entry of a map ends
the process.  The counter of the source has 32 bits, which are more than a module has
functions, since every position in its text has as many.
-/

namespace Deed.Effects

variable {T : Type}

/-- Who calls whom: a map from a node to the nodes it has edges to. -/
structure CallGraph (T : Type) where
  entries : List (T × List T)
  distinct : (entries.map Prod.fst).Nodup

namespace CallGraph

variable [DecidableEq T] (graph : CallGraph T)

def keys : List T := graph.entries.map Prod.fst

/-- The edges of a node, which are none where it is no key. -/
def edges (node : T) : List T := (graph.entries.lookup node).getD []

/-- The nodes that are keys, or that an edge goes to. -/
def nodes : List T := (graph.keys ++ graph.entries.flatMap Prod.snd).dedup

/-- As many turns as there are edges to take and nodes to leave. -/
def turns : Nat := (graph.nodes.map fun node => (graph.edges node).length + 1).sum

end CallGraph

structure Tarjan (T : Type) where
  index : T → Option Nat
  low : T → Option Nat
  onStack : T → Bool
  stack : List T
  next : Nat
  found : List T

/-- Each entry is a node and how many of its edges have been taken, the last entry first. -/
abbrev Work (T : Type) := List (T × Nat)

namespace Tarjan

variable [DecidableEq T] (graph : CallGraph T)

def new : Tarjan T := ⟨fun _ => none, fun _ => none, fun _ => false, [], 0, []⟩

def enter (state : Tarjan T) (node : T) : Tarjan T :=
  { state with
    index := Function.update state.index node (some state.next)
    low := Function.update state.low node (some state.next)
    next := state.next + 1
    stack := node :: state.stack
    onStack := Function.update state.onStack node true }

/-- The loop of `close`: the stack without what is popped, and what is popped after what was. -/
def popTo (root : T) : List T → List T → List T × List T
  | [], component => ([], component)
  | node :: stack, component =>
      if node = root then (stack, component ++ [node]) else popTo root stack (component ++ [node])

/-- Pops one strongly connected component and records it if it is a cycle. -/
def close (state : Tarjan T) (root : T) : Tarjan T :=
  let (stack, component) := popTo root state.stack []
  { state with
    stack
    onStack := fun node => state.onStack node && !component.contains node
    found :=
      if 1 < component.length ∨ root ∈ graph.edges root then state.found ++ component
      else state.found }

/-- Lowers the low link of a node to a number. -/
def lower (state : Tarjan T) (node : T) (number : Nat) : Option (Tarjan T) :=
  (state.low node).map fun low =>
    { state with low := Function.update state.low node (some (min low number)) }

/-- One turn of the loop of `run`. -/
def step (state : Tarjan T) (node : T) (taken : Nat) (rest : Work T) :
    Option (Tarjan T × Work T) :=
  match (graph.edges node)[taken]? with
  | some next =>
      let work := (node, taken + 1) :: rest
      if state.index next = none then some (state.enter next, (next, 0) :: work)
      else if state.onStack next then
        (state.index next).bind fun seen =>
          (state.lower node seen).map fun state => (state, work)
      else some (state, work)
  | none =>
      (state.low node).bind fun low =>
        (state.index node).bind fun index =>
          let state := if low = index then state.close graph node else state
          match rest with
          | [] => some (state, rest)
          | (parent, _) :: _ =>
              (state.low node).bind fun low =>
                (state.lower parent low).map fun state => (state, rest)

/-- The loop of `run`, with so many turns. -/
def loop : Nat → Tarjan T → Work T → Option (Tarjan T)
  | _, state, [] => some state
  | 0, _, _ => none
  | turns + 1, state, (node, taken) :: rest =>
      (step graph state node taken rest).bind fun next => loop turns next.1 next.2

def run (state : Tarjan T) (root : T) : Option (Tarjan T) :=
  loop graph graph.turns (state.enter root) [(root, 0)]

end Tarjan

/-- Every node that lies on a cycle. -/
def onACycle [LinearOrder T] (graph : CallGraph T) : Option (List T) :=
  ((graph.keys.insertionSort (· ≤ ·)).foldlM (fun state root =>
    if state.index root = none then state.run graph root else some state)
      Tarjan.new).map Tarjan.found

example : onACycle (T := Nat) ⟨[(0, [1]), (1, [2, 3]), (2, [1])], by decide⟩ = some [2, 1] := by
  decide

end Deed.Effects
