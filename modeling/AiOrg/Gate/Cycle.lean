import AiOrg.Python.Dict

/-!
# Cycle search

`_cycle`: an iterative depth-first search over the prerequisite/dependent pairs, with the current
path, the position of each node on it, and the nodes being visited and visited.
-/

namespace AiOrg

/-- One entry of the search stack: a node and its neighbours from the current index on. -/
structure Frame (α : Type*) where
  node : α
  rest : List α
  deriving DecidableEq, Repr

structure CycleState (α : Type*) where
  stack : List (Frame α)
  visiting : List α
  visited : List α
  path : List α
  positions : List (α × ℕ)
  deriving DecidableEq, Repr

section Search

variable {α : Type*} [DecidableEq α] (adj : α → List α)

namespace CycleState

/-- Entering a node: `visiting.add`, its position, `path.append`. -/
def enter (s : CycleState α) (n : α) : CycleState α :=
  if n ∉ s.visiting ∧ n ∉ s.visited then
    { s with
      visiting := n :: s.visiting
      positions := (n, s.path.length) :: s.positions
      path := s.path ++ [n] }
  else s

/-- Leaving a node whose neighbours are exhausted. -/
def leave (s : CycleState α) (n : α) (stack : List (Frame α)) : CycleState α :=
  if n ∈ s.visiting then
    { stack := stack
      visiting := s.visiting.erase n
      visited := n :: s.visited
      positions := s.positions.filter (·.1 ≠ n)
      path := if s.path.getLast? = some n then s.path.dropLast else s.path }
  else { s with stack := stack }

end CycleState

/-- What one pass of the `while stack` loop does: it goes on, or returns a cycle. -/
inductive CycleStep (α : Type*) where
  | running (s : CycleState α)
  | found (cycle : List α)
  deriving DecidableEq, Repr

/-- One pass of the `while stack` loop with `frame` on top of `below`. -/
def cycleStep (s : CycleState α) (frame : Frame α) (below : List (Frame α)) : CycleStep α :=
  let s := s.enter frame.node
  match frame.rest with
  | [] => .running (s.leave frame.node below)
  | next :: rest =>
    if next ∈ s.visiting then
      .found (s.path.drop ((s.positions.lookup next).getD 0) ++ [next])
    else if next ∈ s.visited then
      .running { s with stack := ⟨frame.node, rest⟩ :: below }
    else
      .running { s with stack := ⟨next, adj next⟩ :: ⟨frame.node, rest⟩ :: below }

/-- The `while stack` loop: a cycle, or the state in which the stack is empty. -/
def cycleLoop : ℕ → CycleState α → Option (CycleStep α)
  | 0, _ => none
  | fuel + 1, s =>
    match s.stack with
    | [] => some (.running s)
    | frame :: below =>
      match cycleStep adj s frame below with
      | .found cycle => some (.found cycle)
      | .running s => cycleLoop fuel s

/-- The `for node in sorted(graph)` loop. -/
def cycleFrom (fuel : ℕ) : List α → CycleState α → Option (List α)
  | [], _ => some []
  | node :: nodes, s =>
    if node ∈ s.visited then cycleFrom fuel nodes s
    else
      match cycleLoop adj fuel { s with stack := [⟨node, adj node⟩] } with
      | none => none
      | some (.found cycle) => some cycle
      | some (.running s) => cycleFrom fuel nodes s

end Search

/-- `graph.setdefault(edge[prerequisite], []).append(edge[dependent])`. -/
def dependencyGraph (edges : List (String × String)) : List (String × List (String × String)) :=
  groupBy (fun e => some e.1) edges

/-- `sorted(graph.get(node, []))`. -/
def sortedDependents (edges : List (String × String)) (node : String) : List String :=
  sorted ((((dependencyGraph edges).lookup node).getD []).map Prod.snd)

/-- More passes than one `while stack` loop over these edges can make. -/
def cycleFuel (edges : List (String × String)) : ℕ := 5 * edges.length + 5

def cycle (edges : List (String × String)) : List String :=
  (cycleFrom (sortedDependents edges) (cycleFuel edges)
    (sorted ((dependencyGraph edges).map Prod.fst)) ⟨[], [], [], [], []⟩).getD []

end AiOrg
