import AiOrg.Gate.Network

/-!
# What blocks a node

The purpose of the gate, without its traversals: an active `depends` edge blocks its node unless it
is unlocked, an AND edge by its own target and an edge of an OR group by any active member of it.
-/

namespace AiOrg

section Blocking

variable (py : PyLib)

/-- Whether an edge is switched on, `false` where the evaluation raises. -/
def edgeOn (state : CheckState) (edge : Edge) : Bool :=
  match edgeActive py state "" 0 edge with
  | .ok b => b
  | .error _ => false

/-- Whether the target of an edge is where the edge asks, `false` where the test raises. -/
def edgeSat (nodes : Nodes) (state : CheckState) (edge : Edge) : Bool :=
  match edgeTargetSatisfied py edge nodes state with
  | .ok b => b
  | .error _ => false

def activeDepends (state : CheckState) (manifest : Fields) : List Edge :=
  (dependsEdges py manifest).filter (edgeOn py state)

/-- Whether an active edge does not hold its node back. -/
def unlocked (nodes : Nodes) (state : CheckState) (manifest : Fields) (edge : Edge) : Bool :=
  match edge.group with
  | none => edgeSat py nodes state edge
  | some g => (activeDepends py state manifest).any fun e =>
      e.group = some g && edgeSat py nodes state e

/-- The edges that hold a node back. -/
def blockingEdges (nodes : Nodes) (state : CheckState) (manifest : Fields) : List Edge :=
  (activeDepends py state manifest).filter (!unlocked py nodes state manifest ·)

/-- The gate evaluates a manifest without raising. -/
structure Evaluates (nodes : Nodes) (state : CheckState) (manifest : Fields) : Prop where
  active : ∀ e ∈ manifestEdges py manifest, edgeActive py state "" 0 e = .ok (edgeOn py state e)
  satisfied : ∀ e ∈ dependsEdges py manifest,
    edgeTargetSatisfied py e nodes state = .ok (edgeSat py nodes state e)

end Blocking

end AiOrg

/-!
## Who waits for whom

A node waits for the nodes its blocking edges resolve to.  Nodes that wait for each other for ever
are a deadlock; one that runs through a serial id is not a cycle of blocking pairs.
-/

namespace AiOrg

structure Projection where
  values : CheckState
  scalar : CheckState.Scalar values

/-- The projected state over the defaults of the declared checks. -/
def Graph.state (G : Graph) (P : Projection) : CheckState :=
  (stateDefaults G.registry).update P.values

section Waiting

variable (py : PyLib) (G : Graph) (P : Projection)

/-- A blocking edge of `x` resolves to `y`. -/
def WaitsFor (x y : String) : Prop :=
  ∃ m, G.nodes.lookup x = some m ∧ ∃ e ∈ blockingEdges py G.nodes (G.state P) m,
    ∃ n, resolveEntry e.target G.nodes = some (y, n)

/-- Every blocking edge of a node resolves. -/
def BlockersResolve (x : String) : Prop :=
  ∀ m, G.nodes.lookup x = some m → ∀ e ∈ blockingEdges py G.nodes (G.state P) m,
    (resolveEntry e.target G.nodes).isSome

structure Deadlock (S : Set String) : Prop where
  nonempty : S.Nonempty
  node : ∀ x ∈ S, (G.nodes.lookup x).isSome
  ineligible : ∀ x ∈ S, eligible py x P.values G = .ok false
  resolve : ∀ x ∈ S, BlockersResolve py G P x
  closed : ∀ x ∈ S, ∀ y, WaitsFor py G P x y → y ∈ S

/-- A node with a blocking edge to something that is not a node key, from which waiting leads only
to nodes whose blocking edges resolve and that wait for it in turn. -/
structure SerialLoop (x : String) : Prop where
  serial : ∃ m, G.nodes.lookup x = some m ∧
    ∃ e ∈ blockingEdges py G.nodes (G.state P) m, G.nodes.lookup e.target = none
  resolve : ∀ y, Relation.ReflTransGen (WaitsFor py G P) x y → BlockersResolve py G P y
  back : ∀ y, Relation.ReflTransGen (WaitsFor py G P) x y →
    Relation.ReflTransGen (WaitsFor py G P) y x

/-- Every `depends` edge names a node by its key or by its serial id. -/
def TargetsResolve : Prop :=
  ∀ x m, G.nodes.lookup x = some m → ∀ e ∈ dependsEdges py m,
    (resolveEntry e.target G.nodes).isSome

/-- From every ineligible node waiting leads to an eligible one. -/
def ChainsEnd : Prop :=
  ∀ x, (G.nodes.lookup x).isSome → eligible py x P.values G = .ok false →
    ∃ y, Relation.ReflTransGen (WaitsFor py G P) x y ∧ eligible py y P.values G = .ok true

end Waiting

end AiOrg
