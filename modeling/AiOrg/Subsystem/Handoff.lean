import AiOrg.Gate.Plan
import AiOrg.Python.Base64
import AiOrg.Run.Traverse
import AiOrg.Subsystem.AcceptLeaf

/-!
# The handoff of a series

`handoff_series` merges the subsystem branch into mainline once for a series whose leaves are all resolved. The merge
is the record of the handoff: it is looked for down the first parents of mainline before anything else moves. Where
mainline does not exist, it begins before the merges that accepted the leaves, which are looked for down the first
parents of the subsystem branch.
-/

namespace AiOrg

open List

namespace Subsystem

open Git

def mainlineBranch : String := "ai-org/mainline"

section FirstParents

variable {τ : Type}

mutual

def firstParents : Commit τ → List (Commit τ)
  | .mk tree parents message => .mk tree parents message :: firstParentsUnder parents

def firstParentsUnder : List (Commit τ) → List (Commit τ)
  | [] => []
  | parent :: _ => firstParents parent

end

/-- A commit merges another as a parent after the first. -/
def Merges (c tip : Commit τ) : Prop := tip ∈ c.parents.tail

theorem firstParents_self (c : Commit τ) : c ∈ firstParents c := by
  obtain ⟨tree, parents, message⟩ := c
  rw [firstParents]
  exact mem_cons_self

theorem firstParents_induction {P : Commit τ → Prop} (root : ∀ tree message, P (.mk tree [] message))
    (onto : ∀ tree parent others message, P parent → P (.mk tree (parent :: others) message)) (c : Commit τ) :
    P c := by
  induction c using Commit.parents_induction with
  | step c ih =>
    obtain ⟨tree, _ | ⟨parent, others⟩, message⟩ := c
    · exact root tree message
    · exact onto tree parent others message (ih parent mem_cons_self)

theorem firstParents_trans {a b c : Commit τ} (hab : a ∈ firstParents b) (hbc : b ∈ firstParents c) :
    a ∈ firstParents c := by
  induction c using firstParents_induction with
  | root tree message =>
    rw [firstParents, firstParentsUnder, mem_singleton] at hbc
    rwa [← hbc]
  | onto tree parent others message ih =>
    rw [firstParents, firstParentsUnder, mem_cons] at hbc
    rcases hbc with rfl | hbc
    · exact hab
    · rw [firstParents, firstParentsUnder]
      exact mem_cons_of_mem _ (ih hbc)

end FirstParents

/-- What a Python call raises. -/
inductive Raised where
  | runtimeError (detail : String)
  | typeError (detail : String)

structure LeafRow (τ : Type) where
  nodePath : String
  contribBranch : String
  tip : Option (Commit τ)

structure Network where
  nodes : List (String × Json)
  errors : List Json

/-- The gate's `_load_manifest_network_from_git` of a series branch, and `resolved` of a node's address. -/
structure SeriesGate (τ : Type) where
  network : Repo τ → String → Except Raised Network
  resolved : Repo τ → String → Except Raised Bool

section Snapshot

variable (py : PyLib)

/-- The mappings among the manifests, by their `node_path`. -/
def manifestsByPath (network : Network) : List (String × Fields) :=
  dictOfEntries (network.nodes.filterMap fun node =>
    match node.2 with
    | .obj manifest => some (py.strOr (Fields.get manifest "node_path") ".", manifest)
    | _ => none)

def declaredPaths (root : Fields) : Except Raised (List String) :=
  match (root.getD "children" (.arr [])).iter with
  | none => .error (.typeError "object is not iterable")
  | some children => .ok ((children.filterMap fun child =>
      match child with
      | .obj fields => some (py.strOr (Fields.get fields "node_path") "")
      | _ => none).filter (· ≠ ""))

def leafPaths (network : Network) : Except Raised (List String) := do
  let byPath := manifestsByPath py network
  let declared ← declaredPaths py ((byPath.lookup ".").getD [])
  let paths := sorted (declared ++ (byPath.map Prod.fst).filter (· ≠ ".")).dedup
  return if paths = [] then ["."] else paths

def leafAddress (seriesBranch nodePath : String) : String :=
  if nodePath = "." then seriesBranch else seriesBranch ++ ":" ++ nodePath

variable {τ : Type} (gate : SeriesGate τ) (repo : Repo τ)

/-- `resolved` in the loop over the leaves, where a `RuntimeError` counts as unresolved. -/
def leafResolved (address : String) : Except Raised Bool :=
  match gate.resolved repo address with
  | .error (.runtimeError _) => .ok false
  | answer => answer

/-- One turn of the loop over the leaves: the row, and whether the leaf is resolved. -/
def leafOf (seriesBranch : String) (network : Network) (nodePath : String) :
    Except Raised (LeafRow τ × Bool) := do
  let manifest := ((manifestsByPath py network).lookup nodePath).getD []
  -- The call for the root leaves out an argument that the gate's function requires.
  let contribBranch ←
    if nodePath = "." then
      .error (.typeError ("_contrib_branch_for_patch_series_branch() missing 1 required keyword-only " ++
        "argument: 'series_branch'"))
    else .ok (py.strOr (manifest.get "contrib_branch") "")
  let tip := if contribBranch = "" then none else repo.refs contribBranch
  let resolved ←
    if network.errors = [] ∧ manifest ≠ [] ∧ contribBranch ≠ "" ∧ tip.isSome then
      leafResolved gate repo (leafAddress seriesBranch nodePath)
    else .ok false
  return (⟨nodePath, contribBranch, tip⟩, resolved)

/-- `_series_leaf_snapshot`: the leaves, and those of them that are not resolved. -/
def seriesLeafSnapshot (seriesBranch : String) : Except Raised (List (LeafRow τ) × List (LeafRow τ)) := do
  let network ← gate.network repo seriesBranch
  let paths ← leafPaths py network
  let leaves ← paths.mapM (leafOf py gate repo seriesBranch network)
  return (leaves.map Prod.fst, (leaves.filter fun leaf => !leaf.2).map Prod.fst)

end Snapshot

section Search

variable {τ : Type}

/-- The subject of the merge that records a series. -/
def recordSubject (slug : String) : String := "mainline: accept series " ++ slug

/-- A merge whose subject, stripped, is a given one. -/
def IsRecord (subject : String) (c : Commit τ) : Prop :=
  pyStrip (Git.subject c.message) = subject ∧ 2 ≤ c.parents.length

instance (subject : String) (c : Commit τ) : Decidable (IsRecord subject c) := instDecidableAnd

mutual

def mainlineRecordCommit (subject : String) : Commit τ → Option (Commit τ)
  | .mk tree parents message =>
    if IsRecord subject (.mk tree parents message) then some (.mk tree parents message)
    else mainlineRecordUnder subject parents

def mainlineRecordUnder (subject : String) : List (Commit τ) → Option (Commit τ)
  | [] => none
  | parent :: _ => mainlineRecordCommit subject parent

end

variable [DecidableEq τ]

mutual

/-- The loop of `_base_before_series_acceptance` from a commit on: the tips that it matched, and its candidate. -/
def baseLoop (leafTips : Finset (Commit τ)) :
    Commit τ → Finset (Commit τ) → Option (Commit τ) → Finset (Commit τ) × Option (Commit τ)
  | .mk _ parents _, matched, candidate => baseTurn leafTips parents matched candidate

def baseTurn (leafTips : Finset (Commit τ)) :
    List (Commit τ) → Finset (Commit τ) → Option (Commit τ) → Finset (Commit τ) × Option (Commit τ)
  | [], matched, candidate => (matched, candidate)
  | parent :: others, matched, candidate =>
    let acceptedHere := leafTips ∩ others.toFinset
    if acceptedHere.Nonempty then
      if matched ∪ acceptedHere = leafTips then (matched ∪ acceptedHere, some parent)
      else baseLoop leafTips parent (matched ∪ acceptedHere) (some parent)
    else baseLoop leafTips parent matched candidate

end

def leafTips (leaves : List (LeafRow τ)) : Finset (Commit τ) := (leaves.filterMap LeafRow.tip).toFinset

def baseBeforeSeriesAcceptance (subsystemTip : Commit τ) (leaves : List (LeafRow τ)) : Option (Commit τ) :=
  match baseLoop (leafTips leaves) subsystemTip ∅ none with
  | (matched, candidate) => if matched = leafTips leaves then candidate else none

end Search

/-- The commands of one `handoff_series` that can fail. -/
inductive MainlineCall where
  | isAncestor | createMainline | addMainlineWorktree | mergeSubsystem | readMainline
  deriving DecidableEq, Repr

/-- What these commands do, and the names of commits. -/
structure MainlineOutcomes (τ : Type) where
  succeeds : MainlineCall → Bool
  stderr : MainlineCall → String
  mergeTree : τ
  oid : Commit τ → String

inductive HandoffResult (τ : Type) where
  | incomplete (seriesBranch : String) (unresolved : List (LeafRow τ))
  | alreadyCurrent (seriesBranch : String) (mainlineCommit : Commit τ) (leaves : List (LeafRow τ))
  | missing (status seriesBranch : String)
  | handedOff (seriesBranch : String) (mainlineCommit : Commit τ) (leaves : List (LeafRow τ))
  | gitError (seriesBranch detail : String)

abbrev HandoffM (τ α : Type) := Stateful (Repo τ) Raised α

section Handoff

variable {τ : Type} (o : MainlineOutcomes τ)

def handoffBody (leaves : List (LeafRow τ)) (seriesTip subsystemTip : Commit τ) : String :=
  "\n".intercalate (["Leaves:"] ++
    leaves.map (fun row => "- " ++ row.nodePath ++ " | " ++ row.contribBranch ++ " | " ++
      ((row.tip.map o.oid).getD "")) ++
    ["", "Series branch tip: " ++ o.oid seriesTip, "Subsystem tip: " ++ o.oid subsystemTip, "",
      "Counts: leaves=" ++ toString leaves.length ++ " resolved=" ++ toString leaves.length ++
        " unresolved=0"])

/-- `_git_required` on a command, before its effect. -/
def needed (call : MainlineCall) : HandoffM τ Unit :=
  if o.succeeds call then pure () else throw (.runtimeError (o.stderr call))

def requiredMainline : HandoffM τ (Commit τ) := do
  needed o .readMainline
  match (← get).refs mainlineBranch with
  | some tip => return tip
  | none => throw (.runtimeError ("Git ref has no commit: " ++ mainlineBranch))

variable [DecidableEq τ]

/-- The tip that mainline has after `git merge --no-ff` of the subsystem's. -/
def mainlineMerge (subject body : String) (subsystemTip tip : Commit τ) : Commit τ :=
  if Commit.IsAncestor subsystemTip tip then tip
  else .mk o.mergeTree [tip, subsystemTip] (subject ++ "\n\n" ++ body)

/-- The end of `_handoff_series`: the merge in a worktree of mainline. -/
def mergeSubsystem (seriesBranch subject body : String) (subsystemTip : Commit τ)
    (leaves : List (LeafRow τ)) : HandoffM τ (HandoffResult τ) := do
  needed o .addMainlineWorktree
  let commit ← Stateful.finallyDo
    (do
      needed o .mergeSubsystem
      modify fun repo => repo.setRef mainlineBranch
        ((repo.refs mainlineBranch).map (mainlineMerge o subject body subsystemTip))
      requiredMainline o)
    (pure ())
  return .handedOff seriesBranch commit leaves

/-- `_handoff_series` from the look at mainline on. -/
def handoffOnto (seriesBranch subject : String) (leaves : List (LeafRow τ)) (seriesTip subsystemTip : Commit τ) :
    HandoffM τ (HandoffResult τ) := do
  let body := handoffBody o leaves seriesTip subsystemTip
  if (← get).branchExists mainlineBranch then
    let mainlineTip ← requiredMainline o
    if o.succeeds .isAncestor ∧ Commit.IsAncestor subsystemTip mainlineTip then
      return .alreadyCurrent seriesBranch mainlineTip leaves
    else mergeSubsystem o seriesBranch subject body subsystemTip leaves
  else
    match baseBeforeSeriesAcceptance subsystemTip leaves with
    | none => return .missing "mainline_base_missing" seriesBranch
    | some base =>
      needed o .createMainline
      modify fun repo => repo.setRef mainlineBranch (some base)
      mergeSubsystem o seriesBranch subject body subsystemTip leaves

variable (py : PyLib) (gate : SeriesGate τ)

def handoffSeriesUnguarded (seriesBranch slug : String) : HandoffM τ (HandoffResult τ) := do
  let repo ← get
  match seriesLeafSnapshot py gate repo seriesBranch with
  | .error raised => throw raised
  | .ok (leaves, unresolved) =>
    if unresolved ≠ [] then return .incomplete seriesBranch unresolved
    else
      match (repo.refs mainlineBranch).bind (mainlineRecordCommit (recordSubject slug)) with
      | some existing => return .alreadyCurrent seriesBranch existing leaves
      | none =>
        match repo.refs seriesBranch, repo.refs subsystemBranch with
        | none, _ => return .incomplete seriesBranch (if leaves = [] then [⟨".", "", none⟩] else leaves)
        | some _, none => return .missing "subsystem_missing" seriesBranch
        | some seriesTip, some subsystemTip =>
          handoffOnto o seriesBranch (recordSubject slug) leaves seriesTip subsystemTip

def handoffSeries (series : String) (repo : Repo τ) : Except Raised (HandoffResult τ) × Repo τ :=
  let normalized := patchSeriesBranch series
  match Stateful.exec (handoffSeriesUnguarded o py gate normalized (patchSeriesId normalized)) repo with
  | (.error (.runtimeError detail), repo') => (.ok (.gitError normalized detail), repo')
  | (result, repo') => (result, repo')

end Handoff

/-! ### The base is exact -/

section Base

variable {τ : Type}

/-- Down a chain, a commit is the first by which every tip has been merged. -/
def MetAt (tips : Finset (Commit τ)) (chain : List (Commit τ)) (m : Commit τ) : Prop :=
  ∃ newer older, chain = newer ++ m :: older ∧ (∀ tip ∈ tips, ∃ c ∈ newer ++ [m], Merges c tip) ∧
    ∃ tip ∈ tips, ∀ c ∈ newer, ¬ Merges c tip

/-- Some tip is merged nowhere on a chain. -/
def Unmet (tips : Finset (Commit τ)) (chain : List (Commit τ)) : Prop :=
  ∃ tip ∈ tips, ∀ c ∈ chain, ¬ Merges c tip

theorem MetAt.not_unmet {tips : Finset (Commit τ)} {chain : List (Commit τ)} {m : Commit τ}
    (h : MetAt tips chain m) : ¬ Unmet tips chain := by
  obtain ⟨newer, older, rfl, hmet, -⟩ := h
  rintro ⟨tip, htip, hnone⟩
  obtain ⟨c, hc, hmerges⟩ := hmet tip htip
  refine hnone c ?_ hmerges
  rw [mem_append, mem_singleton] at hc
  rcases hc with hc | rfl
  · exact mem_append_left _ hc
  · exact mem_append_right _ mem_cons_self

theorem MetAt.unique {tips : Finset (Commit τ)} {chain : List (Commit τ)} {m m' : Commit τ}
    (h : MetAt tips chain m) (h' : MetAt tips chain m') : m = m' := by
  obtain ⟨newer, older, hchain, hmet, tip, htip, hnone⟩ := h
  obtain ⟨newer', older', hchain', hmet', tip', htip', hnone'⟩ := h'
  rw [hchain] at hchain'
  rcases append_eq_append_iff.1 hchain' with ⟨more, hnewer', hrest⟩ | ⟨more, hnewer, hrest⟩
  · rcases more with _ | ⟨c, more⟩
    · exact (List.cons.inj hrest).1
    · obtain rfl := (List.cons.inj hrest).1
      obtain ⟨d, hd, hmerges⟩ := hmet tip' htip'
      refine absurd hmerges (hnone' d ?_)
      rw [hnewer', append_cons]
      exact mem_append_left more hd
  · rcases more with _ | ⟨c, more⟩
    · exact (List.cons.inj hrest).1.symm
    · obtain rfl := (List.cons.inj hrest).1
      obtain ⟨d, hd, hmerges⟩ := hmet' tip htip
      refine absurd hmerges (hnone d ?_)
      rw [hnewer, append_cons]
      exact mem_append_left more hd

theorem MetAt.onto [DecidableEq τ] {tips here : Finset (Commit τ)} {chain : List (Commit τ)} {c m : Commit τ}
    (hhere : ∀ tip ∈ tips, tip ∈ here ↔ Merges c tip) (h : MetAt (tips \ here) chain m) :
    MetAt tips (c :: chain) m := by
  obtain ⟨newer, older, rfl, hmet, tip, htip, hnone⟩ := h
  rw [Finset.mem_sdiff] at htip
  refine ⟨c :: newer, older, rfl, fun t ht => ?_, tip, htip.1, ?_⟩
  · by_cases hc : Merges c t
    · exact ⟨c, mem_cons_self, hc⟩
    · obtain ⟨d, hd, hmerges⟩ := hmet t (Finset.mem_sdiff.2 ⟨ht, fun hin => hc ((hhere t ht).1 hin)⟩)
      exact ⟨d, mem_cons_of_mem c hd, hmerges⟩
  · simp only [mem_cons, forall_eq_or_imp]
    exact ⟨fun hmerges => htip.2 ((hhere tip htip.1).2 hmerges), hnone⟩

theorem MetAt.merges {tips : Finset (Commit τ)} {chain : List (Commit τ)} {m : Commit τ} (h : MetAt tips chain m) :
    ∃ tip ∈ tips, Merges m tip := by
  obtain ⟨newer, older, -, hmet, tip, htip, hnone⟩ := h
  obtain ⟨c, hc, hmerges⟩ := hmet tip htip
  rw [mem_append, mem_singleton] at hc
  rcases hc with hc | rfl
  · exact absurd hmerges (hnone c hc)
  · exact ⟨tip, htip, hmerges⟩

theorem Merges.isSome_head {m tip : Commit τ} (h : Merges m tip) : m.parents.head?.isSome := by
  unfold Merges at h
  rcases hparents : m.parents with _ | ⟨parent, others⟩
  · rw [hparents] at h
    exact absurd h not_mem_nil
  · rfl

variable [DecidableEq τ] {tips matched : Finset (Commit τ)} {candidate : Option (Commit τ)}

theorem baseTurn_cons (parent : Commit τ) (others : List (Commit τ)) (hne : matched ≠ tips) :
    baseTurn tips (parent :: others) matched candidate =
      if matched ∪ tips ∩ others.toFinset = tips then (tips, some parent)
      else baseLoop tips parent (matched ∪ tips ∩ others.toFinset)
        (if (tips ∩ others.toFinset).Nonempty then some parent else candidate) := by
  rw [baseTurn]
  by_cases hhere : (tips ∩ others.toFinset).Nonempty
  · rw [if_pos hhere, if_pos hhere]
    by_cases hall : matched ∪ tips ∩ others.toFinset = tips
    · rw [if_pos hall, if_pos hall, hall]
    · rw [if_neg hall, if_neg hall]
  · rw [Finset.not_nonempty_iff_eq_empty] at hhere
    rw [hhere, Finset.union_empty, if_neg Finset.not_nonempty_empty, if_neg hne, if_neg Finset.not_nonempty_empty]

theorem baseLoop_spec (c : Commit τ) : ∀ (matched : Finset (Commit τ)) (candidate : Option (Commit τ)),
    matched ⊆ tips → matched ≠ tips →
      (∃ m, MetAt (tips \ matched) (firstParents c) m ∧
        baseLoop tips c matched candidate = (tips, m.parents.head?)) ∨
      Unmet (tips \ matched) (firstParents c) ∧ (baseLoop tips c matched candidate).1 ≠ tips := by
  induction c using firstParents_induction with
  | root tree message =>
    intro matched candidate hsub hne
    right
    obtain ⟨tip, htip, hnew⟩ := Finset.exists_of_ssubset (hsub.ssubset_of_ne hne)
    refine ⟨⟨tip, Finset.mem_sdiff.2 ⟨htip, hnew⟩, fun c hc => ?_⟩, hne⟩
    rw [firstParents, firstParentsUnder, mem_singleton] at hc
    subst hc
    exact not_mem_nil
  | onto tree parent others message ih =>
    intro matched candidate hsub hne
    have hmerges : ∀ tip, Merges (.mk tree (parent :: others) message) tip ↔ tip ∈ others := fun tip => Iff.rfl
    rw [firstParents, firstParentsUnder, baseLoop, baseTurn_cons parent others hne]
    set here := tips ∩ others.toFinset with hhere
    have hmem : ∀ tip ∈ tips, tip ∈ here ↔ tip ∈ others := by
      intro tip htip
      rw [hhere, Finset.mem_inter, mem_toFinset]
      exact and_iff_right htip
    by_cases hall : matched ∪ here = tips
    · rw [if_pos hall]
      left
      obtain ⟨tip, htip, hnew⟩ := Finset.exists_of_ssubset (hsub.ssubset_of_ne hne)
      refine ⟨.mk tree (parent :: others) message, ⟨[], firstParents parent, rfl, fun t ht => ?_, tip,
        Finset.mem_sdiff.2 ⟨htip, hnew⟩, fun c hc => absurd hc not_mem_nil⟩, rfl⟩
      rw [Finset.mem_sdiff] at ht
      have hin : t ∈ matched ∪ here := by rw [hall]; exact ht.1
      refine ⟨_, mem_singleton_self _, (hmerges t).2 ((hmem t ht.1).1 ?_)⟩
      exact (Finset.mem_union.1 hin).resolve_left ht.2
    · rw [if_neg hall]
      have hsub' : matched ∪ here ⊆ tips := Finset.union_subset hsub Finset.inter_subset_left
      rcases ih (matched ∪ here) _ hsub' hall with ⟨m, hm, hloop⟩ | ⟨⟨tip, htip, hnone⟩, hloop⟩
      · refine Or.inl ⟨m, @MetAt.onto _ _ _ here _ _ _ (fun tip htip => ?_) ?_, hloop⟩
        · rw [hmerges, hmem tip (Finset.mem_sdiff.1 htip).1]
        · rwa [sdiff_sdiff_left]
      · refine Or.inr ⟨⟨tip, ?_, ?_⟩, hloop⟩
        · rw [Finset.mem_sdiff, Finset.notMem_union] at htip
          exact Finset.mem_sdiff.2 ⟨htip.1, htip.2.1⟩
        · rw [Finset.mem_sdiff, Finset.notMem_union] at htip
          simp only [mem_cons, forall_eq_or_imp]
          refine ⟨fun h => htip.2.2 ((hmem tip htip.1).2 ((hmerges tip).1 h)), hnone⟩

theorem baseLoop_empty (c : Commit τ) : baseLoop ∅ c ∅ none = (∅, none) := by
  induction c using firstParents_induction with
  | root tree message => rfl
  | onto tree parent others message ih =>
    rw [baseLoop, baseTurn, Finset.empty_inter, if_neg Finset.not_nonempty_empty]
    exact ih

variable {subsystemTip base : Commit τ} {leaves : List (LeafRow τ)}

theorem base_cases (subsystemTip : Commit τ) (leaves : List (LeafRow τ)) :
    (∃ m, MetAt (leafTips leaves) (firstParents subsystemTip) m ∧
      baseBeforeSeriesAcceptance subsystemTip leaves = m.parents.head?) ∨
    (leafTips leaves = ∅ ∨ Unmet (leafTips leaves) (firstParents subsystemTip)) ∧
      baseBeforeSeriesAcceptance subsystemTip leaves = none := by
  unfold baseBeforeSeriesAcceptance
  rcases eq_or_ne (leafTips leaves) ∅ with hnone | hne
  · rw [hnone, baseLoop_empty]
    exact Or.inr ⟨Or.inl rfl, rfl⟩
  · rcases @baseLoop_spec _ _ (leafTips leaves) subsystemTip ∅ none (Finset.empty_subset _) hne.symm with
      ⟨m, hm, hloop⟩ | ⟨hunmet, hloop⟩
    · rw [Finset.sdiff_empty] at hm
      refine Or.inl ⟨m, hm, ?_⟩
      rw [hloop]
      exact if_pos rfl
    · rw [Finset.sdiff_empty] at hunmet
      exact Or.inr ⟨Or.inr hunmet, if_neg hloop⟩

theorem base_eq_some_iff : baseBeforeSeriesAcceptance subsystemTip leaves = some base ↔
    ∃ m, MetAt (leafTips leaves) (firstParents subsystemTip) m ∧ m.parents.head? = some base := by
  rcases base_cases subsystemTip leaves with ⟨m, hm, hbase⟩ | ⟨hunmet, hbase⟩
  · rw [hbase]
    refine ⟨fun h => ⟨m, hm, h⟩, ?_⟩
    rintro ⟨m', hm', h⟩
    rw [← h, hm.unique hm']
  · rw [hbase]
    refine iff_of_false (by simp) ?_
    rintro ⟨m, hm, -⟩
    obtain ⟨tip, htip, -⟩ := hm.merges
    rcases hunmet with hempty | hunmet
    · rw [hempty] at htip
      exact absurd htip (Finset.notMem_empty tip)
    · exact absurd hunmet hm.not_unmet

theorem base_isSome_iff : (baseBeforeSeriesAcceptance subsystemTip leaves).isSome ↔
    (leafTips leaves).Nonempty ∧ ∀ tip ∈ leafTips leaves, ∃ c ∈ firstParents subsystemTip, Merges c tip := by
  rcases base_cases subsystemTip leaves with ⟨m, hm, hbase⟩ | ⟨hunmet, hbase⟩
  · obtain ⟨tip, htip, hmerges⟩ := hm.merges
    rw [hbase]
    refine iff_of_true hmerges.isSome_head ⟨⟨tip, htip⟩, fun t ht => ?_⟩
    by_contra hnone
    exact hm.not_unmet ⟨t, ht, fun c hc h => hnone ⟨c, hc, h⟩⟩
  · rw [hbase]
    refine iff_of_false Bool.false_ne_true ?_
    rintro ⟨hne, hall⟩
    rcases hunmet with hempty | ⟨tip, htip, hnone⟩
    · exact hne.ne_empty hempty
    · obtain ⟨c, hc, hmerges⟩ := hall tip htip
      exact hnone c hc hmerges

/-- The merges of the tips down to the oldest: the first parent of that is the base. -/
def IsOldestBase (subsystemTip : Commit τ) (leaves : List (LeafRow τ)) (base : Commit τ) : Prop :=
  ∃ newer m older, firstParents subsystemTip = newer ++ m :: older ∧ m.parents.head? = some base ∧
    (∃ tip ∈ leafTips leaves, Merges m tip) ∧ ∀ c ∈ older, ∀ tip ∈ leafTips leaves, ¬ Merges c tip

theorem base_oldest (honce : (firstParents subsystemTip).Pairwise fun c d =>
      ∀ tip ∈ leafTips leaves, ¬ (Merges c tip ∧ Merges d tip))
    (hbase : baseBeforeSeriesAcceptance subsystemTip leaves = some base) :
    IsOldestBase subsystemTip leaves base := by
  obtain ⟨m, hm, hhead⟩ := base_eq_some_iff.1 hbase
  obtain ⟨newer, older, hchain, hmet, -⟩ := id hm
  refine ⟨newer, m, older, hchain, hhead, hm.merges, fun c hc tip htip hmerges => ?_⟩
  obtain ⟨d, hd, hd'⟩ := hmet tip htip
  rw [hchain, append_cons, pairwise_append] at honce
  exact honce.2.2 d hd c hc tip htip ⟨hd', hmerges⟩

/-- The search finds a base exactly when there are tips and each has been merged. It is the first parent of the merge
by which all of them have been met, and of the oldest merge where none of them is merged twice. -/
def BaseExact (subsystemTip : Commit τ) (leaves : List (LeafRow τ)) : Prop :=
  ((baseBeforeSeriesAcceptance subsystemTip leaves).isSome ↔
    (leafTips leaves).Nonempty ∧ ∀ tip ∈ leafTips leaves, ∃ c ∈ firstParents subsystemTip, Merges c tip) ∧
  (∀ base, baseBeforeSeriesAcceptance subsystemTip leaves = some base ↔
    ∃ m, MetAt (leafTips leaves) (firstParents subsystemTip) m ∧ m.parents.head? = some base) ∧
  ((firstParents subsystemTip).Pairwise (fun c d => ∀ tip ∈ leafTips leaves, ¬ (Merges c tip ∧ Merges d tip)) →
    ∀ base, baseBeforeSeriesAcceptance subsystemTip leaves = some base → IsOldestBase subsystemTip leaves base)

theorem base_exact (subsystemTip : Commit τ) (leaves : List (LeafRow τ)) : BaseExact subsystemTip leaves :=
  ⟨base_isSome_iff, fun _ => base_eq_some_iff, fun honce _ => base_oldest honce⟩

def sampleLeaf : LeafRow Unit := ⟨"sub/leaf", "ai-org/contrib/leaf", some (.mk () [] "leaf")⟩

def sampleOlder : Commit Unit := .mk () [.mk () [] "root", .mk () [] "leaf"] "older"

/-- The search stops at the newer of two merges of a tip. -/
theorem base_not_oldest : ¬ ∀ (subsystemTip : Commit Unit) (leaves : List (LeafRow Unit)) (base : Commit Unit),
    baseBeforeSeriesAcceptance subsystemTip leaves = some base ↔
      (∀ tip ∈ leafTips leaves, ∃ c ∈ firstParents subsystemTip, Merges c tip) ∧
        IsOldestBase subsystemTip leaves base := by
  intro h
  have hbase : baseBeforeSeriesAcceptance (.mk () [sampleOlder, .mk () [] "leaf"] "newer") [sampleLeaf] =
      some sampleOlder := by decide
  obtain ⟨-, newer, m, older, hchain, hhead, -, holder⟩ := (h _ _ _).1 hbase
  have hleaf : (.mk () [] "leaf" : Commit Unit) ∈ leafTips [sampleLeaf] := by decide
  have hmerges : Merges sampleOlder (.mk () [] "leaf" : Commit Unit) := mem_cons_self
  have hlist : firstParents (.mk () [sampleOlder, .mk () [] "leaf"] "newer") =
      [.mk () [sampleOlder, .mk () [] "leaf"] "newer", sampleOlder, .mk () [] "root"] := rfl
  rw [hlist] at hchain
  rcases newer with _ | ⟨c, newer⟩
  · obtain ⟨rfl, rfl⟩ := List.cons.inj hchain
    exact holder sampleOlder mem_cons_self _ hleaf hmerges
  · have hm : m ∈ [sampleOlder, .mk () [] "root"] := by
      rw [(List.cons.inj hchain).2]
      exact mem_append_right newer mem_cons_self
    simp only [mem_cons, not_mem_nil, or_false] at hm
    rcases hm with rfl | rfl
    · revert hhead
      decide
    · cases hhead

end Base

/-- A slug as it stands at the end of a branch name: on one line, with no space behind it. -/
def IsSlug (slug : String) : Prop :=
  (∀ c ∈ slug.toList, c ≠ '\n' ∧ c ≠ '\r') ∧ ∃ front c, slug.toList = front ++ [c] ∧ Text.isSpace c = false

section Record

variable {τ : Type}

theorem mainlineRecordCommit_eq_none {subject : String} {c : Commit τ} :
    mainlineRecordCommit subject c = none ↔ ∀ d ∈ firstParents c, ¬ IsRecord subject d := by
  induction c using firstParents_induction with
  | root tree message =>
    rw [mainlineRecordCommit, mainlineRecordUnder, firstParents, firstParentsUnder]
    simp
  | onto tree parent others message ih =>
    rw [mainlineRecordCommit, mainlineRecordUnder, firstParents, firstParentsUnder]
    by_cases h : IsRecord subject (.mk tree (parent :: others) message)
    · simp [h]
    · rw [if_neg h, ih]
      simp [h]

theorem subject_paragraph {line body : String} (hline : ∀ c ∈ line.toList, c ≠ '\n')
    (hlast : ∃ front c, line.toList = front ++ [c] ∧ Git.isSpace c = false) :
    Git.subject (line ++ "\n\n" ++ body) = line := by
  have hkept : line.toList.rdropWhile Git.isSpace = line.toList := by
    obtain ⟨front, c, hc, hspace⟩ := hlast
    rw [hc, rdropWhile_concat, hspace, if_neg Bool.false_ne_true]
  have hne : line.toList.isEmpty = false := by
    obtain ⟨front, c, hc, -⟩ := hlast
    simp [hc]
  have hsplit : (line ++ "\n\n" ++ body).toList.splitOnP (· == '\n') =
      line.toList :: [] :: body.toList.splitOnP (· == '\n') := by
    have htext : (line ++ "\n\n" ++ body).toList = line.toList ++ '\n' :: '\n' :: body.toList := by simp
    rw [htext, splitOnP_append_of_forall (by simpa using hline)]
    simp [splitOnP_cons_eq_if_modifyHead]
  simp only [Git.subject, hsplit, map_cons, hkept, rdropWhile_nil]
  rw [dropWhile_cons, hne, if_neg Bool.false_ne_true, takeWhile_cons, hne]
  simp

theorem recordSubject_toList (slug : String) :
    (recordSubject slug).toList = "mainline: accept series ".toList ++ slug.toList := String.toList_append

theorem pyStrip_recordSubject {slug : String} (h : IsSlug slug) :
    pyStrip (recordSubject slug) = recordSubject slug := by
  obtain ⟨-, front, c, hslug, hc⟩ := h
  have htrimmed : Text.Trimmed (recordSubject slug).toList := by
    rw [recordSubject_toList, hslug]
    refine ⟨fun d hd => ?_, fun d hd => ?_⟩
    · obtain rfl := Option.some.inj hd
      decide
    · rw [← append_assoc, getLast?_append] at hd
      obtain rfl := Option.some.inj hd
      exact hc
  rw [pyStrip, Text.strip_of_trimmed htrimmed, String.ofList_toList]

theorem isSpace_of_isGitSpace {c : Char} (h : Git.isSpace c = true) : Text.isSpace c = true := by
  simp only [Git.isSpace, Bool.or_eq_true, beq_iff_eq] at h
  rcases h with ((rfl | rfl) | rfl) | rfl <;> decide

theorem isRecord_of_message {slug body : String} {c : Commit τ} (hslug : IsSlug slug)
    (hparents : 2 ≤ c.parents.length) (hmessage : c.message = recordSubject slug ++ "\n\n" ++ body) :
    IsRecord (recordSubject slug) c := by
  refine ⟨?_, hparents⟩
  rw [hmessage, subject_paragraph ?_ ?_, pyStrip_recordSubject hslug]
  · intro d hd
    rw [recordSubject_toList, mem_append] at hd
    rcases hd with hd | hd
    · rintro rfl
      revert hd
      decide
    · exact (hslug.1 d hd).1
  · obtain ⟨-, front, d, hlist, hd⟩ := hslug
    refine ⟨"mainline: accept series ".toList ++ front, d, ?_, ?_⟩
    · rw [recordSubject_toList, hlist, append_assoc]
    · rw [Bool.eq_false_iff]
      intro hspace
      rw [isSpace_of_isGitSpace hspace] at hd
      cases hd

end Record

/-! ### One handoff -/

section Handoff

variable {τ : Type} {py : PyLib} {gate : SeriesGate τ} {repo : Repo τ} {seriesBranch : String}

def contribBranchOf (py : PyLib) (network : Network) (nodePath : String) : String :=
  py.strOr ((((manifestsByPath py network).lookup nodePath).getD []).get "contrib_branch") ""

/-- The manifests of a series are sound, each of its leaves is resolved, and its contribution has a commit. -/
def AllResolved (py : PyLib) (gate : SeriesGate τ) (repo : Repo τ) (seriesBranch : String) : Prop :=
  ∃ network paths, gate.network repo seriesBranch = .ok network ∧ leafPaths py network = .ok paths ∧
    network.errors = [] ∧ ∀ path ∈ paths, gate.resolved repo (leafAddress seriesBranch path) = .ok true ∧
      (repo.refs (contribBranchOf py network path)).isSome

theorem resolved_of_leafResolved {address : String} (h : leafResolved gate repo address = .ok true) :
    gate.resolved repo address = .ok true := by
  unfold leafResolved at h
  split at h
  · cases h
  · exact h

theorem leafOf_resolved {network : Network} {path : String} {row : LeafRow τ}
    (h : leafOf py gate repo seriesBranch network path = .ok (row, true)) :
    network.errors = [] ∧ gate.resolved repo (leafAddress seriesBranch path) = .ok true ∧
      (repo.refs (contribBranchOf py network path)).isSome := by
  unfold leafOf at h
  by_cases hroot : path = "."
  · rw [if_pos hroot] at h
    cases h
  · rw [if_neg hroot] at h
    simp only [Except.bind, bind, pure, Except.pure] at h
    rw [← contribBranchOf] at h
    split_ifs at h with hnone hready hready
    · exact absurd hnone hready.2.2.1
    · cases h
    · rcases hanswer : leafResolved gate repo (leafAddress seriesBranch path) with e | answer
      · rw [hanswer] at h
        cases h
      · rw [hanswer] at h
        obtain ⟨rfl, rfl⟩ := Prod.mk.inj (Except.ok.inj h)
        exact ⟨hready.1, resolved_of_leafResolved hanswer, hready.2.2.2⟩
    · cases h

theorem leafPaths_ne_nil {network : Network} {paths : List String} (h : leafPaths py network = .ok paths) :
    paths ≠ [] := by
  unfold leafPaths at h
  dsimp only at h
  rcases hdeclared : declaredPaths py (((manifestsByPath py network).lookup ".").getD []) with e | declared
  · rw [hdeclared] at h
    cases h
  · rw [hdeclared] at h
    obtain rfl := Except.ok.inj h
    split_ifs with hnil
    · exact cons_ne_nil _ _
    · exact hnil

theorem snapshot_resolved {leaves : List (LeafRow τ)}
    (h : seriesLeafSnapshot py gate repo seriesBranch = .ok (leaves, [])) : AllResolved py gate repo seriesBranch := by
  unfold seriesLeafSnapshot at h
  rcases hnetwork : gate.network repo seriesBranch with e | network
  · rw [hnetwork] at h
    cases h
  rcases hpaths : leafPaths py network with e | paths
  · rw [hnetwork] at h
    simp only [bind, Except.bind, hpaths] at h
    cases h
  rcases hrows : paths.mapM (leafOf py gate repo seriesBranch network) with e | rows
  · rw [hnetwork] at h
    simp only [bind, Except.bind, hpaths, hrows] at h
    cases h
  rw [hnetwork] at h
  simp only [bind, Except.bind, hpaths, hrows, pure, Except.pure, Except.ok.injEq, Prod.mk.injEq,
    map_eq_nil_iff, filter_eq_nil_iff] at h
  have hleaf : ∀ path ∈ paths, ∃ row, leafOf py gate repo seriesBranch network path = .ok (row, true) := by
    intro path hpath
    obtain ⟨⟨row, answer⟩, hrow, hof⟩ := Traverse.exists_of_mem_left (Traverse.forall₂_of_mapM_ok hrows) hpath
    obtain rfl : answer = true := by simpa using h.2 _ hrow
    exact ⟨row, hof⟩
  obtain ⟨path, hpath⟩ := exists_mem_of_ne_nil paths (leafPaths_ne_nil hpaths)
  obtain ⟨row, hrow⟩ := hleaf path hpath
  refine ⟨network, paths, hnetwork, hpaths, (leafOf_resolved hrow).1, fun path hpath => ?_⟩
  obtain ⟨row, hrow⟩ := hleaf path hpath
  exact (leafOf_resolved hrow).2

variable [DecidableEq τ] {o : MainlineOutcomes τ}

/-- Mainline is at a commit that has everything on its first parents that it had before. -/
def Grown (repo repo' : Repo τ) : Prop :=
  ∃ tip, repo'.refs mainlineBranch = some tip ∧
    ∀ old, repo.refs mainlineBranch = some old → old ∈ firstParents tip

/-- Mainline is where it was, or has grown. -/
def Moved (repo repo' : Repo τ) : Prop :=
  repo'.refs mainlineBranch = repo.refs mainlineBranch ∨ Grown repo repo'

open Stateful (Meets)

omit [DecidableEq τ] in
theorem needed_meets {call : MainlineCall} {pre raised : Repo τ → Prop} (h : ∀ s, pre s → raised s) :
    Meets pre (needed o call) (fun _ => pre) raised := by
  unfold needed
  by_cases hcall : o.succeeds call = true
  · rw [if_pos hcall]
    exact Meets.pure fun _ hs => hs
  · rw [if_neg hcall]
    exact Meets.throw h

omit [DecidableEq τ] in
theorem requiredMainline_meets {pre raised : Repo τ → Prop} (h : ∀ s, pre s → raised s) :
    Meets pre (requiredMainline o) (fun _ => pre) raised := by
  unfold requiredMainline
  refine Meets.bind (needed_meets h) fun _ => ?_
  refine Meets.bind (Meets.get (Q := fun _ => pre) fun _ hs => hs) fun s => ?_
  rcases s.refs mainlineBranch with _ | tip
  · exact Meets.throw h
  · exact Meets.pure fun _ hs => hs

theorem firstParents_mainlineMerge (subject body : String) (subsystemTip tip : Commit τ) :
    tip ∈ firstParents (mainlineMerge o subject body subsystemTip tip) := by
  unfold mainlineMerge
  split_ifs
  · exact firstParents_self tip
  · rw [firstParents, firstParentsUnder]
    exact mem_cons_of_mem _ (firstParents_self tip)

theorem mergeSubsystem_meets {subject body : String} {subsystemTip : Commit τ} {leaves : List (LeafRow τ)} :
    Meets (Grown repo) (mergeSubsystem o seriesBranch subject body subsystemTip leaves) (fun _ => Grown repo)
      (Grown repo) := by
  unfold mergeSubsystem
  refine Meets.bind (needed_meets fun _ hs => hs) fun _ => ?_
  refine Meets.bind (Q := fun _ => Grown repo) (Meets.finallyDo ?_ (fun _ => Meets.pure fun _ hs => hs)
    (Meets.pure fun _ hs => hs)) fun _ => Meets.pure fun _ hs => hs
  refine Meets.bind (needed_meets fun _ hs => hs) fun _ => ?_
  refine Meets.bind (Q := fun _ => Grown repo) (Meets.update fun s hs => ?_) fun _ =>
    requiredMainline_meets fun _ hs => hs
  obtain ⟨tip, htip, hold⟩ := hs
  refine ⟨mainlineMerge o subject body subsystemTip tip, ?_, fun old h =>
    firstParents_trans (hold old h) (firstParents_mainlineMerge subject body subsystemTip tip)⟩
  simp [Repo.setRef, htip]

theorem handoffOnto_meets {subject : String} {leaves : List (LeafRow τ)} {seriesTip subsystemTip : Commit τ} :
    Meets (· = repo) (handoffOnto o seriesBranch subject leaves seriesTip subsystemTip)
      (fun _ => Moved repo) (Moved repo) := by
  have hsame : ∀ s, s = repo → Moved repo s := fun s hs => Or.inl (by rw [hs])
  unfold handoffOnto
  refine Meets.bind (Meets.get (Q := fun r s => r = repo ∧ s = repo) fun s hs => ⟨hs, hs⟩) fun r => ?_
  by_cases hexists : r.branchExists mainlineBranch = true
  · rw [if_pos hexists]
    refine Meets.bind ((requiredMainline_meets fun s hs => hsame s hs.2)) fun tip => ?_
    split_ifs
    · exact Meets.pure fun s hs => hsame s hs.2
    · refine ((mergeSubsystem_meets.weaken fun s hs => ?_).returns fun _ _ h => Or.inr h).raises
        fun _ h => Or.inr h
      obtain ⟨rfl, rfl⟩ := hs
      obtain ⟨old, hold⟩ := Option.isSome_iff_exists.1 hexists
      refine ⟨old, hold, fun old' h => ?_⟩
      rw [hold] at h
      obtain rfl := Option.some.inj h
      exact firstParents_self old
  · rw [if_neg hexists]
    rcases baseBeforeSeriesAcceptance subsystemTip leaves with _ | base
    · exact Meets.pure fun s hs => hsame s hs.2
    · refine Meets.bind (needed_meets fun s hs => hsame s hs.2) fun _ => ?_
      refine Meets.bind (Q := fun _ => Grown repo) (Meets.update fun s hs => ?_) fun _ =>
        (mergeSubsystem_meets.returns fun _ _ h => Or.inr h).raises fun _ h => Or.inr h
      obtain ⟨rfl, rfl⟩ := hs
      refine ⟨base, by simp [Repo.setRef], fun old h => ?_⟩
      rw [Repo.branchExists, h] at hexists
      exact absurd rfl hexists

/-- A handoff leaves mainline where it is, or it found every leaf resolved and no record, and lets mainline grow. -/
def Allowed (py : PyLib) (gate : SeriesGate τ) (seriesBranch slug : String) (repo repo' : Repo τ) : Prop :=
  repo'.refs mainlineBranch = repo.refs mainlineBranch ∨
    AllResolved py gate repo seriesBranch ∧
      (repo.refs mainlineBranch).bind (mainlineRecordCommit (recordSubject slug)) = none ∧ Grown repo repo'

theorem handoffSeriesUnguarded_meets {slug : String} :
    Meets (· = repo) (handoffSeriesUnguarded o py gate seriesBranch slug)
      (fun _ => Allowed py gate seriesBranch slug repo) (Allowed py gate seriesBranch slug repo) := by
  unfold handoffSeriesUnguarded
  refine Meets.bind (Meets.get (Q := fun r s => r = repo ∧ s = repo) fun s hs => ⟨hs, hs⟩) fun r => ?_
  by_cases hr : r = repo
  swap
  · intro s hs
    exact absurd hs.1 hr
  subst hr
  have hsame : ∀ s, r = r ∧ s = r → Allowed py gate seriesBranch slug r s := fun s hs => Or.inl (by rw [hs.2])
  rcases hsnapshot : seriesLeafSnapshot py gate r seriesBranch with raised | ⟨leaves, unresolved⟩
  · exact Meets.throw hsame
  dsimp only
  by_cases hunresolved : unresolved ≠ []
  · rw [if_pos hunresolved]
    exact Meets.pure hsame
  rw [if_neg hunresolved]
  rw [not_not] at hunresolved
  subst hunresolved
  rcases hrecord : (r.refs mainlineBranch).bind (mainlineRecordCommit (recordSubject slug)) with _ | existing
  swap
  · exact Meets.pure hsame
  rcases r.refs seriesBranch with _ | seriesTip
  · exact Meets.pure hsame
  rcases r.refs subsystemBranch with _ | subsystemTip
  · exact Meets.pure hsame
  have hmoved : ∀ s, Moved r s → Allowed py gate seriesBranch slug r s := by
    rintro s (h | h)
    · exact Or.inl h
    · exact Or.inr ⟨snapshot_resolved hsnapshot, hrecord, h⟩
  exact ((handoffOnto_meets.weaken fun s hs => hs.2).returns fun _ => hmoved).raises hmoved

theorem handoffSeries_allowed (py : PyLib) (gate : SeriesGate τ) (o : MainlineOutcomes τ) (series : String)
    (repo : Repo τ) :
    Allowed py gate (patchSeriesBranch series) (patchSeriesId (patchSeriesBranch series)) repo
      (handoffSeries o py gate series repo).2 := by
  have hrun := @handoffSeriesUnguarded_meets τ py gate repo (patchSeriesBranch series) _ o
    (patchSeriesId (patchSeriesBranch series)) repo rfl
  unfold handoffSeries
  dsimp only
  rcases hexec : Stateful.exec (handoffSeriesUnguarded o py gate (patchSeriesBranch series)
    (patchSeriesId (patchSeriesBranch series))) repo with ⟨(detail | detail) | result, repo'⟩ <;> rw [hexec] at hrun
  · exact hrun
  · exact hrun
  · exact hrun

end Handoff

structure HandoffCall (τ : Type) where
  series : String
  before : Repo τ
  after : Repo τ

section Runs

variable {τ : Type} [DecidableEq τ]

def HandoffCall.seriesBranch (call : HandoffCall τ) : String := patchSeriesBranch call.series

def HandoffCall.slug (call : HandoffCall τ) : String := patchSeriesId (patchSeriesBranch call.series)

/-- A handoff recorded its series: mainline has moved to a merge with the message of the record. -/
def HandoffCall.Records (call : HandoffCall τ) : Prop :=
  ∃ commit body, call.after.refs mainlineBranch = some commit ∧
    call.before.refs mainlineBranch ≠ some commit ∧ 2 ≤ commit.parents.length ∧
    commit.message = recordSubject call.slug ++ "\n\n" ++ body

/-- Mainline is where it was, or further along its first parents. -/
def MainlineGrows (repo repo' : Repo τ) : Prop :=
  ∀ old, repo.refs mainlineBranch = some old →
    ∃ tip, repo'.refs mainlineBranch = some tip ∧ old ∈ firstParents tip

def handoffCall (o : MainlineOutcomes τ) (py : PyLib) (gate : SeriesGate τ) (series : String) (repo : Repo τ) :
    HandoffCall τ := ⟨series, repo, (handoffSeries o py gate series repo).2⟩

/-- The handoffs of a run, oldest first. Between them leaves are accepted and branches move in any way, mainline
only by growing. -/
inductive Runs (py : PyLib) (gate : SeriesGate τ) : List (HandoffCall τ) → Repo τ → Prop
  | start (repo : Repo τ) : Runs py gate [] repo
  | elsewhere {calls : List (HandoffCall τ)} {repo repo' : Repo τ} (h : Runs py gate calls repo)
      (hgrows : MainlineGrows repo repo') : Runs py gate calls repo'
  | handoff {calls : List (HandoffCall τ)} {repo : Repo τ} (h : Runs py gate calls repo) (o : MainlineOutcomes τ)
      (series : String) : Runs py gate (calls ++ [handoffCall o py gate series repo])
        (handoffCall o py gate series repo).after

/-- Mainline has a record of every series that was recorded. -/
def Recorded (calls : List (HandoffCall τ)) (repo : Repo τ) : Prop :=
  ∀ call ∈ calls, call.Records → IsSlug call.slug →
    ∃ tip, repo.refs mainlineBranch = some tip ∧ ∃ c ∈ firstParents tip, IsRecord (recordSubject call.slug) c

omit [DecidableEq τ] in
theorem Recorded.grows {calls : List (HandoffCall τ)} {repo repo' : Repo τ} (h : Recorded calls repo)
    (hgrows : MainlineGrows repo repo') : Recorded calls repo' := by
  intro call hcall hrecords hslug
  obtain ⟨tip, htip, c, hc, hrecord⟩ := h call hcall hrecords hslug
  obtain ⟨tip', htip', hin⟩ := hgrows tip htip
  exact ⟨tip', htip', c, firstParents_trans hc hin, hrecord⟩

variable {py : PyLib} {gate : SeriesGate τ} {o : MainlineOutcomes τ}

omit [DecidableEq τ] in
theorem Allowed.grows {seriesBranch slug : String} {repo repo' : Repo τ}
    (h : Allowed py gate seriesBranch slug repo repo') : MainlineGrows repo repo' := by
  intro old hold
  rcases h with hsame | ⟨-, -, tip, htip, hgrown⟩
  · exact ⟨old, by rw [hsame, hold], firstParents_self old⟩
  · exact ⟨tip, htip, hgrown old hold⟩

omit [DecidableEq τ] in
theorem Allowed.same {seriesBranch slug : String} {repo repo' : Repo τ} {tip c : Commit τ}
    (h : Allowed py gate seriesBranch slug repo repo') (htip : repo.refs mainlineBranch = some tip)
    (hc : c ∈ firstParents tip) (hrecord : IsRecord (recordSubject slug) c) :
    repo'.refs mainlineBranch = repo.refs mainlineBranch := by
  rcases h with hsame | ⟨-, hnone, -⟩
  · exact hsame
  · rw [htip, Option.bind_some, mainlineRecordCommit_eq_none] at hnone
    exact absurd hrecord (hnone c hc)

theorem Runs.recorded {calls : List (HandoffCall τ)} {repo : Repo τ} (h : Runs py gate calls repo) :
    Recorded calls repo := by
  induction h with
  | start repo => exact fun call hcall => absurd hcall not_mem_nil
  | elsewhere _ hgrows ih => exact ih.grows hgrows
  | @handoff calls repo _ o series ih =>
    have hallowed := handoffSeries_allowed py gate o series repo
    intro call hcall hrecords hslug
    rw [mem_append, mem_singleton] at hcall
    rcases hcall with hcall | rfl
    · exact ih.grows hallowed.grows call hcall hrecords hslug
    · obtain ⟨commit, body, hafter, -, hparents, hmessage⟩ := hrecords
      exact ⟨commit, hafter, commit, firstParents_self commit, isRecord_of_message hslug hparents hmessage⟩

theorem Runs.once {calls : List (HandoffCall τ)} {repo : Repo τ} (h : Runs py gate calls repo) :
    calls.Pairwise fun a b => IsSlug a.slug → a.slug = b.slug → ¬ (a.Records ∧ b.Records) := by
  induction h with
  | start repo => exact List.Pairwise.nil
  | elsewhere _ _ ih => exact ih
  | @handoff calls repo hruns o series ih =>
    rw [pairwise_append]
    refine ⟨ih, pairwise_singleton _ _, fun a ha b hb hslug hsame hboth => ?_⟩
    rw [mem_singleton] at hb
    subst hb
    obtain ⟨tip, htip, c, hc, hrecord⟩ := hruns.recorded a ha hboth.1 hslug
    obtain ⟨commit, body, hafter, hbefore, -⟩ := hboth.2
    rw [hsame] at hrecord
    exact hbefore (((handoffSeries_allowed py gate o series repo).same htip hc hrecord).symm.trans hafter)

theorem Runs.resolved {calls : List (HandoffCall τ)} {repo : Repo τ} (h : Runs py gate calls repo) :
    ∀ call ∈ calls, call.after.refs mainlineBranch = call.before.refs mainlineBranch ∨
      AllResolved py gate call.before call.seriesBranch := by
  induction h with
  | start repo => exact fun call hcall => absurd hcall not_mem_nil
  | elsewhere _ _ ih => exact ih
  | @handoff calls repo _ o series ih =>
    intro call hcall
    rw [mem_append, mem_singleton] at hcall
    rcases hcall with hcall | rfl
    · exact ih call hcall
    · rcases handoffSeries_allowed py gate o series repo with hsame | ⟨hresolved, -⟩
      · exact Or.inl hsame
      · exact Or.inr hresolved

/-- The base of mainline is exact; and in every run of handoffs, among acceptances in any order, at most one handoff of
a series records it, and mainline moves only in handoffs that found every leaf resolved. -/
theorem base_and_handoffs_exact {calls : List (HandoffCall τ)} {repo : Repo τ} (h : Runs py gate calls repo) :
    (∀ (subsystemTip : Commit τ) (leaves : List (LeafRow τ)), BaseExact subsystemTip leaves) ∧
      calls.Pairwise (fun a b => IsSlug a.slug → a.slug = b.slug → ¬ (a.Records ∧ b.Records)) ∧
      ∀ call ∈ calls, call.after.refs mainlineBranch = call.before.refs mainlineBranch ∨
        AllResolved py gate call.before call.seriesBranch :=
  ⟨base_exact, h.once, h.resolved⟩

end Runs

def leafMerged : Repo Unit where
  refs branch :=
    if branch = "ai-org/patch-series/s" then some (.mk () [] "root")
    else if branch = "ai-org/contrib/leaf" then some (.mk () [] "leaf")
    else if branch = subsystemBranch then some sampleOlder
    else none
  head := ""
  originHead := none

def sampleGate : SeriesGate Unit where
  network _ _ := .ok
    { nodes := [("root", .obj [("node_path", .str "."),
          ("children", .arr [.obj [("node_path", .str "sub/leaf")]])]),
        ("leaf", .obj [("node_path", .str "sub/leaf"), ("contrib_branch", .str "ai-org/contrib/leaf")])]
      errors := [] }
  resolved _ _ := .ok true

def sampleMainline : MainlineOutcomes Unit := ⟨fun _ => true, fun _ => "", (), fun _ => "oid"⟩

def sampleFirst : HandoffCall Unit := handoffCall sampleMainline asciiLib sampleGate "s" leafMerged

def sampleSecond : HandoffCall Unit := handoffCall sampleMainline asciiLib sampleGate "s" sampleFirst.after

theorem sampleFirst_records : sampleFirst.Records :=
  ⟨.mk () [.mk () [] "root", sampleOlder] (recordSubject "s" ++ "\n\n" ++
      handoffBody sampleMainline [sampleLeaf] (.mk () [] "root") sampleOlder),
    handoffBody sampleMainline [sampleLeaf] (.mk () [] "root") sampleOlder, rfl, by decide, by decide, rfl⟩

theorem handed_off_once : ¬ sampleSecond.Records := by
  intro hsecond
  have hfirst : Runs asciiLib sampleGate ([] ++ [sampleFirst]) sampleFirst.after :=
    (Runs.start leafMerged).handoff sampleMainline "s"
  have hruns : Runs asciiLib sampleGate ([] ++ [sampleFirst] ++ [sampleSecond]) sampleSecond.after :=
    hfirst.handoff sampleMainline "s"
  have honce := (base_and_handoffs_exact hruns).2.1
  rw [nil_append, singleton_append] at honce
  rw [pairwise_pair] at honce
  have hslug : sampleFirst.slug = "s" := by
    simp only [sampleFirst, HandoffCall.slug, handoffCall]
    decide
  have hsame : sampleFirst.slug = sampleSecond.slug := by
    simp only [sampleSecond, sampleFirst, HandoffCall.slug, handoffCall]
  refine honce ?_ hsame ⟨sampleFirst_records, hsecond⟩
  rw [hslug]
  exact ⟨by simp, [], 's', by simp, by decide⟩

end Subsystem

end AiOrg
