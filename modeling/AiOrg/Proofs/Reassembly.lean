import AiOrg.Approach.Components
import AiOrg.Python.Base64

/-!
# Taking a tree apart

The formation links the question, the goals, the constraints and the prior art to the problem after it assembled the
nodes, and the assembly from components does not. So no tree of the formation is put together again with all of its
links (`links_not_restored`).
-/

namespace AiOrg

open List

namespace Approach

open Reform (childFields childItems)

def SameLinks (tree again : Fields) : Prop :=
  ∀ link, link ∈ childItems tree "cross_links" ↔ link ∈ childItems again "cross_links"

def questionLink : Json :=
  .obj [("from", .str "question:approach"), ("to", .str "problem"), ("type", .str "derived_from")]

section Added

variable {links : List Json} {source target : Json} {type : String}

theorem mem_add_cross_link : .obj [("from", source), ("to", target), ("type", .str type)] ∈
    _add_cross_link links source target type := by
  rw [_add_cross_link]
  split_ifs with h
  · exact h
  · exact mem_append_right _ mem_cons_self

theorem mem_add_of_mem {link : Json} (h : link ∈ links) : link ∈ _add_cross_link links source target type := by
  rw [_add_cross_link]
  split_ifs
  · exact h
  · exact mem_append_left _ h

theorem not_mem_add (h : questionLink ∉ links)
    (hne : source = .str "question:approach" → target = .str "problem" → type ≠ "derived_from") :
    questionLink ∉ _add_cross_link links source target type := by
  rw [_add_cross_link]
  split_ifs
  · exact h
  · intro hmem
    rcases mem_append.1 hmem with hmem | hmem
    · exact h hmem
    · have heq := mem_singleton.1 hmem
      simp only [questionLink, Json.obj.injEq, List.cons.injEq, Prod.mk.injEq, true_and, and_true] at heq
      exact hne heq.1.symm heq.2.1.symm (Json.str.inj heq.2.2).symm

theorem not_mem_add_of_type (h : questionLink ∉ links) (htype : type ≠ "derived_from") :
    questionLink ∉ _add_cross_link links source target type :=
  not_mem_add h fun _ _ => htype

theorem not_mem_add_of_target {text : String} (h : questionLink ∉ links) (htarget : text ≠ "problem") :
    questionLink ∉ _add_cross_link links source (.str text) type :=
  not_mem_add h fun _ heq => absurd (Json.str.inj heq) htarget

theorem prefixed_ne {front text other : String} (h : ¬ front.toList <+: other.toList) : front ++ text ≠ other := by
  rintro rfl
  refine h ?_
  rw [String.toList_append]
  exact prefix_append _ _

end Added

/-! ### Links of the assembly -/

section Assembly

variable {py : PyLib} {links : List Json}

theorem not_mem_riskLinks {target : String} {risks : List Fields} (h : questionLink ∉ links) :
    ∀ result ∈ riskLinks links target risks, questionLink ∉ result := by
  induction risks generalizing links with
  | nil =>
    rintro result hresult
    rw [← Option.some.inj hresult]
    exact h
  | cons risk risks ih =>
    intro result hresult
    rw [riskLinks, Option.mem_def, Option.bind_eq_bind, Option.bind_eq_some_iff] at hresult
    obtain ⟨id, -, hresult⟩ := hresult
    exact ih (not_mem_add_of_type h (by decide)) result hresult

theorem not_mem_argumentLinks {id : String} {arguments : List Json} (h : questionLink ∉ links) :
    questionLink ∉ argumentLinks links id arguments := by
  induction arguments generalizing links with
  | nil => exact h
  | cons argument arguments ih =>
    refine ih (not_mem_add_of_type h ?_)
    split_ifs <;> decide

theorem not_mem_drawLinks {targets : List String} {id : String} {draws : List Json} (h : questionLink ∉ links) :
    questionLink ∉ drawLinks py targets links id draws := by
  induction draws generalizing links with
  | nil => exact h
  | cons draw draws ih =>
    cases draw with
    | str text =>
      rw [drawLinks]
      refine ih ?_
      split_ifs
      · exact not_mem_add_of_target h (prefixed_ne (by decide))
      · exact h
    | _ => exact ih h

theorem not_mem_candidateLinks {selected risks candidate : Fields} {targets : List String} {id : String}
    (h : questionLink ∉ links) :
    ∀ result ∈ candidateLinks py selected risks targets links candidate id, questionLink ∉ result := by
  refine not_mem_riskLinks (not_mem_drawLinks (not_mem_argumentLinks (not_mem_add ?_ fun hsource => ?_)))
  · exact not_mem_add_of_type h (by decide)
  · exact absurd (Json.str.inj hsource) (prefixed_ne (by decide))

theorem not_mem_candidates {evaluations selected risks : Fields} {targets : List String} {candidates : List Fields}
    (h : questionLink ∉ links) :
    ∀ result ∈ _candidate_tree_nodes py evaluations selected risks targets links candidates, questionLink ∉ result.2 := by
  induction candidates generalizing links with
  | nil =>
    intro result hresult
    rw [← Option.some.inj hresult]
    exact h
  | cons candidate candidates ih =>
    intro result hresult
    rw [_candidate_tree_nodes] at hresult
    simp only [Option.mem_def, Option.bind_eq_bind, Option.bind_eq_some_iff] at hresult
    obtain ⟨id, -, added, hadded, rest, hrest, hresult⟩ := hresult
    rw [← Option.some.inj hresult]
    exact ih (not_mem_candidateLinks h added hadded) rest hrest

theorem not_mem_aspectLinks {implementationId : String} {domain : Fields} (h : questionLink ∉ links)
    (hid : implementationId ≠ "problem") : questionLink ∉ aspectLinks links implementationId domain := by
  rw [aspectLinks]
  induction mappings (childItems domain "aspects") generalizing links with
  | nil => exact h
  | cons aspect aspects ih =>
    rw [foldl_cons]
    refine ih ?_
    split
    · exact not_mem_add_of_target h hid
    · exact h

theorem not_mem_rejectionLinks {decisionId : String} {rejected : List Fields} (h : questionLink ∉ links) :
    ∀ result ∈ rejectionLinks links decisionId rejected, questionLink ∉ result := by
  induction rejected generalizing links with
  | nil =>
    intro result hresult
    rw [← Option.some.inj hresult]
    exact h
  | cons rejection rejected ih =>
    intro result hresult
    rw [rejectionLinks, Option.mem_def, Option.bind_eq_bind, Option.bind_eq_some_iff] at hresult
    obtain ⟨id, -, hresult⟩ := hresult
    exact ih (not_mem_add_of_type h (by decide)) result hresult

theorem not_mem_decision {selected implementation domainSpecification patchPlan risks : Fields}
    (h : questionLink ∉ links) :
    ∀ result ∈ _decision_tree_node py selected implementation domainSpecification patchPlan risks links,
      questionLink ∉ result.2 := by
  intro result hresult
  rw [_decision_tree_node] at hresult
  simp only [Option.mem_def, Option.bind_eq_bind, Option.bind_eq_some_iff] at hresult
  obtain ⟨selectedId, -, rejections, hrejections, decisions, hdecisions, implementations, himplementations, plans, hplans,
    hresult⟩ := hresult
  rw [← Option.some.inj hresult]
  refine not_mem_riskLinks (not_mem_riskLinks (not_mem_riskLinks (not_mem_rejectionLinks ?_ _ hrejections) _ hdecisions) _
    himplementations) _ hplans
  refine not_mem_add_of_type (not_mem_aspectLinks ?_ (prefixed_ne (by decide))) (by decide)
  refine not_mem_add_of_type (not_mem_add_of_type (not_mem_add_of_target h (by decide)) (by decide)) (by decide)

theorem not_mem_withNodes {problem : Fields} {outputs : Outputs} :
    ∀ result ∈ withNodes py problem outputs, questionLink ∉ result.2 := by
  intro result hresult
  rw [withNodes] at hresult
  simp only [Option.mem_def, Option.bind_eq_bind, Option.bind_eq_some_iff] at hresult
  obtain ⟨question, hquestion, hresult⟩ := hresult
  rw [← Option.some.inj hresult]
  rw [_question_tree] at hquestion
  simp only [Option.bind_eq_bind, Option.bind_eq_some_iff] at hquestion
  obtain ⟨nodes, hnodes, decision, hdecision, hquestion⟩ := hquestion
  rw [← Option.some.inj hquestion]
  exact not_mem_decision (not_mem_candidates not_mem_nil nodes hnodes) decision hdecision

end Assembly

theorem mem_problemLinks {links nodes : List Json} {type : String} {link : Json} (h : link ∈ links) :
    link ∈ problemLinks links nodes type := by
  rw [problemLinks]
  induction mappings nodes generalizing links with
  | nil => exact h
  | cons node nodes ih =>
    rw [foldl_cons]
    exact ih (mem_add_of_mem h)

/-- **The links of a formed tree are not restored**: the tree that is assembled from its components has other links. -/
theorem links_not_restored {py : PyLib} {normalized tree : Fields} {outputs : Outputs}
    (h : _assemble_technical_approach py normalized outputs = some tree) :
    ¬ ∃ again, _assemble_from_components py (_approach_components tree) = some again ∧ SameLinks tree again := by
  rintro ⟨again, hagain, hsame⟩
  have hformed : questionLink ∈ childItems tree "cross_links" := by
    rw [_assemble_technical_approach] at h
    simp only [Option.bind_eq_bind, Option.bind_eq_some_iff] at h
    obtain ⟨nodes, -, h⟩ := h
    rw [← Option.some.inj h]
    exact mem_problemLinks (mem_problemLinks (mem_problemLinks mem_add_cross_link))
  have hmissing : questionLink ∉ childItems again "cross_links" := by
    rw [_assemble_from_components] at hagain
    simp only [Option.bind_eq_bind, Option.bind_eq_some_iff] at hagain
    obtain ⟨nodes, hnodes, hagain⟩ := hagain
    rw [← Option.some.inj hagain]
    exact not_mem_withNodes nodes hnodes
  exact hmissing ((hsame questionLink).1 hformed)

/-- A goal of the normalized problem. -/
def readerGoal : Json :=
  .obj [("actor", .str "reader"), ("capability", .obj [("action", .str "open a report"), ("preconditions", .arr [])]),
    ("verifiable_outcome", .obj [("expected_state", .str "the report is shown"), ("evidence", .str "the page")]),
    ("verification", .obj [("method", .str "manual_check"), ("check", .str "look at the page")]),
    ("ux_trace", .str "reports"), ("requires_deliverable", .bool false)]

/-- The steps of a formation with one candidate. -/
def readerOutputs : Outputs where
  constraints := [("hard_constraints", .arr [.obj [("statement", .str "works offline")]]), ("soft_preferences", .arr [])]
  priorArt := [("patterns", .arr [.obj [("name", .str "static pages")]])]
  candidates := [("candidates", .arr [.obj [("id", .str "candidate:pages"), ("name", .str "Pages"),
    ("draws_on", .arr [.str "static pages"])]])]
  evaluations := [("evaluations", .arr [.obj [("candidate_id", .str "candidate:pages"), ("scores", .obj [])]])]
  selected := [("selected_candidate_id", .str "candidate:pages"), ("arguments", .arr []),
    ("rationale", .obj [("because", .arr [.str "simple"]), ("under_constraints", .arr []),
      ("accepting_tradeoffs", .arr [])]), ("stack_axes", .obj []), ("rejected", .arr [])]
  implementation := [("strategy", .str "render at build time")]
  domainSpecification := [("aspects", .arr [])]
  patchPlan := [("first_proof_moment", .obj []), ("follow_ups", .arr [])]
  risks := [("risks", .arr [])]
  provided := none

def readerTree : Fields :=
  (_assemble_technical_approach asciiLib [("problem", .str "reports"), ("success_criteria", .arr [readerGoal])]
    readerOutputs).getD []

theorem readerTree_formed : _assemble_technical_approach asciiLib
    [("problem", .str "reports"), ("success_criteria", .arr [readerGoal])] readerOutputs = some readerTree := by
  have hsome : (_assemble_technical_approach asciiLib
      [("problem", .str "reports"), ("success_criteria", .arr [readerGoal])] readerOutputs).isSome = true := by
    decide +kernel
  obtain ⟨tree, htree⟩ := Option.isSome_iff_exists.1 hsome
  rw [readerTree, htree, Option.getD_some]

/-- The tree goes back together without the links of the question, the goal, the constraint and the pattern. -/
theorem readerTree_loses_links : ∃ again, _assemble_from_components asciiLib (_approach_components readerTree) = some again ∧
    (childItems readerTree "cross_links").length = (childItems again "cross_links").length + 4 ∧ ¬ SameLinks readerTree again := by
  have hrun : ((_assemble_from_components asciiLib (_approach_components readerTree)).map fun again =>
      decide ((childItems readerTree "cross_links").length = (childItems again "cross_links").length + 4 ∧
        questionLink ∈ childItems readerTree "cross_links" ∧ questionLink ∉ childItems again "cross_links")) =
      some true := by decide +kernel
  rw [Option.map_eq_some_iff] at hrun
  obtain ⟨again, hagain, hlinks⟩ := hrun
  obtain ⟨hlength, hmem, hnot⟩ := of_decide_eq_true hlinks
  exact ⟨again, hagain, hlength, fun hsame => hnot ((hsame questionLink).1 hmem)⟩

/-- The small tree is no exception. -/
theorem links_not_restored_reader :
    ¬ ∃ again, _assemble_from_components asciiLib (_approach_components readerTree) = some again ∧
      SameLinks readerTree again :=
  links_not_restored readerTree_formed

end Approach

end AiOrg
