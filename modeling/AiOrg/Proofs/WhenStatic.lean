import AiOrg.Gate.Network
import AiOrg.Proofs.WhenParse
import AiOrg.Python.Base64

/-!
# The evaluator computes the meaning

On a state of scalars the evaluator never raises: it returns the value of the predicate and warns
about the comparisons reached whose operands have values of different classes.
-/

namespace AiOrg

open List

section Scan

variable {α : Type*} {stop : Bool} {f : α → Except GateError (Bool × List Mismatch)}

theorem scanOperands_append (xs ys : List α) :
    scanOperands stop f (xs ++ ys) = (do
      let (b, w) ← scanOperands stop f xs
      if b = stop then pure (stop, w)
      else do
        let (b', w') ← scanOperands stop f ys
        pure (b', w ++ w')) := by
  induction xs with
  | nil =>
    have h : ¬ (!stop) = stop := by cases stop <;> simp
    simp only [nil_append, scanOperands, bind, Except.bind, h, ↓reduceIte, pure, Except.pure]
    cases scanOperands stop f ys <;> rfl
  | cons x xs ih =>
    simp only [cons_append, scanOperands, ih, bind, Except.bind, pure, Except.pure]
    rcases f x with e | ⟨b, w⟩
    · rfl
    · by_cases hb : b = stop
      · simp [hb]
      · simp only [hb, ↓reduceIte]
        rcases scanOperands stop f xs with e | ⟨b', w'⟩
        · rfl
        · by_cases hb' : b' = stop
          · simp [hb']
          · simp only [hb', ↓reduceIte]
            rcases scanOperands stop f ys with e | ⟨b'', w''⟩ <;> simp

theorem scanOperands_congr {β : Type*} {g : β → Except GateError (Bool × List Mismatch)} :
    ∀ {xs : List α} {ys : List β}, xs.map f = ys.map g →
      scanOperands stop f xs = scanOperands stop g ys
  | [], [], _ => rfl
  | x :: xs, y :: ys, h => by
    simp only [map_cons, List.cons.injEq] at h
    simp only [scanOperands, h.1, scanOperands_congr h.2]
  | [], _ :: _, h => by simp at h
  | _ :: _, [], h => by simp at h

end Scan

namespace Json

theorem truthy_bool (b : Bool) : (Json.bool b).truthy = b := rfl

theorem compare_isSome (py : PyLib) (op : CmpOp) {a b : Json} (ha : a.IsScalar)
    (hk : a.kind = b.kind) : ∃ r, py.compare op a b = some r := by
  cases a <;> cases b <;> simp_all [kind, IsScalar, PyLib.compare]

end Json

section Meaning

variable (py : PyLib) {state : CheckState}

theorem scalarOn_of_scalar (hs : state.Scalar) : ∀ e : WhenAst, e.ScalarOn state
  | .literal _ => trivial
  | .ident name => hs name
  | .not e => scalarOn_of_scalar hs e
  | .logic _ l r => ⟨scalarOn_of_scalar hs l, scalarOn_of_scalar hs r⟩
  | .cmp _ l r => ⟨scalarOn_of_scalar hs l, scalarOn_of_scalar hs r⟩

theorem scalarOn_stripNots : ∀ {e : WhenAst}, e.ScalarOn state → (stripNots e).2.ScalarOn state
  | .not e, h => scalarOn_stripNots (e := e) h
  | .literal _, h | .ident _, h | .logic _ _ _, h | .cmp _ _ _, h => h

theorem scalarOn_logicalOperands {op : LogicOp} {x : WhenAst} : ∀ {e : WhenAst},
    e.ScalarOn state → x ∈ logicalOperands op e → x.ScalarOn state
  | .logic op' l r, h, hx => by
    simp only [logicalOperands] at hx
    split_ifs at hx
    · rcases mem_append.1 hx with hx | hx
      · exact scalarOn_logicalOperands h.1 hx
      · exact scalarOn_logicalOperands h.2 hx
    · rwa [mem_singleton.1 hx]
  | .not _, h, hx | .cmp _ _ _, h, hx | .ident _, h, hx | .literal _, h, hx => by
    rwa [mem_singleton.1 hx]

theorem denote_isScalar : ∀ {e : WhenAst}, e.ScalarOn state → (e.denote py state).IsScalar
  | .literal (.int _), _ => trivial
  | .literal (.text _), _ => trivial
  | .ident name, h => by
    simp only [WhenAst.denote]
    rcases hv : state name with _ | v
    · trivial
    · exact h v hv
  | .not _, _ => trivial
  | .logic .and _ _, _ => trivial
  | .logic .or _ _, _ => trivial
  | .cmp _ _ _, _ => trivial

theorem denote_stripNots (e : WhenAst) :
    (e.denote py state).truthy
      = ((stripNots e).1 ^^ ((stripNots e).2.denote py state).truthy) := by
  induction e with
  | not e ih => simp [stripNots, WhenAst.denote, Json.truthy_bool, ih]
  | _ => simp [stripNots]

theorem reached_stripNots (e : WhenAst) :
    (stripNots e).2.reached py state = e.reached py state := by
  induction e with
  | not e ih => simpa [stripNots, WhenAst.reached] using ih
  | _ => rfl

def warned (state : CheckState) (e : WhenAst) : List Mismatch :=
  (e.reached py state).filter (WhenAst.mismatched py state)

theorem denote_logic (op : LogicOp) (l r : WhenAst) :
    (WhenAst.logic op l r).denote py state = .bool (if (l.denote py state).truthy = op.stop
      then op.stop else (r.denote py state).truthy) := by
  cases op <;> cases hl : (l.denote py state).truthy <;> simp [WhenAst.denote, LogicOp.stop, hl]

theorem warned_logic (op : LogicOp) (l r : WhenAst) :
    warned py state (.logic op l r) = if (l.denote py state).truthy = op.stop
      then warned py state l else warned py state l ++ warned py state r := by
  simp only [warned, WhenAst.reached, filter_append]
  split_ifs <;> simp

theorem scanOperands_logicalOperands (op : LogicOp) (e : WhenAst) :
    scanOperands op.stop
        (fun x => .ok ((x.denote py state).truthy, warned py state x)) (logicalOperands op e)
      = .ok ((e.denote py state).truthy, warned py state e) := by
  have single : ∀ x : WhenAst, scanOperands op.stop
      (fun x => .ok ((x.denote py state).truthy, warned py state x)) [x]
      = .ok ((x.denote py state).truthy, warned py state x) := by
    intro x
    simp only [scanOperands, bind, Except.bind, pure, Except.pure]
    split_ifs with h
    · rw [h]
    · have : (!op.stop) = (x.denote py state).truthy := by
        cases hx : (x.denote py state).truthy <;> cases hst : op.stop <;> simp_all
      simp [this]
  induction e with
  | logic op' l r ihl ihr =>
    simp only [logicalOperands]
    split_ifs with h
    · subst h
      rw [scanOperands_append, ihl, ihr]
      simp only [bind, Except.bind, pure, Except.pure, denote_logic, warned_logic,
        Json.truthy_bool]
      split_ifs <;> rfl
    · exact single _
  | _ => exact single _

theorem evalWhenAst_eq : ∀ {e : WhenAst}, e.ScalarOn state →
    evalWhenAst py state e = .ok (e.denote py state, warned py state e)
  | .literal v, _ => by rw [evalWhenAst]; rfl
  | .ident name, _ => by rw [evalWhenAst]; rfl
  | .not e, hs => by
    have hlt := sizeOf_stripNots e
    have hs : e.ScalarOn state := hs
    rw [evalWhenAst, evalWhenAst_eq (scalarOn_stripNots hs)]
    have hw : warned py state (stripNots e).2 = warned py state (.not e) := by
      simp [warned, WhenAst.reached, reached_stripNots]
    simp only [bind, Except.bind, pure, Except.pure, hw, WhenAst.denote, denote_stripNots py e]
    cases (stripNots e).1 <;> simp
  | .logic op l r, hs => by
    have hcongr : scanOperands op.stop
        (fun x : {x // x ∈ logicalOperands op (.logic op l r)} =>
          (evalWhenAst py state x.1).bind fun r => .ok (r.1.truthy, r.2))
        (logicalOperands op (.logic op l r)).attach
        = scanOperands op.stop
          (fun x => .ok ((x.denote py state).truthy, warned py state x))
          (logicalOperands op (.logic op l r)) := by
      refine scanOperands_congr ?_
      conv_rhs => rw [← attach_map_subtype_val (logicalOperands op (.logic op l r))]
      rw [map_map]
      refine map_congr_left fun x _ => ?_
      rw [evalWhenAst_eq (scalarOn_logicalOperands hs x.2)]
      rfl
    rw [evalWhenAst]
    erw [hcongr]
    rw [scanOperands_logicalOperands]
    simp only [bind, Except.bind, pure, Except.pure, denote_logic, Json.truthy_bool]
  | .cmp op l r, hs => by
    rw [evalWhenAst, evalWhenAst_eq hs.1, evalWhenAst_eq hs.2]
    simp only [bind, Except.bind, pure, Except.pure, WhenAst.denote]
    by_cases hk : (l.denote py state).kind = (r.denote py state).kind
    · obtain ⟨b, hb⟩ := Json.compare_isSome py op (denote_isScalar py hs.1) hk
      have hm : WhenAst.mismatched py state (op, l, r) = false := by
        simp [WhenAst.mismatched, hk]
      simp [hk, hb, warned, WhenAst.reached, hm]
    · have hm : WhenAst.mismatched py state (op, l, r) = true := by
        simp [WhenAst.mismatched, hk]
      simp [hk, warned, WhenAst.reached, hm]
termination_by e => sizeOf e
decreasing_by
  · simp only [WhenAst.not.sizeOf_spec]
    omega
  · have := sizeOf_operand x.2
    simpa only [WhenAst.logic.sizeOf_spec] using this
  · simp only [WhenAst.cmp.sizeOf_spec]
    omega
  · simp only [WhenAst.cmp.sizeOf_spec]
    omega

end Meaning

end AiOrg

/-!
## What the static check of a predicate guarantees

The check gives a type to identifiers and literals only.  On a well-typed state an accepted
predicate is therefore evaluated without a warning exactly when no comparison that is reached has a
connective or a comparison on one side and a counter or a text on the other.
-/

namespace AiOrg

open List

variable (py : PyLib)

theorem evaluateWhen_of_parse {state : CheckState} {text : String} {ast : WhenAst}
    (hs : ast.ScalarOn state) (h : parseWhen py text = .ok ast) (node : String) (edgeIndex : Option ℕ) :
    evaluateWhen py state text node edgeIndex = .ok ((ast.denote py state).truthy,
      (warned py state ast).map fun _ => ⟨node, pyStrip text, edgeIndex⟩) := by
  unfold evaluateWhen
  rw [if_neg (strip_ne_empty py h), parseWhen_strip py h]
  simp only [bind, Except.bind, evalWhenAst_eq py hs]
  rfl

theorem evaluateWhen_total {state : CheckState} (hs : state.Scalar) (text node : String)
    (edgeIndex : Option ℕ) :
    (∃ r, evaluateWhen py state text node edgeIndex = .ok r)
      ∨ ∃ message, evaluateWhen py state text node edgeIndex = .error (.whenSyntax message) := by
  unfold evaluateWhen
  by_cases hempty : pyStrip text = ""
  · exact .inl ⟨_, by simp only [hempty, ↓reduceIte]; rfl⟩
  · simp only [hempty, ↓reduceIte, bind, Except.bind]
    rcases hp : parseWhen py (pyStrip text) with e | ast
    · have := parseWhen_error py hp
      cases e with
      | whenSyntax message => exact .inr ⟨message, rfl⟩
      | typeError => cases this
      | outOfFuel => cases this
    · simp only [evalWhenAst_eq py (scalarOn_of_scalar hs ast)]
      exact .inl ⟨_, rfl⟩

section Static

variable {registry : Registry}

/-- A comparison with a connective or a comparison on one side and a typed operand that is not a
flag on the other. -/
def mixesCompound (registry : Registry) (c : Mismatch) : Bool :=
  let typed := fun e : WhenAst =>
    whenOperandType registry e = some .counter ∨ whenOperandType registry e = some .text
  (c.2.1.isCompound ∧ typed c.2.2) ∨ (typed c.2.1 ∧ c.2.2.isCompound)

theorem pair_of_reached {state : CheckState} {c : Mismatch} : ∀ {e : WhenAst},
    c ∈ e.reached py state → (whenOperandType registry c.2.1, whenOperandType registry c.2.2)
      ∈ whenComparisonTypePairs registry e
  | .literal _, h => by cases h
  | .ident _, h => by cases h
  | .not e, h => pair_of_reached (e := e) h
  | .logic op l r, h => by
    simp only [WhenAst.reached, mem_append] at h
    simp only [whenComparisonTypePairs, mem_append]
    rcases h with h | h
    · exact .inr (pair_of_reached h)
    · split_ifs at h
      · cases h
      · exact .inl (pair_of_reached h)
  | .cmp op l r, h => by
    simp only [WhenAst.reached, mem_append, mem_singleton] at h
    simp only [whenComparisonTypePairs, mem_cons, mem_append]
    rcases h with (h | h) | h
    · exact .inr (.inr (pair_of_reached h))
    · exact .inr (.inl (pair_of_reached h))
    · exact .inl (by rw [h])

theorem identifiers_of_reached {state : CheckState} {c : Mismatch} : ∀ {e : WhenAst},
    c ∈ e.reached py state → whenIdentifiers c.2.1 ⊆ whenIdentifiers e
      ∧ whenIdentifiers c.2.2 ⊆ whenIdentifiers e
  | .literal _, h => by cases h
  | .ident _, h => by cases h
  | .not e, h => identifiers_of_reached (e := e) h
  | .logic op l r, h => by
    simp only [WhenAst.reached, mem_append] at h
    rcases h with h | h
    · exact (identifiers_of_reached h).imp
        (subset_append_of_subset_left _) (subset_append_of_subset_left _)
    · split_ifs at h
      · cases h
      · exact (identifiers_of_reached h).imp
          (subset_append_of_subset_right _) (subset_append_of_subset_right _)
  | .cmp op l r, h => by
    simp only [WhenAst.reached, mem_append, mem_singleton] at h
    rcases h with (h | h) | h
    · exact (identifiers_of_reached h).imp
        (subset_append_of_subset_left _) (subset_append_of_subset_left _)
    · exact (identifiers_of_reached h).imp
        (subset_append_of_subset_right _) (subset_append_of_subset_right _)
    · subst h
      exact ⟨subset_append_left _ _, subset_append_right _ _⟩

theorem whenStaticErrors_eq_nil {key text : String} {edge : Edge} {ast : WhenAst}
    (hwhen : edge.when = some text) (hparse : parseWhen py text = .ok ast)
    (h : whenStaticErrors py key edge registry true = []) :
    (∀ name ∈ whenIdentifiers ast, ∃ type, registry.lookup name = some type)
      ∧ ∀ l r, (some l, some r) ∈ whenComparisonTypePairs registry ast → l = r := by
  unfold whenStaticErrors at h
  rw [hwhen] at h
  simp only [strip_ne_empty py hparse, ↓reduceIte, hparse, Bool.not_true, Bool.false_eq_true] at h
  split_ifs at h with hund
  · exact absurd (map_eq_nil_iff.1 h) hund
  · constructor
    · intro name hname
      rw [not_not, filter_eq_nil_iff] at hund
      have := hund name (mem_sorted.2 (mem_dedup.2 hname))
      rw [Option.isNone_iff_eq_none] at this
      exact Option.ne_none_iff_exists'.1 this
    · intro l r hmem
      by_contra hne
      have := filterMap_eq_nil_iff.1 h _ hmem
      simp [hne] at this

theorem Json.isScalar_of_kind {v : Json} {type : CheckType} (h : v.kind = type.kind) :
    v.IsScalar := by
  cases type <;> cases v <;> trivial

theorem scalarOn_of_declared {state : CheckState} (ht : state.WellTyped registry) :
    ∀ {e : WhenAst}, (∀ name ∈ whenIdentifiers e, ∃ type, registry.lookup name = some type) →
      e.ScalarOn state
  | .literal _, _ => trivial
  | .ident name, h => by
    obtain ⟨type, htype⟩ := h name (mem_singleton_self _)
    obtain ⟨v, hv, hk⟩ := ht name type htype
    intro w hw
    rw [hv] at hw
    cases hw
    exact Json.isScalar_of_kind hk
  | .not e, h => scalarOn_of_declared (e := e) ht h
  | .logic _ l r, h =>
    ⟨scalarOn_of_declared ht fun n hn => h n (mem_append_left _ hn),
      scalarOn_of_declared ht fun n hn => h n (mem_append_right _ hn)⟩
  | .cmp _ l r, h =>
    ⟨scalarOn_of_declared ht fun n hn => h n (mem_append_left _ hn),
      scalarOn_of_declared ht fun n hn => h n (mem_append_right _ hn)⟩

theorem kind_of_whenOperandType {state : CheckState} (ht : state.WellTyped registry)
    {e : WhenAst} {type : CheckType} (h : whenOperandType registry e = some type) :
    (e.denote py state).kind = type.kind := by
  cases e with
  | ident name =>
    obtain ⟨v, hv, hk⟩ := ht name type h
    simp [WhenAst.denote, hv, hk]
  | literal v => cases v <;> cases h <;> rfl
  | _ => cases h

theorem kind_of_isCompound {state : CheckState} {e : WhenAst} (h : e.isCompound) :
    (e.denote py state).kind = .bool := by
  cases e with
  | logic op l r => cases op <;> rfl
  | not e => rfl
  | cmp op l r => rfl
  | ident name => cases h
  | literal v => cases h

theorem whenOperandType_of_simple {e : WhenAst} (hc : ¬ e.isCompound)
    (hid : ∀ name ∈ whenIdentifiers e, ∃ type, registry.lookup name = some type) :
    ∃ type, whenOperandType registry e = some type := by
  cases e with
  | ident name => exact hid name (mem_singleton_self _)
  | literal v => cases v <;> exact ⟨_, rfl⟩
  | _ => exact absurd rfl hc

theorem whenOperandType_of_isCompound {e : WhenAst} (hc : e.isCompound) :
    whenOperandType registry e = none := by
  cases e with
  | ident name => cases hc
  | literal v => cases hc
  | _ => rfl

theorem CheckType.kind_eq_bool {type : CheckType} :
    type.kind = .bool ↔ ¬ (type = .counter ∨ type = .text) := by
  cases type <;> simp [CheckType.kind]

theorem mismatched_eq_mixesCompound {state : CheckState} (ht : state.WellTyped registry)
    {c : Mismatch}
    (hl : ∀ name ∈ whenIdentifiers c.2.1, ∃ type, registry.lookup name = some type)
    (hr : ∀ name ∈ whenIdentifiers c.2.2, ∃ type, registry.lookup name = some type)
    (hpair : ∀ l r, whenOperandType registry c.2.1 = some l →
      whenOperandType registry c.2.2 = some r → l = r) :
    WhenAst.mismatched py state c = mixesCompound registry c := by
  obtain ⟨op, l, r⟩ := c
  simp only [WhenAst.mismatched, mixesCompound] at hl hr hpair ⊢
  by_cases hcl : l.isCompound <;> by_cases hcr : r.isCompound
  · simp [kind_of_isCompound py hcl, kind_of_isCompound py hcr,
      whenOperandType_of_isCompound hcl, whenOperandType_of_isCompound hcr]
  · obtain ⟨type, htype⟩ := whenOperandType_of_simple hcr hr
    have hbool : Json.Kind.bool = type.kind ↔ ¬ (type = .counter ∨ type = .text) :=
      eq_comm.trans CheckType.kind_eq_bool
    simp only [kind_of_isCompound py hcl, kind_of_whenOperandType py ht htype, hcl, hcr, htype,
      ne_eq, hbool, whenOperandType_of_isCompound hcl]
    simp
  · obtain ⟨type, htype⟩ := whenOperandType_of_simple hcl hl
    simp only [kind_of_isCompound py hcr, kind_of_whenOperandType py ht htype, hcl, hcr, htype,
      ne_eq, CheckType.kind_eq_bool, whenOperandType_of_isCompound hcr]
    simp
  · obtain ⟨lt, hlt⟩ := whenOperandType_of_simple hcl hl
    obtain ⟨rt, hrt⟩ := whenOperandType_of_simple hcr hr
    have := hpair lt rt hlt hrt
    subst this
    simp [kind_of_whenOperandType py ht hlt, kind_of_whenOperandType py ht hrt, hcl, hcr]

/-- An accepted predicate on a well-typed state is evaluated without a warning exactly
when no comparison that is reached mixes. -/
theorem evaluateWhen_clean_iff (key : String) {text : String} {edge : Edge} {ast : WhenAst}
    (hwhen : edge.when = some text) (hparse : parseWhen py text = .ok ast)
    (hstatic : whenStaticErrors py key edge registry true = [])
    {state : CheckState} (ht : state.WellTyped registry) (node : String)
    (edgeIndex : Option ℕ) :
    (∃ b, evaluateWhen py state text node edgeIndex = .ok (b, []))
      ↔ ∀ c ∈ ast.reached py state, mixesCompound registry c = false := by
  obtain ⟨hdeclared, hpairs⟩ := whenStaticErrors_eq_nil py hwhen hparse hstatic
  have hmixes : ∀ c ∈ ast.reached py state,
      WhenAst.mismatched py state c = mixesCompound registry c := by
    intro c hc
    obtain ⟨hl, hr⟩ := identifiers_of_reached py hc
    refine mismatched_eq_mixesCompound py ht (fun n hn => hdeclared n (hl hn))
      (fun n hn => hdeclared n (hr hn)) fun l r hlt hrt => hpairs l r ?_
    rw [← hlt, ← hrt]
    exact pair_of_reached py hc
  rw [evaluateWhen_of_parse py (scalarOn_of_declared ht hdeclared) hparse]
  simp only [Except.ok.injEq, Prod.mk.injEq, map_eq_nil_iff, exists_eq_left', warned,
    filter_eq_nil_iff]
  exact forall₂_congr fun c hc => by rw [hmixes c hc, Bool.not_eq_true]

end Static

section Examples

def predicateEdge (text : String) : Edge :=
  { type := "depends", toNode := some "b", excluded := none, state := some subsystemMerged,
    orGroup := none, when := some text, reason := none }

def counterState : CheckState := fun name => if name = "a" then some (.int 1) else none

theorem counterState_wellTyped : counterState.WellTyped [("a", .counter)] := by
  intro name type h
  obtain ⟨rfl, rfl⟩ : name = "a" ∧ type = .counter := by
    simp only [lookup_cons, lookup_nil] at h
    split at h
    · rename_i heq
      exact ⟨by simpa using heq, by cases h; rfl⟩
    · cases h
  exact ⟨.int 1, rfl, rfl⟩

theorem sample_predicates :
    (parseWhen asciiLib "a >= 1" = .ok (.cmp .ge (.ident "a") (.literal (.int 1))) ∧
      whenStaticErrors asciiLib "n" (predicateEdge "a >= 1") [("a", .counter)] true = []) ∧
    parseWhen asciiLib "(a == 1) == 1" =
      .ok (.cmp .eq (.cmp .eq (.ident "a") (.literal (.int 1))) (.literal (.int 1))) ∧
    whenStaticErrors asciiLib "n" (predicateEdge "(a == 1) == 1") [("a", .counter)] true = [] := by
  decide +kernel

/-- A counter compared with a number never warns. -/
theorem evaluateWhen_clean_counter :
    (∃ b, evaluateWhen asciiLib counterState "a >= 1" "n" none = .ok (b, []))
      ↔ ∀ c ∈ (WhenAst.cmp .ge (.ident "a") (.literal (.int 1))).reached asciiLib counterState,
          mixesCompound [("a", .counter)] c = false :=
  evaluateWhen_clean_iff asciiLib "n" (show (predicateEdge "a >= 1").when = _ from rfl)
    sample_predicates.1.1 sample_predicates.1.2 counterState_wellTyped "n" none

/-- A comparison compared with a number passes the static check and warns. -/
theorem static_check_misses_compound :
    ∃ ast, parseWhen asciiLib "(a == 1) == 1" = .ok ast
      ∧ whenStaticErrors asciiLib "n" (predicateEdge "(a == 1) == 1") [("a", .counter)] true = []
      ∧ counterState.WellTyped [("a", .counter)]
      ∧ ¬ ∃ b, evaluateWhen asciiLib counterState "(a == 1) == 1" "n" none = .ok (b, []) := by
  obtain ⟨-, hparse, hstatic⟩ := sample_predicates
  refine ⟨_, hparse, hstatic, counterState_wellTyped, ?_⟩
  rintro ⟨b, hb⟩
  have hscalar : (WhenAst.cmp .eq (.cmp .eq (.ident "a") (.literal (.int 1)))
      (.literal (.int 1))).ScalarOn counterState := by
    refine ⟨⟨fun v hv => ?_, trivial⟩, trivial⟩
    cases hv
    trivial
  rw [evaluateWhen_of_parse asciiLib hscalar hparse] at hb
  revert hb
  simp only [Except.ok.injEq, Prod.mk.injEq, map_eq_nil_iff]
  rintro ⟨-, hw⟩
  revert hw
  decide

end Examples

end AiOrg
