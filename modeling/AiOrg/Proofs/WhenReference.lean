import AiOrg.Gate.WhenReference

/-!
# The evaluator is the reference evaluation

Scanning the operands of a flattened chain is going down the chain, and a stripped chain of `not`s negates as often as
it says. So the evaluator raises and warns as the reference does, on every tree and in every state.
-/

namespace AiOrg

open List

section Scan

variable {α : Type} {stop : Bool} {f : α → WarnM Bool}

theorem scanWarned_singleton (x : α) : scanWarned stop f [x] = f x := by
  have hpure : (fun b => if b = stop then pure stop else scanWarned stop f []) = (pure : Bool → WarnM Bool) := by
    funext b
    cases b <;> cases stop <;> rfl
  rw [scanWarned, hpure, bind_pure]

theorem scanWarned_append (xs ys : List α) : scanWarned stop f (xs ++ ys) = (do
    let b ← scanWarned stop f xs
    if b = stop then pure stop else scanWarned stop f ys) := by
  induction xs with
  | nil =>
    have h : ¬ (!stop) = stop := by cases stop <;> simp
    rw [nil_append, scanWarned, pure_bind, if_neg h]
  | cons x xs ih =>
    rw [cons_append, scanWarned, scanWarned, bind_assoc, ih]
    refine bind_congr fun b => ?_
    by_cases hb : b = stop
    · rw [if_pos hb, if_pos hb, pure_bind, if_pos rfl]
    · rw [if_neg hb, if_neg hb]

theorem scanWarned_congr {β : Type} {g : β → WarnM Bool} : ∀ {xs : List α} {ys : List β}, xs.map f = ys.map g →
    scanWarned stop f xs = scanWarned stop g ys
  | [], [], _ => rfl
  | x :: xs, y :: ys, h => by
    simp only [map_cons, List.cons.injEq] at h
    rw [scanWarned, scanWarned, h.1, scanWarned_congr h.2]
  | [], _ :: _, h => by simp at h
  | _ :: _, [], h => by simp at h

end Scan

section Eval

variable (py : PyLib) (state : CheckState)

def truthPlain (e : WhenAst) : WarnM Bool := do
  let v ← evalPlain py state e
  pure v.truthy

theorem truthPlain_logic (op : LogicOp) (l r : WhenAst) : truthPlain py state (.logic op l r) = (do
    let b ← truthPlain py state l
    if b = op.stop then pure op.stop else truthPlain py state r) := by
  rw [truthPlain, evalPlain, truthPlain, bind_assoc, bind_assoc]
  refine bind_congr fun v => ?_
  rw [pure_bind]
  by_cases hv : v.truthy = op.stop
  · rw [if_pos hv, if_pos hv, pure_bind]
    rfl
  · rw [if_neg hv, if_neg hv, truthPlain, bind_assoc]
    refine bind_congr fun w => ?_
    rw [pure_bind]
    rfl

theorem scanWarned_logicalOperands (op : LogicOp) (e : WhenAst) :
    scanWarned op.stop (truthPlain py state) (logicalOperands op e) = truthPlain py state e := by
  induction e with
  | logic op' l r ihl ihr =>
    rw [logicalOperands]
    split_ifs with h
    · subst h
      rw [scanWarned_append, ihl, ihr, truthPlain_logic]
    · exact scanWarned_singleton _
  | _ => exact scanWarned_singleton _

theorem truthPlain_stripNots (e : WhenAst) : truthPlain py state e = (do
    let b ← truthPlain py state (stripNots e).2
    pure ((stripNots e).1 ^^ b)) := by
  induction e with
  | not e ih =>
    have hnot : truthPlain py state (.not e) = (do
        let b ← truthPlain py state e
        pure !b) := by
      simp only [truthPlain, evalPlain, bind_assoc, pure_bind]
      rfl
    rw [hnot, ih, bind_assoc, stripNots]
    refine bind_congr fun b => ?_
    rw [pure_bind, Bool.not_xor]
  | _ =>
    simp only [stripNots, Bool.false_xor]
    exact (bind_pure _).symm

theorem evalPlain_not (e : WhenAst) : evalPlain py state (.not e) = (do
    let b ← truthPlain py state e
    pure (.bool !b)) := by
  simp only [truthPlain, evalPlain, bind_assoc, pure_bind]

theorem evalPlain_logic (op : LogicOp) (l r : WhenAst) : evalPlain py state (.logic op l r) = (do
    let b ← truthPlain py state (.logic op l r)
    pure (.bool b)) := by
  rw [truthPlain_logic, truthPlain, evalPlain, bind_assoc, bind_assoc]
  refine bind_congr fun v => ?_
  rw [pure_bind]
  by_cases hv : v.truthy = op.stop
  · rw [if_pos hv, if_pos hv, pure_bind]
  · rw [if_neg hv, if_neg hv, truthPlain, bind_assoc]
    refine bind_congr fun w => ?_
    rw [pure_bind]

theorem evalWarned_eq : ∀ e : WhenAst, evalWarned py state e = evalPlain py state e
  | .literal v => by rw [evalWarned, evalPlain]
  | .ident name => by rw [evalWarned, evalPlain]
  | .not e => by
    have hlt := sizeOf_stripNots e
    rw [evalWarned, evalWarned_eq (stripNots e).2, evalPlain_not, truthPlain_stripNots, truthPlain, bind_assoc, bind_assoc]
    refine bind_congr fun v => ?_
    rw [pure_bind, pure_bind]
    cases (stripNots e).1 <;> simp
  | .logic op l r => by
    have hscan : scanWarned op.stop
        (fun x : {x // x ∈ logicalOperands op (.logic op l r)} => do
          let v ← evalWarned py state x.1
          pure v.truthy) (logicalOperands op (.logic op l r)).attach =
        scanWarned op.stop (truthPlain py state) (logicalOperands op (.logic op l r)) := by
      refine scanWarned_congr ?_
      conv_rhs => rw [← attach_map_subtype_val (logicalOperands op (.logic op l r))]
      rw [map_map]
      refine map_congr_left fun x _ => ?_
      rw [evalWarned_eq x.1]
      rfl
    rw [evalWarned, hscan, scanWarned_logicalOperands, evalPlain_logic]
  | .cmp op l r => by rw [evalWarned, evalPlain, evalWarned_eq l, evalWarned_eq r]
termination_by e => sizeOf e
decreasing_by
  · simp only [WhenAst.not.sizeOf_spec]
    omega
  · have := sizeOf_operand x.2
    simpa only [WhenAst.logic.sizeOf_spec] using this
  · simp only [WhenAst.cmp.sizeOf_spec]
    omega
  · simp only [WhenAst.cmp.sizeOf_spec]
    omega

end Eval

section Run

variable {α β : Type} {m : WarnM α} {g : α → WarnM β} {before after : List Mismatch}

theorem bind_run_ok {v : α} (h : m before = (.ok v, after)) : (m >>= g) before = g v after := by
  show (ExceptT.bind m g) before = _
  simp [ExceptT.bind, ExceptT.mk, bind, StateT.bind, h, ExceptT.bindCont]

theorem bind_run_error {e : GateError} (h : m before = (.error e, after)) : (m >>= g) before = (.error e, after) := by
  show (ExceptT.bind m g) before = _
  simp [ExceptT.bind, ExceptT.mk, bind, StateT.bind, h, ExceptT.bindCont, pure, StateT.pure]

end Run

/-- The same result, and the warnings of an evaluation that returns behind the ones that were there. -/
def Agrees {α : Type} (x : Except GateError (α × List Mismatch)) (m : WarnM α) : Prop :=
  ∀ warnings, ∃ w, m warnings = (x.map Prod.fst, warnings ++ w) ∧ ∀ r, x = .ok r → w = r.2

namespace Agrees

variable {α β : Type}

theorem pure (v : α) : Agrees (.ok (v, [])) (Pure.pure v) := by
  intro warnings
  refine ⟨[], by rw [append_nil]; rfl, ?_⟩
  rintro r h
  rw [← Except.ok.inj h]

theorem bind {x : Except GateError (α × List Mismatch)} {m : WarnM α} (h : Agrees x m)
    {f : α → Except GateError (β × List Mismatch)} {g : α → WarnM β} (hf : ∀ v, Agrees (f v) (g v)) :
    Agrees (x.bind fun r => (f r.1).map fun s => (s.1, r.2 ++ s.2)) (m >>= g) := by
  intro warnings
  obtain ⟨w, hm, hw⟩ := h warnings
  rcases x with e | r
  · exact ⟨w, bind_run_error hm, fun _ h => nomatch h⟩
  · obtain ⟨w', hg, hw'⟩ := hf r.1 (warnings ++ w)
    refine ⟨w ++ w', ?_, ?_⟩
    · rw [bind_run_ok hm, hg, append_assoc]
      simp only [Except.bind]
      rcases f r.1 with e | s <;> rfl
    · intro s hs
      simp only [Except.bind] at hs
      rcases hf : f r.1 with e | s' <;> rw [hf] at hs
      · cases hs
      · rw [← Except.ok.inj hs, hw r rfl, hw' s' hf]

theorem map {x : Except GateError (α × List Mismatch)} {m : WarnM α} (h : Agrees x m) (k : α → β) :
    Agrees (x >>= fun r => Pure.pure (k r.1, r.2)) (m >>= fun v => Pure.pure (k v)) := by
  have heq : (x >>= fun r => Pure.pure (k r.1, r.2)) =
      x.bind fun r => (Except.ok (k r.1, [])).map fun s => (s.1, r.2 ++ s.2) := by
    rcases x with e | ⟨v, w⟩
    · rfl
    · simp [Bind.bind, Except.bind, Pure.pure, Except.pure, Except.map]
  rw [heq]
  exact h.bind fun v => .pure (k v)

theorem scan (stop : Bool) {f : α → Except GateError (Bool × List Mismatch)} {g : α → WarnM Bool}
    (h : ∀ x, Agrees (f x) (g x)) (xs : List α) : Agrees (scanOperands stop f xs) (scanWarned stop g xs) := by
  induction xs with
  | nil => exact pure _
  | cons x xs ih =>
    have hscan := (h x).bind (f := fun b => if b = stop then .ok (stop, []) else scanOperands stop f xs)
      (g := fun b => if b = stop then Pure.pure stop else scanWarned stop g xs) fun b => by
        split_ifs
        · exact pure stop
        · exact ih
    have heq : scanOperands stop f (x :: xs) = (f x).bind fun r =>
        (if r.1 = stop then Except.ok (stop, []) else scanOperands stop f xs).map fun s => (s.1, r.2 ++ s.2) := by
      rw [scanOperands]
      rcases f x with e | ⟨b, w⟩
      · rfl
      · by_cases hb : b = stop
        · simp [Bind.bind, Except.bind, Pure.pure, Except.pure, Except.map, hb]
        · simp only [Bind.bind, Except.bind, Pure.pure, Except.pure, hb, ↓reduceIte]
          rcases scanOperands stop f xs with e | ⟨b', w'⟩ <;> rfl
    rw [heq, scanWarned]
    exact hscan

end Agrees

section Eval

variable (py : PyLib) (state : CheckState)

theorem compareWarned_agrees (op : CmpOp) (left right : WhenAst) (l r : Json) :
    Agrees (if l.kind ≠ r.kind then .ok (.bool false, [(op, left, right)])
      else match py.compare op l r with
        | some b => .ok (.bool b, [])
        | none => .error .typeError) (compareWarned py op left right l r) := by
  intro warnings
  rw [compareWarned]
  by_cases hk : l.kind ≠ r.kind
  · rw [if_pos hk, if_pos hk]
    exact ⟨[(op, left, right)], rfl, fun _ h => by rw [← Except.ok.inj h]⟩
  · rw [if_neg hk, if_neg hk]
    rcases py.compare op l r with _ | b
    · exact ⟨[], by rw [append_nil]; rfl, fun _ h => nomatch h⟩
    · exact Agrees.pure _ warnings

theorem evalWhenAst_agrees : ∀ e : WhenAst, Agrees (evalWhenAst py state e) (evalWarned py state e)
  | .literal v => by
    rw [evalWhenAst, evalWarned]
    exact .pure _
  | .ident name => by
    rw [evalWhenAst, evalWarned]
    exact .pure _
  | .not e => by
    have hlt := sizeOf_stripNots e
    rw [evalWhenAst, evalWarned]
    exact (evalWhenAst_agrees (stripNots e).2).map fun v =>
      Json.bool (if (!(stripNots e).1) = true then !v.truthy else v.truthy)
  | .logic op l r => by
    rw [evalWhenAst, evalWarned]
    have hscan := Agrees.scan op.stop
      (fun x : {x // x ∈ logicalOperands op (.logic op l r)} =>
        (evalWhenAst_agrees x.1).map Json.truthy) (logicalOperands op (.logic op l r)).attach
    exact hscan.map Json.bool
  | .cmp op l r => by
    rw [evalWhenAst, evalWarned]
    have hbind := (evalWhenAst_agrees l).bind fun v => (evalWhenAst_agrees r).bind fun w =>
      compareWarned_agrees py op l r v w
    refine Eq.mp (congrArg (fun x => Agrees x _) ?_) hbind
    rcases evalWhenAst py state l with e | ⟨v, w⟩
    · rfl
    · rcases evalWhenAst py state r with e | ⟨v', w'⟩
      · rfl
      · by_cases hk : v.kind = v'.kind
        · rcases hc : py.compare op v v' with _ | b <;>
            simp [Bind.bind, Except.bind, Pure.pure, Except.pure, Except.map, hk, hc]
        · simp [Bind.bind, Except.bind, Pure.pure, Except.pure, Except.map, hk]
termination_by e => sizeOf e
decreasing_by
  · simp only [WhenAst.not.sizeOf_spec]
    omega
  · have := sizeOf_operand x.2
    simpa only [WhenAst.logic.sizeOf_spec] using this
  · simp only [WhenAst.cmp.sizeOf_spec]
    omega
  · simp only [WhenAst.cmp.sizeOf_spec]
    omega

/-- A predicate is evaluated by the plain recursion on its tree: it returns that value with one warning for each
mismatch, and raises what the recursion raises. -/
theorem evaluateWhen_plain (expression node : String) (edgeIndex : Option ℕ) :
    evaluateWhen py state expression node edgeIndex =
      if pyStrip expression = "" then .ok (true, [])
      else (parseWhen py (pyStrip expression)).bind fun ast =>
        match evalPlain py state ast [] with
        | (.ok v, warnings) => .ok (v.truthy, warnings.map fun _ => ⟨node, pyStrip expression, edgeIndex⟩)
        | (.error e, _) => .error e := by
  unfold evaluateWhen
  by_cases hempty : pyStrip expression = ""
  · simp [hempty, pure, Except.pure]
  simp only [hempty, if_false, bind]
  rcases parseWhen py (pyStrip expression) with e | ast
  · rfl
  · obtain ⟨w, hrun, hw⟩ := evalWhenAst_agrees py state ast []
    simp only [Except.bind, ← evalWarned_eq, hrun]
    rcases heval : evalWhenAst py state ast with e | ⟨v, warnings⟩
    · rfl
    · obtain rfl := hw _ heval
      rfl

end Eval

end AiOrg
