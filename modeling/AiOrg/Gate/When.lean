import AiOrg.Python.Text
import AiOrg.Python.Value

/-!
# The `when` language

Predicates that switch an edge of the patchwork network on and off: the tokens, the grammar, the
evaluator, and the static check of a predicate against the declared patchwork checks.
-/

namespace AiOrg

/-- What an evaluation of the gate can raise. -/
inductive GateError where
  | whenSyntax (message : String)
  | typeError
  | outOfFuel
  deriving DecidableEq, Repr

def maxWhenLength : ℕ := 4096
def maxWhenNesting : ℕ := 128
def maxWhenTerms : ℕ := 256
def maxWhenIntegerDigits : ℕ := 18

/-- The types a patchwork check may have; the registry parser admits `counter` and `text`, and
`flag` is the type of a boolean a caller of the static check may declare. -/
inductive CheckType where
  | counter | text | flag
  deriving DecidableEq, Repr

def CheckType.name : CheckType → String
  | .counter => "counter"
  | .text => "text"
  | .flag => "flag"

def CheckType.default : CheckType → Json
  | .counter => .int 0
  | .text => .str ""
  | .flag => .bool false

/-- The registry of declared checks. -/
abbrev Registry := List (String × CheckType)

/-- Projected values of the patchwork checks. -/
abbrev CheckState := String → Option Json

/-- `state.update(values)`. -/
def CheckState.update (state values : CheckState) : CheckState :=
  fun name => (values name).or (state name)

def stateDefaults (registry : Registry) : CheckState :=
  fun name => (registry.lookup name).map CheckType.default

inductive WhenLiteral where
  | int (n : ℕ)
  | text (s : String)
  deriving DecidableEq, Repr

def WhenLiteral.value : WhenLiteral → Json
  | .int n => .int n
  | .text s => .str s

/-- The tokens of the language; the source's `eof` is the end of the list. -/
inductive Token where
  | literal (v : WhenLiteral)
  | ident (name : String)
  | cmp (op : CmpOp)
  | lparen | rparen | and | or | not
  deriving DecidableEq, Repr

/-- What `repr` is applied to in a message about a token. -/
def Token.text (py : PyLib) : Token → String
  | .literal (.int n) => toString n
  | .literal (.text s) => py.repr s
  | .ident name => py.repr name
  | .cmp .eq => py.repr "=="
  | .cmp .ne => py.repr "!="
  | .cmp .lt => py.repr "<"
  | .cmp .le => py.repr "<="
  | .cmp .gt => py.repr ">"
  | .cmp .ge => py.repr ">="
  | .lparen => py.repr "("
  | .rparen => py.repr ")"
  | .and => py.repr "and"
  | .or => py.repr "or"
  | .not => py.repr "not"

section Lexer

variable (py : PyLib)

/-- The token pattern's string literal after its opening quote: the characters up to and with the
closing quote, and what follows. -/
def scanString (quote : Char) : List Char → Option (List Char × List Char)
  | [] => none
  | c :: cs =>
    if c = quote then some ([c], cs)
    else if c = '\\' then
      match cs with
      | [] => none
      | d :: ds =>
        if d = '\n' then none
        else (scanString quote ds).map fun (body, rest) => (c :: d :: body, rest)
    else (scanString quote cs).map fun (body, rest) => (c :: body, rest)

def isIdentStart (c : Char) : Bool := c.isAlpha || c == '_'

def isIdentRest (c : Char) : Bool :=
  c.isAlphanum || c == '_' || c == '.' || c == ':' || c == '-'

def invalidToken (c : Char) : GateError :=
  .whenSyntax ("invalid token " ++ py.repr (String.ofList [c]))

def identToken (name : String) : Token :=
  if name = "and" then .and else if name = "or" then .or else if name = "not" then .not
  else .ident name

/-- One match of `_TOKEN_RE` against a nonempty text. When only white space is left, the pattern
backtracks and its last alternative takes the last blank that is not a line feed. -/
def nextToken (text : List Char) : Except GateError (Token × List Char) :=
  match text.dropWhile Text.isSpace with
  | [] =>
    match text.reverse.find? (· ≠ '\n') with
    | some c => .error (invalidToken py c)
    | none => .error (.whenSyntax "invalid token")
  | c :: cs =>
    if Text.isDecimal c then
      let digits := c :: cs.takeWhile Text.isDecimal
      if digits.length > maxWhenIntegerDigits then
        .error (.whenSyntax ("integer literal exceeds " ++ toString maxWhenIntegerDigits
          ++ " digits"))
      else .ok (.literal (.int (Text.intOf digits)), cs.dropWhile Text.isDecimal)
    else if c = '\x22' ∨ c = '\x27' then
      match scanString c cs with
      | none => .error (invalidToken py c)
      | some (body, rest) =>
        match py.literalEval (String.ofList (c :: body)) with
        | none => .error (.whenSyntax "invalid string literal")
        | some s => .ok (.literal (.text s), rest)
    else match c, cs with
      | '=', '=' :: rest => .ok (.cmp .eq, rest)
      | '!', '=' :: rest => .ok (.cmp .ne, rest)
      | '<', '=' :: rest => .ok (.cmp .le, rest)
      | '>', '=' :: rest => .ok (.cmp .ge, rest)
      | '<', rest => .ok (.cmp .lt, rest)
      | '>', rest => .ok (.cmp .gt, rest)
      | '(', rest => .ok (.lparen, rest)
      | ')', rest => .ok (.rparen, rest)
      | c, rest =>
        if isIdentStart c then
          .ok (identToken (String.ofList (c :: rest.takeWhile isIdentRest)),
            rest.dropWhile isIdentRest)
        else .error (invalidToken py c)

def tokenDepth (depth : ℕ) : Token → Except GateError ℕ
  | .lparen =>
    if depth + 1 > maxWhenNesting then .error (.whenSyntax "expression nesting is too deep")
    else .ok (depth + 1)
  | .rparen =>
    if depth = 0 then .error (.whenSyntax "unbalanced parentheses") else .ok (depth - 1)
  | _ => .ok depth

/-- The loop of `_WhenParser._tokens`; every match takes a character, so the length of the text is
fuel enough. -/
def tokensFrom : ℕ → ℕ → List Char → Except GateError (List Token)
  | _, _, [] => .ok []
  | 0, _, _ :: _ => .error .outOfFuel
  | fuel + 1, depth, c :: cs => do
    let (token, rest) ← nextToken py (c :: cs)
    let depth ← tokenDepth depth token
    let tokens ← tokensFrom fuel depth rest
    pure (token :: tokens)

def whenTokens (text : List Char) : Except GateError (List Token) :=
  tokensFrom py text.length 0 text

end Lexer

inductive LogicOp where
  | and | or
  deriving DecidableEq, Repr

/-- The tuples `_WhenParser` builds. -/
inductive WhenAst where
  | logic (op : LogicOp) (left right : WhenAst)
  | not (expr : WhenAst)
  | cmp (op : CmpOp) (left right : WhenAst)
  | ident (name : String)
  | literal (v : WhenLiteral)
  deriving DecidableEq, Repr

structure ParseState where
  tokens : List Token
  termCount : ℕ
  deriving DecidableEq, Repr

abbrev ParseM := StateT ParseState (Except GateError)

def LogicOp.token : LogicOp → Token
  | .and => .and
  | .or => .or

section Parser

variable (py : PyLib)

def peekText : List Token → String
  | [] => py.repr ""
  | t :: _ => t.text py

def accept (token : Token) : ParseM Bool := fun st =>
  match st.tokens with
  | t :: rest => if t = token then .ok (true, { st with tokens := rest }) else .ok (false, st)
  | [] => .ok (false, st)

/-- `while self._accept("not")`. -/
def acceptNots (count : ℕ) : List Token → Except GateError (ℕ × List Token)
  | .not :: rest =>
    if count + 1 > maxWhenNesting then .error (.whenSyntax "not nesting is too deep")
    else acceptNots (count + 1) rest
  | tokens => .ok (count, tokens)

/-- `for _ in range(count): expr = ("not", expr)`. -/
def wrapNots : ℕ → WhenAst → WhenAst
  | 0, expr => expr
  | n + 1, expr => wrapNots n (.not expr)

mutual

/-- `_or` and `_and`: a left-associated chain of the operands one level down. -/
def parseLogic : ℕ → LogicOp → ParseM WhenAst
  | 0, _ => throw .outOfFuel
  | fuel + 1, op => do
    let left ← parseOperand fuel op
    parseLoop fuel op left

/-- `while self._accept(op)`. -/
def parseLoop : ℕ → LogicOp → WhenAst → ParseM WhenAst
  | 0, _, _ => throw .outOfFuel
  | fuel + 1, op, left => do
    if ← accept op.token then
      let right ← parseOperand fuel op
      parseLoop fuel op (.logic op left right)
    else pure left

def parseOperand : ℕ → LogicOp → ParseM WhenAst
  | 0, _ => throw .outOfFuel
  | fuel + 1, .or => parseLogic fuel .and
  | fuel + 1, .and => parseNot fuel

/-- `_not`. -/
def parseNot : ℕ → ParseM WhenAst
  | 0 => throw .outOfFuel
  | fuel + 1 => do
    let st ← get
    let (count, tokens) ← acceptNots 0 st.tokens
    set { st with tokens := tokens }
    let expr ← parseComparison fuel
    let st ← get
    if st.termCount + 1 > maxWhenTerms then
      throw (.whenSyntax ("expression exceeds " ++ toString maxWhenTerms ++ " terms"))
    else do
      set { st with termCount := st.termCount + 1 }
      pure (wrapNots count expr)

def parseComparison : ℕ → ParseM WhenAst
  | 0 => throw .outOfFuel
  | fuel + 1 => do
    let left ← parsePrimary fuel
    let st ← get
    match st.tokens with
    | .cmp op :: rest => do
      set { st with tokens := rest }
      let right ← parsePrimary fuel
      pure (.cmp op left right)
    | _ => pure left

def parsePrimary : ℕ → ParseM WhenAst
  | 0 => throw .outOfFuel
  | fuel + 1 => do
    let st ← get
    match st.tokens with
    | .lparen :: rest => do
      set { st with tokens := rest }
      let expr ← parseLogic fuel .or
      if ← accept .rparen then pure expr
      else throw (.whenSyntax ("expected " ++ py.repr ")"))
    | .ident name :: rest => do
      set { st with tokens := rest }
      pure (.ident name)
    | .literal v :: rest => do
      set { st with tokens := rest }
      pure (.literal v)
    | tokens => throw (.whenSyntax ("expected expression, got " ++ peekText py tokens))

end

/-- Fuel for a token list: every call on the way to the next token takes one unit. -/
def parseFuel (tokens : List Token) : ℕ := 8 * (tokens.length + 1)

/-- `_WhenParser(text).parse()`. -/
def parseWhen (text : String) : Except GateError WhenAst := do
  if text.toList.length > maxWhenLength then
    .error (.whenSyntax ("expression exceeds " ++ toString maxWhenLength ++ " characters"))
  else
    let tokens ← whenTokens py text.toList
    let (expr, st) ← parseLogic py (parseFuel tokens) .or ⟨tokens, 0⟩
    match st.tokens with
    | [] => pure expr
    | tokens => .error (.whenSyntax ("unexpected token " ++ peekText py tokens))

end Parser

def logicalOperands (op : LogicOp) : WhenAst → List WhenAst
  | .logic op' left right =>
    if op' = op then logicalOperands op left ++ logicalOperands op right
    else [.logic op' left right]
  | expr => [expr]

/-- The chain of `not`s at the top of an expression: whether it negates, and what is under it. -/
def stripNots : WhenAst → Bool × WhenAst
  | .not expr => ((!(stripNots expr).1), (stripNots expr).2)
  | expr => (false, expr)

theorem sizeOf_logicalOperands {op : LogicOp} {x : WhenAst} :
    ∀ {e : WhenAst}, x ∈ logicalOperands op e → sizeOf x ≤ sizeOf e
  | .logic op' l r, h => by
    simp only [logicalOperands] at h
    split_ifs at h
    · rcases List.mem_append.1 h with h | h
      · have := sizeOf_logicalOperands h
        simp only [WhenAst.logic.sizeOf_spec]
        omega
      · have := sizeOf_logicalOperands h
        simp only [WhenAst.logic.sizeOf_spec]
        omega
    · rw [List.mem_singleton.1 h]
  | .not _, h => by rw [List.mem_singleton.1 h]
  | .cmp _ _ _, h => by rw [List.mem_singleton.1 h]
  | .ident _, h => by rw [List.mem_singleton.1 h]
  | .literal _, h => by rw [List.mem_singleton.1 h]

theorem sizeOf_operand {op : LogicOp} {l r x : WhenAst}
    (h : x ∈ logicalOperands op (.logic op l r)) : sizeOf x < 1 + sizeOf op + sizeOf l + sizeOf r := by
  simp only [logicalOperands, ↓reduceIte] at h
  rcases List.mem_append.1 h with h | h <;> have := sizeOf_logicalOperands h <;> omega

theorem sizeOf_stripNots : ∀ e : WhenAst, sizeOf (stripNots e).2 ≤ sizeOf e
  | .not e => by
    have := sizeOf_stripNots e
    simp only [stripNots, WhenAst.not.sizeOf_spec]
    omega
  | .logic _ _ _ | .cmp _ _ _ | .ident _ | .literal _ => le_rfl

/-- A comparison that met operands of different types, the content of a `when_type_warning`. -/
abbrev Mismatch := CmpOp × WhenAst × WhenAst

/-- The loop over the operands of a chain: it returns at the first one whose truth is `stop`. -/
def scanOperands {α : Type*} (stop : Bool) (f : α → Except GateError (Bool × List Mismatch)) :
    List α → Except GateError (Bool × List Mismatch)
  | [] => .ok (!stop, [])
  | x :: xs => do
    let (b, w) ← f x
    if b = stop then pure (stop, w)
    else do
      let (b', w') ← scanOperands stop f xs
      pure (b', w ++ w')

/-- The truth at which a chain of `op` stops. -/
def LogicOp.stop : LogicOp → Bool
  | .and => false
  | .or => true

section Eval

variable (py : PyLib) (state : CheckState)

/-- `_eval_when_ast`: the value, and the comparisons it warned about in the order met. -/
def evalWhenAst : WhenAst → Except GateError (Json × List Mismatch)
  | .literal v => .ok (v.value, [])
  | .ident name => .ok ((state name).getD (.int 0), [])
  | .not expr => do
    let (v, w) ← evalWhenAst (stripNots expr).2
    let negate := !(stripNots expr).1
    pure (.bool (if negate then !v.truthy else v.truthy), w)
  | .logic op left right => do
    let (b, w) ← scanOperands op.stop
      (fun x => do
        let (v, w) ← evalWhenAst x.1
        pure (v.truthy, w))
      (logicalOperands op (.logic op left right)).attach
    pure (.bool b, w)
  | .cmp op left right => do
    let (l, lw) ← evalWhenAst left
    let (r, rw) ← evalWhenAst right
    if l.kind ≠ r.kind then pure (.bool false, lw ++ rw ++ [(op, left, right)])
    else match py.compare op l r with
      | some b => pure (.bool b, lw ++ rw)
      | none => .error .typeError
termination_by e => sizeOf e
decreasing_by
  · have := sizeOf_stripNots expr
    simp only [WhenAst.not.sizeOf_spec]
    omega
  · have := sizeOf_operand x.2
    simpa only [WhenAst.logic.sizeOf_spec] using this
  · simp only [WhenAst.cmp.sizeOf_spec]
    omega
  · simp only [WhenAst.cmp.sizeOf_spec]
    omega

/-- A `when_type_warning` record. -/
structure WhenWarning where
  node : String
  predicate : String
  edgeIndex : Option ℕ
  deriving DecidableEq, Repr

def evaluateWhen (expression : String) (node : String) (edgeIndex : Option ℕ) :
    Except GateError (Bool × List WhenWarning) := do
  let text := pyStrip expression
  if text = "" then pure (true, [])
  else do
    let ast ← parseWhen py text
    let (v, w) ← evalWhenAst py state ast
    pure (v.truthy, w.map fun _ => ⟨node, text, edgeIndex⟩)

end Eval

end AiOrg

/-!
## What a predicate means

The value of a predicate by recursion on its tree, and the comparisons its evaluation reaches.  The
evaluator flattens chains of one operator and strips chains of `not`; here nothing is flattened,
and a connective decides by its left operand whether the right one is reached.
-/

namespace AiOrg

def Json.IsScalar : Json → Prop
  | .bool _ => True
  | .int _ => True
  | .str _ => True
  | _ => False

def CheckType.kind : CheckType → Json.Kind
  | .counter => .int
  | .text => .str
  | .flag => .bool

/-- Every projected value is a scalar. -/
def CheckState.Scalar (state : CheckState) : Prop :=
  ∀ name v, state name = some v → v.IsScalar

/-- Every declared check has a value of its declared type. -/
def CheckState.WellTyped (state : CheckState) (registry : Registry) : Prop :=
  ∀ name type, registry.lookup name = some type →
    ∃ v, state name = some v ∧ v.kind = type.kind

namespace WhenAst

def ScalarOn (state : CheckState) : WhenAst → Prop
  | .literal _ => True
  | .ident name => ∀ v, state name = some v → v.IsScalar
  | .not e => ScalarOn state e
  | .logic _ l r => ScalarOn state l ∧ ScalarOn state r
  | .cmp _ l r => ScalarOn state l ∧ ScalarOn state r

section Meaning

variable (py : PyLib) (state : CheckState)

/-- The value of a predicate. -/
def denote : WhenAst → Json
  | .literal v => v.value
  | .ident name => (state name).getD (.int 0)
  | .not e => .bool (!(denote e).truthy)
  | .logic .and l r => .bool ((denote l).truthy && (denote r).truthy)
  | .logic .or l r => .bool ((denote l).truthy || (denote r).truthy)
  | .cmp op l r =>
    .bool ((denote l).kind = (denote r).kind ∧ py.compare op (denote l) (denote r) = some true)

/-- The comparisons an evaluation reaches, in the order it meets them. -/
def reached : WhenAst → List Mismatch
  | .literal _ => []
  | .ident _ => []
  | .not e => reached e
  | .logic op l r =>
    reached l ++ if (denote py state l).truthy = op.stop then [] else reached r
  | .cmp op l r => reached l ++ reached r ++ [(op, l, r)]

def mismatched (c : Mismatch) : Bool :=
  (denote py state c.2.1).kind ≠ (denote py state c.2.2).kind

end Meaning

/-- An operand that is itself a connective or a comparison. -/
def isCompound : WhenAst → Bool
  | .ident _ => false
  | .literal _ => false
  | _ => true

end WhenAst

end AiOrg
