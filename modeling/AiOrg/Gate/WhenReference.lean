import AiOrg.Gate.When

/-!
# Grammar and reference evaluation of the `when` language

The grammar the parser is for, over tokens that are read one by one: `or := and ('or' and)*`,
`and := not ('and' not)*`, `not := 'not'* cmp`, `cmp := prim [op prim]`,
`prim := ident | literal | '(' or ')'`. The evaluation it is compared with goes down a tree from left to right and
stops at the operand that decides. What an evaluation has warned about stays when it raises, so both evaluators are
here with the list that `_eval_when_ast` appends to.
-/

namespace AiOrg

section Lexer

variable (py : PyLib)

/-- The digits a text starts with after white space. -/
def leadingDigits (text : List Char) : List Char := (text.dropWhile Text.isSpace).takeWhile Text.isDecimal

/-- A match of the token pattern, with integer literals of any length. -/
def matchToken (text : List Char) : Option (Token × List Char) :=
  if leadingDigits text ≠ [] then
    some (.literal (.int (Text.intOf (leadingDigits text))),
      (text.dropWhile Text.isSpace).dropWhile Text.isDecimal)
  else (nextToken py text).toOption

inductive Lexes : List Char → List Token → Prop
  | nil : Lexes [] []
  | cons {text rest : List Char} {token : Token} {tokens : List Token} (hne : text ≠ [])
      (hmatch : matchToken py text = some (token, rest))
      (hdigits : (leadingDigits text).length ≤ maxWhenIntegerDigits) (hrest : Lexes rest tokens) :
      Lexes text (token :: tokens)

end Lexer

def openParens (tokens : List Token) : ℤ := tokens.count .lparen - tokens.count .rparen

inductive Level where
  | chain (op : LogicOp)
  | not | cmp | prim
  deriving DecidableEq

/-- What the chains of an operator are made of. -/
def LogicOp.operand : LogicOp → Level
  | .or => .chain .and
  | .and => .not

/-- The token sequences of the grammar, with the tree of each. -/
inductive Derives : Level → List Token → WhenAst → Prop
  | one {op : LogicOp} {t : List Token} {e : WhenAst} (h : Derives op.operand t e) : Derives (.chain op) t e
  | more {op : LogicOp} {t t' : List Token} {e e' : WhenAst} (h : Derives (.chain op) t e)
      (h' : Derives op.operand t' e') : Derives (.chain op) (t ++ op.token :: t') (.logic op e e')
  | nots (n : ℕ) (hn : n ≤ maxWhenNesting) {t : List Token} {e : WhenAst} (h : Derives .cmp t e) :
      Derives .not (List.replicate n .not ++ t) (wrapNots n e)
  | single {t : List Token} {e : WhenAst} (h : Derives .prim t e) : Derives .cmp t e
  | compare (op : CmpOp) {t t' : List Token} {e e' : WhenAst} (h : Derives .prim t e) (h' : Derives .prim t' e') :
      Derives .cmp (t ++ .cmp op :: t') (.cmp op e e')
  | ident (name : String) : Derives .prim [.ident name] (.ident name)
  | literal (v : WhenLiteral) : Derives .prim [.literal v] (.literal v)
  | paren {t : List Token} {e : WhenAst} (h : Derives (.chain .or) t e) :
      Derives .prim (.lparen :: (t ++ [.rparen])) e

/-- The terms of an expression: one, and one more for each connective and each parenthesis. -/
def terms (tokens : List Token) : ℕ :=
  1 + (tokens.count .and + tokens.count .or + tokens.count .lparen)

/-- A predicate within the limits. -/
structure Accepts (py : PyLib) (text : String) (ast : WhenAst) : Prop where
  length : text.toList.length ≤ maxWhenLength
  derived : ∃ tokens, Lexes py text.toList tokens ∧ Derives (.chain .or) tokens ast ∧
    terms tokens ≤ maxWhenTerms ∧ ∀ front, front <+: tokens → openParens front ≤ maxWhenNesting

/-- An evaluation that may raise, with the list of the warnings. -/
abbrev WarnM := ExceptT GateError (StateM (List Mismatch))

def warn (c : Mismatch) : WarnM Unit := modify (· ++ [c])

section Eval

variable (py : PyLib) (state : CheckState)

/-- The comparison of two values, which warns where they are of different types. -/
def compareWarned (op : CmpOp) (left right : WhenAst) (l r : Json) : WarnM Json :=
  if l.kind ≠ r.kind then do
    warn (op, left, right)
    pure (.bool false)
  else
    match py.compare op l r with
    | some b => pure (.bool b)
    | none => throw .typeError

/-- The loop over the operands of a chain. -/
def scanWarned {α : Type} (stop : Bool) (f : α → WarnM Bool) : List α → WarnM Bool
  | [] => pure !stop
  | x :: xs => do
    let b ← f x
    if b = stop then pure stop else scanWarned stop f xs

def evalWarned : WhenAst → WarnM Json
  | .literal v => pure v.value
  | .ident name => pure ((state name).getD (.int 0))
  | .not expr => do
    let v ← evalWarned (stripNots expr).2
    let negate := !(stripNots expr).1
    pure (.bool (if negate then !v.truthy else v.truthy))
  | .logic op left right => do
    let b ← scanWarned op.stop (fun x => do
      let v ← evalWarned x.1
      pure v.truthy) (logicalOperands op (.logic op left right)).attach
    pure (.bool b)
  | .cmp op left right => do
    let l ← evalWarned left
    let r ← evalWarned right
    compareWarned py op left right l r
termination_by e => sizeOf e
decreasing_by
  · have := sizeOf_stripNots expr
    simp only [WhenAst.not.sizeOf_spec]
    omega
  · have := sizeOf_operand x.2
    simpa only [WhenAst.logic.sizeOf_spec] using this
  · simp only [WhenAst.cmp.sizeOf_spec]
    omega
  · simp only [WhenAst.cmp.sizeOf_spec]
    omega

def evalPlain : WhenAst → WarnM Json
  | .literal v => pure v.value
  | .ident name => pure ((state name).getD (.int 0))
  | .not expr => do
    let v ← evalPlain expr
    pure (.bool !v.truthy)
  | .logic op left right => do
    let l ← evalPlain left
    if l.truthy = op.stop then pure (.bool op.stop)
    else do
      let r ← evalPlain right
      pure (.bool r.truthy)
  | .cmp op left right => do
    let l ← evalPlain left
    let r ← evalPlain right
    compareWarned py op left right l r

end Eval

end AiOrg
