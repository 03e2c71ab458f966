import Mathlib

/-!
# Python values

The values Python's `json` module builds, and the operations of the language on them that do not
depend on the program at hand: lookup in a `dict`, truth, the type test behind
`type(a) is type(b)`, comparison.  The parts of the standard library that are pure text
conversions are fields of `PyLib`, so that what is proved holds of any of them.
-/

namespace AiOrg

/-- A value as `json.loads` builds it; a float is kept as the text `repr` gives it. -/
inductive Json where
  | null
  | bool (b : Bool)
  | int (n : Int)
  | float (repr : String)
  | str (s : String)
  | arr (items : List Json)
  | obj (fields : List (String × Json))
  deriving Repr, Inhabited

/-- A Python `dict` with string keys, in insertion order. -/
abbrev Fields := List (String × Json)

namespace Json

mutual

/-- Equality of values is decidable. -/
def decEq : (a b : Json) → Decidable (a = b)
  | .null, b => by cases b <;> first | exact isTrue rfl | exact isFalse nofun
  | .bool x, b => by
    cases b with
    | bool y => exact decidable_of_iff (x = y) (by simp)
    | _ => exact isFalse nofun
  | .int x, b => by
    cases b with
    | int y => exact decidable_of_iff (x = y) (by simp)
    | _ => exact isFalse nofun
  | .float x, b => by
    cases b with
    | float y => exact decidable_of_iff (x = y) (by simp)
    | _ => exact isFalse nofun
  | .str x, b => by
    cases b with
    | str y => exact decidable_of_iff (x = y) (by simp)
    | _ => exact isFalse nofun
  | .arr xs, b => by
    cases b with
    | arr ys => exact @decidable_of_iff _ (xs = ys) (by simp) (decEqItems xs ys)
    | _ => exact isFalse nofun
  | .obj xs, b => by
    cases b with
    | obj ys => exact @decidable_of_iff _ (xs = ys) (by simp) (decEqFields xs ys)
    | _ => exact isFalse nofun

def decEqItems : (xs ys : List Json) → Decidable (xs = ys)
  | [], [] => isTrue rfl
  | [], _ :: _ => isFalse nofun
  | _ :: _, [] => isFalse nofun
  | x :: xs, y :: ys =>
    match decEq x y, decEqItems xs ys with
    | isTrue h, isTrue h' => isTrue (by rw [h, h'])
    | isFalse h, _ => isFalse (fun e => h (List.cons.inj e).1)
    | _, isFalse h => isFalse (fun e => h (List.cons.inj e).2)

/-- `decEq` on the entries of a mapping. -/
def decEqFields : (xs ys : List (String × Json)) → Decidable (xs = ys)
  | [], [] => isTrue rfl
  | [], _ :: _ => isFalse nofun
  | _ :: _, [] => isFalse nofun
  | (k, x) :: xs, (l, y) :: ys =>
    match decEq x y, decEqFields xs ys with
    | isTrue h, isTrue h' =>
      if hk : k = l then isTrue (by rw [h, h', hk])
      else isFalse (fun e => hk (congrArg Prod.fst (List.cons.inj e).1))
    | isFalse h, _ => isFalse (fun e => h (congrArg Prod.snd (List.cons.inj e).1))
    | _, isFalse h => isFalse (fun e => h (List.cons.inj e).2)

end

instance : DecidableEq Json := decEq

/-- `bool(value)`. -/
def truthy : Json → Bool
  | .null => false
  | .bool b => b
  | .int n => n != 0
  | .float r => !(r == "0.0" || r == "-0.0")
  | .str s => s != ""
  | .arr items => !items.isEmpty
  | .obj fields => !fields.isEmpty

/-- The class `type(value)`. -/
inductive Kind where
  | none | bool | int | float | str | list | dict
  deriving DecidableEq, Repr

/-- `type(value)`. -/
def kind : Json → Kind
  | .null => .none
  | .bool _ => .bool
  | .int _ => .int
  | .float _ => .float
  | .str _ => .str
  | .arr _ => .list
  | .obj _ => .dict

/-- Lists and dicts cannot be put in a set: looking one up there raises `TypeError`. -/
def hashable : Json → Bool
  | .arr _ => false
  | .obj _ => false
  | _ => true

/-- What `for x in value` goes through, `none` where it raises `TypeError`. -/
def iter : Json → Option (List Json)
  | .arr items => some items
  | .obj fields => some (fields.map fun f => .str f.1)
  | .str s => some (s.toList.map fun c => .str (String.ofList [c]))
  | _ => none

end Json

namespace Fields

/-- `m.get(key)`, with `None` for a missing key. -/
def get (m : Fields) (key : String) : Json := (m.lookup key).getD .null

/-- `m.get(key, default)`. -/
def getD (m : Fields) (key : String) (default : Json) : Json := (m.lookup key).getD default

/-- `key in m`. -/
def contains (m : Fields) (key : String) : Bool := (m.lookup key).isSome

/-- `m[key] = value`. -/
def set : Fields → String → Json → Fields
  | [], key, value => [(key, value)]
  | (k, v) :: m, key, value => if k = key then (k, value) :: m else (k, v) :: set m key value

theorem lookup_cons_eq (k l : String) (v : Json) (m : Fields) :
    List.lookup k ((l, v) :: m) = if k = l then some v else m.lookup k := by
  rw [List.lookup_cons]
  by_cases h : k = l
  · simp [h]
  · rw [beq_eq_false_iff_ne.2 h, if_neg h]

theorem lookup_set (m : Fields) (key k : String) (value : Json) :
    (m.set key value).lookup k = if k = key then some value else m.lookup k := by
  induction m with
  | nil => simp only [set, lookup_cons_eq, List.lookup_nil]
  | cons e m ih =>
    obtain ⟨l, v⟩ := e
    simp only [set]
    by_cases hl : l = key
    · simp only [hl, ↓reduceIte, lookup_cons_eq]
      split_ifs <;> rfl
    · simp only [hl, ↓reduceIte, lookup_cons_eq, ih]
      by_cases hk : k = l
      · simp [hk, hl]
      · simp [hk]

@[simp] theorem get_set_self (m : Fields) (key : String) (value : Json) :
    (m.set key value).get key = value := by
  simp [get, lookup_set]

theorem get_set_of_ne (m : Fields) {key k : String} (value : Json) (h : k ≠ key) :
    (m.set key value).get k = m.get k := by
  simp [get, lookup_set, h]

end Fields

/-- The comparison operators. -/
inductive CmpOp where
  | eq | ne | lt | le | gt | ge
  deriving DecidableEq, Repr

/-- The comparison of two values of one ordered type. -/
def CmpOp.holds {α : Type*} [LT α] [DecidableLT α] [DecidableEq α] (op : CmpOp) (a b : α) : Bool :=
  match op with
  | .eq => a = b
  | .ne => a ≠ b
  | .lt => a < b
  | .le => a < b ∨ a = b
  | .gt => b < a
  | .ge => b < a ∨ a = b

/-- The text conversions of the standard library a program calls on, kept as parameters. -/
structure PyLib where
  /-- `str(value)` of a list or a dict. -/
  strOther : Json → String
  /-- `repr(text)`. -/
  repr : String → String
  /-- `repr(value)` of what is not a string. -/
  reprOther : Json → String
  /-- `text.lower()`. -/
  lower : String → String
  /-- `ast.literal_eval` of one quoted literal, `none` where it raises. -/
  literalEval : String → Option String
  /-- Comparison of two floats, lists, dicts or `None`s, `none` where it raises. -/
  compareOther : CmpOp → Json → Json → Option Bool
  /-- `json.dumps(value, sort_keys=True, ensure_ascii=True)`. -/
  dumps : Json → String
  /-- `repr(float(numeral))`. -/
  floatRepr : String → String
  /-- The text of the `JSONDecodeError` that `json.loads` raises for a text. -/
  decodeErrorText : String → String
  /-- `hashlib.sha256(data).hexdigest()`. -/
  sha256 : List UInt8 → String

namespace PyLib

variable (py : PyLib)

/-- `str(value)`. -/
def str : Json → String
  | .null => "None"
  | .bool b => if b then "True" else "False"
  | .int n => toString n
  | .float r => r
  | .str s => s
  | v => py.strOther v

/-- `repr(value)`. -/
def reprJson : Json → String
  | .str s => py.repr s
  | v => py.reprOther v

/-- `str(value or default)`. -/
def strOr (v : Json) (default : String) : String := if v.truthy then py.str v else default

/-- `a op b` for two values of one type, `none` where Python raises `TypeError`. -/
def compare (op : CmpOp) : Json → Json → Option Bool
  | .bool a, .bool b => some (op.holds a.toNat b.toNat)
  | .int a, .int b => some (op.holds a b)
  | .str a, .str b => some (op.holds a b)
  | a, b => py.compareOther op a b

@[simp] theorem str_str (s : String) : py.str (.str s) = s := rfl

theorem strOr_str (s : String) : py.strOr (.str s) "" = s := by
  unfold strOr
  by_cases h : s = "" <;> simp [Json.truthy, h]

end PyLib

end AiOrg
