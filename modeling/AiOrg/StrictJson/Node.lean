import AiOrg.Order.Least
import AiOrg.Python.Dict

/-!
# Strict JSON values

The values of the strict JSON parser, the errors it reports and the pointers into a document.
-/

namespace AiOrg

namespace StrictJson

inductive Node
  | null
  | bool (value : Bool)
  | number (text : String)
  | string (text : String)
  | array (elements : List Node)
  | object (members : List (String × Node))

inductive ErrorCode
  | invalidUTF8 | invalidJSON | duplicateKey | trailingData | depthLimit
  deriving DecidableEq, Repr

/-- A diagnostic: its class, a pointer and a byte offset. -/
structure Error where
  code : ErrorCode
  path : String
  offset : ℕ
  deriving DecidableEq, Repr

def replaceAll (old : Char) (new : String) (text : List Char) : List Char :=
  text.flatMap fun c => if c = old then new.toList else [c]

/-- A token as it stands in a pointer. -/
def escape (token : String) : List Char :=
  replaceAll '/' "~1" (replaceAll '~' "~0" token.toList)

def joinPointer (base token : String) : String := base ++ "/" ++ String.ofList (escape token)

namespace Node

mutual

/-- The depth of a value, where one without values in it has depth one. -/
def depth : Node → ℕ
  | array elements => 1 + elementsDepth elements
  | object members => 1 + membersDepth members
  | _ => 1

def elementsDepth : List Node → ℕ
  | [] => 0
  | element :: elements => max (depth element) (elementsDepth elements)

def membersDepth : List (String × Node) → ℕ
  | [] => 0
  | (_, value) :: members => max (depth value) (membersDepth members)

end

theorem one_le_depth (n : Node) : 1 ≤ n.depth := by
  cases n <;> simp [depth]

theorem le_membersDepth {name : String} {value : Node} :
    ∀ {members : List (String × Node)}, (name, value) ∈ members →
      value.depth ≤ membersDepth members
  | member :: members, h => by
    rw [membersDepth]
    rcases List.mem_cons.1 h with rfl | h
    · exact le_max_left _ _
    · exact (le_membersDepth h).trans (le_max_right _ _)

theorem le_elementsDepth {value : Node} :
    ∀ {elements : List Node}, value ∈ elements → value.depth ≤ elementsDepth elements
  | element :: elements, h => by
    rw [elementsDepth]
    rcases List.mem_cons.1 h with rfl | h
    · exact le_max_left _ _
    · exact (le_elementsDepth h).trans (le_max_right _ _)

mutual

def decEq : (a b : Node) → Decidable (a = b)
  | null, null => isTrue rfl
  | bool a, bool b => decidable_of_iff (a = b) (by simp)
  | number a, number b => decidable_of_iff (a = b) (by simp)
  | string a, string b => decidable_of_iff (a = b) (by simp)
  | array as, array bs => @decidable_of_iff _ (as = bs) (by simp) (decEqElements as bs)
  | object as, object bs => @decidable_of_iff _ (as = bs) (by simp) (decEqMembers as bs)
  | null, bool _ | null, number _ | null, string _ | null, array _ | null, object _
  | bool _, null | bool _, number _ | bool _, string _ | bool _, array _ | bool _, object _
  | number _, null | number _, bool _ | number _, string _ | number _, array _
  | number _, object _
  | string _, null | string _, bool _ | string _, number _ | string _, array _
  | string _, object _
  | array _, null | array _, bool _ | array _, number _ | array _, string _ | array _, object _
  | object _, null | object _, bool _ | object _, number _ | object _, string _
  | object _, array _ => isFalse (by simp)

def decEqElements : (as bs : List Node) → Decidable (as = bs)
  | [], [] => isTrue rfl
  | [], _ :: _ | _ :: _, [] => isFalse (by simp)
  | a :: as, b :: bs =>
    @decidable_of_iff _ (a = b ∧ as = bs) (by simp) (@instDecidableAnd _ _ (decEq a b)
      (decEqElements as bs))

def decEqMembers : (as bs : List (String × Node)) → Decidable (as = bs)
  | [], [] => isTrue rfl
  | [], _ :: _ | _ :: _, [] => isFalse (by simp)
  | (name, a) :: as, (name', b) :: bs =>
    @decidable_of_iff _ ((name = name' ∧ a = b) ∧ as = bs) (by simp) (@instDecidableAnd _ _
      (@instDecidableAnd _ _ _ (decEq a b)) (decEqMembers as bs))

end

instance : DecidableEq Node := decEq

/-- The members of an object; other values have none. -/
def members : Node → List (String × Node)
  | object members => members
  | _ => []

/-- `Kind == Object`. -/
def isObject : Node → Bool
  | object _ => true
  | _ => false

/-- `Kind == String`. -/
def isString : Node → Bool
  | string _ => true
  | _ => false

def lookup (node : Node) (name : String) : Option Node := node.members.lookup name

def sortedMembers (node : Node) : List (String × Node) :=
  node.members.insertionSort fun a b => a.1 ≤ b.1

theorem mem_sortedMembers {node : Node} {member : String × Node} :
    member ∈ node.sortedMembers ↔ member ∈ node.members := List.mem_insertionSort _

theorem sortedMembers_perm (node : Node) : node.sortedMembers.Perm node.members :=
  List.perm_insertionSort _ _

theorem mem_of_lookup {node value : Node} {name : String} (h : node.lookup name = some value) :
    (name, value) ∈ node.members := AiOrg.mem_of_lookup h

theorem isObject_iff {node : Node} : node.isObject ↔ ∃ members, node = object members := by
  cases node <;> simp [isObject]

theorem depth_lt_of_mem {node value : Node} {name : String} (h : (name, value) ∈ node.members) :
    value.depth < node.depth := by
  cases node with
  | object members =>
    have := @le_membersDepth _ _ members h
    rw [depth]
    omega
  | _ => cases h

theorem depth_lt_of_mem_array {elements : List Node} {value : Node} (h : value ∈ elements) :
    value.depth < (array elements).depth := by
  have := le_elementsDepth h
  rw [depth]
  omega

/-- No object in the value has a name twice. -/
inductive Distinct : Node → Prop
  | null : Distinct null
  | bool {value : Bool} : Distinct (bool value)
  | number {text : String} : Distinct (number text)
  | string {text : String} : Distinct (string text)
  | array {elements : List Node} : (∀ element ∈ elements, Distinct element) →
      Distinct (array elements)
  | object {members : List (String × Node)} : (members.map (·.1)).Nodup →
      (∀ member ∈ members, Distinct member.2) → Distinct (object members)

theorem Distinct.nodup {node : Node} (h : node.Distinct) : (node.members.map (·.1)).Nodup := by
  cases h with
  | object hnodup _ => exact hnodup
  | _ => exact List.nodup_nil

theorem Distinct.of_mem {node value : Node} {name : String} (h : node.Distinct)
    (hmem : (name, value) ∈ node.members) : value.Distinct := by
  cases h with
  | object _ hmembers => exact hmembers _ hmem
  | _ => cases hmem

theorem Distinct.of_lookup {node value : Node} {name : String} (h : node.Distinct)
    (hlookup : node.lookup name = some value) : value.Distinct := h.of_mem (mem_of_lookup hlookup)

theorem Distinct.of_mem_array {elements : List Node} {value : Node}
    (h : (Node.array elements).Distinct) (hmem : value ∈ elements) : value.Distinct := by
  cases h with
  | array helements => exact helements _ hmem

end Node

end StrictJson

end AiOrg
