import AiOrg.Proofs.Decoder

/-!
# The nodes of the duplicate paths

`ensure` finds the node of a scan path in the trie of duplicate names. Each scan path keeps its node, so the letters
of a pointer are only followed from the nearest ancestor with a node. What is kept is right, so the trie is the one of
the pointers (`Nodes.root_add`), and its first node is the duplicate that sorting would select
(`selected_duplicatePaths`).
-/

namespace AiOrg

open List

namespace Selection

variable {κ ν : Type} [LinearOrder κ]

/-- The trie with a node changed; the nodes on the way to it are made where they are missing. -/
def Trie.modify (f : Trie κ ν → Trie κ ν) : List κ → Trie κ ν → Trie κ ν
  | [], t => f t
  | letter :: path, .node value edges => .node value (edges.update letter (modify f path))

theorem Edges.update_update (letter : κ) (f g : Trie κ ν → Trie κ ν) :
    ∀ edges : Edges κ ν, (edges.update letter f).update letter g = edges.update letter (g ∘ f)
  | .nil => by simp [update]
  | .cons first child rest => by
    rw [update, update]
    split_ifs with hlt heq
    · rw [update, if_pos hlt, update_update letter f g rest]
    · rw [update, if_neg hlt, if_pos heq]
      rfl
    · rw [update, if_neg (lt_irrefl _), if_pos rfl]
      rfl

theorem Trie.modify_append (f : Trie κ ν → Trie κ ν) (p q : List κ) (t : Trie κ ν) :
    t.modify f (p ++ q) = t.modify (modify f q) p := by
  induction p generalizing t with
  | nil => rfl
  | cons letter p ih =>
    obtain ⟨value, edges⟩ := t
    rw [cons_append, modify, modify]
    congr 2
    funext child
    exact ih child

theorem Trie.modify_modify (f g : Trie κ ν → Trie κ ν) (p : List κ) (t : Trie κ ν) :
    (t.modify f p).modify g p = t.modify (g ∘ f) p := by
  induction p generalizing t with
  | nil => rfl
  | cons letter p ih =>
    obtain ⟨value, edges⟩ := t
    rw [modify, modify, modify, Edges.update_update]
    congr 2
    funext child
    exact ih child

theorem Trie.insert_eq_modify [LinearOrder ν] (p : List κ) (v : ν) (t : Trie κ ν) :
    Trie.insert p v t = t.modify (Trie.insert [] v) p := by
  induction p generalizing t with
  | nil => rfl
  | cons letter p ih =>
    obtain ⟨value, edges⟩ := t
    rw [insert, modify]
    congr 2
    funext child
    exact ih child

end Selection

namespace StrictJson

open Selection

/-- An object of `scanPath`, with its address; the objects of its parents follow it in a list. -/
structure ScanNode where
  address : ℕ
  token : String

def tokens (path : List ScanNode) : ScanPath := path.map ScanNode.token

/-- A node of the trie, by the letters on the way to it. -/
abbrev NodeName := List Char

/-- `pointerTrieChild`. -/
def pointerTrieChild (place : DuplicatePaths × NodeName) (letter : Char) : DuplicatePaths × NodeName :=
  (Trie.modify (fun | .node value edges => .node value (edges.update letter id)) place.2 place.1,
    place.2 ++ [letter])

/-- A letter of a token, in the loop of `ensure`. -/
def tokenChild (place : DuplicatePaths × NodeName) (c : Char) : DuplicatePaths × NodeName :=
  if c = '~' then pointerTrieChild (pointerTrieChild place '~') '0'
  else if c = '/' then pointerTrieChild (pointerTrieChild place '~') '1'
  else pointerTrieChild place c

/-- The trie, and for the address of each scan path its `trie`. -/
structure Nodes where
  root : DuplicatePaths
  trie : ℕ → Option NodeName

namespace Nodes

def empty : Nodes := ⟨.empty, fun _ => none⟩

/-- The objects without a node, up to the nearest one with a node. -/
def unresolved (trie : ℕ → Option NodeName) : List ScanNode → List ScanNode × NodeName
  | [] => ([], [])
  | current :: parents =>
    match trie current.address with
    | some node => ([], node)
    | none => (current :: (unresolved trie parents).1, (unresolved trie parents).2)

/-- The second loop of `ensure`, from the topmost object on. -/
def resolve (nodes : Nodes) (terminal : NodeName) : List ScanNode → Nodes × NodeName
  | [] => (nodes, terminal)
  | current :: parents =>
    let (nodes, terminal) := resolve nodes terminal parents
    let (root, terminal) :=
      current.token.toList.foldl tokenChild (pointerTrieChild (nodes.root, terminal) '/')
    (⟨root, Function.update nodes.trie current.address (some terminal)⟩, terminal)

def ensure (nodes : Nodes) (path : List ScanNode) : Nodes × NodeName :=
  let (pending, terminal) := unresolved nodes.trie path
  resolve nodes terminal pending

/-- A node keeps the least offset. -/
def add (nodes : Nodes) (path : List ScanNode) (offset : ℕ) : Nodes :=
  let (nodes, terminal) := nodes.ensure path
  { nodes with root := Trie.modify (Trie.insert [] offset) terminal nodes.root }

end Nodes

/-- From one node a word leads to another, and nodes are added on the way at most. -/
def Grows (a b : DuplicatePaths × NodeName) (word : List Char) : Prop :=
  b.2 = a.2 ++ word ∧ ∀ f rest, Trie.modify f (b.2 ++ rest) b.1 = Trie.modify f (b.2 ++ rest) a.1

section Grows

variable {a b c : DuplicatePaths × NodeName} {word further : List Char}

theorem Grows.trans (hab : Grows a b word) (hbc : Grows b c further) :
    Grows a c (word ++ further) := by
  obtain ⟨hb, htrie⟩ := hab
  obtain ⟨hc, hfurther⟩ := hbc
  refine ⟨by rw [hc, hb, append_assoc], fun f rest => ?_⟩
  rw [hfurther, hc, append_assoc, htrie]

theorem grows_child (a : DuplicatePaths × NodeName) (letter : Char) :
    Grows a (pointerTrieChild a letter) [letter] := by
  refine ⟨rfl, fun f rest => ?_⟩
  have hname : (pointerTrieChild a letter).2 ++ rest = a.2 ++ letter :: rest := by
    simp [pointerTrieChild]
  rw [hname, Trie.modify_append, Trie.modify_append, pointerTrieChild, Trie.modify_modify]
  congr 1
  funext t
  obtain ⟨value, edges⟩ := t
  show Trie.node value _ = Trie.node value _
  rw [Edges.update_update]
  rfl

theorem grows_token (token : List Char) (a : DuplicatePaths × NodeName) :
    Grows a (token.foldl tokenChild a) (token.flatMap fun c =>
      if c = '~' then ['~', '0'] else if c = '/' then ['~', '1'] else [c]) := by
  induction token generalizing a with
  | nil => exact ⟨(append_nil _).symm, fun f rest => rfl⟩
  | cons c token ih =>
    rw [foldl_cons, flatMap_cons]
    refine Grows.trans ?_ (ih _)
    unfold tokenChild
    split_ifs
    · exact (grows_child a '~').trans (grows_child _ '0')
    · exact (grows_child a '~').trans (grows_child _ '1')
    · exact grows_child a c

end Grows

/-- The objects of a path are the ones at their addresses. -/
def Addressed (memory : ℕ → List ScanNode) : List ScanNode → Prop
  | [] => True
  | current :: parents => memory current.address = current :: parents ∧ Addressed memory parents

def pointer (path : List ScanNode) : NodeName := (materializeScanPath (tokens path)).toList

theorem pointer_cons (current : ScanNode) (path : List ScanNode) :
    pointer (current :: path) = pointer path ++ '/' :: writeEscapedPointerToken current.token := by
  simp [pointer, tokens, materializeScanPath]

namespace Nodes

variable {memory : ℕ → List ScanNode} {nodes : Nodes} {path : List ScanNode}

/-- A scan path keeps the node of its own pointer. -/
def Right (memory : ℕ → List ScanNode) (nodes : Nodes) : Prop :=
  ∀ address node, nodes.trie address = some node → node = pointer (memory address)

theorem unresolved_spec (hright : nodes.Right memory) (hpath : Addressed memory path) :
    ∃ base, path = (unresolved nodes.trie path).1 ++ base ∧
      (unresolved nodes.trie path).2 = pointer base := by
  induction path with
  | nil => exact ⟨[], rfl, rfl⟩
  | cons current parents ih =>
    rw [unresolved]
    rcases hnode : nodes.trie current.address with _ | node
    · obtain ⟨base, hparents, hpointer⟩ := ih hpath.2
      exact ⟨base, congrArg (current :: ·) hparents, hpointer⟩
    · refine ⟨current :: parents, rfl, ?_⟩
      rw [hright _ _ hnode, hpath.1]

/-- The loop ends at the node of the whole path. -/
theorem resolve_spec {base : List ScanNode} (hright : nodes.Right memory) (pending : List ScanNode)
    (hpath : Addressed memory (pending ++ base)) :
    (resolve nodes (pointer base) pending).1.Right memory ∧
      (resolve nodes (pointer base) pending).2 = pointer (pending ++ base) ∧
      ∀ f rest, Trie.modify f (pointer (pending ++ base) ++ rest)
        (resolve nodes (pointer base) pending).1.root =
          Trie.modify f (pointer (pending ++ base) ++ rest) nodes.root := by
  induction pending with
  | nil => exact ⟨hright, rfl, fun f rest => rfl⟩
  | cons current parents ih =>
    obtain ⟨hkept, hterminal, htrie⟩ := ih hpath.2
    have hgrows := (grows_child ((resolve nodes (pointer base) parents).1.root,
      (resolve nodes (pointer base) parents).2) '/').trans (grows_token current.token.toList _)
    obtain ⟨hname, hmodify⟩ := hgrows
    have hpointer : (resolve nodes (pointer base) (current :: parents)).2 =
        pointer (current :: parents ++ base) := by
      rw [cons_append, pointer_cons, ← hterminal]
      exact hname
    refine ⟨fun address node hnode => ?_, hpointer, fun f rest => ?_⟩
    · by_cases haddress : address = current.address
      · subst haddress
        have hupdate := (Function.update_self _ _ _).symm.trans hnode
        rw [hpath.1]
        exact (Option.some.inj hupdate).symm.trans hpointer
      · exact hkept _ _ ((Function.update_of_ne haddress _ _).symm.trans hnode)
    · have hstep := hmodify f rest
      rw [← hpointer]
      refine hstep.trans ?_
      have hparents := htrie f ('/' :: writeEscapedPointerToken current.token ++ rest)
      rw [← append_assoc, ← pointer_cons, ← cons_append, ← hpointer] at hparents
      exact hparents

/-- An occurrence goes into the trie at the pointer of its path. -/
theorem root_add (hright : nodes.Right memory) (hpath : Addressed memory path) (offset : ℕ) :
    (nodes.add path offset).Right memory ∧
      (nodes.add path offset).root = nodes.root.add (tokens path) offset := by
  obtain ⟨base, hbase, hterminal⟩ := unresolved_spec hright hpath
  obtain ⟨hkept, hpointer, htrie⟩ := resolve_spec hright (unresolved nodes.trie path).1 (hbase ▸ hpath)
  rw [← hbase, ← hterminal] at hpointer
  refine ⟨by rw [← hterminal] at hkept; exact hkept, ?_⟩
  have hroot := htrie (Trie.insert [] offset) []
  rw [← hbase, ← hterminal, append_nil] at hroot
  show Trie.modify _ (resolve nodes _ _).2 (resolve nodes _ _).1.root = _
  rw [hpointer, hroot, DuplicatePaths.add, Trie.insert_eq_modify]
  rfl

end Nodes

/-- The diagnostic of an occurrence of a duplicate name. -/
def duplicateError (occurrence : List ScanNode × ℕ) : Error :=
  ⟨.duplicateKey, materializeScanPath (tokens occurrence.1), occurrence.2⟩

theorem root_addAll {memory : ℕ → List ScanNode} {occurrences : List (List ScanNode × ℕ)}
    (h : ∀ occurrence ∈ occurrences, Addressed memory occurrence.1) :
    (occurrences.foldl (fun nodes occurrence => nodes.add occurrence.1 occurrence.2) Nodes.empty).Right
        memory ∧
      (occurrences.foldl (fun nodes occurrence => nodes.add occurrence.1 occurrence.2)
        Nodes.empty).root = pathsOf (occurrences.map duplicateError) := by
  induction occurrences using reverseRecOn with
  | nil => exact ⟨fun address node hnode => (by cases hnode), rfl⟩
  | append_singleton occurrences occurrence ih =>
    obtain ⟨hright, hroot⟩ := ih fun o ho => h o (mem_append_left _ ho)
    obtain ⟨hkept, hadd⟩ := Nodes.root_add hright (h occurrence (by simp)) occurrence.2
    rw [foldl_append, map_append, foldl_cons, foldl_nil]
    refine ⟨hkept, ?_⟩
    rw [hadd, hroot]
    exact (pathsOf_append _ _ _).symm

/-- However the occurrences of duplicate names come, the trie selects the one that comes first by its pointer and then
by its offset. -/
theorem selected_duplicatePaths {memory : ℕ → List ScanNode} {occurrences : List (List ScanNode × ℕ)}
    (h : ∀ occurrence ∈ occurrences, Addressed memory occurrence.1) :
    (occurrences.foldl (fun nodes occurrence => nodes.add occurrence.1 occurrence.2)
      Nodes.empty).root.selected = selectDuplicateError (occurrences.map duplicateError) := by
  rw [(root_addAll h).2]
  refine selected_pathsOf fun e he => ?_
  obtain ⟨occurrence, -, rfl⟩ := mem_map.1 he
  rfl

/-- A name twice below a name, and then that name twice. -/
def parentLast : List (List ScanNode × ℕ) := [([⟨1, "b"⟩, ⟨0, "a"⟩], 9), ([⟨0, "a"⟩], 4)]

theorem selected_parentLast : (parentLast.foldl (fun nodes occurrence =>
    nodes.add occurrence.1 occurrence.2) Nodes.empty).root.selected =
      selectDuplicateError (parentLast.map duplicateError) :=
  @selected_duplicatePaths (fun address => if address = 0 then [⟨0, "a"⟩] else [⟨1, "b"⟩, ⟨0, "a"⟩])
    parentLast (by simp [parentLast, Addressed])

end StrictJson

end AiOrg
