import AiOrg.Python.Value

/-!
# Walks

`preorder` lists what a recursive walk of a value visits: the value, and then what is in it. That is every
value within it and nothing else (`mem_preorder`).
-/

namespace AiOrg

open List

namespace Json

inductive Within : Json → Json → Prop
  | refl (value : Json) : Within value value
  | item {value item : Json} {items : List Json} (hmem : item ∈ items) (h : Within value item) :
      Within value (.arr items)
  | member {value : Json} {fields : Fields} {entry : String × Json} (hmem : entry ∈ fields)
      (h : Within value entry.2) : Within value (.obj fields)

mutual

/-- A value and what is in it, in the order of a recursive walk. -/
def preorder : Json → List Json
  | .arr items => .arr items :: preorderItems items
  | .obj fields => .obj fields :: preorderFields fields
  | value => [value]

def preorderItems : List Json → List Json
  | [] => []
  | item :: items => preorder item ++ preorderItems items

def preorderFields : List (String × Json) → List Json
  | [] => []
  | (_, value) :: fields => preorder value ++ preorderFields fields

end

theorem preorderItems_eq (items : List Json) : preorderItems items = items.flatMap preorder := by
  induction items with
  | nil => rfl
  | cons item items ih => rw [preorderItems, ih, flatMap_cons]

theorem preorderFields_eq (fields : Fields) :
    preorderFields fields = fields.flatMap fun entry => preorder entry.2 := by
  induction fields with
  | nil => rfl
  | cons entry fields ih =>
    obtain ⟨key, value⟩ := entry
    rw [preorderFields, ih, flatMap_cons]

theorem mem_preorder_self (value : Json) : value ∈ preorder value := by
  cases value <;> simp [preorder]

theorem mem_preorder_of_within {value tree : Json} (h : Within value tree) :
    value ∈ preorder tree := by
  induction h with
  | refl => exact mem_preorder_self _
  | item hmem h ih =>
    rw [preorder, preorderItems_eq]
    exact mem_cons_of_mem _ (mem_flatMap.2 ⟨_, hmem, ih⟩)
  | member hmem h ih =>
    rw [preorder, preorderFields_eq]
    exact mem_cons_of_mem _ (mem_flatMap.2 ⟨_, hmem, ih⟩)

mutual

theorem within_of_mem_preorder : ∀ {value tree : Json}, value ∈ preorder tree → Within value tree
  | value, .arr items, h => by
    rw [preorder] at h
    rcases mem_cons.1 h with rfl | h
    · exact .refl _
    · obtain ⟨item, hmem, hwithin⟩ := within_of_mem_preorderItems h
      exact .item hmem hwithin
  | value, .obj fields, h => by
    rw [preorder] at h
    rcases mem_cons.1 h with rfl | h
    · exact .refl _
    · obtain ⟨entry, hmem, hwithin⟩ := within_of_mem_preorderFields h
      exact .member hmem hwithin
  | value, .null, h | value, .bool _, h | value, .int _, h | value, .float _, h | value, .str _, h => by
    rw [preorder, mem_singleton] at h
    rw [h]
    exact .refl _
    all_goals exact nofun

theorem within_of_mem_preorderItems : ∀ {value : Json} {items : List Json},
    value ∈ preorderItems items → ∃ item ∈ items, Within value item
  | value, item :: items, h => by
    rw [preorderItems] at h
    rcases mem_append.1 h with h | h
    · exact ⟨item, mem_cons_self, within_of_mem_preorder h⟩
    · obtain ⟨other, hmem, hwithin⟩ := within_of_mem_preorderItems h
      exact ⟨other, mem_cons_of_mem _ hmem, hwithin⟩

theorem within_of_mem_preorderFields : ∀ {value : Json} {fields : List (String × Json)},
    value ∈ preorderFields fields → ∃ entry ∈ fields, Within value entry.2
  | value, (key, member) :: fields, h => by
    rw [preorderFields] at h
    rcases mem_append.1 h with h | h
    · exact ⟨(key, member), mem_cons_self, within_of_mem_preorder h⟩
    · obtain ⟨other, hmem, hwithin⟩ := within_of_mem_preorderFields h
      exact ⟨other, mem_cons_of_mem _ hmem, hwithin⟩

end

theorem mem_preorder {value tree : Json} : value ∈ preorder tree ↔ Within value tree :=
  ⟨within_of_mem_preorder, mem_preorder_of_within⟩

end Json

end AiOrg
