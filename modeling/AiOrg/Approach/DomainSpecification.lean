import AiOrg.Approach.Tree
import AiOrg.Run.Checks

/-!
# Domain specifications

`_parse_domain_specification` reads the aspects of a reply, whose names are different, and
`_externalize_domain_specification` puts the tables of more than twelve rows of an applicable aspect into a file that has
the slug of the aspect's name.
-/

namespace AiOrg

open List

namespace Approach

open Checks

structure Table where
  table_name : String
  columns : List String
  rows : List (List String)
  width : ∀ row ∈ rows, row.length = columns.length
  deriving DecidableEq

structure Quantity where
  name : String
  value : String
  unit : String
  deriving DecidableEq

inductive Applicability where
  | applies | not_applicable
  deriving DecidableEq

structure Aspect where
  aspect_name : String
  applicability : Applicability
  specification_body : String
  quantities : List Quantity
  tables : List Table
  sources : List String
  deriving DecidableEq

/-- What the parser accepts. -/
structure DomainSpecification where
  aspects : List Aspect
  distinct : (aspects.map (·.aspect_name)).Nodup

/-! ### The parser -/

section Parse

def sameKeys (fields : Fields) (names : List String) : Prop :=
  (∀ key ∈ fields.map Prod.fst, key ∈ names) ∧ ∀ name ∈ names, name ∈ fields.map Prod.fst

instance (fields : Fields) (names : List String) : Decidable (sameKeys fields names) :=
  inferInstanceAs (Decidable ((∀ key ∈ fields.map Prod.fst, key ∈ names) ∧ ∀ name ∈ names, name ∈ fields.map Prod.fst))

def closedMapping (names : List String) : Json → Option Fields
  | .obj fields => if sameKeys fields names then some fields else none
  | _ => none

def stringOf : Json → Option String
  | .str text => some text
  | _ => none

def stringsOf : Json → Option (List String)
  | .arr items => items.mapM stringOf
  | _ => none

def quantityOf (item : Json) : Option Quantity := do
  let fields ← closedMapping ["name", "value", "unit"] item
  return ⟨← stringOf (fields.get "name"), ← stringOf (fields.get "value"), ← stringOf (fields.get "unit")⟩

def _parse_domain_quantities : Json → Option (List Quantity)
  | .arr items => items.mapM quantityOf
  | _ => none

def invalidTables : String := "Codex domain specification returned invalid tables"

def widthMismatch (table_index row_index : ℕ) : String :=
  "domain specification table rows width mismatch at tables[" ++ toString table_index ++ "].rows[" ++
    toString row_index ++ "]"

def rowsOf (table_index width : ℕ) : ℕ → List Json → Except String (List (List String))
  | _, [] => .ok []
  | row_index, row :: rest =>
    match stringsOf row with
    | none => .error invalidTables
    | some cells =>
      if cells.length ≠ width then .error (widthMismatch table_index row_index)
      else (rowsOf table_index width (row_index + 1) rest).map (cells :: ·)

theorem width_of_rowsOf {table_index width row_index : ℕ} {items : List Json} {rows : List (List String)}
    (h : rowsOf table_index width row_index items = .ok rows) : ∀ row ∈ rows, row.length = width := by
  induction items generalizing row_index rows with
  | nil =>
    obtain rfl := Except.ok.inj h
    exact fun row hrow => absurd hrow not_mem_nil
  | cons item items ih =>
    rw [rowsOf] at h
    split at h
    · cases h
    · split_ifs at h with hwidth
      obtain ⟨rest, hrest, rfl⟩ := map_eq_ok_iff.1 h
      exact forall_mem_cons.2 ⟨not_not.1 hwidth, ih hrest⟩

def tableOf (_ : List Table) (table_index : ℕ) (item : Json) : Except String Table :=
  match closedMapping ["table_name", "columns", "rows"] item with
  | none => .error invalidTables
  | some fields =>
    match stringOf (fields.get "table_name"), stringsOf (fields.get "columns"), fields.get "rows" with
    | some table_name, some columns, .arr items =>
      match h : rowsOf table_index columns.length 0 items with
      | .error error => .error error
      | .ok rows => .ok ⟨table_name, columns, rows, width_of_rowsOf h⟩
    | _, _, _ => .error invalidTables

def _parse_domain_tables : Json → Except String (List Table)
  | .arr items => collect tableOf [] 0 items
  | _ => .error invalidTables

def applicabilityOf (value : Json) : Option Applicability :=
  if value = .str "applies" then some .applies else if value = .str "not_applicable" then some .not_applicable else none

def orError {α : Type} (error : String) : Option α → Except String α
  | some a => .ok a
  | none => .error error

def aspectOf (seen : List Aspect) (index : ℕ) (item : Json) : Except String Aspect := do
  let fields ← orError
    ("Codex domain specification returned invalid aspect fields at aspects[" ++ toString index ++ "]")
    (closedMapping ["aspect_name", "applicability", "specification_body", "quantities", "tables", "sources"] item)
  let strings := "Codex domain specification returned invalid aspect strings"
  let aspect_name ← orError strings (stringOf (fields.get "aspect_name"))
  let specification_body ← orError strings (stringOf (fields.get "specification_body"))
  let applicability ← orError "Codex domain specification returned invalid applicability"
    (applicabilityOf (fields.get "applicability"))
  let quantities ← orError "Codex domain specification returned invalid quantities"
    (_parse_domain_quantities (fields.get "quantities"))
  let tables ← _parse_domain_tables (fields.get "tables")
  let sources ← orError "Codex domain specification returned invalid sources" (stringsOf (fields.get "sources"))
  require (aspect_name ∉ seen.map (·.aspect_name))
    ("Codex domain specification returned duplicate aspect_name " ++ aspect_name)
  return ⟨aspect_name, applicability, specification_body, quantities, tables, sources⟩

theorem aspectOf_fresh {seen : List Aspect} {index : ℕ} {item : Json} {aspect : Aspect}
    (h : aspectOf seen index item = .ok aspect) : aspect.aspect_name ∉ seen.map (·.aspect_name) := by
  simp only [aspectOf, bind_eq_ok_iff, require_eq_ok_iff, exists_const, pure, Except.pure, Except.ok.injEq] at h
  obtain ⟨_, -, name, -, _, -, _, -, _, -, _, -, _, -, hfresh, rfl⟩ := h
  exact hfresh

theorem nodup_of_collect {seen : List Aspect} {index : ℕ} {items : List Json} {aspects : List Aspect}
    (h : collect aspectOf seen index items = .ok aspects) :
    (aspects.map (·.aspect_name)).Nodup ∧ ∀ aspect ∈ aspects, aspect.aspect_name ∉ seen.map (·.aspect_name) := by
  induction items generalizing seen index aspects with
  | nil =>
    obtain rfl := Except.ok.inj h
    exact ⟨nodup_nil, fun _ h => absurd h not_mem_nil⟩
  | cons item items ih =>
    rw [collect, bind_eq_ok_iff] at h
    obtain ⟨aspect, haspect, h⟩ := h
    obtain ⟨rest, hrest, rfl⟩ := map_eq_ok_iff.1 h
    obtain ⟨hnodup, hfresh⟩ := ih hrest
    refine ⟨nodup_cons.2 ⟨fun hmem => ?_, hnodup⟩, forall_mem_cons.2 ⟨aspectOf_fresh haspect, ?_⟩⟩
    · obtain ⟨other, hother, heq⟩ := mem_map.1 hmem
      exact hfresh other hother (by rw [heq]; exact mem_cons_self)
    · intro other hother hmem
      exact hfresh other hother (mem_cons_of_mem _ hmem)

/-- `"; missing: a, b"`, for names. -/
def nameList (label : String) (names : List String) : String :=
  if names = [] then "" else label ++ ", ".intercalate names

/-- What `json.loads` makes of a reply, with the names that are expected. -/
def _parse_domain_specification (parsed : Json) (expected_names : List String) : Except String DomainSpecification :=
  match parsed with
  | .obj fields =>
    if sameKeys fields ["aspects"] then
      match Fields.get fields "aspects" with
      | .arr items =>
        match h : collect aspectOf [] 0 items with
        | .error error => .error error
        | .ok aspects =>
          let seen_names := aspects.map (·.aspect_name)
          let missing := sorted (expected_names.dedup.filter fun name => name ∉ seen_names)
          let extra := sorted (seen_names.filter fun name => name ∉ expected_names)
          if expected_names ≠ [] ∧ (missing ≠ [] ∨ extra ≠ []) then
            .error ("Codex domain specification returned aspect_name mismatch" ++ nameList "; missing: " missing ++
              nameList "; extra: " extra)
          else .ok ⟨aspects, (nodup_of_collect h).1⟩
      | _ => .error "Codex domain specification returned invalid aspects"
    else .error "Codex domain specification returned invalid fields"
  | _ => .error "Codex domain specification returned non-object JSON"

end Parse

def DOMAIN_SPEC_TABLE_EXTERNALIZE_ROW_THRESHOLD : ℕ := 12

/-- Whether a table has too many rows to stay. -/
def Table.large (table : Table) : Bool := DOMAIN_SPEC_TABLE_EXTERNALIZE_ROW_THRESHOLD < table.rows.length

structure ExternalTable where
  table_name : String
  columns : List String
  row_count : ℕ
  file_ref : String
  deriving DecidableEq

structure ExternalFile where
  aspect_name : String
  aspect_id : String
  tables : List Table
  deriving DecidableEq

/-- An aspect with its id; `surplus` are the numbers of quantities and tables that are ignored. -/
structure AspectNode where
  aspect : Aspect
  id : String
  surplus : Option (ℕ × ℕ)
  externalized_tables : List ExternalTable
  deriving DecidableEq

/-- The files, by their references. -/
abbrev ExternalFiles := List (String × ExternalFile)

section Externalize

variable (py : PyLib)

def fileRef (aspect_name : String) : String := "domain-spec/" ++ _slug py aspect_name ++ ".json"

def aspectId (aspect_name : String) : String := "domain_specification:" ++ _slug py aspect_name

def externalTable (aspect_name : String) (table : Table) : ExternalTable :=
  ⟨table.table_name, table.columns, table.rows.length, fileRef py aspect_name⟩

def externalFile (aspect : Aspect) : ExternalFile :=
  ⟨aspect.aspect_name, aspectId py aspect.aspect_name, aspect.tables.filter Table.large⟩

def externalizeAspect (external_files : Option ExternalFiles) (aspect : Aspect) :
    AspectNode × Option ExternalFiles :=
  let id := aspectId py aspect.aspect_name
  match aspect.applicability with
  | .not_applicable =>
    (⟨{ aspect with quantities := [], tables := [] }, id, some (aspect.quantities.length, aspect.tables.length), []⟩,
      external_files)
  | .applies =>
    let externalized_tables := (aspect.tables.filter Table.large).map (externalTable py aspect.aspect_name)
    (⟨{ aspect with tables := aspect.tables.filter fun table => !table.large }, id, none, externalized_tables⟩,
      match externalized_tables with
      | [] => external_files
      | first :: _ => external_files.map (assign first.file_ref (externalFile py aspect)))

def externalizeAspects (external_files : Option ExternalFiles) : List Aspect → List AspectNode × Option ExternalFiles
  | [] => ([], external_files)
  | aspect :: rest =>
    let step := externalizeAspect py external_files aspect
    let result := externalizeAspects step.2 rest
    (step.1 :: result.1, result.2)

def _externalize_domain_specification (specification : DomainSpecification) (external_files : Option ExternalFiles) :
    List AspectNode × Option ExternalFiles :=
  externalizeAspects py external_files specification.aspects

end Externalize

end Approach

end AiOrg
