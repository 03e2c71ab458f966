import AiOrg.Approach.DomainSpecification
import AiOrg.Proofs.Slug
import AiOrg.Python.Base64

/-!
# Tables that are put aside

The tables of an aspect are those that stay and those of its file, as long as no other aspect with a large table writes
a file of the same name: the file has the slug of the aspect's name, and different names may have one slug
(`conserved_iff`).
-/

namespace AiOrg

open List

namespace Approach

/-- An applicable aspect with a table that does not stay. -/
def Aspect.HasLarge (aspect : Aspect) : Prop :=
  aspect.applicability = .applies ∧
    ∃ table ∈ aspect.tables, DOMAIN_SPEC_TABLE_EXTERNALIZE_ROW_THRESHOLD < table.rows.length

/-- Where the tables of an aspect are: in its node, or all rows of them in the file that the node refers to. -/
structure Kept (files : ExternalFiles) (aspect : Aspect) (node : AspectNode) : Prop where
  name : node.aspect.aspect_name = aspect.aspect_name
  tables : aspect.applicability = .applies → ∃ filed : List Table, (node.aspect.tables ++ filed).Perm aspect.tables ∧
    Forall₂ (fun (table : Table) (external : ExternalTable) => external.table_name = table.table_name ∧
      external.columns = table.columns ∧ external.row_count = table.rows.length ∧
      ∃ file, files.lookup external.file_ref = some file ∧ file.aspect_name = aspect.aspect_name ∧ file.tables = filed)
      filed node.externalized_tables

/-- Two nodes refer to different files. -/
def FilesApart (a b : AspectNode) : Prop :=
  ∀ x ∈ a.externalized_tables, ∀ y ∈ b.externalized_tables, x.file_ref ≠ y.file_ref

instance : DecidableRel FilesApart := fun a b =>
  inferInstanceAs (Decidable (∀ x ∈ a.externalized_tables, ∀ y ∈ b.externalized_tables, x.file_ref ≠ y.file_ref))

/-- Every table of an applicable aspect is kept, and no two aspects share a file. -/
def Conserved (py : PyLib) (specification : DomainSpecification) (external_files : ExternalFiles) : Prop :=
  ∃ nodes files, _externalize_domain_specification py specification (some external_files) = (nodes, some files) ∧
    Forall₂ (Kept files) specification.aspects nodes ∧ nodes.Pairwise FilesApart

section Externalize

variable (py : PyLib)

def nodeOf (aspect : Aspect) : AspectNode := (externalizeAspect py none aspect).1

theorem externalizeAspect_fst (files : Option ExternalFiles) (aspect : Aspect) :
    (externalizeAspect py files aspect).1 = nodeOf py aspect := by
  rw [nodeOf, externalizeAspect, externalizeAspect]
  cases aspect.applicability <;> rfl

def written (aspect : Aspect) (files : ExternalFiles) : ExternalFiles :=
  if aspect.applicability = .applies ∧ aspect.tables.filter Table.large ≠ [] then
    assign (fileRef py aspect.aspect_name) (externalFile py aspect) files
  else files

theorem externalizeAspect_snd (files : ExternalFiles) (aspect : Aspect) :
    (externalizeAspect py (some files) aspect).2 = some (written py aspect files) := by
  rw [externalizeAspect, written]
  cases happlies : aspect.applicability with
  | not_applicable => simp
  | applies =>
    cases hlarge : aspect.tables.filter Table.large with
    | nil => simp
    | cons table tables => simp [externalTable]

theorem externalizeAspects_eq (files : ExternalFiles) (aspects : List Aspect) :
    externalizeAspects py (some files) aspects =
      (aspects.map (nodeOf py), some (aspects.foldl (fun files aspect => written py aspect files) files)) := by
  induction aspects generalizing files with
  | nil => rfl
  | cons aspect aspects ih =>
    rw [externalizeAspects, externalizeAspect_snd, ih, externalizeAspect_fst]
    rfl

variable {py}

theorem hasLarge_iff {aspect : Aspect} : aspect.HasLarge ↔
    aspect.applicability = .applies ∧ aspect.tables.filter Table.large ≠ [] := by
  rw [Aspect.HasLarge, Ne, filter_eq_nil_iff]
  simp [Table.large]

theorem fileRef_inj {a b : String} (h : fileRef py a = fileRef py b) : _slug py a = _slug py b := by
  have hchars := congrArg String.toList h
  simp only [fileRef, String.toList_append, append_cancel_right_eq, append_cancel_left_eq] at hchars
  exact String.toList_injective hchars

/-- Two aspects write different files where the texts of their slugs differ. -/
def SlugsApart (py : PyLib) (a b : Aspect) : Prop :=
  a.HasLarge → b.HasLarge → (slugText py a.aspect_name).take 80 ≠ (slugText py b.aspect_name).take 80

theorem fileRef_ne {a b : Aspect} (h : SlugsApart py a b) (ha : a.HasLarge) (hb : b.HasLarge) :
    fileRef py a.aspect_name ≠ fileRef py b.aspect_name := fun heq =>
  h ha hb ((slug_eq_iff py).1 (fileRef_inj heq))

theorem lookup_written_of_ne {aspect : Aspect} {key : String} {files : ExternalFiles}
    (h : aspect.HasLarge → key ≠ fileRef py aspect.aspect_name) :
    (written py aspect files).lookup key = files.lookup key := by
  rw [written]
  split_ifs with hlarge
  · rw [lookup_assign, if_neg (h (hasLarge_iff.2 hlarge))]
  · rfl

theorem lookup_written {aspect : Aspect} (files : ExternalFiles) (h : aspect.HasLarge) :
    (written py aspect files).lookup (fileRef py aspect.aspect_name) = some (externalFile py aspect) := by
  rw [written, if_pos (hasLarge_iff.1 h), lookup_assign, if_pos rfl]

theorem lookup_foldl_written {key : String} {aspects : List Aspect} {files : ExternalFiles}
    (h : ∀ aspect ∈ aspects, aspect.HasLarge → key ≠ fileRef py aspect.aspect_name) :
    (aspects.foldl (fun files aspect => written py aspect files) files).lookup key = files.lookup key := by
  induction aspects generalizing files with
  | nil => rfl
  | cons aspect aspects ih =>
    obtain ⟨hfirst, hrest⟩ := forall_mem_cons.1 h
    rw [foldl_cons, ih hrest, lookup_written_of_ne hfirst]

theorem lookup_file_of_mem {aspects : List Aspect} {files : ExternalFiles} {aspect : Aspect}
    (hapart : aspects.Pairwise (SlugsApart py)) (hmem : aspect ∈ aspects) (hlarge : aspect.HasLarge) :
    (aspects.foldl (fun files aspect => written py aspect files) files).lookup (fileRef py aspect.aspect_name) =
      some (externalFile py aspect) := by
  induction aspects generalizing files with
  | nil => cases hmem
  | cons first rest ih =>
    obtain ⟨hfirst, hrest⟩ := pairwise_cons.1 hapart
    rw [foldl_cons]
    rcases mem_cons.1 hmem with rfl | hmem
    · rw [lookup_foldl_written fun other hother hother_large =>
        fileRef_ne (hfirst other hother) hlarge hother_large]
      exact lookup_written files hlarge
    · exact ih hrest hmem

theorem nodeOf_name (aspect : Aspect) : (nodeOf py aspect).aspect.aspect_name = aspect.aspect_name := by
  rw [nodeOf, externalizeAspect]
  cases aspect.applicability <;> rfl

theorem nodeOf_tables {aspect : Aspect} (h : aspect.applicability = .applies) :
    (nodeOf py aspect).aspect.tables = aspect.tables.filter fun table => !table.large := by
  rw [nodeOf, externalizeAspect, h]

theorem externalized_nodeOf {aspect : Aspect} (h : aspect.applicability = .applies) :
    (nodeOf py aspect).externalized_tables =
      (aspect.tables.filter Table.large).map (externalTable py aspect.aspect_name) := by
  rw [nodeOf, externalizeAspect, h]

theorem fileRef_of_mem {aspect : Aspect} {external : ExternalTable}
    (h : external ∈ (nodeOf py aspect).externalized_tables) :
    aspect.HasLarge ∧ external.file_ref = fileRef py aspect.aspect_name := by
  cases happlies : aspect.applicability with
  | not_applicable =>
    rw [nodeOf, externalizeAspect, happlies] at h
    cases h
  | applies =>
    rw [externalized_nodeOf happlies] at h
    obtain ⟨table, htable, rfl⟩ := mem_map.1 h
    exact ⟨hasLarge_iff.2 ⟨happlies, ne_nil_of_mem htable⟩, rfl⟩

variable (py) in
theorem exists_external {aspect : Aspect} (h : aspect.HasLarge) :
    ∃ external ∈ (nodeOf py aspect).externalized_tables, external.file_ref = fileRef py aspect.aspect_name := by
  obtain ⟨happlies, hne⟩ := hasLarge_iff.1 h
  obtain ⟨table, htable⟩ := exists_mem_of_ne_nil _ hne
  refine ⟨externalTable py aspect.aspect_name table, ?_, rfl⟩
  rw [externalized_nodeOf happlies]
  exact mem_map_of_mem htable

theorem filesApart_iff {a b : Aspect} : FilesApart (nodeOf py a) (nodeOf py b) ↔ SlugsApart py a b := by
  constructor
  · intro h ha hb htake
    obtain ⟨x, hx, hxref⟩ := exists_external py ha
    obtain ⟨y, hy, hyref⟩ := exists_external py hb
    refine h x hx y hy ?_
    rw [hxref, hyref, fileRef, fileRef, (slug_eq_iff py).2 htake]
  · intro h x hx y hy
    obtain ⟨ha, hxref⟩ := fileRef_of_mem hx
    obtain ⟨hb, hyref⟩ := fileRef_of_mem hy
    rw [hxref, hyref]
    exact fileRef_ne h ha hb

theorem kept_of_lookup {aspect : Aspect} {files : ExternalFiles}
    (h : aspect.HasLarge → files.lookup (fileRef py aspect.aspect_name) = some (externalFile py aspect)) :
    Kept files aspect (nodeOf py aspect) where
  name := nodeOf_name aspect
  tables := by
    intro happlies
    refine ⟨aspect.tables.filter Table.large, ?_, ?_⟩
    · rw [nodeOf_tables happlies]
      exact perm_append_comm.trans (filter_append_perm Table.large aspect.tables)
    · rw [externalized_nodeOf happlies, forall₂_map_right_iff, forall₂_same]
      intro table htable
      have hfile := h (hasLarge_iff.2 ⟨happlies, ne_nil_of_mem htable⟩)
      exact ⟨rfl, rfl, rfl, externalFile py aspect, hfile, rfl, rfl⟩

/-- **Tables are conserved** if and only if no two aspects with a large table have names with the same slug. -/
theorem conserved_iff (py : PyLib) (specification : DomainSpecification) (external_files : ExternalFiles) :
    Conserved py specification external_files ↔ specification.aspects.Pairwise (SlugsApart py) := by
  have hpairwise : (specification.aspects.map (nodeOf py)).Pairwise FilesApart ↔
      specification.aspects.Pairwise (SlugsApart py) := by
    rw [pairwise_map]
    exact ⟨List.Pairwise.imp filesApart_iff.1, List.Pairwise.imp filesApart_iff.2⟩
  constructor
  · rintro ⟨nodes, files, hresult, -, hapart⟩
    rw [_externalize_domain_specification, externalizeAspects_eq, Prod.mk.injEq] at hresult
    rw [← hresult.1] at hapart
    exact hpairwise.1 hapart
  · intro hapart
    refine ⟨_, _, externalizeAspects_eq py external_files specification.aspects, ?_, hpairwise.2 hapart⟩
    rw [forall₂_map_right_iff, forall₂_same]
    exact fun aspect hmem => kept_of_lookup fun hlarge => lookup_file_of_mem hapart hmem hlarge

end Externalize

/-- A table of thirteen rows. -/
def longTable : Table where
  table_name := "codes"
  columns := ["code"]
  rows := replicate 13 ["x"]
  width := by decide

def encounterAspect (aspect_name : String) : Aspect :=
  ⟨aspect_name, .applies, "Encounters.", [], [longTable], []⟩

/-- Two aspects whose names differ in a hyphen. -/
def encounterSpecification : DomainSpecification where
  aspects := [encounterAspect "random encounters", encounterAspect "random-encounters"]
  distinct := by decide

theorem encounters_share_file : ¬ Conserved asciiLib encounterSpecification [] := by
  rintro ⟨nodes, files, hresult, -, hapart⟩
  have hnodes : nodes = (_externalize_domain_specification asciiLib encounterSpecification (some [])).1 := by
    rw [hresult]
  rw [hnodes] at hapart
  revert hapart
  decide +kernel

end Approach

end AiOrg
