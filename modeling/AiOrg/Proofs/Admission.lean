import AiOrg.Go.Scanner
import AiOrg.Proofs.Guard
import AiOrg.Proofs.MaxDepth

/-!
# What the guard returns

The parser returns only values without a name twice, and the guard chooses an error where there is
one; so it admits just the bytes of documents in the profile.
-/

namespace AiOrg

open List

/-! ### Names -/

namespace StrictJson

open GoJson (isValidNumber)

namespace Node

inductive ValidNumbers : Node → Prop
  | null : ValidNumbers null
  | bool {value : Bool} : ValidNumbers (bool value)
  | number {text : String} : isValidNumber text.toList → ValidNumbers (number text)
  | string {text : String} : ValidNumbers (string text)
  | array {elements : List Node} : (∀ element ∈ elements, ValidNumbers element) → ValidNumbers (array elements)
  | object {members : List (String × Node)} : (∀ member ∈ members, ValidNumbers member.2) →
      ValidNumbers (object members)

end Node

namespace Decoder

variable {dec dec' : Decoder} {t : Token}

/-- The numbers that are left to read are JSON numbers. -/
def Valid (dec : Decoder) : Prop :=
  ∀ text stop, (.token (.number text), stop) ∈ dec.rest → isValidNumber text.toList

theorem Valid.next (hvalid : dec.Valid) (h : dec.token = .ok (t, dec')) :
    dec'.Valid ∧ ∀ text, t = .number text → isValidNumber text.toList := by
  have hmem : dec'.rest ⊆ dec.rest ∧ ∃ stop, (.token t, stop) ∈ dec.rest := by
    rcases tokenFrom_spec h with ⟨stop, hrest, -⟩ | ⟨_, _, stop, _, hrest, -⟩ <;> rw [hrest]
    · exact ⟨subset_cons_self _ _, stop, mem_cons_self⟩
    · exact ⟨fun _ hx => mem_cons_of_mem _ (mem_cons_of_mem _ hx), stop,
        mem_cons_of_mem _ mem_cons_self⟩
  obtain ⟨hsubset, stop, hstop⟩ := hmem
  refine ⟨fun text stop hx => hvalid text stop (hsubset hx), ?_⟩
  rintro text rfl
  exact hvalid text stop hstop

end Decoder

/-- A value that is built without a duplicate has no name twice, and of JSON numbers it has those only. -/
theorem build_spec (fuel : ℕ) :
    (∀ {b b' : Building} {path : String} {depth bound : ℤ} {n : Node},
      parseValue fuel b path depth bound = (.ok n, b') →
        (b.dec.Valid → n.ValidNumbers ∧ b'.dec.Valid) ∧ (b'.duplicates = [] → b.duplicates = [] ∧ n.Distinct)) ∧
    (∀ {b b' : Building} {path : String} {depth bound : ℤ} {seen : List String}
      {members : List (String × Node)} {n : Node},
      parseMembers fuel b path depth bound seen members = (.ok n, b') →
        (b.dec.Valid → (∀ member ∈ members, member.2.ValidNumbers) → n.ValidNumbers ∧ b'.dec.Valid) ∧
        (b'.duplicates = [] → b.duplicates = [] ∧ ((members.map (·.1)).Nodup →
          (∀ member ∈ members, member.1 ∈ seen ∧ member.2.Distinct) → n.Distinct))) ∧
    ∀ {b b' : Building} {path : String} {depth bound : ℤ} {index : ℕ} {elements : List Node}
      {n : Node}, parseElements fuel b path depth bound index elements = (.ok n, b') →
        (b.dec.Valid → (∀ element ∈ elements, element.ValidNumbers) → n.ValidNumbers ∧ b'.dec.Valid) ∧
        (b'.duplicates = [] → b.duplicates = [] ∧ ((∀ element ∈ elements, element.Distinct) → n.Distinct)) := by
  induction fuel with
  | zero => exact ⟨fun h => by (cases h), fun h => by (cases h), fun h => by (cases h)⟩
  | succ fuel ih =>
    obtain ⟨hvalue, hmembers, helements⟩ := ih
    refine ⟨?_, ?_, ?_⟩
    · intro b b' path depth bound n h
      rw [parseValue] at h
      split_ifs at h
      · cases h
      split at h
      · cases h
      · rename_i token dec htoken
        have hnext (hvalid : b.dec.Valid) := hvalid.next htoken
        cases token with
        | delim delim =>
          cases delim with
          | openObject =>
            obtain ⟨hnumbers, hnames⟩ := hmembers h
            refine ⟨fun hvalid => hnumbers (hnext hvalid).1 (by simp), fun hnone => ?_⟩
            exact ⟨(hnames hnone).1, (hnames hnone).2 nodup_nil (by simp)⟩
          | openArray =>
            obtain ⟨hnumbers, hnames⟩ := helements h
            refine ⟨fun hvalid => hnumbers (hnext hvalid).1 (by simp), fun hnone => ?_⟩
            exact ⟨(hnames hnone).1, (hnames hnone).2 (by simp)⟩
          | _ => cases h
        | null => cases h; exact ⟨fun hvalid => ⟨.null, (hnext hvalid).1⟩, fun hnone => ⟨hnone, .null⟩⟩
        | bool value => cases h; exact ⟨fun hvalid => ⟨.bool, (hnext hvalid).1⟩, fun hnone => ⟨hnone, .bool⟩⟩
        | number text =>
          cases h
          exact ⟨fun hvalid => ⟨.number ((hnext hvalid).2 text rfl), (hnext hvalid).1⟩, fun hnone => ⟨hnone, .number⟩⟩
        | string text => cases h; exact ⟨fun hvalid => ⟨.string, (hnext hvalid).1⟩, fun hnone => ⟨hnone, .string⟩⟩
    · intro b b' path depth bound seen members n h
      rw [parseMembers] at h
      split_ifs at h
      · split at h
        · rename_i name dec htoken
          dsimp only at h
          split at h
          · cases h
          · rename_i value b'' hparse
            obtain ⟨hnumber, hname⟩ := hvalue hparse
            obtain ⟨hnumbers, hnames⟩ := hmembers h
            constructor
            · intro hvalid hall
              obtain ⟨hn, hdec⟩ := hnumber (hvalid.next htoken).1
              refine hnumbers hdec (forall_mem_append.2 ⟨hall, ?_⟩)
              simpa using hn
            · intro hnone
              obtain ⟨hb'', hn⟩ := hnames hnone
              obtain ⟨hb, hdistinct⟩ := hname hb''
              -- a name that was seen would have left a duplicate
              have hfresh : name ∉ seen := fun hseen => by simp [hseen] at hb
              rw [if_neg hfresh] at hb
              refine ⟨hb, fun hnodup hall => hn ?_ fun member hmember => ?_⟩
              · rw [map_append, nodup_append]
                refine ⟨hnodup, by simp, ?_⟩
                rintro other hother _ hname rfl
                obtain ⟨member, hmember, rfl⟩ := mem_map.1 hother
                rw [map_cons, map_nil, mem_singleton] at hname
                exact hfresh (show (name, value).1 ∈ seen from hname ▸ (hall member hmember).1)
              · rcases mem_append.1 hmember with hmember | hmember
                · exact ⟨mem_cons_of_mem _ (hall member hmember).1, (hall member hmember).2⟩
                · rw [mem_singleton.1 hmember]
                  exact ⟨mem_cons_self, hdistinct⟩
        · cases h
        · cases h
      · split at h
        · rename_i htoken
          cases h
          exact ⟨fun hvalid hall => ⟨.object hall, (hvalid.next htoken).1⟩, fun hnone => ⟨hnone, fun hnodup hall =>
            .object hnodup fun member hmember => (hall member hmember).2⟩⟩
        · cases h
        · cases h
    · intro b b' path depth bound index elements n h
      rw [parseElements] at h
      split_ifs at h
      · split at h
        · cases h
        · rename_i value b'' hparse
          obtain ⟨hnumber, hname⟩ := hvalue hparse
          obtain ⟨hnumbers, hnames⟩ := helements h
          constructor
          · intro hvalid hall
            obtain ⟨hn, hdec⟩ := hnumber hvalid
            refine hnumbers hdec (forall_mem_append.2 ⟨hall, ?_⟩)
            simpa using hn
          · intro hnone
            obtain ⟨hb'', hn⟩ := hnames hnone
            obtain ⟨hb, hdistinct⟩ := hname hb''
            refine ⟨hb, fun hall => hn (forall_mem_append.2 ⟨hall, ?_⟩)⟩
            simpa using hdistinct
      · split at h
        · rename_i htoken
          cases h
          exact ⟨fun hvalid hall => ⟨.array hall, (hvalid.next htoken).1⟩, fun hnone => ⟨hnone, .array⟩⟩
        · cases h
        · cases h

theorem selectDuplicateError_eq_none {candidates : List Error} :
    selectDuplicateError candidates = none ↔ candidates = [] := by
  rw [selectDuplicateError_eq]
  cases candidates <;> simp [Selection.least]

theorem parse_ok {source : Source} {src : List UInt8} {n : Node} (h : Parse source src = .ok n) :
    source.utf8Valid src = true ∧ ∃ b, parseValue (2 * (source.lexemes src).length + 2)
      ⟨.new (source.lexemes src), []⟩ "" 1 0 = (.ok n, b) ∧ b.duplicates = [] := by
  have hparse : Parse source src = if source.utf8Valid src then build (source.lexemes src) 0
      else .error ⟨.invalidUTF8, "", 0⟩ := rfl
  rw [hparse] at h
  split_ifs at h with hutf8
  · refine ⟨hutf8, ?_⟩
    unfold build at h
    split at h
    · cases h
    · rename_i m b hbuilt
      unfold finish at h
      split at h
      · cases h
      · split at h
        · cases h
        · rename_i hnone
          cases h
          exact ⟨b, hbuilt, selectDuplicateError_eq_none.1 hnone⟩

theorem parse_distinct {source : Source} {src : List UInt8} {n : Node}
    (h : Parse source src = .ok n) : n.Distinct := by
  obtain ⟨-, b, hbuilt, hnone⟩ := parse_ok h
  exact (((build_spec _).1 hbuilt).2 hnone).2

end StrictJson

namespace SchemaGuard

open StrictJson (Node Parse Source)

/-- Errors in the order of `selectGuardError`. -/
def guardKey (e : Error) : List Char ×ₗ (ℕ ×ₗ List Char) :=
  toLex (e.jsonPointer.toList, toLex (guardRuleRank e.code, e.detail.toList))

theorem guardKey_lt {e f : Error} : guardKey e < guardKey f ↔ e.jsonPointer < f.jsonPointer ∨
    e.jsonPointer = f.jsonPointer ∧ guardRuleRank e.code < guardRuleRank f.code ∨
      e.jsonPointer = f.jsonPointer ∧ guardRuleRank e.code = guardRuleRank f.code ∧
        e.detail < f.detail := by
  unfold guardKey
  rw [Prod.Lex.toLex_lt_toLex, Prod.Lex.toLex_lt_toLex, ← String.lt_iff_toList_lt,
    ← String.lt_iff_toList_lt, String.toList_inj]
  tauto

theorem selectGuardError_eq (candidates : List Error) :
    selectGuardError candidates = Selection.least guardKey candidates := by
  induction candidates using reverseRecOn with
  | nil => rfl
  | append_singleton candidates e ih =>
    unfold selectGuardError at ih ⊢
    rw [foldl_append, ih, Selection.least_append_singleton, foldl_cons, foldl_nil]
    rcases Selection.least guardKey candidates with _ | best
    · rfl
    · simp only [Selection.better, guardKey_lt]
      split_ifs <;> rfl

theorem selectGuardError_eq_none {candidates : List Error} :
    selectGuardError candidates = none ↔ candidates = [] := by
  rw [selectGuardError_eq]
  cases candidates <;> simp [Selection.least]

section Admission

variable {Digest : Type} {source : Source} {quote : String → String}
  {sum256 : List UInt8 → Digest} {schema : List UInt8} {root : Node}

theorem checkerErrors_eq_nil :
    checkerErrors quote root = [] ↔ ∃ m c, Checker.run quote root = .ok (m, c) := by
  unfold checkerErrors
  rcases Checker.run quote root with e | ⟨m, c⟩ <;> simp

theorem checkerErrors_of_profile (hdistinct : root.Distinct) (h : Profile root) :
    checkerErrors quote root = [] := by
  obtain ⟨m, c, hrun, -⟩ := (profile_iff_run hdistinct).1 h
  exact checkerErrors_eq_nil.2 ⟨m, c, hrun⟩

theorem guard_eq_ok {admission : Admission Digest} :
    Guard source quote sum256 schema = .ok admission ↔
      admission = ⟨schema, sum256 schema⟩ ∧
        ∃ root, Parse source schema = .ok root ∧ Profile root := by
  unfold Guard
  rcases hparse : Parse source schema with e | root
  · exact iff_of_false (fun h => by cases h) fun h => by
      obtain ⟨-, root, hroot, -⟩ := h
      cases hroot
  · have hdistinct := StrictJson.parse_distinct hparse
    dsimp only
    rcases hselect : selectGuardError (collectDiagnostics quote root ++ checkerErrors quote root)
      with _ | e
    · have hnil := selectGuardError_eq_none.1 hselect
      have hprofile := (collectDiagnostics_eq_nil hdistinct).1 (append_eq_nil_iff.1 hnil).1
      exact ⟨fun h => ⟨(Except.ok.inj h).symm, root, rfl, hprofile⟩, fun h => by rw [h.1]⟩
    · refine iff_of_false (fun h => by cases h) fun h => ?_
      obtain ⟨-, other, hother, hprofile⟩ := h
      cases hother
      have hnil : collectDiagnostics quote root ++ checkerErrors quote root = [] :=
        append_eq_nil_iff.2 ⟨(collectDiagnostics_eq_nil hdistinct).2 hprofile,
          checkerErrors_of_profile hdistinct hprofile⟩
      rw [selectGuardError_eq_none.2 hnil] at hselect
      cases hselect

/-- The memoised and capped metrics of the graph decide the limits as expanding every reference does,
those of each node that is remembered and those of the document. -/
structure MetricsDecide (root : Node) : Prop where
  memo : ∀ entry ∈ (graphWalk root).2.memo, ∃ isRoot schema,
    Expands (definitions root) isRoot entry.1.2 schema ∧ entry.2.height = schema.depth ∧
      (entry.2.properties ≤ maxTotalProperties ↔ schema.properties ≤ maxTotalProperties)
  limits : ∀ schema, Expands (definitions root) true root schema → (graphWalk root).1.2 = true ∧
    (limitErrors (graphWalk root).1.1 = [] ↔
      schema.properties ≤ maxTotalProperties ∧ schema.depth ≤ maxDepth)

theorem metrics_decide (hroot : WellFormed (definitions root) true root)
    (hdefs : ∀ definition ∈ definitions root, WellFormed (definitions root) false definition.2) :
    MetricsDecide root := by
  have hwalked := graphWalk_walked hroot hdefs
  refine ⟨fun entry hentry => ?_, fun schema hschema => ?_⟩
  · obtain ⟨⟨isRoot, schema, hschema, hm⟩, -⟩ := hwalked.inv entry hentry
    exact ⟨isRoot, schema, hschema, hm.height, le_limit_of_cap hm.properties⟩
  · rcases hok : (graphWalk root).1.2 with _ | _
    · exact absurd ⟨schema, hschema⟩ (hwalked.cyclic hok).1
    · have hm := (hwalked.acyclic hok).2.1 schema hschema
      rw [limitErrors, append_eq_nil_iff, addIf_eq_nil, addIf_eq_nil, not_lt, not_lt,
        le_limit_of_cap hm.properties, hm.height]
      exact ⟨rfl, Iff.rfl⟩

/-- The guard admits just the documents in the profile, and the metrics by which it keeps the limits
decide them as the expansion of the document does. -/
theorem guard_admits (source : Source) (quote : String → String) (sum256 : List UInt8 → Digest)
    (schema : List UInt8) :
    ((∃ admission, Guard source quote sum256 schema = .ok admission) ↔
      ∃ root, Parse source schema = .ok root ∧ Profile root) ∧
    ∀ root, WellFormed (definitions root) true root →
      (∀ definition ∈ definitions root, WellFormed (definitions root) false definition.2) →
        MetricsDecide root := by
  refine ⟨⟨?_, fun h => ⟨⟨schema, sum256 schema⟩, guard_eq_ok.2 ⟨rfl, h⟩⟩⟩, fun root => metrics_decide⟩
  rintro ⟨admission, h⟩
  exact (guard_eq_ok.1 h).2

/-- The collectors report something where the checker rejects, and besides where what it accepts is
too large or leaves a definition unreached. -/
theorem collectDiagnostics_iff_run (source : Source) (quote : String → String) (src : List UInt8)
    (root : Node) (hparse : Parse source src = .ok root) :
    collectDiagnostics quote root ≠ [] ↔
      (∃ e, Checker.run quote root = .error e) ∨
      ∃ m c, Checker.run quote root = .ok (m, c) ∧ (maxTotalProperties < m.properties ∨
        maxDepth < m.height ∨ ∃ definition ∈ definitions root, definition.1 ∉ c.reached) := by
  have hdistinct := StrictJson.parse_distinct hparse
  have hprofile : Profile root ↔ ∃ m c, Checker.run quote root = .ok (m, c) ∧
      m.properties ≤ maxTotalProperties ∧ m.height ≤ maxDepth ∧
        ∀ definition ∈ definitions root, definition.1 ∈ c.reached := profile_iff_run hdistinct
  rw [ne_eq, collectDiagnostics_eq_nil hdistinct, hprofile]
  rcases hrun : Checker.run quote root with e | ⟨m, c⟩
  · simp
  · simp only [reduceCtorEq, exists_false, false_or, Except.ok.injEq, Prod.mk.injEq]
    constructor
    · intro h
      refine ⟨m, c, ⟨rfl, rfl⟩, ?_⟩
      by_contra hnot
      push Not at hnot
      exact h ⟨m, c, ⟨rfl, rfl⟩, hnot⟩
    · rintro ⟨_, _, ⟨rfl, rfl⟩, hreports⟩ ⟨_, _, ⟨rfl, rfl⟩, hproperties, hdepth, hall⟩
      rcases hreports with h | h | ⟨definition, hmem, h⟩
      · omega
      · omega
      · exact h (hall definition hmem)

/-- A document with a definition that nothing refers to. -/
def unusedDocument : Node :=
  .object [("$schema", .string draft202012URI), ("type", .string "object"),
    ("properties", .object []), ("required", .array []), ("additionalProperties", .bool false),
    ("$defs", .object [("Unused", .object [("type", .string "string")])])]

def unusedBytes : List UInt8 :=
  asciiBytes ("\x7b\"$schema\":\"https://json-schema.org/draft/2020-12/schema\",\"type\":\"object\"," ++
    "\"properties\":\x7b\x7d,\"required\":[],\"additionalProperties\":false," ++
    "\"$defs\":\x7b\"Unused\":\x7b\"type\":\"string\"\x7d\x7d\x7d")

/-- The lexemes of `unusedBytes`. -/
def unusedSource : Source where
  utf8Valid _ := true
  lexemes src := if src = unusedBytes then
    [(.token (.delim .openObject), 1), (.token (.string "$schema"), 10), (.colon, 11),
      (.token (.string "https://json-schema.org/draft/2020-12/schema"), 57), (.comma, 58),
      (.token (.string "type"), 64), (.colon, 65), (.token (.string "object"), 73), (.comma, 74),
      (.token (.string "properties"), 86), (.colon, 87), (.token (.delim .openObject), 88),
      (.token (.delim .closeObject), 89), (.comma, 90), (.token (.string "required"), 100),
      (.colon, 101), (.token (.delim .openArray), 102), (.token (.delim .closeArray), 103),
      (.comma, 104), (.token (.string "additionalProperties"), 126), (.colon, 127),
      (.token (.bool false), 132), (.comma, 133), (.token (.string "$defs"), 140), (.colon, 141),
      (.token (.delim .openObject), 142), (.token (.string "Unused"), 150), (.colon, 151),
      (.token (.delim .openObject), 152), (.token (.string "type"), 158), (.colon, 159),
      (.token (.string "string"), 167), (.token (.delim .closeObject), 168),
      (.token (.delim .closeObject), 169), (.token (.delim .closeObject), 170)]
    else []

/-- `strconv.Quote` on names of letters and digits. -/
def quoteName (name : String) : String := "\"" ++ name ++ "\""

theorem unused_checked : Parse unusedSource unusedBytes = .ok unusedDocument ∧
    (Checker.run quoteName unusedDocument).toBool = true ∧ collectDiagnostics quoteName unusedDocument ≠ [] := by
  decide +kernel

theorem collectDiagnostics_iff_run_unused : ∃ m c,
    Checker.run quoteName unusedDocument = .ok (m, c) ∧ (maxTotalProperties < m.properties ∨
      maxDepth < m.height ∨ ∃ definition ∈ definitions unusedDocument, definition.1 ∉ c.reached) := by
  obtain ⟨hparse, hok, hreports⟩ := unused_checked
  rcases (collectDiagnostics_iff_run unusedSource quoteName unusedBytes unusedDocument
    hparse).1 hreports with ⟨e, herror⟩ | haccepts
  · rw [herror] at hok
    cases hok
  · exact haccepts

/-- The checker accepts what the graph collector reports as unreachable. -/
theorem checker_accepts_unused : Parse unusedSource unusedBytes = .ok unusedDocument ∧
    (∃ m c, Checker.run quoteName unusedDocument = .ok (m, c)) ∧
      collectDiagnostics quoteName unusedDocument ≠ [] := by
  obtain ⟨hparse, hok, hreports⟩ := unused_checked
  refine ⟨hparse, ?_, hreports⟩
  rcases hrun : Checker.run quoteName unusedDocument with e | ⟨m, c⟩
  · rw [hrun] at hok
    cases hok
  · exact ⟨m, c, rfl⟩

end Admission

end SchemaGuard

end AiOrg
