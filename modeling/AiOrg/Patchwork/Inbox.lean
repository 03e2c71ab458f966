import Mathlib.Data.List.AList
import AiOrg.Proofs.Slug
import AiOrg.Python.Base64

/-!
# The inbox

Requests are files of a directory, each under an id that no file had when the submit looked. A pull reads one of
them, moves it to the processed ones after the intake, and writes the result beside it. Any number of submits and
pulls take these steps in any order.
-/

namespace AiOrg

open List

namespace Patchwork

open Approach (dashes stripDashes)

/-- `submit._slug`. -/
def _slug (py : PyLib) (value : String) : String :=
  let slug := stripDashes ((stripDashes (dashes false (py.lower (pyStrip value)).toList)).take 64)
  if slug = [] then "request" else String.ofList slug

/-- `f"{slug}-{index}"`. -/
def numbered (slug : String) (index : ℕ) : String := slug ++ "-" ++ toString index

/-- `_next_id`: one of as many numbers as there are ids, and one more, is free. -/
def _next_id (existing : List String) (slug : String) : String :=
  if slug ∉ existing then slug
  else match (List.range (existing.length + 1)).find? fun i => numbered slug (i + 2) ∉ existing with
    | some i => numbered slug (i + 2)
    | none => slug

/-- `text.removesuffix(suffix)`. -/
def removesuffix (suffix text : String) : String :=
  if suffix.toList <:+ text.toList then String.ofList (text.toList.take (text.length - suffix.length)) else text

def resultSuffix : String := ".result"

structure Envelope (ρ : Type) where
  id : String
  request : ρ
  deriving DecidableEq

/-- Where a submit or a pull is. A submit keeps how many envelopes were written when it began to look for an id. -/
inductive Task (ρ : Type) where
  | idle
  | scanned (request : ρ) (stems : List String) (seen : ℕ)
  | chosen (request : ρ) (id : String) (seen : ℕ)
  | listed (stem : String)
  | taken (stem id : String)
  | moved (id : String)

/-- The files by their names without `.json`, the results that were written and the ids that were returned with
their requests, newest first, and the tasks. -/
structure Inbox (π ρ : Type) where
  inbox : AList fun _ : String => Envelope ρ
  processed : AList fun _ : String => Envelope ρ
  results : List String
  returned : List (String × ρ)
  task : π → Task ρ

inductive Operation (π ρ : Type) where
  | submit (p : π) (request : ρ)
  | scanProcessed (p : π)
  | write (p : π)
  | list (p : π) (stem : String)
  | read (p : π)
  | move (p : π)
  | record (p : π)
  | fail (p : π)

section Inbox

variable {π ρ : Type} [DecidableEq π]

def Inbox.setTask (s : Inbox π ρ) (p : π) (task : Task ρ) : Inbox π ρ :=
  { s with task := Function.update s.task p task }

/-- The names in the directory of the processed requests. -/
def Inbox.processedStems (s : Inbox π ρ) : List String := s.processed.keys ++ s.results.map (· ++ resultSuffix)

/-- The envelope under its id, which `submit` then returns. -/
def Inbox.written (s : Inbox π ρ) (p : π) (request : ρ) (id : String) : Inbox π ρ :=
  { (s.setTask p .idle) with
    inbox := s.inbox.insert id ⟨id, request⟩
    returned := (id, request) :: s.returned }

/-- `shutil.move` to the name of the envelope's id, which raises if the file is gone. -/
def Inbox.fileMoved (s : Inbox π ρ) (p : π) (stem id : String) : Inbox π ρ :=
  match s.inbox.lookup stem with
  | some envelope =>
    { (s.setTask p (.moved id)) with
      inbox := s.inbox.erase stem
      processed := s.processed.insert id envelope }
  | none => s.setTask p .idle

variable (py : PyLib) (raw_request : ρ → String)

/-- An operation that is not possible leaves the state as it is. -/
def Inbox.step (s : Inbox π ρ) : Operation π ρ → Inbox π ρ
  | .submit p request =>
    match s.task p with
    | .idle => s.setTask p (.scanned request s.inbox.keys s.returned.length)
    | _ => s
  | .scanProcessed p =>
    match s.task p with
    | .scanned request stems seen =>
      let existing := (stems ++ s.processedStems).map (removesuffix resultSuffix)
      s.setTask p (.chosen request (_next_id existing (_slug py (raw_request request))) seen)
    | _ => s
  | .write p =>
    match s.task p with
    | .chosen request id _ => s.written p request id
    | _ => s
  | .list p stem =>
    match s.task p with
    | .idle =>
      if stem ∈ s.inbox ∧ ¬ resultSuffix.toList <:+ stem.toList then s.setTask p (.listed stem) else s
    | _ => s
  | .read p =>
    match s.task p with
    | .listed stem =>
      match s.inbox.lookup stem with
      | some envelope => s.setTask p (.taken stem (if envelope.id = "" then stem else envelope.id))
      | none => s.setTask p .idle
    | _ => s
  | .move p =>
    match s.task p with
    | .taken stem id => s.fileMoved p stem id
    | _ => s
  | .record p =>
    match s.task p with
    | .moved id => { (s.setTask p .idle) with results := id :: s.results }
    | _ => s
  | .fail p => s.setTask p .idle

def Inbox.run (s : Inbox π ρ) (operations : List (Operation π ρ)) : Inbox π ρ :=
  operations.foldl (Inbox.step py raw_request) s

end Inbox

end Patchwork

end AiOrg

/-!
## Requests are kept

An id that a submit has chosen is not one of the envelopes that were written before it began to look, wherever the
pulls have put these since. If no other submit writes the same id in between, every request keeps its envelope, and
every processed one has one result when no pull stands between the two writes (`requests_kept`).
-/

namespace AiOrg

open List

namespace Patchwork

open Approach (dashes stripDashes isSlugChar mem_dashes mem_of_mem_stripDashes)

theorem numbered_injective (slug : String) : Function.Injective (numbered slug) := by
  intro i j h
  have hchars := congrArg String.toList h
  simp only [numbered, String.toList_append, append_cancel_left_eq] at hchars
  exact Nat.repr_inj.1 (String.toList_injective hchars)

theorem exists_free (existing : List String) (slug : String) :
    ∃ i ∈ List.range (existing.length + 1), numbered slug (i + 2) ∉ existing := by
  by_contra hnone
  push Not at hnone
  have hnodup : ((List.range (existing.length + 1)).map fun i => numbered slug (i + 2)).Nodup :=
    nodup_range.map fun i j hij => by simpa using numbered_injective slug hij
  have hsubset : ((List.range (existing.length + 1)).map fun i => numbered slug (i + 2)) ⊆ existing := by
    intro name hname
    obtain ⟨i, hi, rfl⟩ := mem_map.1 hname
    exact hnone i hi
  have hlength := (hnodup.subperm hsubset).length_le
  rw [length_map, length_range] at hlength
  omega

theorem _next_id_fresh (existing : List String) (slug : String) : _next_id existing slug ∉ existing := by
  rw [_next_id]
  split_ifs with hslug
  · cases hfound : (List.range (existing.length + 1)).find? fun i => numbered slug (i + 2) ∉ existing with
    | some i => simpa using find?_some hfound
    | none =>
      obtain ⟨i, hi, hfree⟩ := exists_free existing slug
      exact absurd (find?_eq_none.1 hfound i hi) (by simpa using hfree)
  · exact hslug

theorem _next_id_cases (existing : List String) (slug : String) :
    _next_id existing slug = slug ∨ ∃ i, _next_id existing slug = numbered slug i := by
  rw [_next_id]
  split_ifs
  · split
    · exact .inr ⟨_, rfl⟩
    · exact .inl rfl
  · exact .inl rfl

theorem dot_notMem_slug (py : PyLib) (value : String) : '.' ∉ (_slug py value).toList := by
  intro hdot
  rw [_slug] at hdot
  split_ifs at hdot with hempty
  · revert hdot
    decide +kernel
  · rw [String.toList_ofList] at hdot
    rcases mem_dashes (mem_of_mem_stripDashes (mem_of_mem_take (mem_of_mem_stripDashes hdot))) with h | h
    · revert h
      decide
    · revert h
      decide

theorem dot_notMem_next_id (py : PyLib) (existing : List String) (value : String) :
    '.' ∉ (_next_id existing (_slug py value)).toList := by
  rcases _next_id_cases existing (_slug py value) with h | ⟨i, h⟩
  · rw [h]
    exact dot_notMem_slug py value
  · rw [h, numbered, String.toList_append, String.toList_append, mem_append, mem_append]
    rintro ((hdot | hdot) | hdot)
    · exact dot_notMem_slug py value hdot
    · revert hdot
      decide
    · have := Text.isDigit_of_mem_toString hdot
      revert this
      decide

theorem removesuffix_of_dot_notMem {id : String} (h : '.' ∉ id.toList) : removesuffix resultSuffix id = id := by
  rw [removesuffix, if_neg]
  intro hsuffix
  exact h (hsuffix.subset (by decide))

variable {π ρ : Type} [DecidableEq π] {s : Inbox π ρ} {o : Operation π ρ} {py : PyLib} {raw_request : ρ → String}

/-- The ids that were written since `seen` ones were. -/
def Inbox.since (s : Inbox π ρ) (seen : ℕ) : List (String × ρ) := s.returned.take (s.returned.length - seen)

/-- The first `seen` ids that were written. -/
def Inbox.before (s : Inbox π ρ) (seen : ℕ) : List (String × ρ) := s.returned.drop (s.returned.length - seen)

/-- An inbox that nothing was submitted to yet. -/
structure Inbox.Initial (s : Inbox π ρ) : Prop where
  inbox : s.inbox = ∅
  processed : s.processed = ∅
  results : s.results = []
  returned : s.returned = []
  idle : ∀ p, s.task p = .idle

/-- A submit writes an id that no other one has written since it began to look, and a pull that has moved a file
does not fail. -/
structure Calm (s : Inbox π ρ) (o : Operation π ρ) : Prop where
  write : ∀ p request id seen, o = .write p → s.task p = .chosen request id seen →
    id ∉ (s.since seen).map Prod.fst
  fail : ∀ p id, o = .fail p → s.task p ≠ .moved id

def CalmRun (py : PyLib) (raw_request : ρ → String) (s : Inbox π ρ) : List (Operation π ρ) → Prop
  | [] => True
  | o :: operations => Calm s o ∧ CalmRun py raw_request (s.step py raw_request o) operations

def TaskOk (s : Inbox π ρ) : Task ρ → Prop
  | .scanned _ stems seen =>
    seen ≤ s.returned.length ∧ ∀ entry ∈ s.before seen, entry.1 ∈ stems ∨ entry.1 ∈ s.processed
  | .chosen _ id seen => seen ≤ s.returned.length ∧ ∀ entry ∈ s.before seen, entry.1 ≠ id
  | .taken stem id => id = stem
  | .moved id => id ∈ s.processed ∧ id ∉ s.results
  | _ => True

omit [DecidableEq π] in
theorem TaskOk.mono {s' : Inbox π ρ} {task : Task ρ} (h : TaskOk s task)
    (hlength : s.returned.length ≤ s'.returned.length)
    (hbefore : ∀ seen ≤ s.returned.length, s'.before seen = s.before seen)
    (hprocessed : ∀ id ∈ s.processed, id ∈ s'.processed)
    (hresults : ∀ id, task = .moved id → id ∉ s.results → id ∉ s'.results) : TaskOk s' task := by
  cases task with
  | scanned request stems seen =>
    refine ⟨h.1.trans hlength, fun entry hentry => ?_⟩
    rw [hbefore seen h.1] at hentry
    exact (h.2 entry hentry).imp_right (hprocessed entry.1)
  | chosen request id seen =>
    refine ⟨h.1.trans hlength, fun entry hentry => ?_⟩
    rw [hbefore seen h.1] at hentry
    exact h.2 entry hentry
  | taken stem id => exact h
  | moved id => exact ⟨hprocessed id h.1, hresults id rfl h.2⟩
  | idle => trivial
  | listed stem => trivial

structure Inv (s : Inbox π ρ) : Prop where
  distinct : (s.returned.map Prod.fst).Nodup
  kept : ∀ entry ∈ s.returned, s.inbox.lookup entry.1 = some ⟨entry.1, entry.2⟩ ∨
    s.processed.lookup entry.1 = some ⟨entry.1, entry.2⟩
  inbox_own : ∀ stem envelope, s.inbox.lookup stem = some envelope →
    envelope.id = stem ∧ stem ∈ s.returned.map Prod.fst ∧ stem ∉ s.processed
  processed_own : ∀ id ∈ s.processed, id ∈ s.returned.map Prod.fst
  tasks : ∀ p, TaskOk s (s.task p)
  unrecorded : ∀ id ∈ s.results, id ∈ s.processed
  once : s.results.Nodup
  recorded : ∀ id ∈ s.processed, id ∈ s.results ∨ ∃ p, s.task p = .moved id
  movers : ∀ p q id, s.task p = .moved id → s.task q = .moved id → p = q

theorem setTask_self (s : Inbox π ρ) (p : π) (task : Task ρ) : (s.setTask p task).task p = task :=
  Function.update_self ..

theorem setTask_of_ne (s : Inbox π ρ) {p q : π} (task : Task ρ) (h : q ≠ p) :
    (s.setTask p task).task q = s.task q := Function.update_of_ne h ..

theorem Inv.setTask (h : Inv s) {p : π} {task : Task ρ} (hok : TaskOk s task) (hnew : ∀ id, task ≠ .moved id)
    (hold : ∀ id, s.task p ≠ .moved id) : Inv (s.setTask p task) := by
  refine ⟨h.distinct, h.kept, h.inbox_own, h.processed_own, fun q => ?_, h.unrecorded, h.once, fun id hid => ?_,
    fun q r id hq hr => ?_⟩
  · by_cases hq : q = p
    · subst hq
      rw [setTask_self]
      exact hok
    · rw [setTask_of_ne s task hq]
      exact h.tasks q
  · refine (h.recorded id hid).imp_right fun ⟨q, hq⟩ => ⟨q, ?_⟩
    have hne : q ≠ p := by
      rintro rfl
      exact hold id hq
    rw [setTask_of_ne s task hne]
    exact hq
  · have hne : ∀ q, (s.setTask p task).task q = .moved id → q ≠ p := by
      rintro q hq rfl
      rw [setTask_self] at hq
      exact hnew id hq
    have hqp := hne q hq
    have hrp := hne r hr
    rw [setTask_of_ne s task hqp] at hq
    rw [setTask_of_ne s task hrp] at hr
    exact h.movers q r id hq hr

theorem written_before {p : π} {request : ρ} {id : String} {seen : ℕ} (h : seen ≤ s.returned.length) :
    (s.written p request id).before seen = s.before seen := by
  show ((id, request) :: s.returned).drop ((s.returned.length + 1) - seen) = _
  rw [Nat.sub_add_comm h, drop_succ_cons]
  rfl

omit [DecidableEq π] in
theorem mem_since_or_before (s : Inbox π ρ) (seen : ℕ) {entry : String × ρ} (h : entry ∈ s.returned) :
    entry ∈ s.since seen ∨ entry ∈ s.before seen := by
  rw [← mem_append, Inbox.since, Inbox.before, take_append_drop]
  exact h

theorem Inv.written (h : Inv s) {p : π} {request : ρ} {id : String} {seen : ℕ}
    (htask : s.task p = .chosen request id seen) (hcalm : id ∉ (s.since seen).map Prod.fst) :
    Inv (s.written p request id) := by
  have hok : TaskOk s (.chosen request id seen) := htask ▸ h.tasks p
  have hfresh : id ∉ s.returned.map Prod.fst := by
    intro hmem
    obtain ⟨entry, hentry, rfl⟩ := mem_map.1 hmem
    rcases mem_since_or_before s seen hentry with hsince | hbefore
    · exact hcalm (mem_map_of_mem hsince)
    · exact hok.2 entry hbefore rfl
  have hprocessed : id ∉ s.processed := fun hid => hfresh (h.processed_own id hid)
  have hidle : Inv (s.setTask p .idle) :=
    h.setTask trivial (fun _ heq => by cases heq) fun other heq => by rw [htask] at heq; cases heq
  refine ⟨nodup_cons.2 ⟨hfresh, h.distinct⟩, ?_, ?_, ?_, fun q => ?_, h.unrecorded, h.once, hidle.recorded,
    hidle.movers⟩
  · refine forall_mem_cons.2 ⟨.inl (AList.lookup_insert _), fun entry hentry => ?_⟩
    have hne : entry.1 ≠ id := fun heq => hfresh (heq ▸ mem_map_of_mem hentry)
    exact (h.kept entry hentry).imp_left fun hlookup => (AList.lookup_insert_ne hne).trans hlookup
  · intro stem envelope hlookup
    by_cases hstem : stem = id
    · subst hstem
      obtain rfl := Option.some.inj ((AList.lookup_insert _).symm.trans hlookup)
      exact ⟨rfl, mem_cons_self, hprocessed⟩
    · obtain ⟨hid, hmem, hnot⟩ := h.inbox_own stem envelope ((AList.lookup_insert_ne hstem).symm.trans hlookup)
      exact ⟨hid, mem_cons_of_mem _ hmem, hnot⟩
  · exact fun other hother => mem_cons_of_mem _ (h.processed_own other hother)
  · exact (hidle.tasks q).mono (Nat.le_succ _) (fun seen hseen => written_before hseen) (fun _ hin => hin)
      fun _ _ hin => hin

theorem Inv.fileMoved (h : Inv s) {p : π} {stem id : String} (htask : s.task p = .taken stem id) :
    Inv (s.fileMoved p stem id) := by
  have hstem : id = stem := by simpa [TaskOk, htask] using h.tasks p
  subst hstem
  rw [Inbox.fileMoved]
  cases hlookup : s.inbox.lookup id with
  | none =>
    exact h.setTask trivial (fun _ heq => by cases heq) fun other heq => by rw [htask] at heq; cases heq
  | some envelope =>
    obtain ⟨hid, hreturned, hnot⟩ := h.inbox_own id envelope hlookup
    have hunrecorded : id ∉ s.results := fun hmem => hnot (h.unrecorded id hmem)
    have hself : ∀ q, (s.setTask p (.moved id)).task q = .moved id ↔ q = p := by
      intro q
      by_cases hq : q = p
      · simp [hq, setTask_self]
      · rw [setTask_of_ne s _ hq]
        refine iff_of_false (fun hmoved => hnot ?_) hq
        have hok := h.tasks q
        rw [hmoved] at hok
        exact hok.1
    have hother : ∀ q other, other ≠ id → ((s.setTask p (.moved id)).task q = .moved other ↔
        s.task q = .moved other) := by
      intro q other hne
      by_cases hq : q = p
      · subst hq
        rw [setTask_self, htask]
        simp [Ne.symm hne]
      · rw [setTask_of_ne s _ hq]
    refine ⟨h.distinct, ?_, ?_, ?_, fun q => ?_, ?_, h.once, ?_, ?_⟩
    · intro entry hentry
      by_cases hentryId : entry.1 = id
      · refine .inr ?_
        rcases h.kept entry hentry with hkept | hkept
        · rw [hentryId] at hkept ⊢
          exact (AList.lookup_insert _).trans (hlookup.symm.trans hkept)
        · rw [hentryId] at hkept
          exact absurd (AList.lookup_isSome.1 (by rw [hkept]; rfl)) hnot
      · exact (h.kept entry hentry).imp ((AList.lookup_erase_ne hentryId).trans ·)
          ((AList.lookup_insert_ne hentryId).trans ·)
    · intro stem other hstem
      have hne : stem ≠ id := by
        rintro rfl
        rw [AList.lookup_erase] at hstem
        cases hstem
      obtain ⟨hsame, hmem, hfree⟩ := h.inbox_own stem other ((AList.lookup_erase_ne hne).symm.trans hstem)
      exact ⟨hsame, hmem, fun hin => ((AList.mem_insert _).1 hin).elim hne hfree⟩
    · intro other hin
      rcases (AList.mem_insert _).1 hin with rfl | hin
      · exact hreturned
      · exact h.processed_own other hin
    · show TaskOk _ ((s.setTask p (.moved id)).task q)
      by_cases hq : q = p
      · subst hq
        rw [setTask_self]
        exact ⟨(AList.mem_insert _).2 (.inl rfl), hunrecorded⟩
      · rw [setTask_of_ne s _ hq]
        exact (h.tasks q).mono le_rfl (fun _ _ => rfl) (fun other hin => (AList.mem_insert _).2 (.inr hin))
          fun _ _ hin => hin
    · exact fun other hin => (AList.mem_insert _).2 (.inr (h.unrecorded other hin))
    · intro other hin
      by_cases hne : other = id
      · exact .inr ⟨p, by rw [hne]; exact (hself p).2 rfl⟩
      · have hold := ((AList.mem_insert _).1 hin).resolve_left hne
        exact (h.recorded other hold).imp_right fun ⟨q, hq⟩ => ⟨q, (hother q other hne).2 hq⟩
    · intro q r other hq hr
      by_cases hne : other = id
      · rw [hne] at hq hr
        exact ((hself q).1 hq).trans ((hself r).1 hr).symm
      · exact h.movers q r other ((hother q other hne).1 hq) ((hother r other hne).1 hr)

theorem Inv.result (h : Inv s) {p : π} {id : String} (htask : s.task p = .moved id) :
    Inv { (s.setTask p .idle) with results := id :: s.results } := by
  have hok : TaskOk s (.moved id) := htask ▸ h.tasks p
  have hmoved : ∀ q other, (s.setTask p .idle).task q = .moved other ↔ q ≠ p ∧ s.task q = .moved other := by
    intro q other
    by_cases hq : q = p
    · subst hq
      simp [setTask_self]
    · simp [setTask_of_ne s _ hq, hq]
  refine ⟨h.distinct, h.kept, h.inbox_own, h.processed_own, fun q => ?_, ?_, nodup_cons.2 ⟨hok.2, h.once⟩, ?_,
    ?_⟩
  · show TaskOk _ ((s.setTask p .idle).task q)
    by_cases hq : q = p
    · subst hq
      rw [setTask_self]
      trivial
    · rw [setTask_of_ne s _ hq]
      refine (h.tasks q).mono le_rfl (fun _ _ => rfl) (fun _ hin => hin) fun other hother hnot hin => ?_
      rcases mem_cons.1 hin with rfl | hin
      · exact hq (h.movers q p _ hother htask)
      · exact hnot hin
  · exact forall_mem_cons.2 ⟨hok.1, h.unrecorded⟩
  · intro other hother
    by_cases hne : other = id
    · exact .inl (mem_cons.2 (.inl hne))
    · rcases h.recorded other hother with hin | ⟨q, hq⟩
      · exact .inl (mem_cons_of_mem _ hin)
      · refine .inr ⟨q, (hmoved q other).2 ⟨?_, hq⟩⟩
        rintro rfl
        rw [htask] at hq
        cases hq
        exact hne rfl
  · intro q r other hq hr
    exact h.movers q r other ((hmoved q other).1 hq).2 ((hmoved r other).1 hr).2

/-! ### Runs -/

omit [DecidableEq π] in
theorem Inv.chosen (h : Inv s) {p : π} {request : ρ} {stems : List String} {seen : ℕ}
    (htask : s.task p = .scanned request stems seen) (value : String) :
    TaskOk s (.chosen request
      (_next_id ((stems ++ s.processedStems).map (removesuffix resultSuffix)) (_slug py value)) seen) := by
  have hok : TaskOk s (.scanned request stems seen) := htask ▸ h.tasks p
  refine ⟨hok.1, fun entry hentry heq => ?_⟩
  have hsame : removesuffix resultSuffix entry.1 = entry.1 :=
    removesuffix_of_dot_notMem (heq ▸ dot_notMem_next_id py _ value)
  have hmem : entry.1 ∈ stems ++ s.processedStems := by
    rcases hok.2 entry hentry with hstem | hprocessed
    · exact mem_append_left _ hstem
    · exact mem_append_right _ (mem_append_left _ (AList.mem_keys.1 hprocessed))
  refine _next_id_fresh ((stems ++ s.processedStems).map (removesuffix resultSuffix)) (_slug py value) ?_
  rw [← heq]
  exact mem_map.2 ⟨entry.1, hmem, hsame⟩

theorem Inv.step (h : Inv s) (hcalm : Calm s o) : Inv (s.step py raw_request o) := by
  cases o with
  | submit p request =>
    cases htask : s.task p with
    | idle =>
      rw [Inbox.step, htask]
      refine h.setTask ⟨le_rfl, fun entry hentry => ?_⟩ (fun _ heq => by cases heq)
        (fun id heq => by rw [htask] at heq; cases heq)
      have hreturned : entry ∈ s.returned := mem_of_mem_drop hentry
      rcases h.kept entry hreturned with hkept | hkept
      · exact .inl (AList.mem_keys.1 (AList.lookup_isSome.1 (by rw [hkept]; rfl)))
      · exact .inr (AList.lookup_isSome.1 (by rw [hkept]; rfl))
    | _ =>
      rw [Inbox.step, htask]
      exact h
  | scanProcessed p =>
    cases htask : s.task p with
    | scanned request stems seen =>
      rw [Inbox.step, htask]
      exact h.setTask (h.chosen htask _) (fun _ heq => by cases heq) (fun id heq => by rw [htask] at heq; cases heq)
    | _ =>
      rw [Inbox.step, htask]
      exact h
  | write p =>
    cases htask : s.task p with
    | chosen request id seen =>
      rw [Inbox.step, htask]
      exact h.written htask (hcalm.write p request id seen rfl htask)
    | _ =>
      rw [Inbox.step, htask]
      exact h
  | list p stem =>
    cases htask : s.task p with
    | idle =>
      rw [Inbox.step, htask]
      dsimp only
      split_ifs
      · exact h.setTask trivial (fun _ heq => by cases heq) (fun id heq => by rw [htask] at heq; cases heq)
      · exact h
    | _ =>
      rw [Inbox.step, htask]
      exact h
  | read p =>
    cases htask : s.task p with
    | listed stem =>
      have hold : ∀ id, s.task p ≠ .moved id := fun id heq => by rw [htask] at heq; cases heq
      rw [Inbox.step, htask]
      dsimp only
      cases hlookup : s.inbox.lookup stem with
      | none => exact h.setTask trivial (fun _ heq => by cases heq) hold
      | some envelope =>
        refine h.setTask ?_ (fun _ heq => by cases heq) hold
        show (if envelope.id = "" then stem else envelope.id) = stem
        rw [(h.inbox_own stem envelope hlookup).1]
        split_ifs <;> rfl
    | _ =>
      rw [Inbox.step, htask]
      exact h
  | move p =>
    cases htask : s.task p with
    | taken stem id =>
      rw [Inbox.step, htask]
      exact h.fileMoved htask
    | _ =>
      rw [Inbox.step, htask]
      exact h
  | record p =>
    cases htask : s.task p with
    | moved id =>
      rw [Inbox.step, htask]
      exact h.result htask
    | _ =>
      rw [Inbox.step, htask]
      exact h
  | fail p => exact h.setTask trivial (fun _ heq => by cases heq) fun id => hcalm.fail p id rfl

theorem Inv.run {operations : List (Operation π ρ)} (h : Inv s) (hcalm : CalmRun py raw_request s operations) :
    Inv (s.run py raw_request operations) := by
  induction operations generalizing s with
  | nil => exact h
  | cons o operations ih => exact ih (h.step hcalm.1) hcalm.2

omit [DecidableEq π] in
theorem Inbox.Initial.inv (h : s.Initial) : Inv s := by
  have hnotInbox : ∀ id, id ∉ s.inbox := fun id => by rw [h.inbox]; exact AList.notMem_empty id
  have hnotProcessed : ∀ id, id ∉ s.processed := fun id => by rw [h.processed]; exact AList.notMem_empty id
  refine ⟨?_, ?_, fun stem envelope hlookup => ?_, fun id hid => absurd hid (hnotProcessed id), fun p => ?_, ?_, ?_,
    fun id hid => absurd hid (hnotProcessed id), fun p q id hp => ?_⟩
  · rw [h.returned]
    exact nodup_nil
  · rw [h.returned]
    exact fun entry hentry => absurd hentry not_mem_nil
  · exact absurd (AList.lookup_isSome.1 (by rw [hlookup]; rfl)) (hnotInbox stem)
  · rw [h.idle p]
    trivial
  · rw [h.results]
    exact fun id hid => absurd hid not_mem_nil
  · rw [h.results]
    exact nodup_nil
  · rw [h.idle p] at hp
    cases hp

/-- In every run whose operations are calm the ids that were returned are distinct, each has its own request in the
inbox or among the processed ones, and what was processed has one result but while a pull is about to write it. -/
theorem requests_kept (hinitial : s.Initial) {operations : List (Operation π ρ)}
    (hcalm : CalmRun py raw_request s operations) :
    ((s.run py raw_request operations).returned.map Prod.fst).Nodup ∧
    (∀ entry ∈ (s.run py raw_request operations).returned,
      (s.run py raw_request operations).inbox.lookup entry.1 = some ⟨entry.1, entry.2⟩ ∨
      (s.run py raw_request operations).processed.lookup entry.1 = some ⟨entry.1, entry.2⟩) ∧
    ∀ id ∈ (s.run py raw_request operations).processed,
      (∀ p, (s.run py raw_request operations).task p ≠ .moved id) →
      (s.run py raw_request operations).results.count id = 1 := by
  have hinv : Inv (s.run py raw_request operations) := (hinitial.inv).run hcalm
  refine ⟨hinv.distinct, hinv.kept, fun id hid hrest => ?_⟩
  have hmem : id ∈ (s.run py raw_request operations).results :=
    (hinv.recorded id hid).resolve_right fun ⟨p, hp⟩ => hrest p hp
  exact count_eq_one_of_mem hinv.once hmem

section Example

def sampleInbox : Inbox Bool String := ⟨∅, ∅, [], [], fun _ => .idle⟩

theorem sampleInbox_initial : sampleInbox.Initial := ⟨rfl, rfl, rfl, rfl, fun _ => rfl⟩

/-- Both look before one of them writes. -/
def twoSubmits : List (Operation Bool String) :=
  [.submit false "Fix it", .submit true "fix it!", .scanProcessed false, .scanProcessed true, .write false,
    .write true]

def oneSubmit : List (Operation Bool String) := [.submit false "Fix it", .scanProcessed false, .write false]

def onePull : List (Operation Bool String) := [.list true "fix-it", .read true, .move true]

/-- Both requests are returned under one id, and the first one is gone. Between the two writes of a pull a processed
request has no result. -/
theorem request_overwritten :
    sampleInbox.Initial ∧
    (sampleInbox.run asciiLib id twoSubmits).returned = [("fix-it", "fix it!"), ("fix-it", "Fix it")] ∧
    (sampleInbox.run asciiLib id twoSubmits).inbox.lookup "fix-it" = some ⟨"fix-it", "fix it!"⟩ ∧
    (sampleInbox.run asciiLib id twoSubmits).processed.lookup "fix-it" = none ∧
    (sampleInbox.run asciiLib id (oneSubmit ++ onePull)).processed.lookup "fix-it" = some ⟨"fix-it", "Fix it"⟩ ∧
    (sampleInbox.run asciiLib id (oneSubmit ++ onePull)).results.count "fix-it" = 0 :=
  ⟨sampleInbox_initial, by decide +kernel, by decide +kernel, by decide +kernel, by decide +kernel,
    by decide +kernel⟩

omit [DecidableEq π] in
theorem calm_first_write {p : π} (h : s.returned = []) : Calm s (.write p) := by
  refine ⟨fun q request id seen _ _ => ?_, fun q id heq => by cases heq⟩
  rw [Inbox.since, h]
  simp

/-- One submit and one pull. -/
theorem requests_kept_single :
    (sampleInbox.run asciiLib id (oneSubmit ++ onePull ++ [.record true])).processed.lookup "fix-it" =
      some ⟨"fix-it", "Fix it"⟩ ∧
    (sampleInbox.run asciiLib id (oneSubmit ++ onePull ++ [.record true])).results.count "fix-it" = 1 := by
  have hother : ∀ (s : Inbox Bool String) (o : Operation Bool String), (∀ p, o ≠ .write p) → (∀ p, o ≠ .fail p) →
      Calm s o := fun s o hwrite hfail =>
    ⟨fun p _ _ _ heq => absurd heq (hwrite p), fun p _ heq => absurd heq (hfail p)⟩
  have hcalm : CalmRun asciiLib id sampleInbox (oneSubmit ++ onePull ++ [.record true]) :=
    ⟨hother _ _ (by simp) (by simp), hother _ _ (by simp) (by simp), calm_first_write rfl,
      hother _ _ (by simp) (by simp), hother _ _ (by simp) (by simp), hother _ _ (by simp) (by simp),
      hother _ _ (by simp) (by simp), trivial⟩
  have hprocessed : (sampleInbox.run asciiLib id (oneSubmit ++ onePull ++ [.record true])).processed.lookup
      "fix-it" = some ⟨"fix-it", "Fix it"⟩ := by decide +kernel
  refine ⟨hprocessed, (requests_kept sampleInbox_initial hcalm).2.2 "fix-it"
    (AList.lookup_isSome.1 (by rw [hprocessed]; rfl)) fun p => ?_⟩
  cases p with
  | false =>
    intro hmoved
    cases hmoved
  | true =>
    intro hmoved
    cases hmoved

end Example

end Patchwork

end AiOrg
