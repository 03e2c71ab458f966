import AiOrg.PatchAuthor.CueFrame
import AiOrg.Run.Checks

/-!
# Frames of different items

The directory of an item is that of its id with every run of soft characters as one hyphen, so items have their own
directories if and only if no two ids are alike. In their own directories items do not read what others wrote, and an
item without a frame of its own is rejected, provided that there is none to begin with (`frames_stand_alone_iff`).
-/

namespace AiOrg

open List

namespace CodeWorker

open Runs

/-- What becomes a hyphen in the name of a directory. -/
def isSoft (c : Char) : Bool := !isNameChar c || c == '-'

theorem safe_item_id_eq (item_id : String) : safe_item_id item_id = collapse isSoft '-' item_id.toList := by
  rw [safe_item_id, collapse]
  congr 2
  funext c
  by_cases hname : isNameChar c = true
  · by_cases hdash : c = '-'
    · simp [hdash, isSoft]
    · simp [hname, hdash, isSoft]
  · simp [hname, isSoft]

theorem safe_item_id_eq_iff {a b : String} :
    safe_item_id a = safe_item_id b ↔ Alike isSoft a.toList b.toList := by
  rw [safe_item_id_eq, safe_item_id_eq, collapse_eq_iff (by decide)]

theorem slash_not_mem_safe (item_id : String) : '/' ∉ safe_item_id item_id := by
  intro h
  obtain ⟨c, -, hc⟩ := mem_map.1 (mem_squeeze h)
  by_cases hname : isNameChar c = true
  · rw [if_pos hname] at hc
    subst hc
    exact absurd hname (by decide)
  · rw [if_neg hname] at hc
    exact absurd hc (by decide)

theorem collapse_ne_nil {text : List Char} (h : text ≠ []) : collapse isSoft '-' text ≠ [] := by
  cases shape isSoft text with
  | nil => exact absurd rfl h
  | hard rest hc =>
    rw [collapse_hard hc (by decide)]
    exact cons_ne_nil _ _
  | run rest hs hsoft hrest =>
    rw [collapse_run hs hsoft hrest (by decide)]
    exact cons_ne_nil _ _

theorem safe_ne_nil {item_id : String} (h : item_id ≠ "") : safe_item_id item_id ≠ [] := by
  rw [safe_item_id_eq]
  exact collapse_ne_nil fun heq => h (String.toList_eq_nil_iff.1 heq)

def dirOf (item_id : String) : Path := enter ["ai-org".toList, "implementation-cue".toList] (safe_item_id item_id)

theorem resolve_append (path rest : List Char) :
    resolve (path ++ '/' :: rest) = (rest.splitOn '/').foldl enter (resolve path) := by
  rw [resolve, splitOn_append_cons_self, foldl_append, resolve]

/-- A component that is no dot and no two dots. -/
def Plain (name : List Char) : Prop := name ≠ [] ∧ name ≠ ['.'] ∧ name ≠ ['.', '.']

theorem enter_plain {path : Path} {name : List Char} (h : Plain name) : enter path name = path ++ [name] := by
  rw [enter, if_neg (by simp [h.1, h.2.1]), if_neg h.2.2]

theorem plain_frame : Plain "frame.cue".toList := by simp [Plain]

theorem plain_states : Plain "real-states".toList := by simp [Plain]

theorem plain_positive : Plain "positive.json".toList := by simp [Plain]

theorem plain_negative : Plain "negative.json".toList := by simp [Plain]

theorem resolve_base :
    resolve "ai-org/implementation-cue".toList = ["ai-org".toList, "implementation-cue".toList] := by
  have hsplit : "ai-org/implementation-cue".toList.splitOn '/' = ["ai-org".toList, "implementation-cue".toList] := by
    simp only [String.reduceToList]
    decide
  rw [resolve, hsplit]
  rfl

theorem cue_dir_eq (item_id : String) :
    _cue_dir item_id = "ai-org/implementation-cue".toList ++ '/' :: safe_item_id item_id := rfl

theorem resolve_cue_dir (item_id : String) : resolve (_cue_dir item_id) = dirOf item_id := by
  have hsplit := splitOn_eq_singleton (slash_not_mem_safe item_id)
  rw [cue_dir_eq, resolve_append, resolve_base, hsplit, foldl_cons, foldl_nil, dirOf]

theorem resolve_framePath (item_id : String) :
    resolve (framePath item_id) = dirOf item_id ++ ["frame.cue".toList] := by
  have hsplit : "frame.cue".toList.splitOn '/' = ["frame.cue".toList] := splitOn_eq_singleton (by simp)
  rw [framePath, resolve_append, hsplit, resolve_cue_dir, foldl_cons, foldl_nil, enter_plain plain_frame]

theorem resolve_positivePath (item_id : String) :
    resolve (positivePath item_id) = dirOf item_id ++ ["real-states".toList, "positive.json".toList] := by
  have hsplit : "real-states/positive.json".toList.splitOn '/' = ["real-states".toList, "positive.json".toList] := by
    simp only [String.reduceToList]
    decide
  rw [positivePath, resolve_append, hsplit, resolve_cue_dir, foldl_cons, foldl_cons, foldl_nil,
    enter_plain plain_states, enter_plain plain_positive, append_assoc, singleton_append]

theorem resolve_negativePath (item_id : String) :
    resolve (negativePath item_id) = dirOf item_id ++ ["real-states".toList, "negative.json".toList] := by
  have hsplit : "real-states/negative.json".toList.splitOn '/' = ["real-states".toList, "negative.json".toList] := by
    simp only [String.reduceToList]
    decide
  rw [negativePath, resolve_append, hsplit, resolve_cue_dir, foldl_cons, foldl_cons, foldl_nil,
    enter_plain plain_states, enter_plain plain_negative, append_assoc, singleton_append]

theorem dirOf_eq_iff {a b : String} (ha : a ≠ "") (hb : b ≠ "") :
    dirOf a = dirOf b ↔ Alike isSoft a.toList b.toList := by
  rw [← safe_item_id_eq_iff]
  refine ⟨fun h => ?_, fun h => by rw [dirOf, h, dirOf]⟩
  have hne := safe_ne_nil ha
  have hne' := safe_ne_nil hb
  simp only [dirOf, enter, hne, hne', false_or] at h
  split_ifs at h with hdot hdot' hup' hup hdot' hup' hdot' hup'
  all_goals simp_all

def artifacts (item_id : String) : List Path :=
  [resolve (framePath item_id), resolve (positivePath item_id), resolve (negativePath item_id)]

theorem frame_last (item_id : String) : (resolve (framePath item_id)).getLast? = some "frame.cue".toList := by
  rw [resolve_framePath, getLast?_append_of_ne_nil _ (cons_ne_nil _ _)]
  rfl

theorem positive_last (item_id : String) :
    (resolve (positivePath item_id)).getLast? = some "positive.json".toList := by
  rw [resolve_positivePath, getLast?_append_of_ne_nil _ (cons_ne_nil _ _)]
  rfl

theorem negative_last (item_id : String) :
    (resolve (negativePath item_id)).getLast? = some "negative.json".toList := by
  rw [resolve_negativePath, getLast?_append_of_ne_nil _ (cons_ne_nil _ _)]
  rfl

theorem frame_ne_positive (a b : String) : resolve (framePath a) ≠ resolve (positivePath b) := by
  intro h
  have hlast := (frame_last a).symm.trans ((congrArg List.getLast? h).trans (positive_last b))
  simp at hlast

theorem frame_ne_negative (a b : String) : resolve (framePath a) ≠ resolve (negativePath b) := by
  intro h
  have hlast := (frame_last a).symm.trans ((congrArg List.getLast? h).trans (negative_last b))
  simp at hlast

theorem positive_ne_negative (item_id : String) : resolve (positivePath item_id) ≠ resolve (negativePath item_id) := by
  intro h
  have hlast := (positive_last item_id).symm.trans ((congrArg List.getLast? h).trans (negative_last item_id))
  simp at hlast

theorem frame_not_mem_artifacts {a b : String} (h : dirOf a ≠ dirOf b) : resolve (framePath a) ∉ artifacts b := by
  simp only [artifacts, mem_cons, not_mem_nil, or_false, not_or]
  refine ⟨?_, frame_ne_positive a b, frame_ne_negative a b⟩
  rw [resolve_framePath, resolve_framePath]
  exact fun heq => h (append_cancel_right heq)

theorem Edit.apply_of_ne (edit : Edit) {path p : Path} (h : p ≠ path) (worktree : Worktree) :
    edit.apply path worktree p = worktree p := if_neg h

theorem Edit.apply_self (edit : Edit) (path : Path) (worktree : Worktree) :
    edit.apply path worktree path = edit.on (worktree path) := if_pos rfl

theorem Round.apply_other (round : Round) {item_id : String} {p : Path} (h : p ∉ artifacts item_id)
    (worktree : Worktree) : round.apply item_id worktree p = worktree p := by
  simp only [artifacts, mem_cons, not_mem_nil, or_false, not_or] at h
  rw [Round.apply, Edit.apply_of_ne _ h.1, Edit.apply_of_ne _ h.2.1, Edit.apply_of_ne _ h.2.2]

theorem Round.apply_frame (round : Round) (item_id : String) (worktree : Worktree) :
    round.apply item_id worktree (resolve (framePath item_id)) =
      round.frame.on (worktree (resolve (framePath item_id))) := by
  rw [Round.apply, Edit.apply_self, Edit.apply_of_ne _ (frame_ne_positive _ _),
    Edit.apply_of_ne _ (frame_ne_negative _ _)]

theorem Round.apply_positive (round : Round) (item_id : String) (worktree : Worktree) :
    round.apply item_id worktree (resolve (positivePath item_id)) =
      round.positive.on (worktree (resolve (positivePath item_id))) := by
  rw [Round.apply, Edit.apply_of_ne _ (frame_ne_positive _ _).symm, Edit.apply_self,
    Edit.apply_of_ne _ (positive_ne_negative _)]

theorem Round.apply_negative (round : Round) (item_id : String) (worktree : Worktree) :
    round.apply item_id worktree (resolve (negativePath item_id)) =
      round.negative.on (worktree (resolve (negativePath item_id))) := by
  rw [Round.apply, Edit.apply_of_ne _ (frame_ne_negative _ _).symm, Edit.apply_of_ne _ (positive_ne_negative _).symm,
    Edit.apply_self]

section Runs

variable {tools : Toolchain} {fingerprints : String → Failure → List String}

variable (tools fingerprints) in
theorem attempts_other {item_id : String} {worker : ℕ → Round} {p : Path} (h : p ∉ artifacts item_id) (left index : ℕ)
    (previous : List String) (worktree : Worktree) :
    (attempts tools fingerprints item_id worker left index previous worktree).2 p = worktree p := by
  induction left generalizing index previous worktree with
  | zero => rfl
  | succ left ih =>
    rw [attempts]
    dsimp only
    split
    · exact Round.apply_other _ h _
    · split <;> exact Round.apply_other _ h _
    · split
      · exact Round.apply_other _ h _
      · rw [ih, Round.apply_other _ h]

theorem author_items_other {driven : List (PlanItem × (ℕ → Round))} {worktree result : Worktree} {p : Path}
    (hrun : author_items tools fingerprints driven worktree = .ok result)
    (h : ∀ entry ∈ driven, p ∉ artifacts entry.1.item_id) : result p = worktree p := by
  induction driven generalizing worktree with
  | nil => rw [← Except.ok.inj hrun]
  | cons entry driven ih =>
    obtain ⟨item, worker⟩ := entry
    obtain ⟨hitem, hdriven⟩ := forall_mem_cons.1 h
    rw [author_items] at hrun
    split at hrun
    · next next hnext =>
      rw [ih hrun hdriven, ← attempts_other tools fingerprints hitem _ _ _ worktree]
      rw [_author_one_item] at hnext
      rw [hnext]
    · cases hrun

theorem missing_of_no_frame {worktree : Worktree} {item_id : String}
    (h : worktree (resolve (framePath item_id)) = none) : missing worktree item_id ≠ [] := by
  rw [missing, filter_cons_of_pos (by simp [h])]
  exact cons_ne_nil _ _

theorem validation_of_missing {worktree : Worktree} {item_id : String} (h : missing worktree item_id ≠ []) :
    _run_cue_frame_validation tools worktree item_id =
      .ok (some ⟨"cue_artifact_missing", ", ".intercalate (missing worktree item_id)⟩) := by
  rw [_run_cue_frame_validation, if_pos h]
  rfl

/-- The failure of an item whose worker never writes a frame: the missing artifact, or that of a run. -/
def LacksFrame (worker : ℕ → Round) (outcome : Outcome) : Prop :=
  ∃ failure rounds permanent, outcome = .item_failed failure rounds permanent ∧
    (failure.type = "cue_artifact_missing" ∨ ∃ n, (worker n).run_failure = some failure)

theorem Edit.on_none {edit : Edit} (h : edit.isWrite = false) : edit.on none = none := by
  cases edit with
  | keep => rfl
  | remove => rfl
  | write content => cases h

variable (tools) in
theorem roundFailure_of_no_frame {item_id : String} (round : Round) {worktree : Worktree}
    (h : worktree (resolve (framePath item_id)) = none) :
    ∃ failure, roundFailure tools item_id round worktree = .ok (some failure) ∧
      (failure.type = "cue_artifact_missing" ∨ round.run_failure = some failure) := by
  rw [roundFailure]
  cases hrun : round.run_failure with
  | some failure => exact ⟨failure, rfl, .inr rfl⟩
  | none => exact ⟨_, validation_of_missing (missing_of_no_frame h), .inl rfl⟩

theorem attempts_of_no_frame {item_id : String} {worker : ℕ → Round} (hworker : ∀ n, (worker n).frame.isWrite = false)
    (left index : ℕ) (previous : List String) (worktree : Worktree) (hrounds : left + index = MAX_REPAIR_ROUNDS)
    (hframe : worktree (resolve (framePath item_id)) = none) :
    LacksFrame worker (attempts tools fingerprints item_id worker (left + 1) index previous worktree).1 := by
  induction left generalizing index previous worktree with
  | zero =>
    have hnext : (worker index).apply item_id worktree (resolve (framePath item_id)) = none := by
      rw [Round.apply_frame, hframe, Edit.on_none (hworker index)]
    obtain ⟨failure, hfailure, htype⟩ := roundFailure_of_no_frame tools (worker index) hnext
    rw [attempts]
    simp only [hfailure]
    rw [if_pos (.inr (by omega))]
    exact ⟨failure, index, _, rfl, htype.imp id fun h => ⟨index, h⟩⟩
  | succ left ih =>
    have hnext : (worker index).apply item_id worktree (resolve (framePath item_id)) = none := by
      rw [Round.apply_frame, hframe, Edit.on_none (hworker index)]
    obtain ⟨failure, hfailure, htype⟩ := roundFailure_of_no_frame tools (worker index) hnext
    rw [attempts]
    simp only [hfailure]
    split
    · exact ⟨failure, index, _, rfl, htype.imp id fun h => ⟨index, h⟩⟩
    · exact ih (index + 1) _ _ (by omega) hnext

theorem vetState_error {run : List Char → List Char → Worktree → Except String (ℤ × String)} {worktree : Worktree}
    {name : String} {expected : Bool} {frame_path state_path : List Char} {failure : Failure}
    (h : vetState run worktree name expected frame_path state_path = .error failure) : failure.type = "cue_failed" := by
  rw [vetState] at h
  split at h
  · rw [← Except.error.inj h]
  · cases h

theorem type_ne {type detail : String} (h : type ≠ "cue_artifact_missing") :
    (Failure.mk type detail).type ≠ "cue_artifact_missing" := h

theorem run_cue_vet_error {vet : Option (List Char → List Char → Worktree → Except String (ℤ × String))}
    {worktree : Worktree} {frame_path positive_path negative_path : List Char} {failure : Failure}
    (h : _run_cue_vet vet worktree frame_path positive_path negative_path = .error failure) :
    failure.type ≠ "cue_artifact_missing" := by
  rw [_run_cue_vet.eq_def] at h
  cases vet with
  | none =>
    rw [← Except.error.inj h]
    decide
  | some run =>
    dsimp only at h
    cases hpositive : vetState run worktree "positive" true frame_path positive_path with
    | error failure' =>
      rw [hpositive] at h
      rw [← Except.error.inj h, vetState_error hpositive]
      decide
    | ok positive =>
      cases hnegative : vetState run worktree "negative" false frame_path negative_path with
      | error failure' =>
        rw [hpositive, hnegative] at h
        rw [← Except.error.inj h, vetState_error hnegative]
        decide
      | ok negative =>
        rw [hpositive, hnegative] at h
        simp only [bind, Except.bind] at h
        split_ifs at h
        · rw [← Except.error.inj h]
          exact type_ne (by decide)
        · rw [← Except.error.inj h]
          exact type_ne (by decide)
        · cases h

theorem missing_of_validation {worktree : Worktree} {item_id : String} {failure : Failure}
    (h : _run_cue_frame_validation tools worktree item_id = .ok (some failure))
    (htype : failure.type = "cue_artifact_missing") : missing worktree item_id ≠ [] := by
  intro hmissing
  rw [_run_cue_frame_validation, if_neg (not_not_intro hmissing)] at h
  obtain ⟨frame, -, h⟩ := Checks.bind_eq_ok_iff.1 h
  dsimp only at h
  split_ifs at h
  · cases h
    exact absurd htype (type_ne (by decide))
  · cases h
    exact absurd htype (type_ne (by decide))
  · obtain ⟨state_failures, -, h⟩ := Checks.bind_eq_ok_iff.1 h
    split_ifs at h
    · cases h
      exact absurd htype (type_ne (by decide))
    · split at h
      · next failure' hvet =>
        cases h
        exact run_cue_vet_error hvet htype
      · split_ifs at h
        · cases h
          exact absurd htype (type_ne (by decide))
        · cases h

theorem missing_eq_nil {worktree : Worktree} {item_id : String}
    (hframe : worktree (resolve (framePath item_id)) ≠ none) (hpositive : worktree (resolve (positivePath item_id)) ≠ none)
    (hnegative : worktree (resolve (negativePath item_id)) ≠ none) : missing worktree item_id = [] := by
  rw [missing, map_eq_nil_iff, filter_eq_nil_iff]
  simp [hframe, hpositive, hnegative]

theorem attempts_failure {item_id : String} {worker : ℕ → Round} {failure : Failure} {rounds : ℕ} {permanent : Bool}
    (Keeps : Worktree → Prop) (hkeeps : ∀ n worktree, Keeps worktree → Keeps ((worker n).apply item_id worktree))
    (left index : ℕ) (previous : List String) (worktree : Worktree) (hleft : left + index = MAX_REPAIR_ROUNDS)
    (hstart : Keeps worktree) (h : (attempts tools fingerprints item_id worker (left + 1) index previous worktree).1 =
      .item_failed failure rounds permanent) :
    ∃ n before, Keeps before ∧
      roundFailure tools item_id (worker n) ((worker n).apply item_id before) = .ok (some failure) := by
  induction left generalizing index previous worktree with
  | zero =>
    rw [attempts] at h
    dsimp only at h
    split at h
    · cases h
    · split at h <;> cases h
    · next failure' hfailure =>
      rw [if_pos (.inr (by omega))] at h
      cases h
      exact ⟨_, _, hstart, hfailure⟩
  | succ left ih =>
    rw [attempts] at h
    dsimp only at h
    split at h
    · cases h
    · split at h <;> cases h
    · next failure' hfailure =>
      split at h
      · cases h
        exact ⟨_, _, hstart, hfailure⟩
      · exact ih (index + 1) _ _ (by omega) (hkeeps _ _ hstart) h

end Runs

def soundFrame : String := "#StateSpace: int\n#Invariant: >0\n#Transition: int\n#PreState: int\n#PostState: int\n"

def soundPositive : String := "\x7b\"n\": 1\x7d"

def soundNegative : String := "\x7b\"n\": 0\x7d"

/-- A `cue vet` that accepts the one state and refuses any other. -/
def sampleTools : Toolchain where
  py := asciiLib
  isWord := fun c => c.isAlphanum || c == '_'
  vet := some fun _ state worktree =>
    .ok (if worktree (resolve state) = some (asciiBytes soundPositive) then 0 else 1, "")

def soundRound : Round :=
  ⟨.write (asciiBytes soundFrame), .write (asciiBytes soundPositive), .write (asciiBytes soundNegative), none, none⟩

def framelessRound : Round :=
  ⟨.keep, .write (asciiBytes soundPositive), .write (asciiBytes soundNegative), none, none⟩

theorem read_text_of_ascii {worktree : Worktree} {path : List Char} {text : String}
    (h : worktree (resolve path) = some (asciiBytes text))
    (htext : (utf8Decode (asciiBytes text)).map universalNewlines = some text.toList) :
    read_text worktree path = .ok text.toList := by
  rw [read_text, h, Option.bind_some]
  cases hdecode : utf8Decode (asciiBytes text) with
  | none =>
    rw [hdecode] at htext
    cases htext
  | some decoded =>
    rw [hdecode] at htext
    exact congrArg Except.ok (Option.some.inj htext)

theorem validation_sound {worktree : Worktree} {item_id : String}
    (hframe : worktree (resolve (framePath item_id)) = some (asciiBytes soundFrame))
    (hpositive : worktree (resolve (positivePath item_id)) = some (asciiBytes soundPositive))
    (hnegative : worktree (resolve (negativePath item_id)) = some (asciiBytes soundNegative)) :
    _run_cue_frame_validation sampleTools worktree item_id = .ok none := by
  have hmissing : missing worktree item_id = [] := missing_eq_nil (by simp [hframe]) (by simp [hpositive])
    (by simp [hnegative])
  have hread := read_text_of_ascii hframe (by decide +kernel)
  have hread₁ := read_text_of_ascii hpositive (by decide +kernel)
  have hread₀ := read_text_of_ascii hnegative (by decide +kernel)
  have hmarkers : (markers.filter fun marker => !isIn marker.toList soundFrame.toList) = [] := by decide +kernel
  have hstatic : ((_static_stateful_vacuity_checks sampleTools.isWord soundFrame.toList).any
      fun check => !check.passes) = false := by decide +kernel
  have hpos : stateFailure sampleTools.py worktree "positive" (positivePath item_id) = .ok none := by
    have hloads : loadsPlain asciiLib (String.ofList soundPositive.toList) = .ok (.obj [("n", .int 1)]) := by
      decide +kernel
    simp only [stateFailure, hread₁, bind, Except.bind, sampleTools, hloads]
  have hneg : stateFailure sampleTools.py worktree "negative" (negativePath item_id) = .ok none := by
    have hloads : loadsPlain asciiLib (String.ofList soundNegative.toList) = .ok (.obj [("n", .int 0)]) := by
      decide +kernel
    simp only [stateFailure, hread₀, bind, Except.bind, sampleTools, hloads]
  have hvet : _run_cue_vet sampleTools.vet worktree (framePath item_id) (positivePath item_id) (negativePath item_id) =
      .ok [⟨"positive", true⟩, ⟨"negative", true⟩] := by
    have hdiff : asciiBytes soundNegative ≠ asciiBytes soundPositive := by decide +kernel
    rw [_run_cue_vet.eq_def]
    simp [sampleTools, vetState, hpositive, hnegative, hdiff, bind, Except.bind, pure, Except.pure]
  have hdynamic : (_dynamic_stateful_vacuity_checks [⟨"positive", true⟩, ⟨"negative", true⟩]).any
      (fun check => !check.passes) = false := by decide +kernel
  rw [_run_cue_frame_validation, if_neg (not_not_intro hmissing), hread]
  simp only [bind, Except.bind, hmarkers, ne_eq, not_true_eq_false, if_false, hstatic, Bool.false_eq_true,
    _validate_stateful_json_states, hpos, hneg, pure, Except.pure, Option.toList_none, append_nil, hvet,
    any_append, hdynamic, Bool.or_false]

theorem author_sound (fingerprints : String → Failure → List String) (item : PlanItem) (worktree : Worktree) :
    _author_one_item sampleTools fingerprints item (fun _ => soundRound) worktree =
      (.committed, soundRound.apply item.item_id worktree) := by
  have hvalid : _run_cue_frame_validation sampleTools (soundRound.apply item.item_id worktree) item.item_id = .ok none :=
    validation_sound (Round.apply_frame _ _ _) (Round.apply_positive _ _ _) (Round.apply_negative _ _ _)
  have hround : roundFailure sampleTools item.item_id soundRound (soundRound.apply item.item_id worktree) = .ok none :=
    hvalid
  rw [_author_one_item, MAX_REPAIR_ROUNDS, attempts]
  simp only [hround]
  rfl

theorem author_items_sound (fingerprints : String → Failure → List String) (items : List PlanItem)
    (worktree : Worktree) : ∃ result,
      author_items sampleTools fingerprints (items.map fun item => (item, fun _ => soundRound)) worktree = .ok result := by
  induction items generalizing worktree with
  | nil => exact ⟨worktree, rfl⟩
  | cons item items ih =>
    rw [map_cons, author_items, author_sound]
    exact ih _

/-- The files that are read for an item lie in a directory of no other item, and an item whose worker never writes a
frame is rejected for the missing artifact, whatever the tools, the workers and the other items do. -/
def FramesStandAlone (items : List PlanItem) (start : Worktree) : Prop :=
  (items.Pairwise fun a b => resolve (_cue_dir a.item_id) ≠ resolve (_cue_dir b.item_id)) ∧
    ∀ tools fingerprints (driven : List (PlanItem × (ℕ → Round))), driven.map Prod.fst = items →
      ∀ front item worker rest worktree, driven = front ++ (item, worker) :: rest →
        author_items tools fingerprints front start = .ok worktree → (∀ n, (worker n).frame.isWrite = false) →
          LacksFrame worker (_author_one_item tools fingerprints item worker worktree).1

theorem pairwise_dirs_iff {items : List PlanItem} :
    (items.Pairwise fun a b => resolve (_cue_dir a.item_id) ≠ resolve (_cue_dir b.item_id)) ↔
      items.Pairwise fun a b => ¬Alike isSoft a.item_id.toList b.item_id.toList := by
  refine ⟨fun h => h.imp fun {a b} hne => ?_, fun h => h.imp fun {a b} hne => ?_⟩
  · rwa [resolve_cue_dir, resolve_cue_dir, Ne, dirOf_eq_iff a.named b.named] at hne
  · rwa [resolve_cue_dir, resolve_cue_dir, Ne, dirOf_eq_iff a.named b.named]

theorem frame_of_front {tools : Toolchain} {fingerprints : String → Failure → List String} {items : List PlanItem}
    (hdirs : items.Pairwise fun a b => resolve (_cue_dir a.item_id) ≠ resolve (_cue_dir b.item_id))
    {front rest : List (PlanItem × (ℕ → Round))} {item : PlanItem} {worker : ℕ → Round}
    (hitems : (front ++ (item, worker) :: rest).map Prod.fst = items) {start worktree : Worktree}
    (hrun : author_items tools fingerprints front start = .ok worktree) :
    worktree (resolve (framePath item.item_id)) = start (resolve (framePath item.item_id)) := by
  refine author_items_other hrun fun entry hentry => frame_not_mem_artifacts ?_
  rw [← hitems, map_append, pairwise_append] at hdirs
  have hne := hdirs.2.2 entry.1 (mem_map_of_mem hentry) item (by simp)
  rw [resolve_cue_dir, resolve_cue_dir] at hne
  exact hne.symm

theorem not_lacksFrame {tools : Toolchain} {fingerprints : String → Failure → List String} {item : PlanItem}
    {worktree : Worktree} (h : worktree (resolve (framePath item.item_id)) ≠ none) :
    ¬LacksFrame (fun _ => framelessRound)
      (_author_one_item tools fingerprints item (fun _ => framelessRound) worktree).1 := by
  rintro ⟨failure, rounds, permanent, houtcome, htype⟩
  obtain ⟨n, before, hbefore, hfailure⟩ := attempts_failure
    (fun worktree => worktree (resolve (framePath item.item_id)) ≠ none)
    (fun n worktree hworktree => by rwa [Round.apply_frame]) MAX_REPAIR_ROUNDS 0 [] worktree rfl h houtcome
  rcases htype with htype | ⟨n, hrun⟩
  · refine missing_of_validation hfailure htype (missing_eq_nil ?_ ?_ ?_)
    · rwa [Round.apply_frame]
    · rw [Round.apply_positive]
      exact Option.some_ne_none _
    · rw [Round.apply_negative]
      exact Option.some_ne_none _
  · cases hrun

/-- Frames stand alone if and only if no two ids are alike and there is no frame of an item to begin with. -/
theorem frames_stand_alone_iff (items : List PlanItem) (start : Worktree) : FramesStandAlone items start ↔
    (items.Pairwise fun a b => ¬Alike isSoft a.item_id.toList b.item_id.toList) ∧
      ∀ item ∈ items, start (resolve (framePath item.item_id)) = none := by
  constructor
  · rintro ⟨hdirs, hruns⟩
    refine ⟨pairwise_dirs_iff.1 hdirs, fun item hitem => ?_⟩
    by_contra hstart
    obtain ⟨before, after, rfl⟩ := append_of_mem hitem
    let sound : PlanItem → PlanItem × (ℕ → Round) := fun item => (item, fun _ => soundRound)
    obtain ⟨worktree, hrun⟩ := author_items_sound (fun _ _ => []) before start
    have hdriven : ((before.map sound) ++ (item, fun _ => framelessRound) :: after.map sound).map Prod.fst =
        before ++ item :: after := by
      simp [sound, Function.comp_def]
    have hframe := frame_of_front hdirs hdriven hrun
    refine not_lacksFrame (by rwa [hframe]) (hruns sampleTools (fun _ _ => []) _ hdriven _ item _ _ worktree rfl hrun ?_)
    exact fun _ => rfl
  · rintro ⟨halike, hstart⟩
    have hdirs := pairwise_dirs_iff.2 halike
    refine ⟨hdirs, ?_⟩
    rintro tools fingerprints driven hitems front item worker rest worktree rfl hrun hworker
    refine attempts_of_no_frame hworker MAX_REPAIR_ROUNDS 0 [] worktree rfl ?_
    rw [frame_of_front hdirs hitems hrun]
    exact hstart item (by rw [← hitems]; simp)

section Alike

def spacedItem : PlanItem := ⟨"plan 1", .work_item, by decide⟩

def hyphenItem : PlanItem := ⟨"plan-1", .work_item, by decide⟩

theorem same_directory : dirOf spacedItem.item_id = dirOf hyphenItem.item_id := by decide +kernel

theorem hyphen_committed : (_author_one_item sampleTools (fun _ _ => []) hyphenItem (fun _ => framelessRound)
    (soundRound.apply spacedItem.item_id fun _ => none)).1 = .committed := by
  have hvalid : _run_cue_frame_validation sampleTools (framelessRound.apply hyphenItem.item_id
      (soundRound.apply spacedItem.item_id fun _ => none)) hyphenItem.item_id = .ok none := by
    refine validation_sound ?_ (Round.apply_positive _ _ _) (Round.apply_negative _ _ _)
    have hpath : resolve (framePath hyphenItem.item_id) = resolve (framePath spacedItem.item_id) := by
      rw [resolve_framePath, resolve_framePath, same_directory]
    rw [Round.apply_frame, hpath, Round.apply_frame]
    rfl
  have hround : roundFailure sampleTools hyphenItem.item_id framelessRound (framelessRound.apply hyphenItem.item_id
      (soundRound.apply spacedItem.item_id fun _ => none)) = .ok none := hvalid
  rw [_author_one_item, MAX_REPAIR_ROUNDS, attempts]
  simp only [hround]
  rfl

theorem hyphen_reads_spaced : ¬FramesStandAlone [spacedItem, hyphenItem] fun _ => none := by
  rintro ⟨-, hruns⟩
  have hspaced : author_items sampleTools (fun _ _ => []) [(spacedItem, fun _ => soundRound)] (fun _ => none) =
      .ok (soundRound.apply spacedItem.item_id fun _ => none) := by
    rw [author_items, author_sound]
    rfl
  obtain ⟨failure, rounds, permanent, houtcome, -⟩ := hruns sampleTools (fun _ _ => [])
    [(spacedItem, fun _ => soundRound), (hyphenItem, fun _ => framelessRound)] rfl [(spacedItem, fun _ => soundRound)]
    hyphenItem (fun _ => framelessRound) [] _ rfl hspaced fun _ => rfl
  rw [hyphen_committed] at houtcome
  cases houtcome

end Alike

end CodeWorker

end AiOrg
