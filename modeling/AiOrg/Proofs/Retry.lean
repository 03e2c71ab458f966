import AiOrg.Proofs.JsonPlain
import AiOrg.Retry.Atom

/-!
# What a fingerprint keeps of a defect

Cleaning a text again takes no more than a space at its end away, and a written identity can be read back. So with a
digest that tells identities apart, two defects have one fingerprint if and only if they are alike.
-/

namespace AiOrg

open List

namespace Pattern

variable {p : Char → Bool}

/-- A run of a class: some characters of it and no others. -/
def IsRun (p : Char → Bool) (run : List Char) : Prop := run ≠ [] ∧ ∀ c ∈ run, p c = true

theorem isRun_of_mem_runs {text run : List Char} (h : run ∈ runs p text) : IsRun p run := by
  rw [runs, mem_filter] at h
  refine ⟨by simpa using h.2, fun c hc => ?_⟩
  simpa using Text.of_mem_splitOnP h.1 c hc

theorem runs_nil : runs p [] = [] := by simp [runs]

theorem runs_run {run : List Char} (h : IsRun p run) : runs p run = [run] := by
  have hsplit : (run.splitOnP fun c => !p c) = [run] := splitOnP_eq_singleton fun c hc => by simp [h.2 c hc]
  rw [runs, hsplit, filter_cons_of_pos (by simp [h.1]), filter_nil]

theorem runs_cons {run : List Char} (h : IsRun p run) {c : Char} (hc : p c = false) (rest : List Char) :
    runs p (run ++ c :: rest) = run :: runs p rest := by
  have hsplit : ((run ++ c :: rest).splitOnP fun c => !p c) = run :: rest.splitOnP fun c => !p c :=
    splitOnP_append_cons_of_forall_mem (fun c hc => by simp [h.2 c hc]) c (by simp [hc]) rest
  rw [runs, hsplit, filter_cons_of_pos (by simp [h.1]), runs]

theorem runs_intercalate {words : List (List Char)} (h : ∀ word ∈ words, IsRun p word) (hspace : p ' ' = false) :
    runs p ([' '].intercalate words) = words ∧ runs p ([' '].intercalate words ++ [' ']) = words := by
  induction words with
  | nil => exact ⟨runs_nil, by simp [runs, splitOnP_cons_eq_if_modifyHead, hspace]⟩
  | cons word words ih =>
    have hword := h word mem_cons_self
    obtain ⟨ih, ih'⟩ := ih fun w hw => h w (mem_cons_of_mem _ hw)
    cases words with
    | nil =>
      rw [intercalate_singleton, runs_run hword, runs_cons hword hspace, runs_nil]
      exact ⟨rfl, rfl⟩
    | cons next words =>
      rw [intercalate_cons_cons, append_assoc, singleton_append, append_assoc, cons_append,
        runs_cons hword hspace, runs_cons hword hspace, ih, ih']
      exact ⟨rfl, rfl⟩

theorem take_intercalate {words : List (List Char)} (h : ∀ word ∈ words, IsRun p word) (n : ℕ) :
    ∃ left, (∀ word ∈ left, IsRun p word) ∧ (([' '].intercalate words).take n = [' '].intercalate left ∨
      left ≠ [] ∧ ([' '].intercalate words).take n = [' '].intercalate left ++ [' ']) := by
  induction words generalizing n with
  | nil => exact ⟨[], by simp, .inl (by simp)⟩
  | cons word words ih =>
    have hword := h word mem_cons_self
    have hshort : ∃ left, (∀ word ∈ left, IsRun p word) ∧ word.take n = [' '].intercalate left := by
      by_cases hn : word.take n = []
      · exact ⟨[], by simp, by simpa using hn⟩
      · refine ⟨[word.take n], ?_, by simp⟩
        simp only [mem_singleton, forall_eq]
        exact ⟨hn, fun c hc => hword.2 c (mem_of_mem_take hc)⟩
    cases words with
    | nil =>
      obtain ⟨left, hleft, htake⟩ := hshort
      exact ⟨left, hleft, .inl (by rw [intercalate_singleton, htake])⟩
    | cons next words =>
      rw [intercalate_cons_cons, append_assoc, singleton_append]
      rcases Nat.lt_or_ge word.length n with hn | hn
      · obtain ⟨left, hleft, htake⟩ := ih (fun w hw => h w (mem_cons_of_mem _ hw)) (n - word.length - 1)
        have hcut : (word ++ ' ' :: [' '].intercalate (next :: words)).take n =
            word ++ ' ' :: ([' '].intercalate (next :: words)).take (n - word.length - 1) := by
          rw [take_append, take_of_length_le hn.le, take_cons (by omega)]
        rw [hcut]
        cases left with
        | nil =>
          refine ⟨[word], by simpa using hword, .inr ⟨cons_ne_nil _ _, ?_⟩⟩
          rcases htake with htake | ⟨hne, -⟩
          · rw [htake]
            simp
          · exact absurd rfl hne
        | cons first left =>
          refine ⟨word :: first :: left, ?_, ?_⟩
          · intro w hw
            rcases mem_cons.1 hw with rfl | hw
            · exact hword
            · exact hleft w hw
          · rcases htake with htake | ⟨-, htake⟩
            · left
              rw [htake, intercalate_cons_cons]
              simp
            · right
              refine ⟨cons_ne_nil _ _, ?_⟩
              rw [htake, intercalate_cons_cons]
              simp
      · obtain ⟨left, hleft, htake⟩ := hshort
        exact ⟨left, hleft, .inl (by rw [take_append_of_le_length hn, htake])⟩

theorem mem_intercalate {words : List (List Char)} {c : Char} (h : c ∈ [' '].intercalate words) :
    c = ' ' ∨ ∃ word ∈ words, c ∈ word := by
  induction words with
  | nil => simp at h
  | cons word words ih =>
    cases words with
    | nil => exact .inr ⟨word, mem_cons_self, by simpa using h⟩
    | cons next words =>
      rw [intercalate_cons_cons, append_assoc, mem_append, mem_append, mem_singleton] at h
      rcases h with h | h | h
      · exact .inr ⟨word, mem_cons_self, h⟩
      · exact .inl h
      · rcases ih h with h | ⟨other, hother, hc⟩
        · exact .inl h
        · exact .inr ⟨other, mem_cons_of_mem _ hother, hc⟩

theorem exists_front : ∀ {words : List (List Char)}, words ≠ [] →
    ∃ front, ∃ word ∈ words, [' '].intercalate words = front ++ word
  | [], h => absurd rfl h
  | [word], _ => ⟨[], word, mem_cons_self, by simp⟩
  | word :: next :: words, _ => by
    obtain ⟨front, last, hlast, hfront⟩ := exists_front (cons_ne_nil next words)
    refine ⟨word ++ ' ' :: front, last, mem_cons_of_mem _ hlast, ?_⟩
    rw [intercalate_cons_cons, hfront]
    simp

theorem rdropWhile_intercalate {words : List (List Char)} (h : ∀ word ∈ words, IsRun p word) (hspace : p ' ' = false) :
    ([' '].intercalate words).rdropWhile (· = ' ') = [' '].intercalate words := by
  by_cases hwords : words = []
  · simp [hwords]
  · obtain ⟨front, word, hword, hfront⟩ := exists_front hwords
    obtain ⟨hne, hrun⟩ := h word hword
    rw [hfront]
    refine rdropWhile_eq_self_iff.2 fun hne' hlast => ?_
    rw [getLast_append_of_ne_nil hne' hne, decide_eq_true_eq] at hlast
    have hspace' := hrun _ (getLast_mem hne)
    rw [hlast, hspace] at hspace'
    exact nomatch hspace'

theorem intercalate_runs_take {words : List (List Char)} (h : ∀ word ∈ words, IsRun p word) (hspace : p ' ' = false)
    (n : ℕ) : [' '].intercalate (runs p (([' '].intercalate words).take n)) =
      (([' '].intercalate words).take n).rdropWhile (· = ' ') := by
  obtain ⟨left, hleft, htake | ⟨-, htake⟩⟩ := take_intercalate h n
  · rw [htake, (runs_intercalate hleft hspace).1, rdropWhile_intercalate hleft hspace]
  · rw [htake, (runs_intercalate hleft hspace).2, rdropWhile_concat_pos _ _ _ (by simp),
      rdropWhile_intercalate hleft hspace]

end Pattern

namespace Retry

open Pattern

variable {lib : Lib}

theorem toLower_eq_self {c : Char} (h : c.toNat < 65 ∨ 90 < c.toNat) : c.toLower = c := by
  rw [Char.toLower, dif_neg]
  rintro ⟨hlo, hhi⟩
  rw [ge_iff_le, UInt32.le_iff_toNat_le] at hlo
  rw [UInt32.le_iff_toNat_le] at hhi
  simp only [Char.toNat_val] at hlo hhi
  have hA : 'A'.toNat = 65 := rfl
  have hZ : 'Z'.toNat = 90 := rfl
  omega

theorem toNat_le_toNat {c d : Char} (h : c ≤ d) : c.toNat ≤ d.toNat :=
  UInt32.le_iff_toNat_le.1 (Char.le_def.1 h)

theorem isAtomChar_ascii {c : Char} (h : isAtomChar c = true) : c.toNat < 128 ∧ c.toLower = c := by
  simp only [isAtomChar, Bool.or_eq_true, Bool.and_eq_true, decide_eq_true_eq, beq_iff_eq] at h
  rcases h with ((((⟨hlo, hhi⟩ | ⟨hlo, hhi⟩) | rfl) | rfl) | rfl) | rfl
  · have ha : 97 ≤ c.toNat := toNat_le_toNat hlo
    have hz : c.toNat ≤ 122 := toNat_le_toNat hhi
    exact ⟨by omega, toLower_eq_self (by omega)⟩
  · have hnine : c.toNat ≤ 57 := toNat_le_toNat hhi
    exact ⟨by omega, toLower_eq_self (by omega)⟩
  all_goals decide

theorem _normalize_atom_twice (value : List Char) :
    _normalize_atom lib (_normalize_atom lib value) = atomText lib value := by
  have hwords : ∀ word ∈ runs isAtomChar (lib.lower value), IsRun isAtomChar word := fun word => isRun_of_mem_runs
  have hspace : isAtomChar ' ' = false := by decide
  have hchars : ∀ c ∈ _normalize_atom lib value, isAtomChar c = true ∨ c = ' ' := by
    intro c hc
    rcases mem_intercalate (mem_of_mem_take hc) with rfl | ⟨word, hword, hc⟩
    · exact .inr rfl
    · exact .inl ((hwords word hword).2 c hc)
  have hlower : lib.lower (_normalize_atom lib value) = _normalize_atom lib value := by
    rw [lib.lower_ascii, map_congr_left, map_id]
    · intro c hc
      rcases hchars c hc with h | rfl
      · exact (isAtomChar_ascii h).2
      · rfl
    · intro c hc
      rcases hchars c hc with h | rfl
      · exact (isAtomChar_ascii h).1
      · decide
  have hshort : (_normalize_atom lib value).length ≤ 160 := length_take_le _ _
  rw [_normalize_atom, hlower, atomText]
  unfold _normalize_atom at hshort ⊢
  rw [intercalate_runs_take hwords hspace]
  exact take_of_length_le (( rdropWhile_prefix _ _).length_le.trans hshort)

theorem _normalize_atom_rule (value : List Char) :
    orText (some (_normalize_atom lib (orText (some (_normalize_atom lib value)) "validation".toList)))
      "validation".toList = orText (some (atomText lib value)) "validation".toList := by
  by_cases hempty : _normalize_atom lib value = []
  · have hvalidation : _normalize_atom lib "validation".toList = "validation".toList := by
      have hlower : lib.lower "validation".toList = "validation".toList :=
        (lib.lower_ascii _ (by simp)).trans (by simp)
      have hruns : runs isAtomChar "validation".toList = ["validation".toList] :=
        runs_run ⟨by simp, by simp [isAtomChar]⟩
      rw [_normalize_atom, hlower, hruns]
      rfl
    have hnone : orText (some []) "validation".toList = "validation".toList := rfl
    rw [atomText, hempty, hnone, hvalidation]
    rfl
  · have hkept : orText (some (_normalize_atom lib value)) "validation".toList = _normalize_atom lib value := by
      rw [orText, if_neg (by simpa using hempty)]
    rw [hkept, _normalize_atom_twice]

theorem strip_of_slash {path : List Char} (h : ['/'] <+: path) : ['/'] <+: Text.strip path := by
  obtain ⟨rest, rfl⟩ := h
  have hfront : (['/'] ++ rest).dropWhile Text.isSpace = ['/'] ++ rest :=
    dropWhile_cons_of_neg (by decide)
  rw [Text.strip, hfront]
  obtain ⟨dropped, hdropped⟩ := rdropWhile_prefix Text.isSpace (['/'] ++ rest)
  cases hkept : (['/'] ++ rest).rdropWhile Text.isSpace with
  | nil => exact absurd (rdropWhile_eq_nil_iff.1 hkept '/' mem_cons_self) (by decide)
  | cons c kept =>
    rw [hkept] at hdropped
    obtain ⟨rfl, -⟩ := List.cons.inj hdropped
    exact ⟨kept, rfl⟩

theorem _to_json_pointer_slash (path : List Char) :
    _to_json_pointer path = [] ∨ ['/'] <+: _to_json_pointer path := by
  unfold _to_json_pointer
  generalize Text.strip (if path.isEmpty then ['$'] else path) = stripped
  dsimp only
  split_ifs with hroot hslash
  · exact .inl rfl
  · exact .inr hslash
  all_goals exact .inr ⟨_, rfl⟩

theorem _to_json_pointer_twice (path : List Char) :
    _to_json_pointer (_to_json_pointer path) = Text.strip (_to_json_pointer path) := by
  rcases _to_json_pointer_slash path with h | h
  · rw [h]
    rfl
  · generalize _to_json_pointer path = pointer at h
    have hne : pointer.isEmpty = false := by
      obtain ⟨rest, rfl⟩ := h
      rfl
    obtain ⟨rest, hrest⟩ := strip_of_slash h
    unfold _to_json_pointer
    simp only [hne, Bool.false_eq_true, if_false, ← hrest]
    rw [if_neg (by simp), if_pos ⟨rest, rfl⟩]

/-! ### The identity -/

theorem dumpsString_append_inj {s t : String} {xs ys : List Char}
    (h : dumpsString s ++ xs = dumpsString t ++ ys) : s = t ∧ xs = ys := by
  rw [dumpsString_append, dumpsString_append] at h
  have hread := congrArg scanJsonString (List.cons.inj h).2
  rw [scanJsonString_dumps, scanJsonString_dumps] at hread
  exact Prod.mk.inj (Option.some.inj hread)

theorem compactMembers_injective : ∀ {xs ys : List (String × List Char)}, xs.map Prod.fst = ys.map Prod.fst →
    compactMembers xs = compactMembers ys → xs = ys
  | [], [], _, _ => rfl
  | [(k, v)], [(l, w)], _, h => by
    simp only [compactMembers, append_assoc, cons_append] at h
    obtain ⟨rfl, hrest⟩ := dumpsString_append_inj h
    obtain ⟨hvalue, -⟩ := dumpsString_append_inj (List.cons.inj hrest).2
    rw [String.ofList_inj.1 hvalue]
  | (k, v) :: x :: xs, (l, w) :: y :: ys, hkeys, h => by
    simp only [compactMembers, append_assoc, cons_append] at h
    obtain ⟨rfl, hrest⟩ := dumpsString_append_inj h
    obtain ⟨hvalue, hmembers⟩ := dumpsString_append_inj (List.cons.inj hrest).2
    rw [String.ofList_inj.1 hvalue, compactMembers_injective (List.cons.inj hkeys).2 (List.cons.inj hmembers).2]

theorem compactStrings_identity (validator_id rule_id error_class json_pointer subject_atom : List Char) :
    compactStrings [("validator_id", validator_id), ("rule_id", rule_id), ("error_class", error_class),
      ("json_pointer", json_pointer), ("subject_atom", subject_atom)] =
    '\x7b' :: compactMembers [("error_class", error_class), ("json_pointer", json_pointer), ("rule_id", rule_id),
      ("subject_atom", subject_atom), ("validator_id", validator_id)] := by
  simp [compactStrings, List.insertionSort, List.orderedInsert]

theorem fingerprint_eq_iff (hdigest : Function.Injective lib.digest) {d e : Defect} :
    d.fingerprint lib = e.fingerprint lib ↔
      d.validator_id = e.validator_id ∧ d.error_class = e.error_class ∧
        _to_json_pointer d.json_pointer = _to_json_pointer e.json_pointer ∧
        orText (some (atomText lib d.rule_id)) "validation".toList =
          orText (some (atomText lib e.rule_id)) "validation".toList ∧
        atomText lib d.subject_atom = atomText lib e.subject_atom := by
  unfold Defect.fingerprint rejection_fingerprint
  rw [hdigest.eq_iff, compactStrings_identity, compactStrings_identity]
  simp only [_normalize_atom_rule, _normalize_atom_twice]
  constructor
  · intro h
    have hmembers := compactMembers_injective (by simp) (List.cons.inj h).2
    simp only [List.cons.injEq, Prod.mk.injEq, true_and, and_true] at hmembers
    obtain ⟨hclass, hpointer, hrule, hsubject, hvalidator⟩ := hmembers
    exact ⟨hvalidator, hclass, hpointer, hrule, hsubject⟩
  · rintro ⟨hvalidator, hclass, hpointer, hrule, hsubject⟩
    rw [hvalidator, hclass, hpointer, hrule, hsubject]

end Retry

end AiOrg

/-!
## When a retry is stopped

A decision looks at the fingerprints of the rejection right before it. It is right about the defects of all earlier
ones if and only if a defect that is back was there right before, and no two defects of the run are alike.
-/

namespace AiOrg

open List

namespace Retry

variable {lib : Lib}

theorem strip_of_mem_defects {call : Call} {d : Defect} (hd : d ∈ call.defects lib) :
    _to_json_pointer d.json_pointer = Text.strip d.json_pointer := by
  obtain ⟨item, -, rfl⟩ := mem_map.1 hd
  exact _to_json_pointer_twice _

theorem fingerprint_eq_iff_alike (hdigest : Function.Injective lib.digest) {call other : Call} {d e : Defect}
    (hd : d ∈ call.defects lib) (he : e ∈ other.defects lib) :
    d.fingerprint lib = e.fingerprint lib ↔ Alike lib d e := by
  rw [fingerprint_eq_iff hdigest, strip_of_mem_defects hd, strip_of_mem_defects he]
  exact ⟨fun ⟨hvalidator, hclass, hpointer, hrule, hsubject⟩ => ⟨hvalidator, hclass, hpointer, hrule, hsubject⟩,
    fun h => ⟨h.validator_id, h.error_class, h.json_pointer, h.rule_id, h.subject_atom⟩⟩

theorem atom_fingerprints_eq (call : Call) :
    (validation_rejection lib call).atom_fingerprints = (call.defects lib).map (Defect.fingerprint lib) := by
  have hne : ¬ (validation_rejection lib call).atoms.isEmpty = true := by
    rw [List.isEmpty_iff]
    exact call.atoms_ne_nil lib
  rw [ValidationRejection.atom_fingerprints, if_neg hne, Call.defects, map_map]
  exact map_map

theorem stateAfter_concat (earlier : List Call) (last : Call) : stateAfter lib (earlier ++ [last]) =
    ⟨(validation_rejection lib last).atom_fingerprints.toFinset⟩ := by
  rw [stateAfter, foldl_append]
  rfl

theorem permanent_iff (state : RejectionRetryState) (rejection : ValidationRejection) :
    (state.classify rejection).1.permanent = true ↔
      ∃ fingerprint ∈ rejection.atom_fingerprints, fingerprint ∈ state.previous_fingerprints := by
  have hsort : ((rejection.atom_fingerprints.toFinset ∩ state.previous_fingerprints).sort (· ≤ ·)).isEmpty = true ↔
      rejection.atom_fingerprints.toFinset ∩ state.previous_fingerprints = ∅ := by
    rw [List.isEmpty_iff, ← length_eq_zero_iff, Finset.length_sort, Finset.card_eq_zero]
  unfold RejectionRetryState.classify
  rw [Bool.not_eq_true', ← Bool.not_eq_true, hsort, ← Ne, ← Finset.nonempty_iff_ne_empty]
  simp [Finset.Nonempty]

theorem decisionAfter_nil (call : Call) : (decisionAfter lib [] call).permanent = false := by
  rw [← Bool.not_eq_true, decisionAfter, permanent_iff]
  simp [stateAfter, RejectionRetryState.init]

theorem decisionAfter_concat (earlier : List Call) (last call : Call) :
    (decisionAfter lib (earlier ++ [last]) call).permanent = true ↔
      ∃ d ∈ call.defects lib, ∃ e ∈ last.defects lib, d.fingerprint lib = e.fingerprint lib := by
  rw [decisionAfter, permanent_iff, stateAfter_concat, atom_fingerprints_eq, atom_fingerprints_eq]
  simp only [mem_map, mem_toFinset]
  constructor
  · rintro ⟨_, ⟨d, hd, rfl⟩, e, he, heq⟩
    exact ⟨d, hd, e, he, heq.symm⟩
  · rintro ⟨d, hd, e, he, heq⟩
    exact ⟨_, ⟨d, hd, rfl⟩, e, he, heq.symm⟩

theorem mem_flatMap_defects {calls : List Call} {call : Call} {d : Defect} (hcall : call ∈ calls)
    (hd : d ∈ call.defects lib) : d ∈ calls.flatMap (Call.defects lib) :=
  mem_flatMap.2 ⟨call, hcall, hd⟩

/-- The decisions on a sequence of rejections are right exactly if every rejection that shares a defect with an earlier
one shares one with the rejection right before it, and alike defects of the sequence are equal. -/
theorem decisions_exact_iff (hdigest : Function.Injective lib.digest) (calls : List Call) :
    Exact lib calls ↔
      (∀ earlier last call later, calls = earlier ++ last :: call :: later →
        (∃ old ∈ earlier, Shares lib call old) → Shares lib call last) ∧
      ∀ d ∈ calls.flatMap (Call.defects lib), ∀ e ∈ calls.flatMap (Call.defects lib), Alike lib d e → d = e := by
  have halike : ∀ d ∈ calls.flatMap (Call.defects lib), ∀ e ∈ calls.flatMap (Call.defects lib),
      d.fingerprint lib = e.fingerprint lib ↔ Alike lib d e := by
    intro d hd e he
    obtain ⟨call, -, hd⟩ := mem_flatMap.1 hd
    obtain ⟨other, -, he⟩ := mem_flatMap.1 he
    exact fingerprint_eq_iff_alike hdigest hd he
  -- where fingerprints tell the defects apart, a decision is about the defects of the rejection right before
  have hlast : (∀ d ∈ calls.flatMap (Call.defects lib), ∀ e ∈ calls.flatMap (Call.defects lib),
      d.fingerprint lib = e.fingerprint lib → d = e) →
      ∀ earlier last call later, calls = earlier ++ last :: call :: later →
        ((decisionAfter lib (earlier ++ [last]) call).permanent = true ↔ Shares lib call last) := by
    intro hfresh earlier last call later hcalls
    have hmem : last ∈ calls ∧ call ∈ calls := by simp [hcalls]
    rw [decisionAfter_concat]
    constructor
    · rintro ⟨d, hd, e, he, heq⟩
      obtain rfl := hfresh d (mem_flatMap_defects hmem.2 hd) e (mem_flatMap_defects hmem.1 he) heq
      exact ⟨d, hd, he⟩
    · rintro ⟨d, hd, he⟩
      exact ⟨d, hd, d, he, rfl⟩
  constructor
  · rintro ⟨hpermanent, hfresh⟩
    have hfresh' : ∀ d ∈ calls.flatMap (Call.defects lib), ∀ e ∈ calls.flatMap (Call.defects lib),
        d.fingerprint lib = e.fingerprint lib → d = e :=
      fun d hd e he heq => by_contra fun hne => hfresh d hd e he hne heq
    refine ⟨?_, fun d hd e he h => hfresh' d hd e he ((halike d hd e he).2 h)⟩
    rintro earlier last call later hcalls ⟨old, hold, hshares⟩
    refine (hlast hfresh' earlier last call later hcalls).1 ?_
    refine (hpermanent (earlier ++ [last]) call later (by rw [hcalls, append_cons])).2 ?_
    exact ⟨old, mem_append_left _ hold, hshares⟩
  · rintro ⟨hback, hequal⟩
    have hfresh : ∀ d ∈ calls.flatMap (Call.defects lib), ∀ e ∈ calls.flatMap (Call.defects lib),
        d.fingerprint lib = e.fingerprint lib → d = e :=
      fun d hd e he heq => hequal d hd e he ((halike d hd e he).1 heq)
    refine ⟨?_, fun d hd e he hne heq => hne (hfresh d hd e he heq)⟩
    intro earlier call later hcalls
    rcases eq_nil_or_concat' earlier with rfl | ⟨front, last, rfl⟩
    · simp [decisionAfter_nil]
    · rw [append_assoc, singleton_append] at hcalls
      rw [hlast hfresh front last call later hcalls]
      constructor
      · exact fun h => ⟨last, by simp, h⟩
      · rintro ⟨old, hold, hshares⟩
        rcases mem_append.1 hold with hold | hold
        · exact hback front last call later hcalls ⟨old, hold, hshares⟩
        · rwa [← mem_singleton.1 hold]

/-- A report of one defect, with its parts given. -/
def report (subject : List Char) : Call where
  validator_id := ['v']
  requirements := [['x']]
  keywords := ⟨some ['c'], some ['$'], some ['r'], none, none, some subject⟩
  reported := cons_ne_nil _ _

theorem defects_report {subject : List Char} (hsubject : subject ≠ []) :
    (report subject).defects lib = [⟨['v'], ['r'], ['c'], [], subject⟩] := by
  have hne : subject.isEmpty = false := by simpa using hsubject
  simp [report, Call.defects, defect, cleanPath, orText, hne]
  rfl

/-- What is known of ASCII text, with an identity as its digest. -/
def plainLib : Lib where
  lower := List.map Char.toLower
  lower_ascii := fun _ _ => rfl
  isWord := Char.isAlphanum
  isAlpha := Char.isAlpha
  digest := String.ofList

theorem plainLib_injective : Function.Injective plainLib.digest := fun _ _ h => String.ofList_inj.1 h

/-- Two defects that take turns are never stopped, and a fresh one in another script is. -/
theorem decisions_not_exact :
    ¬ Exact plainLib [report ['a'], report ['b'], report ['a']] ∧
      ¬ Exact plainLib [report ['猫'], report ['犬']] := by
  have hnormal : _normalize_atom plainLib ['猫'] = _normalize_atom plainLib ['犬'] := by decide +kernel
  constructor
  · intro h
    have hpermanent := (h.permanent [report ['a'], report ['b']] (report ['a']) [] rfl).2
      ⟨report ['a'], mem_cons_self, by simp [Shares, defects_report]⟩
    rw [show [report ['a'], report ['b']] = [report ['a']] ++ [report ['b']] from rfl, decisionAfter_concat,
      defects_report (cons_ne_nil _ _), defects_report (cons_ne_nil _ _)] at hpermanent
    simp only [mem_singleton, exists_eq_left, fingerprint_eq_iff plainLib_injective] at hpermanent
    exact absurd hpermanent.2.2.2.2 (by decide +kernel)
  · intro h
    refine h.fresh ⟨['v'], ['r'], ['c'], [], ['猫']⟩ ?_ ⟨['v'], ['r'], ['c'], [], ['犬']⟩ ?_ (by decide) ?_
    · exact mem_flatMap.2 ⟨report ['猫'], by simp, by simp [defects_report]⟩
    · exact mem_flatMap.2 ⟨report ['犬'], by simp, by simp [defects_report]⟩
    · rw [Defect.fingerprint, Defect.fingerprint, hnormal]

/-- The law at a defect that is back at once. -/
theorem decisions_exact_repeated :
    Exact plainLib [report ['a'], report ['a']] ↔
      (∀ earlier last call later, [report ['a'], report ['a']] = earlier ++ last :: call :: later →
        (∃ old ∈ earlier, Shares plainLib call old) → Shares plainLib call last) ∧
      ∀ d ∈ [report ['a'], report ['a']].flatMap (Call.defects plainLib),
        ∀ e ∈ [report ['a'], report ['a']].flatMap (Call.defects plainLib), Alike plainLib d e → d = e :=
  decisions_exact_iff plainLib_injective _

end Retry

end AiOrg
