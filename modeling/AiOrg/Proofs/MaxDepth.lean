import AiOrg.Proofs.Preflight
import AiOrg.Python.Base64

/-!
# Parsing with and without a depth bound

`ParseMaxDepth` returns the tree of `Parse` where it is not too deep and a depth error where it is;
where `Parse` fails both fail, with one code and pointer unless a token is missing where an array may
end (`parseMaxDepth_agrees`).
-/

namespace AiOrg

namespace StrictJson

/-- The decoders after some tokens. -/
def Decoder.Reads : Decoder → Decoder → Prop :=
  Relation.ReflTransGen fun dec dec' => ∃ token, dec.token = .ok (token, dec')

/-- The first token that is missing is the next element of an array or its end. -/
def MissesInArray (lexemes : List (Lexeme × ℕ)) : Prop :=
  ∃ last, (Decoder.new lexemes).Reads last ∧ (∃ fault, last.token = .error fault) ∧ last.EndsInArray

section Scan

variable {maxDepth : ℤ} {s s' mid : Scan}

theorem scanStep_ok {complete : Bool} (h : scanStep maxDepth s = .ok (s', complete)) :
    ∃ token, s.dec.token = .ok (token, s'.dec) ∧
      (s'.depthError = s.depthError ∨ s'.depthError = noteDepth maxDepth s) := by
  have hclose : ∀ delim dec, scanClose s delim dec = .ok (s', complete) →
      s'.dec = dec ∧ s'.depthError = s.depthError := by
    intro delim dec hclose
    unfold scanClose at hclose
    split at hclose
    · split_ifs at hclose
      cases hclose
      exact ⟨rfl, rfl⟩
    · cases hclose
  have hvalue : ∀ token dec, scanValue maxDepth s token dec = .ok (s', complete) →
      s'.dec = dec ∧ s'.depthError = noteDepth maxDepth s := by
    intro token dec hvalue
    unfold scanValue at hvalue
    dsimp only at hvalue
    split at hvalue <;> cases hvalue <;> exact ⟨rfl, rfl⟩
  have hname : ∀ frame outer token dec, scanName s frame outer token dec = .ok (s', complete) →
      s'.dec = dec ∧ s'.depthError = s.depthError := by
    intro frame outer token dec hname
    unfold scanName at hname
    split at hname <;> cases hname
    exact ⟨rfl, rfl⟩
  unfold scanStep at h
  split at h
  · cases h
  · rename_i dec htoken
    obtain ⟨rfl, hdepth⟩ := hclose _ _ h
    exact ⟨_, htoken, .inl hdepth⟩
  · rename_i dec htoken
    obtain ⟨rfl, hdepth⟩ := hclose _ _ h
    exact ⟨_, htoken, .inl hdepth⟩
  · rename_i token dec _ _ htoken
    unfold scanOpen at h
    split at h
    · split_ifs at h
      · obtain ⟨rfl, hdepth⟩ := hname _ _ _ _ h
        exact ⟨_, htoken, .inl hdepth⟩
      · obtain ⟨rfl, hdepth⟩ := hvalue _ _ h
        exact ⟨_, htoken, .inr hdepth⟩
    · obtain ⟨rfl, hdepth⟩ := hvalue _ _ h
      exact ⟨_, htoken, .inr hdepth⟩

theorem scanStep_token {complete : Bool} (h : scanStep maxDepth s = .ok (s', complete)) :
    ∃ token, s.dec.token = .ok (token, s'.dec) := by
  obtain ⟨token, htoken, -⟩ := scanStep_ok h
  exact ⟨token, htoken⟩

theorem Turns.reads (h : Turns maxDepth s s') : s.dec.Reads s'.dec :=
  Relation.ReflTransGen.lift Scan.dec (fun _ _ hturn => scanStep_token hturn) _ _ h

theorem scan_turns (h : Turns maxDepth s mid) {fuel : ℕ} (hfuel : s.dec.rest.length < fuel) :
    ∃ fuel', mid.dec.rest.length < fuel' ∧ scan maxDepth fuel s = scan maxDepth fuel' mid := by
  induction h using Relation.ReflTransGen.head_induction_on generalizing fuel with
  | refl => exact ⟨fuel, hfuel, rfl⟩
  | head hturn _ ih =>
    obtain ⟨token, htoken⟩ := scanStep_token hturn
    have hlength := Decoder.token_length htoken
    obtain ⟨fuel, rfl⟩ := Nat.exists_eq_succ_of_ne_zero (by omega : fuel ≠ 0)
    obtain ⟨fuel', hfuel', hscan⟩ := ih (show _ < fuel by omega)
    refine ⟨fuel', hfuel', ?_⟩
    rw [← hscan, scan]
    have hstep : scanStep maxDepth _ = _ := hturn
    rw [hstep]

theorem scan_error (h : Turns maxDepth s mid) {e : Error} (he : scanStep maxDepth mid = .error e)
    {fuel : ℕ} (hfuel : s.dec.rest.length < fuel) : scan maxDepth fuel s = .error e := by
  obtain ⟨fuel', hfuel', hscan⟩ := scan_turns h hfuel
  obtain ⟨fuel', rfl⟩ := Nat.exists_eq_succ_of_ne_zero (by omega : fuel' ≠ 0)
  rw [hscan, scan, he]

theorem scan_ok (h : Turns maxDepth s mid) (hlast : scanStep maxDepth mid = .ok (s', true))
    {fuel : ℕ} (hfuel : s.dec.rest.length < fuel) : scan maxDepth fuel s = .ok s' := by
  obtain ⟨fuel', hfuel', hscan⟩ := scan_turns h hfuel
  obtain ⟨fuel', rfl⟩ := Nat.exists_eq_succ_of_ne_zero (by omega : fuel' ≠ 0)
  rw [hscan, scan, hlast]

/-- The only error that is noted is the depth error. -/
def NotesDepth (s : Scan) : Prop := ∀ e, s.depthError = some e → e.code = .depthLimit

theorem NotesDepth.step (h : NotesDepth s) {complete : Bool}
    (hstep : scanStep maxDepth s = .ok (s', complete)) : NotesDepth s' := by
  obtain ⟨-, -, hdepth | hdepth⟩ := scanStep_ok hstep
  · rw [NotesDepth, hdepth]
    exact h
  · intro e he
    rw [hdepth, noteDepth] at he
    split at he
    · rename_i noted hnoted
      cases he
      exact h _ hnoted
    · split_ifs at he
      cases he
      rfl

theorem NotesDepth.turns (h : NotesDepth s) (hturns : Turns maxDepth s s') : NotesDepth s' := by
  induction hturns with
  | refl => exact h
  | tail _ hturn ih => exact ih.step hturn

end Scan

section Bound

theorem parseMembers_object {fuel : ℕ} : ∀ {b b' : Building} {path : String} {depth bound : ℤ}
    {seen : List String} {members : List (String × Node)} {n : Node},
    parseMembers fuel b path depth bound seen members = (.ok n, b') →
      ∃ more, n = .object (members ++ more) := by
  induction fuel with
  | zero =>
    intro _ _ _ _ _ _ _ _ h
    cases h
  | succ fuel ih =>
    intro b b' path depth bound seen members n h
    rw [parseMembers] at h
    split_ifs at h
    · split at h
      · dsimp only at h
        split at h
        · cases h
        · obtain ⟨more, rfl⟩ := ih h
          exact ⟨_ :: more, by rw [List.append_assoc]; rfl⟩
      · cases h
      · cases h
    · split at h
      · cases h
        exact ⟨[], by rw [List.append_nil]⟩
      · cases h
      · cases h

theorem parseElements_array {fuel : ℕ} : ∀ {b b' : Building} {path : String} {depth bound : ℤ}
    {index : ℕ} {elements : List Node} {n : Node},
    parseElements fuel b path depth bound index elements = (.ok n, b') →
      ∃ more, n = .array (elements ++ more) := by
  induction fuel with
  | zero =>
    intro _ _ _ _ _ _ _ _ h
    cases h
  | succ fuel ih =>
    intro b b' path depth bound index elements n h
    rw [parseElements] at h
    split_ifs at h
    · split at h
      · cases h
      · obtain ⟨more, rfl⟩ := ih h
        exact ⟨_ :: more, by rw [List.append_assoc]; rfl⟩
    · split at h
      · cases h
        exact ⟨[], by rw [List.append_nil]⟩
      · cases h
      · cases h

/-- A value that is not too deep is built under the bound as without it. -/
theorem parse_bounded (maxDepth : ℤ) (fuel : ℕ) :
    (∀ {b b' : Building} {path : String} {depth : ℤ} {n : Node},
      parseValue fuel b path depth 0 = (.ok n, b') → depth + n.depth ≤ maxDepth + 1 →
        parseValue fuel b path depth maxDepth = (.ok n, b')) ∧
    (∀ {b b' : Building} {path : String} {depth : ℤ} {seen : List String}
      {members : List (String × Node)} {n : Node},
      parseMembers fuel b path depth 0 seen members = (.ok n, b') →
        depth + n.depth ≤ maxDepth + 1 →
          parseMembers fuel b path depth maxDepth seen members = (.ok n, b')) ∧
    ∀ {b b' : Building} {path : String} {depth : ℤ} {index : ℕ} {elements : List Node} {n : Node},
      parseElements fuel b path depth 0 index elements = (.ok n, b') →
        depth + n.depth ≤ maxDepth + 1 →
          parseElements fuel b path depth maxDepth index elements = (.ok n, b') := by
  induction fuel with
  | zero => exact ⟨fun h => by (cases h), fun h => by (cases h), fun h => by (cases h)⟩
  | succ fuel ih =>
    obtain ⟨hvalue, hmembers, helements⟩ := ih
    refine ⟨?_, ?_, ?_⟩
    · intro b b' path depth n h hdepth
      have hpos := n.one_le_depth
      rw [parseValue] at h ⊢
      rw [if_neg (by omega)] at h
      rw [if_neg (by omega)]
      split at h
      · cases h
      · rename_i token dec htoken
        cases token with
        | delim delim =>
          cases delim with
          | openObject => exact hmembers h hdepth
          | openArray => exact helements h hdepth
          | _ => cases h
        | _ => exact h
    · intro b b' path depth seen members n h hdepth
      rw [parseMembers] at h ⊢
      split_ifs at h ⊢
      · split at h
        · rename_i name dec htoken
          dsimp only at h ⊢
          split at h
          · cases h
          · rename_i value b'' hparse
            -- the value is one of the members that are returned
            obtain ⟨more, rfl⟩ := parseMembers_object h
            have hle : value.depth ≤ Node.membersDepth (members ++ [(name, value)] ++ more) :=
              Node.le_membersDepth (show (name, value) ∈ _ by simp)
            rw [hvalue hparse (by rw [Node.depth] at hdepth; push_cast at hdepth; omega)]
            exact hmembers h hdepth
        · cases h
        · cases h
      · exact h
    · intro b b' path depth index elements n h hdepth
      rw [parseElements] at h ⊢
      split_ifs at h ⊢
      · split at h
        · cases h
        · rename_i value b'' hparse
          obtain ⟨more, rfl⟩ := parseElements_array h
          have hle : value.depth ≤ Node.elementsDepth (elements ++ [value] ++ more) :=
            Node.le_elementsDepth (by simp)
          rw [hvalue hparse (by rw [Node.depth] at hdepth; push_cast at hdepth; omega)]
          exact helements h hdepth
      · exact h

end Bound

/-! ### The two parsers -/

theorem selectParseError_code {primary : Error} (hprimary : primary.code ≠ .depthLimit)
    {duplicates : List Error} (h : AllDuplicates duplicates) :
    (selectParseError primary duplicates).code ≠ .depthLimit := by
  rw [selectParseError_eq hprimary h]
  rcases hbest : selectDuplicateError duplicates with _ | best
  · exact hprimary
  · rw [selectDuplicateError_eq] at hbest
    have hcode := h best (Selection.least_mem _ hbest)
    unfold Selection.better
    dsimp only
    split_ifs
    · rw [hcode]
      simp
    · exact hprimary

/-- Two errors with one class and pointer, or of one document that breaks off where an array may end:
there one names the array and the other its next element, before duplicates are preferred. -/
def Agree (lexemes : List (Lexeme × ℕ)) (e e' : Error) : Prop :=
  e'.code = e.code ∧ e'.path = e.path ∨
    MissesInArray lexemes ∧ ∃ path offset offset' duplicates, ∃ index : ℕ,
      AllDuplicates duplicates ∧ e = selectParseError ⟨.invalidJSON, path, offset⟩ duplicates ∧
        e' = selectParseError ⟨.invalidJSON, joinPointer path (toString index), offset'⟩ duplicates

variable {maxDepth : ℤ} {lexemes : List (Lexeme × ℕ)}

theorem preflight_of_value {n : Node} {b : Building}
    (hparse : parseValue (2 * lexemes.length + 2) ⟨.new lexemes, []⟩ "" 1 0 = (.ok n, b))
    {s : Scan} (hscan : scan maxDepth (lexemes.length + 1) ⟨.new lexemes, [], .empty, none⟩ = .ok s)
    (hmatches : Matches s b) (hnotes : NotesDepth s)
    (hdeep : s.depthError.isSome = true ↔ maxDepth < n.depth) :
    (build lexemes 0 = .ok n ∧ (n.depth ≤ maxDepth → preflightMaxDepth lexemes maxDepth = none ∧
        build lexemes maxDepth = .ok n) ∧
      (maxDepth < n.depth → ∃ e, preflightMaxDepth lexemes maxDepth = some e ∧
        e.code = .depthLimit)) ∨
    ∃ e, build lexemes 0 = .error e ∧ preflightMaxDepth lexemes maxDepth = some e ∧
      e.code ≠ .depthLimit := by
  have hall := hmatches.allDuplicates
  unfold preflightMaxDepth
  rw [hscan]
  dsimp only
  rw [hmatches.dec, hmatches.duplicates, selected_pathsOf hall]
  have hbuild : ∀ bound, parseValue (2 * lexemes.length + 2) ⟨.new lexemes, []⟩ "" 1 bound =
      (.ok n, b) → build lexemes bound = finish n b := fun bound h => by
    rw [build, h]
  rw [hbuild 0 hparse]
  unfold finish
  rcases htrailing : trailing b.dec with _ | e
  · dsimp only
    rcases hduplicate : selectDuplicateError b.duplicates with _ | duplicate
    · refine .inl ⟨rfl, fun hle => ?_, fun hlt => ?_⟩
      · have hnone : s.depthError = none := by
          rw [← Option.not_isSome_iff_eq_none, hdeep]
          exact not_lt.2 hle
        have hbounded := (parse_bounded maxDepth _).1 hparse (by omega)
        refine ⟨hnone, ?_⟩
        rw [hbuild maxDepth hbounded, finish, htrailing, hduplicate]
      · obtain ⟨e, he⟩ := Option.isSome_iff_exists.1 (hdeep.2 hlt)
        exact ⟨e, he, hnotes e he⟩
    · refine .inr ⟨duplicate, rfl, rfl, ?_⟩
      rw [selectDuplicateError_eq] at hduplicate
      rw [hall duplicate (Selection.least_mem _ hduplicate)]
      simp
  · have hcode : e.code ≠ .depthLimit := by
      unfold trailing at htrailing
      split at htrailing <;> cases htrailing <;> simp
    refine .inr ⟨selectParseError e b.duplicates, rfl, ?_, selectParseError_code hcode hall⟩
    exact congrArg some (selectPreflightError_eq hcode hall)

theorem preflight_build (maxDepth : ℤ) (lexemes : List (Lexeme × ℕ)) :
    (∃ n, build lexemes 0 = .ok n ∧
      (n.depth ≤ maxDepth → preflightMaxDepth lexemes maxDepth = none ∧
        build lexemes maxDepth = .ok n) ∧
      (maxDepth < n.depth → ∃ e, preflightMaxDepth lexemes maxDepth = some e ∧
        e.code = .depthLimit)) ∨
    ∃ e e', build lexemes 0 = .error e ∧ preflightMaxDepth lexemes maxDepth = some e' ∧
      e'.code ≠ .depthLimit ∧ Agree lexemes e e' := by
  have hfollows := (follow maxDepth (2 * lexemes.length + 2)).1
    ⟨.new lexemes, [], .empty, none⟩ ⟨.new lexemes, []⟩ "" ⟨rfl, rfl, by simp [AllDuplicates]⟩ trivial rfl
    (.inl rfl) (by simp only [Decoder.new]; omega)
  have hone : (([] : List ScanFrame).length : ℤ) + 1 = 1 := rfl
  rw [hone] at hfollows
  rcases hparse : parseValue (2 * lexemes.length + 2) ⟨.new lexemes, []⟩ "" 1 0 with
    ⟨e | n, b⟩ <;> rw [hparse] at hfollows
  · have hbreaks : Breaks maxDepth _ e b := hfollows
    obtain ⟨mid, path, offset, hturns, hfault, hstep, hin, hout⟩ := hbreaks.turns
    have hall := hbreaks.allDuplicates
    have hscan : scan maxDepth (lexemes.length + 1) _ = .error _ :=
      scan_error hturns hstep (Nat.lt_succ_self _)
    rw [selectPreflightError_eq (by simp) hall] at hscan
    have hbuild : build lexemes 0 = .error (selectParseError e b.duplicates) := by
      unfold build
      rw [hparse]
    refine .inr ⟨_, selectParseError ⟨.invalidJSON, path, offset⟩ b.duplicates, hbuild, ?_,
      selectParseError_code (by simp) hall, ?_⟩
    · unfold preflightMaxDepth
      rw [hscan]
    · obtain ⟨code, epath, eoffset⟩ := e
      obtain rfl : code = .invalidJSON := hbreaks.code
      by_cases hends : mid.dec.EndsInArray
      · obtain ⟨index, rfl⟩ := hin hends
        exact .inr ⟨⟨mid.dec, hturns.reads, hfault, hends⟩,
          epath, eoffset, offset, b.duplicates, index, hall, rfl, rfl⟩
      · rw [hout hends]
        exact .inl (selectParseError_offset (by simp) (by simp) _ _ _ hall)
  · have hfinishes : Finishes maxDepth _ _ b _ _ _ _ := hfollows
    obtain ⟨mid, s', hturns, hstep, hmatches, -, hdeep⟩ := hfinishes.turns
    have hscan : scan maxDepth (lexemes.length + 1) _ = .ok _ :=
      scan_ok hturns hstep (Nat.lt_succ_self _)
    have hnotes : NotesDepth s' := NotesDepth.step (NotesDepth.turns (fun _ h => by cases h) hturns)
      hstep
    rcases preflight_of_value hparse hscan hmatches hnotes (by simpa using hdeep) with
      h | ⟨e, hbuild, hpreflight, hcode⟩
    · exact .inl ⟨n, h⟩
    · exact .inr ⟨e, e, hbuild, hpreflight, hcode, .inl ⟨rfl, rfl⟩⟩

/-- With a bound the parser returns the tree it returns without one where the tree is not too deep,
the depth error where it is, and where there is no tree an error that agrees. -/
theorem parseMaxDepth_agrees (source : Source) (src : List UInt8) {maxDepth : ℤ}
    (hbound : 0 < maxDepth) :
    (∀ n, ParseMaxDepth source src maxDepth = .ok n ↔
      Parse source src = .ok n ∧ n.depth ≤ maxDepth) ∧
    ((∃ e, ParseMaxDepth source src maxDepth = .error e ∧ e.code = .depthLimit) ↔
      ∃ n, Parse source src = .ok n ∧ maxDepth < n.depth) ∧
    ∀ e, Parse source src = .error e → ∃ e', ParseMaxDepth source src maxDepth = .error e' ∧
      Agree (source.lexemes src) e e' := by
  have hparse : Parse source src = if source.utf8Valid src then build (source.lexemes src) 0
      else .error ⟨.invalidUTF8, "", 0⟩ := rfl
  rw [hparse, ParseMaxDepth, if_neg (by omega), parse, if_pos hbound]
  by_cases hutf8 : source.utf8Valid src = true
  · rw [if_pos hutf8, if_pos hutf8]
    rcases preflight_build maxDepth (source.lexemes src) with
      ⟨n, hbuild, hshallow, hdeep⟩ | ⟨e, e', hbuild, hpreflight, hcode, hagree⟩
    · rw [hbuild]
      by_cases hle : (n.depth : ℤ) ≤ maxDepth
      · obtain ⟨hnone, hsame⟩ := hshallow hle
        rw [hnone]
        dsimp only
        rw [hsame]
        refine ⟨fun m => ⟨fun h => ?_, fun h => h.1⟩, ⟨?_, ?_⟩, fun e h => by cases h⟩
        · cases h
          exact ⟨rfl, hle⟩
        · rintro ⟨e, he, -⟩
          cases he
        · rintro ⟨m, hm, hlt⟩
          cases hm
          omega
      · obtain ⟨e, he, hcode⟩ := hdeep (not_le.1 hle)
        rw [he]
        refine ⟨fun m => ⟨fun h => (by cases h), fun h => ?_⟩, ⟨fun _ => ⟨n, rfl, not_le.1 hle⟩,
          fun _ => ⟨e, rfl, hcode⟩⟩, fun e h => by cases h⟩
        obtain ⟨hm, hle'⟩ := h
        cases hm
        exact absurd hle' hle
    · rw [hbuild, hpreflight]
      refine ⟨fun m => ⟨fun h => (by cases h), fun h => (by cases h.1)⟩, ⟨?_, ?_⟩, fun d hd => ?_⟩
      · rintro ⟨d, hd, hdcode⟩
        cases hd
        exact absurd hdcode hcode
      · rintro ⟨m, hm, -⟩
        cases hm
      · cases hd
        exact ⟨e', rfl, hagree⟩
  · rw [if_neg hutf8, if_neg hutf8]
    refine ⟨fun m => ⟨fun h => (by cases h), fun h => (by cases h.1)⟩, ⟨?_, ?_⟩, fun d hd => ?_⟩
    · rintro ⟨d, hd, hdcode⟩
      cases hd
      cases hdcode
    · rintro ⟨m, hm, -⟩
      cases hm
    · exact ⟨_, rfl, .inl (by cases hd; exact ⟨rfl, rfl⟩)⟩

/-- The lexemes of some documents: `[1`, and `[[0]` with a wrong end. -/
def sampleSource : Source where
  utf8Valid _ := true
  lexemes src :=
    if src = asciiBytes "[1" then
      [(.token (.delim .openArray), 1), (.token (.number "1"), 2)]
    else if src = asciiBytes "[[0]\x7d" then
      [(.token (.delim .openArray), 1), (.token (.delim .openArray), 2), (.token (.number "0"), 3),
        (.token (.delim .closeArray), 4), (.token (.delim .closeObject), 5)]
    else []

theorem parseMaxDepth_agrees_broken :
    ((0 : ℤ) < 8) ∧ ∃ e', ParseMaxDepth sampleSource (asciiBytes "[1") 8 = .error e' ∧
      Agree (sampleSource.lexemes (asciiBytes "[1")) ⟨.invalidJSON, "", 2⟩ e' :=
  ⟨by decide, (parseMaxDepth_agrees sampleSource (asciiBytes "[1") (by decide)).2.2
    ⟨.invalidJSON, "", 2⟩ (by rfl)⟩

/-- A document that breaks off in an array has two pointers, and one that is too deep before it goes
wrong has no depth error. -/
theorem parsers_differ :
    (∃ e e', Parse sampleSource (asciiBytes "[1") = .error e ∧
      ParseMaxDepth sampleSource (asciiBytes "[1") 8 = .error e' ∧ e.path ≠ e'.path) ∧
    ∃ e, ParseMaxDepth sampleSource (asciiBytes "[[0]\x7d") 1 = .error e ∧ e.code = .invalidJSON := by
  exact ⟨⟨⟨.invalidJSON, "", 2⟩, ⟨.invalidJSON, "/1", 2⟩, rfl, rfl, by decide⟩,
    ⟨.invalidJSON, "/1", 4⟩, rfl, rfl⟩

end StrictJson

end AiOrg
