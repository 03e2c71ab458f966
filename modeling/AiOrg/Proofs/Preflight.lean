import AiOrg.Proofs.Decoder

/-!
# The preflight follows the builder

Where the builder reads a value, the loop of the preflight takes turns on the same tokens: it ends
behind the value with the same duplicates, and has noted a depth error if and only if a value in it is
too deep (`value_follows`). Where the builder fails, the loop fails on the same token. Its pointer is
then the builder's, unless the token is missing where an array may end: there the builder names the
array and the preflight the next element.
-/

namespace AiOrg

open List

namespace StrictJson

section Scan

variable (maxDepth : ℤ)

/-- A turn of the loop that is not the last one. -/
def Turn (s s' : Scan) : Prop := scanStep maxDepth s = .ok (s', false)

def Turns : Scan → Scan → Prop := Relation.ReflTransGen (Turn maxDepth)

/-- The next element of an array or its end is due, and neither is there. -/
def Decoder.EndsInArray (dec : Decoder) : Prop := dec.state.inArray = true ∧ dec.more = false

structure Matches (s : Scan) (b : Building) : Prop where
  dec : s.dec = b.dec
  duplicates : s.duplicates = pathsOf b.duplicates
  allDuplicates : AllDuplicates b.duplicates

/-- The loop gets behind the value the builder has read. -/
structure Finishes (s : Scan) (b b' : Building) (state : TokenState) (tokens : List TokenState)
    (stack : List ScanFrame) (deep : Prop → Prop) : Prop where
  state : b'.dec.state = state
  tokens : b'.dec.stack = tokens
  shorter : b'.dec.rest.length < b.dec.rest.length
  turns : ∃ mid s', Turns maxDepth s mid ∧ scanStep maxDepth mid = .ok (s', stack.isEmpty) ∧
    Matches s' b' ∧ s'.stack = stack ∧ deep (s'.depthError.isSome = true)

/-- The loop fails on the token the builder has failed on. -/
structure Breaks (s : Scan) (e : Error) (b' : Building) : Prop where
  code : e.code = .invalidJSON
  allDuplicates : AllDuplicates b'.duplicates
  turns : ∃ mid path offset, Turns maxDepth s mid ∧ (∃ fault, mid.dec.token = .error fault) ∧
    scanStep maxDepth mid =
      .error (selectPreflightError ⟨.invalidJSON, path, offset⟩ (pathsOf b'.duplicates)) ∧
    (mid.dec.EndsInArray → ∃ index : ℕ, path = joinPointer e.path (toString index)) ∧
    (¬ mid.dec.EndsInArray → path = e.path)

def Follows (s : Scan) (b : Building) (state : TokenState) (tokens : List TokenState)
    (stack : List ScanFrame) (deep : Node → Prop → Prop) : Except Error Node × Building → Prop
  | (.ok n, b') => Finishes maxDepth s b b' state tokens stack (deep n)
  | (.error e, b') => Breaks maxDepth s e b'

variable {maxDepth} {s s' : Scan} {b b' : Building} {state : TokenState} {tokens : List TokenState}
  {stack : List ScanFrame}

theorem Turns.breaks {e : Error} (h : Turns maxDepth s s') (hbreaks : Breaks maxDepth s' e b') :
    Breaks maxDepth s e b' := by
  obtain ⟨mid, path, offset, hturns, hrest⟩ := hbreaks.turns
  exact ⟨hbreaks.code, hbreaks.allDuplicates, mid, path, offset, h.trans hturns, hrest⟩

theorem Turns.finishes {c : Building} {deep : Prop → Prop} (h : Turns maxDepth s s')
    (hshorter : c.dec.rest.length ≤ b.dec.rest.length)
    (hfinishes : Finishes maxDepth s' c b' state tokens stack deep) :
    Finishes maxDepth s b b' state tokens stack deep := by
  obtain ⟨mid, s'', hturns, hrest⟩ := hfinishes.turns
  exact ⟨hfinishes.state, hfinishes.tokens, hfinishes.shorter.trans_le hshorter,
    mid, s'', h.trans hturns, hrest⟩

theorem Turns.follows {c : Building} {deep deep' : Node → Prop → Prop} (h : Turns maxDepth s s')
    (hshorter : c.dec.rest.length ≤ b.dec.rest.length) {r : Except Error Node × Building}
    (hfollows : Follows maxDepth s' c state tokens stack deep r)
    (hdeep : ∀ n P, deep n P → deep' n P) : Follows maxDepth s b state tokens stack deep' r := by
  obtain ⟨_ | n, b'⟩ := r
  · exact h.breaks hfollows
  · have hfinishes : Finishes maxDepth s' c b' state tokens stack (deep n) := hfollows
    obtain ⟨mid, s'', hturns, hstep, hmatches, hstack, hn⟩ := hfinishes.turns
    exact h.finishes hshorter ⟨hfinishes.state, hfinishes.tokens, hfinishes.shorter,
      mid, s'', hturns, hstep, hmatches, hstack, hdeep n _ hn⟩

theorem Finishes.goes_on {deep : Prop → Prop}
    (h : Finishes maxDepth s b b' state tokens stack deep) (hstack : stack ≠ []) :
    ∃ s', Turns maxDepth s s' ∧ Matches s' b' ∧ s'.stack = stack ∧
      deep (s'.depthError.isSome = true) := by
  obtain ⟨mid, s', hturns, hstep, hmatches, hs', hdeep⟩ := h.turns
  have hempty : stack.isEmpty = false := by
    rw [Bool.eq_false_iff, ne_eq, List.isEmpty_iff]
    exact hstack
  rw [hempty] at hstep
  exact ⟨s', hturns.tail hstep, hmatches, hs', hdeep⟩

def AwaitsValue : List ScanFrame → Prop
  | [] => True
  | frame :: _ => frame.delim = .openArray ∨ frame.delim = .openObject ∧ frame.memberPath ≠ none

theorem expectedPath_eq (h : AwaitsValue stack) : scanExpectedPath stack = scanValuePath stack := by
  cases stack with
  | nil => rfl
  | cons frame stack =>
    rcases h with hdelim | ⟨hdelim, hmember⟩
    · simp [scanExpectedPath, scanValuePath, hdelim]
    · obtain ⟨path, hpath⟩ := Option.ne_none_iff_exists'.1 hmember
      simp [scanExpectedPath, scanValuePath, hdelim, hpath]

theorem scanStep_error {fault : TokenError} (h : s.dec.token = .error fault) :
    scanStep maxDepth s = .error (selectPreflightError
      ⟨.invalidJSON, materializeScanPath (scanExpectedPath s.stack), s.dec.offset⟩
        s.duplicates) := by
  unfold scanStep
  rw [h]

theorem scanStep_value {token : Token} {dec : Decoder} (h : s.dec.token = .ok (token, dec))
    (harray : token ≠ .delim .closeArray) (hobject : token ≠ .delim .closeObject)
    (hawaits : AwaitsValue s.stack) : scanStep maxDepth s = scanValue maxDepth s token dec := by
  have hvalue : scanOpen maxDepth s token dec = scanValue maxDepth s token dec := by
    unfold scanOpen
    split
    · rename_i frame stack hstack
      rw [hstack] at hawaits
      refine if_neg ?_
      rintro ⟨hdelim, hmember⟩
      rcases hawaits with hdelim' | ⟨-, hmember'⟩
      · rw [hdelim] at hdelim'
        cases hdelim'
      · exact hmember' hmember
    · rfl
  unfold scanStep
  rw [h]
  rcases token with ⟨_ | _ | _ | _⟩ | _ | _ | _ | _ <;>
    first | exact absurd rfl harray | exact absurd rfl hobject | exact hvalue

theorem scanStep_name {frame : ScanFrame} {outer : List ScanFrame} {name : String} {dec : Decoder}
    (h : s.dec.token = .ok (.string name, dec)) (hstack : s.stack = frame :: outer)
    (hdelim : frame.delim = .openObject) (hmember : frame.memberPath = none) :
    Turn maxDepth s ⟨dec, frame.expect name :: outer,
      if name ∈ frame.seen then s.duplicates.add (name :: frame.path) dec.offset else s.duplicates,
      s.depthError⟩ := by
  unfold Turn scanStep
  rw [h]
  dsimp only
  rw [scanOpen, hstack]
  dsimp only
  rw [if_pos ⟨hdelim, hmember⟩]
  rfl

theorem scanStep_close {frame : ScanFrame} {outer : List ScanFrame} {delim : Delim} {dec : Decoder}
    (h : s.dec.token = .ok (.delim delim, dec)) (hstack : s.stack = frame :: outer)
    (hmatching : matchingDelimiters frame.delim delim = true) :
    scanStep maxDepth s = .ok ({ s with dec := dec, stack := outer }, outer.isEmpty) := by
  have hclose : scanClose s delim dec = .ok ({ s with dec := dec, stack := outer }, outer.isEmpty) := by
    unfold scanClose
    rw [hstack]
    exact if_pos hmatching
  unfold scanStep
  rw [h]
  cases delim with
  | closeObject => exact hclose
  | closeArray => exact hclose
  | _ => cases hdelim : frame.delim <;> rw [hdelim] at hmatching <;> cases hmatching

theorem isSome_noteDepth : (noteDepth maxDepth s).isSome = true ↔
    s.depthError.isSome = true ∨ maxDepth < (s.stack.length + 1 : ℤ) := by
  unfold noteDepth
  rcases s.depthError with _ | e
  · by_cases hdeep : maxDepth < (s.stack.length + 1 : ℤ)
    · simp [hdeep]
    · simp [hdeep]
  · simp

theorem length_begun (stack : List ScanFrame) : (begun stack).length = stack.length := by
  cases stack <;> rfl

theorem not_endsInArray (h : b.dec.AtValue) : ¬ b.dec.EndsInArray := by
  rintro ⟨harray, hmore⟩
  rcases h with hstate | hstate | ⟨-, hmore'⟩
  · rw [hstate] at harray
    cases harray
  · rw [hstate] at harray
    cases harray
  · rw [hmore] at hmore'
    cases hmore'

/-! ### The builder and the loop -/

variable (maxDepth)

/-- What is shown of `parseValue`. -/
def ValueFollows (fuel : ℕ) : Prop :=
  ∀ (s : Scan) (b : Building) (path : String), Matches s b → AwaitsValue s.stack →
    materializeScanPath (scanValuePath s.stack) = path → b.dec.AtValue →
      2 * b.dec.rest.length + 1 ≤ fuel →
        Follows maxDepth s b b.dec.state.behind b.dec.stack (begun s.stack)
          (fun n P => P ↔ s.depthError.isSome = true ∨ maxDepth < (s.stack.length + n.depth : ℤ))
          (parseValue fuel b path (s.stack.length + 1) 0)

/-- What is shown of `parseMembers`. -/
def MembersFollow (fuel : ℕ) : Prop :=
  ∀ (s : Scan) (b : Building) (path : String) (frame : ScanFrame) (outer : List ScanFrame)
    (state : TokenState) (tokens : List TokenState) (members : List (String × Node)),
    Matches s b → s.stack = frame :: outer → frame.delim = .openObject →
      frame.memberPath = none → materializeScanPath frame.path = path →
        b.dec.state.inObject = true → b.dec.stack = state :: tokens →
          (maxDepth < (outer.length + 1 : ℤ) → s.depthError.isSome = true) →
            2 * b.dec.rest.length + 2 ≤ fuel →
              Follows maxDepth s b state.valueEnd tokens outer
                (fun n P => ∃ more, n = .object (members ++ more) ∧ (P ↔
                  s.depthError.isSome = true ∨
                    maxDepth < (outer.length + 1 + Node.membersDepth more : ℤ)))
                (parseMembers fuel b path (outer.length + 1) 0 frame.seen members)

/-- What is shown of `parseElements`. -/
def ElementsFollow (fuel : ℕ) : Prop :=
  ∀ (s : Scan) (b : Building) (path : String) (frame : ScanFrame) (outer : List ScanFrame)
    (state : TokenState) (tokens : List TokenState) (elements : List Node),
    Matches s b → s.stack = frame :: outer → frame.delim = .openArray →
      materializeScanPath frame.path = path → b.dec.state.inArray = true →
        b.dec.stack = state :: tokens →
          (maxDepth < (outer.length + 1 : ℤ) → s.depthError.isSome = true) →
            2 * b.dec.rest.length + 2 ≤ fuel →
              Follows maxDepth s b state.valueEnd tokens outer
                (fun n P => ∃ more, n = .array (elements ++ more) ∧ (P ↔
                  s.depthError.isSome = true ∨
                    maxDepth < (outer.length + 1 + Node.elementsDepth more : ℤ)))
                (parseElements fuel b path (outer.length + 1) 0 frame.nextIndex elements)

variable {maxDepth} {fuel : ℕ}

theorem valueFollows_succ (hmembers : MembersFollow maxDepth fuel)
    (helements : ElementsFollow maxDepth fuel) : ValueFollows maxDepth (fuel + 1) := by
  intro s b path hmatches hawaits hpath hvalue hfuel
  rw [parseValue]
  rw [if_neg (by omega)]
  rcases htoken : b.dec.token with fault | ⟨token, dec⟩
  · dsimp only
    refine ⟨rfl, hmatches.allDuplicates, s, path, s.dec.offset, .refl, ⟨fault, ?_⟩, ?_, ?_, ?_⟩
    · rw [hmatches.dec, htoken]
    · rw [scanStep_error (by rw [hmatches.dec, htoken]), expectedPath_eq hawaits, hpath,
        hmatches.duplicates]
    · rw [hmatches.dec]
      exact fun h => absurd h (not_endsInArray hvalue)
    · exact fun _ => rfl
  have hlength := Decoder.token_length htoken
  have hscan : s.dec.token = .ok (token, dec) := by rw [hmatches.dec, htoken]
  cases hvalue.begins htoken with
  | scalar hscalar hstate hstack =>
    have hstep : scanStep maxDepth s = .ok (⟨dec, begun s.stack, s.duplicates,
        noteDepth maxDepth s⟩, (begun s.stack).isEmpty) := by
      rw [scanStep_value hscan (by rintro rfl; cases hscalar) (by rintro rfl; cases hscalar) hawaits]
      cases token with
      | delim delim => cases hscalar
      | _ => rfl
    have hfinishes : ∀ n : Node, n.depth = 1 → Finishes maxDepth s b { b with dec := dec }
        b.dec.state.behind b.dec.stack (begun s.stack) fun P =>
          P ↔ s.depthError.isSome = true ∨ maxDepth < (s.stack.length + n.depth : ℤ) := by
      intro n hn
      refine ⟨hstate, hstack, hlength, s, _, .refl, hstep,
        ⟨rfl, hmatches.duplicates, hmatches.allDuplicates⟩, rfl, ?_⟩
      rw [hn]
      exact isSome_noteDepth
    cases token with
    | delim delim => cases hscalar
    | null => exact hfinishes _ rfl
    | bool value => exact hfinishes _ rfl
    | number text => exact hfinishes _ rfl
    | string text => exact hfinishes _ rfl
  | @array dec outer hstate hstack hafter =>
    have hturn : Turn maxDepth s ⟨dec, ⟨.openArray, scanValuePath s.stack, none, 0, []⟩ ::
        begun s.stack, s.duplicates, noteDepth maxDepth s⟩ :=
      scanStep_value hscan (by decide) (by decide) hawaits
    have hloop := helements ⟨dec, ⟨.openArray, scanValuePath s.stack, none, 0, []⟩ ::
        begun s.stack, s.duplicates, noteDepth maxDepth s⟩ { b with dec := dec } path _ _ outer
      b.dec.stack [] ⟨rfl, hmatches.duplicates, hmatches.allDuplicates⟩ rfl rfl hpath
      (by rw [hstate]; rfl) hstack
      (fun h => isSome_noteDepth.2 (.inr (by rwa [length_begun] at h))) (by dsimp only; omega)
    rw [length_begun, hafter] at hloop
    refine Turns.follows (.single hturn) hlength.le hloop ?_
    rintro n P ⟨more, rfl, hP⟩
    rw [hP, isSome_noteDepth, nil_append, Node.depth, or_assoc]
    exact or_congr_right (by push_cast; omega)
  | @object dec outer hstate hstack hafter =>
    have hturn : Turn maxDepth s ⟨dec, ⟨.openObject, scanValuePath s.stack, none, 0, []⟩ ::
        begun s.stack, s.duplicates, noteDepth maxDepth s⟩ :=
      scanStep_value hscan (by decide) (by decide) hawaits
    have hloop := hmembers ⟨dec, ⟨.openObject, scanValuePath s.stack, none, 0, []⟩ ::
        begun s.stack, s.duplicates, noteDepth maxDepth s⟩ { b with dec := dec } path _ _ outer
      b.dec.stack [] ⟨rfl, hmatches.duplicates, hmatches.allDuplicates⟩ rfl rfl rfl hpath
      (by rw [hstate]; rfl) hstack
      (fun h => isSome_noteDepth.2 (.inr (by rwa [length_begun] at h))) (by dsimp only; omega)
    rw [length_begun, hafter] at hloop
    refine Turns.follows (.single hturn) hlength.le hloop ?_
    rintro n P ⟨more, rfl, hP⟩
    rw [hP, isSome_noteDepth, nil_append, Node.depth, or_assoc]
    exact or_congr_right (by push_cast; omega)

theorem finishes_close {frame : ScanFrame} {outer : List ScanFrame} {delim : Delim} {dec : Decoder}
    {state : TokenState} {tokens : List TokenState} (hmatches : Matches s b)
    (hstack : s.stack = frame :: outer) (htoken : b.dec.token = .ok (.delim delim, dec))
    (hmatching : matchingDelimiters frame.delim delim = true)
    (hstate : dec.state = state.valueEnd) (htokens : dec.stack = tokens) {deep : Prop → Prop}
    (hdeep : deep (s.depthError.isSome = true)) :
    Finishes maxDepth s b { b with dec := dec } state.valueEnd tokens outer deep :=
  ⟨hstate, htokens, Decoder.token_length htoken, s, _, .refl,
    scanStep_close (by rw [hmatches.dec, htoken]) hstack hmatching,
    ⟨rfl, hmatches.duplicates, hmatches.allDuplicates⟩, rfl, hdeep⟩

theorem elementsFollow_succ (hvalues : ValueFollows maxDepth fuel)
    (helements : ElementsFollow maxDepth fuel) : ElementsFollow maxDepth (fuel + 1) := by
  intro s b path frame outer state tokens elements hmatches hstack hdelim hpath harray htokens
    hover hfuel
  rw [parseElements]
  rcases hmore : b.dec.more with _ | _
  · rw [if_neg (by simp)]
    rcases htoken : b.dec.token with fault | ⟨token, dec⟩
    · dsimp only
      refine ⟨rfl, hmatches.allDuplicates, s, joinPointer path (toString frame.nextIndex),
        s.dec.offset, .refl, ⟨fault, by rw [hmatches.dec, htoken]⟩, ?_, fun _ => ⟨_, rfl⟩, ?_⟩
      · rw [scanStep_error (by rw [hmatches.dec, htoken]), hstack, scanExpectedPath, hdelim,
          if_neg nofun, materializeScanPath_cons, hpath, hmatches.duplicates]
      · rw [hmatches.dec]
        exact fun h => absurd ⟨harray, hmore⟩ h
    · obtain ⟨rfl, outerState, hdec, hstate⟩ := Decoder.token_closeArray harray hmore htoken
      rw [htokens] at hdec
      obtain ⟨rfl, rfl⟩ := List.cons.inj hdec
      refine finishes_close hmatches hstack htoken (by rw [hdelim]; rfl) hstate rfl
        ⟨[], by rw [append_nil], ?_⟩
      exact ⟨.inl, fun h => h.elim id fun hdeep => hover (by simpa [Node.elementsDepth] using hdeep)⟩
  · rw [if_pos rfl]
    have hawaits : AwaitsValue s.stack := by
      rw [hstack]
      exact .inl hdelim
    have hindex : materializeScanPath (scanValuePath s.stack) =
        joinPointer path (toString frame.nextIndex) := by
      rw [hstack, scanValuePath, hdelim, if_neg nofun, materializeScanPath_cons, hpath]
    have helement := hvalues s b _ hmatches hawaits hindex (.inr (.inr ⟨harray, hmore⟩))
      (by omega)
    have hdepth : (s.stack.length : ℤ) + 1 = outer.length + 1 + 1 := by
      rw [hstack, length_cons]
      push_cast
      rfl
    rw [hdepth] at helement
    rcases hparse : parseValue fuel b (joinPointer path (toString frame.nextIndex))
      (outer.length + 1 + 1) 0 with ⟨_ | element, b'⟩ <;> rw [hparse] at helement
    · exact helement
    have hfinishes : Finishes maxDepth s b b' b.dec.state.behind b.dec.stack (begun s.stack)
      fun P => P ↔ s.depthError.isSome = true ∨
        maxDepth < (s.stack.length + element.depth : ℤ) := helement
    rw [hstack] at hfinishes
    obtain ⟨s', hturns, hmatches', hstack', hdeep⟩ := hfinishes.goes_on (cons_ne_nil _ _)
    have hbehind : b.dec.state.behind = .arrayComma := by
      cases hstate : b.dec.state <;> rw [hstate] at harray <;> first | rfl | cases harray
    have hnext : frame.advance = { frame with nextIndex := frame.nextIndex + 1 } := by
      unfold ScanFrame.advance
      rw [hdelim, if_neg nofun]
    have hloop := helements s' b' path frame.advance outer state tokens (elements ++ [element])
      hmatches' hstack' (by rw [hnext]; exact hdelim) (by rw [hnext]; exact hpath)
      (by rw [hfinishes.state, hbehind]; rfl) (by rw [hfinishes.tokens, htokens])
      (fun h => hdeep.2 (.inl (hover h))) (by have := hfinishes.shorter; omega)
    have hindex' : frame.advance.nextIndex = frame.nextIndex + 1 := by rw [hnext]
    rw [hindex'] at hloop
    refine hturns.follows hfinishes.shorter.le hloop ?_
    rintro n P ⟨more, rfl, hP⟩
    refine ⟨element :: more, by rw [append_assoc]; rfl, ?_⟩
    rw [hP, hdeep, or_assoc, Node.elementsDepth, length_cons]
    exact or_congr_right (by push_cast; omega)

theorem membersFollow_succ (hvalues : ValueFollows maxDepth fuel)
    (hmembers : MembersFollow maxDepth fuel) : MembersFollow maxDepth (fuel + 1) := by
  intro s b path frame outer state tokens members hmatches hstack hdelim hmember hpath hobject
    htokens hover hfuel
  have hnotArray : ¬ b.dec.EndsInArray := by
    rintro ⟨harray, -⟩
    cases hstate : b.dec.state <;> simp [hstate, TokenState.inArray, TokenState.inObject]
      at harray hobject
  have hexpected : materializeScanPath (scanExpectedPath s.stack) = path := by
    rw [hstack, scanExpectedPath, if_pos hdelim, hmember]
    exact hpath
  -- a missing token is reported at the object by both
  have hbreaks : ∀ fault, b.dec.token = .error fault →
      Breaks maxDepth s ⟨.invalidJSON, path, b.dec.offset⟩ b := fun fault htoken => by
    refine ⟨rfl, hmatches.allDuplicates, s, path, s.dec.offset, .refl,
      ⟨fault, by rw [hmatches.dec, htoken]⟩, ?_, ?_, fun _ => rfl⟩
    · rw [scanStep_error (by rw [hmatches.dec, htoken]), hexpected, hmatches.duplicates]
    · rw [hmatches.dec]
      exact fun h => absurd h hnotArray
  rw [parseMembers]
  rcases hmore : b.dec.more with _ | _
  · rw [if_neg (by simp)]
    rcases htoken : b.dec.token with fault | ⟨token, dec⟩
    · exact hbreaks fault htoken
    · obtain ⟨rfl, outerState, hdec, hstate⟩ := Decoder.token_closeObject hobject hmore htoken
      rw [htokens] at hdec
      obtain ⟨rfl, rfl⟩ := List.cons.inj hdec
      refine finishes_close hmatches hstack htoken (by rw [hdelim]; rfl) hstate rfl
        ⟨[], by rw [append_nil], ?_⟩
      exact ⟨.inl, fun h => h.elim id fun hdeep => hover (by simpa [Node.membersDepth] using hdeep)⟩
  · rw [if_pos rfl]
    rcases htoken : b.dec.token with fault | ⟨token, dec⟩
    · exact hbreaks fault htoken
    obtain ⟨name, rfl, hcolon, hdecStack⟩ := Decoder.token_name hobject hmore htoken
    have hlength := Decoder.token_length htoken
    have hname := materializeScanPath_cons name frame.path
    rw [hpath] at hname
    dsimp only
    -- the duplicate is noted by both
    obtain ⟨duplicates, hduplicates⟩ : ∃ duplicates, duplicates = if name ∈ frame.seen then
        b.duplicates ++ [⟨.duplicateKey, joinPointer path name, dec.offset⟩] else b.duplicates :=
      ⟨_, rfl⟩
    rw [← hduplicates]
    have hturn : Turn maxDepth s _ :=
      scanStep_name (by rw [hmatches.dec, htoken]) hstack hdelim hmember
    have hmatches' : Matches ⟨dec, frame.expect name :: outer, if name ∈ frame.seen then
        s.duplicates.add (name :: frame.path) dec.offset else s.duplicates, s.depthError⟩
          ⟨dec, duplicates⟩ := by
      refine ⟨rfl, ?_, ?_⟩
      · dsimp only
        rw [hduplicates, hmatches.duplicates, ← hname]
        split_ifs
        · exact (pathsOf_append ..).symm
        · rfl
      · rw [hduplicates]
        split_ifs
        · intro e he
          rcases mem_append.1 he with he | he
          · exact hmatches.allDuplicates e he
          · obtain rfl := mem_singleton.1 he
            rfl
        · exact hmatches.allDuplicates
    have hvalue := hvalues _ _ (joinPointer path name) hmatches'
      (.inr ⟨hdelim, Option.some_ne_none _⟩)
      (by rw [scanValuePath, if_pos (by exact hdelim)]; exact hname) (.inr (.inl hcolon))
      (by dsimp only; omega)
    have hdepth : ((frame.expect name :: outer).length : ℤ) + 1 = outer.length + 1 + 1 := by
      rw [length_cons]
      push_cast
      rfl
    rw [hdepth] at hvalue
    rcases hparse : parseValue fuel ⟨dec, duplicates⟩ (joinPointer path name)
      (outer.length + 1 + 1) 0 with ⟨_ | value, b'⟩ <;> rw [hparse] at hvalue
    · exact Turns.breaks (.single hturn) hvalue
    have hfinishes : Finishes maxDepth _ _ b' dec.state.behind dec.stack _ _ := hvalue
    obtain ⟨s', hturns, hmatches'', hstack', hdeep⟩ := hfinishes.goes_on (cons_ne_nil _ _)
    have hnext : (frame.expect name).advance =
        { frame with memberPath := none, seen := name :: frame.seen } := by
      unfold ScanFrame.advance
      rw [if_pos (by exact hdelim)]
      rfl
    have hshorter : b'.dec.rest.length < dec.rest.length := hfinishes.shorter
    have hloop := hmembers s' b' path _ outer state tokens (members ++ [(name, value)])
      hmatches'' hstack' (by rw [hnext]; exact hdelim) (by rw [hnext]) (by rw [hnext]; exact hpath)
      (by rw [hfinishes.state, hcolon]; rfl) (by rw [hfinishes.tokens, hdecStack, htokens])
      (fun h => hdeep.2 (.inl (hover h))) (by omega)
    have hseen : (frame.expect name).advance.seen = name :: frame.seen := by rw [hnext]
    rw [hseen] at hloop
    refine Turns.follows (.head hturn hturns) (hshorter.trans hlength).le hloop ?_
    rintro n P ⟨more, rfl, hP⟩
    refine ⟨(name, value) :: more, by rw [append_assoc]; rfl, ?_⟩
    rw [hP, hdeep, or_assoc, Node.membersDepth, length_cons]
    exact or_congr_right (by push_cast; omega)

theorem follow (maxDepth : ℤ) (fuel : ℕ) :
    ValueFollows maxDepth fuel ∧ MembersFollow maxDepth fuel ∧ ElementsFollow maxDepth fuel := by
  induction fuel with
  | zero =>
    refine ⟨?_, ?_, ?_⟩
    · intro _ _ _ _ _ _ _ hfuel
      omega
    · intro _ _ _ _ _ _ _ _ _ _ _ _ _ _ _ _ hfuel
      omega
    · intro _ _ _ _ _ _ _ _ _ _ _ _ _ _ _ hfuel
      omega
  | succ fuel ih =>
    obtain ⟨hvalues, hmembers, helements⟩ := ih
    exact ⟨valueFollows_succ hmembers helements, membersFollow_succ hvalues hmembers,
      elementsFollow_succ hvalues helements⟩

end Scan

end StrictJson

end AiOrg
