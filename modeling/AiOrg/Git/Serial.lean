import AiOrg.Git.DependencyGraph
import AiOrg.Python.Int
import AiOrg.Python.Lines
import AiOrg.Reform.Commit

/-!
# Serial tags

`ensure_serial` returns the newest serial whose tag its ref descends from. Without one it takes the number after the
greatest, and `tag_serial` creates the tag unless it is there. Any number of calls run among each other, git command
by git command. A call that finds the tag of its number there returns the number, whatever the tag names, so the
serials are sound exactly as long as every such tag is one that the ref of the call descends from
(`serials_sound_iff`).
-/

namespace AiOrg

open List

namespace Git

variable {τ : Type}

/-- The tags under `ai-org/serial/` by the rest of their names, with the commits that they name. -/
abbrev Registry (τ : Type) := List (String × Option (Commit τ))

def serialPrefix : String := "ai-org/serial/"

/-- `tag.removeprefix("ai-org/serial/")`. -/
def serialOf (tag : String) : String := String.ofList (Text.removePrefix serialPrefix.toList tag.toList)

structure Serial (τ : Type) where
  tag : String
  number : ℤ
  commit : Option (Commit τ)

/-- What `for-each-ref` lists, ordered by number. -/
def list_serials (tags : Registry τ) : List (Serial τ) :=
  let listed := tags.insertionSort fun x y => x.1 ≤ y.1
  let serials := listed.filterMap fun entry =>
    (Text.pyInt (serialOf (serialPrefix ++ entry.1)).toList).map fun number =>
      (⟨serialPrefix ++ entry.1, number, entry.2⟩ : Serial τ)
  serials.insertionSort fun x y => x.number ≤ y.number

def next_serial (tags : Registry τ) : String :=
  Reform.padded (((list_serials tags).map Serial.number).max?.getD 0 + 1)

/-- The serials in the order in which `serial_for_ref` tests them. -/
def newestFirst (tags : Registry τ) : List (Serial τ) :=
  (list_serials tags).insertionSort fun x y => y.number ≤ x.number

/-- The commit of a name. One under `ai-org/serial/` is that of a tag. -/
def rev (resolve : String → Option (Commit τ)) (tags : Registry τ) (name : String) : Option (Commit τ) :=
  if serialPrefix.toList <+: name.toList then (tags.lookup (serialOf name)).join else resolve name

section Names

variable {resolve : String → Option (Commit τ)} {tags tags' : Registry τ} {name serial : String}

theorem serialOf_tag (serial : String) : serialOf (serialPrefix ++ serial) = serial := by
  rw [serialOf, String.toList_append, Text.removePrefix_append, String.ofList_toList]

theorem tag_of_mem_newestFirst {item : Serial τ} (h : item ∈ newestFirst tags) :
    serialPrefix ++ serialOf item.tag = item.tag := by
  rw [newestFirst, mem_insertionSort, list_serials, mem_insertionSort, mem_filterMap] at h
  obtain ⟨entry, -, hentry⟩ := h
  obtain ⟨number, -, rfl⟩ := Option.map_eq_some_iff.1 hentry
  rw [serialOf_tag]

theorem rev_tag (tags : Registry τ) (serial : String) :
    rev resolve tags (serialPrefix ++ serial) = (tags.lookup serial).join := by
  have hprefix : serialPrefix.toList <+: (serialPrefix ++ serial).toList := by
    rw [String.toList_append]
    exact prefix_append _ _
  rw [rev, if_pos hprefix, serialOf_tag]

def Extends (tags tags' : Registry τ) : Prop :=
  ∀ serial object, tags.lookup serial = some object → tags'.lookup serial = some object

theorem extends_cons (h : (tags.lookup serial).isSome = false) (object : Option (Commit τ)) :
    Extends tags ((serial, object) :: tags) := by
  intro other found hfound
  rw [lookup_cons]
  split
  · rename_i heq
    rw [eq_of_beq heq] at hfound
    simp [hfound] at h
  · exact hfound

theorem rev_extends (h : Extends tags tags') {c : Commit τ} (hrev : rev resolve tags name = some c) :
    rev resolve tags' name = some c := by
  rw [rev] at hrev ⊢
  split_ifs at hrev ⊢ with hprefix
  · rw [Option.join_eq_some_iff] at hrev ⊢
    exact h _ _ hrev
  · exact hrev

end Names

/-- Where a call is: before the git commands of `serial_for_ref`, `next_serial` and `tag_serial`, or at its end. -/
inductive Call (τ : Type)
  | listing
  | testing (items : List (Serial τ))
  | numbering
  | verifying (serial : String)
  | resolving (serial : String)
  | tagging (serial : String) (target : Commit τ)
  | returned (serial : String)
  | raised

def Call.result : Call τ → Option String
  | .returned serial => some serial
  | _ => none

theorem result_eq_some {call : Call τ} {serial : String} : call.result = some serial ↔ call = .returned serial := by
  cases call <;> simp [Call.result]

structure Calls (π τ : Type) where
  tags : Registry τ
  call : π → Call τ

/-- A call runs its next git command, or git refuses it the name of a tag. -/
inductive Turn (π : Type)
  | go (p : π)
  | refuse (p : π)

section Steps

variable {π : Type} [DecidableEq π] [DecidableEq τ]

def Calls.move (s : Calls π τ) (p : π) (call : Call τ) : Calls π τ :=
  { s with call := Function.update s.call p call }

/-- `git tag`. -/
def Calls.create (s : Calls π τ) (p : π) (serial : String) (target : Commit τ) : Calls π τ where
  tags := (serial, some target) :: s.tags
  call := Function.update s.call p (.returned serial)

variable (resolve : String → Option (Commit τ)) (ref : π → String)

def step (s : Calls π τ) : Turn π → Option (Calls π τ)
  | .go p =>
    match s.call p with
    | .listing => some (s.move p (.testing (newestFirst s.tags)))
    | .testing [] => some (s.move p .numbering)
    | .testing (item :: items) =>
      if is_ancestor (rev resolve s.tags) item.tag (ref p) = false then some (s.move p (.testing items))
      else if serialOf item.tag = "" then some (s.move p .numbering)
      else some (s.move p (.returned (serialOf item.tag)))
    | .numbering => some (s.move p (.verifying (next_serial s.tags)))
    | .verifying serial =>
      if (s.tags.lookup serial).isSome then some (s.move p (.returned serial))
      else some (s.move p (.resolving serial))
    | .resolving serial =>
      match rev resolve s.tags (ref p) with
      | none => some (s.move p .raised)
      | some target => some (s.move p (.tagging serial target))
    | .tagging serial target =>
      if (s.tags.lookup serial).isSome then some (s.move p .raised) else some (s.create p serial target)
    | .returned _ => none
    | .raised => none
  | .refuse p =>
    match s.call p with
    | .tagging _ _ => some (s.move p .raised)
    | _ => none

def exec : Calls π τ → List (Turn π) → Option (Calls π τ)
  | s, [] => some s
  | s, turn :: turns => (step resolve ref s turn).bind fun s => exec s turns

/-- Calls that have not run a git command. -/
def Calls.start (π : Type) (tags : Registry τ) : Calls π τ := ⟨tags, fun _ => .listing⟩

/-- The tag of a serial names a commit that can be reached from a ref. -/
def Calls.Below (s : Calls π τ) (serial name : String) : Prop :=
  is_ancestor (rev resolve s.tags) (serialPrefix ++ serial) name = true

structure Calls.Sound (s : Calls π τ) : Prop where
  reachable : ∀ p serial, s.call p = .returned serial → s.Below resolve serial (ref p)
  unique : ∀ p q serial other, s.call p = .returned serial → s.call q = .returned other →
    ¬ s.Below resolve other (ref p) → ¬ s.Below resolve serial (ref q) → serial ≠ other

def FindsOwn (s : Calls π τ) : Turn π → Prop
  | .go p => ∀ serial, s.call p = .verifying serial → (s.tags.lookup serial).isSome = true →
      s.Below resolve serial (ref p)
  | .refuse _ => True

/-- All calls of a run do. -/
def AllFindOwn : Calls π τ → List (Turn π) → Prop
  | _, [] => True
  | s, turn :: turns => FindsOwn resolve ref s turn ∧
      ∀ next, step resolve ref s turn = some next → AllFindOwn next turns

variable {resolve ref} {s s' next : Calls π τ} {turn : Turn π} {turns : List (Turn π)} {p : π} {name serial : String}

omit [DecidableEq π] in
theorem Calls.Below.extends (h : Extends s.tags s'.tags) (hbelow : s.Below resolve serial name) :
    s'.Below resolve serial name := by
  obtain ⟨c, target, hc, htarget, hancestor⟩ := is_ancestor_iff.1 hbelow
  exact is_ancestor_iff.2 ⟨c, target, rev_extends h hc, rev_extends h htarget, hancestor⟩

/-! ### Steps -/

/-- What the next commands of the calls rely on: tags under the prefix are tested, and a commit that is about to be
tagged is that of the ref. -/
structure Calls.Inv (resolve : String → Option (Commit τ)) (ref : π → String) (s : Calls π τ) : Prop where
  tested : ∀ p items, s.call p = .testing items → ∀ item ∈ items, serialPrefix ++ serialOf item.tag = item.tag
  target : ∀ p serial target, s.call p = .tagging serial target → rev resolve s.tags (ref p) = some target

/-- Every serial that was returned is reachable. -/
def Calls.Reachable (resolve : String → Option (Commit τ)) (ref : π → String) (s : Calls π τ) : Prop :=
  ∀ p serial, s.call p = .returned serial → s.Below resolve serial (ref p)

omit [DecidableEq π] in
theorem sound_iff : s.Sound resolve ref ↔ s.Reachable resolve ref := by
  refine ⟨Calls.Sound.reachable, fun h => ⟨h, ?_⟩⟩
  rintro p q serial other hp - hnot - rfl
  exact hnot (h p serial hp)

/-- What a turn can do: a call goes on or returns, and the tags stay, or it creates the tag of its number. -/
theorem step_cases (h : step resolve ref s turn = some s') :
    (∃ p call, s' = s.move p call ∧ FindsOwn resolve ref s turn ∧ (∀ serial, call ≠ .returned serial) ∧
      (∀ items, call = .testing items → items = newestFirst s.tags ∨ ∃ item, s.call p = .testing (item :: items)) ∧
      ∀ serial target, call = .tagging serial target → rev resolve s.tags (ref p) = some target) ∨
    (∃ p item items, turn = .go p ∧ s.call p = .testing (item :: items) ∧
      is_ancestor (rev resolve s.tags) item.tag (ref p) = true ∧ s' = s.move p (.returned (serialOf item.tag))) ∨
    (∃ p serial, turn = .go p ∧ s.call p = .verifying serial ∧ (s.tags.lookup serial).isSome = true ∧
      s' = s.move p (.returned serial)) ∨
    (∃ p serial target, turn = .go p ∧ s.call p = .tagging serial target ∧ (s.tags.lookup serial).isSome = false ∧
      s' = s.create p serial target) := by
  cases turn with
  | refuse p =>
    cases hcall : s.call p <;> simp only [step, hcall, Option.some.injEq, reduceCtorEq] at h
    exact .inl ⟨p, _, h.symm, trivial, by simp, by simp, by simp⟩
  | go p =>
    have hown : (∀ serial, s.call p ≠ .verifying serial) → FindsOwn resolve ref s (.go p) :=
      fun hne serial hcall => absurd hcall (hne serial)
    cases hcall : s.call p with
    | listing =>
      simp only [step, hcall, Option.some.injEq] at h
      refine .inl ⟨p, _, h.symm, hown (by simp [hcall]), by simp, fun items hitems => ?_, by simp⟩
      exact .inl (Call.testing.inj hitems).symm
    | testing items =>
      cases items with
      | nil =>
        simp only [step, hcall, Option.some.injEq] at h
        exact .inl ⟨p, _, h.symm, hown (by simp [hcall]), by simp, by simp, by simp⟩
      | cons item items =>
        simp only [step, hcall] at h
        split_ifs at h with hno hempty
        · refine .inl ⟨p, _, (Option.some.inj h).symm, hown (by simp [hcall]), by simp, fun rest hrest => ?_, by simp⟩
          exact .inr ⟨item, by rw [hcall, Call.testing.inj hrest]⟩
        · exact .inl ⟨p, _, (Option.some.inj h).symm, hown (by simp [hcall]), by simp, by simp, by simp⟩
        · exact .inr (.inl ⟨p, item, items, rfl, hcall, by simpa using hno, (Option.some.inj h).symm⟩)
    | numbering =>
      simp only [step, hcall, Option.some.injEq] at h
      exact .inl ⟨p, _, h.symm, hown (by simp [hcall]), by simp, by simp, by simp⟩
    | verifying serial =>
      simp only [step, hcall] at h
      split_ifs at h with hthere
      · exact .inr (.inr (.inl ⟨p, serial, rfl, hcall, hthere, (Option.some.inj h).symm⟩))
      · refine .inl ⟨p, _, (Option.some.inj h).symm, fun other hother hsome => ?_, by simp, by simp, by simp⟩
        rw [hcall] at hother
        exact absurd (Call.verifying.inj hother ▸ hsome) hthere
    | resolving serial =>
      simp only [step, hcall] at h
      cases hrev : rev resolve s.tags (ref p) with
      | none =>
        rw [hrev] at h
        exact .inl ⟨p, _, (Option.some.inj h).symm, hown (by simp [hcall]), by simp, by simp, by simp⟩
      | some target =>
        rw [hrev] at h
        refine .inl ⟨p, _, (Option.some.inj h).symm, hown (by simp [hcall]), by simp, by simp, fun other found hcall => ?_⟩
        rw [hrev, (Call.tagging.inj hcall).2]
    | tagging serial target =>
      simp only [step, hcall] at h
      split_ifs at h with hthere
      · exact .inl ⟨p, _, (Option.some.inj h).symm, hown (by simp [hcall]), by simp, by simp, by simp⟩
      · exact .inr (.inr (.inr ⟨p, serial, target, rfl, hcall, (Bool.not_eq_true _).mp hthere,
          (Option.some.inj h).symm⟩))
    | returned serial => simp [step, hcall] at h
    | raised => simp [step, hcall] at h

omit [DecidableEq τ] in
theorem Calls.move_call (s : Calls π τ) (p q : π) (call : Call τ) :
    (s.move p call).call q = if q = p then call else s.call q := by
  simp only [Calls.move, Function.update_apply]

omit [DecidableEq τ] in
theorem Calls.create_call (s : Calls π τ) (p q : π) (serial : String) (target : Commit τ) :
    (s.create p serial target).call q = if q = p then .returned serial else s.call q := by
  simp only [Calls.create, Function.update_apply]

omit [DecidableEq τ] in
theorem Calls.Inv.returns (hs : s.Inv resolve ref) (htags : Extends s.tags s'.tags)
    (hcall : ∀ q, s'.call q = if q = p then .returned serial else s.call q) : s'.Inv resolve ref where
  tested q items hq := by
    rw [hcall] at hq
    split_ifs at hq
    exact hs.tested q items hq
  target q other target hq := by
    rw [hcall] at hq
    split_ifs at hq
    exact rev_extends htags (hs.target q other target hq)

theorem step_inv (hs : s.Inv resolve ref) (h : step resolve ref s turn = some s') : s'.Inv resolve ref := by
  rcases step_cases h with ⟨p, call, rfl, -, -, hitems, htarget⟩ | ⟨p, item, items, -, -, -, rfl⟩ |
    ⟨p, serial, -, -, -, rfl⟩ | ⟨p, serial, target, -, -, hfree, rfl⟩
  · constructor
    · intro q items hq item hitem
      rw [Calls.move_call] at hq
      split_ifs at hq with heq
      · rcases hitems items hq with rfl | ⟨first, hfirst⟩
        · exact tag_of_mem_newestFirst hitem
        · exact hs.tested p _ hfirst item (mem_cons_of_mem first hitem)
      · exact hs.tested q items hq item hitem
    · intro q serial target hq
      rw [Calls.move_call] at hq
      split_ifs at hq with heq
      · rw [heq]
        exact htarget serial target hq
      · exact hs.target q serial target hq
  · exact hs.returns (fun _ _ => id) (s.move_call p · _)
  · exact hs.returns (fun _ _ => id) (s.move_call p · _)
  · exact hs.returns (extends_cons hfree _) (s.create_call p · _ _)

theorem Calls.Reachable.returns (hs : s.Reachable resolve ref) (htags : Extends s.tags s'.tags)
    (hcall : ∀ q, s'.call q = if q = p then .returned serial else s.call q) :
    s'.Reachable resolve ref ↔ s'.Below resolve serial (ref p) := by
  constructor
  · exact fun h => h p serial (by rw [hcall, if_pos rfl])
  · intro h q other hq
    rw [hcall] at hq
    split_ifs at hq with heq
    · rw [heq, ← Call.returned.inj hq]
      exact h
    · exact (hs q other hq).extends htags

theorem Calls.Reachable.move (hs : s.Reachable resolve ref) (p : π) (serial : String) :
    (s.move p (.returned serial)).Reachable resolve ref ↔ s.Below resolve serial (ref p) := by
  refine @Calls.Reachable.returns _ _ _ _ _ _ s (s.move p (.returned serial)) p serial hs (fun _ _ => id) fun q => ?_
  exact s.move_call p q _

theorem Calls.Reachable.create (hs : s.Reachable resolve ref) (p : π) {serial : String}
    (hfree : (s.tags.lookup serial).isSome = false) (target : Commit τ) :
    (s.create p serial target).Reachable resolve ref ↔ (s.create p serial target).Below resolve serial (ref p) :=
  hs.returns (extends_cons hfree _) (s.create_call p · serial target)

theorem step_reachable (hinv : s.Inv resolve ref) (hs : s.Reachable resolve ref)
    (h : step resolve ref s turn = some s') : s'.Reachable resolve ref ↔ FindsOwn resolve ref s turn := by
  rcases step_cases h with ⟨p, call, rfl, hown, hreturned, -, -⟩ | ⟨p, item, items, rfl, hcall, hancestor, rfl⟩ |
    ⟨p, serial, rfl, hcall, hthere, rfl⟩ | ⟨p, serial, target, rfl, hcall, hfree, rfl⟩
  · refine iff_of_true (fun q serial hq => ?_) hown
    rw [Calls.move_call] at hq
    split_ifs at hq with heq
    · exact absurd hq (hreturned serial)
    · exact hs q serial hq
  · refine (hs.move p _).trans (iff_of_true ?_ fun serial hserial => ?_)
    swap
    · simp [hcall] at hserial
    rw [Calls.Below, hinv.tested p _ hcall item mem_cons_self]
    exact hancestor
  · refine (hs.move p _).trans
      ⟨fun h other hother _ => ?_, fun h => h serial hcall hthere⟩
    rw [hcall] at hother
    exact Call.verifying.inj hother ▸ h
  · refine (hs.create p hfree target).trans (iff_of_true ?_ fun other hother => ?_)
    swap
    · simp [hcall] at hother
    have htarget := rev_extends (extends_cons hfree (some target)) (hinv.target p serial target hcall)
    refine is_ancestor_iff.2 ⟨target, target, ?_, htarget, .refl target⟩
    rw [rev_tag, Calls.create, lookup_cons_self]
    rfl

theorem findsOwn_of_none (h : step resolve ref s turn = none) : FindsOwn resolve ref s turn := by
  cases turn with
  | refuse p => trivial
  | go p =>
    intro serial hcall hthere
    simp [step, hcall, hthere] at h

theorem exec_reachable (hinv : s.Inv resolve ref) (hs : s.Reachable resolve ref) :
    (∀ front next, front <+: turns → exec resolve ref s front = some next → next.Reachable resolve ref) ↔
      AllFindOwn resolve ref s turns := by
  induction turns generalizing s with
  | nil =>
    refine iff_of_true (fun front next hfront hnext => ?_) trivial
    obtain rfl := prefix_nil.1 hfront
    exact Option.some.inj hnext ▸ hs
  | cons turn turns ih =>
    cases hstep : step resolve ref s turn with
    | none =>
      refine iff_of_true (fun front next hfront hnext => ?_) ⟨findsOwn_of_none hstep, fun next hnext => ?_⟩
      · cases front with
        | nil => exact Option.some.inj hnext ▸ hs
        | cons first front =>
          obtain ⟨rfl, -⟩ := cons_prefix_cons.1 hfront
          rw [exec, hstep] at hnext
          cases hnext
      · rw [hstep] at hnext
        cases hnext
    | some s' =>
      rw [AllFindOwn, ← step_reachable hinv hs hstep]
      constructor
      · intro h
        have hnext := h [turn] s' ⟨turns, rfl⟩ (by rw [exec, hstep]; rfl)
        refine ⟨hnext, fun other hother => ?_⟩
        obtain rfl := Option.eq_some_unique hstep hother
        refine (ih (step_inv hinv hstep) hnext).1 fun front next hfront hrun => ?_
        exact h (turn :: front) next (cons_prefix_cons.2 ⟨rfl, hfront⟩) (by rw [exec, hstep]; exact hrun)
      · rintro ⟨hnext, hrest⟩ front next hfront hrun
        cases front with
        | nil => exact Option.some.inj hrun ▸ hs
        | cons first front =>
          obtain ⟨rfl, hfront'⟩ := cons_prefix_cons.1 hfront
          rw [exec, hstep] at hrun
          exact (ih (step_inv hinv hstep) hnext).2 (hrest s' hstep) front next hfront' hrun

/-- In any run of any calls on any tags, what is returned is reachable and unrelated refs have different serials in
every state exactly if every call that finds the tag of its number there has a ref that descends from it. -/
theorem serials_sound_iff (resolve : String → Option (Commit τ)) (ref : π → String) (tags : Registry τ)
    (turns : List (Turn π)) :
    (∀ front s, front <+: turns → exec resolve ref (Calls.start π tags) front = some s → s.Sound resolve ref) ↔
      AllFindOwn resolve ref (Calls.start π tags) turns := by
  rw [← exec_reachable ⟨nofun, nofun⟩ nofun]
  simp only [sound_iff]

def stem (name : String) : Commit Unit := .mk () [] name

/-- Two branches without a common commit. -/
def sampleResolve : String → Option (Commit Unit)
  | "a" => some (stem "a")
  | "b" => some (stem "b")
  | _ => none

def sampleRef (p : Bool) : String := if p then "a" else "b"

/-- Both calls list the tags before one of them creates its own. -/
def sampleTurns : List (Turn Bool) :=
  [.go true, .go false, .go true, .go false, .go true, .go false, .go true, .go true, .go true, .go false]

/-- The other call returns the serial of the first one. -/
theorem serial_taken_twice : ∃ s, exec sampleResolve sampleRef (Calls.start Bool []) sampleTurns = some s ∧
    s.call true = .returned "0001" ∧ s.call false = .returned "0001" ∧ ¬ s.Sound sampleResolve sampleRef := by
  have hrun : (exec sampleResolve sampleRef (Calls.start Bool []) sampleTurns).any (fun s =>
      (s.call true).result = some "0001" ∧ (s.call false).result = some "0001" ∧
        is_ancestor (rev sampleResolve s.tags) "ai-org/serial/0001" "b" = false) = true := by decide +kernel
  obtain ⟨s, hs, hs'⟩ := (Option.any_eq_true _ _).1 hrun
  obtain ⟨htrue, hfalse, hnot⟩ := of_decide_eq_true hs'
  rw [result_eq_some] at htrue hfalse
  refine ⟨s, hs, htrue, hfalse, fun hsound => ?_⟩
  have hbelow := hsound.reachable false "0001" hfalse
  rw [Calls.Below] at hbelow
  exact absurd (hnot.symm.trans hbelow) (by decide)

end Steps

end Git

end AiOrg
