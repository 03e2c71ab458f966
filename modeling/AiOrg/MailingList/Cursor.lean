import AiOrg.Proofs.MailingList

/-!
# The cursor of a reader

A reader remembers in a ref how far it has read. Any number of `advance_cursor` calls move it by compare-and-swap while
posters extend the list. What a call has checked of the list and of the cursor it has read stays true, since both only
move on (`Holds.grows`), so the cursor goes forward on the list and no advance is undone (`cursor_safe`).
-/

namespace AiOrg

namespace MailingList

structure Mail where
  list : Option Commit
  cursor : Option Commit

/-- What `advance_cursor` returns; `refused` stands for `ok` false and for an exception. -/
inductive AdvanceResult
  | ok (commit : Commit) (advanced : Bool)
  | refused
  deriving DecidableEq

/-- The control points of `advance_cursor`, with the local variables that are live there. -/
inductive CursorPc
  | readList
  | resolve (list_head : Option Commit)
  | checkList (list_head target : Option Commit)
  | readCursor (attempt : ℕ) (target : Commit)
  | compare (attempt : ℕ) (target : Commit) (current : Option Commit)
  | swap (attempt : ℕ) (target : Commit) (expected : Option Commit)
  | returned (result : AdvanceResult)
  deriving DecidableEq

/-- What a call does: the mail and the control point before, and after. Every read of a ref and the `update-ref` is a
step of its own, and the commit that is asked for may be resolved to any one. -/
inductive CursorStep : Mail → CursorPc → Mail → CursorPc → Prop
  | readList (mail : Mail) : CursorStep mail .readList mail (.resolve mail.list)
  | resolve (mail : Mail) (list_head target : Option Commit) :
    CursorStep mail (.resolve list_head) mail (.checkList list_head target)
  | onList (mail : Mail) (head target : Commit) (h : target ∈ head.history) :
    CursorStep mail (.checkList (some head) (some target)) mail (.readCursor 0 target)
  | offList (mail : Mail) (list_head target : Option Commit)
      (h : ∀ head commit, list_head = some head → target = some commit → commit ∉ head.history) :
    CursorStep mail (.checkList list_head target) mail (.returned .refused)
  | readCursor (mail : Mail) (attempt : ℕ) (target : Commit) (h : attempt < appendAttempts) :
    CursorStep mail (.readCursor attempt target) mail (.compare attempt target mail.cursor)
  | same (mail : Mail) (attempt : ℕ) (target : Commit) :
    CursorStep mail (.compare attempt target (some target)) mail (.returned (.ok target false))
  | backward (mail : Mail) (attempt : ℕ) (target current : Commit) (hne : current ≠ target)
      (h : current ∉ target.history) :
    CursorStep mail (.compare attempt target (some current)) mail (.returned .refused)
  | forward (mail : Mail) (attempt : ℕ) (target current : Commit) (hne : current ≠ target)
      (h : current ∈ target.history) :
    CursorStep mail (.compare attempt target (some current)) mail (.swap attempt target (some current))
  | unset (mail : Mail) (attempt : ℕ) (target : Commit) :
    CursorStep mail (.compare attempt target none) mail (.swap attempt target none)
  | won (list : Option Commit) (attempt : ℕ) (target : Commit) (expected : Option Commit) :
    CursorStep ⟨list, expected⟩ (.swap attempt target expected) ⟨list, some target⟩ (.returned (.ok target true))
  | lost (mail : Mail) (attempt : ℕ) (target : Commit) (expected : Option Commit) :
    CursorStep mail (.swap attempt target expected) mail (.readCursor (attempt + 1) target)
  -- the last attempt, a failing command, a crash
  | fails (mail : Mail) (pc : CursorPc) (h : ∀ result, pc ≠ .returned result) :
    CursorStep mail pc mail (.returned .refused)

inductive Role
  | poster (post : Post)
  | reader

inductive ActorPc
  | posting (pc : Pc)
  | advancing (pc : CursorPc)

def Role.start : Role → ActorPc
  | poster _ => .posting (.ensure .entry)
  | reader => .advancing .readList

inductive ActorStep : Role → Mail → ActorPc → Mail → ActorPc → Prop
  | post {post : Post} {list list' : Option Commit} {pc pc' : Pc} (cursor : Option Commit)
      (h : PosterStep post list pc list' pc') :
    ActorStep (.poster post) ⟨list, cursor⟩ (.posting pc) ⟨list', cursor⟩ (.posting pc')
  | advance {mail mail' : Mail} {pc pc' : CursorPc} (h : CursorStep mail pc mail' pc') :
    ActorStep .reader mail (.advancing pc) mail' (.advancing pc')

section System

variable {π : Type*} [DecidableEq π] (roles : π → Role)

/-- No list and no cursor yet, and every call at its start. -/
def MailInitial (s : Processes π Mail ActorPc) : Prop :=
  s.shared = ⟨none, none⟩ ∧ ∀ p, s.loc p = (roles p).start

def Acting (p : π) : Mail → ActorPc → Mail → ActorPc → Prop := ActorStep (roles p)

def MailReachable (s : Processes π Mail ActorPc) : Prop :=
  Processes.Reachable (MailInitial roles) (Acting roles) s

/-- The cursor is on the list and goes forward, and no advance is undone. -/
structure CursorSafe (s : Processes π Mail ActorPc) : Prop where
  /-- It names a commit on the first-parent chain of the list. -/
  on_list : ∀ commit, s.shared.cursor = some commit → ∃ head, s.shared.list = some head ∧ commit ∈ head.history
  /-- Whatever comes later, the cursor is then at a commit that has this one on its first-parent chain. -/
  forward : ∀ s', Processes.Run (Acting roles) s s' → ∀ commit, s.shared.cursor = some commit →
    ∃ commit', s'.shared.cursor = some commit' ∧ commit.history <:+ commit'.history
  /-- A call that has reported success keeps the cursor at its commit or beyond. -/
  kept : ∀ p commit advanced, s.loc p = .advancing (.returned (.ok commit advanced)) →
    ∀ s', Processes.Run (Acting roles) s s' →
      ∃ commit', s'.shared.cursor = some commit' ∧ commit ∈ commit'.history

end System

/-- The list and the cursor have moved on. -/
def Mail.Grows (mail mail' : Mail) : Prop :=
  MailingList.Grows mail.list mail'.list ∧ MailingList.Grows mail.cursor mail'.cursor

/-- The cursor is on the list. -/
def Mail.OnList (mail : Mail) : Prop := ∀ commit, mail.cursor = some commit → Known mail.list commit

def Holds (mail : Mail) : CursorPc → Prop
  | .readList => True
  | .resolve list_head => ∀ head, list_head = some head → Known mail.list head
  | .checkList list_head _ => ∀ head, list_head = some head → Known mail.list head
  | .readCursor _ target => Known mail.list target
  | .compare _ target current => Known mail.list target ∧ ∀ commit, current = some commit → Known mail.cursor commit
  | .swap _ target expected => Known mail.list target ∧ ∀ commit, expected = some commit → commit ∈ target.history
  | .returned (.ok commit _) => Known mail.cursor commit
  | .returned .refused => True

theorem Holds.grows {mail mail' : Mail} {pc : CursorPc} (h : Holds mail pc) (hgrows : mail.Grows mail') :
    Holds mail' pc := by
  rcases pc with _ | _ | _ | _ | _ | _ | ⟨_ | _⟩
  case resolve => exact fun head hhead => (h head hhead).grows hgrows.1
  case checkList => exact fun head hhead => (h head hhead).grows hgrows.1
  case readCursor => exact Known.grows h hgrows.1
  case compare => exact ⟨h.1.grows hgrows.1, fun commit hcommit => (h.2 commit hcommit).grows hgrows.2⟩
  case swap => exact ⟨h.1.grows hgrows.1, h.2⟩
  case returned.ok => exact Known.grows h hgrows.2
  all_goals trivial

theorem known_self {commit : Commit} : Known (some commit) commit := ⟨commit, rfl, commit.mem_history_self⟩

theorem known_of_mem {list : Option Commit} {head commit : Commit} (h : Known list head)
    (hmem : commit ∈ head.history) : Known list commit := by
  obtain ⟨last, hlast, hhead⟩ := h
  exact ⟨last, hlast, (Commit.history_suffix_of_mem hhead).subset hmem⟩

theorem cursorStep_holds {mail mail' : Mail} {pc pc' : CursorPc} (honlist : mail.OnList) (h : Holds mail pc)
    (hstep : CursorStep mail pc mail' pc') : mail'.OnList ∧ Holds mail' pc' ∧ mail.Grows mail' := by
  have hstay : mail.Grows mail := ⟨Grows.refl _, Grows.refl _⟩
  cases hstep with
  | readList =>
    refine ⟨honlist, fun head hhead => ?_, hstay⟩
    rw [hhead]
    exact known_self
  | resolve => exact ⟨honlist, h, hstay⟩
  | onList _ head target hmem => exact ⟨honlist, known_of_mem (h head rfl) hmem, hstay⟩
  | readCursor _ attempt target =>
    refine ⟨honlist, ⟨h, fun commit hcommit => ?_⟩, hstay⟩
    rw [hcommit]
    exact known_self
  | same _ attempt target => exact ⟨honlist, h.2 target rfl, hstay⟩
  | forward _ attempt target current hne hmem =>
    refine ⟨honlist, ⟨h.1, fun commit hcommit => ?_⟩, hstay⟩
    rwa [← Option.some.inj hcommit]
  | unset _ attempt target => exact ⟨honlist, ⟨h.1, fun commit hcommit => by cases hcommit⟩, hstay⟩
  | won list attempt target expected =>
    -- the cursor is at the commit that was checked to be on the chain of the target
    refine ⟨fun commit hcommit => ?_, known_self, Grows.refl _, fun current hcurrent => ⟨target, rfl, ?_⟩⟩
    · rw [← Option.some.inj hcommit]
      exact h.1
    · exact Commit.history_suffix_of_mem (h.2 current hcurrent)
  | lost _ attempt target expected => exact ⟨honlist, h.1, hstay⟩
  | offList | backward | fails => exact ⟨honlist, trivial, hstay⟩

def ActorHolds : Role → Mail → ActorPc → Prop
  | .poster post, mail, .posting pc => Local post mail.list pc
  | .reader, mail, .advancing pc => Holds mail pc
  | _, _, _ => False

theorem ActorHolds.grows {role : Role} {mail mail' : Mail} {pc : ActorPc} (h : ActorHolds role mail pc)
    (hgrows : mail.Grows mail') : ActorHolds role mail' pc := by
  rcases role with post | _ <;> rcases pc with pc | pc
  · exact Local.grows h hgrows.1
  · exact h
  · exact h
  · exact Holds.grows h hgrows

theorem actorStep_holds {role : Role} {mail mail' : Mail} {pc pc' : ActorPc} (honlist : mail.OnList)
    (h : ActorHolds role mail pc) (hstep : ActorStep role mail pc mail' pc') :
    mail'.OnList ∧ ActorHolds role mail' pc' ∧ mail.Grows mail' := by
  cases hstep with
  | post cursor hstep =>
    obtain ⟨hlocal, hgrows⟩ := posterStep_local h hstep
    exact ⟨fun commit hcommit => (honlist commit hcommit).grows hgrows, hlocal, hgrows, Grows.refl _⟩
  | advance hstep => exact cursorStep_holds honlist h hstep

section Runs

variable {π : Type*} [DecidableEq π] {roles : π → Role} {s s' : Processes π Mail ActorPc}

theorem mailReachable_holds (h : MailReachable roles s) :
    s.shared.OnList ∧ ∀ p, ActorHolds (roles p) s.shared (s.loc p) := by
  refine Processes.Reachable.both (I := Mail.OnList) (L := fun p => ActorHolds (roles p)) (G := Mail.Grows) ?_ ?_ ?_ h
  · rintro s ⟨hshared, hloc⟩
    refine ⟨fun commit hcommit => ?_, fun p => ?_⟩
    · rw [hshared] at hcommit
      cases hcommit
    · rw [hloc p]
      rcases roles p with post | _ <;> trivial
  · exact fun p mail pc mail' pc' honlist hholds hstep => actorStep_holds honlist hholds hstep
  · exact fun p mail mail' pc hholds hgrows => hholds.grows hgrows

theorem mailRun_grows (h : MailReachable roles s) (hrun : Processes.Run (Acting roles) s s') :
    s.shared.Grows s'.shared := by
  refine Processes.Run.shared (fun _ => ⟨Grows.refl _, Grows.refl _⟩)
    (fun _ _ _ hab hbc => ⟨hab.1.trans hbc.1, hab.2.trans hbc.2⟩) ?_ h hrun
  rintro s s' hs ⟨p, hstep⟩
  obtain ⟨honlist, hholds⟩ := mailReachable_holds hs
  exact (actorStep_holds honlist (hholds p) hstep).2.2

/-- In every state that posts and advances can reach, the cursor is on the list, goes forward only, and keeps every
advance that has reported success. -/
theorem cursor_safe (h : MailReachable roles s) : CursorSafe roles s := by
  obtain ⟨honlist, hholds⟩ := mailReachable_holds h
  refine ⟨honlist, fun s' hrun => (mailRun_grows h hrun).2, fun p commit advanced hreturned s' hrun => ?_⟩
  have hkept := hholds p
  rw [hreturned] at hkept
  rcases hrole : roles p with post | _ <;> rw [hrole] at hkept
  · exact hkept.elim
  · exact Known.grows hkept (mailRun_grows h hrun).2

end Runs

theorem Solo.acting {post : Post} {a b : Option Commit × Pc} (h : Solo post a b) (cursor : Option Commit) :
    Relation.ReflTransGen (fun (x y : Mail × ActorPc) => ActorStep (.poster post) x.1 x.2 y.1 y.2)
      (⟨a.1, cursor⟩, .posting a.2) (⟨b.1, cursor⟩, .posting b.2) := by
  induction h with
  | refl => exact .refl
  | tail _ hlast ih => exact ih.tail (.post cursor hlast)

/-- A reader alone. -/
def SoloReader : Mail × ActorPc → Mail × ActorPc → Prop :=
  Relation.ReflTransGen fun a b => ActorStep .reader a.1 a.2 b.1 b.2

theorem SoloReader.step {a : Mail × ActorPc} {mail mail' : Mail} {pc pc' : CursorPc}
    (h : SoloReader a (mail, .advancing pc)) (hstep : CursorStep mail pc mail' pc') :
    SoloReader a (mail', .advancing pc') := h.tail (.advance hstep)

theorem solo_advance {head target : Commit} (h : target ∈ head.history) :
    SoloReader (⟨some head, none⟩, .advancing .readList)
      (⟨some head, some target⟩, .advancing (.returned (.ok target true))) := by
  have hstart : SoloReader (⟨some head, none⟩, .advancing .readList) (⟨some head, none⟩, .advancing .readList) :=
    Relation.ReflTransGen.refl
  have htarget := (hstart.step (.readList _)).step (.resolve _ (some head) (some target))
  have hcurrent := (htarget.step (.onList _ head target h)).step (.readCursor _ 0 target (by decide))
  exact (hcurrent.step (.unset _ 0 target)).step (.won (some head) 0 target none)

def sampleRoles : Bool → Role
  | false => .poster (plainPosts false)
  | true => .reader

theorem cursor_safe_sample : ∃ s, CursorSafe sampleRoles s ∧ s.shared.cursor = some sampleGenesis ∧
    s.loc true = .advancing (.returned (.ok sampleGenesis true)) := by
  let start : Processes Bool Mail ActorPc := ⟨⟨none, none⟩, fun p => (sampleRoles p).start⟩
  obtain ⟨s, hrun, hshared, -, hothers⟩ := Processes.Run.solo (Acting sampleRoles) false
    ((solo_genesis (plainPosts false) [] [] []).acting none) (s := start) rfl rfl
  obtain ⟨s', hrun', hshared', hloc', -⟩ := Processes.Run.solo (Acting sampleRoles) true
    (solo_advance sampleGenesis.mem_history_self) hshared (hothers true (by decide))
  have hreach : MailReachable sampleRoles s' := ⟨start, ⟨rfl, fun _ => rfl⟩, hrun.trans hrun'⟩
  exact ⟨s', cursor_safe hreach, by rw [hshared'], hloc'⟩

end MailingList

end AiOrg
