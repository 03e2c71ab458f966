import AiOrg.MailingList.Message
import AiOrg.Run.Interleave

/-!
# Concurrent posters

The list is a branch whose head posters move by compare-and-swap. This module gives the commits of
the list, the control points of one `post`, what a poster does at each of them, and what the list
should be in every state any number of posters can reach.
-/

namespace AiOrg

namespace MailingList

/-- A commit as `_commit_tree` writes it, with or without a parent; two commits with the same content
are the same object. -/
inductive Commit where
  | root (tree message stamp : List Char)
  | child (parent : Commit) (tree message stamp : List Char)
  deriving DecidableEq, Repr

namespace Commit

def parent : Commit → Option Commit
  | .root .. => none
  | .child parent .. => some parent

def tree : Commit → List Char
  | .root tree _ _ => tree
  | .child _ tree _ _ => tree

def message : Commit → List Char
  | .root _ message _ => message
  | .child _ _ message _ => message

/-- `git rev-list --first-parent`. -/
def history : Commit → List Commit
  | c@(.root ..) => [c]
  | c@(.child parent ..) => c :: parent.history

/-- `git log --reverse`. -/
def log (c : Commit) : List (Commit × List Char) := c.history.reverse.map fun d => (d, d.message)

end Commit

/-- The tree of `git mktree` on no entries, which every commit of the list has. -/
def emptyTree : List Char := "4b825dc642cb6eb9a060e54bf8d69288fbee4904".toList

/-- The message `ensure_list` writes. -/
def genesisMessage (seed seedTree : List Char) : List Char :=
  "list: genesis\n\nSeed: ".toList ++ seed ++ "\nSeed-Tree: ".toList ++ seedTree ++ ['\n']

def appendAttempts : ℕ := 4

inductive Caller where
  | entry
  | attempt (n : ℕ)
  deriving DecidableEq, Repr

/-- What `post` returns; `failed` stands for `ok` false and for an exception. -/
inductive PostResult where
  | appended (commit : Commit) (id : List Char)
  | existing (commit : Commit)
  | failed
  deriving DecidableEq, Repr

/-- The control points of a `post`, with the local variables that are live there. -/
inductive Pc where
  | ensure (caller : Caller)
  | writeGenesis (caller : Caller)
  | casGenesis (caller : Caller) (genesis : Commit)
  | reread (caller : Caller)
  | readHead (attempt : ℕ)
  | scanHead (attempt : ℕ) (expected : Commit)
  | scanLog (attempt : ℕ) (expected : Commit)
  | count (attempt : ℕ) (expected : Commit)
  | commitTree (attempt : ℕ) (expected : Commit) (sequence : ℕ)
  | cas (attempt : ℕ) (expected commit : Commit) (id : List Char)
  | returned (result : PostResult)
  deriving DecidableEq, Repr

/-- After `expected` is known, a post with a single item is looked up first. -/
def afterHead (post : Post) (attempt : ℕ) (expected : Commit) : Pc :=
  if post.qaItemRef.isSome then .scanHead attempt expected else .count attempt expected

def afterEnsure (post : Post) (head : Commit) : Caller → Pc
  | .entry => .readHead 0
  | .attempt n => afterHead post n head

def Post.idAt (post : Post) (sequence : ℕ) : List Char :=
  messageId post.kind post.coordinate sequence

def Post.commitOn (post : Post) (expected : Commit) (sequence : ℕ) (stamp : List Char) : Commit :=
  .child expected expected.tree (post.message (post.idAt sequence)) stamp

/-- What a poster does: the head and the control point before, and after. Every read of the branch and
every `update-ref` is a step of its own. -/
inductive PosterStep (post : Post) : Option Commit → Pc → Option Commit → Pc → Prop where
  | ensureFound (caller : Caller) (head : Commit) :
    PosterStep post (some head) (.ensure caller) (some head) (afterEnsure post head caller)
  | ensureAbsent (caller : Caller) :
    PosterStep post none (.ensure caller) none (.writeGenesis caller)
  | writeGenesis (head : Option Commit) (caller : Caller) (seed seedTree stamp : List Char) :
    PosterStep post head (.writeGenesis caller) head
      (.casGenesis caller (.root emptyTree (genesisMessage seed seedTree) stamp))
  | genesisWon (caller : Caller) (genesis : Commit) :
    PosterStep post none (.casGenesis caller genesis) (some genesis)
      (afterEnsure post genesis caller)
  | genesisLost (head : Option Commit) (caller : Caller) (genesis : Commit) :
    PosterStep post head (.casGenesis caller genesis) head (.reread caller)
  | rereadFound (caller : Caller) (head : Commit) :
    PosterStep post (some head) (.reread caller) (some head) (afterEnsure post head caller)
  | headFound (attempt : ℕ) (head : Commit) (h : attempt < appendAttempts) :
    PosterStep post (some head) (.readHead attempt) (some head) (afterHead post attempt head)
  | headAbsent (attempt : ℕ) (h : attempt < appendAttempts) :
    PosterStep post none (.readHead attempt) none (.ensure (.attempt attempt))
  | scanAbsent (attempt : ℕ) (expected : Commit) :
    PosterStep post none (.scanHead attempt expected) none (.count attempt expected)
  | scanHead (attempt : ℕ) (expected head : Commit) :
    PosterStep post (some head) (.scanHead attempt expected) (some head) (.scanLog attempt expected)
  | scanNone (attempt : ℕ) (expected head : Commit) (item : List Char)
      (hitem : post.qaItemRef = some item) (h : qaPostForItem head.log item = .ok none) :
    PosterStep post (some head) (.scanLog attempt expected) (some head) (.count attempt expected)
  | scanSome (attempt : ℕ) (expected head : Commit) (item : List Char)
      (hitem : post.qaItemRef = some item) (entry : Commit × ParsedPost)
      (h : qaPostForItem head.log item = .ok (some entry)) :
    PosterStep post (some head) (.scanLog attempt expected) (some head)
      (.returned (.existing entry.1))
  | count (head : Option Commit) (attempt : ℕ) (expected : Commit) :
    PosterStep post head (.count attempt expected) head
      (.commitTree attempt expected expected.history.length)
  | commitTree (head : Option Commit) (attempt : ℕ) (expected : Commit) (sequence : ℕ)
      (stamp : List Char) :
    PosterStep post head (.commitTree attempt expected sequence) head
      (.cas attempt expected (post.commitOn expected sequence stamp) (post.idAt sequence))
  | casWon (attempt : ℕ) (expected commit : Commit) (id : List Char) :
    PosterStep post (some expected) (.cas attempt expected commit id) (some commit)
      (.returned (.appended commit id))
  | casLost (head : Option Commit) (attempt : ℕ) (expected commit : Commit) (id : List Char) :
    PosterStep post head (.cas attempt expected commit id) head (.readHead (attempt + 1))
  -- a failing command, a malformed message, the last attempt, a crash
  | fails (head : Option Commit) (pc : Pc) (h : ∀ result, pc ≠ .returned result) :
    PosterStep post head pc head (.returned .failed)

section System

variable {π : Type*} [DecidableEq π] (posts : π → Post)

/-- No list yet, and every poster at the head of `post`. -/
def Initial (s : Processes π (Option Commit) Pc) : Prop :=
  s.shared = none ∧ ∀ p, s.loc p = .ensure .entry

/-- The steps of the posters. -/
def Posting (p : π) : Option Commit → Pc → Option Commit → Pc → Prop := PosterStep (posts p)

/-- The states any number of posters reach. -/
def ListReachable (s : Processes π (Option Commit) Pc) : Prop :=
  Processes.Reachable Initial (Posting posts) s

/-- A head whose history is one chain of posts down to one genesis. -/
inductive SingleChain : Commit → Prop where
  | genesis {c : Commit} (hroot : c.parent = none) (h : isGenesisMessage c.message = true) :
    SingleChain c
  | post {c parent : Commit} (hparent : c.parent = some parent)
      (h : isGenesisMessage c.message = false) (hchain : SingleChain parent) : SingleChain c

/-- Nothing is lost, nothing stands twice, and no two posts have one id. -/
structure ListSafe (s : Processes π (Option Commit) Pc) : Prop where
  /-- The head is the end of a single chain with one genesis. -/
  chain : ∀ head, s.shared = some head → SingleChain head
  /-- What a poster appended is on the list, with the message of its post. -/
  kept : ∀ p commit id, s.loc p = .returned (.appended commit id) →
    (∃ head, s.shared = some head ∧ commit ∈ head.history) ∧
      commit.message = (posts p).message id
  /-- Every commit but the genesis was appended by one poster. -/
  once : ∀ head commit, s.shared = some head → commit ∈ head.history → commit.parent ≠ none →
    ∃! p, ∃ id, s.loc p = .returned (.appended commit id)
  /-- And it stays. -/
  forever : ∀ s', Processes.Run (Posting posts) s s' → ∀ head, s.shared = some head →
    ∃ head', s'.shared = some head' ∧ head.history <:+ head'.history
  /-- Two appended posts have different ids. -/
  ids : ∀ p q c d i j, p ≠ q → s.loc p = .returned (.appended c i) →
    s.loc q = .returned (.appended d j) → i ≠ j

/-- At most one `qa` post for an item has been appended. -/
def QaUnique (s : Processes π (Option Commit) Pc) : Prop :=
  ∀ p q c d i j item, s.loc p = .returned (.appended c i) →
    s.loc q = .returned (.appended d j) → (posts p).qaItemRef = some item →
    (posts q).qaItemRef = some item → p = q

end System

def Post.trailerTexts (post : Post) : List (List Char) :=
  post.inReplyTo.toList ++ (post.correspondsTo ++ post.refs).flatMap fun pair => [pair.1, pair.2]

/-- No trailer text holds a character `splitlines` cuts at. -/
def Post.Clean (post : Post) : Prop :=
  ∀ text ∈ post.trailerTexts, ∀ c ∈ text, Text.isLineBoundary c = false

end MailingList

end AiOrg
