import AiOrg.MailingList.Protocol
import AiOrg.Python.Runs

/-!
# Taking open offers

One run of `take_open_offers` reads the cursor and the offers behind it, and then posts a take, announces and advances
the cursor for one offer after another. Any number of runs of one reader share the list and the cursor, and anyone may
post between their steps.
-/

namespace AiOrg

namespace ListContributor

open MailingList

structure Address where
  series : List Char
  node : List Char
  deriving DecidableEq

def seriesBranchPrefix : List Char := "ai-org/patch-series/".toList

/-- `re.fullmatch(r"sub/[a-z0-9_]+", node)`. -/
def isSubNode (node : List Char) : Bool :=
  "sub/".toList.isPrefixOf node && 4 < node.length &&
    (node.drop 4).all fun c => isLowerAscii c || ('0' ≤ c && c ≤ '9') || c == '_'

/-- The subject that an offer or a take of the node has. -/
def Address.text (a : Address) : List Char :=
  if a.node = ['.'] then a.series else a.series ++ ':' :: a.node

/-- `_offer_address`, with nothing where it fails. -/
def _offer_address (offer : ParsedPost) : Option Address :=
  match offer.trailers.refs.lookup "series".toList, offer.trailers.refs.lookup "node".toList with
  | some (.one series), some (.one node) =>
    if seriesBranchPrefix.isPrefixOf series && (node == ['.'] || isSubNode node) &&
      offer.subject == (Address.mk series node).text then some ⟨series, node⟩ else none
  | _, _ => none

def isSlugChar (c : Char) : Bool := isLowerAscii c || ('0' ≤ c && c ≤ '9')

def author_slug (email : List Char) : List Char :=
  ((Runs.collapse (fun c => !isSlugChar c) '-' (Text.splitOnce '@' email).1).dropWhile (· = '-')).rdropWhile (· = '-')

/-- The list, the reader's cursor, and what the runs have done so far, newest first. -/
inductive Event (ρ : Type*)
  | took (run : ρ) (take : Commit) (address : Address)
  | announced (run : ρ) (address : Address)
  | moved (run : ρ) (before : Option Commit) (target : Commit)

structure Shared (ρ : Type*) where
  head : Option Commit
  cursor : Option Commit
  trace : List (Event ρ)

/-- An offer as `read` gives it. -/
abbrev Offer := Commit × ParsedPost

def readOffers (after : Option Commit) (head : Commit) : Except ListError (List Offer) := do
  let posts ← readPosts (head.log.filter fun entry => after.all fun since => entry.1 ∉ since.history)
  return posts.filter fun offer => offer.2.kind = "offer".toList

section Runs

variable (py : PyLib) (family : List Char)

def takeRequest (address : Address) : PostRequest where
  kind := "take"
  subject := String.ofList address.text
  body := ""
  refs := [("node", .str (String.ofList address.node)), ("series", .str (String.ofList address.series)),
    ("family", .str (String.ofList family)), ("confidence", .str "unscored")]
  coordinate := none
  bodyText := none
  correspondsTo := []
  inReplyTo := none

/-- The control points of a run, with the local variables that are live there. -/
inductive RunPc
  | start
  | read (after : Option Commit)
  | log (after : Option Commit)
  | next (offers : List Offer)
  | posting (offer : Offer) (rest : List Offer) (address : Address) (post : Post) (pc : Pc)
  | announcing (offer : Offer) (rest : List Offer) (address : Address)
  | advancing (offer : Offer) (rest : List Offer)
  | swap (offer : Offer) (rest : List Offer) (attempt : ℕ)
  | cas (offer : Offer) (rest : List Offer) (attempt : ℕ) (current : Option Commit)
  | stopped

/-- The cursor may move from a commit to another one. -/
def Ahead (current : Option Commit) (target : Commit) : Prop := ∀ c, current = some c → c ∈ target.history

/-- What a run does. Every read of a reference, every step of `post` and every `update-ref` is a step of its own. -/
inductive RunStep {ρ : Type*} (run : ρ) : Shared ρ → RunPc → Shared ρ → RunPc → Prop
  | cursor (s : Shared ρ) (hfamily : family ≠ []) : RunStep run s .start s (.read s.cursor)
  | noList (s : Shared ρ) (after : Option Commit) (h : s.head = none) : RunStep run s (.read after) s (.next [])
  | since (s : Shared ρ) (after : Option Commit) (head : Commit) (h : s.head = some head)
      (hafter : ∀ c, after = some c → c ∈ head.history) : RunStep run s (.read after) s (.log after)
  | offers (s : Shared ρ) (after : Option Commit) (head : Commit) (offers : List Offer) (h : s.head = some head)
      (hread : readOffers after head = .ok offers) : RunStep run s (.log after) s (.next offers)
  | take (s : Shared ρ) (offer : Offer) (rest : List Offer) (address : Address) (post : Post)
      (haddress : _offer_address offer.2 = some address)
      (hpost : (takeRequest family address).validated py = .ok post) :
    RunStep run s (.next (offer :: rest)) s (.posting offer rest address post (.ensure .entry))
  | post (s : Shared ρ) (offer : Offer) (rest : List Offer) (address : Address) (post : Post) (pc pc' : Pc)
      (head : Option Commit) (h : PosterStep post s.head pc head pc') :
    RunStep run s (.posting offer rest address post pc) { s with head } (.posting offer rest address post pc')
  | posted (s : Shared ρ) (offer : Offer) (rest : List Offer) (address : Address) (post : Post) (take : Commit)
      (id : List Char) : RunStep run s (.posting offer rest address post (.returned (.appended take id)))
        { s with trace := .took run take address :: s.trace } (.announcing offer rest address)
  | existing (s : Shared ρ) (offer : Offer) (rest : List Offer) (address : Address) (post : Post) (take : Commit) :
    RunStep run s (.posting offer rest address post (.returned (.existing take)))
      { s with trace := .took run take address :: s.trace } (.announcing offer rest address)
  | announced (s : Shared ρ) (offer : Offer) (rest : List Offer) (address : Address) :
    RunStep run s (.announcing offer rest address)
      { s with trace := .announced run address :: s.trace } (.advancing offer rest)
  | onList (s : Shared ρ) (offer : Offer) (rest : List Offer) (head : Commit) (h : s.head = some head)
      (hmem : offer.1 ∈ head.history) : RunStep run s (.advancing offer rest) s (.swap offer rest 0)
  | there (s : Shared ρ) (offer : Offer) (rest : List Offer) (attempt : ℕ) (h : s.cursor = some offer.1) :
    RunStep run s (.swap offer rest attempt) s (.next rest)
  | ahead (s : Shared ρ) (offer : Offer) (rest : List Offer) (attempt : ℕ) (hattempt : attempt < appendAttempts)
      (h : Ahead s.cursor offer.1) :
    RunStep run s (.swap offer rest attempt) s (.cas offer rest attempt s.cursor)
  | won (s : Shared ρ) (offer : Offer) (rest : List Offer) (attempt : ℕ) :
    RunStep run s (.cas offer rest attempt s.cursor)
      { s with cursor := some offer.1, trace := .moved run s.cursor offer.1 :: s.trace } (.next rest)
  | lost (s : Shared ρ) (offer : Offer) (rest : List Offer) (attempt : ℕ) (current : Option Commit) :
    RunStep run s (.cas offer rest attempt current) s (.swap offer rest (attempt + 1))
  -- the end of the offers, an offer without an address, a call that fails or raises, a crash
  | stops (s : Shared ρ) (pc : RunPc) : RunStep run s pc s .stopped

/-- What anyone else does: they append to the list. -/
inductive OthersStep {ρ : Type*} : Shared ρ → Shared ρ → Prop
  | append (s : Shared ρ) (c : Commit) (h : c.parent = s.head) : OthersStep s { s with head := some c }

/-- A step of a run, or of someone else. -/
def TakingStep {ρ : Type*} : Option ρ → Shared ρ → RunPc → Shared ρ → RunPc → Prop
  | some run, s, pc, s', pc' => RunStep py family run s pc s' pc'
  | none, s, pc, s', pc' => OthersStep s s' ∧ pc' = pc

/-- A list and a cursor as they may be, and no run under way. -/
def Initial {ρ : Type*} (cursor : Option Commit) (s : Processes (Option ρ) (Shared ρ) RunPc) : Prop :=
  s.shared.cursor = cursor ∧ s.shared.trace = [] ∧ ∀ r, s.loc r = .start

variable {ρ : Type*} [DecidableEq ρ]

def TakingReachable (cursor : Option Commit) (s : Processes (Option ρ) (Shared ρ) RunPc) : Prop :=
  Processes.Reachable (Initial cursor) (TakingStep py family) s

def IsOffer (c : Commit) (offer : ParsedPost) : Prop :=
  parsePostMessage c.message = .ok (some offer) ∧ offer.kind = "offer".toList

/-- A commit of the list is a take of a node by the family. -/
def IsTake (c : Commit) (address : Address) : Prop :=
  ∃ take, parsePostMessage c.message = .ok (some take) ∧ take.kind = "take".toList ∧ take.subject = address.text ∧
    take.trailers.refs.lookup "series".toList = some (.one address.series) ∧
    take.trailers.refs.lookup "node".toList = some (.one address.node) ∧
    take.trailers.refs.lookup "family".toList = some (.one family)

/-- A commit behind one and up to another. -/
def Between (before : Option Commit) (target c : Commit) : Prop :=
  c ∈ target.history ∧ ∀ d, before = some d → c ∉ d.history

/-- A run has taken an offer: its take is on the list, and the offer was announced, both by then. -/
def TakenBy (run : ρ) (head : Option Commit) (trace : List (Event ρ)) (offer : ParsedPost) : Prop :=
  ∃ address, _offer_address offer = some address ∧
    (∃ take h, head = some h ∧ take ∈ h.history ∧ IsTake family take address ∧
      Event.took run take address ∈ trace) ∧
    Event.announced run address ∈ trace

/-- No offer is skipped: a run moves the cursor over offers only that it has taken before, and every offer that the
cursor has come past is one a move of some run went over. -/
structure NoneSkipped (cursor : Option Commit) (s : Shared ρ) : Prop where
  moves : ∀ run before target older, Event.moved run before target :: older <:+ s.trace →
    ∀ c offer, Between before target c → IsOffer c offer → TakenBy family run s.head older offer
  passed : ∀ here, s.cursor = some here → ∀ c, Between cursor here c →
    ∃ run before target older, Event.moved run before target :: older <:+ s.trace ∧ Between before target c

end Runs

end ListContributor

end AiOrg
