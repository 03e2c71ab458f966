import AiOrg.Proofs.WhenParse
import AiOrg.Proofs.WhenReference
import AiOrg.Run.Checks

/-!
# The parser accepts the grammar

A derivation is parsed, whatever comes after it that its level does not go on with, and leaves that
(`parses_of_derives`); what a parse takes off the tokens is a derivation (`derives_of_parse`). The terms it counts are
the connectives and parentheses of the tokens, and one more.
-/

namespace AiOrg

open List

/-! ### Tokens -/

section Lexer

variable {py : PyLib}

theorem nextToken_iff {text rest : List Char} {token : Token} : nextToken py text = .ok (token, rest) ↔
    matchToken py text = some (token, rest) ∧ (leadingDigits text).length ≤ maxWhenIntegerDigits := by
  rw [matchToken]
  cases hdrop : text.dropWhile Text.isSpace with
  | nil =>
    have hnil : leadingDigits text = [] := by rw [leadingDigits, hdrop]; rfl
    rw [hnil, if_neg (by simp)]
    cases nextToken py text <;> simp [Except.toOption]
  | cons c cs =>
    by_cases hc : Text.isDecimal c = true
    · have hdigits : leadingDigits text = c :: cs.takeWhile Text.isDecimal := by
        rw [leadingDigits, hdrop, takeWhile_cons_of_pos hc]
      rw [if_pos (by rw [hdigits]; exact cons_ne_nil _ _), dropWhile_cons_of_pos hc, nextToken, hdrop, hdigits]
      simp only [hc, ↓reduceIte]
      split_ifs with hlong
      · simp only [false_iff, not_and, not_le]
        exact fun _ => hlong
      · simp only [Except.ok.injEq, Option.some.injEq]
        exact ⟨fun h => ⟨h, by omega⟩, And.left⟩
    · have hnil : leadingDigits text = [] := by
        rw [leadingDigits, hdrop, takeWhile_cons_of_neg hc]
      rw [hnil, if_neg (by simp)]
      cases nextToken py text <;> simp [Except.toOption]

theorem tokenDepth_iff {depth depth' : ℕ} (hdepth : depth ≤ maxWhenNesting) {token : Token} :
    tokenDepth depth token = .ok depth' ↔ (depth' : ℤ) = depth + openParens [token] ∧ depth' ≤ maxWhenNesting := by
  cases token with
  | lparen =>
    simp only [tokenDepth, openParens]
    split_ifs with h
    · simp
      omega
    · simp
      omega
  | rparen =>
    simp only [tokenDepth, openParens]
    split_ifs with h
    · simp
      omega
    · simp
      omega
  | _ =>
    simp [tokenDepth, openParens]
    omega

theorem openParens_cons (token : Token) (tokens : List Token) :
    openParens (token :: tokens) = openParens [token] + openParens tokens := by
  simp only [openParens, count_cons, count_nil]
  push_cast
  ring

/-- Tokens that leave no more parentheses open than may be, and close none that is not open. -/
def Nests (depth : ℕ) (tokens : List Token) : Prop :=
  ∀ front, front <+: tokens → 0 ≤ depth + openParens front ∧ depth + openParens front ≤ maxWhenNesting

theorem nests_nil {depth : ℕ} : Nests depth [] ↔ depth ≤ maxWhenNesting := by
  simp [Nests, openParens]

theorem nests_cons {depth : ℕ} (hdepth : depth ≤ maxWhenNesting) {token : Token} {tokens : List Token} :
    Nests depth (token :: tokens) ↔ ∃ depth', tokenDepth depth token = .ok depth' ∧ Nests depth' tokens := by
  constructor
  · intro h
    have hone := h [token] (by simp)
    refine ⟨(depth + openParens [token]).toNat, (tokenDepth_iff hdepth).2 ⟨by omega, by omega⟩, ?_⟩
    intro front hfront
    have hcons := h (token :: front) (cons_prefix_cons.2 ⟨rfl, hfront⟩)
    rw [openParens_cons] at hcons
    omega
  · rintro ⟨depth', htoken, h⟩ front hfront
    obtain ⟨heq, -⟩ := (tokenDepth_iff hdepth).1 htoken
    cases front with
    | nil =>
      simp only [openParens, count_nil]
      omega
    | cons token' front =>
      obtain ⟨rfl, htail⟩ := cons_prefix_cons.1 hfront
      have := h front htail
      rw [openParens_cons]
      omega

theorem tokensFrom_iff : ∀ (fuel depth : ℕ) (text : List Char) (tokens : List Token), text.length ≤ fuel →
    depth ≤ maxWhenNesting →
    (tokensFrom py fuel depth text = .ok tokens ↔ Lexes py text tokens ∧ Nests depth tokens)
  | fuel, depth, [], tokens, _, hdepth => by
    have hnil : tokensFrom py fuel depth [] = .ok [] := by cases fuel <;> rfl
    rw [hnil]
    constructor
    · intro h
      obtain rfl := Except.ok.inj h
      exact ⟨.nil, nests_nil.2 hdepth⟩
    · rintro ⟨hlex, -⟩
      cases hlex with
      | nil => rfl
      | cons hne => exact absurd rfl hne
  | 0, _, _ :: _, _, hlen, _ => by simp at hlen
  | fuel + 1, depth, c :: cs, tokens, hlen, hdepth => by
    rw [tokensFrom]
    constructor
    · intro h
      obtain ⟨⟨token, rest⟩, hnext, h⟩ := Checks.bind_eq_ok_iff.1 h
      obtain ⟨depth', htoken, h⟩ := Checks.bind_eq_ok_iff.1 h
      obtain ⟨tokens', hrest, h⟩ := Checks.bind_eq_ok_iff.1 h
      obtain rfl := Except.ok.inj h
      have hlt := nextToken_length py hnext
      have hdepth' := ((tokenDepth_iff hdepth).1 htoken).2
      simp only [length_cons] at hlen hlt
      obtain ⟨hlex, hnests⟩ := (tokensFrom_iff fuel depth' rest tokens' (by omega) hdepth').1 hrest
      obtain ⟨hmatch, hdigits⟩ := nextToken_iff.1 hnext
      exact ⟨.cons (cons_ne_nil _ _) hmatch hdigits hlex, (nests_cons hdepth).2 ⟨depth', htoken, hnests⟩⟩
    · rintro ⟨hlex, hnests⟩
      cases hlex with
      | @cons _ rest token tokens' _ hmatch hdigits hlex =>
        have hnext := nextToken_iff.2 ⟨hmatch, hdigits⟩
        obtain ⟨depth', htoken, hnests⟩ := (nests_cons hdepth).1 hnests
        have hlt := nextToken_length py hnext
        have hdepth' := ((tokenDepth_iff hdepth).1 htoken).2
        simp only [length_cons] at hlen hlt
        have hrest := (tokensFrom_iff fuel depth' rest tokens' (by omega) hdepth').2 ⟨hlex, hnests⟩
        simp only [hnext, htoken, hrest, bind, Except.bind, pure, Except.pure]

end Lexer

def connectives (tokens : List Token) : ℕ := tokens.count .and + tokens.count .or + tokens.count .lparen

theorem terms_eq (tokens : List Token) : terms tokens = connectives tokens + 1 := by
  rw [terms, connectives, Nat.add_comm]

theorem connectives_append (t t' : List Token) : connectives (t ++ t') = connectives t + connectives t' := by
  simp only [connectives, List.count_append]
  omega

theorem connectives_op (op : LogicOp) (t : List Token) : connectives (op.token :: t) = connectives t + 1 := by
  cases op <;> simp [connectives, LogicOp.token] <;> omega

theorem openParens_append (t t' : List Token) : openParens (t ++ t') = openParens t + openParens t' := by
  simp only [openParens, List.count_append]
  push_cast
  ring

/-- Tokens that close every parenthesis they open, and no other. -/
def Balanced (t : List Token) : Prop := openParens t = 0 ∧ ∀ front, front <+: t → 0 ≤ openParens front

theorem balanced_nil : Balanced [] := by
  simp [Balanced, openParens]

theorem Balanced.append {t t' : List Token} (h : Balanced t) (h' : Balanced t') : Balanced (t ++ t') := by
  refine ⟨by rw [openParens_append, h.1, h'.1, add_zero], ?_⟩
  intro front hfront
  rcases Nat.le_total front.length t.length with hle | hle
  · exact h.2 front (prefix_of_prefix_length_le hfront (prefix_append t t') hle)
  · obtain ⟨more, rfl⟩ := prefix_of_prefix_length_le (prefix_append t t') hfront hle
    have hmore := h'.2 more ((prefix_append_right_inj t).1 hfront)
    rw [openParens_append, h.1]
    omega

theorem Balanced.cons {token : Token} {t : List Token} (h : Balanced t) (htoken : openParens [token] = 0) :
    Balanced (token :: t) := by
  refine ⟨by rw [openParens_cons, htoken, h.1, add_zero], ?_⟩
  intro front hfront
  cases front with
  | nil => simp [openParens]
  | cons token' front =>
    obtain ⟨rfl, htail⟩ := cons_prefix_cons.1 hfront
    rw [openParens_cons, htoken, zero_add]
    exact h.2 front htail

theorem Balanced.paren {t : List Token} (h : Balanced t) : Balanced (.lparen :: (t ++ [.rparen])) := by
  have hopen : openParens [.lparen] = 1 := rfl
  have hclose : openParens [.rparen] = -1 := rfl
  refine ⟨by rw [openParens_cons, openParens_append, hopen, hclose, h.1]; rfl, ?_⟩
  intro front hfront
  cases front with
  | nil => simp [openParens]
  | cons token front =>
    obtain ⟨rfl, htail⟩ := cons_prefix_cons.1 hfront
    rw [openParens_cons, hopen]
    rcases prefix_concat_iff.1 htail with rfl | htail
    · rw [openParens_append, hclose, h.1]
      omega
    · have := h.2 front htail
      omega

theorem balanced_of_derives {level : Level} {t : List Token} {e : WhenAst} (h : Derives level t e) : Balanced t := by
  induction h with
  | one _ ih => exact ih
  | @more op _ _ _ _ _ _ ih ih' => exact ih.append (ih'.cons (by cases op <;> rfl))
  | nots n _ _ ih =>
    refine Balanced.append ?_ ih
    induction n with
    | zero => exact balanced_nil
    | succ n ihn => exact (ihn (by omega)).cons rfl
  | single _ ih => exact ih
  | compare op _ _ ih ih' => exact ih.append (ih'.cons rfl)
  | ident name => exact balanced_nil.cons rfl
  | literal v => exact balanced_nil.cons rfl
  | paren _ ih => exact ih.paren

section Complete

variable (py : PyLib)

/-- A comparison operator would go on with what a level has read. -/
def NoCmp (rest : List Token) : Prop := ∀ op, rest.head? ≠ some (.cmp op)

def LogicOp.Stops : LogicOp → List Token → Prop
  | .and, rest => NoCmp rest
  | .or, rest => NoCmp rest ∧ rest.head? ≠ some .and

def Parses : Level → List Token → WhenAst → Prop
  | .chain op, t, e => ∀ fuel rest n, op.Stops rest → 7 * (t ++ rest).length + op.level + 1 ≤ fuel →
      n + connectives t + 1 ≤ maxWhenTerms → ∃ fuel', 7 * rest.length + 1 ≤ fuel' ∧
        parseLogic py fuel op ⟨t ++ rest, n⟩ = parseLoop py fuel' op e ⟨rest, n + connectives t + 1⟩
  | .not, t, e => ∀ fuel rest n, NoCmp rest → 7 * (t ++ rest).length + 3 ≤ fuel →
      n + connectives t + 1 ≤ maxWhenTerms →
        parseNot py fuel ⟨t ++ rest, n⟩ = .ok (e, ⟨rest, n + connectives t + 1⟩)
  | .cmp, t, e => ∀ fuel rest n, NoCmp rest → 7 * (t ++ rest).length + 2 ≤ fuel →
      n + connectives t ≤ maxWhenTerms →
        parseComparison py fuel ⟨t ++ rest, n⟩ = .ok (e, ⟨rest, n + connectives t⟩)
  | .prim, t, e => ∀ fuel rest n, 7 * (t ++ rest).length + 1 ≤ fuel → n + connectives t ≤ maxWhenTerms →
        parsePrimary py fuel ⟨t ++ rest, n⟩ = .ok (e, ⟨rest, n + connectives t⟩)

theorem parseLoop_stop {fuel : ℕ} (hfuel : 1 ≤ fuel) {op : LogicOp} {rest : List Token}
    (h : rest.head? ≠ some op.token) (e : WhenAst) (n : ℕ) :
    parseLoop py fuel op e ⟨rest, n⟩ = .ok (e, ⟨rest, n⟩) := by
  obtain ⟨fuel, rfl⟩ := Nat.exists_eq_add_one.2 (by omega : 0 < fuel)
  have haccept : accept op.token ⟨rest, n⟩ = .ok (false, ⟨rest, n⟩) := by
    cases rest with
    | nil => rfl
    | cons token rest =>
      have hne : token ≠ op.token := fun heq => h (by rw [heq]; rfl)
      simp [accept, hne]
  show (accept op.token ⟨rest, n⟩ >>= _) = _
  rw [haccept]
  rfl

theorem parseLoop_more (fuel : ℕ) (op : LogicOp) (e : WhenAst) (rest : List Token) (n : ℕ) :
    parseLoop py (fuel + 1) op e ⟨op.token :: rest, n⟩ =
      (parseOperand py fuel op ⟨rest, n⟩ >>= fun r => parseLoop py fuel op (.logic op e r.1) r.2) := by
  have haccept : accept op.token ⟨op.token :: rest, n⟩ = .ok (true, ⟨rest, n⟩) := by simp [accept]
  show (accept op.token ⟨op.token :: rest, n⟩ >>= _) = _
  rw [haccept]
  rfl

theorem parseOperand_of_parses {op : LogicOp} {t : List Token} {e : WhenAst} (h : Parses py op.operand t e)
    {fuel : ℕ} {rest : List Token} {n : ℕ} (hstops : op.Stops rest)
    (hfuel : 7 * (t ++ rest).length + op.level ≤ fuel) (hterms : n + connectives t + 1 ≤ maxWhenTerms) :
    parseOperand py fuel op ⟨t ++ rest, n⟩ = .ok (e, ⟨rest, n + connectives t + 1⟩) := by
  cases op with
  | and =>
    obtain ⟨fuel, rfl⟩ := Nat.exists_eq_add_one.2 (show 0 < fuel by simp only [LogicOp.level] at hfuel; omega)
    exact h fuel rest n hstops (by simp only [LogicOp.level] at hfuel; omega) hterms
  | or =>
    obtain ⟨fuel, rfl⟩ := Nat.exists_eq_add_one.2 (show 0 < fuel by simp only [LogicOp.level] at hfuel; omega)
    obtain ⟨fuel', hfuel', hlogic⟩ := h fuel rest n hstops.1 (by simp only [LogicOp.level] at hfuel ⊢; omega) hterms
    exact hlogic.trans (parseLoop_stop py (by omega) hstops.2 e _)

theorem head_of_derives {t : List Token} {e : WhenAst} (h : Derives .cmp t e) (rest : List Token) :
    (t ++ rest).head? ≠ some .not := by
  have hprim : ∀ {t : List Token} {e : WhenAst}, Derives .prim t e → ∃ x t', t = x :: t' ∧ x ≠ .not := by
    intro t e h
    cases h with
    | ident name => exact ⟨_, _, rfl, by simp⟩
    | literal v => exact ⟨_, _, rfl, by simp⟩
    | paren h => exact ⟨_, _, rfl, by simp⟩
  have hcmp : ∃ x t', t = x :: t' ∧ x ≠ .not := by
    cases h with
    | single h => exact hprim h
    | compare op h h' =>
      obtain ⟨x, t', rfl, hx⟩ := hprim h
      exact ⟨x, _, rfl, hx⟩
  obtain ⟨x, t', rfl, hx⟩ := hcmp
  exact fun heq => hx (Option.some.inj heq)

theorem acceptNots_replicate {tokens : List Token} (h : tokens.head? ≠ some .not) : ∀ (n count : ℕ),
    count + n ≤ maxWhenNesting → acceptNots count (replicate n .not ++ tokens) = .ok (count + n, tokens)
  | 0, count, _ => by
    rw [replicate_zero, nil_append]
    cases tokens with
    | nil => rfl
    | cons token tokens =>
      cases token <;> first | rfl | exact absurd rfl h
  | n + 1, count, hn => by
    rw [replicate_succ, cons_append, acceptNots, if_neg (by omega), acceptNots_replicate h n _ (by omega)]
    congr 2
    omega

/-- What is derived is parsed. -/
theorem parses_of_derives {level : Level} {t : List Token} {e : WhenAst} (h : Derives level t e) :
    Parses py level t e := by
  induction h with
  | @one op t e _ ih =>
    intro fuel rest n hstops hfuel hterms
    obtain ⟨fuel, rfl⟩ := Nat.exists_eq_add_one.2 (by omega : 0 < fuel)
    have hoperand := parseOperand_of_parses py ih hstops (by omega : 7 * (t ++ rest).length + op.level ≤ fuel) hterms
    have hlevel : 4 ≤ op.level := by cases op <;> decide
    refine ⟨fuel, by simp only [length_append] at hfuel; omega, ?_⟩
    show (parseOperand py fuel op ⟨t ++ rest, n⟩ >>= fun r => parseLoop py fuel op r.1 r.2) = _
    rw [hoperand]
    rfl
  | @more op t t' e e' _ _ ih ih' =>
    intro fuel rest n hstops hfuel hterms
    rw [connectives_append, connectives_op] at hterms ⊢
    rw [append_assoc, cons_append] at hfuel ⊢
    have hop : op.Stops (op.token :: (t' ++ rest)) := by
      cases op <;> simp [LogicOp.Stops, LogicOp.token, NoCmp]
    obtain ⟨fuel', hfuel', hlogic⟩ := ih fuel (op.token :: (t' ++ rest)) n hop hfuel (by omega)
    obtain ⟨fuel', rfl⟩ := Nat.exists_eq_add_one.2 (by omega : 0 < fuel')
    rw [length_cons] at hfuel'
    have hlevel : op.level ≤ 6 := by cases op <;> decide
    have hoperand := parseOperand_of_parses py (n := n + connectives t + 1) ih' hstops
      (by omega : 7 * (t' ++ rest).length + op.level ≤ fuel') (by omega)
    refine ⟨fuel', by simp only [length_append] at hfuel'; omega, ?_⟩
    rw [hlogic, parseLoop_more, hoperand]
    have hcount : n + connectives t + 1 + connectives t' + 1 = n + (connectives t + (connectives t' + 1)) + 1 := by
      omega
    rw [hcount]
    rfl
  | @nots n hn t e h ih =>
    intro fuel rest count hstops hfuel hterms
    obtain ⟨fuel, rfl⟩ := Nat.exists_eq_add_one.2 (by omega : 0 < fuel)
    have hconn : connectives (replicate n .not ++ t) = connectives t := by
      simp [connectives, List.count_append, count_replicate]
    have hnots := acceptNots_replicate (head_of_derives h rest) n 0 (by omega)
    rw [hconn] at hterms ⊢
    rw [append_assoc] at hfuel ⊢
    have hcmp := ih fuel rest count hstops (by simp only [length_append] at hfuel ⊢; omega) (by omega)
    rw [parseNot_succ, hnots, Nat.zero_add]
    simp only [bind, Except.bind, hcmp]
    rw [if_neg (by omega)]
  | @single t e _ ih =>
    intro fuel rest n hstops hfuel hterms
    obtain ⟨fuel, rfl⟩ := Nat.exists_eq_add_one.2 (by omega : 0 < fuel)
    rw [parseComparison_succ, ih fuel rest n (by omega) hterms]
    simp only [bind, Except.bind]
    cases rest with
    | nil => rfl
    | cons token rest =>
      cases token with
      | cmp op => exact absurd rfl (hstops op)
      | _ => rfl
  | @compare op t t' e e' _ _ ih ih' =>
    intro fuel rest n hstops hfuel hterms
    have hconn : connectives (.cmp op :: t') = connectives t' := by simp [connectives]
    obtain ⟨fuel, rfl⟩ := Nat.exists_eq_add_one.2 (by omega : 0 < fuel)
    rw [connectives_append, hconn] at hterms ⊢
    rw [append_assoc, cons_append] at hfuel ⊢
    have hleft := ih fuel (.cmp op :: (t' ++ rest)) n (by omega) (by omega)
    have hright := ih' fuel rest (n + connectives t) (by
      simp only [length_append, length_cons] at hfuel ⊢
      omega) (by omega)
    rw [parseComparison_succ, hleft]
    simp only [bind, Except.bind, hright, Nat.add_assoc]
  | ident name =>
    intro fuel rest n hfuel _
    obtain ⟨fuel, rfl⟩ := Nat.exists_eq_add_one.2 (by omega : 0 < fuel)
    exact parsePrimary_succ py fuel _
  | literal v =>
    intro fuel rest n hfuel _
    obtain ⟨fuel, rfl⟩ := Nat.exists_eq_add_one.2 (by omega : 0 < fuel)
    exact parsePrimary_succ py fuel _
  | @paren t e _ ih =>
    intro fuel rest n hfuel hterms
    have hconn : connectives (.lparen :: (t ++ [.rparen])) = connectives t + 1 := by
      simp [connectives, List.count_append]
      omega
    obtain ⟨fuel, rfl⟩ := Nat.exists_eq_add_one.2 (by omega : 0 < fuel)
    rw [hconn] at hterms ⊢
    rw [cons_append, append_assoc, singleton_append] at hfuel ⊢
    have hstops : LogicOp.or.Stops (.rparen :: rest) := by simp [LogicOp.Stops, NoCmp]
    obtain ⟨fuel', hfuel', hlogic⟩ := ih fuel (.rparen :: rest) n hstops
      (by simp only [length_cons, LogicOp.level] at hfuel ⊢; omega) (by omega)
    rw [parseLoop_stop py (by omega) (by simp [LogicOp.token])] at hlogic
    rw [parsePrimary_succ]
    simp only [bind, Except.bind, hlogic, accept, ↓reduceIte]
    rfl

end Complete

/-! ### What is parsed is a derivation -/

section Sound

variable {py : PyLib}

/-- The tokens between two states are derived, and their connectives and `extra` more terms are counted. -/
def Reads (level : Level) (extra : ℕ) (st st' : ParseState) (e : WhenAst) : Prop :=
  ∃ t, st.tokens = t ++ st'.tokens ∧ Derives level t e ∧ st'.termCount = st.termCount + connectives t + extra

theorem bind_parse {x : ParseM WhenAst} {f : WhenAst → ParseM WhenAst} {st st' : ParseState} {e : WhenAst}
    (h : (x >>= f) st = .ok (e, st')) : ∃ a st₁, x st = .ok (a, st₁) ∧ f a st₁ = .ok (e, st') := by
  obtain ⟨⟨a, st₁⟩, hx, hf⟩ := Checks.bind_eq_ok_iff.1 (show (x st >>= fun p => f p.1 p.2) = .ok (e, st') from h)
  exact ⟨a, st₁, hx, hf⟩

theorem accept_ok {token : Token} {st st' : ParseState} {b : Bool} (h : accept token st = .ok (b, st')) :
    if b then st.tokens = token :: st'.tokens ∧ st'.termCount = st.termCount else st' = st := by
  unfold accept at h
  split at h
  · rename_i t rest heq
    split_ifs at h with ht
    · obtain ⟨rfl, rfl⟩ := Prod.mk.inj (Except.ok.inj h)
      exact ⟨by rw [heq, ht], rfl⟩
    · obtain ⟨rfl, rfl⟩ := Prod.mk.inj (Except.ok.inj h)
      rfl
  · obtain ⟨rfl, rfl⟩ := Prod.mk.inj (Except.ok.inj h)
    rfl

theorem acceptNots_ok : ∀ {count : ℕ} {tokens rest : List Token} {n : ℕ}, acceptNots count tokens = .ok (n, rest) →
    count ≤ maxWhenNesting → ∃ k, tokens = replicate k .not ++ rest ∧ n = count + k ∧ n ≤ maxWhenNesting
  | count, .not :: tokens, rest, n, h, _ => by
    rw [acceptNots] at h
    split_ifs at h with hlimit
    obtain ⟨k, rfl, rfl, hn⟩ := acceptNots_ok h (by omega)
    exact ⟨k + 1, by rw [replicate_succ, cons_append], by omega, hn⟩
  | count, [], rest, n, h, hcount => by
    obtain ⟨rfl, rfl⟩ := Prod.mk.inj (Except.ok.inj h)
    exact ⟨0, rfl, rfl, hcount⟩
  | count, .literal _ :: _, rest, n, h, hcount | count, .ident _ :: _, rest, n, h, hcount
  | count, .cmp _ :: _, rest, n, h, hcount | count, .lparen :: _, rest, n, h, hcount
  | count, .rparen :: _, rest, n, h, hcount | count, .and :: _, rest, n, h, hcount
  | count, .or :: _, rest, n, h, hcount => by
    obtain ⟨rfl, rfl⟩ := Prod.mk.inj (Except.ok.inj h)
    exact ⟨0, rfl, rfl, hcount⟩

/-- What every function of the grammar reads, with some fuel. -/
structure Sound (py : PyLib) (fuel : ℕ) : Prop where
  logic : ∀ {op st st' e}, parseLogic py fuel op st = .ok (e, st') →
    Reads (.chain op) 1 st st' e ∧ st'.termCount ≤ maxWhenTerms
  loop : ∀ {op st st' left e t}, parseLoop py fuel op left st = .ok (e, st') → Derives (.chain op) t left →
    (∃ t', st.tokens = t' ++ st'.tokens ∧ Derives (.chain op) (t ++ t') e ∧
      st'.termCount = st.termCount + connectives t') ∧
      (st.termCount ≤ maxWhenTerms → st'.termCount ≤ maxWhenTerms)
  operand : ∀ {op st st' e}, parseOperand py fuel op st = .ok (e, st') →
    Reads op.operand 1 st st' e ∧ st'.termCount ≤ maxWhenTerms
  not : ∀ {st st' e}, parseNot py fuel st = .ok (e, st') → Reads .not 1 st st' e ∧ st'.termCount ≤ maxWhenTerms
  comparison : ∀ {st st' e}, parseComparison py fuel st = .ok (e, st') → Reads .cmp 0 st st' e
  primary : ∀ {st st' e}, parsePrimary py fuel st = .ok (e, st') → Reads .prim 0 st st' e

theorem sound_zero : Sound py 0 where
  logic := fun h => (nomatch h)
  loop := fun h => (nomatch h)
  operand := fun h => (nomatch h)
  not := fun h => (nomatch h)
  comparison := fun h => (nomatch h)
  primary := fun h => (nomatch h)

theorem sound_succ {fuel : ℕ} (ih : Sound py fuel) : Sound py (fuel + 1) where
  logic := by
    intro op st st' e h
    obtain ⟨left, st₁, hleft, hloop⟩ := bind_parse h
    obtain ⟨⟨t, htokens, hderives, hcount⟩, hlimit⟩ := ih.operand hleft
    obtain ⟨⟨t', htokens', hderives', hcount'⟩, hlimit'⟩ := ih.loop hloop (.one hderives)
    refine ⟨⟨t ++ t', by rw [htokens, htokens', append_assoc], hderives', ?_⟩, hlimit' hlimit⟩
    rw [connectives_append]
    omega
  loop := by
    intro op st st' left e t h hleft
    obtain ⟨⟨b, st₁⟩, haccept, hrest⟩ :=
      Checks.bind_eq_ok_iff.1 (show (accept op.token st >>= fun r => _) = .ok (e, st') from h)
    have htoken := accept_ok haccept
    cases b with
    | false =>
      obtain rfl : st₁ = st := htoken
      obtain ⟨rfl, rfl⟩ := Prod.mk.inj (Except.ok.inj hrest)
      exact ⟨⟨[], rfl, by rwa [append_nil], by simp [connectives]⟩, id⟩
    | true =>
      obtain ⟨htokens, hcount⟩ := htoken
      obtain ⟨right, st₂, hright, hloop⟩ := bind_parse hrest
      obtain ⟨⟨t', htokens', hderives', hcount'⟩, hlimit'⟩ := ih.operand hright
      obtain ⟨⟨t'', htokens'', hderives'', hcount''⟩, hlimit''⟩ := ih.loop hloop (.more hleft hderives')
      refine ⟨⟨op.token :: (t' ++ t''), ?_, ?_, ?_⟩, fun _ => hlimit'' hlimit'⟩
      · rw [htokens, htokens', htokens'', cons_append, append_assoc]
      · rwa [append_assoc, cons_append] at hderives''
      · rw [connectives_op, connectives_append]
        dsimp only at hcount'
        omega
  operand := by
    intro op st st' e h
    cases op with
    | and => exact ih.not h
    | or => exact ih.logic h
  not := by
    intro st st' e h
    rw [parseNot_succ] at h
    obtain ⟨⟨n, tokens⟩, hnots, h⟩ := Checks.bind_eq_ok_iff.1 h
    obtain ⟨⟨expr, st₁⟩, hcmp, h⟩ := Checks.bind_eq_ok_iff.1 h
    dsimp only at h
    split_ifs at h with hlimit
    obtain ⟨rfl, rfl⟩ := Prod.mk.inj (Except.ok.inj h)
    obtain ⟨k, hk, rfl, hn⟩ := acceptNots_ok hnots (Nat.zero_le _)
    obtain ⟨t, htokens, hderives, hcount⟩ := ih.comparison hcmp
    refine ⟨⟨replicate k .not ++ t, ?_, ?_, ?_⟩, by dsimp only; omega⟩
    · rw [hk, append_assoc, ← htokens]
    · rw [Nat.zero_add] at hn ⊢
      exact .nots k hn hderives
    · rw [connectives_append]
      have hconn : connectives (replicate k .not) = 0 := by simp [connectives, count_replicate]
      dsimp only at hcount ⊢
      omega
  comparison := by
    intro st st' e h
    rw [parseComparison_succ] at h
    obtain ⟨⟨left, st₁⟩, hleft, h⟩ := Checks.bind_eq_ok_iff.1 h
    obtain ⟨t, htokens, hderives, hcount⟩ := ih.primary hleft
    dsimp only at h
    split at h
    · rename_i op rest heq
      obtain ⟨⟨right, st₂⟩, hright, h⟩ := Checks.bind_eq_ok_iff.1 h
      obtain ⟨rfl, rfl⟩ := Prod.mk.inj (Except.ok.inj h)
      obtain ⟨t', htokens', hderives', hcount'⟩ := ih.primary hright
      have hconn : connectives (.cmp op :: t') = connectives t' := by simp [connectives]
      refine ⟨t ++ .cmp op :: t', ?_, .compare op hderives hderives', ?_⟩
      · rw [htokens, heq, append_assoc, cons_append, ← htokens']
      · rw [connectives_append, hconn]
        dsimp only at hcount' ⊢
        omega
    · obtain ⟨rfl, rfl⟩ := Prod.mk.inj (Except.ok.inj h)
      exact ⟨t, htokens, .single hderives, hcount⟩
  primary := by
    intro st st' e h
    rw [parsePrimary_succ] at h
    split at h
    · rename_i rest heq
      obtain ⟨⟨expr, st₁⟩, hlogic, h⟩ := Checks.bind_eq_ok_iff.1 h
      obtain ⟨⟨b, st₂⟩, haccept, h⟩ := Checks.bind_eq_ok_iff.1 h
      have htoken := accept_ok haccept
      dsimp only at h
      split_ifs at h with hb
      obtain ⟨rfl, rfl⟩ := Prod.mk.inj (Except.ok.inj h)
      rw [if_pos hb] at htoken
      obtain ⟨hclose, hcount'⟩ := htoken
      obtain ⟨⟨t, htokens, hderives, hcount⟩, -⟩ := ih.logic hlogic
      refine ⟨.lparen :: (t ++ [.rparen]), ?_, .paren hderives, ?_⟩
      · dsimp only at htokens hclose
        rw [heq, htokens, hclose, cons_append, append_assoc]
        rfl
      · have hconn : connectives (.lparen :: (t ++ [.rparen])) = connectives t + 1 := by
          simp [connectives, List.count_append]
          omega
        dsimp only at hcount hcount' ⊢
        omega
    · rename_i name rest heq
      obtain ⟨rfl, rfl⟩ := Prod.mk.inj (Except.ok.inj h)
      exact ⟨[.ident name], heq, .ident name, rfl⟩
    · rename_i v rest heq
      obtain ⟨rfl, rfl⟩ := Prod.mk.inj (Except.ok.inj h)
      exact ⟨[.literal v], heq, .literal v, rfl⟩
    · cases h

theorem derives_of_parse (fuel : ℕ) : Sound py fuel := by
  induction fuel with
  | zero => exact sound_zero
  | succ fuel ih => exact sound_succ ih

end Sound

section Whole

variable (py : PyLib)

theorem parseTokens_iff {tokens : List Token} {ast : WhenAst} :
    (∃ st, parseLogic py (parseFuel tokens) .or ⟨tokens, 0⟩ = .ok (ast, st) ∧ st.tokens = []) ↔
      Derives (.chain .or) tokens ast ∧ terms tokens ≤ maxWhenTerms := by
  rw [terms_eq]
  constructor
  · rintro ⟨st, hparse, hnil⟩
    obtain ⟨⟨t, htokens, hderives, hcount⟩, hlimit⟩ := (derives_of_parse (parseFuel tokens)).logic hparse
    rw [hnil, append_nil] at htokens
    dsimp only at htokens hcount
    rw [← htokens, zero_add] at hcount
    exact ⟨htokens ▸ hderives, by omega⟩
  · rintro ⟨hderives, hterms⟩
    obtain ⟨fuel', hfuel', hlogic⟩ := parses_of_derives py hderives (parseFuel tokens) [] 0 (by simp [LogicOp.Stops, NoCmp])
      (by simp only [append_nil, LogicOp.level, parseFuel]; omega) (by omega)
    rw [append_nil, parseLoop_stop py (by omega) (by simp)] at hlogic
    exact ⟨_, hlogic, rfl⟩

theorem parseWhen_iff {text : String} {ast : WhenAst} : parseWhen py text = .ok ast ↔ Accepts py text ast := by
  rw [parseWhen]
  constructor
  · intro h
    split_ifs at h with hlength
    obtain ⟨tokens, htokens, h⟩ := Checks.bind_eq_ok_iff.1 h
    obtain ⟨⟨expr, st⟩, hparse, h⟩ := Checks.bind_eq_ok_iff.1 h
    obtain ⟨hlex, hnests⟩ := (tokensFrom_iff _ 0 _ tokens le_rfl (Nat.zero_le _)).1 htokens
    dsimp only at h
    split at h
    · rename_i hnil
      obtain rfl := Except.ok.inj h
      obtain ⟨hderives, hterms⟩ := (parseTokens_iff py).1 ⟨st, hparse, hnil⟩
      exact ⟨by omega, tokens, hlex, hderives, hterms, fun front hfront => by simpa using (hnests front hfront).2⟩
    · cases h
  · rintro ⟨hlength, tokens, hlex, hderives, hterms, hdepth⟩
    have hnests : Nests 0 tokens := fun front hfront =>
      ⟨by simpa using (balanced_of_derives hderives).2 front hfront, by simpa using hdepth front hfront⟩
    have htokens : whenTokens py text.toList = .ok tokens :=
      (tokensFrom_iff _ 0 _ tokens le_rfl (Nat.zero_le _)).2 ⟨hlex, hnests⟩
    obtain ⟨st, hparse, hnil⟩ := (parseTokens_iff py).2 ⟨hderives, hterms⟩
    rw [if_neg (by omega), htokens]
    simp only [bind, Except.bind, hparse, hnil]
    rfl

/-- The parser is the grammar within the limits and the evaluator the reference evaluation, with the same warnings,
whether it returns or raises. -/
theorem when_refines : (∀ text ast, parseWhen py text = .ok ast ↔ Accepts py text ast) ∧
    ∀ state ast, evalWarned py state ast = evalPlain py state ast :=
  ⟨fun _ _ => parseWhen_iff py, fun state ast => evalWarned_eq py state ast⟩

end Whole

end AiOrg
