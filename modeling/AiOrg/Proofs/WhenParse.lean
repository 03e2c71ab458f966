import AiOrg.Gate.When

/-!
# The parser ends

The lexer takes a character with every token and the grammar a token with every level of
parentheses, so neither runs out of fuel.  A text that is accepted does not end in white space, and
the white space before it does not count.
-/

namespace AiOrg

/-- A `WhenSyntaxError`, the only error a malformed predicate raises. -/
def GateError.isSyntax : GateError → Bool
  | .whenSyntax _ => true
  | _ => false

section Lexer

variable (py : PyLib)

theorem scanString_ok {quote : Char} : ∀ {cs body rest : List Char},
    scanString quote cs = some (body, rest) → ∃ pre, cs = pre ++ quote :: rest
  | [], _, _, h => by simp [scanString] at h
  | c :: cs, body, rest, h => by
    unfold scanString at h
    split_ifs at h with h1 h2
    · simp only [Option.some.injEq, Prod.mk.injEq] at h
      exact ⟨[], by rw [h1, h.2]; rfl⟩
    · rcases cs with _ | ⟨d, ds⟩
      · simp at h
      · simp only at h
        split_ifs at h
        obtain ⟨⟨body', rest'⟩, hs, hr⟩ := Option.map_eq_some_iff.1 h
        simp only [Prod.mk.injEq] at hr
        obtain ⟨pre, hpre⟩ := scanString_ok hs
        exact ⟨c :: d :: pre, by rw [hpre, hr.2]; rfl⟩
    · obtain ⟨⟨body', rest'⟩, hs, hr⟩ := Option.map_eq_some_iff.1 h
      simp only [Prod.mk.injEq] at hr
      obtain ⟨pre, hpre⟩ := scanString_ok hs
      exact ⟨c :: pre, by rw [hpre, hr.2]; rfl⟩

theorem isSpace_of_isIdentRest {c : Char} (h : isIdentRest c) : Text.isSpace c = false := by
  simp only [isIdentRest, Char.isAlphanum, Char.isAlpha, Char.isUpper, Char.isLower, Char.isDigit,
    Bool.or_eq_true, Bool.and_eq_true, decide_eq_true_eq, beq_iff_eq, ge_iff_le,
    UInt32.le_iff_toNat_le] at h
  have hrange : 45 ≤ c.toNat ∧ c.toNat ≤ 122 := by
    rcases h with (((((h | h) | h) | rfl) | rfl) | rfl) | rfl
    · simp at h
      omega
    · simp at h
      omega
    · simp at h
      omega
    all_goals decide
  simp only [Text.isSpace, Text.isSpaceCode, Bool.or_eq_false_iff, Bool.and_eq_false_iff,
    decide_eq_false_iff_not, beq_eq_false_iff_ne, ne_eq]
  omega

theorem isIdentRest_of_isIdentStart {c : Char} (h : isIdentStart c) : isIdentRest c := by
  simp only [isIdentStart, Bool.or_eq_true] at h
  simp only [isIdentRest, Char.isAlphanum, Bool.or_eq_true]
  tauto

theorem cons_takeWhile_eq {p : Char → Bool} {c : Char} (hc : p c) (cs : List Char) :
    ∃ pre d, c :: cs = pre ++ d :: cs.dropWhile p ∧ p d := by
  induction cs generalizing c with
  | nil => exact ⟨[], c, rfl, hc⟩
  | cons d ds ih =>
    by_cases hd : p d
    · obtain ⟨pre, e, he, hpe⟩ := ih hd
      exact ⟨c :: pre, e, by rw [List.dropWhile_cons_of_pos hd, he]; rfl, hpe⟩
    · exact ⟨[], c, by simp [hd], hc⟩

theorem nextToken_ok {text rest : List Char} {token : Token}
    (h : nextToken py text = .ok (token, rest)) :
    ∃ pre c, text = pre ++ c :: rest ∧ Text.isSpace c = false := by
  obtain ⟨blank, htext⟩ : ∃ blank, text = blank ++ text.dropWhile Text.isSpace :=
    ⟨_, (List.takeWhile_append_dropWhile).symm⟩
  suffices hs : ∃ pre c, text.dropWhile Text.isSpace = pre ++ c :: rest ∧ Text.isSpace c = false by
    obtain ⟨pre, c, hpre, hc⟩ := hs
    exact ⟨blank ++ pre, c, by rw [htext, hpre, List.append_assoc], hc⟩
  unfold nextToken at h
  rcases hd : text.dropWhile Text.isSpace with _ | ⟨c, cs⟩ <;> rw [hd] at h
  · simp only at h
    split at h <;> simp at h
  · simp only at h
    have hspace : Text.isSpace c = false := by
      have := List.head?_dropWhile_not Text.isSpace text
      rw [hd] at this
      simpa using this
    split_ifs at h with hdec
    · simp only [Except.ok.injEq, Prod.mk.injEq] at h
      obtain ⟨pre, e, he, hpe⟩ := cons_takeWhile_eq hdec cs
      exact ⟨pre, e, by rw [he, h.2], Text.isSpace_of_isDecimal hpe⟩
    · rcases hs : scanString c cs with _ | ⟨body, rest'⟩ <;> rw [hs] at h
      · simp at h
      · simp only at h
        split at h
        · simp at h
        · simp only [Except.ok.injEq, Prod.mk.injEq] at h
          obtain ⟨pre, hpre⟩ := scanString_ok hs
          exact ⟨c :: pre, c, by rw [hpre, h.2]; rfl, hspace⟩
    · split at h
      all_goals first
        | (simp only [Except.ok.injEq, Prod.mk.injEq] at h
           obtain ⟨-, rfl⟩ := h
           first
             | exact ⟨[], _, rfl, hspace⟩
             | exact ⟨[_], _, rfl, by decide⟩)
        | skip
      split_ifs at h with hid
      simp only [Except.ok.injEq, Prod.mk.injEq] at h
      obtain ⟨pre, e, he, hpe⟩ := cons_takeWhile_eq (isIdentRest_of_isIdentStart hid) cs
      exact ⟨pre, e, by rw [he, h.2], isSpace_of_isIdentRest hpe⟩

theorem nextToken_length {text rest : List Char} {token : Token}
    (h : nextToken py text = .ok (token, rest)) : rest.length < text.length := by
  obtain ⟨pre, c, rfl, -⟩ := nextToken_ok py h
  simp only [List.length_append, List.length_cons]
  omega

theorem nextToken_error {text : List Char} {e : GateError} (h : nextToken py text = .error e) :
    e.isSyntax := by
  unfold nextToken at h
  rcases hd : text.dropWhile Text.isSpace with _ | ⟨c, cs⟩ <;> rw [hd] at h
  · simp only at h
    split at h <;> cases h <;> rfl
  · simp only at h
    split_ifs at h
    · cases h
      rfl
    · split at h
      · cases h
        rfl
      · split at h <;> cases h
        rfl
    · split at h <;> try cases h
      split_ifs at h
      cases h
      rfl

theorem tokenDepth_error {depth : ℕ} {token : Token} {e : GateError}
    (h : tokenDepth depth token = .error e) : e.isSyntax := by
  unfold tokenDepth at h
  split at h
  · split_ifs at h
    cases h
    rfl
  · split_ifs at h
    cases h
    rfl
  · cases h

theorem tokensFrom_error {e : GateError} : ∀ {fuel depth : ℕ} {text : List Char},
    text.length ≤ fuel → tokensFrom py fuel depth text = .error e → e.isSyntax
  | 0, _, [], _, h => by cases h
  | 0, _, _ :: _, hlen, _ => by simp at hlen
  | _ + 1, _, [], _, h => by cases h
  | fuel + 1, depth, c :: cs, hlen, h => by
    simp only [tokensFrom, bind, Except.bind, pure, Except.pure] at h
    rcases ht : nextToken py (c :: cs) with e' | ⟨token, rest⟩ <;> rw [ht] at h <;> simp only at h
    · cases h
      exact nextToken_error py ht
    rcases hp : tokenDepth depth token with e' | depth' <;> rw [hp] at h <;> simp only at h
    · cases h
      exact tokenDepth_error hp
    have hrest := nextToken_length py ht
    rcases hr : tokensFrom py fuel depth' rest with e' | tokens <;> rw [hr] at h <;> simp only at h
    · cases h
      exact tokensFrom_error (by simp at hlen hrest; omega) hr
    · cases h

theorem tokensFrom_fuel : ∀ (fuel fuel' depth : ℕ) (text : List Char), text.length ≤ fuel →
    text.length ≤ fuel' → tokensFrom py fuel depth text = tokensFrom py fuel' depth text
  | 0, 0, _, _, _, _ => rfl
  | 0, _ + 1, _, [], _, _ => rfl
  | _ + 1, 0, _, [], _, _ => rfl
  | _ + 1, _ + 1, _, [], _, _ => rfl
  | 0, _ + 1, _, _ :: _, h, _ => by simp at h
  | _ + 1, 0, _, _ :: _, _, h => by simp at h
  | fuel + 1, fuel' + 1, depth, c :: cs, h, h' => by
    simp only [tokensFrom, bind, Except.bind]
    rcases ht : nextToken py (c :: cs) with e | ⟨token, rest⟩
    · rfl
    simp only
    rcases tokenDepth depth token with e | depth'
    · rfl
    have hrest := nextToken_length py ht
    simp only [List.length_cons] at h h' hrest
    simp only [tokensFrom_fuel fuel fuel' depth' rest (by omega) (by omega)]

theorem not_isSpace_getLast : ∀ (fuel depth : ℕ) (text : List Char) (tokens : List Token),
    tokensFrom py fuel depth text = .ok tokens →
      ∀ pre c, text = pre ++ [c] → Text.isSpace c = false
  | 0, _, [], _, _, pre, c, htext => by simp at htext
  | 0, _, _ :: _, _, h, _, _, _ => by simp [tokensFrom] at h
  | _ + 1, _, [], _, _, pre, c, htext => by simp at htext
  | fuel + 1, depth, d :: ds, tokens, h, pre, c, htext => by
    simp only [tokensFrom, bind, Except.bind] at h
    rcases ht : nextToken py (d :: ds) with e | ⟨token, rest⟩ <;> rw [ht] at h <;> simp only at h
    · simp at h
    rcases hp : tokenDepth depth token with e | depth' <;> rw [hp] at h <;> simp only at h
    · simp at h
    rcases hr : tokensFrom py fuel depth' rest with e | tokens' <;> rw [hr] at h <;> simp only at h
    · simp at h
    obtain ⟨pre', e, he, hspace⟩ := nextToken_ok py ht
    rw [htext] at he
    rcases List.eq_nil_or_concat rest with rfl | ⟨rest', c', rfl⟩
    · obtain ⟨-, hc⟩ := List.append_inj' he (by simp)
      simp only [List.cons.injEq, and_true] at hc
      rw [hc, hspace]
    · have := not_isSpace_getLast fuel depth' _ tokens' hr rest' c'
      rw [List.concat_eq_append, ← List.cons_append, ← List.append_assoc] at he
      obtain ⟨-, hc⟩ := List.append_inj' he (by simp)
      simp only [List.cons.injEq, and_true] at hc
      rw [hc]
      exact this (by simp)

theorem nextToken_dropWhile (text : List Char) (h : text.dropWhile Text.isSpace ≠ []) :
    nextToken py (text.dropWhile Text.isSpace) = nextToken py text := by
  unfold nextToken
  rw [List.dropWhile_idempotent]
  rcases hd : text.dropWhile Text.isSpace with _ | ⟨c, cs⟩
  · exact absurd hd h
  · rfl

theorem whenTokens_strip {text : List Char} {tokens : List Token}
    (h : whenTokens py text = .ok tokens) : whenTokens py (Text.strip text) = .ok tokens := by
  rcases List.eq_nil_or_concat text with rfl | ⟨pre, c, rfl⟩
  · exact h
  rw [List.concat_eq_append] at *
  have hc := not_isSpace_getLast py _ _ _ _ h pre c rfl
  have hne : (pre ++ [c]).dropWhile Text.isSpace ≠ [] := by
    intro hnil
    have := List.dropWhile_eq_nil_iff.1 hnil c (by simp)
    rw [hc] at this
    cases this
  have hstrip : Text.strip (pre ++ [c]) = (pre ++ [c]).dropWhile Text.isSpace := by
    unfold Text.strip
    rw [List.rdropWhile_eq_self_iff]
    intro hl
    have hsuffix : (pre ++ [c]).dropWhile Text.isSpace <:+ pre ++ [c] := List.dropWhile_suffix _
    have hlast : ((pre ++ [c]).dropWhile Text.isSpace).getLast hl = c := by
      rw [hsuffix.getLast hl]
      simp
    rw [hlast, hc]
    exact Bool.false_ne_true
  rw [hstrip]
  have hlen : ((pre ++ [c]).dropWhile Text.isSpace).length ≤ (pre ++ [c]).length :=
    (List.dropWhile_suffix _).length_le
  rcases hd : (pre ++ [c]).dropWhile Text.isSpace with _ | ⟨d, ds⟩
  · exact absurd hd hne
  have hnext := nextToken_dropWhile py (pre ++ [c]) hne
  rw [hd] at hnext hlen
  rcases ht : pre ++ [c] with _ | ⟨d', ds'⟩
  · simp at ht
  rw [ht] at hnext hlen h
  rw [← h, whenTokens, whenTokens,
    tokensFrom_fuel py (d :: ds).length (d' :: ds').length 0 (d :: ds) le_rfl hlen]
  simp only [List.length_cons, tokensFrom, hnext]

end Lexer

section Parser

variable (py : PyLib)

/-- A call that fails with a syntax error only, and leaves no more than `n` tokens. -/
def Within (n : ℕ) : Except GateError (WhenAst × ParseState) → Prop
  | .ok (_, st) => st.tokens.length ≤ n
  | .error e => e.isSyntax

theorem Within.mono {m n : ℕ} (hmn : m ≤ n) {r : Except GateError (WhenAst × ParseState)}
    (h : Within m r) : Within n r := by
  rcases r with e | ⟨a, st⟩
  · exact h
  · exact le_trans h hmn

theorem Within.bind {m n : ℕ} {x : ParseM WhenAst} {f : WhenAst → ParseM WhenAst}
    {st : ParseState} (hx : Within m (x st))
    (hf : ∀ a st', st'.tokens.length ≤ m → Within n (f a st')) : Within n ((x >>= f) st) := by
  change Within n (x st >>= fun p => f p.1 p.2)
  rcases hxs : x st with e | ⟨a, st'⟩ <;> rw [hxs] at hx
  · exact hx
  · exact hf a st' hx

theorem acceptNots_within : ∀ (count : ℕ) (tokens : List Token),
    (∃ e, acceptNots count tokens = .error e ∧ e.isSyntax)
      ∨ ∃ n rest, acceptNots count tokens = .ok (n, rest) ∧ rest.length ≤ tokens.length
  | count, .not :: rest => by
    simp only [acceptNots]
    split_ifs
    · exact .inl ⟨_, rfl, rfl⟩
    · rcases acceptNots_within (count + 1) rest with ⟨e, he, hne⟩ | ⟨n, rest', hr, hlen⟩
      · exact .inl ⟨e, he, hne⟩
      · exact .inr ⟨n, rest', hr, by simp only [List.length_cons]; omega⟩
  | _, [] | _, .literal _ :: _ | _, .ident _ :: _ | _, .cmp _ :: _ | _, .lparen :: _
  | _, .rparen :: _ | _, .and :: _ | _, .or :: _ => .inr ⟨_, _, rfl, le_rfl⟩

def LogicOp.level : LogicOp → ℕ
  | .and => 4
  | .or => 6

theorem accept_eq (token : Token) (st : ParseState) :
    ∃ b st', accept token st = .ok (b, st') ∧ st'.tokens.length ≤ st.tokens.length
      ∧ (b = true → st'.tokens.length < st.tokens.length) := by
  unfold accept
  rcases ht : st.tokens with _ | ⟨t, rest⟩
  · exact ⟨false, st, rfl, by simp [ht], by simp⟩
  · simp only
    split_ifs
    · exact ⟨true, _, rfl, by simp, by simp⟩
    · exact ⟨false, st, rfl, by simp [ht], by simp⟩

theorem parseNot_succ (fuel : ℕ) (st : ParseState) :
    parseNot py (fuel + 1) st = (do
      let (count, tokens) ← acceptNots 0 st.tokens
      let (expr, st') ← parseComparison py fuel { st with tokens := tokens }
      if st'.termCount + 1 > maxWhenTerms then
        .error (.whenSyntax ("expression exceeds " ++ toString maxWhenTerms ++ " terms"))
      else .ok (wrapNots count expr, { st' with termCount := st'.termCount + 1 })) := by
  simp only [parseNot, bind, StateT.bind, Except.bind, get, getThe, MonadStateOf.get, StateT.get,
    pure, Except.pure, set, MonadStateOf.set, StateT.set, liftM, monadLift, MonadLift.monadLift,
    StateT.lift]
  rcases acceptNots 0 st.tokens with e | ⟨count, tokens⟩
  · rfl
  · simp only
    rcases parseComparison py fuel { st with tokens := tokens } with e | ⟨expr, st'⟩
    · rfl
    · simp only
      split_ifs <;> rfl

theorem parseComparison_succ (fuel : ℕ) (st : ParseState) :
    parseComparison py (fuel + 1) st = (do
      let (left, st') ← parsePrimary py fuel st
      match st'.tokens with
      | .cmp op :: rest => do
        let (right, st'') ← parsePrimary py fuel { st' with tokens := rest }
        .ok (.cmp op left right, st'')
      | _ => .ok (left, st')) := by
  simp only [parseComparison, bind, StateT.bind, Except.bind, get, getThe, MonadStateOf.get,
    StateT.get, pure, Except.pure, set, MonadStateOf.set]
  rcases parsePrimary py fuel st with e | ⟨left, st'⟩
  · rfl
  · simp only
    rcases st'.tokens with _ | ⟨t, rest⟩
    · rfl
    · cases t <;> rfl

theorem parsePrimary_succ (fuel : ℕ) (st : ParseState) :
    parsePrimary py (fuel + 1) st = match st.tokens with
      | .lparen :: rest => do
        let (expr, st') ← parseLogic py fuel .or { st with tokens := rest }
        let (closed, st'') ← accept .rparen st'
        if closed then .ok (expr, st'')
        else .error (.whenSyntax ("expected " ++ py.repr ")"))
      | .ident name :: rest => .ok (.ident name, { st with tokens := rest })
      | .literal v :: rest => .ok (.literal v, { st with tokens := rest })
      | tokens => .error (.whenSyntax ("expected expression, got " ++ peekText py tokens)) := by
  simp only [parsePrimary]
  change (match st.tokens with
    | .lparen :: rest => _ | .ident name :: rest => _ | .literal v :: rest => _
    | tokens => _ : ParseM WhenAst) st = _
  rcases st.tokens with _ | ⟨t, rest⟩
  · rfl
  · cases t with
    | lparen =>
      simp only [bind, StateT.bind, Except.bind, set, MonadStateOf.set, StateT.set, pure,
        Except.pure]
      rcases parseLogic py fuel .or { st with tokens := rest } with e | ⟨expr, st'⟩
      · rfl
      · simp only
        rcases accept .rparen st' with e | ⟨closed, st''⟩
        · rfl
        · cases closed <;> rfl
    | _ => rfl

/-- One level of fuel for every function of the grammar, on any tokens it is enough for. -/
theorem parse_within : ∀ fuel : ℕ,
    (∀ op st, 7 * st.tokens.length + op.level + 1 ≤ fuel →
      Within st.tokens.length (parseLogic py fuel op st))
    ∧ (∀ op left st, 7 * st.tokens.length + 1 ≤ fuel →
      Within st.tokens.length (parseLoop py fuel op left st))
    ∧ (∀ op st, 7 * st.tokens.length + op.level ≤ fuel →
      Within st.tokens.length (parseOperand py fuel op st))
    ∧ (∀ st, 7 * st.tokens.length + 3 ≤ fuel →
      Within st.tokens.length (parseNot py fuel st))
    ∧ (∀ st, 7 * st.tokens.length + 2 ≤ fuel →
      Within st.tokens.length (parseComparison py fuel st))
    ∧ (∀ st, 7 * st.tokens.length + 1 ≤ fuel →
      Within st.tokens.length (parsePrimary py fuel st))
  | 0 => by
    refine ⟨?_, ?_, ?_, ?_, ?_, ?_⟩
    · intro op st h
      omega
    · intro op left st h
      omega
    · intro op st h
      cases op <;> simp only [LogicOp.level] at h <;> omega
    · intro st h
      omega
    · intro st h
      omega
    · intro st h
      omega
  | fuel + 1 => by
    obtain ⟨ihLogic, ihLoop, ihOperand, ihNot, ihComparison, ihPrimary⟩ := parse_within fuel
    refine ⟨?_, ?_, ?_, ?_, ?_, ?_⟩
    · intro op st h
      simp only [parseLogic]
      refine Within.bind (ihOperand op st (by omega)) fun left st' hlen => ?_
      exact (ihLoop op left st' (by cases op <;> simp only [LogicOp.level] at h <;> omega)).mono
        hlen
    · intro op left st h
      simp only [parseLoop]
      obtain ⟨b, st', hacc, hle, hlt⟩ := accept_eq op.token st
      change Within _ (accept op.token st >>= _)
      rw [hacc]
      rcases b with _ | _
      · exact hle
      · have hlt := hlt rfl
        change Within _ ((parseOperand py fuel op >>= fun right =>
          parseLoop py fuel op (.logic op left right)) st')
        refine Within.bind
          (ihOperand op st' (by cases op <;> simp only [LogicOp.level] <;> omega))
          fun right st'' hlen => ?_
        exact (ihLoop op _ st'' (by omega)).mono (by omega)
    · intro op st h
      cases op with
      | and => exact ihNot st (by simp only [LogicOp.level] at h; omega)
      | or => exact ihLogic .and st (by simp only [LogicOp.level] at h ⊢; omega)
    · intro st h
      rw [parseNot_succ]
      rcases acceptNots_within 0 st.tokens with ⟨e, he, hne⟩ | ⟨n, rest, hr, hlen⟩
      · rw [he]
        exact hne
      · rw [hr]
        have hc := ihComparison { st with tokens := rest } (by simp only; omega)
        simp only [bind, Except.bind]
        rcases hp : parseComparison py fuel { st with tokens := rest } with e | ⟨expr, st'⟩ <;>
          rw [hp] at hc
        · exact hc
        · simp only
          split_ifs
          · rfl
          · exact le_trans hc hlen
    · intro st h
      rw [parseComparison_succ]
      have hp := ihPrimary st (by omega)
      simp only [bind, Except.bind]
      rcases hl : parsePrimary py fuel st with e | ⟨left, st'⟩ <;> rw [hl] at hp
      · exact hp
      · have hlen : st'.tokens.length ≤ st.tokens.length := hp
        simp only
        rcases ht : st'.tokens with _ | ⟨t, rest⟩
        · exact hlen
        · cases t with
          | cmp op =>
            simp only [ht, List.length_cons] at hlen
            have hq := ihPrimary { st' with tokens := rest } (by simp only; omega)
            simp only
            rcases hr : parsePrimary py fuel { st' with tokens := rest } with e | ⟨right, st''⟩ <;>
              rw [hr] at hq
            · exact hq
            · have hlen' : st''.tokens.length ≤ rest.length := hq
              exact le_trans hlen' (by omega)
          | _ => exact hlen
    · intro st h
      rw [parsePrimary_succ]
      rcases ht : st.tokens with _ | ⟨t, rest⟩
      · rfl
      · rw [ht] at h
        simp only [List.length_cons] at h ⊢
        cases t with
        | lparen =>
          have hl := ihLogic .or { st with tokens := rest } (by simp only [LogicOp.level]; omega)
          simp only [bind, Except.bind]
          rcases hp : parseLogic py fuel .or { st with tokens := rest } with e | ⟨expr, st'⟩ <;>
            rw [hp] at hl
          · exact hl
          · obtain ⟨b, st'', hacc, hle, -⟩ := accept_eq .rparen st'
            have hl : st'.tokens.length ≤ rest.length := hl
            simp only [hacc]
            rcases b with _ | _
            · rfl
            · exact le_trans hle (by omega)
        | ident name => exact Nat.le_succ _
        | literal v => exact Nat.le_succ _
        | _ => rfl

theorem parseWhen_error {text : String} {e : GateError} (h : parseWhen py text = .error e) :
    e.isSyntax := by
  unfold parseWhen at h
  split_ifs at h
  · cases h
    rfl
  · rcases ht : whenTokens py text.toList with e' | tokens <;> rw [ht] at h <;>
      simp only [bind, Except.bind] at h
    · cases h
      exact tokensFrom_error py le_rfl ht
    · have hw := (parse_within py (parseFuel tokens)).1 .or ⟨tokens, 0⟩
        (by simp only [parseFuel, LogicOp.level]; omega)
      rcases hp : parseLogic py (parseFuel tokens) .or ⟨tokens, 0⟩ with e' | ⟨expr, st⟩ <;>
        rw [hp] at h hw <;> simp only at h
      · cases h
        exact hw
      · split at h
        · cases h
        · cases h
          rfl

theorem parseWhen_strip {text : String} {ast : WhenAst} (h : parseWhen py text = .ok ast) :
    parseWhen py (pyStrip text) = .ok ast := by
  unfold parseWhen at h ⊢
  split_ifs at h with hlen
  have hlen' : ¬ (pyStrip text).toList.length > maxWhenLength := by
    have := Text.strip_length_le text.toList
    simp only [pyStrip, String.toList_ofList]
    omega
  rw [if_neg hlen']
  rcases ht : whenTokens py text.toList with e | tokens <;> rw [ht] at h
  · cases h
  · have : whenTokens py (pyStrip text).toList = .ok tokens := by
      rw [pyStrip, String.toList_ofList]
      exact whenTokens_strip py ht
    rw [this]
    exact h

theorem strip_ne_empty {text : String} {ast : WhenAst} (h : parseWhen py text = .ok ast) :
    pyStrip text ≠ "" := by
  intro hempty
  have := parseWhen_strip py h
  rw [hempty] at this
  cases this

end Parser

end AiOrg
