import AiOrg.Judge.BodyIndex
import AiOrg.Proofs.Spelling
import AiOrg.Python.Int

/-!
# The index and the parser

On the text of a spelled value the index raises at a constant of Python's own and where containers are nested too deep,
and has the scalars of the spelling otherwise (`index_render`).
-/

namespace AiOrg

open List

namespace BodyCodec

open PyStr (plain)

variable {text rest : PyStr} {i : ℕ}

theorem drop_add {front : PyStr} (h : text.drop i = front ++ rest) : text.drop (i + front.length) = rest := by
  rw [← drop_drop, h, drop_left]

theorem drop_succ {c : CodePoint} (h : text.drop i = c :: rest) : text.drop (i + 1) = rest :=
  @drop_add text rest i [c] h

theorem getElem?_of_drop {c : CodePoint} (h : text.drop i = c :: rest) : text[i]? = some c := by
  rw [← head?_drop, h, head?_cons]

theorem skip_ws_of_drop {front : PyStr} (hfront : ∀ c ∈ front, isJsonSpace c = true) {c : CodePoint}
    (hc : isJsonSpace c = false) (h : text.drop i = front ++ c :: rest) : skip_ws text i = i + front.length := by
  have hstop : ∀ d, (c :: rest).head? = some d → isJsonSpace d = false := by
    intro d hd
    obtain rfl : c = d := Option.some.inj hd
    exact hc
  have htake := (takeWhile_append hfront hstop).1
  rw [skip_ws, h, htake]

theorem scanstring_of_drop {pieces : List Piece} (h : text.drop i = literal pieces ++ rest) :
    scanstring text i = some (content pieces, i + (literal pieces).length) := by
  have hlength : text.length - i = (literal pieces).length + rest.length := by
    rw [← length_drop, h, length_append]
  have hpos : 0 < (literal pieces).length := by simp [literal]
  rw [scanstring, h, scanString_literal]
  have : text.length - rest.length = i + (literal pieces).length := by omega
  simp only [Option.map_some, this]

/-- What a value ends at. -/
def Ends (text : PyStr) : Prop :=
  ∀ c, text.head? = some c → isJsonSpace c = true ∨ c = .scalar ',' ∨ c = .scalar ']' ∨ c = .scalar '\x7d'

/-- The class `\d`. -/
def isUnicodeDigit : CodePoint → Bool := CodePoint.isChar Text.isDecimal

theorem digitClass_isUnicodeDigit : DigitClass isUnicodeDigit where
  ascii c h := by
    cases c with
    | scalar c => exact Text.isDecimal_of_isDigit h
    | surrogate n => cases h
  point := by decide
  mark c h := by
    cases c with
    | scalar c =>
      rcases (by simpa [isExponentMark, CodePoint.isChar] using h : c = 'e' ∨ c = 'E') with rfl | rfl <;> decide
    | surrogate n => rfl

theorem isJsonSpace_cases {c : CodePoint} (h : isJsonSpace c = true) :
    c = .scalar ' ' ∨ c = .scalar '\t' ∨ c = .scalar '\n' ∨ c = .scalar '\r' := by
  cases c with
  | scalar c => simpa [isJsonSpace, CodePoint.isChar] using h
  | surrogate n => cases h

theorem Ends.stops (h : Ends rest) : Stops isUnicodeDigit rest := by
  intro c hc
  rcases h c hc with hspace | rfl | rfl | rfl
  · rcases isJsonSpace_cases hspace with rfl | rfl | rfl | rfl <;> decide
  all_goals decide

theorem ends_cons {c : CodePoint} (h : isJsonSpace c = true ∨ c = .scalar ',' ∨ c = .scalar ']' ∨ c = .scalar '\x7d')
    (rest : PyStr) : Ends (c :: rest) := by
  intro d hd
  obtain rfl : c = d := Option.some.inj hd
  exact h

theorem ends_append (space : Space) (h : Ends rest) : Ends (space.text ++ rest) := by
  cases hspace : space.text with
  | nil => exact h
  | cons c text => exact ends_cons (.inl (space.space c (by rw [hspace]; exact mem_cons_self))) _

theorem numberMatch_number (n : ExactJSONNumber) (hends : Ends rest) (h : text.drop i = n.lexeme ++ rest) :
    numberMatch text i = some n.lexeme := by
  obtain ⟨lexeme, parts, rfl⟩ := n
  have hscan := scanNumber_append digitClass_isUnicodeDigit parts hends.stops
  rw [numberMatch, h]
  exact congrArg (Option.map Prod.fst) hscan

theorem jsonLoads_number (n : ExactJSONNumber) (room : ℕ) :
    jsonLoads floatConstant room n.lexeme = .ok (.number n) := by
  have h := @jsonLoads_render floatConstant ⟨noSpace, .number n, noSpace⟩ room
  simpa [Document.render, noSpace, Spelling.render, Spelling.read] using h

theorem parse_scalar_number (n : ExactJSONNumber) (path : Path) (hends : Ends rest)
    (h : text.drop i = n.lexeme ++ rest) :
    parse_scalar text i path = some (scalarAt path i n.lexeme (.number n)) := by
  have hmatch := numberMatch_number n hends h
  have hloads := jsonLoads_number n 0
  obtain ⟨lexeme, parts, rfl⟩ := n
  obtain ⟨c, tail, hlexeme, hc⟩ := lexeme_head parts
  have hne {d : Char} (hd : d.isDigit = false) (hminus : d ≠ '-') (ds : List Char) :
      ¬ startsWith (d :: ds) (text.drop i) := by
    have hcd : c ≠ .scalar d := numberHead_ne hc hd hminus
    rw [h]
    simp only [hlexeme, cons_append]
    exact not_startsWith hcd _ _
  rw [parse_scalar, if_neg (hne (by decide) (by decide) _), if_neg (hne (by decide) (by decide) _),
    if_neg (hne (by decide) (by decide) _), hmatch]
  exact congrArg (fun read : Except CodecError Value => read.toOption.map (scalarAt path i parts.lexeme)) hloads

theorem parse_scalar_constant (c : Constant) (path : Path) (h : text.drop i = plain c.token ++ rest) :
    parse_scalar text i path = none := by
  have hmatch : numberMatch text i = none := by
    rw [numberMatch, h]
    cases c <;> rfl
  have hne {d : Char} (hd : d ∉ ['N', 'I', '-']) (ds : List Char) : ¬ startsWith (d :: ds) (text.drop i) := by
    simp only [mem_cons, not_mem_nil, or_false, not_or] at hd
    rw [h]
    cases c with
    | nan => exact not_startsWith (fun heq => hd.1 (CodePoint.scalar.inj heq).symm) _ _
    | infinity => exact not_startsWith (fun heq => hd.2.1 (CodePoint.scalar.inj heq).symm) _ _
    | negInfinity => exact not_startsWith (fun heq => hd.2.2 (CodePoint.scalar.inj heq).symm) _ _
  rw [parse_scalar, if_neg (hne (by decide) _), if_neg (hne (by decide) _), if_neg (hne (by decide) _), hmatch]
  rfl

theorem parse_scalar_true (path : Path) (h : text.drop i = plain ['t', 'r', 'u', 'e'] ++ rest) :
    parse_scalar text i path = some (scalarAt path i (plain ['t', 'r', 'u', 'e']) (.bool true)) := by
  rw [parse_scalar, if_pos (h ▸ startsWith_append _ _)]

theorem parse_scalar_false (path : Path) (h : text.drop i = plain ['f', 'a', 'l', 's', 'e'] ++ rest) :
    parse_scalar text i path = some (scalarAt path i (plain ['f', 'a', 'l', 's', 'e']) (.bool false)) := by
  have htrue : ¬ startsWith ['t', 'r', 'u', 'e'] (text.drop i) := by
    rw [h]
    exact not_startsWith (c := .scalar 'f') (by decide) _ _
  rw [parse_scalar, if_neg htrue, if_pos (h ▸ startsWith_append _ _)]

theorem parse_scalar_null (path : Path) (h : text.drop i = plain ['n', 'u', 'l', 'l'] ++ rest) :
    parse_scalar text i path = some (scalarAt path i (plain ['n', 'u', 'l', 'l']) .null) := by
  have htrue : ¬ startsWith ['t', 'r', 'u', 'e'] (text.drop i) := by
    rw [h]
    exact not_startsWith (c := .scalar 'n') (by decide) _ _
  have hfalse : ¬ startsWith ['f', 'a', 'l', 's', 'e'] (text.drop i) := by
    rw [h]
    exact not_startsWith (c := .scalar 'n') (by decide) _ _
  rw [parse_scalar, if_neg htrue, if_neg hfalse, if_pos (h ▸ startsWith_append _ _)]

section Call

variable (fuel room idx : ℕ) (path : Path)

theorem parse_value_str {pieces : List Piece} (h : text.drop i = .scalar '\x22' :: (literal pieces ++ rest)) :
    parse_value text (fuel + 1) room i path =
      some (scalarAt path i (.scalar '\x22' :: literal pieces) (.str (content pieces))) := by
  rw [parse_value.eq_def]
  dsimp only
  rw [getElem?_of_drop h]
  dsimp only
  rw [if_pos rfl, scanstring_of_drop (drop_succ h), Option.map_some, scalarAt, length_cons]
  have : i + 1 + (literal pieces).length = i + ((literal pieces).length + 1) := by omega
  rw [this]

theorem parse_value_nested {c : CodePoint} (hc : c = .scalar '[' ∨ c = .scalar '\x7b')
    (h : text.drop i = c :: rest) : parse_value text (fuel + 1) 0 i path = none := by
  rw [parse_value, getElem?_of_drop h]
  dsimp only
  rcases hc with rfl | rfl
  · rw [if_neg (by decide), if_neg (by decide), if_pos rfl]
  · rw [if_neg (by decide), if_pos rfl]

theorem parse_value_obj (h : text.drop i = .scalar '\x7b' :: rest) :
    parse_value text (fuel + 1) (room + 1) i path = parse_object text fuel room i path := by
  rw [parse_value, getElem?_of_drop h]
  dsimp only
  rw [if_neg (by decide), if_pos rfl]

theorem parse_value_arr (h : text.drop i = .scalar '[' :: rest) :
    parse_value text (fuel + 1) (room + 1) i path = parse_array text fuel room i path := by
  rw [parse_value, getElem?_of_drop h]
  dsimp only
  rw [if_neg (by decide), if_neg (by decide), if_pos rfl]

theorem parse_value_scalar {c : CodePoint} (hquote : c ≠ .scalar '\x22') (hbrace : c ≠ .scalar '\x7b')
    (hbracket : c ≠ .scalar '[') (h : text.drop i = c :: rest) :
    parse_value text (fuel + 1) room i path = parse_scalar text i path := by
  rw [parse_value.eq_def]
  dsimp only
  rw [getElem?_of_drop h]
  dsimp only
  rw [if_neg hquote, if_neg hbrace, if_neg hbracket]

variable {fuel room idx path} {j k : ℕ} {first : List ScalarLoc}

/-! A loop goes on at a comma, and ends where its container is closed. -/

theorem parse_items_last (h : parse_value text fuel room i (path ++ [.index idx]) = some (first, j))
    (hskip : skip_ws text j = k) (hclose : text[k]? = some (.scalar ']')) :
    parse_items text (fuel + 1) room i idx path = some (first, k + 1) := by
  simp [parse_items, h, hskip, hclose]

theorem parse_items_more (h : parse_value text fuel room i (path ++ [.index idx]) = some (first, j))
    (hskip : skip_ws text j = k) (hcomma : text[k]? = some (.scalar ',')) :
    parse_items text (fuel + 1) room i idx path =
      (parse_items text fuel room (skip_ws text (k + 1)) (idx + 1) path).map fun more => (first ++ more.1, more.2) := by
  simp [parse_items, h, hskip, hcomma]

theorem parse_items_none (h : parse_value text fuel room i (path ++ [.index idx]) = none) :
    parse_items text (fuel + 1) room i idx path = none := by
  simp [parse_items, h]

def valueOffset (i : ℕ) (key : List Piece) (colon : Space × Space) : ℕ :=
  i + 1 + (literal key).length + colon.1.text.length + 1 + colon.2.text.length

section Member

variable {key : List Piece} {colon : Space × Space} {value : Spelling .value}

theorem drop_value (h : text.drop i = memberText key colon (value.render ++ rest)) :
    text.drop (valueOffset i key colon) = value.render ++ rest :=
  drop_add (drop_succ (drop_add (drop_add (drop_succ h))))

theorem parse_members_member (h : text.drop i = memberText key colon (value.render ++ rest)) :
    parse_members text (fuel + 1) room i path =
      (parse_value text fuel room (valueOffset i key colon) (path ++ [.key (content key)])).bind fun first =>
        if text[skip_ws text first.2]? = some (.scalar ',') then
          (parse_members text fuel room (skip_ws text (skip_ws text first.2 + 1)) path).map fun more =>
            (first.1 ++ more.1, more.2)
        else if text[skip_ws text first.2]? = some (.scalar '\x7d') then
          some (first.1, skip_ws text first.2 + 1)
        else none := by
  rw [memberText] at h
  obtain ⟨c, tail, hvalue, hspace, -⟩ := render_head value
  have hkey := drop_succ h
  have hcolon := drop_add hkey
  have hskip := skip_ws_of_drop colon.1.space (by decide) hcolon
  have hat := drop_add hcolon
  have hbehind := drop_succ hat
  have hskip' : skip_ws text (i + 1 + (literal key).length + colon.1.text.length + 1) = valueOffset i key colon := by
    rw [hvalue, cons_append] at hbehind
    exact skip_ws_of_drop colon.2.space hspace hbehind
  rw [parse_members, getElem?_of_drop h, if_pos rfl, scanstring_of_drop hkey, Option.bind_some]
  dsimp only
  rw [hskip, getElem?_of_drop hat, if_pos rfl, hskip']

variable (h : text.drop i = memberText key colon (value.render ++ rest))

include h

theorem parse_members_last
    (hvalue : parse_value text fuel room (valueOffset i key colon) (path ++ [.key (content key)]) = some (first, j))
    (hskip : skip_ws text j = k) (hclose : text[k]? = some (.scalar '\x7d')) :
    parse_members text (fuel + 1) room i path = some (first, k + 1) := by
  simp [parse_members_member h, hvalue, hskip, hclose]

theorem parse_members_more
    (hvalue : parse_value text fuel room (valueOffset i key colon) (path ++ [.key (content key)]) = some (first, j))
    (hskip : skip_ws text j = k) (hcomma : text[k]? = some (.scalar ',')) :
    parse_members text (fuel + 1) room i path =
      (parse_members text fuel room (skip_ws text (k + 1)) path).map fun more => (first ++ more.1, more.2) := by
  simp [parse_members_member h, hvalue, hskip, hcomma]

theorem parse_members_none
    (hvalue : parse_value text fuel room (valueOffset i key colon) (path ++ [.key (content key)]) = none) :
    parse_members text (fuel + 1) room i path = none := by
  simp [parse_members_member h, hvalue]

end Member

end Call

/-! ### A spelled text -/

section Behind

variable {part : Part} {j : ℕ} (after : Space) {more : Spelling part} {close : CodePoint} {tail : PyStr}

theorem ends_after (hclose : close = .scalar ']' ∨ close = .scalar '\x7d') (hpart : part ≠ .value) :
    Ends (after.text ++ (more.comma ++ (more.render ++ close :: tail))) := by
  refine ends_append after ?_
  cases more with
  | noItems space | noMembers space => exact ends_append space (ends_cons (.inr (.inr hclose)) tail)
  | item | member => exact ends_cons (.inr (.inl rfl)) _
  | _ => exact absurd rfl hpart

theorem behind_last (hmore : more.isEmpty = true) (hclose : isJsonSpace close = false)
    (h : text.drop j = after.text ++ (more.comma ++ (more.render ++ close :: tail))) :
    skip_ws text j = j + after.text.length + more.comma.length + more.render.length ∧
      text[j + after.text.length + more.comma.length + more.render.length]? = some close := by
  have hspace : ∀ c ∈ more.render, isJsonSpace c = true := by
    cases more with
    | noItems space | noMembers space => exact space.space
    | _ => cases hmore
  have hcomma : more.comma = [] := if_pos hmore
  rw [hcomma, nil_append, ← append_assoc] at h
  have hskip := skip_ws_of_drop (forall_mem_append.2 ⟨after.space, hspace⟩) hclose h
  have hdrop := drop_add h
  rw [length_append, ← Nat.add_assoc] at hskip hdrop
  rw [hcomma, length_nil, Nat.add_zero]
  exact ⟨hskip, getElem?_of_drop hdrop⟩

theorem behind_more (hmore : more.isEmpty = false)
    (h : text.drop j = after.text ++ (more.comma ++ (more.render ++ close :: tail))) :
    skip_ws text j = j + after.text.length ∧ text[j + after.text.length]? = some (.scalar ',') ∧
      text.drop (j + after.text.length + 1) = more.render ++ close :: tail ∧ more.comma.length = 1 := by
  have hcomma : more.comma = [.scalar ','] := if_neg (by simp [hmore])
  rw [hcomma, singleton_append] at h
  have hdrop := drop_add h
  exact ⟨skip_ws_of_drop after.space (by decide) h, getElem?_of_drop hdrop, drop_succ hdrop, by rw [hcomma]; rfl⟩

end Behind

def IndexedAs (text : PyStr) : {part : Part} → Spelling part → Prop
  | .value, spelling => ∀ fuel room i path rest, text.drop i = spelling.render ++ rest → Ends rest →
      3 * (spelling.render ++ rest).length + 1 ≤ fuel →
      parse_value text fuel room i path =
        if spelling.indexed room = true then some (spelling.located path 0 i, i + spelling.render.length) else none
  | .items, spelling => ∀ fuel room i idx path rest, spelling.isEmpty = false →
      text.drop i = spelling.render ++ .scalar ']' :: rest →
      3 * (spelling.render ++ .scalar ']' :: rest).length + 2 ≤ fuel →
      parse_items text fuel room (skip_ws text i) idx path =
        if spelling.indexed room = true then some (spelling.located path idx i, i + spelling.render.length + 1)
        else none
  | .members, spelling => ∀ fuel room i path rest, spelling.isEmpty = false →
      text.drop i = spelling.render ++ .scalar '\x7d' :: rest →
      3 * (spelling.render ++ .scalar '\x7d' :: rest).length + 2 ≤ fuel →
      parse_members text fuel room (skip_ws text i) path =
        if spelling.indexed room = true then some (spelling.located path 0 i, i + spelling.render.length + 1)
        else none

theorem index_arr {items : Spelling .items} (ih : IndexedAs text items) : IndexedAs text (.arr items) := by
  intro fuel room i path rest h _ hfuel
  obtain ⟨fuel, rfl⟩ := Nat.exists_eq_add_one.2 (by omega : 0 < fuel)
  have hrender : (Spelling.arr items).render ++ rest = .scalar '[' :: (items.render ++ .scalar ']' :: rest) := by
    simp [Spelling.render]
  have hlength : (Spelling.arr items).render.length = items.render.length + 2 := by simp [Spelling.render]
  rw [hrender] at h hfuel
  cases room with
  | zero => exact parse_value_nested fuel path (.inl rfl) h
  | succ room =>
    obtain ⟨fuel, rfl⟩ := Nat.exists_eq_succ_of_ne_zero (show fuel ≠ 0 by simp at hfuel; omega)
    rw [parse_value_arr _ _ _ h, parse_array, hlength]
    have hitems := drop_succ h
    cases items with
    | noItems space =>
      have hskip := skip_ws_of_drop space.space (by decide) hitems
      have hclose : text[i + 1 + space.text.length]? = some (.scalar ']') := getElem?_of_drop (drop_add hitems)
      rw [hskip, if_pos hclose]
      simp only [Spelling.render, Spelling.indexed, Spelling.located, if_true, Option.some.injEq, Prod.mk.injEq,
        true_and]
      omega
    | item before value after items =>
      obtain ⟨c, tail, hvalue, hspace, hne, -⟩ := render_head value
      have hstart : text.drop (i + 1) = before.text ++ c :: (tail ++ (after.text ++ (items.comma ++
          (items.render ++ .scalar ']' :: rest)))) := by
        rw [hitems]
        simp [Spelling.render, hvalue]
      have hskip := skip_ws_of_drop before.space hspace hstart
      have hopen : text[skip_ws text (i + 1)]? ≠ some (.scalar ']') := by
        rw [hskip, getElem?_of_drop (drop_add hstart)]
        exact fun heq => hne (Option.some.inj heq)
      rw [if_neg hopen, ih fuel room (i + 1) 0 path rest rfl hitems (by simp at hfuel ⊢; omega)]
      have : i + 1 + (Spelling.item before value after items).render.length + 1 =
          i + ((Spelling.item before value after items).render.length + 2) := by omega
      rw [this]
      rfl

theorem index_obj {members : Spelling .members} (ih : IndexedAs text members) : IndexedAs text (.obj members) := by
  intro fuel room i path rest h _ hfuel
  obtain ⟨fuel, rfl⟩ := Nat.exists_eq_add_one.2 (by omega : 0 < fuel)
  have hrender : (Spelling.obj members).render ++ rest =
      .scalar '\x7b' :: (members.render ++ .scalar '\x7d' :: rest) := by
    simp [Spelling.render]
  have hlength : (Spelling.obj members).render.length = members.render.length + 2 := by simp [Spelling.render]
  rw [hrender] at h hfuel
  cases room with
  | zero => exact parse_value_nested fuel path (.inr rfl) h
  | succ room =>
    obtain ⟨fuel, rfl⟩ := Nat.exists_eq_succ_of_ne_zero (show fuel ≠ 0 by simp at hfuel; omega)
    rw [parse_value_obj _ _ _ h, parse_object, hlength]
    have hmembers := drop_succ h
    cases members with
    | noMembers space =>
      have hskip := skip_ws_of_drop space.space (by decide) hmembers
      have hclose : text[i + 1 + space.text.length]? = some (.scalar '\x7d') := getElem?_of_drop (drop_add hmembers)
      rw [hskip, if_pos hclose]
      simp only [Spelling.render, Spelling.indexed, Spelling.located, if_true, Option.some.injEq, Prod.mk.injEq,
        true_and]
      omega
    | member before key colon value after members =>
      have hstart : text.drop (i + 1) = before.text ++ memberText key colon (value.render ++ (after.text ++
          (members.comma ++ (members.render ++ .scalar '\x7d' :: rest)))) := by
        rw [hmembers]
        simp [Spelling.render, memberText]
      have hskip := skip_ws_of_drop before.space (by decide) hstart
      have hopen : text[skip_ws text (i + 1)]? ≠ some (.scalar '\x7d') := by
        rw [hskip, getElem?_of_drop (drop_add hstart)]
        exact fun heq => absurd (Option.some.inj heq) (by decide)
      rw [if_neg hopen, ih fuel room (i + 1) path rest rfl hmembers (by simp at hfuel ⊢; omega)]
      have : i + 1 + (Spelling.member before key colon value after members).render.length + 1 =
          i + ((Spelling.member before key colon value after members).render.length + 2) := by omega
      rw [this]
      rfl

theorem index_item {before after : Space} {value : Spelling .value} {more : Spelling .items}
    (ihvalue : IndexedAs text value) (ihmore : IndexedAs text more) :
    IndexedAs text (.item before value after more) := by
  intro fuel room i idx path tail _ h hfuel
  obtain ⟨fuel, rfl⟩ := Nat.exists_eq_add_one.2 (by omega : 0 < fuel)
  have hrender : (Spelling.item before value after more).render ++ .scalar ']' :: tail =
      before.text ++ (value.render ++ (after.text ++ (more.comma ++ (more.render ++ .scalar ']' :: tail)))) := by
    simp [Spelling.render]
  have hlength : (Spelling.item before value after more).render.length = before.text.length + value.render.length +
      after.text.length + more.comma.length + more.render.length := by
    simp only [Spelling.render, length_append]
    omega
  rw [hrender] at h hfuel
  simp only [length_append, length_cons] at hfuel
  obtain ⟨c, front, hvalue, hspace, -⟩ := render_head value
  have hpos : 0 < value.render.length := by rw [hvalue, length_cons]; omega
  have hstart := drop_add h
  have hskip : skip_ws text i = i + before.text.length := by
    rw [hvalue, cons_append] at h
    exact skip_ws_of_drop before.space hspace h
  have hbehind := drop_add hstart
  have hfirst := ihvalue fuel room (i + before.text.length) (path ++ [.index idx]) _ hstart
    (ends_after after (.inl rfl) (by decide)) (by simp only [length_append, length_cons]; omega)
  rw [hskip, hlength, Spelling.indexed]
  cases hindexed : value.indexed room with
  | false =>
    rw [hindexed] at hfirst
    exact parse_items_none hfirst
  | true =>
    rw [hindexed, if_pos rfl] at hfirst
    cases hempty : more.isEmpty with
    | true =>
      obtain ⟨hskip', hclose⟩ := behind_last after hempty (by decide) hbehind
      rw [parse_items_last hfirst hskip' hclose]
      cases more with
      | noItems space => simp [Spelling.indexed, Spelling.located, Nat.add_assoc]
      | item => cases hempty
    | false =>
      obtain ⟨hskip', hcomma, hmore, hone⟩ := behind_more after hempty hbehind
      rw [parse_items_more hfirst hskip' hcomma, ihmore fuel room _ _ path tail hempty hmore
        (by simp only [length_append, length_cons]; omega), Bool.true_and, hone, Spelling.located, hone]
      split_ifs
      · simp only [Option.map_some]
        have : i + before.text.length + value.render.length + after.text.length + 1 + more.render.length + 1 =
            i + (before.text.length + value.render.length + after.text.length + 1 + more.render.length) + 1 := by omega
        rw [this]
      · rfl

theorem index_member {before after : Space} {key : List Piece} {colon : Space × Space} {value : Spelling .value}
    {more : Spelling .members} (ihvalue : IndexedAs text value) (ihmore : IndexedAs text more) :
    IndexedAs text (.member before key colon value after more) := by
  intro fuel room i path tail _ h hfuel
  obtain ⟨fuel, rfl⟩ := Nat.exists_eq_add_one.2 (by omega : 0 < fuel)
  have hrender : (Spelling.member before key colon value after more).render ++ .scalar '\x7d' :: tail =
      before.text ++ memberText key colon
        (value.render ++ (after.text ++ (more.comma ++ (more.render ++ .scalar '\x7d' :: tail)))) := by
    simp [Spelling.render, memberText]
  have hlength : i + (Spelling.member before key colon value after more).render.length =
      valueOffset (i + before.text.length) key colon + value.render.length + after.text.length +
        more.comma.length + more.render.length := by
    simp only [Spelling.render, length_append, length_cons, valueOffset]
    omega
  rw [hrender] at h hfuel
  simp only [memberText, length_append, length_cons] at hfuel
  obtain ⟨c, front, hvalue, hspace, -⟩ := render_head value
  have hskip : skip_ws text i = i + before.text.length := skip_ws_of_drop before.space (by decide) h
  have hmember := drop_add h
  have hstart := drop_value hmember
  have hbehind := drop_add hstart
  have hfirst := ihvalue fuel room _ (path ++ [.key (content key)]) _ hstart
    (ends_after after (.inr rfl) (by decide)) (by simp only [length_append, length_cons]; omega)
  rw [hskip, hlength, Spelling.indexed]
  cases hindexed : value.indexed room with
  | false =>
    rw [hindexed] at hfirst
    exact parse_members_none hmember hfirst
  | true =>
    rw [hindexed, if_pos rfl] at hfirst
    cases hempty : more.isEmpty with
    | true =>
      obtain ⟨hskip', hclose⟩ := behind_last after hempty (by decide) hbehind
      rw [parse_members_last hmember hfirst hskip' hclose]
      cases more with
      | noMembers space => simp [Spelling.indexed, Spelling.located, valueOffset]
      | member => cases hempty
    | false =>
      obtain ⟨hskip', hcomma, hmore, hone⟩ := behind_more after hempty hbehind
      rw [parse_members_more hmember hfirst hskip' hcomma, ihmore fuel room _ path tail hempty hmore
        (by simp only [length_append, length_cons]; omega), Bool.true_and, hone, Spelling.located, hone]
      split_ifs
      · rfl
      · rfl

/-- The index of a spelled part. -/
theorem index_render {part : Part} (spelling : Spelling part) : IndexedAs text spelling := by
  induction spelling with
  | null =>
    intro fuel room i path rest h _ hfuel
    obtain ⟨fuel, rfl⟩ := Nat.exists_eq_add_one.2 (by omega : 0 < fuel)
    exact (parse_value_scalar fuel room path (by decide) (by decide) (by decide) h).trans (parse_scalar_null path h)
  | bool b =>
    intro fuel room i path rest h _ hfuel
    obtain ⟨fuel, rfl⟩ := Nat.exists_eq_add_one.2 (by omega : 0 < fuel)
    cases b with
    | true =>
      exact (parse_value_scalar fuel room path (by decide) (by decide) (by decide) h).trans (parse_scalar_true path h)
    | false =>
      exact (parse_value_scalar fuel room path (by decide) (by decide) (by decide) h).trans (parse_scalar_false path h)
  | number n =>
    intro fuel room i path rest h hends hfuel
    obtain ⟨fuel, rfl⟩ := Nat.exists_eq_add_one.2 (by omega : 0 < fuel)
    refine Eq.trans ?_ (parse_scalar_number n path hends h)
    obtain ⟨lexeme, parts, rfl⟩ := n
    obtain ⟨c, tail, hlexeme, hc⟩ := lexeme_head parts
    have hne {d : Char} := numberHead_ne hc (d := d)
    simp only [Spelling.render, hlexeme, cons_append] at h
    exact parse_value_scalar fuel room path (hne (by decide) (by decide)) (hne (by decide) (by decide))
      (hne (by decide) (by decide)) h
  | constant c =>
    intro fuel room i path rest h _ hfuel
    obtain ⟨fuel, rfl⟩ := Nat.exists_eq_add_one.2 (by omega : 0 < fuel)
    have hnone := parse_scalar_constant c path h
    cases c with
    | nan => exact (parse_value_scalar fuel room path (by decide) (by decide) (by decide) h).trans hnone
    | infinity => exact (parse_value_scalar fuel room path (by decide) (by decide) (by decide) h).trans hnone
    | negInfinity => exact (parse_value_scalar fuel room path (by decide) (by decide) (by decide) h).trans hnone
  | str pieces =>
    intro fuel room i path rest h _ hfuel
    obtain ⟨fuel, rfl⟩ := Nat.exists_eq_add_one.2 (by omega : 0 < fuel)
    exact parse_value_str fuel room path h
  | arr items ih => exact index_arr ih
  | obj members ih => exact index_obj ih
  | noItems space =>
    intro _ _ _ _ _ _ h
    cases h
  | noMembers space =>
    intro _ _ _ _ _ h
    cases h
  | item before value after more ihvalue ihmore => exact index_item ihvalue ihmore
  | member before key colon value after more ihvalue ihmore => exact index_member ihvalue ihmore

theorem index_document (document : Document) (room : ℕ) : index_scalars room document.render =
    if document.value.indexed room = true then some document.located else none := by
  obtain ⟨c, tail, hvalue, hspace, -⟩ := render_head document.value
  have h : document.render.drop 0 = document.before.text ++ (document.value.render ++ document.after.text) := rfl
  have hskip : skip_ws document.render 0 = document.before.text.length := by
    rw [hvalue, cons_append] at h
    rw [skip_ws_of_drop document.before.space hspace h, Nat.zero_add]
  have hstart := drop_add h
  rw [Nat.zero_add] at hstart
  have hends : Ends document.after.text := by
    rw [← append_nil document.after.text]
    exact ends_append document.after fun _ h => nomatch h
  rw [index_scalars, hskip, index_render document.value _ room _ [] _ hstart hends
    (by simp only [Document.render, length_append]; omega)]
  split_ifs <;> rfl

end BodyCodec

end AiOrg
