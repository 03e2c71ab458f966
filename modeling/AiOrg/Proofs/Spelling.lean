import AiOrg.BodyCodec.Spelling

/-!
# The scanner reads the spellings

The scanner stops behind a spelling of a value with what the spelling stands for, also when that is an error
(`scan_render`), and what it takes off a text is a spelling (`spelling_of_scan`). So `json.loads` accepts the texts of
JSON that stand for a value, and reads that value (`jsonLoads_eq_ok_iff`).
-/

namespace AiOrg

open List

namespace BodyCodec

open PyStr (plain)
open Checks

variable {hook : Constant → Except CodecError Value}

theorem scanUnits_escape {e : CodePoint} {c : Char} (h : escapeValue e = some c) (rest : PyStr) :
    scanUnits (.scalar '\\' :: e :: rest) = (scanUnits rest).map fun r => ((false, .scalar c) :: r.1, r.2) := by
  have hu : e ≠ .scalar 'u' := by
    rintro rfl
    cases h
  match rest with
  | [] | [_] | [_, _] | [_, _, _] => simp [scanUnits, h]
  | _ :: _ :: _ :: _ :: _ => simp [scanUnits, h, hu]

theorem scanUnits_hex {h₁ h₂ h₃ h₄ : CodePoint} {a b c d : ℕ} (ha : hexValue h₁ = some a) (hb : hexValue h₂ = some b)
    (hc : hexValue h₃ = some c) (hd : hexValue h₄ = some d) (rest : PyStr) :
    scanUnits (.scalar '\\' :: .scalar 'u' :: h₁ :: h₂ :: h₃ :: h₄ :: rest) =
      (scanUnits rest).map fun r => ((true, .ofUnit (a * 4096 + b * 256 + c * 16 + d)) :: r.1, r.2) := by
  simp [scanUnits, ha, hb, hc, hd]

theorem isRaw_iff {c : CodePoint} : isRaw c = true ↔ c ≠ .scalar '\x22' ∧ c ≠ .scalar '\\' ∧
    CodePoint.isChar (fun c => c.toNat < 0x20) c = false := by
  simp [isRaw, and_assoc]

theorem scanUnits_raw {c : CodePoint} (h : isRaw c = true) (rest : PyStr) :
    scanUnits (c :: rest) = (scanUnits rest).map fun r => ((false, c) :: r.1, r.2) := by
  obtain ⟨hquote, hback, -⟩ := isRaw_iff.1 h
  rw [scanUnits.eq_def]
  dsimp only
  rw [if_neg hquote, if_neg hback, if_pos h]

theorem scanUnits_piece (piece : Piece) (rest : PyStr) :
    scanUnits (piece.render ++ rest) = (scanUnits rest).map fun r => (piece.unit :: r.1, r.2) := by
  cases piece with
  | raw c h => exact scanUnits_raw h rest
  | letter c known => exact scanUnits_escape (Option.eq_some_of_isSome known) rest
  | hex h₁ h₂ h₃ h₄ digits =>
    simp only [forall_mem_cons, Option.isSome_iff_exists] at digits
    obtain ⟨⟨a, ha⟩, ⟨b, hb⟩, ⟨c, hc⟩, ⟨d, hd⟩, -⟩ := digits
    refine (scanUnits_hex ha hb hc hd rest).trans ?_
    simp [Piece.unit, ha, hb, hc, hd]

theorem literal_cons (piece : Piece) (pieces : List Piece) (rest : PyStr) :
    literal (piece :: pieces) ++ rest = piece.render ++ (literal pieces ++ rest) := by
  simp [literal, append_assoc]

theorem scanUnits_literal (pieces : List Piece) (rest : PyStr) :
    scanUnits (literal pieces ++ rest) = some (pieces.map Piece.unit, rest) := by
  induction pieces with
  | nil =>
    show scanUnits (.scalar '\x22' :: rest) = some ([], rest)
    rw [scanUnits.eq_def]
    rfl
  | cons piece pieces ih =>
    rw [literal_cons, scanUnits_piece, ih]
    rfl

theorem scanString_literal (pieces : List Piece) (rest : PyStr) :
    scanString (literal pieces ++ rest) = some (content pieces, rest) := by
  rw [scanString, scanUnits_literal]
  rfl

theorem literal_of_map (piece : Piece) {unit : Bool × CodePoint} (hunit : piece.unit = unit) {text rest : PyStr}
    {units : List (Bool × CodePoint)} (ih : ∀ {rest : PyStr} {units : List (Bool × CodePoint)},
      scanUnits text = some (units, rest) → ∃ pieces, text = literal pieces ++ rest ∧ units = pieces.map Piece.unit)
    (h : (scanUnits text).map (fun r => (unit :: r.1, r.2)) = some (units, rest)) :
    ∃ pieces, piece.render ++ text = literal pieces ++ rest ∧ units = pieces.map Piece.unit := by
  obtain ⟨⟨more, rest'⟩, hscan, h⟩ := Option.map_eq_some_iff.1 h
  obtain ⟨rfl, rfl⟩ := Prod.mk.inj h
  obtain ⟨pieces, rfl, rfl⟩ := ih hscan
  exact ⟨piece :: pieces, (literal_cons piece pieces _).symm, by rw [map_cons, hunit]⟩

theorem literal_of_scanUnits {text rest : PyStr} {units : List (Bool × CodePoint)}
    (h : scanUnits text = some (units, rest)) : ∃ pieces, text = literal pieces ++ rest ∧ units = pieces.map Piece.unit := by
  fun_induction scanUnits text generalizing units rest with
  | case2 rest' =>
    obtain ⟨rfl, rfl⟩ := Prod.mk.inj (Option.some.inj h)
    exact ⟨[], rfl, rfl⟩
  | case3 h₁ h₂ h₃ h₄ text a b c d hd hc hb ha _ ih =>
    exact literal_of_map (.hex h₁ h₂ h₃ h₄ (by simp [ha, hb, hc, hd]))
      (by simp [Piece.unit, ha, hb, hc, hd]) ih h
  | case5 e h₁ h₂ h₃ h₄ text _ c hc _ ih =>
    exact literal_of_map (.letter e (by simp [hc])) (by simp [Piece.unit, hc]) ih h
  | case7 e text _ c hc _ ih =>
    exact literal_of_map (.letter e (by simp [hc])) (by simp [Piece.unit, hc]) ih h
  | case10 c text _ _ hraw ih => exact literal_of_map (.raw c hraw) rfl ih h
  | _ => cases h

theorem literal_of_scanString {text s rest : PyStr} (h : scanString text = some (s, rest)) :
    ∃ pieces, text = literal pieces ++ rest ∧ s = content pieces := by
  obtain ⟨⟨units, rest'⟩, hscan, h⟩ := Option.map_eq_some_iff.1 h
  obtain ⟨rfl, rfl⟩ := Prod.mk.inj h
  obtain ⟨pieces, htext, rfl⟩ := literal_of_scanUnits hscan
  exact ⟨pieces, htext, rfl⟩

theorem skipSpace_append (space : Space) (rest : PyStr) : skipSpace (space.text ++ rest) = skipSpace rest :=
  dropWhile_append_of_pos space.space

theorem skipSpace_cons {c : CodePoint} (h : isJsonSpace c = false) (rest : PyStr) :
    skipSpace (c :: rest) = c :: rest := by
  rw [skipSpace, dropWhile_cons, h]
  rfl

def leadingSpace (text : PyStr) : Space := ⟨text.takeWhile isJsonSpace, fun _ hc => mem_takeWhile_imp hc⟩

theorem leadingSpace_append (text : PyStr) : (leadingSpace text).text ++ skipSpace text = text :=
  takeWhile_append_dropWhile

theorem eq_of_head {text : PyStr} {c : CodePoint} (h : (skipSpace text).head? = some c) :
    text = (leadingSpace text).text ++ c :: (skipSpace text).tail := by
  rw [head?_eq_some_iff] at h
  obtain ⟨rest, hrest⟩ := h
  rw [hrest, tail_cons, ← hrest, leadingSpace_append]

theorem stops_append (space : Space) {rest : PyStr} (h : Stops isDigit rest) : Stops isDigit (space.text ++ rest) := by
  intro c hc
  cases hspace : space.text with
  | nil =>
    rw [hspace] at hc
    exact h c hc
  | cons d text =>
    rw [hspace] at hc
    obtain rfl : d = c := Option.some.inj hc
    have hd := space.space d (by rw [hspace]; exact mem_cons_self)
    cases d with
    | surrogate n => cases hd
    | scalar d =>
      simp only [isJsonSpace, CodePoint.isChar, decide_eq_true_eq] at hd
      rcases hd with rfl | rfl | rfl | rfl <;> decide

theorem stops_cons {c : CodePoint} (h : isDigit c = false ∧ c ≠ .scalar '.' ∧ isExponentMark c = false) (rest : PyStr) :
    Stops isDigit (c :: rest) := by
  intro d hd
  obtain rfl : c = d := Option.some.inj hd
  exact h

theorem stops_nil : Stops isDigit [] := fun _ h => nomatch h

theorem isDigit_ne {c : CodePoint} (h : isDigit c = true) {d : Char} (hd : d.isDigit = false) : c ≠ .scalar d := by
  rintro rfl
  exact Bool.false_ne_true (hd.symm.trans h)

theorem numberHead_ne {c : CodePoint} {P : Prop} (hc : isDigit c = true ∨ c = .scalar '-' ∧ P) {d : Char}
    (hd : d.isDigit = false) (hminus : d ≠ '-') : c ≠ .scalar d := by
  rcases hc with hc | ⟨rfl, -⟩
  · exact isDigit_ne hc hd
  · exact fun heq => hminus (CodePoint.scalar.inj heq).symm

theorem lexeme_head (parts : NumberParts) : ∃ c rest, parts.lexeme = c :: rest ∧
    (isDigit c = true ∨ c = .scalar '-' ∧ ∃ d rest', rest = d :: rest' ∧ isDigit d = true) := by
  have hwhole : ∃ d ds, parts.whole = d :: ds ∧ isDigit d = true := by
    rcases parts.whole_ok with hzero | ⟨d, ds, hwhole, hd, -, -⟩
    · exact ⟨.scalar '0', [], hzero, by decide⟩
    · exact ⟨d, ds, hwhole, hd⟩
  obtain ⟨d, ds, hwhole, hd⟩ := hwhole
  rcases parts.minus_ok with hnil | hminus
  · exact ⟨d, _, by rw [NumberParts.lexeme, hnil, hwhole]; rfl, .inl hd⟩
  · exact ⟨.scalar '-', _, by rw [NumberParts.lexeme, hminus, hwhole]; rfl, .inr ⟨rfl, d, _, rfl, hd⟩⟩

theorem not_startsWith {c : CodePoint} {t : Char} (h : c ≠ .scalar t) (token : List Char) (rest : PyStr) :
    ¬ startsWith (t :: token) (c :: rest) := by
  intro hstarts
  exact h (cons_prefix_cons.1 hstarts).1.symm

theorem scanScalar_number (n : ExactJSONNumber) {rest : PyStr} (h : Stops isDigit rest) :
    scanScalar hook (n.lexeme ++ rest) = .ok (.number n, rest) := by
  obtain ⟨lexeme, parts, rfl⟩ := n
  have hscan := scanNumber_append digitClass_isDigit parts h
  obtain ⟨c, tail, hlexeme, hc⟩ := lexeme_head parts
  have hne {d : Char} := numberHead_ne hc (d := d)
  have hminus : ¬ startsWith ['-', 'I', 'n', 'f', 'i', 'n', 'i', 't', 'y'] (c :: (tail ++ rest)) := by
    rcases hc with hc | ⟨rfl, d, rest', rfl, hd⟩
    · exact not_startsWith (isDigit_ne hc (by decide)) _ _
    · intro hstarts
      exact not_startsWith (isDigit_ne hd (by decide)) _ _ (cons_prefix_cons.1 hstarts).2
  have hstart : parts.lexeme ++ rest = c :: (tail ++ rest) := by rw [hlexeme, cons_append]
  rw [scanScalar]
  simp only
  rw [hstart, if_neg (not_startsWith (hne (by decide) (by decide)) _ _),
    if_neg (not_startsWith (hne (by decide) (by decide)) _ _), if_neg (not_startsWith (hne (by decide) (by decide)) _ _),
    if_neg (not_startsWith (hne (by decide) (by decide)) _ _), if_neg (not_startsWith (hne (by decide) (by decide)) _ _),
    if_neg hminus]
  split
  · rename_i lexeme rest' heq
    rw [← hstart, hscan] at heq
    obtain ⟨rfl, rfl⟩ := Prod.mk.inj (Option.some.inj heq)
    rfl
  · rename_i heq
    rw [← hstart, hscan] at heq
    cases heq

theorem startsWith_append (token : List Char) (rest : PyStr) : startsWith token (plain token ++ rest) :=
  prefix_append _ _

theorem scanScalar_null (rest : PyStr) : scanScalar hook (plain ['n', 'u', 'l', 'l'] ++ rest) = .ok (.null, rest) := by
  rw [scanScalar, if_pos (startsWith_append _ _)]
  rfl

theorem scanScalar_true (rest : PyStr) : scanScalar hook (plain ['t', 'r', 'u', 'e'] ++ rest) = .ok (.bool true, rest) := by
  have hnull : ¬ startsWith ['n', 'u', 'l', 'l'] (plain ['t', 'r', 'u', 'e'] ++ rest) :=
    not_startsWith (c := .scalar 't') (by decide) _ _
  rw [scanScalar, if_neg hnull, if_pos (startsWith_append _ _)]
  rfl

theorem scanScalar_false (rest : PyStr) :
    scanScalar hook (plain ['f', 'a', 'l', 's', 'e'] ++ rest) = .ok (.bool false, rest) := by
  have hnull : ¬ startsWith ['n', 'u', 'l', 'l'] (plain ['f', 'a', 'l', 's', 'e'] ++ rest) :=
    not_startsWith (c := .scalar 'f') (by decide) _ _
  have htrue : ¬ startsWith ['t', 'r', 'u', 'e'] (plain ['f', 'a', 'l', 's', 'e'] ++ rest) :=
    not_startsWith (c := .scalar 'f') (by decide) _ _
  rw [scanScalar, if_neg hnull, if_neg htrue, if_pos (startsWith_append _ _)]
  rfl

theorem scanScalar_constant (constant : Constant) (rest : PyStr) :
    scanScalar hook (plain constant.token ++ rest) = (hook constant).map fun v => (v, rest) := by
  cases constant with
  | nan =>
    have hnot {d : Char} (hd : d ≠ 'N') (ds : List Char) : ¬ startsWith (d :: ds) (plain ['N', 'a', 'N'] ++ rest) :=
      not_startsWith (by simpa [eq_comm] using hd) _ _
    show scanScalar hook (plain ['N', 'a', 'N'] ++ rest) = _
    rw [scanScalar, if_neg (hnot (by decide) _), if_neg (hnot (by decide) _), if_neg (hnot (by decide) _),
      if_pos (startsWith_append _ _)]
    rfl
  | infinity =>
    have hnot {d : Char} (hd : d ≠ 'I') (ds : List Char) :
        ¬ startsWith (d :: ds) (plain ['I', 'n', 'f', 'i', 'n', 'i', 't', 'y'] ++ rest) :=
      not_startsWith (by simpa [eq_comm] using hd) _ _
    show scanScalar hook (plain ['I', 'n', 'f', 'i', 'n', 'i', 't', 'y'] ++ rest) = _
    rw [scanScalar, if_neg (hnot (by decide) _), if_neg (hnot (by decide) _), if_neg (hnot (by decide) _),
      if_neg (hnot (by decide) _), if_pos (startsWith_append _ _)]
    rfl
  | negInfinity =>
    have hnot {d : Char} (hd : d ≠ '-') (ds : List Char) :
        ¬ startsWith (d :: ds) (plain ['-', 'I', 'n', 'f', 'i', 'n', 'i', 't', 'y'] ++ rest) :=
      not_startsWith (by simpa [eq_comm] using hd) _ _
    show scanScalar hook (plain ['-', 'I', 'n', 'f', 'i', 'n', 'i', 't', 'y'] ++ rest) = _
    rw [scanScalar, if_neg (hnot (by decide) _), if_neg (hnot (by decide) _), if_neg (hnot (by decide) _),
      if_neg (hnot (by decide) _), if_neg (hnot (by decide) _), if_pos (startsWith_append _ _)]
    rfl

theorem spelling_of_scanScalar {text rest : PyStr} {value : Value} (h : scanScalar hook text = .ok (value, rest)) (room : ℕ) :
    ∃ spelling : Spelling .value, text = spelling.render ++ rest ∧ spelling.read hook room = .ok value := by
  have hdrop {token : List Char} (hstarts : startsWith token text) : text = plain token ++ text.drop token.length := by
    obtain ⟨rest, rfl⟩ := hstarts
    have hlength : token.length = (plain token).length := (length_map _).symm
    rw [hlength, drop_left]
  rw [scanScalar] at h
  split_ifs at h with hnull htrue hfalse hnan hinfinity hnegative
  · obtain ⟨rfl, rfl⟩ := Prod.mk.inj (Except.ok.inj h)
    exact ⟨.null, hdrop hnull, rfl⟩
  · obtain ⟨rfl, rfl⟩ := Prod.mk.inj (Except.ok.inj h)
    exact ⟨.bool true, hdrop htrue, rfl⟩
  · obtain ⟨rfl, rfl⟩ := Prod.mk.inj (Except.ok.inj h)
    exact ⟨.bool false, hdrop hfalse, rfl⟩
  · obtain ⟨v, hv, hpair⟩ := map_eq_ok_iff.1 h
    obtain ⟨rfl, rfl⟩ := Prod.mk.inj hpair
    exact ⟨.constant .nan, hdrop hnan, hv⟩
  · obtain ⟨v, hv, hpair⟩ := map_eq_ok_iff.1 h
    obtain ⟨rfl, rfl⟩ := Prod.mk.inj hpair
    exact ⟨.constant .infinity, hdrop hinfinity, hv⟩
  · obtain ⟨v, hv, hpair⟩ := map_eq_ok_iff.1 h
    obtain ⟨rfl, rfl⟩ := Prod.mk.inj hpair
    exact ⟨.constant .negInfinity, hdrop hnegative, hv⟩
  · split at h
    · rename_i lexeme rest' hscan
      obtain ⟨rfl, rfl⟩ := Prod.mk.inj (Except.ok.inj h)
      exact ⟨.number ⟨lexeme, parts_of_scanNumber hscan⟩, append_of_scanNumber hscan, rfl⟩
    · cases h

/-! ### A spelling is read -/

def ScannedAs (hook : Constant → Except CodecError Value) : {part : Part} → Spelling part → Prop
  | .value, spelling => ∀ fuel room rest, Stops isDigit rest → 2 * (spelling.render ++ rest).length + 1 ≤ fuel →
      scanOnce hook fuel room (spelling.render ++ rest) = (spelling.read hook room).map fun value => (value, rest)
  | .items, spelling => ∀ fuel room rest, spelling.isEmpty = false →
      2 * (spelling.render ++ .scalar ']' :: rest).length + 2 ≤ fuel →
      scanItems hook fuel room (skipSpace (spelling.render ++ .scalar ']' :: rest)) =
        (spelling.read hook room).map fun values => (values, rest)
  | .members, spelling => ∀ fuel room rest, spelling.isEmpty = false →
      2 * (spelling.render ++ .scalar '\x7d' :: rest).length + 2 ≤ fuel →
      scanMembers hook fuel room (skipSpace (spelling.render ++ .scalar '\x7d' :: rest)) =
        (spelling.read hook room).map fun pairs => (pairs, rest)

theorem render_head (spelling : Spelling .value) : ∃ c rest, spelling.render = c :: rest ∧
    isJsonSpace c = false ∧ c ≠ .scalar ']' ∧ c ≠ .scalar '\ufeff' := by
  cases spelling with
  | null => exact ⟨_, _, rfl, by decide⟩
  | bool b => cases b <;> exact ⟨_, _, rfl, by decide⟩
  | number n =>
    obtain ⟨lexeme, parts, rfl⟩ := n
    obtain ⟨c, rest, hlexeme, hc⟩ := lexeme_head parts
    refine ⟨c, rest, hlexeme, ?_⟩
    rcases hc with hc | ⟨rfl, -⟩
    · refine ⟨?_, isDigit_ne hc (by decide), isDigit_ne hc (by decide)⟩
      by_contra hspace
      cases c with
      | surrogate n => cases hc
      | scalar c =>
        simp only [isJsonSpace, CodePoint.isChar, Bool.not_eq_false, decide_eq_true_eq] at hspace
        rcases hspace with rfl | rfl | rfl | rfl <;> exact absurd hc (by decide)
    · decide
  | constant c => cases c <;> exact ⟨_, _, rfl, by decide⟩
  | str pieces => exact ⟨_, _, rfl, by decide⟩
  | arr items => exact ⟨_, _, rfl, by decide⟩
  | obj members => exact ⟨_, _, rfl, by decide⟩

theorem skipSpace_value (spelling : Spelling .value) (rest : PyStr) :
    skipSpace (spelling.render ++ rest) = spelling.render ++ rest := by
  obtain ⟨c, tail, hrender, hspace, -⟩ := render_head spelling
  rw [hrender, cons_append, skipSpace_cons hspace]

/-! Scanning what starts with a given code point. -/

section Once

variable (fuel room : ℕ)

theorem scanOnce_str (pieces : List Piece) (rest : PyStr) :
    scanOnce hook (fuel + 1) room (.scalar '\x22' :: (literal pieces ++ rest)) = .ok (.str (content pieces), rest) := by
  rw [scanOnce.eq_def]
  dsimp only
  rw [if_pos rfl, scanString_literal]

theorem scanOnce_arr (text : PyStr) : scanOnce hook (fuel + 1) (room + 1) (.scalar '[' :: text) =
    if (skipSpace text).head? = some (.scalar ']') then .ok (.arr [], (skipSpace text).tail)
    else (scanItems hook fuel room (skipSpace text)).map fun result => (.arr result.1, result.2) := by
  rw [scanOnce, if_neg (by decide), if_neg (by decide), if_pos rfl]
  cases scanItems hook fuel room (skipSpace text) <;> rfl

theorem scanOnce_obj (text : PyStr) : scanOnce hook (fuel + 1) (room + 1) (.scalar '\x7b' :: text) =
    if (skipSpace text).head? = some (.scalar '\x7d') then .ok (.obj [], (skipSpace text).tail)
    else (scanMembers hook fuel room (skipSpace text)).bind fun result =>
      (object_pairs result.1).map fun pairs => (.obj pairs, result.2) := by
  rw [scanOnce, if_neg (by decide), if_pos rfl]
  cases scanMembers hook fuel room (skipSpace text) with
  | error e => rfl
  | ok result =>
    obtain ⟨pairs, rest⟩ := result
    cases hpairs : object_pairs pairs <;> simp [bind, Except.bind, Except.map, hpairs, pure, Except.pure]

theorem scanOnce_nested {c : CodePoint} (h : c = .scalar '[' ∨ c = .scalar '\x7b') (text : PyStr) :
    scanOnce hook (fuel + 1) 0 (c :: text) = .error .recursion := by
  rcases h with rfl | rfl
  · rw [scanOnce, if_neg (by decide), if_neg (by decide), if_pos rfl]
  · rw [scanOnce, if_neg (by decide), if_pos rfl]

theorem scanOnce_scalar {c : CodePoint} (hquote : c ≠ .scalar '\x22') (hbrace : c ≠ .scalar '\x7b')
    (hbracket : c ≠ .scalar '[') (text : PyStr) : scanOnce hook (fuel + 1) room (c :: text) = scanScalar hook (c :: text) := by
  rw [scanOnce.eq_def]
  dsimp only
  rw [if_neg hquote, if_neg hbrace, if_neg hbracket]

variable {fuel room}

theorem scanItems_item (text : PyStr) : scanItems hook (fuel + 1) room text =
    (scanOnce hook fuel room text).bind fun result =>
      if (skipSpace result.2).head? = some (.scalar ']') then .ok ([result.1], (skipSpace result.2).tail)
      else if (skipSpace result.2).head? = some (.scalar ',') then
        (scanItems hook fuel room (skipSpace (skipSpace result.2).tail)).map fun more => (result.1 :: more.1, more.2)
      else .error .decode := by
  rw [scanItems]
  cases scanOnce hook fuel room text with
  | error e => rfl
  | ok result =>
    show (if _ then _ else if _ then _ else _) = _
    congr 2

theorem scanItems_last {text rest tail : PyStr} {value : Value} (h : scanOnce hook fuel room text = .ok (value, rest))
    (hskip : skipSpace rest = .scalar ']' :: tail) : scanItems hook (fuel + 1) room text = .ok ([value], tail) := by
  simp [scanItems_item, h, hskip, Except.bind]

theorem scanItems_more {text rest tail : PyStr} {value : Value} (h : scanOnce hook fuel room text = .ok (value, rest))
    (hskip : skipSpace rest = .scalar ',' :: tail) : scanItems hook (fuel + 1) room text =
      (scanItems hook fuel room (skipSpace tail)).map fun more => (value :: more.1, more.2) := by
  simp [scanItems_item, h, hskip, Except.bind]

theorem scanItems_error {text : PyStr} {e : CodecError} (h : scanOnce hook fuel room text = .error e) :
    scanItems hook (fuel + 1) room text = .error e := by
  rw [scanItems_item, h]
  rfl

def memberText (key : List Piece) (colon : Space × Space) (text : PyStr) : PyStr :=
  .scalar '\x22' :: (literal key ++ (colon.1.text ++ .scalar ':' :: (colon.2.text ++ text)))

section Member

variable (key : List Piece) (colon : Space × Space)

theorem scanMembers_member (text : PyStr) : scanMembers hook (fuel + 1) room (memberText key colon text) =
    (scanOnce hook fuel room (skipSpace text)).bind fun result =>
      if (skipSpace result.2).head? = some (.scalar '\x7d') then
        .ok ([(content key, result.1)], (skipSpace result.2).tail)
      else if (skipSpace result.2).head? = some (.scalar ',') then
        (scanMembers hook fuel room (skipSpace (skipSpace result.2).tail)).map fun more =>
          ((content key, result.1) :: more.1, more.2)
      else .error .decode := by
  have hcolon : skipSpace (colon.1.text ++ .scalar ':' :: (colon.2.text ++ text)) =
      .scalar ':' :: (colon.2.text ++ text) := by
    rw [skipSpace_append, skipSpace_cons (by decide)]
  rw [memberText, scanMembers, if_pos rfl, scanString_literal]
  dsimp only
  rw [hcolon, head?_cons, if_pos rfl, tail_cons, skipSpace_append]
  cases scanOnce hook fuel room (skipSpace text) with
  | error e => rfl
  | ok result =>
    show (if _ then _ else if _ then _ else _) = _
    congr 2

variable {key colon}

theorem scanMembers_last {text rest tail : PyStr} {value : Value}
    (h : scanOnce hook fuel room (skipSpace text) = .ok (value, rest)) (hskip : skipSpace rest = .scalar '\x7d' :: tail) :
    scanMembers hook (fuel + 1) room (memberText key colon text) = .ok ([(content key, value)], tail) := by
  simp [scanMembers_member, h, hskip, Except.bind]

theorem scanMembers_more {text rest tail : PyStr} {value : Value}
    (h : scanOnce hook fuel room (skipSpace text) = .ok (value, rest)) (hskip : skipSpace rest = .scalar ',' :: tail) :
    scanMembers hook (fuel + 1) room (memberText key colon text) =
      (scanMembers hook fuel room (skipSpace tail)).map fun more => ((content key, value) :: more.1, more.2) := by
  simp [scanMembers_member, h, hskip, Except.bind]

theorem scanMembers_error {text : PyStr} {e : CodecError} (h : scanOnce hook fuel room (skipSpace text) = .error e) :
    scanMembers hook (fuel + 1) room (memberText key colon text) = .error e := by
  rw [scanMembers_member, h]
  rfl

end Member

end Once

theorem scanOnce_number (fuel room : ℕ) (n : ExactJSONNumber) {rest : PyStr} (h : Stops isDigit rest) :
    scanOnce hook (fuel + 1) room (n.lexeme ++ rest) = .ok (.number n, rest) := by
  rw [← scanScalar_number n h]
  obtain ⟨lexeme, parts, rfl⟩ := n
  obtain ⟨c, tail, hlexeme, hc⟩ := lexeme_head parts
  have hne {d : Char} := numberHead_ne hc (d := d)
  simp only [hlexeme, cons_append]
  exact scanOnce_scalar fuel room (hne (by decide) (by decide)) (hne (by decide) (by decide))
    (hne (by decide) (by decide)) _

theorem skipSpace_last (after : Space) {part : Part} {rest : Spelling part} (hrest : rest.isEmpty = true)
    {close : CodePoint} (hclose : isJsonSpace close = false) (text : PyStr) :
    skipSpace (after.text ++ (rest.comma ++ (rest.render ++ close :: text))) = close :: text := by
  rw [skipSpace_append]
  cases rest with
  | noItems space | noMembers space => exact (skipSpace_append space _).trans (skipSpace_cons hclose _)
  | _ => cases hrest

theorem skipSpace_more (after : Space) {part : Part} {rest : Spelling part} (hrest : rest.isEmpty = false)
    (text : PyStr) : skipSpace (after.text ++ (rest.comma ++ text)) = .scalar ',' :: text := by
  rw [skipSpace_append, Spelling.comma, hrest]
  exact skipSpace_cons (by decide) _

theorem stops_after {part : Part} (after : Space) (rest : Spelling part) (close : CodePoint)
    (hclose : isDigit close = false ∧ close ≠ .scalar '.' ∧ isExponentMark close = false) (hpart : part ≠ .value)
    (text : PyStr) : Stops isDigit (after.text ++ (rest.comma ++ (rest.render ++ close :: text))) := by
  refine stops_append after ?_
  cases rest with
  | noItems space | noMembers space => exact stops_append space (stops_cons hclose text)
  | item | member => exact stops_cons (by decide) _
  | _ => exact absurd rfl hpart

theorem skipSpace_item (before : Space) (value : Spelling .value) (text : PyStr) :
    skipSpace (before.text ++ (value.render ++ text)) = value.render ++ text := by
  rw [skipSpace_append, skipSpace_value]

theorem length_append_le (space : Space) (text : PyStr) : text.length ≤ (space.text ++ text).length := by
  simp

/-- The scanner stops behind what is spelled. -/
theorem scan_render {part : Part} (spelling : Spelling part) : ScannedAs hook spelling := by
  induction spelling with
  | null =>
    intro fuel room rest _ hfuel
    obtain ⟨fuel, rfl⟩ := Nat.exists_eq_add_one.2 (by omega : 0 < fuel)
    exact (scanOnce_scalar fuel room (by decide) (by decide) (by decide) _).trans (scanScalar_null rest)
  | bool b =>
    intro fuel room rest _ hfuel
    obtain ⟨fuel, rfl⟩ := Nat.exists_eq_add_one.2 (by omega : 0 < fuel)
    cases b with
    | true => exact (scanOnce_scalar fuel room (by decide) (by decide) (by decide) _).trans (scanScalar_true rest)
    | false => exact (scanOnce_scalar fuel room (by decide) (by decide) (by decide) _).trans (scanScalar_false rest)
  | number n =>
    intro fuel room rest hstops hfuel
    obtain ⟨fuel, rfl⟩ := Nat.exists_eq_add_one.2 (by omega : 0 < fuel)
    exact scanOnce_number fuel room n hstops
  | constant c =>
    intro fuel room rest _ hfuel
    obtain ⟨fuel, rfl⟩ := Nat.exists_eq_add_one.2 (by omega : 0 < fuel)
    cases c with
    | nan =>
      exact (scanOnce_scalar fuel room (by decide) (by decide) (by decide) _).trans (scanScalar_constant .nan rest)
    | infinity =>
      exact (scanOnce_scalar fuel room (by decide) (by decide) (by decide) _).trans (scanScalar_constant .infinity rest)
    | negInfinity =>
      exact (scanOnce_scalar fuel room (by decide) (by decide) (by decide) _).trans
        (scanScalar_constant .negInfinity rest)
  | str pieces =>
    intro fuel room rest _ hfuel
    obtain ⟨fuel, rfl⟩ := Nat.exists_eq_add_one.2 (by omega : 0 < fuel)
    exact scanOnce_str fuel room pieces rest
  | arr items ih =>
    intro fuel room rest _ hfuel
    obtain ⟨fuel, rfl⟩ := Nat.exists_eq_add_one.2 (by omega : 0 < fuel)
    have hrender : (Spelling.arr items).render ++ rest = .scalar '[' :: (items.render ++ .scalar ']' :: rest) := by
      simp [Spelling.render]
    rw [hrender] at hfuel ⊢
    cases room with
    | zero => exact scanOnce_nested fuel (.inl rfl) _
    | succ room =>
      rw [scanOnce_arr]
      cases items with
      | noItems space =>
        have hskip : skipSpace ((Spelling.noItems space).render ++ .scalar ']' :: rest) = .scalar ']' :: rest :=
          (skipSpace_append space _).trans (skipSpace_cons (by decide) _)
        rw [hskip]
        rfl
      | item before value after items =>
        have hhead : (skipSpace ((Spelling.item before value after items).render ++ .scalar ']' :: rest)).head? ≠
            some (.scalar ']') := by
          obtain ⟨c, tail, hvalue, -, hne, -⟩ := render_head value
          simp only [Spelling.render, append_assoc, skipSpace_append, skipSpace_value]
          rw [hvalue]
          exact fun heq => hne (Option.some.inj heq)
        rw [if_neg hhead, ih fuel room rest rfl (by simp only [length_cons] at hfuel; omega), Spelling.read]
        cases Spelling.read hook room (Spelling.item before value after items) <;> rfl
  | obj members ih =>
    intro fuel room rest _ hfuel
    obtain ⟨fuel, rfl⟩ := Nat.exists_eq_add_one.2 (by omega : 0 < fuel)
    have hrender : (Spelling.obj members).render ++ rest =
        .scalar '\x7b' :: (members.render ++ .scalar '\x7d' :: rest) := by
      simp [Spelling.render]
    rw [hrender] at hfuel ⊢
    cases room with
    | zero => exact scanOnce_nested fuel (.inr rfl) _
    | succ room =>
      rw [scanOnce_obj]
      cases members with
      | noMembers space =>
        have hskip : skipSpace ((Spelling.noMembers space).render ++ .scalar '\x7d' :: rest) =
            .scalar '\x7d' :: rest :=
          (skipSpace_append space _).trans (skipSpace_cons (by decide) _)
        rw [hskip]
        rfl
      | member before key colon value after members =>
        have hhead : (skipSpace ((Spelling.member before key colon value after members).render ++
            .scalar '\x7d' :: rest)).head? ≠ some (.scalar '\x7d') := by
          simp only [Spelling.render, append_assoc, skipSpace_append, cons_append]
          rw [skipSpace_cons (by decide)]
          exact fun heq => absurd (Option.some.inj heq) (by decide)
        rw [if_neg hhead, ih fuel room rest rfl (by simp only [length_cons] at hfuel; omega), Spelling.read]
        cases Spelling.read hook room (Spelling.member before key colon value after members) with
        | error e => rfl
        | ok pairs =>
          show (object_pairs pairs).map _ = ((object_pairs pairs).map _).map _
          cases object_pairs pairs <;> rfl
  | noItems space => exact fun _ _ _ h => nomatch h
  | noMembers space => exact fun _ _ _ h => nomatch h
  | item before value after rest ihvalue ihrest =>
    intro fuel room text _ hfuel
    obtain ⟨fuel, rfl⟩ := Nat.exists_eq_add_one.2 (by omega : 0 < fuel)
    have hrender : (Spelling.item before value after rest).render ++ .scalar ']' :: text =
        before.text ++ (value.render ++ (after.text ++ (rest.comma ++ (rest.render ++ .scalar ']' :: text)))) := by
      simp [Spelling.render]
    have hstops := stops_after after rest (.scalar ']') (by decide) (by decide) text
    have hskip : skipSpace ((Spelling.item before value after rest).render ++ .scalar ']' :: text) = value.render ++
        (after.text ++ (rest.comma ++ (rest.render ++ .scalar ']' :: text))) := by
      rw [hrender, skipSpace_item]
    have hlength := length_append_le before
      (value.render ++ (after.text ++ (rest.comma ++ (rest.render ++ .scalar ']' :: text))))
    rw [hrender] at hfuel
    have hvalue := ihvalue fuel room _ hstops (by omega)
    rw [hskip, Spelling.read]
    cases hread : value.read hook room with
    | error e =>
      rw [hread] at hvalue
      exact scanItems_error hvalue
    | ok first =>
      rw [hread] at hvalue
      cases hempty : rest.isEmpty with
      | true =>
        rw [scanItems_last hvalue (skipSpace_last after hempty (by decide) text)]
        cases rest with
        | noItems space => rfl
        | item => cases hempty
      | false =>
        rw [scanItems_more hvalue (skipSpace_more after hempty _), ihrest fuel room text hempty (by
          simp [Spelling.comma, hempty] at hfuel ⊢
          omega)]
        show _ = ((rest.read hook room).map _).map _
        cases rest.read hook room <;> rfl
  | member before key colon value after rest ihvalue ihrest =>
    intro fuel room text _ hfuel
    obtain ⟨fuel, rfl⟩ := Nat.exists_eq_add_one.2 (by omega : 0 < fuel)
    have hrender : (Spelling.member before key colon value after rest).render ++ .scalar '\x7d' :: text =
        before.text ++ memberText key colon
          (value.render ++ (after.text ++ (rest.comma ++ (rest.render ++ .scalar '\x7d' :: text)))) := by
      simp [Spelling.render, memberText]
    have hstops := stops_after after rest (.scalar '\x7d') (by decide) (by decide) text
    have hskip : skipSpace ((Spelling.member before key colon value after rest).render ++ .scalar '\x7d' :: text) =
        memberText key colon
          (value.render ++ (after.text ++ (rest.comma ++ (rest.render ++ .scalar '\x7d' :: text)))) := by
      rw [hrender, skipSpace_append, memberText, skipSpace_cons (by decide)]
    rw [hrender] at hfuel
    simp only [memberText, length_append, length_cons] at hfuel
    have hvalue := ihvalue fuel room _ hstops (by simp only [length_append, length_cons]; omega)
    rw [← skipSpace_value] at hvalue
    rw [hskip, Spelling.read]
    cases hread : value.read hook room with
    | error e =>
      rw [hread] at hvalue
      exact scanMembers_error hvalue
    | ok first =>
      rw [hread] at hvalue
      cases hempty : rest.isEmpty with
      | true =>
        rw [scanMembers_last hvalue (skipSpace_last after hempty (by decide) text)]
        cases rest with
        | noMembers space => rfl
        | member => cases hempty
      | false =>
        rw [scanMembers_more hvalue (skipSpace_more after hempty _), ihrest fuel room text hempty (by
          simp only [Spelling.comma, hempty, length_append, length_cons] at hfuel ⊢
          simp at hfuel
          omega)]
        show _ = ((rest.read hook room).map _).map _
        cases rest.read hook room <;> rfl

/-! ### What is read is a spelling -/

def noSpace : Space := ⟨[], fun _ h => nomatch h⟩

/-- What the scanner of each part takes off a text is a spelling of what it returns. -/
structure Scanner (hook : Constant → Except CodecError Value) (fuel : ℕ) : Prop where
  value : ∀ {room text rest v}, scanOnce hook fuel room text = .ok (v, rest) →
    ∃ s : Spelling .value, text = s.render ++ rest ∧ s.read hook room = .ok v
  items : ∀ {room text rest vs} (space : Space), scanItems hook fuel room text = .ok (vs, rest) →
    ∃ s : Spelling .items, space.text ++ text = s.render ++ .scalar ']' :: rest ∧ s.read hook room = .ok vs ∧
      s.isEmpty = false
  members : ∀ {room text rest pairs} (space : Space), scanMembers hook fuel room text = .ok (pairs, rest) →
    ∃ s : Spelling .members, space.text ++ text = s.render ++ .scalar '\x7d' :: rest ∧ s.read hook room = .ok pairs ∧
      s.isEmpty = false

theorem spelling_of_scanOnce {fuel : ℕ} (ih : Scanner hook fuel) {room : ℕ} {text rest : PyStr} {v : Value}
    (h : scanOnce hook (fuel + 1) room text = .ok (v, rest)) :
    ∃ s : Spelling .value, text = s.render ++ rest ∧ s.read hook room = .ok v := by
  cases text with
  | nil => cases h
  | cons c text =>
    by_cases hquote : c = .scalar '\x22'
    · subst hquote
      rw [scanOnce.eq_def] at h
      dsimp only at h
      rw [if_pos rfl] at h
      cases hscan : scanString text with
      | none =>
        rw [hscan] at h
        cases h
      | some result =>
        obtain ⟨s, rest'⟩ := result
        rw [hscan] at h
        obtain ⟨rfl, rfl⟩ := Prod.mk.inj (Except.ok.inj h)
        obtain ⟨pieces, rfl, rfl⟩ := literal_of_scanString hscan
        exact ⟨.str pieces, rfl, rfl⟩
    by_cases hbrace : c = .scalar '\x7b'
    · subst hbrace
      cases room with
      | zero =>
        rw [scanOnce_nested fuel (.inr rfl)] at h
        cases h
      | succ room =>
        rw [scanOnce_obj] at h
        split_ifs at h with hhead
        · obtain ⟨rfl, rfl⟩ := Prod.mk.inj (Except.ok.inj h)
          refine ⟨.obj (.noMembers (leadingSpace text)), ?_, rfl⟩
          show _ :: text = _
          conv_lhs => rw [eq_of_head hhead]
          simp [Spelling.render]
        · obtain ⟨⟨pairs, rest'⟩, hscan, h⟩ := bind_eq_ok_iff.1 h
          obtain ⟨members, hmembers, h⟩ := map_eq_ok_iff.1 h
          obtain ⟨rfl, rfl⟩ := Prod.mk.inj h
          obtain ⟨s, htext, hread, -⟩ := ih.members (leadingSpace text) hscan
          rw [leadingSpace_append] at htext
          refine ⟨.obj s, by simp [Spelling.render, htext], ?_⟩
          rw [Spelling.read, hread]
          show (object_pairs pairs).map _ = _
          rw [hmembers]
          rfl
    by_cases hbracket : c = .scalar '['
    · subst hbracket
      cases room with
      | zero =>
        rw [scanOnce_nested fuel (.inl rfl)] at h
        cases h
      | succ room =>
        rw [scanOnce_arr] at h
        split_ifs at h with hhead
        · obtain ⟨rfl, rfl⟩ := Prod.mk.inj (Except.ok.inj h)
          refine ⟨.arr (.noItems (leadingSpace text)), ?_, rfl⟩
          conv_lhs => rw [eq_of_head hhead]
          simp [Spelling.render]
        · obtain ⟨⟨items, rest'⟩, hscan, h⟩ := map_eq_ok_iff.1 h
          obtain ⟨rfl, rfl⟩ := Prod.mk.inj h
          obtain ⟨s, htext, hread, -⟩ := ih.items (leadingSpace text) hscan
          rw [leadingSpace_append] at htext
          refine ⟨.arr s, by simp [Spelling.render, htext], ?_⟩
          rw [Spelling.read, hread]
          rfl
    rw [scanOnce_scalar fuel room hquote hbrace hbracket] at h
    exact spelling_of_scanScalar h room

theorem spelling_of_scanItems {fuel : ℕ} (ih : Scanner hook fuel) {room : ℕ} {text rest : PyStr} {vs : List Value}
    (space : Space) (h : scanItems hook (fuel + 1) room text = .ok (vs, rest)) :
    ∃ s : Spelling .items, space.text ++ text = s.render ++ .scalar ']' :: rest ∧ s.read hook room = .ok vs ∧
      s.isEmpty = false := by
  rw [scanItems_item] at h
  obtain ⟨⟨first, text'⟩, hscan, hrest⟩ := bind_eq_ok_iff.1 h
  obtain ⟨value, rfl, hvalue⟩ := ih.value hscan
  split_ifs at hrest with hclose hcomma
  · obtain ⟨rfl, rfl⟩ := Prod.mk.inj (Except.ok.inj hrest)
    refine ⟨.item space value (leadingSpace text') (.noItems noSpace), ?_, ?_, rfl⟩
    · have htext : text' = _ := eq_of_head hclose
      conv_lhs => rw [htext]
      simp [Spelling.render, Spelling.comma, Spelling.isEmpty, noSpace]
    · rw [Spelling.read, hvalue]
      rfl
  · obtain ⟨⟨more, rest'⟩, hmore, hpair⟩ := map_eq_ok_iff.1 hrest
    obtain ⟨rfl, rfl⟩ := Prod.mk.inj hpair
    obtain ⟨s, htext, hread, hempty⟩ := ih.items (leadingSpace (skipSpace text').tail) hmore
    rw [leadingSpace_append] at htext
    refine ⟨.item space value (leadingSpace text') s, ?_, ?_, rfl⟩
    · have hcomma : text' = _ := eq_of_head hcomma
      conv_lhs => rw [hcomma, htext]
      simp [Spelling.render, Spelling.comma, hempty]
    · rw [Spelling.read, hvalue]
      show (s.read hook room).map _ = _
      rw [hread]
      rfl

theorem memberText_of_scanMembers {fuel room : ℕ} {text rest : PyStr} {pairs : List (PyStr × Value)}
    (h : scanMembers hook (fuel + 1) room text = .ok (pairs, rest)) :
    ∃ key colon text', text = memberText key colon text' ∧ skipSpace text' = text' := by
  cases text with
  | nil => cases h
  | cons q text =>
    rw [scanMembers] at h
    split_ifs at h with hquote
    subst hquote
    cases hscan : scanString text with
    | none =>
      rw [hscan] at h
      cases h
    | some result =>
      obtain ⟨key, text'⟩ := result
      rw [hscan] at h
      dsimp only at h
      split_ifs at h with hcolon
      obtain ⟨pieces, rfl, -⟩ := literal_of_scanString hscan
      refine ⟨pieces, ⟨leadingSpace text', leadingSpace (skipSpace text').tail⟩, skipSpace (skipSpace text').tail, ?_,
        dropWhile_idempotent _ _⟩
      rw [memberText, leadingSpace_append, ← eq_of_head hcolon]

theorem spelling_of_scanMembers {fuel : ℕ} (ih : Scanner hook fuel) {room : ℕ} {text rest : PyStr}
    {pairs : List (PyStr × Value)} (space : Space) (h : scanMembers hook (fuel + 1) room text = .ok (pairs, rest)) :
    ∃ s : Spelling .members, space.text ++ text = s.render ++ .scalar '\x7d' :: rest ∧ s.read hook room = .ok pairs ∧
      s.isEmpty = false := by
  obtain ⟨key, colon, text, rfl, hskip⟩ := memberText_of_scanMembers h
  rw [scanMembers_member, hskip] at h
  obtain ⟨⟨first, text'⟩, hscan, hrest⟩ := bind_eq_ok_iff.1 h
  obtain ⟨value, rfl, hvalue⟩ := ih.value hscan
  split_ifs at hrest with hclose hcomma
  · obtain ⟨rfl, rfl⟩ := Prod.mk.inj (Except.ok.inj hrest)
    refine ⟨.member space key colon value (leadingSpace text') (.noMembers noSpace), ?_, ?_, rfl⟩
    · have htext : text' = _ := eq_of_head hclose
      conv_lhs => rw [htext]
      simp [Spelling.render, Spelling.comma, Spelling.isEmpty, noSpace, memberText]
    · rw [Spelling.read, hvalue]
      rfl
  · obtain ⟨⟨more, rest'⟩, hmore, hpair⟩ := map_eq_ok_iff.1 hrest
    obtain ⟨rfl, rfl⟩ := Prod.mk.inj hpair
    obtain ⟨s, htext, hread, hempty⟩ := ih.members (leadingSpace (skipSpace text').tail) hmore
    rw [leadingSpace_append] at htext
    refine ⟨.member space key colon value (leadingSpace text') s, ?_, ?_, rfl⟩
    · have hcomma : text' = _ := eq_of_head hcomma
      conv_lhs => rw [hcomma, htext]
      simp [Spelling.render, Spelling.comma, hempty, memberText]
    · rw [Spelling.read, hvalue]
      show (s.read hook room).map _ = _
      rw [hread]
      rfl

theorem spelling_of_scan (fuel : ℕ) : Scanner hook fuel := by
  induction fuel with
  | zero => exact { value := (fun h => nomatch h), items := (fun _ h => nomatch h), members := (fun _ h => nomatch h) }
  | succ fuel ih => exact ⟨spelling_of_scanOnce ih, spelling_of_scanItems ih, spelling_of_scanMembers ih⟩

theorem skipSpace_eq_nil_iff {text : PyStr} : skipSpace text = [] ↔ ∀ c ∈ text, isJsonSpace c = true :=
  dropWhile_eq_nil_iff

theorem Document.render_head (document : Document) : document.render.head? ≠ some (.scalar '\ufeff') := by
  intro h
  rw [Document.render] at h
  cases hbefore : document.before.text with
  | nil =>
    obtain ⟨c, rest, hrender, -, -, hbom⟩ := BodyCodec.render_head document.value
    rw [hbefore, hrender] at h
    exact hbom (Option.some.inj h)
  | cons c text =>
    have hspace := document.before.space c (by rw [hbefore]; exact mem_cons_self)
    rw [hbefore] at h
    obtain rfl : c = .scalar '\ufeff' := Option.some.inj h
    exact absurd hspace (by decide)

theorem jsonLoads_render (document : Document) (room : ℕ) :
    jsonLoads hook room document.render = document.value.read hook room := by
  have hstops : Stops isDigit document.after.text := by
    rw [← append_nil document.after.text]
    exact stops_append document.after stops_nil
  have hscan := @scan_render hook _ document.value (2 * document.render.length + 2) room document.after.text hstops
    (by simp only [Document.render, length_append]; omega)
  have hskip : skipSpace document.render = document.value.render ++ document.after.text := by
    rw [Document.render, skipSpace_item]
  have hafter : skipSpace document.after.text = [] := skipSpace_eq_nil_iff.2 document.after.space
  rw [jsonLoads, if_neg document.render_head, hskip, hscan]
  cases document.value.read hook room with
  | error e => rfl
  | ok v =>
    show (if skipSpace document.after.text = [] then _ else _) = _
    rw [if_pos hafter]
    rfl

theorem jsonLoads_eq_ok_iff {room : ℕ} {text : PyStr} {v : Value} : jsonLoads hook room text = .ok v ↔
    ∃ document : Document, document.render = text ∧ document.value.read hook room = .ok v := by
  constructor
  · intro h
    rw [jsonLoads] at h
    split_ifs at h
    obtain ⟨⟨v', rest⟩, hscan, h⟩ := bind_eq_ok_iff.1 h
    dsimp only at h
    split_ifs at h with hrest
    obtain rfl : v' = v := Except.ok.inj h
    obtain ⟨s, htext, hread⟩ := (spelling_of_scan _).value hscan
    refine ⟨⟨leadingSpace text, s, rest, skipSpace_eq_nil_iff.1 hrest⟩, ?_, hread⟩
    rw [Document.render, ← htext, leadingSpace_append]
  · rintro ⟨document, rfl, hread⟩
    exact (jsonLoads_render document room).trans hread

end BodyCodec

end AiOrg
