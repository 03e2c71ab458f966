import AiOrg.Python.JsonPlain

/-!
# What `json.dumps` writes is read back

The strings, and the objects of strings, that `json.dumps` writes are what `json.loads` reads from them
(`loadsPlain_dumpsStrings`).
-/

namespace AiOrg

open List

open GoJson (hex4)

section Strings

variable {c : Char} {unit : ℕ} {rest : List Char}

theorem hexDigit_hexDigit {n : ℕ} (h : n < 16) : hexDigit (GoJson.hexDigit n) = some n := by
  interval_cases n <;> decide

theorem scanUnits_hex4 (h : unit < 0x10000) :
    scanUnits ('\\' :: 'u' :: hex4 unit ++ rest) =
      (scanUnits rest).map fun r => (unit :: r.1, r.2) := by
  have hmod : ∀ n : ℕ, n % 16 < 16 := fun n => Nat.mod_lt _ (by norm_num)
  have hvalue : unit / 4096 % 16 * 4096 + unit / 256 % 16 * 256 + unit / 16 % 16 * 16 + unit % 16 =
      unit := by omega
  have hne : ('\\' : Char) ≠ '\x22' := by decide
  simp only [hex4, cons_append, nil_append]
  rw [scanUnits, if_neg hne, if_pos rfl]
  simp only [hexDigit_hexDigit (hmod _), hvalue]

theorem scanUnits_letter {letter : Char} {n : ℕ} (hu : letter ≠ 'u')
    (h : simpleEscape letter = some n) :
    scanUnits ('\\' :: letter :: rest) = (scanUnits rest).map fun r => (n :: r.1, r.2) := by
  have hne : ('\\' : Char) ≠ '\x22' := by decide
  rw [scanUnits, if_neg hne, if_pos rfl, h]
  exact fun _ _ _ _ _ heq _ => hu heq

theorem toNat_lt (c : Char) : c.toNat < 0x110000 := by
  have hvalid := c.valid
  have hcode : c.val.toNat = c.toNat := rfl
  rw [UInt32.isValidChar, Nat.isValidChar, hcode] at hvalid
  omega

theorem codeUnits_lt (h : unit ∈ codeUnits c) : unit < 0x10000 := by
  have hmax := toNat_lt c
  unfold codeUnits at h
  split_ifs at h with hbmp
  · rw [mem_singleton.1 h]
    exact hbmp
  · simp only [mem_cons, not_mem_nil, or_false] at h
    rcases h with h | h <;> omega

theorem scanUnits_units {units : List ℕ} (h : ∀ unit ∈ units, unit < 0x10000) :
    scanUnits ((units.flatMap fun unit => '\\' :: 'u' :: hex4 unit) ++ rest) =
      (scanUnits rest).map fun r => (units ++ r.1, r.2) := by
  induction units with
  | nil => simp
  | cons unit units ih =>
    rw [flatMap_cons, append_assoc, scanUnits_hex4 (h unit mem_cons_self),
      ih fun other hother => h other (mem_cons_of_mem _ hother), Option.map_map]
    rfl

theorem dumpsLetter_escape {letter : Char} (h : dumpsLetter c = some letter) :
    letter ≠ 'u' ∧ simpleEscape letter = some c.toNat ∧ c.toNat < 0x10000 := by
  unfold dumpsLetter at h
  split_ifs at h with h1 h2 h3 h4 h5 h6 h7 <;> cases h <;> subst c <;> decide

theorem scanUnits_dumpsChar : scanUnits (dumpsChar c ++ rest) =
    (scanUnits rest).map fun r => (codeUnits c ++ r.1, r.2) := by
  unfold dumpsChar
  rcases hletter : dumpsLetter c with _ | letter
  · dsimp only
    split_ifs with hplain
    · have hquote : c ≠ '\x22' := fun h => by
        rw [h] at hletter
        cases hletter
      have hslash : c ≠ '\\' := fun h => by
        rw [h] at hletter
        cases hletter
      have hcontrol : ¬ c.toNat ≤ 0x1f := by omega
      have hunits : codeUnits c = [c.toNat] := if_pos (by omega)
      rw [singleton_append, scanUnits.eq_def]
      dsimp only
      rw [if_neg hquote, if_neg hslash, if_neg hcontrol, hunits]
      rfl
    · exact scanUnits_units fun unit hunit => codeUnits_lt hunit
  · obtain ⟨hu, hescape, hbmp⟩ := dumpsLetter_escape hletter
    have hunits : codeUnits c = [c.toNat] := if_pos hbmp
    rw [hunits]
    exact scanUnits_letter hu hescape

theorem scanUnits_dumps (text : List Char) :
    scanUnits (text.flatMap dumpsChar ++ '\x22' :: rest) = some (text.flatMap codeUnits, rest) := by
  induction text with
  | nil =>
    rw [flatMap_nil, nil_append, scanUnits.eq_def]
    dsimp only
    rw [if_pos rfl]
    rfl
  | cons c text ih =>
    rw [flatMap_cons, append_assoc, scanUnits_dumpsChar, ih]
    rfl

theorem not_surrogate (c : Char) : isHighSurrogate c.toNat = false ∧ isLowSurrogate c.toNat = false := by
  have hvalid := c.valid
  have hcode : c.val.toNat = c.toNat := rfl
  rw [UInt32.isValidChar, Nat.isValidChar, hcode] at hvalid
  simp only [isHighSurrogate, isLowSurrogate, Bool.and_eq_false_iff, decide_eq_false_iff_not]
  omega

theorem joinUnits_bmp {n : ℕ} (h : isHighSurrogate n = false) (units : List ℕ) :
    joinUnits (n :: units) = unitChar n :: joinUnits units := by
  cases units with
  | nil => rfl
  | cons m units => rw [joinUnits, h, Bool.false_and, if_neg Bool.false_ne_true]

theorem joinUnits_codeUnits (text : List Char) : joinUnits (text.flatMap codeUnits) = text := by
  induction text with
  | nil => rfl
  | cons c text ih =>
    obtain ⟨hhigh, hlow⟩ := not_surrogate c
    rw [flatMap_cons, codeUnits]
    split_ifs with hbmp
    · rw [singleton_append, joinUnits_bmp hhigh, ih, unitChar, hhigh, hlow]
      simp [Char.ofNat_toNat]
    · have hmax := toNat_lt c
      have hpair : (isHighSurrogate (0xd800 + (c.toNat - 0x10000) / 0x400) &&
          isLowSurrogate (0xdc00 + (c.toNat - 0x10000) % 0x400)) = true := by
        simp only [isHighSurrogate, isLowSurrogate, Bool.and_eq_true, decide_eq_true_eq]
        omega
      have hcode : 0x10000 + (0xd800 + (c.toNat - 0x10000) / 0x400 - 0xd800) * 0x400 +
          (0xdc00 + (c.toNat - 0x10000) % 0x400 - 0xdc00) = c.toNat := by omega
      rw [cons_append, singleton_append, joinUnits, if_pos hpair, hcode, ih,
        Char.ofNat_toNat]

theorem scanJsonString_dumps (text : String) :
    scanJsonString (text.toList.flatMap dumpsChar ++ '\x22' :: rest) = some (text, rest) := by
  rw [scanJsonString, scanUnits_dumps, Option.map_some, joinUnits_codeUnits, String.ofList_toList]

end Strings

/-! ### Objects of strings -/

section Objects

variable {py : PyLib} {fuel : ℕ} {rest : List Char}

def stringFields (members : List (String × String)) : Fields :=
  members.map fun member => (member.1, .str member.2)

theorem dumpsString_append (text : String) (rest : List Char) : dumpsString text ++ rest =
    '\x22' :: (text.toList.flatMap dumpsChar ++ '\x22' :: rest) := by
  rw [dumpsString, cons_append, cons_append, append_assoc]
  rfl

theorem scanPlain_dumpsString (text : String) :
    scanPlain py (fuel + 1) (dumpsString text ++ rest) = .ok (.str text, rest) := by
  rw [dumpsString_append, scanPlain, scanJsonString_dumps]

theorem skipSpace_cons {c : Char} (h : isJsonSpace c = false) (text : List Char) :
    skipSpace (c :: text) = c :: text := by
  rw [skipSpace, dropWhile_cons, h]
  rfl

theorem skipSpace_space (text : List Char) : skipSpace (' ' :: text) = skipSpace text := rfl

theorem skipSpace_dumpsString (text : String) (rest : List Char) :
    skipSpace (dumpsString text ++ rest) = dumpsString text ++ rest := by
  rw [dumpsString_append]
  exact skipSpace_cons (by decide) _

theorem scanPlainMembers_dumps (member : String × String) (members : List (String × String))
    (hfuel : members.length + 2 ≤ fuel) :
    scanPlainMembers py fuel (dumpsMembers (member :: members) ++ rest) =
      .ok (stringFields (member :: members), rest) := by
  obtain ⟨fuel, rfl⟩ : ∃ n, fuel = n + 2 := ⟨fuel - 2, by omega⟩
  induction members generalizing member fuel with
  | nil =>
    obtain ⟨key, value⟩ := member
    rw [dumpsMembers, append_assoc, dumpsString_append, scanPlainMembers.eq_def]
    simp only [scanJsonString_dumps, cons_append, skipSpace_cons (c := ':') (by decide), skipSpace_space,
      append_assoc, skipSpace_dumpsString, scanPlain_dumpsString, bind, Except.bind,
      nil_append, skipSpace_cons (c := '\x7d') (by decide)]
    rfl
  | cons next members ih =>
    obtain ⟨fuel, rfl⟩ : ∃ n, fuel = n + 1 := ⟨fuel - 1, by simp at hfuel; omega⟩
    obtain ⟨key, value⟩ := member
    have hnext : skipSpace (dumpsMembers (next :: members) ++ rest) =
        dumpsMembers (next :: members) ++ rest := by
      rcases members with _ | ⟨after, members⟩ <;>
        simp only [dumpsMembers, append_assoc, skipSpace_dumpsString]
    rw [dumpsMembers, append_assoc, dumpsString_append, scanPlainMembers.eq_def]
    · simp only [scanJsonString_dumps, cons_append, skipSpace_cons (c := ':') (by decide), skipSpace_space,
        append_assoc, skipSpace_dumpsString, scanPlain_dumpsString, bind, Except.bind,
        skipSpace_cons (c := ',') (by decide), hnext, ih next fuel (by simp at hfuel; omega)]
      rfl
    · simp

theorem foldl_set (acc : Fields) {pairs : List (String × Json)}
    (h : ((acc ++ pairs).map Prod.fst).Nodup) :
    pairs.foldl (fun result pair => result.set pair.1 pair.2) acc = acc ++ pairs := by
  have hset : ∀ (acc : Fields) (key : String) (value : Json), key ∉ acc.map Prod.fst →
      acc.set key value = acc ++ [(key, value)] := by
    intro acc key value hkey
    induction acc with
    | nil => rfl
    | cons entry acc ih =>
      obtain ⟨k, v⟩ := entry
      rw [map_cons, mem_cons, not_or] at hkey
      rw [Fields.set, if_neg (Ne.symm hkey.1), ih hkey.2]
      rfl
  induction pairs generalizing acc with
  | nil => simp
  | cons pair pairs ih =>
    have hkey : pair.1 ∉ acc.map Prod.fst := by
      rw [map_append, map_cons, nodup_append] at h
      exact fun hmem => h.2.2 _ hmem _ mem_cons_self rfl
    rw [foldl_cons, hset acc pair.1 pair.2 hkey, ih]
    · rw [append_assoc]
      rfl
    · rwa [append_assoc]

theorem dictOf_stringFields {members : List (String × String)}
    (h : (members.map Prod.fst).Nodup) : dictOf (stringFields members) = stringFields members := by
  rw [dictOf, foldl_set]
  · rfl
  · rw [nil_append, stringFields, map_map]
    exact h

theorem length_le_dumpsMembers (members : List (String × String)) :
    members.length < (dumpsMembers members).length := by
  induction members with
  | nil => simp [dumpsMembers]
  | cons member members ih =>
    rcases members with _ | ⟨next, members⟩
    · simp [dumpsMembers]
      omega
    · rw [dumpsMembers]
      · simp only [length_append, length_cons] at ih ⊢
        omega
      · simp

/-- A text that the scanner reads as a value, whatever follows it. -/
structure ScansAs (py : PyLib) (text : List Char) (value : Json) : Prop where
  start : ∃ c body, text = c :: body ∧ isJsonSpace c = false ∧ c ≠ ']' ∧ c ≠ '\ufeff'
  scan : ∀ (fuel : ℕ) (rest : List Char), text.length < fuel → scanPlain py fuel (text ++ rest) = .ok (value, rest)

theorem ScansAs.skipSpace_append {text : List Char} {value : Json} (h : ScansAs py text value)
    (rest : List Char) : skipSpace (text ++ rest) = text ++ rest := by
  obtain ⟨c, body, rfl, hc, -⟩ := h.start
  exact skipSpace_cons hc _

theorem scansAs_dumpsString (text : String) : ScansAs py (dumpsString text) (.str text) where
  start := ⟨_, _, rfl, by decide, by decide, by decide⟩
  scan fuel rest hfuel := by
    obtain ⟨fuel, rfl⟩ : ∃ n, fuel = n + 1 := ⟨fuel - 1, by omega⟩
    exact scanPlain_dumpsString text

theorem scansAs_dumpsStrings {members : List (String × String)} (h : (members.map Prod.fst).Nodup) :
    ScansAs py (dumpsStrings members).toList
      (.obj (stringFields (members.insertionSort fun a b => a.1 ≤ b.1))) := by
  have hperm : (members.insertionSort fun a b => a.1 ≤ b.1).Perm members :=
    perm_insertionSort _ _
  have hnodup := (hperm.map Prod.fst).nodup_iff.2 h
  rw [dumpsStrings, String.toList_ofList]
  generalize members.insertionSort (fun a b => a.1 ≤ b.1) = sorted at hnodup
  have hlength := length_le_dumpsMembers sorted
  refine ⟨⟨_, _, rfl, by decide, by decide, by decide⟩, fun fuel rest hfuel => ?_⟩
  obtain ⟨fuel, rfl⟩ : ∃ n, fuel = n + 1 := ⟨fuel - 1, by omega⟩
  rw [length_cons] at hfuel
  rcases sorted with _ | ⟨member, sorted⟩
  · rfl
  · have hmembers := @scanPlainMembers_dumps py fuel rest member sorted (by
      simp only [length_cons] at hlength
      omega)
    obtain ⟨body, hbody⟩ : ∃ body, dumpsMembers (member :: sorted) ++ rest = '\x22' :: body := by
      rcases sorted with _ | ⟨next, sorted⟩
      · rw [dumpsMembers, append_assoc, dumpsString_append]
        exact ⟨_, rfl⟩
      · rw [dumpsMembers, append_assoc, dumpsString_append]
        · exact ⟨_, rfl⟩
        · simp
    rw [hbody] at hmembers
    rw [cons_append, hbody, scanPlain, skipSpace_cons (by decide)]
    simp [hmembers, bind, Except.bind, pure, Except.pure, dictOf_stringFields hnodup]

theorem scanPlainItems_dumps {texts : List (List Char)} {values : List Json}
    (h : Forall₂ (ScansAs py) texts values) (hne : texts ≠ [])
    (hfuel : ([',', ' '].intercalate texts).length + 1 < fuel) :
    scanPlainItems py fuel ([',', ' '].intercalate texts ++ ']' :: rest) = .ok (values, rest) := by
  induction h generalizing fuel with
  | nil => exact absurd rfl hne
  | @cons text value texts values hscan hrest ih =>
    obtain ⟨fuel, rfl⟩ : ∃ n, fuel = n + 1 := ⟨fuel - 1, by omega⟩
    rcases texts with _ | ⟨next, texts⟩
    · cases hrest
      rw [intercalate_singleton] at hfuel ⊢
      rw [scanPlainItems, hscan.scan fuel _ (by omega)]
      simp [bind, Except.bind, skipSpace_cons (c := ']') (by decide)]
    · rw [intercalate_cons_cons] at hfuel ⊢
      simp only [length_append, length_cons, length_nil] at hfuel
      have hnext := @ih fuel (by simp) (by omega)
      obtain ⟨value', values, hnextScan, -, rfl⟩ := forall₂_cons_left_iff.1 hrest
      have hspace : skipSpace ([',', ' '].intercalate (next :: texts) ++ ']' :: rest) =
          [',', ' '].intercalate (next :: texts) ++ ']' :: rest := by
        rcases texts with _ | ⟨after, texts⟩
        · rw [intercalate_singleton]
          exact hnextScan.skipSpace_append _
        · rw [intercalate_cons_cons, append_assoc, append_assoc]
          exact hnextScan.skipSpace_append _
      rw [scanPlainItems, append_assoc, append_assoc, hscan.scan fuel _ (by omega)]
      simp [bind, Except.bind, skipSpace_cons (c := ',') (by decide), skipSpace_space, hspace, hnext, pure,
        Except.pure]

theorem scansAs_dumpsList {texts : List (List Char)} {values : List Json}
    (h : Forall₂ (ScansAs py) texts values) : ScansAs py (dumpsList texts) (.arr values) where
  start := ⟨_, _, rfl, by decide, by decide, by decide⟩
  scan fuel rest hfuel := by
    rw [dumpsList] at hfuel ⊢
    obtain ⟨fuel, rfl⟩ : ∃ n, fuel = n + 1 := ⟨fuel - 1, by omega⟩
    simp only [length_append, length_cons, length_nil] at hfuel
    cases h with
    | nil => rfl
    | @cons text value texts values hscan hrest =>
      have hitems := @scanPlainItems_dumps py fuel rest _ _ (.cons hscan hrest) (by simp) (by omega)
      obtain ⟨c, body, hbody, hspace, hclose⟩ : ∃ c body,
          [',', ' '].intercalate (text :: texts) ++ ']' :: rest = c :: body ∧ isJsonSpace c = false ∧ c ≠ ']' := by
        obtain ⟨c, body, rfl, hspace, hclose, -⟩ := hscan.start
        rcases texts with _ | ⟨next, texts⟩
        · exact ⟨c, _, rfl, hspace, hclose⟩
        · rw [intercalate_cons_cons]
          exact ⟨c, _, rfl, hspace, hclose⟩
      rw [hbody] at hitems
      rw [cons_append, cons_append, append_assoc, singleton_append, hbody, scanPlain.eq_def]
      simp [skipSpace_cons hspace, hclose, hitems, bind, Except.bind, pure, Except.pure]

theorem loadsPlain_of_scansAs {text : String} {value : Json} (h : ScansAs py text.toList value) :
    loadsPlain py text = .ok value := by
  have hscan := h.scan (2 * text.length + 2) [] (by rw [String.length_toList]; omega)
  have hspace := h.skipSpace_append []
  obtain ⟨c, body, hbody, -, -, hmark⟩ := h.start
  rw [append_nil] at hscan hspace
  rw [loadsPlain, if_neg (by simpa [hbody] using hmark), hspace, hscan]
  rfl

/-- What `json.dumps` writes of an object of strings, `json.loads` reads, by the names in order. -/
theorem loadsPlain_dumpsStrings {members : List (String × String)}
    (h : (members.map Prod.fst).Nodup) :
    loadsPlain py (dumpsStrings members) =
      .ok (.obj (stringFields (members.insertionSort fun a b => a.1 ≤ b.1))) :=
  loadsPlain_of_scansAs (scansAs_dumpsStrings h)

end Objects

end AiOrg
