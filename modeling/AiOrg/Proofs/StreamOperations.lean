import AiOrg.Proofs.CheckStream
import AiOrg.Proofs.GoJson
import AiOrg.Stream.Operations

/-!
# One stream body, two readers

The codec looks at bytes and Python at characters. On texts of ASCII characters these are the same, and everything else
is refused on both sides, so both accept what `body_from_raw_stream` makes and nothing else
(`stream_readers_agree`).
-/

namespace AiOrg

open List

namespace Kindsv2

open StrictJson (Node)
open GoJson (utf8Bytes mem_utf8EncodeChar)
open CheckStream

def Ascii (text : List Char) : Prop := ∀ c ∈ text, c.toNat < 128

theorem utf8EncodeChar_ascii {c : Char} (h : c.toNat < 128) : String.utf8EncodeChar c = [UInt8.ofNat c.toNat] := by
  have hval : c.val.toNat = c.toNat := rfl
  unfold String.utf8EncodeChar
  dsimp only
  rw [hval, if_pos (by omega)]

theorem utf8Bytes_ascii {text : List Char} (h : Ascii text) :
    utf8Bytes text = text.map fun c => UInt8.ofNat c.toNat := by
  induction text with
  | nil => rfl
  | cons c text ih =>
    obtain ⟨hc, htext⟩ := forall_mem_cons.1 h
    rw [utf8Bytes, flatMap_cons, utf8EncodeChar_ascii hc, map_cons]
    exact congrArg _ (ih htext)

theorem all_utf8Bytes {p : UInt8 → Bool} {q : Char → Bool} (hp : ∀ b, p b = true → b.toNat < 128)
    (hq : ∀ c, q c = true → c.toNat < 128) (h : ∀ c : Char, c.toNat < 128 → p (UInt8.ofNat c.toNat) = q c)
    (text : List Char) : (utf8Bytes text).all p = text.all q := by
  induction text with
  | nil => rfl
  | cons c text ih =>
    rw [utf8Bytes, flatMap_cons, all_append, all_cons]
    refine congrArg₂ _ ?_ ih
    by_cases hc : c.toNat < 128
    · rw [utf8EncodeChar_ascii hc, all_cons, all_nil, Bool.and_true, h c hc]
    · have hqc : q c = false := Bool.eq_false_iff.2 fun htrue => hc (hq c htrue)
      rw [hqc, Bool.eq_false_iff]
      intro hall
      obtain ⟨b, rest, hbytes⟩ := exists_cons_of_ne_nil (ne_nil_of_length_pos (String.length_utf8EncodeChar c ▸ Char.utf8Size_pos c))
      have hb : b ∈ String.utf8EncodeChar c := hbytes ▸ mem_cons_self
      have hsmall := hp b (all_eq_true.1 hall b hb)
      rcases mem_utf8EncodeChar hb with h | h
      · omega
      · omega

theorem toNat_ofNat_ascii {c : Char} (h : c.toNat < 128) : (UInt8.ofNat c.toNat).toNat = c.toNat := by
  rw [UInt8.toNat_ofNat']
  omega

theorem inRange_ascii {low high c : Char} (h : c.toNat < 128) :
    inRange low high (UInt8.ofNat c.toNat) = (decide (low ≤ c) && decide (c ≤ high)) := by
  rw [inRange, toNat_ofNat_ascii h]
  rfl

theorem inRange_lt {low high : Char} {b : UInt8} (hhigh : high.toNat < 128) (h : inRange low high b = true) :
    b.toNat < 128 := by
  rw [inRange, Bool.and_eq_true, decide_eq_true_iff, decide_eq_true_iff] at h
  omega

theorem char_lt {low high c : Char} (hhigh : high.toNat < 128) (h : (decide (low ≤ c) && decide (c ≤ high)) = true) :
    c.toNat < 128 := by
  rw [Bool.and_eq_true, decide_eq_true_iff, decide_eq_true_iff] at h
  have hle : c.toNat ≤ high.toNat := h.2
  omega

theorem isHexDigit_lt {c : Char} (h : isHexDigit c = true) : c.toNat < 128 := by
  rw [isHexDigit, Bool.or_eq_true] at h
  rcases h with h | h
  · exact char_lt (by decide) h
  · exact char_lt (by decide) h

theorem isGitObjectID_eq (value : String) : isGitObjectID value = isOid value := by
  have hall : (utf8Bytes value.toList).all (fun character => inRange '0' '9' character || inRange 'a' 'f' character) =
      value.toList.all isHexDigit := by
    refine all_utf8Bytes (fun b hb => ?_) (fun c hc => isHexDigit_lt hc) (fun c hc => ?_) _
    · rw [Bool.or_eq_true] at hb
      rcases hb with hb | hb
      · exact inRange_lt (by decide) hb
      · exact inRange_lt (by decide) hb
    · rw [inRange_ascii hc, inRange_ascii hc, isHexDigit]
  rw [isGitObjectID, isOid, hall]
  cases hhex : value.toList.all isHexDigit with
  | false => simp
  | true =>
    have hascii : Ascii value.toList := fun c hc => isHexDigit_lt (all_eq_true.1 hhex c hc)
    rw [utf8Bytes_ascii hascii, length_map]
    simp [Bool.beq_eq_decide_eq]

def isKeyChar (c : Char) : Bool := ('a' ≤ c && c ≤ 'z') || ('0' ≤ c && c ≤ '9') || c == '_'

theorem isKeyChar_lt {c : Char} (h : isKeyChar c = true) : c.toNat < 128 := by
  rw [isKeyChar, Bool.or_eq_true, Bool.or_eq_true, beq_iff_eq] at h
  rcases h with (h | h) | rfl
  · exact char_lt (by decide) h
  · exact char_lt (by decide) h
  · decide

theorem key_eq (key : List Char) : ((utf8Bytes key).all fun character =>
    inRange 'a' 'z' character || inRange '0' '9' character || character.toNat = '_'.toNat) = key.all isKeyChar := by
  refine all_utf8Bytes (fun b hb => ?_) (fun c hc => isKeyChar_lt hc) (fun c hc => ?_) _
  · simp only [Bool.or_eq_true, decide_eq_true_eq] at hb
    rcases hb with (hb | hb) | hb
    · exact inRange_lt (by decide) hb
    · exact inRange_lt (by decide) hb
    · rw [hb]
      decide
  · rw [inRange_ascii hc, inRange_ascii hc, toNat_ofNat_ascii hc, isKeyChar]
    congr 1
    rw [Bool.eq_iff_iff, decide_eq_true_iff, beq_iff_eq]
    exact ⟨fun h => Char.toNat_inj.1 h, fun h => h ▸ rfl⟩

/-- A path is the name of a file, or such a name under a key. -/
def IsStreamPath (path : List Char) : Prop :=
  isStreamFile path = true ∨ ∃ key name, path = "sub/".toList ++ key ++ '/' :: name ∧ key ≠ [] ∧
    key.all isKeyChar = true ∧ isStreamFile name = true

theorem slash_not_mem_file {name : List Char} (h : isStreamFile name = true) : '/' ∉ name := by
  rw [isStreamFile, Bool.or_eq_true, decide_eq_true_iff, decide_eq_true_iff] at h
  rcases h with rfl | rfl
  · decide
  · decide

theorem slash_not_mem_key {key : List Char} (h : key.all isKeyChar = true) : '/' ∉ key := fun hmem =>
  absurd (all_eq_true.1 h _ hmem) (by decide)

theorem isPatchworkSourcePath_iff (value : String) : isPatchworkSourcePath value = true ↔ IsStreamPath value.toList := by
  rw [isPatchworkSourcePath, IsStreamPath]
  by_cases hfile : isStreamFile value.toList = true
  · simp [hfile]
  · rw [if_neg hfile, or_iff_right hfile]
    by_cases hsub : "sub/".toList <+: value.toList
    · obtain ⟨rest, hrest⟩ := hsub
      rw [if_pos ⟨rest, hrest⟩, ← hrest, Text.removePrefix_append, cut]
      by_cases hslash : '/' ∈ rest
      · obtain ⟨key, name, rfl, hkey⟩ := eq_append_cons_of_mem hslash
        rw [if_pos hslash, Text.splitOnce_append hkey]
        dsimp only
        rw [key_eq]
        simp only [Bool.and_eq_true, decide_eq_true_eq]
        constructor
        · rintro ⟨⟨hname, hne⟩, hchars⟩
          exact ⟨key, name, (append_assoc _ _ _).symm, hne, hchars, hname⟩
        · rintro ⟨key', name', heq, hne, hchars, hname⟩
          rw [append_assoc, append_cancel_left_eq] at heq
          have hcut := congrArg (Text.splitOnce '/') heq
          rw [Text.splitOnce_append hkey, Text.splitOnce_append (slash_not_mem_key hchars), Prod.mk.injEq] at hcut
          obtain ⟨rfl, rfl⟩ := hcut
          exact ⟨⟨hname, hne⟩, hchars⟩
      · rw [if_neg hslash]
        refine iff_of_false (by simp) ?_
        rintro ⟨key, name, heq, -⟩
        rw [append_assoc, append_cancel_left_eq] at heq
        exact hslash (heq ▸ by simp)
    · rw [if_neg hsub]
      refine iff_of_false (by simp) ?_
      rintro ⟨key, name, heq, -⟩
      exact hsub ⟨_, by rw [heq, append_assoc]⟩

theorem isSourcePath_iff (path : String) : isSourcePath path = true ↔ IsStreamPath path.toList := by
  have hfile : ∀ name : List Char, (name == canonicalPath.toList || name == legacyPath.toList) = isStreamFile name := by
    intro name
    rw [isStreamFile, Bool.beq_eq_decide_eq, Bool.beq_eq_decide_eq]
  have hkey : ∀ key : List Char, isCheckName key = (!key.isEmpty && key.all isKeyChar) := fun key => rfl
  have hjoin := @intercalate_splitOn _ path.toList _ _ '/'
  unfold isSourcePath
  simp only [hfile, hkey]
  constructor
  · intro h
    split at h
    · rename_i name hsplit
      rw [hsplit, intercalate_singleton] at hjoin
      rw [hjoin] at h
      exact .inl h
    · rename_i dir key name hsplit
      simp only [Bool.and_eq_true, beq_iff_eq, Bool.not_eq_true', isEmpty_eq_false_iff] at h
      obtain ⟨⟨rfl, hne, hchars⟩, hname⟩ := h
      refine .inr ⟨key, name, ?_, hne, hchars, hname⟩
      rw [← hjoin, hsplit, intercalate_cons_cons, intercalate_cons_cons, intercalate_singleton]
      simp
    · cases h
  · rintro (h | ⟨key, name, heq, hne, hchars, hname⟩)
    · rw [splitOn_eq_singleton (slash_not_mem_file h)]
      exact h
    · have hsplit : path.toList.splitOn '/' = ["sub".toList, key, name] := by
        have hdir : "sub/".toList ++ key ++ '/' :: name = "sub".toList ++ '/' :: (key ++ '/' :: name) := by
          simp
        rw [heq, hdir, splitOn_append_cons_self_of_not_mem (by decide),
          splitOn_append_cons_self_of_not_mem (slash_not_mem_key hchars),
          splitOn_eq_singleton (slash_not_mem_file hname)]
      rw [hsplit]
      simp only [hname, hchars, Bool.and_true, Bool.and_eq_true, Bool.not_eq_true', isEmpty_eq_false_iff, beq_self_eq_true,
        true_and]
      exact hne

/-! ### The encoded stream -/

def isDigit (c : Char) : Bool := (Base64.value c).isSome

theorem isDigit_iff {c : Char} : isDigit c = true ↔ 65 ≤ c.toNat ∧ c.toNat < 91 ∨ 97 ≤ c.toNat ∧ c.toNat < 123 ∨
    48 ≤ c.toNat ∧ c.toNat < 58 ∨ c = '+' ∨ c = '/' := by
  rw [isDigit, Base64.value]
  split_ifs <;> simp_all

/-- Digits and then up to two paddings, in all a number of quadruples. -/
structure Padded (data : List Char) (padding : ℕ) : Prop where
  digits : data.all isDigit = true
  few : padding ≤ 2
  length : (data.length + padding) % 4 = 0

theorem wellFormed_of_padded : ∀ (data : List Char) {padding : ℕ}, Padded data padding →
    Base64.wellFormed (data ++ replicate padding '=') = true
  | [], padding, h => by
    have hfew := h.few
    have hlength := h.length
    obtain rfl : padding = 0 := by
      simp only [length_nil] at hlength
      omega
    rfl
  | [a], padding, h => by
    have hfew := h.few
    have hlength := h.length
    simp only [length_singleton] at hlength
    omega
  | [a, b], padding, h => by
    have hfew := h.few
    have hlength := h.length
    have hdigits := h.digits
    obtain rfl : padding = 2 := by
      simp only [length_cons, length_nil] at hlength
      omega
    simp only [all_cons, all_nil, Bool.and_true, Bool.and_eq_true, isDigit] at hdigits
    simp [Base64.wellFormed, hdigits.1, hdigits.2]
  | [a, b, c], padding, h => by
    have hfew := h.few
    have hlength := h.length
    have hdigits := h.digits
    obtain rfl : padding = 1 := by
      simp only [length_cons, length_nil] at hlength
      omega
    simp only [all_cons, all_nil, Bool.and_true, Bool.and_eq_true, isDigit] at hdigits
    simp [Base64.wellFormed, hdigits.1, hdigits.2.1, hdigits.2.2]
  | a :: b :: c :: d :: data, padding, h => by
    have hlength := h.length
    have hdigits := h.digits
    simp only [all_cons, Bool.and_eq_true] at hdigits
    obtain ⟨ha, hb, hc, hd, hrest⟩ := hdigits
    have ih := wellFormed_of_padded data ⟨hrest, h.few, by simp only [length_cons] at hlength; omega⟩
    simp only [isDigit] at ha hb hc hd
    simp [Base64.wellFormed, ha, hb, hc, hd, ih]

theorem wellFormed_iff (encoded : List Char) : Base64.wellFormed encoded = true ↔
    ∃ data padding, encoded = data ++ replicate padding '=' ∧ Padded data padding := by
  constructor
  · intro h
    induction encoded using Base64.wellFormed.induct with
    | case1 => exact ⟨[], 0, rfl, rfl, by omega, rfl⟩
    | case2 a b c d rest ih =>
      rw [Base64.wellFormed] at h
      simp only [Bool.and_eq_true, Bool.or_eq_true, beq_iff_eq, List.isEmpty_iff] at h
      obtain ⟨⟨ha, hb⟩, (⟨⟨hc, hd⟩, hrest⟩ | ⟨⟨hc, rfl⟩, rfl⟩) | ⟨⟨rfl, rfl⟩, rfl⟩⟩ := h
      · obtain ⟨data, padding, rfl, hdata⟩ := ih hrest
        refine ⟨a :: b :: c :: d :: data, padding, rfl, ?_, hdata.few, ?_⟩
        · simp [isDigit, ha, hb, hc, hd]
          simpa [isDigit] using hdata.digits
        · have := hdata.length
          simp only [length_cons]
          omega
      · exact ⟨[a, b, c], 1, rfl, by simp [isDigit, ha, hb, hc], by omega, by simp⟩
      · exact ⟨[a, b], 2, rfl, by simp [isDigit, ha, hb], by omega, by simp⟩
    | case3 encoded hnil hcons =>
      rw [Base64.wellFormed] at h
      · cases h
      · exact hnil
      · exact hcons
  · rintro ⟨data, padding, rfl, hdata⟩
    exact wellFormed_of_padded data hdata

theorem isDigit_lt {c : Char} (h : isDigit c = true) : c.toNat < 128 := by
  rcases isDigit_iff.1 h with h | h | h | rfl | rfl
  · omega
  · omega
  · omega
  · decide
  · decide

theorem isDigit_pad : isDigit '=' = false := rfl

theorem isBase64Byte_ascii {c : Char} (h : c.toNat < 128) : isBase64Byte (UInt8.ofNat c.toNat) = isDigit c := by
  rw [Bool.eq_iff_iff, isDigit_iff, isBase64Byte]
  have hplus : c = '+' ↔ c.toNat = '+'.toNat := ⟨fun h => h ▸ rfl, fun h => Char.toNat_inj.1 h⟩
  have hslash : c = '/' ↔ c.toNat = '/'.toNat := ⟨fun h => h ▸ rfl, fun h => Char.toNat_inj.1 h⟩
  simp only [inRange, toNat_ofNat_ascii h, Bool.or_eq_true, Bool.and_eq_true, decide_eq_true_eq, hplus, hslash,
    Char.reduceToNat]
  omega

theorem ascii_padded {data : List Char} {padding : ℕ} (h : Padded data padding) :
    Ascii (data ++ replicate padding '=') := by
  intro c hc
  rcases mem_append.1 hc with hc | hc
  · exact isDigit_lt (all_eq_true.1 h.digits c hc)
  · rw [eq_of_mem_replicate hc]
    decide

theorem rtakeWhile_padded {data : List Char} (h : data.all isDigit = true) (padding : ℕ) :
    (data ++ replicate padding '=').rtakeWhile (· == '=') = replicate padding '=' := by
  have hpad : ∀ c ∈ replicate padding '=', (c == '=') = true := fun c hc => by
    rw [eq_of_mem_replicate hc]
    rfl
  have hdata : data.reverse.takeWhile (· == '=') = [] := by
    cases hreverse : data.reverse with
    | nil => rfl
    | cons c rest =>
      have hc : isDigit c = true := all_eq_true.1 h c (mem_reverse.1 (hreverse ▸ mem_cons_self))
      refine takeWhile_cons_of_neg ?_
      rw [beq_iff_eq]
      rintro rfl
      rw [isDigit_pad] at hc
      cases hc
  rw [List.rtakeWhile, reverse_append, reverse_replicate, takeWhile_append_of_pos hpad, hdata,
    append_nil, reverse_replicate]

theorem rdropWhile_padded {data : List Char} (h : data.all isDigit = true) (padding : ℕ) :
    (data ++ replicate padding '=').rdropWhile (· == '=') = data := by
  have hjoin := @rdropWhile_append_rtakeWhile _ (· == '=') (data ++ replicate padding '=')
  rw [rtakeWhile_padded h] at hjoin
  exact append_cancel_right hjoin

theorem eq_append_replicate (text : List Char) :
    text = text.rdropWhile (· == '=') ++ replicate (text.rtakeWhile (· == '=')).length '=' := by
  have hpad : text.rtakeWhile (· == '=') = replicate (text.rtakeWhile (· == '=')).length '=' :=
    eq_replicate_of_mem fun c hc => by simpa using mem_rtakeWhile_imp hc
  rw [← hpad, rdropWhile_append_rtakeWhile]

theorem rtakeWhile_bytes {text : List Char} (h : Ascii text) :
    ((utf8Bytes text).rtakeWhile isPad).length = (text.rtakeWhile (· == '=')).length := by
  have hpad : ∀ c ∈ text.reverse, (isPad ∘ fun c => UInt8.ofNat c.toNat) c = (c == '=') := by
    intro c hc
    have hascii := h c (mem_reverse.1 hc)
    rw [Function.comp_apply, isPad, toNat_ofNat_ascii hascii, Bool.eq_iff_iff, decide_eq_true_iff, beq_iff_eq]
    exact ⟨fun h => Char.toNat_inj.1 h, fun h => h ▸ rfl⟩
  have hcongr : text.reverse.takeWhile (isPad ∘ fun c => UInt8.ofNat c.toNat) = text.reverse.takeWhile (· == '=') := by
    generalize text.reverse = reversed at hpad
    induction reversed with
    | nil => rfl
    | cons c rest ih =>
      rw [takeWhile_cons, takeWhile_cons, hpad c mem_cons_self,
        ih fun d hd => hpad d (mem_cons_of_mem c hd)]
  rw [utf8Bytes_ascii h, List.rtakeWhile, List.rtakeWhile, ← map_reverse, takeWhile_map, hcongr,
    length_reverse, length_reverse, length_map]

theorem base64DecodedSize_of_ascii {encoded : String} (h : Ascii encoded.toList) (size : ℕ) :
    base64DecodedSize encoded = some size ↔
      Padded (encoded.toList.rdropWhile (· == '=')) (encoded.toList.rtakeWhile (· == '=')).length ∧
        encoded.toList.length / 4 * 3 - (encoded.toList.rtakeWhile (· == '=')).length = size := by
  have hbytes := utf8Bytes_ascii h
  have hlength : (utf8Bytes encoded.toList).length = encoded.toList.length := by rw [hbytes, length_map]
  have hparts := rdropWhile_append_rtakeWhile (p := (· == '=')) (l := encoded.toList)
  have hsum := congrArg List.length hparts
  rw [length_append] at hsum
  have hend : encoded.toList.length - (encoded.toList.rtakeWhile (· == '=')).length =
      (encoded.toList.rdropWhile (· == '=')).length := by omega
  have htake : (utf8Bytes encoded.toList).take (encoded.toList.rdropWhile (· == '=')).length =
      (encoded.toList.rdropWhile (· == '=')).map fun c => UInt8.ofNat c.toNat := by
    conv_lhs => rw [hbytes, ← hparts, map_append]
    exact take_left' (by rw [length_map, hparts])
  have hdrop : (utf8Bytes encoded.toList).drop (encoded.toList.rdropWhile (· == '=')).length =
      (encoded.toList.rtakeWhile (· == '=')).map fun c => UInt8.ofNat c.toNat := by
    conv_lhs => rw [hbytes, ← hparts, map_append]
    exact drop_left' (by rw [length_map, hparts])
  have hpads : ((encoded.toList.rtakeWhile (· == '=')).map fun c => UInt8.ofNat c.toNat).all isPad = true := by
    rw [all_map, all_eq_true]
    intro c hc
    obtain rfl : c = '=' := by simpa using mem_rtakeWhile_imp hc
    rfl
  have hdigits : ((encoded.toList.rdropWhile (· == '=')).map fun c => UInt8.ofNat c.toNat).all isBase64Byte =
      (encoded.toList.rdropWhile (· == '=')).all isDigit := by
    rw [all_map, Bool.eq_iff_iff, all_eq_true, all_eq_true]
    refine forall₂_congr fun c hc => ?_
    rw [Function.comp_apply, isBase64Byte_ascii (h c (( rdropWhile_prefix _ _).subset hc))]
  rw [base64DecodedSize]
  simp only [hlength, rtakeWhile_bytes h, hend, htake, hdrop, hpads, hdigits, Bool.true_and]
  constructor
  · intro hsize
    split_ifs at hsize with hmod hfew hall
    exact ⟨⟨hall, by omega, by omega⟩, Option.some.inj hsize⟩
  · rintro ⟨hpadded, rfl⟩
    have hmod := hpadded.length
    have hfew := hpadded.few
    rw [if_neg (by omega), if_neg (by omega), if_pos hpadded.digits]

theorem ascii_of_size {encoded : String} {size : ℕ} (h : base64DecodedSize encoded = some size) :
    Ascii encoded.toList := by
  have hbytes : ∀ b ∈ utf8Bytes encoded.toList, b.toNat < 128 := by
    rw [base64DecodedSize] at h
    dsimp only at h
    split_ifs at h with hmod hfew hall
    rw [Bool.and_eq_true, all_eq_true, all_eq_true] at hall
    intro b hb
    rw [← take_append_drop ((utf8Bytes encoded.toList).length - ((utf8Bytes encoded.toList).rtakeWhile isPad).length)
      (utf8Bytes encoded.toList), mem_append] at hb
    rcases hb with hb | hb
    · have hdigit := hall.2 b hb
      simp only [isBase64Byte, inRange, Bool.or_eq_true, Bool.and_eq_true, decide_eq_true_eq, Char.reduceToNat] at hdigit
      omega
    · have hpad := hall.1 b hb
      simp only [isPad, decide_eq_true_eq, Char.reduceToNat] at hpad
      omega
  have hall := @all_utf8Bytes (fun b => decide (b.toNat < 128)) (fun c => decide (c.toNat < 128))
    (fun b hb => by simpa using hb) (fun c hc => by simpa using hc) (fun c hc => by rw [toNat_ofNat_ascii hc])
    encoded.toList
  rw [all_eq_true.2 fun b hb => by simpa using hbytes b hb] at hall
  intro c hc
  simpa using all_eq_true.1 hall.symm c hc

theorem base64DecodedSize_iff {encoded : String} {size : ℕ} : base64DecodedSize encoded = some size ↔
    Base64.wellFormed encoded.toList = true ∧ Base64.decodedSize encoded.toList = size := by
  have hdecoded : Base64.decodedSize encoded.toList =
      encoded.toList.length / 4 * 3 - (encoded.toList.rtakeWhile (· == '=')).length := by
    have hsum := congrArg List.length (rdropWhile_append_rtakeWhile (p := (· == '=')) (l := encoded.toList))
    rw [length_append] at hsum
    rw [Base64.decodedSize, ← hsum, Nat.add_sub_cancel_left]
  rw [hdecoded, wellFormed_iff]
  constructor
  · intro hsize
    have hascii : Ascii encoded.toList := ascii_of_size hsize
    obtain ⟨hpadded, hlength⟩ := (base64DecodedSize_of_ascii hascii size).1 hsize
    exact ⟨⟨_, _, eq_append_replicate _, hpadded⟩, hlength⟩
  · rintro ⟨⟨data, padding, hencoded, hpadded⟩, hlength⟩
    have hascii : Ascii encoded.toList := hencoded ▸ ascii_padded hpadded
    refine (base64DecodedSize_of_ascii hascii size).2 ⟨?_, hlength⟩
    rw [hencoded, rtakeWhile_padded hpadded.digits, rdropWhile_padded hpadded.digits, length_replicate]
    exact hpadded

/-! ### The body -/

/-- What is asked of the three texts of a body. -/
structure Accepted (encoded source_oid source_path : String) (raw : Bytes) : Prop where
  oid : isOid source_oid = true
  path : isSourcePath source_path = true
  size : raw.length ≤ maxRawStreamBytes
  encoded : encoded = String.ofList (Base64.encode raw)

theorem decodeString_eq {encoded : String} (h : Base64.wellFormed encoded.toList = true) :
    decodeString encoded = Base64.decode encoded.toList := by
  obtain ⟨data, padding, hencoded, hpadded⟩ := (wellFormed_iff _).1 h
  rw [decodeString, filter_eq_self.2]
  intro c hc
  rw [hencoded, mem_append] at hc
  rw [decide_eq_true_iff]
  rcases hc with hc | hc
  · have hdigit := all_eq_true.1 hpadded.digits c hc
    exact ⟨by rintro rfl; exact absurd hdigit (by decide), by rintro rfl; exact absurd hdigit (by decide)⟩
  · rw [eq_of_mem_replicate hc]
    decide

theorem validateFields_iff {operation contextID encoded source_oid source_path : String} :
    validateFields operation contextID encoded source_oid source_path = .ok () ↔
      ∃ raw, Accepted encoded source_oid source_path raw := by
  have hpath : isPatchworkSourcePath source_path = isSourcePath source_path := by
    rw [Bool.eq_iff_iff, isPatchworkSourcePath_iff, isSourcePath_iff]
  rw [validateFields, isGitObjectID_eq, hpath]
  constructor
  · intro h
    split_ifs at h with hoid hsource
    split at h
    · cases h
    · rename_i size hsize
      obtain ⟨hform, hdecoded⟩ := base64DecodedSize_iff.1 hsize
      split_ifs at h with hlimit
      split at h
      · cases h
      · rename_i raw hraw
        split_ifs at h with hcanonical
        rw [not_not] at hcanonical
        refine ⟨raw, by simpa using hoid, by simpa using hsource, ?_, hcanonical.symm⟩
        rw [← hcanonical, String.toList_ofList, Base64.decodedSize_encode] at hdecoded
        rw [hdecoded]
        exact Nat.not_lt.1 hlimit
  · rintro ⟨raw, hoid, hsource, hsize, rfl⟩
    have hform : Base64.wellFormed (String.ofList (Base64.encode raw)).toList = true := by
      rw [String.toList_ofList, Base64.wellFormed_encode]
    have hdecoded := base64DecodedSize_iff.2 ⟨hform, rfl⟩
    rw [String.toList_ofList, Base64.decodedSize_encode] at hdecoded
    have hlimit : ¬ maxPatchworkStreamBytes < raw.length := Nat.not_lt.2 hsize
    simp [hoid, hsource, hdecoded, hlimit, decodeString_eq hform, Base64.decode_encode]

theorem decodeEncoded_iff {encoded : String} {raw : Bytes} : decodeEncoded encoded.toList = .ok raw ↔
    raw.length ≤ maxRawStreamBytes ∧ encoded = String.ofList (Base64.encode raw) := by
  constructor
  · intro h
    unfold decodeEncoded at h
    split_ifs at h with hform hsize
    · exact absurd h fail_ne_ok
    · exact absurd h fail_ne_ok
    · split at h
      · exact absurd h fail_ne_ok
      · split_ifs at h with hcanonical hlength
        · exact absurd h fail_ne_ok
        · exact absurd h fail_ne_ok
        · cases h
          rw [not_not] at hcanonical hlength
          refine ⟨by omega, ?_⟩
          rw [hcanonical, String.ofList_toList]
  · rintro ⟨hsize, rfl⟩
    rw [String.toList_ofList]
    exact decodeEncoded_encode hsize

theorem reads_string_iff {text : String} {value : Json} : Reads (.string text) value ↔ value = .str text := by
  constructor
  · rintro ⟨⟩
    rfl
  · rintro rfl
    exact .string text

theorem reads_str_iff {node : Node} {text : String} : Reads node (.str text) ↔ node = .string text := by
  constructor
  · rintro ⟨⟩
    rfl
  · rintro rfl
    exact .string text

theorem lookup_reads {members : List (String × Node)} {fields : Fields}
    (hnames : members.map Prod.fst = fields.map Prod.fst)
    (hvalues : Forall₂ Reads (members.map Prod.snd) (fields.map Prod.snd)) (name : String) (text : String) :
    members.lookup name = some (.string text) ↔ fields.lookup name = some (.str text) := by
  induction members generalizing fields with
  | nil =>
    cases fields with
    | nil => simp
    | cons field fields => cases hnames
  | cons member members ih =>
    cases fields with
    | nil => cases hnames
    | cons field fields =>
      obtain ⟨hname, hnames⟩ := List.cons.inj hnames
      rw [map_cons, map_cons, forall₂_cons] at hvalues
      obtain ⟨hvalue, hvalues⟩ := hvalues
      rw [lookup_cons, lookup_cons, hname]
      cases name == field.1 with
      | false => exact ih hnames hvalues
      | true =>
        dsimp only
        rw [Option.some.injEq, Option.some.injEq]
        constructor
        · intro h
          rw [h, reads_string_iff] at hvalue
          exact hvalue
        · intro h
          rw [h, reads_str_iff] at hvalue
          exact hvalue

structure Holds (fields : Fields) (raw : Bytes) : Prop where
  closed : ∀ field ∈ fields, field.1 ∈ bodyFields
  texts : ∃ encoded source_oid source_path, fields.lookup "raw_stream_base64" = some (.str encoded) ∧
    fields.lookup "source_oid" = some (.str source_oid) ∧ fields.lookup "source_path" = some (.str source_path) ∧
      Accepted encoded source_oid source_path raw

theorem stringField_iff {operation contextID name text : String} {members : List (String × Node)} :
    stringField operation contextID (.object members) name = .ok text ↔ members.lookup name = some (.string text) := by
  rw [stringField, Node.lookup, Node.members]
  cases members.lookup name with
  | none => simp
  | some node => cases node <;> simp

theorem validate_iff {operation contextID : String} {members : List (String × Node)} {fields : Fields}
    (hnames : members.map Prod.fst = fields.map Prod.fst)
    (hvalues : Forall₂ Reads (members.map Prod.snd) (fields.map Prod.snd)) :
    validatePatchworkCheckStream operation contextID (some (.object members)) = .ok () ↔ ∃ raw, Holds fields raw := by
  have hclosed : (Node.object members).sortedMembers.find? (fun member => member.1 ∉ want) = none ↔
      ∀ field ∈ fields, field.1 ∈ bodyFields := by
    have hname : (∀ member ∈ members, member.1 ∈ want) ↔ ∀ field ∈ fields, field.1 ∈ want := by
      rw [← forall_mem_map (P := (· ∈ want)), hnames, forall_mem_map]
    rw [find?_eq_none]
    simp only [decide_eq_true_eq, not_not, Node.mem_sortedMembers]
    exact hname
  have hlookup := lookup_reads hnames hvalues
  unfold validatePatchworkCheckStream
  dsimp only
  constructor
  · intro h
    cases hfind : (Node.object members).sortedMembers.find? (fun member => member.1 ∉ want) with
    | some member =>
      rw [hfind] at h
      cases h
    | none =>
      rw [hfind] at h
      simp only [bind, Except.bind] at h
      cases hencoded : stringField operation contextID (.object members) "raw_stream_base64" with
      | error e =>
        rw [hencoded] at h
        cases h
      | ok encoded =>
        rw [hencoded] at h
        cases hoid : stringField operation contextID (.object members) "source_oid" with
        | error e =>
          rw [hoid] at h
          cases h
        | ok source_oid =>
          rw [hoid] at h
          cases hpath : stringField operation contextID (.object members) "source_path" with
          | error e =>
            rw [hpath] at h
            cases h
          | ok source_path =>
            rw [hpath] at h
            obtain ⟨raw, haccepted⟩ := validateFields_iff.1 h
            exact ⟨raw, hclosed.1 hfind, encoded, source_oid, source_path, (hlookup _ _).1 (stringField_iff.1 hencoded),
              (hlookup _ _).1 (stringField_iff.1 hoid), (hlookup _ _).1 (stringField_iff.1 hpath), haccepted⟩
  · rintro ⟨raw, hfields, encoded, source_oid, source_path, hencoded, hoid, hpath, haccepted⟩
    rw [hclosed.2 hfields]
    simp only [stringField_iff.2 ((hlookup _ _).2 hencoded), stringField_iff.2 ((hlookup _ _).2 hoid),
      stringField_iff.2 ((hlookup _ _).2 hpath), bind, Except.bind]
    exact validateFields_iff.2 ⟨raw, haccepted⟩

theorem get_eq_str_iff {fields : Fields} {name text : String} :
    fields.get name = .str text ↔ fields.lookup name = some (.str text) := by
  rw [Fields.get]
  cases fields.lookup name with
  | none => simp
  | some value => simp

theorem validateAnchor_of {source_oid source_path : String} (hoid : isOid source_oid = true)
    (hpath : isSourcePath source_path = true) : validateAnchor (.str source_oid) (.str source_path) = .ok () := by
  simp [validateAnchor, hoid, isPermittedSourcePath, hpath]

theorem decode_iff {fields : Fields} {raw : Bytes} : decodeRawStream (.obj fields) = .ok raw ↔ Holds fields raw := by
  unfold decodeRawStream
  dsimp only
  constructor
  · intro h
    split_ifs at h with hclosed
    · exact absurd h fail_ne_ok
    · rw [Bool.not_eq_true', Bool.not_eq_false, Bool.and_eq_true, all_eq_true] at hclosed
      simp only [bind, Except.bind] at h
      cases hanchor : validateAnchor (fields.get "source_oid") (fields.get "source_path") with
      | error e =>
        rw [hanchor] at h
        cases h
      | ok u =>
        rw [hanchor] at h
        dsimp only at h
        obtain ⟨source_oid, source_path, hoid, hpath, hoid', hpath'⟩ := validateAnchor_ok hanchor
        split at h
        · rename_i encoded hencoded
          obtain ⟨hsize, hcanonical⟩ := decodeEncoded_iff.1 h
          exact ⟨fun field hfield => by simpa using hclosed.1 field hfield, encoded, source_oid, source_path,
            get_eq_str_iff.1 hencoded, get_eq_str_iff.1 hoid, get_eq_str_iff.1 hpath, hoid', hpath', hsize, hcanonical⟩
        · exact absurd h fail_ne_ok
  · rintro ⟨hclosed, encoded, source_oid, source_path, hencoded, hoid, hpath, haccepted⟩
    have hall : (fields.all (fun field => bodyFields.contains field.1) &&
        bodyFields.all (Fields.contains fields ·)) = true := by
      rw [Bool.and_eq_true, all_eq_true]
      refine ⟨fun field hfield => by simpa using hclosed field hfield, ?_⟩
      simp [bodyFields, Fields.contains, hencoded, hoid, hpath]
    rw [hall, get_eq_str_iff.2 hoid, get_eq_str_iff.2 hpath, get_eq_str_iff.2 hencoded,
      validateAnchor_of haccepted.oid haccepted.path]
    exact decodeEncoded_iff.2 ⟨haccepted.size, haccepted.encoded⟩

theorem bodyFromRawStream_iff {raw : Bytes} {source_oid source_path : String} {body : Json} :
    bodyFromRawStream raw source_oid source_path = .ok body ↔ isOid source_oid = true ∧ isSourcePath source_path = true ∧
      raw.length ≤ maxRawStreamBytes ∧ body = .obj [("raw_stream_base64", .str (String.ofList (Base64.encode raw))),
        ("source_oid", .str source_oid), ("source_path", .str source_path)] := by
  constructor
  · intro h
    unfold bodyFromRawStream at h
    cases hanchor : validateAnchor (.str source_oid) (.str source_path) with
    | error e =>
      rw [hanchor] at h
      cases h
    | ok u =>
      rw [hanchor] at h
      simp only [bind, Except.bind] at h
      split_ifs at h with hsize
      · exact absurd h fail_ne_ok
      · obtain ⟨o, p, ho, hp, hoid, hpath⟩ := validateAnchor_ok hanchor
        cases ho
        cases hp
        exact ⟨hoid, hpath, Nat.not_lt.1 hsize, (Except.ok.inj h).symm⟩
  · rintro ⟨hoid, hpath, hsize, rfl⟩
    simp only [bodyFromRawStream, validateAnchor_of hoid hpath, bind, Except.bind]
    rw [if_neg (Nat.not_lt.2 hsize)]
    rfl

theorem canonical_iff {fields : Fields} {raw : Bytes} : Canonical raw (.obj fields) ↔ Holds fields raw := by
  constructor
  · rintro ⟨source_oid, source_path, fields, canonical, heq, hbody, hlookup⟩
    cases heq
    obtain ⟨hoid, hpath, hsize, hcanonical⟩ := bodyFromRawStream_iff.1 hbody
    cases hcanonical
    refine ⟨fun field hfield => ?_, _, source_oid, source_path, (hlookup _).trans rfl, (hlookup _).trans rfl,
      (hlookup _).trans rfl, hoid, hpath, hsize, rfl⟩
    have hsome : (fields.lookup field.1).isSome = true := lookup_isSome_iff.2 (mem_map_of_mem hfield)
    rw [hlookup, lookup_isSome_iff] at hsome
    exact hsome
  · rintro ⟨hclosed, encoded, source_oid, source_path, hencoded, hoid, hpath, haccepted⟩
    refine ⟨source_oid, source_path, fields, _, rfl,
      bodyFromRawStream_iff.2 ⟨haccepted.oid, haccepted.path, haccepted.size, rfl⟩, fun key => ?_⟩
    simp only [Fields.lookup_cons_eq, lookup_nil]
    split_ifs with hraw hsource_oid hsource_path
    · rw [hraw, hencoded, haccepted.encoded]
    · rw [hsource_oid, hoid]
    · rw [hsource_path, hpath]
    · cases hlookup : fields.lookup key with
      | none => rfl
      | some value =>
        have hmem := hclosed (key, value) (mem_of_lookup hlookup)
        simp [bodyFields, hraw, hsource_oid, hsource_path] at hmem

/-- The codec and Python accept the same bodies, which are those that are made of raw bytes, and give the bytes back. -/
theorem stream_readers_agree {root : Node} {body : Json} (operation contextID : String) (h : Reads root body) :
    (validatePatchworkCheckStream operation contextID (some root) = .ok () ↔
        ∃ raw, decodeRawStream body = .ok raw) ∧
      (∀ raw, decodeRawStream body = .ok raw ↔ Canonical raw body) ∧
        ∀ (raw : Bytes) (source_oid source_path : String), isOid source_oid = true → isSourcePath source_path = true →
          raw.length ≤ maxRawStreamBytes → ∃ made, bodyFromRawStream raw source_oid source_path = .ok made ∧
            decodeRawStream made = .ok raw := by
  refine ⟨?_, ?_, fun raw source_oid source_path hoid hpath hsize => ?_⟩
  · cases h with
    | object hnames hvalues => exact (validate_iff hnames hvalues).trans (exists_congr fun raw => decode_iff.symm)
    | _ => simp [validatePatchworkCheckStream, decodeRawStream, fail]
  · cases h with
    | object hnames hvalues => exact fun raw => decode_iff.trans canonical_iff.symm
    | _ => simp [decodeRawStream, fail, Canonical]
  · have hbody := bodyFromRawStream_iff.2 ⟨hoid, hpath, hsize, rfl⟩
    exact ⟨_, hbody, (bodyFromRawStream_ok asciiLib hbody).1⟩

def sampleOid : String := String.ofList (replicate 40 'a')

def sampleRoot : Node :=
  .object [("source_path", .string canonicalPath), ("source_oid", .string sampleOid), ("raw_stream_base64", .string "aGkK")]

def sampleBody : Json :=
  .obj [("source_path", .str canonicalPath), ("source_oid", .str sampleOid), ("raw_stream_base64", .str "aGkK")]

theorem reads_sample : Reads sampleRoot sampleBody :=
  .object rfl (.cons (.string _) (.cons (.string _) (.cons (.string _) .nil)))

/-- Three bytes under the name of the canonical file are accepted on both sides. -/
theorem stream_readers_agree_sample :
    validatePatchworkCheckStream "parse" "patchwork-check-event-stream-v1" (some sampleRoot) = .ok () ∧
      Canonical (asciiBytes "hi\n") sampleBody := by
  have hagree := stream_readers_agree "parse" "patchwork-check-event-stream-v1" reads_sample
  have hdecode : decodeRawStream sampleBody = .ok (asciiBytes "hi\n") := by decide +kernel
  exact ⟨hagree.1.2 ⟨_, hdecode⟩, (hagree.2.1 _).1 hdecode⟩

end Kindsv2

end AiOrg
