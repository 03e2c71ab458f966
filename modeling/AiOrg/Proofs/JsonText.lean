import AiOrg.Python.JsonText

/-!
# What the scanner of a string leaves

White space is skipped and a string is read from the front of a text, so what is left is shorter.
-/

namespace AiOrg

open List

theorem skipSpace_length_le (text : List Char) : (skipSpace text).length ≤ text.length :=
  (dropWhile_suffix _).length_le

theorem skipSpace_cons_length {text rest : List Char} {c : Char} (h : skipSpace text = c :: rest) :
    rest.length < text.length := by
  have hle := skipSpace_length_le text
  rw [h, length_cons] at hle
  omega

theorem map_length_lt {α β : Type*} {scan : Option (α × List Char)} {f : α → β}
    {result : β × List Char} {n : ℕ} (hscan : ∀ r, scan = some r → r.2.length < n)
    (h : (scan.map fun r => (f r.1, r.2)) = some result) : result.2.length < n := by
  obtain ⟨r, hr, rfl⟩ := Option.map_eq_some_iff.1 h
  exact hscan r hr

theorem scanUnits_length (text : List Char) :
    ∀ r, scanUnits text = some r → r.2.length < text.length := by
  induction text using scanUnits.induct with
  | case1 => simp [scanUnits]
  | case2 rest =>
    intro r h
    rw [scanUnits.eq_def] at h
    obtain rfl := Option.some.inj h
    simp
  | case3 h₁ h₂ h₃ h₄ rest a b c d hd hc hb ha hquote ih =>
    intro r h
    rw [scanUnits.eq_def] at h
    simp only [hquote, ha, hb, hc, hd, ↓reduceIte] at h
    have hlt := map_length_lt ih h
    simp only [length_cons]
    omega
  | case4 h₁ h₂ h₃ h₄ rest hhex hquote =>
    intro r h
    rw [scanUnits.eq_def] at h
    simp only [hquote, ↓reduceIte] at h
    exact absurd h nofun
  | case5 e rest hu n hn hquote ih =>
    intro r h
    rw [scanUnits.eq_def] at h
    simp only [hquote, hn, ↓reduceIte] at h
    have hlt := map_length_lt ih h
    simp only [length_cons]
    omega
  | case6 e rest hu hn hquote =>
    intro r h
    rw [scanUnits.eq_def] at h
    simp only [hquote, hn, ↓reduceIte] at h
    exact absurd h nofun
  | case7 hquote => simp [scanUnits]
  | case8 c rest hquote hescape hcontrol =>
    intro r h
    rw [scanUnits.eq_def] at h
    simp only [hquote, hescape, hcontrol, ↓reduceIte] at h
    exact absurd h nofun
  | case9 c rest hquote hescape hcontrol ih =>
    intro r h
    rw [scanUnits.eq_def] at h
    simp only [hquote, hescape, hcontrol, ↓reduceIte] at h
    exact (map_length_lt ih h).trans (Nat.lt_succ_self _)

end AiOrg
