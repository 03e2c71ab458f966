import AiOrg.Python.Dict
import AiOrg.Python.Value

/-!
# Mappings with distinct keys

A `dict` holds every key once, and so do the dicts in it. Going through the entries of such a mapping
and assigning each key once gives every key the value its own entry makes (`Fields.lookup_foldl`).
-/

namespace AiOrg

open List

namespace Json

mutual

/-- Every dict in a value has distinct keys. -/
def distinct : Json → Bool
  | .arr items => distinctItems items
  | .obj fields => decide (fields.map Prod.fst).Nodup && distinctFields fields
  | _ => true

def distinctItems : List Json → Bool
  | [] => true
  | item :: items => distinct item && distinctItems items

def distinctFields : List (String × Json) → Bool
  | [] => true
  | (_, value) :: fields => distinct value && distinctFields fields

end

theorem distinct_of_mem_fields : ∀ {fields : List (String × Json)} {entry : String × Json},
    distinctFields fields = true → entry ∈ fields → distinct entry.2 = true
  | (key, value) :: fields, entry, h, hmem => by
    simp only [distinctFields, Bool.and_eq_true] at h
    rcases mem_cons.1 hmem with rfl | hmem
    · exact h.1
    · exact distinct_of_mem_fields h.2 hmem

end Json

/-- A `dict` with string keys. -/
structure Mapping where
  fields : Fields
  distinct : Json.distinct (.obj fields) = true

namespace Mapping

theorem nodup (m : Mapping) : (m.fields.map Prod.fst).Nodup := by
  have h := m.distinct
  simp only [Json.distinct, Bool.and_eq_true, decide_eq_true_eq] at h
  exact h.1

theorem distinct_of_mem (m : Mapping) {entry : String × Json} (h : entry ∈ m.fields) :
    Json.distinct entry.2 = true := by
  have hm := m.distinct
  simp only [Json.distinct, Bool.and_eq_true, decide_eq_true_eq] at hm
  exact Json.distinct_of_mem_fields hm.2 h

end Mapping

namespace Fields

theorem mem_of_lookup {m : Fields} {key : String} {value : Json} (h : m.lookup key = some value) :
    (key, value) ∈ m := AiOrg.mem_of_lookup h

theorem lookup_eq_none_iff {m : Fields} {key : String} :
    m.lookup key = none ↔ key ∉ m.map Prod.fst := by
  induction m with
  | nil => simp
  | cons entry m ih =>
    obtain ⟨k, v⟩ := entry
    rw [lookup_cons_eq]
    by_cases hk : key = k
    · simp [hk]
    · simp [hk, ih]

theorem lookup_of_mem {m : Fields} (hm : (m.map Prod.fst).Nodup) {key : String} {value : Json}
    (h : (key, value) ∈ m) : m.lookup key = some value := AiOrg.lookup_of_mem hm h

theorem set_of_lookup {m : Fields} {key : String} {value : Json} (h : m.lookup key = some value) :
    m.set key value = m := by
  induction m with
  | nil => exact absurd h nofun
  | cons entry m ih =>
    obtain ⟨k, v⟩ := entry
    rw [lookup_cons_eq] at h
    rw [set]
    by_cases hk : k = key
    · rw [if_pos hk.symm] at h
      obtain rfl := Option.some.inj h
      rw [if_pos hk]
    · rw [if_neg (Ne.symm hk)] at h
      rw [if_neg hk, ih h]

theorem set_of_absent {m : Fields} {key : String} {value : Json} (h : m.lookup key = none) :
    m.set key value = m ++ [(key, value)] := by
  induction m with
  | nil => rfl
  | cons entry m ih =>
    obtain ⟨k, v⟩ := entry
    rw [lookup_cons_eq] at h
    by_cases hk : key = k
    · rw [if_pos hk] at h
      exact absurd h nofun
    · rw [if_neg hk] at h
      rw [set, if_neg (Ne.symm hk), ih h, cons_append]

theorem keys_set_of_mem {m : Fields} {key : String} {value : Json} (h : key ∈ m.map Prod.fst) :
    (m.set key value).map Prod.fst = m.map Prod.fst := by
  induction m with
  | nil => cases h
  | cons entry m ih =>
    obtain ⟨k, v⟩ := entry
    rw [set]
    by_cases hk : k = key
    · rw [if_pos hk]
      rfl
    · rw [if_neg hk, map_cons, map_cons, ih ((mem_cons.1 h).resolve_left (Ne.symm hk))]

theorem nodup_set {m : Fields} {key : String} {value : Json} (h : (m.map Prod.fst).Nodup) :
    ((m.set key value).map Prod.fst).Nodup := by
  by_cases hkey : key ∈ m.map Prod.fst
  · rw [keys_set_of_mem hkey]
    exact h
  · rw [set_of_absent (lookup_eq_none_iff.2 hkey), map_append]
    exact nodup_append_comm.1 (nodup_cons.2 ⟨hkey, h⟩)

theorem lookup_foldl {σ : Type} (fields : σ → Fields) {step : σ → String × Json → σ}
    {f : String → Option Json → Json → Json}
    (hstep : ∀ s entry k, (fields (step s entry)).lookup k =
      if k = entry.1 then some (f k ((fields s).lookup k) entry.2) else (fields s).lookup k)
    {entries : Fields} (hentries : (entries.map Prod.fst).Nodup) (s : σ) (k : String) :
    (fields (entries.foldl step s)).lookup k = match entries.lookup k with
      | none => (fields s).lookup k
      | some v => some (f k ((fields s).lookup k) v) := by
  induction entries generalizing s with
  | nil => rfl
  | cons entry entries ih =>
    obtain ⟨key, value⟩ := entry
    rw [map_cons, nodup_cons] at hentries
    rw [foldl_cons, ih hentries.2, lookup_cons_eq, hstep]
    by_cases hk : k = key
    · subst hk
      have habsent : entries.lookup k = none := lookup_eq_none_iff.2 hentries.1
      rw [habsent]
      simp
    · simp only [hk, ↓reduceIte]

end Fields

end AiOrg
