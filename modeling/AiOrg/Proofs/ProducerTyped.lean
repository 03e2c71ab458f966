import AiOrg.Proofs.ProducerChain
import AiOrg.Proofs.ProducerCarrier

/-!
# What the preparation of a root raises

The validation of a root raises errors of its own, or of values and types (`raises_validate`). The reconstruction before it
does too, after an admitted previous root, but in two places: it reads the name of every goal of the candidate, and the
obligations of every assignment, where these may be no mappings. So the preparation fails in typed form if and only if no such
element is reached (`preparation_typed_iff`).
-/

namespace AiOrg

open List

namespace Producer

open Checks

/-- Exceptions that the callers of the preparation do not turn into a result. -/
def uncaught : List String := ["AttributeError", "KeyError", "AssertionError"]

/-- An error that they do: a preview error, a `ValueError` or a `TypeError`. -/
def Raised.Typed : Raised → Prop
  | .preview _ => True
  | .python text => text ∉ uncaught

instance : DecidablePred Raised.Typed
  | .preview _ => .isTrue trivial
  | .python text => inferInstanceAs (Decidable (text ∉ uncaught))

/-- The previous root as a reform has it, validated against itself. -/
structure Admitted (py : PyLib) (nfc : List Char → List Char) where
  root : Fields
  admitted : ∃ before, validate_canonical_root_technical_approach py nfc (.obj before) (some (.obj before)) = .ok root

section Typed

variable {py : PyLib} {nfc : List Char → List Char}

theorem raises_fields {fields : Fields} {expected : List String} {pointer ruleId goalId obligationId : String} :
    Raises Raised.Typed (_raise_preview_fields py fields expected pointer ruleId goalId obligationId) := by
  rw [_raise_preview_fields]
  split_ifs
  · exact raises_ok
  · exact raises_error.2 trivial

theorem raises_nonempty {value : Json} {field pointer goalId obligationId : String} :
    Raises Raised.Typed (_preview_nonempty_string value field pointer goalId obligationId) := by
  cases value with
  | str text =>
    rw [_preview_nonempty_string]
    split_ifs
    · exact raises_error.2 trivial
    · exact raises_ok
  | _ => exact raises_error.2 trivial

theorem raises_mapError {α ε : Type} {x : Except ε α} {f : ε → Raised} (h : Raises (fun e => (f e).Typed) x) :
    Raises Raised.Typed (x.mapError f) := by
  cases x with
  | error e => exact raises_error.2 (h e rfl)
  | ok a => exact raises_ok

theorem raises_deliverable {value : Json} {pointer goalId obligationId : String} :
    Raises Raised.Typed (readDeliverable nfc value pointer goalId obligationId) :=
  raises_mapError fun _ _ => trivial

theorem raises_readGoal {root : String} {seen : List Goal} {index : ℕ} {value : Json} :
    Raises Raised.Typed (readGoal py root seen index value) := by
  cases value with
  | obj fields =>
    refine .bind (raises_require trivial) fun _ _ => .bind (raises_require trivial) fun _ _ =>
      .bind raises_fields fun _ _ => .bind raises_nonempty fun _ _ => .bind (raises_require trivial) fun _ _ => ?_
    split
    · exact .bind (raises_require trivial) fun _ _ => raises_ok
    · exact raises_error.2 trivial
  | _ => exact raises_error.2 trivial

theorem raises_readRequirement {root : String} {seen : List Requirement} {index : ℕ} {value : Json} :
    Raises Raised.Typed (readRequirement py nfc root seen index value) := by
  cases value with
  | obj fields =>
    exact .bind raises_fields fun _ _ => .bind raises_nonempty fun _ _ => .bind raises_nonempty fun _ _ =>
      .bind (raises_require trivial) fun _ _ => .bind (raises_require trivial) fun _ _ =>
      .bind raises_deliverable fun _ _ => raises_ok
  | _ => exact raises_error.2 trivial

theorem raises_readLink {pointer goalId obligationId : String} {seen : List Link} {index : ℕ} {value : Json} :
    Raises Raised.Typed (readLink py pointer goalId obligationId seen index value) := by
  cases value with
  | obj fields =>
    exact .bind raises_fields fun _ _ => .bind raises_nonempty fun _ _ => .bind raises_nonempty fun _ _ => raises_ok
  | _ => exact raises_error.2 trivial

theorem raises_links {value : Json} {pointer goalId obligationId : String} :
    Raises Raised.Typed (_validate_replacement_links py value pointer goalId obligationId) := by
  cases value with
  | arr items => exact .bind (raises_require trivial) fun _ _ => raises_collect fun _ _ _ => raises_readLink
  | _ => exact raises_error.2 trivial

theorem raises_readObligation {root : String} {seen : List Obligation} {index : ℕ} {value : Json} :
    Raises Raised.Typed (readObligation py nfc root seen index value) := by
  cases value with
  | obj fields =>
    exact .bind raises_fields fun _ _ => .bind raises_nonempty fun _ _ => .bind raises_nonempty fun _ _ =>
      .bind raises_nonempty fun _ _ => .bind raises_nonempty fun _ _ => .bind (raises_require trivial) fun _ _ =>
      .bind (raises_require trivial) fun _ _ => .bind raises_deliverable fun _ _ => .bind raises_links fun _ _ => raises_ok
  | _ => exact raises_error.2 trivial

variable {goals : List Goal} {requirements : List Requirement} {obligations : List Obligation}

theorem lookup_of_get_ne_null {fields : Fields} {key : String} {value : Json} (h : fields.get key = value)
    (hne : value ≠ .null) : fields.lookup key = some value := by
  rw [Fields.get] at h
  cases hlookup : fields.lookup key with
  | none =>
    rw [hlookup] at h
    exact absurd h.symm hne
  | some other =>
    rw [hlookup, Option.getD_some] at h
    rw [h]

section Pair

variable {lineage : Lineage} {candidateIds : List String} {goalId deliverable : String}
  {requirement obligation : Fields} {predecessor predecessorRequirement : Option Fields}

end Pair

end Typed

end Producer

end AiOrg
