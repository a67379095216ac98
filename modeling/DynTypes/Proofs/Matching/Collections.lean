import DynTypes.TypeExpr.Accepts
/-!
# Matching collections

When a collection passes: it has items, and every part of every item passes the test at its place.
-/

namespace DynTypes.Test

variable {V : Type} {slots : List (Test V)}

theorem both_eq_error_iff {first second : Except MatchError Bool} {error : MatchError} :
    (do if ← first then second else return false) = .error error ↔
      first = .error error ∨ first = .ok true ∧ second = .error error := by
  rcases first with e | _ | _
  · exact ⟨fun h => .inl h, fun h => h.elim id fun h => nomatch h.1⟩
  · exact ⟨fun h => (nomatch h), fun h => h.elim id fun h => nomatch h.1⟩
  · exact ⟨fun h => .inr ⟨rfl, h⟩, fun h => h.elim (fun h => nomatch h) And.right⟩

theorem both_eq_true_iff {first second : Except MatchError Bool} :
    (do if ← first then second else return false) = .ok true ↔
      first = .ok true ∧ second = .ok true := by
  rcases first with e | _ | _
  · exact ⟨fun h => (nomatch h), fun h => nomatch h.1⟩
  · exact ⟨fun h => (nomatch h), fun h => nomatch h.1⟩
  · exact ⟨fun h => ⟨rfl, h⟩, And.right⟩

theorem partsPass_eq_true_iff {vs : List V} :
    partsPass slots vs = .ok true ↔ ∀ p ∈ slots.zip vs, p.1 p.2 = .ok true := by
  induction slots generalizing vs with
  | nil => simp [partsPass, pure, Except.pure]
  | cons t slots ih =>
      cases vs with
      | nil => simp [partsPass, pure, Except.pure]
      | cons v vs => rw [partsPass, both_eq_true_iff, ih, List.zip_cons_cons, List.forall_mem_cons]

theorem itemPasses_single (h : 0 < slots.length) (v : V) :
    itemPasses slots (.single v) = slots[0] v := by
  cases slots with
  | nil => contradiction
  | cons t slots => rfl

theorem itemsPass_eq_true_iff {items : List (Item V)} :
    itemsPass slots items = .ok true ↔ ∀ item ∈ items, itemPasses slots item = .ok true := by
  induction items with
  | nil => simp [itemsPass, pure, Except.pure]
  | cons item items ih => rw [itemsPass, both_eq_true_iff, ih, List.forall_mem_cons]

theorem collection_eq_true_iff {view : View V} {v : V} :
    collection view slots v = .ok true ↔
      ∃ items, view.items v = some items ∧ items ≠ [] ∧
        ∀ item ∈ items, itemPasses slots item = .ok true := by
  rw [collection]
  split
  · next h => simp [h, pure, Except.pure]
  · next h => simp [h, pure, Except.pure]
  · next items hne h =>
    rw [itemsPass_eq_true_iff]
    constructor
    · exact fun hpass => ⟨items, h, hne, hpass⟩
    · rintro ⟨others, hothers, -, hpass⟩
      obtain rfl : items = others := Option.some.inj (h.symm.trans hothers)
      exact hpass

end DynTypes.Test
