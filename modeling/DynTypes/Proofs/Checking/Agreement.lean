import DynTypes.Proofs.Checking.Unobservable
import DynTypes.Regex.Builtin
import Mathlib.Data.List.TakeWhile
/-!
# Strict checks and reviews

Each check of a list has a verdict of its own: the value matches or it does not, or there is no
answer. A review ends early only where there is no answer, a strict check also where a value does
not match. So the two part at the first mismatch and agree up to it.
-/

namespace DynTypes

variable {V : Type}

/-- The fault tells the name, the value that is bound to it and what that should be. -/
def Host.Complains (bindings : Entries V) (check : String × String)
    (outcome : Except (CheckFault V) (List String)) : Prop :=
  ∃ v, bindings.find? check.1 = some v ∧ outcome = .error (.mismatch check.1 v check.2)

section

variable [RegexEngine]

/-- What comes of a check that goes through a cache. -/
def CheckM.outcome {α : Type} (check : CheckM V α) (cache : Cache) : Except (CheckFault V) α :=
  (check.run.run cache).1

theorem Yields.outcome_eq {α : Type} {check : CheckM V α} {outcome : Except (CheckFault V) α}
    (h : Yields check outcome) {cache : Cache} (hcache : cache.Reached) :
    check.outcome cache = outcome :=
  (h cache hcache.faithful).1

namespace Host

variable (host : Host V) (bindings : Entries V)

/-- Whether the value under a name matches a definition, without a cache and apart from all other
checks. -/
def verdict (check : String × String) : Except (CheckFault V) Bool :=
  match bindings.find? check.1 with
  | none => .error (.unknownBinding check.1)
  | some v => host.isMatchAfresh check.2 v

section Verdict

variable {bindings} {check : String × String} {rest checks : List (String × String)}

theorem verdict_eq_ok_iff {answer : Bool} :
    host.verdict bindings check = .ok answer ↔
      ∃ v, bindings.find? check.1 = some v ∧ host.isMatchAfresh check.2 v = .ok answer := by
  rw [verdict]
  cases bindings.find? check.1 <;> simp

theorem runAfresh_of_error {collect : Bool} {error : CheckFault V}
    (h : host.verdict bindings check = .error error) :
    host.runAfresh collect bindings (check :: rest) = .error error := by
  rw [verdict] at h
  rw [runAfresh]
  cases hfind : bindings.find? check.1 with
  | none =>
      rw [hfind] at h
      cases h
      rfl
  | some v =>
      rw [hfind] at h
      dsimp only at h ⊢
      rw [h]
      rfl

theorem runAfresh_of_match {collect : Bool} (h : host.verdict bindings check = .ok true) :
    host.runAfresh collect bindings (check :: rest) =
      host.runAfresh collect bindings rest := by
  obtain ⟨v, hfind, hanswer⟩ := (verdict_eq_ok_iff host).1 h
  rw [runAfresh, hfind]
  dsimp only
  rw [hanswer]
  rfl

theorem strictAfresh_of_mismatch (h : host.verdict bindings check = .ok false) :
    Complains bindings check (host.runAfresh false bindings (check :: rest)) := by
  obtain ⟨v, hfind, hanswer⟩ := (verdict_eq_ok_iff host).1 h
  refine ⟨v, hfind, ?_⟩
  rw [runAfresh, hfind]
  dsimp only
  rw [hanswer]
  rfl

theorem outcome_strict {cache : Cache} (h : cache.Reached) :
    (host.check { collectInvalids := false } bindings checks).outcome cache =
      host.runAfresh false bindings checks :=
  (host.yields_run false bindings checks).outcome_eq h

end Verdict

end Host

end

end DynTypes
