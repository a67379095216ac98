import DynTypes.Proofs.Checking.Agreement
import DynTypes.Proofs.Reading.WellFormed
import DynTypes.Regex.Builtin
/-!
# How a mismatch is worded

A mismatch is worded by the first character of the definition behind white space: `#` has it say
that the value does not respond to the definition. In a definition that can be read, this character
starts a bare capability, which is the whole definition or the first alternative of a sum.
-/

namespace DynTypes

open Outline (Blank Word isMethodChar)

namespace Outline

/-! ## Capabilities -/

/-- The definition is one bare capability and nothing else. -/
def IsCapability (d : Outline) : Prop :=
  ∃ method, d = .sum (.method method) []

/-- The definition has further alternatives behind a bare capability. -/
def LeadsWithCapability (d : Outline) : Prop :=
  ∃ method next rest, d = .sum (.method method) (next :: rest)

variable {d : Outline} {e : Element} {text : List Char}

/-- An alternative starts with a character of its own, and with `#` just if it is a bare
capability. -/
theorem ElementSpells.exists_head (h : ElementSpells e text) :
    ∃ c tail, text = c :: tail ∧ Text.isWhiteSpace c = false ∧
      (c = '#' ↔ ∃ method, e = .method method) := by
  cases h with
  | @named name optional slots pairs inner list hslots hlist =>
      obtain ⟨c, chars, hchars⟩ := List.exists_cons_of_ne_nil name.chars_ne_nil
      have hc : isNameChar c = true := name.allowed_of_mem c (hchars ▸ List.mem_cons_self)
      refine ⟨c, chars ++ mark optional ++ inner ++ list, by simp [hchars],
        isWhiteSpace_of_isNameChar hc, ?_⟩
      simp [ne_of_isNameChar hc (by decide : '#' ∈ reserved)]
  | unnamed hpairs => exact ⟨'(', _, rfl, by decide, by simp⟩
  | method => exact ⟨'#', _, rfl, by decide, by simp⟩
  | token => exact ⟨':', _, rfl, by decide, by simp⟩

theorem Spells.exists_first (h : Spells d text) :
    ∃ e rest left first behind, d = .sum e rest ∧ text = left ++ first ++ behind ∧ Blank left ∧
      ElementSpells e first := by
  cases h with
  | last hleft helement hright => exact ⟨_, _, _, _, _, rfl, rfl, hleft, helement⟩
  | more hleft helement hright hothers =>
      exact ⟨_, _, _, _, _, rfl, List.append_assoc _ _ _, hleft, helement⟩

theorem Spells.bar_mem {next : Element} {rest : List Element}
    (h : Spells (.sum e (next :: rest)) text) : '|' ∈ text := by
  cases h with
  | more => simp

/-- The first character behind white space starts the first alternative. -/
theorem head?_trimStart_iff (h : Spells d text) :
    (Text.trimStart text).head? = some '#' ↔ d.IsCapability ∨ d.LeadsWithCapability := by
  obtain ⟨e, rest, left, first, behind, rfl, rfl, hleft, helement⟩ := h.exists_first
  obtain ⟨c, tail, rfl, hc, hmethod⟩ := helement.exists_head
  have htrim : Text.trimStart (left ++ c :: tail ++ behind) = c :: tail ++ behind := by
    rw [Text.trimStart, List.append_assoc, Text.dropWhile_append_of_blank hleft]
    exact Text.dropWhile_eq_self fun d hd => Option.some.inj hd ▸ hc
  have hhead : (c :: tail ++ behind).head? = some c := rfl
  rw [htrim, hhead, Option.some.injEq, hmethod, IsCapability, LeadsWithCapability]
  cases rest <;> simp

theorem bar_notMem_capability {left right : List Char} {method : Word isMethodChar}
    (hleft : Blank left) (hright : Blank right) : '|' ∉ left ++ '#' :: method.chars ++ right := by
  intro hbar
  simp only [List.mem_append, List.mem_cons] at hbar
  rcases hbar with (hbar | hbar | hbar) | hbar
  · exact absurd (hleft _ hbar) (by decide)
  · exact absurd hbar (by decide)
  · exact absurd (method.allowed_of_mem _ hbar) (by decide)
  · exact absurd (hright _ hbar) (by decide)

/-- A bare capability can be told from its text. -/
theorem isCapability_iff (h : Spells d text) :
    d.IsCapability ↔ ∃ (left right : List Char) (method : Word isMethodChar),
      Blank left ∧ Blank right ∧ text = left ++ '#' :: method.chars ++ right := by
  constructor
  · rintro ⟨method, rfl⟩
    cases h with
    | last hleft helement hright =>
        cases helement
        exact ⟨_, _, method, hleft, hright, rfl⟩
  · rintro ⟨left, right, method, hleft, hright, rfl⟩
    have hhead : (Text.trimStart (left ++ '#' :: method.chars ++ right)).head? = some '#' := by
      rw [Text.trimStart, List.append_assoc, Text.dropWhile_append_of_blank hleft]
      rfl
    obtain hcapability | ⟨_, next, rest, rfl⟩ := (head?_trimStart_iff h).1 hhead
    · exact hcapability
    · exact absurd h.bar_mem (bar_notMem_capability hleft hright)

end Outline

namespace CheckError

/-- The wording for a bare capability. -/
def lacksMethod (name expected : String) : String :=
  "Object '" ++ name ++ "' does not respond to " ++ expected ++ "."

/-- The wording for all other definitions. -/
def isOtherwise (name actual expected : String) : String :=
  "Object '" ++ name ++ "' is " ++ actual ++ " but expected " ++ expected ++ "."

theorem lacksMethod_ne_isOtherwise (name actual expected : String) :
    lacksMethod name expected ≠ isOtherwise name actual expected := by
  intro h
  have htext := congrArg String.toList h
  simp [lacksMethod, isOtherwise] at htext

/-- A message has one of the two wordings. -/
theorem message_mismatch_iff (name actual expected : String) :
    (message (.mismatch name actual expected) = lacksMethod name expected ↔
        (Text.trimStart expected.toList).head? = some '#') ∧
      (message (.mismatch name actual expected) = isOtherwise name actual expected ↔
        (Text.trimStart expected.toList).head? ≠ some '#') := by
  have hmessage : message (.mismatch name actual expected) =
      if (Text.trimStart expected.toList).head? = some '#' then lacksMethod name expected
      else isOtherwise name actual expected := rfl
  have hne := lacksMethod_ne_isOtherwise name actual expected
  rw [hmessage]
  split
  · next hhash => simp [hhash, hne]
  · next hhash => simp [hhash, hne.symm]

end CheckError

section

variable [RegexEngine]

namespace Host

variable {V : Type} (host : Host V)

/-- The definition can be read, and the value does not match it. -/
def Rejects (v : V) (definition : String) : Prop :=
  ∃ expr, TypeExpr.parse definition = .ok expr ∧
    expr.accepts host.registry host.view v = .ok false

variable {host} {v w : V} {definition : String}

theorem isMatchAfresh_eq_false_iff :
    host.isMatchAfresh definition v = .ok false ↔ host.Rejects v definition := by
  rw [isMatchAfresh, Rejects]
  cases TypeExpr.parse definition with
  | error error => simp
  | ok expr => simp [mapError_eq_ok_iff]

theorem rejects_iff_acceptsAfresh :
    host.Rejects v definition ↔
      acceptsAfresh host.registry host.view definition v = .ok false := by
  rw [Rejects, acceptsAfresh]
  cases TypeExpr.parse definition <;> simp

theorem isMatchAfresh_ne_mismatch {name expected : String} :
    host.isMatchAfresh definition v ≠ .error (.mismatch name w expected) := by
  rw [isMatchAfresh]
  cases TypeExpr.parse definition with
  | error error => simp
  | ok expr =>
      dsimp only
      cases expr.accepts host.registry host.view v with
      | error error =>
          intro h
          cases h
      | ok answer =>
          intro h
          cases h

theorem verdict_ne_mismatch {bindings : Entries V} {check : String × String}
    {name expected : String} :
    host.verdict bindings check ≠ .error (.mismatch name w expected) := by
  rw [verdict]
  cases bindings.find? check.1 with
  | none =>
      intro h
      cases h
  | some v => exact isMatchAfresh_ne_mismatch

theorem ensureAfresh_eq_mismatch_iff {name expected : String} :
    host.ensureAfresh v definition = .error (.mismatch name w expected) ↔
      host.Rejects v definition ∧ name = returnValue ∧ w = v ∧ expected = definition := by
  rw [← isMatchAfresh_eq_false_iff, ensureAfresh]
  rcases hanswer : host.isMatchAfresh definition v with error | _ | _
  · have hother : error ≠ .mismatch name w expected := by
      rintro rfl
      exact isMatchAfresh_ne_mismatch hanswer
    simpa using hother
  · simp [eq_comm]
  · simp [pure, Except.pure]

/-- A mismatch that a strict check ends with is that of a value which is bound to the name and does
not match. -/
theorem rejects_of_strictAfresh {bindings : Entries V} {checks : List (String × String)}
    {name expected : String}
    (h : host.runAfresh false bindings checks = .error (.mismatch name w expected)) :
    (name, expected) ∈ checks ∧ bindings.find? name = some w ∧ host.Rejects w expected := by
  induction checks with
  | nil => contradiction
  | cons check rest ih =>
      rcases hverdict : host.verdict bindings check with error | _ | _
      · rw [host.runAfresh_of_error hverdict] at h
        obtain rfl := Except.error.inj h
        exact absurd hverdict verdict_ne_mismatch
      · have hstrict : Complains bindings check
            (host.runAfresh false bindings (check :: rest)) :=
          host.strictAfresh_of_mismatch hverdict
        obtain ⟨u, hu, hcomplains⟩ := hstrict
        rw [hcomplains] at h
        cases h
        obtain ⟨v, hv, hanswer⟩ := host.verdict_eq_ok_iff.1 hverdict
        obtain rfl : v = w := Option.some.inj (hv.symm.trans hu)
        exact ⟨List.mem_cons_self, hu, isMatchAfresh_eq_false_iff.1 hanswer⟩
      · rw [host.runAfresh_of_match hverdict] at h
        obtain ⟨hmem, hrest⟩ := ih h
        exact ⟨List.mem_cons_of_mem _ hmem, hrest⟩

theorem rejects_iff_verdict {bindings : Entries V} {name : String}
    (hv : bindings.find? name = some v) :
    host.verdict bindings (name, definition) = .ok false ↔ host.Rejects v definition := by
  rw [← isMatchAfresh_eq_false_iff, verdict, hv]

end Host

/-- A value that does not match is told with its name and its definition, by the guard of a single
value and by a strict check alike, and whatever mismatch these end with is one of such a value. If
it is finite it is described. It is worded as a missing method where the definition is a bare
capability, but also where a sum of several alternatives starts with one; all other definitions have
the other wording. A checker reports what its host finds. -/
theorem mismatch_wording {V : Type} (host : Host V) :
    let strict : Checker.Rules := { collectInvalids := false }
    (∀ cache : Cache, cache.Reached →
      (∀ v definition name w expected,
        (host.ensure v definition).outcome cache = .error (.mismatch name w expected) ↔
          host.Rejects v definition ∧
            name = Host.returnValue ∧ w = v ∧ expected = definition) ∧
      (∀ bindings checks name w expected,
        (host.check strict bindings checks).outcome cache = .error (.mismatch name w expected) →
          (name, expected) ∈ checks ∧ bindings.find? name = some w ∧ host.Rejects w expected) ∧
      (∀ bindings name v definition, bindings.find? name = some v →
        host.Rejects v definition →
          (host.check strict bindings [(name, definition)]).outcome cache =
            .error (.mismatch name v definition)) ∧
      ∀ nesting : Nesting host.view,
        let checker : Checker V := { host with nesting, rules := strict }
        (∀ v definition, ((checker.ensure v definition).run.run cache).1 =
          ((host.ensure v definition).outcome cache).mapError checker.report) ∧
        ∀ bindings checks, ((checker.check bindings checks).run.run cache).1 =
          ((host.check strict bindings checks).outcome cache).mapError checker.report) ∧
    ∀ v definition, host.Rejects v definition →
      ∃ d : Outline, d.Spells definition.toList ∧ TypeExpr.parse definition = d.build ∧
        (d.IsCapability ↔ ∃ (left right : List Char) (method : Word isMethodChar),
          Blank left ∧ Blank right ∧
            definition.toList = left ++ '#' :: method.chars ++ right) ∧
        ∀ (name : String) (hfinite),
          let reported := (CheckFault.mismatch name v definition).report host.view hfinite
          let actual := String.ofList (host.view.describe ⟨v, hfinite v rfl⟩)
          (CheckError.message reported = CheckError.lacksMethod name definition ↔
            d.IsCapability ∨ d.LeadsWithCapability) ∧
          (CheckError.message reported = CheckError.isOtherwise name actual definition ↔
            ¬ (d.IsCapability ∨ d.LeadsWithCapability)) := by
  intro strict
  refine ⟨fun cache hcache => ⟨?_, ?_, ?_, fun nesting => ⟨fun v definition => rfl,
    fun bindings checks => rfl⟩⟩, ?_⟩
  · intro v definition name w expected
    rw [(host.yields_ensure v definition).outcome_eq hcache]
    exact Host.ensureAfresh_eq_mismatch_iff
  · intro bindings checks name w expected h
    rw [host.outcome_strict hcache] at h
    exact Host.rejects_of_strictAfresh h
  · intro bindings name v definition hv hrejects
    have hcomplains : Host.Complains bindings (name, definition)
        (host.runAfresh false bindings [(name, definition)]) :=
      host.strictAfresh_of_mismatch ((Host.rejects_iff_verdict hv).2 hrejects)
    obtain ⟨w, hw, hcomplains⟩ := hcomplains
    obtain rfl : v = w := Option.some.inj (hv.symm.trans hw)
    rw [host.outcome_strict hcache, hcomplains]
  · rintro v definition ⟨expr, hparse, -⟩
    obtain ⟨d, hspells, hbuild⟩ := TypeExpr.exists_outline (TypeExpr.validate_of_parse hparse)
    refine ⟨d, hspells, hbuild, Outline.isCapability_iff hspells, fun name hfinite => ?_⟩
    rw [← Outline.head?_trimStart_iff hspells]
    exact CheckError.message_mismatch_iff name _ definition

end

/-- A capability whose name ends with a mark, in white space, and a sum that ends with one. -/
theorem mismatch_wording_nil :
    let host : Host Value := { registry := TypeTable.builtin.toRegistry, view := Value.view }
    let checker : Checker Value := { host with nesting := Value.nesting }
    let capability := " #even?\t"
    let sum := "Array<#succ>|#succ"
    let actual := String.ofList (describe Value.nesting .nil)
    (host.Rejects .nil capability ∧
        ((checker.ensure .nil capability).run.run { rules := {} }).1 =
          .error (.mismatch "value" actual capability) ∧
        CheckError.message (.mismatch "value" actual capability) =
          CheckError.lacksMethod "value" capability) ∧
      host.Rejects .nil sum ∧
        ((checker.check [("x", .nil)] [("x", sum)]).run.run { rules := {} }).1 =
          .error (.mismatch "x" actual sum) ∧
        CheckError.message (.mismatch "x" actual sum) =
          CheckError.isOtherwise "x" actual sum := by
  intro host checker capability sum actual
  have hfresh : Cache.Reached { rules := {} } := .fresh {}
  have hcapability : host.Rejects .nil capability :=
    Host.rejects_iff_acceptsAfresh.2 (by decide +kernel)
  have hsum : host.Rejects .nil sum :=
    Host.rejects_iff_acceptsAfresh.2 (by decide +kernel)
  obtain ⟨hraised, hworded⟩ := mismatch_wording host
  obtain ⟨hensure, -, hstrict, hreported⟩ := hraised { rules := {} } hfresh
  have hensured := (hensure .nil capability "value" .nil capability).2 ⟨hcapability, rfl, rfl, rfl⟩
  have hchecked := hstrict [("x", .nil)] "x" .nil sum rfl hsum
  have hfinite (v : Value) : Acc Value.view.IsPart v := Value.nesting.wellFounded.apply v
  obtain ⟨hensures, hchecks⟩ := hreported Value.nesting
  refine ⟨⟨hcapability, ?_, ?_⟩, hsum, ?_, ?_⟩
  · rw [hensures, hensured]
    rfl
  · obtain ⟨d, -, -, hbare, hmessage⟩ := hworded .nil capability hcapability
    have hblank : Blank [' '] ∧ Blank ['\t'] :=
      ⟨List.forall_mem_singleton.2 (by decide), List.forall_mem_singleton.2 (by decide)⟩
    have hisCapability : d.IsCapability :=
      hbare.2 ⟨[' '], ['\t'], .ofText _ "even?" (by decide), hblank.1, hblank.2, by decide⟩
    exact (hmessage "value" fun v _ => hfinite v).1.2 (.inl hisCapability)
  · rw [hchecks, hchecked]
    rfl
  · obtain ⟨d, hspells, -, -, hmessage⟩ := hworded .nil sum hsum
    refine (hmessage "x" fun v _ => hfinite v).2.2 fun hleads => ?_
    exact absurd ((Outline.head?_trimStart_iff hspells).2 hleads) (by decide)

/-- A sum of two capabilities is no bare capability but is worded as one. -/
theorem not_worded_as_sum :
    let host : Host Value := { registry := TypeTable.builtin.toRegistry, view := Value.view }
    let checker : Checker Value := { host with nesting := Value.nesting }
    let v : Value := .object "Object" []
    let definition := "#to_i|#to_f"
    host.Rejects v definition ∧
      (¬ ∃ (left right : List Char) (method : Word isMethodChar), Blank left ∧ Blank right ∧
        definition.toList = left ++ '#' :: method.chars ++ right) ∧
      CheckError.message (checker.report (.mismatch "value" v definition)) =
        CheckError.lacksMethod "value" definition := by
  intro host checker v definition
  let actual := String.ofList (describe Value.nesting v)
  have hworded := (CheckError.message_mismatch_iff "value" actual definition).1.2 (by decide)
  refine ⟨Host.rejects_iff_acceptsAfresh.2 (by decide +kernel), ?_, hworded⟩
  rintro ⟨left, right, method, hleft, hright, htext⟩
  have hbar : '|' ∈ definition.toList := by decide
  rw [htext] at hbar
  exact Outline.bar_notMem_capability hleft hright hbar

end DynTypes
