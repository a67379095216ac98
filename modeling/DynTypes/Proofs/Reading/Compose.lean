import DynTypes.Proofs.Matching.Sums
import DynTypes.Proofs.Reading.Parse
import DynTypes.Regex.Builtin
import Mathlib.Data.List.Forall2
/-!
# Definitions made of definitions

A bar between two definitions joins their alternatives, and a name with definitions between angle
brackets takes them as its slots, whatever they hold and however they are spaced. What is read is
put together from what the parts are read as, and what is refused is the first part that is.
-/

namespace DynTypes

open Outline (Word Spells IsWord isNameChar isMethodChar ElementSpells)

namespace Outline

variable {e next : Element} {rest others : List Element} {text text' : List Char}

theorem spells_bar (h : Spells (.sum e rest) text) (h' : Spells (.sum next others) text') :
    Spells (.sum e (rest ++ next :: others)) (text ++ '|' :: text') := by
  induction rest generalizing e text with
  | nil =>
      cases h with
      | last hleft helement hright => exact .more hleft helement hright h'
  | cons second rest ih =>
      cases h with
      | more hleft helement hright hothers =>
          rw [List.append_assoc, List.cons_append]
          exact .more hleft helement hright (ih hothers)

theorem seriesSpells_intercalate {slots : List Outline} {texts : List (List Char)}
    (h : List.Forall₂ Spells slots texts) (hne : slots ≠ []) :
    SeriesSpells slots ([','].intercalate texts) := by
  induction h with
  | nil => exact absurd rfl hne
  | cons hslot hothers ih =>
      cases hothers with
      | nil =>
          rw [List.intercalate_singleton]
          exact .last hslot
      | cons hnext hmore =>
          rw [List.intercalate_cons_cons, List.append_assoc, List.singleton_append]
          exact .more hslot (ih (List.cons_ne_nil _ _))

end Outline

section

variable [RegexEngine]

namespace Outline

variable {e next : Element} {rest others : List Element} {text text' : List Char}

theorem build_append :
    build (.sum e (rest ++ next :: others)) = do
      let front ← build (.sum e rest)
      let behind ← build (.sum next others)
      return front.join behind := by
  induction rest generalizing e with
  | nil =>
      rw [List.nil_append, build_sum_cons]
      simp only [build, buildElements]
      cases buildElement e <;> rfl
  | cons second rest ih =>
      rw [List.cons_append, build_sum_cons, ih, build_sum_cons]
      cases buildElement e with
      | error err => rfl
      | ok alternative =>
          cases build (.sum second rest) with
          | error err => rfl
          | ok front =>
              cases build (.sum next others) with
              | error err => rfl
              | ok behind =>
                  simp only [ok_bind, pure_bind, TypeExpr.alternatives_join]
                  rfl

theorem buildSlots_eq_mapM (slots : List Outline) : buildSlots slots = slots.mapM build := by
  induction slots with
  | nil => rfl
  | cons slot slots ih => rw [buildSlots, List.mapM_cons, ih]

end Outline

namespace TypeExpr

variable {a b : String}

theorem exists_outline_bar (ha : Grammar.validate a = .ok ()) (hb : Grammar.validate b = .ok ()) :
    ∃ d : Outline, d.Spells (a ++ "|" ++ b).toList ∧
      d.build = do
        let x ← parse a
        let y ← parse b
        return x.join y := by
  obtain ⟨⟨e, rest⟩, hspells, hparse⟩ := exists_outline ha
  obtain ⟨⟨next, others⟩, hspells', hparse'⟩ := exists_outline hb
  refine ⟨.sum e (rest ++ next :: others), ?_, ?_⟩
  · rw [String.toList_append, String.toList_append, List.append_assoc]
    exact Outline.spells_bar hspells hspells'
  · rw [hparse, hparse', Outline.build_append]

theorem exists_outlines {definitions : List String}
    (h : ∀ definition ∈ definitions, Grammar.validate definition = .ok ()) :
    ∃ outlines, List.Forall₂ Spells outlines (definitions.map String.toList) ∧
      definitions.mapM parse = outlines.mapM Outline.build := by
  induction definitions with
  | nil => exact ⟨[], .nil, rfl⟩
  | cons definition definitions ih =>
      obtain ⟨d, hspells, hparse⟩ := exists_outline (h definition List.mem_cons_self)
      obtain ⟨outlines, hothers, hmap⟩ := ih fun s hs => h s (List.mem_cons_of_mem _ hs)
      refine ⟨d :: outlines, .cons hspells hothers, ?_⟩
      rw [List.mapM_cons, List.mapM_cons, hparse, hmap]

theorem exists_outline_slots {name : String} {definitions : List String}
    (hname : IsWord isNameChar name) (hne : definitions ≠ [])
    (h : ∀ definition ∈ definitions, Grammar.validate definition = .ok ()) :
    ∃ d : Outline, d.Spells (name ++ "<" ++ ",".intercalate definitions ++ ">").toList ∧
      d.build = do
        let slots ← definitions.mapM parse
        return .sum (.mk name false slots none) [] := by
  obtain ⟨outlines, hspells, hmap⟩ := exists_outlines h
  have houtlines : outlines ≠ [] := by
    rintro rfl
    exact hne (List.map_eq_nil_iff.1 (List.forall₂_nil_left_iff.1 hspells))
  have hslots := Outline.seriesSpells_intercalate hspells houtlines
  refine ⟨.sum (.named (.ofText _ name hname) false outlines []) [], ?_, ?_⟩
  · have helement : ElementSpells (.named (.ofText _ name hname) false outlines []) _ :=
      .named (.present hslots) .absent
    have hsum := Spells.last (List.forall_mem_nil _) helement (List.forall_mem_nil _)
    simpa [Outline.mark, Word.ofText, String.toList_append, String.toList_intercalate] using hsum
  · simp only [Outline.build, Outline.buildElement, Outline.buildElements,
      Outline.buildSlots_eq_mapM, hmap]
    cases outlines.mapM Outline.build with
    | error err => rfl
    | ok slots => simp [Outline.buildList?, Word.ofText]

/-- Both passes take definitions apart at a bar and at the commas between slots. A bar reads the
first definition and then the second, and a match asks the second where the first says no. A name
with slots reads the definitions of the slots in order. -/
theorem definitions_compose :
    (∀ a b : String, Grammar.validate a = .ok () → Grammar.validate b = .ok () →
      Grammar.validate (a ++ "|" ++ b) = .ok () ∧
      (parse (a ++ "|" ++ b) = do
        let x ← parse a
        let y ← parse b
        return x.join y) ∧
      ∀ x y, parse a = .ok x → parse b = .ok y →
        ∃ e, parse (a ++ "|" ++ b) = .ok e ∧ e.alternatives = x.alternatives ++ y.alternatives ∧
          ∀ {V : Type} (registry : Registry V) (view : View V) (v : V),
            e.accepts registry view v =
              match x.accepts registry view v with
              | .ok false => y.accepts registry view v
              | answer => answer) ∧
    ∀ (name : String) (definitions : List String), IsWord isNameChar name → definitions ≠ [] →
      (∀ definition ∈ definitions, Grammar.validate definition = .ok ()) →
        Grammar.validate (name ++ "<" ++ ",".intercalate definitions ++ ">") = .ok () ∧
        parse (name ++ "<" ++ ",".intercalate definitions ++ ">") = do
          let slots ← definitions.mapM parse
          return .sum (.mk name false slots none) [] := by
  constructor
  · intro a b ha hb
    obtain ⟨d, hspells, hbuild⟩ := exists_outline_bar ha hb
    have hparse := (parse_eq_build hspells).trans hbuild
    refine ⟨Grammar.check_of_spells hspells, hparse, ?_⟩
    intro x y hx hy
    refine ⟨x.join y, ?_, alternatives_join x y, ?_⟩
    · rw [hparse, hx, hy]
      rfl
    · intro V registry view v
      have hjoin := congrFun (accepts_join registry view x y) v
      exact hjoin.trans (Test.or_apply _ _ v)
  · intro name definitions hname hne h
    obtain ⟨d, hspells, hbuild⟩ := exists_outline_slots hname hne h
    exact ⟨Grammar.check_of_spells hspells, (parse_eq_build hspells).trans hbuild⟩

end TypeExpr

end

namespace TypeExpr

theorem definitions_compose_pairs :
    Grammar.validate " #size? " = .ok () ∧ Grammar.validate "Array?< :ok >(min:1)" = .ok () ∧
      Grammar.validate " #size? |Array?< :ok >(min:1)" = .ok () ∧
      IsWord isNameChar "Hash" ∧
      parse "Hash< #size? ,Array?< :ok >(min:1)>" = (do
        let slots ← [" #size? ", "Array?< :ok >(min:1)"].mapM parse
        return .sum (.mk "Hash" false slots none) []) := by
  have hfirst : Grammar.validate " #size? " = .ok () := by decide
  have hsecond : Grammar.validate "Array?< :ok >(min:1)" = .ok () := by decide
  have hname : IsWord isNameChar "Hash" := by decide
  have hslots : ∀ definition ∈ [" #size? ", "Array?< :ok >(min:1)"],
      Grammar.validate definition = .ok () := by simp [hfirst, hsecond]
  exact ⟨hfirst, hsecond, (definitions_compose.1 _ _ hfirst hsecond).1, hname,
    (definitions_compose.2 _ _ hname (by simp) hslots).2⟩

end TypeExpr

end DynTypes
