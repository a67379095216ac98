import DynTypes.Proofs.Checking.Unobservable
import DynTypes.Proofs.Description.Tree
import DynTypes.Regex.Builtin
import DynTypes.Value.Json
/-!
# Definitions of a single text

A text that is written as a quoted literal selects itself and nothing else, whatever it holds: none
of its characters ends the literal or counts for the definition around it. A bare literal selects
the symbol with its name.
-/

namespace DynTypes

open Outline

/-- Read from JSON, a text has the text of a token if it is that token: a symbol shows itself with
the colon that made it one. -/
theorem Literal.accepts_token_ofText (token u : String) :
    (Literal.token token).accepts Value.view (Value.ofText u) = decide (u = token) := by
  rw [Value.ofText]
  split
  · next c rest hu =>
    have hname : (Literal.token token).accepts Value.view (.symbol (String.ofList (c :: rest))) =
        (token.toList == u.toList) := by
      rw [hu]
      simp [Literal.accepts, Value.view, Value.symbolName]
    rw [hname, Bool.eq_iff_iff, beq_iff_eq, decide_eq_true_eq, String.toList_inj]
    exact eq_comm
  · rfl

section

variable [RegexEngine]

namespace Alternative

/-- The alternative with one literal as its only constraint. -/
def ofLiteral (name : String) (literal : Literal) : Alternative :=
  .mk name false [] (some (.singleton (.val literal)))

theorem wellFormed_ofLiteral_text {name : String} (hname : IsWord isNameChar name) (text : String) :
    (ofLiteral name (.text text)).WellFormed Literal.IsToken :=
  ⟨hname, trivial, (wellFormed_singleton (c := .val (.text text)) trivial).2.2⟩

theorem render_ofLiteral (name : String) (literal : Literal) :
    String.ofList (ofLiteral name literal).render =
      name ++ "(val:" ++ String.ofList literal.render ++ ")" := by
  have hconstraint : (Constraint.val literal).render = "val:".toList ++ literal.render := rfl
  rw [← String.toList_inj, String.toList_ofList, ofLiteral, render, Option.elim_some,
    Constraints.render, Constraints.singleton, List.map_singleton, hconstraint]
  simp [List.intercalate_singleton]

theorem accepts_ofLiteral {V : Type} (registry : Registry V) (view : View V) {name : String} {v : V}
    {isMember : Bool} (hname : Test.ofName registry name v = .ok isMember) (literal : Literal) :
    (ofLiteral name literal).accepts registry view v =
      .ok (isMember && literal.accepts view v) := by
  have hlist : (some (Constraints.singleton (.val literal))).all (·.accepts view v) =
      literal.accepts view v := by
    simp [Constraints.accepts, Constraints.singleton, Constraint.accepts]
  rw [ofLiteral, accepts_mk, hname, hlist]
  cases isMember <;> cases literal.accepts view v <;> rfl

end Alternative

theorem TypeExpr.parse_text {name : String} (hname : IsWord isNameChar name) (text : String) :
    parse (name ++ "(val:" ++ String.ofList (Literal.text text).render ++ ")") =
      .ok (.sum (.ofLiteral name (.text text)) []) := by
  rw [← Alternative.render_ofLiteral]
  exact Alternative.parse_render (Alternative.wellFormed_ofLiteral_text hname text)

theorem TypeExpr.parse_token {token : String} (htoken : IsWord isMethodChar token) :
    parse (":" ++ token) =
      .ok (.sum (.ofLiteral Alternative.anyName (.token (":" ++ token))) []) := by
  have hblank : Blank [] := List.forall_mem_nil _
  have hspells : Spells (.sum (.token (.ofText _ token htoken)) []) (":" ++ token).toList := by
    have htext : (":" ++ token).toList = [] ++ ':' :: (Word.ofText _ token htoken).chars ++ [] := by
      simp [Word.ofText]
    rw [htext]
    exact .last hblank .token hblank
  have hchars : String.ofList (':' :: (Word.ofText _ token htoken).chars) = ":" ++ token := by
    simp [Word.ofText]
  rw [parse_eq_build hspells, ← hchars]
  rfl

theorem TypeExpr.accepts_single {V : Type} (registry : Registry V) (view : View V)
    (a : Alternative) (v : V) :
    (TypeExpr.sum a []).accepts registry view v = a.accepts registry view v := by
  rw [accepts_eq_acceptsAny, alternatives, Alternative.acceptsAny, Test.or_apply]
  rcases a.accepts registry view v with _ | _ | _ <;> rfl

/-- However a cache came about, a definition that means one literal is matched through it by the
name and the literal. -/
theorem run_acceptsDefinition_ofLiteral {V : Type} {registry : Registry V} {view : View V}
    {cache : Cache} (hcache : cache.Reached) {definition name : String} {literal : Literal}
    (hparse : TypeExpr.parse definition = .ok (.sum (.ofLiteral name literal) [])) {v : V}
    (hname : Test.ofName registry name v = .ok true) :
    ((acceptsDefinition registry view definition v).run.run cache).1 =
      .ok (literal.accepts view v) := by
  rw [(yields_acceptsDefinition registry view definition v cache hcache.faithful).1,
    acceptsAfresh_of_parse hparse, TypeExpr.accepts_single,
    Alternative.accepts_ofLiteral registry view hname, Bool.true_and]

/-- A quoted literal selects its text from all texts, and a bare one the symbol with its name, as
JSON writes it. -/
theorem literal_selects_text :
    (∀ text : String,
      let definition := "String(val:" ++ String.ofList (Literal.text text).render ++ ")"
      Grammar.validate definition = .ok () ∧
        TypeExpr.parse definition = .ok (.sum (.mk "String" false []
          (some (.singleton (.val (.text text))))) []) ∧
        ∀ cache : Cache, cache.Reached → ∀ u : String,
          ((acceptsDefinition TypeTable.builtin.toRegistry Value.view definition
            (.str u)).run.run cache).1 = .ok (decide (u = text))) ∧
    ∀ token : String, IsWord isMethodChar token → ∀ cache : Cache, cache.Reached → ∀ u : String,
      ((acceptsDefinition TypeTable.builtin.toRegistry Value.view (":" ++ token)
        (.ofJson (.text u))).run.run cache).1 = .ok (decide (u = ":" ++ token)) := by
  constructor
  · intro text definition
    have hfront : "String(val:" = "String" ++ "(val:" := by decide
    have hparse : TypeExpr.parse definition = .ok (.sum (.ofLiteral "String" (.text text)) []) := by
      show TypeExpr.parse ("String(val:" ++ _ ++ ")") = _
      rw [hfront]
      exact TypeExpr.parse_text (by decide) text
    refine ⟨TypeExpr.validate_of_parse hparse, hparse, fun cache hcache u => ?_⟩
    have hname : Test.ofName TypeTable.builtin.toRegistry "String" (.str u) = .ok true := rfl
    rw [run_acceptsDefinition_ofLiteral hcache hparse hname]
    rfl
  · intro token htoken cache hcache u
    have hname : Test.ofName TypeTable.builtin.toRegistry Alternative.anyName
        (Value.ofText u) = .ok true :=
      rfl
    rw [Value.ofJson, run_acceptsDefinition_ofLiteral hcache (TypeExpr.parse_token htoken) hname,
      Literal.accepts_token_ofText]

end

/-- A text that would end the literal, the list and the alternative if it were not quoted, and a
token with a question mark. -/
theorem literal_selects_text_delimiters :
    let registry := TypeTable.builtin.toRegistry
    let text := "\"),\\"
    let definition := "String(val:" ++ String.ofList (Literal.text text).render ++ ")"
    let cache : Cache := { rules := {} }
    cache.Reached ∧ Grammar.validate definition = .ok () ∧
      ((acceptsDefinition registry Value.view definition (.str text)).run.run cache).1 = .ok true ∧
      ((acceptsDefinition registry Value.view definition (.str "")).run.run cache).1 = .ok false ∧
      IsWord isMethodChar "ok?" ∧
      ((acceptsDefinition registry Value.view (":" ++ "ok?")
        (.ofJson (.text ":ok?"))).run.run cache).1 = .ok true := by
  intro registry text definition cache
  have hcache : cache.Reached := .fresh {}
  have hword : IsWord isMethodChar "ok?" := by decide
  obtain ⟨hvalid, -, hselects⟩ := literal_selects_text.1 text
  have htoken := literal_selects_text.2 "ok?" hword cache hcache ":ok?"
  exact ⟨hcache, hvalid, (hselects cache hcache text).trans (congrArg _ (decide_eq_true rfl)),
    (hselects cache hcache "").trans (congrArg _ (decide_eq_false (by decide))), hword,
    htoken.trans (congrArg _ (decide_eq_true (by decide)))⟩

end DynTypes
