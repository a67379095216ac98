import DynTypes.Proofs.Reading.Assembly
import DynTypes.Proofs.Reading.Front
/-!
# Fronts and the assembly

What the assembly keeps behind a text is built of the front of that text: for each open collection
the alternatives up to the one that it belongs to and the slots that are complete, then the
alternatives of the sum at hand and what there is of the next. Where the front goes on, the
assembly does, and keeps what the front says.
-/

namespace DynTypes

open Outline

namespace Outline

theorem mapM_concat {ε α β : Type} {f : α → Except ε β} {xs : List α} {ys : List β} {x : α} {y : β}
    (hxs : xs.mapM f = .ok ys) (hx : f x = .ok y) : (xs ++ [x]).mapM f = .ok (ys ++ [y]) := by
  rw [List.mapM_append, hxs, List.mapM_cons, hx]
  rfl

theorem Begun.Writes.isWritten {begun next : Begun} {c : Char} (h : begun.Writes c next) :
    Assembly.IsWritten c := by
  cases h with
  | mark kind => cases kind <;> exact ⟨by decide, by decide⟩
  | bareSingle hc => exact Assembly.isWritten_of_isMethodChar hc
  | bareConcat hc => exact Assembly.isWritten_of_isMethodChar hc
  | nameSingle hc => exact Assembly.isWritten_of_isMethodChar (isMethodChar_of_isNameChar hc)
  | nameConcat hc => exact Assembly.isWritten_of_isMethodChar (isMethodChar_of_isNameChar hc)
  | question => exact Assembly.isWritten_of_isMethodChar rfl

end Outline

variable [RegexEngine]

/-! ## What is built of a front -/

namespace Outline

theorem buildElements_eq_mapM (elements : List Element) :
    buildElements elements = elements.mapM buildElement := by
  induction elements with
  | nil => rfl
  | cons e elements ih => rw [buildElements, List.mapM_cons, ih]

section Build

variable {before : List Element} {e : Element} {sum : List Alternative} {alternative : Alternative}
  {slots : List Outline} {d : Outline} {exprs : List TypeExpr} {expr : TypeExpr}

theorem buildElements_concat (hbefore : buildElements before = .ok sum)
    (he : buildElement e = .ok alternative) :
    buildElements (before ++ [e]) = .ok (sum ++ [alternative]) := by
  rw [buildElements_eq_mapM] at hbefore ⊢
  exact mapM_concat hbefore he

theorem buildSlots_concat (hslots : buildSlots slots = .ok exprs) (hd : build d = .ok expr) :
    buildSlots (slots ++ [d]) = .ok (exprs ++ [expr]) := by
  rw [buildSlots_eq_mapM] at hslots ⊢
  exact mapM_concat hslots hd

theorem buildElements_alternatives (d : Outline) :
    buildElements d.alternatives = (build d).map TypeExpr.alternatives := by
  obtain ⟨first, others⟩ := d
  rw [alternatives, buildElements, build]
  cases buildElement first with
  | error err => rfl
  | ok alternative => cases buildElements others <;> rfl

theorem exists_build_endedBy (hbefore : buildElements before = .ok sum)
    (he : buildElement e = .ok alternative) :
    ∃ expr, build (endedBy before e) = .ok expr ∧ expr.alternatives = sum ++ [alternative] := by
  have hbuild := buildElements_alternatives (endedBy before e)
  rw [alternatives_endedBy, buildElements_concat hbefore he] at hbuild
  cases hexpr : build (endedBy before e) with
  | error err =>
      rw [hexpr] at hbuild
      contradiction
  | ok expr =>
      rw [hexpr] at hbuild
      exact ⟨expr, rfl, (Except.ok.inj hbuild).symm⟩

end Build

end Outline

/-! ## What the assembly holds -/

namespace Assembly

/-- What is kept of a collection that is open: the alternatives in front of the one that it belongs
to, that one last and without slots, and the slots that are complete. -/
inductive HoldsCollection : OpenCollection → List Alternative × List TypeExpr → Prop where
  | mk {collection : OpenCollection} {sum : List Alternative} {exprs : List TypeExpr}
      (hbefore : buildElements collection.before = .ok sum)
      (hslots : buildSlots collection.slots = .ok exprs) :
      HoldsCollection collection
        (sum ++ [.mk (String.ofList collection.name.chars) collection.optional [] none], exprs)

variable {outer : List (List Alternative × List TypeExpr)} {sum : List Alternative}

theorem Ends.outer_eq {a : Assembly} (h : Ends outer a sum) : a.outer = outer := by
  cases h <;> rfl

/-- What is kept of the alternative at hand, behind those of the sum. -/
inductive HoldsBegun (outer : List (List Alternative × List TypeExpr)) (sum : List Alternative) :
    Begun → Assembly → Prop where
  | nothing : HoldsBegun outer sum .nothing ⟨outer, sum, [], .anyObject⟩
  | mark {kind : Bare} : HoldsBegun outer sum (.mark kind) ⟨outer, sum, [kind.mark], .pendingName⟩
  | bare {kind : Bare} {name : Word isMethodChar} :
      HoldsBegun outer sum (.bare kind name) ⟨outer, sum, kind.mark :: name.chars, .pendingName⟩
  | named {name : Word isNameChar} {optional : Bool} :
      HoldsBegun outer sum (.named name optional)
        ⟨outer, sum, name.chars ++ Outline.mark optional, .pendingName⟩
  | slotted {name : Word isNameChar} {optional : Bool} {slots : List Outline}
      {exprs : List TypeExpr} (hslots : buildSlots slots = .ok exprs) :
      HoldsBegun outer sum (.slotted name optional slots)
        ⟨outer, sum ++ [.mk (String.ofList name.chars) optional exprs none], [], .lastAlternative⟩
  | whole {e : Outline.Element} {alternative : Alternative} {a : Assembly}
      (he : buildElement e = .ok alternative) (hends : Ends outer a (sum ++ [alternative])) :
      HoldsBegun outer sum (.whole e) a

/-- What is kept of a front. -/
inductive Holds : Front → Assembly → Prop where
  | mk {collections : List OpenCollection} {before : List Outline.Element} {begun : Begun}
      {outer : List (List Alternative × List TypeExpr)} {sum : List Alternative} {a : Assembly}
      (houter : List.Forall₂ HoldsCollection collections outer)
      (hbefore : buildElements before = .ok sum) (hbegun : HoldsBegun outer sum begun a) :
      Holds ⟨collections, before, begun⟩ a

namespace HoldsBegun

variable {begun next : Begun} {a : Assembly} {e : Outline.Element} {c : Char} {pairs : List Pair}

theorem outer_eq (h : HoldsBegun outer sum begun a) : a.outer = outer := by
  cases h with
  | whole _ hends => exact hends.outer_eq
  | _ => rfl

theorem write (h : HoldsBegun outer sum begun a) (hwrites : begun.Writes c next) :
    HoldsBegun outer sum next { a with name := a.name ++ [c], owner := .pendingName } := by
  cases hwrites with
  | mark kind =>
      cases h
      exact .mark
  | bareSingle hc =>
      cases h
      exact .bare
  | bareConcat hc =>
      cases h
      exact .bare
  | nameSingle hc =>
      cases h
      exact .named
  | @nameConcat name c hc =>
      cases h
      have hname : HoldsBegun outer sum (.named (name.concat c hc) false) _ := .named
      simpa [Outline.mark, Word.concat] using hname
  | @question name =>
      cases h
      have hname : HoldsBegun outer sum (.named name true) _ := .named
      simpa [Outline.mark] using hname

theorem ends (h : HoldsBegun outer sum begun a) (he : begun.element? = some e) :
    ∃ alternative, buildElement e = .ok alternative ∧ Ends outer a (sum ++ [alternative]) := by
  cases h with
  | nothing | mark => cases he
  | @bare kind name =>
      cases he
      cases kind with
      | method =>
          exact ⟨_, rfl, .pending (List.cons_ne_nil _ _) (Alternative.ofWritten_method name)⟩
      | token =>
          exact ⟨_, rfl, .pending (List.cons_ne_nil _ _) (Alternative.ofWritten_token name)⟩
  | @named name optional =>
      cases he
      have hne : name.chars ++ Outline.mark optional ≠ [] := by simp [name.chars_ne_nil]
      exact ⟨_, rfl, .pending hne (Alternative.ofWritten_name name optional)⟩
  | slotted hslots =>
      cases he
      refine ⟨_, ?_, .made⟩
      rw [buildElement, hslots]
      rfl
  | whole hbuild hends =>
      cases he
      exact ⟨_, hbuild, hends⟩

/-- A constraint list finds the alternative that it belongs to. -/
theorem openList (h : HoldsBegun outer sum begun a) (he : begun.withList? pairs = some e) :
    ∃ alternative owner, a.openList = .ok ⟨outer, sum ++ [alternative], [], owner⟩ ∧
      buildElement e = (buildList pairs).map alternative.constrainedBy := by
  rcases pairs with _ | ⟨first, others⟩
  · cases begun <;> cases he
  · cases h with
    | mark | bare | whole => cases he
    | nothing =>
        cases he
        refine ⟨.any, .anyObject, openList_anyObject, ?_⟩
        rw [buildElement]
        cases buildList (first :: others) <;> rfl
    | @named name optional =>
        cases he
        have hne : name.chars ++ Outline.mark optional ≠ [] := by simp [name.chars_ne_nil]
        have hwritten := Alternative.ofWritten_name name optional
        refine ⟨_, .pendingName, (Ends.pending hne hwritten).openList, ?_⟩
        rw [buildElement, buildSlots, buildList?]
        cases buildList (first :: others) <;> rfl
    | slotted hslots =>
        cases he
        refine ⟨_, .lastAlternative, Ends.made.openList, ?_⟩
        rw [buildElement, hslots, buildList?]
        cases buildList (first :: others) <;> rfl

end HoldsBegun

/-! ## Steps -/

section Step

variable {f next : Front} {a : Assembly} {c : Char} {rest : List Char}

/-- What is kept of the innermost collection, where its slot at hand ends. -/
theorem Holds.exists_slot {collection : OpenCollection} {collections : List OpenCollection}
    {before : List Outline.Element} {begun : Begun} {e : Outline.Element}
    (h : Holds ⟨collection :: collections, before, begun⟩ a) (he : begun.element? = some e) :
    ∃ outer sum exprs expr, List.Forall₂ HoldsCollection collections outer ∧
      buildElements collection.before = .ok sum ∧
      buildSlots (collection.slots ++ [endedBy before e]) = .ok (exprs ++ [expr]) ∧
      Ends ((sum ++ [.mk (String.ofList collection.name.chars) collection.optional [] none],
        exprs) :: outer) a expr.alternatives := by
  cases h with
  | mk houter hbefore hbegun =>
      obtain ⟨alternative, hbuild, hends⟩ := hbegun.ends he
      obtain ⟨expr, hexpr, hsum⟩ := exists_build_endedBy hbefore hbuild
      rw [← hsum] at hends
      cases houter with
      | cons hcollection houter =>
          cases hcollection with
          | mk howner hslots =>
              exact ⟨_, _, _, expr, houter, howner, buildSlots_concat hslots hexpr, hends⟩

/-- The assembly goes where the front goes. -/
theorem Holds.step (h : Holds f a) (hmoves : f.Moves c next) :
    ∃ b, (∀ text index, Assembly.step text index a c rest = .ok (b, 0)) ∧ Holds next b := by
  cases hmoves with
  | write hwrites =>
      obtain ⟨houter, hbefore, hbegun⟩ := h
      exact ⟨_, step_of_isWritten hwrites.isWritten, .mk houter hbefore (hbegun.write hwrites)⟩
  | blank hc => exact ⟨a, step_of_isWhiteSpace hc, h⟩
  | space hc he =>
      obtain ⟨houter, hbefore, hbegun⟩ := h
      obtain ⟨alternative, hbuild, hends⟩ := hbegun.ends he
      exact ⟨a, step_of_isWhiteSpace hc, .mk houter hbefore (.whole hbuild hends)⟩
  | bar he =>
      obtain ⟨houter, hbefore, hbegun⟩ := h
      obtain ⟨alternative, hbuild, hends⟩ := hbegun.ends he
      exact ⟨_, hends.step_bar, .mk houter (buildElements_concat hbefore hbuild) .nothing⟩
  | openAngle =>
      obtain ⟨houter, hbefore, hbegun⟩ := h
      obtain ⟨alternative, hbuild, hends⟩ := hbegun.ends rfl
      cases hbuild
      exact ⟨_, hends.step_openAngle, .mk (.cons (.mk hbefore rfl) houter) rfl .nothing⟩
  | @comma collection _ before _ e he =>
      obtain ⟨outer, sum, exprs, expr, houter, howner, hexprs, hends⟩ := h.exists_slot he
      have hcollection : HoldsCollection
          { collection with slots := collection.slots ++ [endedBy before e] } _ :=
        .mk howner hexprs
      exact ⟨_, hends.step_comma, .mk (.cons hcollection houter) rfl .nothing⟩
  | closeAngle he =>
      obtain ⟨outer, sum, exprs, expr, houter, howner, hexprs, hends⟩ := h.exists_slot he
      exact ⟨_, hends.step_closeAngle, .mk houter howner (.slotted hexprs)⟩

/-- A constraint list belongs to what is begun. -/
theorem Holds.step_list {collections : List OpenCollection} {before : List Outline.Element}
    {begun : Begun} (h : Holds ⟨collections, before, begun⟩ a) {pairs : List Pair}
    {inner : List Char} (hpairs : PairsSpell pairs inner) {e : Outline.Element}
    (he : begun.withList? pairs = some e) :
    ∃ sum, buildElements before = .ok sum ∧
      (∀ text index, Assembly.step text index a '(' (inner ++ ')' :: rest) =
        (buildElement e).map fun alternative =>
          (⟨a.outer, sum ++ [alternative], [], .lastAlternative⟩, inner.length + 1)) ∧
      ∀ alternative, buildElement e = .ok alternative →
        Holds ⟨collections, before, .whole e⟩
          ⟨a.outer, sum ++ [alternative], [], .lastAlternative⟩ := by
  cases h with
  | @mk _ _ _ _ sum _ houter hbefore hbegun =>
      obtain ⟨alternative, owner, hopen, hbuild⟩ := hbegun.openList he
      rw [hbegun.outer_eq]
      refine ⟨sum, hbefore, ?_, ?_⟩
      · intro text index
        rw [step_openParen hpairs hopen, hbuild]
        cases buildList pairs <;> rfl
      · intro alternative hbuild
        exact .mk houter hbefore (.whole hbuild .made)

end Step

end Assembly

end DynTypes
