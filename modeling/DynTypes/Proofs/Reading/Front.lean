import DynTypes.Proofs.Reading.Compose
/-!
# Outlines of texts that go on

A text that stops somewhere in a definition, outside of constraint lists, leaves collections open
and an alternative begun. A front is the outline of such a text: it says to which names the open
collections belong, which slots and which alternatives stand in front, and what there is of the
alternative at hand. `Front.Spells` is the grammar of definitions, cut off.
-/

namespace DynTypes

namespace Outline

/-! ## Alternatives that are begun -/

def Word.single {allowed : Char → Bool} (c : Char) (hc : allowed c = true) : Word allowed where
  chars := [c]
  chars_ne_nil := List.cons_ne_nil c []
  allowed_of_mem := List.forall_mem_singleton.2 hc

/-- A word with one more character at its end. -/
def Word.concat {allowed : Char → Bool} (word : Word allowed) (c : Char) (hc : allowed c = true) :
    Word allowed where
  chars := word.chars ++ [c]
  chars_ne_nil := List.append_ne_nil_of_left_ne_nil word.chars_ne_nil _
  allowed_of_mem := List.forall_mem_append.2 ⟨word.allowed_of_mem, List.forall_mem_singleton.2 hc⟩

/-- The two kinds of constraints that stand without a list. -/
inductive Bare where
  | method
  | token

namespace Bare

def mark : Bare → Char
  | method => '#'
  | token => ':'

def element : Bare → Word isMethodChar → Element
  | method, name => .method name
  | token, name => .token name

theorem spells_element (kind : Bare) (name : Word isMethodChar) :
    ElementSpells (kind.element name) (kind.mark :: name.chars) := by
  cases kind with
  | method => exact .method
  | token => exact .token

end Bare

/-- What there is of the alternative at hand. -/
inductive Begun where
  | nothing
  | mark (kind : Bare)
  | bare (kind : Bare) (name : Word isMethodChar)
  | named (name : Word isNameChar) (optional : Bool)
  | slotted (name : Word isNameChar) (optional : Bool) (slots : List Outline)
  /-- An alternative that does not go on. -/
  | whole (e : Element)

namespace Begun

/-- The alternative, if it may end here. -/
def element? : Begun → Option Element
  | .nothing | .mark _ => none
  | .bare kind name => some (kind.element name)
  | .named name optional => some (.named name optional [] [])
  | .slotted name optional slots => some (.named name optional slots [])
  | .whole e => some e

/-- The alternative that a constraint list makes of it, if there may be one here. -/
def withList? : Begun → List Pair → Option Element
  | .nothing, first :: others => some (.unnamed first others)
  | .named name optional, first :: others => some (.named name optional [] (first :: others))
  | .slotted name optional slots, first :: others =>
    some (.named name optional slots (first :: others))
  | _, _ => none

/-- How the beginning of an alternative is written. -/
inductive Spells : Begun → List Char → Prop where
  | nothing {left : List Char} (hleft : Blank left) : Spells .nothing left
  | mark {kind : Bare} {left : List Char} (hleft : Blank left) :
      Spells (.mark kind) (left ++ [kind.mark])
  | bare {kind : Bare} {name : Word isMethodChar} {left : List Char} (hleft : Blank left) :
      Spells (.bare kind name) (left ++ kind.mark :: name.chars)
  | named {name : Word isNameChar} {optional : Bool} {left : List Char} (hleft : Blank left) :
      Spells (.named name optional) (left ++ (name.chars ++ Outline.mark optional))
  | slotted {name : Word isNameChar} {optional : Bool} {slots : List Outline}
      {left inner : List Char} (hleft : Blank left) (hslots : SeriesSpells slots inner) :
      Spells (.slotted name optional slots)
        (left ++ (name.chars ++ Outline.mark optional ++ ('<' :: inner ++ ['>'])))
  | whole {e : Element} {left text right : List Char} (hleft : Blank left)
      (helement : ElementSpells e text) (hright : Blank right) :
      Spells (.whole e) (left ++ text ++ right)

variable {begun next : Begun} {e : Element} {text inner : List Char} {pairs : List Pair} {c : Char}

/-- Where an alternative may end, it is written. -/
theorem Spells.exists_element (h : begun.Spells text) (he : begun.element? = some e) :
    ∃ left written right, text = left ++ written ++ right ∧ Blank left ∧
      ElementSpells e written ∧ Blank right := by
  have hnone : Blank [] := List.forall_mem_nil _
  cases h with
  | nothing | mark => cases he
  | bare hleft =>
      cases he
      exact ⟨_, _, [], (List.append_nil _).symm, hleft, Bare.spells_element _ _, hnone⟩
  | named hleft =>
      cases he
      refine ⟨_, _, [], ?_, hleft, .named .absent .absent, hnone⟩
      simp only [List.append_nil]
  | slotted hleft hslots =>
      cases he
      refine ⟨_, _, [], ?_, hleft, .named (.present hslots) .absent, hnone⟩
      simp only [List.append_nil]
  | whole hleft helement hright =>
      cases he
      exact ⟨_, _, _, rfl, hleft, helement, hright⟩

theorem Spells.sum (h : begun.Spells text) (he : begun.element? = some e) :
    Outline.Spells (.sum e []) text := by
  obtain ⟨left, written, right, rfl, hleft, helement, hright⟩ := h.exists_element he
  exact .last hleft helement hright

theorem Spells.blank (h : Begun.nothing.Spells text) (hc : Text.isWhiteSpace c = true) :
    Begun.nothing.Spells (text ++ [c]) := by
  cases h with
  | nothing hleft =>
      exact .nothing (List.forall_mem_append.2 ⟨hleft, List.forall_mem_singleton.2 hc⟩)

theorem Spells.space (h : begun.Spells text) (he : begun.element? = some e)
    (hc : Text.isWhiteSpace c = true) : (Begun.whole e).Spells (text ++ [c]) := by
  obtain ⟨left, written, right, rfl, hleft, helement, hright⟩ := h.exists_element he
  rw [List.append_assoc]
  refine .whole hleft helement ?_
  exact List.forall_mem_append.2 ⟨hright, List.forall_mem_singleton.2 hc⟩

theorem Spells.withList (h : begun.Spells text) (hpairs : PairsSpell pairs inner)
    (he : begun.withList? pairs = some e) :
    (Begun.whole e).Spells (text ++ ('(' :: inner ++ [')'])) := by
  have hnone : Blank [] := List.forall_mem_nil _
  have hlist : ListSpells pairs ('(' :: inner ++ [')']) := .present hpairs
  rcases pairs with _ | ⟨first, others⟩
  · cases hpairs
  · cases h with
    | mark | bare | whole => cases he
    | nothing hleft =>
        cases he
        have hwhole := Spells.whole hleft (.unnamed hpairs) hnone
        rwa [List.append_nil] at hwhole
    | @named name optional left hleft =>
        cases he
        have hwhole := Spells.whole hleft (@ElementSpells.named name optional _ _ _ _ .absent hlist)
          hnone
        simpa only [List.append_nil, List.append_assoc] using hwhole
    | @slotted name optional slots left text hleft hslots =>
        cases he
        have hwhole := Spells.whole hleft
          (@ElementSpells.named name optional _ _ _ _ (.present hslots) hlist) hnone
        simpa only [List.append_nil, List.append_assoc] using hwhole

/-! ### How an alternative goes on -/

/-- A character makes the beginning of an alternative longer. -/
inductive Writes : Begun → Char → Begun → Prop where
  | mark (kind : Bare) : Writes .nothing kind.mark (.mark kind)
  | bareSingle {kind : Bare} {c : Char} (hc : isMethodChar c = true) :
      Writes (.mark kind) c (.bare kind (.single c hc))
  | bareConcat {kind : Bare} {name : Word isMethodChar} {c : Char} (hc : isMethodChar c = true) :
      Writes (.bare kind name) c (.bare kind (name.concat c hc))
  | nameSingle {c : Char} (hc : isNameChar c = true) :
      Writes .nothing c (.named (.single c hc) false)
  | nameConcat {name : Word isNameChar} {c : Char} (hc : isNameChar c = true) :
      Writes (.named name false) c (.named (name.concat c hc) false)
  | question {name : Word isNameChar} : Writes (.named name false) '?' (.named name true)

theorem Writes.spells (hwrites : Writes begun c next) (h : begun.Spells text) :
    next.Spells (text ++ [c]) := by
  cases hwrites with
  | mark kind =>
      cases h with
      | nothing hleft => exact .mark hleft
  | bareSingle hc =>
      cases h with
      | mark hleft =>
          rw [List.append_assoc]
          exact .bare hleft
  | bareConcat hc =>
      cases h with
      | bare hleft =>
          rw [List.append_assoc]
          exact .bare hleft
  | nameSingle hc =>
      cases h with
      | nothing hleft => exact .named hleft
  | @nameConcat name c hc =>
      cases h with
      | named hleft =>
          have hname := @Spells.named (name.concat c hc) false _ hleft
          simpa [Outline.mark, Word.concat] using hname
  | @question name =>
      cases h with
      | named hleft =>
          have hname := @Spells.named name true _ hleft
          simpa [Outline.mark] using hname

end Begun

/-! ## Texts that are cut off -/

/-- A sum that an alternative ends. -/
def endedBy : List Element → Element → Outline
  | [], e => .sum e []
  | first :: others, e => .sum first (others ++ [e])

def alternatives : Outline → List Element
  | .sum first others => first :: others

theorem alternatives_endedBy (before : List Element) (e : Element) :
    (endedBy before e).alternatives = before ++ [e] := by
  cases before <;> rfl

/-- How the alternatives are written that stand in front, each of them with a bar behind it. -/
inductive BeforeBar : List Element → List Char → Prop where
  | none : BeforeBar [] []
  | some {d : Outline} {text : List Char} (h : Spells d text) :
      BeforeBar d.alternatives (text ++ ['|'])

/-- How the slots are written that stand in front, each of them with a comma behind it. -/
inductive BeforeComma : List Outline → List Char → Prop where
  | none : BeforeComma [] []
  | some {slots : List Outline} {text : List Char} (h : SeriesSpells slots text) :
      BeforeComma slots (text ++ [','])

/-- A collection without its closing bracket. -/
structure OpenCollection where
  /-- The alternatives in front of the one that the collection belongs to. -/
  before : List Element
  name : Word isNameChar
  optional : Bool
  /-- The slots that are complete. -/
  slots : List Outline

/-- What stands in front of the slot at hand, from the innermost collection out. -/
inductive OpenSpell : List OpenCollection → List Char → Prop where
  | none : OpenSpell [] []
  | some {c : OpenCollection} {outer : List OpenCollection} {front bars left slots : List Char}
      (houter : OpenSpell outer front) (hbefore : BeforeBar c.before bars) (hleft : Blank left)
      (hslots : BeforeComma c.slots slots) :
      OpenSpell (c :: outer)
        (front ++ (bars ++ (left ++ (c.name.chars ++ Outline.mark c.optional ++ '<' :: slots))))

/-- The outline of a text that goes on. -/
structure Front where
  /-- The collections that are open, innermost first. -/
  outer : List OpenCollection
  /-- The alternatives in front of the one at hand. -/
  before : List Element
  begun : Begun

/-- How a front is written. -/
inductive Front.Spells : Front → List Char → Prop where
  | mk {outer : List OpenCollection} {before : List Element} {begun : Begun}
      {front bars text : List Char} (houter : OpenSpell outer front)
      (hbefore : BeforeBar before bars) (hbegun : begun.Spells text) :
      Front.Spells ⟨outer, before, begun⟩ (front ++ (bars ++ text))

theorem BeforeBar.sum {before : List Element} {e : Element} {bars text : List Char}
    (hbefore : BeforeBar before bars) (h : Spells (.sum e []) text) :
    Spells (endedBy before e) (bars ++ text) := by
  cases hbefore with
  | none => exact h
  | @some d written hbefore =>
      obtain ⟨first, others⟩ := d
      rw [List.append_assoc]
      exact spells_bar hbefore h

theorem seriesSpells_concat {slots : List Outline} {d : Outline} {series text : List Char}
    (hslots : SeriesSpells slots series) (h : Spells d text) :
    SeriesSpells (slots ++ [d]) (series ++ ',' :: text) := by
  induction slots generalizing series with
  | nil => cases hslots
  | cons slot slots ih =>
      cases hslots with
      | last hslot => exact .more hslot (.last h)
      | more hslot hothers =>
          rw [List.append_assoc, List.cons_append]
          exact .more hslot (ih hothers)

theorem BeforeComma.series {slots : List Outline} {d : Outline} {commas text : List Char}
    (hslots : BeforeComma slots commas) (h : Spells d text) :
    SeriesSpells (slots ++ [d]) (commas ++ text) := by
  cases hslots with
  | none => exact .last h
  | some hslots =>
      rw [List.append_assoc]
      exact seriesSpells_concat hslots h

namespace Front

variable {outer : List OpenCollection} {before : List Element} {begun next : Begun} {e : Element}
  {front inner : List Char} {pairs : List Pair}

theorem spells_nil : Front.Spells ⟨[], [], .nothing⟩ [] :=
  .mk .none .none (.nothing (List.forall_mem_nil _))

/-- What a character makes of a front. -/
inductive Moves : Front → Char → Front → Prop where
  | write {outer : List OpenCollection} {before : List Element} {begun next : Begun} {c : Char}
      (hwrites : begun.Writes c next) : Moves ⟨outer, before, begun⟩ c ⟨outer, before, next⟩
  | blank {outer : List OpenCollection} {before : List Element} {c : Char}
      (hc : Text.isWhiteSpace c = true) :
      Moves ⟨outer, before, .nothing⟩ c ⟨outer, before, .nothing⟩
  /-- Behind white space an alternative does not go on. -/
  | space {outer : List OpenCollection} {before : List Element} {begun : Begun} {e : Element}
      {c : Char} (hc : Text.isWhiteSpace c = true) (he : begun.element? = some e) :
      Moves ⟨outer, before, begun⟩ c ⟨outer, before, .whole e⟩
  | bar {outer : List OpenCollection} {before : List Element} {begun : Begun} {e : Element}
      (he : begun.element? = some e) :
      Moves ⟨outer, before, begun⟩ '|' ⟨outer, before ++ [e], .nothing⟩
  | openAngle {outer : List OpenCollection} {before : List Element} {name : Word isNameChar}
      {optional : Bool} :
      Moves ⟨outer, before, .named name optional⟩ '<'
        ⟨⟨before, name, optional, []⟩ :: outer, [], .nothing⟩
  | comma {collection : OpenCollection} {outer : List OpenCollection} {before : List Element}
      {begun : Begun} {e : Element} (he : begun.element? = some e) :
      Moves ⟨collection :: outer, before, begun⟩ ','
        ⟨{ collection with slots := collection.slots ++ [endedBy before e] } :: outer, [], .nothing⟩
  /-- The slots belong to the name that stands in front of the collection. -/
  | closeAngle {collection : OpenCollection} {outer : List OpenCollection} {before : List Element}
      {begun : Begun} {e : Element} (he : begun.element? = some e) :
      Moves ⟨collection :: outer, before, begun⟩ '>'
        ⟨outer, collection.before, .slotted collection.name collection.optional
          (collection.slots ++ [endedBy before e])⟩

namespace Spells

theorem bar (h : Front.Spells ⟨outer, before, begun⟩ front) (he : begun.element? = some e) :
    Front.Spells ⟨outer, before ++ [e], .nothing⟩ (front ++ ['|']) := by
  cases h with
  | mk houter hbefore hbegun =>
      have hbars := BeforeBar.some (hbefore.sum (hbegun.sum he))
      rw [alternatives_endedBy] at hbars
      have hfront := Front.Spells.mk houter hbars (.nothing (List.forall_mem_nil _))
      simpa only [List.append_nil, List.append_assoc] using hfront

theorem openAngle {name : Word isNameChar} {optional : Bool}
    (h : Front.Spells ⟨outer, before, .named name optional⟩ front) :
    Front.Spells ⟨⟨before, name, optional, []⟩ :: outer, [], .nothing⟩ (front ++ ['<']) := by
  cases h with
  | mk houter hbefore hbegun =>
      cases hbegun with
      | named hleft =>
          have hopen := @OpenSpell.some ⟨before, name, optional, []⟩ _ _ _ _ _ houter hbefore
            hleft .none
          have hfront := Front.Spells.mk hopen .none (.nothing (List.forall_mem_nil _))
          simpa only [List.append_nil, List.append_assoc] using hfront

section Slot

variable {collection : OpenCollection}

theorem comma (h : Front.Spells ⟨collection :: outer, before, begun⟩ front)
    (he : begun.element? = some e) :
    Front.Spells ⟨{ collection with slots := collection.slots ++ [endedBy before e] } :: outer, [],
      .nothing⟩ (front ++ [',']) := by
  cases h with
  | mk houter hbefore hbegun =>
      cases houter with
      | some houter hcollection hleft hslots =>
          have hseries := hslots.series (hbefore.sum (hbegun.sum he))
          have hopen := @OpenSpell.some
            { collection with slots := collection.slots ++ [endedBy before e] } _ _ _ _ _ houter
            hcollection hleft (.some hseries)
          have hfront := Front.Spells.mk hopen .none (.nothing (List.forall_mem_nil _))
          simpa only [List.append_nil, List.append_assoc, List.cons_append] using hfront

theorem closeAngle (h : Front.Spells ⟨collection :: outer, before, begun⟩ front)
    (he : begun.element? = some e) :
    Front.Spells ⟨outer, collection.before, .slotted collection.name collection.optional
      (collection.slots ++ [endedBy before e])⟩ (front ++ ['>']) := by
  cases h with
  | mk houter hbefore hbegun =>
      cases houter with
      | some houter hcollection hleft hslots =>
          have hseries := hslots.series (hbefore.sum (hbegun.sum he))
          have hslotted := @Begun.Spells.slotted collection.name collection.optional _ _ _ hleft
            hseries
          have hfront := Front.Spells.mk houter hcollection hslotted
          simpa only [List.append_assoc, List.cons_append] using hfront

end Slot

/-- A constraint list makes an alternative of what is begun. -/
theorem list (h : Front.Spells ⟨outer, before, begun⟩ front) (hpairs : PairsSpell pairs inner)
    (he : begun.withList? pairs = some e) :
    Front.Spells ⟨outer, before, .whole e⟩ (front ++ '(' :: inner ++ [')']) := by
  cases h with
  | mk houter hbefore hbegun =>
      have hwhole := hbegun.withList hpairs he
      have hfront := Front.Spells.mk houter hbefore hwhole
      simpa only [List.append_assoc, List.cons_append] using hfront

end Spells

theorem Moves.spells {f next : Front} {c : Char} (hmoves : f.Moves c next) (h : f.Spells front) :
    next.Spells (front ++ [c]) := by
  cases hmoves with
  | write hwrites =>
      cases h with
      | mk houter hbefore hbegun =>
          rw [List.append_assoc, List.append_assoc]
          exact .mk houter hbefore (hwrites.spells hbegun)
  | blank hc =>
      cases h with
      | mk houter hbefore hbegun =>
          rw [List.append_assoc, List.append_assoc]
          exact .mk houter hbefore (hbegun.blank hc)
  | space hc he =>
      cases h with
      | mk houter hbefore hbegun =>
          rw [List.append_assoc, List.append_assoc]
          exact .mk houter hbefore (hbegun.space he hc)
  | bar he => exact h.bar he
  | openAngle => exact h.openAngle
  | comma he => exact h.comma he
  | closeAngle he => exact h.closeAngle he

end Front

end Outline

end DynTypes
