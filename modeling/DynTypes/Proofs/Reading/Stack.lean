import DynTypes.Proofs.Text.Runs
import DynTypes.TypeExpr.Parser
/-!
# The stack of a parser

A parser has a stack of frames, and asks of each frame that it takes which kind it is of. In an
assembly the same contents are kept apart by their types: the sum at hand, and for each collection
that is open its slots and the sum that it stands in. So an assembly has no stack that is out of
order, and what a parser does from the stack of one leads to the stack of the next.
-/

namespace DynTypes

variable [RegexEngine]

theorem Parser.step_of_notMem {text : List Char} {index : Nat} {p : Parser} {c : Char}
    {rest : List Char} (hc : c ∉ ['|', '<', ',', '>', '(']) :
    Parser.step text index p c rest =
      if Text.isWhiteSpace c then .ok (p, 0)
      else .ok ({ p with name := p.name ++ [c], owner := .pendingName }, 0) := by
  unfold Parser.step
  split
  all_goals first | rfl | exact absurd (by decide) hc

/-- A type expression under construction. -/
structure Assembly where
  /-- For each collection that is open, innermost first: the sum whose last alternative it belongs
  to, and its slots that are complete. -/
  outer : List (List Alternative × List TypeExpr)
  /-- The alternatives of the sum at hand. -/
  sum : List Alternative
  name : List Char
  /-- What a parenthesis would attach to. -/
  owner : Owner

namespace Assembly

def initial : Assembly where
  outer := []
  sum := []
  name := []
  owner := .anyObject

/-- Makes an alternative of the name that is being read, if there is one. -/
def flushName (a : Assembly) : Except DefinitionError Assembly :=
  if a.name.isEmpty then .ok a
  else do
    let alternative ← Alternative.ofWritten a.name
    return { a with sum := a.sum ++ [alternative], name := [] }

/-- Makes the sum at hand the next slot of the innermost collection. -/
def endSlot (a : Assembly) : Except DefinitionError Assembly := do
  let slot ← TypeExpr.ofAlternatives a.sum
  match a.outer with
  | [] => .error (.misshapen .slotOutsideCollection)
  | (sum, slots) :: outer =>
    return { a with outer := (sum, slots ++ [slot]) :: outer, sum := [] }

/-- Changes the last alternative of a sum. -/
def modifyLast (f : Alternative → Except DefinitionError Alternative)
    (sum : List Alternative) : Except DefinitionError (List Alternative) :=
  match sum.getLast? with
  | none => .error (.misshapen .nothingToAttachTo)
  | some alternative => (f alternative).map fun alternative => sum.dropLast ++ [alternative]

/-- Gives the slots of the innermost collection to the alternative that it belongs to. -/
def endCollection (a : Assembly) : Except DefinitionError Assembly :=
  match a.outer with
  | [] => .error (.misshapen .slotOutsideCollection)
  | (sum, slots) :: outer => do
    let sum ← modifyLast (Alternative.holding slots) sum
    return { a with outer, sum }

/-- Makes sure that there is an alternative for a constraint list to belong to. -/
def openList (a : Assembly) : Except DefinitionError Assembly :=
  match a.owner with
  | .anyObject => .ok { a with sum := a.sum ++ [.any] }
  | .pendingName => a.flushName
  | .lastAlternative => .ok a

/-- Takes character number `index` of a text, which is `c` and stands in front of `rest`. A
constraint list is taken as a whole. -/
def step (text : List Char) (index : Nat) (a : Assembly) (c : Char) (rest : List Char) :
    Except DefinitionError (Assembly × Nat) :=
  match c with
  | '|' => do
    let a ← a.flushName
    return ({ a with owner := .anyObject }, 0)
  | '<' => do
    let a ← a.flushName
    return ({ a with outer := (a.sum, []) :: a.outer, sum := [], owner := .anyObject }, 0)
  | ',' => do
    let a ← a.flushName
    let a ← a.endSlot
    return ({ a with owner := .anyObject }, 0)
  | '>' => do
    let a ← a.flushName
    let a ← a.endSlot
    let a ← a.endCollection
    return ({ a with owner := .lastAlternative }, 0)
  | '(' => do
    let a ← a.openList
    let (constraints, used) ← Constraints.read text [] [] (index + 1) 0 rest
    let sum ← modifyLast (.ok ∘ Alternative.constrainedBy constraints) a.sum
    return ({ a with sum, owner := .lastAlternative }, used)
  | c =>
    if Text.isWhiteSpace c then .ok (a, 0)
    else .ok ({ a with name := a.name ++ [c], owner := .pendingName }, 0)

/-- The expression at the end of a text. -/
def finish (a : Assembly) : Except DefinitionError TypeExpr := do
  let a ← a.flushName
  if a.outer.isEmpty then TypeExpr.ofAlternatives a.sum
  else .error (.misshapen .openCollection)

end Assembly

namespace Assembly

/-! ## Stacks -/

/-- The stack, from its top down: the sum at hand and, for each collection that is open, its slots
and the sum that it stands in. -/
def frames (a : Assembly) : List Parser.Frame :=
  .sum a.sum :: a.outer.flatMap fun kept => [.slots kept.2, .sum kept.1]

/-- The parser with the contents of an assembly. -/
def toParser (a : Assembly) : Parser where
  stack := a.frames
  name := a.name
  owner := a.owner

theorem toParser_initial : initial.toParser = Parser.initial :=
  rfl

variable {a : Assembly}

theorem closeName_toParser : a.toParser.closeName = a.flushName.map toParser := by
  unfold Parser.closeName flushName
  change (if a.name.isEmpty then _ else _) = _
  split
  · rfl
  · change (Alternative.ofWritten a.name >>= _) = _
    cases Alternative.ofWritten a.name with
    | error e => rfl
    | ok alternative => rfl

theorem openList_toParser : a.toParser.openList = a.openList.map toParser := by
  obtain ⟨outer, sum, name, owner⟩ := a
  cases owner with
  | anyObject => rfl
  | pendingName => exact closeName_toParser
  | lastAlternative => rfl

/-- What lies on the stack below the sum at hand. -/
def below (a : Assembly) : List Parser.Frame :=
  a.outer.flatMap fun kept => [.slots kept.2, .sum kept.1]

/-- With its last slot complete, a collection has no sum on its slots. -/
theorem closeSlot_toParser :
    a.toParser.closeSlot = a.endSlot.map fun b => { b.toParser with stack := b.below } := by
  obtain ⟨outer, sum, name, owner⟩ := a
  unfold Parser.closeSlot endSlot
  dsimp only [toParser, frames]
  cases TypeExpr.ofAlternatives sum with
  | error e => rfl
  | ok slot =>
      cases outer with
      | nil => rfl
      | cons kept outer => rfl

theorem exists_of_endSlot {b : Assembly} (h : a.endSlot = .ok b) :
    ∃ slot sum slots outer,
      b = ⟨(sum, slots ++ [slot]) :: outer, [], a.name, a.owner⟩ := by
  unfold endSlot at h
  cases hslot : TypeExpr.ofAlternatives a.sum with
  | error e =>
      rw [hslot] at h
      contradiction
  | ok slot =>
      rw [hslot] at h
      cases houter : a.outer with
      | nil =>
          rw [houter] at h
          contradiction
      | cons kept outer =>
          rw [houter] at h
          exact ⟨slot, kept.1, kept.2, outer, (Except.ok.inj h).symm⟩

/-- With a slot that has just been completed, no collection is without slots. -/
theorem closeCollection_of_endSlot {b : Assembly} (h : a.endSlot = .ok b) :
    { b.toParser with stack := b.below }.closeCollection = b.endCollection.map toParser := by
  obtain ⟨slot, sum, slots, outer, rfl⟩ := exists_of_endSlot h
  have hslots : (slots ++ [slot]).isEmpty = false := by simp
  change Parser.closeCollection ⟨.slots (slots ++ [slot]) :: .sum sum :: _, a.name, a.owner⟩ = _
  unfold Parser.closeCollection endCollection modifyLast
  dsimp only
  rw [hslots, if_neg Bool.false_ne_true]
  unfold Parser.pop
  dsimp only
  cases sum.getLast? with
  | none => rfl
  | some alternative =>
      dsimp only
      unfold Alternative.holding
      rw [hslots]
      rfl

/-! ## Steps -/

theorem step_of_notMem {text : List Char} {index : Nat} {c : Char} {rest : List Char}
    (hc : c ∉ ['|', '<', ',', '>', '(']) :
    step text index a c rest =
      if Text.isWhiteSpace c then .ok (a, 0)
      else .ok ({ a with name := a.name ++ [c], owner := .pendingName }, 0) := by
  unfold step
  split
  all_goals first | rfl | exact absurd (by decide) hc

theorem bind_toParser {x : Except DefinitionError Assembly}
    {f : Parser → Except DefinitionError (Parser × Nat)}
    {g : Assembly → Except DefinitionError (Assembly × Nat)}
    (h : ∀ b, f b.toParser = (g b).map (Prod.map toParser id)) :
    (x.map toParser >>= f) = (x >>= g).map (Prod.map toParser id) := by
  cases x with
  | error e => rfl
  | ok b => exact h b

/-- What a parser does with the contents of an assembly is what the assembly does. -/
theorem step_toParser (text : List Char) (index : Nat) (c : Char) (rest : List Char) :
    Parser.step text index a.toParser c rest =
      (step text index a c rest).map (Prod.map toParser id) := by
  by_cases hc : c ∉ ['|', '<', ',', '>', '(']
  · rw [Parser.step_of_notMem hc, step_of_notMem hc]
    split <;> rfl
  simp only [List.mem_cons, List.not_mem_nil, or_false, Decidable.not_not] at hc
  obtain rfl | rfl | rfl | rfl | rfl := hc
  · change (a.toParser.closeName >>= _) = (a.flushName >>= _).map _
    rw [closeName_toParser]
    exact bind_toParser fun _ => rfl
  · change (a.toParser.closeName >>= _) = (a.flushName >>= _).map _
    rw [closeName_toParser]
    exact bind_toParser fun _ => rfl
  · change (a.toParser.closeName >>= _) = (a.flushName >>= _).map _
    rw [closeName_toParser]
    refine bind_toParser fun b => ?_
    change (b.toParser.closeSlot >>= _) = (b.endSlot >>= _).map _
    rw [closeSlot_toParser]
    cases hslot : b.endSlot with
    | error e => rfl
    | ok next =>
        -- the new sum is put on what lies below the one that has become a slot
        obtain ⟨slot, sum, slots, outer, rfl⟩ := exists_of_endSlot hslot
        rfl
  · change (a.toParser.closeName >>= _) = (a.flushName >>= _).map _
    rw [closeName_toParser]
    refine bind_toParser fun b => ?_
    change (b.toParser.closeSlot >>= _) = (b.endSlot >>= _).map _
    rw [closeSlot_toParser]
    cases hslot : b.endSlot with
    | error e => rfl
    | ok next =>
        change (Parser.closeCollection _ >>= _) = (next.endCollection >>= _).map _
        rw [closeCollection_of_endSlot hslot]
        exact bind_toParser fun _ => rfl
  · change (a.toParser.openList >>= _) = (a.openList >>= _).map _
    rw [openList_toParser]
    refine bind_toParser fun b => ?_
    change (Constraints.read text [] [] (index + 1) 0 rest >>= _) = Except.map _ (_ >>= _)
    cases Constraints.read text [] [] (index + 1) 0 rest with
    | error e => rfl
    | ok read =>
        change (Parser.pop b.toParser >>= _) = (modifyLast _ b.sum >>= _).map _
        unfold Parser.pop modifyLast
        dsimp only [toParser, frames]
        cases b.sum.getLast? <;> rfl

theorem finish_toParser : a.toParser.finish = a.finish := by
  unfold Parser.finish finish
  rw [closeName_toParser]
  cases a.flushName with
  | error e => rfl
  | ok b =>
      obtain ⟨outer, sum, name, owner⟩ := b
      cases outer <;> rfl

/-- Every state that a run of the parser comes by is that of an assembly, which takes the same
steps. So the frames alternate on every stack, and nothing that was asked of a frame is denied. -/
theorem exists_of_passes {text front rest : List Char} {p : Parser}
    (h : Text.Passes (Parser.step text) Parser.initial text front p rest) :
    ∃ a : Assembly, a.toParser = p ∧ Text.Passes (step text) initial text front a rest := by
  rw [← toParser_initial] at h
  exact h.exists_of_map fun index a c rest => a.step_toParser text index c rest

end Assembly

/-- A definition is put together in the same way without a stack. -/
theorem TypeExpr.assemble_eq (text : List Char) :
    TypeExpr.assemble text =
      Text.scan (Assembly.step text) 0 0 Assembly.initial text >>= Assembly.finish := by
  rw [TypeExpr.assemble, ← Assembly.toParser_initial, Text.scan_map
    fun index a c rest => Assembly.step_toParser text index c rest]
  cases Text.scan (Assembly.step text) 0 0 Assembly.initial text with
  | error e => rfl
  | ok a => exact a.finish_toParser

end DynTypes
