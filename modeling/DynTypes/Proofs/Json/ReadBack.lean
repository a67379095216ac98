import DynTypes.Proofs.Json.Scanning
/-!
# Reading what was written

The compact form of a tree is read as the tree that was written, so no two trees share a form.
-/

namespace DynTypes.Json

mutual

/-- The tree as it is written. -/
def written : Json String Int → Written
  | null => null
  | bool value => bool value
  | number value => number (.ofInt value)
  | text value => text (some value)
  | array items => array (writtenItems items)
  | object members => object (writtenMembers members)

/-- Each item as it is written. -/
def writtenItems : List (Json String Int) → List Written
  | [] => []
  | item :: rest => item.written :: writtenItems rest

/-- Each member as it is written. -/
def writtenMembers : List (String × Json String Int) → List (Option String × Written)
  | [] => []
  | (key, value) :: rest => (some key, value.written) :: writtenMembers rest

end

theorem intercalate_cons_eq_flatMap {α : Type} (separator : α) (first : List α)
    (rest : List (List α)) :
    [separator].intercalate (first :: rest) = first ++ rest.flatMap (separator :: ·) := by
  induction rest generalizing first with
  | nil => rw [List.intercalate_singleton, List.flatMap_nil, List.append_nil]
  | cons second rest ih =>
      rw [List.intercalate_cons_cons, ih, List.flatMap_cons, List.append_assoc,
        List.singleton_append, List.cons_append]

/-- The first item of an array is read like any value. -/
theorem foldlM_firstItem (tree : Json String Int) (stack : List Frame) (rest : List Token) :
    (tree.tokens ++ rest).foldlM Progress.step? (.firstItem stack) =
      (tree.tokens ++ rest).foldlM Progress.step? (.value (.array [] :: stack)) := by
  cases tree <;> rfl

mutual

/-- The tokens of a tree are read as the tree, inside whatever is open and in front of whatever
follows. -/
theorem foldlM_tokens (stack : List Frame) (rest : List Token) : (tree : Json String Int) →
    (tree.tokens ++ rest).foldlM Progress.step? (.value stack) =
      rest.foldlM Progress.step? (.ended tree.written stack)
  | null | bool _ | number _ | text _ | array [] | object [] => rfl
  | array (item :: items) => by
    rw [tokens, itemsTokens, intercalate_cons_eq_flatMap, List.append_assoc, List.cons_append,
      List.append_assoc]
    -- only behind the bracket no comma stands in front of an item
    refine (foldlM_firstItem item stack _).trans ?_
    rw [foldlM_tokens]
    exact foldlM_itemsTokens stack rest item.written [] items
  | object ((key, value) :: members) => by
    rw [tokens, membersTokens, intercalate_cons_eq_flatMap, List.append_assoc, List.cons_append,
      List.append_assoc]
    refine (foldlM_tokens (.object [] (some key) :: stack) _ value).trans ?_
    exact foldlM_membersTokens stack rest (some key) value.written [] members

/-- What is left of an array behind one of its items. -/
theorem foldlM_itemsTokens (stack : List Frame) (rest : List Token) (item : Written)
    (done : List Written) : (items : List (Json String Int)) →
    ((itemsTokens items).flatMap (Token.comma :: ·) ++ ([Token.closeArray] ++ rest)).foldlM
        Progress.step? (.ended item (.array done :: stack)) =
      rest.foldlM Progress.step?
        (.ended (.array ((item :: done).reverse ++ writtenItems items)) stack)
  | [] => by
    rw [writtenItems, List.append_nil]
    rfl
  | next :: items => by
    rw [itemsTokens, List.flatMap_cons, List.append_assoc]
    refine (foldlM_tokens (.array (item :: done) :: stack) _ next).trans ?_
    rw [foldlM_itemsTokens, List.reverse_cons, List.append_assoc]
    rfl

/-- What is left of an object behind one of its members. -/
theorem foldlM_membersTokens (stack : List Frame) (rest : List Token) (key : Option String)
    (value : Written) (done : List (Option String × Written)) :
    (members : List (String × Json String Int)) →
    ((membersTokens members).flatMap (Token.comma :: ·) ++ ([Token.closeObject] ++ rest)).foldlM
        Progress.step? (.ended value (.object done key :: stack)) =
      rest.foldlM Progress.step?
        (.ended (.object (((key, value) :: done).reverse ++ writtenMembers members)) stack)
  | [] => by
    rw [writtenMembers, List.append_nil]
    rfl
  | (nextKey, next) :: members => by
    rw [membersTokens, List.flatMap_cons, List.append_assoc]
    refine (foldlM_tokens (.object ((key, value) :: done) nextKey :: stack) _ next).trans ?_
    rw [foldlM_membersTokens, List.reverse_cons, List.append_assoc]
    rfl

end

/-- The compact form of a tree is read as the tree. -/
theorem ofText?_compact (tree : Json String Int) : ofText? tree.compact = some tree.written := by
  have hfold := foldlM_tokens [] [] tree
  rw [List.append_nil, List.foldlM_nil] at hfold
  rw [ofText?, Token.ofText?_compact]
  show (tree.tokens.foldlM Progress.step? (.value [])).bind _ = _
  rw [hfold]
  rfl

theorem ofInt_injective : Function.Injective Numeral.ofInt := by
  intro m n h
  have hsign : m < 0 ↔ n < 0 := by simpa [Numeral.ofInt] using congrArg Numeral.negative h
  have hwhole : Nat.toDigits 10 m.natAbs = Nat.toDigits 10 n.natAbs := congrArg Numeral.whole h
  have habs : m.natAbs = n.natAbs := by
    calc
      m.natAbs = Nat.ofDigitChars 10 (Nat.toDigits 10 m.natAbs) 0 :=
        Nat.ofDigitChars_ten_toDigits.symm
      _ = Nat.ofDigitChars 10 (Nat.toDigits 10 n.natAbs) 0 := by rw [hwhole]
      _ = n.natAbs := Nat.ofDigitChars_ten_toDigits
  omega

mutual

theorem eq_of_written_eq : (tree other : Json String Int) → tree.written = other.written →
    tree = other
  | null, other, h | bool _, other, h | text _, other, h => by
    cases other <;> simp_all [written]
  | number _, other, h => by
    cases other <;> simp_all [written, ofInt_injective.eq_iff]
  | array items, other, h => by
    cases other <;> simp_all [written]
    exact eq_of_writtenItems_eq _ _ h
  | object members, other, h => by
    cases other <;> simp_all [written]
    exact eq_of_writtenMembers_eq _ _ h

theorem eq_of_writtenItems_eq : (items others : List (Json String Int)) →
    writtenItems items = writtenItems others → items = others
  | [], [], _ => rfl
  | item :: items, other :: others, h => by
    rw [writtenItems, writtenItems, List.cons.injEq] at h
    rw [eq_of_written_eq item other h.1, eq_of_writtenItems_eq items others h.2]

theorem eq_of_writtenMembers_eq : (members others : List (String × Json String Int)) →
    writtenMembers members = writtenMembers others → members = others
  | [], [], _ => rfl
  | (key, value) :: members, (otherKey, other) :: others, h => by
    rw [writtenMembers, writtenMembers, List.cons.injEq, Prod.mk.injEq, Option.some.injEq] at h
    rw [h.1.1, eq_of_written_eq value other h.1.2, eq_of_writtenMembers_eq members others h.2]

end

/-- Different trees are written differently. -/
theorem compact_injective : Function.Injective (compact : Json String Int → List Char) := by
  intro tree other h
  apply eq_of_written_eq
  rw [← Option.some.injEq, ← ofText?_compact, h, ofText?_compact]

end DynTypes.Json
