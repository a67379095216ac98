import DynTypes.Json.Reader
import DynTypes.Json.Writer
import Mathlib.Data.List.Forall2
import Mathlib.Data.Nat.Digits.Defs
/-!
# The tokens of a compact text

Each part of a tree is written as text that is scanned as the tokens of that part, with any text
behind it that does not prolong its last number.
-/

namespace DynTypes.Json

/-! ## Texts -/

namespace Token

/-- What is read in front of more units. -/
def unitThen (unit : Nat) (outcome : Option (List Nat × List Char)) :
    Option (List Nat × List Char) :=
  outcome.map fun (units, after) => (unit :: units, after)

theorem bind_eq_unitThen (unit : Nat) (outcome : Option (List Nat × List Char)) :
    (do
      let (units, after) ← outcome
      return (unit :: units, after)) = unitThen unit outcome := by
  cases outcome <;> rfl

theorem hexValue4?_hexDigit {n : Nat} (hn : n < 0x20) :
    hexValue4? '0' '0' (Text.hexDigit (n / 16)) (Text.hexDigit n) = some n := by
  have hzero : Text.hexValue? '0' = some 0 := rfl
  simp only [hexValue4?, List.mapM_cons, List.mapM_nil, hzero, Text.hexValue?_hexDigit]
  simp only [Option.pure_def, Option.bind_eq_bind, Option.bind_some, List.foldl_cons,
    List.foldl_nil, Option.some.injEq]
  omega

theorem readUnits_escaped {c letter : Char} (hletter : ofEscape? letter = some c)
    (hne : letter ≠ 'u') (rest : List Char) :
    readUnits ('\\' :: letter :: rest) = unitThen c.toNat (readUnits rest) := by
  rw [readUnits, hletter, ← bind_eq_unitThen]
  · rfl
  · exact fun _ _ _ _ _ h => absurd h hne

theorem readUnits_control {c : Char} (hc : c.toNat < 0x20) (rest : List Char) :
    readUnits ('\\' :: 'u' :: '0' :: '0' :: Text.hexDigit (c.toNat / 16) ::
      Text.hexDigit c.toNat :: rest) = unitThen c.toNat (readUnits rest) := by
  rw [readUnits, hexValue4?_hexDigit hc, ← bind_eq_unitThen]
  rfl

theorem readUnits_plain {c : Char} (hquote : c ≠ '"') (hbackslash : c ≠ '\\')
    (hc : ¬ c.toNat < 0x20) (rest : List Char) :
    readUnits (c :: rest) = unitThen c.toNat (readUnits rest) := by
  rw [readUnits, ← bind_eq_unitThen]
  · simp [hc, hbackslash]
  · exact hquote
  · exact fun _ _ _ _ _ h => absurd h hbackslash
  · exact fun _ _ h => absurd h hbackslash

theorem readUnits_writeChar (c : Char) (rest : List Char) :
    readUnits (writeChar c ++ rest) = unitThen c.toNat (readUnits rest) := by
  unfold writeChar
  split
  case h_8 hquote hbackslash _ _ _ _ _ =>
    split
    · next hc => exact readUnits_control hc rest
    · next hc => exact readUnits_plain hquote hbackslash hc rest
  all_goals exact readUnits_escaped rfl (by decide) rest

theorem readUnits_flatMap (text rest : List Char) :
    readUnits (text.flatMap writeChar ++ '"' :: rest) = some (text.map Char.toNat, rest) := by
  induction text with
  | nil => rfl
  | cons c text ih =>
      rw [List.flatMap_cons, List.append_assoc, readUnits_writeChar, ih]
      rfl

/-- No character is half of a surrogate pair. -/
theorem not_isSurrogate (c : Char) : ¬ (0xD800 ≤ c.toNat ∧ c.toNat < 0xE000) := by
  have hvalid : c.toNat < 0xD800 ∨ 0xDFFF < c.toNat ∧ c.toNat < 0x110000 := c.valid
  omega

theorem joinSurrogates?_map_toNat (text : List Char) :
    joinSurrogates? (text.map Char.toNat) = some text := by
  induction text with
  | nil => rfl
  | cons c text ih =>
      have hc : (decide (0xD800 ≤ c.toNat) && decide (c.toNat < 0xE000)) = false := by
        simpa using not_isSurrogate c
      cases text with
      | nil =>
          rw [List.map_cons, List.map_nil, joinSurrogates?, hc, Char.ofNat_toNat]
          rfl
      | cons d text =>
          rw [List.map_cons, List.map_cons, joinSurrogates?, hc, ← List.map_cons, ih,
            Char.ofNat_toNat]
          rfl

end Token

/-! ## Numbers -/

/-- No character that could belong to a number stands at the start of the text. -/
def StartsOutside (text : List Char) : Prop :=
  ∀ c ∈ text.head?, c.isDigit = false ∧ c ≠ '.' ∧ c ≠ 'e' ∧ c ≠ 'E'

theorem head?_toDigits_ne {n : Nat} (hn : n ≠ 0) : (Nat.toDigits 10 n).head? ≠ some '0' := by
  induction n using Nat.strongRecOn with
  | _ n ih =>
    by_cases hlt : n < 10
    · have hdigit : ∀ m < 10, m ≠ 0 → Nat.digitChar m ≠ '0' := by decide
      rw [Nat.toDigits_of_lt_base hlt]
      simpa using hdigit n hlt hn
    · have hle : 10 ≤ n := Nat.le_of_not_lt hlt
      rw [Nat.toDigits_of_base_le (by decide) hle,
        List.head?_append_of_ne_nil _ Nat.toDigits_ne_nil]
      exact ih (n / 10) (by omega) (by omega)

theorem isNumber_ofInt (n : Int) : Token.isNumber (Numeral.ofInt n) = true := by
  have hne : Nat.toDigits 10 n.natAbs ≠ [] := Nat.toDigits_ne_nil
  have hzero : (Nat.toDigits 10 n.natAbs).head? ≠ some '0' ∨
      (Nat.toDigits 10 n.natAbs).length = 1 := by
    by_cases hn : n.natAbs = 0
    · exact .inr (by rw [hn]; rfl)
    · exact .inl (head?_toDigits_ne hn)
  simp [Token.isNumber, Numeral.ofInt, hne, hzero]

theorem toList_repr (n : Int) :
    n.repr.toList = (if n < 0 then ['-'] else []) ++ Nat.toDigits 10 n.natAbs := by
  rw [Int.repr_eq_if]
  split
  · next h =>
    rw [if_neg (by omega), Nat.toList_repr, List.nil_append]
    congr 1
    omega
  · next h =>
    rw [if_pos (by omega), String.toList_append, Nat.toList_repr]
    have habs : (-n).toNat = n.natAbs := by omega
    rw [habs]
    rfl

theorem cutDigits_append {digits rest : List Char} (hdigits : ∀ c ∈ digits, c.isDigit = true)
    (hrest : StartsOutside rest) : Numeral.cutDigits (digits ++ rest) = (digits, rest) := by
  rw [Numeral.cutDigits, List.takeWhile_append_of_pos hdigits,
    List.dropWhile_append_of_pos hdigits]
  cases rest with
  | nil => simp
  | cons c rest =>
      have hc : c.isDigit = false := (hrest c rfl).1
      simp [hc]

theorem cutFraction_outside {rest : List Char} (hrest : StartsOutside rest) :
    Numeral.cutFraction rest = (none, rest) := by
  unfold Numeral.cutFraction
  split
  · exact absurd rfl (hrest '.' rfl).2.1
  · rfl

theorem cutExponent_outside {rest : List Char} (hrest : StartsOutside rest) :
    Numeral.cutExponent rest = (none, rest) := by
  unfold Numeral.cutExponent
  split
  · exact absurd rfl (hrest 'e' rfl).2.2.1
  · exact absurd rfl (hrest 'E' rfl).2.2.2
  · rfl

theorem cut_repr (n : Int) {rest : List Char} (hrest : StartsOutside rest) :
    Numeral.cut (n.repr.toList ++ rest) = (Numeral.ofInt n, rest) := by
  have hdigits : ∀ c ∈ Nat.toDigits 10 n.natAbs, c.isDigit = true :=
    fun c hc => Nat.isDigit_of_mem_toDigits (by decide) (by decide) hc
  have hcut := cutDigits_append hdigits hrest
  rw [toList_repr]
  by_cases hn : n < 0
  · rw [if_pos hn, List.append_assoc, List.singleton_append, Numeral.cut]
    simp [hcut, cutFraction_outside hrest, cutExponent_outside hrest, Numeral.ofInt, hn]
  · rw [if_neg hn, List.nil_append, Numeral.cut]
    · simp [hcut, cutFraction_outside hrest, cutExponent_outside hrest, Numeral.ofInt, hn]
    · -- a digit in front is no sign
      intro text htext
      have hhead : (Nat.toDigits 10 n.natAbs).head? = some '-' := by
        rw [← List.head?_append_of_ne_nil _ Nat.toDigits_ne_nil, htext, List.head?_cons]
      exact absurd (hdigits '-' (List.mem_of_mem_head? hhead)) (by decide)

/-! ## Tokens -/

mutual

/-- The tokens of the compact form of a tree. -/
def tokens : Json String Int → List Token
  | null => [.null]
  | bool value => [.bool value]
  | number value => [.number (.ofInt value)]
  | text value => [.text (some value)]
  | array items => .openArray :: [Token.comma].intercalate (itemsTokens items) ++ [.closeArray]
  | object members =>
    .openObject :: [Token.comma].intercalate (membersTokens members) ++ [.closeObject]

/-- The tokens of each item. -/
def itemsTokens : List (Json String Int) → List (List Token)
  | [] => []
  | item :: rest => item.tokens :: itemsTokens rest

/-- The tokens of each member. -/
def membersTokens : List (String × Json String Int) → List (List Token)
  | [] => []
  | (key, value) :: rest => (.text (some key) :: .colon :: value.tokens) :: membersTokens rest

end

/-- The text is scanned as the tokens, whatever comes before it and behind it. -/
def Scans (text : List Char) (tokens : List Token) : Prop :=
  ∀ (index : Nat) (before : List Token) (rest : List Char), StartsOutside rest →
    Text.scan Token.step index 0 before (text ++ rest) =
      Text.scan Token.step (index + text.length) 0 (tokens.reverse ++ before) rest

theorem scans_nil : Scans [] [] :=
  fun _ _ _ _ => rfl

theorem Scans.append {front back : List Char} {first second : List Token}
    (hfront : Scans front first) (hback : Scans back second)
    (houtside : ∀ rest, StartsOutside rest → StartsOutside (back ++ rest)) :
    Scans (front ++ back) (first ++ second) := by
  intro index before rest hrest
  rw [List.append_assoc, hfront _ _ _ (houtside rest hrest), hback _ _ _ hrest,
    List.length_append, Nat.add_assoc, List.reverse_append, List.append_assoc]

theorem scans_of_step {c : Char} {chunk : List Char} {token : Token}
    (h : ∀ index before rest, StartsOutside rest →
      Token.step index before c (chunk ++ rest) = some (token :: before, chunk.length)) :
    Scans (c :: chunk) [token] := by
  intro index before rest hrest
  rw [List.cons_append, Text.scan_zero, h index before rest hrest, List.length_cons]
  refine (Text.scan_length_append _ _ _ chunk rest).trans ?_
  rw [Nat.add_assoc, Nat.add_comm 1]
  rfl

theorem startsOutside_cons {c : Char} (h : c.isDigit = false ∧ c ≠ '.' ∧ c ≠ 'e' ∧ c ≠ 'E')
    (rest : List Char) : StartsOutside (c :: rest) := by
  rintro d ⟨⟩
  exact h

theorem step_quote {rest after : List Char} {units : List Nat}
    (hunits : Token.readUnits rest = some (units, after)) (index : Nat) (before : List Token) :
    Token.step index before '"' rest =
      some (.text ((Token.joinSurrogates? units).map String.ofList) :: before,
        Text.used rest after) := by
  unfold Token.step
  dsimp only
  rw [hunits]
  rfl

theorem scans_text (value : String) : Scans (writeText value) [.text (some value)] := by
  refine scans_of_step fun index before rest _ => ?_
  have hunits : Token.readUnits (value.toList.flatMap writeChar ++ ['"'] ++ rest) =
      some (value.toList.map Char.toNat, rest) := by
    rw [List.append_assoc, List.singleton_append, Token.readUnits_flatMap]
  refine (step_quote hunits index before).trans ?_
  rw [Token.joinSurrogates?_map_toNat, Option.map_some, String.ofList_toList, Text.used,
    List.length_append, Nat.add_sub_cancel]
  rfl

theorem step_number {c : Char} (hc : c = '-' ∨ c.isDigit = true) (index : Nat)
    (before : List Token) (rest : List Char) :
    Token.step index before c rest =
      if Token.isNumber (Numeral.cut (c :: rest)).1 then
        some (Token.number (Numeral.cut (c :: rest)).1 :: before,
          Text.used rest (Numeral.cut (c :: rest)).2)
      else none := by
  have hstart : (c == '-' || c.isDigit) = true := by simpa using hc
  unfold Token.step
  dsimp only
  split
  case h_15 => rw [if_pos hstart]
  all_goals exact absurd hc (by decide)

theorem scans_number (value : Int) : Scans value.repr.toList [.number (.ofInt value)] := by
  have hne : value.repr.toList ≠ [] := by
    rw [toList_repr]
    exact List.append_ne_nil_of_right_ne_nil _ Nat.toDigits_ne_nil
  obtain ⟨c, chunk, hcons⟩ := List.exists_cons_of_ne_nil hne
  have hc : c = '-' ∨ c.isDigit = true := by
    have hmem : c ∈ value.repr.toList := hcons ▸ List.mem_cons_self
    rw [toList_repr, List.mem_append] at hmem
    rcases hmem with hmem | hmem
    · exact .inl (by simpa using (List.mem_ite_nil_right.1 hmem).2)
    · exact .inr (Nat.isDigit_of_mem_toDigits (by decide) (by decide) hmem)
  rw [hcons]
  refine scans_of_step fun index before rest hrest => ?_
  have hcut := cut_repr value hrest
  rw [hcons, List.cons_append] at hcut
  rw [step_number hc, hcut, if_pos (isNumber_ofInt value), Text.used, List.length_append,
    Nat.add_sub_cancel]

/-- A character that is a token by itself may stand in front of anything. -/
theorem Scans.cons {c : Char} {token : Token} {text : List Char} {tokens : List Token}
    (hstep : ∀ index before rest, Token.step index before c rest = some (token :: before, 0))
    (htext : Scans text tokens) : Scans (c :: text) (token :: tokens) := by
  intro index before rest hrest
  rw [List.cons_append, Text.scan_zero, hstep]
  refine (htext (index + 1) (token :: before) rest hrest).trans ?_
  rw [List.length_cons, Nat.add_assoc, Nat.add_comm 1, List.reverse_cons, List.append_assoc]
  rfl

/-- A character that is a token by itself may stand behind anything. -/
theorem Scans.concat {c : Char} {token : Token} {text : List Char} {tokens : List Token}
    (htext : Scans text tokens)
    (hstep : ∀ index before rest, Token.step index before c rest = some (token :: before, 0))
    (hc : c.isDigit = false ∧ c ≠ '.' ∧ c ≠ 'e' ∧ c ≠ 'E') :
    Scans (text ++ [c]) (tokens ++ [token]) :=
  htext.append (scans_nil.cons hstep) fun _ _ => startsOutside_cons hc _

theorem scans_intercalate {texts : List (List Char)} {tokens : List (List Token)}
    (h : List.Forall₂ Scans texts tokens) :
    Scans ([','].intercalate texts) ([Token.comma].intercalate tokens) := by
  induction h with
  | nil => exact scans_nil
  | @cons text first texts tokens hfirst hrest ih =>
      cases hrest with
      | nil =>
          rw [List.intercalate_singleton, List.intercalate_singleton]
          exact hfirst
      | cons hsecond hrest =>
          rw [List.intercalate_cons_cons, List.intercalate_cons_cons, List.append_assoc,
            List.append_assoc]
          -- the comma keeps the numbers on its two sides apart
          refine hfirst.append (ih.cons fun _ _ _ => rfl) fun _ _ => ?_
          exact startsOutside_cons (by decide) _

theorem scans_bool (value : Bool) : Scans (writeBool value) [.bool value] := by
  have hfalse : Scans ['f', 'a', 'l', 's', 'e'] [.bool false] := scans_of_step fun _ _ _ _ => rfl
  have htrue : Scans ['t', 'r', 'u', 'e'] [.bool true] := scans_of_step fun _ _ _ _ => rfl
  cases value
  · exact hfalse
  · exact htrue

mutual

/-- What is written is scanned as the tokens of the tree. -/
theorem scans_compact : (tree : Json String Int) → Scans tree.compact tree.tokens
  | null => scans_of_step fun _ _ _ _ => rfl
  | bool value => scans_bool value
  | number value => scans_number value
  | text value => scans_text value
  | array items =>
    ((scans_intercalate (scans_compactItems items)).cons fun _ _ _ => rfl).concat
      (fun _ _ _ => rfl) (by decide)
  | object members =>
    ((scans_intercalate (scans_compactMembers members)).cons fun _ _ _ => rfl).concat
      (fun _ _ _ => rfl) (by decide)

theorem scans_compactItems : (items : List (Json String Int)) →
    List.Forall₂ Scans (compactItems items) (itemsTokens items)
  | [] => .nil
  | item :: rest => .cons (scans_compact item) (scans_compactItems rest)

theorem scans_compactMembers : (members : List (String × Json String Int)) →
    List.Forall₂ Scans (compactMembers members) (membersTokens members)
  | [] => .nil
  | (key, value) :: rest =>
    .cons
      ((scans_text key).append ((scans_compact value).cons fun _ _ _ => rfl) fun _ _ =>
        startsOutside_cons (by decide) _)
      (scans_compactMembers rest)

end

theorem Token.ofText?_compact (tree : Json String Int) :
    Token.ofText? tree.compact = some tree.tokens := by
  have h := scans_compact tree 0 [] [] (by simp [StartsOutside])
  rw [List.append_nil, List.append_nil, Text.scan_nil] at h
  rw [Token.ofText?, h]
  exact congrArg some (List.reverse_reverse _)

end DynTypes.Json
