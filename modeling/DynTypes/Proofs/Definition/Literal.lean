import DynTypes.Proofs.Definition.Outline
/-!
# Where a delimited literal ends

`Delimiter.span` counts the characters of a literal. Here the count is tied to the grammar: the
span of a literal that an outline writes is its text, and wherever there is a span, the text
starts with a literal of that length.
-/

namespace DynTypes

theorem Delimiter.eq_toChar_of_ofChar? {c : Char} {kind : Delimiter}
    (h : Delimiter.ofChar? c = some kind) : c = kind.toChar := by
  unfold Delimiter.ofChar? at h
  split at h
  · obtain rfl := Option.some.inj h
    rfl
  · obtain rfl := Option.some.inj h
    rfl
  · contradiction

namespace Outline

variable {closing : Char} {body rest : List Char}

theorem bodyLength?_append (hclosing : closing ≠ '\\') (hbody : Units closing body)
    (rest : List Char) :
    Delimiter.bodyLength? closing (body ++ closing :: rest) = some body.length := by
  induction hbody with
  | nil => simp [Delimiter.bodyLength?, hclosing]
  | plain hbackslash hne _ ih =>
      rw [List.cons_append, Delimiter.bodyLength?, if_neg hne, ih]
      · rfl
      · exact fun h => absurd h hbackslash
      · exact fun _ _ h => absurd h hbackslash
  | escaped _ ih =>
      simp only [List.cons_append, Delimiter.bodyLength?, ih]
      rfl

/-- A character that starts no escape, although escapes were looked for, is no backslash. -/
theorem ne_backslash {c : Char} {rest : List Char} (hlone : c = '\\' → rest = [] → False)
    (hpair : ∀ d tail, c = '\\' → rest = d :: tail → False) : c ≠ '\\' := by
  intro hc
  cases rest with
  | nil => exact hlone hc rfl
  | cons d tail => exact hpair d tail hc rfl

theorem exists_units_of_bodyLength? {text : List Char} {n : Nat}
    (h : Delimiter.bodyLength? closing text = some n) :
    ∃ body rest, text = body ++ closing :: rest ∧ Units closing body ∧ body.length = n := by
  fun_induction Delimiter.bodyLength? closing text generalizing n with
  | case1 => contradiction
  | case2 => contradiction
  | case3 c rest ih =>
      obtain ⟨m, hm, rfl⟩ := Option.map_eq_some_iff.1 h
      obtain ⟨body, rest, rfl, hbody, rfl⟩ := ih hm
      exact ⟨'\\' :: c :: body, rest, rfl, .escaped hbody, rfl⟩
  | case4 rest =>
      obtain rfl : 0 = n := by simpa using h
      exact ⟨[], rest, rfl, .nil, rfl⟩
  | case5 c rest hlone hpair hne ih =>
      have hbackslash : c ≠ '\\' := ne_backslash hlone hpair
      obtain ⟨m, hm, rfl⟩ := Option.map_eq_some_iff.1 h
      obtain ⟨body, rest, rfl, hbody, rfl⟩ := ih hm
      exact ⟨c :: body, rest, rfl, .plain hbackslash hne hbody, rfl⟩

/-- No flag of a regular expression stands in front of the text. -/
def StartsWithoutFlag (text : List Char) : Prop :=
  ∀ c ∈ text.head?, c ∉ literalFlags

theorem flagsLength_append {flags : List Char} (hflags : ∀ c ∈ flags, c ∈ literalFlags)
    (hrest : StartsWithoutFlag rest) : Delimiter.flagsLength (flags ++ rest) = flags.length := by
  have hall : ∀ c ∈ flags, literalFlags.contains c = true := by
    intro c hc
    exact List.contains_iff_mem.2 (hflags c hc)
  have hnone : rest.takeWhile literalFlags.contains = [] := by
    cases rest with
    | nil => rfl
    | cons c rest =>
        rw [List.takeWhile_cons_of_neg]
        simpa using hrest c rfl
  rw [Delimiter.flagsLength, List.takeWhile_append_of_pos hall, hnone, List.append_nil]

theorem mem_literalFlags_of_mem_takeWhile {text : List Char} {c : Char}
    (h : c ∈ text.takeWhile literalFlags.contains) : c ∈ literalFlags :=
  List.contains_iff_mem.1 (List.all_eq_true.1 List.all_takeWhile c h)

theorem startsWithoutFlag_dropWhile (text : List Char) :
    StartsWithoutFlag (text.dropWhile literalFlags.contains) := by
  intro c hc hflag
  have hnot := List.head?_dropWhile_not literalFlags.contains text
  rw [Option.mem_def.1 hc] at hnot
  exact Bool.false_ne_true (hnot.symm.trans (List.contains_iff_mem.2 hflag))

/-- Whether a value stands between delimiters. -/
def Value.isLiteral : Value → Bool
  | .bare _ => false
  | .quoted _ _ | .regex _ _ _ _ _ => true

theorem Value.exists_opener {value : Value} (hvalue : value.isLiteral = true) :
    ∃ opener tail, value.text = opener :: tail ∧ (opener = '"' ∨ opener = '/') := by
  cases value with
  | bare token => contradiction
  | quoted body units_body => exact ⟨'"', body ++ ['"'], rfl, .inl rfl⟩
  | regex body flags units_body body_ne_nil flags_subset =>
      exact ⟨'/', body ++ '/' :: flags, rfl, .inr rfl⟩

theorem Value.exists_text {kind : Delimiter} (hbody : Units kind.toChar body) (hne : body ≠ []) :
    ∃ value : Value, value.isLiteral = true ∧
      value.text = kind.toChar :: body ++ [kind.toChar] := by
  cases kind with
  | quote => exact ⟨.quoted body hbody, rfl, rfl⟩
  | slash => exact ⟨.regex body [] hbody hne (List.forall_mem_nil _), rfl, rfl⟩

/-- What follows does not prolong the value: behind a regular expression stands no flag. -/
def Value.EndsBefore (value : Value) (rest : List Char) : Prop :=
  match value with
  | .regex _ _ _ _ _ => StartsWithoutFlag rest
  | .bare _ | .quoted _ _ => True

theorem StartsWithoutFlag.endsBefore (h : StartsWithoutFlag rest) (value : Value) :
    value.EndsBefore rest := by
  cases value with
  | regex body flags units_body body_ne_nil flags_subset => exact h
  | _ => trivial

theorem Value.EndsBefore.congr {value : Value} {rest' : List Char} (h : value.EndsBefore rest)
    (hhead : rest.head? = rest'.head?) : value.EndsBefore rest' := by
  cases value with
  | regex body flags units_body body_ne_nil flags_subset =>
      intro c hc
      exact h c (hhead ▸ hc)
  | _ => trivial

/-- A literal that no further flag follows is spanned to its end. -/
theorem Value.span_text {value : Value} (hvalue : value.isLiteral = true)
    (hrest : value.EndsBefore rest) (text : List Char) (index : Nat) :
    ∃ opener tail, value.text = opener :: tail ∧ (opener = '"' ∨ opener = '/') ∧
      Delimiter.span text index opener (tail ++ rest) = .ok tail.length := by
  cases value with
  | bare token => contradiction
  | quoted body units_body =>
      refine ⟨'"', body ++ ['"'], rfl, .inl rfl, ?_⟩
      have hlength := bodyLength?_append (by decide) units_body rest
      simp [Delimiter.span, Delimiter.ofChar?, Delimiter.toChar, hlength]
  | regex body flags units_body body_ne_nil flags_subset =>
      refine ⟨'/', body ++ '/' :: flags, rfl, .inr rfl, ?_⟩
      have hlength := bodyLength?_append (by decide) units_body (flags ++ rest)
      obtain ⟨n, hn⟩ := Nat.exists_eq_add_one_of_ne_zero
        (fun h => body_ne_nil (List.length_eq_zero_iff.1 h))
      have hdrop : (body ++ '/' :: (flags ++ rest)).drop (n + 1 + 1) = flags ++ rest := by
        rw [← hn]
        simp [List.drop_append]
      rw [hn] at hlength
      simp [Delimiter.span, Delimiter.ofChar?, Delimiter.toChar, hlength, hn, hdrop,
        flagsLength_append flags_subset hrest]
      omega

/-- Where there is a span, the text starts with a literal of that length. -/
theorem exists_value_of_span {text behind : List Char} {index used : Nat} {opener : Char}
    (h : Delimiter.span text index opener behind = .ok used) :
    ∃ (value : Value) (tail rest : List Char), value.isLiteral = true ∧
      value.text = opener :: tail ∧ behind = tail ++ rest ∧ tail.length = used ∧
      value.EndsBefore rest := by
  unfold Delimiter.span at h
  split at h
  · contradiction
  case h_2 kind hkind =>
    obtain rfl := Delimiter.eq_toChar_of_ofChar? hkind
    split at h
    · contradiction
    case h_2 n hn =>
      obtain rfl : n + 1 = used := by simpa using h
      obtain ⟨body, rest, rfl, hbody, rfl⟩ := exists_units_of_bodyLength? hn
      refine ⟨.quoted body hbody, body ++ ['"'], rest, rfl, rfl, ?_, ?_, trivial⟩
      · simp [Delimiter.toChar]
      · simp
    · contradiction
    case h_4 n hzero hn =>
      obtain ⟨body, rest, rfl, hbody, rfl⟩ := exists_units_of_bodyLength? hn
      have hne : body ≠ [] := fun hnil => hzero (by rw [hnil]; rfl)
      have hflags : ∀ c ∈ rest.takeWhile literalFlags.contains, c ∈ literalFlags :=
        fun _ hc => mem_literalFlags_of_mem_takeWhile hc
      have hdrop : (body ++ '/' :: rest).drop (body.length + 1) = rest := by
        simp [List.drop_append]
      rw [show Delimiter.slash.toChar = '/' from rfl, hdrop] at h
      obtain rfl : body.length + 1 + Delimiter.flagsLength rest = used := by simpa using h
      refine ⟨.regex body _ hbody hne hflags, body ++ '/' :: rest.takeWhile literalFlags.contains,
        rest.dropWhile literalFlags.contains, rfl, rfl, ?_, ?_, startsWithoutFlag_dropWhile rest⟩
      · simp [Delimiter.toChar, List.takeWhile_append_dropWhile]
      · simp only [List.length_append, List.length_cons, Delimiter.flagsLength]
        omega

end Outline

end DynTypes
