/-!
# Reading a text from left to right

Readers of this library share one recursion: a step sees the character at hand and the text after
it, and may use up some of the characters that follow. The text itself bounds the reading, so
every reader is total without a counter.
-/

namespace DynTypes.Text

/-- Reads `text` from its character number `index` on, after passing over `skip` characters.

A step is given the index, the state, the character and the text behind it; it answers with the
new state and with the number of characters behind it that it has used up. -/
def scan {m : Type → Type} [Monad m] {σ : Type}
    (step : Nat → σ → Char → List Char → m (σ × Nat)) :
    (index skip : Nat) → σ → (text : List Char) → m σ
  | _, _, state, [] => pure state
  | index, skip + 1, state, _ :: rest => scan step (index + 1) skip state rest
  | index, 0, state, c :: rest => do
    let (next, used) ← step index state c rest
    scan step (index + 1) used next rest

section Equations

variable {m : Type → Type} [Monad m] {σ : Type}
  (step : Nat → σ → Char → List Char → m (σ × Nat))

@[simp] theorem scan_nil (index skip : Nat) (state : σ) :
    scan step index skip state [] = pure state := by
  cases skip <;> rfl

@[simp] theorem scan_succ (index skip : Nat) (state : σ) (c : Char) (rest : List Char) :
    scan step index (skip + 1) state (c :: rest) = scan step (index + 1) skip state rest :=
  rfl

theorem scan_zero (index : Nat) (state : σ) (c : Char) (rest : List Char) :
    scan step index 0 state (c :: rest) =
      (step index state c rest >>= fun (next, used) => scan step (index + 1) used next rest) :=
  rfl

/-- What is passed over does not matter. -/
theorem scan_length_append (index : Nat) (state : σ) (chunk rest : List Char) :
    scan step index chunk.length state (chunk ++ rest) =
      scan step (index + chunk.length) 0 state rest := by
  induction chunk generalizing index with
  | nil => rfl
  | cons c chunk ih =>
    rw [List.length_cons, List.cons_append, scan_succ, ih, Nat.add_assoc, Nat.add_comm 1]

/-- What a step uses up is gone over at once. -/
theorem scan_of_step [LawfulMonad m] {index : Nat} {state next : σ} {c : Char}
    {taken rest : List Char}
    (hstep : step index state c (taken ++ rest) = pure (next, taken.length)) :
    scan step index 0 state (c :: (taken ++ rest)) =
      scan step (index + (c :: taken).length) 0 next rest := by
  rw [scan_zero, hstep, pure_bind]
  dsimp only
  rw [scan_length_append, List.length_cons, Nat.add_assoc, Nat.add_comm 1]

end Equations

/-- How many characters a reader has used that went from `before` to `after`. -/
def used (before after : List Char) : Nat :=
  before.length - after.length

end DynTypes.Text
