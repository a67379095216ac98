import DynTypes.Text.Scan
/-!
# Runs over a text

A scan that may fail gives its last state only. Its run comes by all the states in between: each is
told with the part of the text that has been gone over and the part that is still in front.
-/

namespace DynTypes.Text

variable {ε σ τ : Type} {step : Nat → σ → Char → List Char → Except ε (σ × Nat)}

/-- A run over `text` that begins in the state `start` comes to a state, with `front` behind it and
`rest` in front. -/
inductive Passes (step : Nat → σ → Char → List Char → Except ε (σ × Nat)) (start : σ)
    (text : List Char) : List Char → σ → List Char → Prop where
  | start : Passes step start text [] start text
  | step {front taken rest : List Char} {s next : σ} {c : Char}
      (h : Passes step start text front s (c :: (taken ++ rest)))
      (hstep : step front.length s c (taken ++ rest) = .ok (next, taken.length)) :
      Passes step start text (front ++ c :: taken) next rest

namespace Passes

variable {start s next : σ} {text front rest : List Char} {c : Char}

theorem char (h : Passes step start text front s (c :: rest))
    (hstep : step front.length s c rest = .ok (next, 0)) :
    Passes step start text (front ++ [c]) next rest :=
  @Passes.step _ _ _ _ _ front [] rest s next c h hstep

theorem append_eq (h : Passes step start text front s rest) : front ++ rest = text := by
  induction h with
  | start => rfl
  | step _ _ ih => rw [← ih, List.append_assoc, List.cons_append]

/-- The scan of the text goes on from every state of the run. -/
theorem scan_eq (h : Passes step start text front s rest) :
    scan step 0 0 start text = scan step front.length 0 s rest := by
  induction h with
  | start => rfl
  | step _ hstep ih => rw [ih, scan_of_step _ hstep, List.length_append]

end Passes

/-! ## Readers with states of two kinds -/

section Map

variable {step' : Nat → τ → Char → List Char → Except ε (τ × Nat)} {f : σ → τ}

/-- If each state stands for one of another reader, which takes the same steps, so does the whole
scan. -/
theorem scan_map
    (h : ∀ index s c rest, step' index (f s) c rest =
      (step index s c rest).map (Prod.map f id))
    (index skip : Nat) (s : σ) (text : List Char) :
    scan step' index skip (f s) text = (scan step index skip s text).map f := by
  induction text generalizing index skip s with
  | nil => rw [scan_nil, scan_nil]; rfl
  | cons c rest ih =>
      cases skip with
      | succ skip => rw [scan_succ, scan_succ, ih]
      | zero =>
          rw [scan_zero, scan_zero, h]
          cases step index s c rest with
          | error e => rfl
          | ok next => exact ih _ _ _

/-- Then every state that the run of the other reader comes by is stood for. -/
theorem Passes.exists_of_map {start : σ} {text front rest : List Char} {t : τ}
    (hstep : ∀ index s c rest, step' index (f s) c rest =
      (step index s c rest).map (Prod.map f id))
    (h : Passes step' (f start) text front t rest) :
    ∃ s, f s = t ∧ Passes step start text front s rest := by
  induction h with
  | start => exact ⟨start, rfl, .start⟩
  | @step front taken rest t next c _ htaken ih =>
      obtain ⟨s, rfl, hs⟩ := ih
      rw [hstep] at htaken
      cases hs' : step front.length s c (taken ++ rest) with
      | error e =>
          rw [hs'] at htaken
          contradiction
      | ok after =>
          obtain ⟨s', used⟩ := after
          rw [hs'] at htaken
          obtain ⟨rfl, rfl⟩ := Prod.mk.inj (Except.ok.inj htaken)
          exact ⟨s', rfl, hs.step hs'⟩

end Map

end DynTypes.Text
