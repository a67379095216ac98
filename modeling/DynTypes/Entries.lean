/-!
# Entries by name

Values under names, in the order in which the names were first put in.
-/

namespace DynTypes

/-- Values under names. -/
abbrev Entries (α : Type) := List (String × α)

namespace Entries

variable {α : Type}

def find? (entries : Entries α) (name : String) : Option α :=
  entries.lookup name

/-- Puts a value under a name. A name that is there already keeps its place. -/
def insert (entries : Entries α) (name : String) (value : α) : Entries α :=
  match entries with
  | [] => [(name, value)]
  | (other, old) :: rest =>
    if other = name then (name, value) :: rest
    else (other, old) :: insert rest name value

/-- Takes a name away, with its value. -/
def erase (entries : Entries α) (name : String) : Entries α :=
  entries.eraseP (·.1 == name)

theorem find?_insert_self (name : String) (value : α) (entries : Entries α) :
    find? (insert entries name value) name = some value := by
  induction entries with
  | nil => simp [insert, find?]
  | cons entry rest ih =>
    obtain ⟨other, old⟩ := entry
    by_cases h : other = name
    · simp [insert, find?, h]
    · have h' : (name == other) = false := by simpa using fun heq => h heq.symm
      simpa [insert, find?, h, List.lookup_cons, h'] using ih

theorem find?_insert_of_ne {name name' : String} (h : name' ≠ name) (value : α)
    (entries : Entries α) : find? (insert entries name value) name' = find? entries name' := by
  have hne : (name' == name) = false := by simpa using h
  induction entries with
  | nil => simp [insert, find?, List.lookup_cons, hne]
  | cons entry rest ih =>
    obtain ⟨other, old⟩ := entry
    by_cases ho : other = name
    · subst ho
      simp [insert, find?, List.lookup_cons, hne]
    · simp only [insert, ho, if_false, find?, List.lookup_cons] at ih ⊢
      split <;> simp_all

theorem find?_concat (entries : Entries α) (name other : String) (value : α) :
    find? (entries ++ [(name, value)]) other =
      (find? entries other).or (if other = name then some value else none) := by
  rw [find?, List.lookup_append, List.lookup_cons]
  by_cases h : other = name
  · simp [h, find?]
  · simp [h, beq_eq_false_iff_ne.2 h, find?]

theorem find?_eq_none_iff {entries : Entries α} {name : String} :
    find? entries name = none ↔ ∀ entry ∈ entries, entry.1 ≠ name := by
  simp only [find?, List.lookup_eq_none_iff, bne_iff_ne, ne_comm]

theorem insert_of_find?_eq_none {entries : Entries α} {name : String}
    (h : find? entries name = none) (value : α) :
    insert entries name value = entries ++ [(name, value)] := by
  rw [find?_eq_none_iff] at h
  induction entries with
  | nil => rfl
  | cons entry rest ih =>
    rw [List.forall_mem_cons] at h
    rw [insert, if_neg h.1, ih h.2, List.cons_append]

theorem insert_concat {entries : Entries α} {name : String} (h : find? entries name = none)
    (old value : α) :
    insert (entries ++ [(name, old)]) name value = entries ++ [(name, value)] := by
  rw [find?_eq_none_iff] at h
  induction entries with
  | nil => exact if_pos rfl
  | cons entry rest ih =>
    rw [List.forall_mem_cons] at h
    rw [List.cons_append, insert, if_neg h.1, ih h.2, List.cons_append]

theorem erase_concat {entries : Entries α} {name : String} (h : find? entries name = none)
    (value : α) : erase (entries ++ [(name, value)]) name = entries := by
  rw [find?_eq_none_iff] at h
  rw [erase, List.eraseP_append_right _ fun entry hentry => by simpa using h entry hentry]
  simp

end Entries

end DynTypes
