import DynTypes.Proofs.Checking.Afresh
/-!
# What a cache retains

A definition that is fetched is kept, refused or there already, and no other slot is touched. So
entries stay, a definition that has been refused once is refused until the cache is cleared, and
whatever is kept has been read a single time.
-/

namespace DynTypes.Cache

variable [RegexEngine]

variable {cache : Cache} {definition other : String} {slot : Slot} {result : Compiled}

/-! ## One definition -/

theorem contains_eq_false_iff : cache.contains definition = false ↔
    cache.slot? definition = none :=
  Option.isSome_eq_false_iff.trans Option.isNone_iff_eq_none

theorem contains_of_slot? (h : cache.slot? definition = some slot) :
    cache.contains definition = true := by
  rw [contains, h, Option.isSome_some]

theorem toBool_eq_true_iff : result.toBool = true ↔ ∃ expr, result = .ok expr := by
  cases result <;> simp [Except.toBool]

theorem hasRoom_iff : cache.hasRoom = true ↔
    cache.rules.maxEntries = 0 ∨ cache.size < cache.rules.maxEntries := by
  simp [hasRoom]

theorem takes_iff : cache.takes definition = true ↔
    (cache.rules.maxEntries = 0 ∨ cache.size < cache.rules.maxEntries) ∧
      (cache.rules.cacheErrors = true ∨ ∃ expr, TypeExpr.parse definition = .ok expr) := by
  rw [takes, Bool.and_eq_true, hasRoom_iff, keeps, Bool.or_eq_true, toBool_eq_true_iff]

theorem fetch_of_not_contains (h : cache.contains definition = false) :
    (cache.fetch definition).2 = { cache with
      entries :=
        if cache.takes definition then
          cache.entries ++ [(definition, some (TypeExpr.parse definition))]
        else cache.entries
      misses := cache.misses + 1 } := by
  rw [fetch_of_slot?_eq_none (contains_eq_false_iff.1 h)]

namespace Faithful

theorem slot?_of_contains (h : cache.Faithful) (hc : cache.contains definition = true) :
    cache.slot? definition = some (some (TypeExpr.parse definition)) := by
  refine (h.slot?_eq definition).resolve_left fun hnone => ?_
  rw [contains_eq_false_iff.2 hnone] at hc
  contradiction

/-- No slot is left empty. -/
theorem isSome_get? (h : cache.Faithful) (definition : String) :
    (cache.get? definition).isSome = cache.contains definition := by
  rcases h.slot?_eq definition with hslot | hslot <;> rw [get?, contains, hslot] <;> rfl

theorem fetch_of_contains (h : cache.Faithful) (hc : cache.contains definition = true) :
    (cache.fetch definition).2 = { cache with hits := cache.hits + 1 } := by
  rw [fetch_of_filled (h.slot?_of_contains hc)]

theorem rules_fetch (h : cache.Faithful) (definition : String) :
    (cache.fetch definition).2.rules = cache.rules := by
  cases hc : cache.contains definition with
  | true => rw [h.fetch_of_contains hc]
  | false => rw [fetch_of_not_contains hc]

theorem size_le_size_fetch (h : cache.Faithful) (definition : String) :
    cache.size ≤ (cache.fetch definition).2.size := by
  cases hc : cache.contains definition with
  | true =>
      rw [h.fetch_of_contains hc]
      exact Nat.le_refl _
  | false =>
      rw [fetch_of_not_contains hc]
      dsimp only [size]
      split
      · exact List.length_append ▸ Nat.le_add_right _ _
      · exact Nat.le_refl _

theorem slot?_fetch_of_ne (h : cache.Faithful) (hne : other ≠ definition) :
    (cache.fetch definition).2.slot? other = cache.slot? other := by
  cases hc : cache.contains definition with
  | true =>
      rw [h.fetch_of_contains hc]
      rfl
  | false =>
      rw [fetch_of_not_contains hc]
      dsimp only [slot?]
      split
      · rw [Entries.find?_concat, if_neg hne, Option.or_none]
      · rfl

theorem slot?_fetch_of_some (h : cache.Faithful) (hslot : cache.slot? other = some slot)
    (definition : String) : (cache.fetch definition).2.slot? other = some slot := by
  by_cases hother : other = definition
  · subst hother
    rw [h.fetch_of_contains (contains_of_slot? hslot)]
    exact hslot
  · rw [h.slot?_fetch_of_ne hother, hslot]

theorem contains_fetch_of_contains (h : cache.Faithful) (hc : cache.contains other = true)
    (definition : String) : (cache.fetch definition).2.contains other = true :=
  contains_of_slot? (h.slot?_fetch_of_some (h.slot?_of_contains hc) definition)

/-- What is refused stays refused, since a cache has no more room later on. -/
theorem takes_fetch (h : cache.Faithful) (htakes : cache.takes definition = false)
    (other : String) : (cache.fetch other).2.takes definition = false := by
  have hsize := h.size_le_size_fetch other
  rw [Bool.eq_false_iff, Ne, takes_iff] at htakes ⊢
  rw [h.rules_fetch]
  exact fun hroom => htakes ⟨hroom.1.imp_right (Nat.lt_of_le_of_lt hsize), hroom.2⟩

end Faithful

theorem contains_fetch_self (h : cache.contains definition = false) :
    (cache.fetch definition).2.contains definition = cache.takes definition := by
  rw [fetch_of_not_contains h]
  rw [contains_eq_false_iff] at h
  dsimp only [contains, slot?] at h ⊢
  cases cache.takes definition with
  | true => rw [if_pos rfl, Entries.find?_concat, h, if_pos rfl, Option.none_or, Option.isSome_some]
  | false => rw [if_neg Bool.false_ne_true, h, Option.isSome_none]

/-! ## Counters -/

/-- From one cache to the next so many definitions were asked for. Each was a hit or a miss, and the
counters went on by as many. -/
def Counts (cache next : Cache) (requests : Nat) : Prop :=
  ∃ hits misses : Nat, hits + misses = requests ∧ next.hits = cache.hits + .ofNat hits ∧
    next.misses = cache.misses + .ofNat misses

theorem Counts.refl (cache : Cache) : cache.Counts cache 0 :=
  ⟨0, 0, rfl, (UInt64.add_zero _).symm, (UInt64.add_zero _).symm⟩

theorem Counts.trans {next last : Cache} {m n : Nat} (h : cache.Counts next m)
    (h' : next.Counts last n) : cache.Counts last (m + n) := by
  obtain ⟨hits, misses, rfl, hhits, hmisses⟩ := h
  obtain ⟨hits', misses', rfl, hhits', hmisses'⟩ := h'
  refine ⟨hits + hits', misses + misses', Nat.add_add_add_comm _ _ _ _, ?_, ?_⟩
  · rw [hhits', hhits, UInt64.ofNat_add, UInt64.add_assoc]
  · rw [hmisses', hmisses, UInt64.ofNat_add, UInt64.add_assoc]

/-- Few enough requests are counted as they are. -/
theorem Counts.toNat_add {next : Cache} {n : Nat} (h : cache.Counts next n) (hhits : cache.hits = 0)
    (hmisses : cache.misses = 0) (hn : n < UInt64.size) :
    next.hits.toNat + next.misses.toNat = n := by
  obtain ⟨hits, misses, rfl, hhits', hmisses'⟩ := h
  rw [hhits', hmisses', hhits, hmisses, UInt64.zero_add, UInt64.zero_add,
    UInt64.toNat_ofNat_of_lt' (by omega), UInt64.toNat_ofNat_of_lt' (by omega)]

theorem Faithful.counts_fetch (h : cache.Faithful) (definition : String) :
    cache.Counts (cache.fetch definition).2 1 := by
  cases hc : cache.contains definition with
  | true =>
      rw [h.fetch_of_contains hc]
      exact ⟨1, 0, rfl, rfl, (UInt64.add_zero _).symm⟩
  | false =>
      rw [fetch_of_not_contains hc]
      exact ⟨0, 1, rfl, (UInt64.add_zero _).symm, rfl⟩

/-! ## One definition after another -/

/-- The cache after some definitions have been fetched, one after another. -/
def afterFetches (cache : Cache) (definitions : List String) : Cache :=
  definitions.foldl (fun cache definition => (cache.fetch definition).2) cache

/-- Those of some definitions for which nothing is kept when it is their turn, and so are read. -/
def compiled (cache : Cache) : List String → List String
  | [] => []
  | definition :: rest =>
    let others := compiled (cache.fetch definition).2 rest
    if (cache.get? definition).isSome then others else definition :: others

theorem afterFetches_cons (cache : Cache) (definition : String) (rest : List String) :
    cache.afterFetches (definition :: rest) = (cache.fetch definition).2.afterFetches rest :=
  rfl

theorem afterFetches_append (cache : Cache) (front rest : List String) :
    cache.afterFetches (front ++ rest) = (cache.afterFetches front).afterFetches rest :=
  List.foldl_append

namespace Faithful

/-- Whatever each definition that is fetched keeps, some definitions keep. -/
theorem afterFetches_induction {p : Cache → Prop}
    (hstep : ∀ cache : Cache, cache.Faithful → ∀ definition, p cache →
      p (cache.fetch definition).2)
    (h : cache.Faithful) (hp : p cache) (definitions : List String) :
    p (cache.afterFetches definitions) := by
  induction definitions generalizing cache with
  | nil => exact hp
  | cons definition rest ih => exact ih (h.fetch_snd definition) (hstep cache h definition hp)

theorem slot?_afterFetches_of_some (h : cache.Faithful) (hslot : cache.slot? other = some slot)
    (definitions : List String) : (cache.afterFetches definitions).slot? other = some slot :=
  h.afterFetches_induction (p := fun next => next.slot? other = some slot)
    (fun _ h definition hslot => h.slot?_fetch_of_some hslot definition) hslot definitions

theorem compiled_cons (h : cache.Faithful) (definition : String) (rest : List String) :
    cache.compiled (definition :: rest) =
      if cache.contains definition then (cache.fetch definition).2.compiled rest
      else definition :: (cache.fetch definition).2.compiled rest := by
  rw [compiled, h.isSome_get?]

theorem misses_afterFetches (h : cache.Faithful) (definitions : List String) :
    (cache.afterFetches definitions).misses =
      cache.misses + .ofNat (cache.compiled definitions).length := by
  induction definitions generalizing cache with
  | nil => exact (UInt64.add_zero _).symm
  | cons definition rest ih =>
      rw [afterFetches_cons, ih (h.fetch_snd definition), h.compiled_cons]
      cases hc : cache.contains definition with
      | true => rw [h.fetch_of_contains hc, if_pos rfl]
      | false =>
          rw [if_neg Bool.false_ne_true, List.length_cons, fetch_of_not_contains hc,
            Nat.add_comm, UInt64.ofNat_add, ← UInt64.add_assoc]
          rfl

theorem counts_afterFetches (h : cache.Faithful) (definitions : List String) :
    cache.Counts (cache.afterFetches definitions) definitions.length := by
  induction definitions generalizing cache with
  | nil => exact .refl cache
  | cons definition rest ih =>
      rw [afterFetches_cons, List.length_cons, Nat.add_comm]
      exact (h.counts_fetch definition).trans (ih (h.fetch_snd definition))

/-! ## How often a definition is read -/

theorem count_compiled_of_contains (h : cache.Faithful) (hc : cache.contains definition = true)
    (definitions : List String) : (cache.compiled definitions).count definition = 0 := by
  induction definitions generalizing cache with
  | nil => rfl
  | cons first rest ih =>
      have hrest := ih (h.fetch_snd first) (h.contains_fetch_of_contains hc first)
      rw [h.compiled_cons]
      split
      · exact hrest
      · next hfirst =>
        have hne : first ≠ definition := fun heq => hfirst (heq ▸ hc)
        rw [List.count_cons_of_ne hne, hrest]

theorem contains_afterFetches_of_refused (h : cache.Faithful)
    (hc : cache.contains definition = false) (htakes : cache.takes definition = false)
    (definitions : List String) :
    (cache.afterFetches definitions).contains definition = false := by
  induction definitions generalizing cache with
  | nil => exact hc
  | cons first rest ih =>
      refine ih (h.fetch_snd first) ?_ (h.takes_fetch htakes first)
      by_cases hfirst : definition = first
      · subst hfirst
        rw [contains_fetch_self hc, htakes]
      · rw [contains, h.slot?_fetch_of_ne hfirst]
        exact hc

/-- A definition that comes to be kept has been read exactly once: before that it was not asked
for, since it would have been kept then or refused for good. -/
theorem count_compiled_eq_one (h : cache.Faithful) (hc : cache.contains definition = false)
    {definitions : List String}
    (hafter : (cache.afterFetches definitions).contains definition = true) :
    (cache.compiled definitions).count definition = 1 := by
  induction definitions generalizing cache with
  | nil => exact absurd (hc.symm.trans hafter) Bool.false_ne_true
  | cons first rest ih =>
      rw [afterFetches_cons] at hafter
      rw [h.compiled_cons]
      have hnext := h.fetch_snd first
      by_cases hfirst : definition = first
      · subst hfirst
        have hself := contains_fetch_self hc
        cases htakes : cache.takes definition with
        | true =>
            -- it is kept from here on, so it is not read again
            rw [if_neg (by simp [hc]), List.count_cons_self,
              hnext.count_compiled_of_contains (hself.trans htakes)]
        | false =>
            -- it is refused for good, so it is not there at the end
            have hnever := hnext.contains_afterFetches_of_refused (hself.trans htakes)
              (h.takes_fetch htakes definition) rest
            exact absurd (hnever.symm.trans hafter) Bool.false_ne_true
      · have hslot := congrArg Option.isSome (h.slot?_fetch_of_ne hfirst)
        have hrest := ih hnext (hslot.trans hc) hafter
        split
        · exact hrest
        · rw [List.count_cons_of_ne (Ne.symm hfirst), hrest]

end Faithful

/-! ## What a cache never does -/

/-- A cache keeps no more than its rules allow, and no errors unless they say so. -/
structure KeepsRules (cache : Cache) : Prop where
  size_le : 0 < cache.rules.maxEntries → cache.size ≤ cache.rules.maxEntries
  ok_of_slot? : cache.rules.cacheErrors = false → ∀ definition slot,
    cache.slot? definition = some slot → ∃ expr, slot = some (.ok expr)

theorem keepsRules_of_entries_eq_nil (h : cache.entries = []) : cache.KeepsRules where
  size_le := by simp [size, h]
  ok_of_slot? := by simp [slot?, Entries.find?, h]

theorem KeepsRules.fetch (h : cache.KeepsRules) (hcache : cache.Faithful) (definition : String) :
    (cache.fetch definition).2.KeepsRules := by
  cases hc : cache.contains definition with
  | true =>
      rw [hcache.fetch_of_contains hc]
      exact ⟨h.size_le, h.ok_of_slot?⟩
  | false =>
      rw [fetch_of_not_contains hc]
      split
      · next htakes =>
        obtain ⟨hroom, hkept⟩ := takes_iff.1 htakes
        constructor
        · intro hpos
          simp only [size, List.length_append, List.length_singleton] at hpos hroom ⊢
          omega
        · intro herrors name slot hslot
          rw [slot?, Entries.find?_concat, Option.or_eq_some_iff] at hslot
          rcases hslot with hold | ⟨-, hnew⟩
          · exact h.ok_of_slot? herrors name slot hold
          · split at hnew
            · obtain ⟨expr, hparse⟩ := hkept.resolve_left (Bool.eq_false_iff.1 herrors)
              exact ⟨expr, (Option.some.inj hnew).symm.trans (congrArg some hparse)⟩
            · contradiction
      · exact ⟨h.size_le, h.ok_of_slot?⟩

end DynTypes.Cache
