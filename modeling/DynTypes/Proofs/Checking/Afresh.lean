import DynTypes.Check
/-!
# Checking without a cache

What a check gives if every definition is read at the moment it is needed. `Yields` compares a
check through a cache with that: whatever faithful cache it runs on, it gives the same outcome and
leaves a faithful cache behind.
-/

namespace DynTypes

variable [RegexEngine]

variable {V : Type}

/-- Whether a value matches a definition that is read for this question alone. -/
def acceptsAfresh (registry : Registry V) (view : View V) (definition : String) (v : V) :
    Except MatchError Bool :=
  match TypeExpr.parse definition with
  | .error error => .error (.definition error)
  | .ok expr => expr.accepts registry view v

theorem acceptsAfresh_of_parse {registry : Registry V} {view : View V} {definition : String}
    {expr : TypeExpr} (h : TypeExpr.parse definition = .ok expr) (v : V) :
    acceptsAfresh registry view definition v = expr.accepts registry view v := by
  rw [acceptsAfresh, h]

namespace Host

variable (host : Host V)

def isMatchAfresh (definition : String) (v : V) : Except (CheckFault V) Bool :=
  match TypeExpr.parse definition with
  | .error error => .error (.definition error)
  | .ok expr => (expr.accepts host.registry host.view v).mapError .matching

def ensureAfresh (v : V) (definition : String) : Except (CheckFault V) V := do
  if ← host.isMatchAfresh definition v then return v
  else .error (.mismatch returnValue v definition)

def runAfresh (collect : Bool) (bindings : Entries V) :
    List (String × String) → Except (CheckFault V) (List String)
  | [] => return []
  | (name, definition) :: rest =>
    match bindings.find? name with
    | none => .error (.unknownBinding name)
    | some v => do
      if ← host.isMatchAfresh definition v then runAfresh collect bindings rest
      else if collect then return name :: (← runAfresh collect bindings rest)
      else .error (.mismatch name v definition)

end Host

/-! ## Faithful caches -/

namespace Cache

variable {cache : Cache} {definition : String} {result : Compiled}

/-- Whether a definition is kept once it has been read. -/
def takes (cache : Cache) (definition : String) : Bool :=
  cache.hasRoom && cache.keeps (TypeExpr.parse definition)

theorem fetch_of_filled (h : cache.slot? definition = some (some result)) :
    cache.fetch definition = (result, { cache with hits := cache.hits + 1 }) := by
  rw [fetch, reserve, h]

/-- Full or not, and evicted or not: a definition without a slot adds an entry or nothing. -/
theorem fetch_of_slot?_eq_none (h : cache.slot? definition = none) :
    cache.fetch definition = (TypeExpr.parse definition, { cache with
      entries :=
        if cache.takes definition then
          cache.entries ++ [(definition, some (TypeExpr.parse definition))]
        else cache.entries
      misses := cache.misses + 1 }) := by
  rw [fetch, reserve, h, takes]
  cases cache.hasRoom with
  | false => rfl
  | true =>
    simp only [if_true, Bool.true_and, fill, evict, keeps, Entries.insert_of_find?_eq_none h,
      Entries.insert_concat h, Entries.erase_concat h]
    split <;> rfl

/-- Every slot is filled, with what reading its definition gives. -/
def Faithful (cache : Cache) : Prop :=
  ∀ definition slot, cache.slot? definition = some slot → slot = some (TypeExpr.parse definition)

theorem faithful_fresh (rules : Cache.Rules) : Faithful { rules } := by
  intro definition slot h
  contradiction

theorem faithful_clear (cache : Cache) : cache.clear.Faithful := by
  intro definition slot h
  contradiction

theorem Faithful.slot?_eq (h : cache.Faithful) (definition : String) :
    cache.slot? definition = none ∨
      cache.slot? definition = some (some (TypeExpr.parse definition)) := by
  cases hslot : cache.slot? definition with
  | none => exact .inl rfl
  | some slot => exact .inr (congrArg some (h definition slot hslot))

theorem Faithful.get?_eq (h : cache.Faithful) (definition : String) :
    cache.get? definition = none ∨ cache.get? definition = some (TypeExpr.parse definition) :=
  (h.slot?_eq definition).imp (congrArg Option.join) (congrArg Option.join)

theorem Faithful.fetch_fst (h : cache.Faithful) (definition : String) :
    (cache.fetch definition).1 = TypeExpr.parse definition := by
  rcases h.slot?_eq definition with hslot | hslot
  · rw [fetch_of_slot?_eq_none hslot]
  · rw [fetch_of_filled hslot]

theorem Faithful.fetch_snd (h : cache.Faithful) (definition : String) :
    (cache.fetch definition).2.Faithful := by
  rcases h.slot?_eq definition with hslot | hslot
  · rw [fetch_of_slot?_eq_none hslot]
    intro name slot hname
    dsimp only [slot?] at hname
    split at hname
    · rw [Entries.find?_concat, Option.or_eq_some_iff] at hname
      rcases hname with hkept | ⟨-, hnew⟩
      · exact h name slot hkept
      · split at hnew
        · next heq => rw [heq, ← Option.some.inj hnew]
        · contradiction
    · exact h name slot hname
  · rw [fetch_of_filled hslot]
    exact h

end Cache

/-! ## Checks through a cache -/

/-- Through every faithful cache the check has this outcome, and the cache stays faithful. -/
def Yields {ε α : Type} (check : ExceptT ε (StateM Cache) α) (outcome : Except ε α) : Prop :=
  ∀ cache : Cache, cache.Faithful →
    (check.run.run cache).1 = outcome ∧ (check.run.run cache).2.Faithful

section Yields

variable {ε α β : Type}

theorem yields_pure (a : α) : Yields (pure a : ExceptT ε (StateM Cache) α) (.ok a) :=
  fun _ h => ⟨rfl, h⟩

theorem yields_throw (e : ε) : Yields (throw e : ExceptT ε (StateM Cache) α) (.error e) :=
  fun _ h => ⟨rfl, h⟩

theorem Yields.bind {check : ExceptT ε (StateM Cache) α} {outcome : Except ε α}
    {next : α → ExceptT ε (StateM Cache) β} {nextOutcome : α → Except ε β}
    (h : Yields check outcome) (hnext : ∀ a, Yields (next a) (nextOutcome a)) :
    Yields (check >>= next) (outcome >>= nextOutcome) := by
  intro cache hcache
  obtain ⟨hfst, hsnd⟩ := h cache hcache
  rw [ExceptT.run_bind, StateT.run_bind]
  generalize check.run.run cache = ran at hfst hsnd ⊢
  obtain ⟨result, after⟩ := ran
  dsimp only at hfst hsnd
  subst hfst
  cases result with
  | error e => exact ⟨rfl, hsnd⟩
  | ok a => exact hnext a after hsnd

theorem yields_fetch {definition : String} {next : Compiled → ExceptT ε (StateM Cache) α}
    {outcome : Except ε α} (h : Yields (next (TypeExpr.parse definition)) outcome) :
    Yields (modifyGet (Cache.fetch definition) >>= next) outcome := by
  intro cache hcache
  have hrun : (modifyGet (Cache.fetch definition) >>= next).run.run cache
      = (next (cache.fetch definition).1).run.run (cache.fetch definition).2 := rfl
  rw [hrun, hcache.fetch_fst]
  exact h _ (hcache.fetch_snd definition)

end Yields

theorem yields_acceptsDefinition (registry : Registry V) (view : View V) (definition : String)
    (v : V) :
    Yields (acceptsDefinition registry view definition v)
      (acceptsAfresh registry view definition v) := by
  rw [acceptsDefinition, acceptsAfresh]
  refine yields_fetch ?_
  cases TypeExpr.parse definition with
  | error error => exact yields_throw _
  | ok expr =>
    dsimp only
    cases expr.accepts registry view v with
    | error error => exact yields_throw error
    | ok answer => exact yields_pure answer

namespace Host

variable (host : Host V)

theorem yields_isMatch (definition : String) (v : V) :
    Yields (host.isMatch definition v) (host.isMatchAfresh definition v) := by
  rw [isMatch, isMatchAfresh]
  refine yields_fetch ?_
  cases TypeExpr.parse definition with
  | error error => exact yields_throw _
  | ok expr =>
    dsimp only
    cases expr.accepts host.registry host.view v with
    | error error => exact yields_throw _
    | ok answer => exact yields_pure answer

theorem yields_ensure (v : V) (definition : String) :
    Yields (host.ensure v definition) (host.ensureAfresh v definition) := by
  refine (host.yields_isMatch definition v).bind fun answer => ?_
  cases answer with
  | true => exact yields_pure v
  | false => exact yields_throw _

theorem yields_run (collect : Bool) (bindings : Entries V) (checks : List (String × String)) :
    Yields (host.run collect bindings checks) (host.runAfresh collect bindings checks) := by
  induction checks with
  | nil => exact yields_pure []
  | cons entry rest ih =>
    obtain ⟨name, definition⟩ := entry
    rw [run, runAfresh]
    cases bindings.find? name with
    | none => exact yields_throw _
    | some v =>
      refine (host.yields_isMatch definition v).bind fun answer => ?_
      cases answer with
      | true => exact ih
      | false =>
        cases collect with
        | true => exact ih.bind fun names => yields_pure (name :: names)
        | false => exact yields_throw _

end Host

namespace Checker

variable {α : Type} (checker : Checker V) {check : CheckM V α}

/-- A checker does to a cache what its host does, and reports what that comes to. -/
theorem run_reporting (cache : Cache) :
    (checker.reporting check).run.run cache =
      (check.run.run cache).map (Except.mapError checker.report) id :=
  rfl

theorem yields_reporting {outcome : Except (CheckFault V) α} (h : Yields check outcome) :
    Yields (checker.reporting check) (outcome.mapError checker.report) := by
  intro cache hcache
  obtain ⟨hfst, hsnd⟩ := h cache hcache
  rw [run_reporting]
  exact ⟨congrArg (Except.mapError checker.report) hfst, hsnd⟩

end Checker

end DynTypes
