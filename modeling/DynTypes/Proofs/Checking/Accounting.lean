import DynTypes.Proofs.Checking.Retention
import DynTypes.Proofs.Checking.Unobservable
import DynTypes.Regex.Builtin
import Mathlib.Data.List.Infix
/-!
# The accounts of a cache

Every call on a cache comes down to definitions that are fetched one after another: those of the
checks that a host comes to. So what a cache retains and what it counts is told by the sequence
of these definitions and by the places where the cache is cleared.
-/

namespace DynTypes

/-- Whether a run goes on behind a check with this outcome. -/
def Host.goesOn {V : Type} (collect : Bool) : Except (CheckFault V) Bool → Bool
  | .ok answer => answer || collect
  | .error _ => false

/-- A call on a cache. Each may come from another host, or from a checker, which leaves the cache as
its host does. -/
inductive Cache.Call : Type 1
  | fetch (definition : String)
  | get (definition : String)
  | contains (definition : String)
  | clear
  | check {V : Type} (host : Host V) (rules : Checker.Rules) (bindings : Entries V)
      (checks : List (String × String))
  | review {V : Type} (host : Host V) (bindings : Entries V)
      (checks : List (String × String))
  | ensure {V : Type} (host : Host V) (v : V) (definition : String)
  | isMatch {V : Type} (host : Host V) (definition : String) (v : V)
  | accepts {V : Type} (registry : Registry V) (view : View V) (definition : String) (v : V)

section

variable [RegexEngine]

/-! ## What a check asks for -/

section Asks

variable {ε α β : Type}

/-- Through every faithful cache, the check fetches these definitions and does nothing else to the
cache. -/
def Asks (check : ExceptT ε (StateM Cache) α) (definitions : List String) : Prop :=
  ∀ cache : Cache, cache.Faithful → (check.run.run cache).2 = cache.afterFetches definitions

theorem asks_pure (a : α) : Asks (pure a : ExceptT ε (StateM Cache) α) [] :=
  fun _ _ => rfl

theorem asks_throw (e : ε) : Asks (throw e : ExceptT ε (StateM Cache) α) [] :=
  fun _ _ => rfl

variable {check : ExceptT ε (StateM Cache) α} {next : α → ExceptT ε (StateM Cache) β}
  {definitions others : List String}

theorem Asks.bind_ok {a : α} (h : Asks check definitions) (hyields : Yields check (.ok a))
    (hnext : Asks (next a) others) : Asks (check >>= next) (definitions ++ others) := by
  intro cache hcache
  obtain ⟨hfst, hsnd⟩ := hyields cache hcache
  rw [Cache.afterFetches_append, ← h cache hcache, ExceptT.run_bind, StateT.run_bind]
  generalize check.run.run cache = ran at hfst hsnd ⊢
  obtain ⟨result, after⟩ := ran
  dsimp only at hfst hsnd
  subst hfst
  exact hnext after hsnd

theorem Asks.bind_error {e : ε} (h : Asks check definitions) (hyields : Yields check (.error e)) :
    Asks (check >>= next) definitions := by
  intro cache hcache
  obtain ⟨hfst, -⟩ := hyields cache hcache
  rw [← h cache hcache, ExceptT.run_bind, StateT.run_bind]
  generalize check.run.run cache = ran at hfst ⊢
  obtain ⟨result, after⟩ := ran
  dsimp only at hfst
  subst hfst
  rfl

/-- What is done with the result asks for nothing more. -/
theorem Asks.bind_pure (h : Asks check definitions) (f : α → β) :
    Asks (do return f (← check)) definitions := by
  intro cache hcache
  rw [← h cache hcache, ExceptT.run_bind, StateT.run_bind]
  generalize check.run.run cache = ran
  obtain ⟨result, after⟩ := ran
  cases result <;> rfl

theorem asks_fetch {definition : String} {next : Compiled → ExceptT ε (StateM Cache) α}
    (h : Asks (next (TypeExpr.parse definition)) definitions) :
    Asks (modifyGet (Cache.fetch definition) >>= next) (definition :: definitions) := by
  intro cache hcache
  have hrun : (modifyGet (Cache.fetch definition) >>= next).run.run cache
      = (next (cache.fetch definition).1).run.run (cache.fetch definition).2 := rfl
  rw [hrun, hcache.fetch_fst]
  exact h _ (hcache.fetch_snd definition)

end Asks

variable {V : Type}

theorem asks_acceptsDefinition (registry : Registry V) (view : View V) (definition : String)
    (v : V) : Asks (acceptsDefinition registry view definition v) [definition] := by
  rw [acceptsDefinition]
  refine asks_fetch ?_
  cases TypeExpr.parse definition with
  | error error => exact asks_throw _
  | ok expr =>
    dsimp only
    cases expr.accepts registry view v with
    | error error => exact asks_throw error
    | ok answer => exact asks_pure answer

namespace Host

variable (host : Host V)

theorem asks_isMatch (definition : String) (v : V) :
    Asks (host.isMatch definition v) [definition] := by
  rw [isMatch]
  refine asks_fetch ?_
  cases TypeExpr.parse definition with
  | error error => exact asks_throw _
  | ok expr =>
    dsimp only
    cases expr.accepts host.registry host.view v with
    | error error => exact asks_throw _
    | ok answer => exact asks_pure answer

theorem asks_ensure (v : V) (definition : String) :
    Asks (host.ensure v definition) [definition] := by
  have hyields := host.yields_isMatch definition v
  have hasks := host.asks_isMatch definition v
  rw [ensure]
  cases houtcome : host.isMatchAfresh definition v with
  | error error => exact hasks.bind_error (houtcome ▸ hyields)
  | ok answer =>
      -- whatever is made of the answer, nothing more is asked for
      show Asks _ ([definition] ++ [])
      refine hasks.bind_ok (houtcome ▸ hyields) ?_
      cases answer with
      | true => exact asks_pure v
      | false => exact asks_throw _

/-- The definitions of the checks that a run comes to and that have a value to check: those before
which there is no error. -/
def asked (collect : Bool) (bindings : Entries V) (checks : List (String × String)) :
    List String :=
  (checks.zip checks.inits).filterMap fun (check, front) =>
    if (host.runAfresh collect bindings front).toBool && (bindings.find? check.1).isSome then
      some check.2
    else none

theorem toBool_runAfresh_cons (collect : Bool) (bindings : Entries V) (name definition : String)
    (front : List (String × String)) :
    (host.runAfresh collect bindings ((name, definition) :: front)).toBool =
      match bindings.find? name with
      | none => false
      | some v => goesOn collect (host.isMatchAfresh definition v) &&
          (host.runAfresh collect bindings front).toBool := by
  rw [runAfresh]
  cases bindings.find? name with
  | none => rfl
  | some v =>
      dsimp only
      rcases host.isMatchAfresh definition v with _ | _ | _
      · rfl
      · cases collect with
        | false => rfl
        | true => cases host.runAfresh true bindings front <;> rfl
      · rfl

theorem asked_cons (collect : Bool) (bindings : Entries V) (name definition : String)
    (rest : List (String × String)) :
    host.asked collect bindings ((name, definition) :: rest) =
      match bindings.find? name with
      | none => []
      | some v =>
        definition ::
          if goesOn collect (host.isMatchAfresh definition v) then
            host.asked collect bindings rest
          else [] := by
  have hfront : (host.runAfresh collect bindings []).toBool = true := rfl
  -- the first check has nothing before it, and every other one has the first check before it
  rw [asked, List.inits_cons, List.zip_cons_cons, List.filterMap_cons, List.zip_map_right,
    List.filterMap_map]
  simp only [Function.comp_def, Prod.map, toBool_runAfresh_cons, id_eq, hfront, Bool.true_and]
  cases bindings.find? name with
  | none => simp
  | some v =>
      by_cases hgoes : goesOn collect (host.isMatchAfresh definition v) = true
      · simp [hgoes, asked]
      · simp [hgoes]

theorem asks_run (collect : Bool) (bindings : Entries V) (checks : List (String × String)) :
    Asks (host.run collect bindings checks) (host.asked collect bindings checks) := by
  induction checks with
  | nil => exact asks_pure []
  | cons check rest ih =>
      obtain ⟨name, definition⟩ := check
      rw [run, asked_cons]
      cases bindings.find? name with
      | none => exact asks_throw _
      | some v =>
          have hyields := host.yields_isMatch definition v
          have hasks := host.asks_isMatch definition v
          dsimp only
          cases houtcome : host.isMatchAfresh definition v with
          | error error => exact hasks.bind_error (houtcome ▸ hyields)
          | ok answer =>
              refine hasks.bind_ok (houtcome ▸ hyields) ?_
              cases answer with
              | true => exact ih
              | false =>
                  cases collect with
                  | true => exact ih.bind_pure (name :: ·)
                  | false => exact asks_throw _

end Host

/-! ## Histories of calls -/

namespace Cache

/-- The cache after a call. -/
def Call.run : Call → Cache → Cache
  | .fetch definition, cache => (cache.fetch definition).2
  | .get _, cache | .contains _, cache => cache
  | .clear, cache => cache.clear
  | .check host rules bindings checks, cache =>
    ((host.check rules bindings checks).run.run cache).2
  | .review host bindings checks, cache => ((host.review bindings checks).run.run cache).2
  | .ensure host v definition, cache => ((host.ensure v definition).run.run cache).2
  | .isMatch host definition v, cache => ((host.isMatch definition v).run.run cache).2
  | .accepts registry view definition v, cache =>
    ((acceptsDefinition registry view definition v).run.run cache).2

/-- The definitions that a call fetches, in order. -/
def Call.asked : Call → List String
  | .get _ | .contains _ | .clear => []
  | .fetch definition | .ensure _ _ definition | .isMatch _ definition _
  | .accepts _ _ definition _ => [definition]
  | .check host rules bindings checks => host.asked rules.collectInvalids bindings checks
  | .review host bindings checks => host.asked true bindings checks

/-- The cache after some calls, one after another. -/
def after (cache : Cache) (calls : List Call) : Cache :=
  calls.foldl (fun cache call => call.run cache) cache

variable {cache : Cache}

theorem Reached.call (h : cache.Reached) (call : Call) : (call.run cache).Reached := by
  cases call with
  | fetch definition => exact h.fetch definition
  | get _ | contains _ => exact h
  | clear => exact h.clear
  | check host rules bindings checks => exact h.check host rules bindings checks
  | review host bindings checks => exact h.review host bindings checks
  | ensure host v definition => exact h.ensure host v definition
  | isMatch host definition v => exact h.isMatch host definition v
  | accepts registry view definition v => exact h.accepts registry view definition v

theorem Reached.after (h : cache.Reached) (calls : List Call) : (cache.after calls).Reached := by
  induction calls generalizing cache with
  | nil => exact h
  | cons call rest ih => exact ih (h.call call)

/-- Every call but `clear` comes down to the definitions that it fetches. -/
theorem Faithful.run_eq_afterFetches (h : cache.Faithful) {call : Call} (hclear : call ≠ .clear) :
    call.run cache = cache.afterFetches call.asked := by
  cases call with
  | fetch _ | get _ | contains _ => rfl
  | clear => contradiction
  | check host rules bindings checks =>
    exact host.asks_run rules.collectInvalids bindings checks cache h
  | review host bindings checks => exact host.asks_run true bindings checks cache h
  | ensure host v definition => exact host.asks_ensure v definition cache h
  | isMatch host definition v => exact host.asks_isMatch definition v cache h
  | accepts registry view definition v =>
    exact asks_acceptsDefinition registry view definition v cache h

theorem after_map_fetch (cache : Cache) (definitions : List String) :
    cache.after (definitions.map .fetch) = cache.afterFetches definitions :=
  List.foldl_map

/-- What every fetch and `clear` keep, a history keeps. -/
theorem Reached.after_induction {p : Cache → Prop}
    (hfetch : ∀ cache : Cache, cache.Faithful → ∀ definition, p cache →
      p (cache.fetch definition).2)
    (hclear : ∀ cache : Cache, p cache → p cache.clear)
    (h : cache.Reached) (hp : p cache) (calls : List Call) : p (cache.after calls) := by
  induction calls generalizing cache with
  | nil => exact hp
  | cons call rest ih =>
      refine ih (h.call call) (?_ : p (call.run cache))
      by_cases hcall : call = .clear
      · subst hcall
        exact hclear cache hp
      · rw [h.faithful.run_eq_afterFetches hcall]
        exact h.faithful.afterFetches_induction hfetch hp call.asked

theorem Reached.rules_after (h : cache.Reached) (calls : List Call) :
    (cache.after calls).rules = cache.rules :=
  h.after_induction (p := fun next => next.rules = cache.rules)
    (fun _ hnext definition hrules => (hnext.rules_fetch definition).trans hrules)
    (fun _ hrules => hrules) rfl calls

theorem Reached.keepsRules_after (h : cache.Reached) (hcache : cache.KeepsRules)
    (calls : List Call) : (cache.after calls).KeepsRules :=
  h.after_induction (fun _ hnext definition hkeeps => hkeeps.fetch hnext definition)
    (fun _ _ => keepsRules_of_entries_eq_nil rfl) hcache calls

theorem Reached.counts_after (h : cache.Reached) (calls : List Call) :
    cache.Counts (cache.after calls) (calls.flatMap Call.asked).length := by
  induction calls generalizing cache with
  | nil => exact .refl cache
  | cons call rest ih =>
      have hcall : cache.Counts (call.run cache) call.asked.length := by
        by_cases hclear : call = .clear
        · subst hclear
          exact .refl cache
        · rw [h.faithful.run_eq_afterFetches hclear]
          exact h.faithful.counts_afterFetches call.asked
      rw [List.flatMap_cons, List.length_append]
      exact hcall.trans (ih (h.call call))

theorem Reached.after_eq_afterFetches (h : cache.Reached) {calls : List Call}
    (hclear : .clear ∉ calls) :
    cache.after calls = cache.afterFetches (calls.flatMap Call.asked) := by
  induction calls generalizing cache with
  | nil => rfl
  | cons call rest ih =>
      rw [List.mem_cons, not_or] at hclear
      rw [List.flatMap_cons, afterFetches_append,
        ← h.faithful.run_eq_afterFetches (Ne.symm hclear.1)]
      exact ih (h.call call) hclear.2

end Cache

/-- The books of a cache after any history of calls. It keeps to its rules, has no empty slot and
has counted every definition that was asked for, until its counters wrap around. The next definition
is a hit if it is there, and otherwise a miss that leaves it behind if there is room and its result
is wanted; no other slot changes. Every call but `clear` is such definitions one after another, so
it takes nothing away, and `clear` takes all and keeps the counters. In a stretch without `clear`,
the misses are the definitions that were read, and those that are there at its end were read once
each. -/
theorem cache_accounting (rules : Cache.Rules) (calls : List Cache.Call) :
    let cache := Cache.after { rules } calls
    (cache.counters = ⟨cache.hits.toNat, cache.misses.toNat, cache.size⟩ ∧
      (0 < rules.maxEntries → cache.size ≤ rules.maxEntries) ∧
      (rules.cacheErrors = false → ∀ definition result,
        cache.get? definition = some result → ∃ expr, result = .ok expr) ∧
      (∀ definition, (cache.get? definition).isSome = cache.contains definition) ∧
      (∃ hits misses : Nat, hits + misses = (calls.flatMap Cache.Call.asked).length ∧
        cache.hits = .ofNat hits ∧ cache.misses = .ofNat misses) ∧
      ((calls.flatMap Cache.Call.asked).length < UInt64.size →
        cache.counters.hits + cache.counters.misses =
          (calls.flatMap Cache.Call.asked).length)) ∧
    (∀ definition,
      let next := (cache.fetch definition).2
      (cache.contains definition = true → next = { cache with hits := cache.hits + 1 }) ∧
      (cache.contains definition = false →
        next.hits = cache.hits ∧ next.misses = cache.misses + 1 ∧
        (next.contains definition = true ↔
          (rules.maxEntries = 0 ∨ cache.size < rules.maxEntries) ∧
            (rules.cacheErrors = true ∨ ∃ expr, TypeExpr.parse definition = .ok expr))) ∧
      ∀ other, other ≠ definition → next.slot? other = cache.slot? other) ∧
    (∀ call : Cache.Call, call ≠ .clear →
      call.run cache = cache.after (call.asked.map .fetch) ∧
      ∀ definition slot, cache.slot? definition = some slot →
        (call.run cache).slot? definition = some slot) ∧
    (cache.clear.isEmpty = true ∧ cache.clear.hits = cache.hits ∧
      cache.clear.misses = cache.misses) ∧
    (∀ later : List Cache.Call, .clear ∉ later → ∀ start ∈ [{ rules }, cache.clear],
      let definitions := later.flatMap Cache.Call.asked
      (start.after later).misses = start.misses + .ofNat (start.compiled definitions).length ∧
      ∀ definition, (start.after later).contains definition = true →
        (start.compiled definitions).count definition = 1) := by
  intro cache
  have hfresh : Cache.Reached { rules } := .fresh rules
  have hreached : cache.Reached := hfresh.after calls
  have hfaithful := hreached.faithful
  have hrules : cache.rules = rules := hfresh.rules_after calls
  have hkeeps : cache.KeepsRules :=
    hfresh.keepsRules_after (Cache.keepsRules_of_entries_eq_nil rfl) calls
  -- what holds of the cache as it stands, then a fetch, a call, `clear` and a stretch without it
  refine ⟨⟨rfl, hrules ▸ hkeeps.size_le, ?_, hfaithful.isSome_get?, ?_⟩, ?_, ?_,
    ⟨rfl, rfl, rfl⟩, ?_⟩
  · intro herrors definition result hget
    obtain ⟨expr, hexpr⟩ := hkeeps.ok_of_slot? (hrules ▸ herrors) definition (some result)
      (Option.join_eq_some_iff.1 hget)
    exact ⟨expr, Option.some.inj hexpr⟩
  · have hcounts := hfresh.counts_after calls
    refine ⟨?_, fun hsize => hcounts.toNat_add rfl rfl hsize⟩
    obtain ⟨hits, misses, hrequests, hhits, hmisses⟩ := hcounts
    exact ⟨hits, misses, hrequests, hhits.trans (UInt64.zero_add _),
      hmisses.trans (UInt64.zero_add _)⟩
  · intro definition next
    refine ⟨hfaithful.fetch_of_contains, fun hc => ?_, fun other => hfaithful.slot?_fetch_of_ne⟩
    have hnext : next = _ := Cache.fetch_of_not_contains hc
    refine ⟨by rw [hnext], by rw [hnext], ?_⟩
    rw [Cache.contains_fetch_self hc, Cache.takes_iff, hrules]
  · intro call hclear
    rw [Cache.after_map_fetch, hfaithful.run_eq_afterFetches hclear]
    exact ⟨rfl, fun definition slot hslot => hfaithful.slot?_afterFetches_of_some hslot _⟩
  · intro later hclear start hstart definitions
    -- either start is empty, so whatever is there at the end came in during the stretch
    obtain ⟨hstart, hempty⟩ : start.Reached ∧ start.entries = [] := by
      rcases List.mem_pair.1 hstart with rfl | rfl
      · exact ⟨hfresh, rfl⟩
      · exact ⟨hreached.clear, rfl⟩
    rw [hstart.after_eq_afterFetches hclear]
    refine ⟨hstart.faithful.misses_afterFetches definitions, fun definition hafter => ?_⟩
    refine hstart.faithful.count_compiled_eq_one ?_ hafter
    rw [Cache.contains, Cache.slot?, hempty]
    rfl

end

/-- A cache with a single place, which keeps no errors. -/
theorem cache_accounting_single_place :
    let rules : Cache.Rules := { maxEntries := 1, cacheErrors := false }
    let host : Host Value := { registry := TypeTable.builtin.toRegistry, view := Value.view }
    let calls : List Cache.Call := [.fetch "Array<", .fetch "Integer", .fetch "String",
      .review host [("x", .nil)] [("x", "Integer"), ("y", "String")]]
    let cache := Cache.after { rules } calls
    let later : List Cache.Call := [.get "Integer", .fetch "String", .fetch "Integer"]
    cache.size ≤ 1 ∧
      (∃ hits misses : Nat, hits + misses = 4 ∧ cache.hits = .ofNat hits ∧
        cache.misses = .ofNat misses) ∧
      cache.counters.hits + cache.counters.misses = 4 ∧
      (cache.fetch "Integer").2 = { cache with hits := cache.hits + 1 } ∧
      (cache.fetch "String").2.misses = cache.misses + 1 ∧
      (cache.clear.after later).contains "String" = true ∧
      (cache.clear.compiled (later.flatMap Cache.Call.asked)).count "String" = 1 := by
  intro rules host calls cache later
  have haccounts := cache_accounting rules calls
  -- keep the name, or the cache is run whenever two statements about it are compared
  rw [show Cache.after { rules } calls = cache from rfl] at haccounts
  obtain ⟨⟨-, hsize, -, -, hcounted, hexact⟩, hfetch, -, -, hstretch⟩ := haccounts
  have hkept : cache.contains "Integer" = true := by decide +kernel
  have hrefused : cache.contains "String" = false := by decide +kernel
  have hlater : (cache.clear.after later).contains "String" = true := by decide +kernel
  have hclear : .clear ∉ later := by simp [later]
  have hread := (hstretch later hclear cache.clear (by simp [cache])).2 "String" hlater
  have hasked : (calls.flatMap Cache.Call.asked).length = 4 := by decide +kernel
  rw [hasked] at hcounted hexact
  exact ⟨hsize (by decide), hcounted, hexact (by decide), (hfetch "Integer").1 hkept,
    ((hfetch "String").2.1 hrefused).2.1, hlater, hread⟩

end DynTypes
