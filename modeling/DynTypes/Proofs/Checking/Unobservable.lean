import DynTypes.Proofs.Checking.Afresh
import DynTypes.Regex.Builtin
import DynTypes.Session
/-!
# What a cache hides

Every cache that calls can lead to is faithful, so whatever goes through it has the outcome of
reading the definition afresh. For sessions this is a simulation: two sessions that differ in their
caches alone answer every step alike, as long as the step does not ask for the cache itself.
-/

namespace DynTypes

namespace Session

/-- Whether a step asks what the cache retains, for its rules or for its counters. -/
def Step.asksCache : Step → Bool
  | .retained _ | .isRetained _ | .isEmpty | .cacheRules | .cacheCounters => true
  | _ => false

end Session

section

variable [RegexEngine]

/-- The caches that calls lead to, one after another, from a fresh cache. Each call may come from
another host. -/
inductive Cache.Reached : Cache → Prop
  | fresh (rules : Cache.Rules) : Reached { rules }
  | fetch {cache : Cache} (definition : String) (h : Reached cache) :
      Reached (cache.fetch definition).2
  | clear {cache : Cache} (h : Reached cache) : Reached cache.clear
  | check {cache : Cache} {V : Type} (host : Host V) (rules : Checker.Rules)
      (bindings : Entries V) (checks : List (String × String)) (h : Reached cache) :
      Reached ((host.check rules bindings checks).run.run cache).2
  | review {cache : Cache} {V : Type} (host : Host V) (bindings : Entries V)
      (checks : List (String × String)) (h : Reached cache) :
      Reached ((host.review bindings checks).run.run cache).2
  | ensure {cache : Cache} {V : Type} (host : Host V) (v : V) (definition : String)
      (h : Reached cache) : Reached ((host.ensure v definition).run.run cache).2
  | isMatch {cache : Cache} {V : Type} (host : Host V) (definition : String) (v : V)
      (h : Reached cache) : Reached ((host.isMatch definition v).run.run cache).2
  | accepts {cache : Cache} {V : Type} (registry : Registry V) (view : View V)
      (definition : String) (v : V) (h : Reached cache) :
      Reached ((acceptsDefinition registry view definition v).run.run cache).2

theorem Cache.Reached.faithful {cache : Cache} (h : cache.Reached) : cache.Faithful := by
  induction h with
  | fresh rules => exact faithful_fresh rules
  | fetch definition _ ih => exact ih.fetch_snd definition
  | clear _ _ => exact faithful_clear _
  | check host rules bindings checks _ ih => exact (host.yields_run _ bindings checks _ ih).2
  | review host bindings checks _ ih => exact (host.yields_run _ bindings checks _ ih).2
  | ensure host v definition _ ih => exact (host.yields_ensure v definition _ ih).2
  | isMatch host definition v _ ih => exact (host.yields_isMatch definition v _ ih).2
  | accepts registry view definition v _ ih =>
    exact (yields_acceptsDefinition registry view definition v _ ih).2

namespace Session

/-- What comes of some steps, without what tells of the cache itself. -/
def besidesCache {α : Type} (steps : List Step) (outcomes : List (Outcome α × Cache.Counters)) :
    List (Option (Outcome α)) :=
  List.zipWith (fun step outcome => if step.asksCache then none else some outcome.1) steps outcomes

namespace State

/-- The state after some steps. -/
def after (s : State) (steps : List Step) : State :=
  steps.foldl (fun s step => (s.step step).2) s

/-- The answers to some steps, apart from those that tell of the cache itself. -/
def answers (s : State) (steps : List Step) : List (Option (Outcome Value)) :=
  besidesCache steps (s.run steps)

/-! ## The cache of a session -/

theorem step_reached {s : State} (h : s.cache.Reached) (step : Step) :
    (s.step step).2.cache.Reached := by
  cases step with
  | compile definition => exact h.fetch definition
  | clear => exact h.clear
  | check checks => exact h.check s.host s.rules s.bindings checks
  | review checks => exact h.review s.host s.bindings checks
  | ensure definition value => exact h.ensure s.host value definition
  | isMatch definition value => exact h.isMatch s.host definition value
  | _ => exact h

theorem after_reached {s : State} (h : s.cache.Reached) (steps : List Step) :
    (s.after steps).cache.Reached := by
  induction steps generalizing s with
  | nil => exact h
  | cons step rest ih => exact ih (step_reached h step)

/-! ## Sessions that differ in their caches -/

/-- The state on another cache. -/
def withCache (s : State) (cache : Cache) : State :=
  { s with cache }

/-- The states are the same but for their caches, and these are faithful. -/
inductive Alike : State → State → Prop
  | on (s : State) {cache cache' : Cache} (h : cache.Faithful) (h' : cache'.Faithful) :
      Alike (s.withCache cache) (s.withCache cache')

theorem Alike.through {α : Type} {s s' : State} (hs : s.Alike s') {check : CheckM Value α}
    {outcome : Except (CheckFault Value) α} (h : Yields check outcome) :
    (s.through check).1 = (s'.through check).1 ∧
      (s.through check).2.Alike (s'.through check).2 := by
  obtain ⟨s, hcache, hcache'⟩ := hs
  obtain ⟨hfst, hsnd⟩ := h _ hcache
  obtain ⟨hfst', hsnd'⟩ := h _ hcache'
  exact ⟨hfst.trans hfst'.symm, .on s hsnd hsnd'⟩

theorem Alike.step {s s' : State} (hs : s.Alike s') (step : Step) :
    (s.step step).2.Alike (s'.step step).2 ∧
      (step.asksCache = false → (s.step step).1 = (s'.step step).1) := by
  obtain ⟨s, h, h'⟩ := id hs
  cases step with
  | compile definition =>
    have hresult := (h.fetch_fst definition).trans (h'.fetch_fst definition).symm
    exact ⟨.on s (h.fetch_snd definition) (h'.fetch_snd definition),
      fun _ => congrArg Outcome.compiled hresult⟩
  | check checks =>
    obtain ⟨hresult, hnext⟩ := hs.through (s.host.yields_run _ s.bindings checks)
    exact ⟨hnext, fun _ => congrArg Outcome.invalid hresult⟩
  | review checks =>
    obtain ⟨hresult, hnext⟩ := hs.through (s.host.yields_run _ s.bindings checks)
    exact ⟨hnext, fun _ => congrArg Outcome.invalid hresult⟩
  | ensure definition value =>
    obtain ⟨hresult, hnext⟩ := hs.through (s.host.yields_ensure value definition)
    exact ⟨hnext, fun _ => congrArg Outcome.ensured hresult⟩
  | isMatch definition value =>
    obtain ⟨hresult, hnext⟩ := hs.through (s.host.yields_isMatch definition value)
    exact ⟨hnext, fun _ => congrArg Outcome.isMatch hresult⟩
  | clear => exact ⟨.on s (Cache.faithful_clear _) (Cache.faithful_clear _), fun _ => rfl⟩
  -- what is left leaves the cache as it is
  | bind name value =>
    exact ⟨.on { s with bindings := s.bindings.insert name value } h h', fun _ => rfl⟩
  | collect on => exact ⟨.on { s with rules := { collectInvalids := on } } h h', fun _ => rfl⟩
  | registerClass name =>
    exact ⟨.on { s with registry := s.registry.registerClass name } h h', fun _ => rfl⟩
  | register name classes =>
    exact ⟨.on { s with registry := s.registry.register name fun v => classes.contains v.className }
      h h', fun _ => rfl⟩
  | isRegistered _ | typeNames | isMember _ _ | isBoolean _ => exact ⟨hs, fun _ => rfl⟩
  | retained _ | isRetained _ | isEmpty | cacheRules | cacheCounters =>
    exact ⟨hs, fun hstep => nomatch hstep⟩

theorem Alike.answers {s s' : State} (hs : s.Alike s') (steps : List Step) :
    s.answers steps = s'.answers steps := by
  induction steps generalizing s s' with
  | nil => rfl
  | cons step rest ih =>
    obtain ⟨hnext, hreply⟩ := hs.step step
    have hrest := ih hnext
    cases hstep : step.asksCache with
    | true => simpa [State.answers, besidesCache, run, hstep] using hrest
    | false => simpa [State.answers, besidesCache, run, hstep, hreply hstep] using hrest

end State

/-- The session on another cache. -/
def withCache (s : Session) (cache : Cache) : Session :=
  { s with cache }

/-- The replies to some steps. -/
def replies (s : Session) (steps : List Step) : List Reply :=
  (s.run steps).map (·.1)

/-- The replies to some steps, apart from those that tell of the cache itself. -/
def answers (s : Session) (steps : List Step) : List (Option Reply) :=
  besidesCache steps (s.run steps)

theorem answers_eq (s : Session) (steps : List Step) :
    s.answers steps = (s.toState.answers steps).map (Option.map (·.reply s.checker.report)) := by
  rw [answers, run, State.answers, besidesCache, besidesCache, List.zipWith_map_right,
    List.map_zipWith]
  congr 1
  funext step outcome
  cases step.asksCache <;> rfl

end Session

/-- However a cache came about, it gives what reading a definition gives or, asked for what it
retains, maybe nothing, and whatever is checked through it has the outcome of reading the definition
afresh, which a checker reports. A session keeps its cache that way at every step, so sessions that
differ in their caches alone answer alike, except when they are asked for the cache itself. -/
theorem cache_unobservable :
    (∀ cache : Cache, cache.Reached → ∀ definition : String,
      (cache.fetch definition).1 = TypeExpr.parse definition ∧
      (cache.get? definition = none ∨
        cache.get? definition = some (TypeExpr.parse definition)) ∧
      ∀ (V : Type) (host : Host V) (rules : Checker.Rules) (bindings : Entries V)
        (checks : List (String × String)) (v : V),
        ((host.check rules bindings checks).run.run cache).1 =
          host.runAfresh rules.collectInvalids bindings checks ∧
        ((host.review bindings checks).run.run cache).1 =
          host.runAfresh true bindings checks ∧
        ((host.ensure v definition).run.run cache).1 = host.ensureAfresh v definition ∧
        ((host.isMatch definition v).run.run cache).1 = host.isMatchAfresh definition v ∧
        ((acceptsDefinition host.registry host.view definition v).run.run cache).1 =
          acceptsAfresh host.registry host.view definition v ∧
        ∀ nesting : Nesting host.view,
          let checker : Checker V := { host with nesting, rules }
          ((checker.check bindings checks).run.run cache).1 =
            (host.runAfresh rules.collectInvalids bindings checks).mapError checker.report ∧
          ((checker.review bindings checks).run.run cache).1 =
            (host.runAfresh true bindings checks).mapError checker.report ∧
          ((checker.ensure v definition).run.run cache).1 =
            (host.ensureAfresh v definition).mapError checker.report ∧
          ((checker.isMatch definition v).run.run cache).1 =
            (host.isMatchAfresh definition v).mapError checker.report) ∧
    (∀ (s : Session.State) (steps : List Session.Step),
      s.cache.Reached → (s.after steps).cache.Reached) ∧
    (∀ (s : Session.State) (cache cache' : Cache) (steps : List Session.Step),
      cache.Reached → cache'.Reached →
        (s.withCache cache).answers steps = (s.withCache cache').answers steps) ∧
    (∀ (s : Session) (cache cache' : Cache) (steps : List Session.Step),
      cache.Reached → cache'.Reached →
        (s.withCache cache).answers steps = (s.withCache cache').answers steps) := by
  have hstates (s : Session.State) (cache cache' : Cache) (steps : List Session.Step)
      (h : cache.Reached) (h' : cache'.Reached) :
      (s.withCache cache).answers steps = (s.withCache cache').answers steps :=
    (Session.State.Alike.on s h.faithful h'.faithful).answers steps
  refine ⟨fun cache h definition => ?_, fun s steps h => Session.State.after_reached h steps,
    hstates, fun s cache cache' steps h h' => ?_⟩
  · refine ⟨h.faithful.fetch_fst definition, h.faithful.get?_eq definition, ?_⟩
    intro V host rules bindings checks v
    have hchecked := host.yields_run rules.collectInvalids bindings checks
    have hreviewed := host.yields_run true bindings checks
    have hensured := host.yields_ensure v definition
    have hmatched := host.yields_isMatch definition v
    have haccepted := yields_acceptsDefinition host.registry host.view definition v
    refine ⟨(hchecked cache h.faithful).1, (hreviewed cache h.faithful).1,
      (hensured cache h.faithful).1, (hmatched cache h.faithful).1,
      (haccepted cache h.faithful).1, ?_⟩
    intro nesting checker
    exact ⟨(checker.yields_reporting hchecked cache h.faithful).1,
      (checker.yields_reporting hreviewed cache h.faithful).1,
      (checker.yields_reporting hensured cache h.faithful).1,
      (checker.yields_reporting hmatched cache h.faithful).1⟩
  · rw [Session.answers_eq, Session.answers_eq]
    exact congrArg (List.map _) (hstates s.toState cache cache' steps h h')

end

/-- A cache that is full, and one without a limit. -/
theorem cache_unobservable_full :
    let full : Cache := (Cache.fetch "A" { rules := { maxEntries := 1 } }).2
    let large : Cache := { rules := { maxEntries := 0, cacheErrors := false } }
    let s : Session := { view := Value.view, nesting := Value.nesting, cache := full }
    let steps : List Session.Step := [.compile "B", .isMatch "B" .nil, .isRetained "B"]
    full.Reached ∧ large.Reached ∧ (full.fetch "B").1 = TypeExpr.parse "B" ∧
      (s.toState.after steps).cache.Reached ∧
      (s.toState.withCache full).answers steps = (s.toState.withCache large).answers steps ∧
      (s.withCache full).answers steps = (s.withCache large).answers steps := by
  intro full large s steps
  have hfull : full.Reached := .fetch "A" (.fresh { maxEntries := 1 })
  have hlarge : large.Reached := .fresh _
  exact ⟨hfull, hlarge, (cache_unobservable.1 full hfull "B").1,
    cache_unobservable.2.1 s.toState steps hfull,
    cache_unobservable.2.2.1 s.toState full large steps hfull hlarge,
    cache_unobservable.2.2.2 s full large steps hfull hlarge⟩

/-- What a cache retains is no secret: a second definition finds room in one cache and none in the
other. -/
theorem replies_tell_retained :
    let s : Session :=
      { view := Value.view, nesting := Value.nesting, cache := { rules := { maxEntries := 1 } } }
    let steps : List Session.Step := [.compile "A", .compile "B", .isRetained "B"]
    s.replies steps ≠ (s.withCache { rules := {} }).replies steps := by
  intro s steps h
  have hlast := congrArg List.getLast? h
  have hflag : some (Session.Outcome.flag false : Session.Reply) = some (.flag true) := hlast
  simp at hflag

end DynTypes
