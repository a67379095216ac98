import DynTypes.Check
import DynTypes.Value.TypeTable
/-!
# Sessions

A session owns a cache, a registry and values under names, and takes one step after another on
them.
-/

namespace DynTypes

variable [RegexEngine]

/-- What a session can be asked to do. -/
inductive Session.Step where
  | compile (definition : String)
  /-- Look up what the cache keeps for a definition. -/
  | retained (definition : String)
  /-- Ask whether the cache keeps a definition. -/
  | isRetained (definition : String)
  | isEmpty
  | clear
  | cacheRules
  | cacheCounters
  /-- Put a value under a name. -/
  | bind (name : String) (value : Value)
  /-- Say whether mismatches are collected. -/
  | collect (on : Bool)
  | registerClass (name : String)
  /-- Register a type whose members are the values of some classes. -/
  | register (name : String) (classes : List String)
  | isRegistered (name : String)
  | typeNames
  | isMember (name : String) (value : Value)
  | isBoolean (value : Value)
  | check (checks : List (String × String))
  | review (checks : List (String × String))
  /-- Hand a value through that matches a definition. -/
  | ensure (definition : String) (value : Value)
  | isMatch (definition : String) (value : Value)

/-- What comes of a step. Here `α` tells of a value that does not match. -/
inductive Session.Outcome (α : Type) where
  | done
  | flag (value : Bool)
  | compiled (result : Compiled)
  | retained (result : Option Compiled)
  | cacheRules (rules : Cache.Rules)
  | cacheCounters (counters : Cache.Counters)
  | names (names : List String)
  /-- Whether a value is a member of a type, unless no type has the name. -/
  | membership (value : Option Bool)
  | invalid (result : Except (CheckFault α) (List String))
  | ensured (result : Except (CheckFault α) Value)
  | isMatch (result : Except (CheckFault α) Bool)

/-- What a session answers to a step. -/
abbrev Session.Reply := Session.Outcome String

/-- The reply where a fault is reported. -/
def Session.Outcome.reply {α : Type} (report : CheckFault α → CheckError) :
    Session.Outcome α → Session.Reply
  | done => .done
  | flag value => .flag value
  | compiled result => .compiled result
  | retained result => .retained result
  | cacheRules rules => .cacheRules rules
  | cacheCounters counters => .cacheCounters counters
  | names listed => .names listed
  | membership value => .membership value
  | invalid result => .invalid (result.mapError report)
  | ensured result => .ensured (result.mapError report)
  | isMatch result => .isMatch (result.mapError report)

/-- What a session works on: dynamic values as a host shows them. -/
structure Session.State where
  view : View Value
  cache : Cache
  registry : TypeTable := .builtin
  bindings : Entries Value := []
  rules : Checker.Rules := {}

/-- A session on dynamic values, which describes those that do not match. -/
structure Session extends Session.State where
  nesting : Nesting view

namespace Session

namespace State

/-- The host of the values as it stands. -/
def host (s : State) : Host Value where
  registry := s.registry.toRegistry
  view := s.view

/-- Runs a check through the cache. -/
def through {α : Type} (s : State) (check : CheckM Value α) :
    Except (CheckFault Value) α × State :=
  let (result, cache) := check.run.run s.cache
  (result, { s with cache })

def step (s : State) : Step → Outcome Value × State
  | .compile definition =>
    let (result, cache) := s.cache.fetch definition
    (.compiled result, { s with cache })
  | .retained definition => (.retained (s.cache.get? definition), s)
  | .isRetained definition => (.flag (s.cache.contains definition), s)
  | .isEmpty => (.flag s.cache.isEmpty, s)
  | .clear => (.done, { s with cache := s.cache.clear })
  | .cacheRules => (.cacheRules s.cache.rules, s)
  | .cacheCounters => (.cacheCounters s.cache.counters, s)
  | .bind name value => (.done, { s with bindings := s.bindings.insert name value })
  | .collect on => (.done, { s with rules := { collectInvalids := on } })
  | .registerClass name => (.done, { s with registry := s.registry.registerClass name })
  | .register name classes =>
    let isMember (v : Value) : Bool := classes.contains v.className
    (.done, { s with registry := s.registry.register name isMember })
  | .isRegistered name => (.flag (s.registry.contains name), s)
  | .typeNames => (.names s.registry.names, s)
  | .isMember name value => (.membership ((s.registry.resolve name).map (· value)), s)
  | .isBoolean value => (.flag value.isBool, s)
  | .check checks =>
    let (result, s) := s.through (s.host.check s.rules s.bindings checks)
    (.invalid result, s)
  | .review checks =>
    let (result, s) := s.through (s.host.review s.bindings checks)
    (.invalid result, s)
  | .ensure definition value =>
    let (result, s) := s.through (s.host.ensure value definition)
    (.ensured result, s)
  | .isMatch definition value =>
    let (result, s) := s.through (s.host.isMatch definition value)
    (.isMatch result, s)

/-- Takes steps one after another; answers with what comes of each and the counters of the cache
after it. -/
def run (s : State) : List Step → List (Outcome Value × Cache.Counters)
  | [] => []
  | step :: rest =>
    let (outcome, s) := s.step step
    (outcome, s.cache.counters) :: s.run rest

end State

/-- The checker of a session as it stands. -/
def checker (s : Session) : Checker Value :=
  { s.host with nesting := s.nesting, rules := s.rules }

/-- Takes steps one after another; answers with the reply to each and the counters of the cache
after it. -/
def run (s : Session) (steps : List Step) : List (Reply × Cache.Counters) :=
  (s.toState.run steps).map (Prod.map (·.reply s.checker.report) id)

end Session

end DynTypes
