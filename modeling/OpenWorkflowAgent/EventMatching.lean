/-
# Strategies of listeners

`event_matching.py`: what a listener or a trigger waits for.  A filter restricts properties of an
event and extracts named correlations; a strategy combines filters, and may have another one that
ends it.  Whether an event matches is not looked into.
-/
import OpenWorkflowAgent.EventEnvelopes

namespace Json

def valueOf? (fields : List (String × Json)) (name : String) : Option Json :=
  (fields.find? fun f => f.1 = name).map Prod.snd

end Json

/-! ## Dictionaries -/

namespace Properties

/-- `dict.get(name)`, where an absent name is told apart. -/
def value? (p : Properties) (name : String) : Option Json := Json.valueOf? p name

/-- `{**p, name: value}`. -/
def set (p : Properties) (name : String) (value : Json) : Properties :=
  if p.any (fun f => f.1 = name) then p.map fun f => if f.1 = name then (name, value) else f
  else p ++ [(name, value)]

end Properties

/-- `sorted(set(a) | set(b))`. -/
def sortedUnion (a b : List ℕ) : List ℕ := (a ++ b).dedup.insertionSort (· ≤ ·)

/-! ## Strategies -/

/-- One rule of `correlate`. -/
structure Correlation where
  name : String
  /-- `from`. -/
  extract : String
  expect : Option Json
  deriving DecidableEq

/-- A filter: `with` and `correlate`. -/
structure EventFilter where
  properties : Properties
  correlate : List Correlation
  deriving DecidableEq

/-- The events a strategy consumes, as `filters_for` reads them. -/
inductive Consumption where
  | one (filter : EventFilter)
  | all (filters : List EventFilter)
  | any (filters : List EventFilter)
  deriving DecidableEq

namespace Consumption

def filters : Consumption → List EventFilter
  | one f => [f]
  | all fs | any fs => fs

def isAll : Consumption → Bool
  | all _ => true
  | _ => false

def isAny : Consumption → Bool
  | any _ => true
  | _ => false

end Consumption

/-- A value of `until` that neither a condition nor a strategy can be read from. -/
def Json.unreadable : Json → Bool
  | .null | .str _ | .obj _ => false
  | _ => true

/-- A strategy, by what its `until` is: absent, a condition, a strategy, or anything else. -/
inductive Strategy where
  | plain (consumed : Consumption)
  | condition (consumed : Consumption) (text : String)
  | strategy (consumed : Consumption) (inner : Strategy)
  | unending (consumed : Consumption) (value : Json) (h : value.unreadable = true)
  deriving DecidableEq

def Strategy.consumed : Strategy → Consumption
  | plain c | condition c _ | strategy c _ | unending c _ _ => c

def Correlation.value (c : Correlation) : Json :=
  .obj (("from", .str c.extract) :: (c.expect.map fun v => ("expect", v)).toList)

def EventFilter.value (f : EventFilter) : Json :=
  .obj [("with", .obj f.properties),
    ("correlate", .obj (f.correlate.map fun c => (c.name, c.value)))]

/-- The filters under the name of their mode. -/
def Consumption.field : Consumption → String × Json
  | one f => ("one", f.value)
  | all fs => ("all", .arr (fs.map EventFilter.value))
  | any fs => ("any", .arr (fs.map EventFilter.value))

def Strategy.value : Strategy → Json
  | plain c => .obj [c.field]
  | condition c text => .obj [c.field, ("until", .str text)]
  | strategy c inner => .obj [c.field, ("until", inner.value)]
  | unending c v _ => .obj [c.field, ("until", v)]

/-- `_listener_complete_without_events`: `all` of nothing, or `any` that such a strategy ends. -/
def Strategy.completeWithoutEvents : Strategy → Bool
  | strategy c inner =>
    if c.isAll then c.filters = [] else c.isAny && inner.completeWithoutEvents
  | s => s.consumed.isAll && s.consumed.filters = []
