import Mathlib.Data.List.AList
import Mathlib.Data.Rat.Defs

/-! # The route table

`app/gateway/routing_config.py`: a model alias maps to a chain of deployments, and a deployment name means
one thing. Parsing and printing of a table, and its fingerprint, are those of PyYAML, pydantic and SHA-256
and are parameters (`TableFormat`). -/

namespace NexusGate.Gateway

structure Pricing where
  inputPerMtok : ℚ
  outputPerMtok : ℚ
  deriving DecidableEq

/-- The free-form `options` are kept as the names and JSON texts of their entries. -/
structure Deployment where
  name : String
  provider : String
  model : String
  apiBase : Option String := none
  timeoutSeconds : Option ℚ := none
  maxRetries : Nat := 0
  pricing : Option Pricing := none
  selfHosted : Bool := false
  options : List (String × String) := []
  deriving DecidableEq

abbrev Routes := AList fun _ : String => List Deployment

/-- All deployments of a table, chain by chain. -/
def Routes.all (routes : Routes) : List Deployment := routes.entries.flatMap fun e => e.2

/-- A route table that passed `_validate`. -/
structure RoutingConfig where
  routes : Routes
  nonempty : ∀ e ∈ routes.entries, e.2 ≠ []
  named : ∀ d ∈ routes.all, ∀ d' ∈ routes.all, d.name = d'.name → d = d'

/-- `from_text`, `model_dump_json` and `fingerprint`. -/
structure TableFormat where
  fromText : String → Option RoutingConfig
  modelDumpJson : RoutingConfig → String
  fingerprint : RoutingConfig → String

/-- A table that was parsed is read back from its own dump. -/
def TableFormat.RoundTrips (format : TableFormat) : Prop :=
  ∀ text table, format.fromText text = some table → format.fromText (format.modelDumpJson table) = some table

end NexusGate.Gateway
