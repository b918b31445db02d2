import NexusGate.Gateway.Scene

/-! # Replicas that share breakers, one call after the other

What happens to the deployments of a fleet of replicas with Redis within reach, and the outcomes that have been
recorded, with the time of Redis' clock. -/

namespace NexusGate.Gateway.Router
open Async Redis

/-- An outcome that a replica recorded; `ok` is a success. -/
structure Recorded where
  name : String
  time : Nat
  ok : Bool
  deriving DecidableEq

/-- What the replicas have counted together. -/
def Scene.pooled (s : Scene) (name : String) : Int :=
  match value? s.time s.store (failsKey name) with
  | some (.str n) => n
  | _ => 0

structure Fleet extends Scene where
  past : List Recorded := []

inductive Happening
  | sync (replica : Nat) (names : List String)
  | allow (replica : Nat) (name : String)
  | success (replica : Nat) (name : String)
  | failure (replica : Nat) (name : String)
  | idle (milliseconds : Nat)

namespace Fleet

def happen (cluster : ClusterBreakers) (f : Fleet) : Happening → Fleet
  | .sync replica names => { f with toScene := ((cluster.sync replica names).run (answer true) f.toScene).2 }
  | .allow replica name => { f with toScene := (f.ask replica name .allowRequest).2 }
  | .success replica name => {
      toScene := ((cluster.recordSuccess replica name).run (answer true) f.toScene).2
      past := ⟨name, f.time, true⟩ :: f.past }
  | .failure replica name => {
      toScene := ((cluster.recordFailure replica name).run (answer true) f.toScene).2
      past := ⟨name, f.time, false⟩ :: f.past }
  | .idle milliseconds => { f with time := f.time + milliseconds }

/-- The refresh window of a replica has elapsed. -/
def stale (cluster : ClusterBreakers) (f : Fleet) (replica : Nat) : Bool :=
  !(f.syncedAt replica).any fun t => f.monotonic.head - t < cluster.refreshSeconds

/-- Every sync of a run comes when the refresh window of its replica has elapsed. -/
def syncsEffective (cluster : ClusterBreakers) : Fleet → List Happening → Bool
  | _, [] => true
  | f, h :: hs =>
    (match h with
      | .sync replica _ => f.stale cluster replica
      | _ => true) && syncsEffective cluster (f.happen cluster h) hs

/-- The outcomes of one deployment, the latest first. -/
def outcomes (f : Fleet) (name : String) : List Recorded := f.past.filter fun a => a.name = name

end Fleet

/-- The failures since the last success, back to the first gap that is longer than the window. -/
def currentRun (window : ℚ) : List Recorded → List Recorded
  | [] => []
  | a :: as =>
    if a.ok then []
    else match currentRun window as with
      | [] => [a]
      | b :: bs => if ((a.time - b.time : ℚ) / 1000) ≤ window then a :: b :: bs else [a]

end NexusGate.Gateway.Router
