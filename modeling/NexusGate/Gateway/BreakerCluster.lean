import Mathlib.Algebra.Order.Floor.Ring
import Mathlib.Data.Rat.Floor
import NexusGate.Gateway.RouterOps

/-! # Breakers shared by every replica

`ClusterBreakers` of `app/gateway/breaker_cluster.py`. The mapping of breakers that its methods take, or the
one breaker of a deployment, is named by the replica it belongs to. -/

namespace NexusGate.Gateway
open Async Redis Router

def failsKey (name : String) : String := "breaker:fails:" ++ name

def openKey (name : String) : String := "breaker:open:" ++ name

def probeKey (name : String) : String := "breaker:probe:" ++ name

theorem failsKey_inj {a b : String} : failsKey a = failsKey b ↔ a = b := String.append_right_inj _
theorem openKey_inj {a b : String} : openKey a = openKey b ↔ a = b := String.append_right_inj _
theorem probeKey_inj {a b : String} : probeKey a = probeKey b ↔ a = b := String.append_right_inj _

theorem failsKey_ne_openKey {a b : String} : failsKey a ≠ openKey b := by
  intro h
  have h := congrArg String.toList h
  simp [openKey, failsKey] at h

theorem failsKey_ne_probeKey {a b : String} : failsKey a ≠ probeKey b := by
  intro h
  have h := congrArg String.toList h
  simp [probeKey, failsKey] at h

theorem openKey_ne_probeKey {a b : String} : openKey a ≠ probeKey b := by
  intro h
  have h := congrArg String.toList h
  simp [probeKey, openKey] at h

/-- `max(int(seconds), 1)`. -/
def wholeSeconds (seconds : ℚ) : Nat := max ⌊seconds⌋.toNat 1

theorem wholeSeconds_pos {seconds : ℚ} : 0 < wholeSeconds seconds := Nat.lt_of_lt_of_le Nat.one_pos (le_max_right ..)

structure ClusterBreakers where
  failureThreshold : Int
  cooldownSeconds : ℚ
  failureWindowSeconds : ℚ := 60
  refreshSeconds : ℚ := 1
  probeSeconds : ℚ := 5

namespace ClusterBreakers
variable (self : ClusterBreakers) (replica : Nat)

/-! ## Reading -/

/-- `_adopt_open`. -/
def adoptOpen (name : String) : Program Unit := do
  let _ ← breaker replica name .state
  breaker replica name (.adopt .opened self.failureThreshold)

/-- `_claim_probe`. -/
def claimProbe (name : String) : Program Unit := do
  let won : Bool := match ← caught (redis (.set (probeKey name) 1 (some (wholeSeconds self.probeSeconds)) true)) with
    | .ok .ok => true
    | .ok _ => false
    | .error _ => true
  if won then breaker replica name (.adopt .halfOpen 0) else return

/-- What `sync` does about one deployment, given its two keys. -/
def agreeOn (name : String) (openFlag fails : Redis.Reply Int) : Program Unit := do
  if ← Prog.call (Op.known replica name) then
    match openFlag with
    | .bulk _ => self.adoptOpen replica name
    | _ =>
      if (← breaker replica name .state) = .opened then self.claimProbe replica name
      else
        match fails with
        | .bulk n =>
          let state ← breaker replica name .state
          breaker replica name (.adopt state n)
        | _ => return
  else return

def agree : List String → List (Redis.Reply Int) → Program Unit
  | name :: names, openFlag :: fails :: results => do
    self.agreeOn replica name openFlag fails
    agree names results
  | _, _ => return

/-- The commands of one read of the shared state. -/
def reads (names : List String) : List (Cmd Int) :=
  names.flatMap fun name => [.get (openKey name), .get (failsKey name)]

def sync (names : List String) : Program Unit := do
  let now ← Prog.call (Op.monotonic replica)
  let syncedAt ← Prog.call (Op.syncedAt replica)
  if syncedAt.any fun t => now - t < self.refreshSeconds then return
  else
    let _ ← Prog.call (Op.stamp replica now)
    match ← caught (pipeline (reads names)) with
    | .error _ => return
    | .ok results => self.agree replica names results

/-! ## Writing -/

/-- `_open`. -/
def publishOpen (name : String) : Program Unit := do
  let _ ← caught (pipeline [.set (openKey name) 1 (some (wholeSeconds self.cooldownSeconds)) false,
    .del [failsKey name, probeKey name]])
  return

def recordFailure (name : String) : Program Bool := do
  let opened ← breaker replica name .recordFailure
  if opened then
    self.publishOpen name
    return true
  else
    match ← caught (pipeline [.incr (failsKey name),
      .expire (failsKey name) (wholeSeconds self.failureWindowSeconds)]) with
    | .ok (.int count :: _) =>
      if self.failureThreshold ≤ count then
        self.publishOpen name
        breaker replica name (.adopt .opened count)
        return true
      else return false
    | _ => return opened

def recordSuccess (_self : ClusterBreakers) (replica : Nat) (name : String) : Program Unit := do
  breaker replica name .recordSuccess
  let _ ← caught (redis (.del [failsKey name, openKey name, probeKey name]))
  return

end ClusterBreakers
end NexusGate.Gateway
