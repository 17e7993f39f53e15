import VulosRelay.Lib.FinMap
import Mathlib.Data.String.Basic

/-!
# The pool of relay nodes

The model of `Pool` (`tunnel/autoscale/pool.go`), whose loads are from any linear order, and of
`doDecommission` (`tunnel/autoscale/autoscale.go`). A loop over the member map goes over a list of
its members, in an order that is an argument here.
-/

namespace VulosRelay.Server.Autoscale

open Finmap

structure Node where
  id : String
  region : String
  provider : String
  addr : String
  healthURL : String

structure Member (Load : Type) where
  node : Node
  healthy : Bool
  draining : Bool
  loadRatio : Load

variable {Load : Type}

def Member.routable (m : Member Load) : Bool := m.healthy && !m.draining

structure Pool (Load : Type) where
  members : FinMap String (Member Load)
  /-- `Add` stores a node under its own id, and nothing changes the id of a member. -/
  keyed : ∀ id m, members.lookup id = some m → m.node.id = id

namespace Pool

def put (p : Pool Load) (m : Member Load) : Pool Load where
  members := p.members.insert m.node.id m
  keyed id m' h := by
    by_cases hid : id = m.node.id <;> grind [lookup_insert, lookup_insert_of_ne, p.keyed id m']

def remove (p : Pool Load) (id : String) : Pool Load where
  members := p.members.erase id
  keyed other m h := by
    by_cases hid : other = id <;> grind [lookup_erase, lookup_erase_ne, p.keyed other m]

def setDraining (p : Pool Load) (id : String) (draining : Bool) : Pool Load :=
  match p.members.lookup id with
  | some m => p.put { m with draining }
  | none => p

def drain (p : Pool Load) (id : String) : Pool Load := p.setDraining id true

def undrain (p : Pool Load) (id : String) : Pool Load := p.setDraining id false

end Pool

section Choice

variable [LinearOrder Load]

structure Regions where
  /-- `strings.ToLower` of `strings.TrimSpace`. -/
  normalize : String → String
  equalFold : String → String → Bool

def sameRegion (env : Regions) (region : String) (m : Member Load) : Bool :=
  region ≠ "" && env.equalFold m.node.region region

def nearestStep (env : Regions) (region : String) (best : Option (Member Load × Bool))
    (m : Member Load) : Option (Member Load × Bool) :=
  if !m.routable then best
  else
    let same := sameRegion env region m
    match best with
    | none => some (m, same)
    | some (b, bestSame) =>
      if same ≠ bestSame then if same then some (m, true) else best
      else if m.loadRatio < b.loadRatio ∨ m.loadRatio = b.loadRatio ∧ m.node.id < b.node.id then
        some (m, bestSame)
      else best

/-- `Nearest`, over the members in the order of the loop. -/
def nearest (env : Regions) (ms : List (Member Load)) (region : String) : Option Node :=
  (ms.foldl (nearestStep env (env.normalize region)) none).map (·.1.node)

def better (cand cur : Member Load) : Bool :=
  if cand.routable ≠ cur.routable then !cand.routable
  else if cand.loadRatio ≠ cur.loadRatio then cand.loadRatio < cur.loadRatio
  else cand.node.id < cur.node.id

def drainStep (selfId : String) (best : Option (Member Load)) (m : Member Load) :
    Option (Member Load) :=
  if m.node.id = selfId then best
  else
    match best with
    | none => some m
    | some cur => if better m cur then some m else best

def drainCandidate (ms : List (Member Load)) (selfId : String) : Option String :=
  (ms.foldl (drainStep selfId) none).map (·.node.id)

/-- `decommission` says whether the provisioner has torn a node down. -/
def doDecommission (p : Pool Load) (ms : List (Member Load)) (selfId : String)
    (decommission : String → Bool) : Pool Load :=
  match drainCandidate ms selfId with
  | none => p
  | some id =>
    let drained := p.drain id
    if decommission id then drained.remove id else drained.undrain id

end Choice

end VulosRelay.Server.Autoscale
