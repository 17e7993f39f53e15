import VulosRelay.Gateway.Text
import VulosRelay.Lib.FinMap
import VulosRelay.Lib.System

/-!
# The registry of tunnels

The model of `TunnelRegistry` and its guards (`crates/reachability-adapter/src/tunnel.rs`). A
handle is the number of its tunnel, and generations do not run out. The guards that are held and
the removals that dropped ones have spawned are part of the state, so a removal may come at any
later time; so are the registrations made and the removals done, latest first.
-/

namespace VulosRelay.Reachability

open Gateway (Str toAsciiLowercase)

structure Registration where
  name : Str
  allowedServices : Finset Str
  deriving DecidableEq

structure RegisteredTunnel where
  handle : Nat
  allowedServices : Finset Str
  ownerIk : List UInt8
  generation : Nat
  deriving DecidableEq

structure RegistrationGuard where
  name : Str
  generation : Nat
  deriving DecidableEq

structure RegistryState where
  tunnels : FinMap Str RegisteredTunnel
  /-- A word of 64 bits. -/
  nextGeneration : Nat

namespace RegistryState

/-- `register`. It fails with `OwnedByDifferentIdentity`. -/
def register (s : RegistryState) (registration : Registration) (ownerIk : List UInt8)
    (handle : Nat) : Option (RegistryState × RegistrationGuard) :=
  if ∃ existing ∈ s.tunnels.lookup registration.name, existing.ownerIk ≠ ownerIk then none
  else
    let tunnel := ⟨handle, registration.allowedServices, ownerIk, s.nextGeneration⟩
    some (⟨s.tunnels.insert registration.name tunnel, (s.nextGeneration + 1) % 2 ^ 64⟩,
      ⟨registration.name, s.nextGeneration⟩)

/-- The entry that `lookup` reads. -/
def lookupEntry (s : RegistryState) (sniName : Str) : Option RegisteredTunnel :=
  s.tunnels.lookup (toAsciiLowercase sniName)

/-- `lookup`: the handle and the services. -/
def lookup (s : RegistryState) (sniName : Str) : Option (Nat × Finset Str) :=
  (s.lookupEntry sniName).map fun t => (t.handle, t.allowedServices)

def deregister (s : RegistryState) (g : RegistrationGuard) : RegistryState :=
  if ∃ existing ∈ s.tunnels.lookup g.name, existing.generation = g.generation then
    { s with tunnels := s.tunnels.erase g.name }
  else s

end RegistryState

structure World where
  registry : RegistryState
  guards : List RegistrationGuard
  tasks : List RegistrationGuard
  made : List (Str × RegisteredTunnel)
  processed : List RegistrationGuard

inductive Act where
  | register (registration : Registration) (ownerIk : List UInt8) (handle : Nat)
  | dropGuard (g : RegistrationGuard)
  | deregister (g : RegistrationGuard)

def World.step (w : World) : Act → Option World
  | .register r ik handle =>
    (w.registry.register r ik handle).map fun s => { w with
      registry := s.1
      guards := s.2 :: w.guards
      made := (r.name, ⟨handle, r.allowedServices, ik, s.2.generation⟩) :: w.made }
  | .dropGuard g =>
    if g ∈ w.guards then some { w with guards := w.guards.erase g, tasks := g :: w.tasks }
    else none
  | .deregister g =>
    if g ∈ w.tasks then
      some { w with
        registry := w.registry.deregister g
        tasks := w.tasks.erase g
        processed := g :: w.processed }
    else none

def World.new : World := ⟨⟨∅, 0⟩, [], [], [], []⟩

def adapter : System World Act := ⟨fun w => w = World.new, World.step⟩

end VulosRelay.Reachability
