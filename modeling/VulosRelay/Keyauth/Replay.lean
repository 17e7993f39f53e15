import VulosRelay.Lib.FinMap
import VulosRelay.Lib.GoTime

/-!
# The replay guard

The model of `tunnel/internal/keyauth/replay.go`. A signed write carries a Unix
timestamp and a nonce. The guard wants the timestamp to be near its own clock and
the pair of key and nonce to be new; it remembers the pair for one skew from the
moment it accepted it, and forgets expired pairs now and then.
-/

namespace VulosRelay.Keyauth

open GoTime

structure Guard where
  skew : Int
  maxKeys : Int
  seen : FinMap String Int
  swep : Int

def defaultClockSkew : Int := 5 * minute

def newGuard (skew maxKeys : Int) : Guard where
  skew := if skew ≤ 0 then defaultClockSkew else skew
  maxKeys := if maxKeys ≤ 0 then 100000 else maxKeys
  seen := ∅
  swep := zero

namespace Guard

def freshTimestamp (g : Guard) (ts now : Int) : Bool :=
  if ts ≤ 0 then false
  else
    let delta := sub now (unix ts)
    let delta := if delta < 0 then neg delta else delta
    delta ≤ g.skew

def seenId (key nonce : String) : String := key ++ "\x00" ++ nonce

def interval (g : Guard) : Int := if g.skew.tdiv 4 ≤ 0 then minute else g.skew.tdiv 4

def sweepLocked (g : Guard) (now : Int) : Guard :=
  if sub now g.swep < g.interval then g
  else { g with swep := now, seen := FinMap.filter (fun _ exp => now < exp) g.seen }

def record (g : Guard) (id : String) (now : Int) : Guard × Bool :=
  if (g.seen.lookup id).any (fun exp => now < exp) then (g, false)
  else if (FinMap.size g.seen : Int) ≥ g.maxKeys ∧ id ∉ g.seen then (g, false)
  else ({ g with seen := g.seen.insert id (now + g.skew) }, true)

def checkAndRecord (g : Guard) (key nonce : String) (ts now : Int) : Guard × Bool :=
  if nonce = "" ∨ g.freshTimestamp ts now = false then (g, false)
  else (g.sweepLocked now).record (seenId key nonce) now

end Guard

end VulosRelay.Keyauth
