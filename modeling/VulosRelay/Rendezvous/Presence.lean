import VulosRelay.Rendezvous.Queue

/-!
# The presence directory, and the caps of the queues

The model of an announce (`tunnel/rendezvous/presence.go`) and of the caps that the service
gives its two queues (`mergeCaps` in `tunnel/rendezvous/service.go`). A requested number of
seconds is turned into a lifetime in the same way for a record and for a blob (`clamp`).
-/

namespace VulosRelay.Rendezvous

open GoTime

def maxPresenceTTL : Int := 30 * minute

def defaultPresenceTTL : Int := 5 * minute

def clampPresenceTTL (seconds : Int) : Int := clamp defaultPresenceTTL maxPresenceTTL seconds

structure PresenceRecord where
  endpoints : List String
  metaText : String
  updatedAt : Int
  expiresAt : Int

structure PresenceStore where
  byKey : FinMap String PresenceRecord
  maxKeys : Int
  swep : Int
  sweepEach : Int

namespace PresenceStore

def sweepLocked (s : PresenceStore) (now : Int) : PresenceStore :=
  if sub now s.swep < s.sweepEach then s
  else { s with swep := now, byKey := FinMap.filter (fun _ r => now < r.expiresAt) s.byKey }

def upsert (s : PresenceStore) (key : String) (endpoints : List String) (metaText : String)
    (ttl now : Int) : PresenceStore × Option Int :=
  let s := s.sweepLocked now
  if key ∉ s.byKey ∧ (FinMap.size s.byKey : Int) ≥ s.maxKeys then (s, none)
  else
    ({ s with byKey := s.byKey.insert key ⟨endpoints, metaText, now, now + ttl⟩ },
      some (now + ttl))

end PresenceStore

def defaultSignalCaps : QueueCaps where
  maxBlobBytes := 64 * 2 ^ 10
  maxPerKeyBlobs := 64
  maxPerKeyBytes := 2 ^ 20
  defaultTTL := 2 * minute
  maxTTL := 10 * minute
  maxKeys := 0
  sweepEvery := 30 * second

def defaultMailboxCaps : QueueCaps where
  maxBlobBytes := 25 * 2 ^ 20
  maxPerKeyBlobs := 256
  maxPerKeyBytes := 100 * 2 ^ 20
  defaultTTL := 48 * (60 * minute)
  maxTTL := 48 * (60 * minute)
  maxKeys := 0
  sweepEvery := 15 * minute

def mergeCaps (override base : QueueCaps) : QueueCaps :=
  let pick (o d : Int) : Int := if o > 0 then o else d
  { maxBlobBytes := pick override.maxBlobBytes base.maxBlobBytes
    maxPerKeyBlobs := pick override.maxPerKeyBlobs base.maxPerKeyBlobs
    maxPerKeyBytes := pick override.maxPerKeyBytes base.maxPerKeyBytes
    defaultTTL := pick override.defaultTTL base.defaultTTL
    maxTTL := pick override.maxTTL base.maxTTL
    maxKeys := pick override.maxKeys base.maxKeys
    sweepEvery := pick override.sweepEvery base.sweepEvery }

end VulosRelay.Rendezvous
