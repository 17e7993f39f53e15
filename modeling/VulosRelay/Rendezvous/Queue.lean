import Mathlib.Data.Vector.Basic
import VulosRelay.Lib.Base64
import VulosRelay.Lib.FinMap
import VulosRelay.Lib.GoTime
import VulosRelay.Lib.Wire

/-!
# The keyed blob queue

The model of `tunnel/rendezvous/queue.go`, which backs both the signal exchange and
the mailbox: blobs are deposited for a recipient key, picked up without being
removed, and removed by an acknowledgement or, once expired, by a sweep.

A blob's id is made of the deposit time and ten random bytes, which are an argument
of `deposit` here. A slice filtered in place (`kept := pending[:0]`) is a filtered
list: nothing else refers to its backing array. The loop of the sweep treats each
key by itself, so it is written key by key.
-/

namespace VulosRelay.Rendezvous

open GoTime

structure QueueCaps where
  maxBlobBytes : Int
  maxPerKeyBlobs : Int
  maxPerKeyBytes : Int
  defaultTTL : Int
  maxTTL : Int
  maxKeys : Int
  sweepEvery : Int

structure Blob where
  id : String
  sender : String
  recipient : String
  payload : List UInt8
  depositedAt : Int
  expiresAt : Int
  deriving DecidableEq, Repr

structure BlobView where
  id : String
  sender : String
  payload : String
  depositedAt : Int
  expiresAt : Int
  deriving DecidableEq, Repr

structure Queue where
  caps : QueueCaps
  byKey : FinMap String (List Blob)
  bytes : FinMap String Int
  swep : Int

inductive DepositResult where
  | ok
  | tooLarge
  | quotaFull
  | capacity
  deriving DecidableEq, Repr

def newQueue (caps : QueueCaps) : Queue where
  caps :=
    { caps with
      maxKeys := if caps.maxKeys ≤ 0 then 100000 else caps.maxKeys
      sweepEvery := if caps.sweepEvery ≤ 0 then minute else caps.sweepEvery }
  byKey := ∅
  bytes := ∅
  swep := zero

def newBlobID (now : Int) (rand : List.Vector UInt8 10) : String :=
  String.ofList
    (Base64.encode (Wire.beBytes 6 ((now / 1000000) % 2 ^ 48).toNat ++ rand.toList))

def payloadBytes (blobs : List Blob) : Int := (blobs.map fun b => (b.payload.length : Int)).sum

def live (now : Int) (blobs : List Blob) : List Blob := blobs.filter fun b => now < b.expiresAt

def Blob.view (b : Blob) : BlobView where
  id := b.id
  sender := b.sender
  payload := String.ofList (Base64.encode b.payload)
  depositedAt := toUnix b.depositedAt
  expiresAt := toUnix b.expiresAt

/-- A requested number of seconds as a lifetime. The product is one of 64 bits. -/
def clamp (default max seconds : Int) : Int :=
  if seconds ≤ 0 then default
  else if int64 (seconds * second) > max then max
  else int64 (seconds * second)

namespace Queue

def clampTTL (q : Queue) (seconds : Int) : Int := clamp q.caps.defaultTTL q.caps.maxTTL seconds

def pending (q : Queue) (key : String) : List Blob := (q.byKey.lookup key).getD []

def pendingBytes (q : Queue) (key : String) : Int := (q.bytes.lookup key).getD 0

def reap (q : Queue) (now : Int) : Queue :=
  { q with
    swep := now
    byKey := FinMap.mapFilter
      (fun _ blobs => if live now blobs = [] then none else some (live now blobs)) q.byKey
    bytes := FinMap.mapFilter
      (fun _ blobs => if live now blobs = [] then none else some (payloadBytes (live now blobs)))
        q.byKey ∪ FinMap.filter (fun key _ => key ∉ q.byKey) q.bytes }

def sweepLocked (q : Queue) (now : Int) : Queue :=
  if sub now q.swep < q.caps.sweepEvery then q else q.reap now

def newBlob (sender recipient : String) (payload : List UInt8) (ttl now : Int)
    (rand : List.Vector UInt8 10) : Blob where
  id := newBlobID now rand
  sender := sender
  recipient := recipient
  payload := payload
  depositedAt := now
  expiresAt := now + ttl

def append (q : Queue) (b : Blob) : Queue :=
  { q with
    byKey := q.byKey.insert b.recipient (q.pending b.recipient ++ [b])
    bytes := q.bytes.insert b.recipient (q.pendingBytes b.recipient + b.payload.length) }

def enqueue (q : Queue) (b : Blob) : Queue × String × DepositResult :=
  if b.recipient ∉ q.byKey ∧ (FinMap.size q.byKey : Int) ≥ q.caps.maxKeys then (q, "", .capacity)
  else if ((q.pending b.recipient).length : Int) ≥ q.caps.maxPerKeyBlobs then (q, "", .quotaFull)
  else if q.pendingBytes b.recipient + b.payload.length > q.caps.maxPerKeyBytes then
    (q, "", .quotaFull)
  else (q.append b, b.id, .ok)

def deposit (q : Queue) (sender recipient : String) (payload : List UInt8) (ttl now : Int)
    (rand : List.Vector UInt8 10) : Queue × String × DepositResult :=
  if (payload.length : Int) > q.caps.maxBlobBytes then (q, "", .tooLarge)
  else (q.sweepLocked now).enqueue (newBlob sender recipient payload ttl now rand)

def pickup (q : Queue) (key : String) (now : Int) : Queue × List BlobView :=
  (q.sweepLocked now, (live now ((q.sweepLocked now).pending key)).map Blob.view)

def keep (q : Queue) (key : String) (kept : List Blob) (freed : Int) : Queue :=
  if kept = [] then { q with byKey := q.byKey.erase key, bytes := q.bytes.erase key }
  else
    { q with
      byKey := q.byKey.insert key kept
      bytes := q.bytes.insert key
        (if q.pendingBytes key - freed < 0 then 0 else q.pendingBytes key - freed) }

def ack (q : Queue) (key : String) (ids : List String) (_now : Int) : Queue × Nat :=
  if ids = [] then (q, 0)
  else if q.pending key = [] then (q, 0)
  else
    let dropped := (q.pending key).filter fun b => b.id ∈ ids
    (q.keep key ((q.pending key).filter fun b => b.id ∉ ids) (payloadBytes dropped),
      dropped.length)

end Queue

inductive QueueOp where
  | deposit (sender recipient : String) (payload : List UInt8) (ttl now : Int)
      (rand : List.Vector UInt8 10)
  | pickup (key : String) (now : Int)
  | ack (key : String) (ids : List String) (now : Int)
  | sweep (now : Int)

def Queue.step (q : Queue) : QueueOp → Queue
  | .deposit sender recipient payload ttl now rand =>
    (q.deposit sender recipient payload ttl now rand).1
  | .pickup key now => (q.pickup key now).1
  | .ack key ids now => (q.ack key ids now).1
  | .sweep now => q.sweepLocked now

def Queue.run (q : Queue) (ops : List QueueOp) : Queue := ops.foldl Queue.step q

end VulosRelay.Rendezvous
