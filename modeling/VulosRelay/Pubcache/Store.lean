import Mathlib.Data.Finset.Basic
import VulosRelay.Pubcache.Addr

/-!
# The object cache

The model of `tunnel/pubcache/store.go`: a size-capped LRU with a lifetime per
object. The list is in order of use, most recent first, and `items` is the key
set of the map beside it; an element of the list is found by its key. Times are
the values of the store's clock.
-/

namespace VulosRelay.Pubcache

structure StoreConfig where
  maxBytes : Int
  maxObjBytes : Int
  ttl : Int

structure Entry where
  key : String
  body : Bytes
  storedAt : Int
  deriving DecidableEq, Repr

structure Store where
  ll : List Entry
  items : Finset String
  bytes : Int

def Store.empty : Store := ⟨[], ∅, 0⟩

def cacheKey (kind : Kind) (a : Addr) : String := kind.string ++ ":" ++ a.string

namespace Store

def element (s : Store) (key : String) : Option Entry :=
  if key ∈ s.items then s.ll.find? (fun e => e.key = key) else none

def removeLocked (s : Store) (e : Entry) : Store :=
  { ll := s.ll.erase e, items := s.items.erase e.key, bytes := s.bytes - e.body.length }

def evictLocked (cfg : StoreConfig) : Nat → Store → Store
  | 0, s => s
  | fuel + 1, s =>
    if cfg.maxBytes > 0 ∧ s.bytes > cfg.maxBytes then
      match s.ll.getLast? with
      | none => s
      | some back => evictLocked cfg fuel (s.removeLocked back)
    else s

def get (cfg : StoreConfig) (now : Int) (s : Store) (key : String) : Store × Option (Bytes × Int) :=
  match s.element key with
  | none => (s, none)
  | some e =>
    if cfg.ttl > 0 ∧ now - e.storedAt ≥ cfg.ttl then (s.removeLocked e, none)
    else ({ s with ll := e :: s.ll.erase e }, some (e.body, e.storedAt))

def put (cfg : StoreConfig) (now : Int) (s : Store) (key : String) (body : Bytes) : Store :=
  if cfg.maxObjBytes > 0 ∧ (body.length : Int) > cfg.maxObjBytes then s
  else if cfg.maxBytes > 0 ∧ (body.length : Int) > cfg.maxBytes then s
  else
    match s.element key with
    | some e => { s with ll := { e with storedAt := now } :: s.ll.erase e }
    | none =>
      evictLocked cfg (s.ll.length + 1)
        { ll := { key := key, body := body, storedAt := now } :: s.ll,
          items := insert key s.items,
          bytes := s.bytes + body.length }

def purge (_ : Store) : Store := empty

end Store

end VulosRelay.Pubcache
