import VulosRelay.Lib.Outcome
import VulosRelay.Lib.Wire
import VulosRelay.Pubcache.Addr

/-!
# The strict CBOR scanner

The model of `tunnel/pubcache/cbor.go`, and of `appendCBORUint` from `proof.go`,
which is its only writer. Heads carry a 64-bit argument; everything else is byte
positions in a slice. Doubling a map's item count is the one place where the
64-bit arithmetic of the source can wrap, so it is written with the modulus.
-/

namespace VulosRelay.Pubcache

open Wire

def cborMajorUint : UInt8 := 0
def cborMajorByteStr : UInt8 := 2
def cborMajorArray : UInt8 := 4
def cborMajorMap : UInt8 := 5

def maxCBORDepth : Nat := 16

def maxCBORItems : Nat := 2 ^ 20

def malformed (text : String) : GoError := ⟨.malformedObject, text⟩

structure Head where
  major : UInt8
  arg : Nat
  n : Nat
  deriving DecidableEq, Repr

def readWide (b : Bytes) (major : UInt8) (w narrower : Nat) : Except GoError Head :=
  if b.length < 1 + w then .error (malformed "truncated cbor head")
  else if beUint ((b.drop 1).take w) ≤ narrower then
    .error (malformed "non-minimal cbor integer")
  else .ok { major := major, arg := beUint ((b.drop 1).take w), n := 1 + w }

def readHead (b : Bytes) : Except GoError Head :=
  match b with
  | [] => .error (malformed "truncated cbor")
  | b0 :: _ =>
    let major := b0 >>> 5
    let ai := b0 &&& 0x1f
    if ai < 24 then .ok { major := major, arg := ai.toNat, n := 1 }
    else if ai = 24 then readWide b major 1 23
    else if ai = 25 then readWide b major 2 0xff
    else if ai = 26 then readWide b major 4 0xffff
    else if ai = 27 then readWide b major 8 0xffffffff
    else .error (malformed "reserved or indefinite-length cbor item")

def appendCBORUint (b : Bytes) (major : UInt8) (v : Nat) : Bytes :=
  let m := major <<< 5
  if v < 24 then b ++ [m ||| UInt8.ofNat v]
  else if v ≤ 0xff then b ++ (m ||| 24) :: beBytes 1 v
  else if v ≤ 0xffff then b ++ (m ||| 25) :: beBytes 2 v
  else if v ≤ 0xffffffff then b ++ (m ||| 26) :: beBytes 4 v
  else b ++ (m ||| 27) :: beBytes 8 v

def skipItems (skip : Bytes → Except GoError Nat) (b : Bytes) : Nat → Nat → Except GoError Nat
  | 0, off => .ok off
  | items + 1, off =>
    (skip (b.drop off)).bind fun m => skipItems skip b items (off + m)

def skipSimple (b : Bytes) : Except GoError Nat :=
  let arg := b.headD 0 &&& 0x1f
  if arg < 24 then .ok 1
  else if arg = 24 then .ok 2
  else if arg = 25 then .ok 3
  else if arg = 26 then .ok 5
  else if arg = 27 then .ok 9
  else .error (malformed "bad cbor simple value")

def skipLevels : Nat → Bytes → Except GoError Nat
  | 0, _ => .error (malformed "cbor nesting too deep")
  | levels + 1, b =>
    (readHead b).bind fun h =>
      if h.major = 0 ∨ h.major = 1 then .ok h.n
      else if h.major = 2 ∨ h.major = 3 then
        if h.arg > b.length - h.n then .error (malformed "cbor string overruns buffer")
        else .ok (h.n + h.arg)
      else if h.major = 4 ∨ h.major = 5 then
        -- `items *= 2` on a 64-bit word
        let items := if h.major = 5 then h.arg * 2 % 2 ^ 64 else h.arg
        if items > maxCBORItems then .error (malformed "cbor container too large")
        else skipItems (skipLevels levels) b items h.n
      else if h.major = 6 then
        (skipLevels levels (b.drop h.n)).bind fun m => .ok (h.n + m)
      else if h.major = 7 then skipSimple b
      else .error (malformed s!"unhandled cbor major type {h.major.toNat}")

def skipValue (b : Bytes) (depth : Nat) : Except GoError Nat :=
  skipLevels (maxCBORDepth + 1 - depth) b

structure CborEntry where
  key : Nat
  val : Bytes
  deriving DecidableEq, Repr

def parseEntries (b : Bytes) :
    Nat → Option Nat → Nat → Except GoError (List CborEntry × Nat)
  | 0, _, off => .ok ([], off)
  | left + 1, prev, off =>
    (readHead (b.drop off)).bind fun k =>
      if k.major ≠ cborMajorUint then .error (malformed "non-integer cbor map key")
      else if prev.any (fun p => k.arg ≤ p) then
        .error (malformed "cbor map keys not in deterministic order")
      else (skipValue (b.drop (off + k.n)) 1).bind fun vn =>
          (parseEntries b left (some k.arg) (off + k.n + vn)).bind fun rest =>
            .ok ({ key := k.arg, val := (b.drop (off + k.n)).take vn } :: rest.1, rest.2)

def parseUintKeyedMap (b : Bytes) : Except GoError (List CborEntry) :=
  (readHead b).bind fun h =>
    if h.major ≠ cborMajorMap then
      .error (malformed s!"expected a cbor map, got major type {h.major.toNat}")
    else if h.arg > maxCBORItems then .error (malformed "cbor map too large")
    else
      (parseEntries b h.arg none h.n).bind fun out =>
        if out.2 ≠ b.length then
          .error (malformed s!"{b.length - out.2} trailing bytes after cbor map")
        else .ok out.1

def parseAddrs (b : Bytes) : Nat → Nat → Except GoError (List Addr × Nat)
  | 0, off => .ok ([], off)
  | left + 1, off =>
    (readHead (b.drop off)).bind fun e =>
      if e.major ≠ cborMajorByteStr then
        .error (malformed "non-bytestring in chunk-hash array")
      else if h : e.arg = addrLen ∧ addrLen ≤ (b.drop (off + e.n)).length then
        let a := Addr.ofBytes ((b.drop (off + e.n)).take 33) (List.length_take_of_le h.2)
        if a.hashPrefix ≠ hashPrefixBLAKE3 then
          .error ⟨.badAddr, s!"unsupported hash prefix 0x{hex2 a.hashPrefix} in chunk list"⟩
        else
          (parseAddrs b left (off + e.n + addrLen)).bind fun rest =>
            .ok (a :: rest.1, rest.2)
      else .error (malformed s!"chunk hash is not a {addrLen}-byte address")

def parseAddrArray (b : Bytes) : Except GoError (List Addr) :=
  (readHead b).bind fun h =>
    if h.major ≠ cborMajorArray then .error (malformed "expected a cbor array of hashes")
    else if h.arg = 0 then
      .error (malformed "PubManifest.chunks must hold at least one hash")
    else if h.arg > maxCBORItems then .error (malformed "cbor array too large")
    else
      (parseAddrs b h.arg h.n).bind fun out =>
        if out.2 ≠ b.length then .error (malformed "trailing bytes after chunk-hash array")
        else .ok out.1

end VulosRelay.Pubcache
