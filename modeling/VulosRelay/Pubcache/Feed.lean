import Mathlib.Algebra.Ring.Nat
import VulosRelay.Keyauth.Canonical
import VulosRelay.Lib.Base64
import VulosRelay.Lib.GoText

/-!
# Feed requests and upstream URLs

The model of `validFeedKey`, of `parseFeedRange` and of what `serveFeed` asks its upstreams for
(`tunnel/pubcache/service.go`), of the checks of `parseUpstreams` and of `upstreamURL`
(`tunnel/pubcache/upstream.go`).

Of `net/url`, an upstream is what `url.Parse` has returned; `URL.String` is written out for a
URL with a host and without a user, an opaque part or a fragment, as every upstream is; and
of the reading back there is the query. The decoder that `EscapedPath` compares with is an
argument.
-/

namespace VulosRelay.Pubcache

open GoText Keyauth

def parseUint (s : Text) : Option UInt64 :=
  let n := s.foldl (fun n c => 10 * n + (c.toNat - 0x30)) 0
  if s ≠ [] ∧ s.all (fun c => 0x30 ≤ c ∧ c ≤ 0x39) ∧ n < 2 ^ 64 then some (UInt64.ofNat n) else none

def formatUint (n : UInt64) : Text := literal n.toNat.repr

def parseFeedRange (query : Text → Text) (max : UInt64) : Option (UInt64 × UInt64) :=
  if query (literal "from") = [] ∨ query (literal "to") = [] then none
  else
    (parseUint (query (literal "from"))).bind fun first =>
      (parseUint (query (literal "to"))).bind fun last =>
        if last < first then none
        else if last - first + 1 > max then none
        else some (first, last)

def rangeQuery (r : UInt64 × UInt64) : Text :=
  literal "from=" ++ formatUint r.1 ++ literal "&to=" ++ formatUint r.2

def maxFeedKeyB64Len : Nat := 64

/-- The canonical unpadded base64url text of 32 bytes. -/
def validFeedKey (s : Text) : Bool :=
  let chars := s.map fun c => Char.ofNat c.toNat
  if s = [] ∨ s.length > maxFeedKeyB64Len then false
  else
    match Base64.decode chars with
    | none => false
    | some raw => raw.length = 32 ∧ Base64.encode raw = chars

/-- The suffix that `serveFeed` fetches, or nothing where it answers that it does not serve. -/
def feedSuffix (serveFeeds : Bool) (pub op : Text) (query : Text → Text) (max : UInt64) :
    Option Text :=
  if !serveFeeds then none
  else if !validFeedKey pub then none
  else
    let suffix := literal "/feed/" ++ pub ++ literal "/" ++ op
    if op = literal "range" then
      (parseFeedRange query max).map fun r => suffix ++ literal "?" ++ rangeQuery r
    else some suffix

structure Url where
  scheme : Text
  hasUser : Bool
  host : Text
  path : Text
  rawPath : Text
  forceQuery : Bool
  rawQuery : Text
  fragment : Text
  deriving DecidableEq

def parseUpstream (u : Url) : Option Url :=
  if u.scheme ≠ literal "http" ∧ u.scheme ≠ literal "https" then none
  else if u.host = [] then none
  else if u.hasUser then none
  else if u.rawQuery ≠ [] ∨ u.fragment ≠ [] then none
  else some { u with path := if u.path.getLast? = some 0x2F then u.path.dropLast else u.path }

def isAlnum (c : UInt8) : Bool :=
  (0x30 ≤ c ∧ c ≤ 0x39) ∨ (0x41 ≤ c ∧ c ≤ 0x5A) ∨ (0x61 ≤ c ∧ c ≤ 0x7A)

def pathPlain : Text := literal "-_.~$&+,/:;=@"

def hostPlain : Text := literal "-_.~!$&'()*+,;=:[]<>\""

def shouldEscape (plain : Text) (c : UInt8) : Bool := !isAlnum c && !plain.contains c

def upperHex (n : UInt8) : UInt8 := if n < 10 then 0x30 + n else 0x37 + n

def escape (plain s : Text) : Text :=
  s.flatMap fun c =>
    if shouldEscape plain c then [0x25, upperHex (c / 16), upperHex (c % 16)] else [c]

def validEncoded (s : Text) : Bool :=
  s.all fun c => (literal "!'()*[]%").contains c || !shouldEscape pathPlain c

def Url.escapedPath (unescape : Text → Option Text) (u : Url) : Text :=
  if u.rawPath ≠ [] ∧ validEncoded u.rawPath ∧ unescape u.rawPath = some u.path then u.rawPath
  else if u.path = literal "*" then literal "*"
  else escape pathPlain u.path

def Url.string (unescape : Text → Option Text) (u : Url) : Text :=
  let path := u.escapedPath unescape
  u.scheme ++ literal "://" ++ escape hostPlain u.host ++
    (if path ≠ [] ∧ path.head? ≠ some 0x2F then literal "/" else []) ++ path ++
    (if u.forceQuery ∨ u.rawQuery ≠ [] then literal "?" ++ u.rawQuery else [])

def upstreamURL (unescape : Text → Option Text) (base : Url) (suffix : Text) : Text :=
  { base with path := base.path ++ suffix }.string unescape

/-- The `RawQuery` of a text that is parsed: what follows the first `?` before any `#`. -/
def queryOf (s : Text) : Text := ((s.takeWhile (· ≠ 0x23)).dropWhile (· ≠ 0x3F)).drop 1

end VulosRelay.Pubcache
