import VulosRelay.Gateway.Outbound
import VulosRelay.Lib.IpBlock
import VulosRelay.Lib.Utf8
import Mathlib.Data.List.Sort

/-!
# The DNS client

The model of `crates/gateway/src/dns.rs`: the query packet, the parsing of a response with
its compressed names, and `query_raw`, which sends one packet and takes the first datagram
that arrives. What the resolvers of the gateway read out of the answers follows at the end
(`mx.rs`, `spf.rs`, `mta_sts.rs`, `dmarc.rs`).

A packet is its list of bytes, and an offset a number. A name is read byte by byte, and
starts over at an earlier byte for each pointer.
-/

namespace VulosRelay.Gateway.Dns

inductive DnsError where
  | truncated
  | badPointer
  deriving DecidableEq

def classIn : Nat := 1
def typeA : Nat := 1
def typeMx : Nat := 15
def typeTxt : Nat := 16
def typeAaaa : Nat := 28

def u16Bytes (n : Nat) : List UInt8 := [UInt8.ofNat (n / 256), UInt8.ofNat (n % 256)]

def labelsOf (name : Str) : List Str := (splitAt '.' (trimEndMatches '.' name)).filter (· ≠ [])

def encodeName (name : Str) : List UInt8 :=
  (labelsOf name).flatMap (fun label =>
    UInt8.ofNat (min (Utf8.encode label).length 63) :: (Utf8.encode label).take 63) ++ [0]

def encodeQuery (id : Nat) (qname : Str) (qtype : Nat) : List UInt8 :=
  u16Bytes id ++ u16Bytes 0x0100 ++ u16Bytes 1 ++ u16Bytes 0 ++ u16Bytes 0 ++ u16Bytes 0
    ++ encodeName qname ++ u16Bytes qtype ++ u16Bytes classIn

def readU16 (packet : List UInt8) (pos : Nat) : Except DnsError Nat :=
  match packet.drop pos with
  | a :: b :: _ => .ok (a.toNat * 256 + b.toNat)
  | _ => .error .truncated

inductive Stop where
  | done (next : Nat)
  | jump (target next : Nat)

def readLabels (size : Nat) :
    (need : Nat) → (label : List UInt8) → (labels : List Str) → (pos : Nat) →
      (rest : List UInt8) → Except DnsError (List Str × Stop)
  | _, _, _, _, [] => .error .truncated
  | need + 1, label, labels, pos, b :: rest =>
    if need = 0 then
      readLabels size 0 [] (labels ++ [Utf8.decodeLossy (label ++ [b])]) (pos + 1) rest
    else readLabels size need (label ++ [b]) labels (pos + 1) rest
  | 0, _, labels, pos, b :: rest =>
    if b = 0 then .ok (labels, .done (pos + 1))
    else if b &&& 0xC0 = 0xC0 then
      match rest with
      | [] => .error .truncated
      | low :: _ =>
        let target := (b &&& 0x3F).toNat * 256 + low.toNat
        if target ≥ size ∨ target ≥ pos then .error .badPointer
        else .ok (labels, .jump target (pos + 2))
    else if b &&& 0xC0 ≠ 0 then .error .badPointer
    else readLabels size b.toNat [] labels (pos + 1) rest

def readNameFrom (packet : List UInt8) :
    (jumps : Nat) → (labels : List Str) → (resumeAt : Option Nat) → (pos : Nat) →
      Except DnsError (List Str × Nat)
  | 0, _, _, _ => .error .badPointer
  | jumps + 1, labels, resumeAt, pos =>
    match readLabels packet.length 0 [] labels pos (packet.drop pos) with
    | .error e => .error e
    | .ok (labels, .done next) => .ok (labels, resumeAt.getD next)
    | .ok (labels, .jump target next) =>
      readNameFrom packet jumps labels (some (resumeAt.getD next)) target

def readName (packet : List UInt8) (start : Nat) : Except DnsError (Str × Nat) :=
  (readNameFrom packet 33 [] none start).map fun r => (List.intercalate ['.'] r.1, r.2)

structure ResourceRecord where
  name : Str
  rtype : Nat
  rdata : List UInt8
  rdataOffset : Nat

structure DnsMessage where
  id : Nat
  rcode : Nat
  answers : List ResourceRecord

def skipQuestions (packet : List UInt8) : Nat → Nat → Except DnsError Nat
  | 0, pos => .ok pos
  | n + 1, pos =>
    match readName packet pos with
    | .error e => .error e
    | .ok (_, next) =>
      if next + 4 > packet.length then .error .truncated
      else skipQuestions packet n (next + 4)

def slice (packet : List UInt8) (pos n : Nat) : Except DnsError (List UInt8) :=
  if pos + n ≤ packet.length then .ok ((packet.drop pos).take n) else .error .truncated

def readAnswer (packet : List UInt8) (pos : Nat) : Except DnsError (ResourceRecord × Nat) := do
  let (name, pos) ← readName packet pos
  let rtype ← readU16 packet pos
  let _rclass ← readU16 packet (pos + 2)
  let _ttl ← slice packet (pos + 4) 4
  let rdlength ← readU16 packet (pos + 8)
  let rdata ← slice packet (pos + 10) rdlength
  pure (⟨name, rtype, rdata, pos + 10⟩, pos + 10 + rdlength)

def readAnswers (packet : List UInt8) : Nat → Nat → Except DnsError (List ResourceRecord)
  | 0, _ => .ok []
  | n + 1, pos =>
    match readAnswer packet pos with
    | .error e => .error e
    | .ok (rr, next) => (readAnswers packet n next).map (rr :: ·)

def parseResponse (packet : List UInt8) : Except DnsError DnsMessage :=
  if packet.length < 12 then .error .truncated
  else do
    let id ← readU16 packet 0
    let flags ← readU16 packet 2
    let qdcount ← readU16 packet 4
    let ancount ← readU16 packet 6
    let pos ← skipQuestions packet qdcount 12
    if flags % 16 ≠ 0 then pure ⟨id, flags % 16, []⟩
    else (readAnswers packet ancount pos).map fun answers => ⟨id, 0, answers⟩

inductive QueryError where
  | unspellable (reason : Str)
  | io (error : Str)
  | invalid (error : DnsError)

structure Network where
  domainToAscii : Str → Except Str Str
  random : Except Str (UInt8 × UInt8)
  /-- The socket: for the packet that is sent, an error of a call, or the first datagram
  that arrives. -/
  arrival : List UInt8 → Except Str (List UInt8)

def txnId (bytes : UInt8 × UInt8) : Nat := bytes.1.toNat * 256 + bytes.2.toNat

def maxDatagram : Nat := 4096

def queryRaw (net : Network) (qname : Str) (qtype : Nat) :
    Except QueryError (List UInt8 × DnsMessage) :=
  match net.domainToAscii qname with
  | .error reason => .error (.unspellable reason)
  | .ok ascii =>
    match net.random with
    | .error e => .error (.io e)
    | .ok bytes =>
      match net.arrival (encodeQuery (txnId bytes) ascii qtype) with
      | .error e => .error (.io e)
      | .ok datagram =>
        match parseResponse (datagram.take maxDatagram) with
        | .error e => .error (.invalid e)
        | .ok msg => .ok (datagram.take maxDatagram, msg)

def query (net : Network) (qname : Str) (qtype : Nat) : Except QueryError DnsMessage :=
  (queryRaw net qname qtype).map (·.2)

def parseMxRdata (packet : List UInt8) (rr : ResourceRecord) : Except DnsError (Nat × Str) :=
  match rr.rdata with
  | a :: b :: _ :: _ =>
    (readName packet (rr.rdataOffset + 2)).map fun r => (a.toNat * 256 + b.toNat, r.1)
  | _ => .error .truncated

def parseTxtRdata (rdata : List UInt8) : Str :=
  go rdata.length rdata
where
  /-- Each character string takes at least its length byte. -/
  go : Nat → List UInt8 → Str
    | 0, _ => []
    | _, [] => []
    | n + 1, len :: rest =>
      if rest.length < len.toNat then []
      else Utf8.decodeLossy (rest.take len.toNat) ++ go n (rest.drop len.toNat)

def txtValues (msg : DnsMessage) : List Str :=
  (msg.answers.filter (·.rtype == typeTxt)).map fun rr => parseTxtRdata rr.rdata

def addressValues (rtype size : Nat) (msg : DnsMessage) : List (List UInt8) :=
  ((msg.answers.filter (·.rtype == rtype)).map (·.rdata)).filter (·.length == size)

def aValues : DnsMessage → List (List UInt8) := addressValues typeA 4

def aaaaValues : DnsMessage → List (List UInt8) := addressValues typeAaaa 16

def mxValues (packet : List UInt8) (msg : DnsMessage) : List Outbound.MxHost :=
  (msg.answers.filter (·.rtype == typeMx)).filterMap fun rr =>
    (parseMxRdata packet rr).toOption.map fun r => ⟨r.2, r.1⟩

def resolveMx (net : Network) (domain : Str) : List Outbound.MxHost :=
  let domain := (net.domainToAscii domain).toOption.getD domain
  let hosts :=
    match queryRaw net domain typeMx with
    | .ok (packet, msg) => mxValues packet msg
    | .error _ => []
  (if hosts = [] then [⟨domain, 0⟩] else hosts).insertionSort (·.preference ≤ ·.preference)

end VulosRelay.Gateway.Dns
