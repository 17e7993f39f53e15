import VulosRelay.Gateway.Inbound

/-!
# SPF evaluation

The model of `check_host` (`crates/gateway/src/spf.rs`) with the parser of records. The
parsing of IP addresses is the standard library's.

A resolver may answer a question differently each time: its answers get everything that
happened before as an argument. An evaluator carries the two counters of the source and
notes what happened, the charges against the lookup budget and the calls of the resolver,
each with whether its answer was a void one. The recursion through `include` and `redirect`
is over the levels that the guard on the depth still allows.
-/

namespace VulosRelay.Gateway.Spf

inductive Qualifier where
  | pass
  | fail
  | softFail
  | neutral
  deriving DecidableEq

def Qualifier.toResult : Qualifier → SpfResult
  | .pass => .pass
  | .fail => .fail
  | .softFail => .softFail
  | .neutral => .neutral

inductive Mechanism where
  | all
  | includes (target : Str)
  | a (domain : Option Str) (cidr4 cidr6 : Nat)
  | mx (domain : Option Str) (cidr4 cidr6 : Nat)
  | ip4 (net : Ip.Addr 4) (cidr : Nat)
  | ip6 (net : Ip.Addr 16) (cidr : Nat)
  | ptr
  | exists (target : Str)

structure ParsedRecord where
  mechanisms : List (Qualifier × Mechanism)
  redirect : Option Str

structure IpTexts where
  parse4 : Str → Option (Ip.Addr 4)
  parse6 : Str → Option (Ip.Addr 16)

def parseLength (bound : Nat) (s : Str) : Option Nat :=
  (parseUnsigned 255 s).bind fun n => if n > bound then none else some n

def parseDualCidr (part : Str) : Option (Nat × Nat) :=
  if part = [] then some (32, 128)
  else
    match stripPrefix "//".toList part with
    | some v6only => (parseLength 128 v6only).map fun c6 => (32, c6)
    | none =>
      (stripPrefix ['/'] part).bind fun rest =>
        match splitAt '/' rest with
        | [v4] => (parseLength 32 v4).map fun c4 => (c4, 128)
        | [v4, v6] =>
          (parseLength 32 v4).bind fun c4 => (parseLength 128 v6).map fun c6 => (c4, c6)
        | _ => none

def parseDomainSpec (rest : Str) : Option (Option Str × Nat × Nat) :=
  let domainPart := rest.takeWhile (· != '/')
  let cidrPart := rest.dropWhile (· != '/')
  match stripPrefix [':'] domainPart with
  | some d => if d = [] then none else (parseDualCidr cidrPart).map fun c => (some d, c)
  | none => if domainPart = [] then (parseDualCidr cidrPart).map fun c => (none, c) else none

def parseIpCidr {α : Type} (parse : Str → Option α) (bound : Nat) (v : Str) : Option (α × Nat) :=
  match splitOnce '/' v with
  | some (addr, cidr) =>
    (parseLength bound cidr).bind fun c => (parse addr).map fun ip => (ip, c)
  | none => (parse v).map fun ip => (ip, bound)

def valueOf (rest : Str) : Option Str :=
  (stripPrefix [':'] rest).bind fun v => if v = [] then none else some v

def parseMechanism (ips : IpTexts) (s : Str) : Option Mechanism :=
  let keyword := toAsciiLowercase (s.takeWhile fun c => c != ':' && c != '/')
  let rest := s.dropWhile fun c => c != ':' && c != '/'
  if keyword = "all".toList then if rest = [] then some .all else none
  else if keyword = "include".toList then (valueOf rest).map .includes
  else if keyword = "exists".toList then (valueOf rest).map .exists
  else if keyword = "a".toList then
    (parseDomainSpec rest).map fun r => .a r.1 r.2.1 r.2.2
  else if keyword = "mx".toList then
    (parseDomainSpec rest).map fun r => .mx r.1 r.2.1 r.2.2
  else if keyword = "ptr".toList then
    if rest = [] then some .ptr else (valueOf rest).map fun _ => .ptr
  else if keyword = "ip4".toList then
    (stripPrefix [':'] rest).bind fun v =>
      (parseIpCidr ips.parse4 32 v).map fun r => .ip4 r.1 r.2
  else if keyword = "ip6".toList then
    (stripPrefix [':'] rest).bind fun v =>
      (parseIpCidr ips.parse6 128 v).map fun r => .ip6 r.1 r.2
  else none

def parseQualifier : Str → Qualifier × Str
  | '+' :: rest => (.pass, rest)
  | '-' :: rest => (.fail, rest)
  | '~' :: rest => (.softFail, rest)
  | '?' :: rest => (.neutral, rest)
  | term => (.pass, term)

def parseTerm (ips : IpTexts) (record : ParsedRecord) (term : Str) : Option ParsedRecord :=
  match splitOnce '=' term with
  | some (name, value) =>
    if eqIgnoreAsciiCase name "redirect".toList then
      if record.redirect.isSome || value.isEmpty then none
      else some { record with redirect := some value }
    else some record
  | none =>
    (parseMechanism ips (parseQualifier term).2).map fun m =>
      { record with mechanisms := record.mechanisms ++ [((parseQualifier term).1, m)] }

def parseRecord (ips : IpTexts) (record : Str) : Option ParsedRecord :=
  match splitWhitespace record with
  | [] => none
  | version :: terms =>
    if version ≠ "v=spf1".toList then none else terms.foldlM (parseTerm ips) ⟨[], none⟩

def isSpf1Record (t : Str) : Bool :=
  trim t == "v=spf1".toList || (stripPrefix "v=spf1 ".toList (trim t)).isSome

def normalize (d : Str) : Str := toAsciiLowercase (trimEndMatches '.' (trim d))

def Mechanism.hasMacro : Mechanism → Bool
  | .includes d => d.contains '%'
  | .exists d => d.contains '%'
  | .a (some d) _ _ => d.contains '%'
  | .mx (some d) _ _ => d.contains '%'
  | _ => false

def toNumber : List UInt8 → Nat
  | [] => 0
  | b :: rest => b.toNat * 2 ^ (8 * rest.length) + toNumber rest

def inCidr (width ip net cidr : Nat) : Bool :=
  if cidr = 0 then true
  else
    let cidr := min cidr width
    let ones := 2 ^ width - 1
    let mask := if cidr = width then ones else ones ^^^ (ones >>> cidr)
    ip &&& mask == net &&& mask

def ipv4InCidr (ip net : Ip.Addr 4) (cidr : Nat) : Bool :=
  inCidr 32 (toNumber (List.ofFn ip)) (toNumber (List.ofFn net)) cidr

def ipv6InCidr (ip net : Ip.Addr 16) (cidr : Nat) : Bool :=
  inCidr 128 (toNumber (List.ofFn ip)) (toNumber (List.ofFn net)) cidr

inductive Query where
  | txt (name : Str)
  | a (name : Str)
  | aaaa (name : Str)
  | mx (name : Str)
  deriving DecidableEq

inductive Event where
  | charged
  /-- A call of the resolver; `void` if it asked for addresses or mail hosts and got none. -/
  | asked (query : Query) (void : Bool)
  deriving DecidableEq

structure SpfResolver where
  lookupTxt : List Event → Str → Option (List Str)
  lookupA : List Event → Str → Option (List (Ip.Addr 4))
  lookupAaaa : List Event → Str → Option (List (Ip.Addr 16))
  lookupMx : List Event → Str → Option (List Str)

structure Evaluator where
  lookups : Nat
  voidLookups : Nat
  trace : List Event

def maxLookups : Nat := 10

def maxVoidLookups : Nat := 2

def maxLevels : Nat := 11

inductive MechOutcome where
  | matched
  | noMatch
  | abort (result : SpfResult)
  deriving DecidableEq

def Evaluator.note (ev : Evaluator) (event : Event) : Evaluator :=
  { ev with trace := ev.trace ++ [event] }

def Evaluator.chargeLookup (ev : Evaluator) : Option SpfResult × Evaluator :=
  let ev := { ev with lookups := ev.lookups + 1 }.note .charged
  (if ev.lookups > maxLookups then some .permError else none, ev)

def Evaluator.chargeVoid (ev : Evaluator) : MechOutcome × Evaluator :=
  let ev := { ev with voidLookups := ev.voidLookups + 1 }
  (if ev.voidLookups > maxVoidLookups then .abort .permError else .noMatch, ev)

def askVoidable {α : Type} (query : Query) (answer : Option (List α))
    (found : List α → Evaluator → MechOutcome × Evaluator) (ev : Evaluator) :
    MechOutcome × Evaluator :=
  match answer with
  | none => (.abort .tempError, ev.note (.asked query false))
  | some [] => (ev.note (.asked query true)).chargeVoid
  | some (x :: xs) => found (x :: xs) (ev.note (.asked query false))

section
variable (ips : IpTexts) (resolver : SpfResolver) (ip : Ip.IP)

def matchAddressLookup (target : Str) (cidr4 cidr6 : Nat) (ev : Evaluator) :
    MechOutcome × Evaluator :=
  match ip with
  | .v4 v4 =>
    askVoidable (.a target) (resolver.lookupA ev.trace target)
      (fun found ev =>
        (if found.any fun a => ipv4InCidr v4 a cidr4 then .matched else .noMatch, ev)) ev
  | .v6 v6 =>
    askVoidable (.aaaa target) (resolver.lookupAaaa ev.trace target)
      (fun found ev =>
        (if found.any fun a => ipv6InCidr v6 a cidr6 then .matched else .noMatch, ev)) ev

def matchHosts (cidr4 cidr6 : Nat) : List Str → Evaluator → MechOutcome × Evaluator
  | [], ev => (.noMatch, ev)
  | host :: hosts, ev =>
    match ev.chargeLookup with
    | (some e, ev) => (.abort e, ev)
    | (none, ev) =>
      match matchAddressLookup resolver ip (normalize host) cidr4 cidr6 ev with
      | (.noMatch, ev) => matchHosts cidr4 cidr6 hosts ev
      | stopped => stopped

def includeOutcome : SpfResult → MechOutcome
  | .pass => .matched
  | .fail => .noMatch
  | .softFail => .noMatch
  | .neutral => .noMatch
  | .tempError => .abort .tempError
  | .unpublished => .abort .permError
  | .permError => .abort .permError

def evalMechanism (check : Str → Evaluator → SpfResult × Evaluator) (current : Str)
    (m : Mechanism) (ev : Evaluator) : MechOutcome × Evaluator :=
  match m with
  | .all => (.matched, ev)
  | .ip4 net cidr =>
    match ip with
    | .v4 v4 => (if ipv4InCidr v4 net cidr then .matched else .noMatch, ev)
    | .v6 _ => (.noMatch, ev)
  | .ip6 net cidr =>
    match ip with
    | .v6 v6 => (if ipv6InCidr v6 net cidr then .matched else .noMatch, ev)
    | .v4 _ => (.noMatch, ev)
  | .includes target =>
    match ev.chargeLookup with
    | (some e, ev) => (.abort e, ev)
    | (none, ev) => (includeOutcome (check target ev).1, (check target ev).2)
  | .a domain cidr4 cidr6 =>
    match ev.chargeLookup with
    | (some e, ev) => (.abort e, ev)
    | (none, ev) =>
      matchAddressLookup resolver ip (normalize (domain.getD current)) cidr4 cidr6 ev
  | .mx domain cidr4 cidr6 =>
    match ev.chargeLookup with
    | (some e, ev) => (.abort e, ev)
    | (none, ev) =>
      let target := normalize (domain.getD current)
      askVoidable (.mx target) (resolver.lookupMx ev.trace target)
        (matchHosts resolver ip cidr4 cidr6) ev
  | .ptr =>
    match ev.chargeLookup with
    | (some e, ev) => (.abort e, ev)
    | (none, ev) => (.noMatch, ev)
  | .exists target =>
    match ev.chargeLookup with
    | (some e, ev) => (.abort e, ev)
    | (none, ev) =>
      askVoidable (.a (normalize target)) (resolver.lookupA ev.trace (normalize target))
        (fun _ ev => (.matched, ev)) ev

def evalMechanisms (check : Str → Evaluator → SpfResult × Evaluator) (current : Str) :
    List (Qualifier × Mechanism) → Evaluator → Option SpfResult × Evaluator
  | [], ev => (none, ev)
  | (q, m) :: rest, ev =>
    if m.hasMacro then (some .permError, ev)
    else
      match evalMechanism resolver ip check current m ev with
      | (.matched, ev) => (some q.toResult, ev)
      | (.abort r, ev) => (some r, ev)
      | (.noMatch, ev) => evalMechanisms check current rest ev

def afterMechanisms (check : Str → Evaluator → SpfResult × Evaluator) (redirect : Option Str)
    (ev : Evaluator) : SpfResult × Evaluator :=
  match redirect with
  | none => (.neutral, ev)
  | some target =>
    if target.contains '%' then (.permError, ev)
    else
      match ev.chargeLookup with
      | (some e, ev) => (e, ev)
      | (none, ev) => check target ev

def checkHostFrom : Nat → Str → Evaluator → SpfResult × Evaluator
  | 0, _, ev => (.permError, ev)
  | levels + 1, domain, ev =>
    let name := normalize domain
    if name = [] then (.unpublished, ev)
    else
      let asked := ev.note (.asked (.txt name) false)
      match resolver.lookupTxt ev.trace name with
      | none => (.tempError, asked)
      | some txts =>
        match txts.filter isSpf1Record with
        | [] => (.unpublished, asked)
        | [record] =>
          match parseRecord ips record with
          | none => (.permError, asked)
          | some parsed =>
            let check := fun target ev => checkHostFrom levels target ev
            match evalMechanisms resolver ip check name parsed.mechanisms asked with
            | (some r, ev) => (r, ev)
            | (none, ev) => afterMechanisms check parsed.redirect ev
        | _ => (.permError, asked)

def checkHost (domain : Str) : SpfResult × Evaluator :=
  checkHostFrom ips resolver ip maxLevels domain ⟨0, 0, []⟩

end

def domainOf (addr : Str) : Option Str :=
  (splitOnce '@' (trimBrackets (trim addr)).reverse).bind fun r =>
    if r.1 = [] then none else some r.1.reverse

def evaluate (ips : IpTexts) (resolver : SpfResolver) (ip : Ip.IP) (mailFrom : Str)
    (helo : Option Str) : SpfOutcome :=
  let trimmed := trim mailFrom
  let domain :=
    if trimmed = [] ∨ trimmed = "<>".toList then helo.getD []
    else (domainOf trimmed).getD (helo.getD [])
  if domain = [] then ⟨.unpublished, domain⟩
  else ⟨(checkHost ips resolver ip domain).1, domain⟩

end VulosRelay.Gateway.Spf
