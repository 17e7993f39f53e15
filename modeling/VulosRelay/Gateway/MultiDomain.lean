import VulosRelay.Gateway.Authz
import VulosRelay.Gateway.Inbound

/-!
# The gateway of many domains

The model of `AliasAllocator` (`crates/gateway/src/authz.rs`), of `GatewayAliasMap`
(`crates/gateway/src/alias_map.rs`) and of `MultiDomainGateway` with its admin operations and
`route` (`crates/gateway/src/multidomain.rs`). A hash map is gone through in any order: `route`
gets the keys of the directory as a list.
-/

namespace VulosRelay.Gateway.MultiDomain

open Authz (Core base32Alphabet base32Lower)

abbrev Key := List UInt8

def rsplitAt (s : Str) : Option (Str × Str) :=
  (splitOnce '@' s.reverse).map fun r => (r.2.reverse, r.1.reverse)

def folded (s : Str) : Str := toAsciiLowercase (trim s)

def keyDerivedLocalpart (core : Core) (key : Key) : Str :=
  'k' :: base32Lower ((core.digest key).take 10)

inductive AliasError where
  | invalidLocalPart (name : Str)
  | containsDot (name : Str)
  | taken (name : Str)
  | reservedCollision (name : Str)
  | shadowsDirectoryIdentity (name : Str)
  | invalidGatewayDomain (domain : Str)

structure AliasAllocator where
  domain : Str
  vanity : FinMap Str Key
  reverse : List (Key × Str)
  reserved : Finset Str

def isAlphanumeric (c : Char) : Bool :=
  ('0' ≤ c && c ≤ '9') || ('a' ≤ c && c ≤ 'z') || ('A' ≤ c && c ≤ 'Z')

def isValidDnsDomain (domain : Str) : Bool :=
  domain ≠ [] && byteLen domain ≤ 253 && (splitAt '.' domain).all fun label =>
    label ≠ [] && byteLen label ≤ 63 && label.head? ≠ some '-' && label.getLast? ≠ some '-'
      && label.all fun c => isAlphanumeric c || c == '-'

def isKeyDerivedForm (lp : Str) : Bool :=
  match lp with
  | 'k' :: rest => byteLen rest == 16 && rest.all (base32Alphabet.contains ·)
  | _ => false

def isValidVanityCharset (lp : Str) : Bool :=
  lp ≠ [] && byteLen lp ≤ 64 && lp.all fun c => isAlphanumeric c || c == '-' || c == '_' || c == '+'

def reservedStart : Str := "dmtap1-".toList

namespace AliasAllocator

def forDomain (raw : Str) : Except AliasError AliasAllocator :=
  if isValidDnsDomain (folded raw) then .ok ⟨folded raw, ∅, [], ∅⟩
  else .error (.invalidGatewayDomain raw)

def qualify (a : AliasAllocator) (lp : Str) : Str := lp ++ '@' :: a.domain

def reserveLocalpart (a : AliasAllocator) (localPart : Str) : AliasAllocator :=
  let lp := folded localPart
  { a with
    vanity := a.vanity.erase lp
    reverse := a.reverse.filter (·.2 ≠ lp)
    reserved := insert lp a.reserved }

def reserveDirectoryAddress (a : AliasAllocator) (email : Str) : AliasAllocator × Bool :=
  match rsplitAt email with
  | some (lp, dom) =>
    if eqIgnoreAsciiCase (trim dom) a.domain then (a.reserveLocalpart lp, true) else (a, false)
  | none => (a, false)

def checkVanity (a : AliasAllocator) (localPart : Str) : Except AliasError Str :=
  let lp := toAsciiLowercase localPart
  if '.' ∈ localPart then .error (.containsDot localPart)
  else if isValidVanityCharset lp = false then .error (.invalidLocalPart localPart)
  else if reservedStart <+: lp ∨ isKeyDerivedForm lp = true then
    .error (.reservedCollision localPart)
  else if lp ∈ a.reserved then .error (.shadowsDirectoryIdentity localPart)
  else .ok lp

def release (a : AliasAllocator) (key : Key) : AliasAllocator × Option Str :=
  match a.reverse.find? (·.1 == key) with
  | none => (a, none)
  | some e =>
    ({ a with vanity := a.vanity.erase e.2, reverse := a.reverse.eraseP (·.1 == key) }, some e.2)

def allocateVanity (a : AliasAllocator) (key : Key) (localPart : Str) :
    Except AliasError (AliasAllocator × Str) :=
  match a.checkVanity localPart with
  | .error e => .error e
  | .ok lp =>
    match a.vanity.lookup lp with
    | some holder => if holder = key then .ok (a, a.qualify lp) else .error (.taken localPart)
    | none =>
      let freed := (a.release key).1
      .ok ({ freed with
        vanity := freed.vanity.insert lp key, reverse := freed.reverse ++ [(key, lp)] },
        a.qualify lp)

def releaseVanity (a : AliasAllocator) (key : Key) : AliasAllocator × Option Str :=
  ((a.release key).1, (a.release key).2.map a.qualify)

def aliasFor (core : Core) (a : AliasAllocator) (key : Key) : Str :=
  a.qualify (((a.reverse.find? (·.1 == key)).map Prod.snd).getD (keyDerivedLocalpart core key))

def resolve (core : Core) (a : AliasAllocator) (address : Str) (registered : List Key) :
    Option Key :=
  (rsplitAt (folded address)).bind fun (lp, dom) =>
    if dom ≠ a.domain then none
    else (a.vanity.lookup lp).or (registered.find? (keyDerivedLocalpart core · == lp))

inductive Call where
  | reserveLocalpart (localPart : Str)
  | reserveDirectoryAddress (email : Str)
  | allocateVanity (key : Key) (localPart : Str)
  | releaseVanity (key : Key)

def call (a : AliasAllocator) : Call → AliasAllocator
  | .reserveLocalpart localPart => a.reserveLocalpart localPart
  | .reserveDirectoryAddress email => (a.reserveDirectoryAddress email).1
  | .allocateVanity key localPart =>
    match a.allocateVanity key localPart with
    | .ok r => r.1
    | .error _ => a
  | .releaseVanity key => (a.releaseVanity key).1

def allocator (raw : Str) : System AliasAllocator Call :=
  ⟨fun a => forDomain raw = .ok a, fun a c => some (a.call c)⟩

end AliasAllocator

inductive AliasTarget where
  | native (localPart domain : Str)
  | identity (key : Key)
  deriving DecidableEq

structure AliasRow where
  target : AliasTarget
  correspondent : Option Str
  expiresAt : Option UInt64
  oneTime : Bool
  burned : Bool

def AliasRow.live (row : AliasRow) (now : UInt64) : Bool :=
  !row.burned && !(row.expiresAt.any (· ≤ now))

abbrev Rows := FinMap Str AliasRow

def Rows.mint (rows : Rows) (token : Str) (target : AliasTarget) (correspondent : Option Str)
    (ttl : Option UInt64) (oneTime : Bool) (now : UInt64) : Rows :=
  rows.insert token ⟨target, correspondent, ttl.map (Amount.satAdd now), oneTime, false⟩

def Rows.resolve (rows : Rows) (token : Str) (now : UInt64) : Rows × Option AliasTarget :=
  match rows.lookup token with
  | none => (rows, none)
  | some row =>
    if row.live now then
      (if row.oneTime then rows.insert token { row with burned := true } else rows,
        some row.target)
    else (rows, none)

def Rows.burn (rows : Rows) (token : Str) : Rows :=
  match rows.lookup token with
  | none => rows
  | some row => rows.insert token { row with burned := true }

structure DomainTenant where
  domain : Str
  directory : FinMap Str RecipientKey
  aliases : AliasAllocator
  random : Rows
  blockedSenders : Finset Str
  suspendedUsers : Finset Str

structure MultiDomainGateway where
  tenants : FinMap Str DomainTenant
  globalBlocked : Finset Str

inductive Recipient where
  | directory (key : RecipientKey)
  | aliasTo (target : AliasTarget)

inductive RouteError where
  | noSuchDomain
  | senderBlocked
  | userSuspended
  | unmapped

def splitAddress (addr : Str) : Option (Str × Str) :=
  (rsplitAt (trim (trimBrackets (trim addr)))).bind fun (lp, domain) =>
    if lp = [] ∨ domain = [] then none else some (toAsciiLowercase lp, toAsciiLowercase domain)

def localPartOf (user : Str) : Str := ((rsplitAt (trim user)).map Prod.fst).getD (trim user)

def DomainTenant.find (core : Core) (t : DomainTenant) (lp domain : Str) (now : UInt64)
    (registered : List Key) : DomainTenant × Except RouteError Recipient :=
  match t.directory.lookup (folded (lp ++ '@' :: domain)) with
  | some key => (t, .ok (.directory key))
  | none =>
    match t.random.resolve lp now with
    | (rows, some target) => ({ t with random := rows }, .ok (.aliasTo target))
    | (_, none) =>
      match t.aliases.resolve core (lp ++ '@' :: domain) registered with
      | some key => (t, .ok (.aliasTo (.identity key)))
      | none => (t, .error .unmapped)

def MultiDomainGateway.route (core : Core) (g : MultiDomainGateway) (sender rcpt : Str)
    (now : UInt64) (registered : List Key) :
    MultiDomainGateway × Except RouteError Recipient :=
  match splitAddress rcpt with
  | none => (g, .error .noSuchDomain)
  | some (lp, domain) =>
    if folded sender ∈ g.globalBlocked then (g, .error .senderBlocked)
    else
      match g.tenants.lookup domain with
      | none => (g, .error .noSuchDomain)
      | some t =>
        if folded sender ∈ t.blockedSenders then (g, .error .senderBlocked)
        else if lp ∈ t.suspendedUsers then (g, .error .userSuspended)
        else
          ({ g with tenants := g.tenants.insert domain (t.find core lp domain now registered).1 },
            (t.find core lp domain now registered).2)

inductive Action where
  | addDomain (domain : Str)
  | removeDomain (domain : Str)
  | addRecipient (email : Str) (key : RecipientKey)
  | removeRecipient (email : Str)
  | allocateVanity (domain : Str) (key : Key) (name : Str)
  | revokeVanity (domain : Str) (key : Key)
  | mintRandomAlias (domain : Str) (raw : Vector UInt8 16) (target : AliasTarget)
      (correspondent : Option Str) (ttl : Option UInt64) (oneTime : Bool) (now : UInt64)
  | burnRandomAlias (domain token : Str)
  | blockSender (domain sender : Str)
  | unblockSender (domain sender : Str)
  | blockSenderGlobal (sender : Str)
  | unblockSenderGlobal (sender : Str)
  | suspendUser (domain user : Str)
  | unsuspendUser (domain user : Str)
  | route (sender rcpt : Str) (now : UInt64) (registered : List Key)

def MultiDomainGateway.onTenant (g : MultiDomainGateway) (domain : Str)
    (f : DomainTenant → DomainTenant) : MultiDomainGateway :=
  match g.tenants.lookup (folded domain) with
  | none => g
  | some t => { g with tenants := g.tenants.insert (folded domain) (f t) }

def MultiDomainGateway.addDomain (g : MultiDomainGateway) (domain : Str) : MultiDomainGateway :=
  match AliasAllocator.forDomain (folded domain) with
  | .error _ => g
  | .ok aliases =>
    if folded domain ∈ g.tenants then g
    else { g with
      tenants := g.tenants.insert (folded domain) ⟨folded domain, ∅, aliases, ∅, ∅, ∅⟩ }

/-- The directory keys, in some order. -/
def MultiDomainGateway.Registered (g : MultiDomainGateway) (rcpt : Str) (registered : List Key) :
    Prop :=
  ∀ lp domain t, splitAddress rcpt = some (lp, domain) → g.tenants.lookup domain = some t →
    ∀ key, key ∈ registered ↔ ∃ email r, t.directory.lookup email = some r ∧ r.ik = key

def step (core : Core) (g : MultiDomainGateway) : Action → MultiDomainGateway
  | .addDomain domain => g.addDomain domain
  | .removeDomain domain => { g with tenants := g.tenants.erase (folded domain) }
  | .addRecipient email key =>
    match splitAddress email with
    | none => g
    | some (_, domain) => g.onTenant domain fun t => { t with
        directory := t.directory.insert (folded email) key
        aliases := (t.aliases.reserveDirectoryAddress email).1 }
  | .removeRecipient email =>
    match splitAddress email with
    | none => g
    | some (_, domain) => g.onTenant domain fun t => { t with
        directory := t.directory.erase (folded email) }
  | .allocateVanity domain key name => g.onTenant domain fun t =>
      match t.aliases.allocateVanity key name with
      | .error _ => t
      | .ok (aliases, _) => { t with aliases := aliases }
  | .revokeVanity domain key => g.onTenant domain fun t =>
      { t with aliases := (t.aliases.releaseVanity key).1 }
  | .mintRandomAlias domain raw target correspondent ttl oneTime now =>
    g.onTenant domain fun t =>
      -- a token that is taken is drawn again
      if base32Lower raw.toList ∈ t.random then t
      else { t with
        random := t.random.mint (base32Lower raw.toList) target correspondent ttl oneTime now }
  | .burnRandomAlias domain token => g.onTenant domain fun t =>
      { t with random := t.random.burn (((rsplitAt token).map Prod.fst).getD token) }
  | .blockSender domain sender => g.onTenant domain fun t =>
      { t with blockedSenders := insert (folded sender) t.blockedSenders }
  | .unblockSender domain sender => g.onTenant domain fun t =>
      { t with blockedSenders := t.blockedSenders.erase (folded sender) }
  | .blockSenderGlobal sender => { g with globalBlocked := insert (folded sender) g.globalBlocked }
  | .unblockSenderGlobal sender => { g with globalBlocked := g.globalBlocked.erase (folded sender) }
  | .suspendUser domain user => g.onTenant domain fun t =>
      { t with suspendedUsers := insert (toAsciiLowercase (localPartOf user)) t.suspendedUsers }
  | .unsuspendUser domain user => g.onTenant domain fun t =>
      { t with suspendedUsers := t.suspendedUsers.erase (toAsciiLowercase (localPartOf user)) }
  | .route sender rcpt now registered => (g.route core sender rcpt now registered).1

def gateway (core : Core) : System MultiDomainGateway Action :=
  ⟨fun g => g = ⟨∅, ∅⟩, fun g a => some (step core g a)⟩

end VulosRelay.Gateway.MultiDomain
