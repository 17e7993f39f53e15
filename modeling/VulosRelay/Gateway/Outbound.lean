import VulosRelay.Gateway.Text

/-!
# Outbound mail and the MTA-STS policy of its destination

The model of `OutboundGateway::send` (`crates/gateway/src/outbound.rs`) and of the policy
that it asks for (`crates/gateway/src/mta_sts.rs`): the parsing of a policy body, the
matching of a host against its patterns, and a discovery, which looks for the TXT signal
and then fetches the body. The gateway keeps no policy: each question to `MtaStsTlsPolicy`
is a discovery of its own, and a send asks two.

What a send asks of others is in `Outside`. The rendering and signing of the message, the
conversion of a domain to A-labels and the SMTP dialogue are among them.
-/

namespace VulosRelay.Gateway.MtaSts

inductive PolicyMode where
  | enforce
  | testing
  | none
  deriving DecidableEq

structure StsPolicy where
  mode : PolicyMode
  mxPatterns : List Str
  maxAge : Nat
  deriving DecidableEq

inductive StsParseError where
  | malformedLine
  | missingVersion
  | unsupportedVersion (version : Str)
  | missingMode
  | unknownMode (mode : Str)
  | noMxPatterns
  deriving DecidableEq

structure Fields where
  version : Option Str := Option.none
  mode : Option PolicyMode := Option.none
  mxPatterns : List Str := []
  maxAge : Option Nat := Option.none

def readMode (value : Str) : Except StsParseError PolicyMode :=
  if value = "enforce".toList then .ok .enforce
  else if value = "testing".toList then .ok .testing
  else if value = "none".toList then .ok .none
  else .error (.unknownMode value)

def maxAgeBound : Nat := 2 ^ 64 - 1

def readField (fields : Fields) (line : Str) : Except StsParseError Fields :=
  if trim line = [] then .ok fields
  else
    match splitOnce ':' (trim line) with
    | Option.none => .error .malformedLine
    | some (key, value) =>
      if trim key = "version".toList then .ok { fields with version := some (trim value) }
      else if trim key = "mode".toList then
        (readMode (trim value)).map fun mode => { fields with mode := some mode }
      else if trim key = "mx".toList then
        .ok { fields with mxPatterns := fields.mxPatterns ++ [trim value] }
      else if trim key = "max_age".toList then
        .ok { fields with maxAge := parseUnsigned maxAgeBound (trim value) }
      else .ok fields

def Fields.policy (fields : Fields) : Except StsParseError StsPolicy :=
  match fields.version with
  | Option.none => .error .missingVersion
  | some version =>
    if version ≠ "STSv1".toList then .error (.unsupportedVersion version)
    else
      match fields.mode with
      | Option.none => .error .missingMode
      | some mode =>
        if mode ≠ .none ∧ fields.mxPatterns = [] then .error .noMxPatterns
        else .ok ⟨mode, fields.mxPatterns, fields.maxAge.getD 86400⟩

def parsePolicy (text : Str) : Except StsParseError StsPolicy :=
  ((textLines text).foldlM readField {}).bind Fields.policy

def mxPatternMatches (pattern host : Str) : Bool :=
  let pattern := trimEndMatches '.' (trim pattern)
  let host := trimEndMatches '.' (trim host)
  match stripPrefix "*.".toList pattern with
  | some suffix =>
    match stripSuffix ('.' :: toAsciiLowercase suffix) (toAsciiLowercase host) with
    | some start => !start.isEmpty && !start.contains '.'
    | Option.none => false
  | Option.none => eqIgnoreAsciiCase pattern host

def anyPatternMatches (patterns : List Str) (host : Str) : Bool :=
  patterns.any (mxPatternMatches · host)

structure Discovery where
  lookupTxt : Str → List Str
  fetchPolicy : Str → Option Str

def resolve (answers : Discovery) (domain : Str) : Option StsPolicy :=
  if (answers.lookupTxt ("_mta-sts.".toList ++ domain)).any
      fun v => (stripPrefix "v=STSv1".toList (trimStart v)).isSome then
    (answers.fetchPolicy domain).bind fun body => (parsePolicy body).toOption
  else Option.none

inductive TlsRequirement where
  | required
  | opportunistic
  deriving DecidableEq

def requirementFor (answers : Discovery) (domain : Str) : TlsRequirement :=
  match resolve answers domain with
  | some ⟨.enforce, _, _⟩ => .required
  | _ => .opportunistic

def allowedMxPatterns (answers : Discovery) (domain : Str) : List Str :=
  match resolve answers domain with
  | some ⟨.enforce, mxPatterns, _⟩ => mxPatterns
  | _ => []

end VulosRelay.Gateway.MtaSts

namespace VulosRelay.Gateway.Outbound

inductive OutboundError where
  | notDelegated (domain : Str)
  | badFromAddress (addr : Str)
  | badDestAddress (addr : Str)
  | tlsEnforcementFailed (domain : Str)
  | noMxMatchesPolicy (domain : Str) (patterns hosts : List Str)
  | destinationRejected (code : Nat) (text : Str)
  | noMxHost (domain : Str)
  | headerInjection (field : Str)
  | idnNotConvertible (domain reason : Str)
  deriving DecidableEq

inductive OutboundReport where
  | delivered
  | deferred (code : Nat) (text : Str)
  | failed (error : OutboundError)
  deriving DecidableEq

inductive TransportResult where
  | delivered (code : Nat)
  | transient (code : Nat) (text : Str)
  | permanent (code : Nat) (text : Str)
  | tlsUnavailable

structure MxHost where
  host : Str
  preference : Nat
  deriving DecidableEq

structure Dialed where
  host : Str
  message : List UInt8
  requireTls : Bool
  deriving DecidableEq

structure Outside where
  signed : Except OutboundError (List UInt8)
  domainToAscii : Str → Except Str Str
  first : MtaSts.Discovery
  second : MtaSts.Discovery
  resolveMx : Str → List MxHost
  deliver : Dialed → TransportResult

def domainOf (addr : Str) : Option Str :=
  (splitOnce '@' (trimBrackets (trim addr)).reverse).bind fun r =>
    if r.1 = [] then none else some r.1.reverse

def reportOf (domain : Str) : TransportResult → OutboundReport
  | .delivered _ => .delivered
  | .transient code text => .deferred code text
  | .permanent code text => .failed (.destinationRejected code text)
  | .tlsUnavailable => .failed (.tlsEnforcementFailed domain)

def destination (out : Outside) (toAddr : Str) : Except OutboundError Str :=
  match domainOf toAddr with
  | none => .error (.badDestAddress toAddr)
  | some domain =>
    match out.domainToAscii domain with
    | .ok ascii => .ok ascii
    | .error reason => .error (.idnNotConvertible domain reason)

def sendTo (out : Outside) (signed : List UInt8) (domain : Str) : OutboundReport × Option Dialed :=
  let requireTls := MtaSts.requirementFor out.first domain == .required
  let allowed := MtaSts.allowedMxPatterns out.second domain
  let candidates := out.resolveMx domain
  let eligible :=
    if allowed = [] then candidates
    else candidates.filter fun h => MtaSts.anyPatternMatches allowed h.host
  match eligible with
  | h :: _ =>
    let call := ⟨h.host, signed, requireTls⟩
    (reportOf domain (out.deliver call), some call)
  | [] =>
    if allowed ≠ [] then
      (.failed (.noMxMatchesPolicy domain allowed (candidates.map (·.host))), none)
    else (.failed (.noMxHost domain), none)

def send (out : Outside) (toAddr : Str) : OutboundReport × Option Dialed :=
  match out.signed with
  | .error e => (.failed e, none)
  | .ok signed =>
    match destination out toAddr with
    | .error e => (.failed e, none)
    | .ok domain => sendTo out signed domain

end VulosRelay.Gateway.Outbound
