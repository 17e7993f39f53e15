import VulosRelay.Gateway.Text
import VulosRelay.Lib.IpBlock
import VulosRelay.Lib.System

/-!
# The inbound mail gateway

The model of `MxSession` and of the decision that it asks of `InboundGateway`
(`crates/gateway/src/inbound.rs`). A session is fed lines of bytes and answers each with a
reply. What the gateway asks of the outside (`Outside`: the anti-abuse gate, the SPF, DKIM
and DMARC evaluations over a resolver, the directory, sealing, attestation and delivery)
may answer differently for every line. Texts are lists of characters; the lossy decoding of
a command line, `str::trim`, the parsing of an IP address and of the `From:` header are the
libraries'.

The history lists, latest first, the commands that were answered 250, the deliveries and
the ends of `DATA`.
-/

namespace VulosRelay.Gateway

structure Texts where
  fromUtf8Lossy : List UInt8 → Str
  trim : Str → Str
  parseIp : Str → Option Ip.IP

def domainOf (texts : Texts) (addr : Str) : Option Str :=
  let a := trimBrackets (texts.trim addr)
  (splitOnce '@' a.reverse).bind fun r => if r.1 = [] then none else some r.1.reverse

structure SmtpReply where
  code : Nat
  text : String
  deriving DecidableEq

inductive DeliveryOutcome where
  | acked
  | noAck
  deriving DecidableEq

inductive AbuseDecision where
  | accept
  | reject (code : Nat) (reason : String)

inductive SpfResult where
  | pass
  | fail
  | softFail
  | neutral
  | unpublished
  | permError
  | tempError
  deriving DecidableEq

structure SpfOutcome where
  result : SpfResult
  domain : Str

def SpfOutcome.unevaluated : SpfOutcome := ⟨.unpublished, []⟩

inductive DkimError where
  | noSignature
  | unsupportedAlgorithm
  | unsupportedCanonicalization
  | fromFieldNotSigned
  | malformedSignature
  | bodyHashMismatch
  | badPublicKey
  | signatureInvalid

inductive DkimVerdict where
  | pass (domain selector : Str)
  | fail (error : DkimError)
  | noSignature
  | keyUnavailable (domain selector : Str)

inductive DmarcDisposition where
  | keep
  | quarantine
  | reject

inductive DmarcVerdict where
  | pass
  | fail (disposition : DmarcDisposition)
  | noPolicy
  | permError

inductive HeaderFrom where
  | single (domain : Str)
  | unusable
  | ambiguous

inductive Handling where
  | annotate
  | enforce
  deriving DecidableEq

structure RecipientKey where
  ik : List UInt8
  sealPub : List UInt8

structure InboundGateway (AttestKey : Type) where
  attestKeys : List (Str × AttestKey)
  dkimResolver : Bool
  dkimPolicy : Handling
  spfResolver : Bool
  spfPolicy : Handling
  dmarcResolver : Bool
  dmarcPolicy : Handling
  maxMessageBytes : Nat

structure Outside (AttestKey Mote Attestation : Type) where
  abuse : (peerIp mailFrom : Str) → AbuseDecision
  spf : Ip.IP → (mailFrom : Str) → (helo : Option Str) → SpfOutcome
  dkim : List UInt8 → DkimVerdict
  headerFrom : List UInt8 → HeaderFrom
  dmarc : (headerDomain envelopeDomain : Str) → Option SpfResult → DkimVerdict → DmarcVerdict
  resolve : Str → Option RecipientKey
  /-- The message without the headers of the trust boundary, sealed to a recipient
  (`strip_trust_boundary_headers`, `build_mote_draft` and `build_mote`). -/
  buildMote : RecipientKey → List UInt8 → (now : Nat) → Option Mote
  attest : AttestKey → Mote → (mailFrom rcptTo : Str) → (now : Nat) → Attestation
  deliver : Mote → Attestation → DeliveryOutcome

inductive InboundError where
  | noRecipient (rcptTo : Str)
  | noAttestationKey (domain : Str)
  | badAddress (rcptTo : Str)
  | sealFailed

section Gateway

variable {AttestKey Mote Attestation : Type} (texts : Texts) (gw : InboundGateway AttestKey)
  (out : Outside AttestKey Mote Attestation)

def attestKeyFor (domain : Str) : Option AttestKey :=
  (gw.attestKeys.find? fun k => eqIgnoreAsciiCase k.1 domain).map Prod.snd

def verifyInboundDkim (message : List UInt8) : DkimVerdict :=
  if gw.dkimResolver then out.dkim message else .noSignature

def dkimGate (verdict : DkimVerdict) : Option SmtpReply :=
  if gw.dkimPolicy ≠ .enforce then none
  else
    match verdict with
    | .fail _ => some ⟨550, "5.7.20 DKIM signature present but does not verify"⟩
    | _ => none

def evaluateSpf (peerIp mailFrom : Str) (helo : Option Str) : SpfOutcome :=
  if gw.spfResolver then
    match texts.parseIp (texts.trim peerIp) with
    | some ip => out.spf ip mailFrom helo
    | none => .unevaluated
  else .unevaluated

def spfGate (outcome : SpfOutcome) : Option SmtpReply :=
  if gw.spfPolicy ≠ .enforce then none
  else
    match outcome.result with
    | .fail =>
      some ⟨550, "5.7.23 SPF hard fail (RFC 7208): sender IP not authorized for this domain"⟩
    | .tempError =>
      some ⟨451, "4.4.3 SPF temporary DNS error evaluating sender policy, please retry"⟩
    | _ => none

def dmarcVerdictWithDkim (data : List UInt8) (spf : Option SpfOutcome) (verdict : DkimVerdict)
    (mailFrom : Str) : DmarcVerdict :=
  if gw.dmarcResolver then
    match out.headerFrom data with
    | .single headerDomain =>
      out.dmarc headerDomain ((domainOf texts mailFrom).getD []) (spf.map (·.result)) verdict
    | .unusable => .permError
    | .ambiguous => .fail .reject
  else .noPolicy

def dmarcGate (data : List UInt8) (spf : Option SpfOutcome) (verdict : DkimVerdict)
    (mailFrom : Str) : Option SmtpReply :=
  if gw.dmarcPolicy ≠ .enforce then none
  else
    match dmarcVerdictWithDkim texts gw out data spf verdict mailFrom with
    | .fail .reject =>
      some ⟨550, "5.7.1 message failed DMARC (RFC 7489): policy=reject and SPF/DKIM not aligned"⟩
    | _ => none

def wrapAndAttest (mailFrom rcptTo : Str) (data : List UInt8) (now : Nat) :
    Except InboundError (Mote × Attestation) :=
  match domainOf texts rcptTo with
  | none => .error (.badAddress rcptTo)
  | some domain =>
    match out.resolve rcptTo with
    | none => .error (.noRecipient rcptTo)
    | some recip =>
      match attestKeyFor gw domain with
      | none => .error (.noAttestationKey domain)
      | some key =>
        match out.buildMote recip data now with
        | none => .error .sealFailed
        | some mote => .ok (mote, out.attest key mote mailFrom rcptTo now)

structure Delivery where
  rcptTo : Str
  data : List UInt8
  outcome : DeliveryOutcome
  deriving DecidableEq

def acceptMessageWithSpf (mailFrom rcptTo : Str) (data : List UInt8) (now : Nat)
    (spf : Option SpfOutcome) : SmtpReply × Option Delivery :=
  let verdict := verifyInboundDkim gw out data
  match dkimGate gw verdict with
  | some reply => (reply, none)
  | none =>
    match dmarcGate texts gw out data spf verdict mailFrom with
    | some reply => (reply, none)
    | none =>
      match wrapAndAttest texts gw out mailFrom rcptTo data now with
      | .error (.noRecipient _) => (⟨550, "5.1.1 no such user here"⟩, none)
      | .error (.badAddress _) => (⟨550, "5.1.1 no such user here"⟩, none)
      | .error (.noAttestationKey _) =>
        (⟨451, "4.3.5 gateway not configured for this domain"⟩, none)
      | .error .sealFailed => (⟨451, "4.3.0 temporary failure wrapping message"⟩, none)
      | .ok (mote, attestation) =>
        match out.deliver mote attestation with
        | .acked =>
          (⟨250, "2.6.0 message durably accepted"⟩, some ⟨rcptTo, data, .acked⟩)
        | .noAck =>
          (⟨451, "4.4.1 recipient has not durably accepted yet, try again later"⟩,
            some ⟨rcptTo, data, .noAck⟩)

def rcptAcceptable (rcpt : Str) : Option SmtpReply :=
  match domainOf texts rcpt with
  | none => some ⟨501, "5.1.3 bad recipient address"⟩
  | some domain =>
    if (out.resolve rcpt).isNone then some ⟨550, "5.1.1 no such user here"⟩
    else if (attestKeyFor gw domain).isNone then
      some ⟨451, "4.3.5 gateway not configured for this domain"⟩
    else none

end Gateway

inductive Phase where
  | command
  | data
  deriving DecidableEq

inductive MxEvent where
  | rcpt (addr : Str)
  | mail (addr : Str)
  | rset
  | delivered (delivery : Delivery)
  /-- The end of `DATA` was answered, for the bytes that were collected. -/
  | ended (data : List UInt8) (reply : SmtpReply)
  deriving DecidableEq

structure MxSession where
  now : Nat
  phase : Phase
  helo : Option Str
  mailFrom : Option Str
  rcptTo : Option Str
  data : List UInt8
  sizeExceeded : Bool
  spfOutcome : Option SpfOutcome
  history : List MxEvent

namespace MxSession

def new (now : Nat) : MxSession := ⟨now, .command, none, none, none, [], false, none, []⟩

def record (s : MxSession) (event : MxEvent) : MxSession :=
  { s with history := event :: s.history }

def resetTransaction (s : MxSession) : MxSession :=
  { s with mailFrom := none, rcptTo := none, data := [], sizeExceeded := false, spfOutcome := none }

variable {AttestKey Mote Attestation : Type} (texts : Texts) (gw : InboundGateway AttestKey)
  (peerIp : Str) (out : Outside AttestKey Mote Attestation)

def afterKeyword (upper lower rest : Str) : Option Str :=
  (stripPrefix upper rest).or (stripPrefix lower rest)

def cmdMail (s : MxSession) (rest : Str) : MxSession × SmtpReply :=
  match afterKeyword ['F', 'R', 'O', 'M', ':'] ['f', 'r', 'o', 'm', ':'] rest with
  | none => (s, ⟨501, "5.5.4 syntax: MAIL FROM:<address>"⟩)
  | some a =>
    let addr := texts.trim a
    match out.abuse peerIp addr with
    | .reject code reason => (s, ⟨code, reason⟩)
    | .accept =>
      let outcome := evaluateSpf texts gw out peerIp addr s.helo
      match spfGate gw outcome with
      | some reply => (s, reply)
      | none =>
        ({ s with mailFrom := some addr, spfOutcome := some outcome }.record (.mail addr),
          ⟨250, "2.1.0 sender ok"⟩)

def rcptAddress (rest : Str) : Option Str :=
  (afterKeyword ['T', 'O', ':'] ['t', 'o', ':'] rest).map fun a => trimBrackets (texts.trim a)

def cmdRcpt (s : MxSession) (rest : Str) : MxSession × SmtpReply :=
  if s.mailFrom.isNone then (s, ⟨503, "5.5.1 need MAIL before RCPT"⟩)
  else
    match rcptAddress texts rest with
    | none => (s, ⟨501, "5.5.4 syntax: RCPT TO:<address>"⟩)
    | some addr =>
      match rcptAcceptable texts gw out addr with
      | some reply => (s, reply)
      | none =>
        ({ s with rcptTo := some addr }.record (.rcpt addr), ⟨250, "2.1.5 recipient ok"⟩)

def cmdData (s : MxSession) : MxSession × SmtpReply :=
  if s.mailFrom.isNone || s.rcptTo.isNone then
    (s, ⟨503, "5.5.1 need MAIL and RCPT before DATA"⟩)
  else ({ s with phase := .data }, ⟨354, "start mail input; end with <CRLF>.<CRLF>"⟩)

def endData (s : MxSession) : MxSession × SmtpReply :=
  let after := { s with phase := .command }.resetTransaction
  if s.sizeExceeded then
    let reply := ⟨552, "5.3.4 message size exceeds fixed maximum message size"⟩
    (after.record (.ended s.data reply), reply)
  else
    match acceptMessageWithSpf texts gw out (s.mailFrom.getD []) (s.rcptTo.getD []) s.data s.now
        s.spfOutcome with
    | (reply, none) => (after.record (.ended s.data reply), reply)
    | (reply, some delivery) =>
      ((after.record (.delivered delivery)).record (.ended s.data reply), reply)

def dot : UInt8 := 46

def unstuff (line : List UInt8) : List UInt8 := if line.head? = some dot then line.tail else line

def feedData (s : MxSession) (line : List UInt8) : MxSession × SmtpReply :=
  if line = [dot] then endData texts gw out s
  else
    let unstuffed := unstuff line
    if s.sizeExceeded then (s, ⟨0, ""⟩)
    else if s.data.length + unstuffed.length + 2 > gw.maxMessageBytes then
      ({ s with sizeExceeded := true, data := [] }, ⟨0, ""⟩)
    else ({ s with data := s.data ++ unstuffed ++ [13, 10] }, ⟨0, ""⟩)

def parseCommand (line : Str) : Str × Str :=
  match splitOnce ' ' line with
  | some (v, r) => (toAsciiUppercase v, texts.trim r)
  | none => (toAsciiUppercase (texts.trim line), [])

def command (s : MxSession) (line : Str) : MxSession × SmtpReply :=
  let (verb, rest) := parseCommand texts line
  if verb = ['H', 'E', 'L', 'O'] ∨ verb = ['E', 'H', 'L', 'O'] then
    let arg := texts.trim rest
    ({ s with helo := if arg = [] then none else some arg },
      ⟨250, "envoir-gateway at your service"⟩)
  else if verb = ['M', 'A', 'I', 'L'] then cmdMail texts gw peerIp out s rest
  else if verb = ['R', 'C', 'P', 'T'] then cmdRcpt texts gw out s rest
  else if verb = ['D', 'A', 'T', 'A'] then cmdData s
  else if verb = ['R', 'S', 'E', 'T'] then
    (s.resetTransaction.record .rset, ⟨250, "2.0.0 flushed"⟩)
  else if verb = ['N', 'O', 'O', 'P'] then (s, ⟨250, "2.0.0 ok"⟩)
  else if verb = ['Q', 'U', 'I', 'T'] then (s, ⟨221, "2.0.0 bye"⟩)
  else (s, ⟨502, "5.5.1 command not implemented"⟩)

def feedLine (s : MxSession) (line : List UInt8) : MxSession × SmtpReply :=
  match s.phase with
  | .data => feedData texts gw out s line
  | .command => command texts gw peerIp out s (texts.fromUtf8Lossy line)

def session {AttestKey : Type} (Mote Attestation : Type) (texts : Texts)
    (gw : InboundGateway AttestKey) (peerIp : Str) (now : Nat) :
    System MxSession (List UInt8 × Outside AttestKey Mote Attestation) where
  init := fun s => s = .new now
  step := fun s action => some (feedLine texts gw peerIp action.2 s action.1).1

end MxSession

end VulosRelay.Gateway
