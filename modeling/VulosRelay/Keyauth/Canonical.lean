import VulosRelay.Lib.Wire

/-!
# Signing messages

The model of `CanonicalMessage` (`tunnel/internal/keyauth/keyauth.go`) and of every
message built with it: the announcements, withdrawals, deposits, polls and
acknowledgements of `tunnel/rendezvous/service.go`, and the pins and unpins of
`tunnel/pubcache/pinapi.go`.

A Go string is its bytes, whatever they are; the requests are as the JSON decoder
leaves them, so every string in them is the client's choice.
-/

namespace VulosRelay.Keyauth

abbrev GoString := List UInt8

def literal (s : String) : GoString := s.toByteArray.data.toList

def formatInt (n : Int64) : GoString := literal n.toInt.repr

def segment (s : GoString) : List UInt8 := Wire.beBytes 4 s.length ++ s

def canonicalMessage (domain : GoString) (fields : List GoString) : List UInt8 :=
  segment domain ++ fields.flatMap segment

structure AnnounceRequest where
  key : GoString
  endpoints : List GoString
  metadata : GoString
  ttl : Int64
  nonce : GoString
  timestamp : Int64
  sig : GoString
  deriving DecidableEq

structure WithdrawRequest where
  key : GoString
  nonce : GoString
  timestamp : Int64
  sig : GoString
  deriving DecidableEq

structure DepositRequest where
  sender : GoString
  recipient : GoString
  payload : GoString
  ttl : Int64
  nonce : GoString
  timestamp : Int64
  sig : GoString
  deriving DecidableEq

structure PollRequest where
  key : GoString
  nonce : GoString
  timestamp : Int64
  sig : GoString
  wait : Int64
  deriving DecidableEq

structure AckRequest where
  key : GoString
  ids : List GoString
  nonce : GoString
  timestamp : Int64
  sig : GoString
  deriving DecidableEq

structure PinRequest where
  key : GoString
  kind : GoString
  addr : GoString
  nonce : GoString
  timestamp : Int64
  sig : GoString
  deriving DecidableEq

def domainAnnounce : GoString := literal "vulos-rdv/announce/1"
def domainWithdraw : GoString := literal "vulos-rdv/withdraw/1"
def domainSignalDeposit : GoString := literal "vulos-rdv/signal-deposit/1"
def domainSignalPoll : GoString := literal "vulos-rdv/signal-poll/1"
def domainSignalAck : GoString := literal "vulos-rdv/signal-ack/1"
def domainMailboxDeposit : GoString := literal "vulos-rdv/mailbox-deposit/1"
def domainMailboxPoll : GoString := literal "vulos-rdv/mailbox-poll/1"
def domainMailboxAck : GoString := literal "vulos-rdv/mailbox-ack/1"
def domainPin : GoString := literal "vulos-pub/pin/1"
def domainUnpin : GoString := literal "vulos-pub/unpin/1"

def announceSigningMessage (req : AnnounceRequest) : List UInt8 :=
  canonicalMessage domainAnnounce
    ([req.key, formatInt req.timestamp, formatInt req.ttl, req.nonce, req.metadata]
      ++ req.endpoints)

def withdrawSigningMessage (req : WithdrawRequest) : List UInt8 :=
  canonicalMessage domainWithdraw [req.key, formatInt req.timestamp, req.nonce]

def depositSigningMessage (domain : GoString) (req : DepositRequest) : List UInt8 :=
  canonicalMessage domain
    [req.sender, req.recipient, formatInt req.timestamp, formatInt req.ttl, req.nonce, req.payload]

def pollSigningMessage (domain : GoString) (req : PollRequest) : List UInt8 :=
  canonicalMessage domain [req.key, formatInt req.timestamp, req.nonce]

def ackSigningMessage (domain : GoString) (req : AckRequest) : List UInt8 :=
  canonicalMessage domain ([req.key, formatInt req.timestamp, req.nonce] ++ req.ids)

def pinSigningMessage (domain : GoString) (req : PinRequest) : List UInt8 :=
  canonicalMessage domain [req.key, formatInt req.timestamp, req.nonce, req.kind, req.addr]

inductive Box where
  | signal
  | mailbox
  deriving DecidableEq, Repr

inductive SignedRequest where
  | announce (req : AnnounceRequest)
  | withdraw (req : WithdrawRequest)
  | deposit (box : Box) (req : DepositRequest)
  | poll (box : Box) (req : PollRequest)
  | ack (box : Box) (req : AckRequest)
  | pin (req : PinRequest)
  | unpin (req : PinRequest)
  deriving DecidableEq

namespace SignedRequest

def signingMessage : SignedRequest → List UInt8
  | announce req => announceSigningMessage req
  | withdraw req => withdrawSigningMessage req
  | deposit .signal req => depositSigningMessage domainSignalDeposit req
  | deposit .mailbox req => depositSigningMessage domainMailboxDeposit req
  | poll .signal req => pollSigningMessage domainSignalPoll req
  | poll .mailbox req => pollSigningMessage domainMailboxPoll req
  | ack .signal req => ackSigningMessage domainSignalAck req
  | ack .mailbox req => ackSigningMessage domainMailboxAck req
  | pin req => pinSigningMessage domainPin req
  | unpin req => pinSigningMessage domainUnpin req

end SignedRequest

end VulosRelay.Keyauth
