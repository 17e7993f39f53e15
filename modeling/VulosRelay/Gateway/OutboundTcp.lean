import VulosRelay.Gateway.DestIp
import VulosRelay.Gateway.Outbound
import VulosRelay.Lib.Utf8

/-!
# The SMTP client

The model of `SmtpTcpTransport::run` (`crates/gateway/src/outbound_tcp.rs`) with the line
and reply readers of `crates/gateway/src/net.rs`. Everything the destination does is an
argument (`Remote`): the bytes that arrive before the TLS upgrade and those that arrive
through TLS, with read errors and interruptions between them, how the handshake ends, and
for each write whether it fails and after how many bytes. As lines are read a byte at a
time, nothing that arrives before the upgrade is left for a read after it.

A connection notes what was written, with the kind of the stream it was written to.
-/

namespace VulosRelay.Gateway.OutboundTcp

open Outbound (TransportResult)

inductive Incoming where
  | byte (b : UInt8)
  | interrupted
  | failed (error : Str)

def dropCr (buf : List UInt8) : List UInt8 := if buf.getLast? = some 13 then buf.dropLast else buf

/-- What the calls of `read_line_str` on a stream give, one after the other, until one of
them fails; past the end of the list they give `None`. `buf` is what the current call has
gathered. -/
def linesFrom : List UInt8 → List Incoming → List (Except Str Str)
  | buf, [] => if buf = [] then [] else [.error "peer closed mid-line".toList]
  | buf, .byte b :: rest =>
    if b = 10 then .ok (Utf8.decodeLossy (dropCr buf)) :: linesFrom [] rest
    else if (buf ++ [b]).length > 64 * 1024 then [.error "SMTP line too long".toList]
    else linesFrom (buf ++ [b]) rest
  | buf, .interrupted :: rest => linesFrom buf rest
  | _, .failed e :: _ => [.error e]

abbrev Lines := List (Except Str Str)

def linesOf (stream : List Incoming) : Lines := linesFrom [] stream

inductive TransportAbort where
  | io (error : Str)
  | tls
  | permanent (code : Nat) (text : Str)
  | panicked

structure ReplyLine where
  code : Nat
  more : Bool
  text : Option Str

def replyLine (short badCode : Str) (line : Str) : Except TransportAbort ReplyLine :=
  if byteLen line < 3 then .error (.io short)
  else
    match splitBytes 3 line with
    | none => .error .panicked
    | some (digits, rest) =>
      match parseUnsigned 65535 digits with
      | none => .error (.io badCode)
      | some code => .ok ⟨code, rest.head? == some '-', (splitBytes 1 rest).map (·.2)⟩

def readReplyFrom : Str → Lines → Except TransportAbort (Nat × Str) × Lines
  | _, [] => (.error (.io "no SMTP reply".toList), [])
  | _, .error e :: rest => (.error (.io e), rest)
  | text, .ok line :: rest =>
    match replyLine "short SMTP reply line".toList "non-numeric SMTP code".toList line with
    | .error e => (.error e, rest)
    | .ok reply =>
      let text := (if text = [] then [] else text ++ [' ']) ++ trim (reply.text.getD [])
      if reply.more then readReplyFrom text rest else (.ok (reply.code, text), rest)

def readReply : Lines → Except TransportAbort (Nat × Str) × Lines := readReplyFrom []

def is2xx (code : Nat) : Bool := 200 ≤ code && code < 300

def readEhloFrom : List Str → Lines → Except TransportAbort (List Str) × Lines
  | _, [] => (.error (.io "no EHLO reply".toList), [])
  | _, .error e :: rest => (.error (.io e), rest)
  | caps, .ok line :: rest =>
    match replyLine "short EHLO reply".toList "bad EHLO code".toList line with
    | .error e => (.error e, rest)
    | .ok reply =>
      if !is2xx reply.code then (.error (.permanent reply.code line), rest)
      else
        let caps := caps ++ (reply.text.bind fun t => (splitWhitespace t).head?).toList
        if reply.more then readEhloFrom caps rest else (.ok caps, rest)

def readEhlo : Lines → Except TransportAbort (List Str) × Lines := readEhloFrom []

def hasCap (caps : List Str) (cap : Str) : Bool := caps.any (eqIgnoreAsciiCase · cap)

inductive Part where
  | ehlo
  | starttls
  | mail
  | rcpt
  | data
  | message
  | quit
  deriving DecidableEq

structure Written where
  secure : Bool
  part : Part
  bytes : List UInt8
  deriving DecidableEq

structure Remote where
  addresses : Except Str (List Ip.IP)
  connect : Ip.IP → Except Str Unit
  plain : List Incoming
  /-- Whether the handshake completes, with a certificate that is valid for the name. -/
  handshake : Bool
  tls : List Incoming
  /-- The fate of each write: it fails with an error after some bytes. Past the end of the
  list they succeed. -/
  faults : List (Option (Nat × Str))

structure Conn where
  remote : Remote
  input : Lines
  secure : Bool
  faults : List (Option (Nat × Str))
  written : List Written

def Conn.start (remote : Remote) : Conn := ⟨remote, linesOf remote.plain, false, remote.faults, []⟩

def Smtp (α : Type) := Conn → Except TransportAbort α × Conn

instance : Monad Smtp where
  pure a := fun conn => (.ok a, conn)
  bind m k := fun conn =>
    match m conn with
    | (.ok a, conn') => k a conn'
    | (.error e, conn') => (.error e, conn')

def abort {α : Type} (e : TransportAbort) : Smtp α := fun conn => (.error e, conn)

def ofExcept {α : Type} (r : Except TransportAbort α) : Smtp α := fun conn => (r, conn)

def writeAll (part : Part) (bytes : List UInt8) : Smtp Unit := fun conn =>
  match conn.faults with
  | some (n, e) :: rest =>
    (.error (.io e),
      { conn with
        faults := rest
        written := conn.written ++ [⟨conn.secure, part, bytes.take n⟩] })
  | faults =>
    (.ok (),
      { conn with
        faults := faults.tail
        written := conn.written ++ [⟨conn.secure, part, bytes⟩] })

def receiveReply : Smtp (Nat × Str) := fun conn =>
  ((readReply conn.input).1, { conn with input := (readReply conn.input).2 })

def receiveEhlo : Smtp (List Str) := fun conn =>
  ((readEhlo conn.input).1, { conn with input := (readEhlo conn.input).2 })

def upgrade : Smtp Unit := fun conn =>
  if conn.secure || !conn.remote.handshake then (.error .tls, conn)
  else (.ok (), { conn with secure := true, input := linesOf conn.remote.tls })

structure SmtpTcpTransport where
  ehloName : Str
  fixedAddr : Option Ip.IP

def dialAddr (transport : SmtpTcpTransport) (addresses : Except Str (List Ip.IP))
    (destDomain : Str) : Except Str Ip.IP :=
  match transport.fixedAddr with
  | some addr => .ok addr
  | none =>
    match addresses with
    | .error e => .error e
    | .ok addrs =>
      match addrs.find? (!isForbiddenDestIp ·) with
      | some addr => .ok addr
      | none =>
        if addrs ≠ [] then
          .error ("refusing to dial ".toList ++ destDomain
            ++ (": it resolves only to disallowed (loopback/private/link-local/"
              ++ "unique-local/unspecified/broadcast) addresses").toList)
        else .error "no address for destination".toList

def dial (transport : SmtpTcpTransport) (destDomain : Str) : Smtp Unit := fun conn =>
  match dialAddr transport conn.remote.addresses destDomain with
  | .error e => (.error (.io e), conn)
  | .ok addr => ((conn.remote.connect addr).mapError .io, conn)

def expect2xx (reply : Nat × Str) : Smtp Unit :=
  if is2xx reply.1 then pure ()
  else if 400 ≤ reply.1 ∧ reply.1 < 500 then
    abort (.io ((Nat.repr reply.1).toList ++ ' ' :: reply.2))
  else abort (.permanent reply.1 reply.2)

def ehlo (transport : SmtpTcpTransport) : Smtp (List Str) := do
  writeAll .ehlo (Utf8.encode ("EHLO ".toList ++ transport.ehloName ++ "\r\n".toList))
  receiveEhlo

def classify (code : Nat) (text : Str) : TransportResult :=
  if is2xx code then .delivered code
  else if 400 ≤ code ∧ code < 500 then .transient code text
  else .permanent code text

def headOf : List UInt8 → List UInt8
  | [] => []
  | b :: rest => if [13, 10, 13, 10] <+: b :: rest then [] else b :: headOf rest

def angled (v : Str) : Option Str :=
  (splitOnce '<' v).bind fun r =>
    (splitOnce '>' r.2.reverse).map fun inner => trim inner.2.reverse

def trimAngles (s : Str) : Str :=
  ((s.dropWhile fun c => c == '<' || c == '>').reverse.dropWhile
    fun c => c == '<' || c == '>').reverse

def headerAddr (message : List UInt8) (name : Str) : Option Str :=
  (splitCrlf (Utf8.decodeLossy (headOf message))).findSome? fun line =>
    (splitOnce ':' line).bind fun hv =>
      if eqIgnoreAsciiCase (trim hv.1) name then
        match angled (trim hv.2) with
        | some addr => some addr
        | none => ((splitWhitespace (trim hv.2)).find? (·.contains '@')).map trimAngles
      else none

def dotStuffed : Bool → List UInt8 → List UInt8
  | _, [] => []
  | atLineStart, b :: rest =>
    (if atLineStart && b == 46 then [46] else []) ++ b :: dotStuffed (b == 10) rest

def isAscii (s : Str) : Bool := s.all (·.toNat < 128)

def establish (transport : SmtpTcpTransport) (requireTls : Bool) : Smtp (List Str) := do
  let greeting ← receiveReply
  expect2xx greeting
  let caps ← ehlo transport
  if requireTls && !hasCap caps "STARTTLS".toList then abort .tls
  else if hasCap caps "STARTTLS".toList then do
    writeAll .starttls (Utf8.encode "STARTTLS\r\n".toList)
    let reply ← receiveReply
    if !is2xx reply.1 then abort .tls
    else do
      upgrade
      -- what was advertised before the upgrade is void
      ehlo transport
  else pure caps

def mailParams (caps : List Str) (destDomain mailFrom rcptTo : Str) (message : List UInt8) :
    Except TransportAbort Str :=
  let needsSmtputf8 := !isAscii mailFrom || !isAscii rcptTo
  let needs8bitmime := message.any (· ≥ 0x80)
  if needsSmtputf8 && !hasCap caps "SMTPUTF8".toList then
    .error (.permanent 553 ("5.6.7 envelope address requires SMTPUTF8 (RFC 6531) but ".toList
      ++ destDomain ++ (" does not advertise it; cannot deliver without corrupting "
        ++ "the address").toList))
  else if needs8bitmime && !hasCap caps "8BITMIME".toList then
    .error (.permanent 554 ("5.6.3 message body is 8-bit but ".toList ++ destDomain
      ++ (" does not advertise 8BITMIME (RFC 6152); refusing to send bytes the peer has "
        ++ "not agreed to carry").toList))
  else
    .ok ((if needs8bitmime then " BODY=8BITMIME".toList else [])
      ++ (if needsSmtputf8 then " SMTPUTF8".toList else []))

def endLastLine (message : List UInt8) : Smtp Unit :=
  if [13, 10] <:+ message then pure () else writeAll .message [13, 10]

def submit (destDomain : Str) (message : List UInt8) (caps : List Str) : Smtp TransportResult := do
  let mailFrom := (headerAddr message "from".toList).getD "<>".toList
  let rcptTo ← ofExcept (match headerAddr message "to".toList with
    | some addr => .ok addr
    | none => .error (.io "no To: header".toList))
  let params ← ofExcept (mailParams caps destDomain mailFrom rcptTo message)
  writeAll .mail (Utf8.encode ("MAIL FROM:<".toList ++ mailFrom ++ '>' :: params ++ "\r\n".toList))
  let mailReply ← receiveReply
  expect2xx mailReply
  writeAll .rcpt (Utf8.encode ("RCPT TO:<".toList ++ rcptTo ++ ">\r\n".toList))
  let rcptReply ← receiveReply
  expect2xx rcptReply
  writeAll .data (Utf8.encode "DATA\r\n".toList)
  let dataReply ← receiveReply
  if dataReply.1 ≠ 354 then pure (classify dataReply.1 dataReply.2)
  else do
    writeAll .message (dotStuffed true message)
    endLastLine message
    writeAll .message [46, 13, 10]
    let final ← receiveReply
    -- best effort: the outcome of QUIT is ignored
    fun conn => (.ok (classify final.1 final.2),
      (writeAll .quit (Utf8.encode "QUIT\r\n".toList) conn).2)

def tryRun (domainToAscii : Str → Except Str Str) (transport : SmtpTcpTransport)
    (destDomain : Str) (message : List UInt8) (requireTls : Bool) : Smtp TransportResult := do
  let destDomain ← ofExcept ((domainToAscii destDomain).mapError fun e =>
    .permanent 553 ("5.1.2 ".toList ++ e))
  dial transport destDomain
  let caps ← establish transport requireTls
  submit destDomain message caps

def run (domainToAscii : Str → Except Str Str) (transport : SmtpTcpTransport) (destDomain : Str)
    (message : List UInt8) (requireTls : Bool) (remote : Remote) :
    Option TransportResult × Conn :=
  match tryRun domainToAscii transport destDomain message requireTls (Conn.start remote) with
  | (.ok result, conn) => (some result, conn)
  | (.error .tls, conn) => (some .tlsUnavailable, conn)
  | (.error (.permanent code text), conn) => (some (.permanent code text), conn)
  | (.error (.io e), conn) => (some (.transient 421 ("4.4.0 ".toList ++ e)), conn)
  | (.error .panicked, conn) => (none, conn)

end VulosRelay.Gateway.OutboundTcp
