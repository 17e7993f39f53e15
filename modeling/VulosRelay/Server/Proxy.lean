import VulosRelay.Keyauth.Canonical
import VulosRelay.Lib.HttpHeader

/-!
# What the relay writes on an agent's stream

The relay opens a stream into an agent in three places: for a public request
(`handlePublic` in `tunnel/server/proxy.go`, with `proxyWebSocket`), for a notification of
another box (`forwardS2SNotify` in `tunnel/server/s2snotify.go`) and to ask for a
reconnect (`signalReconnect` in `tunnel/server/drain.go`). Here is the request that each
of them writes. Whether a public request gets that far (routing, rate limits, quota,
a free stream) is decided before and changes nothing in it, except for the path that
`route` has trimmed.
-/

namespace VulosRelay.Server

open GoText Http Keyauth

structure Request where
  method : Text
  path : Text
  host : Text
  remoteAddr : Text
  tls : Bool
  header : Header

structure PublicRequest where
  method : Text
  path : Text
  host : Text
  remoteAddr : Text
  tls : Bool
  lines : List (Text × Text)

def PublicRequest.received (p : PublicRequest) : Request :=
  ⟨p.method, p.path, p.host, p.remoteAddr, p.tls, Header.ofFields p.lines⟩

def hopByHopHeaders : List Text :=
  [literal "Connection", literal "Proxy-Connection", literal "Keep-Alive", literal "Te",
    literal "Trailer", literal "Transfer-Encoding", literal "Upgrade"]

def listedTokens (value : Text) : List Text :=
  ((value.splitOn 0x2C).map trimSpace).filter (· ≠ [])

def stripHopByHop (h : Header) : Header :=
  hopByHopHeaders.foldl Header.del
    ((listedTokens (h.get (literal "Connection"))).foldl Header.del h)

def peerAddress (remoteAddr : Text) : Text :=
  match splitHostPort remoteAddr with
  | some (host, _) => if host = [] then remoteAddr else host
  | none => remoteAddr

def forwardedProto (orig : Request) (trustProxy : Bool) : Text :=
  if orig.tls then literal "https"
  else if trustProxy ∧ orig.header.get (literal "X-Forwarded-Proto") ≠ [] then
    orig.header.get (literal "X-Forwarded-Proto")
  else literal "http"

def sanitizeRequestHeaders (out orig : Request) (trustProxy : Bool) : Request :=
  let stripped := stripHopByHop out.header
  let clientIP := peerAddress orig.remoteAddr
  let forwarded :=
    if trustProxy then
      let prior := orig.header.get (literal "X-Forwarded-For")
      if prior ≠ [] then
        stripped.set (literal "X-Forwarded-For") (prior ++ literal ", " ++ clientIP)
      else stripped.set (literal "X-Forwarded-For") clientIP
    else
      (stripped.set (literal "X-Forwarded-For") clientIP).set (literal "X-Real-IP") clientIP
  { out with
    header := (forwarded.set (literal "X-Forwarded-Host") orig.host).set
      (literal "X-Forwarded-Proto") (forwardedProto orig trustProxy) }

/-- An order in which a loop may go over the keys of a header map. -/
def KeyOrder (h : Header) := { order : List Text // order.Nodup ∧ ∀ k, k ∈ order ↔ k ∈ h.fields }

def copyResponseHeaders (dst src : Header) (order : KeyOrder (stripHopByHop src)) : Header :=
  (order.1.flatMap fun k => ((stripHopByHop src).values k).map (k, ·)).foldl
    (fun h line => h.add line.1 line.2) dst

def isWebSocketUpgrade (r : Request) : Bool :=
  equalFold (r.header.get (literal "Upgrade")) (literal "websocket")
    && ((r.header.get (literal "Connection")).splitOn 0x2C).any fun tok =>
      equalFold (trimSpace tok) (literal "upgrade")

def restoreUpgradeHeaders (req : Request) : Request :=
  { req with
    header := (req.header.set (literal "Connection") (literal "Upgrade")).set
      (literal "Upgrade") (literal "websocket") }

def outboundRequest (trustProxy : Bool) (r : Request) (trimmedPath : Text) : Request :=
  let outReq := sanitizeRequestHeaders { r with path := trimmedPath } r trustProxy
  if isWebSocketUpgrade r then restoreUpgradeHeaders outReq else outReq

def newRequest (method host path : Text) : Request := ⟨method, path, host, [], false, .empty⟩

def notifyRequest (name : Text) : Request :=
  let outReq := newRequest (literal "POST") name (literal "/api/notify/receive")
  { outReq with
    header := (outReq.header.set (literal "Content-Type") (literal "application/json")).set
      (literal "X-Vulos-S2S-Notify") (literal "1") }

def agentControlPath : Text := literal "/_vulos-relay/agent-control"

def agentCommandHeader : Text := literal "X-Vulos-Relay-Command"

def agentReasonHeader : Text := literal "X-Vulos-Relay-Reason"

def commandReconnect : Text := literal "reconnect"

def reconnectRequest (name reason : Text) : Request :=
  let req := newRequest (literal "POST") name agentControlPath
  let commanded := req.header.set agentCommandHeader commandReconnect
  let reasoned := if reason ≠ [] then commanded.set agentReasonHeader reason else commanded
  { req with header := reasoned.set (literal "Connection") (literal "close") }

inductive Opened where
  /-- For a public request, with the path that `route` gave. -/
  | proxied (trustProxy : Bool) (p : PublicRequest) (trimmedPath : Text)
  | notified (name : Text)
  | drained (name reason : Text)

def Opened.written : Opened → Request
  | .proxied trustProxy p trimmedPath => outboundRequest trustProxy p.received trimmedPath
  | .notified name => notifyRequest name
  | .drained name reason => reconnectRequest name reason

end VulosRelay.Server
