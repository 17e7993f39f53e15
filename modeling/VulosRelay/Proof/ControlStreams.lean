import VulosRelay.Agent.Forward

/-!
# Which streams the agent takes for control commands

The agent takes a stream for a control command if the request on it has a command header
that is not empty. The argument follows that one header from the public client to the
agent: the deletions of `stripHopByHop` remove it only if the first `Connection` line of
the client lists it (`get_stripHopByHop`), the fields that the relay sets are others
(`get_outboundRequest`), and the stream delivers it as it was written. So it arrives
whenever the client has sent it and not listed it (`public_command_iff`).
-/

namespace VulosRelay.Agent

open GoText Http Keyauth Server Header Opened List

def netHttpFields : List Text :=
  [literal "Host", literal "User-Agent", literal "Content-Length", literal "Transfer-Encoding",
    literal "Trailer", literal "Connection", literal "Cache-Control"]

/--
`Request.Write` on one end of a stream and `http.ReadRequest` on the other, `none` if one
of them fails: what is read has the header that was written, up to the fields that
`net/http` sees to itself.
-/
def Carries (stream : Request → Option Request) : Prop :=
  ∀ sent read, stream sent = some read → Arrives netHttpFields sent.header read.header

/-- The names that some `Connection` lines list. -/
def namedIn (lines : List Text) : List Text := (lines.flatMap listedTokens).map canonicalName

def struck (h : Header) : List Text :=
  namedIn [h.get (literal "Connection")] ++ hopByHopHeaders.map canonicalName

theorem values_stripHopByHop (h : Header) (name : Text) : (stripHopByHop h).values name
      = if canonicalName name ∈ struck h then [] else h.values name := by
  rw [stripHopByHop, values_del_all, values_del_all]
  simp [struck, namedIn, or_comm, ite_or]

def relayFields : List Text :=
  [literal "X-Forwarded-For", literal "X-Real-IP", literal "X-Forwarded-Host",
    literal "X-Forwarded-Proto", literal "Connection", literal "Upgrade"]

/-- The fields that `sanitizeRequestHeaders` sets: `X-Real-IP` only without a trusted proxy. -/
def forwardingFields (trustProxy : Bool) : List Text :=
  [literal "X-Forwarded-For", literal "X-Forwarded-Host", literal "X-Forwarded-Proto"] ++
    if trustProxy then [] else [literal "X-Real-IP"]

theorem forwardingFields_subset (trustProxy : Bool) :
    forwardingFields trustProxy ⊆ relayFields := by
  cases trustProxy <;> decide

theorem values_sanitizeRequestHeaders (out orig : Request) (trustProxy : Bool)
    (hnm : canonicalName name ∉ (forwardingFields trustProxy).map canonicalName) :
    (sanitizeRequestHeaders out orig trustProxy).header.values name
      = (stripHopByHop out.header).values name := by
  cases trustProxy with
  | true =>
    simp only [forwardingFields, if_true, append_nil, map_cons, map_nil, mem_cons, not_or] at hnm
    simp only [sanitizeRequestHeaders, values_set, hnm, if_false, if_true]
    split <;> simp only [values_set, hnm, if_false]
  | false =>
    simp only [forwardingFields, Bool.false_eq_true, if_false, cons_append, nil_append, map_cons,
      map_nil, mem_cons, not_or] at hnm
    simp only [sanitizeRequestHeaders, Bool.false_eq_true, values_set, hnm, if_false]

theorem values_outbound_of_notMem {trustProxy : Bool}
    (hnm : canonicalName name ∉ relayFields.map canonicalName) :
    (outboundRequest trustProxy r trimmedPath).header.values name
      = (stripHopByHop r.header).values name := by
  have hsn := values_sanitizeRequestHeaders { r with path := trimmedPath } r trustProxy
    fun h => hnm (map_subset _ (forwardingFields_subset trustProxy) h)
  rw [outboundRequest]
  split
  · simp only [relayFields, map_cons, mem_cons, not_or] at hnm
    simp only [restoreUpgradeHeaders, values_set, hnm, if_false, hsn]
  · exact hsn

theorem command_not_hopByHop :
    canonicalName agentCommandHeader ∉ hopByHopHeaders.map canonicalName := by decide

theorem command_not_set :
    canonicalName agentCommandHeader ∉ relayFields.map canonicalName := by decide

theorem command_not_netHttp : canonicalName agentCommandHeader ∉ netHttpFields := by
  decide

/-- The client lists the command header in its first `Connection` line. -/
def ListsCommand (p : PublicRequest) : Prop :=
  canonicalName agentCommandHeader
    ∈ (listedTokens (Header.firstOf p.lines (literal "Connection"))).map canonicalName

/--
The client sends no command: the first command header among its lines is empty or there
is none, or its first `Connection` line lists the header.
-/
def SendsNoCommand (p : PublicRequest) : Prop :=
  wireValue (Header.firstOf p.lines agentCommandHeader) = [] ∨ ListsCommand p

variable {stream : Request → Option Request} {read : Request}

theorem command_read (hst : Carries stream) {sent : Request} (hrd : stream sent = some read) :
    read.header.get agentCommandHeader = wireValue (sent.header.get agentCommandHeader) :=
  (hst sent read hrd).get command_not_netHttp

theorem public_command_iff (hst : Carries stream) {trustProxy : Bool} {p : PublicRequest}
    {trimmedPath : Text}
    (hrd : stream (outboundRequest trustProxy p.received trimmedPath) = some read) :
    read.header.get agentCommandHeader = [] ↔ SendsNoCommand p := by
  have hlc : canonicalName agentCommandHeader ∈ struck p.received.header ↔ ListsCommand p := by
    simp [struck, namedIn, command_not_hopByHop, PublicRequest.received, get_ofFields,
      ListsCommand]
  rw [command_read hst hrd, Header.get, values_outbound_of_notMem command_not_set,
    values_stripHopByHop, SendsNoCommand, ← hlc]
  split
  · next hls => exact ⟨fun _ => .inr hls, fun _ => rfl⟩
  · next hls =>
    rw [← Header.get, PublicRequest.received, Header.get_ofFields]
    exact ⟨.inl, fun h => h.resolve_right hls⟩

theorem notified_command (hst : Carries stream) {name : Text}
    (hrd : stream (notifyRequest name) = some read) :
    read.header.get agentCommandHeader = [] := by
  have hsn : (notifyRequest []).header.get agentCommandHeader = [] := by decide
  rw [command_read hst hrd]
  exact congrArg wireValue hsn

theorem not_isControl_iff {around : Surroundings} {req : Request} :
    (serveStream around (some req)).isControl = false
      ↔ req.header.get agentCommandHeader = [] := by
  rw [← Bool.not_eq_true, serveStream_isControl, not_not]

/--
**A public client can command the agent exactly by sending the header.** The request that
the relay writes for a public client, HTTP or WebSocket, is not taken for a control
command iff the client sends no command. So `requestReconnect` is reached only from the
streams that `signalReconnect` opens, and from those of public clients that send one.
-/
theorem public_control_iff (stream : Request → Option Request) (hstream : Carries stream)
    (around : Surroundings) :
    (∀ trustProxy p trimmedPath read,
      stream (proxied trustProxy p trimmedPath).written = some read →
      ((serveStream around (some read)).isControl = false ↔ SendsNoCommand p))
    ∧ ∀ (opened : Opened) reason,
        serveStream around (stream opened.written) = .reconnecting reason →
        (∃ name why, opened = .drained name why)
        ∨ ∃ trustProxy p trimmedPath,
            opened = .proxied trustProxy p trimmedPath ∧ ¬ SendsNoCommand p := by
  have hpub : ∀ trustProxy p trimmedPath read,
      stream (proxied trustProxy p trimmedPath).written = some read →
      ((serveStream around (some read)).isControl = false ↔ SendsNoCommand p) := by
    intro trustProxy p trimmedPath read hrd
    rw [not_isControl_iff]
    exact public_command_iff hstream hrd
  refine ⟨hpub, fun opened reason hsr => ?_⟩
  cases hrd : stream opened.written with
  | none =>
    rw [hrd] at hsr
    cases hsr
  | some read =>
    rw [hrd] at hsr
    have hcn : (serveStream around (some read)).isControl = true := by
      rw [hsr, Served.isControl]
    cases opened with
    | proxied trustProxy p trimmedPath =>
      refine .inr ⟨trustProxy, p, trimmedPath, rfl, fun hno => ?_⟩
      rw [(hpub trustProxy p trimmedPath read hrd).mpr hno] at hcn
      exact Bool.false_ne_true hcn
    | notified name =>
      rw [serveStream_isControl] at hcn
      exact absurd (notified_command hstream hrd) hcn
    | drained name why => exact .inl ⟨name, why, rfl⟩

def plainStream (req : Request) : Option Request :=
  some { req with header := req.header.mapValues wireValue }

theorem carries_plainStream : Carries plainStream := by
  intro sent read hrd name _
  rw [plainStream] at hrd
  cases hrd
  exact values_mapValues wireValue sent.header name

def sampleRequest (lines : List (Text × Text)) : PublicRequest where
  method := literal "GET"
  path := literal "/"
  host := literal "box.example.com"
  remoteAddr := literal "203.0.113.9:4711"
  tls := true
  lines := lines

def sampleAround : Surroundings := ⟨literal "127.0.0.1:8080", true, true, true⟩

theorem plain_request_not_control :
    ∃ read,
      plainStream (proxied false (sampleRequest [(literal "accept", literal "*/*")])
        (literal "/")).written = some read
      ∧ (serveStream sampleAround (some read)).isControl = false := by
  have hno : SendsNoCommand (sampleRequest [(literal "accept", literal "*/*")]) :=
    .inl (by decide)
  refine ⟨_, rfl, ?_⟩
  exact ((public_control_iff plainStream carries_plainStream sampleAround).1 false _ _ _
    rfl).mpr hno

/--
**A public client makes the agent reconnect.** One header line, in lower case, is enough:
the agent answers it itself and calls `requestReconnect`.
-/
theorem public_client_reconnects_agent :
    ∃ read,
      plainStream (proxied false
        (sampleRequest [(literal "x-vulos-relay-command", literal "reconnect")])
        (literal "/")).written = some read
      ∧ (serveStream sampleAround (some read)).isControl = true
      ∧ ∃ reason, serveStream sampleAround (some read) = .reconnecting reason := by
  let read : Request :=
    { (proxied false
        (sampleRequest [(literal "x-vulos-relay-command", literal "reconnect")])
        (literal "/")).written with
      header := (proxied false
        (sampleRequest [(literal "x-vulos-relay-command", literal "reconnect")])
        (literal "/")).written.header.mapValues wireValue }
  have hcmd : read.header.get agentCommandHeader = commandReconnect := by decide
  have hne : read.header.get agentCommandHeader ≠ [] := by
    rw [hcmd]
    decide
  refine ⟨read, rfl, (serveStream_isControl sampleAround read).mpr hne,
    read.header.get agentReasonHeader, ?_⟩
  rw [serveStream, if_pos hne, handleControlCommand, if_pos hcmd]

end VulosRelay.Agent
