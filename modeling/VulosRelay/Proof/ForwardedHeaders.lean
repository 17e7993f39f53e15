import VulosRelay.Proof.ControlStreams

/-!
# The forwarding headers are the relay's own

`sanitizeRequestHeaders` deletes what `Connection` lists before it sets anything, so with
`TrustProxyHeaders` off the four forwarding headers are set last and nothing that a public
client sends is left of them (`values_outboundRequest`). The agent hands them on.
-/

namespace VulosRelay.Agent

open GoText Http Keyauth Server List

/-- What the application is told of a public request: its peer address, its host, and
whether the relay has terminated TLS. -/
def observed (p : PublicRequest) : List (Text × Text) :=
  [(literal "X-Forwarded-For", peerAddress p.remoteAddr),
    (literal "X-Real-IP", peerAddress p.remoteAddr), (literal "X-Forwarded-Host", p.host),
    (literal "X-Forwarded-Proto", if p.tls then literal "https" else literal "http")]

theorem values_outboundRequest (p : PublicRequest) (trimmedPath : Text) (hfl : field ∈ observed p) :
    (outboundRequest false p.received trimmedPath).header.values field.1 = [field.2] := by
  have hnm : (relayFields.map canonicalName).Nodup := by decide
  simp only [relayFields, map_cons, map_nil, nodup_cons, mem_cons, not_or] at hnm
  simp only [observed, mem_cons, not_mem_nil, or_false] at hfl
  rw [outboundRequest]
  rcases hfl with rfl | rfl | rfl | rfl <;> split <;>
    simp [restoreUpgradeHeaders, sanitizeRequestHeaders, Header.values_set, hnm,
      forwardedProto, PublicRequest.received]

theorem observed_not_netHttp (p : PublicRequest) :
    ∀ field ∈ observed p, canonicalName field.1 ∉ netHttpFields := by
  simp only [observed, forall_mem_cons]
  decide

theorem header_of_proxied {around : Surroundings} {read req : Request} {isWS : Bool}
    (h : serveStream around (some read) = .proxied req isWS) : req.header = read.header := by
  rw [serveStream] at h
  split at h
  · rw [handleControlCommand] at h
    split at h <;> cases h
  split at h
  · cases h
  split at h
  · cases h
  split at h
  · cases h
  · cases h
    rfl

theorem values_written {stream : Request → Option Request} (hst : Carries stream)
    {around : Surroundings} {p : PublicRequest} {path : Text} {req : Request} {isWS : Bool}
    (h : serveStream around (stream (outboundRequest false p.received path)) = .proxied req isWS)
    {field : Text × Text} (hfl : field ∈ observed p) :
    req.header.values field.1 = [wireValue field.2] := by
  cases hrd : stream (outboundRequest false p.received path) with
  | none =>
    rw [hrd] at h
    cases h
  | some read =>
    rw [hrd] at h
    rw [header_of_proxied h, hst _ _ hrd _ (observed_not_netHttp p field hfl),
      values_outboundRequest p path hfl]
    rfl

/--
**Forwarding headers cannot be spoofed.** With `TrustProxyHeaders` off, the request that the
agent writes to the application has for each of the four headers the one value that the
relay has observed, whatever lines the client has sent; so for two requests with one peer
address, host and TLS state the values are the same.
-/
theorem forwarding_headers_unspoofed (stream : Request → Option Request)
    (hstream : Carries stream) (around : Surroundings) (p : PublicRequest) (path : Text)
    (req : Request) (isWS : Bool)
    (h : serveStream around (stream (outboundRequest false p.received path))
      = .proxied req isWS) :
    (∀ field ∈ observed p, req.header.values field.1 = [wireValue field.2]) ∧
      ∀ around' (q : PublicRequest) path' req' isWS', q.remoteAddr = p.remoteAddr →
        q.host = p.host → q.tls = p.tls →
        serveStream around' (stream (outboundRequest false q.received path'))
          = .proxied req' isWS' →
        ∀ field ∈ observed p, req'.header.values field.1 = req.header.values field.1 := by
  refine ⟨fun field => values_written hstream h, ?_⟩
  intro around' q path' req' isWS' had hhs htls h' field hfl
  have hsm : observed q = observed p := by simp only [observed, had, hhs, htls]
  rw [values_written hstream h' (hsm ▸ hfl), values_written hstream h hfl]

def spoofedRequest : PublicRequest :=
  sampleRequest [(literal "x-forwarded-for", literal "10.0.0.1"),
    (literal "X-Real-IP", literal "10.0.0.1"), (literal "Connection", literal "X-Forwarded-Proto")]

theorem spoofed_headers_replaced :
    ∃ req isWS, serveStream sampleAround
        (plainStream (outboundRequest false spoofedRequest.received (literal "/")))
          = .proxied req isWS ∧
      req.header.values (literal "X-Forwarded-For") = [literal "203.0.113.9"] := by
  obtain ⟨req, isWS, h⟩ : ∃ req isWS, serveStream sampleAround
      (plainStream (outboundRequest false spoofedRequest.received (literal "/")))
        = .proxied req isWS := by
    rw [plainStream, serveStream, if_neg (by decide)]
    exact ⟨_, _, rfl⟩
  refine ⟨req, isWS, h, ?_⟩
  exact (forwarding_headers_unspoofed plainStream carries_plainStream sampleAround spoofedRequest
    (literal "/") req isWS h).1 _ (.head _)

end VulosRelay.Agent
