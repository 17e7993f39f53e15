import VulosRelay.Server.Proxy

/-!
# The agent's side of a stream

The model of `serveStream` and `handleControlCommand` (`tunnel/agent/forward.go`): a
request whose command header is not empty is a control command and is answered by the
agent itself; any other request goes to the one local target. What happens outside (is
the target a loopback address, does the dial succeed, does the request arrive whole at
the local server) is left to the environment.
-/

namespace VulosRelay.Agent

open GoText Http Keyauth Server

structure Surroundings where
  localAddr : Text
  loopback : Bool
  dialed : Bool
  forwarded : Bool

inductive Served where
  | badRequest
  /-- 200 `reconnecting`, and `requestReconnect` is called with the reason. -/
  | reconnecting (reason : Text)
  | unknownCommand
  | forbidden
  | badGateway
  /-- The request is written to the local server, and its answer is copied back. -/
  | proxied (req : Request) (isWS : Bool)

def Served.isControl : Served → Bool
  | .reconnecting _ => true
  | .unknownCommand => true
  | _ => false

def handleControlCommand (cmd reason : Text) : Served :=
  if cmd = commandReconnect then .reconnecting reason else .unknownCommand

def serveStream (around : Surroundings) : Option Request → Served
  | none => .badRequest
  | some req =>
    let cmd := req.header.get agentCommandHeader
    if cmd ≠ [] then handleControlCommand cmd (req.header.get agentReasonHeader)
    else if !around.loopback then .forbidden
    else if !around.dialed then .badGateway
    else if !around.forwarded then .badGateway
    else .proxied { req with host := around.localAddr } (isWebSocketUpgrade req)

/-- **What is a control command**: a request with a command that is not empty. -/
theorem serveStream_isControl (around : Surroundings) (req : Request) :
    (serveStream around (some req)).isControl = true
      ↔ req.header.get agentCommandHeader ≠ [] := by
  rw [serveStream]
  by_cases hcmd : req.header.get agentCommandHeader = []
  · rw [if_neg (not_not_intro hcmd)]
    refine ⟨fun h => absurd h ?_, fun h => absurd hcmd h⟩
    split
    · simp [Served.isControl]
    split
    · simp [Served.isControl]
    · split <;> simp [Served.isControl]
  · rw [if_pos hcmd, handleControlCommand]
    refine ⟨fun _ => hcmd, fun _ => ?_⟩
    split <;> rfl

end VulosRelay.Agent
