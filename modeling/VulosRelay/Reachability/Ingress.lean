import VulosRelay.Reachability.Registry
import VulosRelay.Reachability.Sni

/-!
# A connection of a client

The model of `peek_client_hello` (`crates/reachability-adapter/src/sni.rs`) and of
`handle_ingress_connection` (`ingress.rs`). A client is the chunks that its socket yields and how
they end: with the end of the stream, or with an error. What the tunnel and the splice do is a
parameter: how much is written before an error, and how much is copied either way.
-/

namespace VulosRelay.Reachability

open Gateway (Str)

def maxClientHelloBytes : Nat := 16 * 1024

inductive PeekError where
  | sni (e : SniError)
  | tooLarge
  | unexpectedEof
  | io (text : String)
  deriving DecidableEq

/-- A turn of the loop of `peek_client_hello`, up to the read: what it returns, if it does. -/
def decided (buf : List UInt8) : Option (Except PeekError Str) :=
  match tryParse buf with
  | .error e => some (.error (.sni e))
  | .ok (.complete serverName) => some (.ok serverName)
  | .ok .incomplete => if maxClientHelloBytes ≤ buf.length then some (.error .tooLarge) else none

/-- `ClientHelloPeek`, with the chunks that have not been read. -/
structure ClientHelloPeek where
  serverName : Str
  raw : List UInt8
  unread : List (List UInt8)

def peekFrom (ending : PeekError) (buf : List UInt8) (chunks : List (List UInt8)) :
    Except PeekError ClientHelloPeek :=
  match decided buf, chunks with
  | some outcome, _ => outcome.map fun serverName => ⟨serverName, buf, chunks⟩
  | none, [] => .error ending
  | none, chunk :: chunks => peekFrom ending (buf ++ chunk) chunks
termination_by structural chunks

def peekClientHello (ending : PeekError) : List (List UInt8) → Except PeekError ClientHelloPeek :=
  peekFrom ending []

inductive IngressError where
  | sni (e : PeekError)
  | unregisteredName (name : Str)
  | serviceNotAllowed (name service : Str)
  | tunnel

/-- What the tunnel does: whether a stream opens, how much of the first write goes through if not
all of it, and how much the splice copies to the box, and what to the client. -/
structure Splice where
  opens : Bool
  written : Option Nat
  clientToBox : Nat
  boxToClient : List UInt8

/-- What was written: to the box behind a handle, and to the client. -/
structure Traffic where
  box : Option (Nat × List UInt8)
  client : List UInt8

def failClosed : Traffic := ⟨none, []⟩

def handleIngressConnection (registry : RegistryState) (serviceId : Str) (ending : PeekError)
    (chunks : List (List UInt8)) (splice : Splice) : Traffic × Except IngressError Unit :=
  match peekClientHello ending chunks with
  | .error e => (failClosed, .error (.sni e))
  | .ok peek =>
    match registry.lookup peek.serverName with
    | none => (failClosed, .error (.unregisteredName peek.serverName))
    | some (handle, allowedServices) =>
      if serviceId ∉ allowedServices then
        (failClosed, .error (.serviceNotAllowed peek.serverName serviceId))
      else if splice.opens = false then (failClosed, .error .tunnel)
      else
        match splice.written with
        | some n => (⟨some (handle, peek.raw.take n), []⟩, .error .tunnel)
        | none =>
          let copied := peek.unread.flatten.take splice.clientToBox
          (⟨some (handle, peek.raw ++ copied), splice.boxToClient⟩, .ok ())

end VulosRelay.Reachability
