import VulosRelay.Gateway.Text
import VulosRelay.Lib.Utf8

/-!
# The line loop of the legacy servers

The model of `serve_line_session_with_timeout` and `read_line_capped`
(`crates/gateway/src/legacy_net.rs`), with the line protocol of SMTP submission
(`crates/gateway/src/smtp_submission.rs`) over a session of the mail library, which is a
parameter. The loop reads a line, classifies it by its first word, feeds it to the session,
writes the reply, and upgrades to TLS or ends.

What arrives is a list of chunks, the results of the reads that fill the buffer; the network
decides where the bytes are cut. `fed` lists what the session was fed.
-/

namespace VulosRelay.Gateway.LegacyNet

inductive Chunk where
  | data (bytes : List UInt8)
  | interrupted
  | failed (error : Str)
  deriving DecidableEq

def maxLine : Nat := 64 * 1024 * 1024

def takeLine : List UInt8 → Option (List UInt8 × List UInt8)
  | [] => none
  | b :: rest => if b = 10 then some ([b], rest) else (takeLine rest).map fun r => (b :: r.1, r.2)

structure Read where
  outcome : Except Str (List UInt8)
  buffer : List UInt8
  chunks : List Chunk

def readChunks (cap : Nat) : List UInt8 → List Chunk → Read
  | out, [] => ⟨.ok out, [], []⟩
  | out, .interrupted :: chunks => readChunks cap out chunks
  | _, .failed e :: chunks => ⟨.error e, [], chunks⟩
  | out, .data available :: chunks =>
    if available = [] then ⟨.ok out, [], chunks⟩
    else
      match takeLine available with
      | some (upTo, rest) => ⟨.ok (out ++ upTo), rest, chunks⟩
      | none =>
        if (out ++ available).length > cap then
          ⟨.error "protocol line too long".toList, [], chunks⟩
        else readChunks cap (out ++ available) chunks

def readLineCapped (cap : Nat) (buffer : List UInt8) (chunks : List Chunk) : Read :=
  if buffer = [] then readChunks cap [] chunks else readChunks cap [] (.data buffer :: chunks)

structure LineProtocol (σ : Type) where
  feed : σ → List UInt8 → Str × σ
  isStarttls : Str → Bool
  acceptsUpgrade : Str → Bool
  isQuit : Str → Bool

def verbOf (line : Str) : Str := toAsciiUppercase ((splitWhitespace line).head?.getD [])

def smtpLine {σ : Type} (feed : σ → List UInt8 → Str × σ) : LineProtocol σ where
  feed := feed
  isStarttls line := verbOf line == "STARTTLS".toList
  acceptsUpgrade reply := (stripPrefix "220".toList reply).isSome
  isQuit line := verbOf line == "QUIT".toList

inductive Ended where
  | closed
  | failed (error : Str)
  deriving DecidableEq

structure Loop (σ : Type) where
  session : σ
  secured : Bool
  buffer : List UInt8
  chunks : List Chunk
  /-- What the socket gives through TLS after an upgrade; none if the handshake fails. -/
  tls : Option (List Chunk)
  /-- For each write, the error it fails with; past the end of the list they succeed. -/
  writes : List (Option Str)
  fed : List (List UInt8)
  ended : Option Ended

def stripEnds (line : List UInt8) : List UInt8 :=
  (line.reverse.dropWhile fun b => b == 13 || b == 10).reverse

section
variable {σ : Type} (proto : LineProtocol σ)

def finishPass (loop : Loop σ) (wantsUpgrade quit : Bool) (reply : Str) : Loop σ :=
  let ending (loop : Loop σ) : Loop σ := if quit then { loop with ended := some .closed } else loop
  if wantsUpgrade && proto.acceptsUpgrade reply then
    if loop.buffer ≠ [] then
      { loop with
        ended := some (.failed
          "pipelined data after STARTTLS/STLS — possible command injection".toList) }
    else
      match loop.tls with
      | none => { loop with ended := some (.failed "handshake".toList) }
      | some chunks => ending { loop with secured := true, chunks := chunks }
  else ending loop

def onLine (loop : Loop σ) (line : List UInt8) : Loop σ :=
  let cmd := stripEnds line
  let text := Utf8.decodeLossy cmd
  let wantsUpgrade := !loop.secured && proto.isStarttls text
  let quit := proto.isQuit text
  let fed := proto.feed loop.session cmd
  let loop := { loop with session := fed.2, fed := loop.fed ++ [cmd] }
  if fed.1 = [] then finishPass proto loop wantsUpgrade quit fed.1
  else
    match loop.writes with
    | some e :: writes => { loop with writes := writes, ended := some (.failed e) }
    | writes => finishPass proto { loop with writes := writes.tail } wantsUpgrade quit fed.1

def step (loop : Loop σ) : Loop σ :=
  if loop.ended.isSome then loop
  else
    let read := readLineCapped maxLine loop.buffer loop.chunks
    let loop := { loop with buffer := read.buffer, chunks := read.chunks }
    match read.outcome with
    | .error e => { loop with ended := some (.failed e) }
    | .ok line => if line = [] then { loop with ended := some .closed } else onLine proto loop line

def passes (loop : Loop σ) : Nat → Loop σ
  | 0 => loop
  | n + 1 => passes (step proto loop) n

end

end VulosRelay.Gateway.LegacyNet
