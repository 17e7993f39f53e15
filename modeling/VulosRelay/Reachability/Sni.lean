import VulosRelay.Lib.Utf8
import VulosRelay.Lib.Wire

/-!
# The server name of a ClientHello

The model of `try_parse` (`crates/reachability-adapter/src/sni.rs`). A cursor is the bytes that
it has not read. The two loops are over a number of rounds; each round reads something, so
the length of what is left is enough.
-/

namespace VulosRelay.Reachability

inductive SniError where
  | notHandshake
  | malformed (text : String)
  | noSni
  | emptySni
  deriving DecidableEq

inductive Parsed where
  | incomplete
  | complete (serverName : List Char)
  deriving DecidableEq

abbrev Cursor := StateT (List UInt8) (Except SniError)

def take (n : Nat) : Cursor (List UInt8) := fun buf =>
  if n > buf.length then .error (.malformed "truncated field") else .ok (buf.take n, buf.drop n)

def uint (width : Nat) : Cursor Nat := do
  let b ← take width
  pure (Wire.beUint b)

def field (width : Nat) : Cursor (List UInt8) := do
  let n ← uint width
  take n

def fromUtf8 (bytes : List UInt8) : Option (List Char) :=
  if Utf8.encode (Utf8.decodeLossy bytes) = bytes then some (Utf8.decodeLossy bytes) else none

def scanNames : (rounds : Nat) → List UInt8 → Except SniError (List Char)
  | 0, _ => .error .noSni
  | _ + 1, [] => .error .noSni
  | rounds + 1, list => do
      let (nameType, list) ← uint 1 list
      let (name, list) ← field 2 list
      if nameType = 0 then
        if name = [] then .error .emptySni
        else
          match fromUtf8 name with
          | some text => .ok text
          | none => .error (.malformed "server_name is not valid UTF-8")
      else scanNames rounds list

def parseServerNameExtension (data : List UInt8) : Except SniError (List Char) := do
  let (list, _) ← field 2 data
  scanNames list.length list

def scanExtensions : (rounds : Nat) → List UInt8 → Except SniError (List Char)
  | 0, _ => .error .noSni
  | _ + 1, [] => .error .noSni
  | rounds + 1, extensions => do
      let (extType, extensions) ← uint 2 extensions
      let (extData, extensions) ← field 2 extensions
      if extType = 0 then parseServerNameExtension extData
      else scanExtensions rounds extensions

def parseClientHelloBody (body : List UInt8) : Except SniError (List Char) := do
  let (_, c) ← take 2 body
  let (_, c) ← take 32 c
  let (_, c) ← field 1 c
  let (_, c) ← field 2 c
  let (_, c) ← field 1 c
  if c = [] then .error .noSni
  else do
    let (extensions, _) ← field 2 c
    scanExtensions extensions.length extensions

def parseHandshake (record : List UInt8) : Except SniError Parsed := do
  let (hsType, c) ← uint 1 record
  if hsType ≠ 1 then .error (.malformed "first handshake message is not ClientHello")
  else do
    let (hsLen, c) ← uint 3 c
    match take hsLen c with
    | .error _ => .error (.malformed "ClientHello spans multiple TLS records (unsupported)")
    | .ok (body, _) => (parseClientHelloBody body).map .complete

def tryParse (buf : List UInt8) : Except SniError Parsed :=
  if buf.length < 5 then .ok .incomplete
  else if buf.head? ≠ some 0x16 then .error .notHandshake
  else
    let recordLen := Wire.beUint ((buf.drop 3).take 2)
    if recordLen = 0 ∨ recordLen > 0x4000 then
      .error (.malformed "record length out of range")
    else if buf.length < 5 + recordLen then .ok .incomplete
    else parseHandshake ((buf.drop 5).take recordLen)

end VulosRelay.Reachability
