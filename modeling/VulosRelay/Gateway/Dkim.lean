import VulosRelay.Gateway.B64
import VulosRelay.Lib.Crlf

/-!
# DKIM signing and verification

The model of `sign`, `verify` and `signing_domain_selector` (`crates/gateway/src/dkim.rs`) with
the canonicalization they share. Messages are bytes; the names of header fields and the tag list
of a signature are text, read from the bytes leniently. SHA-256 and Ed25519 are parameters.
-/

namespace VulosRelay.Gateway.Dkim

open Crlf (isWsp)

structure Crypto (κ : Type) where
  sha256 : List UInt8 → List UInt8
  publicBytes : κ → List UInt8
  sign : κ → List UInt8 → List UInt8
  isKey : List UInt8 → Bool
  verify : (publicKey digest signature : List UInt8) → Bool

structure DkimKey (κ : Type) where
  domain : Str
  selector : Str
  signing : κ

inductive DkimError where
  | noSignature
  | unsupportedAlgorithm
  | unsupportedCanonicalization
  | fromFieldNotSigned
  | malformedSignature
  | bodyHashMismatch
  | badPublicKey
  | signatureInvalid
  deriving DecidableEq

abbrev Field := Str × List UInt8

def splitBlankLine : List UInt8 → Option (List UInt8 × List UInt8)
  | [] => none
  | b :: rest =>
    if [13, 10, 13, 10] <+: b :: rest then some ([], rest.drop 3)
    else (splitBlankLine rest).map fun r => (b :: r.1, r.2)

def extendLast (out : List Field) (raw : List UInt8) : List Field :=
  match out.getLast? with
  | none => out
  | some (name, value) => out.dropLast ++ [(name, value ++ 13 :: 10 :: raw)]

def addLine (out : List Field) (raw : List UInt8) : List Field :=
  match raw with
  | [] => out
  | b :: _ =>
    if isWsp b then extendLast out raw
    else if raw.contains 0x3A then
      out ++ [(Utf8.decodeLossy (raw.takeWhile (· != 0x3A)), (raw.dropWhile (· != 0x3A)).drop 1)]
    else out

def parseHeaders (head : List UInt8) : List Field := (Crlf.split head).foldl addLine []

def splitHeadersBody (message : List UInt8) : List Field × List UInt8 :=
  match splitBlankLine message with
  | some (head, body) => (parseHeaders head, body)
  | none => (parseHeaders message, [])

def isNamed (name : Str) (field : Field) : Bool := eqIgnoreAsciiCase (trim field.1) name

def findHeader (headers : List Field) (name : Str) : Option Field :=
  headers.reverse.find? (isNamed name)

def lowerByte (b : UInt8) : UInt8 := if 0x41 ≤ b && b ≤ 0x5A then b + 32 else b

def relaxFrom : (inWsp started : Bool) → List UInt8 → List UInt8
  | _, _, [] => []
  | inWsp, started, [b] =>
    if isWsp b then [] else (if inWsp && started then [32] else []) ++ [b]
  | inWsp, started, b :: c :: rest =>
    if b = 13 ∧ c = 10 then relaxFrom inWsp started rest
    else if isWsp b then relaxFrom true started (c :: rest)
    else (if inWsp && started then [32] else []) ++ b :: relaxFrom false true (c :: rest)

def relaxValue (value : List UInt8) : List UInt8 := relaxFrom false false value

def relaxLine (name : Str) (value : List UInt8) : List UInt8 :=
  (Utf8.encode (trim name)).map lowerByte ++ 0x3A :: relaxValue value

def canonicalizeHeader (name : Str) (value : List UInt8) : List UInt8 :=
  relaxLine name value ++ [13, 10]

def collapseFrom : (inWsp : Bool) → List UInt8 → List UInt8
  | _, [] => []
  | inWsp, b :: rest =>
    if isWsp b then collapseFrom true rest
    else (if inWsp then [32] else []) ++ b :: collapseFrom false rest

def canonicalizeBody (body : List UInt8) : List UInt8 :=
  ((((Crlf.split body).map (collapseFrom false)).reverse.dropWhile List.isEmpty).reverse).flatMap
    fun line => line ++ [13, 10]

def stripFinalCrlf (bytes : List UInt8) : List UInt8 :=
  if [13, 10] <:+ bytes then bytes.take (bytes.length - 2) else bytes

def instanceOf (headers : List Field) (earlier : List Str) (name : Str) : Option Field :=
  let occurrence := (earlier.filter fun m => eqIgnoreAsciiCase (trim m) (trim name)).length
  (headers.reverse.filter (isNamed (trim name)))[occurrence]?

def assembleFrom (headers : List Field) : (earlier names : List Str) → List UInt8
  | _, [] => []
  | earlier, name :: names =>
    (match instanceOf headers earlier name with
      | some field => canonicalizeHeader field.1 field.2
      | none => [])
      ++ assembleFrom headers (earlier ++ [name]) names

def assembleSignedHeaders (headers : List Field) (names : List Str) : List UInt8 :=
  assembleFrom headers [] names

def signingInput (headers : List Field) (names : List Str) (value : List UInt8) : List UInt8 :=
  assembleSignedHeaders headers names
    ++ stripFinalCrlf (canonicalizeHeader "DKIM-Signature".toList value)

def parseTag (part : Str) : Option (Str × Str) :=
  if trim part = [] then none
  else (splitOnce '=' (trim part)).map fun r => (trim r.1, r.2.filter fun c => !isWhitespace c)

def parseTags (value : Str) : List (Str × Str) := (splitAt ';' value).filterMap parseTag

def getTag (tags : List (Str × Str)) (name : Str) : Option Str :=
  (tags.find? fun t => t.1 == name).map Prod.snd

def atBoundary (before : List UInt8) : Bool :=
  before.isEmpty || (before.dropWhile isWsp).head? == some 0x3B

def emptyBFrom : (skipping : Bool) → (before : List UInt8) → List UInt8 → List UInt8
  | _, _, [] => []
  | true, before, b :: rest =>
    if b = 0x3B then b :: emptyBFrom false (b :: before) rest
    else emptyBFrom true (b :: before) rest
  | false, before, b :: rest =>
    if atBoundary before && b == 0x62 && (rest.dropWhile isWsp).head? == some 0x3D then
      0x62 :: 0x3D :: emptyBFrom true (b :: before) rest
    else b :: emptyBFrom false (b :: before) rest

def emptyBValue (value : List UInt8) : List UInt8 := emptyBFrom false [] value

def signedHeaders : List Str :=
  ["from".toList, "to".toList, "subject".toList, "date".toList, "message-id".toList]

def headerNames (headers : List Field) : List Str :=
  (signedHeaders.filter fun h => (findHeader headers h).isSome) ++ ["from".toList]

def bodyHash {κ : Type} (crypto : Crypto κ) (body : List UInt8) : Str :=
  B64.encode (crypto.sha256 (canonicalizeBody body))

def signatureBase {κ : Type} (key : DkimKey κ) (t : Nat) (names : List Str) (bh : Str) : Str :=
  "v=1; a=ed25519-sha256; c=relaxed/relaxed; d=".toList ++ key.domain
    ++ "; s=".toList ++ key.selector ++ "; t=".toList ++ Nat.toDigits 10 t
    ++ "; h=".toList ++ [':'].intercalate names ++ "; bh=".toList ++ bh ++ "; b=".toList

def signedBase {κ : Type} (crypto : Crypto κ) (key : DkimKey κ) (message : List UInt8) (t : Nat) :
    Str :=
  let (headers, body) := splitHeadersBody message
  signatureBase key t (headerNames headers) (bodyHash crypto body)

def signedInput {κ : Type} (crypto : Crypto κ) (key : DkimKey κ) (message : List UInt8)
    (t : Nat) : List UInt8 :=
  let (headers, _) := splitHeadersBody message
  signingInput headers (headerNames headers) (Utf8.encode (signedBase crypto key message t))

def sign {κ : Type} (crypto : Crypto κ) (key : DkimKey κ) (message : List UInt8) (t : Nat) : Str :=
  let signature := crypto.sign key.signing (crypto.sha256 (signedInput crypto key message t))
  "DKIM-Signature: ".toList ++ signedBase crypto key message t ++ B64.encode signature
    ++ "\r\n".toList

def splitNames (h : Str) : List Str := ((splitAt ':' h).map trim).filter (· ≠ [])

def checkTags (tags : List (Str × Str)) (bh : Str) : Except DkimError (List Str × Str) :=
  if getTag tags "a".toList ≠ some "ed25519-sha256".toList then .error .unsupportedAlgorithm
  else if getTag tags "c".toList ≠ none ∧
      getTag tags "c".toList ≠ some "relaxed/relaxed".toList then
    .error .unsupportedCanonicalization
  else
    match getTag tags "bh".toList with
    | none => .error .malformedSignature
    | some bhExpected =>
      if bhExpected ≠ bh then .error .bodyHashMismatch
      else
        match getTag tags "h".toList, getTag tags "b".toList with
        | some h, some b =>
          if (splitNames h).any fun n => eqIgnoreAsciiCase n "from".toList then
            .ok (splitNames h, b)
          else .error .fromFieldNotSigned
        | _, _ => .error .malformedSignature

def checkSignature {κ : Type} (crypto : Crypto κ) (input publicKey : List UInt8) (b : Str) :
    Except DkimError Unit :=
  if publicKey.length ≠ 32 ∨ crypto.isKey publicKey = false then .error .badPublicKey
  else
    match B64.decode b with
    | none => .error .malformedSignature
    | some signature =>
      if signature.length ≠ 64 then .error .malformedSignature
      else if crypto.verify publicKey (crypto.sha256 input) signature then .ok ()
      else .error .signatureInvalid

def verify {κ : Type} (crypto : Crypto κ) (message publicKey : List UInt8) :
    Except DkimError Unit :=
  let (headers, body) := splitHeadersBody message
  match findHeader headers "dkim-signature".toList with
  | none => .error .noSignature
  | some (_, value) => do
      let (names, b) ← checkTags (parseTags (Utf8.decodeLossy value)) (bodyHash crypto body)
      checkSignature crypto (signingInput headers names (emptyBValue value)) publicKey b

def signingDomainSelector (message : List UInt8) : Option (Str × Str) := do
  let (_, value) ← findHeader (splitHeadersBody message).1 "dkim-signature".toList
  let tags := parseTags (Utf8.decodeLossy value)
  let d ← getTag tags "d".toList
  let s ← getTag tags "s".toList
  pure (d, s)

end VulosRelay.Gateway.Dkim
