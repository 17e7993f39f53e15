/-!
# Go strings

Strings as their bytes, with the functions of `strings` and `net` that the programs use:
trimming of white space, comparison with an ASCII pattern under case folding, and the
splitting of a host from its port.
-/

namespace GoText

abbrev Text := List UInt8

def lowerByte (c : UInt8) : UInt8 := if 0x41 ≤ c ∧ c ≤ 0x5A then c + 0x20 else c

def upperByte (c : UInt8) : UInt8 := if 0x61 ≤ c ∧ c ≤ 0x7A then c - 0x20 else c

def spaces : List Text :=
  [[0x09], [0x0A], [0x0B], [0x0C], [0x0D], [0x20], [0xC2, 0x85], [0xC2, 0xA0],
    [0xE1, 0x9A, 0x80], [0xE2, 0x80, 0x80], [0xE2, 0x80, 0x81], [0xE2, 0x80, 0x82],
    [0xE2, 0x80, 0x83], [0xE2, 0x80, 0x84], [0xE2, 0x80, 0x85], [0xE2, 0x80, 0x86],
    [0xE2, 0x80, 0x87], [0xE2, 0x80, 0x88], [0xE2, 0x80, 0x89], [0xE2, 0x80, 0x8A],
    [0xE2, 0x80, 0xA8], [0xE2, 0x80, 0xA9], [0xE2, 0x80, 0xAF], [0xE2, 0x81, 0x9F],
    [0xE3, 0x80, 0x80]]

def dropCodes (codes : List Text) : Nat → Text → Text
  | 0, s => s
  | n + 1, s =>
    match codes.find? (·.isPrefixOf s) with
    | some code => dropCodes codes n (s.drop code.length)
    | none => s

def trimSpace (s : Text) : Text :=
  let left := dropCodes spaces s.length s
  (dropCodes (spaces.map List.reverse) left.length left.reverse).reverse

/--
`strings.EqualFold` with an ASCII pattern. Two characters outside ASCII fold to a letter:
the long s (`C5 BF`) and the Kelvin sign (`E2 84 AA`).
-/
def equalFold : Text → Text → Bool
  | [], [] => true
  | [], _ :: _ => false
  | _ :: _, [] => false
  | 0xC5 :: 0xBF :: s, p :: pattern => lowerByte p = 0x73 && equalFold s pattern
  | 0xE2 :: 0x84 :: 0xAA :: s, p :: pattern => lowerByte p = 0x6B && equalFold s pattern
  | c :: s, p :: pattern => c < 0x80 && lowerByte c = lowerByte p && equalFold s pattern

def splitHostPort (hostport : Text) : Option (Text × Text) :=
  match (hostport.reverse).idxOf? 0x3A with
  | none => none
  | some fromEnd =>
    let i := hostport.length - 1 - fromEnd
    let port := hostport.drop (i + 1)
    if hostport.head? = some 0x5B then
      match hostport.idxOf? 0x5D with
      | none => none
      | some close =>
        let host := (hostport.drop 1).take (close - 1)
        -- the closing bracket stands right before the last colon
        if close + 1 ≠ i then none
        else if 0x5B ∈ hostport.drop 1 ∨ 0x5D ∈ hostport.drop (close + 1) then none
        else some (host, port)
    else
      let host := hostport.take i
      if 0x3A ∈ host ∨ 0x5B ∈ hostport ∨ 0x5D ∈ hostport then none
      else some (host, port)

end GoText
