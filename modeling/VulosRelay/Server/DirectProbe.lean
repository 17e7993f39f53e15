import VulosRelay.Lib.IpBlock

/-!
# The address screen of the direct probe

The model of `isPublicIP`, `isPublicV4` and `embeddedV4` (`tunnel/server/directprobe.go`),
over the predicates of Go's `net.IP`, which are written out. An address is a slice of four
or of sixteen bytes; one of sixteen bytes that is IPv4-mapped counts as IPv4 wherever
`To4` is asked (`onTo4`). `none` is the nil slice.
-/

namespace VulosRelay.Server.DirectProbe

open Ip

def onTo4 (four : Addr 4 → Bool) (other : Addr 16 → Bool) : IP → Bool
  | .v4 a => four a
  | .v6 a => if a ∈ mapped then four (low a) else other a

def equal : IP → IP → Bool
  | .v4 a, .v4 b => a = b
  | .v6 a, .v6 b => a = b
  | .v4 a, .v6 b => decide (b ∈ mapped) && decide (a = low b)
  | .v6 a, .v4 b => decide (a ∈ mapped) && decide (low a = b)

def isUnspecified (ip : IP) : Bool :=
  equal ip (.v4 ![0, 0, 0, 0]) || equal ip (.v6 unspecified6.base)

def isLoopback (ip : IP) : Bool :=
  onTo4 (fun a => a 0 == 127) (fun _ => equal ip (.v6 loopback6.base)) ip

def isPrivate : IP → Bool :=
  onTo4
    (fun a => a 0 == 10 || (a 0 == 172 && a 1 &&& 0xf0 == 16) || (a 0 == 192 && a 1 == 168))
    (fun a => a 0 &&& 0xfe == 0xfc)

def isMulticast : IP → Bool :=
  onTo4 (fun a => a 0 &&& 0xf0 == 0xe0) (fun a => a 0 == 0xff)

def isInterfaceLocalMulticast : IP → Bool
  | .v6 a => a 0 == 0xff && a 1 &&& 0x0f == 0x01
  | .v4 _ => false

def isLinkLocalMulticast : IP → Bool :=
  onTo4 (fun a => a 0 == 224 && a 1 == 0 && a 2 == 0)
    (fun a => a 0 == 0xff && a 1 &&& 0x0f == 0x02)

def isLinkLocalUnicast : IP → Bool :=
  onTo4 (fun a => a 0 == 169 && a 1 == 254) (fun a => a 0 == 0xfe && a 1 &&& 0xc0 == 0x80)

def isGlobalUnicast (ip : IP) : Bool :=
  !equal ip (.v4 ![255, 255, 255, 255]) && !isUnspecified ip && !isLoopback ip
    && !isMulticast ip && !isLinkLocalUnicast ip

def isPublicV4 (a : Addr 4) : Bool :=
  let v4 := IP.v4 a
  if isLoopback v4 || isUnspecified v4 || isPrivate v4 || isLinkLocalUnicast v4
      || isLinkLocalMulticast v4 || isMulticast v4 then false
  else if a 0 == 100 && a 1 ≥ 64 && a 1 ≤ 127 then false
  else if a 0 == 0 then false
  else if a 0 == 192 && a 1 == 0 && a 2 == 0 then false
  else if a 0 == 192 && a 1 == 0 && a 2 == 2 then false
  else if a 0 == 198 && a 1 == 51 && a 2 == 100 then false
  else if a 0 == 203 && a 1 == 0 && a 2 == 113 then false
  else if a 0 == 198 && (a 1 == 18 || a 1 == 19) then false
  else if a 0 ≥ 240 then false
  else true

def embeddedV4 (a : Addr 16) : Option (Addr 4) :=
  if a 0 == 0x00 && a 1 == 0x64 && a 2 == 0xff && a 3 == 0x9b && a 4 == 0 && a 5 == 0
      && a 6 == 0 && a 7 == 0 && a 8 == 0 && a 9 == 0 && a 10 == 0 && a 11 == 0 then
    some ![a 12, a 13, a 14, a 15]
  else if a 0 == 0x20 && a 1 == 0x02 then some ![a 2, a 3, a 4, a 5]
  else if a 0 == 0x20 && a 1 == 0x01 && a 2 == 0x00 && a 3 == 0x00 then
    some ![a 12 ^^^ 0xff, a 13 ^^^ 0xff, a 14 ^^^ 0xff, a 15 ^^^ 0xff]
  else none

def isPublicV6 (a : Addr 16) : Bool :=
  if !isGlobalUnicast (.v6 a) then false
  else
    match embeddedV4 a with
    | some v4 => isPublicV4 v4
    | none => !(a 0 == 0x20 && a 1 == 0x01 && a 2 == 0x0d && a 3 == 0xb8)

def isPublicIP : Option IP → Bool
  | none => false
  | some ip =>
    if isLoopback ip || isUnspecified ip || isLinkLocalUnicast ip || isLinkLocalMulticast ip
        || isMulticast ip || isInterfaceLocalMulticast ip then false
    else if isPrivate ip then false
    else onTo4 isPublicV4 isPublicV6 ip

end VulosRelay.Server.DirectProbe
