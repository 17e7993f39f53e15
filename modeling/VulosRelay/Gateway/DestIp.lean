import VulosRelay.Lib.IpBlock

/-!
# The address screen of outbound mail

The model of `is_forbidden_dest_ip` (`crates/gateway/src/outbound_tcp.rs`), over the
predicates of `std::net`, which are written out. The segments of an IPv6 address are
numbers of 16 bits.
-/

namespace VulosRelay.Gateway

open Ip

def segment (a : Addr 16) (i : Fin 8) : Nat :=
  (a ⟨2 * i, by omega⟩).toNat * 256 + (a ⟨2 * i + 1, by omega⟩).toNat

def toIpv4Mapped (a : Addr 16) : Option (Addr 4) :=
  if segment a 0 = 0 ∧ segment a 1 = 0 ∧ segment a 2 = 0 ∧ segment a 3 = 0 ∧ segment a 4 = 0
      ∧ segment a 5 = 0xffff then
    some ![a 12, a 13, a 14, a 15]
  else none

def isForbiddenV4 (a : Addr 4) : Bool :=
  a 0 == 127
    || (a 0 == 10 || (a 0 == 172 && a 1 ≥ 16 && a 1 ≤ 31) || (a 0 == 192 && a 1 == 168))
    || (a 0 == 169 && a 1 == 254)
    || a == ![0, 0, 0, 0]
    || a == ![255, 255, 255, 255]
    || a 0 == 0

def isForbiddenV6 (a : Addr 16) : Bool :=
  a == loopback6.base
    || a == unspecified6.base
    || segment a 0 &&& 0xffc0 == 0xfe80
    || segment a 0 &&& 0xfe00 == 0xfc00

def isForbiddenDestIp : IP → Bool
  | .v4 a => isForbiddenV4 a
  | .v6 a =>
    match toIpv4Mapped a with
    | some v4 => isForbiddenV4 v4
    | none => isForbiddenV6 a

end VulosRelay.Gateway
