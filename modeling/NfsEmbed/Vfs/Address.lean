import NfsEmbed.Lib.Numerals
import NfsEmbed.Vfs.Context

/-!
# How addresses are printed (`Display` of `std::net::IpAddr`)

The server has the standard library print the addresses of its clients. An IPv4 address is four decimal
numbers. An IPv6 address is eight hexadecimal ones, in which the first longest run of at least two zeros is
left out, or an IPv4 address behind `::ffff:` if it is mapped from one.
-/

namespace NfsEmbed.Vfs

open Lib

/-- The sixteen-bit words of an even number of octets. -/
def segmentsOf : Bytes → List UInt16
  | high :: low :: octets => UInt16.ofNat (high.toNat * 256 + low.toNat) :: segmentsOf octets
  | _ => []

namespace Ipv4Addr

def octets (ip : BitVec 32) : Bytes := beBytes 4 ip.toNat

/-- The four octets, with dots between them. -/
def fmt (octets : Bytes) : Bytes := [0x2e].intercalate (octets.map fun octet => numeral 10 octet.toNat)

end Ipv4Addr

namespace Ipv6Addr

def octets (ip : BitVec 128) : Bytes := beBytes 16 ip.toNat

def toIpv4Mapped (octets : Bytes) : Option Bytes :=
  if octets.take 12 = List.replicate 10 0 ++ [0xff, 0xff] then some (octets.drop 12) else none

structure Span where
  start : Nat
  len : Nat
deriving DecidableEq, Repr

/-- The body of the loop that finds the zeros: the longest run so far, and the one it is in. -/
def step (spans : Span × Span) (item : UInt16 × Nat) : Span × Span :=
  let (longest, current) := spans
  let (segment, i) := item
  if segment = 0 then
    let current := { start := if current.len = 0 then i else current.start, len := current.len + 1 }
    (if current.len > longest.len then current else longest, current)
  else (longest, ⟨0, 0⟩)

def zeroes (segments : List UInt16) : Span := (segments.zipIdx.foldl step (⟨0, 0⟩, ⟨0, 0⟩)).1

/-- Segments with colons between them. -/
def fmtSubslice (chunk : List UInt16) : Bytes := [0x3a].intercalate (chunk.map fun segment => numeral 16 segment.toNat)

def fmt (octets : Bytes) : Bytes :=
  match toIpv4Mapped octets with
  -- `::ffff:`
  | some ipv4 => [0x3a, 0x3a, 0x66, 0x66, 0x66, 0x66, 0x3a] ++ Ipv4Addr.fmt ipv4
  | none =>
    let segments := segmentsOf octets
    let zeroes := zeroes segments
    if zeroes.len > 1 then
      fmtSubslice (segments.take zeroes.start) ++ ([0x3a, 0x3a] ++ fmtSubslice (segments.drop (zeroes.start + zeroes.len)))
    else fmtSubslice segments

end Ipv6Addr

/-- `IpAddr::to_string`. -/
def IpAddr.display : IpAddr → Bytes
  | v4 ip => Ipv4Addr.fmt (Ipv4Addr.octets ip)
  | v6 ip => Ipv6Addr.fmt (Ipv6Addr.octets ip)

end NfsEmbed.Vfs
