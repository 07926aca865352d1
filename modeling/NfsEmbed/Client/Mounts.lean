import NfsEmbed.Client.Results
import NfsEmbed.Mount3.Types
import NfsEmbed.Vfs.Address

/-!
# What a client reads of the MOUNT lists

Parsers for the results of `DUMP` and `EXPORT` of RFC 1813, which are linked lists. The hosts of a `DUMP` are
texts, which a client reads as addresses again to get the mount table.
-/

namespace NfsEmbed.Client

open Lib Mount3 Vfs

def nextMount : XdrParser (Option MountEntry) :=
  optional do
    let host ← payload
    let path ← payload
    return { host, path }

def dump : XdrParser DumpResult := do
  return { mounts := ← Parser.chainAll nextMount }

def nextExport : XdrParser (Option ExportEntry) :=
  optional do
    let path ← payload
    let groups ← Parser.chainAll (optional payload)
    return { path, groups }

def exports : XdrParser ExportResult := do
  return { exports := ← Parser.chainAll nextExport }

/-! ## Addresses -/

/-- The octets of the decimal numbers between dots. -/
def octets (numbers : List Bytes) : Bytes := numbers.map fun number => UInt8.ofNat (readNumeral 10 number)

/-- The octets of what stands between two colons: a hexadecimal number has two, an IPv4 address four. -/
def partOctets (part : Bytes) : Bytes :=
  let numbers := part.splitOn 0x2e
  if numbers.length = 1 then beBytes 2 (readNumeral 16 part) else octets numbers

/-- The parts of an IPv6 address. Zeros fill the place of the empty part, up to sixteen octets. -/
def partsOctets (parts : List Bytes) : Bytes :=
  let before := (parts.takeWhile (· ≠ [])).flatMap partOctets
  let behind := ((parts.dropWhile (· ≠ [])).filter (· ≠ [])).flatMap partOctets
  before ++ (List.replicate (16 - (before.length + behind.length)) 0 ++ behind)

/-- The address a text stands for: without a colon it is an IPv4 address. -/
def address (text : Bytes) : IpAddr :=
  let parts := text.splitOn 0x3a
  if parts.length = 1 then .v4 (BitVec.ofNat 32 (beNat (octets (text.splitOn 0x2e))))
  else .v6 (BitVec.ofNat 128 (beNat (partsOctets parts)))

/-- The mount table that a `DUMP` lists. -/
def mountTable (result : DumpResult) : List (IpAddr × Bytes) :=
  result.mounts.map fun mount => (address mount.host, mount.path)

end NfsEmbed.Client
