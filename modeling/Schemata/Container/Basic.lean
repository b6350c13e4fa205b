import Schemata.Error
import Schemata.Snapshot.Exchange

/-!
# Containers

How a snapshot is kept in a file.
-/

/-!
## The CRC-32 checksum

The remainder of the bits of a message, the low bit of each byte first, modulo the polynomial of
IEEE 802.3.
-/

namespace Schemata.Crc32

/-- The coefficients of the polynomial below the leading one, that of the greatest power in the low
bit. -/
def polynomial : UInt32 := 0xEDB88320

/-- Takes one bit out of the register. -/
def shift (r : UInt32) : UInt32 :=
  if r &&& 1 = 0 then r >>> 1 else (r >>> 1) ^^^ polynomial

/-- Takes one byte into the register. -/
def absorb (r : UInt32) (b : UInt8) : UInt32 :=
  shift (shift (shift (shift (shift (shift (shift (shift (r ^^^ b.toUInt32))))))))

/-- The register starts with all bits set, and its complement is the checksum. -/
def checksum (bytes : List UInt8) : UInt32 := bytes.foldl absorb 0xFFFFFFFF ^^^ 0xFFFFFFFF

end Schemata.Crc32

/-!
## Snapshot files

A snapshot file is a header of sixteen bytes and a body, the snapshot as JSON without blanks. The
header holds the mark `NEXS`, the version of the format, the checksum of the body and the length of
the body, numbers with their least significant byte first.
-/

namespace Schemata.Container

def mark : List UInt8 := [78, 69, 88, 83]

def formatVersion : UInt32 := 1

structure Header where
  magic : List UInt8
  version : UInt32
  checksum : UInt32
  bodyLength : UInt32
deriving DecidableEq, Repr

def wordBytes (w : UInt32) : List UInt8 := Bytes.littleEndian 4 w.toNat

def word (bytes : List UInt8) : UInt32 := UInt32.ofNat (Bytes.toNat bytes)

namespace Header

def ofBytes (bytes : List UInt8) : Header where
  magic := bytes.take 4
  version := word ((bytes.drop 4).take 4)
  checksum := word ((bytes.drop 8).take 4)
  bodyLength := word ((bytes.drop 12).take 4)

def toBytes (h : Header) : List UInt8 :=
  h.magic ++ wordBytes h.version ++ wordBytes h.checksum ++ wordBytes h.bodyLength

/-- The header of a body, unless its length does not fit the header. -/
def ofBody? (body : List UInt8) : Option Header :=
  if body.length < UInt32.size then
    some ⟨mark, formatVersion, Crc32.checksum body, UInt32.ofNat body.length⟩
  else none

end Header

def encode (s : Snapshot) : Except Error (List UInt8) :=
  let body := Bytes.ofString s.text
  match Header.ofBody? body with
  | some h => .ok (h.toBytes ++ body)
  | none => .error (.invalidContainer (.bodyTooLarge body.length))

/-- What is wrong with a header in front of a body. -/
def fault? (h : Header) (body : List UInt8) : Option ContainerFault :=
  if h.magic ≠ mark then some (.badMagic h.magic)
  else if h.version ≠ formatVersion then some (.badVersion h.version)
  else if body.length ≠ h.bodyLength.toNat then some (.badLength h.bodyLength body.length)
  else if Crc32.checksum body ≠ h.checksum then some (.badChecksum h.checksum (Crc32.checksum body))
  else none

/-- The snapshot in the bytes of a snapshot file. -/
def decode (bytes : List UInt8) : Except Error Snapshot :=
  if bytes.length < 16 then .error (.invalidContainer (.tooShort bytes.length))
  else
    let body := bytes.drop 16
    match fault? (Header.ofBytes bytes) body with
    | some fault => .error (.invalidContainer fault)
    | none =>
      match (Json.parseSymbols? (Bytes.symbols body)).bind Snapshot.read with
      | some s => .ok s
      | none => .error .json

/-- The snapshot in a file, given the bytes of the file if there is one. -/
def load (contents : Option (List UInt8)) : Except Error Snapshot :=
  match contents with
  | some bytes => decode bytes
  | none => .error .unreadable

end Schemata.Container
