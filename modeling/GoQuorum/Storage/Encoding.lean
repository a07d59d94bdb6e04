import GoQuorum.VClock.Binary

/-!
# The record format

`encodeSiblingSet` and `decodeSiblingSet` of `internal/storage/encoding.go`.  A record is a
two-byte sibling count, the siblings, and the CRC-32 of all of that.  A sibling is its clock behind
a four-byte length, a flag byte, the write time, the expiry time if the flag says so, and its value
behind a four-byte length.

The clock is read with `bytes.Reader.Read`, which accepts a short read; the fixed-width fields are
read with `binary.Read`, which does not.
-/

namespace GoQuorum

open Lib

/-- One version of a key.  `expiresAt = 0` means that the version does not expire. -/
structure Sibling where
  value : Bytes
  vclock : VectorClock
  timestamp : Int64
  tombstone : Bool
  expiresAt : Int64
  deriving DecidableEq

/-- `SiblingSet`.  The code treats a nil set like an empty one, so both are the empty list. -/
abbrev SiblingSet := List Sibling

def flagTombstone : UInt8 := 1
def flagTTL : UInt8 := 4
def maxKeySize : ℕ := 65536
def maxValueSize : ℕ := 1048576
/-- The constant `MaxSiblings` of the format; the option of that name is a separate limit. -/
def maxSiblingCount : ℕ := 65535
def maxVClockLen : ℕ := 10000

/-! ## Checksum -/

/-- One bit of the reflected CRC-32. -/
def crcBit (c : UInt32) : UInt32 :=
  if c &&& 1 = 1 then (c >>> 1) ^^^ 0xEDB88320 else c >>> 1

def crcByte (c : UInt32) (b : UInt8) : UInt32 := crcBit^[8] (c ^^^ b.toUInt32)

/-- `crc32.ChecksumIEEE`. -/
def checksumIEEE (bs : Bytes) : UInt32 := bs.foldl crcByte 0xFFFFFFFF ^^^ 0xFFFFFFFF

-- The check value of CRC-32, the checksum of the digits 1 to 9.
example : checksumIEEE [49, 50, 51, 52, 53, 54, 55, 56, 57] = 0xCBF43926 := by decide +kernel

/-! ## Writing -/

/-- What `encodeSiblingSet` rejects; `i` is the position of the sibling. -/
inductive EncodeError where
  | emptySiblingSet
  | tooManySiblings (count : ℕ)
  | valueTooLarge (i length : ℕ)
  | marshalVClock (err : MarshalError)
  deriving DecidableEq, Repr

/-- The flag byte of a sibling. -/
def siblingFlags (sib : Sibling) : UInt8 :=
  (if sib.tombstone then flagTombstone else 0) ||| (if sib.expiresAt ≠ 0 then flagTTL else 0)

/-- The fields after the clock. -/
def siblingTail (sib : Sibling) : Bytes :=
  [siblingFlags sib] ++ int64Bytes sib.timestamp ++
    (if sib.expiresAt ≠ 0 then int64Bytes sib.expiresAt else []) ++
    leBytes 4 sib.value.length ++ sib.value

/-- One round of the loop of `encodeSiblingSet`.  The length of the clock is written as
`uint32(len(vclockBytes))`. -/
def encodeSibling (i : ℕ) (sib : Sibling) : Except EncodeError Bytes :=
  if sib.value.length > maxValueSize then .error (.valueTooLarge i sib.value.length)
  else do
    let vclockBytes ← sib.vclock.marshalBinary.mapError .marshalVClock
    return leBytes 4 vclockBytes.length ++ vclockBytes ++ siblingTail sib

/-- The loop of `encodeSiblingSet`. -/
def encodeSiblings : ℕ → List Sibling → Except EncodeError Bytes
  | _, [] => .ok []
  | i, sib :: sibs => do
    let b ← encodeSibling i sib
    let bs ← encodeSiblings (i + 1) sibs
    return b ++ bs

/-- A payload with its checksum. -/
def sealed (payload : Bytes) : Bytes := payload ++ leBytes 4 (checksumIEEE payload).toNat

/-- `encodeSiblingSet`. -/
def encodeSiblingSet (set : SiblingSet) : Except EncodeError Bytes :=
  if set = [] then .error .emptySiblingSet
  else if set.length > maxSiblingCount then .error (.tooManySiblings set.length)
  else do
    let bs ← encodeSiblings 0 set
    return sealed (leBytes 2 set.length ++ bs)

/-! ## Reading -/

/-- What `decodeSiblingSet` rejects; `i` is the position of the sibling. -/
inductive DecodeError where
  | corruptedData
  | crcMismatch (stored calculated : ℕ)
  | readSiblingCount (err : ReadError)
  | zeroSiblingCount
  | invalidSiblingCount (count : ℕ)
  | readVClockLen (i : ℕ) (err : ReadError)
  | invalidVClockLength (length : ℕ)
  | readVClock (i : ℕ) (err : ReadError)
  | unmarshalVClock (i : ℕ) (err : UnmarshalError)
  | readFlags (i : ℕ) (err : ReadError)
  | readTimestamp (i : ℕ) (err : ReadError)
  | readExpiresAt (i : ℕ) (err : ReadError)
  | readValueLen (i : ℕ) (err : ReadError)
  | valueTooLarge (length : ℕ)
  | readValue (i : ℕ) (err : ReadError)
  deriving DecidableEq, Repr

/-- The clock of the sibling at position `i`. -/
def decodeVClock (i : ℕ) (buf : Bytes) : Except DecodeError (VectorClock × Bytes) := do
  let (vclockLen, buf) ← (readLE 4 buf).mapError (.readVClockLen i)
  if vclockLen = 0 ∨ vclockLen > maxVClockLen then .error (.invalidVClockLength vclockLen)
  else
    let (vclockBytes, buf) ← (readSome vclockLen buf).mapError (.readVClock i)
    let vclock ← (VectorClock.unmarshalBinary vclockBytes).mapError (.unmarshalVClock i)
    return (vclock, buf)

/-- `ReadByte`. -/
def readByte (buf : Bytes) : Except ReadError (UInt8 × Bytes) :=
  match buf with
  | [] => .error .eof
  | b :: buf => .ok (b, buf)

/-- The expiry time, present only when the flag is set. -/
def decodeExpiresAt (i : ℕ) (flags : UInt8) (buf : Bytes) : Except DecodeError (Int64 × Bytes) :=
  if flags &&& flagTTL ≠ 0 then do
    let (t, buf) ← (readLE 8 buf).mapError (.readExpiresAt i)
    return (int64OfNat t, buf)
  else .ok (0, buf)

/-- The value bytes; an empty value is not read at all. -/
def decodeValue (i valueLen : ℕ) (buf : Bytes) : Except DecodeError (Bytes × Bytes) :=
  if valueLen > 0 then (readSome valueLen buf).mapError (.readValue i)
  else .ok ([], buf)

/-- One round of the loop of `decodeSiblingSet`. -/
def decodeSibling (i : ℕ) (buf : Bytes) : Except DecodeError (Sibling × Bytes) := do
  let (vclock, buf) ← decodeVClock i buf
  let (flags, buf) ← (readByte buf).mapError (.readFlags i)
  let (timestamp, buf) ← (readLE 8 buf).mapError (.readTimestamp i)
  let (expiresAt, buf) ← decodeExpiresAt i flags buf
  let (valueLen, buf) ← (readLE 4 buf).mapError (.readValueLen i)
  if valueLen > maxValueSize then .error (.valueTooLarge valueLen)
  else
    let (value, buf) ← decodeValue i valueLen buf
    return (⟨value, vclock, int64OfNat timestamp, flags &&& flagTombstone ≠ 0, expiresAt⟩, buf)

/-- The loop of `decodeSiblingSet`: `n` more siblings from position `i`.  Input after the last
sibling is ignored. -/
def decodeSiblings : ℕ → ℕ → Bytes → Except DecodeError (List Sibling)
  | 0, _, _ => .ok []
  | n + 1, i, buf => do
    let (sib, buf) ← decodeSibling i buf
    let sibs ← decodeSiblings n (i + 1) buf
    return sib :: sibs

/-- The part of `decodeSiblingSet` after the checksum. -/
def decodePayload (payload : Bytes) : Except DecodeError SiblingSet := do
  let (siblingCount, buf) ← (readLE 2 payload).mapError .readSiblingCount
  if siblingCount = 0 then .error .zeroSiblingCount
  else if siblingCount > maxSiblingCount then .error (.invalidSiblingCount siblingCount)
  else decodeSiblings siblingCount 0 buf

/-- `decodeSiblingSet`. -/
def decodeSiblingSet (data : Bytes) : Except DecodeError SiblingSet :=
  if data.length < 6 then .error .corruptedData
  else
    let payload := data.take (data.length - 4)
    let storedCRC := leNat (data.drop (data.length - 4))
    let calculatedCRC := (checksumIEEE payload).toNat
    if storedCRC ≠ calculatedCRC then .error (.crcMismatch storedCRC calculatedCRC)
    else decodePayload payload

/-! ## Key and value limits -/

/-- What `ValidateKey` rejects. -/
inductive KeyError where
  | empty
  | tooLarge (length : ℕ)
  deriving DecidableEq, Repr

/-- `ValidateKey`. -/
def validateKey (key : Bytes) : Except KeyError Unit :=
  if key = [] then .error .empty
  else if key.length > maxKeySize then .error (.tooLarge key.length)
  else .ok ()

/-- `ValidateValue`: the error is the length of the value. -/
def validateValue (value : Bytes) : Except ℕ Unit :=
  if value.length > maxValueSize then .error value.length else .ok ()

end GoQuorum
