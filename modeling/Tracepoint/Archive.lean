import Tracepoint.Text.Bytes

/-!
# Archives

The names of the entries of a ZIP archive, as its central directory lists them.
The archive may follow other data and may end in a comment. The records of the
format are read by their fixed layout: little-endian numbers at fixed offsets,
then texts whose lengths those numbers give.
-/

namespace Tracepoint.Archive

open Text

/-- The little-endian number of `width` bytes at an offset. -/
def number (bytes : ByteArray) (offset width : Nat) : Nat :=
  let digits := (List.range width).map fun i => (bytes.data[offset + i]?.getD 0).toNat
  digits.foldr (fun d acc => d + 256 * acc) 0

/-- The signatures of the records. -/
def localSignature : Nat := 0x04034b50

def entrySignature : Nat := 0x02014b50

def endSignature : Nat := 0x06054b50

/-- Whether a record of `size` bytes with a signature lies at an offset. -/
def hasRecord (bytes : ByteArray) (signature size offset : Nat) : Bool :=
  offset + size ≤ bytes.size && number bytes offset 4 == signature

/-! ## The end record -/

/-- What the end record says: how many entries there are and where their directory lies. -/
structure EndRecord where
  offset : Nat
  entries : Nat
  directorySize : Nat
  directoryOffset : Nat
deriving Repr, Inhabited

/-- The end record at an offset. -/
def endRecordAt? (bytes : ByteArray) (offset : Nat) : Option EndRecord :=
  if hasRecord bytes endSignature 22 offset &&
      offset + 22 + number bytes (offset + 20) 2 ≤ bytes.size then
    some ⟨offset, number bytes (offset + 10) 2, number bytes (offset + 12) 4,
      number bytes (offset + 16) 4⟩
  else none

/-- The last end record that starts before `offset`. -/
def lastEndRecord? (bytes : ByteArray) : Nat → Option EndRecord
  | 0 => none
  | offset + 1 => (endRecordAt? bytes offset).orElse fun _ => lastEndRecord? bytes offset

/-- How much other data lies before the archive. -/
def EndRecord.shift (e : EndRecord) (bytes : ByteArray) : Nat :=
  let shift := e.offset - e.directorySize - e.directoryOffset
  if e.entries = 0 || hasRecord bytes entrySignature 46 (e.directoryOffset + shift) then shift
  else 0

/-! ## Entries -/

/-- The bytes between two offsets. -/
def bytesAt (bytes : ByteArray) (start length : Nat) : List UInt8 :=
  (bytes.extract start (start + length)).toList

/-- The name in the directory entry at an offset. -/
def entryName (bytes : ByteArray) (offset : Nat) : String :=
  let name := bytesAt bytes (offset + 46) (number bytes (offset + 28) 2)
  let isUtf8 := (number bytes (offset + 8) 2).testBit 11
  String.ofList (if isUtf8 then decodeLossy name else decode437 name)

/-- The size of the directory entry at an offset. -/
def entrySize (bytes : ByteArray) (offset : Nat) : Nat :=
  46 + number bytes (offset + 28) 2 + number bytes (offset + 30) 2 + number bytes (offset + 32) 2

/-- Whether the content of an entry starts with a header of its own before the directory. -/
def hasContent (bytes : ByteArray) (shift directory offset : Nat) : Bool :=
  let start := number bytes (offset + 42) 4 + shift
  let header := 30 + number bytes (start + 26) 2 + number bytes (start + 28) 2
  start < directory && hasRecord bytes localSignature 30 start && start + header ≤ directory

/-- The names of `count` directory entries from an offset on. -/
def entryNames? (bytes : ByteArray) (shift directory : Nat) : Nat → Nat → Option (List String)
  | 0, _ => some []
  | count + 1, offset =>
    if hasRecord bytes entrySignature 46 offset && offset + entrySize bytes offset ≤ bytes.size &&
        hasContent bytes shift directory offset then
      (entryNames? bytes shift directory count (offset + entrySize bytes offset)).map
        (entryName bytes offset :: ·)
    else none

/-- The names of the entries of an archive; none if the bytes are no archive. -/
def names? (bytes : ByteArray) : Option (List String) := do
  let e ← lastEndRecord? bytes bytes.size
  let shift := e.shift bytes
  let directory := e.directoryOffset + shift
  entryNames? bytes shift directory e.entries directory

end Tracepoint.Archive
