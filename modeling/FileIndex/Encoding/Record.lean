import FileIndex.Error

/-!
# Records of fixed layout

* `PathEntry`: where an id hangs in the tree of paths. Stored are the id above it and the length
  of its name, eight bytes each with the least significant first, and then the name.
* `TimeInfo`: when a file was modified and when its status changed, eight bytes each.
* `DocId.toKey`, `DocId.ofKey`: an id as a key, eight bytes with the most significant first, so
  that the order of keys is the order of ids.

Reading ignores bytes after the record.
-/

namespace FileIndex

/-- Where an id hangs in the tree of paths; the id 0 stands for the root. -/
structure PathEntry where
  parent : DocId
  name : Bytes
  deriving DecidableEq, Repr, Inhabited

/-- The modification and status-change times of a file, in seconds since 1970. -/
structure TimeInfo where
  modified : UInt64
  changed : UInt64
  deriving DecidableEq, Repr, Inhabited

/-- Reads a number of eight bytes, least significant first. -/
def readWord (bs : Bytes) : Except Malformed (UInt64 × Bytes) :=
  if bs.length < 8 then .error .recordCutOff
  else .ok (UInt64.ofNat (Bytes.ofLittleEndian (bs.take 8)), bs.drop 8)

/-- The stored form of a path entry. -/
def PathEntry.encode (e : PathEntry) : Bytes :=
  Bytes.littleEndian 8 e.parent.toNat ++ Bytes.littleEndian 8 e.name.length ++ e.name

/-- Reads a path entry. -/
def PathEntry.decode (bs : Bytes) : Except Malformed PathEntry := do
  let (parent, bs) ← readWord bs
  let (size, bs) ← readWord bs
  if bs.length < size.toNat then throw .recordCutOff
  return ⟨parent, bs.take size.toNat⟩

/-- The stored form of a pair of times. -/
def TimeInfo.encode (t : TimeInfo) : Bytes :=
  Bytes.littleEndian 8 t.modified.toNat ++ Bytes.littleEndian 8 t.changed.toNat

/-- Reads a pair of times. -/
def TimeInfo.decode (bs : Bytes) : Except Malformed TimeInfo := do
  let (modified, bs) ← readWord bs
  let (changed, _) ← readWord bs
  return ⟨modified, changed⟩

/-- The last second of the calendar, at the end of the year 262142. -/
def lastCalendarSecond : UInt64 := 8210266876799

/-- A time as far as the calendar goes. -/
def calendarSecond? (seconds : UInt64) : Option UInt64 :=
  if seconds ≤ lastCalendarSecond then some seconds else none

/-- The key of an id. -/
def DocId.toKey (id : DocId) : Bytes := Bytes.bigEndian 8 id.toNat

/-- The id of a key; bytes after the eighth do not matter. -/
def DocId.ofKey (key : Bytes) : Except Error DocId :=
  if key.length < 8 then .error (.storage .shortKey)
  else .ok (UInt64.ofNat (Bytes.ofBigEndian (key.take 8)))

end FileIndex
