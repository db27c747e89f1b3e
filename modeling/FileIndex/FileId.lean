import FileIndex.Store.Paths

/-!
# Ids of files

An id is made of the number of a device, in the low half, and the number of a file on it, in the
high half.

* `FileId.pack`, `FileId.device`, `FileId.inode`: between an id and its halves.
* `Resolver.ofFiles`: the ids of folders as a file system tells them.
* `Resolver.listed`: a resolver that is given by a list of folders.
-/

namespace FileIndex

namespace FileId

/-- The id of a file. -/
def pack (device inode : UInt32) : DocId := inode.toUInt64 <<< 32 ||| device.toUInt64

/-- The device of an id. -/
def device (id : DocId) : UInt32 := id.toUInt32

/-- The number of the file on its device. -/
def inode (id : DocId) : UInt32 := (id >>> 32).toUInt32

end FileId

namespace Resolver

/-- No folder has an id. -/
def nowhere : Resolver := fun _ => 0

/-- The id is made of the device and the number that `stat` answers for a path, of which the low
halves count. A path for which there is no answer has none. -/
def ofFiles (stat : Bytes → Option (UInt64 × UInt64)) : Resolver := fun path =>
  match stat path with
  | some (device, inode) => FileId.pack device.toUInt32 inode.toUInt32
  | none => 0

/-- Folders in `known` have the ids given there, the first one for a path that is listed twice. No
other folder has an id. -/
def listed (known : List (Bytes × DocId)) : Resolver := fun path => (known.lookup path).getD 0

end Resolver
end FileIndex
