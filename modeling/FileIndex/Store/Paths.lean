import FileIndex.Ascending
import FileIndex.Encoding.IdList
import FileIndex.Path
import FileIndex.Store.Basic

/-!
# The tree of paths

Two tables say how ids hang together: the entry of an id gives its name and the id above it, and
the children of an id are the ids directly below it. The root has the id 0.

* `Store.pathOf`: the path of an id.
* `Store.idAt`: the id at a path.
* `Store.locate`, `Store.attach`: where a path is to hang, and hanging it there together with the
  folders above it that are missing.
* `Store.rename`, `Store.detach`, `Store.unlink`: changing a name, taking an id out of the
  children of the id above it, and removing it; folders that become empty go too if asked.
* `Store.subtree`: an id with everything below it.
-/

namespace FileIndex

/-- Finds the id of the folder at a path, 0 if there is none. -/
abbrev Resolver := Bytes → DocId

/-- The greatest number of levels that are followed up or down. -/
def maxDepth : Nat := 512

/-- Where a path is to hang: the folders above it that are missing, nearest first, and the id that
the topmost of them hangs from. -/
structure Placement where
  id : DocId
  name : Bytes
  anchor : DocId
  missing : List (DocId × Bytes)
  deriving DecidableEq, Repr

/-- The id directly above a placed path. -/
def Placement.parent (p : Placement) : DocId := (p.missing.head?.map (·.1)).getD p.anchor

namespace Store

/-! ## Looking -/

/-- The entry of an id. -/
def pathEntryOf? (s : Store) (id : DocId) : Except Error (Option PathEntry) :=
  if id = 0 then .ok none
  else match s.pathEntries.find? (DocId.toKey id) with
    | none => .ok none
    | some value => do return some (← Malformed.orFail (PathEntry.decode value))

/-- Whether an id has an entry. -/
def hasPath (s : Store) (id : DocId) : Bool :=
  id != 0 && s.pathEntries.contains (DocId.toKey id)

/-- The ids directly below an id, ascending. -/
def childrenOf (s : Store) (id : DocId) : Except Error (List DocId) :=
  match s.children.find? (DocId.toKey id) with
  | none => .ok []
  | some value => Malformed.orFail (IdList.decode value)

/-- The names from an id up to the root, if there are at most `levels` of them. -/
def namesUp (s : Store) : (levels : Nat) → DocId → Except Error (Option (List Bytes))
  | 0, id => .ok (if id = 0 then some [] else none)
  | levels + 1, id =>
    if id = 0 then .ok (some [])
    else do
      match ← s.pathEntryOf? id with
      | none => return none
      | some e => return (← s.namesUp levels e.parent).map (e.name :: ·)

/-- The path of an id, empty if its entries do not lead to the root. -/
def pathOf (s : Store) (id : DocId) : Except Error Bytes := do
  return Path.render ((← s.namesUp (maxDepth + 1) id).getD [])

/-- The first of the given ids whose entry has the name, 0 if there is none. -/
def firstNamed (s : Store) (name : Bytes) : List DocId → Except Error DocId
  | [] => .ok 0
  | id :: ids => do
    match ← s.pathEntryOf? id with
    | some e => if e.name = name then return id else s.firstNamed name ids
    | none => s.firstNamed name ids

/-- The id directly below `parent` with the name, 0 if there is none. -/
def childNamed (s : Store) (parent : DocId) (name : Bytes) : Except Error DocId :=
  if name.isEmpty then .ok 0 else do s.firstNamed name (← s.childrenOf parent)

/-- Follows names downwards from an id, to 0 if one of them is missing. -/
def descend (s : Store) (id : DocId) : List Bytes → Except Error DocId
  | [] => .ok id
  | name :: names => do
    let child ← s.childNamed id name
    if child = 0 then return 0 else s.descend child names

/-- The id at a path, 0 if there is none. -/
def idAt (s : Store) (url : Bytes) : Except Error DocId :=
  match url with
  | b :: rest => if b = Path.slash then s.descend 0 (Path.split rest) else .ok 0
  | [] => .ok 0

/-- The path of every id with an entry, ascending by id. -/
def pathMap (s : Store) : Except Error (List (DocId × Bytes)) := do
  (← s.pathEntries.byId .ok).mapM fun e => return (e.1, ← s.pathOf e.1)

/-! ## Hanging a path -/

/-- The folders of a path, given from the leaf upwards, that have no entry, up to the first one
that has, and the id of that one; nothing if a folder has no id. No more than `room` folders may be
missing. -/
def missingFolders (s : Store) (resolver : Resolver) :
    (room : Nat) → List Bytes → Except Error (Option (DocId × List (DocId × Bytes)))
  | _, [] => .ok (some (0, []))
  | room, name :: above =>
    let id := resolver (Path.render (name :: above))
    if id = 0 then .ok none
    else if s.hasPath id then .ok (some (id, []))
    else match room with
      | 0 => .error .tooDeep
      | room + 1 => do
        return (← s.missingFolders resolver room above).map fun r => (r.1, (id, name) :: r.2)

/-- Where a path of a document is to hang; nothing if a folder above it has no id. -/
def locate (s : Store) (resolver : Resolver) (id : DocId) (url : Bytes) :
    Except Error (Option Placement) := do
  if id = 0 then throw .zeroId
  match ← Path.parse url with
  | [] => return none
  | name :: above =>
    if above ≠ [] ∧ resolver (Path.render above) = id then throw .ownParent
    return (← s.missingFolders resolver maxDepth above).map fun r => ⟨id, name, r.1, r.2⟩

/-- Replaces the ids below an id; an empty list is not stored. -/
def setChildren (s : Store) (parent : DocId) (ids : List DocId) : Store :=
  if ids.isEmpty then { s with children := s.children.erase (DocId.toKey parent) }
  else { s with children := s.children.insert (DocId.toKey parent) (IdList.encode ids) }

/-- Replaces the entry of an id. -/
def setPathEntry (s : Store) (id : DocId) (e : PathEntry) : Store :=
  { s with pathEntries := s.pathEntries.insert (DocId.toKey id) e.encode }

/-- Removes the entry of an id. -/
def erasePathEntry (s : Store) (id : DocId) : Store :=
  { s with pathEntries := s.pathEntries.erase (DocId.toKey id) }

/-- Hangs an id directly below another one. -/
def hang (id parent : DocId) (name : Bytes) : Edit Unit := do
  let siblings ← Edit.read (·.childrenOf parent)
  modify (·.setChildren parent (Ascending.insert id siblings))
  modify (·.setPathEntry id ⟨parent, name⟩)

/-- Hangs missing folders, topmost first, and answers the id of the lowest. -/
def hangFolders (anchor : DocId) : List (DocId × Bytes) → Edit DocId
  | [] => return anchor
  | (id, name) :: above => do
    let parent ← hangFolders anchor above
    hang id parent name
    return id

/-- Hangs a path where it was found to belong. -/
def attach (p : Placement) : Edit Unit := do
  let parent ← hangFolders p.anchor p.missing
  hang p.id parent p.name

/-- Hangs the path of a document; tells whether all folders above it have ids. -/
def putPath (resolver : Resolver) (id : DocId) (url : Bytes) : Edit Bool := do
  match ← Edit.read (·.locate resolver id url) with
  | none => return false
  | some p =>
    attach p
    return true

/-! ## Taking a path away -/

/-- Changes the name of an id. -/
def rename (id : DocId) (name : Bytes) : Edit Unit := do
  if name.isEmpty || name.contains Path.slash then throw .invalidName
  match ← Edit.read (·.pathEntryOf? id) with
  | none => throw .noPathEntry
  | some e => modify (·.setPathEntry id { e with name })

/-- Takes `current` out of the children of the id above it, and goes on with that one if it is left
without children and `prune` agrees. Every id after the first loses its entry as well. -/
def detachUp (prune : DocId → Bool) (id : DocId) : (levels : Nat) → (current : DocId) → Edit Unit
  | 0, _ => return
  | levels + 1, current => do
    match ← Edit.read (·.pathEntryOf? current) with
    | none => return
    | some e =>
      let siblings := (← Edit.read (·.childrenOf e.parent)).erase current
      modify (·.setChildren e.parent siblings)
      if current ≠ id then modify (·.erasePathEntry current)
      if siblings.isEmpty ∧ e.parent ≠ 0 ∧ prune e.parent then
        detachUp prune id levels e.parent

/-- Takes an id out of the children of the id above it; its entry stays. Folders above it that are
left without children are removed as long as `prune` agrees. -/
def detach (prune : DocId → Bool) (id : DocId) : Edit Unit := detachUp prune id maxDepth id

/-- Removes an id without children, and then the folders above it that are left without children as
long as `prune` agrees; tells whether the id was removed. -/
def unlink (prune : DocId → Bool) (id : DocId) : Edit Bool := do
  if !(← get).hasPath id then return false
  if !(← Edit.read (·.childrenOf id)).isEmpty then return false
  detach prune id
  modify (·.erasePathEntry id)
  return true

/-! ## Going down -/

/-- Visits the ids of `stack`, each with its level, and those below them; `seen` are the ids that
were put on the stack so far. No id is visited twice and none below `maxDepth` levels. -/
def visit (s : Store) : (bound : Nat) → (seen : List DocId) → (stack : List (DocId × Nat)) →
    Except Error (List DocId)
  | 0, _, _ => .ok []
  | _, _, [] => .ok []
  | bound + 1, seen, (id, level) :: stack =>
    if maxDepth ≤ level then do return id :: (← s.visit bound seen stack)
    else do
      let fresh := (← s.childrenOf id).filter fun child => child ≠ 0 ∧ child ∉ seen
      let stack := (fresh.reverse.map fun child => (child, level + 1)) ++ stack
      return id :: (← s.visit bound (seen ++ fresh) stack)

/-- The number of bytes in the lists of children. Each id in them takes a byte at least. -/
def childBytes (s : Store) : Nat := s.children.entries.foldr (fun e n => e.2.length + n) 0

/-- An id and everything below it, in the order of a walk from the top. -/
def subtree (s : Store) (id : DocId) : Except Error (List DocId) :=
  s.visit (s.childBytes + 1) [id] [(id, 0)]

/-- An id and everything below it, ascending. -/
def subtreeIds (s : Store) (id : DocId) : Except Error (List DocId) :=
  if id = 0 then .ok [] else do return Ascending.ofList (← s.subtree id)

end Store
end FileIndex
