import FileIndex.Store.Basic

/-!
# Opening an index

* `Config`: how an index is opened.
* `Layout`: where its files are.
* `Site`: what is found at that place, and `Site.openIndex` to open or create the index there.
-/

namespace FileIndex

/-- How an index is opened. -/
structure Config where
  /-- The directory of the index. -/
  path : String := "./data"
  /-- Whether the index may only be read. -/
  readOnly : Bool := false
  /-- The number of bytes of address space for the file. -/
  mapSize : Nat := 1048576000
  /-- The number of tables that the file may hold. -/
  maxTables : Nat := 16
  /-- The number of reading transactions at a time. -/
  maxReaders : Nat := 126
  deriving DecidableEq, Repr

/-- A path below a directory. -/
def joinPath (directory name : String) : String :=
  if directory.isEmpty || directory.endsWith "/" then directory ++ name
  else directory ++ "/" ++ name

/-- The places of the files of an index. -/
structure Layout where
  base : String
  deriving DecidableEq, Repr

/-- The directory with the table file. -/
def Layout.index (l : Layout) : String := joinPath l.base "index"

/-- The table file. -/
def Layout.data (l : Layout) : String := joinPath l.index "data.mdb"

/-- What is found in place of the table file. -/
inductive TableFile
  /-- There is no file. -/
  | absent
  /-- There is a file of another kind. -/
  | foreign
  /-- There is a file with these tables. -/
  | holding (tables : List TableName)
  deriving DecidableEq, Repr

/-- The place of an index. -/
structure Site where
  /-- The directory of the index cannot be made, as it would lie below a plain file. -/
  occupied : Bool := false
  file : TableFile := .absent
  deriving DecidableEq, Repr

namespace Site

/-- Whether there is a file in place of the table file. -/
def exists? (site : Site) : Bool := site.file != .absent

/-- The place with a file put there, which is impossible below a plain file. -/
def place (site : Site) (file : TableFile) : Except Error Site :=
  if site.occupied then .error .notADirectory else .ok { site with file }

/-- The tables of the file; an absent file is made. -/
def openFile (site : Site) : Except Error (List TableName) :=
  match site.file with
  | .absent => .ok []
  | .foreign => .error (.storage .foreignFile)
  | .holding tables => .ok tables

/-- Opens the tables one after the other; those that are missing are made, or refused if nothing
may be written. -/
def openTables (config : Config) (present : List TableName) :
    (opened : Nat) → List TableName → Except Error Unit
  | _, [] => .ok ()
  | opened, name :: names =>
    if config.maxTables ≤ opened then .error (.storage .tooManyTables)
    else if config.readOnly ∧ name ∉ present then .error (.noTable name.label)
    else openTables config present (opened + 1) names

/-- Opens the index at a place, and answers what is at the place afterwards. -/
def openIndex (config : Config) (site : Site) : Except Error Unit × Site :=
  if config.readOnly ∧ !site.exists? then (.error (.noIndex config.path), site)
  else if site.occupied then (.error .notADirectory, site)
  else match site.openFile with
    | .error e => (.error e, site)
    | .ok present =>
      match openTables config present 0 TableName.all with
      | .error e => (.error e, { site with file := .holding present })
      | .ok () =>
        let tables := if config.readOnly then present else TableName.all
        (.ok (), { site with file := .holding tables })

end Site
end FileIndex
