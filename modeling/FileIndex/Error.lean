import FileIndex.Text.Utf8

/-!
# Errors

* `Malformed`: why stored bytes cannot be read back.
* `Error`: every cause for which an operation of the index fails.
* `Error.kind`, `Error.message`: the class of a cause and its wording.
-/

namespace FileIndex

/-- Why a stored value cannot be read. -/
inductive Malformed
  /-- A numeral does not fit into 64 bits. -/
  | numeralTooLarge
  /-- The bytes end inside a numeral. -/
  | numeralCutOff
  /-- The bytes end inside a run of given length. -/
  | runCutOff
  /-- Two ids of an id list are equal. -/
  | repeatedId
  /-- An id of an id list does not fit into 64 bits. -/
  | idTooLarge
  /-- An id of an occurrence list does not fit into 64 bits. -/
  | entryIdTooLarge
  /-- The distance between two positions does not fit into 32 bits. -/
  | gapTooLarge
  /-- A position does not fit into 32 bits. -/
  | positionTooLarge
  /-- Bytes are left after the last entry of an occurrence list. -/
  | bytesLeft
  /-- A record of fixed layout is too short. -/
  | recordCutOff
  deriving DecidableEq, Repr

/-- The wording of a cause. -/
def Malformed.message : Malformed → String
  | numeralTooLarge => "VByte overflow"
  | numeralCutOff => "Incomplete VByte"
  | runCutOff => "Truncated byte run"
  | repeatedId => "Duplicate id in posting list"
  | idTooLarge => "Posting list id overflow"
  | entryIdTooLarge => "Position entry id overflow"
  | gapTooLarge => "Position gap overflow"
  | positionTooLarge => "Position overflow"
  | bytesLeft => "Trailing bytes after position list"
  | recordCutOff => "io error: unexpected end of file"

/-- A failure of the file that holds the tables. -/
inductive StorageFault
  /-- A key is empty or too long. -/
  | keySize
  /-- A key that should be an id has too few bytes. -/
  | shortKey
  /-- A member of a set of keys has a value. -/
  | memberValue
  /-- The file may not hold as many tables as are needed. -/
  | tooManyTables
  /-- The file is not a table file. -/
  | foreignFile
  deriving DecidableEq, Repr

/-- The wording of a storage fault. -/
def StorageFault.message : StorageFault → String
  | keySize => "MDB_BAD_VALSIZE: Unsupported size of key/DB name/data, or wrong DUPFIXED size"
  | shortKey => "error while decoding: failed to fill whole buffer"
  | memberValue =>
    "error while decoding: the slice of bytes is non-empty and therefore is not a unit `()` type"
  | tooManyTables => "MDB_DBS_FULL: Environment maxdbs limit reached"
  | foreignFile => "MDB_INVALID: File is not an LMDB file"

/-- Why an operation failed. -/
inductive Error
  /-- A stored value cannot be read. -/
  | malformed (cause : Malformed)
  /-- The table file failed. -/
  | storage (fault : StorageFault)
  /-- A directory of the path to the index is a plain file. -/
  | notADirectory
  /-- There is no index in the directory. -/
  | noIndex (directory : String)
  /-- A table is missing from the file. -/
  | noTable (name : String)
  /-- The folder above a path has no id. -/
  | unresolvedParent (url : Bytes)
  /-- The id 0 stands for no document. -/
  | zeroId
  /-- A path does not begin with a slash, or ends with one. -/
  | notAbsolute
  /-- Two slashes of a path are adjacent. -/
  | emptyComponent
  /-- The folder above a document is the document itself. -/
  | ownParent
  /-- Too many folders above a document are not yet stored. -/
  | tooDeep
  /-- A file name is empty or holds a slash. -/
  | invalidName
  /-- The empty term has no postings. -/
  | emptyPostingTerm
  /-- The empty term has no positions. -/
  | emptyPositionTerm
  /-- A composite query has no operands. -/
  | noOperands
  /-- A document is already stored. -/
  | documentExists (id : DocId)
  /-- An id without a path cannot be renamed. -/
  | noPathEntry
  /-- The index was opened for reading only. -/
  | readOnlyIndex
  /-- The transaction is for reading only. -/
  | readOnlyTransaction
  /-- A phrase is built from something other than exact terms. -/
  | phraseOperand
  /-- A phrase that is to be run holds something other than exact terms. -/
  | phraseNotOfTerms
  deriving DecidableEq, Repr

/-- The classes of errors. -/
inductive ErrorKind
  | io | parse | notFound | invalidArgument | invalidState | unsupportedQuery | storage
  deriving DecidableEq, Repr

/-- The name under which a class is reported. -/
def ErrorKind.name : ErrorKind → String
  | io => "Io"
  | parse => "Parse"
  | notFound => "NotFound"
  | invalidArgument => "InvalidArgument"
  | invalidState => "InvalidState"
  | unsupportedQuery => "UnsupportedQuery"
  | storage => "Storage"

namespace Error

/-- The class of a cause. -/
def kind : Error → ErrorKind
  | malformed _ => .parse
  | storage _ => .storage
  | notADirectory => .io
  | noIndex _ | noTable _ | unresolvedParent _ => .notFound
  | zeroId | notAbsolute | emptyComponent | ownParent | tooDeep | invalidName
  | emptyPostingTerm | emptyPositionTerm | noOperands => .invalidArgument
  | documentExists _ | noPathEntry | readOnlyIndex | readOnlyTransaction => .invalidState
  | phraseOperand | phraseNotOfTerms => .unsupportedQuery

/-- The wording of a cause. -/
def context : Error → String
  | malformed cause => cause.message
  | storage fault => "LMDB error: " ++ fault.message
  | notADirectory => "Not a directory (os error 20)"
  | noIndex directory => "No index at " ++ directory
  | noTable name => "sub-database '" ++ name ++ "' does not exist"
  | unresolvedParent url => "cannot resolve parent of " ++ Utf8.lossy url
  | zeroId => "Document id must be non-zero"
  | notAbsolute => "Path must be absolute without a trailing slash"
  | emptyComponent => "Path contains an empty component"
  | ownParent => "Document cannot be its own parent"
  | tooDeep => "Path exceeds depth limit"
  | invalidName => "Invalid file name"
  | emptyPostingTerm => "Posting term must not be empty"
  | emptyPositionTerm => "Position term must not be empty"
  | noOperands => "Composite query needs at least one subquery"
  | documentExists id => "Document " ++ toString id.toNat ++ " already exists"
  | noPathEntry => "Renaming a document without a path entry"
  | readOnlyIndex => "Database was opened read-only"
  | readOnlyTransaction => "Write operation on a read-only transaction"
  | phraseOperand => "Phrase queries only take exact term leaves"
  | phraseNotOfTerms => "Phrase queries must contain exact term leaves"

/-- The full text of an error: its class, then its wording. -/
def message (e : Error) : String := e.kind.name ++ ": " ++ e.context

end Error

/-- A stored value that cannot be read makes the operation fail. -/
def Malformed.orFail {α : Type} : Except Malformed α → Except Error α
  | .ok a => .ok a
  | .error cause => .error (.malformed cause)

/-- A stored value that cannot be read counts as `default`. -/
def Malformed.orElse {α : Type} (default : α) : Except Malformed α → α
  | .ok a => a
  | .error _ => default

end FileIndex
