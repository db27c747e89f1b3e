import FileIndex.Store.Basic

/-!
# Size reports

* `TableSize`: how many entries a table has and how many bytes they take.
* `SizeReport`: the sizes of all tables and of the file, and `SizeReport.toJson` to print them.
-/

namespace FileIndex

/-- How many entries a table has, and how many bytes their keys and values take. -/
structure TableSize where
  entries : Nat := 0
  bytes : Nat := 0
  deriving DecidableEq, Repr

/-- The size with one more entry. -/
def TableSize.addEntry (size : TableSize) (keyLength valueLength : Nat) : TableSize :=
  ⟨size.entries + 1, size.bytes + (keyLength + valueLength)⟩

/-- The size of a table. -/
def Table.measure (t : Table) : TableSize := ⟨t.size, Table.byteCount t⟩

/-- The sizes of all tables, and of the file that holds them. -/
structure SizeReport where
  size : TableName → TableSize
  actual : Nat

namespace SizeReport

/-- The tables in the order of a report, with the names used there. -/
def rows : List (TableName × String) :=
  [(.postings, "posting_db"), (.occurrences, "position_db"), (.contentTerms, "doc_terms"),
    (.fileNameTerms, "doc_filename_terms"), (.attributeTerms, "doc_xattr_terms"),
    (.children, "id_tree"), (.pathEntries, "id_filename"), (.times, "doc_time"),
    (.payloads, "doc_data"), (.modified, "mtime_db"), (.contentPending, "content_indexing_db"),
    (.failed, "failed_ids_db")]

/-- The number of entries in all tables. -/
def totalEntries (r : SizeReport) : Nat :=
  rows.foldr (fun row n => (r.size row.1).entries + n) 0

/-- The number of bytes that all tables should take. -/
def expected (r : SizeReport) : Nat := rows.foldr (fun row n => (r.size row.1).bytes + n) 0

/-- A line of an object at the given level of indentation. -/
def member (level : Nat) (name value : String) : String :=
  String.ofList (List.replicate (2 * level) ' ') ++ "\"" ++ name ++ "\": " ++ value

/-- An object whose members are at the given level of indentation. -/
def object (level : Nat) (members : List (String × String)) : String :=
  "\x7b\n" ++ String.intercalate ",\n" (members.map fun m => member level m.1 m.2) ++ "\n" ++
    String.ofList (List.replicate (2 * (level - 1)) ' ') ++ "\x7d"

/-- The report as a JSON text with an indentation of two blanks. -/
def toJson (r : SizeReport) : String :=
  object 1 (rows.map (fun row =>
      (row.2, object 2 [("entries", toString (r.size row.1).entries),
        ("bytes", toString (r.size row.1).bytes)])) ++
    [("expected_size", toString r.expected), ("actual_size", toString r.actual)])

end SizeReport

/-- The sizes of the tables of a store. -/
def Store.sizeReport (s : Store) (actual : Nat) : SizeReport where
  size name := (s.table name).measure
  actual := actual

end FileIndex
