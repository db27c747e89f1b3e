import FileIndex.Intake
import FileIndex.Audit
import FileIndex.FileId
import FileIndex.Opening
import FileIndex.Search
import FileIndex.Session
import FileIndex.SizeReport
import FileIndex.Proofs.Agreement
import FileIndex.Proofs.History
import FileIndex.Proofs.Search
import FileIndex.Proofs.Draft.Steps
import FileIndex.Proofs.Tree.Links
import FileIndex.Proofs.Hierarchy
import FileIndex.Proofs.Tree.Children
import FileIndex.Proofs.StoredLists
import FileIndex.Proofs.Draft.Reading
import FileIndex.Proofs.Draft.Parallel
import FileIndex.Proofs.Transactions
import FileIndex.Proofs.Passages
import FileIndex.Proofs.Phrases
import FileIndex.Proofs.ModificationTimes
import FileIndex.Proofs.Positions
import FileIndex.Proofs.Rooted
import FileIndex.Proofs.Folders
import FileIndex.Proofs.Lookup
import FileIndex.Proofs.RoundTrip
import FileIndex.Proofs.Bystanders
import FileIndex.Proofs.Encoding.Numerals
import FileIndex.Proofs.Refusals
import FileIndex.Proofs.Tree.Hanging
import FileIndex.Proofs.Insertion
import FileIndex.Proofs.Tree.Pruning
import FileIndex.Proofs.Removal
import FileIndex.Proofs.Moves
import FileIndex.Proofs.Repeating
import FileIndex.Proofs.SubtreeRemoval
import FileIndex.Proofs.Parents
import FileIndex.Proofs.Undoing
import FileIndex.Proofs.Additions
import FileIndex.Proofs.Tree.Descent
import FileIndex.Proofs.Tree.Emptying
import FileIndex.Proofs.FailedCommits
import FileIndex.Proofs.NumericTerms
import FileIndex.Proofs.MalformedPhrases
import FileIndex.Proofs.CorruptValues
import FileIndex.Proofs.Cursor.Landing
