import FileIndex.Encoding.OccurrenceList
import FileIndex.Query

/-!
# Cursors over matching documents

A cursor walks forward over ascending document ids. It starts before the first of them; moving
answers the id that it comes to stand on, or nothing when it has run out, which is final.

* `Cursor`: a list of occurrences, or cursors joined by a connective.
* `Cursor.next`, `Cursor.seek`: moving to the following id, or to the first one that reaches a
  target. Seeking never moves back.
* `Cursor.docId`, `Cursor.positions`: the current id, 0 when there is none, and the positions
  found there.
* `Cursor.take`, `Cursor.drain`: the ids ahead.

Moving a composite moves its parts in turn. `Cursor.weight` falls with every successful move, so
it bounds the loops of `align` and `advanceUntil`.
-/

namespace FileIndex

/-- Where a composite cursor stands. -/
inductive Standing
  /-- Before the first id. -/
  | before
  /-- On an id. -/
  | on (id : DocId)
  /-- Behind the last id. -/
  | past
  deriving DecidableEq, Repr

/-- The standing after a move. -/
def Standing.ofAnswer : Option DocId → Standing
  | some id => .on id
  | none => .past

/-- A forward cursor over document ids. -/
inductive Cursor
  /-- The documents of a list: the current one, and those ahead. -/
  | leaf (current : Option Occurrence) (ahead : List Occurrence)
  /-- The documents that the parts have in common, together, or as a phrase. -/
  | join (how : Connective) (standing : Standing) (parts : List Cursor)
  deriving Repr, Inhabited

/-- What a cursor can be asked to do. -/
inductive Move
  /-- Go to the following id. -/
  | next
  /-- Go to the first id that reaches the target, or stay if the current one does. -/
  | seek (target : DocId)
  deriving DecidableEq, Repr

namespace Cursor

/-- A cursor over ids without positions. -/
def ofIds (ids : List DocId) : Cursor := leaf none (ids.map fun id => { id })

/-- A cursor over the documents of an occurrence list. -/
def ofOccurrences (os : List Occurrence) : Cursor := leaf none os

/-- A cursor over what the connective makes of the parts. -/
def ofParts (how : Connective) (parts : List Cursor) : Cursor := join how .before parts

/-- A cursor over all ids of the parts: none without parts, and a single part as it is. -/
def union? : List Cursor → Option Cursor
  | [] => none
  | [part] => some part
  | parts => some (ofParts .or parts)

/-- The current id, 0 when there is none. -/
def docId : Cursor → DocId
  | leaf (some o) _ => o.id
  | leaf none _ => 0
  | join _ (.on id) _ => id
  | join _ _ _ => 0

/-- The positions at the current id; composites have none. -/
def positions : Cursor → List UInt32
  | leaf (some o) _ => o.positions
  | _ => []

/-- The number of documents of a list that are ahead. -/
def ahead : Cursor → Nat
  | leaf _ os => os.length
  | join .. => 0

/-- Whether the current id reaches the target; the id 0 never does. -/
def reaches (target current : DocId) : Bool := current != 0 && target ≤ current

mutual

/-- How many levels of composites there are. -/
def depth : Cursor → Nat
  | leaf .. => 0
  | join _ _ parts => depthAll parts + 1

/-- The greatest depth of some cursors. -/
def depthAll : List Cursor → Nat
  | [] => 0
  | part :: parts => max (depth part) (depthAll parts)

end

mutual

/-- Two for each document ahead in a list and one for a current one. -/
def weight : Cursor → Nat
  | leaf current ahead => 2 * ahead.length + if current.isSome then 1 else 0
  | join _ _ parts => weightAll parts

/-- The weight of some cursors together. -/
def weightAll : List Cursor → Nat
  | [] => 0
  | part :: parts => weight part + weightAll parts

end

/-! ## Moving the parts of a composite -/

section Parts

variable (move : Move → Cursor → Option DocId × Cursor)

/-- How bringing cursors up to a candidate ends. -/
inductive Sweep
  /-- All of them stand on the candidate. -/
  | met
  /-- One of them went on to a greater id. -/
  | overshot (id : DocId)
  /-- One of them ran out. -/
  | dry
  deriving DecidableEq, Repr

/-- Brings the cursors up to the candidate one after the other, as far as they meet it. -/
def sweep (candidate : DocId) : List Cursor → Sweep × List Cursor
  | [] => (.met, [])
  | part :: parts =>
    match move (.seek candidate) part with
    | (none, part) => (.dry, part :: parts)
    | (some id, part) =>
      if candidate < id then (.overshot id, part :: parts)
      else
        let (result, parts) := sweep candidate parts
        (result, part :: parts)

/-- Raises the candidate, on which `lead` stands, until all cursors meet on it or one runs out.
There are at most `bound` sweeps. -/
def align : (bound : Nat) → (candidate : DocId) → (lead : Cursor) → (rest : List Cursor) →
    Option DocId × List Cursor
  | 0, _, lead, rest => (none, lead :: rest)
  | bound + 1, candidate, lead, rest =>
    match sweep move candidate rest with
    | (.met, rest) => (some candidate, lead :: rest)
    | (.dry, rest) => (none, lead :: rest)
    | (.overshot id, rest) =>
      match move (.seek id) lead with
      | (none, lead) => (none, lead :: rest)
      | (some candidate, lead) => align bound candidate lead rest

/-- Moves the cursors to the next id that they share. The first of them leads. -/
def nextCommon : List Cursor → Option DocId × List Cursor
  | [] => (none, [])
  | lead :: rest =>
    match move .next lead with
    | (none, lead) => (none, lead :: rest)
    | (some candidate, lead) => align move (weight lead + 1) candidate lead rest

end Parts

/-- Repeats a step until its answer is accepted or there is none, at most `bound` times. -/
def advanceUntil {σ : Type} (step : σ → Option DocId × σ) (accept : DocId → σ → Bool) :
    (bound : Nat) → σ → Option DocId × σ
  | 0, s => (none, s)
  | bound + 1, s =>
    match step s with
    | (none, s) => (none, s)
    | (some id, s) => if accept id s then (some id, s) else advanceUntil step accept bound s

/-- Whether position `p` is in the first list, `p + 1` in the second, and so on. -/
def followedFrom (p : Nat) : List (List UInt32) → Bool
  | [] => true
  | ps :: rest => ps.any (·.toNat == p) && followedFrom (p + 1) rest

/-- Whether the lists hold positions that follow each other. -/
def adjacent : List (List UInt32) → Bool
  | [] => false
  | ps :: rest => ps.any fun p => followedFrom (p.toNat + 1) rest

/-- Moves the parts of a phrase to the next id at which they follow each other. -/
def nextPhrase (move : Move → Cursor → Option DocId × Cursor) (parts : List Cursor) :
    Option DocId × List Cursor :=
  advanceUntil (nextCommon move) (fun _ parts => adjacent (parts.map positions))
    (weightAll parts + 1) parts

/-- The least current id of some cursors. -/
def leastId? (parts : List Cursor) : Option DocId := ((parts.map docId).filter (· != 0)).min?

/-- Moves an alternative on: every part at first, later those on the current id. -/
def nextOfAny (move : Move → Cursor → Option DocId × Cursor) (standing : Standing)
    (parts : List Cursor) : Option DocId × List Cursor :=
  let parts := match standing with
    | .before => parts.map fun part => (move .next part).2
    | .on id => parts.map fun part => if part.docId = id then (move .next part).2 else part
    | .past => parts
  (leastId? parts, parts)

/-- Moves a composite to its following id. -/
def joinNext (move : Move → Cursor → Option DocId × Cursor) (how : Connective)
    (s : Standing × List Cursor) : Option DocId × Standing × List Cursor :=
  if s.1 = .past then (none, s)
  else
    let (answer, parts) := match how with
      | .and => nextCommon move s.2
      | .phrase => nextPhrase move s.2
      | .or => nextOfAny move s.1 s.2
    (answer, Standing.ofAnswer answer, parts)

/-- Moves a composite to its first id that reaches the target, which its current one does not.
An alternative seeks in every part; the others go from id to id. -/
def joinSeek (move : Move → Cursor → Option DocId × Cursor) (how : Connective)
    (target : DocId) (s : Standing × List Cursor) : Option DocId × Standing × List Cursor :=
  if how = .or then
    if s.1 = .past then (none, s)
    else
      let parts := s.2.map fun part => (move (.seek target) part).2
      (leastId? parts, Standing.ofAnswer (leastId? parts), parts)
  else advanceUntil (joinNext move how) (fun id _ => target ≤ id) (weightAll s.2 + 1) s

/-- A composite made of its moved parts. -/
def rejoin (how : Connective) (r : Option DocId × Standing × List Cursor) :
    Option DocId × Cursor := (r.1, join how r.2.1 r.2.2)

/-! ## Moving a cursor -/

/-- Moves a list to its following document. -/
def leafNext : List Occurrence → Option DocId × Cursor
  | [] => (none, leaf none [])
  | o :: os => (some o.id, leaf (some o) os)

/-- Moves a cursor with at most `depth` levels of composites. -/
def step : (depth : Nat) → Move → Cursor → Option DocId × Cursor
  | _, .next, leaf _ ahead => leafNext ahead
  | _, .seek target, leaf current ahead =>
    if reaches target (leaf current ahead).docId then
      (some (leaf current ahead).docId, leaf current ahead)
    else leafNext (ahead.dropWhile (·.id < target))
  | 0, _, c => (none, c)
  | depth + 1, .next, join how standing parts =>
    rejoin how (joinNext (step depth) how (standing, parts))
  | depth + 1, .seek target, join how standing parts =>
    if reaches target (join how standing parts).docId then
      (some (join how standing parts).docId, join how standing parts)
    else rejoin how (joinSeek (step depth) how target (standing, parts))

/-- Moves a cursor as asked and answers the id that it comes to stand on. -/
def move (m : Move) (c : Cursor) : Option DocId × Cursor := step c.depth m c

/-- Moves a cursor to its following id. -/
def next (c : Cursor) : Option DocId × Cursor := c.move .next

/-- Moves a cursor to its first id that reaches the target, if the current one does not. -/
def seek (c : Cursor) (target : DocId) : Option DocId × Cursor := c.move (.seek target)

/-- The next ids, at most `count` of them, and the cursor after them. -/
def take : (count : Nat) → Cursor → List DocId × Cursor
  | 0, c => ([], c)
  | count + 1, c =>
    match c.next with
    | (none, c) => ([], c)
    | (some id, c) =>
      let (ids, c) := take count c
      (id :: ids, c)

/-- All ids ahead, up to the limit if there is one, and the cursor after them. -/
def collect (limit : Option Nat) (c : Cursor) : List DocId × Cursor :=
  c.take (limit.getD (c.weight + 1))

/-- All ids ahead. -/
def drain (c : Cursor) : List DocId := (c.collect none).1

end Cursor
end FileIndex
