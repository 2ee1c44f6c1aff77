import Whiteboard.Cache
import Whiteboard.Data

namespace Whiteboard
namespace Cache

/-!
A store in a database: a table with one row for a key.  Warnings are kept as plain data and times
as words of 64 bits.
-/

structure Row where
  key : String
  dialect : String
  output : String
  warnings : Data
  createdAt : Int
  deriving Inhabited

/-- A time as a word of 64 bits. -/
def timeWord (n : Int) : Int :=
  Int.bmod n 0x10000000000000000

def encodeWarning (w : Warning) : Data :=
  .record
    [("file", .text w.loc.file), ("line", .int w.loc.line), ("column", .int w.loc.column),
     ("message", .text w.message)]

def encodeWarnings (ws : List Warning) : Data :=
  .list (ws.map encodeWarning)

def decodeWarning : Data → Option Warning
  | .record [("file", .text file), ("line", .int line), ("column", .int column),
      ("message", .text message)] => some ⟨⟨file, line, column⟩, message⟩
  | _ => none

def decodeWarnings : Data → Option (List Warning)
  | .list ds => ds.mapM decodeWarning
  | _ => none

namespace Row

def ofEntry (e : Entry) : Row where
  key := e.key
  dialect := e.dialect
  output := e.text
  warnings := encodeWarnings e.warnings
  createdAt := timeWord e.createdAt

def toEntry? (r : Row) : Option Entry :=
  (decodeWarnings r.warnings).map fun ws =>
    { key := r.key, dialect := r.dialect, text := r.output, warnings := ws,
      createdAt := r.createdAt }

end Row

/-- Rows in the order in which their keys first came, until the store is closed. -/
structure Table where
  rows : List Row := []
  closed : Bool := false
  deriving Inhabited

namespace Table

def upsert (row : Row) (rows : List Row) : List Row :=
  if rows.any fun r => r.key == row.key then
    rows.map fun r => if r.key == row.key then row else r
  else rows ++ [row]

def get (t : Table) (key : String) : Except Fault (Option Entry) :=
  if t.closed then .error .closed
  else
    match t.rows.find? fun r => r.key == key with
    | none => .ok none
    | some r =>
      match r.toEntry? with
      | some e => .ok (some e)
      | none => .error .undecodable

def put (t : Table) (e : Entry) : Except Fault Table :=
  if t.closed then .error .closed
  else .ok { t with rows := upsert (Row.ofEntry e) t.rows }

def prune (t : Table) (cutoff : Int) : Except Fault (Table × Nat) :=
  if t.closed then .error .closed
  else
    let (dropped, kept) := t.rows.partition fun r => decide (r.createdAt < timeWord cutoff)
    .ok ({ t with rows := kept }, dropped.length)

def stats (t : Table) : Except Fault Stats :=
  if t.closed then .error .closed
  else .ok
    { backend := "sqlite"
      entries := t.rows.length
      bytes := (t.rows.map fun r => r.output.utf8ByteSize).foldr (· + ·) 0
      oldest := least? (t.rows.map Row.createdAt) }

/-- Ends the work with the database. -/
def close (t : Table) : Table :=
  { t with closed := true }

end Table

instance : Storage Table where
  backend _ := "sqlite"
  get := Table.get
  put := Table.put
  prune := Table.prune
  stats := Table.stats
  close := Table.close

end Cache
end Whiteboard
