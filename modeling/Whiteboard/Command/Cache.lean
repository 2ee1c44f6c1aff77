import Whiteboard.Command.Desk
import Whiteboard.Report.Format
import Whiteboard.Timestamp

namespace Whiteboard
namespace Command

/-!
Looking into the cache and pruning it.
-/

def pruneFlags : List Flag :=
  [{ name := "older-than", kind := .duration }]

def statsFlags : List Flag :=
  [{ name := "format" }]

def openStore (h : Host) (a : Arguments) : Except Failure (Cache.Store × Settings) := do
  let s ← settings h a
  match ← (Cache.Store.ofSettings s.cache).mapError (.within "failed to open cache") with
  | some store => return (store, s)
  | none => throw (.stated "cache is disabled (cache.enabled: false)")

def prune (h : Host) (a : Arguments) (d : Desk) : Except Failure Desk := do
  let (store, s) ← openStore h a
  let age := a.duration "older-than"
  let ttl := if 0 < age then age else s.cache.ttl
  let (_, removed, _) ← (Cache.pruneOnce store h.moment.now ttl {}).mapError fun f =>
    .within "failed to prune cache" f.toFailure
  return d.print ("removed " ++ toString removed ++ " entries older than " ++ Duration.text ttl ++ "\n")

def entryTime (oldest : Option Int) : String :=
  Timestamp.text ((oldest.map fun n => n.fdiv 1000000000).getD Timestamp.never)

def stats (h : Host) (a : Arguments) (d : Desk) : Except Failure Desk := do
  let format ← OutputFormat.choose (a.text "format" "text") ["text", "json", "yaml"]
  let (store, _) ← openStore h a
  let st ← (Cache.Storage.stats store).mapError fun f =>
    .within "failed to read cache stats" f.toFailure
  if format == "text" then
    return d.print
      ("Backend: " ++ st.backend ++ "\nEntries: " ++ toString st.entries ++ "\nBytes:   " ++
        toString st.bytes ++ "\n" ++
        (if st.oldest.isNone then "" else "Oldest:  " ++ entryTime st.oldest ++ "\n"))
  else
    return d.print (OutputFormat.json.printLine (.record
      [("backend", .text st.backend), ("entries", .int st.entries), ("bytes", .int st.bytes),
       ("oldest", .text (entryTime st.oldest))]))

end Command
end Whiteboard
