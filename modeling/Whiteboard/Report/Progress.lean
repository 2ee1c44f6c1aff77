import Whiteboard.Text.Lines

namespace Whiteboard

/-!
The bar that shows how far a run over several files has come.
-/

/-- How many files there are, how many are done, how many of these failed, and the one that was
done last. -/
structure Progress where
  total : Int := 0
  done : Int := 0
  failed : Int := 0
  current : String := ""
  deriving DecidableEq, Inhabited

namespace Progress

def width : Int := 30

/-- The bar, redrawn on its line; nothing if there are no files. -/
def line (p : Progress) : String :=
  if p.total == 0 then ""
  else
    let filled := (width * p.done).tdiv p.total
    "\r[" ++ Text.repeated filled.toNat "█" ++ Text.repeated (width - filled).toNat "░" ++ "] " ++
      toString p.done ++ "/" ++ toString p.total ++ " files" ++
      (if 0 < p.failed then ", " ++ toString p.failed ++ " failed" else "") ++
      (if p.current.isEmpty then "" else "  " ++ p.current)

def start (total : Int) : Progress where
  total := total

def step (p : Progress) (name : String) (ok : Bool) : Progress :=
  { p with done := p.done + 1, failed := if ok then p.failed else p.failed + 1, current := name }

def finish (p : Progress) : Progress :=
  { p with current := "" }

def lastLine (p : Progress) (elapsed : String) : String :=
  p.finish.line ++ " in " ++ elapsed ++ "\n"

end Progress
end Whiteboard
