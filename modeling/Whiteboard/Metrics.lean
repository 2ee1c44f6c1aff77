import Whiteboard.Settings

namespace Whiteboard

/-!
Counts of what the program has done.  A series exists once something was recorded in it.
-/

namespace Metrics

/-- A name with values for its labels, in the order of the labels' names. -/
structure Series where
  name : String
  labels : List (String × String)
  deriving DecidableEq

/-- A running total, a current level, a number of timings, or sizes. -/
inductive Sample where
  | total (n : Nat)
  | level (n : Nat)
  | timings (n : Nat)
  | sizes (observed : List Nat)
  deriving DecidableEq

/-- The upper bounds of the buckets for sizes. -/
def sizeBounds : List Nat :=
  (List.range 8).map fun i => 64 * Nat.pow 4 i

def Sample.text : Sample → String
  | total n => toString n
  | level n => toString n
  | timings n => "count=" ++ toString n
  | sizes observed =>
    "count=" ++ toString observed.length ++ " sum=" ++ toString (observed.foldr (· + ·) 0) ++
      String.join (sizeBounds.map fun bound =>
        " le" ++ toString bound ++ "=" ++ toString (observed.countP (· ≤ bound)))

end Metrics

/-- What was recorded; nothing is recorded while metrics are switched off. -/
structure Metrics where
  enabled : Bool := true
  nameSpace : String := "zedtex"
  subsystem : String := "compiler"
  samples : List (Metrics.Series × Metrics.Sample) := []

namespace Metrics

def ofSettings (s : Settings.Metrics) : Metrics where
  enabled := s.enabled
  nameSpace := Settings.orText s.nameSpace "zedtex"
  subsystem := Settings.orText s.subsystem "compiler"

def update (m : Metrics) (series : Series) (change : Option Sample → Sample) : Metrics :=
  if m.enabled then
    { m with samples :=
        (series, change (m.samples.lookup series)) :: m.samples.filter (fun s => s.1 != series) }
  else m

def add (m : Metrics) (name : String) (labels : List (String × String)) (n : Nat) : Metrics :=
  m.update ⟨name, labels⟩ fun
    | some (.total k) => .total (k + n)
    | _ => .total n

def setLevel (m : Metrics) (name : String) (labels : List (String × String)) (n : Nat) : Metrics :=
  m.update ⟨name, labels⟩ fun _ => .level n

def time (m : Metrics) (name : String) (labels : List (String × String)) : Metrics :=
  m.update ⟨name, labels⟩ fun
    | some (.timings k) => .timings (k + 1)
    | _ => .timings 1

def size (m : Metrics) (name : String) (labels : List (String × String)) (n : Nat) : Metrics :=
  m.update ⟨name, labels⟩ fun
    | some (.sizes observed) => .sizes (n :: observed)
    | _ => .sizes [n]

/-- A finished compilation; an empty source has no size. -/
def compiled (m : Metrics) (dialect status : String) (sourceBytes : Nat) : Metrics :=
  let m := m.add "compiles_total" [("dialect", dialect), ("status", status)] 1
  let m := m.time "compile_duration_seconds" [("dialect", dialect)]
  if sourceBytes == 0 then m else m.size "source_bytes" [("dialect", dialect)] sourceBytes

def stage (m : Metrics) (name : String) : Metrics :=
  m.time "stage_duration_seconds" [("stage", name)]

def tokens (m : Metrics) (dialect : String) (n : Nat) : Metrics :=
  if n == 0 then m else m.add "tokens_total" [("dialect", dialect)] n

def error (m : Metrics) (stage : String) : Metrics :=
  m.add "errors_total" [("type", stage)] 1

def warnings (m : Metrics) (dialect : String) (n : Nat) : Metrics :=
  if n == 0 then m else m.add "warnings_total" [("dialect", dialect)] n

def cacheHit (m : Metrics) (backend : String) : Metrics :=
  m.add "cache_hits_total" [("backend", backend)] 1

def cacheMiss (m : Metrics) (backend : String) : Metrics :=
  m.add "cache_misses_total" [("backend", backend)] 1

def cacheSize (m : Metrics) (backend : String) (n : Nat) : Metrics :=
  m.setLevel "cache_entries" [("backend", backend)] n

def cachePruned (m : Metrics) (backend : String) (n : Nat) : Metrics :=
  if n == 0 then m else m.add "cache_pruned_total" [("backend", backend)] n

def lines (m : Metrics) : List String :=
  (m.samples.map fun (series, sample) =>
    m.nameSpace ++ "_" ++ m.subsystem ++ "_" ++ series.name ++ "\x7b" ++
      Text.joinWith "," (series.labels.map fun (name, value) => name ++ "=" ++ value) ++ "\x7d " ++
      sample.text).mergeSort (fun a b => decide (a ≤ b))

end Metrics
end Whiteboard
