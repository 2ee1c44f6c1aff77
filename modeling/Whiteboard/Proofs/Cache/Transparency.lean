import Whiteboard.Proofs.Cache.Faithful
import Whiteboard.Proofs.Cache.Key
import Whiteboard.Proofs.File.Rendering

namespace Whiteboard

open List

/-!
# What a compiler with a store answers

A compiler that keeps finished compilations is compared with one that keeps nothing.  Along any sequence
of requests the store holds, under each key, the rendering of the first request with that key that had
one.  The key tells the dialect and the source of a request but not its name, so a later request is
answered with the rendering of the first one like it: with the right text, and with warnings that are
placed in the file of that first request.
-/

namespace Compiler

/-! ## One request -/

/-- The stages give what compiling with the options gives, whatever is noted on the way. -/
theorem run_fst (o : Options) (source : String) (context : Log.Context) (t : Telemetry) :
    (run o source context t).1.map Prod.fst = o.compile source := by
  unfold run lexing Options.compile Options.document
  cases o.tokens source with
  | error d => rfl
  | ok toks =>
    dsimp only [bind, Except.bind]
    unfold parsing
    cases Document.ofTokens o.file toks with
    | error fault => rfl
    | ok doc =>
      dsimp only [Except.mapError]
      unfold rendering
      cases doc.render o.layout with
      | error fault => rfl
      | ok rendered => rfl

theorem run_of_error {o : Options} {source : String} {d : Diagnostic} (failed : o.compile source = .error d)
    (context : Log.Context) (t : Telemetry) : ∃ t', run o source context t = (.error d, t') := by
  have outcome := run_fst o source context t
  rw [failed] at outcome
  generalize run o source context t = done at outcome ⊢
  obtain ⟨result, t'⟩ := done
  cases result with
  | error fault =>
    cases outcome
    exact ⟨t', rfl⟩
  | ok value => cases outcome

theorem run_of_ok {o : Options} {source : String} {a : Rendered} (compiled : o.compile source = .ok a)
    (context : Log.Context) (t : Telemetry) : ∃ n t', run o source context t = (.ok (a, n), t') := by
  have outcome := run_fst o source context t
  rw [compiled] at outcome
  generalize run o source context t = done at outcome ⊢
  obtain ⟨result, t'⟩ := done
  cases result with
  | error fault => cases outcome
  | ok value =>
    cases outcome
    exact ⟨value.2, t', rfl⟩

variable {σ : Type} [Cache.Storage σ] {c : Compiler σ} {r : Request}

/-- What a request is answered with if nothing is kept. -/
def fresh (c : Compiler σ) (r : Request) : Except Diagnostic Rendered := (c.optionsFor r).compile r.source

/-- Nothing is found under the key of the request, be it that there is no store. -/
def Misses (c : Compiler σ) (r : Request) : Prop :=
  ∀ store, c.store = some store → ∀ e, Cache.Storage.get store (c.keyFor r) ≠ .ok (some e)

theorem lookup_of_misses (misses : c.Misses r) (context : Log.Context) (t : Telemetry) :
    ∃ t', c.lookup (c.keyFor r) context t = (none, t') := by
  unfold lookup
  cases stored : c.store with
  | none => exact ⟨t, rfl⟩
  | some store =>
    have nothing := misses store stored
    dsimp only
    cases answer : Cache.Storage.get store (c.keyFor r) with
    | error fault => exact ⟨_, rfl⟩
    | ok found =>
      cases found with
      | none => exact ⟨_, rfl⟩
      | some e => exact absurd answer (nothing e)

/-- A request whose key is in the store is answered from it. -/
theorem compile_of_kept {store : σ} {e : Cache.Entry} (stored : c.store = some store)
    (kept : Cache.Storage.get store (c.keyFor r) = .ok (some e)) (m : Moment) :
    ∃ metrics t, c.compile r m = (.ok ⟨r.name, r.dialect, e.rendered, 0, true⟩, { c with metrics := metrics }, t) := by
  have looked (context : Log.Context) (t : Telemetry) : ∃ t', c.lookup (c.keyFor r) context t = (some e, t') := by
    unfold lookup
    rw [stored]
    dsimp only
    rw [kept]
    exact ⟨_, rfl⟩
  unfold compile
  dsimp only
  obtain ⟨t, found⟩ := looked { runId := m.runId, sourceFile := r.name, dialect := r.dialect.name }
    { metrics := c.metrics }
  rw [found]
  exact ⟨_, _, rfl⟩

/-- A request that fails leaves the store alone. -/
theorem compile_of_error (misses : c.Misses r) {d : Diagnostic} (failed : c.fresh r = .error d) (m : Moment) :
    ∃ metrics t, c.compile r m = (.error d, { c with metrics := metrics }, t) := by
  unfold compile
  dsimp only
  obtain ⟨t, nothing⟩ := lookup_of_misses misses
    { runId := m.runId, sourceFile := r.name, dialect := r.dialect.name } { metrics := c.metrics }
  rw [nothing]
  dsimp only
  obtain ⟨t', ran⟩ := run_of_error failed { runId := m.runId, sourceFile := r.name, dialect := r.dialect.name } t
  rw [ran]
  exact ⟨_, _, rfl⟩

/-- A request that is compiled anew is put into the store. -/
theorem compile_of_ok (misses : c.Misses r) {a : Rendered} (compiled : c.fresh r = .ok a) (m : Moment) :
    ∃ n metrics t e context t', e.key = c.keyFor r ∧ e.rendered = a ∧
      c.compile r m = (.ok ⟨r.name, r.dialect, a, n, false⟩,
        { c with store := (c.save e context t').1, metrics := metrics }, t) := by
  unfold compile
  dsimp only
  obtain ⟨t, nothing⟩ := lookup_of_misses misses
    { runId := m.runId, sourceFile := r.name, dialect := r.dialect.name } { metrics := c.metrics }
  rw [nothing]
  dsimp only
  obtain ⟨n, t', ran⟩ := run_of_ok compiled { runId := m.runId, sourceFile := r.name, dialect := r.dialect.name } t
  rw [ran]
  exact ⟨n, _, _, _, _, _, rfl, rfl, rfl⟩

/-! ## Requests one after the other -/

/-- The compiler after requests were made one after the other. -/
def after (c : Compiler σ) (history : List (Request × Moment)) : Compiler σ :=
  history.foldl (fun c p => (c.compile p.1 p.2).2.1) c

/-- What a request adds under a key that has nothing yet. -/
def adds (c : Compiler σ) (r : Request) (key : String) : Option Rendered :=
  if c.keyFor r = key then (c.fresh r).toOption else none

/-- Under each key the rendering of the first request with that key that has one. -/
def keptAfter (c : Compiler σ) (history : List Request) (key : String) : Option Rendered :=
  history.findSome? (c.adds · key)

omit [Cache.Storage σ] in
theorem keptAfter_cons (c : Compiler σ) (first : Request) (rest : List Request) (key : String) :
    c.keptAfter (first :: rest) key = (c.adds first key).or (c.keptAfter rest key) := by
  rw [keptAfter, List.findSome?_cons]
  cases c.adds first key <;> rfl

theorem misses_of_holds {store : σ} {view : String → Option Rendered} (stored : c.store = some store)
    (holds : Cache.Holds store view) (absent : view (c.keyFor r) = none) : c.Misses r := by
  intro other storedOther e found
  rw [stored] at storedOther
  cases storedOther
  have answer := holds (c.keyFor r)
  rw [found, absent] at answer
  cases answer

theorem kept_of_holds {store : σ} {view : String → Option Rendered} {a : Rendered}
    (holds : Cache.Holds store view) {key : String} (present : view key = some a) :
    ∃ e, Cache.Storage.get store key = .ok (some e) ∧ e.rendered = a := by
  have answer := holds key
  rw [present] at answer
  cases found : Cache.Storage.get store key with
  | error fault =>
    rw [found] at answer
    cases answer
  | ok entry =>
    rw [found] at answer
    cases entry with
    | none => cases answer
    | some e =>
      cases answer
      exact ⟨e, rfl, rfl⟩

section
variable {store : σ} {view : String → Option Rendered} (stored : c.store = some store)
  (holds : Cache.Holds store view)
include stored holds

/-- One request: the view grows at the key of the request, if there is nothing yet. -/
theorem holds_compile [Cache.Faithful σ] (r : Request) (m : Moment) :
    ∃ next metrics, (c.compile r m).2.1 = { c with store := some next, metrics := metrics } ∧
      Cache.Holds next fun key => (view key).or (c.adds r key) := by
  have unchanged (grown : ∀ key, c.keyFor r = key → (view key).or (c.fresh r).toOption = view key) :
      Cache.Holds store fun key => (view key).or (c.adds r key) := by
    intro key
    rw [holds key]
    dsimp only [adds]
    split
    next own => rw [grown key own]
    next => rw [Option.or_none]
  cases present : view (c.keyFor r) with
  | some a =>
    obtain ⟨e, kept, _⟩ := kept_of_holds holds present
    obtain ⟨metrics, t, compiled⟩ := compile_of_kept stored kept m
    refine ⟨store, metrics, ?_, unchanged ?_⟩
    · rw [compiled, ← stored]
    · rintro _ rfl
      rw [present, Option.some_or]
  | none =>
    have misses := misses_of_holds stored holds present
    cases outcome : c.fresh r with
    | error d =>
      obtain ⟨metrics, t, compiled⟩ := compile_of_error misses outcome m
      refine ⟨store, metrics, ?_, unchanged ?_⟩
      · rw [compiled, ← stored]
      · intro key _
        rw [outcome]
        exact Option.or_none
    | ok a =>
      obtain ⟨n, metrics, t, e, context, t', key, rendered, compiled⟩ := compile_of_ok misses outcome m
      obtain ⟨next, put, grown⟩ := Cache.Faithful.holds_put e holds
      have saved : (c.save e context t').1 = some next := by
        unfold save
        rw [stored]
        dsimp only
        rw [put]
        dsimp only
        cases Cache.Storage.stats next <;> rfl
      refine ⟨next, metrics, by rw [compiled, saved], ?_⟩
      intro other
      rw [grown other]
      dsimp only [Cache.viewAfter, adds]
      rw [key, outcome, rendered]
      by_cases own : other = c.keyFor r
      · rw [if_pos own, if_pos own.symm, own, present]
        rfl
      · rw [if_neg own, if_neg (Ne.symm own), Option.or_none]

/-- All requests: the store holds what the requests kept, and nothing else has changed. -/
theorem holds_after [Cache.Faithful σ] (history : List (Request × Moment)) :
    ∃ next metrics, c.after history = { c with store := some next, metrics := metrics } ∧
      Cache.Holds next fun key => (view key).or (c.keptAfter (history.map Prod.fst) key) := by
  induction history generalizing c store view with
  | nil =>
    refine ⟨store, c.metrics, ?_, ?_⟩
    · rw [← stored]
      rfl
    · intro key
      rw [holds key]
      exact congrArg Except.ok Option.or_none.symm
  | cons first rest ih =>
    obtain ⟨middle, metrics, compiled, held⟩ := holds_compile stored holds first.1 first.2
    obtain ⟨next, metrics', ran, heldAfter⟩ := @ih { c with store := some middle, metrics := metrics } middle _ rfl held
    refine ⟨next, metrics', ?_, ?_⟩
    · rw [← ran, ← compiled]
      rfl
    · intro key
      rw [heldAfter key]
      dsimp only
      rw [Option.or_assoc, map_cons, keptAfter_cons]
      rfl

end

/-! ## Requests for one source in one dialect -/

/-- Do two requests ask for the same but for the name? -/
def alike (r q : Request) : Bool := q.source == r.source && q.dialect == r.dialect

/-- The first of the requests that is like `r`, or else `r` itself. -/
def firstAlike (history : List Request) (r : Request) : Request := (history.find? (alike r)).getD r

section
omit [Cache.Storage σ]

theorem optionsFor_alike {q : Request} (like : alike r q = true) :
    c.optionsFor q = (c.optionsFor r).inFile q.name ∧ q.source = r.source := by
  obtain ⟨source, dialect⟩ := Bool.and_eq_true_iff.mp like
  refine ⟨?_, eq_of_beq source⟩
  rw [optionsFor, optionsFor, eq_of_beq dialect]
  rfl

/-- Requests that are alike have the same rendering, up to the place of its warnings. -/
theorem fresh_alike {q : Request} (like : alike r q = true) {a : Rendered} (compiled : c.fresh r = .ok a) :
    c.fresh q = .ok (a.inFile q.name) := by
  obtain ⟨options, source⟩ := optionsFor_alike (c := c) like
  rw [fresh, options, source]
  exact Options.mirrors_compile q.name (c.optionsFor r) r.source a compiled

theorem keyFor_alike {q : Request} (like : alike r q = true) : c.keyFor q = c.keyFor r := by
  obtain ⟨source, dialect⟩ := Bool.and_eq_true_iff.mp like
  exact c.keyFor_eq (eq_of_beq dialect) (eq_of_beq source)

/-- The hash tells the bytes of the request apart from those of the others. -/
def HashTellsApart (c : Compiler σ) (history : List Request) (r : Request) : Prop :=
  ∀ q ∈ history, c.keyFor q = c.keyFor r → c.materialFor q = c.materialFor r

section
variable {history : List Request} (apart : c.HashTellsApart history r)
include apart

theorem HashTellsApart.alike {q : Request}
    (member : q ∈ history) (same : c.keyFor q = c.keyFor r) : alike r q = true := by
  obtain ⟨dialect, source⟩ := materialFor_inj (apart q member same)
  simp [Compiler.alike, dialect, source]

theorem keptAfter_of_error {d : Diagnostic}
    (failed : c.fresh r = .error d) : c.keptAfter history (c.keyFor r) = none := by
  rw [keptAfter, List.findSome?_eq_none_iff]
  intro q member
  rw [adds]
  split
  next own =>
    have like := apart.alike member own
    have back : Compiler.alike q r = true := by
      rw [Compiler.alike, Bool.and_eq_true_iff] at like ⊢
      exact ⟨BEq.symm like.1, BEq.symm like.2⟩
    cases outcome : c.fresh q with
    | error fault => rfl
    | ok a =>
      rw [fresh_alike back outcome] at failed
      cases failed
  next => rfl

theorem keptAfter_of_ok {a : Rendered} (compiled : c.fresh r = .ok a) :
    c.keptAfter history (c.keyFor r) = (history.find? (alike r)).map fun q => a.inFile q.name := by
  induction history with
  | nil => rfl
  | cons q rest ih =>
    have later := ih fun other member => apart other (mem_cons_of_mem q member)
    rw [keptAfter_cons, adds]
    by_cases like : alike r q = true
    · rw [if_pos (keyFor_alike like), fresh_alike like compiled, List.find?_cons_of_pos like]
      rfl
    · have different : c.keyFor q ≠ c.keyFor r := fun same => like (apart.alike mem_cons_self same)
      rw [if_neg different, List.find?_cons_of_neg like, later]
      rfl

end

end

/-! ## A request after others -/

section
variable [Cache.Faithful σ] {store : σ} (stored : c.store = some store) (empty : Cache.Holds store fun _ => none)
  (history : List (Request × Moment)) (m : Moment)
include stored empty

/-- A request that fails without a store fails with it, and changes nothing. -/
theorem compile_after_of_error {d : Diagnostic} (apart : c.HashTellsApart (history.map Prod.fst) r)
    (failed : c.fresh r = .error d) :
    ((c.after history).compile r m).1 = .error d ∧
      ((c.after history).compile r m).2.1.store = (c.after history).store := by
  obtain ⟨next, metrics, ran, holds⟩ := holds_after stored empty history
  rw [ran]
  have misses : { c with store := some next, metrics := metrics }.Misses r :=
    misses_of_holds rfl holds (keptAfter_of_error apart failed)
  obtain ⟨metrics', t, compiled⟩ := compile_of_error misses failed m
  rw [compiled]
  exact ⟨rfl, rfl⟩

/-- A request is answered with the rendering of the first request like it. -/
theorem compile_after_of_ok {a : Rendered} (apart : c.HashTellsApart (history.map Prod.fst) r)
    (compiled : c.fresh r = .ok a) :
    ∃ n cached, ((c.after history).compile r m).1 =
      .ok ⟨r.name, r.dialect, a.inFile (firstAlike (history.map Prod.fst) r).name, n, cached⟩ := by
  obtain ⟨next, metrics, ran, holds⟩ := holds_after stored empty history
  have view := keptAfter_of_ok apart compiled
  rw [ran, firstAlike]
  cases first : (history.map Prod.fst).find? (alike r) with
  | some q =>
    rw [first] at view
    obtain ⟨e, kept, rendered⟩ := kept_of_holds holds view
    obtain ⟨metrics', t, served⟩ :=
      @compile_of_kept _ _ { c with store := some next, metrics := metrics } r next e rfl kept m
    rw [served, rendered]
    exact ⟨0, true, rfl⟩
  | none =>
    rw [first] at view
    have misses : { c with store := some next, metrics := metrics }.Misses r := misses_of_holds rfl holds view
    obtain ⟨n, metrics', t, e, context, t', _, _, served⟩ := compile_of_ok misses compiled m
    have own : a.inFile r.name = a := Options.compile_inFile compiled
    rw [served]
    exact ⟨n, false, by rw [Option.getD_none, own]⟩

end

/-- The compiler without its store. -/
def uncached (c : Compiler σ) : Compiler σ := { c with store := none }

theorem fresh_of_uncached_error {m : Moment} {d : Diagnostic} (failed : (c.uncached.compile r m).1 = .error d) :
    c.fresh r = .error d := by
  have misses : c.uncached.Misses r := fun _ stored => nomatch stored
  cases outcome : c.fresh r with
  | error fault =>
    obtain ⟨metrics, t, compiled⟩ := compile_of_error misses outcome m
    rw [compiled] at failed
    cases failed
    rfl
  | ok rendered =>
    obtain ⟨n, metrics, t, e, context, t', _, _, compiled⟩ := compile_of_ok misses outcome m
    rw [compiled] at failed
    cases failed

theorem fresh_of_uncached_ok {m : Moment} {a : Compiled} (succeeded : (c.uncached.compile r m).1 = .ok a) :
    c.fresh r = .ok a.rendered ∧ a.name = r.name ∧ a.dialect = r.dialect := by
  have misses : c.uncached.Misses r := fun _ stored => nomatch stored
  cases outcome : c.fresh r with
  | error fault =>
    obtain ⟨metrics, t, compiled⟩ := compile_of_error misses outcome m
    rw [compiled] at succeeded
    cases succeeded
  | ok rendered =>
    obtain ⟨n, metrics, t, e, context, t', _, _, compiled⟩ := compile_of_ok misses outcome m
    rw [compiled] at succeeded
    cases succeeded
    exact ⟨rfl, rfl, rfl⟩

omit [Cache.Storage σ] in
/-- The place of the warnings tells the name under which a source was compiled. -/
theorem inFile_eq_iff {a : Rendered} (compiled : c.fresh r = .ok a) (name : String) :
    a.inFile name = a ↔ a.warnings = [] ∨ name = r.name := by
  have own : a.inFile r.name = a := Options.compile_inFile compiled
  constructor
  · intro same
    cases listed : a.warnings with
    | nil => exact .inl rfl
    | cons w rest =>
      have files : (w.inFile name).loc.file = (w.inFile r.name).loc.file := by
        have warnings := congrArg Rendered.warnings (same.trans own.symm)
        simp only [Rendered.inFile, listed, map_cons] at warnings
        rw [(List.cons.inj warnings).1]
      exact .inr files
  · rintro (none | rfl)
    · rw [Rendered.inFile, none, map_nil, ← none]
    · exact own

/-- Any requests are made of a compiler whose store is faithful and empty at first, and the hash tells
the last request from those before it.  If the request fails without a store, it fails in the same way
with it, and the store stays as it is.  Otherwise it is answered with the rendering of the first request
for its source in its dialect.  The text is the right one; the warnings are the right ones just if there
are none or that first request had the same name. -/
theorem answers_as_first_alike [Cache.Faithful σ] (c : Compiler σ) {store : σ} (stored : c.store = some store)
    (empty : Cache.Holds store fun _ => none) (history : List (Request × Moment)) (r : Request) (m : Moment)
    (apart : c.HashTellsApart (history.map Prod.fst) r) :
    (∀ d, (c.uncached.compile r m).1 = .error d → ((c.after history).compile r m).1 = .error d ∧
      ((c.after history).compile r m).2.1.store = (c.after history).store) ∧
    ∀ a, (c.uncached.compile r m).1 = .ok a →
      ∃ b, ((c.after history).compile r m).1 = .ok b ∧ b.name = a.name ∧ b.dialect = a.dialect ∧
        b.rendered = a.rendered.inFile (firstAlike (history.map Prod.fst) r).name ∧
        (b.rendered = a.rendered ↔ a.rendered.warnings = [] ∨ (firstAlike (history.map Prod.fst) r).name = r.name) := by
  constructor
  · intro d failed
    exact compile_after_of_error stored empty history m apart (fresh_of_uncached_error failed)
  · intro a succeeded
    obtain ⟨compiled, name, dialect⟩ := fresh_of_uncached_ok succeeded
    obtain ⟨n, cached, served⟩ := compile_after_of_ok stored empty history m apart compiled
    exact ⟨_, served, name.symm, dialect.symm, rfl, inFile_eq_iff compiled _⟩

/-! A compiler that warns of almost every line, and one source under two names. -/

def narrow : Compiler Cache.Store where
  options := { layout := { width := 10 } }
  store := some (.memory {})

def givenIn (name : String) : Request where
  name := name
  source := "given A"

def noon : Moment where
  runId := "run"
  now := 0
  elapsed := "0s"

/-- The rendering of the source, which has a line of eleven characters. -/
def givenRendered (name : String) : Rendered where
  text := "\\begin\x7bzed\x7d\n[A]\n\\end\x7bzed\x7d\n"
  warnings := [⟨⟨name, 1, 1⟩, "line 1 of given type is 11 characters long (limit 10)"⟩]

theorem narrow_empty : Cache.Holds (.memory {} : Cache.Store) fun _ => none := fun _ => rfl

theorem narrow_apart (names : List String) (name : String) :
    narrow.HashTellsApart (names.map givenIn) (givenIn name) := by
  intro q member _
  obtain ⟨other, _, rfl⟩ := mem_map.mp member
  rw [materialFor_eq, materialFor_eq]
  rfl

theorem fresh_givenIn_b : narrow.fresh (givenIn "b.zed") = .ok (givenRendered "b.zed") := by
  have found : (narrow.fresh (givenIn "b.zed")).toOption = some (givenRendered "b.zed") := by decide +kernel
  generalize narrow.fresh (givenIn "b.zed") = outcome at found ⊢
  cases outcome with
  | error d => cases found
  | ok a => exact congrArg Except.ok (Option.some.inj found)

theorem firstAlike_givenIn (first : String) (rest : List String) (name : String) :
    firstAlike ((first :: rest).map givenIn) (givenIn name) = givenIn first := by
  have like : alike (givenIn name) (givenIn first) = true := by simp [alike, givenIn]
  rw [firstAlike, map_cons, List.find?_cons_of_pos like]
  rfl

theorem thirdRequest_answered_as_first :
    ∃ b, ((narrow.after [(givenIn "a.zed", noon), (givenIn "b.zed", noon)]).compile (givenIn "b.zed") noon).1 = .ok b ∧
      b.rendered = givenRendered "a.zed" := by
  have misses : narrow.uncached.Misses (givenIn "b.zed") := fun _ stored => nomatch stored
  obtain ⟨n, metrics, t, e, context, t', _, _, compiled⟩ := compile_of_ok misses fresh_givenIn_b noon
  obtain ⟨b, served, _, _, rendered, _⟩ := (answers_as_first_alike narrow rfl narrow_empty
    [(givenIn "a.zed", noon), (givenIn "b.zed", noon)] (givenIn "b.zed") noon
    (narrow_apart ["a.zed", "b.zed"] "b.zed")).2 _ (congrArg Prod.fst compiled)
  have first : firstAlike [givenIn "a.zed", givenIn "b.zed"] (givenIn "b.zed") = givenIn "a.zed" :=
    firstAlike_givenIn "a.zed" ["b.zed"] "b.zed"
  refine ⟨b, served, rendered.trans ?_⟩
  rw [map_cons, map_cons, map_nil, first]
  rfl

/-- The warnings of a source that was compiled under another name before are placed in a file of that name. -/
theorem warnings_of_other_file : ∃ a b, (narrow.uncached.compile (givenIn "b.zed") noon).1 = .ok a ∧
      ((narrow.after [(givenIn "a.zed", noon)]).compile (givenIn "b.zed") noon).1 = .ok b ∧
      a.rendered.warnings.map Warning.text = ["b.zed:1:1: line 1 of given type is 11 characters long (limit 10)"] ∧
      b.rendered.warnings.map Warning.text = ["a.zed:1:1: line 1 of given type is 11 characters long (limit 10)"] := by
  have misses : narrow.uncached.Misses (givenIn "b.zed") := fun _ stored => nomatch stored
  obtain ⟨n, metrics, t, e, context, t', _, _, compiled⟩ := compile_of_ok misses fresh_givenIn_b noon
  obtain ⟨n', cached, served⟩ := compile_after_of_ok rfl narrow_empty [(givenIn "a.zed", noon)] noon
    (narrow_apart ["a.zed"] "b.zed") fresh_givenIn_b
  have first : firstAlike [givenIn "a.zed"] (givenIn "b.zed") = givenIn "a.zed" := firstAlike_givenIn "a.zed" [] "b.zed"
  have own : (givenRendered "b.zed").warnings.map Warning.text =
      ["b.zed:1:1: line 1 of given type is 11 characters long (limit 10)"] := by decide
  have other : (givenRendered "a.zed").warnings.map Warning.text =
      ["a.zed:1:1: line 1 of given type is 11 characters long (limit 10)"] := by decide
  rw [map_cons, map_nil, first] at served
  exact ⟨_, _, congrArg Prod.fst compiled, served, own, other⟩

end Compiler
end Whiteboard
