import Whiteboard.Command
import Whiteboard.Proofs.Cache.Transparency
import Whiteboard.Proofs.Settings.Field

namespace Whiteboard

open List Text

/-!
# Where the results of a batch go

A batch writes the result of each input to a file.  The path of that file has neither the extension of the input nor,
under an output directory, the directories before its name, so several inputs may go to one file.  Nothing is told
then: the file holds the result of the last of them that succeeded.
-/

namespace Files

/-- A file is written: directories stay, and no text changes but the one that the path leads to. -/
structure Writes (fs : Files) (path text : String) (fs' : Files) : Prop where
  dirs : ∀ place, fs.isDir place = true → fs'.isDir place = true
  written : ∃ place, fs'.locate path = .ok place ∧
    ∀ other, fs'.texts.lookup other = if other = place then some text else fs.texts.lookup other

/-- Files are written one after the other; a result that failed has none. -/
inductive WritesAll : Files → List (Option (String × String)) → Files → Prop
  | nil {fs} : WritesAll fs [] fs
  | skip {fs results fs'} : WritesAll fs results fs' → WritesAll fs (none :: results) fs'
  | write {fs path text fs₁ results fs'} : Writes fs path text fs₁ → WritesAll fs₁ results fs' →
      WritesAll fs (some (path, text) :: results) fs'

variable {fs fs' : Files} {path text : String}

theorem follow_of_dirs (dirs : ∀ place, fs.isDir place = true → fs'.isDir place = true) {parts : List String}
    {at_ place : List String} (found : fs.follow at_ parts = .ok place) : fs'.follow at_ parts = .ok place := by
  induction parts generalizing at_ with
  | nil => exact found
  | cons part rest ih =>
    rw [follow] at found ⊢
    split at found
    next here => grind
    next => split at found <;> cases found

theorem locate_of_dirs (dirs : ∀ place, fs.isDir place = true → fs'.isDir place = true) {place : List String}
    (found : fs.locate path = .ok place) : fs'.locate path = .ok place := by
  rw [locate] at found ⊢
  split at found
  next => cases found
  next some => rw [if_neg some, follow_of_dirs dirs found]

theorem read_eq_ok_iff :
    fs.read path = .ok text ↔ ∃ place, fs.locate path = .ok place ∧ fs.texts.lookup place = some text := by
  unfold read
  dsimp only
  cases fs.locate path with
  | error fault => simp
  | ok place => grind

theorem lookup_filter_ne (texts : List (List String × String)) (place other : List String) :
    (texts.filter fun f => f.1 != place).lookup other = if other = place then none else texts.lookup other := by
  induction texts with
  | nil => simp
  | cons f rest ih => grind

theorem writes_of_write (done : fs.write path text = .ok fs') : Writes fs path text fs' := by
  unfold write at done
  cases found : fs.locate path with
  | error fault =>
    rw [found] at done
    cases done
  | ok place =>
    rw [found] at done
    dsimp only at done
    split at done
    next => cases done
    next =>
      split at done
      next => cases done
      next =>
        have dirs : ∀ place, fs.isDir place = true → fs'.isDir place = true := by
          cases done
          exact fun _ dir => dir
        refine ⟨dirs, place, locate_of_dirs dirs found, fun other => ?_⟩
        cases done
        rw [lookup_cons, lookup_filter_ne]
        split
        next same => rw [if_pos (eq_of_beq same)]
        next apart => rw [if_neg (ne_of_beq_false apart), if_neg (ne_of_beq_false apart)]

theorem makeDirs_grows {dir : String} (made : fs.makeDirs dir = .ok fs') :
    fs'.texts = fs.texts ∧ ∀ place, fs.isDir place = true → fs'.isDir place = true := by
  unfold makeDirs at made
  split at made
  next => cases made
  next =>
    cases made
    refine ⟨rfl, fun place dir => ?_⟩
    simp only [isDir, addDir, Bool.or_eq_true, contains_iff_mem] at dir ⊢
    exact dir.imp_right fun member => mem_append_right _ (mem_cons_of_mem _ member)

/-! ## One file after the other -/

/-- The file that a path leads to holds the last of the results, from position `i` on, that went to it. -/
def HoldsLast (fs : Files) (results : List (Option (String × String))) (i : Nat) (path : String) : Prop :=
  ∃ (j : Nat) (other text : String), i ≤ j ∧ results[j]? = some (some (other, text)) ∧
    fs.locate other = fs.locate path ∧
    (∀ (k : Nat) later t, j < k → results[k]? = some (some (later, t)) → fs.locate later ≠ fs.locate path) ∧
    fs.read path = .ok text

variable {results : List (Option (String × String))} {i : Nat}

theorem HoldsLast.cons (holds : HoldsLast fs results i path) (first : Option (String × String)) :
    HoldsLast fs (first :: results) (i + 1) path := by
  rcases holds with ⟨j, other, text, after, found, same, last, read⟩
  refine ⟨j + 1, other, text, Nat.succ_le_succ after, found, same, fun k later t behind found' => ?_, read⟩
  cases k with
  | zero => cases behind
  | succ k => exact last k later t (Nat.lt_of_succ_lt_succ behind) found'

theorem WritesAll.dirs (all : WritesAll fs results fs') : ∀ place, fs.isDir place = true → fs'.isDir place = true := by
  induction all with
  | nil => exact fun _ dir => dir
  | skip _ ih => exact ih
  | write first _ ih => exact fun place dir => ih place (first.dirs place dir)

/-- A file that no result goes to stays as it is. -/
theorem WritesAll.lookup_eq (all : WritesAll fs results fs') {place : List String}
    (spared : ∀ (k : Nat) path text, results[k]? = some (some (path, text)) → fs'.locate path ≠ .ok place) :
    fs'.texts.lookup place = fs.texts.lookup place := by
  induction all with
  | nil => rfl
  | skip _ ih => exact ih fun k => spared (k + 1)
  | write first rest ih =>
    rcases first.written with ⟨there, found, texts⟩
    have apart : place ≠ there := by
      rintro rfl
      exact spared 0 _ _ rfl (locate_of_dirs rest.dirs found)
    rw [ih fun k => spared (k + 1), texts, if_neg apart]

/-- Every file that is written holds the last result that went to it. -/
theorem WritesAll.holdsLast (all : WritesAll fs results fs') (found : results[i]? = some (some (path, text))) :
    HoldsLast fs' results i path := by
  induction all generalizing i path text with
  | nil => cases found
  | skip _ ih =>
    cases i with
    | zero => cases found
    | succ i => exact (ih found).cons none
  | @write fs first firstText fs₁ results fs' writes rest ih =>
    cases i with
    | succ i => exact (ih found).cons _
    | zero =>
      cases found
      by_cases again : ∃ (k : Nat) (later t : String), results[k]? = some (some (later, t)) ∧
          fs'.locate later = fs'.locate first
      · rcases again with ⟨k, later, t, found, alike⟩
        rcases (ih found).cons (some (first, firstText)) with ⟨j, other, last, _, found, same, final, read⟩
        rcases read_eq_ok_iff.mp read with ⟨place, located, held⟩
        rw [alike] at same final located
        exact ⟨j, other, last, Nat.zero_le j, found, same, final, read_eq_ok_iff.mpr ⟨place, located, held⟩⟩
      · rcases writes.written with ⟨place, located, texts⟩
        have located := locate_of_dirs rest.dirs located
        have spared : ∀ (k : Nat) later t, results[k]? = some (some (later, t)) → fs'.locate later ≠ .ok place :=
          fun k later t found there => again ⟨k, later, t, found, there.trans located.symm⟩
        refine ⟨0, first, firstText, Nat.le_refl 0, rfl, rfl, fun k later t behind found there => ?_, ?_⟩
        · grind
        · exact read_eq_ok_iff.mpr ⟨place, located, by rw [rest.lookup_eq spared, texts, if_pos rfl]⟩

end Files

namespace Command

/-! ## The path of a result -/

theorem Desk.writes_of_write {d d' : Desk} {path text : String} (done : d.write path text = .ok d') :
    d.files.Writes path text d'.files := by
  unfold Desk.write at done
  dsimp only at done
  split at done
  next =>
    rcases bind_eq_ok.mp done with ⟨_, start, done⟩
    rcases bind_eq_ok.mp done with ⟨files, written, done⟩
    cases done
    cases start
    exact Files.writes_of_write (mapError_eq_ok written)
  next =>
    rcases bind_eq_ok.mp done with ⟨files, made, done⟩
    rcases bind_eq_ok.mp done with ⟨files', written, done⟩
    cases done
    have writes := Files.writes_of_write (mapError_eq_ok written)
    rcases Files.makeDirs_grows (mapError_eq_ok made) with ⟨texts, dirs⟩
    refine ⟨fun place dir => writes.dirs place (dirs place dir), ?_⟩
    rw [← texts]
    exact writes.written

namespace CompileRun

variable {c : CompileRun}

/-- The path and the text of the result for an input, if it was delivered. -/
def result (c : CompileRun) (input : String) (r : CompileReport) : Option (String × String) :=
  if r.error.isSome then none else (outputPath input c.multi c.output).toOption.join.map (·, r.output)

/-- The text is what the compiler makes of the source of an input. -/
def Makes (c : CompileRun) (d : Desk) (compiler : Compiler Cache.Store) (input text : String) : Prop :=
  ∃ source name d' compiled, c.source d input = (.ok source, name, d') ∧
    (compiler.compile ⟨name, source, compiler.options.layout.dialect⟩ c.host.moment).1 = .ok compiled ∧
    text = compiled.rendered.text

/-- A batch: there are several inputs, and their results go to files. -/
structure IsBatch (c : CompileRun) : Prop where
  multi : c.multi = true
  printed : c.printed = true
  toFiles : c.output ≠ "-"

theorem files_source (c : CompileRun) (d : Desk) (input : String) : (c.source d input).2.2.files = d.files := by
  unfold source Desk.read
  split
  · split <;> rfl
  · grind

/-- One input: it fails and no file changes, or its file is written. -/
inductive Takes (c : CompileRun) (d : Desk) (compiler : Compiler Cache.Store) (input : String) :
    CompileReport → Files → Prop
  | failed {report fs} : report.error.isSome = true → fs = d.files → Takes c d compiler input report fs
  | wrote {report path fs} : report.error = none → outputPath input c.multi c.output = .ok (some path) →
      c.Makes d compiler input report.output → d.files.Writes path report.output fs →
      Takes c d compiler input report fs

theorem exists_path (batch : c.IsBatch) {input : String} (named : input ≠ "-") {target : Option String}
    (found : outputPath input c.multi c.output = .ok target) : ∃ path, target = some path := by
  unfold outputPath at found
  rw [if_neg (by simpa using batch.toFiles), batch.multi, if_neg (by simp), if_neg (by simpa using named)] at found
  rcases bind_eq_ok.mp found with ⟨tex, _, found⟩
  cases found
  exact ⟨_, rfl⟩

theorem takes_one (batch : c.IsBatch) (d : Desk) (compiler : Compiler Cache.Store) {input : String}
    (named : input ≠ "-") :
    c.Takes d compiler input (c.one d compiler input).1 (c.one d compiler input).2.1.files ∧
      ∃ history, (c.one d compiler input).2.2 = compiler.after history := by
  have kept := c.files_source d input
  unfold one
  rcases found : c.source d input with ⟨outcome, name, d₁⟩
  rw [found] at kept
  have kept : d₁.files = d.files := kept
  rw [batch.printed]
  cases outcome with
  | error f => exact ⟨.failed rfl kept, [], rfl⟩
  | ok source =>
    let request : Request := ⟨name, source, compiler.options.layout.dialect⟩
    rcases ran : compiler.compile request c.host.moment with ⟨result, compiler', telemetry⟩
    have after : compiler' = compiler.after [(request, c.host.moment)] := by
      rw [Compiler.after, foldl_cons, foldl_nil, ran]
    dsimp only
    rw [ran]
    cases result with
    | error e => exact ⟨.failed rfl kept, _, after⟩
    | ok r =>
      have makes : c.Makes d compiler input r.rendered.text := ⟨source, name, d₁, r, found, by rw [ran], rfl⟩
      dsimp only
      rw [if_neg (by simp)]
      generalize told : ((d₁.log c.logger telemetry.notes).tell
        (String.join (r.rendered.warnings.map Report.warning))) = d₂
      have kept : d₂.files = d.files := told ▸ kept
      cases delivered : c.deliver d₂ input r.rendered.text with
      | error f => exact ⟨.failed rfl kept, _, after⟩
      | ok d₃ =>
        rcases bind_eq_ok.mp delivered with ⟨target, goes, delivered⟩
        rcases exists_path batch named goes with ⟨path, rfl⟩
        rcases bind_eq_ok.mp delivered with ⟨d₄, written, delivered⟩
        have same : d₃.files = d₄.files := by
          cases delivered
          split <;> rfl
        have writes := Desk.writes_of_write written
        rw [kept, ← same] at writes
        exact ⟨.wrote rfl goes makes writes, _, after⟩

/-- What a batch does: each input in turn, on the desk that those before it left. -/
theorem batch_all (batch : c.IsBatch) (bar : Option Progress) (d : Desk) (compiler : Compiler Cache.Store)
    {inputs : List String} (named : "-" ∉ inputs) :
    (c.all bar d compiler inputs).1.length = inputs.length ∧
    d.files.WritesAll (List.zipWith c.result inputs (c.all bar d compiler inputs).1)
      (c.all bar d compiler inputs).2.2.files ∧
    ∀ (i : Nat) input report, inputs[i]? = some input → (c.all bar d compiler inputs).1[i]? = some report →
      report.error = none → ∃ path history, outputPath input c.multi c.output = .ok (some path) ∧
        c.Makes (c.all bar d compiler (inputs.take i)).2.2 (compiler.after history) input report.output := by
  induction inputs generalizing bar d compiler with
  | nil => exact ⟨rfl, .nil, fun _ _ _ found => nomatch found⟩
  | cons input rest ih =>
    have ⟨here, later⟩ := not_or.mp (mt mem_cons.mpr named)
    rcases takes_one batch d compiler (Ne.symm here) with ⟨takes, history, after⟩
    rcases step : c.one d compiler input with ⟨report, d₁, compiler₁⟩
    rw [step] at takes after
    dsimp only at takes after
    obtain ⟨bar', d₂, same, unfolded⟩ : ∃ bar' d₂, d₂.files = d₁.files ∧ ∀ inputs,
        c.all bar d compiler (input :: inputs) =
          (report :: (c.all bar' d₂ compiler₁ inputs).1, (c.all bar' d₂ compiler₁ inputs).2) :=
      ⟨_, d₁.tell _, rfl, fun inputs => by rw [all, step]⟩
    rcases ih bar' d₂ compiler₁ later with ⟨length, writes, each⟩
    rw [unfolded]
    refine ⟨congrArg (· + 1) length, ?_, fun i => ?_⟩
    · rw [zipWith_cons_cons, result]
      rw [same] at writes
      cases takes with
      | failed error kept =>
        rw [if_pos error]
        exact .skip (kept ▸ writes)
      | wrote none goes _ written =>
        rw [if_neg (by simp [none]), goes]
        exact .write written writes
    · cases i with
      | zero =>
        intro _ _ first first' none
        cases first
        cases first'
        cases takes with
        | failed error => simp [none] at error
        | wrote _ goes makes _ => exact ⟨_, [], goes, makes⟩
      | succ i =>
        intro other report' found found' none
        rcases each i other report' found found' none with ⟨path, more, goes, makes⟩
        have joined : compiler₁.after more = compiler.after (history ++ more) := by
          rw [after]
          exact foldl_append.symm
        refine ⟨path, history ++ more, goes, ?_⟩
        rw [← joined, take_succ_cons, unfolded]
        exact makes

end CompileRun

/-! ## Inputs that share a file -/

theorem exists_pieces {p : Char → Bool} {c : Char} (splits : p c = true) (front : List Char) : ∃ piece pieces,
    ∀ back, splitWhere p (front ++ c :: back) = piece :: (pieces ++ splitWhere p back) := by
  induction front with
  | nil => exact ⟨[], [], fun back => by rw [nil_append, splitWhere, if_pos splits, nil_append]⟩
  | cons d front ih =>
    rcases ih with ⟨piece, pieces, cut⟩
    by_cases again : p d = true
    · exact ⟨[], piece :: pieces, fun back => by rw [cons_append, splitWhere, if_pos again, cut]; rfl⟩
    · exact ⟨d :: piece, pieces, fun back => by rw [cons_append, splitWhere, if_neg again, cut]⟩

theorem exists_front (parts : List String) : ∃ front, ∀ last, joinWith "/" (parts ++ [last]) = front ++ last := by
  induction parts with
  | nil => exact ⟨"", fun last => by simp [joinWith]⟩
  | cons part rest ih =>
    rcases ih with ⟨front, joined⟩
    refine ⟨part ++ "/" ++ front, fun last => ?_⟩
    have next : ∃ next others, rest ++ [last] = next :: others := by cases rest <;> exact ⟨_, _, rfl⟩
    rcases next with ⟨next, others, split⟩
    rw [cons_append, String.append_assoc, ← joined, split, joinWith, String.intercalate_cons_cons]
    rfl

/-- A part of a path that is kept as it is. -/
structure IsName (name : String) : Prop where
  slashless : ∀ c ∈ name.toList, (c == '/') = false
  long : 2 < name.toList.length

theorem isName_base (s : String) : IsName (Path.base (s ++ ".tex")) := by
  have kept : dropTrailing (· == '/') (s ++ ".tex").toList = s.toList ++ ['.', 't', 'e', 'x'] := by
    rw [String.toList_append]
    exact dropTrailing_eq_self (by simp)
  have base : (Path.base (s ++ ".tex")).toList =
      (s.toList.reverse.takeWhile (· != '/')).reverse ++ ['.', 't', 'e', 'x'] := by
    unfold Path.base
    rw [if_neg (by simp), kept]
    simp
  refine ⟨fun c member => ?_, by simp [base]⟩
  rw [base] at member
  rcases mem_append.mp member with front | back
  · simpa using all_eq_true.mp all_takeWhile c (mem_reverse.mp front)
  · have plain : (['.', 't', 'e', 'x'].all fun c => !(c == '/')) = true := rfl
    simpa using all_eq_true.mp plain c back

theorem IsName.ne {name : String} (is : IsName name) (short : String) (few : short.toList.length ≤ 2) :
    name ≠ short := by
  rintro rfl
  exact absurd is.long (Nat.not_lt.mpr few)

theorem IsName.addPart_eq {name : String} (is : IsName name) (rooted : Bool) (seen : List String) :
    Path.addPart rooted seen name = name :: seen := by
  unfold Path.addPart
  rw [if_neg (by simp [is.ne "" (by decide), is.ne "." (by decide)]), if_neg (by simp [is.ne ".." (by decide)])]

/-- Under a directory, a name stands behind the same front as every other. -/
theorem exists_join_eq {output : String} (some : output.isEmpty = false) :
    ∃ front, ∀ name, IsName name → Path.join output name = front ++ name := by
  rcases exists_pieces (p := (· == '/')) (c := '/') rfl output.toList with ⟨piece, pieces, cut⟩
  let above := (((piece :: pieces).map String.ofList).foldl (Path.addPart (Path.isRooted output)) []).reverse
  rcases exists_front above with ⟨front, joined⟩
  refine ⟨(if Path.isRooted output then "/" else "") ++ front, fun name is => ?_⟩
  have whole : (output ++ "/" ++ name).toList = output.toList ++ '/' :: name.toList := by simp
  have rooted : Path.isRooted (output ++ "/" ++ name) = Path.isRooted output := by
    rw [Path.isRooted, whole, Path.isRooted, List.head?_append_of_ne_nil _ (by simpa using some)]
  have parts : Path.parts (output ++ "/" ++ name) = (piece :: pieces).map String.ofList ++ [name] := by
    rw [Path.parts, whole, cut, splitWhere_eq_self is.slashless]
    simp
  have clean : Path.cleanParts (output ++ "/" ++ name) = above ++ [name] := by
    rw [Path.cleanParts, rooted, parts, foldl_append, foldl_cons, foldl_nil, is.addPart_eq, reverse_cons]
  have visible : ¬(front ++ name).isEmpty = true := by simp [is.ne "" (by decide)]
  unfold Path.join Path.clean
  rw [rooted, clean, joined, some, if_neg (by simp), if_neg (by simp), if_neg (by simp [is.ne "" (by decide)])]
  dsimp only
  rw [if_neg visible]
  split <;> simp [String.append_assoc]

/-- Inputs have the same path for their results just if they have the same stem or, under an output directory, the same
name of the result. -/
theorem outputPath_eq_iff {output x y path path' : String} (toFiles : output ≠ "-")
    (goes : outputPath x true output = .ok (some path)) (goes' : outputPath y true output = .ok (some path')) :
    path = path' ↔ if output.isEmpty then Path.stem x = Path.stem y
      else Path.base (Path.stem x ++ ".tex") = Path.base (Path.stem y ++ ".tex") := by
  have path {input path : String} (goes : outputPath input true output = .ok (some path)) :
      path = if output.isEmpty then Path.stem input ++ ".tex"
        else Path.join output (Path.base (Path.stem input ++ ".tex")) := by
    unfold outputPath at goes
    rw [if_neg (by simpa using toFiles), if_neg (by simp)] at goes
    split at goes
    next => cases goes
    next =>
      rcases bind_eq_ok.mp goes with ⟨tex, found, goes⟩
      unfold texPath at found
      split at found
      next => cases found
      next =>
        rw [← Except.ok.inj found] at goes
        exact (Option.some.inj (Except.ok.inj goes)).symm
  rw [path goes, path goes']
  split
  next => exact String.append_left_inj _
  next some => grind [exists_join_eq, isName_base, String.append_right_inj]

/-! ## The batch -/

/-- The run of a batch in text mode. -/
def batchRun (h : Host) (a : Arguments) (t : Tools) : CompileRun where
  host := h
  logger := t.logger
  multi := true
  printed := true
  output := a.text "output"
  quiet := a.switch "progress"
  rev := a.text "rev"

theorem all_of_compile {h : Host} {a : Arguments} {d d' : Desk} {ending : Ending}
    (asText : OutputFormat.choose (a.text "format" "text") ["text", "json"] = .ok "text")
    (several : 1 < a.rest.length) (done : compile h a d = .ok (d', ending)) :
    ∃ s s' t bar d₀, settings h a = .ok s ∧ compileSettings s a = .ok s' ∧ tools s' = .ok t ∧ d₀.files = d.files ∧
      d'.files = ((batchRun h a t).all bar d₀ t.compiler a.rest).2.2.files := by
  have some : (if a.rest.isEmpty then ["-"] else a.rest) = a.rest := by grind
  unfold compile at done
  rw [asText] at done
  simp only [some, decide_eq_true several] at done
  rcases bind_eq_ok.mp done with ⟨format, chosen, done⟩
  cases chosen
  rw [if_neg (by simp)] at done
  rcases bind_eq_ok.mp done with ⟨s, loaded, done⟩
  rcases bind_eq_ok.mp done with ⟨s', changed, done⟩
  rcases bind_eq_ok.mp done with ⟨t, made, done⟩
  split at done
  next => cases done
  next =>
    cases done
    exact ⟨s, s', t, _, d.tell _, loaded, changed, made, rfl, rfl⟩

/-- After a batch, every input that was compiled has a file.  Its text was made by the compiler from the source of the
input as it was found in its turn; the file holds that text or, if later results went to the same file, the last. -/
def KeepsLast (c : CompileRun) (bar : Option Progress) (d : Desk) (compiler : Compiler Cache.Store)
    (inputs : List String) (fs : Files) : Prop :=
  let reports := (c.all bar d compiler inputs).1
  let results := List.zipWith c.result inputs reports
  reports.length = inputs.length ∧
  ∀ (i : Nat) input report, inputs[i]? = some input → reports[i]? = some report → report.error = none →
    ∃ path history, outputPath input c.multi c.output = .ok (some path) ∧
      c.Makes (c.all bar d compiler (inputs.take i)).2.2 (compiler.after history) input report.output ∧
      results[i]? = some (some (path, report.output)) ∧ fs.HoldsLast results i path

/-- A batch keeps the last result of each file.  Inputs go to the same path just if they have the same stem or, under an
output directory, the same name for their result. -/
theorem batch_keeps_last_result {h : Host} {a : Arguments} {d d' : Desk} {ending : Ending}
    (asText : OutputFormat.choose (a.text "format" "text") ["text", "json"] = .ok "text")
    (several : 1 < a.rest.length) (named : "-" ∉ a.rest) (toFiles : a.text "output" ≠ "-")
    (done : compile h a d = .ok (d', ending)) :
    (∃ s s' t bar d₀, settings h a = .ok s ∧ compileSettings s a = .ok s' ∧ tools s' = .ok t ∧ d₀.files = d.files ∧
      d'.files = ((batchRun h a t).all bar d₀ t.compiler a.rest).2.2.files ∧
      KeepsLast (batchRun h a t) bar d₀ t.compiler a.rest d'.files) ∧
    ∀ x y path path', outputPath x true (a.text "output") = .ok (some path) →
      outputPath y true (a.text "output") = .ok (some path') →
      (path = path' ↔ if (a.text "output").isEmpty then Path.stem x = Path.stem y
        else Path.base (Path.stem x ++ ".tex") = Path.base (Path.stem y ++ ".tex")) := by
  refine ⟨?_, fun x y path path' => outputPath_eq_iff toFiles⟩
  rcases all_of_compile asText several done with ⟨s, s', t, bar, d₀, loaded, changed, made, before, after⟩
  rcases (batchRun h a t).batch_all ⟨rfl, rfl, toFiles⟩ bar d₀ t.compiler named with ⟨length, writes, each⟩
  refine ⟨s, s', t, bar, d₀, loaded, changed, made, before, after, length, fun i input report found found' none => ?_⟩
  rcases each i input report found found' none with ⟨path, history, goes, makes⟩
  have delivered : (List.zipWith (batchRun h a t).result a.rest
      ((batchRun h a t).all bar d₀ t.compiler a.rest).1)[i]? = some (some (path, report.output)) := by
    rw [List.getElem?_zipWith, found, found']
    simp [CompileRun.result, none, goes, Except.toOption]
  exact ⟨path, history, goes, makes, delivered, after ▸ writes.holdsLast delivered⟩

/-- Two texts in two directories, and no cache; no schedule and no settings file can be read. -/
def twoTexts : Host where
  notations := ⟨fun _ => false, fun _ _ => none, fun _ _ => none⟩
  files := Files.ofTexts [("x/a.txt", "TEXT: p"), ("y/a.txt", "TEXT: q")]
  env := fun name => if name == "ZEDTEX_CACHE_ENABLED" then "false" else ""

theorem two_texts_kept : ∃ d' ending t bar d₀,
    compile twoTexts { rest := ["x/a.txt", "y/a.txt"] } (.ofHost twoTexts) = .ok (d', ending) ∧
    d'.err = "wrote x/a.tex\nwrote y/a.tex\n" ∧
    KeepsLast (batchRun twoTexts { rest := ["x/a.txt", "y/a.txt"] } t) bar d₀ t.compiler ["x/a.txt", "y/a.txt"]
      d'.files := by
  have told : (compile twoTexts { rest := ["x/a.txt", "y/a.txt"] } (.ofHost twoTexts)).toOption.map (·.1.err) =
      some "wrote x/a.tex\nwrote y/a.tex\n" := by
    unfold compile settings Settings.loadWith
    rw [Settings.withEnvironment_eq_byCapitals]
    decide +kernel
  cases done : compile twoTexts { rest := ["x/a.txt", "y/a.txt"] } (.ofHost twoTexts) with
  | error f =>
    rw [done] at told
    cases told
  | ok result =>
    rw [done] at told
    rcases (batch_keeps_last_result (by decide) (by decide) (by decide) (by decide) done).1 with
      ⟨_, _, t, bar, d₀, _, _, _, _, _, kept⟩
    exact ⟨_, _, t, bar, d₀, rfl, Option.some.inj told, kept⟩

/-- Both texts go to one file under an output directory, and only the second is kept. -/
theorem first_text_lost : outputPath "x/a.txt" true "build" = .ok (some "build/a.tex") ∧
    outputPath "y/a.txt" true "build" = .ok (some "build/a.tex") ∧
    let o := run twoTexts ["compile", "x/a.txt", "y/a.txt", "-o", "build"]
    (o.exit, o.err, o.written) = (0, "wrote build/a.tex\nwrote build/a.tex\n", [("build/a.tex", "q\n")]) := by
  refine ⟨by decide, by decide, ?_⟩
  -- The definitions are opened for all words, so that nothing is run before the names are exchanged.
  have ran (words : List String) : run twoTexts words = run twoTexts words := rfl
  conv at ran =>
    intro words
    rhs
    unfold run Invocation.run compile settings Settings.loadWith
    rw [Settings.withEnvironment_eq_byCapitals]
  dsimp only
  rw [ran]
  decide +kernel

end Command
end Whiteboard
