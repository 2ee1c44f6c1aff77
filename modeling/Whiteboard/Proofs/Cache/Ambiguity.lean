import Whiteboard.Proofs.Cache.Key

namespace Whiteboard

open List Text
namespace Cache

/-!
# Compilations that share their key material

A null character ends each part of the material, and commas stand between the words of a list, but a part may
hold null characters and a word may hold commas of its own.  So the material tells less than its parts: only
the pieces that all parts fall into at their null characters.  Where versions and words have none of these, it
tells everything but where one word ends and the next begins, as a comma inside a word looks like one between
two words, and no words look like one empty word.
-/

theorem splitOn_inj {sign : Char} {cs ds : List Char} (same : cs.splitOn sign = ds.splitOn sign) : cs = ds := by
  have joined := congrArg [sign].intercalate same
  rwa [intercalate_splitOn, intercalate_splitOn] at joined

/-! ## Null characters -/

/-- The pieces of a text between its null characters. -/
def nullPieces (s : String) : List (List Char) := s.toList.splitOn '\x00'

/-- The characters of parts with a null character after each. -/
def ended (parts : List String) : List Char := parts.flatMap fun part => part.toList ++ ['\x00']

theorem splitOn_ended (parts : List String) : (ended parts).splitOn '\x00' = parts.flatMap nullPieces ++ [[]] := by
  induction parts with
  | nil => rfl
  | cons part rest ih =>
    have first : ended (part :: rest) = part.toList ++ '\x00' :: ended rest := by simp [ended]
    rw [first, splitOn_append_cons_self, ih, flatMap_cons, append_assoc]
    rfl

theorem keyMaterial_eq_encoded (version : String) (o : Options) (source : String) :
    keyMaterial version o source = (ended (keyParts version o source)).flatMap String.utf8EncodeChar := by
  rw [keyMaterial, ended, flatMap_assoc]
  congr 1
  funext part
  rw [utf8_toList, flatMap_append]
  rfl

theorem encoded_inj {cs ds : List Char}
    (same : cs.flatMap String.utf8EncodeChar = ds.flatMap String.utf8EncodeChar) : cs = ds := by
  have bytes : (String.ofList cs).toUTF8.toList = (String.ofList ds).toUTF8.toList := by
    rw [utf8_toList, utf8_toList, String.toList_ofList, String.toList_ofList, same]
  exact String.ofList_injective (utf8_toList_inj bytes)

variable {version version' : String} {o : Options}

/-- The material tells the pieces of its parts, and nothing else. -/
theorem keyMaterial_eq_iff_pieces {o' : Options} {source source' : String} :
    keyMaterial version o source = keyMaterial version' o' source' ↔
      (keyParts version o source).flatMap nullPieces = (keyParts version' o' source').flatMap nullPieces := by
  rw [keyMaterial_eq_encoded, keyMaterial_eq_encoded]
  constructor
  · grind [encoded_inj, splitOn_ended, append_cancel_right]
  · grind [splitOn_inj, splitOn_ended]

/-! ## Commas -/

/-- The pieces of words between their commas.  No words have the pieces of one empty word. -/
def wordPieces (words : List String) : List (List Char) :=
  if words.isEmpty then [[]] else words.flatMap fun word => word.toList.splitOn ','

theorem toList_joinWith_cons (word next : String) (rest : List String) : (joinWith "," (word :: next :: rest)).toList =
      word.toList ++ ',' :: (joinWith "," (next :: rest)).toList := by
  rw [joinWith, String.intercalate_cons_cons, String.toList_append, String.toList_append, append_assoc]
  rfl

theorem splitOn_joinWith (words : List String) : (joinWith "," words).toList.splitOn ',' = wordPieces words := by
  induction words with
  | nil => rfl
  | cons word rest ih =>
    cases rest with
    | nil => simp [joinWith, wordPieces]
    | cons next more =>
      rw [toList_joinWith_cons, splitOn_append_cons_self, ih]
      rfl

theorem joinWith_eq_iff {words others : List String} :
    joinWith "," words = joinWith "," others ↔ wordPieces words = wordPieces others := by
  rw [← splitOn_joinWith, ← splitOn_joinWith]
  constructor
  · intro same
    rw [same]
  · intro same
    exact String.toList_injective (splitOn_inj same)

theorem null_notMem_joinWith {words : List String} (free : ∀ word ∈ words, '\x00' ∉ word.toList) :
    '\x00' ∉ (joinWith "," words).toList := by
  induction words with
  | nil => simp [joinWith]
  | cons word rest ih =>
    rcases forall_mem_cons.mp free with ⟨here, later⟩
    cases rest with
    | nil => simpa [joinWith] using here
    | cons next more => grind [toList_joinWith_cons]

/-! ## Versions and words without null characters -/

structure NullFree (version : String) (o : Options) : Prop where
  version : '\x00' ∉ version.toList
  starters : ∀ word ∈ o.rules.starters, '\x00' ∉ word.toList
  indicators : ∀ word ∈ o.rules.indicators, '\x00' ∉ word.toList

/-- The parts before the source. -/
def settledParts (version : String) (o : Options) : List String := (keyParts version o "").dropLast

theorem keyParts_eq_append (version : String) (o : Options) (source : String) :
    keyParts version o source = settledParts version o ++ [source] := rfl

theorem NullFree.settledParts (free : NullFree version o) :
    ∀ part ∈ settledParts version o, '\x00' ∉ part.toList := by
  have flag : '\x00' ∉ (if o.layout.standalone then "true" else "false").toList := by
    cases o.layout.standalone <;> decide
  simp only [Cache.settledParts, keyParts, List.dropLast, forall_mem_cons]
  exact ⟨free.version, o.layout.dialect.null_notMem_name, flag, null_notMem_toString _,
    null_notMem_joinWith free.starters, null_notMem_joinWith free.indicators, null_notMem_toString _,
    fun _ member => absurd member not_mem_nil⟩

theorem nullPieces_of_free {parts : List String} (free : ∀ part ∈ parts, '\x00' ∉ part.toList) :
    parts.flatMap nullPieces = parts.map String.toList := by
  induction parts with
  | nil => rfl
  | cons part rest ih =>
    rcases forall_mem_cons.mp free with ⟨here, later⟩
    rw [flatMap_cons, nullPieces, splitOn_eq_singleton here, ih later]
    rfl

theorem NullFree.pieces (free : NullFree version o) (source : String) :
    (keyParts version o source).flatMap nullPieces =
      (Cache.settledParts version o).map String.toList ++ nullPieces source := by
  rw [keyParts_eq_append, flatMap_append, nullPieces_of_free free.settledParts, flatMap_singleton]

/-- The source ends the material, so it may have null characters. -/
theorem keyMaterial_eq_iff_settledParts {o' : Options} (free : NullFree version o)
    (free' : NullFree version' o') {source source' : String} :
    keyMaterial version o source = keyMaterial version' o' source' ↔
      settledParts version o = settledParts version' o' ∧ source = source' := by
  rw [keyMaterial_eq_iff_pieces, free.pieces, free'.pieces]
  constructor
  · intro same
    -- seven parts come before either source
    have length : ((settledParts version o).map String.toList).length =
        ((settledParts version' o').map String.toList).length := rfl
    rcases append_inj same length with ⟨settled, sources⟩
    exact ⟨(map_inj_right fun _ _ => String.toList_injective).mp settled,
      String.toList_injective (splitOn_inj sources)⟩
  · rintro ⟨settled, rfl⟩
    rw [settled]

theorem settledParts_eq_iff {o' : Options} : settledParts version o = settledParts version' o' ↔
      version = version' ∧ o.layout = o'.layout ∧ wordPieces o.rules.starters = wordPieces o'.rules.starters ∧
        wordPieces o.rules.indicators = wordPieces o'.rules.indicators ∧ o.rules.lookahead = o'.rules.lookahead := by
  constructor
  · intro same
    simp only [settledParts, keyParts, List.dropLast, List.cons.injEq] at same
    rcases same with ⟨versions, dialects, flags, widths, starters, indicators, lookaheads, -⟩
    have standalone : o.layout.standalone = o'.layout.standalone := by
      cases here : o.layout.standalone <;> cases there : o'.layout.standalone <;> simp [here, there] at flags ⊢
    have layouts : o.layout = o'.layout := by
      change Latex.Layout.mk _ _ _ = Latex.Layout.mk _ _ _
      rw [Dialect.name_inj dialects, toString_int_inj widths, standalone]
    exact ⟨versions, layouts, joinWith_eq_iff.mp starters, joinWith_eq_iff.mp indicators, toString_int_inj lookaheads⟩
  · rintro ⟨rfl, layouts, starters, indicators, lookaheads⟩
    rw [settledParts, settledParts, keyParts, keyParts, layouts, joinWith_eq_iff.mpr starters,
      joinWith_eq_iff.mpr indicators, lookaheads]

/-- Two compilations share their material if and only if their parts have the same pieces.  Without null
characters in versions and words, this means that they agree in everything but in how their words are
separated. -/
theorem keyMaterial_shared_iff (version version' : String) (o o' : Options) (source source' : String) :
    (keyMaterial version o source = keyMaterial version' o' source' ↔
      (keyParts version o source).flatMap nullPieces = (keyParts version' o' source').flatMap nullPieces) ∧
    (NullFree version o → NullFree version' o' → (keyMaterial version o source = keyMaterial version' o' source' ↔
        (version = version' ∧ o.layout = o'.layout ∧ wordPieces o.rules.starters = wordPieces o'.rules.starters ∧
          wordPieces o.rules.indicators = wordPieces o'.rules.indicators ∧
          o.rules.lookahead = o'.rules.lookahead) ∧ source = source')) := by
  refine ⟨keyMaterial_eq_iff_pieces, fun free free' => ?_⟩
  rw [keyMaterial_eq_iff_settledParts free free', settledParts_eq_iff]

/-- Options under which the given words start sentences. -/
def startedBy (starters : List String) : Options where
  rules := { starters := starters, indicators := ["is"], lookahead := 1 }

theorem commaInWord_shares_material : NullFree "1" (startedBy ["p", "q"]) ∧ NullFree "1" (startedBy ["p,q"]) ∧
    keyMaterial "1" (startedBy ["p", "q"]) "q is p" = keyMaterial "1" (startedBy ["p,q"]) "q is p" ∧
    keyMaterial "1" (startedBy ["p", "q"]) "q is p" ≠ keyMaterial "1" (startedBy ["p,q"]) "p is q" := by
  have apart : NullFree "1" (startedBy ["p", "q"]) := ⟨by decide, by decide, by decide⟩
  have together : NullFree "1" (startedBy ["p,q"]) := ⟨by decide, by decide, by decide⟩
  refine ⟨apart, together, ?_, ?_⟩
  · rw [(keyMaterial_shared_iff _ _ _ _ _ _).2 apart together]
    decide
  · rw [Ne, (keyMaterial_shared_iff _ _ _ _ _ _).2 apart together]
    decide

/-- What stands between the version and the source for sentences that start with `A`. -/
def betweenVersionAndSource : String := "\x00fuzz\x00false\x0080\x00A\x00is\x001\x00"

/-- A source that quotes this in a comment has the key of its own end, compiled by a version that quotes it too;
and a comma inside a word has the key of one between words.  The texts differ. -/
theorem different_texts_share_key : (key "1" (startedBy ["A"]) ("q\n% " ++ betweenVersionAndSource ++ "\np") =
        key ("1" ++ betweenVersionAndSource ++ "q\n% ") (startedBy ["A"]) "\np" ∧
      ((startedBy ["A"]).compile ("q\n% " ++ betweenVersionAndSource ++ "\np")).toOption.map Rendered.text =
        some "\\[ q \\]\n\n\\[ p \\]\n" ∧
      ((startedBy ["A"]).compile "\np").toOption.map Rendered.text = some "\\[ p \\]\n") ∧
    (key "1" (startedBy ["p", "q"]) "q is p" = key "1" (startedBy ["p,q"]) "q is p" ∧
      ((startedBy ["p", "q"]).compile "q is p").toOption.map Rendered.text = some "q is p\n" ∧
      ((startedBy ["p,q"]).compile "q is p").toOption.map Rendered.text = some "\\[ q~is~p \\]\n") := by
  have shifted : keyMaterial "1" (startedBy ["A"]) ("q\n% " ++ betweenVersionAndSource ++ "\np") =
      keyMaterial ("1" ++ betweenVersionAndSource ++ "q\n% ") (startedBy ["A"]) "\np" := by
    rw [keyMaterial_eq_iff_pieces]
    decide
  have joined : keyMaterial "1" (startedBy ["p", "q"]) "q is p" = keyMaterial "1" (startedBy ["p,q"]) "q is p" := by
    rw [keyMaterial_eq_iff_pieces]
    decide
  refine ⟨⟨?_, by decide +kernel, by decide⟩, ?_, by decide +kernel, by decide +kernel⟩
  · rw [key, shifted, key]
  · rw [key, joined, key]

end Cache
end Whiteboard
