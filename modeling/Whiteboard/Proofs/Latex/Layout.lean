import Whiteboard.Latex.Document

namespace Whiteboard

open List hiding set
namespace Latex

/-!
# Formulas as rows of marks

A formula is a row of marks: names, numbers, operators, brackets and separators.  `layout` lays one
node of a tree out as the marks of that node and its parts in between, each part with the context it
is set in and with the decision whether it stands in parentheses.  `marks` lays out the parts in
turn.  The text of an expression is the text of its marks, one after the other.
-/

/-- The pairs of brackets a formula may hold. -/
inductive Bracket where
  | round
  | square
  | image
  | curly
  | angle
  | bag
  | sub
  | super
  deriving DecidableEq

/-- What a formula is made of.  An infix operator brings the gap after it, and a collection without
elements is one mark. -/
inductive Mark where
  | name (text : String)
  | number (text : String)
  | infixOp (op : String) (gap : String)
  | prefixOp (op : String)
  | postfixOp (op : String)
  | binder (quant : String)
  | keyword (word : String)
  | opening (b : Bracket)
  | closing (b : Bracket)
  | nothing (b : Bracket)
  | comma
  | semicolon
  | colon
  | bar
  | spot
  | point
  | juxtaposition
  deriving DecidableEq

namespace Bracket

def openingText : Bracket → String
  | round => "("
  | square => "["
  | image => " \\limg "
  | curly => "\\\x7b "
  | angle => "\\langle "
  | bag => "\\lbag "
  | sub => "_\x7b"
  | super => "^\x7b"

def closingText : Bracket → String
  | round => ")"
  | square => "]"
  | image => " \\rimg"
  | curly => " \\\x7d"
  | angle => " \\rangle"
  | bag => " \\rbag"
  | sub => "\x7d"
  | super => "\x7d"

/-- The text of a collection without elements. -/
def emptyText : Bracket → String
  | curly => "\\\x7b\\\x7d"
  | angle => "\\langle \\rangle"
  | bag => "\\lbag \\rbag"
  | _ => ""

/-- The brackets of a collection. -/
def ofCollection : CollectionKind → Bracket
  | .set => curly
  | .sequence => angle
  | .bag => bag
  | .other _ => round

end Bracket

namespace Mark

/-- What stands between a prefix operator and its operand. -/
def prefixGap (op : String) : String :=
  if op == "neg" then ""
  else if ((Symbol.lookup op).map (·.applied)).getD false then "~"
  else " "

/-- The text of a mark. -/
def text (st : Style) : Mark → String
  | name s => identifier st s
  | number s => s
  | infixOp op gap => " " ++ st.commandOf op ++ gap
  | prefixOp op => st.commandOf op ++ prefixGap op
  | postfixOp op => if st.conventional then st.commandOf op else " " ++ st.commandOf op
  | binder quant => st.commandOf quant ++ " "
  | keyword word =>
    (if word == "if" then "" else st.keywordGap) ++ st.commandOf word ++ st.keywordGap
  | opening b => b.openingText
  | closing b => b.closingText
  | nothing b => b.emptyText
  | comma => ", "
  | semicolon => "; "
  | colon => " : "
  | bar => " | "
  | spot => " " ++ st.spot ++ " "
  | point => "."
  | juxtaposition => "~"

/-- The text of marks one after the other. -/
def textOf (st : Style) (ms : List Mark) : String := String.join (ms.map (text st))

end Mark

/-- A mark, or a part of the node that is laid out: its context, and whether parentheses stand
around it. -/
inductive Piece where
  | mark (m : Mark)
  | part (wrap : Bool) (c : Context) (e : Expr)

/-- A part that may be missing, after its mark. -/
def clauseLayout (lead : Mark) (c : Context) (e : Expr) : List Piece :=
  if e.isHole then [] else [.mark lead, .part false c e]

/-- Elements with commas between them; only the last is in tail position. -/
def listLayout (c : Context) : List Expr → List Piece
  | [] => []
  | [e] => [.part false { c with tail := true } e]
  | e :: rest => .part false { c with tail := false } e :: .mark .comma :: listLayout c rest

/-- Names with commas between them. -/
def nameMarks : List String → List Mark
  | [] => []
  | [n] => [.name n]
  | n :: rest => .name n :: .comma :: nameMarks rest

def groupLayout (c : Context) (b : Binding Expr) : List Piece :=
  (nameMarks b.names).map .mark ++ clauseLayout .colon c b.domain

/-- Groups of bound variables with semicolons between them. -/
def groupsLayout (c : Context) : List (Binding Expr) → List Piece
  | [] => []
  | [b] => groupLayout c b
  | b :: rest => groupLayout c b ++ .mark .semicolon :: groupsLayout c rest

/-- The gap after an operator: a line break where one is wanted and allowed. -/
def breakGap (breaks : Bool) (indent : Nat) : String := if breaks then " \\\\\n" ++ tab indent else " "

/-- A node as the marks it brings and the parts between them. -/
def layout (st : Style) (c : Context) : Expr → List Piece
  | .hole => []
  | .literal kind value _ => [.mark (if kind == .number then .number value else .name value)]
  | .unary op _ operand true loc =>
    let wrap := decide (precedence operand < Precedence.postfixed)
    [.part wrap ((c.child loc c.tail).within wrap) operand, .mark (.postfixOp op)]
  | .unary op _ operand false loc =>
    let wrap := ((Symbol.lookup op).map (wrapsPrefixOperand st · operand)).getD false
    [.mark (.prefixOp op), .part wrap ((c.child loc c.tail).within wrap) operand]
  | .binary _ _ left (.binary relation _ _ right _ _ _) _ true loc =>
    let wrap := needsParens (precedence right) Precedence.relation .none true
    [.part false (c.child loc false) left, .mark (.infixOp relation " "),
      .part wrap ((c.child loc c.tail).within wrap) right]
  | .binary _ _ _ _ _ true _ => []
  | .binary op _ left right breakAfter false loc =>
    let (prec, assoc) := (Symbol.asInfix op).getD (Precedence.lowest, .left)
    let wrapLeft := needsParens (precedence left) prec assoc false
    let wrapRight := needsParens (precedence right) prec assoc true
    let breaks := breakAfter && c.box
    let indent := if breaks then c.indent + 1 else c.indent
    [.part wrapLeft ((c.child loc false).within wrapLeft) left, .mark (.infixOp op (breakGap breaks indent)),
      .part wrapRight { (c.child loc c.tail).within wrapRight with indent := indent } right]
  | .quantifier quant _ bindings constraint body loc =>
    let inner := .mark (.binder quant) :: groupsLayout (c.child loc false) bindings ++
      clauseLayout .bar (c.child loc body.isHole) constraint ++
      clauseLayout .spot { c.child loc true with body := true } body
    if wrapsQuantifier st c then
      .mark (.opening .round) :: inner ++ [.mark (.closing .round)]
    else inner
  | .comprehension bindings predicate result loc =>
    .mark (.opening .curly) :: groupsLayout (c.child loc false) bindings ++
      clauseLayout .bar (c.child loc result.isHole) predicate ++
      clauseLayout .spot (c.child loc true) result ++ [.mark (.closing .curly)]
  | .collection kind elements loc =>
    let b := Bracket.ofCollection kind
    if elements.isEmpty then [.mark (.nothing b)]
    else .mark (.opening b) :: listLayout (c.child loc true) elements ++ [.mark (.closing b)]
  | .tuple elements loc =>
    .mark (.opening .round) :: listLayout (c.child loc true) elements ++ [.mark (.closing .round)]
  | .projection target field loc =>
    let wrap := decide (precedence target < Precedence.atom)
    [.part wrap ((c.child loc false).within wrap) target, .mark .point, .mark (.name field)]
  | .range low high loc =>
    let wrapLow := needsParens (precedence low) Precedence.range .none false
    let wrapHigh := needsParens (precedence high) Precedence.range .none true
    [.part wrapLow ((c.child loc false).within wrapLow) low, .mark (.infixOp "upto" " "),
      .part wrapHigh ((c.child loc c.tail).within wrapHigh) high]
  | .conditional condition yes no loc =>
    [.mark (.keyword "if"), .part false (c.child loc false) condition,
      .mark (.keyword "then"), .part false (c.child loc false) yes,
      .mark (.keyword "else"), .part false (c.child loc c.tail) no]
  | .application target args juxtaposed loc =>
    let wrap := decide (precedence target < Precedence.postfixed)
    .part wrap ((c.child loc false).within wrap) target :: match juxtaposed, args with
      | true, [arg] =>
        let wrapArg := decide (precedence arg < Precedence.atom)
        [.mark .juxtaposition, .part wrapArg ((c.child loc c.tail).within wrapArg) arg]
      | _, args =>
        .mark (.opening .round) :: listLayout (c.child loc true) args ++ [.mark (.closing .round)]
  | .instantiation base params loc =>
    let wrap := decide (precedence base < Precedence.postfixed)
    .part wrap ((c.child loc false).within wrap) base :: .mark (.opening .square) ::
      listLayout (c.child loc true) params ++ [.mark (.closing .square)]
  | .image relation set loc =>
    let wrap := decide (precedence relation < Precedence.postfixed)
    [.part wrap ((c.child loc false).within wrap) relation, .mark (.opening .image),
      .part false (c.child loc true) set, .mark (.closing .image)]
  | .script base super sub loc =>
    let wrap := decide (precedence base < Precedence.atom)
    .part wrap ((c.child loc false).within wrap) base :: ((if sub.isHole then []
        else [.mark (.opening .sub), .part false (c.child loc true) sub, .mark (.closing .sub)]) ++
      (if super.isHole then []
        else
          [.mark (.opening .super), .part false (c.child loc true) super, .mark (.closing .super)]))

/-! ## The parts of a node are smaller -/

theorem eq_of_part_mem_clauseLayout {lead : Mark} {c c' : Context} {e e' : Expr} {wrap : Bool}
    (member : .part wrap c' e' ∈ clauseLayout lead c e) : e' = e := by
  unfold clauseLayout at member
  split at member
  · cases member
  · simp at member
    exact member.2.2

theorem mem_of_part_mem_listLayout {c c' : Context} {e' : Expr} {es : List Expr} {wrap : Bool}
    (member : .part wrap c' e' ∈ listLayout c es) : e' ∈ es := by
  fun_induction listLayout c es with
  | case1 => cases member
  | case2 e =>
    simp at member
    exact mem_singleton.mpr member.2.2
  | case3 e rest _ ih => grind

theorem mem_of_part_mem_groupsLayout {c c' : Context} {e' : Expr} {bs : List (Binding Expr)}
    {wrap : Bool} (member : .part wrap c' e' ∈ groupsLayout c bs) : ∃ b ∈ bs, e' = b.domain := by
  have inGroup {b : Binding Expr} (member : .part wrap c' e' ∈ groupLayout c b) : e' = b.domain := by
    rcases mem_append.mp member with named | typed
    · simp at named
    · exact eq_of_part_mem_clauseLayout typed
  fun_induction groupsLayout c bs with
  | case1 => cases member
  | case2 b => exact ⟨b, mem_singleton.mpr rfl, inGroup member⟩
  | case3 b rest _ ih => grind

theorem sizeOf_domain_lt {b : Binding Expr} {bs : List (Binding Expr)} (member : b ∈ bs) :
    sizeOf b.domain < sizeOf bs := by
  have smaller := sizeOf_lt_of_mem member
  rcases b with ⟨names, domain, loc⟩
  simp at smaller ⊢
  omega

theorem sizeOf_lt_of_part_mem {st : Style} {c c' : Context} {e e' : Expr} {wrap : Bool}
    (member : .part wrap c' e' ∈ layout st c e) : sizeOf e' < sizeOf e := by
  have inList {es : List Expr} {c : Context} (member : .part wrap c' e' ∈ listLayout c es) :
      sizeOf e' < sizeOf es := sizeOf_lt_of_mem (mem_of_part_mem_listLayout member)
  have inGroups {bs : List (Binding Expr)} {c : Context}
      (member : .part wrap c' e' ∈ groupsLayout c bs) : sizeOf e' < sizeOf bs := by
    obtain ⟨b, inBindings, rfl⟩ := mem_of_part_mem_groupsLayout member
    exact sizeOf_domain_lt inBindings
  have inClause {lead : Mark} {e : Expr} {c : Context} (member : .part wrap c' e' ∈ clauseLayout lead c e) : e' = e :=
    eq_of_part_mem_clauseLayout member
  fun_cases layout st c e <;> simp [layout] at member <;> simp <;> grind

/-! ## Rows of marks -/

/-- Marks in parentheses where they are wanted. -/
def wrapMarks (wrap : Bool) (ms : List Mark) : List Mark :=
  if wrap then .opening .round :: ms ++ [.closing .round] else ms

/-- The marks of an expression. -/
def marks (st : Style) (c : Context) (e : Expr) : List Mark :=
  (layout st c e).attach.flatMap fun
    | ⟨.mark m, _⟩ => [m]
    | ⟨.part wrap c' e', member⟩ =>
      have := sizeOf_lt_of_part_mem member
      wrapMarks wrap (marks st c' e')
termination_by sizeOf e

/-- The marks of a piece. -/
def Piece.marks (st : Style) : Piece → List Mark
  | .mark m => [m]
  | .part wrap c e => wrapMarks wrap (Latex.marks st c e)

/-- The marks of pieces one after the other. -/
def rowOf (st : Style) (ps : List Piece) : List Mark := ps.flatMap (Piece.marks st)

/-- The marks of an expression are those of its node with the marks of its parts in between. -/
theorem marks_eq_rowOf (st : Style) (c : Context) (e : Expr) : marks st c e = rowOf st (layout st c e) := by
  rw [marks]
  calc
    _ = (layout st c e).attach.flatMap (fun piece => piece.val.marks st) := by
        apply congrArg (List.flatMap · _)
        funext piece
        rcases piece with ⟨m | ⟨wrap, c', e'⟩, member⟩ <;> rfl
    _ = rowOf st (layout st c e) := by
        rw [rowOf, ← flatMap_map Subtype.val, attach_map_subtype_val]

@[simp] theorem rowOf_nil (st : Style) : rowOf st [] = [] := rfl

@[simp] theorem rowOf_append (st : Style) (ps qs : List Piece) : rowOf st (ps ++ qs) = rowOf st ps ++ rowOf st qs := by
  simp [rowOf]

@[simp] theorem rowOf_mark_cons (st : Style) (m : Mark) (ps : List Piece) :
    rowOf st (.mark m :: ps) = m :: rowOf st ps := rfl

@[simp] theorem rowOf_part_cons (st : Style) (wrap : Bool) (c : Context) (e : Expr) (ps : List Piece) :
    rowOf st (.part wrap c e :: ps) = wrapMarks wrap (marks st c e) ++ rowOf st ps := rfl

@[simp] theorem rowOf_map_mark (st : Style) (ms : List Mark) : rowOf st (ms.map .mark) = ms := by
  induction ms with
  | nil => rfl
  | cons m rest ih => rw [map_cons, rowOf_mark_cons, ih]

@[simp] theorem wrapMarks_false (ms : List Mark) : wrapMarks false ms = ms := rfl

end Latex
end Whiteboard
