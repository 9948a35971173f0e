import AegCloudDfir.Search.Lexer

/-!
# The query parser

`packages/search/src/parser.ts`: recursive descent over the tokens, NOT before AND
(explicit or by adjacency) before OR. Every parse function returns what it parsed
and the tokens it left, of which there are fewer than it was given.
-/

namespace AegCloudDfir.Search

/-- `kind` of a `BoolNode`. -/
inductive BoolKind : Type where
  | and
  | or
  deriving DecidableEq

/-- The bounds of a range. -/
structure Bounds (α : Type) where
  gte : Option α
  lte : Option α
  gt : Option α
  lt : Option α
  deriving DecidableEq

/-- `QueryNode`. -/
inductive QueryNode : Type where
  | bool (kind : BoolKind) (children : List QueryNode)
  | not (child : QueryNode)
  | term (field : Option JsString) (value : JsString) (fuzzy : Option ℕ)
  | phrase (field : Option JsString) (value : JsString) (proximity : Option ℕ)
  | wildcard (field : Option JsString) (value : JsString)
  | range (field : JsString) (bounds : Bounds JsString)
  | exists (field : JsString)
  | matchAll

/-- Induction over a query through the children of its nodes. -/
@[elab_as_elim, induction_eliminator]
theorem QueryNode.inductionOn {motive : QueryNode → Prop} (node : QueryNode)
    (bool : ∀ kind children, (∀ c ∈ children, motive c) → motive (bool kind children))
    (not : ∀ child, motive child → motive (not child))
    (term : ∀ field value fuzzy, motive (term field value fuzzy))
    (phrase : ∀ field value proximity, motive (phrase field value proximity))
    (wildcard : ∀ field value, motive (wildcard field value))
    (range : ∀ field bounds, motive (range field bounds))
    (exists_ : ∀ field, motive (.exists field)) (matchAll : motive matchAll) : motive node := by
  refine @QueryNode.rec motive (fun cs => ∀ c ∈ cs, motive c) bool not term phrase wildcard range
    exists_ matchAll ?_ ?_ node
  · intro c hc
    cases hc
  · intro c cs hc hcs d hd
    rcases List.mem_cons.mp hd with rfl | hd
    · exact hc
    · exact hcs d hd

/-! ## Helpers -/

/-- `hasWildcard`. -/
def hasWildcard (value : JsString) : Bool := unitOf '*' ∈ value ∨ unitOf '?' ∈ value

/-- `describeToken`. -/
def describeToken : TokenKind → JsString
  | .word value _ => js "\"" ++ value ++ js "\""
  | .phrase value _ => js "phrase \"" ++ value ++ js "\""
  | .op op => js "\"" ++ op.text ++ js "\""
  | .lparen => js "\"(\""
  | .rparen => js "\")\""
  | .lbracket => js "\"[\""
  | .rbracket => js "\"]\""
  | .colon => js "\":\""
  | .and => js "AND"
  | .or => js "OR"
  | .not => js "NOT"

/-- `wordToNode`. -/
def wordToNode (value : JsString) (fuzzy : Option ℕ) (field : Option JsString) : QueryNode :=
  match fuzzy with
  | some edits => .term field value (some edits)
  | none => if hasWildcard value then .wildcard field value else .term field value none

/-- The tokens a parse function leaves. -/
abbrev Fewer (ts : List Token) : Type := { rest : List Token // rest.length < ts.length }

/-- What a parse function returns. -/
abbrev Parsed (ts : List Token) : Type := Except QueryError (QueryNode × Fewer ts)

/-- `errorAt`; `length` is that of the input. -/
def errorAt (length : ℕ) (ts : List Token) (message : JsString) : QueryError :=
  match ts with
  | [] => .syntaxError message length
  | t :: _ => .syntaxError message t.pos

/-- `expectWord`. -/
def expectWord (length : ℕ) (ts : List Token) (what : JsString) :
    Except QueryError ((JsString × Option ℕ) × Fewer ts) :=
  match ts with
  | ⟨.word value fuzzy, _⟩ :: rest => .ok ((value, fuzzy), ⟨rest, Nat.lt_succ_self _⟩)
  | ts => .error (errorAt length ts (js "expected " ++ what))

/-- `parseBracketRange`, behind the bracket at `openPos`. -/
def parseBracketRange (length : ℕ) (field : JsString) (openPos : ℕ) (ts : List Token) :
    Parsed ts := do
  let ((lower, _), ⟨rest, h₁⟩) ← expectWord length ts (js "a lower bound (or *)")
  let ((keyword, _), ⟨rest', h₂⟩) ← expectWord length rest (js "the keyword TO")
  if keyword ≠ js "TO" then
    .error (errorAt length rest
      (js "expected TO between range bounds, got \"" ++ keyword ++ js "\""))
  else
    let ((upper, _), ⟨rest'', h₃⟩) ← expectWord length rest' (js "an upper bound (or *)")
    match rest'', h₃ with
    | ⟨.rbracket, _⟩ :: after, h₃ =>
      let gte := if lower = js "*" then none else some lower
      let lte := if upper = js "*" then none else some upper
      if gte = none ∧ lte = none then
        .error (.syntaxError (js "range must have at least one bound") openPos)
      else
        .ok (.range field ⟨gte, lte, none, none⟩,
          ⟨after, by simp only [List.length_cons] at h₃; omega⟩)
    | rest'', _ => .error (errorAt length rest'' (js "unbalanced range: expected \"]\""))

/-- `parseFieldValue`, behind the colon. -/
def parseFieldValue (length : ℕ) (field : JsString) (ts : List Token) : Parsed ts :=
  match ts with
  | [] => .error (errorAt length [] (js "expected a value after \"" ++ field ++ js ":\""))
  | ⟨.phrase value proximity, _⟩ :: rest =>
    .ok (.phrase (some field) value proximity, ⟨rest, Nat.lt_succ_self _⟩)
  | ⟨.lbracket, pos⟩ :: rest => do
    let (node, ⟨after, h⟩) ← parseBracketRange length field pos rest
    pure (node, ⟨after, h.trans (Nat.lt_succ_self _)⟩)
  | ⟨.word value fuzzy, _⟩ :: rest =>
    if value = js "*" ∧ fuzzy = none then
      .ok (.exists field, ⟨rest, Nat.lt_succ_self _⟩)
    else
      .ok (wordToNode value fuzzy (some field), ⟨rest, Nat.lt_succ_self _⟩)
  | t :: rest => .error (errorAt length (t :: rest)
    (js "expected a value after \"" ++ field ++ js ":\", got " ++ describeToken t.kind))

/-- `parseComparison`, behind the operator. -/
def parseComparison (length : ℕ) (field : JsString) (op : ComparisonOp) (ts : List Token) :
    Parsed ts := do
  let ((value, fuzzy), rest) ←
    expectWord length ts (js "a value after \"" ++ field ++ op.text ++ js "\"")
  match op with
  | .ge => pure (.range field ⟨some value, none, none, none⟩, rest)
  | .le => pure (.range field ⟨none, some value, none, none⟩, rest)
  | .gt => pure (.range field ⟨none, none, some value, none⟩, rest)
  | .lt => pure (.range field ⟨none, none, none, some value⟩, rest)
  | .eq => pure (wordToNode value fuzzy (some field), rest)

/-- A word at the start of an expression: a field name before `:` or an operator,
else a term. -/
def parseWord {Num : Type} (rt : JsRuntime Num) (length : ℕ) (value : JsString)
    (fuzzy : Option ℕ) (rest : List Token) :
    Except QueryError (QueryNode × { r : List Token // r.length ≤ rest.length }) :=
  match rest with
  | ⟨.colon, _⟩ :: after => do
    let (node, ⟨r, h⟩) ← parseFieldValue length (rt.lower value) after
    pure (node, ⟨r, h.le.trans (Nat.le_succ _)⟩)
  | ⟨.op op, _⟩ :: after => do
    let (node, ⟨r, h⟩) ← parseComparison length (rt.lower value) op after
    pure (node, ⟨r, h.le.trans (Nat.le_succ _)⟩)
  | rest => .ok (wordToNode value fuzzy none, ⟨rest, le_refl _⟩)

/-- Tokens that continue a conjunction without an operator. -/
def startsOperand : TokenKind → Bool
  | .word _ _ => true
  | .phrase _ _ => true
  | .lparen => true
  | .not => true
  | _ => false

/-- `children.length === 1 && first ? first : { kind, children }`. -/
def boolNode (kind : BoolKind) (first : QueryNode) : List QueryNode → QueryNode
  | [] => first
  | rest => .bool kind (first :: rest)

/-! ## Recursive descent -/

section Descent

variable {Num : Type} (rt : JsRuntime Num) (length : ℕ)

mutual

/-- `parseOr`. -/
def parseOr (ts : List Token) : Parsed ts := do
  let (first, ⟨rest, h⟩) ← parseAnd ts
  let (children, ⟨rest', h'⟩) ← parseOrLoop rest
  pure (boolNode .or first children, ⟨rest', by omega⟩)
termination_by 5 * ts.length + 4

/-- The `while` loop of `parseOr`. -/
def parseOrLoop (ts : List Token) :
    Except QueryError (List QueryNode × { r : List Token // r.length ≤ ts.length }) :=
  match ts with
  | ⟨.or, _⟩ :: rest => do
    let (child, ⟨rest', h⟩) ← parseAnd rest
    let (children, ⟨rest'', h'⟩) ← parseOrLoop rest'
    pure (child :: children, ⟨rest'', by simp only [List.length_cons]; omega⟩)
  | ts => pure ([], ⟨ts, le_refl _⟩)
termination_by 5 * ts.length + 4

/-- `parseAnd`. -/
def parseAnd (ts : List Token) : Parsed ts := do
  let (first, ⟨rest, h⟩) ← parseNot ts
  let (children, ⟨rest', h'⟩) ← parseAndLoop rest
  pure (boolNode .and first children, ⟨rest', by omega⟩)
termination_by 5 * ts.length + 3

/-- The loop of `parseAnd`. -/
def parseAndLoop (ts : List Token) :
    Except QueryError (List QueryNode × { r : List Token // r.length ≤ ts.length }) :=
  match ts with
  | ⟨.and, _⟩ :: rest => do
    let (child, ⟨rest', h⟩) ← parseNot rest
    let (children, ⟨rest'', h'⟩) ← parseAndLoop rest'
    pure (child :: children, ⟨rest'', by simp only [List.length_cons]; omega⟩)
  | t :: rest =>
    if startsOperand t.kind then do
      let (child, ⟨rest', h⟩) ← parseNot (t :: rest)
      let (children, ⟨rest'', h'⟩) ← parseAndLoop rest'
      pure (child :: children, ⟨rest'', by omega⟩)
    else pure ([], ⟨t :: rest, le_refl _⟩)
  | [] => pure ([], ⟨[], le_refl _⟩)
termination_by 5 * ts.length + 3
decreasing_by
  all_goals
    simp only [List.length_cons] at *
    omega

/-- `parseNot`. -/
def parseNot (ts : List Token) : Parsed ts :=
  match ts with
  | ⟨.not, _⟩ :: rest => do
    let (child, ⟨rest', h⟩) ← parseNot rest
    pure (.not child, ⟨rest', h.trans (Nat.lt_succ_self _)⟩)
  | ts => parsePrimary ts
termination_by 5 * ts.length + 2

/-- `parsePrimary`. -/
def parsePrimary (ts : List Token) : Parsed ts :=
  match ts with
  | [] => .error (errorAt length [] (js "unexpected end of query, expected an expression"))
  | ⟨.lparen, _⟩ :: rest => do
    let (inner, ⟨rest', h⟩) ← parseOr rest
    match rest', h with
    | ⟨.rparen, _⟩ :: after, h =>
      pure (inner, ⟨after, by simp only [List.length_cons] at h ⊢; omega⟩)
    | rest', _ =>
      .error (errorAt length rest' (js "unbalanced parenthesis: expected \")\""))
  | ⟨.phrase value proximity, _⟩ :: rest =>
    .ok (.phrase none value proximity, ⟨rest, Nat.lt_succ_self _⟩)
  | ⟨.word value fuzzy, _⟩ :: rest => do
    let (node, ⟨r, h⟩) ← parseWord rt length value fuzzy rest
    pure (node, ⟨r, Nat.lt_succ_of_le h⟩)
  | t :: rest => .error (errorAt length (t :: rest)
    (js "unexpected " ++ describeToken t.kind ++ js ", expected an expression"))
termination_by 5 * ts.length + 1

end

/-- `parse`. -/
def parse (ts : List Token) : Except QueryError QueryNode :=
  match ts with
  | [] => .ok .matchAll
  | ts => do
    let (node, ⟨trailing, _⟩) ← parseOr rt length ts
    match trailing with
    | [] => pure node
    | t :: _ => .error (errorAt length trailing (js "unexpected " ++ describeToken t.kind))

end Descent

/-- `parseQuery`. -/
def parseQuery {Num : Type} (rt : JsRuntime Num) (input : JsString) :
    Except QueryError QueryNode := do
  let tokens ← tokenize input
  parse rt input.length tokens

end AegCloudDfir.Search
