import AegCloudDfir.Js.Collections
import AegCloudDfir.Search.Parser

/-!
# The advanced language

`packages/search/src/advanced.ts`: conditions `parameter OPERATOR value`, which have to be joined by
AND, OR and NOT. It has its own tokens and its own parser, and the same queries come out of it.

Keywords are words that the parser compares in lower case; the tokens do not tell them from other
words.
-/

namespace AegCloudDfir.Search.Advanced

/-! ## Names -/

/-- `PARAMETER_ALIASES` -/
def parameterAliases : List (JsString × JsString) :=
  [(js "content", js "text"), (js "type", js "extension"), (js "name.ext", js "extension"),
    (js "name.dirs", js "folder"), (js "directory", js "folder"), (js "name.term", js "name"),
    (js "ingestion-date", js "acquired"), (js "sent-date", js "sent"),
    (js "received-date", js "received"), (js "to.address", js "to"),
    (js "from.address", js "from"), (js "cc.address", js "cc"), (js "bcc.address", js "bcc"),
    (js "participant.address", js "participants"), (js "sender.address", js "sender"),
    (js "replyto.address", js "replyto"), (js "system-tags", js "labels"),
    (js "document-notes", js "text")]

/-- `ADVANCED_PARAMETERS` -/
def advancedParameters : List JsString :=
  sorted ((distinct (defaultFieldRegistry.allowedFields ++ parameterAliases.map Prod.fst)).filter
    fun name => name ≠ js "header.<name>")

/-- `COMMON_PARAMETERS` -/
def commonParameters : List JsString :=
  [js "body", js "subject", js "name", js "from.address", js "to.address", js "tags", js "date",
    js "custodian", js "name.ext"]

/-- `KEYWORDS` -/
def keywords : List JsString :=
  [js "and", js "or", js "not", js "contains", js "is", js "exists", js "exist", js "does",
    js "any", js "all", js "none", js "of"]

/-! ## Tokens -/

/-- `type` of a token, with what comes with it. -/
inductive TokKind : Type where
  | lparen
  | rparen
  | comma
  | op (op : ComparisonOp)
  | phrase (value : JsString) (proximity : Option ℕ)
  | word (value : JsString)
  deriving DecidableEq

/-- `Tok` -/
structure Tok where
  kind : TokKind
  pos : ℕ
  deriving DecidableEq

/-- `WORD_BREAK` -/
def wordBreak : List CodeUnit :=
  [unitOf '(', unitOf ')', unitOf ',', 0x22, unitOf '<', unitOf '>', unitOf '=']

/-- What a word goes on with. -/
def isWordUnit (c : CodeUnit) : Bool := ¬ (isSpace c ∨ c ∈ wordBreak)

/-- The loop over a quoted phrase, behind the opening quote; `none` if it is not closed. -/
def scanPhrase : JsString → Option (JsString × JsString)
  | [] => none
  | 0x5C :: c :: rest => (scanPhrase rest).map fun (value, rest) => (c :: value, rest)
  | c :: rest =>
    if c = 0x22 then some ([], rest)
    else (scanPhrase rest).map fun (value, rest) => (c :: value, rest)

theorem length_scanPhrase {input value rest : JsString}
    (h : scanPhrase input = some (value, rest)) : rest.length < input.length := by
  fun_induction scanPhrase input generalizing value rest with
  | case1 => cases h
  | case2 c input ih | case4 c input hne hc ih =>
    obtain ⟨⟨v, r⟩, hscan, heq⟩ := Option.map_eq_some_iff.mp h
    cases heq
    have := ih hscan
    simp only [List.length_cons]
    omega
  | case3 c input =>
    cases h
    exact Nat.lt_succ_self _

/-- The slop behind a phrase that ends at `rest`; `pos` is where it is. -/
def scanSlop (pos : ℕ) (rest : JsString) :
    Except QueryError (Option ℕ × { r : JsString // r.length ≤ rest.length }) :=
  match rest with
  | [] => .ok (none, ⟨[], behind_nil⟩)
  | c :: rest =>
    if c = unitOf '~' then
      match h : readNumber rest with
      | none =>
        .error (.syntaxError (js "expected a slop value after ~, e.g. \"a phrase\"~3") pos)
      | some (n, after) => .ok (some n, ⟨after, behind_number c h⟩)
    else .ok (none, ⟨c :: rest, behind_cons c rest⟩)

/-- The loop of `tokenize`, with the length of the whole input. -/
def tokenizeFrom (length : ℕ) (input : JsString) : Except QueryError (List Tok) :=
  let pos := length - input.length
  match input with
  | [] => .ok []
  | ch :: rest =>
    if isSpace ch then tokenizeFrom length rest
    else if ch = unitOf '(' then do
      pure (⟨.lparen, pos⟩ :: (← tokenizeFrom length rest))
    else if ch = unitOf ')' then do
      pure (⟨.rparen, pos⟩ :: (← tokenizeFrom length rest))
    else if ch = unitOf ',' then do
      pure (⟨.comma, pos⟩ :: (← tokenizeFrom length rest))
    else if ch = unitOf '>' ∨ ch = unitOf '<' then
      if rest.head? = some (unitOf '=') then do
        let op := if ch = unitOf '>' then ComparisonOp.ge else .le
        pure (⟨.op op, pos⟩ :: (← tokenizeFrom length rest.tail))
      else do
        let op := if ch = unitOf '>' then ComparisonOp.gt else .lt
        pure (⟨.op op, pos⟩ :: (← tokenizeFrom length rest))
    else if ch = unitOf '=' then do
      pure (⟨.op .eq, pos⟩ :: (← tokenizeFrom length rest))
    else if ch = 0x22 then
      match _h : scanPhrase rest with
      | none => .error (.syntaxError (js "unterminated quoted phrase") pos)
      | some (value, after) => do
        let (proximity, after) ← scanSlop (length - after.length) after
        pure (⟨.phrase value proximity, pos⟩ :: (← tokenizeFrom length after.val))
    else
      let word := (ch :: rest).takeWhile isWordUnit
      if _hword : word = [] then
        .error (.syntaxError (js "unexpected character \"" ++ [ch] ++ js "\"") pos)
      else do
        pure (⟨.word word, pos⟩ :: (← tokenizeFrom length ((ch :: rest).dropWhile isWordUnit)))
termination_by input.length
decreasing_by
  all_goals simp only [List.length_cons]
  all_goals try omega
  · rw [List.length_tail]
    omega
  · have := length_scanPhrase _h
    have := after.property
    omega
  · have hpos : 0 < ((ch :: rest).takeWhile isWordUnit).length := List.length_pos_iff.mpr _hword
    have hsplit := congrArg List.length
      (List.takeWhile_append_dropWhile (p := isWordUnit) (l := ch :: rest))
    simp only [List.length_append, List.length_cons] at hsplit
    omega

/-- `tokenize` -/
def tokenize (input : JsString) : Except QueryError (List Tok) := tokenizeFrom input.length input

/-! ## Parameters -/

/-- A row of the table of `distance`, behind its first entry: the entry to the left, the characters
that are left of `b`, and the row above from the entry diagonally above. -/
def distanceRow (c : CodeUnit) : ℕ → JsString → List ℕ → List ℕ
  | left, d :: b, diagonal :: above :: row =>
    let cost := if c = d then 0 else 1
    let entry := min (min (above + 1) (left + 1)) (diagonal + cost)
    entry :: distanceRow c entry b (above :: row)
  | _, _, _ => []

/-- `distance` -/
def distance (a b : JsString) : ℕ :=
  let last := a.foldl (fun row c =>
    let first := row.headD 0 + 1
    first :: distanceRow c first b row) (List.range (b.length + 1))
  last.getLastD 0

variable {Num : Type} (rt : JsRuntime Num)

/-- `suggest` -/
def suggest (name : JsString) : List JsString :=
  let scored := advancedParameters.map fun candidate =>
    (candidate, distance (rt.lower name) (rt.lower candidate))
  let sortedByDistance := scored.insertionSort fun x y => x.2 ≤ y.2
  ((sortedByDistance.filter fun entry => entry.2 ≤ max 4 ((name.length + 1) / 2)).take 3).map
    Prod.fst

/-- `ResolvedParam` -/
structure ResolvedParam where
  field : JsString
  type : Option FieldType
  deriving DecidableEq

variable (registry : FieldRegistry)

/-- The error of `resolveParameter`. -/
def unknownParameter (raw : JsString) (pos : ℕ) : QueryError :=
  let hints := suggest rt raw
  let tail :=
    if 0 < hints.length then
      js " Did you mean " ++
        joinWith (js ", ") (hints.map fun h => js "\"" ++ h ++ js "\"") ++ js "?"
    else
      js " Supported parameters include " ++ joinWith (js ", ") commonParameters ++
        js " — see the query help for all " ++ decimal advancedParameters.length ++ js "."
  .syntaxError (js "unknown parameter \"" ++ raw ++ js "\"." ++ tail) pos

/-- `resolveParameter` -/
def resolveParameter (raw : JsString) (pos : ℕ) : Except QueryError ResolvedParam :=
  let lower := rt.lower raw
  let mapped :=
    match readProperty parameterAliases lower with
    | .own mapped => some mapped
    | .missing => some lower
    -- what a plain object inherits is no string, and `resolve` throws
    | .inherited => none
  match mapped with
  | none => .error (unknownParameter rt raw pos)
  | some mapped =>
    match registry.resolve rt mapped with
    | .ok resolved => .ok ⟨resolved.name, resolved.type⟩
    | .error _ => .error (unknownParameter rt raw pos)

/-- The families of operators. -/
inductive Family : Type where
  | contains
  | is
  | compare
  deriving DecidableEq

/-- `operatorFamily` -/
def operatorFamily : Option FieldType → Family
  | some .text | some .ocr | some .header => .contains
  | some .date | some .size => .compare
  | _ => .is

/-- `FAMILY_ADVICE` -/
def familyAdvice : Family → JsString
  | .contains => js "use CONTAINS (or DOES NOT CONTAIN)"
  | .is => js "use IS (or IS NOT)"
  | .compare => js "use a comparison: =, >, <, >= or <="

/-! ## Values -/

variable (length : ℕ)

/-- `posOf` the next token; `length` is that of the input. -/
def posOf : List Tok → ℕ
  | [] => length
  | t :: _ => t.pos

/-- `isKeyword` of the next token, and the tokens behind it. -/
def keyword? (word : JsString) : List Tok → Option (List Tok)
  | ⟨.word value, _⟩ :: rest => if rt.lower value = word then some rest else none
  | _ => none

/-- `tryKeywords`: the tokens behind the keywords, if they are next. -/
def tryKeywords : List JsString → List Tok → Option (List Tok)
  | [], ts => some ts
  | word :: words, ts => (keyword? rt word ts).bind fun rest => tryKeywords words rest

/-- `valueNode`; `none` for a token that is no value. -/
def valueNode (field : JsString) : TokKind → Option QueryNode
  | .phrase value proximity => some (.phrase (some field) value proximity)
  | .word value =>
    if hasWildcard value then some (.wildcard (some field) value)
    else some (.term (some field) value none)
  | _ => none

/-- `singleValue` -/
def singleValue (field : JsString) (ts : List Tok) : Except QueryError (QueryNode × List Tok) :=
  match ts with
  | [] => .error (.syntaxError (js "expected a value") length)
  | t :: rest =>
    match valueNode field t.kind with
    | some node => .ok (node, rest)
    | none => .error (.syntaxError (js "expected a value") t.pos)

/-- The loop of `valueList`. -/
def valuesLoop (field : JsString) : List Tok → Except QueryError (List QueryNode × List Tok)
  | [] => .error (.syntaxError (js "expected a value") length)
  | t :: rest =>
    if t.kind = .rparen then .ok ([], rest)
    else
      match valueNode field t.kind with
      | none => .error (.syntaxError (js "expected a value") t.pos)
      | some node =>
        match rest with
        | ⟨.comma, _⟩ :: rest => do
          let (nodes, rest) ← valuesLoop field rest
          pure (node :: nodes, rest)
        | ⟨.rparen, _⟩ :: rest => .ok ([node], rest)
        | rest => .error (.syntaxError (js "expected a comma or \")\" in the list of values")
            (posOf length rest))

/-- `combine` -/
def combine (kind : BoolKind) : List QueryNode → QueryNode
  | [node] => node
  | nodes => .bool kind nodes

/-- `combine` of a `valueList` -/
def combinedList (field : JsString) (kind : BoolKind) (ts : List Tok) :
    Except QueryError (QueryNode × List Tok) :=
  match ts with
  | ⟨.lparen, pos⟩ :: rest => do
    let (nodes, rest) ← valuesLoop length field rest
    if nodes.length = 0 then .error (.syntaxError (js "a list of values cannot be empty") pos)
    else pure (combine kind nodes, rest)
  | ts => .error (.syntaxError (js "expected \"(\" to start a list of values") (posOf length ts))

/-- The negation of what was parsed. -/
def negated (parsed : Except QueryError (QueryNode × List Tok)) :
    Except QueryError (QueryNode × List Tok) := do
  let (node, rest) ← parsed
  pure (.not node, rest)

/-! ## Conditions -/

/-- `requireFamily` -/
def requireFamily (actual wanted : Family) (name : JsString) (pos : ℕ) (used : JsString) :
    Except QueryError Unit :=
  if actual = wanted then .ok ()
  else .error (.syntaxError
    (js "\"" ++ name ++ js "\" does not support " ++ used ++ js "; " ++ familyAdvice actual) pos)

/-- Behind CONTAINS. -/
def containsValue (field : JsString) (ts : List Tok) : Except QueryError (QueryNode × List Tok) :=
  if let some rest := tryKeywords rt [js "any", js "of"] ts then
    combinedList length field .or rest
  else if let some rest := tryKeywords rt [js "all", js "of"] ts then
    combinedList length field .and rest
  else if let some rest := tryKeywords rt [js "none", js "of"] ts then
    negated (combinedList length field .or rest)
  else singleValue length field ts

/-- Behind IS. -/
def isValue (field : JsString) (ts : List Tok) : Except QueryError (QueryNode × List Tok) :=
  if let some rest := tryKeywords rt [js "any", js "of"] ts then
    combinedList length field .or rest
  else if let some rest := tryKeywords rt [js "all", js "of"] ts then
    combinedList length field .and rest
  else if let some rest := tryKeywords rt [js "none", js "of"] ts then
    negated (combinedList length field .or rest)
  else if let some rest := tryKeywords rt [js "not", js "all", js "of"] ts then
    negated (combinedList length field .and rest)
  else if let some rest := tryKeywords rt [js "not"] ts then
    negated (singleValue length field rest)
  else singleValue length field ts

/-- Behind a comparison operator. -/
def comparedValue (field : JsString) (op : ComparisonOp) (ts : List Tok) :
    Except QueryError (QueryNode × List Tok) :=
  let missing := .error (.syntaxError (js "expected a value after \"" ++ op.text ++ js "\"")
    (posOf length ts))
  match ts with
  | [] => missing
  | t :: rest =>
    match valueNode field t.kind, t.kind with
    | some node, .phrase value _ | some node, .word value =>
      match op with
      | .ge => .ok (.range field ⟨some value, none, none, none⟩, rest)
      | .le => .ok (.range field ⟨none, some value, none, none⟩, rest)
      | .gt => .ok (.range field ⟨none, none, some value, none⟩, rest)
      | .lt => .ok (.range field ⟨none, none, none, some value⟩, rest)
      | .eq => .ok (node, rest)
    | _, _ => missing

/-- Behind the parameter `name`. -/
def parseOperator (name : JsString) (pos : ℕ) (param : ResolvedParam) (ts : List Tok) :
    Except QueryError (QueryNode × List Tok) :=
  let family := operatorFamily param.type
  if let some rest := tryKeywords rt [js "exists"] ts then .ok (.exists param.field, rest)
  else if let some rest := tryKeywords rt [js "does", js "not", js "exist"] ts then
    .ok (.not (.exists param.field), rest)
  else if let some rest := tryKeywords rt [js "does", js "not", js "contain"] ts then do
    requireFamily family .contains name pos (js "DOES NOT CONTAIN")
    if let some rest := tryKeywords rt [js "any", js "of"] rest then
      negated (combinedList length param.field .or rest)
    else negated (singleValue length param.field rest)
  else if let some rest := keyword? rt (js "contains") ts then do
    requireFamily family .contains name pos (js "CONTAINS")
    containsValue rt length param.field rest
  else if let some rest := keyword? rt (js "is") ts then do
    requireFamily family .is name pos (js "IS")
    isValue rt length param.field rest
  else
    match ts with
    | ⟨.op op, opPos⟩ :: rest =>
      if family ≠ .compare then
        .error (.syntaxError
          (js "\"" ++ name ++ js "\" does not take a comparison; " ++ familyAdvice family) opPos)
      else comparedValue length param.field op rest
    | ts => .error (.syntaxError (js "expected an operator after \"" ++ name ++ js "\" — " ++
        familyAdvice family ++ js ", or EXISTS") (posOf length ts))

/-- `parseCondition` -/
def parseCondition (ts : List Tok) : Except QueryError (QueryNode × List Tok) :=
  match ts with
  | ⟨.word name, pos⟩ :: rest =>
    if rt.lower name ∈ keywords then
      .error (.syntaxError
        (js "expected a parameter name, found the operator \"" ++ name ++ js "\"") pos)
    else do
      let param ← resolveParameter rt registry name pos
      parseOperator rt length name pos param rest
  | ts => .error (.syntaxError (js "expected a parameter name") (posOf length ts))

/-! ## Parsing makes progress -/

section Progress

variable {rt registry length} {ts : List Tok} {field : JsString}

/-- Fewer tokens than `ts` are left. -/
def Consumes {α : Type} (ts : List Tok) (parsed : Except QueryError (α × List Tok)) : Prop :=
  ∀ a rest, parsed = .ok (a, rest) → rest.length < ts.length

theorem Consumes.error {α : Type} {e : QueryError} :
    Consumes ts (.error e : Except QueryError (α × List Tok)) := by
  rintro a rest ⟨⟩

theorem Consumes.ok {α : Type} {a : α} {rest : List Tok} (h : rest.length < ts.length) :
    Consumes ts (.ok (a, rest)) := by
  rintro _ _ ⟨⟩
  exact h

theorem Consumes.mono {α : Type} {parsed : Except QueryError (α × List Tok)} {ts' : List Tok}
    (h : Consumes ts' parsed) (hle : ts'.length ≤ ts.length) : Consumes ts parsed := by
  intro a rest hok
  exact (h a rest hok).trans_le hle

theorem keyword?_length {word : JsString} {rest : List Tok} (h : keyword? rt word ts = some rest) :
    rest.length < ts.length := by
  unfold keyword? at h
  split at h
  · split_ifs at h
    cases h
    exact Nat.lt_succ_self _
  · cases h

theorem tryKeywords_length {words : List JsString} {rest : List Tok}
    (h : tryKeywords rt words ts = some rest) : rest.length ≤ ts.length := by
  induction words generalizing ts with
  | nil =>
    cases h
    exact le_refl _
  | cons word words ih =>
    obtain ⟨middle, hword, hwords⟩ := Option.bind_eq_some_iff.mp h
    exact (ih hwords).trans (keyword?_length hword).le

theorem consumes_singleValue : Consumes ts (singleValue length field ts) := by
  unfold singleValue
  split
  · exact .error
  · split
    · exact .ok (Nat.lt_succ_self _)
    · exact .error

theorem consumes_valuesLoop : Consumes ts (valuesLoop length field ts) := by
  fun_induction valuesLoop length field ts with
  | case1 => exact .error
  | case2 t rest h => exact .ok (Nat.lt_succ_self _)
  | case3 t rest h hnone => exact .error
  | case4 t h node hsome pos rest ih =>
    intro nodes after hok
    obtain ⟨⟨nodes', after'⟩, hrest, heq⟩ := bind_eq_ok.mp hok
    cases heq
    have := ih _ _ hrest
    simp only [List.length_cons]
    omega
  | case5 t h node hsome pos rest =>
    refine .ok ?_
    simp only [List.length_cons]
    omega
  | case6 => exact .error

theorem consumes_combinedList {kind : BoolKind} :
    Consumes ts (combinedList length field kind ts) := by
  unfold combinedList
  split
  · intro node rest hok
    obtain ⟨⟨nodes, after⟩, hloop, hok⟩ := bind_eq_ok.mp hok
    simp only at hok
    split_ifs at hok
    cases hok
    exact (consumes_valuesLoop _ _ hloop).trans (Nat.lt_succ_self _)
  · exact .error

theorem consumes_negated {parsed : Except QueryError (QueryNode × List Tok)}
    (h : Consumes ts parsed) : Consumes ts (negated parsed) := by
  intro node rest hok
  obtain ⟨⟨inner, after⟩, hparsed, heq⟩ := bind_eq_ok.mp hok
  cases heq
  exact h _ _ hparsed

theorem consumes_containsValue : Consumes ts (containsValue rt length field ts) := by
  unfold containsValue
  split
  · exact consumes_combinedList.mono (tryKeywords_length ‹_›)
  split
  · exact consumes_combinedList.mono (tryKeywords_length ‹_›)
  split
  · exact consumes_negated (consumes_combinedList.mono (tryKeywords_length ‹_›))
  · exact consumes_singleValue

theorem consumes_isValue : Consumes ts (isValue rt length field ts) := by
  unfold isValue
  split
  · exact consumes_combinedList.mono (tryKeywords_length ‹_›)
  split
  · exact consumes_combinedList.mono (tryKeywords_length ‹_›)
  split
  · exact consumes_negated (consumes_combinedList.mono (tryKeywords_length ‹_›))
  split
  · exact consumes_negated (consumes_combinedList.mono (tryKeywords_length ‹_›))
  split
  · exact consumes_negated (consumes_singleValue.mono (tryKeywords_length ‹_›))
  · exact consumes_singleValue

theorem consumes_comparedValue {op : ComparisonOp} :
    Consumes ts (comparedValue length field op ts) := by
  unfold comparedValue
  split
  · exact .error
  · split
    · cases op <;> exact .ok (Nat.lt_succ_self _)
    · cases op <;> exact .ok (Nat.lt_succ_self _)
    · exact .error

theorem consumes_require {family wanted : Family} {name : JsString} {pos : ℕ} {used : JsString}
    {parsed : Except QueryError (QueryNode × List Tok)} (h : Consumes ts parsed) :
    Consumes ts (do
      requireFamily family wanted name pos used
      parsed) := by
  intro node rest hok
  obtain ⟨-, -, hparsed⟩ := bind_eq_ok.mp hok
  exact h node rest hparsed

theorem consumes_parseOperator {name : JsString} {pos : ℕ} {param : ResolvedParam} {t : Tok} :
    Consumes (t :: ts) (parseOperator rt length name pos param ts) := by
  unfold parseOperator
  simp only
  split
  · exact .ok (Nat.lt_succ_of_le (tryKeywords_length ‹_›))
  split
  · exact .ok (Nat.lt_succ_of_le (tryKeywords_length ‹_›))
  split
  · rename_i rest hrest
    have hle := (tryKeywords_length hrest).trans (Nat.le_succ _)
    refine consumes_require ?_
    split
    · have hany := (tryKeywords_length ‹_›).trans hle
      exact consumes_negated (consumes_combinedList.mono hany)
    · exact consumes_negated (consumes_singleValue.mono hle)
  split
  · rename_i rest hrest
    have hle := (keyword?_length hrest).le.trans (Nat.le_succ _)
    exact consumes_require (consumes_containsValue.mono hle)
  split
  · rename_i rest hrest
    have hle := (keyword?_length hrest).le.trans (Nat.le_succ _)
    exact consumes_require (consumes_isValue.mono hle)
  split
  · split_ifs
    · exact .error
    · refine consumes_comparedValue.mono ?_
      simp only [List.length_cons]
      omega
  · exact .error

theorem consumes_parseCondition : Consumes ts (parseCondition rt registry length ts) := by
  unfold parseCondition
  split
  · split_ifs
    · exact .error
    · intro node rest hok
      obtain ⟨param, -, hok⟩ := bind_eq_ok.mp hok
      exact consumes_parseOperator _ _ hok
  · exact .error

end Progress

/-! ## Recursive descent -/

section Descent

/-- What a parse function returns: the query and the tokens left, of which there are fewer. -/
abbrev Parsed (ts : List Tok) : Type :=
  Except QueryError (QueryNode × { rest : List Tok // rest.length < ts.length })

/-- `parseCondition`, with its progress. -/
def conditionParsed (ts : List Tok) : Parsed ts :=
  match h : parseCondition rt registry length ts with
  | .error e => .error e
  | .ok (node, rest) => .ok (node, ⟨rest, consumes_parseCondition node rest h⟩)

mutual

/-- `parseOr` -/
def parseOr (ts : List Tok) : Parsed ts := do
  let (first, ⟨rest, h⟩) ← parseAnd ts
  let (children, ⟨rest', h'⟩) ← parseOrLoop rest
  pure (boolNode .or first children, ⟨rest', by omega⟩)
termination_by 4 * ts.length + 3

/-- The `while` loop of `parseOr`. -/
def parseOrLoop (ts : List Tok) :
    Except QueryError (List QueryNode × { r : List Tok // r.length ≤ ts.length }) :=
  match h : keyword? rt (js "or") ts with
  | some rest => do
    let (child, ⟨rest', h'⟩) ← parseAnd rest
    let (children, ⟨rest'', h''⟩) ← parseOrLoop rest'
    pure (child :: children, ⟨rest'', by have := keyword?_length h; omega⟩)
  | none => pure ([], ⟨ts, le_refl _⟩)
termination_by 4 * ts.length + 3
decreasing_by
  all_goals
    have := keyword?_length h
    omega

/-- `parseAnd` -/
def parseAnd (ts : List Tok) : Parsed ts := do
  let (first, ⟨rest, h⟩) ← parseUnary ts
  let (children, ⟨rest', h'⟩) ← parseAndLoop rest
  pure (boolNode .and first children, ⟨rest', by omega⟩)
termination_by 4 * ts.length + 2

/-- The `while` loop of `parseAnd`. -/
def parseAndLoop (ts : List Tok) :
    Except QueryError (List QueryNode × { r : List Tok // r.length ≤ ts.length }) :=
  match h : keyword? rt (js "and") ts with
  | some rest => do
    let (child, ⟨rest', h'⟩) ← parseUnary rest
    let (children, ⟨rest'', h''⟩) ← parseAndLoop rest'
    pure (child :: children, ⟨rest'', by have := keyword?_length h; omega⟩)
  | none => pure ([], ⟨ts, le_refl _⟩)
termination_by 4 * ts.length + 2
decreasing_by
  all_goals
    have := keyword?_length h
    omega

/-- `parseUnary` -/
def parseUnary (ts : List Tok) : Parsed ts :=
  match h : keyword? rt (js "not") ts with
  | some rest => do
    let (child, ⟨rest', h'⟩) ← parseUnary rest
    pure (.not child, ⟨rest', h'.trans (keyword?_length h)⟩)
  | none =>
    match ts with
    | ⟨.lparen, _⟩ :: rest => do
      let (inner, ⟨rest', h'⟩) ← parseOr rest
      match rest', h' with
      | ⟨.rparen, _⟩ :: after, h' =>
        pure (inner, ⟨after, by simp only [List.length_cons] at h' ⊢; omega⟩)
      | rest', _ =>
        .error (.syntaxError (js "expected a closing parenthesis") (posOf length rest'))
    | ts => conditionParsed rt registry length ts
termination_by 4 * ts.length + 1
decreasing_by
  · have := keyword?_length h
    omega
  · simp only [List.length_cons]
    omega

end

/-- `parse` -/
def parse (ts : List Tok) : Except QueryError QueryNode :=
  match ts with
  | [] => .ok .matchAll
  | ts => do
    let (node, ⟨trailing, _⟩) ← parseOr rt registry length ts
    match trailing with
    | [] => pure node
    | t :: _ => .error (.syntaxError
        (js "unexpected text; conditions must be joined with AND, OR or NOT") t.pos)

end Descent

/-- `parseAdvancedQuery` -/
def parseAdvancedQuery (input : JsString) : Except QueryError QueryNode := do
  let tokens ← tokenize input
  parse rt registry input.length tokens

end AegCloudDfir.Search.Advanced
