import AegCloudDfir.Search.Fields

/-!
# Tokens of the query language

`packages/search/src/lexer.ts`. The scanners take what is left of the input; the
position in an error or a token is the length of the input less what is left.
-/

namespace AegCloudDfir.Search

/-- `ComparisonOp`. -/
inductive ComparisonOp : Type where
  | ge
  | le
  | gt
  | lt
  | eq
  deriving DecidableEq

/-- The operator as it is written. -/
def ComparisonOp.text : ComparisonOp → JsString
  | .ge => js ">="
  | .le => js "<="
  | .gt => js ">"
  | .lt => js "<"
  | .eq => js "="

/-- `type` of a token, with what comes with it. -/
inductive TokenKind : Type where
  | lparen
  | rparen
  | lbracket
  | rbracket
  | colon
  | and
  | or
  | not
  | op (op : ComparisonOp)
  | phrase (value : JsString) (proximity : Option ℕ)
  | word (value : JsString) (fuzzy : Option ℕ)
  deriving DecidableEq

/-- `Token`. -/
structure Token where
  kind : TokenKind
  pos : ℕ
  deriving DecidableEq

/-- `/\s/`. -/
def isSpace (c : CodeUnit) : Bool :=
  (0x09 ≤ c ∧ c ≤ 0x0D) ∨ c = 0x20 ∨ c = 0xA0 ∨ c = 0x1680 ∨ (0x2000 ≤ c ∧ c ≤ 0x200A) ∨
    c = 0x2028 ∨ c = 0x2029 ∨ c = 0x202F ∨ c = 0x205F ∨ c = 0x3000 ∨ c = 0xFEFF

/-- `WORD_BREAK`. -/
def wordBreak : List CodeUnit :=
  [unitOf '(', unitOf ')', unitOf '[', unitOf ']', unitOf ':', 0x22, unitOf '<', unitOf '>',
    unitOf '=', unitOf '&', unitOf '|']

/-- `DEFAULT_FUZZY_EDITS`. -/
def defaultFuzzyEdits : ℕ := 2

/-- `\d` as a test. -/
def isDigit (c : CodeUnit) : Bool := IsDigit c

/-- `readNumber`. -/
def readNumber (input : JsString) : Option (ℕ × JsString) :=
  let digits := input.takeWhile isDigit
  if digits = [] then none else some (parseDecimal digits, input.dropWhile isDigit)

/-- The loop over a quoted phrase, behind the opening quote; `none` if it does not end. -/
def scanPhrase : JsString → Option (JsString × JsString)
  | [] => none
  | 0x5C :: c :: rest =>
    if c = 0x22 ∨ c = 0x5C then (scanPhrase rest).map fun (value, rest) => (c :: value, rest)
    else (scanPhrase (c :: rest)).map fun (value, rest) => (0x5C :: value, rest)
  | c :: rest =>
    if c = 0x22 then some ([], rest)
    else (scanPhrase rest).map fun (value, rest) => (c :: value, rest)

/-- `/(T\d{2}|:\d{2})$/.test(word)`. -/
def endsLikeTime (word : JsString) : Bool :=
  match word.reverse with
  | d :: e :: c :: _ => isDigit d && isDigit e && (c = unitOf 'T' || c = unitOf ':')
  | _ => false

/-- The loop over a bare word, with the word so far. -/
def scanWord (word : JsString) : JsString → JsString × JsString
  | [] => (word, [])
  | c :: rest =>
    if c = unitOf ':' ∧ endsLikeTime word then scanWord (word ++ [c]) rest
    else if isSpace c ∨ c ∈ wordBreak then (word, c :: rest)
    else scanWord (word ++ [c]) rest

/-- `/^(.*?)~(\d*)$/.exec(word)`: the two groups. The match is at the last `~`,
since only digits may follow it. -/
def fuzzyMatch (word : JsString) : Option (JsString × JsString) :=
  match word.reverse.dropWhile (· ≠ unitOf '~') with
  | [] => none
  | _ :: base =>
    let digits := (word.reverse.takeWhile (· ≠ unitOf '~')).reverse
    if digits.all isDigit then some (base.reverse, digits) else none

/-- The token of a bare word that is not a keyword. -/
def wordToken (word : JsString) (pos : ℕ) : Except QueryError TokenKind :=
  match fuzzyMatch word with
  | some (base, digits) =>
    if base.length = 0 then
      .error (.syntaxError (js "fuzzy operator \"~\" requires a preceding term") pos)
    else if unitOf '~' ∈ base then
      .error (.syntaxError (js "multiple \"~\" operators in one term") pos)
    else
      .ok (.word base (some (if 0 < digits.length then parseDecimal digits else defaultFuzzyEdits)))
  | none =>
    if unitOf '~' ∈ word then
      .error (.syntaxError (js "\"~\" is only valid as a term suffix (term~ or term~2)") pos)
    else
      .ok (.word word none)

/-! ## Scanning makes progress -/

theorem length_scanPhrase {input value rest : JsString}
    (h : scanPhrase input = some (value, rest)) : rest.length < input.length := by
  fun_induction scanPhrase input generalizing value rest with
  | case1 => cases h
  | case2 c input hc ih | case5 c input hne hc ih =>
    obtain ⟨⟨v, r⟩, hscan, heq⟩ := Option.map_eq_some_iff.mp h
    cases heq
    have := ih hscan
    simp only [List.length_cons]
    omega
  | case3 c input hc ih =>
    obtain ⟨⟨v, r⟩, hscan, heq⟩ := Option.map_eq_some_iff.mp h
    cases heq
    have := ih hscan
    simp only [List.length_cons] at this ⊢
    omega
  | case4 c input =>
    cases h
    exact Nat.lt_succ_self _

theorem length_readNumber {input rest : JsString} {n : ℕ}
    (h : readNumber input = some (n, rest)) : rest.length ≤ input.length := by
  rw [readNumber] at h
  split_ifs at h
  cases h
  exact (List.dropWhile_sublist isDigit).length_le

theorem length_scanWord (word input : JsString) :
    (scanWord word input).1.length + (scanWord word input).2.length =
      word.length + input.length := by
  fun_induction scanWord word input with
  | case1 word => rfl
  | case2 word c rest h ih | case4 word c rest h hbreak ih =>
    rw [ih]
    simp only [List.length_append, List.length_cons, List.length_nil]
    omega
  | case3 word c rest h hbreak => rfl

/-! ## `tokenize` -/

theorem behind_nil : ([] : JsString).length ≤ ([] : JsString).length := le_refl _

theorem behind_cons (c : CodeUnit) (rest : JsString) : (c :: rest).length ≤ (c :: rest).length :=
  le_refl _

theorem behind_number {rest after : JsString} {n : ℕ} (c : CodeUnit)
    (h : readNumber rest = some (n, after)) : after.length ≤ (c :: rest).length :=
  (length_readNumber h).trans (Nat.le_succ _)

/-- The proximity suffix behind a phrase that ends at `rest`. -/
def scanProximity (pos : ℕ) (rest : JsString) :
    Except QueryError (Option ℕ × { r : JsString // r.length ≤ rest.length }) :=
  match rest with
  | [] => .ok (none, ⟨[], behind_nil⟩)
  | c :: rest =>
    if c = unitOf '~' then
      match h : readNumber rest with
      | none =>
        .error (.syntaxError (js "expected a number after \"~\" for proximity") pos)
      | some (n, after) => .ok (some n, ⟨after, behind_number c h⟩)
    else .ok (none, ⟨c :: rest, behind_cons c rest⟩)

/-- The loop of `tokenize`, with the length of the whole input. -/
def tokenizeFrom (length : ℕ) (input : JsString) : Except QueryError (List Token) :=
  let pos := length - input.length
  match input with
  | [] => .ok []
  | ch :: rest =>
    if isSpace ch then tokenizeFrom length rest
    else if ch = unitOf '(' then do
      pure (⟨.lparen, pos⟩ :: (← tokenizeFrom length rest))
    else if ch = unitOf ')' then do
      pure (⟨.rparen, pos⟩ :: (← tokenizeFrom length rest))
    else if ch = unitOf '[' then do
      pure (⟨.lbracket, pos⟩ :: (← tokenizeFrom length rest))
    else if ch = unitOf ']' then do
      pure (⟨.rbracket, pos⟩ :: (← tokenizeFrom length rest))
    else if ch = unitOf ':' then do
      pure (⟨.colon, pos⟩ :: (← tokenizeFrom length rest))
    else if ch = unitOf '&' then
      match rest with
      | [] => .error (.syntaxError (js "unexpected \"&\" — use && or AND") pos)
      | next :: rest =>
        if next = unitOf '&' then do
          pure (⟨.and, pos⟩ :: (← tokenizeFrom length rest))
        else .error (.syntaxError (js "unexpected \"&\" — use && or AND") pos)
    else if ch = unitOf '|' then
      match rest with
      | [] => .error (.syntaxError (js "unexpected \"|\" — use || or OR") pos)
      | next :: rest =>
        if next = unitOf '|' then do
          pure (⟨.or, pos⟩ :: (← tokenizeFrom length rest))
        else .error (.syntaxError (js "unexpected \"|\" — use || or OR") pos)
    else if ch = unitOf '>' ∨ ch = unitOf '<' then
      let strict := if ch = unitOf '>' then ComparisonOp.gt else .lt
      match rest with
      | [] => .ok [⟨.op strict, pos⟩]
      | next :: rest =>
        if next = unitOf '=' then do
          let op := if ch = unitOf '>' then ComparisonOp.ge else .le
          pure (⟨.op op, pos⟩ :: (← tokenizeFrom length rest))
        else do
          pure (⟨.op strict, pos⟩ :: (← tokenizeFrom length (next :: rest)))
    else if ch = unitOf '=' then do
      pure (⟨.op .eq, pos⟩ :: (← tokenizeFrom length rest))
    else if ch = 0x22 then
      match _h : scanPhrase rest with
      | none => .error (.syntaxError (js "unterminated quoted phrase") pos)
      | some (value, after) => do
        let (proximity, after) ← scanProximity (length - after.length) after
        pure (⟨.phrase value proximity, pos⟩ :: (← tokenizeFrom length after.val))
    else
      match _h : scanWord [] (ch :: rest) with
      | (word, after) =>
        if _hword : word = [] then
          .error (.syntaxError (js "unexpected character \"" ++ [ch] ++ js "\"") pos)
        else do
          let kind ←
            (if word = js "AND" then pure .and
            else if word = js "OR" then pure .or
            else if word = js "NOT" then pure .not
            else wordToken word pos)
          pure (⟨kind, pos⟩ :: (← tokenizeFrom length after))
termination_by input.length
decreasing_by
  all_goals simp only [List.length_cons]
  all_goals try omega
  · have := length_scanPhrase _h
    have := after.property
    omega
  · have := length_scanWord [] (ch :: rest)
    have := List.length_pos_iff.mpr _hword
    simp only [_h, List.length_cons, List.length_nil] at *
    omega

/-- `tokenize`. -/
def tokenize (input : JsString) : Except QueryError (List Token) :=
  tokenizeFrom input.length input

end AegCloudDfir.Search
