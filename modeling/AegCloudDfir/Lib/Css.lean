import Mathlib.Data.Fin.Basic
import Mathlib.Data.List.Basic
import Mathlib.Data.List.Infix

/-!
# Tokens of a style

The tokens of a style attribute, as CSS Syntax has them, and which of them make an engine load
something: the token `url(..)`, and strings directly inside a function that takes images by name,
such as `image-set("..")`. The text is in code units. Escapes are not read: a backslash is a token
of its own here, so what is said of a text is said of one without them.

* `lex` — the tokens of a text.
* `names` — a string stands directly inside one of some functions.
* `exists_infix_of_isUrl` — where something is an address, `url(` stands in the text as it is.
-/

namespace Css

/-- Code units. -/
abbrev Text : Type := List (Fin 0x10000)

/-- A character as a code unit. -/
def unit (c : Char) : Fin 0x10000 := Fin.ofNat 0x10000 c.toNat

/-- A string as code units. -/
def text (s : String) : Text := s.toList.map unit

/-- The kinds of brackets. -/
inductive Bracket : Type where
  | round
  | square
  | curly
  deriving DecidableEq

/-- A token. -/
inductive Token : Type where
  | ident (name : Text)
  /-- with its opening bracket -/
  | function (name : Text)
  | url (value : Text)
  | badUrl
  | string (value : Text)
  | badString
  | hash (name : Text)
  | atKeyword (name : Text)
  /-- a number, with its unit -/
  | numeric
  | whitespace
  | opening (b : Bracket)
  | closing (b : Bracket)
  /-- any other character -/
  | delim (c : Fin 0x10000)
  deriving DecidableEq

/-! ## Characters -/

def isNewline (c : Fin 0x10000) : Bool := c = 0x0A ∨ c = 0x0C ∨ c = 0x0D

def isBlank (c : Fin 0x10000) : Bool := isNewline c ∨ c = 0x09 ∨ c = 0x20

def isDigit (c : Fin 0x10000) : Bool := 0x30 ≤ c ∧ c ≤ 0x39

def isQuote (c : Fin 0x10000) : Bool := c = 0x22 ∨ c = 0x27

/-- A name can start with it. -/
def isIdentStart (c : Fin 0x10000) : Bool :=
  (0x41 ≤ c ∧ c ≤ 0x5A) ∨ (0x61 ≤ c ∧ c ≤ 0x7A) ∨ c = 0x5F ∨ 0x80 ≤ c ∨ c = 0

/-- It can be in a name. -/
def isIdent (c : Fin 0x10000) : Bool := isIdentStart c || isDigit c || c = 0x2D

def isNonPrintable (c : Fin 0x10000) : Bool :=
  c ≤ 0x08 ∨ c = 0x0B ∨ (0x0E ≤ c ∧ c ≤ 0x1F) ∨ c = 0x7F

/-- A letter in lower case. -/
def lowerUnit (c : Fin 0x10000) : Fin 0x10000 := if 0x41 ≤ c ∧ c ≤ 0x5A then c + 0x20 else c

/-- A name in lower case. -/
def lower (name : Text) : Text := name.map lowerUnit

/-! ## Parts of tokens -/

/-- A name starts here. -/
def startsIdent : Text → Bool
  | c :: d :: _ => isIdentStart c || (c = 0x2D && (isIdentStart d || d = 0x2D))
  | [c] => isIdentStart c
  | [] => false

/-- A digit is next. -/
def startsDigit (s : Text) : Bool := s.head?.any isDigit

/-- What follows a sign, if one is next. -/
def afterSign : Text → Text
  | c :: rest => if c = 0x2B ∨ c = 0x2D then rest else c :: rest
  | [] => []

/-- A number starts here. -/
def startsNumber (s : Text) : Bool :=
  startsDigit (afterSign s) ||
    ((afterSign s).head? = some 0x2E && startsDigit ((afterSign s).drop 1))

/-- What follows a fraction, if one is next. -/
def afterFraction (s : Text) : Text :=
  if s.head? = some 0x2E ∧ startsDigit (s.drop 1) then (s.drop 1).dropWhile isDigit else s

/-- What follows an exponent, if one is next. -/
def afterExponent (s : Text) : Text :=
  if (s.head? = some 0x45 ∨ s.head? = some 0x65) ∧ startsDigit (afterSign (s.drop 1)) then
    (afterSign (s.drop 1)).dropWhile isDigit
  else s

/-- What follows a unit or a percent sign, if one is next. -/
def afterUnit (s : Text) : Text :=
  if startsIdent s then s.dropWhile isIdent else if s.head? = some 0x25 then s.drop 1 else s

/-- What follows a number. -/
def afterNumber (s : Text) : Text :=
  afterUnit (afterExponent (afterFraction ((afterSign s).dropWhile isDigit)))

/-- What follows a comment. -/
def afterComment : Text → Text
  | c :: d :: rest => if c = 0x2A ∧ d = 0x2F then rest else afterComment (d :: rest)
  | _ => []

/-- The rest of a string, and what follows. -/
def lexString (quote : Fin 0x10000) : Text → Text → Token × Text
  | value, [] => (.string value, [])
  | value, c :: rest =>
    if c = quote then (.string value, rest)
    else if isNewline c then (.badString, c :: rest)
    else lexString quote (value ++ [c]) rest

/-- What follows an address that is not one. -/
def afterBadUrl (s : Text) : Text := (s.dropWhile fun c => c ≠ 0x29).drop 1

/-- The rest of an address without quotes, and what follows. -/
def lexUrl : Text → Text → Token × Text
  | value, [] => (.url value, [])
  | value, c :: rest =>
    if c = 0x29 then (.url value, rest)
    else if isBlank c then
      match rest.dropWhile isBlank with
      | [] => (.url value, [])
      | d :: rest' => if d = 0x29 then (.url value, rest') else (.badUrl, afterBadUrl (d :: rest'))
    else if isQuote c ∨ c = 0x28 ∨ isNonPrintable c then (.badUrl, afterBadUrl rest)
    else lexUrl (value ++ [c]) rest

/-- A name, a function or an address. -/
def lexIdentLike (s : Text) : Token × Text :=
  let name := s.takeWhile isIdent
  match s.dropWhile isIdent with
  | c :: rest =>
    if c = 0x28 then
      if lower name = text "url" then
        if (rest.dropWhile isBlank).head?.any isQuote then (.function name, rest)
        else lexUrl [] (rest.dropWhile isBlank)
      else (.function name, rest)
    else (.ident name, c :: rest)
  | [] => (.ident name, [])

/-- The bracket that a character is. -/
def bracket (c : Fin 0x10000) : Option Token :=
  if c = 0x28 then some (.opening .round) else if c = 0x29 then some (.closing .round)
  else if c = 0x5B then some (.opening .square) else if c = 0x5D then some (.closing .square)
  else if c = 0x7B then some (.opening .curly) else if c = 0x7D then some (.closing .curly)
  else none

/-- The token that starts with a character, and what follows. -/
def lexToken (c : Fin 0x10000) (rest : Text) : Token × Text :=
  if isBlank c then (.whitespace, rest.dropWhile isBlank)
  else if isQuote c then lexString c [] rest
  else if c = 0x23 ∧ rest.head?.any isIdent then
    (.hash (rest.takeWhile isIdent), rest.dropWhile isIdent)
  else match bracket c with
    | some token => (token, rest)
    | none =>
      if startsNumber (c :: rest) then (.numeric, afterNumber (c :: rest))
      else if c = 0x2D ∧ rest.take 2 = text "->" then (.delim c, rest.drop 2)
      else if startsIdent (c :: rest) then lexIdentLike (c :: rest)
      else if c = 0x3C ∧ rest.take 3 = text "!--" then (.delim c, rest.drop 3)
      else if c = 0x40 ∧ startsIdent rest then
        (.atKeyword (rest.takeWhile isIdent), rest.dropWhile isIdent)
      else (.delim c, rest)

/-- The tokens of a text; the number is that of the steps that are left. -/
def lexFrom : ℕ → Text → List Token
  | 0, _ => []
  | _ + 1, [] => []
  | steps + 1, c :: rest =>
    if c = 0x2F ∧ rest.head? = some 0x2A then lexFrom steps (afterComment (rest.drop 1))
    else (lexToken c rest).1 :: lexFrom steps (lexToken c rest).2

/-- The tokens of a text. -/
def lex (s : Text) : List Token := lexFrom s.length s

/-! ## What is loaded -/

/-- A token that is an address, or a function that takes one. -/
def isUrl : Token → Bool
  | .url _ => true
  | .function name => lower name = text "url"
  | _ => false

/-- A string stands directly inside one of some functions, given the brackets that are open. -/
def names (isImage : Text → Bool) : List (Bracket × Bool) → List Token → Bool
  | _, [] => false
  | stack, .function name :: tokens =>
    names isImage ((.round, isImage (lower name)) :: stack) tokens
  | stack, .opening b :: tokens => names isImage ((b, false) :: stack) tokens
  | (b', image) :: stack, .closing b :: tokens =>
    names isImage (if b = b' then stack else (b', image) :: stack) tokens
  | (b, image) :: stack, .string _ :: tokens => image || names isImage ((b, image) :: stack) tokens
  | stack, _ :: tokens => names isImage stack tokens

/-- The functions that take the name of an image as a string. -/
def imageFunctions : List Text :=
  [text "image-set", text "-webkit-image-set", text "image", text "src"]

/-- An image is named by a function other than `url()`. -/
def namesImage (s : Text) : Bool := names (fun name => name ∈ imageFunctions) [] (lex s)

/-- **An engine loads something** for what a style says. -/
def loads (s : Text) : Bool := (lex s).any isUrl || namesImage s

/-! ## What is left is the end of the text -/

theorem afterSign_suffix (s : Text) : afterSign s <:+ s := by
  cases s with
  | nil => exact List.suffix_refl _
  | cons c rest =>
    rw [afterSign]
    split
    · exact List.suffix_cons c rest
    · exact List.suffix_refl _

theorem afterFraction_suffix (s : Text) : afterFraction s <:+ s := by
  rw [afterFraction]
  split
  · exact (List.dropWhile_suffix _).trans (List.drop_suffix 1 s)
  · exact List.suffix_refl _

theorem afterExponent_suffix (s : Text) : afterExponent s <:+ s := by
  rw [afterExponent]
  split
  · exact ((List.dropWhile_suffix _).trans (afterSign_suffix _)).trans (List.drop_suffix 1 s)
  · exact List.suffix_refl _

theorem afterUnit_suffix (s : Text) : afterUnit s <:+ s := by
  rw [afterUnit]
  split
  · exact List.dropWhile_suffix _
  · split
    · exact List.drop_suffix 1 s
    · exact List.suffix_refl _

theorem afterComment_suffix (s : Text) : afterComment s <:+ s := by
  fun_induction afterComment s with
  | case1 c d rest h => exact List.suffix_append [c, d] rest
  | case2 c d rest h ih => exact ih.trans (List.suffix_cons c (d :: rest))
  | case3 => exact List.nil_suffix

theorem lexString_suffix (quote : Fin 0x10000) (value s : Text) :
    (lexString quote value s).2 <:+ s := by
  fun_induction lexString quote value s with
  | case1 | case3 => exact List.suffix_refl _
  | case2 => exact List.suffix_cons _ _
  | case4 _ _ _ _ _ ih => exact ih.trans (List.suffix_cons _ _)

theorem afterBadUrl_suffix (s : Text) : afterBadUrl s <:+ s :=
  (List.drop_suffix 1 _).trans (List.dropWhile_suffix _)

theorem lexUrl_suffix (value s : Text) : (lexUrl value s).2 <:+ s := by
  fun_induction lexUrl value s with
  | case1 => exact List.suffix_refl _
  | case2 => exact List.suffix_cons _ _
  | case3 => exact List.nil_suffix
  | case4 value c rest _ _ rest' hblank =>
    have hsuffix : 0x29 :: rest' <:+ rest := hblank ▸ List.dropWhile_suffix isBlank
    exact (List.suffix_cons _ _).trans (hsuffix.trans (List.suffix_cons c rest))
  | case5 value c rest _ _ d rest' hblank =>
    have hsuffix : d :: rest' <:+ rest := hblank ▸ List.dropWhile_suffix isBlank
    exact (afterBadUrl_suffix _).trans (hsuffix.trans (List.suffix_cons c rest))
  | case6 => exact (afterBadUrl_suffix _).trans (List.suffix_cons _ _)
  | case7 _ _ _ _ _ _ ih => exact ih.trans (List.suffix_cons _ _)

theorem lexString_cases (quote : Fin 0x10000) (value s : Text) :
    (∃ value', (lexString quote value s).1 = .string value') ∨
      (lexString quote value s).1 = .badString := by
  fun_induction lexString quote value s with
  | case1 value | case2 value => exact .inl ⟨value, rfl⟩
  | case3 => exact .inr rfl
  | case4 _ _ _ _ _ ih => exact ih

theorem lexUrl_ne_function (value s name : Text) : (lexUrl value s).1 ≠ .function name := by
  fun_induction lexUrl value s with
  | case7 _ _ _ _ _ _ ih => exact ih
  | _ => rintro ⟨⟩

/-! ## Functions stand in the text -/

/-- What a token says of the text it starts: the name of a function is there, with its bracket, and
so is `url(` for an address. -/
def Written (s : Text) : Token → Prop
  | .function name => ∃ rest, s = name ++ 0x28 :: rest
  | .url _ => ∃ name rest, lower name = text "url" ∧ s = name ++ 0x28 :: rest
  | _ => True

theorem written_lexIdentLike (s : Text) :
    Written s (lexIdentLike s).1 ∧ (lexIdentLike s).2 <:+ s.dropWhile isIdent := by
  have hsplit : s.takeWhile isIdent ++ s.dropWhile isIdent = s := List.takeWhile_append_dropWhile
  rw [lexIdentLike]
  split
  · rename_i c rest hrest
    rw [hrest] at hsplit
    have hinner : rest <:+ c :: rest := List.suffix_cons c rest
    rw [hrest]
    split
    · rename_i hround
      rw [hround] at hsplit
      split
      · rename_i hurl
        split
        · exact ⟨⟨rest, hsplit.symm⟩, hinner⟩
        · -- an address, or what is none
          have hafter := lexUrl_suffix [] (rest.dropWhile isBlank)
          refine ⟨?_, hafter.trans ((List.dropWhile_suffix _).trans hinner)⟩
          cases hlex : (lexUrl [] (rest.dropWhile isBlank)).1 with
          | url value => exact ⟨_, rest, hurl, hsplit.symm⟩
          | function name => exact absurd hlex (lexUrl_ne_function _ _ _)
          | _ => trivial
      · exact ⟨⟨rest, hsplit.symm⟩, hinner⟩
    · exact ⟨trivial, List.suffix_refl _⟩
  · exact ⟨trivial, List.nil_suffix⟩

theorem isIdent_of_startsIdent {c : Fin 0x10000} {rest : Text}
    (h : startsIdent (c :: rest) = true) : isIdent c = true := by
  rw [isIdent]
  cases rest with
  | nil =>
    rw [startsIdent] at h
    rw [h]
    rfl
  | cons d rest =>
    rw [startsIdent, Bool.or_eq_true, Bool.and_eq_true] at h
    rcases h with h | ⟨h, -⟩
    · rw [h]
      rfl
    · rw [h, Bool.or_true]

/-- A number takes something. -/
theorem afterNumber_suffix_of_startsNumber {c : Fin 0x10000} {rest : Text}
    (h : startsNumber (c :: rest) = true) : afterNumber (c :: rest) <:+ rest := by
  have hlast : afterNumber (c :: rest) <:+
      afterFraction ((afterSign (c :: rest)).dropWhile isDigit) :=
    (afterUnit_suffix _).trans (afterExponent_suffix _)
  refine hlast.trans ?_
  by_cases hsign : c = 0x2B ∨ c = 0x2D
  · have hafter : afterSign (c :: rest) = rest := if_pos hsign
    rw [hafter]
    exact (afterFraction_suffix _).trans (List.dropWhile_suffix _)
  · have hafter : afterSign (c :: rest) = c :: rest := if_neg hsign
    rw [hafter]
    rw [startsNumber, hafter, Bool.or_eq_true, Bool.and_eq_true] at h
    by_cases hdigit : isDigit c = true
    · rw [List.dropWhile_cons_of_pos hdigit]
      exact (afterFraction_suffix _).trans (List.dropWhile_suffix _)
    · obtain ⟨hpoint, hfraction⟩ := h.resolve_left hdigit
      rw [List.dropWhile_cons_of_neg hdigit, afterFraction,
        if_pos ⟨of_decide_eq_true hpoint, hfraction⟩]
      exact List.dropWhile_suffix _

theorem written_lexToken (c : Fin 0x10000) (rest : Text) :
    Written (c :: rest) (lexToken c rest).1 ∧ (lexToken c rest).2 <:+ rest := by
  have hrest : rest <:+ rest := List.suffix_refl rest
  rw [lexToken]
  split
  · exact ⟨trivial, (List.dropWhile_suffix _).trans hrest⟩
  · split
    · refine ⟨?_, (lexString_suffix c [] rest).trans hrest⟩
      obtain ⟨value, h⟩ | h := lexString_cases c [] rest
      · rw [h]
        trivial
      · rw [h]
        trivial
    · split
      · exact ⟨trivial, (List.dropWhile_suffix _).trans hrest⟩
      · split
        · rename_i token hbracket
          refine ⟨?_, hrest⟩
          rw [bracket] at hbracket
          split_ifs at hbracket <;> obtain rfl := Option.some.inj hbracket <;> trivial
        · split
          · rename_i hnumber
            exact ⟨trivial, afterNumber_suffix_of_startsNumber hnumber⟩
          · split
            · exact ⟨trivial, (List.drop_suffix 2 rest).trans hrest⟩
            · split
              · rename_i hident
                obtain ⟨hwritten, hsuffix⟩ := written_lexIdentLike (c :: rest)
                rw [List.dropWhile_cons_of_pos (isIdent_of_startsIdent hident)] at hsuffix
                exact ⟨hwritten, hsuffix.trans (List.dropWhile_suffix _)⟩
              · split
                · exact ⟨trivial, (List.drop_suffix 3 rest).trans hrest⟩
                · split
                  · exact ⟨trivial, (List.dropWhile_suffix _).trans hrest⟩
                  · exact ⟨trivial, hrest⟩

/-- **Every token is written somewhere in the text.** -/
theorem exists_suffix_of_mem_lexFrom {steps : ℕ} {s : Text} {token : Token}
    (h : token ∈ lexFrom steps s) : ∃ end', end' <:+ s ∧ Written end' token := by
  induction steps generalizing s with
  | zero => cases h
  | succ steps ih =>
    cases s with
    | nil => cases h
    | cons c rest =>
      rw [lexFrom] at h
      split at h
      · obtain ⟨end', hend, hwritten⟩ := ih h
        refine ⟨end', hend.trans ?_, hwritten⟩
        exact (afterComment_suffix _).trans ((List.drop_suffix 1 rest).trans
          (List.suffix_cons c rest))
      · obtain ⟨hwritten, hsuffix⟩ := written_lexToken c rest
        rcases List.mem_cons.mp h with rfl | h
        · exact ⟨_, List.suffix_refl _, hwritten⟩
        · obtain ⟨end', hend, hwritten'⟩ := ih h
          exact ⟨end', hend.trans (hsuffix.trans (List.suffix_cons c rest)), hwritten'⟩

/-- **Where there is no `url(`**, in any case, there is no address. -/
theorem exists_infix_of_isUrl {s : Text} (h : (lex s).any isUrl = true) :
    ∃ name, lower name = text "url" ∧ name ++ [0x28] <:+: s := by
  obtain ⟨token, hmem, hurl⟩ := List.any_eq_true.mp h
  obtain ⟨end', ⟨before, rfl⟩, hwritten⟩ := exists_suffix_of_mem_lexFrom hmem
  have hinfix : ∀ (name rest : Text), end' = name ++ 0x28 :: rest →
      name ++ [0x28] <:+: before ++ end' := by
    rintro name rest rfl
    exact ⟨before, rest, by simp⟩
  cases token with
  | function name =>
    obtain ⟨rest, hrest⟩ := hwritten
    exact ⟨name, of_decide_eq_true hurl, hinfix name rest hrest⟩
  | url value =>
    obtain ⟨name, rest, hname, hrest⟩ := hwritten
    exact ⟨name, hname, hinfix name rest hrest⟩
  | _ => cases hurl

end Css
