import Mathlib.Data.List.Basic

/-!
# Comma-separated values

The grammar of RFC 4180 over any alphabet with four marks: the quote, the delimiter and the two
parts of a line end. A field is plain text without marks, or quoted text in which every mark may
stand and a quote is written twice; a line is fields with delimiters between them, and ends with
both parts of a line end. `parse` reads a text by this grammar, one symbol after the other; a line
end behind the last line does not start another line.

* `parse` — the lines of a text with their fields, if it is of the grammar.
* `parse_lines` — lines of fields are read back, as long as every field with a mark in it is
  quoted.
-/

namespace Rfc4180

universe u

variable {σ : Type u} [DecidableEq σ]

/-- The symbols that structure a text. -/
structure Marks (σ : Type u) where
  quote : σ
  delimiter : σ
  cr : σ
  lf : σ
  quote_ne_delimiter : quote ≠ delimiter
  quote_ne_cr : quote ≠ cr
  quote_ne_lf : quote ≠ lf
  delimiter_ne_cr : delimiter ≠ cr
  delimiter_ne_lf : delimiter ≠ lf
  cr_ne_lf : cr ≠ lf

/-- One of the marks. -/
def Marks.IsMark (m : Marks σ) (c : σ) : Prop :=
  c = m.quote ∨ c = m.delimiter ∨ c = m.cr ∨ c = m.lf

instance (m : Marks σ) (c : σ) : Decidable (m.IsMark c) := inferInstanceAs (Decidable (_ ∨ _))

/-- Where the reader stands. -/
inductive Mode : Type where
  /-- in front of a field -/
  | start
  /-- in a field without quotes, or behind a field -/
  | plain
  /-- between quotes -/
  | quoted
  /-- behind a quote that ends the field or is the first of two -/
  | quote
  /-- inside a line end -/
  | lineEnd
  deriving DecidableEq

/-- Reads on, with the part of the field and of the line that has been read. -/
def parse (m : Marks σ) : Mode → List σ → List (List σ) → List σ →
    Option (List (List (List σ)))
  | .start, _, line, [] => if line = [] then some [] else some [line ++ [[]]]
  | .plain, field, line, [] => some [line ++ [field]]
  | .quote, field, line, [] => some [line ++ [field]]
  | .quoted, _, _, [] => none
  | .lineEnd, _, _, [] => none
  | .start, field, line, c :: rest =>
    if c = m.quote then parse m .quoted [] line rest
    else if c = m.delimiter then parse m .start [] (line ++ [[]]) rest
    else if c = m.cr then parse m .lineEnd [] line rest
    else if c = m.lf then none
    else parse m .plain (field ++ [c]) line rest
  | .plain, field, line, c :: rest =>
    if c = m.delimiter then parse m .start [] (line ++ [field]) rest
    else if c = m.cr then parse m .lineEnd field line rest
    else if c = m.quote ∨ c = m.lf then none
    else parse m .plain (field ++ [c]) line rest
  | .quoted, field, line, c :: rest =>
    if c = m.quote then parse m .quote field line rest
    else parse m .quoted (field ++ [c]) line rest
  | .quote, field, line, c :: rest =>
    if c = m.quote then parse m .quoted (field ++ [c]) line rest
    else if c = m.delimiter then parse m .start [] (line ++ [field]) rest
    else if c = m.cr then parse m .lineEnd field line rest
    else none
  | .lineEnd, field, line, c :: rest =>
    if c = m.lf then (parse m .start [] [] rest).map ((line ++ [field]) :: ·) else none

/-- A field as it is written, in quotes or not. -/
def writeField (m : Marks σ) (inQuotes : Bool) (field : List σ) : List σ :=
  if inQuotes then
    m.quote :: ((field.flatMap fun c => if c = m.quote then [c, c] else [c]) ++ [m.quote])
  else field

/-- Fields with delimiters between them. -/
def writeFields (m : Marks σ) : List (List σ) → List σ
  | [] => []
  | [field] => field
  | field :: next :: rest => field ++ m.delimiter :: writeFields m (next :: rest)

section

variable {m : Marks σ} {field : List σ} {line : List (List σ)} {c : σ} {rest : List σ}

theorem parse_start_cons : parse m .start field line (c :: rest) =
    if c = m.quote then parse m .quoted [] line rest
    else if c = m.delimiter then parse m .start [] (line ++ [[]]) rest
    else if c = m.cr then parse m .lineEnd [] line rest
    else if c = m.lf then none
    else parse m .plain (field ++ [c]) line rest := rfl

theorem parse_plain_cons : parse m .plain field line (c :: rest) =
    if c = m.delimiter then parse m .start [] (line ++ [field]) rest
    else if c = m.cr then parse m .lineEnd field line rest
    else if c = m.quote ∨ c = m.lf then none
    else parse m .plain (field ++ [c]) line rest := rfl

theorem parse_quoted_cons : parse m .quoted field line (c :: rest) =
    if c = m.quote then parse m .quote field line rest
    else parse m .quoted (field ++ [c]) line rest := rfl

theorem parse_quote_cons : parse m .quote field line (c :: rest) =
    if c = m.quote then parse m .quoted (field ++ [c]) line rest
    else if c = m.delimiter then parse m .start [] (line ++ [field]) rest
    else if c = m.cr then parse m .lineEnd field line rest
    else none := rfl

theorem parse_lineEnd_cons : parse m .lineEnd field line (c :: rest) =
    if c = m.lf then (parse m .start [] [] rest).map ((line ++ [field]) :: ·) else none := rfl

/-- Plain text is read to its end. -/
theorem parse_plain_append {text : List σ} (htext : ∀ c ∈ text, ¬ m.IsMark c) :
    parse m .plain field line (text ++ rest) = parse m .plain (field ++ text) line rest := by
  induction text generalizing field with
  | nil => rw [List.nil_append, List.append_nil]
  | cons c text ih =>
    have hc := htext c (List.mem_cons_self ..)
    rw [Marks.IsMark, not_or, not_or, not_or] at hc
    rw [List.cons_append, parse_plain_cons, if_neg hc.2.1, if_neg hc.2.2.1,
      if_neg (not_or.mpr ⟨hc.1, hc.2.2.2⟩), ih fun d hd => htext d (.tail _ hd),
      List.append_assoc]
    rfl

/-- Quoted text is read to its end, with the quotes in it once. -/
theorem parse_quoted_append (text : List σ) :
    parse m .quoted field line
        ((text.flatMap fun c => if c = m.quote then [c, c] else [c]) ++ m.quote :: rest) =
      parse m .quote (field ++ text) line rest := by
  induction text generalizing field with
  | nil => rw [List.flatMap_nil, List.nil_append, parse_quoted_cons, if_pos rfl, List.append_nil]
  | cons c text ih =>
    rw [List.flatMap_cons, List.append_assoc]
    by_cases hc : c = m.quote
    · rw [if_pos hc, List.cons_append, List.cons_append, List.nil_append, parse_quoted_cons,
        if_pos hc, parse_quote_cons, if_pos hc, ih, List.append_assoc]
      rfl
    · rw [if_neg hc, List.cons_append, List.nil_append, parse_quoted_cons, if_neg hc, ih,
        List.append_assoc]
      rfl

theorem parse_plain_delimiter :
    parse m .plain field line (m.delimiter :: rest) = parse m .start [] (line ++ [field]) rest := by
  rw [parse_plain_cons, if_pos rfl]

theorem parse_plain_cr :
    parse m .plain field line (m.cr :: rest) = parse m .lineEnd field line rest := by
  rw [parse_plain_cons, if_neg m.delimiter_ne_cr.symm, if_pos rfl]

/-- What ends a field ends it behind its closing quote as well. -/
theorem parse_quote_eq (hc : c = m.delimiter ∨ c = m.cr) :
    parse m .quote field line (c :: rest) = parse m .plain field line (c :: rest) := by
  rcases hc with rfl | rfl
  · rw [parse_plain_delimiter, parse_quote_cons, if_neg m.quote_ne_delimiter.symm, if_pos rfl]
  · rw [parse_plain_cr, parse_quote_cons, if_neg m.quote_ne_cr.symm, if_neg m.delimiter_ne_cr.symm,
      if_pos rfl]

/-- What ends a field ends an empty one. -/
theorem parse_start_eq (hc : c = m.delimiter ∨ c = m.cr) :
    parse m .start [] line (c :: rest) = parse m .plain [] line (c :: rest) := by
  rcases hc with rfl | rfl
  · rw [parse_plain_delimiter, parse_start_cons, if_neg m.quote_ne_delimiter.symm, if_pos rfl]
  · rw [parse_plain_cr, parse_start_cons, if_neg m.quote_ne_cr.symm, if_neg m.delimiter_ne_cr.symm,
      if_pos rfl]

/-- A field that is followed by a delimiter or a line end is read as it was, if it is in quotes or
has no marks. -/
theorem parse_writeField {inQuotes : Bool}
    (hquotes : inQuotes = false → ∀ d ∈ field, ¬ m.IsMark d) (hc : c = m.delimiter ∨ c = m.cr) :
    parse m .start [] line (writeField m inQuotes field ++ c :: rest) =
      parse m .plain field line (c :: rest) := by
  cases inQuotes with
  | true =>
    rw [writeField, if_pos rfl, List.cons_append, parse_start_cons, if_pos rfl, List.append_assoc,
      List.singleton_append, parse_quoted_append, List.nil_append, parse_quote_eq hc]
  | false =>
    rw [writeField, if_neg Bool.false_ne_true]
    rcases field with _ | ⟨d, field⟩
    · rw [List.nil_append, parse_start_eq hc]
    · have hd := hquotes rfl d (List.mem_cons_self ..)
      rw [Marks.IsMark, not_or, not_or, not_or] at hd
      rw [List.cons_append, parse_start_cons, if_neg hd.1, if_neg hd.2.1, if_neg hd.2.2.1,
        if_neg hd.2.2.2, parse_plain_append fun e he => hquotes rfl e (.tail _ he)]
      rfl

/-- The fields of a line are read one after the other. -/
theorem parse_writeFields {inQuotes : List σ → Bool}
    (hquotes : ∀ field, inQuotes field = false → ∀ d ∈ field, ¬ m.IsMark d)
    {fields : List (List σ)} (hfields : fields ≠ []) (line : List (List σ)) :
    parse m .start [] line
        (writeFields m (fields.map fun field => writeField m (inQuotes field) field) ++
          m.cr :: m.lf :: rest) =
      (parse m .start [] [] rest).map ((line ++ fields) :: ·) := by
  obtain ⟨field, fields, rfl⟩ := List.exists_cons_of_ne_nil hfields
  clear hfields
  induction fields generalizing field line with
  | nil =>
    rw [List.map_cons, List.map_nil, writeFields,
      parse_writeField (hquotes field) (.inr rfl), parse_plain_cr, parse_lineEnd_cons, if_pos rfl]
  | cons next fields ih =>
    rw [List.map_cons, List.map_cons, writeFields, List.append_assoc, List.cons_append,
      parse_writeField (hquotes field) (.inl rfl), parse_plain_delimiter, ← List.map_cons
        (f := fun field => writeField m (inQuotes field) field), ih, List.append_assoc]
    rfl

/-- **Lines are read back.** -/
theorem parse_lines {inQuotes : List σ → Bool}
    (hquotes : ∀ field, inQuotes field = false → ∀ d ∈ field, ¬ m.IsMark d)
    {lines : List (List (List σ))} (hlines : ∀ line ∈ lines, line ≠ []) :
    parse m .start [] []
        (lines.flatMap fun line =>
          writeFields m (line.map fun field => writeField m (inQuotes field) field) ++
            [m.cr, m.lf]) = some lines := by
  induction lines with
  | nil => rfl
  | cons line lines ih =>
    rw [List.flatMap_cons, List.append_assoc, List.cons_append, List.cons_append, List.nil_append,
      parse_writeFields hquotes (hlines line (List.mem_cons_self ..)),
      ih fun other h => hlines other (.tail _ h)]
    rfl

end

end Rfc4180
