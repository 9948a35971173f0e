import AegCloudDfir.Evidence.ObjectKeys
import AegCloudDfir.Export.Mailbox

/-!
# The guard of the digest file

`assertNativeDigestsPresent` of `apps/worker/src/processors/pst-export.ts` looks at the text that
`buildNativeDigestCsv` wrote as a recipient would who has no reader for CSV: it counts the lines
that a line feed ends and searches the whole text for every digest.

A digest has neither a mark of the grammar nor an apostrophe in it, so escaping and joining neither
hide nor make one, and it stands in the text exactly if it stands in a cell
(`infix_digestText_iff`, `infix_digestLine_iff`). A line feed in a cell is kept by its quotes and
counts as one more line (`count_digestFile`).

* `accepts_digestFile_iff` — which rows of cells the guard takes for the digests of some items.
* `accepts_buildNativeDigestCsv_iff` — it takes the file itself exactly if no cell has a line feed.
* `digestGuard_spec` — what it says of the file, of the file without a row, and of the file with
  another row in one place.
-/

namespace AegCloudDfir.Export

open Collection (IsHex)
open Evidence.Keys (isSha256Hex)
open PrefixCode (infix_separated join join_cons)
open Search (isSpace)

/-! ## Lines -/

/-- A line feed. -/
def lineFeed : CodeUnit := 0x0A

/-- A text without the separator is split at it into one piece more than it occurs. -/
theorem length_splitOn (a : CodeUnit) (text : JsString) :
    (text.splitOn a).length = text.count a + 1 := by
  induction text with
  | nil => rfl
  | cons c text ih =>
    rw [List.splitOn_cons_eq_if_modifyHead, List.count_cons]
    split_ifs with hc
    · rw [List.length_cons, ih]
    · rw [List.length_modifyHead, ih, Nat.add_zero]

/-- Joining puts nothing between the parts but the separator. -/
theorem count_join {a : CodeUnit} {sep : JsString} (ha : a ∉ sep) (parts : List JsString) :
    (join sep parts).count a = (parts.map fun part => part.count a).sum := by
  rcases parts with _ | ⟨first, rest⟩
  · rfl
  rw [join_cons, List.count_append, List.count_flatMap, List.map_cons, List.sum_cons]
  congr 2
  apply List.map_congr_left
  intro part _
  rw [Function.comp_apply, List.count_append, List.count_eq_zero_of_not_mem ha, Nat.zero_add]

theorem prefix_trimEnd (s : JsString) : trimEnd s <+: s := by
  rw [← List.reverse_suffix, trimEnd, List.reverse_reverse]
  exact List.dropWhile_suffix _

/-- What is trimmed stands behind the last unit that is no space. -/
theorem trimEnd_append (a : JsString) {b : JsString} (h : ∃ c ∈ b, isSpace c = false) :
    trimEnd (a ++ b) = a ++ trimEnd b := by
  have hkept : (b.reverse.dropWhile isSpace).isEmpty = false := by
    obtain ⟨c, hc, hspace⟩ := h
    rw [List.isEmpty_eq_false_iff, Ne, List.dropWhile_eq_nil_iff]
    intro hall
    rw [hall c (List.mem_reverse.mpr hc)] at hspace
    cases hspace
  rw [trimEnd, List.reverse_append, List.dropWhile_append, if_neg (by rw [hkept]; decide),
    List.reverse_append, List.reverse_reverse, trimEnd]

/-- Spaces at the end are trimmed. -/
theorem trimEnd_append_spaces (a : JsString) {spaces : JsString}
    (h : ∀ c ∈ spaces, isSpace c = true) : trimEnd (a ++ spaces) = trimEnd a := by
  have hgone : spaces.reverse.dropWhile isSpace = [] :=
    List.dropWhile_eq_nil_iff.mpr fun c hc => h c (List.mem_reverse.mp hc)
  rw [trimEnd, List.reverse_append, List.dropWhile_append, hgone]
  rfl

/-! ## Words -/

/-- Nothing is found in front that has nothing of the word. -/
theorem infix_append_right_iff {w : JsString} (front text : JsString) (hw : w ≠ [])
    (hfront : ∀ c ∈ front, c ∉ w) : w <:+: front ++ text ↔ w <:+: text := by
  induction front with
  | nil => rfl
  | cons c front ih =>
    have hrest : w <:+: front ++ text ↔ w <:+: text := ih fun d hd => hfront d (.tail _ hd)
    have hc := infix_separated (x := []) (y := front ++ text)
      (hfront c (List.mem_cons_self ..)) hw
    rw [List.nil_append] at hc
    rw [List.cons_append, hc, hrest]
    exact or_iff_right fun hnil => hw (List.eq_nil_of_infix_nil hnil)

/-- A word that has nothing of the separator stands in one of the joined parts. -/
theorem infix_join_iff {w : JsString} (hw : w ≠ []) {a : CodeUnit} {rest : JsString}
    (hsep : ∀ c ∈ a :: rest, c ∉ w) (parts : List JsString) :
    w <:+: join (a :: rest) parts ↔ ∃ part ∈ parts, w <:+: part := by
  rcases parts with _ | ⟨first, parts⟩
  · exact iff_of_false (fun h => hw (List.eq_nil_of_infix_nil h)) fun ⟨_, h, _⟩ => nomatch h
  induction parts generalizing first with
  | nil => simp
  | cons second parts ih =>
    have hjoined : w <:+: join (a :: rest) (second :: parts) ↔
        ∃ part ∈ second :: parts, w <:+: part := ih second
    have hrest := infix_append_right_iff rest (join (a :: rest) (second :: parts)) hw
      fun c hc => hsep c (.tail _ hc)
    rw [join, List.append_assoc, List.cons_append,
      infix_separated (hsep a (List.mem_cons_self ..)) hw, hrest, hjoined,
      List.exists_mem_cons_iff (a := first)]

/-! ## Cells -/

/-- A value with an apostrophe in front if a spreadsheet would take it for a formula. -/
def guarded (value : JsString) : JsString :=
  if value.head?.any fun c => c ∈ formulaTriggers then 0x27 :: value else value

/-- A text with its quotes doubled. -/
def doubled (v : JsString) : JsString := v.flatMap fun c => if c = 0x22 then [0x22, 0x22] else [c]

/-- A cell is the guarded value, or its doubled text between quotes, and then it has no line
feed. -/
theorem csvEscape_cases (value : JsString) :
    csvEscape value = [0x22] ++ doubled (guarded value) ++ [0x22] ∨
      csvEscape value = guarded value ∧ lineFeed ∉ guarded value := by
  have hdef : csvEscape value =
      if 0x22 ∈ guarded value ∨ unitOf ',' ∈ guarded value ∨ 0x0D ∈ guarded value ∨
          0x0A ∈ guarded value ∨ 0x09 ∈ guarded value then
        [0x22] ++ doubled (guarded value) ++ [0x22]
      else guarded value := rfl
  rw [hdef]
  split_ifs with hquoted
  · exact .inl rfl
  · rw [not_or, not_or, not_or, not_or] at hquoted
    exact .inr ⟨rfl, hquoted.2.2.2.1⟩

theorem doubled_cons (c : CodeUnit) (v : JsString) :
    doubled (c :: v) = if c = 0x22 then 0x22 :: 0x22 :: doubled v else c :: doubled v := by
  rw [doubled, List.flatMap_cons]
  split_ifs <;> rfl

/-- Doubling keeps the line feeds. -/
theorem count_doubled (v : JsString) : (doubled v).count lineFeed = v.count lineFeed := by
  induction v with
  | nil => rfl
  | cons c v ih =>
    rw [doubled_cons]
    split_ifs with hc
    · subst hc
      rw [List.count_cons_of_ne (by decide), List.count_cons_of_ne (by decide),
        List.count_cons_of_ne (by decide), ih]
    · rw [List.count_cons, List.count_cons, ih]

theorem count_guarded (value : JsString) :
    (guarded value).count lineFeed = value.count lineFeed := by
  rw [guarded]
  split_ifs with h
  · exact List.count_cons_of_ne (by decide)
  · rfl

/-- A cell has the line feeds of its value. -/
theorem count_csvEscape (value : JsString) :
    (csvEscape value).count lineFeed = value.count lineFeed := by
  have hquote : ([0x22] : JsString).count lineFeed = 0 := rfl
  rcases csvEscape_cases value with h | ⟨h, -⟩
  · rw [h, List.count_append, List.count_append, hquote, count_doubled, count_guarded,
      Nat.zero_add, Nat.add_zero]
  · rw [h, count_guarded]

/-- A word that could be escaped: it has neither quotes nor apostrophes, commas or line ends. -/
structure Plain (w : JsString) : Prop where
  nonempty : w ≠ []
  no_quote : (0x22 : CodeUnit) ∉ w
  no_apostrophe : (0x27 : CodeUnit) ∉ w
  no_comma : unitOf ',' ∉ w
  no_cr : (0x0D : CodeUnit) ∉ w
  no_lf : lineFeed ∉ w

section Words

variable {w : JsString} (hw : Plain w)

include hw

/-- Doubled quotes part what the quotes part. -/
theorem infix_append_doubled_iff (front v : JsString) :
    w <:+: front ++ doubled v ↔ w <:+: front ++ v := by
  induction v generalizing front with
  | nil => rfl
  | cons c v ih =>
    rw [doubled_cons]
    split_ifs with hc
    · subst hc
      have hrest : w <:+: doubled v ↔ w <:+: v := ih []
      have hone := infix_append_right_iff [0x22] (doubled v) hw.nonempty
        fun d hd => List.mem_singleton.mp hd ▸ hw.no_quote
      rw [List.singleton_append] at hone
      rw [infix_separated hw.no_quote hw.nonempty, hone, hrest,
        infix_separated hw.no_quote hw.nonempty]
    · have hstep : w <:+: front ++ [c] ++ doubled v ↔ w <:+: front ++ [c] ++ v :=
        ih (front ++ [c])
      rwa [List.append_assoc, List.append_assoc] at hstep

theorem infix_guarded_iff (value : JsString) : w <:+: guarded value ↔ w <:+: value := by
  rw [guarded]
  split_ifs with h
  · exact infix_append_right_iff [0x27] value hw.nonempty
      fun d hd => List.mem_singleton.mp hd ▸ hw.no_apostrophe
  · rfl

/-- A plain word stands in a cell exactly if it stands in the value. -/
theorem infix_csvEscape_iff (value : JsString) : w <:+: csvEscape value ↔ w <:+: value := by
  rw [← infix_guarded_iff hw value]
  rcases csvEscape_cases value with h | ⟨h, -⟩
  · have hclose := infix_separated (x := doubled (guarded value)) (y := []) hw.no_quote hw.nonempty
    have hopen := infix_append_right_iff [0x22] (doubled (guarded value) ++ [0x22]) hw.nonempty
      fun d hd => List.mem_singleton.mp hd ▸ hw.no_quote
    have hinside : w <:+: doubled (guarded value) ↔ w <:+: guarded value :=
      infix_append_doubled_iff hw [] (guarded value)
    rw [h, List.append_assoc, hopen, hclose, hinside]
    exact or_iff_left fun hnil => hw.nonempty (List.eq_nil_of_infix_nil hnil)
  · rw [h]

end Words

/-! ## Rows -/

/-- The names of the columns. -/
def digestHeader : List JsString :=
  [js "evidenceItemId", js "sha256", js "sizeBytes", js "subject", js "folderPath",
    js "custodianEmail"]

/-- The cells of an item's row. -/
def digestCells (i : PstExportItem) : List JsString :=
  [i.evidenceItemId, i.sha256, decimal i.size, i.subject, i.folderPath, i.custodianEmail]

/-- A row as a line of text. -/
def digestLine (cells : List JsString) : JsString := joinWith (js ",") (cells.map csvEscape)

/-- A digest file of some lines below the header. -/
def digestText (lines : List JsString) : JsString :=
  joinWith lineEnd (digestLine digestHeader :: lines) ++ lineEnd

/-- A digest file of some rows. -/
def digestFile (rows : List (List JsString)) : JsString := digestText (rows.map digestLine)

theorem buildNativeDigestCsv_eq (items : List PstExportItem) :
    buildNativeDigestCsv items =
      digestFile ((items.filter fun i => i.sha256 ≠ []).map digestCells) := by
  rw [buildNativeDigestCsv, digestFile, digestText, List.map_cons]
  rfl

/-- The line feeds of a row are those of its values. -/
theorem count_digestLine (cells : List JsString) :
    (digestLine cells).count lineFeed =
      (cells.map fun cell => cell.count lineFeed).sum := by
  rw [digestLine, joinWith, count_join (by decide), List.map_map]
  congr 1
  apply List.map_congr_left
  intro cell _
  exact count_csvEscape cell

/-- The lines of a file, each with its end. -/
theorem digestText_eq (lines : List JsString) :
    digestText lines =
      (digestLine digestHeader :: lines).flatMap fun line => line ++ lineEnd := by
  rw [digestText]
  generalize digestLine digestHeader = first
  induction lines generalizing first with
  | nil => simp [joinWith]
  | cons second rest ih =>
    rw [List.flatMap_cons, ← ih second, joinWith, join, List.append_assoc]
    rfl

/-- Every line counts for the line feed at its end and for those in it. -/
theorem count_digestText (lines : List JsString) :
    (digestText lines).count lineFeed =
      lines.length + 1 + (lines.map fun line => line.count lineFeed).sum := by
  have hheader : (digestLine digestHeader).count lineFeed = 0 := by decide +kernel
  have hend : lineEnd.count lineFeed = 1 := by decide
  have hlines : ∀ lines : List JsString,
      (lines.flatMap fun line => line ++ lineEnd).count lineFeed =
        lines.length + (lines.map fun line => line.count lineFeed).sum := by
    intro lines
    induction lines with
    | nil => rfl
    | cons line lines ih =>
      rw [List.flatMap_cons, List.count_append, List.count_append, hend, ih, List.length_cons,
        List.map_cons, List.sum_cons]
      omega
  rw [digestText_eq, hlines, List.length_cons, List.map_cons, List.sum_cons, hheader, Nat.zero_add]

/-- What is trimmed of a last cell has no line feed. -/
theorem count_trimEnd_cell (value : JsString) :
    (trimEnd (unitOf ',' :: csvEscape value ++ lineEnd)).count lineFeed =
      (csvEscape value).count lineFeed := by
  have hspaces : ∀ c ∈ lineEnd, isSpace c = true :=
    List.all_eq_true.mp (by decide +kernel)
  rw [trimEnd_append_spaces _ hspaces]
  rcases csvEscape_cases value with h | ⟨h, hnone⟩
  · -- the closing quote ends the trimming
    have hclosed := trimEnd_append (unitOf ',' :: ([0x22] ++ doubled (guarded value)))
      (b := [0x22]) ⟨0x22, List.mem_singleton_self _, by decide⟩
    rw [h, ← List.cons_append, hclosed]
    exact List.count_cons_of_ne (by decide)
  · have hnone' : lineFeed ∉ unitOf ',' :: guarded value :=
      List.not_mem_cons_of_ne_of_not_mem (by decide) hnone
    rw [h, List.count_eq_zero_of_not_mem hnone]
    exact List.count_eq_zero_of_not_mem fun hmem => hnone' ((prefix_trimEnd _).subset hmem)

/-- Trimming a file of rows takes one line feed, the last one. -/
theorem count_trimEnd_digestFile {rows : List (List JsString)}
    (hrows : ∀ row ∈ rows, 2 ≤ row.length) :
    (trimEnd (digestFile rows)).count lineFeed + 1 = (digestFile rows).count lineFeed := by
  obtain ⟨front, last, hall⟩ : ∃ front last, digestHeader :: rows = front ++ [last] :=
    ⟨_, _, (List.dropLast_append_getLast (List.cons_ne_nil _ _)).symm⟩
  have hlast : 2 ≤ last.length := by
    have hmem : last ∈ digestHeader :: rows := by simp [hall]
    rcases List.mem_cons.mp hmem with rfl | hmem
    · decide
    · exact hrows last hmem
  obtain ⟨cells, value, rfl⟩ : ∃ cells value, last = cells ++ [value] :=
    ⟨_, _, (List.dropLast_append_getLast (by rintro rfl; cases hlast)).symm⟩
  have hcells : cells ≠ [] := by
    rintro rfl
    exact Nat.not_succ_le_self 1 hlast
  have hline : digestLine (cells ++ [value]) =
      digestLine cells ++ unitOf ',' :: csvEscape value := by
    obtain ⟨first, rest, rfl⟩ := List.exists_cons_of_ne_nil hcells
    rw [digestLine, digestLine, List.cons_append, List.map_cons, List.map_cons, joinWith, joinWith,
      join_cons, join_cons, List.map_append, List.flatMap_append, List.append_assoc]
    congr 2
    exact List.append_nil _
  have hfile : digestFile rows = (front.flatMap fun row => digestLine row ++ lineEnd) ++
      digestLine cells ++ (unitOf ',' :: csvEscape value ++ lineEnd) := by
    rw [digestFile, digestText_eq, ← List.map_cons, hall, List.flatMap_map, List.flatMap_append,
      List.flatMap_cons, List.flatMap_nil, hline]
    simp only [List.append_assoc, List.append_nil]
  have hcomma : ∃ c ∈ unitOf ',' :: csvEscape value ++ lineEnd, isSpace c = false :=
    ⟨unitOf ',', List.mem_cons_self .., by decide⟩
  have hfront : (unitOf ',' :: csvEscape value ++ lineEnd).count lineFeed =
      (csvEscape value).count lineFeed + 1 := by
    have hend : lineEnd.count lineFeed = 1 := by decide
    rw [List.cons_append, List.count_cons_of_ne (by decide), List.count_append, hend]
  rw [hfile]
  generalize (front.flatMap fun row => digestLine row ++ lineEnd) ++ digestLine cells = before
  rw [trimEnd_append _ hcomma, List.count_append, count_trimEnd_cell, List.count_append, hfront,
    Nat.add_assoc]

/-! ## Digests in a file -/

theorem plain_of_isSha256Hex {w : JsString} (hw : isSha256Hex w = true) : Plain w := by
  obtain ⟨hlength, hhex⟩ := of_decide_eq_true hw
  have hnot : ∀ c : CodeUnit, ¬ IsHex c → c ∉ w := fun c hc hmem =>
    hc (of_decide_eq_true (List.all_eq_true.mp hhex c hmem))
  exact
    { nonempty := by
        rintro rfl
        cases hlength
      no_quote := hnot _ (by decide)
      no_apostrophe := hnot _ (by decide)
      no_comma := hnot _ (by decide)
      no_cr := hnot _ (by decide)
      no_lf := hnot _ (by decide) }

section Digest

variable {w : JsString} (hw : isSha256Hex w = true)

include hw

/-- A digest stands in a line exactly if it stands in one of its values. -/
theorem infix_digestLine_iff (cells : List JsString) :
    w <:+: digestLine cells ↔ ∃ cell ∈ cells, w <:+: cell := by
  have hplain := plain_of_isSha256Hex hw
  have hcomma : ∀ c ∈ [unitOf ','], c ∉ w := fun c hc =>
    List.mem_singleton.mp hc ▸ hplain.no_comma
  have hjoined : w <:+: digestLine cells ↔ ∃ part ∈ cells.map csvEscape, w <:+: part :=
    infix_join_iff hplain.nonempty hcomma _
  rw [hjoined]
  simp only [List.mem_map, exists_exists_and_eq_and]
  exact exists_congr fun cell => and_congr_right fun _ => infix_csvEscape_iff hplain cell

/-- The header has no digest. -/
theorem not_infix_digestHeader : ¬ w <:+: digestLine digestHeader := by
  rw [infix_digestLine_iff hw]
  rintro ⟨cell, hcell, hinfix⟩
  have hlength : w.length = 64 := (of_decide_eq_true hw).1
  have hshort : ∀ cell ∈ digestHeader, cell.length < 64 := by decide
  have := hinfix.length_le
  have := hshort cell hcell
  omega

/-- A digest stands in a file exactly if it stands in a line below the header. -/
theorem infix_digestText_iff (lines : List JsString) :
    w <:+: digestText lines ↔ ∃ line ∈ lines, w <:+: line := by
  have hplain := plain_of_isSha256Hex hw
  have hend : ∀ c ∈ lineEnd, c ∉ w := by
    intro c hc
    rcases List.mem_cons.mp hc with rfl | hc
    · exact hplain.no_cr
    · exact List.mem_singleton.mp hc ▸ hplain.no_lf
  have hlast : ¬ w <:+: [0x0A] := fun h =>
    hplain.nonempty (List.eq_nil_of_infix_nil ((infix_append_right_iff [0x0A] []
      hplain.nonempty fun c hc => List.mem_singleton.mp hc ▸ hplain.no_lf).mp h))
  have hjoined : w <:+: joinWith lineEnd (digestLine digestHeader :: lines) ↔
      ∃ line ∈ digestLine digestHeader :: lines, w <:+: line :=
    infix_join_iff hplain.nonempty hend _
  rw [digestText, lineEnd, infix_separated hplain.no_cr hplain.nonempty, or_iff_left hlast,
    ← lineEnd, hjoined, List.exists_mem_cons_iff]
  exact or_iff_right (not_infix_digestHeader hw)

theorem infix_digestFile_iff (rows : List (List JsString)) :
    w <:+: digestFile rows ↔ ∃ row ∈ rows, ∃ cell ∈ row, w <:+: cell := by
  rw [digestFile, infix_digestText_iff hw]
  simp only [List.mem_map, exists_exists_and_eq_and]
  exact exists_congr fun row => and_congr_right fun _ => infix_digestLine_iff hw row

end Digest

/-! ## The guard -/

/-- The guard takes a text for the digests of some items. -/
def Accepts (items : List PstExportItem) (digestCsv : JsString) : Prop :=
  assertNativeDigestsPresent items digestCsv = .ok ()

instance (items : List PstExportItem) (digestCsv : JsString) :
    Decidable (Accepts items digestCsv) :=
  inferInstanceAs (Decidable (_ = _))

theorem includes_iff (s sub : JsString) : includes s sub = true ↔ sub <:+: s := by
  rw [includes, List.any_eq_true, List.infix_iff_prefix_suffix]
  simp only [List.mem_tails, List.isPrefixOf_iff_prefix]
  exact exists_congr fun t => and_comm

section Guard

variable {items : List PstExportItem} (hne : items ≠ [])
  (hdigests : ∀ i ∈ items, isSha256Hex i.sha256 = true)

include hdigests in
theorem filter_digests : (items.filter fun i => i.sha256 ≠ []) = items :=
  List.filter_eq_self.mpr fun i hi =>
    decide_eq_true (plain_of_isSha256Hex (hdigests i hi)).nonempty

include hne hdigests

/-- What the guard looks at: the line feeds, and that every digest stands somewhere. -/
theorem accepts_iff (digestCsv : JsString) :
    Accepts items digestCsv ↔
      (trimEnd digestCsv).count lineFeed = items.length ∧
        ∀ i ∈ items, i.sha256 <:+: digestCsv := by
  have hlines : ((trimEnd digestCsv).splitOn 0x0A).length =
      (trimEnd digestCsv).count lineFeed + 1 := length_splitOn _ _
  rw [Accepts, assertNativeDigestsPresent, filter_digests hdigests,
    if_neg fun h => hne (List.length_eq_zero_iff.mp h), hlines]
  by_cases hcount : (trimEnd digestCsv).count lineFeed = items.length
  · rw [if_neg (by rw [hcount]; exact fun h => h rfl), and_iff_right hcount]
    cases hfind : items.find? fun i => ¬ includes digestCsv i.sha256 with
    | none =>
      refine iff_of_true rfl fun i hi => (includes_iff _ _).mp ?_
      have := List.find?_eq_none.mp hfind i hi
      simpa using this
    | some i =>
      refine iff_of_false (fun h => nomatch h) fun h => ?_
      have hmissing := List.find?_some hfind
      simp only [decide_eq_true_eq] at hmissing
      exact hmissing ((includes_iff _ _).mpr (h i (List.mem_of_find?_eq_some hfind)))
  · rw [if_pos fun h => hcount (Nat.succ.inj h)]
    exact iff_of_false (fun h => nomatch h) fun h => hcount h.1

/-- **Which rows the guard takes.** As many as there are items, counting a line feed in a cell as
a row, with every digest in some cell of some row. -/
theorem accepts_digestFile_iff {rows : List (List JsString)}
    (hrows : ∀ row ∈ rows, 2 ≤ row.length) :
    Accepts items (digestFile rows) ↔
      rows.length + (rows.map fun row => (row.map fun cell => cell.count lineFeed).sum).sum =
          items.length ∧
        ∀ i ∈ items, ∃ row ∈ rows, ∃ cell ∈ row, i.sha256 <:+: cell := by
  have hfile : (digestFile rows).count lineFeed = rows.length + 1 +
      (rows.map fun row => (row.map fun cell => cell.count lineFeed).sum).sum := by
    rw [digestFile, count_digestText, List.length_map, List.map_map]
    congr 2
    exact List.map_congr_left fun row _ => count_digestLine row
  have htrim := count_trimEnd_digestFile hrows
  rw [accepts_iff hne hdigests]
  refine and_congr ?_ (forall₂_congr fun i hi => infix_digestFile_iff (hdigests i hi) rows)
  omega

/-- **The file itself.** The guard takes what the builder wrote exactly if no cell has a line
feed. -/
theorem accepts_buildNativeDigestCsv_iff :
    Accepts items (buildNativeDigestCsv items) ↔
      ∀ i ∈ items, ∀ cell ∈ digestCells i, lineFeed ∉ cell := by
  have hrows : ∀ row ∈ items.map digestCells, 2 ≤ row.length := by
    rintro _ hrow
    obtain ⟨i, -, rfl⟩ := List.mem_map.mp hrow
    exact Nat.le_add_left 2 4
  have hpresent : ∀ i ∈ items, ∃ row ∈ items.map digestCells, ∃ cell ∈ row, i.sha256 <:+: cell :=
    fun i hi => ⟨digestCells i, List.mem_map_of_mem hi, i.sha256,
      .tail _ (List.mem_cons_self ..), List.infix_rfl⟩
  rw [buildNativeDigestCsv_eq, filter_digests hdigests,
    accepts_digestFile_iff hne hdigests hrows, and_iff_left hpresent, List.length_map,
    Nat.add_eq_left, List.sum_eq_zero_iff]
  simp [List.sum_eq_zero_iff, List.count_eq_zero]

end Guard

/-! ## Rows that are missing or changed -/

/-- The line of an item. -/
def itemLine (i : PstExportItem) : JsString := digestLine (digestCells i)

/-- The guard takes the file of the items, but no text that comes from it by leaving out or
changing the line of an item. -/
def GuardExact (items : List PstExportItem) : Prop :=
  Accepts items (buildNativeDigestCsv items) ∧
    ∀ before item after, items = before ++ item :: after →
      ¬ Accepts items (digestText (before.map itemLine ++ after.map itemLine)) ∧
        ∀ line, line ≠ itemLine item →
          ¬ Accepts items (digestText (before.map itemLine ++ line :: after.map itemLine))

/-- What the guard does say. The file of the items passes. Without the line of an item it does
not, and not with a line in its place that leaves the digest nowhere. A row in its place that has
the digest passes, whatever its other cells are. -/
structure GuardsDigests (items : List PstExportItem) : Prop where
  accepts : Accepts items (buildNativeDigestCsv items)
  removed : ∀ before item after, items = before ++ item :: after →
    ¬ Accepts items (digestText (before.map itemLine ++ after.map itemLine))
  altered : ∀ before item after, items = before ++ item :: after →
    ∀ line, ¬ item.sha256 <:+: line →
      (∀ i ∈ before ++ after, ∀ cell ∈ digestCells i, ¬ item.sha256 <:+: cell) →
      ¬ Accepts items (digestText (before.map itemLine ++ line :: after.map itemLine))
  kept : ∀ before item after, items = before ++ item :: after →
    ∀ row, row.length = digestHeader.length → item.sha256 ∈ row →
      (∀ cell ∈ row, lineFeed ∉ cell) →
      Accepts items (digestText (before.map itemLine ++ digestLine row :: after.map itemLine))

/-- Rows whose cells have no line feed add up to none. -/
theorem sum_count_eq_zero {rows : List (List JsString)}
    (h : ∀ row ∈ rows, ∀ cell ∈ row, lineFeed ∉ cell) :
    (rows.map fun row => (row.map fun cell => cell.count lineFeed).sum).sum = 0 := by
  simpa [List.sum_eq_zero_iff, List.count_eq_zero] using h

/-- **The guard.** For items without line feeds in their cells it does what it says. -/
theorem digestGuard_spec {items : List PstExportItem} (hne : items ≠ [])
    (hdigests : ∀ i ∈ items, isSha256Hex i.sha256 = true)
    (hlines : ∀ i ∈ items, ∀ cell ∈ digestCells i, lineFeed ∉ cell) : GuardsDigests items where
  accepts := (accepts_buildNativeDigestCsv_iff hne hdigests).mpr hlines
  removed := by
    rintro before item after rfl
    have hfile : digestText (before.map itemLine ++ after.map itemLine) =
        digestFile ((before ++ after).map digestCells) := by
      rw [digestFile, List.map_map, List.map_append]
      rfl
    have hrows : ∀ row ∈ (before ++ after).map digestCells, 2 ≤ row.length := by
      rintro _ hrow
      obtain ⟨i, -, rfl⟩ := List.mem_map.mp hrow
      exact Nat.le_add_left 2 4
    have hnone : ∀ row ∈ (before ++ after).map digestCells, ∀ cell ∈ row, lineFeed ∉ cell := by
      rintro _ hrow
      obtain ⟨i, hi, rfl⟩ := List.mem_map.mp hrow
      apply hlines
      simp only [List.mem_append, List.mem_cons] at hi ⊢
      tauto
    rw [hfile, accepts_digestFile_iff hne hdigests hrows, sum_count_eq_zero hnone]
    rintro ⟨hcount, -⟩
    simp at hcount
  altered := by
    rintro before item after rfl line hline hothers haccepted
    have hitem : item ∈ before ++ item :: after := by simp
    have hdigest := hdigests item hitem
    obtain ⟨-, hpresent⟩ := (accepts_iff hne hdigests _).mp haccepted
    obtain ⟨other, hother, hinfix⟩ :=
      (infix_digestText_iff hdigest _).mp (hpresent item hitem)
    have hof : ∀ i ∈ before ++ after, ¬ item.sha256 <:+: itemLine i := by
      intro i hi h
      obtain ⟨cell, hcell, h⟩ := (infix_digestLine_iff hdigest _).mp h
      exact hothers i hi cell hcell h
    rcases List.mem_append.mp hother with hbefore | hafter
    · obtain ⟨i, hi, rfl⟩ := List.mem_map.mp hbefore
      exact hof i (List.mem_append_left _ hi) hinfix
    · rcases List.mem_cons.mp hafter with rfl | hafter
      · exact hline hinfix
      · obtain ⟨i, hi, rfl⟩ := List.mem_map.mp hafter
        exact hof i (List.mem_append_right _ hi) hinfix
  kept := by
    rintro before item after rfl row hlength hdigest hclean
    have hfile : digestText (before.map itemLine ++ digestLine row :: after.map itemLine) =
        digestFile (before.map digestCells ++ row :: after.map digestCells) := by
      rw [digestFile, List.map_append, List.map_cons, List.map_map, List.map_map]
      rfl
    have hother : ∀ cells ∈ before.map digestCells ++ row :: after.map digestCells,
        cells = row ∨ ∃ i ∈ before ++ after, cells = digestCells i := by
      intro cells hcells
      simp only [List.mem_append, List.mem_cons, List.mem_map] at hcells ⊢
      rcases hcells with ⟨i, hi, rfl⟩ | rfl | ⟨i, hi, rfl⟩
      · exact .inr ⟨i, .inl hi, rfl⟩
      · exact .inl rfl
      · exact .inr ⟨i, .inr hi, rfl⟩
    have hrows : ∀ cells ∈ before.map digestCells ++ row :: after.map digestCells,
        2 ≤ cells.length := by
      intro cells hcells
      rcases hother cells hcells with rfl | ⟨i, -, rfl⟩
      · rw [hlength]
        decide
      · exact Nat.le_add_left 2 4
    have hnone : ∀ cells ∈ before.map digestCells ++ row :: after.map digestCells,
        ∀ cell ∈ cells, lineFeed ∉ cell := by
      intro cells hcells
      rcases hother cells hcells with rfl | ⟨i, hi, rfl⟩
      · exact hclean
      · apply hlines
        simp only [List.mem_append, List.mem_cons] at hi ⊢
        tauto
    rw [hfile, accepts_digestFile_iff hne hdigests hrows, sum_count_eq_zero hnone]
    refine ⟨by simp, fun i hi => ?_⟩
    rcases List.mem_append.mp hi with hbefore | hafter
    · exact ⟨digestCells i, List.mem_append_left _ (List.mem_map_of_mem hbefore), i.sha256,
        .tail _ (List.mem_cons_self ..), List.infix_rfl⟩
    · rcases List.mem_cons.mp hafter with rfl | hafter
      · exact ⟨row, List.mem_append_right _ (List.mem_cons_self ..), i.sha256, hdigest,
          List.infix_rfl⟩
      · exact ⟨digestCells i, List.mem_append_right _ (.tail _ (List.mem_map_of_mem hafter)),
          i.sha256, .tail _ (List.mem_cons_self ..), List.infix_rfl⟩

/-! ## A message -/

/-- A message whose native has this digest. -/
def message (sha256 subject : JsString) : PstExportItem where
  evidenceItemId := js "11111111-1111-4111-8111-111111111111"
  sha256 := sha256
  size := 29
  subject := subject
  folderPath := js "Inbox"
  custodianEmail := js "a@example.invalid"
  collectionId := js "22222222-2222-4222-8222-222222222222"
  quarantined := false
  objectKey := js "tenants/t/originals/x"
  receivedAt := none

/-- Two messages with the same native, and quotes and commas in their subjects. -/
def twoMessages : List PstExportItem :=
  [message (List.replicate 64 (unitOf 'f')) (js "hi"),
    message (List.replicate 64 (unitOf 'f')) (js "=1, \"2\"")]

theorem twoMessages_guarded : GuardsDigests twoMessages :=
  digestGuard_spec (by decide) (by decide +kernel) (by decide +kernel)

/-- The subject in a row may be changed and the guard takes the file. -/
theorem subject_unguarded : ¬ GuardExact [message (List.replicate 64 (unitOf 'f')) (js "hi")] := by
  intro h
  have haltered := (h.2 [] _ [] rfl).2
    (itemLine (message (List.replicate 64 (unitOf 'f')) (js "bye"))) (by decide +kernel)
  exact haltered (by decide +kernel)

end AegCloudDfir.Export
