import AegCloudDfir.Lib.Css
import AegCloudDfir.Search.Validate

/-!
# Previews of e-mails

`buildSafeEmailPreview` (`packages/evidence/src/processing/safe-preview.ts`) hands a transform for
every element to a sanitizer, which then keeps the tags, attributes and schemes that it is told to.
A style is cut at its semicolons, and a part stays if its property is on a list and its value does
not look like one that loads something.

* `filterStyleAttribute`, `normalizedScheme`, `transformAll` — what is done to an element.
* `sanitizeHtml` — what is left of a tree.
* `Inert` — nothing in a tree loads anything, or leads anywhere but to the web or to mail.
* `inert_iff` — when a preview is inert.
-/

namespace AegCloudDfir.Processing.SafePreview

open Search (isSpace trim)

/-! ## Trees -/

/-- The attributes of an element: a value, or none, for every name. -/
abbrev Attribs : Type := JsString → Option JsString

/-- A tree. -/
inductive Node : Type where
  | text (value : JsString)
  | element (tag : JsString) (attribs : Attribs) (children : List Node)

namespace Attribs

/-- No attributes. -/
def empty : Attribs := fun _ => none

/-- `attribs[name]` -/
def get (attribs : Attribs) (name : String) : Option JsString := attribs (js name)

/-- `attribs[name] = value` -/
def set (attribs : Attribs) (name : String) (value : JsString) : Attribs :=
  fun other => if other = js name then some value else attribs other

/-- `delete attribs[name]` -/
def delete (attribs : Attribs) (name : String) : Attribs :=
  fun other => if other = js name then none else attribs other

theorem get_set_self (attribs : Attribs) (name : String) (value : JsString) :
    (attribs.set name value).get name = some value := if_pos rfl

theorem get_set_of_ne (attribs : Attribs) {name other : String} (value : JsString)
    (h : js other ≠ js name) : (attribs.set name value).get other = attribs.get other := if_neg h

theorem get_delete_self (attribs : Attribs) (name : String) :
    (attribs.delete name).get name = none := if_pos rfl

theorem get_delete_of_ne (attribs : Attribs) {name other : String} (h : js other ≠ js name) :
    (attribs.delete name).get other = attribs.get other := if_neg h

end Attribs

/-! ## Styles -/

/-- The letter in lower case, of ASCII letters. -/
def lowerAscii (s : JsString) : JsString := Css.lower s

/-- A regular expression matches somewhere, which matches at the front of a text or not. -/
def search (matchesAt : JsString → Bool) (s : JsString) : Bool := s.tails.any matchesAt

/-- A word at the front of a text, in any case: what follows. -/
def afterWord (word : String) (s : JsString) : Option JsString :=
  if lowerAscii (s.take (js word).length) = js word then some (s.drop (js word).length) else none

/-- `word\s*next` at the front of a text. -/
def wordThen (word next : String) (s : JsString) : Bool :=
  match afterWord word s with
  | some rest => (afterWord next (rest.dropWhile isSpace)).isSome
  | none => false

/-- `/position\s*:\s*fixed/i` at the front of a text. -/
def positionFixed (s : JsString) : Bool :=
  match afterWord "position" s with
  | some rest =>
    match afterWord ":" (rest.dropWhile isSpace) with
    | some rest' => (afterWord "fixed" (rest'.dropWhile isSpace)).isSome
    | none => false
  | none => false

/-- `FORBIDDEN_STYLE_VALUE_RE` -/
def forbiddenStyleValue (value : JsString) : Bool :=
  search (wordThen "url" "(") value || search (wordThen "expression" "(") value ||
    search (fun s => (afterWord "@import" s).isSome) value || value.contains (unitOf '\\')

/-- `[a-z]` -/
def isLower (c : CodeUnit) : Bool := 0x61 ≤ c ∧ c ≤ 0x7a

/-- A property that is one of a family: what is behind the family's name. -/
def inFamily (family : String) (rest : CodeUnit → Bool) (property : JsString) : Bool :=
  match property.dropPrefix? (js family) with
  | some name => name ≠ [] ∧ name.all rest
  | none => false

/-- `ALLOWED_STYLE_PROPERTY_RE` -/
def allowedStyleProperty (property : JsString) : Bool :=
  let dashed (c : CodeUnit) : Bool := isLower c || c = unitOf '-'
  property = js "color" || property = js "background-color" || property = js "font" ||
    inFamily "font-" dashed property || inFamily "text-" dashed property ||
    property = js "margin" || inFamily "margin-" isLower property ||
    property = js "padding" || inFamily "padding-" isLower property ||
    property = js "border" || inFamily "border-" dashed property

section Styles

variable (toLowerCase : JsString → JsString)

/-- A part of a style that stays, as property and value. -/
def keptDeclaration (declaration : JsString) : Option (JsString × JsString) :=
  let colon := declaration.idxOf (unitOf ':')
  if colon = declaration.length ∨ colon = 0 then none
  else
    let property := toLowerCase (trim (declaration.take colon))
    let value := trim (declaration.drop (colon + 1))
    if value = [] then none
    else if ¬ allowedStyleProperty property then none
    else if forbiddenStyleValue value then none
    else some (property, value)

/-- Declarations as a style. -/
def renderDeclarations (declarations : List (JsString × JsString)) : JsString :=
  joinWith (js "; ") (declarations.map fun d => d.1 ++ js ": " ++ d.2)

/-- The parts of a style that stay. -/
def keptDeclarations (style : JsString) : List (JsString × JsString) :=
  (style.splitOnP fun c => c = unitOf ';').filterMap (keptDeclaration toLowerCase)

/-- `filterStyleAttribute` -/
def filterStyleAttribute (style : JsString) : JsString :=
  if search positionFixed style then [] else renderDeclarations (keptDeclarations toLowerCase style)

end Styles

/-! ## Addresses -/

/-- `[a-zA-Z]` -/
def isLetter (c : CodeUnit) : Bool := (0x61 ≤ c ∧ c ≤ 0x7a) ∨ (0x41 ≤ c ∧ c ≤ 0x5a)

/-- `[a-zA-Z0-9+.-]` -/
def isSchemeUnit (c : CodeUnit) : Bool :=
  isLetter c || (0x30 ≤ c ∧ c ≤ 0x39) || c = unitOf '+' || c = unitOf '.' || c = unitOf '-'

/-- `/^([a-zA-Z][a-zA-Z0-9+.-]*):/`: the scheme. -/
def schemeOf (s : JsString) : Option JsString :=
  let scheme := s.takeWhile isSchemeUnit
  if scheme.head?.any isLetter ∧ (s.dropWhile isSchemeUnit).head? = some (unitOf ':') then
    some scheme
  else none

/-- `normalizedScheme` -/
def normalizedScheme (url : JsString) : JsString :=
  let trimmed := trim url
  if startsWith trimmed (js "//") then js "//"
  else match schemeOf (trimmed.filter fun c => ¬ isSpace c) with
    | some scheme => lowerAscii scheme ++ js ":"
    | none => []

/-- `SAFE_HREF_RE` -/
def safeHref (scheme : JsString) : Bool :=
  (afterWord "http:" scheme).isSome || (afterWord "https:" scheme).isSome ||
    (afterWord "mailto:" scheme).isSome

/-- What a browser reads of an address: control characters and blanks at its ends are not, nor are
tabs and line breaks anywhere. -/
def urlText (url : JsString) : JsString :=
  ((url.dropWhile (· ≤ 0x20)).rdropWhile (· ≤ 0x20)).filter fun c =>
    c ≠ 0x09 ∧ c ≠ 0x0A ∧ c ≠ 0x0D

/-- The scheme that a browser reads, if the address is not a relative one. -/
def urlScheme (url : JsString) : Option JsString := (schemeOf (urlText url)).map lowerAscii

/-- `//` at the front of an address. -/
def protocolRelative (url : JsString) : Bool := startsWith (urlText url) (js "//")

/-! ## Elements -/

/-- `ALLOWED_TAGS` -/
def allowedTags : List JsString :=
  ["p", "div", "span", "br", "hr", "blockquote", "pre", "code", "h1", "h2", "h3", "h4", "h5", "h6",
    "ul", "ol", "li", "dl", "dt", "dd", "b", "strong", "i", "em", "u", "s", "strike", "del", "ins",
    "sub", "sup", "small", "big", "font", "center", "abbr", "cite", "q", "table", "thead", "tbody",
    "tfoot", "tr", "td", "th", "caption", "colgroup", "col", "img", "a"].map js

/-- `ACTIVE_CONTENT_TAGS` -/
def activeContentTags : List JsString :=
  ["script", "iframe", "frame", "frameset", "object", "embed", "applet", "form", "input", "button",
    "select", "textarea", "option", "label", "meta", "link", "base", "style", "svg", "math",
    "template", "slot", "dialog", "audio", "video", "source", "track", "canvas", "portal"].map js

/-- What the transform makes of an element, and what it counts. -/
structure Transformed where
  tagName : JsString
  attribs : Attribs
  blockedRemoteResources : ℕ
  removedActiveContent : ℕ

section Transform

variable (toLowerCase : JsString → JsString) (resolver : JsString → Option JsString)

/-- The attributes with their style filtered. -/
def filterStyle (attribs : Attribs) : Attribs :=
  match attribs.get "style" with
  | some style =>
    let filtered := filterStyleAttribute toLowerCase style
    if filtered = [] then attribs.delete "style" else attribs.set "style" filtered
  | none => attribs

/-- The attributes of a link. -/
def transformLink (attribs : Attribs) : Attribs :=
  if (attribs.get "href").any fun href => safeHref (normalizedScheme href) then
    (attribs.set "rel" (js "noopener noreferrer")).set "target" (js "_blank")
  else ((attribs.delete "href").delete "rel").delete "target"

/-- The attributes of an image, and whether one is blocked. -/
def transformImage (attribs : Attribs) : Attribs × ℕ :=
  let src := ((attribs.get "src").map trim).getD []
  if normalizedScheme src = js "cid:" then
    let cid := trim (src.drop 4)
    match (if cid = [] then none else resolver cid) with
    | some resolved => (attribs.set "src" resolved, 0)
    | none => (.empty, 0)
  else (.empty, if src = [] then 0 else 1)

/-- `transformAll` -/
def transformAll (tagName : JsString) (attribs : Attribs) : Transformed :=
  let tag := toLowerCase tagName
  if tag ∈ activeContentTags then ⟨tag, attribs, 0, 1⟩
  else
    let nextAttribs := filterStyle toLowerCase attribs
    if tag = js "a" then ⟨tag, transformLink nextAttribs, 0, 0⟩
    else if tag = js "img" then
      let image := transformImage resolver nextAttribs
      ⟨tag, image.1, image.2, 0⟩
    else ⟨tag, nextAttribs, 0, 0⟩

end Transform

/-! ## The sanitizer -/

/-- `allowedAttributes` -/
def allowedAttributes (tag : JsString) : List JsString :=
  ((if tag = js "a" then ["href", "rel", "target", "title", "style"]
    else if tag = js "img" then ["src", "alt", "width", "height", "title", "style"]
    else if tag = js "td" ∨ tag = js "th" then ["colspan", "rowspan", "style", "align", "valign"]
    else if tag = js "col" then ["span", "style"]
    else []) ++ ["style", "align", "dir"]).map js

/-- `allowedSchemes` and `allowedSchemesByTag` -/
def allowedSchemes (tag : JsString) : List JsString :=
  if tag = js "img" then [] else ["http", "https", "mailto"].map js

/-- An address has an allowed scheme, or is relative to the page. -/
def allowedUrl (tag url : JsString) : Bool :=
  match urlScheme url with
  | some scheme => scheme ∈ allowedSchemes tag
  | none => ¬ protocolRelative url

/-- An attribute stays. -/
def keepsAttribute (tag name value : JsString) : Bool :=
  name ∈ allowedAttributes tag ∧ (name ∈ ["href", "src", "cite"].map js → allowedUrl tag value)

/-- `exclusiveFilter` -/
def excluded (tag : JsString) (attribs : Attribs) : Bool :=
  tag = js "img" ∧ ((attribs.get "src").getD []) = []

/-- `nonTextTags` -/
def nonTextTags : List JsString :=
  ["script", "style", "textarea", "option", "iframe", "object", "embed", "noscript", "svg", "math",
    "template"].map js

section Sanitize

variable (transform : JsString → Attribs → Transformed)

/-- The attributes of an element that stay. -/
def sanitizedAttribs (tag : JsString) (attribs : Attribs) : Attribs := fun name =>
  ((transform tag attribs).attribs name).filter
    (keepsAttribute (transform tag attribs).tagName name)

mutual

/-- What `sanitize-html` leaves of a tree: of a tag that is not allowed the contents stay, except
for those that have none. -/
def sanitizeNode : Node → List Node
  | .text value => [.text value]
  | .element tag attribs children =>
    let tagName := (transform tag attribs).tagName
    if tagName ∈ allowedTags then
      let kept := sanitizedAttribs transform tag attribs
      if excluded tagName kept then [] else [.element tagName kept (sanitizeNodes children)]
    else if tagName ∈ nonTextTags then []
    else sanitizeNodes children

/-- What it leaves of trees. -/
def sanitizeNodes : List Node → List Node
  | [] => []
  | node :: nodes => sanitizeNode node ++ sanitizeNodes nodes

end

mutual

/-- The elements of a tree that are transformed. -/
def visitNode : Node → List Transformed
  | .text _ => []
  | .element tag attribs children =>
    let transformed := transform tag attribs
    if transformed.tagName ∉ allowedTags ∧ transformed.tagName ∈ nonTextTags then [transformed]
    else transformed :: visitNodes children

/-- The elements of trees that are transformed. -/
def visitNodes : List Node → List Transformed
  | [] => []
  | node :: nodes => visitNode node ++ visitNodes nodes

end

end Sanitize

/-- `SafeEmailPreview` -/
structure SafeEmailPreview where
  html : List Node
  blockedRemoteResources : ℕ
  removedActiveContent : ℕ

/-- `buildSafeEmailPreview`, of parsed trees -/
def buildSafeEmailPreview (toLowerCase : JsString → JsString)
    (resolver : JsString → Option JsString) (html : List Node) : SafeEmailPreview :=
  let transform := transformAll toLowerCase resolver
  let visited := visitNodes transform html
  { html := sanitizeNodes transform html
    blockedRemoteResources := (visited.map Transformed.blockedRemoteResources).sum
    removedActiveContent := (visited.map Transformed.removedActiveContent).sum }

/-! ## What is asked for -/

mutual

/-- The elements of a tree. -/
def elements : Node → List (JsString × Attribs)
  | .text _ => []
  | .element tag attribs children => (tag, attribs) :: elementsOf children

/-- The elements of trees. -/
def elementsOf : List Node → List (JsString × Attribs)
  | [] => []
  | node :: nodes => elements node ++ elementsOf nodes

end

/-- The schemes of links. -/
def linkSchemes : List JsString := ["http", "https", "mailto"].map js

/-- An element loads nothing but what the resolver returned, and leads to the web or to mail. -/
structure InertElement (resolver : JsString → Option JsString) (tag : JsString)
    (attribs : Attribs) : Prop where
  allowed : tag ∈ allowedTags
  image : tag = js "img" → ∀ src, attribs.get "src" = some src → ∃ cid, resolver cid = some src
  link : ∀ href, attribs.get "href" = some href →
    (∃ scheme ∈ linkSchemes, urlScheme href = some scheme) ∧
      attribs.get "rel" = some (js "noopener noreferrer")
  style : ∀ style, attribs.get "style" = some style →
    unitOf '\\' ∉ style ∧ Css.loads style = false

/-- **Nothing in a tree loads anything.** -/
def Inert (resolver : JsString → Option JsString) (html : List Node) : Prop :=
  ∀ e ∈ elementsOf html, InertElement resolver e.1 e.2

/-- **What it takes** of an element: of the declarations of its style that stay, none names an image
by a function, and if it is a link, a browser reads a scheme where the code reads one. -/
structure Harmless (toLowerCase : JsString → JsString) (tag : JsString) (attribs : Attribs) :
    Prop where
  style : ∀ style, attribs.get "style" = some style → search positionFixed style = false →
    Css.namesImage (renderDeclarations (keptDeclarations toLowerCase style)) = false
  link : tag = js "a" → ∀ href, attribs.get "href" = some href →
    safeHref (normalizedScheme href) = true → urlScheme href ≠ none

section Kept

variable (transform : JsString → Attribs → Transformed)

mutual

/-- The elements of a tree that stay, as they were. -/
def keptNode : Node → List (JsString × Attribs)
  | .text _ => []
  | .element tag attribs children =>
    let tagName := (transform tag attribs).tagName
    if tagName ∈ allowedTags then
      if excluded tagName (sanitizedAttribs transform tag attribs) then []
      else (tag, attribs) :: keptNodes children
    else if tagName ∈ nonTextTags then []
    else keptNodes children

/-- The elements of trees that stay. -/
def keptNodes : List Node → List (JsString × Attribs)
  | [] => []
  | node :: nodes => keptNode node ++ keptNodes nodes

end

end Kept

/-! ## No address is left in a style -/

/-- A word that a separator is not in lies before it or behind it. -/
theorem part_of_append_cons {α : Type} {w before after : List α} {c : α} (hc : c ∉ w)
    (h : w <:+: before ++ c :: after) : w <:+: before ∨ w <:+: after := by
  obtain ⟨front, back, hsplit⟩ := h
  rcases List.append_eq_append_iff.mp hsplit with ⟨rest, hbefore, -⟩ | ⟨rest, hfront, hafter⟩
  · exact .inl ⟨front, rest, hbefore.symm⟩
  · cases rest with
    | nil =>
      rw [List.append_nil] at hfront
      exact .inl ⟨front, [], by rw [List.append_nil, hfront]⟩
    | cons d rest =>
      rw [List.cons_append] at hafter
      obtain ⟨rfl, rfl⟩ := List.cons.inj hafter
      -- the separator is in the word, or before it
      rcases List.append_eq_append_iff.mp hfront with ⟨inner, -, hword⟩ | ⟨inner, -, hword⟩
      · exact absurd (hword ▸ List.mem_append_right _ (List.mem_cons_self ..)) hc
      · cases inner with
        | nil =>
          rw [List.nil_append] at hword
          rw [← hword] at hc
          exact absurd (List.mem_cons_self ..) hc
        | cons e inner =>
          obtain ⟨-, rfl⟩ := List.cons.inj hword
          exact .inr ⟨inner, back, rfl⟩

/-- Only a letter is what another letter is in lower case. -/
theorem eq_of_lowerUnit {c d : CodeUnit} (hd : ¬ (0x61 ≤ d ∧ d ≤ 0x7A))
    (h : Css.lowerUnit c = d) : c = d := by
  rw [Css.lowerUnit] at h
  split at h
  · rename_i hupper
    have hval : (c + 0x20).val = c.val + 0x20 := by
      rw [Fin.val_add]
      exact Nat.mod_eq_of_lt (by have := Fin.le_def.mp hupper.2; omega)
    refine absurd ?_ hd
    rw [← h, Fin.le_def, Fin.le_def, hval]
    have hlow := Fin.le_def.mp hupper.1
    have hhigh := Fin.le_def.mp hupper.2
    omega
  · exact h

theorem lowerUnit_lowerUnit (c : CodeUnit) : Css.lowerUnit (Css.lowerUnit c) = Css.lowerUnit c := by
  by_cases hlow : 0x61 ≤ Css.lowerUnit c ∧ Css.lowerUnit c ≤ 0x7A
  · refine if_neg ?_
    rintro ⟨-, hupper⟩
    have h := hlow.1.trans hupper
    exact absurd h (by decide)
  · rw [← eq_of_lowerUnit hlow rfl]
    exact (eq_of_lowerUnit hlow rfl).symm

theorem lowerAscii_lowerAscii (s : JsString) : lowerAscii (lowerAscii s) = lowerAscii s := by
  rw [lowerAscii, lowerAscii, Css.lower, Css.lower, List.map_map]
  exact List.map_congr_left fun c _ => lowerUnit_lowerUnit c

/-- What matches at the front of an end of a text matches somewhere. -/
theorem search_of_suffix {matchesAt : JsString → Bool} {s t : JsString} (h : t <:+ s)
    (hmatch : matchesAt t = true) : search matchesAt s = true :=
  List.any_eq_true.mpr ⟨t, (List.mem_tails t s).mpr h, hmatch⟩

/-- Where `url(` stands, in any case, the value is forbidden. -/
theorem forbidden_of_url {name value : JsString} (hname : lowerAscii name = js "url")
    (h : name ++ [0x28] <:+: value) : forbiddenStyleValue value = true := by
  obtain ⟨front, back, rfl⟩ := h
  have hlength : name.length = (js "url").length := by
    rw [← hname, lowerAscii, Css.lower, List.length_map]
  have hmatch : wordThen "url" "(" (name ++ 0x28 :: back) = true := by
    have hword : afterWord "url" (name ++ 0x28 :: back) = some (0x28 :: back) := by
      rw [afterWord, ← hlength, List.take_left, List.drop_left, if_pos hname]
    rw [wordThen, hword]
    rfl
  have hsearch : search (wordThen "url" "(") (front ++ (name ++ [0x28]) ++ back) = true := by
    refine search_of_suffix ⟨front, ?_⟩ hmatch
    simp
  rw [forbiddenStyleValue, hsearch]
  rfl

theorem units_of_inFamily {family : String} {rest : CodeUnit → Bool}
    {property : JsString} (hfamily : ∀ c ∈ js family, isLower c = true ∨ c = unitOf '-')
    (hrest : ∀ c, rest c = true → isLower c = true ∨ c = unitOf '-')
    (h : inFamily family rest property = true) :
    ∀ c ∈ property, isLower c = true ∨ c = unitOf '-' := by
  rw [inFamily] at h
  split at h
  · rename_i name hname
    have hsplit : property = js family ++ name := by
      simpa [List.dropPrefix?_eq_some_iff] using hname
    obtain ⟨-, hall⟩ := of_decide_eq_true h
    intro c hc
    rw [hsplit] at hc
    rcases List.mem_append.mp hc with hc | hc
    · exact hfamily c hc
    · exact hrest c (List.all_eq_true.mp hall c hc)
  · cases h

/-- An allowed property has lower-case letters and dashes. -/
theorem units_of_allowedStyleProperty {property : JsString}
    (h : allowedStyleProperty property = true) :
    ∀ c ∈ property, isLower c = true ∨ c = unitOf '-' := by
  have hdashed : ∀ c, (isLower c || (c = unitOf '-' : Bool)) = true →
      isLower c = true ∨ c = unitOf '-' := by
    intro c hc
    rw [Bool.or_eq_true] at hc
    exact hc.imp_right of_decide_eq_true
  have hplain : ∀ c, isLower c = true → isLower c = true ∨ c = unitOf '-' := fun c hc => .inl hc
  have hwords : ∀ word ∈ ["color", "background-color", "font", "margin", "padding", "border",
      "font-", "text-", "margin-", "padding-", "border-"],
      ∀ c ∈ js word, isLower c = true ∨ c = unitOf '-' := by
    have hall : (["color", "background-color", "font", "margin", "padding", "border", "font-",
        "text-", "margin-", "padding-", "border-"].all fun word =>
        (js word).all fun c => isLower c || c = unitOf '-') = true := by decide +kernel
    intro word hword c hc
    exact hdashed c (List.all_eq_true.mp (List.all_eq_true.mp hall word hword) c hc)
  simp only [allowedStyleProperty, Bool.or_eq_true, decide_eq_true_eq] at h
  rcases h with (((((((((h | h) | h) | h) | h) | h) | h) | h) | h) | h) | h
  · exact h ▸ hwords "color" (by simp)
  · exact h ▸ hwords "background-color" (by simp)
  · exact h ▸ hwords "font" (by simp)
  · exact units_of_inFamily (hwords "font-" (by simp)) hdashed h
  · exact units_of_inFamily (hwords "text-" (by simp)) hdashed h
  · exact h ▸ hwords "margin" (by simp)
  · exact units_of_inFamily (hwords "margin-" (by simp)) hplain h
  · exact h ▸ hwords "padding" (by simp)
  · exact units_of_inFamily (hwords "padding-" (by simp)) hplain h
  · exact h ▸ hwords "border" (by simp)
  · exact units_of_inFamily (hwords "border-" (by simp)) hdashed h

/-- What stays has an allowed property, and no forbidden value. -/
theorem keptDeclaration_some {toLowerCase : JsString → JsString} {declaration : JsString}
    {d : JsString × JsString} (h : keptDeclaration toLowerCase declaration = some d) :
    allowedStyleProperty d.1 = true ∧ forbiddenStyleValue d.2 = false := by
  unfold keptDeclaration at h
  dsimp only at h
  split at h
  · cases h
  · split at h
    · cases h
    · split at h
      · cases h
      · rename_i hallowed
        split at h
        · cases h
        · rename_i hvalue
          obtain rfl := Option.some.inj h
          exact ⟨of_not_not hallowed, Bool.eq_false_iff.mpr hvalue⟩

/-- A word without separators in a style is in a property or in a value. -/
theorem part_of_render {w : JsString} (hcolon : unitOf ':' ∉ w) (hblank : unitOf ' ' ∉ w)
    (hsemicolon : unitOf ';' ∉ w) (hne : w ≠ []) {ds : List (JsString × JsString)}
    (h : w <:+: renderDeclarations ds) : ∃ d ∈ ds, w <:+: d.1 ∨ w <:+: d.2 := by
  have hskip : ∀ after : JsString, w <:+: unitOf ' ' :: after → w <:+: after := by
    intro after hafter
    rcases part_of_append_cons hblank (List.nil_append (_ :: after) ▸ hafter) with hnil | hafter
    · exact absurd (List.infix_nil.mp hnil) hne
    · exact hafter
  have hone : ∀ d : JsString × JsString, w <:+: d.1 ++ js ": " ++ d.2 →
      w <:+: d.1 ∨ w <:+: d.2 := by
    intro d hd
    rw [List.append_assoc] at hd
    exact (part_of_append_cons hcolon hd).imp_right (hskip d.2)
  induction ds with
  | nil => exact absurd (List.infix_nil.mp h) hne
  | cons d ds ih =>
    cases ds with
    | nil => exact ⟨d, List.mem_cons_self .., hone d h⟩
    | cons e ds =>
      have hsplit : renderDeclarations (d :: e :: ds) =
          (d.1 ++ js ": " ++ d.2) ++ unitOf ';' :: unitOf ' ' :: renderDeclarations (e :: ds) := by
        rw [renderDeclarations, joinWith, List.map_cons, List.map_cons, PrefixCode.join,
          List.append_assoc]
        rfl
      rw [hsplit] at h
      rcases part_of_append_cons hsemicolon h with h | h
      · exact ⟨d, List.mem_cons_self .., hone d h⟩
      · obtain ⟨d', hmem, hd'⟩ := ih (hskip _ h)
        exact ⟨d', List.mem_cons_of_mem d hmem, hd'⟩

section NoAddress

variable (toLowerCase : JsString → JsString) (style : JsString)

/-- A word with a character that is in no property is in a value, if it is in a style. -/
theorem value_of_part {w : JsString} {c : CodeUnit} (hcolon : unitOf ':' ∉ w)
    (hblank : unitOf ' ' ∉ w) (hsemicolon : unitOf ';' ∉ w) (hc : c ∈ w)
    (hlower : isLower c = false) (hdash : c ≠ unitOf '-')
    (h : w <:+: renderDeclarations (keptDeclarations toLowerCase style)) :
    ∃ value, forbiddenStyleValue value = false ∧ w <:+: value := by
  obtain ⟨d, hd, hpart⟩ :=
    part_of_render hcolon hblank hsemicolon (List.ne_nil_of_mem hc) h
  obtain ⟨declaration, -, hkept⟩ := List.mem_filterMap.mp hd
  obtain ⟨hproperty, hvalue⟩ := keptDeclaration_some hkept
  refine ⟨d.2, hvalue, hpart.resolve_left ?_⟩
  intro hpart
  rcases units_of_allowedStyleProperty hproperty c (hpart.subset hc) with h | h
  · rw [hlower] at h
    cases h
  · exact hdash h

/-- **No backslash is left in a style.** -/
theorem backslash_notMem :
    unitOf '\\' ∉ renderDeclarations (keptDeclarations toLowerCase style) := by
  intro h
  have hpart := (List.singleton_infix_iff _ _).mpr h
  obtain ⟨value, hvalue, hpart⟩ := value_of_part toLowerCase style (c := unitOf '\\') (by decide)
    (by decide) (by decide) (List.mem_cons_self ..) (by decide) (by decide) hpart
  have hmem : unitOf '\\' ∈ value := hpart.subset (List.mem_cons_self ..)
  rw [forbiddenStyleValue, List.contains_iff_mem.mpr hmem, Bool.or_true] at hvalue
  cases hvalue

/-- **No address is left in a style.** -/
theorem any_isUrl_eq_false :
    (Css.lex (renderDeclarations (keptDeclarations toLowerCase style))).any Css.isUrl = false := by
  refine Bool.eq_false_iff.mpr ?_
  intro h
  obtain ⟨name, hname, hpart⟩ := Css.exists_infix_of_isUrl h
  -- the separators are not in the word, in any case
  have hother : ∀ c : CodeUnit, Css.lowerUnit c ∉ js "url" → c ≠ 0x28 → c ∉ name ++ [0x28] := by
    intro c hlower hround hmem
    rcases List.mem_append.mp hmem with hmem | hmem
    · have hmem' : Css.lowerUnit c ∈ Css.lower name := List.mem_map_of_mem hmem
      rw [hname] at hmem'
      exact hlower hmem'
    · exact hround (List.mem_singleton.mp hmem)
  obtain ⟨value, hvalue, hpart⟩ := value_of_part toLowerCase style (c := 0x28)
    (hother _ (by decide) (by decide)) (hother _ (by decide) (by decide))
    (hother _ (by decide) (by decide)) (List.mem_append_right _ (List.mem_cons_self ..))
    (by decide) (by decide) hpart
  rw [forbidden_of_url hname hpart] at hvalue
  cases hvalue

/-- **What is left loads something** only by the name of an image in a function. -/
theorem loads_renderDeclarations :
    Css.loads (renderDeclarations (keptDeclarations toLowerCase style)) =
      Css.namesImage (renderDeclarations (keptDeclarations toLowerCase style)) := by
  rw [Css.loads, any_isUrl_eq_false, Bool.false_or]

end NoAddress

/-! ## The two readings of an address -/

/-- What is taken off the ends. -/
theorem exists_ends (p : CodeUnit → Bool) (s : JsString) :
    ∃ before after, s = before ++ (s.dropWhile p).rdropWhile p ++ after ∧
      (∀ c ∈ before, p c = true) ∧ ∀ c ∈ after, p c = true := by
  refine ⟨s.takeWhile p, (s.dropWhile p).rtakeWhile p, ?_, ?_, ?_⟩
  · rw [List.append_assoc, List.rdropWhile_append_rtakeWhile, List.takeWhile_append_dropWhile]
  · exact fun c => List.mem_takeWhile_imp
  · exact fun c => List.mem_rtakeWhile_imp

/-- A scheme is what stands before a colon. -/
theorem schemeOf_eq_some {s scheme : JsString} :
    schemeOf s = some scheme ↔ (∃ rest, s = scheme ++ unitOf ':' :: rest) ∧
      (∀ c ∈ scheme, isSchemeUnit c = true) ∧ scheme.head?.any isLetter = true := by
  rw [schemeOf]
  refine ⟨?_, ?_⟩
  · intro h
    split at h
    · rename_i hscheme
      obtain rfl := Option.some.inj h
      obtain ⟨rest, hrest⟩ := List.head?_eq_some_iff.mp hscheme.2
      refine ⟨⟨rest, ?_⟩, fun c => List.mem_takeWhile_imp, hscheme.1⟩
      rw [← hrest, List.takeWhile_append_dropWhile]
    · cases h
  · rintro ⟨⟨rest, rfl⟩, hunits, hletter⟩
    have htake : (scheme ++ unitOf ':' :: rest).takeWhile isSchemeUnit = scheme := by
      rw [List.takeWhile_append_of_pos hunits, List.takeWhile_cons_of_neg (by decide),
        List.append_nil]
    have hdrop : (scheme ++ unitOf ':' :: rest).dropWhile isSchemeUnit = unitOf ':' :: rest := by
      rw [List.dropWhile_append_of_pos hunits, List.dropWhile_cons_of_neg (by decide)]
    simp only [htake, hdrop]
    exact if_pos ⟨hletter, rfl⟩

/-- An address without its whitespace, as the code reads it. -/
def withoutSpace (url : JsString) : JsString := url.filter fun c => ¬ isSpace c

theorem withoutSpace_trim (url : JsString) : withoutSpace (trim url) = withoutSpace url := by
  obtain ⟨before, after, hsplit, hbefore, hafter⟩ := exists_ends isSpace url
  have hnone : ∀ ends : JsString, (∀ c ∈ ends, isSpace c = true) → withoutSpace ends = [] := by
    intro ends hends
    refine List.filter_eq_nil_iff.mpr ?_
    intro c hc
    simp [hends c hc]
  have hfilter : withoutSpace url = withoutSpace before ++ withoutSpace (trim url) ++
      withoutSpace after := by
    rw [withoutSpace, withoutSpace, withoutSpace, withoutSpace, ← List.filter_append,
      ← List.filter_append]
    exact congrArg _ hsplit
  rw [hfilter, hnone before hbefore, hnone after hafter, List.nil_append, List.append_nil]

/-- A word with a colon in front of a text that has its only colon at its end is all of it. -/
theorem eq_of_afterWord {word full : String} {s : JsString}
    (hfull : js full = js word ++ [unitOf ':']) (hs : unitOf ':' ∉ s)
    (h : (afterWord full (s ++ js ":")).isSome = true) : lowerAscii s = js word := by
  rw [afterWord] at h
  split at h
  · rename_i hword
    rw [hfull, List.length_append, List.length_singleton] at hword
    have hlength := congrArg List.length hword
    rw [lowerAscii, Css.lower, List.length_map, List.length_take, List.length_append,
      List.length_append, List.length_singleton] at hlength
    have hcolon : (js ":").length = 1 := rfl
    rcases Nat.lt_or_ge (js word).length s.length with hlt | hge
    · -- the colon of the word would be in the text
      rw [List.take_append_of_le_length hlt] at hword
      have hmem : unitOf ':' ∈ lowerAscii (s.take ((js word).length + 1)) :=
        hword ▸ List.mem_append_right _ (List.mem_cons_self ..)
      obtain ⟨c, hc, hlower⟩ := List.mem_map.mp hmem
      have heq : c = unitOf ':' := eq_of_lowerUnit (by decide) hlower
      exact absurd (heq ▸ List.mem_of_mem_take hc) hs
    · rw [List.take_of_length_le (by rw [List.length_append, hcolon]; omega), lowerAscii,
        Css.lower, List.map_append] at hword
      exact (List.append_inj' hword rfl).1
  · cases h

/-- Whitespace is in no scheme. -/
theorem isSpace_eq_false_of_isSchemeUnit {c : CodeUnit} (h : isSchemeUnit c = true) :
    isSpace c = false := by
  refine Bool.eq_false_iff.mpr ?_
  intro hspace
  simp only [isSchemeUnit, isLetter, isSpace, Bool.or_eq_true, decide_eq_true_eq, Fin.le_def,
    Fin.ext_iff, unitOf, Fin.val_ofNat, Char.reduceToNat] at h hspace
  omega

/-- An address that the code takes for a link has the scheme of one, for the code. -/
theorem linkSchemes_of_safeHref {url : JsString} (h : safeHref (normalizedScheme url) = true) :
    ∃ scheme, schemeOf (withoutSpace url) = some scheme ∧ lowerAscii scheme ∈ linkSchemes := by
  rw [normalizedScheme] at h
  split at h
  · exact absurd h (by decide)
  · split at h
    · rename_i scheme hscheme
      refine ⟨scheme, withoutSpace_trim url ▸ hscheme, ?_⟩
      obtain ⟨-, hunits, -⟩ := schemeOf_eq_some.mp hscheme
      have hcolon : unitOf ':' ∉ lowerAscii scheme := by
        intro hmem
        obtain ⟨c, hc, hlower⟩ := List.mem_map.mp hmem
        have heq : c = unitOf ':' := eq_of_lowerUnit (by decide) hlower
        exact absurd (heq ▸ hunits c hc) (by decide)
      rw [safeHref, Bool.or_eq_true, Bool.or_eq_true] at h
      rcases h with (h | h) | h
      · have hword : lowerAscii (lowerAscii scheme) = js "http" := eq_of_afterWord rfl hcolon h
        rw [← lowerAscii_lowerAscii, hword]
        decide
      · have hword : lowerAscii (lowerAscii scheme) = js "https" := eq_of_afterWord rfl hcolon h
        rw [← lowerAscii_lowerAscii, hword]
        decide
      · have hword : lowerAscii (lowerAscii scheme) = js "mailto" := eq_of_afterWord rfl hcolon h
        rw [← lowerAscii_lowerAscii, hword]
        decide
    · exact absurd h (by decide)

/-- What a browser reads of an address is in what the code reads. -/
theorem exists_withoutSpace_urlText (url : JsString) :
    ∃ before after, withoutSpace url = before ++ withoutSpace (urlText url) ++ after ∧
      ∀ c ∈ before, c ≤ 0x20 := by
  obtain ⟨before, after, hsplit, hbefore, -⟩ := exists_ends (· ≤ 0x20) url
  have htext : withoutSpace (urlText url) =
      withoutSpace ((url.dropWhile (· ≤ 0x20)).rdropWhile (· ≤ 0x20)) := by
    rw [withoutSpace, urlText, List.filter_filter, withoutSpace]
    refine List.filter_congr ?_
    intro c _
    by_cases hspace : isSpace c = true
    · simp [hspace]
    · have htab : c ≠ 0x09 := by rintro rfl; exact hspace (by decide)
      have hfeed : c ≠ 0x0A := by rintro rfl; exact hspace (by decide)
      have hreturn : c ≠ 0x0D := by rintro rfl; exact hspace (by decide)
      simp [hspace, htab, hfeed, hreturn]
  refine ⟨withoutSpace before, withoutSpace after, ?_, ?_⟩
  · rw [htext, withoutSpace, withoutSpace, withoutSpace, withoutSpace, ← List.filter_append,
      ← List.filter_append]
    exact congrArg _ hsplit
  · intro c hc
    exact of_decide_eq_true (hbefore c (List.mem_of_mem_filter hc))

/-- Where the code reads a scheme, what it reads starts as what a browser reads. -/
theorem exists_withoutSpace_of_scheme {url scheme : JsString}
    (h : schemeOf (withoutSpace url) = some scheme) :
    ∃ after, withoutSpace url = withoutSpace (urlText url) ++ after := by
  obtain ⟨before, after, hsplit, hbefore⟩ := exists_withoutSpace_urlText url
  cases before with
  | nil => exact ⟨after, hsplit⟩
  | cons c before =>
    -- a scheme starts with a letter
    obtain ⟨⟨rest, hscheme⟩, -, hletter⟩ := schemeOf_eq_some.mp h
    cases scheme with
    | nil => cases hletter
    | cons d scheme =>
      rw [hsplit, List.cons_append, List.cons_append] at hscheme
      obtain ⟨rfl, -⟩ := List.cons.inj hscheme
      have hlow := Fin.le_def.mp (hbefore c (List.mem_cons_self ..))
      have hletter' : isLetter c = true := hletter
      rcases of_decide_eq_true hletter' with ⟨hle, -⟩ | ⟨hle, -⟩
      · exact absurd (hlow.trans' (Fin.le_def.mp hle)) (by decide)
      · exact absurd (hlow.trans' (Fin.le_def.mp hle)) (by decide)

/-- **Two schemes of an address are the same**: that which the code reads, and a browser's. -/
theorem scheme_eq {url scheme scheme' : JsString} (h : schemeOf (withoutSpace url) = some scheme)
    (h' : schemeOf (urlText url) = some scheme') : scheme = scheme' := by
  obtain ⟨after, hsplit⟩ := exists_withoutSpace_of_scheme h
  obtain ⟨⟨rest, hrest⟩, hunits, hletter⟩ := schemeOf_eq_some.mp h'
  have hself : withoutSpace scheme' = scheme' := by
    refine List.filter_eq_self.mpr ?_
    intro c hc
    rw [isSpace_eq_false_of_isSchemeUnit (hunits c hc)]
    rfl
  have htext : withoutSpace (urlText url) = scheme' ++ unitOf ':' :: withoutSpace rest := by
    rw [hrest, withoutSpace, List.filter_append, List.filter_cons_of_pos (by decide)]
    exact congrArg (· ++ _) hself
  have hsame : schemeOf (withoutSpace url) = some scheme' := by
    refine schemeOf_eq_some.mpr ⟨⟨withoutSpace rest ++ after, ?_⟩, hunits, hletter⟩
    rw [hsplit, htext, List.append_assoc, List.cons_append]
  exact Option.some.inj (h.symm.trans hsame)

/-- Where the code reads a scheme, a browser reads no `//`. -/
theorem not_protocolRelative {url scheme : JsString}
    (h : schemeOf (withoutSpace url) = some scheme) : protocolRelative url = false := by
  obtain ⟨after, hsplit⟩ := exists_withoutSpace_of_scheme h
  refine Bool.eq_false_iff.mpr ?_
  intro hrelative
  obtain ⟨rest, hrest⟩ := List.isPrefixOf_iff_prefix.mp hrelative
  obtain ⟨⟨rest', hscheme⟩, -, hletter⟩ := schemeOf_eq_some.mp h
  have htext : withoutSpace (urlText url) = unitOf '/' :: withoutSpace (unitOf '/' :: rest) := by
    rw [← hrest]
    exact List.filter_cons_of_pos (by decide)
  cases scheme with
  | nil => cases hletter
  | cons c scheme =>
    rw [hsplit, htext, List.cons_append, List.cons_append] at hscheme
    obtain ⟨rfl, -⟩ := List.cons.inj hscheme
    have hletter' : isLetter (unitOf '/') = true := hletter
    exact absurd hletter' (by decide)

/-! ## One element -/

section Element

variable (toLowerCase : JsString → JsString) (resolver : JsString → Option JsString)

theorem transformAll_tagName (tag : JsString) (attribs : Attribs) :
    (transformAll toLowerCase resolver tag attribs).tagName = toLowerCase tag := by
  rw [transformAll]
  split_ifs <;> rfl

/-- No tag that stays is one of active content. -/
theorem notMem_activeContentTags {tag : JsString} (h : tag ∈ allowedTags) :
    tag ∉ activeContentTags := by
  have hall : (allowedTags.all fun tag => tag ∉ activeContentTags) = true := by decide +kernel
  exact of_decide_eq_true (List.all_eq_true.mp hall tag h)

variable {tag : JsString} (attribs : Attribs)

theorem transformAll_attribs (hallowed : toLowerCase tag ∈ allowedTags) :
    (transformAll toLowerCase resolver tag attribs).attribs =
      if toLowerCase tag = js "a" then transformLink (filterStyle toLowerCase attribs)
      else if toLowerCase tag = js "img" then
        (transformImage resolver (filterStyle toLowerCase attribs)).1
      else filterStyle toLowerCase attribs := by
  rw [transformAll, if_neg (notMem_activeContentTags hallowed)]
  split_ifs <;> rfl

/-- What stays of an attribute. -/
theorem get_sanitizedAttribs (name : String) :
    (sanitizedAttribs (transformAll toLowerCase resolver) tag attribs).get name =
      ((transformAll toLowerCase resolver tag attribs).attribs.get name).filter
        (keepsAttribute (toLowerCase tag) (js name)) := by
  rw [Attribs.get, sanitizedAttribs, transformAll_tagName]
  rfl

theorem get_filterStyle : (filterStyle toLowerCase attribs).get "style" =
    ((attribs.get "style").map (filterStyleAttribute toLowerCase)).filter (· ≠ []) := by
  rw [filterStyle]
  cases hstyle : attribs.get "style" with
  | none => exact hstyle
  | some style =>
    rw [Option.map_some]
    dsimp only
    by_cases hempty : filterStyleAttribute toLowerCase style = []
    · rw [if_pos hempty, Attribs.get_delete_self, hempty]
      rfl
    · rw [if_neg hempty, Attribs.get_set_self, Option.filter_some, if_pos (by simpa using hempty)]

/-- A style and relations of a link stay whatever the tag. -/
theorem keepsAttribute_style (tag value : JsString) :
    keepsAttribute tag (js "style") value = true := by
  have hmem : js "style" ∈ allowedAttributes tag := by
    rw [allowedAttributes, List.map_append]
    exact List.mem_append_right _ (by decide)
  exact decide_eq_true ⟨hmem, fun h => absurd h (by decide)⟩

omit toLowerCase in
/-- An image gets a source that the resolver returned, or nothing is left of its attributes. -/
theorem transformImage_cases :
    (∃ cid src, resolver cid = some src ∧
        (transformImage resolver attribs).1 = attribs.set "src" src) ∨
      (transformImage resolver attribs).1 = .empty := by
  rw [transformImage]
  dsimp only
  split
  · split
    · rename_i src hresolved
      split at hresolved
      · cases hresolved
      · exact .inl ⟨_, src, hresolved, rfl⟩
    · exact .inr rfl
  · exact .inr rfl

/-- Of an element that stays, the style is the filtered one. -/
theorem get_style (hallowed : toLowerCase tag ∈ allowedTags)
    (hkept : excluded (toLowerCase tag)
      (sanitizedAttribs (transformAll toLowerCase resolver) tag attribs) = false) :
    (sanitizedAttribs (transformAll toLowerCase resolver) tag attribs).get "style" =
      ((attribs.get "style").map (filterStyleAttribute toLowerCase)).filter (· ≠ []) := by
  have hsame : (transformAll toLowerCase resolver tag attribs).attribs.get "style" =
      (filterStyle toLowerCase attribs).get "style" := by
    have hattribs := transformAll_attribs toLowerCase resolver attribs hallowed
    rw [hattribs]
    split_ifs with hlink himage
    · rw [transformLink]
      split
      · rw [Attribs.get_set_of_ne _ _ (by decide), Attribs.get_set_of_ne _ _ (by decide)]
      · rw [Attribs.get_delete_of_ne _ (by decide), Attribs.get_delete_of_ne _ (by decide),
          Attribs.get_delete_of_ne _ (by decide)]
    · obtain ⟨cid, src, -, hset⟩ | hempty :=
        transformImage_cases resolver (filterStyle toLowerCase attribs)
      · rw [hset]
        exact Attribs.get_set_of_ne _ _ (by decide)
      · -- an image without a source does not stay
        rw [if_neg hlink, if_pos himage, hempty] at hattribs
        have hsrc : (sanitizedAttribs (transformAll toLowerCase resolver) tag attribs).get "src" =
            none := by
          rw [get_sanitizedAttribs, hattribs]
          rfl
        refine absurd ⟨himage, ?_⟩ (of_decide_eq_false hkept)
        rw [hsrc]
        rfl
    · rfl
  rw [get_sanitizedAttribs, hsame, get_filterStyle]
  cases ((attribs.get "style").map (filterStyleAttribute toLowerCase)).filter (· ≠ []) with
  | none => rfl
  | some value => exact if_pos (keepsAttribute_style _ value)

/-- An image that stays has a source that the resolver returned. -/
theorem resolved_of_get_src (himage : toLowerCase tag = js "img")
    (hallowed : toLowerCase tag ∈ allowedTags) {src : JsString}
    (hsrc : (sanitizedAttribs (transformAll toLowerCase resolver) tag attribs).get "src" =
      some src) : ∃ cid, resolver cid = some src := by
  rw [get_sanitizedAttribs, transformAll_attribs toLowerCase resolver attribs hallowed,
    if_neg (by rw [himage]; decide), if_pos himage] at hsrc
  have hsrc' := (Option.filter_eq_some_iff.mp hsrc).1
  obtain ⟨cid, src', hresolved, hset⟩ | hempty :=
    transformImage_cases resolver (filterStyle toLowerCase attribs)
  · rw [hset, Attribs.get_set_self] at hsrc'
    obtain rfl := Option.some.inj hsrc'
    exact ⟨cid, hresolved⟩
  · rw [hempty] at hsrc'
    cases hsrc'

/-- Only a link has an address that leads somewhere. -/
theorem get_href_of_ne (htag : toLowerCase tag ≠ js "a") :
    (sanitizedAttribs (transformAll toLowerCase resolver) tag attribs).get "href" = none := by
  rw [get_sanitizedAttribs]
  refine Option.filter_eq_none_iff.mpr ?_
  intro href _ hkeeps
  have hmem := (of_decide_eq_true hkeeps).1
  rw [allowedAttributes, if_neg htag] at hmem
  revert hmem
  split_ifs <;> decide

theorem get_filterStyle_of_ne {name : String} (h : js name ≠ js "style") :
    (filterStyle toLowerCase attribs).get name = attribs.get name := by
  rw [filterStyle]
  split
  · dsimp only
    split
    · exact Attribs.get_delete_of_ne _ h
    · exact Attribs.get_set_of_ne _ _ h
  · rfl

/-- An address that the code takes for a link is that of one, if a browser reads a scheme. -/
theorem urlScheme_of_safeHref {href : JsString} (hsafe : safeHref (normalizedScheme href) = true)
    (hscheme : urlScheme href ≠ none) : ∃ scheme ∈ linkSchemes, urlScheme href = some scheme := by
  obtain ⟨scheme, hread, hmem⟩ := linkSchemes_of_safeHref hsafe
  rw [urlScheme] at hscheme ⊢
  cases hbrowser : schemeOf (urlText href) with
  | none =>
    rw [hbrowser] at hscheme
    exact absurd rfl hscheme
  | some scheme' =>
    rw [← scheme_eq hread hbrowser]
    exact ⟨lowerAscii scheme, hmem, rfl⟩

theorem get_transformLink_of_safe {href : JsString} (hhref : attribs.get "href" = some href)
    (hsafe : safeHref (normalizedScheme href) = true) :
    transformLink attribs =
      (attribs.set "rel" (js "noopener noreferrer")).set "target" (js "_blank") := by
  rw [transformLink, hhref]
  exact if_pos hsafe

/-- What becomes of a link. -/
theorem link_iff (hlink : toLowerCase tag = js "a") :
    (∀ href, (sanitizedAttribs (transformAll toLowerCase resolver) tag attribs).get "href" =
        some href → (∃ scheme ∈ linkSchemes, urlScheme href = some scheme) ∧
        (sanitizedAttribs (transformAll toLowerCase resolver) tag attribs).get "rel" =
          some (js "noopener noreferrer")) ↔
      ∀ href, attribs.get "href" = some href → safeHref (normalizedScheme href) = true →
        urlScheme href ≠ none := by
  have hattribs := @transformAll_attribs toLowerCase resolver tag attribs
    (by rw [hlink]; decide +kernel)
  rw [if_pos hlink] at hattribs
  rw [get_sanitizedAttribs, get_sanitizedAttribs, hattribs, hlink]
  have hsame : (filterStyle toLowerCase attribs).get "href" = attribs.get "href" :=
    get_filterStyle_of_ne toLowerCase attribs (by decide)
  refine ⟨?_, ?_⟩
  · intro hinert href hhref hsafe hnone
    obtain ⟨scheme, hread, -⟩ := linkSchemes_of_safeHref hsafe
    -- the sanitizer takes it for a relative address, and keeps it
    have hkeeps : keepsAttribute (js "a") (js "href") href = true := by
      refine decide_eq_true ⟨by decide, fun _ => ?_⟩
      rw [allowedUrl, hnone]
      exact decide_eq_true (Bool.eq_false_iff.mp (not_protocolRelative hread))
    have hstays : ((transformLink (filterStyle toLowerCase attribs)).get "href").filter
        (keepsAttribute (js "a") (js "href")) = some href := by
      rw [get_transformLink_of_safe _ (hsame.trans hhref) hsafe,
        Attribs.get_set_of_ne _ _ (by decide), Attribs.get_set_of_ne _ _ (by decide), hsame, hhref]
      exact if_pos hkeeps
    obtain ⟨⟨scheme', -, hscheme⟩, -⟩ := hinert href hstays
    rw [hnone] at hscheme
    cases hscheme
  · intro hharmless href hstays
    have hhref := (Option.filter_eq_some_iff.mp hstays).1
    by_cases hsafe : (attribs.get "href").any fun href => safeHref (normalizedScheme href)
    · obtain ⟨href', hhref', hsafe'⟩ := (Option.any_eq_true _ _).mp hsafe
      rw [get_transformLink_of_safe _ (hsame.trans hhref') hsafe',
        Attribs.get_set_of_ne _ _ (by decide), Attribs.get_set_of_ne _ _ (by decide), hsame,
        hhref'] at hhref
      obtain rfl := Option.some.inj hhref
      refine ⟨urlScheme_of_safeHref hsafe' (hharmless _ hhref' hsafe'), ?_⟩
      rw [get_transformLink_of_safe _ (hsame.trans hhref') hsafe',
        Attribs.get_set_of_ne _ _ (by decide), Attribs.get_set_self]
      have hrel : keepsAttribute (js "a") (js "rel") (js "noopener noreferrer") = true := by
        decide +kernel
      rw [Option.filter_some, if_pos hrel]
    · rw [transformLink, hsame, if_neg hsafe, Attribs.get_delete_of_ne _ (by decide),
        Attribs.get_delete_of_ne _ (by decide), Attribs.get_delete_self] at hhref
      cases hhref

/-- **An element that stays is inert** just when it was harmless. -/
theorem inertElement_iff (hallowed : toLowerCase tag ∈ allowedTags)
    (hkept : excluded (toLowerCase tag)
      (sanitizedAttribs (transformAll toLowerCase resolver) tag attribs) = false) :
    InertElement resolver (toLowerCase tag)
        (sanitizedAttribs (transformAll toLowerCase resolver) tag attribs) ↔
      Harmless toLowerCase (toLowerCase tag) attribs := by
  have hstyle := get_style toLowerCase resolver attribs hallowed hkept
  refine ⟨fun h => ⟨?_, ?_⟩, fun h => ⟨hallowed, ?_, ?_, ?_⟩⟩
  · intro style hget hfixed
    have hfiltered : filterStyleAttribute toLowerCase style =
        renderDeclarations (keptDeclarations toLowerCase style) := by
      rw [filterStyleAttribute, hfixed]
      rfl
    by_cases hempty : renderDeclarations (keptDeclarations toLowerCase style) = []
    · rw [hempty]
      rfl
    · rw [hget, Option.map_some, hfiltered, Option.filter_some,
        if_pos (decide_eq_true hempty)] at hstyle
      rw [← loads_renderDeclarations]
      exact (h.style _ hstyle).2
  · intro hlink
    exact (link_iff toLowerCase resolver attribs hlink).mp h.link
  · intro himage src hsrc
    exact resolved_of_get_src toLowerCase resolver attribs himage hallowed hsrc
  · by_cases hlink : toLowerCase tag = js "a"
    · exact (link_iff toLowerCase resolver attribs hlink).mpr (h.link hlink)
    · intro href hhref
      rw [get_href_of_ne toLowerCase resolver attribs hlink] at hhref
      cases hhref
  · intro filtered hget
    rw [hstyle] at hget
    obtain ⟨hmap, hne⟩ := Option.filter_eq_some_iff.mp hget
    obtain ⟨style, hattrib, rfl⟩ := Option.map_eq_some_iff.mp hmap
    by_cases hfixed : search positionFixed style = true
    · rw [filterStyleAttribute, if_pos hfixed] at hne
      exact absurd hne (by decide)
    · rw [filterStyleAttribute, if_neg hfixed]
      refine ⟨backslash_notMem toLowerCase style, ?_⟩
      rw [loads_renderDeclarations]
      exact h.style style hattrib (Bool.eq_false_iff.mpr hfixed)

end Element

/-! ## All of a tree -/

section Tree

variable (transform : JsString → Attribs → Transformed)

theorem elementsOf_append (nodes nodes' : List Node) :
    elementsOf (nodes ++ nodes') = elementsOf nodes ++ elementsOf nodes' := by
  induction nodes with
  | nil => rfl
  | cons node nodes ih =>
    rw [List.cons_append, elementsOf, elementsOf, ih, List.append_assoc]

mutual

/-- What is left are the elements that stay, with what stays of their attributes. -/
theorem elementsOf_sanitizeNode (node : Node) :
    elementsOf (sanitizeNode transform node) =
      (keptNode transform node).map fun e =>
        ((transform e.1 e.2).tagName, sanitizedAttribs transform e.1 e.2) := by
  cases node with
  | text value => rfl
  | element tag attribs children =>
    rw [sanitizeNode, keptNode]
    dsimp only
    split_ifs
    · rfl
    · rw [elementsOf, elements, elementsOf, List.append_nil, List.map_cons,
        elementsOf_sanitizeNodes children]
    · rfl
    · exact elementsOf_sanitizeNodes children

theorem elementsOf_sanitizeNodes (nodes : List Node) :
    elementsOf (sanitizeNodes transform nodes) =
      (keptNodes transform nodes).map fun e =>
        ((transform e.1 e.2).tagName, sanitizedAttribs transform e.1 e.2) := by
  cases nodes with
  | nil => rfl
  | cons node nodes =>
    rw [sanitizeNodes, keptNodes, elementsOf_append, List.map_append,
      elementsOf_sanitizeNode node, elementsOf_sanitizeNodes nodes]

end

/-- An element stays if its tag is allowed and nothing excludes it. -/
def Stays (e : JsString × Attribs) : Prop :=
  (transform e.1 e.2).tagName ∈ allowedTags ∧
    excluded (transform e.1 e.2).tagName (sanitizedAttribs transform e.1 e.2) = false

mutual

theorem stays_of_mem_keptNode (node : Node) :
    ∀ e ∈ keptNode transform node, Stays transform e := by
  cases node with
  | text value =>
    intro e he
    cases he
  | element tag attribs children =>
    rw [keptNode]
    split_ifs with hallowed hexcluded hnone
    · intro e he
      cases he
    · intro e he
      rcases List.mem_cons.mp he with rfl | he
      · exact ⟨hallowed, Bool.eq_false_iff.mpr hexcluded⟩
      · exact stays_of_mem_keptNodes children e he
    · intro e he
      cases he
    · exact stays_of_mem_keptNodes children

theorem stays_of_mem_keptNodes (nodes : List Node) :
    ∀ e ∈ keptNodes transform nodes, Stays transform e := by
  cases nodes with
  | nil =>
    intro e he
    cases he
  | cons node nodes =>
    rw [keptNodes]
    intro e he
    rcases List.mem_append.mp he with he | he
    · exact stays_of_mem_keptNode node e he
    · exact stays_of_mem_keptNodes nodes e he

end

end Tree

/-- **A preview is inert** if and only if every element that stays was harmless. -/
theorem inert_iff (toLowerCase : JsString → JsString) (resolver : JsString → Option JsString)
    (html : List Node) :
    Inert resolver (buildSafeEmailPreview toLowerCase resolver html).html ↔
      ∀ e ∈ keptNodes (transformAll toLowerCase resolver) html,
        Harmless toLowerCase (toLowerCase e.1) e.2 := by
  have helement : ∀ e ∈ keptNodes (transformAll toLowerCase resolver) html,
      (InertElement resolver (toLowerCase e.1)
          (sanitizedAttribs (transformAll toLowerCase resolver) e.1 e.2) ↔
        Harmless toLowerCase (toLowerCase e.1) e.2) := by
    intro e he
    obtain ⟨hallowed, hkept⟩ := stays_of_mem_keptNodes _ html e he
    rw [transformAll_tagName] at hallowed hkept
    exact inertElement_iff toLowerCase resolver e.2 hallowed hkept
  rw [Inert, buildSafeEmailPreview, elementsOf_sanitizeNodes]
  refine ⟨?_, ?_⟩
  · intro h e he
    refine (helement e he).mp ?_
    have hinert := h _ (List.mem_map_of_mem he)
    rw [transformAll_tagName] at hinert
    exact hinert
  · intro h e' he'
    obtain ⟨e, he, rfl⟩ := List.mem_map.mp he'
    rw [transformAll_tagName]
    exact (helement e he).mpr (h e he)

/-- A letter with an image behind its border, which is named without `url()`. -/
def bordered : List Node :=
  [.element (js "p")
    (Attribs.empty.set "style"
      (js "border-image-source: image-set('https://tracker.example/1.png' 1x)"))
    [.text (js "Hello")]]

/-- The image of the border is loaded, from where the sender says. -/
theorem not_inert : ¬ ∀ (resolver : JsString → Option JsString) (html : List Node),
    Inert resolver (buildSafeEmailPreview lowerAscii resolver html).html := by
  intro h
  have hloads : ((elementsOf (buildSafeEmailPreview lowerAscii (fun _ => none) bordered).html).any
      fun e => (e.2.get "style").any Css.loads) = true := by decide +kernel
  obtain ⟨e, he, hstyle⟩ := List.any_eq_true.mp hloads
  obtain ⟨style, hget, hload⟩ := (Option.any_eq_true _ _).mp hstyle
  rw [((h (fun _ => none) bordered e he).style style hget).2] at hload
  cases hload

end AegCloudDfir.Processing.SafePreview
