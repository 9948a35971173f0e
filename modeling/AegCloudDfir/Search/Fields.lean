import Mathlib.Data.List.Sort
import AegCloudDfir.Js.Text

/-!
# Searchable fields

`packages/search/src/fields.ts`: the registry that maps the field names of the query
language to document paths, and what else the query language needs from the
JavaScript runtime.

The registry is a plain object, and `this.defs[normalized]` is a property read: it
also finds what the object inherits from `Object.prototype`. `PropertyRead` keeps
the two apart. Spreading an inherited function (or the prototype itself) adds no
property, so such a field has a name and no `esPath` or `type`; both are optional
here for that reason.
-/

namespace AegCloudDfir.Search

/-- What the query language uses of the runtime. `Num` is the type of its numbers. -/
structure JsRuntime (Num : Type) where
  /-- `s.toLowerCase()` -/
  lower : JsString → JsString
  /-- no ASCII capital survives it -/
  lower_spec : ∀ s, ∀ c ∈ lower s, ¬ (0x41 ≤ c ∧ c ≤ 0x5A)
  /-- `!Number.isNaN(Date.parse(s))` -/
  dateParses : JsString → Bool
  /-- `Math.round(Number.parseFloat(s) * k)`, if `Number.parseFloat(s)` is finite -/
  roundBytes : JsString → ℕ → Option Num
  /-- `String(n)` -/
  showNumber : Num → JsString

/-- The ASCII letters in lower case. -/
def asciiLower (s : JsString) : JsString :=
  s.map fun c => if 0x41 ≤ c ∧ c ≤ 0x5A then c + 0x20 else c

theorem asciiLower_spec (s : JsString) : ∀ c ∈ asciiLower s, ¬ (0x41 ≤ c ∧ c ≤ 0x5A) := by
  intro c hc
  obtain ⟨d, -, rfl⟩ := List.mem_map.mp hc
  by_cases hcapital : 0x41 ≤ d ∧ d ≤ 0x5A
  · rw [if_pos hcapital]
    simp only [Fin.le_def, Fin.add_def] at hcapital ⊢
    simp at hcapital ⊢
    omega
  · rw [if_neg hcapital]
    exact hcapital

/-- A runtime that is right about ASCII strings and integers; it knows no dates. -/
def asciiRuntime : JsRuntime ℤ where
  lower := asciiLower
  lower_spec := asciiLower_spec
  dateParses _ := false
  roundBytes amount multiplier := some (parseDecimal amount * multiplier)
  showNumber := decimalInt

/-- `QuerySyntaxError` and `QueryValidationError`. -/
inductive QueryError : Type where
  /-- the query is malformed at a position -/
  | syntaxError (message : JsString) (position : ℕ)
  /-- the query violates the field registry or the cost limits -/
  | validation (violations : List JsString)
  deriving DecidableEq

/-! ## Plain objects -/

/-- The names every plain object inherits. -/
def inheritedNames : List JsString :=
  [js "constructor", js "__proto__", js "__defineGetter__", js "__defineSetter__",
    js "__lookupGetter__", js "__lookupSetter__", js "hasOwnProperty", js "isPrototypeOf",
    js "propertyIsEnumerable", js "toLocaleString", js "toString", js "valueOf"]

/-- The result of reading `object[key]`. -/
inductive PropertyRead (α : Type) : Type where
  /-- a property of the object itself -/
  | own (value : α)
  /-- a property of `Object.prototype`; none of them is falsy -/
  | inherited
  /-- `undefined` -/
  | missing

/-- `object[key]`. -/
def readProperty {α : Type} (object : List (JsString × α)) (key : JsString) : PropertyRead α :=
  match object.lookup key with
  | some value => .own value
  | none => if key ∈ inheritedNames then .inherited else .missing

/-! ## The registry -/

/-- `FieldType`. -/
inductive FieldType : Type where
  | text
  | keyword
  | date
  | size
  | address
  | header
  | ocr
  | boolean
  deriving DecidableEq

/-- `FieldDef`. -/
structure FieldDef where
  esPath : JsString
  type : FieldType
  deriving DecidableEq

/-- `ResolvedField`. -/
structure ResolvedField where
  name : JsString
  esPath : Option JsString
  type : Option FieldType
  headerName : Option JsString
  deriving DecidableEq

/-- `ALL_TEXT_PATH`. -/
def allTextPath : JsString := js "*"

/-- `ALL_TEXT_FIELDS`. -/
def allTextFields : List JsString :=
  [js "text.body", js "text.bodyHtml", js "text.attachment", js "text.file", js "text.ocr",
    js "name", js "email.subject"]

/-- `FIELD_DEFS`. -/
def fieldDefs : List (JsString × FieldDef) :=
  [(js "from", ⟨js "email.from", .address⟩),
    (js "to", ⟨js "email.to", .address⟩),
    (js "cc", ⟨js "email.cc", .address⟩),
    (js "bcc", ⟨js "email.bcc", .address⟩),
    (js "sender", ⟨js "email.sender", .address⟩),
    (js "replyto", ⟨js "email.replyTo", .address⟩),
    (js "participants", ⟨js "addresses", .address⟩),
    (js "subject", ⟨js "email.subject", .text⟩),
    (js "body", ⟨js "text.body", .text⟩),
    (js "text", ⟨allTextPath, .text⟩),
    (js "attachment", ⟨js "text.attachment", .text⟩),
    (js "ocr", ⟨js "text.ocr", .ocr⟩),
    (js "filename", ⟨js "name", .text⟩),
    (js "name", ⟨js "name", .text⟩),
    (js "kind", ⟨js "kind", .keyword⟩),
    (js "extension", ⟨js "extension", .keyword⟩),
    (js "ext", ⟨js "extension", .keyword⟩),
    (js "mime", ⟨js "mimeType", .keyword⟩),
    (js "mimetype", ⟨js "mimeType", .keyword⟩),
    (js "path", ⟨js "sourcePath", .keyword⟩),
    (js "folder", ⟨js "folder", .keyword⟩),
    (js "label", ⟨js "sourceLabels", .keyword⟩),
    (js "labels", ⟨js "sourceLabels", .keyword⟩),
    (js "source", ⟨js "sourcePath", .keyword⟩),
    (js "hash", ⟨js "sha256", .keyword⟩),
    (js "sha256", ⟨js "sha256", .keyword⟩),
    (js "custodian", ⟨js "custodianEmail", .keyword⟩),
    (js "provider", ⟨js "provider", .keyword⟩),
    (js "tag", ⟨js "tagNames", .keyword⟩),
    (js "tags", ⟨js "tagNames", .keyword⟩),
    (js "case", ⟨js "caseIds", .keyword⟩),
    (js "messageid", ⟨js "email.messageId", .keyword⟩),
    (js "threadid", ⟨js "email.threadId", .keyword⟩),
    (js "bates", ⟨js "bates", .keyword⟩),
    (js "privileged", ⟨js "privileged", .boolean⟩),
    (js "confidential", ⟨js "confidential", .boolean⟩),
    (js "produced", ⟨js "hasBeenProduced", .boolean⟩),
    (js "size", ⟨js "size", .size⟩),
    (js "sent", ⟨js "dates.sent", .date⟩),
    (js "received", ⟨js "dates.received", .date⟩),
    (js "created", ⟨js "dates.created", .date⟩),
    (js "modified", ⟨js "dates.modified", .date⟩),
    (js "acquired", ⟨js "dates.acquired", .date⟩),
    (js "date", ⟨js "dates.primary", .date⟩),
    (js "auditsystem", ⟨js "audit.system", .keyword⟩),
    (js "workload", ⟨js "audit.workload", .keyword⟩),
    (js "operation", ⟨js "audit.operation", .keyword⟩),
    (js "recordtype", ⟨js "audit.recordType", .keyword⟩),
    (js "actor", ⟨js "audit.actorEmail", .keyword⟩),
    (js "actorip", ⟨js "audit.actorIp", .keyword⟩),
    (js "auditresult", ⟨js "audit.resultStatus", .keyword⟩),
    (js "audittarget", ⟨js "audit.targetId", .keyword⟩),
    (js "occurred", ⟨js "audit.occurredAt", .date⟩)]

/-- `HASH_FIELD_NAMES`. -/
def hashFieldNames : List JsString := [js "hash", js "sha256"]

/-- `FieldRegistry`. -/
structure FieldRegistry where
  defs : List (JsString × FieldDef)

/-- `DEFAULT_FIELD_REGISTRY`. -/
def defaultFieldRegistry : FieldRegistry := ⟨fieldDefs⟩

/-- `DEFAULT_TEXT_FIELD`, for a term without a field. -/
def defaultTextField : ResolvedField where
  name := js "text"
  esPath := some allTextPath
  type := some .text
  headerName := none

/-- `allowedFields`. -/
def FieldRegistry.allowedFields (r : FieldRegistry) : List JsString :=
  (r.defs.map Prod.fst ++ [js "header.<name>"]).insertionSort (· ≤ ·)

/-- `'header.'`. -/
def headerPrefix : JsString := js "header."

variable {Num : Type} (rt : JsRuntime Num)

/-- `resolve`. -/
def FieldRegistry.resolve (r : FieldRegistry) (field : JsString) :
    Except QueryError ResolvedField :=
  let normalized := rt.lower field
  if startsWith normalized headerPrefix then
    let headerName := normalized.drop headerPrefix.length
    if headerName.length = 0 then
      .error (.validation [js "Invalid field \"" ++ field ++
        js "\": header fields must be written as header.<name>, e.g. header.x-originating-ip"])
    else
      .ok
        { name := normalized
          esPath := some (js "headers")
          type := some .header
          headerName := some headerName }
  else
    match readProperty r.defs normalized with
    | .missing =>
      .error (.validation [js "Unknown field \"" ++ field ++ js "\". Allowed fields: " ++
        joinWith (js ", ") r.allowedFields])
    | .own fieldDef =>
      .ok
        { name := normalized
          esPath := some fieldDef.esPath
          type := some fieldDef.type
          headerName := none }
    | .inherited =>
      -- `{ name: normalized, ...def }` copies own enumerable properties: none here
      .ok
        { name := normalized
          esPath := none
          type := none
          headerName := none }

/-! ## What resolves to what -/

/-- A field that comes from the registry, is a header field, or is the default one. -/
def Registered (r : FieldRegistry) (f : ResolvedField) : Prop :=
  (∃ d, (f.name, d) ∈ r.defs ∧ f = ⟨f.name, some d.esPath, some d.type, none⟩) ∨
    (∃ h, h ≠ [] ∧ f = ⟨headerPrefix ++ h, some (js "headers"), some .header, some h⟩) ∨
    f = defaultTextField

/-- A name the registry is meant to know, in its normalized spelling. -/
def RegisteredName (r : FieldRegistry) (name : JsString) : Prop :=
  name ∈ r.defs.map Prod.fst ∨ ∃ h, h ≠ [] ∧ name = headerPrefix ++ h

/-- The field of an inherited name. -/
def inheritedField (name : JsString) : ResolvedField :=
  { name, esPath := none, type := none, headerName := none }

theorem lookup_eq_some {α : Type} {object : List (JsString × α)} {key : JsString} {v : α}
    (h : object.lookup key = some v) : (key, v) ∈ object := by
  induction object with
  | nil => cases h
  | cons e object ih =>
    obtain ⟨k, w⟩ := e
    rw [List.lookup_cons] at h
    by_cases hk : key == k
    · rw [hk] at h
      cases h
      rw [eq_of_beq hk]
      exact List.mem_cons_self ..
    · rw [Bool.eq_false_of_not_eq_true hk] at h
      exact List.mem_cons_of_mem _ (ih h)

theorem lookup_eq_none {α : Type} {object : List (JsString × α)} {key : JsString}
    (h : object.lookup key = none) : key ∉ object.map Prod.fst := by
  rw [List.lookup_eq_none_iff] at h
  rintro hmem
  obtain ⟨e, he, rfl⟩ := List.mem_map.mp hmem
  exact absurd (h e he) (by simp)

/-- Of the inherited names only two have no capital letter. -/
theorem mem_inheritedNames_lower {field : JsString} :
    rt.lower field ∈ inheritedNames ↔
      rt.lower field = js "constructor" ∨ rt.lower field = js "__proto__" := by
  refine ⟨?_, ?_⟩
  · intro h
    have hcapital : ∀ name : JsString, name.any (fun c => 0x41 ≤ c ∧ c ≤ 0x5A) →
        rt.lower field ≠ name := by
      rintro name hname rfl
      obtain ⟨c, hc, hcap⟩ := List.any_eq_true.mp hname
      exact rt.lower_spec field c hc (of_decide_eq_true hcap)
    simp only [inheritedNames, List.mem_cons, List.not_mem_nil, or_false] at h
    rcases h with h | h | h | h | h | h | h | h | h | h | h | h
    · exact .inl h
    · exact .inr h
    all_goals exact absurd h (hcapital _ (by decide))
  · rintro (h | h)
    · rw [h]
      decide
    · rw [h]
      decide

/-- **What `resolve` returns**: a registered field, or the empty field of a name
that every object inherits. -/
theorem FieldRegistry.resolve_ok {r : FieldRegistry} {field : JsString} {f : ResolvedField}
    (h : r.resolve rt field = .ok f) :
    f.name = rt.lower field ∧
      (Registered r f ∧ RegisteredName r (rt.lower field) ∨
        f = inheritedField (rt.lower field) ∧ rt.lower field ∈ inheritedNames ∧
          ¬ RegisteredName r (rt.lower field)) := by
  rw [resolve] at h
  by_cases hheader : startsWith (rt.lower field) headerPrefix
  · obtain ⟨name, hname⟩ := List.isPrefixOf_iff_prefix.mp hheader
    simp only [hheader, if_true] at h
    split_ifs at h with hempty
    cases h
    have hdrop : (rt.lower field).drop headerPrefix.length = name := by
      rw [← hname, List.drop_left]
    have hne : name ≠ [] := by
      rintro rfl
      rw [hdrop] at hempty
      exact hempty rfl
    refine ⟨rfl, .inl ⟨.inr (.inl ⟨name, hne, ?_⟩), .inr ⟨name, hne, hname.symm⟩⟩⟩
    rw [hdrop, ← hname]
  · simp only [hheader] at h
    have hnotHeader : ∀ name, rt.lower field ≠ headerPrefix ++ name := by
      intro name hname
      exact hheader (List.isPrefixOf_iff_prefix.mpr ⟨name, hname.symm⟩)
    rw [readProperty] at h
    rcases hlookup : r.defs.lookup (rt.lower field) with _ | d
    · simp only [hlookup] at h
      by_cases hinherited : rt.lower field ∈ inheritedNames
      · simp only [hinherited, if_true] at h
        cases h
        refine ⟨rfl, .inr ⟨rfl, hinherited, ?_⟩⟩
        rintro (hmem | ⟨name, -, hname⟩)
        · exact lookup_eq_none hlookup hmem
        · exact hnotHeader name hname
      · simp only [hinherited, if_false] at h
        cases h
    · simp only [hlookup] at h
      cases h
      have hmem := lookup_eq_some hlookup
      exact ⟨rfl, .inl ⟨.inl ⟨d, hmem, rfl⟩, .inl (List.mem_map_of_mem hmem)⟩⟩

/-- A name that is neither known nor inherited is rejected. -/
theorem FieldRegistry.resolve_error {r : FieldRegistry} {field : JsString} {e : QueryError}
    (h : r.resolve rt field = .error e) : ∃ message, e = .validation [message] := by
  rw [resolve] at h
  by_cases hheader : startsWith (rt.lower field) headerPrefix
  · simp only [hheader, if_true] at h
    split_ifs at h
    cases h
    exact ⟨_, rfl⟩
  · simp only [hheader] at h
    rcases hread : readProperty r.defs (rt.lower field) with d | _ | _
    · simp only [hread] at h
      cases h
    · simp only [hread] at h
      cases h
    · simp only [hread] at h
      cases h
      exact ⟨_, rfl⟩

end AegCloudDfir.Search
