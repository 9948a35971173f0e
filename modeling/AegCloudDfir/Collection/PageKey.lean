import AegCloudDfir.Collection.Ledger
import AegCloudDfir.Js.Text

/-!
# The keys of page jobs

`dedupKeys.collectionFetchPage` joins the collection, the custodian, the source, the scope
and a last part with colons. The last part is one of four things, and one of the four has
a colon of its own, as scopes may have. Nevertheless two keys of one collection are equal
only if they are for the same scope and the same thing (`pageKey_injective`): the last
colon of a key is always found in the same place, and what stands behind it has a length
or a letter that tells the four apart.
-/

namespace AegCloudDfir.Collection

open PrefixCode

/-- What identifies a scope in its collection. Custodians are identified by a UUID. -/
structure Scope extends ItemKey JsString where
  length_custodianId : custodianId.length = 36
  deriving DecidableEq

/-- `scopeKey`. -/
abbrev Scope.scopeKey (scope : Scope) : JsString := scope.providerItemId

/-- The name of a source in a key. -/
def Source.text : Source → JsString
  | .email => js "email"
  | .drive => js "drive"
  | .chat => js "chat"
  | .audit => js "audit"

/-- What a page job is enqueued for: the start of a scope, the page at a cursor, a rescan
after the cursor has expired, or a recovery by the sweeper. -/
inductive Continuation : Type where
  | start
  | cursor (hash : JsString)
  | rescan (version : ℕ)
  | recover (attempt : ℕ)
  deriving DecidableEq

/-- The last argument of `dedupKeys.collectionFetchPage`. -/
def Continuation.text : Continuation → JsString
  | .start => js "start"
  | .cursor hash => hash
  | .rescan version => js "rescan:" ++ decimal version
  | .recover attempt => js "recover" ++ decimal attempt

/-- `dedupKeys.collectionFetchPage`. -/
def collectionFetchPage (collectionId : JsString) (scope : Scope) (cursorHash : JsString) :
    JsString :=
  js "page:" ++ collectionId ++ js ":" ++ scope.custodianId ++ js ":" ++ scope.source.text ++
    js ":" ++ scope.scopeKey ++ js ":" ++ cursorHash

/-- The key of the job for a continuation of a scope. -/
def pageKey (collectionId : JsString) (page : Scope × Continuation) : JsString :=
  collectionFetchPage collectionId page.1 page.2.text

/-- The largest `Int` of the database. -/
def maxVersion : ℕ := 2147483647

/-- `0` to `9` and `a` to `f`. -/
def IsHex (c : CodeUnit) : Prop := IsDigit c ∨ 0x61 ≤ c ∧ c ≤ 0x66

instance (c : CodeUnit) : Decidable (IsHex c) := inferInstanceAs (Decidable (_ ∨ _))

/-- The continuations that occur: sixteen hexadecimal digits of a hash, and versions that
fit their column. -/
def Continuation.WellFormed : Continuation → Prop
  | .cursor hash => hash.length = 16 ∧ ∀ c ∈ hash, IsHex c
  | .rescan version => version ≤ maxVersion
  | _ => True

/-! ## The last colon -/

/-- The colon. -/
abbrev colon : CodeUnit := 0x3A

/-- What stands behind the last colon. -/
def Continuation.lastPart : Continuation → JsString
  | .start => js "start"
  | .cursor hash => hash
  | .rescan version => decimal version
  | .recover attempt => js "recover" ++ decimal attempt

/-- What stands between the scope and the last colon. -/
def Continuation.firstPart : Continuation → JsString
  | .rescan _ => js ":rescan"
  | _ => []

theorem Continuation.text_eq (x : Continuation) (s : JsString) :
    s ++ js ":" ++ x.text = (s ++ x.firstPart) ++ colon :: x.lastPart := by
  cases x <;> simp only [text, firstPart, lastPart, List.append_assoc] <;> rfl

theorem isDigit_ne_colon {c : CodeUnit} (h : IsDigit c) : c ≠ colon := by
  rintro rfl
  exact absurd h (by decide)

theorem isHex_ne_colon {c : CodeUnit} (h : IsHex c) : c ≠ colon := by
  rintro rfl
  exact absurd h (by decide)

theorem Continuation.colon_not_mem {x : Continuation} (h : x.WellFormed) :
    colon ∉ x.lastPart := by
  have hdecimal : ∀ n, colon ∉ decimal n := fun n hc => isDigit_ne_colon (isDigit_of_mem_decimal hc) rfl
  cases x with
  | start => decide
  | cursor hash => exact fun hc => isHex_ne_colon (h.2 colon hc) rfl
  | rescan version => exact hdecimal version
  | recover attempt =>
    intro hc
    rcases List.mem_append.mp hc with hc | hc
    · revert hc
      decide
    · exact hdecimal attempt hc

/-! ## The four continuations -/

/-- The letter that a continuation has and a hash has not. -/
theorem not_isHex_of_word {x : JsString} {c : CodeUnit} {w : JsString} (hc : ¬ IsHex c)
    (hx : ∀ c ∈ x, IsHex c) : x ≠ c :: w := by
  rintro rfl
  exact hc (hx c (List.mem_cons_self ..))

theorem length_decimal_version {version : ℕ} (h : version ≤ maxVersion) :
    (decimal version).length ≤ 10 := by
  rw [length_decimal_le_iff (by decide)]
  exact Nat.lt_of_le_of_lt h (by decide)

theorem Continuation.isHex_lastPart {x : Continuation} (h : x.WellFormed)
    (hx : ∀ n, x ≠ .start ∧ x ≠ .recover n) : ∀ c ∈ x.lastPart, IsHex c := by
  cases x with
  | start => exact absurd rfl (hx 0).1
  | cursor hash => exact h.2
  | rescan version => exact fun c hc => .inl (isDigit_of_mem_decimal hc)
  | recover attempt => exact absurd rfl (hx attempt).2

/-- What stands behind the last colon tells what a job was enqueued for. -/
theorem Continuation.lastPart_injective {x y : Continuation} (hx : x.WellFormed)
    (hy : y.WellFormed) (h : x.lastPart = y.lastPart) : x = y := by
  have hs : ¬ IsHex (unitOf 's') := by decide
  have hr : ¬ IsHex (unitOf 'r') := by decide
  have hword : ∀ {z : Continuation}, z.WellFormed → (∀ n, z ≠ .start ∧ z ≠ .recover n) →
      z.lastPart ≠ js "start" ∧ ∀ n, z.lastPart ≠ js "recover" ++ decimal n :=
    fun hz hne => ⟨not_isHex_of_word hs (isHex_lastPart hz hne),
      fun n => not_isHex_of_word hr (isHex_lastPart hz hne)⟩
  have hlength : ∀ {hash : JsString} {version : ℕ}, hash.length = 16 → version ≤ maxVersion →
      hash ≠ decimal version := by
    rintro hash version h16 hv rfl
    have := length_decimal_version hv
    omega
  cases x with
  | start =>
    cases y with
    | start => rfl
    | cursor hash | rescan version => exact absurd h.symm (hword hy (by simp)).1
    | recover attempt => cases h
  | cursor hash =>
    cases y with
    | start => exact absurd h (hword hx (by simp)).1
    | cursor hash' => exact congrArg _ h
    | rescan version => exact absurd h (hlength hx.1 hy)
    | recover attempt => exact absurd h ((hword hx (by simp)).2 attempt)
  | rescan version =>
    cases y with
    | start => exact absurd h (hword hx (by simp)).1
    | cursor hash => exact absurd h.symm (hlength hy.1 hx)
    | rescan version' => exact congrArg _ (decimal_injective h)
    | recover attempt => exact absurd h ((hword hx (by simp)).2 attempt)
  | recover attempt =>
    cases y with
    | start => cases h
    | cursor hash | rescan version => exact absurd h.symm ((hword hy (by simp)).2 attempt)
    | recover attempt' =>
      have hdecimal := List.append_cancel_left h
      exact congrArg _ (decimal_injective hdecimal)

/-! ## The whole key -/

theorem Source.colon_not_mem (source : Source) : colon ∉ source.text := by
  cases source <;> decide

theorem Source.text_injective : Function.Injective Source.text := by
  intro x y h
  cases x <;> cases y <;> first | rfl | exact absurd h (by decide)

/-- **Keys of page jobs.** In one collection, two page jobs have the same key only if they
are for the same continuation of the same scope. -/
theorem pageKey_injective {collectionId : JsString} {p q : Scope × Continuation}
    (hp : p.2.WellFormed) (hq : q.2.WellFormed)
    (h : pageKey collectionId p = pageKey collectionId q) : p = q := by
  obtain ⟨⟨⟨custodianId, source, scopeKey⟩, hlength⟩, x⟩ := p
  obtain ⟨⟨⟨custodianId', source', scopeKey'⟩, hlength'⟩, y⟩ := q
  simp only [pageKey, collectionFetchPage, Scope.scopeKey] at h
  -- from the left: the custodian by its length, the source by its colon
  simp only [List.append_assoc, List.append_cancel_left_eq] at h
  obtain ⟨rfl, hsource⟩ := List.append_inj h (hlength.trans hlength'.symm)
  obtain ⟨hname, hrest⟩ := first_inj source.colon_not_mem source'.colon_not_mem
    (List.append_cancel_left hsource)
  obtain rfl := Source.text_injective hname
  -- from the right: the continuation by its last colon
  have hscope : scopeKey ++ js ":" ++ x.text = scopeKey' ++ js ":" ++ y.text := by
    rw [List.append_assoc, List.append_assoc]
    exact hrest
  rw [Continuation.text_eq, Continuation.text_eq] at hscope
  obtain ⟨hfirst, hlast⟩ :=
    last_inj (Continuation.colon_not_mem hp) (Continuation.colon_not_mem hq) hscope
  obtain rfl := Continuation.lastPart_injective hp hq hlast
  obtain rfl := List.append_cancel_right hfirst
  rfl

end AegCloudDfir.Collection
