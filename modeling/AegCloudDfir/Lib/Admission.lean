import AegCloudDfir.Lib.Transition

/-!
# Admission below a limit

A table of rows, each a machine of its own, and some of them active. A request for a new row has a
key of its own: it looks for the key, counts the active rows, and inserts its row later if there
were few enough. Nothing holds the count fast in between, and rows may become active on their own
account.

* `step` — the machine of the table and its requests.
* `within_iff` — the limit is kept throughout a run exactly if whatever makes a row active comes
  while there is room.
-/

namespace Admission

open Transition

variable {σ ε κ ι : Type}

/-- Rows, as machines of which some are active. -/
structure Population (σ ε ι : Type) where
  rowStep : σ → ε → Option σ
  active : σ → Bool
  /-- a row as it is inserted -/
  fresh : ι → σ
  /-- the event makes the row active -/
  Activates : σ → ε → Prop
  active_fresh : ∀ input, active (fresh input) = true
  activates_iff : ∀ s e s', rowStep s e = some s' →
    (Activates s e ↔ active s = false ∧ active s' = true)

/-- A request for a row. -/
structure Request (κ ι : Type) where
  key : κ
  input : ι
  /-- it found few enough rows -/
  counted : Bool

/-- The table and the requests that are under way. -/
structure Registry (σ κ ι : Type) where
  rows : List (κ × σ)
  requests : List (Request κ ι)

/-- Nothing was ever asked for. -/
def Registry.empty : Registry σ κ ι := ⟨[], []⟩

/-- What can happen next. -/
inductive Event (ε κ ι : Type) : Type where
  /-- a request looks for its key -/
  | lookup (key : κ) (input : ι)
  /-- it counts the active rows -/
  | count (i : ℕ)
  /-- it inserts its row -/
  | commit (i : ℕ)
  /-- it fails for another reason -/
  | abandon (i : ℕ)
  /-- something happens to a row -/
  | row (i : ℕ) (e : ε)

section Defs

variable [DecidableEq κ] (P : Population σ ε ι) (check : ℕ → Bool)

/-- How many rows are active. -/
def Registry.used (r : Registry σ κ ι) : ℕ := r.rows.countP fun row => P.active row.2

/-- A row has the key. -/
def Registry.HasKey (r : Registry σ κ ι) (key : κ) : Prop := key ∈ r.rows.map Prod.fst

instance (r : Registry σ κ ι) (key : κ) : Decidable (r.HasKey key) :=
  inferInstanceAs (Decidable (key ∈ _))

/-- A request is over. -/
def Registry.drop (r : Registry σ κ ι) (i : ℕ) : Registry σ κ ι :=
  { r with requests := r.requests.eraseIdx i }

/-- What an event does. Keys are unique, so an insertion under a key that was taken meanwhile does
nothing. -/
def step (r : Registry σ κ ι) : Event ε κ ι → Option (Registry σ κ ι)
  | .lookup key input =>
    if r.HasKey key then some r
    else some { r with requests := r.requests ++ [⟨key, input, false⟩] }
  | .count i =>
    match r.requests[i]? with
    | some ⟨key, input, false⟩ =>
      if check (r.used P) then
        some { r with requests := r.requests.set i ⟨key, input, true⟩ }
      else some (r.drop i)
    | _ => none
  | .commit i =>
    match r.requests[i]? with
    | some ⟨key, input, true⟩ =>
      if r.HasKey key then some (r.drop i)
      else some { r.drop i with rows := r.rows ++ [(key, P.fresh input)] }
    | _ => none
  | .abandon i => some (r.drop i)
  | .row i e =>
    match r.rows[i]? with
    | some (key, s) =>
      (P.rowStep s e).map fun s' => { r with rows := r.rows.set i (key, s') }
    | none => none

/-- The event makes a row active. -/
def Adds (r : Registry σ κ ι) : Event ε κ ι → Prop
  | .commit i => ∃ request ∈ r.requests[i]?, ¬ r.HasKey request.key
  | .row i e => ∃ row ∈ r.rows[i]?, P.Activates row.2 e
  | _ => False

instance Adds.decidable [∀ s e, Decidable (P.Activates s e)] (r : Registry σ κ ι) :
    ∀ e : Event ε κ ι, Decidable (Adds P r e)
  | .commit i => inferInstanceAs (Decidable (∃ request ∈ r.requests[i]?, ¬ r.HasKey request.key))
  | .row i e => inferInstanceAs (Decidable (∃ row ∈ r.rows[i]?, P.Activates row.2 e))
  | .lookup _ _ | .count _ | .abandon _ => isFalse id

/-- **There is room** for what the event makes active. -/
def Room (limit : ℕ) (r : Registry σ κ ι) (e : Event ε κ ι) : Prop :=
  Adds P r e → r.used P < limit

instance Room.decidable [∀ s e, Decidable (P.Activates s e)] (limit : ℕ) (r : Registry σ κ ι)
    (e : Event ε κ ι) : Decidable (Room P limit r e) :=
  inferInstanceAs (Decidable (_ → _))

/-- The limit is kept. -/
def Within (limit : ℕ) (r : Registry σ κ ι) : Prop := r.used P ≤ limit

end Defs

variable {P : Population σ ε ι} {check : ℕ → Bool} {limit : ℕ} {r r' : Registry σ κ ι}
  {e : Event ε κ ι}

/-! ## What an event does -/

/-- A row of the table changes. -/
theorem active_set {i : ℕ} {row row' : κ × σ} {requests : List (Request κ ι)}
    (hi : r.rows[i]? = some row) :
    (⟨r.rows.set i row', requests⟩ : Registry σ κ ι).used P +
        (if P.active row.2 then 1 else 0) =
      r.used P + if P.active row'.2 then 1 else 0 := by
  obtain ⟨hlt, hget⟩ := List.getElem?_eq_some_iff.mp hi
  have hcount : (if P.active row.2 then 1 else 0) ≤ r.used P := by
    split
    · rename_i hactive
      exact List.countP_pos_iff.mpr ⟨row, List.mem_of_getElem? hi, hactive⟩
    · exact Nat.zero_le _
  simp only [Registry.used] at hcount ⊢
  rw [List.countP_set hlt, hget]
  omega

variable [DecidableEq κ]

/-- **An event adds one active row, or none.** -/
theorem active_step (h : step P check r e = some r') :
    (Adds P r e → r'.used P = r.used P + 1) ∧
      (¬ Adds P r e → r'.used P ≤ r.used P) := by
  cases e with
  | lookup key input =>
    refine ⟨False.elim, fun _ => ?_⟩
    simp only [step] at h
    split at h <;> cases h <;> exact Nat.le_refl _
  | count i =>
    refine ⟨False.elim, fun _ => ?_⟩
    simp only [step] at h
    split at h
    · split at h <;> cases h <;> exact Nat.le_refl _
    · cases h
  | commit i =>
    simp only [step] at h
    split at h
    · rename_i key input hi
      split at h
      · rename_i hkey
        cases h
        refine ⟨?_, fun _ => Nat.le_refl _⟩
        rintro ⟨request, hrequest, hfree⟩
        obtain rfl := Option.some.inj (hi.symm.trans hrequest)
        exact absurd hkey hfree
      · rename_i hkey
        cases h
        refine ⟨fun _ => ?_, fun hadds => absurd ⟨_, hi, hkey⟩ hadds⟩
        simp only [Registry.used, List.countP_append, List.countP_singleton, P.active_fresh,
          if_true]
    · cases h
  | abandon i =>
    cases h
    exact ⟨False.elim, fun _ => Nat.le_refl _⟩
  | row i e =>
    simp only [step] at h
    split at h
    · rename_i key s hi
      obtain ⟨s', hs', rfl⟩ := Option.map_eq_some_iff.mp h
      have hcount := @active_set _ _ _ _ P r _ _ (key, s') r.requests hi
      have hadds : Adds P r (.row i e : Event ε κ ι) ↔
          P.active s = false ∧ P.active s' = true := by
        rw [← P.activates_iff s e s' hs']
        refine ⟨?_, ?_⟩
        · rintro ⟨row, hrow', hactivates⟩
          obtain rfl := Option.some.inj (hi.symm.trans hrow')
          exact hactivates
        · exact fun hactivates => ⟨_, hi, hactivates⟩
      rw [hadds]
      cases hs : P.active s <;> cases ht : P.active s' <;> simp [hs, ht] at hcount ⊢ <;> omega
    · cases h

/-! ## The limit -/

/-- **The limit is kept throughout exactly the runs in which there is always room.** -/
theorem within_iff {es : List (Event ε κ ι)} {t : Registry σ κ ι} (hr : Within P limit r)
    (h : run (step P check) r es = some t) :
    Throughout (step P check) (Within P limit) r es ↔
      Always (step P check) (Room P limit) r es := by
  refine throughout_iff_always (fun _ _ _ (htrue : True) _ => htrue) ?_ trivial hr h
  intro r e r' _ hr h
  obtain ⟨hadds, hkeeps⟩ := active_step h
  rw [Within, Room]
  by_cases he : Adds P r e
  · rw [hadds he, Nat.succ_le_iff]
    exact ⟨fun hlt _ => hlt, fun hroom => hroom he⟩
  · exact iff_of_true (Nat.le_trans (hkeeps he) hr) fun h => absurd h he

end Admission
