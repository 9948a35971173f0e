import AegCloudDfir.Lib.Transition
import AegCloudDfir.Production.Tables
import Mathlib.Data.PNat.Basic
import Mathlib.Logic.Function.Iterate

/-!
# Queries in batches

`queryInChunks` divides a list of identifiers into batches and has a few lanes run a
query for each of them. The lanes are asynchronous functions over one counter and one
array: a lane takes the next batch, waits for its rows, stores them and takes another.
Between two waits a lane is not interrupted, so an execution is the order in which
the lanes' queries settle.

* `chunkIds` — the loop that makes the batches; it is the `chunk` of the other queries
  (`chunkIds_eq`).
* `State`, `take`, `step` — the variables the lanes share, and what a lane does when its
  query settles.
* `Inv` — which batches are taken, and where the rows of those that are through are.
* `queryInChunks_exact` — in every order the query is run once for every batch, and the
  result has the rows of the batches in their order.
* `lanes_busy` — how many queries are under way.
-/

namespace AegCloudDfir.Families.Chunked

/-! ## Batches -/

/-- `items.slice(start, end)` -/
def slice {α : Type} (items : List α) (start stop : ℕ) : List α :=
  (items.drop start).take (stop - start)

/-- The loop of `chunkIds`, from the index `i` on. -/
def chunksFrom {α : Type} (items : List α) (size : ℕ+) (i : ℕ) : List (List α) :=
  if i < items.length then
    slice items i (i + size) :: chunksFrom items size (i + size)
  else []
termination_by items.length - i
decreasing_by
  have := size.pos
  omega

/-- `QUERY_ID_CHUNK` -/
def queryIdChunk : ℕ+ := 5000

/-- `QUERY_CONCURRENCY` -/
def queryConcurrency : ℕ := 6

/-- `chunkIds` -/
def chunkIds {α : Type} (items : List α) (size : ℕ+ := queryIdChunk) : List (List α) :=
  chunksFrom items size 0

/-! ## Lanes -/

/-- Where the loop of a `worker` is. -/
inductive Lane : Type where
  /-- it awaits the rows of a batch, which are those of a certain call of `run` -/
  | running (batch call : ℕ)
  | returned
  /-- `run` has failed, and the promise of the lane with it -/
  | rejected
  deriving DecidableEq

section

variable {α ρ ε : Type}

/-- The variables of a call of `queryInChunks`. -/
structure State (α ρ ε : Type) where
  batches : List (List α)
  /-- the array of the rows, with the holes it has in the beginning -/
  out : List (Option (List ρ))
  next : ℕ
  lanes : List Lane
  /-- the batches that `run` was called with, call by call -/
  calls : List (List α)
  /-- the first rejection that `Promise.all` has seen -/
  failure : Option ε

/-- What a lane does until it waits or returns: `next++` and, if there is such a batch,
`run(batch)`. -/
def State.take (s : State α ρ ε) : State α ρ ε × Lane :=
  match s.batches[s.next]? with
  | none => ({ s with next := s.next + 1 }, .returned)
  | some batch =>
    ({ s with next := s.next + 1, calls := s.calls ++ [batch] }, .running s.next s.calls.length)

/-- `worker()` -/
def State.startLane (s : State α ρ ε) : State α ρ ε :=
  { s.take.1 with lanes := s.lanes ++ [s.take.2] }

/-- `queryInChunks`, up to where it awaits its lanes; without identifiers it has none. -/
def queryInChunks (ε ρ : Type) (ids : List α) (size : ℕ+ := queryIdChunk)
    (concurrency : ℕ := queryConcurrency) : State α ρ ε :=
  if ids.length = 0 then ⟨[], [], 0, [], [], none⟩
  else
    let batches := chunkIds ids size
    State.startLane^[max 1 (min concurrency batches.length)]
      ⟨batches, List.replicate batches.length none, 0, [], [], none⟩

variable (answers : ℕ → Except ε (List ρ))

/-- The query of a lane settles, with what `answers` has for the call. A lane that gets its
rows stores them and goes on at once. -/
def step (s : State α ρ ε) (lane : ℕ) : Option (State α ρ ε) :=
  match s.lanes[lane]? with
  | some (.running batch call) =>
    match answers call with
    | .ok rows =>
      let stored := { s with out := s.out.set batch (some rows) }
      some { stored.take.1 with lanes := s.lanes.set lane stored.take.2 }
    | .error e =>
      some { s with
        lanes := s.lanes.set lane .rejected
        failure := some (s.failure.getD e) }
  | _ => none

/-- The result, as soon as there is one: a rejection of `Promise.all`, or `out.flat()`,
which leaves holes out. -/
def State.result (s : State α ρ ε) : Option (Except ε (List ρ)) :=
  match s.failure with
  | some e => some (.error e)
  | none =>
    if s.lanes.all (· = .returned) then some (.ok (s.out.filterMap id).flatten) else none

/-! ## What is to be shown -/

/-- An execution of `queryInChunks` in an order of its lanes, and what has become of it. -/
structure Exact (ids : List α) (size : ℕ+) (s : State α ρ ε) (lanes : List ℕ) : Prop where
  /-- `run` has been called with the first batches, in their order, once with each -/
  once : s.calls <+: chunkIds ids size
  /-- it cannot go on for longer than there are batches -/
  ends : lanes.length ≤ (chunkIds ids size).length
  /-- it waits only for queries that are being run -/
  waits : s.result = none → ∃ lane, (step answers s lane).isSome
  /-- a failure is the failure of a call -/
  failed : ∀ e, s.result = some (.error e) → ∃ call < s.calls.length, answers call = .error e
  /-- a result has the rows of every batch, in the order of the batches -/
  rows : ∀ rows, s.result = some (.ok rows) →
    s.calls = chunkIds ids size ∧ ∃ results : List (List ρ),
      results.map .ok = (List.range s.calls.length).map answers ∧ rows = results.flatten

end

/-! ## The batches -/

section Batches

variable {α : Type} {items : List α} {size : ℕ+} {i : ℕ}

theorem chunksFrom_of_lt (h : i < items.length) :
    chunksFrom items size i =
      slice items i (i + size) :: chunksFrom items size (i + size) := by
  rw [chunksFrom, if_pos h]

theorem chunksFrom_of_le (h : items.length ≤ i) : chunksFrom items size i = [] := by
  rw [chunksFrom, if_neg (Nat.not_lt.mpr h)]

theorem getElem?_chunksFrom (k : ℕ) :
    (chunksFrom items size i)[k]? =
      if i + k * size < items.length then some (slice items (i + k * size) (i + k * size + size))
      else none := by
  induction k generalizing i with
  | zero =>
    rw [Nat.zero_mul, Nat.add_zero]
    split_ifs with h
    · rw [chunksFrom_of_lt h]
      rfl
    · rw [chunksFrom_of_le (Nat.not_lt.mp h)]
      rfl
  | succ k ih =>
    have hnext : i + (k + 1) * size = i + size + k * size := by ring
    rw [hnext]
    by_cases h : i < items.length
    · rw [chunksFrom_of_lt h, List.getElem?_cons_succ, ih]
    · rw [chunksFrom_of_le (Nat.not_lt.mp h), if_neg (by omega)]
      rfl

/-- The loop makes the batches of the other queries. -/
theorem chunkIds_eq (items : List α) (size : ℕ+) :
    chunkIds items size = Production.chunk size items := by
  refine List.ext_getElem? fun k => ?_
  have hlast : k < (items.length + size - 1) / size ↔ k * size < items.length := by
    have hpos := size.pos
    rw [Nat.lt_iff_add_one_le, Nat.le_div_iff_mul_le hpos, Nat.add_mul]
    omega
  rw [chunkIds, getElem?_chunksFrom, Production.chunk, List.getElem?_map, Nat.zero_add]
  by_cases h : k * size < items.length
  · rw [if_pos h, List.getElem?_range (hlast.mpr h), slice, Nat.add_sub_cancel_left]
    rfl
  · have hrange : (List.range ((items.length + size - 1) / size))[k]? = none :=
      List.getElem?_eq_none (by rw [List.length_range]; exact Nat.not_lt.mp (mt hlast.mp h))
    rw [if_neg h, hrange]
    rfl

example : chunkIds [1, 2, 3, 4, 5] 2 = [[1, 2], [3, 4], [5]] := by
  rw [chunkIds_eq]
  rfl

/-- **The batches are the identifiers, in order.** -/
theorem flatten_chunkIds (items : List α) (size : ℕ+) : (chunkIds items size).flatten = items := by
  rw [chunkIds_eq, Production.chunk_flatten size.pos]

/-- No batch is empty, and none is too long. -/
theorem mem_chunkIds {batch : List α} (h : batch ∈ chunkIds items size) :
    batch ≠ [] ∧ batch.length ≤ size := by
  obtain ⟨k, hk⟩ := List.mem_iff_getElem?.mp h
  rw [chunkIds, getElem?_chunksFrom] at hk
  split_ifs at hk with hlt
  cases hk
  have hlength : (slice items (0 + k * size) (0 + k * size + size)).length =
      min (size : ℕ) (items.length - (0 + k * size)) := by
    rw [slice, List.length_take, List.length_drop, Nat.add_sub_cancel_left]
  have hpos := size.pos
  refine ⟨fun hnil => ?_, ?_⟩
  · rw [hnil, List.length_nil] at hlength
    omega
  · rw [hlength]
    exact Nat.min_le_left _ _

end Batches

/-! ## The lanes -/

section Lanes

variable {α ρ ε : Type} {answers : ℕ → Except ε (List ρ)} {s : State α ρ ε}

/-- The rows of a batch are stored. -/
def Stored (answers : ℕ → Except ε (List ρ)) (s : State α ρ ε) (batch : ℕ) : Prop :=
  ∃ rows, answers batch = .ok rows ∧ s.out[batch]? = some (some rows)

/-- What holds whenever every lane waits or is through. -/
structure Inv (answers : ℕ → Except ε (List ρ)) (s : State α ρ ε) : Prop where
  out_length : s.out.length = s.batches.length
  /-- the batches have been taken in order, and the query of each was run once -/
  calls_eq : s.calls = s.batches.take s.next
  /-- the lane that has taken a batch awaits the call for it -/
  running : ∀ batch call, .running batch call ∈ s.lanes →
    batch = call ∧ batch < s.calls.length
  /-- lanes return when every batch is taken -/
  returned : .returned ∈ s.lanes → s.batches.length ≤ s.next
  rejected : .rejected ∈ s.lanes → s.failure.isSome
  failure : ∀ e, s.failure = some e → ∃ call < s.calls.length, answers call = .error e
  /-- a batch that is taken is under way, or its rows are stored -/
  taken : ∀ batch < s.calls.length,
    .running batch batch ∈ s.lanes ∨ Stored answers s batch ∨ s.failure.isSome

/-- A lane awaits rows. -/
def Lane.isRunning : Lane → Bool
  | .running _ _ => true
  | _ => false

/-- How many queries are being run or are still to be run. -/
def State.remaining (s : State α ρ ε) : ℕ :=
  (s.batches.length - s.calls.length) + s.lanes.countP Lane.isRunning

theorem Inv.length_calls (h : Inv answers s) :
    s.calls.length = min s.next s.batches.length := by
  rw [h.calls_eq, List.length_take]

/-- What a lane gets: the next batch and the next call, or nothing. -/
theorem take_cases (h : Inv answers s) :
    (s.next < s.batches.length ∧
      s.take.2 = .running s.calls.length s.calls.length ∧
      s.take.1.calls.length = s.calls.length + 1) ∨
    (s.batches.length ≤ s.next ∧ s.take.2 = .returned ∧ s.take.1.calls = s.calls) := by
  have hlength := h.length_calls
  rw [State.take]
  by_cases hnext : s.next < s.batches.length
  · have hcalls : s.next = s.calls.length := by omega
    rw [List.getElem?_eq_getElem hnext]
    refine .inl ⟨hnext, ?_, ?_⟩
    · rw [← hcalls]
    · rw [List.length_append, List.length_singleton]
  · rw [List.getElem?_eq_none (Nat.not_lt.mp hnext)]
    exact .inr ⟨Nat.not_lt.mp hnext, rfl, rfl⟩

theorem take_frame (s : State α ρ ε) : s.take.1.batches = s.batches ∧ s.take.1.out = s.out ∧
    s.take.1.next = s.next + 1 ∧ s.take.1.failure = s.failure := by
  rw [State.take]
  split
  · exact ⟨rfl, rfl, rfl, rfl⟩
  · exact ⟨rfl, rfl, rfl, rfl⟩

/-- The calls stay the first batches. -/
theorem take_calls (h : Inv answers s) : s.take.1.calls = s.batches.take (s.next + 1) := by
  rw [State.take, h.calls_eq]
  by_cases hnext : s.next < s.batches.length
  · rw [List.getElem?_eq_getElem hnext]
    exact (List.take_succ_eq_append_getElem hnext).symm
  · have hle := Nat.not_lt.mp hnext
    rw [List.getElem?_eq_none hle, List.take_of_length_le hle]
    exact (List.take_of_length_le (hle.trans (Nat.le_succ _))).symm

/-- A lane takes its turn, and the other lanes stay where they are, unless the rows of
their batch are stored. -/
theorem Inv.turn (h : Inv answers s) {lanes : List Lane} (hnew : s.take.2 ∈ lanes)
    (hold : ∀ lane ∈ lanes, lane ∈ s.lanes ∨ lane = s.take.2)
    (hkept : ∀ batch, .running batch batch ∈ s.lanes →
      .running batch batch ∈ lanes ∨ Stored answers s batch) :
    Inv answers { s.take.1 with lanes } := by
  obtain ⟨hbatches, hout, hnext, hfailure⟩ := take_frame s
  have hgrows : s.calls.length ≤ s.take.1.calls.length := by
    rcases take_cases h with ⟨-, -, hcalls⟩ | ⟨-, -, hcalls⟩
    · exact hcalls ▸ Nat.le_succ _
    · rw [hcalls]
  refine ⟨?_, ?_, ?_, ?_, ?_, ?_, ?_⟩
  · rw [hout, hbatches]
    exact h.out_length
  · rw [hbatches, hnext]
    exact take_calls h
  · intro batch call hmem
    rcases hold _ hmem with hmem | heq
    · exact ⟨(h.running _ _ hmem).1, (h.running _ _ hmem).2.trans_le hgrows⟩
    · rcases take_cases h with ⟨-, hlane, hcalls⟩ | ⟨-, hlane, -⟩
      · rw [hlane] at heq
        cases heq
        exact ⟨rfl, hcalls ▸ Nat.lt_succ_self _⟩
      · rw [hlane] at heq
        cases heq
  · intro hmem
    rw [hbatches, hnext]
    rcases hold _ hmem with hmem | heq
    · exact (h.returned hmem).trans (Nat.le_succ _)
    · rcases take_cases h with ⟨-, hlane, -⟩ | ⟨hle, -, -⟩
      · rw [hlane] at heq
        cases heq
      · exact hle.trans (Nat.le_succ _)
  · intro hmem
    rw [hfailure]
    rcases hold _ hmem with hmem | heq
    · exact h.rejected hmem
    · rcases take_cases h with ⟨-, hlane, -⟩ | ⟨-, hlane, -⟩ <;>
      · rw [hlane] at heq
        cases heq
  · intro e he
    rw [hfailure] at he
    obtain ⟨call, hlt, hanswer⟩ := h.failure e he
    exact ⟨call, hlt.trans_le hgrows, hanswer⟩
  · intro batch hbatch
    have hstored : Stored answers s batch →
        Stored answers { s.take.1 with lanes } batch := by
      rintro ⟨rows, hanswer, hrows⟩
      exact ⟨rows, hanswer, hout ▸ hrows⟩
    by_cases htaken : batch < s.calls.length
    · rcases h.taken batch htaken with hrunning | hrows | hfail
      · rcases hkept batch hrunning with hrunning | hrows
        · exact .inl hrunning
        · exact .inr (.inl (hstored hrows))
      · exact .inr (.inl (hstored hrows))
      · exact .inr (.inr (hfailure ▸ hfail))
    · -- this is the batch that the lane has just taken
      rcases take_cases h with ⟨-, hlane, hcalls⟩ | ⟨-, -, hcalls⟩
      · have hlt : batch < s.calls.length + 1 := hcalls ▸ hbatch
        have heq : batch = s.calls.length := by omega
        rw [hlane, ← heq] at hnew
        exact .inl hnew
      · exact absurd (hcalls ▸ hbatch) htaken

/-- Storing the rows of a batch. -/
theorem Inv.store (h : Inv answers s) {batch : ℕ} {rows : List ρ}
    (hanswer : answers batch = .ok rows) (hbatch : batch < s.calls.length) :
    Inv answers { s with out := s.out.set batch (some rows) } ∧
      Stored answers { s with out := s.out.set batch (some rows) } batch := by
  have hlt : batch < s.out.length := by
    have := h.length_calls
    have := h.out_length
    omega
  have hstored : Stored answers { s with out := s.out.set batch (some rows) } batch :=
    ⟨rows, hanswer, List.getElem?_set_self hlt⟩
  refine ⟨{ h with out_length := ?_, taken := fun other hother => ?_ }, hstored⟩
  · rw [List.length_set]
    exact h.out_length
  · rcases h.taken other hother with hrunning | ⟨rows', hanswer', hrows⟩ | hfail
    · exact .inl hrunning
    · refine .inr (.inl ?_)
      by_cases heq : batch = other
      · exact heq ▸ hstored
      · exact ⟨rows', hanswer', (List.getElem?_set_ne heq).trans hrows⟩
    · exact .inr (.inr hfail)

/-- What a lane does when its query settles. -/
theorem step_cases {s' : State α ρ ε} {lane : ℕ} (h : step answers s lane = some s') :
    ∃ batch call, s.lanes[lane]? = some (.running batch call) ∧
      ((∃ rows, answers call = .ok rows ∧
        let stored := { s with out := s.out.set batch (some rows) }
        s' = { stored.take.1 with lanes := s.lanes.set lane stored.take.2 }) ∨
      ∃ e, answers call = .error e ∧ s' = { s with
        lanes := s.lanes.set lane .rejected
        failure := some (s.failure.getD e) }) := by
  unfold step at h
  split at h
  · next batch call hlane =>
    refine ⟨batch, call, hlane, ?_⟩
    split at h
    · next rows hanswer => exact .inl ⟨rows, hanswer, (Option.some.inj h).symm⟩
    · next e hanswer => exact .inr ⟨e, hanswer, (Option.some.inj h).symm⟩
  · cases h

/-- A lane that is not the one that is replaced stays. -/
theorem mem_set_of_ne {lanes : List Lane} {i : ℕ} {old new lane : Lane}
    (hold : lanes[i]? = some old) (hmem : lane ∈ lanes) (hne : lane ≠ old) :
    lane ∈ lanes.set i new := by
  obtain ⟨j, hj⟩ := List.mem_iff_getElem?.mp hmem
  have hij : i ≠ j := by
    rintro rfl
    exact hne (Option.some.inj (hj.symm.trans hold))
  exact List.mem_iff_getElem?.mpr ⟨j, (List.getElem?_set_ne hij).trans hj⟩

/-- **The invariant holds whatever query settles next.** -/
theorem inv_step {s' : State α ρ ε} {lane : ℕ} (h : Inv answers s)
    (hstep : step answers s lane = some s') : Inv answers s' := by
  obtain ⟨batch, call, hlane, hsettled⟩ := step_cases hstep
  have hin : lane < s.lanes.length := (List.getElem?_eq_some_iff.mp hlane).1
  obtain ⟨rfl, hbatch⟩ := h.running batch call (List.mem_of_getElem? hlane)
  rcases hsettled with ⟨rows, hanswer, rfl⟩ | ⟨e, hanswer, rfl⟩
  · obtain ⟨hinv, hstored⟩ := h.store hanswer hbatch
    refine hinv.turn (List.mem_set hin _) (fun other hother => ?_) fun other hrunning => ?_
    · exact List.mem_or_eq_of_mem_set hother
    · by_cases heq : other = batch
      · exact .inr (heq ▸ hstored)
      · refine .inl (mem_set_of_ne hlane hrunning fun hsame => heq ?_)
        cases hsame
        rfl
  · have hmem : ∀ other, other ∈ s.lanes.set lane .rejected →
        other ∈ s.lanes ∨ other = .rejected := fun other => List.mem_or_eq_of_mem_set
    refine { h with running := ?_, returned := ?_, rejected := ?_, failure := ?_, taken := ?_ }
    · intro other call hother
      rcases hmem _ hother with hother | heq
      · exact h.running other call hother
      · cases heq
    · intro hreturned
      rcases hmem _ hreturned with hreturned | heq
      · exact h.returned hreturned
      · cases heq
    · exact fun _ => rfl
    · intro e' he'
      rcases hfailure : s.failure with _ | first
      · rw [hfailure] at he'
        cases he'
        exact ⟨batch, hbatch, hanswer⟩
      · rw [hfailure] at he'
        cases he'
        exact h.failure _ hfailure
    · exact fun _ _ => .inr (.inr rfl)

end Lanes

/-! ## Executions -/

section Executions

variable {α ρ ε : Type} {answers : ℕ → Except ε (List ρ)} {s : State α ρ ε}

/-- A lane's turn adds a query that is being run, or there is none left. -/
theorem remaining_take (h : Inv answers s) (lanes : List Lane) :
    ({ s.take.1 with lanes } : State α ρ ε).remaining + (if s.take.2.isRunning then 1 else 0) =
      (s.batches.length - s.calls.length) + lanes.countP Lane.isRunning := by
  have hlength := h.length_calls
  have hremaining : ({ s.take.1 with lanes } : State α ρ ε).remaining =
      (s.take.1.batches.length - s.take.1.calls.length) + lanes.countP Lane.isRunning := rfl
  rw [hremaining, (take_frame s).1]
  rcases take_cases h with ⟨hnext, hlane, hcalls⟩ | ⟨hle, hlane, hcalls⟩
  · rw [hlane, hcalls]
    change _ + 1 = _
    omega
  · rw [hlane, hcalls]
    rfl

theorem inv_startLane (h : Inv answers s) :
    Inv answers s.startLane ∧ s.startLane.remaining = s.remaining := by
  refine ⟨?_, ?_⟩
  · refine h.turn (List.mem_append_right _ (List.mem_singleton_self _)) (fun lane hlane => ?_)
      fun batch hrunning => .inl (List.mem_append_left _ hrunning)
    exact (List.mem_append.mp hlane).imp_right List.mem_singleton.mp
  · have hremaining : s.startLane.remaining + _ = _ := remaining_take h (s.lanes ++ [s.take.2])
    rw [List.countP_append, List.countP_singleton, ← Nat.add_assoc] at hremaining
    exact Nat.add_right_cancel hremaining

/-- **A settled query is one less.** -/
theorem remaining_step {s' : State α ρ ε} {lane : ℕ} (h : Inv answers s)
    (hstep : step answers s lane = some s') :
    s'.remaining + 1 = s.remaining ∧ s'.batches = s.batches := by
  obtain ⟨batch, call, hlane, hsettled⟩ := step_cases hstep
  obtain ⟨hin, hget⟩ := List.getElem?_eq_some_iff.mp hlane
  obtain ⟨rfl, hbatch⟩ := h.running batch call (List.mem_of_getElem? hlane)
  have hpos : 0 < s.lanes.countP Lane.isRunning :=
    List.countP_pos_iff.mpr ⟨_, List.mem_of_getElem? hlane, rfl⟩
  have hcount : ∀ new, (s.lanes.set lane new).countP Lane.isRunning =
      s.lanes.countP Lane.isRunning - 1 + (if new.isRunning then 1 else 0) := by
    intro new
    rw [List.countP_set hin, hget]
    rfl
  have hbefore : s.remaining =
      (s.batches.length - s.calls.length) + s.lanes.countP Lane.isRunning := rfl
  rcases hsettled with ⟨rows, hanswer, rfl⟩ | ⟨e, hanswer, rfl⟩
  · refine ⟨?_, (take_frame _).1⟩
    have hremaining := remaining_take (h.store hanswer hbatch).1
      (s.lanes.set lane ({ s with out := s.out.set batch (some rows) } : State α ρ ε).take.2)
    rw [hcount, ← Nat.add_assoc] at hremaining
    rw [Nat.add_right_cancel hremaining, hbefore]
    change s.batches.length - s.calls.length + (_ - 1) + 1 = _
    omega
  · refine ⟨?_, rfl⟩
    have hafter : ({ s with lanes := s.lanes.set lane .rejected
                            failure := some (s.failure.getD e) } : State α ρ ε).remaining =
        (s.batches.length - s.calls.length) + (s.lanes.set lane .rejected).countP Lane.isRunning :=
      rfl
    rw [hafter, hcount, if_neg (by decide), hbefore]
    omega

theorem lanes_ne_step {s' : State α ρ ε} {lane : ℕ} (hstep : step answers s lane = some s') :
    s'.lanes ≠ [] := by
  obtain ⟨batch, call, hlane, hsettled⟩ := step_cases hstep
  have hin := (List.getElem?_eq_some_iff.mp hlane).1
  rcases hsettled with ⟨rows, -, rfl⟩ | ⟨e, -, rfl⟩
  · exact List.ne_nil_of_mem (List.mem_set hin _)
  · exact List.ne_nil_of_mem (List.mem_set hin _)

/-- Where `queryInChunks` awaits its lanes, and from then on. -/
structure Waiting (answers : ℕ → Except ε (List ρ)) (ids : List α) (size : ℕ+)
    (s : State α ρ ε) : Prop extends Inv answers s where
  batches_eq : s.batches = chunkIds ids size
  lanes_ne : ids ≠ [] → s.lanes ≠ []

/-- One lane starts after the other. -/
theorem iterate_startLane (h : Inv answers s) (k : ℕ) :
    Inv answers (State.startLane^[k] s) ∧ (State.startLane^[k] s).remaining = s.remaining ∧
      (State.startLane^[k] s).batches = s.batches ∧
      (0 < k → (State.startLane^[k] s).lanes ≠ []) := by
  induction k generalizing s with
  | zero => exact ⟨h, rfl, rfl, fun hpos => absurd hpos (Nat.lt_irrefl 0)⟩
  | succ k ih =>
    rw [Function.iterate_succ_apply]
    obtain ⟨hinv, hremaining⟩ := inv_startLane h
    obtain ⟨hk, hkremaining, hkbatches, hklanes⟩ := ih hinv
    refine ⟨hk, hkremaining.trans hremaining, hkbatches.trans (take_frame s).1, fun _ => ?_⟩
    cases k with
    | zero => exact List.append_ne_nil_of_right_ne_nil _ (List.cons_ne_nil _ _)
    | succ k => exact hklanes (Nat.succ_pos k)

theorem waiting_queryInChunks (answers : ℕ → Except ε (List ρ)) (ids : List α) (size : ℕ+)
    (concurrency : ℕ) :
    Waiting answers ids size (queryInChunks ε ρ ids size concurrency) ∧
      (queryInChunks ε ρ ids size concurrency).remaining = (chunkIds ids size).length := by
  unfold queryInChunks
  split
  · next hnil =>
    have hchunks : chunkIds ids size = [] := chunksFrom_of_le (Nat.le_of_eq hnil)
    refine ⟨⟨⟨rfl, rfl, ?_, ?_, ?_, ?_, ?_⟩, hchunks.symm, ?_⟩, by rw [hchunks]; rfl⟩
    all_goals simp_all
  · have hinv : Inv answers (⟨chunkIds ids size, List.replicate (chunkIds ids size).length none, 0,
        [], [], none⟩ : State α ρ ε) := by
      refine ⟨List.length_replicate, rfl, ?_, ?_, ?_, ?_, ?_⟩ <;> simp
    obtain ⟨hk, hremaining, hbatches, hlanes⟩ :=
      iterate_startLane hinv (max 1 (min concurrency (chunkIds ids size).length))
    refine ⟨⟨hk, hbatches, fun _ => hlanes (Nat.lt_of_lt_of_le Nat.one_pos (Nat.le_max_left _ _))⟩,
      hremaining⟩

/-- **What has been shown of a state holds in every order of the queries.** -/
theorem waiting_run {ids : List α} {size : ℕ+} {t : State α ρ ε} {lanes : List ℕ}
    (h : Waiting answers ids size s) (hrun : Transition.run (step answers) s lanes = some t) :
    Waiting answers ids size t ∧ t.remaining + lanes.length = s.remaining := by
  induction lanes generalizing s with
  | nil =>
    cases hrun
    exact ⟨h, rfl⟩
  | cons lane lanes ih =>
    obtain ⟨s', hstep, hrun⟩ := Transition.run_cons.mp hrun
    obtain ⟨hremaining, hbatches⟩ := remaining_step h.toInv hstep
    obtain ⟨ht, htremaining⟩ := ih
      ⟨inv_step h.toInv hstep, hbatches.trans h.batches_eq, fun _ => lanes_ne_step hstep⟩ hrun
    refine ⟨ht, ?_⟩
    rw [List.length_cons]
    omega

/-- A lane that awaits rows goes on when it gets them. -/
theorem isSome_step {batch call : ℕ} {lane : ℕ} (h : s.lanes[lane]? = some (.running batch call)) :
    (step answers s lane).isSome := by
  unfold step
  rw [h]
  dsimp only
  split
  · rfl
  · rfl

/-- Without a result a query is being run. -/
theorem Waiting.waits {ids : List α} {size : ℕ+} (h : Waiting answers ids size s)
    (hresult : s.result = none) : ∃ lane, (step answers s lane).isSome := by
  unfold State.result at hresult
  split at hresult
  · cases hresult
  · next hfailure =>
    split_ifs at hresult with hall
    rw [List.all_eq_true] at hall
    push Not at hall
    obtain ⟨lane, hlane, hnot⟩ := hall
    obtain ⟨i, hi⟩ := List.mem_iff_getElem?.mp hlane
    cases lane with
    | running batch call => exact ⟨i, isSome_step hi⟩
    | returned => exact absurd (by decide) hnot
    | rejected =>
      have hsome := h.rejected hlane
      rw [hfailure] at hsome
      cases hsome

/-- **A result has the rows of all batches.** -/
theorem Waiting.rows {ids : List α} {size : ℕ+} (h : Waiting answers ids size s) {rows : List ρ}
    (hresult : s.result = some (.ok rows)) :
    s.calls = chunkIds ids size ∧ ∃ results : List (List ρ),
      results.map .ok = (List.range s.calls.length).map answers ∧ rows = results.flatten := by
  unfold State.result at hresult
  split at hresult
  · cases hresult
  · next hfailure =>
    split_ifs at hresult with hall
    cases hresult
    have hreturned : ∀ lane ∈ s.lanes, lane = .returned := fun lane hlane =>
      of_decide_eq_true (List.all_eq_true.mp hall lane hlane)
    have hle : s.batches.length ≤ s.next := by
      by_cases hids : ids = []
      · rw [h.batches_eq, hids, chunkIds, @chunksFrom_of_le _ [] size 0 (Nat.le_refl 0)]
        exact Nat.zero_le _
      · obtain ⟨lane, hlane⟩ := List.exists_mem_of_ne_nil _ (h.lanes_ne hids)
        exact h.returned (hreturned lane hlane ▸ hlane)
    have hcalls : s.calls = chunkIds ids size := by
      rw [h.calls_eq, List.take_of_length_le hle, h.batches_eq]
    have hstored : ∀ batch < s.calls.length, Stored answers s batch := by
      intro batch hbatch
      rcases h.taken batch hbatch with hrunning | hrows | hfail
      · cases hreturned _ hrunning
      · exact hrows
      · rw [hfailure] at hfail
        cases hfail
    have hlength : s.out.length = s.calls.length := by
      rw [h.out_length, hcalls, h.batches_eq]
    choose! rowsOf hanswer hrows using hstored
    have hout : s.out = (List.range s.calls.length).map fun batch => some (rowsOf batch) := by
      refine List.ext_getElem? fun i => ?_
      by_cases hi : i < s.calls.length
      · rw [hrows i hi, List.getElem?_map, List.getElem?_range hi]
        rfl
      · rw [List.getElem?_eq_none (by omega), List.getElem?_eq_none (by simpa using hi)]
    refine ⟨hcalls, (List.range s.calls.length).map rowsOf, ?_, ?_⟩
    · rw [List.map_map]
      exact List.map_congr_left fun batch hbatch =>
        (hanswer batch (List.mem_range.mp hbatch)).symm
    · rw [hout, List.filterMap_map]
      exact congrArg List.flatten (congrFun List.filterMap_eq_map _)

/-- A step moves one lane. -/
theorem length_lanes_step {s' : State α ρ ε} {lane : ℕ} (hstep : step answers s lane = some s') :
    s'.lanes.length = s.lanes.length := by
  obtain ⟨batch, call, -, ⟨rows, -, rfl⟩ | ⟨e, -, rfl⟩⟩ := step_cases hstep
  · exact List.length_set
  · exact List.length_set

theorem length_lanes_queryInChunks (ids : List α) (size : ℕ+) (concurrency : ℕ) :
    (queryInChunks ε ρ ids size concurrency).lanes.length ≤ max 1 concurrency := by
  have hstart : ∀ k (s : State α ρ ε), (State.startLane^[k] s).lanes.length =
      s.lanes.length + k := by
    intro k
    induction k with
    | zero => exact fun _ => rfl
    | succ k ih =>
      intro s
      rw [Function.iterate_succ_apply, ih, State.startLane, List.length_append]
      exact Nat.add_right_comm _ _ _
  unfold queryInChunks
  split
  · exact Nat.zero_le _
  · rw [hstart, List.length_nil, Nat.zero_add]
    exact max_le_max le_rfl (min_le_left _ _)

/-- **No more queries are run at once than are asked for, and no fewer**: in every order at most
`concurrency` are under way, and while a batch is left every lane has one, unless one has failed. -/
theorem lanes_busy (ids : List α) (size : ℕ+) (concurrency : ℕ)
    (answers : ℕ → Except ε (List ρ)) :
    (queryInChunks ε ρ ids size concurrency).lanes.length ≤ max 1 concurrency ∧
    ∀ (lanes : List ℕ) (s : State α ρ ε),
      Transition.run (step answers) (queryInChunks ε ρ ids size concurrency) lanes = some s →
        s.lanes.countP Lane.isRunning ≤ max 1 concurrency ∧
        (s.calls ≠ chunkIds ids size → s.failure = none → ∀ lane ∈ s.lanes, lane.isRunning) := by
  have hstart := length_lanes_queryInChunks (ρ := ρ) (ε := ε) ids size concurrency
  refine ⟨hstart, fun lanes s hrun => ?_⟩
  obtain ⟨h, -⟩ := waiting_run (waiting_queryInChunks answers ids size concurrency).1 hrun
  refine ⟨?_, fun hleft hfailure lane hlane => ?_⟩
  · have hlanes := Transition.run_induction
      (fun _ _ _ hu hstep => (length_lanes_step hstep).trans hu) rfl hrun
    exact List.countP_le_length.trans (hlanes.trans_le hstart)
  · cases lane with
    | running batch call => rfl
    | returned =>
      refine absurd ?_ hleft
      rw [h.calls_eq, List.take_of_length_le (h.returned hlane), h.batches_eq]
    | rejected =>
      have hsome := h.rejected hlane
      rw [hfailure] at hsome
      cases hsome

/-- **Queries in batches are exact under any scheduling**: the batches are the identifiers, in
order, and in whatever order the queries settle, `run` is called once for each batch, a
result comes in the end, and it has the rows of the batches in the order of the batches. -/
theorem queryInChunks_exact (ids : List α) (size : ℕ+) (concurrency : ℕ)
    (answers : ℕ → Except ε (List ρ)) :
    (chunkIds ids size).flatten = ids ∧
    (∀ batch ∈ chunkIds ids size, batch ≠ [] ∧ batch.length ≤ size) ∧
    ∀ (lanes : List ℕ) (s : State α ρ ε),
      Transition.run (step answers) (queryInChunks ε ρ ids size concurrency) lanes = some s →
        Exact answers ids size s lanes := by
  refine ⟨flatten_chunkIds ids size, fun _ => mem_chunkIds, fun lanes s hrun => ?_⟩
  obtain ⟨hstart, hremaining⟩ := waiting_queryInChunks answers ids size concurrency
  obtain ⟨h, hcount⟩ := waiting_run hstart hrun
  refine ⟨?_, ?_, h.waits, ?_, fun _ => h.rows⟩
  · rw [h.calls_eq, h.batches_eq]
    exact List.take_prefix _ _
  · omega
  · intro e hresult
    unfold State.result at hresult
    split at hresult
    · next e' hfailure =>
      cases hresult
      exact h.failure e hfailure
    · split_ifs at hresult
      cases hresult

end Executions

end AegCloudDfir.Families.Chunked
