import AegCloudDfir.Lib.Transition
import AegCloudDfir.Production.Bates

/-!
# Production runs

`ProductionsService.submit` (`apps/api/src/productions/productions.service.ts`) reserves
a range of Bates numbers for a run before anything is rendered;
`processProductionRun` (`apps/worker/src/processors/production-run.ts`) later hands
numbers out to the documents of the run, page by page. Both work on one database: a
store with the runs, the reservations and the executions of the worker that are under
way. Jobs can be delivered again, executions can overlap, and a crash ends one
anywhere.

A submitted range has three numbers for every item of the selection and one more. The
worker never looks at its end, and the overlap check never looks at the width and the
suffix of a range. So the numbers a run takes are its own (`Exclusive`) as long as the
pages of every run fit its range and no two ranges of a tenant spell the same label in
different styles (`Budgeted`); `exclusive_of_budgeted` says so for every run of the
system.

`documents` is not a table: it records every document that was given numbers, also
by executions that crashed or failed afterwards.
-/

namespace AegCloudDfir.Production

open Transition

variable {Id : Type} [DecidableEq Id]

/-- `ProductionRunStatus`. -/
inductive RunStatus : Type where
  | queued
  | rendering
  | stamping
  | verifying
  | ready
  | released
  | failed
  | cancelled
  deriving DecidableEq

/-- A row of `production_runs`. -/
structure Run (Id : Type) where
  id : Id
  tenantId : Id
  productionId : Id
  runNumber : ℕ
  /-- `frozenParameters.bates` -/
  bates : BatesConfig
  /-- `frozenParameters.selectionItemIds` -/
  selectionItemIds : List Id
  status : RunStatus
  batesStart : JsString
  batesEnd : JsString

/-- A row of `bates_reservations`. -/
structure Reservation (Id : Type) where
  tenantId : Id
  productionRunId : Id
  style : BatesStyle
  startNumber : ℕ
  endNumber : ℕ

/-- A document that was given numbers. -/
structure Document (Id : Type) where
  tenantId : Id
  runId : Id
  evidenceItemId : Id
  style : BatesStyle
  /-- its first number -/
  first : ℕ
  range : DocumentBatesRange

/-- An execution of `processProductionRun`. -/
inductive Execution (Id : Type) : Type where
  /-- the run and its reservation have been read -/
  | loaded (run : Run Id) (reservation : Option (Reservation Id))
  /-- documents are being rendered; `remaining` are the items of the loop that are left -/
  | rendering (run : Run Id) (reservation : Reservation Id) (counter : BatesCounter)
    (remaining : List Id) (produced : List DocumentBatesRange)
  /-- an exception is on its way to the handler -/
  | broken (runId : Id) (message : JsString)

/-- The database and the executions under way. -/
structure Store (Id : Type) where
  runs : List (Run Id)
  reservations : List (Reservation Id)
  executions : List (Execution Id)
  documents : List (Document Id)

/-- Nothing submitted yet. -/
def Store.empty : Store Id := ⟨[], [], [], []⟩

/-! ## Submitting -/

/-- The reservations the overlap check finds. -/
def Store.overlapping (s : Store Id) (tenantId : Id) (pre : JsString) (startNumber endNumber : ℕ) :
    List (Reservation Id) :=
  s.reservations.filter fun r =>
    r.tenantId = tenantId ∧ r.style.batesPrefix = pre ∧ r.startNumber ≤ endNumber ∧
      startNumber ≤ r.endNumber

/-- `duplicate_bates_range`. -/
structure DuplicateBatesRange where
  nextFreeStart : ℕ
  deriving DecidableEq

/-- The last number `submit` reserves. -/
def endNumberOf (bates : BatesConfig) (ids : List Id) : ℕ :=
  bates.startNumber + max ids.length 1 * 3

/-- The transaction of `submit`; `runId` is the identifier of the new row. -/
def Store.submit (s : Store Id) (tenantId productionId runId : Id) (bates : BatesConfig)
    (ids : List Id) : Except DuplicateBatesRange (Store Id) :=
  let startNumber := bates.startNumber
  let endNumber := endNumberOf bates ids
  match s.overlapping tenantId bates.batesPrefix startNumber endNumber with
  | r :: rs => .error ⟨(rs.foldl (fun m r => max m r.endNumber) r.endNumber) + 1⟩
  | [] =>
    let runs := s.runs.filter fun run => run.tenantId = tenantId ∧ run.productionId = productionId
    let runNumber := (runs.foldl (fun m run => max m run.runNumber) 0) + 1
    let run : Run Id :=
      { id := runId
        tenantId
        productionId
        runNumber
        bates
        selectionItemIds := ids
        status := .queued
        -- the service formats without a check of the width
        batesStart := bates.style.label startNumber
        batesEnd := bates.style.label endNumber }
    let reservation : Reservation Id :=
      { tenantId, productionRunId := runId, style := bates.style, startNumber, endNumber }
    .ok { s with runs := s.runs ++ [run], reservations := s.reservations ++ [reservation] }

/-! ## Executing -/

/-- Changes the run with an identifier. -/
def Store.updateRun (s : Store Id) (runId : Id) (f : Run Id → Run Id) : Store Id :=
  { s with runs := s.runs.map fun run => if run.id = runId then f run else run }

/-- The first transaction: reading the run. Only queued and rendering runs are executed. -/
def Store.load (s : Store Id) (runId : Id) : Store Id :=
  match s.runs.find? fun run => run.id = runId with
  | none => s
  | some run =>
    if run.status = .queued ∨ run.status = .rendering then
      let reservation := s.reservations.find? fun r => r.productionRunId = runId
      { s with executions := s.executions ++ [.loaded run reservation] }
    else s

/-- The run is marked, the items are loaded and the counter is made. -/
def Store.begin (s : Store Id) (i : ℕ) (run : Run Id) (reservation : Option (Reservation Id))
    (items : List Id) : Store Id :=
  let marked := s.updateRun run.id fun row => { row with status := .rendering }
  let next : Execution Id :=
    match reservation with
    | none => .broken run.id (js "production run has no bates reservation")
    | some reservation =>
      match BatesCounter.new run.bates.style run.bates.numbering reservation.startNumber with
      | .error (.production message) => .broken run.id message
      | .error (.overflow message) => .broken run.id message
      | .ok counter => .rendering run reservation counter items []
  { marked with executions := s.executions.set i next }

/-- One round of the loop, for an item rendered to `pageCount` pages. -/
def Store.document (s : Store Id) (i : ℕ) (run : Run Id) (reservation : Reservation Id)
    (counter : BatesCounter) (item : Id) (remaining : List Id)
    (produced : List DocumentBatesRange) (pageCount : ℕ) : Store Id :=
  match counter.nextDocument pageCount with
  | .error (.production message) =>
    { s with executions := s.executions.set i (.broken run.id message) }
  | .error (.overflow message) =>
    { s with executions := s.executions.set i (.broken run.id message) }
  | .ok (range, after) =>
    let document : Document Id :=
      { tenantId := run.tenantId
        runId := run.id
        evidenceItemId := item
        style := counter.style
        first := counter.next
        range }
    let next := Execution.rendering run reservation after remaining (produced ++ [range])
    { s with
      executions := s.executions.set i next
      documents := s.documents ++ [document] }

/-- The last transaction: the run is ready. -/
def Store.complete (s : Store Id) (i : ℕ) (runId : Id) (produced : List DocumentBatesRange) :
    Store Id :=
  let batesStart := (produced.head?.map DocumentBatesRange.begBates).getD []
  let batesEnd := (produced.getLast?.map DocumentBatesRange.endBates).getD []
  { s.updateRun runId fun row => { row with status := .ready, batesStart, batesEnd } with
    executions := s.executions.eraseIdx i }

/-- The handler: the run failed. -/
def Store.fail (s : Store Id) (i : ℕ) (runId : Id) : Store Id :=
  { s.updateRun runId fun row => { row with status := .failed } with
    executions := s.executions.eraseIdx i }

/-- The run an execution is of. -/
def Execution.runId : Execution Id → Id
  | .loaded run _ => run.id
  | .rendering run _ _ _ _ => run.id
  | .broken runId _ => runId

/-! ## The system -/

/-- What can happen next. -/
inductive Event (Id : Type) : Type where
  /-- a call of `submit` reaches its transaction -/
  | submit (tenantId productionId runId : Id) (bates : BatesConfig) (ids : List Id)
  /-- a job of the run is delivered, for the first time or again -/
  | deliver (runId : Id)
  /-- the `i`-th execution loads its items -/
  | begin (i : ℕ) (items : List Id)
  /-- the `i`-th execution has rendered its next item -/
  | document (i : ℕ) (pageCount : ℕ)
  /-- the `i`-th execution is through -/
  | complete (i : ℕ)
  /-- the `i`-th execution handles an exception -/
  | fail (i : ℕ)
  /-- the `i`-th execution ends without a trace -/
  | crash (i : ℕ)

/-- What an event does. Identifiers of new rows are new; the items that are found are
at most those of the selection. -/
def step (s : Store Id) : Event Id → Option (Store Id)
  | .submit tenantId productionId runId bates ids =>
    if s.runs.any fun run => run.id = runId then none
    else
      match s.submit tenantId productionId runId bates ids with
      | .error _ => some s
      | .ok s' => some s'
  | .deliver runId => some (s.load runId)
  | .begin i items =>
    match s.executions[i]? with
    | some (.loaded run reservation) =>
      if items.length ≤ run.selectionItemIds.length then
        some (s.begin i run reservation items)
      else none
    | _ => none
  | .document i pageCount =>
    match s.executions[i]? with
    | some (.rendering run reservation counter (item :: remaining) produced) =>
      some (s.document i run reservation counter item remaining produced pageCount)
    | _ => none
  | .complete i =>
    match s.executions[i]? with
    | some (.rendering run _ _ [] produced) => some (s.complete i run.id produced)
    | _ => none
  | .fail i =>
    match s.executions[i]? with
    | some execution => some (s.fail i execution.runId)
    | none => none
  | .crash i => some { s with executions := s.executions.eraseIdx i }

/-! ## Exclusivity -/

/-- The document has the number `n`. -/
def Document.Holds (d : Document Id) (n : ℕ) : Prop :=
  d.first ≤ n ∧ n < d.first + d.range.numbersUsed

/-- A page of the document, or the document, has the label. -/
def Document.Bears (d : Document Id) (label : JsString) : Prop :=
  ∃ n, d.Holds n ∧ label = d.style.label n

/-- A number of the reservation. -/
def Reservation.Covers (r : Reservation Id) (n : ℕ) : Prop :=
  r.startNumber ≤ n ∧ n ≤ r.endNumber

/-- Bates exclusivity: no label of a tenant is on documents of two runs, and every
number lies in the reservation of its run. -/
structure Exclusive (s : Store Id) : Prop where
  labels : ∀ d ∈ s.documents, ∀ e ∈ s.documents, d.tenantId = e.tenantId →
    ∀ label, d.Bears label → e.Bears label → d.runId = e.runId
  reserved : ∀ d ∈ s.documents, ∀ n, d.Holds n →
    ∃ r ∈ s.reservations, r.productionRunId = d.runId ∧ r.Covers n

/-- Two reservations of one tenant spell no label in common. -/
def Reservation.Apart (r r' : Reservation Id) : Prop :=
  r.tenantId = r'.tenantId → ∀ m n, r.Covers m → r'.Covers n → r.style.Fits m → r'.style.Fits n →
    r.style.label m ≠ r'.style.label n

/-- The overlap check keeps ranges of one prefix apart, not labels. -/
example : (BatesStyle.mk (js "A") 5 []).label 10001 = (BatesStyle.mk (js "A1") 4 []).label 1 := by
  decide

/-- How many numbers several documents used. -/
def numbersUsed (produced : List DocumentBatesRange) : ℕ :=
  (produced.map DocumentBatesRange.numbersUsed).sum

/-- Per event: a new reservation spells no label of an earlier one of its tenant in
another style, and the documents of a run numbered page by page have in total at most
three pages for every selected item and one more. -/
def Budgeted (s : Store Id) : Event Id → Prop
  | .submit tenantId _ runId bates ids =>
    s.overlapping tenantId bates.batesPrefix bates.startNumber (endNumberOf bates ids) = [] →
      ∀ r ∈ s.reservations, r.style ≠ bates.style →
        r.Apart ⟨tenantId, runId, bates.style, bates.startNumber, endNumberOf bates ids⟩
  | .document i pageCount =>
    ∀ run reservation counter remaining produced,
      s.executions[i]? = some (.rendering run reservation counter remaining produced) →
        counter.numbering = .perPage → counter.style.Fits (counter.next + pageCount - 1) →
          numbersUsed produced + pageCount ≤ max run.selectionItemIds.length 1 * 3 + 1
  | _ => True

/-! ## The invariant -/

/-- The reservation `submit` made for a run. -/
structure Reservation.For (r : Reservation Id) (run : Run Id) : Prop where
  id : r.productionRunId = run.id
  tenant : r.tenantId = run.tenantId
  style : r.style = run.bates.style
  start : r.startNumber = run.bates.startNumber
  last : r.endNumber = endNumberOf run.bates run.selectionItemIds

/-- The counter of an execution stands behind the numbers it has used. -/
structure InReservation (r : Reservation Id) (run : Run Id) (counter : BatesCounter)
    (remaining : List Id) (produced : List DocumentBatesRange) : Prop where
  style : counter.style = r.style
  numbering : counter.numbering = run.bates.numbering
  next : counter.next = r.startNumber + numbersUsed produced
  /-- one number is left for every item that is left -/
  items : counter.numbering = .perDocument → counter.next + remaining.length ≤ r.endNumber + 1

/-- What an execution knows is right. -/
def Execution.Sound (reservations : List (Reservation Id)) : Execution Id → Prop
  | .loaded run reservation => ∀ r ∈ reservation, r ∈ reservations ∧ r.For run
  | .rendering run r counter remaining produced =>
    r ∈ reservations ∧ r.For run ∧ InReservation r run counter remaining produced
  | .broken _ _ => True

/-- The numbers of a document are numbers of the reservation. -/
structure Document.In (d : Document Id) (r : Reservation Id) : Prop where
  run : r.productionRunId = d.runId
  tenant : r.tenantId = d.tenantId
  style : r.style = d.style
  covers : ∀ n, d.Holds n → r.Covers n
  fits : ∀ n, d.Holds n → d.style.Fits n

/-- What holds of the store in every run of the system. -/
structure Inv (s : Store Id) : Prop where
  unique : ∀ r ∈ s.reservations, ∀ r' ∈ s.reservations,
    r.productionRunId = r'.productionRunId → r = r'
  reserved : ∀ run ∈ s.runs, ∃ r ∈ s.reservations, r.For run
  owned : ∀ r ∈ s.reservations, ∃ run ∈ s.runs, run.id = r.productionRunId
  apart : ∀ r ∈ s.reservations, ∀ r' ∈ s.reservations,
    r.productionRunId ≠ r'.productionRunId → r.Apart r'
  executions : ∀ x ∈ s.executions, x.Sound s.reservations
  documents : ∀ d ∈ s.documents, ∃ r ∈ s.reservations, d.In r

omit [DecidableEq Id] in
theorem inv_empty : Inv (Store.empty : Store Id) where
  unique := List.forall_mem_nil _
  reserved := List.forall_mem_nil _
  owned := List.forall_mem_nil _
  apart := List.forall_mem_nil _
  executions := List.forall_mem_nil _
  documents := List.forall_mem_nil _

omit [DecidableEq Id] in
/-- The invariant is about what matters: documents of two runs are in two reservations,
which are apart. -/
theorem Inv.exclusive {s : Store Id} (h : Inv s) : Exclusive s := by
  refine ⟨?_, ?_⟩
  · rintro d hd e he htenant label ⟨m, hm, rfl⟩ ⟨n, hn, hlabel⟩
    obtain ⟨r, hr, hdr⟩ := h.documents d hd
    obtain ⟨r', hr', her⟩ := h.documents e he
    by_contra hne
    have hrun : r.productionRunId ≠ r'.productionRunId := by
      rw [hdr.run, her.run]
      exact hne
    have htenants : r.tenantId = r'.tenantId := by
      rw [hdr.tenant, her.tenant]
      exact htenant
    have hfits : r.style.Fits m := by
      rw [hdr.style]
      exact hdr.fits m hm
    have hfits' : r'.style.Fits n := by
      rw [her.style]
      exact her.fits n hn
    refine h.apart r hr r' hr' hrun htenants m n (hdr.covers m hm) (her.covers n hn) hfits hfits' ?_
    rw [hdr.style, her.style]
    exact hlabel
  · intro d hd n hn
    obtain ⟨r, hr, hdr⟩ := h.documents d hd
    exact ⟨r, hr, hdr.run, hdr.covers n hn⟩

/-! ## Steps -/

/-- A row that is still the row of the same run. -/
structure Run.Same (run run' : Run Id) : Prop where
  id : run'.id = run.id
  tenant : run'.tenantId = run.tenantId
  bates : run'.bates = run.bates
  items : run'.selectionItemIds = run.selectionItemIds

omit [DecidableEq Id] in
theorem Reservation.For.same {r : Reservation Id} {run run' : Run Id} (h : r.For run)
    (hsame : run.Same run') : r.For run' where
  id := by rw [hsame.id, h.id]
  tenant := by rw [hsame.tenant, h.tenant]
  style := by rw [hsame.bates, h.style]
  start := by rw [hsame.bates, h.start]
  last := by rw [hsame.bates, hsame.items, h.last]

/-- Changing the status of a run and the executions. -/
theorem Inv.updateRun {s : Store Id} (h : Inv s) {runId : Id} {f : Run Id → Run Id}
    (hf : ∀ run : Run Id, run.Same (f run)) {executions : List (Execution Id)}
    (hexecutions : ∀ x ∈ executions, x.Sound s.reservations) :
    Inv { s.updateRun runId f with executions := executions } where
  unique := h.unique
  reserved := by
    intro run hrun
    obtain ⟨row, hrow, rfl⟩ := List.mem_map.mp hrun
    obtain ⟨r, hr, hfor⟩ := h.reserved row hrow
    refine ⟨r, hr, ?_⟩
    by_cases hid : row.id = runId
    · rw [if_pos hid]
      exact hfor.same (hf row)
    · rw [if_neg hid]
      exact hfor
  owned := by
    intro r hr
    obtain ⟨row, hrow, hid⟩ := h.owned r hr
    refine ⟨_, List.mem_map_of_mem hrow, ?_⟩
    by_cases hrow : row.id = runId
    · rw [if_pos hrow, (hf row).id]
      exact hid
    · rw [if_neg hrow]
      exact hid
  apart := h.apart
  executions := hexecutions
  documents := h.documents

/-- What an accepted submission adds. -/
theorem submit_ok {s s' : Store Id} {tenantId productionId runId : Id} {bates : BatesConfig}
    {ids : List Id} (hs : s.submit tenantId productionId runId bates ids = .ok s') :
    s.overlapping tenantId bates.batesPrefix bates.startNumber (endNumberOf bates ids) = [] ∧
      ∃ run : Run Id, run.id = runId ∧
        (Reservation.mk tenantId runId bates.style bates.startNumber
          (endNumberOf bates ids)).For run ∧
        s' =
          { s with
            runs := s.runs ++ [run]
            reservations := s.reservations ++
              [⟨tenantId, runId, bates.style, bates.startNumber, endNumberOf bates ids⟩] } := by
  rw [Store.submit] at hs
  rcases hoverlap : s.overlapping tenantId bates.batesPrefix bates.startNumber
      (endNumberOf bates ids) with _ | ⟨r, rs⟩
  · simp only [hoverlap] at hs
    cases hs
    exact ⟨rfl, _, rfl, ⟨rfl, rfl, rfl, rfl, rfl⟩, rfl⟩
  · simp only [hoverlap] at hs
    cases hs

omit [DecidableEq Id] in
theorem Reservation.Apart.symm {r r' : Reservation Id} (h : r.Apart r') : r'.Apart r := by
  intro htenant m n hm hn hfits hfits' heq
  exact h htenant.symm n m hn hm hfits' hfits heq.symm

/-- A new range is apart from the earlier ones: those of its style have other numbers, as
the overlap check has made sure, and the others are apart by budget. -/
theorem apart_of_submit {s : Store Id} {tenantId productionId runId : Id} {bates : BatesConfig}
    {ids : List Id} (hbudget : Budgeted s (.submit tenantId productionId runId bates ids))
    (hoverlap : s.overlapping tenantId bates.batesPrefix bates.startNumber
      (endNumberOf bates ids) = []) {r : Reservation Id} (hr : r ∈ s.reservations) :
    r.Apart ⟨tenantId, runId, bates.style, bates.startNumber, endNumberOf bates ids⟩ := by
  by_cases hstyle : r.style = bates.style
  · intro htenant m n hm hn _ _ heq
    rw [hstyle] at heq
    have hmn : m = n := bates.style.label_injective heq
    have hmem : r ∈ s.overlapping tenantId bates.batesPrefix bates.startNumber
        (endNumberOf bates ids) := by
      refine List.mem_filter.mpr ⟨hr, decide_eq_true ⟨htenant, ?_, ?_, ?_⟩⟩
      · rw [hstyle]
        rfl
      · exact (hmn ▸ hm.1).trans hn.2
      · exact (hmn ▸ hn.1).trans hm.2
    rw [hoverlap] at hmem
    cases hmem
  · exact hbudget hoverlap r hr hstyle

omit [DecidableEq Id] in
theorem Execution.Sound.mono {reservations reservations' : List (Reservation Id)}
    (hsub : reservations ⊆ reservations') {x : Execution Id} (h : x.Sound reservations) :
    x.Sound reservations' := by
  cases x with
  | loaded run reservation =>
    intro r hr
    exact ⟨hsub (h r hr).1, (h r hr).2⟩
  | rendering run r counter remaining produced => exact ⟨hsub h.1, h.2⟩
  | broken runId message => trivial

theorem Inv.submit {s s' : Store Id} (h : Inv s) {tenantId productionId runId : Id}
    {bates : BatesConfig} {ids : List Id} (hfresh : ∀ run ∈ s.runs, run.id ≠ runId)
    (hbudget : Budgeted s (.submit tenantId productionId runId bates ids))
    (hs : s.submit tenantId productionId runId bates ids = .ok s') : Inv s' := by
  obtain ⟨hoverlap, run, hid, hfor, rfl⟩ := submit_ok hs
  -- no reservation belongs to the new run yet
  have hother : ∀ r ∈ s.reservations, r.productionRunId ≠ runId := by
    intro r hr
    obtain ⟨row, hrow, hrowId⟩ := h.owned r hr
    rw [← hrowId]
    exact hfresh row hrow
  have hsub : s.reservations ⊆ s.reservations ++
      [⟨tenantId, runId, bates.style, bates.startNumber, endNumberOf bates ids⟩] :=
    List.subset_append_left _ _
  refine ⟨?_, ?_, ?_, ?_, ?_, ?_⟩
  · intro r hr r' hr' heq
    rcases List.mem_append.mp hr with hr | hr
    · rcases List.mem_append.mp hr' with hr' | hr'
      · exact h.unique r hr r' hr' heq
      · rw [List.mem_singleton.mp hr'] at heq
        exact absurd heq (hother r hr)
    · rcases List.mem_append.mp hr' with hr' | hr'
      · rw [List.mem_singleton.mp hr] at heq
        exact absurd heq.symm (hother r' hr')
      · rw [List.mem_singleton.mp hr, List.mem_singleton.mp hr']
  · intro row hrow
    rcases List.mem_append.mp hrow with hrow | hrow
    · obtain ⟨r, hr, hrFor⟩ := h.reserved row hrow
      exact ⟨r, hsub hr, hrFor⟩
    · rw [List.mem_singleton.mp hrow]
      exact ⟨_, List.mem_append_right _ (List.mem_singleton_self _), hfor⟩
  · intro r hr
    rcases List.mem_append.mp hr with hr | hr
    · obtain ⟨row, hrow, hrowId⟩ := h.owned r hr
      exact ⟨row, List.mem_append_left _ hrow, hrowId⟩
    · rw [List.mem_singleton.mp hr]
      exact ⟨run, List.mem_append_right _ (List.mem_singleton_self _), hid⟩
  · intro r hr r' hr' hne
    rcases List.mem_append.mp hr with hr | hr
    · rcases List.mem_append.mp hr' with hr' | hr'
      · exact h.apart r hr r' hr' hne
      · rw [List.mem_singleton.mp hr']
        exact apart_of_submit hbudget hoverlap hr
    · rcases List.mem_append.mp hr' with hr' | hr'
      · rw [List.mem_singleton.mp hr]
        exact (apart_of_submit hbudget hoverlap hr').symm
      · rw [List.mem_singleton.mp hr, List.mem_singleton.mp hr'] at hne
        exact absurd rfl hne
  · intro x hx
    exact (h.executions x hx).mono hsub
  · intro d hd
    obtain ⟨r, hr, hdr⟩ := h.documents d hd
    exact ⟨r, hsub hr, hdr⟩

omit [DecidableEq Id] in
/-- Executions that are added or changed have to be sound. -/
theorem Inv.withExecutions {s : Store Id} (h : Inv s) {executions : List (Execution Id)}
    (hexecutions : ∀ x ∈ executions, x.Sound s.reservations) :
    Inv { s with executions := executions } :=
  ⟨h.unique, h.reserved, h.owned, h.apart, hexecutions, h.documents⟩

omit [DecidableEq Id] in
theorem sound_set {reservations : List (Reservation Id)} {executions : List (Execution Id)}
    (h : ∀ x ∈ executions, x.Sound reservations) {i : ℕ} {x : Execution Id}
    (hx : x.Sound reservations) : ∀ y ∈ executions.set i x, y.Sound reservations := by
  intro y hy
  rcases List.mem_or_eq_of_mem_set hy with hy | rfl
  · exact h y hy
  · exact hx

omit [DecidableEq Id] in
theorem sound_eraseIdx {reservations : List (Reservation Id)} {executions : List (Execution Id)}
    (h : ∀ x ∈ executions, x.Sound reservations) (i : ℕ) :
    ∀ y ∈ executions.eraseIdx i, y.Sound reservations := fun y hy =>
  h y (List.mem_of_mem_eraseIdx hy)

theorem Inv.load {s : Store Id} (h : Inv s) (runId : Id) : Inv (s.load runId) := by
  rw [Store.load]
  rcases hrun : s.runs.find? fun run => run.id = runId with _ | run
  · simp only [hrun]
    exact h
  · simp only [hrun]
    by_cases hstatus : run.status = .queued ∨ run.status = .rendering
    · rw [if_pos hstatus]
      refine h.withExecutions fun x hx => ?_
      rcases List.mem_append.mp hx with hx | hx
      · exact h.executions x hx
      · rw [List.mem_singleton.mp hx]
        intro r hr
        rw [Option.mem_def] at hr
        have hmem := List.mem_of_find?_eq_some hr
        have hid : r.productionRunId = run.id := by
          have hr := List.find?_some hr
          have hrun := List.find?_some hrun
          rw [decide_eq_true_eq] at hr hrun
          rw [hr, hrun]
        obtain ⟨r', hr', hfor⟩ := h.reserved run (List.mem_of_find?_eq_some hrun)
        rw [h.unique r hmem r' hr' (hid.trans hfor.id.symm)]
        exact ⟨hr', hfor⟩
    · rw [if_neg hstatus]
      exact h

omit [DecidableEq Id] in
theorem Reservation.For.endNumber {r : Reservation Id} {run : Run Id} (h : r.For run) :
    r.endNumber = r.startNumber + max run.selectionItemIds.length 1 * 3 := by
  rw [h.last, h.start]
  rfl

omit [DecidableEq Id] in
/-- A new counter stands at the start of the reservation. -/
theorem inReservation_new {r : Reservation Id} {run : Run Id} (hfor : r.For run)
    {counter : BatesCounter} {items : List Id}
    (hcounter : BatesCounter.new run.bates.style run.bates.numbering r.startNumber = .ok counter)
    (hitems : items.length ≤ run.selectionItemIds.length) :
    InReservation r run counter items [] := by
  rw [BatesCounter.new_ok hcounter]
  have hlast := hfor.endNumber
  refine ⟨hfor.style.symm, rfl, rfl, fun _ => ?_⟩
  dsimp only
  omega

theorem Inv.begin {s : Store Id} (h : Inv s) {i : ℕ} {run : Run Id}
    {reservation : Option (Reservation Id)}
    (hloaded : (Execution.loaded run reservation).Sound s.reservations) {items : List Id}
    (hitems : items.length ≤ run.selectionItemIds.length) :
    Inv (s.begin i run reservation items) := by
  have hsame : ∀ row : Run Id, row.Same { row with status := .rendering } :=
    fun _ => ⟨rfl, rfl, rfl, rfl⟩
  refine h.updateRun hsame (sound_set h.executions ?_)
  rcases reservation with _ | r
  · trivial
  · obtain ⟨hr, hfor⟩ := hloaded r rfl
    dsimp only
    rcases hcounter : BatesCounter.new run.bates.style run.bates.numbering r.startNumber with
      (message | message) | counter
    · trivial
    · trivial
    · exact ⟨hr, hfor, inReservation_new hfor hcounter hitems⟩

theorem Inv.document {s : Store Id} (h : Inv s) {i : ℕ} {run : Run Id} {r : Reservation Id}
    {counter : BatesCounter} {item : Id} {remaining : List Id}
    {produced : List DocumentBatesRange}
    (hi : s.executions[i]? = some (.rendering run r counter (item :: remaining) produced))
    {pageCount : ℕ} (hbudget : Budgeted s (.document i pageCount)) :
    Inv (s.document i run r counter item remaining produced pageCount) := by
  obtain ⟨hr, hfor, hin⟩ := h.executions _ (List.mem_of_getElem? hi)
  rw [Store.document]
  rcases hnext : counter.nextDocument pageCount with (message | message) | ⟨range, after⟩
  · exact h.withExecutions (sound_set h.executions trivial)
  · exact h.withExecutions (sound_set h.executions trivial)
  · have hdigits : 0 < counter.style.digits := by
      rw [hin.style, hfor.style]
      exact Nat.lt_of_lt_of_le (by decide) run.bates.four_le_digits
    obtain ⟨rfl, hused, hpos, -, -, hfits⟩ := BatesCounter.nextDocument_ok hdigits hnext
    -- the numbers of the document end in the reservation
    have hend : counter.next + range.numbersUsed ≤ r.endNumber + 1 := by
      rcases hnumbering : counter.numbering with _ | _
      · have hpages : range.numbersUsed = pageCount := by
          rw [hused, hnumbering]
          rfl
        have hlast := hfits (counter.next + pageCount - 1) (by omega) (by omega)
        have hpagesLeft := hbudget run r counter _ produced hi hnumbering hlast
        have hstart := hin.next
        have hsize := hfor.endNumber
        omega
      · have hone : range.numbersUsed = 1 := by
          rw [hused, hnumbering]
          rfl
        have hleft := hin.items hnumbering
        rw [List.length_cons] at hleft
        omega
    have hsound : (Execution.rendering run r
        { counter with next := counter.next + range.numbersUsed } remaining
        (produced ++ [range])).Sound s.reservations := by
      refine ⟨hr, hfor, hin.style, hin.numbering, ?_, fun hnumbering => ?_⟩
      · rw [numbersUsed, List.map_append, List.sum_append, List.map_singleton, List.sum_singleton,
          ← Nat.add_assoc, ← numbersUsed, ← hin.next]
      · have hone : range.numbersUsed = 1 := by
          rw [hused, hnumbering]
          rfl
        have hleft := hin.items hnumbering
        rw [List.length_cons] at hleft
        dsimp only
        omega
    refine ⟨h.unique, h.reserved, h.owned, h.apart, sound_set h.executions hsound, ?_⟩
    intro d hd
    rcases List.mem_append.mp hd with hd | hd
    · exact h.documents d hd
    · rw [List.mem_singleton.mp hd]
      refine ⟨r, hr, hfor.id, hfor.tenant, hin.style.symm, ?_, fun n hn => hfits n hn.1 hn.2⟩
      rintro n ⟨hfirst, hlast⟩
      have hstart := hin.next
      dsimp only at hfirst hlast
      exact ⟨by omega, by omega⟩

theorem Inv.complete {s : Store Id} (h : Inv s) {i : ℕ} {runId : Id}
    {produced : List DocumentBatesRange} : Inv (s.complete i runId produced) := by
  refine Inv.updateRun h (f := fun row =>
    { row with
      status := .ready
      batesStart := (produced.head?.map DocumentBatesRange.begBates).getD []
      batesEnd := (produced.getLast?.map DocumentBatesRange.endBates).getD [] })
    (fun _ => ⟨rfl, rfl, rfl, rfl⟩) (sound_eraseIdx h.executions i)

theorem Inv.fail {s : Store Id} (h : Inv s) {i : ℕ} {runId : Id} : Inv (s.fail i runId) := by
  refine Inv.updateRun h (f := fun row => { row with status := .failed })
    (fun _ => ⟨rfl, rfl, rfl, rfl⟩) (sound_eraseIdx h.executions i)

/-- **One event.** Events within the budget keep the invariant. -/
theorem Inv.step {s s' : Store Id} {e : Event Id} (h : Inv s) (hbudget : Budgeted s e)
    (hs : step s e = some s') : Inv s' := by
  cases e with
  | submit tenantId productionId runId bates ids =>
    rw [Production.step] at hs
    by_cases hused : s.runs.any fun run => run.id = runId
    · rw [if_pos hused] at hs
      cases hs
    · rw [if_neg hused] at hs
      have hfresh : ∀ run ∈ s.runs, run.id ≠ runId := by
        intro run hrun hid
        exact hused (List.any_eq_true.mpr ⟨run, hrun, decide_eq_true hid⟩)
      rcases hsubmit : s.submit tenantId productionId runId bates ids with conflict | t
      · rw [hsubmit] at hs
        cases hs
        exact h
      · rw [hsubmit] at hs
        cases hs
        exact h.submit hfresh hbudget hsubmit
  | deliver runId =>
    cases hs
    exact h.load runId
  | begin i items =>
    rw [Production.step] at hs
    rcases hi : s.executions[i]? with _ | x
    · rw [hi] at hs
      cases hs
    · rw [hi] at hs
      cases x with
      | loaded run reservation =>
        dsimp only at hs
        by_cases hitems : items.length ≤ run.selectionItemIds.length
        · rw [if_pos hitems] at hs
          cases hs
          exact h.begin (h.executions _ (List.mem_of_getElem? hi)) hitems
        · rw [if_neg hitems] at hs
          cases hs
      | rendering run r counter remaining produced => cases hs
      | broken runId message => cases hs
  | document i pageCount =>
    rw [Production.step] at hs
    rcases hi : s.executions[i]? with _ | x
    · rw [hi] at hs
      cases hs
    · rw [hi] at hs
      cases x with
      | loaded run reservation => cases hs
      | rendering run r counter remaining produced =>
        cases remaining with
        | nil => cases hs
        | cons item remaining =>
          cases hs
          exact h.document hi hbudget
      | broken runId message => cases hs
  | complete i =>
    rw [Production.step] at hs
    rcases hi : s.executions[i]? with _ | x
    · rw [hi] at hs
      cases hs
    · rw [hi] at hs
      cases x with
      | loaded run reservation => cases hs
      | rendering run r counter remaining produced =>
        cases remaining with
        | nil =>
          cases hs
          exact h.complete
        | cons item remaining => cases hs
      | broken runId message => cases hs
  | fail i =>
    rw [Production.step] at hs
    rcases hi : s.executions[i]? with _ | x
    · rw [hi] at hs
      cases hs
    · rw [hi] at hs
      cases hs
      exact h.fail
  | crash i =>
    cases hs
    exact h.withExecutions (sound_eraseIdx h.executions i)

/-- **Bates exclusivity.** In every run of the system whose events stay within the
budget, every state is exclusive. -/
theorem exclusive_of_budgeted {s : Store Id} {events : List (Event Id)}
    (hbudget : Always step Budgeted Store.empty events)
    (hrun : run step Store.empty events = some s) : Exclusive s := by
  have hinv : Inv s :=
    Always.run_induction (fun _ _ _ h hb hs => h.step hb hs) inv_empty hbudget hrun
  exact hinv.exclusive

/-! ## Within and outside the budget -/

/-- A run of one document, which has four pages. -/
def fourPages : List (Event ℕ) :=
  [.submit 0 1 10 (pageNumbers 1 (by decide)) [100], .deliver 10, .begin 0 [100], .document 0 4]

theorem exclusive_of_budgeted_example :
    ∃ s, run step Store.empty fourPages = some s ∧ Exclusive s := by
  have hbudget : Always step Budgeted Store.empty fourPages := by
    refine ⟨fun _ => List.forall_mem_nil _, ?_⟩
    rintro _ ⟨⟩
    refine ⟨trivial, ?_⟩
    rintro _ ⟨⟩
    refine ⟨trivial, ?_⟩
    rintro _ ⟨⟩
    refine ⟨?_, fun _ _ => trivial⟩
    rintro _ _ _ _ _ ⟨⟩ - -
    decide
  exact ⟨_, rfl, exclusive_of_budgeted hbudget rfl⟩

/-- A run of one document that turns out to have five pages, and a run of another
document whose range starts behind the range of the first. -/
def fivePages : List (Event ℕ) :=
  [.submit 0 1 10 (pageNumbers 1 (by decide)) [100], .deliver 10, .begin 0 [100], .document 0 5,
    .complete 0, .submit 0 2 11 (pageNumbers 5 (by decide)) [101], .deliver 11, .begin 0 [101],
    .document 0 1]

/-- The fifth page of the first run and the first page of the second get the same
number. -/
theorem fivePages_collide :
    ∃ s, run step Store.empty fivePages = some s ∧ ∃ d ∈ s.documents, ∃ e ∈ s.documents,
      d.tenantId = e.tenantId ∧ d.Bears (js "ABC00000005") ∧ e.Bears (js "ABC00000005") ∧
        d.runId ≠ e.runId := by
  refine ⟨_, rfl, _, List.mem_cons_self .., _, List.mem_cons_of_mem _ (List.mem_cons_self ..), rfl,
    ⟨5, ⟨by decide, by decide⟩, by decide⟩, ⟨5, ⟨by decide, by decide⟩, by decide⟩, by decide⟩

/-- Not every run of the system is exclusive. -/
theorem fivePages_not_exclusive :
    ¬ ∀ (events : List (Event ℕ)) (s : Store ℕ),
      run step Store.empty events = some s → Exclusive s := by
  intro h
  obtain ⟨s, hrun, d, hd, e, he, htenant, hbears, hbears', hne⟩ := fivePages_collide
  exact hne ((h fivePages s hrun).labels d hd e he htenant _ hbears hbears')

end AegCloudDfir.Production
