import AegCloudDfir.Processing.ImportAnalyze
import AegCloudDfir.Processing.Quarantine
import AegCloudDfir.Search.Lexer

/-!
# The status of imports

While an import is unpacked (`processImportAnalyze`), what has been unpacked is scanned already
(`processScan`), and both set the status of the import and its error: a scan that is not clean makes
it `failed`, and the analysis makes it `completed` when it has come through, whatever it was in the
meantime. The source is scanned first, and the analysis is enqueued when it is clean.

The analysis is one job, whose executions follow each other: one that throws or is killed is
delivered again, or given up, which `recordTerminalFailure` records. A scan is its transaction.

* `step` — the analysis, the scans, and what the queue does.
* `Correct` — what the status should be in the end.
* `correct_iff_timely` — it is so exactly if no scan is overruled (`Timely`).
-/

namespace AegCloudDfir.Processing.ImportScan

open Transition
open Search (isSpace)
open Quarantine (ScanResult)

variable {Id : Type}

/-! ## Errors -/

/-- A character of a query string, as `sanitizeError` finds it. -/
def inQuery (c : CodeUnit) : Bool := ¬ (isSpace c ∨ c = unitOf '\'' ∨ c = unitOf '"')

/-- `message.replace(/\?[^\s'"]*/g, '?[elided]')` -/
def elideQueries : JsString → JsString
  | [] => []
  | c :: cs =>
    if c = unitOf '?' then js "?[elided]" ++ elideQueries (cs.dropWhile inQuery)
    else c :: elideQueries cs
  termination_by message => message.length
  decreasing_by
    · exact Nat.lt_succ_of_le (List.length_dropWhile_le _ _)
    · exact Nat.lt_succ_self _

/-- `sanitizeError` -/
def sanitizeError (message : JsString) : JsString := (elideQueries message).take 500

/-- The message of an error that is thrown. -/
structure Message where
  text : JsString
  nonempty : text ≠ []

/-- The error is not empty, either. -/
theorem sanitizeError_ne_nil (message : Message) : sanitizeError message.text ≠ [] := by
  obtain ⟨text, hne⟩ := message
  obtain ⟨c, cs, rfl⟩ := List.exists_cons_of_ne_nil hne
  rw [sanitizeError, elideQueries]
  split_ifs
  · rintro ⟨⟩
  · rintro ⟨⟩

/-! ## The system -/

/-- The job of the analysis. -/
inductive Job : Type where
  | absent
  | queued
  /-- an execution, by its place -/
  | running (i : ℕ)
  /-- given up, which is not recorded yet -/
  | exhausted
  | done
  deriving DecidableEq

/-- What the queue does with the job after an execution. -/
inductive Ending : Type where
  | again
  | exhausted
  | unrecoverable
  deriving DecidableEq

/-- The job after an execution. -/
def Ending.job : Ending → Job
  | again => .queued
  | exhausted => .exhausted
  | unrecoverable => .done

/-- An import with its items, their scans, and the analysis. -/
structure System (Id : Type) where
  analysis : ImportAnalyze.State Id
  error : JsString
  job : Job
  /-- whether the latest analysis has come through -/
  succeeded : Bool
  /-- the items that have been scanned -/
  scanned : List Id

/-- What can happen next. -/
inductive Event (Id : Type) : Type where
  /-- an item is scanned -/
  | scan (id : Id)
  | deliver
  /-- the analysis takes its next step. If it throws, this is its message. -/
  | next (evidenceItemId : Id) (message : Message) (ending : Ending)
  | throw (message : Message) (ending : Ending)
  | kill (last : Bool)
  /-- `recordTerminalFailure` -/
  | record (reason : JsString)

/-- `data: { status: 'failed', error }` -/
def System.fail (s : System Id) (error : JsString) : System Id :=
  { s with analysis := { s.analysis with status := .failed }, error := error }

/-- An execution is inside of `try`. -/
def catches : ImportAnalyze.Execution Id → Bool
  | .begun _ | .refused | .ended => false
  | _ => true

section Steps

variable [DecidableEq Id] (setup : ImportAnalyze.Setup Id) (results : Id → ScanResult)
  (s : System Id)

/-- `processScan` of the source, from its result on. -/
def scanSource (id : Id) : System Id :=
  let s : System Id := { s with
    analysis := { s.analysis with malwareStatus := (results id).status }
    scanned := id :: s.scanned }
  match results id with
  | .infected => s.fail (js "source was quarantined as malware")
  | .clean => { s with job := .queued }
  | .scanFailed =>
    if setup.clamavEnabled = false then { s with job := .queued }
    else s.fail (js "source malware scan did not complete")

/-- `processScan` of an extracted member, from its result on. -/
def scanMember (id : Id) : System Id :=
  let s : System Id := { s with scanned := id :: s.scanned }
  match results id with
  | .infected => s.fail (js "source was quarantined as malware")
  | .clean => s
  | .scanFailed =>
    if setup.clamavEnabled = false then s
    else s.fail (js "an extracted member malware scan did not complete")

/-- `processImportAnalyze` up to where it sets the status. -/
def deliver : System Id :=
  let analysis := ImportAnalyze.deliver setup s.analysis
  if s.analysis.status = .completed then { s with job := .done }
  -- it waits for the scan
  else if analysis.executions.length = s.analysis.executions.length then s
  else { s with analysis := analysis, job := .running s.analysis.executions.length }

/-- What the step of an execution makes of the error and the job. -/
def afterStep (i : ℕ) (message : Message) (ending : Ending)
    (execution : ImportAnalyze.Execution Id) (analysis : ImportAnalyze.State Id) : System Id :=
  match execution with
  | .begun _ => { s with analysis := analysis, error := [], succeeded := false }
  | .refused =>
    { s with
      analysis := analysis
      error := if s.analysis.malwareStatus = .infected then js "source was quarantined as malware"
        else js "source malware scan did not complete"
      job := .done }
  | .written =>
    { s with analysis := analysis, error := [], succeeded := true, job := ending.job }
  | _ =>
    if analysis.executions[i]? = some .ended then
      { s with analysis := analysis, error := sanitizeError message.text, job := ending.job }
    else { s with analysis := analysis }

/-- What an event does. -/
def step : Event Id → Option (System Id)
  | .scan id =>
    if id ∈ s.scanned then none
    else if id = setup.sourceEvidenceItemId then some (scanSource setup results s id)
    else if id ∈ s.analysis.items.map ImportAnalyze.Item.id then
      some (scanMember setup results s id)
    else none
  | .deliver => if s.job = .queued then some (deliver setup s) else none
  | .next evidenceItemId message ending =>
    match s.job with
    | .running i => s.analysis.executions[i]?.bind fun execution =>
      (ImportAnalyze.next setup s.analysis i evidenceItemId execution).map
        (afterStep s i message ending execution)
    | _ => none
  | .throw message ending =>
    match s.job with
    | .running i => (s.analysis.executions[i]?.filter catches).map fun _ =>
      { s with
        analysis := s.analysis.fail i
        error := sanitizeError message.text
        job := ending.job }
    | _ => none
  | .kill last =>
    match s.job with
    | .running i => some { s with
        analysis := s.analysis.setExecution i .ended
        job := if last then .exhausted else .queued }
    | _ => none
  | .record reason =>
    if s.job = .exhausted then
      let s : System Id := { s with job := .done }
      some (if s.analysis.status = .completed then s
        else s.fail ((js "job did not finish: " ++ reason).take 1000))
    else none

end Steps

/-! ## What is asked for -/

section Asked

variable (setup : ImportAnalyze.Setup Id) (results : Id → ScanResult) (s : System Id)

/-- All jobs have finished: everything is scanned, and the analysis is done, if there is one. -/
structure Settled : Prop where
  source : setup.sourceEvidenceItemId ∈ s.scanned
  members : ∀ item ∈ s.analysis.items, item.id ∈ s.scanned
  job : s.job = .absent ∨ s.job = .done

/-- The source and every extracted member are clean, and the analysis has succeeded. -/
structure Accepted : Prop where
  source : results setup.sourceEvidenceItemId = .clean
  members : ∀ item ∈ s.analysis.items, results item.id = .clean
  succeeded : s.succeeded = true

/-- **The status is `completed` exactly if everything is as it should be**, and otherwise `failed`,
with an error. -/
def Correct : Prop :=
  (s.analysis.status = .completed ↔ Accepted setup results s) ∧
    (s.analysis.status ≠ .completed → s.analysis.status = .failed ∧ s.error ≠ [])

/-- The analysis makes its last step, which sets the status. -/
def completes : Event Id → Bool
  | .next _ _ _ =>
    match s.job with
    | .running i =>
      match s.analysis.executions[i]? with
      | some .written => true
      | _ => false
    | _ => false
  | _ => false

variable [DecidableEq Id]

/-- **No scan is overruled.** Where the analysis sets the status after a scan that was not clean,
there is another such scan still to come. -/
def Timely (es : List (Event Id)) : Prop :=
  ∀ before e after s', es = before ++ e :: after →
    run (step setup results) s before = some s' → completes s' e = true →
      (∃ id ∈ s'.scanned, results id ≠ .clean) → ∃ id, .scan id ∈ after ∧ results id ≠ .clean

end Asked

/-! ## What a step does -/

/-- What is written of an import, and what there is to do. -/
structure Summary (Id : Type) where
  status : ImportAnalyze.Status
  error : JsString
  job : Job
  succeeded : Bool
  scanned : List Id

/-- The summary of a system. -/
def System.summary (s : System Id) : Summary Id where
  status := s.analysis.status
  error := s.error
  job := s.job
  succeeded := s.succeeded
  scanned := s.scanned

/-- A failure is written. -/
def Summary.fail (v : Summary Id) (error : JsString) : Summary Id :=
  { v with status := .failed, error := error }

/-- **The moves of the status.** `final` tells where an analysis completes. -/
inductive Moves (source : Id) (results : Id → ScanResult) (v : Summary Id) :
    (final : Bool) → Event Id → Summary Id → Prop where
  | accepted (id : Id) (hclean : results id = .clean) (job : Job)
    (hsource : id = source → job = .queued) (hmember : id ≠ source → job = v.job) :
    Moves source results v false (.scan id) { v with scanned := id :: v.scanned, job := job }
  | rejected (id : Id) (hresult : results id ≠ .clean) (error : JsString) (herror : error ≠ []) :
    Moves source results v false (.scan id) ({ v with scanned := id :: v.scanned }.fail error)
  | waits (e : Event Id) (he : ∀ id, e ≠ .scan id) : Moves source results v false e v
  | found (hjob : v.job = .queued ∨ v.job = .exhausted) (hstatus : v.status = .completed)
    (e : Event Id) (he : ∀ id, e ≠ .scan id) :
    Moves source results v false e { v with job := .done }
  | starts (hjob : v.job = .queued) (hstatus : v.status ≠ .completed) (i : ℕ) :
    Moves source results v false .deliver { v with job := .running i }
  | begins (i : ℕ) (hjob : v.job = .running i) (e : Event Id) (he : ∀ id, e ≠ .scan id) :
    Moves source results v false e { v with status := .analyzing, error := [], succeeded := false }
  | fails (hjob : v.job = .exhausted ∧ v.status ≠ .completed ∨ ∃ i, v.job = .running i)
    (error : JsString) (herror : error ≠ []) (ending : Ending) (e : Event Id)
    (he : ∀ id, e ≠ .scan id) :
    Moves source results v false e ({ v with job := ending.job }.fail error)
  | killed (i : ℕ) (hjob : v.job = .running i) (last : Bool) :
    Moves source results v false (.kill last) { v with job := if last then .exhausted else .queued }
  | completes (i : ℕ) (hjob : v.job = .running i) (ending : Ending) (e : Event Id)
    (he : ∀ id, e ≠ .scan id) :
    Moves source results v true e
      { v with status := .completed, error := [], succeeded := true, job := ending.job }

section Next

variable {setup : ImportAnalyze.Setup Id} {s s' : ImportAnalyze.State Id} {i : ℕ}
  {evidenceItemId : Id} {execution : ImportAnalyze.Execution Id}

/-- An execution is still under way, and has not touched the status, or it has thrown. -/
def OnOrFailed (s s' : ImportAnalyze.State Id) (i : ℕ) : Prop :=
  s'.executions[i]? ≠ some .ended ∧ s'.status = s.status ∨
    s'.executions[i]? = some .ended ∧ s'.status = .failed

theorem onOrFailed_setExecution (hi : s.executions[i]? = some execution)
    {next : ImportAnalyze.Execution Id} (hnext : next ≠ .ended) :
    OnOrFailed s (s.setExecution i next) i := by
  refine .inl ⟨?_, rfl⟩
  rw [ImportAnalyze.State.setExecution,
    List.getElem?_set_self (List.getElem?_eq_some_iff.mp hi).1]
  exact fun h => hnext (Option.some.inj h)

theorem onOrFailed_fail (hi : s.executions[i]? = some execution) : OnOrFailed s (s.fail i) i := by
  refine .inr ⟨?_, rfl⟩
  exact List.getElem?_set_self (List.getElem?_eq_some_iff.mp hi).1

theorem items_deliver (setup : ImportAnalyze.Setup Id) (s : ImportAnalyze.State Id) :
    (ImportAnalyze.deliver setup s).items = s.items := by
  rw [ImportAnalyze.deliver]
  split_ifs
  all_goals rfl

theorem status_deliver (setup : ImportAnalyze.Setup Id) (s : ImportAnalyze.State Id) :
    (ImportAnalyze.deliver setup s).status = s.status := by
  rw [ImportAnalyze.deliver]
  split_ifs
  all_goals rfl

variable [DecidableEq Id]

/-- A step between the first and the last. -/
theorem onOrFailed_next (hi : s.executions[i]? = some execution) (hcatches : catches execution)
    (hwritten : execution ≠ .written)
    (h : ImportAnalyze.next setup s i evidenceItemId execution = some s') : OnOrFailed s s' i := by
  have hgo : ∀ {next : ImportAnalyze.Execution Id}, next ≠ .ended →
      OnOrFailed s (s.setExecution i next) i := onOrFailed_setExecution hi
  have hfail : OnOrFailed s (s.fail i) i := onOrFailed_fail hi
  cases execution with
  | begun => cases hcatches
  | refused => cases hcatches
  | ended => cases hcatches
  | written => exact absurd rfl hwritten
  | unpacking existingPaths reader rest =>
    cases rest with
    | nil =>
      rw [ImportAnalyze.next] at h
      split at h
      · exact Option.some.inj h ▸ hfail
      · exact Option.some.inj h ▸ hgo (by rintro ⟨⟩)
    | cons entry rest =>
      rw [ImportAnalyze.next, ImportAnalyze.unpack] at h
      split at h
      · split at h
        · exact Option.some.inj h ▸ hfail
        · exact Option.some.inj h ▸ hgo (by rintro ⟨⟩)
      · split at h
        · exact Option.some.inj h ▸ hgo (by rintro ⟨⟩)
        · split_ifs at h
          · exact Option.some.inj h ▸ hgo (by rintro ⟨⟩)
          · exact Option.some.inj h ▸ hfail
          · exact Option.some.inj h ▸ hgo (by rintro ⟨⟩)
  | stored existingPaths reader rest artifact id =>
    rw [ImportAnalyze.next, ImportAnalyze.persistPayload] at h
    dsimp only at h
    split_ifs at h
    · exact Option.some.inj h ▸ hfail
    · exact Option.some.inj h ▸ hgo (by rintro ⟨⟩)
  | listing existingPaths manifest rest =>
    cases rest with
    | nil => exact Option.some.inj h ▸ hgo (by rintro ⟨⟩)
    | cons artifact rest =>
      rw [ImportAnalyze.next] at h
      split_ifs at h
      · exact Option.some.inj h ▸ hgo (by rintro ⟨⟩)
      · exact Option.some.inj h ▸ hgo (by rintro ⟨⟩)
  | previewed existingPaths manifest rest artifact =>
    rw [ImportAnalyze.next, ImportAnalyze.persistListed] at h
    split_ifs at h
    · exact Option.some.inj h ▸ hfail
    · exact Option.some.inj h ▸ hgo (by rintro ⟨⟩)

/-- Items stay. -/
theorem items_subset_next
    (h : ImportAnalyze.next setup s i evidenceItemId execution = some s') :
    s.items ⊆ s'.items := by
  cases execution with
  | begun | refused | written => exact Option.some.inj h ▸ List.Subset.refl _
  | ended => cases h
  | unpacking existingPaths reader rest =>
    cases rest with
    | nil =>
      rw [ImportAnalyze.next] at h
      split at h
      all_goals exact Option.some.inj h ▸ List.Subset.refl _
    | cons entry rest =>
      rw [ImportAnalyze.next, ImportAnalyze.unpack] at h
      split at h
      · split at h
        all_goals exact Option.some.inj h ▸ List.Subset.refl _
      · split at h
        · exact Option.some.inj h ▸ List.Subset.refl _
        · split_ifs at h
          all_goals exact Option.some.inj h ▸ List.Subset.refl _
  | stored existingPaths reader rest artifact id =>
    rw [ImportAnalyze.next, ImportAnalyze.persistPayload] at h
    dsimp only at h
    split_ifs at h
    · exact Option.some.inj h ▸ List.Subset.refl _
    · exact Option.some.inj h ▸ List.subset_append_left _ _
  | listing existingPaths manifest rest =>
    cases rest with
    | nil => exact Option.some.inj h ▸ List.Subset.refl _
    | cons artifact rest =>
      rw [ImportAnalyze.next] at h
      split_ifs at h
      all_goals exact Option.some.inj h ▸ List.Subset.refl _
  | previewed existingPaths manifest rest artifact =>
    rw [ImportAnalyze.next, ImportAnalyze.persistListed] at h
    split_ifs at h
    all_goals exact Option.some.inj h ▸ List.Subset.refl _

end Next

section Step

variable {setup : ImportAnalyze.Setup Id} {results : Id → ScanResult}
  {s s' : System Id} {e : Event Id}

theorem moves_scanSource (henabled : setup.clamavEnabled = true) {id : Id}
    (hid : id = setup.sourceEvidenceItemId) :
    Moves setup.sourceEvidenceItemId results s.summary false (.scan id)
      (scanSource setup results s id).summary := by
  have hquarantined : js "source was quarantined as malware" ≠ [] := by decide
  have hincomplete : js "source malware scan did not complete" ≠ [] := by decide
  rw [scanSource]
  rcases hresult : results id with _ | _ | _
  · exact .accepted id hresult .queued (fun _ => rfl) fun h => absurd hid h
  · refine .rejected id ?_ _ hquarantined
    rw [hresult]
    rintro ⟨⟩
  · dsimp only
    rw [if_neg (by rw [henabled]; rintro ⟨⟩)]
    refine .rejected id ?_ _ hincomplete
    rw [hresult]
    rintro ⟨⟩

theorem moves_scanMember (henabled : setup.clamavEnabled = true) {id : Id}
    (hid : id ≠ setup.sourceEvidenceItemId) :
    Moves setup.sourceEvidenceItemId results s.summary false (.scan id)
      (scanMember setup results s id).summary := by
  have hquarantined : js "source was quarantined as malware" ≠ [] := by decide
  have hincomplete : js "an extracted member malware scan did not complete" ≠ [] := by decide
  rw [scanMember]
  rcases hresult : results id with _ | _ | _
  · exact .accepted id hresult s.job (fun h => absurd h hid) fun _ => rfl
  · refine .rejected id ?_ _ hquarantined
    rw [hresult]
    rintro ⟨⟩
  · dsimp only
    rw [if_neg (by rw [henabled]; rintro ⟨⟩)]
    refine .rejected id ?_ _ hincomplete
    rw [hresult]
    rintro ⟨⟩

theorem moves_deliver (hjob : s.job = .queued) :
    Moves setup.sourceEvidenceItemId results s.summary false .deliver
      (deliver setup s).summary := by
  rw [deliver]
  split_ifs with hstatus hlength
  · exact .found (.inl hjob) hstatus _ (by rintro _ ⟨⟩)
  · exact .waits _ (by rintro _ ⟨⟩)
  · have hstarts : ({ s with
          analysis := ImportAnalyze.deliver setup s.analysis
          job := .running s.analysis.executions.length } : System Id).summary =
        { s.summary with job := .running s.analysis.executions.length } := by
      simp only [System.summary, status_deliver]
    rw [hstarts]
    exact .starts hjob hstatus _

variable [DecidableEq Id]

/-- What comes after a step of an execution. -/
theorem moves_afterStep {i : ℕ} (hjob : s.job = .running i) {evidenceItemId : Id}
    {execution : ImportAnalyze.Execution Id} (hi : s.analysis.executions[i]? = some execution)
    {analysis : ImportAnalyze.State Id}
    (h : ImportAnalyze.next setup s.analysis i evidenceItemId execution = some analysis)
    (message : Message) (ending : Ending) :
    Moves setup.sourceEvidenceItemId results s.summary
      (completes s (.next evidenceItemId message ending)) (.next evidenceItemId message ending)
      (afterStep s i message ending execution analysis).summary := by
  have hscan : ∀ id, Event.next evidenceItemId message ending ≠ .scan id := by rintro _ ⟨⟩
  by_cases hwritten : execution = .written
  · subst hwritten
    rw [completes, hjob]
    dsimp only
    rw [hi]
    obtain rfl := Option.some.inj h
    exact .completes i hjob ending _ hscan
  · have hfinal : completes s (.next evidenceItemId message ending) = false := by
      rw [completes, hjob]
      dsimp only
      rw [hi]
      cases execution with
      | written => exact absurd rfl hwritten
      | _ => rfl
    rw [hfinal]
    cases hcatches : catches execution with
    | false =>
      cases execution with
      | begun existingPaths =>
        obtain rfl := Option.some.inj h
        exact .begins i hjob _ hscan
      | refused =>
        obtain rfl := Option.some.inj h
        refine .fails (.inr ⟨i, hjob⟩) _ ?_ .unrecoverable _ hscan
        dsimp only [afterStep]
        split_ifs
        · decide
        · decide
      | ended => cases h
      | _ => cases hcatches
    | true =>
      have hother := onOrFailed_next hi hcatches hwritten h
      have hafter : afterStep s i message ending execution analysis =
          if analysis.executions[i]? = some .ended then
            { s with analysis := analysis, error := sanitizeError message.text, job := ending.job }
          else { s with analysis := analysis } := by
        cases execution with
        | begun => cases hcatches
        | refused => cases hcatches
        | ended => cases hcatches
        | written => exact absurd rfl hwritten
        | _ => rfl
      rw [hafter]
      rcases hother with ⟨hgoes, hstatus⟩ | ⟨hended, hstatus⟩
      · have hsame : ({ s with analysis := analysis } : System Id).summary = s.summary := by
          simp only [System.summary, hstatus]
        rw [if_neg hgoes, hsame]
        exact .waits _ hscan
      · have hfailed : ({ s with
              analysis := analysis
              error := sanitizeError message.text
              job := ending.job } : System Id).summary =
            { s.summary with job := ending.job }.fail (sanitizeError message.text) := by
          simp only [System.summary, Summary.fail, hstatus]
        rw [if_pos hended, hfailed]
        exact .fails (.inr ⟨i, hjob⟩) _ (sanitizeError_ne_nil message) ending _ hscan

/-- **A step moves the status.** -/
theorem moves_of_step (henabled : setup.clamavEnabled = true)
    (h : step setup results s e = some s') :
    Moves setup.sourceEvidenceItemId results s.summary (completes s e) e s'.summary := by
  cases e with
  | scan id =>
    rw [step] at h
    split_ifs at h with _ hid
    · exact Option.some.inj h ▸ moves_scanSource henabled hid
    · exact Option.some.inj h ▸ moves_scanMember henabled hid
  | deliver =>
    rw [step] at h
    split_ifs at h with hjob
    exact Option.some.inj h ▸ moves_deliver hjob
  | next evidenceItemId message ending =>
    rw [step] at h
    split at h
    · rename_i i hjob
      obtain ⟨execution, hi, h⟩ := Option.bind_eq_some_iff.mp h
      obtain ⟨analysis, hnext, rfl⟩ := Option.map_eq_some_iff.mp h
      exact moves_afterStep hjob hi hnext message ending
    · cases h
  | throw message ending =>
    rw [step] at h
    split at h
    · rename_i i hjob
      obtain ⟨execution, -, rfl⟩ := Option.map_eq_some_iff.mp h
      exact .fails (.inr ⟨i, hjob⟩) _ (sanitizeError_ne_nil message) ending _ (by rintro _ ⟨⟩)
    · cases h
  | kill last =>
    rw [step] at h
    split at h
    · rename_i i hjob
      obtain rfl := Option.some.inj h
      exact .killed i hjob last
    · cases h
  | record reason =>
    rw [step] at h
    split_ifs at h with hjob
    obtain rfl := Option.some.inj h
    dsimp only
    split_ifs with hstatus
    · exact .found (.inr hjob) hstatus _ (by rintro _ ⟨⟩)
    · refine .fails (.inl ⟨hjob, hstatus⟩) _ ?_ .unrecoverable _ (by rintro _ ⟨⟩)
      rintro ⟨⟩

end Step

/-! ## What holds during a run -/

section Summary

variable {source : Id} {results : Id → ScanResult} {v v' : Summary Id} {final : Bool} {e : Event Id}

/-- **What holds of a summary.** -/
structure Summary.Inv (source : Id) (results : Id → ScanResult) (v : Summary Id) : Prop where
  /-- there is an analysis only of a clean source -/
  clean : v.job ≠ .absent → results source = .clean
  absent : v.job = .absent → source ∈ v.scanned →
    results source ≠ .clean ∧ v.status = .failed ∧ v.error ≠ []
  completed : v.status = .completed →
    v.succeeded = true ∧ v.job ≠ .absent ∧ ∀ i, v.job ≠ .running i
  /-- what is not completed though the analysis has succeeded was rejected -/
  overruled : v.succeeded = true → v.status ≠ .completed →
    v.status = .failed ∧ v.error ≠ [] ∧ ∃ id ∈ v.scanned, results id ≠ .clean
  ended : v.job = .done → v.succeeded = false → v.status = .failed ∧ v.error ≠ []

theorem Ending.job_ne_absent (ending : Ending) : ending.job ≠ .absent := by
  cases ending <;> rintro ⟨⟩

theorem Ending.job_ne_running (ending : Ending) (i : ℕ) : ending.job ≠ .running i := by
  cases ending <;> rintro ⟨⟩

/-- While an execution is under way, the status is not `completed`. -/
theorem Summary.Inv.not_completed (hinv : v.Inv source results) {i : ℕ}
    (hjob : v.job = .running i) : v.status ≠ .completed := fun h => (hinv.completed h).2.2 i hjob

/-- **Every move keeps it.** -/
theorem Moves.inv (h : Moves source results v final e v') (hinv : v.Inv source results) :
    v'.Inv source results := by
  cases h with
  | accepted id hclean job hsource hmember =>
    by_cases hid : id = source
    · obtain rfl := hsource hid
      subst hid
      refine ⟨fun _ => hclean, by rintro ⟨⟩, fun h => ?_, fun hsucceeded hstatus => ?_,
        by rintro ⟨⟩⟩
      · exact ⟨(hinv.completed h).1, by rintro ⟨⟩, by rintro _ ⟨⟩⟩
      · obtain ⟨hfailed, herror, bad, hbad, hresult⟩ := hinv.overruled hsucceeded hstatus
        exact ⟨hfailed, herror, bad, List.mem_cons_of_mem _ hbad, hresult⟩
    · obtain rfl := hmember hid
      refine ⟨hinv.clean, fun habsent hmem => hinv.absent habsent ?_, hinv.completed,
        fun hsucceeded hstatus => ?_, hinv.ended⟩
      · exact (List.mem_cons.mp hmem).resolve_left (Ne.symm hid)
      · obtain ⟨hfailed, herror, bad, hbad, hresult⟩ := hinv.overruled hsucceeded hstatus
        exact ⟨hfailed, herror, bad, List.mem_cons_of_mem _ hbad, hresult⟩
  | rejected id hresult error herror =>
    refine ⟨hinv.clean, fun habsent hmem => ⟨?_, rfl, herror⟩, by rintro ⟨⟩,
      fun _ _ => ⟨rfl, herror, id, List.mem_cons_self, hresult⟩, fun _ _ => ⟨rfl, herror⟩⟩
    rcases List.mem_cons.mp hmem with rfl | hmem
    · exact hresult
    · exact (hinv.absent habsent hmem).1
  | waits _ _ => exact hinv
  | found hjob hstatus _ _ =>
    have hcompleted := hinv.completed hstatus
    refine ⟨fun _ => hinv.clean hcompleted.2.1, by rintro ⟨⟩,
      fun _ => ⟨hcompleted.1, by rintro ⟨⟩, by rintro _ ⟨⟩⟩,
      fun _ h => absurd hstatus h, fun _ h => ?_⟩
    exact absurd (hcompleted.1.symm.trans h) (Bool.false_ne_true ∘ Eq.symm)
  | starts hjob hstatus i =>
    have hclean := hinv.clean fun h => by cases hjob.symm.trans h
    exact ⟨fun _ => hclean, by rintro ⟨⟩, fun h => absurd h hstatus, hinv.overruled,
      by rintro ⟨⟩⟩
  | begins i hjob _ _ =>
    exact ⟨hinv.clean, (fun h => by cases hjob.symm.trans h), by rintro ⟨⟩,
      by rintro ⟨⟩, fun h => by cases hjob.symm.trans h⟩
  | fails hjob error herror ending _ _ =>
    have hstatus : v.status ≠ .completed := by
      rcases hjob with ⟨-, h⟩ | ⟨i, h⟩
      · exact h
      · exact hinv.not_completed h
    have hpresent : v.job ≠ .absent := by
      rcases hjob with ⟨h, -⟩ | ⟨i, h⟩
      · exact fun habsent => by cases h.symm.trans habsent
      · exact fun habsent => by cases h.symm.trans habsent
    exact ⟨fun _ => hinv.clean hpresent, fun h => absurd h ending.job_ne_absent,
      by rintro ⟨⟩, fun hsucceeded _ =>
        ⟨rfl, herror, (hinv.overruled hsucceeded hstatus).2.2⟩, fun _ _ => ⟨rfl, herror⟩⟩
  | killed i hjob last =>
    have hclean := hinv.clean fun h => by cases hjob.symm.trans h
    have hstatus := hinv.not_completed hjob
    cases last with
    | false | true => exact ⟨fun _ => hclean, by rintro ⟨⟩, fun h => absurd h hstatus,
        hinv.overruled, by rintro ⟨⟩⟩
  | completes i hjob ending _ _ =>
    have hclean := hinv.clean fun h => by cases hjob.symm.trans h
    exact ⟨fun _ => hclean, fun h => absurd h ending.job_ne_absent,
      fun _ => ⟨rfl, ending.job_ne_absent, ending.job_ne_running⟩, fun _ h => absurd rfl h,
      by rintro _ ⟨⟩⟩

/-- Where `completed` comes from. -/
theorem Moves.completed (h : Moves source results v final e v') (hstatus : v'.status = .completed) :
    final = true ∨ v.status = .completed ∧ ∀ id, e = .scan id → results id = .clean := by
  cases h with
  | accepted id hclean _ _ _ =>
    refine .inr ⟨hstatus, fun other h => ?_⟩
    obtain rfl := Event.scan.inj h
    exact hclean
  | waits _ he | found _ _ _ he => exact .inr ⟨hstatus, fun id h => absurd h (he id)⟩
  | starts _ _ _ | killed _ _ _ => exact .inr ⟨hstatus, by rintro _ ⟨⟩⟩
  | completes _ _ _ _ _ => exact .inl rfl
  | _ => cases hstatus

theorem Moves.status_of_final (h : Moves source results v true e v') : v'.status = .completed := by
  cases h
  rfl

/-- What ends it: a scan that is not clean. -/
theorem Moves.stays_completed (h : Moves source results v final e v')
    (hinv : v.Inv source results) (hstatus : v.status = .completed)
    (he : ∀ id, e = .scan id → results id = .clean) : v'.status = .completed := by
  have hrunning := (hinv.completed hstatus).2.2
  cases h with
  | accepted _ _ _ _ _ => exact hstatus
  | rejected id hresult _ _ => exact absurd (he id rfl) hresult
  | waits _ _ => exact hstatus
  | found _ _ _ _ => exact hstatus
  | starts _ _ _ => exact hstatus
  | begins i hjob _ _ => exact absurd hjob (hrunning i)
  | fails hjob _ _ _ _ _ =>
    rcases hjob with ⟨-, h⟩ | ⟨i, h⟩
    · exact absurd hstatus h
    · exact absurd h (hrunning i)
  | killed _ _ _ => exact hstatus
  | completes _ _ _ _ _ => rfl

/-- What has been scanned. -/
theorem Moves.mem_scanned (h : Moves source results v final e v') (id : Id) :
    id ∈ v'.scanned ↔ id ∈ v.scanned ∨ e = .scan id := by
  have hother : (∀ id, e ≠ .scan id) → (id ∈ v.scanned ↔ id ∈ v.scanned ∨ e = .scan id) :=
    fun he => (or_iff_left (he id)).symm
  cases h with
  | accepted scanned _ _ _ _ =>
    rw [List.mem_cons, or_comm]
    exact or_congr_right ⟨fun h => congrArg _ h.symm, fun h => (Event.scan.inj h).symm⟩
  | rejected scanned _ _ _ =>
    refine List.mem_cons.trans (or_comm.trans ?_)
    exact or_congr_right ⟨fun h => congrArg _ h.symm, fun h => (Event.scan.inj h).symm⟩
  | waits _ he => exact hother he
  | found _ _ _ he => exact hother he
  | starts _ _ _ | killed _ _ _ => exact hother (by rintro _ ⟨⟩)
  | begins _ _ _ he => exact hother he
  | fails _ _ _ _ _ he => exact hother he
  | completes _ _ _ _ he => exact hother he

end Summary

/-! ## Runs -/

section Run

variable {setup : ImportAnalyze.Setup Id} {results : Id → ScanResult} {s s' t : System Id}
  {e : Event Id} {es : List (Event Id)}

/-- The invariant. -/
structure Inv (setup : ImportAnalyze.Setup Id) (results : Id → ScanResult) (s : System Id) :
    Prop where
  summary : s.summary.Inv setup.sourceEvidenceItemId results
  known : ∀ id ∈ s.scanned,
    id = setup.sourceEvidenceItemId ∨ ∃ item ∈ s.analysis.items, item.id = id

/-- How an import begins. -/
structure Initial (s : System Id) : Prop where
  status : s.analysis.status = .uploaded
  job : s.job = .absent
  succeeded : s.succeeded = false
  scanned : s.scanned = []

theorem Initial.inv (h : Initial s) : Inv setup results s := by
  have hnone : ∀ id, id ∉ s.scanned := fun id => h.scanned ▸ List.not_mem_nil
  refine ⟨⟨fun hjob => absurd h.job hjob, fun _ hmem => absurd hmem (hnone _), fun hstatus => ?_,
    fun hsucceeded => ?_, fun hjob => ?_⟩, fun id hid => absurd hid (hnone id)⟩
  · cases h.status.symm.trans hstatus
  · cases h.succeeded.symm.trans hsucceeded
  · cases h.job.symm.trans hjob

/-- The status in the end: `completed` if all is as it should be, or if a scan was overruled. -/
theorem Settled.correct_iff (hsettled : Settled setup t) (hinv : Inv setup results t) :
    Correct setup results t ↔
      (t.analysis.status = .completed → ∀ id ∈ t.scanned, results id = .clean) := by
  have haccepted : Accepted setup results t ↔
      t.succeeded = true ∧ ∀ id ∈ t.scanned, results id = .clean := by
    refine ⟨fun h => ⟨h.succeeded, fun id hid => ?_⟩, fun ⟨hsucceeded, hclean⟩ => ?_⟩
    · rcases hinv.known id hid with rfl | ⟨item, hitem, rfl⟩
      · exact h.source
      · exact h.members item hitem
    · exact ⟨hclean _ hsettled.source, fun item hitem => hclean _ (hsettled.members item hitem),
        hsucceeded⟩
  have hnot : t.analysis.status ≠ .completed → t.analysis.status = .failed ∧ t.error ≠ [] ∧
      ¬ Accepted setup results t := by
    intro hstatus
    rcases hsettled.job with hjob | hjob
    · obtain ⟨hresult, hfailed, herror⟩ := hinv.summary.absent hjob hsettled.source
      exact ⟨hfailed, herror, fun h => hresult h.source⟩
    · cases hsucceeded : t.succeeded with
      | false =>
        obtain ⟨hfailed, herror⟩ := hinv.summary.ended hjob hsucceeded
        exact ⟨hfailed, herror, fun h => by cases hsucceeded.symm.trans h.succeeded⟩
      | true =>
        obtain ⟨hfailed, herror, bad, hbad, hresult⟩ := hinv.summary.overruled hsucceeded hstatus
        exact ⟨hfailed, herror, fun h => hresult ((haccepted.mp h).2 bad hbad)⟩
  refine ⟨fun h hstatus => (haccepted.mp (h.1.mp hstatus)).2, fun h => ⟨⟨?_, ?_⟩, ?_⟩⟩
  · exact fun hstatus => haccepted.mpr ⟨(hinv.summary.completed hstatus).1, h hstatus⟩
  · exact fun hall => by_contra fun hstatus => (hnot hstatus).2.2 hall
  · exact fun hstatus => ⟨(hnot hstatus).1, (hnot hstatus).2.1⟩

variable [DecidableEq Id]

/-- Items stay. -/
theorem items_subset_step (h : step setup results s e = some s') :
    s.analysis.items ⊆ s'.analysis.items := by
  have hscan : ∀ id, s.analysis.items ⊆ (scanSource setup results s id).analysis.items ∧
      s.analysis.items ⊆ (scanMember setup results s id).analysis.items := by
    intro id
    rw [scanSource, scanMember]
    rcases results id with _ | _ | _
    · exact ⟨List.Subset.refl _, List.Subset.refl _⟩
    · exact ⟨List.Subset.refl _, List.Subset.refl _⟩
    · dsimp only
      split_ifs
      all_goals exact ⟨List.Subset.refl _, List.Subset.refl _⟩
  cases e with
  | scan id =>
    rw [step] at h
    split_ifs at h
    · exact Option.some.inj h ▸ (hscan id).1
    · exact Option.some.inj h ▸ (hscan id).2
  | deliver =>
    rw [step, deliver] at h
    split_ifs at h
    · exact Option.some.inj h ▸ List.Subset.refl _
    · exact Option.some.inj h ▸ List.Subset.refl _
    · obtain rfl := Option.some.inj h
      dsimp only
      rw [items_deliver]
      exact List.Subset.refl _
  | next evidenceItemId message ending =>
    rw [step] at h
    split at h
    · obtain ⟨execution, -, h⟩ := Option.bind_eq_some_iff.mp h
      obtain ⟨analysis, hnext, rfl⟩ := Option.map_eq_some_iff.mp h
      have hitems := items_subset_next hnext
      rw [afterStep.eq_def]
      split
      · exact hitems
      · exact hitems
      · exact hitems
      · split_ifs
        · exact hitems
        · exact hitems
    · cases h
  | throw message ending =>
    rw [step] at h
    split at h
    · obtain ⟨execution, -, rfl⟩ := Option.map_eq_some_iff.mp h
      exact List.Subset.refl _
    · cases h
  | kill last =>
    rw [step] at h
    split at h
    · exact Option.some.inj h ▸ List.Subset.refl _
    · cases h
  | record reason =>
    rw [step] at h
    split_ifs at h
    obtain rfl := Option.some.inj h
    dsimp only
    split_ifs
    · exact List.Subset.refl _
    · exact List.Subset.refl _

/-- What is scanned is an item. -/
theorem known_of_scan {id : Id} (h : step setup results s (.scan id) = some s') :
    id = setup.sourceEvidenceItemId ∨ ∃ item ∈ s.analysis.items, item.id = id := by
  rw [step] at h
  split_ifs at h with _ hid hmem
  · exact .inl hid
  · exact .inr (List.mem_map.mp hmem)

theorem inv_step (henabled : setup.clamavEnabled = true) (hinv : Inv setup results s)
    (h : step setup results s e = some s') : Inv setup results s' := by
  have hmoves := moves_of_step henabled h
  have hitems := items_subset_step h
  refine ⟨hmoves.inv hinv.summary, fun id hid => ?_⟩
  have hbefore : id = setup.sourceEvidenceItemId ∨ ∃ item ∈ s.analysis.items, item.id = id := by
    rcases (hmoves.mem_scanned id).mp hid with hid | rfl
    · exact hinv.known id hid
    · exact known_of_scan h
  exact hbefore.imp_right fun ⟨item, hitem, heq⟩ => ⟨item, hitems hitem, heq⟩

theorem inv_of_run (henabled : setup.clamavEnabled = true) (hinv : Inv setup results s)
    (h : run (step setup results) s es = some t) : Inv setup results t :=
  run_induction (fun _ _ _ hs hstep => inv_step henabled hs hstep) hinv h

/-- What has been scanned after a run. -/
theorem mem_scanned_of_run (henabled : setup.clamavEnabled = true)
    (h : run (step setup results) s es = some t) (id : Id) :
    id ∈ t.scanned ↔ id ∈ s.scanned ∨ .scan id ∈ es := by
  induction es generalizing s with
  | nil =>
    cases h
    exact (or_iff_left List.not_mem_nil).symm
  | cons e es ih =>
    obtain ⟨s', hstep, h⟩ := run_cons.mp h
    have hfirst : id ∈ s'.scanned ↔ id ∈ s.scanned ∨ e = .scan id :=
      (moves_of_step henabled hstep).mem_scanned id
    rw [ih h, hfirst, or_assoc, List.mem_cons, @eq_comm _ e]

/-- Without scans that are not clean, what is completed stays so. -/
theorem completed_of_run (henabled : setup.clamavEnabled = true) (hinv : Inv setup results s)
    (hstatus : s.analysis.status = .completed)
    (hclean : ∀ id, .scan id ∈ es → results id = .clean)
    (h : run (step setup results) s es = some t) : t.analysis.status = .completed := by
  induction es generalizing s with
  | nil =>
    cases h
    exact hstatus
  | cons e es ih =>
    obtain ⟨s', hstep, h⟩ := run_cons.mp h
    refine ih (inv_step henabled hinv hstep) ?_ (fun id hid => hclean id (.tail e hid)) h
    exact (moves_of_step henabled hstep).stays_completed hinv.summary hstatus
      fun id he => hclean id (he ▸ List.mem_cons_self)

/-- **What is completed in the end** was completed by an analysis after which no scan was not
clean. -/
theorem exists_completes (henabled : setup.clamavEnabled = true)
    (hstart : s.analysis.status ≠ .completed) (h : run (step setup results) s es = some t)
    (hstatus : t.analysis.status = .completed) :
    ∃ before e after s', es = before ++ e :: after ∧ run (step setup results) s before = some s' ∧
      completes s' e = true ∧ ∀ id, .scan id ∈ after → results id = .clean := by
  induction es using List.reverseRecOn generalizing t with
  | nil =>
    cases h
    exact absurd hstatus hstart
  | append_singleton es last ih =>
    obtain ⟨u, hu, hlast⟩ := run_append.mp h
    obtain ⟨t', hstep, ht⟩ := run_cons.mp hlast
    obtain rfl := Option.some.inj ht
    rcases (moves_of_step henabled hstep).completed hstatus with hfinal | ⟨hbefore, hclean⟩
    · exact ⟨es, last, [], u, rfl, hu, hfinal, by rintro _ ⟨⟩⟩
    · obtain ⟨before, e, after, s', rfl, hs', he, hafter⟩ := ih hu hbefore
      refine ⟨before, e, after ++ [last], s', by simp, hs', he, fun id hid => ?_⟩
      rcases List.mem_append.mp hid with hid | hid
      · exact hafter id hid
      · exact hclean id (List.mem_singleton.mp hid).symm

/-- **The status of an import is right in the end** exactly if no scan is overruled, in whatever
order the steps of the analysis and the scans come. -/
theorem correct_iff_timely (henabled : setup.clamavEnabled = true) (hs : Initial s)
    (h : run (step setup results) s es = some t) (hsettled : Settled setup t) :
    Correct setup results t ↔ Timely setup results s es := by
  have hinv := inv_of_run henabled hs.inv h
  have hscanned := mem_scanned_of_run henabled h
  rw [hsettled.correct_iff hinv]
  refine ⟨fun hclean before e after s' hes hs' he ⟨bad, hbad, hresult⟩ => ?_, fun htimely => ?_⟩
  · by_contra hnone
    -- what the analysis has completed stays so
    subst hes
    obtain ⟨u, hu, hafter⟩ := run_append.mp h
    obtain rfl := Option.some.inj (hs'.symm.trans hu)
    obtain ⟨s'', hstep, hafter⟩ := run_cons.mp hafter
    have hinv' := inv_of_run henabled hs.inv hs'
    have hstatus : s''.analysis.status = .completed := by
      have hmoves := moves_of_step henabled hstep
      rw [he] at hmoves
      exact hmoves.status_of_final
    have hend := completed_of_run henabled (inv_step henabled hinv' hstep) hstatus
      (fun id hid => by_contra fun h => hnone ⟨id, hid, h⟩) hafter
    refine hresult (hclean hend bad ((hscanned bad).mpr (.inr ?_)))
    rcases (mem_scanned_of_run henabled hs' bad).mp hbad with hstart | hbefore
    · exact absurd (hs.scanned ▸ hstart) List.not_mem_nil
    · exact List.mem_append_left _ hbefore
  · intro hstatus bad hbad
    by_contra hresult
    obtain ⟨before, e, after, s', rfl, hs', he, hafter⟩ := exists_completes henabled
      (fun hcompleted => by cases hs.status.symm.trans hcompleted) h hstatus
    have hbefore : bad ∈ s'.scanned := by
      rcases (hscanned bad).mp hbad with hstart | hmem
      · exact (mem_scanned_of_run henabled hs' bad).mpr (.inl hstart)
      · rcases List.mem_append.mp hmem with hmem | hmem
        · exact (mem_scanned_of_run henabled hs' bad).mpr (.inr hmem)
        · rcases List.mem_cons.mp hmem with rfl | hmem
          · cases he
          · exact absurd (hafter bad hmem) hresult
    obtain ⟨other, hother, hresult'⟩ :=
      htimely before e after s' rfl hs' he ⟨bad, hbefore, hresult⟩
    exact hresult' (hafter other hother)

end Run

/-! ## A member that is overruled -/

/-- An import that was uploaded, with its source `0`. -/
def uploaded : System ℕ where
  analysis := { ImportAnalyze.uploadedImport with malwareStatus := .notScanned }
  error := []
  job := .absent
  succeeded := false
  scanned := []

theorem uploaded_initial : Initial uploaded := ⟨rfl, rfl, rfl, rfl⟩

/-- The member that is drawn the id `1` is infected. -/
def infectedMember (id : ℕ) : ScanResult := if id = 1 then .infected else .clean

/-- What is thrown, if anything. -/
def mismatch : Message := ⟨js "parser payload hash/size mismatch", by decide⟩

/-- The analysis takes some steps, and draws the id `1`. -/
def advances (n : ℕ) : List (Event ℕ) := List.replicate n (.next 1 mismatch .unrecoverable)

/-- The member is scanned when the analysis has come through. -/
def scannedAfter : List (Event ℕ) := [.scan 0, .deliver] ++ advances 7 ++ [.scan 1]

/-- The member is scanned while the rest is unpacked. -/
def scannedBefore : List (Event ℕ) := [.scan 0, .deliver] ++ advances 4 ++ [.scan 1] ++ advances 3

/-- Of an import that is scanned late. -/
theorem correct_iff_timely_scannedAfter : ∃ t,
    run (step ImportAnalyze.plainTar infectedMember) uploaded scannedAfter = some t ∧
    (Correct ImportAnalyze.plainTar infectedMember t ↔
      Timely ImportAnalyze.plainTar infectedMember uploaded scannedAfter) := by
  obtain ⟨t, hrun, hsettled⟩ : ∃ t,
      run (step ImportAnalyze.plainTar infectedMember) uploaded scannedAfter = some t ∧
        Settled ImportAnalyze.plainTar t :=
    ⟨_, rfl, by decide, by decide, .inr rfl⟩
  exact ⟨t, hrun, correct_iff_timely rfl uploaded_initial hrun hsettled⟩

/-- **An import with an infected member can be `completed`.** -/
theorem not_correct : ¬ ∀ (setup : ImportAnalyze.Setup ℕ) (results : ℕ → ScanResult)
    (s : System ℕ), setup.clamavEnabled = true → Initial s → ∀ (es : List (Event ℕ)) (t : System ℕ),
      run (step setup results) s es = some t → Settled setup t → Correct setup results t := by
  intro h
  obtain ⟨t, hrun, hsettled, hcompleted, item, hitem, hid⟩ : ∃ t,
      run (step ImportAnalyze.plainTar infectedMember) uploaded scannedBefore = some t ∧
        Settled ImportAnalyze.plainTar t ∧ t.analysis.status = .completed ∧
          ∃ item ∈ t.analysis.items, item.id = 1 :=
    ⟨_, rfl, ⟨by decide, by decide, .inr rfl⟩, rfl, _, .head _, rfl⟩
  have hcorrect := h _ _ _ rfl uploaded_initial _ t hrun hsettled
  have hclean := (hcorrect.1.mp hcompleted).members item hitem
  rw [hid] at hclean
  cases hclean

end AegCloudDfir.Processing.ImportScan
