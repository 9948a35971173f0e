import Mathlib.Algebra.Order.Floor.Ring
import Mathlib.Data.Rat.Floor
import AegCloudDfir.Search.Validate

/-!
# Requests to providers

`providerFetch` (`packages/connectors/src/http.ts`) sends a request until it has an answer to give
back: a 401 once has the token renewed, 429, 500, 502, 503, 504 and failures of the transport are
waited out as long as there are attempts left. The answers, the clock, the random numbers and the
token provider are parameters. What the function does besides is a list of events.

* `providerFetch` — the loop, which ends whatever the answers are.
* `Announced` — the observer is called before every wait that is due to 429 or 503, and only then.
* `providerFetch_bounded` — how often it asks, what it returns, and what it announces.
-/

namespace AegCloudDfir.Connectors.ProviderFetch

open Search (trim)

/-! ## Policies -/

/-- `RetryPolicy` -/
structure RetryPolicy where
  maxAttempts : ℕ
  baseMs : ℕ
  capMs : ℕ

/-- `DEFAULT_RETRY_POLICY` -/
def defaultRetryPolicy : RetryPolicy := ⟨5, 500, 30000⟩

/-- `Partial<RetryPolicy>` -/
structure PartialPolicy where
  maxAttempts : Option ℕ
  baseMs : Option ℕ
  capMs : Option ℕ

/-- `{ ...DEFAULT_RETRY_POLICY, ...opts.retry }` -/
def PartialPolicy.policy (retry : PartialPolicy) : RetryPolicy where
  maxAttempts := retry.maxAttempts.getD defaultRetryPolicy.maxAttempts
  baseMs := retry.baseMs.getD defaultRetryPolicy.baseMs
  capMs := retry.capMs.getD defaultRetryPolicy.capMs

/-! ## Requests and answers -/

/-- A response, with the headers that are read. -/
structure Response where
  status : ℕ
  retryAfter : Option JsString
  requestId : Option JsString

/-- What becomes of a request. -/
inductive Outcome : Type where
  | response (response : Response)
  /-- a failure of the transport, or the time was up -/
  | failure (timedOut : Bool)

/-- The errors that are thrown. -/
inductive Failure : Type where
  /-- `ProviderAuthError` -/
  | auth (message : JsString) (status : ℕ)
  /-- `ProviderThrottledError` -/
  | throttled (message : JsString) (retryAfterMs : Option ℤ)
  /-- `ProviderApiError` -/
  | api (message : JsString) (status : ℕ) (requestId : Option JsString)
  /-- what `getAccessToken` rejects with -/
  | token (reason : JsString)

/-- What a call is about: `safeUrl` is `sanitizeUrl(url)`, and `method` is `init.method ?? 'GET'`. -/
structure Request where
  method : JsString
  safeUrl : JsString
  timeoutMs : ℕ
  retry : PartialPolicy

/-- What the function cannot know: the outcome of each request, the token it is sent with, the time
of its answer and the random number drawn then. -/
structure World where
  outcome : ℕ → Outcome
  token : ℕ → Except JsString JsString
  now : ℕ → ℤ
  random : ℕ → ℚ
  /-- `Date.parse`; `none` is `NaN` -/
  dateParse : JsString → Option ℤ

/-- The argument of `onRateLimit`. -/
structure Notice where
  waitMs : ℤ
  /-- `reason` is `retry-after`, not `backoff` -/
  retryAfter : Bool
  attempt : ℕ

/-- What is done, in this order. -/
inductive Event : Type where
  | request (token : JsString)
  | invalidate
  /-- `onRateLimit?.(notice)` -/
  | rateLimit (notice : Notice)
  /-- `sleep(waitMs)`, because of this outcome -/
  | sleep (waitMs : ℤ) (cause : Outcome)

/-! ## The loop -/

/-- `parseRetryAfterMs` -/
def parseRetryAfterMs (dateParse : JsString → Option ℤ) (value : Option JsString) (now : ℤ) :
    Option ℤ :=
  value.bind fun value =>
    let trimmed := trim value
    if trimmed = [] then none
    else if trimmed.all fun c => IsDigit c then some (parseDecimal trimmed * 1000)
    else (dateParse trimmed).map fun date => max 0 (date - now)

/-- `RETRYABLE_STATUS` -/
def retryableStatus : List ℕ := [429, 500, 502, 503, 504]

/-- `throttled` -/
def isThrottled (status : ℕ) : Bool := status = 429 ∨ status = 503

/-- Whether a wait that is due to this outcome is announced. -/
def Outcome.isThrottled : Outcome → Bool
  | .response r => ProviderFetch.isThrottled r.status
  | .failure _ => false

/-- `Math.round(random() * Math.min(capMs, baseMs * 2 ** (attempt - 1)))` -/
def backoffMs (policy : RetryPolicy) (attempt : ℕ) (random : ℚ) : ℤ :=
  ⌊random * min (policy.capMs : ℚ) (policy.baseMs * 2 ^ (attempt - 1)) + 1 / 2⌋

/-- What follows on an outcome. -/
inductive Next : Type where
  | stop (result : Except Failure Response)
  | reauthenticate
  | wait (notice : Option Notice) (waitMs : ℤ)

section Loop

variable (request : Request) (world : World)

/-- ` for ${method} ${safeUrl}` -/
def target : JsString := js " for " ++ request.method ++ js " " ++ request.safeUrl

/-- What follows on the outcome of the request number `i`. -/
def judge (attempt : ℕ) (authRetried : Bool) (i : ℕ) : Next :=
  let policy := request.retry.policy
  match world.outcome i with
  | .response response =>
    if response.status = 401 then
      if authRetried then
        .stop (.error (.auth
          (js "unauthorized (401) after token refresh" ++ target request) 401))
      else .reauthenticate
    else if response.status ∉ retryableStatus then .stop (.ok response)
    else if policy.maxAttempts ≤ attempt then
      let message := js "provider returned " ++ decimal response.status ++ js " after " ++
        decimal attempt ++ js " attempts" ++ target request
      if response.status = 429 then
        .stop (.error (.throttled message
          (parseRetryAfterMs world.dateParse response.retryAfter (world.now i))))
      else .stop (.error (.api message response.status response.requestId))
    else
      let retryAfterMs :=
        if isThrottled response.status then
          parseRetryAfterMs world.dateParse response.retryAfter (world.now i)
        else none
      let waitMs := retryAfterMs.getD (backoffMs policy attempt (world.random i))
      .wait
        (if isThrottled response.status then some ⟨waitMs, retryAfterMs.isSome, attempt⟩ else none)
        waitMs
  | .failure timedOut =>
    if policy.maxAttempts ≤ attempt then
      let reason :=
        if timedOut then js "request timed out after " ++ decimal request.timeoutMs ++ js "ms"
        else js "network error during request"
      .stop (.error (.api
        (reason ++ js " after " ++ decimal attempt ++ js " attempts" ++ target request) 0 none))
    else .wait none (backoffMs policy attempt (world.random i))

variable {request world}

theorem judge_reauthenticate {attempt i : ℕ} {authRetried : Bool}
    (h : judge request world attempt authRetried i = .reauthenticate) : authRetried = false := by
  rw [judge] at h
  dsimp only at h
  split at h
  · split_ifs at h with hauth hretried
    exact Bool.eq_false_iff.mpr hretried
  · split_ifs at h

/-- There is a wait only while attempts are left, and it is announced if it is due to 429 or 503. -/
theorem judge_wait {attempt i : ℕ} {authRetried : Bool} {notice : Option Notice} {waitMs : ℤ}
    (h : judge request world attempt authRetried i = .wait notice waitMs) :
    attempt < request.retry.policy.maxAttempts ∧
      notice.isSome = (world.outcome i).isThrottled := by
  rw [judge] at h
  dsimp only at h
  rcases houtcome : world.outcome i with response | timedOut
  · rw [houtcome] at h
    dsimp only at h
    rw [Outcome.isThrottled]
    split_ifs at h with hauth hretried hretryable hattempts hmany hthrottled
    · cases h
      exact ⟨not_le.mp hattempts, hthrottled.symm⟩
    · cases h
      exact ⟨not_le.mp hattempts, (Bool.eq_false_iff.mpr hthrottled).symm⟩
  · rw [houtcome] at h
    dsimp only at h
    split_ifs at h with hattempts
    cases h
    exact ⟨not_le.mp hattempts, rfl⟩

theorem judge_stop {attempt i : ℕ} {authRetried : Bool} {response : Response}
    (h : judge request world attempt authRetried i = .stop (.ok response)) :
    world.outcome i = .response response ∧ response.status ≠ 401 ∧
      response.status ∉ retryableStatus := by
  rw [judge] at h
  dsimp only at h
  rcases houtcome : world.outcome i with other | timedOut
  · rw [houtcome] at h
    dsimp only at h
    split_ifs at h with hauth hretried hretryable hattempts hmany <;> cases h
    exact ⟨rfl, hauth, hretryable⟩
  · rw [houtcome] at h
    dsimp only at h
    split_ifs at h with hattempts htimedOut
    · cases h
    · cases h

variable (request world)

/-- The `while` loop, after `attempt` attempts and `i` requests. -/
def loop (attempt : ℕ) (authRetried : Bool) (i : ℕ) : Except Failure Response × List Event :=
  match world.token i with
  | .error reason => (.error (.token reason), [])
  | .ok token =>
    match hnext : judge request world (attempt + 1) authRetried i with
    | .stop result => (result, [.request token])
    | .reauthenticate =>
      let rest := loop attempt true (i + 1)
      (rest.1, .request token :: .invalidate :: rest.2)
    | .wait notice waitMs =>
      let rest := loop (attempt + 1) authRetried (i + 1)
      (rest.1, .request token ::
        (notice.map Event.rateLimit).toList ++ .sleep waitMs (world.outcome i) :: rest.2)
termination_by (request.retry.policy.maxAttempts - attempt, if authRetried then 0 else 1)
decreasing_by
  · rw [judge_reauthenticate hnext]
    exact Prod.Lex.right _ Nat.one_pos
  · have hattempt := (judge_wait hnext).1
    exact Prod.Lex.left _ _ (by omega)

/-- `providerFetch` -/
def providerFetch : Except Failure Response × List Event := loop request world 0 false 0

end Loop

/-! ## What it does -/

/-- How many requests are sent. -/
def requests (events : List Event) : ℕ :=
  events.countP fun
    | .request _ => true
    | _ => false

/-- How often the token is invalidated. -/
def invalidations (events : List Event) : ℕ :=
  events.countP fun
    | .invalidate => true
    | _ => false

/-- Every wait that is due to 429 or 503 follows on one call of the observer, and nothing else
does. -/
def Announced : List Event → Prop
  | [] => True
  | .rateLimit _ :: .sleep _ cause :: rest => cause.isThrottled ∧ Announced rest
  | .rateLimit _ :: _ => False
  | .sleep _ cause :: rest => cause.isThrottled = false ∧ Announced rest
  | .request _ :: rest => Announced rest
  | .invalidate :: rest => Announced rest

/-- What is asked for: so many requests, one new token, the answer to the last request if it is one
to give back, and all announcements. -/
structure Bounded (world : World) (i requestsLeft tokensLeft : ℕ)
    (run : Except Failure Response × List Event) : Prop where
  requests : requests run.2 ≤ requestsLeft
  invalidations : invalidations run.2 ≤ tokensLeft
  returned : ∀ response, run.1 = .ok response → 0 < ProviderFetch.requests run.2 ∧
    world.outcome (i + ProviderFetch.requests run.2 - 1) = .response response ∧
      response.status ≠ 401 ∧ response.status ∉ retryableStatus
  announced : Announced run.2

section Facts

variable {request : Request} {world : World}

/-- A request that is asked again has one request more, and what comes before the next. -/
theorem Bounded.cons {i requestsLeft tokensLeft tokensLeft' : ℕ} {token : JsString}
    {before : List Event} {rest : Except Failure Response × List Event}
    (h : Bounded world (i + 1) requestsLeft tokensLeft' rest)
    (hrequests : ProviderFetch.requests before = 0)
    (htokens : ProviderFetch.invalidations before + tokensLeft' ≤ tokensLeft)
    (hannounced : Announced rest.2 → Announced (before ++ rest.2)) :
    Bounded world i (requestsLeft + 1) tokensLeft (rest.1, .request token :: before ++ rest.2) := by
  have hcount : ProviderFetch.requests (.request token :: before ++ rest.2) =
      ProviderFetch.requests rest.2 + 1 := by
    rw [ProviderFetch.requests, List.cons_append, List.countP_cons, List.countP_append]
    rw [ProviderFetch.requests] at hrequests
    simp only [hrequests, if_true, ProviderFetch.requests]
    omega
  refine ⟨?_, ?_, ?_, hannounced h.announced⟩
  · rw [hcount]
    exact Nat.succ_le_succ h.requests
  · have hrest := h.invalidations
    rw [ProviderFetch.invalidations] at hrest htokens ⊢
    simp only [List.cons_append, List.countP_cons, List.countP_append]
    simp only [Bool.false_eq_true, if_false]
    omega
  · intro response hresponse
    obtain ⟨hpos, hlast, hstatus⟩ := h.returned response hresponse
    rw [hcount]
    refine ⟨Nat.succ_pos _, ?_, hstatus⟩
    rw [← hlast]
    congr 1
    omega

/-- What the loop does with the attempts and the token it has left, by induction on them. -/
theorem bounded_loop {attempt i : ℕ} {authRetried : Bool}
    (hattempt : attempt < request.retry.policy.maxAttempts) :
    Bounded world i
      (request.retry.policy.maxAttempts - attempt + if authRetried then 0 else 1)
      (if authRetried then 0 else 1) (loop request world attempt authRetried i) := by
  fun_induction loop request world attempt authRetried i with
  | case1 attempt authRetried i reason htoken =>
    exact ⟨Nat.zero_le _, Nat.zero_le _, fun _ h => (nomatch h), trivial⟩
  | case2 attempt authRetried i token htoken result hnext =>
    refine ⟨?_, Nat.zero_le _, ?_, trivial⟩
    · have hone : requests [Event.request token] = 1 := rfl
      rw [hone]
      omega
    · rintro response rfl
      exact ⟨Nat.one_pos, judge_stop hnext⟩
  | case3 attempt authRetried i token htoken hnext rest ih =>
    have hfresh := judge_reauthenticate hnext
    subst hfresh
    have hbefore : requests [Event.invalidate] = 0 := rfl
    exact (ih hattempt).cons hbefore (le_refl _) fun h => h
  | case4 attempt authRetried i token htoken notice waitMs hnext rest ih =>
    obtain ⟨hleft, hnotice⟩ := judge_wait hnext
    have hsplit : request.retry.policy.maxAttempts - attempt =
        request.retry.policy.maxAttempts - (attempt + 1) + 1 := by omega
    rw [hsplit, Nat.add_right_comm]
    have hbefore : (notice.map Event.rateLimit).toList ++ .sleep waitMs (world.outcome i) ::
        rest.2 = ((notice.map Event.rateLimit).toList ++ [.sleep waitMs (world.outcome i)]) ++
          rest.2 := by simp
    rw [List.cons_append, hbefore]
    refine Bounded.cons (ih hleft) ?_ ?_ ?_
    · cases notice <;> rfl
    · cases notice <;> simp [invalidations]
    · intro h
      cases notice with
      | none | some notice => exact ⟨hnotice.symm, h⟩

end Facts

/-- **Requests are bounded and honest**: at most one request more than there are attempts, at most
one new token, no response that is to be retried, and an announcement of every wait that is due to
throttling and of no other. -/
theorem providerFetch_bounded (request : Request) (world : World)
    (h : 1 ≤ request.retry.policy.maxAttempts) :
    Bounded world 0 (request.retry.policy.maxAttempts + 1) 1 (providerFetch request world) := by
  have hrun := @bounded_loop request world 0 0 false h
  rw [Nat.sub_zero] at hrun
  exact hrun

/-- Two attempts. -/
def mailboxRequest : Request where
  method := js "GET"
  safeUrl := js "https://api.example"
  timeoutMs := 60000
  retry := ⟨some 2, none, none⟩

/-- A token that has expired, a throttled request, and an answer. -/
def busyWorld : World where
  outcome i := .response ⟨if i = 0 then 401 else if i = 1 then 429 else 200, some (js "7"), none⟩
  token _ := .ok (js "token")
  now _ := 0
  random _ := 0
  dateParse _ := none

theorem bounded_busyWorld : Bounded busyWorld 0 3 1 (providerFetch mailboxRequest busyWorld) :=
  providerFetch_bounded mailboxRequest busyWorld (by decide)

end AegCloudDfir.Connectors.ProviderFetch
