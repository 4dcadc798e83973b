import MyTeam.Llm.Parsing

/-!
# Requests that are made again

A request is streamed until its response is complete; if it is refused for the moment, or the
connection breaks before anything was passed on, it is made again, up to a number of times. The
transport is a sequence of exchanges of which nothing is assumed: each may fail, answer with any
status and any lines, and break off anywhere. It is closed without a further exception.
-/

namespace MyTeam.Llm

open MyTeam.Py MyTeam.Async

/-- What the transport raises: an `httpx.HTTPError`, by its text, or another exception. -/
inductive Failure
  | network (message : String)
  | raised (error : Exc)

/-- A line of a response, and whether the signal is cancelled when it has come. -/
structure Line where
  text : String
  cancelled : Bool := false

/-- A response: its status, the header that names its provider, its body for an error, its lines and how they end, and
what the observer of its headers raises, by text and class. -/
structure Response where
  status : ℤ
  providerHeader : Option String := none
  body : Except Failure String := .ok ""
  lines : List Line := []
  ending : Except Failure Unit := .ok ()
  observerError : Option (String × String) := none

/-- An exchange: the request fails or is answered. -/
inductive Exchange
  | failed (failure : Failure)
  | answered (response : Response)

/-- The request and its transport: the exchange of every attempt, and whether the wait after it was not cancelled. -/
structure Request where
  model : String
  maxRetries : ℤ
  exchange : ℕ → Exchange
  waits : ℕ → Bool
  errorMessage : ℤ → String → String

/-- What becomes of an attempt. -/
inductive Verdict
  | finished | again
deriving DecidableEq

/-- `_is_transient_status`. -/
def isTransientStatus (status : ℤ) : Bool := status ∈ [(408 : ℤ), 409, 425, 429] ∨ 500 ≤ status

/-- `_response_header_value`, for the header that is configured. -/
def responseHeaderValue (value : Option String) : Option String :=
  value.bind fun value => if strip value.toList = [] then none else some (.ofList (strip value.toList))

/-- `_append_response_observer_diagnostic`. -/
def appendObserverDiagnostic (error : String × String) : List ProviderEvent → List ProviderEvent
  | [] => []
  | .responseEnd message reason :: rest =>
    let details := [("error", Value.str error.1), ("error_type", .str error.2)]
    .responseEnd
      { message with
        diagnostics := some (message.diagnostics.getD [] ++ [⟨"response_headers_observer_error", some details⟩]) }
          reason :: rest
  | event :: rest => event :: appendObserverDiagnostic error rest

namespace Request

variable {π : Type} (request : Request) (parser : StreamParser π)

/-- `_should_retry`. -/
def shouldRetry (attempt : ℕ) (status : Option ℤ) : Bool :=
  if request.maxRetries ≤ attempt then false else status.all isTransientStatus

/-- The loop over the lines; nothing is returned if the signal is cancelled. What is raised comes with the parser. -/
def readLines (ending : Except Failure Unit) : π → List Line → Gen (Failure × π) ProviderEvent (Option π)
  | p, [] =>
    match ending with
    | .ok () => pure (some p)
    | .error failure => .raise (failure, p)
  | p, line :: rest =>
    if line.cancelled then pure none
    else
      match parseSseLine line.text with
      | none => readLines ending p rest
      | some event =>
        match parser.feed p event with
        | .error error => .raise (.raised error, p)
        | .ok (next, events, stop) => do
          .emitAll events
          if stop then pure (some next) else readLines ending next rest

/-- The end of a response whose lines were read. -/
def conclude (observerError : Option (String × String)) (p : π) : Gen (Failure × π) ProviderEvent Verdict :=
  if parser.fatal p then pure .finished
  else
    match parser.finalize p with
    | .error error => .raise (.raised error, p)
    | .ok events => do
      .emitAll (observerError.elim events fun error => appendObserverDiagnostic error events)
      pure .finished

/-- A response that refuses the request. -/
def refuse (fresh : π) (attempt : ℕ) (response : Response) : Gen (Failure × π) ProviderEvent Verdict :=
  match response.body with
  | .error failure => .raise (failure, fresh)
  | .ok body =>
    if request.shouldRetry attempt (some response.status) then do
      .emit (.retry (attempt + 2) (request.maxRetries + 1))
      pure .again
    else do
      .emit (.error (request.errorMessage response.status body)
        (some [("status_code", .int response.status), ("body", .str body), ("attempts", .int (attempt + 1))])
        (responseHeaderValue response.providerHeader))
      pure .finished

/-- The body of `try`, for an exchange. -/
def exchangeOnce (attempt : ℕ) : Exchange → Gen (Failure × π) ProviderEvent Verdict
  | .failed failure => .raise (failure, parser.fresh)
  | .answered response =>
    if 400 ≤ response.status then request.refuse parser.fresh attempt response
    else do
      .emit (.responseStart request.model (responseHeaderValue response.providerHeader))
      match ← readLines parser response.ending parser.fresh response.lines with
      | none => pure .finished
      | some p => conclude parser response.observerError p

/-- The `except` clause of an attempt. -/
def guarded (emitted : π → Bool) (attempt : ℕ) (tried : Gen (Failure × π) ProviderEvent Verdict) :
    Gen Exc ProviderEvent Verdict :=
  match tried.result with
  | .ok verdict => ⟨tried.yielded, .ok verdict⟩
  | .error (.raised error, _) => ⟨tried.yielded, .error error⟩
  | .error (.network message, p) =>
    if !emitted p && request.shouldRetry attempt none then
      ⟨tried.yielded ++ [.retry (attempt + 2) (request.maxRetries + 1)], .ok .again⟩
    else ⟨tried.yielded ++ [.error message (some [("attempts", .int (attempt + 1))])], .ok .finished⟩

/-- An attempt. -/
def attemptOnce (attempt : ℕ) : Gen Exc ProviderEvent Verdict :=
  request.guarded parser.emittedContent attempt (request.exchangeOnce parser attempt (request.exchange attempt))

/-- A request is made again only if there are retries left. -/
theorem lt_of_shouldRetry {attempt : ℕ} {status : Option ℤ} (h : request.shouldRetry attempt status = true) :
    (attempt : ℤ) < request.maxRetries := by
  unfold shouldRetry at h
  split_ifs at h with hmax
  omega

/-- A request that was answered is made again only if it was refused for the moment. -/
theorem lt_of_exchange_again {attempt : ℕ} {exchange : Exchange}
    (h : (request.exchangeOnce parser attempt exchange).result = .ok .again) : (attempt : ℤ) < request.maxRetries := by
  cases exchange with
  | failed failure => cases h
  | answered response =>
    unfold exchangeOnce at h
    dsimp only at h
    split_ifs at h
    · unfold refuse at h
      cases hbody : response.body with
      | error failure => simp [hbody] at h
      | ok body =>
        by_cases hretry : request.shouldRetry attempt (some response.status) = true
        · exact lt_of_shouldRetry request hretry
        · simp [hbody, hretry] at h
    · simp only [Gen.emit_eq, Gen.ok_bind] at h
      cases hread : readLines parser response.ending parser.fresh response.lines with
      | mk yielded result =>
        rw [hread] at h
        rcases result with failure | (_ | p)
        · cases h
        · cases h
        · simp only [Gen.ok_bind, conclude] at h
          split_ifs at h
          · cases h
          · cases hfinal : parser.finalize p <;> simp [hfinal] at h

/-- What follows the `except` clause does so only if there are retries left. -/
theorem lt_of_guarded_again {emitted : π → Bool} {attempt : ℕ} {tried : Gen (Failure × π) ProviderEvent Verdict}
    (htried : tried.result = .ok .again → (attempt : ℤ) < request.maxRetries)
    (h : (request.guarded emitted attempt tried).result = .ok .again) : (attempt : ℤ) < request.maxRetries := by
  unfold guarded at h
  cases hresult : tried.result with
  | ok verdict =>
    simp only [hresult, Except.ok.injEq] at h
    exact htried (hresult.trans (congrArg _ h))
  | error error =>
    obtain ⟨failure, p⟩ := error
    cases failure with
    | raised error => simp [hresult] at h
    | network message =>
      simp only [hresult] at h
      split_ifs at h with hretry
      · exact lt_of_shouldRetry request (Bool.and_eq_true_iff.mp hretry).2
      · cases h

/-- An attempt is followed by another only if there are retries left. -/
theorem lt_of_again {attempt : ℕ} (h : (request.attemptOnce parser attempt).result = .ok .again) :
    (attempt : ℤ) < request.maxRetries := lt_of_guarded_again request (lt_of_exchange_again request parser) h

/-- The loop over the attempts, from one on. -/
def attempts (once : ℕ → Gen Exc ProviderEvent Verdict)
    (bounded : ∀ attempt : ℕ, (once attempt).result = .ok .again → (attempt : ℤ) < request.maxRetries) (attempt : ℕ) :
    Gen Exc ProviderEvent Unit :=
  let tried := once attempt
  match h : tried.result with
  | .error error => ⟨tried.yielded, .error error⟩
  | .ok .finished => ⟨tried.yielded, .ok ()⟩
  | .ok .again =>
    if request.waits attempt then
      have := bounded attempt h
      let rest := attempts once bounded (attempt + 1)
      ⟨tried.yielded ++ rest.yielded, rest.result⟩
    else ⟨tried.yielded, .ok ()⟩
termination_by request.maxRetries.toNat - attempt

/-- `_stream`. -/
def stream : Gen Exc ProviderEvent Unit :=
  request.attempts (request.attemptOnce parser) (fun _ => request.lt_of_again parser) 0

variable {request : Request} {parser : StreamParser π} {said : π → Gist} {sane : π → Prop} {attempt : ℕ}

/-- Text and thinking alone. -/
def Deltas (events : List ProviderEvent) : Prop := ∀ e ∈ events, ∃ channel delta, e = .delta channel delta

/-- What the lines of a response yield from a parser on: deltas, of which the parser knows, and an error if it fails. -/
inductive Read (parser : StreamParser π) (said : π → Gist) (sane : π → Prop) (p : π) :
    Gen (Failure × π) ProviderEvent (Option π) → Prop
  | cancelled {events} : Deltas events → Read parser said sane p ⟨events, .ok none⟩
  | complete {events next} : Deltas events → parser.fatal next = false → sane next →
      said next = events.foldl Gist.add (said p) → Read parser said sane p ⟨events, .ok (some next)⟩
  | failed {events message data next} : Deltas events → parser.fatal next = true →
      Read parser said sane p ⟨events ++ [.error message data], .ok (some next)⟩
  | broken {events failure next} : Deltas events →
      (parser.emittedContent next = false → parser.emittedContent p = false ∧ events = []) →
      Read parser said sane p ⟨events, .error (failure, next)⟩

/-- Deltas before deltas. -/
theorem Deltas.append {events more : List ProviderEvent} (h : Deltas events) (h' : Deltas more) :
    Deltas (events ++ more) := by
  intro e he
  rcases List.mem_append.mp he with hfirst | hsecond
  · exact h e hfirst
  · exact h' e hsecond

/-- What comes after a line. -/
theorem Read.after {p next : π} {events : List ProviderEvent} {rest : Gen (Failure × π) ProviderEvent (Option π)}
    (hrest : Read parser said sane next rest) (hdeltas : Deltas events)
    (hsaid : said next = events.foldl Gist.add (said p))
    (hemitted : parser.emittedContent next = false → parser.emittedContent p = false ∧ events = []) :
    Read parser said sane p ⟨events ++ rest.yielded, rest.result⟩ := by
  cases hrest with
  | cancelled h => exact .cancelled (hdeltas.append h)
  | complete h hfatal hsane hnext =>
    refine .complete (hdeltas.append h) hfatal hsane ?_
    rw [hnext, hsaid, List.foldl_append]
  | failed h hfatal =>
    rw [← List.append_assoc]
    exact .failed (hdeltas.append h) hfatal
  | broken h hnext =>
    refine .broken (hdeltas.append h) fun hnot => ?_
    obtain ⟨hbefore, hnil⟩ := hnext hnot
    obtain ⟨hstart, hfirst⟩ := hemitted hbefore
    exact ⟨hstart, by rw [hfirst, hnil, List.append_nil]⟩

/-- The lines of a response. -/
theorem read_lines (lawful : parser.Lawful said sane) (ending : Except Failure Unit) (lines : List Line) {p : π}
    (h : sane p)
    (hfatal : parser.fatal p = false) : Read parser said sane p (readLines parser ending p lines) := by
  have hnone : Deltas [] := fun e he => by cases he
  induction lines generalizing p with
  | nil =>
    unfold readLines
    cases ending with
    | ok => exact .complete hnone hfatal h rfl
    | error failure => exact .broken hnone fun hnot => ⟨hnot, rfl⟩
  | cons line rest ih =>
    unfold readLines
    split_ifs with hcancelled
    · exact .cancelled hnone
    cases hline : parseSseLine line.text with
    | none => exact ih h hfatal
    | some event =>
      dsimp only
      cases hfeed : parser.feed p event with
      | error error => exact .broken hnone fun hnot => ⟨hnot, rfl⟩
      | ok fed =>
        obtain ⟨next, events, stop⟩ := fed
        dsimp only
        rw [Gen.emitAll_eq, Gen.ok_bind]
        cases hnext : parser.fatal next with
        | true =>
          obtain ⟨rfl, message, data, rfl⟩ := lawful.feed_fatal h hfeed hnext
          exact .failed hnone hnext
        | false =>
          have hdeltas := lawful.feed_deltas h hfeed hnext
          have hsaid := lawful.feed_said h hfeed hnext
          have hsane := lawful.feed_sane h hfeed hnext
          have hemitted := lawful.feed_emitted h hfeed hnext
          cases stop with
          | true =>
            have hstop : Read parser said sane next ⟨[], .ok (some next)⟩ := .complete hnone hnext hsane rfl
            exact hstop.after hdeltas hsaid hemitted
          | false => exact (ih hsane hnext).after hdeltas hsaid hemitted

/-- Starts of responses alone. -/
def Starts (events : List ProviderEvent) : Prop := ∀ e ∈ events, ∃ model provider, e = .responseStart model provider

/-- The end of a response that has said something: it breaks off, an error, or tool calls and a message that says all of
it. -/
inductive Ends (gist : Gist) : List ProviderEvent → Prop
  | nothing : Ends gist []
  | error {message data provider} : Ends gist [.error message data provider]
  | response {toolCalls message reason} : Gist.of message.content = { gist with toolCalls := toolCalls } →
      Ends gist (toolCalls.map .toolCall ++ [.responseEnd message reason])

/-- What the last attempt yields. -/
def Delivered (events : List ProviderEvent) : Prop :=
  ∃ starts deltas last, events = starts ++ (deltas ++ last) ∧ Starts starts ∧ Deltas deltas ∧ Ends (gistOf deltas) last

/-- What the body of `try` yields, and how it comes to its end. -/
inductive Tried (request : Request) (emitted : π → Bool) (attempt : ℕ) : Gen (Failure × π) ProviderEvent Verdict → Prop
  | finished {events} : Delivered events → Tried request emitted attempt ⟨events, .ok .finished⟩
  | again {starts} : Starts starts → (attempt : ℤ) < request.maxRetries →
      Tried request emitted attempt ⟨starts ++ [.retry (attempt + 2) (request.maxRetries + 1)], .ok .again⟩
  | broken {starts deltas failure p} : Starts starts → Deltas deltas →
      (∀ message, failure = .network message → emitted p = false → deltas = []) →
      Tried request emitted attempt ⟨starts ++ deltas, .error (failure, p)⟩

/-- What an attempt yields: all there will be, or a retry that comes before anything was said. -/
inductive Attempted (request : Request) (attempt : ℕ) : Gen Exc ProviderEvent Verdict → Prop
  | last {events result} : Delivered events → result ≠ .ok .again → Attempted request attempt ⟨events, result⟩
  | again {starts} : Starts starts → (attempt : ℤ) < request.maxRetries →
      Attempted request attempt ⟨starts ++ [.retry (attempt + 2) (request.maxRetries + 1)], .ok .again⟩

/-- What a request yields from an attempt on: retries with consecutive numbers, and then one response. -/
inductive Streamed (request : Request) : ℕ → List ProviderEvent → Prop
  | last {attempt : ℕ} {events} : Delivered events → Streamed request attempt events
  | again {attempt : ℕ} {starts rest} : Starts starts → (attempt : ℤ) < request.maxRetries →
      Streamed request (attempt + 1) rest →
      Streamed request attempt (starts ++ .retry (attempt + 2) (request.maxRetries + 1) :: rest)

/-- Nothing is delivered. -/
theorem delivered_nil : Delivered [] :=
  ⟨[], [], [], rfl, (fun e he => by cases he), (fun e he => by cases he), .nothing⟩

/-- An observer that raises is noted in the message, which says the same. -/
theorem append_diagnostic (error : String × String) (toolCalls : List ToolCall) (message : AssistantMessage)
    (reason : Option String) : ∃ message', message'.content = message.content ∧
      appendObserverDiagnostic error (toolCalls.map .toolCall ++ [.responseEnd message reason]) =
        toolCalls.map .toolCall ++ [.responseEnd message' reason] := by
  induction toolCalls with
  | nil =>
    let noted : Diagnostic := ⟨"response_headers_observer_error",
      some [("error", .str error.1), ("error_type", .str error.2)]⟩
    exact ⟨{ message with diagnostics := some (message.diagnostics.getD [] ++ [noted]) }, rfl, rfl⟩
  | cons toolCall rest ih =>
    obtain ⟨message', hcontent, heq⟩ := ih
    exact ⟨message', hcontent, congrArg (List.cons _) heq⟩

variable (request) in
/-- An answer that refuses the request. -/
theorem tried_refuse {emitted : π → Bool} {fresh : π} {response : Response} :
    Tried request emitted attempt (request.refuse fresh attempt response) := by
  have hnone : Deltas [] := fun e he => by cases he
  have hstarts : Starts [] := fun e he => by cases he
  unfold refuse
  cases response.body with
  | error failure => exact .broken hstarts hnone fun _ _ _ => rfl
  | ok body =>
    dsimp only
    split_ifs with hretry
    · exact .again hstarts (lt_of_shouldRetry request hretry)
    · exact .finished ⟨[], [], _, rfl, hstarts, hnone, .error⟩

variable (request) in
/-- An exchange. -/
theorem tried_exchange (lawful : parser.Lawful said sane) (attempt : ℕ) (exchange : Exchange) :
    Tried request parser.emittedContent attempt (request.exchangeOnce parser attempt exchange) := by
  have hnone : Deltas [] := fun e he => by cases he
  cases exchange with
  | failed failure =>
    have hstarts : Starts [] := fun e he => by cases he
    exact .broken hstarts hnone fun _ _ _ => rfl
  | answered response =>
    unfold exchangeOnce
    dsimp only
    split_ifs with hstatus
    · exact tried_refuse request
    have hstart : Starts [.responseStart request.model (responseHeaderValue response.providerHeader)] :=
      fun e he => ⟨_, _, List.mem_singleton.mp he⟩
    rw [Gen.emit_eq, Gen.ok_bind]
    have hread := read_lines lawful response.ending response.lines lawful.sane_fresh lawful.fatal_fresh
    generalize readLines parser response.ending parser.fresh response.lines = read at hread
    cases hread with
    | @cancelled events hdeltas => exact .finished ⟨_, events, [], by simp, hstart, hdeltas, .nothing⟩
    | @failed events message data next hdeltas hfatal =>
      simp only [Gen.ok_bind, conclude, hfatal, if_true]
      exact .finished ⟨_, events, [.error message data], by simp, hstart, hdeltas, .error⟩
    | @broken events failure next hdeltas hquiet =>
      exact .broken hstart hdeltas fun _ _ hnot => (hquiet hnot).2
    | @complete events next hdeltas hfatal hsane hsaid =>
      simp only [Gen.ok_bind, conclude, hfatal, Bool.false_eq_true, if_false]
      cases hfinal : parser.finalize next with
      | error error =>
        dsimp only
        rw [Gen.raise_eq, List.append_nil]
        exact .broken hstart hdeltas fun _ hnetwork => by cases hnetwork
      | ok final =>
        obtain ⟨toolCalls, message, reason, rfl, hgist⟩ := lawful.finalize_ends hsane hfinal
        rw [hsaid, lawful.said_fresh] at hgist
        cases response.observerError with
        | none =>
          have hends : Ends (gistOf events) (toolCalls.map .toolCall ++ [.responseEnd message reason]) :=
            .response hgist
          exact .finished ⟨_, events, _, by simp, hstart, hdeltas, hends⟩
        | some error =>
          obtain ⟨message', hcontent, hfinal'⟩ := append_diagnostic error toolCalls message reason
          rw [← hcontent] at hgist
          simp only [Option.elim_some, hfinal']
          have hends : Ends (gistOf events) (toolCalls.map .toolCall ++ [.responseEnd message' reason]) :=
            .response hgist
          exact .finished ⟨_, events, _, by simp, hstart, hdeltas, hends⟩

/-- What the `except` clause makes of an attempt. -/
theorem Tried.attempted {emitted : π → Bool} {tried : Gen (Failure × π) ProviderEvent Verdict}
    (h : Tried request emitted attempt tried) : Attempted request attempt (request.guarded emitted attempt tried) := by
  cases h with
  | finished h => exact .last h (by simp)
  | again hstarts h => exact .again hstarts h
  | @broken starts deltas failure p hstarts hdeltas hquiet =>
    cases failure with
    | raised error => exact .last ⟨starts, deltas, [], by simp, hstarts, hdeltas, .nothing⟩ (by simp)
    | network message =>
      unfold guarded
      dsimp only
      split_ifs with hretry
      · obtain ⟨hnot, hmore⟩ := Bool.and_eq_true_iff.mp hretry
        rw [hquiet message rfl (by simpa using hnot), List.append_nil]
        exact .again hstarts (lt_of_shouldRetry request hmore)
      · exact .last ⟨starts, deltas, [.error message (some [("attempts", .int (attempt + 1))])], by simp, hstarts,
          hdeltas,
          .error⟩ (by simp)

/-- An attempt that is not followed by another. -/
theorem Attempted.delivered {tried : Gen Exc ProviderEvent Verdict} (h : Attempted request attempt tried)
    (hlast : tried.result ≠ .ok .again) : Delivered tried.yielded := by
  cases h with
  | last hdelivered _ => exact hdelivered
  | again _ _ => exact absurd rfl hlast

/-- An attempt that may be followed by another. -/
theorem Attempted.retried {tried : Gen Exc ProviderEvent Verdict} (h : Attempted request attempt tried)
    (hagain : tried.result = .ok .again) : ∃ starts, Starts starts ∧ (attempt : ℤ) < request.maxRetries ∧
      tried.yielded = starts ++ [.retry (attempt + 2) (request.maxRetries + 1)] := by
  cases h with
  | last _ hlast => exact absurd hagain hlast
  | again hstarts hlt => exact ⟨_, hstarts, hlt, rfl⟩

variable (request) in
/-- A request, from an attempt on. -/
theorem streamed_from {once : ℕ → Gen Exc ProviderEvent Verdict}
    {bounded : ∀ attempt : ℕ, (once attempt).result = .ok .again → (attempt : ℤ) < request.maxRetries}
    (hattempt : ∀ attempt, Attempted request attempt (once attempt)) (attempt : ℕ) :
    Streamed request attempt (request.attempts once bounded attempt).yielded := by
  fun_induction attempts request once bounded attempt with
  | case1 attempt tried error h => exact .last ((hattempt attempt).delivered (h ▸ by simp))
  | case2 attempt tried h => exact .last ((hattempt attempt).delivered (h ▸ by simp))
  | case3 attempt tried h hwaits hlt rest ih =>
    obtain ⟨starts, hstarts, _, hyielded⟩ := (hattempt attempt).retried h
    have heq : tried.yielded ++ rest.yielded = starts ++ .retry (attempt + 2) (request.maxRetries + 1) ::
        rest.yielded := by
      rw [hyielded, List.append_assoc, List.singleton_append]
    exact heq ▸ .again hstarts hlt ih
  | case4 attempt tried h hwaits =>
    obtain ⟨starts, hstarts, hlt, hyielded⟩ := (hattempt attempt).retried h
    exact hyielded ▸ .again hstarts hlt (.last delivered_nil)

/-- The numbers of the retries. -/
def retriesOf (events : List ProviderEvent) : List (ℤ × ℤ) := events.filterMap fun
  | .retry attempt maxAttempts => some (attempt, maxAttempts)
  | _ => none

/-- What a request yields: first the attempts that said nothing, each with a retry, numbered from two on and at most as
many as there may be; then the last attempt. -/
def Delivers (request : Request) (events : List ProviderEvent) : Prop :=
  ∃ before last, events = before ++ last ∧ (∀ e ∈ before, e.isSilent = true) ∧ Delivered last ∧
    ∃ retries : ℕ, retries ≤ request.maxRetries.toNat ∧
      retriesOf before = (List.range' 2 retries).map fun attempt : ℕ => ((attempt : ℤ), request.maxRetries + 1)

/-- Starts are not passed on. -/
theorem Starts.silent {starts : List ProviderEvent} (h : Starts starts) : ∀ e ∈ starts, e.isSilent = true := by
  intro e he
  obtain ⟨model, provider, rfl⟩ := h e he
  rfl

/-- Starts are no retries. -/
theorem Starts.retriesOf_append {starts events : List ProviderEvent} (h : Starts starts) :
    retriesOf (starts ++ events) = retriesOf events := by
  induction starts with
  | nil => rfl
  | cons e starts ih =>
    obtain ⟨model, provider, rfl⟩ := h e List.mem_cons_self
    exact ih fun e' he' => h e' (List.mem_cons_of_mem _ he')

/-- The attempts, from one on. -/
theorem Streamed.split {events : List ProviderEvent} (h : Streamed request attempt events) :
    ∃ before last, events = before ++ last ∧ (∀ e ∈ before, e.isSilent = true) ∧ Delivered last ∧
      ∃ retries : ℕ, retries ≤ request.maxRetries.toNat - attempt ∧
        retriesOf before = (List.range' (attempt + 2) retries).map fun n : ℕ => ((n : ℤ), request.maxRetries + 1) := by
  induction h with
  | last hdelivered => exact ⟨[], _, rfl, by simp, hdelivered, 0, Nat.zero_le _, rfl⟩
  | @again attempt starts rest hstarts hlt _ ih =>
    obtain ⟨before, last, rfl, hsilent, hdelivered, retries, hle, hretries⟩ := ih
    refine ⟨starts ++ .retry (attempt + 2) (request.maxRetries + 1) :: before, last, by simp, fun e he => ?_,
      hdelivered,
      retries + 1, by omega, ?_⟩
    · rcases List.mem_append.mp he with hstart | hmore
      · exact hstarts.silent e hstart
      · rcases List.mem_cons.mp hmore with rfl | hbefore
        · rfl
        · exact hsilent e hbefore
    · rw [hstarts.retriesOf_append, List.range'_succ, List.map_cons, add_right_comm attempt 2 1, ← hretries]
      rfl

variable (request) in
/-- A request whose attempts say nothing before they are made again. -/
theorem delivers_attempts {once : ℕ → Gen Exc ProviderEvent Verdict}
    {bounded : ∀ attempt : ℕ, (once attempt).result = .ok .again → (attempt : ℤ) < request.maxRetries}
    (hattempt : ∀ attempt, Attempted request attempt (once attempt)) :
    Delivers request (request.attempts once bounded 0).yielded := by
  obtain ⟨before, last, heq, hsilent, hdelivered, retries, hle, hretries⟩ := (streamed_from request hattempt 0).split
  exact ⟨before, last, heq, hsilent, hdelivered, retries, hle, by simpa using hretries⟩

variable (request) in
/-- A request with a lawful parser. -/
theorem delivers (lawful : parser.Lawful said sane) : Delivers request (request.stream parser).yielded :=
  delivers_attempts request fun attempt => (tried_exchange request lawful attempt (request.exchange attempt)).attempted

/-- Whatever the transport does, and with either parser, a request is answered once: what is said is said by the last
attempt, after all the retries, and the message at its end says the same. -/
theorem delivers_stream (json : JsonModule) (request : Request) :
    Delivers request (request.stream (chatStreamParser json)).yielded ∧
      Delivers request (request.stream (responsesStreamParser json)).yielded :=
  ⟨delivers request (ChatStreamParser.lawful json), delivers request (ResponsesStreamParser.lawful json)⟩

end Request

end MyTeam.Llm
