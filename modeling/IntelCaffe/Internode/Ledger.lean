import Mathlib.Data.List.Nodup

/-! # The request ledger of the MPI tree client

Every non-blocking operation of `MpiTreeClient` is an `MpiRequest` pushed on `requests`.
`poll_one` moves `requests` onto `requests_to_process`, tests each request once with
`is_ready` inside `std::stable_partition`, fires the callbacks of the ready ones in order and
erases them. Callbacks run synchronously and may submit new requests; those land on
`requests` and wait for the next tick.

The ledger also keeps three logs that the code does not: every submitted request, every
`is_ready` test and every fired callback, each stamped with the tick it happened in. They
are what the statements below are about.
-/

namespace IntelCaffe.Internode

/-- `MPI_SUCCESS`. -/
def mpiSuccess : Int := 0

/-- What `MPI_Test` and `MPI_Get_count` report about one request. -/
structure TestReport where
  flag : Bool
  testResult : Int
  source : Nat
  countResult : Int
  count : Int
  deriving DecidableEq, Repr

/-- The callback an `MpiRequest` carries. -/
inductive RequestCallback
  | received
  | sent (callback : Nat)
  | broadcast (callback : Nat)
  deriving DecidableEq, Repr

/-- `MpiRequest`; `req` names the `MPI_Request` behind the shared pointer. -/
structure MpiRequest where
  req : Nat
  callback : RequestCallback
  ok : Bool
  sender : Nat
  size : Int
  deriving DecidableEq, Repr

/-- `MpiTreeClient::is_ready`. -/
def isReady (report : TestReport) (request : MpiRequest) : Bool × MpiRequest :=
  if report.flag then
    let request := { request with ok := report.testResult == mpiSuccess }
    let request := { request with sender := report.source }
    let request := { request with size := report.count, ok := report.countResult == mpiSuccess }
    (true, request)
  else (false, request)

def completed (report : TestReport) (request : MpiRequest) : MpiRequest :=
  { request with
    ok := report.countResult == mpiSuccess
    sender := report.source
    size := report.count }

theorem isReady_eq (report : TestReport) (request : MpiRequest) :
    isReady report request =
      (report.flag, if report.flag then completed report request else request) := by
  unfold isReady completed
  split <;> simp_all

@[simp] theorem completed_req (report : TestReport) (request : MpiRequest) :
    (completed report request).req = request.req := rfl

@[simp] theorem completed_callback (report : TestReport) (request : MpiRequest) :
    (completed report request).callback = request.callback := rfl

/-- The `std::stable_partition` of `poll_one` by `is_ready`. -/
def partitionReady (test : Nat → TestReport) (requests : List MpiRequest) :
    List MpiRequest × List MpiRequest :=
  let tested := requests.map fun request => isReady (test request.req) request
  ((tested.filter (·.1)).map (·.2), (tested.filter (!·.1)).map (·.2))

theorem partitionReady_fst (test : Nat → TestReport) (requests : List MpiRequest) :
    (partitionReady test requests).1 =
      (requests.filter fun request => (test request.req).flag).map
        fun request => completed (test request.req) request := by
  induction requests with
  | nil => rfl
  | cons request rest induction =>
      simp only [partitionReady, List.map_cons, isReady_eq] at induction ⊢
      cases flag : (test request.req).flag <;> simp [flag, induction]

theorem partitionReady_snd (test : Nat → TestReport) (requests : List MpiRequest) :
    (partitionReady test requests).2 =
      requests.filter fun request => !(test request.req).flag := by
  induction requests with
  | nil => rfl
  | cons request rest induction =>
      simp only [partitionReady, List.map_cons, isReady_eq] at induction ⊢
      cases flag : (test request.req).flag <;> simp [flag, induction]

def freshRequests (start : Nat) : List RequestCallback → List MpiRequest
  | [] => []
  | callback :: rest => ⟨start, callback, false, 0, 0⟩ :: freshRequests (start + 1) rest

theorem freshRequests_reqs (start : Nat) (callbacks : List RequestCallback) :
    (freshRequests start callbacks).map (·.req) =
      (List.range callbacks.length).map (start + ·) := by
  induction callbacks generalizing start with
  | nil => rfl
  | cons callback rest induction =>
      simp only [freshRequests, List.map_cons, induction, List.length_cons,
        List.range_succ_eq_map, List.map_map]
      congr 2
      funext index
      simp only [Function.comp_apply]
      omega

theorem freshRequests_callbacks (start : Nat) (callbacks : List RequestCallback) :
    (freshRequests start callbacks).map (·.callback) = callbacks := by
  induction callbacks generalizing start with
  | nil => rfl
  | cons callback rest induction => simp [freshRequests, induction]

theorem freshRequests_append (start : Nat) (first second : List RequestCallback) :
    freshRequests start (first ++ second) =
      freshRequests start first ++ freshRequests (start + first.length) second := by
  induction first generalizing start with
  | nil => rfl
  | cons callback rest induction =>
      simp [freshRequests, induction, Nat.add_assoc, Nat.add_comm 1]

/-- `requests` and `requests_to_process` of `MpiTreeClient`, with ghost logs. -/
structure RequestLedger where
  requests : List MpiRequest
  requestsToProcess : List MpiRequest
  nextReq : Nat
  tick : Nat
  submitted : List MpiRequest
  tested : List (Nat × Nat × TestReport)
  fired : List (Nat × MpiRequest)
  /-- The sizes logged by the `LOG(WARNING)` of `poll_one`. -/
  warnings : List Nat
  deriving DecidableEq, Repr

namespace RequestLedger

def empty : RequestLedger := ⟨[], [], 0, 0, [], [], [], []⟩

/-- `requests.push_back` of `set_recv` and of the sends. -/
def submit (callback : RequestCallback) (ledger : RequestLedger) : RequestLedger :=
  let request : MpiRequest := ⟨ledger.nextReq, callback, false, 0, 0⟩
  { ledger with
    requests := ledger.requests ++ [request]
    nextReq := ledger.nextReq + 1
    submitted := ledger.submitted ++ [request] }

def submitAll (callbacks : List RequestCallback) (ledger : RequestLedger) : RequestLedger :=
  callbacks.foldl (fun ledger callback => ledger.submit callback) ledger

/-- The locked block of `poll_one`. -/
def takeRequests (ledger : RequestLedger) : RequestLedger :=
  { ledger with
    requestsToProcess := ledger.requestsToProcess ++ ledger.requests
    requests := [] }

/-- The `stable_partition` of `poll_one`. -/
def testRequests (test : Nat → TestReport) (ledger : RequestLedger) : RequestLedger :=
  { ledger with
    requestsToProcess := (partitionReady test ledger.requestsToProcess).1 ++
      (partitionReady test ledger.requestsToProcess).2
    tested := ledger.tested ++
      ledger.requestsToProcess.map fun request => (ledger.tick, request.req, test request.req) }

def recordFired (request : MpiRequest) (ledger : RequestLedger) : RequestLedger :=
  { ledger with fired := ledger.fired ++ [(ledger.tick, request)] }

/-- The callback loop of `poll_one`, the `i`-th callback submitting `submissions[i]`. -/
def fireCallbacks : List MpiRequest → List (List RequestCallback) → RequestLedger →
    RequestLedger
  | [], _, ledger => ledger
  | request :: rest, submissions, ledger =>
      fireCallbacks rest submissions.tail
        ((ledger.recordFired request).submitAll (submissions.headD []))

/-- The `erase` and the `LOG(WARNING)` of `poll_one`. -/
def finishTick (middle : Nat) (ledger : RequestLedger) : RequestLedger :=
  let ledger := { ledger with requestsToProcess := ledger.requestsToProcess.drop middle }
  let ledger :=
    if 100 < ledger.requestsToProcess.length then
      { ledger with warnings := ledger.warnings ++ [ledger.requestsToProcess.length] }
    else ledger
  { ledger with tick := ledger.tick + 1 }

/-- `MpiTreeClient::poll_one` over the ledger. -/
def pollOne (test : Nat → TestReport) (submissions : List (List RequestCallback))
    (ledger : RequestLedger) : RequestLedger :=
  let ledger := ledger.takeRequests
  let ready := (partitionReady test ledger.requestsToProcess).1
  (fireCallbacks ready submissions (ledger.testRequests test)).finishTick ready.length

/-! ## What one operation does -/

theorem submitAll_eq (callbacks : List RequestCallback) (ledger : RequestLedger) :
    ledger.submitAll callbacks =
      { ledger with
        requests := ledger.requests ++ freshRequests ledger.nextReq callbacks
        nextReq := ledger.nextReq + callbacks.length
        submitted := ledger.submitted ++ freshRequests ledger.nextReq callbacks } := by
  induction callbacks generalizing ledger with
  | nil => simp [submitAll, freshRequests]
  | cons callback rest induction =>
      simp only [submitAll, List.foldl_cons] at induction ⊢
      rw [induction]
      simp [submit, freshRequests, Nat.add_assoc, Nat.add_comm 1]

theorem submitAll_append (first second : List RequestCallback) (ledger : RequestLedger) :
    (ledger.submitAll first).submitAll second = ledger.submitAll (first ++ second) := by
  simp [submitAll, List.foldl_append]

def firedSubmissions (ready : List MpiRequest) (submissions : List (List RequestCallback)) :
    List RequestCallback :=
  (submissions.take ready.length).flatten

theorem fireCallbacks_eq (ready : List MpiRequest) (submissions : List (List RequestCallback))
    (ledger : RequestLedger) :
    fireCallbacks ready submissions ledger =
      { ledger.submitAll (firedSubmissions ready submissions) with
        fired := ledger.fired ++ ready.map (ledger.tick, ·) } := by
  induction ready generalizing submissions ledger with
  | nil => simp [fireCallbacks, firedSubmissions, submitAll]
  | cons request rest induction =>
      rw [fireCallbacks, induction]
      cases submissions <;>
        simp [firedSubmissions, submitAll_eq, recordFired, freshRequests, freshRequests_append,
          Nat.add_assoc]

theorem pollOne_fields (test : Nat → TestReport) (submissions : List (List RequestCallback))
    (ledger : RequestLedger) :
    let pending := ledger.requestsToProcess ++ ledger.requests
    let callbacks := firedSubmissions (partitionReady test pending).1 submissions
    (ledger.pollOne test submissions).requests = freshRequests ledger.nextReq callbacks ∧
    (ledger.pollOne test submissions).requestsToProcess = (partitionReady test pending).2 ∧
    (ledger.pollOne test submissions).submitted =
      ledger.submitted ++ freshRequests ledger.nextReq callbacks ∧
    (ledger.pollOne test submissions).nextReq = ledger.nextReq + callbacks.length ∧
    (ledger.pollOne test submissions).fired =
      ledger.fired ++ (partitionReady test pending).1.map (ledger.tick, ·) ∧
    (ledger.pollOne test submissions).tested =
      ledger.tested ++ pending.map fun request => (ledger.tick, request.req, test request.req) := by
  simp only [pollOne, finishTick, fireCallbacks_eq, submitAll_eq]
  split <;> simp [takeRequests, testRequests]

/-! ## The ledger invariant -/

def firedReqs (ledger : RequestLedger) : List Nat := ledger.fired.map (·.2.req)

structure Invariant (ledger : RequestLedger) : Prop where
  pending : ledger.requestsToProcess ++ ledger.requests =
    ledger.submitted.filter fun request => request.req ∉ ledger.firedReqs
  fired_nodup : ledger.firedReqs.Nodup
  fired_reported : ∀ tick request, (tick, request) ∈ ledger.fired →
    ∃ report, (tick, request.req, report) ∈ ledger.tested ∧
      ∃ original ∈ ledger.submitted, isReady report original = (true, request)
  not_retested : ledger.tested.Pairwise fun first later =>
    first.2.2.flag = true → first.2.1 ≠ later.2.1
  submitted_reqs : ledger.submitted.map (·.req) = List.range ledger.nextReq
  reported_fired : ∀ entry ∈ ledger.tested, entry.2.2.flag = true → entry.2.1 ∈ ledger.firedReqs
  tested_lt : ∀ entry ∈ ledger.tested, entry.2.1 < ledger.nextReq

theorem empty_invariant : empty.Invariant where
  pending := rfl
  fired_nodup := List.nodup_nil
  fired_reported := by simp [empty]
  not_retested := List.Pairwise.nil
  submitted_reqs := rfl
  reported_fired := by simp [empty]
  tested_lt := by simp [empty]

theorem isReady_true {report : TestReport} {original request : MpiRequest}
    (ready : isReady report original = (true, request)) :
    report.flag = true ∧ request = completed report original := by
  rw [isReady_eq, Prod.mk.injEq] at ready
  obtain ⟨flag, rfl⟩ := ready
  simp [flag]

theorem le_of_mem_freshRequests {start : Nat} {callbacks : List RequestCallback}
    {request : MpiRequest} (member : request ∈ freshRequests start callbacks) :
    start ≤ request.req := by
  have : request.req ∈ (freshRequests start callbacks).map (·.req) := List.mem_map_of_mem _ member
  rw [freshRequests_reqs] at this
  obtain ⟨offset, _, equal⟩ := List.mem_map.mp this
  omega

theorem filter_freshRequests {start : Nat} (callbacks : List RequestCallback)
    {excluded : List Nat} (below : ∀ req ∈ excluded, req < start) :
    (freshRequests start callbacks).filter (fun request => request.req ∉ excluded) =
      freshRequests start callbacks := by
  refine List.filter_eq_self.mpr fun request member => ?_
  have := le_of_mem_freshRequests member
  simpa using fun excludedMember => absurd (below _ excludedMember) (by omega)

section
variable {ledger : RequestLedger}

theorem Invariant.firedReqs_lt (inv : ledger.Invariant) {req : Nat}
    (member : req ∈ ledger.firedReqs) : req < ledger.nextReq := by
  obtain ⟨⟨tick, request⟩, entry, rfl⟩ := List.mem_map.mp member
  obtain ⟨_, _, original, submitted, ready⟩ := inv.fired_reported tick request entry
  have listed : original.req ∈ List.range ledger.nextReq :=
    inv.submitted_reqs ▸ List.mem_map_of_mem _ submitted
  rw [(isReady_true ready).2]
  simpa using listed

theorem Invariant.mem_pending (inv : ledger.Invariant) {request : MpiRequest}
    (member : request ∈ ledger.requestsToProcess ++ ledger.requests) :
    request ∈ ledger.submitted ∧ request.req ∉ ledger.firedReqs := by
  rw [inv.pending] at member
  simpa using member

theorem Invariant.pending_nodup (inv : ledger.Invariant) :
    ((ledger.requestsToProcess ++ ledger.requests).map (·.req)).Nodup := by
  rw [inv.pending]
  exact ((List.filter_sublist _).map _).nodup (inv.submitted_reqs ▸ List.nodup_range _)

theorem Invariant.pending_lt (inv : ledger.Invariant) {request : MpiRequest}
    (member : request ∈ ledger.requestsToProcess ++ ledger.requests) :
    request.req < ledger.nextReq := by
  have listed : request.req ∈ List.range ledger.nextReq :=
    inv.submitted_reqs ▸ List.mem_map_of_mem _ (inv.mem_pending member).1
  simpa using listed

theorem Invariant.submitAll (inv : ledger.Invariant) (callbacks : List RequestCallback) :
    (ledger.submitAll callbacks).Invariant := by
  have sameFired : (ledger.submitAll callbacks).firedReqs = ledger.firedReqs := by
    rw [submitAll_eq]; rfl
  constructor
  · rw [sameFired, submitAll_eq]
    dsimp only
    rw [List.filter_append, ← inv.pending, List.append_assoc,
      filter_freshRequests callbacks fun _ member => inv.firedReqs_lt member]
  · exact sameFired ▸ inv.fired_nodup
  · rw [submitAll_eq]
    intro tick request entry
    obtain ⟨report, tested, original, submitted, ready⟩ := inv.fired_reported tick request entry
    exact ⟨report, tested, original, List.mem_append_left _ submitted, ready⟩
  · rw [submitAll_eq]
    exact inv.not_retested
  · simp [submitAll_eq, inv.submitted_reqs, freshRequests_reqs, List.range_add]
  · rw [sameFired, submitAll_eq]
    exact inv.reported_fired
  · rw [submitAll_eq]
    exact fun entry member => Nat.lt_add_right _ (inv.tested_lt entry member)

theorem Invariant.submit (inv : ledger.Invariant) (callback : RequestCallback) :
    (ledger.submit callback).Invariant :=
  inv.submitAll [callback]

theorem readyReqs_eq (test : Nat → TestReport) (pending : List MpiRequest) :
    (partitionReady test pending).1.map (·.req) =
      (pending.filter fun request => (test request.req).flag).map (·.req) := by
  simp [partitionReady_fst, Function.comp_def]

theorem filter_not_ready (test : Nat → TestReport) (pending : List MpiRequest) :
    pending.filter (fun request => request.req ∉ (partitionReady test pending).1.map (·.req)) =
      (partitionReady test pending).2 := by
  rw [partitionReady_snd, readyReqs_eq]
  refine List.filter_congr fun request member => ?_
  cases flag : (test request.req).flag
  · simpa using fun other _ otherFlag same => by rw [same, flag] at otherFlag; cases otherFlag
  · simpa using ⟨request, member, flag, rfl⟩

theorem Invariant.pollOne (inv : ledger.Invariant) (test : Nat → TestReport)
    (submissions : List (List RequestCallback)) : (ledger.pollOne test submissions).Invariant := by
  obtain ⟨requests, toProcess, submitted, nextReq, fired, tested⟩ :=
    pollOne_fields test submissions ledger
  have newFired : (ledger.pollOne test submissions).firedReqs = ledger.firedReqs ++
      (partitionReady test (ledger.requestsToProcess ++ ledger.requests)).1.map (·.req) := by
    simp [firedReqs, fired, Function.comp_def]
  have readyPending : ∀ req ∈ (partitionReady test
      (ledger.requestsToProcess ++ ledger.requests)).1.map (·.req),
      ∃ request ∈ ledger.requestsToProcess ++ ledger.requests, request.req = req := by
    intro req member
    rw [readyReqs_eq] at member
    obtain ⟨request, filtered, rfl⟩ := List.mem_map.mp member
    exact ⟨request, (List.mem_filter.mp filtered).1, rfl⟩
  constructor
  · rw [toProcess, requests, submitted, newFired, List.filter_append,
      filter_freshRequests _ fun req member => ?_]
    · have twoFilters : ledger.submitted.filter (fun request =>
          request.req ∉ ledger.firedReqs ++ (partitionReady test
            (ledger.requestsToProcess ++ ledger.requests)).1.map (·.req)) =
          (ledger.submitted.filter fun request => request.req ∉ ledger.firedReqs).filter
            fun request => request.req ∉ (partitionReady test
              (ledger.requestsToProcess ++ ledger.requests)).1.map (·.req) := by
        rw [List.filter_filter]
        exact List.filter_congr fun request _ => by simp [Bool.and_comm]
      rw [twoFilters, ← inv.pending, filter_not_ready]
    · rcases List.mem_append.mp member with old | new
      · exact inv.firedReqs_lt old
      · obtain ⟨request, pendingMember, rfl⟩ := readyPending req new
        exact inv.pending_lt pendingMember
  · rw [newFired, List.nodup_append]
    refine ⟨inv.fired_nodup, ?_, fun req old new => ?_⟩
    · rw [readyReqs_eq]
      exact ((List.filter_sublist _).map _).nodup inv.pending_nodup
    · obtain ⟨request, pendingMember, rfl⟩ := readyPending req new
      exact (inv.mem_pending pendingMember).2 old
  · intro tick request entry
    rw [fired] at entry
    rcases List.mem_append.mp entry with old | new
    · obtain ⟨report, testedEntry, original, submittedMember, ready⟩ :=
        inv.fired_reported tick request old
      exact ⟨report, tested ▸ List.mem_append_left _ testedEntry, original,
        submitted ▸ List.mem_append_left _ submittedMember, ready⟩
    · obtain ⟨readyRequest, readyMember, equal⟩ := List.mem_map.mp new
      rw [partitionReady_fst] at readyMember
      obtain ⟨original, originalMember, rfl⟩ := List.mem_map.mp readyMember
      obtain ⟨pendingMember, flag⟩ := List.mem_filter.mp originalMember
      obtain ⟨rfl, rfl⟩ := Prod.mk.injEq _ _ _ _ ▸ equal
      refine ⟨test original.req, ?_, original, ?_, ?_⟩
      · rw [tested]
        exact List.mem_append_right _ (List.mem_map.mpr ⟨original, pendingMember, rfl⟩)
      · rw [submitted]
        exact List.mem_append_left _ (inv.mem_pending pendingMember).1
      · rw [isReady_eq]
        simp [flag]
  · rw [tested, List.pairwise_append, List.pairwise_map]
    refine ⟨inv.not_retested, ?_, fun first firstMember later laterMember flag same => ?_⟩
    · refine List.Pairwise.imp ?_ (List.pairwise_map.mp inv.pending_nodup)
      exact fun different _ => different
    · obtain ⟨request, pendingMember, rfl⟩ := List.mem_map.mp laterMember
      have firedFirst := inv.reported_fired first firstMember flag
      rw [same] at firedFirst
      exact (inv.mem_pending pendingMember).2 firedFirst
  · rw [submitted, nextReq, List.map_append, inv.submitted_reqs, freshRequests_reqs,
      List.range_add]
  · intro entry member flag
    rw [newFired]
    rw [tested] at member
    rcases List.mem_append.mp member with old | new
    · exact List.mem_append_left _ (inv.reported_fired entry old flag)
    · obtain ⟨request, pendingMember, rfl⟩ := List.mem_map.mp new
      apply List.mem_append_right
      rw [readyReqs_eq]
      exact List.mem_map_of_mem _ (List.mem_filter.mpr ⟨pendingMember, flag⟩)
  · intro entry member
    rw [nextReq]
    rw [tested] at member
    rcases List.mem_append.mp member with old | new
    · exact Nat.lt_add_right _ (inv.tested_lt entry old)
    · obtain ⟨request, pendingMember, rfl⟩ := List.mem_map.mp new
      exact Nat.lt_add_right _ (inv.pending_lt pendingMember)

end

/-! ## Runs -/

inductive LedgerStep
  | submit (callback : RequestCallback)
  | poll (test : Nat → TestReport) (submissions : List (List RequestCallback))

def LedgerStep.apply : LedgerStep → RequestLedger → RequestLedger
  | .submit callback, ledger => ledger.submit callback
  | .poll test submissions, ledger => ledger.pollOne test submissions

def run (ledger : RequestLedger) (steps : List LedgerStep) : RequestLedger :=
  steps.foldl (fun ledger step => step.apply ledger) ledger

theorem run_append (ledger : RequestLedger) (first second : List LedgerStep) :
    ledger.run (first ++ second) = (ledger.run first).run second := by
  simp [run, List.foldl_append]

theorem submitAll_eq_run (callbacks : List RequestCallback) (ledger : RequestLedger) :
    ledger.submitAll callbacks = ledger.run (callbacks.map .submit) := by
  simp [submitAll, run, List.foldl_map, LedgerStep.apply]

def LedgerStep.submits : LedgerStep → RequestLedger → List RequestCallback
  | .submit callback, _ => [callback]
  | .poll test submissions, ledger =>
      firedSubmissions (partitionReady test (ledger.requestsToProcess ++ ledger.requests)).1
        submissions

def runSubmits (ledger : RequestLedger) : List LedgerStep → List RequestCallback
  | [] => []
  | step :: rest => step.submits ledger ++ runSubmits (step.apply ledger) rest

theorem LedgerStep.apply_submitted (step : LedgerStep) (ledger : RequestLedger) :
    (step.apply ledger).submitted =
        ledger.submitted ++ freshRequests ledger.nextReq (step.submits ledger) ∧
      (step.apply ledger).nextReq = ledger.nextReq + (step.submits ledger).length := by
  cases step with
  | submit callback => exact ⟨rfl, rfl⟩
  | poll test submissions =>
      obtain ⟨-, -, submitted, nextReq, -⟩ := pollOne_fields test submissions ledger
      exact ⟨submitted, nextReq⟩

theorem run_submitted (ledger : RequestLedger) (steps : List LedgerStep) :
    (ledger.run steps).submitted =
        ledger.submitted ++ freshRequests ledger.nextReq (ledger.runSubmits steps) ∧
      (ledger.run steps).nextReq = ledger.nextReq + (ledger.runSubmits steps).length := by
  induction steps generalizing ledger with
  | nil => exact ⟨by simp [run, runSubmits, freshRequests], rfl⟩
  | cons step rest induction =>
      obtain ⟨submitted, nextReq⟩ := step.apply_submitted ledger
      obtain ⟨submittedRest, nextReqRest⟩ := induction (step.apply ledger)
      refine ⟨?_, ?_⟩
      · show ((step.apply ledger).run rest).submitted = _
        rw [submittedRest, submitted, nextReq, runSubmits, freshRequests_append,
          List.append_assoc]
      · show ((step.apply ledger).run rest).nextReq = _
        rw [nextReqRest, nextReq, runSubmits, List.length_append, Nat.add_assoc]

example : empty.runSubmits [.submit .received, .submit (.sent 3),
    .poll (fun req => ⟨req == 0, 0, 1, 0, 4⟩) [[.broadcast 5, .broadcast 5]]] =
    [.received, .sent 3, .broadcast 5, .broadcast 5] := by
  decide

theorem Invariant.apply {ledger : RequestLedger} (inv : ledger.Invariant) :
    ∀ step : LedgerStep, (step.apply ledger).Invariant
  | .submit callback => inv.submit callback
  | .poll test submissions => inv.pollOne test submissions

theorem Invariant.run {ledger : RequestLedger} (inv : ledger.Invariant)
    (steps : List LedgerStep) : (ledger.run steps).Invariant := by
  induction steps generalizing ledger with
  | nil => exact inv
  | cons step rest induction => exact induction (inv.apply step)

theorem ledger_run_invariant (steps : List LedgerStep) : (empty.run steps).Invariant :=
  empty_invariant.run steps

theorem Invariant.pollOne_complete {ledger : RequestLedger} (inv : ledger.Invariant)
    (test : Nat → TestReport) (submissions : List (List RequestCallback))
    (complete : ∀ request ∈ ledger.requestsToProcess ++ ledger.requests,
      (test request.req).flag = true) :
    (ledger.pollOne test submissions).requestsToProcess = [] ∧
      ∀ request ∈ ledger.submitted, request.req ∈ (ledger.pollOne test submissions).firedReqs := by
  obtain ⟨-, toProcess, -, -, fired, -⟩ := pollOne_fields test submissions ledger
  refine ⟨?_, fun request member => ?_⟩
  · rw [toProcess, partitionReady_snd, List.filter_eq_nil_iff]
    simpa using complete
  · simp only [firedReqs, fired, List.map_append, List.mem_append]
    by_cases old : request.req ∈ ledger.firedReqs
    · exact Or.inl old
    · have pending : request ∈ ledger.requestsToProcess ++ ledger.requests :=
        inv.pending ▸ List.mem_filter.mpr ⟨member, by simpa using old⟩
      right
      simp only [partitionReady_fst, List.map_map]
      exact List.mem_map.mpr ⟨request, List.mem_filter.mpr ⟨pending, complete _ pending⟩, rfl⟩

theorem pollOne_drains (steps : List LedgerStep) (test : Nat → TestReport)
    (submissions : List (List RequestCallback))
    (complete : ∀ request ∈ (empty.run steps).requestsToProcess ++ (empty.run steps).requests,
      (test request.req).flag = true) :
    ((empty.run steps).pollOne test submissions).requestsToProcess = [] ∧
      ∀ request ∈ (empty.run steps).submitted,
        request.req ∈ ((empty.run steps).pollOne test submissions).firedReqs :=
  (empty_invariant.run steps).pollOne_complete test submissions complete

/- Two requests submitted, both reported complete in the next tick: both callbacks fire. -/
theorem pollOne_drains_two_requests :
    let steps := [LedgerStep.submit .received, .submit (.sent 0)]
    let test : Nat → TestReport := fun _ => ⟨true, 0, 1, 0, 4⟩
    ((empty.run steps).pollOne test []).requestsToProcess = [] ∧
      ∀ request ∈ (empty.run steps).submitted,
        request.req ∈ ((empty.run steps).pollOne test []).firedReqs :=
  pollOne_drains [.submit .received, .submit (.sent 0)] (fun _ => ⟨true, 0, 1, 0, 4⟩) []
    (by decide)

end RequestLedger

end IntelCaffe.Internode
