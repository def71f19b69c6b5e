import IntelCaffe.Internode.TreeClient

/-! # The standing receive

`set_buffer_size` arms the first `MPI_Irecv` into `buffer`, and `received` arms the next one
with `set_recv` after it has handed the buffer to the handlers. Here: exactly one receive is
outstanding between steps, none while handlers run; what reaches the handlers when the
transport reports a failure; and what happens when a handler registers a handler.
-/

namespace IntelCaffe.Internode

namespace RequestLedger

def TestedBelow (ledger : RequestLedger) : Prop :=
  ∀ entry ∈ ledger.tested, entry.2.1 < ledger.nextReq

section
variable {ledger : RequestLedger}

theorem TestedBelow.submitAll (below : ledger.TestedBelow) (callbacks : List RequestCallback) :
    (ledger.submitAll callbacks).TestedBelow := by
  rw [submitAll_eq]
  exact fun entry member => Nat.lt_add_right _ (below entry member)

theorem reportedReady_of_le (below : ledger.TestedBelow) {req : Nat}
    (fresh : ledger.nextReq ≤ req) : ledger.reportedReady req = false := by
  simp only [reportedReady, List.any_eq_false, Bool.and_eq_true, beq_iff_eq, not_and]
  exact fun entry member same => absurd (below entry member) (by omega)

theorem freshRequests_filter_length (start : Nat) (callbacks : List RequestCallback)
    (keep : RequestCallback → Bool) :
    ((freshRequests start callbacks).filter fun request => keep request.callback).length =
      (callbacks.filter keep).length := by
  induction callbacks generalizing start with
  | nil => rfl
  | cons callback rest induction =>
      by_cases kept : keep callback <;> simp [freshRequests, List.filter_cons, kept, induction]

theorem reportedReady_testRequests (test : Nat → TestReport) (ledger : RequestLedger) (req : Nat) :
    (ledger.testRequests test).reportedReady req =
      (ledger.reportedReady req ||
        ledger.requestsToProcess.any fun request =>
          request.req == req && (test request.req).flag) := by
  apply Bool.eq_iff_iff.mpr
  simp [reportedReady, testRequests, List.any_eq_true]

theorem any_tested_eq {pending : List MpiRequest} {request : MpiRequest} (test : Nat → TestReport)
    (member : request ∈ pending) :
    (pending.any fun other => other.req == request.req && (test other.req).flag) =
      (test request.req).flag := by
  cases flag : (test request.req).flag
  · simp only [List.any_eq_false, Bool.and_eq_true, beq_iff_eq, not_and]
    intro other _ same
    simp [same, flag]
  · exact List.any_eq_true.mpr ⟨request, member, by simp [flag]⟩

@[simp] theorem takeRequests_requestsToProcess (ledger : RequestLedger) :
    ledger.takeRequests.requestsToProcess = ledger.requestsToProcess ++ ledger.requests := rfl

@[simp] theorem takeRequests_reportedReady (ledger : RequestLedger) :
    ledger.takeRequests.reportedReady = ledger.reportedReady := rfl

@[simp] theorem testRequests_submitted (test : Nat → TestReport) (ledger : RequestLedger) :
    (ledger.testRequests test).submitted = ledger.submitted := rfl

@[simp] theorem takeRequests_submitted (ledger : RequestLedger) :
    ledger.takeRequests.submitted = ledger.submitted := rfl

theorem Invariant.reportedReady_iff (inv : ledger.Invariant) (request : MpiRequest) :
    ledger.reportedReady request.req = true ↔ request.req ∈ ledger.firedReqs := by
  simp only [reportedReady, List.any_eq_true, Bool.and_eq_true, beq_iff_eq]
  constructor
  · rintro ⟨entry, entryMember, same, flag⟩
    exact same ▸ inv.reported_fired entry entryMember flag
  · intro fired
    obtain ⟨⟨tick, firedRequest⟩, firedMember, same⟩ := List.mem_map.mp fired
    obtain ⟨report, testedMember, _, _, ready⟩ := inv.fired_reported tick firedRequest firedMember
    exact ⟨_, testedMember, same, (isReady_true ready).1⟩

theorem Invariant.pending_unreported (inv : ledger.Invariant) :
    ledger.requestsToProcess ++ ledger.requests =
      ledger.submitted.filter fun request => !ledger.reportedReady request.req := by
  rw [inv.pending]
  refine List.filter_congr fun request _ => ?_
  have iff := inv.reportedReady_iff request
  by_cases fired : request.req ∈ ledger.firedReqs
  · simp [fired, iff.mpr fired]
  · simp [fired, Bool.eq_false_iff.mpr (mt iff.mp fired)]

theorem Invariant.outstandingReceives_testRequests (inv : ledger.Invariant)
    (test : Nat → TestReport) :
    (ledger.takeRequests.testRequests test).outstandingReceives =
      (((ledger.requestsToProcess ++ ledger.requests).filter (·.callback == .received)).filter
        fun request => !(test request.req).flag).map (·.req) := by
  have pending := inv.pending_unreported
  unfold outstandingReceives
  simp only [reportedReady_testRequests]
  congr 1
  calc _ = ledger.submitted.filter (fun request => !ledger.reportedReady request.req &&
          (request.callback == .received && !(test request.req).flag)) := by
        refine List.filter_congr fun request member => ?_
        simp only [testRequests_submitted, takeRequests_submitted] at member
        cases unreported : ledger.reportedReady request.req
        · have inPending : request ∈ ledger.requestsToProcess ++ ledger.requests := by
            rw [pending]
            simpa [unreported] using member
          simp [any_tested_eq test inPending, unreported]
        · simp [unreported]
    _ = _ := by
      rw [pending, List.filter_filter, List.filter_filter]
      simp [Bool.and_comm, Bool.and_assoc]

theorem outstandingReceives_submitAll_length (below : ledger.TestedBelow)
    (callbacks : List RequestCallback) :
    (ledger.submitAll callbacks).outstandingReceives.length =
      ledger.outstandingReceives.length + (callbacks.filter (· == .received)).length := by
  rw [submitAll_eq]
  simp only [outstandingReceives, reportedReady, List.filter_append, List.map_append,
    List.length_append, List.length_map]
  congr 1
  rw [← freshRequests_filter_length ledger.nextReq callbacks]
  refine congrArg List.length (List.filter_congr fun request member => ?_)
  have unreported := reportedReady_of_le below (le_of_mem_freshRequests member)
  simp only [reportedReady] at unreported
  simp [unreported]

theorem Invariant.outstandingReceives_eq (inv : ledger.Invariant) :
    ledger.outstandingReceives =
      ((ledger.requestsToProcess ++ ledger.requests).filter (·.callback == .received)).map
        (·.req) := by
  rw [inv.pending_unreported, List.filter_filter, outstandingReceives]

theorem Invariant.testedBelow_testRequests (inv : ledger.Invariant) (test : Nat → TestReport) :
    (ledger.takeRequests.testRequests test).TestedBelow := by
  intro entry member
  simp only [testRequests, takeRequests, List.mem_append, List.mem_map] at member
  rcases member with old | ⟨request, pendingMember, rfl⟩
  · exact inv.tested_lt entry old
  · exact inv.pending_lt (List.mem_append.mpr pendingMember)

theorem finishTick_outstandingReceives (middle : Nat) (ledger : RequestLedger) :
    (ledger.finishTick middle).outstandingReceives = ledger.outstandingReceives := by
  unfold finishTick
  dsimp only
  split <;> rfl

end

end RequestLedger

namespace MpiTreeClient

theorem runCallback_outstanding {react : Nat → Invocation → List Action} {request : MpiRequest}
    {client after : MpiTreeClient} (returned : client.runCallback react request = some after)
    (below : client.TestedBelow) :
    after.TestedBelow ∧
      after.outstandingReceives.length = client.outstandingReceives.length +
        ([request].filter (·.callback == .received)).length ∧
      ∃ newCalls, after.calls = client.calls ++ newCalls ∧
        ∀ call ∈ newCalls, call.invocation.isHandler = true →
          request.callback = .received ∧ call.armedReceives = client.outstandingReceives := by
  unfold runCallback at returned
  split at returned
  case h_1 isReceived =>
    obtain ⟨_, _, calls, _, callbacks, sends, ledger⟩ := received_some returned
    have noReceive : callbacks.filter (· == .received) = [] :=
      List.filter_eq_nil_iff.mpr fun callback member same =>
        sends (eq_of_beq same ▸ member)
    refine ⟨ledger ▸ below.submitAll _, ?_, _, calls, fun call member _ => ⟨isReceived, ?_⟩⟩
    · rw [ledger, RequestLedger.outstandingReceives_submitAll_length below]
      simp [isReceived, noReceive]
    · split at member
      · obtain ⟨handler, _, rfl⟩ := List.mem_map.mp member
        rfl
      · cases member
  all_goals
    cases returned
    obtain ⟨_, calls, _, _, ledger⟩ := invoke_spec react request.req _ client
    refine ⟨ledger ▸ below.submitAll _, ?_, _, calls, ?_⟩
    · rw [ledger, RequestLedger.outstandingReceives_submitAll_length below,
        filter_received_flatMap_callbacks]
      simp [*]
    · simp [Invocation.isHandler]

theorem fireCallbacks_outstanding {react : Nat → Invocation → List Action} :
    ∀ {ready : List MpiRequest} {client after : MpiTreeClient},
      client.fireCallbacks react ready = some after → client.TestedBelow →
      after.TestedBelow ∧
        after.outstandingReceives.length = client.outstandingReceives.length +
          (ready.filter (·.callback == .received)).length ∧
        ∃ newCalls, after.calls = client.calls ++ newCalls ∧
          ∀ call ∈ newCalls, call.invocation.isHandler = true →
            call.armedReceives.length < after.outstandingReceives.length
  | [], client, after, returned, below => by
      cases returned
      exact ⟨below, by simp, [], by simp, by simp⟩
  | request :: rest, client, after, returned, below => by
      obtain ⟨middle, first, later⟩ := Option.bind_eq_some.mp returned
      obtain ⟨belowMiddle, countMiddle, firstCalls, callsMiddle, handlerFirst⟩ :=
        runCallback_outstanding first below
      obtain ⟨belowAfter, countAfter, restCalls, callsAfter, handlerRest⟩ :=
        fireCallbacks_outstanding later belowMiddle
      have sameStart : (client.updateLedger (·.recordFired request)).outstandingReceives =
          client.outstandingReceives := rfl
      rw [sameStart] at countMiddle handlerFirst
      have receivedCount : ([request].filter (·.callback == .received)).length =
          if request.callback = .received then 1 else 0 := by
        by_cases isReceived : request.callback = .received <;> simp [isReceived]
      have consCount : ((request :: rest).filter (·.callback == .received)).length =
          ([request].filter (·.callback == .received)).length +
            (rest.filter (·.callback == .received)).length := by
        by_cases isReceived : request.callback = .received <;> simp [List.filter_cons, isReceived]
        omega
      refine ⟨belowAfter, by rw [countAfter, countMiddle, consCount]; omega,
        firstCalls ++ restCalls, by rw [callsAfter, callsMiddle, List.append_assoc]; rfl, ?_⟩
      intro call member handler
      rcases List.mem_append.mp member with inFirst | inRest
      · obtain ⟨isReceived, armed⟩ := handlerFirst call inFirst handler
        rw [armed, countAfter, countMiddle, receivedCount, if_pos isReceived]
        omega
      · exact handlerRest call inRest handler

theorem pollOne_outstanding {test : Nat → TestReport} {react : Nat → Invocation → List Action}
    {client after : MpiTreeClient} (inv : client.toRequestLedger.Invariant)
    (returned : client.pollOne test react = some after) :
    after.outstandingReceives.length = client.outstandingReceives.length ∧
      ∃ newCalls, after.calls = client.calls ++ newCalls ∧
        ∀ call ∈ newCalls, call.invocation.isHandler = true →
          call.armedReceives.length < after.outstandingReceives.length := by
  obtain ⟨fired, loop, done⟩ := Option.bind_eq_some.mp returned
  cases done
  simp only [updateLedger_toRequestLedger, RequestLedger.takeRequests_requestsToProcess] at loop ⊢
  obtain ⟨_, count, newCalls, calls, handler⟩ :=
    fireCallbacks_outstanding loop (inv.testedBelow_testRequests test)
  have readyReceives : ((partitionReady test (client.requestsToProcess ++ client.requests)).1.filter
      (·.callback == .received)).length =
      (((client.requestsToProcess ++ client.requests).filter (·.callback == .received)).filter
        fun request => (test request.req).flag).length := by
    rw [partitionReady_fst, List.filter_map, List.length_map, List.filter_filter,
      List.filter_filter]
    simp [Function.comp_def, Bool.and_comm]
  have split := List.length_eq_length_filter_add (l := ((client.requestsToProcess ++
    client.requests).filter (·.callback == .received))) fun request => (test request.req).flag
  simp only [updateLedger_toRequestLedger] at count
  refine ⟨?_, newCalls, calls, fun call member isHandler => ?_⟩
  · rw [RequestLedger.finishTick_outstandingReceives, count,
      inv.outstandingReceives_testRequests test, List.length_map, readyReceives,
      inv.outstandingReceives_eq, List.length_map]
    omega
  · rw [RequestLedger.finishTick_outstandingReceives]
    exact handler call member isHandler

/-! ## Runs from `set_buffer_size` -/

structure ReceiveArmed (client : MpiTreeClient) : Prop where
  ledger : client.toRequestLedger.Invariant
  one_outstanding : client.outstandingReceives.length = 1
  handlers_unarmed : ∀ call ∈ client.calls, call.invocation.isHandler = true →
    call.armedReceives = []

theorem start_receiveArmed (rank commSize maxPacketSize : Nat) :
    (start rank commSize maxPacketSize).ReceiveArmed where
  ledger := RequestLedger.empty_invariant.submit .received
  one_outstanding := rfl
  handlers_unarmed _ member := nomatch member

theorem ReceiveArmed.apply {client after : MpiTreeClient} (armed : client.ReceiveArmed) :
    ∀ {step : Step}, step.apply client = some after → after.ReceiveArmed
  | .perform action, applied => by
      cases applied
      obtain ⟨_, calls, _, _, ledger⟩ := perform_spec client action
      refine ⟨ledger ▸ armed.ledger.submitAll _, ?_, calls ▸ armed.handlers_unarmed⟩
      rw [ledger, RequestLedger.outstandingReceives_submitAll (received_not_mem_callbacks _ _ _)]
      exact armed.one_outstanding
  | .poll test react, applied => by
      obtain ⟨count, newCalls, calls, handler⟩ := pollOne_outstanding armed.ledger applied
      obtain ⟨_, submissions, ledger⟩ := pollOne_ledger applied
      refine ⟨ledger ▸ armed.ledger.pollOne test submissions,
        count.trans armed.one_outstanding, fun call member isHandler => ?_⟩
      rcases List.mem_append.mp (calls ▸ member) with old | new
      · exact armed.handlers_unarmed call old isHandler
      · have fewer := handler call new isHandler
        rw [count, armed.one_outstanding] at fewer
        exact List.eq_nil_of_length_eq_zero (by omega)

theorem ReceiveArmed.run : ∀ {client after : MpiTreeClient} {steps : List Step},
    client.ReceiveArmed → client.run steps = some after → after.ReceiveArmed
  | _, _, [], armed, returned => by
      cases returned
      exact armed
  | _, _, _ :: _, armed, returned => by
      obtain ⟨_, first, later⟩ := Option.bind_eq_some.mp returned
      exact (armed.apply first).run later

theorem receive_always_armed {rank commSize maxPacketSize : Nat} {steps : List Step}
    {client : MpiTreeClient}
    (reached : (start rank commSize maxPacketSize).run steps = some client) :
    client.outstandingReceives.length = 1 ∧
      ∀ call ∈ client.calls, call.invocation.isHandler = true → call.armedReceives = [] :=
  let armed := (start_receiveArmed rank commSize maxPacketSize).run reached
  ⟨armed.one_outstanding, armed.handlers_unarmed⟩

theorem receive_armed_after_delivery :
    ∃ client, (start 1 2 4).run [.perform (.registerHandler 7),
        .poll (fun _ => ⟨true, mpiSuccess, 0, mpiSuccess, 3⟩) fun _ _ => []] = some client ∧
      client.outstandingReceives.length = 1 ∧
      ∀ call ∈ client.calls, call.invocation.isHandler = true → call.armedReceives = [] :=
  match reached : (start 1 2 4).run [.perform (.registerHandler 7),
      .poll (fun _ => ⟨true, mpiSuccess, 0, mpiSuccess, 3⟩) fun _ _ => []] with
  | some client => ⟨client, rfl, receive_always_armed reached⟩
  | none => absurd reached (by decide)

/-! ## Failed completion tests

`is_ready` stores the return code of `MPI_Test` in `ok` and then overwrites it with the
return code of `MPI_Get_count`, so a receive whose test failed still reaches the handlers. -/

theorem failed_test_reaches_handler :
    ((start 1 2 4).run [.perform (.registerHandler 7),
        .poll (fun _ => ⟨true, 1, 0, mpiSuccess, 3⟩) fun _ _ => []]).map
      (·.calls.map (·.invocation)) = some [.fromParent 7 [0, 0, 0, 0] 3] := by
  decide

/-! ## Handlers registered during dispatch -/

theorem register_in_handler_overruns :
    (start 1 2 4).run [.perform (.registerHandler 7),
      .poll (fun _ => ⟨true, mpiSuccess, 0, mpiSuccess, 3⟩) fun _ _ => [.registerHandler 8]] =
      none := by
  decide

end MpiTreeClient

end IntelCaffe.Internode
