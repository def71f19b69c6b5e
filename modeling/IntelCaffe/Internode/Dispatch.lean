import IntelCaffe.Internode.ReceiveSlot

/-! # What a tick hands to the handlers

Each callback a tick fires leaves its own trace in the logs of the client, told apart by the
req of its request: a completed receive with `ok` leaves its snapshot `to_call` and one
handler call per element of it, any other callback leaves no handler call. With what a tick
does to the ledger (which requests fire, which receives stay outstanding) this is all a
cluster of clients needs to know of one tick of one of them.
-/

namespace IntelCaffe.Internode

namespace RequestLedger

section
variable {ledger : RequestLedger}

theorem pollOne_firedReqs (test : Nat → TestReport) (submissions : List (List RequestCallback))
    (ledger : RequestLedger) :
    (ledger.pollOne test submissions).firedReqs = ledger.firedReqs ++
      (partitionReady test (ledger.requestsToProcess ++ ledger.requests)).1.map (·.req) := by
  simp [firedReqs, (pollOne_fields test submissions ledger).2.2.2.2.1]

theorem submitted_subset_pollOne (test : Nat → TestReport)
    (submissions : List (List RequestCallback)) (ledger : RequestLedger) :
    ledger.submitted ⊆ (ledger.pollOne test submissions).submitted := by
  rw [(pollOne_fields test submissions ledger).2.2.1]
  exact List.subset_append_left _ _

theorem Invariant.submitted_req_lt (inv : ledger.Invariant) {request : MpiRequest}
    (member : request ∈ ledger.submitted) : request.req < ledger.nextReq := by
  have listed : request.req ∈ List.range ledger.nextReq :=
    inv.submitted_reqs ▸ List.mem_map_of_mem _ member
  simpa using listed

theorem Invariant.submitted_eq_of_req (inv : ledger.Invariant) {first second : MpiRequest}
    (firstMember : first ∈ ledger.submitted) (secondMember : second ∈ ledger.submitted)
    (same : first.req = second.req) : first = second :=
  List.inj_on_of_nodup_map (inv.submitted_reqs ▸ List.nodup_range _) firstMember secondMember
    same

theorem Invariant.mem_outstandingReceives (inv : ledger.Invariant) {request : MpiRequest}
    (pending : request ∈ ledger.requestsToProcess ++ ledger.requests)
    (isReceive : request.callback = .received) : request.req ∈ ledger.outstandingReceives := by
  rw [inv.outstandingReceives_eq]
  exact List.mem_map_of_mem _ (List.mem_filter.mpr ⟨pending, by simp [isReceive]⟩)

theorem Invariant.of_mem_outstandingReceives (inv : ledger.Invariant) {req : Nat}
    (outstanding : req ∈ ledger.outstandingReceives) :
    ∃ request ∈ ledger.submitted, request.req = req ∧ request.callback = .received ∧
      req ∉ ledger.firedReqs := by
  obtain ⟨request, listed, rfl⟩ := List.mem_map.mp outstanding
  obtain ⟨submitted, isReceive, unreported⟩ : request ∈ ledger.submitted ∧
      request.callback = .received ∧ ledger.reportedReady request.req = false := by
    simpa using listed
  exact ⟨request, submitted, rfl, isReceive, fun fired => by
    simp [(inv.reportedReady_iff request).mpr fired] at unreported⟩

theorem reportedReady_pollOne (test : Nat → TestReport)
    (submissions : List (List RequestCallback)) (ledger : RequestLedger) (req : Nat) :
    (ledger.pollOne test submissions).reportedReady req = (ledger.reportedReady req ||
      (ledger.requestsToProcess ++ ledger.requests).any fun request =>
        request.req == req && (test request.req).flag) := by
  have tested := reportedReady_testRequests test ledger.takeRequests req
  simp only [takeRequests_reportedReady, takeRequests_requestsToProcess] at tested
  rw [← tested]
  unfold reportedReady
  rw [(pollOne_fields test submissions ledger).2.2.2.2.2]
  rfl

theorem Invariant.outstanding_pollOne (inv : ledger.Invariant) (test : Nat → TestReport)
    (submissions : List (List RequestCallback)) {req : Nat}
    (member : req ∈ (ledger.pollOne test submissions).outstandingReceives)
    (old : req < ledger.nextReq) :
    req ∈ ledger.outstandingReceives ∧ (test req).flag = false := by
  simp only [outstandingReceives, reportedReady_pollOne, (pollOne_fields test submissions
    ledger).2.2.1, List.mem_map, List.mem_filter, List.mem_append, Bool.and_eq_true,
    Bool.not_eq_true', Bool.or_eq_false_iff] at member
  obtain ⟨request, ⟨listed | fresh, isReceive, unreported, pendingUnready⟩, rfl⟩ := member
  · have pending : request ∈ ledger.requestsToProcess ++ ledger.requests := by
      rw [inv.pending_unreported]
      exact List.mem_filter.mpr ⟨listed, by simp [unreported]⟩
    refine ⟨List.mem_map_of_mem _ (List.mem_filter.mpr ⟨listed, by simp [isReceive, unreported]⟩),
      ?_⟩
    rw [← any_tested_eq test pending]
    exact pendingUnready
  · exact absurd (le_of_mem_freshRequests fresh) (by omega)

end

end RequestLedger

namespace MpiTreeClient

def CallbackLogs (rank : Nat) (buffer : List UInt8) (registered handlers : List Nat)
    (request : MpiRequest) (newCalls : List Call) (newSnapshots : List (Nat × List Nat)) :
    Prop :=
  if request.callback = .received ∧ request.ok = true then
    ∃ toCall, newSnapshots = [(request.req, toCall)] ∧ registered <+: toCall ∧
      toCall <+: handlers ∧
      newCalls.map (·.invocation) = toCall.map fun handler =>
        entryPoint rank request.size request.sender handler buffer
  else newSnapshots = [] ∧ ∀ call ∈ newCalls, call.invocation.isHandler = false

theorem CallbackLogs.widen {rank : Nat} {buffer : List UInt8}
    {registered handlers registered' handlers' : List Nat} {request : MpiRequest}
    {newCalls : List Call} {newSnapshots : List (Nat × List Nat)}
    (logs : CallbackLogs rank buffer registered handlers request newCalls newSnapshots)
    (earlier : registered' <+: registered) (later : handlers <+: handlers') :
    CallbackLogs rank buffer registered' handlers' request newCalls newSnapshots := by
  unfold CallbackLogs at logs ⊢
  split at logs
  case isTrue handlerCall =>
    obtain ⟨toCall, snapshots, first, last, calls⟩ := logs
    rw [if_pos handlerCall]
    exact ⟨toCall, snapshots, earlier.trans first, last.trans later, calls⟩
  case isFalse other =>
    rw [if_neg other]
    exact logs

theorem runCallback_logs {react : Nat → Invocation → List Action} {request : MpiRequest}
    {client after : MpiTreeClient} (returned : client.runCallback react request = some after) :
    ∃ newCalls newSnapshots, after.calls = client.calls ++ newCalls ∧
      after.snapshots = client.snapshots ++ newSnapshots ∧
      (∀ call ∈ newCalls, call.request = request.req) ∧
      (∀ snapshot ∈ newSnapshots, snapshot.1 = request.req) ∧
      CallbackLogs client.rank client.buffer client.handlers after.handlers request newCalls
        newSnapshots := by
  unfold runCallback at returned
  split at returned
  case h_1 isReceived =>
    obtain ⟨_, handlers, calls, snapshots, _⟩ := received_some returned
    refine ⟨_, _, calls, snapshots, ?_, ?_, ?_⟩
    · split <;> simp
    · split <;> simp
    · unfold CallbackLogs
      cases ok : request.ok <;> simp [isReceived, ok, handlers]
  all_goals
    cases returned
    obtain ⟨_, calls, snapshots, _⟩ := invoke_spec react request.req _ client
    refine ⟨_, [], calls, by simpa using snapshots, by simp, by simp, ?_⟩
    simp [CallbackLogs, *, Invocation.isHandler]

theorem fireCallbacks_logs {react : Nat → Invocation → List Action} :
    ∀ {ready : List MpiRequest} {client after : MpiTreeClient},
      client.fireCallbacks react ready = some after → (ready.map (·.req)).Nodup →
      ∃ newCalls newSnapshots, after.calls = client.calls ++ newCalls ∧
        after.snapshots = client.snapshots ++ newSnapshots ∧
        (∀ call ∈ newCalls, call.request ∈ ready.map (·.req)) ∧
        (∀ snapshot ∈ newSnapshots, snapshot.1 ∈ ready.map (·.req)) ∧
        ∀ request ∈ ready, CallbackLogs client.rank client.buffer client.handlers after.handlers
          request (newCalls.filter (·.request == request.req))
          (newSnapshots.filter (·.1 == request.req))
  | [], client, after, returned, _ => by
      cases returned
      exact ⟨[], [], by simp, by simp, by simp, by simp, by simp⟩
  | request :: rest, client, after, returned, distinct => by
      obtain ⟨middle, first, later⟩ := Option.bind_eq_some.mp returned
      obtain ⟨same, _⟩ := runCallback_some first
      have sameLater := (fireCallbacks_ledger later).1
      obtain ⟨calls, snapshots, callsFirst, snapshotsFirst, callsOwn, snapshotsOwn, logs⟩ :=
        runCallback_logs first
      rw [List.map_cons, List.nodup_cons] at distinct
      obtain ⟨callsRest, snapshotsRest, callsLater, snapshotsLater, callsIn, snapshotsIn,
        logsRest⟩ := fireCallbacks_logs later distinct.2
      rw [same.rank, same.buffer] at logsRest
      refine ⟨calls ++ callsRest, snapshots ++ snapshotsRest,
        by rw [callsLater, callsFirst, List.append_assoc]; rfl,
        by rw [snapshotsLater, snapshotsFirst, List.append_assoc]; rfl, ?_, ?_, ?_⟩
      · intro call member
        rcases List.mem_append.mp member with own | inRest
        · simp [callsOwn call own]
        · exact List.mem_cons_of_mem _ (callsIn call inRest)
      · intro snapshot member
        rcases List.mem_append.mp member with own | inRest
        · simp [snapshotsOwn snapshot own]
        · exact List.mem_cons_of_mem _ (snapshotsIn snapshot inRest)
      · intro other member
        rcases List.mem_cons.mp member with rfl | inRest
        · have noCalls : callsRest.filter (·.request == other.req) = [] :=
            List.filter_eq_nil_iff.mpr fun call listed same =>
              distinct.1 (eq_of_beq same ▸ callsIn call listed)
          have noSnapshots : snapshotsRest.filter (·.1 == other.req) = [] :=
            List.filter_eq_nil_iff.mpr fun snapshot listed same =>
              distinct.1 (eq_of_beq same ▸ snapshotsIn snapshot listed)
          rw [List.filter_append, List.filter_append, noCalls, noSnapshots, List.append_nil,
            List.append_nil, List.filter_eq_self.mpr (by simpa using callsOwn),
            List.filter_eq_self.mpr (by simpa using snapshotsOwn)]
          exact logs.widen (List.prefix_refl _) sameLater.handlers
        · have apart : request.req ≠ other.req := fun same =>
            distinct.1 (same ▸ List.mem_map_of_mem _ inRest)
          have noCalls : calls.filter (·.request == other.req) = [] :=
            List.filter_eq_nil_iff.mpr fun call listed same =>
              apart (callsOwn call listed ▸ eq_of_beq same)
          have noSnapshots : snapshots.filter (·.1 == other.req) = [] :=
            List.filter_eq_nil_iff.mpr fun snapshot listed same =>
              apart (snapshotsOwn snapshot listed ▸ eq_of_beq same)
          rw [List.filter_append, List.filter_append, noCalls, noSnapshots]
          exact (logsRest other inRest).widen same.handlers (List.prefix_refl _)

theorem pollOne_logs {test : Nat → TestReport} {react : Nat → Invocation → List Action}
    {client after : MpiTreeClient} (inv : client.toRequestLedger.Invariant)
    (returned : client.pollOne test react = some after) :
    let ready := (partitionReady test (client.requestsToProcess ++ client.requests)).1
    ∃ newCalls newSnapshots, after.calls = client.calls ++ newCalls ∧
      after.snapshots = client.snapshots ++ newSnapshots ∧
      (∀ call ∈ newCalls, call.request ∈ ready.map (·.req)) ∧
      (∀ snapshot ∈ newSnapshots, snapshot.1 ∈ ready.map (·.req)) ∧
      ∀ request ∈ ready, CallbackLogs client.rank client.buffer client.handlers after.handlers
        request (newCalls.filter (·.request == request.req))
        (newSnapshots.filter (·.1 == request.req)) := by
  obtain ⟨fired, loop, done⟩ := Option.bind_eq_some.mp returned
  obtain rfl := Option.some.inj done
  have distinct : ((partitionReady test (client.requestsToProcess ++ client.requests)).1.map
      (·.req)).Nodup := by
    rw [RequestLedger.readyReqs_eq]
    exact ((List.filter_sublist _).map _).nodup inv.pending_nodup
  obtain ⟨newCalls, newSnapshots, calls, snapshots, callsIn, snapshotsIn, logs⟩ :=
    fireCallbacks_logs loop distinct
  simp only [updateLedger_calls, updateLedger_snapshots, updateLedger_handlers,
    updateLedger_rank, updateLedger_buffer] at calls snapshots logs ⊢
  exact ⟨newCalls, newSnapshots, calls, snapshots, callsIn, snapshotsIn, logs⟩

end MpiTreeClient

end IntelCaffe.Internode
