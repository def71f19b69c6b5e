import IntelCaffe.Internode.Topology
import IntelCaffe.Internode.Ledger

/-! # The MPI tree client

`MpiTreeClient` on top of its request ledger: the receive buffer, the registered handlers,
the sends to the parent and to the children, and `poll_one` with the callbacks it really
runs. User code reaches the client through `Action`s, from any thread between ticks or
synchronously from inside a callback; the client reaches user code through `Invocation`s.
What user code does when it is called is given by a reaction function: the `n`-th call into
user code in a run performs `react n invocation`.

An undefined-behaviour outcome is `none`.
-/

namespace IntelCaffe.Internode

inductive Action
  | sendToParent (buffer : List UInt8) (callback : Nat)
  | sendToChildren (buffer : List UInt8) (callback : Nat)
  | registerHandler (handler : Nat)
  deriving DecidableEq, Repr

def Action.callbacks (commSize rank : Nat) : Action → List RequestCallback
  | .sendToParent _ callback => [.sent callback]
  | .sendToChildren _ callback => (children commSize rank).map fun _ => .broadcast callback
  | .registerHandler _ => []

def Action.registered : Action → List Nat
  | .registerHandler handler => [handler]
  | .sendToParent .. | .sendToChildren .. => []

theorem received_not_mem_callbacks (commSize rank : Nat) (action : Action) :
    RequestCallback.received ∉ action.callbacks commSize rank := by
  cases action <;> simp [Action.callbacks]

theorem filter_received_flatMap_callbacks (commSize rank : Nat) (actions : List Action) :
    (actions.flatMap (·.callbacks commSize rank)).filter (· == .received) = [] :=
  List.filter_eq_nil_iff.mpr fun _ member same =>
    (List.mem_flatMap.mp member).elim fun action ⟨_, listed⟩ =>
      received_not_mem_callbacks _ _ action (eq_of_beq same ▸ listed)

/-- A call into user code: `received_from_parent`, `received_from_child`, a `SentCallback` or
a `BroadcastCallback`. -/
inductive Invocation
  | fromParent (handler : Nat) (buffer : List UInt8) (size : Int)
  | fromChild (handler : Nat) (buffer : List UInt8) (size : Int) (sender : Nat)
  | sent (callback : Nat) (ok : Bool)
  | broadcast (callback : Nat) (ok : Bool) (size : Int) (sender : Nat)
  deriving DecidableEq, Repr

def Invocation.isHandler : Invocation → Bool
  | .fromParent .. | .fromChild .. => true
  | .sent .. | .broadcast .. => false

structure Call where
  request : Nat
  invocation : Invocation
  armedReceives : List Nat
  deriving DecidableEq, Repr

namespace RequestLedger

def reportedReady (ledger : RequestLedger) (req : Nat) : Bool :=
  ledger.tested.any fun entry => entry.2.1 == req && entry.2.2.flag

def outstandingReceives (ledger : RequestLedger) : List Nat :=
  (ledger.submitted.filter fun request =>
    request.callback == .received && !ledger.reportedReady request.req).map (·.req)

theorem outstandingReceives_submitAll {callbacks : List RequestCallback}
    (sends : RequestCallback.received ∉ callbacks) (ledger : RequestLedger) :
    (ledger.submitAll callbacks).outstandingReceives = ledger.outstandingReceives := by
  have noReceive : ∀ request ∈ freshRequests ledger.nextReq callbacks,
      request.callback ≠ .received := fun request member same =>
    sends (freshRequests_callbacks ledger.nextReq callbacks ▸
      same ▸ List.mem_map_of_mem _ member)
  rw [submitAll_eq]
  simp only [outstandingReceives, reportedReady, List.filter_append, List.map_append,
    List.append_right_eq_self, List.map_eq_nil_iff, List.filter_eq_nil_iff]
  intro request member
  simp [noReceive request member]

end RequestLedger

/-- One `MPI_Isend`, with the request pushed with it. -/
structure Isend where
  req : Nat
  destination : Nat
  payload : List UInt8
  callback : RequestCallback
  deriving DecidableEq, Repr

def Isend.Routed (commSize rank : Nat) (send : Isend) : Prop :=
  match send.callback with
  | .broadcast _ => send.destination ∈ children commSize rank
  | .sent _ => send.destination = parent rank
  | .received => False

def Isend.toParent (send : Isend) : Bool :=
  match send.callback with
  | .sent _ => true
  | _ => false

theorem Isend.Routed.destination_lt {commSize rank : Nat} {send : Isend}
    (routed : send.Routed commSize rank) (below : rank < commSize) :
    send.destination < commSize := by
  unfold Isend.Routed at routed
  split at routed
  · exact (pos_of_mem_children routed).2
  · have := parent_le rank
    omega
  · exact routed.elim

structure MpiTreeClient extends RequestLedger where
  /-- `mpi_get_current_proc_rank()`. -/
  rank : Nat
  /-- `mpi_get_comm_size()`. -/
  commSize : Nat
  handlers : List Nat
  buffer : List UInt8
  sends : List Isend
  calls : List Call
  snapshots : List (Nat × List Nat)
  deriving DecidableEq, Repr

namespace MpiTreeClient

def init (rank commSize : Nat) : MpiTreeClient :=
  { RequestLedger.empty with
    rank := rank
    commSize := commSize
    handlers := []
    buffer := []
    sends := []
    calls := []
    snapshots := [] }

def updateLedger (update : RequestLedger → RequestLedger) (client : MpiTreeClient) :
    MpiTreeClient :=
  { client with toRequestLedger := update client.toRequestLedger }

/-- `MpiTreeClient::set_recv`. -/
def setRecv (client : MpiTreeClient) : MpiTreeClient :=
  client.updateLedger (·.submit .received)

/-- `MpiTreeClient::set_buffer_size`. -/
def setBufferSize (maxPacketSize : Nat) (client : MpiTreeClient) : MpiTreeClient :=
  setRecv { client with
    buffer := client.buffer.take maxPacketSize ++
      List.replicate (maxPacketSize - client.buffer.length) 0 }

/-- One `MPI_Isend` and the `push_back` of its request. -/
def isend (destination : Nat) (buffer : List UInt8) (callback : RequestCallback)
    (client : MpiTreeClient) : MpiTreeClient :=
  updateLedger (·.submit callback)
    { client with sends := client.sends ++ [⟨client.nextReq, destination, buffer, callback⟩] }

/-- `MpiTreeClient::async_send_to_parent`. -/
def asyncSendToParent (buffer : List UInt8) (callback : Nat) (client : MpiTreeClient) :
    MpiTreeClient :=
  client.isend (parent client.rank) buffer (.sent callback)

/-- `MpiTreeClient::async_send_to_children`. -/
def asyncSendToChildren (buffer : List UInt8) (callback : Nat) (client : MpiTreeClient) :
    MpiTreeClient :=
  (children client.commSize client.rank).foldl
    (fun client child => client.isend child buffer (.broadcast callback)) client

/-- `MpiTreeClient::register_receive_handler`. -/
def registerReceiveHandler (handler : Nat) (client : MpiTreeClient) : MpiTreeClient :=
  { client with handlers := client.handlers ++ [handler] }

def perform (client : MpiTreeClient) : Action → MpiTreeClient
  | .sendToParent buffer callback => client.asyncSendToParent buffer callback
  | .sendToChildren buffer callback => client.asyncSendToChildren buffer callback
  | .registerHandler handler => client.registerReceiveHandler handler

def performAll (client : MpiTreeClient) (actions : List Action) : MpiTreeClient :=
  actions.foldl perform client

def invoke (react : Nat → Invocation → List Action) (request : Nat) (invocation : Invocation)
    (client : MpiTreeClient) : MpiTreeClient :=
  let actions := react client.calls.length invocation
  performAll { client with
    calls := client.calls ++ [⟨request, invocation, client.outstandingReceives⟩] } actions

/-- The handler loop of `received`: bounded by the live `handlers`, reading `to_call`. -/
def dispatch (react : Nat → Invocation → List Action) (request : Nat)
    (entry : Nat → List UInt8 → Invocation) :
    List Nat → Nat → MpiTreeClient → Option MpiTreeClient
  | toCall, i, client =>
      if i < client.handlers.length then
        match toCall with
        | [] => none
        | handler :: rest =>
            dispatch react request entry rest (i + 1)
              (client.invoke react request (entry handler client.buffer))
      else some client

/-- `MpiTreeClient::received`. -/
def received (react : Nat → Invocation → List Action) (request : Nat) (ok : Bool) (size : Int)
    (sender : Nat) (client : MpiTreeClient) : Option MpiTreeClient := do
  let client ←
    if ok then
      let toCall := client.handlers
      let client := { client with snapshots := client.snapshots ++ [(request, toCall)] }
      if sender = parent client.rank then
        dispatch react request (fun handler buffer => .fromParent handler buffer size)
          toCall 0 client
      else
        dispatch react request (fun handler buffer => .fromChild handler buffer size sender)
          toCall 0 client
    else some client
  some client.setRecv

/-- `it->callback(it->ok, it->size, it->sender)`. -/
def runCallback (react : Nat → Invocation → List Action) (request : MpiRequest)
    (client : MpiTreeClient) : Option MpiTreeClient :=
  match request.callback with
  | .received => client.received react request.req request.ok request.size request.sender
  | .sent callback => some (client.invoke react request.req (.sent callback request.ok))
  | .broadcast callback =>
      some (client.invoke react request.req
        (.broadcast callback request.ok request.size request.sender))

def fireCallbacks (react : Nat → Invocation → List Action) :
    List MpiRequest → MpiTreeClient → Option MpiTreeClient
  | [], client => some client
  | request :: rest, client =>
      ((client.updateLedger (·.recordFired request)).runCallback react request).bind
        (fireCallbacks react rest)

/-- `MpiTreeClient::poll_one`. -/
def pollOne (test : Nat → TestReport) (react : Nat → Invocation → List Action)
    (client : MpiTreeClient) : Option MpiTreeClient := do
  let client := client.updateLedger (·.takeRequests)
  let ready := (partitionReady test client.requestsToProcess).1
  let client ← (client.updateLedger (·.testRequests test)).fireCallbacks react ready
  some (client.updateLedger (·.finishTick ready.length))

/-! ## Runs -/

inductive Step
  | perform (action : Action)
  | poll (test : Nat → TestReport) (react : Nat → Invocation → List Action)

def Step.apply : Step → MpiTreeClient → Option MpiTreeClient
  | .perform action, client => some (client.perform action)
  | .poll test react, client => client.pollOne test react

def run (client : MpiTreeClient) : List Step → Option MpiTreeClient
  | [] => some client
  | step :: rest => (step.apply client).bind (run · rest)

def start (rank commSize maxPacketSize : Nat) : MpiTreeClient :=
  (init rank commSize).setBufferSize maxPacketSize

/-! ## What user code can change -/

@[simp] theorem updateLedger_toRequestLedger (update : RequestLedger → RequestLedger)
    (client : MpiTreeClient) :
    (client.updateLedger update).toRequestLedger = update client.toRequestLedger := rfl

section
variable (update : RequestLedger → RequestLedger) (client : MpiTreeClient)

@[simp] theorem updateLedger_rank : (client.updateLedger update).rank = client.rank := rfl
@[simp] theorem updateLedger_buffer : (client.updateLedger update).buffer = client.buffer := rfl
@[simp] theorem updateLedger_handlers :
    (client.updateLedger update).handlers = client.handlers := rfl
@[simp] theorem updateLedger_calls : (client.updateLedger update).calls = client.calls := rfl
@[simp] theorem updateLedger_snapshots :
    (client.updateLedger update).snapshots = client.snapshots := rfl

end

def isends (buffer : List UInt8) (callback : RequestCallback) : Nat → List Nat → List Isend
  | _, [] => []
  | start, destination :: rest =>
      ⟨start, destination, buffer, callback⟩ :: isends buffer callback (start + 1) rest

theorem mem_isends {buffer : List UInt8} {callback : RequestCallback} :
    ∀ {start : Nat} {destinations : List Nat} {send : Isend},
      send ∈ isends buffer callback start destinations →
      send.destination ∈ destinations ∧ send.payload = buffer ∧ send.callback = callback
  | _, [], _, member => nomatch member
  | _, _ :: _, _, member => by
      rcases List.mem_cons.mp member with rfl | later
      · simp
      · obtain ⟨destination, payload, callback⟩ := mem_isends later
        exact ⟨List.mem_cons_of_mem _ destination, payload, callback⟩

theorem isends_map (buffer : List UInt8) (callback : RequestCallback) :
    ∀ start destinations, (isends buffer callback start destinations).map
      (fun send => (send.destination, send.payload)) = destinations.map (·, buffer)
  | _, [] => rfl
  | _, _ :: _ => congrArg _ (isends_map buffer callback _ _)

theorem foldl_isend (destinations : List Nat) (buffer : List UInt8)
    (callback : RequestCallback) (client : MpiTreeClient) :
    destinations.foldl (fun client child => client.isend child buffer callback) client =
      { client with
        toRequestLedger :=
          client.toRequestLedger.submitAll (destinations.map fun _ => callback)
        sends := client.sends ++ isends buffer callback client.nextReq destinations } := by
  induction destinations generalizing client with
  | nil => simp [isends, RequestLedger.submitAll]
  | cons destination rest induction =>
      rw [List.foldl_cons, induction]
      simp [isend, updateLedger, isends, RequestLedger.submitAll, RequestLedger.submit]

theorem asyncSendToChildren_sends (buffer : List UInt8) (callback : Nat) (client : MpiTreeClient) :
    (client.asyncSendToChildren buffer callback).sends = client.sends ++
      isends buffer (.broadcast callback) client.nextReq
        (children client.commSize client.rank) := by
  rw [asyncSendToChildren, foldl_isend]

structure SameSetup (before after : MpiTreeClient) : Prop where
  rank : after.rank = before.rank
  commSize : after.commSize = before.commSize
  buffer : after.buffer = before.buffer
  handlers : before.handlers <+: after.handlers
  sends : ∃ new, after.sends = before.sends ++ new ∧
    ∀ send ∈ new, send.Routed before.commSize before.rank

theorem SameSetup.of_sends_eq {before after : MpiTreeClient} (rank : after.rank = before.rank)
    (commSize : after.commSize = before.commSize) (buffer : after.buffer = before.buffer)
    (handlers : after.handlers = before.handlers) (sends : after.sends = before.sends) :
    SameSetup before after :=
  ⟨rank, commSize, buffer, handlers ▸ List.prefix_refl _, [], by rw [sends, List.append_nil],
    by simp⟩

theorem SameSetup.refl (client : MpiTreeClient) : SameSetup client client :=
  .of_sends_eq rfl rfl rfl rfl rfl

theorem SameSetup.updateLedger (update : RequestLedger → RequestLedger) (client : MpiTreeClient) :
    SameSetup client (client.updateLedger update) :=
  .of_sends_eq rfl rfl rfl rfl rfl

theorem SameSetup.trans {first second third : MpiTreeClient} (earlier : SameSetup first second)
    (later : SameSetup second third) : SameSetup first third := by
  obtain ⟨new, sends, routed⟩ := earlier.sends
  obtain ⟨newLater, sendsLater, routedLater⟩ := later.sends
  refine ⟨later.rank.trans earlier.rank, later.commSize.trans earlier.commSize,
    later.buffer.trans earlier.buffer, earlier.handlers.trans later.handlers, new ++ newLater,
    by rw [sendsLater, sends, List.append_assoc], fun send member => ?_⟩
  rcases List.mem_append.mp member with old | fresh
  · exact routed send old
  · rw [← earlier.rank, ← earlier.commSize]
    exact routedLater send fresh

theorem SameSetup.routed {before after : MpiTreeClient} (same : SameSetup before after)
    (routed : ∀ send ∈ before.sends, send.Routed before.commSize before.rank) :
    ∀ send ∈ after.sends, send.Routed before.commSize before.rank := by
  obtain ⟨new, sends, routedNew⟩ := same.sends
  intro send member
  rw [sends] at member
  exact (List.mem_append.mp member).elim (routed send) (routedNew send)

theorem SameSetup.sends_subset {before after : MpiTreeClient} (same : SameSetup before after) :
    before.sends ⊆ after.sends := by
  obtain ⟨new, sends, _⟩ := same.sends
  rw [sends]
  exact List.subset_append_left _ _

theorem perform_spec (client : MpiTreeClient) (action : Action) :
    SameSetup client (client.perform action) ∧ (client.perform action).calls = client.calls ∧
      (client.perform action).snapshots = client.snapshots ∧
      (client.perform action).handlers = client.handlers ++ action.registered ∧
      (client.perform action).toRequestLedger =
        client.toRequestLedger.submitAll (action.callbacks client.commSize client.rank) := by
  cases action with
  | sendToParent buffer callback =>
      exact ⟨⟨rfl, rfl, rfl, List.prefix_refl _, _, rfl, by simp [Isend.Routed]⟩, rfl, rfl,
        by simp [perform, asyncSendToParent, isend, updateLedger, Action.registered], rfl⟩
  | sendToChildren buffer callback =>
      rw [perform, asyncSendToChildren, foldl_isend]
      refine ⟨⟨rfl, rfl, rfl, List.prefix_refl _, _, rfl, fun send member => ?_⟩, rfl, rfl,
        by simp [Action.registered], rfl⟩
      obtain ⟨child, _, broadcast⟩ := mem_isends member
      simpa [Isend.Routed, broadcast] using child
  | registerHandler handler =>
      exact ⟨⟨rfl, rfl, rfl, List.prefix_append _ _, [], by simp [perform,
        registerReceiveHandler], by simp⟩, rfl, rfl, rfl, rfl⟩

theorem performAll_spec (client : MpiTreeClient) (actions : List Action) :
    SameSetup client (client.performAll actions) ∧
      (client.performAll actions).calls = client.calls ∧
      (client.performAll actions).snapshots = client.snapshots ∧
      (client.performAll actions).handlers = client.handlers ++ actions.flatMap (·.registered) ∧
      (client.performAll actions).toRequestLedger = client.toRequestLedger.submitAll
        (actions.flatMap (·.callbacks client.commSize client.rank)) := by
  induction actions generalizing client with
  | nil => exact ⟨.refl client, rfl, rfl, by simp [performAll], rfl⟩
  | cons action rest induction =>
      obtain ⟨same, calls, snapshots, handlers, ledger⟩ := perform_spec client action
      obtain ⟨sameRest, callsRest, snapshotsRest, handlersRest, ledgerRest⟩ :=
        induction (client.perform action)
      simp only [performAll, List.foldl_cons] at *
      refine ⟨same.trans sameRest, callsRest.trans calls, snapshotsRest.trans snapshots,
        by simp [handlersRest, handlers], ?_⟩
      rw [ledgerRest, ledger, same.rank, same.commSize, RequestLedger.submitAll_append]
      rfl

theorem invoke_spec (react : Nat → Invocation → List Action) (request : Nat)
    (invocation : Invocation) (client : MpiTreeClient) :
    let actions := react client.calls.length invocation
    let after := client.invoke react request invocation
    SameSetup client after ∧
      after.calls = client.calls ++ [⟨request, invocation, client.outstandingReceives⟩] ∧
      after.snapshots = client.snapshots ∧
      after.handlers = client.handlers ++ actions.flatMap (·.registered) ∧
      after.toRequestLedger = client.toRequestLedger.submitAll
        (actions.flatMap (·.callbacks client.commSize client.rank)) := by
  obtain ⟨same, calls, snapshots, handlers, ledger⟩ := performAll_spec { client with
    calls := client.calls ++ [⟨request, invocation, client.outstandingReceives⟩] }
    (react client.calls.length invocation)
  have logged : SameSetup client { client with
      calls := client.calls ++ [⟨request, invocation, client.outstandingReceives⟩] } :=
    .of_sends_eq rfl rfl rfl rfl rfl
  exact ⟨logged.trans same, calls, snapshots, handlers, ledger⟩

theorem dispatch_some {react : Nat → Invocation → List Action} {request : Nat}
    {entry : Nat → List UInt8 → Invocation} :
    ∀ {rest : List Nat} {i : Nat} {client after : MpiTreeClient},
      i + rest.length ≤ client.handlers.length →
      dispatch react request entry rest i client = some after →
      client.handlers.length = i + rest.length ∧ after.handlers = client.handlers ∧
      SameSetup client after ∧ after.snapshots = client.snapshots ∧
      after.calls = client.calls ++ rest.map (fun handler =>
        ⟨request, entry handler client.buffer, client.outstandingReceives⟩) ∧
      ∃ callbacks, after.toRequestLedger = client.toRequestLedger.submitAll callbacks ∧
        RequestCallback.received ∉ callbacks
  | [], i, client, after, aligned, returned => by
      rw [dispatch] at returned
      split at returned
      · cases returned
      · cases returned
        exact ⟨by simp at aligned ⊢; omega, rfl, .refl _, rfl, by simp, [], rfl, by simp⟩
  | handler :: rest, i, client, after, aligned, returned => by
      simp only [List.length_cons] at aligned
      rw [dispatch, if_pos (by omega)] at returned
      obtain ⟨same, calls, snapshots, handlers, ledger⟩ :=
        invoke_spec react request (entry handler client.buffer) client
      have sends : RequestCallback.received ∉
          (react client.calls.length (entry handler client.buffer)).flatMap
            (·.callbacks client.commSize client.rank) := by
        simp only [List.mem_flatMap, not_exists, not_and]
        exact fun action _ => received_not_mem_callbacks _ _ action
      obtain ⟨length, handlersAfter, sameAfter, snapshotsAfter, callsAfter, callbacks, ledgerAfter,
        notReceive⟩ := dispatch_some (by rw [handlers, List.length_append]; omega) returned
      rw [handlers, List.length_append] at length
      have noneRegistered : (react client.calls.length (entry handler client.buffer)).flatMap
          (·.registered) = [] := List.eq_nil_of_length_eq_zero (by omega)
      rw [noneRegistered, List.append_nil] at handlers
      have sameOutstanding : (client.invoke react request
          (entry handler client.buffer)).outstandingReceives = client.outstandingReceives := by
        rw [ledger]
        exact RequestLedger.outstandingReceives_submitAll sends _
      refine ⟨by simp; omega, handlersAfter.trans handlers, same.trans sameAfter,
        snapshotsAfter.trans snapshots, ?_,
        (react client.calls.length (entry handler client.buffer)).flatMap
          (·.callbacks client.commSize client.rank) ++ callbacks, ?_, ?_⟩
      · rw [callsAfter, calls, sameOutstanding, same.buffer]
        simp
      · rw [ledgerAfter, ledger, RequestLedger.submitAll_append]
      · exact fun member => (List.mem_append.mp member).elim sends notReceive

/-- The `sender == parent()` branch of `received`. -/
def entryPoint (rank : Nat) (size : Int) (sender : Nat) (handler : Nat)
    (buffer : List UInt8) : Invocation :=
  if sender = parent rank then .fromParent handler buffer size
  else .fromChild handler buffer size sender

theorem received_eq (react : Nat → Invocation → List Action) (request : Nat) (ok : Bool)
    (size : Int) (sender : Nat) (client : MpiTreeClient) :
    client.received react request ok size sender =
      (if ok then
        dispatch react request (entryPoint client.rank size sender) client.handlers 0
          { client with snapshots := client.snapshots ++ [(request, client.handlers)] }
        else some client).bind fun dispatched => some dispatched.setRecv := by
  unfold received entryPoint
  cases ok <;> by_cases toParent : sender = parent client.rank <;> simp [toParent]

theorem received_some {react : Nat → Invocation → List Action} {request : Nat} {ok : Bool}
    {size : Int} {sender : Nat} {client after : MpiTreeClient}
    (returned : client.received react request ok size sender = some after) :
    SameSetup client after ∧ after.handlers = client.handlers ∧
      after.calls = client.calls ++ (if ok then client.handlers.map fun handler =>
        ⟨request, entryPoint client.rank size sender handler client.buffer,
          client.outstandingReceives⟩ else []) ∧
      after.snapshots = client.snapshots ++ (if ok then [(request, client.handlers)] else []) ∧
      ∃ callbacks, RequestCallback.received ∉ callbacks ∧
        after.toRequestLedger = client.toRequestLedger.submitAll (callbacks ++ [.received]) := by
  rw [received_eq] at returned
  obtain ⟨dispatched, dispatchReturned, done⟩ := Option.bind_eq_some.mp returned
  cases done
  cases ok with
  | false =>
      cases dispatchReturned
      exact ⟨.of_sends_eq rfl rfl rfl rfl rfl, rfl, by simp [setRecv, updateLedger],
        by simp [setRecv, updateLedger], [], by simp, rfl⟩
  | true =>
      obtain ⟨_, handlers, same, snapshots, calls, callbacks, ledger, sends⟩ :=
        dispatch_some (by simp) dispatchReturned
      have snapshot : SameSetup client
          { client with snapshots := client.snapshots ++ [(request, client.handlers)] } :=
        .of_sends_eq rfl rfl rfl rfl rfl
      refine ⟨snapshot.trans (same.trans (.updateLedger _ _)), handlers, by simpa using calls,
        by simpa using snapshots, callbacks, sends, ?_⟩
      rw [← RequestLedger.submitAll_append, ← ledger]
      rfl

theorem runCallback_some {react : Nat → Invocation → List Action} {request : MpiRequest}
    {client after : MpiTreeClient} (returned : client.runCallback react request = some after) :
    SameSetup client after ∧
      ∃ callbacks, after.toRequestLedger = client.toRequestLedger.submitAll callbacks := by
  unfold runCallback at returned
  split at returned
  · obtain ⟨same, _, _, _, callbacks, _, ledger⟩ := received_some returned
    exact ⟨same, _, ledger⟩
  all_goals
    cases returned
    obtain ⟨same, _, _, _, ledger⟩ := invoke_spec react request.req _ client
    exact ⟨same, _, ledger⟩

theorem fireCallbacks_ledger {react : Nat → Invocation → List Action} :
    ∀ {ready : List MpiRequest} {client after : MpiTreeClient},
      client.fireCallbacks react ready = some after →
      SameSetup client after ∧ ∃ submissions, after.toRequestLedger =
        RequestLedger.fireCallbacks ready submissions client.toRequestLedger
  | [], client, after, returned => by
      cases returned
      exact ⟨.refl _, [], rfl⟩
  | request :: rest, client, after, returned => by
      obtain ⟨middle, first, later⟩ := Option.bind_eq_some.mp returned
      obtain ⟨sameFirst, callbacks, ledgerFirst⟩ := runCallback_some first
      obtain ⟨sameLater, submissions, ledgerLater⟩ := fireCallbacks_ledger later
      refine ⟨(SameSetup.updateLedger _ client).trans (sameFirst.trans sameLater),
        callbacks :: submissions, ?_⟩
      rw [ledgerLater, ledgerFirst]
      rfl

theorem pollOne_ledger {test : Nat → TestReport} {react : Nat → Invocation → List Action}
    {client after : MpiTreeClient} (returned : client.pollOne test react = some after) :
    SameSetup client after ∧ ∃ submissions,
      after.toRequestLedger = client.toRequestLedger.pollOne test submissions := by
  obtain ⟨fired, loop, done⟩ := Option.bind_eq_some.mp returned
  cases done
  obtain ⟨same, submissions, ledger⟩ := fireCallbacks_ledger loop
  exact ⟨(((SameSetup.updateLedger _ client).trans (.updateLedger _ _)).trans same).trans
    (.updateLedger _ _), submissions, by
    simp only [updateLedger_toRequestLedger, ledger]; rfl⟩

theorem run_ledger : ∀ {client after : MpiTreeClient} {steps : List Step},
    client.run steps = some after →
    SameSetup client after ∧
      ∃ ledgerSteps, after.toRequestLedger = client.toRequestLedger.run ledgerSteps
  | client, after, [], returned => by
      cases returned
      exact ⟨.refl _, [], rfl⟩
  | client, after, step :: rest, returned => by
      obtain ⟨middle, first, later⟩ := Option.bind_eq_some.mp returned
      obtain ⟨sameLater, ledgerSteps, ledgerLater⟩ := run_ledger later
      have stepLedger : SameSetup client middle ∧ ∃ firstSteps,
          middle.toRequestLedger = client.toRequestLedger.run firstSteps := by
        cases step with
        | perform action =>
            cases first
            obtain ⟨same, _, _, _, ledger⟩ := perform_spec client action
            exact ⟨same, _, ledger.trans (RequestLedger.submitAll_eq_run _ _)⟩
        | poll test react =>
            obtain ⟨same, submissions, ledger⟩ := pollOne_ledger first
            exact ⟨same, [.poll test submissions], ledger⟩
      obtain ⟨sameFirst, firstSteps, ledgerFirst⟩ := stepLedger
      exact ⟨sameFirst.trans sameLater, firstSteps ++ ledgerSteps, by
        rw [ledgerLater, ledgerFirst, RequestLedger.run_append]⟩

theorem start_run_ledger {rank commSize maxPacketSize : Nat} {steps : List Step}
    {client : MpiTreeClient}
    (reached : (start rank commSize maxPacketSize).run steps = some client) :
    ∃ ledgerSteps, client.toRequestLedger = RequestLedger.empty.run ledgerSteps := by
  obtain ⟨_, ledgerSteps, ledger⟩ := run_ledger reached
  exact ⟨.submit .received :: ledgerSteps, ledger⟩

theorem start_run_ledger_one_handler :
    ∃ ledgerSteps, ((start 1 2 4).perform (.registerHandler 7)).toRequestLedger =
      RequestLedger.empty.run ledgerSteps :=
  start_run_ledger (show (start 1 2 4).run [.perform (.registerHandler 7)] =
    some ((start 1 2 4).perform (.registerHandler 7)) from rfl)

end MpiTreeClient

end IntelCaffe.Internode
