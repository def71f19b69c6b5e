import IntelCaffe.Internode.Dispatch

/-! # A cluster of tree clients

`total_nodes` processes, each with its `MpiTreeClient` set up by `set_buffer_size`, and the
transport between them. A step is user code of one process acting on its client, one
`poll_one` tick of one process, or the transport delivering one message. The transport may
deliver any message in flight, in any order, into the standing wildcard receive of its
destination, at most once and only if it fits the buffer: it writes the bytes at the front of
the receive buffer, and the test of that receive then reports the source and the size. A
receive not yet filled is reported pending; what the transport reports about sends is free.
Delivering inside a tick after `set_recv` has re-armed the receive is the same as delivering
after the tick: the rest of the tick never reads the buffer or the new receive.

Each delivery also records, as a ghost, the handlers its destination had registered when the
receive was filled: those are the handlers the message must reach.
-/

namespace IntelCaffe.Internode

structure Message where
  source : Nat
  send : Isend
  deriving DecidableEq, Repr

/- The handler call a message should cause, by the kind of its send. -/
def Message.entry (message : Message) (handler : Nat) (buffer : List UInt8) : Invocation :=
  match message.send.callback with
  | .sent _ => .fromChild handler buffer message.send.payload.length message.source
  | _ => .fromParent handler buffer message.send.payload.length

structure Delivery where
  rank : Nat
  receive : Nat
  message : Message
  registered : List Nat
  deriving DecidableEq, Repr

def Delivery.report (delivery : Delivery) : TestReport :=
  ⟨true, mpiSuccess, delivery.message.source, mpiSuccess, delivery.message.send.payload.length⟩

/- `received` took a snapshot `to_call` for the receive `delivery` filled, between the handlers
registered when it was filled and those registered now, and called each of its handlers once, in
order, through `entry`, on a buffer that starts with the bytes of the message. -/
def Delivery.Dispatched (delivery : Delivery) (client : MpiTreeClient)
    (entry : Nat → List UInt8 → Invocation) : Prop :=
  ∃ (toCall : List Nat) (buffer : List UInt8), (delivery.receive, toCall) ∈ client.snapshots ∧
    delivery.registered <+: toCall ∧ toCall <+: client.handlers ∧
    buffer.take delivery.message.send.payload.length = delivery.message.send.payload ∧
    (client.calls.filter (·.request == delivery.receive)).map (·.invocation) =
      toCall.map fun handler => entry handler buffer

theorem Delivery.Dispatched.grow {delivery : Delivery} {client after : MpiTreeClient}
    {entry : Nat → List UInt8 → Invocation} (dispatched : delivery.Dispatched client entry)
    (snapshots : client.snapshots ⊆ after.snapshots) (handlers : client.handlers <+: after.handlers)
    (calls : after.calls.filter (·.request == delivery.receive) =
      client.calls.filter (·.request == delivery.receive)) :
    delivery.Dispatched after entry := by
  obtain ⟨toCall, buffer, snapshot, first, last, startsWith, callsEq⟩ := dispatched
  exact ⟨toCall, buffer, snapshots snapshot, first, last.trans handlers, startsWith,
    calls ▸ callsEq⟩

structure TreeCluster where
  size : Nat
  clients : Nat → MpiTreeClient
  deliveries : List Delivery

def MpiTreeClient.writeBuffer (payload : List UInt8) (client : MpiTreeClient) :
    MpiTreeClient :=
  { client with buffer := payload ++ client.buffer.drop payload.length }

namespace TreeCluster

def start (size maxPacketSize : Nat) : TreeCluster :=
  ⟨size, fun rank => MpiTreeClient.start rank size maxPacketSize, []⟩

def update (rank : Nat) (client : MpiTreeClient) (cluster : TreeCluster) : TreeCluster :=
  { cluster with clients := Function.update cluster.clients rank client }

def deliver (message : Message) (cluster : TreeCluster) : Option TreeCluster :=
  let target := cluster.clients message.send.destination
  match target.outstandingReceives with
  | [receive] =>
      if message.source < cluster.size ∧ message.send ∈ (cluster.clients message.source).sends ∧
          message ∉ cluster.deliveries.map (·.message) ∧
          (message.send.destination, receive) ∉
            cluster.deliveries.map (fun delivery => (delivery.rank, delivery.receive)) ∧
          message.send.payload.length ≤ target.buffer.length then
        some { cluster.update message.send.destination (target.writeBuffer message.send.payload)
          with deliveries := cluster.deliveries ++
            [⟨message.send.destination, receive, message, target.handlers⟩] }
      else none
  | _ => none

def report (cluster : TreeCluster) (rank : Nat) (sendReports : Nat → TestReport) (req : Nat) :
    TestReport :=
  match cluster.deliveries.find? fun delivery => delivery.rank == rank && delivery.receive == req
  with
  | some delivery => delivery.report
  | none =>
      if req ∈ (cluster.clients rank).outstandingReceives then ⟨false, mpiSuccess, 0, mpiSuccess, 0⟩
      else sendReports req

inductive Step
  | perform (rank : Nat) (action : Action)
  | poll (rank : Nat) (sendReports : Nat → TestReport) (react : Nat → Invocation → List Action)
  | deliver (message : Message)

def Step.apply : Step → TreeCluster → Option TreeCluster
  | .perform rank action, cluster =>
      if rank < cluster.size then
        some (cluster.update rank ((cluster.clients rank).perform action))
      else none
  | .poll rank sendReports react, cluster =>
      if rank < cluster.size then
        ((cluster.clients rank).pollOne (cluster.report rank sendReports) react).map
          (cluster.update rank)
      else none
  | .deliver message, cluster => cluster.deliver message

def run (cluster : TreeCluster) : List Step → Option TreeCluster
  | [] => some cluster
  | step :: rest => (step.apply cluster).bind (run · rest)

/-! ## One process of the cluster

What holds of the process `rank` of `size` processes between steps, given the receives the
transport has filled: a filled receive is a receive of this process; while it is outstanding
the buffer starts with its bytes; the handlers registered when it was filled are still the first
ones; every handler call was made for a filled receive; and once a filled receive has completed,
its snapshot was dispatched with its bytes, its size and its source. -/

structure RankInvariant (size rank : Nat) (deliveries : List Delivery)
    (client : MpiTreeClient) : Prop where
  armed : client.ReceiveArmed
  rank_eq : client.rank = rank
  commSize_eq : client.commSize = size
  routed : ∀ send ∈ client.sends, send.Routed size rank
  calls_fired : ∀ call ∈ client.calls, call.request ∈ client.firedReqs
  receive : ∀ delivery ∈ deliveries, delivery.rank = rank →
    ∃ request ∈ client.submitted, request.req = delivery.receive ∧ request.callback = .received
  filled : ∀ delivery ∈ deliveries, delivery.rank = rank →
    delivery.receive ∈ client.outstandingReceives →
    client.buffer.take delivery.message.send.payload.length = delivery.message.send.payload
  registered : ∀ delivery ∈ deliveries, delivery.rank = rank →
    delivery.registered <+: client.handlers
  handler_delivered : ∀ call ∈ client.calls, call.invocation.isHandler = true →
    ∃ delivery ∈ deliveries, delivery.rank = rank ∧ delivery.receive = call.request
  dispatched : ∀ delivery ∈ deliveries, delivery.rank = rank →
    delivery.receive ∈ client.firedReqs → delivery.Dispatched client
      (MpiTreeClient.entryPoint rank delivery.message.send.payload.length delivery.message.source)

theorem start_rankInvariant (size maxPacketSize rank : Nat) :
    RankInvariant size rank [] (MpiTreeClient.start rank size maxPacketSize) where
  armed := MpiTreeClient.start_receiveArmed rank size maxPacketSize
  rank_eq := rfl
  commSize_eq := rfl
  routed _ member := nomatch member
  calls_fired _ member := nomatch member
  receive _ member := nomatch member
  filled _ member := nomatch member
  registered _ member := nomatch member
  handler_delivered _ member := nomatch member
  dispatched _ member := nomatch member

theorem RankInvariant.extend {size rank : Nat} {deliveries : List Delivery}
    {client : MpiTreeClient} (inv : RankInvariant size rank deliveries client)
    {delivery : Delivery} (other : delivery.rank ≠ rank) :
    RankInvariant size rank (deliveries ++ [delivery]) client := by
  have old : ∀ {entry}, entry ∈ deliveries ++ [delivery] → entry.rank = rank → entry ∈ deliveries :=
    fun member same => (List.mem_append.mp member).resolve_right fun last =>
      other (List.mem_singleton.mp last ▸ same)
  exact ⟨inv.armed, inv.rank_eq, inv.commSize_eq, inv.routed, inv.calls_fired,
    fun entry member same => inv.receive entry (old member same) same,
    fun entry member same => inv.filled entry (old member same) same,
    fun entry member same => inv.registered entry (old member same) same,
    fun call member handler => (inv.handler_delivered call member handler).imp
      fun _ ⟨listed, same⟩ => ⟨List.mem_append_left _ listed, same⟩,
    fun entry member same => inv.dispatched entry (old member same) same⟩

section
variable {size rank : Nat} {deliveries : List Delivery} {client : MpiTreeClient}

theorem RankInvariant.sends_routed (inv : RankInvariant size rank deliveries client)
    {after : MpiTreeClient} (same : MpiTreeClient.SameSetup client after) :
    ∀ send ∈ after.sends, send.Routed size rank := by
  have routed := same.routed (by rw [inv.commSize_eq, inv.rank_eq]; exact inv.routed)
  rwa [inv.commSize_eq, inv.rank_eq] at routed

theorem RankInvariant.perform (inv : RankInvariant size rank deliveries client)
    (action : Action) : RankInvariant size rank deliveries (client.perform action) := by
  obtain ⟨same, calls, snapshots, _, ledger⟩ := MpiTreeClient.perform_spec client action
  have fired : (client.perform action).firedReqs = client.firedReqs := by
    rw [ledger, RequestLedger.submitAll_eq]
    rfl
  have outstanding : (client.perform action).outstandingReceives = client.outstandingReceives := by
    rw [ledger]
    exact RequestLedger.outstandingReceives_submitAll (received_not_mem_callbacks _ _ _) _
  have submitted : client.submitted ⊆ (client.perform action).submitted := by
    rw [ledger, RequestLedger.submitAll_eq]
    exact List.subset_append_left _ _
  refine ⟨inv.armed.apply (show (MpiTreeClient.Step.perform action).apply client =
      some (client.perform action) from rfl), same.rank.trans inv.rank_eq,
    same.commSize.trans inv.commSize_eq, inv.sends_routed same, ?_, ?_, ?_,
    fun delivery member sameRank => (inv.registered delivery member sameRank).trans same.handlers,
    ?_, fun delivery member sameRank isFired => ?_⟩
  · rw [calls, fired]
    exact inv.calls_fired
  · exact fun delivery member same => (inv.receive delivery member same).imp
      fun _ ⟨listed, rest⟩ => ⟨submitted listed, rest⟩
  · intro delivery member sameRank isOutstanding
    rw [same.buffer]
    exact inv.filled delivery member sameRank (outstanding ▸ isOutstanding)
  · rw [calls]
    exact inv.handler_delivered
  · exact (inv.dispatched delivery member sameRank (fired ▸ isFired)).grow
      (snapshots ▸ List.Subset.refl _) same.handlers (by rw [calls])

theorem mem_ready {test : Nat → TestReport} {pending : List MpiRequest} {request : MpiRequest}
    (member : request ∈ (partitionReady test pending).1) :
    ∃ original ∈ pending, (test original.req).flag = true ∧
      request = completed (test original.req) original := by
  rw [partitionReady_fst] at member
  obtain ⟨original, listed, rfl⟩ := List.mem_map.mp member
  exact ⟨original, (List.mem_filter.mp listed).1, (List.mem_filter.mp listed).2, rfl⟩

theorem RankInvariant.poll (inv : RankInvariant size rank deliveries client)
    {test : Nat → TestReport} {react : Nat → Invocation → List Action} {after : MpiTreeClient}
    (reports : ∀ delivery ∈ deliveries, delivery.rank = rank →
      test delivery.receive = delivery.report)
    (pendingReceives : ∀ req ∈ client.outstandingReceives, (test req).flag = true →
      ∃ delivery ∈ deliveries, delivery.rank = rank ∧ delivery.receive = req)
    (returned : client.pollOne test react = some after) :
    RankInvariant size rank deliveries after := by
  have ledgerInv := inv.armed.ledger
  obtain ⟨same, submissions, ledger⟩ := MpiTreeClient.pollOne_ledger returned
  obtain ⟨newCalls, newSnapshots, calls, snapshots, callsIn, _, logs⟩ :=
    MpiTreeClient.pollOne_logs ledgerInv returned
  have fired : after.firedReqs = client.firedReqs ++
      (partitionReady test (client.requestsToProcess ++ client.requests)).1.map (·.req) := by
    rw [ledger]
    exact RequestLedger.pollOne_firedReqs test submissions _
  have readyFresh : ∀ req ∈ (partitionReady test
      (client.requestsToProcess ++ client.requests)).1.map (·.req), req ∉ client.firedReqs := by
    intro req member
    obtain ⟨request, listed, rfl⟩ := List.mem_map.mp member
    obtain ⟨original, pending, _, rfl⟩ := mem_ready listed
    exact (ledgerInv.mem_pending pending).2
  refine ⟨inv.armed.apply (show (MpiTreeClient.Step.poll test react).apply client = some after
      from returned), same.rank.trans inv.rank_eq, same.commSize.trans inv.commSize_eq,
    inv.sends_routed same, ?_, ?_, ?_,
    fun delivery member sameRank => (inv.registered delivery member sameRank).trans same.handlers,
    ?_, ?_⟩
  · intro call member
    rw [fired]
    rw [calls] at member
    rcases List.mem_append.mp member with old | new
    · exact List.mem_append_left _ (inv.calls_fired call old)
    · exact List.mem_append_right _ (callsIn call new)
  · have submitted : client.submitted ⊆ after.submitted := by
      rw [ledger]
      exact RequestLedger.submitted_subset_pollOne test submissions _
    exact fun delivery member same => (inv.receive delivery member same).imp
      fun _ ⟨listed, rest⟩ => ⟨submitted listed, rest⟩
  · intro delivery member sameRank isOutstanding
    obtain ⟨request, listed, isReq, _⟩ := inv.receive delivery member sameRank
    rw [ledger] at isOutstanding
    have pendingFlag := (ledgerInv.outstanding_pollOne test submissions isOutstanding
      (isReq ▸ ledgerInv.submitted_req_lt listed)).2
    rw [reports delivery member sameRank] at pendingFlag
    cases pendingFlag
  · intro call member handler
    rw [calls] at member
    rcases List.mem_append.mp member with old | new
    · exact inv.handler_delivered call old handler
    · obtain ⟨request, listed, sameReq⟩ := List.mem_map.mp (callsIn call new)
      have chunk := logs request listed
      have inChunk : call ∈ newCalls.filter (·.request == request.req) :=
        List.mem_filter.mpr ⟨new, by simp [sameReq]⟩
      unfold MpiTreeClient.CallbackLogs at chunk
      split at chunk
      case isTrue receivedOk =>
        obtain ⟨original, pending, flag, rfl⟩ := mem_ready listed
        obtain ⟨delivery, delivered, rankEq, receiveEq⟩ :=
          pendingReceives _ (ledgerInv.mem_outstandingReceives pending receivedOk.1) flag
        exact ⟨delivery, delivered, rankEq, receiveEq.trans sameReq⟩
      case isFalse => simp [chunk.2 call inChunk] at handler
  · intro delivery member sameRank firedAfter
    rw [fired] at firedAfter
    by_cases wasFired : delivery.receive ∈ client.firedReqs
    · have noNew : newCalls.filter (·.request == delivery.receive) = [] :=
        List.filter_eq_nil_iff.mpr fun call new equal =>
          readyFresh _ (callsIn call new) (eq_of_beq equal ▸ wasFired)
      exact (inv.dispatched delivery member sameRank wasFired).grow
        (snapshots ▸ List.subset_append_left _ _) same.handlers
        (by rw [calls, List.filter_append, noNew, List.append_nil])
    · obtain ⟨request, listed, sameReq⟩ :=
        List.mem_map.mp ((List.mem_append.mp firedAfter).resolve_left wasFired)
      obtain ⟨original, pending, _, rfl⟩ := mem_ready listed
      obtain ⟨submittedRequest, submittedMember, reqEq, isReceive⟩ :=
        inv.receive delivery member sameRank
      have sameRequest : original = submittedRequest := ledgerInv.submitted_eq_of_req
        (ledgerInv.mem_pending pending).1 submittedMember (sameReq.trans reqEq.symm)
      have report := reports delivery member sameRank
      rw [← sameReq, completed_req] at report
      have chunk := logs _ listed
      unfold MpiTreeClient.CallbackLogs at chunk
      rw [if_pos ⟨by simp [sameRequest, isReceive], by simp [completed, report, Delivery.report]⟩]
        at chunk
      obtain ⟨toCall, snapshotsEq, first, last, callsEq⟩ := chunk
      have noOld : client.calls.filter (·.request == delivery.receive) = [] :=
        List.filter_eq_nil_iff.mpr fun call old equal =>
          wasFired (eq_of_beq equal ▸ inv.calls_fired call old)
      refine ⟨toCall, client.buffer, ?_, (inv.registered delivery member sameRank).trans first,
        last, inv.filled delivery member sameRank ?_, ?_⟩
      · have inNew : (delivery.receive, toCall) ∈
            newSnapshots.filter (·.1 == (completed (test original.req) original).req) := by
          rw [snapshotsEq, sameReq]
          exact List.mem_singleton_self _
        rw [snapshots]
        exact List.mem_append_right _ (List.mem_filter.mp inNew).1
      · have outstanding := ledgerInv.mem_outstandingReceives pending
          (by rw [sameRequest]; exact isReceive)
        rw [← sameReq]
        exact outstanding
      · rw [calls, List.filter_append, noOld, List.nil_append, ← sameReq, callsEq]
        simp [completed, report, Delivery.report, inv.rank_eq]

theorem RankInvariant.deliver (inv : RankInvariant size rank deliveries client)
    {receive : Nat} {message : Message} (armedReceive : client.outstandingReceives = [receive])
    (unfilled :
      (rank, receive) ∉ deliveries.map fun delivery => (delivery.rank, delivery.receive)) :
    RankInvariant size rank (deliveries ++ [⟨rank, receive, message, client.handlers⟩])
      (client.writeBuffer message.send.payload) := by
  obtain ⟨request, submitted, reqEq, isReceive, notFired⟩ :=
    inv.armed.ledger.of_mem_outstandingReceives (armedReceive ▸ List.mem_singleton_self receive)
  refine ⟨⟨inv.armed.ledger, inv.armed.one_outstanding, inv.armed.handlers_unarmed⟩, inv.rank_eq,
    inv.commSize_eq, inv.routed, inv.calls_fired, ?_, ?_, ?_, ?_, ?_⟩
  · intro delivery member sameRank
    rcases List.mem_append.mp member with old | new
    · exact inv.receive delivery old sameRank
    · rw [List.mem_singleton.mp new]
      exact ⟨request, submitted, reqEq, isReceive⟩
  · intro delivery member sameRank isOutstanding
    rcases List.mem_append.mp member with old | new
    · have sameReceive : delivery.receive = receive := by
        simpa [MpiTreeClient.writeBuffer, armedReceive] using isOutstanding
      exact absurd (List.mem_map.mpr ⟨delivery, old, by rw [sameRank, sameReceive]⟩) unfilled
    · rw [List.mem_singleton.mp new]
      simp [MpiTreeClient.writeBuffer]
  · intro delivery member sameRank
    rcases List.mem_append.mp member with old | new
    · exact inv.registered delivery old sameRank
    · rw [List.mem_singleton.mp new]
      exact List.prefix_refl _
  · exact fun call member handler => (inv.handler_delivered call member handler).imp
      fun _ ⟨listed, same⟩ => ⟨List.mem_append_left _ listed, same⟩
  · intro delivery member sameRank isFired
    rcases List.mem_append.mp member with old | new
    · exact inv.dispatched delivery old sameRank isFired
    · rw [List.mem_singleton.mp new] at isFired
      exact absurd isFired notFired

end

/-! ## The cluster -/

structure Invariant (cluster : TreeCluster) : Prop where
  ranks : ∀ rank < cluster.size,
    RankInvariant cluster.size rank cluster.deliveries (cluster.clients rank)
  delivered : ∀ delivery ∈ cluster.deliveries, delivery.rank < cluster.size ∧
    delivery.message.source < cluster.size ∧
    delivery.message.send ∈ (cluster.clients delivery.message.source).sends ∧
    delivery.message.send.destination = delivery.rank
  delivered_once : (cluster.deliveries.map (·.message)).Nodup
  filled_once : (cluster.deliveries.map fun delivery => (delivery.rank, delivery.receive)).Nodup

theorem start_invariant (size maxPacketSize : Nat) : (start size maxPacketSize).Invariant where
  ranks rank _ := start_rankInvariant size maxPacketSize rank
  delivered _ member := nomatch member
  delivered_once := List.nodup_nil
  filled_once := List.nodup_nil

section
variable {cluster : TreeCluster}

theorem update_clients (rank : Nat) (client : MpiTreeClient) (other : Nat) :
    (cluster.update rank client).clients other =
      if other = rank then client else cluster.clients other :=
  Function.update_apply _ _ _ _

theorem Invariant.update (inv : cluster.Invariant) {rank : Nat} {client : MpiTreeClient}
    (rankInv : RankInvariant cluster.size rank cluster.deliveries client)
    (sends : (cluster.clients rank).sends ⊆ client.sends) :
    (cluster.update rank client).Invariant where
  ranks other below := by
    rw [update_clients]
    split
    · subst_vars
      exact rankInv
    · exact inv.ranks other below
  delivered delivery member := by
    obtain ⟨rankBelow, sourceBelow, sent, destination⟩ := inv.delivered delivery member
    refine ⟨rankBelow, sourceBelow, ?_, destination⟩
    rw [update_clients]
    split
    · subst_vars
      exact sends sent
    · exact sent
  delivered_once := inv.delivered_once
  filled_once := inv.filled_once

theorem report_delivered (inv : cluster.Invariant) {delivery : Delivery}
    (member : delivery ∈ cluster.deliveries) (sendReports : Nat → TestReport) :
    cluster.report delivery.rank sendReports delivery.receive = delivery.report := by
  unfold report
  split
  case h_1 other found =>
    have matching := List.find?_some found
    simp only [Bool.and_eq_true, beq_iff_eq] at matching
    rw [List.inj_on_of_nodup_map inv.filled_once (List.mem_of_find?_eq_some found) member
      (by simp [matching])]
  case h_2 found =>
    exact absurd (List.find?_eq_none.mp found delivery member) (by simp)

theorem delivered_of_report {rank req : Nat} {sendReports : Nat → TestReport}
    (outstanding : req ∈ (cluster.clients rank).outstandingReceives)
    (flag : (cluster.report rank sendReports req).flag = true) :
    ∃ delivery ∈ cluster.deliveries, delivery.rank = rank ∧ delivery.receive = req := by
  unfold report at flag
  split at flag
  case h_1 delivery found =>
    have matching := List.find?_some found
    simp only [Bool.and_eq_true, beq_iff_eq] at matching
    exact ⟨delivery, List.mem_of_find?_eq_some found, matching⟩
  case h_2 => simp [outstanding] at flag

theorem Invariant.perform (inv : cluster.Invariant) {rank : Nat} (below : rank < cluster.size)
    (action : Action) :
    (cluster.update rank ((cluster.clients rank).perform action)).Invariant :=
  inv.update ((inv.ranks rank below).perform action)
    (MpiTreeClient.perform_spec _ action).1.sends_subset

theorem Invariant.poll (inv : cluster.Invariant) {rank : Nat} (below : rank < cluster.size)
    {sendReports : Nat → TestReport} {react : Nat → Invocation → List Action}
    {client : MpiTreeClient}
    (returned : (cluster.clients rank).pollOne (cluster.report rank sendReports) react =
      some client) :
    (cluster.update rank client).Invariant :=
  inv.update ((inv.ranks rank below).poll
      (fun _ member sameRank => sameRank ▸ report_delivered inv member sendReports)
      (fun _ outstanding flag => delivered_of_report outstanding flag) returned)
    (MpiTreeClient.pollOne_ledger returned).1.sends_subset

theorem deliver_some {message : Message} {after : TreeCluster}
    (delivered : cluster.deliver message = some after) :
    ∃ receive, (cluster.clients message.send.destination).outstandingReceives = [receive] ∧
      message.source < cluster.size ∧ message.send ∈ (cluster.clients message.source).sends ∧
      message ∉ cluster.deliveries.map (·.message) ∧
      (message.send.destination, receive) ∉
        cluster.deliveries.map (fun delivery => (delivery.rank, delivery.receive)) ∧
      after = { cluster.update message.send.destination
        ((cluster.clients message.send.destination).writeBuffer message.send.payload) with
        deliveries := cluster.deliveries ++ [⟨message.send.destination, receive, message,
          (cluster.clients message.send.destination).handlers⟩] } := by
  unfold deliver at delivered
  dsimp only at delivered
  split at delivered
  case h_1 receive armed =>
    split at delivered
    case isTrue guard =>
      cases delivered
      exact ⟨receive, armed, guard.1, guard.2.1, guard.2.2.1, guard.2.2.2.1, rfl⟩
    case isFalse => cases delivered
  case h_2 => cases delivered

theorem Invariant.deliver (inv : cluster.Invariant) {message : Message} {after : TreeCluster}
    (delivered : cluster.deliver message = some after) : after.Invariant := by
  obtain ⟨receive, armed, sourceBelow, sent, unsent, unfilled, rfl⟩ := deliver_some delivered
  have destinationBelow : message.send.destination < cluster.size :=
    ((inv.ranks _ sourceBelow).routed _ sent).destination_lt sourceBelow
  have sameSends : ∀ rank, ((cluster.update message.send.destination
      ((cluster.clients message.send.destination).writeBuffer message.send.payload)).clients
        rank).sends = (cluster.clients rank).sends := by
    intro rank
    rw [update_clients]
    split
    · subst_vars
      rfl
    · rfl
  refine ⟨fun rank below => ?_, fun delivery member => ?_, ?_, ?_⟩
  · show RankInvariant cluster.size rank _ ((cluster.update _ _).clients rank)
    rw [update_clients]
    split
    · subst_vars
      exact (inv.ranks _ destinationBelow).deliver armed unfilled
    · exact (inv.ranks rank below).extend (Ne.symm ‹_›)
  · rw [sameSends]
    rcases List.mem_append.mp member with old | new
    · exact inv.delivered delivery old
    · rw [List.mem_singleton.mp new]
      exact ⟨destinationBelow, sourceBelow, sent, rfl⟩
  · rw [List.map_append, List.nodup_append_comm]
    exact List.nodup_cons.mpr ⟨unsent, inv.delivered_once⟩
  · rw [List.map_append, List.nodup_append_comm]
    exact List.nodup_cons.mpr ⟨unfilled, inv.filled_once⟩

theorem Invariant.apply (inv : cluster.Invariant) {after : TreeCluster} :
    ∀ {step : Step}, step.apply cluster = some after → after.Invariant
  | .perform rank action, applied => by
      rw [Step.apply] at applied
      split at applied
      · cases applied
        exact inv.perform ‹_› action
      · cases applied
  | .poll rank sendReports react, applied => by
      rw [Step.apply] at applied
      split at applied
      · obtain ⟨client, returned, rfl⟩ := Option.map_eq_some'.mp applied
        exact inv.poll ‹_› returned
      · cases applied
  | .deliver _, applied => inv.deliver applied

theorem Invariant.run : ∀ {cluster after : TreeCluster} {steps : List Step},
    cluster.Invariant → cluster.run steps = some after → after.Invariant
  | _, _, [], inv, returned => by
      cases returned
      exact inv
  | _, _, _ :: _, inv, returned => by
      obtain ⟨_, first, later⟩ := Option.bind_eq_some.mp returned
      exact (inv.apply first).run later

theorem Invariant.fired_next_poll (inv : cluster.Invariant) {delivery : Delivery}
    (member : delivery ∈ cluster.deliveries) {sendReports : Nat → TestReport}
    {react : Nat → Invocation → List Action} {after : TreeCluster}
    (polled : (Step.poll delivery.rank sendReports react).apply cluster = some after) :
    delivery.receive ∈ (after.clients delivery.rank).firedReqs := by
  have rankBelow := (inv.delivered delivery member).1
  have rankInv := inv.ranks _ rankBelow
  rw [Step.apply, if_pos rankBelow] at polled
  obtain ⟨client, returned, rfl⟩ := Option.map_eq_some'.mp polled
  obtain ⟨-, submissions, ledger⟩ := MpiTreeClient.pollOne_ledger returned
  rw [update_clients, if_pos rfl, ledger, RequestLedger.pollOne_firedReqs, List.mem_append]
  by_cases old : delivery.receive ∈ (cluster.clients delivery.rank).firedReqs
  · exact Or.inl old
  · obtain ⟨request, submitted, reqEq, -⟩ := rankInv.receive delivery member rfl
    have pending : request ∈ (cluster.clients delivery.rank).requestsToProcess ++
        (cluster.clients delivery.rank).requests := by
      rw [rankInv.armed.ledger.pending]
      exact List.mem_filter.mpr ⟨submitted, by simpa [reqEq] using old⟩
    have flag : (cluster.report delivery.rank sendReports request.req).flag = true := by
      rw [reqEq, report_delivered inv member]
      rfl
    rw [RequestLedger.readyReqs_eq, ← reqEq]
    exact Or.inr (List.mem_map_of_mem _ (List.mem_filter.mpr ⟨pending, flag⟩))

end

/-! ## Tree delivery

`TreeDelivery` is what the cluster guarantees about messages in every reachable state: what a
call of either send would send, where the sends so far went, that each message was delivered at
most once and only to its destination, which handlers a completed receive reached and through
which entry point, and that the next tick of the destination completes and dispatches it. -/

theorem entryPoint_eq_entry {size : Nat} {message : Message}
    (routed : message.send.Routed size message.source)
    (notRoot : message.source = 0 → message.send.toParent = false) (handler : Nat)
    (buffer : List UInt8) :
    MpiTreeClient.entryPoint message.send.destination message.send.payload.length
      message.source handler buffer = message.entry handler buffer := by
  unfold Isend.Routed at routed
  unfold MpiTreeClient.entryPoint Message.entry
  split at routed
  case h_1 callback isBroadcast =>
    simp [parent_of_mem_children routed, isBroadcast]
  case h_2 callback isSent =>
    have positive : 0 < message.source := by
      refine Nat.pos_of_ne_zero fun root => ?_
      simpa [Isend.toParent, isSent] using notRoot root
    have below := parent_lt positive
    have twice := parent_le (parent message.source)
    rw [if_neg (by rw [routed]; omega), isSent]
  case h_3 => exact routed.elim

structure TreeDelivery (cluster : TreeCluster) : Prop where
  children_sends : ∀ source < cluster.size, ∀ buffer callback,
    (((cluster.clients source).asyncSendToChildren buffer callback).sends.drop
      (cluster.clients source).sends.length).map (fun send => (send.destination, send.payload)) =
      (children cluster.size source).map (·, buffer)
  parent_send : ∀ source < cluster.size, ∀ buffer callback,
    (((cluster.clients source).asyncSendToParent buffer callback).sends.drop
      (cluster.clients source).sends.length).map (fun send => (send.destination, send.payload)) =
      [(parent source, buffer)]
  sends_routed : ∀ source < cluster.size, ∀ send ∈ (cluster.clients source).sends, ∀ callback,
    (send.callback = .broadcast callback → send.destination ∈ children cluster.size source) ∧
    (send.callback = .sent callback → 0 < source ∧ send.destination = parent source)
  delivered_once : (cluster.deliveries.map (·.message)).Nodup
  delivered_to : ∀ delivery ∈ cluster.deliveries,
    delivery.rank = delivery.message.send.destination ∧ delivery.message.source < cluster.size ∧
    delivery.message.send ∈ (cluster.clients delivery.message.source).sends
  handler_calls : ∀ rank < cluster.size, ∀ call ∈ (cluster.clients rank).calls,
    call.invocation.isHandler = true → ∃ delivery ∈ cluster.deliveries, delivery.rank = rank ∧
      delivery.receive = call.request ∧ delivery.receive ∈ (cluster.clients rank).firedReqs
  dispatched : ∀ delivery ∈ cluster.deliveries,
    delivery.receive ∈ (cluster.clients delivery.rank).firedReqs →
    delivery.Dispatched (cluster.clients delivery.rank) delivery.message.entry
  next_poll : ∀ delivery ∈ cluster.deliveries, ∀ sendReports react after,
    (Step.poll delivery.rank sendReports react).apply cluster = some after →
    delivery.receive ∈ (after.clients delivery.rank).firedReqs ∧
      delivery.Dispatched (after.clients delivery.rank) delivery.message.entry

section
variable {cluster : TreeCluster}

theorem Invariant.dispatched_entry (inv : cluster.Invariant) {delivery : Delivery}
    (member : delivery ∈ cluster.deliveries)
    (notRoot : delivery.message.source = 0 → delivery.message.send.toParent = false)
    {client : MpiTreeClient}
    (dispatched : delivery.Dispatched client (MpiTreeClient.entryPoint delivery.rank
      delivery.message.send.payload.length delivery.message.source)) :
    delivery.Dispatched client delivery.message.entry := by
  obtain ⟨_, sourceBelow, sent, destination⟩ := inv.delivered delivery member
  have entry : MpiTreeClient.entryPoint delivery.message.send.destination
      delivery.message.send.payload.length delivery.message.source = delivery.message.entry :=
    funext fun handler => funext
      (entryPoint_eq_entry ((inv.ranks _ sourceBelow).routed _ sent) notRoot handler)
  rw [destination] at entry
  rwa [entry] at dispatched

theorem Invariant.treeDelivery (inv : cluster.Invariant)
    (rootNeverSendsUp : ∀ send ∈ (cluster.clients 0).sends, send.toParent = false) :
    cluster.TreeDelivery := by
  have notRoot : ∀ source < cluster.size, ∀ send ∈ (cluster.clients source).sends,
      source = 0 → send.toParent = false := fun _ _ send member root =>
    rootNeverSendsUp send (root ▸ member)
  have notRootDelivered : ∀ delivery ∈ cluster.deliveries,
      delivery.message.source = 0 → delivery.message.send.toParent = false :=
    fun delivery member => notRoot _ (inv.delivered delivery member).2.1 _
      (inv.delivered delivery member).2.2.1
  refine ⟨fun source below buffer callback => ?_, fun source below buffer callback => ?_,
    fun source below send member callback => ?_, inv.delivered_once, fun delivery member => ?_,
    fun rank below call member handler => ?_, fun delivery member isFired => ?_,
    fun delivery member sendReports react after polled => ?_⟩
  · have rankInv := inv.ranks source below
    rw [MpiTreeClient.asyncSendToChildren_sends, List.drop_left, MpiTreeClient.isends_map,
      rankInv.commSize_eq, rankInv.rank_eq]
  · simp [MpiTreeClient.asyncSendToParent, MpiTreeClient.isend, MpiTreeClient.updateLedger,
      (inv.ranks source below).rank_eq]
  · have routed := (inv.ranks source below).routed send member
    unfold Isend.Routed at routed
    refine ⟨fun isBroadcast => by simpa [isBroadcast] using routed, fun isSent => ⟨?_, ?_⟩⟩
    · refine Nat.pos_of_ne_zero fun root => ?_
      simpa [Isend.toParent, isSent] using notRoot source below send member root
    · simpa [isSent] using routed
  · obtain ⟨_, sourceBelow, sent, destination⟩ := inv.delivered delivery member
    exact ⟨destination.symm, sourceBelow, sent⟩
  · obtain ⟨delivery, delivered, rankEq, receiveEq⟩ :=
      (inv.ranks rank below).handler_delivered call member handler
    exact ⟨delivery, delivered, rankEq, receiveEq,
      receiveEq ▸ (inv.ranks rank below).calls_fired call member⟩
  · exact inv.dispatched_entry member (notRootDelivered delivery member)
      ((inv.ranks _ (inv.delivered delivery member).1).dispatched delivery member rfl isFired)
  · have fired := inv.fired_next_poll member polled
    have afterInv := inv.apply polled
    have afterMember : delivery ∈ after.deliveries := by
      rw [Step.apply, if_pos (inv.delivered delivery member).1] at polled
      obtain ⟨_, _, rfl⟩ := Option.map_eq_some'.mp polled
      exact member
    exact ⟨fired, inv.dispatched_entry member (notRootDelivered delivery member)
      ((afterInv.ranks _ (afterInv.delivered delivery afterMember).1).dispatched delivery
        afterMember rfl fired)⟩

end

theorem tree_delivery {size maxPacketSize : Nat} {steps : List Step} {cluster : TreeCluster}
    (reached : (start size maxPacketSize).run steps = some cluster)
    (rootNeverSendsUp : ∀ send ∈ (cluster.clients 0).sends, send.toParent = false) :
    cluster.TreeDelivery :=
  ((start_invariant size maxPacketSize).run reached).treeDelivery rootNeverSendsUp

theorem tree_delivery_three :
    ∃ cluster, (start 3 4).run [.perform 1 (.registerHandler 5),
        .perform 0 (.sendToChildren [1, 2] 9), .deliver ⟨0, ⟨1, 1, [1, 2], .broadcast 9⟩⟩,
        .poll 1 (fun _ => ⟨false, mpiSuccess, 0, mpiSuccess, 0⟩) fun _ _ => []] = some cluster ∧
      cluster.TreeDelivery :=
  ⟨_, rfl, tree_delivery (show (start 3 4).run [.perform 1 (.registerHandler 5),
      .perform 0 (.sendToChildren [1, 2] 9), .deliver ⟨0, ⟨1, 1, [1, 2], .broadcast 9⟩⟩,
      .poll 1 (fun _ => ⟨false, mpiSuccess, 0, mpiSuccess, 0⟩) fun _ _ => []] = some _ from rfl)
    (by decide)⟩

/- The run above: process `1` receives the broadcast of its parent into its receive `0` and
calls its handler `5` through `received_from_parent` with the two bytes at the front of its
buffer of four. -/
example : ((start 3 4).run [.perform 1 (.registerHandler 5),
    .perform 0 (.sendToChildren [1, 2] 9), .deliver ⟨0, ⟨1, 1, [1, 2], .broadcast 9⟩⟩,
    .poll 1 (fun _ => ⟨false, mpiSuccess, 0, mpiSuccess, 0⟩) fun _ _ => []]).map
      (fun cluster => ((cluster.clients 1).calls.map (·.invocation),
        (cluster.clients 1).snapshots)) =
    some ([.fromParent 5 [1, 2, 0, 0] 2], [(0, [5])]) := by
  decide

end TreeCluster

end IntelCaffe.Internode
