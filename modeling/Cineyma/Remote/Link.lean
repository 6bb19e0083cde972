import Cineyma.Remote.Line
import Cineyma.Remote.Wire

/-!
# A connection to a cluster node

A line whose server is the loop that `start_server` runs for the accepted connection. The transport
envelopes that wrap the actor messages all carry the correlation id `0`, in both directions.

The handler is any function of the call (its position among the calls of the client) and of the
actor envelope, so it may answer equal envelopes differently. It never fails to finish here, but a
handler that does not finish, and a server that drops the connection, are runs without the
corresponding step.
-/

namespace Cineyma.Remote

open Cluster (ClusterNode)

/-- The wrapping of an actor envelope by `send_to_actor` and `do_send_to_actor`. -/
def transportEnvelope (codec : ClusterCodec) (localNodeId : String) (envelope : Envelope) :
    Envelope where
  messageType := "cluster"
  payload := codec.encode ⟨some (.envelope envelope)⟩
  correlationId := 0
  senderNode := localNodeId
  targetActor := ""
  isResponse := false

/-- The reply that `start_server` builds. -/
def clusterReply (codec : ClusterCodec) (node : ClusterNode) (payload : ClusterPayload) :
    Envelope where
  messageType := "cluster"
  payload := codec.encode ⟨some payload⟩
  correlationId := 0
  senderNode := node.localNode.id
  targetActor := ""
  isResponse := true

/-- One turn of the loop of `start_server`: the node afterwards, and the reply if there is one. -/
def serve (codec : ClusterCodec) (handler : Option (Envelope → Option Envelope))
    (node : ClusterNode) (now : ℕ) (e : Envelope) : ClusterNode × Option Envelope :=
  match codec.decode e.payload with
  | some ⟨some (.gossip g)⟩ =>
      let merged := node.mergeGossip g e.senderNode now
      (merged, some (clusterReply codec merged (.gossip merged.createGossipMessage)))
  | some ⟨some (.envelope a)⟩ =>
      (node, (handler.bind fun h ↦ h a).map fun r ↦ clusterReply codec node (.envelope r))
  | some ⟨none⟩ | none => (node, none)

/-- The handler of the server as the call `i` meets it. -/
def handlerFor (handler : Option (ℕ → Envelope → Option Envelope)) (i : ℕ) :
    Option (Envelope → Option Envelope) :=
  handler.map fun h ↦ h i

structure Link extends Line where
  peer : ClusterNode

namespace Link

open Line (written writing)

def connect (peer : ClusterNode) : Link := ⟨.connect, peer⟩

def invoke (link : Link) (kind : CallKind) (envelope : Envelope) : Link :=
  { link with toLine := link.toLine.invoke kind envelope }

theorem client_invoke (link : Link) (kind : CallKind) (envelope : Envelope) :
    (link.invoke kind envelope).client = link.client.invoke kind envelope := rfl

inductive Action where
  | client (a : RemoteClient.Action)
  | serverRecv
  | serverDone (now : ℕ)
  | recv
  | recvErr (err : TransportError)
  /-- The peer's cluster state changes by what happens on its other connections. -/
  | peer (node : ClusterNode)

section

variable (codec : ClusterCodec) (handler : Option (ℕ → Envelope → Option Envelope))

def step (link : Link) : Action → Option Link
  | .client a => (link.act a).map fun line ↦ { link with toLine := line }
  | .serverRecv => link.serverRecv.map fun line ↦ { link with toLine := line }
  | .serverDone now =>
      link.atServer.map fun (i, e) ↦
        let (peer, reply) := serve codec (handlerFor handler i) link.peer now e
        ⟨link.reply i reply, peer⟩
  | .recv => link.toLine.recv.map fun line ↦ { link with toLine := line }
  | .recvErr err => (link.toLine.recvErr err).map fun line ↦ { link with toLine := line }
  | .peer node => some { link with peer := node }

/-- The handler's response to the actor envelope of the call `i`. -/
def answerTo (link : Link) (i : ℕ) : Option Envelope :=
  link.client.calls[i]?.bind fun call ↦
    match codec.decode call.envelope.payload with
    | some ⟨some (.envelope a)⟩ => handler.bind fun h ↦ h i a
    | _ => none

/-- The calls whose envelope has left the queue and whose answer, if any, is not under way yet. -/
def unanswered (link : Link) : List ℕ :=
  link.serving.toList ++ (link.toServer ++ writing link.client.task)

/-- The calls whose answers are still to arrive, in the order in which they will. -/
def owed (link : Link) : List ℕ :=
  link.toClient.map Prod.fst ++
    link.unanswered.filter fun i ↦ (link.answerTo codec handler i).isSome

/-- The next command may be taken without crossing answers. A request waits until no request is
pending and no answer is due. A message that expects no response but gets one must not be taken
while a request is pending that gets none. -/
def InTurn (link : Link) : Prop :=
  ∀ i, link.client.queue.head? = some (.send i) → ∀ call ∈ link.client.calls[i]?,
    (call.kind ≠ .doSend → link.client.pending = ∅ ∧ link.owed codec handler = []) ∧
    (call.kind = .doSend → (link.answerTo codec handler i).isSome = true →
      link.client.pending = ∅ ∨ link.owed codec handler ≠ [])

instance (link : Link) : Decidable (link.InTurn codec handler) :=
  match hhead : link.client.queue.head? with
  | some (.send i) =>
      decidable_of_iff (∀ call ∈ link.client.calls[i]?,
        (call.kind ≠ .doSend → link.client.pending.isEmpty = true ∧
          link.owed codec handler = []) ∧
        (call.kind = .doSend → (link.answerTo codec handler i).isSome = true →
          link.client.pending.isEmpty = true ∨ link.owed codec handler ≠ []))
        (by simp [InTurn, hhead, Std.ExtTreeMap.isEmpty_iff])
  | some .close => isTrue (by simp [InTurn, hhead])
  | none => isTrue (by simp [InTurn, hhead])

/-! ## The invariant -/

structure Inv (link : Link) : Prop where
  wf : link.client.WellFormed
  call : ∀ {i : ℕ} {call : Call}, link.client.calls[i]? = some call →
    ∃ id a, call.envelope = transportEnvelope codec id a
  line : ∀ {i : ℕ}, i ∈ link.unanswered → i < link.client.calls.length
  next : ∀ {id : UInt64} {p q : ℕ}, link.client.pending[id]? = some p →
    (link.owed codec handler).head? = some q → q = p
  reply : ∀ {i : ℕ} {e : Envelope}, (i, e) ∈ link.toClient →
    i < link.client.calls.length ∧ ∃ r node, link.answerTo codec handler i = some r ∧
      e = clusterReply codec node (.envelope r)
  response : ∀ {i : ℕ} {call : Call} {e : Envelope}, link.client.calls[i]? = some call →
    call.slot = .filled (.ok e) → ∃ r node, link.answerTo codec handler i = some r ∧
      e = clusterReply codec node (.envelope r)
  error : ∀ {i : ℕ} {call : Call} {err : TransportError}, link.client.calls[i]? = some call →
    call.slot = .filled (.error err) → err ≠ .disconnected
  dropped : ∀ {i : ℕ} {call : Call}, link.client.calls[i]? = some call → call.slot = .dropped →
    link.client.task = .exited

theorem inv_connect (peer : ClusterNode) : (connect peer).Inv codec handler where
  wf := RemoteClient.wellFormed_new
  call := by simp [connect, Line.connect, RemoteClient.new]
  line := by simp [connect, Line.connect, unanswered, writing, RemoteClient.new]
  next := by simp [connect, Line.connect, RemoteClient.new]
  reply := by simp [connect, Line.connect]
  response := by simp [connect, Line.connect, RemoteClient.new]
  error := by simp [connect, Line.connect, RemoteClient.new]
  dropped := by simp [connect, Line.connect, RemoteClient.new]

end

variable {codec : ClusterCodec} {handler : Option (ℕ → Envelope → Option Envelope)}
  {link link' : Link}

/-- The answer to a call depends on its envelope only. -/
theorem answerTo_congr {i : ℕ} (h : link'.client.calls[i]?.map Call.envelope =
    link.client.calls[i]?.map Call.envelope) :
    link'.answerTo codec handler i = link.answerTo codec handler i := by
  unfold answerTo
  cases hx : link.client.calls[i]? <;> cases hy : link'.client.calls[i]? <;> simp_all

theorem answerTo_of_moves (codec : ClusterCodec)
    (handler : Option (ℕ → Envelope → Option Envelope))
    (hmoves : link.client.Moves link'.client) :
    link'.answerTo codec handler = link.answerTo codec handler := by
  funext i
  apply answerTo_congr
  cases hx : link.client.calls[i]? with
  | none =>
      have hy : link'.client.calls[i]? = none := by
        rw [List.getElem?_eq_none_iff] at hx ⊢
        rwa [hmoves.length]
      rw [hy]
  | some x =>
      obtain ⟨y, hy, hbecomes⟩ := hmoves.forward hx
      simp [hy, hbecomes.envelope]

theorem Inv.of_moves (hl : link.Inv codec handler) (hd : link'.client.WellFormed)
    (hmoves : link.client.Moves link'.client)
    (hline : ∀ i ∈ link'.unanswered, i < link'.client.calls.length)
    (hnext : ∀ (id : UInt64) (p q : ℕ), link'.client.pending[id]? = some p →
      (link'.owed codec handler).head? = some q → q = p)
    (hreply : ∀ i e, (i, e) ∈ link'.toClient → (i, e) ∈ link.toClient ∨
      i < link.client.calls.length ∧ ∃ r node, link.answerTo codec handler i = some r ∧
        e = clusterReply codec node (.envelope r))
    (hslot : ∀ (i : ℕ) (x y : Call), link.client.calls[i]? = some x →
      link'.client.calls[i]? = some y → y.slot = x.slot ∨
        (y.slot = .dropped ∧ link'.client.task = .exited) ∨
        (∃ kind message, y.slot = .filled (.error (.io kind message))) ∨
        ∃ e r node, y.slot = .filled (.ok e) ∧ link.answerTo codec handler i = some r ∧
          e = clusterReply codec node (.envelope r))
    (hexited : link.client.task = .exited → link'.client.task = .exited) :
    link'.Inv codec handler := by
  have hanswer := answerTo_of_moves codec handler hmoves
  refine ⟨hd, ?_, fun {i} ↦ hline i, fun {id p q} ↦ hnext id p q, ?_, ?_, ?_, ?_⟩
  · intro i call hcall
    obtain ⟨a, ha, hbecomes⟩ := hmoves.call hcall
    rw [hbecomes.envelope]
    exact hl.call ha
  · intro i e hmem
    rw [hmoves.length, hanswer]
    rcases hreply i e hmem with hmem | hnew
    · exact hl.reply hmem
    · exact hnew
  · intro i y e hy hok
    obtain ⟨x, hx, -⟩ := hmoves.call hy
    rw [hanswer]
    rcases hslot i x y hx hy with hsame | ⟨hdropped, -⟩ | ⟨_, _, herr⟩ | ⟨e', r, node, he, hr, rfl⟩
    · exact hl.response hx (hsame ▸ hok)
    · simp [hok] at hdropped
    · simp [hok] at herr
    · obtain rfl : e = clusterReply codec node (.envelope r) := by simpa [hok] using he
      exact ⟨r, node, hr, rfl⟩
  · intro i y err hy herr
    obtain ⟨x, hx, -⟩ := hmoves.call hy
    rcases hslot i x y hx hy with hsame | ⟨hdropped, -⟩ | ⟨_, _, herr'⟩ | ⟨e', _, _, he, -, -⟩
    · exact hl.error hx (hsame ▸ herr)
    · simp [herr] at hdropped
    · rw [herr] at herr'
      cases herr'
      simp
    · simp [herr] at he
  · intro i y hy hdropped
    obtain ⟨x, hx, -⟩ := hmoves.call hy
    rcases hslot i x y hx hy with hsame | ⟨-, hexit⟩ | ⟨_, _, herr⟩ | ⟨e', _, _, he, -, -⟩
    · exact hexited (hl.dropped hx (hsame ▸ hdropped))
    · exact hexit
    · simp [hdropped] at herr
    · simp [hdropped] at he

/-! ## Steps of the client -/

theorem slot_client {a : RemoteClient.Action}
    (hturn : a = .takeCommand → link.InTurn codec handler) {d : RemoteClient}
    (h : link.client.act a = some d) {i : ℕ} {x y : Call} (hx : link.client.calls[i]? = some x)
    (hy : d.calls[i]? = some y) :
    y.slot = x.slot ∨ (y.slot = .dropped ∧ d.task = .exited) ∨
      ∃ kind message, y.slot = .filled (.error (.io kind message)) := by
  rcases RemoteClient.slot_act h hx hy with hsame | ⟨hdropped, hexit | ⟨ha, hreplaced⟩⟩ | herr
  · exact .inl hsame
  · exact .inr (.inl ⟨hdropped, hexit⟩)
  · -- a request is only taken when none is pending
    obtain ⟨j, queue, call, hqueue, hcall, hkind, hp⟩ := hreplaced
    obtain ⟨hempty, -⟩ := (hturn ha j (by simp [hqueue]) call hcall).1 hkind
    simp [hempty] at hp
  · exact .inr (.inr herr)

/-- What a step of the client other than taking a command does to the messages under way: nothing,
or it gives up the one it was writing together with the pending request. -/
theorem flight_act {c d : RemoteClient} {a : RemoteClient.Action} (ha : a ≠ .takeCommand)
    (hzero : ∀ (i : ℕ) (call : Call), c.calls[i]? = some call → call.envelope.correlationId = 0)
    (h : c.act a = some d) :
    (written a c.task ++ writing d.task = writing c.task ∧ d.pending = c.pending) ∨
      (written a c.task ++ writing d.task = [] ∧ d.pending[(0 : UInt64)]? = none) := by
  cases a with
  | enqueue i =>
      obtain ⟨call, -, -, ⟨-, rfl⟩ | ⟨-, -, rfl⟩⟩ := RemoteClient.enqueue_eq_some h
      · exact .inl ⟨rfl, rfl⟩
      · exact .inl ⟨rfl, rfl⟩
  | wake i =>
      obtain ⟨call, o, -, -, -, rfl⟩ := RemoteClient.wake_eq_some h
      exact .inl ⟨rfl, rfl⟩
  | expire i =>
      obtain ⟨call, -, -, -, rfl⟩ := RemoteClient.expire_eq_some h
      exact .inl ⟨rfl, rfl⟩
  | takeCommand => exact absurd rfl ha
  | sendOk =>
      obtain ⟨i, htask, rfl⟩ := RemoteClient.sendOk_eq_some h
      exact .inl ⟨by simp [htask, written, writing], rfl⟩
  | sendErr kind message =>
      obtain ⟨i, call, htask, hcall, rfl⟩ := RemoteClient.sendErr_eq_some h
      have hid := hzero i call hcall
      refine .inr ⟨?_, ?_⟩
      · have htask' : ({ c with task := .selecting }.resolve call.envelope.correlationId
            (.error (.io kind message))).task = .selecting := by
          unfold RemoteClient.resolve
          split <;> rfl
        simp [htask', written, writing]
      · rw [hid]
        exact RemoteClient.pending_resolve _ _ _

theorem Inv.correlationId_eq_zero (hl : link.Inv codec handler) (i : ℕ) (call : Call)
    (hcall : link.client.calls[i]? = some call) : call.envelope.correlationId = 0 := by
  obtain ⟨node, a, henvelope⟩ := hl.call hcall
  rw [henvelope]
  rfl

theorem inv_client_of_ne (hl : link.Inv codec handler) {a : RemoteClient.Action}
    (ha : a ≠ .takeCommand) {d : RemoteClient} (h : link.client.act a = some d) :
    { link with client := d, toServer := link.toServer ++ written a link.client.task }.Inv codec
      handler := by
  have hmoves := hl.wf.moves_act h
  have hd := hl.wf.act h
  have hflight := flight_act ha hl.correlationId_eq_zero h
  refine hl.of_moves hd hmoves ?_ ?_ (fun _ _ ↦ .inl) ?_ (fun hexit ↦
    RemoteClient.exited_act hexit h)
  · intro i hi
    rw [hmoves.length]
    simp only [unanswered, List.append_assoc] at hi
    rcases hflight with ⟨hflight, -⟩ | ⟨hflight, -⟩
    · rw [hflight] at hi
      exact hl.line hi
    · rw [hflight] at hi
      apply hl.line
      simp only [unanswered, List.append_nil, List.mem_append] at hi ⊢
      tauto
  · intro id p q hp hq
    rcases hflight with ⟨hflight, hpending⟩ | ⟨-, hnone⟩
    · have howed : owed codec handler { link with
          client := d, toServer := link.toServer ++ written a link.client.task } =
          link.owed codec handler := by
        have hanswer : answerTo codec handler { link with
            client := d, toServer := link.toServer ++ written a link.client.task } =
            link.answerTo codec handler := answerTo_of_moves codec handler hmoves
        simp only [owed, unanswered, List.append_assoc, hflight, hanswer]
      rw [howed] at hq
      rw [hpending] at hp
      exact hl.next hp hq
    · obtain ⟨call, hcall, -, hid, -⟩ := hd.pending hp
      obtain ⟨b, hb, hbecomes⟩ := hmoves.call hcall
      have hzero : id = 0 := by
        rw [← hid, hbecomes.envelope]
        exact hl.correlationId_eq_zero _ b hb
      rw [hzero, hnone] at hp
      cases hp
  · intro i x y hx hy
    have hturn : a = .takeCommand → link.InTurn codec handler := fun h ↦ absurd h ha
    rcases slot_client hturn h hx hy with hsame | hdropped | herr
    · exact .inl hsame
    · exact .inr (.inl hdropped)
    · exact .inr (.inr (.inl herr))

theorem inv_takeCommand (hl : link.Inv codec handler) (hturn : link.InTurn codec handler)
    {d : RemoteClient} (h : link.client.takeCommand = some d) :
    { link with client := d }.Inv codec handler := by
  have hmoves := hl.wf.moves_takeCommand h
  have hd := hl.wf.takeCommand h
  have hslots : ∀ (i : ℕ) (x y : Call), link.client.calls[i]? = some x → d.calls[i]? = some y →
      y.slot = x.slot ∨ (y.slot = .dropped ∧ d.task = .exited) ∨
        (∃ kind message, y.slot = .filled (.error (.io kind message))) ∨
        ∃ e r node, y.slot = .filled (.ok e) ∧ link.answerTo codec handler i = some r ∧
          e = clusterReply codec node (.envelope r) := by
    intro i x y hx hy
    rcases slot_client (a := .takeCommand) (fun _ ↦ hturn) h hx hy with hsame | hdropped | herr
    · exact .inl hsame
    · exact .inr (.inl hdropped)
    · exact .inr (.inr (.inl herr))
  obtain ⟨htask, hcases⟩ := RemoteClient.takeCommand_eq_some h
  have howed : owed codec handler { link with client := d } = link.owed codec handler ++
      (writing d.task).filter fun i ↦ (link.answerTo codec handler i).isSome := by
    have hanswer : answerTo codec handler { link with client := d } =
        link.answerTo codec handler := answerTo_of_moves codec handler hmoves
    simp [owed, unanswered, hanswer, htask, writing, List.filter_append]
  have hrange : ∀ i, d.task = .sending i → i < d.calls.length := by
    intro i hi
    obtain ⟨call, hcall, -⟩ := hd.sending hi
    exact (List.getElem?_eq_some_iff.mp hcall).1
  refine hl.of_moves hd hmoves ?_ ?_ (fun _ _ ↦ .inl) hslots (by simp [htask])
  · intro i hi
    simp only [unanswered, ← List.append_assoc] at hi
    rcases List.mem_append.mp hi with hi | hi
    · rw [hmoves.length]
      apply hl.line
      simpa [unanswered, htask, writing] using hi
    · cases htask' : d.task with
      | sending j =>
          obtain rfl : i = j := by simpa [htask', writing] using hi
          exact hrange i htask'
      | selecting => simp [htask', writing] at hi
      | exited => simp [htask', writing] at hi
  · intro id p q hp hq
    rw [howed] at hq
    rcases hcases with ⟨queue, -, rfl⟩ |
      ⟨i, queue, call, hqueue, hcall, ⟨hkind, rfl⟩ | ⟨hkind, rfl⟩⟩
    · simp [RemoteClient.exit] at hp
    · -- the answer to a tell comes after the one to the pending request
      cases hold : link.owed codec handler with
      | cons q' rest =>
          rw [hold] at hq
          exact hl.next hp (by simpa [hold] using hq)
      | nil =>
          rw [hold] at hq
          have hanswered : (link.answerTo codec handler i).isSome = true := by
            by_contra hnot
            simp [writing, hnot] at hq
          rcases (hturn i (by simp [hqueue]) call hcall).2 hkind hanswered with hempty | hne
          · simp [hempty] at hp
          · exact absurd hold hne
    · obtain ⟨hempty, hold⟩ := (hturn i (by simp [hqueue]) call hcall).1 hkind
      rw [hold] at hq
      have hpi : p = i := by
        simp only [hempty, Std.ExtTreeMap.getElem?_insert] at hp
        split at hp
        · exact (Option.some.inj hp).symm
        · simp at hp
      have hqi : q = i := by
        simp only [writing, List.nil_append] at hq
        have hmem := List.mem_of_mem_filter (List.mem_of_mem_head? hq)
        simpa using hmem
      rw [hpi, hqi]

/-! ## The other steps -/

theorem serve_transportEnvelope (h : Option (Envelope → Option Envelope)) (node : ClusterNode)
    (now : ℕ) (id : String) (a : Envelope) :
    serve codec h node now (transportEnvelope codec id a) =
      (node, (h.bind fun f ↦ f a).map fun r ↦ clusterReply codec node (.envelope r)) := by
  simp [serve, transportEnvelope, codec.decode_encode]

theorem answerTo_eq {i : ℕ} {call : Call} {id : String} {a : Envelope}
    (hcall : link.client.calls[i]? = some call)
    (henvelope : call.envelope = transportEnvelope codec id a) :
    link.answerTo codec handler i = handler.bind fun h ↦ h i a := by
  simp [answerTo, hcall, henvelope, transportEnvelope, codec.decode_encode]

theorem inv_serverRecv (hl : link.Inv codec handler) {i : ℕ} {rest : List ℕ}
    (hserving : link.serving = none) (htoServer : link.toServer = i :: rest) :
    { link with serving := some i, toServer := rest }.Inv codec handler := by
  have hline : unanswered { link with serving := some i, toServer := rest } = link.unanswered := by
    simp [unanswered, hserving, htoServer]
  refine hl.of_moves hl.wf (.refl _) ?_ ?_ (fun _ _ ↦ .inl) ?_ (fun h ↦ h)
  · intro j hj
    exact hl.line (hline ▸ hj)
  · intro id p q hp hq
    refine hl.next hp ?_
    rw [← hq]
    simp only [owed, hline]
    rfl
  · intro j x y hx hy
    exact .inl (by rw [Option.some.inj (hx.symm.trans hy)])

theorem inv_serverDone (hl : link.Inv codec handler) {i now : ℕ} {call : Call}
    (hserving : link.serving = some i) (hcall : link.client.calls[i]? = some call) :
    Inv codec handler
      ⟨link.reply i (serve codec (handlerFor handler i) link.peer now call.envelope).2,
        (serve codec (handlerFor handler i) link.peer now call.envelope).1⟩ := by
  obtain ⟨id, a, henvelope⟩ := hl.call hcall
  have hanswer : link.answerTo codec handler i = handler.bind fun h ↦ h i a :=
    answerTo_eq hcall henvelope
  have hserve : (serve codec (handlerFor handler i) link.peer now call.envelope).2 =
      (link.answerTo codec handler i).map fun r ↦
        clusterReply codec link.peer (.envelope r) := by
    rw [henvelope, serve_transportEnvelope, hanswer]
    cases handler <;> rfl
  have hi : i < link.client.calls.length := (List.getElem?_eq_some_iff.mp hcall).1
  refine hl.of_moves hl.wf (.refl _) ?_ ?_ ?_ ?_ (fun h ↦ h)
  · intro j hj
    apply hl.line
    simp only [unanswered, hserving] at hj ⊢
    exact List.mem_append_right _ hj
  · intro id' p q hp hq
    refine hl.next hp ?_
    rw [← hq]
    -- the answer moves from the server to the wire, or there is none
    simp only [owed, unanswered, Line.reply, hserving, hserve]
    cases hans : link.answerTo codec handler i with
    | none => simp [hans]; rfl
    | some r => simp [hans]
  · intro j e hmem
    rcases List.mem_append.mp hmem with hmem | hmem
    · exact .inl hmem
    · rw [hserve, Option.mem_toList, Option.map_map, Option.map_eq_some_iff] at hmem
      obtain ⟨r, hr, heq⟩ := hmem
      cases heq
      exact .inr ⟨hi, r, link.peer, hr, rfl⟩
  · intro j x y hx hy
    exact .inl (by rw [Option.some.inj (hx.symm.trans hy)])

/-- A reply that arrives completes the call it answers, or none. -/
theorem inv_recv (hl : link.Inv codec handler) {i : ℕ} {e : Envelope} {rest : List (ℕ × Envelope)}
    {d : RemoteClient} (htoClient : link.toClient = (i, e) :: rest)
    (h : link.client.recv (.ok e) = some d) :
    { link with client := d, toClient := rest }.Inv codec handler := by
  have hmoves := hl.wf.moves_recv h
  have hd := hl.wf.recv h
  obtain ⟨hi, r, node, hr, rfl⟩ := hl.reply (i := i) (e := e) (by simp [htoClient])
  obtain ⟨htask, hcases⟩ := RemoteClient.recv_eq_some h
  have hresolve : d = link.client.resolve 0 (.ok (clusterReply codec node (.envelope r))) := by
    rcases hcases with ⟨e, he, -, rfl⟩ | ⟨e, he, hnot, -⟩ | ⟨he, -⟩ | ⟨err, he, -⟩ <;> cases he
    · rfl
    · cases hnot
  have htask' : d.task = .selecting := by
    rw [hresolve, RemoteClient.resolve]
    split <;> exact htask
  refine hl.of_moves hd hmoves ?_ ?_ ?_ ?_ (by simp [htask])
  · intro j hj
    rw [hmoves.length]
    apply hl.line
    simpa [unanswered, htask, htask'] using hj
  · intro id p q hp hq
    obtain ⟨call, hcall, -, hid, -⟩ := hd.pending hp
    obtain ⟨b, hb, hbecomes⟩ := hmoves.call hcall
    have hzero : id = 0 := by
      rw [← hid, hbecomes.envelope]
      exact hl.correlationId_eq_zero _ b hb
    rw [hzero, hresolve, RemoteClient.pending_resolve] at hp
    cases hp
  · intro j e hmem
    exact .inl (by simp [htoClient, hmem])
  · intro j x y hx hy
    rcases RemoteClient.slot_recv h hx hy with hsame | hdropped | ⟨e, he, -, hp, hslot⟩
    · exact .inl hsame
    · exact .inr (.inl hdropped)
    · -- the first answer that is due is that of the pending request
      cases he
      obtain rfl : i = j := hl.next hp (by simp [owed, htoClient])
      exact .inr (.inr (.inr ⟨_, r, node, hslot, hr, rfl⟩))

theorem inv_recvErr (hl : link.Inv codec handler) {err : TransportError} {d : RemoteClient}
    (h : link.client.recv (.error err) = some d) : { link with client := d }.Inv codec handler := by
  have hmoves := hl.wf.moves_recv h
  obtain ⟨htask, hcases⟩ := RemoteClient.recv_eq_some h
  have hsame : d = link.client ∨ d = link.client.exit := by
    rcases hcases with ⟨e, he, -⟩ | ⟨e, he, -⟩ | ⟨-, hd⟩ | ⟨_, -, -, hd⟩
    · cases he
    · cases he
    · exact .inr hd
    · exact .inl hd
  rcases hsame with rfl | rfl
  · exact hl
  refine hl.of_moves (hl.wf.recv h) hmoves ?_ ?_ (fun _ _ ↦ .inl) ?_ (fun _ ↦ rfl)
  · intro j hj
    rw [hmoves.length]
    apply hl.line
    simpa [unanswered, htask, writing, RemoteClient.exit] using hj
  · intro id p q hp
    simp [RemoteClient.exit] at hp
  · intro j x y hx hy
    rcases RemoteClient.slot_recv h hx hy with hsame | hdropped | ⟨e, he, -⟩
    · exact .inl hsame
    · exact .inr (.inl hdropped)
    · cases he

theorem inv_invoke (hl : link.Inv codec handler) (kind : CallKind) (id : String) (a : Envelope) :
    (link.invoke kind (transportEnvelope codec id a)).Inv codec handler := by
  have hget := link.client.getElem?_invoke kind (transportEnvelope codec id a)
  have hlength : (link.invoke kind (transportEnvelope codec id a)).client.calls.length =
      link.client.calls.length + 1 := by
    simp [client_invoke, RemoteClient.invoke]
  have hanswer : ∀ i < link.client.calls.length,
      (link.invoke kind (transportEnvelope codec id a)).answerTo codec handler i =
        link.answerTo codec handler i := by
    intro i hi
    apply answerTo_congr
    simp [client_invoke, hget, hi.ne]
  have hrange : ∀ {i : ℕ} {call : Call}, link.client.calls[i]? = some call →
      i < link.client.calls.length := fun h ↦ (List.getElem?_eq_some_iff.mp h).1
  refine ⟨hl.wf.invoke _ _, ?_, ?_, ?_, ?_, ?_, ?_, ?_⟩
  · intro i call hcall
    simp only [client_invoke, hget] at hcall
    split at hcall
    · cases hcall
      exact ⟨id, a, rfl⟩
    · exact hl.call hcall
  · intro i hi
    rw [hlength]
    exact Nat.lt_succ_of_lt (hl.line hi)
  · intro id' p q hp hq
    refine hl.next hp ?_
    rw [← hq]
    have hfilter : link.unanswered.filter (fun i ↦ (link.answerTo codec handler i).isSome) =
        link.unanswered.filter (fun i ↦ ((link.invoke kind
          (transportEnvelope codec id a)).answerTo codec handler i).isSome) :=
      List.filter_congr fun i hi ↦ by rw [hanswer i (hl.line hi)]
    simp only [owed, hfilter]
    rfl
  · intro i e hmem
    obtain ⟨hi, hreply⟩ := hl.reply hmem
    rw [hlength, hanswer i hi]
    exact ⟨Nat.lt_succ_of_lt hi, hreply⟩
  · intro i call e hcall hslot
    simp only [client_invoke, hget] at hcall
    split at hcall
    · cases hcall
      cases hslot
    · rw [hanswer i (hrange hcall)]
      exact hl.response hcall hslot
  · intro i call err hcall hslot
    simp only [client_invoke, hget] at hcall
    split at hcall
    · cases hcall
      cases hslot
    · exact hl.error hcall hslot
  · intro i call hcall hslot
    simp only [client_invoke, hget] at hcall
    split at hcall
    · cases hcall
      cases hslot
    · exact hl.dropped hcall hslot

/-! ## One step, and what a call returns -/

theorem inv_step (hl : link.Inv codec handler) {a : Action}
    (hturn : a = .client .takeCommand → link.InTurn codec handler)
    (h : link.step codec handler a = some link') : link'.Inv codec handler := by
  cases a with
  | client a =>
      obtain ⟨line, hline, rfl⟩ := Option.map_eq_some_iff.mp h
      obtain ⟨d, hd, rfl⟩ := Option.map_eq_some_iff.mp hline
      by_cases ha : a = .takeCommand
      · subst ha
        have hinv := inv_takeCommand hl (hturn rfl) hd
        simpa [written] using hinv
      · exact inv_client_of_ne hl ha hd
  | serverRecv =>
      obtain ⟨line, hline, rfl⟩ := Option.map_eq_some_iff.mp h
      obtain ⟨i, rest, hserving, htoServer, rfl⟩ := Line.serverRecv_eq_some hline
      exact inv_serverRecv hl hserving htoServer
  | serverDone now =>
      obtain ⟨⟨i, e⟩, hat, rfl⟩ := Option.map_eq_some_iff.mp h
      obtain ⟨hserving, call, hcall, rfl⟩ := Line.atServer_eq_some hat
      exact inv_serverDone hl hserving hcall
  | recv =>
      obtain ⟨line, hline, rfl⟩ := Option.map_eq_some_iff.mp h
      obtain ⟨i, e, rest, d, htoClient, hd, rfl⟩ := Line.recv_eq_some hline
      exact inv_recv hl htoClient hd
  | recvErr err =>
      obtain ⟨line, hline, rfl⟩ := Option.map_eq_some_iff.mp h
      obtain ⟨d, hd, rfl⟩ := Option.map_eq_some_iff.mp hline
      exact inv_recvErr hl hd
  | peer node =>
      cases h
      exact ⟨hl.wf, hl.call, hl.line, hl.next, hl.reply, hl.response, hl.error, hl.dropped⟩

/-- A connection keeps its calls, and stays down once its task has exited. -/
structure Advances (link link' : Link) : Prop where
  call : ∀ {i : ℕ} {k : Call}, link.client.calls[i]? = some k →
    ∃ k', link'.client.calls[i]? = some k' ∧ k'.envelope = k.envelope
  exited : link.client.task = .exited → link'.client.task = .exited

theorem Advances.refl (link : Link) : link.Advances link :=
  ⟨fun h ↦ ⟨_, h, rfl⟩, fun h ↦ h⟩

theorem advances_invoke (link : Link) (kind : CallKind) (envelope : Envelope) :
    link.Advances (link.invoke kind envelope) := by
  refine ⟨fun {i k} hk ↦ ⟨k, ?_, rfl⟩, fun h ↦ h⟩
  have hi : i ≠ link.client.calls.length := by
    rintro rfl
    simp at hk
  simpa [client_invoke, RemoteClient.getElem?_invoke, hi] using hk

theorem advances_of_moves (hmoves : link.client.Moves link'.client)
    (hexited : link.client.task = .exited → link'.client.task = .exited) :
    link.Advances link' := by
  refine ⟨fun hk ↦ ?_, hexited⟩
  obtain ⟨k', hk', hbecomes⟩ := hmoves.forward hk
  exact ⟨k', hk', hbecomes.envelope⟩

/-- A step of the connection is a step of the client, or leaves it as it is. -/
theorem client_of_step {a : Action} (h : link.step codec handler a = some link') :
    (∃ a, link.client.act a = some link'.client) ∨
      (∃ result, link.client.recv result = some link'.client) ∨ link'.client = link.client := by
  cases a with
  | client a =>
      obtain ⟨line, hline, rfl⟩ := Option.map_eq_some_iff.mp h
      obtain ⟨d, hd, rfl⟩ := Option.map_eq_some_iff.mp hline
      exact .inl ⟨a, hd⟩
  | serverRecv =>
      obtain ⟨line, hline, rfl⟩ := Option.map_eq_some_iff.mp h
      obtain ⟨i, rest, -, -, rfl⟩ := Line.serverRecv_eq_some hline
      exact .inr (.inr rfl)
  | serverDone now =>
      obtain ⟨⟨i, e⟩, -, rfl⟩ := Option.map_eq_some_iff.mp h
      exact .inr (.inr rfl)
  | recv =>
      obtain ⟨line, hline, rfl⟩ := Option.map_eq_some_iff.mp h
      obtain ⟨i, e, rest, d, -, hd, rfl⟩ := Line.recv_eq_some hline
      exact .inr (.inl ⟨_, hd⟩)
  | recvErr err =>
      obtain ⟨line, hline, rfl⟩ := Option.map_eq_some_iff.mp h
      obtain ⟨d, hd, rfl⟩ := Option.map_eq_some_iff.mp hline
      exact .inr (.inl ⟨_, hd⟩)
  | peer node =>
      cases h
      exact .inr (.inr rfl)

theorem moves_step (hwf : link.client.WellFormed) {a : Action}
    (h : link.step codec handler a = some link') : link.client.Moves link'.client := by
  rcases client_of_step h with ⟨a, ha⟩ | ⟨result, hresult⟩ | hsame
  · exact hwf.moves_act ha
  · exact hwf.moves_recv hresult
  · rw [hsame]
    exact .refl _

theorem advances_step (hwf : link.client.WellFormed) {a : Action}
    (h : link.step codec handler a = some link') : link.Advances link' := by
  refine advances_of_moves (moves_step hwf h) fun hexit ↦ ?_
  rcases client_of_step h with ⟨a, ha⟩ | ⟨result, hresult⟩ | hsame
  · exact RemoteClient.exited_act hexit ha
  · simp [RemoteClient.recv, hexit] at hresult
  · rw [hsame, hexit]

/-- The response that a call returns is the answer to its own envelope. -/
theorem Inv.response_of_returned (hl : link.Inv codec handler) {i : ℕ} {call : Call} {e : Envelope}
    (hcall : link.client.calls[i]? = some call) (hstage : call.stage = .returned (.response e)) :
    ∃ r node, link.answerTo codec handler i = some r ∧ e = clusterReply codec node (.envelope r) :=
  hl.response hcall (hl.wf.returned hcall hstage)

/-- A call fails with `Disconnected` only when the client task has exited. -/
theorem Inv.exited_of_returned (hl : link.Inv codec handler) {i : ℕ} {call : Call}
    (hcall : link.client.calls[i]? = some call)
    (hstage : call.stage = .returned (.failed .disconnected)) : link.client.task = .exited := by
  rcases hl.wf.returned hcall hstage with hslot | ⟨-, hslot | ⟨-, hexit⟩⟩ | ⟨htimeout, -⟩
  · exact absurd rfl (hl.error hcall hslot)
  · exact hl.dropped hcall hslot
  · exact hexit
  · cases htimeout

end Link

end Cineyma.Remote
