import Cineyma.Remote.Pending

/-!
# Lines

A line is a client task, the loop of a server, and the envelopes on their way between them, which
arrive in order. What it keeps is independent of the server, as long as replies carry the
correlation id of the request: the answer to a pending request is under way, or the server has none.
-/

namespace Cineyma.Remote

/-- A handler takes the number of its run besides the envelope. -/
abbrev EnvelopeHandler := ℕ → Envelope → Option Envelope

/-- The reply is a response to the request. -/
def Correlates (request reply : Envelope) : Prop :=
  reply.isResponse = true ∧ reply.correlationId = request.correlationId

/-- `toServer` and `toClient` are the envelopes on their way, by the call they belong to, and
`serving` is the call whose envelope the server is at. -/
structure Line where
  client : RemoteClient
  toServer : List ℕ
  serving : Option ℕ
  toClient : List (ℕ × Envelope)

namespace Line

def connect : Line where
  client := .new
  toServer := []
  serving := none
  toClient := []

def invoke (line : Line) (kind : CallKind) (envelope : Envelope) : Line :=
  { line with client := line.client.invoke kind envelope }

/-- The calls whose envelope the step of the client puts on the wire. -/
def written : RemoteClient.Action → ClientTask → List ℕ
  | .sendOk, .sending i => [i]
  | _, _ => []

/-- The call that the client task is writing to the connection. -/
def writing : ClientTask → List ℕ
  | .sending i => [i]
  | _ => []

def act (line : Line) (a : RemoteClient.Action) : Option Line :=
  (line.client.act a).map fun c ↦
    { line with client := c, toServer := line.toServer ++ written a line.client.task }

/-- `conn.recv()` of the server. -/
def serverRecv (line : Line) : Option Line :=
  match line.serving, line.toServer with
  | none, i :: rest => some { line with serving := some i, toServer := rest }
  | _, _ => none

/-- The call that the server is at, with its envelope. -/
def atServer (line : Line) : Option (ℕ × Envelope) :=
  line.serving.bind fun i ↦ line.client.calls[i]?.map fun call ↦ (i, call.envelope)

/-- The server has done with the envelope of the call `i`, and sends the reply if there is one. -/
def reply (line : Line) (i : ℕ) (reply : Option Envelope) : Line :=
  { line with
    serving := none
    toClient := line.toClient ++ (reply.map fun e ↦ (i, e)).toList }

def serverDone (line : Line) (handler : EnvelopeHandler) : Option Line :=
  line.atServer.map fun (i, e) ↦ line.reply i (handler i e)

def recv (line : Line) : Option Line :=
  match line.toClient with
  | [] => none
  | (_, e) :: rest =>
      (line.client.recv (.ok e)).map fun c ↦ { line with client := c, toClient := rest }

def recvErr (line : Line) (err : TransportError) : Option Line :=
  (line.client.recv (.error err)).map fun c ↦ { line with client := c }

theorem serverRecv_eq_some {line line' : Line} (h : line.serverRecv = some line') :
    ∃ i rest, line.serving = none ∧ line.toServer = i :: rest ∧
      line' = { line with serving := some i, toServer := rest } := by
  unfold serverRecv at h
  split at h
  · rename_i i rest hserving htoServer
    exact ⟨i, rest, hserving, htoServer, by simpa using h.symm⟩
  · cases h

theorem atServer_eq_some {line : Line} {i : ℕ} {e : Envelope} (h : line.atServer = some (i, e)) :
    line.serving = some i ∧ ∃ call, line.client.calls[i]? = some call ∧ call.envelope = e := by
  obtain ⟨j, hserving, h⟩ := Option.bind_eq_some_iff.mp h
  obtain ⟨call, hcall, heq⟩ := Option.map_eq_some_iff.mp h
  cases heq
  exact ⟨hserving, call, hcall, rfl⟩

theorem recv_eq_some {line line' : Line} (h : line.recv = some line') :
    ∃ i e rest d, line.toClient = (i, e) :: rest ∧ line.client.recv (.ok e) = some d ∧
      line' = { line with client := d, toClient := rest } := by
  unfold recv at h
  split at h
  · cases h
  · rename_i i e rest htoClient
    obtain ⟨d, hd, rfl⟩ := Option.map_eq_some_iff.mp h
    exact ⟨i, e, rest, d, htoClient, hd, rfl⟩

/-- The calls whose envelope or reply is on its way. -/
def underway (line : Line) : List ℕ :=
  line.serving.toList ++ (line.toServer ++ (writing line.client.task ++
    line.toClient.map Prod.fst))

/-- Queues and wire are empty, no handler runs, and no caller can move. -/
structure Quiescent (line : Line) : Prop where
  queue : line.client.queue = []
  underway : line.underway = []
  callers : ∀ i, line.client.enqueue i = none ∧ line.client.wake i = none

/-- The quiescence of a state, evaluated. -/
def isQuiescent (line : Line) : Bool :=
  line.client.queue.isEmpty && line.underway.isEmpty &&
    (List.range line.client.calls.length).all fun i ↦
      (line.client.enqueue i).isNone && (line.client.wake i).isNone

theorem quiescent_of_isQuiescent {line : Line} (h : line.isQuiescent = true) : line.Quiescent := by
  simp only [isQuiescent, Bool.and_eq_true, List.isEmpty_iff, List.all_eq_true, List.mem_range,
    Option.isNone_iff_eq_none] at h
  obtain ⟨⟨hqueue, hunderway⟩, hcallers⟩ := h
  refine ⟨hqueue, hunderway, fun i ↦ ?_⟩
  by_cases hi : i < line.client.calls.length
  · exact hcallers i hi
  · have hnone : line.client.calls[i]? = none := List.getElem?_eq_none (Nat.le_of_not_lt hi)
    simp [RemoteClient.enqueue, RemoteClient.wake, hnone]

/-! ## The answers that are due -/

/-- `silent` are the runs of the handler that give no reply. -/
structure Inv (silent : ℕ → Envelope → Prop) (line : Line) : Prop where
  wf : line.client.WellFormed
  reply : ∀ {i : ℕ} {e : Envelope}, (i, e) ∈ line.toClient →
    ∃ call, line.client.calls[i]? = some call ∧ Correlates call.envelope e
  due : ∀ {id : UInt64} {i : ℕ} {call : Call}, line.client.pending[id]? = some i →
    line.client.calls[i]? = some call → i ∈ line.underway ∨ silent i call.envelope

variable {silent : ℕ → Envelope → Prop} {line line' : Line}

theorem inv_connect (silent : ℕ → Envelope → Prop) : connect.Inv silent where
  wf := RemoteClient.wellFormed_new
  reply := by simp [connect]
  due := by simp [connect, RemoteClient.new]

/-- What a step of the client leaves pending was pending before, and its envelope goes from the task
to the wire or stays, or it is being written now. -/
theorem pending_act {c d : RemoteClient} (hc : c.WellFormed) {a : RemoteClient.Action}
    (h : c.act a = some d) {id : UInt64} {i : ℕ} (hp : d.pending[id]? = some i) :
    i ∈ writing d.task ∨ c.pending[id]? = some i ∧
      (i ∈ writing c.task → i ∈ written a c.task ++ writing d.task) := by
  cases a with
  | enqueue j =>
      obtain ⟨call, -, -, ⟨-, rfl⟩ | ⟨-, -, rfl⟩⟩ := RemoteClient.enqueue_eq_some h <;>
      exact .inr ⟨hp, List.mem_append_right _⟩
  | wake j =>
      obtain ⟨call, o, -, -, -, rfl⟩ := RemoteClient.wake_eq_some h
      exact .inr ⟨hp, List.mem_append_right _⟩
  | expire j =>
      obtain ⟨call, -, -, -, rfl⟩ := RemoteClient.expire_eq_some h
      exact .inr ⟨hp, List.mem_append_right _⟩
  | takeCommand =>
      obtain ⟨htask, ⟨queue, -, rfl⟩ | ⟨j, queue, call, -, -, ⟨-, rfl⟩ | ⟨-, rfl⟩⟩⟩ :=
        RemoteClient.takeCommand_eq_some h
      · simp [RemoteClient.exit] at hp
      · exact .inr ⟨hp, by simp [htask, writing]⟩
      · simp only [Std.ExtTreeMap.getElem?_insert] at hp
        split at hp
        · cases hp
          exact .inl (List.mem_singleton_self _)
        · exact .inr ⟨hp, by simp [htask, writing]⟩
  | sendOk =>
      obtain ⟨j, htask, rfl⟩ := RemoteClient.sendOk_eq_some h
      exact .inr ⟨hp, by simp [htask, written, writing]⟩
  | sendErr kind message =>
      obtain ⟨j, call, htask, hcall, rfl⟩ := RemoteClient.sendErr_eq_some h
      obtain ⟨hne, hp⟩ := RemoteClient.pending_of_resolve hp
      refine .inr ⟨hp, fun hi ↦ ?_⟩
      -- the error has completed the request that was being written
      obtain rfl : i = j := by simpa [htask, writing] using hi
      obtain ⟨call', hcall', -, hid, -⟩ := hc.pending hp
      cases hcall.symm.trans hcall'
      exact absurd hid hne

theorem inv_act (h : line.Inv silent) {a : RemoteClient.Action}
    (ha : line.act a = some line') : line'.Inv silent := by
  obtain ⟨d, hd, rfl⟩ := Option.map_eq_some_iff.mp ha
  have hmoves := h.wf.moves_act hd
  refine ⟨h.wf.act hd, fun hmem ↦ ?_, fun {id i call} hp hcall ↦ ?_⟩
  · obtain ⟨call, hcall, hcorrelates⟩ := h.reply hmem
    obtain ⟨call', hcall', hbecomes⟩ := hmoves.forward hcall
    exact ⟨call', hcall', by rwa [hbecomes.envelope]⟩
  · rcases pending_act h.wf hd hp with hwriting | ⟨hold, hwriting⟩
    · exact .inl (by simp [underway, hwriting])
    · obtain ⟨call₀, hcall₀, hbecomes⟩ := hmoves.call hcall
      rw [hbecomes.envelope]
      refine (h.due hold hcall₀).imp_left fun hi ↦ ?_
      simp only [underway, List.mem_append] at hi hwriting ⊢
      tauto

theorem inv_invoke (h : line.Inv silent) (kind : CallKind) (envelope : Envelope) :
    (line.invoke kind envelope).Inv silent := by
  have hget := line.client.getElem?_invoke kind envelope
  have hold : ∀ {i : ℕ} {call : Call}, line.client.calls[i]? = some call →
      (line.invoke kind envelope).client.calls[i]? = some call := by
    intro i call hcall
    have hi : i ≠ line.client.calls.length := by
      rintro rfl
      simp at hcall
    simpa [invoke, hget, hi] using hcall
  refine ⟨h.wf.invoke kind envelope, fun hmem ↦ ?_, fun {id i call} hp hcall ↦ ?_⟩
  · obtain ⟨call, hcall, hcorrelates⟩ := h.reply hmem
    exact ⟨call, hold hcall, hcorrelates⟩
  · obtain ⟨call₀, hcall₀, -⟩ := h.wf.pending hp
    cases (hold hcall₀).symm.trans hcall
    exact h.due hp hcall₀

theorem inv_serverRecv (h : line.Inv silent) (hrecv : line.serverRecv = some line') :
    line'.Inv silent := by
  obtain ⟨i, rest, hserving, htoServer, rfl⟩ := serverRecv_eq_some hrecv
  refine ⟨h.wf, h.reply, fun hp hcall ↦ (h.due hp hcall).imp_left fun hi ↦ ?_⟩
  simpa [underway, hserving, htoServer] using hi

theorem inv_serverDone {handler : EnvelopeHandler} (h : line.Inv silent)
    (hreply : ∀ i call, line.client.calls[i]? = some call →
      (∀ e, handler i call.envelope = some e → Correlates call.envelope e) ∧
        (handler i call.envelope = none → silent i call.envelope))
    (hdone : line.serverDone handler = some line') : line'.Inv silent := by
  obtain ⟨⟨i, e⟩, hat, rfl⟩ := Option.map_eq_some_iff.mp hdone
  obtain ⟨hserving, call, hcall, rfl⟩ := atServer_eq_some hat
  obtain ⟨hcorrelates, hsilent⟩ := hreply i call hcall
  refine ⟨h.wf, fun {j e} hmem ↦ ?_, fun {id j call'} hp hcall' ↦ ?_⟩
  · rcases List.mem_append.mp hmem with hmem | hmem
    · exact h.reply hmem
    · rw [Option.mem_toList, Option.map_eq_some_iff] at hmem
      obtain ⟨r, hr, heq⟩ := hmem
      cases heq
      exact ⟨call, hcall, hcorrelates _ hr⟩
  · rcases h.due hp hcall' with hj | hj
    · by_cases hij : i = j
      · subst hij
        cases hcall.symm.trans hcall'
        -- the answer goes on the wire, or there is none
        cases hanswer : handler i call.envelope with
        | none => exact .inr (hsilent hanswer)
        | some e => exact .inl (by simp [underway, reply, hanswer])
      · left
        simp only [underway, reply, hserving, Option.toList_some, Option.toList_none,
          List.mem_append, List.mem_singleton, List.map_append, List.not_mem_nil, false_or] at hj ⊢
        have hji : j ≠ i := Ne.symm hij
        tauto
    · exact .inr hj

theorem inv_recv (h : line.Inv silent) (hrecv : line.recv = some line') : line'.Inv silent := by
  obtain ⟨j, e, rest, d, htoClient, hd, rfl⟩ := recv_eq_some hrecv
  have hmoves := h.wf.moves_recv hd
  obtain ⟨call, hcall, hresponse, hid⟩ := h.reply (i := j) (e := e) (by simp [htoClient])
  obtain ⟨htask, hcases⟩ := RemoteClient.recv_eq_some hd
  have hresolve : d = line.client.resolve e.correlationId (.ok e) := by
    rcases hcases with ⟨e, he, -, rfl⟩ | ⟨e, he, hnot, -⟩ | ⟨he, -⟩ | ⟨err, he, -⟩ <;> cases he
    · rfl
    · cases hresponse.symm.trans hnot
  refine ⟨h.wf.recv hd, fun {i r} hmem ↦ ?_, fun {id i call'} hp hcall' ↦ ?_⟩
  · obtain ⟨x, hx, hcorrelates⟩ := h.reply (i := i) (e := r) (by simp [htoClient, hmem])
    obtain ⟨y, hy, hbecomes⟩ := hmoves.forward hx
    exact ⟨y, hy, by rwa [hbecomes.envelope]⟩
  · obtain ⟨x, hx, hbecomes⟩ := hmoves.call hcall'
    subst hresolve
    obtain ⟨hne, hp⟩ := RemoteClient.pending_of_resolve hp
    rw [hbecomes.envelope]
    refine (h.due hp hx).imp_left fun hi ↦ ?_
    -- the reply that arrives is not that of a request with another id
    have hij : i ≠ j := by
      rintro rfl
      obtain ⟨x', hx', -, hid', -⟩ := h.wf.pending hp
      cases hx'.symm.trans hcall
      exact hne (hid.trans hid')
    have htask' : (line.client.resolve e.correlationId (.ok e)).task = line.client.task := by
      unfold RemoteClient.resolve
      split <;> rfl
    simpa [underway, htoClient, htask', hij] using hi

theorem inv_recvErr (h : line.Inv silent) {err : TransportError}
    (hrecv : line.recvErr err = some line') : line'.Inv silent := by
  obtain ⟨d, hd, rfl⟩ := Option.map_eq_some_iff.mp hrecv
  have hmoves := h.wf.moves_recv hd
  obtain ⟨htask, hcases⟩ := RemoteClient.recv_eq_some hd
  refine ⟨h.wf.recv hd, fun hmem ↦ ?_, fun {id i call} hp hcall ↦ ?_⟩
  · obtain ⟨x, hx, hcorrelates⟩ := h.reply hmem
    obtain ⟨y, hy, hbecomes⟩ := hmoves.forward hx
    exact ⟨y, hy, by rwa [hbecomes.envelope]⟩
  · rcases hcases with ⟨e, he, -⟩ | ⟨e, he, -⟩ | ⟨-, rfl⟩ | ⟨-, -, -, rfl⟩
    · cases he
    · cases he
    · simp [RemoteClient.exit] at hp
    · exact h.due hp hcall

/-- When nothing moves, every call is over, but for those whose handler gave no reply. -/
theorem Inv.returned_or_silent (h : line.Inv silent) (hquiet : line.Quiescent) {i : ℕ} {call : Call}
    (hcall : line.client.calls[i]? = some call) :
    (∃ o, call.stage = .returned o) ∨ silent i call.envelope := by
  obtain ⟨hqueue, hunderway, hcallers⟩ := hquiet
  obtain ⟨henqueue, hwake⟩ := hcallers i
  cases hstage : call.stage with
  | returned o => exact .inl ⟨o, rfl⟩
  | enqueuing =>
      obtain ⟨kind, envelope, stage, slot⟩ := call
      subst hstage
      by_cases hexit : line.client.task = .exited
      · simp [RemoteClient.enqueue, hcall, hexit] at henqueue
      · simp [RemoteClient.enqueue, hcall, hexit, hqueue] at henqueue
  | waiting =>
      obtain ⟨-, hheld⟩ := h.wf.waiting hcall hstage
      cases hslot : call.slot with
      | empty =>
          rcases hheld hslot with hmem | hp
          · simp [hqueue] at hmem
          · rcases h.due hp hcall with hi | hsilent
            · simp [hunderway] at hi
            · exact .inr hsilent
      | filled result =>
          obtain ⟨kind, envelope, stage, slot⟩ := call
          subst hstage hslot
          cases result <;> simp [RemoteClient.wake, hcall] at hwake
      | dropped => simp [RemoteClient.wake_of_dropped hcall hstage hslot] at hwake

end Line

end Cineyma.Remote
