import Cineyma.Remote.Client

/-!
# Who holds the sender of a call

Every `oneshot` sender is owned by exactly one party: its caller until the command is queued, then
the queued command, then the map of pending requests. `WellFormed` states this for every call of a
client. It holds whatever the correlation ids are.
-/

namespace Cineyma.Remote

namespace RemoteClient

/-- What the outcome of a returned call says about its `oneshot` and the task. -/
def Justified (task : ClientTask) (call : Call) : Outcome → Prop
  | .sent => call.kind = .doSend
  | .response e => call.slot = .filled (.ok e)
  | .failed err =>
      call.slot = .filled (.error err) ∨
      err = .disconnected ∧ (call.slot = .dropped ∨ call.slot = .empty ∧ task = .exited) ∨
      err = .timeout ∧ call.kind = .sendTimeout

structure WellFormed (c : RemoteClient) : Prop where
  nodup : c.queue.Nodup
  queued : ∀ {i : ℕ}, .send i ∈ c.queue →
    ∃ call, c.calls[i]? = some call ∧ call.stage ≠ .enqueuing ∧ call.slot = .empty
  pending : ∀ {id : UInt64} {i : ℕ}, c.pending[id]? = some i →
    ∃ call, c.calls[i]? = some call ∧ call.kind ≠ .doSend ∧ call.envelope.correlationId = id ∧
      call.stage ≠ .enqueuing ∧ call.slot = .empty ∧ .send i ∉ c.queue
  enqueuing : ∀ {i : ℕ} {call : Call}, c.calls[i]? = some call → call.stage = .enqueuing →
    call.slot = .empty ∧ .send i ∉ c.queue
  waiting : ∀ {i : ℕ} {call : Call}, c.calls[i]? = some call → call.stage = .waiting →
    call.kind ≠ .doSend ∧ (call.slot = .empty →
      .send i ∈ c.queue ∨ c.pending[call.envelope.correlationId]? = some i)
  returned : ∀ {i : ℕ} {call : Call} {o : Outcome}, c.calls[i]? = some call →
    call.stage = .returned o → Justified c.task call o
  sending : ∀ {i : ℕ}, c.task = .sending i → ∃ call, c.calls[i]? = some call ∧
    call.stage ≠ .enqueuing ∧ .send i ∉ c.queue ∧
      (call.kind ≠ .doSend → c.pending[call.envelope.correlationId]? = some i)
  exited : c.task = .exited → c.queue = [] ∧ c.pending = ∅

theorem wellFormed_new : new.WellFormed where
  nodup := List.nodup_nil
  queued := by simp [new]
  pending := by simp [new]
  enqueuing := by simp [new]
  waiting := by simp [new]
  returned := by simp [new]
  sending := by simp [new]
  exited := by simp [new]

namespace WellFormed

variable {c d : RemoteClient}

/-! ## The callers -/

protected theorem invoke (hc : c.WellFormed) (kind : CallKind) (envelope : Envelope) :
    (c.invoke kind envelope).WellFormed := by
  have hnew : .send c.calls.length ∉ c.queue := by
    intro h
    obtain ⟨call, hcall, -⟩ := hc.queued h
    simp at hcall
  refine ⟨hc.nodup, ?_, ?_, ?_, ?_, ?_, ?_, hc.exited⟩ <;> simp only [getElem?_invoke]
  · intro i hi
    obtain ⟨call, hcall, hrest⟩ := hc.queued hi
    exact ⟨call, by grind, hrest⟩
  · intro id i hi
    obtain ⟨call, hcall, hrest⟩ := hc.pending hi
    exact ⟨call, by grind, hrest⟩
  · intro i call hcall
    split at hcall
    · cases hcall
      grind [RemoteClient.invoke]
    · exact hc.enqueuing hcall
  · intro i call hcall hstage
    split at hcall
    · cases hcall
      cases hstage
    · exact hc.waiting hcall hstage
  · intro i call o hcall hstage
    split at hcall
    · cases hcall
      cases hstage
    · exact hc.returned hcall hstage
  · intro i hi
    obtain ⟨call, hcall, hrest⟩ := hc.sending hi
    exact ⟨call, by grind, hrest⟩

/-- A call may return at any time with an outcome that its slot or the task justifies. -/
theorem returning (hc : c.WellFormed) {i : ℕ} {o : Outcome}
    (ho : ∀ call, c.calls[i]? = some call → Justified c.task call o) :
    { c with calls := setStage c.calls i (.returned o) }.WellFormed := by
  refine ⟨hc.nodup, ?_, ?_, ?_, ?_, ?_, ?_, hc.exited⟩ <;> simp only [getElem?_setStage]
  · intro j hj
    obtain ⟨call, hcall, hstage, hslot⟩ := hc.queued hj
    exact ⟨_, by rw [hcall]; rfl, by grind, by grind⟩
  · intro id j hj
    obtain ⟨call, hcall, hkind, hid, hstage, hslot, hqueue⟩ := hc.pending hj
    exact ⟨_, by rw [hcall]; rfl, by grind, by grind, by grind, by grind, hqueue⟩
  · intro j call' hcall' hstage
    obtain ⟨call, hcall, rfl⟩ := Option.map_eq_some_iff.mp hcall'
    split at hstage
    · cases hstage
    · simpa [*] using hc.enqueuing hcall hstage
  · intro j call' hcall' hstage
    obtain ⟨call, hcall, rfl⟩ := Option.map_eq_some_iff.mp hcall'
    split at hstage
    · cases hstage
    · simpa [*] using hc.waiting hcall hstage
  · intro j call' o' hcall' hstage
    obtain ⟨call, hcall, rfl⟩ := Option.map_eq_some_iff.mp hcall'
    split at hstage
    · rename_i hij
      subst hij
      cases hstage
      have hjust := ho call hcall
      cases o <;> simpa [Justified] using hjust
    · simpa [*] using hc.returned hcall hstage
  · intro j hj
    obtain ⟨call, hcall, hstage, hqueue, hpending⟩ := hc.sending hj
    exact ⟨_, by rw [hcall]; rfl, by grind, hqueue, by grind⟩

protected theorem enqueue (hc : c.WellFormed) {i : ℕ} (h : c.enqueue i = some d) :
    d.WellFormed := by
  obtain ⟨call, hcall, hstage, ⟨htask, rfl⟩ | ⟨htask, -, rfl⟩⟩ := enqueue_eq_some h
  · refine hc.returning fun call' hcall' ↦ .inr (.inl ⟨rfl, .inr ⟨?_, htask⟩⟩)
    obtain rfl : call = call' := Option.some.inj (hcall.symm.trans hcall')
    exact (hc.enqueuing hcall hstage).1
  · obtain ⟨hslot, hqueue⟩ := hc.enqueuing hcall hstage
    refine ⟨?_, ?_, ?_, ?_, ?_, ?_, ?_, fun hexit ↦ absurd hexit htask⟩ <;>
      simp only [getElem?_setStage]
    · exact List.nodup_append.mpr ⟨hc.nodup, by simp, by grind⟩
    · intro j hj
      rcases List.mem_append.mp hj with hj | hj
      · obtain ⟨call', hcall', hstage', hslot'⟩ := hc.queued hj
        exact ⟨_, by rw [hcall']; rfl, by grind, by grind⟩
      · obtain rfl : j = i := by simpa using hj
        exact ⟨_, by rw [hcall]; rfl, by grind, by grind⟩
    · intro id j hj
      obtain ⟨call', hcall', hkind, hid, hstage', hslot', hqueue'⟩ := hc.pending hj
      have hij : i ≠ j := by
        rintro rfl
        grind
      exact ⟨call', by simp [hcall', hij], hkind, hid, hstage', hslot', by grind⟩
    · intro j call' hcall' hstage'
      obtain ⟨call'', hcall'', rfl⟩ := Option.map_eq_some_iff.mp hcall'
      grind [hc.enqueuing hcall'']
    · intro j call' hcall' hstage'
      obtain ⟨call'', hcall'', rfl⟩ := Option.map_eq_some_iff.mp hcall'
      grind [hc.waiting hcall'']
    · intro j call' o hcall' hstage'
      obtain ⟨call'', hcall'', rfl⟩ := Option.map_eq_some_iff.mp hcall'
      split at hstage'
      · rename_i hij
        subst hij
        obtain rfl : call'' = call := Option.some.inj (hcall''.symm.trans hcall)
        -- only a `do_send` returns when its command is accepted
        by_cases hkind : call''.kind = .doSend
        · obtain rfl : o = .sent := by simpa [hkind, eq_comm] using hstage'
          simpa [Justified] using hkind
        · simp [hkind] at hstage'
      · simpa [*] using hc.returned hcall'' hstage'
    · intro j hj
      obtain ⟨call', hcall', hstage', hqueue', hpending⟩ := hc.sending hj
      have hij : i ≠ j := by
        rintro rfl
        grind
      exact ⟨call', by simp [hcall', hij], hstage', by grind, hpending⟩

protected theorem wake (hc : c.WellFormed) {i : ℕ} (h : c.wake i = some d) : d.WellFormed := by
  obtain ⟨call, o, hcall, hstage, ho, rfl⟩ := wake_eq_some h
  refine hc.returning fun call' hcall' ↦ ?_
  obtain rfl : call = call' := Option.some.inj (hcall.symm.trans hcall')
  rcases ho with ⟨e, hslot, rfl⟩ | ⟨err, hslot, rfl⟩ | ⟨hslot, rfl⟩
  · exact hslot
  · exact .inl hslot
  · exact .inr (.inl ⟨rfl, .inl hslot⟩)

protected theorem expire (hc : c.WellFormed) {i : ℕ} (h : c.expire i = some d) :
    d.WellFormed := by
  obtain ⟨call, hcall, hkind, -, rfl⟩ := expire_eq_some h
  refine hc.returning fun call' hcall' ↦ ?_
  obtain rfl : call = call' := Option.some.inj (hcall.symm.trans hcall')
  exact .inr (.inr ⟨rfl, hkind⟩)

/-! ## The task -/

theorem slot_of_holds (hc : c.WellFormed) {i : ℕ} {call : Call}
    (hcall : c.calls[i]? = some call) (hhold : c.holds i call = true) : call.slot = .empty := by
  simp only [holds, decide_eq_true_eq] at hhold
  rcases hhold with ⟨-, hqueue | hpending⟩
  · obtain ⟨call', hcall', -, hslot⟩ := hc.queued hqueue
    grind
  · obtain ⟨call', hcall', -, -, -, hslot, -⟩ := hc.pending hpending
    grind

protected theorem exit (hc : c.WellFormed) : c.exit.WellFormed := by
  refine ⟨List.nodup_nil, by simp [RemoteClient.exit], by simp [RemoteClient.exit], ?_, ?_, ?_,
    by simp [RemoteClient.exit], fun _ ↦ ⟨rfl, rfl⟩⟩ <;> simp only [getElem?_exit]
  · intro j call' hcall' hstage
    obtain ⟨call, hcall, rfl⟩ := Option.map_eq_some_iff.mp hcall'
    have hnot : c.holds j call = false := by
      have hqueue := hc.enqueuing hcall (by grind)
      have hpending : c.pending[call.envelope.correlationId]? ≠ some j := by
        intro h
        obtain ⟨call'', hcall'', -, -, hstage'', -⟩ := hc.pending h
        grind
      simp [holds, hqueue.2, hpending]
    simp only [hnot] at hstage ⊢
    exact ⟨(hc.enqueuing hcall hstage).1, by simp [RemoteClient.exit]⟩
  · intro j call' hcall' hstage
    obtain ⟨call, hcall, rfl⟩ := Option.map_eq_some_iff.mp hcall'
    have hwait := hc.waiting hcall (by grind)
    -- a waiting call whose slot is still empty is held, so it is dropped
    refine ⟨by grind, fun hslot ↦ ?_⟩
    grind [holds]
  · intro j call' o hcall' hstage
    obtain ⟨call, hcall, rfl⟩ := Option.map_eq_some_iff.mp hcall'
    have hjust := hc.returned hcall (o := o) (by grind)
    have hempty := hc.slot_of_holds hcall
    cases o <;> grind [Justified, RemoteClient.exit]

/-- A popped `Close` carried no sender. -/
theorem pop_close (hc : c.WellFormed) {queue : List ClientCommand}
    (hqueue : c.queue = .close :: queue) : { c with queue := queue }.WellFormed := by
  have hmem : ∀ i, .send i ∈ queue ↔ .send i ∈ c.queue := by simp [hqueue]
  have hnodup := hc.nodup
  rw [hqueue, List.nodup_cons] at hnodup
  refine ⟨hnodup.2, ?_, ?_, ?_, ?_, hc.returned, ?_, ?_⟩ <;> simp only [hmem]
  · exact hc.queued
  · exact hc.pending
  · exact hc.enqueuing
  · exact hc.waiting
  · exact hc.sending
  · intro hexit
    simp [(hc.exited hexit).1] at hqueue

/-- A `do_send` command leaves the queue for the connection. -/
theorem pop_doSend (hc : c.WellFormed) {i : ℕ} {queue : List ClientCommand} {call : Call}
    (hqueue : c.queue = .send i :: queue) (hcall : c.calls[i]? = some call)
    (hkind : call.kind = .doSend) : { c with queue := queue, task := .sending i }.WellFormed := by
  have hnodup := hc.nodup
  rw [hqueue, List.nodup_cons] at hnodup
  have hmem : ∀ j, .send j ∈ queue → .send j ∈ c.queue := by simp +contextual [hqueue]
  obtain ⟨call', hcall', hstage, -⟩ := hc.queued (i := i) (by simp [hqueue])
  obtain rfl : call = call' := Option.some.inj (hcall.symm.trans hcall')
  refine ⟨hnodup.2, fun hj ↦ hc.queued (hmem _ hj), ?_, ?_, ?_, ?_, ?_, by simp⟩
  · intro id j hj
    obtain ⟨call', hcall', hkind', hid, hstage', hslot', hnot⟩ := hc.pending hj
    exact ⟨call', hcall', hkind', hid, hstage', hslot', fun h ↦ hnot (hmem _ h)⟩
  · intro j call' hcall' hstage'
    exact ⟨(hc.enqueuing hcall' hstage').1,
      fun h ↦ (hc.enqueuing hcall' hstage').2 (hmem _ h)⟩
  · intro j call' hcall' hstage'
    obtain ⟨hkind', hheld⟩ := hc.waiting hcall' hstage'
    refine ⟨hkind', fun hslot ↦ ?_⟩
    rcases hheld hslot with hj | hj
    · rw [hqueue, List.mem_cons] at hj
      rcases hj with hj | hj
      · -- the popped call is a `do_send`, so it is not the waiting one
        obtain rfl : j = i := by simpa using hj
        grind
      · exact .inl hj
    · exact .inr hj
  · intro j call' o hcall' hstage'
    have hjust := hc.returned hcall' hstage'
    have htask : c.task ≠ .exited := by
      intro hexit
      simp [(hc.exited hexit).1] at hqueue
    cases o <;> grind [Justified]
  · intro j hj
    obtain rfl : i = j := by simpa using hj
    exact ⟨call, hcall, hstage, hnodup.1, fun h ↦ absurd hkind h⟩

/-- A request leaves the queue for the map, and whatever the map held under its id is dropped. -/
theorem pop_send (hc : c.WellFormed) {i : ℕ} {queue : List ClientCommand} {call : Call}
    (hqueue : c.queue = .send i :: queue) (hcall : c.calls[i]? = some call)
    (hkind : call.kind ≠ .doSend) :
    RemoteClient.WellFormed {
      calls := match c.pending[call.envelope.correlationId]? with
        | some j => setSlot c.calls j .dropped
        | none => c.calls
      queue := queue
      pending := c.pending.insert call.envelope.correlationId i
      task := .sending i } := by
  have hnodup := hc.nodup
  rw [hqueue, List.nodup_cons] at hnodup
  have htask : c.task ≠ .exited := by
    intro hexit
    simp [(hc.exited hexit).1] at hqueue
  obtain ⟨call', hcall', hstage, hslot⟩ := hc.queued (i := i) (by simp [hqueue])
  obtain rfl : call = call' := Option.some.inj (hcall.symm.trans hcall')
  have hget : ∀ j, (match c.pending[call.envelope.correlationId]? with
      | some k => setSlot c.calls k .dropped
      | none => c.calls)[j]? = c.calls[j]?.map fun call' ↦
        if c.pending[call.envelope.correlationId]? = some j then { call' with slot := .dropped }
        else call' := by
    intro j
    cases hp : c.pending[call.envelope.correlationId]? with
    | none => simp
    | some k => simp [getElem?_setSlot]
  have hne : c.pending[call.envelope.correlationId]? ≠ some i := by
    intro hp
    obtain ⟨-, -, -, -, -, -, hnot⟩ := hc.pending hp
    exact hnot (by simp [hqueue])
  refine ⟨hnodup.2, ?_, ?_, ?_, ?_, ?_, ?_, by simp⟩ <;>
    simp only [hget, Std.ExtTreeMap.getElem?_insert, Std.LawfulEqCmp.compare_eq_iff_eq]
  · intro j hj
    obtain ⟨call', hcall', hstage', hslot'⟩ := hc.queued (i := j) (by simp [hqueue, hj])
    have hnot : c.pending[call.envelope.correlationId]? ≠ some j := by
      intro hp
      obtain ⟨-, -, -, -, -, -, hnot⟩ := hc.pending hp
      exact hnot (by simp [hqueue, hj])
    exact ⟨call', by simp [hcall', hnot], hstage', hslot'⟩
  · intro id j hj
    split at hj
    · rename_i hid
      cases hj
      exact ⟨call, by simp [hcall, hne], hkind, hid, hstage, hslot, hnodup.1⟩
    · rename_i hid
      obtain ⟨call', hcall', hkind', hid', hstage', hslot', hnot⟩ := hc.pending hj
      have hother : c.pending[call.envelope.correlationId]? ≠ some j := by
        intro hp
        obtain ⟨call'', hcall'', -, hid'', -⟩ := hc.pending hp
        grind
      exact ⟨call', by simp [hcall', hother], hkind', hid', hstage', hslot', by grind⟩
  · intro j call' hcall' hstage'
    obtain ⟨call'', hcall'', rfl⟩ := Option.map_eq_some_iff.mp hcall'
    have henq := hc.enqueuing hcall'' (by grind)
    have hnot : c.pending[call.envelope.correlationId]? ≠ some j := by
      intro hp
      obtain ⟨call₃, hcall₃, -, -, hstage₃, -⟩ := hc.pending hp
      grind
    simpa [hnot, hqueue, and_assoc] using ⟨henq.1, by grind⟩
  · intro j call' hcall' hstage'
    obtain ⟨call'', hcall'', rfl⟩ := Option.map_eq_some_iff.mp hcall'
    have hwait := hc.waiting hcall'' (by grind)
    grind
  · intro j call' o hcall' hstage'
    obtain ⟨call'', hcall'', rfl⟩ := Option.map_eq_some_iff.mp hcall'
    have hjust := hc.returned hcall'' (o := o) (by grind)
    have hpend : c.pending[call.envelope.correlationId]? = some j → call''.slot = .empty := by
      intro hp
      obtain ⟨call₃, hcall₃, -, -, -, hslot₃, -⟩ := hc.pending hp
      grind
    cases o <;> grind [Justified]
  · intro j hj
    obtain rfl : i = j := by simpa using hj
    exact ⟨call, by simp [hcall, hne], hstage, hnodup.1, by simp⟩

protected theorem takeCommand (hc : c.WellFormed) (h : c.takeCommand = some d) :
    d.WellFormed := by
  obtain ⟨htask, ⟨queue, hqueue, rfl⟩ |
    ⟨i, queue, call, hqueue, hcall, ⟨hkind, rfl⟩ | ⟨hkind, rfl⟩⟩⟩ := takeCommand_eq_some h
  · exact (hc.pop_close hqueue).exit
  · exact hc.pop_doSend hqueue hcall hkind
  · exact hc.pop_send hqueue hcall hkind

/-- Once the task is no longer sending, the map may give up any of its senders. -/
theorem select (hc : c.WellFormed) (htask : c.task ≠ .exited) :
    { c with task := .selecting }.WellFormed := by
  refine ⟨hc.nodup, hc.queued, hc.pending, hc.enqueuing, hc.waiting, ?_, by simp, by simp⟩
  intro i call o hcall hstage
  have hjust := hc.returned hcall hstage
  cases o <;> grind [Justified]

protected theorem resolve (hc : c.WellFormed) (htask : c.task = .selecting) (id : UInt64)
    (result : Except TransportError Envelope) : (c.resolve id result).WellFormed := by
  cases hp : c.pending[id]? with
  | none => rwa [resolve_eq_of_none hp]
  | some i =>
      rw [resolve_eq_of_some hp]
      obtain ⟨call, hcall, hkind, hid, hstage, hslot, hqueue⟩ := hc.pending hp
      refine ⟨hc.nodup, ?_, ?_, ?_, ?_, ?_, by simp [htask], by simp [htask]⟩ <;>
        simp only [getElem?_setSlot, Std.ExtTreeMap.getElem?_erase,
          Std.LawfulEqCmp.compare_eq_iff_eq]
      · intro j hj
        obtain ⟨call', hcall', hstage', hslot'⟩ := hc.queued hj
        have hij : i ≠ j := by
          rintro rfl
          exact hqueue hj
        exact ⟨call', by simp [hcall', hij], hstage', hslot'⟩
      · intro id' j hj
        split at hj
        · cases hj
        · obtain ⟨call', hcall', hkind', hid', hrest⟩ := hc.pending hj
          have hij : i ≠ j := by
            rintro rfl
            grind
          exact ⟨call', by simp [hcall', hij], hkind', hid', hrest⟩
      · intro j call' hcall' hstage'
        obtain ⟨call'', hcall'', rfl⟩ := Option.map_eq_some_iff.mp hcall'
        grind [hc.enqueuing hcall'']
      · intro j call' hcall' hstage'
        obtain ⟨call'', hcall'', rfl⟩ := Option.map_eq_some_iff.mp hcall'
        grind [hc.waiting hcall'']
      · intro j call' o hcall' hstage'
        obtain ⟨call'', hcall'', rfl⟩ := Option.map_eq_some_iff.mp hcall'
        have hjust := hc.returned hcall'' (o := o) (by grind)
        cases o <;> grind [Justified]

protected theorem recv (hc : c.WellFormed) {result : Except TransportError Envelope}
    (h : c.recv result = some d) : d.WellFormed := by
  obtain ⟨htask, ⟨e, -, -, rfl⟩ | ⟨e, -, -, rfl⟩ | ⟨-, rfl⟩ | ⟨err, -, -, rfl⟩⟩ := recv_eq_some h
  · exact hc.resolve htask _ _
  · exact hc
  · exact hc.exit
  · exact hc

protected theorem act (hc : c.WellFormed) {a : Action} (h : c.act a = some d) :
    d.WellFormed := by
  cases a with
  | enqueue i => exact hc.enqueue h
  | wake i => exact hc.wake h
  | expire i => exact hc.expire h
  | takeCommand => exact hc.takeCommand h
  | sendOk =>
      obtain ⟨i, htask, rfl⟩ := sendOk_eq_some h
      exact hc.select (by simp [htask])
  | sendErr kind message =>
      obtain ⟨i, call, htask, hcall, rfl⟩ := sendErr_eq_some h
      exact (hc.select (by simp [htask])).resolve rfl _ _

end WellFormed

/-! ## What a step keeps -/

/-- A call keeps its envelope, its outcome once it has returned, and what its `oneshot` got. -/
structure Becomes (a b : Call) : Prop where
  kind : b.kind = a.kind
  envelope : b.envelope = a.envelope
  enqueuing : b.stage = .enqueuing → a.stage = .enqueuing
  returned : ∀ o, a.stage = .returned o → b.stage = .returned o
  slot : a.slot ≠ .empty → b.slot = a.slot

theorem Becomes.refl (a : Call) : Becomes a a := ⟨rfl, rfl, id, fun _ h ↦ h, fun _ ↦ rfl⟩

theorem Becomes.trans {a b c : Call} (hab : Becomes a b) (hbc : Becomes b c) : Becomes a c where
  kind := hbc.kind.trans hab.kind
  envelope := hbc.envelope.trans hab.envelope
  enqueuing h := hab.enqueuing (hbc.enqueuing h)
  returned o h := hbc.returned o (hab.returned o h)
  slot h := by
    have hb := hab.slot h
    rw [← hb]
    exact hbc.slot (by rwa [hb])

/-- What the steps of the client's own parties do, whichever it is: no call appears or goes, only
an accepted command enters the queue, and only a queued request enters the map. -/
structure Moves (c d : RemoteClient) : Prop where
  length : d.calls.length = c.calls.length
  call : ∀ {i : ℕ} {b : Call}, d.calls[i]? = some b →
    ∃ a, c.calls[i]? = some a ∧ Becomes a b
  queue : ∀ {i : ℕ}, .send i ∈ d.queue →
    .send i ∈ c.queue ∨ ∃ a, c.calls[i]? = some a ∧ a.stage = .enqueuing
  pending : ∀ {id : UInt64} {i : ℕ}, d.pending[id]? = some i →
    c.pending[id]? = some i ∨ .send i ∈ c.queue

variable {c d : RemoteClient}

theorem Moves.refl (c : RemoteClient) : c.Moves c :=
  ⟨rfl, fun h ↦ ⟨_, h, .refl _⟩, .inl, .inl⟩

theorem Moves.forward (h : c.Moves d) {i : ℕ} {a : Call} (ha : c.calls[i]? = some a) :
    ∃ b, d.calls[i]? = some b ∧ Becomes a b := by
  have hi : i < d.calls.length := by
    rw [h.length]
    exact (List.getElem?_eq_some_iff.mp ha).1
  obtain ⟨a', ha', hbecomes⟩ := h.call (List.getElem?_eq_getElem hi)
  obtain rfl : a = a' := Option.some.inj (ha.symm.trans ha')
  exact ⟨_, List.getElem?_eq_getElem hi, hbecomes⟩

theorem becomes_setStage {xs : List Call} {i : ℕ} {a : Call} {stage : Stage}
    (ha : xs[i]? = some a) (hreturned : ∀ o, a.stage ≠ .returned o) (hstage : stage ≠ .enqueuing)
    {j : ℕ} {b : Call} (hb : (setStage xs i stage)[j]? = some b) :
    ∃ a, xs[j]? = some a ∧ Becomes a b := by
  rw [getElem?_setStage] at hb
  obtain ⟨a', ha', rfl⟩ := Option.map_eq_some_iff.mp hb
  refine ⟨a', ha', ?_⟩
  split
  · rename_i hij
    subst hij
    obtain rfl : a = a' := Option.some.inj (ha.symm.trans ha')
    exact ⟨rfl, rfl, fun h ↦ absurd h hstage, fun o h ↦ absurd h (hreturned o), fun _ ↦ rfl⟩
  · exact .refl a'

theorem becomes_setSlot {xs : List Call} {i : ℕ} {a : Call} {slot : Slot}
    (ha : xs[i]? = some a) (hslot : a.slot = .empty)
    {j : ℕ} {b : Call} (hb : (setSlot xs i slot)[j]? = some b) :
    ∃ a, xs[j]? = some a ∧ Becomes a b := by
  rw [getElem?_setSlot] at hb
  obtain ⟨a', ha', rfl⟩ := Option.map_eq_some_iff.mp hb
  refine ⟨a', ha', ?_⟩
  split
  · rename_i hij
    subst hij
    obtain rfl : a = a' := Option.some.inj (ha.symm.trans ha')
    exact ⟨rfl, rfl, id, fun _ h ↦ h, fun h ↦ absurd hslot h⟩
  · exact .refl a'

theorem moves_returning {i : ℕ} {a : Call} {o : Outcome} (ha : c.calls[i]? = some a)
    (hreturned : ∀ o, a.stage ≠ .returned o) :
    c.Moves { c with calls := setStage c.calls i (.returned o) } :=
  ⟨by simp [setStage], becomes_setStage ha hreturned (by simp), .inl, .inl⟩

theorem WellFormed.moves_exit (hc : c.WellFormed) : c.Moves c.exit := by
  refine ⟨by simp [exit], ?_, by simp [exit], by simp [exit]⟩
  intro i b hb
  rw [getElem?_exit] at hb
  obtain ⟨a, ha, rfl⟩ := Option.map_eq_some_iff.mp hb
  refine ⟨a, ha, ?_⟩
  split
  · rename_i hhold
    exact ⟨rfl, rfl, id, fun _ h ↦ h, fun h ↦ absurd (hc.slot_of_holds ha hhold) h⟩
  · exact .refl a

theorem WellFormed.moves_resolve (hc : c.WellFormed) (id : UInt64)
    (result : Except TransportError Envelope) : c.Moves (c.resolve id result) := by
  cases hp : c.pending[id]? with
  | none =>
      rw [resolve_eq_of_none hp]
      exact .refl c
  | some i =>
      rw [resolve_eq_of_some hp]
      obtain ⟨call, hcall, -, -, -, hslot, -⟩ := hc.pending hp
      refine ⟨by simp [setSlot], becomes_setSlot hcall hslot, .inl, ?_⟩
      intro id' j hj
      simp only [Std.ExtTreeMap.getElem?_erase] at hj
      split at hj
      · cases hj
      · exact .inl hj

theorem WellFormed.moves_recv (hc : c.WellFormed) {result : Except TransportError Envelope}
    (h : c.recv result = some d) : c.Moves d := by
  obtain ⟨-, ⟨e, -, -, rfl⟩ | ⟨e, -, -, rfl⟩ | ⟨-, rfl⟩ | ⟨err, -, -, rfl⟩⟩ := recv_eq_some h
  · exact hc.moves_resolve _ _
  · exact .refl _
  · exact hc.moves_exit
  · exact .refl _

theorem WellFormed.moves_takeCommand (hc : c.WellFormed) (h : c.takeCommand = some d) :
    c.Moves d := by
  obtain ⟨-, ⟨queue, hqueue, rfl⟩ | ⟨i, queue, call, hqueue, hcall, ⟨-, rfl⟩ | ⟨-, rfl⟩⟩⟩ :=
    takeCommand_eq_some h
  · have hmoves := (hc.pop_close hqueue).moves_exit
    exact ⟨hmoves.length, hmoves.call, by simp [exit], by simp [exit]⟩
  · exact ⟨rfl, fun h ↦ ⟨_, h, .refl _⟩, fun h ↦ .inl (by simp [hqueue, h]), .inl⟩
  · refine ⟨?_, ?_, fun h ↦ .inl (by simp [hqueue, h]), ?_⟩
    · cases c.pending[call.envelope.correlationId]? <;> simp [setSlot]
    · cases hp : c.pending[call.envelope.correlationId]? with
      | none => exact fun h ↦ ⟨_, h, .refl _⟩
      | some j =>
          obtain ⟨call', hcall', -, -, -, hslot, -⟩ := hc.pending hp
          exact becomes_setSlot hcall' hslot
    · intro id j hj
      simp only [Std.ExtTreeMap.getElem?_insert] at hj
      split at hj
      · cases hj
        exact .inr (by simp [hqueue])
      · exact .inl hj

theorem WellFormed.moves_act (hc : c.WellFormed) {a : Action} (h : c.act a = some d) :
    c.Moves d := by
  cases a with
  | enqueue i =>
      obtain ⟨call, hcall, hstage, ⟨-, rfl⟩ | ⟨-, -, rfl⟩⟩ := enqueue_eq_some h
      · exact moves_returning hcall (by simp [hstage])
      · refine ⟨by simp [setStage], becomes_setStage hcall (by simp [hstage]) ?_, ?_, .inl⟩
        · split <;> simp
        · intro j hj
          rcases List.mem_append.mp hj with hj | hj
          · exact .inl hj
          · obtain rfl : j = i := by simpa using hj
            exact .inr ⟨call, hcall, hstage⟩
  | wake i =>
      obtain ⟨call, o, hcall, hstage, -, rfl⟩ := wake_eq_some h
      exact moves_returning hcall (by simp [hstage])
  | expire i =>
      obtain ⟨call, hcall, -, hstage, rfl⟩ := expire_eq_some h
      exact moves_returning hcall (by rcases hstage with hstage | hstage <;> simp [hstage])
  | takeCommand => exact hc.moves_takeCommand h
  | sendOk =>
      obtain ⟨i, -, rfl⟩ := sendOk_eq_some h
      exact ⟨rfl, fun h ↦ ⟨_, h, .refl _⟩, .inl, .inl⟩
  | sendErr kind message =>
      obtain ⟨i, call, htask, -, rfl⟩ := sendErr_eq_some h
      have hmoves := (hc.select (by simp [htask])).moves_resolve
        call.envelope.correlationId (.error (.io kind message))
      exact ⟨hmoves.length, hmoves.call, hmoves.queue, hmoves.pending⟩

theorem exited_act {a : Action} (hexit : c.task = .exited) (h : c.act a = some d) :
    d.task = .exited := by
  cases a with
  | enqueue i =>
      obtain ⟨call, -, -, ⟨-, rfl⟩ | ⟨-, -, rfl⟩⟩ := enqueue_eq_some h <;> exact hexit
  | wake i =>
      obtain ⟨call, o, -, -, -, rfl⟩ := wake_eq_some h
      exact hexit
  | expire i =>
      obtain ⟨call, -, -, -, rfl⟩ := expire_eq_some h
      exact hexit
  | takeCommand => simp [takeCommand_eq_some h] at hexit
  | sendOk =>
      obtain ⟨i, htask, rfl⟩ := sendOk_eq_some h
      simp [htask] at hexit
  | sendErr kind message =>
      obtain ⟨i, call, htask, -, rfl⟩ := sendErr_eq_some h
      simp [htask] at hexit

/-! ## What a step does to a `oneshot` -/

/-- The next command is a request whose id is taken by the pending call `i`. -/
def Replaces (c : RemoteClient) (i : ℕ) : Prop :=
  ∃ j queue call, c.queue = .send j :: queue ∧ c.calls[j]? = some call ∧ call.kind ≠ .doSend ∧
    c.pending[call.envelope.correlationId]? = some i

variable {i : ℕ} {x y : Call}

theorem slot_setStage {xs : List Call} {j : ℕ} {stage : Stage} (hx : xs[i]? = some x)
    (hy : (setStage xs j stage)[i]? = some y) : y.slot = x.slot := by
  rw [getElem?_setStage, hx] at hy
  cases hy
  dsimp only
  split <;> rfl

theorem slot_exit (hx : c.calls[i]? = some x) (hy : c.exit.calls[i]? = some y) :
    y.slot = x.slot ∨ y.slot = .dropped := by
  rw [getElem?_exit, hx] at hy
  cases hy
  dsimp only
  split
  · exact .inr rfl
  · exact .inl rfl

theorem slot_resolve {id : UInt64} {result : Except TransportError Envelope}
    (hx : c.calls[i]? = some x) (hy : (c.resolve id result).calls[i]? = some y) :
    y.slot = x.slot ∨ c.pending[id]? = some i ∧ y.slot = .filled result := by
  cases hp : c.pending[id]? with
  | none =>
      rw [resolve_eq_of_none hp, hx] at hy
      cases hy
      exact .inl rfl
  | some j =>
      rw [resolve_eq_of_some hp] at hy
      simp only [getElem?_setSlot, hx] at hy
      cases hy
      by_cases hij : j = i
      · simp [hij]
      · simp [hij]

theorem slot_takeCommand (h : c.takeCommand = some d) (hx : c.calls[i]? = some x)
    (hy : d.calls[i]? = some y) :
    y.slot = x.slot ∨ y.slot = .dropped ∧ (d.task = .exited ∨ c.Replaces i) := by
  obtain ⟨-, ⟨queue, hqueue, rfl⟩ | ⟨j, queue, call, hqueue, hcall, ⟨-, rfl⟩ | ⟨hkind, rfl⟩⟩⟩ :=
    takeCommand_eq_some h
  · rcases slot_exit (c := { c with queue := queue }) hx hy with h | h
    · exact .inl h
    · exact .inr ⟨h, .inl rfl⟩
  · exact .inl (by simp_all)
  · cases hp : c.pending[call.envelope.correlationId]? with
    | none => exact .inl (by simp_all)
    | some k =>
        simp only [hp, getElem?_setSlot, hx] at hy
        cases hy
        by_cases hki : k = i
        · subst hki
          exact .inr ⟨by simp, .inr ⟨j, queue, call, hqueue, hcall, hkind, hp⟩⟩
        · simp [hki]

theorem slot_act {a : Action} (h : c.act a = some d) (hx : c.calls[i]? = some x)
    (hy : d.calls[i]? = some y) :
    y.slot = x.slot ∨ y.slot = .dropped ∧ (d.task = .exited ∨ a = .takeCommand ∧ c.Replaces i) ∨
      ∃ kind message, y.slot = .filled (.error (.io kind message)) := by
  cases a with
  | enqueue j =>
      obtain ⟨call, -, -, ⟨-, rfl⟩ | ⟨-, -, rfl⟩⟩ := enqueue_eq_some h
      · exact .inl (slot_setStage hx hy)
      · exact .inl (slot_setStage hx hy)
  | wake j =>
      obtain ⟨call, o, -, -, -, rfl⟩ := wake_eq_some h
      exact .inl (slot_setStage hx hy)
  | expire j =>
      obtain ⟨call, -, -, -, rfl⟩ := expire_eq_some h
      exact .inl (slot_setStage hx hy)
  | takeCommand =>
      rcases slot_takeCommand h hx hy with h | h
      · exact .inl h
      · exact .inr (.inl (by simpa using h))
  | sendOk =>
      obtain ⟨j, -, rfl⟩ := sendOk_eq_some h
      exact .inl (by simp_all)
  | sendErr kind message =>
      obtain ⟨j, call, -, -, rfl⟩ := sendErr_eq_some h
      rcases slot_resolve (c := { c with task := .selecting }) hx hy with h | ⟨-, h⟩
      · exact .inl h
      · exact .inr (.inr ⟨kind, message, h⟩)

theorem slot_recv {result : Except TransportError Envelope} (h : c.recv result = some d)
    (hx : c.calls[i]? = some x) (hy : d.calls[i]? = some y) :
    y.slot = x.slot ∨ y.slot = .dropped ∧ d.task = .exited ∨
      ∃ e, result = .ok e ∧ e.isResponse = true ∧ c.pending[e.correlationId]? = some i ∧
        y.slot = .filled (.ok e) := by
  obtain ⟨-, ⟨e, rfl, he, rfl⟩ | ⟨e, -, -, rfl⟩ | ⟨-, rfl⟩ | ⟨err, -, -, rfl⟩⟩ := recv_eq_some h
  · rcases slot_resolve hx hy with h | ⟨hp, h⟩
    · exact .inl h
    · exact .inr (.inr ⟨e, rfl, he, hp, h⟩)
  · exact .inl (by simp_all)
  · rcases slot_exit hx hy with h | h
    · exact .inl h
    · exact .inr (.inl ⟨h, rfl⟩)
  · exact .inl (by simp_all)

end RemoteClient

end Cineyma.Remote
