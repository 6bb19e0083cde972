import Cineyma.Foundations.Run
import Cineyma.Remote.Pending

/-!
# Entries that outlive their call

The entry of a request leaves the map of pending requests with its response, with an error of
`conn.send`, or with the task. A caller that gives up does not remove it: `send_timeout` drops the
future of `send` and nothing else. Here any calls are made on a client, and anything may arrive.
-/

namespace Cineyma.Remote

open StepSystem

namespace RemoteClient

inductive Op where
  | invoke (kind : CallKind) (envelope : Envelope)
  | act (a : Action)
  | recv (result : Except TransportError Envelope)

def step (c : RemoteClient) : Op → Option RemoteClient
  | .invoke kind envelope => some (c.invoke kind envelope)
  | .act a => c.act a
  | .recv result => c.recv result

/-- The task waits in its `select!`, and no command is queued. -/
def Idle (c : RemoteClient) : Prop := c.task = .selecting ∧ c.queue = []

instance : DecidablePred Idle := fun c ↦
  inferInstanceAs (Decidable (c.task = .selecting ∧ c.queue = []))

/-- The calls whose caller waits for a response. -/
def outstanding (c : RemoteClient) : List ℕ :=
  (List.range c.calls.length).filter fun i ↦ c.calls[i]?.map Call.stage = some .waiting

def TimedOut (c : RemoteClient) (i : ℕ) : Prop :=
  c.calls[i]?.map Call.stage = some (.returned (.failed .timeout))

/-- The task takes the command of the call `i`, a request with the id `id`. -/
def Takes (c : RemoteClient) (id : UInt64) (i : ℕ) : Op → Prop
  | .act .takeCommand => c.queue.head? = some (.send i) ∧
      ∃ call, c.calls[i]? = some call ∧ call.kind ≠ .doSend ∧ call.envelope.correlationId = id
  | _ => False

/-- A response with this id arrives, the connection fails to send a command with it, or another
request with it is taken, which does not happen when the ids are distinct. -/
def Frees (c : RemoteClient) (id : UInt64) : Op → Prop
  | .recv (.ok e) => e.isResponse = true ∧ e.correlationId = id
  | .act (.sendErr _ _) => ∃ i call, c.task = .sending i ∧ c.calls[i]? = some call ∧
      call.envelope.correlationId = id
  | .act .takeCommand => ∃ i, c.Takes id i (.act .takeCommand)
  | _ => False

def Taken (ops : List Op) (id : UInt64) (i : ℕ) : Prop :=
  Once step (fun _ c op ↦ c.Takes id i op) new ops

/-- The id was freed after the request was taken. -/
def Freed (ops : List Op) (id : UInt64) (i : ℕ) : Prop :=
  Once step (fun pre c op ↦ Taken pre id i ∧ c.Frees id op) new ops

variable {c d : RemoteClient} {op : Op} {ops : List Op} {id : UInt64} {i : ℕ} {x y : Call}

theorem mem_outstanding :
    i ∈ c.outstanding ↔ ∃ call, c.calls[i]? = some call ∧ call.stage = .waiting := by
  simp only [outstanding, List.mem_filter, List.mem_range, decide_eq_true_eq,
    Option.map_eq_some_iff]
  constructor
  · exact fun h ↦ h.2
  · rintro ⟨call, hcall, hstage⟩
    exact ⟨(List.getElem?_eq_some_iff.mp hcall).1, call, hcall, hstage⟩

theorem exited_recv {result : Except TransportError Envelope} (h : c.recv result = some d) :
    c.task ≠ .exited := by
  simp [(recv_eq_some h).1]

/-! ## What a step leaves -/

theorem wellFormed_step (hc : c.WellFormed) (h : step c op = some d) : d.WellFormed := by
  cases op with
  | invoke kind envelope =>
      cases h
      exact hc.invoke kind envelope
  | act a => exact hc.act h
  | recv result => exact hc.recv h

theorem wellFormed_of_run (hrun : run step new ops = some c) : c.WellFormed :=
  run_invariant (fun _ _ _ hc h ↦ wellFormed_step hc h) wellFormed_new hrun

theorem exited_step (hexit : c.task = .exited) (h : step c op = some d) : d.task = .exited := by
  cases op with
  | invoke kind envelope =>
      cases h
      exact hexit
  | act a => exact exited_act hexit h
  | recv result => exact absurd hexit (exited_recv h)

theorem becomes_step (hc : c.WellFormed) (h : step c op = some d) (hx : c.calls[i]? = some x) :
    ∃ y, d.calls[i]? = some y ∧ Becomes x y := by
  cases op with
  | invoke kind envelope =>
      cases h
      have hi : i ≠ c.calls.length := (List.getElem?_eq_some_iff.mp hx).1.ne
      exact ⟨x, by rw [getElem?_invoke, if_neg hi, hx], .refl x⟩
  | act a => exact (hc.moves_act h).forward hx
  | recv result => exact (hc.moves_recv h).forward hx

/-- Only the command of a call that has not been accepted yet enters the queue. -/
theorem queue_step (hc : c.WellFormed) (h : step c op = some d) (hmem : .send i ∈ d.queue) :
    .send i ∈ c.queue ∨ ∃ x, c.calls[i]? = some x ∧ x.stage = .enqueuing := by
  cases op with
  | invoke kind envelope =>
      cases h
      exact .inl hmem
  | act a => exact (hc.moves_act h).queue hmem
  | recv result => exact (hc.moves_recv h).queue hmem

/-! ## Who has an entry -/

theorem taken_concat (hrun : run step new ops = some c) :
    Taken (ops ++ [op]) id i ↔ Taken ops id i ∨ c.Takes id i op :=
  once_concat hrun

theorem freed_concat (hrun : run step new ops = some c) :
    Freed (ops ++ [op]) id i ↔ Freed ops id i ∨ Taken ops id i ∧ c.Frees id op :=
  once_concat hrun

theorem taken_of_freed (h : Freed ops id i) : Taken ops id i := by
  obtain ⟨pre, op, post, c, rfl, -, htaken, -⟩ := h
  exact htaken.append (op :: post)

theorem pending_resolve_iff (result : Except TransportError Envelope) (id' : UInt64) :
    (c.resolve id' result).pending[id]? = some i ↔ c.pending[id]? = some i ∧ id' ≠ id := by
  refine ⟨fun h ↦ (pending_of_resolve h).symm, ?_⟩
  rintro ⟨hi, hne⟩
  cases hp : c.pending[id']? with
  | none => rwa [resolve_eq_of_none hp]
  | some j => simpa [resolve_eq_of_some hp, Std.ExtTreeMap.getElem?_erase, hne] using hi

theorem pending_takeCommand (h : c.takeCommand = some d) (hd : d.task ≠ .exited) :
    d.pending[id]? = some i ↔ c.Takes id i (.act .takeCommand) ∨
      c.pending[id]? = some i ∧ ¬ c.Frees id (.act .takeCommand) := by
  obtain ⟨-, ⟨queue, -, rfl⟩ | ⟨j, queue, call, hqueue, hcall, ⟨hdo, rfl⟩ | ⟨hdo, rfl⟩⟩⟩ :=
    takeCommand_eq_some h
  · exact absurd rfl hd
  · have hnone (k : ℕ) : ¬ c.Takes id k (.act .takeCommand) := by
      rintro ⟨hhead, call', hcall', hkind, -⟩
      rw [hqueue, List.head?_cons] at hhead
      cases hhead
      exact hkind (Option.some.inj (hcall.symm.trans hcall') ▸ hdo)
    simp [Frees, hnone]
  · have htakes (k : ℕ) : c.Takes id k (.act .takeCommand) ↔
        j = k ∧ call.envelope.correlationId = id := by
      simp only [Takes, hqueue, List.head?_cons, Option.some.injEq, ClientCommand.send.injEq]
      refine and_congr_right ?_
      rintro rfl
      simp [hcall, hdo]
    simp only [Frees, htakes, exists_eq_left', Std.ExtTreeMap.getElem?_insert,
      Std.LawfulEqCmp.compare_eq_iff_eq]
    by_cases hid : call.envelope.correlationId = id <;> simp [hid]

/-- As long as the task runs, an entry is there when the request has just been taken, or when it was
there before and its id is not freed. -/
theorem pending_step (h : step c op = some d) (hd : d.task ≠ .exited) :
    d.pending[id]? = some i ↔ c.Takes id i op ∨ c.pending[id]? = some i ∧ ¬ c.Frees id op := by
  cases op with
  | invoke kind envelope =>
      cases h
      simp [invoke, Takes, Frees]
  | act a =>
      cases a with
      | enqueue j =>
          obtain ⟨call, -, -, ⟨-, rfl⟩ | ⟨-, -, rfl⟩⟩ := enqueue_eq_some h <;> simp [Takes, Frees]
      | wake j =>
          obtain ⟨call, o, -, -, -, rfl⟩ := wake_eq_some h
          simp [Takes, Frees]
      | expire j =>
          obtain ⟨call, -, -, -, rfl⟩ := expire_eq_some h
          simp [Takes, Frees]
      | takeCommand => exact pending_takeCommand h hd
      | sendOk =>
          obtain ⟨j, -, rfl⟩ := sendOk_eq_some h
          simp [Takes, Frees]
      | sendErr kind message =>
          obtain ⟨j, call, htask, hcall, rfl⟩ := sendErr_eq_some h
          simp [Takes, Frees, pending_resolve_iff, htask, hcall]
  | recv result =>
      obtain ⟨-, ⟨e, rfl, he, rfl⟩ | ⟨e, rfl, he, rfl⟩ | ⟨rfl, rfl⟩ | ⟨err, rfl, -, rfl⟩⟩ :=
        recv_eq_some h
      · simp [Takes, Frees, pending_resolve_iff, he]
      · simp [Takes, Frees, he]
      · exact absurd rfl hd
      · simp [Takes, Frees]

/-- The call `i` has been accepted, and it has the id `id`. -/
def Accepted (c : RemoteClient) (id : UInt64) (i : ℕ) : Prop :=
  ∃ call, c.calls[i]? = some call ∧ call.stage ≠ .enqueuing ∧ call.envelope.correlationId = id

theorem accepted_step (h : c.Accepted id i) (hc : c.WellFormed) (hstep : step c op = some d) :
    d.Accepted id i := by
  obtain ⟨x, hx, hstage, hid⟩ := h
  obtain ⟨y, hy, hbecomes⟩ := becomes_step hc hstep hx
  exact ⟨y, hy, fun hback ↦ hstage (hbecomes.enqueuing hback), by rw [hbecomes.envelope, hid]⟩

/-- The command of an accepted call does not enter the queue again. -/
theorem mem_queue_of_accepted (h : c.Accepted id i) (hc : c.WellFormed) (hstep : step c op = some d)
    (hmem : .send i ∈ d.queue) : .send i ∈ c.queue := by
  refine (queue_step hc hstep hmem).resolve_right ?_
  rintro ⟨x, hx, henqueuing⟩
  obtain ⟨y, hy, hstage, -⟩ := h
  cases hx.symm.trans hy
  exact hstage henqueuing

theorem Takes.eq_takeCommand (h : c.Takes id i op) : op = .act .takeCommand := by
  cases op with
  | act a =>
      cases a with
      | takeCommand => rfl
      | _ => cases h
  | _ => cases h

theorem Takes.mem_queue (h : c.Takes id i op) : .send i ∈ c.queue := by
  cases h.eq_takeCommand
  exact List.mem_of_head? h.1

theorem Takes.accepted (h : c.Takes id i op) (hc : c.WellFormed) : c.Accepted id i := by
  obtain ⟨x, hx, hstage, -⟩ := hc.queued h.mem_queue
  cases h.eq_takeCommand
  obtain ⟨-, y, hy, -, hid⟩ := h
  cases hx.symm.trans hy
  exact ⟨x, hx, hstage, hid⟩

theorem Takes.not_mem_queue (h : c.Takes id i op) (hc : c.WellFormed)
    (hstep : step c op = some d) : .send i ∉ d.queue := by
  cases h.eq_takeCommand
  have hnodup := hc.nodup
  obtain ⟨hhead, -⟩ := h
  obtain ⟨-, ⟨queue, -, rfl⟩ | ⟨j, queue, call, hqueue, -, ⟨-, rfl⟩ | ⟨-, rfl⟩⟩⟩ :=
    takeCommand_eq_some hstep
  · simp [exit]
  all_goals
    rw [hqueue, List.head?_cons, Option.some.injEq] at hhead
    rw [hqueue, hhead] at hnodup
    exact (List.nodup_cons.mp hnodup).1

/-- A request is taken once: its command has left the queue, and does not enter it again. -/
theorem accepted_of_taken (hrun : run step new ops = some c) (h : Taken ops id i) :
    c.Accepted id i ∧ .send i ∉ c.queue := by
  refine run_history (P := fun ops c ↦ Taken ops id i → c.Accepted id i ∧ .send i ∉ c.queue)
    (fun h ↦ absurd h once_nil) ?_ hrun h
  intro ops c op d ih hbefore hstep h
  have hc := wellFormed_of_run hbefore
  rcases (taken_concat hbefore).mp h with h | htakes
  · obtain ⟨haccepted, hqueue⟩ := ih h
    exact ⟨accepted_step haccepted hc hstep,
      fun hmem ↦ hqueue (mem_queue_of_accepted haccepted hc hstep hmem)⟩
  · exact ⟨accepted_step (htakes.accepted hc) hc hstep, htakes.not_mem_queue hc hstep⟩

/-- As long as the task runs, the map has the requests that were taken and whose id was not freed
since. -/
theorem pending_iff (hrun : run step new ops = some c) (hrunning : c.task ≠ .exited) :
    c.pending[id]? = some i ↔ Taken ops id i ∧ ¬ Freed ops id i := by
  refine run_history (P := fun ops c ↦ c.task ≠ .exited →
    (c.pending[id]? = some i ↔ Taken ops id i ∧ ¬ Freed ops id i)) ?_ ?_ hrun hrunning
  · simp [new, Taken, once_nil]
  · intro ops c op d ih hbefore hstep hd
    rw [pending_step hstep hd, ih fun hexit ↦ hd (exited_step hexit hstep),
      taken_concat hbefore, freed_concat hbefore]
    have hfresh : c.Takes id i op → ¬ Taken ops id i :=
      fun htakes htaken ↦ (accepted_of_taken hbefore htaken).2 htakes.mem_queue
    have hfreed : Freed ops id i → Taken ops id i := taken_of_freed
    tauto

/-! ## Idle clients -/

theorem nodup_values_pending (hc : c.WellFormed) : (c.pending.toList.map Prod.snd).Nodup := by
  rw [List.nodup_iff_pairwise_ne, List.pairwise_map]
  refine c.pending.distinct_keys_toList.imp_of_mem ?_
  rintro ⟨id, i⟩ ⟨id', j⟩ hi hj hne rfl
  obtain ⟨call, hcall, -, hid, -⟩ :=
    hc.pending (Std.ExtTreeMap.mem_toList_iff_getElem?_eq_some.mp hi)
  obtain ⟨call', hcall', -, hid', -⟩ :=
    hc.pending (Std.ExtTreeMap.mem_toList_iff_getElem?_eq_some.mp hj)
  obtain rfl : call = call' := Option.some.inj (hcall.symm.trans hcall')
  exact hne (Std.LawfulEqCmp.compare_eq_iff_eq.mpr (hid.symm.trans hid'))

/-- A call has one entry at most. -/
theorem size_pending_le (hc : c.WellFormed)
    (h : ∀ (id : UInt64) (i : ℕ), c.pending[id]? = some i → i ∈ c.outstanding) :
    c.pending.size ≤ c.outstanding.length := by
  have hsub : c.pending.toList.map Prod.snd ⊆ c.outstanding := by
    intro i hi
    obtain ⟨⟨id, j⟩, hmem, rfl⟩ := List.mem_map.mp hi
    exact h id j (Std.ExtTreeMap.mem_toList_iff_getElem?_eq_some.mp hmem)
  have hle := ((nodup_values_pending hc).subperm hsub).length_le
  rwa [List.length_map, Std.ExtTreeMap.length_toList] at hle

/-- The caller of a pending request waits, unless its call has timed out. -/
theorem waiting_or_timedOut (hc : c.WellFormed) (hidle : c.Idle) {id : UInt64}
    (hi : c.pending[id]? = some i) : i ∈ c.outstanding ∨ c.TimedOut i := by
  obtain ⟨call, hcall, hkind, -, hstage, hslot, -⟩ := hc.pending hi
  rw [mem_outstanding, TimedOut, hcall]
  cases hcase : call.stage with
  | enqueuing => exact absurd hcase hstage
  | waiting => exact .inl ⟨call, rfl, hcase⟩
  | returned o =>
      have hjust := hc.returned hcall hcase
      cases o with
      | sent => exact absurd hjust hkind
      | response e => cases hslot.symm.trans hjust
      | failed err =>
          rcases hjust with hfilled | ⟨-, hdropped | ⟨-, hexit⟩⟩ | ⟨rfl, -⟩
          · cases hslot.symm.trans hfilled
          · cases hslot.symm.trans hdropped
          · cases hidle.1.symm.trans hexit
          · exact .inr (by simp [hcase])

/-! ## Calls that have timed out -/

/-- Filling or dropping slots leaves every call at its stage. -/
theorem stages_of_slots {xs ys : List Call} {slot : Slot} (p : ℕ → Call → Prop)
    [∀ i call, Decidable (p i call)]
    (h : ∀ i : ℕ, ys[i]? = xs[i]?.map fun call ↦
      if p i call then { call with slot := slot } else call) :
    ys.map Call.stage = xs.map Call.stage := by
  apply List.ext_getElem?
  intro i
  rw [List.getElem?_map, List.getElem?_map, h, Option.map_map]
  congr 1
  funext call
  simp only [Function.comp_apply]
  split <;> rfl

theorem stages_setSlot (calls : List Call) (j : ℕ) (slot : Slot) :
    (setSlot calls j slot).map Call.stage = calls.map Call.stage :=
  stages_of_slots (fun i _ ↦ j = i) (getElem?_setSlot calls j slot)

theorem stages_exit (c : RemoteClient) : c.exit.calls.map Call.stage = c.calls.map Call.stage :=
  stages_of_slots (fun i call ↦ c.holds i call = true) c.getElem?_exit

theorem stages_resolve (c : RemoteClient) (id : UInt64) (result : Except TransportError Envelope) :
    (c.resolve id result).calls.map Call.stage = c.calls.map Call.stage := by
  cases hp : c.pending[id]? with
  | none => rw [resolve_eq_of_none hp]
  | some j => rw [resolve_eq_of_some hp, stages_setSlot]

theorem stages_takeCommand (h : c.takeCommand = some d) :
    d.calls.map Call.stage = c.calls.map Call.stage := by
  obtain ⟨-, ⟨queue, -, rfl⟩ | ⟨j, queue, call, -, -, ⟨-, rfl⟩ | ⟨-, rfl⟩⟩⟩ := takeCommand_eq_some h
  · exact stages_exit _
  · rfl
  · dsimp only
    split
    · exact stages_setSlot ..
    · rfl

theorem stages_recv {result : Except TransportError Envelope} (h : c.recv result = some d) :
    d.calls.map Call.stage = c.calls.map Call.stage := by
  obtain ⟨-, ⟨e, -, -, rfl⟩ | ⟨e, -, -, rfl⟩ | ⟨-, rfl⟩ | ⟨err, -, -, rfl⟩⟩ := recv_eq_some h
  · exact stages_resolve ..
  · rfl
  · exact stages_exit c
  · rfl

theorem of_setStage {calls : List Call} {j : ℕ} {stage : Stage}
    (hy : (setStage calls j stage)[i]? = some y) :
    ∃ x, calls[i]? = some x ∧ x.slot = y.slot ∧ (x.stage = y.stage ∨ j = i ∧ y.stage = stage) := by
  rw [getElem?_setStage, Option.map_eq_some_iff] at hy
  obtain ⟨x, hx, rfl⟩ := hy
  refine ⟨x, hx, ?_⟩
  split <;> simp_all

theorem timedOut_of_stages (hstages : d.calls.map Call.stage = c.calls.map Call.stage)
    (h : d.TimedOut i) : c.TimedOut i := by
  rwa [TimedOut, ← List.getElem?_map, ← hstages, List.getElem?_map]

/-- Only its timer makes a call time out while its `oneshot` is empty. -/
theorem timedOut_act {a : Action} (h : c.act a = some d) (htimedOut : d.TimedOut i)
    (hy : d.calls[i]? = some y) (hslot : y.slot = .empty) : c.TimedOut i ∨ a = .expire i := by
  have hstage : y.stage = .returned (.failed .timeout) := by simpa [TimedOut, hy] using htimedOut
  have hleft {x : Call} (hx : c.calls[i]? = some x) (hxy : x.stage = y.stage) : c.TimedOut i := by
    simp [TimedOut, hx, hxy, hstage]
  cases a with
  | enqueue j =>
      obtain ⟨call, -, -, ⟨-, rfl⟩ | ⟨-, -, rfl⟩⟩ := enqueue_eq_some h
      · obtain ⟨x, hx, -, hxy | ⟨-, hy⟩⟩ := of_setStage hy
        · exact .inl (hleft hx hxy)
        · cases hstage.symm.trans hy
      · obtain ⟨x, hx, -, hxy | ⟨-, hy⟩⟩ := of_setStage hy
        · exact .inl (hleft hx hxy)
        · rw [hstage] at hy
          split at hy <;> cases hy
  | wake j =>
      obtain ⟨call, o, hcall, -, hslots, rfl⟩ := wake_eq_some h
      obtain ⟨x, hx, hxslot, hxy | ⟨rfl, -⟩⟩ := of_setStage hy
      · exact .inl (hleft hx hxy)
      · cases hx.symm.trans hcall
        simp [hxslot, hslot] at hslots
  | expire j =>
      obtain ⟨call, -, -, -, rfl⟩ := expire_eq_some h
      obtain ⟨x, hx, -, hxy | ⟨rfl, -⟩⟩ := of_setStage hy
      · exact .inl (hleft hx hxy)
      · exact .inr rfl
  | takeCommand => exact .inl (timedOut_of_stages (stages_takeCommand h) htimedOut)
  | sendOk =>
      obtain ⟨j, -, rfl⟩ := sendOk_eq_some h
      exact .inl htimedOut
  | sendErr kind message =>
      obtain ⟨j, call, -, -, rfl⟩ := sendErr_eq_some h
      exact .inl (timedOut_of_stages (c := { c with task := .selecting }) (stages_resolve ..)
        htimedOut)

theorem timedOut_step (h : step c op = some d) (htimedOut : d.TimedOut i)
    (hy : d.calls[i]? = some y) (hslot : y.slot = .empty) :
    c.TimedOut i ∨ op = .act (.expire i) := by
  cases op with
  | invoke kind envelope =>
      cases h
      rw [TimedOut, getElem?_invoke] at htimedOut
      split at htimedOut
      · simp at htimedOut
      · exact .inl htimedOut
  | act a => exact (timedOut_act h htimedOut hy hslot).imp_right (congrArg Op.act)
  | recv result => exact .inl (timedOut_of_stages (stages_recv h) htimedOut)

theorem timedOut_of_expire (hrun : run step new ops = some c) (h : .act (.expire i) ∈ ops) :
    c.TimedOut i := by
  refine run_history (P := fun ops c ↦ .act (.expire i) ∈ ops → c.TimedOut i) (by simp) ?_ hrun h
  intro ops c op d ih hbefore hstep h
  rcases List.mem_append.mp h with h | h
  · obtain ⟨x, hx, hstage⟩ := Option.map_eq_some_iff.mp (ih h)
    obtain ⟨y, hy, hbecomes⟩ := becomes_step (wellFormed_of_run hbefore) hstep hx
    simp [TimedOut, hy, hbecomes.returned _ hstage]
  · cases List.mem_singleton.mp h
    obtain ⟨call, hcall, -, -, rfl⟩ := expire_eq_some hstep
    simp [TimedOut, getElem?_setStage, hcall]

theorem expire_of_timedOut (hrun : run step new ops = some c) (h : c.TimedOut i)
    (hx : c.calls[i]? = some x) (hslot : x.slot = .empty) : .act (.expire i) ∈ ops := by
  refine run_history (P := fun ops c ↦ ∀ x, c.TimedOut i → c.calls[i]? = some x →
    x.slot = .empty → .act (.expire i) ∈ ops) ?_ ?_ hrun x h hx hslot
  · simp [TimedOut, new]
  · intro ops c op d ih hbefore hstep y htimedOut hy hslot
    rcases timedOut_step hstep htimedOut hy hslot with hearlier | rfl
    · obtain ⟨x, hx, -⟩ := Option.map_eq_some_iff.mp hearlier
      obtain ⟨y', hy', hbecomes⟩ := becomes_step (wellFormed_of_run hbefore) hstep hx
      cases hy'.symm.trans hy
      refine List.mem_append_left _ (ih x hearlier hx ?_)
      by_contra hfilled
      exact hfilled ((hbecomes.slot hfilled).symm.trans hslot)
    · simp

/-- When the task is idle, the map has entries of waiting callers only, none of a call that timed
out and no more than there are waiting callers, if and only if for every call that timed out and
whose request was taken, its id was freed afterwards: its response arrived, late or not, or sending
it failed. -/
theorem entries_wait_iff (hrun : run step new ops = some c) (hidle : c.Idle) :
    ((∀ (id : UInt64) (i : ℕ), c.pending[id]? = some i → i ∈ c.outstanding) ∧
        (∀ (id : UInt64) (i : ℕ), c.TimedOut i → c.pending[id]? ≠ some i) ∧
        c.pending.size ≤ c.outstanding.length) ↔
      ∀ (id : UInt64) (i : ℕ), .act (.expire i) ∈ ops → Taken ops id i → Freed ops id i := by
  have hc := wellFormed_of_run hrun
  have hrunning : c.task ≠ .exited := by simp [hidle.1]
  constructor
  · rintro ⟨-, hgone, -⟩ id i hexpire htaken
    by_contra hfreed
    exact hgone id i (timedOut_of_expire hrun hexpire) ((pending_iff hrun hrunning).mpr
      ⟨htaken, hfreed⟩)
  · intro hfreed
    have hgone : ∀ (id : UInt64) (i : ℕ), c.TimedOut i → c.pending[id]? ≠ some i := by
      intro id i htimedOut hi
      obtain ⟨call, hcall, -, -, -, hempty, -⟩ := hc.pending hi
      obtain ⟨htaken, hkept⟩ := (pending_iff hrun hrunning).mp hi
      exact hkept (hfreed id i (expire_of_timedOut hrun htimedOut hcall hempty) htaken)
    have hwaits : ∀ (id : UInt64) (i : ℕ), c.pending[id]? = some i → i ∈ c.outstanding := by
      intro id i hi
      refine (waiting_or_timedOut hc hidle hi).resolve_right fun htimedOut ↦ ?_
      exact hgone id i htimedOut hi
    exact ⟨hwaits, hgone, size_pending_le hc hwaits⟩

/-- A request under the id 7, and the response to it. -/
def query : Envelope := ⟨"q", [], 7, "", "", false⟩

def reply : Envelope := ⟨"r", [], 7, "", "", true⟩

/-- The timer of a request expires, and no response has come. -/
def expiredOps : List Op :=
  [.invoke .sendTimeout query, .act (.enqueue 0), .act .takeCommand, .act .sendOk,
    .act (.expire 0)]

/-- The response comes after the timeout. -/
theorem late_response_removes_entry :
    ∃ c, run step new (expiredOps ++ [.recv (.ok reply)]) = some c ∧ c.Idle ∧ c.TimedOut 0 ∧
      ∀ (id : UInt64) (i : ℕ), c.pending[id]? = some i → i ∈ c.outstanding := by
  have hexpired : (run step new expiredOps).map (fun c ↦
      c.calls.map fun call ↦ call.envelope.correlationId) = some [7] := by
    rfl
  have hrun : (run step new (expiredOps ++ [.recv (.ok reply)])).map (fun c ↦
      (decide c.Idle, c.calls.map Call.stage)) =
      some (true, [.returned (.failed .timeout)]) := by
    rfl
  obtain ⟨b, hexpired, hids⟩ := Option.map_eq_some_iff.mp hexpired
  obtain ⟨c, hrun, hc⟩ := Option.map_eq_some_iff.mp hrun
  obtain ⟨hidle, hstages⟩ := Prod.mk.inj hc
  have hidle : c.Idle := of_decide_eq_true hidle
  have htimedOut : c.TimedOut 0 := by
    rw [TimedOut, ← List.getElem?_map, hstages]
    rfl
  refine ⟨c, hrun, hidle, htimedOut, ((entries_wait_iff hrun hidle).mpr fun id i _ htaken ↦ ?_).1⟩
  -- nothing is taken by the last step, and what was taken before has the id 7
  have htaken : Taken expiredOps id i := ((taken_concat hexpired).mp htaken).resolve_right not_false
  obtain ⟨⟨call, hcall, -, hid⟩, -⟩ := accepted_of_taken hexpired htaken
  have hseven : reply.correlationId = id := by
    have hmem : id ∈ b.calls.map fun call ↦ call.envelope.correlationId :=
      List.mem_map.mpr ⟨call, List.mem_of_getElem? hcall, hid⟩
    rw [hids, List.mem_singleton] at hmem
    exact hmem.symm
  exact (freed_concat hexpired).mpr (.inr ⟨htaken, rfl, hseven⟩)

/-- No response comes: the call has returned, and its entry stays. -/
theorem timed_out_call_keeps_entry :
    (run step new expiredOps).map (fun c ↦ (decide c.Idle, c.calls.map Call.stage,
      c.pending[(7 : UInt64)]?, c.outstanding, c.pending.size)) =
      some (true, [.returned (.failed .timeout)], some 0, [], 1) := by
  decide +kernel

end RemoteClient

end Cineyma.Remote
