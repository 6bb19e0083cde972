import Mathlib
import Cineyma.Remote.Envelope

/-!
# The remote client

A `RemoteClient` is a command channel to a task that owns the connection. The task keeps, by
correlation id, the `oneshot` senders of the requests that await a response. A state of the model
holds the task together with every call made on the client so far. A call is named by its position
in `calls`.
-/

namespace Cineyma.Remote

inductive CallKind where
  | doSend
  | send
  | sendTimeout
  deriving DecidableEq

/-- The `oneshot` channel of a call. -/
inductive Slot where
  | empty
  | filled (result : Except TransportError Envelope)
  | dropped

/-- What a call returns to its caller: `sent` is the `Ok(())` of `do_send`. -/
inductive Outcome where
  | sent
  | response (e : Envelope)
  | failed (err : TransportError)
  deriving DecidableEq

/-- A call first waits for room in the command channel, then (unless it is a `do_send`) for its
`oneshot`. -/
inductive Stage where
  | enqueuing
  | waiting
  | returned (outcome : Outcome)
  deriving DecidableEq

structure Call where
  kind : CallKind
  envelope : Envelope
  stage : Stage
  slot : Slot

/-- `send i` carries the envelope of the call `i` and, unless the call is a `do_send`, the sender of
its `oneshot`. -/
inductive ClientCommand where
  | send (i : ℕ)
  | close
  deriving DecidableEq

inductive ClientTask where
  | selecting
  | sending (i : ℕ)
  | exited
  deriving DecidableEq

structure RemoteClient where
  calls : List Call
  queue : List ClientCommand
  pending : Std.ExtTreeMap UInt64 ℕ
  task : ClientTask

namespace RemoteClient

def new : RemoteClient where
  calls := []
  queue := []
  pending := ∅
  task := .selecting

def setSlot (calls : List Call) (i : ℕ) (slot : Slot) : List Call :=
  calls.modify i fun call ↦ { call with slot := slot }

def setStage (calls : List Call) (i : ℕ) (stage : Stage) : List Call :=
  calls.modify i fun call ↦ { call with stage := stage }

/-! ## The callers -/

def invoke (c : RemoteClient) (kind : CallKind) (envelope : Envelope) : RemoteClient :=
  { c with calls := c.calls ++ [⟨kind, envelope, .enqueuing, .empty⟩] }

def enqueue (c : RemoteClient) (i : ℕ) : Option RemoteClient :=
  match c.calls[i]? with
  | some ⟨kind, _, .enqueuing, _⟩ =>
      -- the receiver lives in the task, so the channel is closed once the task has exited
      if c.task = .exited then
        some { c with calls := setStage c.calls i (.returned (.failed .disconnected)) }
      else if c.queue.length < 32 then
        some { c with
          calls := setStage c.calls i (if kind = .doSend then .returned .sent else .waiting)
          queue := c.queue ++ [.send i] }
      else none
  | _ => none

def wake (c : RemoteClient) (i : ℕ) : Option RemoteClient :=
  match c.calls[i]? with
  | some ⟨_, _, .waiting, .filled (.ok e)⟩ =>
      some { c with calls := setStage c.calls i (.returned (.response e)) }
  | some ⟨_, _, .waiting, .filled (.error err)⟩ =>
      some { c with calls := setStage c.calls i (.returned (.failed err)) }
  | some ⟨_, _, .waiting, .dropped⟩ =>
      some { c with calls := setStage c.calls i (.returned (.failed .disconnected)) }
  | _ => none

def expire (c : RemoteClient) (i : ℕ) : Option RemoteClient :=
  match c.calls[i]? with
  | some ⟨.sendTimeout, _, .enqueuing, _⟩ | some ⟨.sendTimeout, _, .waiting, _⟩ =>
      some { c with calls := setStage c.calls i (.returned (.failed .timeout)) }
  | _ => none

/-! ## The task -/

/-- The task holds the sender of the call's `oneshot`, in the map or in a queued command. -/
def holds (c : RemoteClient) (i : ℕ) (call : Call) : Bool :=
  call.kind ≠ .doSend ∧ (.send i ∈ c.queue ∨ c.pending[call.envelope.correlationId]? = some i)

/-- Leaving the loop drops the receiver with its queue, and the map. -/
def exit (c : RemoteClient) : RemoteClient where
  calls := c.calls.mapIdx fun i call ↦
    if c.holds i call then { call with slot := .dropped } else call
  queue := []
  pending := ∅
  task := .exited

def takeCommand (c : RemoteClient) : Option RemoteClient :=
  match c.task, c.queue with
  | .selecting, .close :: queue => some (exit { c with queue := queue })
  | .selecting, .send i :: queue =>
      match c.calls[i]? with
      | none => none
      | some call =>
          if call.kind = .doSend then
            some { c with queue := queue, task := .sending i }
          else
            let id := call.envelope.correlationId
            some {
              -- a sender that the insertion replaces is dropped
              calls := match c.pending[id]? with
                | some j => setSlot c.calls j .dropped
                | none => c.calls
              queue := queue
              pending := c.pending.insert id i
              task := .sending i }
  | _, _ => none

/-- Take the sender pending under `id`, if there is one, and send it the result. -/
def resolve (c : RemoteClient) (id : UInt64) (result : Except TransportError Envelope) :
    RemoteClient :=
  match c.pending[id]? with
  | some i => { c with
      calls := setSlot c.calls i (.filled result)
      pending := c.pending.erase id }
  | none => c

def sendOk (c : RemoteClient) : Option RemoteClient :=
  match c.task with
  | .sending _ => some { c with task := .selecting }
  | _ => none

-- the only errors of `TcpConnection::send` are those of the stream
def sendErr (c : RemoteClient) (kind : ErrorKind) (message : String) : Option RemoteClient :=
  match c.task with
  | .sending i =>
      match c.calls[i]? with
      | some call =>
          some ({ c with task := .selecting }.resolve call.envelope.correlationId
            (.error (.io kind message)))
      | none => none
  | _ => none

def recv (c : RemoteClient) (result : Except TransportError Envelope) : Option RemoteClient :=
  match c.task with
  | .selecting =>
      match result with
      | .ok e => some (if e.isResponse then c.resolve e.correlationId (.ok e) else c)
      | .error .disconnected => some c.exit
      | .error _ => some c
  | _ => none

/-- The steps of the callers and the task, apart from a new call and an arrival on the
connection, which involve the outside. -/
inductive Action where
  | enqueue (i : ℕ)
  | wake (i : ℕ)
  | expire (i : ℕ)
  | takeCommand
  | sendOk
  | sendErr (kind : ErrorKind) (message : String)
  deriving DecidableEq

def act (c : RemoteClient) : Action → Option RemoteClient
  | .enqueue i => c.enqueue i
  | .wake i => c.wake i
  | .expire i => c.expire i
  | .takeCommand => c.takeCommand
  | .sendOk => c.sendOk
  | .sendErr kind message => c.sendErr kind message

/-! ## What an operation leaves of a call -/

theorem getElem?_setSlot (calls : List Call) (i : ℕ) (slot : Slot) (j : ℕ) :
    (setSlot calls i slot)[j]? =
      calls[j]?.map fun call ↦ if i = j then { call with slot := slot } else call := by
  simp only [setSlot, List.getElem?_modify]
  by_cases hij : i = j <;> simp [hij]

theorem getElem?_setStage (calls : List Call) (i : ℕ) (stage : Stage) (j : ℕ) :
    (setStage calls i stage)[j]? =
      calls[j]?.map fun call ↦ if i = j then { call with stage := stage } else call := by
  simp only [setStage, List.getElem?_modify]
  by_cases hij : i = j <;> simp [hij]

theorem getElem?_exit (c : RemoteClient) (j : ℕ) :
    c.exit.calls[j]? = c.calls[j]?.map fun call ↦
      if c.holds j call then { call with slot := .dropped } else call := by
  simp [exit]

theorem getElem?_invoke (c : RemoteClient) (kind : CallKind) (envelope : Envelope) (j : ℕ) :
    (c.invoke kind envelope).calls[j]? =
      if j = c.calls.length then some ⟨kind, envelope, .enqueuing, .empty⟩ else c.calls[j]? := by
  simp only [invoke, List.getElem?_append]
  grind

theorem enqueue_eq_some {c d : RemoteClient} {i : ℕ} (h : c.enqueue i = some d) :
    ∃ call, c.calls[i]? = some call ∧ call.stage = .enqueuing ∧
      (c.task = .exited ∧
          d = { c with calls := setStage c.calls i (.returned (.failed .disconnected)) } ∨
        c.task ≠ .exited ∧ c.queue.length < 32 ∧
          d = { c with
            calls := setStage c.calls i (if call.kind = .doSend then .returned .sent else .waiting)
            queue := c.queue ++ [.send i] }) := by
  simp only [enqueue] at h
  split at h
  · rename_i kind envelope slot hcall
    refine ⟨_, hcall, rfl, ?_⟩
    split at h
    · exact .inl ⟨by assumption, by simpa using h.symm⟩
    · split at h
      · exact .inr ⟨by assumption, by assumption, by simpa using h.symm⟩
      · cases h
  · cases h

theorem takeCommand_eq_some {c d : RemoteClient} (h : c.takeCommand = some d) :
    c.task = .selecting ∧
      ((∃ queue, c.queue = .close :: queue ∧ d = exit { c with queue := queue }) ∨
        ∃ i queue call, c.queue = .send i :: queue ∧ c.calls[i]? = some call ∧
          (call.kind = .doSend ∧ d = { c with queue := queue, task := .sending i } ∨
            call.kind ≠ .doSend ∧ d = {
              calls := match c.pending[call.envelope.correlationId]? with
                | some j => setSlot c.calls j .dropped
                | none => c.calls
              queue := queue
              pending := c.pending.insert call.envelope.correlationId i
              task := .sending i })) := by
  simp only [takeCommand] at h
  split at h
  · rename_i queue htask hqueue
    exact ⟨htask, .inl ⟨queue, hqueue, by simpa using h.symm⟩⟩
  · rename_i i queue htask hqueue
    refine ⟨htask, .inr ?_⟩
    split at h
    · cases h
    · rename_i call hcall
      refine ⟨i, queue, call, hqueue, hcall, ?_⟩
      split at h
      · exact .inl ⟨by assumption, by simpa using h.symm⟩
      · exact .inr ⟨by assumption, by simpa using h.symm⟩
  · cases h

theorem wake_eq_some {c d : RemoteClient} {i : ℕ} (h : c.wake i = some d) :
    ∃ call outcome, c.calls[i]? = some call ∧ call.stage = .waiting ∧
      ((∃ e, call.slot = .filled (.ok e) ∧ outcome = .response e) ∨
        (∃ err, call.slot = .filled (.error err) ∧ outcome = .failed err) ∨
        call.slot = .dropped ∧ outcome = .failed .disconnected) ∧
      d = { c with calls := setStage c.calls i (.returned outcome) } := by
  simp only [wake] at h
  split at h
  · rename_i hcall
    exact ⟨_, _, hcall, rfl, .inl ⟨_, rfl, rfl⟩, by simpa using h.symm⟩
  · rename_i hcall
    exact ⟨_, _, hcall, rfl, .inr (.inl ⟨_, rfl, rfl⟩), by simpa using h.symm⟩
  · rename_i hcall
    exact ⟨_, _, hcall, rfl, .inr (.inr ⟨rfl, rfl⟩), by simpa using h.symm⟩
  · cases h

theorem wake_of_filled {c : RemoteClient} {i : ℕ} {a : Call} {err : TransportError}
    (ha : c.calls[i]? = some a) (hstage : a.stage = .waiting)
    (hslot : a.slot = .filled (.error err)) :
    c.wake i = some { c with calls := setStage c.calls i (.returned (.failed err)) } := by
  obtain ⟨kind, envelope, stage, slot⟩ := a
  subst hstage hslot
  simp [wake, ha]

theorem wake_of_dropped {c : RemoteClient} {i : ℕ} {a : Call} (ha : c.calls[i]? = some a)
    (hstage : a.stage = .waiting) (hslot : a.slot = .dropped) :
    c.wake i =
      some { c with calls := setStage c.calls i (.returned (.failed .disconnected)) } := by
  obtain ⟨kind, envelope, stage, slot⟩ := a
  subst hstage hslot
  simp [wake, ha]

theorem enqueue_of_exited {c : RemoteClient} {i : ℕ} {a : Call} (ha : c.calls[i]? = some a)
    (hstage : a.stage = .enqueuing) (hexit : c.task = .exited) :
    c.enqueue i =
      some { c with calls := setStage c.calls i (.returned (.failed .disconnected)) } := by
  obtain ⟨kind, envelope, stage, slot⟩ := a
  subst hstage
  simp [enqueue, ha, hexit]

theorem expire_eq_some {c d : RemoteClient} {i : ℕ} (h : c.expire i = some d) :
    ∃ call, c.calls[i]? = some call ∧ call.kind = .sendTimeout ∧
      (call.stage = .enqueuing ∨ call.stage = .waiting) ∧
      d = { c with calls := setStage c.calls i (.returned (.failed .timeout)) } := by
  simp only [expire] at h
  split at h
  · rename_i hcall
    exact ⟨_, hcall, rfl, .inl rfl, by simpa using h.symm⟩
  · rename_i hcall
    exact ⟨_, hcall, rfl, .inr rfl, by simpa using h.symm⟩
  · cases h

theorem sendOk_eq_some {c d : RemoteClient} (h : c.sendOk = some d) :
    ∃ i, c.task = .sending i ∧ d = { c with task := .selecting } := by
  simp only [sendOk] at h
  split at h
  · exact ⟨_, by assumption, by simpa using h.symm⟩
  · cases h

theorem sendErr_eq_some {c d : RemoteClient} {kind : ErrorKind} {message : String}
    (h : c.sendErr kind message = some d) :
    ∃ i call, c.task = .sending i ∧ c.calls[i]? = some call ∧
      d = { c with task := .selecting }.resolve call.envelope.correlationId
        (.error (.io kind message)) := by
  simp only [sendErr] at h
  split at h
  · split at h
    · exact ⟨_, _, by assumption, by assumption, by simpa using h.symm⟩
    · cases h
  · cases h

theorem recv_eq_some {c d : RemoteClient} {result : Except TransportError Envelope}
    (h : c.recv result = some d) :
    c.task = .selecting ∧
      ((∃ e, result = .ok e ∧ e.isResponse = true ∧ d = c.resolve e.correlationId (.ok e)) ∨
        (∃ e, result = .ok e ∧ e.isResponse = false ∧ d = c) ∨
        (result = .error .disconnected ∧ d = c.exit) ∨
        (∃ err, result = .error err ∧ err ≠ .disconnected ∧ d = c)) := by
  simp only [recv] at h
  split at h
  · rename_i htask
    refine ⟨htask, ?_⟩
    split at h
    · rename_i e
      cases he : e.isResponse with
      | true => exact .inl ⟨e, rfl, he, by simpa [he] using h.symm⟩
      | false => exact .inr (.inl ⟨e, rfl, he, by simpa [he] using h.symm⟩)
    · exact .inr (.inr (.inl ⟨rfl, by simpa using h.symm⟩))
    · rename_i err herr
      exact .inr (.inr (.inr ⟨err, rfl, herr, by simpa using h.symm⟩))
  · cases h

theorem resolve_eq_of_some {c : RemoteClient} {id : UInt64} {i : ℕ}
    (h : c.pending[id]? = some i) (result : Except TransportError Envelope) :
    c.resolve id result =
      { c with calls := setSlot c.calls i (.filled result), pending := c.pending.erase id } := by
  simp [resolve, h]

theorem resolve_eq_of_none {c : RemoteClient} {id : UInt64} (h : c.pending[id]? = none)
    (result : Except TransportError Envelope) : c.resolve id result = c := by
  simp [resolve, h]

theorem pending_resolve (c : RemoteClient) (id : UInt64)
    (result : Except TransportError Envelope) : (c.resolve id result).pending[id]? = none := by
  cases h : c.pending[id]? with
  | none => rwa [resolve_eq_of_none h]
  | some i => simp [resolve_eq_of_some h]

theorem pending_of_resolve {c : RemoteClient} {id id' : UInt64} {i : ℕ}
    {result : Except TransportError Envelope}
    (h : (c.resolve id result).pending[id']? = some i) : id ≠ id' ∧ c.pending[id']? = some i := by
  have hne : id ≠ id' := by
    rintro rfl
    rw [pending_resolve] at h
    cases h
  refine ⟨hne, ?_⟩
  cases hid : c.pending[id]? with
  | none => rwa [resolve_eq_of_none hid] at h
  | some j =>
      rw [resolve_eq_of_some hid, Std.ExtTreeMap.getElem?_erase] at h
      simpa [hne] using h

end RemoteClient

end Cineyma.Remote
