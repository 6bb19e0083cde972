import Cineyma.Runtime.Task

/-!
# The mailbox of a supervised child

The mailbox outlives the instances of the child. Messages are handed to handlers in the order in
which the mailbox accepted them, one handler at a time, through any number of panics and restarts,
and the state that a handler sees is that of the current instance.
-/

namespace Cineyma.Runtime

open StepSystem

variable {S M I : Type}

/-! ## What a trace tells about messages -/

def Input.accepted? : Input M I → Option M
  | .deliver m => some m
  | _ => none

def Event.handed? : Event S M I → Option M
  | .handed m _ => some m
  | _ => none

def Event.handled? : Event S M I → Option M
  | .handled m => some m
  | _ => none

/-- The messages that the mailbox accepted. -/
def accepted (as : List (Input M I)) : List M := as.filterMap Input.accepted?

/-- The messages handed to a handler. -/
def handed (trace : List (Event S M I)) : List M := trace.filterMap Event.handed?

/-- The messages whose handler returned. -/
def handled (trace : List (Event S M I)) : List M := trace.filterMap Event.handled?

/-- Not inside `poll_streams` with a stream at hand. -/
def Pc.Streamless : Pc M I → Prop
  | .polling todo kept _ => todo = [] ∧ kept = []
  | .item .. | .finishing .. => False
  | _ => True

/-- In the loop, and not inside a stream handler. -/
def Pc.serving : Pc M I → Bool
  | .looping | .selecting | .polling .. | .handling _ => true
  | _ => false

/-- `body` is what happened since the last call of the factory, its `n`-th. -/
def Since (trace : List (Event S M I)) (n : ℕ) (body : List (Event S M I)) : Prop :=
  (∃ before, trace = before ++ .factory n :: body) ∧ ∀ k, .factory k ∉ body

/-- The state after `started` of the last instance and the messages that it handled. -/
def Rebuilt (beh : Behaviour S M I) (trace : List (Event S M I)) (st : S) : Prop :=
  ∃ n body, Since trace n body ∧ st = (handled body).foldl beh.handle (beh.started (beh.factory n))

/-- The handler of `m` has returned or panicked. -/
def Over (m : M) (events : List (Event S M I)) : Prop :=
  .handled m ∈ events ∨ .panicked .handler ∈ events

theorem handed_append (xs ys : List (Event S M I)) : handed (xs ++ ys) = handed xs ++ handed ys :=
  List.filterMap_append

theorem handled_append (xs ys : List (Event S M I)) :
    handled (xs ++ ys) = handled xs ++ handled ys :=
  List.filterMap_append

theorem accepted_concat (as : List (Input M I)) (i : Input M I) :
    accepted (as ++ [i]) = accepted as ++ i.accepted?.toList := by
  rw [accepted, List.filterMap_append]
  cases h : i.accepted? <;> simp [accepted, h]

theorem handed_eq_nil {events : List (Event S M I)} (h : ∀ m st, .handed m st ∉ events) :
    handed events = [] := by
  rw [handed, List.filterMap_eq_nil_iff]
  intro e he
  cases e <;> first | rfl | exact absurd he (h _ _)

theorem Since.append {trace body events : List (Event S M I)} {n : ℕ} (h : Since trace n body)
    (hevents : ∀ k, .factory k ∉ events) : Since (trace ++ events) n (body ++ events) := by
  obtain ⟨⟨before, rfl⟩, hbody⟩ := h
  refine ⟨⟨before, by simp⟩, fun k hk ↦ ?_⟩
  exact (List.mem_append.mp hk).elim (hbody k) (hevents k)

theorem since_factory (trace events : List (Event S M I)) (n : ℕ) :
    Since (trace ++ (events ++ [Event.factory n, Event.started])) n [Event.started] :=
  ⟨⟨trace ++ events, by simp⟩, by simp⟩

namespace Actor

variable {beh : Behaviour S M I} {a b : Actor S M I} {i : Input M I}
  {events trace : List (Event S M I)} {as : List (Input M I)}

/-! ## What a step does to the mailbox -/

/-- A message is appended, the oldest one is handed over, or the mailbox of a living actor stays as
it is. -/
theorem mailbox_of_transition (h : Transition beh a i b events) :
    (∃ m, i = .deliver m ∧ events = [] ∧ a.pc.alive = true ∧ b.mailbox = a.mailbox ++ [m]) ∨
      (∃ m, i.accepted? = none ∧ events = [Event.handed m a.state] ∧ a.pc = .selecting ∧
        b.pc = .handling m ∧ a.mailbox = m :: b.mailbox) ∨
      (i.accepted? = none ∧ (∀ m st, .handed m st ∉ events) ∧
        (b.pc.alive = true → a.pc.alive = true ∧ b.mailbox = a.mailbox)) := by
  cases h with
  | deliver m halive hroom => exact .inl ⟨m, rfl, rfl, halive, rfl⟩
  | take now m rest hpc hmailbox =>
      exact .inr (.inl ⟨m, rfl, rfl, hpc, rfl, hmailbox⟩)
  | requestStop | shutdown | escalation | oldEscalation | watch | streamReady | spawn | addStream |
    adopt =>
      exact .inr (.inr ⟨rfl, by simp, fun h ↦ ⟨h, rfl⟩⟩)
  | announce | retStoppedTop | panicElsewhere => exact .inr (.inr ⟨rfl, by simp, (by cases ·)⟩)
  | panicHandler m hpc hadopt =>
      exact .inr (.inr ⟨rfl, by simp, fun _ ↦ ⟨by rw [hpc]; rfl, rfl⟩⟩)
  | _ => exact .inr (.inr ⟨rfl, by simp, fun _ ↦ ⟨by simp [*, Pc.alive], rfl⟩⟩)

theorem handed_of_transition {m : M} {st : S} (h : Transition beh a i b events)
    (hm : .handed m st ∈ events) :
    events = [.handed m st] ∧ a.pc = .selecting ∧ b.pc = .handling m ∧ a.state = st := by
  cases h with
  | take now m' rest hpc hmailbox =>
      cases List.mem_singleton.mp hm
      exact ⟨rfl, hpc, rfl, rfl⟩
  | _ => simp at hm

theorem starting_of_factory {n : ℕ} (h : Transition beh a i b events) (hn : .factory n ∈ events) :
    b.pc = .starting := by
  cases h with
  | begin | restart | restartUntracked => rfl
  | _ => simp at hn

/-! ## Acceptance order -/

/-- Handed over and still queued: while the actor lives, that is all that was accepted. -/
structure InOrder (as : List (Input M I)) (a : Actor S M I) (trace : List (Event S M I)) :
    Prop where
  handed_prefix : handed trace <+: accepted as
  queue : a.pc.alive = true → accepted as = handed trace ++ a.mailbox

theorem InOrder.step (h : InOrder as a trace) (hstep : Transition beh a i b events) :
    InOrder (as ++ [i]) b (trace ++ events) := by
  rcases mailbox_of_transition hstep with
    ⟨m, rfl, rfl, halive, hmailbox⟩ | ⟨m, hi, rfl, hpc, -, hmailbox⟩ | ⟨hi, hevents, hmailbox⟩
  · have hqueue : accepted (as ++ [Input.deliver m]) = handed trace ++ b.mailbox := by
      rw [accepted_concat, h.queue halive, hmailbox, List.append_assoc]
      rfl
    rw [List.append_nil]
    exact ⟨hqueue ▸ List.prefix_append _ _, fun _ ↦ hqueue⟩
  · have hqueue :
        accepted (as ++ [i]) = handed (trace ++ [Event.handed m a.state]) ++ b.mailbox := by
      rw [accepted_concat, hi, h.queue (by rw [hpc]; rfl), hmailbox, handed_append]
      simp [handed, Event.handed?]
    exact ⟨hqueue ▸ List.prefix_append _ _, fun _ ↦ hqueue⟩
  · have hsame : accepted (as ++ [i]) = accepted as := by
      rw [accepted_concat, hi]
      simp
    have hnone : handed (trace ++ events) = handed trace := by
      rw [handed_append, handed_eq_nil hevents, List.append_nil]
    refine ⟨by rw [hnone, hsame]; exact h.handed_prefix, fun hb ↦ ?_⟩
    obtain ⟨ha, hmailbox⟩ := hmailbox hb
    rw [hsame, hnone, hmailbox, h.queue ha]

/-! ## One handler at a time -/

/-- Every handler that was entered is over, but for the one that runs. -/
def Serial (a : Actor S M I) (trace : List (Event S M I)) : Prop :=
  ∀ pre m st mid, trace = pre ++ .handed m st :: mid → Over m mid ∨ a.pc = .handling m

theorem over_append {m : M} {xs : List (Event S M I)} (h : Over m xs) (ys : List (Event S M I)) :
    Over m (xs ++ ys) :=
  h.imp (List.mem_append_left ys) (List.mem_append_left ys)

/-- A handler is left by its end only. -/
theorem handling_of_transition {m : M} (h : Transition beh a i b events)
    (hpc : a.pc = .handling m) : Over m events ∨ b.pc = .handling m := by
  cases h with
  | retHandler m' hpc' hadopt =>
      rw [hpc] at hpc'
      cases hpc'
      exact .inl (.inl (List.mem_singleton_self _))
  | panicHandler m' hpc' hadopt => exact .inl (.inr (List.mem_singleton_self _))
  | deliver | requestStop | shutdown | escalation | oldEscalation | watch | streamReady | spawn |
    addStream | adopt =>
      exact .inr hpc
  | panicElsewhere site hsite hne hadopt =>
      rw [hpc] at hsite
      cases hsite
      exact absurd rfl hne
  | _ => simp_all

theorem Serial.step (h : Serial a trace) (hstep : Transition beh a i b events) :
    Serial b (trace ++ events) := by
  intro pre m st mid heq
  rcases append_eq_append_cons.mp heq with ⟨rest, hearlier, rfl⟩ | ⟨rest, rfl, hnow⟩
  · rcases h pre m st rest hearlier with hover | hpc
    · exact .inl (over_append hover events)
    · refine (handling_of_transition hstep hpc).imp_left fun hover ↦ ?_
      exact hover.imp (List.mem_append_right rest) (List.mem_append_right rest)
  · have hmem : Event.handed m st ∈ events := by simp [hnow]
    exact .inr (handed_of_transition hstep hmem).2.2.1

/-! ## The state that a handler sees -/

structure NoStreams (a : Actor S M I) : Prop where
  streams : a.streams = []
  added : a.added = []
  pc : a.pc.Streamless

theorem streamless_leave (a : Actor S M I) (failed : Bool) : (a.leave failed).pc.Streamless := by
  unfold leave
  cases a.role <;> trivial

theorem NoStreams.step (h : NoStreams a) (hstep : Transition beh a i b events)
    (hi : ∀ id, i ≠ .addStream id) : NoStreams b := by
  have hpolling : ∀ todo kept any, a.pc = .polling todo kept any → todo = [] ∧ kept = [] := by
    intro todo kept any hpc
    have hstreamless := h.pc
    rwa [hpc] at hstreamless
  cases hstep with
  | addStream id => exact absurd rfl (hi id)
  | deliver | requestStop | shutdown | escalation | oldEscalation | watch | streamReady | spawn |
    adopt =>
      exact ⟨h.streams, h.added, h.pc⟩
  | begin | restart | restartUntracked => exact ⟨rfl, rfl, trivial⟩
  | select now hpc =>
      exact ⟨by rw [h.streams, h.added, List.append_nil], rfl, trivial⟩
  | pollStreams now hpc hmailbox => exact ⟨h.streams, h.added, h.streams, rfl⟩
  | streamPending now id todo kept any hpc
  | streamItem now id todo kept any x rest hpc
  | streamEnd now id todo kept any rest hpc =>
      exact absurd (hpolling _ _ _ hpc).1 (List.cons_ne_nil id todo)
  | streamsReady now kept hpc | pending now kept hpc =>
      exact ⟨(hpolling _ _ _ hpc).2, h.added, trivial⟩
  | shutdownTaken now kept hpc | stopTaken now kept hpc | escalateTaken now kept hpc =>
      exact ⟨(hpolling _ _ _ hpc).2, h.added, streamless_leave _ _⟩
  | retItem id x todo kept hpc =>
      have hfalse := h.pc
      rw [hpc] at hfalse
      exact hfalse.elim
  | retFinished todo kept any hpc =>
      have hfalse := h.pc
      rw [hpc] at hfalse
      exact hfalse.elim
  | panicHandler => exact ⟨h.streams, h.added, streamless_leave _ _⟩
  | _ => exact ⟨h.streams, h.added, trivial⟩

/-- An instance is made, `started` or a handler returns, or the state stays as it is. -/
theorem state_of_transition (h : Transition beh a i b events) (hchild : a.role ≠ .topLevel)
    (hstreams : NoStreams a) :
    (∃ n before, events = before ++ [.factory n, .started] ∧ b.pc = .starting ∧
        b.state = beh.factory n) ∨
      (a.pc = .starting ∧ b.pc = .looping ∧ events = [] ∧ b.state = beh.started a.state) ∨
      (∃ m, a.pc = .handling m ∧ b.pc = .looping ∧ events = [.handled m] ∧
        b.state = beh.handle a.state m) ∨
      (b.state = a.state ∧ (b.pc = .starting → a.pc = .starting) ∧
        (b.pc.serving = true → a.pc.serving = true) ∧ handled events = [] ∧
        ∀ k, .factory k ∉ events) := by
  cases h with
  | begin => exact .inl ⟨0, [], rfl, rfl, rfl⟩
  | restart => exact .inl ⟨_, [.verdict .restarting], rfl, rfl, rfl⟩
  | restartUntracked => exact .inl ⟨_, [], rfl, rfl, rfl⟩
  | retStarted hpc => exact .inr (.inl ⟨hpc, rfl, rfl, rfl⟩)
  | retHandler m hpc => exact .inr (.inr (.inl ⟨m, hpc, rfl, rfl, rfl⟩))
  | beginTop now hpc hrole => exact absurd hrole hchild
  | retItem id x todo kept hpc | retFinished todo kept any hpc =>
      have hfalse := hstreams.pc
      rw [hpc] at hfalse
      exact hfalse.elim
  | deliver | requestStop | shutdown | escalation | oldEscalation | watch | streamReady | spawn |
    addStream | adopt =>
      exact .inr (.inr (.inr ⟨rfl, fun h ↦ h, fun h ↦ h, rfl, by simp⟩))
  | select | take | pollStreams | streamPending | streamItem | streamEnd | streamsReady | pending =>
      refine .inr (.inr (.inr ⟨rfl, (by cases ·), fun _ ↦ ?_, rfl, by simp⟩))
      simp [*, Pc.serving]
  | reap | announce | announceTop =>
      refine .inr (.inr (.inr ⟨rfl, (by cases ·), (by cases ·), ?_, by simp⟩))
      simp [handled, List.filterMap_eq_nil_iff, Event.handled?]
  | shutdownTaken | stopTaken | escalateTaken | panicHandler =>
      refine .inr (.inr (.inr ⟨rfl, ?_, ?_, rfl, by simp⟩)) <;>
      · unfold leave
        cases a.role <;> simp [Pc.serving, dropFutures]
  | _ =>
      exact .inr (.inr (.inr ⟨rfl, (by cases ·), (by cases ·), rfl, by simp⟩))

/-- The state of an instance that was just made, and of one in its loop. -/
structure Tracked (beh : Behaviour S M I) (a : Actor S M I) (trace : List (Event S M I)) :
    Prop where
  starting : a.pc = .starting →
    ∃ n body, Since trace n body ∧ handled body = [] ∧ a.state = beh.factory n
  serving : a.pc.serving = true → Rebuilt beh trace a.state

theorem Tracked.step (h : Tracked beh a trace) (hstep : Transition beh a i b events)
    (hchild : a.role ≠ .topLevel) (hstreams : NoStreams a) : Tracked beh b (trace ++ events) := by
  rcases state_of_transition hstep hchild hstreams with
    ⟨n, before, rfl, hb, hstate⟩ | ⟨ha, hb, rfl, hstate⟩ | ⟨m, ha, hb, rfl, hstate⟩ |
      ⟨hstate, hstarting, hserving, hhandled, hfactory⟩
  · refine ⟨fun _ ↦ ⟨n, [.started], since_factory trace before n, rfl, hstate⟩, fun hs ↦ ?_⟩
    rw [hb] at hs
    cases hs
  · refine ⟨fun hs ↦ ?_, fun _ ↦ ?_⟩
    · rw [hb] at hs
      cases hs
    · obtain ⟨n, body, hsince, hnone, hraw⟩ := h.starting ha
      rw [List.append_nil]
      exact ⟨n, body, hsince, by rw [hnone, hstate, hraw]; rfl⟩
  · refine ⟨fun hs ↦ ?_, fun _ ↦ ?_⟩
    · rw [hb] at hs
      cases hs
    · obtain ⟨n, body, hsince, hfold⟩ := h.serving (by rw [ha]; rfl)
      refine ⟨n, body ++ [.handled m], hsince.append (by simp), ?_⟩
      rw [handled_append, List.foldl_append, ← hfold, hstate]
      rfl
  · refine ⟨fun hs ↦ ?_, fun hs ↦ ?_⟩
    · obtain ⟨n, body, hsince, hnone, hraw⟩ := h.starting (hstarting hs)
      refine ⟨n, body ++ events, hsince.append hfactory, ?_, hstate.trans hraw⟩
      rw [handled_append, hnone, hhandled, List.append_nil]
    · obtain ⟨n, body, hsince, hfold⟩ := h.serving (hserving hs)
      refine ⟨n, body ++ events, hsince.append hfactory, ?_⟩
      rw [handled_append, hhandled, List.append_nil, hstate, hfold]

/-! ## Whole runs -/

section Runs

variable {strategy : SupervisorStrategy} {capacity : ℕ}

theorem inOrder_of_run {role : Role}
    (hrun : run (traced (step beh)) (spawned beh role capacity, []) as = some (a, trace)) :
    InOrder as a trace := by
  refine traced_history (P := InOrder) ⟨List.prefix_rfl, fun _ ↦ rfl⟩ ?_ hrun
  intro as t before i u events ht hstep
  exact ht.step (transition_of_step hstep)

theorem serial_of_run
    (hrun : run (traced (step beh)) (spawned beh (.child strategy) capacity, []) as =
      some (a, trace)) : Serial a trace := by
  refine traced_history (P := fun _ ↦ Serial) (by simp [Serial]) ?_ hrun
  intro _ t before i u events ht hstep
  exact ht.step (transition_of_step hstep)

theorem tracked_of_run
    (hrun : run (traced (step beh)) (spawned beh (.child strategy) capacity, []) as =
      some (a, trace)) (hnone : ∀ id, .addStream id ∉ as) : Tracked beh a trace := by
  have hinit : NoStreams (spawned beh (.child strategy) capacity) := ⟨rfl, rfl, trivial⟩
  have hinv := traced_history (P := fun as a trace ↦ a.role = .child strategy ∧
      ((∀ id, .addStream id ∉ as) → NoStreams a ∧ Tracked beh a trace))
    ⟨rfl, fun _ ↦ ⟨hinit, (by cases ·), (by cases ·)⟩⟩ ?_ hrun
  · exact (hinv.2 hnone).2
  · rintro as t before i u events ⟨hrole, ht⟩ hstep
    have hstep := transition_of_step hstep
    refine ⟨(role_of_transition hstep).trans hrole, fun hnone ↦ ?_⟩
    obtain ⟨hstreams, htracked⟩ := ht fun id h ↦ hnone id (List.mem_append_left _ h)
    have hi : ∀ id, i ≠ .addStream id := by
      rintro id rfl
      exact hnone id (List.mem_append_right as (List.mem_singleton_self _))
    exact ⟨hstreams.step hstep hi, htracked.step hstep (by simp [hrole]) hstreams⟩

/-- The trace before a message is handed over, in a run. -/
theorem before_handed {P : Actor S M I → List (Event S M I) → Prop} {pre post} {m : M} {st : S}
    (hinv : ∀ bs t trace, bs <+: as →
      run (traced (step beh)) (spawned beh (.child strategy) capacity, []) bs = some (t, trace) →
        P t trace)
    (hrun : run (traced (step beh)) (spawned beh (.child strategy) capacity, []) as =
      some (a, trace)) (htrace : trace = pre ++ Event.handed m st :: post) :
    ∃ t : Actor S M I, P t pre ∧ t.pc = .selecting ∧ t.state = st := by
  refine traced_events (R := fun before e ↦ e = Event.handed m st →
    ∃ t : Actor S M I, P t before ∧ t.pc = .selecting ∧ t.state = st) hinv ?_ hrun htrace rfl
  rintro t before i u events rest e post ht hstep hevents rfl
  have hmem : Event.handed m st ∈ events := by simp [hevents]
  obtain ⟨hsingle, hpc, -, hstate⟩ := handed_of_transition (transition_of_step hstep) hmem
  obtain ⟨rfl, -⟩ := singleton_eq_append_cons.mp (hsingle.symm.trans hevents)
  rw [List.append_nil]
  exact ⟨t, ht, hpc, hstate⟩

theorem over_of_run {pre mid post} {m m' : M} {st st' : S}
    (hrun : run (traced (step beh)) (spawned beh (.child strategy) capacity, []) as =
      some (a, trace))
    (htrace : trace = pre ++ Event.handed m st :: (mid ++ Event.handed m' st' :: post)) :
    Over m mid := by
  have htrace : trace = (pre ++ Event.handed m st :: mid) ++ Event.handed m' st' :: post := by
    rw [htrace, List.append_assoc, List.cons_append]
  obtain ⟨t, hserial, hpc, -⟩ :=
    before_handed (fun _ _ _ _ hbs ↦ serial_of_run hbs) hrun htrace
  refine (hserial pre m st mid rfl).resolve_right fun hm ↦ ?_
  rw [hpc] at hm
  cases hm

theorem rebuilt_of_run {pre post} {m : M} {st : S}
    (hrun : run (traced (step beh)) (spawned beh (.child strategy) capacity, []) as =
      some (a, trace)) (hnone : ∀ id, .addStream id ∉ as)
    (htrace : trace = pre ++ Event.handed m st :: post) : Rebuilt beh pre st := by
  obtain ⟨t, htracked, hpc, rfl⟩ := before_handed
    (fun bs _ _ hbs hrun ↦ tracked_of_run hrun fun id h ↦ hnone id (hbs.subset h)) hrun htrace
  exact htracked.serving (by rw [hpc]; rfl)

/-- The messages handed to the handlers of a supervised child are a prefix of those that its
mailbox accepted, and what was accepted and not handed over is queued as long as the child lives. A
handler is over before the next message is taken, a restart does not touch the queue, and the state
that a handler of a child without streams sees is that of the last call of the factory after
`started` and the messages handled since. -/
theorem child_serves_in_order
    (hrun : run (traced (step beh)) (spawned beh (.child strategy) capacity, []) as =
      some (a, trace)) :
    handed trace <+: accepted as ∧
      (a.pc.alive = true → accepted as = handed trace ++ a.mailbox) ∧
      (∀ pre m st mid m' st' post,
        trace = pre ++ .handed m st :: (mid ++ .handed m' st' :: post) → Over m mid) ∧
      (∀ i b events n, step beh a i = some (b, events) → .factory n ∈ events →
        b.mailbox = a.mailbox) ∧
      ((∀ id, .addStream id ∉ as) →
        ∀ pre m st post, trace = pre ++ .handed m st :: post → Rebuilt beh pre st) := by
  have horder := inOrder_of_run hrun
  refine ⟨horder.handed_prefix, horder.queue, ?_, ?_, ?_⟩
  · intro pre m st mid m' st' post htrace
    exact over_of_run hrun htrace
  · intro i b events n hstep hfactory
    have hpc := starting_of_factory (transition_of_step hstep) hfactory
    rcases mailbox_of_transition (transition_of_step hstep) with
      ⟨-, -, rfl, -⟩ | ⟨m, -, rfl, -⟩ | ⟨-, -, hmailbox⟩
    · cases hfactory
    · simp at hfactory
    · exact (hmailbox (by rw [hpc]; rfl)).2
  · intro hnone pre m st post htrace
    exact rebuilt_of_run hrun hnone htrace

end Runs

/-- A child that notes what it handles. -/
def journal : Behaviour (List ℕ) ℕ ℕ where
  factory n := [n]
  started s := s
  handle s m := s ++ [m]
  item s x := s ++ [x]
  finished s := s

/-- The first of three messages crashes the handler, and the restarted child takes the others. -/
def crashInputs : List (Input ℕ ℕ) :=
  [.poll 0, .ret, .deliver 7, .deliver 8, .deliver 9, .poll 0, .poll 0, .panic, .poll 1, .ret,
    .poll 1, .ret, .poll 1, .poll 1, .ret, .poll 2, .poll 2]

theorem crash_served_in_order :
    ∃ a trace,
      run (traced (step journal)) (spawned journal (.child (.restart 1 10)) 4, []) crashInputs =
        some (a, trace) ∧
      handed trace = [7, 8, 9] ∧ handed trace <+: accepted crashInputs ∧
      trace.getLast? = some (.handed 9 [1, 8]) ∧
      ∀ pre m st post, trace = pre ++ .handed m st :: post → Rebuilt journal pre st := by
  have hsome : (run (traced (step journal))
      (spawned journal (.child (.restart 1 10)) 4, []) crashInputs).isSome = true := by
    decide +kernel
  have htrace : (run (traced (step journal))
      (spawned journal (.child (.restart 1 10)) 4, []) crashInputs).map
        (fun s ↦ (handed s.2, s.2.getLast?)) = some ([7, 8, 9], some (.handed 9 [1, 8])) := by
    decide +kernel
  obtain ⟨⟨a, trace⟩, hrun⟩ := Option.isSome_iff_exists.mp hsome
  rw [hrun, Option.map_some, Option.some_inj, Prod.mk.injEq] at htrace
  have h := child_serves_in_order hrun
  exact ⟨a, trace, hrun, htrace.1, h.1, htrace.2, h.2.2.2.2 (by simp [crashInputs])⟩

end Actor

end Cineyma.Runtime
