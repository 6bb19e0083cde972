import Cineyma.Runtime.Task

/-!
# The life of a supervised child

What others see of a supervised child is a sequence of instances. Each is made by the factory,
started, serves messages and streams, signals its children to stop and is stopped. All but the last
one failed and were restarted, and after the last one the watchers are notified.

The stages of a child are an abstract machine that the task refines. Only the panics of message
handlers are failures: any other panic ends the task where it is.
-/

namespace Cineyma.Runtime

open StepSystem

variable {S M I : Type}

/-! ## Stages -/

/-- `closed` is after the stop signals to the children, when `stopped` runs or has run. -/
inductive Phase where
  | unpolled
  | running
  | reaping (failed : Bool)
  | closed (failed : Bool)
  | announcing
  | ended
  | dead
  deriving DecidableEq

def Pc.phase : Pc M I → Phase
  | .spawned => .unpolled
  | .reaping failed => .reaping failed
  | .stopping failed | .deciding failed => .closed failed
  | .announcing _ => .announcing
  | .ended => .ended
  | .dead => .dead
  | _ => .running

structure Stage where
  phase : Phase
  children : List ℕ
  generation : ℕ

def Actor.stage (a : Actor S M I) : Stage := ⟨a.pc.phase, a.children, a.generation⟩

/-- The two ways in which an instance fails. -/
inductive Cause where
  | panicked
  | escalated
  deriving DecidableEq

def Cause.event : Cause → Event S M I
  | .panicked => .panicked .handler
  | .escalated => .escalated

/-- What happens while an instance runs. -/
def Event.ofLoop : Event S M I → Bool
  | .adopted _ | .handed .. | .handled _ | .item .. | .finished _ => true
  | _ => false

def Event.adopted? : Event S M I → Option ℕ
  | .adopted c => some c
  | _ => none

/-- What a child that ends after its last instance says. -/
def ending : SupervisorStrategy → Bool → List (Event S M I)
  | _, false => []
  | .stop, true => [.verdict .stop]
  | .restart _ _, true => [.verdict .exceeded]
  | .escalate, true => [.verdict .escalate, .escalate]

/-- The steps of a child with the events that they emit. -/
inductive Advance (strategy : SupervisorStrategy) (watchers : List ℕ) :
    Stage → List (Event S M I) → Stage → Prop
  | stay (s : Stage) : Advance strategy watchers s [] s
  | begin (cs : List ℕ) (n : ℕ) :
      Advance strategy watchers ⟨.unpolled, cs, n⟩ [.factory 0, .started] ⟨.running, [], 0⟩
  | event (cs cs' : List ℕ) (n : ℕ) (e : Event S M I) (he : e.ofLoop = true)
      (hcs : cs' = cs ++ e.adopted?.toList) :
      Advance strategy watchers ⟨.running, cs, n⟩ [e] ⟨.running, cs', n⟩
  | leave (cs : List ℕ) (n : ℕ) (cause : Option Cause) :
      Advance strategy watchers ⟨.running, cs, n⟩ (cause.map Cause.event).toList
        ⟨.reaping cause.isSome, cs, n⟩
  | reap (cs : List ℕ) (n : ℕ) (failed : Bool) :
      Advance strategy watchers ⟨.reaping failed, cs, n⟩ (cs.map .stopChild ++ [.stopped])
        ⟨.closed failed, cs, n⟩
  | late (cs : List ℕ) (n c : ℕ) (failed : Bool) :
      Advance strategy watchers ⟨.closed failed, cs, n⟩ [.adopted c] ⟨.closed failed, cs ++ [c], n⟩
  | restart (cs : List ℕ) (n maxRestarts within : ℕ)
      (hstrategy : strategy = .restart maxRestarts within) :
      Advance strategy watchers ⟨.closed true, cs, n⟩
        [.verdict .restarting, .factory (n + 1), .started] ⟨.running, [], n + 1⟩
  | quit (cs : List ℕ) (n : ℕ) (failed : Bool) :
      Advance strategy watchers ⟨.closed failed, cs, n⟩ (ending strategy failed)
        ⟨.announcing, cs, n⟩
  | announce (cs : List ℕ) (n : ℕ) :
      Advance strategy watchers ⟨.announcing, cs, n⟩ (watchers.map .terminated) ⟨.ended, cs, n⟩
  | die (cs : List ℕ) (n : ℕ) (p : Phase) (site : Site) (hp : p ≠ .dead) (hsite : site ≠ .handler) :
      Advance strategy watchers ⟨p, cs, n⟩ [.panicked site] ⟨.dead, cs, n⟩

namespace Actor

variable {beh : Behaviour S M I} {a b : Actor S M I} {i : Input M I}
  {events : List (Event S M I)} {strategy : SupervisorStrategy}

/-- A task that restarts has a tracker, and only user code spawns children. -/
structure Supervised (strategy : SupervisorStrategy) (a : Actor S M I) : Prop where
  role : a.role = .child strategy
  tracker : ∀ maxRestarts within, strategy = .restart maxRestarts within → a.tracker ≠ none
  adopting : a.adopting ≠ none → a.pc.site ≠ none

theorem supervised_spawned (beh : Behaviour S M I) (strategy : SupervisorStrategy)
    (capacity : ℕ) : Supervised strategy (spawned beh (.child strategy) capacity) := by
  refine ⟨rfl, ?_, fun h ↦ absurd rfl h⟩
  rintro maxRestarts within rfl
  simp [spawned, RestartTracker.ofStrategy]

/-- Only user code is between spawning a child and adopting it. -/
theorem adopting_of_transition (h : a.adopting ≠ none → a.pc.site ≠ none)
    (hstep : Transition beh a i b events) : b.adopting ≠ none → b.pc.site ≠ none := by
  have hnone : a.pc.site = none → a.adopting = none := fun hsite ↦ by
    by_contra hadopt
    exact h hadopt hsite
  cases hstep with
  | deliver | requestStop | shutdown | escalation | oldEscalation | watch | streamReady |
    addStream =>
      exact h
  | spawn c hsite hadopt => exact fun _ ↦ Option.isSome_iff_ne_none.mp hsite
  | adopt => exact fun hadopt ↦ absurd rfl hadopt
  | retStarted | retHandler | retItem | retFinished | retStopped | retStoppedTop | panicHandler |
    panicElsewhere =>
      exact fun hadopt ↦ absurd (show a.adopting = none by assumption) hadopt
  | _ =>
      refine fun hadopt ↦ absurd (hnone ?_) hadopt
      simp [*, Pc.site]

theorem adopting_of_run {role : Role} {capacity : ℕ} {as : List (Input M I)}
    {trace : List (Event S M I)}
    (hrun : run (traced (step beh)) (spawned beh role capacity, []) as = some (a, trace)) :
    a.adopting ≠ none → a.pc.site ≠ none := by
  refine traced_history (P := fun _ a _ ↦ a.adopting ≠ none → a.pc.site ≠ none)
    (fun h ↦ absurd rfl h) ?_ hrun
  intro _ t before i u events ht hstep
  exact adopting_of_transition ht (transition_of_step hstep)

theorem Supervised.step (h : Supervised strategy a) (hstep : Transition beh a i b events) :
    Supervised strategy b := by
  refine ⟨(role_of_transition hstep).trans h.role, fun m w hs ↦ ?_,
    adopting_of_transition h.adopting hstep⟩
  have htracker := h.tracker m w hs
  cases hstep with
  | restart | exceeded => exact Option.some_ne_none _
  | _ => exact htracker

theorem stage_of_pc {pc : Pc M I} (hpc : a.pc = pc) :
    a.stage = ⟨pc.phase, a.children, a.generation⟩ := by
  rw [stage, hpc]

/-- The phase in which user code runs. -/
theorem phase_of_site (h : a.pc.site ≠ none) :
    a.pc.phase = .running ∨ ∃ failed, a.pc.phase = .closed failed := by
  cases hpc : a.pc <;> simp_all [Pc.site, Pc.phase]

theorem leave_pc_ne_ended (a : Actor S M I) (failed : Bool) : (a.leave failed).pc ≠ .ended := by
  unfold leave
  cases a.role <;> simp

theorem leave_pc_ne_dead (a : Actor S M I) (failed : Bool) : (a.leave failed).pc ≠ .dead := by
  unfold leave
  cases a.role <;> simp

theorem leave_stage (hrole : a.role = .child strategy) (failed : Bool) :
    (a.leave failed).stage = ⟨.reaping failed, a.children, a.generation⟩ := by
  unfold leave
  rw [hrole]
  rfl

/-- Every step of the task is a step of the stages. -/
theorem advance_of_transition (h : Supervised strategy a) (hstep : Transition beh a i b events) :
    Advance strategy a.watchers a.stage events b.stage := by
  have hrole := h.role
  cases hstep with
  | deliver | requestStop | shutdown | escalation | oldEscalation | watch | streamReady |
    addStream | spawn =>
      exact .stay _
  | select now hpc | pollStreams now hpc | streamPending now id todo kept any hpc
  | streamsReady now kept hpc | pending now kept hpc | retStarted hpc
  | retItem id x todo kept hpc | retFinished todo kept any hpc | retStopped failed _ hpc =>
      rw [stage_of_pc hpc]
      exact .stay _
  | begin now _ hpc =>
      rw [stage_of_pc hpc]
      exact .begin _ _
  | take now m rest hpc | streamItem now id todo kept any x rest hpc
  | streamEnd now id todo kept any rest hpc | retHandler m hpc =>
      rw [stage_of_pc hpc]
      exact .event _ _ _ _ rfl (List.append_nil _).symm
  | adopt c hadopt =>
      rcases phase_of_site (h.adopting (by simp [hadopt])) with hp | ⟨failed, hp⟩
      · simp only [stage, hp]
        exact .event _ _ _ (.adopted c) rfl rfl
      · simp only [stage, hp]
        exact .late _ _ c failed
  | shutdownTaken now kept hpc | stopTaken now kept hpc =>
      rw [stage_of_pc hpc, leave_stage]
      · exact .leave _ _ none
      · exact hrole
  | escalateTaken now kept hpc =>
      rw [stage_of_pc hpc, leave_stage]
      · exact .leave _ _ (some .escalated)
      · exact hrole
  | panicHandler m hpc =>
      rw [stage_of_pc hpc, leave_stage hrole]
      exact .leave _ _ (some .panicked)
  | reap now failed hpc =>
      rw [stage_of_pc hpc]
      exact .reap _ _ failed
  | quit now failed hpc hquit =>
      obtain rfl : failed = false := hquit.resolve_left (by simp [hrole])
      rw [stage_of_pc hpc]
      exact .quit _ _ false
  | stopFailed now hpc hstop =>
      cases hrole.symm.trans hstop
      rw [stage_of_pc hpc]
      exact .quit _ _ true
  | exceeded now maxRestarts within tracker hpc hrestart =>
      cases hrole.symm.trans hrestart
      rw [stage_of_pc hpc]
      exact .quit _ _ true
  | escalateFailed now hpc hescalate =>
      cases hrole.symm.trans hescalate
      rw [stage_of_pc hpc]
      exact .quit _ _ true
  | restart now maxRestarts within tracker hpc hrestart =>
      cases hrole.symm.trans hrestart
      rw [stage_of_pc hpc]
      exact .restart _ _ _ _ rfl
  | announce now failed _ hpc =>
      rw [stage_of_pc hpc]
      exact .announce _ _
  | panicElsewhere site hsite hne =>
      refine .die _ _ _ site ?_ hne
      rcases phase_of_site (a := a) (by simp [hsite]) with hp | ⟨failed, hp⟩ <;> simp [hp]
  | restartUntracked now maxRestarts within hpc hrestart htracker =>
      cases hrole.symm.trans hrestart
      exact absurd htracker (h.tracker _ _ rfl)
  | beginTop now hpc htop | announceTop now failed hpc htop | retStoppedTop failed hpc htop =>
      cases hrole.symm.trans htop

end Actor

/-! ## Lives -/

/-- One instance. `body` is what happened from its start to the end of its loop, and `late` are the
children that were spawned inside `stopped`, after the stop signals. -/
structure Life (S M I : Type) where
  number : ℕ
  body : List (Event S M I)
  cause : Option Cause
  late : List ℕ
  body_ofLoop : ∀ e ∈ body, e.ofLoop = true

namespace Life

variable (l : Life S M I)

def children : List ℕ := l.body.filterMap Event.adopted?

def opening : List (Event S M I) :=
  .factory l.number :: .started :: (l.body ++ (l.cause.map Cause.event).toList)

def closing : List (Event S M I) :=
  l.children.map .stopChild ++ .stopped :: l.late.map .adopted

def trace : List (Event S M I) := l.opening ++ l.closing

/-- An instance that was just started. -/
def fresh (n : ℕ) : Life S M I := ⟨n, [], none, [], by simp⟩

/-- One more event in the loop. -/
def observe (e : Event S M I) (he : e.ofLoop = true) : Life S M I where
  number := l.number
  body := l.body ++ [e]
  cause := none
  late := []
  body_ofLoop d hd := by
    rcases List.mem_append.mp hd with hd | hd
    · exact l.body_ofLoop d hd
    · rw [List.mem_singleton.mp hd]
      exact he

theorem opening_observe {e : Event S M I} (he : e.ofLoop = true) (hcause : l.cause = none) :
    (l.observe e he).opening = l.opening ++ [e] := by
  simp [opening, observe, hcause]

theorem children_observe {e : Event S M I} (he : e.ofLoop = true) :
    (l.observe e he).children = l.children ++ e.adopted?.toList := by
  simp only [children, observe, List.filterMap_append]
  cases h : e.adopted? <;> simp [h]

end Life

/-- The instances of a child: all but the current one failed and were restarted. -/
structure Lives (strategy : SupervisorStrategy) (S M I : Type) where
  past : List (Life S M I)
  current : Life S M I
  past_failed : ∀ l ∈ past, l.cause.isSome = true
  past_number : past.map Life.number = List.range past.length
  current_number : current.number = past.length
  restarts : past ≠ [] → ∃ maxRestarts within, strategy = .restart maxRestarts within

namespace Lives

variable {strategy : SupervisorStrategy} (L : Lives strategy S M I)

def history : List (Event S M I) := L.past.flatMap fun l ↦ l.trace ++ [.verdict .restarting]

/-- All that happens before the watchers are notified. -/
def story : List (Event S M I) :=
  L.history ++ L.current.trace ++ ending strategy L.current.cause.isSome

def first : Lives strategy S M I := ⟨[], .fresh 0, by simp, rfl, rfl, by simp⟩

def update (l : Life S M I) (h : l.number = L.current.number) : Lives strategy S M I :=
  { L with current := l, current_number := h.trans L.current_number }

def restart (hfailed : L.current.cause.isSome = true) {maxRestarts within : ℕ}
    (hstrategy : strategy = .restart maxRestarts within) : Lives strategy S M I where
  past := L.past ++ [L.current]
  current := .fresh (L.current.number + 1)
  past_failed l hl := by
    rcases List.mem_append.mp hl with hl | hl
    · exact L.past_failed l hl
    · rwa [List.mem_singleton.mp hl]
  past_number := by
    rw [List.map_append, L.past_number, List.length_append, List.length_singleton,
      List.range_succ, ← L.current_number]
    rfl
  current_number := by
    rw [List.length_append, List.length_singleton, ← L.current_number]
    rfl
  restarts _ := ⟨maxRestarts, within, hstrategy⟩

theorem history_restart (hfailed : L.current.cause.isSome = true) {maxRestarts within : ℕ}
    (hstrategy : strategy = .restart maxRestarts within) :
    (L.restart hfailed hstrategy).history =
      L.history ++ L.current.trace ++ [Event.verdict .restarting] := by
  simp [history, restart]

end Lives

/-! ## The trace of a child -/

variable {strategy : SupervisorStrategy} {watchers : List ℕ} {s t : Stage}
  {trace events : List (Event S M I)}

/-- The trace in each phase of a child whose panics are all failures. -/
def Told (strategy : SupervisorStrategy) (s : Stage) (trace : List (Event S M I)) : Prop :=
  match s.phase with
  | .unpolled => trace = []
  | .running => ∃ L : Lives strategy S M I, L.current.cause = none ∧
      trace = L.history ++ L.current.opening ∧
      s.children = L.current.children ∧ s.generation = L.current.number
  | .reaping failed => ∃ L : Lives strategy S M I, L.current.cause.isSome = failed ∧
      trace = L.history ++ L.current.opening ∧
      s.children = L.current.children ∧ s.generation = L.current.number
  | .closed failed => ∃ L : Lives strategy S M I, L.current.cause.isSome = failed ∧
      trace = L.history ++ L.current.trace ∧ s.generation = L.current.number
  | .announcing => ∃ L : Lives strategy S M I, trace = L.story
  | .ended => ∃ (L : Lives strategy S M I) (ws : List ℕ), trace = L.story ++ ws.map .terminated
  | .dead => False

theorem Told.step (h : Told strategy s trace) (hstep : Advance strategy watchers s events t)
    (hpanics : ∀ site, .panicked site ∈ events → site = .handler) :
    Told strategy t (trace ++ events) := by
  cases hstep with
  | stay => rwa [List.append_nil]
  | begin cs n =>
      obtain rfl : trace = [] := h
      exact ⟨.first, rfl, rfl, rfl, rfl⟩
  | event cs cs' n e he hcs =>
      obtain ⟨L, hcause, rfl, rfl, rfl⟩ := h
      refine ⟨L.update (L.current.observe e he) rfl, rfl, ?_, ?_, rfl⟩
      · rw [List.append_assoc, ← L.current.opening_observe he hcause]
        rfl
      · exact hcs.trans (L.current.children_observe he).symm
  | leave cs n cause =>
      obtain ⟨L, hcause, rfl, rfl, rfl⟩ := h
      refine ⟨L.update { L.current with cause := cause } rfl, rfl, ?_, rfl, rfl⟩
      simp [Lives.update, Lives.history, Life.opening, hcause]
  | reap cs n failed =>
      obtain ⟨L, rfl, rfl, rfl, rfl⟩ := h
      refine ⟨L.update { L.current with late := [] } rfl, rfl, ?_, rfl⟩
      simp [Lives.update, Lives.history, Life.trace, Life.opening, Life.closing, Life.children]
  | late cs n c failed =>
      obtain ⟨L, rfl, rfl, rfl⟩ := h
      refine ⟨L.update { L.current with late := L.current.late ++ [c] } rfl, rfl, ?_, rfl⟩
      simp [Lives.update, Lives.history, Life.trace, Life.opening, Life.closing, Life.children]
  | restart cs n maxRestarts within hstrategy =>
      obtain ⟨L, hfailed, rfl, rfl⟩ := h
      refine ⟨L.restart hfailed hstrategy, rfl, ?_, rfl, rfl⟩
      rw [L.history_restart hfailed hstrategy, List.append_assoc _ [_]]
      rfl
  | quit cs n failed =>
      obtain ⟨L, rfl, rfl, rfl⟩ := h
      exact ⟨L, rfl⟩
  | announce cs n =>
      obtain ⟨L, rfl⟩ := h
      exact ⟨L, watchers, rfl⟩
  | die cs n p site hp hsite => exact absurd (hpanics site (List.mem_singleton_self _)) hsite

/-! ## Counting instances -/

def Event.isFactory : Event S M I → Bool
  | .factory _ => true
  | _ => false

def Event.isRestart : Event S M I → Bool
  | .verdict .restarting => true
  | _ => false

/-- What happens inside an instance or right after it. -/
def Event.ofInstance : Event S M I → Bool
  | .factory _ | .verdict .restarting | .terminated _ => false
  | _ => true

theorem ofInstance_of_ofLoop {e : Event S M I} (h : e.ofLoop = true) : e.ofInstance = true := by
  cases e <;> first | rfl | cases h

theorem ofInstance_ending (failed : Bool) :
    ∀ e ∈ ending (S := S) (M := M) (I := I) strategy failed, e.ofInstance = true := by
  cases failed <;> cases strategy <;> simp [ending, Event.ofInstance]

namespace Life

variable (l : Life S M I)

theorem ofInstance_loop :
    ∀ e ∈ l.body ++ (l.cause.map Cause.event).toList, e.ofInstance = true := by
  intro e he
  rcases List.mem_append.mp he with he | he
  · exact ofInstance_of_ofLoop (l.body_ofLoop e he)
  · obtain ⟨cause, -, rfl⟩ := Option.map_eq_some_iff.mp (Option.mem_toList.mp he)
    cases cause <;> rfl

theorem ofInstance_closing : ∀ e ∈ l.closing, e.ofInstance = true := by
  intro e he
  simp only [closing, List.mem_append, List.mem_map, List.mem_cons] at he
  obtain ⟨c, -, rfl⟩ | rfl | ⟨c, -, rfl⟩ := he <;> rfl

/-- What follows the call of the factory and `started`. -/
def tail : List (Event S M I) := l.body ++ (l.cause.map Cause.event).toList ++ l.closing

theorem trace_eq_cons : l.trace = .factory l.number :: .started :: l.tail := rfl

theorem ofInstance_tail : ∀ e ∈ l.tail, e.ofInstance = true := by
  intro e he
  rcases List.mem_append.mp he with he | he
  · exact l.ofInstance_loop e he
  · exact l.ofInstance_closing e he

end Life

theorem countP_isFactory_eq_zero (h : ∀ e ∈ trace, e.ofInstance = true) :
    trace.countP Event.isFactory = 0 := by
  rw [List.countP_eq_zero]
  intro e he
  cases e with
  | factory n => exact absurd (h _ he) Bool.false_ne_true
  | _ => exact Bool.false_ne_true

theorem countP_isRestart_eq_zero (h : ∀ e ∈ trace, e.ofInstance = true) :
    trace.countP Event.isRestart = 0 := by
  rw [List.countP_eq_zero]
  intro e he
  cases e with
  | verdict v =>
      cases v with
      | restarting => exact absurd (h _ he) Bool.false_ne_true
      | _ => exact Bool.false_ne_true
  | _ => exact Bool.false_ne_true

namespace Lives

variable (L : Lives strategy S M I)

theorem countP_history (p : Event S M I → Bool)
    (hp : ∀ l : Life S M I, (l.trace ++ [Event.verdict .restarting]).countP p = 1) :
    L.history.countP p = L.past.length := by
  unfold history
  induction L.past with
  | nil => rfl
  | cons l ls ih => rw [List.flatMap_cons, List.countP_append, hp, ih, List.length_cons, add_comm]

theorem factories_history : L.history.countP Event.isFactory = L.past.length := by
  refine L.countP_history _ fun l ↦ ?_
  rw [l.trace_eq_cons]
  simp [List.countP_cons, countP_isFactory_eq_zero l.ofInstance_tail, Event.isFactory]

theorem restarts_history : L.history.countP Event.isRestart = L.past.length := by
  refine L.countP_history _ fun l ↦ ?_
  rw [l.trace_eq_cons]
  simp [List.countP_cons, countP_isRestart_eq_zero l.ofInstance_tail, Event.isRestart]

theorem terminated_notMem_history (w : ℕ) : .terminated w ∉ L.history := by
  simp only [history, List.mem_flatMap, List.mem_append, Life.trace_eq_cons, List.mem_cons]
  rintro ⟨l, -, ((h | h | h) | h)⟩
  · cases h
  · cases h
  · cases l.ofInstance_tail _ h
  · simp at h

end Lives

/-- After the first poll the trace is that of the past instances, the current one, and the
notifications of a child that has ended. -/
theorem Told.exists_tail (h : Told strategy s trace) (hs : s.phase ≠ .unpolled) :
    ∃ (L : Lives strategy S M I) (rest : List (Event S M I)) (ws : List ℕ),
      trace = L.history ++ Event.factory L.current.number :: Event.started ::
        (rest ++ ws.map .terminated) ∧
      (∀ e ∈ rest, e.ofInstance = true) ∧ (s.phase ≠ .ended → ws = []) := by
  unfold Told at h
  split at h
  · contradiction
  · obtain ⟨L, -, rfl, -⟩ := h
    exact ⟨L, _, [], by simp [Life.opening], L.current.ofInstance_loop, fun _ ↦ rfl⟩
  · obtain ⟨L, -, rfl, -⟩ := h
    exact ⟨L, _, [], by simp [Life.opening], L.current.ofInstance_loop, fun _ ↦ rfl⟩
  · obtain ⟨L, -, rfl, -⟩ := h
    exact ⟨L, _, [], by simp [Life.trace_eq_cons], L.current.ofInstance_tail, fun _ ↦ rfl⟩
  · obtain ⟨L, rfl⟩ := h
    refine ⟨L, L.current.tail ++ ending strategy L.current.cause.isSome, [], ?_, ?_, fun _ ↦ rfl⟩
    · simp [Lives.story, Life.trace_eq_cons]
    · intro e he
      exact (List.mem_append.mp he).elim (L.current.ofInstance_tail e) (ofInstance_ending _ e)
  · obtain ⟨L, ws, rfl⟩ := h
    refine ⟨L, L.current.tail ++ ending strategy L.current.cause.isSome, ws, ?_, ?_, ?_⟩
    · simp [Lives.story, Life.trace_eq_cons]
    · intro e he
      exact (List.mem_append.mp he).elim (L.current.ofInstance_tail e) (ofInstance_ending _ e)
    · intro hne
      contradiction
  · exact h.elim

theorem countP_terminated (p : Event S M I → Bool) (hp : ∀ w, p (.terminated w) = false)
    (ws : List ℕ) : (ws.map Event.terminated).countP p = 0 := by
  simp [List.countP_eq_zero, hp]

theorem Told.exists_count (h : Told strategy s trace) (hs : s.phase ≠ .unpolled) :
    ∃ L : Lives strategy S M I, trace.countP Event.isFactory = L.past.length + 1 ∧
      trace.countP Event.isRestart = L.past.length := by
  obtain ⟨L, rest, ws, rfl, hrest, -⟩ := h.exists_tail hs
  refine ⟨L, ?_, ?_⟩
  · rw [List.countP_append, List.countP_cons, List.countP_cons, List.countP_append,
      L.factories_history, countP_isFactory_eq_zero hrest, countP_terminated _ fun _ ↦ rfl]
    rfl
  · rw [List.countP_append, List.countP_cons, List.countP_cons, List.countP_append,
      L.restarts_history, countP_isRestart_eq_zero hrest, countP_terminated _ fun _ ↦ rfl]
    rfl

theorem Told.terminated_notMem (h : Told strategy s trace) (hs : s.phase ≠ .ended) (w : ℕ) :
    .terminated w ∉ trace := by
  by_cases hunpolled : s.phase = .unpolled
  · unfold Told at h
    rw [hunpolled] at h
    obtain rfl : trace = [] := h
    simp
  · obtain ⟨L, rest, ws, rfl, hrest, hws⟩ := h.exists_tail hunpolled
    obtain rfl := hws hs
    rw [List.map_nil, List.append_nil]
    intro hw
    rcases List.mem_append.mp hw with hw | hw
    · exact L.terminated_notMem_history w hw
    · have hw : .terminated w ∈ rest := by simpa using hw
      cases hrest _ hw

/-- Only notifications follow a notification. -/
theorem Told.after_terminated (h : Told strategy s trace) {pre post : List (Event S M I)} {w : ℕ}
    (htrace : trace = pre ++ .terminated w :: post) : ∀ e ∈ post, ∃ w', e = .terminated w' := by
  have hphase : s.phase = .ended := by
    by_contra hne
    exact h.terminated_notMem hne w (by simp [htrace])
  unfold Told at h
  rw [hphase] at h
  obtain ⟨L, ws, hstory⟩ := h
  have hnot : .terminated w ∉ L.story :=
    Told.terminated_notMem (s := ⟨.announcing, [], 0⟩) ⟨L, rfl⟩ (by simp) w
  rcases append_eq_append_cons.mp (hstory.symm.trans htrace) with ⟨rest, hL, -⟩ | ⟨rest, -, hws⟩
  · exact absurd (by simp [hL]) hnot
  · intro e he
    have hmem : e ∈ ws.map Event.terminated := by
      rw [hws]
      exact List.mem_append_right _ (List.mem_cons_of_mem _ he)
    obtain ⟨w', -, rfl⟩ := List.mem_map.mp hmem
    exact ⟨w', rfl⟩

/-! ## Whole runs -/

def Input.watcher? : Input M I → Option ℕ
  | .watch w => some w
  | _ => none

/-- The watchers that were added. -/
def registered (as : List (Input M I)) : List ℕ := as.filterMap Input.watcher?

namespace Actor

variable {beh : Behaviour S M I} {a b : Actor S M I} {i : Input M I} {as : List (Input M I)}
  {capacity : ℕ}

theorem phase_eq_ended : a.pc.phase = .ended ↔ a.pc = .ended := by
  cases hpc : a.pc <;> simp [Pc.phase]

theorem phase_eq_unpolled : a.pc.phase = .unpolled ↔ a.pc = .spawned := by
  cases hpc : a.pc <;> simp [Pc.phase]

theorem watchers_of_transition (h : Transition beh a i b events) :
    b.watchers = a.watchers ++ i.watcher?.toList := by
  cases h with
  | watch w => rfl
  | _ => exact (List.append_nil _).symm

theorem watchers_of_run {role : Role}
    (hrun : run (traced (step beh)) (spawned beh role capacity, []) as = some (a, trace)) :
    registered as = a.watchers := by
  refine traced_history (P := fun as a _ ↦ registered as = a.watchers) rfl ?_ hrun
  intro as t before i u events ht hstep
  rw [watchers_of_transition (transition_of_step hstep), ← ht, registered, List.filterMap_append]
  cases h : i.watcher? <;> simp [registered, h]

theorem supervised_of_run
    (hrun : run (traced (step beh)) (spawned beh (.child strategy) capacity, []) as =
      some (a, trace)) : Supervised strategy a := by
  refine traced_history (P := fun _ a _ ↦ Supervised strategy a)
    (supervised_spawned beh strategy capacity) ?_ hrun
  intro _ t before i u events ht hstep
  exact ht.step (transition_of_step hstep)

theorem told_of_run
    (hrun : run (traced (step beh)) (spawned beh (.child strategy) capacity, []) as =
      some (a, trace)) (hpanics : ∀ site, .panicked site ∈ trace → site = .handler) :
    Told strategy a.stage trace := by
  have hinv := traced_history (P := fun _ a trace ↦ Supervised strategy a ∧
      ((∀ site, .panicked site ∈ trace → site = .handler) → Told strategy a.stage trace))
    ⟨supervised_spawned beh strategy capacity, fun _ ↦ rfl⟩ ?_ hrun
  · exact hinv.2 hpanics
  · rintro as t before i u events ⟨hsuper, htold⟩ hstep
    have hstep := transition_of_step hstep
    refine ⟨hsuper.step hstep, fun hpanics ↦ ?_⟩
    refine (htold fun site h ↦ ?_).step (advance_of_transition hsuper hstep) fun site h ↦ ?_
    · exact hpanics site (List.mem_append_left events h)
    · exact hpanics site (List.mem_append_right before h)

/-- A child ends by notifying its watchers. -/
theorem ended_of_transition (h : Supervised strategy a) (hstep : Transition beh a i b events)
    (hb : b.pc = .ended) :
    (a.pc = .ended ∧ events = [] ∧ ∀ now, i ≠ .poll now) ∨
      ∃ now, i = .poll now ∧ a.pc.phase = .announcing ∧ events = a.watchers.map .terminated := by
  cases hstep with
  | deliver | requestStop | shutdown | escalation | oldEscalation | watch | streamReady |
    addStream | spawn =>
      exact .inl ⟨hb, rfl, by simp⟩
  | adopt c hadopt =>
      have hsite := h.adopting (by simp [hadopt])
      rw [show a.pc = .ended from hb] at hsite
      exact absurd rfl hsite
  | announce now failed _ hpc => exact .inr ⟨now, rfl, by rw [hpc]; rfl, rfl⟩
  | retStoppedTop failed hpc htop => cases h.role.symm.trans htop
  | shutdownTaken | stopTaken | escalateTaken | panicHandler =>
      exact absurd hb (leave_pc_ne_ended _ _)
  | _ => cases hb

/-- The task was over with `story`, and its last step sent one `Terminated` to each watcher that was
registered then. -/
def Announced (beh : Behaviour S M I) (strategy : SupervisorStrategy) (capacity : ℕ)
    (as : List (Input M I)) (trace story : List (Event S M I)) : Prop :=
  ∃ (before : List (Input M I)) (now : ℕ) (after : List (Input M I)) (t u : Actor S M I),
    as = before ++ .poll now :: after ∧
    run (traced (step beh)) (spawned beh (.child strategy) capacity, []) before = some (t, story) ∧
    step beh t (.poll now) = some (u, (registered before).map .terminated) ∧ u.pc = .ended ∧
    trace = story ++ (registered before).map .terminated

theorem announced_of_run
    (hrun : run (traced (step beh)) (spawned beh (.child strategy) capacity, []) as =
      some (a, trace)) (hended : a.pc = .ended) :
    ∃ story, Announced beh strategy capacity as trace story := by
  induction as using List.reverseRecOn generalizing a trace with
  | nil =>
      cases hrun
      cases hended
  | append_singleton as i ih =>
      obtain ⟨⟨t, story⟩, hbefore, hlast⟩ := run_concat_eq_some.mp hrun
      obtain ⟨events, hstep, rfl⟩ := traced_eq_some.mp hlast
      rcases ended_of_transition (supervised_of_run hbefore) (transition_of_step hstep) hended with
        ⟨ht, rfl, -⟩ | ⟨now, rfl, -, rfl⟩
      · obtain ⟨story', before, now, after, v, u, rfl, hv, hu, hpc, rfl⟩ := ih hbefore ht
        exact ⟨story', before, now, after ++ [i], v, u, by simp, hv, hu, hpc, by simp⟩
      · rw [← watchers_of_run hbefore] at hstep ⊢
        exact ⟨story, as, now, [], t, a, rfl, hbefore, hstep, hended, rfl⟩

/-- In every run of a supervised child in which only message handlers panic, the trace is a
sequence of instances as in `Told`, and when the child has ended it is completed by one `Terminated`
for each watcher that was registered at that time. The factory is called once more than restarts
were accepted, once without a restart strategy, no watcher is notified before the end, and nothing
but notifications follows a notification. -/
theorem child_lifecycle
    (hrun : run (traced (step beh)) (spawned beh (.child strategy) capacity, []) as =
      some (a, trace)) (hpanics : ∀ site, .panicked site ∈ trace → site = .handler) :
    Told strategy a.stage trace ∧
      (a.pc = .ended → ∃ L : Lives strategy S M I,
        Announced beh strategy capacity as trace L.story) ∧
      (a.pc ≠ .spawned → trace.countP Event.isFactory = 1 + trace.countP Event.isRestart) ∧
      (a.pc ≠ .spawned → (∀ maxRestarts within, strategy ≠ .restart maxRestarts within) →
        trace.countP Event.isFactory = 1) ∧
      (a.pc ≠ .ended → ∀ w, .terminated w ∉ trace) ∧
      ∀ pre w post, trace = pre ++ .terminated w :: post →
        ∀ e ∈ post, ∃ w', e = .terminated w' := by
  have htold := told_of_run hrun hpanics
  refine ⟨htold, ?_, ?_, ?_, ?_, ?_⟩
  · intro hended
    obtain ⟨story, hannounced⟩ := announced_of_run hrun hended
    obtain ⟨before, now, after, t, u, rfl, hbefore, hstep, hu, rfl⟩ := hannounced
    have hstory := told_of_run hbefore fun site h ↦ hpanics site (List.mem_append_left _ h)
    obtain ⟨L, rfl⟩ : ∃ L : Lives strategy S M I, story = L.story := by
      rcases ended_of_transition (supervised_of_run hbefore) (transition_of_step hstep) hu with
        ⟨-, -, hpoll⟩ | ⟨-, -, hannouncing, -⟩
      · exact absurd rfl (hpoll now)
      · rwa [Told, stage, hannouncing] at hstory
    exact ⟨L, before, now, after, t, u, rfl, hbefore, hstep, hu, rfl⟩
  · intro hspawned
    obtain ⟨L, hfactory, hrestart⟩ := htold.exists_count fun h ↦ hspawned (phase_eq_unpolled.mp h)
    rw [hfactory, hrestart, add_comm]
  · intro hspawned hstrategy
    obtain ⟨L, hfactory, -⟩ := htold.exists_count fun h ↦ hspawned (phase_eq_unpolled.mp h)
    have hpast : L.past = [] := by
      by_contra hne
      obtain ⟨maxRestarts, within, h⟩ := L.restarts hne
      exact hstrategy maxRestarts within h
    rw [hfactory, hpast, List.length_nil]
  · intro hended
    exact htold.terminated_notMem fun h ↦ hended (phase_eq_ended.mp h)
  · intro pre w post htrace
    exact htold.after_terminated htrace

/-- A watched child fails once, is restarted and then stopped. -/
def restartInputs : List (Input ℕ ℕ) :=
  [.watch 3, .poll 0, .ret, .deliver 7, .poll 0, .poll 0, .panic, .poll 1, .ret, .poll 1, .ret,
    .requestStop, .poll 2, .poll 2, .poll 2, .poll 3, .ret, .poll 3, .poll 3]

theorem restarted_child_lifecycle :
    ∃ a trace,
      run (traced (step idle)) (spawned idle (.child (.restart 1 10)) 4, []) restartInputs =
        some (a, trace) ∧
      a.pc = .ended ∧ trace.countP Event.isRestart = 1 ∧
      trace.countP Event.isFactory = 1 + trace.countP Event.isRestart ∧
      ∃ L : Lives (.restart 1 10) Unit ℕ ℕ,
        Announced idle (.restart 1 10) 4 restartInputs trace L.story := by
  have hsome : (run (traced (step idle))
      (spawned idle (.child (.restart 1 10)) 4, []) restartInputs).isSome = true := by
    decide +kernel
  have hend : (run (traced (step idle))
      (spawned idle (.child (.restart 1 10)) 4, []) restartInputs).map
        (fun s ↦ (s.1.pc, s.2)) =
      some (.ended, [.factory 0, .started, .handed 7 (), .panicked .handler, .stopped,
        .verdict .restarting, .factory 1, .started, .stopped, .terminated 3]) := by
    decide +kernel
  obtain ⟨⟨a, trace⟩, hrun⟩ := Option.isSome_iff_exists.mp hsome
  rw [hrun, Option.map_some, Option.some_inj, Prod.mk.injEq] at hend
  obtain ⟨hpc, rfl⟩ := hend
  have hpc : a.pc = .ended := hpc
  have h := child_lifecycle hrun (by simp)
  exact ⟨a, _, hrun, hpc, by decide, h.2.2.1 (by simp [hpc]), h.2.1 hpc⟩

end Actor

end Cineyma.Runtime
