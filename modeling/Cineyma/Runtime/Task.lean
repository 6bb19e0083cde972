import Cineyma.Foundations.Notify
import Cineyma.Foundations.Run
import Cineyma.Runtime.Supervisor

/-!
# The task of an actor

The loop that `spawn_with_shutdown` runs for a top-level actor and that
`spawn_child_with_strategy_and_capacity` runs for a supervised child, one step for every point at
which something else may happen in between. User code (`started`, the message and stream handlers,
`finished`, `stopped`) runs for any number of steps, may spawn children and add streams, and ends by
returning or by a panic.

A `select!` creates its futures when it starts. It polls the mailbox, then the streams, then the
three signals, and drops the futures when a branch is taken.
-/

namespace Cineyma.Runtime

inductive Role where
  | topLevel
  | child (strategy : SupervisorStrategy)
  deriving DecidableEq

/-- What the user's type does to its value: `factory n` is the value of the `n`-th call, and the
others are the effects of calls that return. -/
structure Behaviour (S M I : Type) where
  factory : ℕ → S
  started : S → S
  handle : S → M → S
  item : S → I → S
  finished : S → S

/-- An actor whose value does not matter. -/
def idle {M I : Type} : Behaviour Unit M I where
  factory _ := ()
  started s := s
  handle s _ := s
  item s _ := s
  finished s := s

/-- Where the task is. `polling todo kept any` is inside `poll_streams`, and `failed` is the
`panic_occurred` that the loop ended with. -/
inductive Pc (M I : Type) where
  | spawned
  | starting
  | looping
  | selecting
  | polling (todo kept : List ℕ) (any : Bool)
  | item (id : ℕ) (x : I) (todo kept : List ℕ)
  | finishing (todo kept : List ℕ) (any : Bool)
  | handling (m : M)
  | reaping (failed : Bool)
  | stopping (failed : Bool)
  | deciding (failed : Bool)
  | announcing (failed : Bool)
  | ended
  | dead
  deriving DecidableEq

/-- `generation` counts the restarts. A stream is known by a number, and `ready id` are the results
that its next polls give: an item, or `none` for its end. -/
structure Actor (S M I : Type) where
  role : Role
  capacity : ℕ
  mailbox : List M
  watchers : List ℕ
  stop : Notify
  shutdown : Notify
  escalate : Notify
  tracker : Option RestartTracker
  generation : ℕ
  state : S
  children : List ℕ
  adopting : Option ℕ
  streams : List ℕ
  added : List ℕ
  ready : ℕ → List (Option I)
  pc : Pc M I

/-- The places where user code runs. -/
inductive Site where
  | started
  | handler
  | item
  | finished
  | stopped
  deriving DecidableEq

/-- The lines that a failed child writes. -/
inductive Verdict where
  | stop
  | restarting
  | exceeded
  | escalate
  deriving DecidableEq

/-- What a step lets others see. `escalated` is the reception of the own escalate signal, and
`escalate` the signal to the parent. -/
inductive Event (S M I : Type) where
  | factory (n : ℕ)
  | started
  | adopted (c : ℕ)
  | handed (m : M) (state : S)
  | handled (m : M)
  | item (id : ℕ) (x : I)
  | finished (id : ℕ)
  | panicked (site : Site)
  | escalated
  | stopChild (c : ℕ)
  | stopped
  | verdict (v : Verdict)
  | escalate
  | terminated (w : ℕ)
  deriving DecidableEq

/-- The first six are done to the actor by others, `poll` is a step of the task, and the rest are
done by its user code. -/
inductive Input (M I : Type) where
  | deliver (m : M)
  | requestStop
  | shutdown
  | escalation (generation : ℕ)
  | watch (w : ℕ)
  | streamReady (id : ℕ) (r : Option I)
  | poll (now : ℕ)
  | spawn (c : ℕ)
  | adopt
  | addStream (id : ℕ)
  | ret
  | panic
  deriving DecidableEq

namespace Pc

variable {M I : Type}

def alive : Pc M I → Bool
  | .ended | .dead => false
  | _ => true

/-- The user code that runs, if any. -/
def site : Pc M I → Option Site
  | .starting => some .started
  | .item .. => some .item
  | .finishing .. => some .finished
  | .handling _ => some .handler
  | .stopping _ => some .stopped
  | _ => none

end Pc

namespace Actor

variable {S M I : Type}

def spawned (beh : Behaviour S M I) (role : Role) (capacity : ℕ) : Actor S M I where
  role := role
  capacity := capacity
  mailbox := []
  watchers := []
  stop := .new
  shutdown := .new
  escalate := .new
  tracker := match role with
    | .child strategy => RestartTracker.ofStrategy strategy
    | .topLevel => none
  generation := 0
  state := beh.factory 0
  children := []
  adopting := none
  streams := []
  added := []
  ready := fun _ ↦ []
  pc := .spawned

/-- The end of a `select!`. -/
def dropFutures (a : Actor S M I) : Actor S M I :=
  { a with shutdown := a.shutdown.drop, stop := a.stop.drop, escalate := a.escalate.drop }

/-- Where the loop is left to: a child stops its children first, a top-level actor notifies its
watchers first. -/
def leave (a : Actor S M I) (failed : Bool) : Actor S M I :=
  { a with pc := match a.role with
      | .child _ => .reaping failed
      | .topLevel => .announcing failed }

/-- The task is over, and with it the receiver of the mailbox. -/
def finish (a : Actor S M I) (pc : Pc M I) : Actor S M I :=
  { a with mailbox := [], pc := pc }

/-- A panic that no `catch_unwind` catches unwinds the task. -/
def die (a : Actor S M I) : Actor S M I := a.dropFutures.finish .dead

/-- `factory()` and a fresh context. -/
def instantiate (beh : Behaviour S M I) (a : Actor S M I) (n : ℕ) : Actor S M I :=
  { a with
    generation := n
    state := beh.factory n
    children := []
    escalate := .new
    streams := []
    added := []
    pc := .starting }

/-- The three signals of the `select!`, polled in order after the mailbox and the streams. -/
def pollSignals (a : Actor S M I) : Actor S M I × List (Event S M I) :=
  let (shutdownReady, shutdown) := a.shutdown.poll
  let a := { a with shutdown := shutdown }
  if shutdownReady then (a.dropFutures.leave false, [])
  else
    let (stopReady, stop) := a.stop.poll
    let a := { a with stop := stop }
    if stopReady then (a.dropFutures.leave false, [])
    else
      let (escalateReady, escalate) := a.escalate.poll
      let a := { a with escalate := escalate }
      if escalateReady then (a.dropFutures.leave true, [.escalated])
      else ({ a with pc := .selecting }, [])

/-- The strategy of a failed child. -/
def applyStrategy (beh : Behaviour S M I) (a : Actor S M I) (now : ℕ)
    (strategy : SupervisorStrategy) : Actor S M I × List (Event S M I) :=
  match strategy with
  | .stop => ({ a with pc := .announcing true }, [.verdict .stop])
  | .restart _ _ =>
      match a.tracker with
      | some tracker =>
          let (tracker, accepted) := tracker.recordRestart now
          let a := { a with tracker := some tracker }
          if accepted then
            (instantiate beh a (a.generation + 1),
              [.verdict .restarting, .factory (a.generation + 1), .started])
          else ({ a with pc := .announcing true }, [.verdict .exceeded])
      | none => (instantiate beh a (a.generation + 1), [.factory (a.generation + 1), .started])
  | .escalate => ({ a with pc := .announcing true }, [.verdict .escalate, .escalate])

/-- A step of the task itself. -/
def poll (beh : Behaviour S M I) (a : Actor S M I) (now : ℕ) :
    Option (Actor S M I × List (Event S M I)) :=
  match a.pc with
  | .spawned =>
      match a.role with
      | .child _ => some (instantiate beh a 0, [.factory 0, .started])
      | .topLevel => some ({ a with pc := .starting }, [.started])
  | .looping =>
      some ({ a with
        streams := a.streams ++ a.added
        added := []
        shutdown := a.shutdown.notified
        stop := a.stop.notified
        escalate := a.escalate.notified
        pc := .selecting }, [])
  | .selecting =>
      -- `recv` never yields `None`, since the context of the actor holds a sender
      match a.mailbox with
      | m :: rest =>
          some ({ a.dropFutures with mailbox := rest, pc := .handling m }, [.handed m a.state])
      | [] => some ({ a with pc := .polling a.streams [] false }, [])
  | .polling (id :: todo) kept any =>
      match a.ready id with
      | [] => some ({ a with pc := .polling todo (kept ++ [id]) any }, [])
      | some x :: rest =>
          some ({ a with ready := Function.update a.ready id rest, pc := .item id x todo kept },
            [.item id x])
      | none :: rest =>
          some ({ a with ready := Function.update a.ready id rest, pc := .finishing todo kept any },
            [.finished id])
  | .polling [] kept any =>
      if any then some ({ a.dropFutures with streams := kept, pc := .looping }, [])
      else some (pollSignals { a with streams := kept })
  | .reaping failed =>
      some ({ a with pc := .stopping failed }, a.children.map .stopChild ++ [.stopped])
  | .deciding failed =>
      match a.role, failed with
      | .child strategy, true => some (applyStrategy beh a now strategy)
      | _, _ => some ({ a with pc := .announcing failed }, [])
  | .announcing failed =>
      some (match a.role with
        | .child _ => a.finish .ended
        | .topLevel => { a with pc := .reaping failed }, a.watchers.map .terminated)
  | _ => none

/-- User code returns. -/
def ret (beh : Behaviour S M I) (a : Actor S M I) :
    Option (Actor S M I × List (Event S M I)) :=
  match a.pc with
  | .starting => some ({ a with state := beh.started a.state, pc := .looping }, [])
  | .handling m => some ({ a with state := beh.handle a.state m, pc := .looping }, [.handled m])
  | .item id x todo kept =>
      some ({ a with state := beh.item a.state x, pc := .polling todo (kept ++ [id]) true }, [])
  | .finishing todo kept any =>
      some ({ a with state := beh.finished a.state, pc := .polling todo kept any }, [])
  | .stopping failed =>
      some (match a.role with
        | .child _ => { a with pc := .deciding failed }
        | .topLevel => a.finish .ended, [])
  | _ => none

/-- User code panics: only the message handlers run inside `catch_unwind`. -/
def panic (a : Actor S M I) : Option (Actor S M I × List (Event S M I)) :=
  match a.pc.site with
  | some .handler => some (a.leave true, [.panicked .handler])
  | some site => some (a.die, [.panicked site])
  | none => none

def step (beh : Behaviour S M I) (a : Actor S M I) :
    Input M I → Option (Actor S M I × List (Event S M I))
  | .deliver m =>
      if a.pc.alive ∧ a.mailbox.length < a.capacity then
        some ({ a with mailbox := a.mailbox ++ [m] }, [])
      else none
  | .requestStop => some ({ a with stop := a.stop.notifyOne }, [])
  | .shutdown => some ({ a with shutdown := a.shutdown.notifyWaiters }, [])
  | .escalation generation =>
      -- every instance has an escalate signal of its own
      if generation = a.generation then some ({ a with escalate := a.escalate.notifyOne }, [])
      else some (a, [])
  | .watch w => some ({ a with watchers := a.watchers ++ [w] }, [])
  | .streamReady id r =>
      some ({ a with ready := Function.update a.ready id (a.ready id ++ [r]) }, [])
  | .poll now => poll beh a now
  | .spawn c =>
      if a.pc.site.isSome ∧ a.adopting = none then some ({ a with adopting := some c }, [])
      else none
  | .adopt =>
      match a.adopting with
      | some c => some ({ a with adopting := none, children := a.children ++ [c] }, [.adopted c])
      | none => none
  | .addStream id =>
      if a.pc.site.isSome ∧ a.adopting = none then some ({ a with added := a.added ++ [id] }, [])
      else none
  | .ret => if a.adopting = none then ret beh a else none
  | .panic => if a.adopting = none then panic a else none

/-! ## The rules of a step -/

/-- One rule for each thing that a step can do. -/
inductive Transition (beh : Behaviour S M I) (a : Actor S M I) :
    Input M I → Actor S M I → List (Event S M I) → Prop
  | deliver (m : M) (halive : a.pc.alive = true) (hroom : a.mailbox.length < a.capacity) :
      Transition beh a (.deliver m) { a with mailbox := a.mailbox ++ [m] } []
  | requestStop : Transition beh a .requestStop { a with stop := a.stop.notifyOne } []
  | shutdown : Transition beh a .shutdown { a with shutdown := a.shutdown.notifyWaiters } []
  | escalation :
      Transition beh a (.escalation a.generation) { a with escalate := a.escalate.notifyOne } []
  | oldEscalation (n : ℕ) (hn : n ≠ a.generation) : Transition beh a (.escalation n) a []
  | watch (w : ℕ) : Transition beh a (.watch w) { a with watchers := a.watchers ++ [w] } []
  | streamReady (id : ℕ) (r : Option I) :
      Transition beh a (.streamReady id r)
        { a with ready := Function.update a.ready id (a.ready id ++ [r]) } []
  | begin (now : ℕ) (strategy : SupervisorStrategy) (hpc : a.pc = .spawned)
      (hrole : a.role = .child strategy) :
      Transition beh a (.poll now) (instantiate beh a 0) [.factory 0, .started]
  | beginTop (now : ℕ) (hpc : a.pc = .spawned) (hrole : a.role = .topLevel) :
      Transition beh a (.poll now) { a with pc := .starting } [.started]
  | select (now : ℕ) (hpc : a.pc = .looping) :
      Transition beh a (.poll now) { a with
        streams := a.streams ++ a.added
        added := []
        shutdown := a.shutdown.notified
        stop := a.stop.notified
        escalate := a.escalate.notified
        pc := .selecting } []
  | take (now : ℕ) (m : M) (rest : List M) (hpc : a.pc = .selecting)
      (hmailbox : a.mailbox = m :: rest) :
      Transition beh a (.poll now) { a.dropFutures with mailbox := rest, pc := .handling m }
        [.handed m a.state]
  | pollStreams (now : ℕ) (hpc : a.pc = .selecting) (hmailbox : a.mailbox = []) :
      Transition beh a (.poll now) { a with pc := .polling a.streams [] false } []
  | streamPending (now id : ℕ) (todo kept : List ℕ) (any : Bool)
      (hpc : a.pc = .polling (id :: todo) kept any) (hready : a.ready id = []) :
      Transition beh a (.poll now) { a with pc := .polling todo (kept ++ [id]) any } []
  | streamItem (now id : ℕ) (todo kept : List ℕ) (any : Bool) (x : I) (rest : List (Option I))
      (hpc : a.pc = .polling (id :: todo) kept any) (hready : a.ready id = some x :: rest) :
      Transition beh a (.poll now)
        { a with ready := Function.update a.ready id rest, pc := .item id x todo kept } [.item id x]
  | streamEnd (now id : ℕ) (todo kept : List ℕ) (any : Bool) (rest : List (Option I))
      (hpc : a.pc = .polling (id :: todo) kept any) (hready : a.ready id = none :: rest) :
      Transition beh a (.poll now)
        { a with ready := Function.update a.ready id rest, pc := .finishing todo kept any }
        [.finished id]
  | streamsReady (now : ℕ) (kept : List ℕ) (hpc : a.pc = .polling [] kept true) :
      Transition beh a (.poll now) { a.dropFutures with streams := kept, pc := .looping } []
  | shutdownTaken (now : ℕ) (kept : List ℕ) (hpc : a.pc = .polling [] kept false)
      (hshutdown : a.shutdown.poll.1 = true) :
      Transition beh a (.poll now)
        (leave (dropFutures { a with streams := kept, shutdown := a.shutdown.poll.2 }) false) []
  | stopTaken (now : ℕ) (kept : List ℕ) (hpc : a.pc = .polling [] kept false)
      (hshutdown : a.shutdown.poll.1 = false) (hstop : a.stop.poll.1 = true) :
      Transition beh a (.poll now)
        (leave (dropFutures { a with
          streams := kept, shutdown := a.shutdown.poll.2, stop := a.stop.poll.2 }) false) []
  | escalateTaken (now : ℕ) (kept : List ℕ) (hpc : a.pc = .polling [] kept false)
      (hshutdown : a.shutdown.poll.1 = false) (hstop : a.stop.poll.1 = false)
      (hescalate : a.escalate.poll.1 = true) :
      Transition beh a (.poll now)
        (leave (dropFutures { a with
          streams := kept, shutdown := a.shutdown.poll.2, stop := a.stop.poll.2,
          escalate := a.escalate.poll.2 }) true) [.escalated]
  | pending (now : ℕ) (kept : List ℕ) (hpc : a.pc = .polling [] kept false)
      (hshutdown : a.shutdown.poll.1 = false) (hstop : a.stop.poll.1 = false)
      (hescalate : a.escalate.poll.1 = false) :
      Transition beh a (.poll now) { a with
        streams := kept, shutdown := a.shutdown.poll.2, stop := a.stop.poll.2,
        escalate := a.escalate.poll.2, pc := .selecting } []
  | reap (now : ℕ) (failed : Bool) (hpc : a.pc = .reaping failed) :
      Transition beh a (.poll now) { a with pc := .stopping failed }
        (a.children.map .stopChild ++ [.stopped])
  | quit (now : ℕ) (failed : Bool) (hpc : a.pc = .deciding failed)
      (hquit : a.role = .topLevel ∨ failed = false) :
      Transition beh a (.poll now) { a with pc := .announcing failed } []
  | stopFailed (now : ℕ) (hpc : a.pc = .deciding true) (hrole : a.role = .child .stop) :
      Transition beh a (.poll now) { a with pc := .announcing true } [.verdict .stop]
  | restart (now maxRestarts within : ℕ) (tracker : RestartTracker) (hpc : a.pc = .deciding true)
      (hrole : a.role = .child (.restart maxRestarts within)) (htracker : a.tracker = some tracker)
      (haccepted : (tracker.recordRestart now).2 = true) :
      Transition beh a (.poll now)
        (instantiate beh { a with tracker := some (tracker.recordRestart now).1 }
          (a.generation + 1))
        [.verdict .restarting, .factory (a.generation + 1), .started]
  | exceeded (now maxRestarts within : ℕ) (tracker : RestartTracker) (hpc : a.pc = .deciding true)
      (hrole : a.role = .child (.restart maxRestarts within)) (htracker : a.tracker = some tracker)
      (haccepted : (tracker.recordRestart now).2 = false) :
      Transition beh a (.poll now)
        { a with tracker := some (tracker.recordRestart now).1, pc := .announcing true }
        [.verdict .exceeded]
  | restartUntracked (now maxRestarts within : ℕ) (hpc : a.pc = .deciding true)
      (hrole : a.role = .child (.restart maxRestarts within)) (htracker : a.tracker = none) :
      Transition beh a (.poll now) (instantiate beh a (a.generation + 1))
        [.factory (a.generation + 1), .started]
  | escalateFailed (now : ℕ) (hpc : a.pc = .deciding true) (hrole : a.role = .child .escalate) :
      Transition beh a (.poll now) { a with pc := .announcing true } [.verdict .escalate, .escalate]
  | announce (now : ℕ) (failed : Bool) (strategy : SupervisorStrategy)
      (hpc : a.pc = .announcing failed) (hrole : a.role = .child strategy) :
      Transition beh a (.poll now) (a.finish .ended) (a.watchers.map .terminated)
  | announceTop (now : ℕ) (failed : Bool) (hpc : a.pc = .announcing failed)
      (hrole : a.role = .topLevel) :
      Transition beh a (.poll now) { a with pc := .reaping failed } (a.watchers.map .terminated)
  | spawn (c : ℕ) (hsite : a.pc.site.isSome = true) (hadopt : a.adopting = none) :
      Transition beh a (.spawn c) { a with adopting := some c } []
  | adopt (c : ℕ) (hadopt : a.adopting = some c) :
      Transition beh a .adopt { a with adopting := none, children := a.children ++ [c] }
        [.adopted c]
  | addStream (id : ℕ) (hsite : a.pc.site.isSome = true) (hadopt : a.adopting = none) :
      Transition beh a (.addStream id) { a with added := a.added ++ [id] } []
  | retStarted (hpc : a.pc = .starting) (hadopt : a.adopting = none) :
      Transition beh a .ret { a with state := beh.started a.state, pc := .looping } []
  | retHandler (m : M) (hpc : a.pc = .handling m) (hadopt : a.adopting = none) :
      Transition beh a .ret { a with state := beh.handle a.state m, pc := .looping } [.handled m]
  | retItem (id : ℕ) (x : I) (todo kept : List ℕ) (hpc : a.pc = .item id x todo kept)
      (hadopt : a.adopting = none) :
      Transition beh a .ret
        { a with state := beh.item a.state x, pc := .polling todo (kept ++ [id]) true } []
  | retFinished (todo kept : List ℕ) (any : Bool) (hpc : a.pc = .finishing todo kept any)
      (hadopt : a.adopting = none) :
      Transition beh a .ret
        { a with state := beh.finished a.state, pc := .polling todo kept any } []
  | retStopped (failed : Bool) (strategy : SupervisorStrategy) (hpc : a.pc = .stopping failed)
      (hrole : a.role = .child strategy) (hadopt : a.adopting = none) :
      Transition beh a .ret { a with pc := .deciding failed } []
  | retStoppedTop (failed : Bool) (hpc : a.pc = .stopping failed) (hrole : a.role = .topLevel)
      (hadopt : a.adopting = none) : Transition beh a .ret (a.finish .ended) []
  | panicHandler (m : M) (hpc : a.pc = .handling m) (hadopt : a.adopting = none) :
      Transition beh a .panic (a.leave true) [.panicked .handler]
  | panicElsewhere (site : Site) (hsite : a.pc.site = some site) (hne : site ≠ .handler)
      (hadopt : a.adopting = none) : Transition beh a .panic a.die [.panicked site]

variable {beh : Behaviour S M I} {a b : Actor S M I} {events : List (Event S M I)}

theorem transition_of_pollSignals {now : ℕ} {kept : List ℕ} (hpc : a.pc = .polling [] kept false)
    (h : pollSignals { a with streams := kept } = (b, events)) :
    Transition beh a (.poll now) b events := by
  simp only [pollSignals] at h
  split at h
  · rename_i hshutdown
    cases h
    exact .shutdownTaken now kept hpc hshutdown
  · rename_i hshutdown
    rw [Bool.not_eq_true] at hshutdown
    split at h
    · rename_i hstop
      cases h
      exact .stopTaken now kept hpc hshutdown hstop
    · rename_i hstop
      rw [Bool.not_eq_true] at hstop
      split at h <;> rename_i hescalate <;> cases h
      · exact .escalateTaken now kept hpc hshutdown hstop hescalate
      · exact .pending now kept hpc hshutdown hstop (by simpa using hescalate)

theorem transition_of_applyStrategy {now : ℕ} {strategy : SupervisorStrategy}
    (hpc : a.pc = .deciding true) (hrole : a.role = .child strategy)
    (h : applyStrategy beh a now strategy = (b, events)) :
    Transition beh a (.poll now) b events := by
  cases strategy with
  | stop =>
      cases h
      exact .stopFailed now hpc hrole
  | restart maxRestarts within =>
      simp only [applyStrategy] at h
      split at h
      · rename_i tracker htracker
        split at h <;> rename_i haccepted <;> cases h
        · exact .restart now _ _ tracker hpc hrole htracker haccepted
        · exact .exceeded now _ _ tracker hpc hrole htracker (by simpa using haccepted)
      · cases h
        exact .restartUntracked now _ _ hpc hrole (by assumption)
  | escalate =>
      cases h
      exact .escalateFailed now hpc hrole

theorem transition_of_poll {now : ℕ} (h : poll beh a now = some (b, events)) :
    Transition beh a (.poll now) b events := by
  simp only [poll] at h
  split at h
  · rename_i hpc
    split at h <;> rename_i hrole <;> cases h
    · exact .begin now _ hpc hrole
    · exact .beginTop now hpc hrole
  · cases h
    exact .select now (by assumption)
  · rename_i hpc
    split at h <;> rename_i hmailbox <;> cases h
    · exact .take now _ _ hpc hmailbox
    · exact .pollStreams now hpc hmailbox
  · rename_i hpc
    split at h <;> rename_i hready <;> cases h
    · exact .streamPending now _ _ _ _ hpc hready
    · exact .streamItem now _ _ _ _ _ _ hpc hready
    · exact .streamEnd now _ _ _ _ _ hpc hready
  · rename_i hpc
    split at h
    · rename_i hany
      subst hany
      cases h
      exact .streamsReady now _ hpc
    · rename_i hany
      rw [Bool.not_eq_true] at hany
      subst hany
      exact transition_of_pollSignals hpc (Option.some.inj h)
  · cases h
    exact .reap now _ (by assumption)
  · rename_i hpc
    split at h
    · rename_i hrole
      exact transition_of_applyStrategy hpc hrole (Option.some.inj h)
    · rename_i failed _ _ hnot
      cases h
      refine .quit now failed hpc ?_
      cases hrole : a.role with
      | topLevel => exact .inl rfl
      | child strategy =>
          cases failed with
          | false => exact .inr rfl
          | true => exact absurd rfl (hnot strategy hrole)
  · rename_i hpc
    cases h
    split <;> rename_i hrole
    · exact .announce now _ _ hpc hrole
    · exact .announceTop now _ hpc hrole
  · cases h

theorem transition_of_ret (h : ret beh a = some (b, events)) (hadopt : a.adopting = none) :
    Transition beh a .ret b events := by
  simp only [ret] at h
  split at h <;> rename_i hpc
  · cases h
    exact .retStarted hpc hadopt
  · cases h
    exact .retHandler _ hpc hadopt
  · cases h
    exact .retItem _ _ _ _ hpc hadopt
  · cases h
    exact .retFinished _ _ _ hpc hadopt
  · cases h
    split <;> rename_i hrole
    · exact .retStopped _ _ hpc hrole hadopt
    · exact .retStoppedTop _ hpc hrole hadopt
  · cases h

theorem transition_of_panic (h : panic a = some (b, events)) (hadopt : a.adopting = none) :
    Transition beh a .panic b events := by
  simp only [panic] at h
  split at h
  · rename_i hsite
    cases h
    cases hpc : a.pc <;> simp [hpc, Pc.site] at hsite
    exact .panicHandler _ hpc hadopt
  · rename_i site hne hsite
    cases h
    exact .panicElsewhere site hsite hne hadopt
  · cases h

theorem transition_of_step {i : Input M I} (h : step beh a i = some (b, events)) :
    Transition beh a i b events := by
  cases i with
  | deliver m =>
      simp only [step] at h
      split at h
      · rename_i hdeliver
        cases h
        exact .deliver m hdeliver.1 hdeliver.2
      · cases h
  | requestStop => cases h; exact .requestStop
  | shutdown => cases h; exact .shutdown
  | escalation n =>
      simp only [step] at h
      split at h
      · rename_i hn
        subst hn
        cases h
        exact .escalation
      · cases h
        exact .oldEscalation n (by assumption)
  | watch w => cases h; exact .watch w
  | streamReady id r => cases h; exact .streamReady id r
  | poll now => exact transition_of_poll h
  | spawn c =>
      simp only [step] at h
      split at h
      · rename_i hspawn
        cases h
        exact .spawn c hspawn.1 hspawn.2
      · cases h
  | adopt =>
      simp only [step] at h
      split at h
      · cases h
        exact .adopt _ (by assumption)
      · cases h
  | addStream id =>
      simp only [step] at h
      split at h
      · rename_i hadd
        cases h
        exact .addStream id hadd.1 hadd.2
      · cases h
  | ret =>
      simp only [step] at h
      split at h
      · exact transition_of_ret h (by assumption)
      · cases h
  | panic =>
      simp only [step] at h
      split at h
      · exact transition_of_panic h (by assumption)
      · cases h

theorem role_of_transition {i : Input M I} (h : Transition beh a i b events) : b.role = a.role := by
  cases h <;> rfl

theorem capacity_of_transition {i : Input M I} (h : Transition beh a i b events) :
    b.capacity = a.capacity := by
  cases h <;> rfl

theorem dead_of_transition {i : Input M I} (h : Transition beh a i b events)
    (hdead : a.pc = .dead) : b.pc = .dead := by
  cases h with
  | deliver | requestStop | shutdown | escalation | oldEscalation | watch | streamReady | spawn |
    adopt | addStream =>
      exact hdead
  | panicElsewhere => rfl
  | _ => simp_all

end Actor

end Cineyma.Runtime
