import Cineyma.Runtime.Failures
import Cineyma.Runtime.Notices

/-!
# Top-level actors and children

The source has the loop of an actor twice, for a top-level actor and for a child. Fed with the same
inputs, the two do the same until they leave the loop. Then a child signals its children, calls
`stopped` and notifies its watchers, and a top-level actor notifies its watchers first.
-/

namespace Cineyma.Runtime

open StepSystem

variable {S M I : Type}

/-- The factory of a child has no counterpart, and the verdict is a line on the standard error. -/
def Event.observable : Event S M I → Bool
  | .factory _ | .verdict _ => false
  | _ => true

/-- What others see. -/
def seen (trace : List (Event S M I)) : List (Event S M I) := trace.filter Event.observable

theorem seen_append (xs ys : List (Event S M I)) : seen (xs ++ ys) = seen xs ++ seen ys :=
  List.filter_append xs ys

/-! ## The same loop -/

/-- Until the watchers of a top-level actor are notified. -/
def Pc.early : Pc M I → Bool
  | .reaping _ | .stopping _ | .deciding _ | .ended | .dead => false
  | _ => true

/-- Where a child is when a top-level actor is about to notify its watchers. -/
def Pc.asChild : Pc M I → Pc M I
  | .announcing failed => .reaping failed
  | pc => pc

namespace Actor

def asChild (a : Actor S M I) : Actor S M I :=
  { a with role := .child .stop, pc := a.pc.asChild }

/-- What the factory and the fresh context of a child give is what a top-level actor starts with. -/
structure Unstarted (beh : Behaviour S M I) (a : Actor S M I) : Prop where
  generation : a.generation = 0
  state : a.state = beh.factory 0
  children : a.children = []
  adopting : a.adopting = none
  escalate : a.escalate = .new
  streams : a.streams = []
  added : a.added = []

variable {beh : Behaviour S M I} {a b : Actor S M I} {i : Input M I} {events : List (Event S M I)}

theorem site_asChild (pc : Pc M I) : pc.asChild.site = pc.site := by
  cases pc <;> rfl

theorem alive_asChild (pc : Pc M I) : pc.asChild.alive = pc.alive := by
  cases pc <;> rfl

theorem Unstarted.instantiate_asChild (h : Unstarted beh a) (hpc : a.pc = .spawned) :
    instantiate beh a.asChild 0 = asChild { a with pc := .starting } := by
  obtain ⟨hgeneration, hstate, hchildren, hadopting, hescalate, hstreams, hadded⟩ := h
  cases a
  simp only at hgeneration hstate hchildren hadopting hescalate hstreams hadded hpc
  subst_vars
  rfl

/-- Only a child decides what to do about a failure. -/
structure TopLevel (a : Actor S M I) : Prop where
  role : a.role = .topLevel
  undecided : ∀ failed, a.pc ≠ .deciding failed

theorem TopLevel.step (htop : a.TopLevel) (h : Transition beh a i b events) : b.TopLevel := by
  obtain ⟨hrole, hpc⟩ := htop
  refine ⟨(role_of_transition h).trans hrole, ?_⟩
  cases h with
  | shutdownTaken | stopTaken | escalateTaken | panicHandler =>
      simp [leave, dropFutures, hrole]
  | retStopped failed strategy _ hchild _ => simp [hrole] at hchild
  | _ => simp_all [finish, die]

/-- A top-level actor notifies its watchers once. -/
theorem early_of_transition (htop : a.TopLevel) (h : Transition beh a i b events)
    (hb : b.pc.early = true) :
    a.pc.early = true ∧ ∀ failed now, a.pc = .announcing failed → i ≠ .poll now := by
  obtain ⟨hrole, hundecided⟩ := htop
  cases h with
  | announceTop now failed hpc _ => simp [Pc.early] at hb
  | quit now failed hpc _ => exact absurd hpc (hundecided failed)
  | _ => simp_all [Pc.early, finish, die]

theorem terminated_notMem_of_early (htop : a.TopLevel) (h : Transition beh a i b events)
    (hb : b.pc.early = true) (w : ℕ) : .terminated w ∉ events := by
  have hrole := htop.role
  cases h with
  | announce => simp_all
  | announceTop => simp [Pc.early] at hb
  | _ => simp

/-- One step of the two loops. -/
theorem step_asChild (htop : a.TopLevel) (hb : b.pc.early = true)
    (hfirst : a.pc = .spawned → Unstarted beh a) (h : step beh a i = some (b, events)) :
    ∃ events', step beh a.asChild i = some (b.asChild, events') ∧ seen events' = seen events := by
  obtain ⟨hearly, hannounced⟩ := early_of_transition htop (transition_of_step h) hb
  have hrole := htop.role
  cases transition_of_step h with
  | deliver m halive hroom =>
      exact ⟨[], by simp [step, asChild, alive_asChild, halive, hroom], rfl⟩
  | requestStop | shutdown | watch | streamReady => exact ⟨[], rfl, rfl⟩
  | escalation => exact ⟨[], by simp [step, asChild], rfl⟩
  | oldEscalation n hn => exact ⟨[], by simp [step, asChild, hn], rfl⟩
  | begin now strategy hpc hchild => simp [hrole] at hchild
  | beginTop now hpc _ =>
      refine ⟨[.factory 0, .started], ?_, rfl⟩
      have hpc' : a.asChild.pc = .spawned := by simp [asChild, hpc, Pc.asChild]
      have hrole' : a.asChild.role = .child .stop := rfl
      simp only [step, poll, hpc', hrole', (hfirst hpc).instantiate_asChild hpc]
  | select now hpc => exact ⟨[], by simp [step, poll, asChild, hpc, Pc.asChild], rfl⟩
  | take now m rest hpc hmailbox =>
      exact ⟨[.handed m a.state],
        by simp [step, poll, asChild, hpc, hmailbox, Pc.asChild, dropFutures], rfl⟩
  | pollStreams now hpc hmailbox =>
      exact ⟨[], by simp [step, poll, asChild, hpc, hmailbox, Pc.asChild], rfl⟩
  | streamPending now id todo kept any hpc hready =>
      exact ⟨[], by simp [step, poll, asChild, hpc, hready, Pc.asChild], rfl⟩
  | streamItem now id todo kept any x rest hpc hready =>
      exact ⟨[.item id x], by simp [step, poll, asChild, hpc, hready, Pc.asChild], rfl⟩
  | streamEnd now id todo kept any rest hpc hready =>
      exact ⟨[.finished id], by simp [step, poll, asChild, hpc, hready, Pc.asChild], rfl⟩
  | streamsReady now kept hpc =>
      exact ⟨[], by simp [step, poll, asChild, hpc, Pc.asChild, dropFutures], rfl⟩
  | shutdownTaken now kept hpc hshutdown =>
      refine ⟨[], ?_, rfl⟩
      simp [step, poll, pollSignals, asChild, hpc, Pc.asChild, hshutdown, dropFutures, leave, hrole]
  | stopTaken now kept hpc hshutdown hstop =>
      refine ⟨[], ?_, rfl⟩
      simp [step, poll, pollSignals, asChild, hpc, Pc.asChild, hshutdown, hstop, dropFutures, leave,
        hrole]
  | escalateTaken now kept hpc hshutdown hstop hescalate =>
      refine ⟨[.escalated], ?_, rfl⟩
      simp [step, poll, pollSignals, asChild, hpc, Pc.asChild, hshutdown, hstop, hescalate,
        dropFutures, leave, hrole]
  | pending now kept hpc hshutdown hstop hescalate =>
      refine ⟨[], ?_, rfl⟩
      simp [step, poll, pollSignals, asChild, hpc, Pc.asChild, hshutdown, hstop, hescalate]
  | announce now failed strategy hpc hchild => simp [hrole] at hchild
  | announceTop now failed hpc _ => exact absurd rfl (hannounced failed now hpc)
  | spawn c hsite hadopt => exact ⟨[], by simp [step, asChild, site_asChild, hsite, hadopt], rfl⟩
  | adopt c hadopt => exact ⟨[.adopted c], by simp [step, asChild, hadopt], rfl⟩
  | addStream id hsite hadopt =>
      exact ⟨[], by simp [step, asChild, site_asChild, hsite, hadopt], rfl⟩
  | retStarted hpc hadopt =>
      exact ⟨[], by simp [step, ret, asChild, hpc, Pc.asChild, hadopt], rfl⟩
  | retHandler m hpc hadopt =>
      exact ⟨[.handled m], by simp [step, ret, asChild, hpc, Pc.asChild, hadopt], rfl⟩
  | retItem id x todo kept hpc hadopt =>
      exact ⟨[], by simp [step, ret, asChild, hpc, Pc.asChild, hadopt], rfl⟩
  | retFinished todo kept any hpc hadopt =>
      exact ⟨[], by simp [step, ret, asChild, hpc, Pc.asChild, hadopt], rfl⟩
  | panicHandler m hpc hadopt =>
      refine ⟨[.panicked .handler], ?_, rfl⟩
      simp [step, panic, asChild, hpc, Pc.asChild, Pc.site, hadopt, leave, hrole]
  | panicElsewhere site hsite hne hadopt => simp [die, finish, Pc.early] at hb
  | _ => simp_all [Pc.early]

/-- Nobody has the escalate signal of an actor that has not started. -/
def Unheard (x : Actor S M I × List (Event S M I)) (i : Input M I) : Prop :=
  ∀ n, i = .escalation n → x.1.pc ≠ .spawned

theorem Unstarted.step (h : a.pc = .spawned → Unstarted beh a)
    (hunheard : ∀ n, i = .escalation n → a.pc ≠ .spawned) (hstep : Transition beh a i b events) :
    b.pc = .spawned → Unstarted beh b := by
  intro hb
  cases hstep with
  | deliver | requestStop | shutdown | watch | streamReady =>
      obtain ⟨hgeneration, hstate, hchildren, hadopting, hescalate, hstreams, hadded⟩ := h hb
      exact ⟨hgeneration, hstate, hchildren, hadopting, hescalate, hstreams, hadded⟩
  | escalation | oldEscalation => exact absurd hb (hunheard _ rfl)
  | shutdownTaken | stopTaken | escalateTaken | panicHandler =>
      simp only [leave, dropFutures] at hb
      split at hb <;> cases hb
  | spawn | addStream => simp_all [Pc.site]
  | adopt c hadopt => simp [(h hb).adopting] at hadopt
  | _ => cases hb

variable {capacity : ℕ} {inputs : List (Input M I)} {trace : List (Event S M I)}

theorem topLevel_of_run
    (hrun : run (traced (step beh)) (spawned beh .topLevel capacity, []) inputs = some (a, trace)) :
    a.TopLevel :=
  traced_history (P := fun _ a _ ↦ a.TopLevel) ⟨rfl, fun _ h ↦ by cases h⟩
    (fun _ _ _ _ _ _ h hstep ↦ h.step (transition_of_step hstep)) hrun

theorem unstarted_of_run
    (hrun : run (traced (step beh)) (spawned beh .topLevel capacity, []) inputs = some (a, trace))
    (hunheard : Along (traced (step beh)) Unheard (spawned beh .topLevel capacity, []) inputs) :
    a.pc = .spawned → Unstarted beh a := by
  refine Along.invariant (P := fun x ↦ x.1.pc = .spawned → Unstarted beh x.1) ?_
    (fun _ ↦ ⟨rfl, rfl, rfl, rfl, rfl, rfl, rfl⟩) hunheard hrun
  rintro ⟨a, before⟩ i ⟨b, after⟩ h hi hstep
  obtain ⟨events, hemit, rfl⟩ := traced_eq_some.mp hstep
  exact Unstarted.step h hi (transition_of_step hemit)

/-- The two loops on the same inputs. -/
theorem run_asChild
    (hrun : run (traced (step beh)) (spawned beh .topLevel capacity, []) inputs = some (a, trace))
    (hunheard : Along (traced (step beh)) Unheard (spawned beh .topLevel capacity, []) inputs)
    (hearly : a.pc.early = true) :
    ∃ trace', run (traced (step beh)) (spawned beh (.child .stop) capacity, []) inputs =
      some (a.asChild, trace') ∧ seen trace' = seen trace ∧ ∀ w, .terminated w ∉ trace := by
  induction inputs using List.reverseRecOn generalizing a trace with
  | nil =>
      cases hrun
      exact ⟨[], rfl, rfl, fun _ ↦ List.not_mem_nil⟩
  | append_singleton inputs i ih =>
      obtain ⟨⟨a₀, before⟩, hbefore, hlast⟩ := run_concat_eq_some.mp hrun
      obtain ⟨events, hstep, rfl⟩ := traced_eq_some.mp hlast
      have hunheard' := hunheard.of_prefix (List.prefix_append inputs [i])
      have htop := topLevel_of_run hbefore
      obtain ⟨hearly₀, -⟩ := early_of_transition htop (transition_of_step hstep) hearly
      obtain ⟨before', hrun', hseen, hnotices⟩ := ih hbefore hunheard' hearly₀
      obtain ⟨events', hstep', hseen'⟩ :=
        step_asChild htop hearly (unstarted_of_run hbefore hunheard') hstep
      refine ⟨before' ++ events', ?_, ?_, fun w hw ↦ ?_⟩
      · exact run_concat_eq_some.mpr ⟨_, hrun', traced_eq_some.mpr ⟨events', hstep', rfl⟩⟩
      · rw [seen_append, seen_append, hseen, hseen']
      · rcases List.mem_append.mp hw with hw | hw
        · exact hnotices w hw
        · exact terminated_notMem_of_early htop (transition_of_step hstep) hearly w hw

/-! ## The two endings -/

/-- The child that the user code is spawning, and those that it has adopted. -/
def adoptStep : Option ℕ × List ℕ → Input M I → Option ℕ × List ℕ
  | (_, cs), .spawn c => (some c, cs)
  | (some c, cs), .adopt => (none, cs ++ [c])
  | s, _ => s

def adoptions (inputs : List (Input M I)) : Option ℕ × List ℕ := inputs.foldl adoptStep (none, [])

/-- What others do, and user code; the steps of the task itself are left out. -/
def external (inputs : List (Input M I)) : List (Input M I) :=
  inputs.filter fun i ↦ match i with
    | .poll _ => false
    | _ => true

theorem adoptions_external (inputs : List (Input M I)) :
    adoptions (external inputs) = adoptions inputs := by
  rw [adoptions, external, List.foldl_filter, adoptions]
  congr 1
  funext s i
  cases i <;> simp [adoptStep]

/-- The step changes nothing of how an actor ends. -/
structure Idles (a : Actor S M I) (i : Input M I) (b : Actor S M I) (events : List (Event S M I)) :
    Prop where
  pc : b.pc = a.pc
  children : b.children = a.children
  adopting : b.adopting = a.adopting
  events : events = []
  adoptStep : ∀ s, adoptStep s i = s

/-- Outside user code, only a step of the task itself changes how the actor ends. -/
theorem poll_or_idles (hsite : a.pc.site = none) (hadopting : a.adopting = none)
    (h : step beh a i = some (b, events)) : (∃ now, i = .poll now) ∨ Idles a i b events := by
  cases transition_of_step h with
  | deliver | requestStop | shutdown | escalation | oldEscalation | watch | streamReady =>
      exact .inr ⟨rfl, rfl, rfl, rfl, fun _ ↦ by simp [Actor.adoptStep]⟩
  | spawn | addStream | panicElsewhere => simp_all
  | adopt => simp_all
  | retStarted | retHandler | retItem | retFinished | retStopped | retStoppedTop | panicHandler =>
      simp_all [Pc.site]
  | _ => exact .inl ⟨_, rfl⟩

/-- While `stopped` runs. -/
theorem stopping_step {failed : Bool} (hpc : a.pc = .stopping failed)
    (h : step beh a i = some (b, events)) :
    (∃ late, b.pc = .stopping failed ∧ seen events = late.map .adopted ∧
      ∀ cs, Actor.adoptStep (a.adopting, cs) i = (b.adopting, cs ++ late)) ∨
    (i = .ret ∧ a.adopting = none ∧ b.adopting = none ∧ events = [] ∧
      b.pc = match a.role with
        | .child _ => .deciding failed
        | .topLevel => .ended) ∨
    b.pc = .dead := by
  cases transition_of_step h with
  | deliver | requestStop | shutdown | escalation | oldEscalation | watch | streamReady |
    addStream =>
      exact .inl ⟨[], hpc, rfl, fun cs ↦ by simp [Actor.adoptStep]⟩
  | spawn c _ _ => exact .inl ⟨[], hpc, rfl, fun cs ↦ by simp [Actor.adoptStep]⟩
  | adopt c hadopting =>
      exact .inl ⟨[c], hpc, rfl, fun cs ↦ by simp [Actor.adoptStep, hadopting]⟩
  | retStopped failed' strategy hpc' hrole hadopting =>
      cases hpc.symm.trans hpc'
      exact .inr (.inl ⟨rfl, hadopting, hadopting, rfl, by rw [hrole]⟩)
  | retStoppedTop failed' hpc' hrole hadopting =>
      exact .inr (.inl ⟨rfl, hadopting, hadopting, rfl, by rw [hrole]; rfl⟩)
  | panicElsewhere => exact .inr (.inr rfl)
  | _ => simp_all

/-- From where a top-level actor leaves its loop with children `cs`: where it is, what others have
seen since, and the adoptions of `stopped`. -/
inductive TopEnding (cs : List ℕ) :
    Pc M I → List ℕ → Option ℕ → Option ℕ × List ℕ → List (Event S M I) → Prop
  | announcing (failed : Bool) : TopEnding cs (.announcing failed) cs none (none, []) []
  | reaping (failed : Bool) (ws : List ℕ) :
      TopEnding cs (.reaping failed) cs none (none, []) (ws.map .terminated)
  | stopping (failed : Bool) (ws children late : List ℕ) (adopting : Option ℕ) :
      TopEnding cs (.stopping failed) children adopting (adopting, late)
        (ws.map .terminated ++ closeDown cs late)
  | ended (ws children late : List ℕ) :
      TopEnding cs .ended children none (none, late) (ws.map .terminated ++ closeDown cs late)
  | dead (children : List ℕ) (adopting : Option ℕ) (s : Option ℕ × List ℕ)
      (events : List (Event S M I)) : TopEnding cs .dead children adopting s events

/-- The same for a child. -/
inductive ChildEnding (cs : List ℕ) :
    Pc M I → List ℕ → Option ℕ → Option ℕ × List ℕ → List (Event S M I) → Prop
  | reaping (failed : Bool) : ChildEnding cs (.reaping failed) cs none (none, []) []
  | stopping (failed : Bool) (children late : List ℕ) (adopting : Option ℕ) :
      ChildEnding cs (.stopping failed) children adopting (adopting, late) (closeDown cs late)
  | deciding (failed : Bool) (children late : List ℕ) :
      ChildEnding cs (.deciding failed) children none (none, late) (closeDown cs late)
  | announcing (failed : Bool) (children late : List ℕ) :
      ChildEnding cs (.announcing failed) children none (none, late) (closeDown cs late)
  | ended (ws children late : List ℕ) :
      ChildEnding cs .ended children none (none, late) (closeDown cs late ++ ws.map .terminated)
  | dead (children : List ℕ) (adopting : Option ℕ) (s : Option ℕ × List ℕ)
      (events : List (Event S M I)) : ChildEnding cs .dead children adopting s events

variable {cs : List ℕ} {s : Option ℕ × List ℕ} {before : List (Event S M I)}

theorem Idles.ending
    {E : Pc M I → List ℕ → Option ℕ → Option ℕ × List ℕ → List (Event S M I) → Prop}
    (hidles : Idles a i b events) (hend : E a.pc a.children a.adopting s before) :
    E b.pc b.children b.adopting (Actor.adoptStep s i) (before ++ seen events) := by
  rw [hidles.pc, hidles.children, hidles.adopting, hidles.events, hidles.adoptStep]
  simpa [seen] using hend

theorem TopEnding.of_ended (hend : TopEnding cs a.pc a.children a.adopting s before)
    (hpc : a.pc = .ended) : ∃ ws : List ℕ, before = ws.map .terminated ++ closeDown cs s.2 := by
  rw [hpc] at hend
  generalize a.children = children at hend
  generalize a.adopting = adopting at hend
  cases hend with
  | ended ws children late => exact ⟨ws, rfl⟩

theorem ChildEnding.of_ended (hend : ChildEnding cs a.pc a.children a.adopting s before)
    (hpc : a.pc = .ended) : ∃ ws : List ℕ, before = closeDown cs s.2 ++ ws.map .terminated := by
  rw [hpc] at hend
  generalize a.children = children at hend
  generalize a.adopting = adopting at hend
  cases hend with
  | ended ws children late => exact ⟨ws, rfl⟩

theorem seen_terminated (ws : List ℕ) :
    seen (ws.map .terminated : List (Event S M I)) = ws.map .terminated :=
  List.filter_eq_self.mpr (by simp [Event.observable])

theorem seen_reap (cs : List ℕ) :
    seen (cs.map .stopChild ++ [Event.stopped] : List (Event S M I)) = closeDown cs [] := by
  refine List.filter_eq_self.mpr fun e he ↦ ?_
  rcases List.mem_append.mp he with he | he
  · obtain ⟨c, -, rfl⟩ := List.mem_map.mp he
    rfl
  · cases List.mem_singleton.mp he
    rfl

theorem closeDown_append (cs late late' : List ℕ) :
    (closeDown cs (late ++ late') : List (Event S M I)) =
      closeDown cs late ++ late'.map .adopted := by
  simp [closeDown]

theorem TopEnding.step (hrole : a.role = .topLevel)
    (hend : TopEnding cs a.pc a.children a.adopting s before)
    (h : step beh a i = some (b, events)) :
    TopEnding cs b.pc b.children b.adopting (adoptStep s i) (before ++ seen events) := by
  have hidle : Idles a i b events →
      TopEnding cs b.pc b.children b.adopting (adoptStep s i) (before ++ seen events) :=
    fun hidles ↦ hidles.ending hend
  generalize hpc : a.pc = pc at hend
  generalize hcs : a.children = children at hend
  generalize hadopting : a.adopting = adopting at hend
  cases hend with
  | announcing failed =>
      obtain ⟨now, rfl⟩ | hidles := poll_or_idles (by simp [hpc, Pc.site]) hadopting h
      · simp only [Actor.step, poll, hpc, hrole] at h
        cases h
        rw [seen_terminated, hcs, hadopting]
        exact .reaping failed a.watchers
      · exact hidle hidles
  | reaping failed ws =>
      obtain ⟨now, rfl⟩ | hidles := poll_or_idles (by simp [hpc, Pc.site]) hadopting h
      · simp only [Actor.step, poll, hpc] at h
        cases h
        rw [seen_reap, hcs, hadopting]
        exact .stopping failed ws _ [] none
      · exact hidle hidles
  | stopping failed ws children late adopting =>
      obtain ⟨more, hb, hseen, hadopt⟩ | ⟨rfl, hnone, hb', rfl, hb⟩ | hb := stopping_step hpc h
      · rw [← hadopting, hadopt, hb, hseen, List.append_assoc, ← closeDown_append]
        exact .stopping failed ws _ _ _
      · rw [hrole] at hb
        rw [hnone] at hadopting
        subst hadopting
        rw [hb, hb', seen, List.filter_nil, List.append_nil]
        exact .ended ws _ late
      · rw [hb]
        exact .dead _ _ _ _
  | ended ws children late =>
      obtain ⟨now, rfl⟩ | hidles := poll_or_idles (by simp [hpc, Pc.site]) hadopting h
      · simp [Actor.step, poll, hpc] at h
      · exact hidle hidles
  | dead children adopting s _ =>
      rw [dead_of_transition (transition_of_step h) hpc]
      exact .dead _ _ _ _

theorem ChildEnding.step (hrole : a.role = .child .stop)
    (hend : ChildEnding cs a.pc a.children a.adopting s before)
    (h : step beh a i = some (b, events)) :
    ChildEnding cs b.pc b.children b.adopting (adoptStep s i) (before ++ seen events) := by
  have hidle : Idles a i b events →
      ChildEnding cs b.pc b.children b.adopting (adoptStep s i) (before ++ seen events) :=
    fun hidles ↦ hidles.ending hend
  generalize hpc : a.pc = pc at hend
  generalize hcs : a.children = children at hend
  generalize hadopting : a.adopting = adopting at hend
  cases hend with
  | reaping failed =>
      obtain ⟨now, rfl⟩ | hidles := poll_or_idles (by simp [hpc, Pc.site]) hadopting h
      · simp only [Actor.step, poll, hpc] at h
        cases h
        rw [seen_reap, hcs, hadopting]
        exact .stopping failed _ [] none
      · exact hidle hidles
  | stopping failed children late adopting =>
      obtain ⟨more, hb, hseen, hadopt⟩ | ⟨rfl, hnone, hb', rfl, hb⟩ | hb := stopping_step hpc h
      · rw [← hadopting, hadopt, hb, hseen, ← closeDown_append]
        exact .stopping failed _ _ _
      · rw [hrole] at hb
        rw [hnone] at hadopting
        subst hadopting
        rw [hb, hb', seen, List.filter_nil, List.append_nil]
        exact .deciding failed _ late
      · rw [hb]
        exact .dead _ _ _ _
  | deciding failed children late =>
      obtain ⟨now, rfl⟩ | hidles := poll_or_idles (by simp [hpc, Pc.site]) hadopting h
      · simp only [Actor.step, poll, hpc, hrole] at h
        cases failed with
        | false =>
            cases h
            rw [hadopting, seen, List.filter_nil, List.append_nil]
            exact .announcing false _ late
        | true =>
            cases h
            rw [hadopting]
            change ChildEnding cs _ _ _ _ (closeDown cs late ++ [])
            rw [List.append_nil]
            exact .announcing true _ late
      · exact hidle hidles
  | announcing failed children late =>
      obtain ⟨now, rfl⟩ | hidles := poll_or_idles (by simp [hpc, Pc.site]) hadopting h
      · simp only [Actor.step, poll, hpc, hrole] at h
        cases h
        have hadopting' : (a.finish .ended).adopting = none := hadopting
        rw [seen_terminated, hadopting']
        exact .ended a.watchers _ late
      · exact hidle hidles
  | ended ws children late =>
      obtain ⟨now, rfl⟩ | hidles := poll_or_idles (by simp [hpc, Pc.site]) hadopting h
      · simp [Actor.step, poll, hpc] at h
      · exact hidle hidles
  | dead children adopting s _ =>
      rw [dead_of_transition (transition_of_step h) hpc]
      exact .dead _ _ _ _

/-! ## Complete runs -/

variable {failed : Bool}

/-- What every step keeps while it extends what others have seen holds after a run. -/
theorem ending_of_run {E : Actor S M I → Option ℕ × List ℕ → List (Event S M I) → Prop}
    (hstart : E a (none, []) [])
    (hstep : ∀ {c d : Actor S M I} {i events s after}, c.role = a.role → E c s after →
      step beh c i = some (d, events) → E d (adoptStep s i) (after ++ seen events))
    (hrun : run (traced (step beh)) (a, before) inputs = some (b, trace)) :
    ∃ after, seen trace = seen before ++ after ∧ E b (adoptions inputs) after := by
  refine (run_history (P := fun inputs x ↦ x.1.role = a.role ∧
    ∃ after, seen x.2 = seen before ++ after ∧ E x.1 (adoptions inputs) after) ?_ ?_ hrun).2
  · exact ⟨rfl, [], (List.append_nil _).symm, hstart⟩
  · rintro inputs ⟨c, middle⟩ i ⟨d, trace⟩ ⟨hrole, after, hseen, hend⟩ - hlast
    obtain ⟨events, hemit, rfl⟩ := traced_eq_some.mp hlast
    have hrole' := (role_of_transition (transition_of_step hemit)).trans hrole
    refine ⟨hrole', after ++ seen events, ?_, ?_⟩
    · rw [seen_append, hseen, List.append_assoc]
    · rw [adoptions, List.foldl_concat]
      exact hstep hrole hend hemit

theorem topEnding_of_run (hrole : a.role = .topLevel) (hpc : a.pc = .announcing failed)
    (hadopting : a.adopting = none)
    (hrun : run (traced (step beh)) (a, before) inputs = some (b, trace)) :
    ∃ after, seen trace = seen before ++ after ∧
      TopEnding a.children b.pc b.children b.adopting (adoptions inputs) after := by
  refine ending_of_run (E := fun c ↦ TopEnding a.children c.pc c.children c.adopting)
    ?_ (fun hrole' hend ↦ hend.step (hrole'.trans hrole)) hrun
  rw [hpc, hadopting]
  exact .announcing failed

theorem childEnding_of_run (hrole : a.role = .child .stop) (hpc : a.pc = .reaping failed)
    (hadopting : a.adopting = none)
    (hrun : run (traced (step beh)) (a, before) inputs = some (b, trace)) :
    ∃ after, seen trace = seen before ++ after ∧
      ChildEnding a.children b.pc b.children b.adopting (adoptions inputs) after := by
  refine ending_of_run (E := fun c ↦ ChildEnding a.children c.pc c.children c.adopting)
    ?_ (fun hrole' hend ↦ hend.step (hrole'.trans hrole)) hrun
  rw [hpc, hadopting]
  exact .reaping failed

theorem mem_seen_terminated (trace : List (Event S M I)) (w : ℕ) :
    .terminated w ∈ seen trace ↔ .terminated w ∈ trace := by
  simp [seen, Event.observable]

/-- Notices before the close-down are not notices after it. -/
theorem notices_commute_iff {cs late ws ws' : List ℕ} :
    (ws.map .terminated ++ closeDown cs late : List (Event S M I)) =
      closeDown cs late ++ ws'.map .terminated ↔ ws = [] ∧ ws' = [] := by
  constructor
  · intro h
    cases ws with
    | nil =>
        refine ⟨rfl, ?_⟩
        simpa using h
    | cons w ws => cases cs <;> simp [closeDown] at h
  · rintro ⟨rfl, rfl⟩
    simp

theorem terminated_notMem_closeDown (cs late : List ℕ) (w : ℕ) :
    .terminated w ∉ (closeDown cs late : List (Event S M I)) := by
  simp [closeDown]

/-- A top-level actor leaves its loop after the inputs `pre`, and the rest of its inputs differs
from those of a child in the steps of the task only. A child with the inputs `pre` has done the
same, and is about to signal its children. When both have ended, they have done the same if and only
if no watcher was added, to the one or the other, before the poll at which it notified them. -/
theorem same_events_iff {pre tail tail' : List (Input M I)} {c : Actor S M I}
    {trace' : List (Event S M I)}
    (hpre : run (traced (step beh)) (spawned beh .topLevel capacity, []) pre = some (a, before))
    (hleft : a.pc = .announcing failed)
    (hunheard : Along (traced (step beh)) Unheard (spawned beh .topLevel capacity, []) pre)
    (htop : run (traced (step beh)) (spawned beh .topLevel capacity, []) (pre ++ tail) =
      some (b, trace)) (hb : b.pc = .ended)
    (hchild : run (traced (step beh)) (spawned beh (.child .stop) capacity, []) (pre ++ tail') =
      some (c, trace')) (hc : c.pc = .ended) (hsame : external tail = external tail') :
    (∃ before', run (traced (step beh)) (spawned beh (.child .stop) capacity, []) pre =
      some (a.asChild, before') ∧ seen before' = seen before) ∧
    (seen trace = seen trace' ↔ Unwatched beh .topLevel capacity (pre ++ tail) ∧
      Unwatched beh (.child .stop) capacity (pre ++ tail')) := by
  obtain ⟨before', hpre', hseen, hnotices⟩ := run_asChild hpre hunheard (by rw [hleft]; rfl)
  refine ⟨⟨before', hpre', hseen⟩, ?_⟩
  have hrole := (topLevel_of_run hpre).role
  have hadopting : a.adopting = none := by
    by_contra hnone
    exact adopting_of_run hpre hnone (by rw [hleft]; rfl)
  have hreaping : a.asChild.pc = .reaping failed := by
    rw [asChild, hleft]
    rfl
  obtain ⟨x, hx, htail⟩ := run_append_eq_some.mp htop
  cases hpre.symm.trans hx
  obtain ⟨x', hx', htail'⟩ := run_append_eq_some.mp hchild
  cases hpre'.symm.trans hx'
  obtain ⟨after, htrace, hend⟩ := topEnding_of_run hrole hleft hadopting htail
  obtain ⟨after', htrace', hend'⟩ := childEnding_of_run rfl hreaping hadopting htail'
  have hlate : adoptions tail = adoptions tail' := by
    rw [← adoptions_external tail, hsame, adoptions_external]
  obtain ⟨ws, hafter⟩ := hend.of_ended hb
  obtain ⟨ws', hafter'⟩ := hend'.of_ended hc
  have hcs : a.asChild.children = a.children := rfl
  rw [hcs, ← hlate] at hafter'
  have hiff : seen trace = seen trace' ↔ ws = [] ∧ ws' = [] := by
    rw [htrace, htrace', hseen, List.append_cancel_left_eq, hafter, hafter', notices_commute_iff]
  rw [hiff, unwatched_iff htop, unwatched_iff hchild, ← forall_and]
  constructor
  · rintro ⟨rfl, rfl⟩ w
    rw [← mem_seen_terminated trace, ← mem_seen_terminated trace', htrace, htrace', hseen, hafter,
      hafter']
    simp [mem_seen_terminated, hnotices w, terminated_notMem_closeDown]
  · intro h
    have hws : ∀ w ∈ ws, False := by
      intro w hw
      refine (h w).1 ((mem_seen_terminated _ w).mp ?_)
      rw [htrace, hafter]
      simp [hw]
    have hws' : ∀ w ∈ ws', False := by
      intro w hw
      refine (h w).2 ((mem_seen_terminated _ w).mp ?_)
      rw [htrace', hafter']
      simp [hw]
    exact ⟨List.eq_nil_iff_forall_not_mem.mpr hws, List.eq_nil_iff_forall_not_mem.mpr hws'⟩

/-- An actor handles a message, gets a stop signal and leaves its loop. -/
def stoppedInputs (watchers : List ℕ) : List (Input ℕ ℕ) :=
  watchers.map .watch ++ [.poll 0, .ret, .deliver 3, .poll 0, .poll 0, .ret, .requestStop, .poll 0,
    .poll 0, .poll 0]

def topTail : List (Input ℕ ℕ) := [.poll 0, .poll 0, .ret]

def childTail : List (Input ℕ ℕ) := [.poll 0, .ret, .poll 0, .poll 0]

theorem unwatched_actors_agree :
    ∃ b c trace trace',
      run (traced (step idle)) (spawned idle .topLevel 8, []) (stoppedInputs [] ++ topTail) =
        some (b, trace) ∧
      run (traced (step idle)) (spawned idle (.child .stop) 8, []) (stoppedInputs [] ++ childTail) =
        some (c, trace') ∧ seen trace = seen trace' := by
  have hleft : (run (traced (step idle)) (spawned idle .topLevel 8, []) (stoppedInputs [])).map
      (fun x ↦ x.1.pc) = some (.announcing false) := by
    decide +kernel
  have htop : (run (traced (step idle)) (spawned idle .topLevel 8, [])
      (stoppedInputs [] ++ topTail)).map (fun x ↦ (x.1.pc, x.2)) =
      some (.ended, [.started, .handed 3 (), .handled 3, .stopped]) := by
    decide +kernel
  have hchild : (run (traced (step idle)) (spawned idle (.child .stop) 8, [])
      (stoppedInputs [] ++ childTail)).map (fun x ↦ (x.1.pc, x.2)) =
      some (.ended, [.factory 0, .started, .handed 3 (), .handled 3, .stopped]) := by
    decide +kernel
  obtain ⟨⟨a, before⟩, ha, hpc⟩ := Option.map_eq_some_iff.mp hleft
  obtain ⟨⟨b, trace⟩, hb, hended⟩ := Option.map_eq_some_iff.mp htop
  obtain ⟨⟨c, trace'⟩, hc, hended'⟩ := Option.map_eq_some_iff.mp hchild
  obtain ⟨hpcb, htrace⟩ := Prod.mk.inj hended
  obtain ⟨hpcc, htrace'⟩ := Prod.mk.inj hended'
  have hunheard : Along (traced (step idle)) Unheard (spawned idle .topLevel 8, [])
      (stoppedInputs []) := by
    intro pre i x hpre _ n hi
    subst hi
    have hmem : .escalation n ∈ stoppedInputs [] := hpre.subset (by simp)
    simp [stoppedInputs] at hmem
  refine ⟨b, c, trace, trace', hb, hc, ?_⟩
  refine (same_events_iff ha hpc hunheard hb hpcb hc hpcc rfl).2.mpr ⟨?_, ?_⟩
  · intro before now after has _ w hw
    have hmem : .watch w ∈ stoppedInputs [] ++ topTail := by simp [has, hw]
    simp [stoppedInputs, topTail] at hmem
  · intro before now after has _ w hw
    have hmem : .watch w ∈ stoppedInputs [] ++ childTail := by simp [has, hw]
    simp [stoppedInputs, childTail] at hmem

/-- With one watcher, a top-level actor notifies it before `stopped` runs, and a child after. -/
theorem watched_actors_differ :
    ∃ b c trace trace',
      run (traced (step idle)) (spawned idle .topLevel 8, []) (stoppedInputs [7] ++ topTail) =
        some (b, trace) ∧ b.pc = .ended ∧
      run (traced (step idle)) (spawned idle (.child .stop) 8, [])
          (stoppedInputs [7] ++ childTail) = some (c, trace') ∧
      c.pc = .ended ∧ external topTail = external childTail ∧
      seen trace = [.started, .handed 3 (), .handled 3, .terminated 7, .stopped] ∧
      seen trace' = [.started, .handed 3 (), .handled 3, .stopped, .terminated 7] := by
  have htop : (run (traced (step idle)) (spawned idle .topLevel 8, [])
      (stoppedInputs [7] ++ topTail)).map (fun x ↦ (x.1.pc, seen x.2)) =
      some (.ended, [.started, .handed 3 (), .handled 3, .terminated 7, .stopped]) := by
    decide +kernel
  have hchild : (run (traced (step idle)) (spawned idle (.child .stop) 8, [])
      (stoppedInputs [7] ++ childTail)).map (fun x ↦ (x.1.pc, seen x.2)) =
      some (.ended, [.started, .handed 3 (), .handled 3, .stopped, .terminated 7]) := by
    decide +kernel
  obtain ⟨⟨b, trace⟩, hb, hended⟩ := Option.map_eq_some_iff.mp htop
  obtain ⟨⟨c, trace'⟩, hc, hended'⟩ := Option.map_eq_some_iff.mp hchild
  obtain ⟨hpcb, htrace⟩ := Prod.mk.inj hended
  obtain ⟨hpcc, htrace'⟩ := Prod.mk.inj hended'
  exact ⟨b, c, trace, trace', hb, hpcb, hc, hpcc, rfl, htrace, htrace'⟩

end Actor

end Cineyma.Runtime
