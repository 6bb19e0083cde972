import Cineyma.Foundations.Rounds
import Cineyma.Runtime.Lifecycle

/-!
# The streams of an actor

What the loop of an actor does with the streams that its context is given, as a log of rounds. The
loop takes new streams from the context at its top only, and a round in which every stream is
pending or has ended does not bring it back there.
-/

namespace Cineyma.Runtime

open StepSystem

variable {S M I : Type}

def Pc.roundPhase : Pc M I → Rounds.Phase ℕ
  | .spawned | .starting | .looping | .handling _ => .idle
  | .selecting => .selecting
  | .polling todo kept any => .round todo kept any
  | .item id _ todo kept => .round todo (kept ++ [id]) true
  | .finishing todo kept any => .round todo kept any
  | .reaping _ | .stopping _ | .deciding _ | .announcing _ | .ended | .dead => .closed

def Site.occasion : Site → Rounds.Occasion
  | .started | .handler => .idle
  | .item => .item
  | .finished => .finish
  | .stopped => .closed

/-- The results that the stream `id` gets ready. -/
def Input.supplied? (id : ℕ) : Input M I → Option (Option I)
  | .streamReady id' r => if id' = id then some r else none
  | _ => none

def Input.added? : Input M I → Option ℕ
  | .addStream id => some id
  | _ => none

/-- The items of the stream `id` that `handle` gets, and `none` for the call of `finished`. -/
def Event.served? (id : ℕ) : Event S M I → Option (Option I)
  | .item id' x => if id' = id then some (some x) else none
  | .finished id' => if id' = id then some none else none
  | _ => none

namespace Actor

def rounds (a : Actor S M I) : Rounds.State ℕ I := ⟨a.pc.roundPhase, a.streams, a.added, a.ready⟩

/-- What the step from `a` to `b` does with the streams. A round is a poll of the stream branch;
where there are no streams the source does not call `poll_streams`, and the round is empty. -/
def streamOps (a b : Actor S M I) : Input M I → List (Rounds.Op ℕ I)
  | .streamReady id r => [.supply id r]
  | .addStream id => a.pc.site.toList.map fun site ↦ .add id site.occasion
  | .panic => [.close]
  | .poll _ =>
      match a.pc with
      | .spawned =>
          match a.role with
          | .child _ => [.reset]
          | .topLevel => []
      | .looping => [.collect]
      | .selecting =>
          match a.mailbox with
          | [] => [.begin a.streams]
          | _ :: _ => [.leave]
      | .polling (id :: _) _ _ => [.poll id (a.ready id).head?]
      | .polling [] kept any =>
          -- a signal may end the loop after the round
          match b.pc with
          | .selecting | .looping => [.finish kept any]
          | _ => [.finish kept any, .close]
      | .deciding _ =>
          match b.pc with
          | .starting => [.reset]
          | _ => []
      | _ => []
  | _ => []

def streamLog (beh : Behaviour S M I) : Actor S M I → List (Input M I) → List (Rounds.Op ℕ I)
  | _, [] => []
  | a, i :: is =>
      match step beh a i with
      | some (b, _) => streamOps a b i ++ streamLog beh b is
      | none => []

variable {beh : Behaviour S M I} {a b : Actor S M I} {i : Input M I} {events : List (Event S M I)}

theorem rounds_leave (a : Actor S M I) (failed : Bool) :
    (a.leave failed).rounds = { a.rounds with phase := .closed } := by
  unfold leave rounds
  split <;> rfl

/-- The stream branch has been polled, and a signal ends the loop. -/
theorem streamOps_leave {now : ℕ} {kept : List ℕ} {any failed : Bool}
    (hpc : a.pc = .polling [] kept any) (c : Actor S M I) :
    streamOps a (c.leave failed) (.poll now) = [.finish kept any, .close] := by
  simp only [streamOps, hpc, leave]
  cases c.role <;> rfl

/-- A step of the actor is a step of the rounds, or nothing to them. -/
theorem rounds_of_transition [DecidableEq I] (h : Transition beh a i b events) :
    run Rounds.step a.rounds (streamOps a b i) = some b.rounds := by
  cases h with
  | deliver | requestStop | shutdown | escalation | oldEscalation | watch | streamReady | spawn
  | adopt => rfl
  | begin now strategy hpc hrole =>
      simp only [streamOps, hpc, hrole]
      rfl
  | beginTop now hpc hrole => simp [streamOps, rounds, hpc, hrole, Pc.roundPhase]
  | select now hpc => simp [streamOps, rounds, hpc, run, Rounds.step, Pc.roundPhase]
  | take now m rest hpc hmailbox =>
      simp only [streamOps, hpc, hmailbox]
      simp [rounds, hpc, run, Rounds.step, Pc.roundPhase, dropFutures]
  | pollStreams now hpc hmailbox =>
      simp [streamOps, rounds, hpc, hmailbox, run, Rounds.step, Pc.roundPhase]
  | streamPending now id todo kept any hpc hready =>
      have hsame : Function.update a.ready id [] = a.ready := by
        rw [← hready, Function.update_eq_self]
      simp [streamOps, rounds, hpc, hready, run, Rounds.step, Pc.roundPhase, Rounds.Phase.poll,
        hsame]
  | streamItem now id todo kept any x rest hpc hready =>
      simp [streamOps, rounds, hpc, hready, run, Rounds.step, Pc.roundPhase, Rounds.Phase.poll]
  | streamEnd now id todo kept any rest hpc hready =>
      simp [streamOps, rounds, hpc, hready, run, Rounds.step, Pc.roundPhase, Rounds.Phase.poll]
  | streamsReady now kept hpc =>
      simp [streamOps, rounds, hpc, run, Rounds.step, Pc.roundPhase, dropFutures]
  | shutdownTaken now kept hpc _ =>
      rw [streamOps_leave hpc, rounds_leave]
      simp [rounds, hpc, run, Rounds.step, Pc.roundPhase, dropFutures]
  | stopTaken now kept hpc _ _ =>
      rw [streamOps_leave hpc, rounds_leave]
      simp [rounds, hpc, run, Rounds.step, Pc.roundPhase, dropFutures]
  | escalateTaken now kept hpc _ _ _ =>
      rw [streamOps_leave hpc, rounds_leave]
      simp [rounds, hpc, run, Rounds.step, Pc.roundPhase, dropFutures]
  | pending now kept hpc _ _ _ =>
      simp [streamOps, rounds, hpc, run, Rounds.step, Pc.roundPhase]
  | reap now failed hpc => simp [streamOps, rounds, hpc, Pc.roundPhase]
  | quit now failed hpc _ => simp [streamOps, rounds, hpc, Pc.roundPhase]
  | stopFailed now hpc _ => simp [streamOps, rounds, hpc, Pc.roundPhase]
  | restart now maxRestarts within tracker hpc _ _ _ =>
      simp only [streamOps, hpc, instantiate]
      rfl
  | exceeded now maxRestarts within tracker hpc _ _ _ =>
      simp [streamOps, rounds, hpc, Pc.roundPhase]
  | restartUntracked now maxRestarts within hpc _ _ =>
      simp only [streamOps, hpc, instantiate]
      rfl
  | escalateFailed now hpc _ => simp [streamOps, rounds, hpc, Pc.roundPhase]
  | announce now failed strategy hpc _ => simp [streamOps, rounds, hpc, Pc.roundPhase, finish]
  | announceTop now failed hpc _ => simp [streamOps, rounds, hpc, Pc.roundPhase]
  | addStream id hsite _ =>
      obtain ⟨site, hsite⟩ := Option.isSome_iff_exists.mp hsite
      have hadmits : a.pc.roundPhase.admits site.occasion = true := by
        cases hpc : a.pc <;> simp only [hpc, Pc.site, reduceCtorEq, Option.some_inj] at hsite <;>
          cases hsite <;> rfl
      simp [streamOps, hsite, run, Rounds.step, rounds, hadmits]
  | retStarted hpc _ => simp [streamOps, rounds, hpc, Pc.roundPhase]
  | retHandler m hpc _ => simp [streamOps, rounds, hpc, Pc.roundPhase]
  | retItem id x todo kept hpc _ => simp [streamOps, rounds, hpc, Pc.roundPhase]
  | retFinished todo kept any hpc _ => simp [streamOps, rounds, hpc, Pc.roundPhase]
  | retStopped failed strategy hpc _ _ => simp [streamOps, rounds, hpc, Pc.roundPhase]
  | retStoppedTop failed hpc _ _ => simp [streamOps, rounds, hpc, Pc.roundPhase, finish]
  | panicHandler m hpc _ =>
      rw [rounds_leave]
      rfl
  | panicElsewhere site _ _ _ => rfl

/-- A stream gives its results where the stream handlers are called. -/
theorem given_of_transition (h : Transition beh a i b events) (id : ℕ) :
    (streamOps a b i).filterMap (Rounds.Op.given? id) = events.filterMap (Event.served? id) := by
  cases h with
  | streamPending now id' todo kept any hpc hready =>
      simp [streamOps, hpc, hready, Rounds.Op.given?]
  | streamItem now id' todo kept any x rest hpc hready =>
      simp only [streamOps, hpc, hready, List.filterMap_cons, Rounds.Op.given?, Event.served?,
        List.head?_cons, List.filterMap_nil]
  | streamEnd now id' todo kept any rest hpc hready =>
      simp only [streamOps, hpc, hready, List.filterMap_cons, Rounds.Op.given?, Event.served?,
        List.head?_cons, List.filterMap_nil]
  | shutdownTaken now kept hpc _ =>
      rw [streamOps_leave hpc]
      rfl
  | stopTaken now kept hpc _ _ =>
      rw [streamOps_leave hpc]
      rfl
  | escalateTaken now kept hpc _ _ _ =>
      rw [streamOps_leave hpc]
      rfl
  | deliver | requestStop | shutdown | escalation | oldEscalation | watch | streamReady | spawn |
    adopt =>
      rfl
  | addStream => simp [streamOps, List.filterMap_map, Function.comp_def, Rounds.Op.given?]
  | announce | announceTop | reap =>
      simp [*, streamOps, List.filterMap_map, Function.comp_def, Event.served?]
  | _ =>
      simp only [*, streamOps, instantiate]
      rfl

theorem supplied_streamOps (a b : Actor S M I) (i : Input M I) (id : ℕ) :
    (streamOps a b i).filterMap (Rounds.Op.supplied? id) = (i.supplied? id).toList := by
  cases i with
  | streamReady id' r =>
      by_cases hid : id' = id <;> simp [streamOps, Rounds.Op.supplied?, Input.supplied?, hid]
  | poll now =>
      simp only [streamOps]
      repeat' split
      all_goals rfl
  | _ =>
      simp [streamOps, List.filterMap_cons, List.filterMap_map, Function.comp_def,
        Rounds.Op.supplied?, Input.supplied?]

theorem added_of_transition (h : Transition beh a i b events) :
    (streamOps a b i).filterMap Rounds.Op.added? = i.added?.toList := by
  cases i with
  | addStream id =>
      cases h with
      | addStream _ hsite _ =>
          obtain ⟨site, hsite⟩ := Option.isSome_iff_exists.mp hsite
          simp [streamOps, hsite, Rounds.Op.added?, Input.added?]
  | poll now =>
      simp only [streamOps]
      repeat' split
      all_goals rfl
  | _ => rfl

/-! ## The log of a run -/

variable {s : Actor S M I} {inputs : List (Input M I)} {trace : List (Event S M I)}

theorem streamLog_append (hrun : run (traced (step beh)) (s, []) inputs = some (b, trace))
    (rest : List (Input M I)) :
    streamLog beh s (inputs ++ rest) = streamLog beh s inputs ++ streamLog beh b rest := by
  refine traced_history (P := fun inputs b _ ↦ ∀ rest,
    streamLog beh s (inputs ++ rest) = streamLog beh s inputs ++ streamLog beh b rest)
    (fun _ ↦ rfl) ?_ hrun rest
  intro inputs a trace i b events ih hstep rest
  rw [List.append_assoc, ih, ih, List.append_assoc]
  simp [streamLog, hstep]

theorem streamLog_concat (hrun : run (traced (step beh)) (s, []) inputs = some (a, trace))
    (hstep : step beh a i = some (b, events)) :
    streamLog beh s (inputs ++ [i]) = streamLog beh s inputs ++ streamOps a b i := by
  rw [streamLog_append hrun]
  simp [streamLog, hstep]

/-- The log tells of the rounds, of the calls of the stream handlers, and of the inputs. -/
structure Logged [DecidableEq I] (s : Actor S M I) (inputs : List (Input M I)) (b : Actor S M I)
    (trace : List (Event S M I)) (log : List (Rounds.Op ℕ I)) : Prop where
  rounds : run Rounds.step s.rounds log = some b.rounds
  served : ∀ id, Rounds.given id log = trace.filterMap (Event.served? id)
  supplied : ∀ id, Rounds.supplied id log = inputs.filterMap (Input.supplied? id)
  added : Rounds.added log = inputs.filterMap Input.added?

theorem logged_of_run [DecidableEq I]
    (hrun : run (traced (step beh)) (s, []) inputs = some (b, trace)) :
    Logged s inputs b trace (streamLog beh s inputs) := by
  refine run_history (P := fun inputs x ↦ run (traced (step beh)) (s, []) inputs = some x →
    Logged s inputs x.1 x.2 (streamLog beh s inputs)) ?_ ?_ hrun hrun
  · exact fun _ ↦ ⟨rfl, fun _ ↦ rfl, fun _ ↦ rfl, rfl⟩
  · rintro inputs ⟨a, before⟩ i ⟨b, trace⟩ ih hbefore hlast -
    have hlog := ih hbefore
    obtain ⟨events, hstep, rfl⟩ := traced_eq_some.mp hlast
    have htransition := transition_of_step hstep
    rw [streamLog_concat hbefore hstep]
    refine ⟨?_, fun id ↦ ?_, fun id ↦ ?_, ?_⟩
    · exact run_append_eq_some.mpr ⟨a.rounds, hlog.rounds, rounds_of_transition htransition⟩
    · rw [Rounds.given, List.filterMap_append, List.filterMap_append, ← hlog.served id,
        given_of_transition htransition]
      rfl
    · rw [Rounds.supplied, List.filterMap_append, filterMap_concat, ← hlog.supplied id,
        supplied_streamOps]
      rfl
    · rw [Rounds.added, List.filterMap_append, filterMap_concat, ← hlog.added,
        added_of_transition htransition]
      rfl

/-! ## Streams are served in order -/

/-- An actor is given every stream once, since `add_stream` takes it by value. Then for each stream,
the stream handlers get its items in order, and `finished` is called once after all of them; what is
left of it waits to be polled. A stream that has ended is not polled again. A round polls every
stream that the loop holds once, drops those that have ended, and tells if there was an item. -/
theorem streams_served_in_order {role : Role} {capacity : ℕ}
    (hrun : run (traced (step beh)) (spawned beh role capacity, []) inputs = some (b, trace))
    (howned : (inputs.filterMap Input.added?).Nodup) :
    (∀ id, ∃ xs : List I,
      (trace.filterMap (Event.served? id) = xs.map some ∨
        trace.filterMap (Event.served? id) = xs.map some ++ [none]) ∧
      inputs.filterMap (Input.supplied? id) = trace.filterMap (Event.served? id) ++ b.ready id) ∧
    (∀ id, Rounds.given id (streamLog beh (spawned beh role capacity) inputs) =
      trace.filterMap (Event.served? id)) ∧
    (∀ (pre : List (Rounds.Op ℕ I)) (id : ℕ) (post : List (Rounds.Op ℕ I)),
      streamLog beh (spawned beh role capacity) inputs = pre ++ .poll id (some none) :: post →
        ∀ r, .poll id r ∉ post) ∧
    (∀ (pre : List (Rounds.Op ℕ I)) (kept : List ℕ) (any : Bool) (post : List (Rounds.Op ℕ I)),
      streamLog beh (spawned beh role capacity) inputs = pre ++ .finish kept any :: post →
        ∃ before held mid, pre = before ++ .begin held :: mid ∧
          Rounds.Round held mid [] kept any) ∧
    (∀ (pre : List (Rounds.Op ℕ I)) (held : List ℕ),
      streamLog beh (spawned beh role capacity) inputs = pre ++ [.begin held] →
        b.streams = held) ∧
    ∀ (pre : List (Rounds.Op ℕ I)) (kept : List ℕ) (any : Bool),
      streamLog beh (spawned beh role capacity) inputs = pre ++ [.finish kept any] →
        b.streams = kept := by
  classical
  have hlog := logged_of_run hrun
  have hrounds : run Rounds.step Rounds.State.initial
      (streamLog beh (spawned beh role capacity) inputs) = some b.rounds := hlog.rounds
  have hadded : (Rounds.added (streamLog beh (spawned beh role capacity) inputs)).Nodup := by
    rwa [hlog.added]
  refine ⟨fun id ↦ ?_, hlog.served, ?_, ?_, ?_, ?_⟩
  · obtain ⟨xs, hshape⟩ := Rounds.given_shape hrounds hadded id
    rw [hlog.served id] at hshape
    refine ⟨xs, hshape, ?_⟩
    rw [← hlog.supplied id, Rounds.supplied_eq hrounds id, hlog.served id]
    rfl
  · intro pre id post hlog' r
    rw [hlog'] at hrounds hadded
    exact Rounds.not_polled_after_end hrounds hadded r
  · intro pre kept any post hlog'
    rw [hlog'] at hrounds
    exact Rounds.rounds_of_run hrounds
  · intro pre held hlog'
    rw [hlog'] at hrounds
    exact Rounds.held_after_begin hrounds
  · intro pre kept any hlog'
    rw [hlog'] at hrounds
    exact Rounds.held_after_finish hrounds

/-- Stream 0 gives an item and ends, and stream 1 gives an item between the two. -/
def twoStreams : List (Input ℕ ℕ) :=
  [.poll 0, .addStream 0, .addStream 1, .ret, .streamReady 0 (some 5), .poll 0, .poll 0, .poll 0,
    .ret, .poll 0, .poll 0, .streamReady 1 (some 6), .streamReady 0 none, .poll 0, .poll 0,
    .poll 0, .ret, .poll 0, .ret, .poll 0]

theorem two_streams_served :
    ∃ b trace, run (traced (step idle))
        (spawned idle .topLevel 8, []) twoStreams = some (b, trace) ∧
      twoStreams.filterMap (Input.supplied? 0) =
        trace.filterMap (Event.served? 0) ++ b.ready 0 ∧
      ∀ pre kept any post, streamLog idle (spawned idle .topLevel 8)
          twoStreams = pre ++ .finish kept any :: post →
        ∃ before held mid, pre = before ++ .begin held :: mid ∧
          Rounds.Round held mid [] kept any := by
  obtain ⟨⟨b, trace⟩, hrun⟩ := Option.isSome_iff_exists.mp
    (show (run (traced (step idle))
      (spawned idle .topLevel 8, []) twoStreams).isSome by decide +kernel)
  obtain ⟨hserved, -, -, hrounds, -⟩ := streams_served_in_order hrun (by decide)
  obtain ⟨xs, -, hsupplied⟩ := hserved 0
  exact ⟨b, trace, hrun, hsupplied, hrounds⟩

/-! ## Streams that wait for the loop -/

theorem pc_of_phase_selecting (h : a.pc.roundPhase = .selecting) : a.pc = .selecting := by
  cases hpc : a.pc <;> simp [hpc, Pc.roundPhase] at h ⊢

/-- The loop is suspended in its `select!`: the stream branch was polled last, in a round without an
item, and no signal was taken. Then the context holds no stream, and every stream of this instance
has been polled, if and only if no call of `finished` has added a stream since the loop last took
the streams from the context. -/
theorem suspended_without_streams_iff {role : Role} {capacity : ℕ} {pre rest : List (Rounds.Op ℕ I)}
    {kept : List ℕ}
    (hrun : run (traced (step beh)) (spawned beh role capacity, []) inputs = some (b, trace))
    (hlog : streamLog beh (spawned beh role capacity) inputs = pre ++ [.finish kept false] ++ rest)
    (hrest : ∀ op ∈ rest, ∃ id r, op = .supply id r) :
    b.pc = .selecting ∧
    (b.added = [] ∧ (∀ id ∈ Rounds.current (pre ++ [.finish kept false] ++ rest),
        ∃ r, .poll id r ∈ pre) ↔
      ∀ id, (id, .finish) ∉ Rounds.waiting (pre ++ [.finish kept false] ++ rest)) := by
  classical
  have hrounds : run Rounds.step Rounds.State.initial
      (pre ++ [Rounds.Op.finish kept false] ++ rest) =
      some b.rounds := by
    rw [← hlog]
    exact (logged_of_run hrun).rounds
  obtain ⟨hphase, hadded, hfinish, hpolled⟩ := Rounds.waiting_after_round hrest hrounds
  change _ = b.added at hadded
  refine ⟨pc_of_phase_selecting hphase, ?_, ?_⟩
  · rintro ⟨hempty, -⟩ id hmem
    have hid : id ∈ b.added := hadded ▸ List.mem_map_of_mem hmem
    rw [hempty] at hid
    exact absurd hid List.not_mem_nil
  · intro hnone
    have hwaiting : Rounds.waiting (pre ++ [Rounds.Op.finish kept false] ++ rest) = [] := by
      refine List.eq_nil_iff_forall_not_mem.mpr ?_
      rintro ⟨id, occasion⟩ hmem
      cases hfinish _ hmem
      exact hnone id hmem
    rw [hwaiting] at hadded
    refine ⟨hadded.symm, fun id hid ↦ ?_⟩
    rcases hpolled id hid with hwaits | hpoll
    · change id ∈ b.added at hwaits
      rw [← hadded] at hwaits
      exact absurd hwaits List.not_mem_nil
    · exact hpoll

/-- The loop goes to sleep with a stream that is pending. -/
def pendingStream : List (Input ℕ ℕ) :=
  [.poll 0, .addStream 0, .ret, .poll 0, .poll 0, .poll 0, .poll 0]

theorem pending_stream_polled :
    ∃ b trace, run (traced (step idle))
        (spawned idle .topLevel 8, []) pendingStream = some (b, trace) ∧
      b.pc = .selecting ∧ b.added = [] := by
  obtain ⟨⟨b, trace⟩, hrun⟩ := Option.isSome_iff_exists.mp
    (show (run (traced (step idle))
      (spawned idle .topLevel 8, []) pendingStream).isSome by decide +kernel)
  have hlog : streamLog idle (spawned idle .topLevel 8) pendingStream =
      ([.add 0 .idle, .collect, .begin [0], .poll 0 none] : List (Rounds.Op ℕ ℕ)) ++
        [Rounds.Op.finish [0] false] ++ [] := by
    decide +kernel
  obtain ⟨hpc, hiff⟩ := suspended_without_streams_iff hrun hlog (by simp)
  exact ⟨b, trace, hrun, hpc, (hiff.mpr (by simp [Rounds.waiting, Rounds.wait])).1⟩

/-- A stream ends, and `finished` adds another, which has an item ready. -/
def streamAfterEnd : List (Input ℕ ℕ) :=
  [.poll 0, .addStream 0, .ret, .streamReady 0 none, .streamReady 1 (some 7), .poll 0, .poll 0,
    .poll 0, .addStream 1, .ret, .poll 0]

theorem stream_added_by_finished_waits :
    ∃ b trace, run (traced (step idle))
        (spawned idle .topLevel 8, []) streamAfterEnd = some (b, trace) ∧
      b.pc = .selecting ∧ b.mailbox = [] ∧ b.added = [1] ∧ b.ready 1 = [some 7] ∧
      streamLog idle (spawned idle .topLevel 8) streamAfterEnd =
        [.add 0 .idle, .supply 0 none, .supply 1 (some 7), .collect, .begin [0],
          .poll 0 (some none), .add 1 .finish, .finish [] false] := by
  have hrun : (run (traced (step idle))
      (spawned idle .topLevel 8, []) streamAfterEnd).map (fun x ↦
        (x.1.pc, x.1.mailbox, x.1.added, x.1.ready 1)) = some (.selecting, [], [1], [some 7]) := by
    decide +kernel
  obtain ⟨⟨b, trace⟩, hb, h⟩ := Option.map_eq_some_iff.mp hrun
  obtain ⟨hpc, hmailbox, hadded, hready⟩ : _ ∧ _ ∧ _ ∧ _ := by simpa only [Prod.mk.injEq] using h
  exact ⟨b, trace, hb, hpc, hmailbox, hadded, hready, by decide +kernel⟩

end Actor

end Cineyma.Runtime
