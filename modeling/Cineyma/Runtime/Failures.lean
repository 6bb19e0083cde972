import Cineyma.Runtime.Lifecycle

/-!
# Panics and failures

A panic is treated as a failure of the child when its children are signalled to stop, its strategy
is applied, and its watchers are notified if it ends. That is what happens to the panics of message
handlers, which run inside `catch_unwind`. A panic of `started`, of a stream handler, of `finished`
or of `stopped` unwinds the task, and nothing follows it.
-/

namespace Cineyma.Runtime

open StepSystem

variable {S M I : Type} {strategy : SupervisorStrategy} {watchers : List ℕ} {s t : Stage}
  {trace events pre post : List (Event S M I)}

/-! ## What is done about a failure -/

def broodStep (cs : List ℕ) : Event S M I → List ℕ
  | .factory _ => []
  | .adopted c => cs ++ [c]
  | _ => cs

/-- The children that the current instance has spawned. -/
def brood (trace : List (Event S M I)) : List ℕ := trace.foldl broodStep []

/-- The children are signalled and `stopped` is called. -/
def closeDown (cs late : List ℕ) : List (Event S M I) :=
  cs.map .stopChild ++ .stopped :: late.map .adopted

/-- What each strategy makes of a failure. -/
def Outcome : SupervisorStrategy → List (Event S M I) → Prop
  | .stop, events => events = [.verdict .stop]
  | .restart _ _, events =>
      (∃ n, events = [.verdict .restarting, .factory n, .started]) ∨ events = [.verdict .exceeded]
  | .escalate, events => events = [.verdict .escalate, .escalate]

/-- A panic after `pre` was followed by all that is due to a failure. -/
def Settled (strategy : SupervisorStrategy) (pre post : List (Event S M I)) : Prop :=
  ∃ late outcome rest, post = closeDown (brood pre) late ++ (outcome ++ rest) ∧
    Outcome strategy outcome

/-- The task is on its way there. -/
def UnderWay (s : Stage) (pre post : List (Event S M I)) : Prop :=
  (s.phase = .reaping true ∧ post = []) ∨
    (s.phase = .closed true ∧ ∃ late, post = closeDown (brood pre) late)

theorem brood_concat (trace : List (Event S M I)) (e : Event S M I) :
    brood (trace ++ [e]) = broodStep (brood trace) e := by
  simp [brood]

theorem outcome_ending : Outcome (S := S) (M := M) (I := I) strategy (ending strategy true) := by
  cases strategy with
  | restart maxRestarts within => exact .inr rfl
  | _ => rfl

/-! ## One step -/

/-- Until its loop is left, the children of the instance are those in the trace. -/
def Counted (s : Stage) (trace : List (Event S M I)) : Prop :=
  s.phase = .running ∨ (∃ failed, s.phase = .reaping failed) → s.children = brood trace

theorem Counted.step (h : Counted s trace) (hstep : Advance strategy watchers s events t) :
    Counted t (trace ++ events) := by
  cases hstep with
  | stay => rwa [List.append_nil]
  | begin => simp [Counted, brood, broodStep]
  | restart => simp [Counted, brood, broodStep]
  | event cs cs' n e he hcs =>
      intro _
      have hcs' : cs = brood trace := h (.inl rfl)
      rw [brood_concat, ← hcs']
      cases e <;> simp_all [broodStep, Event.ofLoop, Event.adopted?]
  | leave cs n cause =>
      intro _
      have hcs : cs = brood trace := h (.inl rfl)
      cases cause with
      | none => simpa using hcs
      | some cause =>
          rw [Option.map_some, Option.toList_some, brood_concat, ← hcs]
          cases cause <;> rfl
  | _ => simp [Counted]

/-- Every panic so far is treated, if it was that of a message handler. -/
def Handled (strategy : SupervisorStrategy) (s : Stage) (trace : List (Event S M I)) : Prop :=
  ∀ pre site post, trace = pre ++ .panicked site :: post →
    Settled strategy pre post ∨ UnderWay s pre post

theorem Settled.append (h : Settled strategy pre post) (events : List (Event S M I)) :
    Settled strategy pre (post ++ events) := by
  obtain ⟨late, outcome, rest, rfl, houtcome⟩ := h
  exact ⟨late, outcome, rest ++ events, by simp, houtcome⟩

/-- A failure takes its course. -/
theorem UnderWay.step {site : Site} (h : UnderWay s pre post)
    (hcounted : Counted s (pre ++ .panicked site :: post))
    (hstep : Advance strategy watchers s events t)
    (hpanics : ∀ site, .panicked site ∈ events → site = .handler) :
    Settled strategy pre (post ++ events) ∨ UnderWay t pre (post ++ events) := by
  cases hstep with
  | stay =>
      rw [List.append_nil]
      exact .inr h
  | reap cs n failed =>
      obtain ⟨hphase, rfl⟩ | ⟨hphase, -⟩ := h
      · cases hphase
        have hcs : cs = brood pre := by
          have := hcounted (.inr ⟨true, rfl⟩)
          rwa [brood_concat] at this
        exact .inr (.inr ⟨rfl, [], by simp [closeDown, hcs]⟩)
      · cases hphase
  | late cs n c failed =>
      obtain ⟨hphase, -⟩ | ⟨hphase, late, rfl⟩ := h
      · cases hphase
      · exact .inr (.inr ⟨hphase, late ++ [c], by simp [closeDown]⟩)
  | restart cs n maxRestarts within hstrategy =>
      obtain ⟨hphase, -⟩ | ⟨hphase, late, rfl⟩ := h
      · cases hphase
      · subst hstrategy
        exact .inl ⟨late, _, [], by rw [List.append_nil], .inl ⟨n + 1, rfl⟩⟩
  | quit cs n failed =>
      obtain ⟨hphase, -⟩ | ⟨hphase, late, rfl⟩ := h
      · cases hphase
      · cases hphase
        exact .inl ⟨late, _, [], by rw [List.append_nil], outcome_ending⟩
  | die cs n p site hp hsite => exact absurd (hpanics site (List.mem_singleton_self _)) hsite
  | _ => obtain ⟨hphase, -⟩ | ⟨hphase, -⟩ := h <;> cases hphase

/-- A panic that the task survives makes it leave its loop. -/
theorem panicked_of_advance {site : Site} (hstep : Advance strategy watchers s events t)
    (hmem : .panicked site ∈ events) :
    events = [.panicked site] ∧
      (site = .handler ∧ t.phase = .reaping true ∨ site ≠ .handler ∧ t.phase = .dead) := by
  cases hstep with
  | event cs cs' n e he hcs =>
      obtain rfl := List.mem_singleton.mp hmem
      cases he
  | leave cs n cause =>
      cases cause with
      | none => cases hmem
      | some cause =>
          cases cause with
          | panicked =>
              cases List.mem_singleton.mp hmem
              exact ⟨rfl, .inl ⟨rfl, rfl⟩⟩
          | escalated => cases List.mem_singleton.mp hmem
  | die cs n p site' hp hsite =>
      cases List.mem_singleton.mp hmem
      exact ⟨rfl, .inr ⟨hsite, rfl⟩⟩
  | quit cs n failed =>
      cases failed <;> cases strategy <;> simp [ending] at hmem
  | _ => simp at hmem

theorem Handled.step (h : Handled strategy s trace) (hcounted : Counted s trace)
    (hstep : Advance strategy watchers s events t)
    (hpanics : ∀ site, .panicked site ∈ events → site = .handler) :
    Handled strategy t (trace ++ events) := by
  intro pre site post heq
  rcases append_eq_append_cons.mp heq with ⟨rest, rfl, rfl⟩ | ⟨rest, rfl, hevents⟩
  · rcases h pre site rest rfl with hsettled | hunder
    · exact .inl (hsettled.append events)
    · exact hunder.step hcounted hstep hpanics
  · have hmem : .panicked site ∈ events := by simp [hevents]
    obtain ⟨hsingle, hphase⟩ := panicked_of_advance hstep hmem
    obtain ⟨-, -, hpost⟩ := singleton_eq_append_cons.mp (hsingle.symm.trans hevents)
    have hhandler := hpanics site hmem
    exact .inr (.inl ⟨(hphase.resolve_right fun hne ↦ hne.1 hhandler).2, hpost⟩)

/-- Nothing follows a panic outside the message handlers. -/
def Silenced (s : Stage) (trace : List (Event S M I)) : Prop :=
  ∀ pre site post, trace = pre ++ .panicked site :: post → site ≠ .handler →
    post = [] ∧ s.phase = .dead

theorem events_of_dead (hstep : Advance strategy watchers s events t) (hs : s.phase = .dead) :
    events = [] ∧ t = s := by
  cases hstep with
  | stay => exact ⟨rfl, rfl⟩
  | die cs n p site hp hsite => exact absurd hs hp
  | _ => cases hs

theorem Silenced.step (h : Silenced s trace) (hstep : Advance strategy watchers s events t) :
    Silenced t (trace ++ events) := by
  intro pre site post heq hsite
  rcases append_eq_append_cons.mp heq with ⟨rest, rfl, rfl⟩ | ⟨rest, rfl, hevents⟩
  · obtain ⟨rfl, hdead⟩ := h pre site rest rfl hsite
    obtain ⟨rfl, rfl⟩ := events_of_dead hstep hdead
    exact ⟨rfl, hdead⟩
  · have hmem : .panicked site ∈ events := by simp [hevents]
    obtain ⟨hsingle, hphase⟩ := panicked_of_advance hstep hmem
    obtain ⟨-, -, hpost⟩ := singleton_eq_append_cons.mp (hsingle.symm.trans hevents)
    exact ⟨hpost, (hphase.resolve_left fun hne ↦ hsite hne.1).2⟩

namespace Actor

variable {beh : Behaviour S M I} {a b : Actor S M I} {as bs : List (Input M I)} {capacity : ℕ}

/-! ## Whole runs -/

theorem handled_of_run
    (hrun : run (traced (step beh)) (spawned beh (.child strategy) capacity, []) as =
      some (a, trace)) (hpanics : ∀ site, .panicked site ∈ trace → site = .handler) :
    Handled strategy a.stage trace := by
  have hinv := traced_history (P := fun _ a trace ↦ Supervised strategy a ∧
      Counted a.stage trace ∧
      ((∀ site, .panicked site ∈ trace → site = .handler) → Handled strategy a.stage trace))
    ⟨supervised_spawned beh strategy capacity, fun _ ↦ rfl, fun _ ↦ by simp [Handled]⟩ ?_ hrun
  · exact hinv.2.2 hpanics
  · rintro as t before i u events ⟨hsuper, hcounted, hhandled⟩ hstep
    have hstep := transition_of_step hstep
    have hadvance := advance_of_transition hsuper hstep
    refine ⟨hsuper.step hstep, hcounted.step hadvance, fun hpanics ↦ ?_⟩
    refine (hhandled fun site h ↦ ?_).step hcounted hadvance fun site h ↦ ?_
    · exact hpanics site (List.mem_append_left events h)
    · exact hpanics site (List.mem_append_right before h)

theorem silenced_of_run
    (hrun : run (traced (step beh)) (spawned beh (.child strategy) capacity, []) as =
      some (a, trace)) : Silenced a.stage trace := by
  have hinv := traced_history (P := fun _ a trace ↦
      Supervised strategy a ∧ Silenced a.stage trace)
    ⟨supervised_spawned beh strategy capacity, by simp [Silenced]⟩ ?_ hrun
  · exact hinv.2
  · rintro as t before i u events ⟨hsuper, hsilenced⟩ hstep
    have hstep := transition_of_step hstep
    exact ⟨hsuper.step hstep, hsilenced.step (advance_of_transition hsuper hstep)⟩

/-- The panic after `pre` is treated as a failure: the failure path is completed or under way, and
if the child has ended its watchers were notified. -/
def Treated (beh : Behaviour S M I) (strategy : SupervisorStrategy) (capacity : ℕ)
    (as : List (Input M I)) (a : Actor S M I) (pre post trace : List (Event S M I)) : Prop :=
  (Settled strategy pre post ∨ UnderWay a.stage pre post) ∧
    (a.pc = .ended → ∃ story, Announced beh strategy capacity as trace story)

/-- The panics of a run are all treated as failures exactly if they are all panics of message
handlers. -/
theorem panics_treated_iff
    (hrun : run (traced (step beh)) (spawned beh (.child strategy) capacity, []) as =
      some (a, trace)) :
    (∀ pre site post, trace = pre ++ .panicked site :: post →
        Treated beh strategy capacity as a pre post trace) ↔
      ∀ site, .panicked site ∈ trace → site = .handler := by
  constructor
  · intro htreated site hmem
    obtain ⟨pre, post, htrace⟩ := List.append_of_mem hmem
    by_contra hsite
    obtain ⟨rfl, hdead⟩ := silenced_of_run hrun pre site post htrace hsite
    rcases (htreated pre site [] htrace).1 with ⟨late, outcome, rest, hpost, -⟩ | hunder
    · simp [closeDown] at hpost
    · obtain ⟨hphase, -⟩ | ⟨hphase, -⟩ := hunder <;> cases hdead.symm.trans hphase
  · intro hpanics pre site post htrace
    exact ⟨handled_of_run hrun hpanics pre site post htrace, announced_of_run hrun⟩

/-- A dead task stays silent. -/
theorem trace_of_dead (hsuper : Supervised strategy a) (hdead : a.stage.phase = .dead)
    {trace' : List (Event S M I)}
    (hrun : run (traced (step beh)) (a, trace) bs = some (b, trace')) : trace' = trace := by
  have hinv := run_invariant (P := fun s ↦
      Supervised strategy s.1 ∧ s.1.stage.phase = .dead ∧ s.2 = trace) ?_
    ⟨hsuper, hdead, rfl⟩ hrun
  · exact hinv.2.2
  · rintro ⟨t, before⟩ i ⟨u, after⟩ ⟨hsuper, hdead, rfl⟩ hstep
    obtain ⟨events, hemit, rfl⟩ := traced_eq_some.mp hstep
    have hstep := transition_of_step hemit
    obtain ⟨rfl, hstage⟩ := events_of_dead (advance_of_transition hsuper hstep) hdead
    exact ⟨hsuper.step hstep, by rw [hstage]; exact hdead, List.append_nil _⟩

/-- A watched child with a child of its own panics in the handler of a stream item. -/
def streamPanicInputs : List (Input ℕ ℕ) :=
  [.watch 3, .poll 0, .spawn 5, .adopt, .addStream 0, .ret, .streamReady 0 (some 1), .poll 0,
    .poll 0, .poll 0, .panic]

/-- Its child is never signalled, no strategy is applied, and its watcher is never notified. -/
theorem stream_panic_untreated :
    ∃ a trace,
      run (traced (step idle)) (spawned idle (.child (.restart 5 10)) 4, []) streamPanicInputs =
        some (a, trace) ∧
      a.children = [5] ∧ a.watchers = [3] ∧ .panicked .item ∈ trace ∧
      (¬ ∀ pre site post, trace = pre ++ .panicked site :: post →
        Treated idle (.restart 5 10) 4 streamPanicInputs a pre post trace) ∧
      ∀ bs b trace', run (traced (step idle)) (a, trace) bs = some (b, trace') →
        .stopChild 5 ∉ trace' ∧ (∀ v, .verdict v ∉ trace') ∧ .terminated 3 ∉ trace' := by
  have hsome : (run (traced (step idle))
      (spawned idle (.child (.restart 5 10)) 4, []) streamPanicInputs).isSome = true := by
    decide +kernel
  have hend : (run (traced (step idle))
      (spawned idle (.child (.restart 5 10)) 4, []) streamPanicInputs).map
        (fun s ↦ (s.1.pc, s.1.children, s.1.watchers, s.2)) =
      some (.dead, [5], [3],
        [.factory 0, .started, .adopted 5, .item 0 1, .panicked .item]) := by
    decide +kernel
  obtain ⟨⟨a, trace⟩, hrun⟩ := Option.isSome_iff_exists.mp hsome
  rw [hrun, Option.map_some, Option.some_inj, Prod.mk.injEq, Prod.mk.injEq, Prod.mk.injEq] at hend
  obtain ⟨hpc, hchildren, hwatchers, rfl⟩ := hend
  have hpc : a.pc = .dead := hpc
  refine ⟨a, _, hrun, hchildren, hwatchers, by simp, fun htreated ↦ ?_, fun bs b trace' hrest ↦ ?_⟩
  · rcases (htreated [.factory 0, .started, .adopted 5, .item 0 1] .item [] rfl).1 with
      ⟨late, outcome, rest, hpost, -⟩ | ⟨hphase, -⟩ | ⟨hphase, -⟩
    · simp [closeDown] at hpost
    · simp [stage, hpc, Pc.phase] at hphase
    · simp [stage, hpc, Pc.phase] at hphase
  · rw [trace_of_dead (supervised_of_run hrun) (by simp [stage, hpc, Pc.phase]) hrest]
    simp

/-- The run of the restarted child, whose only panic is that of a message handler. -/
theorem handler_panic_treated :
    ∃ a trace,
      run (traced (step idle)) (spawned idle (.child (.restart 1 10)) 4, []) restartInputs =
        some (a, trace) ∧
      ∃ pre post, trace = pre ++ .panicked .handler :: post ∧
        Treated idle (.restart 1 10) 4 restartInputs a pre post trace := by
  have hsome : (run (traced (step idle))
      (spawned idle (.child (.restart 1 10)) 4, []) restartInputs).isSome = true := by
    decide +kernel
  have hend : (run (traced (step idle))
      (spawned idle (.child (.restart 1 10)) 4, []) restartInputs).map (·.2) =
      some [.factory 0, .started, .handed 7 (), .panicked .handler, .stopped,
        .verdict .restarting, .factory 1, .started, .stopped, .terminated 3] := by
    decide +kernel
  obtain ⟨⟨a, trace⟩, hrun⟩ := Option.isSome_iff_exists.mp hsome
  rw [hrun, Option.map_some, Option.some_inj] at hend
  obtain rfl := hend
  refine ⟨a, _, hrun, [.factory 0, .started, .handed 7 ()], _, rfl, ?_⟩
  exact (panics_treated_iff hrun).mpr (by simp) _ _ _ rfl

end Actor

end Cineyma.Runtime
