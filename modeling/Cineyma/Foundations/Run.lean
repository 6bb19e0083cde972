import Mathlib

/-!
# Runs of a partial step function

A system is a step function `σ → α → Option σ`; a run is a list of actions, each
enabled when its turn comes.  Safety is proved once per step and lifted to whole
runs here, with or without a condition that the steps of the run have to meet in
the state before them.
-/

namespace StepSystem

variable {σ α ε : Type*}

def run (step : σ → α → Option σ) : σ → List α → Option σ
  | s, [] => some s
  | s, a :: as => (step s a).bind fun t ↦ run step t as

variable {step : σ → α → Option σ} {s t u : σ} {a : α} {as bs : List α}

@[simp] theorem run_nil : run step s [] = some s := rfl

theorem run_cons_eq_some :
    run step s (a :: as) = some u ↔ ∃ t, step s a = some t ∧ run step t as = some u := by
  simp only [run, Option.bind_eq_some_iff]

theorem run_append_eq_some :
    run step s (as ++ bs) = some u ↔ ∃ t, run step s as = some t ∧ run step t bs = some u := by
  induction as generalizing s with
  | nil => simp
  | cons a as ih =>
      rw [List.cons_append, run_cons_eq_some]
      constructor
      · rintro ⟨t, hstep, hrun⟩
        obtain ⟨v, hleft, hright⟩ := ih.mp hrun
        exact ⟨v, run_cons_eq_some.mpr ⟨t, hstep, hleft⟩, hright⟩
      · rintro ⟨v, hleft, hright⟩
        obtain ⟨t, hstep, hrun⟩ := run_cons_eq_some.mp hleft
        exact ⟨t, hstep, ih.mpr ⟨v, hrun, hright⟩⟩

theorem run_concat_eq_some :
    run step s (as ++ [a]) = some u ↔ ∃ t, run step s as = some t ∧ step t a = some u := by
  rw [run_append_eq_some]
  simp [run]

theorem run_take_succ {n : ℕ} (ha : as[n]? = some a) :
    run step s (as.take (n + 1)) = some u ↔
      ∃ t, run step s (as.take n) = some t ∧ step t a = some u := by
  rw [List.take_add_one, ha, Option.toList_some, run_concat_eq_some]

theorem exists_run_take (hrun : run step s as = some u) (n : ℕ) :
    ∃ t, run step s (as.take n) = some t := by
  rw [← List.take_append_drop n as] at hrun
  obtain ⟨t, ht, -⟩ := run_append_eq_some.mp hrun
  exact ⟨t, ht⟩

/-- A property that the actions of a run preserve holds at its end. -/
theorem run_invariant_of_mem {P : σ → Prop}
    (hstep : ∀ s a t, a ∈ as → P s → step s a = some t → P t) (hs : P s)
    (hrun : run step s as = some u) : P u := by
  induction as generalizing s with
  | nil =>
      cases hrun
      exact hs
  | cons a as ih =>
      obtain ⟨t, hfirst, hrest⟩ := run_cons_eq_some.mp hrun
      refine ih (fun s b t hb ↦ hstep s b t (List.mem_cons_of_mem a hb)) ?_ hrest
      exact hstep s a t List.mem_cons_self hs hfirst

theorem run_invariant {P : σ → Prop} (hstep : ∀ s a t, P s → step s a = some t → P t)
    (hs : P s) (hrun : run step s as = some u) : P u :=
  run_invariant_of_mem (fun s a t _ ↦ hstep s a t) hs hrun

/-- The same for a property of the state and the actions that led to it. -/
theorem run_history {P : List α → σ → Prop} (hs : P [] s)
    (hstep : ∀ as t a u, P as t → run step s as = some t → step t a = some u → P (as ++ [a]) u)
    (hrun : run step s as = some u) : P as u := by
  induction as using List.reverseRecOn generalizing u with
  | nil =>
      cases hrun
      exact hs
  | append_singleton as a ih =>
      obtain ⟨t, hbefore, hlast⟩ := run_concat_eq_some.mp hrun
      exact hstep as t a u (ih hbefore) hbefore hlast

/-- A property that is lost in a run is lost first by some step. -/
theorem run_exists_cause {P : σ → Prop} {Q : List α → α → Prop}
    (hstep : ∀ pre a t u, run step s pre = some t → P t → step t a = some u → ¬ P u → Q pre a)
    (hs : P s) (hrun : run step s as = some u) (hu : ¬ P u) :
    ∃ pre a post t, as = pre ++ a :: post ∧ run step s pre = some t ∧ P t ∧ Q pre a := by
  induction as using List.reverseRecOn generalizing u with
  | nil =>
      cases hrun
      exact absurd hs hu
  | append_singleton as a ih =>
      obtain ⟨t, hbefore, hlast⟩ := run_concat_eq_some.mp hrun
      by_cases ht : P t
      · exact ⟨as, a, [], t, rfl, hbefore, ht, hstep as a t u hbefore ht hlast hu⟩
      · obtain ⟨pre, b, post, r, rfl, hr, hP, hQ⟩ := ih hbefore ht
        exact ⟨pre, b, post ++ [a], r, by simp, hr, hP, hQ⟩

/-- A property of the states stays until the end of the run if and only if every action is of the
kind that keeps it. -/
theorem run_keeps_iff {P : σ → Prop} {C : α → Prop} (hrun : run step s (as ++ bs) = some u)
    (hfirst : ∀ t, run step s as = some t → P t)
    (hnecessary : ∀ t a t', a ∈ bs → step t a = some t' → P t' → C a)
    (hkeeps : ∀ mid t a t', a ∈ bs → run step s (as ++ mid) = some t → P t → C a →
      step t a = some t' → P t') :
    (∀ mid t, mid <+: bs → run step s (as ++ mid) = some t → P t) ↔ ∀ a ∈ bs, C a := by
  constructor
  · intro h a ha
    obtain ⟨mid, rest, rfl⟩ := List.append_of_mem ha
    have hmid : mid ++ [a] <+: mid ++ a :: rest := by simp
    rw [List.append_cons mid, ← List.append_assoc] at hrun
    obtain ⟨t', ht', -⟩ := run_append_eq_some.mp hrun
    have hP := h (mid ++ [a]) t' hmid ht'
    rw [← List.append_assoc] at ht'
    obtain ⟨t, -, hstep⟩ := run_concat_eq_some.mp ht'
    exact hnecessary t a t' ha hstep hP
  · intro h mid t hmid ht
    induction mid using List.reverseRecOn generalizing t with
    | nil =>
        rw [List.append_nil] at ht
        exact hfirst t ht
    | append_singleton mid a ih =>
        rw [← List.append_assoc] at ht
        obtain ⟨r, hr, hstep⟩ := run_concat_eq_some.mp ht
        have ha : a ∈ bs := hmid.subset (by simp)
        have hbefore := ih r ((List.prefix_append mid [a]).trans hmid) hr
        exact hkeeps mid r a t ha hr hbefore (h a ha) hstep

/-! ## Moments of a run -/

/-- At some moment of the run, the condition holds of the actions so far, the state and the action
that is taken. -/
def Once (step : σ → α → Option σ) (E : List α → σ → α → Prop) (s : σ) (as : List α) : Prop :=
  ∃ pre a post t, as = pre ++ a :: post ∧ run step s pre = some t ∧ E pre t a

section Once

variable {E : List α → σ → α → Prop}

theorem once_nil : ¬ Once step E s [] := by
  rintro ⟨pre, a, post, t, has, -⟩
  simp at has

theorem once_concat (hrun : run step s as = some t) :
    Once step E s (as ++ [a]) ↔ Once step E s as ∨ E as t a := by
  constructor
  · rintro ⟨pre, b, post, r, has, hr, hE⟩
    rcases List.eq_nil_or_concat post with rfl | ⟨post, c, rfl⟩
    · obtain ⟨rfl, hb⟩ := List.append_inj' has rfl
      cases hb
      cases hr.symm.trans hrun
      exact .inr hE
    · rw [List.concat_eq_append, ← List.cons_append, ← List.append_assoc] at has
      obtain ⟨rfl, -⟩ := List.append_inj' has rfl
      exact .inl ⟨pre, b, post, r, rfl, hr, hE⟩
  · rintro (⟨pre, b, post, r, rfl, hr, hE⟩ | hE)
    · exact ⟨pre, b, post ++ [a], r, by simp, hr, hE⟩
    · exact ⟨as, a, [], t, rfl, hrun, hE⟩

theorem Once.append (h : Once step E s as) (bs : List α) : Once step E s (as ++ bs) := by
  obtain ⟨pre, a, post, t, rfl, hrun, hE⟩ := h
  exact ⟨pre, a, post ++ bs, t, by simp, hrun, hE⟩

end Once

/-! ## Conditions along a run -/

/-- Every action of the run meets the condition in the state it is taken in. -/
def Along (step : σ → α → Option σ) (Q : σ → α → Prop) (s : σ) (as : List α) : Prop :=
  ∀ pre a t, pre ++ [a] <+: as → run step s pre = some t → Q t a

variable {Q : σ → α → Prop}

theorem Along.of_prefix (h : Along step Q s bs) (hpre : as <+: bs) : Along step Q s as := by
  intro pre a t ha hrun
  exact h pre a t (ha.trans hpre) hrun

theorem Along.last (h : Along step Q s (as ++ [a])) (hrun : run step s as = some t) : Q t a :=
  h as a t List.prefix_rfl hrun

theorem Along.nil : Along step Q s [] := by
  intro pre a t hpre
  simp at hpre

theorem along_concat (hrun : run step s as = some t) :
    Along step Q s (as ++ [a]) ↔ Along step Q s as ∧ Q t a := by
  refine ⟨fun h ↦ ⟨h.of_prefix (List.prefix_append as [a]), h.last hrun⟩, ?_⟩
  rintro ⟨h, hlast⟩ pre b r hpre hr
  rcases List.prefix_concat_iff.mp hpre with heq | hpre
  · obtain ⟨rfl, hb⟩ := List.append_inj' heq rfl
    cases hb
    cases hr.symm.trans hrun
    exact hlast
  · exact h pre b r hpre hr

/-- When each step keeps a property exactly if it meets the condition, so does a run. -/
theorem run_iff_along {P I : σ → Prop} (hstep : ∀ s a t, I s → step s a = some t → I t)
    (hiff : ∀ s a t, I s → step s a = some t → (P t ↔ P s ∧ Q s a)) (hs : I s)
    (hrun : run step s as = some u) : P u ↔ P s ∧ Along step Q s as := by
  refine run_history (P := fun as u ↦ P u ↔ P s ∧ Along step Q s as) ?_ ?_ hrun
  · simp [Along.nil]
  · intro as t a u ih hbefore hlast
    have ht : I t := run_invariant hstep hs hbefore
    rw [hiff t a u ht hlast, ih, along_concat hbefore, and_assoc]

theorem Along.invariant {P : σ → Prop} (hstep : ∀ s a t, P s → Q s a → step s a = some t → P t)
    (hs : P s) (h : Along step Q s as) (hrun : run step s as = some u) : P u := by
  refine run_history (P := fun as u ↦ Along step Q s as → P u) (fun _ ↦ hs) ?_ hrun h
  intro as t a u ih hbefore hlast h
  exact hstep t a u (ih (h.of_prefix (List.prefix_append as [a]))) (h.last hbefore) hlast

/-- When every step is matched by steps of another system, with the same labels, so is every run. -/
theorem Along.simulates {τ β γ : Type*} {step' : τ → β → Option τ} {R : σ → τ → Prop}
    {f : α → List γ} {g : β → List γ} {u' : τ}
    (hstep : ∀ s a t u, R s u → Q s a → step s a = some t →
      ∃ bs v, run step' u bs = some v ∧ R t v ∧ bs.flatMap g = f a)
    (hs : R s u') (h : Along step Q s as) (hrun : run step s as = some u) :
    ∃ bs v, run step' u' bs = some v ∧ R u v ∧ bs.flatMap g = as.flatMap f := by
  refine run_history (P := fun as u ↦ Along step Q s as →
    ∃ bs v, run step' u' bs = some v ∧ R u v ∧ bs.flatMap g = as.flatMap f) ?_ ?_ hrun h
  · exact fun _ ↦ ⟨[], u', rfl, hs, rfl⟩
  · intro as t a u ih hbefore hlast h
    obtain ⟨bs, v, hrun', hR, hlabels⟩ := ih (h.of_prefix (List.prefix_append ..))
    obtain ⟨cs, w, hcs, hR', hlabels'⟩ := hstep t a u v hR (h.last hbefore) hlast
    refine ⟨bs ++ cs, w, run_append_eq_some.mpr ⟨v, hrun', hcs⟩, hR', ?_⟩
    rw [List.flatMap_append, List.flatMap_append, hlabels, hlabels', List.flatMap_singleton]

/-- Evaluate a condition at every step of a run. -/
def checkAlong (step : σ → α → Option σ) (q : σ → α → Bool) : σ → List α → Bool
  | _, [] => true
  | s, a :: as => q s a && (step s a).all fun t ↦ checkAlong step q t as

theorem Along.of_check {q : σ → α → Bool} (hq : ∀ s a, q s a = true → Q s a)
    (h : checkAlong step q s as = true) : Along step Q s as := by
  induction as generalizing s with
  | nil => exact .nil
  | cons b as ih =>
      simp only [checkAlong, Bool.and_eq_true] at h
      intro pre a t hpre hrun
      cases pre with
      | nil =>
          cases hrun
          obtain rfl : a = b := by simpa using hpre
          exact hq s a h.1
      | cons c pre =>
          obtain ⟨rfl, hrest'⟩ := List.cons_prefix_cons.mp hpre
          obtain ⟨v, hstep, hrest⟩ := run_cons_eq_some.mp hrun
          have hv : checkAlong step q v as = true := by simpa [hstep] using h.2
          exact ih hv pre a t hrest' hrest

/-! ## Recording what the steps emit -/

/-- Keep the events that the steps emit beside the state. -/
def traced (step : σ → α → Option (σ × List ε)) : σ × List ε → α → Option (σ × List ε)
  | (s, trace), a => (step s a).map fun (t, events) ↦ (t, trace ++ events)

theorem traced_eq_some {step : σ → α → Option (σ × List ε)} {s u : σ} {trace trace' : List ε}
    {a : α} :
    traced step (s, trace) a = some (u, trace') ↔
      ∃ events, step s a = some (u, events) ∧ trace' = trace ++ events := by
  simp only [traced, Option.map_eq_some_iff, Prod.exists, Prod.mk.injEq]
  constructor
  · rintro ⟨t, events, hstep, rfl, rfl⟩
    exact ⟨events, hstep, rfl⟩
  · rintro ⟨events, hstep, rfl⟩
    exact ⟨u, events, hstep, rfl, rfl⟩

/-- A property of the actions taken, the state they lead to and the events on the way. -/
theorem traced_history {step : σ → α → Option (σ × List ε)} {s u : σ} {trace : List ε}
    {P : List α → σ → List ε → Prop} (hnil : P [] s [])
    (hstep : ∀ as t trace a u events, P as t trace → step t a = some (u, events) →
      P (as ++ [a]) u (trace ++ events))
    (hrun : run (traced step) (s, []) as = some (u, trace)) : P as u trace := by
  refine run_history (P := fun as x ↦ P as x.1 x.2) hnil ?_ hrun
  rintro as ⟨t, before⟩ a ⟨u, trace⟩ ih - hlast
  obtain ⟨events, hemit, rfl⟩ := traced_eq_some.mp hlast
  exact hstep as t before a u events ih hemit

/-- A run emits the same events after whatever others. -/
theorem run_traced_append {step : σ → α → Option (σ × List ε)} {s u : σ} {trace trace' : List ε}
    (hrun : run (traced step) (s, trace) as = some (u, trace')) (before : List ε) :
    run (traced step) (s, before ++ trace) as = some (u, before ++ trace') := by
  induction as generalizing s trace with
  | nil =>
      cases hrun
      rfl
  | cons a as ih =>
      obtain ⟨⟨t, middle⟩, hfirst, hrest⟩ := run_cons_eq_some.mp hrun
      obtain ⟨events, hstep, rfl⟩ := traced_eq_some.mp hfirst
      refine run_cons_eq_some.mpr ⟨(t, before ++ (trace ++ events)), ?_, ih hrest⟩
      exact traced_eq_some.mpr ⟨events, hstep, (List.append_assoc before trace events).symm⟩

/-- The step without its events. -/
def untraced (step : σ → α → Option (σ × List ε)) (s : σ) (a : α) : Option σ :=
  (step s a).map Prod.fst

theorem exists_traced {step : σ → α → Option (σ × List ε)} {s u : σ}
    (hrun : run (untraced step) s as = some u) :
    ∃ trace, run (traced step) (s, []) as = some (u, trace) := by
  induction as generalizing s with
  | nil =>
      cases hrun
      exact ⟨[], rfl⟩
  | cons a as ih =>
      obtain ⟨t, hfirst, hrest⟩ := run_cons_eq_some.mp hrun
      obtain ⟨⟨t', events⟩, hstep, rfl⟩ := Option.map_eq_some_iff.mp hfirst
      obtain ⟨trace, htrace⟩ := ih hrest
      refine ⟨events ++ trace, run_cons_eq_some.mpr ⟨(t', events), ?_, ?_⟩⟩
      · exact traced_eq_some.mpr ⟨events, hstep, rfl⟩
      · rw [← run_traced_append htrace events, List.append_nil]

theorem filterMap_concat {δ : Type*} (f : ε → Option δ) (xs : List ε) (x : ε) :
    (xs ++ [x]).filterMap f = xs.filterMap f ++ (f x).toList := by
  rw [List.filterMap_append]
  cases hx : f x <;> simp [hx]

/-- Where an event of a longer trace stands. -/
theorem append_eq_append_cons {xs ys pre post : List ε} {e : ε} :
    xs ++ ys = pre ++ e :: post ↔
      (∃ rest, xs = pre ++ e :: rest ∧ post = rest ++ ys) ∨
        ∃ rest, pre = xs ++ rest ∧ ys = rest ++ e :: post := by
  rw [List.append_eq_append_iff]
  constructor
  · rintro (⟨rest, hpre, hys⟩ | ⟨rest, hxs, hpost⟩)
    · exact .inr ⟨rest, hpre, hys⟩
    · cases rest with
      | nil => exact .inr ⟨[], by simpa using hxs.symm, hpost.symm⟩
      | cons d rest =>
          obtain ⟨rfl, hrest⟩ := List.cons_eq_cons.mp hpost
          exact .inl ⟨rest, hxs, hrest⟩
  · rintro (⟨rest, hxs, hpost⟩ | ⟨rest, hpre, hys⟩)
    · exact .inr ⟨e :: rest, hxs, by rw [hpost, List.cons_append]⟩
    · exact .inl ⟨rest, hpre, hys⟩

theorem singleton_eq_append_cons {pre post : List ε} {d e : ε} :
    [d] = pre ++ e :: post ↔ pre = [] ∧ d = e ∧ post = [] := by
  cases pre <;> simp [eq_comm]

theorem concat_eq_append_cons {xs pre post : List ε} {d e : ε} (h : xs ++ [d] = pre ++ e :: post) :
    (∃ rest, xs = pre ++ e :: rest) ∨ pre = xs ∧ d = e := by
  rcases append_eq_append_cons.mp h with ⟨rest, hearlier, -⟩ | ⟨rest, rfl, hlast⟩
  · exact .inl ⟨rest, hearlier⟩
  · obtain ⟨rfl, rfl, -⟩ := singleton_eq_append_cons.mp hlast
    exact .inr ⟨List.append_nil xs, rfl⟩

/-- What the steps of a run ensure of the trace before each event that they emit. -/
theorem traced_events {step : σ → α → Option (σ × List ε)} {P : σ → List ε → Prop}
    {R : List ε → ε → Prop} {s u : σ} {trace pre post : List ε} {e : ε}
    (hinv : ∀ bs t trace, bs <+: as → run (traced step) (s, []) bs = some (t, trace) → P t trace)
    (hstep : ∀ t trace a u events pre e post, P t trace → step t a = some (u, events) →
      events = pre ++ e :: post → R (trace ++ pre) e)
    (hrun : run (traced step) (s, []) as = some (u, trace)) (htrace : trace = pre ++ e :: post) :
    R pre e := by
  induction as using List.reverseRecOn generalizing u trace pre post with
  | nil =>
      cases hrun
      simp at htrace
  | append_singleton as a ih =>
      obtain ⟨⟨t, before⟩, hbefore, hlast⟩ := run_concat_eq_some.mp hrun
      obtain ⟨events, hemit, rfl⟩ := traced_eq_some.mp hlast
      rcases append_eq_append_cons.mp htrace with ⟨rest, hearlier, -⟩ | ⟨rest, rfl, hnow⟩
      · refine ih (fun bs t trace hbs hrun ↦ ?_) hbefore hearlier
        exact hinv bs t trace (hbs.trans (List.prefix_append as [a])) hrun
      · have ht := hinv as t before (List.prefix_append as [a]) hbefore
        exact hstep t before a u events rest e post ht hemit hnow

end StepSystem
