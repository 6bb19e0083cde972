import Cineyma.Foundations.Run

/-!
# Sources that are polled in rounds

A source gives results: items, and an end. Sources that are added wait until they are collected. A
round polls the sources that are held, each once and in order, and drops those that have ended. The
owner may add sources when it is idle, in reaction to an item or an end, or when it has closed.
-/

namespace Rounds

open StepSystem

variable {κ ι : Type}

inductive Phase (κ : Type) where
  | idle
  | selecting
  | round (todo kept : List κ) (any : Bool)
  | closed
  deriving DecidableEq

/-- What the owner is doing when it adds a source. -/
inductive Occasion where
  | idle
  | item
  | finish
  | closed
  deriving DecidableEq

/-- `queue k` are the results that the next polls of `k` give, with `none` for the end. -/
structure State (κ ι : Type) where
  phase : Phase κ
  held : List κ
  added : List κ
  queue : κ → List (Option ι)

/-- A poll that finds nothing gives `none`. -/
inductive Op (κ ι : Type) where
  | supply (k : κ) (r : Option ι)
  | reset
  | add (k : κ) (o : Occasion)
  | collect
  | leave
  | begin (held : List κ)
  | poll (k : κ) (r : Option (Option ι))
  | finish (kept : List κ) (any : Bool)
  | close
  deriving DecidableEq

/-- In a round, an item has been handled before the owner can react to it. -/
def Phase.admits : Phase κ → Occasion → Bool
  | .idle, .idle => true
  | .round _ _ any, .item => any
  | .round .., .finish => true
  | .closed, .closed => true
  | _, _ => false

def Phase.poll (k : κ) (todo kept : List κ) (any : Bool) : Option (Option ι) → Phase κ
  | none => .round todo (kept ++ [k]) any
  | some (some _) => .round todo (kept ++ [k]) true
  | some none => .round todo kept any

variable {s t u : State κ ι} {op : Op κ ι} {ops : List (Op κ ι)} {k : κ}

/-! ## What a log tells -/

def Op.polled? : Op κ ι → Option (κ × Option (Option ι))
  | .poll k r => some (k, r)
  | _ => none

def Op.added? : Op κ ι → Option κ
  | .add k _ => some k
  | _ => none

def polled (ops : List (Op κ ι)) : List (κ × Option (Option ι)) := ops.filterMap Op.polled?

def added (ops : List (Op κ ι)) : List κ := ops.filterMap Op.added?

theorem polled_concat (ops : List (Op κ ι)) (op : Op κ ι) :
    polled (ops ++ [op]) = polled ops ++ op.polled?.toList :=
  filterMap_concat ..

theorem added_concat (ops : List (Op κ ι)) (op : Op κ ι) :
    added (ops ++ [op]) = added ops ++ op.added?.toList :=
  filterMap_concat ..

section

variable [DecidableEq κ] (k : κ)

/-- The results that `k` was given. -/
def Op.supplied? : Op κ ι → Option (Option ι)
  | .supply k' r => if k' = k then some r else none
  | _ => none

/-- The results that `k` gave. -/
def Op.given? : Op κ ι → Option (Option ι)
  | .poll k' r => if k' = k then r else none
  | _ => none

def supplied (ops : List (Op κ ι)) : List (Option ι) := ops.filterMap (Op.supplied? k)

def given (ops : List (Op κ ι)) : List (Option ι) := ops.filterMap (Op.given? k)

theorem supplied_concat (ops : List (Op κ ι)) (op : Op κ ι) :
    supplied k (ops ++ [op]) = supplied k ops ++ (op.supplied? k).toList :=
  filterMap_concat ..

theorem given_concat (ops : List (Op κ ι)) (op : Op κ ι) :
    given k (ops ++ [op]) = given k ops ++ (op.given? k).toList :=
  filterMap_concat ..

end

section

variable [DecidableEq κ]

theorem mem_given {r : Option ι} : r ∈ given k ops ↔ Op.poll k (some r) ∈ ops := by
  simp only [given, List.mem_filterMap]
  constructor
  · rintro ⟨op, hop, hgiven⟩
    cases op with
    | poll k' r' =>
        simp only [Op.given?] at hgiven
        split at hgiven
        · subst_vars
          exact hop
        · cases hgiven
    | _ => cases hgiven
  · intro hop
    exact ⟨_, hop, by simp [Op.given?]⟩

theorem exists_map_some {rs : List (Option ι)} (h : none ∉ rs) :
    ∃ xs : List ι, rs = xs.map some := by
  induction rs with
  | nil => exact ⟨[], rfl⟩
  | cons r rs ih =>
      obtain ⟨xs, rfl⟩ := ih fun hmem ↦ h (List.mem_cons_of_mem r hmem)
      cases r with
      | none => simp at h
      | some x => exact ⟨x :: xs, rfl⟩

end

/-! ## A source that has ended is not polled again -/

/-- The sources that may be polled in this round or a later one. -/
def State.open (s : State κ ι) : List κ :=
  match s.phase with
  | .idle | .selecting => s.held ++ s.added
  | .round todo kept _ => kept ++ (todo ++ s.added)
  | .closed => []

/-- The open sources are different, and have not ended. -/
structure Fresh (ops : List (Op κ ι)) (s : State κ ι) : Prop where
  nodup : s.open.Nodup
  open_added : ∀ k ∈ s.open, k ∈ added ops
  polled_added : ∀ k r, .poll k r ∈ ops → k ∈ added ops
  not_ended : ∀ k ∈ s.open, .poll k (some none) ∉ ops

/-- Operations that neither add nor poll, and open no source. -/
theorem Fresh.of_sublist (hs : Fresh ops s) (hopen : t.open.Sublist s.open)
    (hadded : op.added? = none) (hpolled : op.polled? = none) : Fresh (ops ++ [op]) t := by
  have hadded' : added (ops ++ [op]) = added ops := by simp [added_concat, hadded]
  have hpoll : ∀ k r, Op.poll k r ∈ ops ++ [op] → Op.poll k r ∈ ops := by
    intro k r hmem
    rcases List.mem_append.mp hmem with hmem | hmem
    · exact hmem
    · cases List.mem_singleton.mp hmem
      cases hpolled
  refine ⟨hopen.nodup hs.nodup, ?_, ?_, ?_⟩
  · intro k hk
    rw [hadded']
    exact hs.open_added k (hopen.subset hk)
  · intro k r hmem
    rw [hadded']
    exact hs.polled_added k r (hpoll k r hmem)
  · intro k hk hmem
    exact hs.not_ended k (hopen.subset hk) (hpoll k _ hmem)

theorem open_add_sublist (s : State κ ι) (k : κ) :
    (State.open { s with added := s.added ++ [k] }).Sublist (s.open ++ [k]) := by
  unfold State.open
  cases s.phase <;> simp

theorem Fresh.add {o : Occasion} (hs : Fresh ops s)
    (hadded : (added (ops ++ [Op.add k o])).Nodup) :
    Fresh (ops ++ [Op.add k o]) { s with added := s.added ++ [k] } := by
  have hconcat : added (ops ++ [Op.add k o]) = added ops ++ [k] := added_concat ..
  have hnew : k ∉ added ops := by
    rw [hconcat] at hadded
    exact fun hk ↦ List.disjoint_of_nodup_append hadded hk (List.mem_singleton_self k)
  have hopen := open_add_sublist s k
  have hmem : ∀ k' ∈ State.open { s with added := s.added ++ [k] }, k' ∈ s.open ∨ k' = k := by
    intro k' hk'
    simpa using hopen.subset hk'
  refine ⟨hopen.nodup ?_, ?_, ?_, ?_⟩
  · rw [← List.concat_eq_append]
    exact hs.nodup.concat fun hk ↦ hnew (hs.open_added k hk)
  · intro k' hk'
    rw [hconcat]
    rcases hmem k' hk' with hold | rfl
    · exact List.mem_append_left _ (hs.open_added k' hold)
    · simp
  · intro k' r hpoll
    rw [hconcat]
    exact List.mem_append_left _ (hs.polled_added k' r (by simpa using hpoll))
  · intro k' hk' hpoll
    have hpoll' : Op.poll k' (some none) ∈ ops := by simpa using hpoll
    rcases hmem k' hk' with hold | rfl
    · exact hs.not_ended k' hold hpoll'
    · exact hnew (hs.polled_added k' _ hpoll')

theorem Fresh.poll {todo kept : List κ} {any : Bool} {r : Option (Option ι)}
    {queue : κ → List (Option ι)} (hs : Fresh ops s)
    (hphase : s.phase = .round (k :: todo) kept any) :
    Fresh (ops ++ [Op.poll k r])
      { s with phase := .poll k todo kept any r, queue := queue } := by
  have hbefore : s.open = kept ++ k :: (todo ++ s.added) := by simp [State.open, hphase]
  have hk : k ∈ s.open := by simp [hbefore]
  have hopen : (State.open
      { s with phase := .poll k todo kept any r, queue := queue }).Sublist s.open := by
    rw [hbefore]
    rcases r with _ | _ | _
    · simp [State.open, Phase.poll]
    · simp [State.open, Phase.poll]
    · simp [State.open, Phase.poll]
  have hconcat : added (ops ++ [Op.poll k r]) = added ops := by simp [added_concat, Op.added?]
  refine ⟨hopen.nodup hs.nodup, ?_, ?_, ?_⟩
  · intro k' hk'
    rw [hconcat]
    exact hs.open_added k' (hopen.subset hk')
  · intro k' r' hpoll
    rw [hconcat]
    rcases List.mem_append.mp hpoll with hpoll | hpoll
    · exact hs.polled_added k' r' hpoll
    · cases List.mem_singleton.mp hpoll
      exact hs.open_added k hk
  · intro k' hk' hpoll
    rcases List.mem_append.mp hpoll with hpoll | hpoll
    · exact hs.not_ended k' (hopen.subset hk') hpoll
    · -- the source that has ended just now is dropped
      cases List.mem_singleton.mp hpoll
      have hnodup := hs.nodup
      rw [hbefore, List.nodup_middle, List.nodup_cons] at hnodup
      exact hnodup.1 hk'

/-! ## The log of a round -/

/-- What has happened in a round since it has begun. A poll tells an end if it is `some none`, and
an item if it is `some (some _)`. -/
structure Round (held : List κ) (mid : List (Op κ ι)) (todo kept : List κ) (any : Bool) : Prop where
  inside : ∀ held', .begin held' ∉ mid
  polls : (polled mid).map Prod.fst ++ todo = held
  kept : ((polled mid).filter fun p ↦ p.2.all Option.isSome).map Prod.fst = kept
  any : ((polled mid).any fun p ↦ p.2.any Option.isSome) = any

theorem Round.other {held todo kept : List κ} {mid : List (Op κ ι)} {any : Bool}
    (h : Round held mid todo kept any) (hpolled : op.polled? = none)
    (hbegin : ∀ held', op ≠ Op.begin held') : Round held (mid ++ [op]) todo kept any := by
  have hconcat : polled (mid ++ [op]) = polled mid := by simp [polled_concat, hpolled]
  refine ⟨?_, by rw [hconcat, h.polls], by rw [hconcat, h.kept], by rw [hconcat, h.any]⟩
  intro held' hmem
  rcases List.mem_append.mp hmem with hmem | hmem
  · exact h.inside held' hmem
  · exact hbegin held' (List.mem_singleton.mp hmem).symm

theorem Round.poll {held todo kept : List κ} {mid : List (Op κ ι)} {any : Bool}
    (h : Round held mid (k :: todo) kept any) :
    Round held (mid ++ [Op.poll k none]) todo (kept ++ [k]) any ∧
      (∀ x, Round held (mid ++ [Op.poll k (some (some x))]) todo (kept ++ [k]) true) ∧
      Round held (mid ++ [Op.poll k (some none)]) todo kept any := by
  have hinside : ∀ r held', Op.begin held' ∉ mid ++ [Op.poll k r] := by
    intro r held' hmem
    exact h.inside held' (by simpa using hmem)
  have hconcat : ∀ r, polled (mid ++ [Op.poll k r]) = polled mid ++ [(k, r)] :=
    fun r ↦ polled_concat ..
  have hpolls : ∀ r, (polled (mid ++ [Op.poll k r])).map Prod.fst ++ todo = held := by
    intro r
    rw [hconcat, List.map_append, List.append_assoc]
    exact h.polls
  have hkept := h.kept
  have hany := h.any
  refine ⟨⟨hinside _, hpolls _, ?_, ?_⟩, fun x ↦ ⟨hinside _, hpolls _, ?_, ?_⟩,
    ⟨hinside _, hpolls _, ?_, ?_⟩⟩ <;> simp [hconcat, hkept, hany]

/-! ## Sources that wait -/

def wait (ws : List (κ × Occasion)) : Op κ ι → List (κ × Occasion)
  | .add k o => ws ++ [(k, o)]
  | .collect | .reset => []
  | _ => ws

/-- The sources added since the last collection, with the occasion. -/
def waiting (ops : List (Op κ ι)) : List (κ × Occasion) := ops.foldl wait []

theorem waiting_concat (ops : List (Op κ ι)) (op : Op κ ι) :
    waiting (ops ++ [op]) = wait (waiting ops) op :=
  List.foldl_concat ..

def accrue (ks : List κ) : Op κ ι → List κ
  | .add k _ => ks ++ [k]
  | .reset => []
  | _ => ks

/-- The sources added since the last reset. -/
def current (ops : List (Op κ ι)) : List κ := ops.foldl accrue []

theorem current_concat (ops : List (Op κ ι)) (op : Op κ ι) :
    current (ops ++ [op]) = accrue (current ops) op :=
  List.foldl_concat ..

/-- Between a collection and the next item. -/
def Phase.calm : Phase κ → Bool
  | .selecting => true
  | .round _ _ any => !any
  | _ => false

/-- In a calm phase only ends have been occasions to add a source. -/
structure Waits (ops : List (Op κ ι)) (s : State κ ι) : Prop where
  added : (waiting ops).map Prod.fst = s.added
  calm : s.phase.calm = true → ∀ w ∈ waiting ops, w.2 = .finish

theorem Waits.other (hs : Waits ops s) (hwait : wait (waiting ops) op = waiting ops)
    (hadded : t.added = s.added) (hcalm : t.phase.calm = true → s.phase.calm = true) :
    Waits (ops ++ [op]) t := by
  constructor
  · rw [waiting_concat, hwait, hadded, hs.added]
  · rw [waiting_concat, hwait]
    exact fun h ↦ hs.calm (hcalm h)

theorem Waits.add {o : Occasion} (hs : Waits ops s) (hadmits : s.phase.admits o = true) :
    Waits (ops ++ [Op.add k o]) { s with added := s.added ++ [k] } := by
  have hconcat : waiting (ops ++ [Op.add k o]) = waiting ops ++ [(k, o)] := waiting_concat ..
  constructor
  · rw [hconcat, List.map_append, hs.added]
    rfl
  · rw [hconcat]
    intro hcalm w hw
    rcases List.mem_append.mp hw with hw | hw
    · exact hs.calm hcalm w hw
    · cases List.mem_singleton.mp hw
      change s.phase.calm = true at hcalm
      cases hphase : s.phase with
      | round todo kept any =>
          rw [hphase] at hadmits hcalm
          cases o <;> simp_all [Phase.admits, Phase.calm]
      | _ => cases o <;> simp_all [Phase.admits, Phase.calm]

/-- The sources that are collected and still to be polled in this round, or in the next one. -/
def State.unpolled (s : State κ ι) : List κ :=
  match s.phase with
  | .idle | .selecting => s.held
  | .round todo _ _ => todo
  | .closed => []

/-- Before it closes, the owner loses no source. -/
def Covers (ops : List (Op κ ι)) (s : State κ ι) : Prop :=
  s.phase ≠ .closed →
    ∀ k ∈ current ops, k ∈ s.added ∨ k ∈ s.unpolled ∨ ∃ r, .poll k r ∈ ops

theorem Covers.other (hs : Covers ops s) (haccrue : accrue (current ops) op = current ops)
    (hphase : t.phase ≠ .closed → s.phase ≠ .closed)
    (hsub : ∀ k, k ∈ s.added ∨ k ∈ s.unpolled →
      k ∈ t.added ∨ k ∈ t.unpolled ∨ ∃ r, Op.poll k r ∈ ops ++ [op]) :
    Covers (ops ++ [op]) t := by
  intro hopen k hk
  rw [current_concat, haccrue] at hk
  rcases hs (hphase hopen) k hk with hadded | hunpolled | ⟨r, hpoll⟩
  · exact hsub k (.inl hadded)
  · exact hsub k (.inr hunpolled)
  · exact .inr (.inr ⟨r, List.mem_append_left _ hpoll⟩)

/-! ## Steps -/

variable [DecidableEq κ] [DecidableEq ι]

def State.initial : State κ ι := ⟨.idle, [], [], fun _ ↦ []⟩

def step (s : State κ ι) : Op κ ι → Option (State κ ι)
  | .supply k r => some { s with queue := Function.update s.queue k (s.queue k ++ [r]) }
  | .reset => some { s with phase := .idle, held := [], added := [] }
  | .add k o => if s.phase.admits o then some { s with added := s.added ++ [k] } else none
  | .collect =>
      if s.phase = .idle then
        some { s with phase := .selecting, held := s.held ++ s.added, added := [] }
      else none
  | .leave => if s.phase = .selecting then some { s with phase := .idle } else none
  | .begin held =>
      if s.phase = .selecting ∧ s.held = held then
        some { s with phase := .round held [] false }
      else none
  | .poll k r =>
      match s.phase with
      | .round (k' :: todo) kept any =>
          if k' = k ∧ (s.queue k).head? = r then
            some { s with
              phase := .poll k todo kept any r
              queue := Function.update s.queue k (s.queue k).tail }
          else none
      | _ => none
  | .finish kept any =>
      if s.phase = .round [] kept any then
        some { s with phase := if any then .idle else .selecting, held := kept }
      else none
  | .close => some { s with phase := .closed }

/-- One rule for each operation. -/
inductive Effect (s : State κ ι) : Op κ ι → State κ ι → Prop
  | supply (k : κ) (r : Option ι) :
      Effect s (.supply k r) { s with queue := Function.update s.queue k (s.queue k ++ [r]) }
  | reset : Effect s .reset { s with phase := .idle, held := [], added := [] }
  | add (k : κ) (o : Occasion) (hadmits : s.phase.admits o = true) :
      Effect s (.add k o) { s with added := s.added ++ [k] }
  | collect (hphase : s.phase = .idle) :
      Effect s .collect { s with phase := .selecting, held := s.held ++ s.added, added := [] }
  | leave (hphase : s.phase = .selecting) : Effect s .leave { s with phase := .idle }
  | begin (hphase : s.phase = .selecting) :
      Effect s (.begin s.held) { s with phase := .round s.held [] false }
  | poll (k : κ) (todo kept : List κ) (any : Bool)
      (hphase : s.phase = .round (k :: todo) kept any) :
      Effect s (.poll k (s.queue k).head?) { s with
        phase := .poll k todo kept any (s.queue k).head?
        queue := Function.update s.queue k (s.queue k).tail }
  | finish (kept : List κ) (any : Bool) (hphase : s.phase = .round [] kept any) :
      Effect s (.finish kept any)
        { s with phase := if any then .idle else .selecting, held := kept }
  | close : Effect s .close { s with phase := .closed }

theorem effect_of_step (h : step s op = some t) : Effect s op t := by
  cases op with
  | supply k r =>
      cases h
      exact .supply k r
  | reset =>
      cases h
      exact .reset
  | add k o =>
      simp only [step] at h
      split at h
      · cases h
        exact .add k o (by assumption)
      · cases h
  | collect =>
      simp only [step] at h
      split at h
      · cases h
        exact .collect (by assumption)
      · cases h
  | leave =>
      simp only [step] at h
      split at h
      · cases h
        exact .leave (by assumption)
      · cases h
  | begin held =>
      simp only [step] at h
      split at h
      · rename_i hbegin
        obtain ⟨hphase, rfl⟩ := hbegin
        cases h
        exact .begin hphase
      · cases h
  | poll k r =>
      simp only [step] at h
      split at h
      · rename_i hphase
        split at h
        · rename_i hpoll
          obtain ⟨rfl, rfl⟩ := hpoll
          cases h
          exact .poll _ _ _ _ hphase
        · cases h
      · cases h
  | finish kept any =>
      simp only [step] at h
      split at h
      · cases h
        exact .finish kept any (by assumption)
      · cases h
  | close =>
      cases h
      exact .close

/-! ## Results come in order -/

/-- A source gives its results in order, and the rest is still to come. -/
theorem supplied_eq (hrun : run step State.initial ops = some s) (k : κ) :
    supplied k ops = given k ops ++ s.queue k := by
  refine run_history (P := fun ops s ↦ supplied k ops = given k ops ++ s.queue k) rfl ?_ hrun
  intro ops s op t ih _ hstep
  rw [supplied_concat, given_concat, ih, List.append_assoc, List.append_assoc]
  congr 1
  cases effect_of_step hstep with
  | supply k' r =>
      by_cases hk : k' = k
      · subst hk
        simp [Op.supplied?, Op.given?]
      · simp [Op.supplied?, Op.given?, hk, Function.update_of_ne (Ne.symm hk)]
  | poll k' todo kept any hphase =>
      by_cases hk : k' = k
      · subst hk
        cases hqueue : s.queue k' with
        | nil => simp [Op.supplied?, Op.given?]
        | cons r rest => simp [Op.supplied?, Op.given?]
      · simp [Op.supplied?, Op.given?, hk, Function.update_of_ne (Ne.symm hk)]
  | _ => simp [Op.supplied?, Op.given?]

theorem fresh_of_step (hs : Fresh ops s) (hadded : (added (ops ++ [op])).Nodup)
    (h : step s op = some t) : Fresh (ops ++ [op]) t := by
  cases effect_of_step h with
  | supply k r => exact hs.of_sublist (.refl _) rfl rfl
  | reset => exact hs.of_sublist (List.nil_sublist _) rfl rfl
  | add k o hadmits => exact hs.add hadded
  | collect hphase => exact hs.of_sublist (by simp [State.open, hphase]) rfl rfl
  | leave hphase => exact hs.of_sublist (by simp [State.open, hphase]) rfl rfl
  | begin hphase => exact hs.of_sublist (by simp [State.open, hphase]) rfl rfl
  | poll k todo kept any hphase => exact hs.poll hphase
  | finish kept any hphase =>
      refine hs.of_sublist ?_ rfl rfl
      cases any <;> simp [State.open, hphase]
  | close => exact hs.of_sublist (List.nil_sublist _) rfl rfl

theorem fresh_of_run (hrun : run step State.initial ops = some s) (hadded : (added ops).Nodup) :
    Fresh ops s := by
  refine run_history (P := fun ops s ↦ (added ops).Nodup → Fresh ops s) ?_ ?_ hrun hadded
  · intro _
    exact ⟨List.nodup_nil, by simp [State.open, State.initial], by simp,
      by simp [State.open, State.initial]⟩
  · intro ops s op t ih _ hstep hadded
    have hbefore : (added ops).Nodup := by
      rw [added_concat] at hadded
      exact hadded.of_append_left
    exact fresh_of_step (ih hbefore) hadded hstep

/-- Where a log has a given operation, the run has a step. -/
theorem step_at {pre post : List (Op κ ι)}
    (hrun : run step State.initial (pre ++ op :: post) = some u) :
    ∃ s t, run step State.initial pre = some s ∧ step s op = some t := by
  obtain ⟨s, hs, hrest⟩ := run_append_eq_some.mp hrun
  obtain ⟨t, ht, -⟩ := run_cons_eq_some.mp hrest
  exact ⟨s, t, hs, ht⟩

theorem not_polled_after_end {pre post : List (Op κ ι)}
    (hrun : run step State.initial (pre ++ Op.poll k (some none) :: post) = some u)
    (hadded : (added (pre ++ Op.poll k (some none) :: post)).Nodup) (r : Option (Option ι)) :
    Op.poll k r ∉ post := by
  intro hmem
  obtain ⟨mid, rest, rfl⟩ := List.append_of_mem hmem
  rw [← List.cons_append, ← List.append_assoc] at hrun hadded
  obtain ⟨s, t, hs, hstep⟩ := step_at hrun
  have hfresh := fresh_of_run hs (by
    rw [added, List.filterMap_append] at hadded
    exact hadded.of_append_left)
  cases effect_of_step hstep with
  | poll _ todo kept any hphase =>
      refine hfresh.not_ended k ?_ (by simp)
      simp [State.open, hphase]

/-- A source gives items, and its end once after all of them. -/
theorem given_shape (hrun : run step State.initial ops = some s) (hadded : (added ops).Nodup)
    (k : κ) :
    ∃ xs : List ι, given k ops = xs.map some ∨ given k ops = xs.map some ++ [none] := by
  by_cases hend : Op.poll k (some none) ∈ ops
  · obtain ⟨pre, post, rfl⟩ := List.append_of_mem hend
    have hpre : Op.poll k (some none) ∉ pre := by
      intro hmem
      obtain ⟨before, mid, rfl⟩ := List.append_of_mem hmem
      rw [List.append_assoc, List.cons_append] at hrun hadded
      exact not_polled_after_end hrun hadded (some none) (by simp)
    have hpost : given k post = [] := by
      refine List.eq_nil_iff_forall_not_mem.mpr fun r hr ↦ ?_
      exact not_polled_after_end hrun hadded (some r) (mem_given.mp hr)
    obtain ⟨xs, hxs⟩ := exists_map_some fun hmem ↦ hpre (mem_given.mp hmem)
    refine ⟨xs, .inr ?_⟩
    rw [List.append_cons, given, List.filterMap_append]
    change given k (pre ++ [Op.poll k (some none)]) ++ given k post = _
    rw [given_concat, hxs, hpost, List.append_nil]
    simp [Op.given?]
  · obtain ⟨xs, hxs⟩ := exists_map_some fun hmem ↦ hend (mem_given.mp hmem)
    exact ⟨xs, .inl hxs⟩

/-! ## Rounds -/

theorem round_of_run (hrun : run step State.initial ops = some s) :
    ∀ {todo kept : List κ} {any : Bool}, s.phase = .round todo kept any →
      ∃ pre mid, ops = pre ++ Op.begin s.held :: mid ∧ Round s.held mid todo kept any := by
  refine run_history (P := fun ops s ↦ ∀ {todo kept : List κ} {any : Bool},
    s.phase = .round todo kept any →
      ∃ pre mid, ops = pre ++ Op.begin s.held :: mid ∧ Round s.held mid todo kept any) ?_ ?_ hrun
  · intro _ _ _ hphase
    cases hphase
  · intro ops s op t ih _ hstep todo kept any hphase
    have hextend : ∀ {pre mid : List (Op κ ι)}, ops = pre ++ Op.begin s.held :: mid →
        ops ++ [op] = pre ++ Op.begin s.held :: (mid ++ [op]) := by
      rintro pre mid rfl
      simp
    cases effect_of_step hstep with
    | supply k r =>
        obtain ⟨pre, mid, hops, hround⟩ := ih hphase
        exact ⟨pre, mid ++ [_], hextend hops, hround.other rfl (by simp)⟩
    | add k o hadmits =>
        obtain ⟨pre, mid, hops, hround⟩ := ih hphase
        exact ⟨pre, mid ++ [_], hextend hops, hround.other rfl (by simp)⟩
    | begin _ =>
        cases hphase
        exact ⟨ops, [], rfl, ⟨by simp, by simp [polled], by simp [polled], by simp [polled]⟩⟩
    | poll k todo' kept' any' hbefore =>
        obtain ⟨pre, mid, hops, hround⟩ := ih hbefore
        refine ⟨pre, mid ++ [_], hextend hops, ?_⟩
        obtain ⟨hpending, hitem, hended⟩ := hround.poll
        rcases hr : (s.queue k).head? with _ | _ | x <;> simp only [hr, Phase.poll] at hphase <;>
          cases hphase
        · exact hpending
        · exact hended
        · exact hitem x
    | finish kept' any' _ => cases any' <;> cases hphase
    | _ => cases hphase

/-- A round polls the sources that are held once, in order, keeps those that have not ended in their
order, and tells if there was an item. -/
theorem rounds_of_run {pre post : List (Op κ ι)} {kept : List κ} {any : Bool}
    (hrun : run step State.initial (pre ++ Op.finish kept any :: post) = some u) :
    ∃ before held mid, pre = before ++ Op.begin held :: mid ∧ Round held mid [] kept any := by
  obtain ⟨s, t, hs, hstep⟩ := step_at hrun
  cases effect_of_step hstep with
  | finish _ _ hphase =>
      obtain ⟨before, mid, hpre, hround⟩ := round_of_run hs hphase
      exact ⟨before, s.held, mid, hpre, hround⟩

theorem held_after_begin {pre : List (Op κ ι)} {held : List κ}
    (hrun : run step State.initial (pre ++ [Op.begin held]) = some s) : s.held = held := by
  obtain ⟨r, -, hstep⟩ := run_concat_eq_some.mp hrun
  cases effect_of_step hstep with
  | begin _ => rfl

theorem held_after_finish {pre : List (Op κ ι)} {kept : List κ} {any : Bool}
    (hrun : run step State.initial (pre ++ [Op.finish kept any]) = some s) : s.held = kept := by
  obtain ⟨r, -, hstep⟩ := run_concat_eq_some.mp hrun
  cases effect_of_step hstep with
  | finish _ _ _ => rfl

/-! ## Sources in a calm phase -/

theorem waits_of_run (hrun : run step State.initial ops = some s) : Waits ops s := by
  refine run_history (P := Waits) ⟨rfl, by simp [State.initial, Phase.calm]⟩ ?_ hrun
  intro ops s op t ih _ hstep
  cases effect_of_step hstep with
  | supply k r => exact ih.other rfl rfl id
  | reset =>
      constructor
      · rw [waiting_concat]
        rfl
      · simp [Phase.calm]
  | add k o hadmits => exact ih.add hadmits
  | collect hphase =>
      constructor
      · rw [waiting_concat]
        rfl
      · simp [waiting_concat, wait]
  | leave hphase => exact ih.other rfl rfl (by simp [Phase.calm])
  | begin hphase => exact ih.other rfl rfl (by simp [hphase, Phase.calm])
  | poll k todo kept any hphase =>
      refine ih.other rfl rfl ?_
      rw [hphase]
      rcases (s.queue k).head? with _ | _ | x <;> simp [Phase.poll, Phase.calm]
  | finish kept any hphase =>
      refine ih.other rfl rfl ?_
      rw [hphase]
      cases any <;> simp [Phase.calm]
  | close => exact ih.other rfl rfl (by simp [Phase.calm])

theorem covers_of_run (hrun : run step State.initial ops = some s) : Covers ops s := by
  refine run_history (P := Covers) (by simp [Covers, current]) ?_ hrun
  intro ops s op t ih _ hstep
  cases effect_of_step hstep with
  | supply k r => exact ih.other rfl id fun k hk ↦ hk.elim .inl fun hk ↦ .inr (.inl hk)
  | reset =>
      intro _ k hk
      simp [current_concat, accrue] at hk
  | add k o hadmits =>
      intro hopen k' hk'
      rw [current_concat] at hk'
      rcases List.mem_append.mp hk' with hk' | hk'
      · rcases ih hopen k' hk' with hadded | hunpolled | ⟨r, hpoll⟩
        · exact .inl (List.mem_append_left _ hadded)
        · exact .inr (.inl hunpolled)
        · exact .inr (.inr ⟨r, List.mem_append_left _ hpoll⟩)
      · exact .inl (List.mem_append_right _ hk')
  | collect hphase =>
      refine ih.other rfl (by simp [hphase]) fun k hk ↦ .inr (.inl ?_)
      simp only [State.unpolled, hphase, List.mem_append] at hk ⊢
      exact hk.symm
  | leave hphase =>
      refine ih.other rfl (by simp [hphase]) fun k hk ↦ ?_
      simp only [State.unpolled, hphase] at hk ⊢
      exact hk.elim .inl fun hk ↦ .inr (.inl hk)
  | begin hphase =>
      refine ih.other rfl (by simp [hphase]) fun k hk ↦ ?_
      simp only [State.unpolled, hphase] at hk ⊢
      exact hk.elim .inl fun hk ↦ .inr (.inl hk)
  | poll k todo kept any hphase =>
      refine ih.other rfl (by simp [hphase]) fun k' hk' ↦ ?_
      have hunpolled : State.unpolled { s with
          phase := .poll k todo kept any (s.queue k).head?
          queue := Function.update s.queue k (s.queue k).tail } = todo := by
        rcases (s.queue k).head? with _ | _ | x <;> rfl
      rw [hunpolled]
      simp only [State.unpolled, hphase, List.mem_cons] at hk'
      rcases hk' with hadded | rfl | htodo
      · exact .inl hadded
      · exact .inr (.inr ⟨(s.queue k').head?, by simp⟩)
      · exact .inr (.inl htodo)
  | finish kept any hphase =>
      refine ih.other rfl (by simp [hphase]) fun k hk ↦ .inl ?_
      simpa [State.unpolled, hphase] using hk
  | close => exact fun h ↦ absurd rfl h

/-- After a round without an item, and until something else happens: what waits was added in
reaction to an end, and every other source has been polled. -/
theorem waiting_after_round {pre rest : List (Op κ ι)} {kept : List κ}
    (hrest : ∀ op ∈ rest, ∃ k r, op = .supply k r)
    (hrun : run step State.initial (pre ++ [Op.finish kept false] ++ rest) = some s) :
    s.phase = .selecting ∧
      (waiting (pre ++ [Op.finish kept false] ++ rest)).map Prod.fst = s.added ∧
      (∀ w ∈ waiting (pre ++ [Op.finish kept false] ++ rest), w.2 = .finish) ∧
      ∀ k ∈ current (pre ++ [Op.finish kept false] ++ rest),
        k ∈ s.added ∨ ∃ r, Op.poll k r ∈ pre := by
  induction rest using List.reverseRecOn generalizing s with
  | nil =>
      rw [List.append_nil] at hrun ⊢
      have hwaits := waits_of_run hrun
      obtain ⟨r, hr, hstep⟩ := run_concat_eq_some.mp hrun
      have hcovers := covers_of_run hr
      cases effect_of_step hstep with
      | finish _ _ hphase =>
          refine ⟨rfl, hwaits.added, hwaits.calm rfl, ?_⟩
          rw [current_concat]
          intro k hk
          simpa [State.unpolled, hphase] using hcovers (by simp [hphase]) k hk
  | append_singleton rest op ih =>
      rw [← List.append_assoc] at hrun ⊢
      obtain ⟨r, hr, hstep⟩ := run_concat_eq_some.mp hrun
      obtain ⟨k, res, rfl⟩ := hrest op (by simp)
      have hbefore := ih (fun op hop ↦ hrest op (List.mem_append_left _ hop)) hr
      rw [waiting_concat, current_concat]
      cases effect_of_step hstep with
      | supply => exact hbefore

end Rounds
