import Cineyma.Foundations.SlidingWindow

/-!
# Supervision strategies and the restart budget

The tracker of a child forgets a restart once it is older than `within`. At times that never
decrease it answers as a tracker would that remembers every restart.
-/

namespace Cineyma.Runtime

open SlidingWindow

inductive SupervisorStrategy where
  | stop
  | restart (maxRestarts : ℕ) (within : ℕ)
  | escalate
  deriving DecidableEq

/-- Times are numbers of nanoseconds; `maxRestarts` is a `u32` in the source, and only compared. -/
structure RestartTracker where
  restartTimes : List ℕ
  maxRestarts : ℕ
  within : ℕ
  deriving DecidableEq

namespace RestartTracker

def new (maxRestarts within : ℕ) : RestartTracker := ⟨[], maxRestarts, within⟩

def recordRestart (t : RestartTracker) (now : ℕ) : RestartTracker × Bool :=
  let recent := t.restartTimes.filter fun time ↦ now - time ≤ t.within
  if recent.length < t.maxRestarts then
    ({ t with restartTimes := recent ++ [now] }, true)
  else
    ({ t with restartTimes := recent }, false)

/-- The first failure is within the budget if there is one. -/
theorem recordRestart_new (maxRestarts within now : ℕ) :
    ((new maxRestarts within).recordRestart now).2 = decide (0 < maxRestarts) := by
  by_cases h : 0 < maxRestarts <;> simp [recordRestart, new, h]

/-- The tracker that the task of a supervised child starts with. -/
def ofStrategy : SupervisorStrategy → Option RestartTracker
  | .restart maxRestarts within => some (.new maxRestarts within)
  | _ => none

/-! ## The restarts of a window -/

/-- The restart at `time` is at most `within` before `now`. -/
def recent (within now time : ℕ) : Bool := now - time ≤ within

theorem recordRestart_eq_record (maxRestarts within : ℕ) (log : List ℕ) (now : ℕ) :
    recordRestart ⟨log, maxRestarts, within⟩ now =
      (⟨(record (recent within) maxRestarts log now).1, maxRestarts, within⟩,
        (record (recent within) maxRestarts log now).2) := by
  have hrecent : (fun time ↦ decide (now - time ≤ within)) = recent within now := rfl
  simp only [recordRestart, record, hrecent]
  split <;> rfl

theorem ageing_recent (within : ℕ) : Ageing (recent within) := by
  intro now later time hle hrecent
  simp only [recent, decide_eq_true_eq] at hrecent ⊢
  omega

theorem recent_self (within now : ℕ) : recent within now now = true := by
  simp [recent]

/-- Calls at times that never decrease are answered by the full history: a restart is granted if and
only if fewer than `maxRestarts` of those granted before are at most `within` old. So no window of
that length has more than `maxRestarts` restarts, a refused call does not count, and the tracker
stores the restarts of the current window. -/
theorem restart_budget (maxRestarts within : ℕ) {times : List ℕ}
    (hordered : times.Pairwise (· ≤ ·)) :
    answers recordRestart (new maxRestarts within) times =
        answers (grant (recent within) maxRestarts) [] times ∧
    (∀ pre now post, times = pre ++ now :: post →
      (((after recordRestart (new maxRestarts within) pre).recordRestart now).2 = true ↔
        (granted recordRestart (new maxRestarts within) pre).countP
          (fun time ↦ now - time ≤ within) < maxRestarts)) ∧
    (∀ start, (granted recordRestart (new maxRestarts within) times).countP
      (fun time ↦ start ≤ time ∧ time ≤ start + within) ≤ maxRestarts) ∧
    (∀ pre now post, times = pre ++ now :: post →
      ((after recordRestart (new maxRestarts within) pre).recordRestart now).2 = false →
      answers recordRestart (after recordRestart (new maxRestarts within) (pre ++ [now])) post =
        answers recordRestart (after recordRestart (new maxRestarts within) pre) post) ∧
    ∀ pre now post, times = pre ++ now :: post →
      (after recordRestart (new maxRestarts within) (pre ++ [now])).restartTimes =
          (granted recordRestart (new maxRestarts within) (pre ++ [now])).filter
            (fun time ↦ now - time ≤ within) ∧
        (after recordRestart (new maxRestarts within) (pre ++ [now])).restartTimes.Pairwise
          (· ≤ ·) ∧
        (after recordRestart (new maxRestarts within) (pre ++ [now])).restartTimes.length ≤
          maxRestarts := by
  have hages := ageing_recent within
  have hrecord := recordRestart_eq_record maxRestarts within
  have hafter : ∀ times, after recordRestart (new maxRestarts within) times =
      ⟨after (record (recent within) maxRestarts) [] times, maxRestarts, within⟩ :=
    after_map hrecord []
  have hgranted : ∀ times, granted recordRestart (new maxRestarts within) times =
      granted (record (recent within) maxRestarts) [] times :=
    granted_map hrecord []
  -- the calls before one of the run are ordered too, and none is later
  have hbefore : ∀ pre now post, times = pre ++ now :: post →
      pre.Pairwise (· ≤ ·) ∧ (∀ time ∈ pre, time ≤ now) ∧ ∀ time ∈ post, now ≤ time := by
    rintro pre now post rfl
    obtain ⟨hpre, hpost, hcross⟩ := List.pairwise_append.mp hordered
    refine ⟨hpre, fun time htime ↦ hcross time htime now (by simp), fun time htime ↦ ?_⟩
    exact List.rel_of_pairwise_cons hpost htime
  refine ⟨?_, ?_, ?_, ?_, ?_⟩
  · rw [← answers_record hages hordered]
    exact answers_map hrecord [] times
  · intro pre now post htimes
    obtain ⟨hpre, hnow, -⟩ := hbefore pre now post htimes
    rw [hafter, hgranted, hrecord]
    exact record_snd_iff hages hpre hnow
  · intro start
    rw [hgranted]
    refine countP_granted_le hages (fun a b hle ha hb ↦ ?_) hordered
    simp only [recent, decide_eq_true_eq] at ha hb ⊢
    omega
  · intro pre now post htimes hrefused
    obtain ⟨-, -, hpost⟩ := hbefore pre now post htimes
    rw [hafter, hrecord] at hrefused
    rw [hafter, hafter, after_concat, answers_map hrecord, answers_map hrecord]
    exact answers_after_refusal hages hrefused hpost
  · intro pre now post htimes
    obtain ⟨hpre, hnow, -⟩ := hbefore pre now post htimes
    rw [hafter, hgranted]
    have hstored : after (record (recent within) maxRestarts) [] (pre ++ [now]) =
        (granted (record (recent within) maxRestarts) [] (pre ++ [now])).filter
          (recent within now) :=
      after_record_concat hages (recent_self within now) hpre hnow
    refine ⟨hstored, ?_, length_after_record_le _ _ _⟩
    dsimp only
    rw [hstored]
    refine List.Pairwise.filter _ (List.Pairwise.sublist granted_sublist ?_)
    exact List.pairwise_append.mpr ⟨hpre, by simp, by simpa using hnow⟩

/-- Two restarts in ten units: at the time 10 both earlier ones still count, at 11 only one does,
and the refused call never. -/
theorem third_restart_refused :
    let t := RestartTracker.new 2 10
    answers recordRestart t [0, 5, 10, 11] = [true, true, false, true] ∧
      answers recordRestart (after recordRestart t [0, 5, 10]) [11] =
        answers recordRestart (after recordRestart t [0, 5]) [11] := by
  have hordered : [0, 5, 10, 11].Pairwise (· ≤ ·) := by decide
  obtain ⟨-, -, -, hrefusal, -⟩ := restart_budget 2 10 hordered
  exact ⟨by decide, hrefusal [0, 5] 10 [11] rfl (by decide)⟩

end RestartTracker

end Cineyma.Runtime
