import Mathlib

/-!
# One task popped from several task queues

A `Task` may sit in the task queues of several GPU processors at once: it is created with
`run_count = 0` and `finish_count = k`, one count per queue entry. Each `execute_gpu` that
pops it (`lowlevel_gpu.cc`) does `__sync_fetch_and_add(&run_count, 1)`. The pop that reads
`0` runs the task: it wraps it in a `GPUTask`, or, for the kill pill (`func_id == 0`),
triggers `finish_event` itself. Every other pop, and the kill pill's winner after its
trigger, gives its count back with `__sync_add_and_fetch(&finish_count, -1)` and runs
`delete task` if that reached `0`. The `GPUTask` gives the winner's count back in its
destructor, after `finish_job` (which triggers `finish_event` if it exists).

The `k` pops run the same code on the same task, so a state records how many pops (and how
many `GPUTask`s) are at each point of that code that still touches the task (`TaskRun`);
each atomic instruction is one step (`Move`), taken by any of them at that point. `zeroReads`, `triggers` and `deletes` count the
reads of `run_count == 0`, the triggers of `finish_event` and the `delete task`s.

* `Inv`: `finish_count` is the number of pops and `GPUTask`s that still hold a count, and
  `run_count` the number of pops past their fetch-and-add.
* `step_inv`, `Reachable.inv`: every step keeps it.
* `task_runs_once`: at most one read of `0`, one trigger and one `delete` at any time; a
  `delete task` is the last access; when no step is left there was exactly one of each;
  and every step lowers `rank`, so every interleaving ends.
-/

namespace Realm.Gpu.TaskLifecycle

/-- The task's counters; how many pops, and how many `GPUTask`s, are at each point of
their code; and the counts of observed events. -/
structure TaskRun where
  runCount : Nat
  finishCount : Int
  /-- Pops still ahead of their fetch-and-add on `run_count`. -/
  queued : Nat
  /-- Kill-pill pops that read `0`: the trigger of `finish_event` is next. -/
  triggering : Nat
  /-- Pops whose decrement of `finish_count` is next. -/
  releasing : Nat
  /-- Pops whose decrement reached `0`: `delete task` is next. -/
  deleting : Nat
  /-- `GPUTask`s made and not yet through `finish_job` (executing, waiting for the stream
  callback and for their turn in `complete_jobs`). -/
  gpuRunning : Nat
  /-- `GPUTask`s after `finish_job`: `delete` and the decrement in `~GPUTask` are next. -/
  gpuFinished : Nat
  /-- `GPUTask`s whose destructor's decrement reached `0`: `delete task` is next. -/
  gpuDeleting : Nat
  /-- `GPUTask`s destroyed. -/
  gpuGone : Nat
  zeroReads : Nat
  triggers : Nat
  deletes : Nat
  deriving DecidableEq, Repr

/-- A task in `k` queue entries, before any pop. -/
def init (k : Nat) : TaskRun :=
  ⟨0, k, k, 0, 0, 0, 0, 0, 0, 0, 0, 0, 0⟩

/-- One atomic step, taken by any pop or `GPUTask` at that point. -/
inductive Move where
  /-- A queued pop: `task_queue.pop()`, then `__sync_fetch_and_add(&run_count, 1)`. -/
  | fetchAdd
  /-- A kill-pill winner triggers `finish_event`. -/
  | trigger
  /-- A pop's `__sync_add_and_fetch(&finish_count, -1)`. -/
  | release
  /-- A pop's `delete task`. -/
  | delete
  /-- A `GPUTask`'s `finish_job`, which triggers `finish_event` if it exists. -/
  | finishJob
  /-- `delete` of a `GPUTask`: `~GPUTask` decrements `finish_count`. -/
  | destroy
  /-- `~GPUTask`'s `delete task`. -/
  | gpuDelete
  deriving DecidableEq, Repr

section Steps

variable (kill hasEvent : Bool)

/-- The fetch-and-add of a queued pop. The winner wraps the task in a `GPUTask`, or, for
the kill pill, goes on to trigger; the others go on to give their count back. -/
def fetchAdd (s : TaskRun) : TaskRun :=
  let won := s.runCount == 0
  let s := { s with runCount := s.runCount + 1, queued := s.queued - 1,
                    zeroReads := s.zeroReads + if won then 1 else 0 }
  if kill then
    if won then { s with triggering := s.triggering + 1 }
    else { s with releasing := s.releasing + 1 }
  else
    if won then { s with gpuRunning := s.gpuRunning + 1 }
    else { s with releasing := s.releasing + 1 }

/-- One step; `none` when no pop or `GPUTask` is at that point. Both decrements of
`finish_count` go on to `delete task` exactly when they read back `0`. -/
def step (s : TaskRun) : Move → Option TaskRun
  | .fetchAdd => if 0 < s.queued then some (fetchAdd kill s) else none
  | .trigger =>
    if 0 < s.triggering then
      some { s with triggering := s.triggering - 1, triggers := s.triggers + 1,
                    releasing := s.releasing + 1 }
    else none
  | .release =>
    if 0 < s.releasing then
      some { s with finishCount := s.finishCount - 1, releasing := s.releasing - 1,
                    deleting := s.deleting + if s.finishCount - 1 = 0 then 1 else 0 }
    else none
  | .delete =>
    if 0 < s.deleting then
      some { s with deleting := s.deleting - 1, deletes := s.deletes + 1 }
    else none
  | .finishJob =>
    if 0 < s.gpuRunning then
      some { s with gpuRunning := s.gpuRunning - 1, gpuFinished := s.gpuFinished + 1,
                    triggers := s.triggers + if hasEvent then 1 else 0 }
    else none
  | .destroy =>
    if 0 < s.gpuFinished then
      some { s with finishCount := s.finishCount - 1, gpuFinished := s.gpuFinished - 1,
                    gpuDeleting := s.gpuDeleting + if s.finishCount - 1 = 0 then 1 else 0,
                    gpuGone := s.gpuGone + if s.finishCount - 1 = 0 then 0 else 1 }
    else none
  | .gpuDelete =>
    if 0 < s.gpuDeleting then
      some { s with gpuDeleting := s.gpuDeleting - 1, gpuGone := s.gpuGone + 1,
                    deletes := s.deletes + 1 }
    else none

/-- The states of every interleaving of the `k` pops and the `GPUTask`. -/
inductive Reachable (k : Nat) : TaskRun → Prop
  | init : Reachable k (init k)
  | step {s s' : TaskRun} (m : Move) : Reachable k s → step kill hasEvent s m = some s' →
      Reachable k s'

end Steps

/-! ## The invariant -/

/-- The pops and `GPUTask`s that still hold a count of `finish_count`. -/
def holders (s : TaskRun) : Nat :=
  s.queued + s.triggering + s.releasing + s.gpuRunning + s.gpuFinished

/-- Instructions left in all pops and `GPUTask`s; every step lowers it. -/
def rank (s : TaskRun) : Nat :=
  4 * s.queued + 3 * s.triggering + 2 * s.releasing + s.deleting +
    3 * s.gpuRunning + 2 * s.gpuFinished + s.gpuDeleting

/-- No pop and no `GPUTask` has an instruction left. -/
def Terminal (s : TaskRun) : Prop :=
  s.queued = 0 ∧ s.triggering = 0 ∧ s.releasing = 0 ∧ s.deleting = 0 ∧
    s.gpuRunning = 0 ∧ s.gpuFinished = 0 ∧ s.gpuDeleting = 0

/-- The counters agree with where the pops and the `GPUTask`s are. The kill pill makes no
`GPUTask` and its winner triggers `finish_event`; any other task gets one `GPUTask`, whose
`finish_job` triggers it when it exists. -/
structure Inv (kill hasEvent : Bool) (k : Nat) (s : TaskRun) : Prop where
  run_count : s.runCount + s.queued = k
  finish_count : s.finishCount = holders s
  zero_reads : s.zeroReads = min s.runCount 1
  deletes : s.deleting + s.gpuDeleting + s.deletes + min (holders s) 1 = 1
  no_trigger : kill = false → s.triggering = 0
  gpu_tasks : s.gpuRunning + s.gpuFinished + s.gpuDeleting + s.gpuGone =
    if kill then 0 else s.zeroReads
  triggers : s.triggers + s.triggering =
    if kill then s.zeroReads
    else if hasEvent then s.gpuFinished + s.gpuDeleting + s.gpuGone else 0

section Steps

variable {kill hasEvent : Bool} {k : Nat}

theorem init_inv (hk : 0 < k) : Inv kill hasEvent k (init k) where
  run_count := by simp [init]
  finish_count := by simp [init, holders]
  zero_reads := by simp [init]
  deletes := by simp [init, holders]; omega
  no_trigger := fun _ => rfl
  gpu_tasks := by simp [init]
  triggers := by simp [init]

theorem fetchAdd_inv {s : TaskRun} (hi : Inv kill hasEvent k s) (hq : 0 < s.queued) :
    Inv kill hasEvent k (fetchAdd kill s) := by
  obtain ⟨hr, hf, hz, hd, hn, hg, ht⟩ := hi
  unfold holders at hf hd
  -- the pop still holds its count, so nothing was deleted
  replace hd : s.deleting + s.gpuDeleting + s.deletes = 0 := by omega
  replace hz : s.zeroReads = if s.runCount = 0 then 0 else 1 := by split_ifs <;> omega
  unfold fetchAdd
  by_cases h0 : s.runCount = 0 <;> cases kill <;>
    simp only [h0, beq_self_eq_true, beq_iff_eq, Bool.false_eq_true, if_true, if_false,
      forall_const, true_implies] at hz hn hg ht ⊢ <;>
    constructor <;> simp only [holders, Bool.false_eq_true, Bool.true_eq_false, if_true, if_false] <;>
      (try (intro hk; cases hk)) <;> omega

/-- The steps after the fetch-and-add leave `run_count` and `zeroReads` alone. -/
theorem step_inv_of_ne {s s' : TaskRun} {m : Move} (hm : m ≠ .fetchAdd)
    (hi : Inv kill hasEvent k s) (hs : step kill hasEvent s m = some s') :
    Inv kill hasEvent k s' := by
  have hf := hi.finish_count
  unfold holders at hf
  cases m <;> simp only [step] at hs <;> split at hs <;> cases hs
  · exact absurd rfl hm
  all_goals
    refine ⟨hi.run_count, by simp only [holders]; omega, hi.zero_reads, ?_, fun hk => ?_, ?_, ?_⟩
    -- each field from its own part of the invariant, splitting on `finish_count` reaching `0`
    · have hd := hi.deletes
      simp only [holders] at hd ⊢
      (try split_ifs) <;> omega
    · have := hi.no_trigger hk
      dsimp only
      omega
    · have hg := hi.gpu_tasks
      dsimp only
      (try split_ifs at hg ⊢) <;> omega
    · -- the steps of a `GPUTask` move the count of triggers only if `finish_event` exists
      have ht := hi.triggers
      dsimp only
      first
      | omega
      | (have hg := hi.gpu_tasks
         cases kill <;> cases hasEvent <;>
          simp only [Bool.false_eq_true, if_true, if_false] at hg ht ⊢ <;> (try split_ifs) <;> omega)

theorem step_inv {s s' : TaskRun} {m : Move} (hi : Inv kill hasEvent k s)
    (hs : step kill hasEvent s m = some s') : Inv kill hasEvent k s' := by
  by_cases hm : m = .fetchAdd
  · subst hm
    simp only [step] at hs
    split at hs
    · cases hs; exact fetchAdd_inv hi ‹_›
    · cases hs
  · exact step_inv_of_ne hm hi hs

theorem Reachable.inv (hk : 0 < k) {s : TaskRun} (hr : Reachable kill hasEvent k s) :
    Inv kill hasEvent k s := by
  induction hr with
  | init => exact init_inv hk
  | step _ _ hs ih => exact step_inv ih hs

/-- Every step retires at least one instruction. -/
theorem step_rank {s s' : TaskRun} {m : Move} (hs : step kill hasEvent s m = some s') :
    rank s' < rank s := by
  cases m <;> simp only [step] at hs <;> split at hs <;> cases hs
  · cases kill <;> by_cases h0 : s.runCount = 0 <;>
      simp only [rank, fetchAdd, Bool.false_eq_true, if_true, if_false, beq_iff_eq, beq_self_eq_true,
        h0] <;> omega
  all_goals simp only [rank]; (try split_ifs) <;> omega

/-- Some pop or `GPUTask` can always move until none has an instruction left. -/
theorem progress {s : TaskRun} (hn : ¬ Terminal s) :
    ∃ m s', step kill hasEvent s m = some s' := by
  simp only [Terminal, not_and_or] at hn
  rcases hn with h | h | h | h | h | h | h <;> replace h := Nat.pos_of_ne_zero h
  · exact ⟨.fetchAdd, _, if_pos h⟩
  · exact ⟨.trigger, _, if_pos h⟩
  · exact ⟨.release, _, if_pos h⟩
  · exact ⟨.delete, _, if_pos h⟩
  · exact ⟨.finishJob, _, if_pos h⟩
  · exact ⟨.destroy, _, if_pos h⟩
  · exact ⟨.gpuDelete, _, if_pos h⟩

/-- **One run, one trigger, one delete.** In every interleaving of the `k ≥ 1` pops of a
task and of its `GPUTask`: at most one pop reads `run_count == 0`, `finish_event` is
triggered at most once and `delete task` runs at most once; once it has run, no pop and no
`GPUTask` has an instruction on the task left; when nothing can move there was exactly one
read of `0`, one trigger (for the kill pill, or when the event exists) and one `delete`;
something can move until then, and every move lowers `rank`, so every interleaving ends. -/
theorem task_runs_once (hk : 0 < k) {s : TaskRun} (hr : Reachable kill hasEvent k s) :
    s.zeroReads ≤ 1 ∧ s.triggers ≤ 1 ∧ s.deletes ≤ 1 ∧
    (0 < s.deletes → Terminal s) ∧
    (Terminal s → s.zeroReads = 1 ∧ s.triggers = (if kill || hasEvent then 1 else 0) ∧
      s.deletes = 1) ∧
    (¬ Terminal s → ∃ m s', step kill hasEvent s m = some s') ∧
    (∀ m s', step kill hasEvent s m = some s' → rank s' < rank s) := by
  obtain ⟨hr', hf, hz, hd, hn, hg, ht⟩ := hr.inv hk
  simp only [holders] at hd
  refine ⟨by omega, ?_, by omega, fun h => ?_, fun h => ?_, progress,
    fun _ _ => step_rank⟩
  · cases kill <;> cases hasEvent <;>
      simp only [Bool.false_eq_true, Bool.true_eq_false, if_true, if_false] at hg ht <;> omega
  · refine ⟨?_, ?_, ?_, ?_, ?_, ?_, ?_⟩ <;> omega
  · obtain ⟨h1, h2, h3, h4, h5, h6, h7⟩ := h
    refine ⟨by omega, ?_, by omega⟩
    cases kill <;> cases hasEvent <;>
      simp only [Bool.false_eq_true, Bool.true_eq_false, if_true, if_false, Bool.or_false,
        Bool.or_true, Bool.or_self, forall_const, false_implies] at hn hg ht ⊢ <;> omega

/-- Two pops of a task with a finish event: the first reads `0` and wraps the task, the second
gives its count back before the `GPUTask` finishes, and the `GPUTask`'s destructor deletes
the task. At that terminal state there was one read of `0`, one trigger and one `delete`. -/
theorem task_runs_once_two_pops :
    0 < 2 ∧ Reachable false true 2 ⟨2, 0, 0, 0, 0, 0, 0, 0, 0, 1, 1, 1, 1⟩ ∧
      Terminal ⟨2, 0, 0, 0, 0, 0, 0, 0, 0, 1, 1, 1, 1⟩ ∧
      (⟨2, 0, 0, 0, 0, 0, 0, 0, 0, 1, 1, 1, 1⟩ : TaskRun).zeroReads = 1 ∧
      (⟨2, 0, 0, 0, 0, 0, 0, 0, 0, 1, 1, 1, 1⟩ : TaskRun).triggers = 1 ∧
      (⟨2, 0, 0, 0, 0, 0, 0, 0, 0, 1, 1, 1, 1⟩ : TaskRun).deletes = 1 := by
  have hr : Reachable false true 2 ⟨2, 0, 0, 0, 0, 0, 0, 0, 0, 1, 1, 1, 1⟩ :=
    .step .gpuDelete (.step .destroy (.step .finishJob (.step .release
      (.step .fetchAdd (.step .fetchAdd .init rfl) rfl) rfl) rfl) rfl) rfl
  have ht : Terminal ⟨2, 0, 0, 0, 0, 0, 0, 0, 0, 1, 1, 1, 1⟩ := ⟨rfl, rfl, rfl, rfl, rfl, rfl, rfl⟩
  exact ⟨by decide, hr, ht, (task_runs_once (by decide) hr).2.2.2.2.1 ht⟩

end Steps

end Realm.Gpu.TaskLifecycle
