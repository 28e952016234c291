import Mathlib.Data.List.Basic

/-!
# The GPU processor's shared lists

`GPUProcessor` in `lowlevel_gpu.cc` keeps two lists that other threads fill under its
`mutex`: `complete_jobs`, pushed by `handle_complete_job` (called back by the device on a
foreign thread when a job's stream work is done), and `copies`, pushed by `enqueue_copy`
once a copy's precondition has triggered. When no `GPUWorker` is configured
(`gpu_worker == 0`) the processor's running thread drains both in `execute_gpu`.

Each call is modelled by its critical section under `mutex`. What it does after
`gasnet_hsl_unlock` touches no shared list; it is returned as a `Wakeup` (the producers) or
a `Handoff` (`execute_gpu`).

* `executeGpu_work_copies`: with no worker, the work branch of `execute_gpu` takes no copy
  and leaves `copies` as it found it. The hand-off is guarded by `!ready_copies.empty()`,
  a test of the freshly made local vector, where the job hand-off next to it tests
  `complete_jobs`.
* `executeGpu_work_jobs`: the same branch does take every completed job.
* `executeGpu_leaves_copy`: a reachable state in which an enqueued copy survives the work
  branch.
* `pending_has_runner`: in every reachable state, a non-empty `copies` or `complete_jobs`
  has a non-null `running_thread` to drain it.
-/

namespace Realm.Gpu

/-- A task in a processor's task queue; `execute_gpu` reads only its `func_id`. -/
structure Task where
  id : Nat
  funcId : Nat
  deriving DecidableEq, Repr

/-- The fields of `GPUProcessor` guarded by `mutex`, with `gpu_worker`. Threads, jobs and
copies are named by numbers. -/
structure GPUProcessor where
  gpuWorker : Bool
  taskQueue : List Task
  copies : List Nat
  completeJobs : List Nat
  runningThread : Option Nat
  availableThreads : List Nat
  resumableThreads : List Nat
  /-- The thread that `create_new_thread` makes next. -/
  nextThread : Nat
  shutdownTrigger : Bool
  deriving DecidableEq, Repr

/-! ## Producers -/

/-- What a producer does once it has released `mutex`. -/
inductive Wakeup where
  | none
  | awake (thread : Nat)
  | start (thread : Nat)
  deriving DecidableEq, Repr

/-- "Make sure there is a running thread": the common tail of both producers' critical
sections. A parked thread is taken from the back of `available_threads`, or a new one is
made. -/
def ensureRunning (s : GPUProcessor) : GPUProcessor × Wakeup :=
  match s.runningThread with
  | some _ => (s, .none)
  | none =>
    match s.availableThreads.getLast? with
    | some t =>
      ({ s with availableThreads := s.availableThreads.dropLast, runningThread := some t },
        .awake t)
    | none =>
      ({ s with runningThread := some s.nextThread, nextThread := s.nextThread + 1 },
        .start s.nextThread)

/-- `GPUProcessor::handle_complete_job`. With a worker the job is handed to it and the
processor's lists are not touched. -/
def handleCompleteJob (s : GPUProcessor) (job : Nat) : GPUProcessor × Wakeup :=
  if s.gpuWorker then (s, .none)
  else ensureRunning { s with completeJobs := s.completeJobs ++ [job] }

/-- `GPUProcessor::enqueue_copy`. -/
def enqueueCopy (s : GPUProcessor) (copy : Nat) : GPUProcessor × Wakeup :=
  if s.gpuWorker then (s, .none)
  else ensureRunning { s with copies := s.copies ++ [copy] }

theorem ensureRunning_running (s : GPUProcessor) :
    (ensureRunning s).1.runningThread ≠ none := by
  unfold ensureRunning
  split
  · simp [*]
  · split <;> simp

@[simp] theorem ensureRunning_copies (s : GPUProcessor) :
    (ensureRunning s).1.copies = s.copies := by
  unfold ensureRunning; split
  · rfl
  · split <;> rfl

@[simp] theorem ensureRunning_completeJobs (s : GPUProcessor) :
    (ensureRunning s).1.completeJobs = s.completeJobs := by
  unfold ensureRunning; split
  · rfl
  · split <;> rfl

@[simp] theorem ensureRunning_gpuWorker (s : GPUProcessor) :
    (ensureRunning s).1.gpuWorker = s.gpuWorker := by
  unfold ensureRunning; split
  · rfl
  · split <;> rfl

/-! ## `execute_gpu` -/

/-- What `execute_gpu` does once it has released `mutex`. -/
inductive Handoff where
  /-- Resume `thread`, then put the caller to sleep. -/
  | resume (thread : Nat)
  /-- Nothing to do: the caller sleeps. -/
  | sleep
  /-- `execute()` each of `copies`, run the popped task, then `finish_job` and `delete`
  each of `jobs`. -/
  | work (copies : List Nat) (task : Option Task) (jobs : List Nat)
  deriving DecidableEq, Repr

/-- The critical section of `GPUProcessor::execute_gpu(thread)`; `none` when the
assertion `thread == running_thread` fails. -/
def executeGpu (s : GPUProcessor) (thread : Nat) : Option (GPUProcessor × Handoff) :=
  if s.runningThread ≠ some thread then none
  else match s.resumableThreads with
  | toResume :: rest =>
    some ({ s with availableThreads := s.availableThreads ++ [thread],
                   resumableThreads := rest, runningThread := some toResume },
          .resume toResume)
  | [] =>
    if s.taskQueue.isEmpty && (s.gpuWorker || (s.copies.isEmpty && s.completeJobs.isEmpty))
    then
      some ({ s with availableThreads := s.availableThreads ++ [thread], runningThread := none },
            .sleep)
    else
      let readyCopies : List Nat := []
      let takeCopies := !s.gpuWorker && !readyCopies.isEmpty
      let takeJobs := !s.gpuWorker && !s.completeJobs.isEmpty
      let copies := if takeCopies then [] else s.copies
      let readyCopies := if takeCopies then readyCopies ++ s.copies else readyCopies
      let completeJobs := if takeJobs then [] else s.completeJobs
      let toComplete := if takeJobs then s.completeJobs else []
      match s.taskQueue with
      | task :: rest =>
        some ({ s with copies, completeJobs, taskQueue := rest,
                       shutdownTrigger := s.shutdownTrigger || task.funcId == 0 },
              .work readyCopies (some task) toComplete)
      | [] => some ({ s with copies, completeJobs }, .work readyCopies none toComplete)

/-- The three outcomes of `execute_gpu`, with what each leaves in the shared lists. -/
theorem executeGpu_cases {s s' : GPUProcessor} {thread : Nat} {h : Handoff}
    (hx : executeGpu s thread = some (s', h)) :
    s.runningThread = some thread ∧ s'.gpuWorker = s.gpuWorker ∧
    ((∃ t, h = .resume t ∧ s'.runningThread = some t ∧ s'.copies = s.copies ∧
        s'.completeJobs = s.completeJobs) ∨
     (h = .sleep ∧ s'.runningThread = none ∧ s.taskQueue = [] ∧
        (s.gpuWorker = true ∨ (s.copies = [] ∧ s.completeJobs = [])) ∧
        s'.copies = s.copies ∧ s'.completeJobs = s.completeJobs) ∨
     (∃ task, h = .work [] task (if s.gpuWorker then [] else s.completeJobs) ∧
        s'.runningThread = s.runningThread ∧ s'.copies = s.copies ∧
        s'.completeJobs = (if s.gpuWorker then s.completeJobs else []))) := by
  unfold executeGpu at hx
  split at hx
  · cases hx
  rename_i hrun
  refine ⟨not_not.mp hrun, ?_⟩
  split at hx
  · cases hx; exact ⟨rfl, .inl ⟨_, rfl, rfl, rfl, rfl⟩⟩
  split at hx
  · cases hx
    rename_i hidle
    simp only [Bool.and_eq_true, List.isEmpty_iff, Bool.or_eq_true] at hidle
    exact ⟨rfl, .inr (.inl ⟨rfl, rfl, hidle.1, hidle.2, rfl, rfl⟩)⟩
  · refine ⟨?_, .inr (.inr ?_)⟩ <;> split at hx <;> cases hx <;>
      cases hw : s.gpuWorker <;> cases hj : s.completeJobs <;> simp [hw, hj]

/-- With no worker, the work branch hands no copy to be executed and leaves `copies` as it
was: the pending copies are never issued by this thread. -/
theorem executeGpu_work_copies {s s' : GPUProcessor} {thread : Nat} {cs : List Nat}
    {task : Option Task} {js : List Nat}
    (hx : executeGpu s thread = some (s', .work cs task js)) :
    cs = [] ∧ s'.copies = s.copies := by
  obtain ⟨-, -, ⟨t, ht, -⟩ | ⟨ht, -⟩ | ⟨task', ht, -, hc, -⟩⟩ := executeGpu_cases hx
  · cases ht
  · cases ht
  · cases ht; exact ⟨rfl, hc⟩

/-- With no worker, the work branch takes every completed job and empties `complete_jobs`. -/
theorem executeGpu_work_jobs {s s' : GPUProcessor} {thread : Nat} {cs : List Nat}
    {task : Option Task} {js : List Nat} (hw : s.gpuWorker = false)
    (hx : executeGpu s thread = some (s', .work cs task js)) :
    js = s.completeJobs ∧ s'.completeJobs = [] := by
  obtain ⟨-, -, ⟨t, ht, -⟩ | ⟨ht, -⟩ | ⟨task', ht, -, -, hj⟩⟩ := executeGpu_cases hx
  · cases ht
  · cases ht
  · cases ht; simp [hw] at hj ⊢; exact hj

/-- A processor with no worker whose running thread is `0` gets one copy. Its next
`execute_gpu` takes the work branch, hands nothing to execute and returns the state it was
given, so the thread keeps taking the same branch and the copy is never issued. -/
theorem executeGpu_leaves_copy :
    enqueueCopy ⟨false, [], [], [], some 0, [], [], 1, false⟩ 7 =
      (⟨false, [], [7], [], some 0, [], [], 1, false⟩, .none) ∧
    executeGpu ⟨false, [], [7], [], some 0, [], [], 1, false⟩ 0 =
      some (⟨false, [], [7], [], some 0, [], [], 1, false⟩, .work [] none []) :=
  ⟨rfl, rfl⟩

/-! ## Every interleaving -/

/-- One critical section: a producer's call, or `execute_gpu` run by `thread`. -/
inductive Call where
  | handleCompleteJob (job : Nat)
  | enqueueCopy (copy : Nat)
  | executeGpu (thread : Nat)
  deriving DecidableEq, Repr

/-- The shared state after the critical section; `none` when its assertion fails. -/
def step (s : GPUProcessor) : Call → Option GPUProcessor
  | .handleCompleteJob job => some (handleCompleteJob s job).1
  | .enqueueCopy copy => some (enqueueCopy s copy).1
  | .executeGpu thread => (executeGpu s thread).map Prod.fst

/-- The states reached by any interleaving of the three critical sections, from any state
with no pending copy or completion. -/
inductive Reachable : GPUProcessor → Prop
  | init {s : GPUProcessor} : s.copies = [] → s.completeJobs = [] → Reachable s
  | step {s s' : GPUProcessor} (c : Call) : Reachable s → step s c = some s' → Reachable s'

/-- The lock invariant: with no running thread, or with a worker, both lists are empty. -/
def RunnerInv (s : GPUProcessor) : Prop :=
  (s.runningThread = none ∨ s.gpuWorker = true) → s.copies = [] ∧ s.completeJobs = []

theorem ensureRunning_inv {s : GPUProcessor} (hw : s.gpuWorker = false) :
    RunnerInv (ensureRunning s).1 := by
  rintro (hn | hn)
  · exact absurd hn (ensureRunning_running s)
  · simp [hw] at hn

theorem handleCompleteJob_inv {s : GPUProcessor} (hi : RunnerInv s) (job : Nat) :
    RunnerInv (handleCompleteJob s job).1 := by
  unfold handleCompleteJob
  split
  · exact hi
  · rename_i hw
    exact ensureRunning_inv (by simpa using hw)

theorem enqueueCopy_inv {s : GPUProcessor} (hi : RunnerInv s) (copy : Nat) :
    RunnerInv (enqueueCopy s copy).1 := by
  unfold enqueueCopy
  split
  · exact hi
  · rename_i hw
    exact ensureRunning_inv (by simpa using hw)

/-- `execute_gpu` sets `running_thread` to null only with both lists empty (or a worker,
whose lists stay empty). -/
theorem executeGpu_inv {s s' : GPUProcessor} {thread : Nat} {h : Handoff} (hi : RunnerInv s)
    (hx : executeGpu s thread = some (s', h)) : RunnerInv s' := by
  obtain ⟨hrun, hw, ⟨t, -, hr, hc, hj⟩ | ⟨-, -, -, hidle, hc, hj⟩ | ⟨-, -, hr, hc, hj⟩⟩ :=
    executeGpu_cases hx
  · intro hp
    rw [hc, hj]
    exact hi (.inr (by simpa [hr, hw] using hp))
  · intro _
    rw [hc, hj]
    exact hidle.elim (fun hw' => hi (.inr hw')) id
  · intro hp
    have hw' : s.gpuWorker = true := by simpa [hr, hrun, hw] using hp
    obtain ⟨h1, h2⟩ := hi (.inr hw')
    simp [hc, hj, h1, h2, hw']

theorem step_inv {s s' : GPUProcessor} (c : Call) (hi : RunnerInv s)
    (hc : step s c = some s') : RunnerInv s' := by
  cases c with
  | handleCompleteJob job => cases hc; exact handleCompleteJob_inv hi job
  | enqueueCopy copy => cases hc; exact enqueueCopy_inv hi copy
  | executeGpu thread =>
    obtain ⟨⟨_, _⟩, hx, rfl⟩ := Option.map_eq_some'.mp hc
    exact executeGpu_inv hi hx

theorem Reachable.runnerInv {s : GPUProcessor} (hr : Reachable s) : RunnerInv s := by
  induction hr with
  | init hc hj => exact fun _ => ⟨hc, hj⟩
  | step c _ hs ih => exact step_inv c ih hs

/-- **No lost wake-up.** In every state reached by interleaving `handle_complete_job`,
`enqueue_copy` and `execute_gpu`, pending copies or completions have a running thread. -/
theorem pending_has_runner {s : GPUProcessor} (hr : Reachable s)
    (hp : s.copies ≠ [] ∨ s.completeJobs ≠ []) : s.runningThread ≠ none := by
  intro hn
  obtain ⟨hc, hj⟩ := hr.runnerInv (.inl hn)
  exact hp.elim (· hc) (· hj)

theorem pending_has_runner_after_copy :
    Reachable ⟨false, [], [5], [], some 0, [], [], 1, false⟩ ∧
    ([5] ≠ [] ∨ ([] : List Nat) ≠ []) ∧ some 0 ≠ none :=
  have hr : Reachable ⟨false, [], [5], [], some 0, [], [], 1, false⟩ :=
    .step (.enqueueCopy 5) (.init (s := ⟨false, [], [], [], none, [], [], 0, false⟩) rfl rfl) rfl
  have hp := Or.inl (List.cons_ne_nil 5 [])
  ⟨hr, hp, pending_has_runner hr hp⟩

end Realm.Gpu
