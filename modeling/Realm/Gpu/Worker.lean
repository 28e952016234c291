import Mathlib.Data.List.Basic

/-!
# The GPU DMA worker

When configured, one `GPUWorker` (`lowlevel_gpu.cc`) serves every GPU processor of the
node. Producers on any thread append to a per-processor deque under `worker_lock`
(`enqueue_copy`, `handle_complete_job`) and clear the flag `copies_empty` or `jobs_empty`.
`thread_main` loops. Under the lock it moves every non-empty deque into its own maps
`ready_copies` and `to_complete` and sets both flags, or, finding both flags set, breaks
out of the loop if a shutdown was requested and waits otherwise. After the lock it calls
each processor's `issue_copies` and `finish_jobs` on what it took, and clears the maps.

An iteration of `thread_main` is two steps, its critical section and its unlocked phase;
`enqueue_copy`, `handle_complete_job` and `shutdown` are one step each, so an interleaving
is a list of `WorkerEvent`s. Each processor's calls to `issue_copies` and `finish_jobs` are
recorded, in order, in `issued` and `finished`.

* `conserves_of_reach`: after every interleaving, what was enqueued for a processor is
  what it was issued, then what `thread_main` holds for it, then what waits in its deque.
* `return_drained`: `thread_main` returns only when every deque and every held batch is
  empty, so everything enqueued before the return has been issued or finished.
* `iteration_drains`: one whole iteration from the top of the loop issues and finishes
  everything enqueued before it.
* `worker_hands_over_once` puts the three together, with `lockedPhase_pc`: from the top of
  the loop the critical section always ends in one of the two.
-/

namespace Realm.Gpu

/-- Where `GPUWorker::thread_main` is. -/
inductive WorkerPc where
  /-- At the top of the loop, about to take `worker_lock`. -/
  | top
  /-- After the critical section, issuing and finishing what it took. -/
  | issuing
  /-- Returned, after the `break`. -/
  | returned
  deriving DecidableEq, Repr

/-- `GPUWorker` with the locals of `thread_main`. Processors, copies and jobs are named by
numbers; each `std::map` keyed by processor is a function of the processor. -/
structure GPUWorker where
  copies : Nat → List Nat
  completeJobs : Nat → List Nat
  copiesEmpty : Bool
  jobsEmpty : Bool
  workerShutdownRequested : Bool
  readyCopies : Nat → List Nat
  toComplete : Nat → List Nat
  pc : WorkerPc
  /-- The copies passed to each processor's `issue_copies`, in order. -/
  issued : Nat → List Nat
  /-- The jobs passed to each processor's `finish_jobs`, in order. -/
  finished : Nat → List Nat

/-- `map[proc].push_back(x)` on a per-processor map of deques. -/
def pushBack (m : Nat → List Nat) (proc x : Nat) : Nat → List Nat :=
  fun p => if p = proc then m p ++ [x] else m p

@[simp] theorem pushBack_apply (m : Nat → List Nat) (proc x p : Nat) :
    pushBack m proc x p = if p = proc then m p ++ [x] else m p := rfl

namespace GPUWorker

/-- The worker as `GPUWorker::GPUWorker` builds it, before `thread_main` starts. -/
def init : GPUWorker :=
  ⟨fun _ => [], fun _ => [], true, true, false, fun _ => [], fun _ => [], .top,
    fun _ => [], fun _ => []⟩

/-- `GPUWorker::enqueue_copy(proc, copy)`. -/
def enqueueCopy (w : GPUWorker) (proc copy : Nat) : GPUWorker :=
  { w with copies := pushBack w.copies proc copy, copiesEmpty := false }

/-- `GPUWorker::handle_complete_job(proc, job)`. -/
def handleCompleteJob (w : GPUWorker) (proc job : Nat) : GPUWorker :=
  { w with completeJobs := pushBack w.completeJobs proc job, jobsEmpty := false }

/-- `GPUWorker::shutdown`. -/
def shutdown (w : GPUWorker) : GPUWorker :=
  { w with workerShutdownRequested := true }

/-- The critical section of one iteration of `thread_main`. `gasnett_cond_wait` releases
the lock and ends the iteration with nothing taken. -/
def lockedPhase (w : GPUWorker) : GPUWorker :=
  if w.copiesEmpty && w.jobsEmpty then
    if w.workerShutdownRequested then { w with pc := .returned }
    else { w with pc := .issuing }
  else
    { w with
      readyCopies := fun p => if (w.copies p).isEmpty then w.readyCopies p else w.copies p
      copies := fun p => if (w.copies p).isEmpty then w.copies p else []
      copiesEmpty := true
      toComplete := fun p =>
        if (w.completeJobs p).isEmpty then w.toComplete p else w.completeJobs p
      completeJobs := fun p => if (w.completeJobs p).isEmpty then w.completeJobs p else []
      jobsEmpty := true
      pc := .issuing }

/-- The unlocked phase: `issue_copies` and `finish_jobs` on every held batch (a call on an
empty batch is skipped, which records nothing), then both maps are cleared. -/
def issuePhase (w : GPUWorker) : GPUWorker :=
  { w with
    issued := fun p => w.issued p ++ w.readyCopies p
    readyCopies := fun _ => []
    finished := fun p => w.finished p ++ w.toComplete p
    toComplete := fun _ => []
    pc := .top }

end GPUWorker

/-- One step of an interleaving. -/
inductive WorkerEvent where
  | enqueueCopy (proc copy : Nat)
  | handleCompleteJob (proc job : Nat)
  | shutdown
  /-- The critical section of a `thread_main` iteration. -/
  | locked
  /-- The unlocked phase of a `thread_main` iteration. -/
  | unlocked
  deriving DecidableEq, Repr

namespace GPUWorker

/-- The state after one event; `thread_main`'s two phases only where its loop is. -/
def step (w : GPUWorker) : WorkerEvent → Option GPUWorker
  | .enqueueCopy proc copy => some (w.enqueueCopy proc copy)
  | .handleCompleteJob proc job => some (w.handleCompleteJob proc job)
  | .shutdown => some w.shutdown
  | .locked => if w.pc = .top then some w.lockedPhase else none
  | .unlocked => if w.pc = .issuing then some w.issuePhase else none

/-- `Reach es w`: the interleaving `es`, run from `init`, ends in `w`. -/
inductive Reach : List WorkerEvent → GPUWorker → Prop
  | nil : Reach [] init
  | snoc {es : List WorkerEvent} {w w' : GPUWorker} {e : WorkerEvent} :
      Reach es w → w.step e = some w' → Reach (es ++ [e]) w'

end GPUWorker

/-- The copies enqueued for `proc` along an interleaving, in order. -/
def enqueuedCopies (es : List WorkerEvent) (proc : Nat) : List Nat :=
  es.filterMap fun
    | .enqueueCopy p c => if p = proc then some c else none
    | _ => none

/-- The jobs handed over for `proc` along an interleaving, in order. -/
def enqueuedJobs (es : List WorkerEvent) (proc : Nat) : List Nat :=
  es.filterMap fun
    | .handleCompleteJob p j => if p = proc then some j else none
    | _ => none

@[simp] theorem enqueuedCopies_append (es es' : List WorkerEvent) (proc : Nat) :
    enqueuedCopies (es ++ es') proc = enqueuedCopies es proc ++ enqueuedCopies es' proc :=
  List.filterMap_append ..

@[simp] theorem enqueuedJobs_append (es es' : List WorkerEvent) (proc : Nat) :
    enqueuedJobs (es ++ es') proc = enqueuedJobs es proc ++ enqueuedJobs es' proc :=
  List.filterMap_append ..

namespace GPUWorker

/-! ## The invariant -/

/-- The flags and the held batches agree with the deques. -/
structure Inv (w : GPUWorker) : Prop where
  copies_of_flag : w.copiesEmpty = true → ∀ p, w.copies p = []
  jobs_of_flag : w.jobsEmpty = true → ∀ p, w.completeJobs p = []
  held_of_pc : w.pc ≠ .issuing → ∀ p, w.readyCopies p = [] ∧ w.toComplete p = []

/-- Per processor, the copies enqueued along `es` are those issued, then those held by
`thread_main`, then those waiting in the deque; the same for jobs. -/
def Conserves (es : List WorkerEvent) (w : GPUWorker) : Prop :=
  ∀ p, enqueuedCopies es p = w.issued p ++ w.readyCopies p ++ w.copies p ∧
    enqueuedJobs es p = w.finished p ++ w.toComplete p ++ w.completeJobs p

theorem lockedPhase_inv {w : GPUWorker} (hi : Inv w) (htop : w.pc = .top) :
    Inv w.lockedPhase := by
  unfold lockedPhase
  split
  · split
    · exact ⟨hi.copies_of_flag, hi.jobs_of_flag, fun _ => hi.held_of_pc (by simp [htop])⟩
    · exact ⟨hi.copies_of_flag, hi.jobs_of_flag, fun h => absurd rfl h⟩
  · refine ⟨fun _ p => ?_, fun _ p => ?_, fun h => absurd rfl h⟩ <;>
      dsimp only <;> split <;> simp_all

theorem step_inv {w w' : GPUWorker} {e : WorkerEvent} (hi : Inv w)
    (hs : w.step e = some w') : Inv w' := by
  cases e with
  | enqueueCopy proc copy =>
    cases hs
    exact ⟨by simp [enqueueCopy], hi.jobs_of_flag, hi.held_of_pc⟩
  | handleCompleteJob proc job =>
    cases hs
    exact ⟨hi.copies_of_flag, by simp [handleCompleteJob], hi.held_of_pc⟩
  | shutdown => cases hs; exact ⟨hi.copies_of_flag, hi.jobs_of_flag, hi.held_of_pc⟩
  | locked =>
    simp only [step] at hs
    split at hs
    · cases hs; exact lockedPhase_inv hi ‹_›
    · cases hs
  | unlocked =>
    simp only [step] at hs
    split at hs
    · cases hs; exact ⟨hi.copies_of_flag, hi.jobs_of_flag, fun _ _ => ⟨rfl, rfl⟩⟩
    · cases hs

theorem lockedPhase_conserves {es : List WorkerEvent} {w : GPUWorker} (hi : Inv w)
    (htop : w.pc = .top) (hc : Conserves es w) : Conserves es w.lockedPhase := by
  intro p
  obtain ⟨hr, ht⟩ := hi.held_of_pc (by simp [htop]) p
  rw [(hc p).1, (hc p).2]
  unfold lockedPhase
  split
  · split <;> exact ⟨rfl, rfl⟩
  · constructor <;> dsimp only <;> split <;> simp_all

theorem step_conserves {es : List WorkerEvent} {w w' : GPUWorker} {e : WorkerEvent}
    (hi : Inv w) (hc : Conserves es w) (hs : w.step e = some w') :
    Conserves (es ++ [e]) w' := by
  cases e with
  | enqueueCopy proc copy =>
    cases hs
    intro p
    rw [enqueuedCopies_append, enqueuedJobs_append, (hc p).1, (hc p).2]
    by_cases hp : p = proc
    · subst hp; simp [enqueuedCopies, enqueuedJobs, enqueueCopy]
    · simp [enqueuedCopies, enqueuedJobs, enqueueCopy, hp, Ne.symm hp]
  | handleCompleteJob proc job =>
    cases hs
    intro p
    rw [enqueuedCopies_append, enqueuedJobs_append, (hc p).1, (hc p).2]
    by_cases hp : p = proc
    · subst hp; simp [enqueuedCopies, enqueuedJobs, handleCompleteJob]
    · simp [enqueuedCopies, enqueuedJobs, handleCompleteJob, hp, Ne.symm hp]
  | shutdown =>
    cases hs
    intro p
    simpa [enqueuedCopies, enqueuedJobs] using hc p
  | locked =>
    simp only [step] at hs
    split at hs
    · cases hs
      intro p
      simpa [enqueuedCopies, enqueuedJobs] using lockedPhase_conserves hi ‹_› hc p
    · cases hs
  | unlocked =>
    simp only [step] at hs
    split at hs
    · cases hs
      intro p
      simpa [enqueuedCopies, enqueuedJobs, issuePhase] using hc p
    · cases hs

theorem Reach.inv_conserves {es : List WorkerEvent} {w : GPUWorker} (h : Reach es w) :
    Inv w ∧ Conserves es w := by
  induction h with
  | nil =>
    exact ⟨⟨fun _ _ => rfl, fun _ _ => rfl, fun _ _ => ⟨rfl, rfl⟩⟩,
      fun _ => by simp [init, enqueuedCopies, enqueuedJobs]⟩
  | snoc _ hs ih => exact ⟨step_inv ih.1 hs, step_conserves ih.1 ih.2 hs⟩

/-! ## Leaving the loop, and one iteration -/

/-- `thread_main` leaves its loop only when every deque and every held batch is empty. -/
theorem return_drained {w : GPUWorker} (hi : Inv w) (htop : w.pc = .top)
    (hret : w.lockedPhase.pc = .returned) (p : Nat) :
    w.copies p = [] ∧ w.completeJobs p = [] ∧ w.readyCopies p = [] ∧ w.toComplete p = [] := by
  unfold lockedPhase at hret
  split at hret
  · rename_i hflags
    simp only [Bool.and_eq_true] at hflags
    exact ⟨hi.copies_of_flag hflags.1 p, hi.jobs_of_flag hflags.2 p,
      hi.held_of_pc (by simp [htop]) p⟩
  · simp at hret

/-- The critical section leaves every deque empty. -/
theorem lockedPhase_drains {w : GPUWorker} (hi : Inv w) (p : Nat) :
    w.lockedPhase.copies p = [] ∧ w.lockedPhase.completeJobs p = [] := by
  unfold lockedPhase
  split
  · rename_i hflags
    simp only [Bool.and_eq_true] at hflags
    split <;> exact ⟨hi.copies_of_flag hflags.1 p, hi.jobs_of_flag hflags.2 p⟩
  · constructor <;> dsimp only <;> split <;> simp_all

/-- One whole iteration from the top of the loop issues and finishes everything enqueued
before it. -/
theorem iteration_drains {es : List WorkerEvent} {w : GPUWorker} (h : Reach es w)
    (htop : w.pc = .top) (hiss : w.lockedPhase.pc = .issuing) (p : Nat) :
    w.lockedPhase.issuePhase.issued p = enqueuedCopies es p ∧
      w.lockedPhase.issuePhase.finished p = enqueuedJobs es p := by
  have e1 : w.step .locked = some w.lockedPhase := by simp [step, htop]
  have e2 : w.lockedPhase.step .unlocked = some w.lockedPhase.issuePhase := by
    simp [step, hiss]
  obtain ⟨hc, hj⟩ := (Reach.snoc (Reach.snoc h e1) e2).inv_conserves.2 p
  obtain ⟨hc', hj'⟩ := lockedPhase_drains h.inv_conserves.1 p
  have hE : enqueuedCopies (es ++ [.locked] ++ [.unlocked]) p = enqueuedCopies es p := by
    simp [enqueuedCopies]
  have hJ : enqueuedJobs (es ++ [.locked] ++ [.unlocked]) p = enqueuedJobs es p := by
    simp [enqueuedJobs]
  rw [← hE, ← hJ, hc, hj]
  simp [issuePhase, hc', hj']

/-- From the top of the loop the critical section either breaks out of the loop or goes on
to the unlocked phase. -/
theorem lockedPhase_pc (w : GPUWorker) :
    w.lockedPhase.pc = .returned ∨ w.lockedPhase.pc = .issuing := by
  unfold lockedPhase
  split
  · split
    · exact .inl rfl
    · exact .inr rfl
  · exact .inr rfl

/-- **Every hand-over happens once, in order.** After every interleaving, each
processor's enqueued copies are those already passed to its `issue_copies`, then those
held by `thread_main`, then those in its deque (so each is issued at most once, in
enqueue order, by its own processor). From the top of the loop the next critical section
either returns, and then every deque is empty and everything enqueued has been issued, or
goes on to the unlocked phase, which issues everything enqueued before it. The same holds
for completed jobs and `finish_jobs`. -/
theorem worker_hands_over_once {es : List WorkerEvent} {w : GPUWorker} (h : Reach es w) :
    (∀ p, enqueuedCopies es p = w.issued p ++ w.readyCopies p ++ w.copies p ∧
      enqueuedJobs es p = w.finished p ++ w.toComplete p ++ w.completeJobs p) ∧
    (w.pc = .top →
      (w.lockedPhase.pc = .returned ∧ ∀ p, w.copies p = [] ∧ w.completeJobs p = [] ∧
        w.issued p = enqueuedCopies es p ∧ w.finished p = enqueuedJobs es p) ∨
      (w.lockedPhase.pc = .issuing ∧ ∀ p,
        w.lockedPhase.issuePhase.issued p = enqueuedCopies es p ∧
          w.lockedPhase.issuePhase.finished p = enqueuedJobs es p)) := by
  obtain ⟨hi, hc⟩ := h.inv_conserves
  refine ⟨hc, fun htop => ?_⟩
  rcases lockedPhase_pc w with hret | hiss
  · refine .inl ⟨hret, fun p => ?_⟩
    obtain ⟨h1, h2, h3, h4⟩ := return_drained hi htop hret p
    simp [(hc p).1, (hc p).2, h1, h2, h3, h4]
  · exact .inr ⟨hiss, iteration_drains h htop hiss⟩

/-- One copy enqueued for processor `1`: the next iteration of `thread_main` issues it. -/
theorem worker_hands_over_once_one_copy :
    Reach [.enqueueCopy 1 10] (init.enqueueCopy 1 10) ∧ (init.enqueueCopy 1 10).pc = .top ∧
      (init.enqueueCopy 1 10).lockedPhase.pc = .issuing ∧
      (init.enqueueCopy 1 10).lockedPhase.issuePhase.issued 1 = [10] := by
  have h : Reach [.enqueueCopy 1 10] (init.enqueueCopy 1 10) := @Reach.snoc [] _ _ _ .nil rfl
  refine ⟨h, rfl, rfl, ?_⟩
  rcases (worker_hands_over_once h).2 rfl with ⟨hret, -⟩ | ⟨-, hall⟩
  · exact absurd hret (by decide)
  · exact (hall 1).1

end GPUWorker

end Realm.Gpu
