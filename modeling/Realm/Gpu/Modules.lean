import Mathlib.Logic.Function.Basic
import Mathlib.Data.List.Nodup
import Mathlib.Logic.Relation

/-!
# CUDA modules of a task

The `GPUProcessor` stands in for the CUDA runtime (`lowlevel_gpu.cc`). Code compiled by
`nvcc` registers its fat binaries, kernels and device variables: `register_fat_binary`
loads a module under a fresh handle; `register_function` and `register_var` map a host
pointer to a function or a global of a module and record the host pointer among the
module's aliases, unless the host pointer is mapped already. `internal_launch` and
`memcpy_to_symbol` look the host pointers up.

Registrations made while the processor is being set up are deferred and replayed by
`initialize_processor`; those modules are never unloaded. Modules registered while a task
runs are the task's (`task_modules`): when the task body returns, `execute_gpu` hands them to
the `GPUTask`, and the task's `finish_job` unloads them, erasing their aliases. The maps are
`std::map`s keyed by pointers; here they are functions to `Option`. A loaded module is
numbered by its load (`nextModule`), so that a function of a module unloaded since can be
told from one of the module now loaded under the same handle.

The model is the processor without a `GPUWorker`: its one running thread handles completed
jobs between tasks. With a `GPUWorker` the worker thread runs `finish_job`, and so
`unregister_fat_binary`, while the processor's thread registers and launches, and nothing
locks the maps. Tasks run one at a time, each body to its end (`Step.start` needs no task
running): a task whose thread pauses inside its body (resumable threads, a wait on an event)
would let another task start while `task_modules` still holds the first one's modules, and
that case is not modelled.

* `Inv`, `Reachable.inv`: in every state of every run, each mapped function or variable is
  one of a loaded module, which lists it among its aliases; modules share no alias; and each
  module a task registered is held by exactly one owner, the running task or one `GPUTask`.
* `gpu_module_asserts_hold`: so no assertion of the registry fires: a task starts with no
  module left over, and every `finish_job` finds each of its modules.
* `launch_targets_loaded`, `unload_erases_exactly`: a launch or a symbol copy never reaches a
  function or a global of a module unloaded since, and unloading a module erases exactly
  the mappings into it. `memcpy_from_symbol` looks up its destination, not its symbol
  (`memcpyFromSymbol_ignores_symbol`).
* `loaded_modules_accounted`: along every run the loaded modules are those no task owned at
  its start and those the tasks hold now; no module leaks and none is lost.
* `initializeProcessor_maps_deferred`, `startup_registrations_persist`: the deferred
  registrations all succeed, and what they register stays in force for the whole run.
-/

namespace Realm.Gpu.Modules

/-- The `FatBin` a fat-binary handle points to: the image, or the name of the file that
holds it. -/
structure FatBin where
  data : Option Nat
  filenameOrFatbins : Option Nat
  deriving DecidableEq, Repr

/-- `ModuleInfo`: the loaded `CUmodule` (by its load number) and the host pointers of the
functions and variables mapped to it. -/
structure ModuleInfo where
  module : Nat
  hostAliases : List Nat
  varAliases : List Nat
  deriving DecidableEq, Repr

/-- `VarInfo`: the global's device pointer, from `cuModuleGetGlobal` (the module and the
device name), and its name. -/
structure VarInfo where
  ptr : Nat × Nat
  name : Nat
  deriving DecidableEq, Repr

/-- The processor's maps `modules`, `device_functions` (a `CUfunction` is the module and
the device name) and `device_variables`, its set `task_modules`, and the number the next
loaded module gets. -/
structure Registry where
  modules : Nat → Option ModuleInfo
  deviceFunctions : Nat → Option (Nat × Nat)
  deviceVariables : Nat → Option VarInfo
  taskModules : List Nat
  nextModule : Nat

/-- The processor before any registration. -/
def Registry.empty : Registry :=
  ⟨fun _ => none, fun _ => none, fun _ => none, [], 0⟩

/-- `ModuleInfo &info = modules[handle]`, then a load into `info.module`. -/
def load (r : Registry) (h : Nat) : Registry :=
  { r with modules := Function.update r.modules h
             (some { (r.modules h).getD ⟨0, [], []⟩ with module := r.nextModule }),
           nextModule := r.nextModule + 1 }

/-- `GPUProcessor::internal_register_fat_binary(fat_bin)`, with `handle` the fresh
allocation the source makes: asserts the `FatBin` names an image, loads it and adds the
handle to `task_modules`. -/
def internalRegisterFatBinary (r : Registry) (h : Nat) (fb : FatBin) : Option Registry :=
  if fb.data = none ∧ fb.filenameOrFatbins = none then none
  else some { load r h with taskModules := r.taskModules.insert h }

/-- `GPUProcessor::internal_register_cuda_binary(cubin)`. -/
def internalRegisterCudaBinary (r : Registry) (h : Nat) : Registry :=
  { load r h with taskModules := r.taskModules.insert h }

/-- `GPUProcessor::internal_register_var(fat_bin, host_var, device_name, ...)`: asserts the
module is loaded; maps the host variable to the module's global unless it is mapped. -/
def internalRegisterVar (r : Registry) (h hostVar deviceName : Nat) : Option Registry :=
  match r.modules h with
  | none => none
  | some info =>
    if (r.deviceVariables hostVar).isSome then some r
    else some { r with
      deviceVariables := Function.update r.deviceVariables hostVar
        (some ⟨(info.module, deviceName), deviceName⟩),
      modules := Function.update r.modules h
        (some { info with varAliases := info.varAliases.insert hostVar }) }

/-- `GPUProcessor::internal_register_function(fat_bin, host_fun, device_fun)`: returns at
once when the host function is mapped; else asserts the module is loaded and maps the host
function to the module's function. -/
def internalRegisterFunction (r : Registry) (h hostFun deviceFun : Nat) : Option Registry :=
  if (r.deviceFunctions hostFun).isSome then some r
  else match r.modules h with
    | none => none
    | some info => some { r with
        modules := Function.update r.modules h
          (some { info with hostAliases := info.hostAliases.insert hostFun }),
        deviceFunctions := Function.update r.deviceFunctions hostFun
          (some (info.module, deviceFun)) }

/-- `GPUProcessor::internal_unregister_fat_binary(fat_bin)`: asserts the module is loaded,
unloads it, erases each of its aliases from the maps and the module from `modules`. -/
def internalUnregisterFatBinary (r : Registry) (h : Nat) : Option Registry :=
  match r.modules h with
  | none => none
  | some info => some { r with
      deviceFunctions := info.hostAliases.foldl (fun m f => Function.update m f none)
        r.deviceFunctions,
      deviceVariables := info.varAliases.foldl (fun m v => Function.update m v none)
        r.deviceVariables,
      modules := Function.update r.modules h none }

/-- What `internal_launch` hands `cuLaunchKernel`: the mapped function, or the host
pointer itself when none is mapped. -/
inductive LaunchTarget where
  | cuFunction (f : Nat × Nat)
  | hostPointer (p : Nat)
  deriving DecidableEq, Repr

/-- The function lookup of `GPUProcessor::internal_launch(func)`. -/
def launchFunction (r : Registry) (func : Nat) : LaunchTarget :=
  match r.deviceFunctions func with
  | some f => .cuFunction f
  | none => .hostPointer func

/-- An address `cuMemcpyAsync` is given: a module's global (its pointer from
`cuModuleGetGlobal`) plus an offset, or a pointer of the caller's, cast to `CUdeviceptr`. -/
inductive CopyAddr where
  | global (ptr : Nat × Nat) (offset : Nat)
  | pointer (p : Nat)
  deriving DecidableEq, Repr

/-- `GPUProcessor::internal_gpu_memcpy_to_symbol(dst, src, size, offset, ...)`: asserts
that the symbol `dst` is mapped and copies from `src` to its global plus `offset`; the
destination and source `cuMemcpyAsync` is given, `none` when the assertion fails. -/
def memcpyToSymbol (r : Registry) (dst src offset : Nat) : Option (CopyAddr × CopyAddr) :=
  (r.deviceVariables dst).map fun v => (.global v.ptr offset, .pointer src)

/-- `GPUProcessor::internal_gpu_memcpy_from_symbol(dst, src, size, offset, ...)`: looks up
the destination `dst`, not the symbol `src`, asserts that it is mapped, and copies from that
global plus `offset` to `dst`. -/
def memcpyFromSymbol (r : Registry) (dst _src offset : Nat) : Option (CopyAddr × CopyAddr) :=
  (r.deviceVariables dst).map fun v => (.pointer dst, .global v.ptr offset)

/-- `GPUTask::finish_job`: unregisters the task's modules. -/
def finishJob (r : Registry) (ms : List Nat) : Option Registry :=
  ms.foldlM internalUnregisterFatBinary r

/-! ## Registrations deferred to `initialize_processor` -/

/-- A `DeferredFunction` of `defer_function_load`. -/
structure DeferredFunction where
  handle : Nat
  hostFun : Nat
  deviceFun : Nat
  deriving DecidableEq, Repr

/-- A `DeferredVariable` of `defer_variable_load`, by the fields `internal_register_var`
reads. -/
structure DeferredVariable where
  handle : Nat
  hostVar : Nat
  deviceName : Nat
  deriving DecidableEq, Repr

/-- `GPUProcessor::initialize_processor`, its loading part: the deferred modules (pairs of
a `FatBin` pointer and its handle, in the map's order, with `fatBins` the `FatBin` each
pointer points to), the deferred cubins, then the deferred functions and variables. -/
def initializeProcessor (fatBins : Nat → FatBin) (deferredModules deferredCubins : List (Nat × Nat))
    (deferredFunctions : List DeferredFunction) (deferredVariables : List DeferredVariable) :
    Option Registry := do
  let r ← deferredModules.foldlM (fun r p =>
    if (fatBins p.1).data = none ∧ (fatBins p.1).filenameOrFatbins = none then none
    else some (load r p.2)) Registry.empty
  let r := deferredCubins.foldl (fun r p => load r p.2) r
  let r ← deferredFunctions.foldlM
    (fun r d => internalRegisterFunction r d.handle d.hostFun d.deviceFun) r
  deferredVariables.foldlM (fun r d => internalRegisterVar r d.handle d.hostVar d.deviceName) r

/-! ## The processor's thread -/

/-- A registration a task's code makes, with the handle the source allocates for a new
module. -/
inductive Call where
  | registerFatBinary (h : Nat) (fb : FatBin)
  | registerCudaBinary (h : Nat)
  | registerVar (h hostVar deviceName : Nat)
  | registerFunction (h hostFun deviceFun : Nat)
  deriving DecidableEq, Repr

/-- The registration a call makes. -/
def Call.apply (r : Registry) : Call → Option Registry
  | .registerFatBinary h fb => internalRegisterFatBinary r h fb
  | .registerCudaBinary h => some (internalRegisterCudaBinary r h)
  | .registerVar h v n => internalRegisterVar r h v n
  | .registerFunction h f d => internalRegisterFunction r h f d

/-- `malloc` gives a new module a handle that is not a live one. -/
def Call.Fresh (r : Registry) : Call → Prop
  | .registerFatBinary h _ => r.modules h = none
  | .registerCudaBinary h => r.modules h = none
  | _ => True

/-- The registry, whether the thread is inside a task's body, and the modules each
`GPUTask` whose job has not finished holds. -/
structure GpuState where
  reg : Registry
  running : Bool
  pending : List (List Nat)

/-- The modules some task owns. -/
def GpuState.owned (s : GpuState) : List Nat :=
  s.reg.taskModules ++ s.pending.flatten

/-- `assert(task_modules.empty())` before `gpu_task->execute()` in `execute_gpu`. -/
def startTask (s : GpuState) : Option GpuState :=
  if s.reg.taskModules = [] then some { s with running := true } else none

/-- After the body: `gpu_task->record_modules(task_modules); task_modules.clear()`. -/
def endTask (s : GpuState) : GpuState :=
  ⟨{ s.reg with taskModules := [] }, false, s.reg.taskModules :: s.pending⟩

/-- The steps of the processor's thread: a task starts; its body registers; it ends; the
job of any `GPUTask` finishes between tasks. -/
inductive Step : GpuState → GpuState → Prop
  | start {s s' : GpuState} : s.running = false → startTask s = some s' → Step s s'
  | call {s : GpuState} {r' : Registry} (c : Call) : s.running = true → c.Fresh s.reg →
      c.apply s.reg = some r' → Step s { s with reg := r' }
  | finish {s : GpuState} {r' : Registry} (pre post : List (List Nat)) (ms : List Nat) :
      s.running = false → s.pending = pre ++ ms :: post → finishJob s.reg ms = some r' →
      Step s ⟨r', false, pre ++ post⟩
  | stop {s : GpuState} : s.running = true → Step s (endTask s)

/-- The states of every run from `initialize_processor`, whose deferred modules have
distinct handles. -/
inductive Reachable : GpuState → Prop
  | init {fatBins : Nat → FatBin} {dm dc : List (Nat × Nat)} {df : List DeferredFunction}
      {dv : List DeferredVariable} {r : Registry} :
      (dm.map (·.2) ++ dc.map (·.2)).Nodup → initializeProcessor fatBins dm dc df dv = some r →
      Reachable ⟨r, false, []⟩
  | step {s s' : GpuState} : Reachable s → Step s s' → Reachable s'

/-! ## What each operation does -/

section Ops

variable {r r' : Registry} {h f d : Nat}

@[simp] theorem load_deviceFunctions (r : Registry) (h : Nat) :
    (load r h).deviceFunctions = r.deviceFunctions := rfl

@[simp] theorem load_deviceVariables (r : Registry) (h : Nat) :
    (load r h).deviceVariables = r.deviceVariables := rfl

@[simp] theorem load_taskModules (r : Registry) (h : Nat) :
    (load r h).taskModules = r.taskModules := rfl

/-- Loading under a fresh handle: the new module has the next load number and no alias;
the others stay. -/
theorem load_modules_cases (hf : r.modules h = none) {h' : Nat} {i : ModuleInfo}
    (hi : (load r h).modules h' = some i) :
    (h' = h ∧ i = ⟨r.nextModule, [], []⟩) ∨ (h' ≠ h ∧ r.modules h' = some i) := by
  by_cases he : h' = h
  · subst he
    simp only [load, Function.update_same, hf, Option.getD_none, Option.some.injEq] at hi
    exact .inl ⟨rfl, hi.symm⟩
  · simp only [load, Function.update_noteq he] at hi
    exact .inr ⟨he, hi⟩

theorem load_modules_ne (r : Registry) {h h' : Nat} (he : h' ≠ h) :
    (load r h).modules h' = r.modules h' :=
  Function.update_noteq he _ _

theorem load_modules_self (hf : r.modules h = none) :
    (load r h).modules h = some ⟨r.nextModule, [], []⟩ := by
  simp [load, hf]

/-- `register_function` either finds the host function mapped and changes nothing, or maps
it to the loaded module's function and adds it to the module's aliases. -/
theorem registerFunction_cases (hr : internalRegisterFunction r h f d = some r') :
    r' = r ∨ ∃ info, r.modules h = some info ∧ r.deviceFunctions f = none ∧
      r' = { r with
        modules := Function.update r.modules h
          (some { info with hostAliases := info.hostAliases.insert f }),
        deviceFunctions := Function.update r.deviceFunctions f (some (info.module, d)) } := by
  unfold internalRegisterFunction at hr
  split_ifs at hr with hs
  · exact .inl (Option.some.inj hr).symm
  · split at hr
    · cases hr
    · next info hm =>
      exact .inr ⟨info, hm, Option.not_isSome_iff_eq_none.1 hs, (Option.some.inj hr).symm⟩

/-- `register_var` either finds the host variable mapped and changes nothing, or maps it to
the loaded module's global and adds it to the module's aliases. -/
theorem registerVar_cases (hr : internalRegisterVar r h f d = some r') :
    r' = r ∨ ∃ info, r.modules h = some info ∧ r.deviceVariables f = none ∧
      r' = { r with
        deviceVariables := Function.update r.deviceVariables f (some ⟨(info.module, d), d⟩),
        modules := Function.update r.modules h
          (some { info with varAliases := info.varAliases.insert f }) } := by
  unfold internalRegisterVar at hr
  split at hr
  · cases hr
  · next info hm =>
    split_ifs at hr with hs
    · exact .inl (Option.some.inj hr).symm
    · exact .inr ⟨info, hm, Option.not_isSome_iff_eq_none.1 hs, (Option.some.inj hr).symm⟩

theorem foldl_erase_apply {α : Type} (l : List Nat) (m : Nat → Option α) (x : Nat) :
    l.foldl (fun m f => Function.update m f none) m x = if x ∈ l then none else m x := by
  induction l generalizing m with
  | nil => simp
  | cons y ys ih =>
    rw [List.foldl_cons, ih]
    by_cases hx : x = y
    · subst hx
      simp
    · simp [hx, Function.update_noteq hx]

/-- `unregister_fat_binary` erases the module and exactly its aliases. -/
theorem unregister_cases (hr : internalUnregisterFatBinary r h = some r') :
    ∃ info, r.modules h = some info ∧ r'.modules = Function.update r.modules h none ∧
      (∀ f, r'.deviceFunctions f = if f ∈ info.hostAliases then none else r.deviceFunctions f) ∧
      (∀ v, r'.deviceVariables v = if v ∈ info.varAliases then none else r.deviceVariables v) ∧
      r'.taskModules = r.taskModules ∧ r'.nextModule = r.nextModule := by
  unfold internalUnregisterFatBinary at hr
  split at hr
  · cases hr
  · next info hm =>
    cases hr
    exact ⟨info, hm, rfl, foldl_erase_apply _ _, foldl_erase_apply _ _, rfl, rfl⟩

/-- Erasing a module's aliases erases exactly the entries into the module, when the aliases
are those entries. -/
theorem erase_aliases_eq_filter {α : Type} {m : Nat → Option α} {key : α → Nat}
    {aliases : List Nat} {n : Nat} (hA : ∀ x ∈ aliases, ∃ a, m x = some a ∧ key a = n)
    (hM : ∀ x a, m x = some a → key a = n → x ∈ aliases) (x : Nat) :
    (if x ∈ aliases then none else m x) = (m x).filter fun a => key a != n := by
  split_ifs with hx
  · obtain ⟨a, ha, hk⟩ := hA x hx
    simp [ha, Option.filter_some, hk]
  · cases ha : m x with
    | none => rfl
    | some a =>
      have hk : key a ≠ n := fun hk => hx (hM x a ha hk)
      simp [Option.filter_some, hk]

theorem launchFunction_eq_cuFunction {p : Nat} {cf : Nat × Nat} :
    launchFunction r p = .cuFunction cf ↔ r.deviceFunctions p = some cf := by
  unfold launchFunction
  cases r.deviceFunctions p <;> simp

/-- `r'` keeps what `r` registered: its loaded modules and its mapped functions and
variables. -/
structure Grows (r r' : Registry) : Prop where
  modules : ∀ x, r.modules x ≠ none → r'.modules x ≠ none
  funs : ∀ x, r.deviceFunctions x ≠ none → r'.deviceFunctions x ≠ none
  vars : ∀ x, r.deviceVariables x ≠ none → r'.deviceVariables x ≠ none

theorem Grows.refl (r : Registry) : Grows r r := ⟨fun _ h => h, fun _ h => h, fun _ h => h⟩

theorem Grows.trans {r₁ r₂ r₃ : Registry} (h₁ : Grows r₁ r₂) (h₂ : Grows r₂ r₃) : Grows r₁ r₃ :=
  ⟨fun x h => h₂.modules x (h₁.modules x h), fun x h => h₂.funs x (h₁.funs x h),
    fun x h => h₂.vars x (h₁.vars x h)⟩

/-- `Function.update` at a key with a present value keeps every present key present. -/
theorem update_some_ne_none {α : Type} (m : Nat → Option α) (k : Nat) (a : α) {x : Nat}
    (hx : m x ≠ none) : Function.update m k (some a) x ≠ none := by
  by_cases he : x = k
  · subst he; simp
  · rwa [Function.update_noteq he]

/-- `register_function` on a loaded module succeeds, keeps what was registered and maps the
host function. -/
theorem registerFunction_grows (hl : r.modules h ≠ none) :
    ∃ r', internalRegisterFunction r h f d = some r' ∧ Grows r r' ∧ r'.deviceFunctions f ≠ none := by
  obtain ⟨info, hm⟩ := Option.ne_none_iff_exists'.1 hl
  unfold internalRegisterFunction
  split_ifs with hf
  · exact ⟨r, rfl, .refl r, Option.isSome_iff_ne_none.1 hf⟩
  · rw [hm]
    exact ⟨_, rfl, ⟨fun _ => update_some_ne_none _ _ _, fun _ => update_some_ne_none _ _ _,
      fun _ hx => hx⟩, by simp⟩

/-- `register_var` on a loaded module succeeds, keeps what was registered and maps the host
variable. -/
theorem registerVar_grows (hl : r.modules h ≠ none) :
    ∃ r', internalRegisterVar r h f d = some r' ∧ Grows r r' ∧ r'.deviceVariables f ≠ none := by
  obtain ⟨info, hm⟩ := Option.ne_none_iff_exists'.1 hl
  simp only [internalRegisterVar, hm]
  split_ifs with hf
  · exact ⟨r, rfl, .refl r, Option.isSome_iff_ne_none.1 hf⟩
  · exact ⟨_, rfl, ⟨fun _ => update_some_ne_none _ _ _, fun _ hx => hx,
      fun _ => update_some_ne_none _ _ _⟩, by simp⟩

end Ops

/-! ## The registry's invariant -/

/-- The maps agree with the modules: every mapped function and variable is one of a loaded
module that lists it among its aliases, and every alias is mapped to its module; load
numbers tell loaded modules apart and are below `nextModule`. -/
structure RegInv (r : Registry) : Prop where
  funs : ∀ f cf, r.deviceFunctions f = some cf →
    ∃ h info, r.modules h = some info ∧ info.module = cf.1 ∧ f ∈ info.hostAliases
  vars : ∀ v vi, r.deviceVariables v = some vi →
    ∃ h info, r.modules h = some info ∧ info.module = vi.ptr.1 ∧ v ∈ info.varAliases
  host_aliases : ∀ h info f, r.modules h = some info → f ∈ info.hostAliases →
    ∃ cf, r.deviceFunctions f = some cf ∧ cf.1 = info.module
  var_aliases : ∀ h info v, r.modules h = some info → v ∈ info.varAliases →
    ∃ vi, r.deviceVariables v = some vi ∧ vi.ptr.1 = info.module
  module_inj : ∀ h h' i i', r.modules h = some i → r.modules h' = some i' →
    i.module = i'.module → h = h'
  module_lt : ∀ h i, r.modules h = some i → i.module < r.nextModule

section Preservation

variable {r r' : Registry} {h f d : Nat}

theorem regInv_empty : RegInv Registry.empty :=
  ⟨fun _ _ h => Option.noConfusion h, fun _ _ h => Option.noConfusion h,
    fun _ _ _ h => Option.noConfusion h, fun _ _ _ h => Option.noConfusion h,
    fun _ _ _ _ h => Option.noConfusion h, fun _ _ h => Option.noConfusion h⟩

/-- Two loaded modules that list the same host function are one. -/
theorem RegInv.host_alias_unique (hi : RegInv r) {a b : Nat} {i j : ModuleInfo}
    (ha : r.modules a = some i) (hb : r.modules b = some j) (hfa : f ∈ i.hostAliases)
    (hfb : f ∈ j.hostAliases) : a = b := by
  obtain ⟨cf, hcf, hc⟩ := hi.host_aliases a i f ha hfa
  obtain ⟨cf', hcf', hc'⟩ := hi.host_aliases b j f hb hfb
  rw [hcf, Option.some.injEq] at hcf'
  exact hi.module_inj a b i j ha hb (hc.symm.trans (hcf' ▸ hc'))

theorem RegInv.var_alias_unique (hi : RegInv r) {a b : Nat} {i j : ModuleInfo}
    (ha : r.modules a = some i) (hb : r.modules b = some j) (hfa : f ∈ i.varAliases)
    (hfb : f ∈ j.varAliases) : a = b := by
  obtain ⟨vi, hvi, hc⟩ := hi.var_aliases a i f ha hfa
  obtain ⟨vi', hvi', hc'⟩ := hi.var_aliases b j f hb hfb
  rw [hvi, Option.some.injEq] at hvi'
  exact hi.module_inj a b i j ha hb (hc.symm.trans (hvi' ▸ hc'))

/-- A function mapped into a loaded module is among that module's aliases. -/
theorem RegInv.mem_hostAliases (hi : RegInv r) {i : ModuleInfo} (hm : r.modules h = some i)
    {cf : Nat × Nat} (hx : r.deviceFunctions f = some cf) (hc : cf.1 = i.module) :
    f ∈ i.hostAliases := by
  obtain ⟨b, j, hb, hbmod, hfb⟩ := hi.funs f cf hx
  obtain rfl := hi.module_inj b h j i hb hm (hbmod.trans hc)
  rw [hm, Option.some.injEq] at hb
  exact hb ▸ hfb

theorem RegInv.mem_varAliases (hi : RegInv r) {i : ModuleInfo} (hm : r.modules h = some i)
    {vi : VarInfo} (hx : r.deviceVariables f = some vi) (hc : vi.ptr.1 = i.module) :
    f ∈ i.varAliases := by
  obtain ⟨b, j, hb, hbmod, hfb⟩ := hi.vars f vi hx
  obtain rfl := hi.module_inj b h j i hb hm (hbmod.trans hc)
  rw [hm, Option.some.injEq] at hb
  exact hb ▸ hfb

theorem regInv_load (hi : RegInv r) (hf : r.modules h = none) : RegInv (load r h) := by
  -- the loaded modules of `r` keep their entries
  have hold : ∀ h' i, r.modules h' = some i → (load r h).modules h' = some i := fun h' i hi' =>
    (load_modules_ne r fun he => by rw [he, hf] at hi'; cases hi').trans hi'
  -- an entry after the load has a load number below the next one, or is the new module
  have hnum : ∀ a i, (load r h).modules a = some i →
      (a = h ∧ i.module = r.nextModule) ∨ (r.modules a = some i ∧ i.module < r.nextModule) :=
    fun a i ha => by
      rcases load_modules_cases hf ha with ⟨rfl, rfl⟩ | ⟨-, ha⟩
      · exact .inl ⟨rfl, rfl⟩
      · exact .inr ⟨ha, hi.module_lt a i ha⟩
  refine ⟨fun f cf hcf => ?_, fun v vi hv => ?_, fun h' i f hi' hf' => ?_,
    fun h' i v hi' hv => ?_, fun a b i j ha hb he => ?_, fun h' i hi' => ?_⟩
  · obtain ⟨h', i, hi', hm, hmem⟩ := hi.funs f cf hcf
    exact ⟨h', i, hold h' i hi', hm, hmem⟩
  · obtain ⟨h', i, hi', hm, hmem⟩ := hi.vars v vi hv
    exact ⟨h', i, hold h' i hi', hm, hmem⟩
  · rcases load_modules_cases hf hi' with ⟨-, rfl⟩ | ⟨-, hi'⟩
    · cases hf'
    · exact hi.host_aliases h' i f hi' hf'
  · rcases load_modules_cases hf hi' with ⟨-, rfl⟩ | ⟨-, hi'⟩
    · cases hv
    · exact hi.var_aliases h' i v hi' hv
  · rcases hnum a i ha with ⟨rfl, hia⟩ | ⟨ha', hia⟩ <;>
      rcases hnum b j hb with ⟨rfl, hjb⟩ | ⟨hb', hjb⟩
    · rfl
    · omega
    · omega
    · exact hi.module_inj a b i j ha' hb' he
  · show i.module < r.nextModule + 1
    rcases hnum h' i hi' with ⟨-, hm⟩ | ⟨-, hm⟩ <;> omega

/-- Updating a loaded module's entry without changing its load number keeps the load
numbers apart and below `nextModule`. -/
theorem RegInv.update_module (hi : RegInv r) {info : ModuleInfo} (info' : ModuleInfo)
    (hm : r.modules h = some info) (hmod : info'.module = info.module) :
    (∀ a b i j, Function.update r.modules h (some info') a = some i →
      Function.update r.modules h (some info') b = some j → i.module = j.module → a = b) ∧
    ∀ a i, Function.update r.modules h (some info') a = some i → i.module < r.nextModule := by
  -- an entry of the updated map is an entry of `r` with the same load number
  have hsame : ∀ a i, Function.update r.modules h (some info') a = some i →
      ∃ i₀, r.modules a = some i₀ ∧ i₀.module = i.module := fun a i ha => by
    by_cases he : a = h
    · subst he
      rw [Function.update_same, Option.some.injEq] at ha
      exact ⟨info, hm, ha ▸ hmod.symm⟩
    · rw [Function.update_noteq he] at ha
      exact ⟨i, ha, rfl⟩
  refine ⟨fun a b i j ha hb he => ?_, fun a i ha => ?_⟩
  · obtain ⟨i₀, ha₀, hi₀⟩ := hsame a i ha
    obtain ⟨j₀, hb₀, hj₀⟩ := hsame b j hb
    exact hi.module_inj a b i₀ j₀ ha₀ hb₀ (by rw [hi₀, hj₀, he])
  · obtain ⟨i₀, ha₀, hi₀⟩ := hsame a i ha
    exact hi₀ ▸ hi.module_lt a i₀ ha₀

theorem RegInv.registerFunction (hi : RegInv r) (hr : internalRegisterFunction r h f d = some r') :
    RegInv r' := by
  rcases registerFunction_cases hr with rfl | ⟨info, hm, hnone, rfl⟩
  · exact hi
  obtain ⟨hinj, hlt⟩ := hi.update_module { info with hostAliases := info.hostAliases.insert f } hm rfl
  -- a module's entry after the update, from its entry before
  have hnew : ∀ a i, r.modules a = some i → ∃ i', Function.update r.modules h
      (some { info with hostAliases := info.hostAliases.insert f }) a = some i' ∧
      i'.module = i.module ∧ i.hostAliases ⊆ i'.hostAliases ∧ i'.varAliases = i.varAliases :=
    fun a i ha => by
      by_cases he : a = h
      · subst he
        rw [hm, Option.some.injEq] at ha
        subst ha
        exact ⟨_, Function.update_same _ _ _, rfl, fun x hx => List.mem_insert_of_mem hx, rfl⟩
      · exact ⟨i, (Function.update_noteq he _ _).trans ha, rfl, fun _ hx => hx, rfl⟩
  -- and conversely
  have hback : ∀ a i', Function.update r.modules h
      (some { info with hostAliases := info.hostAliases.insert f }) a = some i' →
      (a = h ∧ i' = { info with hostAliases := info.hostAliases.insert f }) ∨
        (a ≠ h ∧ r.modules a = some i') := fun a i' ha => by
    by_cases he : a = h
    · subst he
      rw [Function.update_same, Option.some.injEq] at ha
      exact .inl ⟨rfl, ha.symm⟩
    · rw [Function.update_noteq he] at ha
      exact .inr ⟨he, ha⟩
  refine ⟨fun f' cf hcf => ?_, fun v vi hv => ?_, fun a i f' ha hf' => ?_,
    fun a i v ha hv => ?_, hinj, hlt⟩
  · by_cases he : f' = f
    · subst he
      have hcf : (info.module, d) = cf := by simpa using hcf
      exact ⟨h, _, Function.update_same _ _ _, by rw [← hcf], List.mem_insert_self _ _⟩
    · have hcf : r.deviceFunctions f' = some cf := (Function.update_noteq he _ _).symm.trans hcf
      obtain ⟨a, i, ha, hmod, hmem⟩ := hi.funs f' cf hcf
      obtain ⟨i', ha', hmod', hsub, -⟩ := hnew a i ha
      exact ⟨a, i', ha', hmod'.trans hmod, hsub hmem⟩
  · obtain ⟨a, i, ha, hmod, hmem⟩ := hi.vars v vi hv
    obtain ⟨i', ha', hmod', -, hvar⟩ := hnew a i ha
    exact ⟨a, i', ha', hmod'.trans hmod, hvar ▸ hmem⟩
  · -- a host function other than `f` had its mapping before
    have hkeep : ∀ cf, r.deviceFunctions f' = some cf → f' ≠ f := fun cf hcf he => by
      rw [he, hnone] at hcf; cases hcf
    rcases hback a i ha with ⟨rfl, rfl⟩ | ⟨-, ha⟩
    · rcases List.mem_insert_iff.1 hf' with rfl | hf'
      · exact ⟨_, Function.update_same _ _ _, rfl⟩
      · obtain ⟨cf, hcf, hmod⟩ := hi.host_aliases a info f' hm hf'
        exact ⟨cf, (Function.update_noteq (hkeep cf hcf) _ _).trans hcf, hmod⟩
    · obtain ⟨cf, hcf, hmod⟩ := hi.host_aliases a i f' ha hf'
      exact ⟨cf, (Function.update_noteq (hkeep cf hcf) _ _).trans hcf, hmod⟩
  · rcases hback a i ha with ⟨rfl, rfl⟩ | ⟨-, ha⟩
    · exact hi.var_aliases a info v hm hv
    · exact hi.var_aliases a i v ha hv

theorem RegInv.registerVar (hi : RegInv r) (hr : internalRegisterVar r h f d = some r') :
    RegInv r' := by
  rcases registerVar_cases hr with rfl | ⟨info, hm, hnone, rfl⟩
  · exact hi
  obtain ⟨hinj, hlt⟩ := hi.update_module { info with varAliases := info.varAliases.insert f } hm rfl
  have hnew : ∀ a i, r.modules a = some i → ∃ i', Function.update r.modules h
      (some { info with varAliases := info.varAliases.insert f }) a = some i' ∧
      i'.module = i.module ∧ i.varAliases ⊆ i'.varAliases ∧ i'.hostAliases = i.hostAliases :=
    fun a i ha => by
      by_cases he : a = h
      · subst he
        rw [hm, Option.some.injEq] at ha
        subst ha
        exact ⟨_, Function.update_same _ _ _, rfl, fun x hx => List.mem_insert_of_mem hx, rfl⟩
      · exact ⟨i, (Function.update_noteq he _ _).trans ha, rfl, fun _ hx => hx, rfl⟩
  have hback : ∀ a i', Function.update r.modules h
      (some { info with varAliases := info.varAliases.insert f }) a = some i' →
      (a = h ∧ i' = { info with varAliases := info.varAliases.insert f }) ∨
        (a ≠ h ∧ r.modules a = some i') := fun a i' ha => by
    by_cases he : a = h
    · subst he
      rw [Function.update_same, Option.some.injEq] at ha
      exact .inl ⟨rfl, ha.symm⟩
    · rw [Function.update_noteq he] at ha
      exact .inr ⟨he, ha⟩
  refine ⟨fun f' cf hcf => ?_, fun v vi hv => ?_, fun a i f' ha hf' => ?_,
    fun a i v ha hv => ?_, hinj, hlt⟩
  · obtain ⟨a, i, ha, hmod, hmem⟩ := hi.funs f' cf hcf
    obtain ⟨i', ha', hmod', -, hfun⟩ := hnew a i ha
    exact ⟨a, i', ha', hmod'.trans hmod, hfun ▸ hmem⟩
  · by_cases he : v = f
    · subst he
      have hv : (⟨(info.module, d), d⟩ : VarInfo) = vi := by simpa using hv
      exact ⟨h, _, Function.update_same _ _ _, by rw [← hv], List.mem_insert_self _ _⟩
    · have hv : r.deviceVariables v = some vi := (Function.update_noteq he _ _).symm.trans hv
      obtain ⟨a, i, ha, hmod, hmem⟩ := hi.vars v vi hv
      obtain ⟨i', ha', hmod', hsub, -⟩ := hnew a i ha
      exact ⟨a, i', ha', hmod'.trans hmod, hsub hmem⟩
  · rcases hback a i ha with ⟨rfl, rfl⟩ | ⟨-, ha⟩
    · exact hi.host_aliases a info f' hm hf'
    · exact hi.host_aliases a i f' ha hf'
  · -- a host variable other than `f` had its mapping before
    have hkeep : ∀ vi, r.deviceVariables v = some vi → v ≠ f := fun vi hvi he => by
      rw [he, hnone] at hvi; cases hvi
    rcases hback a i ha with ⟨rfl, rfl⟩ | ⟨-, ha⟩
    · rcases List.mem_insert_iff.1 hv with rfl | hv
      · exact ⟨_, Function.update_same _ _ _, rfl⟩
      · obtain ⟨vi, hvi, hmod⟩ := hi.var_aliases a info v hm hv
        exact ⟨vi, (Function.update_noteq (hkeep vi hvi) _ _).trans hvi, hmod⟩
    · obtain ⟨vi, hvi, hmod⟩ := hi.var_aliases a i v ha hv
      exact ⟨vi, (Function.update_noteq (hkeep vi hvi) _ _).trans hvi, hmod⟩

theorem RegInv.unregister (hi : RegInv r) (hr : internalUnregisterFatBinary r h = some r') :
    RegInv r' := by
  obtain ⟨info, hm, hM, hD, hV, -, hN⟩ := unregister_cases hr
  -- the modules left are those of `r` other than `h`
  have hleft : ∀ a i, r'.modules a = some i → a ≠ h ∧ r.modules a = some i := fun a i ha => by
    rw [hM] at ha
    by_cases he : a = h
    · subst he
      rw [Function.update_same] at ha
      cases ha
    · exact ⟨he, (Function.update_noteq he _ _).symm.trans ha⟩
  have hkeep : ∀ a, a ≠ h → r'.modules a = r.modules a := fun a he => by
    rw [hM, Function.update_noteq he]
  refine ⟨fun f cf hcf => ?_, fun v vi hv => ?_, fun a i f ha hf => ?_, fun a i v ha hv => ?_,
    fun a b i j ha hb he => ?_, fun a i ha => ?_⟩
  · rw [hD] at hcf
    split_ifs at hcf with hmem
    obtain ⟨a, i, ha, hmod, hf⟩ := hi.funs f cf hcf
    have hne : a ≠ h := fun he => hmem (by rw [he, hm, Option.some.injEq] at ha; exact ha ▸ hf)
    exact ⟨a, i, (hkeep a hne).trans ha, hmod, hf⟩
  · rw [hV] at hv
    split_ifs at hv with hmem
    obtain ⟨a, i, ha, hmod, hv'⟩ := hi.vars v vi hv
    have hne : a ≠ h := fun he => hmem (by rw [he, hm, Option.some.injEq] at ha; exact ha ▸ hv')
    exact ⟨a, i, (hkeep a hne).trans ha, hmod, hv'⟩
  · obtain ⟨hne, ha⟩ := hleft a i ha
    obtain ⟨cf, hcf, hmod⟩ := hi.host_aliases a i f ha hf
    refine ⟨cf, ?_, hmod⟩
    rw [hD, if_neg fun hmem => hne (hi.host_alias_unique ha hm hf hmem), hcf]
  · obtain ⟨hne, ha⟩ := hleft a i ha
    obtain ⟨vi, hvi, hmod⟩ := hi.var_aliases a i v ha hv
    refine ⟨vi, ?_, hmod⟩
    rw [hV, if_neg fun hmem => hne (hi.var_alias_unique ha hm hv hmem), hvi]
  · exact hi.module_inj a b i j (hleft a i ha).2 (hleft b j hb).2 he
  · exact hN ▸ hi.module_lt a i (hleft a i ha).2

end Preservation

/-! ## A task's `finish_job` -/

section Finish

variable {r r' : Registry} {ms : List Nat}

theorem finishJob_cons (r : Registry) (h : Nat) (ms : List Nat) :
    finishJob r (h :: ms) = (internalUnregisterFatBinary r h).bind fun r₁ => finishJob r₁ ms := rfl

theorem RegInv.of_finishJob (hi : RegInv r) (hf : finishJob r ms = some r') : RegInv r' := by
  induction ms generalizing r with
  | nil => exact Option.some.inj hf ▸ hi
  | cons h ms ih =>
    obtain ⟨r₁, h₁, hf⟩ := Option.bind_eq_some.1 hf
    exact ih (hi.unregister h₁) hf

theorem finishJob_taskModules (hf : finishJob r ms = some r') : r'.taskModules = r.taskModules := by
  induction ms generalizing r with
  | nil => rw [← Option.some.inj hf]
  | cons h ms ih =>
    obtain ⟨r₁, h₁, hf⟩ := Option.bind_eq_some.1 hf
    exact (ih hf).trans (unregister_cases h₁).choose_spec.2.2.2.2.1

/-- `finish_job` leaves the modules it does not unload as they are, and only unloads. -/
theorem finishJob_modules (hf : finishJob r ms = some r') (a : Nat) :
    r'.modules a = if a ∈ ms then none else r.modules a := by
  induction ms generalizing r with
  | nil => rw [← Option.some.inj hf]; rfl
  | cons h ms ih =>
    obtain ⟨r₁, h₁, hf⟩ := Option.bind_eq_some.1 hf
    obtain ⟨-, -, hM, -⟩ := unregister_cases h₁
    rw [ih hf, hM, Function.update_apply]
    by_cases ha : a = h <;> simp [ha]

/-- With distinct loaded modules, every `unregister_fat_binary` of `finish_job` finds its
module. -/
theorem finishJob_isSome (hnd : ms.Nodup) (hl : ∀ h ∈ ms, r.modules h ≠ none) :
    ∃ r', finishJob r ms = some r' := by
  induction ms generalizing r with
  | nil => exact ⟨r, rfl⟩
  | cons h ms ih =>
    obtain ⟨info, hm⟩ := Option.ne_none_iff_exists'.1 (hl h (List.mem_cons_self _ _))
    obtain ⟨r₁, h₁⟩ : ∃ r₁, internalUnregisterFatBinary r h = some r₁ := by
      unfold internalUnregisterFatBinary; rw [hm]; exact ⟨_, rfl⟩
    obtain ⟨-, -, hM, -⟩ := unregister_cases h₁
    obtain ⟨r', hr'⟩ := ih (List.nodup_cons.1 hnd).2 fun a ha => by
      rw [hM, Function.update_noteq fun (he : a = h) => (List.nodup_cons.1 hnd).1 (he ▸ ha)]
      exact hl a (List.mem_cons_of_mem _ ha)
    exact ⟨r', by rw [finishJob_cons, h₁]; exact hr'⟩

/-- A mapping survives `finish_job` when its module does. -/
theorem RegInv.finishJob_keeps (hi : RegInv r) (hf : finishJob r ms = some r') {x : Nat}
    {cf : Nat × Nat} (hx : r.deviceFunctions x = some cf) {a : Nat} {i : ModuleInfo}
    (ha : r'.modules a = some i) (hmod : i.module = cf.1) : r'.deviceFunctions x = some cf := by
  induction ms generalizing r with
  | nil => rw [← Option.some.inj hf]; exact hx
  | cons h ms ih =>
    obtain ⟨r₁, h₁, hf⟩ := Option.bind_eq_some.1 hf
    obtain ⟨info, hm, hM, hD, -⟩ := unregister_cases h₁
    refine ih (hi.unregister h₁) hf ?_
    -- the module of `cf` is not `h`: it is still loaded at the end
    have ha₁ : r₁.modules a = some i := by
      rw [finishJob_modules hf] at ha
      split_ifs at ha
      exact ha
    obtain ⟨hne, ha₀⟩ : a ≠ h ∧ r.modules a = some i := by
      rw [hM] at ha₁
      by_cases he : a = h
      · subst he; rw [Function.update_same] at ha₁; cases ha₁
      · exact ⟨he, (Function.update_noteq he _ _).symm.trans ha₁⟩
    obtain ⟨b, j, hb, hbmod, hxb⟩ := hi.funs x cf hx
    have hab : a = b := hi.module_inj a b i j ha₀ hb (hmod.trans hbmod.symm)
    rw [hD, if_neg fun hxm => hne (hab ▸ hi.host_alias_unique hb hm hxb hxm), hx]

theorem RegInv.finishJob_keeps_var (hi : RegInv r) (hf : finishJob r ms = some r') {x : Nat}
    {vi : VarInfo} (hx : r.deviceVariables x = some vi) {a : Nat} {i : ModuleInfo}
    (ha : r'.modules a = some i) (hmod : i.module = vi.ptr.1) : r'.deviceVariables x = some vi := by
  induction ms generalizing r with
  | nil => rw [← Option.some.inj hf]; exact hx
  | cons h ms ih =>
    obtain ⟨r₁, h₁, hf⟩ := Option.bind_eq_some.1 hf
    obtain ⟨info, hm, hM, -, hV, -⟩ := unregister_cases h₁
    refine ih (hi.unregister h₁) hf ?_
    have ha₁ : r₁.modules a = some i := by
      rw [finishJob_modules hf] at ha
      split_ifs at ha
      exact ha
    obtain ⟨hne, ha₀⟩ : a ≠ h ∧ r.modules a = some i := by
      rw [hM] at ha₁
      by_cases he : a = h
      · subst he; rw [Function.update_same] at ha₁; cases ha₁
      · exact ⟨he, (Function.update_noteq he _ _).symm.trans ha₁⟩
    obtain ⟨b, j, hb, hbmod, hxb⟩ := hi.vars x vi hx
    have hab : a = b := hi.module_inj a b i j ha₀ hb (hmod.trans hbmod.symm)
    rw [hV, if_neg fun hxm => hne (hab ▸ hi.var_alias_unique hb hm hxb hxm), hx]

end Finish

/-! ## A task's registrations -/

section Calls

variable {r r' : Registry} {c : Call}

theorem RegInv.withTaskModules (hi : RegInv r) (l : List Nat) :
    RegInv { r with taskModules := l } :=
  ⟨hi.funs, hi.vars, hi.host_aliases, hi.var_aliases, hi.module_inj, hi.module_lt⟩

theorem RegInv.apply (hi : RegInv r) (hc : c.Fresh r) (ha : c.apply r = some r') : RegInv r' := by
  cases c with
  | registerFatBinary h fb =>
    simp only [Call.apply, internalRegisterFatBinary] at ha
    split_ifs at ha
    cases ha
    exact (regInv_load hi hc).withTaskModules _
  | registerCudaBinary h =>
    cases ha
    exact (regInv_load hi hc).withTaskModules _
  | registerVar h v n => exact hi.registerVar ha
  | registerFunction h f d => exact hi.registerFunction ha

/-- A registration keeps every loaded module, with its load number. -/
theorem Call.apply_modules (hc : c.Fresh r) (ha : c.apply r = some r') {a : Nat} {i : ModuleInfo}
    (hm : r.modules a = some i) : ∃ i', r'.modules a = some i' ∧ i'.module = i.module := by
  -- an update at `h` that keeps the load number keeps every entry's load number
  have hupd : ∀ (h : Nat) (info info' : ModuleInfo), r.modules h = some info →
      info'.module = info.module →
      ∃ i', Function.update r.modules h (some info') a = some i' ∧ i'.module = i.module :=
    fun h info info' hh hmod => by
      by_cases he : a = h
      · subst he
        rw [hm, Option.some.injEq] at hh
        exact ⟨info', Function.update_same _ _ _, hh ▸ hmod⟩
      · exact ⟨i, (Function.update_noteq he _ _).trans hm, rfl⟩
  cases c with
  | registerFatBinary h fb =>
    simp only [Call.apply, internalRegisterFatBinary] at ha
    split_ifs at ha
    cases ha
    exact ⟨i, (load_modules_ne r fun he => by rw [he, hc] at hm; cases hm).trans hm, rfl⟩
  | registerCudaBinary h =>
    cases ha
    exact ⟨i, (load_modules_ne r fun he => by rw [he, hc] at hm; cases hm).trans hm, rfl⟩
  | registerVar h v n =>
    rcases registerVar_cases ha with rfl | ⟨info, hh, -, rfl⟩
    · exact ⟨i, hm, rfl⟩
    · exact hupd h info _ hh rfl
  | registerFunction h f d =>
    rcases registerFunction_cases ha with rfl | ⟨info, hh, -, rfl⟩
    · exact ⟨i, hm, rfl⟩
    · exact hupd h info _ hh rfl

/-- A registration never remaps a mapped function or variable. -/
theorem Call.apply_keeps (ha : c.apply r = some r') :
    (∀ x cf, r.deviceFunctions x = some cf → r'.deviceFunctions x = some cf) ∧
      ∀ x vi, r.deviceVariables x = some vi → r'.deviceVariables x = some vi := by
  cases c with
  | registerFatBinary h fb =>
    simp only [Call.apply, internalRegisterFatBinary] at ha
    split_ifs at ha
    cases ha
    exact ⟨fun _ _ hx => hx, fun _ _ hx => hx⟩
  | registerCudaBinary h =>
    cases ha
    exact ⟨fun _ _ hx => hx, fun _ _ hx => hx⟩
  | registerVar h v n =>
    rcases registerVar_cases ha with rfl | ⟨info, -, hnone, rfl⟩
    · exact ⟨fun _ _ hx => hx, fun _ _ hx => hx⟩
    · refine ⟨fun _ _ hx => hx, fun x vi hx => ?_⟩
      exact (Function.update_noteq (fun he => by rw [he, hnone] at hx; cases hx) _ _).trans hx
  | registerFunction h f d =>
    rcases registerFunction_cases ha with rfl | ⟨info, -, hnone, rfl⟩
    · exact ⟨fun _ _ hx => hx, fun _ _ hx => hx⟩
    · refine ⟨fun x cf hx => ?_, fun _ _ hx => hx⟩
      exact (Function.update_noteq (fun he => by rw [he, hnone] at hx; cases hx) _ _).trans hx

/-- Only a new module joins `task_modules`, and it is loaded. -/
theorem Call.apply_taskModules (hc : c.Fresh r) (ha : c.apply r = some r') :
    r'.taskModules = r.taskModules ∨
      ∃ h, r.modules h = none ∧ r'.modules h ≠ none ∧ r'.taskModules = r.taskModules.insert h := by
  cases c with
  | registerFatBinary h fb =>
    simp only [Call.apply, internalRegisterFatBinary] at ha
    split_ifs at ha
    cases ha
    exact .inr ⟨h, hc, by simp [load_modules_self hc], rfl⟩
  | registerCudaBinary h =>
    cases ha
    exact .inr ⟨h, hc, by simp [internalRegisterCudaBinary, load_modules_self hc], rfl⟩
  | registerVar h v n =>
    rcases registerVar_cases ha with rfl | ⟨info, -, -, rfl⟩ <;> exact .inl rfl
  | registerFunction h f d =>
    rcases registerFunction_cases ha with rfl | ⟨info, -, -, rfl⟩ <;> exact .inl rfl

/-- A registration loads only the module it adds to `task_modules`. -/
theorem Call.apply_new_mem (ha : c.apply r = some r') {x : Nat} (hx : r.modules x = none)
    (hx' : r'.modules x ≠ none) : x ∈ r'.taskModules := by
  -- an update of a loaded module's entry leaves `x` unloaded
  have hupd : ∀ (h : Nat) (info : ModuleInfo) (v : Option ModuleInfo), r.modules h = some info →
      Function.update r.modules h v x = none := fun h info v hh =>
    (Function.update_noteq (fun he => by rw [he, hh] at hx; cases hx) _ _).trans hx
  cases c with
  | registerFatBinary h fb =>
    simp only [Call.apply, internalRegisterFatBinary] at ha
    split_ifs at ha
    cases ha
    by_cases he : x = h
    · exact he ▸ List.mem_insert_self _ _
    · exact absurd ((load_modules_ne r he).trans hx) hx'
  | registerCudaBinary h =>
    cases ha
    by_cases he : x = h
    · exact he ▸ List.mem_insert_self _ _
    · exact absurd ((load_modules_ne r he).trans hx) hx'
  | registerVar h v n =>
    rcases registerVar_cases ha with rfl | ⟨info, hh, -, rfl⟩
    · exact absurd hx hx'
    · exact absurd (hupd h info _ hh) hx'
  | registerFunction h f d =>
    rcases registerFunction_cases ha with rfl | ⟨info, hh, -, rfl⟩
    · exact absurd hx hx'
    · exact absurd (hupd h info _ hh) hx'

end Calls

/-! ## Every run -/

/-- The processor's invariant: the registry's, and each module a task registered has one
owner, is loaded, and the running task owns none between tasks. -/
structure Inv (s : GpuState) : Prop where
  reg : RegInv s.reg
  owned_nodup : s.owned.Nodup
  owned_loaded : ∀ h ∈ s.owned, s.reg.modules h ≠ none
  idle : s.running = false → s.reg.taskModules = []

section Run

variable {s s' : GpuState}

theorem startTask_some (h : startTask s = some s') : s' = { s with running := true } := by
  simp only [startTask] at h
  split_ifs at h
  exact (Option.some.inj h).symm

@[simp] theorem endTask_owned (s : GpuState) : (endTask s).owned = s.owned := by
  simp only [GpuState.owned, endTask, List.flatten_cons, List.nil_append]

/-- The modules the `GPUTask`s hold after one of them finished: still one owner each, and
those held before but the finished task's. -/
theorem owned_finish {tm ms : List Nat} {pre post : List (List Nat)}
    (hnd : (tm ++ (pre ++ ms :: post).flatten).Nodup) :
    (tm ++ (pre ++ post).flatten).Nodup ∧ ∀ x, x ∈ tm ++ (pre ++ post).flatten ↔
      x ∈ tm ++ (pre ++ ms :: post).flatten ∧ x ∉ ms := by
  simp only [List.flatten_append, List.flatten_cons] at hnd ⊢
  have hsub : List.Sublist (tm ++ (pre.flatten ++ post.flatten))
      (tm ++ (pre.flatten ++ (ms ++ post.flatten))) :=
    ((List.sublist_append_right ms post.flatten).append_left pre.flatten).append_left tm
  refine ⟨hnd.sublist hsub, fun x => ⟨fun hx => ⟨hsub.subset hx, fun hxm => ?_⟩, ?_⟩⟩
  · -- `ms` shares no module with the others
    simp only [List.nodup_append, List.disjoint_append_right] at hnd
    obtain ⟨-, ⟨-, ⟨-, -, hmp⟩, hpm, -⟩, -, htm, -⟩ := hnd
    simp only [List.mem_append] at hx
    rcases hx with hx | hx | hx
    · exact htm hx hxm
    · exact hpm hx hxm
    · exact hmp hxm hx
  · rintro ⟨hx, hxm⟩
    simp only [List.mem_append] at hx ⊢
    exact hx.imp_right (Or.imp_right fun h => h.resolve_left hxm)

theorem mem_owned_of_pending {s : GpuState} {pre post : List (List Nat)} {ms : List Nat}
    (hp : s.pending = pre ++ ms :: post) {x : Nat} (hx : x ∈ ms) : x ∈ s.owned :=
  List.mem_append_right _ (List.mem_flatten.2
    ⟨ms, hp ▸ List.mem_append_right _ (List.mem_cons_self _ _), hx⟩)

theorem Inv.step (hi : Inv s) (hs : Step s s') : Inv s' := by
  cases hs with
  | start hrun hst =>
    obtain rfl := startTask_some hst
    exact ⟨hi.reg, hi.owned_nodup, hi.owned_loaded, fun h => Bool.noConfusion h⟩
  | @call r' c hrun hc ha =>
    have hkeep {x} (hx : x ∈ s.owned) : r'.modules x ≠ none := by
      obtain ⟨i, hm⟩ := Option.ne_none_iff_exists'.1 (hi.owned_loaded x hx)
      obtain ⟨i', hm', -⟩ := Call.apply_modules hc ha hm
      rw [hm']; exact Option.some_ne_none _
    refine ⟨hi.reg.apply hc ha, ?_, fun x hx => ?_, fun h => by rw [hrun] at h; cases h⟩
    all_goals rcases Call.apply_taskModules hc ha with htm | ⟨h, hfree, hnew, htm⟩
    · simpa only [GpuState.owned, htm] using hi.owned_nodup
    · -- the module a call loads is new, so no task held it
      have hh : h ∉ s.owned := fun hm => hi.owned_loaded h hm hfree
      simp only [GpuState.owned, htm, List.insert_of_not_mem fun hm =>
        hh (List.mem_append_left _ hm), List.cons_append, List.nodup_cons]
      exact ⟨hh, hi.owned_nodup⟩
    · exact hkeep (by simpa only [GpuState.owned, htm] using hx)
    · simp only [GpuState.owned, htm, List.mem_append, List.mem_insert_iff] at hx
      rcases hx with (rfl | hx) | hx
      · exact hnew
      · exact hkeep (List.mem_append_left _ hx)
      · exact hkeep (List.mem_append_right _ hx)
  | finish pre post ms hrun hp hf =>
    have htm : s.reg.taskModules = [] := hi.idle hrun
    have hnd : (s.reg.taskModules ++ (pre ++ ms :: post).flatten).Nodup := by
      rw [← hp]; exact hi.owned_nodup
    obtain ⟨hnd', hrest⟩ := owned_finish hnd
    refine ⟨hi.reg.of_finishJob hf, ?_, fun x hx => ?_,
      fun _ => (finishJob_taskModules hf).trans htm⟩
    · simpa only [GpuState.owned, finishJob_taskModules hf] using hnd'
    · simp only [GpuState.owned, finishJob_taskModules hf] at hx
      obtain ⟨hx, hxm⟩ := (hrest x).1 hx
      rw [finishJob_modules hf, if_neg hxm]
      exact hi.owned_loaded x (by rw [GpuState.owned, hp]; exact hx)
  | stop hrun =>
    refine ⟨hi.reg.withTaskModules [], (endTask_owned s).symm ▸ hi.owned_nodup,
      fun x hx => hi.owned_loaded x ((endTask_owned s) ▸ hx), fun _ => rfl⟩

/-- One step leaves the loaded modules that no task owns as they are: a call loads only
modules the running task then owns, and a finishing job unloads only its own. -/
theorem Step.unowned_iff (hs : Step s s') (hi : Inv s) (x : Nat) :
    (s'.reg.modules x ≠ none ∧ x ∉ s'.owned) ↔ (s.reg.modules x ≠ none ∧ x ∉ s.owned) := by
  cases hs with
  | start hrun hst =>
    obtain rfl := startTask_some hst
    exact Iff.rfl
  | @call r' c hrun hc ha =>
    -- the running task keeps its modules and gains only new ones
    have hsub : ∀ y ∈ s.reg.taskModules, y ∈ r'.taskModules := fun y hy => by
      rcases Call.apply_taskModules hc ha with htm | ⟨h, -, -, htm⟩
      · exact htm ▸ hy
      · exact htm ▸ List.mem_insert_of_mem hy
    have hnew : ∀ y ∈ r'.taskModules, y ∈ s.reg.taskModules ∨ s.reg.modules y = none :=
      fun y hy => by
        rcases Call.apply_taskModules hc ha with htm | ⟨h, hfree, -, htm⟩
        · exact .inl (htm ▸ hy)
        · rcases List.mem_insert_iff.1 (htm ▸ hy) with rfl | hy
          · exact .inr hfree
          · exact .inl hy
    simp only [GpuState.owned, List.mem_append, not_or]
    constructor
    · rintro ⟨hl, hnt, hnp⟩
      by_cases hx : s.reg.modules x = none
      · exact absurd (Call.apply_new_mem ha hx hl) hnt
      · exact ⟨hx, fun hy => hnt (hsub x hy), hnp⟩
    · rintro ⟨hl, hnt, hnp⟩
      obtain ⟨i, hm⟩ := Option.ne_none_iff_exists'.1 hl
      obtain ⟨i', hm', -⟩ := Call.apply_modules hc ha hm
      refine ⟨by rw [hm']; exact Option.some_ne_none _, fun hy => ?_, hnp⟩
      exact (hnew x hy).elim hnt hl
  | @finish r' pre post ms hrun hp hf =>
    have hnd : (s.reg.taskModules ++ (pre ++ ms :: post).flatten).Nodup := by
      rw [← hp]; exact hi.owned_nodup
    have hown : ∀ y, y ∈ (⟨r', false, pre ++ post⟩ : GpuState).owned ↔ y ∈ s.owned ∧ y ∉ ms :=
      fun y => by
        simp only [GpuState.owned, finishJob_taskModules hf, hp]
        exact (owned_finish hnd).2 y
    rw [hown, show r'.modules x = _ from finishJob_modules hf x]
    by_cases hxm : x ∈ ms
    · simp only [hxm, if_true, ne_eq, not_true_eq_false, false_and, false_iff, not_and,
        not_not]
      exact fun _ => mem_owned_of_pending hp hxm
    · simp only [hxm, if_false, not_false_eq_true, and_true]
  | stop hrun =>
    rw [endTask_owned]
    exact Iff.rfl

/-- One step keeps a loaded module no task owns, with its load number. -/
theorem Step.module_kept (hs : Step s s') {x : Nat} {i : ModuleInfo}
    (hm : s.reg.modules x = some i) (hno : x ∉ s.owned) :
    ∃ i', s'.reg.modules x = some i' ∧ i'.module = i.module := by
  cases hs with
  | start hrun hst =>
    obtain rfl := startTask_some hst
    exact ⟨i, hm, rfl⟩
  | call c hrun hc ha => exact Call.apply_modules hc ha hm
  | finish pre post ms hrun hp hf =>
    refine ⟨i, ?_, rfl⟩
    rw [finishJob_modules hf, if_neg fun hxm => hno (mem_owned_of_pending hp hxm), hm]
  | stop hrun => exact ⟨i, hm, rfl⟩

/-- One step keeps every mapping into a module still loaded after it. -/
theorem Step.keeps_maps (hs : Step s s') (hi : Inv s) {a : Nat} {i : ModuleInfo}
    (ha : s'.reg.modules a = some i) :
    (∀ f cf, s.reg.deviceFunctions f = some cf → cf.1 = i.module →
      s'.reg.deviceFunctions f = some cf) ∧
    ∀ v vi, s.reg.deviceVariables v = some vi → vi.ptr.1 = i.module →
      s'.reg.deviceVariables v = some vi := by
  cases hs with
  | start hrun hst =>
    obtain rfl := startTask_some hst
    exact ⟨fun _ _ hx _ => hx, fun _ _ hx _ => hx⟩
  | call c hrun hc ha' =>
    obtain ⟨hF, hV⟩ := Call.apply_keeps ha'
    exact ⟨fun f cf hx _ => hF f cf hx, fun v vi hx _ => hV v vi hx⟩
  | finish pre post ms hrun hp hf =>
    exact ⟨fun f cf hx hmod => hi.reg.finishJob_keeps hf hx ha hmod.symm,
      fun v vi hx hmod => hi.reg.finishJob_keeps_var hf hx ha hmod.symm⟩
  | stop hrun => exact ⟨fun _ _ hx _ => hx, fun _ _ hx _ => hx⟩

end Run

/-! ## The start of every run -/

section Init

/-- A property each step of an `Option` loop keeps holds at the loop's end. -/
theorem foldlM_induction {α β : Type} {P : α → Prop} {f : α → β → Option α}
    (hf : ∀ a b a', P a → f a b = some a' → P a') :
    ∀ {l : List β} {a a' : α}, P a → l.foldlM f a = some a' → P a'
  | [], _, _, ha, h => Option.some.inj h ▸ ha
  | b :: _, a, _, ha, h => by
    obtain ⟨a₁, h₁, h⟩ := Option.bind_eq_some.1 h
    exact foldlM_induction hf (hf a b a₁ ha h₁) h

/-- `initialize_processor`'s loop over the deferred modules, whose assert held, loaded each
in turn. -/
theorem foldlM_deferred_load {fatBins : Nat → FatBin} :
    ∀ {dm : List (Nat × Nat)} {r r' : Registry}, dm.foldlM (fun r p =>
      if (fatBins p.1).data = none ∧ (fatBins p.1).filenameOrFatbins = none then none
      else some (load r p.2)) r = some r' → r' = (dm.map (·.2)).foldl load r
  | [], _, _, h => (Option.some.inj h).symm
  | _ :: _, _, _, h => by
    obtain ⟨r₁, h₁, h⟩ := Option.bind_eq_some.1 h
    dsimp only at h₁
    split_ifs at h₁
    cases h₁
    rw [List.map_cons, List.foldl_cons]
    exact foldlM_deferred_load h

@[simp] theorem foldl_load_taskModules (hs : List Nat) (r : Registry) :
    (hs.foldl load r).taskModules = r.taskModules := by
  induction hs generalizing r with
  | nil => rfl
  | cons h hs ih => rw [List.foldl_cons, ih, load_taskModules]

/-- Loading distinct fresh handles keeps the registry's invariant. -/
theorem regInv_foldl_load : ∀ {hs : List Nat} {r : Registry}, RegInv r → hs.Nodup →
    (∀ h ∈ hs, r.modules h = none) → RegInv (hs.foldl load r)
  | [], _, hi, _, _ => hi
  | h :: hs, r, hi, hnd, hf => by
    rw [List.foldl_cons]
    refine regInv_foldl_load (regInv_load hi (hf h (List.mem_cons_self _ _)))
      (List.nodup_cons.1 hnd).2 fun a ha => ?_
    have hne : a ≠ h := by rintro rfl; exact (List.nodup_cons.1 hnd).1 ha
    rw [load_modules_ne r hne]
    exact hf a (List.mem_cons_of_mem _ ha)

/-- `initialize_processor` over distinct deferred handles gives a consistent registry
that no task owns a module of. -/
theorem inv_init {fatBins : Nat → FatBin} {dm dc : List (Nat × Nat)}
    {df : List DeferredFunction} {dv : List DeferredVariable} {r : Registry}
    (hnd : (dm.map (·.2) ++ dc.map (·.2)).Nodup)
    (h : initializeProcessor fatBins dm dc df dv = some r) : Inv ⟨r, false, []⟩ := by
  simp only [initializeProcessor] at h
  obtain ⟨r₁, h₁, h⟩ := Option.bind_eq_some.1 h
  obtain ⟨r₂, h₂, h⟩ := Option.bind_eq_some.1 h
  -- both loops of loads are one loop over the handles of both maps
  have hload : dc.foldl (fun r p => load r p.2) r₁ =
      (dm.map (·.2) ++ dc.map (·.2)).foldl load Registry.empty := by
    rw [foldlM_deferred_load h₁, List.foldl_append, List.foldl_map, List.foldl_map]
  have h₀ : RegInv (dc.foldl (fun r p => load r p.2) r₁) ∧
      (dc.foldl (fun r p => load r p.2) r₁).taskModules = [] := by
    rw [hload, foldl_load_taskModules]
    exact ⟨regInv_foldl_load regInv_empty hnd fun _ _ => rfl, rfl⟩
  -- the registrations keep the invariant and leave `task_modules` empty
  have hr₂ := foldlM_induction (P := fun r => RegInv r ∧ r.taskModules = [])
    (fun _ _ _ hP ha => ⟨hP.1.registerFunction ha, by
      rcases registerFunction_cases ha with rfl | ⟨_, _, _, rfl⟩ <;> exact hP.2⟩) h₀ h₂
  have hr := foldlM_induction (P := fun r => RegInv r ∧ r.taskModules = [])
    (fun _ _ _ hP ha => ⟨hP.1.registerVar ha, by
      rcases registerVar_cases ha with rfl | ⟨_, _, _, rfl⟩ <;> exact hP.2⟩) hr₂ h
  refine ⟨hr.1, ?_, fun x hx => ?_, fun _ => hr.2⟩
  · simp only [GpuState.owned, hr.2, List.flatten_nil, List.append_nil, List.nodup_nil]
  · simp only [GpuState.owned, hr.2, List.flatten_nil, List.append_nil, List.not_mem_nil] at hx

/-- When every deferred module has an image or a file, the assert of the loop over them
holds throughout. -/
theorem foldlM_deferred_load_some {fatBins : Nat → FatBin} {dm : List (Nat × Nat)}
    (hfb : ∀ p ∈ dm, (fatBins p.1).data ≠ none ∨ (fatBins p.1).filenameOrFatbins ≠ none)
    (r : Registry) : dm.foldlM (fun r p =>
      if (fatBins p.1).data = none ∧ (fatBins p.1).filenameOrFatbins = none then none
      else some (load r p.2)) r = some ((dm.map (·.2)).foldl load r) := by
  induction dm generalizing r with
  | nil => rfl
  | cons p dm ih =>
    have hp : ¬((fatBins p.1).data = none ∧ (fatBins p.1).filenameOrFatbins = none) :=
      fun ⟨h₁, h₂⟩ => (hfb p (List.mem_cons_self _ _)).elim (· h₁) (· h₂)
    simp only [List.foldlM_cons, if_neg hp]
    exact ih (fun q hq => hfb q (List.mem_cons_of_mem _ hq)) (load r p.2)

/-- After a loop of loads, the handles loaded and those loaded before are loaded. -/
theorem foldl_load_loaded : ∀ (hs : List Nat) (r : Registry) {x : Nat},
    x ∈ hs ∨ r.modules x ≠ none → (hs.foldl load r).modules x ≠ none
  | [], _, _, hx => hx.resolve_left (List.not_mem_nil _)
  | h :: hs, r, x, hx => foldl_load_loaded hs (load r h) <| by
    by_cases he : x = h
    · subst he
      exact .inr (by simp [load])
    · rcases hx with hx | hx
      · exact .inl ((List.mem_cons.1 hx).resolve_left he)
      · exact .inr (by rwa [load_modules_ne r he])

/-- A registration loop whose every step, from a registry where the item's module is
loaded, succeeds and registers the item, succeeds and registers every item. -/
theorem foldlM_grows {β : Type} {f : Registry → β → Option Registry}
    (ok done : β → Registry → Prop)
    (hstep : ∀ r b, ok b r → ∃ r', f r b = some r' ∧ Grows r r' ∧ done b r')
    (hok : ∀ b r r', ok b r → Grows r r' → ok b r')
    (hdone : ∀ b r r', done b r → Grows r r' → done b r') :
    ∀ (l : List β) (r : Registry), (∀ b ∈ l, ok b r) →
      ∃ r', l.foldlM f r = some r' ∧ Grows r r' ∧ ∀ b ∈ l, done b r'
  | [], r, _ => ⟨r, rfl, .refl r, fun _ hb => absurd hb (List.not_mem_nil _)⟩
  | b :: l, r, hl => by
    obtain ⟨r₁, h₁, hg₁, hd₁⟩ := hstep r b (hl b (List.mem_cons_self _ _))
    obtain ⟨r', h', hg', hd'⟩ := foldlM_grows ok done hstep hok hdone l r₁
      fun c hc => hok c r r₁ (hl c (List.mem_cons_of_mem _ hc)) hg₁
    refine ⟨r', by rw [List.foldlM_cons, h₁]; exact h', hg₁.trans hg', fun c hc => ?_⟩
    rcases List.mem_cons.1 hc with rfl | hc
    · exact hdone _ _ _ hd₁ hg'
    · exact hd' c hc

/-- `initialize_processor`'s assertions hold when each deferred module has an image or a
file and each deferred function and variable names a deferred module; it then maps every
deferred function and variable. -/
theorem initializeProcessor_maps_deferred {fatBins : Nat → FatBin} {dm dc : List (Nat × Nat)}
    {df : List DeferredFunction} {dv : List DeferredVariable}
    (hfb : ∀ p ∈ dm, (fatBins p.1).data ≠ none ∨ (fatBins p.1).filenameOrFatbins ≠ none)
    (hdf : ∀ d ∈ df, d.handle ∈ dm.map (·.2) ++ dc.map (·.2))
    (hdv : ∀ d ∈ dv, d.handle ∈ dm.map (·.2) ++ dc.map (·.2)) :
    ∃ r, initializeProcessor fatBins dm dc df dv = some r ∧
      (∀ d ∈ df, r.deviceFunctions d.hostFun ≠ none) ∧
      ∀ d ∈ dv, r.deviceVariables d.hostVar ≠ none := by
  -- after the loads, every deferred handle is loaded
  have hloaded : ∀ x ∈ dm.map (·.2) ++ dc.map (·.2),
      (dc.foldl (fun r p => load r p.2) ((dm.map (·.2)).foldl load Registry.empty)).modules x
        ≠ none := fun x hx => by
    rw [← List.foldl_map, ← List.foldl_append]
    exact foldl_load_loaded _ _ (.inl hx)
  obtain ⟨r₃, h₃, hg₃, hd₃⟩ := foldlM_grows
    (f := fun r d => internalRegisterFunction r d.handle d.hostFun d.deviceFun)
    (fun d r => r.modules d.handle ≠ none) (fun d r => r.deviceFunctions d.hostFun ≠ none)
    (fun _ _ hl => registerFunction_grows hl) (fun b _ _ h g => g.modules b.handle h)
    (fun b _ _ h g => g.funs b.hostFun h) df _ fun d hd => hloaded _ (hdf d hd)
  obtain ⟨r₄, h₄, hg₄, hd₄⟩ := foldlM_grows
    (f := fun r d => internalRegisterVar r d.handle d.hostVar d.deviceName)
    (fun d r => r.modules d.handle ≠ none) (fun d r => r.deviceVariables d.hostVar ≠ none)
    (fun _ _ hl => registerVar_grows hl) (fun b _ _ h g => g.modules b.handle h)
    (fun b _ _ h g => g.vars b.hostVar h) dv r₃ fun d hd => hg₃.modules _ (hloaded _ (hdv d hd))
  refine ⟨r₄, ?_, fun d hd => hg₄.funs _ (hd₃ d hd), hd₄⟩
  simp only [initializeProcessor, foldlM_deferred_load_some hfb, Option.bind_eq_bind,
    Option.some_bind, h₃, h₄]

theorem initializeProcessor_maps_deferred_two : ∃ r, initializeProcessor
    (fun _ => ⟨some 1, none⟩) [(0, 5)] [(1, 6)] [⟨5, 10, 20⟩, ⟨6, 12, 22⟩] [⟨6, 11, 21⟩] = some r ∧
    (∀ d ∈ [(⟨5, 10, 20⟩ : DeferredFunction), ⟨6, 12, 22⟩], r.deviceFunctions d.hostFun ≠ none) ∧
    ∀ d ∈ [(⟨6, 11, 21⟩ : DeferredVariable)], r.deviceVariables d.hostVar ≠ none :=
  initializeProcessor_maps_deferred (by decide) (by decide) (by decide)

theorem Reachable.inv {s : GpuState} (hs : Reachable s) : Inv s := by
  induction hs with
  | init hnd h => exact inv_init hnd h
  | step _ hst ih => exact ih.step hst

end Init

/-! ## Whole runs -/

section Runs

variable {s₀ s : GpuState}

theorem Reachable.run (h₀ : Reachable s₀) (hrun : Relation.ReflTransGen Step s₀ s) :
    Reachable s := by
  induction hrun with
  | refl => exact h₀
  | tail _ hst ih => exact .step ih hst

/-- Along a run the loaded modules that no task owns stay the same. -/
theorem unowned_run (h₀ : Reachable s₀) (hrun : Relation.ReflTransGen Step s₀ s) (x : Nat) :
    (s.reg.modules x ≠ none ∧ x ∉ s.owned) ↔ (s₀.reg.modules x ≠ none ∧ x ∉ s₀.owned) := by
  induction hrun with
  | refl => exact Iff.rfl
  | tail hr hst ih => exact (hst.unowned_iff (h₀.run hr).inv x).trans ih

/-- Along a run a loaded module no task owns keeps its load number and the functions and
variables mapped to it. -/
theorem unowned_kept (h₀ : Reachable s₀) (hrun : Relation.ReflTransGen Step s₀ s) {x : Nat}
    {i : ModuleInfo} (hm : s₀.reg.modules x = some i) (hno : x ∉ s₀.owned) :
    (∃ i', s.reg.modules x = some i' ∧ i'.module = i.module) ∧
    (∀ f cf, s₀.reg.deviceFunctions f = some cf → cf.1 = i.module →
      s.reg.deviceFunctions f = some cf) ∧
    ∀ v vi, s₀.reg.deviceVariables v = some vi → vi.ptr.1 = i.module →
      s.reg.deviceVariables v = some vi := by
  induction hrun with
  | refl => exact ⟨⟨i, hm, rfl⟩, fun _ _ hx _ => hx, fun _ _ hx _ => hx⟩
  | @tail b b' hr hst ih =>
    obtain ⟨⟨i', hm', hmod⟩, hF, hV⟩ := ih
    have hno' : x ∉ b.owned :=
      ((unowned_run h₀ hr x).2 ⟨by rw [hm]; exact Option.some_ne_none _, hno⟩).2
    obtain ⟨i'', hm'', hmod'⟩ := hst.module_kept hm' hno'
    obtain ⟨hF', hV'⟩ := hst.keeps_maps (h₀.run hr).inv hm''
    have hn : i''.module = i.module := hmod'.trans hmod
    exact ⟨⟨i'', hm'', hn⟩, fun f cf hx hc => hF' f cf (hF f cf hx hc) (hc.trans hn.symm),
      fun v vi hx hc => hV' v vi (hV v vi hx hc) (hc.trans hn.symm)⟩

/-- No assertion of the module registry fires in a reachable state: `execute_gpu` finds
`task_modules` empty when a task starts, and every `finish_job` finds each module it
unregisters. -/
theorem gpu_module_asserts_hold (hs : Reachable s) :
    (s.running = false → startTask s ≠ none) ∧ ∀ ms ∈ s.pending, finishJob s.reg ms ≠ none := by
  have hi := hs.inv
  refine ⟨fun hr => by simp [startTask, hi.idle hr], fun ms hms => ?_⟩
  have hsub : List.Sublist ms s.owned :=
    (List.sublist_flatten_of_mem hms).trans (List.sublist_append_right _ _)
  obtain ⟨r', hr'⟩ := finishJob_isSome (hi.owned_nodup.sublist hsub) fun x hx =>
    hi.owned_loaded x (hsub.subset hx)
  rw [hr']
  exact Option.some_ne_none _

/-- After a task that loaded a module of its own and registered a kernel from it. -/
theorem gpu_module_asserts_hold_after_task : ∃ s : GpuState, Reachable s ∧ s.pending = [[7]] ∧
    (s.running = false → startTask s ≠ none) ∧ ∀ ms ∈ s.pending, finishJob s.reg ms ≠ none := by
  have hs := Reachable.step (Reachable.step (Reachable.step (Reachable.step
    (@Reachable.init (fun _ => ⟨some 1, none⟩) [(0, 5)] [] [⟨5, 10, 20⟩] [] _ (by decide) rfl)
    (Step.start rfl rfl)) (Step.call (.registerCudaBinary 7) rfl rfl rfl))
    (Step.call (.registerFunction 7 12 22) rfl trivial rfl)) (Step.stop rfl)
  exact ⟨_, hs, rfl, gpu_module_asserts_hold hs⟩

/-- In a reachable state a launch or a symbol copy reaches a function or a global of a
loaded module that lists the host pointer it was looked up by, never one of a module
unloaded since. -/
theorem launch_targets_loaded (hs : Reachable s) (p : Nat) :
    (∀ cf, launchFunction s.reg p = .cuFunction cf →
      ∃ h i, s.reg.modules h = some i ∧ i.module = cf.1 ∧ p ∈ i.hostAliases) ∧
    ∀ q offset a b, (memcpyToSymbol s.reg p q offset = some (a, b) ∨
        memcpyFromSymbol s.reg p q offset = some (b, a)) →
      ∃ ptr h i, a = .global ptr offset ∧ s.reg.modules h = some i ∧ i.module = ptr.1 ∧
        p ∈ i.varAliases := by
  have hi := hs.inv.reg
  refine ⟨fun cf hl => hi.funs p cf (launchFunction_eq_cuFunction.1 hl), fun q offset a b hc => ?_⟩
  obtain ⟨vi, hv, he⟩ : ∃ vi, s.reg.deviceVariables p = some vi ∧ a = .global vi.ptr offset := by
    rcases hc with hc | hc <;> obtain ⟨vi, hv, he⟩ := Option.map_eq_some'.1 hc <;> cases he <;>
      exact ⟨vi, hv, rfl⟩
  obtain ⟨h, i, hm, hmod, hmem⟩ := hi.vars p vi hv
  exact ⟨vi.ptr, h, i, he, hm, hmod, hmem⟩

theorem launch_targets_loaded_startup : ∃ s : GpuState, Reachable s ∧
    launchFunction s.reg 10 = .cuFunction (0, 20) ∧
    memcpyToSymbol s.reg 11 3 4 = some (.global (0, 21) 4, .pointer 3) ∧
    ∀ q offset a b, (memcpyToSymbol s.reg 11 q offset = some (a, b) ∨
        memcpyFromSymbol s.reg 11 q offset = some (b, a)) →
      ∃ ptr h i, a = .global ptr offset ∧ s.reg.modules h = some i ∧ i.module = ptr.1 ∧
        11 ∈ i.varAliases := by
  have hs := @Reachable.init (fun _ => ⟨some 1, none⟩) [(0, 5)] [] [⟨5, 10, 20⟩] [⟨5, 11, 21⟩]
    _ (by decide) rfl
  exact ⟨_, hs, rfl, rfl, (launch_targets_loaded hs 11).2⟩

/-- `cudaMemcpyFromSymbol` does not read its symbol: it looks up the destination, so it
copies from the destination's global when the destination is a mapped host variable, and
fails its assertion otherwise, whichever symbol it is given. -/
theorem memcpyFromSymbol_ignores_symbol (r : Registry) (dst src src' offset : Nat) :
    memcpyFromSymbol r dst src offset = memcpyFromSymbol r dst src' offset :=
  rfl

/-- In a reachable state, unloading a module erases exactly the functions and variables
mapped into it. -/
theorem unload_erases_exactly (hs : Reachable s) {h : Nat} {i : ModuleInfo}
    (hm : s.reg.modules h = some i) :
    ∃ r', internalUnregisterFatBinary s.reg h = some r' ∧
      (∀ f, r'.deviceFunctions f = (s.reg.deviceFunctions f).filter fun cf => cf.1 != i.module) ∧
      ∀ v, r'.deviceVariables v = (s.reg.deviceVariables v).filter fun vi => vi.ptr.1 != i.module := by
  have hi := hs.inv.reg
  obtain ⟨r', hr'⟩ : ∃ r', internalUnregisterFatBinary s.reg h = some r' := by
    unfold internalUnregisterFatBinary; rw [hm]; exact ⟨_, rfl⟩
  obtain ⟨info, hm', -, hD, hV, -⟩ := unregister_cases hr'
  obtain rfl : info = i := Option.some.inj (hm'.symm.trans hm)
  refine ⟨r', hr', fun f => ?_, fun v => ?_⟩
  · rw [hD]
    exact erase_aliases_eq_filter (fun x hx => hi.host_aliases h info x hm hx)
      (fun x _ hx hc => hi.mem_hostAliases hm hx hc) f
  · rw [hV]
    exact erase_aliases_eq_filter (fun x hx => hi.var_aliases h info x hm hx)
      (fun x _ hx hc => hi.mem_varAliases hm hx hc) v

/-- Unloading the module a task loaded and registered a kernel from. -/
theorem unload_erases_exactly_task_module : ∃ s : GpuState, Reachable s ∧
    s.reg.modules 7 = some ⟨1, [12], []⟩ ∧ ∃ r', internalUnregisterFatBinary s.reg 7 = some r' ∧
      (∀ f, r'.deviceFunctions f = (s.reg.deviceFunctions f).filter fun cf => cf.1 != 1) ∧
      ∀ v, r'.deviceVariables v = (s.reg.deviceVariables v).filter fun vi => vi.ptr.1 != 1 := by
  have hs := Reachable.step (Reachable.step (Reachable.step (Reachable.step
    (@Reachable.init (fun _ => ⟨some 1, none⟩) [(0, 5)] [] [⟨5, 10, 20⟩] [] _ (by decide) rfl)
    (Step.start rfl rfl)) (Step.call (.registerCudaBinary 7) rfl rfl rfl))
    (Step.call (.registerFunction 7 12 22) rfl trivial rfl)) (Step.stop rfl)
  exact ⟨_, hs, rfl, unload_erases_exactly hs (i := ⟨1, [12], []⟩) rfl⟩

/-- No module leaks and none is lost: along every run, the loaded modules are those loaded
at its start that no task held, and those the tasks hold now. -/
theorem loaded_modules_accounted (h₀ : Reachable s₀) (hrun : Relation.ReflTransGen Step s₀ s)
    (x : Nat) :
    s.reg.modules x ≠ none ↔ (s₀.reg.modules x ≠ none ∧ x ∉ s₀.owned) ∨ x ∈ s.owned := by
  rw [← unowned_run h₀ hrun x]
  by_cases hx : x ∈ s.owned
  · exact iff_of_true ((h₀.run hrun).inv.owned_loaded x hx) (.inr hx)
  · simp only [hx, not_false_eq_true, and_true, or_false]

/-- A run from the start through a task that loaded module `7`. -/
theorem loaded_modules_accounted_task : ∃ s₀ s : GpuState, Reachable s₀ ∧
    Relation.ReflTransGen Step s₀ s ∧ s.owned = [7] ∧
    (s.reg.modules 7 ≠ none ↔ (s₀.reg.modules 7 ≠ none ∧ 7 ∉ s₀.owned) ∨ 7 ∈ s.owned) := by
  have h₀ : Reachable ⟨(initializeProcessor (fun _ => ⟨some 1, none⟩) [(0, 5)] []
      [⟨5, 10, 20⟩] []).getD Registry.empty, false, []⟩ :=
    @Reachable.init (fun _ => ⟨some 1, none⟩) [(0, 5)] [] [⟨5, 10, 20⟩] [] _ (by decide) rfl
  have hr₀ : Relation.ReflTransGen Step ⟨(initializeProcessor (fun _ => ⟨some 1, none⟩) [(0, 5)]
      [] [⟨5, 10, 20⟩] []).getD Registry.empty, false, []⟩ _ := .refl
  have hrun := (((hr₀.tail (Step.start rfl rfl)).tail
    (Step.call (.registerCudaBinary 7) rfl rfl rfl)).tail
    (Step.call (.registerFunction 7 12 22) rfl trivial rfl)).tail (Step.stop rfl)
  exact ⟨_, _, h₀, hrun, rfl, loaded_modules_accounted h₀ hrun 7⟩

/-- What `initialize_processor` registered stays in force for the whole run: its modules
stay loaded, and a launch of a host function or a copy to a host variable it mapped reaches
the same function or global in every later state. -/
theorem startup_registrations_persist {fatBins : Nat → FatBin} {dm dc : List (Nat × Nat)}
    {df : List DeferredFunction} {dv : List DeferredVariable} {r : Registry}
    (hnd : (dm.map (·.2) ++ dc.map (·.2)).Nodup)
    (hinit : initializeProcessor fatBins dm dc df dv = some r)
    (hrun : Relation.ReflTransGen Step ⟨r, false, []⟩ s) :
    (∀ h, r.modules h ≠ none → s.reg.modules h ≠ none) ∧
    (∀ f cf, r.deviceFunctions f = some cf → launchFunction s.reg f = .cuFunction cf) ∧
    ∀ v vi src offset, r.deviceVariables v = some vi →
      memcpyToSymbol s.reg v src offset = some (.global vi.ptr offset, .pointer src) := by
  have h₀ : Reachable ⟨r, false, []⟩ := .init hnd hinit
  have hi := h₀.inv
  -- no task owns a module at the start
  have hno : ∀ h, h ∉ (⟨r, false, []⟩ : GpuState).owned := fun h => by
    have ht : r.taskModules = [] := hi.idle rfl
    simp [GpuState.owned, ht]
  refine ⟨fun h hl => ((unowned_run h₀ hrun h).2 ⟨hl, hno h⟩).1, fun f cf hf => ?_,
    fun v vi src offset hv => ?_⟩
  · obtain ⟨h, i, hm, hmod, -⟩ := hi.reg.funs f cf hf
    exact launchFunction_eq_cuFunction.2 ((unowned_kept h₀ hrun hm (hno h)).2.1 f cf hf hmod.symm)
  · obtain ⟨h, i, hm, hmod, -⟩ := hi.reg.vars v vi hv
    simp only [memcpyToSymbol, (unowned_kept h₀ hrun hm (hno h)).2.2 v vi hv hmod.symm,
      Option.map_some']

/-- A run through a task that loaded a module and whose job then finished. -/
theorem startup_registrations_persist_after_task : ∃ r s, initializeProcessor
    (fun _ => ⟨some 1, none⟩) [(0, 5)] [] [⟨5, 10, 20⟩] [⟨5, 11, 21⟩] = some r ∧
    Relation.ReflTransGen Step ⟨r, false, []⟩ s ∧ s.pending = [] ∧
    (∀ h, r.modules h ≠ none → s.reg.modules h ≠ none) ∧
    (∀ f cf, r.deviceFunctions f = some cf → launchFunction s.reg f = .cuFunction cf) ∧
    ∀ v vi src offset, r.deviceVariables v = some vi →
      memcpyToSymbol s.reg v src offset = some (.global vi.ptr offset, .pointer src) := by
  have h₀ : Relation.ReflTransGen Step
      ⟨(initializeProcessor (fun _ => ⟨some 1, none⟩) [(0, 5)] [] [⟨5, 10, 20⟩]
        [⟨5, 11, 21⟩]).getD Registry.empty, false, []⟩ _ := .refl
  have hrun := ((((h₀.tail (Step.start rfl rfl)).tail
    (Step.call (.registerCudaBinary 7) rfl rfl rfl)).tail
    (Step.call (.registerFunction 7 12 22) rfl trivial rfl)).tail (Step.stop rfl)).tail
    (Step.finish [] [] [7] rfl rfl rfl)
  exact ⟨_, _, rfl, hrun, rfl, @startup_registrations_persist _ (fun _ => ⟨some 1, none⟩)
    [(0, 5)] [] [⟨5, 10, 20⟩] [⟨5, 11, 21⟩] _ (by decide) rfl hrun⟩

end Runs

end Realm.Gpu.Modules
