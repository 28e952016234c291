import Mathlib

/-!
# Staging kernel arguments

A task's CUDA code launches a kernel through three calls the `GPUProcessor` answers
(`lowlevel_gpu.cc`): `configure_call` pushes a `LaunchConfig`; each `setup_argument(arg,
size, offset)` copies `size` bytes of an argument to `offset` in the pinned buffer
`kernel_arg_buffer`, first growing the buffer to twice the bytes needed when they do not
fit (the new buffer receives the first `kernel_arg_size` bytes of the old); `launch` gives
`cuLaunchKernel` the buffer and `kernel_arg_size`, pops the configuration and resets
`kernel_arg_size` to `0`. Sizes are `size_t` (`BitVec 64`).

A buffer is modelled by its bytes, `none` for a byte nothing was written to since the
allocation; a `memcpy` that would leave an allocation is a `Fault`.

* `internalSetupArgument_spec`: a `setup_argument` whose argument ends below `2^63`, from a
  buffer that holds `kernel_arg_size`, goes through, writes the argument and keeps the
  bytes below the old `kernel_arg_size`, through a reallocation or not.
* `kernel_args_staged`: over any sequence of calls whose arguments end at most at
  `bound < 2^63` (`Staged`), `kernel_arg_size` stays within the buffer and every further
  such `setup_argument` stays inside its allocations; `kernel_arg_size` is the largest end
  of the arguments set up since the last launch; and a launch hands `cuLaunchKernel` a
  buffer in which each byte they wrote holds the value of the last one that wrote it, across
  any number of reallocations (`StagingInv`, `Staged.inv`).
* `doubling_wraps`: at `offset + size = 2^63` the doubling wraps to `0` and the argument's
  `memcpy` leaves the new allocation.
-/

namespace Realm.Gpu.KernelArgs

/-- A `LaunchConfig`: grid and block dimensions and shared memory. -/
structure LaunchConfig where
  grid : Nat × Nat × Nat
  block : Nat × Nat × Nat
  shared : Nat
  deriving DecidableEq, Repr

/-- The fields of a `GPUProcessor` the staging uses: the bytes of `kernel_arg_buffer`,
`kernel_buffer_size`, `kernel_arg_size`, and `launch_configs` with its back first. -/
structure ArgStaging where
  kernelArgBuffer : Nat → Option UInt8
  kernelBufferSize : BitVec 64
  kernelArgSize : BitVec 64
  launchConfigs : List LaunchConfig

/-- What the processor's constructor sets up: an allocation of `8192` bytes, no argument. -/
def init : ArgStaging :=
  ⟨fun _ => none, 8192, 0, []⟩

/-- Where a call stops. -/
inductive Fault where
  /-- A `memcpy` that reads or writes past the end of an allocation. -/
  | memcpyOutOfBounds
  /-- `assert(!launch_configs.empty())` in `internal_launch`. -/
  | noLaunchConfig
  deriving DecidableEq, Repr

/-- `memcpy(dst + off, src, n)` into an allocation of `dstSize` bytes from one of `srcSize`
bytes. -/
def memcpy (dst : Nat → Option UInt8) (dstSize off : Nat) (src : Nat → Option UInt8)
    (srcSize n : Nat) : Except Fault (Nat → Option UInt8) :=
  if off + n ≤ dstSize ∧ n ≤ srcSize then
    .ok fun i => if off ≤ i ∧ i < off + n then src (i - off) else dst i
  else .error .memcpyOutOfBounds

/-- The arguments of a `setup_argument` call: `arg` points to the argument's `size` bytes. -/
structure SetupArg where
  arg : Nat → UInt8
  size : BitVec 64
  offset : BitVec 64

/-- `GPUProcessor::internal_setup_argument(arg, size, offset)`. -/
def internalSetupArgument (s : ArgStaging) (a : SetupArg) : Except Fault ArgStaging := do
  let required := a.offset + a.size
  let s ← if required > s.kernelBufferSize then do
      let needed := required * 2
      -- `cuMemAllocHost` of `needed` bytes, then the copy of the old data
      let newBuffer ← memcpy (fun _ => none) needed.toNat 0 s.kernelArgBuffer
        s.kernelBufferSize.toNat s.kernelArgSize.toNat
      pure { s with kernelArgBuffer := newBuffer, kernelBufferSize := needed }
    else pure s
  let buffer ← memcpy s.kernelArgBuffer s.kernelBufferSize.toNat a.offset.toNat
    (fun i => some (a.arg i)) a.size.toNat a.size.toNat
  pure { s with kernelArgBuffer := buffer,
                kernelArgSize := if required > s.kernelArgSize then required else s.kernelArgSize }

/-- `GPUProcessor::internal_configure_call(grid_dim, block_dim, shared_mem)`. -/
def internalConfigureCall (s : ArgStaging) (config : LaunchConfig) : ArgStaging :=
  { s with launchConfigs := config :: s.launchConfigs }

/-- What `cuLaunchKernel` is given: the function, the configuration, and the argument
buffer with its size (`CU_LAUNCH_PARAM_BUFFER_POINTER`, `CU_LAUNCH_PARAM_BUFFER_SIZE`). -/
structure Launch where
  func : Nat
  config : LaunchConfig
  args : Nat → Option UInt8
  argSize : BitVec 64

/-- `GPUProcessor::internal_launch(func)`; `deviceFunctions` is `device_functions`. -/
def internalLaunch (deviceFunctions : List (Nat × Nat)) (s : ArgStaging) (func : Nat) :
    Except Fault (ArgStaging × Launch) :=
  match s.launchConfigs with
  | [] => .error .noLaunchConfig
  | config :: rest =>
    .ok ({ s with launchConfigs := rest, kernelArgSize := 0 },
      ⟨(deviceFunctions.lookup func).getD func, config, s.kernelArgBuffer, s.kernelArgSize⟩)

/-! ## What the arguments set up since the last launch define -/

/-- Position `i` is among the bytes `a` writes. -/
def SetupArg.Covers (a : SetupArg) (i : Nat) : Prop :=
  a.offset.toNat ≤ i ∧ i < a.offset.toNat + a.size.toNat

instance (a : SetupArg) (i : Nat) : Decidable (a.Covers i) :=
  inferInstanceAs (Decidable (_ ∧ _))

/-- The byte at position `i` of the last of the calls `as` that wrote it. -/
def lastWrite (as : List SetupArg) (i : Nat) : Option UInt8 :=
  (as.reverse.find? fun a => decide (a.Covers i)).map fun a => a.arg (i - a.offset.toNat)

/-- The largest end `offset + size` of the calls `as`, `0` for none. -/
def argEnd (as : List SetupArg) : Nat :=
  (as.map fun a => a.offset.toNat + a.size.toNat).foldl max 0

@[simp] theorem lastWrite_nil (i : Nat) : lastWrite [] i = none := rfl

theorem lastWrite_snoc (as : List SetupArg) (a : SetupArg) (i : Nat) :
    lastWrite (as ++ [a]) i = if a.Covers i then some (a.arg (i - a.offset.toNat)) else lastWrite as i := by
  by_cases h : a.Covers i <;> simp [lastWrite, List.find?_cons, h]

@[simp] theorem argEnd_nil : argEnd [] = 0 := rfl

theorem argEnd_snoc (as : List SetupArg) (a : SetupArg) :
    argEnd (as ++ [a]) = max (argEnd as) (a.offset.toNat + a.size.toNat) := by
  rw [argEnd, argEnd, List.map_append, List.foldl_append]
  rfl

/-- A byte written since the last launch lies below the largest end. -/
theorem lt_argEnd_of_lastWrite {as : List SetupArg} {i : Nat} {v : UInt8}
    (h : lastWrite as i = some v) : i < argEnd as := by
  induction as using List.reverseRecOn with
  | nil => cases h
  | append_singleton as a ih =>
    rw [lastWrite_snoc] at h
    rw [argEnd_snoc]
    split_ifs at h with hc
    · have := hc.2
      omega
    · have := ih h
      omega

/-! ## The steps -/

theorem memcpy_ok {dst src : Nat → Option UInt8} {dstSize off srcSize n : Nat}
    (hd : off + n ≤ dstSize) (hs : n ≤ srcSize) :
    memcpy dst dstSize off src srcSize n =
      .ok fun i => if off ≤ i ∧ i < off + n then src (i - off) else dst i := by
  rw [memcpy, if_pos ⟨hd, hs⟩]

/-- **A `setup_argument` call.** When `kernel_arg_size` is within the buffer and the
argument ends below `2^63`, the call goes through; `kernel_arg_size` becomes the larger of
itself and the argument's end and stays within the buffer; the argument's bytes are
written and the other bytes below the old `kernel_arg_size` kept. -/
theorem internalSetupArgument_spec {s : ArgStaging} {a : SetupArg}
    (hs : s.kernelArgSize.toNat ≤ s.kernelBufferSize.toNat)
    (ha : a.offset.toNat + a.size.toNat < 2 ^ 63) :
    ∃ s', internalSetupArgument s a = .ok s' ∧
      s'.kernelArgSize.toNat = max s.kernelArgSize.toNat (a.offset.toNat + a.size.toNat) ∧
      s'.kernelArgSize.toNat ≤ s'.kernelBufferSize.toNat ∧ s'.launchConfigs = s.launchConfigs ∧
      (∀ i, a.Covers i → s'.kernelArgBuffer i = some (a.arg (i - a.offset.toNat))) ∧
      ∀ i, ¬a.Covers i → i < s.kernelArgSize.toNat → s'.kernelArgBuffer i = s.kernelArgBuffer i := by
  have hreq : (a.offset + a.size).toNat = a.offset.toNat + a.size.toNat := by bv_omega
  -- twice the bytes needed does not wrap
  have hneed : ((a.offset + a.size) * 2).toNat = 2 * (a.offset.toNat + a.size.toNat) := by
    bv_omega
  have hmax : (if a.offset + a.size > s.kernelArgSize then a.offset + a.size else s.kernelArgSize).toNat =
      max s.kernelArgSize.toNat (a.offset.toNat + a.size.toNat) := by
    split_ifs with h <;> simp only [GT.gt, BitVec.lt_def, hreq] at h ⊢ <;> omega
  unfold internalSetupArgument
  by_cases hgrow : a.offset + a.size > s.kernelBufferSize
  · -- the buffer is reallocated at twice the bytes needed
    have hlt : s.kernelBufferSize.toNat < a.offset.toNat + a.size.toNat := by
      rw [← hreq]; exact hgrow
    have hcopy : 0 + s.kernelArgSize.toNat ≤ ((a.offset + a.size) * 2).toNat := by omega
    have harg : a.offset.toNat + a.size.toNat ≤ ((a.offset + a.size) * 2).toNat := by omega
    simp only [if_pos hgrow, bind, Except.bind, pure, Except.pure, memcpy_ok hcopy hs,
      memcpy_ok harg le_rfl]
    refine ⟨_, rfl, hmax, ?_, rfl, fun i hi => if_pos hi, fun i hi hlt' => ?_⟩
    · dsimp only
      rw [hmax, hneed]; omega
    · simp only [Nat.zero_le, true_and, Nat.zero_add, hlt', if_true, Nat.sub_zero]
      exact if_neg hi
  · have hfit : a.offset.toNat + a.size.toNat ≤ s.kernelBufferSize.toNat := by
      simp only [GT.gt, BitVec.lt_def, hreq] at hgrow; omega
    simp only [if_neg hgrow, bind, Except.bind, pure, Except.pure, memcpy_ok hfit le_rfl]
    refine ⟨_, rfl, hmax, ?_, rfl, fun i hi => if_pos hi, fun i hi _ => if_neg hi⟩
    dsimp only
    rw [hmax]; omega

/-- **A launch** hands `cuLaunchKernel` the buffer and `kernel_arg_size`, keeps the buffer
and resets `kernel_arg_size`. -/
theorem internalLaunch_spec {deviceFunctions : List (Nat × Nat)} {s s' : ArgStaging} {func : Nat}
    {L : Launch} (h : internalLaunch deviceFunctions s func = .ok (s', L)) :
    L.args = s.kernelArgBuffer ∧ L.argSize = s.kernelArgSize ∧ s'.kernelArgBuffer = s.kernelArgBuffer ∧
      s'.kernelBufferSize = s.kernelBufferSize ∧ s'.kernelArgSize = 0 := by
  unfold internalLaunch at h
  split at h
  · cases h
  · cases h
    exact ⟨rfl, rfl, rfl, rfl, rfl⟩

/-! ## Every sequence of calls -/

/-- The staging after a sequence of calls whose arguments each end at most at `bound`, with
the arguments set up since the last launch. -/
inductive Staged (bound : Nat) : ArgStaging → List SetupArg → Prop
  | init : Staged bound init []
  | configure {s : ArgStaging} {as : List SetupArg} (config : LaunchConfig) :
      Staged bound s as → Staged bound (internalConfigureCall s config) as
  | setup {s s' : ArgStaging} {as : List SetupArg} {a : SetupArg} : Staged bound s as →
      a.offset.toNat + a.size.toNat ≤ bound → internalSetupArgument s a = .ok s' →
      Staged bound s' (as ++ [a])
  | launch {s s' : ArgStaging} {as : List SetupArg} {deviceFunctions : List (Nat × Nat)}
      {func : Nat} {L : Launch} : Staged bound s as →
      internalLaunch deviceFunctions s func = .ok (s', L) → Staged bound s' []

/-- What the staging keeps, given the arguments set up since the last launch. -/
structure StagingInv (s : ArgStaging) (as : List SetupArg) : Prop where
  within : s.kernelArgSize.toNat ≤ s.kernelBufferSize.toNat
  arg_size : s.kernelArgSize.toNat = argEnd as
  bytes : ∀ i v, lastWrite as i = some v → s.kernelArgBuffer i = some v

theorem stagingInv_init : StagingInv init [] :=
  ⟨by decide, rfl, fun _ _ h => by cases h⟩

theorem StagingInv.configure {s : ArgStaging} {as : List SetupArg} (hi : StagingInv s as)
    (config : LaunchConfig) : StagingInv (internalConfigureCall s config) as :=
  ⟨hi.within, hi.arg_size, hi.bytes⟩

/-- A `setup_argument` whose argument ends below `2^63` goes through and keeps the
invariant, through a reallocation or not. -/
theorem StagingInv.setup {s : ArgStaging} {as : List SetupArg} (hi : StagingInv s as)
    {a : SetupArg} (ha : a.offset.toNat + a.size.toNat < 2 ^ 63) :
    ∃ s', internalSetupArgument s a = .ok s' ∧ StagingInv s' (as ++ [a]) := by
  obtain ⟨s', h, hsize, hwithin, -, hnew, hkeep⟩ := internalSetupArgument_spec hi.within ha
  refine ⟨s', h, hwithin, by rw [hsize, argEnd_snoc, hi.arg_size], fun i v hv => ?_⟩
  rw [lastWrite_snoc] at hv
  split_ifs at hv with hc
  · rw [hnew i hc, hv]
  · rw [hkeep i hc (hi.arg_size ▸ lt_argEnd_of_lastWrite hv), hi.bytes i v hv]

/-- After a launch the invariant holds afresh, whatever came before. -/
theorem stagingInv_launch {s s' : ArgStaging} {deviceFunctions : List (Nat × Nat)} {func : Nat}
    {L : Launch} (h : internalLaunch deviceFunctions s func = .ok (s', L)) : StagingInv s' [] := by
  obtain ⟨-, -, -, -, harg⟩ := internalLaunch_spec h
  exact ⟨by rw [harg]; exact Nat.zero_le _, by rw [harg]; rfl, fun _ _ h => by cases h⟩

/-- Every staging reached under `bound < 2^63` keeps the invariant. -/
theorem Staged.inv {bound : Nat} (hb : bound < 2 ^ 63) {s : ArgStaging} {as : List SetupArg}
    (h : Staged bound s as) : StagingInv s as := by
  induction h with
  | init => exact stagingInv_init
  | configure config _ ih => exact ih.configure config
  | setup _ ha hs ih =>
    obtain ⟨s', hs', hi'⟩ := ih.setup (Nat.lt_of_le_of_lt ha hb)
    rw [hs] at hs'
    cases hs'
    exact hi'
  | launch _ hl => exact stagingInv_launch hl

/-- **Staging kernel arguments.** Over any sequence of `configure_call`, `setup_argument` and
`launch` calls whose arguments end at most at `bound < 2^63`: (i) `kernel_arg_size` is within
the buffer, and a further such `setup_argument` goes through, every `memcpy` inside its
allocation; (ii) `kernel_arg_size` is the largest end `offset + size` of the arguments set
up since the last launch, `0` for none; (iii) a launch hands `cuLaunchKernel` that size and
a buffer in which each byte written since the last launch holds the value of the last
argument that wrote it. -/
theorem kernel_args_staged {bound : Nat} (hb : bound < 2 ^ 63) {s : ArgStaging}
    {as : List SetupArg} (h : Staged bound s as) :
    (s.kernelArgSize.toNat ≤ s.kernelBufferSize.toNat ∧
      ∀ a : SetupArg, a.offset.toNat + a.size.toNat ≤ bound →
        ∃ s', internalSetupArgument s a = .ok s') ∧
    s.kernelArgSize.toNat = argEnd as ∧
    ∀ deviceFunctions func s' L, internalLaunch deviceFunctions s func = .ok (s', L) →
      L.argSize.toNat = argEnd as ∧ ∀ i v, lastWrite as i = some v → L.args i = some v := by
  have hi := h.inv hb
  refine ⟨⟨hi.within, fun a ha => ?_⟩, hi.arg_size, fun deviceFunctions func s' L hl => ?_⟩
  · obtain ⟨s', hs', -⟩ := hi.setup (Nat.lt_of_le_of_lt ha hb)
    exact ⟨s', hs'⟩
  · obtain ⟨hargs, hsize, -⟩ := internalLaunch_spec hl
    exact ⟨hsize ▸ hi.arg_size, fun i v hv => hargs ▸ hi.bytes i v hv⟩

/-- A four-byte argument at offset `0`, under the bound `16`: `kernel_arg_size` is `4`. -/
theorem kernel_args_one_argument :
    (16 : Nat) < 2 ^ 63 ∧ ∃ s, Staged 16 s [⟨fun k => k.toUInt8, 4, 0⟩] ∧ s.kernelArgSize.toNat = 4 :=
  have h : Staged 16 _ [⟨fun k => k.toUInt8, 4, 0⟩] := Staged.setup Staged.init (by decide) rfl
  ⟨by decide, _, h, (kernel_args_staged (by decide) h).2.1⟩

/-- **The doubling wraps.** From the processor's first staging, an argument of `2^63` bytes
at offset `0`, which ends at `2^63`: the buffer must grow, `required * 2` wraps to `0`, the
new allocation has no byte, and the argument's `memcpy` leaves it. -/
theorem doubling_wraps :
    Staged (2 ^ 63) init [] ∧ (0 : BitVec 64).toNat + (BitVec.ofNat 64 (2 ^ 63)).toNat ≤ 2 ^ 63 ∧
      ((0 : BitVec 64) + BitVec.ofNat 64 (2 ^ 63)) * 2 = 0 ∧
      internalSetupArgument init ⟨fun _ => 0, BitVec.ofNat 64 (2 ^ 63), 0⟩ = .error .memcpyOutOfBounds :=
  ⟨.init, by decide, by decide, rfl⟩

end Realm.Gpu.KernelArgs
