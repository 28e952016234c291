import Realm.Transfer.Observation

/-!
# Sending an iterator to another node

A transfer iterator travels by `serialize` and is rebuilt by `deserialize_new`
(`transfer/transfer.cc`). `serialize` writes what the constructor kept: the domain, the
instance's id (`NO_INST` when it holds no instance), the field offsets and sizes, and for
the mask iterator `extra_elems`. `deserialize_new` reads them back and redoes the
constructor's special cases against the runtime of the node it runs on.

The serializer and deserializer of each type are taken to be faithful (`Codec.read_write`);
`taggedSerdez` is such a codec.

A rectangle iterator, freshly built or reset, and its copy are observationally equal
(`RectIter.round_trip`). A mask iterator and its copy are too, but in two cases:
* `reset()` keeps a pending tentative step pending, and the copy starts without one;
* an iterator with fields that has not yet fetched its valid mask, copied once the mask is
  ready and found empty: the copy is done at once, while the original answers `done()`
  false once and its first step returns 0 (`IdxIter.round_trip`).
-/

namespace Realm.Transfer

/-- A serializer and deserializer for the values of `α`, over a stream of `β`: `write` is
what `serializer << x` appends, `read` takes a value off the front (`deserializer >> x`),
`none` when it cannot. Faithful: reading what was written gives it back and leaves the
rest. -/
structure Codec (β α : Type) where
  write : α → List β
  read : List β → Option (α × List β)
  read_write : ∀ x rest, read (write x ++ rest) = some (x, rest)

attribute [simp] Codec.read_write

/-- The codecs `serialize` and `deserialize_new` use: `Rect<DIM>`, `IndexSpace` and
`RegionInstance` (by their ids), `std::vector<unsigned>`, `std::vector<size_t>` and
`size_t`. -/
structure Serdez (β : Type) where
  rect : Codec β (List Int × List Int)
  indexSpace : Codec β Nat
  inst : Codec β Nat
  offsets : Codec β (List Nat)
  sizes : Codec β (List Nat)
  size : Codec β Nat

/-- `RegionInstance::NO_INST`, on which `exists()` is false. -/
def noInst : Nat := 0

/-- The id `serialize` writes for `inst_impl`: its `me`, or `NO_INST` for a null pointer. -/
def instId {L : Type} (inst : Option (InstanceMeta L)) : Nat :=
  (inst.map (·.me)).getD noInst

/-- One value of a serialized stream, tagged with its type. -/
inductive SerItem where
  | rect (lo hi : List Int)
  | indexSpace (id : Nat)
  | inst (id : Nat)
  | offsets (xs : List Nat)
  | sizes (xs : List Nat)
  | size (n : Nat)
  deriving DecidableEq, Repr

/-- A value written as one tagged item, read back when the tag matches. -/
def taggedCodec {α : Type} (wrap : α → SerItem) (unwrap : SerItem → Option α)
    (h : ∀ x, unwrap (wrap x) = some x) : Codec SerItem α where
  write x := [wrap x]
  read
    | b :: rest => (unwrap b).map (·, rest)
    | [] => none
  read_write x rest := by simp [h]

/-- Tagged items for every type the iterators write: a faithful codec. -/
def taggedSerdez : Serdez SerItem where
  rect := taggedCodec (fun r => .rect r.1 r.2) (fun | .rect lo hi => some (lo, hi) | _ => none)
    fun _ => rfl
  indexSpace := taggedCodec .indexSpace (fun | .indexSpace n => some n | _ => none) fun _ => rfl
  inst := taggedCodec .inst (fun | .inst n => some n | _ => none) fun _ => rfl
  offsets := taggedCodec .offsets (fun | .offsets xs => some xs | _ => none) fun _ => rfl
  sizes := taggedCodec .sizes (fun | .sizes xs => some xs | _ => none) fun _ => rfl
  size := taggedCodec .size (fun | .size n => some n | _ => none) fun _ => rfl

/-! ## The rectangle iterator -/

namespace RectIter

variable {β : Type} (c : Serdez β)

/-- `serialize`: the rectangle, the instance, the field offsets and sizes. -/
def serialize (s : RectIter) : List β :=
  c.rect.write (s.rlo, s.rhi) ++ c.inst.write (instId s.inst) ++ c.offsets.write s.fieldOffsets ++
    c.sizes.write s.fieldSizes

/-- `deserialize_new`, given the runtime's `get_instance_impl`: without fields no instance;
with fields and no instance, no fields either. `next_p` and `next_idx` are left unset by
the source; they are the rectangle's low corner and `0` here. -/
def deserializeNew (impl : Nat → InstanceMeta DenseFortran) (bytes : List β) :
    Option (RectIter × List β) := do
  let (r, b₁) ← c.rect.read bytes
  let (inst, b₂) ← c.inst.read b₁
  let (offsets, b₃) ← c.offsets.read b₂
  let (sizes, b₄) ← c.sizes.read b₃
  pure (if sizes = [] then ⟨r.1, r.2, r.1, r.1, none, offsets, sizes, 0, 0, false⟩
    else if inst ≠ noInst then ⟨r.1, r.2, r.1, r.1, some (impl inst), offsets, sizes, 0, 0, false⟩
    else ⟨r.1, r.2, r.1, r.1, none, [], [], 0, 0, false⟩, b₄)

/-- What `serialize` writes and every operation keeps: the rectangle, the instance, the
fields. -/
def setup (s : RectIter) :
    List Int × List Int × Option (InstanceMeta DenseFortran) × List Nat × List Nat :=
  (s.rlo, s.rhi, s.inst, s.fieldOffsets, s.fieldSizes)

theorem serialize_eq_of_setup {s t : RectIter} (h : s.setup = t.setup) :
    serialize c s = serialize c t := by
  simp only [setup, Prod.mk.injEq] at h
  simp only [serialize, h]

theorem erase_reset_of_setup {s t : RectIter} (h : s.setup = t.setup) :
    (reset s).erase = (reset t).erase := by
  simp only [setup, Prod.mk.injEq] at h
  simp only [reset, erase, h]

theorem setup_of_reachable {s₀ s : RectIter} (h : iterator.Reachable s₀ s) :
    s.setup = s₀.setup :=
  TransferIterator.Reachable.invariant (fun t => t.setup = s₀.setup)
    (fun hs hstep => by
      obtain ⟨h₁, h₂, h₃, h₄, h₅⟩ := step_frame hstep
      simpa only [setup, h₁, h₂, h₃, h₄, h₅] using hs)
    (fun hs h => by
      change confirmStep _ = _ at h
      unfold confirmStep at h
      split at h <;> cases h
      exact hs)
    (fun hs h => by
      change cancelStep _ = _ at h
      unfold cancelStep at h
      split at h <;> cases h
      exact hs)
    id rfl h

/-- What `deserialize_new` makes of what `serialize` wrote, leaving what follows. -/
theorem deserializeNew_serialize (impl : Nat → InstanceMeta DenseFortran) (s : RectIter)
    (rest : List β) : deserializeNew c impl (serialize c s ++ rest) =
      some (if s.fieldSizes = [] then
          ⟨s.rlo, s.rhi, s.rlo, s.rlo, none, s.fieldOffsets, s.fieldSizes, 0, 0, false⟩
        else if instId s.inst ≠ noInst then
          ⟨s.rlo, s.rhi, s.rlo, s.rlo, some (impl (instId s.inst)), s.fieldOffsets, s.fieldSizes,
            0, 0, false⟩
        else ⟨s.rlo, s.rhi, s.rlo, s.rlo, none, [], [], 0, 0, false⟩, rest) := by
  simp only [deserializeNew, serialize, List.append_assoc, Codec.read_write, Option.pure_def,
    Option.bind_eq_bind, Option.some_bind]

/-- A freshly built iterator is where `reset()` puts it. -/
theorem reset_new {rlo rhi : List Int} {m : InstanceMeta DenseFortran} {fields : List Nat}
    {s₀ : RectIter} (h : new rlo rhi m fields = some s₀) : reset s₀ = s₀ := by
  unfold new at h
  split_ifs at h
  · cases h
    rfl
  · obtain ⟨_, -, rfl⟩ := Option.map_eq_some'.1 h
    rfl

/-- **A fresh iterator comes back as it was**, when the runtime finds its instance by id. -/
theorem deserializeNew_serialize_new {impl : Nat → InstanceMeta DenseFortran}
    {rlo rhi : List Int} {m : InstanceMeta DenseFortran} {fields : List Nat} {s₀ : RectIter}
    (hme : m.me ≠ noInst) (himpl : impl m.me = m) (h : new rlo rhi m fields = some s₀)
    (rest : List β) : deserializeNew c impl (serialize c s₀ ++ rest) = some (s₀, rest) := by
  unfold new at h
  split_ifs at h with hempty
  · cases h
    rw [deserializeNew_serialize, if_pos rfl]
  · obtain ⟨sizes, hsizes, rfl⟩ := Option.map_eq_some'.1 h
    rw [deserializeNew_serialize, if_neg (findFieldSizes_ne_nil hsizes fun h => hempty (.inr h))]
    simp only [instId, Option.map_some', Option.getD_some, if_pos hme, himpl]

/-- **The rectangle iterator survives serialization.** A freshly built iterator, or one
reset after any operations, comes back from `deserialize_new` of what `serialize` wrote
as an iterator observationally equal to it, when the runtime finds the instance by its
id. -/
theorem round_trip {impl : Nat → InstanceMeta DenseFortran} {rlo rhi : List Int}
    {m : InstanceMeta DenseFortran} {fields : List Nat} {s₀ s : RectIter}
    (hme : m.me ≠ noInst) (himpl : impl m.me = m) (h₀ : new rlo rhi m fields = some s₀)
    (hs : s = s₀ ∨ ∃ t, iterator.Reachable s₀ t ∧ s = reset t) (rest : List β) :
    ∃ s', deserializeNew c impl (serialize c s ++ rest) = some (s', rest) ∧
      ∀ mbs, iterator.observe mbs s' = iterator.observe mbs s := by
  have hcopy := deserializeNew_serialize_new c hme himpl h₀ rest
  rcases hs with rfl | ⟨t, ht, rfl⟩
  · exact ⟨s, hcopy, fun _ => rfl⟩
  · have hsetup : t.setup = s₀.setup := setup_of_reachable ht
    refine ⟨s₀, by rw [serialize_eq_of_setup c (s := reset t) hsetup, hcopy], observe_eq_of_erase ?_⟩
    rw [← reset_new h₀, erase_reset_of_setup hsetup.symm]

end RectIter

/-! ## The mask iterator -/

namespace IdxIter

section Serialize

variable {β : Type} (c : Serdez β)

/-- `serialize`: the index space, the instance, the field offsets and sizes, and
`extra_elems`. -/
def serialize (s : IdxIter) : List β :=
  c.indexSpace.write s.is ++ c.inst.write (instId s.inst) ++ c.offsets.write s.fieldOffsets ++
    c.sizes.write s.fieldSizes ++ c.size.write s.extraElems

/-- `deserialize_new`, given `get_instance_impl` and the index space's valid mask `m` with
whether it is ready: with fields, a ready mask is taken, and an empty one clears the
fields; without fields neither mask nor instance. `rewind_pos` and `next_idx` are left
unset by the source; they are `0` here. -/
def deserializeNew (impl : Nat → InstanceMeta Int) (ready : Bool) (m : ElementMask)
    (bytes : List β) : Option (IdxIter × List β) := do
  let (is, b₁) ← c.indexSpace.read bytes
  let (inst, b₂) ← c.inst.read b₁
  let (offsets, b₃) ← c.offsets.read b₂
  let (sizes, b₄) ← c.sizes.read b₃
  let (extra, b₅) ← c.size.read b₄
  let instImpl := if inst ≠ noInst then some (impl inst) else none
  pure (if sizes = [] then ⟨is, none, 0, none, 0, none, offsets, sizes, 0, 0, extra, false⟩
    else if ready then
      if m.findEnabled = -1 then ⟨is, some m, -1, none, 0, instImpl, [], [], 0, 0, extra, false⟩
      else ⟨is, some m, m.findEnabled, none, 0, instImpl, offsets, sizes, 0, 0, extra, false⟩
    else ⟨is, none, 0, none, 0, instImpl, offsets, sizes, 0, 0, extra, false⟩, b₅)

end Serialize

/-! ### What the operations keep -/

/-- What `serialize` writes, with the valid mask and `first_enabled`: only a step that
fetches the mask changes it. -/
def setup (s : IdxIter) :
    Nat × Option ElementMask × Int × Option (InstanceMeta Int) × List Nat × List Nat × Nat :=
  (s.is, s.validMask, s.firstEnabled, s.inst, s.fieldOffsets, s.fieldSizes, s.extraElems)

theorem fields_of_setup {s t : IdxIter} (h : s.setup = t.setup) :
    s.fieldOffsets = t.fieldOffsets ∧ s.fieldSizes = t.fieldSizes := by
  simp only [setup, Prod.mk.injEq] at h
  exact ⟨h.2.2.2.2.1, h.2.2.2.2.2.1⟩

theorem needsFetch_iff_of_setup {s t : IdxIter} (h : s.setup = t.setup) :
    s.NeedsFetch ↔ t.NeedsFetch := by
  simp only [setup, Prod.mk.injEq] at h
  simp only [NeedsFetch, h]

theorem setup_prepare {m : ElementMask} {s t : IdxIter} (h : s.setup = t.setup) :
    (prepare m s).setup = (prepare m t).setup := by
  unfold prepare
  by_cases hs : s.NeedsFetch
  · rw [if_pos hs, if_pos ((needsFetch_iff_of_setup h).1 hs)]
    simp only [setup, Prod.mk.injEq] at h ⊢
    simp only [h, and_self]
  · rw [if_neg hs, if_neg (mt (needsFetch_iff_of_setup h).2 hs)]
    exact h

theorem prepare_prepare (m : ElementMask) (s : IdxIter) : prepare m (prepare m s) = prepare m s :=
  prepare_of_not (not_needsFetch_prepare m s)

/-- A state with fields, and no mask or `m` already fetched, is prepared by taking `m`. -/
theorem prepare_of_validMask {m : ElementMask} {s : IdxIter} (hz : s.fieldSizes ≠ [])
    (hvm : s.validMask = none ∨ s.validMask = some m ∧ s.firstEnabled = m.findEnabled) :
    prepare m s = { s with validMask := some m, firstEnabled := m.findEnabled } := by
  rcases hvm with hv | ⟨hv, hf⟩
  · exact if_pos ⟨hz, hv⟩
  · rw [prepare_of_not fun h => by simp [h.2] at hv, ← hv, ← hf]

theorem setup_setNext (s : IdxIter) (c : Int × Int × Bool) (t : Bool) :
    (s.setNext c t).setup = s.setup := by
  obtain ⟨pos, start, last⟩ := c
  cases t <;> cases last <;> rfl

theorem setup_stepMasked {s s' : IdxIter} {mb : Nat} {t : Bool} {o : Option AddressInfo}
    {n : Nat} (h : s.stepMasked mb t = some (s', o, n)) : s'.setup = s.setup := by
  unfold stepMasked stepOf at h
  split at h
  · cases h
  · obtain ⟨r, -, he⟩ := Option.map_eq_some'.1 h
    rcases r with _ | ⟨c, info, bytes⟩ <;> cases he
    · rfl
    · exact setup_setNext s c t

/-- **What a step does to the setup**: it clears the fields (having fetched an empty
mask), or leaves the setup of the state with the mask fetched. -/
theorem setup_step {m : ElementMask} {s s' : IdxIter} {mb : Nat} {t : Bool}
    {o : Option AddressInfo} {n : Nat} (h : step m s mb t = some (s', o, n)) :
    s'.fieldOffsets = [] ∧ s'.fieldSizes = [] ∨
      (m.findEnabled ≠ -1 ∨ ¬s.NeedsFetch) ∧ s'.setup = (prepare m s).setup := by
  by_cases hs : s.NeedsFetch
  · by_cases hm : m.findEnabled = -1
    · unfold step at h
      rw [if_pos (show s.fieldSizes ≠ [] ∧ s.validMask = none from hs), if_pos hm] at h
      cases h
      exact .inl ⟨rfl, rfl⟩
    · rw [step_eq_prepare hm] at h
      exact .inr ⟨.inl hm, setup_stepMasked h⟩
  · rw [step_eq_of_not hs] at h
    exact .inr ⟨.inr hs, by rw [prepare_of_not hs]; exact setup_stepMasked h⟩

theorem setup_confirmStep {s s' : IdxIter} (h : confirmStep s = some s') : s'.setup = s.setup := by
  unfold confirmStep at h
  split at h
  · cases h
    split <;> rfl
  · cases h

theorem setup_cancelStep {s s' : IdxIter} (h : cancelStep s = some s') : s'.setup = s.setup := by
  unfold cancelStep at h
  split at h
  · split at h <;> cases h
    rfl
  · cases h

/-- Where the setup of a state reached from `s₀` over the mask `m` is: as built, with a
non-empty `m` fetched, or with no fields. -/
def SetupFrom (m : ElementMask) (s₀ s : IdxIter) : Prop :=
  s.setup = s₀.setup ∨ m.findEnabled ≠ -1 ∧ s.setup = (prepare m s₀).setup ∨
    s.fieldOffsets = [] ∧ s.fieldSizes = []

theorem SetupFrom.of_setup {m : ElementMask} {s₀ s s' : IdxIter} (hs : SetupFrom m s₀ s)
    (h : s'.setup = s.setup) : SetupFrom m s₀ s' := by
  rcases hs with hs | ⟨hm, hs⟩ | ⟨ho, hz⟩
  · exact .inl (h.trans hs)
  · exact .inr (.inl ⟨hm, h.trans hs⟩)
  · obtain ⟨h₁, h₂⟩ := fields_of_setup h
    exact .inr (.inr ⟨h₁.trans ho, h₂.trans hz⟩)

theorem SetupFrom.step {m : ElementMask} {s₀ s s' : IdxIter} {mb : Nat} {t : Bool}
    {o : Option AddressInfo} {n : Nat} (hs : SetupFrom m s₀ s) (h : step m s mb t = some (s', o, n)) :
    SetupFrom m s₀ s' := by
  rcases setup_step h with hclear | ⟨hfetch, hsetup⟩
  · exact .inr (.inr hclear)
  rcases hs with hs | ⟨hm, hs⟩ | ⟨ho, hz⟩
  · rcases hfetch with hm | hn
    · exact .inr (.inl ⟨hm, hsetup.trans (setup_prepare hs)⟩)
    · exact .inl (by rw [hsetup, prepare_of_not hn, hs])
  · exact .inr (.inl ⟨hm, by rw [hsetup, setup_prepare hs, prepare_prepare]⟩)
  · rw [prepare_of_not fun h => h.1 hz] at hsetup
    exact SetupFrom.of_setup (.inr (.inr ⟨ho, hz⟩)) hsetup

theorem setupFrom_of_reachable {m : ElementMask} {s₀ s : IdxIter}
    (h : (iterator m).Reachable s₀ s) : SetupFrom m s₀ s :=
  TransferIterator.Reachable.invariant (SetupFrom m s₀) (fun hs h => hs.step h)
    (fun hs h => hs.of_setup (setup_confirmStep h)) (fun hs h => hs.of_setup (setup_cancelStep h))
    (fun hs => hs.of_setup rfl) (.inl rfl) h

/-! ### The copy -/

/-- What a copy `s'` of `s`, made while the mask `m` was ready or not (`ready`), keeps of
it: the same `done()` answers, chunks and counts under every list of `max_bytes`; but when
`s` has yet to fetch `m`, and `m` is empty and was ready at the copy, the copy is done at
once while `s` is done after a first step that returns 0. -/
def CopyAgrees (m : ElementMask) (ready : Bool) (s s' : IdxIter) : Prop :=
  if s.NeedsFetch ∧ m.findEnabled = -1 ∧ ready = true then
    s'.done = true ∧
      ∀ mb mbs, (iterator m).observe (mb :: mbs) s = [(false, some (none, 0)), (true, none)]
  else ∀ mbs, (iterator m).observe mbs s' = (iterator m).observe mbs s

/-- States equal but for `rewind_pos` and `next_idx` agree. -/
theorem Agree.of_rewind {s t : IdxIter}
    (h : { s with rewindPos := t.rewindPos, nextIdx := t.nextIdx } = t) : Agree s t := by
  cases s
  cases t
  cases h
  exact ⟨rfl, fun _ _ => rfl, fun _ _ => rfl⟩

/-- An iterator that fetches an empty mask is done after one step that returns 0. -/
theorem observe_of_empty_fetch {m : ElementMask} {s : IdxIter} (hs : s.NeedsFetch)
    (hm : m.findEnabled = -1) (hd : s.done = false) (mb : Nat) (mbs : List Nat) :
    (iterator m).observe (mb :: mbs) s = [(false, some (none, 0)), (true, none)] := by
  simp only [TransferIterator.observe, iterator, hd, step_of_empty_fetch hs hm, Bool.false_eq_true,
    if_false]
  rw [TransferIterator.observe_of_done rfl]

/-- What the constructor builds: no fields, or the fields found, with a mask not known to
be empty. -/
theorem new_cases {is : Nat} {ready : Bool} {m : ElementMask} {inst : InstanceMeta Int}
    {fields : List Nat} {extra : Nat} {s₀ : IdxIter} (h : new is ready m inst fields extra = some s₀) :
    s₀ = ⟨is, if ready then some m else none, if ready then m.findEnabled else 0, none, 0, none,
      [], [], 0, 0, extra, false⟩ ∨
    ∃ sizes, (if ready then m.findEnabled else 0) ≠ -1 ∧ fields ≠ [] ∧
      findFieldSizes inst.fieldSizes fields = some sizes ∧
      s₀ = ⟨is, if ready then some m else none, if ready then m.findEnabled else 0, none, 0,
        some inst, fields, sizes, 0, 0, extra, false⟩ := by
  unfold new at h
  dsimp only at h
  by_cases hempty : (if ready then m.findEnabled else 0) = -1 ∨ fields = []
  · rw [if_pos hempty] at h
    exact .inl (Option.some.inj h).symm
  · rw [if_neg hempty] at h
    obtain ⟨sizes, hsizes, rfl⟩ := Option.map_eq_some'.1 h
    exact .inr ⟨sizes, fun h => hempty (.inl h), fun h => hempty (.inr h), hsizes, rfl⟩

/-- A freshly built iterator has not moved. -/
theorem rewound_new {is : Nat} {ready : Bool} {m : ElementMask} {inst : InstanceMeta Int}
    {fields : List Nat} {extra : Nat} {s₀ : IdxIter} (h : new is ready m inst fields extra = some s₀) :
    s₀.enumerator = none ∧ s₀.fieldIdx = 0 ∧ s₀.tentativeValid = false := by
  rcases new_cases h with rfl | ⟨_, -, -, -, rfl⟩ <;> exact ⟨rfl, rfl, rfl⟩

section RoundTrip

variable {β : Type} (c : Serdez β)

/-- What `deserialize_new` makes of what `serialize` wrote, leaving what follows. -/
theorem deserializeNew_serialize (impl : Nat → InstanceMeta Int) (ready : Bool) (m : ElementMask)
    (s : IdxIter) (rest : List β) : deserializeNew c impl ready m (serialize c s ++ rest) =
      some (if s.fieldSizes = [] then
          ⟨s.is, none, 0, none, 0, none, s.fieldOffsets, s.fieldSizes, 0, 0, s.extraElems, false⟩
        else if ready then
          if m.findEnabled = -1 then
            ⟨s.is, some m, -1, none, 0, if instId s.inst ≠ noInst then some (impl (instId s.inst))
              else none, [], [], 0, 0, s.extraElems, false⟩
          else ⟨s.is, some m, m.findEnabled, none, 0, if instId s.inst ≠ noInst then
              some (impl (instId s.inst)) else none, s.fieldOffsets, s.fieldSizes, 0, 0,
              s.extraElems, false⟩
        else ⟨s.is, none, 0, none, 0, if instId s.inst ≠ noInst then some (impl (instId s.inst))
          else none, s.fieldOffsets, s.fieldSizes, 0, 0, s.extraElems, false⟩, rest) := by
  simp only [deserializeNew, serialize, List.append_assoc, Codec.read_write, Option.pure_def,
    Option.bind_eq_bind, Option.some_bind]

/-- Without fields, the original and the copy are both done. -/
theorem round_trip_of_no_fields {impl : Nat → InstanceMeta Int} {ready : Bool} {m : ElementMask}
    {s : IdxIter} (ho : s.fieldOffsets = []) (hz : s.fieldSizes = []) (hidx : s.fieldIdx = 0)
    (rest : List β) : ∃ s', deserializeNew c impl ready m (serialize c s ++ rest) = some (s', rest) ∧
      CopyAgrees m ready s s' := by
  refine ⟨⟨s.is, none, 0, none, 0, none, [], [], 0, 0, s.extraElems, false⟩,
    by rw [deserializeNew_serialize, if_pos hz, ho, hz], ?_⟩
  rw [CopyAgrees, if_neg fun h => h.1.1 hz]
  intro mbs
  rw [TransferIterator.observe_of_done rfl,
    TransferIterator.observe_of_done (by simp [iterator, done, ho, hidx])]

/-- With fields, and the mask not fetched or fetched and non-empty, the copy takes the
mask if it is ready; once both have it, they agree. -/
theorem round_trip_of_fields {impl : Nat → InstanceMeta Int} {ready : Bool} {m : ElementMask}
    {inst : InstanceMeta Int} {s : IdxIter} (hme : inst.me ≠ noInst) (himpl : impl inst.me = inst)
    (hen : s.enumerator = none) (hidx : s.fieldIdx = 0) (htv : s.tentativeValid = false)
    (hinst : s.inst = some inst) (ho : s.fieldOffsets ≠ []) (hz : s.fieldSizes ≠ [])
    (hvm : s.validMask = none ∨
      s.validMask = some m ∧ s.firstEnabled = m.findEnabled ∧ m.findEnabled ≠ -1)
    (rest : List β) : ∃ s', deserializeNew c impl ready m (serialize c s ++ rest) = some (s', rest) ∧
      CopyAgrees m ready s s' := by
  obtain ⟨is, vm, fe, en, r, i, offs, sizes, idx, n, extra, tv⟩ := s
  simp only at hen hidx htv hinst ho hz hvm
  subst hen hidx htv hinst
  have hd : done ⟨is, vm, fe, none, r, some inst, offs, sizes, 0, n, extra, false⟩ = false := by
    simpa [done] using fun h => ho (List.length_eq_zero.1 h.symm)
  have hinst : (if instId (some inst) ≠ noInst then some (impl (instId (some inst))) else none) =
      some inst := by
    simp only [instId, Option.map_some', Option.getD_some, if_pos hme, himpl]
  by_cases hx : ready = true ∧ m.findEnabled = -1
  · -- the mask, empty, was ready at the copy and is not fetched here
    obtain ⟨rfl, hm⟩ := hx
    obtain rfl : vm = none := hvm.resolve_right fun h => h.2.2 hm
    refine ⟨⟨is, some m, -1, none, 0, some inst, [], [], 0, 0, extra, false⟩,
      by rw [deserializeNew_serialize]; simp only [if_neg hz, if_pos hm, if_true, hinst], ?_⟩
    rw [CopyAgrees, if_pos ⟨⟨hz, rfl⟩, hm, rfl⟩]
    exact ⟨rfl, observe_of_empty_fetch ⟨hz, rfl⟩ hm hd⟩
  · refine ⟨if ready then ⟨is, some m, m.findEnabled, none, 0, some inst, offs, sizes, 0, 0, extra, false⟩
      else ⟨is, none, 0, none, 0, some inst, offs, sizes, 0, 0, extra, false⟩, ?_, ?_⟩
    · rw [deserializeNew_serialize]
      cases ready
      · simp only [if_neg hz, Bool.false_eq_true, if_false, hinst]
      · simp only [if_neg hz, if_true, if_neg fun h => hx ⟨rfl, h⟩, hinst]
    rw [CopyAgrees, if_neg fun h => hx ⟨h.2.2, h.2.1⟩]
    refine observe_eq_of_sim ⟨?_, Agree.of_rewind ?_⟩
    · -- with an empty mask, neither has it
      by_cases hm : m.findEnabled = -1
      · obtain rfl : ready = false := by simpa [hm] using hx
        obtain rfl : vm = none := hvm.resolve_right fun h => h.2.2 hm
        exact .inr (iff_of_true ⟨hz, rfl⟩ ⟨hz, rfl⟩)
      · exact .inl hm
    · rw [prepare_of_validMask (by cases ready <;> exact hz) (by cases ready <;> simp),
        prepare_of_validMask hz (hvm.imp_right fun h => ⟨h.1, h.2.1⟩)]
      cases ready <;> rfl

/-- **A mask iterator and its copy.** A freshly built iterator, or one reset with no
tentative step pending, comes back from `deserialize_new` of what `serialize` wrote as a
copy that agrees with it (`CopyAgrees`), when the runtime finds the instance by its id. -/
theorem round_trip {impl : Nat → InstanceMeta Int} {is : Nat} {ready ready' : Bool}
    {m : ElementMask} {inst : InstanceMeta Int} {fields : List Nat} {extra : Nat} {s₀ s : IdxIter}
    (hme : inst.me ≠ noInst) (himpl : impl inst.me = inst)
    (h₀ : new is ready m inst fields extra = some s₀)
    (hs : s = s₀ ∨ ∃ t, (iterator m).Reachable s₀ t ∧ t.tentativeValid = false ∧ s = reset t)
    (rest : List β) : ∃ s', deserializeNew c impl ready' m (serialize c s ++ rest) = some (s', rest) ∧
      CopyAgrees m ready' s s' := by
  obtain ⟨hen, hidx, htv, hfrom⟩ : s.enumerator = none ∧ s.fieldIdx = 0 ∧
      s.tentativeValid = false ∧ SetupFrom m s₀ s := by
    rcases hs with rfl | ⟨t, ht, htv, rfl⟩
    · exact ⟨(rewound_new h₀).1, (rewound_new h₀).2.1, (rewound_new h₀).2.2, .inl rfl⟩
    · exact ⟨rfl, rfl, htv, (setupFrom_of_reachable ht).of_setup rfl⟩
  rcases new_cases h₀ with rfl | ⟨sizes, hfe, hne, hsizes, rfl⟩
  · -- built without fields
    obtain ⟨ho, hz⟩ : s.fieldOffsets = [] ∧ s.fieldSizes = [] := by
      rcases hfrom with h | ⟨-, h⟩ | h
      · exact fields_of_setup h
      · rw [prepare_of_not fun h => h.1 rfl] at h
        exact fields_of_setup h
      · exact h
    exact round_trip_of_no_fields c ho hz hidx rest
  · have hz := findFieldSizes_ne_nil hsizes hne
    rcases hfrom with h | ⟨hm, h⟩ | ⟨ho, hz'⟩
    · -- the mask as at construction
      simp only [setup, Prod.mk.injEq] at h
      obtain ⟨-, hv, hf, hi, ho, hzz, -⟩ := h
      refine round_trip_of_fields c hme himpl hen hidx htv hi (ho ▸ hne) (hzz ▸ hz) ?_ rest
      cases ready
      · exact .inl hv
      · exact .inr ⟨hv, hf, hfe⟩
    · -- the mask fetched since
      rw [prepare_of_validMask hz (by cases ready <;> simp)] at h
      simp only [setup, Prod.mk.injEq] at h
      obtain ⟨-, hv, hf, hi, ho, hzz, -⟩ := h
      exact round_trip_of_fields c hme himpl hen hidx htv hi (ho ▸ hne) (hzz ▸ hz)
        (.inr ⟨hv, hf, hm⟩) rest
    · exact round_trip_of_no_fields c ho hz' hidx rest

end RoundTrip

end IdxIter

/-! ## Iterators and their copies -/

/-- **Iterators survive serialization**, given faithful codecs and a runtime that finds each
instance by its id. A rectangle iterator, freshly built or reset after any operations,
comes back from `deserialize_new` of what `serialize` wrote as an iterator observationally
equal to it. So does a mask iterator, freshly built or reset with no tentative step
pending, but when it has yet to fetch its valid mask and the mask, ready at the copy, is
empty: then the copy is done at once, and the original after one step that returns 0. -/
theorem serialize_round_trip {β : Type} (c : Serdez β) (implR : Nat → InstanceMeta DenseFortran)
    (implI : Nat → InstanceMeta Int) :
    (∀ (rlo rhi : List Int) (m : InstanceMeta DenseFortran) (fields : List Nat) {s₀ s : RectIter},
      m.me ≠ noInst → implR m.me = m → RectIter.new rlo rhi m fields = some s₀ →
      (s = s₀ ∨ ∃ t, RectIter.iterator.Reachable s₀ t ∧ s = RectIter.reset t) → ∀ rest,
      ∃ s', RectIter.deserializeNew c implR (RectIter.serialize c s ++ rest) = some (s', rest) ∧
        ∀ mbs, RectIter.iterator.observe mbs s' = RectIter.iterator.observe mbs s) ∧
    (∀ (is : Nat) (ready ready' : Bool) (m : ElementMask) (inst : InstanceMeta Int)
      (fields : List Nat) (extra : Nat) {s₀ s : IdxIter},
      inst.me ≠ noInst → implI inst.me = inst → IdxIter.new is ready m inst fields extra = some s₀ →
      (s = s₀ ∨ ∃ t, (IdxIter.iterator m).Reachable s₀ t ∧ t.tentativeValid = false ∧
        s = IdxIter.reset t) → ∀ rest,
      ∃ s', IdxIter.deserializeNew c implI ready' m (IdxIter.serialize c s ++ rest) = some (s', rest) ∧
        if s.NeedsFetch ∧ m.findEnabled = -1 ∧ ready' = true then
          s'.done = true ∧ ∀ mb mbs, (IdxIter.iterator m).observe (mb :: mbs) s =
            [(false, some (none, 0)), (true, none)]
        else ∀ mbs, (IdxIter.iterator m).observe mbs s' = (IdxIter.iterator m).observe mbs s) :=
  ⟨fun _ _ _ _ _ _ hme himpl h₀ hs rest => RectIter.round_trip c hme himpl h₀ hs rest,
    fun _ _ _ _ _ _ _ _ _ hme himpl h₀ hs rest => IdxIter.round_trip c hme himpl h₀ hs rest⟩

/-- A rectangle iterator over `0‥3`, and a mask iterator over the mask `{0, 2}` not ready
when built and ready when copied, each with one field of one byte, copied fresh through
tagged items ahead of one more item. -/
theorem serialize_round_trip_one_field :
    (⟨1, ⟨[0], [3]⟩, 0, 4, 1, [1]⟩ : InstanceMeta DenseFortran).me ≠ noInst ∧
    (∃ s₀, RectIter.new [0] [3] ⟨1, ⟨[0], [3]⟩, 0, 4, 1, [1]⟩ [0] = some s₀ ∧
      ∃ s', RectIter.deserializeNew taggedSerdez (fun _ => ⟨1, ⟨[0], [3]⟩, 0, 4, 1, [1]⟩)
          (RectIter.serialize taggedSerdez s₀ ++ [.size 7]) = some (s', [.size 7]) ∧
        ∀ mbs, RectIter.iterator.observe mbs s' = RectIter.iterator.observe mbs s₀) ∧
    (∃ s₀, IdxIter.new 0 false ⟨[0, 2], by decide⟩ ⟨1, 0, 0, 16, 1, [1]⟩ [0] 0 = some s₀ ∧
      ∃ s', IdxIter.deserializeNew taggedSerdez (fun _ => ⟨1, 0, 0, 16, 1, [1]⟩) true
          ⟨[0, 2], by decide⟩ (IdxIter.serialize taggedSerdez s₀ ++ [.size 7]) = some (s', [.size 7]) ∧
        ∀ mbs, (IdxIter.iterator ⟨[0, 2], by decide⟩).observe mbs s' =
          (IdxIter.iterator ⟨[0, 2], by decide⟩).observe mbs s₀) := by
  refine ⟨by decide, ⟨_, rfl, (serialize_round_trip taggedSerdez (fun _ => ⟨1, ⟨[0], [3]⟩, 0, 4, 1, [1]⟩)
    (fun _ => ⟨1, 0, 0, 16, 1, [1]⟩)).1 [0] [3] _ [0] (by decide) rfl rfl (.inl rfl) _⟩, _, rfl, ?_⟩
  obtain ⟨s', hs', hobs⟩ := (serialize_round_trip taggedSerdez (fun _ => ⟨1, ⟨[0], [3]⟩, 0, 4, 1, [1]⟩)
    (fun _ => ⟨1, 0, 0, 16, 1, [1]⟩)).2 0 false true ⟨[0, 2], by decide⟩ _ [0] 0 (by decide) rfl rfl
      (.inl rfl) [.size 7]
  exact ⟨s', hs', by rwa [if_neg (by decide)] at hobs⟩

/-- **Copies that differ.** Over an index space whose valid mask is empty and not ready when
the iterator is built, a copy made once it is ready is done at once, while the original
answers `done()` false and returns 0 from its first step. And an iterator reset with a
tentative step pending fails its next step's assertion, while its copy gives out a chunk. -/
theorem copies_differ :
    (∃ s₀ s', IdxIter.new 0 false ⟨[], .nil⟩ ⟨1, 0, 0, 16, 1, [1]⟩ [0] 0 = some s₀ ∧
      IdxIter.deserializeNew taggedSerdez (fun _ => ⟨1, 0, 0, 16, 1, [1]⟩) true ⟨[], .nil⟩
        (IdxIter.serialize taggedSerdez s₀) = some (s', []) ∧
      (IdxIter.iterator ⟨[], .nil⟩).observe [1] s₀ = [(false, some (none, 0)), (true, none)] ∧
      (IdxIter.iterator ⟨[], .nil⟩).observe [1] s' = [(true, none)]) ∧
    (∃ s₀ s₁ o n s', IdxIter.new 0 true ⟨[0, 2], by decide⟩ ⟨1, 0, 0, 16, 1, [1]⟩ [0] 0 = some s₀ ∧
      (IdxIter.iterator ⟨[0, 2], by decide⟩).step s₀ 1 true = some (s₁, o, n) ∧
      IdxIter.deserializeNew taggedSerdez (fun _ => ⟨1, 0, 0, 16, 1, [1]⟩) true ⟨[0, 2], by decide⟩
        (IdxIter.serialize taggedSerdez (IdxIter.reset s₁)) = some (s', []) ∧
      (IdxIter.iterator ⟨[0, 2], by decide⟩).observe [1] (IdxIter.reset s₁) = [(false, none)] ∧
      (IdxIter.iterator ⟨[0, 2], by decide⟩).observe [1] s' =
        [(false, some (some (AddressInfo.line 0 1), 1)), (false, none)]) :=
  ⟨⟨_, _, rfl, rfl, rfl, rfl⟩, ⟨_, _, _, _, _, rfl, rfl, rfl, rfl, rfl⟩⟩

end Realm.Transfer
