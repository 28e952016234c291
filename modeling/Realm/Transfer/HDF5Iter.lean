import Realm.Transfer.RectIter

/-!
# `TransferIteratorHDF5<DIM>`

The iterator over a rectangle `r = [rlo, rhi]` of an HDF5 instance (`transfer/transfer.cc`,
under `USE_HDF`). Each field is a dataset of its own, with a datatype; the instance's
`HDFMetadata` gives the datasets' low corner `lo` and extent `dims`. A `step` gives out a
hyperslab of the current field's dataset as an `AddressInfoHDF5`: the dataset's extent,
and the hyperslab's offset from `lo` and its extent, in C order (dimension `d` at
`DIM - 1 - d`).

The step grows its box from the current point `p` with the growth loop of the rectangle
iterator (`growTarget`: the same loop, with no layout to respect after it), translates it
to the dataset's coordinates (`hyperslab`), and moves `p` with the same carry loop
(`nextPoint`). So a hyperslab is a run of the Fortran order of `r` from `p`, and the run
of steps gives out the points of `r` once per field, in order.

* `step_spec`: from a point of `r`, with room for one element, a step gives out the run
  `[p, b]` as a hyperslab inside the dataset, of at most `max_bytes` bytes.
* `run_covers`: a run of non-tentative steps reaches `done()` and gives out what is left of
  every field.
* `hdf5_chunks_cover`: from the constructor, over a non-empty rectangle inside the
  dataset, under any `max_bytes` sequence that leaves room for one element of the current
  field: the run reaches `done()`; every hyperslab has `0 < count * elmt_size ≤ max_bytes`
  and `offset + extent ≤ dims` in each dimension; and the hyperslabs of each field,
  translated back to the index space, list the points of `r` in Fortran order, each once.
-/

namespace Realm.Transfer

/-- `HDF5Memory::HDFMetadata`, as the iterator reads it: the number of dimensions, the low
corner `lo` and the extent `dims` of the datasets, and the dataset and datatype id of each
field (`dataset_ids`, `datatype_ids`). -/
structure HDFMetadata where
  ndims : Nat
  lo : List Int
  dims : List Nat
  datasetIds : List (Nat × Nat)
  datatypeIds : List (Nat × Nat)
  deriving DecidableEq, Repr

/-- `AddressInfoHDF5`: the field's dataset and datatype, the dataset's extent, and the
hyperslab's offset and extent, each in C order. -/
structure AddressInfoHDF5 where
  dsetId : Nat
  dtypeId : Nat
  dsetBounds : List Nat
  offset : List Nat
  extent : List Nat
  deriving DecidableEq, Repr

/-- The high corner of a dataset of extent `dims` from `lo`. -/
def dsetHi : List Int → List Nat → List Int
  | l :: ls, D :: Ds => (l + (D : Int) - 1) :: dsetHi ls Ds
  | _, _ => []

/-- The translation loop of `step`, dimension by dimension: the box `[a, b]` as its offset
from the dataset's low corner and its extent, with the dataset's extent; `none` when the
assertion `target_subrect.lo[d] >= lo[d]` or `extent <= dims[d]` fails. The lists are in
dimension order; `step` stores dimension `d` at `DIM - 1 - d`. -/
def hyperslab : List Int → List Int → List Int → List Nat → Option (List Nat × List Nat × List Nat)
  | x :: xs, y :: ys, l :: ls, D :: Ds =>
    if l ≤ x ∧ (y - x + 1).toNat ≤ D then
      (hyperslab xs ys ls Ds).map fun r => ((x - l).toNat :: r.1, (y - x + 1).toNat :: r.2.1, D :: r.2.2)
    else none
  | _, _, _, _ => some ([], [], [])

/-- The state of a `TransferIteratorHDF5<DIM>`: the rectangle, the point `p`, the dataset
and datatype of each field, `hdf_metadata`, and what a step leaves for `confirm_step`. -/
structure HDF5Iter where
  rlo : List Int
  rhi : List Int
  p : List Int
  nextP : List Int
  dsetIds : List Nat
  dtypeIds : List Nat
  hdfMetadata : HDFMetadata
  fieldIdx : Nat
  nextIdx : Nat
  tentativeValid : Bool
  deriving DecidableEq, Repr

namespace HDF5Iter

/-- The constructor `TransferIteratorHDF5(r, inst, fields)`, given the instance's
`HDFMetadata` (the memory's `hdf_metadata` entry for `inst`): the assertion that the
datasets have `DIM` dimensions, then each field's dataset and datatype, `none` when an
assertion fails. `next_p` and `next_idx` are left unset by the source; they are `r.lo` and
`0` here, and nothing reads them before a step sets them. -/
def new (rlo rhi : List Int) (hdfMetadata : HDFMetadata) (fields : List Nat) : Option HDF5Iter :=
  if hdfMetadata.ndims ≠ rlo.length then none else do
    let ids ← fields.mapM fun f => do
      let dsetId ← hdfMetadata.datasetIds.lookup f
      let dtypeId ← hdfMetadata.datatypeIds.lookup f
      pure (dsetId, dtypeId)
    pure ⟨rlo, rhi, rlo, rlo, ids.map (·.1), ids.map (·.2), hdfMetadata, 0, 0, false⟩

/-- `done()`. -/
def done (s : HDF5Iter) : Bool :=
  s.fieldIdx == s.dsetIds.length

/-- The end of `step`, after the box `[p, b]`: `next_p` is the point after it and
`next_idx` the next field when the carry ran out; a tentative step only records them, any
other step moves there. -/
def setNext (s : HDF5Iter) (b : List Int) (tentative : Bool) : HDF5Iter :=
  let n := nextPoint true s.rlo s.rhi s.p b
  let ni := s.fieldIdx + if n.2 then 1 else 0
  if tentative then { s with nextP := n.1, nextIdx := ni, tentativeValid := true }
  else { s with nextP := n.1, nextIdx := ni, p := n.1, fieldIdx := ni }

/-- `step(max_bytes, info, tentative)` for an `AddressInfoHDF5`: the new state, the info it
fills (`none` when it returns before filling it, having set only the two ids) and the bytes
it returns; `none` when an assertion fails. `h5tGetSize` is `H5Tget_size`; a datatype of
size `0` would divide by zero. The growth loop's `count` is the number of points of the
box it gives. -/
def step (h5tGetSize : Nat → Nat) (s : HDF5Iter) (maxBytes : Nat) (tentative : Bool) :
    Option (HDF5Iter × Option AddressInfoHDF5 × Nat) :=
  if s.done || s.tentativeValid then none else
  match s.dsetIds[s.fieldIdx]?, s.dtypeIds[s.fieldIdx]? with
  | some dsetId, some dtypeId =>
    let elmtSize := h5tGetSize dtypeId
    if elmtSize = 0 then none else
    if maxBytes / elmtSize = 0 then some (s, none, 0) else
    match growTarget (maxBytes / elmtSize) true 1 s.p s.rlo s.rhi with
    | none => none
    | some tHi =>
      match hyperslab s.p tHi s.hdfMetadata.lo s.hdfMetadata.dims with
      | none => none
      | some (offset, extent, bounds) =>
        some (s.setNext tHi tentative,
          some ⟨dsetId, dtypeId, bounds.reverse, offset.reverse, extent.reverse⟩,
          volume s.p tHi * elmtSize)
  | _, _ => none

/-- `confirm_step()`. -/
def confirmStep (s : HDF5Iter) : Option HDF5Iter :=
  if s.tentativeValid then some { s with p := s.nextP, fieldIdx := s.nextIdx, tentativeValid := false }
  else none

/-- `cancel_step()`. -/
def cancelStep (s : HDF5Iter) : Option HDF5Iter :=
  if s.tentativeValid then some { s with tentativeValid := false } else none

/-- `reset()`: back to the rectangle's low corner and the first field; `tentative_valid`
is left as it is. -/
def reset (s : HDF5Iter) : HDF5Iter :=
  { s with p := s.rlo, fieldIdx := 0 }

/-- A caller's loop of non-tentative steps while `done()` is false, the `k`-th step asking
for at most `mb k` bytes, at most `fuel` of them: for each step its field, its `max_bytes`,
the hyperslab and the bytes returned, and the state reached; `none` when a step fails or
gives out nothing. -/
def run (h5tGetSize : Nat → Nat) (mb : Nat → Nat) :
    Nat → HDF5Iter → Option (List (Nat × Nat × AddressInfoHDF5 × Nat) × HDF5Iter)
  | 0, s => some ([], s)
  | fuel + 1, s =>
    if s.done then some ([], s) else
    match s.step h5tGetSize (mb 0) false with
    | some (s', some info, n) =>
      (run h5tGetSize (fun k => mb (k + 1)) fuel s').map fun r => ((s.fieldIdx, mb 0, info, n) :: r.1, r.2)
    | _ => none

end HDF5Iter

/-- The box a hyperslab stands for in the index space, from its offset and extent in C
order: from `lo + offset` to `lo + offset + extent - 1` in each dimension. -/
def slabLo (lo : List Int) (info : AddressInfoHDF5) : List Int :=
  List.zipWith (fun (l : Int) (o : Nat) => l + o) lo info.offset.reverse

/-- See `slabLo`. -/
def slabHi (lo : List Int) (info : AddressInfoHDF5) : List Int :=
  List.zipWith3 (fun (l : Int) (o e : Nat) => l + o + e - 1) lo info.offset.reverse info.extent.reverse

/-- `info` is a hyperslab of the datasets of `m` that stands for the box `[a, b]`: its
offset and extent have one coordinate per dimension, fit in the dataset
(`offset[DIM-1-d] + extent[DIM-1-d] ≤ dims[d]`), and translate back to `[a, b]`. -/
structure IsSlab (m : HDFMetadata) (a b : List Int) (info : AddressInfoHDF5) : Prop where
  length_offset : info.offset.length = a.length
  length_extent : info.extent.length = a.length
  fits : ∀ d < a.length, info.offset.getD (a.length - 1 - d) 0 + info.extent.getD (a.length - 1 - d) 0 ≤
    m.dims.getD d 0
  lo_eq : slabLo m.lo info = a
  hi_eq : slabHi m.lo info = b

/-! ## The translation -/

/-- **The translation.** A box `[a, b]` inside the dataset translates: its offset and
extent, in dimension order, fit in the dataset's extent and translate back to the box. -/
theorem hyperslab_spec : ∀ {lo : List Int} {dims : List Nat} {a b : List Int},
    InBox lo (dsetHi lo dims) a → InBox lo (dsetHi lo dims) b → InBox a b b →
    ∃ O E Ds, hyperslab a b lo dims = some (O, E, Ds) ∧ O.length = a.length ∧
      E.length = a.length ∧ (∀ d, O.getD d 0 + E.getD d 0 ≤ dims.getD d 0) ∧
      List.zipWith (fun (l : Int) (o : Nat) => l + o) lo O = a ∧
      List.zipWith3 (fun (l : Int) (o e : Nat) => l + o + e - 1) lo O E = b
  | [], dims, a, b, ha, hb, _ => by
    obtain rfl : a = [] := List.length_eq_zero.1 ha.length_eq.1.symm
    obtain rfl : b = [] := List.length_eq_zero.1 hb.length_eq.1.symm
    exact ⟨[], [], [], rfl, rfl, rfl, fun d => by simp, rfl, rfl⟩
  | l :: ls, [], a, b, ha, _, _ => by
    have := ha.length_eq
    simp only [dsetHi, List.length_cons, List.length_nil] at this
    omega
  | l :: ls, D :: Ds, [], b, ha, _, _ => ha.elim
  | l :: ls, D :: Ds, x :: xs, [], _, hb, _ => hb.elim
  | l :: ls, D :: Ds, x :: xs, y :: ys, ha, hb, hab => by
    obtain ⟨hlx, hxD, ha⟩ := ha
    obtain ⟨hly, hyD, hb⟩ := hb
    obtain ⟨hxy, -, hab⟩ := hab
    obtain ⟨O, E, Ds', h, hO, hE, hfit, hlo, hhi⟩ := hyperslab_spec ha hb hab
    refine ⟨(x - l).toNat :: O, (y - x + 1).toNat :: E, D :: Ds', ?_, by simp [hO], by simp [hE],
      fun d => ?_, ?_, ?_⟩
    · rw [hyperslab, if_pos ⟨hlx, by omega⟩, h]
      rfl
    · cases d with
      | zero => simp only [List.getD_cons_zero]; omega
      | succ d => simpa only [List.getD_cons_succ] using hfit d
    · rw [List.zipWith_cons_cons, hlo, show l + ((x - l).toNat : Int) = x by omega]
    · rw [List.zipWith3, hhi, show l + ((x - l).toNat : Int) + ((y - x + 1).toNat : Int) - 1 = y by omega]

theorem getD_reverse {l : List Nat} {d : Nat} (hd : d < l.length) :
    l.reverse.getD (l.length - 1 - d) 0 = l.getD d 0 := by
  rw [List.getD_eq_getElem?_getD, List.getElem?_reverse (by omega),
    show l.length - 1 - (l.length - 1 - d) = d by omega, ← List.getD_eq_getElem?_getD]

/-- The hyperslab `step` reports, from the lists of `hyperslab`, is a hyperslab of the box. -/
theorem isSlab_of_hyperslab {m : HDFMetadata} {a b : List Int} {O E Ds : List Nat} {dsetId dtypeId : Nat}
    (hO : O.length = a.length) (hE : E.length = a.length) (hfit : ∀ d, O.getD d 0 + E.getD d 0 ≤ m.dims.getD d 0)
    (hlo : List.zipWith (fun (l : Int) (o : Nat) => l + o) m.lo O = a)
    (hhi : List.zipWith3 (fun (l : Int) (o e : Nat) => l + o + e - 1) m.lo O E = b) :
    IsSlab m a b ⟨dsetId, dtypeId, Ds.reverse, O.reverse, E.reverse⟩ where
  length_offset := by simp [hO]
  length_extent := by simp [hE]
  fits d hd := by
    have h₁ := getD_reverse (l := O) (by omega : d < O.length)
    have h₂ := getD_reverse (l := E) (by omega : d < E.length)
    rw [hO] at h₁
    rw [hE] at h₂
    simp only [h₁, h₂, hfit d]
  lo_eq := by simp only [slabLo, List.reverse_reverse, hlo]
  hi_eq := by simp only [slabHi, List.reverse_reverse, hhi]

namespace HDF5Iter

/-! ## One step -/

section Step

variable {h5tGetSize : Nat → Nat} {s : HDF5Iter}

/-- **The step.** From a point of `r`, with `r` inside the dataset and room for one element
of the field's datatype, a step gives out a run `[p, b]` of `r`, of at most `max_bytes`
bytes, as a hyperslab of the dataset that stands for `[p, b]`. -/
theorem step_spec {dsetId dtypeId maxBytes : Nat} (tentative : Bool)
    (hlo : InBox s.hdfMetadata.lo (dsetHi s.hdfMetadata.lo s.hdfMetadata.dims) s.rlo)
    (hhi : InBox s.hdfMetadata.lo (dsetHi s.hdfMetadata.lo s.hdfMetadata.dims) s.rhi)
    (hp : InBox s.rlo s.rhi s.p) (hdone : s.done = false) (htv : s.tentativeValid = false)
    (hds : s.dsetIds[s.fieldIdx]? = some dsetId) (hdt : s.dtypeIds[s.fieldIdx]? = some dtypeId)
    (hpos : 0 < h5tGetSize dtypeId) (hm : h5tGetSize dtypeId ≤ maxBytes) :
    ∃ b info, IsRun s.rlo s.rhi s.p b ∧ volume s.p b * h5tGetSize dtypeId ≤ maxBytes ∧
      IsSlab s.hdfMetadata s.p b info ∧
      s.step h5tGetSize maxBytes tentative =
        some (s.setNext b tentative, some info, volume s.p b * h5tGetSize dtypeId) := by
  have hmax : 0 < maxBytes / h5tGetSize dtypeId := Nat.div_pos hm hpos
  obtain ⟨b, hg, hrun, hv⟩ := growTarget_run (m := maxBytes / h5tGetSize dtypeId) hp 1 Nat.one_pos hmax
  obtain ⟨O, E, Ds, hslab, hO, hE, hfit, hslo, hshi⟩ :=
    hyperslab_spec (inBox_trans hlo hhi hp) (inBox_trans hlo hhi hrun.inBox.2) hrun.le.2
  refine ⟨b, ⟨dsetId, dtypeId, Ds.reverse, O.reverse, E.reverse⟩, hrun,
    (Nat.le_div_iff_mul_le hpos).1 (by omega), isSlab_of_hyperslab hO hE hfit hslo hshi, ?_⟩
  simp only [step, hdone, htv, hds, hdt, hg, hslab, Nat.pos_iff_ne_zero.1 hpos,
    Nat.pos_iff_ne_zero.1 hmax, Bool.false_or, Bool.false_eq_true, if_false]

theorem setNext_false (s : HDF5Iter) (b : List Int) :
    s.setNext b false =
      { s with nextP := (nextPoint true s.rlo s.rhi s.p b).1,
               nextIdx := s.fieldIdx + if (nextPoint true s.rlo s.rhi s.p b).2 then 1 else 0,
               p := (nextPoint true s.rlo s.rhi s.p b).1,
               fieldIdx := s.fieldIdx + if (nextPoint true s.rlo s.rhi s.p b).2 then 1 else 0 } :=
  rfl

end Step

/-- A step either gives out nothing and stays, or moves by `setNext`. -/
theorem step_cases {h5tGetSize : Nat → Nat} {s s' : HDF5Iter} {maxBytes : Nat} {t : Bool}
    {o : Option AddressInfoHDF5} {n : Nat} (h : s.step h5tGetSize maxBytes t = some (s', o, n)) :
    s' = s ∨ ∃ b, s' = s.setNext b t := by
  unfold step at h
  dsimp only at h
  split at h
  · cases h
  · split at h
    · split at h
      · cases h
      · split at h
        · cases h
          exact .inl rfl
        · split at h
          · cases h
          · split at h
            · cases h
            · cases h
              exact .inr ⟨_, rfl⟩
    · cases h

/-- A step changes neither the rectangle, nor the fields, nor the metadata. -/
theorem step_frame {h5tGetSize : Nat → Nat} {s s' : HDF5Iter} {maxBytes : Nat} {t : Bool}
    {o : Option AddressInfoHDF5} {n : Nat} (h : s.step h5tGetSize maxBytes t = some (s', o, n)) :
    s'.rlo = s.rlo ∧ s'.rhi = s.rhi ∧ s'.dsetIds = s.dsetIds ∧ s'.dtypeIds = s.dtypeIds ∧
      s'.hdfMetadata = s.hdfMetadata := by
  obtain rfl | ⟨b, rfl⟩ := step_cases h
  · exact ⟨rfl, rfl, rfl, rfl, rfl⟩
  · cases t <;> exact ⟨rfl, rfl, rfl, rfl, rfl⟩

/-! ## The whole run -/

/-- The points a hyperslab stands for, in the index space and in Fortran order. -/
def slabPoints (lo : List Int) (info : AddressInfoHDF5) : List (List Int) :=
  pointsOf (slabLo lo info) (slabHi lo info)

/-- The points of field `f` still to give out: from `p` on for the current field, all of
the rectangle's for a later one. -/
def restPoints (s : HDF5Iter) (f : Nat) : List (List Int) :=
  if f < s.fieldIdx then []
  else if f = s.fieldIdx then (pointsOf s.rlo s.rhi).drop (rank s.rlo s.rhi s.p)
  else pointsOf s.rlo s.rhi

/-- The elements still to give out, over all fields. -/
def measure (s : HDF5Iter) : Nat :=
  (s.dsetIds.length - s.fieldIdx) * volume s.rlo s.rhi - rank s.rlo s.rhi s.p

/-- What an iterator keeps between non-tentative steps: its rectangle lies in the dataset,
every field has a datatype of positive size, and its point is a point of the rectangle. -/
structure Good (h5tGetSize : Nat → Nat) (s : HDF5Iter) : Prop where
  lo_mem : InBox s.hdfMetadata.lo (dsetHi s.hdfMetadata.lo s.hdfMetadata.dims) s.rlo
  hi_mem : InBox s.hdfMetadata.lo (dsetHi s.hdfMetadata.lo s.hdfMetadata.dims) s.rhi
  length_types : s.dtypeIds.length = s.dsetIds.length
  size_pos : ∀ t ∈ s.dtypeIds, 0 < h5tGetSize t
  point : InBox s.rlo s.rhi s.p
  idx_le : s.fieldIdx ≤ s.dsetIds.length
  not_tentative : s.tentativeValid = false

theorem done_iff {s : HDF5Iter} : s.done = true ↔ s.fieldIdx = s.dsetIds.length := by
  simp [done]

section Run

variable {h5tGetSize : Nat → Nat} {s : HDF5Iter} {b : List Int}

theorem Good.idx_lt (hg : Good h5tGetSize s) (hd : s.done = false) : s.fieldIdx < s.dsetIds.length :=
  lt_of_le_of_ne hg.idx_le fun h => by simp [done, h] at hd

theorem Good.setNext (hg : Good h5tGetSize s) (hd : s.done = false) (hb : IsRun s.rlo s.rhi s.p b) :
    Good h5tGetSize (s.setNext b false) := by
  have hlt := hg.idx_lt hd
  obtain ⟨hc, hn⟩ := nextPoint_spec hb
  rw [setNext_false]
  refine ⟨hg.lo_mem, hg.hi_mem, hg.length_types, hg.size_pos, ?_, ?_, hg.not_tentative⟩
  · cases hcarry : (nextPoint true s.rlo s.rhi s.p b).2
    · exact (hn hcarry).1
    · rw [(hc hcarry).2]
      exact inBox_self_left hg.point
  · split <;> simp only <;> omega

/-- Each step lowers the measure by the number of elements it gives out. -/
theorem measure_setNext (hg : Good h5tGetSize s) (hd : s.done = false) (hb : IsRun s.rlo s.rhi s.p b) :
    (s.setNext b false).measure + volume s.p b = s.measure := by
  simp only [measure, setNext_false]
  exact measure_run_fields hb (hg.idx_lt hd)

/-- A step gives out the head of what is left of the current field. -/
theorem restPoints_setNext (hb : IsRun s.rlo s.rhi s.p b) (f : Nat) :
    s.restPoints f =
      (if f = s.fieldIdx then pointsOf s.p b else []) ++ (s.setNext b false).restPoints f := by
  simp only [restPoints, setNext_false]
  exact drop_rank_run_fields hb s.fieldIdx f

theorem Good.measure_pos (hg : Good h5tGetSize s) (hd : s.done = false) : 0 < s.measure := by
  have hlt := hg.idx_lt hd
  have hV := rank_lt_volume hg.point
  have : volume s.rlo s.rhi ≤ (s.dsetIds.length - s.fieldIdx) * volume s.rlo s.rhi :=
    Nat.le_mul_of_pos_left _ (by omega)
  rw [measure]
  omega

theorem run_succ_of_step {mb : Nat → Nat} {fuel : Nat} {s' : HDF5Iter} {info : AddressInfoHDF5}
    {n : Nat} (hd : s.done = false) (hs : s.step h5tGetSize (mb 0) false = some (s', some info, n)) :
    run h5tGetSize mb (fuel + 1) s =
      (run h5tGetSize (fun k => mb (k + 1)) fuel s').map
        fun r => ((s.fieldIdx, mb 0, info, n) :: r.1, r.2) := by
  simp [run, hd, hs]

theorem run_of_done {mb : Nat → Nat} {fuel : Nat} (hd : s.done = true) :
    run h5tGetSize mb fuel s = some ([], s) := by
  cases fuel <;> simp [run, hd]

/-- The datatypes of the fields do not change over a run. -/
theorem run_frame {mb : Nat → Nat} {fuel : Nat} {s' : HDF5Iter}
    {l : List (Nat × Nat × AddressInfoHDF5 × Nat)} (h : run h5tGetSize mb fuel s = some (l, s')) :
    s'.dtypeIds = s.dtypeIds := by
  induction fuel generalizing mb s l with
  | zero => cases h; rfl
  | succ fuel ih =>
    simp only [run] at h
    split at h
    · cases h; rfl
    · split at h
      · rename_i hstep
        obtain ⟨⟨l', s''⟩, hr, he⟩ := Option.map_eq_some'.1 h
        cases he
        exact (ih hr).trans (step_frame hstep).2.2.2.1
      · cases h

/-- What a run from `s` gives out: only `s`'s fields; each hyperslab non-empty, within the
bytes asked for, and a hyperslab of the dataset for a box of the rectangle; and for each
field exactly what is left of it, in order. -/
def Covers (s : HDF5Iter) (l : List (Nat × Nat × AddressInfoHDF5 × Nat)) : Prop :=
  (∀ x ∈ l, x.1 < s.dsetIds.length ∧ 0 < x.2.2.2 ∧ x.2.2.2 ≤ x.2.1 ∧
      ∃ a b, InBox s.rlo s.rhi a ∧ IsSlab s.hdfMetadata a b x.2.2.1) ∧
    ∀ f < s.dsetIds.length,
      ((l.filter fun x => x.1 = f).flatMap fun x => slabPoints s.hdfMetadata.lo x.2.2.1) = s.restPoints f

theorem restPoints_of_done (hd : s.done = true) {f : Nat} (hf : f < s.dsetIds.length) :
    s.restPoints f = [] := by
  rw [restPoints, if_pos (by rw [done_iff.1 hd]; exact hf)]

theorem covers_of_done (hd : s.done = true) : Covers s [] :=
  ⟨by simp, fun f hf => (restPoints_of_done hd hf).symm⟩

/-- A step, then a run that covers the rest, covers everything. -/
theorem covers_cons {info : AddressInfoHDF5} {k n : Nat} {l : List (Nat × Nat × AddressInfoHDF5 × Nat)}
    (hd : s.done = false) (hg : Good h5tGetSize s) (hb : IsRun s.rlo s.rhi s.p b)
    (hslab : IsSlab s.hdfMetadata s.p b info) (hn : 0 < n) (hk : n ≤ k)
    (hl : Covers (s.setNext b false) l) : Covers s ((s.fieldIdx, k, info, n) :: l) := by
  refine ⟨fun x hx => ?_, fun f hf => ?_⟩
  · rcases List.mem_cons.1 hx with rfl | hx
    · exact ⟨hg.idx_lt hd, hn, hk, s.p, b, hg.point, hslab⟩
    · exact hl.1 x hx
  · rw [restPoints_setNext hb f, ← hl.2 f hf, List.filter_cons]
    by_cases hfi : s.fieldIdx = f
    · subst hfi
      simp only [decide_True, if_true, List.flatMap_cons, slabPoints, hslab.lo_eq, hslab.hi_eq]
      rfl
    · simp only [hfi, decide_False, if_false, Ne.symm hfi, List.nil_append]
      rfl

/-- **The run.** From a `Good` state, a run with enough fuel reaches `done()` and covers
what is left of every field, provided each `max_bytes` holds one element of the field
current at its step. -/
theorem run_covers (fuel : Nat) {mb : Nat → Nat} (hg : Good h5tGetSize s) (hfuel : s.measure ≤ fuel)
    (hmb : ∀ k l s', run h5tGetSize mb k s = some (l, s') → s'.done = false →
      ∀ t, s'.dtypeIds[s'.fieldIdx]? = some t → h5tGetSize t ≤ mb k) :
    ∃ l s', run h5tGetSize mb fuel s = some (l, s') ∧ s'.done = true ∧ Covers s l := by
  induction fuel generalizing mb s with
  | zero =>
    have hd : s.done = true := by
      by_contra h
      have := hg.measure_pos (by simpa using h)
      omega
    exact ⟨[], s, run_of_done hd, hd, covers_of_done hd⟩
  | succ fuel ih =>
    cases hd : s.done
    case true => exact ⟨[], s, run_of_done hd, hd, covers_of_done hd⟩
    case false =>
      have hlt := hg.idx_lt hd
      obtain ⟨dsetId, hds⟩ : ∃ d, s.dsetIds[s.fieldIdx]? = some d :=
        ⟨_, List.getElem?_eq_getElem hlt⟩
      obtain ⟨t, hdt⟩ : ∃ t, s.dtypeIds[s.fieldIdx]? = some t :=
        ⟨_, List.getElem?_eq_getElem (by rw [hg.length_types]; exact hlt)⟩
      have hpos := hg.size_pos t (List.getElem?_mem hdt)
      obtain ⟨b, info, hb, hbytes, hslab, hstep⟩ := step_spec false hg.lo_mem hg.hi_mem hg.point hd
        hg.not_tentative hds hdt hpos (hmb 0 [] s rfl hd t hdt)
      have hμ := measure_setNext hg hd hb
      have hvol := hb.volume_pos
      obtain ⟨l, s', hrun, hdone, hcov⟩ := ih (hg.setNext hd hb) (by omega)
        fun k l s' h => hmb (k + 1) _ s' (by rw [run_succ_of_step hd hstep, h]; rfl)
      exact ⟨_, s', by rw [run_succ_of_step hd hstep, hrun]; rfl, hdone,
        covers_cons hd hg hb hslab (Nat.mul_pos hvol hpos) hbytes hcov⟩

end Run

/-! ## The constructed iterator -/

theorem length_of_mapM_eq_some {α β : Type} {f : α → Option β} :
    ∀ {l : List α} {l' : List β}, l.mapM f = some l' → l'.length = l.length
  | [], _, h => by cases h; rfl
  | x :: xs, l', h => by
    simp only [List.mapM_cons, Option.bind_eq_bind, Option.bind_eq_some, Option.pure_def,
      Option.some.injEq] at h
    obtain ⟨_, -, ys, hys, rfl⟩ := h
    exact congrArg (· + 1) (length_of_mapM_eq_some hys)

/-- The constructor starts at `r.lo` on the first field, with one dataset and one datatype
per field. -/
theorem new_spec {rlo rhi : List Int} {m : HDFMetadata} {fields : List Nat} {s0 : HDF5Iter}
    (h0 : new rlo rhi m fields = some s0) :
    s0.rlo = rlo ∧ s0.rhi = rhi ∧ s0.p = rlo ∧ s0.hdfMetadata = m ∧ s0.fieldIdx = 0 ∧
      s0.tentativeValid = false ∧ s0.dsetIds.length = fields.length ∧
      s0.dtypeIds.length = fields.length := by
  unfold new at h0
  split_ifs at h0
  simp only [Option.bind_eq_bind, Option.bind_eq_some, Option.pure_def, Option.some.injEq] at h0
  obtain ⟨ids, hids, rfl⟩ := h0
  have hlen := length_of_mapM_eq_some hids
  exact ⟨rfl, rfl, rfl, rfl, rfl, rfl, by simp [hlen], by simp [hlen]⟩

end HDF5Iter

/-- **Every point of every field once.** Non-tentative steps of an HDF5 iterator, from its
construction over a non-empty rectangle inside the datasets, with datatypes of positive
size and under any `max_bytes` sequence that leaves room for one element of the current
field, reach `done()`; every hyperslab holds `0 < count * elmt_size ≤ max_bytes` bytes and
has `offset[DIM-1-d] + extent[DIM-1-d] ≤ dims[d]` in every dimension `d`; and the
hyperslabs of each field, translated back to the index space, list the rectangle's points
in Fortran order, each once. -/
theorem hdf5_chunks_cover {h5tGetSize : Nat → Nat} {mb : Nat → Nat} {rlo rhi : List Int}
    {m : HDFMetadata} {fields : List Nat} {s0 : HDF5Iter} (hr : 0 < volume rlo rhi)
    (hlo : InBox m.lo (dsetHi m.lo m.dims) rlo) (hhi : InBox m.lo (dsetHi m.lo m.dims) rhi)
    (h0 : HDF5Iter.new rlo rhi m fields = some s0) (hsize : ∀ t ∈ s0.dtypeIds, 0 < h5tGetSize t)
    (hmb : ∀ k l s, HDF5Iter.run h5tGetSize mb k s0 = some (l, s) → s.done = false →
      ∀ t, s.dtypeIds[s.fieldIdx]? = some t → h5tGetSize t ≤ mb k) :
    ∃ n l s, HDF5Iter.run h5tGetSize mb n s0 = some (l, s) ∧ s.done = true ∧
      (∀ x ∈ l, x.1 < fields.length ∧ 0 < x.2.2.2 ∧ x.2.2.2 ≤ x.2.1 ∧
        ∀ d < rlo.length, x.2.2.1.offset.getD (rlo.length - 1 - d) 0 +
          x.2.2.1.extent.getD (rlo.length - 1 - d) 0 ≤ m.dims.getD d 0) ∧
      ∀ f < fields.length,
        ((l.filter fun x => x.1 = f).flatMap fun x => HDF5Iter.slabPoints m.lo x.2.2.1) = pointsOf rlo rhi ∧
        ((l.filter fun x => x.1 = f).flatMap fun x => HDF5Iter.slabPoints m.lo x.2.2.1).Nodup := by
  obtain ⟨hrlo, hrhi, hp, hm, hidx, htv, hds, hdt⟩ := HDF5Iter.new_spec h0
  have hg : HDF5Iter.Good h5tGetSize s0 :=
    ⟨by rw [hm, hrlo]; exact hlo, by rw [hm, hrhi]; exact hhi, by rw [hds, hdt], hsize,
      by rw [hp, hrlo, hrhi]; exact inBox_lo_of_volume_pos hr, by omega, htv⟩
  obtain ⟨l, s, hrun, hdone, hcov⟩ := HDF5Iter.run_covers _ hg le_rfl hmb
  refine ⟨_, l, s, hrun, hdone, fun x hx => ?_, fun f hf => ?_⟩
  · obtain ⟨hf, hn, hk, a, b, ha, hslab⟩ := hcov.1 x hx
    have hlen : a.length = rlo.length := by rw [← hrlo]; exact ha.length_eq.1.symm
    refine ⟨hds ▸ hf, hn, hk, fun d hd => ?_⟩
    have := hslab.fits d (by omega)
    rwa [hlen, hm] at this
  · have hrest : s0.restPoints f = pointsOf rlo rhi := by
      simp only [HDF5Iter.restPoints, hidx, hp, hrlo, hrhi, Nat.not_lt_zero, if_false, rank_lo,
        List.drop_zero]
      split_ifs <;> rfl
    have h := hcov.2 f (by omega)
    rw [hrest, hm] at h
    exact ⟨h, h ▸ nodup_pointsOf rlo rhi⟩

/-- One field over the points `[0, 0]‥[1, 2]` of a `2 × 3` dataset, with a datatype of `4`
bytes and `8` bytes a step: the run reaches `done()`. -/
theorem hdf5_chunks_cover_rows :
    HDF5Iter.new [0, 0] [1, 2] ⟨2, [0, 0], [2, 3], [(5, 100)], [(5, 200)]⟩ [5] =
        some ⟨[0, 0], [1, 2], [0, 0], [0, 0], [100], [200],
          ⟨2, [0, 0], [2, 3], [(5, 100)], [(5, 200)]⟩, 0, 0, false⟩ ∧
      ∃ n l s, HDF5Iter.run (fun _ => 4) (fun _ => 8) n
        ⟨[0, 0], [1, 2], [0, 0], [0, 0], [100], [200],
          ⟨2, [0, 0], [2, 3], [(5, 100)], [(5, 200)]⟩, 0, 0, false⟩ = some (l, s) ∧ s.done = true := by
  obtain ⟨n, l, s, hrun, hdone, -⟩ := @hdf5_chunks_cover (fun _ => 4) (fun _ => 8) [0, 0] [1, 2]
    ⟨2, [0, 0], [2, 3], [(5, 100)], [(5, 200)]⟩ [5] _ (by decide) (by decide) (by decide) rfl
    (fun _ _ => show 0 < 4 by decide) fun _ _ _ _ _ _ _ => show 4 ≤ 8 by decide
  exact ⟨rfl, n, l, s, hrun, hdone⟩

end Realm.Transfer
