import Mathlib.Algebra.BigOperators.Group.List
import Realm.Transfer.RectIter

/-!
# Runs of the rectangle iterator

A caller drives a `TransferIteratorRect` with non-tentative steps until `done()`
(`TransferIterator.run`). Between steps the iterator keeps `Good`: its rectangle lies in the
instance's bounds, every field has a positive size, and its point is a point of the
rectangle. A step keeps it (`Good.setNext`), gives out the run from the current point,
and lowers `(fields left) · |r| - rank p` by the run's length (`measure_setNext`), so
that many steps reach `done()`.

What is left to give out of field `f` is the rectangle's points from `p` on for the
current field, all of them for later ones (`restPoints`); a step gives out the head of it
(`restPoints_setNext`). Chained over the run (`run_covers`): the chunks of each field are,
byte for byte, the field's bytes over the rectangle's points in Fortran order, and no byte
twice (`rect_chunks_cover`).
-/

namespace Realm.Transfer

namespace RectIter

/-- The points of field `f` still to give out: from `p` on for the current field, all of
the rectangle's for a later one. -/
def restPoints (s : RectIter) (f : Nat) : List (List Int) :=
  if f < s.fieldIdx then []
  else if f = s.fieldIdx then (pointsOf s.rlo s.rhi).drop (rank s.rlo s.rhi s.p)
  else pointsOf s.rlo s.rhi

/-- The elements still to give out, over all fields. -/
def measure (s : RectIter) : Nat :=
  (s.fieldOffsets.length - s.fieldIdx) * volume s.rlo s.rhi - rank s.rlo s.rhi s.p

/-- What an iterator over the instance `m` keeps between non-tentative steps. -/
structure Good (m : InstanceMeta DenseFortran) (s : RectIter) : Prop where
  inst : s.inst = some m
  lo_mem : InBox m.linearization.lo m.linearization.hi s.rlo
  hi_mem : InBox m.linearization.lo m.linearization.hi s.rhi
  block_pos : 0 < m.blockSize
  length_sizes : s.fieldSizes.length = s.fieldOffsets.length
  size_pos : ∀ x ∈ s.fieldSizes, 0 < x
  point : InBox s.rlo s.rhi s.p
  idx_le : s.fieldIdx ≤ s.fieldOffsets.length
  not_tentative : s.tentativeValid = false

theorem setNext_false (s : RectIter) (b : List Int) :
    s.setNext b false =
      { s with nextP := (nextPoint true s.rlo s.rhi s.p b).1,
               nextIdx := s.fieldIdx + if (nextPoint true s.rlo s.rhi s.p b).2 then 1 else 0,
               p := (nextPoint true s.rlo s.rhi s.p b).1,
               fieldIdx := s.fieldIdx + if (nextPoint true s.rlo s.rhi s.p b).2 then 1 else 0 } :=
  rfl

theorem done_iff {s : RectIter} : s.done = true ↔ s.fieldIdx = s.fieldOffsets.length := by
  simp [done]

/-! ## One step keeps the invariant and gives out the head of what is left -/

section Step

variable {m : InstanceMeta DenseFortran} {s : RectIter} {b : List Int}

theorem Good.idx_lt (hg : Good m s) (hd : s.done = false) : s.fieldIdx < s.fieldOffsets.length :=
  lt_of_le_of_ne hg.idx_le fun h => by simp [done, h] at hd

theorem Good.setNext (hg : Good m s) (hd : s.done = false) (hb : IsRun s.rlo s.rhi s.p b) :
    Good m (s.setNext b false) := by
  have hlt := hg.idx_lt hd
  obtain ⟨hc, hn⟩ := nextPoint_spec hb
  rw [setNext_false]
  refine ⟨hg.inst, hg.lo_mem, hg.hi_mem, hg.block_pos, hg.length_sizes, hg.size_pos, ?_, ?_,
    hg.not_tentative⟩
  · cases hcarry : (nextPoint true s.rlo s.rhi s.p b).2
    · exact (hn hcarry).1
    · rw [(hc hcarry).2]
      exact inBox_self_left hg.point
  · split <;> simp only <;> omega

/-- Each step lowers the measure by the number of elements it gives out. -/
theorem measure_setNext (hg : Good m s) (hd : s.done = false) (hb : IsRun s.rlo s.rhi s.p b) :
    (s.setNext b false).measure + volume s.p b = s.measure := by
  simp only [measure, setNext_false]
  exact measure_run_fields hb (hg.idx_lt hd)

/-- A step gives out the head of what is left of the current field. -/
theorem restPoints_setNext (hb : IsRun s.rlo s.rhi s.p b) (f : Nat) :
    s.restPoints f =
      (if f = s.fieldIdx then pointsOf s.p b else []) ++ (s.setNext b false).restPoints f := by
  simp only [restPoints, setNext_false]
  exact drop_rank_run_fields hb s.fieldIdx f

end Step

/-! ## The whole run -/

section Run

variable {m : InstanceMeta DenseFortran}

theorem run_frame {mb : Nat → Nat} {fuel : Nat} {s s' : RectIter}
    {l : List (Nat × Nat × AddressInfo)} (h : iterator.run fieldIdx mb fuel s = some (l, s')) :
    s'.fieldSizes = s.fieldSizes :=
  TransferIterator.run_invariant (fun t => t.fieldSizes = s.fieldSizes)
    (fun hs hstep => (step_frame hstep).2.2.2.2.trans hs) rfl h

theorem restPoints_of_done {s : RectIter} (hd : s.done = true) {f : Nat}
    (hf : f < s.fieldOffsets.length) : s.restPoints f = [] := by
  rw [restPoints, if_pos (by rw [done_iff.1 hd]; exact hf)]

theorem Good.measure_pos {s : RectIter} (hg : Good m s) (hd : s.done = false) : 0 < s.measure := by
  have hlt := hg.idx_lt hd
  have hV := rank_lt_volume hg.point
  have : volume s.rlo s.rhi ≤ (s.fieldOffsets.length - s.fieldIdx) * volume s.rlo s.rhi :=
    Nat.le_mul_of_pos_left _ (by omega)
  rw [measure]
  omega

/-- What a run from `s` gives out: only `s`'s fields, each chunk non-empty and within the
bytes asked for, and for each field exactly the bytes of what is left of it. -/
def Covers (m : InstanceMeta DenseFortran) (s : RectIter) (l : List (Nat × Nat × AddressInfo)) :
    Prop :=
  (∀ x ∈ l, x.1 < s.fieldOffsets.length ∧ 0 < x.2.2.bytesPerChunk ∧ x.2.2.bytesPerChunk ≤ x.2.1) ∧
    ∀ f fo fs, s.fieldOffsets[f]? = some fo → s.fieldSizes[f]? = some fs →
      fieldChunkBytes l f = fieldBytes m.allocOffset m.blockSize m.elmtSize fo fs
        ((s.restPoints f).map (rank m.linearization.lo m.linearization.hi))

theorem covers_of_done {s : RectIter} (hd : s.done = true) : Covers m s [] := by
  refine ⟨by simp, fun f fo fs hfo _ => ?_⟩
  rw [restPoints_of_done hd (List.getElem?_eq_some_iff.1 hfo).1]
  rfl

/-- A step, then a run that covers the rest, covers everything. -/
theorem covers_cons {s : RectIter} {b : List Int} {fs fo k : Nat} {l : List (Nat × Nat × AddressInfo)}
    (hd : s.done = false) (hg : Good m s) (hb : IsRun s.rlo s.rhi s.p b)
    (hbR : IsRun m.linearization.lo m.linearization.hi s.p b)
    (hblk : rank m.linearization.lo m.linearization.hi s.p % m.blockSize + volume s.p b ≤ m.blockSize)
    (hfs : s.fieldSizes[s.fieldIdx]? = some fs) (hfo : s.fieldOffsets[s.fieldIdx]? = some fo)
    (hk : volume s.p b * fs ≤ k) (hl : Covers m (s.setNext b false) l) :
    Covers m s ((s.fieldIdx, k, AddressInfo.line (elemBase m.allocOffset m.blockSize m.elmtSize fo fs
      (rank m.linearization.lo m.linearization.hi s.p)) (volume s.p b * fs)) :: l) := by
  have hpos := hg.size_pos fs (List.getElem?_mem hfs)
  refine ⟨fun x hx => ?_, fun f fo' fs' hfo' hfs' => ?_⟩
  · rcases List.mem_cons.1 hx with rfl | hx
    · exact ⟨hg.idx_lt hd, Nat.mul_pos hb.volume_pos hpos, hk⟩
    · exact hl.1 x hx
  · rw [fieldChunkBytes_cons, hl.2 f fo' fs' hfo' hfs', restPoints_setNext hb f]
    by_cases hf : s.fieldIdx = f
    · subst hf
      obtain rfl := Option.some.inj (hfo.symm.trans hfo')
      obtain rfl := Option.some.inj (hfs.symm.trans hfs')
      rw [if_pos rfl, if_pos rfl, List.map_append, fieldBytes_append, map_rank_run hbR,
        ← byteRange_block hblk]
      rfl
    · rw [if_neg hf, if_neg (Ne.symm hf)]
      rfl

/-- **The run.** From a `Good` state, a run with enough fuel reaches `done()` and covers
what is left of every field, provided each `max_bytes` holds one element of the field
current at its step. -/
theorem run_covers (fuel : Nat) {mb : Nat → Nat} {s : RectIter} (hg : Good m s)
    (hfuel : s.measure ≤ fuel)
    (hmb : ∀ k l s', iterator.run fieldIdx mb k s = some (l, s') → s'.done = false →
      ∀ fs, s'.fieldSizes[s'.fieldIdx]? = some fs → fs ≤ mb k) :
    ∃ l s', iterator.run fieldIdx mb fuel s = some (l, s') ∧ s'.done = true ∧ Covers m s l := by
  induction fuel generalizing mb s with
  | zero =>
    have hd : s.done = true := by
      by_contra h
      have := hg.measure_pos (by simpa using h)
      omega
    exact ⟨[], s, TransferIterator.run_of_done hd, hd, covers_of_done hd⟩
  | succ fuel ih =>
    cases hd : s.done
    case true => exact ⟨[], s, TransferIterator.run_of_done hd, hd, covers_of_done hd⟩
    case false =>
      have hlt := hg.idx_lt hd
      obtain ⟨fs, hfs⟩ : ∃ fs, s.fieldSizes[s.fieldIdx]? = some fs :=
        ⟨_, List.getElem?_eq_getElem (by rw [hg.length_sizes]; exact hlt)⟩
      obtain ⟨fo, hfo⟩ : ∃ fo, s.fieldOffsets[s.fieldIdx]? = some fo :=
        ⟨_, List.getElem?_eq_getElem hlt⟩
      obtain ⟨b, hb, hbR, hblk, hbytes, hstep⟩ := step_spec false hg.inst hg.lo_mem hg.hi_mem
        hg.block_pos hg.point hd hg.not_tentative hfs hfo (hg.size_pos fs (List.getElem?_mem hfs))
        (hmb 0 [] s rfl hd fs hfs)
      have hμ := measure_setNext hg hd hb
      have hvol := hb.volume_pos
      obtain ⟨l, s', hrun, hdone, hcov⟩ := ih (hg.setNext hd hb) (by omega)
        fun k l s' h => hmb (k + 1) _ s' (by rw [TransferIterator.run_succ_of_step hd hstep, h]; rfl)
      exact ⟨_, s', by rw [TransferIterator.run_succ_of_step hd hstep, hrun]; rfl, hdone,
        covers_cons hd hg hb hbR hblk hfs hfo hbytes hcov⟩

end Run

end RectIter

/-! ## The constructed iterator -/

theorem fieldOffset_add_le {sizes : List Nat} {j sz : Nat} (hsz : sizes[j]? = some sz) :
    fieldOffset sizes j + sz ≤ sizes.sum := by
  obtain ⟨hj, rfl⟩ := List.getElem?_eq_some_iff.1 hsz
  have := List.sum_take_add_sum_drop sizes (j + 1)
  rw [List.sum_take_succ _ _ hj] at this
  rw [fieldOffset]
  omega

/-- The bytes of a field over a rectangle inside the instance's bounds are distinct. -/
theorem nodup_rectBytes {L H rlo rhi : List Int} (hlo : InBox L H rlo) (hhi : InBox L H rhi)
    {alloc : Int} {B E off size : Nat} (hB : 0 < B) (hfit : off + size ≤ E) :
    (fieldBytes alloc B E off size ((pointsOf rlo rhi).map (rank L H))).Nodup :=
  nodup_fieldBytes ((nodup_pointsOf rlo rhi).map_on fun _ hx _ hy he =>
    rank_inj (inBox_trans hlo hhi (inBox_of_mem_pointsOf hx))
      (inBox_trans hlo hhi (inBox_of_mem_pointsOf hy)) he) hB hfit

section New

variable {rlo rhi : List Int} {m : InstanceMeta DenseFortran} {sizes js : List Nat}

/-- The constructor, for a non-empty rectangle and fields requested by their offsets. -/
theorem RectIter.new_fieldOffset (hr : 0 < volume rlo rhi) (hsizes : m.fieldSizes = sizes)
    (hpos : ∀ x ∈ sizes, 0 < x) (hjs : ∀ j ∈ js, j < sizes.length) (hne : js ≠ []) :
    RectIter.new rlo rhi m (js.map (fieldOffset sizes)) =
      some ⟨rlo, rhi, rlo, rlo, some m, js.map (fieldOffset sizes),
        js.map fun j => sizes.getD j 0, 0, 0, false⟩ := by
  rw [RectIter.new, if_neg (by simp [Nat.pos_iff_ne_zero.1 hr, hne]), hsizes,
    findFieldSizes_fieldOffset hpos hjs]
  rfl

/-- **Every (field, point) pair once.** Non-tentative steps of a rectangle iterator, from
its construction and under any `max_bytes` sequence that leaves room for one element of
the current field, reach `done()`; every chunk is non-empty and within its `max_bytes`;
and the chunks of each requested field are, byte for byte and in order, that field's
bytes over the rectangle's points in Fortran order, with no byte twice. -/
theorem rect_chunks_cover {mb : Nat → Nat} (hr : 0 < volume rlo rhi)
    (hlo : InBox m.linearization.lo m.linearization.hi rlo)
    (hhi : InBox m.linearization.lo m.linearization.hi rhi) (hB : 0 < m.blockSize)
    (hsizes : m.fieldSizes = sizes) (hpos : ∀ x ∈ sizes, 0 < x) (hE : m.elmtSize = sizes.sum)
    (hjs : ∀ j ∈ js, j < sizes.length) (hne : js ≠ [])
    (hmb : ∀ s0, RectIter.new rlo rhi m (js.map (fieldOffset sizes)) = some s0 →
      ∀ k l s, RectIter.iterator.run RectIter.fieldIdx mb k s0 = some (l, s) → s.done = false →
        ∀ fs, s.fieldSizes[s.fieldIdx]? = some fs → fs ≤ mb k) :
    ∃ s0 n l s, RectIter.new rlo rhi m (js.map (fieldOffset sizes)) = some s0 ∧
      RectIter.iterator.run RectIter.fieldIdx mb n s0 = some (l, s) ∧ s.done = true ∧
      (∀ x ∈ l, x.1 < js.length ∧ 0 < x.2.2.bytesPerChunk ∧ x.2.2.bytesPerChunk ≤ x.2.1) ∧
      ∀ f j sz, js[f]? = some j → sizes[j]? = some sz →
        fieldChunkBytes l f = fieldBytes m.allocOffset m.blockSize m.elmtSize
            (fieldOffset sizes j) sz ((pointsOf rlo rhi).map (rank m.linearization.lo m.linearization.hi)) ∧
          (fieldChunkBytes l f).Nodup := by
  have hnew := RectIter.new_fieldOffset hr hsizes hpos hjs hne
  have hg : RectIter.Good m ⟨rlo, rhi, rlo, rlo, some m, js.map (fieldOffset sizes),
      js.map fun j => sizes.getD j 0, 0, 0, false⟩ := by
    refine ⟨rfl, hlo, hhi, hB, by simp, fun x hx => ?_, inBox_lo_of_volume_pos hr, Nat.zero_le _, rfl⟩
    obtain ⟨j, hj, rfl⟩ := List.mem_map.1 hx
    rw [List.getD_eq_getElem?_getD, List.getElem?_eq_getElem (hjs j hj)]
    exact hpos _ (List.getElem_mem _)
  obtain ⟨l, s, hrun, hdone, hcov⟩ :=
    RectIter.run_covers (js.length * volume rlo rhi) hg (by simp [RectIter.measure]) (hmb _ hnew)
  refine ⟨_, _, l, s, hnew, hrun, hdone, fun x hx => by simpa using hcov.1 x hx,
    fun f j sz hj hsz => ?_⟩
  have hfo : (js.map (fieldOffset sizes))[f]? = some (fieldOffset sizes j) := by simp [hj]
  have hfs : (js.map fun j => sizes.getD j 0)[f]? = some sz := by
    simp [hj, List.getD_eq_getElem?_getD, hsz]
  rw [hcov.2 f _ _ hfo hfs]
  have hrest : RectIter.restPoints ⟨rlo, rhi, rlo, rlo, some m, js.map (fieldOffset sizes),
      js.map fun j => sizes.getD j 0, 0, 0, false⟩ f = pointsOf rlo rhi := by
    simp only [RectIter.restPoints, Nat.not_lt_zero, if_false, rank_lo, List.drop_zero]
    split_ifs <;> rfl
  rw [hrest]
  exact ⟨rfl, nodup_rectBytes hlo hhi hB (hE ▸ fieldOffset_add_le hsz)⟩

/-- Two fields of sizes 1 and 2 in blocks of two elements, over the points `0‥3`, with
4 bytes a step. -/
theorem rect_chunks_cover_blocks :
    0 < volume [0] [3] ∧ ∃ s0 n l s,
      RectIter.new [0] [3] ⟨1, ⟨[0], [3]⟩, 0, 2, 3, [1, 2]⟩ ([0, 1].map (fieldOffset [1, 2])) =
        some s0 ∧ RectIter.iterator.run RectIter.fieldIdx (fun _ => 4) n s0 = some (l, s) ∧
          s.done = true :=
  ⟨by decide, (@rect_chunks_cover [0] [3] ⟨1, ⟨[0], [3]⟩, 0, 2, 3, [1, 2]⟩ [1, 2] [0, 1]
    (fun _ => 4) (by decide) (by decide) (by decide)
    (by decide) rfl (by decide) rfl (by decide) (by decide)
    fun s0 h0 k l s hrun _ fs hfs => by
      have hs0 := Option.some.inj (h0.symm.trans (RectIter.new_fieldOffset (by decide) rfl
        (by decide) (by decide) (by decide)))
      have hmem := List.getElem?_mem hfs
      rw [RectIter.run_frame hrun, hs0] at hmem
      simp at hmem
      show fs ≤ 4
      omega).elim fun s0 h => h.elim fun n h => h.elim fun l h => h.elim fun s h =>
        ⟨s0, n, l, s, h.1, h.2.1, h.2.2.1⟩⟩

end New

end Realm.Transfer
