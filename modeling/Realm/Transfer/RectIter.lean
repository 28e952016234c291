import Realm.Transfer.FortranOrder
import Realm.Transfer.Iterator

/-!
# `TransferIteratorRect<DIM>`

The iterator over a rectangle `r = [rlo, rhi]` of an instance whose linearization is the
dense Fortran mapping of its bounds `[Rlo, Rhi]` (`transfer/transfer.cc`). Each `step`
gives out one chunk of the current field, from the current point `p`:

1. the growth loop takes whole dimensions while they fit in `max_bytes`, and stops after
   the first dimension it takes only partly or from a point other than its start
   (`growTarget`);
2. `image_dense_subrect` keeps the longest Fortran-order prefix of that box that is
   contiguous in the instance (`denseHi`; the function is not in the sources and is
   modelled from the spec);
3. a box that straddles a block boundary is shrunk to the part in its first block
   (`blockShrink`, `shrinkRest`);
4. the carry loop moves `p` after the chunk, or to the next field when the carry runs out
   (`nextPoint`).

Each stage yields a run of the Fortran order from `p` (`growTarget_run`, `denseHi_run`,
`blockShrink_run`), so a chunk is the slice of the rectangle's points from `p`
(`Realm.Transfer.FortranOrder`), and its bytes are the bytes of those points' elements.
-/

namespace Realm.Transfer

/-- The linearization of a rectangle instance: the dense Fortran mapping of its bounds. -/
structure DenseFortran where
  lo : List Int
  hi : List Int
  deriving DecidableEq, Repr

/-- The state of a `TransferIteratorRect<DIM>`. `inst` is `inst_impl`, `none` for a null
pointer; `mapping` is its linearization. -/
structure RectIter where
  rlo : List Int
  rhi : List Int
  p : List Int
  nextP : List Int
  inst : Option (InstanceMeta DenseFortran)
  fieldOffsets : List Nat
  fieldSizes : List Nat
  fieldIdx : Nat
  nextIdx : Nat
  tentativeValid : Bool
  deriving DecidableEq, Repr

/-- The growth loop of `step`: the high corner of the largest box from `p` to try, `count`
elements so far; `grow` turns false after a dimension taken partly or from a point other
than its start. `none` when the assertion `actlen >= 1` fails. -/
def growTarget (maxElems : Nat) : Bool → Nat → List Int → List Int → List Int → Option (List Int)
  | grow, count, x :: ps, l :: ls, h :: hs =>
    if grow then
      if count * (h - x + 1).toNat ≤ maxElems then
        (growTarget maxElems (decide (x = l)) (count * (h - x + 1).toNat) ps ls hs).map (h :: ·)
      else if 1 ≤ maxElems / count then
        (growTarget maxElems false (count * (maxElems / count)) ps ls hs).map
          ((x + ((maxElems / count : Nat) : Int) - 1) :: ·)
      else none
    else (growTarget maxElems false count ps ls hs).map (x :: ·)
  | _, _, _, _, _ => some []

/-- Modelled from the spec: `Mapping::image_dense_subrect` of the dense Fortran mapping of
`[Rlo, Rhi]`, on the box `[lo, hi]`: the high corner of the longest Fortran-order prefix
of the box that is contiguous in the mapping. Dimensions are kept whole while they span
the instance; the next one is kept as requested, and later ones shrink to `lo`. -/
def denseHi : List Int → List Int → List Int → List Int → List Int
  | L :: Ls, H :: Hs, x :: xs, y :: ys =>
    if x = L ∧ y = H then y :: denseHi Ls Hs xs ys else y :: xs
  | _, _, _, _ => []

/-- The block-boundary loop over the dimensions after the first: `count` elements so far,
at most `maxLen`. Degenerate dimensions are skipped; the first dimension that does not
fit is cut to fit, and the ones after it collapse to `lo`. `none` when the assertion
`new_len > 0 && new_len < dim_len` fails. -/
def shrinkRest (maxLen : Nat) : Nat → List Int → List Int → Option (List Int × Nat)
  | count, x :: xs, y :: ys =>
    if x = y then (shrinkRest maxLen count xs ys).map fun r => (y :: r.1, r.2)
    else if count * (y - x + 1).toNat ≤ maxLen then
      (shrinkRest maxLen (count * (y - x + 1).toNat) xs ys).map fun r => (y :: r.1, r.2)
    else if 0 < maxLen / count ∧ maxLen / count < (y - x + 1).toNat then
      some ((x + ((maxLen / count : Nat) : Int) - 1) :: xs, count * (maxLen / count))
    else none
  | count, _, _ => some ([], count)

/-- The block handling of `step`, for the box `[lo, hi]` of `count` elements whose image
runs from `imLo` to `imHi`: unless the box is in one block, keep the part in the block of
`imLo`. Gives the box's new high corner and `act_count`. -/
def blockShrink (B imLo imHi : Nat) (lo hi : List Int) (count : Nat) : Option (List Int × Nat) :=
  if imHi < B ∨ imLo / B = imHi / B then some (hi, count)
  else
    match lo, hi with
    | x :: xs, y :: ys =>
      if B - imLo % B < (y - x + 1).toNat then
        some ((x + ((B - imLo % B : Nat) : Int) - 1) :: xs, B - imLo % B)
      else (shrinkRest (B - imLo % B) (y - x + 1).toNat xs ys).map fun r => (y :: r.1, r.2)
    | _, _ => none

namespace RectIter

/-- The constructor `TransferIteratorRect(r, inst, fields)`, given `inst`'s
`RegionInstanceImpl`: an empty rectangle or field list keeps no instance and no fields, so
that `done()` holds at once. `next_p` and `next_idx` are left unset by the source; they
are `lo` and `0` here, and nothing reads them before a step sets them. -/
def new (rlo rhi : List Int) (inst : InstanceMeta DenseFortran) (fields : List Nat) :
    Option RectIter :=
  if volume rlo rhi = 0 ∨ fields = [] then some ⟨rlo, rhi, rlo, rlo, none, [], [], 0, 0, false⟩
  else (findFieldSizes inst.fieldSizes fields).map fun sizes =>
    ⟨rlo, rhi, rlo, rlo, some inst, fields, sizes, 0, 0, false⟩

/-- The end of `step`, after the chunk `[p, b]`: `next_p` is the point after it and
`next_idx` the next field when the carry ran out; a tentative step only records them,
any other step moves there. -/
def setNext (s : RectIter) (b : List Int) (tentative : Bool) : RectIter :=
  let n := nextPoint true s.rlo s.rhi s.p b
  let ni := s.fieldIdx + if n.2 then 1 else 0
  if tentative then { s with nextP := n.1, nextIdx := ni, tentativeValid := true }
  else { s with nextP := n.1, nextIdx := ni, p := n.1, fieldIdx := ni }

/-- `done()`. -/
def done (s : RectIter) : Bool :=
  s.fieldIdx == s.fieldOffsets.length

/-- The chunk `step` gives out from `p`, before the iterator moves: `none` when an
assertion fails or a pointer it uses is null, `some none` when `max_bytes` holds less than
one element of the field, else the chunk's high corner, its `AddressInfo` and its bytes. -/
def chunk (s : RectIter) (maxBytes : Nat) : Option (Option (List Int × AddressInfo × Nat)) :=
  match s.fieldSizes[s.fieldIdx]? with
  | none => none
  | some fs =>
    if maxBytes / fs = 0 then some none else
    match growTarget (maxBytes / fs) true 1 s.p s.rlo s.rhi, s.inst,
        s.fieldOffsets[s.fieldIdx]? with
    | some tHi, some inst, some fo =>
      let R := inst.linearization
      let aHi := denseHi R.lo R.hi s.p tHi
      let imLo := rank R.lo R.hi s.p
      let imHi := rank R.lo R.hi aHi
      match blockShrink inst.blockSize imLo imHi s.p aHi (volume s.p aHi) with
      | none => none
      | some (bHi, count) =>
        some (some (bHi, AddressInfo.line (baseOffset inst.allocOffset inst.blockSize
          inst.elmtSize fo fs (firstBlock inst.blockSize imLo imHi)) (count * fs), count * fs))
    | _, _, _ => none

/-- `step(max_bytes, info, tentative)`: its assertions, the chunk, then `next_p`. The new
state, the `AddressInfo` it fills (`none` when it returns before filling it) and the byte
count it returns; `none` when an assertion fails. -/
def step (s : RectIter) (maxBytes : Nat) (tentative : Bool) :
    Option (RectIter × Option AddressInfo × Nat) :=
  stepOf (fun s => s.done || s.tentativeValid) chunk setNext s maxBytes tentative

/-- `confirm_step()`. -/
def confirmStep (s : RectIter) : Option RectIter :=
  if s.tentativeValid then some { s with p := s.nextP, fieldIdx := s.nextIdx, tentativeValid := false }
  else none

/-- `cancel_step()`. -/
def cancelStep (s : RectIter) : Option RectIter :=
  if s.tentativeValid then some { s with tentativeValid := false } else none

/-- `reset()`. -/
def reset (s : RectIter) : RectIter :=
  { s with fieldIdx := 0, p := s.rlo, tentativeValid := false }

/-- `TransferIteratorRect<DIM>` as a `TransferIterator`. -/
def iterator : TransferIterator RectIter :=
  ⟨done, step, confirmStep, cancelStep, reset⟩

end RectIter

/-! ## Each stage gives a run -/

theorem growTarget_false (m count : Nat) {lo hi p : List Int} (h : InBox lo hi p) :
    growTarget m false count p lo hi = some p := by
  induction lo, hi, p using rank.induct generalizing count with
  | case1 l ls h hs x xs ih => simp [growTarget, ih count h.2.2]
  | case2 lo hi q hne =>
    cases lo <;> cases hi <;> cases q
    all_goals first | rfl | exact (h : False).elim | exact (hne _ _ _ _ _ _ rfl rfl rfl).elim

/-- **Growth.** From a point of the rectangle, the growth loop yields a run from it of at
most `max_elems` elements. -/
theorem growTarget_run {m : Nat} {lo hi p : List Int} (h : InBox lo hi p) (count : Nat)
    (hc : 0 < count) (hm : count ≤ m) :
    ∃ b, growTarget m true count p lo hi = some b ∧ IsRun lo hi p b ∧ count * volume p b ≤ m := by
  induction lo, hi, p using rank.induct generalizing count with
  | case1 l ls h hs x xs ih =>
    obtain ⟨hlx, hxh, hin⟩ := h
    by_cases hfit : count * (h - x + 1).toNat ≤ m
    · by_cases hxl : x = l
      · subst hxl
        obtain ⟨b, hb, hr, hv⟩ := ih hin (count * (h - x + 1).toNat)
          (Nat.mul_pos hc (by omega)) hfit
        refine ⟨h :: b, by simp [growTarget, hfit, hb], ⟨le_rfl, hxh, le_rfl, .inl ⟨rfl, rfl, hr⟩⟩, ?_⟩
        rw [volume, ← Nat.mul_assoc]
        exact hv
      · refine ⟨h :: xs, by simp [growTarget, hfit, hxl, growTarget_false _ _ hin],
          ⟨hlx, hxh, le_rfl, .inr ⟨rfl, hin⟩⟩, ?_⟩
        rw [volume, volume_self, Nat.mul_one]
        exact hfit
    · have hq : 1 ≤ m / count := (Nat.le_div_iff_mul_le hc).2 (by omega)
      have hlt : count * (m / count) < count * (h - x + 1).toNat :=
        lt_of_le_of_lt (Nat.mul_div_le m count) (by omega)
      have hlen : m / count < (h - x + 1).toNat := Nat.lt_of_mul_lt_mul_left hlt
      refine ⟨(x + ((m / count : Nat) : Int) - 1) :: xs,
        by simp [growTarget, hfit, hq, growTarget_false _ _ hin],
        ⟨hlx, by omega, by omega, .inr ⟨rfl, hin⟩⟩, ?_⟩
      rw [volume, volume_self, Nat.mul_one, show (x + ((m / count : Nat) : Int) - 1 - x + 1).toNat =
        m / count by omega]
      exact Nat.mul_div_le m count
  | case2 lo hi q hne =>
    cases lo <;> cases hi <;> cases q
    all_goals first
      | exact (h : False).elim
      | exact (hne _ _ _ _ _ _ rfl rfl rfl).elim
      | exact ⟨[], rfl, trivial, by simpa [volume] using hm⟩

theorem denseHi_self {L H q : List Int} (hq : InBox L H q) : denseHi L H q q = q := by
  induction L, H, q using rank.induct with
  | case1 l ls u us x xs ih => by_cases hx : x = l ∧ x = u <;> simp [denseHi, hx, ih hq.2.2]
  | case2 L H q hne =>
    cases L <;> cases H <;> cases q
    all_goals first | rfl | exact (hq : False).elim | exact (hne _ _ _ _ _ _ rfl rfl rfl).elim

/-- **The dense prefix.** Of a run of `r` from `p`, `image_dense_subrect` keeps a run of the
instance's bounds from `p`, inside the requested box. -/
theorem denseHi_run {L H lo hi p b : List Int} (hlo : InBox L H lo) (hhi : InBox L H hi)
    (h : IsRun lo hi p b) : IsRun L H p (denseHi L H p b) ∧ InBox p b (denseHi L H p b) := by
  induction lo, hi, p using rank.induct generalizing L H b with
  | case1 l ls u us x xs ih =>
    cases L <;> cases H <;> cases b
    case cons.cons.cons Lx Ls Hx Hs y ys =>
      obtain ⟨hLl, hlH, hlo⟩ := hlo
      obtain ⟨hLu, huH, hhi⟩ := hhi
      have hle := h.le
      obtain ⟨hlx, hxy, hyu, ⟨rfl, rfl, hr⟩ | ⟨rfl, hin⟩⟩ := h
      · by_cases hfull : x = Lx ∧ y = Hx
        · obtain ⟨hd, hb⟩ := ih hlo hhi hr
          rw [denseHi, if_pos hfull]
          exact ⟨⟨by omega, hxy, by omega, .inl ⟨hfull.1, hfull.2, hd⟩⟩, ⟨hxy, le_rfl, hb⟩⟩
        · rw [denseHi, if_neg hfull]
          exact ⟨⟨by omega, hxy, by omega, .inr ⟨rfl, inBox_trans hlo hhi hr.inBox.1⟩⟩,
            ⟨hxy, le_rfl, hle.1.2.2⟩⟩
      · have hR := inBox_trans hlo hhi hin
        rw [denseHi]
        split_ifs
        · rw [denseHi_self hR]
          exact ⟨⟨by omega, hxy, by omega, .inr ⟨rfl, hR⟩⟩, ⟨hxy, le_rfl, hle.1.2.2⟩⟩
        · exact ⟨⟨by omega, hxy, by omega, .inr ⟨rfl, hR⟩⟩, ⟨hxy, le_rfl, hle.1.2.2⟩⟩
    all_goals first
      | exact (hlo : False).elim
      | exact (hhi : False).elim
      | exact (h : False).elim
  | case2 lo hi q hne =>
    obtain ⟨rfl, rfl, rfl, rfl⟩ : lo = [] ∧ hi = [] ∧ q = [] ∧ b = [] := by
      cases lo <;> cases hi <;> cases q <;> cases b
      all_goals first
        | exact ⟨rfl, rfl, rfl, rfl⟩
        | exact (h : False).elim
        | exact (hne _ _ _ _ _ _ rfl rfl rfl).elim
    cases L <;> cases H
    all_goals first | exact ⟨trivial, trivial⟩ | exact (hlo : False).elim

/-- **The block loop.** From `count` elements, the loop over the later dimensions of a run
keeps a run of at most `maxLen · …` elements: it is `count` times the volume it keeps. -/
theorem shrinkRest_run {m : Nat} {L H p a : List Int} (h : IsRun L H p a) (count : Nat)
    (hc : 0 < count) (hm : count ≤ m) :
    ∃ b c, shrinkRest m count p a = some (b, c) ∧ IsRun L H p b ∧ InBox p a b ∧
      c = count * volume p b ∧ c ≤ m := by
  induction L, H, p using rank.induct generalizing a count with
  | case1 l ls u us x xs ih =>
    cases a with
    | nil => exact (h : False).elim
    | cons y ys =>
      have hle := h.le
      have hrest := h.tail
      obtain ⟨hlx, hxy, hyu, -⟩ := id h
      by_cases hxy' : x = y
      · obtain ⟨b, c, hs, hr, hbox, hcv, hcm⟩ := ih hrest count hc hm
        refine ⟨y :: b, c, by simp [shrinkRest, hxy', hs], h.cons_of_tail hr hbox, ⟨hxy, le_rfl, hbox⟩,
          ?_, hcm⟩
        rw [hcv, volume, hxy', show (y - y + 1).toNat = 1 by omega, Nat.one_mul]
      · by_cases hfit : count * (y - x + 1).toNat ≤ m
        · obtain ⟨b, c, hs, hr, hbox, hcv, hcm⟩ :=
            ih hrest (count * (y - x + 1).toNat) (Nat.mul_pos hc (by omega)) hfit
          refine ⟨y :: b, c, by simp [shrinkRest, hxy', hfit, hs], h.cons_of_tail hr hbox,
            ⟨hxy, le_rfl, hbox⟩, ?_, hcm⟩
          rw [hcv, volume, Nat.mul_assoc]
        · have hq : 0 < m / count := Nat.div_pos hm hc
          have hlt : m / count < (y - x + 1).toNat :=
            (Nat.div_lt_iff_lt_mul hc).2 (by rw [Nat.mul_comm]; omega)
          have hin := hrest.inBox.1
          refine ⟨(x + ((m / count : Nat) : Int) - 1) :: xs, count * (m / count),
            by simp [shrinkRest, hxy', hfit, hq, hlt], ⟨hlx, by omega, by omega, .inr ⟨rfl, hin⟩⟩,
            ⟨by omega, by omega, hle.1.2.2⟩, ?_, Nat.mul_div_le m count⟩
          rw [volume, volume_self, Nat.mul_one,
            show (x + ((m / count : Nat) : Int) - 1 - x + 1).toNat = m / count by omega]
  | case2 L H q hne =>
    cases L <;> cases H <;> cases q <;> cases a
    all_goals first
      | exact (h : False).elim
      | exact (hne _ _ _ _ _ _ rfl rfl rfl).elim
      | exact ⟨[], count, rfl, trivial, trivial, by simp [volume], hm⟩

/-- **The block shrink.** The chunk keeps a run from `p` inside the box, whose elements all
lie in the block of `p`'s element. -/
theorem blockShrink_run {B : Nat} (hB : 0 < B) {L H p a : List Int} (h : IsRun L H p a) :
    ∃ b c, blockShrink B (rank L H p) (rank L H a) p a (volume p a) = some (b, c) ∧
      IsRun L H p b ∧ InBox p a b ∧ c = volume p b ∧ rank L H p % B + c ≤ B := by
  have hlast := rank_last_run h
  have hvol := h.volume_pos
  by_cases hone : rank L H a < B ∨ rank L H p / B = rank L H a / B
  · refine ⟨a, volume p a, by unfold blockShrink; rw [if_pos hone], h, h.le.2, rfl, ?_⟩
    have e₁ := Nat.div_add_mod (rank L H p) B
    have e₂ := Nat.div_add_mod (rank L H a) B
    have e₃ := Nat.mod_lt (rank L H a) hB
    rcases hone with hlt | hq
    · rw [Nat.mod_eq_of_lt (by omega : rank L H p < B)]
      omega
    · rw [hq] at e₁
      omega
  · obtain ⟨x, xs, y, ys, l, ls, u, us, rfl, rfl, rfl, rfl⟩ :
        ∃ x xs y ys l ls u us, p = x :: xs ∧ a = y :: ys ∧ L = l :: ls ∧ H = u :: us := by
      cases p <;> cases a <;> cases L <;> cases H
      all_goals first
        | exact ⟨_, _, _, _, _, _, _, _, rfl, rfl, rfl, rfl⟩
        | exact (h : False).elim
        | (exfalso; simp only [rank] at hone; omega)
    have hmod := Nat.mod_lt (rank (l :: ls) (u :: us) (x :: xs)) hB
    have hle := h.le
    have hrest := h.tail
    obtain ⟨hlx, hxy, hyu, -⟩ := id h
    by_cases hcut : B - rank (l :: ls) (u :: us) (x :: xs) % B < (y - x + 1).toNat
    · generalize hm : B - rank (l :: ls) (u :: us) (x :: xs) % B = m at hcut
      refine ⟨(x + (m : Int) - 1) :: xs, m, by simp only [blockShrink, if_neg hone, hm, if_pos hcut],
        ⟨hlx, by omega, by omega, .inr ⟨rfl, hrest.inBox.1⟩⟩, ⟨by omega, by omega, hle.1.2.2⟩, ?_,
        by omega⟩
      rw [volume, volume_self, Nat.mul_one]
      omega
    · obtain ⟨b, c, hs, hr, hbox, hcv, hcm⟩ := shrinkRest_run hrest
        (m := B - rank (l :: ls) (u :: us) (x :: xs) % B) (y - x + 1).toNat
        (by omega) (by omega)
      exact ⟨y :: b, c, by simp only [blockShrink, if_neg hone, if_neg hcut, hs]; rfl,
        h.cons_of_tail hr hbox, ⟨hxy, le_rfl, hbox⟩, by rw [hcv, volume], by omega⟩

/-! ## One step -/

namespace RectIter

/-- **The step.** From a point of the rectangle, with room for at least one element, a
step gives out a run `[p, b]` of both the rectangle and the instance's bounds whose
elements share one block: the chunk starts where `p`'s element does and holds
`volume p b` elements of the field. -/
theorem step_spec {s : RectIter} {m : InstanceMeta DenseFortran} {fs fo maxBytes : Nat}
    (tentative : Bool) (hinst : s.inst = some m)
    (hlo : InBox m.linearization.lo m.linearization.hi s.rlo)
    (hhi : InBox m.linearization.lo m.linearization.hi s.rhi) (hB : 0 < m.blockSize)
    (hp : InBox s.rlo s.rhi s.p) (hdone : s.done = false) (htv : s.tentativeValid = false)
    (hfs : s.fieldSizes[s.fieldIdx]? = some fs) (hfo : s.fieldOffsets[s.fieldIdx]? = some fo)
    (hpos : 0 < fs) (hm : fs ≤ maxBytes) :
    ∃ b, IsRun s.rlo s.rhi s.p b ∧ IsRun m.linearization.lo m.linearization.hi s.p b ∧
      rank m.linearization.lo m.linearization.hi s.p % m.blockSize + volume s.p b ≤ m.blockSize ∧
      volume s.p b * fs ≤ maxBytes ∧
      s.step maxBytes tentative = some (s.setNext b tentative,
        some (AddressInfo.line (elemBase m.allocOffset m.blockSize m.elmtSize fo fs
          (rank m.linearization.lo m.linearization.hi s.p)) (volume s.p b * fs)),
        volume s.p b * fs) := by
  have hmax : 0 < maxBytes / fs := Nat.div_pos hm hpos
  obtain ⟨tHi, hg, hrun, hv⟩ := growTarget_run (m := maxBytes / fs) hp 1 Nat.one_pos hmax
  obtain ⟨hdR, hdbox⟩ := denseHi_run hlo hhi hrun
  obtain ⟨b, c, hbs, hbR, hbbox, rfl, hcB⟩ := blockShrink_run hB hdR
  have haHi := inBox_trans hp hrun.inBox.2 hdbox
  have hvol : volume s.p b ≤ maxBytes / fs := calc
    volume s.p b ≤ volume s.p _ := volume_le_of_inBox hbbox
    _ ≤ volume s.p tHi := volume_le_of_inBox hdbox
    _ ≤ maxBytes / fs := by rw [← Nat.one_mul (volume s.p tHi)]; exact hv
  have hrank : rank m.linearization.lo m.linearization.hi s.p ≤
      rank m.linearization.lo m.linearization.hi (denseHi m.linearization.lo m.linearization.hi s.p tHi) := by
    have := rank_last_run hdR
    have := hdR.volume_pos
    omega
  refine ⟨b, isRun_of_subset hbR hlo hhi hp (inBox_trans hp haHi hbbox), hbR, hcB,
    (Nat.le_div_iff_mul_le hpos).1 hvol, ?_⟩
  simp only [step, stepOf, chunk, hdone, htv, hfs, hg, hinst, hfo, hbs,
    Nat.pos_iff_ne_zero.1 hmax, if_false, Bool.false_eq_true, Bool.or_self, Option.map_some']
  rw [baseOffset_firstBlock fun h => lt_of_le_of_lt hrank h]

/-- A step changes neither the rectangle, nor the instance, nor the fields. -/
theorem step_frame {s s' : RectIter} {maxBytes : Nat} {t : Bool} {o : Option AddressInfo}
    {n : Nat} (h : s.step maxBytes t = some (s', o, n)) :
    s'.rlo = s.rlo ∧ s'.rhi = s.rhi ∧ s'.inst = s.inst ∧ s'.fieldOffsets = s.fieldOffsets ∧
      s'.fieldSizes = s.fieldSizes := by
  unfold step stepOf at h
  split at h
  · cases h
  · obtain ⟨c, -, hc⟩ := Option.map_eq_some'.1 h
    split at hc <;> cases hc
    · exact ⟨rfl, rfl, rfl, rfl, rfl⟩
    · cases t <;> exact ⟨rfl, rfl, rfl, rfl, rfl⟩

end RectIter

end Realm.Transfer
