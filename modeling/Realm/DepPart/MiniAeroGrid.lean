import Realm.DepPart.MiniAero

/-!
# The block layout of `MiniAeroTest`

On a valid configuration: the block loops of the constructor enumerate the blocks in the order
of their index (`blockLoop_eq_map`), the task index decodes back to its block, the cuts of each
axis strictly increase, `global_cell_pointer` numbers the cells of block `b` from the prefix sum
of `cells_per_block` before `b` (`cellStart`), and the constructor's two count assertions hold.
-/

namespace Realm.DepPart.MiniAeroTest

variable {t : MiniAeroTest}

/-! ### Block indices -/

/-- The index of block `(bx, by', bz)` in the block loops. -/
def blockIndex (t : MiniAeroTest) (bx by' bz : Int) : Int := (bz * t.blocksY + by') * t.blocksX + bx

theorem blockCoords_blockIndex {bx by' bz : Int} (hx0 : 0 ≤ bx) (hx : bx < t.blocksX)
    (hy0 : 0 ≤ by') (hy : by' < t.blocksY) :
    t.blockCoords (t.blockIndex bx by' bz) = (bx, by', bz) := by
  obtain ⟨h1, h2⟩ := ediv_emod_digit (q := bz * t.blocksY + by') hx0 hx
  obtain ⟨h3, h4⟩ := ediv_emod_digit (q := bz) hy0 hy
  simp only [blockCoords, blockIndex, h1, h2, h3, h4]

theorem blockIndex_blockCoords (i : Int) :
    t.blockIndex (t.blockCoords i).1 (t.blockCoords i).2.1 (t.blockCoords i).2.2 = i := by
  simp only [blockIndex, blockCoords]
  rw [Int.ediv_add_emod', Int.ediv_add_emod']

theorem blockCoords_mem (hv : t.Valid) {i : Int} (h0 : 0 ≤ i) (hi : i < t.nBlocks) :
    (0 ≤ (t.blockCoords i).1 ∧ (t.blockCoords i).1 < t.blocksX) ∧
    (0 ≤ (t.blockCoords i).2.1 ∧ (t.blockCoords i).2.1 < t.blocksY) ∧
    (0 ≤ (t.blockCoords i).2.2 ∧ (t.blockCoords i).2.2 < t.blocksZ) := by
  have hx := hv.bx_pos
  have hy := hv.by_pos
  have hxy : i / t.blocksX < t.blocksY * t.blocksZ :=
    Int.ediv_lt_of_lt_mul hx (by simp only [nBlocks] at hi; linarith)
  refine ⟨⟨Int.emod_nonneg _ hx.ne', Int.emod_lt_of_pos _ hx⟩,
    ⟨Int.emod_nonneg _ hy.ne', Int.emod_lt_of_pos _ hy⟩,
    Int.ediv_nonneg (Int.ediv_nonneg h0 hx.le) hy.le, Int.ediv_lt_of_lt_mul hy (by linarith)⟩

theorem blockIndex_mem {bx by' bz : Int} (hbx : 0 ≤ bx ∧ bx < t.blocksX)
    (hby : 0 ≤ by' ∧ by' < t.blocksY) (hbz : 0 ≤ bz ∧ bz < t.blocksZ) :
    0 ≤ t.blockIndex bx by' bz ∧ t.blockIndex bx by' bz < t.nBlocks := by
  have h1 : bz * t.blocksY + by' < t.blocksZ * t.blocksY := by nlinarith
  have h2 : 0 ≤ bz * t.blocksY + by' := by nlinarith
  constructor
  · unfold blockIndex
    nlinarith
  · unfold blockIndex nBlocks
    nlinarith

/-- Blocks with coordinates in range have distinct indices. -/
theorem blockIndex_eq_blockIndex_iff {a b c a' b' c' : Int} (ha : 0 ≤ a ∧ a < t.blocksX)
    (hb : 0 ≤ b ∧ b < t.blocksY) (ha' : 0 ≤ a' ∧ a' < t.blocksX) (hb' : 0 ≤ b' ∧ b' < t.blocksY) :
    t.blockIndex a b c = t.blockIndex a' b' c' ↔ a = a' ∧ b = b' ∧ c = c' := by
  constructor
  · intro h
    have h' := congrArg t.blockCoords h
    rwa [blockCoords_blockIndex ha.1 ha.2 hb.1 hb.2, blockCoords_blockIndex ha'.1 ha'.2 hb'.1 hb'.2,
      Prod.mk.injEq, Prod.mk.injEq] at h'
  · rintro ⟨rfl, rfl, rfl⟩
    rfl

/-- The block loops of the constructor visit the blocks in the order of their index. -/
theorem blockLoop_eq_map (hv : t.Valid) {α : Type} (f : Int → Int → Int → α) :
    t.blockLoop f = (points t.nBlocks).map fun i =>
      f (t.blockCoords i).1 (t.blockCoords i).2.1 (t.blockCoords i).2.2 := by
  have hx := hv.bx_pos
  have hy := hv.by_pos
  have hz := hv.bz_pos
  rw [show t.nBlocks = t.blocksZ * (t.blocksY * t.blocksX) by simp only [nBlocks]; ring,
    points_mul hz.le (by positivity), points_mul hy.le hx.le]
  simp only [blockLoop, List.map_flatMap, List.flatMap_map, List.map_map]
  refine List.flatMap_congr fun bz _ => List.flatMap_congr fun by' hy' => ?_
  refine List.map_congr_left fun bx hx' => ?_
  rw [mem_points] at hx' hy'
  have : t.blockCoords (t.blockIndex bx by' bz) = (bx, by', bz) :=
    blockCoords_blockIndex hx'.1 hx'.2 hy'.1 hy'.2
  simp only [blockIndex] at this
  simp only [Function.comp_apply, show bz * (t.blocksY * t.blocksX) + (by' * t.blocksX + bx) =
    (bz * t.blocksY + by') * t.blocksX + bx by ring, this]

/-- The block after block `i` in the block loops. -/
theorem blockCoords_succ (hv : t.Valid) (i : Int) :
    t.blockCoords (i + 1) =
      if (t.blockCoords i).1 + 1 < t.blocksX then
        ((t.blockCoords i).1 + 1, (t.blockCoords i).2.1, (t.blockCoords i).2.2)
      else if (t.blockCoords i).2.1 + 1 < t.blocksY then (0, (t.blockCoords i).2.1 + 1, (t.blockCoords i).2.2)
      else (0, 0, (t.blockCoords i).2.2 + 1) := by
  have hx := hv.bx_pos
  have hy := hv.by_pos
  obtain ⟨hx0, hxl⟩ : 0 ≤ (t.blockCoords i).1 ∧ (t.blockCoords i).1 < t.blocksX :=
    ⟨Int.emod_nonneg _ hx.ne', Int.emod_lt_of_pos _ hx⟩
  obtain ⟨hy0, hyl⟩ : 0 ≤ (t.blockCoords i).2.1 ∧ (t.blockCoords i).2.1 < t.blocksY :=
    ⟨Int.emod_nonneg _ hy.ne', Int.emod_lt_of_pos _ hy⟩
  conv_lhs => rw [← blockIndex_blockCoords (t := t) i]
  generalize (t.blockCoords i).1 = bx at *
  generalize (t.blockCoords i).2.1 = by' at *
  generalize (t.blockCoords i).2.2 = bz at *
  split_ifs with h1 h2
  · rw [show t.blockIndex bx by' bz + 1 = t.blockIndex (bx + 1) by' bz by simp only [blockIndex]; ring]
    exact blockCoords_blockIndex (by omega) h1 hy0 hyl
  · rw [show t.blockIndex bx by' bz + 1 = t.blockIndex 0 (by' + 1) bz by
      simp only [blockIndex]; rw [show bx = t.blocksX - 1 by omega]; ring]
    exact blockCoords_blockIndex le_rfl hx (by omega) h2
  · rw [show t.blockIndex bx by' bz + 1 = t.blockIndex 0 0 (bz + 1) by
      simp only [blockIndex]; rw [show bx = t.blocksX - 1 by omega, show by' = t.blocksY - 1 by omega]
      ring]
    exact blockCoords_blockIndex le_rfl hx le_rfl hy

/-! ### Where `global_cell_pointer` starts each block -/

/-- The first cell of block `(bx, by', bz)` in the numbering of `global_cell_pointer`. -/
def cellStart (t : MiniAeroTest) (bx by' bz : Int) : Int :=
  t.globalX * t.globalY * vecAt t.zsplit bz + t.globalX * vecAt t.ysplit by' * extent t.zsplit bz +
    vecAt t.xsplit bx * extent t.ysplit by' * extent t.zsplit bz

/-- The cells of block `b` follow those of the block before it. -/
theorem cellStart_succ (hv : t.Valid) {i : Int} (h0 : 0 ≤ i) (hi : i < t.nBlocks) :
    t.cellStart (t.blockCoords (i + 1)).1 (t.blockCoords (i + 1)).2.1 (t.blockCoords (i + 1)).2.2 =
      t.cellStart (t.blockCoords i).1 (t.blockCoords i).2.1 (t.blockCoords i).2.2 +
        cellCount (extent t.xsplit (t.blockCoords i).1) (extent t.ysplit (t.blockCoords i).2.1)
          (extent t.zsplit (t.blockCoords i).2.2) := by
  obtain ⟨⟨hx0, hxl⟩, ⟨hy0, hyl⟩, ⟨hz0, hzl⟩⟩ := blockCoords_mem hv h0 hi
  rw [blockCoords_succ hv]
  generalize (t.blockCoords i).1 = bx at *
  generalize (t.blockCoords i).2.1 = by' at *
  generalize (t.blockCoords i).2.2 = bz at *
  have hX : vecAt t.xsplit t.blocksX = t.globalX := vecAt_splitEvenly_last hv.bx_pos
  have hY : vecAt t.ysplit t.blocksY = t.globalY := vecAt_splitEvenly_last hv.by_pos
  have hX0 : vecAt t.xsplit 0 = 0 := vecAt_splitEvenly_zero hv.bx_pos
  have hY0 : vecAt t.ysplit 0 = 0 := vecAt_splitEvenly_zero hv.by_pos
  split_ifs with h1 h2
  · simp only [cellStart, cellCount, extent]
    ring
  · obtain rfl : bx = t.blocksX - 1 := by omega
    simp only [cellStart, cellCount, extent, sub_add_cancel, hX, hX0]
    ring
  · obtain rfl : bx = t.blocksX - 1 := by omega
    obtain rfl : by' = t.blocksY - 1 := by omega
    simp only [cellStart, cellCount, extent, sub_add_cancel, hX, hX0, hY, hY0]
    ring

theorem cellStart_zero (hv : t.Valid) :
    t.cellStart (t.blockCoords 0).1 (t.blockCoords 0).2.1 (t.blockCoords 0).2.2 = 0 := by
  simp [cellStart, blockCoords, vecAt_splitEvenly_zero hv.bx_pos, vecAt_splitEvenly_zero hv.by_pos,
    vecAt_splitEvenly_zero hv.bz_pos, xsplit, ysplit, zsplit]

/-- The cells before block `i` in `cells_per_block` are those `global_cell_pointer` numbers
before it. -/
theorem sum_take_cellsPerBlock (hv : t.Valid) {i : Int} (h0 : 0 ≤ i) (hi : i ≤ t.nBlocks) :
    (t.cellsPerBlock.take i.toNat).sum =
      t.cellStart (t.blockCoords i).1 (t.blockCoords i).2.1 (t.blockCoords i).2.2 := by
  rw [cellsPerBlock, blockLoop_eq_map hv, ← List.map_take, take_points hi]
  obtain ⟨k, rfl⟩ := Int.eq_ofNat_of_zero_le h0
  induction k with
  | zero => simpa [points] using (cellStart_zero hv).symm
  | succ k ih =>
    rw [Nat.cast_succ, points_succ (by omega), List.map_append, List.sum_append, ih (by omega)
      (by omega), cellStart_succ hv (by omega) (by omega)]
    simp

theorem length_blockLoop (hv : t.Valid) {α : Type} (f : Int → Int → Int → α) :
    (t.blockLoop f).length = t.nBlocks.toNat := by
  simp [blockLoop_eq_map hv]

theorem sum_blockLoop (g : Int → Int → Int → Int) :
    (t.blockLoop g).sum = ((points t.blocksZ).map fun bz => ((points t.blocksY).map fun by' =>
      ((points t.blocksX).map fun bx => g bx by' bz).sum).sum).sum := by
  simp only [blockLoop, List.flatMap_def, List.sum_flatten, List.map_map, Function.comp_def]

/-- The constructor's assertions `n_cells == global_x * global_y * global_z` and
`n_faces == ...` hold on every valid configuration, and the `int` counts they compare stay
below `2^31`. -/
theorem miniaero_counts_hold (hv : t.Valid) :
    t.CountsAsserted ∧ t.nCells < 2 ^ 31 ∧ t.nFaces < 2 ^ 31 := by
  have hx := hv.bx_pos
  have hy := hv.by_pos
  have hz := hv.bz_pos
  suffices h : t.CountsAsserted by
    refine ⟨h, ?_, ?_⟩
    · have hgx := lt_of_lt_of_le hx hv.bx_le
      have hgy := lt_of_lt_of_le hy hv.by_le
      have hgz := lt_of_lt_of_le hz hv.bz_le
      rw [h.1]
      nlinarith [hv.faces_fit, mul_pos (mul_pos hx hgy) hgz, mul_pos (mul_pos hgx hgy) hgz,
        mul_pos (mul_pos hgx hy) hgz, mul_pos (mul_pos hgx hgy) hz]
    · rw [h.2]
      exact hv.faces_fit
  constructor
  · have hlen : t.nBlocks.toNat = t.cellsPerBlock.length := (length_blockLoop hv _).symm
    have hidx : t.nBlocks = t.blockIndex 0 0 t.blocksZ := by simp only [nBlocks, blockIndex]; ring
    rw [nCells, ← List.take_length (l := t.cellsPerBlock), ← hlen,
      sum_take_cellsPerBlock hv (by unfold nBlocks; positivity) le_rfl, hidx,
      blockCoords_blockIndex le_rfl hx le_rfl hy]
    simp [cellStart, xsplit, ysplit, zsplit, vecAt_splitEvenly_zero hx, vecAt_splitEvenly_zero hy,
      vecAt_splitEvenly_last hz]
  · rw [nFaces, facesPerBlock, sum_blockLoop]
    simp only [faceCount, List.sum_map_add, List.sum_map_mul_right, List.sum_map_mul_left,
      xsplit, ysplit, zsplit, sum_extent hx, sum_extent hy, sum_extent hz, sum_points_const _ hx.le,
      sum_points_const _ hy.le, sum_points_const _ hz.le]
    ring

/-- The default configuration passes the constructor's count assertions. -/
theorem miniaero_counts_hold_defaults : ({} : MiniAeroTest).Valid ∧ ({} : MiniAeroTest).CountsAsserted :=
  have hv : ({} : MiniAeroTest).Valid := ⟨by decide, by decide, by decide, by decide, by decide, by decide,
    by decide, by decide, by decide, by decide⟩
  ⟨hv, (miniaero_counts_hold hv).1⟩

/-! ### `global_cell_pointer` -/

/-- `global_cell_pointer` numbers the cell at offset `(lx, ly, lz)` of block `(bx, by', bz)`
from the block's first cell, `x` fastest. -/
theorem globalCellPointer_local (hv : t.Valid) {bx by' bz lx ly lz : Int}
    (hbx : 0 ≤ bx ∧ bx < t.blocksX) (hby : 0 ≤ by' ∧ by' < t.blocksY)
    (hbz : 0 ≤ bz ∧ bz < t.blocksZ) (hlx : 0 ≤ lx ∧ lx < extent t.xsplit bx)
    (hly : 0 ≤ ly ∧ ly < extent t.ysplit by') (hlz : 0 ≤ lz ∧ lz < extent t.zsplit bz) :
    t.globalCellPointer (vecAt t.xsplit bx + lx) (vecAt t.ysplit by' + ly)
        (vecAt t.zsplit bz + lz) =
      some (t.cellStart bx by' bz +
        (lx + ly * extent t.xsplit bx + lz * extent t.xsplit bx * extent t.ysplit by')) := by
  have mx := piece_cell_mem hv.bx_pos hv.bx_le hbx.1 hbx.2 hlx.1 hlx.2
  have my := piece_cell_mem hv.by_pos hv.by_le hby.1 hby.2 hly.1 hly.2
  have mz := piece_cell_mem hv.bz_pos hv.bz_le hbz.1 hbz.2 hlz.1 hlz.2
  simp only [xsplit, ysplit, zsplit] at *
  rw [globalCellPointer, if_neg (by omega), xsplit, ysplit, zsplit,
    findSplit_piece hv.bz_pos hv.bz_le hbz.1 hbz.2 hlz.1 hlz.2,
    findSplit_piece hv.by_pos hv.by_le hby.1 hby.2 hly.1 hly.2,
    findSplit_piece hv.bx_pos hv.bx_le hbx.1 hbx.2 hlx.1 hlx.2]
  simp only [Option.bind_eq_bind, Option.some_bind, Option.pure_def, cellStart, xsplit, ysplit,
    zsplit, Option.some.injEq]
  ring

theorem globalCellPointer_off {cx cy cz : Int}
    (h : cx < 0 ∨ cx ≥ t.globalX ∨ cy < 0 ∨ cy ≥ t.globalY ∨ cz < 0 ∨ cz ≥ t.globalZ) :
    t.globalCellPointer cx cy cz = some (-1) := by
  rw [globalCellPointer, if_pos h]

end Realm.DepPart.MiniAeroTest
