import Realm.DepPart.MiniAeroInit

/-!
# What `perform_partitioning` computes for `MiniAeroTest`

From the field data `initialize_data` writes (`Written`): `p_cells[j]` holds exactly the cells of
block `j`, `p_faces[j]` exactly the faces of block `j` (their left cells lie in the block),
`p_facetypes[j][k]` those of them of type `k`, and `p_ghost[j]` the right cells of the
block-border faces of block `j`. Those right cells are the cells just across the block's borders
(`exists_faceList_border`). Since `global_cell_pointer` numbers the cells of the mesh one to one,
the `i`-th cell of block `k` is a ghost of block `j` exactly when `j` is one of the `exp_ghosts`
that `check_partitioning` lists for it.
-/

namespace Realm.DepPart.MiniAeroTest

variable {t : MiniAeroTest}

/-! ### The cells of a block, in order -/

/-- The `i`-th cell of block `k` in the order of the cell loops of `init_data_task` and
`check_partitioning`: offsets `(i % nx, i / nx % ny, i / nx / ny)` into the block. -/
def blockCell (t : MiniAeroTest) (k i : Int) : Int × Int × Int :=
  let b := t.blockCoords k
  let nx := extent t.xsplit b.1
  let ny := extent t.ysplit b.2.1
  (vecAt t.xsplit b.1 + i % nx, vecAt t.ysplit b.2.1 + i / nx % ny,
    vecAt t.zsplit b.2.2 + i / nx / ny)

section Cells

variable (hv : t.Valid)
include hv

/-- The `i`-th cell of block `k` is cell `S + i`, where `S` counts the cells of the blocks
before `k`. -/
theorem cellNumber_blockCell_sum {k i : Int} (hk0 : 0 ≤ k) (hk : k < t.nBlocks) (hi0 : 0 ≤ i)
    (hi : i < vecAt t.cellsPerBlock k) :
    t.cellNumber (t.blockCell k i).1 (t.blockCell k i).2.1 (t.blockCell k i).2.2 =
      (t.cellsPerBlock.take k.toNat).sum + i := by
  obtain ⟨hbx, hby, hbz⟩ := blockCoords_mem hv hk0 hk
  rw [vecAt_cellsPerBlock hv hk0 hk] at hi
  rw [sum_take_cellsPerBlock hv hk0 hk.le]
  exact cellNumber_blockCell hv hbx hby hbz hi0 hi

/-- Every cell of the mesh is the `i`-th cell of some block `k`. -/
theorem exists_blockCell {cx cy cz : Int} (hx : 0 ≤ cx ∧ cx < t.globalX)
    (hy : 0 ≤ cy ∧ cy < t.globalY) (hz : 0 ≤ cz ∧ cz < t.globalZ) :
    ∃ k i, (0 ≤ k ∧ k < t.nBlocks) ∧ (0 ≤ i ∧ i < vecAt t.cellsPerBlock k) ∧
      (cx, cy, cz) = t.blockCell k i := by
  obtain ⟨bx, lx, hbx0, hbx, hlx0, hlx, rfl⟩ :=
    @exists_piece t.globalX t.blocksX cx hv.bx_pos hx.1 hx.2
  obtain ⟨by', ly, hby0, hby, hly0, hly, rfl⟩ :=
    @exists_piece t.globalY t.blocksY cy hv.by_pos hy.1 hy.2
  obtain ⟨bz, lz, hbz0, hbz, hlz0, hlz, rfl⟩ :=
    @exists_piece t.globalZ t.blocksZ cz hv.bz_pos hz.1 hz.2
  change lx < extent t.xsplit bx at hlx
  change ly < extent t.ysplit by' at hly
  change lz < extent t.zsplit bz at hlz
  have hk := blockIndex_mem ⟨hbx0, hbx⟩ ⟨hby0, hby⟩ ⟨hbz0, hbz⟩ (t := t)
  have hK : t.blockCoords (t.blockIndex bx by' bz) = (bx, by', bz) :=
    blockCoords_blockIndex hbx0 hbx hby0 hby
  obtain ⟨d1, d2, d3⟩ : (lx + ly * extent t.xsplit bx + lz * extent t.xsplit bx * extent t.ysplit by') %
        extent t.xsplit bx = lx ∧ _ ∧ _ := digits3 hlx0 hlx hly0 hly
  obtain ⟨hi0, hi⟩ := local_index_mem hlx0 hlx hly0 hly hlz0 hlz
  refine ⟨t.blockIndex bx by' bz, lx + ly * extent t.xsplit bx +
    lz * extent t.xsplit bx * extent t.ysplit by', hk, ⟨hi0, ?_⟩, ?_⟩
  · rwa [vecAt_cellsPerBlock hv hk.1 hk.2, hK]
  · simp only [blockCell, hK, d1, d2, d3]
    rfl

/-- `global_cell_pointer` numbers the cells of the mesh one to one: the cell it numbers `S + i`
is the `i`-th cell of block `k`. -/
theorem cellNumber_eq_sum_iff {cx cy cz : Int} (hx : 0 ≤ cx ∧ cx < t.globalX)
    (hy : 0 ≤ cy ∧ cy < t.globalY) (hz : 0 ≤ cz ∧ cz < t.globalZ) {k i : Int} (hk0 : 0 ≤ k)
    (hk : k < t.nBlocks) (hi0 : 0 ≤ i) (hi : i < vecAt t.cellsPerBlock k) :
    t.cellNumber cx cy cz = (t.cellsPerBlock.take k.toNat).sum + i ↔
      (cx, cy, cz) = t.blockCell k i := by
  constructor
  · intro h
    obtain ⟨k', i', ⟨hk0', hk'⟩, ⟨hi0', hi'⟩, hc⟩ := exists_blockCell hv hx hy hz
    rw [Prod.mk.injEq, Prod.mk.injEq] at hc
    rw [hc.1, hc.2.1, hc.2.2, cellNumber_blockCell_sum hv hk0' hk' hi0' hi'] at h
    have hlen : t.cellsPerBlock.length = t.nBlocks.toNat := by
      rw [cellsPerBlock, length_blockLoop hv]
    have hkk : k'.toNat = k.toNat := prefix_unique (cellsPerBlock_pos hv) (by omega) (by omega)
      hi0' (by rwa [← vecAt_eq_getElem (by omega)]) hi0 (by rwa [← vecAt_eq_getElem (by omega)]) h
    obtain rfl : k' = k := by omega
    obtain rfl : i' = i := by omega
    rw [hc.1, hc.2.1, hc.2.2]
  · intro h
    rw [Prod.mk.injEq, Prod.mk.injEq] at h
    rw [h.1, h.2.1, h.2.2]
    exact cellNumber_blockCell_sum hv hk0 hk hi0 hi

/-- The cells across the borders of a block lie on the mesh. -/
theorem across_mem {bx by' bz : Int} (hbx : 0 ≤ bx ∧ bx < t.blocksX)
    (hby : 0 ≤ by' ∧ by' < t.blocksY) (hbz : 0 ≤ bz ∧ bz < t.blocksZ) {cx cy cz : Int}
    (h : t.Across bx by' bz cx cy cz) :
    (0 ≤ cx ∧ cx < t.globalX) ∧ (0 ≤ cy ∧ cy < t.globalY) ∧ (0 ≤ cz ∧ cz < t.globalZ) := by
  have x0 : 0 ≤ vecAt t.xsplit bx :=
    vecAt_splitEvenly_nonneg hv.bx_pos hbx.1 hbx.2.le (by linarith [hv.bx_pos, hv.bx_le])
  have y0 : 0 ≤ vecAt t.ysplit by' :=
    vecAt_splitEvenly_nonneg hv.by_pos hby.1 hby.2.le (by linarith [hv.by_pos, hv.by_le])
  have z0 : 0 ≤ vecAt t.zsplit bz :=
    vecAt_splitEvenly_nonneg hv.bz_pos hbz.1 hbz.2.le (by linarith [hv.bz_pos, hv.bz_le])
  have x1 : vecAt t.xsplit (bx + 1) ≤ t.globalX :=
    vecAt_splitEvenly_le hv.bx_pos hv.bx_le (by omega) (by omega)
  have y1 : vecAt t.ysplit (by' + 1) ≤ t.globalY :=
    vecAt_splitEvenly_le hv.by_pos hv.by_le (by omega) (by omega)
  have z1 : vecAt t.zsplit (bz + 1) ≤ t.globalZ :=
    vecAt_splitEvenly_le hv.bz_pos hv.bz_le (by omega) (by omega)
  have := xsplit_lt hv hbx
  have := ysplit_lt hv hby
  have := zsplit_lt hv hbz
  unfold Across at h
  omega

/-- The `i`-th cell of block `k` lies across a border of block `j` exactly when `j` is one of the
`exp_ghosts` that `check_partitioning` lists for it. -/
theorem across_blockCell_iff {k i j : Int} (hk0 : 0 ≤ k) (hk : k < t.nBlocks) (hi0 : 0 ≤ i)
    (hi : i < vecAt t.cellsPerBlock k) (hj0 : 0 ≤ j) (hj : j < t.nBlocks) :
    t.Across (t.blockCoords j).1 (t.blockCoords j).2.1 (t.blockCoords j).2.2
        (t.blockCell k i).1 (t.blockCell k i).2.1 (t.blockCell k i).2.2 ↔
      j ∈ t.expGhosts k (t.blockCoords k).1 (t.blockCoords k).2.1 (t.blockCoords k).2.2
        (extent t.xsplit (t.blockCoords k).1) (extent t.ysplit (t.blockCoords k).2.1)
        (extent t.zsplit (t.blockCoords k).2.2)
        (i % extent t.xsplit (t.blockCoords k).1)
        (i / extent t.xsplit (t.blockCoords k).1 % extent t.ysplit (t.blockCoords k).2.1)
        (i / extent t.xsplit (t.blockCoords k).1 / extent t.ysplit (t.blockCoords k).2.1) := by
  obtain ⟨hbx, hby, hbz⟩ := blockCoords_mem hv hk0 hk
  obtain ⟨hjx, hjy, hjz⟩ := blockCoords_mem hv hj0 hj
  rw [vecAt_cellsPerBlock hv hk0 hk] at hi
  have hK := blockIndex_blockCoords (t := t) k
  have hJ := blockIndex_blockCoords (t := t) j
  simp only [blockCell]
  generalize t.blockCoords k = b at *
  generalize t.blockCoords j = b' at *
  obtain ⟨bx, by', bz⟩ := b
  obtain ⟨jx, jy, jz⟩ := b'
  dsimp only at *
  have hnx : 0 < extent t.xsplit bx := by have := xsplit_lt hv hbx; unfold extent; omega
  have hny : 0 < extent t.ysplit by' := by have := ysplit_lt hv hby; unfold extent; omega
  have hlz : i / extent t.xsplit bx / extent t.ysplit by' < extent t.zsplit bz :=
    Int.ediv_lt_of_lt_mul hny (Int.ediv_lt_of_lt_mul hnx (by unfold cellCount at hi; linarith))
  have hlz0 : 0 ≤ i / extent t.xsplit bx / extent t.ysplit by' := Int.ediv_nonneg (Int.ediv_nonneg hi0 hnx.le) hny.le
  have hly := Int.emod_lt_of_pos (i / extent t.xsplit bx) hny
  have hly0 := Int.emod_nonneg (i / extent t.xsplit bx) hny.ne'
  have hlx := Int.emod_lt_of_pos i hnx
  have hlx0 := Int.emod_nonneg i hnx.ne'
  generalize i / extent t.xsplit bx / extent t.ysplit by' = lz at *
  generalize i / extent t.xsplit bx % extent t.ysplit by' = ly at *
  generalize i % extent t.xsplit bx = lx at *
  unfold Across
  simp only [xsplit, ysplit, zsplit] at *
  rw [across_piece_iff hv.bx_pos hv.bx_le hbx.1 hbx.2 hjx.1 hjx.2 hlx0 hlx,
    across_piece_iff hv.by_pos hv.by_le hby.1 hby.2 hjy.1 hjy.2 hly0 hly,
    across_piece_iff hv.bz_pos hv.bz_le hbz.1 hbz.2 hjz.1 hjz.2 hlz0 hlz,
    piece_mem_iff hv.bx_pos hv.bx_le hbx.1 hbx.2 hjx.1 hjx.2 hlx0 hlx,
    piece_mem_iff hv.by_pos hv.by_le hby.1 hby.2 hjy.1 hjy.2 hly0 hly,
    piece_mem_iff hv.bz_pos hv.bz_le hbz.1 hbz.2 hjz.1 hjz.2 hlz0 hlz]
  simp only [expGhosts, List.mem_append, List.mem_ite_nil_right, List.mem_singleton]
  have shift : ∀ {P : Prop} {e a b c : Int}, e = t.blockIndex a b c →
      (P → (0 ≤ a ∧ a < t.blocksX) ∧ (0 ≤ b ∧ b < t.blocksY)) →
      (P ∧ j = e ↔ P ∧ jx = a ∧ jy = b ∧ jz = c) := fun he hr =>
    and_congr_right fun hP => by
      rw [he, ← hJ]
      exact blockIndex_eq_blockIndex_iff hjx hjy (hr hP).1 (hr hP).2
  rw [shift (a := bx - 1) (b := by') (c := bz) (by rw [← hK]; unfold blockIndex; ring)
      fun h => ⟨⟨by omega, by omega⟩, hby⟩,
    shift (a := bx + 1) (b := by') (c := bz) (by rw [← hK]; unfold blockIndex; ring)
      fun h => ⟨⟨by omega, by omega⟩, hby⟩,
    shift (a := bx) (b := by' - 1) (c := bz) (by rw [← hK]; unfold blockIndex; ring)
      fun h => ⟨hbx, ⟨by omega, by omega⟩⟩,
    shift (a := bx) (b := by' + 1) (c := bz) (by rw [← hK]; unfold blockIndex; ring)
      fun h => ⟨hbx, ⟨by omega, by omega⟩⟩,
    shift (a := bx) (b := by') (c := bz - 1) (by rw [← hK]; unfold blockIndex; ring)
      fun _ => ⟨hbx, hby⟩,
    shift (a := bx) (b := by') (c := bz + 1) (by rw [← hK]; unfold blockIndex; ring)
      fun _ => ⟨hbx, hby⟩]
  constructor
  · rintro (⟨⟨rfl, h⟩ | ⟨rfl, h⟩, rfl, rfl⟩ | ⟨⟨rfl, h⟩ | ⟨rfl, h⟩, rfl, rfl⟩ |
      ⟨⟨rfl, h⟩ | ⟨rfl, h⟩, rfl, rfl⟩)
    · exact .inl (.inl (.inl (.inl (.inr ⟨⟨h, by omega⟩, rfl, rfl, rfl⟩))))
    · exact .inl (.inl (.inl (.inl (.inl ⟨⟨h, by omega⟩, rfl, rfl, rfl⟩))))
    · exact .inl (.inl (.inr ⟨⟨h, by omega⟩, rfl, rfl, rfl⟩))
    · exact .inl (.inl (.inl (.inr ⟨⟨h, by omega⟩, rfl, rfl, rfl⟩)))
    · exact .inr ⟨⟨h, by omega⟩, rfl, rfl, rfl⟩
    · exact .inl (.inr ⟨⟨h, by omega⟩, rfl, rfl, rfl⟩)
  · rintro (((((⟨⟨h, -⟩, rfl, rfl, rfl⟩ | ⟨⟨h, -⟩, rfl, rfl, rfl⟩) | ⟨⟨h, -⟩, rfl, rfl, rfl⟩) |
      ⟨⟨h, -⟩, rfl, rfl, rfl⟩) | ⟨⟨h, -⟩, rfl, rfl, rfl⟩) | ⟨⟨h, -⟩, rfl, rfl, rfl⟩)
    · exact .inl ⟨.inr ⟨rfl, h⟩, rfl, rfl⟩
    · exact .inl ⟨.inl ⟨rfl, h⟩, rfl, rfl⟩
    · exact .inr (.inl ⟨.inr ⟨rfl, h⟩, rfl, rfl⟩)
    · exact .inr (.inl ⟨.inl ⟨rfl, h⟩, rfl, rfl⟩)
    · exact .inr (.inr ⟨.inr ⟨rfl, h⟩, rfl, rfl⟩)
    · exact .inr (.inr ⟨.inl ⟨rfl, h⟩, rfl, rfl⟩)

end Cells

/-! ### The partitioning operations, point by point -/

section Partitions

variable {d : Fields} {j : Int} (hj0 : 0 ≤ j) (hj : j < t.nBlocks)
include hj0 hj

theorem nth_pCells (q : Int) :
    nth (t.performPartitioning d).pCells j q =
      (rect 0 (t.nCells - 1) q && decide (d.cellBlockid q = j)) := by
  simp only [performPartitioning, subspacesByField]
  rw [nth_map_points _ hj0 hj]

theorem nth_pFaces (p : Int) :
    nth (t.performPartitioning d).pFaces j p =
      (rect 0 (t.nFaces - 1) p && nth (t.performPartitioning d).pCells j (d.faceLeft p)) := by
  simp only [performPartitioning, subspacesByPreimage, subspacesByField, List.map_map]
  rw [nth_map_points _ hj0 hj, nth_map_points _ hj0 hj]
  rfl

theorem nth_pFacetypes {k : Int} (hk0 : 0 ≤ k) (hk : k < bcTotal) (p : Int) :
    nth (nthTypes (t.performPartitioning d).pFacetypes j) k p =
      (nth (t.performPartitioning d).pFaces j p && decide (d.faceType p = k)) := by
  simp only [performPartitioning, subspacesByPreimage, subspacesByField, List.map_map, nthTypes]
  rw [getD_map_points _ _ hj0 hj, Function.comp_apply, nth_map_points _ hk0 hk,
    nth_map_points _ hj0 hj]

theorem nth_pGhost (q : Int) :
    nth (t.performPartitioning d).pGhost j q = true ↔
      rect 0 (t.nCells - 1) q = true ∧ ∃ p ∈ points t.nFaces,
        (nth (t.performPartitioning d).pFaces j p = true ∧
          d.faceType p = FaceType.blockBorder.val) ∧ d.faceRight p = q := by
  simp only [performPartitioning, subspacesByImage, subspacesByPreimage, subspacesByField,
    List.map_map]
  rw [nth_map_points _ hj0 hj, nth_map_points _ hj0 hj]
  simp only [Function.comp_apply, subspaceByImage_apply,
    nth_map_points _ (show (0 : Int) ≤ FaceType.blockBorder.val by decide)
      (show FaceType.blockBorder.val < bcTotal by decide), Bool.and_eq_true, decide_eq_true_eq]

end Partitions

/-! ### On the data `initialize_data` writes -/

section Written

variable (hv : t.Valid) {d : Fields} (hd : t.Written d)
include hv hd

omit hd in
/-- A cell of block `k` is cell `S + m` of the blocks' numbering, for an `m` in the block. -/
theorem cellNumber_inBlock {k : Int} (hk0 : 0 ≤ k) (hk : k < t.nBlocks) {cx cy cz : Int}
    (hc : t.InBlock (t.blockCoords k).1 (t.blockCoords k).2.1 (t.blockCoords k).2.2 cx cy cz) :
    ∃ m, 0 ≤ m ∧ m < vecAt t.cellsPerBlock k ∧
      t.cellNumber cx cy cz = (t.cellsPerBlock.take k.toNat).sum + m := by
  obtain ⟨hbx, hby, hbz⟩ := blockCoords_mem hv hk0 hk
  obtain ⟨⟨hx0, hx⟩, ⟨hy0, hy⟩, ⟨hz0, hz⟩⟩ := hc
  obtain ⟨lx, rfl⟩ : ∃ lx, cx = vecAt t.xsplit (t.blockCoords k).1 + lx := ⟨_, (add_sub_cancel _ _).symm⟩
  obtain ⟨ly, rfl⟩ : ∃ ly, cy = vecAt t.ysplit (t.blockCoords k).2.1 + ly :=
    ⟨_, (add_sub_cancel _ _).symm⟩
  obtain ⟨lz, rfl⟩ : ∃ lz, cz = vecAt t.zsplit (t.blockCoords k).2.2 + lz :=
    ⟨_, (add_sub_cancel _ _).symm⟩
  have hlx : 0 ≤ lx ∧ lx < extent t.xsplit (t.blockCoords k).1 := ⟨by omega, by unfold extent; omega⟩
  have hly : 0 ≤ ly ∧ ly < extent t.ysplit (t.blockCoords k).2.1 := ⟨by omega, by unfold extent; omega⟩
  have hlz : 0 ≤ lz ∧ lz < extent t.zsplit (t.blockCoords k).2.2 := ⟨by omega, by unfold extent; omega⟩
  obtain ⟨hm0, hm⟩ := local_index_mem hlx.1 hlx.2 hly.1 hly.2 hlz.1 hlz.2
  rw [cellNumber_local hv hbx hby hbz hlx hly hlz, ← sum_take_cellsPerBlock hv hk0 hk.le]
  exact ⟨_, hm0, by rwa [vecAt_cellsPerBlock hv hk0 hk], rfl⟩

omit hd in
theorem cell_mem_nCells {k i : Int} (hk0 : 0 ≤ k) (hk : k < t.nBlocks) (hi0 : 0 ≤ i)
    (hi : i < vecAt t.cellsPerBlock k) :
    0 ≤ (t.cellsPerBlock.take k.toNat).sum + i ∧ (t.cellsPerBlock.take k.toNat).sum + i < t.nCells := by
  have hkl : k.toNat < t.cellsPerBlock.length := by rw [cellsPerBlock, length_blockLoop hv]; omega
  exact prefix_mem (cellsPerBlock_pos hv) hkl hi0 (by rwa [← vecAt_eq_getElem hkl])

/-- `p_cells[j]` holds cell `S + i` of block `k` exactly when `j = k`. -/
theorem pCells_at {j k i : Int} (hj0 : 0 ≤ j) (hj : j < t.nBlocks) (hk0 : 0 ≤ k)
    (hk : k < t.nBlocks) (hi0 : 0 ≤ i) (hi : i < vecAt t.cellsPerBlock k) :
    nth (t.performPartitioning d).pCells j ((t.cellsPerBlock.take k.toNat).sum + i) =
      decide (j = k) := by
  have hm := cell_mem_nCells hv hk0 hk hi0 hi
  rw [nth_pCells hj0 hj, hd.cell k hk0 hk i hi0 hi, rect_apply, decide_eq_true (by omega),
    Bool.true_and]
  exact decide_eq_decide.2 eq_comm

omit hd in
theorem length_taskFaces {k : Int} (hk0 : 0 ≤ k) (hk : k < t.nBlocks) :
    ((t.taskFaces k).length : Int) = vecAt t.facesPerBlock k := by
  obtain ⟨hbx, hby, hbz⟩ := blockCoords_mem hv hk0 hk
  rw [vecAt_facesPerBlock hv hk0 hk, taskFaces, length_faceList hv hbx hby hbz]

omit hd in
theorem face_mem_nFaces {k : Int} (hk0 : 0 ≤ k) (hk : k < t.nBlocks) {i : Nat}
    (hi : i < (t.taskFaces k).length) :
    0 ≤ (t.facesPerBlock.take k.toNat).sum + i ∧ (t.facesPerBlock.take k.toNat).sum + i < t.nFaces := by
  have hkl : k.toNat < t.facesPerBlock.length := by rw [facesPerBlock, length_blockLoop hv]; omega
  have := length_taskFaces hv hk0 hk
  exact prefix_mem (facesPerBlock_pos hv) hkl (Int.natCast_nonneg i)
    (by rw [← vecAt_eq_getElem hkl]; omega)

/-- `p_faces[j]` holds the `i`-th face of block `k` exactly when `j = k`: its left cell lies in
block `k`. -/
theorem pFaces_at {j k : Int} (hj0 : 0 ≤ j) (hj : j < t.nBlocks) (hk0 : 0 ≤ k)
    (hk : k < t.nBlocks) {i : Nat} (hi : i < (t.taskFaces k).length) :
    nth (t.performPartitioning d).pFaces j ((t.facesPerBlock.take k.toNat).sum + i) =
      decide (j = k) := by
  obtain ⟨hbx, hby, hbz⟩ := blockCoords_mem hv hk0 hk
  obtain ⟨cx, cy, cz, hc, hleft⟩ := faceList_left hv hbx hby hbz (List.getElem_mem hi)
  obtain ⟨m, hm0, hm, hnum⟩ := cellNumber_inBlock hv hk0 hk hc
  have hf := face_mem_nFaces hv hk0 hk hi
  rw [nth_pFaces hj0 hj, (hd.face k hk0 hk i hi).1, hleft, hnum,
    pCells_at hv hd hj0 hj hk0 hk hm0 hm, rect_apply, decide_eq_true (by omega), Bool.true_and]

/-- `p_facetypes[j][kk]` holds the `i`-th face of block `k` exactly when `j = k` and `kk` is the
`exptype` of the face. -/
theorem pFacetypes_at {j k kk : Int} (hj0 : 0 ≤ j) (hj : j < t.nBlocks) (hk0 : 0 ≤ k)
    (hk : k < t.nBlocks) (hkk0 : 0 ≤ kk) (hkk : kk < bcTotal) {i : Nat}
    (hi : i < (t.taskFaces k).length) :
    nth (nthTypes (t.performPartitioning d).pFacetypes j) kk
        ((t.facesPerBlock.take k.toNat).sum + i) =
      (decide (j = k) && decide (kk = (t.expType i (t.blockCoords k).1 (t.blockCoords k).2.1
        (t.blockCoords k).2.2 (extent t.xsplit (t.blockCoords k).1)
        (extent t.ysplit (t.blockCoords k).2.1) (extent t.zsplit (t.blockCoords k).2.2)).val)) := by
  obtain ⟨hbx, hby, hbz⟩ := blockCoords_mem hv hk0 hk
  have htypes := congrArg (fun l => l[i]?) (map_ftype_faceList hv hbx hby hbz)
  have hf : (i : Int) < faceCount (extent t.xsplit (t.blockCoords k).1)
      (extent t.ysplit (t.blockCoords k).2.1) (extent t.zsplit (t.blockCoords k).2.2) := by
    rw [← length_faceList hv hbx hby hbz]
    exact_mod_cast hi
  rw [← taskFaces] at htypes
  simp only [List.getElem?_map, List.getElem?_eq_getElem hi, getElem?_map_points _ hf,
    Option.map_some', Option.some.injEq] at htypes
  rw [nth_pFacetypes hj0 hj hkk0 hkk, pFaces_at hv hd hj0 hj hk0 hk hi,
    (hd.face k hk0 hk i hi).2.2, htypes]
  exact congrArg _ (decide_eq_decide.2 eq_comm)

/-- The faces of `p_faces[j]` of type `BC_BLOCK_BORDER` with right cell `q` are the block-border
faces task `j` writes with right cell `q`. -/
theorem exists_border_face_iff {j : Int} (hj0 : 0 ≤ j) (hj : j < t.nBlocks) (q : Int) :
    (∃ p ∈ points t.nFaces, (nth (t.performPartitioning d).pFaces j p = true ∧
        d.faceType p = FaceType.blockBorder.val) ∧ d.faceRight p = q) ↔
      ∃ face ∈ t.taskFaces j, face.ftype = FaceType.blockBorder.val ∧ face.right = q := by
  constructor
  · rintro ⟨p, hp, ⟨hpf, htype⟩, hright⟩
    rw [mem_points] at hp
    obtain ⟨k, hk, hi0, hi⟩ := exists_prefix (facesPerBlock_pos hv) hp.1 hp.2
    have hk' : (k : Int) < t.nBlocks := by
      rw [facesPerBlock, length_blockLoop hv] at hk
      omega
    have hlen := length_taskFaces hv (Int.natCast_nonneg k) hk'
    rw [vecAt_eq_getElem (by simpa using hk)] at hlen
    simp only [Int.toNat_natCast] at hlen
    obtain ⟨i, hi'⟩ : ∃ i : Nat, (i : Int) = p - (t.facesPerBlock.take k).sum :=
      ⟨(p - (t.facesPerBlock.take k).sum).toNat, by omega⟩
    have hik : i < (t.taskFaces k).length := by omega
    have hface := hd.face k (Int.natCast_nonneg k) hk' i hik
    have hpf' := pFaces_at hv hd hj0 hj (Int.natCast_nonneg k) hk' hik
    rw [Int.toNat_natCast, show (t.facesPerBlock.take k).sum + (i : Int) = p by omega] at hface hpf'
    rw [hpf', decide_eq_true_iff] at hpf
    subst hpf
    exact ⟨_, List.getElem_mem hik, hface.2.2 ▸ htype, hface.2.1 ▸ hright⟩
  · rintro ⟨face, hface, htype, hright⟩
    obtain ⟨i, hi, rfl⟩ := List.mem_iff_getElem.1 hface
    have hf := hd.face j hj0 hj i hi
    exact ⟨_, mem_points.2 (face_mem_nFaces hv hj0 hj hi),
      ⟨by rw [pFaces_at hv hd hj0 hj hj0 hj hi, decide_eq_true rfl], hf.2.2.trans htype⟩,
      hf.2.1.trans hright⟩

/-- `p_ghost[j]` holds the `i`-th cell of block `k` exactly when `j` is one of the `exp_ghosts`
that `check_partitioning` lists for the cell. -/
theorem pGhost_at {j k i : Int} (hj0 : 0 ≤ j) (hj : j < t.nBlocks) (hk0 : 0 ≤ k)
    (hk : k < t.nBlocks) (hi0 : 0 ≤ i) (hi : i < vecAt t.cellsPerBlock k) :
    nth (t.performPartitioning d).pGhost j ((t.cellsPerBlock.take k.toNat).sum + i) =
      decide (j ∈ t.expGhosts k (t.blockCoords k).1 (t.blockCoords k).2.1 (t.blockCoords k).2.2
        (extent t.xsplit (t.blockCoords k).1) (extent t.ysplit (t.blockCoords k).2.1)
        (extent t.zsplit (t.blockCoords k).2.2)
        (i % extent t.xsplit (t.blockCoords k).1)
        (i / extent t.xsplit (t.blockCoords k).1 % extent t.ysplit (t.blockCoords k).2.1)
        (i / extent t.xsplit (t.blockCoords k).1 / extent t.ysplit (t.blockCoords k).2.1)) := by
  obtain ⟨hjx, hjy, hjz⟩ := blockCoords_mem hv hj0 hj
  have hm := cell_mem_nCells hv hk0 hk hi0 hi
  rw [Bool.eq_iff_iff, nth_pGhost hj0 hj, exists_border_face_iff hv hd hj0 hj, decide_eq_true_iff,
    taskFaces, exists_faceList_border hv hjx hjy hjz, ← across_blockCell_iff hv hk0 hk hi0 hi hj0 hj,
    rect_apply, decide_eq_true_iff]
  constructor
  · rintro ⟨-, cx, cy, cz, hA, heq⟩
    have hc := across_mem hv hjx hjy hjz hA
    have h := (cellNumber_eq_sum_iff hv hc.1 hc.2.1 hc.2.2 hk0 hk hi0 hi).1 heq.symm
    rw [Prod.mk.injEq, Prod.mk.injEq] at h
    rwa [← h.1, ← h.2.1, ← h.2.2]
  · intro hA
    exact ⟨⟨by omega, by omega⟩, _, _, _, hA, (cellNumber_blockCell_sum hv hk0 hk hi0 hi).symm⟩

end Written

end Realm.DepPart.MiniAeroTest
