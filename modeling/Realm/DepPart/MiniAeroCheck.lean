import Realm.DepPart.MiniAeroPartition

/-!
# `check_partitioning` of `MiniAeroTest` is exact

The checker walks the blocks in order with a running cell point `pc` and face point `pf`, so the
`i`-th cell of block `k` it looks at is `S + i` and the `i`-th face `S' + i`, `S` and `S'` the
cells and faces of the blocks before `k`. It counts one error for each block `j` whose subspace
disagrees with the expected membership. Its face assertion always holds, so it reports no error
exactly when every subspace holds what it expects at every point, and `MiniAeroPartition` shows
that `perform_partitioning` computes exactly those subspaces from what `initialize_data` writes.
-/

namespace Realm.DepPart

/-- The same loop where a step can fail an assertion, when no step does. -/
theorem foldlM_count (g : Int → Int → Option Nat) {n : Int} (hn : 0 ≤ n) (e : Nat) (s : Int)
    (h : ∀ i ∈ points n, g i (s + i) = some ((g i (s + i)).getD 0)) :
    (points n).foldlM (fun (a : Nat × Int) i => do
        let x ← g i a.2
        pure (a.1 + x, a.2 + 1)) (e, s) =
      some (e + ((points n).map fun i => (g i (s + i)).getD 0).sum, s + n) := by
  obtain ⟨m, rfl⟩ := Int.eq_ofNat_of_zero_le hn
  induction m with
  | zero => simp [points]
  | succ m ih =>
    rw [Nat.cast_succ, points_succ (by omega)] at h ⊢
    rw [List.foldlM_append, ih (by omega) fun i hi => h i (List.mem_append_left _ hi)]
    simp only [Option.bind_eq_bind, Option.some_bind, List.foldlM_cons, List.foldlM_nil]
    rw [h _ (List.mem_append_right _ (List.mem_singleton_self _))]
    simp only [Option.some_bind, Option.pure_def, List.map_append, List.map_cons, List.map_nil, List.sum_append, List.sum_cons,
      List.sum_nil, Option.some.injEq, Prod.mk.injEq]
    constructor <;> omega

namespace MiniAeroTest

variable {t : MiniAeroTest}

/-- The errors `check_partitioning` counts for block `k`, whose cells start at the sum of
`cells_per_block` before `k` and whose faces at that of `faces_per_block`. -/
def blockErrors (t : MiniAeroTest) (parts : Partitions) (k : Int) : Nat :=
  ((points (vecAt t.cellsPerBlock k)).map fun i =>
      t.cellErrors parts k i ((t.cellsPerBlock.take k.toNat).sum + i)).sum +
    ((points (vecAt t.facesPerBlock k)).map fun i =>
      (t.faceErrors parts k i ((t.facesPerBlock.take k.toNat).sum + i)).getD 0).sum

section Checker

variable (hv : t.Valid) (parts : Partitions)
include hv

/-- The assertion of the face loop, `lr_faces + du_faces + bf_faces == faces_per_block[blkid]`,
always holds. -/
theorem faceErrors_eq_some {k : Int} (hk0 : 0 ≤ k) (hk : k < t.nBlocks) (i pf : Int) :
    t.faceErrors parts k i pf = some ((t.faceErrors parts k i pf).getD 0) := by
  have h := vecAt_facesPerBlock hv hk0 hk
  unfold faceCount at h
  simp only [faceErrors]
  rw [if_neg (by omega)]
  rfl

theorem checkBlock_eq {k : Int} (hk0 : 0 ≤ k) (hk : k < t.nBlocks) (e : Nat) (pc pf : Int) :
    t.checkBlock parts (e, pc, pf) k =
      some (e + ((points (vecAt t.cellsPerBlock k)).map fun i => t.cellErrors parts k i (pc + i)).sum +
          ((points (vecAt t.facesPerBlock k)).map fun i =>
            (t.faceErrors parts k i (pf + i)).getD 0).sum,
        pc + vecAt t.cellsPerBlock k, pf + vecAt t.facesPerBlock k) := by
  have hkl : k.toNat < t.cellsPerBlock.length := by rw [cellsPerBlock, length_blockLoop hv]; omega
  have hkf : k.toNat < t.facesPerBlock.length := by rw [facesPerBlock, length_blockLoop hv]; omega
  have hc := cellsPerBlock_pos hv _ (List.getElem_mem hkl)
  have hf := facesPerBlock_pos hv _ (List.getElem_mem hkf)
  rw [← vecAt_eq_getElem hkl] at hc
  rw [← vecAt_eq_getElem hkf] at hf
  simp only [checkBlock]
  rw [foldl_count _ hc.le, foldlM_count _ hf.le _ _ fun i _ => faceErrors_eq_some hv parts hk0 hk _ _]
  rfl

theorem foldlM_checkBlock {n : Int} (hn0 : 0 ≤ n) (hn : n ≤ t.nBlocks) :
    (points n).foldlM (t.checkBlock parts) (0, 0, 0) =
      some (((points n).map (t.blockErrors parts)).sum, (t.cellsPerBlock.take n.toNat).sum,
        (t.facesPerBlock.take n.toNat).sum) := by
  obtain ⟨m, rfl⟩ := Int.eq_ofNat_of_zero_le hn0
  induction m with
  | zero => simp [points]
  | succ m ih =>
    have hkl : m < t.cellsPerBlock.length := by rw [cellsPerBlock, length_blockLoop hv]; omega
    have hkf : m < t.facesPerBlock.length := by rw [facesPerBlock, length_blockLoop hv]; omega
    rw [Nat.cast_succ, points_succ (by omega), List.foldlM_append, ih (by omega) (by omega)]
    simp only [Option.bind_eq_bind, Option.some_bind, List.foldlM_cons, List.foldlM_nil,
      Int.toNat_natCast]
    rw [checkBlock_eq hv parts (by omega) (by omega)]
    simp only [Option.some_bind, Option.pure_def, blockErrors, Int.toNat_natCast, List.map_append,
      List.map_cons, List.map_nil, List.sum_append, List.sum_cons, List.sum_nil,
      show (m + 1 : Int).toNat = m + 1 by omega, sum_take_succ hkl, sum_take_succ hkf,
      vecAt_eq_getElem (show (m : Int).toNat < t.cellsPerBlock.length by simpa using hkl),
      vecAt_eq_getElem (show (m : Int).toNat < t.facesPerBlock.length by simpa using hkf)]
    rw [add_zero, add_assoc]

theorem checkPartitioning_eq_some :
    t.checkPartitioning parts = some (((points t.nBlocks).map (t.blockErrors parts)).sum) := by
  have hn : 0 ≤ t.nBlocks := (mul_pos (mul_pos hv.bx_pos hv.by_pos) hv.bz_pos).le
  simp only [checkPartitioning]
  rw [foldlM_checkBlock hv parts hn le_rfl]
  rfl

omit hv in
/-- The cell loop counts at most two errors per block for a cell. -/
theorem cellErrors_le (k i pc : Int) : t.cellErrors parts k i pc ≤ 2 * t.nBlocks.toNat := by
  unfold cellErrors
  refine (Nat.add_le_add (List.countP_le_length _) (List.countP_le_length _)).trans ?_
  rw [length_points]
  omega

omit hv in
/-- The face loop counts at most one error per block, and one per block and face type. -/
theorem faceErrors_le (k i pf : Int) : (t.faceErrors parts k i pf).getD 0 ≤ 7 * t.nBlocks.toNat := by
  unfold faceErrors
  dsimp only
  split_ifs
  · exact Nat.zero_le _
  · have htypes : ∀ j ∈ points t.nBlocks, ∀ (f : Int → Bool),
        (points bcTotal).countP f ≤ 6 := fun _ _ f =>
      (List.countP_le_length f).trans (by simp [bcTotal])
    refine (Nat.add_le_add (List.countP_le_length _)
      (sum_map_le_mul _ _ fun j hj => htypes j hj _)).trans ?_
    rw [length_points]
    omega

/-- The errors counted for block `k`: at most two per block for each of its cells, and seven
per block for each of its faces. -/
theorem blockErrors_le {k : Int} (hk0 : 0 ≤ k) (hk : k < t.nBlocks) :
    (t.blockErrors parts k : Int) ≤
      vecAt t.cellsPerBlock k * (2 * t.nBlocks) + vecAt t.facesPerBlock k * (7 * t.nBlocks) := by
  have hkl : k.toNat < t.cellsPerBlock.length := by rw [cellsPerBlock, length_blockLoop hv]; omega
  have hkf : k.toNat < t.facesPerBlock.length := by rw [facesPerBlock, length_blockLoop hv]; omega
  have hc := cellsPerBlock_pos hv _ (List.getElem_mem hkl)
  have hf := facesPerBlock_pos hv _ (List.getElem_mem hkf)
  rw [← vecAt_eq_getElem hkl] at hc
  rw [← vecAt_eq_getElem hkf] at hf
  have h1 := sum_map_le_mul (points (vecAt t.cellsPerBlock k))
    (fun i => t.cellErrors parts k i ((t.cellsPerBlock.take k.toNat).sum + i)) fun i _ =>
      cellErrors_le parts k i _
  have h2 := sum_map_le_mul (points (vecAt t.facesPerBlock k))
    (fun i => (t.faceErrors parts k i ((t.facesPerBlock.take k.toNat).sum + i)).getD 0) fun i _ =>
      faceErrors_le parts k i _
  rw [length_points] at h1 h2
  have hnat : t.blockErrors parts k ≤ (vecAt t.cellsPerBlock k).toNat * (2 * t.nBlocks.toNat) +
      (vecAt t.facesPerBlock k).toNat * (7 * t.nBlocks.toNat) := Nat.add_le_add h1 h2
  have hint := Int.ofNat_le.2 hnat
  push_cast at hint
  rwa [Int.toNat_of_nonneg hc.le, Int.toNat_of_nonneg hf.le,
    Int.toNat_of_nonneg (show 0 ≤ t.nBlocks by omega)] at hint

/-- `check_partitioning` returns, with at most `2 + 7` errors per block for each cell and
face. -/
theorem checkPartitioning_le :
    ∃ e, t.checkPartitioning parts = some e ∧
      (e : Int) ≤ t.nBlocks * (2 * t.nCells + 7 * t.nFaces) := by
  refine ⟨_, checkPartitioning_eq_some hv parts, ?_⟩
  rw [Nat.cast_list_sum, List.map_map]
  refine (List.sum_le_sum fun k hk => blockErrors_le hv parts (mem_points.1 hk).1
    (mem_points.1 hk).2).trans (le_of_eq ?_)
  rw [List.sum_map_add, List.sum_map_mul_right, List.sum_map_mul_right, nCells, nFaces,
    cellsPerBlock, facesPerBlock, blockLoop_eq_map hv, blockLoop_eq_map hv, map_vecAt_points,
    map_vecAt_points]
  ring

omit hv in
/-- The cell loop counts no error for cell `pc` exactly when it is in `p_cells[j]` for `j = blkid`
only, and in `p_ghost[j]` for the `exp_ghosts` `j` only. -/
theorem cellErrors_eq_zero_iff (k i pc : Int) :
    t.cellErrors parts k i pc = 0 ↔ ∀ j ∈ points t.nBlocks,
      nth parts.pCells j pc = decide (j = k) ∧
      nth parts.pGhost j pc = decide (j ∈ t.expGhosts k (t.blockCoords k).1 (t.blockCoords k).2.1
        (t.blockCoords k).2.2 (extent t.xsplit (t.blockCoords k).1)
        (extent t.ysplit (t.blockCoords k).2.1) (extent t.zsplit (t.blockCoords k).2.2)
        (i % extent t.xsplit (t.blockCoords k).1)
        (i / extent t.xsplit (t.blockCoords k).1 % extent t.ysplit (t.blockCoords k).2.1)
        (i / extent t.xsplit (t.blockCoords k).1 / extent t.ysplit (t.blockCoords k).2.1)) := by
  simp only [cellErrors, Nat.add_eq_zero_iff, List.countP_eq_zero, bne_iff_ne, ne_eq, not_not]
  exact ⟨fun h j hj => ⟨(h.1 j hj).symm, (h.2 j hj).symm⟩,
    fun h => ⟨fun j hj => (h j hj).1.symm, fun j hj => (h j hj).2.symm⟩⟩

/-- The face loop counts no error for face `pf` exactly when it is in `p_faces[j]` for
`j = blkid` only, and in `p_facetypes[j][kk]` for `j = blkid` and its `exptype` `kk` only. -/
theorem faceErrors_eq_zero_iff {k : Int} (hk0 : 0 ≤ k) (hk : k < t.nBlocks) (i pf : Int) :
    (t.faceErrors parts k i pf).getD 0 = 0 ↔ ∀ j ∈ points t.nBlocks,
      nth parts.pFaces j pf = decide (j = k) ∧ ∀ kk ∈ points bcTotal,
        nth (nthTypes parts.pFacetypes j) kk pf =
          (decide (j = k) && decide (kk = (t.expType i (t.blockCoords k).1 (t.blockCoords k).2.1
            (t.blockCoords k).2.2 (extent t.xsplit (t.blockCoords k).1)
            (extent t.ysplit (t.blockCoords k).2.1) (extent t.zsplit (t.blockCoords k).2.2)).val)) := by
  have h := vecAt_facesPerBlock hv hk0 hk
  unfold faceCount at h
  simp only [faceErrors]
  rw [if_neg (by omega)]
  simp only [Option.getD_some, Nat.add_eq_zero_iff, List.countP_eq_zero, bne_iff_ne, ne_eq,
    not_not, List.sum_eq_zero_iff, List.forall_mem_map]
  exact ⟨fun h j hj => ⟨(h.1 j hj).symm, fun kk hkk => (h.2 j hj kk hkk).symm⟩,
    fun h => ⟨fun j hj => (h j hj).1.symm, fun j hj kk hkk => ((h j hj).2 kk hkk).symm⟩⟩

theorem checkPartitioning_eq_zero_iff :
    t.checkPartitioning parts = some 0 ↔ ∀ k ∈ points t.nBlocks,
      (∀ i ∈ points (vecAt t.cellsPerBlock k),
        t.cellErrors parts k i ((t.cellsPerBlock.take k.toNat).sum + i) = 0) ∧
      ∀ i ∈ points (vecAt t.facesPerBlock k),
        (t.faceErrors parts k i ((t.facesPerBlock.take k.toNat).sum + i)).getD 0 = 0 := by
  rw [checkPartitioning_eq_some hv, Option.some.injEq, List.sum_eq_zero_iff, List.forall_mem_map]
  simp only [blockErrors, Nat.add_eq_zero_iff, List.sum_eq_zero_iff, List.forall_mem_map]

end Checker

/-- Two partitionings hold the same points in every subspace `check_partitioning` looks at, at
every point it looks at. -/
structure Agrees (t : MiniAeroTest) (parts ref : Partitions) : Prop where
  pCells : ∀ j ∈ points t.nBlocks, ∀ q ∈ points t.nCells, nth parts.pCells j q = nth ref.pCells j q
  pGhost : ∀ j ∈ points t.nBlocks, ∀ q ∈ points t.nCells, nth parts.pGhost j q = nth ref.pGhost j q
  pFaces : ∀ j ∈ points t.nBlocks, ∀ p ∈ points t.nFaces, nth parts.pFaces j p = nth ref.pFaces j p
  pFacetypes : ∀ j ∈ points t.nBlocks, ∀ k ∈ points bcTotal, ∀ p ∈ points t.nFaces,
    nth (nthTypes parts.pFacetypes j) k p = nth (nthTypes ref.pFacetypes j) k p

section Expected

variable (hv : t.Valid) {d : Fields} (hd : t.Written d) {j k i : Int} (hj : j ∈ points t.nBlocks)
  (hk : k ∈ points t.nBlocks)
include hv hd hj hk

/-! What `check_partitioning` expects, point by point, is what `perform_partitioning` computes: -/

theorem expect_pCells (hi : i ∈ points (vecAt t.cellsPerBlock k)) :
    nth (t.performPartitioning d).pCells j ((t.cellsPerBlock.take k.toNat).sum + i) =
      decide (j = k) :=
  pCells_at hv hd (mem_points.1 hj).1 (mem_points.1 hj).2 (mem_points.1 hk).1 (mem_points.1 hk).2
    (mem_points.1 hi).1 (mem_points.1 hi).2

theorem expect_pGhost (hi : i ∈ points (vecAt t.cellsPerBlock k)) :
    nth (t.performPartitioning d).pGhost j ((t.cellsPerBlock.take k.toNat).sum + i) =
      decide (j ∈ t.expGhosts k (t.blockCoords k).1 (t.blockCoords k).2.1 (t.blockCoords k).2.2
        (extent t.xsplit (t.blockCoords k).1) (extent t.ysplit (t.blockCoords k).2.1)
        (extent t.zsplit (t.blockCoords k).2.2)
        (i % extent t.xsplit (t.blockCoords k).1)
        (i / extent t.xsplit (t.blockCoords k).1 % extent t.ysplit (t.blockCoords k).2.1)
        (i / extent t.xsplit (t.blockCoords k).1 / extent t.ysplit (t.blockCoords k).2.1)) :=
  pGhost_at hv hd (mem_points.1 hj).1 (mem_points.1 hj).2 (mem_points.1 hk).1 (mem_points.1 hk).2
    (mem_points.1 hi).1 (mem_points.1 hi).2

theorem expect_pFaces (hi : i ∈ points (vecAt t.facesPerBlock k)) :
    nth (t.performPartitioning d).pFaces j ((t.facesPerBlock.take k.toNat).sum + i) =
      decide (j = k) := by
  rw [mem_points] at hi hj hk
  obtain ⟨n, rfl⟩ := Int.eq_ofNat_of_zero_le hi.1
  have := length_taskFaces hv hk.1 hk.2
  exact pFaces_at hv hd hj.1 hj.2 hk.1 hk.2 (by omega)

theorem expect_pFacetypes (hi : i ∈ points (vecAt t.facesPerBlock k)) {kk : Int}
    (hkk : kk ∈ points bcTotal) :
    nth (nthTypes (t.performPartitioning d).pFacetypes j) kk
        ((t.facesPerBlock.take k.toNat).sum + i) =
      (decide (j = k) && decide (kk = (t.expType i (t.blockCoords k).1 (t.blockCoords k).2.1
        (t.blockCoords k).2.2 (extent t.xsplit (t.blockCoords k).1)
        (extent t.ysplit (t.blockCoords k).2.1) (extent t.zsplit (t.blockCoords k).2.2)).val)) := by
  rw [mem_points] at hi hj hk hkk
  obtain ⟨n, rfl⟩ := Int.eq_ofNat_of_zero_le hi.1
  have := length_taskFaces hv hk.1 hk.2
  exact pFacetypes_at hv hd hj.1 hj.2 hk.1 hk.2 hkk.1 hkk.2 (by omega)

end Expected

/-- `MiniAeroTest`'s check is exact: on every valid configuration small enough that its
`int` error counter cannot overflow (it counts at most `2 + 7` errors per block for each cell
and face), whatever its instances held before, `initialize_data` passes all its assertions,
and `check_partitioning` then returns a count below `2^31` on every partitioning, which is
`0` exactly when the partitioning agrees with what `perform_partitioning` computes from the
data, at every point and in every subspace the check looks at. -/
theorem miniaero_check_exact (t : MiniAeroTest) (hv : t.Valid)
    (herrors : t.nBlocks * (2 * t.nCells + 7 * t.nFaces) < 2 ^ 31) (junkCell : Int → Int)
    (junkFace : Int → Face) :
    ∃ d, t.initializeData junkCell junkFace = some d ∧ ∀ parts,
      (t.checkPartitioning parts = some 0 ↔ t.Agrees parts (t.performPartitioning d)) ∧
        ∃ e, t.checkPartitioning parts = some e ∧ e < 2 ^ 31 := by
  obtain ⟨d, hinit, hd⟩ := initializeData_written hv junkCell junkFace
  refine ⟨d, hinit, fun parts => ⟨?_, ?_⟩⟩
  swap
  · obtain ⟨e, he, hle⟩ := checkPartitioning_le hv parts
    exact ⟨e, he, by omega⟩
  have hC : t.cellsPerBlock.length = t.nBlocks.toNat := by rw [cellsPerBlock, length_blockLoop hv]
  have hF : t.facesPerBlock.length = t.nBlocks.toNat := by rw [facesPerBlock, length_blockLoop hv]
  rw [checkPartitioning_eq_zero_iff hv]
  constructor
  · intro h
    refine ⟨fun j hj q hq => ?_, fun j hj q hq => ?_, fun j hj p hp => ?_,
      fun j hj kk hkk p hp => ?_⟩
    · obtain ⟨k, hk, i, hi, rfl⟩ := exists_prefix_points (cellsPerBlock_pos hv) hC hq
      rw [((cellErrors_eq_zero_iff parts k i _).1 ((h k hk).1 i hi) j hj).1,
        expect_pCells hv hd hj hk hi]
    · obtain ⟨k, hk, i, hi, rfl⟩ := exists_prefix_points (cellsPerBlock_pos hv) hC hq
      rw [((cellErrors_eq_zero_iff parts k i _).1 ((h k hk).1 i hi) j hj).2,
        expect_pGhost hv hd hj hk hi]
    · obtain ⟨k, hk, i, hi, rfl⟩ := exists_prefix_points (facesPerBlock_pos hv) hF hp
      rw [((faceErrors_eq_zero_iff hv parts (mem_points.1 hk).1 (mem_points.1 hk).2 i _).1
        ((h k hk).2 i hi) j hj).1, expect_pFaces hv hd hj hk hi]
    · obtain ⟨k, hk, i, hi, rfl⟩ := exists_prefix_points (facesPerBlock_pos hv) hF hp
      rw [((faceErrors_eq_zero_iff hv parts (mem_points.1 hk).1 (mem_points.1 hk).2 i _).1
        ((h k hk).2 i hi) j hj).2 kk hkk, expect_pFacetypes hv hd hj hk hi hkk]
  · intro h k hk
    refine ⟨fun i hi => (cellErrors_eq_zero_iff parts k i _).2 fun j hj => ⟨?_, ?_⟩,
      fun i hi => (faceErrors_eq_zero_iff hv parts (mem_points.1 hk).1 (mem_points.1 hk).2 i _).2
        fun j hj => ⟨?_, fun kk hkk => ?_⟩⟩
    · rw [h.pCells j hj _ (prefix_mem_points (cellsPerBlock_pos hv) hC hk hi),
        expect_pCells hv hd hj hk hi]
    · rw [h.pGhost j hj _ (prefix_mem_points (cellsPerBlock_pos hv) hC hk hi),
        expect_pGhost hv hd hj hk hi]
    · rw [h.pFaces j hj _ (prefix_mem_points (facesPerBlock_pos hv) hF hk hi),
        expect_pFaces hv hd hj hk hi]
    · rw [h.pFacetypes j hj kk hkk _ (prefix_mem_points (facesPerBlock_pos hv) hF hk hi),
        expect_pFacetypes hv hd hj hk hi hkk]

/-- The default configuration (a `4 × 4 × 4` mesh in `2 × 2 × 2` blocks) is valid, and its
check passes on the partitioning the runtime computes. -/
theorem miniaero_check_exact_defaults :
    ({} : MiniAeroTest).Valid ∧
      ({} : MiniAeroTest).nBlocks * (2 * ({} : MiniAeroTest).nCells + 7 * ({} : MiniAeroTest).nFaces) <
        2 ^ 31 ∧ ∃ d, ({} : MiniAeroTest).initializeData (fun _ => 0) (fun _ => ⟨0, 0, 0⟩) = some d ∧
        ({} : MiniAeroTest).checkPartitioning (({} : MiniAeroTest).performPartitioning d) = some 0 := by
  have hv : ({} : MiniAeroTest).Valid := ⟨by decide, by decide, by decide, by decide, by decide, by decide,
    by decide, by decide, by decide, by decide⟩
  have herrors : ({} : MiniAeroTest).nBlocks *
      (2 * ({} : MiniAeroTest).nCells + 7 * ({} : MiniAeroTest).nFaces) < 2 ^ 31 := by decide
  obtain ⟨d, hd, h⟩ := miniaero_check_exact {} hv herrors (fun _ => 0) fun _ => ⟨0, 0, 0⟩
  exact ⟨hv, herrors, d, hd, ((h _).1).2 ⟨fun _ _ _ _ => rfl, fun _ _ _ _ => rfl, fun _ _ _ _ => rfl,
    fun _ _ _ _ _ _ => rfl⟩⟩

end MiniAeroTest

end Realm.DepPart
