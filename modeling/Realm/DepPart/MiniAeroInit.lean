import Realm.DepPart.MiniAeroGrid

/-!
# `init_data_task` and `initialize_data` of `MiniAeroTest`

On a valid configuration `global_cell_pointer` always returns, so every face loop of
`init_data_task` runs to its end. This module reads off what the loops write: the faces of a
loop are `loopFaces`, the left cell of each face lies in the task's block, its type on plane
`x` is the `exptype` that `check_partitioning` expects of it, and the block-border faces lead
exactly to the cells across the block's borders.
-/

namespace Realm.DepPart

/-! ### A face loop whose cell numbering never fails -/

/-- The face `faceLoop` builds at plane `f` and inner coordinates `a` from a cell numbering
`num` that never fails. -/
def loopFace (lo hi global : Int) (low high : FaceType) (num : Int → Int × Int → Int)
    (fa : Int × Int × Int) : Face :=
  let ft := boundaryType fa.1 lo hi global low high
  ⟨num (fa.1 - if ft.2 then 0 else 1) fa.2, num (fa.1 - if ft.2 then 1 else 0) fa.2, ft.1.val⟩

/-- The faces of one face loop whose cell numbering never fails. -/
def loopFaces (lo hi global : Int) (low high : FaceType) (inner : List (Int × Int))
    (num : Int → Int × Int → Int) : List Face :=
  ((span lo (hi + 1)).flatMap fun f => inner.map fun a => (f, a)).map
    (loopFace lo hi global low high num)

theorem faceLoop_eq_some {lo hi global : Int} {low high : FaceType} {inner : List (Int × Int)}
    {cell : Int → Int × Int → Option Int} {num : Int → Int × Int → Int}
    (hcell : ∀ f a, cell f a = some (num f a)) :
    faceLoop lo hi global low high inner cell = some (loopFaces lo hi global low high inner num) :=
  mapM_eq_some_map _ _ _ fun fa _ => by simp [loopFace, hcell]

theorem FaceType.val_eq_blockBorder_iff (x : FaceType) :
    x.val = FaceType.blockBorder.val ↔ x = .blockBorder := by
  cases x <;> decide

@[simp] theorem mem_flatMap_span {a b c d : Int} {x : Int × Int} :
    (x ∈ (span a b).flatMap fun u => (span c d).map fun v => (u, v)) ↔
      (a ≤ x.1 ∧ x.1 < b) ∧ (c ≤ x.2 ∧ x.2 < d) := by
  obtain ⟨u, v⟩ := x
  simp

section Loop

variable {lo hi global : Int} {low high : FaceType} {num : Int → Int × Int → Int}

/-- The left cell of a face lies on a plane of cells of the loop's block. -/
theorem loopFace_left {f : Int} (hlo : lo ≤ f) (hhi : f ≤ hi) (hlohi : lo < hi) (a : Int × Int) :
    ∃ c, lo ≤ c ∧ c < hi ∧ (loopFace lo hi global low high num (f, a)).left = num c a := by
  by_cases hf : f = lo
  · exact ⟨lo, le_rfl, hlohi, by simp [loopFace, boundaryType, hf]⟩
  · refine ⟨f - 1, by omega, by omega, ?_⟩
    simp only [loopFace, boundaryType, hf, if_false]
    split_ifs <;> simp_all

/-- A face is a block-border face exactly on a low plane not at `0` or a high plane not at the
end of the axis; its right cell is then the cell across that plane. -/
theorem loopFace_border_iff {f q : Int} (hlo : lo ≤ f) (hhi : f ≤ hi) (hlohi : lo < hi)
    (hlow : low ≠ .blockBorder) (hhigh : high ≠ .blockBorder) (a : Int × Int) :
    ((loopFace lo hi global low high num (f, a)).ftype = FaceType.blockBorder.val ∧
      (loopFace lo hi global low high num (f, a)).right = q) ↔
      (f = lo ∧ lo ≠ 0 ∧ q = num (lo - 1) a) ∨ (f = hi ∧ hi ≠ global ∧ q = num hi a) := by
  simp only [loopFace, boundaryType, FaceType.val_eq_blockBorder_iff]
  split_ifs with h1 h2 h3 h4 <;> subst_vars <;> simp_all [eq_comm]
  all_goals omega

variable {inner : List (Int × Int)}

theorem mem_loopFaces {face : Face} :
    face ∈ loopFaces lo hi global low high inner num ↔
      ∃ f, lo ≤ f ∧ f ≤ hi ∧ ∃ a ∈ inner, face = loopFace lo hi global low high num (f, a) := by
  simp only [loopFaces, List.mem_map, List.mem_flatMap, mem_span]
  constructor
  · rintro ⟨_, ⟨f, hf, a, ha, rfl⟩, rfl⟩
    exact ⟨f, hf.1, by omega, a, ha, rfl⟩
  · rintro ⟨f, hlo, hhi, a, ha, rfl⟩
    exact ⟨_, ⟨f, ⟨hlo, by omega⟩, a, ha, rfl⟩, rfl⟩

/-- Every face of a loop has its left cell on a plane of the loop's block. -/
theorem loopFaces_left (hlohi : lo < hi) {face : Face}
    (hface : face ∈ loopFaces lo hi global low high inner num) :
    ∃ a ∈ inner, ∃ c, lo ≤ c ∧ c < hi ∧ face.left = num c a := by
  obtain ⟨f, hlo, hhi, a, ha, rfl⟩ := mem_loopFaces.1 hface
  exact ⟨a, ha, loopFace_left hlo hhi hlohi a⟩

/-- The right cells of the block-border faces of a loop: the cells across its low plane, unless
that is `0`, and across its high plane, unless that is the end of the axis. -/
theorem exists_loopFaces_border (hlohi : lo < hi) (hlow : low ≠ .blockBorder)
    (hhigh : high ≠ .blockBorder) (q : Int) :
    (∃ face ∈ loopFaces lo hi global low high inner num,
      face.ftype = FaceType.blockBorder.val ∧ face.right = q) ↔
      ∃ a ∈ inner, (lo ≠ 0 ∧ q = num (lo - 1) a) ∨ (hi ≠ global ∧ q = num hi a) := by
  constructor
  · rintro ⟨face, hface, hb⟩
    obtain ⟨f, hlo, hhi, a, ha, rfl⟩ := mem_loopFaces.1 hface
    rcases (loopFace_border_iff hlo hhi hlohi hlow hhigh a).1 hb with ⟨-, h1, h2⟩ | ⟨-, h1, h2⟩
    exacts [⟨a, ha, .inl ⟨h1, h2⟩⟩, ⟨a, ha, .inr ⟨h1, h2⟩⟩]
  · rintro ⟨a, ha, ⟨h1, h2⟩ | ⟨h1, h2⟩⟩
    · exact ⟨_, mem_loopFaces.2 ⟨lo, le_rfl, hlohi.le, a, ha, rfl⟩,
        (loopFace_border_iff le_rfl hlohi.le hlohi hlow hhigh a).2 (.inl ⟨rfl, h1, h2⟩)⟩
    · exact ⟨_, mem_loopFaces.2 ⟨hi, hlohi.le, le_rfl, a, ha, rfl⟩,
        (loopFace_border_iff hlohi.le le_rfl hlohi hlow hhigh a).2 (.inr ⟨rfl, h1, h2⟩)⟩

/-- The same over a loop whose inner coordinates range over a rectangle `[a, b) × [c, d)`. -/
theorem exists_loopFaces_border_cells {a b c d : Int} (hlohi : lo < hi)
    (hlow : low ≠ .blockBorder) (hhigh : high ≠ .blockBorder) (q : Int) :
    (∃ face ∈ loopFaces lo hi global low high
        ((span a b).flatMap fun u => (span c d).map fun v => (u, v)) num,
      face.ftype = FaceType.blockBorder.val ∧ face.right = q) ↔
      ∃ w u v, (lo ≠ 0 ∧ w = lo - 1 ∨ hi ≠ global ∧ w = hi) ∧ (a ≤ u ∧ u < b) ∧
        (c ≤ v ∧ v < d) ∧ q = num w (u, v) := by
  rw [exists_loopFaces_border hlohi hlow hhigh]
  constructor
  · rintro ⟨⟨u, v⟩, hx, ⟨h, rfl⟩ | ⟨h, rfl⟩⟩ <;> rw [mem_flatMap_span] at hx
    · exact ⟨_, u, v, .inl ⟨h, rfl⟩, hx.1, hx.2, rfl⟩
    · exact ⟨_, u, v, .inr ⟨h, rfl⟩, hx.1, hx.2, rfl⟩
  · rintro ⟨w, u, v, ⟨h, rfl⟩ | ⟨h, rfl⟩, hu, hv, rfl⟩
    · exact ⟨(u, v), mem_flatMap_span.2 ⟨hu, hv⟩, .inl ⟨h, rfl⟩⟩
    · exact ⟨(u, v), mem_flatMap_span.2 ⟨hu, hv⟩, .inr ⟨h, rfl⟩⟩

/-- The types a loop writes, in order: plane `lo + k / m` for the `k`-th face, with `m` faces to
a plane. -/
theorem map_ftype_loopFaces (hlohi : lo < hi) :
    (loopFaces lo hi global low high inner num).map Face.ftype =
      (points ((hi + 1 - lo) * inner.length)).map fun k =>
        (boundaryType (lo + k / inner.length) lo hi global low high).1.val := by
  have hrep : ∀ x : Int, inner.map (fun _ => x) = (points inner.length).map fun _ => x := by
    intro x
    simp [List.map_const']
  rw [points_mul (by omega) (by positivity)]
  simp only [loopFaces, span, List.map_flatMap, List.map_map, List.flatMap_map]
  refine List.flatMap_congr fun q _ => ?_
  change inner.map (fun _ => (boundaryType (lo + q) lo hi global low high).1.val) = _
  rw [hrep]
  refine List.map_congr_left fun r hr => ?_
  rw [mem_points] at hr
  simp only [Function.comp_apply, (ediv_emod_digit (q := q) hr.1 hr.2).1]

end Loop

/-! ### Face types by plane -/

/-- The type of the faces on plane `x` of a block `n` cells wide, block `b` of the `B` blocks of
its axis: the two outer planes take the boundary condition on the boundary of the mesh and are
block borders elsewhere. -/
def planeType (x n b B : Int) (low high : FaceType) : FaceType :=
  if x = n then (if b = B - 1 then high else .blockBorder)
  else if x = 0 then (if b = 0 then low else .blockBorder)
  else .interior

/-- The type `init_data_task` gives plane `x` of block `b` is `planeType`: the block's low cut is
`0` only for the first block, and its high cut the end of the axis only for the last. -/
theorem boundaryType_plane {total pieces b x : Int} (hp : 0 < pieces) (ht : pieces ≤ total)
    (hb0 : 0 ≤ b) (hb : b < pieces) (low high : FaceType) :
    (boundaryType (vecAt (splitEvenly total pieces) b + x) (vecAt (splitEvenly total pieces) b)
      (vecAt (splitEvenly total pieces) (b + 1)) total low high).1 =
      planeType x (extent (splitEvenly total pieces) b) b pieces low high := by
  have h1 := vecAt_eq_zero_iff hp ht hb0 hb
  have h2 := vecAt_succ_eq_total_iff hp ht hb0 hb
  have h3 := one_le_extent hp ht hb0 hb
  unfold boundaryType planeType extent at *
  split_ifs <;> first | rfl | omega

/-- The types one face loop writes are the `planeType`s of its planes, `m` faces to a plane. -/
theorem map_ftype_plane {total pieces b m L : Int} (hp : 0 < pieces) (ht : pieces ≤ total)
    (hb0 : 0 ≤ b) (hb : b < pieces) {low high : FaceType} {F : Int → Int}
    (hL : L = (extent (splitEvenly total pieces) b + 1) * m)
    (hF : ∀ i, 0 ≤ i → i < L →
      F i = (planeType (i / m) (extent (splitEvenly total pieces) b) b pieces low high).val) :
    (points ((vecAt (splitEvenly total pieces) (b + 1) + 1 - vecAt (splitEvenly total pieces) b) *
        m)).map (fun k => (boundaryType (vecAt (splitEvenly total pieces) b + k / m)
          (vecAt (splitEvenly total pieces) b) (vecAt (splitEvenly total pieces) (b + 1)) total
          low high).1.val) =
      (points L).map F := by
  rw [hL, show vecAt (splitEvenly total pieces) (b + 1) + 1 - vecAt (splitEvenly total pieces) b =
    extent (splitEvenly total pieces) b + 1 by rw [extent]; ring]
  refine List.map_congr_left fun i hi => ?_
  rw [mem_points] at hi
  rw [hF i hi.1 (by rw [hL]; exact hi.2), boundaryType_plane hp ht hb0 hb]

theorem length_flatMap_span {α : Type} (a b c d : Int) (g : Int → Int → α) :
    ((span a b).flatMap fun u => (span c d).map (g u)).length = (b - a).toNat * (d - c).toNat := by
  simp only [List.length_flatMap, Function.comp_def, List.length_map, length_span, List.map_const',
    List.sum_replicate, smul_eq_mul]

namespace MiniAeroTest

/-- `exptype` of `check_partitioning`: the faces of a block come in the three chunks of its
loops, each typed by `planeType` with the problem's boundary conditions. -/
theorem expType_eq (t : MiniAeroTest) (i bx by' bz nx ny nz : Int) :
    t.expType i bx by' bz nx ny nz =
      if i < (nx + 1) * ny * nz then
        planeType (i / ny / nz) nx bx t.blocksX (xLow t.problemType) (xHigh t.problemType)
      else if i < (nx + 1) * ny * nz + nx * (ny + 1) * nz then
        planeType ((i - (nx + 1) * ny * nz) / nx / nz) ny by' t.blocksY (yLow t.problemType)
          (yHigh t.problemType)
      else
        planeType ((i - (nx + 1) * ny * nz - nx * (ny + 1) * nz) / nx / ny) nz bz t.blocksZ
          (zLow t.problemType) (zHigh t.problemType) := by
  unfold expType planeType
  cases t.problemType <;> rfl

variable {t : MiniAeroTest}

/-! ### `global_cell_pointer` always returns -/

/-- What `global_cell_pointer` returns; `-1` off the mesh. -/
def cellNumber (t : MiniAeroTest) (cx cy cz : Int) : Int := (t.globalCellPointer cx cy cz).getD (-1)

/-- On a valid configuration `global_cell_pointer` always returns: `find_split` finds a piece for
every coordinate on the mesh. -/
theorem globalCellPointer_eq_some (hv : t.Valid) (cx cy cz : Int) :
    t.globalCellPointer cx cy cz = some (t.cellNumber cx cy cz) := by
  suffices h : ∃ v, t.globalCellPointer cx cy cz = some v by
    obtain ⟨v, hv'⟩ := h
    rw [cellNumber, hv']
    rfl
  by_cases hoff : cx < 0 ∨ cx ≥ t.globalX ∨ cy < 0 ∨ cy ≥ t.globalY ∨ cz < 0 ∨ cz ≥ t.globalZ
  · exact ⟨-1, globalCellPointer_off hoff⟩
  · obtain ⟨bx, lx, hbx0, hbx, hlx0, hlx, rfl⟩ :=
      @exists_piece t.globalX t.blocksX cx hv.bx_pos (by omega) (by omega)
    obtain ⟨by', ly, hby0, hby, hly0, hly, rfl⟩ :=
      @exists_piece t.globalY t.blocksY cy hv.by_pos (by omega) (by omega)
    obtain ⟨bz, lz, hbz0, hbz, hlz0, hlz, rfl⟩ :=
      @exists_piece t.globalZ t.blocksZ cz hv.bz_pos (by omega) (by omega)
    exact ⟨_, globalCellPointer_local hv ⟨hbx0, hbx⟩ ⟨hby0, hby⟩ ⟨hbz0, hbz⟩ ⟨hlx0, hlx⟩ ⟨hly0, hly⟩
      ⟨hlz0, hlz⟩⟩

theorem cellNumber_local (hv : t.Valid) {bx by' bz lx ly lz : Int}
    (hbx : 0 ≤ bx ∧ bx < t.blocksX) (hby : 0 ≤ by' ∧ by' < t.blocksY)
    (hbz : 0 ≤ bz ∧ bz < t.blocksZ) (hlx : 0 ≤ lx ∧ lx < extent t.xsplit bx)
    (hly : 0 ≤ ly ∧ ly < extent t.ysplit by') (hlz : 0 ≤ lz ∧ lz < extent t.zsplit bz) :
    t.cellNumber (vecAt t.xsplit bx + lx) (vecAt t.ysplit by' + ly) (vecAt t.zsplit bz + lz) =
      t.cellStart bx by' bz +
        (lx + ly * extent t.xsplit bx + lz * extent t.xsplit bx * extent t.ysplit by') := by
  rw [cellNumber, globalCellPointer_local hv hbx hby hbz hlx hly hlz]
  rfl

/-! ### The faces of a block -/

/-- The faces `init_data_task` writes for block `(bx, by', bz)`. -/
def faceList (t : MiniAeroTest) (bx by' bz : Int) : List Face := (t.blockFaces bx by' bz).getD []

/-- The faces of a block are those of its three loops. -/
theorem faceList_eq (hv : t.Valid) (bx by' bz : Int) :
    t.faceList bx by' bz =
      loopFaces (vecAt t.xsplit bx) (vecAt t.xsplit (bx + 1)) t.globalX (xLow t.problemType)
        (xHigh t.problemType)
        ((span (vecAt t.zsplit bz) (vecAt t.zsplit (bz + 1))).flatMap fun cz =>
          (span (vecAt t.ysplit by') (vecAt t.ysplit (by' + 1))).map fun cy => (cz, cy))
        (fun fx a => t.cellNumber fx a.2 a.1) ++
      loopFaces (vecAt t.ysplit by') (vecAt t.ysplit (by' + 1)) t.globalY (yLow t.problemType)
        (yHigh t.problemType)
        ((span (vecAt t.zsplit bz) (vecAt t.zsplit (bz + 1))).flatMap fun cz =>
          (span (vecAt t.xsplit bx) (vecAt t.xsplit (bx + 1))).map fun cx => (cz, cx))
        (fun fy a => t.cellNumber a.2 fy a.1) ++
      loopFaces (vecAt t.zsplit bz) (vecAt t.zsplit (bz + 1)) t.globalZ (zLow t.problemType)
        (zHigh t.problemType)
        ((span (vecAt t.ysplit by') (vecAt t.ysplit (by' + 1))).flatMap fun cy =>
          (span (vecAt t.xsplit bx) (vecAt t.xsplit (bx + 1))).map fun cx => (cy, cx))
        (fun fz a => t.cellNumber a.2 a.1 fz) := by
  simp only [faceList, blockFaces, faceLoop_eq_some fun _ _ => globalCellPointer_eq_some hv _ _ _]
  rfl

theorem blockFaces_eq_some (hv : t.Valid) (bx by' bz : Int) :
    t.blockFaces bx by' bz = some (t.faceList bx by' bz) := by
  rw [faceList_eq hv]
  simp only [blockFaces, faceLoop_eq_some fun _ _ => globalCellPointer_eq_some hv _ _ _]
  rfl

/-- Cell `(cx, cy, cz)` lies in block `(bx, by', bz)`. -/
def InBlock (t : MiniAeroTest) (bx by' bz cx cy cz : Int) : Prop :=
  (vecAt t.xsplit bx ≤ cx ∧ cx < vecAt t.xsplit (bx + 1)) ∧
    (vecAt t.ysplit by' ≤ cy ∧ cy < vecAt t.ysplit (by' + 1)) ∧
    (vecAt t.zsplit bz ≤ cz ∧ cz < vecAt t.zsplit (bz + 1))

/-- Cell `(cx, cy, cz)` lies across a block border of block `(bx, by', bz)`: just beyond one of
the block's six sides that is not on the boundary of the mesh. -/
def Across (t : MiniAeroTest) (bx by' bz cx cy cz : Int) : Prop :=
  ((vecAt t.xsplit bx ≠ 0 ∧ cx = vecAt t.xsplit bx - 1 ∨
      vecAt t.xsplit (bx + 1) ≠ t.globalX ∧ cx = vecAt t.xsplit (bx + 1)) ∧
    (vecAt t.ysplit by' ≤ cy ∧ cy < vecAt t.ysplit (by' + 1)) ∧
    (vecAt t.zsplit bz ≤ cz ∧ cz < vecAt t.zsplit (bz + 1))) ∨
  ((vecAt t.ysplit by' ≠ 0 ∧ cy = vecAt t.ysplit by' - 1 ∨
      vecAt t.ysplit (by' + 1) ≠ t.globalY ∧ cy = vecAt t.ysplit (by' + 1)) ∧
    (vecAt t.xsplit bx ≤ cx ∧ cx < vecAt t.xsplit (bx + 1)) ∧
    (vecAt t.zsplit bz ≤ cz ∧ cz < vecAt t.zsplit (bz + 1))) ∨
  ((vecAt t.zsplit bz ≠ 0 ∧ cz = vecAt t.zsplit bz - 1 ∨
      vecAt t.zsplit (bz + 1) ≠ t.globalZ ∧ cz = vecAt t.zsplit (bz + 1)) ∧
    (vecAt t.xsplit bx ≤ cx ∧ cx < vecAt t.xsplit (bx + 1)) ∧
    (vecAt t.ysplit by' ≤ cy ∧ cy < vecAt t.ysplit (by' + 1)))

section Block

variable (hv : t.Valid) {bx by' bz : Int} (hbx : 0 ≤ bx ∧ bx < t.blocksX)
  (hby : 0 ≤ by' ∧ by' < t.blocksY) (hbz : 0 ≤ bz ∧ bz < t.blocksZ)
include hv hbx hby hbz

omit hby hbz in
theorem xsplit_lt : vecAt t.xsplit bx < vecAt t.xsplit (bx + 1) := by
  have : 1 ≤ extent t.xsplit bx := one_le_extent hv.bx_pos hv.bx_le hbx.1 hbx.2
  unfold extent at this
  omega

omit hbx hbz in
theorem ysplit_lt : vecAt t.ysplit by' < vecAt t.ysplit (by' + 1) := by
  have : 1 ≤ extent t.ysplit by' := one_le_extent hv.by_pos hv.by_le hby.1 hby.2
  unfold extent at this
  omega

omit hbx hby in
theorem zsplit_lt : vecAt t.zsplit bz < vecAt t.zsplit (bz + 1) := by
  have : 1 ≤ extent t.zsplit bz := one_le_extent hv.bz_pos hv.bz_le hbz.1 hbz.2
  unfold extent at this
  omega

/-- The left cell of every face of a block lies in the block. -/
theorem faceList_left {face : Face} (hface : face ∈ t.faceList bx by' bz) :
    ∃ cx cy cz, t.InBlock bx by' bz cx cy cz ∧ face.left = t.cellNumber cx cy cz := by
  rw [faceList_eq hv, List.mem_append, List.mem_append] at hface
  rcases hface with (hface | hface) | hface
  · obtain ⟨a, ha, c, hc1, hc2, hleft⟩ := loopFaces_left (xsplit_lt hv hbx) hface
    rw [mem_flatMap_span] at ha
    exact ⟨c, a.2, a.1, ⟨⟨hc1, hc2⟩, ha.2, ha.1⟩, hleft⟩
  · obtain ⟨a, ha, c, hc1, hc2, hleft⟩ := loopFaces_left (ysplit_lt hv hby) hface
    rw [mem_flatMap_span] at ha
    exact ⟨a.2, c, a.1, ⟨ha.2, ⟨hc1, hc2⟩, ha.1⟩, hleft⟩
  · obtain ⟨a, ha, c, hc1, hc2, hleft⟩ := loopFaces_left (zsplit_lt hv hbz) hface
    rw [mem_flatMap_span] at ha
    exact ⟨a.2, a.1, c, ⟨ha.2, ha.1, ⟨hc1, hc2⟩⟩, hleft⟩

omit hv hbx hby hbz in
theorem boundary_ne_blockBorder (pt : ProblemType) :
    xLow pt ≠ .blockBorder ∧ xHigh pt ≠ .blockBorder ∧ yLow pt ≠ .blockBorder ∧
      yHigh pt ≠ .blockBorder ∧ zLow pt ≠ .blockBorder ∧ zHigh pt ≠ .blockBorder := by
  cases pt <;> decide

/-- The block-border faces of a block lead exactly to the cells across its borders. -/
theorem exists_faceList_border (q : Int) :
    (∃ face ∈ t.faceList bx by' bz, face.ftype = FaceType.blockBorder.val ∧ face.right = q) ↔
      ∃ cx cy cz, t.Across bx by' bz cx cy cz ∧ q = t.cellNumber cx cy cz := by
  obtain ⟨h1, h2, h3, h4, h5, h6⟩ := boundary_ne_blockBorder t.problemType
  rw [faceList_eq hv]
  simp only [List.mem_append, or_and_right, exists_or]
  rw [exists_loopFaces_border_cells (xsplit_lt hv hbx) h1 h2,
    exists_loopFaces_border_cells (ysplit_lt hv hby) h3 h4,
    exists_loopFaces_border_cells (zsplit_lt hv hbz) h5 h6]
  constructor
  · rintro ((⟨w, u, v, h1, h2, h3, rfl⟩ | ⟨w, u, v, h1, h2, h3, rfl⟩) | ⟨w, u, v, h1, h2, h3, rfl⟩)
    · exact ⟨w, v, u, .inl ⟨h1, h3, h2⟩, rfl⟩
    · exact ⟨v, w, u, .inr (.inl ⟨h1, h3, h2⟩), rfl⟩
    · exact ⟨v, u, w, .inr (.inr ⟨h1, h3, h2⟩), rfl⟩
  · rintro ⟨cx, cy, cz, ⟨h1, h2, h3⟩ | ⟨h1, h2, h3⟩ | ⟨h1, h2, h3⟩, rfl⟩
    · exact .inl (.inl ⟨cx, cz, cy, h1, h3, h2, rfl⟩)
    · exact .inl (.inr ⟨cy, cz, cx, h1, h3, h2, rfl⟩)
    · exact .inr ⟨cz, cy, cx, h1, h3, h2, rfl⟩

/-- The cells of a block, in the order the cell loop of `init_data_task` visits them: the
`k`-th has the offsets `(k % nx, k / nx % ny, k / nx / ny)`. -/
theorem blockCells_eq_map :
    t.blockCells bx by' bz =
      (points (cellCount (extent t.xsplit bx) (extent t.ysplit by') (extent t.zsplit bz))).map
        fun k => (vecAt t.xsplit bx + k % extent t.xsplit bx,
          vecAt t.ysplit by' + k / extent t.xsplit bx % extent t.ysplit by',
          vecAt t.zsplit bz + k / extent t.xsplit bx / extent t.ysplit by') := by
  have hx := xsplit_lt hv hbx
  have hy := ysplit_lt hv hby
  have hz := zsplit_lt hv hbz
  rw [cellCount, show extent t.xsplit bx * extent t.ysplit by' * extent t.zsplit bz =
    extent t.zsplit bz * extent t.ysplit by' * extent t.xsplit bx by ring]
  refine Eq.trans ?_ (points_mul3 (by unfold extent; omega) (by unfold extent; omega)
    (by unfold extent; omega) fun r s u =>
      (vecAt t.xsplit bx + u, vecAt t.ysplit by' + s, vecAt t.zsplit bz + r))
  simp only [blockCells, span, List.flatMap_map, List.map_map]
  rfl

/-- `global_cell_pointer` numbers the `k`-th cell of a block `cellStart + k`. -/
theorem cellNumber_blockCell {k : Int} (hk0 : 0 ≤ k)
    (hk : k < cellCount (extent t.xsplit bx) (extent t.ysplit by') (extent t.zsplit bz)) :
    t.cellNumber (vecAt t.xsplit bx + k % extent t.xsplit bx)
        (vecAt t.ysplit by' + k / extent t.xsplit bx % extent t.ysplit by')
        (vecAt t.zsplit bz + k / extent t.xsplit bx / extent t.ysplit by') =
      t.cellStart bx by' bz + k := by
  have hx : 0 < extent t.xsplit bx := by have := xsplit_lt hv hbx; unfold extent; omega
  have hy : 0 < extent t.ysplit by' := by have := ysplit_lt hv hby; unfold extent; omega
  have hkx : k / extent t.xsplit bx < extent t.ysplit by' * extent t.zsplit bz :=
    Int.ediv_lt_of_lt_mul hx (by unfold cellCount at hk; linarith)
  rw [cellNumber_local hv hbx hby hbz ⟨Int.emod_nonneg _ hx.ne', Int.emod_lt_of_pos _ hx⟩
    ⟨Int.emod_nonneg _ hy.ne', Int.emod_lt_of_pos _ hy⟩
    ⟨Int.ediv_nonneg (Int.ediv_nonneg hk0 hx.le) hy.le, Int.ediv_lt_of_lt_mul hy (by linarith)⟩,
    mixed_radix]

theorem cellCount_pos : 0 < cellCount (extent t.xsplit bx) (extent t.ysplit by') (extent t.zsplit bz) := by
  have hx : 1 ≤ extent t.xsplit bx := one_le_extent hv.bx_pos hv.bx_le hbx.1 hbx.2
  have hy : 1 ≤ extent t.ysplit by' := one_le_extent hv.by_pos hv.by_le hby.1 hby.2
  have hz : 1 ≤ extent t.zsplit bz := one_le_extent hv.bz_pos hv.bz_le hbz.1 hbz.2
  exact mul_pos (mul_pos (by omega) (by omega)) (by omega)

theorem faceCount_pos : 0 < faceCount (extent t.xsplit bx) (extent t.ysplit by') (extent t.zsplit bz) := by
  have hx : 1 ≤ extent t.xsplit bx := one_le_extent hv.bx_pos hv.bx_le hbx.1 hbx.2
  have hy : 1 ≤ extent t.ysplit by' := one_le_extent hv.by_pos hv.by_le hby.1 hby.2
  have hz : 1 ≤ extent t.zsplit bz := one_le_extent hv.bz_pos hv.bz_le hbz.1 hbz.2
  have h1 := mul_pos (mul_pos (by omega : 0 < extent t.xsplit bx + 1) (by omega : 0 < extent t.ysplit by')) (by omega : 0 < extent t.zsplit bz)
  have h2 := mul_pos (mul_pos (by omega : 0 < extent t.xsplit bx) (by omega : 0 < extent t.ysplit by' + 1)) (by omega : 0 < extent t.zsplit bz)
  have h3 := mul_pos (mul_pos (by omega : 0 < extent t.xsplit bx) (by omega : 0 < extent t.ysplit by')) (by omega : 0 < extent t.zsplit bz + 1)
  unfold faceCount
  omega

end Block

/-- The types `init_data_task` writes for a block are, face by face, the `exptype` that
`check_partitioning` expects of them. -/
theorem map_ftype_faceList (hv : t.Valid) {bx by' bz : Int} (hbx : 0 ≤ bx ∧ bx < t.blocksX)
    (hby : 0 ≤ by' ∧ by' < t.blocksY) (hbz : 0 ≤ bz ∧ bz < t.blocksZ) :
    (t.faceList bx by' bz).map Face.ftype =
      (points (faceCount (extent t.xsplit bx) (extent t.ysplit by') (extent t.zsplit bz))).map
        fun i => (t.expType i bx by' bz (extent t.xsplit bx) (extent t.ysplit by')
          (extent t.zsplit bz)).val := by
  have hx : 1 ≤ extent t.xsplit bx := one_le_extent hv.bx_pos hv.bx_le hbx.1 hbx.2
  have hy : 1 ≤ extent t.ysplit by' := one_le_extent hv.by_pos hv.by_le hby.1 hby.2
  have hz : 1 ≤ extent t.zsplit bz := one_le_extent hv.bz_pos hv.bz_le hbz.1 hbz.2
  have hcast : ∀ {a b c d : Int}, a < b → c < d →
      (((b - a).toNat * (d - c).toNat : Nat) : Int) = (b - a) * (d - c) := fun h1 h2 => by
    rw [Nat.cast_mul, Int.toNat_of_nonneg (by omega), Int.toNat_of_nonneg (by omega)]
  unfold extent at hx hy hz
  rw [faceList_eq hv, List.map_append, List.map_append, map_ftype_loopFaces (by omega),
    map_ftype_loopFaces (by omega), map_ftype_loopFaces (by omega), length_flatMap_span,
    length_flatMap_span, length_flatMap_span, hcast (by omega) (by omega),
    hcast (by omega) (by omega), hcast (by omega) (by omega), faceCount,
    points_add (by positivity) (by positivity), points_add (by positivity) (by positivity),
    List.map_append, List.map_append, List.map_map, List.map_map]
  refine congrArg₂ _ (congrArg₂ _ ?_ ?_) ?_
  · refine map_ftype_plane hv.bx_pos hv.bx_le hbx.1 hbx.2 (by unfold extent xsplit ysplit zsplit; ring) fun i _ hi => ?_
    rw [expType_eq, if_pos hi, ediv_ediv_of_pos (by unfold extent; omega) (by unfold extent; omega),
      mul_comm]
    rfl
  · refine map_ftype_plane hv.by_pos hv.by_le hby.1 hby.2 (by unfold extent xsplit ysplit zsplit; ring) fun i _ hi => ?_
    rw [Function.comp_apply, expType_eq, if_neg (by omega), if_pos (by omega), add_sub_cancel_left,
      ediv_ediv_of_pos (by unfold extent; omega) (by unfold extent; omega), mul_comm]
    rfl
  · refine map_ftype_plane hv.bz_pos hv.bz_le hbz.1 hbz.2 (by unfold extent xsplit ysplit zsplit; ring) fun i _ hi => ?_
    have hL2 : 0 ≤ extent t.xsplit bx * (extent t.ysplit by' + 1) * extent t.zsplit bz := by
      unfold extent
      exact mul_nonneg (mul_nonneg (by omega) (by omega)) (by omega)
    rw [Function.comp_apply, expType_eq, if_neg (by omega), if_neg (by omega),
      show ∀ a b c : Int, a + b + c - a - b = c from fun a b c => by ring,
      ediv_ediv_of_pos (by unfold extent; omega) (by unfold extent; omega), mul_comm]
    rfl

section Task

variable (hv : t.Valid) {bx by' bz : Int} (hbx : 0 ≤ bx ∧ bx < t.blocksX)
  (hby : 0 ≤ by' ∧ by' < t.blocksY) (hbz : 0 ≤ bz ∧ bz < t.blocksZ)
include hv hbx hby hbz

theorem length_faceList :
    ((t.faceList bx by' bz).length : Int) =
      faceCount (extent t.xsplit bx) (extent t.ysplit by') (extent t.zsplit bz) := by
  have h := congrArg List.length (map_ftype_faceList hv hbx hby hbz)
  rw [List.length_map, List.length_map, length_points] at h
  rw [h, Int.toNat_of_nonneg (faceCount_pos hv hbx hby hbz).le]

omit hv hbx hby hbz in
theorem rectVolume_sub_one (lo : Int) {n : Int} (hn : 0 < n) : rectVolume lo (lo + n - 1) = n := by
  rw [rectVolume, if_pos (by omega)]
  ring

/-- `init_data_task` for the block `(bx, by', bz)` of task `i`, given the instances
`[cellStart, cellStart + c - 1]` and `[faceLo, faceLo + f - 1]`, passes all its assertions: it
writes block id `i` at the cells `cellStart, ..., cellStart + c - 1`, and the faces of the block
at `faceLo, ..., faceLo + f - 1`, in order. -/
theorem initDataTask_eq {i : Int} (hb : t.blockCoords i = (bx, by', bz)) (faceLo : Int) :
    t.initDataTask i (t.cellStart bx by' bz)
        (t.cellStart bx by' bz +
          cellCount (extent t.xsplit bx) (extent t.ysplit by') (extent t.zsplit bz) - 1)
        faceLo (faceLo + faceCount (extent t.xsplit bx) (extent t.ysplit by') (extent t.zsplit bz) - 1) =
      some ((span (t.cellStart bx by' bz) (t.cellStart bx by' bz +
          cellCount (extent t.xsplit bx) (extent t.ysplit by') (extent t.zsplit bz))).map
            (fun p => (p, i)),
        (span faceLo (faceLo + faceCount (extent t.xsplit bx) (extent t.ysplit by')
          (extent t.zsplit bz))).zip (t.faceList bx by' bz)) := by
  have hc := cellCount_pos hv hbx hby hbz
  have hf := faceCount_pos hv hbx hby hbz
  have hlen := length_faceList hv hbx hby hbz
  simp only [initDataTask, hb]
  rw [if_neg (by rw [rectVolume_sub_one _ hc]; exact not_not.2 rfl),
    if_neg (by rw [rectVolume_sub_one _ hf]; exact not_not.2 rfl),
    mapM_eq_some_map _ (fun c => (t.cellNumber c.1 c.2.1 c.2.2, i)) _ ?cells,
    blockFaces_eq_some hv]
  · simp only [Option.bind_eq_bind, Option.some_bind, hlen, sub_add_cancel, ne_eq,
      not_true_eq_false, if_false, Option.pure_def, Option.some.injEq, Prod.mk.injEq, and_true]
    rw [blockCells_eq_map hv hbx hby hbz, span, add_sub_cancel_left, List.map_map, List.map_map]
    refine List.map_congr_left fun k hk => ?_
    rw [mem_points] at hk
    simp only [Function.comp_apply, cellNumber_blockCell hv hbx hby hbz hk.1 hk.2]
  · intro c hc'
    rw [blockCells_eq_map hv hbx hby hbz, List.mem_map] at hc'
    obtain ⟨k, hk, rfl⟩ := hc'
    rw [mem_points] at hk
    simp only [globalCellPointer_eq_some hv, Option.bind_eq_bind, Option.some_bind,
      cellNumber_blockCell hv hbx hby hbz hk.1 hk.2]
    rw [if_pos (by omega)]
    rfl

end Task

/-! ### `initialize_data` -/

/-- The faces task `k` writes: those of its block. -/
def taskFaces (t : MiniAeroTest) (k : Int) : List Face :=
  t.faceList (t.blockCoords k).1 (t.blockCoords k).2.1 (t.blockCoords k).2.2

/-- What the tasks of `initialize_data` wrote, as the field data reads it back: block id `k` at
the cells of block `k`, and the `i`-th face of block `k` at the `i`-th point of its face
instance. -/
structure Written (t : MiniAeroTest) (d : Fields) : Prop where
  cell : ∀ k, 0 ≤ k → k < t.nBlocks → ∀ i, 0 ≤ i → i < vecAt t.cellsPerBlock k →
    d.cellBlockid ((t.cellsPerBlock.take k.toNat).sum + i) = k
  face : ∀ k, 0 ≤ k → k < t.nBlocks → ∀ (i : Nat) (hi : i < (t.taskFaces k).length),
    d.faceLeft ((t.facesPerBlock.take k.toNat).sum + i) = (t.taskFaces k)[i].left ∧
    d.faceRight ((t.facesPerBlock.take k.toNat).sum + i) = (t.taskFaces k)[i].right ∧
    d.faceType ((t.facesPerBlock.take k.toNat).sum + i) = (t.taskFaces k)[i].ftype

section Data

variable (hv : t.Valid)
include hv

theorem vecAt_cellsPerBlock {k : Int} (hk0 : 0 ≤ k) (hk : k < t.nBlocks) :
    vecAt t.cellsPerBlock k = cellCount (extent t.xsplit (t.blockCoords k).1)
      (extent t.ysplit (t.blockCoords k).2.1) (extent t.zsplit (t.blockCoords k).2.2) := by
  rw [cellsPerBlock, blockLoop_eq_map hv, vecAt_map_points _ hk0 hk]

theorem vecAt_facesPerBlock {k : Int} (hk0 : 0 ≤ k) (hk : k < t.nBlocks) :
    vecAt t.facesPerBlock k = faceCount (extent t.xsplit (t.blockCoords k).1)
      (extent t.ysplit (t.blockCoords k).2.1) (extent t.zsplit (t.blockCoords k).2.2) := by
  rw [facesPerBlock, blockLoop_eq_map hv, vecAt_map_points _ hk0 hk]

theorem cellsPerBlock_pos : ∀ x ∈ t.cellsPerBlock, 0 < x := by
  intro x hx
  rw [cellsPerBlock, blockLoop_eq_map hv, List.mem_map] at hx
  obtain ⟨k, hk, rfl⟩ := hx
  rw [mem_points] at hk
  obtain ⟨hbx, hby, hbz⟩ := blockCoords_mem hv hk.1 hk.2
  exact cellCount_pos hv hbx hby hbz

theorem facesPerBlock_pos : ∀ x ∈ t.facesPerBlock, 0 < x := by
  intro x hx
  rw [facesPerBlock, blockLoop_eq_map hv, List.mem_map] at hx
  obtain ⟨k, hk, rfl⟩ := hx
  rw [mem_points] at hk
  obtain ⟨hbx, hby, hbz⟩ := blockCoords_mem hv hk.1 hk.2
  exact faceCount_pos hv hbx hby hbz

/-- Task `k` of `initialize_data` passes its assertions on the instances
`create_weighted_subspaces` gives it. -/
theorem initDataTask_weighted {k : Int} (hk0 : 0 ≤ k) (hk : k < t.nBlocks) :
    t.initDataTask k ((weightedSubspaces t.cellsPerBlock).getD k.toNat (0, -1)).1
        ((weightedSubspaces t.cellsPerBlock).getD k.toNat (0, -1)).2
        ((weightedSubspaces t.facesPerBlock).getD k.toNat (0, -1)).1
        ((weightedSubspaces t.facesPerBlock).getD k.toNat (0, -1)).2 =
      some ((span (t.cellsPerBlock.take k.toNat).sum
          ((t.cellsPerBlock.take k.toNat).sum + vecAt t.cellsPerBlock k)).map (fun p => (p, k)),
        (span (t.facesPerBlock.take k.toNat).sum
          ((t.facesPerBlock.take k.toNat).sum + vecAt t.facesPerBlock k)).zip (t.taskFaces k)) := by
  have hc : k.toNat < t.cellsPerBlock.length := by rw [cellsPerBlock, length_blockLoop hv]; omega
  have hf : k.toNat < t.facesPerBlock.length := by rw [facesPerBlock, length_blockLoop hv]; omega
  obtain ⟨hbx, hby, hbz⟩ := blockCoords_mem hv hk0 hk
  rw [getD_weightedSubspaces hc, getD_weightedSubspaces hf, ← vecAt_eq_getElem hc,
    ← vecAt_eq_getElem hf, vecAt_cellsPerBlock hv hk0 hk, vecAt_facesPerBlock hv hk0 hk,
    sum_take_cellsPerBlock hv hk0 hk.le]
  exact initDataTask_eq hv hbx hby hbz rfl _

/-- `initialize_data` passes all its assertions, and its fields read back what its tasks
wrote. -/
theorem initializeData_written (junkCell : Int → Int) (junkFace : Int → Face) :
    ∃ d, t.initializeData junkCell junkFace = some d ∧ t.Written d := by
  have htasks := mapM_eq_some_map _ _ (points t.nBlocks) fun k hk =>
    initDataTask_weighted hv (mem_points.1 hk).1 (mem_points.1 hk).2
  have hlenC : t.cellsPerBlock.length = t.nBlocks.toNat := by rw [cellsPerBlock, length_blockLoop hv]
  have hlenF : t.facesPerBlock.length = t.nBlocks.toNat := by rw [facesPerBlock, length_blockLoop hv]
  refine ⟨_, by simp only [initializeData]; rw [htasks]; rfl, ⟨fun k hk0 hk i hi0 hi => ?_, fun k hk0 hk i hi => ?_⟩⟩
  · have hkl : k.toNat < t.cellsPerBlock.length := by omega
    dsimp only
    refine (fieldData_weighted (cellsPerBlock_pos hv) _ ?_ hkl hi0
      (by rwa [← vecAt_eq_getElem hkl])).trans ?_
    · simp [hlenC]
    rw [List.map_map, getD_map_points _ _ hk0 hk]
    refine readInstance_of_mem _ ?_ ?_
    · simpa [List.map_map, Function.comp_def] using nodup_span _ _
    · simp only [Function.comp_apply, List.mem_map, mem_span, Prod.mk.injEq, and_true]
      exact ⟨_, ⟨by omega, by omega⟩, rfl⟩
  · have hkl : k.toNat < t.facesPerBlock.length := by omega
    have hlen : ((t.taskFaces k).length : Int) = vecAt t.facesPerBlock k := by
      obtain ⟨hbx, hby, hbz⟩ := blockCoords_mem hv hk0 hk
      rw [vecAt_facesPerBlock hv hk0 hk, taskFaces, length_faceList hv hbx hby hbz]
    have hspan : (span (t.facesPerBlock.take k.toNat).sum
        ((t.facesPerBlock.take k.toNat).sum + vecAt t.facesPerBlock k)).length = (t.taskFaces k).length := by
      simp only [length_span]
      omega
    have hread : fieldData junkFace ((weightedSubspaces t.facesPerBlock).zip
        (((points t.nBlocks).map fun k => ((span (t.cellsPerBlock.take k.toNat).sum
          ((t.cellsPerBlock.take k.toNat).sum + vecAt t.cellsPerBlock k)).map (fun p => (p, k)),
        (span (t.facesPerBlock.take k.toNat).sum
          ((t.facesPerBlock.take k.toNat).sum + vecAt t.facesPerBlock k)).zip (t.taskFaces k))).map
          Prod.snd)) ((t.facesPerBlock.take k.toNat).sum + i) = (t.taskFaces k)[i] := by
      refine (fieldData_weighted (facesPerBlock_pos hv) _ ?_ hkl (by omega)
        (by rw [← vecAt_eq_getElem hkl]; omega)).trans ?_
      · simp [hlenF]
      rw [List.map_map, getD_map_points _ _ hk0 hk, Function.comp_apply]
      refine readInstance_of_mem _ ?_ ?_
      · rw [List.map_fst_zip _ _ hspan.le]
        exact nodup_span _ _
      · rw [List.mem_iff_getElem]
        refine ⟨i, by simp only [List.length_zip, hspan, min_self]; exact hi, ?_⟩
        rw [List.getElem_zip, getElem_span]
    dsimp only
    rw [hread]
    exact ⟨rfl, rfl, rfl⟩

end Data

end MiniAeroTest

end Realm.DepPart
