import Realm.DepPart.Split

/-!
# `MiniAeroTest`: a block-decomposed mesh of cells and faces

`MiniAeroTest` of `deppart.cc` cuts a `global_x × global_y × global_z` mesh of cells into
`blocks_x × blocks_y × blocks_z` blocks by `split_evenly`, and numbers the cells block by block
(`global_cell_pointer`). Its `init_data_task` writes, for one block, the block id of every cell
and the faces of the block: for each axis, every face plane from the block's low cut to its high
cut, with the cells on its two sides and a boundary-condition type. `perform_partitioning` splits
the cells by block id, the faces by their left cell (a preimage) and by type, and takes the
ghost cells of a block as the image of its block-border faces through their right cell.
`check_partitioning` recomputes from the block layout alone which block every cell and face
belongs to, which faces have which type, and which blocks see a cell as a ghost.

This module is the model, translated from the source. The runtime's operations are their set
meaning (`Realm.DepPart.Ops`).
-/

namespace Realm.DepPart

/-- `MiniAeroTest::ProblemType`. -/
inductive ProblemType where
  | pType0
  | pType1
  | pType2
  deriving DecidableEq, Repr

/-- `MiniAeroTest::FaceType`, without `BC_TOTAL`. -/
inductive FaceType where
  | interior
  | tangent
  | extrapolate
  | inflow
  | noslip
  | blockBorder
  deriving DecidableEq, Repr

/-- The value of a `FaceType` enumerator, as the face type field holds it. -/
def FaceType.val : FaceType → Int
  | .interior => 0
  | .tangent => 1
  | .extrapolate => 2
  | .inflow => 3
  | .noslip => 4
  | .blockBorder => 5

/-- `BC_TOTAL`. -/
def bcTotal : Int := 6

/-- The parameters of `MiniAeroTest`, with their `WithDefault` values. -/
structure MiniAeroTest where
  problemType : ProblemType := .pType0
  globalX : Int := 4
  globalY : Int := 4
  globalZ : Int := 4
  blocksX : Int := 2
  blocksY : Int := 2
  blocksZ : Int := 2

/-- A face as `init_data_task` writes it into the three face fields. -/
structure Face where
  left : Int
  right : Int
  ftype : Int
  deriving DecidableEq, Repr

/-- The cells of a block of `nx × ny × nz` cells. -/
def cellCount (nx ny nz : Int) : Int := nx * ny * nz

/-- The faces of a block of `nx × ny × nz` cells: left/right, down/up and back/front. -/
def faceCount (nx ny nz : Int) : Int :=
  (nx + 1) * ny * nz + nx * (ny + 1) * nz + nx * ny * (nz + 1)

/-- The type and orientation of face plane `f` of a block spanning the planes `lo` to `hi` of
an axis of `global` cells, as the face loops of `init_data_task` set `ftype` and `reversed`: the
low face is reversed, and a face on the boundary of the mesh takes the boundary condition
`low` or `high` of the problem, one between two blocks `BC_BLOCK_BORDER`. -/
def boundaryType (f lo hi global : Int) (low high : FaceType) : FaceType × Bool :=
  if f = lo then (if f = 0 then low else .blockBorder, true)
  else if f = hi then (if f = global then high else .blockBorder, false)
  else (.interior, false)

/-- One face loop of `init_data_task`: for each face plane `f` from `lo` to `hi` and each cell
`a` of the two inner loops, in order, the face between the cells at `f - 1` and `f` (the
`left` one at `f` on a reversed face). `cell` is `global_cell_pointer` with the plane
coordinate on this axis. -/
def faceLoop (lo hi global : Int) (low high : FaceType) (inner : List (Int × Int))
    (cell : Int → Int × Int → Option Int) : Option (List Face) :=
  ((span lo (hi + 1)).flatMap fun f => inner.map fun a => (f, a)).mapM fun fa => do
    let ft := boundaryType fa.1 lo hi global low high
    let left ← cell (fa.1 - if ft.2 then 0 else 1) fa.2
    let right ← cell (fa.1 - if ft.2 then 1 else 0) fa.2
    pure ⟨left, right, ft.1.val⟩

namespace MiniAeroTest

/-- The configurations the test runs on: at least one block on each axis, and, as the
constructor asserts, no more blocks than cells ("don't allow degenerate blocks"). The test
computes in 32-bit `int`, and this model over `Int`: the configuration is also small enough
that nothing the constructor, `global_cell_pointer` and `init_data_task` compute overflows.
`split_evenly` multiplies `total * i` for `i <= pieces`; every cell count, face count and
cell number is at most the total face count. -/
structure Valid (t : MiniAeroTest) : Prop where
  bx_pos : 0 < t.blocksX
  by_pos : 0 < t.blocksY
  bz_pos : 0 < t.blocksZ
  bx_le : t.blocksX ≤ t.globalX
  by_le : t.blocksY ≤ t.globalY
  bz_le : t.blocksZ ≤ t.globalZ
  x_cuts_fit : t.globalX * t.blocksX < 2 ^ 31
  y_cuts_fit : t.globalY * t.blocksY < 2 ^ 31
  z_cuts_fit : t.globalZ * t.blocksZ < 2 ^ 31
  faces_fit : (t.globalX + t.blocksX) * t.globalY * t.globalZ +
    t.globalX * (t.globalY + t.blocksY) * t.globalZ +
    t.globalX * t.globalY * (t.globalZ + t.blocksZ) < 2 ^ 31

variable (t : MiniAeroTest)

/-- `xsplit`, `ysplit`, `zsplit`: the cut planes of the constructor. -/
def xsplit : List Int := splitEvenly t.globalX t.blocksX
def ysplit : List Int := splitEvenly t.globalY t.blocksY
def zsplit : List Int := splitEvenly t.globalZ t.blocksZ

/-- The block loops of the constructor, `bz` outermost and `bx` innermost: the order of
`cells_per_block` and `faces_per_block`. -/
def blockLoop {α : Type} (f : Int → Int → Int → α) : List α :=
  (points t.blocksZ).flatMap fun bz => (points t.blocksY).flatMap fun by' =>
    (points t.blocksX).map fun bx => f bx by' bz

/-- `cells_per_block`. -/
def cellsPerBlock : List Int :=
  t.blockLoop fun bx by' bz => cellCount (extent t.xsplit bx) (extent t.ysplit by')
    (extent t.zsplit bz)

/-- `faces_per_block`. -/
def facesPerBlock : List Int :=
  t.blockLoop fun bx by' bz => faceCount (extent t.xsplit bx) (extent t.ysplit by')
    (extent t.zsplit bz)

/-- `n_blocks`. -/
def nBlocks : Int := t.blocksX * t.blocksY * t.blocksZ

/-- `n_cells`. -/
def nCells : Int := t.cellsPerBlock.sum

/-- `n_faces`. -/
def nFaces : Int := t.facesPerBlock.sum

/-- The last two assertions of the constructor. -/
def CountsAsserted : Prop :=
  t.nCells = t.globalX * t.globalY * t.globalZ ∧
    t.nFaces = (t.globalX + t.blocksX) * t.globalY * t.globalZ +
      t.globalX * (t.globalY + t.blocksY) * t.globalZ +
      t.globalX * t.globalY * (t.globalZ + t.blocksZ)

/-- `MiniAeroTest::global_cell_pointer(cx, cy, cz)`: `-1` off the mesh; `none` when an
assertion of `find_split` fails. -/
def globalCellPointer (cx cy cz : Int) : Option Int :=
  if cx < 0 ∨ cx ≥ t.globalX ∨ cy < 0 ∨ cy ≥ t.globalY ∨ cz < 0 ∨ cz ≥ t.globalZ then some (-1)
  else do
    let zi ← findSplit t.zsplit cz
    let yi ← findSplit t.ysplit cy
    let xi ← findSplit t.xsplit cx
    let localZ := extent t.zsplit zi
    let localY := extent t.ysplit yi
    let localX := extent t.xsplit xi
    pure (t.globalX * t.globalY * vecAt t.zsplit zi + t.globalX * vecAt t.ysplit yi * localZ +
      vecAt t.xsplit xi * localY * localZ +
      ((cx - vecAt t.xsplit xi) + (cy - vecAt t.ysplit yi) * localX +
        (cz - vecAt t.zsplit zi) * localX * localY))

/-- The block of task `index`: `bx = index % blocks_x`, `by = (index / blocks_x) % blocks_y`,
`bz = index / blocks_x / blocks_y`. -/
def blockCoords (index : Int) : Int × Int × Int :=
  (index % t.blocksX, index / t.blocksX % t.blocksY, index / t.blocksX / t.blocksY)

/-- The boundary conditions of the left/right faces: `switch(problem_type)` at `fx == 0` and at
`fx == global_x`. -/
def xLow : ProblemType → FaceType
  | .pType0 => .extrapolate
  | .pType1 => .inflow
  | .pType2 => .inflow

def xHigh : ProblemType → FaceType
  | .pType0 => .extrapolate
  | .pType1 => .extrapolate
  | .pType2 => .extrapolate

/-- The boundary conditions of the down/up faces. -/
def yLow : ProblemType → FaceType
  | .pType0 => .tangent
  | .pType1 => .noslip
  | .pType2 => .tangent

def yHigh : ProblemType → FaceType
  | .pType0 => .tangent
  | .pType1 => .extrapolate
  | .pType2 => .tangent

/-- The boundary conditions of the back/front faces. -/
def zLow : ProblemType → FaceType
  | .pType0 => .tangent
  | .pType1 => .tangent
  | .pType2 => .tangent

def zHigh : ProblemType → FaceType
  | .pType0 => .tangent
  | .pType1 => .tangent
  | .pType2 => .tangent

/-- The faces of block `(bx, by', bz)` in the order `init_data_task` writes them: left/right
faces (`fx`, then `cz`, then `cy`), down/up faces (`fy`, `cz`, `cx`), back/front faces
(`fz`, `cy`, `cx`). -/
def blockFaces (bx by' bz : Int) : Option (List Face) := do
  let xlo := vecAt t.xsplit bx
  let xhi := vecAt t.xsplit (bx + 1)
  let ylo := vecAt t.ysplit by'
  let yhi := vecAt t.ysplit (by' + 1)
  let zlo := vecAt t.zsplit bz
  let zhi := vecAt t.zsplit (bz + 1)
  let lr ← faceLoop xlo xhi t.globalX (xLow t.problemType) (xHigh t.problemType)
    ((span zlo zhi).flatMap fun cz => (span ylo yhi).map fun cy => (cz, cy))
    fun fx a => t.globalCellPointer fx a.2 a.1
  let du ← faceLoop ylo yhi t.globalY (yLow t.problemType) (yHigh t.problemType)
    ((span zlo zhi).flatMap fun cz => (span xlo xhi).map fun cx => (cz, cx))
    fun fy a => t.globalCellPointer a.2 fy a.1
  let bf ← faceLoop zlo zhi t.globalZ (zLow t.problemType) (zHigh t.problemType)
    ((span ylo yhi).flatMap fun cy => (span xlo xhi).map fun cx => (cy, cx))
    fun fz a => t.globalCellPointer a.2 a.1 fz
  pure (lr ++ du ++ bf)

/-- The cells of block `(bx, by', bz)` in the order `init_data_task` visits them: `cz`, then
`cy`, then `cx`. -/
def blockCells (bx by' bz : Int) : List (Int × Int × Int) :=
  (span (vecAt t.zsplit bz) (vecAt t.zsplit (bz + 1))).flatMap fun cz =>
    (span (vecAt t.ysplit by') (vecAt t.ysplit (by' + 1))).flatMap fun cy =>
      (span (vecAt t.xsplit bx) (vecAt t.xsplit (bx + 1))).map fun cx => (cx, cy, cz)

/-- `MiniAeroTest::init_data_task` for block `index`, whose instances hold the cells
`[cellLo, cellHi]` and the faces `[faceLo, faceHi]`: the block id it writes at each cell, and the
face it writes at each face point; `none` when an assertion fails. -/
def initDataTask (index cellLo cellHi faceLo faceHi : Int) :
    Option (List (Int × Int) × List (Int × Face)) :=
  let b := t.blockCoords index
  let nx := extent t.xsplit b.1
  let ny := extent t.ysplit b.2.1
  let nz := extent t.zsplit b.2.2
  if rectVolume cellLo cellHi ≠ cellCount nx ny nz then none
  else if rectVolume faceLo faceHi ≠ faceCount nx ny nz then none
  else do
    let cells ← (t.blockCells b.1 b.2.1 b.2.2).mapM fun c => do
      let pz ← t.globalCellPointer c.1 c.2.1 c.2.2
      if cellLo ≤ pz ∧ pz ≤ cellHi then pure (pz, index) else none
    let faces ← t.blockFaces b.1 b.2.1 b.2.2
    if faceLo + faces.length ≠ faceHi + 1 then none
    else pure (cells, (span faceLo (faceLo + faces.length)).zip faces)

/-- The field data of the mesh: `blockid` of the cells, `left`, `right` and `type` of the faces. -/
structure Fields where
  cellBlockid : Int → Int
  faceLeft : Int → Int
  faceRight : Int → Int
  faceType : Int → Int

/-- `MiniAeroTest::initialize_data` and the `init_data_task`s it spawns: the cells and faces are
split by weight over the blocks, one instance per block, and each task writes its block's
instances. `junkCell` and `junkFace` are what the instances held before. -/
def initializeData (junkCell : Int → Int) (junkFace : Int → Face) : Option Fields := do
  let cellSubs := weightedSubspaces t.cellsPerBlock
  let faceSubs := weightedSubspaces t.facesPerBlock
  let tasks ← (points t.nBlocks).mapM fun i =>
    t.initDataTask i (cellSubs.getD i.toNat (0, -1)).1 (cellSubs.getD i.toNat (0, -1)).2
      (faceSubs.getD i.toNat (0, -1)).1 (faceSubs.getD i.toNat (0, -1)).2
  let cellDescs := cellSubs.zip (tasks.map Prod.fst)
  let faceDescs := faceSubs.zip (tasks.map Prod.snd)
  pure { cellBlockid := fieldData junkCell cellDescs
         faceLeft := fun p => (fieldData junkFace faceDescs p).left
         faceRight := fun p => (fieldData junkFace faceDescs p).right
         faceType := fun p => (fieldData junkFace faceDescs p).ftype }

/-- The outputs of `perform_partitioning`. -/
structure Partitions where
  pCells : List Space
  pFaces : List Space
  pFacetypes : List (List Space)
  pGhost : List Space

/-- `p_facetypes[j]`. -/
def nthTypes (l : List (List Space)) (j : Int) : List Space := l.getD j.toNat []

/-- `MiniAeroTest::perform_partitioning`. -/
def performPartitioning (d : Fields) : Partitions :=
  let isCells := rect 0 (t.nCells - 1)
  let isFaces := rect 0 (t.nFaces - 1)
  let pCells := subspacesByField isCells d.cellBlockid (points t.nBlocks)
  let pFaces := subspacesByPreimage isFaces d.faceLeft pCells
  let pFacetypes := pFaces.map fun f => subspacesByField f d.faceType (points bcTotal)
  let pBorderFaces := pFacetypes.map fun l => nth l FaceType.blockBorder.val
  let pGhost := subspacesByImage isCells d.faceRight (points t.nFaces) pBorderFaces
  { pCells, pFaces, pFacetypes, pGhost }

/-- `exp_ghosts` of `check_partitioning` for the cell `(cx, cy, cz)` of block `blkid` at
`(bx, by', bz)` of `nx × ny × nz` cells: the neighbouring blocks it touches. -/
def expGhosts (blkid bx by' bz nx ny nz cx cy cz : Int) : List Int :=
  (if cx = 0 ∧ bx > 0 then [blkid - 1] else []) ++
  (if cx = nx - 1 ∧ bx < t.blocksX - 1 then [blkid + 1] else []) ++
  (if cy = 0 ∧ by' > 0 then [blkid - t.blocksX] else []) ++
  (if cy = ny - 1 ∧ by' < t.blocksY - 1 then [blkid + t.blocksX] else []) ++
  (if cz = 0 ∧ bz > 0 then [blkid - t.blocksX * t.blocksY] else []) ++
  (if cz = nz - 1 ∧ bz < t.blocksZ - 1 then [blkid + t.blocksX * t.blocksY] else [])

/-- `exptype` of `check_partitioning` for face `i` of block `(bx, by', bz)`: the faces come in
the chunks the tasks write them in, and only the first and last plane of each chunk is on a
block boundary. -/
def expType (i bx by' bz nx ny nz : Int) : FaceType :=
  let lrFaces := (nx + 1) * ny * nz
  let duFaces := nx * (ny + 1) * nz
  let pt := t.problemType
  if i < lrFaces then
    let x := i / ny / nz
    if x = nx then
      (if bx = t.blocksX - 1 then
        (if pt = .pType0 then .extrapolate else if pt = .pType1 then .extrapolate
          else .extrapolate)
      else .blockBorder)
    else if x = 0 then
      (if bx = 0 then
        (if pt = .pType0 then .extrapolate else if pt = .pType1 then .inflow else .inflow)
      else .blockBorder)
    else .interior
  else if i < lrFaces + duFaces then
    let y := (i - lrFaces) / nx / nz
    if y = ny then
      (if by' = t.blocksY - 1 then
        (if pt = .pType0 then .tangent else if pt = .pType1 then .extrapolate else .tangent)
      else .blockBorder)
    else if y = 0 then
      (if by' = 0 then
        (if pt = .pType0 then .tangent else if pt = .pType1 then .noslip else .tangent)
      else .blockBorder)
    else .interior
  else
    let z := (i - lrFaces - duFaces) / nx / ny
    if z = nz then
      (if bz = t.blocksZ - 1 then
        (if pt = .pType0 then .tangent else if pt = .pType1 then .tangent else .tangent)
      else .blockBorder)
    else if z = 0 then
      (if bz = 0 then
        (if pt = .pType0 then .tangent else if pt = .pType1 then .tangent else .tangent)
      else .blockBorder)
    else .interior

/-- The errors the cell loop of `check_partitioning` counts for the `i`-th cell `pc` of block
`blkid`. -/
def cellErrors (parts : Partitions) (blkid i pc : Int) : Nat :=
  let b := t.blockCoords blkid
  let nx := extent t.xsplit b.1
  let ny := extent t.ysplit b.2.1
  let nz := extent t.zsplit b.2.2
  let ghosts := t.expGhosts blkid b.1 b.2.1 b.2.2 nx ny nz (i % nx) (i / nx % ny) (i / nx / ny)
  (points t.nBlocks).countP (fun j => (j == blkid) != nth parts.pCells j pc) +
    (points t.nBlocks).countP fun j => decide (j ∈ ghosts) != nth parts.pGhost j pc

/-- The errors the face loop of `check_partitioning` counts for the `i`-th face `pf` of block
`blkid`; `none` when its assertion fails. -/
def faceErrors (parts : Partitions) (blkid i pf : Int) : Option Nat :=
  let b := t.blockCoords blkid
  let nx := extent t.xsplit b.1
  let ny := extent t.ysplit b.2.1
  let nz := extent t.zsplit b.2.2
  if 0 < t.nBlocks ∧ (nx + 1) * ny * nz + nx * (ny + 1) * nz + nx * ny * (nz + 1) ≠
      vecAt t.facesPerBlock blkid then none
  else
    let exptype := t.expType i b.1 b.2.1 b.2.2 nx ny nz
    some ((points t.nBlocks).countP (fun j => (j == blkid) != nth parts.pFaces j pf) +
      ((points t.nBlocks).map fun j => (points bcTotal).countP fun k =>
        (j == blkid && k == exptype.val) != nth (nthTypes parts.pFacetypes j) k pf).sum)

/-- The loops of `check_partitioning` over the cells and faces of block `blkid`, from the error
count and the cell and face points reached so far. -/
def checkBlock (parts : Partitions) (acc : Nat × Int × Int) (blkid : Int) :
    Option (Nat × Int × Int) := do
  let cells := (points (vecAt t.cellsPerBlock blkid)).foldl
    (fun (a : Nat × Int) i => (a.1 + t.cellErrors parts blkid i a.2, a.2 + 1)) (acc.1, acc.2.1)
  let faces ← (points (vecAt t.facesPerBlock blkid)).foldlM
    (fun (a : Nat × Int) i => do
      let e ← t.faceErrors parts blkid i a.2
      pure (a.1 + e, a.2 + 1)) (cells.1, acc.2.2)
  pure (faces.1, cells.2, faces.2)

/-- `MiniAeroTest::check_partitioning`: the number of errors it reports; `none` when an
assertion fails. -/
def checkPartitioning (parts : Partitions) : Option Nat := do
  let r ← (points t.nBlocks).foldlM (t.checkBlock parts) (0, 0, 0)
  pure r.1

end MiniAeroTest

end Realm.DepPart
