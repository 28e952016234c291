import Realm.Transfer.FortranOrder
import Realm.Transfer.Iterator

/-!
# `TransferIteratorZIndexSpace<N,T>`

The iterator over a sparse index space (`transfer/transfer.cc`). A `ZIndexSpaceIterator`
walks the space's rectangles one after another (`rects`, at `iterIdx`); inside the current
rectangle the iterator keeps a point `cur_point`. The instance's layout sends each field to
a list of layout pieces; a step finds the piece holding `cur_point` and, for an affine piece,
grows a box from `cur_point` while it stays contiguous in memory under the piece's strides
(`growAffine`). The carry loop of the rectangle iterator (`nextPoint`) then finds the next
point; when the carry runs out the iterator goes to the next rectangle, or to the next
field and back to the first rectangle.

`ZIndexSpaceIterator` and `InstancePieceList::find_piece` are not in the sources: the
rectangles of the space and the piece lookup are modelled from the spec, as the definitions
that stand for them say.

Going to the next field rewinds the rectangle iterator but leaves `cur_point` where the
last chunk started (`ZIter.advance`), so a field after one that took several chunks of the
last rectangle starts in the middle of it (`second_field_starts_midway`).
-/

namespace Realm.Transfer

/-- An `AffineLayoutPiece` (or another kind, `affine = false`): its bounds, its offset and
its strides in bytes. -/
structure AffinePiece where
  lo : List Int
  hi : List Int
  affine : Bool
  offset : Int
  strides : List Nat
  deriving DecidableEq, Repr

/-- `InstanceLayoutGeneric::FieldLayout`. -/
structure FieldLayout where
  listIdx : Nat
  relOffset : Int
  sizeInBytes : Nat
  deriving DecidableEq, Repr

/-- `InstanceLayout<N,T>`: the fields by id (a `std::map`, searched with `lookup`) and the
piece lists. -/
structure ZLayout where
  fields : List (Nat × FieldLayout)
  pieceLists : List (List AffinePiece)
  deriving DecidableEq, Repr

/-- Modelled from the spec: `InstancePieceList::find_piece`, the first piece whose bounds
hold the point. -/
def findPiece (pieces : List AffinePiece) (q : List Int) : Option AffinePiece :=
  pieces.find? fun piece => decide (InBox piece.lo piece.hi q)

/-- `strides.dot(cur_point)`. -/
def dot : List Nat → List Int → Int
  | s :: ss, x :: xs => (s : Int) * x + dot ss xs
  | _, _ => 0

/-- The growth loop of `step` over the dimensions, from `cur_point`: a dimension grows while
its stride is the bytes of what is taken so far (`exp_stride`), up to the end of the
iterator's rectangle, the end of the piece and what `max_bytes` allows; either limit stops
the growth. The box's high corner and its bytes (`cur_bytes`). -/
def growAffine (maxBytes : Nat) :
    Bool → Nat → Nat → List Nat → List Int → List Int → List Int → List Int × Nat
  | grow, expStride, curBytes, st :: sts, x :: xs, h :: hs, ph :: phs =>
    if grow ∧ st = expStride then
      let len := (h - x + 1).toNat
      let pieceLimit := (ph - x + 1).toNat
      let len₁ := if pieceLimit < len then pieceLimit else len
      let len₂ := if maxBytes / curBytes < len₁ then maxBytes / curBytes else len₁
      let grow' := decide (len ≤ pieceLimit) && decide (len₁ ≤ maxBytes / curBytes)
      let r := growAffine maxBytes grow' (expStride * len) (curBytes * len₂) sts xs hs phs
      ((x + (len₂ : Int) - 1) :: r.1, r.2)
    else
      let r := growAffine maxBytes false expStride curBytes sts xs hs phs
      (x :: r.1, r.2)
  | _, _, curBytes, _, _, _, _ => ([], curBytes)

/-- The state of a `TransferIteratorZIndexSpace<N,T>`. `instOffset` is `inst_impl`, by the
`inst_offset` of its metadata, `none` for a null pointer; `layout` is `inst_layout`. -/
structure ZIter where
  /-- Modelled from the spec: the `ZIndexSpaceIterator`, by the rectangles `(lo, hi)` it
  yields, in order. -/
  rects : List (List Int × List Int)
  iterIdx : Nat
  curPoint : List Int
  nextPoint : List Int
  carry : Bool
  instOffset : Option Int
  layout : Option ZLayout
  fields : List Nat
  fieldIdx : Nat
  extraElems : Nat
  tentativeValid : Bool
  deriving DecidableEq, Repr

/-- The bytes of field `fid` at the point `q`: `inst_offset + piece.offset + strides·q +
rel_offset + k` for `k` below the field's size, in the piece holding `q`. -/
def pointBytes (instOffset : Int) (layout : ZLayout) (fid : Nat) (q : List Int) : List Int :=
  match layout.fields.lookup fid with
  | none => []
  | some fl =>
    match layout.pieceLists[fl.listIdx]? with
    | none => []
    | some pl =>
      match findPiece pl q with
      | none => []
      | some piece => byteRange (instOffset + piece.offset + dot piece.strides q + fl.relOffset)
          fl.sizeInBytes

namespace ZIter

/-- The constructor: an empty space keeps no instance, layout or fields, so that `done()`
holds at once; otherwise the iterator starts at the first rectangle's low corner. Points
the source leaves unset are the first rectangle's low corner here. -/
def new (rects : List (List Int × List Int)) (instOffset : Int) (layout : Option ZLayout)
    (fields : List Nat) (extraElems : Nat) : ZIter :=
  match rects with
  | [] => ⟨[], 0, [], [], false, none, none, [], 0, extraElems, false⟩
  | r :: _ => ⟨rects, 0, r.1, r.1, false, some instOffset, layout, fields, 0, extraElems, false⟩

/-- `done()`. -/
def done (s : ZIter) : Bool :=
  s.fieldIdx == s.fields.length

/-- The chunk `step` gives out from `cur_point`, before the iterator moves: `none` when an
assertion fails or a pointer it uses is null, `some none` when `max_bytes` holds less than
one element of the field, else the next point with the carry, the `AddressInfo` and its
bytes. -/
def chunk (s : ZIter) (maxBytes : Nat) : Option (Option ((List Int × Bool) × AddressInfo × Nat)) :=
  match s.rects[s.iterIdx]?, s.layout, s.fields[s.fieldIdx]? with
  | some rect, some layout, some fid =>
    match layout.fields.lookup fid with
    | none => none
    | some fl =>
      match layout.pieceLists[fl.listIdx]? with
      | none => none
      | some pl =>
        match findPiece pl s.curPoint with
        | none => none
        | some piece =>
          if maxBytes / fl.sizeInBytes = 0 then some none
          else if piece.affine then
            match s.instOffset with
            | none => none
            | some instOffset =>
              let t := growAffine maxBytes true fl.sizeInBytes fl.sizeInBytes piece.strides
                s.curPoint rect.2 piece.hi
              some (some (Realm.Transfer.nextPoint true rect.1 rect.2 s.curPoint t.1,
                AddressInfo.line (instOffset + piece.offset + dot piece.strides s.curPoint +
                  fl.relOffset) t.2, t.2))
          else none
  | _, _, _ => none

/-- The move after a chunk, in `step` and in `confirm_step`: when the carry ran out, the next
rectangle from its low corner, or else the next field with the rectangle iterator reset
(`cur_point` stays); without a carry, `next_point`. -/
def advance (s : ZIter) : ZIter :=
  if s.carry then
    match s.rects[s.iterIdx + 1]? with
    | some r => { s with iterIdx := s.iterIdx + 1, curPoint := r.1 }
    | none => { s with fieldIdx := s.fieldIdx + 1, iterIdx := 0 }
  else { s with curPoint := s.nextPoint }

/-- The end of `step`: record `next_point` and `carry`; a tentative step stops there, any
other moves. -/
def setNext (s : ZIter) (n : List Int × Bool) (tentative : Bool) : ZIter :=
  if tentative then { s with nextPoint := n.1, carry := n.2, tentativeValid := true }
  else advance { s with nextPoint := n.1, carry := n.2 }

/-- `step(max_bytes, info, tentative)`. -/
def step (s : ZIter) (maxBytes : Nat) (tentative : Bool) : Option (ZIter × Option AddressInfo × Nat) :=
  stepOf (fun s => s.done || s.tentativeValid) chunk setNext s maxBytes tentative

/-- `confirm_step()`. -/
def confirmStep (s : ZIter) : Option ZIter :=
  if s.tentativeValid then some { advance s with tentativeValid := false } else none

/-- `cancel_step()`. -/
def cancelStep (s : ZIter) : Option ZIter :=
  if s.tentativeValid then some { s with tentativeValid := false } else none

/-- `reset()`: the first field, the rectangle iterator reset and `cur_point` at its
rectangle's low corner (kept when the space has none). -/
def reset (s : ZIter) : ZIter :=
  { s with fieldIdx := 0, iterIdx := 0, curPoint := ((s.rects[0]?).map (·.1)).getD s.curPoint }

/-- `TransferIteratorZIndexSpace<N,T>` as a `TransferIterator`. -/
def iterator : TransferIterator ZIter :=
  ⟨done, step, confirmStep, cancelStep, reset⟩

/-- The bytes field `fid` has over the whole space: every point of every rectangle, in
iteration order. -/
def expectedBytes (instOffset : Int) (layout : ZLayout) (rects : List (List Int × List Int))
    (fid : Nat) : List Int :=
  (rects.flatMap fun r => pointsOf r.1 r.2).flatMap (pointBytes instOffset layout fid)

end ZIter

/-- **The second field starts midway.** One rectangle `0‥3`, two fields of one byte laid out
one after the other (field 1 at byte 4), two bytes a step: field 0 takes the chunks `0‥1`
and `2‥3`, and field 1 starts where field 0's last chunk started, so it gives out only its
bytes of the points `2‥3` and is done without the points `0‥1`. -/
theorem second_field_starts_midway :
    (ZIter.iterator.run ZIter.fieldIdx (fun _ => 2) 4
        (ZIter.new [([0], [3])] 0 (some ⟨[(0, ⟨0, 0, 1⟩), (1, ⟨0, 4, 1⟩)], [[⟨[0], [3], true, 0, [1]⟩]]⟩)
          [0, 1] 0)).map (fun r => (r.2.done, fieldChunkBytes r.1 0, fieldChunkBytes r.1 1)) =
      some (true, [0, 1, 2, 3], [6, 7]) ∧
    ZIter.expectedBytes 0 ⟨[(0, ⟨0, 0, 1⟩), (1, ⟨0, 4, 1⟩)], [[⟨[0], [3], true, 0, [1]⟩]]⟩
      [([0], [3])] 1 = [4, 5, 6, 7] := by
  constructor <;> rfl

end Realm.Transfer
