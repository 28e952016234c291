import Realm.Transfer.Iterator

/-!
# `TransferIteratorIndexSpace`

The iterator over an unstructured index space, whose points are the enabled elements of
its valid mask (`transfer/transfer.cc`). A step asks the mask's enumerator for the next
span of enabled elements, takes part of it when it does not fit in `max_bytes`, or else
peeks ahead and merges the next span when the gap between them is at most `extra_elems`
and the whole fits (`takeSpan`, `mergeLoop`). The 1-D linearization of the instance is the
translation `i ↦ i - F`; a span whose image straddles a block boundary is cut at it.

`ElementMask` and its enumerator are not in the sources, nor is the instance's mapping
`image_dense_subrect`; the definitions that stand for them are modelled from the spec: the
mask by its enabled elements in increasing order (`ElementMask`), the enumerator by its
position and the run it gives out from there (`nextRun`), and the 1-D linearization by the
translation `i ↦ i - F`.

The valid mask may not be ready when the iterator is built; the first step then fetches it
(it must be ready by then), and an empty mask clears the fields. `IdxIter.iterator m` is the
iterator for the index space whose valid mask is `m`.

Sizes are `size_t`: the merge test subtracts a span's end from the peeked start in
unsigned arithmetic (`sizeT`). After a merge the loop peeks the same span again, whose
start now lies before the merged end, so the difference wraps and the loop stops; the
enumerator is not moved past the merged span, and the next step gives it out again
(`merged_span_given_twice`). A span whose image straddles a block boundary is cut there, and
`set_pos` is given the image coordinate of the cut rather than the element's: under a
translation by `F > 0` the enumerator goes back, and the iterator can give out the same
element for ever (`block_cut_rewinds`).
-/

namespace Realm.Transfer

/-- Modelled from the spec: an `ElementMask`, by its enabled elements in increasing order. -/
structure ElementMask where
  enabled : List Nat
  sorted : enabled.Pairwise (· < ·)
  deriving DecidableEq

/-- Modelled from the spec: `find_enabled()`, the first enabled element, `-1` when there is
none. -/
def ElementMask.findEnabled (m : ElementMask) : Int :=
  match m.enabled with
  | [] => -1
  | e :: _ => e

/-- How many of the elements after `e` continue its run (for `nextRun`). -/
def runLen (e : Nat) : List Nat → Nat
  | f :: fs => if f = e + 1 then runLen f fs + 1 else 0
  | [] => 0

/-- Modelled from the spec: the enumerator's span from the position `pos`, that is the first
enabled element at or after `pos` and the length of its maximal run of enabled elements
(`get_next`, which then moves past it, and `peek_next`, which does not); `none` when there
is none. `set_pos` sets `pos`. -/
def nextRun : List Nat → Int → Option (Int × Nat)
  | [], _ => none
  | e :: es, pos => if pos ≤ e then some (e, runLen e es + 1) else nextRun es pos

/-- A value converted to `size_t`. -/
def sizeT (x : Int) : Nat :=
  (x % 2 ^ 64).toNat

/-- The merge loop of `step`, with the enumerator at a fixed position whose `peek_next` is
`peek`: while the gap to the peeked span is at most `extra` and the whole fits in
`maxElems`, the span grows to the peeked span's end. The span's length and whether no span
is left (`last_span`); `none` when the loop does not stop (`mergeLoop_fuel`: two rounds
decide it). -/
def mergeLoop (extra maxElems : Nat) (peek : Option (Int × Nat)) (start : Int) :
    Nat → Nat → Option (Nat × Bool)
  | 0, _ => none
  | fuel + 1, spanLen =>
    match peek with
    | none => some (spanLen, true)
    | some (ps, pl) =>
      if sizeT (ps - (start + spanLen)) ≤ extra ∧ sizeT (ps + pl - start) ≤ maxElems then
        mergeLoop extra maxElems peek start fuel (sizeT (ps - start + pl))
      else some (spanLen, false)

/-- The span `step` takes from the one `get_next` gave (`start`, `len`): part of it when it
does not fit in `maxElems`, the enumerator moved to what is left; else the merge loop, the
enumerator staying after the first span. The span's length, the enumerator's position and
`last_span`. -/
def takeSpan (extra maxElems : Nat) (E : List Nat) (start : Int) (len : Nat) :
    Option (Nat × Int × Bool) :=
  if maxElems < len then some (maxElems, start + maxElems, false)
  else (mergeLoop extra maxElems (nextRun E (start + len)) start 2 len).map
    fun r => (r.1, start + len, r.2)

/-- The state of a `TransferIteratorIndexSpace`. `is` is the index space's id;
`validMask` is `valid_mask` (`none` while not fetched); `enumerator` is the enumerator's
position, `none` when there is none; `inst` is `inst_impl` (`none` for null), whose
linearization is the translation by `F`. -/
structure IdxIter where
  is : Nat
  validMask : Option ElementMask
  firstEnabled : Int
  enumerator : Option Int
  rewindPos : Int
  inst : Option (InstanceMeta Int)
  fieldOffsets : List Nat
  fieldSizes : List Nat
  fieldIdx : Nat
  nextIdx : Nat
  extraElems : Nat
  tentativeValid : Bool
  deriving DecidableEq

namespace IdxIter

/-- The constructor, given whether the valid mask `m` is ready and the instance's
`RegionInstanceImpl`: an empty mask (known only when ready) or field list keeps no
instance and no fields, so that `done()` holds at once. `rewind_pos` and `next_idx` are left
unset by the source; they are `0` here. -/
def new (is : Nat) (ready : Bool) (m : ElementMask) (inst : InstanceMeta Int) (fields : List Nat)
    (extraElems : Nat) : Option IdxIter :=
  let vm := if ready then some m else none
  let fe := if ready then m.findEnabled else 0
  if fe = -1 ∨ fields = [] then some ⟨is, vm, fe, none, 0, none, [], [], 0, 0, extraElems, false⟩
  else (findFieldSizes inst.fieldSizes fields).map fun sizes =>
    ⟨is, vm, fe, none, 0, some inst, fields, sizes, 0, 0, extraElems, false⟩

/-- `done()`. -/
def done (s : IdxIter) : Bool :=
  s.fieldIdx == s.fieldOffsets.length

/-- The chunk `step` gives out once the valid mask is at hand, before the iterator moves:
`none` when an assertion fails or a pointer it uses is null, `some none` when `max_bytes`
holds less than one element of the field, else the enumerator's new position, the
rewind position, `last_span`, the `AddressInfo` and its bytes. A span whose image crosses
a block boundary is cut at it, and the enumerator is set to the image of the cut. -/
def chunk (s : IdxIter) (maxBytes : Nat) :
    Option (Option ((Int × Int × Bool) × AddressInfo × Nat)) :=
  match s.fieldSizes[s.fieldIdx]? with
  | none => none
  | some fs =>
    if maxBytes / fs = 0 then some none else
    match s.validMask, s.inst, s.fieldOffsets[s.fieldIdx]? with
    | some vm, some inst, some fo =>
      match nextRun vm.enabled (s.enumerator.getD s.firstEnabled) with
      | none => none
      | some (start, len) =>
        match takeSpan s.extraElems (maxBytes / fs) vm.enabled start len with
        | none => none
        | some (spanLen, pos, last) =>
          let imLo := start - inst.linearization
          let imHi := start + spanLen - 1 - inst.linearization
          let B : Int := inst.blockSize
          if sizeT imHi < inst.blockSize then
            some (some ((pos, start, last),
              AddressInfo.line (inst.allocOffset + fo * B + imLo * fs) (spanLen * fs), spanLen * fs))
          else
            let base := inst.allocOffset + imLo / B * B * inst.elmtSize + fo * B +
              (imLo - imLo / B * B) * fs
            if imLo / B ≠ imHi / B then
              let cut := (B - imLo % B).toNat
              some (some ((imLo + cut, start, false), AddressInfo.line base (cut * fs), cut * fs))
            else some (some ((pos, start, last), AddressInfo.line base (spanLen * fs), spanLen * fs))
    | _, _, _ => none

/-- The end of `step`: the enumerator moved and `rewind_pos` recorded; a tentative step
records `next_idx`, any other deletes the enumerator and goes to the next field after the
last span. -/
def setNext (s : IdxIter) : Int × Int × Bool → Bool → IdxIter
  | (pos, start, last), tentative =>
    if tentative then
      { s with enumerator := some pos, rewindPos := start, tentativeValid := true,
               nextIdx := s.fieldIdx + if last then 1 else 0 }
    else if last then { s with enumerator := none, rewindPos := start, fieldIdx := s.fieldIdx + 1 }
    else { s with enumerator := some pos, rewindPos := start }

/-- `step` once the valid mask is at hand: its assertions, the chunk, then the move. -/
def stepMasked (s : IdxIter) (maxBytes : Nat) (tentative : Bool) :
    Option (IdxIter × Option AddressInfo × Nat) :=
  stepOf (fun s => s.done || s.tentativeValid) chunk setNext s maxBytes tentative

/-- `step(max_bytes, info, tentative)` over the index space whose valid mask is `m`: with
fields and no valid mask yet, it fetches `m` first; an empty mask clears the fields. -/
def step (m : ElementMask) (s : IdxIter) (maxBytes : Nat) (tentative : Bool) :
    Option (IdxIter × Option AddressInfo × Nat) :=
  if s.fieldSizes ≠ [] ∧ s.validMask = none then
    if m.findEnabled = -1 then
      some ({ s with validMask := some m, firstEnabled := -1, fieldIdx := 0,
                     fieldOffsets := [], fieldSizes := [] }, none, 0)
    else stepMasked { s with validMask := some m, firstEnabled := m.findEnabled } maxBytes tentative
  else stepMasked s maxBytes tentative

/-- `confirm_step()`. -/
def confirmStep (s : IdxIter) : Option IdxIter :=
  if s.tentativeValid then
    some (if s.nextIdx ≠ s.fieldIdx then
      { s with enumerator := none, fieldIdx := s.nextIdx, tentativeValid := false }
    else { s with tentativeValid := false })
  else none

/-- `cancel_step()`: the enumerator back to `rewind_pos`. -/
def cancelStep (s : IdxIter) : Option IdxIter :=
  if s.tentativeValid then
    match s.enumerator with
    | none => none
    | some _ => some { s with enumerator := some s.rewindPos, tentativeValid := false }
  else none

/-- `reset()`. -/
def reset (s : IdxIter) : IdxIter :=
  { s with fieldIdx := 0, enumerator := none }

/-- `TransferIteratorIndexSpace`, over the index space whose valid mask is `m`, as a
`TransferIterator`. -/
def iterator (m : ElementMask) : TransferIterator IdxIter :=
  ⟨done, step m, confirmStep, cancelStep, reset⟩

end IdxIter

/-! ## The merge loop stops within two rounds or never -/

section Merge

variable {extra maxElems : Nat} {start : Int}

/-- Once a round merges the peeked span, every later round sees the same span length and
merges again: the loop does not stop. -/
theorem mergeLoop_stuck {ps : Int} {pl : Nat}
    (h : sizeT (ps - (start + sizeT (ps - start + pl))) ≤ extra ∧ sizeT (ps + pl - start) ≤ maxElems)
    (n : Nat) : mergeLoop extra maxElems (some (ps, pl)) start n (sizeT (ps - start + pl)) = none := by
  induction n with
  | zero => rfl
  | succ n ih => rw [mergeLoop, if_pos h, ih]

/-- **Two rounds decide the merge loop.** The span a merge gives does not depend on the
span before it, so more rounds than two change nothing. -/
theorem mergeLoop_fuel (peek : Option (Int × Nat)) (n spanLen : Nat) :
    mergeLoop extra maxElems peek start (n + 2) spanLen =
      mergeLoop extra maxElems peek start 2 spanLen := by
  rcases peek with _ | ⟨ps, pl⟩
  · rfl
  · simp only [mergeLoop]
    split_ifs with h₁ h₂
    · rw [mergeLoop_stuck h₂]
    · rfl
    · rfl

end Merge

/-! ## A merged span is given out twice -/

/-- **The merged span again.** Enabled elements `0` and `2`, `extra_elems = 1`, one field of
one byte in one block, ten bytes a step: the first step merges the spans into `0‥2`, and the
second gives out `2` again, so byte `2` of the field is transferred twice. -/
theorem merged_span_given_twice :
    ((IdxIter.new 0 true ⟨[0, 2], by decide⟩ ⟨1, 0, 0, 16, 1, [1]⟩ [0] 1).bind fun s0 =>
      (IdxIter.iterator ⟨[0, 2], by decide⟩).run IdxIter.fieldIdx (fun _ => 10) 3 s0).map
        (fun r => (r.2.done, r.1.map (·.2.2), fieldChunkBytes r.1 0)) =
      some (true, [AddressInfo.line 0 3, AddressInfo.line 2 1], [0, 1, 2, 2]) := by
  rfl

/-- The chunks of a run that gives out the same chunk of field `0` every time. -/
theorem fieldChunkBytes_replicate (k : Nat) (mb : Nat) (info : AddressInfo) :
    fieldChunkBytes (List.replicate k (0, mb, info)) 0 =
      (List.replicate k (byteRange info.baseOffset info.bytesPerChunk)).flatten := by
  induction k with
  | zero => rfl
  | succ k ih => rw [List.replicate_succ, fieldChunkBytes_cons, if_pos rfl, ih]; rfl

/-! ## The block cut rewinds the enumerator -/

/-- **The same element for ever.** Enabled elements `2‥4` of an instance whose linearization
is `i ↦ i - 1`, in blocks of two elements, one field of one byte, ten bytes a step, as
`create_iterator` builds it (`extra_elems = 0`): the span's image `1‥3` straddles a block
boundary, so the step gives out element `2` alone and calls `set_pos(image.lo + span_len)`,
which is `2` again. Every step gives out the same byte and no number of steps finishes. -/
theorem block_cut_rewinds (n : Nat) :
    ((IdxIter.new 0 true ⟨[2, 3, 4], by decide⟩ ⟨1, 1, 0, 2, 1, [1]⟩ [0] 0).bind fun s0 =>
      (IdxIter.iterator ⟨[2, 3, 4], by decide⟩).run IdxIter.fieldIdx (fun _ => 10) n s0).map
        (fun r => (r.2.done, fieldChunkBytes r.1 0)) = some (false, List.replicate n 1) := by
  set m : ElementMask := ⟨[2, 3, 4], by decide⟩
  set s0 : IdxIter := ⟨0, some m, 2, none, 0, some ⟨1, 1, 0, 2, 1, [1]⟩, [0], [1], 0, 0, 0, false⟩
  set s1 : IdxIter := { s0 with enumerator := some 2, rewindPos := 2 }
  -- the first step, and every later one, gives out element `2` and leaves the enumerator at `2`
  have h0 : (IdxIter.iterator m).step s0 10 false = some (s1, some (.line 1 1), 1) := by
    unfold s1 s0 m; rfl
  have h1 : (IdxIter.iterator m).step s1 10 false = some (s1, some (.line 1 1), 1) := by
    unfold s1 s0 m; rfl
  have hloop : ∀ k, (IdxIter.iterator m).run IdxIter.fieldIdx (fun _ => 10) k s1 =
      some (List.replicate k (0, 10, .line 1 1), s1) := by
    intro k
    induction k with
    | zero => rfl
    | succ k ih =>
      rw [@TransferIterator.run_succ_of_step _ _ _ (fun _ => 10) _ _ _ _ _ rfl h1, ih]; rfl
  cases n with
  | zero => rfl
  | succ n =>
    rw [show IdxIter.new 0 true m ⟨1, 1, 0, 2, 1, [1]⟩ [0] 0 = some s0 from rfl, Option.some_bind,
      @TransferIterator.run_succ_of_step _ _ _ (fun _ => 10) _ _ _ _ _ rfl h0, hloop]
    show some (false, fieldChunkBytes (List.replicate (n + 1) (0, 10, .line 1 1)) 0) = _
    rw [fieldChunkBytes_replicate]
    exact congrArg (fun l => some (false, l)) List.flatten_replicate_singleton

end Realm.Transfer
