import Mathlib

/-!
# Instance layouts

What the transfer iterators read of a `RegionInstanceImpl`: its id, its linearization (a
mapping from points to element indices, kept abstract here as `L`), and the block layout
of its fields: fields are stored in blocks of `block_size` elements, each block holding
every field for those elements one field after another, so element `i` of the field at
byte offset `off` (of `elmt_size` bytes per element) sits at
`alloc_offset + ⌊i/B⌋·B·E + off·B + (i mod B)·size` (`elemBase`).

The iterator constructors find each requested field by walking the field sizes until
their sum is the field's offset (`findFieldSize`); the `while` loop that does it stops,
within one test per field, at the field or at its assertion (`field_lookup_terminates`).

The iterators turn a run of element indices into one `AddressInfo`. When the run stays in
one block, the chunk's bytes are exactly the bytes of its elements, in order
(`byteRange_block`); the bytes of different elements of one field never meet
(`nodup_fieldBytes`).
-/

namespace Realm.Transfer

/-- The metadata of a `RegionInstanceImpl` the iterators use; `L` is the linearization. -/
structure InstanceMeta (L : Type) where
  me : Nat
  linearization : L
  allocOffset : Int
  blockSize : Nat
  elmtSize : Nat
  fieldSizes : List Nat
  deriving DecidableEq, Repr

/-- `AddressInfo`: one chunk, `bytes_per_chunk` bytes from `base_offset`. -/
structure AddressInfo where
  baseOffset : Int
  bytesPerChunk : Nat
  numLines : Nat
  lineStride : Nat
  numPlanes : Nat
  planeStride : Nat
  deriving DecidableEq, Repr

/-- A chunk with one line and one plane, as every iterator here fills it. -/
def AddressInfo.line (base : Int) (bytes : Nat) : AddressInfo :=
  ⟨base, bytes, 1, 0, 1, 0⟩

/-- The constructors' search for a requested field, given by its byte offset: walk the
instance's field sizes, summing them, until the sum is the offset; `none` when the walk
runs off the end (the assertion `it2 != field_sizes.end()`). -/
def findFieldSize (off : Nat) : Nat → List Nat → Option Nat
  | _, [] => none
  | s, x :: rest => if off = s then some x else findFieldSize off (s + x) rest

/-- The byte offset of field `j`: the sizes of the fields before it. -/
def fieldOffset (sizes : List Nat) (j : Nat) : Nat :=
  (sizes.take j).sum

/-- `size` bytes from `base`. -/
def byteRange (base : Int) (size : Nat) : List Int :=
  (List.range size).map fun k : Nat => base + (k : Int)

section Block

variable (alloc : Int) (B E off size : Nat)

/-- Where element `i` of a field starts. -/
def elemBase (i : Nat) : Int :=
  alloc + ((i / B * B * E + off * B + i % B * size : Nat) : Int)

/-- The bytes of the elements `is` of a field, element after element. -/
def fieldBytes (is : List Nat) : List Int :=
  is.flatMap fun i => byteRange (elemBase alloc B E off size i) size

/-- `(first_block, block_ofs)` of a chunk whose elements run from `lo` to `hi`: one block
for `SOA` (`block_size > hi`), else the block of `lo`. -/
def firstBlock (lo hi : Nat) : Nat × Nat :=
  if hi < B then (0, lo) else (lo / B, lo - lo / B * B)

/-- `base_offset` from `(first_block, block_ofs)`. -/
def baseOffset (fb : Nat × Nat) : Int :=
  alloc + ((fb.1 * B * E + off * B + fb.2 * size : Nat) : Int)

end Block

/-! ## Field lookup -/

/-- The search finds field `j` at its offset when the sizes before it are positive. -/
theorem findFieldSize_fieldOffset {sizes : List Nat} (hpos : ∀ x ∈ sizes, 0 < x) {j : Nat}
    (hj : j < sizes.length) (s : Nat) :
    findFieldSize (s + fieldOffset sizes j) s sizes = sizes[j] := by
  induction sizes generalizing j s with
  | nil => cases hj
  | cons x rest ih =>
    cases j with
    | zero => simp [findFieldSize, fieldOffset]
    | succ j =>
      have hx := hpos x (List.mem_cons_self _ _)
      have hr := ih (fun y hy => hpos y (List.mem_cons_of_mem _ hy))
        (Nat.lt_of_succ_lt_succ hj) (s + x)
      simp only [fieldOffset, List.take_succ_cons, List.sum_cons] at hr ⊢
      rw [findFieldSize, if_neg (by omega), ← Nat.add_assoc, hr]
      rfl

/-- The constructor's loop over the requested fields: the size of each, found from its
offset (`findFieldSize`); `none` when one search fails its assertion. -/
def findFieldSizes (sizes : List Nat) : List Nat → Option (List Nat)
  | [] => some []
  | f :: fs => do
    let x ← findFieldSize f 0 sizes
    let xs ← findFieldSizes sizes fs
    pure (x :: xs)

/-- One size for each field requested. -/
theorem length_findFieldSizes {sizes fs xs : List Nat} (h : findFieldSizes sizes fs = some xs) :
    xs.length = fs.length := by
  induction fs generalizing xs with
  | nil => cases h; rfl
  | cons f fs ih =>
    simp only [findFieldSizes, Option.bind_eq_bind, Option.bind_eq_some, Option.pure_def,
      Option.some.injEq] at h
    obtain ⟨_, -, xs', hxs', rfl⟩ := h
    simp [ih hxs']

theorem findFieldSizes_ne_nil {sizes fs xs : List Nat} (h : findFieldSizes sizes fs = some xs)
    (hfs : fs ≠ []) : xs ≠ [] := fun hx =>
  hfs (List.length_eq_zero.1 (by rw [← length_findFieldSizes h, hx, List.length_nil]))

/-- Fields requested by their offsets are found, with their sizes, when all sizes are
positive. -/
theorem findFieldSizes_fieldOffset {sizes : List Nat} (hpos : ∀ x ∈ sizes, 0 < x) {js : List Nat}
    (hjs : ∀ j ∈ js, j < sizes.length) :
    findFieldSizes sizes (js.map (fieldOffset sizes)) = some (js.map fun j => sizes.getD j 0) := by
  induction js with
  | nil => rfl
  | cons j js ih =>
    have hj := hjs j (List.mem_cons_self _ _)
    have hfind := findFieldSize_fieldOffset hpos hj 0
    rw [Nat.zero_add] at hfind
    simp [findFieldSizes, hfind, ih fun j' h => hjs j' (List.mem_cons_of_mem _ h),
      List.getD_eq_getElem?_getD, List.getElem?_eq_getElem hj]

/-- An offset that is no field's offset is not found. -/
theorem findFieldSize_eq_none {off : Nat} {sizes : List Nat} {s : Nat}
    (h : ∀ k < sizes.length, off ≠ s + fieldOffset sizes k) : findFieldSize off s sizes = none := by
  induction sizes generalizing s with
  | nil => rfl
  | cons x rest ih =>
    have h0 := h 0 (Nat.succ_pos _)
    simp only [fieldOffset, List.take_zero, List.sum_nil, Nat.add_zero] at h0
    rw [findFieldSize, if_neg h0]
    refine ih fun k hk => ?_
    have := h (k + 1) (Nat.succ_lt_succ hk)
    simp only [fieldOffset, List.take_succ_cons, List.sum_cons] at this ⊢
    omega

/-! ### The loop as the constructors run it

`findFieldSize` walks the list. The constructors walk an iterator `it2` over
`field_sizes` in a `while` loop, dereferencing it for the size to add and for the size to
record, and assert after each `++it2` that it has not reached the end (`lookupLoop`,
given a number of tests of the loop condition). With as many tests as fields the loop
gives what `findFieldSize` gives (`fieldLookup_eq_findFieldSize`); it never dereferences
the end, and it records the size of field `k` exactly when the offset is the sum of the
sizes before it (`field_lookup_terminates`). -/

/-- How the field lookup can stop without a size. -/
inductive LookupError where
  /-- `assert(!field_sizes.empty())`. -/
  | emptySizes
  /-- `assert(it2 != field_sizes.end())`, after `++it2`. -/
  | pastEnd
  /-- `*it2` with `it2` at `field_sizes.end()`: a read past the end of the vector. -/
  | derefEnd
  /-- The loop condition was tested as many times as allowed and the loop still runs. -/
  | outOfFuel
  deriving DecidableEq, Repr

/-- `*it2`, with `it2` at position `i` of `field_sizes`. -/
def deref (sizes : List Nat) (i : Nat) : Except LookupError Nat :=
  match sizes[i]? with
  | some x => .ok x
  | none => .error .derefEnd

/-- `while(*it != s) { s += *it2; ++it2; assert(it2 != field_sizes.end()); }` and then
`field_sizes.push_back(*it2)`, from the sum `s` with `it2` at position `i`, testing the
condition at most `fuel` times. -/
def lookupLoop (sizes : List Nat) (off : Nat) : Nat → Nat → Nat → Except LookupError Nat
  | 0, _, _ => .error .outOfFuel
  | fuel + 1, s, i =>
    if off = s then deref sizes i
    else do
      let x ← deref sizes i
      if i + 1 = sizes.length then .error .pastEnd
      else lookupLoop sizes off fuel (s + x) (i + 1)

/-- The field lookup of the `TransferIteratorRect` and `TransferIteratorIndexSpace`
constructors for the field at byte offset `off`: the size it records. -/
def fieldLookup (sizes : List Nat) (off fuel : Nat) : Except LookupError Nat :=
  if sizes = [] then .error .emptySizes else lookupLoop sizes off fuel 0 0

/-- From position `i` on, the loop walks what `findFieldSize` walks, given a test of its
condition for each position left. -/
theorem lookupLoop_eq_findFieldSize {sizes : List Nat} {off : Nat} :
    ∀ {fuel s i : Nat}, i < sizes.length → sizes.length - i ≤ fuel →
      lookupLoop sizes off fuel s i = (findFieldSize off s (sizes.drop i)).elim (.error .pastEnd) .ok
  | 0, _, _, hi, hfuel => by omega
  | fuel + 1, s, i, hi, hfuel => by
    have hd : deref sizes i = .ok sizes[i] := by simp [deref, List.getElem?_eq_getElem hi]
    rw [lookupLoop, List.drop_eq_getElem_cons hi, findFieldSize, hd]
    by_cases ho : off = s
    · simp [ho]
    · simp only [if_neg ho, bind, Except.bind]
      by_cases he : i + 1 = sizes.length
      · rw [if_pos he, List.drop_eq_nil_of_le (by omega)]
        rfl
      · rw [if_neg he]
        exact lookupLoop_eq_findFieldSize (by omega) (by omega)

/-- With a test of the loop condition for each field, the loop gives what
`findFieldSize` gives, the assertion `it2 != field_sizes.end()` where it finds nothing. -/
theorem fieldLookup_eq_findFieldSize {sizes : List Nat} (hne : sizes ≠ []) (off : Nat)
    {fuel : Nat} (hfuel : sizes.length ≤ fuel) :
    fieldLookup sizes off fuel = (findFieldSize off 0 sizes).elim (.error .pastEnd) .ok := by
  rw [fieldLookup, if_neg hne,
    lookupLoop_eq_findFieldSize (List.length_pos.2 hne) (by omega), List.drop_zero]

example : fieldLookup [4, 8] 4 2 = .ok 8 := rfl

/-! ## Bytes of a chunk -/

theorem byteRange_add (base : Int) (m n : Nat) :
    byteRange base (m + n) = byteRange base m ++ byteRange (base + m) n := by
  rw [byteRange, List.range_add, List.map_append, List.map_map]
  congr 1
  refine List.map_congr_left fun k _ => ?_
  simp only [Function.comp]
  omega

/-- A chunk of `c` elements is the bytes of its elements, one after another. -/
theorem byteRange_mul (base : Int) (size c : Nat) :
    byteRange base (c * size) =
      (List.range c).flatMap fun j => byteRange (base + ((j * size : Nat) : Int)) size := by
  induction c with
  | zero => simp [byteRange]
  | succ c ih =>
    rw [Nat.succ_mul, byteRange_add, ih, List.range_succ, List.flatMap_append,
      List.flatMap_singleton]

section Block

variable {alloc : Int} {B E off size : Nat}

/-- Inside one block, consecutive elements of a field lie `size` bytes apart. -/
theorem elemBase_add {i j : Nat} (hB : i % B + j < B) :
    elemBase alloc B E off size (i + j) =
      elemBase alloc B E off size i + ((j * size : Nat) : Int) := by
  have hpos : 0 < B := by omega
  have h1 : i + j = (i % B + j) + B * (i / B) := by
    have := Nat.div_add_mod i B
    omega
  have hdiv : (i + j) / B = i / B := by
    rw [h1, Nat.add_mul_div_left _ _ hpos, Nat.div_eq_of_lt hB, Nat.zero_add]
  have hmod : (i + j) % B = i % B + j := by
    rw [h1, Nat.add_mul_mod_self_left, Nat.mod_eq_of_lt hB]
  rw [elemBase, elemBase, hdiv, hmod, Nat.add_mul]
  omega

/-- `base_offset` is where the chunk's first element starts, in both branches. -/
theorem baseOffset_firstBlock {lo hi : Nat} (h : hi < B → lo < B) :
    baseOffset alloc B E off size (firstBlock B lo hi) = elemBase alloc B E off size lo := by
  rw [firstBlock, baseOffset, elemBase]
  split_ifs with hhi
  · have hlo := h hhi
    rw [Nat.div_eq_of_lt hlo, Nat.mod_eq_of_lt hlo]
  · rw [show lo - lo / B * B = lo % B by have := Nat.mod_add_div' lo B; omega]

theorem fieldBytes_append (is js : List Nat) :
    fieldBytes alloc B E off size (is ++ js) =
      fieldBytes alloc B E off size is ++ fieldBytes alloc B E off size js :=
  List.flatMap_append _ _ _

/-- **A chunk inside one block.** `c` elements from `lo` that stay in `lo`'s block are
`c · size` consecutive bytes from where `lo` starts. -/
theorem byteRange_block {lo c : Nat} (hB : lo % B + c ≤ B) :
    byteRange (elemBase alloc B E off size lo) (c * size) =
      fieldBytes alloc B E off size (List.range' lo c) := by
  rw [byteRange_mul, fieldBytes, List.range'_eq_map_range, List.flatMap_map]
  refine List.flatMap_congr fun j hj => ?_
  rw [elemBase_add (by rw [List.mem_range] at hj; omega)]

/-- Element `i`, byte `k` of a field, as an offset from `alloc + off·B`: the block, then
the element in it, then the byte; `decode` undoes it. -/
theorem elemOffset_decode {i k : Nat} (hB : 0 < B) (hsize : size ≤ E) (hk : k < size) :
    let n := i / B * B * E + i % B * size + k
    n / (B * E) * B + n % (B * E) / size = i ∧ n % (B * E) % size = k := by
  intro n
  have hr : i % B * size + k < B * E := by
    have := Nat.mod_lt i hB
    calc i % B * size + k < (i % B + 1) * size := by rw [Nat.succ_mul]; omega
      _ ≤ B * size := Nat.mul_le_mul_right _ this
      _ ≤ B * E := Nat.mul_le_mul_left _ hsize
  have hn : n = i % B * size + k + B * E * (i / B) := by
    simp only [n]
    rw [Nat.mul_assoc, Nat.mul_comm (i / B) (B * E)]
    omega
  have hq : n / (B * E) = i / B := by
    rw [hn, Nat.add_mul_div_left _ _ (by omega), Nat.div_eq_of_lt hr, Nat.zero_add]
  have hm : n % (B * E) = i % B * size + k := by
    rw [hn, Nat.add_mul_mod_self_left, Nat.mod_eq_of_lt hr]
  have hsz : 0 < size := by omega
  rw [hq, hm, Nat.add_comm (i % B * size), Nat.add_mul_div_right _ _ hsz, Nat.div_eq_of_lt hk,
    Nat.add_mul_mod_self_right, Nat.mod_eq_of_lt hk, Nat.zero_add]
  exact ⟨Nat.div_add_mod' i B, rfl⟩

/-- **The bytes of different elements never meet.** For a field inside the element
(`off + size ≤ E`), the bytes of distinct elements are distinct. -/
theorem nodup_fieldBytes {is : List Nat} (his : is.Nodup) (hB : 0 < B) (hfit : off + size ≤ E) :
    (fieldBytes alloc B E off size is).Nodup := by
  rw [fieldBytes, List.nodup_flatMap]
  refine ⟨fun i _ => (List.nodup_range size).map fun a b h => by omega, ?_⟩
  refine his.imp fun {i j} hij => ?_
  rw [Function.onFun, List.disjoint_left]
  intro x hx hy
  simp only [byteRange, elemBase, List.mem_map, List.mem_range] at hx hy
  obtain ⟨k, hk, rfl⟩ := hx
  obtain ⟨k', hk', he⟩ := hy
  have e : i / B * B * E + i % B * size + k = j / B * B * E + j % B * size + k' := by
    generalize i / B * B * E = a at he ⊢
    generalize i % B * size = b at he ⊢
    generalize j / B * B * E = c at he ⊢
    generalize j % B * size = d at he ⊢
    omega
  have di := elemOffset_decode (i := i) hB (by omega : size ≤ E) hk
  have dj := elemOffset_decode (i := j) hB (by omega : size ≤ E) hk'
  simp only at di dj
  rw [e] at di
  exact hij (di.1.symm.trans dj.1)

end Block

end Realm.Transfer
