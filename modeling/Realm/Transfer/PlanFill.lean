import Realm.Transfer.Layout
import Realm.Transfer.PlanCopy

/-!
# Planning a fill

`TransferPlan::plan_fill` (`transfer/transfer.cc`) pushes one `TransferPlanFill` per
destination field. The fill value is read as a packed struct with a value for each field,
in order: a running offset `fill_ofs` into it, and the plan of a field copies the field's
size in bytes from there (`ByteArray(_data, _size)`). A field that does not fit in what is
left ends the fill with a fatal error; a field that uses the whole value at offset `0`
leaves the offset where it is, so that the next field may use the whole value too.

The fill value is the memory from `fill_value` on (`fill : Nat → UInt8`); the caller's
value is its first `fill_value_size` bytes, and what lies after them is arbitrary.

* `planFillLoop_congr`: the plans depend only on the first `fill_value_size` bytes, so no
  plan copies a byte past the end of the value.
* `planFillLoop_packed`: when the sizes add up to `fill_value_size` the fill goes through,
  and field after field takes its bytes from where the previous one ended
  (`packedPlans`, the packed-struct reading), zero-size fields included.
* `planFillLoop_broadcast`: when every size is `fill_value_size` every field gets the
  whole value.
* `plan_fill_spec`: the three, for `plan_fill`, with plan `i` of the packed reading
  stated by position.
-/

namespace Realm.Transfer

/-- A `TransferPlanFill`: its `ByteArray data`, and the destination instance and offset. -/
structure TransferPlanFill where
  data : List UInt8
  inst : Nat
  offset : Nat
  deriving DecidableEq, Repr

/-- `ByteArray(_data, _size)`: a copy of the `size` bytes from `src` on. -/
def byteArray (mem : Nat → UInt8) (src size : Nat) : List UInt8 :=
  (List.range size).map fun k => mem (src + k)

/-- The loop of `plan_fill` from the running offset `fillOfs`: the plans it pushes, or
`none` when a field needs more than is left (`log_dma.fatal()` and `assert(0)`). -/
def planFillLoop (fill : Nat → UInt8) (fillValueSize : Nat) :
    Nat → List CopySrcDstField → Option (List TransferPlanFill)
  | _, [] => some []
  | fillOfs, d :: ds =>
    if fillOfs + d.size > fillValueSize then none
    else
      let fillOfs' := if fillOfs > 0 ∨ d.size ≠ fillValueSize then fillOfs + d.size else fillOfs
      (planFillLoop fill fillValueSize fillOfs' ds).map
        (⟨byteArray fill fillOfs d.size, d.inst, d.offset⟩ :: ·)

/-- `TransferPlan::plan_fill(plans, dsts, fill_value, fill_value_size)`: the plans it
pushes. -/
def planFill (dsts : List CopySrcDstField) (fill : Nat → UInt8) (fillValueSize : Nat) :
    Option (List TransferPlanFill) :=
  planFillLoop fill fillValueSize 0 dsts

/-- The packed-struct reading of a fill value, as the comment in `plan_fill` states it: each
field takes its size in bytes from where the previous field's bytes ended. -/
def packedPlans (fill : Nat → UInt8) : Nat → List CopySrcDstField → List TransferPlanFill
  | _, [] => []
  | ofs, d :: ds => ⟨byteArray fill ofs d.size, d.inst, d.offset⟩ :: packedPlans fill (ofs + d.size) ds

@[simp] theorem byteArray_zero (mem : Nat → UInt8) (src : Nat) : byteArray mem src 0 = [] := rfl

theorem byteArray_congr {mem mem' : Nat → UInt8} {src size : Nat}
    (h : ∀ k < src + size, mem k = mem' k) : byteArray mem src size = byteArray mem' src size :=
  List.map_congr_left fun k hk => h _ (by simp at hk; omega)

/-! ## The loop -/

section Loop

variable {fill : Nat → UInt8} {F : Nat}

/-- **Within the value.** Every plan copies bytes of the first `F` only: memories that agree
on them give the same plans. -/
theorem planFillLoop_congr {fill' : Nat → UInt8} (h : ∀ k < F, fill k = fill' k) :
    ∀ (o : Nat) (ds : List CopySrcDstField), planFillLoop fill F o ds = planFillLoop fill' F o ds
  | _, [] => rfl
  | o, d :: ds => by
    by_cases hfit : o + d.size > F
    · simp only [planFillLoop, if_pos hfit]
    · have hb : byteArray fill o d.size = byteArray fill' o d.size :=
        byteArray_congr fun k hk => h k (by omega)
      simp only [planFillLoop, if_neg hfit, hb, planFillLoop_congr h]

/-- Fields of size `0` take no bytes and leave the offset alone, wherever it is. -/
theorem planFillLoop_zeros {ds : List CopySrcDstField} (hz : (ds.map (·.size)).sum = 0) {o : Nat}
    (ho : o ≤ F) (o' : Nat) : planFillLoop fill F o ds = some (packedPlans fill o' ds) := by
  induction ds generalizing o' with
  | nil => rfl
  | cons d ds ih =>
    simp only [List.map_cons, List.sum_cons] at hz
    have hd : d.size = 0 := by omega
    simp only [planFillLoop, packedPlans, hd, Nat.add_zero, if_neg (Nat.not_lt.2 ho), ite_self,
      ih (by omega) (o' + 0), byteArray_zero, Option.map_some']

/-- **The packed struct.** From an offset with exactly the rest of the sizes left, the loop
goes through and each field takes its bytes from where the previous one ended. -/
theorem planFillLoop_packed {ds : List CopySrcDstField} {o : Nat}
    (hsum : o + (ds.map (·.size)).sum = F) : planFillLoop fill F o ds = some (packedPlans fill o ds) := by
  induction ds generalizing o with
  | nil => rfl
  | cons d ds ih =>
    simp only [List.map_cons, List.sum_cons] at hsum
    simp only [planFillLoop, packedPlans, if_neg (show ¬o + d.size > F by omega)]
    split_ifs with hmove
    · rw [ih (by omega)]
      rfl
    · -- the field took the whole value from `0`, so the fields after it have size `0`
      rw [planFillLoop_zeros (by omega) (by omega : o ≤ F) (o + d.size)]
      rfl

/-- **The broadcast value.** When every field has the value's size, each takes the whole
value. -/
theorem planFillLoop_broadcast {ds : List CopySrcDstField} (hall : ∀ d ∈ ds, d.size = F) :
    planFillLoop fill F 0 ds = some (ds.map fun d => ⟨byteArray fill 0 F, d.inst, d.offset⟩) := by
  induction ds with
  | nil => rfl
  | cons d ds ih =>
    have hd := hall d (List.mem_cons_self _ _)
    simp only [planFillLoop, hd, Nat.zero_add, gt_iff_lt, Nat.lt_irrefl, if_false, Nat.lt_irrefl,
      ne_eq, not_true_eq_false, or_self, ih fun d' h => hall d' (List.mem_cons_of_mem _ h),
      Option.map_some', List.map_cons]

end Loop

/-- Plan `i` of the packed reading: field `i`'s bytes start at the sum of the sizes before it. -/
theorem getElem?_packedPlans (fill : Nat → UInt8) :
    ∀ (o : Nat) (ds : List CopySrcDstField) (i : Nat), (packedPlans fill o ds)[i]? =
      ds[i]?.map fun d => ⟨byteArray fill (o + fieldOffset (ds.map (·.size)) i) d.size, d.inst, d.offset⟩
  | _, [], _ => rfl
  | o, d :: ds, 0 => by simp [packedPlans, fieldOffset]
  | o, d :: ds, i + 1 => by
    simp only [packedPlans, List.getElem?_cons_succ, getElem?_packedPlans fill (o + d.size) ds i,
      fieldOffset, List.map_cons, List.take_succ_cons, List.sum_cons, Nat.add_assoc]

theorem length_packedPlans (fill : Nat → UInt8) :
    ∀ (o : Nat) (ds : List CopySrcDstField), (packedPlans fill o ds).length = ds.length
  | _, [] => rfl
  | _, _ :: ds => congrArg (· + 1) (length_packedPlans fill _ ds)

/-- **`plan_fill`.** (a) The plans depend only on the `fill_value_size` bytes of the value.
(b) When the field sizes add up to `fill_value_size`, the fill goes through with one plan
per field, in order, plan `i` holding the bytes of the value from the sum of the sizes
before field `i` on, with field `i`'s instance and offset. (c) When every field has the
value's size, the fill goes through and every plan holds the whole value. -/
theorem plan_fill_spec (dsts : List CopySrcDstField) (fillValueSize : Nat) :
    (∀ fill fill' : Nat → UInt8, (∀ k < fillValueSize, fill k = fill' k) →
      planFill dsts fill fillValueSize = planFill dsts fill' fillValueSize) ∧
    ((dsts.map (·.size)).sum = fillValueSize → ∀ fill, ∃ plans,
      planFill dsts fill fillValueSize = some plans ∧ plans.length = dsts.length ∧
        ∀ (i : Nat) (d : CopySrcDstField), dsts[i]? = some d → plans[i]? =
          some ⟨byteArray fill (fieldOffset (dsts.map (·.size)) i) d.size, d.inst, d.offset⟩) ∧
    ((∀ d ∈ dsts, d.size = fillValueSize) → ∀ fill,
      planFill dsts fill fillValueSize =
        some (dsts.map fun d => ⟨byteArray fill 0 fillValueSize, d.inst, d.offset⟩)) := by
  refine ⟨fun fill fill' h => planFillLoop_congr h 0 dsts, fun hsum fill => ?_,
    fun hall fill => planFillLoop_broadcast hall⟩
  refine ⟨_, planFillLoop_packed (by rw [Nat.zero_add, hsum]), length_packedPlans fill 0 dsts,
    fun i d hd => ?_⟩
  rw [getElem?_packedPlans, hd, Nat.zero_add]
  rfl

/-- Two fields of two bytes from a four-byte value, then a field of four bytes. -/
example : planFill [⟨1, 0, 2, 0⟩, ⟨1, 2, 2, 0⟩] (fun k => k.toUInt8) 4 =
    some [⟨[0, 1], 1, 0⟩, ⟨[2, 3], 1, 2⟩] := rfl

example : planFill [⟨1, 0, 2, 0⟩, ⟨1, 2, 4, 0⟩] (fun k => k.toUInt8) 4 = none := rfl

end Realm.Transfer
