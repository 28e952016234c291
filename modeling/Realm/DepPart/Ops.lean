import Mathlib

/-!
# One-dimensional index spaces and the partitioning operations of `deppart.cc`

The tests of `src/test/realm/deppart.cc` build `ZIndexSpace<1>`s, write field data into
instances over them, and call the dependent-partitioning operations of `ZIndexSpace`:
`create_subspaces_by_field`, `create_subspaces_by_preimage`, `create_subspaces_by_image`
and the set operations. Those operations are the runtime's, not the test's; here each is
what it computes, as a membership test of the subspace it returns. A test's field is the
value its instances hold at each point, and an image ranges over the points the field
data covers.
-/

namespace Realm.DepPart

/-- A `ZIndexSpace<1>`, by its `contains` test. -/
abbrev Space := Int → Bool

/-- `ZRect<1>(lo, hi)`. -/
def rect (lo hi : Int) : Space := fun p => decide (lo ≤ p ∧ p ≤ hi)

/-- The points `0, ..., n - 1` of `ZRect<1>(0, n - 1)`, in the order the tests loop over them;
also the vector `colors` with `colors[i] = i`. -/
def points (n : Int) : List Int := (List.range n.toNat).map fun k : Nat => (k : Int)

/-- The values `lo, ..., hi - 1` of a loop `for(int v = lo; v < hi; v++)`. -/
def span (lo hi : Int) : List Int := (points (hi - lo)).map (lo + ·)

/-- `ZRect<1>(lo, hi).volume()`. -/
def rectVolume (lo hi : Int) : Int := if lo ≤ hi then hi - lo + 1 else 0

/-- `subspaces[i]` of a vector of subspaces. -/
def nth (l : List Space) (i : Int) : Space := l.getD i.toNat fun _ => false

/-- `create_subspaces_by_field(field_data, colors, subspaces)`: for each color, the points of
`parent` whose field value is that color. -/
def subspacesByField {α : Type} [DecidableEq α] (parent : Space) (field : Int → α)
    (colors : List α) : List Space :=
  colors.map fun c p => parent p && decide (field p = c)

/-- `create_subspace_by_field(field_data, color, subspace)`. -/
def subspaceByField {α : Type} [DecidableEq α] (parent : Space) (field : Int → α) (c : α) :
    Space :=
  fun p => parent p && decide (field p = c)

/-- `create_subspaces_by_preimage(field_data, targets, preimages)`: the points of `parent`
whose field value lies in the target. -/
def subspacesByPreimage (parent : Space) (field : Int → Int) (targets : List Space) :
    List Space :=
  targets.map fun t p => parent p && t (field p)

/-- `create_subspace_by_image(field_data, source, image)`: the points of `parent` that the
field maps a point of `source` to; `dom` lists the points the field data covers. -/
def subspaceByImage (parent : Space) (field : Int → Int) (dom : List Int) (source : Space) :
    Space :=
  fun q => parent q && dom.any fun p => source p && field p == q

/-- `create_subspaces_by_image(field_data, sources, images)`. -/
def subspacesByImage (parent : Space) (field : Int → Int) (dom : List Int)
    (sources : List Space) : List Space :=
  sources.map (subspaceByImage parent field dom)

/-- `create_weighted_subspaces(count, 1, weights, subspaces)` of `ZRect<1>(0, total - 1)`, as the
tests call it, with weights that add up to the volume: consecutive ranges `[lo, hi]` of the
weights' sizes, in order. -/
def weightedSubspaces (weights : List Int) : List (Int × Int) :=
  (points weights.length).map fun i =>
    ((weights.take i.toNat).sum, (weights.take (i.toNat + 1)).sum - 1)

/-- What an instance holds at `p` after the writes of a task: the last value written there, or
whatever the allocation held (`junk`). -/
def readInstance {α : Type} (junk : Int → α) (writes : List (Int × α)) (p : Int) : α :=
  match writes.reverse.find? fun w => w.1 == p with
  | some w => w.2
  | none => junk p

/-- A field read through its `FieldDataDescriptor`s, one `([lo, hi], writes)` per instance: the
value held by the instance whose index space holds the point. -/
def fieldData {α : Type} (junk : Int → α) (descs : List ((Int × Int) × List (Int × α)))
    (p : Int) : α :=
  match descs.find? fun d => decide (d.1.1 ≤ p ∧ p ≤ d.1.2) with
  | some d => readInstance junk d.2 p
  | none => junk p

/-- `compute_difference(lhs, rhs, result)`. -/
def difference (a b : Space) : Space := fun p => a p && !b p

/-- `compute_differences(lhss, rhss, results)`, pairwise. -/
def differences (ls rs : List Space) : List Space := List.zipWith difference ls rs

/-- `compute_union(subspaces, result)`. -/
def union (l : List Space) : Space := fun p => l.any fun s => s p

/-- `compute_intersections(lhss, rhs, results)`. -/
def intersections (ls : List Space) (r : Space) : List Space := ls.map fun l p => l p && r p

/-- An instance whose writes go to distinct points holds at `p` the value written there. -/
theorem readInstance_of_mem {α : Type} (junk : Int → α) {writes : List (Int × α)}
    (hnd : (writes.map Prod.fst).Nodup) {p : Int} {a : α} (hm : (p, a) ∈ writes) :
    readInstance junk writes p = a := by
  unfold readInstance
  cases hf : writes.reverse.find? fun w => w.1 == p with
  | none =>
    rw [List.find?_eq_none] at hf
    exact absurd (by simp) (hf (p, a) (List.mem_reverse.2 hm))
  | some w =>
    have hw := List.mem_reverse.1 (List.mem_of_find?_eq_some hf)
    have hp : w.1 = p := by simpa using List.find?_some hf
    rw [List.inj_on_of_nodup_map hnd hw hm hp]

@[simp] theorem rect_apply (lo hi p : Int) : rect lo hi p = decide (lo ≤ p ∧ p ≤ hi) := rfl

@[simp] theorem mem_points {n p : Int} : p ∈ points n ↔ 0 ≤ p ∧ p < n := by
  simp only [points, List.mem_map, List.mem_range]
  constructor
  · rintro ⟨k, hk, rfl⟩
    omega
  · rintro ⟨h0, hn⟩
    exact ⟨p.toNat, by omega, by omega⟩

theorem nth_map_points (f : Int → Space) {n p : Int} (h0 : 0 ≤ p) (hn : p < n) :
    nth ((points n).map f) p = f p := by
  have hk : p.toNat < n.toNat := by omega
  simp only [nth, points, List.map_map, List.getD_eq_getElem?_getD, List.getElem?_map,
    List.getElem?_range hk, Option.map_some', Option.getD_some, Function.comp_apply]
  rw [Int.toNat_of_nonneg h0]

theorem getD_map_points {α : Type} (f : Int → α) (d : α) {n p : Int} (h0 : 0 ≤ p) (hn : p < n) :
    ((points n).map f).getD p.toNat d = f p := by
  have hk : p.toNat < n.toNat := by omega
  simp only [points, List.map_map, List.getD_eq_getElem?_getD, List.getElem?_map,
    List.getElem?_range hk, Option.map_some', Option.getD_some, Function.comp_apply]
  rw [Int.toNat_of_nonneg h0]

theorem getElem?_map_points {α : Type} (f : Int → α) {n : Int} {i : Nat} (hi : (i : Int) < n) :
    ((points n).map f)[i]? = some (f i) := by
  simp only [points, List.map_map, List.getElem?_map, List.getElem?_range (show i < n.toNat by omega),
    Option.map_some', Function.comp_apply]

@[simp] theorem subspaceByImage_apply (parent : Space) (field : Int → Int) (dom : List Int)
    (source : Space) (q : Int) :
    subspaceByImage parent field dom source q = true ↔
      parent q = true ∧ ∃ p ∈ dom, source p = true ∧ field p = q := by
  simp [subspaceByImage]

@[simp] theorem union_apply (l : List Space) (q : Int) :
    union l q = true ↔ ∃ s ∈ l, s q = true := by
  simp [union]

theorem nth_eq_getElem {l : List Space} {k : Nat} (hk : k < l.length) : nth l k = l[k] := by
  simp [nth, List.getElem?_eq_getElem hk]

theorem union_apply_nth {l : List Space} {n : Int} (hl : l.length = n.toNat) (q : Int) :
    union l q = true ↔ ∃ p ∈ points n, nth l p q = true := by
  rw [union_apply]
  constructor
  · rintro ⟨s, hs, hq⟩
    obtain ⟨k, hk, rfl⟩ := List.mem_iff_getElem.1 hs
    exact ⟨k, mem_points.2 ⟨by omega, by omega⟩, by rwa [nth_eq_getElem hk]⟩
  · rintro ⟨p, hp, hq⟩
    rw [mem_points] at hp
    have hk : p.toNat < l.length := by omega
    rw [← Int.toNat_of_nonneg hp.1, nth_eq_getElem hk] at hq
    exact ⟨_, List.getElem_mem hk, hq⟩

@[simp] theorem length_points (n : Int) : (points n).length = n.toNat := by
  simp [points]

/-- A loop whose rounds each count at most `c` counts at most `c` per round. -/
theorem sum_map_le_mul {α : Type} (l : List α) (f : α → Nat) {c : Nat} (h : ∀ x ∈ l, f x ≤ c) :
    (l.map f).sum ≤ l.length * c := by
  simpa using List.sum_le_card_nsmul (l.map f) c (by simpa using h)

theorem differences_map (l : List Int) (f g : Int → Space) :
    differences (l.map f) (l.map g) = l.map fun p => difference (f p) (g p) := by
  simp only [differences, List.zipWith_map, List.zipWith_same]

end Realm.DepPart
