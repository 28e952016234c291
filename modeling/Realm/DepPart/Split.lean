import Realm.DepPart.Ops

/-!
# Even splits of an axis: `split_evenly` and `find_split`

`split_evenly(total, pieces, cuts)` of `deppart.cc` cuts `[0, total)` at
`cuts[i] = total * i / pieces`, and `find_split(cuts, v)` finds by linear search the piece
`i` with `cuts[i] ≤ v < cuts[i + 1]`. With `0 < pieces ≤ total` — the test asserts
`global_x >= blocks_x` "so as not to allow degenerate blocks" — the cuts strictly increase from
`0` to `total`, every piece is non-empty, and `find_split` succeeds on every `0 ≤ v < total`.

The tests also walk vectors filled by nested loops (`cells_per_block`, `faces_per_block`), so
this module also sums such vectors and their prefixes.
-/

namespace Realm.DepPart

/-- `v[i]` of a `std::vector<int>`. -/
def vecAt (l : List Int) (i : Int) : Int := l.getD i.toNat 0

/-- `split_evenly(total, pieces, cuts)`. The test instantiates it at `int`; here `total * i` is
an `Int`, which is the test's value while `total * pieces < 2^31` (`MiniAeroTest.Valid`). -/
def splitEvenly (total pieces : Int) : List Int :=
  (points (pieces + 1)).map fun i => total * i / pieces

/-- The width `cuts[b + 1] - cuts[b]` of piece `b` (`nx`, `lx`, ...). -/
def extent (cuts : List Int) (b : Int) : Int := vecAt cuts (b + 1) - vecAt cuts b

/-- The loop of `find_split` from `cuts[i]` on: `i - 1` for the first `i` with `v < cuts[i]`,
`none` at the `assert(false)` past the end. -/
def findSplitFrom (v : Int) : List Int → Int → Option Int
  | [], _ => none
  | c :: cs, i => if v < c then some (i - 1) else findSplitFrom v cs (i + 1)

/-- `find_split(cuts, v)`: `none` when one of its assertions fails. -/
def findSplit (cuts : List Int) (v : Int) : Option Int :=
  match cuts with
  | [] => none
  | c :: cs => if c ≤ v then findSplitFrom v cs 1 else none

theorem points_succ {n : Int} (h : 0 ≤ n) : points (n + 1) = points n ++ [n] := by
  have hn : (n + 1).toNat = n.toNat + 1 := by omega
  simp only [points, hn, List.range_succ, List.map_append, List.map_cons, List.map_nil]
  rw [Int.toNat_of_nonneg h]

/-- A sum of differences over `0, ..., n - 1` telescopes. -/
theorem sum_points_sub (f : Int → Int) {n : Int} (h : 0 ≤ n) :
    ((points n).map fun i => f (i + 1) - f i).sum = f n - f 0 := by
  obtain ⟨k, rfl⟩ := Int.eq_ofNat_of_zero_le h
  induction k with
  | zero => simp [points]
  | succ k ih =>
    rw [Nat.cast_succ, points_succ (by omega), List.map_append, List.sum_append,
      ih (by omega)]
    simp

theorem vecAt_map_points (f : Int → Int) {n i : Int} (h0 : 0 ≤ i) (hi : i < n) :
    vecAt ((points n).map f) i = f i := by
  have hk : i.toNat < n.toNat := by omega
  simp only [vecAt, points, List.map_map, List.getD_eq_getElem?_getD, List.getElem?_map,
    List.getElem?_range hk, Option.map_some', Option.getD_some, Function.comp_apply]
  rw [Int.toNat_of_nonneg h0]

theorem vecAt_eq_getElem {l : List Int} {i : Int} (h : i.toNat < l.length) : vecAt l i = l[i.toNat] := by
  rw [vecAt, List.getD_eq_getElem?_getD, List.getElem?_eq_getElem h, Option.getD_some]

/-- Reading a vector filled by a loop over `0, ..., n - 1` at each index gives it back. -/
theorem map_vecAt_points (f : Int → Int) (n : Int) :
    (points n).map (vecAt ((points n).map f)) = (points n).map f :=
  List.map_congr_left fun _ hi => vecAt_map_points f (mem_points.1 hi).1 (mem_points.1 hi).2

/-! ### Loops -/

@[simp] theorem mem_span {lo hi v : Int} : v ∈ span lo hi ↔ lo ≤ v ∧ v < hi := by
  simp only [span, List.mem_map, mem_points]
  constructor
  · rintro ⟨k, hk, rfl⟩
    omega
  · rintro ⟨h0, h1⟩
    exact ⟨v - lo, by omega, by omega⟩

@[simp] theorem length_span (lo hi : Int) : (span lo hi).length = (hi - lo).toNat := by
  simp [span]

theorem getElem_span {lo hi : Int} {i : Nat} (h : i < (span lo hi).length) : (span lo hi)[i] = lo + i := by
  simp [span, points]

theorem points_add {a b : Int} (ha : 0 ≤ a) (hb : 0 ≤ b) :
    points (a + b) = points a ++ (points b).map (a + ·) := by
  obtain ⟨k, rfl⟩ := Int.eq_ofNat_of_zero_le hb
  induction k with
  | zero => simp [points]
  | succ k ih =>
    rw [Nat.cast_succ, ← add_assoc, points_succ (by omega), ih (by omega), points_succ (by omega),
      List.map_append, List.append_assoc]
    rfl

/-- Two nested loops enumerate `0, ..., a * b - 1` in order. -/
theorem points_mul {a b : Int} (ha : 0 ≤ a) (hb : 0 ≤ b) :
    points (a * b) = (points a).flatMap fun q => (points b).map fun r => q * b + r := by
  obtain ⟨k, rfl⟩ := Int.eq_ofNat_of_zero_le ha
  induction k with
  | zero => simp [points]
  | succ k ih =>
    rw [Nat.cast_succ, add_mul, one_mul, points_add (by positivity) hb, ih (by omega),
      points_succ (by omega), List.flatMap_append]
    simp

/-- `(q * m + r) / m = q` and `(q * m + r) % m = r` for a digit `0 ≤ r < m`. -/
theorem take_points {i n : Int} (hi : i ≤ n) : (points n).take i.toNat = points i := by
  simp only [points, ← List.map_take, List.take_range]
  congr 2
  omega

theorem ediv_emod_digit {q m r : Int} (h0 : 0 ≤ r) (hr : r < m) :
    (q * m + r) / m = q ∧ (q * m + r) % m = r :=
  (Int.ediv_emod_unique (by omega)).2 ⟨by rw [Int.mul_comm m q, Int.add_comm], h0, hr⟩

/-- Three nested loops enumerate `0, ..., a * b * c - 1` in order, the innermost fastest. -/
theorem points_mul3 {α : Type} {a b c : Int} (ha : 0 ≤ a) (hb : 0 ≤ b) (hc : 0 ≤ c)
    (G : Int → Int → Int → α) :
    ((points a).flatMap fun q => (points b).flatMap fun r => (points c).map fun s => G q r s) =
      (points (a * b * c)).map fun k => G (k / c / b) (k / c % b) (k % c) := by
  rw [points_mul (by positivity) hc, points_mul ha hb]
  simp only [List.flatMap_assoc, List.flatMap_map, List.map_flatMap, List.map_map]
  refine List.flatMap_congr fun q _ => List.flatMap_congr fun r hr =>
    List.map_congr_left fun s hs => ?_
  rw [mem_points] at hr hs
  obtain ⟨h1, h2⟩ := ediv_emod_digit (q := q * b + r) hs.1 hs.2
  obtain ⟨h3, h4⟩ := ediv_emod_digit (q := q) hr.1 hr.2
  simp only [Function.comp_apply, h1, h2, h3, h4]

/-- The digits of `k` in the mixed radix `(a, b)` give `k` back. -/
theorem mixed_radix (k a b : Int) : k % a + k / a % b * a + k / a / b * a * b = k := by
  have h1 := Int.emod_add_ediv k a
  have h2 := Int.emod_add_ediv (k / a) b
  calc k % a + k / a % b * a + k / a / b * a * b
      = k % a + a * (k / a % b + b * (k / a / b)) := by ring
    _ = k := by rw [h2, h1]

/-- The digits of `lx + ly * nx + lz * nx * ny` in the mixed radix `(nx, ny)`. -/
theorem digits3 {lx ly lz nx ny : Int} (hx0 : 0 ≤ lx) (hx : lx < nx) (hy0 : 0 ≤ ly) (hy : ly < ny) :
    (lx + ly * nx + lz * nx * ny) % nx = lx ∧ (lx + ly * nx + lz * nx * ny) / nx % ny = ly ∧
      (lx + ly * nx + lz * nx * ny) / nx / ny = lz := by
  rw [show lx + ly * nx + lz * nx * ny = (lz * ny + ly) * nx + lx by ring]
  obtain ⟨h1, h2⟩ := ediv_emod_digit (q := lz * ny + ly) hx0 hx
  obtain ⟨h3, h4⟩ := ediv_emod_digit (q := lz) hy0 hy
  exact ⟨h2, by rw [h1, h4], by rw [h1, h3]⟩

/-- The local index `lx + ly * nx + lz * nx * ny` of a cell of an `nx × ny × nz` box lies in
`[0, nx * ny * nz)`. -/
theorem local_index_mem {lx ly lz nx ny nz : Int} (hx0 : 0 ≤ lx) (hx : lx < nx) (hy0 : 0 ≤ ly)
    (hy : ly < ny) (hz0 : 0 ≤ lz) (hz : lz < nz) :
    0 ≤ lx + ly * nx + lz * nx * ny ∧ lx + ly * nx + lz * nx * ny < nx * ny * nz := by
  have h1 : 0 ≤ ly * nx := mul_nonneg hy0 (by omega)
  have h2 : 0 ≤ lz * nx * ny := mul_nonneg (mul_nonneg hz0 (by omega)) (by omega)
  have h3 : lx + ly * nx < ny * nx := by nlinarith
  have h4 : (lz + 1) * (nx * ny) ≤ nz * (nx * ny) := by nlinarith
  constructor <;> nlinarith

theorem ediv_ediv_of_pos {k b c : Int} (hb : 0 < b) (hc : 0 < c) : k / b / c = k / (b * c) := by
  have h1 := Int.emod_nonneg k hb.ne'
  have h2 := Int.emod_lt_of_pos k hb
  have h3 := Int.emod_nonneg (k / b) hc.ne'
  have h4 := Int.emod_lt_of_pos (k / b) hc
  have h := (ediv_emod_digit (q := k / b / c) (m := b * c) (r := k / b % c * b + k % b)
    (by positivity) (by nlinarith)).1
  rwa [show k / b / c * (b * c) + (k / b % c * b + k % b) = k by
    linear_combination mixed_radix k b c, eq_comm] at h

theorem nodup_span (lo hi : Int) : (span lo hi).Nodup :=
  ((List.nodup_range _).map fun _ _ h => Int.ofNat_inj.1 h).map fun _ _ h => add_left_cancel h

theorem mapM_eq_some_map {α β : Type} (f : α → Option β) (g : α → β) :
    ∀ l : List α, (∀ x ∈ l, f x = some (g x)) → l.mapM f = some (l.map g)
  | [], _ => rfl
  | x :: l, h => by
    rw [List.mapM_cons, h x (List.mem_cons_self _ _),
      mapM_eq_some_map f g l fun y hy => h y (List.mem_cons_of_mem _ hy)]
    rfl

/-- A counting loop with a running point, `for i < n { errors += g(i, p); p++ }`. -/
theorem foldl_count (g : Int → Int → Nat) {n : Int} (hn : 0 ≤ n) (e : Nat) (s : Int) :
    (points n).foldl (fun (a : Nat × Int) i => (a.1 + g i a.2, a.2 + 1)) (e, s) =
      (e + ((points n).map fun i => g i (s + i)).sum, s + n) := by
  obtain ⟨m, rfl⟩ := Int.eq_ofNat_of_zero_le hn
  induction m with
  | zero => simp [points]
  | succ m ih =>
    rw [Nat.cast_succ, points_succ (by omega), List.foldl_append, ih (by omega)]
    simp only [List.foldl_cons, List.foldl_nil, List.map_append, List.map_cons, List.map_nil,
      List.sum_append, List.sum_cons, List.sum_nil, Prod.mk.injEq]
    constructor <;> omega

/-! ### The cuts of an even split -/

section Cuts

variable {total pieces : Int} (hp : 0 < pieces) (ht : pieces ≤ total)

omit ht in
theorem vecAt_splitEvenly {i : Int} (h0 : 0 ≤ i) (hi : i ≤ pieces) :
    vecAt (splitEvenly total pieces) i = total * i / pieces :=
  vecAt_map_points _ h0 (by omega)

include hp ht

/-- Consecutive cuts are at least one apart: no piece is empty. -/
theorem cut_lt_cut (i : Int) : total * i / pieces + 1 ≤ total * (i + 1) / pieces := by
  rw [← Int.add_mul_ediv_right _ _ hp.ne']
  exact Int.ediv_le_ediv hp (by nlinarith)

theorem cut_mono {i j : Int} (hij : i ≤ j) : total * i / pieces ≤ total * j / pieces :=
  Int.ediv_le_ediv hp (by nlinarith)

omit ht in
theorem cut_last : total * pieces / pieces = total := Int.mul_ediv_cancel _ hp.ne'

/-- Two pieces that both hold `v` are the same piece. -/
theorem piece_unique {v i j : Int} (hlo : total * i / pieces ≤ v) (hhi : v < total * (i + 1) / pieces)
    (hlo' : total * j / pieces ≤ v) (hhi' : v < total * (j + 1) / pieces) : i = j := by
  by_contra hne
  rcases lt_or_gt_of_ne hne with h | h
  · have := cut_mono hp ht (show i + 1 ≤ j by omega)
    omega
  · have := cut_mono hp ht (show j + 1 ≤ i by omega)
    omega

omit hp ht in
theorem extent_splitEvenly {b : Int} (h0 : 0 ≤ b) (hb : b < pieces) :
    extent (splitEvenly total pieces) b = total * (b + 1) / pieces - total * b / pieces := by
  rw [extent, vecAt_splitEvenly h0 hb.le, vecAt_splitEvenly (by omega) (by omega)]

theorem one_le_extent {b : Int} (h0 : 0 ≤ b) (hb : b < pieces) :
    1 ≤ extent (splitEvenly total pieces) b := by
  have := cut_lt_cut hp ht b
  rw [extent_splitEvenly h0 hb]
  omega

omit ht in
/-- The widths of the pieces add up to the whole axis. -/
theorem sum_extent : ((points pieces).map (extent (splitEvenly total pieces))).sum = total := by
  have hf : ∀ b ∈ points pieces, extent (splitEvenly total pieces) b =
      (fun i => total * i / pieces) (b + 1) - (fun i => total * i / pieces) b := fun b hb => by
    rw [mem_points] at hb
    rw [extent, vecAt_splitEvenly hb.1 hb.2.le, vecAt_splitEvenly (by omega) (by omega)]
  rw [List.map_congr_left hf, sum_points_sub (fun i => total * i / pieces) hp.le, cut_last hp]
  simp

omit ht in
theorem vecAt_splitEvenly_zero : vecAt (splitEvenly total pieces) 0 = 0 := by
  rw [vecAt_splitEvenly le_rfl hp.le]
  simp

omit ht in
theorem vecAt_splitEvenly_last : vecAt (splitEvenly total pieces) pieces = total := by
  rw [vecAt_splitEvenly hp.le le_rfl, cut_last hp]

/-- The cuts strictly increase. -/
theorem cut_lt_cut_iff {i j : Int} : total * i / pieces < total * j / pieces ↔ i < j := by
  constructor
  · intro h
    by_contra hji
    have := cut_mono hp ht (not_lt.1 hji)
    omega
  · intro h
    have := cut_lt_cut hp ht i
    have := cut_mono hp ht (show i + 1 ≤ j by omega)
    omega

/-- The low cut of piece `b` is `0` only for the first piece. -/
theorem vecAt_eq_zero_iff {b : Int} (h0 : 0 ≤ b) (hb : b < pieces) :
    vecAt (splitEvenly total pieces) b = 0 ↔ b = 0 := by
  have h := @cut_lt_cut_iff total pieces hp ht 0 b
  have h' := cut_mono hp ht h0
  rw [vecAt_splitEvenly h0 hb.le]
  simp only [mul_zero, Int.zero_ediv] at h h'
  omega

/-- The high cut of piece `b` is the end of the axis only for the last piece. -/
theorem vecAt_succ_eq_total_iff {b : Int} (h0 : 0 ≤ b) (hb : b < pieces) :
    vecAt (splitEvenly total pieces) (b + 1) = total ↔ b = pieces - 1 := by
  have h := @cut_lt_cut_iff total pieces hp ht (b + 1) pieces
  have h' := cut_mono hp ht (show b + 1 ≤ pieces by omega)
  rw [vecAt_splitEvenly (by omega) (by omega)]
  rw [cut_last hp] at h h'
  omega

section Neighbours

variable {b j l : Int} (hb0 : 0 ≤ b) (hb : b < pieces) (hj0 : 0 ≤ j) (hj : j < pieces)
  (hl0 : 0 ≤ l) (hl : l < extent (splitEvenly total pieces) b)
include hb0 hb hj0 hj hl0 hl

/-- The cell at offset `l` of piece `b` lies in piece `j` only if `j = b`. -/
theorem piece_mem_iff :
    (vecAt (splitEvenly total pieces) j ≤ vecAt (splitEvenly total pieces) b + l ∧
      vecAt (splitEvenly total pieces) b + l < vecAt (splitEvenly total pieces) (j + 1)) ↔
      j = b := by
  rw [extent_splitEvenly hb0 hb] at hl
  rw [vecAt_splitEvenly hj0 hj.le, vecAt_splitEvenly (i := j + 1) (by omega) (by omega),
    vecAt_splitEvenly hb0 hb.le]
  constructor
  · have h1 := @cut_lt_cut_iff total pieces hp ht b (j + 1)
    have h2 := @cut_lt_cut_iff total pieces hp ht j (b + 1)
    omega
  · rintro rfl
    omega

/-- The cell just below piece `j` is the last cell of the piece before it. -/
theorem below_piece_iff :
    (vecAt (splitEvenly total pieces) b + l = vecAt (splitEvenly total pieces) j - 1 ∧
      0 < vecAt (splitEvenly total pieces) j) ↔
      j = b + 1 ∧ l = extent (splitEvenly total pieces) b - 1 := by
  rw [extent_splitEvenly hb0 hb] at hl ⊢
  rw [vecAt_splitEvenly hj0 hj.le, vecAt_splitEvenly hb0 hb.le]
  constructor
  · have h1 := @cut_lt_cut_iff total pieces hp ht b j
    have h2 := @cut_lt_cut_iff total pieces hp ht (b + 1) j
    have h3 := @cut_lt_cut_iff total pieces hp ht j (b + 1)
    omega
  · rintro ⟨rfl, rfl⟩
    have h := cut_lt_cut hp ht b
    have h' := cut_mono hp ht hb0
    simp only [mul_zero, Int.zero_ediv] at h'
    omega

/-- The cell just above piece `j` is the first cell of the piece after it. -/
theorem above_piece_iff :
    (vecAt (splitEvenly total pieces) b + l = vecAt (splitEvenly total pieces) (j + 1) ∧
      vecAt (splitEvenly total pieces) (j + 1) < total) ↔ j = b - 1 ∧ l = 0 := by
  rw [extent_splitEvenly hb0 hb] at hl
  rw [vecAt_splitEvenly (i := j + 1) (by omega) (by omega), vecAt_splitEvenly hb0 hb.le]
  constructor
  · have h1 := @cut_lt_cut_iff total pieces hp ht b (j + 1)
    have h2 := @cut_lt_cut_iff total pieces hp ht (j + 1) b
    have h3 := @cut_lt_cut_iff total pieces hp ht (j + 1) (b + 1)
    omega
  · rintro ⟨rfl, rfl⟩
    have h := @cut_lt_cut_iff total pieces hp ht b pieces
    rw [cut_last hp] at h
    simp only [sub_add_cancel]
    omega

/-- The cell at offset `l` of piece `b` lies just across a side of piece `j` that is not an end of
the axis exactly when it is the last cell of the piece before `j` or the first of the piece
after it. -/
theorem across_piece_iff :
    (vecAt (splitEvenly total pieces) j ≠ 0 ∧
        vecAt (splitEvenly total pieces) b + l = vecAt (splitEvenly total pieces) j - 1 ∨
      vecAt (splitEvenly total pieces) (j + 1) ≠ total ∧
        vecAt (splitEvenly total pieces) b + l = vecAt (splitEvenly total pieces) (j + 1)) ↔
      (j = b + 1 ∧ l = extent (splitEvenly total pieces) b - 1) ∨ (j = b - 1 ∧ l = 0) := by
  have hlo := cut_mono hp ht hj0
  have hhi := cut_mono hp ht (show j + 1 ≤ pieces by omega)
  rw [cut_last hp] at hhi
  simp only [mul_zero, Int.zero_ediv] at hlo
  rw [← vecAt_splitEvenly hj0 hj.le] at hlo
  rw [← vecAt_splitEvenly (by omega) (by omega)] at hhi
  rw [← below_piece_iff hp ht hb0 hb hj0 hj hl0 hl, ← above_piece_iff hp ht hb0 hb hj0 hj hl0 hl]
  omega

end Neighbours

omit ht in
theorem vecAt_splitEvenly_nonneg {b : Int} (hb0 : 0 ≤ b) (hb : b ≤ pieces) (ht : 0 ≤ total) :
    0 ≤ vecAt (splitEvenly total pieces) b := by
  rw [vecAt_splitEvenly hb0 hb]
  exact Int.ediv_nonneg (mul_nonneg ht hb0) hp.le

theorem vecAt_splitEvenly_le {b : Int} (hb0 : 0 ≤ b) (hb : b ≤ pieces) :
    vecAt (splitEvenly total pieces) b ≤ total := by
  have := cut_mono hp ht hb
  rw [cut_last hp] at this
  rwa [vecAt_splitEvenly hb0 hb]

end Cuts

theorem sum_points_const (c : Int) {n : Int} (h : 0 ≤ n) : ((points n).map fun _ => c).sum = n * c := by
  simp [List.map_const', List.sum_replicate, Int.toNat_of_nonneg h]

/-- The loop of `find_split` returns `i - 1` for the first cut above `v`. -/
theorem findSplitFrom_eq {v : Int} :
    ∀ (cs : List Int) (k : Nat) (i : Int), k < cs.length → v < cs.getD k 0 →
      (∀ j < k, cs.getD j 0 ≤ v) → findSplitFrom v cs i = some (i + k - 1)
  | [], _, _, hk, _, _ => absurd hk (Nat.not_lt_zero _)
  | c :: cs, 0, i, _, hv, _ => by
    simp only [List.getD_cons_zero] at hv
    simp [findSplitFrom, hv]
  | c :: cs, k + 1, i, hk, hv, hle => by
    have hc : ¬ v < c := not_lt.2 (hle 0 (Nat.succ_pos _))
    simp only [findSplitFrom, hc, if_false]
    rw [findSplitFrom_eq cs k (i + 1) (by simpa using hk) (by simpa using hv)
      fun j hj => by simpa using hle (j + 1) (by omega)]
    congr 1
    omega

theorem splitEvenly_eq_cons (total : Int) {pieces : Int} (hp : 0 ≤ pieces) :
    splitEvenly total pieces = 0 :: (points pieces).map fun i => total * (i + 1) / pieces := by
  have hn : (pieces + 1).toNat = pieces.toNat + 1 := by omega
  simp only [splitEvenly, points, hn, List.range_succ_eq_map, List.map_cons, List.map_map]
  simp [Function.comp_def]

/-- `find_split` on the cuts of an even split succeeds on every `0 ≤ v < total`, and gives the
piece holding `v`. -/
theorem findSplit_splitEvenly {total pieces v : Int} (hp : 0 < pieces) (h0 : 0 ≤ v) (hv : v < total) :
    ∃ b, findSplit (splitEvenly total pieces) v = some b ∧ 0 ≤ b ∧ b < pieces ∧
      total * b / pieces ≤ v ∧ v < total * (b + 1) / pieces := by
  have hex : ∃ k : Nat, v < total * ((k : Int) + 1) / pieces :=
    ⟨(pieces - 1).toNat, by rwa [Int.toNat_of_nonneg (by omega), sub_add_cancel, cut_last hp]⟩
  classical
  -- the first piece whose upper cut lies above `v`
  obtain ⟨hk, hmin⟩ := (Nat.find_eq_iff hex).1 rfl
  set k := Nat.find hex
  have hkp : (k : Int) < pieces := by
    by_contra h
    have := not_lt.1 (hmin (pieces - 1).toNat (by omega))
    rw [Int.toNat_of_nonneg (by omega), sub_add_cancel, cut_last hp] at this
    omega
  have hlo : total * k / pieces ≤ v := by
    rcases Nat.eq_zero_or_eq_succ_pred k with h | h
    · rw [h]; simpa using h0
    · have := not_lt.1 (hmin (k - 1) (by omega))
      rwa [show ((k - 1 : Nat) : Int) + 1 = k by omega] at this
  have hget : ∀ j : Nat, (j : Int) < pieces →
      ((points pieces).map fun i => total * (i + 1) / pieces).getD j 0 = total * (j + 1) / pieces := by
    intro j hj
    have := vecAt_map_points (fun i => total * (i + 1) / pieces) (Int.natCast_nonneg j) hj
    simpa [vecAt] using this
  refine ⟨k, ?_, by omega, hkp, hlo, hk⟩
  rw [splitEvenly_eq_cons total hp.le, findSplit, if_pos h0,
    findSplitFrom_eq _ k 1 (by simp; omega) (by rwa [hget k hkp])
      fun j hj => by rw [hget j (by omega)]; exact not_lt.1 (hmin j hj)]
  congr 1
  omega

/-- `find_split` finds piece `b` at every cell `cuts[b] + l` of it. -/
theorem findSplit_piece {total pieces b l : Int} (hp : 0 < pieces) (ht : pieces ≤ total)
    (h0 : 0 ≤ b) (hb : b < pieces) (hl0 : 0 ≤ l) (hl : l < extent (splitEvenly total pieces) b) :
    findSplit (splitEvenly total pieces) (vecAt (splitEvenly total pieces) b + l) = some b := by
  rw [extent_splitEvenly h0 hb] at hl
  rw [vecAt_splitEvenly h0 hb.le]
  have hlast := cut_mono hp ht (show b + 1 ≤ pieces by omega)
  rw [cut_last hp] at hlast
  have hb0 : 0 ≤ total * b / pieces := by simpa using cut_mono hp ht h0
  obtain ⟨b', hb', -, -, hlo, hhi⟩ :=
    @findSplit_splitEvenly total pieces (total * b / pieces + l) hp (by omega) (by omega)
  rw [hb', piece_unique hp ht hlo hhi (by omega : total * b / pieces ≤ _) (by omega)]

/-- A cell `cuts[b] + l` of a piece lies on the axis. -/
theorem piece_cell_mem {total pieces b l : Int} (hp : 0 < pieces) (ht : pieces ≤ total)
    (h0 : 0 ≤ b) (hb : b < pieces) (hl0 : 0 ≤ l) (hl : l < extent (splitEvenly total pieces) b) :
    0 ≤ vecAt (splitEvenly total pieces) b + l ∧ vecAt (splitEvenly total pieces) b + l < total := by
  rw [extent_splitEvenly h0 hb] at hl
  rw [vecAt_splitEvenly h0 hb.le]
  have hlast := cut_mono hp ht (show b + 1 ≤ pieces by omega)
  have hfirst := cut_mono hp ht h0
  rw [cut_last hp] at hlast
  simp at hfirst
  omega

/-- Every cell `0 ≤ v < total` of the axis is `cuts[b] + l` for a piece `b` and an offset
`0 ≤ l < nx` into it. -/
theorem exists_piece {total pieces v : Int} (hp : 0 < pieces) (h0 : 0 ≤ v) (hv : v < total) :
    ∃ b l, 0 ≤ b ∧ b < pieces ∧ 0 ≤ l ∧ l < extent (splitEvenly total pieces) b ∧
      v = vecAt (splitEvenly total pieces) b + l := by
  obtain ⟨b, -, hb0, hb, hlo, hhi⟩ := findSplit_splitEvenly hp h0 hv
  refine ⟨b, v - total * b / pieces, hb0, hb, by omega, ?_, ?_⟩
  · rw [extent_splitEvenly hb0 hb]
    omega
  · rw [vecAt_splitEvenly hb0 hb.le]
    omega

/-! ### Prefix sums of positive weights -/

section Prefix

variable {w : List Int}

theorem sum_take_succ {k : Nat} (hk : k < w.length) :
    (w.take (k + 1)).sum = (w.take k).sum + w[k] := by
  rw [List.take_succ, List.getElem?_eq_getElem hk, List.sum_append]
  simp

variable (hw : ∀ x ∈ w, 0 < x)
include hw

theorem sum_take_le_succ (k : Nat) : (w.take k).sum ≤ (w.take (k + 1)).sum := by
  rcases Nat.lt_or_ge k w.length with hk | hk
  · rw [sum_take_succ hk]
    have := hw _ (List.getElem_mem hk)
    omega
  · rw [List.take_of_length_le hk, List.take_of_length_le (by omega)]

theorem sum_take_mono {a b : Nat} (hab : a ≤ b) : (w.take a).sum ≤ (w.take b).sum := by
  induction b with
  | zero => obtain rfl := Nat.le_zero.1 hab; rfl
  | succ b ih =>
    rcases Nat.lt_or_eq_of_le hab with h | rfl
    · exact (ih (by omega)).trans (sum_take_le_succ hw b)
    · exact le_rfl

/-- The ranges `[S a, S a + w[a])` of the prefix sums `S` of positive weights are disjoint:
a point lies in at most one of them. -/
theorem prefix_unique {a b : Nat} (ha : a < w.length) (hb : b < w.length) {i j : Int}
    (hi0 : 0 ≤ i) (hi : i < w[a]) (hj0 : 0 ≤ j) (hj : j < w[b])
    (h : (w.take a).sum + i = (w.take b).sum + j) : a = b := by
  by_contra hne
  rcases Nat.lt_or_gt_of_ne hne with hab | hab
  · have := sum_take_mono hw (show a + 1 ≤ b by omega)
    rw [sum_take_succ ha] at this
    omega
  · have := sum_take_mono hw (show b + 1 ≤ a by omega)
    rw [sum_take_succ hb] at this
    omega

/-- The range of each weight lies in `[0, total)`. -/
theorem prefix_mem {k : Nat} (hk : k < w.length) {i : Int} (hi0 : 0 ≤ i) (hi : i < w[k]) :
    0 ≤ (w.take k).sum + i ∧ (w.take k).sum + i < w.sum := by
  have h0 := sum_take_mono hw (Nat.zero_le k)
  have h1 := sum_take_mono hw (show k + 1 ≤ w.length by omega)
  rw [sum_take_succ hk, List.take_length] at h1
  simp only [List.take_zero, List.sum_nil] at h0
  omega

/-- Every point below the total lies in the range of one weight. -/
theorem exists_prefix {p : Int} (h0 : 0 ≤ p) (hp : p < w.sum) :
    ∃ k, ∃ hk : k < w.length, 0 ≤ p - (w.take k).sum ∧ p - (w.take k).sum < w[k] := by
  induction w generalizing p with
  | nil => simp at hp; omega
  | cons x w ih =>
    rcases lt_or_le p x with hx | hx
    · exact ⟨0, by simp, by simpa using h0, by simpa using hx⟩
    · obtain ⟨k, hk, h1, h2⟩ := ih (fun y hy => hw y (List.mem_cons_of_mem _ hy))
        (p := p - x) (by omega) (by simp at hp; omega)
      refine ⟨k + 1, by simpa using hk, ?_, ?_⟩ <;> simp only [List.take_succ_cons,
        List.sum_cons, List.getElem_cons_succ] <;> omega

/-- The same over task indices: every point below the total is `S k + i` for a `k < n` and an
`i` below the `k`-th weight. -/
theorem exists_prefix_points {n : Int} (hlen : w.length = n.toNat) {p : Int}
    (hp : p ∈ points w.sum) :
    ∃ k ∈ points n, ∃ i ∈ points (vecAt w k), p = (w.take k.toNat).sum + i := by
  rw [mem_points] at hp
  obtain ⟨k, hk, hi0, hi⟩ := exists_prefix hw hp.1 hp.2
  refine ⟨k, mem_points.2 ⟨Int.natCast_nonneg k, by omega⟩, p - (w.take k).sum, ?_, ?_⟩
  · rw [mem_points, vecAt_eq_getElem (by simpa using hk)]
    simpa using And.intro hi0 hi
  · simp

theorem prefix_mem_points {n : Int} (hlen : w.length = n.toNat) {k i : Int} (hk : k ∈ points n)
    (hi : i ∈ points (vecAt w k)) : (w.take k.toNat).sum + i ∈ points w.sum := by
  rw [mem_points] at hk hi ⊢
  have hkl : k.toNat < w.length := by omega
  rw [vecAt_eq_getElem hkl] at hi
  exact prefix_mem hw hkl hi.1 hi.2

omit hw in
/-- `find?` returns the first element that passes the test. -/
theorem find?_eq_getElem {α : Type} {p : α → Bool} {l : List α} {k : Nat} (hk : k < l.length)
    (hp : p l[k] = true) (hbefore : ∀ j (hj : j < k), p l[j] = false) : l.find? p = some l[k] := by
  induction l generalizing k with
  | nil => simp at hk
  | cons a l ih =>
    cases k with
    | zero => exact List.find?_cons_of_pos _ hp
    | succ k =>
      have ha : p a = false := by simpa using hbefore 0 (by omega)
      rw [List.find?_cons_of_neg _ (by simp [ha])]
      exact ih (by simpa using hk) hp fun j hj => by simpa using hbefore (j + 1) (by omega)

omit hw in
theorem length_weightedSubspaces : (weightedSubspaces w).length = w.length := by
  simp [weightedSubspaces]

omit hw in
theorem getElem_weightedSubspaces {k : Nat} (hk : k < (weightedSubspaces w).length) :
    (weightedSubspaces w)[k] = ((w.take k).sum, (w.take (k + 1)).sum - 1) := by
  simp [weightedSubspaces, points]

omit hw in
/-- The `k`-th subspace of a weighted partition, as `initialize_data` reads it. -/
theorem getD_weightedSubspaces {k : Nat} (hk : k < w.length) :
    (weightedSubspaces w).getD k (0, -1) = ((w.take k).sum, (w.take k).sum + w[k] - 1) := by
  rw [List.getD_eq_getElem?_getD, List.getElem?_eq_getElem (by rwa [length_weightedSubspaces]),
    Option.getD_some, getElem_weightedSubspaces, sum_take_succ hk]

/-- A field read through the descriptors of a weighted partition: the point `S k + i` of piece
`k` is read from the instance of piece `k`. -/
theorem fieldData_weighted {α : Type} (junk : Int → α) {ws : List (List (Int × α))}
    (hlen : ws.length = w.length) {k : Nat} (hk : k < w.length) {i : Int} (hi0 : 0 ≤ i)
    (hi : i < w[k]) :
    fieldData junk ((weightedSubspaces w).zip ws) ((w.take k).sum + i) =
      readInstance junk (ws.getD k []) ((w.take k).sum + i) := by
  have hkz : k < ((weightedSubspaces w).zip ws).length := by
    simp [length_weightedSubspaces, hlen, hk]
  have hfind : ((weightedSubspaces w).zip ws).find?
      (fun d => decide (d.1.1 ≤ (w.take k).sum + i ∧ (w.take k).sum + i ≤ d.1.2)) =
        some ((weightedSubspaces w).zip ws)[k] := by
    refine find?_eq_getElem hkz ?_ fun j hj => ?_
    · simp only [List.getElem_zip, getElem_weightedSubspaces, sum_take_succ hk,
        decide_eq_true_eq]
      omega
    · simp only [List.getElem_zip, getElem_weightedSubspaces, decide_eq_false_iff_not, not_and,
        not_le]
      intro _
      have := sum_take_mono hw (show j + 1 ≤ k by omega)
      omega
  rw [fieldData, hfind]
  simp [List.getElem_zip, List.getD_eq_getElem?_getD, List.getElem?_eq_getElem (show k < ws.length by omega)]

end Prefix

end Realm.DepPart
