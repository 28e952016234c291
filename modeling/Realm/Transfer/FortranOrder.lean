import Mathlib.Data.List.Range
import Mathlib.Data.List.Nodup

/-!
# Boxes in Fortran order

A `Rect<DIM>` of the runtime is a box `[lo, hi]` of integer points, `DIM` coordinates
each; a point is the list of its coordinates. Instances lay a box out in Fortran order,
dimension 0 fastest: `pointsOf lo hi` lists the points in that order and `rank lo hi q` is
the position of `q` in it, the dense Fortran linearization of the box
(`map_rank_pointsOf`).

The rectangle iterators give out runs of that order: boxes `[p, b]` whose first dimensions
are taken whole, then one dimension from `p` on, with `p`'s coordinates after it
(`IsRun`). Such a box is a slice of the order starting at `p` (`isRun_slice`), and the
carry loop of the iterators finds the point right after it (`nextPoint_spec`). Together:
the points from `p` on are the run followed by the points from the next point on
(`drop_rank_run`). The iterators take their fields one after another over the box; what
is left of each field, and how much is left in all, after one run are
`drop_rank_run_fields` and `measure_run_fields`.
-/

namespace Realm.Transfer

/-- The integers `lo, lo + 1, …, hi`. -/
def intRange (lo hi : Int) : List Int :=
  (List.range (hi - lo + 1).toNat).map fun k : Nat => lo + (k : Int)

/-- The points of the box `[lo, hi]` in Fortran order, dimension 0 fastest. -/
def pointsOf : List Int → List Int → List (List Int)
  | [], [] => [[]]
  | l :: ls, h :: hs => (pointsOf ls hs).flatMap fun q => (intRange l h).map (· :: q)
  | _, _ => []

/-- `Rect::volume`: the number of points of `[lo, hi]`. -/
def volume : List Int → List Int → Nat
  | [], [] => 1
  | l :: ls, h :: hs => (h - l + 1).toNat * volume ls hs
  | _, _ => 0

/-- The position of `q` in the Fortran order of `[lo, hi]`: the dense Fortran
linearization of the box. -/
def rank : List Int → List Int → List Int → Nat
  | l :: ls, h :: hs, x :: xs => (x - l).toNat + (h - l + 1).toNat * rank ls hs xs
  | _, _, _ => 0

/-- `q` is a point of the box `[lo, hi]`. -/
def InBox : List Int → List Int → List Int → Prop
  | [], [], [] => True
  | l :: ls, h :: hs, x :: xs => l ≤ x ∧ x ≤ h ∧ InBox ls hs xs
  | _, _, _ => False

instance InBox.decidable : (lo hi q : List Int) → Decidable (InBox lo hi q)
  | [], [], [] => isTrue trivial
  | l :: ls, h :: hs, x :: xs =>
    have := InBox.decidable ls hs xs
    inferInstanceAs (Decidable (l ≤ x ∧ x ≤ h ∧ InBox ls hs xs))
  | [], [], _ :: _ | [], _ :: _, _ | _ :: _, [], _ | _ :: _, _ :: _, [] => isFalse id

/-- `[p, b]` is a run of the Fortran order of `[lo, hi]` from `p`: either its first
dimension is whole and the rest is a run, or it lies in one row, from `p` on. -/
def IsRun : List Int → List Int → List Int → List Int → Prop
  | [], [], [], [] => True
  | l :: ls, h :: hs, x :: xs, y :: ys =>
    l ≤ x ∧ x ≤ y ∧ y ≤ h ∧ ((x = l ∧ y = h ∧ IsRun ls hs xs ys) ∨ (xs = ys ∧ InBox ls hs xs))
  | _, _, _, _ => False

/-- The carry loop of the iterators: the point after the box `[a, b]` in the Fortran
order of `[lo, hi]`, and whether the carry ran out of dimensions (the box ended the
order). Without a carry a dimension keeps its coordinate of `a`. -/
def nextPoint : Bool → List Int → List Int → List Int → List Int → List Int × Bool
  | carry, l :: ls, h :: hs, x :: xs, y :: ys =>
    if carry then
      if y = h then
        let n := nextPoint true ls hs xs ys
        (l :: n.1, n.2)
      else
        let n := nextPoint false ls hs xs ys
        ((y + 1) :: n.1, n.2)
    else
      let n := nextPoint false ls hs xs ys
      (x :: n.1, n.2)
  | carry, _, _, _, _ => ([], carry)

/-! ## Ranges and counts -/

theorem length_intRange (lo hi : Int) : (intRange lo hi).length = (hi - lo + 1).toNat := by
  simp [intRange]

@[simp] theorem intRange_self (x : Int) : intRange x x = [x] := by
  simp [intRange, List.range_succ]

/-- A range splits at any point inside it. -/
theorem intRange_append {l m h : Int} (hlm : l ≤ m) (hmh : m ≤ h + 1) :
    intRange l h = intRange l (m - 1) ++ intRange m h := by
  have hn : (h - l + 1).toNat = (m - 1 - l + 1).toNat + (h - m + 1).toNat := by omega
  rw [intRange, hn, List.range_add, List.map_append, List.map_map]
  congr 1
  refine List.map_congr_left fun k _ => ?_
  simp only [Function.comp]
  omega

theorem length_flatMap_const {α β : Type} {l : List α} {f : α → List β} {e : Nat}
    (h : ∀ x ∈ l, (f x).length = e) : (l.flatMap f).length = l.length * e := by
  induction l with
  | nil => simp
  | cons x l ih =>
    rw [List.flatMap_cons, List.length_append, h x (List.mem_cons_self _ _),
      ih fun y hy => h y (List.mem_cons_of_mem _ hy), List.length_cons, Nat.succ_mul,
      Nat.add_comm]

theorem length_pointsOf (lo hi : List Int) : (pointsOf lo hi).length = volume lo hi := by
  induction lo, hi using pointsOf.induct with
  | case1 => rfl
  | case2 l ls h hs ih =>
    rw [pointsOf, length_flatMap_const (e := (h - l + 1).toNat) fun q _ => by simp [length_intRange], ih, volume,
      Nat.mul_comm]
  | case3 lo hi h => cases lo <;> cases hi <;> simp_all [pointsOf, volume]

@[simp] theorem pointsOf_self (q : List Int) : pointsOf q q = [q] := by
  induction q with
  | nil => rfl
  | cons x q ih => simp [pointsOf, ih]

theorem isRun_self {lo hi q : List Int} (h : InBox lo hi q) : IsRun lo hi q q := by
  induction lo, hi, q using rank.induct with
  | case1 l ls h hs x xs _ =>
    obtain ⟨h₁, h₂, h₃⟩ := h
    exact ⟨h₁, le_rfl, h₂, .inr ⟨rfl, h₃⟩⟩
  | case2 lo hi q hne =>
    cases lo <;> cases hi <;> cases q <;> first | trivial | exact (hne _ _ _ _ _ _ rfl rfl rfl).elim

/-- The later dimensions of a run form a run. -/
theorem IsRun.tail {l h x y : Int} {ls hs xs ys : List Int}
    (hr : IsRun (l :: ls) (h :: hs) (x :: xs) (y :: ys)) : IsRun ls hs xs ys := by
  rcases hr.2.2.2 with ⟨-, -, hr⟩ | ⟨rfl, hin⟩
  · exact hr
  · exact isRun_self hin

/-! ## Runs are slices of the order -/

/-- **Runs are slices.** The points of a run from `p` stand in the Fortran order of the
box consecutively, `rank p` points from its start. -/
theorem isRun_slice {lo hi p b : List Int} (h : IsRun lo hi p b) :
    ∃ A C, pointsOf lo hi = A ++ pointsOf p b ++ C ∧ A.length = rank lo hi p := by
  induction lo, hi, p using rank.induct generalizing b with
  | case1 l ls h hs x xs ih =>
    cases b with
    | nil => exact (h : False).elim
    | cons y ys =>
      obtain ⟨hlx, hxy, hyh, ⟨rfl, rfl, hr⟩ | ⟨rfl, hin⟩⟩ := h
      · obtain ⟨A, C, hP, hA⟩ := ih hr
        refine ⟨A.flatMap fun q => (intRange x y).map (· :: q),
          C.flatMap fun q => (intRange x y).map (· :: q), ?_, ?_⟩
        · simp only [pointsOf, hP, List.flatMap_append, List.append_assoc]
        · rw [length_flatMap_const (e := (y - x + 1).toNat) fun q _ => by simp [length_intRange], hA, rank,
            Int.sub_self, Int.toNat_zero, Nat.zero_add, Nat.mul_comm]
      · obtain ⟨A, C, hP, hA⟩ := ih (isRun_self hin)
        have hsplit : intRange l h = intRange l (x - 1) ++ (intRange x y ++ intRange (y + 1) h) := by
          rw [intRange_append hlx (by omega : x ≤ h + 1),
            intRange_append (l := x) (m := y + 1) (by omega) (by omega), show y + 1 - 1 = y by omega]
        refine ⟨A.flatMap (fun q => (intRange l h).map (· :: q)) ++
            (intRange l (x - 1)).map (· :: xs),
          (intRange (y + 1) h).map (· :: xs) ++
            C.flatMap fun q => (intRange l h).map (· :: q), ?_, ?_⟩
        · simp [pointsOf, hP, hsplit, List.flatMap_append]
        · rw [List.length_append, length_flatMap_const (e := (h - l + 1).toNat) fun q _ => by simp [length_intRange],
            List.length_map, length_intRange, hA, rank, Nat.mul_comm]
          omega
  | case2 lo hi q hne =>
    cases lo <;> cases hi <;> cases q <;> cases b
    all_goals first
      | exact ⟨[], [], rfl, rfl⟩
      | exact (h : False).elim
      | exact (hne _ _ _ _ _ _ rfl rfl rfl).elim

@[simp] theorem volume_self (q : List Int) : volume q q = 1 := by
  induction q with
  | nil => rfl
  | cons x q ih => simp [volume, ih]

theorem nextPoint_false_self {lo hi a : List Int} (h : InBox lo hi a) :
    nextPoint false lo hi a a = (a, false) := by
  induction lo, hi, a using rank.induct with
  | case1 l ls h hs x xs ih => simp [nextPoint, ih h.2.2]
  | case2 lo hi q hne =>
    cases lo <;> cases hi <;> cases q
    all_goals first | rfl | exact (h : False).elim | exact (hne _ _ _ _ _ _ rfl rfl rfl).elim

/-- **The carry loop.** After a run the carry either runs out, when the run ends the
order, and every coordinate is back at `lo`; or it stops at the next point of the order,
`volume p b` places after `p`. -/
theorem nextPoint_spec {lo hi p b : List Int} (h : IsRun lo hi p b) :
    ((nextPoint true lo hi p b).2 = true →
      rank lo hi p + volume p b = volume lo hi ∧ (nextPoint true lo hi p b).1 = lo) ∧
    ((nextPoint true lo hi p b).2 = false →
      InBox lo hi (nextPoint true lo hi p b).1 ∧
        rank lo hi (nextPoint true lo hi p b).1 = rank lo hi p + volume p b) := by
  induction lo, hi, p using rank.induct generalizing b with
  | case1 l ls h hs x xs ih =>
    cases b with
    | nil => exact (h : False).elim
    | cons y ys =>
      obtain ⟨hlx, hxy, hyh, ⟨rfl, rfl, hr⟩ | ⟨rfl, hin⟩⟩ := h
      · obtain ⟨ihc, ihn⟩ := ih hr
        simp only [nextPoint, if_true, rank, volume, Int.sub_self, Int.toNat_zero, Nat.zero_add]
        refine ⟨fun hc => ⟨?_, by rw [(ihc hc).2]⟩, fun hc => ⟨⟨le_rfl, hxy, (ihn hc).1⟩, ?_⟩⟩
        · rw [← Nat.mul_add, (ihc hc).1]
        · rw [(ihn hc).2, Nat.mul_add]
      · obtain ⟨ihc, ihn⟩ := ih (isRun_self hin)
        simp only [volume_self] at ihc ihn
        by_cases hy : y = h
        · subst hy
          simp only [nextPoint, if_true, rank, volume, volume_self, Nat.mul_one]
          refine ⟨fun hc => ⟨?_, by rw [(ihc hc).2]⟩, fun hc => ⟨⟨le_rfl, by omega, (ihn hc).1⟩, ?_⟩⟩
          · rw [← (ihc hc).1, Nat.mul_add]
            omega
          · rw [(ihn hc).2, Nat.mul_add]
            omega
        · simp only [nextPoint, if_true, if_neg hy, nextPoint_false_self hin, rank, volume,
            volume_self, Nat.mul_one]
          refine ⟨fun hc => absurd hc Bool.false_ne_true, fun _ => ⟨⟨by omega, by omega, hin⟩, ?_⟩⟩
          omega
  | case2 lo hi q hne =>
    cases lo <;> cases hi <;> cases q <;> cases b
    all_goals first
      | exact (h : False).elim
      | exact (hne _ _ _ _ _ _ rfl rfl rfl).elim
      | simp [nextPoint, rank, volume]

/-- **One run, then the rest.** The points from `p` on are the run `[p, b]` followed by the
points from the next point on, or by nothing when the carry ran out. -/
theorem drop_rank_run {lo hi p b : List Int} (h : IsRun lo hi p b) :
    (pointsOf lo hi).drop (rank lo hi p) =
      pointsOf p b ++ if (nextPoint true lo hi p b).2 then []
        else (pointsOf lo hi).drop (rank lo hi (nextPoint true lo hi p b).1) := by
  obtain ⟨A, C, hP, hA⟩ := isRun_slice h
  obtain ⟨hc, hn⟩ := nextPoint_spec h
  have hlen := length_pointsOf lo hi
  rw [hP, List.append_assoc] at hlen ⊢
  rw [List.drop_left' hA]
  cases hcarry : (nextPoint true lo hi p b).2
  · rw [if_neg Bool.false_ne_true, (hn hcarry).2, ← hA, ← length_pointsOf p b,
      ← List.length_append, ← List.append_assoc, List.drop_left]
  · rw [if_pos rfl]
    have hC : C.length = 0 := by
      simp only [List.length_append, length_pointsOf] at hlen
      have := (hc hcarry).1
      omega
    rw [List.length_eq_zero.1 hC]

/-- The ranks of the points, in Fortran order, are `0, 1, …`. -/
theorem flatMap_range_range' (e V : Nat) :
    (List.range V).flatMap (fun j => List.range' (e * j) e) = List.range (e * V) := by
  induction V with
  | zero => rfl
  | succ V ih =>
    have e := List.range'_append_1 0 (e * V) e
    rw [Nat.zero_add] at e
    rw [List.range_succ, List.flatMap_append, ih, List.flatMap_singleton, List.range_eq_range',
      List.range_eq_range', e, Nat.mul_succ, Nat.add_comm]

theorem map_rank_pointsOf (lo hi : List Int) :
    (pointsOf lo hi).map (rank lo hi) = List.range (volume lo hi) := by
  induction lo, hi using pointsOf.induct with
  | case1 => rfl
  | case2 l ls h hs ih =>
    have hrow : ∀ q : List Int, ((intRange l h).map (· :: q)).map (rank (l :: ls) (h :: hs)) =
        List.range' ((h - l + 1).toNat * rank ls hs q) (h - l + 1).toNat := fun q => by
      rw [List.map_map, intRange, List.map_map, List.range'_eq_map_range]
      refine List.map_congr_left fun k _ => ?_
      simp only [Function.comp, rank]
      omega
    rw [pointsOf, List.map_flatMap, List.flatMap_congr fun q _ => hrow q,
      ← List.flatMap_map (rank ls hs) (fun j => List.range' ((h - l + 1).toNat * j) (h - l + 1).toNat),
      ih, flatMap_range_range', volume]
  | case3 lo hi hne => cases lo <;> cases hi <;> simp_all [pointsOf, volume]

/-- The ranks of a run's points are consecutive, from the rank of its first point. -/
theorem map_rank_run {lo hi p b : List Int} (h : IsRun lo hi p b) :
    (pointsOf p b).map (rank lo hi) = List.range' (rank lo hi p) (volume p b) := by
  obtain ⟨A, C, hP, hA⟩ := isRun_slice h
  have hr := map_rank_pointsOf lo hi
  have hlen := length_pointsOf lo hi
  rw [hP] at hr hlen
  simp only [List.length_append, length_pointsOf] at hlen
  have e₁ := List.range'_append_1 0 A.length (volume p b)
  have e₂ := List.range'_append_1 0 (volume p b + A.length) C.length
  rw [Nat.zero_add] at e₁ e₂
  rw [List.map_append, List.map_append, List.range_eq_range',
    show volume lo hi = C.length + (volume p b + A.length) by omega, ← e₂, ← e₁,
    show volume p b + A.length = A.length + volume p b by omega] at hr
  have h₁ := List.append_inj hr (by simp [length_pointsOf])
  rw [← hA]
  exact (List.append_inj h₁.1 (by simp)).2

/-! ## Runs and boxes -/

/-- The last point of a run stands `volume p b - 1` places after its first. -/
theorem rank_last_run {lo hi p b : List Int} (h : IsRun lo hi p b) :
    rank lo hi b + 1 = rank lo hi p + volume p b := by
  induction lo, hi, p using rank.induct generalizing b with
  | case1 l ls h hs x xs ih =>
    cases b with
    | nil => exact (h : False).elim
    | cons y ys =>
      obtain ⟨hlx, hxy, hyh, ⟨rfl, rfl, hr⟩ | ⟨rfl, -⟩⟩ := h
      · have := ih hr
        simp only [rank, volume, Int.sub_self, Int.toNat_zero, Nat.zero_add]
        rw [Nat.add_right_comm, show (y - x).toNat + 1 = (y - x + 1).toNat by omega,
          ← Nat.mul_add, ← this, Nat.mul_succ, Nat.add_comm]
      · simp only [rank, volume, volume_self, Nat.mul_one]
        omega
  | case2 lo hi q hne =>
    cases lo <;> cases hi <;> cases q <;> cases b
    all_goals first
      | rfl
      | exact (h : False).elim
      | exact (hne _ _ _ _ _ _ rfl rfl rfl).elim

theorem IsRun.inBox {lo hi p b : List Int} (h : IsRun lo hi p b) : InBox lo hi p ∧ InBox lo hi b := by
  induction lo, hi, p using rank.induct generalizing b with
  | case1 l ls h hs x xs ih =>
    cases b with
    | nil => exact (h : False).elim
    | cons y ys =>
      obtain ⟨hlx, hxy, hyh, ⟨rfl, rfl, hr⟩ | ⟨rfl, hin⟩⟩ := h
      · exact ⟨⟨hlx, by omega, (ih hr).1⟩, ⟨by omega, hyh, (ih hr).2⟩⟩
      · exact ⟨⟨hlx, by omega, hin⟩, ⟨by omega, hyh, hin⟩⟩
  | case2 lo hi q hne =>
    cases lo <;> cases hi <;> cases q <;> cases b
    all_goals first
      | exact ⟨trivial, trivial⟩
      | exact (h : False).elim
      | exact (hne _ _ _ _ _ _ rfl rfl rfl).elim

theorem IsRun.volume_pos {lo hi p b : List Int} (h : IsRun lo hi p b) : 0 < volume p b := by
  induction lo, hi, p using rank.induct generalizing b with
  | case1 l ls u us x xs ih =>
    cases b with
    | nil => exact (h : False).elim
    | cons y ys =>
      obtain ⟨-, hxy, -, ⟨-, -, hr⟩ | ⟨rfl, -⟩⟩ := h
      · exact Nat.mul_pos (by omega) (ih hr)
      · rw [volume, volume_self]
        omega
  | case2 lo hi q hne =>
    cases lo <;> cases hi <;> cases q <;> cases b
    all_goals first
      | exact Nat.one_pos
      | exact (h : False).elim
      | exact (hne _ _ _ _ _ _ rfl rfl rfl).elim

/-- A point of a box is a box corner for itself: `p ≤ p ≤ b` holds coordinatewise. -/
theorem inBox_self_left {lo hi q : List Int} (hq : InBox lo hi q) : InBox lo hi lo := by
  induction lo, hi, q using rank.induct with
  | case1 l ls h hs x xs ih => exact ⟨le_rfl, by have := hq.1; have := hq.2.1; omega, ih hq.2.2⟩
  | case2 lo hi q hne =>
    cases lo <;> cases hi <;> cases q
    all_goals first | trivial | exact (hq : False).elim | exact (hne _ _ _ _ _ _ rfl rfl rfl).elim

theorem IsRun.le {lo hi p b : List Int} (h : IsRun lo hi p b) : InBox p b p ∧ InBox p b b := by
  induction lo, hi, p using rank.induct generalizing b with
  | case1 l ls h hs x xs ih =>
    cases b with
    | nil => exact (h : False).elim
    | cons y ys =>
      have ht := ih h.tail
      exact ⟨⟨le_rfl, h.2.1, ht.1⟩, ⟨h.2.1, le_rfl, ht.2⟩⟩
  | case2 lo hi q hne =>
    cases lo <;> cases hi <;> cases q <;> cases b
    all_goals first
      | exact ⟨trivial, trivial⟩
      | exact (h : False).elim
      | exact (hne _ _ _ _ _ _ rfl rfl rfl).elim

/-- Boxes nest: a point of a box inside `[lo, hi]` is a point of `[lo, hi]`. -/
theorem inBox_trans {lo hi p a b : List Int} (hp : InBox lo hi p) (ha : InBox lo hi a)
    (hb : InBox p a b) : InBox lo hi b := by
  induction lo, hi, p using rank.induct generalizing a b with
  | case1 l ls h hs x xs ih =>
    cases a with
    | nil => exact (ha : False).elim
    | cons y ys =>
      cases b with
      | nil => exact (hb : False).elim
      | cons z zs =>
        obtain ⟨h₁, h₂, h₃⟩ := hp
        obtain ⟨h₄, h₅, h₆⟩ := ha
        obtain ⟨h₇, h₈, h₉⟩ := hb
        exact ⟨by omega, by omega, ih h₃ h₆ h₉⟩
  | case2 lo hi q hne =>
    cases lo <;> cases hi <;> cases q <;> cases a <;> cases b
    all_goals first
      | trivial
      | exact (hp : False).elim
      | exact (ha : False).elim
      | exact (hb : False).elim
      | exact (hne _ _ _ _ _ _ rfl rfl rfl).elim

/-- A box `[p, b]` inside `[p, a]` has at most as many points. -/
theorem volume_le_of_inBox {p a b : List Int} (h : InBox p a b) : volume p b ≤ volume p a := by
  induction p, a, b using rank.induct with
  | case1 x xs y ys z zs ih =>
    obtain ⟨h₁, h₂, h₃⟩ := h
    exact Nat.mul_le_mul (by omega) (ih h₃)
  | case2 p a b hne =>
    cases p <;> cases a <;> cases b
    all_goals first | exact le_rfl | exact (h : False).elim | exact (hne _ _ _ _ _ _ rfl rfl rfl).elim

/-- The only point of the box `[p, p]` is `p`. -/
theorem inBox_self_eq {p b : List Int} (h : InBox p p b) : b = p := by
  induction p generalizing b with
  | nil => cases b <;> first | rfl | exact (h : False).elim
  | cons x xs ih =>
    cases b with
    | nil => exact (h : False).elim
    | cons y ys =>
      obtain ⟨h₁, h₂, h₃⟩ := h
      rw [ih h₃, show y = x by omega]

/-- A box and its points have one number of dimensions. -/
theorem InBox.length_eq {lo hi q : List Int} (h : InBox lo hi q) :
    lo.length = q.length ∧ hi.length = q.length := by
  induction lo, hi, q using rank.induct with
  | case1 l ls u us x xs ih =>
    obtain ⟨h₁, h₂⟩ := ih h.2.2
    exact ⟨congrArg (· + 1) h₁, congrArg (· + 1) h₂⟩
  | case2 lo hi q hne =>
    cases lo <;> cases hi <;> cases q
    all_goals first | exact ⟨rfl, rfl⟩ | exact (h : False).elim | exact (hne _ _ _ _ _ _ rfl rfl rfl).elim

/-- A run of the later dimensions inside the box of a run extends, by the run's first
coordinate, to a run. -/
theorem IsRun.cons_of_tail {l h x y : Int} {ls hs xs ys b : List Int}
    (hr : IsRun (l :: ls) (h :: hs) (x :: xs) (y :: ys)) (hb : IsRun ls hs xs b)
    (hbox : InBox xs ys b) : IsRun (l :: ls) (h :: hs) (x :: xs) (y :: b) := by
  obtain ⟨hlx, hxy, hyh, ⟨hx, hy, -⟩ | ⟨rfl, hin⟩⟩ := hr
  · exact ⟨hlx, hxy, hyh, .inl ⟨hx, hy, hb⟩⟩
  · rw [inBox_self_eq hbox]
    exact ⟨hlx, hxy, hyh, .inr ⟨rfl, hin⟩⟩

/-- A run of a bigger box that lies in `[lo, hi]` is a run of `[lo, hi]`: a dimension
whole in the bigger box is whole in the smaller one. -/
theorem isRun_of_subset {L H lo hi p b : List Int} (h : IsRun L H p b) (hlo : InBox L H lo)
    (hhi : InBox L H hi) (hp : InBox lo hi p) (hb : InBox lo hi b) : IsRun lo hi p b := by
  induction L, H, p using rank.induct generalizing lo hi b with
  | case1 L Ls H Hs x xs ih =>
    cases lo with
    | nil => exact (hlo : False).elim
    | cons l ls =>
      cases hi with
      | nil => exact (hhi : False).elim
      | cons h hs =>
        cases b with
        | nil => exact (h : False).elim
        | cons y ys =>
          obtain ⟨hLl, hlH, hlo⟩ := hlo
          obtain ⟨hLh, hhH, hhi⟩ := hhi
          obtain ⟨hlx, hxh, hp⟩ := hp
          obtain ⟨hly, hyh, hb⟩ := hb
          obtain ⟨-, hxy, -, ⟨rfl, rfl, hr⟩ | ⟨rfl, -⟩⟩ := h
          · exact ⟨hlx, hxy, hyh, .inl ⟨by omega, by omega, ih hr hlo hhi hp hb⟩⟩
          · exact ⟨hlx, hxy, hyh, .inr ⟨rfl, hp⟩⟩
  | case2 L H q hne =>
    cases L <;> cases H <;> cases q <;> cases lo <;> cases hi <;> cases b
    all_goals first
      | trivial
      | exact (h : False).elim
      | exact (hlo : False).elim
      | exact (hhi : False).elim
      | exact (hp : False).elim
      | exact (hne _ _ _ _ _ _ rfl rfl rfl).elim

/-! ## Ranks are positions -/

/-- The points listed for `[lo, hi]` are its points. -/
theorem inBox_of_mem_pointsOf {lo hi q : List Int} (hq : q ∈ pointsOf lo hi) : InBox lo hi q := by
  induction lo, hi using pointsOf.induct generalizing q with
  | case1 =>
    rw [pointsOf, List.mem_singleton] at hq
    subst hq
    trivial
  | case2 l ls h hs ih =>
    simp only [pointsOf, List.mem_flatMap, List.mem_map, intRange, List.mem_range] at hq
    obtain ⟨q', hq', k, hk, rfl⟩ := hq
    exact ⟨by omega, by omega, ih hq'⟩
  | case3 lo hi hne hne' =>
    cases lo <;> cases hi
    all_goals first
      | exact (hne rfl rfl).elim
      | exact (hne' _ _ _ _ rfl rfl).elim
      | simp [pointsOf] at hq

theorem rank_lt_volume {lo hi q : List Int} (hq : InBox lo hi q) : rank lo hi q < volume lo hi := by
  induction lo, hi, q using rank.induct with
  | case1 l ls h hs x xs ih =>
    obtain ⟨h₁, h₂, h₃⟩ := hq
    calc (x - l).toNat + (h - l + 1).toNat * rank ls hs xs
        < (h - l + 1).toNat * (rank ls hs xs + 1) := by rw [Nat.mul_succ]; omega
      _ ≤ (h - l + 1).toNat * volume ls hs := Nat.mul_le_mul_left _ (ih h₃)
  | case2 lo hi q hne =>
    cases lo <;> cases hi <;> cases q
    all_goals first | exact Nat.one_pos | exact (hq : False).elim | exact (hne _ _ _ _ _ _ rfl rfl rfl).elim

@[simp] theorem rank_lo (lo hi : List Int) : rank lo hi lo = 0 := by
  induction lo generalizing hi with
  | nil => rfl
  | cons l ls ih => cases hi <;> simp [rank, ih]

/-- **Field by field.** With the fields taken one after another over the box, the points of
field `f` still to give out while field `i` is at `p` (none for an earlier field, those from
`p` on for field `i`, all for a later one) are the run's points, for field `i`, followed by
what is left once the run's next point is current, in the next field after a carry. -/
theorem drop_rank_run_fields {lo hi p b : List Int} (h : IsRun lo hi p b) (i f : Nat) :
    (if f < i then [] else if f = i then (pointsOf lo hi).drop (rank lo hi p) else pointsOf lo hi) =
      (if f = i then pointsOf p b else []) ++
        if f < i + (if (nextPoint true lo hi p b).2 then 1 else 0) then []
        else if f = i + (if (nextPoint true lo hi p b).2 then 1 else 0) then
          (pointsOf lo hi).drop (rank lo hi (nextPoint true lo hi p b).1)
        else pointsOf lo hi := by
  have hdrop := drop_rank_run h
  obtain ⟨hc, -⟩ := nextPoint_spec h
  cases hcarry : (nextPoint true lo hi p b).2
  · -- field `i` goes on from the next point
    rw [hcarry, if_neg Bool.false_ne_true] at hdrop
    rcases Nat.lt_trichotomy f i with hf | rfl | hf
    · simp [hf, hf.ne]
    · simp [hdrop]
    · simp [Nat.not_lt.2 hf.le, hf.ne']
  · -- the carry ran out: field `i + 1` starts at `lo`
    rw [hcarry, if_pos rfl, List.append_nil] at hdrop
    rcases Nat.lt_trichotomy f i with hf | rfl | hf
    · simp [hf, hf.ne, Nat.lt_succ_of_lt hf]
    · simp [hdrop]
    · simp [Nat.not_lt.2 hf.le, hf.ne', Nat.not_lt.2 hf, (hc hcarry).2]

/-- With `n` fields taken one after another over the box, a run from `p` in field `i < n`
lowers the count of points left, `(n - i) · volume - rank p`, by the run's volume. -/
theorem measure_run_fields {lo hi p b : List Int} (h : IsRun lo hi p b) {n i : Nat} (hlt : i < n) :
    (n - (i + if (nextPoint true lo hi p b).2 then 1 else 0)) * volume lo hi -
        rank lo hi (nextPoint true lo hi p b).1 + volume p b =
      (n - i) * volume lo hi - rank lo hi p := by
  obtain ⟨hc, hn⟩ := nextPoint_spec h
  obtain ⟨k, hk⟩ : ∃ k, n - i = k + 1 := ⟨_, (Nat.succ_pred_eq_of_pos (by omega)).symm⟩
  have hV := rank_lt_volume h.inBox.1
  cases hcarry : (nextPoint true lo hi p b).2
  · have := rank_lt_volume (hn hcarry).1
    rw [(hn hcarry).2] at this
    rw [(hn hcarry).2, if_neg Bool.false_ne_true, Nat.add_zero, hk, Nat.succ_mul]
    omega
  · rw [(hc hcarry).2, rank_lo, if_pos rfl, show n - (i + 1) = k by omega, hk, Nat.succ_mul]
    have := (hc hcarry).1
    omega

/-- **The linearization is injective** on the points of the box. -/
theorem rank_inj {lo hi q q' : List Int} (hq : InBox lo hi q) (hq' : InBox lo hi q')
    (he : rank lo hi q = rank lo hi q') : q = q' := by
  induction lo, hi, q using rank.induct generalizing q' with
  | case1 l ls h hs x xs ih =>
    cases q' with
    | nil => exact (hq' : False).elim
    | cons x' xs' =>
      obtain ⟨h₁, h₂, h₃⟩ := hq
      obtain ⟨h₄, h₅, h₆⟩ := hq'
      have hw : 0 < (h - l + 1).toNat := by omega
      have hmod := congrArg (· % (h - l + 1).toNat) he
      have hdiv := congrArg (· / (h - l + 1).toNat) he
      simp only [rank, Nat.add_mul_mod_self_left, Nat.add_mul_div_left _ _ hw] at hmod hdiv
      rw [Nat.mod_eq_of_lt (by omega), Nat.mod_eq_of_lt (by omega)] at hmod
      rw [Nat.div_eq_of_lt (by omega), Nat.div_eq_of_lt (by omega), Nat.zero_add,
        Nat.zero_add] at hdiv
      rw [ih h₃ h₆ hdiv, show x = x' by omega]
  | case2 lo hi q hne =>
    cases lo <;> cases hi <;> cases q <;> cases q'
    all_goals first
      | rfl
      | exact (hq : False).elim
      | exact (hq' : False).elim
      | exact (hne _ _ _ _ _ _ rfl rfl rfl).elim

theorem nodup_pointsOf (lo hi : List Int) : (pointsOf lo hi).Nodup :=
  List.Nodup.of_map (rank lo hi) (by rw [map_rank_pointsOf]; exact List.nodup_range _)

/-- A box with points has its low corner among them. -/
theorem inBox_lo_of_volume_pos {lo hi : List Int} (h : 0 < volume lo hi) : InBox lo hi lo := by
  induction lo, hi using pointsOf.induct with
  | case1 => trivial
  | case2 l ls u us ih =>
    rw [volume] at h
    exact ⟨le_rfl, by have := Nat.pos_of_mul_pos_right h; omega, ih (Nat.pos_of_mul_pos_left h)⟩
  | case3 lo hi hne hne' =>
    cases lo <;> cases hi
    all_goals first
      | exact (hne rfl rfl).elim
      | exact (hne' _ _ _ _ rfl rfl).elim
      | simp [volume] at h

end Realm.Transfer
