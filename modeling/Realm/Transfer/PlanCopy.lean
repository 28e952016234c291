import Mathlib
import Realm.Transfer.PairMap

/-!
# Planning a copy

`TransferPlan::plan_copy` (`transfer/transfer.cc`) lowers a copy between two field lists to
plans. With no reduction it walks both lists at once with two cursors and a byte
sub-offset in each current field; every iteration emits one `OffsetsAndSize`, the longest
run left in both current fields, and advances the cursor whose field it finishes. An entry
with a serdez id becomes a `TransferPlanCopy` of its own at once; the others are gathered in
`oas_by_mem[memory pair][instance pair]`, and after the loop every instance pair becomes one
plan. Both `std::map`s are modelled in `Realm.Transfer.PairMap`.

`copyLoop` is the loop, parameterised by what it does with each entry: `plan_copy` records
it (`recordOas`), and `copyEntries` appends it, giving the order of emission.

* `planCopy_trailing_zero`: with equal totals the final assertions can still fire, when one
  list ends in more zero-size fields than the other.
* `copyLoop_pairs`, `matched_of_copyLoop`: the loop ends normally exactly when the sizes
  agree in total and in the number of zero-size fields they end with (`Matched`); its
  entries then pair the source byte stream with the destination byte stream, byte by byte.
  `matched_step` is the step lemma both rest on.
* `planCopy_spec`: under the same condition `plan_copy` succeeds; its plans pair the two
  byte streams exactly once; each plan holds one instance pair; a serdez entry is alone in
  its plan; and the other entries of an instance pair form one plan, in emission order.
-/

namespace Realm.Transfer

/-- `CopySrcDstField`: `size` bytes at byte `offset` of each element of instance `inst`. -/
structure CopySrcDstField where
  inst : Nat
  offset : Nat
  size : Nat
  serdezId : Nat
  deriving DecidableEq, Repr

/-- `OffsetsAndSize`: `size` bytes from `srcOffset` are copied to `dstOffset`. -/
structure OffsetsAndSize where
  srcOffset : Nat
  dstOffset : Nat
  size : Nat
  serdezId : Nat
  deriving DecidableEq, Repr

/-- `OASByInst`: entries by (source, destination) instance pair. -/
abbrev OASByInst := List ((Nat × Nat) × List OffsetsAndSize)

/-- `OASByMem`: an `OASByInst` by (source, destination) memory pair. -/
abbrev OASByMem := List ((Nat × Nat) × OASByInst)

/-- The plans `plan_copy` can push. -/
inductive TransferPlan where
  | copy (oasByInst : OASByInst)
  | reduce (srcs : List CopySrcDstField) (dst : CopySrcDstField) (redopId : Nat)
      (redFold : Bool)
  deriving DecidableEq, Repr

/-- The entry emitted from the current source and destination fields at their
sub-offsets: as many bytes as are left in both. -/
def nextOas (s d : CopySrcDstField) (srcSub dstSub : Nat) : OffsetsAndSize :=
  ⟨s.offset + srcSub, d.offset + dstSub, min (s.size - srcSub) (d.size - dstSub), s.serdezId⟩

/-- The loop of `plan_copy` over both field lists, from the sub-offsets `srcSub` and
`dstSub` of their first fields; `record` receives each entry with its instance pair. The
two assertions on the sub-offsets are checked before either cursor moves, and the loop's
end asserts that both lists are used up; `none` when an assertion fails. -/
def copyLoop {α : Type} (record : α → Nat × Nat → OffsetsAndSize → α) :
    List CopySrcDstField → List CopySrcDstField → Nat → Nat → α → Option α
  | s :: ss, d :: ds, srcSub, dstSub, acc =>
    let oas := nextOas s d srcSub dstSub
    let acc := record acc (s.inst, d.inst) oas
    if _h : s.size < srcSub + oas.size ∨ d.size < dstSub + oas.size then none
    else if _hs : srcSub + oas.size = s.size then
      if dstSub + oas.size = d.size then copyLoop record ss ds 0 0 acc
      else copyLoop record ss (d :: ds) 0 (dstSub + oas.size) acc
    else if _hd : dstSub + oas.size = d.size then
      copyLoop record (s :: ss) ds (srcSub + oas.size) 0 acc
    else copyLoop record (s :: ss) (d :: ds) (srcSub + oas.size) (dstSub + oas.size) acc
  | [], [], _, _, acc => some acc
  | _, _, _, _, _ => none
termination_by ss ds => ss.length + ds.length
decreasing_by
  all_goals simp_wf
  all_goals simp only [oas, nextOas] at *
  all_goals omega

/-- The memory pair `mp` of an instance pair: the memories of its two instances. -/
def memPair (memOf : Nat → Nat) (ip : Nat × Nat) : Nat × Nat :=
  (memOf ip.1, memOf ip.2)

/-- Where `plan_copy` puts one entry: a `TransferPlanCopy` of its own when it has a serdez
id, else `oas_by_mem[mp][ip]`, creating either map entry as needed. -/
def recordOas (memOf : Nat → Nat) (acc : OASByMem × List TransferPlan) (ip : Nat × Nat)
    (oas : OffsetsAndSize) : OASByMem × List TransferPlan :=
  if oas.serdezId ≠ 0 then (acc.1, acc.2 ++ [.copy [(ip, [oas])]])
  else (modifyAt (memPair memOf ip) [] (modifyAt ip [] (· ++ [oas])) acc.1, acc.2)

/-- The plans pushed after the loop: one per instance pair of `oas_by_mem`, in map order. -/
def groupPlans (m : OASByMem) : List TransferPlan :=
  m.flatMap fun x => x.2.map fun e => .copy [e]

/-- `TransferPlan::plan_copy`: the plans pushed, or `none` when an assertion fires.
`memOf` gives an instance's memory and `ownerNode` its owner node. -/
def planCopy (memOf ownerNode : Nat → Nat) (srcs dsts : List CopySrcDstField)
    (redopId : Nat) (redFold : Bool) : Option (List TransferPlan) :=
  if redopId = 0 then
    (copyLoop (recordOas memOf) srcs dsts 0 0 ([], [])).map fun acc => acc.2 ++ groupPlans acc.1
  else
    let sameNode := match srcs with
      | [] => true
      | s0 :: rest => rest.all fun f => ownerNode f.inst == ownerNode s0.inst
    match dsts with
    | [dst] => if sameNode then some [.reduce srcs dst redopId redFold] else none
    | _ => none

/-- Appends one entry, with its instance pair, to the list of those emitted so far. -/
def appendEntry (l : List ((Nat × Nat) × OffsetsAndSize)) (ip : Nat × Nat)
    (oas : OffsetsAndSize) : List ((Nat × Nat) × OffsetsAndSize) :=
  l ++ [(ip, oas)]

/-- The entries of the loop, with their instance pairs, in the order it emits them. -/
def copyEntries (srcs dsts : List CopySrcDstField) (srcSub dstSub : Nat) :
    Option (List ((Nat × Nat) × OffsetsAndSize)) :=
  copyLoop appendEntry srcs dsts srcSub dstSub []

/-! ## The failing case -/

/-- Equal totals are not enough: a source list ending in one more zero-size field than the
destination list leaves `src_it` short of `srcs.end()` when the loop stops, and the
assertion `src_it == srcs.end()` fires. -/
theorem planCopy_trailing_zero :
    ([⟨1, 0, 4, 0⟩, ⟨1, 4, 0, 0⟩] : List CopySrcDstField).map (·.size) = [4, 0] ∧
    ([⟨2, 0, 4, 0⟩] : List CopySrcDstField).map (·.size) = [4] ∧
    planCopy id id [⟨1, 0, 4, 0⟩, ⟨1, 4, 0, 0⟩] [⟨2, 0, 4, 0⟩] 0 false = none := by
  refine ⟨rfl, rfl, ?_⟩
  simp [planCopy, copyLoop, nextOas]

/-! ## What the loop records -/

/-- A map of accumulators that commutes with one record commutes with the whole loop. -/
theorem copyLoop_map {α β : Type} {r₁ : α → Nat × Nat → OffsetsAndSize → α}
    {r₂ : β → Nat × Nat → OffsetsAndSize → β} (F : α → β)
    (hF : ∀ acc ip oas, F (r₁ acc ip oas) = r₂ (F acc) ip oas)
    (ss ds : List CopySrcDstField) (a b : Nat) (acc : α) :
    copyLoop r₂ ss ds a b (F acc) = (copyLoop r₁ ss ds a b acc).map F := by
  induction ss, ds, a, b, acc using copyLoop.induct r₁ with
  | case1 s ss d ds a b acc oas h =>
    simp only [oas] at h
    rw [copyLoop.eq_1 r₁, copyLoop.eq_1 r₂]
    simp only [dif_pos h, Option.map_none']
  | case2 s ss d ds a b acc oas acc' h hs hd ih =>
    simp only [oas, acc'] at h hs hd ih
    rw [copyLoop.eq_1 r₁, copyLoop.eq_1 r₂]
    simp only [dif_neg h, dif_pos hs, if_pos hd, ← hF, ih]
  | case3 s ss d ds a b acc oas acc' h hs hd ih =>
    simp only [oas, acc'] at h hs hd ih
    rw [copyLoop.eq_1 r₁, copyLoop.eq_1 r₂]
    simp only [dif_neg h, dif_pos hs, if_neg hd, ← hF, ih]
  | case4 s ss d ds a b acc oas acc' h hs hd ih =>
    simp only [oas, acc'] at h hs hd ih
    rw [copyLoop.eq_1 r₁, copyLoop.eq_1 r₂]
    simp only [dif_neg h, dif_neg hs, dif_pos hd, ← hF, ih]
  | case5 s ss d ds a b acc oas acc' h hs hd ih =>
    simp only [oas, acc'] at h hs hd ih
    rw [copyLoop.eq_1 r₁, copyLoop.eq_1 r₂]
    simp only [dif_neg h, dif_neg hs, dif_neg hd, ← hF, ih]
  | case6 a b acc => rw [copyLoop.eq_2, copyLoop.eq_2]; rfl
  | case7 ss ds a b acc h₁ h₂ =>
    cases ss <;> cases ds
    · exact (h₂ rfl rfl).elim
    all_goals first | exact (h₁ _ _ _ _ rfl rfl).elim | (rw [copyLoop.eq_def, copyLoop.eq_def]; rfl)

/-- Whatever `record` does, the loop does it to the emitted entries in order. -/
theorem copyLoop_eq_foldl {α : Type} (record : α → Nat × Nat → OffsetsAndSize → α)
    (ss ds : List CopySrcDstField) (a b : Nat) (acc : α) :
    copyLoop record ss ds a b acc =
      (copyEntries ss ds a b).map (·.foldl (fun acc e => record acc e.1 e.2) acc) :=
  @copyLoop_map _ _ appendEntry record
    (fun l => l.foldl (fun acc (e : (Nat × Nat) × OffsetsAndSize) => record acc e.1 e.2) acc)
    (by simp [appendEntry]) ss ds a b []

/-! ## Byte streams -/

/-- The bytes of a field list in order, as (instance, byte offset) pairs: the stream a copy
reads from or writes to. -/
def byteStream (fs : List CopySrcDstField) : List (Nat × Nat) :=
  fs.flatMap fun f => (List.range' f.offset f.size).map (f.inst, ·)

/-- The bytes of a field list not yet reached when the cursor is at sub-offset `sub` of the
first field. -/
def restBytes : List CopySrcDstField → Nat → List (Nat × Nat)
  | [], _ => []
  | f :: fs, sub => (List.range' (f.offset + sub) (f.size - sub)).map (f.inst, ·) ++ byteStream fs

/-- The field sizes still to be copied in the same situation. -/
def restSizes : List CopySrcDstField → Nat → List Nat
  | [], _ => []
  | f :: fs, sub => (f.size - sub) :: fs.map (·.size)

/-- The byte pairs an entry copies, each source byte with its destination byte. -/
def entryPairs (e : (Nat × Nat) × OffsetsAndSize) : List ((Nat × Nat) × (Nat × Nat)) :=
  ((List.range' e.2.srcOffset e.2.size).map (e.1.1, ·)).zip
    ((List.range' e.2.dstOffset e.2.size).map (e.1.2, ·))

/-- The number of zero sizes a list of sizes ends with. -/
def trailingZeros : List Nat → Nat
  | [] => 0
  | x :: l => if x = 0 ∧ l.sum = 0 then l.length + 1 else trailingZeros l

@[simp] theorem restBytes_zero (fs : List CopySrcDstField) : restBytes fs 0 = byteStream fs := by
  cases fs <;> simp [restBytes, byteStream]

@[simp] theorem restSizes_zero (fs : List CopySrcDstField) :
    restSizes fs 0 = fs.map (·.size) := by
  cases fs <;> simp [restSizes]

/-- Past the end of the first field, what is left is the rest of the list. -/
theorem restBytes_cons_of_le {f : CopySrcDstField} (fs : List CopySrcDstField) {sub : Nat}
    (h : f.size ≤ sub) : restBytes (f :: fs) sub = byteStream fs := by
  simp [restBytes, Nat.sub_eq_zero_of_le h]

/-- Taking `n` bytes from the first field splits off their run. -/
theorem restBytes_cons_split (f : CopySrcDstField) (fs : List CopySrcDstField) {sub n : Nat}
    (h : sub + n ≤ f.size) :
    restBytes (f :: fs) sub =
      (List.range' (f.offset + sub) n).map (f.inst, ·) ++ restBytes (f :: fs) (sub + n) := by
  simp only [restBytes]
  rw [show f.size - sub = f.size - (sub + n) + n by omega, ← List.range'_append]
  simp [Nat.add_assoc]

/-- One iteration of the loop: the entry's byte pairs, then the pairs still to come. -/
theorem zip_restBytes_step (s d : CopySrcDstField) (ss ds : List CopySrcDstField) {a b : Nat}
    (hs : a + (nextOas s d a b).size ≤ s.size) (hd : b + (nextOas s d a b).size ≤ d.size) :
    (restBytes (s :: ss) a).zip (restBytes (d :: ds) b) =
      entryPairs ((s.inst, d.inst), nextOas s d a b) ++
        (restBytes (s :: ss) (a + (nextOas s d a b).size)).zip
          (restBytes (d :: ds) (b + (nextOas s d a b).size)) := by
  rw [restBytes_cons_split s ss hs, restBytes_cons_split d ds hd, List.zip_append (by simp)]
  rfl

theorem trailingZeros_of_sum_eq_zero {l : List Nat} (h : l.sum = 0) :
    trailingZeros l = l.length := by
  induction l with
  | nil => rfl
  | cons x l _ =>
    simp only [List.sum_cons] at h
    simp [trailingZeros, show x = 0 ∧ l.sum = 0 by omega]

theorem trailingZeros_cons_of_pos (x : Nat) (l : List Nat) (h : 0 < x + l.sum) :
    trailingZeros (x :: l) = trailingZeros l := by
  rw [trailingZeros, if_neg (by omega)]

/-- Dropping a common first size keeps the trailing zeros equal, and only then. -/
theorem trailingZeros_cons_iff (x : Nat) {l₁ l₂ : List Nat} (hs : l₁.sum = l₂.sum) :
    trailingZeros (x :: l₁) = trailingZeros (x :: l₂) ↔ trailingZeros l₁ = trailingZeros l₂ := by
  by_cases h0 : x = 0 ∧ l₁.sum = 0
  · have h₂ : l₂.sum = 0 := hs ▸ h0.2
    simp only [trailingZeros, h0, h₂, and_self, if_true, trailingZeros_of_sum_eq_zero h0.2,
      trailingZeros_of_sum_eq_zero h₂]
    omega
  · rw [trailingZeros_cons_of_pos x l₁ (by omega), trailingZeros_cons_of_pos x l₂ (by omega)]

/-- Finishing a first size `x` smaller than the other's `y` leaves `y - x` of that one. -/
theorem trailingZeros_lt_iff {x y : Nat} {l₁ l₂ : List Nat} (hxy : x < y)
    (hs : l₁.sum = y - x + l₂.sum) :
    trailingZeros (x :: l₁) = trailingZeros (y :: l₂) ↔
      trailingZeros l₁ = trailingZeros ((y - x) :: l₂) := by
  rw [trailingZeros_cons_of_pos x l₁ (by omega), trailingZeros_cons_of_pos y l₂ (by omega),
    trailingZeros_cons_of_pos (y - x) l₂ (by omega)]

/-! ## The loop pairs the byte streams -/

/-- The cursor is inside its current field, or the list is used up. -/
def Within : List CopySrcDstField → Nat → Prop
  | [], _ => True
  | f :: _, sub => sub ≤ f.size

/-- The condition under which the loop ends normally, from sub-offsets `a` and `b`: the
sizes left agree in total and in the number of zero-size fields they end with. -/
def Matched (ss ds : List CopySrcDstField) (a b : Nat) : Prop :=
  (restSizes ss a).sum = (restSizes ds b).sum ∧
    trailingZeros (restSizes ss a) = trailingZeros (restSizes ds b)

instance (ss ds : List CopySrcDstField) (a b : Nat) : Decidable (Matched ss ds a b) :=
  inferInstanceAs (Decidable (_ ∧ _))

@[simp] theorem within_zero (fs : List CopySrcDstField) : Within fs 0 := by
  cases fs <;> simp [Within]

/-- A used-up list against one with fields left never matches: the other's sizes would all
be zero, and it would end in more zero-size fields. -/
theorem not_matched_nil_cons (d : CopySrcDstField) (ds : List CopySrcDstField) (a b : Nat) :
    ¬Matched [] (d :: ds) a b := by
  rintro ⟨hsum, hz⟩
  rw [trailingZeros_of_sum_eq_zero hsum.symm] at hz
  simp [restSizes, trailingZeros] at hz

theorem not_matched_cons_nil (s : CopySrcDstField) (ss : List CopySrcDstField) (a b : Nat) :
    ¬Matched (s :: ss) [] a b := by
  rintro ⟨hsum, hz⟩
  rw [trailingZeros_of_sum_eq_zero hsum] at hz
  simp [restSizes, trailingZeros] at hz

section Step

variable {s d : CopySrcDstField} {ss ds : List CopySrcDstField} {a b : Nat}

/-- The step lemma of the condition: it holds before an iteration exactly when it holds
after it, whichever cursors the iteration advances. -/
theorem matched_step (h : ¬(s.size < a + (nextOas s d a b).size ∨
      d.size < b + (nextOas s d a b).size)) :
    Matched (s :: ss) (d :: ds) a b ↔
      if a + (nextOas s d a b).size = s.size then
        if b + (nextOas s d a b).size = d.size then Matched ss ds 0 0
        else Matched ss (d :: ds) 0 (b + (nextOas s d a b).size)
      else if b + (nextOas s d a b).size = d.size then
        Matched (s :: ss) ds (a + (nextOas s d a b).size) 0
      else Matched (s :: ss) (d :: ds) (a + (nextOas s d a b).size)
        (b + (nextOas s d a b).size) := by
  simp only [nextOas] at h ⊢
  -- the entry takes the shorter of the two rests
  have hm : min (s.size - a) (d.size - b) = s.size - a ∧ s.size - a ≤ d.size - b ∨
      min (s.size - a) (d.size - b) = d.size - b ∧ d.size - b ≤ s.size - a := by omega
  generalize min (s.size - a) (d.size - b) = m at h hm ⊢
  split_ifs with hs hd hd
  · rw [Matched, Matched, restSizes, restSizes, restSizes_zero, restSizes_zero,
      show d.size - b = s.size - a by omega, List.sum_cons, List.sum_cons]
    exact (and_congr_left' (by omega)).trans
      (and_congr_right fun hsum => trailingZeros_cons_iff _ hsum)
  · rw [Matched, Matched, restSizes, restSizes, restSizes_zero, restSizes, List.sum_cons,
      List.sum_cons, List.sum_cons,
      show d.size - (b + m) = d.size - b - (s.size - a) by omega]
    exact (and_congr_left' (by omega)).trans
      (and_congr_right fun hsum => trailingZeros_lt_iff (by omega) hsum)
  · rw [Matched, Matched, restSizes, restSizes, restSizes_zero, restSizes, List.sum_cons,
      List.sum_cons, List.sum_cons,
      show s.size - (a + m) = s.size - a - (d.size - b) by omega]
    exact (and_congr_left' (by omega)).trans (and_congr_right fun hsum =>
      eq_comm.trans ((trailingZeros_lt_iff (by omega) hsum.symm).trans eq_comm))
  · omega

end Step

/-- **The loop pairs the byte streams.** With both cursors inside their fields and the
condition holding, the loop ends, and its entries, byte by byte, pair what is left of the
source stream with what is left of the destination stream. -/
theorem copyLoop_pairs (ss ds : List CopySrcDstField) (a b : Nat)
    (acc : List ((Nat × Nat) × OffsetsAndSize)) :
    Within ss a → Within ds b → Matched ss ds a b →
      ∃ es, copyLoop appendEntry ss ds a b acc = some (acc ++ es) ∧
        es.flatMap entryPairs = (restBytes ss a).zip (restBytes ds b) := by
  induction ss, ds, a, b, acc using copyLoop.induct appendEntry with
  | case1 s ss d ds a b acc oas h =>
    intro ha hb _
    simp only [oas, nextOas, Within] at h ha hb
    exact absurd h (by omega)
  | case2 s ss d ds a b acc oas acc' h hs hd ih =>
    simp only [oas, acc'] at h hs hd ih
    intro _ _ hm
    have hm' := (matched_step h).1 hm
    rw [if_pos hs, if_pos hd] at hm'
    obtain ⟨es, he, hp⟩ := ih (within_zero ss) (within_zero ds) hm'
    refine ⟨((s.inst, d.inst), nextOas s d a b) :: es, by rw [copyLoop.eq_1, dif_neg h, dif_pos hs, if_pos hd, he]; simp [appendEntry], ?_⟩
    rw [List.flatMap_cons, hp, zip_restBytes_step s d ss ds (by omega) (by omega),
      restBytes_cons_of_le _ hs.ge, restBytes_cons_of_le _ hd.ge, restBytes_zero, restBytes_zero]
  | case3 s ss d ds a b acc oas acc' h hs hd ih =>
    simp only [oas, acc'] at h hs hd ih
    intro _ _ hm
    have hm' := (matched_step h).1 hm
    rw [if_pos hs, if_neg hd] at hm'
    obtain ⟨es, he, hp⟩ := ih (within_zero ss) (by simp only [Within]; omega) hm'
    refine ⟨((s.inst, d.inst), nextOas s d a b) :: es, by rw [copyLoop.eq_1, dif_neg h, dif_pos hs, if_neg hd, he]; simp [appendEntry], ?_⟩
    rw [List.flatMap_cons, hp, zip_restBytes_step s d ss ds (by omega) (by omega),
      restBytes_cons_of_le _ hs.ge, restBytes_zero]
  | case4 s ss d ds a b acc oas acc' h hs hd ih =>
    simp only [oas, acc'] at h hs hd ih
    intro _ _ hm
    have hm' := (matched_step h).1 hm
    rw [if_neg hs, if_pos hd] at hm'
    obtain ⟨es, he, hp⟩ := ih (by simp only [Within]; omega) (within_zero ds) hm'
    refine ⟨((s.inst, d.inst), nextOas s d a b) :: es, by rw [copyLoop.eq_1, dif_neg h, dif_neg hs, dif_pos hd, he]; simp [appendEntry], ?_⟩
    rw [List.flatMap_cons, hp, zip_restBytes_step s d ss ds (by omega) (by omega),
      restBytes_cons_of_le _ hd.ge, restBytes_zero]
  | case5 s ss d ds a b acc oas acc' h hs hd ih =>
    simp only [oas, nextOas] at h hs hd
    exact absurd hs (by omega)
  | case6 a b acc =>
    intro _ _ _
    exact ⟨[], by rw [copyLoop.eq_2, List.append_nil], rfl⟩
  | case7 ss ds a b acc h₁ h₂ =>
    intro _ _ hm
    cases ss <;> cases ds
    · exact (h₂ rfl rfl).elim
    · exact (not_matched_nil_cons _ _ a b hm).elim
    · exact (not_matched_cons_nil _ _ a b hm).elim
    · exact (h₁ _ _ _ _ rfl rfl).elim

/-- **Only then.** Whatever it records, a loop that ends normally started from matched
sizes. -/
theorem matched_of_copyLoop {α : Type} (record : α → Nat × Nat → OffsetsAndSize → α)
    (ss ds : List CopySrcDstField) (a b : Nat) (acc : α) :
    copyLoop record ss ds a b acc ≠ none → Matched ss ds a b := by
  induction ss, ds, a, b, acc using copyLoop.induct record with
  | case1 s ss d ds a b acc oas h =>
    simp only [oas] at h
    rw [copyLoop.eq_1, dif_pos h]
    exact absurd rfl
  | case2 s ss d ds a b acc oas acc' h hs hd ih =>
    simp only [oas, acc'] at h hs hd ih
    rw [copyLoop.eq_1, dif_neg h, dif_pos hs, if_pos hd]
    exact fun hne => (matched_step h).2 (by rw [if_pos hs, if_pos hd]; exact ih hne)
  | case3 s ss d ds a b acc oas acc' h hs hd ih =>
    simp only [oas, acc'] at h hs hd ih
    rw [copyLoop.eq_1, dif_neg h, dif_pos hs, if_neg hd]
    exact fun hne => (matched_step h).2 (by rw [if_pos hs, if_neg hd]; exact ih hne)
  | case4 s ss d ds a b acc oas acc' h hs hd ih =>
    simp only [oas, acc'] at h hs hd ih
    rw [copyLoop.eq_1, dif_neg h, dif_neg hs, dif_pos hd]
    exact fun hne => (matched_step h).2 (by rw [if_neg hs, if_pos hd]; exact ih hne)
  | case5 s ss d ds a b acc oas acc' h hs hd ih =>
    simp only [oas, acc'] at h hs hd ih
    rw [copyLoop.eq_1, dif_neg h, dif_neg hs, dif_neg hd]
    exact fun hne => (matched_step h).2 (by rw [if_neg hs, if_neg hd]; exact ih hne)
  | case6 a b acc => exact fun _ => ⟨rfl, rfl⟩
  | case7 ss ds a b acc h₁ h₂ =>
    cases ss <;> cases ds
    · exact (h₂ rfl rfl).elim
    · rw [copyLoop.eq_def]; exact absurd rfl
    · rw [copyLoop.eq_def]; exact absurd rfl
    · exact (h₁ _ _ _ _ rfl rfl).elim

/-! ## Grouping the entries into plans -/

/-- The entries of a plan, each with its instance pair. -/
def planEntries : TransferPlan → List ((Nat × Nat) × OffsetsAndSize)
  | .copy m => m.flatMap fun e => e.2.map (e.1, ·)
  | .reduce .. => []

/-- The bytes a plan copies, each source byte with its destination byte. -/
def planPairs (p : TransferPlan) : List ((Nat × Nat) × (Nat × Nat)) :=
  (planEntries p).flatMap entryPairs

/-- The non-serdez entries of instance pair `ip` among `es`, in order. -/
def plainAt (es : List ((Nat × Nat) × OffsetsAndSize)) (ip : Nat × Nat) :
    List OffsetsAndSize :=
  (es.filter fun e => e.1 = ip ∧ e.2.serdezId = 0).map (·.2)

/-- `oas_by_mem[mp][ip]` as `find` reads it, empty where a key is absent. -/
def oasAt (memOf : Nat → Nat) (m : OASByMem) (ip : Nat × Nat) : List OffsetsAndSize :=
  (findKey ((findKey m (memPair memOf ip)).getD []) ip).getD []

/-- One `oas_by_inst` of `oas_by_mem`, under memory pair `x.1`, is well formed: sorted,
and each of its instance pairs lies in that memory pair and holds a non-empty vector of
non-serdez entries. -/
def GroupOk (memOf : Nat → Nat) (x : (Nat × Nat) × OASByInst) : Prop :=
  KeySorted x.2 ∧
    ∀ e ∈ x.2, memPair memOf e.1 = x.1 ∧ e.2 ≠ [] ∧ ∀ o ∈ e.2, o.serdezId = 0

/-- What the loop's two accumulators hold once it has recorded the entries `es`. -/
structure RecordInv (memOf : Nat → Nat) (es : List ((Nat × Nat) × OffsetsAndSize))
    (acc : OASByMem × List TransferPlan) : Prop where
  sorted : KeySorted acc.1
  groups : ∀ x ∈ acc.1, GroupOk memOf x
  entries : (acc.1.flatMap fun x => x.2.flatMap fun e => e.2.map (e.1, ·)).Perm
    (es.filter fun e => e.2.serdezId = 0)
  oasAt_eq : ∀ ip, oasAt memOf acc.1 ip = plainAt es ip
  serdez : acc.2 = (es.filter fun e => e.2.serdezId ≠ 0).map fun e => .copy [(e.1, [e.2])]

section Record

variable {memOf : Nat → Nat}

theorem groupOk_record {ip : Nat × Nat} {o : OffsetsAndSize} {v : OASByInst}
    (h : GroupOk memOf (memPair memOf ip, v)) (ho : o.serdezId = 0) :
    GroupOk memOf (memPair memOf ip, modifyAt ip [] (· ++ [o]) v) := by
  refine ⟨keySorted_modifyAt h.1, fun e he => ?_⟩
  rcases mem_modifyAt he with he | ⟨rfl, w, hw, hew⟩
  · exact h.2 e he
  · refine ⟨rfl, by simp [hew], fun o' ho' => ?_⟩
    rw [hew, List.mem_append, List.mem_singleton] at ho'
    rcases ho' with ho' | rfl
    · rcases hw with rfl | hw
      · cases ho'
      · exact (h.2 _ hw).2.2 o' ho'
    · exact ho

/-- `oas_by_mem[mp][ip].push_back(oas)` appends to the vector of `ip` and no other. -/
theorem oasAt_record {m : OASByMem} (hs : KeySorted m) (hg : ∀ x ∈ m, KeySorted x.2)
    (ip₀ : Nat × Nat) (o : OffsetsAndSize) (ip : Nat × Nat) :
    oasAt memOf (modifyAt (memPair memOf ip₀) [] (modifyAt ip₀ [] (· ++ [o])) m) ip =
      if ip = ip₀ then oasAt memOf m ip ++ [o] else oasAt memOf m ip := by
  by_cases hmp : memPair memOf ip = memPair memOf ip₀
  · have hI : KeySorted ((findKey m (memPair memOf ip₀)).getD []) := by
      cases h : findKey m (memPair memOf ip₀)
      · exact List.Pairwise.nil
      · exact hg _ (mem_of_findKey h)
    simp only [oasAt, hmp, findKey_modifyAt_self hs, Option.getD_some]
    split_ifs with hip
    · rw [hip, findKey_modifyAt_self hI, Option.getD_some]
    · rw [findKey_modifyAt_ne hip]
  · have hip : ip ≠ ip₀ := fun h => hmp (h ▸ rfl)
    simp only [oasAt, findKey_modifyAt_ne hmp, if_neg hip]

/-- The step lemma: recording one more entry keeps the invariant. -/
theorem recordInv_step {es : List ((Nat × Nat) × OffsetsAndSize)}
    {acc : OASByMem × List TransferPlan} (h : RecordInv memOf es acc) (ip : Nat × Nat)
    (o : OffsetsAndSize) : RecordInv memOf (es ++ [(ip, o)]) (recordOas memOf acc ip o) := by
  by_cases ho : o.serdezId = 0
  · rw [recordOas, if_neg (not_not.2 ho)]
    refine ⟨keySorted_modifyAt h.sorted, fun x hx => ?_, ?_, fun ip' => ?_, ?_⟩
    · rcases mem_modifyAt hx with hx | ⟨hx1, v, hv, hx2⟩
      · exact h.groups x hx
      · rw [show x = (memPair memOf ip, modifyAt ip [] (· ++ [o]) v) from Prod.ext hx1 hx2]
        refine groupOk_record ?_ ho
        rcases hv with rfl | hv
        · exact ⟨List.Pairwise.nil, by simp⟩
        · exact h.groups _ hv
    · refine (perm_flatMap_modifyAt (X := [(ip, o)]) (fun v => ?_) rfl _).trans ?_
      · refine (perm_flatMap_modifyAt (X := [(ip, o)]) (fun w => ?_) rfl _).trans ?_
        · simp
        · rfl
      · simpa [List.filter_append, ho] using h.entries.append_right [(ip, o)]
    · rw [oasAt_record h.sorted (fun x hx => (h.groups x hx).1), h.oasAt_eq]
      split_ifs with hip
      · simp [plainAt, List.filter_append, hip, ho]
      · simp [plainAt, List.filter_append, Ne.symm hip]
    · simpa [List.filter_append, ho] using h.serdez
  · rw [recordOas, if_pos ho]
    refine ⟨h.sorted, h.groups, ?_, fun ip' => ?_, ?_⟩
    · simpa [List.filter_append, ho] using h.entries
    · simp [plainAt, List.filter_append, ho, h.oasAt_eq]
    · simp [h.serdez, List.filter_append, ho]

/-- The run lemma: after any sequence of entries, the accumulators satisfy the invariant. -/
theorem recordInv_foldl (es : List ((Nat × Nat) × OffsetsAndSize)) :
    ∀ {es₀ acc}, RecordInv memOf es₀ acc →
      RecordInv memOf (es₀ ++ es) (es.foldl (fun acc e => recordOas memOf acc e.1 e.2) acc) := by
  induction es with
  | nil => simp
  | cons e es ih =>
    intro es₀ acc h
    simpa using ih (recordInv_step h e.1 e.2)

theorem recordInv_nil : RecordInv memOf [] ([], []) :=
  ⟨List.Pairwise.nil, by simp, by simp, fun _ => rfl, rfl⟩

end Record

/-! ## The plans -/

/-- Where the entries `p` drops contribute nothing, dropping them first changes nothing. -/
theorem flatMap_filter_of_nil {α β : Type} {l : List α} {p : α → Bool} {h : α → List β}
    (hn : ∀ x ∈ l, p x = false → h x = []) : (l.filter p).flatMap h = l.flatMap h := by
  induction l with
  | nil => rfl
  | cons x l ih =>
    have ih := ih fun y hy => hn y (List.mem_cons_of_mem _ hy)
    by_cases hx : p x
    · simp [List.filter_cons, hx, ih]
    · simp [List.filter_cons, hx, ih, hn x (List.mem_cons_self _ _) (by simpa using hx)]

section Plans

variable {memOf : Nat → Nat} {es : List ((Nat × Nat) × OffsetsAndSize)}
  {acc : OASByMem × List TransferPlan}

/-- An instance pair sits under one memory pair of `oas_by_mem`, once, holding its
non-serdez entries in emission order. -/
theorem RecordInv.groups_at (h : RecordInv memOf es acc) (ip : Nat × Nat) :
    acc.1.flatMap (fun x => x.2.filter fun e => e.1 = ip) =
      if plainAt es ip = [] then [] else [(ip, plainAt es ip)] := by
  have hother : ∀ x ∈ acc.1, decide (x.1 = memPair memOf ip) = false →
      x.2.filter (fun e => e.1 = ip) = [] := fun x hx hne =>
    List.filter_eq_nil_iff.2 fun e he hip => by
      have hmp := ((h.groups x hx).2 e he).1
      rw [of_decide_eq_true hip] at hmp
      simp [hmp] at hne
  rw [← flatMap_filter_of_nil hother, filter_key_eq h.sorted, ← h.oasAt_eq, oasAt]
  cases hm : findKey acc.1 (memPair memOf ip) with
  | none => simp [findKey]
  | some I =>
    have hI := h.groups _ (mem_of_findKey hm)
    simp only [Option.map_some', Option.toList_some, List.flatMap_cons, List.flatMap_nil,
      List.append_nil, filter_key_eq hI.1, Option.getD_some]
    cases hv : findKey I ip with
    | none => simp
    | some v => simp [(hI.2 _ (mem_of_findKey hv)).2.1]

/-- No entry is lost or duplicated: the plans' entries are the emitted ones, reordered. -/
theorem RecordInv.plans_perm (h : RecordInv memOf es acc) :
    ((acc.2 ++ groupPlans acc.1).flatMap planEntries).Perm es := by
  have hs : acc.2.flatMap planEntries = es.filter fun e => e.2.serdezId ≠ 0 := by
    rw [h.serdez, List.flatMap_map]
    simp [planEntries]
  have hg : (groupPlans acc.1).flatMap planEntries =
      acc.1.flatMap fun x => x.2.flatMap fun e => e.2.map (e.1, ·) := by
    simp [groupPlans, List.flatMap_assoc, List.flatMap_map, planEntries]
  rw [List.flatMap_append, hs, hg]
  exact (h.entries.append_left _).trans
    (by simpa using List.filter_append_perm (fun e => e.2.serdezId ≠ 0) es)

/-- Each plan holds one instance pair, with a non-empty vector. -/
theorem RecordInv.plan_shape (h : RecordInv memOf es acc) :
    ∀ p ∈ acc.2 ++ groupPlans acc.1, ∃ ip v, p = .copy [(ip, v)] ∧ v ≠ [] := by
  intro p hp
  rcases List.mem_append.1 hp with hp | hp
  · rw [h.serdez] at hp
    obtain ⟨e, -, rfl⟩ := List.mem_map.1 hp
    exact ⟨e.1, [e.2], rfl, List.cons_ne_nil _ _⟩
  · obtain ⟨x, hx, hp⟩ := List.mem_flatMap.1 hp
    obtain ⟨e, he, rfl⟩ := List.mem_map.1 hp
    exact ⟨e.1, e.2, rfl, ((h.groups x hx).2 e he).2.1⟩

/-- A serdez entry is alone in its plan. -/
theorem RecordInv.serdez_alone (h : RecordInv memOf es acc) :
    ∀ p ∈ acc.2 ++ groupPlans acc.1, ∀ e ∈ planEntries p, e.2.serdezId ≠ 0 →
      planEntries p = [e] := by
  intro p hp e he hse
  rcases List.mem_append.1 hp with hp | hp
  · rw [h.serdez] at hp
    obtain ⟨e', -, rfl⟩ := List.mem_map.1 hp
    simp only [planEntries, List.flatMap_cons, List.map_cons, List.map_nil, List.flatMap_nil,
      List.append_nil, List.mem_singleton] at he ⊢
    rw [he]
  · obtain ⟨x, hx, hp⟩ := List.mem_flatMap.1 hp
    obtain ⟨g, hg, rfl⟩ := List.mem_map.1 hp
    simp only [planEntries, List.flatMap_cons, List.flatMap_nil, List.append_nil,
      List.mem_map] at he
    obtain ⟨o, ho, rfl⟩ := he
    exact absurd (((h.groups x hx).2 g hg).2.2 o ho) hse

/-- The plans holding a non-serdez entry of instance pair `ip` are one plan, whose vector
is those entries in emission order. -/
theorem RecordInv.plans_at (h : RecordInv memOf es acc) (ip : Nat × Nat) :
    (acc.2 ++ groupPlans acc.1).filter
        (fun p => (planEntries p).any fun e => e.1 = ip ∧ e.2.serdezId = 0) =
      if plainAt es ip = [] then [] else [.copy [(ip, plainAt es ip)]] := by
  have hs : acc.2.filter (fun p => (planEntries p).any fun e => e.1 = ip ∧ e.2.serdezId = 0) =
      [] := by
    rw [h.serdez, List.filter_eq_nil_iff]
    intro p hp
    obtain ⟨e, he, rfl⟩ := List.mem_map.1 hp
    simp [planEntries, of_decide_eq_true (List.mem_filter.1 he).2]
  have hg : (groupPlans acc.1).filter
      (fun p => (planEntries p).any fun e => e.1 = ip ∧ e.2.serdezId = 0) =
      (acc.1.flatMap fun x => x.2.filter fun e => e.1 = ip).map fun e => .copy [e] := by
    rw [groupPlans, List.filter_flatMap, List.map_flatMap]
    refine List.flatMap_congr fun x hx => ?_
    rw [List.filter_map]
    congr 1
    refine List.filter_congr fun e he => ?_
    obtain ⟨-, hne, hplain⟩ := (h.groups x hx).2 e he
    obtain ⟨o, ho⟩ := List.exists_mem_of_ne_nil _ hne
    by_cases hip : e.1 = ip
    · simp only [planEntries, Bool.decide_and, Function.comp_apply, List.flatMap_cons, hip,
        List.flatMap_nil, List.append_nil, decide_True, List.any_eq_true, List.mem_map,
        Bool.and_eq_true, decide_eq_true_eq, exists_exists_and_eq_and, true_and]
      exact ⟨o, ho, hplain o ho⟩
    · simp [planEntries, hip]
  rw [List.filter_append, hs, hg, h.groups_at ip]
  split_ifs <;> rfl

end Plans

/-! ## `plan_copy` without a reduction -/

/-- `plan_copy` with no reduction returns only from matched sizes: whenever the totals or
the numbers of trailing zero-size fields differ, an assertion fires. -/
theorem matched_of_planCopy (memOf ownerNode : Nat → Nat) (srcs dsts : List CopySrcDstField)
    (redFold : Bool) (h : planCopy memOf ownerNode srcs dsts 0 redFold ≠ none) :
    Matched srcs dsts 0 0 :=
  matched_of_copyLoop (recordOas memOf) srcs dsts 0 0 ([], []) fun hn =>
    h (by rw [planCopy.eq_def, if_pos rfl, hn]; rfl)

/-- **`plan_copy` without a reduction.** `plan_copy` returns only when the source and
destination sizes agree in total and in the number of zero-size fields they end with; any
other pair of size lists fires an assertion. When they agree, the loop ends and `plan_copy`
returns. Its plans pair the source byte stream with the destination byte stream exactly
once, byte by byte; each plan holds one instance pair; a serdez entry is alone in its
plan; and the plans holding a non-serdez entry of an instance pair are one plan, whose
vector is those entries in emission order. -/
theorem planCopy_spec (memOf ownerNode : Nat → Nat) (srcs dsts : List CopySrcDstField)
    (redFold : Bool) :
    (planCopy memOf ownerNode srcs dsts 0 redFold ≠ none →
      (srcs.map (·.size)).sum = (dsts.map (·.size)).sum ∧
        trailingZeros (srcs.map (·.size)) = trailingZeros (dsts.map (·.size))) ∧
    ((srcs.map (·.size)).sum = (dsts.map (·.size)).sum →
      trailingZeros (srcs.map (·.size)) = trailingZeros (dsts.map (·.size)) →
      ∃ es plans, copyEntries srcs dsts 0 0 = some es ∧
        planCopy memOf ownerNode srcs dsts 0 redFold = some plans ∧
        (plans.flatMap planPairs).Perm ((byteStream srcs).zip (byteStream dsts)) ∧
        (∀ p ∈ plans, ∃ ip v, p = .copy [(ip, v)] ∧ v ≠ []) ∧
        (∀ p ∈ plans, ∀ e ∈ planEntries p, e.2.serdezId ≠ 0 → planEntries p = [e]) ∧
        ∀ ip, plans.filter (fun p => (planEntries p).any fun e => e.1 = ip ∧ e.2.serdezId = 0) =
          if plainAt es ip = [] then [] else [.copy [(ip, plainAt es ip)]]) := by
  refine ⟨fun h => by simpa [Matched] using matched_of_planCopy memOf ownerNode srcs dsts redFold h,
    fun hsum hz => ?_⟩
  obtain ⟨es, he, hp⟩ := copyLoop_pairs srcs dsts 0 0 [] (within_zero _) (within_zero _)
    (by simpa [Matched] using ⟨hsum, hz⟩)
  rw [List.nil_append] at he
  have hce : copyEntries srcs dsts 0 0 = some es := he
  have hinv : RecordInv memOf es (es.foldl (fun acc e => recordOas memOf acc e.1 e.2) ([], [])) :=
    by simpa using recordInv_foldl es (@recordInv_nil memOf)
  refine ⟨es, _, hce, by simp [planCopy, copyLoop_eq_foldl, hce], ?_,
    hinv.plan_shape, hinv.serdez_alone, hinv.plans_at⟩
  have hpairs := hinv.plans_perm.flatMap_right entryPairs
  rw [List.flatMap_assoc] at hpairs
  simpa [planPairs, hp] using hpairs

/-- One source field split over two destination fields. -/
theorem planCopy_spec_split :
    ([⟨1, 0, 4, 0⟩] : List CopySrcDstField).map (·.size) = [4] ∧
    ([⟨2, 0, 2, 0⟩, ⟨3, 8, 2, 0⟩] : List CopySrcDstField).map (·.size) = [2, 2] ∧
    ∃ plans, planCopy id id [⟨1, 0, 4, 0⟩] [⟨2, 0, 2, 0⟩, ⟨3, 8, 2, 0⟩] 0 false = some plans :=
  ⟨rfl, rfl, ((planCopy_spec id id [⟨1, 0, 4, 0⟩] [⟨2, 0, 2, 0⟩, ⟨3, 8, 2, 0⟩] false).2 rfl rfl).elim
    fun _ ⟨plans, _, h, _⟩ => ⟨plans, h⟩⟩

end Realm.Transfer
