import Realm.Transfer.Observation
import Realm.Transfer.RectRun

/-!
# Runs of the index-space iterator

`TransferDomainIndexSpace::create_iterator` builds its `TransferIteratorIndexSpace` with
`extra_elems = 0` (`transfer/transfer.cc`). Then the merge loop never merges: the span after
a maximal run of enabled elements starts past a gap, which `0` does not cover
(`takeSpan_zero`). Each step gives out a prefix of the enabled elements still to come for
the current field (`atOrAfter`, `nextRun_spec`), cut to `max_bytes` and at a block boundary,
and moves the enumerator past it, or to the next field after the last span.

Under the identity linearization (`F = 0`), with elements below `2^64`, a run of
non-tentative steps from the constructed iterator reaches `done()`, and the chunks of each
field are, byte for byte and in order, the field's bytes over the enabled elements, with
no byte twice (`index_space_chunks_cover`); the valid mask may be fetched by the first step.
-/

namespace Realm.Transfer

/-- The enabled elements at or after the enumerator's position `pos`. -/
def atOrAfter (E : List Nat) (pos : Int) : List Nat :=
  E.filter fun e => pos ≤ e

/-! ## The spans of a sorted mask -/

section Spans

theorem atOrAfter_cons_of_lt {e : Nat} {es : List Nat} {pos : Int} (h : (e : Int) < pos) :
    atOrAfter (e :: es) pos = atOrAfter es pos := by
  simp [atOrAfter, List.filter_cons, not_le.2 h]

/-- A sorted list is all at or after its head. -/
theorem atOrAfter_head {e : Nat} {es : List Nat} (hs : (e :: es).Pairwise (· < ·)) {pos : Int}
    (h : pos ≤ e) : atOrAfter (e :: es) pos = e :: es := by
  refine List.filter_eq_self.2 fun x hx => ?_
  rcases List.mem_cons.1 hx with rfl | hx
  · simpa using h
  · have := List.rel_of_pairwise_cons hs hx
    simp only [decide_eq_true_eq]
    omega

/-- A sorted list from `e` begins with the run of `e`: any `k` of its elements up to the
run's length, then the elements after them. -/
theorem run_prefix : ∀ {e : Nat} {es : List Nat}, (e :: es).Pairwise (· < ·) → ∀ {k : Nat},
    k ≤ runLen e es + 1 → e :: es = List.range' e k ++ atOrAfter (e :: es) ((e + k : Nat) : Int)
  | e, es, hs, 0, _ => by
    rw [List.range'_zero, List.nil_append, Nat.add_zero, atOrAfter_head hs le_rfl]
  | e, [], _, k + 1, hk => by
    obtain rfl : k = 0 := by simp [runLen] at hk; omega
    simp [atOrAfter]
  | e, f :: fs, hs, k + 1, hk => by
    rw [List.range'_succ, List.cons_append,
      atOrAfter_cons_of_lt (by push_cast; omega)]
    congr 1
    by_cases hf : f = e + 1
    · -- the run goes on through `f`
      subst hf
      rw [runLen, if_pos rfl] at hk
      rcases k with _ | k
      · rw [List.range'_zero, List.nil_append, atOrAfter_head (List.Pairwise.of_cons hs)
          (by push_cast; omega)]
      · rw [show e + (k + 1 + 1) = e + 1 + (k + 1) by omega]
        exact run_prefix (List.Pairwise.of_cons hs) (k := k + 1) (by omega)
    · -- the run is `e` alone
      rw [runLen, if_neg hf] at hk
      obtain rfl : k = 0 := by omega
      rw [List.range'_zero, List.nil_append, atOrAfter_head (List.Pairwise.of_cons hs)
        (by have := List.rel_of_pairwise_cons hs (List.mem_cons_self _ _); push_cast; omega)]

/-- The element after a maximal run is not enabled. -/
theorem run_end_not_mem : ∀ {e : Nat} {es : List Nat}, (e :: es).Pairwise (· < ·) →
    e + runLen e es + 1 ∉ e :: es
  | e, [], _, h => by simp [runLen] at h
  | e, f :: fs, hs, h => by
    have hlt : ∀ x ∈ f :: fs, e < x := fun x hx => List.rel_of_pairwise_cons hs hx
    by_cases hf : f = e + 1
    · subst hf
      rw [runLen, if_pos rfl] at h
      have hne := run_end_not_mem (List.Pairwise.of_cons hs)
      rcases List.mem_cons.1 h with h | h
      · omega
      · have he : e + (runLen (e + 1) fs + 1) + 1 = e + 1 + runLen (e + 1) fs + 1 := by omega
        exact hne (he ▸ h)
    · rw [runLen, if_neg hf, Nat.add_zero] at h
      rcases List.mem_cons.1 h with h | h
      · omega
      · have h₁ := hlt f (List.mem_cons_self _ _)
        rcases List.mem_cons.1 h with h | h
        · exact hf h.symm
        · have := List.rel_of_pairwise_cons (List.Pairwise.of_cons hs) h
          omega

variable {E : List Nat}

/-- **The enumerator's span.** In a sorted mask, the span from `pos` starts at an enabled
element `n`, is not empty, ends before an element that is not enabled, and the enabled
elements from `pos` on are any `k` of it up to its length, then those from `n + k` on. -/
theorem nextRun_spec (hs : E.Pairwise (· < ·)) {pos st : Int} {len : Nat}
    (h : nextRun E pos = some (st, len)) : ∃ n : Nat, st = n ∧ 0 < len ∧ n + len ∉ E ∧
      ∀ k ≤ len, atOrAfter E pos = List.range' n k ++ atOrAfter E ((n + k : Nat) : Int) := by
  induction E with
  | nil => cases h
  | cons e es ih =>
    rw [nextRun] at h
    split_ifs at h with hle
    · cases h
      refine ⟨e, rfl, Nat.succ_pos _, run_end_not_mem hs, fun k hk => ?_⟩
      rw [atOrAfter_head hs hle]
      exact run_prefix hs hk
    · obtain ⟨n, rfl, hlen, hend, hsplit⟩ := ih (List.Pairwise.of_cons hs) h
      obtain ⟨e', -, hst, hp⟩ := mem_of_nextRun h
      have hen : e < n := by omega
      refine ⟨n, rfl, hlen, fun hm => ?_, fun k hk => ?_⟩
      · rcases List.mem_cons.1 hm with hm | hm
        · omega
        · exact hend hm
      · rw [atOrAfter_cons_of_lt (by omega), atOrAfter_cons_of_lt (by push_cast; omega)]
        exact hsplit k hk

/-- Inside a span, enabled elements are left from every element of it on. -/
theorem atOrAfter_ne_nil_of_lt {pos : Int} {n len j : Nat}
    (hsplit : ∀ k ≤ len, atOrAfter E pos = List.range' n k ++ atOrAfter E ((n + k : Nat) : Int))
    (hj : j < len) : atOrAfter E ((n + j : Nat) : Int) ≠ [] := by
  have h := (hsplit j hj.le).symm.trans (hsplit len le_rfl)
  have hr : List.range' n len = List.range' n j ++ List.range' (n + j) (len - j) := by
    rw [List.range'_append_1, Nat.sub_add_cancel hj.le]
  rw [hr, List.append_assoc] at h
  rw [List.append_cancel_left h]
  simp only [ne_eq, List.append_eq_nil, List.range'_eq_nil]
  omega

/-- The enumerator finds no span exactly when no enabled element is left. -/
theorem nextRun_eq_none_iff {pos : Int} : nextRun E pos = none ↔ atOrAfter E pos = [] := by
  induction E with
  | nil => simp [nextRun, atOrAfter]
  | cons e es ih =>
    rw [nextRun]
    split_ifs with hle
    · simp [atOrAfter, List.filter_cons, hle]
    · rw [atOrAfter_cons_of_lt (by omega), ih]

/-- The first enabled element is at or before every enabled element. -/
theorem atOrAfter_findEnabled (m : ElementMask) : atOrAfter m.enabled m.findEnabled = m.enabled := by
  rcases hm : m.enabled with _ | ⟨e, es⟩
  · rfl
  · have hs := m.sorted
    rw [hm] at hs
    rw [ElementMask.findEnabled, hm]
    exact atOrAfter_head hs le_rfl

end Spans

/-! ## With `extra_elems = 0` spans are never merged -/

/-- `size_t` arithmetic on a value it holds is exact. -/
theorem sizeT_of_lt {x : Int} (h0 : 0 ≤ x) (h : x < 2 ^ 64) : (sizeT x : Int) = x := by
  unfold sizeT
  omega

/-- **No merge.** The merge loop never merges with `extra_elems = 0`: the peeked span of a
sorted mask starts after the element that ends the span, which is not enabled. So a step
takes `max_elems` of the span when it does not fit, else the whole span, and it is the last
span when no enabled element follows. -/
theorem takeSpan_zero {E : List Nat} (hsmall : ∀ e ∈ E, e < 2 ^ 64) {n len M : Nat}
    (hend : n + len ∉ E) :
    takeSpan 0 M E n len = some (if M < len then (M, (n : Int) + M, false)
      else (len, (n : Int) + len, (nextRun E ((n : Int) + len)).isNone)) := by
  unfold takeSpan
  split_ifs with hM
  · rfl
  · rcases hnext : nextRun E ((n : Int) + len) with _ | ⟨ps, pl⟩
    · rfl
    · obtain ⟨e, he, rfl, hle⟩ := mem_of_nextRun hnext
      have hne : e ≠ n + len := fun h => hend (h ▸ he)
      have hgap : sizeT ((e : Int) - (n + len)) ≠ 0 := by
        have := sizeT_of_lt (x := (e : Int) - (n + len)) (by omega)
          (by have := hsmall e he; omega)
        omega
      simp only [Option.map_eq_some', mergeLoop, hnext, Nat.le_zero, hgap, false_and, if_false,
        Option.isNone_some]
      exact ⟨_, rfl, rfl⟩

/-! ## The block cut -/

section Block

variable {alloc : Int} {B E fo fs n k : Nat}

/-- `k` elements from `n` stay in `n`'s block exactly when the last is in it. -/
theorem div_add_eq_div_iff (hB : 0 < B) {j : Nat} : (n + j) / B = n / B ↔ n % B + j < B := by
  have h : n + j = (n % B + j) + B * (n / B) := by have := Nat.div_add_mod n B; omega
  rw [h, Nat.add_mul_div_left _ _ hB, Nat.add_left_eq_self, Nat.div_eq_zero_iff hB]

/-- The base `step` computes for a span inside block `0`. -/
theorem base_first_block (h : n < B) :
    alloc + (fo : Int) * (B : Int) + ((n : Int) - 0) * (fs : Int) = elemBase alloc B E fo fs n := by
  rw [elemBase, Nat.div_eq_of_lt h, Nat.mod_eq_of_lt h]
  push_cast
  ring

/-- The base `step` computes from the span's block and its place in it. -/
theorem base_block :
    alloc + ((n : Int) - 0) / (B : Int) * (B : Int) * (E : Int) + (fo : Int) * (B : Int) +
      (((n : Int) - 0) - ((n : Int) - 0) / (B : Int) * (B : Int)) * (fs : Int) =
        elemBase alloc B E fo fs n := by
  rw [elemBase, sub_zero]
  push_cast
  rw [Int.emod_def]
  ring

end Block

namespace IdxIter

/-- What an iterator over the mask `m` and the instance `inst` keeps between
non-tentative steps once the mask is fetched: `extra_elems = 0`, the identity
linearization, elements below `2^64`, fields of positive size, and, while a field is left,
an enabled element at or after the enumerator. -/
structure Good (m : ElementMask) (im : InstanceMeta Int) (s : IdxIter) : Prop where
  mask : s.validMask = some m
  inst : s.inst = some im
  lin : im.linearization = 0
  block_pos : 0 < im.blockSize
  extra : s.extraElems = 0
  small : ∀ e ∈ m.enabled, e < 2 ^ 64
  length_sizes : s.fieldSizes.length = s.fieldOffsets.length
  size_pos : ∀ x ∈ s.fieldSizes, 0 < x
  idx_le : s.fieldIdx ≤ s.fieldOffsets.length
  not_tentative : s.tentativeValid = false
  first : s.firstEnabled = m.findEnabled
  live : s.fieldIdx < s.fieldOffsets.length →
    atOrAfter m.enabled (s.enumerator.getD s.firstEnabled) ≠ []

section Chunk

variable {m : ElementMask} {im : InstanceMeta Int} {s : IdxIter}

/-- The span a step takes before the block cut: `k` enabled elements from `n`, at most
`max_elems`, followed by what is left for the field, and the last span when nothing is. -/
theorem Good.span (hg : Good m im s) (hlt : s.fieldIdx < s.fieldOffsets.length) {M : Nat}
    (hM : 0 < M) : ∃ (n len k : Nat) (pos : Int) (last : Bool), nextRun m.enabled (s.enumerator.getD s.firstEnabled) =
      some ((n : Int), len) ∧ takeSpan 0 M m.enabled n len = some (k, pos, last) ∧ 0 < k ∧
      k ≤ M ∧ n + k - 1 < 2 ^ 64 ∧
      (∀ j ≤ k, atOrAfter m.enabled (s.enumerator.getD s.firstEnabled) =
        List.range' n j ++ atOrAfter m.enabled ((n + j : Nat) : Int)) ∧
      (∀ j < k, atOrAfter m.enabled ((n + j : Nat) : Int) ≠ []) ∧
      (last = false → pos = ((n + k : Nat) : Int) ∧ atOrAfter m.enabled ((n + k : Nat) : Int) ≠ []) ∧
      (last = true → atOrAfter m.enabled ((n + k : Nat) : Int) = []) := by
  obtain ⟨st, len, hnext⟩ : ∃ st len,
      nextRun m.enabled (s.enumerator.getD s.firstEnabled) = some (st, len) := by
    cases h : nextRun m.enabled (s.enumerator.getD s.firstEnabled) with
    | none => exact absurd (nextRun_eq_none_iff.1 h) (hg.live hlt)
    | some r => exact ⟨r.1, r.2, rfl⟩
  obtain ⟨n, rfl, hlen, hend, hsplit⟩ := nextRun_spec m.sorted hnext
  -- the span's last element is enabled, so below `2^64`
  have hlast : n + len - 1 < 2 ^ 64 := by
    have hmem : n + (len - 1) ∈ m.enabled := by
      have := hsplit len le_rfl
      exact List.mem_of_mem_filter (this ▸ List.mem_append_left _
        (List.mem_range'_1.2 ⟨by omega, by omega⟩))
    have := hg.small _ hmem
    omega
  have htake := takeSpan_zero (M := M) hg.small hend
  by_cases hML : M < len
  · refine ⟨n, len, M, _, false, hnext, by rw [htake, if_pos hML], hM, le_rfl, by omega,
      fun j hj => hsplit j (by omega), fun j hj => atOrAfter_ne_nil_of_lt hsplit (by omega),
      fun _ => ⟨by push_cast; rfl, atOrAfter_ne_nil_of_lt hsplit hML⟩, fun h => by cases h⟩
  · have hcast : ((n + len : Nat) : Int) = (n : Int) + len := by push_cast; rfl
    refine ⟨n, len, len, (n : Int) + len, (nextRun m.enabled ((n : Int) + len)).isNone, hnext,
      by rw [htake, if_neg hML], hlen, by omega, hlast, hsplit,
      fun j hj => atOrAfter_ne_nil_of_lt hsplit hj, fun h => ⟨hcast.symm, fun he => ?_⟩,
      fun h => ?_⟩
    · rw [hcast, ← nextRun_eq_none_iff] at he
      simp [he] at h
    · rw [hcast, ← nextRun_eq_none_iff]
      exact Option.isNone_iff_eq_none.1 h

/-- **A step's chunk.** From a `Good` state with a field left and room for one element,
the chunk is `k` enabled elements from `n` inside one block, one line of bytes from where
`n` starts; the enumerator moves past them, or the field is through. -/
theorem Good.chunk_spec (hg : Good m im s) (hlt : s.fieldIdx < s.fieldOffsets.length)
    {fs fo mb : Nat} (hfs : s.fieldSizes[s.fieldIdx]? = some fs)
    (hfo : s.fieldOffsets[s.fieldIdx]? = some fo) (hmb : fs ≤ mb) :
    ∃ (n k : Nat) (c : Int × Int × Bool), 0 < k ∧ k * fs ≤ mb ∧
      n % im.blockSize + k ≤ im.blockSize ∧
      atOrAfter m.enabled (s.enumerator.getD s.firstEnabled) =
        List.range' n k ++ atOrAfter m.enabled ((n + k : Nat) : Int) ∧
      (c.2.2 = false → c.1 = ((n + k : Nat) : Int) ∧
        atOrAfter m.enabled ((n + k : Nat) : Int) ≠ []) ∧
      (c.2.2 = true → atOrAfter m.enabled ((n + k : Nat) : Int) = []) ∧
      s.chunk mb = some (some (c, AddressInfo.line
        (elemBase im.allocOffset im.blockSize im.elmtSize fo fs n) (k * fs), k * fs)) := by
  have hpos : 0 < fs := hg.size_pos fs (List.getElem?_mem hfs)
  have hM : 0 < mb / fs := Nat.div_pos hmb hpos
  obtain ⟨n, len, k, pos, last, hnext, htake, hk, hkM, hsmall, hsplit, hlive, hfalse, htrue⟩ :=
    hg.span hlt hM
  have hB := hg.block_pos
  have hmodB := Nat.mod_lt n hB
  -- the block tests of `step`, in `Nat`
  have hhi : sizeT ((n : Int) + k - 1 - 0) = n + k - 1 := by
    have := sizeT_of_lt (x := (n : Int) + k - 1 - 0) (by omega) (by omega)
    omega
  have hdiv : ((n : Int) - 0) / (im.blockSize : Int) = ((n : Int) + k - 1 - 0) / im.blockSize ↔
      n % im.blockSize + k ≤ im.blockSize := by
    rw [show (n : Int) + k - 1 - 0 = ((n + (k - 1) : Nat) : Int) by omega, sub_zero,
      ← Int.ofNat_ediv, ← Int.ofNat_ediv, Nat.cast_inj, eq_comm, div_add_eq_div_iff hB]
    omega
  have hchunk : s.chunk mb = if sizeT ((n : Int) + k - 1 - 0) < im.blockSize then
      some (some ((pos, (n : Int), last), AddressInfo.line (im.allocOffset + (fo : Int) * im.blockSize +
        ((n : Int) - 0) * fs) (k * fs), k * fs))
    else if ((n : Int) - 0) / (im.blockSize : Int) ≠ ((n : Int) + k - 1 - 0) / im.blockSize then
      some (some ((((n : Int) - 0) + ((im.blockSize : Int) - ((n : Int) - 0) % im.blockSize).toNat,
        (n : Int), false), AddressInfo.line (elemBase im.allocOffset im.blockSize im.elmtSize fo fs n)
          (((im.blockSize : Int) - ((n : Int) - 0) % im.blockSize).toNat * fs),
        ((im.blockSize : Int) - ((n : Int) - 0) % im.blockSize).toNat * fs))
    else some (some ((pos, (n : Int), last), AddressInfo.line
      (elemBase im.allocOffset im.blockSize im.elmtSize fo fs n) (k * fs), k * fs)) := by
    simp only [chunk, hfs, Nat.pos_iff_ne_zero.1 hM, if_false, hg.mask, hg.inst, hfo, hnext,
      hg.extra, htake, hg.lin, base_block]
  by_cases hblk : n % im.blockSize + k ≤ im.blockSize
  · refine ⟨n, k, (pos, n, last), hk, (Nat.le_div_iff_mul_le hpos).1 hkM, hblk, hsplit k le_rfl,
      hfalse, htrue, ?_⟩
    rw [hchunk, hhi]
    split_ifs with h₁ h₂
    · rw [base_first_block (by omega)]
    · exact absurd (hdiv.2 hblk) h₂
    · rfl
  · -- the span crosses a block boundary: cut it there
    have hcut : ((im.blockSize : Int) - ((n : Int) - 0) % im.blockSize).toNat =
        im.blockSize - n % im.blockSize := by
      rw [sub_zero, ← Int.ofNat_emod]
      omega
    have hlt' : im.blockSize - n % im.blockSize < k := by omega
    refine ⟨n, im.blockSize - n % im.blockSize, ((n + (im.blockSize - n % im.blockSize) : Nat), n,
      false), by omega, le_trans (Nat.mul_le_mul_right _ hlt'.le) ((Nat.le_div_iff_mul_le hpos).1 hkM),
      by omega, hsplit _ (by omega), fun _ => ⟨rfl, hlive _ hlt'⟩, Bool.noConfusion, ?_⟩
    have hle := Nat.mod_le n im.blockSize
    rw [hchunk, hhi, if_neg (show ¬n + k - 1 < im.blockSize by omega),
      if_pos fun h => hblk (hdiv.1 h), hcut]
    push_cast
    simp

end Chunk

/-! ## One step keeps the invariant and gives out the head of what is left -/

/-- The elements of field `f` still to give out: from the enumerator on for the current
field, all of them for a later one. -/
def restElems (E : List Nat) (s : IdxIter) (f : Nat) : List Nat :=
  if f < s.fieldIdx then []
  else if f = s.fieldIdx then atOrAfter E (s.enumerator.getD s.firstEnabled)
  else E

/-- The elements still to give out, over all fields. -/
def measure (E : List Nat) (s : IdxIter) : Nat :=
  if s.fieldIdx < s.fieldOffsets.length then
    (atOrAfter E (s.enumerator.getD s.firstEnabled)).length +
      (s.fieldOffsets.length - (s.fieldIdx + 1)) * E.length
  else 0

theorem done_iff {s : IdxIter} : s.done = true ↔ s.fieldIdx = s.fieldOffsets.length := by
  simp [done]

theorem setNext_false (s : IdxIter) (pos st : Int) (last : Bool) :
    s.setNext (pos, st, last) false = if last then
      { s with enumerator := none, rewindPos := st, fieldIdx := s.fieldIdx + 1 }
    else { s with enumerator := some pos, rewindPos := st } :=
  rfl

section Step

variable {m : ElementMask} {im : InstanceMeta Int} {s : IdxIter} {n k : Nat}
  {c : Int × Int × Bool}

theorem Good.findEnabled_ne (hg : Good m im s) (hlt : s.fieldIdx < s.fieldOffsets.length) :
    m.findEnabled ≠ -1 := by
  have hne := hg.live hlt
  unfold ElementMask.findEnabled
  split
  · rename_i h; simp [atOrAfter, h] at hne
  · omega

/-- A step's move keeps the invariant. -/
theorem Good.setNext (hg : Good m im s) (hlt : s.fieldIdx < s.fieldOffsets.length)
    (hsplit : atOrAfter m.enabled (s.enumerator.getD s.firstEnabled) =
      List.range' n k ++ atOrAfter m.enabled ((n + k : Nat) : Int)) (hk : 0 < k)
    (hfalse : c.2.2 = false → c.1 = ((n + k : Nat) : Int) ∧
      atOrAfter m.enabled ((n + k : Nat) : Int) ≠ []) :
    Good m im (s.setNext c false) := by
  obtain ⟨pos, st, last⟩ := c
  dsimp only at hfalse
  cases last
  · obtain ⟨rfl, hne⟩ := hfalse rfl
    exact ⟨hg.mask, hg.inst, hg.lin, hg.block_pos, hg.extra, hg.small, hg.length_sizes,
      hg.size_pos, hg.idx_le, hg.not_tentative, hg.first, fun _ => hne⟩
  · -- the field is through: the next one starts from the first enabled element
    have hn : n ∈ m.enabled := List.mem_of_mem_filter
      (hsplit ▸ List.mem_append_left _ (List.mem_range'_1.2 ⟨le_rfl, by omega⟩))
    refine ⟨hg.mask, hg.inst, hg.lin, hg.block_pos, hg.extra, hg.small, hg.length_sizes,
      hg.size_pos, by rw [setNext_false, if_pos rfl]; exact hlt, hg.not_tentative, hg.first,
      fun _ => ?_⟩
    rw [setNext_false, if_pos rfl]
    simp only [Option.getD_none, hg.first, atOrAfter_findEnabled]
    exact List.ne_nil_of_mem hn

/-- Each step lowers the measure by the number of elements it gives out. -/
theorem Good.measure_setNext (hg : Good m im s) (hlt : s.fieldIdx < s.fieldOffsets.length)
    (hsplit : atOrAfter m.enabled (s.enumerator.getD s.firstEnabled) =
      List.range' n k ++ atOrAfter m.enabled ((n + k : Nat) : Int))
    (hfalse : c.2.2 = false → c.1 = ((n + k : Nat) : Int))
    (htrue : c.2.2 = true → atOrAfter m.enabled ((n + k : Nat) : Int) = []) :
    measure m.enabled (s.setNext c false) + k = measure m.enabled s := by
  obtain ⟨pos, st, last⟩ := c
  dsimp only at hfalse htrue
  have hlen := congrArg List.length hsplit
  rw [List.length_append, List.length_range'] at hlen
  unfold measure
  rw [if_pos hlt]
  cases last
  · obtain rfl := hfalse rfl
    rw [setNext_false, if_neg Bool.false_ne_true]
    simp only [if_pos hlt, Option.getD_some]
    omega
  · rw [htrue rfl, List.length_nil, Nat.add_zero] at hlen
    rw [hlen, setNext_false, if_pos rfl]
    simp only [Option.getD_none, hg.first, atOrAfter_findEnabled]
    split_ifs with h
    · rw [show s.fieldOffsets.length - (s.fieldIdx + 1) =
        s.fieldOffsets.length - (s.fieldIdx + 1 + 1) + 1 by omega, Nat.succ_mul]
      omega
    · rw [show s.fieldOffsets.length - (s.fieldIdx + 1) = 0 by omega, Nat.zero_mul]
      omega

/-- A step gives out the head of what is left of the current field. -/
theorem Good.restElems_setNext (hg : Good m im s)
    (hsplit : atOrAfter m.enabled (s.enumerator.getD s.firstEnabled) =
      List.range' n k ++ atOrAfter m.enabled ((n + k : Nat) : Int))
    (hfalse : c.2.2 = false → c.1 = ((n + k : Nat) : Int))
    (htrue : c.2.2 = true → atOrAfter m.enabled ((n + k : Nat) : Int) = []) (f : Nat) :
    restElems m.enabled s f = (if f = s.fieldIdx then List.range' n k else []) ++
      restElems m.enabled (s.setNext c false) f := by
  obtain ⟨pos, st, last⟩ := c
  dsimp only at hfalse htrue
  cases last
  · obtain rfl := hfalse rfl
    rw [setNext_false, if_neg Bool.false_ne_true]
    simp only [restElems, Option.getD_some]
    by_cases h₁ : f < s.fieldIdx
    · simp [h₁, show f ≠ s.fieldIdx by omega]
    · by_cases h₂ : f = s.fieldIdx
      · simp [h₂, hsplit]
      · simp [h₁, h₂]
  · rw [htrue rfl, List.append_nil, hg.first] at hsplit
    rw [setNext_false, if_pos rfl]
    simp only [restElems, Option.getD_none, hg.first, atOrAfter_findEnabled]
    by_cases h₁ : f < s.fieldIdx
    · simp [h₁, show f < s.fieldIdx + 1 by omega, show f ≠ s.fieldIdx by omega]
    · by_cases h₂ : f = s.fieldIdx
      · simp [h₂, hsplit]
      · simp only [h₁, h₂, if_false, List.nil_append, show ¬f < s.fieldIdx + 1 by omega]
        split_ifs <;> rfl

end Step

/-! ## The whole run -/

section Run

variable {m : ElementMask} {im : InstanceMeta Int}

@[simp] theorem prepare_fieldSizes (s : IdxIter) : (prepare m s).fieldSizes = s.fieldSizes := by
  unfold prepare; split_ifs <;> rfl

@[simp] theorem prepare_fieldOffsets (s : IdxIter) :
    (prepare m s).fieldOffsets = s.fieldOffsets := by
  unfold prepare; split_ifs <;> rfl

@[simp] theorem prepare_fieldIdx (s : IdxIter) : (prepare m s).fieldIdx = s.fieldIdx := by
  unfold prepare; split_ifs <;> rfl

@[simp] theorem setNext_fieldOffsets (s : IdxIter) (c : Int × Int × Bool) :
    (s.setNext c false).fieldOffsets = s.fieldOffsets := by
  obtain ⟨_, _, _ | _⟩ := c <;> rfl

@[simp] theorem setNext_fieldSizes (s : IdxIter) (c : Int × Int × Bool) :
    (s.setNext c false).fieldSizes = s.fieldSizes := by
  obtain ⟨_, _, _ | _⟩ := c <;> rfl

theorem Good.prepare_eq {s : IdxIter} (hg : Good m im s) : prepare m s = s :=
  prepare_of_not fun h => Option.some_ne_none _ (hg.mask ▸ h.2)

theorem Good.measure_pos {s : IdxIter} (hg : Good m im s) (hlt : s.fieldIdx < s.fieldOffsets.length) :
    0 < measure m.enabled s := by
  rw [measure, if_pos hlt]
  have := List.length_pos.2 (hg.live hlt)
  omega

/-- What a run from `s` gives out: only `s`'s fields, each chunk non-empty and within the
bytes asked for, and for each field exactly the bytes of what is left of it. -/
def Covers (m : ElementMask) (im : InstanceMeta Int) (s : IdxIter)
    (l : List (Nat × Nat × AddressInfo)) : Prop :=
  (∀ x ∈ l, x.1 < s.fieldOffsets.length ∧ 0 < x.2.2.bytesPerChunk ∧ x.2.2.bytesPerChunk ≤ x.2.1) ∧
    ∀ f fo fs, s.fieldOffsets[f]? = some fo → s.fieldSizes[f]? = some fs →
      fieldChunkBytes l f =
        fieldBytes im.allocOffset im.blockSize im.elmtSize fo fs (restElems m.enabled s f)

theorem covers_of_done {s : IdxIter} (hd : s.done = true) : Covers m im s [] := by
  refine ⟨by simp, fun f fo fs hfo _ => ?_⟩
  rw [restElems, if_pos (by rw [done_iff.1 hd]; exact (List.getElem?_eq_some_iff.1 hfo).1)]
  rfl

/-- A step, then a run that covers the rest, covers everything. -/
theorem covers_cons {s : IdxIter} {n k fs fo bytes : Nat} {c : Int × Int × Bool}
    {l : List (Nat × Nat × AddressInfo)} (hg : Good m im s)
    (hlt : s.fieldIdx < s.fieldOffsets.length) (hk : 0 < k)
    (hfs : s.fieldSizes[s.fieldIdx]? = some fs) (hfo : s.fieldOffsets[s.fieldIdx]? = some fo)
    (hblk : n % im.blockSize + k ≤ im.blockSize) (hkb : k * fs ≤ bytes)
    (hsplit : atOrAfter m.enabled (s.enumerator.getD s.firstEnabled) =
      List.range' n k ++ atOrAfter m.enabled ((n + k : Nat) : Int))
    (hfalse : c.2.2 = false → c.1 = ((n + k : Nat) : Int))
    (htrue : c.2.2 = true → atOrAfter m.enabled ((n + k : Nat) : Int) = [])
    (hl : Covers m im (s.setNext c false) l) :
    Covers m im s ((s.fieldIdx, bytes, AddressInfo.line
      (elemBase im.allocOffset im.blockSize im.elmtSize fo fs n) (k * fs)) :: l) := by
  have hpos := hg.size_pos fs (List.getElem?_mem hfs)
  refine ⟨fun x hx => ?_, fun f fo' fs' hfo' hfs' => ?_⟩
  · rcases List.mem_cons.1 hx with rfl | hx
    · exact ⟨hlt, Nat.mul_pos hk hpos, hkb⟩
    · simpa using hl.1 x hx
  · rw [fieldChunkBytes_cons, hl.2 f fo' fs' (by simpa using hfo') (by simpa using hfs'),
      hg.restElems_setNext hsplit hfalse htrue f]
    by_cases hf : s.fieldIdx = f
    · subst hf
      obtain rfl := Option.some.inj (hfo.symm.trans hfo')
      obtain rfl := Option.some.inj (hfs.symm.trans hfs')
      rw [if_pos rfl, if_pos rfl, fieldBytes_append, ← byteRange_block hblk]
      rfl
    · rw [if_neg hf, if_neg (Ne.symm hf)]
      rfl

/-- **The run.** From a state that is `Good` once its mask is fetched, a run with enough
fuel reaches `done()` and covers what is left of every field, provided each `max_bytes`
holds one element of the field current at its step. -/
theorem run_covers (fuel : Nat) {mb : Nat → Nat} {s : IdxIter} (hg : Good m im (prepare m s))
    (hfuel : measure m.enabled (prepare m s) ≤ fuel)
    (hmb : ∀ k l s', (iterator m).run fieldIdx mb k s = some (l, s') → s'.done = false →
      ∀ fs, s'.fieldSizes[s'.fieldIdx]? = some fs → fs ≤ mb k) :
    ∃ l s', (iterator m).run fieldIdx mb fuel s = some (l, s') ∧ s'.done = true ∧
      Covers m im (prepare m s) l := by
  induction fuel generalizing mb s with
  | zero =>
    have hd : s.done = true := by
      by_contra h
      have hlt : (prepare m s).fieldIdx < (prepare m s).fieldOffsets.length :=
        lt_of_le_of_ne hg.idx_le fun he => h (by simpa [done_iff] using he)
      have := hg.measure_pos hlt
      omega
    exact ⟨[], s, TransferIterator.run_of_done hd, hd,
      covers_of_done (by rw [done_prepare]; exact hd)⟩
  | succ fuel ih =>
    cases hd : s.done
    case true =>
      exact ⟨[], s, TransferIterator.run_of_done hd, hd,
        covers_of_done (by rw [done_prepare]; exact hd)⟩
    case false =>
      have hlt : (prepare m s).fieldIdx < (prepare m s).fieldOffsets.length :=
        lt_of_le_of_ne hg.idx_le fun he => by
          have h := done_iff.2 he
          rw [done_prepare, hd] at h
          cases h
      obtain ⟨fs, hfs⟩ : ∃ fs, (prepare m s).fieldSizes[(prepare m s).fieldIdx]? = some fs :=
        ⟨_, List.getElem?_eq_getElem (by rw [hg.length_sizes]; exact hlt)⟩
      obtain ⟨fo, hfo⟩ : ∃ fo, (prepare m s).fieldOffsets[(prepare m s).fieldIdx]? = some fo :=
        ⟨_, List.getElem?_eq_getElem hlt⟩
      obtain ⟨n, k, c, hk, hkb, hblk, hsplit, hfalse, htrue, hchunk⟩ :=
        hg.chunk_spec hlt hfs hfo (hmb 0 [] s rfl hd fs (by simpa using hfs))
      -- the step fetches the mask, if it must, then gives out the chunk
      have hstep : (iterator m).step s (mb 0) false =
          some ((prepare m s).setNext c false, some (AddressInfo.line
            (elemBase im.allocOffset im.blockSize im.elmtSize fo fs n) (k * fs)), k * fs) := by
        show step m s (mb 0) false = _
        rw [step_eq_prepare (hg.findEnabled_ne hlt)]
        exact stepMasked_of_chunk (by simp [done_prepare, hd, hg.not_tentative]) hchunk false
      have hg' := hg.setNext hlt hsplit hk hfalse
      have hμ := hg.measure_setNext hlt hsplit (fun h => (hfalse h).1) htrue
      obtain ⟨l, s', hrun, hdone, hcov⟩ := ih (s := (prepare m s).setNext c false)
        (by rwa [hg'.prepare_eq]) (by rw [hg'.prepare_eq]; omega)
        fun k l s' h => hmb (k + 1) _ s' (by rw [TransferIterator.run_succ_of_step hd hstep, h]; rfl)
      rw [hg'.prepare_eq] at hcov
      have hcons := covers_cons hg hlt hk hfs hfo hblk hkb hsplit (fun h => (hfalse h).1) htrue hcov
      rw [prepare_fieldIdx] at hcons
      exact ⟨_, s', by rw [TransferIterator.run_succ_of_step hd hstep, hrun]; rfl, hdone, hcons⟩

/-- A step keeps the field sizes, or clears them when the fetched mask is empty. -/
theorem step_fieldSizes {s s' : IdxIter} {mb n : Nat} {t : Bool} {o : Option AddressInfo}
    (h : step m s mb t = some (s', o, n)) : s'.fieldSizes = s.fieldSizes ∨ s'.fieldSizes = [] := by
  -- what `stepMasked` leaves has the field sizes it was given
  have hmasked : ∀ x : IdxIter, x.stepMasked mb t = some (s', o, n) →
      s'.fieldSizes = x.fieldSizes := fun x hx => by
    unfold stepMasked stepOf at hx
    split at hx
    · cases hx
    · obtain ⟨r, -, he⟩ := Option.map_eq_some'.1 hx
      rcases r with _ | ⟨⟨_, _, _ | _⟩, _, _⟩ <;> cases he <;> cases t <;> rfl
  unfold step at h
  split_ifs at h
  · cases h
    exact .inr rfl
  · exact .inl ((hmasked _ h).trans rfl)
  · exact .inl (hmasked _ h)

end Run

end IdxIter

/-! ## The constructed iterator -/

section New

variable {is : Nat} {ready : Bool} {m : ElementMask} {im : InstanceMeta Int} {sizes js : List Nat}

/-- The constructor over a non-empty mask, for fields requested by their offsets: the
state the first step works on, the mask fetched if it was not ready. -/
theorem IdxIter.prepare_new (hm : m.enabled ≠ []) (hsizes : im.fieldSizes = sizes)
    (hpos : ∀ x ∈ sizes, 0 < x) (hjs : ∀ j ∈ js, j < sizes.length) (hne : js ≠ []) :
    ∃ s0, IdxIter.new is ready m im (js.map (fieldOffset sizes)) 0 = some s0 ∧
      IdxIter.prepare m s0 = ⟨is, some m, m.findEnabled, none, 0, some im,
        js.map (fieldOffset sizes), js.map fun j => sizes.getD j 0, 0, 0, 0, false⟩ := by
  have hfe : m.findEnabled ≠ -1 := by
    unfold ElementMask.findEnabled
    split
    · contradiction
    · omega
  cases ready
  · refine ⟨_, by simp only [IdxIter.new, Bool.false_eq_true, if_false]; rw [if_neg (by simp [hne]),
      hsizes, findFieldSizes_fieldOffset hpos hjs]; rfl, ?_⟩
    rw [IdxIter.prepare, if_pos ⟨by simpa using hne, rfl⟩]
  · refine ⟨_, by simp only [IdxIter.new, if_true]; rw [if_neg (by simp [hne, hfe]),
      hsizes, findFieldSizes_fieldOffset hpos hjs]; rfl, ?_⟩
    exact IdxIter.prepare_of_not fun h => Option.some_ne_none _ h.2

/-- The constructor over an empty mask, for fields requested by their offsets: `done()`
holds at once when the mask is ready, and after one step that gives out nothing when the
first step fetches it. -/
theorem IdxIter.run_empty_mask {mb : Nat → Nat} (hm : m.enabled = [])
    (hsizes : im.fieldSizes = sizes) (hpos : ∀ x ∈ sizes, 0 < x) (hjs : ∀ j ∈ js, j < sizes.length)
    (hne : js ≠ []) :
    ∃ s0 n s, IdxIter.new is ready m im (js.map (fieldOffset sizes)) 0 = some s0 ∧
      (IdxIter.iterator m).run IdxIter.fieldIdx mb n s0 = some ([], s) ∧ s.done = true := by
  have hfe : m.findEnabled = -1 := by simp [ElementMask.findEnabled, hm]
  cases ready
  · -- the first step fetches the empty mask and clears the fields
    have h0 : IdxIter.new is false m im (js.map (fieldOffset sizes)) 0 = some ⟨is, none, 0, none,
        0, some im, js.map (fieldOffset sizes), js.map fun j => sizes.getD j 0, 0, 0, 0, false⟩ := by
      simp only [IdxIter.new, Bool.false_eq_true, if_false]
      rw [if_neg (by simp [hne]), hsizes, findFieldSizes_fieldOffset hpos hjs]
      rfl
    have hstep : (IdxIter.iterator m).step ⟨is, none, 0, none, 0, some im,
        js.map (fieldOffset sizes), js.map fun j => sizes.getD j 0, 0, 0, 0, false⟩ (mb 0) false =
        some (⟨is, some m, -1, none, 0, some im, [], [], 0, 0, 0, false⟩, none, 0) := by
      simp [IdxIter.iterator, IdxIter.step, hne, hfe]
    have hd : (IdxIter.iterator m).done ⟨is, none, 0, none, 0, some im,
        js.map (fieldOffset sizes), js.map fun j => sizes.getD j 0, 0, 0, 0, false⟩ = false := by
      simp only [IdxIter.iterator, IdxIter.done, List.length_map, beq_eq_false_iff_ne]
      exact fun h => hne (List.length_eq_zero.1 h.symm)
    exact ⟨_, 1, _, h0, TransferIterator.run_succ_of_done_step hd hstep rfl, rfl⟩
  · -- an empty mask is ready, and the constructor leaves no field
    exact ⟨⟨is, some m, -1, none, 0, none, [], [], 0, 0, 0, false⟩, 0, _,
      by simp only [IdxIter.new, if_true, hfe, true_or], rfl, rfl⟩

/-- **Every enabled element once.** Non-tentative steps of the index-space iterator that
`create_iterator` builds (`extra_elems = 0`), over an instance with the identity
linearization and a mask whose elements are below `2^64`, ready at construction or fetched by
the first step, for any list of fields, and under any `max_bytes` sequence that leaves room
for one element of the current field, reach `done()`; every chunk is non-empty and within
its `max_bytes`; and the chunks of each requested field are, byte for byte and in order,
that field's bytes over the enabled elements, with no byte twice. -/
theorem index_space_chunks_cover {mb : Nat → Nat}
    (hlin : im.linearization = 0) (hB : 0 < im.blockSize) (hsmall : ∀ e ∈ m.enabled, e < 2 ^ 64)
    (hsizes : im.fieldSizes = sizes) (hpos : ∀ x ∈ sizes, 0 < x) (hE : im.elmtSize = sizes.sum)
    (hjs : ∀ j ∈ js, j < sizes.length)
    (hmb : ∀ s0, IdxIter.new is ready m im (js.map (fieldOffset sizes)) 0 = some s0 →
      ∀ k l s, (IdxIter.iterator m).run IdxIter.fieldIdx mb k s0 = some (l, s) → s.done = false →
        ∀ fs, s.fieldSizes[s.fieldIdx]? = some fs → fs ≤ mb k) :
    ∃ s0 n l s, IdxIter.new is ready m im (js.map (fieldOffset sizes)) 0 = some s0 ∧
      (IdxIter.iterator m).run IdxIter.fieldIdx mb n s0 = some (l, s) ∧ s.done = true ∧
      (∀ x ∈ l, x.1 < js.length ∧ 0 < x.2.2.bytesPerChunk ∧ x.2.2.bytesPerChunk ≤ x.2.1) ∧
      ∀ f j sz, js[f]? = some j → sizes[j]? = some sz →
        fieldChunkBytes l f = fieldBytes im.allocOffset im.blockSize im.elmtSize
            (fieldOffset sizes j) sz m.enabled ∧ (fieldChunkBytes l f).Nodup := by
  by_cases hne : js = []
  · -- no field: `done()` holds at once
    subst hne
    have h0 : IdxIter.new is ready m im ([].map (fieldOffset sizes)) 0 =
        some ⟨is, if ready then some m else none, if ready then m.findEnabled else 0, none, 0, none,
          [], [], 0, 0, 0, false⟩ := by
      simp [IdxIter.new]
    exact ⟨_, 0, [], _, h0, rfl, rfl, by simp, fun f j sz hj => by simp at hj⟩
  by_cases hm : m.enabled = []
  · obtain ⟨s0, n, s, h0, hrun, hdone⟩ :=
      @IdxIter.run_empty_mask is ready m im sizes js mb hm hsizes hpos hjs hne
    refine ⟨s0, n, [], s, h0, hrun, hdone, by simp, fun f j sz _ _ => ?_⟩
    rw [hm]
    exact ⟨rfl, List.nodup_nil⟩
  · obtain ⟨s0, hnew, hprep⟩ :=
      @IdxIter.prepare_new is ready m im sizes js hm hsizes hpos hjs hne
    have hg : IdxIter.Good m im (IdxIter.prepare m s0) := by
      rw [hprep]
      refine ⟨rfl, rfl, hlin, hB, rfl, hsmall, by simp, fun x hx => ?_, Nat.zero_le _, rfl, rfl,
        fun _ => ?_⟩
      · obtain ⟨j, hj, rfl⟩ := List.mem_map.1 hx
        rw [List.getD_eq_getElem?_getD, List.getElem?_eq_getElem (hjs j hj)]
        exact hpos _ (List.getElem_mem _)
      · rw [Option.getD_none, atOrAfter_findEnabled]
        exact hm
    obtain ⟨l, s, hrun, hdone, hcov⟩ := IdxIter.run_covers _ hg le_rfl (hmb s0 hnew)
    rw [hprep] at hcov
    refine ⟨s0, _, l, s, hnew, hrun, hdone, fun x hx => by simpa using hcov.1 x hx,
      fun f j sz hj hsz => ?_⟩
    have hfo : (js.map (fieldOffset sizes))[f]? = some (fieldOffset sizes j) := by simp [hj]
    have hfs : (js.map fun j => sizes.getD j 0)[f]? = some sz := by
      simp [hj, List.getD_eq_getElem?_getD, hsz]
    rw [hcov.2 f _ _ hfo hfs]
    have hrest : IdxIter.restElems m.enabled ⟨is, some m, m.findEnabled, none, 0, some im,
        js.map (fieldOffset sizes), js.map fun j => sizes.getD j 0, 0, 0, 0, false⟩ f =
          m.enabled := by
      simp only [IdxIter.restElems, Nat.not_lt_zero, if_false, Option.getD_none,
        atOrAfter_findEnabled]
      split_ifs <;> rfl
    rw [hrest]
    exact ⟨rfl, nodup_fieldBytes m.sorted.nodup hB (hE ▸ fieldOffset_add_le hsz)⟩

/-- A mask enabled at `0‥2` and `5`, fetched by the first step; two fields of sizes 1 and 2
in blocks of four elements; 4 bytes a step. -/
theorem index_space_chunks_cover_blocks : ∃ s0 n l s,
    IdxIter.new 0 false ⟨[0, 1, 2, 5], by decide⟩ ⟨1, 0, 0, 4, 3, [1, 2]⟩
      ([0, 1].map (fieldOffset [1, 2])) 0 = some s0 ∧
    (IdxIter.iterator ⟨[0, 1, 2, 5], by decide⟩).run IdxIter.fieldIdx (fun _ => 4) n s0 =
      some (l, s) ∧ s.done = true ∧
    fieldChunkBytes l 1 = fieldBytes 0 4 3 (fieldOffset [1, 2] 1) 2 [0, 1, 2, 5] := by
  obtain ⟨s0, n, l, s, h0, hr, hd, -, hf⟩ := @index_space_chunks_cover 0 false
    ⟨[0, 1, 2, 5], by decide⟩ ⟨1, 0, 0, 4, 3, [1, 2]⟩ [1, 2] [0, 1] (fun _ => 4)
    rfl (by decide) (by decide) rfl (by decide) rfl (by decide)
    fun s0 h0 k l s hrun _ fs hfs => by
      have hs0 : s0.fieldSizes = [1, 2] :=
        Option.some.inj ((congrArg (Option.map IdxIter.fieldSizes) h0).symm.trans rfl)
      have hP := TransferIterator.run_invariant
        (fun t : IdxIter => t.fieldSizes = [1, 2] ∨ t.fieldSizes = [])
        (fun hs hstep => (IdxIter.step_fieldSizes hstep).elim (fun h => by
          show _ ∨ _; rw [h]; exact hs) .inr)
        (.inl hs0) hrun
      have hmem := List.getElem?_mem hfs
      rcases hP with h | h <;> rw [h] at hmem <;> simp at hmem
      show fs ≤ 4
      omega
  exact ⟨s0, n, l, s, h0, hr, hd, (hf 1 1 2 rfl rfl).1⟩

end New

end Realm.Transfer
