import Realm.Transfer.RectIter
import Realm.Transfer.ZIndexIter
import Realm.Transfer.IndexSpaceIter

/-!
# What a caller sees of an iterator

Two iterator states are observationally equal when they answer `done()` alike and give the
same chunks under every list of `max_bytes` values (`TransferIterator.observe`).

For the rectangle and the sparse-space iterators, a step never reads `next_p` / `next_idx`
(`next_point` / `carry`): it sets them before `confirm_step()` reads them. States equal but
for those fields are observationally equal (`TransferIterator.observe_eq_of_erase`).

The mask iterator is subtler. Its enumerator is created lazily, deleted at a field
boundary, and rewound by `cancel_step()` to the start of the span a tentative step took, not
to where it was; and the valid mask may be fetched by a step that is then cancelled.
`IdxIter.Agree` relates states whose enumerators give the same spans, now and after the
next field boundary; through `IdxIter.prepare` (the fetch of the mask) it is a simulation
(`IdxIter.observe_eq_of_sim`).

From these, tentative steps obey their laws for all three iterators (`tentative_laws`).
-/

namespace Realm.Transfer

/-! ## The enumerator -/

theorem mem_of_nextRun {E : List Nat} {pos st : Int} {len : Nat}
    (h : nextRun E pos = some (st, len)) : ∃ e ∈ E, (e : Int) = st ∧ pos ≤ st := by
  induction E with
  | nil => cases h
  | cons e es ih =>
    rw [nextRun] at h
    split_ifs at h with hle
    · cases h
      exact ⟨e, List.mem_cons_self _ _, rfl, hle⟩
    · obtain ⟨e', he', rfl, hp⟩ := ih h
      exact ⟨e', List.mem_cons_of_mem _ he', rfl, hp⟩

/-- **Rewinding to a span's start.** In a sorted mask, the span found from any position is
found again from its own start. -/
theorem nextRun_start {E : List Nat} (hs : E.Pairwise (· < ·)) {pos st : Int} {len : Nat}
    (h : nextRun E pos = some (st, len)) : nextRun E st = some (st, len) := by
  induction E with
  | nil => cases h
  | cons e es ih =>
    rw [List.pairwise_cons] at hs
    rw [nextRun] at h ⊢
    split_ifs at h with hle
    · cases h
      rw [if_pos le_rfl]
    · obtain ⟨e', he', hst, -⟩ := mem_of_nextRun h
      have hlt := hs.1 e' he'
      rw [if_neg (by omega), ih hs.2 h]

/-! ## Rectangle and sparse-space iterators -/

namespace RectIter

/-- The fields only `confirm_step()` reads. -/
def erase (s : RectIter) : RectIter :=
  { s with nextP := [], nextIdx := 0 }

theorem tentativeValid_of_fails {s : RectIter} (h : (s.done || s.tentativeValid) = false) :
    s.tentativeValid = false :=
  (Bool.or_eq_false_iff.1 h).2

theorem step_eq_stepOf (s : RectIter) (mb : Nat) (t : Bool) :
    iterator.step s mb t = stepOf (fun s => s.done || s.tentativeValid) chunk setNext s mb t :=
  rfl

theorem observe_eq_of_erase {s t : RectIter} (h : s.erase = t.erase) (mbs : List Nat) :
    iterator.observe mbs s = iterator.observe mbs t :=
  TransferIterator.observe_eq_of_erase step_eq_stepOf erase (fun _ => rfl) (fun _ => rfl)
    (fun _ _ => rfl) (fun _ _ => rfl) h mbs

theorem tentativeLaws (s : RectIter) : iterator.TentativeLaws s :=
  TransferIterator.tentativeLaws_of_erase step_eq_stepOf erase (fun _ => rfl) (fun _ => rfl)
    (fun _ _ => rfl) (fun _ _ => rfl)
    (fun s _ hf => ⟨_, rfl, by
      cases s
      cases tentativeValid_of_fails hf
      rfl⟩)
    (fun s _ hf => ⟨_, rfl, by
      cases s
      cases tentativeValid_of_fails hf
      rfl⟩) s

end RectIter

namespace ZIter

/-- The fields only `confirm_step()` reads. -/
def erase (s : ZIter) : ZIter :=
  { s with nextPoint := [], carry := false }

theorem step_eq_stepOf (s : ZIter) (mb : Nat) (t : Bool) :
    iterator.step s mb t = stepOf (fun s => s.done || s.tentativeValid) chunk setNext s mb t :=
  rfl

theorem tentativeLaws (s : ZIter) : iterator.TentativeLaws s :=
  TransferIterator.tentativeLaws_of_erase step_eq_stepOf erase (fun _ => rfl) (fun _ => rfl)
    (fun _ _ => rfl) (fun _ _ => rfl)
    (fun s _ hf => ⟨_, rfl, by
      cases s
      cases (Bool.or_eq_false_iff.1 hf).2
      rfl⟩)
    (fun s _ hf => ⟨_, rfl, by
      cases s
      cases (Bool.or_eq_false_iff.1 hf).2
      simp only [setNext, advance, if_true, if_false, Bool.false_eq_true]
      split
      · split <;> rfl
      · rfl⟩) s

end ZIter

/-! ## The mask iterator -/

namespace IdxIter

/-- `step`'s fetch of the valid mask `m`, when the iterator has fields and no mask yet. -/
def NeedsFetch (s : IdxIter) : Prop :=
  s.fieldSizes ≠ [] ∧ s.validMask = none

instance (s : IdxIter) : Decidable s.NeedsFetch :=
  inferInstanceAs (Decidable (_ ∧ _))

/-- The state a step works on once it has fetched the mask. -/
def prepare (m : ElementMask) (s : IdxIter) : IdxIter :=
  if s.NeedsFetch then { s with validMask := some m, firstEnabled := m.findEnabled } else s

/-- States that give the same spans: equal but for the enumerator, `first_enabled`, and the
fields only `cancel_step()` and `confirm_step()` read, and with enumerators that find the same
span now and after the next field boundary. -/
structure Agree (s t : IdxIter) : Prop where
  eq : { s with enumerator := t.enumerator, firstEnabled := t.firstEnabled,
                rewindPos := t.rewindPos, nextIdx := t.nextIdx } = t
  run_eq : ∀ vm, s.validMask = some vm →
    nextRun vm.enabled (s.enumerator.getD s.firstEnabled) =
      nextRun vm.enabled (t.enumerator.getD t.firstEnabled)
  first_eq : ∀ vm, s.validMask = some vm →
    nextRun vm.enabled s.firstEnabled = nextRun vm.enabled t.firstEnabled

/-- Related for the iterator over the mask `m`: agreeing once the mask is fetched, and, for
an empty `m`, both fetching it or neither. -/
def Sim (m : ElementMask) (s t : IdxIter) : Prop :=
  (m.findEnabled ≠ -1 ∨ (s.NeedsFetch ↔ t.NeedsFetch)) ∧ Agree (prepare m s) (prepare m t)

/-- What `step` leaves when the fetched mask is empty: no fields, so that `done()` holds. -/
def clearFields (m : ElementMask) (s : IdxIter) : IdxIter :=
  { s with validMask := some m, firstEnabled := -1, fieldIdx := 0, fieldOffsets := [],
           fieldSizes := [] }

theorem stepMasked_of_chunk {s : IdxIter} {mb n : Nat} {c : Int × Int × Bool} {info : AddressInfo}
    (hf : (s.done || s.tentativeValid) = false) (hc : s.chunk mb = some (some (c, info, n)))
    (t : Bool) : s.stepMasked mb t = some (s.setNext c t, some info, n) := by
  simp [stepMasked, stepOf, hf, hc]

theorem Agree.refl (s : IdxIter) : Agree s s :=
  ⟨rfl, fun _ _ => rfl, fun _ _ => rfl⟩

theorem prepare_of_not {m : ElementMask} {s : IdxIter} (h : ¬s.NeedsFetch) : prepare m s = s :=
  if_neg h

theorem not_needsFetch_prepare (m : ElementMask) (s : IdxIter) : ¬(prepare m s).NeedsFetch := by
  unfold prepare NeedsFetch
  split_ifs with h
  · simp
  · exact h

theorem done_prepare (m : ElementMask) (s : IdxIter) : (prepare m s).done = s.done := by
  unfold prepare
  split_ifs <;> rfl

theorem step_eq_of_not {m : ElementMask} {s : IdxIter} (h : ¬s.NeedsFetch) (mb : Nat) (t : Bool) :
    step m s mb t = stepMasked s mb t :=
  if_neg h

theorem step_eq_prepare {m : ElementMask} {s : IdxIter} (hm : m.findEnabled ≠ -1) (mb : Nat)
    (t : Bool) : step m s mb t = stepMasked (prepare m s) mb t := by
  unfold step prepare
  by_cases h : s.NeedsFetch
  · rw [if_pos (show s.fieldSizes ≠ [] ∧ s.validMask = none from h), if_neg hm, if_pos h]
  · rw [if_neg (show ¬(s.fieldSizes ≠ [] ∧ s.validMask = none) from h), if_neg h]

theorem validMask_of_chunk {s : IdxIter} {mb : Nat} {c : (Int × Int × Bool) × AddressInfo × Nat}
    (h : s.chunk mb = some (some c)) : ∃ vm len, s.validMask = some vm ∧
      nextRun vm.enabled (s.enumerator.getD s.firstEnabled) = some (c.1.2.1, len) := by
  unfold chunk at h
  rcases hfs : s.fieldSizes[s.fieldIdx]? with _ | fs
  · simp [hfs] at h
  rcases hv : s.validMask with _ | vm
  · simp [hfs, hv] at h
  rcases hi : s.inst with _ | inst
  · simp [hfs, hv, hi] at h
  rcases hfo : s.fieldOffsets[s.fieldIdx]? with _ | fo
  · simp [hfs, hv, hi, hfo] at h
  rcases hr : nextRun vm.enabled (s.enumerator.getD s.firstEnabled) with _ | ⟨start, len⟩
  · simp [hfs, hv, hi, hfo, hr] at h
  rcases ht : takeSpan s.extraElems (mb / fs) vm.enabled start len with _ | ⟨spanLen, pos, last⟩
  · simp [hfs, hv, hi, hfo, hr, ht] at h
  simp only [hfs, hv, hi, hfo, hr, ht] at h
  split_ifs at h <;> cases h <;> exact ⟨vm, len, rfl, hr⟩

theorem not_needsFetch_setNext {s : IdxIter} (h : ¬s.NeedsFetch) (c : Int × Int × Bool) (t : Bool) :
    ¬(s.setNext c t).NeedsFetch := by
  obtain ⟨pos, start, last⟩ := c
  cases t <;> cases last <;> exact h

/-- What a step's states agree on carries over the chunk. -/
theorem Agree.chunk_eq {s t : IdxIter} (h : Agree s t) (mb : Nat) : s.chunk mb = t.chunk mb := by
  obtain ⟨heq, hrun, -⟩ := h
  rw [← heq]
  unfold chunk
  dsimp only
  rcases hv : s.validMask with _ | vm
  · rfl
  · rcases s.inst with _ | inst
    · rfl
    · rcases s.fieldOffsets[s.fieldIdx]? with _ | fo
      · rfl
      · simp only [hrun vm hv]

/-- What a step's states agree on carries over the move. -/
theorem Agree.setNext {s t : IdxIter} (h : Agree s t) (c : Int × Int × Bool) :
    Agree (s.setNext c false) (t.setNext c false) := by
  obtain ⟨heq, -, hfirst⟩ := h
  obtain ⟨pos, start, last⟩ := c
  rw [← heq] at hfirst ⊢
  cases last
  · exact ⟨rfl, fun _ _ => rfl, hfirst⟩
  · exact ⟨rfl, hfirst, hfirst⟩

theorem Agree.stepMasked_rel {s t : IdxIter} (h : Agree s t) (mb : Nat) :
    Option.Rel (fun a b => a.2 = b.2 ∧ Agree a.1 b.1) (s.stepMasked mb false) (t.stepMasked mb false) := by
  have hf : (s.done || s.tentativeValid) = (t.done || t.tentativeValid) := by
    rw [← h.eq]
    rfl
  unfold stepMasked stepOf
  dsimp only
  rw [hf, h.chunk_eq mb]
  cases (t.done || t.tentativeValid)
  · cases t.chunk mb with
    | none => exact .none
    | some r =>
      rcases r with _ | ⟨c, info, bytes⟩
      · exact .some ⟨rfl, h⟩
      · exact .some ⟨rfl, h.setNext c⟩
  · exact .none

theorem not_needsFetch_of_stepMasked {s a : IdxIter} {mb : Nat} {t : Bool} {o : Option AddressInfo}
    {n : Nat} (hs : ¬s.NeedsFetch) (h : s.stepMasked mb t = some (a, o, n)) : ¬a.NeedsFetch := by
  unfold stepMasked stepOf at h
  split at h
  · cases h
  · obtain ⟨r, -, he⟩ := Option.map_eq_some'.1 h
    rcases r with _ | ⟨c, info, bytes⟩ <;> cases he
    · exact hs
    · exact not_needsFetch_setNext hs c t

/-- A step that fetches an empty mask clears the fields and returns 0. -/
theorem step_of_empty_fetch {m : ElementMask} {s : IdxIter} (hs : s.NeedsFetch)
    (hm : m.findEnabled = -1) (mb : Nat) (t : Bool) :
    step m s mb t = some (clearFields m s, none, 0) := by
  unfold step
  rw [if_pos (show s.fieldSizes ≠ [] ∧ s.validMask = none from hs), if_pos hm]
  rfl

/-- Agreeing states with their masks at hand step alike, to related states. -/
theorem Agree.stepMasked_sim {m : ElementMask} {s t : IdxIter} (h : Agree s t)
    (hs : ¬s.NeedsFetch) (ht : ¬t.NeedsFetch) (mb : Nat) :
    Option.Rel (fun a b => a.2 = b.2 ∧ Sim m a.1 b.1) (s.stepMasked mb false) (t.stepMasked mb false) := by
  have hr := h.stepMasked_rel mb
  generalize hs' : s.stepMasked mb false = a at hr
  generalize ht' : t.stepMasked mb false = b at hr
  cases hr with
  | none => exact .none
  | @some a b hab =>
    have ha := not_needsFetch_of_stepMasked hs hs'
    have hb := not_needsFetch_of_stepMasked ht ht'
    exact .some ⟨hab.1, .inr (iff_of_false ha hb), by
      rw [prepare_of_not ha, prepare_of_not hb]
      exact hab.2⟩

/-- States that both fetch the empty mask `m`, and agree once they have it, are related once
they have cleared their fields. -/
theorem sim_clearFields {m : ElementMask} {s t : IdxIter} (hm : m.findEnabled = -1)
    (hs : s.NeedsFetch) (ht : t.NeedsFetch) (h : Agree (prepare m s) (prepare m t)) :
    Sim m (clearFields m s) (clearFields m t) := by
  have hnil : m.enabled = [] := by
    unfold ElementMask.findEnabled at hm
    split at hm
    · assumption
    · omega
  have hclear : ∀ {u}, u.NeedsFetch → clearFields m (prepare m u) = clearFields m u := fun hu => by
    rw [prepare, if_pos hu]
    rfl
  refine ⟨.inr (iff_of_false (fun h => h.1 rfl) (fun h => h.1 rfl)), ?_⟩
  rw [prepare_of_not (fun h => h.1 rfl), prepare_of_not (fun h => h.1 rfl), ← hclear hs,
    ← hclear ht]
  obtain ⟨heq, -, -⟩ := h
  unfold clearFields
  rw [← heq]
  refine ⟨rfl, fun vm hv => ?_, fun vm hv => ?_⟩ <;> cases Option.some.inj hv
  · rw [hnil]; rfl
  · rw [hnil]

/-- Over the same mask, a step from related states fails alike or gives the same chunk and
related states. -/
theorem Sim.step_rel {m : ElementMask} {s t : IdxIter} (h : Sim m s t) (mb : Nat) :
    Option.Rel (fun a b => a.2 = b.2 ∧ Sim m a.1 b.1) (step m s mb false) (step m t mb false) := by
  obtain ⟨hfetch, hagree⟩ := h
  by_cases hm : m.findEnabled = -1
  · have hiff := hfetch.resolve_left (not_not.2 hm)
    by_cases hs : s.NeedsFetch
    · -- both fetch the empty mask and clear their fields
      have ht := hiff.1 hs
      rw [step_of_empty_fetch hs hm, step_of_empty_fetch ht hm]
      exact .some ⟨rfl, sim_clearFields hm hs ht hagree⟩
    · have ht : ¬t.NeedsFetch := fun ht => hs (hiff.2 ht)
      rw [step_eq_of_not hs, step_eq_of_not ht]
      rw [prepare_of_not hs, prepare_of_not ht] at hagree
      exact hagree.stepMasked_sim hs ht mb
  · rw [step_eq_prepare hm, step_eq_prepare hm]
    exact hagree.stepMasked_sim (not_needsFetch_prepare m s) (not_needsFetch_prepare m t) mb

/-- **Observational equality of the mask iterator.** -/
theorem observe_eq_of_sim {m : ElementMask} {s t : IdxIter} (h : Sim m s t) (mbs : List Nat) :
    (iterator m).observe mbs s = (iterator m).observe mbs t :=
  TransferIterator.observe_eq_of_sim (Sim m)
    (fun {s t} h => by
      show s.done = t.done
      rw [← done_prepare m s, ← done_prepare m t, ← h.2.eq]
      rfl)
    (fun {_ _} h _ mb => h.step_rel mb) h mbs

theorem tentativeValid_of_fails {s : IdxIter} (h : (s.done || s.tentativeValid) = false) :
    s.tentativeValid = false :=
  (Bool.or_eq_false_iff.1 h).2

/-- States differing only in `next_idx` agree. -/
theorem Agree.of_nextIdx (s : IdxIter) (k : Nat) : Agree { s with nextIdx := k } s :=
  ⟨rfl, fun _ _ => rfl, fun _ _ => rfl⟩

theorem Sim.of_nextIdx {m : ElementMask} {x : IdxIter} (hx : ¬x.NeedsFetch) (k : Nat) :
    Sim m { x with nextIdx := k } x :=
  ⟨.inr (iff_of_false hx hx), by
    rw [prepare_of_not (s := { x with nextIdx := k }) hx, prepare_of_not hx]
    exact Agree.of_nextIdx x k⟩

/-- Confirming a tentative move gives the non-tentative one, `next_idx` apart. -/
theorem confirmStep_setNext {p : IdxIter} (htv : p.tentativeValid = false) (pos start : Int)
    (last : Bool) : confirmStep (p.setNext (pos, start, last) true) =
      some { p.setNext (pos, start, last) false with
             nextIdx := p.fieldIdx + if last then 1 else 0 } := by
  cases p
  cases htv
  cases last <;> simp [confirmStep, setNext]

/-- Tentative steps of the mask iterator obey their laws at every state. -/
theorem tentativeLaws (m : ElementMask) (s : IdxIter) : (iterator m).TentativeLaws s := by
  intro mb s₁ o n h hn
  -- a step that returns bytes did not clear the fields: it worked on the prepared state
  have hfetch : m.findEnabled ≠ -1 ∨ ¬s.NeedsFetch := by
    by_contra hc
    push_neg at hc
    have h' : step m s mb true = _ := h
    rw [step_of_empty_fetch hc.2 hc.1] at h'
    cases h'
    exact hn rfl
  have hstep : ∀ t, step m s mb t = (prepare m s).stepMasked mb t := fun t => by
    rcases hfetch with hm | hs
    · exact step_eq_prepare hm mb t
    · rw [step_eq_of_not hs, prepare_of_not hs]
  have hsim : ∀ {a}, ¬a.NeedsFetch → Agree a (prepare m s) → Sim m a s := fun ha hagree =>
    ⟨hfetch.imp id fun hs => iff_of_false ha hs, by rw [prepare_of_not ha]; exact hagree⟩
  have hp := not_needsFetch_prepare m s
  generalize prepare m s = p at hstep hsim hp
  have h' : p.stepMasked mb true = some (s₁, o, n) := (hstep true).symm.trans h
  obtain ⟨⟨pos, start, last⟩, info, hf, hc, rfl, rfl⟩ := stepOf_eq_some h' hn
  obtain ⟨vm, len, hv, hr⟩ := validMask_of_chunk hc
  have htv := tentativeValid_of_fails hf
  refine ⟨⟨_, rfl, fun mbs => observe_eq_of_sim (hsim ?_ ⟨?_, ?_, ?_⟩) mbs⟩,
    _, _, confirmStep_setNext htv pos start last,
    (hstep false).trans (stepMasked_of_chunk hf hc false),
    fun mbs => observe_eq_of_sim (Sim.of_nextIdx (not_needsFetch_setNext hp _ false) _) mbs⟩
  · exact hp
  · -- cancelling gives back the state, the enumerator at the span's start
    cases p
    cases htv
    rfl
  · -- where the enumerator finds the same span
    intro vm' hv'
    cases Option.some.inj (hv'.symm.trans hv)
    show nextRun _ start = _
    rw [hr, nextRun_start (ElementMask.sorted _) hr]
  · intro _ _
    rfl

end IdxIter

/-- **Tentative steps.** For the rectangle, mask and sparse-space iterators, at every state:
whenever a tentative step returns bytes, cancelling it leaves the iterator observationally
equal to where it was, and confirming it fills and returns what a non-tentative step does and
leaves the iterator observationally equal to where that step leaves it. -/
theorem tentative_laws :
    (∀ s, RectIter.iterator.TentativeLaws s) ∧ (∀ m s, (IdxIter.iterator m).TentativeLaws s) ∧
      ∀ s, ZIter.iterator.TentativeLaws s :=
  ⟨RectIter.tentativeLaws, IdxIter.tentativeLaws, ZIter.tentativeLaws⟩

end Realm.Transfer
