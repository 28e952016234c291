import Realm.Transfer.Layout

/-!
# Transfer iterators

The DMA engine walks a copy's domain through the virtual interface `TransferIterator`
(`transfer/transfer.cc`): `step(max_bytes, info, tentative)` fills one `AddressInfo` chunk of
the current field and returns its byte count, a tentative step waits for
`confirm_step()` or `cancel_step()`, and `done()` says when every field is through.

Two views of an iterator serve every iterator of the engine:
* `run`: a caller's loop of non-tentative steps until `done()`, the `k`-th step under the
  `k`-th `max_bytes`; it lists the chunks with the field each belongs to. The coverage
  laws are stated over it; `run_invariant` carries a property of states along it.
* `observe`: what a caller sees (the `done()` answers, and what each step fills and
  returns) under a list of `max_bytes` values. Two states are observationally equal when
  they give the same trace for every list; a simulation whose related states agree on
  `done()` and step to related states gives it (`observe_eq_of_sim`).
-/

namespace Realm.Transfer

/-- The interface `TransferIterator`, over an iterator's state `σ`: `done()`;
`step(max_bytes, info, tentative)`, giving the new state, the `AddressInfo` it fills
(`none` when it returns before filling it) and the count it returns, or `none` when an
assertion fires; `confirm_step()` and `cancel_step()`, `none` when their assertion fires;
and `reset()`. -/
structure TransferIterator (σ : Type) where
  done : σ → Bool
  step : σ → Nat → Bool → Option (σ × Option AddressInfo × Nat)
  confirmStep : σ → Option σ
  cancelStep : σ → Option σ
  reset : σ → σ

/-- The bytes the chunks of field `f` cover, chunk after chunk. -/
def fieldChunkBytes (l : List (Nat × Nat × AddressInfo)) (f : Nat) : List Int :=
  (l.filter fun x => x.1 = f).flatMap fun x => byteRange x.2.2.baseOffset x.2.2.bytesPerChunk

theorem fieldChunkBytes_cons (i k : Nat) (info : AddressInfo) (l : List (Nat × Nat × AddressInfo))
    (f : Nat) : fieldChunkBytes ((i, k, info) :: l) f =
      (if i = f then byteRange info.baseOffset info.bytesPerChunk else []) ++ fieldChunkBytes l f := by
  by_cases h : i = f <;> simp [fieldChunkBytes, List.filter_cons, h]

/-- The shape of every `step` of the engine: its assertions (`fails`), the chunk it finds
from the state (`none` when an assertion fails, `some none` when `max_bytes` holds less
than one element), then the move (`setNext`, given what the chunk leaves for it). A
tentative step differs from another only in the move. -/
def stepOf {σ γ : Type} (fails : σ → Bool)
    (chunk : σ → Nat → Option (Option (γ × AddressInfo × Nat))) (setNext : σ → γ → Bool → σ)
    (s : σ) (maxBytes : Nat) (tentative : Bool) : Option (σ × Option AddressInfo × Nat) :=
  if fails s then none else
  (chunk s maxBytes).map fun
    | none => (s, none, 0)
    | some (c, info, bytes) => (setNext s c tentative, some info, bytes)

section StepOf

variable {σ γ : Type} {fails : σ → Bool} {chunk : σ → Nat → Option (Option (γ × AddressInfo × Nat))}
  {setNext : σ → γ → Bool → σ}

/-- A step that returns bytes gave out a chunk, and moved by `setNext`. -/
theorem stepOf_eq_some {s s₁ : σ} {mb n : Nat} {t : Bool} {o : Option AddressInfo}
    (h : stepOf fails chunk setNext s mb t = some (s₁, o, n)) (hn : n ≠ 0) :
    ∃ c info, fails s = false ∧ chunk s mb = some (some (c, info, n)) ∧ s₁ = setNext s c t ∧
      o = some info := by
  unfold stepOf at h
  split at h
  · cases h
  · rename_i hf
    obtain ⟨r, hr, he⟩ := Option.map_eq_some'.1 h
    rcases r with _ | ⟨c, info, bytes⟩
    · cases he
      exact (hn rfl).elim
    · cases he
      exact ⟨c, info, by simpa using hf, hr, rfl, rfl⟩

theorem stepOf_of_chunk {s : σ} {mb n : Nat} {c : γ} {info : AddressInfo} (hf : fails s = false)
    (hc : chunk s mb = some (some (c, info, n))) (t : Bool) :
    stepOf fails chunk setNext s mb t = some (setNext s c t, some info, n) := by
  simp [stepOf, hf, hc]

end StepOf

namespace TransferIterator

variable {σ : Type} (it : TransferIterator σ)

/-- A caller's loop of non-tentative steps while `done()` is false, the `k`-th step asking
for at most `mb k` bytes, at most `fuel` of them: the chunks, each with the field `field`
names for the state it was given out from and the `max_bytes` it was asked under, and the
state reached. A step that gives out nothing ends the loop when it leaves `done()` true (the
first step of an index-space iterator whose valid mask turns out empty); otherwise, or when a
step fails, the loop gives `none`. -/
def run (field : σ → Nat) (mb : Nat → Nat) : Nat → σ → Option (List (Nat × Nat × AddressInfo) × σ)
  | 0, s => some ([], s)
  | fuel + 1, s =>
    if it.done s then some ([], s) else
    match it.step s (mb 0) false with
    | some (s', some info, _) =>
      (run field (fun k => mb (k + 1)) fuel s').map fun r => ((field s, mb 0, info) :: r.1, r.2)
    | some (s', none, _) => if it.done s' then some ([], s') else none
    | none => none

/-- What a caller sees under non-tentative steps with the `max_bytes` values `mbs`: before
each step the `done()` answer and, while not done, what the step fills and returns; a
failed assertion ends the trace. -/
def observe : List Nat → σ → List (Bool × Option (Option AddressInfo × Nat))
  | [], s => [(it.done s, none)]
  | mb :: mbs, s =>
    if it.done s then [(true, none)] else
    match it.step s mb false with
    | none => [(false, none)]
    | some (s', info, n) => (false, some (info, n)) :: observe mbs s'

/-- The laws of tentative steps at `s`: whenever a tentative step returns bytes, cancelling
it leaves a state observationally equal to `s`, and confirming it fills and returns what a
non-tentative step does and leaves a state observationally equal to the one that step
leaves. -/
def TentativeLaws (s : σ) : Prop :=
  ∀ mb s₁ o n, it.step s mb true = some (s₁, o, n) → n ≠ 0 →
    (∃ s₂, it.cancelStep s₁ = some s₂ ∧ ∀ mbs, it.observe mbs s₂ = it.observe mbs s) ∧
    ∃ s₃ s₄, it.confirmStep s₁ = some s₃ ∧ it.step s mb false = some (s₄, o, n) ∧
      ∀ mbs, it.observe mbs s₃ = it.observe mbs s₄

/-- The states a caller reaches from `s₀` by steps, confirms, cancels and resets. -/
inductive Reachable (s₀ : σ) : σ → Prop
  | refl : Reachable s₀ s₀
  | step {s s' mb t o n} : Reachable s₀ s → it.step s mb t = some (s', o, n) → Reachable s₀ s'
  | confirm {s s'} : Reachable s₀ s → it.confirmStep s = some s' → Reachable s₀ s'
  | cancel {s s'} : Reachable s₀ s → it.cancelStep s = some s' → Reachable s₀ s'
  | reset {s} : Reachable s₀ s → Reachable s₀ (it.reset s)

variable {it}

/-- A property that every operation keeps holds at every state reached. -/
theorem Reachable.invariant (P : σ → Prop)
    (hstep : ∀ {s s' mb t o n}, P s → it.step s mb t = some (s', o, n) → P s')
    (hconfirm : ∀ {s s'}, P s → it.confirmStep s = some s' → P s')
    (hcancel : ∀ {s s'}, P s → it.cancelStep s = some s' → P s')
    (hreset : ∀ {s}, P s → P (it.reset s)) {s₀ s : σ} (h₀ : P s₀) (h : it.Reachable s₀ s) :
    P s := by
  induction h with
  | refl => exact h₀
  | step _ hs ih => exact hstep ih hs
  | confirm _ hs ih => exact hconfirm ih hs
  | cancel _ hs ih => exact hcancel ih hs
  | reset _ ih => exact hreset ih

theorem run_succ_of_step {field : σ → Nat} {mb : Nat → Nat} {fuel : Nat} {s s' : σ}
    {info : AddressInfo} {n : Nat} (hd : it.done s = false)
    (hs : it.step s (mb 0) false = some (s', some info, n)) :
    it.run field mb (fuel + 1) s =
      (it.run field (fun k => mb (k + 1)) fuel s').map
        fun r => ((field s, mb 0, info) :: r.1, r.2) := by
  simp [run, hd, hs]

theorem run_of_done {field : σ → Nat} {mb : Nat → Nat} {fuel : Nat} {s : σ}
    (hd : it.done s = true) : it.run field mb fuel s = some ([], s) := by
  cases fuel <;> simp [run, hd]

/-- A step that gives out nothing and leaves `done()` true ends the run. -/
theorem run_succ_of_done_step {field : σ → Nat} {mb : Nat → Nat} {fuel : Nat} {s s' : σ}
    {n : Nat} (hd : it.done s = false) (hs : it.step s (mb 0) false = some (s', none, n))
    (hd' : it.done s' = true) : it.run field mb (fuel + 1) s = some ([], s') := by
  simp [run, hd, hs, hd']

/-- A property every non-tentative step keeps holds at the end of a run. -/
theorem run_invariant (P : σ → Prop)
    (hP : ∀ {s s' mb o n}, P s → it.step s mb false = some (s', o, n) → P s')
    {field : σ → Nat} {mb : Nat → Nat} {fuel : Nat} {s s' : σ}
    {l : List (Nat × Nat × AddressInfo)} (hs : P s) (h : it.run field mb fuel s = some (l, s')) :
    P s' := by
  induction fuel generalizing mb s l with
  | zero => cases h; exact hs
  | succ fuel ih =>
    simp only [run] at h
    split at h
    · cases h; exact hs
    · split at h
      · rename_i hstep
        obtain ⟨⟨l', s''⟩, hl', he⟩ := Option.map_eq_some'.1 h
        cases he
        exact ih (hP hs hstep) hl'
      · rename_i hstep
        split at h
        · cases h; exact hP hs hstep
        · cases h
      · cases h

/-- **Observational equality from a simulation.** If related states agree on `done()` and,
while not done, step to related states with the same `AddressInfo` and count (or both fail),
related states give the same trace under every list of `max_bytes`. -/
theorem observe_eq_of_sim (R : σ → σ → Prop) (hdone : ∀ {s t}, R s t → it.done s = it.done t)
    (hstep : ∀ {s t}, R s t → it.done s = false → ∀ mb,
      Option.Rel (fun a b => a.2 = b.2 ∧ R a.1 b.1) (it.step s mb false) (it.step t mb false))
    {s t : σ} (h : R s t) (mbs : List Nat) : it.observe mbs s = it.observe mbs t := by
  induction mbs generalizing s t with
  | nil => simp [observe, hdone h]
  | cons mb mbs ih =>
    rw [observe, observe, ← hdone h]
    cases hd : it.done s
    · have hrel := hstep h hd mb
      simp only [Bool.false_eq_true, if_false]
      generalize it.step s mb false = a at hrel
      generalize it.step t mb false = b at hrel
      cases hrel with
      | none => rfl
      | @some a b hab =>
        obtain ⟨s', o, n⟩ := a
        obtain ⟨t', o', n'⟩ := b
        obtain ⟨he, hr⟩ := hab
        cases he
        simp only [ih hr]
    · rfl

theorem observe_of_done {s : σ} (hd : it.done s = true) (mbs : List Nat) :
    it.observe mbs s = [(true, none)] := by
  cases mbs <;> simp [observe, hd]

section Erase

variable {γ : Type} {fails : σ → Bool} {chunk : σ → Nat → Option (Option (γ × AddressInfo × Nat))}
  {setNext : σ → γ → Bool → σ} (hstep : ∀ s mb t, it.step s mb t = stepOf fails chunk setNext s mb t)
  (erase : σ → σ) (hdone : ∀ s, it.done (erase s) = it.done s)
  (hfails : ∀ s, fails (erase s) = fails s) (hchunk : ∀ s mb, chunk (erase s) mb = chunk s mb)
  (hnext : ∀ s c, setNext (erase s) c false = setNext s c false)

include hstep hdone hfails hchunk hnext

/-- **Fields a step never reads.** When `erase` forgets only what the chunk and the move
never read, states equal after `erase` are observationally equal. -/
theorem observe_eq_of_erase {s t : σ} (h : erase s = erase t) (mbs : List Nat) :
    it.observe mbs s = it.observe mbs t := by
  refine observe_eq_of_sim (fun s t => erase s = erase t) (fun {s t} h => ?_) (fun {s t} h _ mb => ?_) h mbs
  · rw [← hdone s, h, hdone]
  · rw [hstep, hstep, stepOf, stepOf, ← hfails s, h, hfails, ← hchunk s, h, hchunk]
    cases fails t
    · cases chunk t mb with
      | none => exact .none
      | some r =>
        rcases r with _ | ⟨c, info, bytes⟩
        · exact .some ⟨rfl, h⟩
        · refine .some ⟨rfl, ?_⟩
          show erase (setNext s c false) = erase (setNext t c false)
          rw [← hnext s, h, hnext]
    · exact .none

/-- **Tentative steps, from the shape of `step`.** If cancelling a tentative move gives back
the state up to `erase`, and confirming it gives the non-tentative move up to `erase`, the
tentative laws hold at every state. -/
theorem tentativeLaws_of_erase
    (hcancel : ∀ s c, fails s = false → ∃ s₂, it.cancelStep (setNext s c true) = some s₂ ∧
      erase s₂ = erase s)
    (hconfirm : ∀ s c, fails s = false → ∃ s₃, it.confirmStep (setNext s c true) = some s₃ ∧
      erase s₃ = erase (setNext s c false))
    (s : σ) : it.TentativeLaws s := by
  intro mb s₁ o n h hn
  rw [hstep] at h
  obtain ⟨c, info, hf, hc, rfl, rfl⟩ := stepOf_eq_some h hn
  obtain ⟨s₂, hs₂, he₂⟩ := hcancel s c hf
  obtain ⟨s₃, hs₃, he₃⟩ := hconfirm s c hf
  exact ⟨⟨s₂, hs₂, observe_eq_of_erase hstep erase hdone hfails hchunk hnext he₂⟩,
    s₃, _, hs₃, by rw [hstep, stepOf_of_chunk hf hc],
    observe_eq_of_erase hstep erase hdone hfails hchunk hnext he₃⟩

end Erase

end TransferIterator

end Realm.Transfer
