import Mathlib.Data.List.Perm.Basic

/-!
# Maps keyed by pairs of ids

`plan_copy` groups its entries in two `std::map`s keyed by `std::pair`s of ids: instance
pairs (`OASByInst`) and memory pairs (`OASByMem`). A map is held as a list of key/value
entries in strictly increasing key order, the order it iterates in. Its two operations
are `m[k]` followed by an update of the value (`modifyAt`), and `find` (`findKey`).

Key order (`KeySorted`) is the data invariant: `modifyAt` keeps it
(`keySorted_modifyAt`), and under it `modifyAt` updates exactly the value `find` sees
(`findKey_modifyAt_self`, `findKey_modifyAt_ne`), and a key occurs at most once
(`filter_key_eq`). Without it, what an update adds to the map's contents is already
known (`perm_flatMap_modifyAt`).
-/

namespace Realm.Transfer

/-- `operator<` of `std::pair`: the first components, then the second. -/
def pairLt (a b : Nat × Nat) : Bool :=
  a.1 < b.1 || (a.1 == b.1 && a.2 < b.2)

theorem pairLt_iff {a b : Nat × Nat} : pairLt a b ↔ a.1 < b.1 ∨ a.1 = b.1 ∧ a.2 < b.2 := by
  simp [pairLt]

theorem pairLt_irrefl (a : Nat × Nat) : ¬pairLt a a := by
  simp [pairLt_iff]

theorem pairLt_trans {a b c : Nat × Nat} (h₁ : pairLt a b) (h₂ : pairLt b c) : pairLt a c := by
  rw [pairLt_iff] at *
  omega

theorem pairLt_of_not_lt {a b : Nat × Nat} (hne : a ≠ b) (h : ¬pairLt a b) : pairLt b a := by
  rw [pairLt_iff] at *
  rw [Ne, Prod.ext_iff] at hne
  omega

/-- `m[k]` followed by an update `f` of the value: an absent key is first inserted, in
order, with the value `d`. -/
def modifyAt {V : Type} (k : Nat × Nat) (d : V) (f : V → V) :
    List ((Nat × Nat) × V) → List ((Nat × Nat) × V)
  | [] => [(k, f d)]
  | (k', v) :: rest =>
    if k = k' then (k', f v) :: rest
    else if pairLt k k' then (k, f d) :: (k', v) :: rest
    else (k', v) :: modifyAt k d f rest

/-- `std::map::find`. -/
def findKey {V : Type} : List ((Nat × Nat) × V) → Nat × Nat → Option V
  | [], _ => none
  | (k', v) :: rest, k => if k = k' then some v else findKey rest k

/-- Keys strictly increasing: the order a `std::map` keeps its entries in. -/
def KeySorted {V : Type} (m : List ((Nat × Nat) × V)) : Prop :=
  m.Pairwise fun x y => pairLt x.1 y.1

section

variable {V : Type} {k : Nat × Nat} {d : V} {f : V → V}

/-- An entry of the updated map is an old one, or the key's updated value. -/
theorem mem_modifyAt {m : List ((Nat × Nat) × V)} {x : (Nat × Nat) × V}
    (h : x ∈ modifyAt k d f m) : x ∈ m ∨ x.1 = k ∧ ∃ v, (v = d ∨ (k, v) ∈ m) ∧ x.2 = f v := by
  induction m with
  | nil =>
    rw [modifyAt, List.mem_singleton] at h
    exact .inr ⟨by rw [h], d, .inl rfl, by rw [h]⟩
  | cons y m ih =>
    obtain ⟨k', v⟩ := y
    simp only [modifyAt] at h
    split_ifs at h with hk hlt
    · rcases List.mem_cons.1 h with rfl | h
      · exact .inr ⟨hk.symm, v, .inr (by simp [hk]), rfl⟩
      · exact .inl (List.mem_cons_of_mem _ h)
    · rcases List.mem_cons.1 h with rfl | h
      · exact .inr ⟨rfl, d, .inl rfl, rfl⟩
      · exact .inl h
    · rcases List.mem_cons.1 h with rfl | h
      · exact .inl (List.mem_cons_self _ _)
      · rcases ih h with h | ⟨hx, w, hw, hf⟩
        · exact .inl (List.mem_cons_of_mem _ h)
        · exact .inr ⟨hx, w, hw.imp id (List.mem_cons_of_mem _), hf⟩

theorem keySorted_modifyAt {m : List ((Nat × Nat) × V)} (hs : KeySorted m) :
    KeySorted (modifyAt k d f m) := by
  induction m with
  | nil => exact List.pairwise_singleton _ _
  | cons y m ih =>
    obtain ⟨k', v⟩ := y
    rw [KeySorted, List.pairwise_cons] at hs
    simp only [modifyAt]
    split_ifs with hk hlt
    · exact List.pairwise_cons.2 ⟨fun y hy => hs.1 y hy, hs.2⟩
    · refine List.pairwise_cons.2 ⟨fun y hy => ?_, List.pairwise_cons.2 hs⟩
      rcases List.mem_cons.1 hy with rfl | hy
      · exact hlt
      · exact pairLt_trans hlt (hs.1 y hy)
    · refine List.pairwise_cons.2 ⟨fun y hy => ?_, ih hs.2⟩
      rcases mem_modifyAt hy with hy | ⟨hy, -⟩
      · exact hs.1 y hy
      · rw [hy]
        exact pairLt_of_not_lt hk hlt

theorem findKey_eq_none {m : List ((Nat × Nat) × V)} (h : ∀ x ∈ m, x.1 ≠ k) :
    findKey m k = none := by
  induction m with
  | nil => rfl
  | cons y m ih =>
    obtain ⟨k', v⟩ := y
    rw [findKey, if_neg (Ne.symm (h _ (List.mem_cons_self _ _))),
      ih fun x hx => h x (List.mem_cons_of_mem _ hx)]

theorem mem_of_findKey {m : List ((Nat × Nat) × V)} {v : V} (h : findKey m k = some v) :
    (k, v) ∈ m := by
  induction m with
  | nil => cases h
  | cons y m ih =>
    obtain ⟨k', w⟩ := y
    simp only [findKey] at h
    split_ifs at h with hk
    · cases h
      rw [hk]
      exact List.mem_cons_self _ _
    · exact List.mem_cons_of_mem _ (ih h)

/-- `m[k]` then an update: `find` sees the updated value of the key. -/
theorem findKey_modifyAt_self {m : List ((Nat × Nat) × V)} (hs : KeySorted m) :
    findKey (modifyAt k d f m) k = some (f ((findKey m k).getD d)) := by
  induction m with
  | nil => simp [modifyAt, findKey]
  | cons y m ih =>
    obtain ⟨k', v⟩ := y
    rw [KeySorted, List.pairwise_cons] at hs
    simp only [modifyAt]
    split_ifs with hk hlt
    · simp [findKey, hk]
    · have habs : findKey m k = none := findKey_eq_none fun x hx hxk => by
        have h := pairLt_trans hlt (hs.1 x hx)
        rw [hxk] at h
        exact pairLt_irrefl k h
      simp [findKey, hk, habs]
    · simp [findKey, hk, ih hs.2]

/-- `m[k]` then an update leaves every other key's value as it was. -/
theorem findKey_modifyAt_ne {m : List ((Nat × Nat) × V)} {k' : Nat × Nat} (h : k' ≠ k) :
    findKey (modifyAt k d f m) k' = findKey m k' := by
  induction m with
  | nil => simp [modifyAt, findKey, h]
  | cons y m ih =>
    obtain ⟨k'', v⟩ := y
    simp only [modifyAt]
    split_ifs with hk hlt
    · subst hk
      simp [findKey, h]
    · simp [findKey, h]
    · simp only [findKey, ih]

/-- In a sorted map a key occurs at most once: the entries with key `k` are the one `find`
returns, if any. -/
theorem filter_key_eq {m : List ((Nat × Nat) × V)} (hs : KeySorted m) :
    m.filter (fun x => x.1 = k) = ((findKey m k).map (k, ·)).toList := by
  induction m with
  | nil => rfl
  | cons y m ih =>
    obtain ⟨k', v⟩ := y
    rw [KeySorted, List.pairwise_cons] at hs
    by_cases hk : k = k'
    · subst hk
      have hnil : m.filter (fun x => x.1 = k) = [] :=
        List.filter_eq_nil_iff.2 fun x hx hxk => by
          have h := hs.1 x hx
          rw [of_decide_eq_true hxk] at h
          exact pairLt_irrefl k h
      simp [findKey, hnil]
    · simp [findKey, hk, Ne.symm hk, ih hs.2]

/-- Seen through any `h` that sends the default to nothing, `m[k]` followed by an update
adds to the map's contents what the update adds to one value. -/
theorem perm_flatMap_modifyAt {β : Type} {h : (Nat × Nat) × V → List β} {X : List β}
    (hf : ∀ v, (h (k, f v)).Perm (h (k, v) ++ X)) (hd : h (k, d) = [])
    (m : List ((Nat × Nat) × V)) : ((modifyAt k d f m).flatMap h).Perm (m.flatMap h ++ X) := by
  induction m with
  | nil => simpa [modifyAt, hd] using hf d
  | cons y m ih =>
    obtain ⟨k', v⟩ := y
    simp only [modifyAt]
    split_ifs with hk hlt
    · subst hk
      simp only [List.flatMap_cons, List.append_assoc]
      exact ((hf v).append_right _).trans (by
        rw [List.append_assoc]
        exact List.perm_append_comm.append_left _)
    · have hX : (h (k, f d)).Perm X := by simpa [hd] using hf d
      simp only [List.flatMap_cons]
      exact (hX.append_right _).trans List.perm_append_comm
    · simp only [List.flatMap_cons, List.append_assoc]
      exact ih.append_left _

end

end Realm.Transfer
