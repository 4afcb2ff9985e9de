/-
  Lists in which one entry is replaced: where the new list agrees with the old one, and what becomes
  of a list that every entry contributes to.  And lists whose entries were mapped and then put in
  another order.
-/
namespace OrderedAtomics

/-- An entry of a list of which one was replaced is the new one, or an old one elsewhere. -/
theorem getElem?_set_cases {β : Type} {l : List β} {i j : Nat} {a b : β}
    (h : (l.set i a)[j]? = some b) : j = i ∧ b = a ∨ j ≠ i ∧ l[j]? = some b := by
  rw [List.getElem?_set] at h
  by_cases hij : i = j
  · rw [if_pos hij] at h
    split at h
    · exact .inl ⟨hij.symm, (Option.some.inj h).symm⟩
    · cases h
  · rw [if_neg hij] at h
    exact .inr ⟨Ne.symm hij, h⟩

theorem getElem?_set_eq {β : Type} {l : List β} {i : Nat} {a b : β}
    (h : (l.set i a)[i]? = some b) : b = a := by
  rcases getElem?_set_cases h with ⟨-, h⟩ | ⟨h, -⟩
  · exact h
  · exact absurd rfl h

theorem set_of_getElem? {β : Type} {l : List β} {i : Nat} {a : β} (h : l[i]? = some a) :
    l.set i a = l := by
  obtain ⟨hi, ha⟩ := List.getElem?_eq_some_iff.mp h
  rw [← ha, List.set_getElem_self]

theorem zip_set {β γ : Type} {ps : List γ} {l : List β} {i : Nat} {p : γ} (hp : ps[i]? = some p)
    (b : β) : ps.zip (l.set i b) = (ps.zip l).set i (p, b) := by
  induction ps generalizing l i with
  | nil => cases hp
  | cons p' ps ih =>
    cases l with
    | nil => rfl
    | cons c l =>
      cases i with
      | zero =>
        rw [List.getElem?_cons_zero, Option.some.injEq] at hp
        rw [hp]
        rfl
      | succ i => exact congrArg ((p', c) :: ·) (ih hp)

/-- Where no other entry contributes, the new one alone does. -/
theorem flatMap_set_eq {β γ : Type} {f : β → List γ} {l : List β} {i : Nat} (hi : i < l.length)
    (h : ∀ j b, j ≠ i → l[j]? = some b → f b = []) (a : β) : (l.set i a).flatMap f = f a := by
  induction l generalizing i with
  | nil => cases hi
  | cons c l ih =>
    cases i with
    | zero =>
      have hrest : l.flatMap f = [] := by
        refine List.flatMap_eq_nil_iff.mpr fun b hb => ?_
        obtain ⟨j, hj⟩ := List.mem_iff_getElem?.mp hb
        exact h (j + 1) b (Nat.succ_ne_zero j) hj
      rw [List.set_cons_zero, List.flatMap_cons, hrest, List.append_nil]
    | succ i =>
      have hfirst : f c = [] := h 0 c (Nat.succ_ne_zero i).symm rfl
      have hrest := ih (Nat.lt_of_succ_lt_succ hi) fun j b hne hb =>
        h (j + 1) b (fun e => hne (Nat.succ_inj.mp e)) hb
      rw [List.set_cons_succ, List.flatMap_cons, hfirst, List.nil_append, hrest]

/-- The items of one entry of a list stand apart from those of the others, whatever the entry is
replaced with. -/
theorem flatMap_set_perm {β γ : Type} (f : β → List γ) {l : List β} {i : Nat} {a : β}
    (hi : l[i]? = some a) :
    ∃ others, (l.flatMap f).Perm (f a ++ others) ∧
      ∀ b, ((l.set i b).flatMap f).Perm (f b ++ others) := by
  induction l generalizing i with
  | nil => cases hi
  | cons c l ih =>
    cases i with
    | zero =>
      rw [List.getElem?_cons_zero, Option.some.injEq] at hi
      rw [hi]
      exact ⟨l.flatMap f, List.Perm.refl _, fun b => List.Perm.refl _⟩
    | succ i =>
      rw [List.getElem?_cons_succ] at hi
      obtain ⟨others, h1, h2⟩ := ih hi
      refine ⟨f c ++ others, ?_, fun b => ?_⟩
      · exact (h1.append_left (f c)).trans (List.perm_append_comm_assoc _ _ _)
      · exact ((h2 b).append_left (f c)).trans (List.perm_append_comm_assoc _ _ _)

/-- Lists that are permutations of a mapped list are the images of permutations of the list. -/
theorem perm_of_map {β γ : Type} {f : β → γ} {l : List γ} {l' : List β} (h : l.Perm (l'.map f)) :
    ∃ k : List β, k.Perm l' ∧ k.map f = l := by
  induction l' generalizing l with
  | nil => exact ⟨[], List.Perm.refl _, (List.perm_nil.mp h).symm⟩
  | cons b l' ih =>
    obtain ⟨before, after, rfl⟩ := List.append_of_mem (h.mem_iff.mpr List.mem_cons_self)
    obtain ⟨k, hk, hmap⟩ := ih (List.perm_middle.symm.trans h).cons_inv
    obtain ⟨k₁, k₂, rfl, rfl, rfl⟩ := List.map_eq_append_iff.mp hmap
    refine ⟨k₁ ++ b :: k₂, List.perm_middle.trans (hk.cons b), ?_⟩
    rw [List.map_append, List.map_cons]

end OrderedAtomics
