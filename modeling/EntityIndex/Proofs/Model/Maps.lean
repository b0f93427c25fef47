import Mathlib.Data.String.Basic
import EntityIndex.Model.Record

/-!
# Maps by name and lists by position

Two kinds of table recur in the model. A sorted map is a list of pairs kept sorted by key,
written with `putSorted`: looking a key up after a put finds the new value under its key and the
old values elsewhere, and putting keeps the keys strictly sorted, so each key occurs once. Maps
by name (`insertByName`) and the entries of a bucket (`putEntry`, keys ordered by their text) are
both such maps. Pairs that are already sorted by name make the map they list
(`mapOfPairs_of_sorted`), which is how a stored map reads back. A list by position grows at its
end and is overwritten in place (`set`): what a position holds afterwards is the new element at
that position and the old one elsewhere.
-/

namespace EntityIndex

/-! ## Maps by name -/

/-- One step of `List.lookup`, as a condition on keys. -/
@[simp]
theorem lookup_cons_eq_ite {α β : Type} [DecidableEq α] (k j : α) (v : β) (rest : List (α × β)) :
    ((k, v) :: rest).lookup j = if j = k then some v else rest.lookup j := by
  by_cases h : j = k
  · subst h
    simp
  · have hne : (j == k) = false := by simpa using h
    simp [List.lookup_cons, hne, h]

/-- An entry that a lookup finds is in the list. -/
theorem mem_of_lookup_eq_some {β : Type} {l : List (String × β)} {a : String} {b : β}
    (h : l.lookup a = some b) : (a, b) ∈ l := by
  induction l with
  | nil => simp at h
  | cons p l ih =>
    obtain ⟨k, v⟩ := p
    by_cases hk : a = k
    · subst hk
      simp only [List.lookup_cons_self, Option.some.injEq] at h
      subst h
      exact List.mem_cons_self ..
    · have hk' : (a == k) = false := by simpa using hk
      simp only [List.lookup_cons, hk'] at h
      exact List.mem_cons_of_mem _ (ih h)

/-! ## Maps sorted by key -/

section Sorted

variable {κ β : Type} [LT κ] [DecidableEq κ] [DecidableLT κ]

/-- Put a value under its key in a list sorted by key: replace the pair of that key, or insert
a new pair before the first larger key. -/
def putSorted (k : κ) (v : β) : List (κ × β) → List (κ × β)
  | [] => [(k, v)]
  | (k', v') :: rest =>
    if k = k' then (k, v) :: rest
    else if k < k' then (k, v) :: (k', v') :: rest
    else (k', v') :: putSorted k v rest

/-- Looking a key up after `putSorted` finds the new value under its key and the old values
elsewhere. -/
theorem lookup_putSorted (k j : κ) (v : β) (l : List (κ × β)) :
    (putSorted k v l).lookup j = if j = k then some v else l.lookup j := by
  induction l with
  | nil => simp [putSorted]
  | cons hd rest ih =>
    obtain ⟨k', v'⟩ := hd
    -- the three cases of `putSorted`: replace the head, insert before it, or go past it
    by_cases hk : k = k'
    · subst hk
      by_cases hj : j = k <;> simp [putSorted, hj]
    · by_cases hlt : k < k'
      · simp [putSorted, hk, hlt]
      · by_cases hj : j = k'
        · subst hj
          simp [putSorted, hk, hlt, Ne.symm hk]
        · simp [putSorted, hk, hlt, hj, ih]

theorem mem_putSorted {k : κ} {v : β} {x : κ × β} :
    ∀ {l : List (κ × β)}, x ∈ putSorted k v l → x = (k, v) ∨ x ∈ l
  | [], h => by simpa [putSorted] using h
  | (k', v') :: rest, h => by
    simp only [putSorted] at h
    split_ifs at h
    · rcases List.mem_cons.mp h with h | h
      · exact .inl h
      · exact .inr (List.mem_cons_of_mem _ h)
    · rcases List.mem_cons.mp h with h | h
      · exact .inl h
      · exact .inr h
    · rcases List.mem_cons.mp h with h | h
      · exact .inr (h ▸ List.mem_cons_self)
      · rcases mem_putSorted h with h | h
        · exact .inl h
        · exact .inr (List.mem_cons_of_mem _ h)

variable [IsStrictTotalOrder κ (· < ·)]

/-- `putSorted` keeps the keys strictly sorted. -/
theorem pairwise_putSorted (k : κ) (v : β) :
    ∀ {l : List (κ × β)}, l.Pairwise (fun x y => x.1 < y.1) →
      (putSorted k v l).Pairwise (fun x y => x.1 < y.1)
  | [], _ => List.pairwise_singleton _ _
  | (k', v') :: rest, h => by
    obtain ⟨hhead, hrest⟩ := List.pairwise_cons.mp h
    simp only [putSorted]
    split_ifs with hk hlt
    · subst hk
      exact List.pairwise_cons.mpr ⟨hhead, hrest⟩
    · refine List.pairwise_cons.mpr ⟨fun y hy => ?_, List.pairwise_cons.mpr ⟨hhead, hrest⟩⟩
      rcases List.mem_cons.mp hy with rfl | hy
      · exact hlt
      · exact trans_of (· < ·) hlt (hhead y hy)
    · -- the new key is past the head, and so is every key after it
      have hgt : k' < k := (trichotomous_of (· < ·) k k').resolve_left hlt |>.resolve_left hk
      refine List.pairwise_cons.mpr ⟨fun y hy => ?_, pairwise_putSorted k v hrest⟩
      rcases mem_putSorted hy with rfl | hy
      · exact hgt
      · exact hhead y hy

/-- Putting a key past every key of a sorted map appends it. -/
theorem putSorted_of_lt {k : κ} {v : β} :
    ∀ {l : List (κ × β)}, (∀ p ∈ l, p.1 < k) → putSorted k v l = l ++ [(k, v)]
  | [], _ => rfl
  | (k', v') :: rest, h => by
    have hlt : k' < k := h (k', v') List.mem_cons_self
    have hne : k ≠ k' := fun he => irrefl_of (· < ·) k' (he ▸ hlt)
    rw [putSorted, if_neg hne, if_neg (asymm_of (· < ·) hlt),
      putSorted_of_lt fun p hp => h p (List.mem_cons_of_mem _ hp)]
    rfl

/-- Putting pairs sorted by key, each past the keys already there, appends them. -/
theorem foldl_putSorted_of_sorted :
    ∀ {acc l : List (κ × β)}, (acc ++ l).Pairwise (fun x y => x.1 < y.1) →
      l.foldl (fun acc p => putSorted p.1 p.2 acc) acc = acc ++ l
  | acc, [], _ => by simp
  | acc, (k, v) :: l, h => by
    have hk : ∀ p ∈ acc, p.1 < k := fun p hp =>
      (List.pairwise_append.mp h).2.2 p hp (k, v) List.mem_cons_self
    have h' : ((acc ++ [(k, v)]) ++ l).Pairwise (fun x y => x.1 < y.1) := by simpa using h
    rw [List.foldl_cons, putSorted_of_lt hk, foldl_putSorted_of_sorted h']
    simp

end Sorted

/-- Keys are ordered by their text, strictly and totally. -/
instance : IsStrictTotalOrder Key (· < ·) where
  trichotomous a b hab hba := by
    rcases a with ⟨a⟩
    rcases b with ⟨b⟩
    exact congrArg Key.mk (le_antisymm (not_lt.1 hba) (not_lt.1 hab))
  irrefl a := lt_irrefl a.text
  trans _ _ _ := lt_trans (α := String)

/-! ## Maps by name -/

theorem insertByName_eq_putSorted {α : Type} (k : String) (v : α) :
    ∀ l : List (String × α), insertByName k v l = putSorted k v l
  | [] => rfl
  | (k', v') :: rest => by
    simp only [insertByName, putSorted, insertByName_eq_putSorted k v rest]

theorem lookup_insertByName {α : Type} (k j : String) (v : α) (l : List (String × α)) :
    (insertByName k v l).lookup j = if j = k then some v else l.lookup j := by
  rw [insertByName_eq_putSorted]
  exact lookup_putSorted k j v l

/-- The names of a map by name are strictly sorted. -/
def NamesSorted {α : Type} (l : List (String × α)) : Prop := l.Pairwise fun x y => x.1 < y.1

theorem mem_insertByName {α : Type} {k : String} {v : α} {x : String × α}
    {l : List (String × α)} (h : x ∈ insertByName k v l) : x = (k, v) ∨ x ∈ l := by
  rw [insertByName_eq_putSorted] at h
  exact mem_putSorted h

/-- Inserting a name that is not there adds one pair and keeps every other. -/
theorem mem_insertByName_of_lookup {α : Type} {k : String} {v : α} {x : String × α} :
    ∀ {l : List (String × α)}, l.lookup k = none → (x ∈ insertByName k v l ↔ x = (k, v) ∨ x ∈ l)
  | [], _ => by simp [insertByName]
  | (k', v') :: rest, h => by
    rw [lookup_cons_eq_ite] at h
    split_ifs at h with hk
    simp only [insertByName, hk, if_false]
    split_ifs
    · simp
    · rw [List.mem_cons, mem_insertByName_of_lookup h, List.mem_cons]
      tauto

theorem namesSorted_insertByName {α : Type} (k : String) (v : α) {l : List (String × α)}
    (h : NamesSorted l) : NamesSorted (insertByName k v l) := by
  rw [insertByName_eq_putSorted]
  exact pairwise_putSorted k v h

/-- In a map by name, looking a name up finds exactly the pair of that name. -/
theorem lookup_eq_some_iff {α : Type} {k : String} {v : α} :
    ∀ {l : List (String × α)}, NamesSorted l → (l.lookup k = some v ↔ (k, v) ∈ l)
  | [], _ => by simp
  | (k', v') :: rest, h => by
    simp only [NamesSorted, List.pairwise_cons] at h
    rw [lookup_cons_eq_ite, List.mem_cons]
    split_ifs with hk
    · subst hk
      -- a later pair has a larger name, so the pair of this name is the head
      have hnot : (k, v) ∉ rest := fun hm => lt_irrefl k (h.1 _ hm)
      simp only [Option.some.injEq, Prod.mk.injEq, true_and]
      constructor
      · intro hv; exact .inl hv.symm
      · rintro (hv | hm)
        · exact hv.symm
        · exact absurd hm hnot
    · rw [lookup_eq_some_iff h.2]
      simp [hk]

theorem lookup_eq_none_iff {α : Type} {k : String} :
    ∀ {l : List (String × α)}, l.lookup k = none ↔ ∀ x ∈ l, x.1 ≠ k
  | [] => by simp
  | (k', v') :: rest => by
    rw [lookup_cons_eq_ite]
    split_ifs with hk
    · simp [hk]
    · simp [lookup_eq_none_iff (l := rest), Ne.symm hk]

/-- Inserting pairs sorted by name, each past the names already there, appends them. -/
theorem foldl_insertByName_of_sorted {α : Type} {acc l : List (String × α)}
    (h : NamesSorted (acc ++ l)) : l.foldl (fun acc p => insertByName p.1 p.2 acc) acc = acc ++ l := by
  simp only [insertByName_eq_putSorted]
  exact foldl_putSorted_of_sorted h

/-- A map made from pairs already sorted by name is those pairs. -/
theorem mapOfPairs_of_sorted {α : Type} {l : List (String × α)} (h : NamesSorted l) :
    mapOfPairs l = l :=
  @foldl_insertByName_of_sorted _ [] _ h

/-! ## Lists by position -/

theorem getElem?_push_eq_some {α : Type} {l : List α} {a x : α} {i : Nat}
    (h : (l ++ [a])[i]? = some x) : l[i]? = some x ∨ (i = l.length ∧ x = a) := by
  rcases Nat.lt_or_ge i l.length with hi | hi
  · exact .inl (by rwa [List.getElem?_append_left hi] at h)
  · rw [List.getElem?_append_right hi] at h
    -- past the old end only the pushed element is left
    cases hk : i - l.length with
    | zero =>
      simp only [hk, List.getElem?_cons_zero, Option.some.injEq] at h
      exact .inr ⟨by omega, h.symm⟩
    | succ k => simp [hk] at h

theorem getElem?_push_of_getElem? {α : Type} {l : List α} {i : Nat} {a y : α}
    (h : l[i]? = some y) : (l ++ [a])[i]? = some y := by
  rw [List.getElem?_append_left (List.getElem?_eq_some_iff.mp h).1, h]

theorem getElem?_set_eq_some {α : Type} {l : List α} {i j : Nat} {a x : α}
    (h : (l.set i a)[j]? = some x) : (j = i ∧ x = a) ∨ (j ≠ i ∧ l[j]? = some x) := by
  by_cases hj : j = i
  · subst hj
    simp only [List.getElem?_set, if_true] at h
    split at h
    · exact .inl ⟨rfl, (Option.some.inj h).symm⟩
    · cases h
  · exact .inr ⟨hj, by rwa [List.getElem?_set_ne (Ne.symm hj)] at h⟩

theorem getElem?_set_of_ne {α : Type} {l : List α} {i j : Nat} {a : α} (h : j ≠ i) :
    (l.set i a)[j]? = l[j]? :=
  List.getElem?_set_ne (Ne.symm h)

theorem getElem?_set_of_getElem? {α : Type} {l : List α} {i : Nat} {a y : α}
    (h : l[i]? = some y) : (l.set i a)[i]? = some a :=
  List.getElem?_set_self (List.getElem?_eq_some_iff.mp h).1

/-- Overwriting a position keeps every position that held something else. -/
theorem getElem?_set_of_getElem?_ne {α : Type} {l : List α} {i j : Nat} {a x y : α}
    (hi : l[i]? = some x) (hj : l[j]? = some y) (hxy : x ≠ y) : (l.set i a)[j]? = some y := by
  have hne : j ≠ i := by
    rintro rfl
    rw [hi] at hj
    exact hxy (Option.some.inj hj)
  rw [getElem?_set_of_ne hne, hj]

theorem forall_mem_push {α : Type} {P : α → Prop} {l : List α} {a : α} (hl : ∀ x ∈ l, P x)
    (ha : P a) : ∀ x ∈ l ++ [a], P x := by
  intro x hx
  rcases List.mem_append.mp hx with hx | hx
  · exact hl x hx
  · rw [List.mem_singleton.mp hx]; exact ha

theorem forall_mem_set {α : Type} {P : α → Prop} {l : List α} {i : Nat} {a : α}
    (hl : ∀ x ∈ l, P x) (ha : P a) : ∀ x ∈ l.set i a, P x := by
  intro x hx
  rcases List.mem_or_eq_of_mem_set hx with hx | rfl
  · exact hl x hx
  · exact ha

end EntityIndex
