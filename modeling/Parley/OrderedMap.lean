/-!
# Maps kept in the order of their keys

`OrderedMap α` holds at most one value per text key, as a list of pairs whose keys strictly
increase. The order is that of code points, so a listing of a map never depends on the history of
its insertions.

**One view.** Everything is read through `get?`: every operation has an equation that says what it
does to `get?`, and `OrderedMap.ext` says that two maps with the same `get?` are the same map.
-/

namespace Parley

universe u v

/-! ### Pairs with increasing keys -/

namespace KeyedList

variable {α : Type u} {β : Type v}

/-- The value of the first pair with key `k`. -/
def find? (k : String) : List (String × α) → Option α
  | [] => none
  | (k', a) :: rest => if k = k' then some a else find? k rest

/-- Puts `a` under `k` before the first larger key; a value already under `k` is replaced. -/
def put (k : String) (a : α) : List (String × α) → List (String × α)
  | [] => [(k, a)]
  | (k', b) :: rest =>
    if k < k' then (k, a) :: (k', b) :: rest
    else if k = k' then (k, a) :: rest
    else (k', b) :: put k a rest

/-- Applies `f` to the value under `k`; other pairs stay as they are. -/
def adjust (k : String) (f : α → α) : List (String × α) → List (String × α)
  | [] => []
  | (k', b) :: rest => if k = k' then (k', f b) :: rest else (k', b) :: adjust k f rest

/-- Takes out the first pair with key `k`. -/
def remove (k : String) : List (String × α) → List (String × α)
  | [] => []
  | (k', b) :: rest => if k = k' then rest else (k', b) :: remove k rest

/-- The keys strictly increase. -/
def Sorted (l : List (String × α)) : Prop := l.Pairwise fun a b ↦ a.1 < b.1

theorem lt_of_not_lt_of_ne {a b : String} (h : ¬a < b) (hne : a ≠ b) : b < a := by
  rcases Classical.em (b < a) with hlt | hge
  · exact hlt
  · exact absurd (String.le_antisymm (String.not_lt.mp hge) (String.not_lt.mp h)) hne

theorem ne_of_lt {a b : String} (h : a < b) : a ≠ b := fun e ↦ String.lt_irrefl b (e ▸ h)

/-- What is in a list after `put` was put or is old. -/
theorem mem_put {k : String} {a : α} {p : String × α} :
    ∀ {l : List (String × α)}, p ∈ put k a l → p = (k, a) ∨ p ∈ l
  | [], h => by simpa [put] using h
  | (k', b) :: rest, h => by
    unfold put at h
    split at h
    · simpa using h
    · split at h
      · rcases List.mem_cons.mp h with h | h
        · exact Or.inl h
        · exact Or.inr (List.mem_cons_of_mem _ h)
      · rcases List.mem_cons.mp h with h | h
        · exact Or.inr (h ▸ List.mem_cons_self)
        · exact (mem_put h).imp_right (List.mem_cons_of_mem _)

/-- What is left after `remove` was there. -/
theorem mem_remove {k : String} {p : String × α} :
    ∀ {l : List (String × α)}, p ∈ remove k l → p ∈ l
  | [], h => h
  | (k', b) :: rest, h => by
    unfold remove at h
    split at h
    · exact List.mem_cons_of_mem _ h
    · rcases List.mem_cons.mp h with h | h
      · exact h ▸ List.mem_cons_self
      · exact List.mem_cons_of_mem _ (mem_remove h)

/-- Adjusting values leaves the keys. -/
theorem key_mem_of_mem_adjust {k : String} {f : α → α} {p : String × α} :
    ∀ {l : List (String × α)}, p ∈ adjust k f l → ∃ q ∈ l, q.1 = p.1
  | [], h => by simp [adjust] at h
  | (k', b) :: rest, h => by
    unfold adjust at h
    split at h <;> rcases List.mem_cons.mp h with h | h
    · exact ⟨(k', b), List.mem_cons_self, h ▸ rfl⟩
    · exact ⟨p, List.mem_cons_of_mem _ h, rfl⟩
    · exact ⟨(k', b), List.mem_cons_self, h ▸ rfl⟩
    · obtain ⟨q, hq, he⟩ := key_mem_of_mem_adjust h
      exact ⟨q, List.mem_cons_of_mem _ hq, he⟩

/-- Putting keeps the order of the keys, which is what `put` looks for its place by. -/
theorem sorted_put (k : String) (a : α) :
    ∀ {l : List (String × α)}, Sorted l → Sorted (put k a l)
  | [], _ => List.pairwise_singleton _ _
  | (k', b) :: rest, h => by
    obtain ⟨hhead, htail⟩ := List.pairwise_cons.mp h
    unfold put
    split
    · rename_i hlt
      refine List.pairwise_cons.mpr ⟨fun p hp ↦ ?_, h⟩
      rcases List.mem_cons.mp hp with rfl | hp
      · exact hlt
      · exact String.lt_trans hlt (hhead p hp)
    · split
      · rename_i heq
        exact List.pairwise_cons.mpr ⟨fun p hp ↦ heq ▸ hhead p hp, htail⟩
      · rename_i hnlt hne
        refine List.pairwise_cons.mpr ⟨fun p hp ↦ ?_, sorted_put k a htail⟩
        rcases mem_put hp with rfl | hp
        · exact lt_of_not_lt_of_ne hnlt hne
        · exact hhead p hp

theorem sorted_adjust (k : String) (f : α → α) :
    ∀ {l : List (String × α)}, Sorted l → Sorted (adjust k f l)
  | [], _ => List.Pairwise.nil
  | (k', b) :: rest, h => by
    obtain ⟨hhead, htail⟩ := List.pairwise_cons.mp h
    unfold adjust
    split
    · exact List.pairwise_cons.mpr ⟨hhead, htail⟩
    · refine List.pairwise_cons.mpr ⟨fun p hp ↦ ?_, sorted_adjust k f htail⟩
      obtain ⟨q, hq, he⟩ := key_mem_of_mem_adjust hp
      exact he ▸ hhead q hq

/-- Removing keeps the order of the keys. -/
theorem sorted_remove (k : String) :
    ∀ {l : List (String × α)}, Sorted l → Sorted (remove k l)
  | [], _ => List.Pairwise.nil
  | (k', b) :: rest, h => by
    obtain ⟨hhead, htail⟩ := List.pairwise_cons.mp h
    unfold remove
    split
    · exact htail
    · exact List.pairwise_cons.mpr ⟨fun p hp ↦ hhead p (mem_remove hp), sorted_remove k htail⟩

/-- A key below all keys of the list is not found. -/
theorem find?_eq_none_of_lt {k : String} {l : List (String × α)} (h : ∀ p ∈ l, k < p.1) :
    find? k l = none := by
  induction l with
  | nil => rfl
  | cons p rest ih =>
    rw [find?, if_neg (ne_of_lt (h p List.mem_cons_self))]
    exact ih fun q hq ↦ h q (List.mem_cons_of_mem _ hq)

theorem find?_put_self (k : String) (a : α) :
    ∀ l : List (String × α), find? k (put k a l) = some a
  | [] => by simp [put, find?]
  | (k', b) :: rest => by
    unfold put
    split
    · simp [find?]
    · split
      · simp [find?]
      · rename_i hne
        simp [find?, hne, find?_put_self k a rest]

theorem find?_put_ne {k k' : String} (h : k' ≠ k) (a : α) :
    ∀ l : List (String × α), find? k' (put k a l) = find? k' l
  | [] => by simp [put, find?, h]
  | (j, b) :: rest => by
    unfold put
    split
    · simp [find?, h]
    · split
      · rename_i hj
        simp [find?, h, ← hj]
      · simp [find?, find?_put_ne h a rest]

/-- Adjusting changes what is found under the one key. -/
theorem find?_adjust (k k' : String) (f : α → α) :
    ∀ l : List (String × α),
      find? k' (adjust k f l) = (find? k' l).map fun a ↦ if k' = k then f a else a
  | [] => rfl
  | (j, b) :: rest => by
    have ih := find?_adjust k k' f rest
    unfold adjust
    by_cases hj : k = j <;> by_cases hk : k' = j
    · simp [find?, hj, hk]
    · rw [if_pos hj]
      simp only [find?, if_neg hk]
      rcases find? k' rest with - | a
      · rfl
      · simp [show k' ≠ k from fun e ↦ hk (e.trans hj)]
    · simp [find?, hj, hk, show j ≠ k from fun e ↦ hj e.symm]
    · simp [find?, hj, hk, ih]

/-- After `remove` the key is gone. In a list that is not sorted it could come again. -/
theorem find?_remove_self {k : String} :
    ∀ {l : List (String × α)}, Sorted l → find? k (remove k l) = none
  | [], _ => rfl
  | (k', b) :: rest, h => by
    obtain ⟨hhead, htail⟩ := List.pairwise_cons.mp h
    unfold remove
    split
    · rename_i heq
      exact find?_eq_none_of_lt fun p hp ↦ heq ▸ hhead p hp
    · rename_i hne
      simp [find?, hne, find?_remove_self htail]

theorem find?_remove_ne {k k' : String} (h : k' ≠ k) :
    ∀ l : List (String × α), find? k' (remove k l) = find? k' l
  | [] => rfl
  | (j, b) :: rest => by
    unfold remove
    split
    · rename_i hj
      simp [find?, h, ← hj]
    · simp [find?, find?_remove_ne h rest]

theorem mem_of_find?_eq_some {k : String} {a : α} :
    ∀ {l : List (String × α)}, find? k l = some a → (k, a) ∈ l
  | [], h => by simp [find?] at h
  | (k', b) :: rest, h => by
    unfold find? at h
    split at h
    · rename_i heq
      rw [heq, ← Option.some.inj h]
      exact List.mem_cons_self
    · exact List.mem_cons_of_mem _ (mem_of_find?_eq_some h)

/-- In a sorted list every entry is the one that is found under its key. -/
theorem find?_eq_some_of_mem {k : String} {a : α} :
    ∀ {l : List (String × α)}, Sorted l → (k, a) ∈ l → find? k l = some a
  | (k', b) :: rest, hs, h => by
    obtain ⟨hhead, htail⟩ := List.pairwise_cons.mp hs
    rcases List.mem_cons.mp h with h | h
    · cases h
      simp [find?]
    · rw [find?, if_neg (ne_of_lt (hhead _ h)).symm]
      exact find?_eq_some_of_mem htail h

/-- A new key makes the list one longer. -/
theorem length_put {k : String} (a : α) :
    ∀ {l : List (String × α)}, find? k l = none → (put k a l).length = l.length + 1
  | [], _ => rfl
  | (k', b) :: rest, h => by
    have hne : k ≠ k' := fun he ↦ by simp [find?, he] at h
    have hrest : find? k rest = none := by simpa [find?, hne] using h
    unfold put
    split
    · rfl
    · rw [List.length_cons, length_put a hrest, List.length_cons]

theorem length_adjust (k : String) (f : α → α) :
    ∀ l : List (String × α), (adjust k f l).length = l.length
  | [] => rfl
  | (k', b) :: rest => by
    unfold adjust
    split
    · rfl
    · rw [List.length_cons, length_adjust k f rest, List.length_cons]

/-- Changing all values changes what is found, under any key. -/
theorem find?_map (f : α → β) (k : String) :
    ∀ l : List (String × α), find? k (l.map fun p ↦ (p.1, f p.2)) = (find? k l).map f
  | [] => rfl
  | (k', a) :: rest => by
    rw [List.map_cons, find?, find?]
    split
    · rfl
    · exact find?_map f k rest

/-- Sorted lists with the same look-ups are equal. -/
theorem eq_of_find?_eq :
    ∀ {l m : List (String × α)}, Sorted l → Sorted m → (∀ k, find? k l = find? k m) → l = m
  | [], [], _, _, _ => rfl
  | [], (k, a) :: m, _, _, h => by simpa [find?] using h k
  | (k, a) :: l, [], _, _, h => by simpa [find?] using h k
  | (k, a) :: l, (j, b) :: m, hl, hm, h => by
    obtain ⟨hlh, hlt⟩ := List.pairwise_cons.mp hl
    obtain ⟨hmh, hmt⟩ := List.pairwise_cons.mp hm
    have hkj : k = j := by
      rcases Classical.em (k = j) with he | hne
      · exact he
      have hk : find? k ((j, b) :: m) = some a := by rw [← h k]; simp [find?]
      have hj : find? j ((k, a) :: l) = some b := by rw [h j]; simp [find?]
      rw [find?, if_neg hne] at hk
      rw [find?, if_neg (Ne.symm hne)] at hj
      exact absurd (String.lt_trans (hmh _ (mem_of_find?_eq_some hk))
        (hlh _ (mem_of_find?_eq_some hj))) (String.lt_irrefl j)
    subst hkj
    have hab : a = b := by simpa [find?] using h k
    subst hab
    have hrest : ∀ i, find? i l = find? i m := by
      intro i
      rcases Classical.em (i = k) with rfl | hne
      · rw [find?_eq_none_of_lt hlh, find?_eq_none_of_lt hmh]
      · simpa [find?, hne] using h i
    rw [eq_of_find?_eq hlt hmt hrest]

/-- A new key only adds its pair. -/
theorem perm_put {k : String} (a : α) :
    ∀ {l : List (String × α)}, k ∉ l.map (·.1) → (put k a l).Perm ((k, a) :: l)
  | [], _ => .refl _
  | (k', b) :: rest, h => by
    have hrest := List.not_mem_of_not_mem_cons h
    unfold put
    split
    · exact .refl _
    · rw [if_neg (List.ne_of_not_mem_cons h)]
      exact (List.Perm.cons _ (perm_put a hrest)).trans (.swap _ _ _)

/-- A key beyond all others goes to the end. -/
theorem put_eq_append {k : String} (a : α) :
    ∀ {l : List (String × α)}, (∀ p ∈ l, p.1 < k) → put k a l = l ++ [(k, a)]
  | [], _ => rfl
  | (k', b) :: rest, h => by
    obtain ⟨hhead, htail⟩ := List.forall_mem_cons.mp h
    have hnlt : ¬k < k' := fun hlt ↦ String.lt_irrefl k (String.lt_trans hlt hhead)
    rw [put, if_neg hnlt, if_neg (ne_of_lt hhead).symm, put_eq_append a htail, List.cons_append]

/-- Putting pairs whose keys increase one after another appends them. -/
theorem foldl_put_eq_append :
    ∀ {l done : List (String × α)}, Sorted (done ++ l) →
      l.foldl (fun done p ↦ put p.1 p.2 done) done = done ++ l
  | [], done, _ => (List.append_nil done).symm
  | p :: l, done, h => by
    have hlast : ∀ q ∈ done, q.1 < p.1 := fun q hq ↦
      (List.pairwise_append.mp h).2.2 q hq p List.mem_cons_self
    have hstep : Sorted ((done ++ [p]) ++ l) := by rwa [List.append_assoc]
    rw [List.foldl_cons, put_eq_append p.2 hlast, foldl_put_eq_append hstep, List.append_assoc]
    rfl

end KeyedList

/-! ### The map -/

/-- A finite map from texts, listed in increasing order of its keys. -/
structure OrderedMap (α : Type u) where
  /-- The pairs, by increasing key. -/
  entries : List (String × α)
  /-- No key occurs twice, and the keys increase. -/
  sorted : KeyedList.Sorted entries
  deriving DecidableEq

namespace OrderedMap

variable {α : Type u} {β : Type v}

/-- The map without entries. -/
def empty : OrderedMap α := ⟨[], List.Pairwise.nil⟩

instance : EmptyCollection (OrderedMap α) := ⟨empty⟩

instance : Inhabited (OrderedMap α) := ⟨empty⟩

/-- The value under `k`. -/
def get? (m : OrderedMap α) (k : String) : Option α := KeyedList.find? k m.entries

/-- There is a value under `k`. -/
def contains (m : OrderedMap α) (k : String) : Bool := (m.get? k).isSome

/-- Puts `a` under `k`, in the place of an earlier value. -/
def insert (m : OrderedMap α) (k : String) (a : α) : OrderedMap α :=
  ⟨KeyedList.put k a m.entries, KeyedList.sorted_put k a m.sorted⟩

/-- Applies `f` to the value under `k`, if there is one. -/
def modify (m : OrderedMap α) (k : String) (f : α → α) : OrderedMap α :=
  ⟨KeyedList.adjust k f m.entries, KeyedList.sorted_adjust k f m.sorted⟩

/-- The map without `k`. -/
def erase (m : OrderedMap α) (k : String) : OrderedMap α :=
  ⟨KeyedList.remove k m.entries, KeyedList.sorted_remove k m.sorted⟩

/-- Applies `f` to every value. -/
def map (f : α → β) (m : OrderedMap α) : OrderedMap β :=
  ⟨m.entries.map fun p ↦ (p.1, f p.2), by
    simpa only [KeyedList.Sorted, List.pairwise_map] using m.sorted⟩

/-- The keys, in increasing order. -/
def keys (m : OrderedMap α) : List String := m.entries.map (·.1)

/-- The values, in the order of their keys. -/
def values (m : OrderedMap α) : List α := m.entries.map (·.2)

/-- How many entries there are. -/
def size (m : OrderedMap α) : Nat := m.entries.length

/-- There is no entry. -/
def isEmpty (m : OrderedMap α) : Bool := m.entries.isEmpty

/-- Inserts the pairs from left to right, so the last pair of a key stays. -/
def ofList (l : List (String × α)) : OrderedMap α :=
  l.foldl (fun m p ↦ m.insert p.1 p.2) empty

/-- A map is determined by its look-ups. -/
theorem ext {m n : OrderedMap α} (h : ∀ k, m.get? k = n.get? k) : m = n := by
  obtain ⟨l, hl⟩ := m
  obtain ⟨r, hr⟩ := n
  have : l = r := KeyedList.eq_of_find?_eq hl hr h
  subst this
  rfl

@[simp] theorem get?_empty (k : String) : (empty : OrderedMap α).get? k = none := rfl

@[simp] theorem get?_insert_self (m : OrderedMap α) (k : String) (a : α) :
    (m.insert k a).get? k = some a := KeyedList.find?_put_self k a m.entries

theorem get?_insert_ne (m : OrderedMap α) {k k' : String} (h : k' ≠ k) (a : α) :
    (m.insert k a).get? k' = m.get? k' := KeyedList.find?_put_ne h a m.entries

/-- A map is what its entries make. -/
theorem ofList_entries (m : OrderedMap α) : ofList m.entries = m := by
  have hfold : ∀ (l : List (String × α)) (n : OrderedMap α),
      (l.foldl (fun n p ↦ n.insert p.1 p.2) n).entries =
        l.foldl (fun done p ↦ KeyedList.put p.1 p.2 done) n.entries := by
    intro l
    induction l with
    | nil => exact fun _ ↦ rfl
    | cons p l ih => exact fun n ↦ ih (n.insert p.1 p.2)
  have hentries : (ofList m.entries).entries = [] ++ m.entries :=
    (hfold m.entries empty).trans (KeyedList.foldl_put_eq_append m.sorted)
  exact ext fun k ↦ congrArg (KeyedList.find? k) hentries

theorem get?_modify (m : OrderedMap α) (k k' : String) (f : α → α) :
    (m.modify k f).get? k' = (m.get? k').map fun a ↦ if k' = k then f a else a :=
  KeyedList.find?_adjust k k' f m.entries

@[simp] theorem get?_erase_self (m : OrderedMap α) (k : String) : (m.erase k).get? k = none :=
  KeyedList.find?_remove_self m.sorted

theorem get?_erase_ne (m : OrderedMap α) {k k' : String} (h : k' ≠ k) :
    (m.erase k).get? k' = m.get? k' := KeyedList.find?_remove_ne h m.entries

/-- An entry is what is found under its key. -/
theorem mem_entries_iff {m : OrderedMap α} {k : String} {a : α} :
    (k, a) ∈ m.entries ↔ m.get? k = some a :=
  ⟨KeyedList.find?_eq_some_of_mem m.sorted, KeyedList.mem_of_find?_eq_some⟩

/-- What is found after inserting: the new value under its key, and what was there elsewhere. -/
theorem get?_insert (m : OrderedMap α) (k : String) (a : α) (k' : String) :
    (m.insert k a).get? k' = if k' = k then some a else m.get? k' := by
  split
  · rename_i h
    rw [h, get?_insert_self]
  · rename_i h
    exact m.get?_insert_ne h a

/-- Of the pairs with one key the last counts, and any of them for more than what was there. -/
theorem get?_foldl_insert (l : List (String × α)) (k : String) :
    ∀ m : OrderedMap α, (l.foldl (fun m p ↦ m.insert p.1 p.2) m).get? k =
      ((l.filter fun p ↦ p.1 = k).getLast?.map (·.2)).or (m.get? k) := by
  induction l with
  | nil => exact fun _ ↦ rfl
  | cons p l ih =>
    intro m
    rw [List.foldl_cons, ih, get?_insert, List.filter_cons]
    by_cases hp : p.1 = k
    · rw [if_pos hp.symm, if_pos (decide_eq_true hp), List.getLast?_cons]
      generalize (l.filter _).getLast? = last
      cases last <;> rfl
    · rw [if_neg (Ne.symm hp), if_neg (by simpa using hp)]

/-- The value under a key is that of the last pair with the key. -/
theorem get?_ofList (l : List (String × α)) (k : String) :
    (ofList l).get? k = (l.filter fun p ↦ p.1 = k).getLast?.map (·.2) := by
  rw [ofList, get?_foldl_insert, get?_empty, Option.or_none]

@[simp] theorem get?_map (f : α → β) (m : OrderedMap α) (k : String) :
    (m.map f).get? k = (m.get? k).map f := KeyedList.find?_map f k m.entries

@[simp] theorem values_map (f : α → β) (m : OrderedMap α) : (m.map f).values = m.values.map f := by
  simp [values, map, Function.comp_def]

/-- A key is contained if something is found under it. -/
theorem contains_iff {m : OrderedMap α} {k : String} :
    m.contains k = true ↔ ∃ a, m.get? k = some a := Option.isSome_iff_exists

/-- A value is one that is found under some key. -/
theorem mem_values_iff {m : OrderedMap α} {a : α} : a ∈ m.values ↔ ∃ k, m.get? k = some a := by
  simp only [values, List.mem_map, ← mem_entries_iff]
  constructor
  · rintro ⟨p, hp, rfl⟩
    exact ⟨p.1, hp⟩
  · rintro ⟨k, hk⟩
    exact ⟨(k, a), hk, rfl⟩

/-- Changing the value of a key that is there is putting the changed value in its place. -/
theorem modify_eq_insert {m : OrderedMap α} {k : String} {a : α} (f : α → α)
    (h : m.get? k = some a) : m.modify k f = m.insert k (f a) := by
  refine ext fun k' ↦ ?_
  rw [get?_modify, get?_insert]
  split
  · rename_i hk
    rw [hk, h]
    rfl
  · exact Option.map_id'

/-- Inserting under a new key makes the map one larger. -/
theorem size_insert_of_none {m : OrderedMap α} {k : String} (h : m.get? k = none) (a : α) :
    (m.insert k a).size = m.size + 1 := KeyedList.length_put a h

/-- Putting a value in the place of another one adds no entry. -/
theorem size_insert_of_some {m : OrderedMap α} {k : String} {b : α} (h : m.get? k = some b)
    (a : α) : (m.insert k a).size = m.size := by
  rw [← modify_eq_insert (fun _ ↦ a) h]
  exact KeyedList.length_adjust k _ m.entries

end OrderedMap

end Parley
