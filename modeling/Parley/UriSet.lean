/-!
# Sets of URIs

A `UriSet` lists its members in increasing code-point order, each once, so equal sets are equal
values and a listing never depends on how the set was built. `UriSet.ext` reduces equality to
membership, and each operation has one lemma that says what its members are.
-/

namespace Parley

namespace UriList

/-- Puts `u` before the first larger member, unless it is there already. -/
def put (u : String) : List String → List String
  | [] => [u]
  | v :: rest => if u < v then u :: v :: rest else if u = v then v :: rest else v :: put u rest

/-- Putting a URI adds it and nothing else. -/
theorem mem_put {u v : String} : ∀ {l : List String}, v ∈ put u l ↔ v = u ∨ v ∈ l
  | [] => by simp [put]
  | w :: rest => by
    unfold put
    split
    · simp
    · split
      · rename_i h
        simp [h]
      · simp [mem_put, or_left_comm]

/-- Putting keeps the order. -/
theorem pairwise_put (u : String) :
    ∀ {l : List String}, l.Pairwise (· < ·) → (put u l).Pairwise (· < ·)
  | [], _ => List.pairwise_singleton _ _
  | v :: rest, h => by
    obtain ⟨hhead, htail⟩ := List.pairwise_cons.mp h
    unfold put
    split
    · rename_i hlt
      refine List.pairwise_cons.mpr ⟨fun w hw ↦ ?_, h⟩
      rcases List.mem_cons.mp hw with rfl | hw
      · exact hlt
      · exact String.lt_trans hlt (hhead w hw)
    · split
      · exact h
      · rename_i hnlt hne
        refine List.pairwise_cons.mpr ⟨fun w hw ↦ ?_, pairwise_put u htail⟩
        rcases mem_put.mp hw with rfl | hw
        · rcases Classical.em (v < w) with hlt | hge
          · exact hlt
          · exact absurd (String.le_antisymm (String.not_lt.mp hge) (String.not_lt.mp hnlt)) hne
        · exact hhead w hw

/-- Lists in order with the same members are equal. -/
theorem eq_of_mem_iff :
    ∀ {l m : List String}, l.Pairwise (· < ·) → m.Pairwise (· < ·) → (∀ u, u ∈ l ↔ u ∈ m) → l = m
  | [], [], _, _, _ => rfl
  | [], v :: m, _, _, h => absurd ((h v).mpr List.mem_cons_self) List.not_mem_nil
  | v :: l, [], _, _, h => absurd ((h v).mp List.mem_cons_self) List.not_mem_nil
  | v :: l, w :: m, hl, hm, h => by
    obtain ⟨hlh, hlt⟩ := List.pairwise_cons.mp hl
    obtain ⟨hmh, hmt⟩ := List.pairwise_cons.mp hm
    have hvw : v = w := by
      rcases List.mem_cons.mp ((h v).mp List.mem_cons_self) with hv | hv
      · exact hv
      rcases List.mem_cons.mp ((h w).mpr List.mem_cons_self) with hw | hw
      · exact hw.symm
      exact absurd (String.lt_trans (hlh w hw) (hmh v hv)) (String.lt_irrefl v)
    subst hvw
    have hrest : ∀ u, u ∈ l ↔ u ∈ m := by
      intro u
      constructor
      · intro hu
        rcases List.mem_cons.mp ((h u).mp (List.mem_cons_of_mem _ hu)) with rfl | hm'
        · exact absurd (hlh _ hu) (String.lt_irrefl _)
        · exact hm'
      · intro hu
        rcases List.mem_cons.mp ((h u).mpr (List.mem_cons_of_mem _ hu)) with rfl | hl'
        · exact absurd (hmh _ hu) (String.lt_irrefl _)
        · exact hl'
    rw [eq_of_mem_iff hlt hmt hrest]

end UriList

/-- A finite set of URIs. -/
structure UriSet where
  /-- The members, in increasing order. -/
  toList : List String
  /-- No member occurs twice, and they increase. -/
  sorted : toList.Pairwise (· < ·)
  deriving DecidableEq

namespace UriSet

/-- The set without members. -/
def empty : UriSet := ⟨[], List.Pairwise.nil⟩

instance : EmptyCollection UriSet := ⟨empty⟩

instance : Inhabited UriSet := ⟨empty⟩

instance : Membership String UriSet := ⟨fun s u ↦ u ∈ s.toList⟩

instance (u : String) (s : UriSet) : Decidable (u ∈ s) := inferInstanceAs (Decidable (u ∈ s.toList))

/-- Adds one member. -/
def insert (s : UriSet) (u : String) : UriSet :=
  ⟨UriList.put u s.toList, UriList.pairwise_put u s.sorted⟩

/-- The members of a list; repetitions collapse. -/
def ofList (l : List String) : UriSet := l.foldl insert empty

/-- The set has no member. -/
def isEmpty (s : UriSet) : Bool := s.toList.isEmpty

/-- The members of either set. -/
def union (s t : UriSet) : UriSet := t.toList.foldl insert s

/-- The members of `s` that are not members of `t`. -/
def diff (s t : UriSet) : UriSet :=
  ⟨s.toList.filter fun u ↦ decide (u ∉ t), s.sorted.filter _⟩

@[simp] theorem mem_toList {s : UriSet} {u : String} : u ∈ s.toList ↔ u ∈ s := Iff.rfl

@[simp] theorem not_mem_empty (u : String) : u ∉ empty := List.not_mem_nil

/-- A set is determined by its members. -/
theorem ext {s t : UriSet} (h : ∀ u, u ∈ s ↔ u ∈ t) : s = t := by
  obtain ⟨l, hl⟩ := s
  obtain ⟨m, hm⟩ := t
  have : l = m := UriList.eq_of_mem_iff hl hm h
  subst this
  rfl

@[simp] theorem mem_insert {s : UriSet} {u v : String} : v ∈ s.insert u ↔ v = u ∨ v ∈ s :=
  UriList.mem_put

/-- Inserting the URIs of a list adds them all. -/
theorem mem_foldl_insert {u : String} {l : List String} :
    ∀ {s : UriSet}, u ∈ l.foldl insert s ↔ u ∈ s ∨ u ∈ l := by
  induction l with
  | nil => simp
  | cons v rest ih =>
    intro s
    rw [List.foldl_cons, ih, mem_insert, List.mem_cons]
    constructor
    · rintro ((rfl | h) | h) <;> simp [*]
    · rintro (h | rfl | h) <;> simp [*]

@[simp] theorem mem_ofList {u : String} {l : List String} : u ∈ ofList l ↔ u ∈ l := by
  simp [ofList, mem_foldl_insert]

@[simp] theorem mem_union {s t : UriSet} {u : String} : u ∈ s.union t ↔ u ∈ s ∨ u ∈ t := by
  simp [union, mem_foldl_insert]

@[simp] theorem mem_diff {s t : UriSet} {u : String} : u ∈ s.diff t ↔ u ∈ s ∧ u ∉ t := by
  show u ∈ s.toList.filter _ ↔ _
  simp

end UriSet

end Parley
