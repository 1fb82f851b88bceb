import Mathlib.Data.List.Basic
import Parley.Proofs.Reading

/-!
# The values that texts hold

Three properties of JSON values matter for reading them back from their texts: whether they hold
doubles (`Integral`), how deeply they are nested (`Fits`), and whether the members of their objects
are in order (`InOrder`). `arranged` puts the members in order, which is what reading the text of a
value does to it; a value in order is `arranged` already. Every value that was read is in order and
nested no deeper than the reader allows (`Reader.yields_value`).
-/

namespace Parley.Json

/-! ### Properties of values -/

/-- Every number in the value is an integer of 64 bits, signed or unsigned. -/
inductive Integral : Json → Prop
  | null : Integral .null
  | bool (b : Bool) : Integral (.bool b)
  | number {n : Int} : -(Nat.pow 2 63 : Int) ≤ n → n < (Nat.pow 2 64 : Int) →
    Integral (.number (.integer n))
  | string (s : String) : Integral (.string s)
  | array {items : List Json} : (∀ j ∈ items, Integral j) → Integral (.array items)
  | object {members : List (String × Json)} :
    (∀ p ∈ members, Integral p.2) → Integral (.object members)

/-- At most `depth` arrays and objects of the value are open at once. -/
inductive Fits : Nat → Json → Prop
  | null (depth : Nat) : Fits depth .null
  | bool (depth : Nat) (b : Bool) : Fits depth (.bool b)
  | number (depth : Nat) (n : Number) : Fits depth (.number n)
  | string (depth : Nat) (s : String) : Fits depth (.string s)
  | array {depth : Nat} {items : List Json} :
    (∀ j ∈ items, Fits depth j) → Fits (depth + 1) (.array items)
  | object {depth : Nat} {members : List (String × Json)} :
    (∀ p ∈ members, Fits depth p.2) → Fits (depth + 1) (.object members)

/-- The members of every object in the value are in the order of their names, each name once. -/
inductive InOrder : Json → Prop
  | null : InOrder .null
  | bool (b : Bool) : InOrder (.bool b)
  | number (n : Number) : InOrder (.number n)
  | string (s : String) : InOrder (.string s)
  | array {items : List Json} : (∀ j ∈ items, InOrder j) → InOrder (.array items)
  | object {members : List (String × Json)} : KeyedList.Sorted members →
    (∀ p ∈ members, InOrder p.2) → InOrder (.object members)

/-! ### Arranging -/

mutual

/-- The value with the members of every object in the order of their names; of several members of
one name the last one stays. -/
def arranged : Json → Json
  | .array items => .array (arrangedItems items)
  | .object members => .object (arrangedMembers members [])
  | .null => .null
  | .bool b => .bool b
  | .number n => .number n
  | .string s => .string s

/-- Arranges every item. -/
def arrangedItems : List Json → List Json
  | [] => []
  | j :: js => j.arranged :: arrangedItems js

/-- Puts the members among those that are `done`. -/
def arrangedMembers : List (String × Json) → List (String × Json) → List (String × Json)
  | [], done => done
  | (name, j) :: ms, done => arrangedMembers ms (KeyedList.put name j.arranged done)

end

theorem arranged_array (items : List Json) :
    (Json.array items).arranged = .array (items.map arranged) := by
  have hitems : ∀ l : List Json, arrangedItems l = l.map arranged := by
    intro l
    induction l with
    | nil => rw [arrangedItems, List.map_nil]
    | cons j js ih => rw [arrangedItems, ih, List.map_cons]
  rw [arranged, hitems]

/-- An object is arranged by putting its members, arranged, one after the other. -/
theorem arranged_object (members : List (String × Json)) :
    (Json.object members).arranged =
      .object (members.foldl (fun done p ↦ KeyedList.put p.1 p.2.arranged done) []) := by
  have hmembers : ∀ (l done : List (String × Json)), arrangedMembers l done =
      l.foldl (fun done p ↦ KeyedList.put p.1 p.2.arranged done) done := by
    intro l
    induction l with
    | nil => intro done; rw [arrangedMembers, List.foldl_nil]
    | cons p l ih => intro done; rw [arrangedMembers, ih, List.foldl_cons]
  rw [arranged, hmembers]

/-- A value whose members are in order is not changed by arranging it. -/
theorem arranged_eq_self {j : Json} (h : InOrder j) : j.arranged = j := by
  induction h with
  | null | bool | number | string => rw [arranged]
  | @array items _ ih =>
    rw [arranged_array, List.map_congr_left ih, List.map_id']
  | @object members hsorted _ ih =>
    have hfold : members.foldl (fun done p ↦ KeyedList.put p.1 p.2.arranged done) [] =
        members.foldl (fun done p ↦ KeyedList.put p.1 p.2 done) [] :=
      List.foldl_ext _ _ _ fun done p hp ↦ by rw [ih p hp]
    have hnil : KeyedList.Sorted ([] ++ members) := hsorted
    rw [arranged_object, hfold, KeyedList.foldl_put_eq_append hnil, List.nil_append]

/-! ### Values that were read -/

namespace Reader

/-- What holds of every value that is neither array nor object, and of what the two readers give,
holds of everything that is read. -/
theorem yields_valueWith {P : Json → Prop} (hnull : P .null) (hbool : ∀ b, P (.bool b))
    (hnumber : ∀ n, P (.number n)) (hstring : ∀ s, P (.string s)) {list object : Reader Json}
    (hlist : Yields list P) (hobject : Yields object P) : Yields (valueWith list object) P := by
  refine .placed (.after fun b ↦ ?_)
  split
  · exact .failNext _
  · exact .after fun _ ↦ .after fun _ ↦ .pure hnull
  · exact .after fun _ ↦ .after fun _ ↦ .pure (hbool true)
  · exact .after fun _ ↦ .after fun _ ↦ .pure (hbool false)
  · exact .after fun _ ↦ .after fun n ↦ .pure (hnumber n)
  · exact .after fun _ ↦ .after fun s ↦ .pure (hstring s)
  · exact hlist
  · exact hobject
  · split
    · exact .after fun n ↦ .pure (hnumber n)
    · exact .failNext _

/-- The members of an object that was read are sorted, with each name once, and have what all values
that are read have. -/
theorem yields_members {P : Json → Prop} {value : Reader Json} (hvalue : Yields value P) :
    Yields (members value) fun ms ↦ KeyedList.Sorted ms ∧ ∀ p ∈ ms, P p.2 := by
  rw [members_eq]
  refine .objectLoop ⟨List.Pairwise.nil, fun _ h ↦ nomatch h⟩ ?_
  rintro done ⟨hsorted, hdone⟩
  refine .after fun name ↦ .after fun _ ↦ hvalue.bind fun j hj ↦ .pure ?_
  refine ⟨KeyedList.sorted_put name j hsorted, fun p hp ↦ ?_⟩
  rcases KeyedList.mem_put hp with rfl | hp
  · exact hj
  · exact hdone p hp

/-- A value that was read is in order, and nested no deeper than allowed. The induction is on how
many brackets may still be opened. -/
theorem yields_value (depth : Nat) : Yields (value depth) fun j ↦ Fits depth j ∧ InOrder j := by
  induction depth with
  | zero =>
    exact yields_valueWith ⟨.null 0, .null⟩ (fun b ↦ ⟨.bool 0 b, .bool b⟩)
      (fun n ↦ ⟨.number 0 n, .number n⟩) (fun s ↦ ⟨.string 0 s, .string s⟩) (.failNext _)
      (.failNext _)
  | succ depth ih =>
    refine yields_valueWith ⟨.null _, .null⟩ (fun b ↦ ⟨.bool _ b, .bool b⟩)
      (fun n ↦ ⟨.number _ n, .number n⟩) (fun s ↦ ⟨.string _ s, .string s⟩) ?_ ?_
    · refine .bind (.enclosed fun _ _ ↦ .items ih) fun js hjs ↦ .pure ?_
      exact ⟨.array fun j hj ↦ (hjs j hj).1, .array fun j hj ↦ (hjs j hj).2⟩
    · refine .bind (.enclosed fun _ _ ↦ yields_members ih) fun ms hms ↦ .pure ?_
      exact ⟨.object fun p hp ↦ (hms.2 p hp).1, .object hms.1 fun p hp ↦ (hms.2 p hp).2⟩

end Reader

end Parley.Json
