import Parley.Proofs.JsonValues

/-!
# Documents

A document is what a text says before anything is made of it: the value with the members of its
objects in the order of the text, and all of them. `Reader.document` reads it. The value that a text
holds is its document, arranged (`Reader.value_eq`).

That two readers do the same is shown as an equation between them, which covers texts that are
refused. Only what happens inside a bracket has to be looked at: reading a scalar, a list or a loop
commutes with changing what is read.
-/

namespace Parley.Json

namespace Reader

variable {α β σ τ : Type}

/-! ### Readers as functions -/

theorem ext {r s : Reader α} (h : ∀ bytes, r.on bytes = s.on bytes) : r = s := funext h

theorem on_map (f : α → β) (r : Reader α) (bytes : List UInt8) :
    (f <$> r).on bytes = ((r.on bytes).1.map f, (r.on bytes).2) := by
  rw [map_eq_pure_bind, on_bind]
  rcases r.on bytes with ⟨_ | _, _⟩ <;> rfl

/-- It does not matter whether a value is mapped before or after its failure is placed. -/
theorem map_placed (f : α → β) (r : Reader α) : f <$> placed r = placed (f <$> r) := by
  refine ext fun bytes ↦ ?_
  rw [on_map, placed, placed, on_bind, on_bind, on_attempt, on_attempt, on_map]
  rcases r.on bytes with ⟨_ | _, _⟩ <;> rfl

/-- An attempt at a mapped reader has the mapped outcome. -/
theorem attempt_map (f : α → β) (r : Reader α) :
    (f <$> r).attempt = Except.map f <$> r.attempt := by
  refine ext fun bytes ↦ ?_
  rw [on_map, on_attempt, on_attempt, on_map]
  rfl

/-- What is enclosed may be mapped inside the brackets or outside of them. -/
theorem map_enclosed (f : α → β) (depth : Nat) (body : Nat → Reader α) (finish : Reader Unit) :
    f <$> enclosed depth body finish = enclosed depth (fun inner ↦ f <$> body inner) finish := by
  cases depth with
  | zero => rfl
  | succ inner =>
    rw [enclosed, enclosed]
    simp only [map_bind, attempt_map, bind_map_left]
    refine congrArg _ (funext fun _ ↦ congrArg _ (funext fun outcome ↦ ?_))
    refine congrArg _ (funext fun ending ↦ ?_)
    rcases outcome with _ | _ <;> rcases ending with _ | _ <;> rfl

/-- Loops in step with one another. -/
theorem map_loop {step : σ → Reader (σ ⊕ α)} {step' : τ → Reader (τ ⊕ β)} {g : σ → τ} {h : α → β}
    (hstep : ∀ s, step' (g s) = Sum.map g h <$> step s) (s : σ) :
    loop step' (g s) = h <$> loop step s := by
  have hiterate : ∀ (bound : List UInt8) (s : σ),
      iterate step' bound (g s) = h <$> iterate step bound s := by
    intro bound
    induction bound with
    | nil =>
      intro s
      rw [iterate, iterate, hstep, map_bind, bind_map_left]
      refine congrArg _ (funext fun out ↦ ?_)
      cases out <;> rfl
    | cons b bound ih =>
      intro s
      rw [iterate, iterate, hstep, map_bind, bind_map_left]
      refine congrArg _ (funext fun out ↦ ?_)
      cases out with
      | inl s' => exact ih s'
      | inr a => rfl
  rw [loop, loop, map_bind]
  exact congrArg _ (funext fun bound ↦ hiterate bound s)

theorem items_map (f : α → β) (r : Reader α) : items (f <$> r) = List.map f <$> items r := by
  refine map_loop (g := List.map f) (fun done ↦ ?_) []
  rw [map_bind, List.isEmpty_map]
  refine congrArg _ (funext fun more ↦ ?_)
  cases more with
  | false =>
    show pure (Sum.inr (List.map f done).reverse) = _
    rw [← List.map_reverse]
    rfl
  | true => simp only [if_true, map_bind, bind_map_left, map_pure, Sum.map_inl, List.map_cons]

/-! ### Documents -/

/-- A member, from behind the quote that opens its name, put behind those that are `done`. -/
def appendMember (value : Reader Json) (done : List (String × Json)) :
    Reader (List (String × Json)) := do
  let name ← string
  colon
  return done ++ [(name, ← value)]

/-- The members of an object up to its closing brace, as they come. -/
def membersInOrder (value : Reader Json) : Reader (List (String × Json)) :=
  loop (objectStep (appendMember value)) (true, [])

/-- Any value, with the members of its objects as they come; `depth` arrays and objects may be
opened inside one another. -/
def document : Nat → Reader Json
  | 0 => valueWith (failNext .tooDeep) (failNext .tooDeep)
  | depth + 1 =>
    valueWith (.array <$> enclosed (depth + 1) (fun _ ↦ items (document depth)) endList)
      (.object <$> enclosed (depth + 1) (fun _ ↦ membersInOrder (document depth)) endObject)

/-- The members that are `done`, arranged. -/
def arrangedDone (done : List (String × Json)) : List (String × Json) :=
  done.foldl (fun done p ↦ KeyedList.put p.1 p.2.arranged done) []

/-- One member more is put among those that are arranged already, where it replaces a member of its
name. -/
theorem arrangedDone_append (done : List (String × Json)) (name : String) (j : Json) :
    arrangedDone (done ++ [(name, j)]) = KeyedList.put name j.arranged (arrangedDone done) :=
  List.foldl_concat ..

/-- **Members.** Reading arranged values into a sorted object is reading the members as they come,
and arranging them. -/
theorem members_map_arranged (value : Reader Json) :
    members (arranged <$> value) = arrangedDone <$> membersInOrder value := by
  rw [members_eq]
  refine map_loop (g := Prod.map id arrangedDone) (fun s ↦ ?_) (true, [])
  simp only [objectStep, putMember, appendMember, map_bind, bind_assoc, bind_map_left, pure_bind]
  refine congrArg _ (funext fun more ↦ ?_)
  cases more with
  | false => rfl
  | true =>
    simp only [if_true, map_bind, map_pure, Sum.map_inl, Prod.map_apply, arrangedDone_append]
    rfl

/-- A function that leaves the plain values alone can be moved into lists and objects. Both ways of
reading a value are of this form. -/
theorem map_valueWith {f : Json → Json} (hnull : f .null = .null)
    (hbool : ∀ b, f (.bool b) = .bool b) (hnumber : ∀ n, f (.number n) = .number n)
    (hstring : ∀ s, f (.string s) = .string s) (list object : Reader Json) :
    f <$> valueWith list object = valueWith (f <$> list) (f <$> object) := by
  rw [valueWith, valueWith, map_placed, map_bind]
  refine congrArg placed (congrArg _ (funext fun b ↦ ?_))
  split
  · rfl
  · simp only [map_bind, map_pure, hnull]
  · simp only [map_bind, map_pure, hbool]
  · simp only [map_bind, map_pure, hbool]
  · simp only [map_bind, map_pure, hnumber]
  · simp only [map_bind, map_pure, hstring]
  · rfl
  · rfl
  · split
    · simp only [map_bind, map_pure, hnumber]
    · rfl

/-- **Values and documents.** Reading a value is reading its document and arranging it. -/
theorem value_eq (depth : Nat) : value depth = arranged <$> document depth := by
  have hscalars := map_valueWith (f := arranged) (by rw [arranged]) (fun _ ↦ by rw [arranged])
    (fun _ ↦ by rw [arranged]) (fun _ ↦ by rw [arranged])
  induction depth with
  | zero =>
    rw [document, hscalars]
    rfl
  | succ depth ih =>
    have hlist : (do return .array (← enclosed (depth + 1) (fun _ ↦ items (value depth)) endList)) =
        arranged <$>
          (.array <$> enclosed (depth + 1) (fun _ ↦ items (document depth)) endList) := by
      have hcomp : Json.array ∘ List.map arranged = arranged ∘ Json.array :=
        funext fun js ↦ (arranged_array js).symm
      rw [ih, items_map, ← map_enclosed, ← comp_map, ← hcomp, comp_map]
      exact (map_eq_pure_bind ..).symm
    have hobject :
        (do return .object (← enclosed (depth + 1) (fun _ ↦ members (value depth)) endObject)) =
        arranged <$>
          (.object <$>
            enclosed (depth + 1) (fun _ ↦ membersInOrder (document depth)) endObject) := by
      have hcomp : Json.object ∘ arrangedDone = arranged ∘ Json.object :=
        funext fun ms ↦ (arranged_object ms).symm
      rw [ih, members_map_arranged, ← map_enclosed, ← comp_map, ← hcomp, comp_map]
      exact (map_eq_pure_bind ..).symm
    rw [value, hlist, hobject, document, hscalars]

end Reader

/-- The document of a text. -/
def documentOf (text : List UInt8) : Except Complaint Json :=
  (Reader.whole (Reader.document Reader.depthLimit)).onText text

end Parley.Json
