import Mathlib.Data.List.Forall2
import Parley.Proofs.JsonValues
import Parley.Proofs.Literals

/-!
# JSON texts read back

Whatever the layout, the text of a value is read as that value with the members of its objects put
in order: `Reader.readsAs_value` for the text of a value somewhere inside another text,
`ofText_write` for whole texts. The value may hold no doubles and must not be nested too deeply.

**Layouts.** Only one thing is used of a layout: its gaps are blank (`Layout.IsBlank`). So the
statements are about all such layouts at once, the two of the library among them.
-/

namespace Parley.Json

/-! ### Layouts -/

/-- Nothing but blanks stands where the layout leaves room. -/
structure Layout.IsBlank (style : Layout) : Prop where
  gap : ∀ level, ∀ b ∈ utf8 (style.gap level), Reader.isBlank b = true
  colon : ∃ gap, utf8 style.colon = 58 :: gap ∧ ∀ b ∈ gap, Reader.isBlank b = true

/-- The compact layout leaves no room at all. -/
theorem Layout.isBlank_compact : Layout.compact.IsBlank where
  gap _ := by simp [compact]
  colon := ⟨[], rfl, by simp⟩

/-- The indented layout has blanks in its gaps and one behind a colon. -/
theorem Layout.isBlank_indented : Layout.indented.IsBlank where
  gap level b hb := by
    have hchar : ∀ c ∈ indented.gap level, c = '\n' ∨ c = ' ' := fun c hc ↦
      (List.mem_cons.mp hc).imp_right List.eq_of_mem_replicate
    obtain ⟨c, hc, hbc⟩ := List.mem_flatMap.mp hb
    rcases hchar c hc with rfl | rfl
    · cases List.mem_singleton.mp hbc
      decide
    · cases List.mem_singleton.mp hbc
      decide
  colon := ⟨[32], rfl, List.forall_mem_singleton.mpr rfl⟩

/-- Blanks and what comes behind them end a number if that does. -/
theorem ends_gap {gap rest : List UInt8} (hgap : ∀ b ∈ gap, Reader.isBlank b = true)
    (hrest : Ends rest) : Ends (gap ++ rest) := by
  cases gap with
  | nil => exact hrest
  | cons b gap =>
    have hb := hgap b List.mem_cons_self
    simp only [Reader.isBlank, Bool.or_eq_true, decide_eq_true_eq] at hb
    refine ends_cons ?_
    rcases hb with ((rfl | rfl) | rfl) | rfl <;> decide

namespace Reader

variable {α σ : Type} {style : Layout}

/-- A digit is told apart from any byte that is none. -/
theorem ne_of_isDigit {b : UInt8} (h : isDigit b = true) {p : UInt8} (hp : isDigit p = false) :
    b ≠ p := by
  rintro rfl
  exact Bool.false_ne_true (hp.symm.trans h)

theorem isBlank_of_isDigit {b : UInt8} (h : isDigit b = true) : isBlank b = false := by
  simp only [isBlank, Bool.or_eq_false_iff, decide_eq_false_iff_not]
  exact ⟨⟨⟨ne_of_isDigit h rfl, ne_of_isDigit h rfl⟩, ne_of_isDigit h rfl⟩, ne_of_isDigit h rfl⟩

/-- The first byte of an integer. -/
theorem exists_utf8_digitsOf (n : Nat) :
    ∃ b tail, utf8 (Decimal.digitsOf n) = b :: tail ∧ isDigit b = true := by
  have hdigits : ∀ c ∈ Decimal.digitsOf n, c.isDigit = true := fun c hc ↦
    Nat.isDigit_of_mem_toDigits (by decide) (by decide) hc
  obtain ⟨c, cs, hcs⟩ := List.exists_cons_of_ne_nil (Nat.toDigits_ne_nil (n := n) (b := 10))
  rw [Decimal.digitsOf, hcs] at hdigits ⊢
  rw [utf8_digits hdigits, List.map_cons]
  exact ⟨_, _, rfl, isDigit_digitByte (hdigits c List.mem_cons_self)⟩

/-- The first byte of a value: no blank and no closing bracket, and it tells `null` apart. -/
theorem exists_utf8_write (style : Layout) (level : Nat) {j : Json} (h : Integral j) :
    ∃ b tail, utf8 (write style level j) = b :: tail ∧ isBlank b = false ∧ b ≠ 93 ∧
      (b = 110 → j = .null) := by
  cases h with
  | null => exact ⟨110, _, rfl, rfl, by decide, fun _ ↦ rfl⟩
  | bool b => cases b <;> exact ⟨_, _, rfl, rfl, by decide, fun h ↦ absurd h (by decide)⟩
  | @number n =>
    obtain ⟨b, tail, htail, hb⟩ := exists_utf8_digitsOf n.natAbs
    rw [write, Number.text, Decimal.integerText]
    split
    · exact ⟨45, _, rfl, rfl, by decide, fun h ↦ absurd h (by decide)⟩
    · exact ⟨b, tail, htail, isBlank_of_isDigit hb, ne_of_isDigit hb (by decide),
        fun h ↦ absurd h (ne_of_isDigit hb (by decide))⟩
  | string s => exact ⟨34, _, rfl, rfl, by decide, fun h ↦ absurd h (by decide)⟩
  | @array items => cases items <;> exact ⟨91, _, rfl, rfl, by decide, fun h ↦ absurd h (by decide)⟩
  | @object members =>
    cases members <;> exact ⟨123, _, rfl, rfl, by decide, fun h ↦ absurd h (by decide)⟩

theorem blank_nil : ∀ b ∈ ([] : List UInt8), isBlank b = true := fun _ h ↦ nomatch h

/-- The reader makes `a` of the text of `j`, whatever blanks come before it, and leaves what comes
behind it. -/
def ReadsAs (style : Layout) (level : Nat) (r : Reader α) (j : Json) (a : α) : Prop :=
  ∀ gap rest, (∀ b ∈ gap, isBlank b = true) → Ends rest →
    r.on (gap ++ (utf8 (write style level j) ++ rest)) = (.ok a, rest)

/-! ### Arrays -/

/-- One round in an array. -/
def itemStep (item : Reader α) (done : List α) : Reader (List α ⊕ List α) := do
  if ← moveToItem done.isEmpty then return .inl ((← item) :: done) else return .inr done.reverse

/-- One round of reading a list takes one item that was written. -/
theorem on_itemStep {item : Reader α} {level : Nat} {j : Json} {a : α}
    (hitem : ReadsAs style level item j a) (hj : Integral j) (done : List α)
    {gap rest : List UInt8} (hgap : ∀ b ∈ gap, isBlank b = true) (hrest : Ends rest) :
    (itemStep item done).on (lead done.isEmpty gap ++ (utf8 (write style level j) ++ rest)) =
      (.ok (.inl (a :: done)), rest) := by
  obtain ⟨b, tail, htail, hb, hne, -⟩ := exists_utf8_write style level hj
  have hread := hitem [] rest blank_nil hrest
  rw [List.nil_append] at hread
  rw [htail, List.cons_append] at hread ⊢
  refine (on_bind_ok (on_moveToItem done.isEmpty hgap hb hne (tail ++ rest))).trans ?_
  exact on_bind_ok hread

theorem on_itemStep_end (item : Reader α) (done : List α) {gap : List UInt8}
    (hgap : ∀ b ∈ gap, isBlank b = true) (rest : List UInt8) :
    (itemStep item done).on (gap ++ 93 :: rest) = (.ok (.inr done.reverse), 93 :: rest) :=
  on_bind_ok (on_moveToItem_end done.isEmpty hgap rest)

/-- Further items are written behind a comma and a gap. -/
theorem utf8_writeItems_cons (style : Layout) (level : Nat) (j : Json) (js : List Json) :
    utf8 (writeItems style level (j :: js)) =
      44 :: (utf8 (style.gap level) ++
        (utf8 (write style level j) ++ utf8 (writeItems style level js))) := by
  rw [writeItems, utf8_cons_ascii (by decide), utf8_append, utf8_append]
  rfl

/-- Further items do not go on with the item before them: a comma or what closes the list comes
next. -/
theorem ends_writeItems (style : Layout) (level : Nat) (js : List Json) {closing : List UInt8}
    (h : Ends closing) : Ends (utf8 (writeItems style level js) ++ closing) := by
  cases js with
  | nil => exact h
  | cons => exact ends_cons (by decide)

/-- The items after the first. The induction is on the items; each round takes one away. -/
theorem runs_writeItems (hs : style.IsBlank) {item : Reader α} {level : Nat} {js : List Json}
    {as : List α} (h : List.Forall₂ (ReadsAs style level item) js as)
    (hjs : ∀ j ∈ js, Integral j) {closing left : List UInt8} (hclosing : Ends closing)
    (hstop : ∀ done, (itemStep item done).on closing = (.ok (.inr done.reverse), left)) :
    ∀ done : List α, done ≠ [] →
      Runs (itemStep item) done (utf8 (writeItems style level js) ++ closing)
        (done.reverse ++ as) left := by
  induction h with
  | nil =>
    intro done _
    rw [List.append_nil]
    exact .stop (hstop done)
  | @cons j a js as hitem hitems ih =>
    intro done hdone
    obtain ⟨hj, hjs⟩ := List.forall_mem_cons.mp hjs
    have hstep := on_itemStep hitem hj done (hs.gap level) (ends_writeItems style level js hclosing)
    have hfirst : done.isEmpty = false := by simp [hdone]
    have hruns := ih hjs (a :: done) (List.cons_ne_nil a done)
    rw [hfirst, lead_false, List.cons_append] at hstep
    rw [List.reverse_cons, List.append_assoc] at hruns
    simp only [utf8_writeItems_cons, List.cons_append, List.append_assoc]
    refine .go hstep ?_ hruns
    simp only [List.length_cons, List.length_append]
    omega

/-- A list that is not empty is written with its items one level further in. -/
theorem utf8_write_array_cons (style : Layout) (level : Nat) (j : Json) (js : List Json) :
    utf8 (write style level (.array (j :: js))) =
      91 :: (utf8 (style.gap (level + 1)) ++ (utf8 (write style (level + 1) j) ++
        (utf8 (writeItems style (level + 1) js) ++ (utf8 (style.gap level) ++ [93])))) := by
  rw [write, utf8_cons_ascii (by decide)]
  simp only [utf8_append]
  rfl

/-- An array whose items `item` reads, with all that stands between its brackets. -/
theorem on_array (hs : style.IsBlank) {item : Nat → Reader α} {depth level : Nat}
    {js : List Json} {as : List α}
    (h : List.Forall₂ (ReadsAs style (level + 1) (item depth)) js as)
    (hjs : ∀ j ∈ js, Integral j) (rest : List UInt8) :
    (enclosed (depth + 1) (fun inner ↦ items (item inner)) endList).on
      (utf8 (write style level (.array js)) ++ rest) = (.ok as, rest) := by
  have hopen : ∀ bytes, Runs (itemStep (item depth)) [] bytes as (93 :: rest) →
      (enclosed (depth + 1) (fun inner ↦ items (item inner)) endList).on (91 :: bytes) =
        (.ok as, rest) := by
    intro bytes hruns
    have hitems : (items (item depth)).on bytes = (.ok as, 93 :: rest) := on_loop hruns
    exact on_enclosed hitems (on_endList rest)
  cases h with
  | nil =>
    exact hopen (93 :: rest) (.stop (on_bind_ok (on_moveToItem_end true blank_nil rest)))
  | @cons j a js as hitem hitems =>
    obtain ⟨hj, hjs⟩ := List.forall_mem_cons.mp hjs
    have hgap := hs.gap level
    have hclosing : Ends (utf8 (style.gap level) ++ 93 :: rest) :=
      ends_gap hgap (ends_cons (by decide))
    have hstep := on_itemStep hitem hj [] (hs.gap (level + 1))
      (ends_writeItems style (level + 1) js hclosing)
    -- the first item stands behind no comma; the others are a run of their own
    have hruns := runs_writeItems hs hitems hjs hclosing
      (fun done ↦ on_itemStep_end (item depth) done hgap rest) [a] (List.cons_ne_nil a [])
    simp only [utf8_write_array_cons, List.cons_append, List.append_assoc, List.nil_append]
    refine hopen _ (.go hstep ?_ hruns)
    obtain ⟨b, tail, htail, -⟩ := exists_utf8_write style (level + 1) hj
    simp only [htail, List.length_append, List.length_cons]
    omega

/-! ### Objects -/

/-- Reading the member from behind the quote that opens its name turns the state `s` into `s'`. -/
def MemberReads (style : Layout) (level : Nat) (body : σ → Reader σ) (s : σ)
    (member : String × Json) (s' : σ) : Prop :=
  ∀ rest, Ends rest →
    (body s).on (utf8 (member.1.toList.flatMap escape) ++
      34 :: (utf8 style.colon ++ (utf8 (write style level member.2) ++ rest))) = (.ok s', rest)

/-- The members, one after the other, turn the state `s` into the last one. -/
inductive Folds {τ : Type} (T : σ → τ → σ → Prop) : σ → List τ → σ → Prop
  | nil (s : σ) : Folds T s [] s
  | cons {s s' s'' : σ} {x : τ} {l : List τ} : T s x s' → Folds T s' l s'' → Folds T s (x :: l) s''

theorem Folds.imp {τ : Type} {T T' : σ → τ → σ → Prop} {s s' : σ} {l : List τ}
    (h : Folds T s l s') (himp : ∀ s x s', T s x s' → T' s x s') : Folds T' s l s' := by
  induction h with
  | nil s => exact .nil s
  | cons hx _ ih => exact .cons (himp _ _ _ hx) ih

theorem Folds.append {τ : Type} {T : σ → τ → σ → Prop} {s s' s'' : σ} {l m : List τ}
    (h : Folds T s l s') (h' : Folds T s' m s'') : Folds T s (l ++ m) s'' := by
  induction h with
  | nil s => exact h'
  | cons hx _ ih => exact .cons hx (ih h')

theorem Folds.forall {τ : Type} {T : σ → τ → σ → Prop} {P : τ → Prop} {s s' : σ} {l : List τ}
    (h : Folds T s l s') (hP : ∀ s x s', T s x s' → P x) : ∀ x ∈ l, P x := by
  induction h with
  | nil s => exact fun _ hx ↦ nomatch hx
  | cons hx _ ih => exact List.forall_mem_cons.mpr ⟨hP _ _ _ hx, ih⟩

/-- Members that are taken in one by one, each as `f` says. -/
theorem Folds.of_forall {τ : Type} {T : σ → τ → σ → Prop} {f : σ → τ → σ} {l : List τ}
    (h : ∀ x ∈ l, ∀ s, T s x (f s x)) (s : σ) : Folds T s l (l.foldl f s) := by
  induction l generalizing s with
  | nil => exact .nil s
  | cons x l ih =>
    obtain ⟨hx, hl⟩ := List.forall_mem_cons.mp h
    exact .cons (hx s) (ih hl (f s x))

/-- A colon is read from where the layout puts it, and leaves a gap. -/
theorem exists_on_colon (hs : style.IsBlank) :
    ∃ gap, (∀ b ∈ gap, isBlank b = true) ∧
      ∀ rest, colon.on (utf8 style.colon ++ rest) = (.ok (), gap ++ rest) := by
  obtain ⟨gap, hcolon, hgap⟩ := hs.colon
  refine ⟨gap, hgap, fun rest ↦ ?_⟩
  rw [hcolon, List.cons_append]
  exact on_colon (gap ++ rest)

/-- One round of reading an object takes one member that was written. -/
theorem on_objectStep {body : σ → Reader σ} {level : Nat} {s s' : σ} {member : String × Json}
    (h : MemberReads style level body s member s') (first : Bool) {gap rest : List UInt8}
    (hgap : ∀ b ∈ gap, isBlank b = true) (hrest : Ends rest) :
    (objectStep body (first, s)).on (lead first gap ++ (utf8 (quote member.1) ++
      (utf8 style.colon ++ (utf8 (write style level member.2) ++ rest)))) =
        (.ok (.inl (false, s')), rest) := by
  have hquote : utf8 (quote member.1) = 34 :: (utf8 (member.1.toList.flatMap escape) ++ [34]) := by
    rw [quote, utf8_cons_ascii (by decide), utf8_append]
    rfl
  rw [hquote, List.cons_append]
  refine (on_bind_ok (on_moveToMember first hgap _)).trans ?_
  refine (on_bind_ok (on_skip _)).trans ?_
  refine on_bind_ok ?_
  have hmember := h rest hrest
  simpa only [List.tail_cons, List.append_assoc, List.singleton_append] using hmember

theorem on_objectStep_end (body : σ → Reader σ) (first : Bool) (s : σ) {gap : List UInt8}
    (hgap : ∀ b ∈ gap, isBlank b = true) (rest : List UInt8) :
    (objectStep body (first, s)).on (gap ++ 125 :: rest) = (.ok (.inr s), 125 :: rest) :=
  on_bind_ok (on_moveToMember_end first hgap rest)

theorem utf8_writeMembers_cons (style : Layout) (level : Nat) (member : String × Json)
    (ms : List (String × Json)) :
    utf8 (writeMembers style level (member :: ms)) =
      44 :: (utf8 (style.gap level) ++ (utf8 (quote member.1) ++ (utf8 style.colon ++
        (utf8 (write style level member.2) ++ utf8 (writeMembers style level ms))))) := by
  rw [writeMembers, utf8_cons_ascii (by decide)]
  simp only [utf8_append]
  rfl

/-- Further members do not go on with the member before them. -/
theorem ends_writeMembers (style : Layout) (level : Nat) (ms : List (String × Json))
    {closing : List UInt8} (h : Ends closing) :
    Ends (utf8 (writeMembers style level ms) ++ closing) := by
  cases ms with
  | nil => exact h
  | cons => exact ends_cons (by decide)

/-- The members after the first. The induction is on the members; each round takes one away. -/
theorem runs_writeMembers (hs : style.IsBlank) {body : σ → Reader σ} {level : Nat} {s s' : σ}
    {ms : List (String × Json)} (h : Folds (MemberReads style level body) s ms s')
    {closing left : List UInt8} (hclosing : Ends closing)
    (hstop : ∀ s, (objectStep body (false, s)).on closing = (.ok (.inr s), left)) :
    Runs (objectStep body) (false, s) (utf8 (writeMembers style level ms) ++ closing) s' left := by
  induction h with
  | nil s => exact .stop (hstop s)
  | @cons s s₁ s₂ member ms hmember _ ih =>
    have hends := ends_writeMembers style level ms hclosing
    have hstep := on_objectStep hmember false (hs.gap level) hends
    rw [lead_false, List.cons_append] at hstep
    simp only [utf8_writeMembers_cons, List.cons_append, List.append_assoc]
    refine .go hstep ?_ ih
    simp only [List.length_cons, List.length_append]
    omega

/-- An object that is not empty is written with its members one level further in. -/
theorem utf8_write_object_cons (style : Layout) (level : Nat) (member : String × Json)
    (ms : List (String × Json)) :
    utf8 (write style level (.object (member :: ms))) =
      123 :: (utf8 (style.gap (level + 1)) ++ (utf8 (quote member.1) ++ (utf8 style.colon ++
        (utf8 (write style (level + 1) member.2) ++ (utf8 (writeMembers style (level + 1) ms) ++
          (utf8 (style.gap level) ++ [125])))))) := by
  rw [write, utf8_cons_ascii (by decide)]
  simp only [utf8_append]
  rfl

/-- An object whose members `body` reads into a state, from behind its opening brace up to its
closing one. -/
theorem exists_on_members (hs : style.IsBlank) {body : σ → Reader σ} {level : Nat} {s s' : σ}
    {ms : List (String × Json)} (h : Folds (MemberReads style (level + 1) body) s ms s')
    (rest : List UInt8) :
    ∃ bytes, utf8 (write style level (.object ms)) ++ rest = 123 :: bytes ∧
      (loop (objectStep body) (true, s)).on bytes = (.ok s', 125 :: rest) := by
  cases h with
  | nil =>
    exact ⟨125 :: rest, rfl, on_loop (.stop (on_objectStep_end body true s blank_nil rest))⟩
  | @cons _ s₁ _ member ms hmember hmembers =>
    have hgap := hs.gap level
    have hclosing : Ends (utf8 (style.gap level) ++ 125 :: rest) :=
      ends_gap hgap (ends_cons (by decide))
    have hstep := on_objectStep hmember true (hs.gap (level + 1))
      (ends_writeMembers style (level + 1) ms hclosing)
    have hruns := runs_writeMembers hs hmembers hclosing
      fun s ↦ on_objectStep_end body false s hgap rest
    refine ⟨_, ?_, on_loop (.go hstep ?_ hruns)⟩
    · simp only [utf8_write_object_cons, lead_true, List.cons_append, List.append_assoc,
        List.nil_append]
    · have hquote : 0 < (utf8 (quote member.1)).length := by
        rw [quote, utf8_cons_ascii (by decide)]
        exact Nat.succ_pos _
      simp only [List.length_append]
      omega

/-! ### Values -/

/-- A member that is read is put among those that are done. -/
theorem memberReads_putMember (hs : style.IsBlank) {value : Reader Json} {level : Nat}
    {name : String} {j j' : Json} (h : ReadsAs style level value j j')
    (done : List (String × Json)) :
    MemberReads style level (putMember value) done (name, j) (KeyedList.put name j' done) := by
  intro rest hrest
  obtain ⟨gap, hgap, hcolon⟩ := exists_on_colon hs
  refine (on_bind_ok (on_string name _)).trans ?_
  refine (on_bind_ok (hcolon _)).trans ?_
  exact on_bind_ok (h gap rest hgap hrest)

/-- Values other than arrays and objects are read alike at every depth. -/
theorem exists_value_eq (depth : Nat) : ∃ list object, value depth = valueWith list object := by
  cases depth <;> exact ⟨_, _, rfl⟩

/-- The value `null` is read back. -/
theorem readsAs_null (depth level : Nat) : ReadsAs style level (value depth) .null .null := by
  intro gap rest hgap _
  obtain ⟨list, object, hvalue⟩ := exists_value_eq depth
  rw [hvalue]
  refine on_placed_ok ?_
  refine (on_bind_ok (on_peekToken_start hgap (by decide) _)).trans ?_
  refine (on_bind_ok (on_skip _)).trans ?_
  exact on_bind_ok (on_word [117, 108, 108] rest)

theorem readsAs_bool (depth level : Nat) (b : Bool) :
    ReadsAs style level (value depth) (.bool b) (.bool b) := by
  intro gap rest hgap _
  obtain ⟨list, object, hvalue⟩ := exists_value_eq depth
  rw [hvalue]
  refine on_placed_ok ?_
  cases b with
  | false =>
    refine (on_bind_ok (on_peekToken_start hgap (by decide) _)).trans ?_
    refine (on_bind_ok (on_skip _)).trans ?_
    exact on_bind_ok (on_word [97, 108, 115, 101] rest)
  | true =>
    refine (on_bind_ok (on_peekToken_start hgap (by decide) _)).trans ?_
    refine (on_bind_ok (on_skip _)).trans ?_
    exact on_bind_ok (on_word [114, 117, 101] rest)

/-- A string as it was written, and what comes behind it. -/
theorem utf8_quote_append (s : String) (rest : List UInt8) :
    utf8 (quote s) ++ rest = 34 :: (utf8 (s.toList.flatMap escape) ++ 34 :: rest) := by
  rw [quote, utf8_cons_ascii (by decide), utf8_append, List.cons_append, List.append_assoc]
  rfl

/-- A string is read back, escapes and all. -/
theorem readsAs_string (depth level : Nat) (s : String) :
    ReadsAs style level (value depth) (.string s) (.string s) := by
  intro gap rest hgap _
  obtain ⟨list, object, hvalue⟩ := exists_value_eq depth
  rw [hvalue, write, utf8_quote_append]
  refine on_placed_ok ?_
  refine (on_bind_ok (on_peekToken_start hgap (by decide) _)).trans ?_
  refine (on_bind_ok (on_skip _)).trans ?_
  exact on_bind_ok (on_string s rest)

/-- An integer as it was written: a minus sign or the first digit is next, and the reader for what
stands behind the sign gives the integer. -/
theorem on_integer {n : Int} (hlow : -(Nat.pow 2 63 : Int) ≤ n) (hhigh : n < (Nat.pow 2 64 : Int))
    {rest : List UInt8} (hrest : Ends rest) :
    (∃ tail, utf8 (Decimal.integerText n) = 45 :: tail ∧
      (number true).on (tail ++ rest) = (.ok (.integer n), rest)) ∨
    ∃ b tail, utf8 (Decimal.integerText n) = b :: tail ∧ isDigit b = true ∧
      (number false).on (b :: (tail ++ rest)) = (.ok (.integer n), rest) := by
  rw [Decimal.integerText]
  split
  · rename_i hneg
    have hbound : n.natAbs ≤ Nat.pow 2 63 := by omega
    have hn : n.natAbs < significandBound := Nat.lt_of_le_of_lt hbound (by decide)
    have hnumber := on_number true hn hrest
    rw [wholeNumber_of_neg (by omega) hbound, Int.ofNat_natAbs_of_nonpos (Int.le_of_lt hneg),
      Int.neg_neg] at hnumber
    exact Or.inl ⟨_, utf8_cons_ascii (by decide) _, hnumber⟩
  · rename_i hnonneg
    have hn : n.natAbs < significandBound := by
      have hpow : significandBound = Nat.pow 2 64 := rfl
      omega
    have hnumber := on_number false hn hrest
    rw [wholeNumber_of_nonneg, Int.natAbs_of_nonneg (Int.not_lt.mp hnonneg)] at hnumber
    obtain ⟨b, tail, htail, hb⟩ := exists_utf8_digitsOf n.natAbs
    rw [htail, List.cons_append] at hnumber
    exact Or.inr ⟨b, tail, htail, hb, hnumber⟩

/-- An integer of 64 bits is read back, with its sign if it is negative. -/
theorem readsAs_integer (depth level : Nat) {n : Int} (hlow : -(Nat.pow 2 63 : Int) ≤ n)
    (hhigh : n < (Nat.pow 2 64 : Int)) :
    ReadsAs style level (value depth) (.number (.integer n)) (.number (.integer n)) := by
  intro gap rest hgap hrest
  obtain ⟨list, object, hvalue⟩ := exists_value_eq depth
  rw [hvalue, write, Number.text]
  refine on_placed_ok ?_
  rcases on_integer hlow hhigh hrest with ⟨tail, htail, hnumber⟩ | ⟨b, tail, htail, hb, hnumber⟩
  · rw [htail, List.cons_append]
    refine (on_bind_ok (on_peekToken_start hgap (by decide) _)).trans ?_
    refine (on_bind_ok (on_skip _)).trans ?_
    exact on_bind_ok hnumber
  · rw [htail, List.cons_append]
    refine (on_bind_ok (on_peekToken_start hgap (isBlank_of_isDigit hb) _)).trans ?_
    have hother : ∀ {p}, isDigit p = false → some b ≠ some p := fun hp h ↦
      ne_of_isDigit hb hp (Option.some.inj h)
    split
    case h_9 heq =>
      cases heq
      rw [if_pos hb]
      exact on_bind_ok hnumber
    case h_1 heq => cases heq
    all_goals exact absurd ‹_› (hother rfl)

/-- Any value reads back, its members arranged. The induction follows the brackets that have to be
open at once. -/
theorem readsAs_value (hs : style.IsBlank) {depth : Nat} {j : Json} (hfits : Fits depth j) :
    Integral j → ∀ level, ReadsAs style level (value depth) j j.arranged := by
  induction hfits with
  | null depth => intro _ level; rw [arranged]; exact readsAs_null depth level
  | bool depth b => intro _ level; rw [arranged]; exact readsAs_bool depth level b
  | number depth n =>
    rintro ⟨⟩ level
    rw [arranged]
    exact readsAs_integer depth level ‹_› ‹_›
  | string depth s => intro _ level; rw [arranged]; exact readsAs_string depth level s
  | @array depth items _ ih =>
    rintro (_ | _ | _ | _ | hitems) level gap rest hgap hrest
    have hall : List.Forall₂ (ReadsAs style (level + 1) (value depth)) items
        (items.map arranged) := by
      rw [List.forall₂_map_right_iff, List.forall₂_same]
      exact fun j hj ↦ ih j hj (hitems j hj) (level + 1)
    have harray : (enclosed (depth + 1) (fun _ ↦ Reader.items (value depth)) endList).on
        (utf8 (write style level (.array items)) ++ rest) = (.ok (items.map arranged), rest) :=
      on_array hs hall hitems rest
    obtain ⟨bytes, htext⟩ : ∃ bytes, utf8 (write style level (.array items)) ++ rest =
        91 :: bytes := by
      cases items <;> exact ⟨_, rfl⟩
    rw [htext] at harray ⊢
    rw [arranged_array]
    refine on_placed_ok ?_
    refine (on_bind_ok (on_peekToken_start hgap (by decide) _)).trans ?_
    exact on_bind_ok harray
  | @object depth members _ ih =>
    rintro (_ | _ | _ | _ | _ | hmembers) level gap rest hgap hrest
    have hall : Folds (MemberReads style (level + 1) (putMember (value depth))) [] members
        (members.foldl (fun done p ↦ KeyedList.put p.1 p.2.arranged done) []) :=
      Folds.of_forall (fun p hp done ↦
        memberReads_putMember hs (ih p hp (hmembers p hp) (level + 1)) done) []
    obtain ⟨bytes, htext, hloop⟩ := exists_on_members hs hall rest
    rw [← members_eq] at hloop
    rw [htext, arranged_object]
    refine on_placed_ok ?_
    refine (on_bind_ok (on_peekToken_start hgap (by decide) _)).trans ?_
    exact on_bind_ok (on_enclosed hloop (on_endObject rest))

/-! ### Whole texts -/

/-- A text that holds nothing but one value, and blanks behind it. -/
theorem onText_whole {r : Reader α} {j : Json} {a : α} (h : ReadsAs style 0 r j a)
    {gap : List UInt8} (hgap : ∀ b ∈ gap, isBlank b = true) :
    (whole r).onText (utf8 (write style 0 j) ++ gap) = .ok a := by
  have hends : Ends gap := by
    have hgapnil := ends_gap hgap ends_nil
    rwa [List.append_nil] at hgapnil
  have hwhole : (whole r).on (utf8 (write style 0 j) ++ gap) = (.ok a, []) := by
    refine (on_bind_ok (h [] gap blank_nil hends)).trans ?_
    exact on_bind_ok (on_finished hgap)
  rw [onText, hwhole]

end Reader

/-- The text of a value, with blanks behind it, holds the value, its members arranged. -/
theorem ofText_write {style : Layout} (hs : style.IsBlank) {j : Json}
    (hfits : Fits Reader.depthLimit j) (hint : Integral j) {gap : List Char}
    (hgap : ∀ b ∈ utf8 gap, Reader.isBlank b = true) :
    ofText (String.ofList (write style 0 j ++ gap)) = .ok j.arranged := by
  rw [ofText, ofBytes, toList_toUTF8, String.toList_ofList, utf8_append]
  exact Reader.onText_whole (Reader.readsAs_value hs hfits hint 0) hgap

end Parley.Json
