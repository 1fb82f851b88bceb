import Parley.Proofs.Decoding
import Parley.Proofs.DocumentSteps

/-!
# Texts and values are decoded alike

A decoder reads from a text what it makes of the document of the text, and refuses the text if it
refuses the document. `Decoder.Follows d N` says so for the decoder `d`; there is one lemma for each
way to build a decoder.

**Parts that are kept.** Where a decoder keeps a value as it is, a text leaves it arranged, which a
document is not yet. `N` arranges the kept parts of what was decoded from the document; for a
decoder that keeps nothing it is the identity.
-/

namespace Parley

open Json Reader

variable {α β : Type}

/-- Two steps succeed just if the first does and the second does with what the first gave. -/
theorem bind_eq_ok_iff {ε : Type} {x : Except ε β} {next : β → Except ε α} {a : α} :
    x >>= next = .ok a ↔ ∃ b, x = .ok b ∧ next b = .ok a :=
  ⟨exists_of_bind_eq_ok, fun ⟨_, hb, ha⟩ ↦ hb ▸ ha⟩

/-- What is mapped succeeds just if it does unmapped. -/
theorem map_eq_ok_iff {ε : Type} {x : Except ε β} {f : β → α} {a : α} :
    f <$> x = .ok a ↔ ∃ b, x = .ok b ∧ f b = a := by
  cases x with
  | error e => exact ⟨nofun, nofun⟩
  | ok b =>
    constructor
    · rintro ⟨⟩
      exact ⟨b, rfl, rfl⟩
    · rintro ⟨_, ⟨⟩, rfl⟩
      rfl

namespace Json.Reader

/-! ### What a reader gives -/

/-- On these bytes the reader gives what `x` gives, and leaves `left`. If `x` is a problem, the
reader fails, for whatever reason. -/
def Gives (r : Reader α) (bytes : List UInt8) (x : Except Problem α) (left : List UInt8) : Prop :=
  ∀ a l, r.on bytes = (.ok a, l) ↔ x = .ok a ∧ l = left

namespace Gives

variable {r : Reader α} {bytes mid left : List UInt8} {x : Except Problem α}

theorem of_ok {a : α} (h : r.on bytes = (.ok a, left)) : Gives r bytes (.ok a) left := by
  intro a' l
  rw [h]
  constructor
  · rintro ⟨⟩
    exact ⟨rfl, rfl⟩
  · rintro ⟨⟨⟩, rfl⟩
    rfl

/-- A reader that fails gives any problem: which one it is does not count. -/
theorem of_error {e : Problem} (h : ∀ a l, r.on bytes ≠ (.ok a, l)) :
    Gives r bytes (.error e) left := fun a l ↦ ⟨fun h' ↦ absurd h' (h a l), nofun⟩

/-- A reader that yields nothing fails on all bytes. -/
theorem of_yields {e : Problem} (h : Yields r fun _ ↦ False) : Gives r bytes (.error e) left :=
  of_error fun a l h' ↦ h bytes a l h'

/-- What two readers give in a row is what two steps give in a row. -/
theorem bind {next : α → Reader β} {y : α → Except Problem β} (hr : Gives r bytes x mid)
    (hnext : ∀ a, x = .ok a → Gives (next a) mid (y a) left) :
    Gives (r >>= next) bytes (x >>= y) left := by
  intro b l
  rw [on_bind_iff, bind_eq_ok_iff]
  constructor
  · rintro ⟨a, mid', ha, hb⟩
    obtain ⟨hx, rfl⟩ := (hr a mid').mp ha
    obtain ⟨hy, rfl⟩ := (hnext a hx b l).mp hb
    exact ⟨⟨a, hx, hy⟩, rfl⟩
  · rintro ⟨⟨a, hx, hy⟩, rfl⟩
    exact ⟨a, mid, (hr a mid).mpr ⟨hx, rfl⟩, (hnext a hx b l).mpr ⟨hy, rfl⟩⟩

/-- What comes first succeeds and has nothing to do with the result. -/
theorem after {next : β → Reader α} {r : Reader β} {b : β} (hr : r.on bytes = (.ok b, mid))
    (hnext : Gives (next b) mid x left) : Gives (r >>= next) bytes x left := by
  intro a l
  rw [on_bind_ok hr]
  exact hnext a l

theorem map (h : Gives r bytes x left) (f : α → β) : Gives (f <$> r) bytes (f <$> x) left := by
  rw [map_eq_pure_bind, map_eq_pure_bind]
  exact h.bind fun a _ ↦ of_ok rfl

theorem placed (h : Gives r bytes x left) : Gives (placed r) bytes x left := by
  intro a l
  rw [on_placed_iff]
  exact h a l

theorem enclosed {body : Nat → Reader α} {finish : Reader Unit} {inner : Nat} {opener : UInt8}
    (hbody : Gives (body inner) bytes x mid) (hfinish : finish.on mid = (.ok (), left)) :
    Gives (enclosed (inner + 1) body finish) (opener :: bytes) x left := by
  intro a l
  rw [on_enclosed_iff]
  constructor
  · rintro ⟨mid', ha, hl⟩
    obtain ⟨hx, rfl⟩ := (hbody a mid').mp ha
    cases hfinish.symm.trans hl
    exact ⟨hx, rfl⟩
  · rintro ⟨hx, rfl⟩
    exact ⟨mid, (hbody a mid).mpr ⟨hx, rfl⟩, hfinish⟩

end Gives

end Json.Reader

namespace Decoder

/-! ### Decoders that follow documents -/

/-- What the decoder reads from a text is what it makes of the document there, with the parts that
were kept put in order by `N`. -/
structure Follows (d : Decoder α) (N : α → α) : Prop where
  gives : ∀ {depth : Nat} {bytes left : List UInt8} {j : Json},
    (document depth).on bytes = (.ok j, left) →
      (d.read depth).Gives bytes (N <$> d.ofJson j) left

/-- A value of the wrong type is a problem, whatever stands behind its first byte. -/
theorem gives_readMismatch {expected : String} {b : UInt8} {bytes left : List UInt8} {e : Problem} :
    (readMismatch expected b : Reader α).Gives bytes (.error e) left :=
  .of_yields (yields_readMismatch expected b)

/-- A decoder that looks at the first byte. -/
theorem follows_of_starts {d : Decoder α} {N : α → α} {next : Nat → UInt8 → Reader α}
    (hread : ∀ depth, d.read depth = placed (valueStart >>= next depth))
    (h : ∀ {depth b rest j left}, Starts depth b rest j left →
      (next depth b).Gives (b :: rest) (N <$> d.ofJson j) left) : d.Follows N := by
  refine ⟨fun {depth bytes left j} hdocument ↦ ?_⟩
  obtain ⟨b, rest, hbytes, hstarts⟩ := starts_of_document hdocument
  have hstart : valueStart.on bytes = (.ok b, b :: rest) := by
    rw [valueStart, on_bind_ok (on_peekToken bytes), hbytes]
    rfl
  rw [hread]
  exact .placed (.after hstart (h hstarts))

/-- A reader that takes what `x` gives, or fails if `x` is a problem. -/
theorem gives_verdict {r : Reader α} {x : Except Problem α} {bytes : List UInt8}
    (hok : ∀ a, x = .ok a → r = pure a) (herror : ∀ p, x = .error p → r = failUnplaced p) :
    Gives r bytes x bytes := by
  cases x with
  | error p =>
    rw [herror p rfl]
    exact .of_error nofun
  | ok a =>
    rw [hok a rfl]
    exact .of_ok rfl

/-- A string that is parsed gives what its text is parsed as. -/
theorem gives_parse (parse : String → Except Problem α) {s : String} {rest left : List UInt8}
    (h : string.on rest = (.ok s, left)) :
    Gives (do
      skip
      match parse (← string) with
      | .ok a => pure a
      | .error p => failUnplaced p) (34 :: rest) (parse s) left := by
  exact .after (on_skip _) (.after h (gives_verdict (fun a ha ↦ by rw [ha]) fun p hp ↦ by rw [hp]))

/-- The same holds of the decoder, which starts at the quote in front of the string. -/
theorem gives_parsedText (expected : String) (parse : String → Except Problem α) {s : String}
    {rest left : List UInt8} (h : string.on rest = (.ok s, left)) (depth : Nat) :
    ((parsedText expected parse).read depth).Gives (34 :: rest) (parse s) left := by
  have hstart : valueStart.on (34 :: rest) = (.ok 34, 34 :: rest) :=
    on_valueStart blank_nil (by decide) rest
  exact .placed (.after hstart (gives_parse parse h))

/-- Decoding a string follows the document: strings are parsed after the document is read, with the
same outcome. -/
theorem follows_parsedText (expected : String) (parse : String → Except Problem α) :
    (parsedText expected parse).Follows id := by
  refine follows_of_starts (fun _ ↦ rfl) fun {depth b rest j left} h ↦ ?_
  rw [id_map]
  split
  · rename_i hb
    subst hb
    cases h with
    | string hstring => exact gives_parse parse hstring
    | number hdigit => cases hdigit
  · rename_i hb
    cases h with
    | string => exact absurd rfl hb
    | null | true | false | negative | number | array | object => exact gives_readMismatch

/-- Decoding a number follows the document, where numbers with a point or out of range are problems
in both. -/
theorem follows_natural (bound : Nat) (expected : String) :
    (natural bound expected).Follows id := by
  refine follows_of_starts (fun _ ↦ rfl) fun {depth b rest j left} h ↦ ?_
  rw [id_map]
  dsimp only
  split
  · rename_i hb
    subst hb
    cases h with
    | negative hnumber =>
      refine .after (on_skip _) (.after hnumber (gives_verdict (fun a ha ↦ ?_) fun p hp ↦ ?_))
      · rw [show naturalOf bound expected _ = .ok a from ha]
      · rw [show naturalOf bound expected _ = .error p from hp]
    | number hdigit => cases hdigit
  · rename_i hb
    split
    · rename_i hdigit
      cases h with
      | number _ hnumber =>
        refine .after hnumber (gives_verdict (fun a ha ↦ ?_) fun p hp ↦ ?_)
        · rw [show naturalOf bound expected _ = .ok a from ha]
        · rw [show naturalOf bound expected _ = .error p from hp]
      | null | true | false | negative | string | array | object => cases hdigit
    · rename_i hdigit
      cases h with
      | negative => exact absurd rfl hb
      | number h => exact absurd h hdigit
      | null | true | false | string | array | object => exact gives_readMismatch

theorem follows_unit : unit.Follows id := by
  refine follows_of_starts (fun _ ↦ rfl) fun {depth b rest j left} h ↦ ?_
  rw [id_map]
  split
  · cases h with
    | null hword => exact .after (on_skip _) (.of_ok hword)
    | number hdigit => cases hdigit
  · rename_i hb
    cases h with
    | null => exact absurd rfl hb
    | string | true | false | negative | number | array | object => exact gives_readMismatch

/-- A value that is kept is arranged. -/
theorem follows_json : json.Follows arranged := by
  refine ⟨fun {depth bytes left j} h ↦ ?_⟩
  have hmap : (arranged <$> document depth).on bytes = (.ok j.arranged, left) := on_map_ok _ h
  rw [← value_eq] at hmap
  exact .of_ok hmap

/-- A decoder that is mapped follows the document when the function goes through the order. -/
theorem Follows.map {d : Decoder β} {M : β → β} (h : d.Follows M) {f : β → α} {N : α → α}
    (hN : ∀ b, f (M b) = N (f b)) : (d.map f).Follows N := by
  refine ⟨fun {depth bytes left j} hdocument ↦ ?_⟩
  have hvalue : N <$> (d.map f).ofJson j = f <$> M <$> d.ofJson j := by
    show N <$> f <$> d.ofJson j = _
    rw [← comp_map, ← comp_map]
    exact congrArg (· <$> d.ofJson j) (funext fun b ↦ (hN b).symm)
  rw [hvalue]
  exact (h.gives hdocument).map f

/-! ### Lists, absent values, enumerations -/

/-- Decoding one item more succeeds just if the item and the others decode. -/
theorem map_mapM_eq_ok_iff {f : Json → Except Problem α} {N : α → α} {j : Json} {js : List Json}
    {as : List α} : List.map N <$> (j :: js).mapM f = .ok as ↔
      ∃ a as', as = a :: as' ∧ N <$> f j = .ok a ∧ List.map N <$> js.mapM f = .ok as' := by
  rw [List.mapM_cons]
  rcases f j with e | a
  · exact ⟨nofun, fun ⟨_, _, _, h, _⟩ ↦ nomatch h⟩
  · rcases js.mapM f with e | as₀
    · exact ⟨nofun, fun ⟨_, _, _, _, h⟩ ↦ nomatch h⟩
    · constructor
      · rintro ⟨⟩
        exact ⟨_, _, rfl, rfl, rfl⟩
      · rintro ⟨_, _, rfl, ⟨⟩, ⟨⟩⟩
        rfl

/-- **Item by item.** A list of values is read from the bytes just if the document has as many items
and each of them decodes. -/
theorem itemsAt_iff {d : Decoder α} {N : α → α} (hd : d.Follows N) {depth : Nat} {first : Bool}
    {bytes left : List UInt8} {js : List Json} (h : ItemsAt (document depth) first bytes js left) :
    ∀ as l, ItemsAt (d.read depth) first bytes as l ↔
      List.map N <$> js.mapM d.ofJson = .ok as ∧ l = left := by
  induction h with
  | done hmove =>
    intro as l
    constructor
    · rintro (hmove' | ⟨hmove', -, -⟩)
      · cases hmove.symm.trans hmove'
        exact ⟨rfl, rfl⟩
      · cases hmove.symm.trans hmove'
    · rintro ⟨⟨⟩, rfl⟩
      exact .done hmove
  | more hmove hitem _ ih =>
    intro as l
    rw [map_mapM_eq_ok_iff]
    constructor
    · rintro (hmove' | ⟨hmove', hread, hrest⟩)
      · cases hmove.symm.trans hmove'
      · cases hmove.symm.trans hmove'
        obtain ⟨ha, rfl⟩ := (hd.gives hitem _ _).mp hread
        obtain ⟨has, rfl⟩ := (ih _ _).mp hrest
        exact ⟨⟨_, _, rfl, ha, has⟩, rfl⟩
    · rintro ⟨⟨a, as, rfl, ha, has⟩, rfl⟩
      exact .more hmove ((hd.gives hitem _ _).mpr ⟨ha, rfl⟩) ((ih _ _).mpr ⟨has, rfl⟩)

/-- A list that decodes has as many values as the document has items. -/
theorem length_of_map_mapM {f : Json → Except Problem α} {N : α → α} {js : List Json} :
    ∀ {as : List α}, List.map N <$> js.mapM f = .ok as → as.length = js.length := by
  induction js with
  | nil =>
    rintro _ ⟨⟩
    rfl
  | cons j js ih =>
    intro as h
    obtain ⟨a, as', rfl, -, h⟩ := map_mapM_eq_ok_iff.mp h
    rw [List.length_cons, List.length_cons, ih h]

/-- A list follows the document if its items do. -/
theorem Follows.list {d : Decoder α} {N : α → α} (hd : d.Follows N) :
    (Decoder.list d).Follows (List.map N) := by
  refine follows_of_starts (fun _ ↦ rfl) fun {depth b rest j left} h ↦ ?_
  split
  · rename_i hb
    subst hb
    cases h with
    | array hlength hitems hend =>
      refine .enclosed (fun as l ↦ ?_) hend
      rw [on_items_iff, itemsAt_iff hd hitems]
      -- the array has as many items as the document, which the loop has room for
      refine and_iff_right_of_imp fun ⟨has, _⟩ ↦ ?_
      rw [length_of_map_mapM has]
      exact hlength
    | number hdigit => cases hdigit
  · rename_i hb
    cases h with
    | array => exact absurd rfl hb
    | null | true | false | negative | string | number | object => exact gives_readMismatch

theorem Follows.nullable {d : Decoder α} {N : α → α} (hd : d.Follows N) :
    (Decoder.nullable d).Follows (Option.map N) := by
  refine ⟨fun {depth bytes left j} hdocument ↦ ?_⟩
  obtain ⟨b, rest, hbytes, hstarts⟩ := starts_of_document hdocument
  rw [← on_document_gap, hbytes] at hdocument
  refine .after (on_peekToken bytes) ?_
  rw [hbytes, List.head?_cons]
  split
  · rename_i hb
    cases hb
    cases hstarts with
    | null hword => exact .after (on_skip _) (.after hword (.of_ok rfl))
    | number hdigit => cases hdigit
  · rename_i hb
    have hsome : Option.map N <$> some <$> d.ofJson j = some <$> N <$> d.ofJson j := by
      cases d.ofJson j <;> rfl
    have hread := (hd.gives hdocument).map some
    rw [← hsome] at hread
    cases hstarts with
    | null => exact absurd rfl hb
    | true | false | negative | number | string | array | object => exact hread

theorem Follows.listOrNull {d : Decoder α} {N : α → α} (hd : d.Follows N) :
    (Decoder.listOrNull d).Follows (List.map N) := by
  refine hd.list.nullable.map fun l ↦ ?_
  cases l <;> rfl

/-- The first member of an object, if its name is a word and its value is `null`. -/
def wordMember (parse : String → Except Problem α) (inner : Nat) : Reader α := do
  if ← moveToMember true then
    let a ← (parsedText "variant identifier" parse).read (inner + 1)
    colon
    let _ ← unit.read inner
    return a
  else failNext .expectedValue

/-- The object form of a word: the name of its only member is parsed, and its value has to be
`null`. -/
theorem gives_wordMember (parse : String → Except Problem α) {depth : Nat} {word : String}
    {j : Json} {rest start behind inside left : List UInt8}
    (hmove : (moveToMember true).on rest = (.ok true, 34 :: start))
    (hname : string.on start = (.ok word, behind)) (hcolon : colon.on behind = (.ok (), inside))
    (hvalue : (document depth).on inside = (.ok j, left)) :
    Gives (wordMember parse depth) rest ((oneOf parse).ofJson (.object [(word, j)])) left := by
  refine .after hmove ((gives_parsedText _ parse hname _).bind fun a _ ↦ .after hcolon ?_)
  have hunit := follows_unit.gives hvalue
  rw [id_map] at hunit
  exact hunit.bind fun _ _ ↦ .of_ok rfl

/-- Behind its only member the object ends. -/
theorem gives_oneOf_object (parse : String → Except Problem α) {depth : Nat}
    {rest mid left : List UInt8} {ms : List (String × Json)}
    (hmembers : MembersAt (document depth) true rest ms mid)
    (hend : endObject.on mid = (.ok (), left)) :
    Gives (do
      let a ← enclosed (depth + 1) (wordMember parse) (pure ())
      match ← peekToken with
      | some 125 => skip; return a
      | some _ => failHere .expectedValue
      | none => failHere .endInObject) (123 :: rest) ((oneOf parse).ofJson (.object ms)) left := by
  cases hmembers with
  | done hmove =>
    -- there is no word
    refine .of_error fun a l h ↦ ?_
    obtain ⟨_, _, hword, -⟩ := exists_of_on_bind h
    obtain ⟨_, hword, -⟩ := on_enclosed_iff.mp hword
    rw [wordMember, on_bind_ok hmove] at hword
    cases hword
  | @more _ _ start behind inside after _ word value ms hmove hname hcolon hvalue hrest =>
    have hword : Gives (enclosed (depth + 1) (wordMember parse) (pure ())) (123 :: rest)
        ((oneOf parse).ofJson (.object [(word, value)])) after :=
      .enclosed (gives_wordMember parse hmove hname hcolon hvalue) (on_pure () after)
    cases hrest with
    | done hmove =>
      obtain ⟨hafter, -⟩ := on_moveToMember_false_iff.mp hmove
      rw [on_endObject_iff, ← hafter, List.dropWhile_idempotent] at hend
      rw [← bind_pure ((oneOf parse).ofJson (.object [(word, value)]))]
      refine hword.bind fun a _ ↦ .after (on_peekToken after) ?_
      rw [hend]
      exact .after (on_skip _) (.of_ok rfl)
    | more hmove =>
      -- a comma, where the object should end
      obtain ⟨⟨gap, hcomma, -⟩, -⟩ := leads_of_moveToMember hmove
      refine .of_error fun a l h ↦ ?_
      obtain ⟨a', mid', hread, h⟩ := exists_of_on_bind h
      rw [((hword a' mid').mp hread).2, on_bind_ok (on_peekToken after), hcomma] at h
      cases h

/-- A word may stand alone or as the only member of an object. -/
theorem follows_oneOf (parse : String → Except Problem α) : (oneOf parse).Follows id := by
  refine ⟨fun {depth bytes left j} hdocument ↦ ?_⟩
  obtain ⟨b, rest, hbytes, hstarts⟩ := starts_of_document hdocument
  rw [id_map]
  refine .after (on_peekToken bytes) ?_
  rw [hbytes, List.head?_cons]
  split
  · rename_i h
    cases h
  · rename_i hb
    cases hb
    cases hstarts with
    | string hstring => exact gives_parsedText _ parse hstring depth
    | number hdigit => cases hdigit
  · rename_i hb
    cases hb
    cases hstarts with
    | number hdigit => cases hdigit
    | object _ hmembers hend => exact gives_oneOf_object parse hmembers hend
  · rename_i hquote hbrace hb
    cases hb
    cases hstarts with
    | string => exact absurd rfl hquote
    | object => exact absurd rfl hbrace
    | null | true | false | negative | number | array => exact .of_error nofun

end Decoder

/-! ### Whole texts -/

theorem Json.Reader.onText_iff {r : Reader α} {text : List UInt8} {a : α} :
    r.onText text = .ok a ↔ ∃ left, r.on text = (.ok a, left) := by
  rw [onText]
  rcases r.on text with ⟨_ | a', left⟩
  · constructor
    · rintro ⟨⟩
    · rintro ⟨_, ⟨⟩⟩
  · constructor
    · rintro ⟨⟩
      exact ⟨left, rfl⟩
    · rintro ⟨_, ⟨⟩⟩
      rfl

/-- A whole text is read just if nothing but blanks is left. -/
theorem Json.Reader.on_whole_iff {r : Reader α} {text left : List UInt8} {a : α} :
    (whole r).on text = (.ok a, left) ↔
      ∃ mid, r.on text = (.ok a, mid) ∧ finished.on mid = (.ok (), left) := by
  rw [whole, on_bind_iff]
  constructor
  · rintro ⟨a', mid, ha, h⟩
    obtain ⟨_, _, hfinished, h⟩ := exists_of_on_bind h
    cases h
    exact ⟨mid, ha, hfinished⟩
  · rintro ⟨mid, ha, hfinished⟩
    exact ⟨a, mid, ha, (on_bind_ok hfinished).trans rfl⟩

/-- **Texts and documents.** A text reads as what its document is decoded as, and is refused if the
document is. -/
theorem Decoder.Follows.ofBytes_iff {d : Decoder α} {N : α → α} (h : d.Follows N)
    {text : List UInt8} {j : Json} (hj : documentOf text = .ok j) {a : α} :
    d.ofBytes text = .ok a ↔ N <$> d.ofJson j = .ok a := by
  obtain ⟨left, hwhole⟩ := onText_iff.mp hj
  obtain ⟨mid, hdocument, hfinished⟩ := on_whole_iff.mp hwhole
  have hgives := h.gives hdocument
  rw [ofBytes, onText_iff]
  simp only [on_whole_iff]
  constructor
  · rintro ⟨_, mid', ha, -⟩
    exact ((hgives a mid').mp ha).1
  · intro ha
    exact ⟨left, mid, (hgives a mid).mpr ⟨ha, rfl⟩, hfinished⟩

end Parley
