import Parley.Decoder.Record
import Parley.Proofs.JsonText

/-!
# Decoders read what was written

`Decoder.Reads d depth j a` says that the decoder `d` reads `a` from the text of `j`, in any layout
and wherever the text stands. There is one lemma for each way to build a decoder, so that a proof
about a format follows the decoder of the format.

**Records.** `Record.Fills` goes through the fields of a record and the members of an object side by
side, as a record is written: members come in the order of the fields, and a field that may be left
out has none. It is stated for any relation between decoders, values and results, since decoding a
value takes the same steps as reading its text. `Record.Joins` is one of these steps.
-/

namespace Parley

open Json Reader

variable {α β : Type}

/-- What leads to a result has a result at each step. -/
theorem exists_of_bind_eq_ok {ε : Type} {x : Except ε β} {next : β → Except ε α} {a : α}
    (h : x >>= next = .ok a) : ∃ b, x = .ok b ∧ next b = .ok a := by
  cases x with
  | error e => cases h
  | ok b => exact ⟨b, rfl, h⟩

/-- Wording errors in another way does not touch results. -/
theorem eq_ok_of_mapError {ε ε' : Type} {x : Except ε α} {f : ε → ε'} {a : α}
    (h : x.mapError f = .ok a) : x = .ok a := by
  cases x with
  | error e => cases h
  | ok b =>
    cases h
    rfl

namespace Decoder

/-- The text of `j` reads as `a` while `depth` arrays and objects may be opened. -/
structure Reads (d : Decoder α) (depth : Nat) (j : Json) (a : α) : Prop where
  integral : j.Integral
  readsAs : ∀ style : Layout, style.IsBlank → ∀ level, ReadsAs style level (d.read depth) j a

/-- A whole text, with blanks behind it. -/
theorem Reads.ofBytes {d : Decoder α} {j : Json} {a : α} (h : d.Reads depthLimit j a)
    {style : Layout} (hs : style.IsBlank) {gap : List UInt8}
    (hgap : ∀ b ∈ gap, isBlank b = true) : d.ofBytes (utf8 (write style 0 j) ++ gap) = .ok a :=
  onText_whole (h.readsAs style hs 0) hgap

/-! ### Scalars -/

theorem on_valueStart {gap : List UInt8} (hgap : ∀ b ∈ gap, isBlank b = true) {b : UInt8}
    (hb : isBlank b = false) (rest : List UInt8) :
    valueStart.on (gap ++ b :: rest) = (.ok b, b :: rest) :=
  on_bind_ok (on_peekToken_start hgap hb rest)

theorem Reads.map {d : Decoder β} {depth : Nat} {j : Json} {b : β} (h : d.Reads depth j b)
    (f : β → α) : (d.map f).Reads depth j (f b) where
  integral := h.integral
  readsAs style hs level gap rest hgap hrest :=
    on_map_ok f (h.readsAs style hs level gap rest hgap hrest)

theorem reads_parsedText {expected : String} {parse : String → Except Problem α} {s : String}
    {a : α} (h : parse s = .ok a) (depth : Nat) :
    (parsedText expected parse).Reads depth (.string s) a where
  integral := .string s
  readsAs style hs level gap rest hgap hrest := by
    rw [write, utf8_quote_append]
    refine on_placed_ok ?_
    refine (on_bind_ok (on_valueStart hgap (by decide) _)).trans ?_
    refine (on_bind_ok (on_skip _)).trans ?_
    refine (on_bind_ok (on_string s rest)).trans ?_
    rw [h, on_pure]

theorem reads_text (depth : Nat) (s : String) : text.Reads depth (.string s) s :=
  reads_parsedText rfl depth

/-- A number below the bound is read as it was. -/
theorem reads_natural {bound n : Nat} (expected : String) (hn : n < bound)
    (hbound : bound ≤ significandBound) (depth : Nat) :
    (natural bound expected).Reads depth (Json.count n) n where
  integral := by
    have hpow : significandBound = Nat.pow 2 64 := rfl
    exact .number (by omega) (by omega)
  readsAs style hs level gap rest hgap hrest := by
    have htext : write style level (Json.count n) = Decimal.digitsOf n := by
      rw [Json.count, write, Number.text, Decimal.integerText, if_neg (by omega)]
      rfl
    have hnumber := on_number false (Nat.lt_of_lt_of_le hn hbound) hrest
    have haccept : naturalOf bound expected (.integer n) = .ok n := by
      have hlt : (0 ≤ (n : Int) && (n : Int) < bound) = true := by simp [hn]
      rw [naturalOf, if_pos hlt, Int.toNat_natCast]
    obtain ⟨b, tail, htail, hb⟩ := exists_utf8_digitsOf n
    rw [htail, List.cons_append] at hnumber
    rw [htext, htail, List.cons_append]
    refine on_placed_ok ?_
    refine (on_bind_ok (on_valueStart hgap (isBlank_of_isDigit hb) _)).trans ?_
    rw [if_neg (ne_of_isDigit hb rfl), if_pos hb, on_bind_ok hnumber, wholeNumber_of_nonneg]
    dsimp only
    rw [haccept, on_pure]

/-- A value that is kept as it is comes back with its members arranged. -/
theorem reads_json {depth : Nat} {j : Json} (hfits : Fits depth j) (hint : j.Integral) :
    json.Reads depth j j.arranged where
  integral := hint
  readsAs _ hs level := readsAs_value hs hfits hint level

/-! ### Lists, absent values, enumerations -/

/-- A list is read item by item; it takes one bracket more than its items do. -/
theorem Reads.list {d : Decoder α} {depth : Nat} {toJson : α → Json} {as : List α}
    (h : ∀ a ∈ as, d.Reads depth (toJson a) a) :
    (Decoder.list d).Reads (depth + 1) (.array (as.map toJson)) as := by
  have hint : ∀ j ∈ as.map toJson, j.Integral :=
    List.forall_mem_map.mpr fun a ha ↦ (h a ha).integral
  refine ⟨.array hint, fun style hs level gap rest hgap _ ↦ ?_⟩
  have hall : List.Forall₂ (ReadsAs style (level + 1) (d.read depth)) (as.map toJson) as :=
    List.forall₂_map_left_iff.mpr
      (List.forall₂_same.mpr fun a ha ↦ (h a ha).readsAs style hs (level + 1))
  have harray := on_array hs hall hint rest
  obtain ⟨bytes, htext⟩ :
      ∃ bytes, utf8 (write style level (.array (as.map toJson))) ++ rest = 91 :: bytes := by
    cases as.map toJson <;> exact ⟨_, rfl⟩
  rw [htext] at harray ⊢
  refine on_placed_ok ?_
  exact (on_bind_ok (on_valueStart hgap (by decide) _)).trans harray

/-- What is there reads as such, unless it is written as `null`. -/
theorem Reads.nullable {d : Decoder α} {depth : Nat} {j : Json} {a : α} (h : d.Reads depth j a)
    (hj : j ≠ .null) : (Decoder.nullable d).Reads depth j (some a) where
  integral := h.integral
  readsAs style hs level gap rest hgap hrest := by
    obtain ⟨b, tail, htail, hb, -, hnull⟩ := exists_utf8_write style level h.integral
    have hread := h.readsAs style hs level [] rest blank_nil hrest
    rw [htail, List.nil_append, List.cons_append] at hread
    rw [htail, List.cons_append]
    refine (on_bind_ok (on_peekToken_start hgap hb _)).trans ?_
    split
    · rename_i heq
      exact absurd (hnull (Option.some.inj heq)) hj
    · exact on_map_ok some hread

/-- A list of strings. -/
theorem reads_strings (depth : Nat) (l : List String) :
    (Decoder.listOrNull text).Reads (depth + 1) (Json.strings l) l :=
  ((Reads.list fun s _ ↦ reads_text depth s).nullable fun e ↦ nomatch e).map fun l ↦ l.getD []

/-- A word that stands for one of several values is read as the one it stands for. -/
theorem reads_oneOf {parse : String → Except Problem α} {word : String} {a : α}
    (h : parse word = .ok a) (depth : Nat) : (oneOf parse).Reads depth (.string word) a where
  integral := .string word
  readsAs style hs level gap rest hgap hrest := by
    have hvariant : (parsedText "variant identifier" parse).Reads depth (.string word) a :=
      reads_parsedText h depth
    have hread := hvariant.readsAs style hs level [] rest blank_nil hrest
    rw [List.nil_append, write, utf8_quote_append] at hread
    rw [write, utf8_quote_append]
    exact (on_bind_ok (on_peekToken_start hgap (by decide) _)).trans hread

/-! ### Values that are turned into something else -/

theorem ofJson_map {d : Decoder β} {j : Json} {b : β} (h : d.ofJson j = .ok b) (f : β → α) :
    (d.map f).ofJson j = .ok (f b) := by
  dsimp only [map]
  rw [h]
  rfl

theorem exists_of_ofJson_map {d : Decoder β} {f : β → α} {j : Json} {a : α}
    (h : (d.map f).ofJson j = .ok a) : ∃ b, d.ofJson j = .ok b ∧ f b = a := by
  dsimp only [map] at h
  rw [map_eq_pure_bind] at h
  obtain ⟨b, hb, hf⟩ := exists_of_bind_eq_ok h
  exact ⟨b, hb, Except.ok.inj hf⟩

/-- A value that may be missing, and is there, was decoded as one that may not. -/
theorem ofJson_of_nullable {d : Decoder α} {j : Json} {a : α}
    (h : (nullable d).ofJson j = .ok (some a)) : d.ofJson j = .ok a := by
  have hmap : some <$> d.ofJson j = .ok (some a) := by
    cases j with
    | null => cases h
    | bool _ | number _ | string _ | array _ | object _ => exact h
  rw [map_eq_pure_bind] at hmap
  obtain ⟨b, hb, hsome⟩ := exists_of_bind_eq_ok hmap
  cases hsome
  exact hb

/-! ### What a decoder can give -/

/-- A value of the wrong type gives nothing. -/
theorem yields_readMismatch {P : α → Prop} (expected : String) (b : UInt8) :
    Yields (readMismatch expected b) P := by
  refine .placed ?_
  split
  · exact .after fun _ ↦ .after fun _ ↦ .failUnplaced _
  · exact .after fun _ ↦ .after fun _ ↦ .failUnplaced _
  · exact .after fun _ ↦ .after fun _ ↦ .failUnplaced _
  · exact .after fun _ ↦ .after fun _ ↦ .failUnplaced _
  · exact .after fun _ ↦ .after fun _ ↦ .failUnplaced _
  · exact .failUnplaced _
  · exact .failUnplaced _
  · split
    · exact .after fun _ ↦ .failUnplaced _
    · exact .failNext _

/-- What every item that is read has, the items of every list that is read have. -/
theorem yields_list {d : Decoder α} {P : α → Prop} {depth : Nat}
    (h : ∀ inner, depth = inner + 1 → Yields (d.read inner) P) :
    Yields ((Decoder.list d).read depth) fun l ↦ ∀ a ∈ l, P a := by
  refine .placed (.after fun b ↦ ?_)
  split
  · exact .enclosed fun inner hinner ↦ .items (h inner hinner)
  · exact yields_readMismatch _ _

end Decoder

/-! ### Records -/

namespace Record

/-- A field that is read, or a member that is kept: what one member of an object does to a draft.
`R` says what values are decoded as. -/
inductive Joins (R : ∀ γ : Type, Decoder γ → Json → γ → Prop) (r : Record α) :
    Draft α → String × Json → Draft α → Prop
  | field {d : Draft α} {name : String} {presence : Presence} {γ : Type} {dec : Decoder γ}
    {set : α → γ → α} {j : Json} {v : γ} :
    r.field? name = some (.of name presence dec set) → name ∉ d.names → R γ dec j v →
      Joins R r d (name, j) (d.fill name fun a ↦ set a v)
  | kept {d : Draft α} {name : String} {keep : String → Json → α → α} {j : Json} :
    r.field? name = none → r.keep = some keep → R Json Decoder.json j j →
      Joins R r d (name, j) { d with value := keep name j d.value }

/-- The members, written in the order of the fields, take the value `a` of a record to `b`. Fields
that may be left out need no member. -/
inductive Fills (R : ∀ γ : Type, Decoder γ → Json → γ → Prop) :
    List (Field α) → List (String × Json) → α → α → Prop
  | nil (a : α) : Fills R [] [] a a
  | present {name : String} {presence : Presence} {γ : Type} {dec : Decoder γ} {set : α → γ → α}
    {j : Json} {v : γ} {fs : List (Field α)} {ms : List (String × Json)} {a b : α} :
    R γ dec j v → Fills R fs ms (set a v) b →
      Fills R (.of name presence dec set :: fs) ((name, j) :: ms) a b
  | absent {f : Field α} {fs : List (Field α)} {ms : List (String × Json)} {a b : α} :
    f.presence ≠ .required → Fills R fs ms a b → Fills R (f :: fs) ms a b

variable {R : ∀ γ : Type, Decoder γ → Json → γ → Prop}

/-- A field for a value that may be absent, and is written only if it is there. -/
theorem Fills.optional {γ : Type} {name : String} {dec : Decoder γ} {set : α → Option γ → α}
    {toJson : γ → Json} {v : Option γ} {fs : List (Field α)} {ms : List (String × Json)} {a b : α}
    (hv : ∀ c, v = some c → R (Option γ) (.nullable dec) (toJson c) (some c))
    (hnone : set a none = a) (hrest : Fills R fs ms (set a v) b) :
    Fills R (.of name .defaulted (.nullable dec) set :: fs)
      ((v.map fun c ↦ (name, toJson c)).toList ++ ms) a b := by
  cases v with
  | none =>
    rw [hnone] at hrest
    exact .absent (fun e ↦ nomatch e) hrest
  | some c => exact .present (hv c rfl) hrest

theorem Fills.forall {P : Json → Prop} {fs : List (Field α)} {ms : List (String × Json)} {a b : α}
    (h : Fills (fun _ _ j _ ↦ P j) fs ms a b) : ∀ p ∈ ms, P p.2 := by
  induction h with
  | nil a => exact fun _ hp ↦ nomatch hp
  | present hj _ ih => exact List.forall_mem_cons.mpr ⟨hj, ih⟩
  | absent _ _ ih => exact ih

/-- A field is found under its name, since the names of a record differ. -/
theorem field?_eq_some {r : Record α} (hnames : (r.fields.map (·.name)).Nodup) {f : Field α}
    (hf : f ∈ r.fields) : r.field? f.name = some f := by
  unfold field?
  generalize r.fields = fs at hnames hf
  induction fs with
  | nil => cases hf
  | cons g fs ih =>
    obtain ⟨hapart, hnames⟩ := List.nodup_cons.mp hnames
    rcases List.mem_cons.mp hf with rfl | hf
    · exact List.find?_cons_of_pos (by simp)
    · have hne : g.name ≠ f.name := fun e ↦ hapart (List.mem_map.mpr ⟨f, hf, e.symm⟩)
      rw [List.find?_cons_of_neg (by simp [hne])]
      exact ih hnames hf

/-- A draft in which every required field was read is finished. -/
theorem finish_eq_ok {r : Record α} {d : Draft α}
    (h : ∀ f ∈ r.fields, f.presence = .required → f.name ∈ d.names) :
    r.finish d = .ok d.value := by
  have hfind : (r.fields.find? fun f ↦ f.presence = .required && !d.names.contains f.name) =
      none := by
    rw [List.find?_eq_none]
    intro f hf
    simpa using h f hf
  rw [finish, hfind]

/-- Members that fill the fields in order are joined one after the other. The induction is on the
fields; the names that were filled so far are carried along, as no member may come twice. -/
theorem Fills.folds {r : Record α} {fs : List (Field α)} {ms : List (String × Json)} {a b : α}
    (h : Fills R fs ms a b) (hfs : ∀ f ∈ fs, r.field? f.name = some f)
    (hnames : (fs.map (·.name)).Nodup) :
    ∀ names : List String, (∀ f ∈ fs, f.name ∉ names) →
      ∃ names', Folds (Joins R r) ⟨a, names⟩ ms ⟨b, names'⟩ ∧ (∀ n ∈ names, n ∈ names') ∧
        ∀ f ∈ fs, f.presence = .required → f.name ∈ names' := by
  induction h with
  | nil a => exact fun names _ ↦ ⟨names, .nil _, fun _ hn ↦ hn, fun _ hf ↦ nomatch hf⟩
  | @present name presence γ dec set j v fs ms a b hread _ ih =>
    intro names hnew
    obtain ⟨hf, hfs⟩ := List.forall_mem_cons.mp hfs
    obtain ⟨hname, hnew⟩ := List.forall_mem_cons.mp hnew
    obtain ⟨hapart, hnames⟩ := List.nodup_cons.mp hnames
    obtain ⟨names', hfolds, hkept, hrequired⟩ := ih hfs hnames (name :: names) (by
      intro f hf hmem
      rcases List.mem_cons.mp hmem with hsame | hmem
      · exact hapart (List.mem_map.mpr ⟨f, hf, hsame⟩)
      · exact hnew f hf hmem)
    refine ⟨names', .cons (.field hf hname hread) hfolds, ?_, ?_⟩
    · exact fun n hn ↦ hkept n (List.mem_cons_of_mem _ hn)
    · exact List.forall_mem_cons.mpr ⟨fun _ ↦ hkept name List.mem_cons_self, hrequired⟩
  | @absent f fs ms a b hf _ ih =>
    intro names hnew
    obtain ⟨names', hfolds, hkept, hrequired⟩ := ih (List.forall_mem_cons.mp hfs).2
      (List.nodup_cons.mp hnames).2 names (List.forall_mem_cons.mp hnew).2
    exact ⟨names', hfolds, hkept,
      List.forall_mem_cons.mpr ⟨fun h ↦ absurd h hf, hrequired⟩⟩

/-- Finishing a draft checks what is missing and leaves the value. -/
theorem eq_of_finish {r : Record α} {d : Draft α} {a : α} (h : r.finish d = .ok a) :
    d.value = a := by
  unfold finish at h
  split at h
  · cases h
  · exact Except.ok.inj h

/-! ### Records in a text -/

/-- Reading a member does to a draft what the member does. -/
theorem memberReads_readMember {style : Layout} (hs : style.IsBlank) {r : Record α}
    {depth level : Nat} {d d' : Draft α} {member : String × Json}
    (h : Joins (fun _ dec ↦ dec.Reads depth) r d member d') :
    MemberReads style level (r.readMember depth) d member d' := by
  intro rest hrest
  obtain ⟨gap, hgap, hcolon⟩ := exists_on_colon hs
  cases h with
  | @field name presence γ dec set j v hf hname hread =>
    have hvalue := (hread.map fun b a ↦ set a b).readsAs style hs level gap rest hgap hrest
    have hnew : ¬d.names.contains name = true := by simpa using hname
    refine (on_bind_ok (on_string name _)).trans ?_
    dsimp only
    rw [hf]
    dsimp only [Field.of]
    rw [if_neg hnew, on_bind_ok (hcolon _), on_bind_ok hvalue, on_pure]
  | @kept name keep j hf hkeep hread =>
    have hvalue := hread.readsAs style hs level gap rest hgap hrest
    refine (on_bind_ok (on_string name _)).trans ?_
    dsimp only
    rw [hf, hkeep]
    refine (on_bind_ok (hcolon _)).trans ?_
    exact on_bind_ok hvalue

/-- The text of an object reads as the record that its members make. -/
theorem reads_object {r : Record α} {depth : Nat} {ms : List (String × Json)} {d : Draft α}
    (h : Folds (Joins (fun _ dec ↦ dec.Reads depth) r) r.start ms d)
    (hrequired : ∀ f ∈ r.fields, f.presence = .required → f.name ∈ d.names) :
    r.decoder.Reads (depth + 1) (.object ms) d.value := by
  have hint : ∀ p ∈ ms, p.2.Integral := h.forall fun _ _ _ hjoins ↦ by
    cases hjoins with
    | field _ _ hread => exact hread.integral
    | kept _ _ hread => exact hread.integral
  refine ⟨.object hint, fun style hs level gap rest hgap _ ↦ ?_⟩
  have hall : Folds (MemberReads style (level + 1) (r.readMember depth)) r.start ms d :=
    h.imp fun _ _ _ hjoins ↦ memberReads_readMember hs hjoins
  obtain ⟨bytes, htext, hloop⟩ := exists_on_members hs hall rest
  have hmembers : (r.readMembers depth).on bytes = (.ok d.value, 125 :: rest) := by
    refine (on_bind_ok hloop).trans ?_
    rw [finish_eq_ok hrequired, on_pure]
  rw [htext]
  refine on_placed_ok ?_
  refine (on_bind_ok (Decoder.on_valueStart hgap (by decide) _)).trans ?_
  exact on_enclosed hmembers (on_endObject rest)

/-- The text of a record that was written field by field reads as it. -/
theorem Fills.reads {r : Record α} (hnames : (r.fields.map (·.name)).Nodup) {depth : Nat}
    {ms : List (String × Json)} {a : α}
    (h : Fills (fun _ dec ↦ dec.Reads depth) r.fields ms r.blank a) :
    r.decoder.Reads (depth + 1) (.object ms) a := by
  obtain ⟨names, hfolds, -, hrequired⟩ := h.folds (fun f hf ↦ field?_eq_some hnames hf) hnames []
    fun _ _ hf ↦ nomatch hf
  exact reads_object hfolds hrequired

/-! ### What reading a record can give -/

section Yields

variable {r : Record α} {I : α → Prop}

/-- A field gives changes that keep what setting its values keeps. -/
theorem yields_field {γ : Type} {dec : Decoder γ} {P : γ → Prop} {depth : Nat}
    (h : Yields (dec.read depth) P) {name : String} {presence : Presence} {set : α → γ → α}
    (hset : ∀ a v, P v → I a → I (set a v)) :
    Yields ((Field.of name presence dec set).decoder.read depth) fun change ↦
      ∀ a, I a → I (change a) :=
  .map (h.mono fun v hv a ha ↦ hset a v hv ha)

/-- The array form of a record keeps an invariant if each of its fields does. -/
theorem yields_readItems {depth : Nat} {fs : List (Field α)}
    (hfields : ∀ f ∈ fs, Yields (f.decoder.read depth) fun change ↦ ∀ a, I a → I (change a)) :
    ∀ (n : Nat) (a : α), I a → Yields (r.readItems depth fs n a) I := by
  induction fs with
  | nil => exact fun _ _ ha ↦ .pure ha
  | cons f fs ih =>
    obtain ⟨hf, hfs⟩ := List.forall_mem_cons.mp hfields
    intro n a ha
    refine .after fun more ↦ ?_
    split
    · exact hf.bind fun change hchange ↦ ih hfs (n + 1) (change a) (hchange a ha)
    · split
      · exact ih hfs (n + 1) a ha
      · exact .failUnplaced _

/-- So does the object form, where members that belong to no field must keep it as well. -/
theorem yields_readMembers (hblank : I r.blank) {depth : Nat}
    (hfields : ∀ f ∈ r.fields,
      Yields (f.decoder.read depth) fun change ↦ ∀ a, I a → I (change a))
    (hkeep : ∀ keep ∈ r.keep, ∀ name j a, r.field? name = none → Fits depth j → InOrder j →
      I a → I (keep name j a)) : Yields (r.readMembers depth) I := by
  refine .bind (.objectLoop (I := fun d ↦ I d.value) hblank fun d hd ↦ ?_) fun d hd ↦ ?_
  · refine .after fun name ↦ ?_
    split
    · rename_i f hf
      split
      · exact .failUnplaced _
      · have hread := hfields f (List.mem_of_find?_eq_some hf)
        exact .after fun _ ↦ hread.bind fun change hchange ↦ .pure (hchange d.value hd)
    · rename_i hf
      refine .after fun _ ↦ ?_
      split
      · rename_i keep heq
        exact (yields_value depth).bind fun j hj ↦
          .pure (hkeep keep heq name j d.value hf hj.1 hj.2 hd)
      · exact .after fun _ ↦ .pure hd
  · split
    · rename_i a hfinish
      exact .pure (eq_of_finish hfinish ▸ hd)
    · exact .failUnplaced _

/-- What the blank record has, and what every field and every kept member leaves, is true of every
record that is read. -/
theorem yields_read (hblank : I r.blank) {depth : Nat}
    (hfields : ∀ inner, depth = inner + 1 → ∀ f ∈ r.fields,
      Yields (f.decoder.read inner) fun change ↦ ∀ a, I a → I (change a))
    (hkeep : ∀ inner, depth = inner + 1 → ∀ keep ∈ r.keep, ∀ name j a, r.field? name = none →
      Fits inner j → InOrder j → I a → I (keep name j a)) : Yields (r.read depth) I := by
  refine .placed (.after fun b ↦ ?_)
  split
  · split
    · exact Decoder.yields_readMismatch _ _
    · exact .enclosed fun inner hinner ↦ yields_readItems (hfields inner hinner) 0 r.blank hblank
  · exact .enclosed fun inner hinner ↦
      yields_readMembers hblank (hfields inner hinner) (hkeep inner hinner)
  · exact Decoder.yields_readMismatch _ _

end Yields

/-! ### What a value can be decoded as -/

section Keeps

variable {r : Record α} {I : α → Prop}

/-- Whatever a field decodes makes changes that keep `I`. -/
def FieldKeeps (f : Field α) (I : α → Prop) : Prop :=
  ∀ j change, f.decoder.ofJson j = .ok change → ∀ a, I a → I (change a)

theorem fieldKeeps_of {γ : Type} {dec : Decoder γ} {P : γ → Prop}
    (h : ∀ j v, dec.ofJson j = .ok v → P v) {name : String} {presence : Presence}
    {set : α → γ → α} (hset : ∀ a v, P v → I a → I (set a v)) :
    FieldKeeps (.of name presence dec set) I := by
  intro j change hchange a ha
  obtain ⟨v, hv, rfl⟩ := Decoder.exists_of_ofJson_map hchange
  exact hset a v (h j v hv) ha

/-- One member of an object keeps `I`, whether it is a field or kept as it came. -/
theorem keeps_addMember (hfields : ∀ f ∈ r.fields, FieldKeeps f I)
    (hkeep : ∀ keep ∈ r.keep, ∀ name j a, I a → I (keep name j a)) {d d' : Draft α}
    {p : String × Json} (h : r.addMember d p = .ok d') (hd : I d.value) : I d'.value := by
  unfold addMember at h
  split at h
  · rename_i f hf
    have hfield := hfields f (List.mem_of_find?_eq_some hf)
    split at h
    · cases h
    · obtain ⟨change, hc, hd'⟩ := exists_of_bind_eq_ok h
      cases hd'
      exact hfield p.2 change hc d.value hd
  · split at h
    · rename_i keep heq
      cases h
      exact hkeep keep heq p.1 p.2 d.value hd
    · cases h
      exact hd

/-- The members of an object keep `I`, one after the other. -/
theorem keeps_foldlM_addMember (hfields : ∀ f ∈ r.fields, FieldKeeps f I)
    (hkeep : ∀ keep ∈ r.keep, ∀ name j a, I a → I (keep name j a)) {ms : List (String × Json)} :
    ∀ {d d' : Draft α}, ms.foldlM r.addMember d = .ok d' → I d.value → I d'.value := by
  induction ms with
  | nil =>
    intro d d' h hd
    cases h
    exact hd
  | cons p ms ih =>
    intro d d' h hd
    rw [List.foldlM_cons] at h
    obtain ⟨d₁, hadd, hrest⟩ := exists_of_bind_eq_ok h
    exact ih hrest (keeps_addMember hfields hkeep hadd hd)

/-- The items of an array that stands for a record keep `I` in the same way. -/
theorem keeps_fillFrom {fs : List (Field α)} (hfields : ∀ f ∈ fs, FieldKeeps f I) :
    ∀ {js : List Json} {n : Nat} {a : α} {out : α × Nat},
      r.fillFrom fs js n a = .ok out → I a → I out.1 := by
  induction fs with
  | nil =>
    intro js n a out h ha
    rw [fillFrom] at h
    cases h
    exact ha
  | cons f fs ih =>
    obtain ⟨hf, hfs⟩ := List.forall_mem_cons.mp hfields
    intro js n a out h ha
    cases js with
    | nil =>
      -- the array is at its end, and only fields that may be left out are still to come
      rw [fillFrom] at h
      split at h
      · exact ih hfs h ha
      · cases h
    | cons j js =>
      rw [fillFrom] at h
      obtain ⟨change, hc, hrest⟩ := exists_of_bind_eq_ok h
      exact ih hfs hrest (hf j change hc a ha)

/-- What the blank record has, and what every field and every kept member leaves, is true of every
record that a value is decoded as. -/
theorem keeps_ofJson (hblank : I r.blank) (hfields : ∀ f ∈ r.fields, FieldKeeps f I)
    (hkeep : ∀ keep ∈ r.keep, ∀ name j a, I a → I (keep name j a)) {j : Json} {a : α}
    (h : r.ofJson j = .ok a) : I a := by
  cases j with
  | object ms =>
    obtain ⟨d, hfold, hfinish⟩ := exists_of_bind_eq_ok h
    exact eq_of_finish hfinish ▸ keeps_foldlM_addMember hfields hkeep hfold hblank
  | array items =>
    rw [ofJson] at h
    split at h
    · cases h
    · obtain ⟨out, hfill, hrest⟩ := exists_of_bind_eq_ok h
      dsimp only at hrest
      split at hrest
      · cases hrest
      · cases hrest
        exact keeps_fillFrom hfields hfill hblank
  | null | bool _ | number _ | string _ => cases h

end Keeps

end Record

end Parley
