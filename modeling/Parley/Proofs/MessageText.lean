import Parley.Message
import Parley.Proofs.MemberOrder
import Parley.Proofs.Moments

/-!
# Messages read back

A message that was decoded, however its record spelled it, is written in one way, and what is
written is decoded as the same message (`Message.ofJson_toJson`). This is so whether its members
stand in the order of the fields, as they are written, or in the order of their names, as they come
out of a text.

**Legible messages.** Two halves meet at `Message.Legible`: legible messages come back
(`Message.ofJson_of_legible`), and whatever is decoded is legible (`Message.legible_of_ofJson`).
The members of a message are gone through once (`Message.fills`), for all that is said of them.
-/

namespace Parley

open Json

/-! ### Strings and truth values -/

namespace Json

/-- A string or a truth value. -/
inductive Plain : Json → Prop
  | bool (b : Bool) : Plain (.bool b)
  | string (s : String) : Plain (.string s)

namespace Plain

variable {j : Json}

/-- A plain value has nothing to put in order. -/
theorem inOrder (h : j.Plain) : InOrder j := by
  cases h with
  | bool b => exact .bool b
  | string s => exact .string s

/-- There is no number in a plain value. -/
theorem integral (h : j.Plain) : j.Integral := by
  cases h with
  | bool b => exact .bool b
  | string s => exact .string s

/-- A plain value opens no bracket. -/
theorem fits (h : j.Plain) (depth : Nat) : Fits depth j := by
  cases h with
  | bool b => exact .bool depth b
  | string s => exact .string depth s

end Plain

end Json

/-! ### Flags -/

namespace Status

variable {R : ∀ γ : Type, Decoder γ → Json → γ → Prop}

/-- Taking some flags over one by one. -/
theorem get_foldl_set (s : Status) (g : Flag) (l : List Flag) :
    ∀ a : Status, (l.foldl (fun a f ↦ a.set f (s.get f)) a).get g =
      if g ∈ l then s.get g else a.get g := by
  induction l with
  | nil => exact fun a ↦ (if_neg List.not_mem_nil).symm
  | cons f l ih =>
    intro a
    rw [List.foldl_cons, ih, get_set]
    by_cases hl : g ∈ l
    · rw [if_pos hl, if_pos (List.mem_cons_of_mem f hl)]
    · rw [if_neg hl]
      by_cases hf : g = f
      · rw [if_pos hf, if_pos (List.mem_cons.mpr (.inl hf)), hf]
      · rw [if_neg hf, if_neg (by simp [hf, hl])]

/-- The members of some flags set just these. -/
theorem fills_flags (hR : ∀ b, R Bool .bool (.bool b) b) (s : Status) (l : List Flag) :
    ∀ a : Status, Record.Fills R
      (l.map fun f ↦ Field.of f.key .defaulted Decoder.bool fun s b ↦ s.set f b)
      (l.map fun f ↦ (f.key, .bool (s.get f))) a (l.foldl (fun a f ↦ a.set f (s.get f)) a) := by
  induction l with
  | nil => exact fun a ↦ .nil a
  | cons f l ih => exact fun a ↦ .present (hR (s.get f)) (ih (a.set f (s.get f)))

/-- The flags of a status fill its record, whichever way they are decoded. -/
theorem fills (hR : ∀ b, R Bool .bool (.bool b) b) (s : Status) :
    Record.Fills R record.fields (Flag.all.map fun f ↦ (f.key, .bool (s.get f))) record.blank
      s := by
  have hset : Flag.all.foldl (fun a f ↦ a.set f (s.get f)) none = s :=
    ext fun g ↦ by rw [get_foldl_set, if_pos g.mem_all]
  have hfills := s.fills_flags hR Flag.all none
  rwa [hset] at hfills

/-- Each flag is a field of its own, so their order makes no difference. -/
theorem independent_record : record.Independent := by
  refine Record.independent_of_pairwise (List.pairwise_map.mpr ?_)
  refine List.Pairwise.imp (fun {f g} hne ↦ ?_) (show Flag.all.Nodup by decide)
  refine Field.commutes_of fun s b b' ↦ ext fun e ↦ ?_
  rw [get_set, get_set, get_set, get_set]
  by_cases hf : e = f
  · have hg : e ≠ g := hf ▸ hne
    rw [if_pos hf, if_neg hg, if_pos hf]
  · rw [if_neg hf, if_neg hf]

theorem names_record : (record.fields.map (·.name)).Nodup := by decide

theorem ofJson_toJson (s : Status) : decoder.ofJson s.toJson = .ok s :=
  ((s.fills fun _ ↦ rfl).ofMembers names_record).2

/-- A status is decoded from what it is written as, also when its members are put in order. -/
theorem ofJson_arranged_toJson (s : Status) : decoder.ofJson s.toJson.arranged = .ok s :=
  Record.Fills.ofJson_arranged names_record independent_record
    (s.fills fun b ↦ by rw [arranged_eq_self (.bool b)]; rfl)

theorem integral_toJson (s : Status) : s.toJson.Integral :=
  .object (s.fills (R := fun _ _ j _ ↦ j.Integral) .bool).forall

/-- A status opens one bracket. -/
theorem fits_toJson (s : Status) (depth : Nat) : Fits (depth + 1) s.toJson :=
  .object (s.fills (R := fun _ _ j _ ↦ Fits depth j) (.bool depth)).forall

end Status

namespace Message

/-! ### Legible messages -/

/-- The message says which event it is and which conversation it belongs to, and its date is a
moment that can be read. -/
structure Legible (m : Message) : Prop where
  uri : Text.isBlankText m.uri = false
  connectionUri : Text.isBlankText m.connectionUri = false
  date : ∀ t ∈ m.date, t.OnClock

/-- A date that was decoded has a leap second, if at all, at the end of a minute. -/
theorem onClock_of_dateDecoder {j : Json} {t : Timestamp} (h : dateDecoder.ofJson j = .ok t) :
    t.OnClock := by
  cases j with
  | string s => exact Timestamp.onClock_ofText (eq_ok_of_mapError h)
  | null | bool _ | number _ | array _ | object _ => cases h

/-- Whatever is decoded as a message has a date that can be read. -/
theorem onClock_of_record {j : Json} {m : Message} (h : record.ofJson j = .ok m) :
    ∀ t ∈ m.date, t.OnClock := by
  refine Record.keeps_ofJson (r := record) (I := fun m ↦ ∀ t ∈ m.date, t.OnClock)
    (fun _ ht ↦ nomatch ht) ?_ (fun _ hkeep ↦ nomatch hkeep) h
  simp only [record, List.forall_mem_cons]
  refine ⟨?_, ?_, ?_, ?_, ?_, ?_, ?_, ?_, ?_, ?_, ?_, ?_, ?_, fun _ hf ↦ nomatch hf⟩
  -- only the date is in question
  case refine_4 =>
    have hdate : ∀ j v, (Decoder.nullable dateDecoder).ofJson j = .ok v → ∀ t ∈ v, t.OnClock := by
      rintro j v hv t rfl
      exact onClock_of_dateDecoder (Decoder.ofJson_of_nullable hv)
    exact Record.fieldKeeps_of hdate fun _ _ hv _ ↦ hv
  all_goals exact Record.fieldKeeps_of (fun _ _ _ ↦ trivial) fun _ _ _ hm ↦ hm

/-- A record is a message if it has the fields of one and says which event and which conversation it
belongs to. -/
theorem ofJson_eq_ok_iff {j : Json} {m : Message} :
    ofJson j = .ok m ↔ record.ofJson j = .ok m ∧ Text.isBlankText m.uri = false ∧
      Text.isBlankText m.connectionUri = false := by
  constructor
  · intro h
    obtain ⟨m', hrecord, h⟩ := exists_of_bind_eq_ok h
    split at h
    · cases h
    · rename_i huri
      split at h
      · cases h
      · rename_i hconnection
        cases h
        rw [Bool.not_eq_true] at huri hconnection
        exact ⟨eq_ok_of_mapError hrecord, huri, hconnection⟩
  · rintro ⟨hrecord, huri, hconnection⟩
    unfold ofJson
    rw [hrecord]
    dsimp only [Except.mapError, bind, Except.bind]
    rw [huri, hconnection]
    rfl

/-- Whatever is decoded as a message is legible. -/
theorem legible_of_ofJson {j : Json} {m : Message} (h : ofJson j = .ok m) : m.Legible := by
  obtain ⟨hrecord, huri, hconnection⟩ := ofJson_eq_ok_iff.mp h
  exact ⟨huri, hconnection, onClock_of_record hrecord⟩

/-! ### The members of a message -/

section Members

variable {R : ∀ γ : Type, Decoder γ → Json → γ → Prop}

/-- What is written of a message fills its fields: with strings and truth values that are decoded as
what was there, and with the status. -/
theorem fills {m : Message} (hm : m.Legible)
    (hR : ∀ {γ : Type} {dec : Decoder γ} {j : Json} {v : γ}, j.Plain → dec.ofJson j = .ok v →
      R γ dec j v)
    (hstatus : R Status Status.decoder m.status.toJson m.status) :
    ∃ ms, m.toJson = .object ms ∧ Record.Fills R record.fields ms record.blank m := by
  have htext : ∀ s, R (Option String) (.nullable .text) (.string s) (some s) :=
    fun s ↦ hR (.string s) rfl
  have hbool : ∀ b, R Bool .bool (.bool b) b := fun b ↦ hR (.bool b) rfl
  have hdate : ∀ t ∈ m.date,
      R (Option Timestamp) (.nullable dateDecoder) (.string t.toText) (some t) := by
    intro t ht
    refine hR (.string _) ?_
    have hread := Timestamp.ofText_toText (hm.date t ht)
    dsimp only [Decoder.nullable, dateDecoder, Decoder.parsedText]
    rw [hread]
    rfl
  have hkind : R Kind (.oneOf fun w ↦ .ok (Kind.ofWord w)) (.string m.kind.word) m.kind :=
    hR (.string _) (congrArg Except.ok m.kind.ofWord_word)
  -- the date is written as its text
  have hmember : optionalMember "date" (m.date.map Timestamp.toText) =
      (m.date.map fun t ↦ ("date", .string t.toText)).toList := by
    rw [optionalMember, Option.map_map]
    rfl
  rw [toJson, hmember]
  refine ⟨_, rfl, ?_⟩
  simp only [List.append_assoc, List.cons_append, List.nil_append]
  refine .present (hR (.string m.uri) rfl) ?_
  refine .optional (fun s _ ↦ htext s) rfl ?_
  refine .present (hR (.string m.connectionUri) rfl) ?_
  refine .optional hdate rfl ?_
  refine .optional (fun s _ ↦ htext s) rfl ?_
  refine .present hkind ?_
  refine .present (hbool m.forwarded) ?_
  refine .present (hbool m.unread) ?_
  refine .present (hbool m.outgoing) ?_
  refine .optional (fun s _ ↦ htext s) rfl ?_
  refine .optional (fun s _ ↦ htext s) rfl ?_
  exact .present hstatus (.present (hbool m.upToDate) (.nil m))

end Members

/-- Each member of a message is a field of its own. -/
theorem independent_record : record.Independent := by
  refine Record.independent_of_pairwise ?_
  simp only [record, List.pairwise_cons, List.forall_mem_cons, List.not_mem_nil, false_imp_iff,
    implies_true, and_true, List.Pairwise.nil]
  -- each of two fields sets a component that the other one leaves
  and_intros <;> exact Field.commutes_of fun _ _ _ ↦ rfl

theorem names_record : (record.fields.map (·.name)).Nodup := by decide

/-! ### Round trip -/

/-- A legible message is written as what is decoded as it. -/
theorem ofJson_of_legible {m : Message} (hm : m.Legible) :
    ofJson m.toJson = .ok m ∧ ofJson m.toJson.arranged = .ok m := by
  constructor
  · obtain ⟨ms, hms, hfills⟩ := m.fills (R := fun _ dec j v ↦ dec.ofJson j = .ok v) hm
      (fun _ h ↦ h) m.status.ofJson_toJson
    rw [hms, ofJson_eq_ok_iff]
    exact ⟨(hfills.ofMembers names_record).2, hm.uri, hm.connectionUri⟩
  · obtain ⟨ms, hms, hfills⟩ := m.fills (R := fun _ dec j v ↦ dec.ofJson j.arranged = .ok v) hm
      (fun hj h ↦ by rwa [arranged_eq_self hj.inOrder]) m.status.ofJson_arranged_toJson
    rw [hms, ofJson_eq_ok_iff]
    exact ⟨hfills.ofJson_arranged names_record independent_record, hm.uri, hm.connectionUri⟩

theorem integral_toJson {m : Message} (hm : m.Legible) : m.toJson.Integral := by
  obtain ⟨ms, hms, hfills⟩ := m.fills (R := fun _ _ j _ ↦ j.Integral) hm
    (fun hj _ ↦ hj.integral) m.status.integral_toJson
  exact hms ▸ .object hfills.forall

/-- A message opens two brackets, one of them for its status. -/
theorem fits_toJson {m : Message} (hm : m.Legible) (depth : Nat) : Fits (depth + 2) m.toJson := by
  obtain ⟨ms, hms, hfills⟩ := m.fills (R := fun _ _ j _ ↦ Fits (depth + 1) j) hm
    (fun hj _ ↦ hj.fits (depth + 1)) (m.status.fits_toJson depth)
  exact hms ▸ .object hfills.forall

/-- **Messages survive.** Whatever is decoded as a message is decoded as the same message once it
has been written, both from the members as they are written and in the order in which they come out
of its text. -/
theorem ofJson_toJson {j : Json} {m : Message} (h : ofJson j = .ok m) :
    ofJson m.toJson = .ok m ∧ ofJson m.toJson.arranged = .ok m ∧
      ofText m.toJson.compact = .ok m.toJson.arranged ∧
      ofText m.toJson.indented = .ok m.toJson.arranged := by
  have hm := legible_of_ofJson h
  have hwritten : ∀ style : Layout, style.IsBlank →
      ofText (String.ofList (write style 0 m.toJson)) = .ok m.toJson.arranged := by
    intro style hs
    have htext : ofText (String.ofList (write style 0 m.toJson ++ [])) = .ok m.toJson.arranged :=
      ofText_write hs (fits_toJson hm 125) (integral_toJson hm) Reader.blank_nil
    rwa [List.append_nil] at htext
  exact ⟨(ofJson_of_legible hm).1, (ofJson_of_legible hm).2, hwritten _ Layout.isBlank_compact,
    hwritten _ Layout.isBlank_indented⟩

end Message

end Parley
