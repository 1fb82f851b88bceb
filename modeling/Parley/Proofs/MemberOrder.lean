import Mathlib.Data.List.Nodup
import Mathlib.Data.List.Pairwise
import Parley.Proofs.Decoding

/-!
# Records from members in any order

A record that is decoded from an object is what its members make of the blank record, one after the
other (`Record.Covers.ofMembers_eq`). If fields do not interfere (`Record.Independent`), their order
does not matter, so a record that was written in the order of its fields is decoded just as well
when its members have been put in the order of their names (`Record.Fills.ofJson_arranged`).
-/

namespace Parley

open Json

variable {α : Type}

/-! ### Fields that do not interfere -/

/-- The changes that two fields yield can be made in either order. -/
def Field.Commutes (f g : Field α) : Prop :=
  ∀ j j' c c', f.decoder.ofJson j = .ok c → g.decoder.ofJson j' = .ok c' → ∀ a, c (c' a) = c' (c a)

instance : Std.Symm (Field.Commutes : Field α → Field α → Prop) :=
  ⟨fun _ _ h j j' c c' hc hc' a ↦ (h j' j c' c hc' hc a).symm⟩

/-- Fields that put their values into different places. -/
theorem Field.commutes_of {β γ : Type} {name name' : String} {presence presence' : Presence}
    {d : Decoder β} {d' : Decoder γ} {set : α → β → α} {set' : α → γ → α}
    (h : ∀ a b b', set (set' a b') b = set' (set a b) b') :
    (Field.of name presence d set).Commutes (Field.of name' presence' d' set') := by
  intro j j' c c' hc hc' a
  obtain ⟨b, -, rfl⟩ := Decoder.exists_of_ofJson_map hc
  obtain ⟨b', -, rfl⟩ := Decoder.exists_of_ofJson_map hc'
  exact h a b b'

namespace Record

/-! ### Members and what they change -/

/-- What a member changes: nothing if it is no field or cannot be decoded. -/
def change (r : Record α) (member : String × Json) : α → α :=
  match r.field? member.1 with
  | some f => (f.decoder.ofJson member.2).toOption.getD id
  | none => id

theorem change_of_decodes {r : Record α} {p : String × Json} {f : Field α} {c : α → α}
    (hf : r.field? p.1 = some f) (hc : f.decoder.ofJson p.2 = .ok c) : r.change p = c := by
  unfold change
  rw [hf]
  dsimp only
  rw [hc]
  rfl

/-- The members are fields that can be decoded, each at most once, and no required one is left
out. -/
structure Covers (r : Record α) (ms : List (String × Json)) : Prop where
  nodup : (ms.map (·.1)).Nodup
  decodes : ∀ p ∈ ms, ∃ f c, r.field? p.1 = some f ∧ f.decoder.ofJson p.2 = .ok c
  required : ∀ f ∈ r.fields, f.presence = .required → f.name ∈ ms.map (·.1)

theorem name_of_field? {r : Record α} {name : String} {f : Field α} (h : r.field? name = some f) :
    f.name = name := by
  have hname := List.find?_some h
  simpa using hname

/-- Members that are fields and were not read before are taken in one by one. -/
theorem foldlM_addMember {r : Record α} {ms : List (String × Json)}
    (hdecodes : ∀ p ∈ ms, ∃ f c, r.field? p.1 = some f ∧ f.decoder.ofJson p.2 = .ok c)
    (hnodup : (ms.map (·.1)).Nodup) :
    ∀ d : Draft α, (∀ p ∈ ms, p.1 ∉ d.names) →
      ms.foldlM r.addMember d =
        .ok ⟨ms.foldl (fun a p ↦ r.change p a) d.value, (ms.map (·.1)).reverse ++ d.names⟩ := by
  induction ms with
  | nil => exact fun d _ ↦ rfl
  | cons p ms ih =>
    intro d hnew
    obtain ⟨⟨f, c, hf, hc⟩, hdecodes⟩ := List.forall_mem_cons.mp hdecodes
    obtain ⟨hapart, hnodup⟩ := List.nodup_cons.mp hnodup
    obtain ⟨hp, hnew⟩ := List.forall_mem_cons.mp hnew
    have hname := name_of_field? hf
    have hchange := change_of_decodes hf hc
    have hadd : r.addMember d p = .ok (d.fill p.1 c) := by
      have hcontains : ¬d.names.contains f.name = true := by simpa [hname] using hp
      rw [addMember, hf]
      dsimp only
      rw [if_neg hcontains, hc, hname]
      rfl
    have hrest := ih hdecodes hnodup (d.fill p.1 c) fun q hq hmem ↦ by
      rcases List.mem_cons.mp hmem with hsame | hmem
      · exact hapart (List.mem_map.mpr ⟨q, hq, hsame⟩)
      · exact hnew q hq hmem
    rw [List.foldlM_cons, hadd]
    refine hrest.trans ?_
    simp only [Draft.fill, List.foldl_cons, hchange, List.map_cons, List.reverse_cons,
      List.append_assoc, List.singleton_append]

/-- A record is what its members make of the blank one. -/
theorem Covers.ofMembers_eq {r : Record α} {ms : List (String × Json)} (h : r.Covers ms) :
    r.ofMembers ms = .ok (ms.foldl (fun a p ↦ r.change p a) r.blank) := by
  have hfold := foldlM_addMember h.decodes h.nodup r.start fun _ _ hmem ↦ nomatch hmem
  rw [ofMembers, hfold]
  refine finish_eq_ok fun f hf hpresence ↦ ?_
  exact List.mem_append_left _ (List.mem_reverse.mpr (h.required f hf hpresence))

/-- What a record asks of the members does not depend on their order. -/
theorem Covers.perm {r : Record α} {ms ms' : List (String × Json)} (h : r.Covers ms)
    (hperm : ms.Perm ms') : r.Covers ms' where
  nodup := (hperm.map _).nodup_iff.mp h.nodup
  decodes p hp := h.decodes p (hperm.mem_iff.mpr hp)
  required f hf hpresence := (hperm.map _).mem_iff.mp (h.required f hf hpresence)

/-! ### Independent fields -/

/-- What two members of different names change does not depend on their order. -/
def Independent (r : Record α) : Prop :=
  ∀ p q : String × Json, p.1 ≠ q.1 → ∀ a, r.change p (r.change q a) = r.change q (r.change p a)

/-- A member changes nothing, or what its field's decoder yields for it. -/
theorem change_eq (r : Record α) (p : String × Json) :
    r.change p = id ∨ ∃ f ∈ r.fields, f.name = p.1 ∧ f.decoder.ofJson p.2 = .ok (r.change p) := by
  unfold change
  split
  · rename_i f hf
    cases hc : f.decoder.ofJson p.2 with
    | error e => exact Or.inl rfl
    | ok c => exact Or.inr ⟨f, List.mem_of_find?_eq_some hf, name_of_field? hf, hc⟩
  · exact Or.inl rfl

/-- Members of a record do not depend on their order if its fields commute two by two. -/
theorem independent_of_pairwise {r : Record α} (h : r.fields.Pairwise Field.Commutes) :
    r.Independent := by
  intro p q hne a
  rcases r.change_eq p with hp | ⟨f, hf, hfp, hp⟩
  · rw [hp]
    rfl
  rcases r.change_eq q with hq | ⟨g, hg, hgq, hq⟩
  · rw [hq]
    rfl
  -- different names belong to different fields
  have hfg : f ≠ g := by
    rintro rfl
    exact hne (hfp.symm.trans hgq)
  exact h.forall hf hg hfg _ _ _ _ hp hq a

/-- Members of independent fields can be decoded in any order. -/
theorem Covers.ofMembers_perm {r : Record α} (hr : r.Independent) {ms ms' : List (String × Json)}
    (h : r.Covers ms) (hperm : ms.Perm ms') : r.ofMembers ms' = r.ofMembers ms := by
  have hfold : ms.foldl (fun a p ↦ r.change p a) r.blank =
      ms'.foldl (fun a p ↦ r.change p a) r.blank := by
    refine hperm.foldl_eq' ?_ r.blank
    intro p hp q hq a
    -- the same member twice, or two members, which then have different names
    by_cases hpq : p = q
    · rw [hpq]
    · have hne : p.1 ≠ q.1 := fun e ↦ hpq (List.inj_on_of_nodup_map h.nodup hp hq e)
      exact (hr p q hne a).symm
  rw [h.ofMembers_eq, (h.perm hperm).ofMembers_eq, hfold]

/-! ### Members in the order of the fields -/

/-- The members that fill some fields are among them, in their order, and make of one record the
other. -/
theorem Fills.members {r : Record α} {fs : List (Field α)} {ms : List (String × Json)} {a b : α}
    (h : Fills (fun _ dec j v ↦ dec.ofJson j = .ok v) fs ms a b)
    (hfs : ∀ f ∈ fs, r.field? f.name = some f) :
    (ms.map (·.1)).Sublist (fs.map (·.name)) ∧
      (∀ p ∈ ms, ∃ f c, r.field? p.1 = some f ∧ f.decoder.ofJson p.2 = .ok c) ∧
      (∀ f ∈ fs, f.presence = .required → f.name ∈ ms.map (·.1)) ∧
      ms.foldl (fun a p ↦ r.change p a) a = b := by
  induction h with
  | nil a => exact ⟨.slnil, fun _ hp ↦ (nomatch hp), fun _ hf ↦ (nomatch hf), rfl⟩
  | @present name presence γ dec set j v fs ms a b hread _ ih =>
    obtain ⟨hf, hfs⟩ := List.forall_mem_cons.mp hfs
    obtain ⟨hsub, hdecodes, hrequired, hfold⟩ := ih hfs
    have hc := Decoder.ofJson_map hread fun b a ↦ set a b
    have hchange : r.change (name, j) = fun a ↦ set a v := change_of_decodes hf hc
    refine ⟨hsub.cons_cons name, List.forall_mem_cons.mpr ⟨⟨_, _, hf, hc⟩, hdecodes⟩, ?_, ?_⟩
    · exact List.forall_mem_cons.mpr ⟨fun _ ↦ List.mem_cons_self,
        fun f hf hpresence ↦ List.mem_cons_of_mem _ (hrequired f hf hpresence)⟩
    · rw [List.foldl_cons, hchange]
      exact hfold
  | absent hf _ ih =>
    obtain ⟨hsub, hdecodes, hrequired, hfold⟩ := ih (List.forall_mem_cons.mp hfs).2
    exact ⟨hsub.cons _, hdecodes, List.forall_mem_cons.mpr ⟨fun h ↦ absurd h hf, hrequired⟩, hfold⟩

/-- Members that fill the fields one after the other make up a record, whatever the order in which
they come later. -/
theorem Fills.ofMembers {r : Record α} (hnames : (r.fields.map (·.name)).Nodup)
    {ms : List (String × Json)} {a : α}
    (h : Fills (fun _ dec j v ↦ dec.ofJson j = .ok v) r.fields ms r.blank a) :
    r.Covers ms ∧ r.ofMembers ms = .ok a := by
  obtain ⟨hsub, hdecodes, hrequired, hfold⟩ := h.members fun f hf ↦ field?_eq_some hnames hf
  have hcovers : r.Covers ms := ⟨hnames.sublist hsub, hdecodes, hrequired⟩
  exact ⟨hcovers, hfold ▸ hcovers.ofMembers_eq⟩

/-! ### Members in the order of their names -/

/-- Putting members of different names in order is putting them in another order. -/
theorem perm_foldl_put {l : List (String × Json)} (hnodup : (l.map (·.1)).Nodup) :
    ∀ done : List (String × Json), (∀ p ∈ l, p.1 ∉ done.map (·.1)) →
      (l.foldl (fun done p ↦ KeyedList.put p.1 p.2 done) done).Perm (l ++ done) := by
  induction l with
  | nil => exact fun done _ ↦ .refl done
  | cons p l ih =>
    intro done hnew
    obtain ⟨hapart, hnodup⟩ := List.nodup_cons.mp hnodup
    obtain ⟨hp, hnew⟩ := List.forall_mem_cons.mp hnew
    have hput := KeyedList.perm_put p.2 hp
    have hrest := ih hnodup (KeyedList.put p.1 p.2 done) fun q hq hmem ↦ by
      rcases List.mem_cons.mp ((hput.map _).mem_iff.mp hmem) with hsame | hmem
      · exact hapart (List.mem_map.mpr ⟨q, hq, hsame⟩)
      · exact hnew q hq hmem
    exact hrest.trans ((hput.append_left l).trans List.perm_middle)

/-- Members that are put in order inside still fill the fields. -/
theorem Fills.arranged {fs : List (Field α)} {ms : List (String × Json)} {a b : α}
    (h : Fills (fun _ dec j v ↦ dec.ofJson j.arranged = .ok v) fs ms a b) :
    Fills (fun _ dec j v ↦ dec.ofJson j = .ok v) fs (ms.map fun p ↦ (p.1, p.2.arranged)) a b := by
  induction h with
  | nil a => exact .nil a
  | present hread _ ih => exact .present hread ih
  | absent hf _ ih => exact .absent hf ih

/-- A record that was written in the order of its fields is decoded from its members in the order of
their names. -/
theorem Fills.ofJson_arranged {r : Record α} (hnames : (r.fields.map (·.name)).Nodup)
    (hr : r.Independent) {ms : List (String × Json)} {a : α}
    (h : Fills (fun _ dec j v ↦ dec.ofJson j.arranged = .ok v) r.fields ms r.blank a) :
    r.ofJson (Json.object ms).arranged = .ok a := by
  obtain ⟨hcovers, hmembers⟩ := h.arranged.ofMembers hnames
  have hperm := perm_foldl_put hcovers.nodup [] fun _ _ hmem ↦ nomatch hmem
  rw [List.append_nil, List.foldl_map] at hperm
  rw [arranged_object, ofJson, hcovers.ofMembers_perm hr hperm.symm, hmembers]

end Record

end Parley
