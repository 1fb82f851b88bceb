import Mathlib.Data.List.Forall2
import Mathlib.Data.List.Count
import Parley.Proofs.MemberOrder

/-!
# Empty lists, however they are written

A list-valued member of an object may be empty in three ways: it is left out, it is `null`, or it is
an empty array. `Respells` relates the members of two objects that differ in nothing else.

For a record whose fields do not interfere, the members that are empty lists make no change to the
blank record, so an object that is spelled like one that can be decoded is decoded as the same
record, as long as its empty lists can be decoded at all (`Record.Rewritten.ofMembers_eq`). Where
one of them is refused, so is the object (`Record.Rewritten.ofMembers_eq_error`).
-/

namespace Parley

/-- The value is an empty list, or stands for one. -/
def Json.isEmptyList : Json → Bool
  | .null => true
  | .array [] => true
  | _ => false

theorem Json.isEmptyList_iff {j : Json} : j.isEmptyList = true ↔ j ∈ [Json.null, .array []] := by
  match j with
  | .null | .array [] => exact ⟨fun _ ↦ by simp, fun _ ↦ rfl⟩
  | .array (_ :: _) | .bool _ | .number _ | .string _ | .object _ =>
    exact ⟨nofun, fun h ↦ by simp at h⟩

/-- The members without the empty lists under some names. -/
def withoutEmpty (lists : List String) (ms : List (String × Json)) : List (String × Json) :=
  ms.filter fun p ↦ !(decide (p.1 ∈ lists) && p.2.isEmptyList)

/-- The members are those of another object, but for empty lists under `lists`, each of which may be
there or not, and for values that `R` relates. -/
structure Respells (lists : List String) (R : String → Json → Json → Prop)
    (ms ms' : List (String × Json)) : Prop where
  alike : List.Forall₂ (fun p p' ↦ p.1 = p'.1 ∧ R p.1 p.2 p'.2) (withoutEmpty lists ms)
    (withoutEmpty lists ms')
  once : ∀ name ∈ lists, (ms'.map (·.1)).count name ≤ 1

namespace Record

variable {α : Type} {r : Record α} {ms ms' : List (String × Json)}

/-! ### Members that are fields -/

/-- The members that are fields. -/
def known (r : Record α) (ms : List (String × Json)) : List (String × Json) :=
  ms.filter fun p ↦ (r.field? p.1).isSome

/-- Other members are passed over. -/
theorem ofMembers_known (hkeep : r.keep = none) (ms : List (String × Json)) :
    r.ofMembers (r.known ms) = r.ofMembers ms := by
  have hfold : ∀ d : Draft α, (r.known ms).foldlM r.addMember d = ms.foldlM r.addMember d := by
    induction ms with
    | nil => exact fun _ ↦ rfl
    | cons p ms ih =>
      intro d
      rcases hf : r.field? p.1 with - | f
      · have hskip : r.addMember d p = .ok d := by rw [addMember, hf, hkeep]
        have hknown : r.known (p :: ms) = r.known ms := List.filter_cons_of_neg (by simp [hf])
        rw [hknown, List.foldlM_cons, hskip]
        exact ih d
      · have hknown : r.known (p :: ms) = p :: r.known ms :=
          List.filter_cons_of_pos (by simp [hf])
        rw [hknown, List.foldlM_cons, List.foldlM_cons]
        exact congrArg _ (funext ih)
  rw [ofMembers, hfold, ofMembers]

/-- A member that is a field has been taken in only if it is new and can be decoded. -/
theorem exists_of_addMember {d d' : Draft α} {p : String × Json} {f : Field α}
    (hf : r.field? p.1 = some f) (h : r.addMember d p = .ok d') :
    p.1 ∉ d.names ∧ ∃ c, f.decoder.ofJson p.2 = .ok c ∧ d' = d.fill p.1 c := by
  have hname := name_of_field? hf
  rw [addMember, hf] at h
  dsimp only at h
  split at h
  · cases h
  · rename_i hnew
    obtain ⟨c, hc, hd⟩ := exists_of_bind_eq_ok h
    cases hd
    rw [hname] at hnew ⊢
    exact ⟨by simpa using hnew, c, hc, rfl⟩

/-- Members that are taken in, all of them known, could be decoded and are told apart by name. The
draft keeps the list of names, so the induction speaks of the names that it had. -/
theorem covers_of_foldlM (hknown : ∀ p ∈ ms, (r.field? p.1).isSome) :
    ∀ {d d' : Draft α}, ms.foldlM r.addMember d = .ok d' →
      (∀ p ∈ ms, ∃ f c, r.field? p.1 = some f ∧ f.decoder.ofJson p.2 = .ok c) ∧
        (ms.map (·.1)).Nodup ∧ (∀ p ∈ ms, p.1 ∉ d.names) ∧
        ∀ name ∈ d'.names, name ∈ ms.map (·.1) ∨ name ∈ d.names := by
  induction ms with
  | nil =>
    intro d d' h
    cases h
    exact ⟨fun _ hp ↦ (nomatch hp), .nil, fun _ hp ↦ (nomatch hp), fun _ hn ↦ .inr hn⟩
  | cons p ms ih =>
    intro d d' h
    obtain ⟨hp, hknown⟩ := List.forall_mem_cons.mp hknown
    obtain ⟨f, hf⟩ := Option.isSome_iff_exists.mp hp
    rw [List.foldlM_cons] at h
    obtain ⟨d₁, hadd, hrest⟩ := exists_of_bind_eq_ok h
    obtain ⟨hnew, c, hc, rfl⟩ := exists_of_addMember hf hadd
    obtain ⟨hdecodes, hnodup, hapart, hnames⟩ := ih hknown hrest
    refine ⟨List.forall_mem_cons.mpr ⟨⟨f, c, hf, hc⟩, hdecodes⟩, ?_, ?_, ?_⟩
    · refine List.nodup_cons.mpr ⟨fun hmem ↦ ?_, hnodup⟩
      obtain ⟨q, hq, hsame⟩ := List.mem_map.mp hmem
      exact hapart q hq (hsame ▸ List.mem_cons_self)
    · exact List.forall_mem_cons.mpr
        ⟨hnew, fun q hq hmem ↦ hapart q hq (List.mem_cons_of_mem _ hmem)⟩
    · intro name hn
      rcases hnames name hn with hn | hn
      · exact .inl (List.mem_cons_of_mem _ hn)
      · refine (List.mem_cons.mp hn).imp_left fun hsame ↦ ?_
        rw [hsame]
        exact List.mem_cons_self

theorem required_of_finish {d : Draft α} {a : α} (h : r.finish d = .ok a) :
    ∀ f ∈ r.fields, f.presence = .required → f.name ∈ d.names := by
  rw [finish] at h
  split at h
  · cases h
  · rename_i hfind
    intro f hf hpresence
    simpa [hpresence] using List.find?_eq_none.mp hfind f hf

/-- Where decoding has a result, the fields were there at most once and could be decoded. -/
theorem covers_of_ofMembers {a : α} (h : r.ofMembers ms = .ok a)
    (hknown : ∀ p ∈ ms, (r.field? p.1).isSome) : r.Covers ms := by
  obtain ⟨d, hfold, hfinish⟩ := exists_of_bind_eq_ok h
  obtain ⟨hdecodes, hnodup, -, hnames⟩ := covers_of_foldlM hknown hfold
  refine ⟨hnodup, hdecodes, fun f hf hpresence ↦ ?_⟩
  exact (hnames f.name (required_of_finish hfinish f hf hpresence)).resolve_right nofun

/-! ### Objects that are spelled alike -/

/-- What respelling needs of a record: its fields do not interfere, the lists are not required, an
empty list changes nothing in the blank record, and related values are decoded alike. -/
structure Tolerates (r : Record α) (lists : List String) (R : String → Json → Json → Prop) :
    Prop where
  keep : r.keep = none
  independent : r.Independent
  optional : ∀ f ∈ r.fields, f.presence = .required → f.name ∉ lists
  empty : ∀ name ∈ lists, ∀ j : Json, j.isEmptyList = true → r.change (name, j) r.blank = r.blank
  alike : ∀ {name j j' f c}, R name j j' → r.field? name = some f → f.decoder.ofJson j = .ok c →
    f.decoder.ofJson j' = .ok c

variable {lists : List String} {R : String → Json → Json → Prop}

theorem withoutEmpty_known (r : Record α) (lists : List String) (ms : List (String × Json)) :
    withoutEmpty lists (r.known ms) = r.known (withoutEmpty lists ms) := List.filter_comm ..

/-- Empty lists can be left out. -/
theorem Covers.foldl_withoutEmpty (hr : r.Tolerates lists R) (h : r.Covers ms) :
    ms.foldl (fun a p ↦ r.change p a) r.blank =
      (withoutEmpty lists ms).foldl (fun a p ↦ r.change p a) r.blank := by
  have hsplit := List.filter_append_perm (fun p ↦ decide (p.1 ∈ lists) && p.2.isEmptyList) ms
  -- the empty lists come first, since the fields do not interfere
  have hperm := h.ofMembers_perm hr.independent hsplit.symm
  rw [h.ofMembers_eq, (h.perm hsplit.symm).ofMembers_eq, List.foldl_append] at hperm
  have hempty : ∀ l : List (String × Json),
      (l.filter fun p ↦ decide (p.1 ∈ lists) && p.2.isEmptyList).foldl
        (fun a p ↦ r.change p a) r.blank = r.blank := by
    intro l
    induction l with
    | nil => rfl
    | cons p l ih =>
      rw [List.filter_cons]
      split
      · rename_i hp
        obtain ⟨hlist, hp⟩ := Bool.and_eq_true_iff.mp hp
        rw [List.foldl_cons, hr.empty p.1 (of_decide_eq_true hlist) p.2 hp, ih]
      · exact ih
  rw [hempty] at hperm
  exact (Except.ok.inj hperm).symm

/-- Members that are alike have the same names and make the same changes. -/
theorem foldl_alike (hr : r.Tolerates lists R)
    (h : List.Forall₂ (fun p p' ↦ p.1 = p'.1 ∧ R p.1 p.2 p'.2) ms ms')
    (hdecodes : ∀ p ∈ ms, ∃ f c, r.field? p.1 = some f ∧ f.decoder.ofJson p.2 = .ok c) :
    ms'.map (·.1) = ms.map (·.1) ∧
      (∀ p ∈ ms', ∃ f c, r.field? p.1 = some f ∧ f.decoder.ofJson p.2 = .ok c) ∧
      ∀ a, ms'.foldl (fun a p ↦ r.change p a) a = ms.foldl (fun a p ↦ r.change p a) a := by
  induction h with
  | nil => exact ⟨rfl, fun _ hp ↦ (nomatch hp), fun _ ↦ rfl⟩
  | @cons p p' ms ms' hp _ ih =>
    obtain ⟨⟨f, c, hf, hc⟩, hdecodes⟩ := List.forall_mem_cons.mp hdecodes
    obtain ⟨hnames, hdecodes', hfold⟩ := ih hdecodes
    obtain ⟨hname, hR⟩ := hp
    have hc' : f.decoder.ofJson p'.2 = .ok c := hr.alike hR hf hc
    have hf' : r.field? p'.1 = some f := hname ▸ hf
    refine ⟨by rw [List.map_cons, List.map_cons, hnames, hname],
      List.forall_mem_cons.mpr ⟨⟨f, c, hf', hc'⟩, hdecodes'⟩, fun a ↦ ?_⟩
    rw [List.foldl_cons, List.foldl_cons, change_of_decodes hf hc, change_of_decodes hf' hc']
    exact hfold (c a)

/-- Leaving out lists does not change how often another name occurs. -/
theorem count_withoutEmpty {name : String} (hname : name ∉ lists) (ms : List (String × Json)) :
    ((withoutEmpty lists ms).map (·.1)).count name = (ms.map (·.1)).count name := by
  rw [List.count_eq_countP, List.count_eq_countP, List.countP_map, List.countP_map, withoutEmpty,
    List.countP_filter]
  refine List.countP_congr fun p _ ↦ ?_
  simp only [Function.comp, Bool.and_eq_true, beq_iff_eq, and_iff_left_iff_imp]
  rintro rfl
  simp [hname]

/-- What is known of the members of an object that is spelled like one that is decoded: no name
occurs twice, no required field is missing, and those that are no empty lists can be decoded. -/
structure Rewritten (r : Record α) (lists : List String) (ms : List (String × Json)) (a : α) :
    Prop where
  nodup : (ms.map (·.1)).Nodup
  decodes : ∀ p ∈ withoutEmpty lists ms, ∃ f c, r.field? p.1 = some f ∧ f.decoder.ofJson p.2 = .ok c
  required : ∀ f ∈ r.fields, f.presence = .required → f.name ∈ ms.map (·.1)
  foldl : (withoutEmpty lists ms).foldl (fun a p ↦ r.change p a) r.blank = a

/-- What is known of a decoded object carries over to its respelling, member by member. -/
theorem rewritten_of_respells (hr : r.Tolerates lists R) {a : α} (h : r.ofMembers ms = .ok a)
    (halike : Respells lists R ms ms') : r.Rewritten lists (r.known ms') a := by
  have hcovers : r.Covers (r.known ms) :=
    covers_of_ofMembers ((ofMembers_known hr.keep ms).trans h) fun p hp ↦ (List.mem_filter.mp hp).2
  have hfirst : (withoutEmpty lists (r.known ms)).foldl (fun a p ↦ r.change p a) r.blank = a := by
    rw [← hcovers.foldl_withoutEmpty hr]
    exact Except.ok.inj (hcovers.ofMembers_eq.symm.trans ((ofMembers_known hr.keep ms).trans h))
  have hpairs : List.Forall₂ (fun p p' ↦ p.1 = p'.1 ∧ R p.1 p.2 p'.2)
      (withoutEmpty lists (r.known ms)) (withoutEmpty lists (r.known ms')) := by
    rw [withoutEmpty_known, withoutEmpty_known]
    refine List.rel_filter (fun p p' hp ↦ ?_) halike.alike
    show (r.field? p.1).isSome = true ↔ (r.field? p'.1).isSome = true
    rw [hp.1]
  obtain ⟨hnames, hdecodes, hfold⟩ := foldl_alike hr hpairs fun p hp ↦
    hcovers.decodes p (List.mem_of_mem_filter hp)
  have hother : ∀ name ∉ lists,
      ((r.known ms').map (·.1)).count name = ((r.known ms).map (·.1)).count name := by
    intro name hname
    rw [← count_withoutEmpty hname, hnames, count_withoutEmpty hname]
  refine ⟨List.nodup_iff_count_le_one.mpr fun name ↦ ?_, hdecodes, fun f hf hpresence ↦ ?_,
    (hfold _).trans hfirst⟩
  · by_cases hname : name ∈ lists
    · exact ((List.filter_sublist.map _).count_le name).trans (halike.once name hname)
    · exact (hother name hname).le.trans (List.nodup_iff_count_le_one.mp hcovers.nodup name)
  · have hcount := hother f.name (hr.optional f hf hpresence)
    rw [← List.count_pos_iff, hcount, List.count_pos_iff]
    exact hcovers.required f hf hpresence

/-- If its empty lists can be decoded, so can the object. -/
theorem Rewritten.ofMembers_eq (hr : r.Tolerates lists R) {a : α} (h : r.Rewritten lists ms a)
    (hempty : ∀ p ∈ ms, p.1 ∈ lists → p.2.isEmptyList = true →
      ∃ f c, r.field? p.1 = some f ∧ f.decoder.ofJson p.2 = .ok c) : r.ofMembers ms = .ok a := by
  have hcovers : r.Covers ms := by
    refine ⟨h.nodup, fun p hp ↦ ?_, h.required⟩
    by_cases hlist : p.1 ∈ lists ∧ p.2.isEmptyList = true
    · exact hempty p hp hlist.1 hlist.2
    · exact h.decodes p (List.mem_filter.mpr ⟨hp, by simpa [or_iff_not_imp_left] using hlist⟩)
  rw [hcovers.ofMembers_eq, hcovers.foldl_withoutEmpty hr, h.foldl]

/-- Taking in members stops at the first one that cannot be decoded. -/
theorem foldlM_addMember_error {e : Json.Problem}
    (hdecodes : ∀ p ∈ ms, ∃ f, r.field? p.1 = some f ∧
      ((∃ c, f.decoder.ofJson p.2 = .ok c) ∨ f.decoder.ofJson p.2 = .error e))
    (hnodup : (ms.map (·.1)).Nodup) :
    ∀ d : Draft α, (∀ p ∈ ms, p.1 ∉ d.names) →
      (∃ p ∈ ms, ∃ f, r.field? p.1 = some f ∧ f.decoder.ofJson p.2 = .error e) →
        ms.foldlM r.addMember d = .error e := by
  induction ms with
  | nil =>
    rintro _ _ ⟨_, hp, -⟩
    cases hp
  | cons p ms ih =>
    intro d hnew hbad
    obtain ⟨⟨f, hf, hread⟩, hdecodes⟩ := List.forall_mem_cons.mp hdecodes
    obtain ⟨hapart, hnodup⟩ := List.nodup_cons.mp hnodup
    obtain ⟨hp, hnew⟩ := List.forall_mem_cons.mp hnew
    have hname := name_of_field? hf
    have hcontains : ¬d.names.contains f.name = true := by simpa [hname] using hp
    have hadd : r.addMember d p = do return d.fill f.name (← f.decoder.ofJson p.2) := by
      rw [addMember, hf]
      exact if_neg hcontains
    rcases hread with ⟨c, hc⟩ | he
    · rw [List.foldlM_cons, hadd, hc]
      refine ih hdecodes hnodup (d.fill f.name c) (fun q hq hmem ↦ ?_) ?_
      · rcases List.mem_cons.mp hmem with hsame | hmem
        · exact hapart (List.mem_map.mpr ⟨q, hq, hsame.trans hname⟩)
        · exact hnew q hq hmem
      · obtain ⟨q, hq, g, hg, he⟩ := hbad
        rcases List.mem_cons.mp hq with rfl | hq
        · cases Option.some.inj (hf.symm.trans hg)
          cases hc.symm.trans he
        · exact ⟨q, hq, g, hg, he⟩
    · rw [List.foldlM_cons, hadd, he]
      rfl

/-- If an empty list is refused, so is the object. -/
theorem Rewritten.ofMembers_eq_error {a : α} (h : r.Rewritten lists ms a) {e : Json.Problem}
    (hempty : ∀ p ∈ ms, p.1 ∈ lists → p.2.isEmptyList = true →
      ∃ f, r.field? p.1 = some f ∧
        ((∃ c, f.decoder.ofJson p.2 = .ok c) ∨ f.decoder.ofJson p.2 = .error e))
    (hbad : ∃ p ∈ ms, ∃ f, r.field? p.1 = some f ∧ f.decoder.ofJson p.2 = .error e) :
    r.ofMembers ms = .error e := by
  have hdecodes : ∀ p ∈ ms, ∃ f, r.field? p.1 = some f ∧
      ((∃ c, f.decoder.ofJson p.2 = .ok c) ∨ f.decoder.ofJson p.2 = .error e) := by
    intro p hp
    by_cases hlist : p.1 ∈ lists ∧ p.2.isEmptyList = true
    · exact hempty p hp hlist.1 hlist.2
    · obtain ⟨f, c, hf, hc⟩ := h.decodes p
        (List.mem_filter.mpr ⟨hp, by simpa [or_iff_not_imp_left] using hlist⟩)
      exact ⟨f, hf, .inl ⟨c, hc⟩⟩
  rw [ofMembers, foldlM_addMember_error hdecodes h.nodup r.start (fun _ _ ↦ List.not_mem_nil) hbad]
  rfl

end Record

end Parley
