import Parley.Decoder.Record
import Parley.Proofs.DocumentDecoding
import Parley.Proofs.Skipping

/-!
# Texts and records

A record that is read from a text is the one that the document of the text is decoded as
(`Record.Follows.decoder`), from an object or from an array. The fields take in what comes behind
their names, or stands in their place, as they take in values (`Field.Follows`); what belongs to no
field is passed over, and is a document all the same.
-/

namespace Parley

open Json Reader

variable {α β : Type}

/-! ### Fields -/

/-- Reading the field changes a record with arranged parts as decoding it changes the record. -/
structure Field.Follows (f : Field α) (N : α → α) : Prop where
  gives : ∀ (a : α) {depth : Nat} {bytes left : List UInt8} {j : Json},
    (document depth).on bytes = (.ok j, left) →
      Gives ((fun c ↦ c (N a)) <$> f.decoder.read depth) bytes
        ((fun c ↦ N (c a)) <$> f.decoder.ofJson j) left

/-- A field follows the document if its decoder does and setting it goes through the order. -/
theorem Field.Follows.of {d : Decoder β} {M : β → β} (hd : d.Follows M) {N : α → α}
    {set : α → β → α} (hset : ∀ a b, set (N a) (M b) = N (set a b)) {name : String}
    {presence : Presence} : (Field.of name presence d set).Follows N := by
  refine ⟨fun a {depth bytes left j} hdocument ↦ ?_⟩
  have hread := (hd.gives hdocument).map fun b ↦ set (N a) b
  show Gives ((fun c ↦ c (N a)) <$> (fun b a ↦ set a b) <$> d.read depth) bytes
    ((fun c ↦ N (c a)) <$> (fun b a ↦ set a b) <$> d.ofJson j) left
  rw [← comp_map] at hread
  rw [← comp_map, ← comp_map]
  have hfun : (fun b ↦ set (N a) b) ∘ M = (fun c : α → α ↦ N (c a)) ∘ fun b a ↦ set a b :=
    funext (hset a)
  rw [hfun] at hread
  exact hread

/-! ### Records -/

namespace Record

/-- The draft with the parts that were kept put in order by `N`. -/
def Draft.arrange (N : α → α) (d : Draft α) : Draft α := ⟨N d.value, d.names⟩

/-- What a record needs in order to be read as its document is decoded. -/
structure Follows (r : Record α) (N : α → α) : Prop where
  fields : ∀ f ∈ r.fields, f.Follows N
  blank : N r.blank = r.blank
  keep : ∀ keep ∈ r.keep, ∀ name j a, keep name (arranged j) (N a) = N (keep name j a)

variable {r : Record α} {N : α → α}

theorem finish_arrange (r : Record α) (N : α → α) (d : Draft α) :
    r.finish (d.arrange N) = N <$> r.finish d := by
  rw [finish, finish]
  dsimp only [Draft.arrange]
  split <;> rfl

/-- Reading one member does to a draft what decoding it does. -/
theorem gives_readMember (h : r.Follows N) {depth : Nat} {start behind inside left : List UInt8}
    {name : String} {j : Json} (hname : string.on start = (.ok name, behind))
    (hcolon : colon.on behind = (.ok (), inside))
    (hvalue : (document depth).on inside = (.ok j, left)) (d : Draft α) :
    Gives (r.readMember depth (d.arrange N)) start (Draft.arrange N <$> r.addMember d (name, j))
      left := by
  refine .after hname ?_
  rw [addMember]
  dsimp only
  split
  · rename_i f hf
    have hfield := h.fields f (List.mem_of_find?_eq_some hf)
    show Gives (if d.names.contains f.name then _ else _) _ (Draft.arrange N <$> if _ then _ else _)
      _
    split
    · exact .of_error nofun
    · refine .after hcolon ?_
      have hread := (hfield.gives d.value hvalue).map fun a ↦ (⟨a, f.name :: d.names⟩ : Draft α)
      have hfill : (do return d.fill f.name (← f.decoder.ofJson j)) =
          (fun c ↦ d.fill f.name c) <$> f.decoder.ofJson j := (map_eq_pure_bind ..).symm
      rw [← comp_map, ← comp_map, map_eq_pure_bind] at hread
      rw [hfill, ← comp_map]
      exact hread
  · refine .after hcolon ?_
    split
    · rename_i keep hkeep
      have hjson : (value depth).on inside = (.ok j.arranged, left) := by
        rw [value_eq]
        exact on_map_ok _ hvalue
      refine .after hjson ?_
      have hkept := h.keep keep hkeep name j d.value
      rw [Draft.arrange, hkept]
      exact .of_ok rfl
    · exact .after (skipValue_of_document hvalue) (.of_ok rfl)

/-- Reading the members, one after the other, does what decoding them does, up to the first
problem. -/
theorem memberRounds_iff (h : r.Follows N) {depth : Nat} {first : Bool} {bytes left : List UInt8}
    {ms : List (String × Json)} (hmembers : MembersAt (document depth) first bytes ms left) :
    ∀ (d d' : Draft α) (n : Nat) (l : List UInt8),
      MemberRounds (r.readMember depth) n first (d.arrange N) bytes d' l ↔
        Draft.arrange N <$> ms.foldlM r.addMember d = .ok d' ∧ n = ms.length ∧ l = left := by
  induction hmembers with
  | done hmove =>
    intro d d' n l
    constructor
    · rintro (hmove' | ⟨hmove', -, -⟩)
      · cases hmove.symm.trans hmove'
        exact ⟨rfl, rfl, rfl⟩
      · cases hmove.symm.trans hmove'
    · rintro ⟨⟨⟩, rfl, rfl⟩
      exact .done hmove
  | @more _ _ start behind inside mid _ name j ms hmove hname hcolon hvalue _ ih =>
    intro d d' n l
    have hmember := gives_readMember h hname hcolon hvalue d
    rw [List.foldlM_cons]
    constructor
    · rintro (hmove' | ⟨hmove', hread, hrest⟩)
      · cases hmove.symm.trans hmove'
      · cases hmove.symm.trans hmove'
        obtain ⟨hgiven, rfl⟩ := (hmember _ _).mp hread
        obtain ⟨d₁, hadd, rfl⟩ := map_eq_ok_iff.mp hgiven
        obtain ⟨hfold, rfl, rfl⟩ := (ih d₁ _ _ _).mp hrest
        rw [hadd]
        exact ⟨hfold, rfl, rfl⟩
    · rintro ⟨hfold, rfl, rfl⟩
      obtain ⟨d₂, hmembers, rfl⟩ := map_eq_ok_iff.mp hfold
      obtain ⟨d₁, hadd, hrest⟩ := exists_of_bind_eq_ok hmembers
      have hread := (hmember (d₁.arrange N) mid).mpr ⟨by rw [hadd]; rfl, rfl⟩
      refine .more hmove hread ((ih d₁ _ _ _).mpr ⟨?_, rfl, rfl⟩)
      rw [hrest]
      rfl

/-- An object is read as its members are decoded, missing fields and all. -/
theorem gives_readMembers (h : r.Follows N) {depth : Nat} {bytes left : List UInt8}
    {ms : List (String × Json)} (hlength : ms.length ≤ bytes.length)
    (hmembers : MembersAt (document depth) true bytes ms left) :
    (r.readMembers depth).Gives bytes (N <$> r.ofMembers ms) left := by
  have hloop : Gives (loop (objectStep (r.readMember depth)) (true, r.start)) bytes
      (Draft.arrange N <$> ms.foldlM r.addMember r.start) left := by
    have hstart : r.start = r.start.arrange N := by
      rw [start, Draft.arrange, h.blank]
    intro d l
    rw [on_objectLoop_iff]
    constructor
    · rintro ⟨n, -, hrounds⟩
      rw [hstart, memberRounds_iff h hmembers] at hrounds
      exact ⟨hrounds.1, hrounds.2.2⟩
    · rintro ⟨hfold, rfl⟩
      refine ⟨ms.length, hlength, ?_⟩
      rw [hstart, memberRounds_iff h hmembers]
      exact ⟨hfold, rfl, rfl⟩
  have hfinish : N <$> r.ofMembers ms =
      (Draft.arrange N <$> ms.foldlM r.addMember r.start) >>= r.finish := by
    rw [ofMembers, map_bind, bind_map_left]
    exact bind_congr fun d ↦ (r.finish_arrange N d).symm
  rw [hfinish]
  refine Gives.bind hloop fun d _ ↦ ?_
  split
  · rename_i hd
    rw [hd]
    exact .of_ok rfl
  · rename_i hd
    rw [hd]
    exact .of_error nofun

/-- The field takes in the item in its place, and `next` goes on behind it. -/
theorem on_readField_iff {f : Field α} (hf : f.Follows N) {depth : Nat}
    {start mid left : List UInt8} {j : Json} (hitem : (document depth).on start = (.ok j, mid))
    {next : α → Reader β} {a : α} {b : β} :
    (do
      let change ← f.decoder.read depth
      next (change (N a))).on start = (.ok b, left) ↔
      ∃ c, f.decoder.ofJson j = .ok c ∧ (next (N (c a))).on mid = (.ok b, left) := by
  have hmap : (do
      let change ← f.decoder.read depth
      next (change (N a))) = (fun c ↦ c (N a)) <$> f.decoder.read depth >>= next :=
    (bind_map_left ..).symm
  rw [hmap, on_bind_iff]
  constructor
  · rintro ⟨a', mid', ha, hnext⟩
    obtain ⟨hgiven, rfl⟩ := (hf.gives a hitem a' mid').mp ha
    obtain ⟨c, hc, rfl⟩ := map_eq_ok_iff.mp hgiven
    exact ⟨c, hc, hnext⟩
  · rintro ⟨c, hc, hnext⟩
    exact ⟨_, mid, (hf.gives a hitem _ _).mpr ⟨map_eq_ok_iff.mpr ⟨c, hc, rfl⟩, rfl⟩, hnext⟩

/-- Items are read into fields from left to right, as fields are filled with them. -/
theorem on_readItems_iff {depth : Nat} {left : List UInt8} {fs : List (Field α)}
    (hfs : ∀ f ∈ fs, f.Follows N) :
    ∀ {n : Nat} {bytes mid : List UInt8} {js : List Json},
      ItemsAt (document depth) (n == 0) bytes js mid → endList.on mid = (.ok (), left) →
        ∀ a a' l, (∃ mid', (r.readItems depth fs n (N a)).on bytes = (.ok a', mid') ∧
            endList.on mid' = (.ok (), l)) ↔
          (∃ out, r.fillFrom fs js n a = .ok out ∧ N out.1 = a') ∧ js.length ≤ fs.length ∧
            l = left := by
  induction fs with
  | nil =>
    intro n bytes mid js hitems hend a a' l
    have hread : (∃ mid', (r.readItems depth [] n (N a)).on bytes = (.ok a', mid') ∧
        endList.on mid' = (.ok (), l)) ↔ N a = a' ∧ endList.on bytes = (.ok (), l) := by
      constructor
      · rintro ⟨_, ⟨⟩, hend⟩
        exact ⟨rfl, hend⟩
      · rintro ⟨rfl, hend⟩
        exact ⟨bytes, rfl, hend⟩
    have hfill : (∃ out, r.fillFrom [] js n a = .ok out ∧ N out.1 = a') ↔ N a = a' := by
      rw [fillFrom]
      constructor
      · rintro ⟨_, ⟨⟩, h⟩
        exact h
      · intro h
        exact ⟨_, rfl, h⟩
    rw [hread, hfill, on_endList_of_itemsAt hitems hend, List.length_nil, Nat.le_zero,
      List.length_eq_zero_iff]
  | cons f fs ih =>
    obtain ⟨hf, hfs⟩ := List.forall_mem_cons.mp hfs
    intro n bytes mid js hitems hend a a' l
    have hnext : (n + 1 == 0) = false := rfl
    cases hitems with
    | done hmove =>
      obtain ⟨hbytes, hclose⟩ := on_moveToItem_false_iff.mp hmove
      have hagain : ItemsAt (document depth) (n + 1 == 0) mid [] mid := by
        refine .done (on_moveToItem_false_iff.mpr ⟨?_, hclose⟩)
        rw [← hbytes, List.dropWhile_idempotent]
      rw [readItems, on_bind_ok hmove, fillFrom, if_neg Bool.false_ne_true]
      split
      · rw [ih hfs hagain hend]
        simp only [List.length_nil, Nat.zero_le]
      · constructor
        · rintro ⟨_, ⟨⟩, -⟩
        · rintro ⟨⟨_, ⟨⟩, -⟩, -⟩
    | @more _ _ start mid' _ j js hmove hitem hrest =>
      rw [readItems, on_bind_ok hmove, fillFrom, if_pos rfl]
      simp only [on_readField_iff hf hitem]
      rcases hc : f.decoder.ofJson j with e | c
      · constructor
        · rintro ⟨_, ⟨_, ⟨⟩, -⟩, -⟩
        · rintro ⟨⟨_, ⟨⟩, -⟩, -⟩
      · have hrest : ItemsAt (document depth) (n + 1 == 0) mid' js mid := hrest
        have hrest := ih hfs hrest hend (c a) a' l
        rw [List.length_cons, List.length_cons, Nat.succ_le_succ_iff]
        refine Iff.trans ?_ hrest
        refine exists_congr fun m ↦ and_congr_left fun _ ↦ ?_
        constructor
        · rintro ⟨_, ⟨⟩, h⟩
          exact h
        · intro h
          exact ⟨c, rfl, h⟩

/-- **Records follow documents.** Reading a record from a text is decoding its document. -/
theorem Follows.decoder (h : r.Follows N) : r.decoder.Follows N := by
  refine Decoder.follows_of_starts (fun _ ↦ rfl) fun {depth b rest j left} hstarts ↦ ?_
  show Gives _ _ (N <$> r.ofJson j) _
  split
  · cases hstarts with
    | number hdigit => cases hdigit
    | @array depth _ mid _ js hlength hitems hend =>
      rw [ofJson]
      split
      · exact Decoder.gives_readMismatch
      · intro a l
        rw [on_enclosed_iff, ← h.blank, on_readItems_iff h.fields hitems hend, ← and_assoc]
        refine and_congr_left fun _ ↦ ?_
        rw [ofItems]
        rcases r.fillFrom r.fields js 0 r.blank with e | out
        · constructor
          · rintro ⟨⟨_, ⟨⟩, -⟩, -⟩
          · rintro ⟨⟩
        · show _ ↔ (N <$> if r.fields.length < js.length then _ else _) = _
          split
          · rename_i hlong
            constructor
            · rintro ⟨-, h⟩
              exact absurd h (Nat.not_le.mpr hlong)
            · rintro ⟨⟩
          · rename_i hshort
            constructor
            · rintro ⟨⟨_, ⟨⟩, rfl⟩, -⟩
              rfl
            · rintro ⟨⟩
              exact ⟨⟨out, rfl, rfl⟩, Nat.not_lt.mp hshort⟩
  · cases hstarts with
    | number hdigit => cases hdigit
    | object hlength hmembers hend =>
      exact .enclosed (gives_readMembers h hlength hmembers) hend
  · rename_i hlist hobject
    cases hstarts with
    | array => exact absurd rfl hlist
    | object => exact absurd rfl hobject
    | null | true | false | negative | number | string => exact Decoder.gives_readMismatch

end Record

end Parley
