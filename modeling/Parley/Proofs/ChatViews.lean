import Mathlib.Data.List.Forall2
import Parley.Proofs.Reading
import Parley.Reconciliation

/-!
# The chat and its views are canonical

What the chat of a list of messages is can be said without saying how it is computed: it holds the
first visible message of each URI (`Chat.IsFirst`), and it increases strictly (`Message.Precedes`).
There is just one list of this kind (`Chat.Arranges.unique`), so the order of the messages does not
matter as long as no two visible ones share a URI. The views select from the chat, and the patches
of a snapshot follow one of them.

**The order of URIs.** URIs compare by code points, which is the same as comparing the bytes of
their texts: the first byte in which two characters differ is larger for the larger character, and
no character's bytes start with those of another (`Json.utf8EncodeChar_append_lt`).
-/

namespace Parley

/-! ### Texts compare as their bytes -/

namespace Json

/-- The bytes of the larger character are larger, whatever comes behind them. -/
theorem utf8EncodeChar_append_lt {c d : Char} (h : c < d) (s t : List UInt8) :
    String.utf8EncodeChar c ++ s < String.utf8EncodeChar d ++ t := by
  have hlt : c.val.toNat < d.val.toNat := h
  have hbound : d.val.toNat < 0x110000 := by
    rcases d.valid with h | h
    · exact Nat.lt_trans h (by decide)
    · exact h.2
  unfold String.utf8EncodeChar
  generalize c.val.toNat = v at hlt
  generalize d.val.toNat = w at hlt hbound
  have hdigits : ∀ n : Nat, n / 64 / 64 = n / 4096 ∧ n / 4096 / 64 = n / 262144 := fun n ↦
    ⟨Nat.div_div_eq_div_mul n 64 64, Nat.div_div_eq_div_mul n 4096 64⟩
  have hv := hdigits v
  have hw := hdigits w
  dsimp only
  -- one to four bytes for either character, and never fewer for the larger one
  split_ifs <;>
    simp (disch := omega) only [List.cons_append, List.nil_append, List.cons_lt_cons_iff,
      UInt8.lt_iff_toNat_lt, ← UInt8.toNat_inj, UInt8.toNat_ofNat', Nat.mod_eq_of_lt] <;> omega

/-- The encoding of characters keeps their order: the first byte that differs comes from the first
character that differs. -/
theorem utf8_lt_utf8 : ∀ {cs ds : List Char}, cs < ds → utf8 cs < utf8 ds
  | [], d :: ds, _ => by
    have hne : String.utf8EncodeChar d ≠ [] := by
      unfold String.utf8EncodeChar
      dsimp only
      split_ifs <;> exact List.cons_ne_nil _ _
    obtain ⟨b, tail, htail⟩ := List.exists_cons_of_ne_nil hne
    rw [utf8_nil, utf8_cons, htail]
    exact List.nil_lt_cons _ _
  | c :: cs, d :: ds, h => by
    rw [utf8_cons, utf8_cons]
    rcases List.cons_lt_cons_iff.mp h with hlt | ⟨rfl, htail⟩
    · exact utf8EncodeChar_append_lt hlt _ _
    · exact List.append_left_lt (utf8_lt_utf8 htail)

/-- Texts compare as their bytes do. -/
theorem bytes_lt_iff {s t : String} : s.toUTF8.toList < t.toUTF8.toList ↔ s < t := by
  have hmono : ∀ {s t : String}, s < t → s.toUTF8.toList < t.toUTF8.toList := by
    intro s t h
    rw [toList_toUTF8, toList_toUTF8]
    exact utf8_lt_utf8 h
  refine ⟨fun h ↦ ?_, hmono⟩
  by_contra hnot
  rcases eq_or_ne s t with rfl | hne
  · exact List.lt_irrefl _ h
  · exact List.lt_asymm h (hmono (KeyedList.lt_of_not_lt_of_ne hnot hne))

end Json

/-! ### The order of the chat -/

/-- The message `m` stands before `n` in the chat: it is undated and `n` is not, or it is the older
one, or the two dates do not differ and the bytes of its URI are smaller. -/
inductive Message.Precedes (m n : Message) : Prop
  | undated {t : Timestamp} : m.date = none → n.date = some t → Precedes m n
  | earlier {s t : Timestamp} : m.date = some s → n.date = some t → s < t → Precedes m n
  | tied : m.date = n.date → m.uri.toUTF8.toList < n.uri.toUTF8.toList → Precedes m n

instance : Std.TransOrd Timestamp := inferInstanceAs (Std.TransCmp (compareOn Timestamp.rank))

instance : Std.LawfulEqOrd Timestamp where
  eq_of_compare h := Timestamp.rank_injective (Std.LawfulEqOrd.eq_of_compare h)

namespace Chat

instance : Std.TransCmp order :=
  inferInstanceAs (Std.TransCmp (compareLex (compareOn Message.date) (compareOn Message.uri)))

/-- Dates compare like moments, no date before all of them. -/
theorem compare_date_eq_lt {d e : Option Timestamp} :
    compare d e = .lt ↔
      (d = none ∧ ∃ t, e = some t) ∨ ∃ s t, d = some s ∧ e = some t ∧ s < t := by
  rcases d with - | s <;> rcases e with - | t
  · simp [compare]
  · simp [compare]
  · simp [compare]
  · have hrank : compare (some s) (some t) = .lt ↔ s < t :=
      Std.compare_eq_lt (a := s.rank) (b := t.rank)
    simp [hrank]

/-- The order by which the chat is sorted is `Precedes`. -/
theorem order_eq_lt_iff {m n : Message} : order m n = .lt ↔ m.Precedes n := by
  have huri : compare m.uri n.uri = .lt ↔ m.uri.toUTF8.toList < n.uri.toUTF8.toList :=
    compareOfLessAndEq_eq_lt.trans Json.bytes_lt_iff.symm
  rw [order, Ordering.then_eq_lt, compare_date_eq_lt, Std.compare_eq_iff_eq, huri]
  constructor
  · rintro ((⟨hm, t, hn⟩ | ⟨s, t, hm, hn, hlt⟩) | ⟨hdate, huri⟩)
    · exact .undated hm hn
    · exact .earlier hm hn hlt
    · exact .tied hdate huri
  · rintro (⟨hm, hn⟩ | ⟨hm, hn, hlt⟩ | ⟨hdate, huri⟩)
    · exact Or.inl (Or.inl ⟨hm, _, hn⟩)
    · exact Or.inl (Or.inr ⟨_, _, hm, hn, hlt⟩)
    · exact Or.inr ⟨hdate, huri⟩

/-- The order of the chat is asymmetric, so no list can be arranged in two ways. -/
theorem not_precedes_of_precedes {m n : Message} (h : m.Precedes n) : ¬n.Precedes m := by
  rw [← order_eq_lt_iff] at h ⊢
  rw [Std.OrientedCmp.gt_of_lt h]
  exact fun e ↦ nomatch e

theorem le_total (m n : Message) : (le m n || le n m) = true := by
  rw [Bool.or_eq_true, le, le]
  rcases h : order m n
  · exact Or.inl rfl
  · exact Or.inl rfl
  · rw [Std.OrientedCmp.lt_of_gt h]
    exact Or.inr rfl

/-- Messages of different URIs that may follow each other do so strictly. -/
theorem precedes_of_le {m n : Message} (h : le m n = true) (hne : m.uri ≠ n.uri) :
    m.Precedes n := by
  rcases Ordering.isLE_iff_eq_lt_or_eq_eq.mp h with hlt | heq
  · exact order_eq_lt_iff.mp hlt
  · rw [order, Ordering.then_eq_eq, Std.compare_eq_iff_eq (a := m.uri)] at heq
    exact absurd heq.2 hne

/-! ### Arrangements -/

/-- The messages with the property `p`, each once and in the order of the chat. -/
structure Arranges (p : Message → Prop) (v : List Message) : Prop where
  mem_iff : ∀ m, m ∈ v ↔ p m
  increasing : v.Pairwise Message.Precedes

theorem Arranges.nodup {p : Message → Prop} {v : List Message} (h : Arranges p v) : v.Nodup := by
  refine h.increasing.imp fun {m n} hmn hsame ↦ ?_
  subst hsame
  exact not_precedes_of_precedes hmn hmn

/-- There is no choice in arranging messages. -/
theorem Arranges.unique {p : Message → Prop} {v w : List Message} (hv : Arranges p v)
    (hw : Arranges p w) : v = w := by
  have hperm : v.Perm w := (List.perm_ext_iff_of_nodup hv.nodup hw.nodup).mpr fun m ↦
    (hv.mem_iff m).trans (hw.mem_iff m).symm
  exact hperm.eq_of_pairwise
    (fun _ _ _ _ hab hba ↦ absurd hba (not_precedes_of_precedes hab)) hv.increasing hw.increasing

/-! ### First occurrences -/

/-- The message is visible, and at one place of the list no visible message before it has its
URI. -/
def IsFirst (l : List Message) (m : Message) : Prop :=
  m.forwarded = false ∧
    ∃ before after, l = before ++ m :: after ∧ ∀ n ∈ before, n.forwarded = false → n.uri ≠ m.uri

/-- The first visible message with a URI is the one that a search among the visible ones finds. -/
theorem isFirst_iff_find? {l : List Message} {m : Message} :
    IsFirst l m ↔ (l.filter Message.isVisible).find? (·.uri == m.uri) = some m := by
  rw [List.find?_filter, List.find?_eq_some_iff_append]
  simp [IsFirst, Message.isVisible, Decidable.imp_iff_not_or]

/-- Dropping repeated URIs keeps the message that a search for its URI finds, and no other. -/
theorem mem_firstByUri_iff {m : Message} :
    ∀ {l : List Message}, m ∈ firstByUri l ↔ l.find? (·.uri == m.uri) = some m
  | [] => by simp [firstByUri]
  | n :: rest => by
    rw [firstByUri, List.mem_cons, List.mem_filter, mem_firstByUri_iff]
    by_cases hu : n.uri = m.uri
    · rw [List.find?_cons_of_pos (by simpa using hu)]
      simp [hu, eq_comm]
    · have hne : m ≠ n := fun e ↦ hu (congrArg Message.uri e).symm
      rw [List.find?_cons_of_neg (by simpa using hu)]
      simp [Ne.symm hu, hne]

theorem pairwise_firstByUri (l : List Message) :
    (firstByUri l).Pairwise fun m n ↦ m.uri ≠ n.uri := by
  induction l with
  | nil => exact .nil
  | cons m rest ih =>
    refine .cons (fun n hn ↦ ?_) (ih.filter _)
    simpa using Ne.symm (by simpa using (List.mem_filter.mp hn).2)

/-! ### The chat -/

/-- **The chat.** It arranges the first visible messages of all URIs. -/
theorem arranges_ordered (l : List Message) : Arranges (IsFirst l) (ordered l) where
  mem_iff m := by rw [mem_ordered, kept, mem_firstByUri_iff, isFirst_iff_find?]
  increasing := by
    have hle : (ordered l).Pairwise fun m n ↦ le m n = true :=
      List.pairwise_mergeSort (fun _ _ _ ↦ Std.TransCmp.isLE_trans)
        le_total _
    have huri : (ordered l).Pairwise fun m n ↦ m.uri ≠ n.uri :=
      (List.mergeSort_perm (kept l) le).symm.pairwise (pairwise_firstByUri _) fun h ↦ h.symm
    exact (hle.and huri).imp fun h ↦ precedes_of_le h.1 h.2

theorem nodup_uri_ordered (l : List Message) : ((ordered l).map (·.uri)).Nodup := by
  have hkept : ((kept l).map (·.uri)).Nodup := List.pairwise_map.mpr (pairwise_firstByUri _)
  exact ((List.mergeSort_perm (kept l) le).map _).nodup_iff.mpr hkept

/-- Every URI of a visible message is in the chat, and no other one. -/
theorem mem_uri_ordered_iff {l : List Message} {u : String} :
    u ∈ (ordered l).map (·.uri) ↔ ∃ m ∈ l, m.forwarded = false ∧ m.uri = u := by
  rw [List.mem_map]
  constructor
  · rintro ⟨m, hm, hu⟩
    exact ⟨m, mem_of_mem_ordered hm, ((arranges_ordered l).mem_iff m |>.mp hm).1, hu⟩
  · rintro ⟨m, hm, hv, rfl⟩
    have hvisible : m ∈ l.filter Message.isVisible := by simp [Message.isVisible, hm, hv]
    obtain ⟨n, hn, hu⟩ := exists_mem_firstByUri hvisible
    exact ⟨n, mem_ordered.mpr hn, hu⟩

/-- If no two visible messages share a URI, every visible message is the first one of its URI. -/
theorem isFirst_iff_of_nodup {l : List Message}
    (h : ((l.filter Message.isVisible).map (·.uri)).Nodup) {m : Message} :
    IsFirst l m ↔ m ∈ l ∧ m.forwarded = false := by
  rw [isFirst_iff_find?, ← mem_firstByUri_iff, firstByUri_of_pairwise (List.pairwise_map.mp h),
    List.mem_filter, Message.isVisible, Bool.not_eq_true']

/-- Where the URIs of the visible messages differ, the chat depends on which messages there are and
not on how they were listed. -/
theorem ordered_eq_of_perm {l l' : List Message} (hperm : l.Perm l')
    (h : ((l.filter Message.isVisible).map (·.uri)).Nodup) : ordered l' = ordered l := by
  have h' : ((l'.filter Message.isVisible).map (·.uri)).Nodup :=
    ((hperm.filter _).map _).nodup_iff.mp h
  refine (arranges_ordered l').unique ⟨fun m ↦ ?_, (arranges_ordered l).increasing⟩
  rw [(arranges_ordered l).mem_iff, isFirst_iff_of_nodup h, isFirst_iff_of_nodup h',
    hperm.mem_iff]

/-! ### The views -/

/-- The part holds the messages of the whole with the property `p`, in the order of the whole. -/
structure Selects (p : Message → Prop) (whole part : List Message) : Prop where
  sublist : part.Sublist whole
  mem_iff : ∀ m, m ∈ part ↔ m ∈ whole ∧ p m

theorem selects_filter {p : Message → Prop} {b : Message → Bool} (h : ∀ m, b m = true ↔ p m)
    (whole : List Message) : Selects p whole (whole.filter b) :=
  ⟨List.filter_sublist, fun m ↦ by rw [List.mem_filter, h]⟩

/-- A patch for each unreconciled message, in their order. -/
theorem forall₂_forMessages (l : List Message) (s : Snapshot) :
    List.Forall₂ (fun p m ↦ p.messageUri = m.uri ∧ p.connectionUri = m.connectionUri ∧
      p.status = m.reconciled (some s)) (Patch.forMessages l (some s)) (unreconciled l) := by
  rw [Patch.forMessages, List.forall₂_map_left_iff, List.forall₂_same]
  exact fun m _ ↦ ⟨rfl, rfl, rfl⟩

/-- There is one patch for a message at most. -/
theorem nodup_messageUri_forMessages (l : List Message) (s : Snapshot) :
    ((Patch.forMessages l (some s)).map (·.messageUri)).Nodup := by
  rw [Patch.forMessages, List.map_map]
  exact (nodup_uri_ordered l).sublist (List.filter_sublist.map _)

/-- **The chat and its views are canonical.** The chat is the only list that holds the first visible
message of each URI and increases strictly; it has each URI of a visible message once, and if no
two visible messages share one, it does not depend on their order. Each view selects from it, and
with a snapshot there is one patch for each unreconciled message, in the order of the chat. -/
theorem views_canonical (l : List Message) :
    (∀ m n, order m n = .lt ↔ m.Precedes n) ∧
      (∀ v, Arranges (IsFirst l) v ↔ v = ordered l) ∧
      ((ordered l).map (·.uri)).Nodup ∧
      (∀ u, u ∈ (ordered l).map (·.uri) ↔ ∃ m ∈ l, m.forwarded = false ∧ m.uri = u) ∧
      (((l.filter Message.isVisible).map (·.uri)).Nodup →
        ∀ l', l.Perm l' → ordered l' = ordered l) ∧
      Selects (fun m ↦ m.upToDate = false) (ordered l) (unreconciled l) ∧
      Selects (fun m ↦ m.status.accepted = true ∧ m.status.cancelled = false ∧
        m.status.cancellationPending = false) (ordered l) (agreements l) ∧
      Selects (fun m ↦ m.status.proposed = true ∧ m.status.accepted = false ∧
        m.status.rejected = false ∧ m.status.retracted = false ∧ m.status.cancelled = false)
        (ordered l) (proposals l) ∧
      Selects (fun m ↦ m.status.cancellationPending = true ∧ m.status.cancelled = false)
        (ordered l) (cancellations l) ∧
      Selects (fun m ↦ m.unread = true) (ordered l) (unread l) ∧
      ∀ s, ((Patch.forMessages l (some s)).map (·.messageUri)).Nodup ∧
        List.Forall₂ (fun p m ↦ p.messageUri = m.uri ∧ p.connectionUri = m.connectionUri ∧
          p.status = m.reconciled (some s)) (Patch.forMessages l (some s)) (unreconciled l) := by
  have hchat : ∀ v, Arranges (IsFirst l) v ↔ v = ordered l := by
    refine fun v ↦ ⟨fun hv ↦ hv.unique (arranges_ordered l), ?_⟩
    rintro rfl
    exact arranges_ordered l
  refine ⟨fun _ _ ↦ order_eq_lt_iff, hchat, nodup_uri_ordered l, fun u ↦ mem_uri_ordered_iff,
    fun h l' hperm ↦ ordered_eq_of_perm hperm h, ?_, ?_, ?_, ?_, ?_,
    fun s ↦ ⟨nodup_messageUri_forMessages l s, forall₂_forMessages l s⟩⟩
  · exact selects_filter (fun m ↦ by simp) _
  · exact selects_filter (fun m ↦ by simp [and_assoc]) _
  · exact selects_filter (fun m ↦ by simp [and_assoc]) _
  · exact selects_filter (fun m ↦ by simp) _
  · exact selects_filter (fun m ↦ Iff.rfl) _

/-- A forwarded message with the URI of a visible one behind it, and undated messages that only
their URIs put in order. -/
def mixedMessages : List Message :=
  [{ uri := "a", connectionUri := "c", forwarded := true },
    { uri := "a", connectionUri := "c",
      date := some ⟨⟨2019, 3, 31, by decide⟩, 43200, 1, by decide, by decide⟩ },
    { uri := "m", connectionUri := "c" }, { uri := "b", connectionUri := "c" }]

/-- The list meets the hypotheses of `views_canonical`, although a forwarded message shares a URI
with a visible one. -/
theorem views_canonical_mixedMessages :
    ((mixedMessages.filter Message.isVisible).map (·.uri)).Nodup ∧
      mixedMessages.Perm mixedMessages.reverse ∧
      ordered mixedMessages.reverse = ordered mixedMessages :=
  have hnodup : ((mixedMessages.filter Message.isVisible).map (·.uri)).Nodup := by decide
  have hperm : mixedMessages.Perm mixedMessages.reverse := (List.reverse_perm _).symm
  ⟨hnodup, hperm, (views_canonical mixedMessages).2.2.2.2.1 hnodup _ hperm⟩

end Chat

end Parley
