import Parley.Proofs.EmptyLists
import Parley.Snapshot.Response

/-!
# Responses with empty lists

An empty list in a response of the agreement protocol may be left out, `null` or an empty array,
whichever list it is, in the response itself or in an open proposal, and the response is decoded as
the same (`Response.ofJson_respells`). There is one exception: the list of open proposals may not be
`null`, and a response in which it is one is refused (`Response.ofJson_respells_error`).
-/

namespace Parley

namespace Decoder

/-! ### Lists -/

variable {α : Type}

/-- Arrays whose items are decoded alike are decoded alike. -/
theorem ofJson_list_alike {d : Decoder α} {js js' : List Json} {as : List α}
    (h : List.Forall₂ (fun j j' ↦ ∀ a, d.ofJson j = .ok a → d.ofJson j' = .ok a) js js')
    (hread : js.mapM d.ofJson = .ok as) : js'.mapM d.ofJson = .ok as := by
  induction h generalizing as with
  | nil => exact hread
  | cons hj _ ih =>
    rw [List.mapM_cons] at hread ⊢
    obtain ⟨a, ha, hread⟩ := exists_of_bind_eq_ok hread
    obtain ⟨l, hl, hread⟩ := exists_of_bind_eq_ok hread
    rw [hj a ha]
    show (List.mapM d.ofJson _ >>= fun l ↦ pure (a :: l)) = _
    rw [ih hl]
    exact hread

end Decoder

namespace Response

/-! ### Responses -/

theorem ofJson_uriList_empty {j : Json} (h : j.isEmptyList = true) : uriList.ofJson j = .ok [] := by
  rcases List.mem_pair.mp (Json.isEmptyList_iff.mp h) with rfl | rfl <;> rfl

/-- The members of an open proposal that are lists. -/
def proposalLists : List String := ["proposes", "proposesToCancel"]

/-- The same open proposal, but for how empty lists are written: as an object, in which they may
also be left out, or as the array of its URI and its lists, which may be left out at the end. -/
inductive ProposalAlike : Json → Json → Prop
  | same (j : Json) : ProposalAlike j j
  | object {ms ms' : List (String × Json)} (h : Respells proposalLists (fun _ ↦ Eq) ms ms') :
    ProposalAlike (.object ms) (.object ms')
  | array {uri : Json} {lists lists' : List Json} (hlength : lists'.length ≤ 2)
    (h : ∀ k < 2, lists.getD k .null = lists'.getD k .null ∨
      (lists.getD k .null).isEmptyList = true ∧ (lists'.getD k .null).isEmptyList = true) :
    ProposalAlike (.array (uri :: lists)) (.array (uri :: lists'))

/-- A proposal tolerates empty lists: left out or empty, they are what the blank proposal has. -/
theorem tolerates_proposalRecord : proposalRecord.Tolerates proposalLists fun _ ↦ Eq where
  keep := rfl
  independent := by
    refine Record.independent_of_pairwise ?_
    simp only [proposalRecord, List.pairwise_cons, List.forall_mem_cons, List.not_mem_nil,
      false_imp_iff, implies_true, and_true, List.Pairwise.nil]
    and_intros <;> exact Field.commutes_of fun _ _ _ ↦ rfl
  optional := by decide
  empty name hname j hj := by
    have hblank : ∀ name ∈ proposalLists, ∀ j ∈ [Json.null, .array []],
        proposalRecord.change (name, j) proposalRecord.blank = proposalRecord.blank := by decide
    exact hblank name hname j (Json.isEmptyList_iff.mp hj)
  alike := by
    rintro name j _ f c rfl _ hc
    exact hc

theorem exists_decodes_proposalLists {name : String} (hname : name ∈ proposalLists) {j : Json}
    (hj : j.isEmptyList = true) :
    ∃ f c, proposalRecord.field? name = some f ∧ f.decoder.ofJson j = .ok c := by
  have hlist := ofJson_uriList_empty hj
  rcases List.mem_pair.mp hname with rfl | rfl
  · exact ⟨_, _, rfl, Decoder.ofJson_map hlist _⟩
  · exact ⟨_, _, rfl, Decoder.ofJson_map hlist _⟩

/-- As an array, a proposal is its URI and two lists, for which `null` may stand in. -/
theorem ofItems_proposal {uri : Json} {lists : List Json} (hlength : lists.length ≤ 2) :
    proposalRecord.ofItems (uri :: lists) = do
      let u ← (Decoder.nullable Decoder.text).ofJson uri
      let proposes ← uriList.ofJson (lists.getD 0 .null)
      let proposesToCancel ← uriList.ofJson (lists.getD 1 .null)
      return { uri := u, proposes := proposes, proposesToCancel := proposesToCancel } := by
  have hfill : proposalRecord.ofItems (uri :: lists) = do
      let (p, _) ← proposalRecord.fillFrom proposalRecord.fields (uri :: lists) 0 {}
      return p := by
    rw [Record.ofItems]
    refine bind_congr fun out ↦ if_neg ?_
    show ¬3 < lists.length + 1
    omega
  rw [hfill]
  -- each part is decoded or refused, and the first that is refused decides
  match lists, hlength with
  | [], _ =>
    rcases hu : (Decoder.nullable Decoder.text).ofJson uri with e | u <;>
      simp only [proposalRecord, Record.fillFrom, Field.of, Decoder.map, hu] <;> rfl
  | [a], _ =>
    rcases hu : (Decoder.nullable Decoder.text).ofJson uri with e | u <;>
      rcases ha : uriList.ofJson a with e | p <;>
      simp only [proposalRecord, Record.fillFrom, Field.of, Decoder.map, List.getD_cons_zero,
        hu, ha] <;> rfl
  | [a, b], _ =>
    rcases hu : (Decoder.nullable Decoder.text).ofJson uri with e | u <;>
      rcases ha : uriList.ofJson a with e | p <;> rcases hb : uriList.ofJson b with e | c <;>
      simp only [proposalRecord, Record.fillFrom, Field.of, Decoder.map, List.getD_cons_zero,
        List.getD_cons_succ, hu, ha, hb] <;> rfl

/-- An array of more items than a URI and two lists is no proposal. -/
theorem length_le_of_ofItems {uri : Json} {lists : List Json} {p : OpenProposal}
    (h : proposalRecord.ofItems (uri :: lists) = .ok p) : lists.length ≤ 2 := by
  obtain ⟨out, -, hcheck⟩ := exists_of_bind_eq_ok h
  dsimp only at hcheck
  split at hcheck
  · cases hcheck
  · rename_i hlength
    have hlength : ¬3 < lists.length + 1 := hlength
    omega

/-- A proposal that is spelled differently is decoded as the same proposal. -/
theorem ofJson_proposal_alike {j j' : Json} (h : ProposalAlike j j') {p : OpenProposal}
    (hj : proposalRecord.decoder.ofJson j = .ok p) : proposalRecord.decoder.ofJson j' = .ok p := by
  cases h with
  | same => exact hj
  | @object ms ms' h =>
    have hrewritten := Record.rewritten_of_respells tolerates_proposalRecord hj h
    have hdecoded := hrewritten.ofMembers_eq tolerates_proposalRecord fun q _ hlist hempty ↦
      exists_decodes_proposalLists hlist hempty
    exact (Record.ofMembers_known rfl ms').symm.trans hdecoded
  | @array uri lists lists' hlength h =>
    have hj : proposalRecord.ofItems (uri :: lists) = .ok p := hj
    have hpart : ∀ k < 2, uriList.ofJson (lists.getD k .null) =
        uriList.ofJson (lists'.getD k .null) := by
      intro k hk
      rcases h k hk with hsame | ⟨hempty, hempty'⟩
      · rw [hsame]
      · rw [ofJson_uriList_empty hempty, ofJson_uriList_empty hempty']
    show proposalRecord.ofItems (uri :: lists') = .ok p
    rw [ofItems_proposal (length_le_of_ofItems hj), hpart 0 (by decide), hpart 1 (by decide),
      ← ofItems_proposal hlength] at hj
    exact hj

/-! ### Responses -/

/-- The members of a response that are lists of URIs. -/
def uriLists : List String :=
  ["agreementUris", "pendingProposalUris", "acceptedCancellationProposalUris",
    "cancellationPendingAgreementUris", "pendingCancellationProposalUris", "cancelledAgreementUris",
    "rejectedMessageUris", "retractedMessageUris", "claimedMessageUris"]

/-- The members of a response that are lists. -/
def lists : List String := "pendingProposals" :: uriLists

/-- The same value of a member, but for how empty lists are written in open proposals. -/
def ValueAlike (name : String) (j j' : Json) : Prop :=
  j = j' ∨ name = "pendingProposals" ∧
    ∃ js js', j = .array js ∧ j' = .array js' ∧ List.Forall₂ ProposalAlike js js'

/-- A response tolerates empty lists in the same way, and its proposals may be spelled
differently. -/
theorem tolerates_record : record.Tolerates lists ValueAlike where
  keep := rfl
  independent := by
    refine Record.independent_of_pairwise ?_
    simp only [record, List.pairwise_cons, List.forall_mem_cons, List.not_mem_nil,
      false_imp_iff, implies_true, and_true, List.Pairwise.nil]
    and_intros <;> exact Field.commutes_of fun _ _ _ ↦ rfl
  optional := by decide
  empty name hname j hj := by
    have hblank : ∀ name ∈ lists, ∀ j ∈ [Json.null, .array []],
        record.change (name, j) record.blank = record.blank := by decide
    exact hblank name hname j (Json.isEmptyList_iff.mp hj)
  alike := by
    rintro name j j' f c (rfl | ⟨rfl, js, js', rfl, rfl, h⟩) hf hc
    · exact hc
    · cases hf
      obtain ⟨ps, hps, rfl⟩ := Decoder.exists_of_ofJson_map hc
      exact Decoder.ofJson_map (Decoder.ofJson_list_alike
        (h.imp fun _ _ halike p hp ↦ ofJson_proposal_alike halike hp) hps) _

/-- The lists of URIs are read in one way. -/
theorem field?_uriLists {name : String} (hname : name ∈ uriLists) :
    ∃ set, record.field? name = some (.of name .defaulted uriList set) := by
  simp only [uriLists, List.mem_cons, List.not_mem_nil, or_false] at hname
  rcases hname with rfl | rfl | rfl | rfl | rfl | rfl | rfl | rfl | rfl <;> exact ⟨_, rfl⟩

/-- Every list may be empty in any way, but the open proposals may not be `null`. -/
theorem decodes_lists {name : String} (hname : name ∈ lists) {j : Json}
    (hj : j.isEmptyList = true) :
    ∃ f, record.field? name = some f ∧
      ((∃ c, f.decoder.ofJson j = .ok c) ∨
        (name, j) = ("pendingProposals", .null) ∧
          f.decoder.ofJson j = .error (.invalidType .null "a sequence")) := by
  rcases List.mem_cons.mp hname with rfl | huri
  · refine ⟨_, rfl, ?_⟩
    rcases List.mem_pair.mp (Json.isEmptyList_iff.mp hj) with rfl | rfl
    · exact .inr ⟨rfl, rfl⟩
    · exact .inl ⟨_, rfl⟩
  · obtain ⟨set, hf⟩ := field?_uriLists huri
    exact ⟨_, hf, .inl ⟨_, Decoder.ofJson_map (ofJson_uriList_empty hj) _⟩⟩

variable {ms ms' : List (String × Json)} {r : Response}

/-- **Respelling a response.** What is spelled like a response is decoded as it, unless the open
proposals are `null`. -/
theorem ofJson_respells (h : decoder.ofJson (.object ms) = .ok r)
    (halike : Respells lists ValueAlike ms ms')
    (hnull : ("pendingProposals", Json.null) ∉ ms') : decoder.ofJson (.object ms') = .ok r := by
  have hrewritten := Record.rewritten_of_respells tolerates_record h halike
  refine (Record.ofMembers_known rfl ms').symm.trans (hrewritten.ofMembers_eq tolerates_record ?_)
  intro p hp hlist hempty
  obtain ⟨f, hf, ⟨c, hc⟩ | ⟨hpair, -⟩⟩ := decodes_lists hlist hempty
  · exact ⟨f, c, hf, hc⟩
  · exact absurd (hpair ▸ List.mem_of_mem_filter hp) hnull

/-- If the open proposals are `null`, what is spelled like a response is refused. -/
theorem ofJson_respells_error (h : decoder.ofJson (.object ms) = .ok r)
    (halike : Respells lists ValueAlike ms ms')
    (hnull : ("pendingProposals", Json.null) ∈ ms') :
    decoder.ofJson (.object ms') = .error (.invalidType .null "a sequence") := by
  have hrewritten := Record.rewritten_of_respells tolerates_record h halike
  refine (Record.ofMembers_known rfl ms').symm.trans (hrewritten.ofMembers_eq_error ?_ ?_)
  · intro p _ hlist hempty
    obtain ⟨f, hf, hread⟩ := decodes_lists hlist hempty
    exact ⟨f, hf, hread.imp_right And.right⟩
  · exact ⟨_, List.mem_filter.mpr ⟨hnull, rfl⟩, _, rfl, rfl⟩

end Response

end Parley
