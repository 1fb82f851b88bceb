import Parley.Proofs.BundleText
import Parley.Proofs.RecordDecoding
import Parley.Proofs.RespelledResponses

/-!
# Bundles with empty lists

A bundle loads as the same bundle, however the empty lists in its agreement data are written, with
the one exception that there is for a response (`Response.respelled_iff`).

**From values to texts.** A bundle is read from its text, not from a value. What it reads as is what
its document is decoded as, with the records of messages and the data of processes arranged
(`Bundle.follows_decoder`); and decoding the document needs the agreement data only as a response
(`Bundle.Frame`).
-/

namespace Parley

open Json

/-! ### Reading bundles -/

/-- Changing all values goes through inserting one. -/
theorem OrderedMap.map_insert {β γ : Type} (f : β → γ) (m : OrderedMap β) (k : String) (b : β) :
    (m.insert k b).map f = (m.map f).insert k (f b) := by
  refine OrderedMap.ext fun k' ↦ ?_
  rw [get?_map, get?_insert, get?_insert, get?_map]
  split <;> rfl

/-- The process with its further data arranged. -/
def Process.arranged (p : Process) : Process := { p with extra := p.extra.map Json.arranged }

theorem follows_text : Decoder.text.Follows id := Decoder.follows_parsedText ..

theorem follows_textOrNull : (Decoder.nullable Decoder.text).Follows id := by
  have h := follows_text.nullable
  rwa [Option.map_id] at h

/-- A process follows the document, with its further data arranged. -/
theorem PetriNet.follows_decoder : PetriNet.decoder.Follows Process.arranged := by
  refine Record.Follows.decoder ⟨?_, rfl, ?_⟩
  · intro f hf
    cases List.mem_singleton.mp hf
    refine .of follows_textOrNull ?_
    exact fun _ _ ↦ rfl
  · rintro keep ⟨⟩ name j p
    exact congrArg _ (p.extra.map_insert Json.arranged name j).symm

/-- A response follows the document: it keeps nothing as it came. -/
theorem Response.follows_decoder : Response.decoder.Follows id := by
  have huris : uriList.Follows id := by
    have h := follows_text.listOrNull
    rwa [List.map_id_fun] at h
  have hproposals : (Decoder.list proposalRecord.decoder).Follows id := by
    have hproposal : proposalRecord.decoder.Follows id := by
      refine Record.Follows.decoder ⟨?_, rfl, fun _ h ↦ absurd h (Option.not_mem_none _)⟩
      simp only [proposalRecord, List.forall_mem_cons, List.not_mem_nil, false_imp_iff,
        implies_true, and_true]
      refine ⟨.of follows_textOrNull ?_, .of huris ?_, .of huris ?_⟩
      all_goals exact fun _ _ ↦ rfl
    have h := hproposal.list
    rwa [List.map_id_fun] at h
  refine Record.Follows.decoder ⟨?_, rfl, fun _ h ↦ absurd h (Option.not_mem_none _)⟩
  simp only [record, List.forall_mem_cons, List.not_mem_nil, false_imp_iff, implies_true, and_true]
  refine ⟨.of huris ?_, .of huris ?_, .of hproposals ?_, .of huris ?_, .of huris ?_, .of huris ?_,
    .of huris ?_, .of huris ?_, .of huris ?_, .of huris ?_⟩
  all_goals exact fun _ _ ↦ rfl

/-- The fields of an array are filled part by part. -/
theorem Record.fillFrom_append {α : Type} {r : Record α} {fs fs' : List (Field α)}
    {before after : List Json} (hlength : before.length = fs.length) {n : Nat} {a : α} :
    r.fillFrom (fs ++ fs') (before ++ after) n a =
      r.fillFrom fs before n a >>= fun out ↦ r.fillFrom fs' after out.2 out.1 := by
  induction fs generalizing before n a with
  | nil =>
    cases List.length_eq_zero_iff.mp hlength
    rw [fillFrom]
    rfl
  | cons f fs ih =>
    cases before with
    | nil => cases hlength
    | cons j before =>
      rw [List.cons_append, List.cons_append, fillFrom, fillFrom, bind_assoc]
      exact bind_congr fun c ↦ ih (Nat.succ.inj hlength)

namespace Bundle

/-- The bundle with everything arranged that is kept as it came. -/
def arranged (b : Bundle) : Bundle :=
  { b with
    messages := b.messages.map Json.arranged
    processes := b.processes.map Process.arranged }

/-- **A bundle follows the document**: what is read from a text is what is decoded from its
document, with the raw parts arranged. -/
theorem follows_decoder : decoder.Follows arranged := by
  have hagreement : (Decoder.nullable Response.decoder).Follows id := by
    have h := Response.follows_decoder.nullable
    rwa [Option.map_id] at h
  refine Record.Follows.decoder ⟨?_, rfl, fun _ h ↦ absurd h (Option.not_mem_none _)⟩
  simp only [record, List.forall_mem_cons, List.not_mem_nil, false_imp_iff, implies_true, and_true]
  refine ⟨.of (Decoder.follows_natural ..) ?_, .of follows_text ?_, .of follows_text ?_,
    .of follows_textOrNull ?_, .of (Decoder.follows_oneOf _) ?_, .of Decoder.follows_json.list ?_,
    .of hagreement ?_, .of PetriNet.follows_decoder.list ?_⟩
  all_goals exact fun _ _ ↦ rfl

/-! ### The agreement data in a bundle -/

/-- The document of a bundle without its agreement data: an object, with the members before and
behind them, or an array, in which they are the seventh item. -/
inductive Frame
  | object (before after : List (String × Json))
  | array (before after : List Json) (hlength : before.length = 6)

/-- The document of a bundle with these agreement data. -/
def Frame.document : Frame → Json → Json
  | .object before after, j => .object (before ++ ("agreementData", j) :: after)
  | .array before after _, j => .array (before ++ j :: after)

/-- The field of the agreement data. -/
def agreementField : Field Bundle :=
  .of "agreementData" .defaulted (Decoder.nullable Response.decoder) fun b v ↦
    { b with agreement := v }

/-- Takes in the agreement data, once they were decoded. -/
def addAgreement (d : Record.Draft Bundle) (x : Except Problem (Bundle → Bundle)) :
    Except Problem (Record.Draft Bundle) := do
  if d.names.contains agreementField.name then .error (.duplicateField agreementField.name)
  else return d.fill agreementField.name (← x)

/-- Decoding a bundle takes no more from its agreement data than what they are decoded as. -/
theorem exists_ofJson_frame (frame : Frame) :
    ∃ F : Except Problem (Bundle → Bundle) → Except Problem Bundle,
      (∀ j, decoder.ofJson (frame.document j) = F (agreementField.decoder.ofJson j)) ∧
        ∀ e b, F (.error e) ≠ .ok b := by
  cases frame with
  | object before after =>
    refine ⟨fun x ↦ do
      let d ← before.foldlM record.addMember record.start
      record.finish (← after.foldlM record.addMember (← addAgreement d x)), fun j ↦ ?_,
        fun e b h ↦ ?_⟩
    · show record.ofMembers _ = _
      rw [Record.ofMembers, List.foldlM_append, bind_assoc]
      refine bind_congr fun d ↦ ?_
      rw [List.foldlM_cons, bind_assoc]
      rfl
    · obtain ⟨d, -, hbehind⟩ := exists_of_bind_eq_ok h
      obtain ⟨d', hmember, -⟩ := exists_of_bind_eq_ok hbehind
      rw [addAgreement] at hmember
      split at hmember <;> cases hmember
  | array before after hlength =>
    have hfields : record.fields = record.fields.take 6 ++ agreementField :: record.fields.drop 7 :=
      rfl
    refine ⟨fun x ↦ do
      let out ← record.fillFrom (record.fields.take 6) before 0 record.blank
      let out ← record.fillFrom (record.fields.drop 7) after (out.2 + 1) ((← x) out.1)
      if record.fields.length < 7 + after.length then
        .error (.invalidLength (7 + after.length) "fewer elements in array")
      else return out.1, fun j ↦ ?_, fun e b h ↦ ?_⟩
    · show record.ofItems _ = _
      have hitems : (before ++ j :: after).length = 7 + after.length := by
        rw [List.length_append, List.length_cons, hlength]
        omega
      rw [Record.ofItems, hitems]
      nth_rewrite 1 [hfields]
      rw [Record.fillFrom_append (by rw [hlength]; rfl), bind_assoc]
      refine bind_congr fun out ↦ ?_
      rw [Record.fillFrom, bind_assoc]
    · obtain ⟨out, -, hbehind⟩ := exists_of_bind_eq_ok h
      cases hbehind

variable {frame : Frame} {j j' : Json} {t t' : List UInt8}

/-- Bundles that differ in their agreement data only, and decode them alike, load alike. -/
theorem load_frame (ht : documentOf t = .ok (frame.document j))
    (ht' : documentOf t' = .ok (frame.document j'))
    (hsame : agreementField.decoder.ofJson j' = agreementField.decoder.ofJson j) {b : Bundle}
    (hload : load t = .ok b) : load t' = .ok b := by
  obtain ⟨F, hF, -⟩ := exists_ofJson_frame frame
  obtain ⟨hbytes, hversion⟩ := load_eq_ok hload
  have hbytes' : decoder.ofBytes t' = .ok b := by
    rw [follows_decoder.ofBytes_iff ht', hF, hsame, ← hF, ← follows_decoder.ofBytes_iff ht]
    exact hbytes
  rw [load_eq hbytes', if_pos hversion]

/-- A bundle whose agreement data are refused does not load. -/
theorem load_frame_error (ht : documentOf t = .ok (frame.document j)) {e : Problem}
    (hrefused : agreementField.decoder.ofJson j = .error e) :
    ∃ c, load t = .error (.unreadable c) := by
  obtain ⟨F, hF, hfails⟩ := exists_ofJson_frame frame
  rcases hbytes : decoder.ofBytes t with c | b
  · refine ⟨c, ?_⟩
    rw [load, hbytes]
    rfl
  · rw [follows_decoder.ofBytes_iff ht, hF, hrefused] at hbytes
    obtain ⟨b₀, hb₀, -⟩ := map_eq_ok_iff.mp hbytes
    exact absurd hb₀ (hfails _ _)

end Bundle

namespace Response

open Parley.Bundle

variable {ms ms' : List (String × Json)} {r : Response}

/-- Agreement data that decode fill their field. -/
theorem agreementField_of_ok (h : decoder.ofJson (.object ms) = .ok r) :
    agreementField.decoder.ofJson (.object ms) = .ok fun b ↦ { b with agreement := some r } := by
  have hnullable : (Decoder.nullable decoder).ofJson (.object ms) = .ok (some r) := by
    show some <$> decoder.ofJson (.object ms) = _
    rw [h]
    rfl
  exact Decoder.ofJson_map hnullable _

theorem agreementField_of_error {e : Problem} (h : decoder.ofJson (.object ms) = .error e) :
    agreementField.decoder.ofJson (.object ms) = .error e := by
  show (fun v (b : Bundle) ↦ { b with agreement := v }) <$> some <$> decoder.ofJson (.object ms) = _
  rw [h]
  rfl

/-- **Empty lists in a response.** What is spelled like a response is decoded as it if and only if
its open proposals are not `null`; otherwise it is refused for that. The same is true of the
agreement data of a bundle, in any text: it loads as the same bundle, or not at all. -/
theorem respelled_iff (h : decoder.ofJson (.object ms) = .ok r)
    (halike : Respells lists ValueAlike ms ms') :
    (decoder.ofJson (.object ms') = .ok r ↔ ("pendingProposals", Json.null) ∉ ms') ∧
      (("pendingProposals", Json.null) ∈ ms' →
        decoder.ofJson (.object ms') = .error (.invalidType .null "a sequence")) ∧
      (∀ r', decoder.ofJson (.object ms') = .ok r' → r'.snapshot = r.snapshot) ∧
      ∀ (frame : Frame) (t t' : List UInt8) (b : Bundle),
        documentOf t = .ok (frame.document (.object ms)) →
          documentOf t' = .ok (frame.document (.object ms')) → load t = .ok b →
            (load t' = .ok b ↔ ("pendingProposals", Json.null) ∉ ms') ∧
              (("pendingProposals", Json.null) ∈ ms' → ∃ c, load t' = .error (.unreadable c)) := by
  have hok := ofJson_respells h halike
  have herror := ofJson_respells_error h halike
  have hiff : decoder.ofJson (.object ms') = .ok r ↔ ("pendingProposals", Json.null) ∉ ms' :=
    ⟨fun hsame hnull ↦ (nomatch hsame.symm.trans (herror hnull)), hok⟩
  refine ⟨hiff, herror, fun r' hr' ↦ ?_, fun frame t t' b ht ht' hload ↦ ?_⟩
  · by_cases hnull : ("pendingProposals", Json.null) ∈ ms'
    · exact nomatch hr'.symm.trans (herror hnull)
    · cases hr'.symm.trans (hok hnull)
      rfl
  · have hsame (hnull : ("pendingProposals", Json.null) ∉ ms') : load t' = .ok b := by
      refine load_frame ht ht' ?_ hload
      rw [agreementField_of_ok (hok hnull), agreementField_of_ok h]
    have hrefused (hnull : ("pendingProposals", Json.null) ∈ ms') :
        ∃ c, load t' = .error (.unreadable c) :=
      load_frame_error ht' (agreementField_of_error (herror hnull))
    refine ⟨⟨fun hsame' hnull ↦ ?_, hsame⟩, hrefused⟩
    obtain ⟨c, hc⟩ := hrefused hnull
    exact nomatch hsame'.symm.trans hc

/-- A response with one open proposal. -/
def sparse : List (String × Json) :=
  [("agreementUris", .null),
    ("pendingProposals", .array [.object [("proposes", Json.strings ["p"])]])]

/-- The same response with other empty lists. -/
def explicit : List (String × Json) :=
  [("pendingProposals",
      .array [.object [("proposesToCancel", .null), ("proposes", Json.strings ["p"])]]),
    ("claimedMessageUris", .array [])]

/-- The response that is spelled there. -/
def proposing : Response where
  openProposals := [{ proposes := ["p"] }]

/-- The two responses differ in empty lists only. -/
theorem respells_explicit : Respells lists ValueAlike sparse explicit where
  alike := by
    refine .cons ⟨rfl, .inr ⟨rfl, _, _, rfl, rfl, .cons (.object ⟨?_, by decide⟩) .nil⟩⟩ .nil
    exact .cons ⟨rfl, rfl⟩ .nil
  once := by decide

/-- The list that must not be `null` is not. -/
theorem null_notMem_explicit : ("pendingProposals", Json.null) ∉ explicit := by
  simp [explicit]

/-- A bundle around them. -/
def bare : Frame :=
  .object [("version", Json.count 1), ("connectionUri", .string "c")]
    [("ownedNeedUri", .string "o"), ("state", .string "connected")]

/-- The text of this bundle with agreement data of these members. -/
def bareText (ms : List (String × Json)) : List UInt8 :=
  (bare.document (.object ms)).compact.toUTF8.toList

set_option maxRecDepth 4000 in
theorem documentOf_sparse :
    documentOf (bareText sparse) = .ok (bare.document (.object sparse)) := by
  rw [bareText, compact, toList_toUTF8, String.toList_ofList]
  rfl

set_option maxRecDepth 4000 in
theorem documentOf_explicit :
    documentOf (bareText explicit) = .ok (bare.document (.object explicit)) := by
  rw [bareText, compact, toList_toUTF8, String.toList_ofList]
  rfl

/-- The bundle that is spelled there. -/
def bareBundle : Bundle where
  version := 1
  connectionUri := "c"
  ownedNeed := "o"
  connection := .connected
  agreement := some proposing

set_option maxRecDepth 4000 in
/-- The sparse bundle loads. -/
theorem load_sparse : load (bareText sparse) = .ok bareBundle := by
  rw [bareText, compact, toList_toUTF8, String.toList_ofList]
  rfl

/-- The response and its bundle survive the respelling. -/
theorem respelled_iff_sparse :
    decoder.ofJson (.object sparse) = .ok proposing ∧ Respells lists ValueAlike sparse explicit ∧
      decoder.ofJson (.object explicit) = .ok proposing ∧
      documentOf (bareText sparse) = .ok (bare.document (.object sparse)) ∧
      documentOf (bareText explicit) = .ok (bare.document (.object explicit)) ∧
      load (bareText sparse) = .ok bareBundle ∧ load (bareText explicit) = .ok bareBundle :=
  have h := respelled_iff (show decoder.ofJson (.object sparse) = .ok proposing from rfl)
    respells_explicit
  have hbundle := h.2.2.2 bare _ _ _ documentOf_sparse documentOf_explicit load_sparse
  ⟨rfl, respells_explicit, h.1.mpr null_notMem_explicit, documentOf_sparse, documentOf_explicit,
    load_sparse, hbundle.1.mpr null_notMem_explicit⟩

/-- An empty object is a response, but no longer one with `null` for its open proposals. -/
theorem not_respelled_nullProposals :
    ¬∀ (ms ms' : List (String × Json)) (r : Response), decoder.ofJson (.object ms) = .ok r →
      Respells lists ValueAlike ms ms' → decoder.ofJson (.object ms') = .ok r := by
  intro h
  have hsame := h [] [("pendingProposals", .null)] {} rfl ⟨.nil, by decide⟩
  exact nomatch hsame

end Response

end Parley
