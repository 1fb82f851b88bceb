import Parley.Bundle
import Parley.Proofs.Decoding

/-!
# A saved bundle loads as it was

A bundle that was loaded, however its text spelled it, is written in one way, and that text loads as
the same bundle (`Bundle.load_save`). The parts that are kept as they came are what matters: reading
them has put them in order and bounded their nesting (`Bundle.AsRead`), which is as deep as the
text of the bundle may hold them. Their numbers have to be integers (`Bundle.HoldsIntegers`).

There is one lemma for each type of record in a bundle, from the inside out. Each says how many
brackets the text of the record opens.
-/

namespace Parley

open Json

/-! ### Agreement data -/

namespace Response

/-- An open proposal is read back from its text; its URI may be missing, and the lists are written
even when empty. -/
theorem reads_proposal (depth : Nat) (p : OpenProposal) :
    proposalRecord.decoder.Reads (depth + 2) (proposalToJson p) p := by
  refine Record.Fills.reads (by decide) ?_
  refine .optional (fun u _ ↦ (Decoder.reads_text _ u).nullable fun e ↦ nomatch e) rfl ?_
  exact .present (Decoder.reads_strings depth p.proposes)
    (.present (Decoder.reads_strings depth p.proposesToCancel) (.nil p))

/-- An answer for the agreements is read back with all its categories. Its proposals are what makes
the text four brackets deep. -/
theorem reads_response (depth : Nat) (r : Response) :
    decoder.Reads (depth + 4) r.toJson r := by
  have hstrings := fun l ↦ Decoder.reads_strings (depth + 2) l
  have hproposals := Decoder.Reads.list fun p (_ : p ∈ r.openProposals) ↦ reads_proposal depth p
  refine Record.Fills.reads (by decide) ?_
  refine .present (hstrings r.agreements) ?_
  refine .present (hstrings r.pendingProposals) ?_
  refine .present hproposals ?_
  refine .present (hstrings r.acceptedCancellationProposals) ?_
  refine .present (hstrings r.cancellationPendingAgreements) ?_
  refine .present (hstrings r.pendingCancellationProposals) ?_
  refine .present (hstrings r.cancelledAgreements) ?_
  refine .present (hstrings r.rejectedMessages) ?_
  refine .present (hstrings r.retractedMessages) ?_
  exact .present (hstrings r.claimedMessages) (.nil r)

end Response

/-! ### Processes -/

namespace PetriNet

/-- Further data that comes back as it is: it is in order, nested at most `depth` deep, and is not
taken for the URI. -/
def ExtraFits (depth : Nat) (p : Process) : Prop :=
  ∀ e ∈ p.extra.entries, Fits depth e.2 ∧ InOrder e.2 ∧ e.1 ≠ "processURI"

/-- The further data, member by member. The induction is on the members; each one goes into the
map. -/
theorem folds_extra {depth : Nat} {l : List (String × Json)}
    (h : ∀ e ∈ l, Fits depth e.2 ∧ InOrder e.2 ∧ e.2.Integral ∧ e.1 ≠ "processURI") :
    ∀ d : Record.Draft Process,
      Reader.Folds (Record.Joins (fun _ dec ↦ dec.Reads depth) record) d l
        ⟨⟨d.value.uri, l.foldl (fun m e ↦ m.insert e.1 e.2) d.value.extra⟩, d.names⟩ := by
  induction l with
  | nil => exact fun d ↦ .nil d
  | cons e l ih =>
    obtain ⟨⟨hfits, horder, hint, hname⟩, hl⟩ := List.forall_mem_cons.mp h
    intro d
    have hfield : record.field? e.1 = none := by
      have hother : ¬("processURI" == e.1) = true := by simpa using hname.symm
      exact List.find?_cons_of_neg hother
    have hread : Decoder.json.Reads depth e.2 e.2 := by
      have harranged := Decoder.reads_json hfits hint
      rwa [arranged_eq_self horder] at harranged
    exact .cons (.kept hfield rfl hread) (ih hl _)

/-- A process is read back with its URI and its further data, which may be anything but a second
URI. -/
theorem reads_process {depth : Nat} {p : Process} (hfits : ExtraFits depth p)
    (hint : ∀ e ∈ p.extra.entries, e.2.Integral) :
    decoder.Reads (depth + 1) (processToJson p) p := by
  have huri : Record.Fills (fun _ dec ↦ dec.Reads depth) record.fields
      ((p.uri.map fun u ↦ ("processURI", Json.string u)).toList ++ []) record.blank ⟨p.uri, ∅⟩ :=
    .optional (fun u _ ↦ (Decoder.reads_text depth u).nullable fun e ↦ nomatch e) rfl (.nil _)
  rw [List.append_nil] at huri
  obtain ⟨names, hfolds, -, hrequired⟩ := huri.folds
    (fun f hf ↦ Record.field?_eq_some (by decide) hf) (by decide) [] fun _ _ hf ↦ nomatch hf
  have hextra := folds_extra (fun e he ↦ ⟨(hfits e he).1, (hfits e he).2.1, hint e he,
    (hfits e he).2.2⟩) ⟨⟨p.uri, ∅⟩, names⟩
  have hread := Record.reads_object (hfolds.append hextra) hrequired
  have hentries : p.extra.entries.foldl (fun m e ↦ m.insert e.1 e.2) ∅ = p.extra :=
    p.extra.ofList_entries
  rwa [hentries] at hread

/-- Further data that was read is in order, no deeper than it could be read, and not the URI. -/
theorem yields_extraFits (depth : Nat) :
    Reader.Yields (decoder.read (depth + 1)) (ExtraFits depth) := by
  refine Record.yields_read (fun _ he ↦ nomatch he) ?_ ?_
  · rintro inner hinner f hf
    cases List.mem_singleton.mp hf
    exact Record.yields_field (.always _) fun _ _ _ hp ↦ hp
  · rintro inner hinner keep ⟨⟩ name j p hfield hfits horder hp e he
    cases hinner
    rcases KeyedList.mem_put he with rfl | he
    · refine ⟨hfits, horder, ?_⟩
      rintro rfl
      exact nomatch hfield
    · exact hp e he

end PetriNet

/-! ### Bundles -/

namespace Bundle

/-- Every number in the parts that are kept as they came is an integer of 64 bits. -/
def HoldsIntegers (b : Bundle) : Prop :=
  (∀ j ∈ b.messages, j.Integral) ∧ ∀ p ∈ b.processes, ∀ e ∈ p.extra.entries, e.2.Integral

/-- The parts that are kept as they came are in order, and no deeper than the text of the bundle can
hold them. -/
structure AsRead (b : Bundle) : Prop where
  messages : ∀ j ∈ b.messages, Fits 125 j ∧ InOrder j
  processes : ∀ p ∈ b.processes, PetriNet.ExtraFits 124 p

theorem connection_reads (depth : Nat) (c : Connection) :
    Connection.decoder.Reads depth (.string c.word) c :=
  Decoder.reads_oneOf c.entryOf_word depth

/-- Values that are kept as they came. -/
theorem reads_raw {depth : Nat} {js : List Json}
    (h : ∀ j ∈ js, (Fits depth j ∧ InOrder j) ∧ j.Integral) :
    (Decoder.list Decoder.json).Reads (depth + 1) (.array js) js := by
  have hread : ∀ j ∈ js, Decoder.json.Reads depth (id j) j := by
    intro j hj
    obtain ⟨⟨hfits, horder⟩, hint⟩ := h j hj
    have harranged := Decoder.reads_json hfits hint
    rwa [arranged_eq_self horder] at harranged
  have hlist := Decoder.Reads.list hread
  rwa [List.map_id] at hlist

/-- The text of a bundle reads as the bundle. -/
theorem reads_bundle {b : Bundle} (hversion : b.version < 256) (hread : b.AsRead)
    (hint : b.HoldsIntegers) : decoder.Reads Reader.depthLimit b.toJson b := by
  have hmessages := reads_raw fun j hj ↦ And.intro (hread.messages j hj) (hint.1 j hj)
  have hprocesses := Decoder.Reads.list fun p hp ↦
    PetriNet.reads_process (hread.processes p hp) (hint.2 p hp)
  have htext := Decoder.reads_text 126
  refine Record.Fills.reads (by decide) ?_
  simp only [List.append_assoc, List.cons_append, List.nil_append]
  refine .present (Decoder.reads_natural "u8" hversion (by decide) 126) ?_
  refine .present (htext b.connectionUri) ?_
  refine .present (htext b.ownedNeed) ?_
  refine .optional (fun u _ ↦ (htext u).nullable fun e ↦ nomatch e) rfl ?_
  refine .present (connection_reads 126 b.connection) ?_
  refine .present hmessages ?_
  refine .optional (fun r _ ↦ (Response.reads_response 122 r).nullable fun e ↦ nomatch e) rfl ?_
  exact .present hprocesses (.nil b)

/-- What was read has its raw parts in order, and no deeper than it could be read. -/
theorem yields_asRead : Reader.Yields (decoder.read Reader.depthLimit) AsRead := by
  refine Record.yields_read ⟨fun _ hj ↦ (nomatch hj), fun _ hp ↦ (nomatch hp)⟩ ?_
    fun _ _ _ hkeep ↦ nomatch hkeep
  intro inner hinner
  obtain rfl : inner = 126 := Nat.succ.inj hinner.symm
  have hmessages : Reader.Yields ((Decoder.list Decoder.json).read 126) fun js ↦
      ∀ j ∈ js, Fits 125 j ∧ InOrder j :=
    Decoder.yields_list fun depth hdepth ↦ by
      cases hdepth
      exact Reader.yields_value 125
  have hprocesses : Reader.Yields ((Decoder.list PetriNet.decoder).read 126) fun ps ↦
      ∀ p ∈ ps, PetriNet.ExtraFits 124 p :=
    Decoder.yields_list fun depth hdepth ↦ by
      cases hdepth
      exact PetriNet.yields_extraFits 124
  simp only [record, List.forall_mem_cons]
  refine ⟨?_, ?_, ?_, ?_, ?_, ?_, ?_, ?_, fun _ hf ↦ nomatch hf⟩
  case refine_6 => exact Record.yields_field hmessages fun _ _ hv hb ↦ ⟨hv, hb.processes⟩
  case refine_8 => exact Record.yields_field hprocesses fun _ _ hv hb ↦ ⟨hb.messages, hv⟩
  all_goals exact Record.yields_field (.always _) fun _ _ _ hb ↦ ⟨hb.messages, hb.processes⟩

theorem asRead_of_ofBytes {t : List UInt8} {b : Bundle} (h : decoder.ofBytes t = .ok b) :
    b.AsRead := yields_asRead.whole.of_onText h

/-- A text that reads as a bundle loads as it if its version is the supported one; otherwise it is
refused for its version. -/
theorem load_eq {t : List UInt8} {b : Bundle} (h : decoder.ofBytes t = .ok b) :
    load t = if b.version = supportedVersion then .ok b else .error (.unsupported b.version) := by
  unfold load
  rw [h]
  rfl

/-- A text that loads reads as the bundle and has the supported version. -/
theorem load_eq_ok {t : List UInt8} {b : Bundle} (h : load t = .ok b) :
    decoder.ofBytes t = .ok b ∧ b.version = supportedVersion := by
  obtain ⟨b', hread, hcheck⟩ := exists_of_bind_eq_ok h
  split at hcheck
  · rename_i hversion
    cases hcheck
    exact ⟨eq_ok_of_mapError hread, hversion⟩
  · cases hcheck

/-- The text of a saved bundle reads as the bundle. -/
theorem ofBytes_save {b : Bundle} (hversion : b.version < 256) (hread : b.AsRead)
    (hint : b.HoldsIntegers) : decoder.ofBytes b.save.toUTF8.toList = .ok b := by
  have h := (reads_bundle hversion hread hint).ofBytes Layout.isBlank_indented Reader.blank_nil
  rw [List.append_nil] at h
  rwa [save, indented, toList_toUTF8, String.toList_ofList]

/-- A bundle that was loaded, and whose raw parts hold no other numbers than integers of 64 bits,
survives saving: the text loads as the bundle with all its fields, so saving again writes the same
text. With another version the text is still well-formed, and loading refuses it for its version. -/
theorem load_save {t : List UInt8} {b : Bundle} (hload : load t = .ok b)
    (hint : b.HoldsIntegers) :
    load b.save.toUTF8.toList = .ok b ∧
      (∀ b', load b.save.toUTF8.toList = .ok b' → b' = b ∧ b'.save = b.save) ∧
      ∀ v < 256, v ≠ supportedVersion →
        load { b with version := v }.save.toUTF8.toList = .error (.unsupported v) := by
  obtain ⟨hof, hversion⟩ := load_eq_ok hload
  have hread := asRead_of_ofBytes hof
  have hsame : load b.save.toUTF8.toList = .ok b := by
    have hbyte : b.version < 256 := by rw [hversion]; decide
    rw [load_eq (ofBytes_save hbyte hread hint), if_pos hversion]
  refine ⟨hsame, fun b' hb' ↦ ?_, fun v hv hne ↦ ?_⟩
  · rw [hsame] at hb'
    cases hb'
    exact ⟨rfl, rfl⟩
  · have hother : decoder.ofBytes { b with version := v }.save.toUTF8.toList =
        .ok { b with version := v } := ofBytes_save hv ⟨hread.messages, hread.processes⟩ hint
    rw [load_eq hother, if_neg hne]

/-- A bundle as it is never written: members in another order, one of them unknown, a member of a
raw record twice, the state with a value, a list as `null` and a proposal as an array. -/
def respelled : Json :=
  .object [
    ("ownedNeedUri", .string "o"), ("note", .bool true), ("connectionUri", .string "c"),
    ("petriNet", .array [.object [("z", Json.count 7)],
      .object [("a", .null), ("processURI", .string "u")]]),
    ("state", .object [("connected", .null)]),
    ("messages", .array [.object [("text", .bool true), ("n", .number (.integer (-2))),
      ("text", .string "\"\n")]]),
    ("agreementData", .object [("agreementUris", .null),
      ("pendingProposals", .array [.array [.null, Json.strings ["p", "p"]]])]),
    ("version", Json.count 1)]

/-- The bundle that is spelled there. -/
def spelled : Bundle where
  version := 1
  connectionUri := "c"
  ownedNeed := "o"
  connection := .connected
  messages := [.object [("n", .number (.integer (-2))), ("text", .string "\"\n")]]
  agreement := some { openProposals := [{ proposes := ["p", "p"] }] }
  processes := [⟨none, .ofList [("z", Json.count 7)]⟩, ⟨some "u", .ofList [("a", .null)]⟩]

set_option maxRecDepth 4000 in
theorem load_respelled : load respelled.compact.toUTF8.toList = .ok spelled := by
  rw [compact, toList_toUTF8, String.toList_ofList]
  rfl

theorem holdsIntegers_spelled : spelled.HoldsIntegers := by
  constructor
  · simp only [spelled, List.forall_mem_singleton]
    refine .object ?_
    simp only [List.forall_mem_cons]
    exact ⟨.number (by decide) (by decide), .string _, fun _ h ↦ nomatch h⟩
  · simp only [spelled, List.forall_mem_cons]
    refine ⟨fun e he ↦ ?_, fun e he ↦ ?_, fun _ h ↦ nomatch h⟩
    · cases List.mem_singleton.mp he
      exact .number (by decide) (by decide)
    · cases List.mem_singleton.mp he
      exact .null

/-- Both spellings, that one and the one that is written, load as the same bundle. -/
theorem load_save_respelled :
    load respelled.compact.toUTF8.toList = .ok spelled ∧ spelled.HoldsIntegers ∧
      load spelled.save.toUTF8.toList = .ok spelled ∧
      load { spelled with version := 2 }.save.toUTF8.toList = .error (.unsupported 2) :=
  have h := load_save load_respelled holdsIntegers_spelled
  ⟨load_respelled, holdsIntegers_spelled, h.1, h.2.2 2 (by decide) (by decide)⟩

end Bundle

end Parley
