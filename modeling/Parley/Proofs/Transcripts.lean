import Parley.Sync.Step

/-!
# What the transcript of a call says

A `Sync` whose source keeps notes does what it does without them, and the notes are those of a
transcript of what the source answered (`Transcribes`). What is in the transcript follows the calls:
`Resolution` says how one event is looked up, `Lookups` how several are, and for each call that
fetches there is an inductive type with one constructor for each outcome, which ties the exchanges
to what becomes of the conversation (`LatestExchange`, `MoreExchange`, `AgreementExchange`,
`PetriNetExchange`).

Where the notes are the requests alone, what the transcript of a call begins with is what the call
asks for first (`exists_log_sync`).

Everything goes back to two facts: a request is one exchange (`transcribes_adding`), and the
transcript of two programs that run one after the other is the one followed by the other
(`Transcribes.bind`).
-/

namespace Parley

/-- The URIs that a snapshot mentions and the conversation does not know, in increasing order. -/
def Conversation.missing (c : Conversation) (t : Snapshot) : List String :=
  t.allUris.toList.filter fun u ↦ !c.containsEvent u

/-- In some state of the server the request of the exchange has this answer. -/
def Source.Gives {σ : Type} (source : Source σ) : Exchange → Prop
  | .message need uri a => ∃ s, ((source.message need uri).run s).1 = a
  | .messages connection limit before a =>
    ∃ s, ((source.messages connection limit before).run s).1 = a
  | .agreement connection a => ∃ s, ((source.agreement connection).run s).1 = a
  | .processes connection a => ∃ s, ((source.processes connection).run s).1 = a

namespace Sync

variable {σ κ : Type}

/-! ### Notes change nothing -/

/-- A request that is made after another one finds the source as the first one has left it. -/
theorem run_bind {α β : Type} (x : StateM σ α) (f : α → StateM σ β) (s : σ) :
    (x >>= f).run s = (f (x.run s).1).run (x.run s).2 := rfl

/-- The program `x'` does what `x` does, and adds the notes of a transcript of what the source
answered; transcript and result are as `P` says. -/
def Transcribes {α : Type} (source : Source σ) (note : Exchange → κ) (x : StateM σ α)
    (x' : StateM (σ × List κ) α) (P : List Exchange → α → Prop) : Prop :=
  ∀ s notes, ∃ t, x'.run (s, notes) = ((x.run s).1, (x.run s).2, notes ++ t.map note) ∧
    (∀ e ∈ t, source.Gives e) ∧ P t (x.run s).1

section

variable {α β : Type} {source : Source σ} {note : Exchange → κ}

theorem transcribes_pure {P : List Exchange → α → Prop} {a : α} (h : P [] a) :
    Transcribes source note (pure a : StateM σ α) (pure a) P :=
  fun s notes ↦ ⟨[], congrArg (fun l ↦ (a, s, l)) (List.append_nil notes).symm,
    List.forall_mem_nil _, h⟩

theorem transcribes_ite {p : Prop} [Decidable p] {x z : StateM σ α} {x' z' : StateM (σ × List κ) α}
    {P : List Exchange → α → Prop} (hx : p → Transcribes source note x x' P)
    (hz : ¬p → Transcribes source note z z' P) :
    Transcribes source note (if p then x else z) (if p then x' else z') P := by
  split
  · exact hx ‹p›
  · exact hz ‹¬p›

/-- The transcript of two programs in a row is that of the first, and then that of the second. -/
theorem Transcribes.bind {x : StateM σ α} {x' : StateM (σ × List κ) α} {f : α → StateM σ β}
    {f' : α → StateM (σ × List κ) β} {P : List Exchange → α → Prop}
    {Q : α → List Exchange → β → Prop} {R : List Exchange → β → Prop}
    (hx : Transcribes source note x x' P) (hf : ∀ a, Transcribes source note (f a) (f' a) (Q a))
    (hR : ∀ {a t t' b}, P t a → Q a t' b → R (t ++ t') b) :
    Transcribes source note (x >>= f) (x' >>= f') R := by
  intro s notes
  obtain ⟨t, hrun, ht, hP⟩ := hx s notes
  obtain ⟨t', hrun', ht', hQ⟩ := hf (x.run s).1 (x.run s).2 (notes ++ t.map note)
  refine ⟨t ++ t', ?_, List.forall_mem_append.mpr ⟨ht, ht'⟩, hR hP hQ⟩
  rw [run_bind, run_bind, hrun, hrun', List.map_append, List.append_assoc]

/-- **One exchange.** A program that begins with a request has its exchange first in the
transcript. -/
theorem Transcribes.asking {request : StateM σ α} (exchange : α → Exchange)
    (hgives : ∀ s, source.Gives (exchange (request.run s).1)) {f : α → StateM σ β}
    {f' : α → StateM (σ × List κ) β} {P : List Exchange → β → Prop}
    (hf : ∀ a, Transcribes source note (f a) (f' a) fun t b ↦ P (exchange a :: t) b) :
    Transcribes source note (request >>= f)
      (Source.adding (fun a ↦ note (exchange a)) request >>= f') P := by
  intro s notes
  obtain ⟨t, hrun, ht, hP⟩ := hf (request.run s).1 (request.run s).2
    (notes ++ [note (exchange (request.run s).1)])
  refine ⟨exchange (request.run s).1 :: t, ?_, List.forall_mem_cons.mpr ⟨hgives s, ht⟩, hP⟩
  rw [List.map_cons, List.append_cons]
  exact hrun

end

/-! ### Looking up one event -/

/-- What comes of the second look-up of the event `uri`, under the URI `remote` of the other side,
if that is answered with the first answer. -/
inductive SecondLook (need uri remote : String) : Answer Message → Answer Message → Prop
  | failed (f : Fault) : SecondLook need uri remote (.error f) (.error f)
  | found {m : Message} (h : m.isOwnEcho need = false) : SecondLook need uri remote (.ok m) (.ok m)
  /-- The record is an own echo again, and names a further URI. -/
  | unresolved {m : Message} (h : m.isOwnEcho need = true) {r : String}
      (hr : m.remoteUri = some r) (hne : r ≠ remote) :
      SecondLook need uri remote (.ok m) (.error (EchoProblem.unresolved uri).fault)
  /-- The record is an own echo again, and names no other URI. -/
  | deadEnd {m : Message} (h : m.isOwnEcho need = true)
      (hr : ∀ r, m.remoteUri = some r → r = remote) :
      SecondLook need uri remote (.ok m) (.error (EchoProblem.noRemoteUri remote).fault)

/-- How the event `uri` is looked up, and with what result. There is a second look-up just if the
record is an own echo that names another URI. -/
inductive Resolution (need uri : String) : List Exchange → Answer Message → Prop
  | failed (f : Fault) : Resolution need uri [.message need uri (.error f)] (.error f)
  | found {m : Message} (h : m.isOwnEcho need = false) :
      Resolution need uri [.message need uri (.ok m)] (.ok m)
  /-- The record is an own echo and names no other URI. -/
  | deadEnd {echo : Message} (h : echo.isOwnEcho need = true)
      (hr : ∀ r, echo.remoteUri = some r → r = uri) :
      Resolution need uri [.message need uri (.ok echo)]
        (.error (EchoProblem.noRemoteUri uri).fault)
  | second {echo : Message} (h : echo.isOwnEcho need = true) {remote : String}
      (hr : echo.remoteUri = some remote) (hne : remote ≠ uri) {a answer : Answer Message}
      (ha : SecondLook need uri remote a answer) :
      Resolution need uri [.message need uri (.ok echo), .message need remote a] answer

/-- A record that is found is an answer to one of the look-ups. -/
theorem Resolution.exists_exchange {need uri : String} {t : List Exchange} {m : Message}
    (h : Resolution need uri t (.ok m)) : ∃ u, .message need u (.ok m) ∈ t := by
  cases h with
  | found => exact ⟨uri, List.mem_singleton_self _⟩
  | second _ _ _ ha =>
    cases ha with
    | found => exact ⟨_, List.mem_cons_of_mem _ (List.mem_singleton_self _)⟩

variable (note : Exchange → κ) (y : Sync σ)

/-- The second look-up is one exchange, and what comes of it depends on its answer. -/
theorem transcribes_second (uri remote : String) :
    Transcribes y.source note (fetchEvent.second y uri remote)
      (fetchEvent.second (y.noted note) uri remote) fun t answer ↦
        ∃ a, t = [.message y.ownedNeed remote a] ∧
          SecondLook y.ownedNeed uri remote a answer := by
  refine .asking (.message y.ownedNeed remote) (fun s ↦ ⟨s, rfl⟩) fun a ↦ ?_
  cases a with
  | error f => exact transcribes_pure ⟨_, rfl, .failed f⟩
  | ok m =>
    refine transcribes_ite (fun hecho ↦ transcribes_ite (fun hany ↦ ?_) fun hany ↦ ?_)
      fun hecho ↦ ?_
    · obtain ⟨r, hr, hne⟩ := (Option.any_eq_true _ _).mp hany
      exact transcribes_pure ⟨_, rfl, .unresolved hecho hr (bne_iff_ne.mp hne)⟩
    · exact transcribes_pure ⟨_, rfl, .deadEnd hecho fun r hr ↦ by simpa [hr] using hany⟩
    · exact transcribes_pure ⟨_, rfl, .found ((Bool.not_eq_true _).mp hecho)⟩

/-- **One event** is looked up as `Resolution` says. -/
theorem transcribes_fetchEvent (uri : String) :
    Transcribes y.source note (y.fetchEvent uri) ((y.noted note).fetchEvent uri)
      (Resolution y.ownedNeed uri) := by
  refine .asking (.message y.ownedNeed uri) (fun s ↦ ⟨s, rfl⟩) fun a ↦ ?_
  cases a with
  | error f => exact transcribes_pure (.failed f)
  | ok m =>
    refine transcribes_ite (fun hecho ↦ ?_) fun hecho ↦
      transcribes_pure (.found ((Bool.not_eq_true _).mp hecho))
    rcases hremote : m.remoteUri with - | remote
    · exact transcribes_pure (.deadEnd hecho fun r hr ↦ nomatch hr.symm.trans hremote)
    · refine transcribes_ite (fun heq ↦ ?_) fun hne s notes ↦ ?_
      · refine transcribes_pure (.deadEnd hecho fun r hr ↦ ?_)
        exact (Option.some.inj (hr.symm.trans hremote)).trans heq
      · obtain ⟨t, hrun, ht, a, rfl, ha⟩ := transcribes_second note y uri remote s notes
        exact ⟨_, hrun, ht, .second hecho hremote hne ha⟩

/-! ### Looking up several events -/

/-- How events are looked up one after the other, and with what results. -/
inductive Lookups (need : String) : List String → List Exchange → List (Answer Message) → Prop
  | nil : Lookups need [] [] []
  | cons {uri : String} {uris : List String} {t ts : List Exchange} {answer : Answer Message}
      {answers : List (Answer Message)} (h : Resolution need uri t answer)
      (hrest : Lookups need uris ts answers) :
      Lookups need (uri :: uris) (t ++ ts) (answer :: answers)

/-- A record that is received is an answer to one of the look-ups. -/
theorem Lookups.exists_exchange {need : String} {uris : List String} {t : List Exchange}
    {answers : List (Answer Message)} (h : Lookups need uris t answers) {m : Message}
    (hm : m ∈ received answers) : ∃ u, .message need u (.ok m) ∈ t := by
  induction h with
  | nil => exact nomatch hm
  | @cons uri uris t ts answer answers hhead hrest ih =>
    rw [received, List.filterMap_cons] at hm
    rcases answer with f | n
    · obtain ⟨u, hu⟩ := ih hm
      exact ⟨u, List.mem_append_right _ hu⟩
    · rcases List.mem_cons.mp hm with rfl | hm
      · obtain ⟨u, hu⟩ := hhead.exists_exchange
        exact ⟨u, List.mem_append_left _ hu⟩
      · obtain ⟨u, hu⟩ := ih hm
        exact ⟨u, List.mem_append_right _ hu⟩

/-- **A round of look-ups** is transcribed event by event; the induction is on the URIs. -/
theorem transcribes_fetchEvents (uris : List String) :
    Transcribes y.source note (y.fetchEvents uris) ((y.noted note).fetchEvents uris)
      (Lookups y.ownedNeed uris) := by
  induction uris with
  | nil => exact transcribes_pure .nil
  | cons uri uris ih =>
    rw [fetchEvents, fetchEvents, List.mapM_cons, List.mapM_cons]
    refine (transcribes_fetchEvent note y uri).bind (Q := fun a ts answers ↦
      ∃ rest, answers = a :: rest ∧ Lookups y.ownedNeed uris ts rest) (fun a ↦ ?_) ?_
    · refine ih.bind (Q := fun rest ts answers ↦ ts = [] ∧ answers = a :: rest)
        (fun rest ↦ transcribes_pure ⟨rfl, rfl⟩) ?_
      rintro rest t t' answers hrest ⟨rfl, rfl⟩
      exact ⟨rest, rfl, (List.append_nil t).symm ▸ hrest⟩
    · rintro a t t' answers ha ⟨rest, rfl, hrest⟩
      exact .cons ha hrest

/-! ### The calls of a sync -/

/-- What a call for the newest messages asks for, and what comes of it. -/
inductive LatestExchange (y : Sync σ) (c : Conversation) :
    List Exchange → Conversation × Answer Nat → Prop
  | notDue (h : c.needsMessages = false) : LatestExchange y c [] (c, .ok 0)
  | failed (h : c.needsMessages = true) (f : Fault) :
      LatestExchange y c [.messages c.uri y.initialCount none (.error f)]
        (c.beginMessages.failMessages, .error f)
  | arrived (h : c.needsMessages = true) (batch : List Message) :
      LatestExchange y c [.messages c.uri y.initialCount none (.ok batch)]
        ((c.beginMessages.finishMessages batch).map id .ok)

/-- A first page is transcribed: it is one exchange, or none. -/
theorem transcribes_loadLatest (c : Conversation) :
    Transcribes y.source note (y.loadLatest c) ((y.noted note).loadLatest c)
      (LatestExchange y c) := by
  refine transcribes_ite (fun hdue ↦ ?_) fun hdue ↦
    transcribes_pure (.notDue ((Bool.not_eq_true _).mp hdue))
  refine .asking (.messages c.uri y.initialCount none) (fun s ↦ ⟨s, rfl⟩) fun a ↦ ?_
  cases a with
  | error f => exact transcribes_pure (.failed hdue f)
  | ok batch => exact transcribes_pure (.arrived hdue batch)

/-- What a call for older messages asks for, and what comes of it. -/
inductive MoreExchange (y : Sync σ) (c : Conversation) :
    List Exchange → Conversation × Answer Nat → Prop
  | notDue (h : c.canLoadMore = false) : MoreExchange y c [] (c, .ok 0)
  | failed (h : c.canLoadMore = true) (f : Fault) :
      MoreExchange y c [.messages c.uri y.moreCount c.oldestDate (.error f)]
        (c.beginMessages.failMessages, .error f)
  | arrived (h : c.canLoadMore = true) (batch : List Message) :
      MoreExchange y c [.messages c.uri y.moreCount c.oldestDate (.ok batch)]
        ((finishMore c.beginMessages batch).map id .ok)

theorem transcribes_loadMore (c : Conversation) :
    Transcribes y.source note (y.loadMore c) ((y.noted note).loadMore c) (MoreExchange y c) := by
  refine transcribes_ite (fun hdue ↦ ?_) fun hdue ↦
    transcribes_pure (.notDue ((Bool.not_eq_true _).mp hdue))
  refine .asking (.messages c.uri y.moreCount c.oldestDate) (fun s ↦ ⟨s, rfl⟩) fun a ↦ ?_
  cases a with
  | error f => exact transcribes_pure (.failed hdue f)
  | ok batch => exact transcribes_pure (.arrived hdue batch)

/-- What a call for the agreements asks for, and what comes of it. The events that are missing are
looked up once the snapshot is there. -/
inductive AgreementExchange (y : Sync σ) (c : Conversation) (force : Bool) :
    List Exchange → Conversation × Answer Nat → Prop
  | notDue (h : c.needsAgreement force = false) : AgreementExchange y c force [] (c, .ok 0)
  | failed (h : c.needsAgreement force = true) (f : Fault) :
      AgreementExchange y c force [.agreement c.uri (.error f)]
        (c.beginSnapshot.failSnapshot, .error f)
  | arrived (h : c.needsAgreement force = true) (response : Response) {d : Conversation}
      (hd : c.beginSnapshot.applySnapshot response.snapshot = d) {t : List Exchange}
      {answers : List (Answer Message)}
      (ht : Lookups y.ownedNeed (d.missing response.snapshot) t answers) :
      AgreementExchange y c force (.agreement c.uri (.ok response) :: t)
        ((d.upsertAll (received answers)).map id .ok)

/-- A refresh of the agreements is transcribed, with the look-ups behind its own exchange. -/
theorem transcribes_refreshAgreement (c : Conversation) (force : Bool) :
    Transcribes y.source note (y.refreshAgreement c force) ((y.noted note).refreshAgreement c force)
      (AgreementExchange y c force) := by
  refine transcribes_ite (fun hdue ↦ ?_) fun hdue ↦
    transcribes_pure (.notDue ((Bool.not_eq_true _).mp hdue))
  refine .asking (.agreement c.uri) (fun s ↦ ⟨s, rfl⟩) fun a ↦ ?_
  cases a with
  | error f => exact transcribes_pure (.failed hdue f)
  | ok response =>
    refine (transcribes_fetchEvents note y _).bind (Q := fun answers t r ↦ t = [] ∧
      r = ((c.beginSnapshot.applySnapshot response.snapshot).upsertAll
        (received answers)).map id .ok) (fun answers ↦ transcribes_pure ⟨rfl, rfl⟩) ?_
    rintro answers t t' r ht ⟨rfl, rfl⟩
    rw [List.append_nil]
    exact .arrived hdue response rfl ht

/-- What a call for the processes asks for, and what comes of it. -/
inductive PetriNetExchange (c : Conversation) (force : Bool) :
    List Exchange → Conversation × Answer Nat → Prop
  | notDue (h : c.needsPetriNet force = false) : PetriNetExchange c force [] (c, .ok 0)
  | failed (h : c.needsPetriNet force = true) (f : Fault) :
      PetriNetExchange c force [.processes c.uri (.error f)]
        (c.beginPetriNet.failPetriNet, .error f)
  | arrived (h : c.needsPetriNet force = true) (processes : List Process) :
      PetriNetExchange c force [.processes c.uri (.ok processes)]
        (c.beginPetriNet.applyPetriNet (.ofProcesses processes),
          .ok (PetriNet.ofProcesses processes).size)

theorem transcribes_refreshPetriNet (c : Conversation) (force : Bool) :
    Transcribes y.source note (y.refreshPetriNet c force) ((y.noted note).refreshPetriNet c force)
      (PetriNetExchange c force) := by
  refine transcribes_ite (fun hdue ↦ ?_) fun hdue ↦
    transcribes_pure (.notDue ((Bool.not_eq_true _).mp hdue))
  refine .asking (.processes c.uri) (fun s ↦ ⟨s, rfl⟩) fun a ↦ ?_
  cases a with
  | error f => exact transcribes_pure (.failed hdue f)
  | ok processes => exact transcribes_pure (.arrived hdue processes)

/-- **A sync** makes the three calls one after the other and reconciles what they lead to. -/
theorem transcribes_sync (c : Conversation) :
    Transcribes y.source note (y.sync c) ((y.noted note).sync c) fun t r ↦
      ∃ t₁ r₁ t₂ r₂ t₃ r₃, LatestExchange y c t₁ r₁ ∧ AgreementExchange y r₁.1 false t₂ r₂ ∧
        PetriNetExchange r₂.1 false t₃ r₃ ∧ t = t₁ ++ (t₂ ++ t₃) ∧
        r = ((reconcile r₃.1).1, firstFault r₁.2 r₂.2 r₃.2) := by
  refine (transcribes_loadLatest note y c).bind (Q := fun r₁ t r ↦ ∃ t₂ r₂ t₃ r₃,
    AgreementExchange y r₁.1 false t₂ r₂ ∧ PetriNetExchange r₂.1 false t₃ r₃ ∧ t = t₂ ++ t₃ ∧
      r = ((reconcile r₃.1).1, firstFault r₁.2 r₂.2 r₃.2)) (fun r₁ ↦ ?_) ?_
  · refine (transcribes_refreshAgreement note y r₁.1 false).bind (Q := fun r₂ t r ↦ ∃ r₃,
      PetriNetExchange r₂.1 false t r₃ ∧
        r = ((reconcile r₃.1).1, firstFault r₁.2 r₂.2 r₃.2)) (fun r₂ ↦ ?_) ?_
    · refine (transcribes_refreshPetriNet note y r₂.1 false).bind (Q := fun r₃ t r ↦ t = [] ∧
        r = ((reconcile r₃.1).1, firstFault r₁.2 r₂.2 r₃.2))
        (fun r₃ ↦ transcribes_pure ⟨rfl, rfl⟩) ?_
      rintro r₃ t t' r h₃ ⟨rfl, rfl⟩
      exact ⟨r₃, (List.append_nil t).symm ▸ h₃, rfl⟩
    · rintro r₂ t t' r h₂ ⟨r₃, h₃, rfl⟩
      exact ⟨t, r₂, t', r₃, h₂, h₃, rfl, rfl⟩
  · rintro r₁ t t' r h₁ ⟨t₂, r₂, t₃, r₃, h₂, h₃, rfl, rfl⟩
    exact ⟨t, r₁, t₂, r₂, t₃, r₃, h₁, h₂, h₃, rfl, rfl⟩

/-! ### Requests -/

variable {y} {c : Conversation}

/-- Noting requests is keeping a note of the request of every exchange. -/
theorem logged_eq_noted (y : Sync σ) : y.logged = y.noted Exchange.call := by
  rw [logged, noted, Source.logged_eq_noted]

/-- The newest messages are the first that a call asks for if they are due. -/
theorem LatestExchange.map_call {t : List Exchange} {r : Conversation × Answer Nat}
    (ht : LatestExchange y c t r) (h : c.needsMessages = true) :
    t.map Exchange.call = [.messages c.uri y.initialCount none] := by
  cases ht with
  | notDue hdue => exact nomatch h.symm.trans hdue
  | failed => rfl
  | arrived => rfl

/-- The request for the newest messages is the only one of the call for them. -/
theorem log_loadLatest (h : c.needsMessages = true) (s : σ) (calls : List Call) :
    ((y.logged.loadLatest c).run (s, calls)).2.2 =
      calls ++ [.messages c.uri y.initialCount none] := by
  obtain ⟨t, hrun, -, ht⟩ := transcribes_loadLatest Exchange.call y c s calls
  rw [logged_eq_noted, hrun, ht.map_call h]

/-- A sync asks for the newest messages first, if they are due. -/
theorem exists_log_sync (h : c.needsMessages = true) (s : σ) (calls : List Call) :
    ∃ rest, ((y.logged.sync c).run (s, calls)).2.2 =
      calls ++ .messages c.uri y.initialCount none :: rest := by
  obtain ⟨t, hrun, -, t₁, r₁, t₂, r₂, t₃, r₃, hlatest, -, -, rfl, -⟩ :=
    transcribes_sync Exchange.call y c s calls
  refine ⟨(t₂ ++ t₃).map Exchange.call, ?_⟩
  rw [logged_eq_noted, hrun, List.map_append, hlatest.map_call h, List.singleton_append]

end Sync

end Parley
