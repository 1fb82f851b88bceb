import Parley.Message

/-!
# The chat and its views

The functions here read a list of messages in any order and with repetitions. `Chat.ordered` is the
chat: the visible messages by date, undated ones first, one message for each URI. The other views
select from it and keep its order.
-/

namespace Parley.Chat

/-- The order of the chat: by date, undated messages first, then by URI. -/
def order (m n : Message) : Ordering := (compare m.date n.date).then (compare m.uri n.uri)

/-- The message `m` may stand before `n` in the chat. -/
def le (m n : Message) : Bool := (order m n).isLE

/-- The first message of each URI. -/
def firstByUri : List Message → List Message
  | [] => []
  | m :: rest => m :: (firstByUri rest).filter fun n ↦ n.uri != m.uri

/-- The messages of which the chat consists, in the order of the list. -/
def kept (l : List Message) : List Message := firstByUri (l.filter Message.isVisible)

/-- The chat. -/
def ordered (l : List Message) : List Message := (kept l).mergeSort le

/-- The part of the chat whose status satisfies `p`. -/
def withStatus (p : Status → Bool) (l : List Message) : List Message :=
  (ordered l).filter fun m ↦ p m.status

/-- Messages whose status does not yet take the snapshot into account. -/
def unreconciled (l : List Message) : List Message := (ordered l).filter fun m ↦ !m.upToDate

/-- Agreements that are in force. -/
def agreements (l : List Message) : List Message :=
  withStatus (fun s ↦ s.accepted && !s.cancelled && !s.cancellationPending) l

/-- Proposals that nobody has answered. -/
def proposals (l : List Message) : List Message :=
  withStatus
    (fun s ↦ s.proposed && !s.accepted && !s.rejected && !s.retracted && !s.cancelled) l

/-- Agreements that somebody wants to cancel. -/
def cancellations (l : List Message) : List Message :=
  withStatus (fun s ↦ s.cancellationPending && !s.cancelled) l

/-- Messages that were not read yet. -/
def unread (l : List Message) : List Message := (ordered l).filter (·.unread)

/-- The message that opened the conversation is there, so there is nothing older. -/
def isComplete (l : List Message) : Bool := l.any fun m ↦ m.isVisible && m.kind = .connect

/-- Dropping repeated URIs invents no message. -/
theorem mem_firstByUri {m : Message} : ∀ {l : List Message}, m ∈ firstByUri l → m ∈ l
  | n :: rest, h => by
    rcases List.mem_cons.mp h with rfl | h
    · exact List.mem_cons_self
    · exact List.mem_cons_of_mem _ (mem_firstByUri (List.mem_filter.mp h).1)

/-- The order of the chat neither adds messages nor drops any. -/
theorem mem_ordered {m : Message} {l : List Message} : m ∈ ordered l ↔ m ∈ kept l :=
  (List.mergeSort_perm (kept l) le).mem_iff

/-- What is shown is visible. -/
theorem isVisible_of_mem_ordered {m : Message} {l : List Message} (h : m ∈ ordered l) :
    m.isVisible = true := (List.mem_filter.mp (mem_firstByUri (mem_ordered.mp h))).2

theorem mem_of_mem_ordered {m : Message} {l : List Message} (h : m ∈ ordered l) : m ∈ l :=
  (List.mem_filter.mp (mem_firstByUri (mem_ordered.mp h))).1

/-- Of the messages with a URI one is kept. -/
theorem exists_mem_firstByUri {m : Message} :
    ∀ {l : List Message}, m ∈ l → ∃ n ∈ firstByUri l, n.uri = m.uri
  | n :: rest, h => by
    by_cases hu : n.uri = m.uri
    · exact ⟨n, List.mem_cons_self, hu⟩
    · have hrest : m ∈ rest := (List.mem_cons.mp h).resolve_left fun e ↦ hu (e ▸ rfl)
      obtain ⟨k, hk, hku⟩ := exists_mem_firstByUri hrest
      refine ⟨k, List.mem_cons_of_mem _ (List.mem_filter.mpr ⟨hk, ?_⟩), hku⟩
      simpa [hku] using Ne.symm hu

/-- Nothing is left out of a list without repeated URIs. -/
theorem firstByUri_of_pairwise {l : List Message} (h : l.Pairwise fun m n ↦ m.uri ≠ n.uri) :
    firstByUri l = l := by
  induction l with
  | nil => rfl
  | cons m rest ih =>
    obtain ⟨hhead, htail⟩ := List.pairwise_cons.mp h
    rw [firstByUri, ih htail, List.filter_eq_self.mpr fun n hn ↦ by simpa using (hhead n hn).symm]

/-- A visible message is in the chat if no other message of the list has its URI. -/
theorem mem_ordered_of_unique {m : Message} {l : List Message} (hm : m ∈ l)
    (hv : m.isVisible = true) (hu : ∀ n ∈ l, n.uri = m.uri → n = m) : m ∈ ordered l := by
  obtain ⟨n, hn, hnu⟩ := exists_mem_firstByUri (List.mem_filter.mpr ⟨hm, hv⟩)
  have hnm : n = m := hu n (List.mem_filter.mp (mem_firstByUri hn)).1 hnu
  exact mem_ordered.mpr (hnm ▸ hn)

end Parley.Chat
