import Parley.Proofs.Arguments

/-!
# Options read from arguments

`Options.ofArguments` accepts exactly the arguments that are written as items with one path, takes
from them what `Options.Chosen` says, and otherwise reports the leftmost argument that offends
(`Options.ofArguments_grammar`).

What a scan makes of items is a fold that sets one option at a time, so of each kind of items the
last one decides (`get_foldl_take`). That is why items of different kinds can change places.
-/

namespace Parley

namespace Options

/-! ### What is chosen -/

/-- An option that each item may set is the last one set. -/
theorem get_foldl_take {α : Type} {get : Options → α} {pick : Item → Option α}
    (h : ∀ (o : Options) (item : Item), get (o.take item) = (pick item).getD (get o))
    (items : List Item) :
    ∀ o : Options, get (items.foldl take o) = ((items.filterMap pick).getLast?).getD (get o) := by
  induction items with
  | nil => exact fun _ ↦ rfl
  | cons item items ih =>
    intro o
    rw [List.foldl_cons, ih, h, List.filterMap_cons]
    cases pick item with
    | none => rfl
    | some a =>
      show _ = (a :: items.filterMap pick).getLast?.getD (get o)
      rw [List.getLast?_cons]
      rfl

/-- The last view that is asked for decides. -/
theorem view_foldl_take (items : List Item) (o : Options) :
    (items.foldl take o).view = (items.filterMap Item.view?).getLast?.getD o.view :=
  get_foldl_take (fun _ item ↦ by cases item <;> rfl) items o

theorem initialCount_foldl_take (items : List Item) (o : Options) :
    (items.foldl take o).initialCount =
      (items.filterMap Item.initial?).getLast?.getD o.initialCount :=
  get_foldl_take (fun _ item ↦ by cases item <;> rfl) items o

theorem moreCount_foldl_take (items : List Item) (o : Options) :
    (items.foldl take o).moreCount = (items.filterMap Item.more?).getLast?.getD o.moreCount :=
  get_foldl_take (fun _ item ↦ by cases item <;> rfl) items o

/-- The last path would decide; that there is only one is checked elsewhere. -/
theorem bundle_foldl_take (items : List Item) :
    ∀ o : Options, (items.foldl take o).bundle = (paths items).getLast?.or o.bundle := by
  induction items with
  | nil => exact fun _ ↦ rfl
  | cons item items ih =>
    intro o
    rw [List.foldl_cons, ih, paths_cons]
    cases item with
    | path p =>
      show (paths items).getLast?.or (some p) = (p :: paths items).getLast?.or o.bundle
      rw [List.getLast?_cons]
      cases (paths items).getLast? <;> rfl
    | _ => rfl

/-- One flag is enough for JSON. -/
theorem json_foldl_take (items : List Item) :
    ∀ o : Options, (items.foldl take o).json = true ↔ Item.json ∈ items ∨ o.json = true := by
  induction items with
  | nil => exact fun _ ↦ by simp
  | cons item items ih =>
    intro o
    rw [List.foldl_cons, ih, List.mem_cons]
    cases item with
    | json => simp [take]
    | _ => simp [take]

/-- The size in force is the environment's, if that is a count, and otherwise the one given. -/
def InForce (override : Option String) (given n : Nat) : Prop :=
  (∃ text, override = some text ∧ IsCount text n) ∨
    (∀ text m, override = some text → ¬IsCount text m) ∧ n = given

/-- The size in force, as it is computed: the text is tried, and the size given is the way out. -/
theorem inForce_iff {override : Option String} {given n : Nat} :
    InForce override given n ↔ (override.bind count?).getD given = n := by
  rcases hcount : override.bind count? with _ | m
  · have hnone : ∀ text m, override = some text → ¬IsCount text m := fun text m htext hm ↦ by
      rw [htext, Option.bind_some, count?_eq_some_iff.mpr hm] at hcount
      exact nomatch hcount
    refine ⟨fun h ↦ ?_, fun h ↦ .inr ⟨hnone, h.symm⟩⟩
    rcases h with ⟨text, htext, hn⟩ | ⟨-, hn⟩
    · exact absurd hn (hnone text n htext)
    · exact hn.symm
  · obtain ⟨text, htext, hm⟩ := Option.bind_eq_some_iff.mp hcount
    have hm := count?_eq_some_iff.mp hm
    constructor
    · rintro (⟨text', htext', hn⟩ | ⟨hnone, -⟩)
      · rw [htext] at htext'
        rw [← Option.some.inj htext', ← count?_eq_some_iff, count?_eq_some_iff.mpr hm] at hn
        exact Option.some.inj hn
      · exact absurd hm (hnone text m htext)
    · rintro rfl
      exact .inl ⟨text, htext, hm⟩

/-- The options that items choose in an environment: of each kind the last item decides, or else the
default, the environment comes before them, and there is exactly one path. -/
structure Chosen (items : List Item) (e : Environment) (o : Options) : Prop where
  initialCount : InForce e.initialCount ((items.filterMap Item.initial?).getLast?.getD 15)
    o.initialCount
  moreCount : InForce e.moreCount ((items.filterMap Item.more?).getLast?.getD 5) o.moreCount
  bundle : ∃ path, paths items = [path] ∧ o.bundle = some path
  view : o.view = (items.filterMap Item.view?).getLast?.getD .chat
  json : o.json = true ↔ Item.json ∈ items ∨ e.json = true

/-- The options that a scan takes from items. -/
def ofItems (items : List Item) (e : Environment) : Options :=
  (items.foldl take {}).withEnvironment e

/-- The environment has no say in the path. -/
theorem bundle_ofItems (items : List Item) (e : Environment) :
    (ofItems items e).bundle = (paths items).getLast? :=
  (bundle_foldl_take items {}).trans Option.or_none

/-- Items with one path choose the options that the scan takes from them. -/
theorem chosen_iff {items : List Item} {e : Environment} {o : Options} :
    Chosen items e o ↔ (paths items).length = 1 ∧ ofItems items e = o := by
  have hinitial : (ofItems items e).initialCount = (e.initialCount.bind count?).getD
      ((items.filterMap Item.initial?).getLast?.getD 15) :=
    congrArg (Option.getD _) (initialCount_foldl_take items {})
  have hmore : (ofItems items e).moreCount = (e.moreCount.bind count?).getD
      ((items.filterMap Item.more?).getLast?.getD 5) :=
    congrArg (Option.getD _) (moreCount_foldl_take items {})
  have hjson : (ofItems items e).json = true ↔ Item.json ∈ items ∨ e.json = true := by
    show (e.json || (items.foldl take {}).json) = true ↔ _
    rw [Bool.or_eq_true, json_foldl_take, or_comm]
    exact or_congr_left (or_iff_left nofun)
  have hview : (ofItems items e).view = (items.filterMap Item.view?).getLast?.getD .chat :=
    view_foldl_take items {}
  constructor
  · rintro ⟨hi, hm, ⟨path, hpath, hb⟩, hv, hj⟩
    refine ⟨by rw [hpath]; rfl, ?_⟩
    have hbundle : (ofItems items e).bundle = o.bundle := by rw [bundle_ofItems, hpath, hb]; rfl
    have hi := hinitial.trans (inForce_iff.mp hi)
    have hm := hmore.trans (inForce_iff.mp hm)
    have hj := Bool.eq_iff_iff.mpr (hjson.trans hj.symm)
    have hv := hview.trans hv.symm
    generalize ofItems items e = o' at hi hm hbundle hv hj
    rcases o, o' with ⟨⟨⟩, ⟨⟩⟩
    simp only [mk.injEq]
    exact ⟨hi, hm, hbundle, hv, hj⟩
  · rintro ⟨hone, rfl⟩
    obtain ⟨path, hpath⟩ := List.length_eq_one_iff.mp hone
    exact ⟨inForce_iff.mpr hinitial.symm, inForce_iff.mpr hmore.symm,
      ⟨path, hpath, by rw [bundle_ofItems, hpath]; rfl⟩, hview, hjson⟩

theorem Item.Spells.pos {item : Item} {spelling : List String} (h : item.Spells spelling) {n : Nat}
    (hn : item.initial? = some n ∨ item.more? = some n) : 0 < n := by
  cases h with
  | initial h => exact Option.some.inj (hn.resolve_right nofun) ▸ h.pos
  | more h => exact Option.some.inj (hn.resolve_left nofun) ▸ h.pos
  | _ => exact hn.elim nofun nofun

theorem Written.exists_spells {items : List Item} {args : List String} (h : Written items args)
    {item : Item} (hitem : item ∈ items) : ∃ spelling, item.Spells spelling := by
  induction h with
  | nil => exact absurd hitem List.not_mem_nil
  | cons hspells _ ih =>
    rcases List.mem_cons.mp hitem with rfl | hitem
    · exact ⟨_, hspells⟩
    · exact ih hitem

/-- The last of some positive numbers is positive, and so is the default. -/
theorem getLast?_getD_pos {pick : Item → Option Nat} {items : List Item}
    (h : ∀ item ∈ items, ∀ n, pick item = some n → 0 < n) {given : Nat} (hgiven : 0 < given) :
    0 < (items.filterMap pick).getLast?.getD given := by
  rcases hlast : (items.filterMap pick).getLast? with _ | n
  · exact hgiven
  · obtain ⟨item, hitem, hn⟩ := List.mem_filterMap.mp (List.mem_of_getLast? hlast)
    exact h item hitem n hn

/-- The size in force is positive if the one given is. -/
theorem InForce.pos {override : Option String} {given n : Nat} (h : InForce override given n)
    (hgiven : 0 < given) : 0 < n := by
  rcases h with ⟨text, -, hn⟩ | ⟨-, rfl⟩
  · exact hn.pos
  · exact hgiven

/-- Both sizes are positive: only counts are written, and the defaults are positive. -/
theorem Chosen.counts_pos {items : List Item} {e : Environment} {o : Options}
    (h : Chosen items e o) {args : List String} (hw : Written items args) :
    0 < o.initialCount ∧ 0 < o.moreCount := by
  constructor
  · refine h.initialCount.pos (getLast?_getD_pos (fun item hitem n hn ↦ ?_) (by decide))
    obtain ⟨spelling, hspells⟩ := hw.exists_spells hitem
    exact hspells.pos (.inl hn)
  · refine h.moreCount.pos (getLast?_getD_pos (fun item hitem n hn ↦ ?_) (by decide))
    obtain ⟨spelling, hspells⟩ := hw.exists_spells hitem
    exact hspells.pos (.inr hn)

/-- The items are the same, and those of one kind are in the same order. -/
def SameOrder (items others : List Item) : Prop :=
  ∀ kind, items.filter (·.kind = kind) = others.filter (·.kind = kind)

/-- Picking out one kind of item gives the same list for lists in the same order. -/
theorem SameOrder.filterMap_eq {items others : List Item} (h : SameOrder items others) {α : Type}
    {pick : Item → Option α} (kind : Item.Kind)
    (hpick : ∀ item, (pick item).isSome → item.kind = kind) :
    items.filterMap pick = others.filterMap pick := by
  have hfilter : ∀ l : List Item, l.filterMap pick = (l.filter (·.kind = kind)).filterMap pick := by
    intro l
    rw [List.filterMap_filter]
    refine List.filterMap_congr fun item _ ↦ ?_
    by_cases hkind : item.kind = kind
    · simp [hkind]
    · have hnone := Option.not_isSome_iff_eq_none.mp (mt (hpick item) hkind)
      simp [hkind, hnone]
  rw [hfilter items, hfilter others, h kind]

theorem SameOrder.mem_iff {items others : List Item} (h : SameOrder items others) (item : Item) :
    item ∈ items ↔ item ∈ others := by
  have hmem : ∀ l : List Item, item ∈ l ↔ item ∈ l.filter (·.kind = item.kind) := fun l ↦ by
    rw [List.mem_filter, decide_eq_true rfl, and_iff_left rfl]
  rw [hmem items, hmem others, h item.kind]

theorem SameOrder.paths_eq {items others : List Item} (h : SameOrder items others) :
    paths items = paths others :=
  h.filterMap_eq .path fun item ↦ by cases item <;> simp [Item.path?, Item.kind]

/-- What items choose does not depend on the order of items of different kinds. -/
theorem SameOrder.chosen {items others : List Item} (h : SameOrder items others)
    {e : Environment} {o : Options} (hc : Chosen items e o) : Chosen others e o where
  initialCount := by
    rw [← h.filterMap_eq .initial fun item ↦ by cases item <;> simp [Item.initial?, Item.kind]]
    exact hc.initialCount
  moreCount := by
    rw [← h.filterMap_eq .more fun item ↦ by cases item <;> simp [Item.more?, Item.kind]]
    exact hc.moreCount
  bundle := h.paths_eq ▸ hc.bundle
  view := by
    rw [← h.filterMap_eq .view fun item ↦ by cases item <;> simp [Item.view?, Item.kind]]
    exact hc.view
  json := hc.json.trans (or_congr_left (h.mem_iff .json))

/-! ### The reader -/

/-- With at least one argument behind the name of the program, the arguments are scanned, and a path
has to be among them. -/
theorem ofArguments_cons (program arg : String) (args : List String) (e : Environment) :
    ofArguments (program :: arg :: args) e = (absorb {} (arg :: args)).bind fun o ↦
      if o.bundle.isNone then .error .noBundle else .ok (o.withEnvironment e) := by
  show (absorb {} (arg :: args)).bind _ = _
  refine congrArg _ (funext fun o ↦ ?_)
  show (if o.bundle.isNone = true then _ else _) = _
  split <;> rfl

/-- What items give once they are read: their options if they have one path. -/
theorem ofArguments_written {items : List Item} {args : List String} (h : Written items args)
    (hne : args ≠ []) (program : String) (e : Environment) :
    ofArguments (program :: args) e = unlessSecond
      (if paths items = [] then .error .noBundle else .ok (ofItems items e)) (paths items) := by
  obtain ⟨arg, rest, rfl⟩ := List.exists_cons_of_ne_nil hne
  have habsorb := absorb_written h {} []
  have hbundle := bundle_foldl_take items {}
  rw [List.append_nil] at habsorb
  rw [ofArguments_cons, habsorb]
  show (unlessSecond (.ok (items.foldl take {})) (paths items)).bind _ = _
  rcases hpaths : paths items with _ | ⟨p, _ | ⟨q, ps⟩⟩
  · rw [hpaths] at hbundle
    show (if (items.foldl take {}).bundle.isNone = true then _ else _) = _
    rw [hbundle]
    rfl
  · rw [hpaths] at hbundle
    show (if (items.foldl take {}).bundle.isNone = true then _ else _) = _
    rw [hbundle]
    rfl
  · rfl

/-- What offends behind items with at most one path is what the reader reports. -/
theorem ofArguments_offends {items : List Item} {before after : List String} {p : Problem}
    (h : Written items before) (hone : (paths items).length ≤ 1) (hoffends : Offends items after p)
    (program : String) (e : Environment) :
    ofArguments (program :: (before ++ after)) e = .error p := by
  have hne : before ++ after ≠ [] :=
    List.append_ne_nil_of_right_ne_nil _ (by cases hoffends <;> nofun)
  have habsorb : absorb {} (before ++ after) = .error p := by
    refine (absorb_written h {} after).trans ((unlessSecond_of_le hone _).trans ?_)
    refine absorb_offends hoffends fun hpaths ↦ ?_
    rw [bundle_foldl_take]
    rw [List.getLast?_eq_some_getLast hpaths]
    nofun
  obtain ⟨arg, rest, hargs⟩ := List.exists_cons_of_ne_nil hne
  rw [hargs] at habsorb ⊢
  rw [ofArguments_cons, habsorb]
  rfl

theorem Written.eq_nil {items : List Item} (h : Written items []) : items = [] := by
  generalize hargs : ([] : List String) = args at h
  cases h with
  | nil => rfl
  | cons hspells _ =>
    have := hspells.length_pos
    rw [(List.append_eq_nil_iff.mp hargs.symm).1] at this
    exact absurd this (Nat.lt_irrefl 0)

/-- Items of different kinds can be reordered. -/
theorem ofArguments_sameOrder {items others : List Item} {args args' : List String}
    (h : Written items args) (h' : Written others args') (hsame : SameOrder items others)
    (program : String) (e : Environment) :
    ofArguments (program :: args) e = ofArguments (program :: args') e := by
  rcases eq_or_ne args [] with rfl | hargs
  · have hothers : others = [] := List.eq_nil_iff_forall_not_mem.mpr fun item hitem ↦ by
      have := (hsame.mem_iff item).mpr hitem
      rw [h.eq_nil] at this
      exact List.not_mem_nil this
    subst hothers
    cases h'
    rfl
  · have hargs' : args' ≠ [] := by
      rintro rfl
      have hitems : items = [] := List.eq_nil_iff_forall_not_mem.mpr fun item hitem ↦ by
        have := (hsame.mem_iff item).mp hitem
        rw [h'.eq_nil] at this
        exact List.not_mem_nil this
      subst hitems
      cases h
      exact hargs rfl
    rw [ofArguments_written h hargs, ofArguments_written h' hargs', hsame.paths_eq]
    rcases hpaths : paths others with _ | ⟨p, _ | ⟨q, ps⟩⟩
    · rfl
    · have hone : (paths items).length = 1 := by rw [hsame.paths_eq, hpaths]; rfl
      have hchosen := hsame.chosen (chosen_iff.mpr ⟨hone, rfl⟩ : Chosen items e _)
      exact congrArg Except.ok (chosen_iff.mp hchosen).2.symm
    · rfl

/-- Behind the name of the program, arguments give options if they are written as items with one
path, and otherwise the problem of the leftmost offending argument, or that there is no path. -/
theorem ofArguments_cases (program arg : String) (args : List String) (e : Environment) :
    (∃ items, Written items (arg :: args) ∧ (paths items).length = 1 ∧
        ofArguments (program :: arg :: args) e = .ok (ofItems items e)) ∨
      (∃ items, Written items (arg :: args) ∧ paths items = [] ∧
        ofArguments (program :: arg :: args) e = .error .noBundle) ∨
      ∃ items before after p, arg :: args = before ++ after ∧ Written items before ∧
        (paths items).length ≤ 1 ∧ Offends items after p ∧
        ofArguments (program :: arg :: args) e = .error p := by
  rcases written_or_offends (arg :: args) [] (Nat.zero_le 1) with
    ⟨items, hitems, hone⟩ | ⟨items, before, after, p, hargs, hbefore, hone, hoffends⟩
  · have hone : (paths items).length ≤ 1 := hone
    have hresult := ofArguments_written hitems (List.cons_ne_nil _ _) program e
    rw [unlessSecond_of_le hone] at hresult
    by_cases hnone : paths items = []
    · rw [if_pos hnone] at hresult
      exact .inr (.inl ⟨items, hitems, hnone, hresult⟩)
    · rw [if_neg hnone] at hresult
      exact .inl ⟨items, hitems, le_antisymm hone (List.length_pos_iff.mpr hnone), hresult⟩
  · exact .inr (.inr ⟨items, before, after, p, hargs, hbefore, hone, hoffends,
      hargs ▸ ofArguments_offends hbefore hone hoffends program e⟩)

/-- Options are read from the arguments that are written as items with one path, and they are what
the items choose. -/
theorem ofArguments_eq_ok_iff {args : List String} {e : Environment} {o : Options} :
    ofArguments args e = .ok o ↔
      2 ≤ args.length ∧ ∃ items, Written items args.tail ∧ Chosen items e o := by
  match args with
  | [] => exact ⟨nofun, fun h ↦ absurd h.1 (by decide)⟩
  | [_] => exact ⟨nofun, fun h ↦ absurd h.1 (Nat.lt_irrefl 1)⟩
  | program :: arg :: args =>
    constructor
    · intro h
      refine ⟨Nat.le_add_left 2 args.length, ?_⟩
      rcases ofArguments_cases program arg args e with
        ⟨items, hitems, hone, hresult⟩ | ⟨_, -, -, hresult⟩ | ⟨_, _, _, _, -, -, -, -, hresult⟩
      · exact ⟨items, hitems, chosen_iff.mpr ⟨hone, Except.ok.inj (hresult.symm.trans h)⟩⟩
      · exact nomatch hresult.symm.trans h
      · exact nomatch hresult.symm.trans h
    · rintro ⟨-, items, hitems, hchosen⟩
      obtain ⟨hone, rfl⟩ := chosen_iff.mp hchosen
      have hitems : Written items (arg :: args) := hitems
      rw [ofArguments_written hitems (List.cons_ne_nil _ _), unlessSecond_of_le hone.le, if_neg]
      exact List.ne_nil_of_length_pos (hone ▸ Nat.one_pos)

/-- Problems with two arguments and more are those of the leftmost argument that offends, or that no
path is among the items. -/
theorem ofArguments_eq_error_iff {args : List String} {e : Environment} {p : Problem}
    (hargs : 2 ≤ args.length) :
    ofArguments args e = .error p ↔
      (∃ items before after, args.tail = before ++ after ∧ Written items before ∧
        (paths items).length ≤ 1 ∧ Offends items after p) ∨
      p = .noBundle ∧ ∃ items, Written items args.tail ∧ paths items = [] := by
  match args, hargs with
  | program :: arg :: args, _ =>
    constructor
    · intro h
      rcases ofArguments_cases program arg args e with
        ⟨_, -, -, hresult⟩ | ⟨items, hitems, hnone, hresult⟩ |
        ⟨items, before, after, q, hargs, hbefore, hone, hoffends, hresult⟩
      · exact nomatch hresult.symm.trans h
      · exact .inr ⟨Except.error.inj (h.symm.trans hresult), items, hitems, hnone⟩
      · obtain rfl := Except.error.inj (hresult.symm.trans h)
        exact .inl ⟨items, before, after, hargs, hbefore, hone, hoffends⟩
    · rintro (⟨items, before, after, hargs, hbefore, hone, hoffends⟩ | ⟨rfl, items, hitems, hnone⟩)
      · have hargs : arg :: args = before ++ after := hargs
        rw [hargs]
        exact ofArguments_offends hbefore hone hoffends program e
      · have hitems : Written items (arg :: args) := hitems
        rw [ofArguments_written hitems (List.cons_ne_nil _ _), hnone]
        rfl

/-- **The grammar of the arguments.** Options are read exactly from two arguments and more that are
written, behind the name of the program, as items with one path; they are what the items choose, and
their sizes are positive. Items can be reordered as long as those of one kind keep their order. When
two arguments and more give no options, the problem is that of the leftmost argument that offends,
and that there is no path only where no argument offends. -/
theorem ofArguments_grammar :
    (∀ args e, (∃ o, ofArguments args e = .ok o) ↔
      2 ≤ args.length ∧ ∃ items, Written items args.tail ∧ (paths items).length = 1) ∧
    (∀ args e o, ofArguments args e = .ok o ↔
      2 ≤ args.length ∧ ∃ items, Written items args.tail ∧ Chosen items e o) ∧
    (∀ args e o, ofArguments args e = .ok o → 0 < o.initialCount ∧ 0 < o.moreCount) ∧
    (∀ program items others args args' e, Written items args → Written others args' →
      SameOrder items others →
        ofArguments (program :: args) e = ofArguments (program :: args') e) ∧
    ∀ args e p, 2 ≤ args.length →
      (ofArguments args e = .error p ↔
        (∃ items before after, args.tail = before ++ after ∧ Written items before ∧
          (paths items).length ≤ 1 ∧ Offends items after p) ∨
        p = .noBundle ∧ ∃ items, Written items args.tail ∧ paths items = []) := by
  refine ⟨fun args e ↦ ⟨?_, ?_⟩, fun args e o ↦ ofArguments_eq_ok_iff, fun args e o h ↦ ?_,
    fun program items others args args' e h h' hsame ↦ ofArguments_sameOrder h h' hsame program e,
    fun args e p hargs ↦ ofArguments_eq_error_iff hargs⟩
  · rintro ⟨o, ho⟩
    obtain ⟨hargs, items, hitems, hchosen⟩ := ofArguments_eq_ok_iff.mp ho
    exact ⟨hargs, items, hitems, (chosen_iff.mp hchosen).1⟩
  · rintro ⟨hargs, items, hitems, hone⟩
    exact ⟨ofItems items e, ofArguments_eq_ok_iff.mpr
      ⟨hargs, items, hitems, chosen_iff.mpr ⟨hone, rfl⟩⟩⟩
  · obtain ⟨-, items, hitems, hchosen⟩ := ofArguments_eq_ok_iff.mp h
    exact hchosen.counts_pos hitems

/-- The last of two equal flags decides, wherever the path stands, and what looks like a flag is a
value where a value is read. -/
theorem ofArguments_grammar_repeatedFlag :
    ofArguments ["accord", "--more", "2", "dump.json", "--more", "+07"] {} =
        .ok { moreCount := 7, bundle := some "dump.json" } ∧
      ofArguments ["accord", "--more", "2", "dump.json", "--more", "+07"] {} =
        ofArguments ["accord", "--more", "2", "--more", "+07", "dump.json"] {} ∧
      ofArguments ["accord", "dump.json", "--view", "--json"] {} =
        .error (.unknownView "--json") := by
  obtain ⟨-, hok, -, hsame, herror⟩ := ofArguments_grammar
  have htwo : IsCount "2" 2 := ⟨by decide, by decide, 1, .inl rfl⟩
  have hseven : IsCount "+07" 7 := ⟨by decide, by decide, 2, .inr rfl⟩
  have hpath : Item.Spells (.path "dump.json") ["dump.json"] := .path (by decide)
  have hwritten : Written [.more 2, .path "dump.json", .more 7]
      ["--more", "2", "dump.json", "--more", "+07"] :=
    .cons (.more htwo) (.cons hpath (.cons (.more hseven) .nil))
  have hmoved : Written [.more 2, .more 7, .path "dump.json"]
      ["--more", "2", "--more", "+07", "dump.json"] :=
    .cons (.more htwo) (.cons (.more hseven) (.cons hpath .nil))
  refine ⟨(hok _ _ _).mpr ⟨by decide, _, hwritten, ?_⟩,
    hsame _ _ _ _ _ _ hwritten hmoved fun kind ↦ by cases kind <;> decide, ?_⟩
  · exact ⟨.inr ⟨nofun, rfl⟩, .inr ⟨nofun, rfl⟩, ⟨_, rfl, rfl⟩, rfl, by decide⟩
  · exact (herror _ _ _ (by decide)).mpr (.inl ⟨[.path "dump.json"], ["dump.json"],
      ["--view", "--json"], rfl, .cons hpath .nil, by decide,
      .unknownView fun v ↦ by cases v <;> decide⟩)

end Options

end Parley
