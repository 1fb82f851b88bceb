import Parley.Proofs.Counts

/-!
# The grammar of the arguments

`Options.absorb` scans its arguments once, from left to right. Here the arguments have a grammar
that does not scan: they are **written** as a list of items (`Options.Written`), each a flag with
its value or a path (`Options.Item.Spells`), where a value is whatever follows its flag.

The scan is followed by two lemmas. It takes in the items that are written, one after the other
(`absorb_written`), and it stops where an argument **offends** (`absorb_offends`), that is, where no
further item can be written. Every list of arguments is of one of the two forms
(`written_or_offends`), so nothing else has to be said about the scan.
-/

namespace Parley

namespace View

/-- The table has each view under its own name. -/
theorem ofName?_eq_some_iff {name : String} {v : View} : ofName? name = some v ↔ name = v.name := by
  constructor
  · intro h
    have hmem : (name, v) ∈ table := KeyedList.mem_of_find?_eq_some h
    have htable : ∀ p ∈ table, p.1 = p.2.name := by decide
    exact htable (name, v) hmem
  · rintro rfl
    exact ofName?_name v

end View

namespace Options

/-! ### Items -/

/-- What arguments ask for, one request at a time. -/
inductive Item where
  | view (v : View)
  | json
  | initial (n : Nat)
  | more (n : Nat)
  | path (p : String)
  deriving DecidableEq, Repr

/-- The kinds of items. -/
inductive Item.Kind where
  | view
  | json
  | initial
  | more
  | path
  deriving DecidableEq, Repr

namespace Item

/-- The kind of an item. -/
def kind : Item → Kind
  | view _ => .view
  | json => .json
  | initial _ => .initial
  | more _ => .more
  | path _ => .path

/-- The view that an item asks for. -/
def view? : Item → Option View
  | view v => some v
  | _ => none

/-- The first number of messages that an item asks for. -/
def initial? : Item → Option Nat
  | initial n => some n
  | _ => none

/-- The number of older messages that an item asks for. -/
def more? : Item → Option Nat
  | more n => some n
  | _ => none

/-- The path that an item gives. -/
def path? : Item → Option String
  | path p => some p
  | _ => none

/-- How an item is spelled. The value of a flag is the argument behind it, however that begins. -/
inductive Spells : Item → List String → Prop
  | view (v : View) : Spells (view v) ["--view", v.name]
  | json : Spells json ["--json"]
  | initial {text : String} {n : Nat} (h : IsCount text n) : Spells (initial n) ["--initial", text]
  | more {text : String} {n : Nat} (h : IsCount text n) : Spells (more n) ["--more", text]
  | path {p : String} (h : ¬['-', '-'] <+: p.toList) : Spells (path p) [p]

end Item

/-- The arguments spell the items, one after the other. -/
inductive Written : List Item → List String → Prop
  | nil : Written [] []
  | cons {item : Item} {items : List Item} {spelling args : List String} (h : item.Spells spelling)
      (hrest : Written items args) : Written (item :: items) (spelling ++ args)

/-- The paths among the items. -/
def paths (items : List Item) : List String := items.filterMap Item.path?

/-- The flags there are. -/
def flags : List String := ["--view", "--json", "--initial", "--more"]

/-- The arguments begin with one that does not fit behind the items read so far, and this is the
problem with it. -/
inductive Offends (items : List Item) : List String → Problem → Prop
  | missingView : Offends items ["--view"] .missingView
  | unknownView {name : String} {args : List String} (h : ∀ v : View, name ≠ v.name) :
      Offends items ("--view" :: name :: args) (.unknownView name)
  | missingNumber {flag : String} (hflag : flag ∈ ["--initial", "--more"]) :
      Offends items [flag] (.missingNumber flag)
  | badNumber {flag text : String} {args : List String} (hflag : flag ∈ ["--initial", "--more"])
      (h : ∀ n, ¬IsCount text n) : Offends items (flag :: text :: args) (.badNumber flag)
  | unknownFlag {arg : String} {args : List String} (hflag : ['-', '-'] <+: arg.toList)
      (hname : arg ∉ flags) : Offends items (arg :: args) (.unknownFlag arg)
  | secondBundle {path : String} {args : List String} (hflag : ¬['-', '-'] <+: path.toList)
      (h : paths items ≠ []) : Offends items (path :: args) (.secondBundle path)

/-! ### The scan -/

/-- The options with what an item asks for. -/
def take (o : Options) : Item → Options
  | .view v => { o with view := v }
  | .json => { o with json := true }
  | .initial n => { o with initialCount := n }
  | .more n => { o with moreCount := n }
  | .path p => { o with bundle := some p }

theorem isFlag_iff {arg : String} : isFlag arg = true ↔ ['-', '-'] <+: arg.toList :=
  List.isPrefixOf_iff_prefix

/-- What is no flag may be a path. -/
theorem not_isFlag_iff {arg : String} : isFlag arg = false ↔ ¬['-', '-'] <+: arg.toList := by
  rw [← isFlag_iff, Bool.not_eq_true]

theorem viewOf_name (v : View) : viewOf v.name = .ok v := by
  rw [viewOf, View.ofName?_name]

/-- A name that is none of the views is reported with the problem. -/
theorem viewOf_of_unknown {name : String} (h : ∀ v : View, name ≠ v.name) :
    viewOf name = .error (.unknownView name) := by
  have hnone : View.ofName? name = none :=
    Option.eq_none_iff_forall_ne_some.mpr fun v hv ↦ h v (View.ofName?_eq_some_iff.mp hv)
  rw [viewOf, hnone]

/-- The value of a number flag is the number that its text spells. -/
theorem countOf_of_isCount {flag text : String} {n : Nat} (h : IsCount text n) :
    countOf flag text = .ok n := by
  rw [countOf, count?_eq_some_iff.mpr h]

/-- A text that spells no count is reported under the flag before it, without the text. -/
theorem countOf_of_not_isCount {flag text : String} (h : ∀ n, ¬IsCount text n) :
    countOf flag text = .error (.badNumber flag) := by
  have hnone : count? text = none :=
    Option.eq_none_iff_forall_ne_some.mpr fun n hn ↦ h n (count?_eq_some_iff.mp hn)
  rw [countOf, hnone]

/-- A path is none of the flags: it does not begin with two dashes, and they do. -/
theorem not_mem_flags {path : String} (h : ¬['-', '-'] <+: path.toList) : path ∉ flags := by
  have hflags : ∀ flag ∈ flags, ['-', '-'] <+: flag.toList := by decide
  exact fun hmem ↦ h (hflags path hmem)

/-- Nothing else is read as one of the flags. -/
theorem absorb_of_not_mem (o : Options) {arg : String} (args : List String) (h : arg ∉ flags) :
    absorb o (arg :: args) =
      if isFlag arg then .error (.unknownFlag arg) else (addBundle o arg).bind (absorb · args) := by
  simp only [flags, List.mem_cons, List.not_mem_nil, or_false, not_or] at h
  obtain ⟨hview, hjson, hinitial, hmore⟩ := h
  rw [absorb.eq_def]
  show (if arg = "--view" then _ else if arg = "--json" then _ else if arg = "--initial" then _
    else if arg = "--more" then _ else if isFlag arg = true then _ else _) = _
  rw [if_neg hview, if_neg hjson, if_neg hinitial, if_neg hmore]
  rfl

/-- An argument that does not begin with two dashes is taken as the path. -/
theorem absorb_path (o : Options) {path : String} (args : List String)
    (h : ¬['-', '-'] <+: path.toList) :
    absorb o (path :: args) = (addBundle o path).bind (absorb · args) := by
  rw [absorb_of_not_mem o args (not_mem_flags h), not_isFlag_iff.mpr h]
  rfl

theorem absorb_json (o : Options) (args : List String) :
    absorb o ("--json" :: args) = absorb { o with json := true } args := by
  rw [absorb.eq_def]
  show (if "--json" = "--view" then _ else if "--json" = "--json" then _ else _) = _
  rw [if_neg (by decide), if_pos rfl]

/-- The scan takes in an item that is spelled out, a path only if there is none yet. -/
theorem absorb_spells {o : Options} {item : Item} {spelling : List String}
    (h : item.Spells spelling) (hpath : item.path?.isSome → o.bundle = none) (args : List String) :
    absorb o (spelling ++ args) = absorb (o.take item) args := by
  cases h with
  | view v =>
    show (viewOf v.name).bind (fun v ↦ absorb { o with view := v } args) = _
    rw [viewOf_name]
    rfl
  | json => exact absorb_json o args
  | initial h =>
    show (countOf "--initial" _).bind (fun n ↦ absorb { o with initialCount := n } args) = _
    rw [countOf_of_isCount h]
    rfl
  | more h =>
    show (countOf "--more" _).bind (fun n ↦ absorb { o with moreCount := n } args) = _
    rw [countOf_of_isCount h]
    rfl
  | path h =>
    refine (absorb_path o args h).trans ?_
    rw [addBundle, hpath rfl]
    rfl

theorem paths_cons (item : Item) (items : List Item) :
    paths (item :: items) = item.path?.toList ++ paths items := by
  rw [paths, List.filterMap_cons]
  cases item.path? <;> rfl

/-- An item that is no path leaves the path alone. -/
theorem bundle_take {o : Options} {item : Item} (h : item.path?.isSome → o.bundle = none) :
    (o.take item).bundle.toList = o.bundle.toList ++ item.path?.toList := by
  cases item with
  | path p =>
    rw [h rfl]
    rfl
  | _ => exact (List.append_nil _).symm

/-- What comes next, unless there is a second path. -/
def unlessSecond (next : Except Problem Options) : List String → Except Problem Options
  | _ :: p :: _ => .error (.secondBundle p)
  | _ => next

/-- One path, or none, is no problem. -/
theorem unlessSecond_of_le {ps : List String} (h : ps.length ≤ 1)
    (next : Except Problem Options) : unlessSecond next ps = next := by
  match ps, h with
  | [], _ => rfl
  | [_], _ => rfl

/-- The scan takes in what is written up to a second path, where it stops. -/
theorem absorb_written {items : List Item} {before : List String} (h : Written items before) :
    ∀ (o : Options) (after : List String), absorb o (before ++ after) =
      unlessSecond (absorb (items.foldl take o) after) (o.bundle.toList ++ paths items) := by
  induction h with
  | nil =>
    intro o after
    show _ = unlessSecond (absorb o after) (o.bundle.toList ++ [])
    cases o.bundle <;> rfl
  | @cons item items spelling args hitem hrest ih =>
    intro o after
    rw [List.append_assoc, paths_cons]
    by_cases hpath : item.path?.isSome → o.bundle = none
    · rw [absorb_spells hitem hpath, ih, bundle_take hpath, List.append_assoc]
      rfl
    · obtain ⟨hsome, hbundle⟩ := Classical.not_imp.mp hpath
      obtain ⟨b, hb⟩ := Option.ne_none_iff_exists'.mp hbundle
      cases hitem with
      | @path p hflag =>
        rw [hb]
        refine (absorb_path o _ hflag).trans ?_
        rw [addBundle, hb]
        rfl
      | _ => exact nomatch hsome

/-- The scan stops where an argument offends. -/
theorem absorb_offends {items : List Item} {args : List String} {p : Problem}
    (h : Offends items args p) {o : Options} (hbundle : paths items ≠ [] → o.bundle ≠ none) :
    absorb o args = .error p := by
  cases h with
  | missingView => rfl
  | @unknownView name args h =>
    show (viewOf name).bind (fun v ↦ absorb { o with view := v } args) = _
    rw [viewOf_of_unknown h]
    rfl
  | missingNumber hflag =>
    rcases List.mem_pair.mp hflag with rfl | rfl <;> rfl
  | @badNumber flag text args hflag h =>
    rcases List.mem_pair.mp hflag with rfl | rfl
    · show (countOf "--initial" text).bind (fun n ↦ absorb { o with initialCount := n } args) = _
      rw [countOf_of_not_isCount h]
      rfl
    · show (countOf "--more" text).bind (fun n ↦ absorb { o with moreCount := n } args) = _
      rw [countOf_of_not_isCount h]
      rfl
  | unknownFlag hflag hname => rw [absorb_of_not_mem o _ hname, if_pos (isFlag_iff.mpr hflag)]
  | secondBundle hflag h =>
    obtain ⟨b, hb⟩ := Option.ne_none_iff_exists'.mp (hbundle h)
    refine (absorb_path o _ hflag).trans ?_
    rw [addBundle, hb]
    rfl

/-- A flag for a number is followed by a count or offends. -/
theorem exists_isCount_or_offends (items : List Item) {flag : String}
    (hflag : flag ∈ ["--initial", "--more"]) (args : List String) :
    (∃ text n rest, args = text :: rest ∧ IsCount text n) ∨
      ∃ p, Offends items (flag :: args) p := by
  rcases args with _ | ⟨text, rest⟩
  · exact .inr ⟨_, .missingNumber hflag⟩
  · by_cases hcount : ∃ n, IsCount text n
    · obtain ⟨n, hn⟩ := hcount
      exact .inl ⟨text, n, rest, rfl, hn⟩
    · exact .inr ⟨_, .badNumber hflag (not_exists.mp hcount)⟩

/-- Behind items that are read, an argument begins a further item or offends. -/
theorem spells_or_offends (items : List Item) (arg : String) (args : List String) :
    (∃ item spelling rest, arg :: args = spelling ++ rest ∧ Item.Spells item spelling ∧
        (item.path?.isSome → paths items = [])) ∨
      ∃ p, Offends items (arg :: args) p := by
  by_cases hflag : ['-', '-'] <+: arg.toList
  · by_cases hname : arg ∈ flags
    · simp only [flags, List.mem_cons, List.not_mem_nil, or_false] at hname
      rcases hname with rfl | rfl | rfl | rfl
      · rcases args with _ | ⟨name, rest⟩
        · exact .inr ⟨_, .missingView⟩
        · by_cases hview : ∃ v : View, name = v.name
          · obtain ⟨v, rfl⟩ := hview
            exact .inl ⟨.view v, _, rest, rfl, .view v, nofun⟩
          · exact .inr ⟨_, .unknownView (not_exists.mp hview)⟩
      · exact .inl ⟨.json, _, args, rfl, .json, nofun⟩
      · refine (exists_isCount_or_offends items (by decide) args).imp_left ?_
        rintro ⟨text, n, rest, rfl, hn⟩
        exact ⟨.initial n, _, rest, rfl, .initial hn, nofun⟩
      · refine (exists_isCount_or_offends items (by decide) args).imp_left ?_
        rintro ⟨text, n, rest, rfl, hn⟩
        exact ⟨.more n, _, rest, rfl, .more hn, nofun⟩
    · exact .inr ⟨_, .unknownFlag hflag hname⟩
  · by_cases hpaths : paths items = []
    · exact .inl ⟨.path arg, [arg], args, rfl, .path hflag, fun _ ↦ hpaths⟩
    · exact .inr ⟨_, .secondBundle hflag hpaths⟩

theorem paths_append (items others : List Item) :
    paths (items ++ others) = paths items ++ paths others := List.filterMap_append

/-- An item is spelled with at least one argument, so that reading items comes to an end. -/
theorem Item.Spells.length_pos {item : Item} {spelling : List String} (h : item.Spells spelling) :
    0 < spelling.length := by
  cases h <;> exact Nat.succ_pos _

/-- A further item leaves at most one path, if it is a path only where there was none. -/
theorem length_paths_concat {items : List Item} (hitems : (paths items).length ≤ 1) {item : Item}
    (h : item.path?.isSome → paths items = []) : (paths (items ++ [item])).length ≤ 1 := by
  rw [paths_append, paths_cons, List.length_append]
  cases item with
  | path p =>
    rw [h rfl]
    exact le_rfl
  | _ => exact hitems

/-- Arguments are written as items, or they are up to one that offends. -/
theorem written_or_offends : ∀ (args : List String) (items : List Item), (paths items).length ≤ 1 →
    (∃ others, Written others args ∧ (paths (items ++ others)).length ≤ 1) ∨
      ∃ others before after p, args = before ++ after ∧ Written others before ∧
        (paths (items ++ others)).length ≤ 1 ∧ Offends (items ++ others) after p
  | [], items, hitems => .inl ⟨[], .nil, by rwa [List.append_nil]⟩
  | arg :: args, items, hitems => by
    rcases spells_or_offends items arg args with
      ⟨item, spelling, rest, hargs, hitem, hpath⟩ | ⟨p, hp⟩
    · have hshorter : rest.length ≤ args.length := by
        have hlength := congrArg List.length hargs
        rw [List.length_cons, List.length_append] at hlength
        have := hitem.length_pos
        omega
      rcases written_or_offends rest (items ++ [item]) (length_paths_concat hitems hpath) with
        ⟨others, hothers, hone⟩ | ⟨others, before, after, p, rfl, hbefore, hone, hoffends⟩
      · rw [← List.append_cons] at hone
        exact .inl ⟨item :: others, hargs ▸ .cons hitem hothers, hone⟩
      · rw [← List.append_cons] at hone hoffends
        exact .inr ⟨item :: others, spelling ++ before, after, p,
          by rw [hargs, List.append_assoc], .cons hitem hbefore, hone, hoffends⟩
    · exact .inr ⟨[], [], arg :: args, p, rfl, .nil, by rwa [List.append_nil],
        by rwa [List.append_nil]⟩
termination_by args => args.length

end Options

end Parley
