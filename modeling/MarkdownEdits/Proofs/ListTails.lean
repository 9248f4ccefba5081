import MarkdownEdits.Proofs.BlockRanges
import MarkdownEdits.Proofs.ItemMarkings

/-!
# Tails of lists

An outermost list records a tail when it closes: the span of the last item that has one. The search
for it does not stop at the items of the list. So a list without such an item records the tail
of the list before once more.

Every tail is the span of an item that is closed, and stays so. Hence, outside of all lists, the
last tail is the span of the last item that has one.
-/
namespace MarkdownEdits

/-- The last one of the spans that the items have. -/
def ListItem.lastSpan? (items : List ListItem) : Option Span := items.reverse.findSome? span?

namespace Bounds

/-- The span between the bounds, if there is an end after the start. -/
def span? (bounds : Bounds) : Option Span :=
  match bounds.stop with
  | some stop => if bounds.start < stop then some ⟨bounds.start, stop⟩ else none
  | none => none

def lastSpan? (bounds : List Bounds) : Option Span := bounds.reverse.findSome? span?

theorem lastSpan?_append (xs ys : List Bounds) :
    lastSpan? (xs ++ ys) = (lastSpan? ys).or (lastSpan? xs) := by
  rw [lastSpan?, List.reverse_append, List.findSome?_append]
  rfl

theorem lastSpan?_eq_none {bounds : List Bounds} :
    lastSpan? bounds = none ↔ ∀ a ∈ bounds, a.span? = none := by
  simp [lastSpan?]

end Bounds

theorem ListItem.lastSpan?_eq (items : List ListItem) :
    lastSpan? items = Bounds.lastSpan? (items.map bounds) := by
  rw [Bounds.lastSpan?, ← List.map_reverse, List.findSome?_map]
  rfl

/-- The token closes a list that stands in no other one. -/
def Token.ClosesOutermost (before : List Token) (t : Token) : Prop :=
  (∃ kind, t = .closeList kind) ∧ (openLists [] (atomsOf before)).length = 1

namespace Draft

variable {d e next final : Draft} {t : Token} {before after body tokens : List Token}

/-! ## One token -/

theorem listTails_closeList {list : OpenList} (h : d.lists = [list]) :
    d.closeList.records.listTails.toList =
      d.records.listTails.toList ++ (Bounds.lastSpan? d.bounds).toList := by
  have hsearch :
      d.records.items.toList.reverse.findSome? ListItem.span? = Bounds.lastSpan? d.bounds :=
    ListItem.lastSpan?_eq _
  rw [closeList, h]
  simp only [List.isEmpty_nil, ↓reduceIte, recordListTail, hsearch]
  cases Bounds.lastSpan? d.bounds with
  | none => simp
  | some span => simp [record]

/-- Other tokens record no tail. -/
theorem listTails_step (ht : t.IsAtom) (hs : d.step t = .ok next)
    (hinside : ∀ kind, t = .closeList kind → d.lists.length ≠ 1) :
    next.records.listTails = d.records.listTails := by
  refine (stepsRecords ht hs).listTails.resolve_right ?_
  rintro ⟨⟨⟨kind, rfl⟩, hnil⟩, item, -, span, -, hpush⟩
  have htail : d.lists.tail = [] := (lists_step ht hs).symm.trans hnil
  cases hs
  cases hlists : d.lists with
  | nil =>
    rw [closeList, hlists] at hpush
    exact absurd (congrArg Array.size hpush) (by simp [warn])
  | cons list outer =>
    rw [hlists, List.tail_cons] at htail
    exact hinside kind rfl (by simp [hlists, htail])

/-- While a list is open around them, well-nested tokens record no tail. -/
theorem listTails_of_wellNested {siblings : Token.Siblings}
    (h : Token.WellNested siblings tokens) (hlists : d.lists ≠ [])
    (hs : d.steps tokens = .ok e) : e.records.listTails = d.records.listTails := by
  rw [← steps_atomsOf] at hs
  refine invariant_parts (P := fun _ e => e.records.listTails = d.records.listTails) ?_ rfl
    (List.append_nil _).symm hs
  intro init t after inner next hsplit hinner hsame hstep
  have ht := Token.isAtom_of_mem_atomsOf tokens t (by simp [hsplit])
  rw [← hsame]
  refine listTails_step ht hstep ?_
  rintro kind rfl hone
  -- The close would leave no list open.
  have hnil : next.lists = [] := by
    rw [lists_step ht hstep]
    exact List.eq_nil_of_length_eq_zero (by simp [hone])
  rw [← List.concat_append, List.concat_eq_append] at hsplit
  have hkinds := kinds_steps (Token.isAtom_of_split hsplit)
    (steps_append_eq_ok.mpr ⟨inner, hinner, (steps_singleton _ _).trans hstep⟩)
  have hsuffix := (h.closes.inside _ _ hsplit (d.lists.map OpenList.kind) 0).1
  rw [← hkinds, hnil, List.map_nil, List.suffix_nil, List.map_eq_nil_iff] at hsuffix
  exact hlists hsuffix

/-! ## Tails and items -/

/-- Every tail is the span of a closed item. -/
def TailsOfItems (d : Draft) : Prop :=
  ∀ span ∈ d.records.listTails.toList, ∃ (i : Nat) (a : Bounds),
    d.bounds[i]? = some a ∧ (i : Int) ∉ d.openItems ∧ a.span? = some span

theorem TailsOfItems.eq_nil (h : d.TailsOfItems) (hnone : Bounds.lastSpan? d.bounds = none) :
    d.records.listTails.toList = [] := by
  refine List.eq_nil_iff_forall_not_mem.mpr fun span hspan => ?_
  obtain ⟨i, a, hi, -, ha⟩ := h span hspan
  rw [Bounds.lastSpan?_eq_none.mp hnone a (List.mem_of_getElem? hi)] at ha
  cases ha

section Start

variable {first : Int} {tab : Option String} {headingAsTitle : Bool}

/-- A token behind which no list is open stands outside of all lists or closes an outermost one, and
no item is open in front of it. -/
theorem closed_of_step (h : Token.WellNested .blocks tokens)
    (hsplit : Token.atomsOf tokens = before ++ t :: after) (ht : t.IsAtom)
    (hd : (Draft.start first tab headingAsTitle).steps before = .ok d)
    (hs : d.step t = .ok next) (hnil : next.lists = []) :
    d.openItems = [] ∧ (d.lists = [] ∨ ∃ kind list, t = .closeList kind ∧ d.lists = [list]) := by
  have hconcat : Token.atomsOf tokens = (before ++ [t]) ++ after := by
    rw [hsplit, List.append_cons]
  have hnext := openItems_of_atoms h hconcat
    (steps_append_eq_ok.mpr ⟨d, hd, (steps_singleton d t).trans hs⟩) hnil
  have hlists := lists_step ht hs
  rw [hnil] at hlists
  cases hopen : d.lists with
  | nil => exact ⟨openItems_of_atoms h hsplit hd hopen, .inl rfl⟩
  | cons list outer =>
    rw [hopen] at hlists
    cases t with
    | closeList kind =>
      cases hs
      rw [d.keepsContent_closeList.openItems] at hnext
      exact ⟨hnext, .inr ⟨kind, list, rfl, congrArg (list :: ·) hlists.symm⟩⟩
    | _ => cases hlists

theorem tailsOfItems_of_atoms (h : Token.WellNested .blocks tokens)
    (hsplit : Token.atomsOf tokens = before ++ after)
    (hd : (Draft.start first tab headingAsTitle).steps before = .ok d) : d.TailsOfItems := by
  refine invariant_parts (P := fun _ d => d.TailsOfItems) ?_ ?_ hsplit hd
  · intro init t after e next hsplit he hold hs
    have ht := Token.isAtom_of_mem_atomsOf tokens t (by simp [hsplit])
    obtain ⟨document, middle, -, hgrows⟩ := growsTo_of_steps he ((steps_singleton e t).trans hs)
    have hstays {i : Nat} {a : Bounds} (hi : e.bounds[i]? = some a)
        (hclosed : (i : Int) ∉ e.openItems) :
        next.bounds[i]? = some a ∧ (i : Int) ∉ next.openItems :=
      hgrows.outline.stays hi hclosed
    refine forall_mem_of_step hold ?_ ((stepsRecords ht hs).listTails.imp_right ?_)
    · rintro span ⟨i, a, hi, hclosed, hspan⟩
      obtain ⟨hi, hclosed⟩ := hstays hi hclosed
      exact ⟨i, a, hi, hclosed, hspan⟩
    · rintro ⟨⟨-, hnil⟩, item, hitem, span, hspan, hpush⟩
      obtain ⟨i, hi⟩ := List.mem_iff_getElem?.mp (List.mem_map_of_mem (f := ListItem.bounds) hitem)
      have hclosed := (closed_of_step h hsplit ht he hs hnil).1
      obtain ⟨hi, hclosed⟩ := hstays hi (by simp [hclosed])
      exact ⟨span, ⟨i, item.bounds, hi, hclosed, hspan⟩, hpush⟩
  · simp [TailsOfItems, Draft.start]

/-- Outside of all lists the last tail is the span of the last item that has one. -/
theorem getLast?_listTails_of_outside (h : Token.WellNested .blocks tokens)
    (hsplit : Token.atomsOf tokens = before ++ after)
    (hd : (Draft.start first tab headingAsTitle).steps before = .ok d) (hnil : d.lists = []) :
    d.records.listTails.toList.getLast? = Bounds.lastSpan? d.bounds := by
  refine invariant_parts (P := fun _ d => d.lists = [] →
    d.records.listTails.toList.getLast? = Bounds.lastSpan? d.bounds) ?_ (fun _ => rfl) hsplit hd hnil
  intro init t after e next hsplit he hold hs hnil
  have ht := Token.isAtom_of_mem_atomsOf tokens t (by simp [hsplit])
  obtain ⟨hclosed, hlists | ⟨kind, list, rfl, hlists⟩⟩ := closed_of_step h hsplit ht he hs hnil
  · have hitem : t ≠ .openItem := by
      rintro rfl
      obtain ⟨list, outer, hcons, -⟩ := markings_openItem hs
      exact absurd (hlists.symm.trans hcons) (List.cons_ne_nil _ _).symm
    have htails := listTails_step ht hs fun _ _ => by simp [hlists]
    obtain ⟨document, middle, -, hgrows⟩ := growsTo_of_steps he ((steps_singleton e t).trans hs)
    have hbounds : e.bounds = next.bounds := (hgrows.outline.items_initial hclosed).eq_of_length
      (by simp [outline, size_items_step ht hitem hs])
    rw [htails, ← hbounds]
    exact hold hlists
  · cases hs
    rw [listTails_closeList hlists, e.keepsContent_closeList.keepsBounds.bounds,
      List.getLast?_append]
    cases hlast : Bounds.lastSpan? e.bounds with
    | none =>
      have htails := tailsOfItems_of_atoms h hsplit he
      simp [htails.eq_nil hlast]
    | some span => simp

end Start

/-! ## Outermost lists -/

/-- The span of the last item that has one, of those that are opened between two drafts of a run,
as they are recorded in the end. -/
def lastSpanBetween? (final d e : Draft) : Option Span :=
  ListItem.lastSpan?
    ((final.records.items.toList.take e.records.items.size).drop d.records.items.size)

/-- What is recorded of tails between two drafts of a run, and kept: one tail, which is the span of
the last item that is opened in between and has one. Without such an item it is the last tail from
before, if there is any. -/
structure LeavesTail (final d e : Draft) : Prop where
  tails : e.records.listTails.toList = d.records.listTails.toList ++
    ((final.lastSpanBetween? d e).or d.records.listTails.toList.getLast?).toList
  kept : e.records.listTails.toList <+: final.records.listTails.toList

theorem lastSpanBetween?_eq {xs ys zs : List Bounds} (hd : d.bounds = xs)
    (he : e.bounds = xs ++ ys) (hfinal : final.bounds = xs ++ ys ++ zs) :
    final.lastSpanBetween? d e = Bounds.lastSpan? ys := by
  have htake : final.bounds.take e.records.items.size = xs ++ ys := by
    rw [← length_bounds, hfinal, he, List.take_left]
  rw [lastSpanBetween?, ListItem.lastSpan?_eq, List.map_drop, List.map_take]
  change Bounds.lastSpan? ((final.bounds.take _).drop _) = _
  rw [htake, ← length_bounds, hd, List.drop_left]

/-- An outermost list records one tail at most, in the end. -/
theorem listTails_of_list {kind : ListKind} (hbody : Token.WellNested .items body)
    (hlists : d.lists = []) (hclosed : d.openItems = [])
    (hs : d.steps (.openList kind :: body ++ [.closeList kind]) = .ok e) :
    e.openItems = [] ∧ e.records.listTails.toList =
      d.records.listTails.toList ++ (Bounds.lastSpan? e.bounds).toList := by
  obtain ⟨inner, hinner, hclose⟩ := steps_append_eq_ok.mp hs
  obtain ⟨opened, hopened, hinner⟩ := steps_cons_eq_ok.mp hinner
  cases hopened
  rw [steps_singleton] at hclose
  cases hclose
  have hopen : (d.openList kind).lists = [⟨kind, 0⟩] := by rw [openList, hlists]; rfl
  have hopen_ne : (d.openList kind).lists ≠ [] := by simp [hopen]
  have hinnerLists := (lists_of_wellNested hbody (fun _ => hopen_ne) hinner).trans hopen
  have hlength := length_openItems_of_wellNested hbody hinner
  have hkeeps := inner.keepsContent_closeList.keepsBounds
  refine ⟨?_, ?_⟩
  · rw [hkeeps.openItems]
    exact List.length_eq_zero_iff.mp (hlength.trans (congrArg List.length hclosed))
  · rw [listTails_closeList hinnerLists, hkeeps.bounds,
      listTails_of_wellNested hbody hopen_ne hinner]
    rfl

theorem leavesTail_of_split {first : Int} {tab : Option String} {headingAsTitle : Bool}
    {kind : ListKind}
    (hnested : Token.WellNested .blocks
      (before ++ (.openList kind :: body ++ [.closeList kind]) ++ after))
    (hrun : (Draft.start first tab headingAsTitle).steps
      (before ++ (.openList kind :: body ++ [.closeList kind]) ++ after) = .ok final)
    (houtside : Token.IsOutside before) (hbody : Token.WellNested .items body) :
    ∃ d e, (Draft.start first tab headingAsTitle).steps before = .ok d ∧
      d.steps (.openList kind :: body ++ [.closeList kind]) = .ok e ∧ final.LeavesTail d e := by
  obtain ⟨d, e, document, middle, last, hd, hlist, hafter, hdocument, hmiddle, hlast⟩ :=
    growsTo_parts hrun
  have hsplit := List.append_assoc before (.openList kind :: body ++ [.closeList kind]) after
  obtain ⟨hlists, hclosed⟩ := closed_of_isOutside hnested hsplit houtside hd
  have hbefore : d.records.listTails.toList.getLast? = Bounds.lastSpan? d.bounds := by
    have hatoms := congrArg Token.atomsOf hsplit
    rw [Token.atomsOf_append before] at hatoms
    exact getLast?_listTails_of_outside hnested hatoms ((steps_atomsOf _ _).trans hd) hlists
  obtain ⟨hclosedBehind, htails⟩ := listTails_of_list hbody hlists hclosed hlist
  -- The items from before, those of the list, and those behind it.
  obtain ⟨own, hown⟩ := hmiddle.outline.items_initial hclosed
  obtain ⟨behind, hbehind⟩ := hlast.outline.items_initial hclosedBehind
  have he : e.bounds = d.bounds ++ own := hown.symm
  have hfinal : final.bounds = d.bounds ++ own ++ behind := by
    rw [← he]
    exact hbehind.symm
  refine ⟨d, e, hd, hlist, ?_, (keepsBlocks_steps hafter).listTails⟩
  rw [htails, he, Bounds.lastSpan?_append, lastSpanBetween?_eq rfl he hfinal, hbefore]

/-- Tokens other than the closes of outermost lists record no tail. -/
theorem listTails_of_not_closesOutermost {first : Int} {tab : Option String}
    {headingAsTitle : Bool} (ht : t.IsBlockToken) (houter : ¬t.ClosesOutermost before)
    (hd : (Draft.start first tab headingAsTitle).steps before = .ok d)
    (hs : d.step t = .ok next) : next.records.listTails = d.records.listTails := by
  by_cases hatom : t.IsAtom
  · refine listTails_step hatom hs ?_
    rintro kind rfl hone
    exact houter ⟨⟨kind, rfl⟩, (length_lists_of_steps hd).symm.trans hone⟩
  · cases t with
    | inline children =>
      obtain ⟨same, hsame, hblocks⟩ := exists_steps_of_isInline ht d
      rw [step] at hs
      rw [hs] at hsame
      cases hsame
      exact congrArg BlockState.listTails hblocks
    | _ => exact absurd trivial hatom

end Draft

/-- Outermost lists leave a tail each, that of their own last item with a span or the last one from
before, and nothing else leaves any. -/
theorem convertTokens_leavesTails {config : Config} {tokens : List Token} {o : Options}
    {first : Int} {tab : Option String} (hnested : Token.WellNested .blocks tokens)
    (hfirst : o.startIndex = .ok first) (htab : o.tabIdentifier = .ok tab) :
    ∃ final, convertTokens config tokens o = .ok (.ofDraft config final) ∧
      (Draft.start first tab (o.wantsTitle config)).steps tokens = .ok final ∧
        (∀ before kind body after,
          tokens = before ++ (.openList kind :: body ++ [.closeList kind]) ++ after →
            Token.IsOutside before → Token.WellNested .items body → ∃ d e,
              (Draft.start first tab (o.wantsTitle config)).steps before = .ok d ∧
                d.steps (.openList kind :: body ++ [.closeList kind]) = .ok e ∧
                  final.LeavesTail d e) ∧
          ∀ before t after, tokens = before ++ t :: after → ¬t.ClosesOutermost before →
            ∃ d next, (Draft.start first tab (o.wantsTitle config)).steps before = .ok d ∧
              d.step t = .ok next ∧ next.records.listTails = d.records.listTails := by
  obtain ⟨final, document, hconverted, hreaches⟩ :=
    @exists_reaches_of_wellNested config _ _ _ _ hnested hfirst htab
  refine ⟨final, hconverted, hreaches.run, ?_, ?_⟩
  · rintro before kind body after rfl houtside hbody
    exact Draft.leavesTail_of_split hnested hreaches.run houtside hbody
  · rintro before t after rfl houter
    obtain ⟨d, hd, hrest⟩ := Draft.steps_append_eq_ok.mp hreaches.run
    obtain ⟨next, hnext, -⟩ := Draft.steps_cons_eq_ok.mp hrest
    have ht := hnested.isBlockToken t (by simp)
    exact ⟨d, next, hd, hnext, Draft.listTails_of_not_closesOutermost ht houter hd hnext⟩

/-- A list with another one in its item. -/
def listInList : List Token :=
  [.openList .bullet, .openItem, .openParagraph, .inline [.text "a"], .closeParagraph,
    .openList .ordered, .openItem, .openParagraph, .inline [.text "b"], .closeParagraph,
    .closeItem, .closeList .ordered, .closeItem, .closeList .bullet]

/-- A list with one item, in which there is nothing. -/
def emptyItem : List Token := [.openList .ordered, .openItem, .closeItem, .closeList .ordered]

theorem wellNested_listInList_append {rest : List Token} (hrest : Token.WellNested .blocks rest) :
    Token.WellNested .blocks (listInList ++ rest) := by
  have hcontent (s : String) : Token.WellMarked false [.text s] := .leaf trivial .nil
  have hinner : Token.WellNested .items
      [.openItem, .openParagraph, .inline [.text "b"], .closeParagraph, .closeItem] :=
    .item (.paragraph (hcontent "b") .nil) .nil
  have houter : Token.WellNested .items
      [.openItem, .openParagraph, .inline [.text "a"], .closeParagraph, .openList .ordered,
        .openItem, .openParagraph, .inline [.text "b"], .closeParagraph, .closeItem,
        .closeList .ordered, .closeItem] :=
    .item (.paragraph (hcontent "a") (.list .ordered hinner .nil)) .nil
  exact .list .bullet houter hrest

theorem wellNested_emptyItem : Token.WellNested .blocks emptyItem :=
  .list .ordered (.item .nil .nil) .nil

theorem convertTokens_leavesTails_emptyItem :
    ∃ final, convertTokens .standard (listInList ++ emptyItem) {} =
        .ok (.ofDraft .standard final) ∧
      (Draft.start 1 none (Options.wantsTitle {} .standard)).steps (listInList ++ emptyItem) =
          .ok final ∧
        (∀ before kind body after,
          listInList ++ emptyItem = before ++ (.openList kind :: body ++ [.closeList kind]) ++ after →
            Token.IsOutside before → Token.WellNested .items body → ∃ d e,
              (Draft.start 1 none (Options.wantsTitle {} .standard)).steps before = .ok d ∧
                d.steps (.openList kind :: body ++ [.closeList kind]) = .ok e ∧
                  final.LeavesTail d e) ∧
          ∀ before t after, listInList ++ emptyItem = before ++ t :: after →
            ¬t.ClosesOutermost before → ∃ d next,
              (Draft.start 1 none (Options.wantsTitle {} .standard)).steps before = .ok d ∧
                d.step t = .ok next ∧ next.records.listTails = d.records.listTails :=
  convertTokens_leavesTails (wellNested_listInList_append wellNested_emptyItem) rfl rfl

/-- The list with the empty item leaves the tail of the list before once more. -/
theorem not_forall_wellNested_listTails_nodup :
    ¬∀ tokens final, Token.WellNested .blocks tokens →
      (Draft.start 1 none false).steps tokens = .ok final →
        final.records.listTails.toList.Nodup := by
  intro hall
  obtain ⟨final, hfinal⟩ : ∃ final,
      (Draft.start 1 none false).steps (listInList ++ emptyItem) = .ok final :=
    exists_eq_ok_of_isOk (by decide +kernel)
  have htails : ((Draft.start 1 none false).steps (listInList ++ emptyItem)).toOption.map
      (fun d => d.records.listTails) = some #[⟨3, 5⟩, ⟨3, 5⟩] := by decide +kernel
  rw [hfinal] at htails
  have hnodup := hall _ final (wellNested_listInList_append wellNested_emptyItem) hfinal
  have hsame : final.records.listTails = #[⟨3, 5⟩, ⟨3, 5⟩] := Option.some.inj htails
  rw [hsame] at hnodup
  revert hnodup
  decide

end MarkdownEdits
