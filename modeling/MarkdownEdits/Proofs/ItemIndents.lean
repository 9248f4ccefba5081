import MarkdownEdits.Proofs.BegunLines

/-!
# Indents of items

An item inserts as many tabs as its level where it starts, and its first text comes behind them. The
tabs can be read off its line only where the item starts the line. It does so unless something
in front has begun the line: the tabs of an item around it, which comes with no text of its own, or
the content of a cell.
-/
namespace MarkdownEdits
namespace DocumentUnit

theorem ofText_replicate (n : Nat) :
    ofText (String.ofList (List.replicate n listIndent)) = List.replicate n .tab := by
  have hunit : Utf16.charUnits listIndent = [9] := by decide
  simp only [ofText, Utf16.units, String.toList_ofList]
  induction n with
  | zero => rfl
  | succ n ih =>
    rw [List.replicate_succ, List.flatMap_cons, hunit, List.map_append, ih, List.replicate_succ]
    rfl

/-- A text that does not begin with a tab has another unit first. -/
theorem ofText_eq_cons {text : String} (h : text ≠ "")
    (htab : text.toList.head? ≠ some listIndent) :
    ∃ u units, ofText text = u :: units ∧ u ≠ .tab := by
  obtain ⟨c, cs, hchars⟩ := List.exists_cons_of_ne_nil (mt String.toList_eq_nil_iff.mp h)
  have hunits : Utf16.charUnits c ≠ [] := by
    rw [← List.length_pos_iff, Utf16.length_charUnits]
    exact Utf16.width_pos c
  obtain ⟨v, vs, hfirst⟩ := List.exists_cons_of_ne_nil hunits
  refine ⟨.code v, _, by rw [ofText, Utf16.units, hchars, List.flatMap_cons, hfirst]; rfl, ?_⟩
  intro hsame
  cases hsame
  have hmem : 9 ∈ Utf16.charUnits c := hfirst ▸ List.mem_cons_self
  have hc : c = '\t' := Char.toNat_inj.mp (Utf16.toNat_eq_of_mem_charUnits hmem (by decide))
  rw [hchars, hc] at htab
  exact htab rfl

end DocumentUnit

/-- From the start of an item on there are as many tabs as its level tells, and behind them a
text. -/
structure Document.ShowsItem (document : Document) (item : ListItem) (text : String) : Prop where
  tabs : document.tabsAt item.start = item.level
  text : document.cut? ⟨item.start + item.level, item.start + item.level + Utf16.length text⟩ =
    some (DocumentUnit.ofText text)

theorem Document.showsItem_append (d : Document) {item : ListItem} (hstart : item.start = d.stop)
    {text : String} (h : text ≠ "") (htab : text.toList.head? ≠ some listIndent)
    (behind : List DocumentUnit) :
    (d.append (List.replicate item.level .tab ++ (DocumentUnit.ofText text ++ behind))).ShowsItem
      item text where
  tabs := by
    obtain ⟨u, units, hunits, hu⟩ := DocumentUnit.ofText_eq_cons h htab
    rw [hstart, hunits]
    exact d.tabsAt_stop_append item.level hu _
  text := by
    have htext := cut?_append (d.append (List.replicate item.level .tab)) (DocumentUnit.ofText text)
      behind
    rw [append_append, stop_append, List.length_replicate, DocumentUnit.length_ofText] at htext
    rw [hstart]
    exact htext

namespace Draft

variable {d e next final : Draft} {document : Document} {before after children : List Token}

/-! ## Items -/

/-- The item that is opened next in some draft, as it is recorded and shown in the end. -/
structure ShowsNextItem (final : Draft) (document : Document) (d : Draft) (item : ListItem)
    (text : String) : Prop where
  recorded : final.records.items[d.records.items.size]? = some item
  start : item.start = d.cursor
  shown : document.ShowsItem item text

/-- A new item awaits its first text. -/
theorem awaitsText_openItem (h : d.openItem = .ok next) : next.awaitsText = true := by
  obtain ⟨list, outer, -, hmarkings⟩ := markings_openItem h
  have hlength : d.markings.length = d.records.items.size := d.length_markings
  rw [awaitsText_eq, openItems_openItem h, hmarkings, List.head?_cons, Option.bind_some,
    placeOf?_natCast, List.length_append, List.length_singleton, hlength,
    if_pos (Nat.lt_succ_self _), Option.bind_some, ← hlength,
    List.getElem?_append_right (Nat.le_refl _), Nat.sub_self]
  rfl

/-- An item that begins with text inserts its tabs and then the text. -/
theorem emits_item {opening : Token} {list : OpenList} {outer : List OpenList}
    (hlists : d.lists = list :: outer) (hc : Token.WellMarked false children)
    (hopening : opening.OpensContent)
    (hs : d.steps [.openItem, opening, .inline children] = .ok e) :
    ∃ pieces, d.Emits pieces e ∧ Piece.unitsOf pieces =
      List.replicate list.level .tab ++ DocumentUnit.ofText (Token.insertedText true children) := by
  obtain ⟨opened, hopened, hcontent⟩ := steps_cons_eq_ok.mp hs
  obtain ⟨_, _, hsame, hindent⟩ := emits_openItem hopened
  rw [hlists] at hsame
  cases hsame
  obtain ⟨pieces, hpieces, hunits⟩ := emits_content hc.isInline hcontent hopening
  rw [awaitsText_openItem hopened] at hunits
  refine ⟨_, hindent.trans hpieces, ?_⟩
  rw [Piece.unitsOf_append, Piece.unitsOf_ofText, DocumentUnit.ofText_replicate, hunits]

section Start

variable {start : Int} {tab : Option String} {headingAsTitle : Bool}

theorem exists_item_of_split {opening : Token}
    (h : Token.WellNested .blocks (before ++ [.openItem, opening, .inline children] ++ after))
    (hreaches : (Draft.start start tab headingAsTitle).Reaches
      (before ++ [.openItem, opening, .inline children] ++ after) final document)
    (hopening : opening.OpensContent) (htext : Token.insertedText true children ≠ "")
    (htab : (Token.insertedText true children).toList.head? ≠ some listIndent) :
    ∃ d item, (Draft.start start tab headingAsTitle).steps before = .ok d ∧
      final.ShowsNextItem document d item (Token.insertedText true children) ∧
        item.level + 1 = (Token.openLists [] (Token.atomsOf before)).length ∧
          (document.StartsLine item.start ↔ ¬Token.FollowsBegunLine before) := by
  obtain ⟨d, e, shown, middle, hd, hitem, hafter, hshown, hmiddle, hlast⟩ := hreaches.parts
  have hc : Token.WellMarked false children := h.wellMarked_of_mem (by simp)
  obtain ⟨opened, hopened, hcontent⟩ := steps_cons_eq_ok.mp hitem
  obtain ⟨list, outer, item, hlists, hrecorded, hstart, hlevel⟩ :=
    exists_item_of_openItem hopened (steps_append_eq_ok.mpr ⟨e, hcontent, hafter⟩)
  obtain ⟨pieces, hpieces, hunits⟩ := emits_item hlists hc hopening hitem
  obtain ⟨behind, rfl⟩ := hlast.units
  have hgrown := hmiddle.eq_append hshown.yields hpieces
  rw [hunits, ← hlevel] at hgrown
  have hfirst : shown.first = start := hshown.first_eq
  have hline := lineOpen_iff_followsBegunLine h (List.append_assoc before _ after) hd
  refine ⟨d, item, hd, ⟨hrecorded, hstart, ?_⟩, ?_, ?_⟩
  · rw [hgrown, Document.append_append, List.append_assoc]
    exact shown.showsItem_append (hstart.trans hshown.yields.cursor) htext htab behind
  · rw [hlevel]
    exact level_of_steps hd hlists
  · rw [hgrown, Document.append_append, hstart, hshown.yields.startsLine_iff, hfirst, hline]

end Start

end Draft

/-- The tabs in front of an item tell its level, and the item starts a line unless the line is begun
in front of it. -/
theorem convertTokens_indentsItems {config : Config} {tokens : List Token} {o : Options}
    {first : Int} {tab : Option String} (hnested : Token.WellNested .blocks tokens)
    (hfirst : o.startIndex = .ok first) (htab : o.tabIdentifier = .ok tab) :
    ∃ final document, convertTokens config tokens o = .ok (.ofDraft config final) ∧
      (Draft.start first tab (o.wantsTitle config)).Reaches tokens final document ∧
        ∀ before opening children after,
          tokens = before ++ [.openItem, opening, .inline children] ++ after →
            opening.OpensContent → Token.insertedText true children ≠ "" →
              (Token.insertedText true children).toList.head? ≠ some listIndent → ∃ d item,
                (Draft.start first tab (o.wantsTitle config)).steps before = .ok d ∧
                  final.ShowsNextItem document d item (Token.insertedText true children) ∧
                    item.level + 1 = (Token.openLists [] (Token.atomsOf before)).length ∧
                      (document.StartsLine item.start ↔ ¬Token.FollowsBegunLine before) := by
  obtain ⟨final, document, hconverted, hreaches⟩ :=
    @exists_reaches_of_wellNested config _ _ _ _ hnested hfirst htab
  refine ⟨final, document, hconverted, hreaches, ?_⟩
  rintro before opening children after rfl hopening htext hindent
  exact Draft.exists_item_of_split hnested hreaches hopening htext hindent

/-- A task with a heading in a list below it, and an item that begins with a list. -/
def itemsBelowItems : List Token :=
  [.openList .bullet, .openItem, .openParagraph, .inline [.text "[x] a"], .closeParagraph,
    .openList .ordered, .openItem, .openHeading "h3", .inline [.text "b"], .closeHeading,
    .closeItem, .closeList .ordered, .closeItem, .openItem, .openList .bullet, .openItem,
    .openParagraph, .inline [.text "c"], .closeParagraph, .closeItem, .closeList .bullet,
    .closeItem, .closeList .bullet]

theorem wellNested_itemsBelowItems : Token.WellNested .blocks itemsBelowItems := by
  have hcontent (s : String) : Token.WellMarked false [.text s] := .leaf trivial .nil
  have hheading : Token.WellNested .items
      [.openItem, .openHeading "h3", .inline [.text "b"], .closeHeading, .closeItem] :=
    .item (.heading .h3 (hcontent "b") .nil) .nil
  have htask : Token.WellNested .blocks
      [.openParagraph, .inline [.text "[x] a"], .closeParagraph, .openList .ordered, .openItem,
        .openHeading "h3", .inline [.text "b"], .closeHeading, .closeItem, .closeList .ordered] :=
    .paragraph (hcontent "[x] a") (.list .ordered hheading .nil)
  have hbelow : Token.WellNested .items
      [.openItem, .openParagraph, .inline [.text "c"], .closeParagraph, .closeItem] :=
    .item (.paragraph (hcontent "c") .nil) .nil
  have hitem : Token.WellNested .items
      [.openItem, .openList .bullet, .openItem, .openParagraph, .inline [.text "c"],
        .closeParagraph, .closeItem, .closeList .bullet, .closeItem] :=
    .item (.list .bullet hbelow .nil) .nil
  have hitems : Token.WellNested .items
      (.openItem :: [.openParagraph, .inline [.text "[x] a"], .closeParagraph, .openList .ordered,
        .openItem, .openHeading "h3", .inline [.text "b"], .closeHeading, .closeItem,
        .closeList .ordered] ++ .closeItem :: [.openItem, .openList .bullet, .openItem,
        .openParagraph, .inline [.text "c"], .closeParagraph, .closeItem, .closeList .bullet,
        .closeItem]) := .item htask hitem
  exact .list .bullet hitems .nil

theorem convertTokens_indentsItems_itemsBelowItems :
    ∃ final document, convertTokens .standard itemsBelowItems {} = .ok (.ofDraft .standard final) ∧
      (Draft.start 1 none (Options.wantsTitle {} .standard)).Reaches itemsBelowItems final
          document ∧
        ∀ before opening children after,
          itemsBelowItems = before ++ [.openItem, opening, .inline children] ++ after →
            opening.OpensContent → Token.insertedText true children ≠ "" →
              (Token.insertedText true children).toList.head? ≠ some listIndent → ∃ d item,
                (Draft.start 1 none (Options.wantsTitle {} .standard)).steps before = .ok d ∧
                  final.ShowsNextItem document d item (Token.insertedText true children) ∧
                    item.level + 1 = (Token.openLists [] (Token.atomsOf before)).length ∧
                      (document.StartsLine item.start ↔ ¬Token.FollowsBegunLine before) :=
  convertTokens_indentsItems wellNested_itemsBelowItems rfl rfl

/-- The tokens in front of an item in a list that an item of a list in an item begins with. -/
def threeListsOpened : List Token :=
  [.openList .bullet, .openItem, .openList .bullet, .openItem, .openList .bullet]

/-- Three lists, each of which stands at the very beginning of the one around it. -/
def threeListsInOneLine : List Token :=
  threeListsOpened ++ [.openItem, .openParagraph, .inline [.text "c"]] ++
    [.closeParagraph, .closeItem, .closeList .bullet, .closeItem, .closeList .bullet, .closeItem,
      .closeList .bullet]

theorem wellNested_threeListsInOneLine : Token.WellNested .blocks threeListsInOneLine := by
  have hcontent : Token.WellMarked false [.text "c"] := .leaf trivial .nil
  have hinner : Token.WellNested .items
      [.openItem, .openParagraph, .inline [.text "c"], .closeParagraph, .closeItem] :=
    .item (.paragraph hcontent .nil) .nil
  have hmiddle : Token.WellNested .items
      [.openItem, .openList .bullet, .openItem, .openParagraph, .inline [.text "c"],
        .closeParagraph, .closeItem, .closeList .bullet, .closeItem] :=
    .item (.list .bullet hinner .nil) .nil
  have houter : Token.WellNested .items
      [.openItem, .openList .bullet, .openItem, .openList .bullet, .openItem, .openParagraph,
        .inline [.text "c"], .closeParagraph, .closeItem, .closeList .bullet, .closeItem,
        .closeList .bullet, .closeItem] := .item (.list .bullet hmiddle .nil) .nil
  exact .list .bullet houter .nil

/-- The two tabs of the innermost item stand behind the one of the item around it. -/
theorem not_forall_wellNested_items_startLine :
    ¬∀ tokens final document, Token.WellNested .blocks tokens →
      (Draft.start 1 none false).Reaches tokens final document →
        ∀ before opening children after d item,
          tokens = before ++ [.openItem, opening, .inline children] ++ after →
            opening.OpensContent → Token.insertedText true children ≠ "" →
              (Token.insertedText true children).toList.head? ≠ some listIndent →
                (Draft.start 1 none false).steps before = .ok d →
                  final.records.items[d.records.items.size]? = some item →
                    document.StartsLine item.start := by
  intro hall
  obtain ⟨d, hd⟩ : ∃ d, (Draft.start 1 none false).steps threeListsOpened = .ok d :=
    exists_eq_ok_of_isOk (by decide +kernel)
  obtain ⟨final, hfinal⟩ : ∃ final,
      (Draft.start 1 none false).steps threeListsInOneLine = .ok final :=
    exists_eq_ok_of_isOk (by decide +kernel)
  have hsize : ((Draft.start 1 none false).steps threeListsOpened).toOption.map
      (fun d => d.records.items.size) = some 2 := by decide +kernel
  have hresult : ((Draft.start 1 none false).steps threeListsInOneLine).toOption.map
      (fun f => (f.records.items[2]?, (Document.empty 1).replay? f.insertions.toList)) =
        some (some ⟨2, 2, .unordered, some 5, true⟩,
          some ⟨1, [.tab, .tab, .tab, .code 99, .newline]⟩) := by decide +kernel
  rw [hd] at hsize
  rw [hfinal] at hresult
  obtain ⟨hitem, hreplay⟩ := Prod.mk.inj (Option.some.inj hresult)
  have hindex : d.records.items.size = 2 := Option.some.inj hsize
  have hline := hall threeListsInOneLine final _ wellNested_threeListsInOneLine ⟨hfinal, hreplay⟩
    threeListsOpened .openParagraph [.text "c"] _ d _ rfl trivial (by decide) (by decide) hd
    (by rw [hindex]; exact hitem)
  revert hline
  decide

end MarkdownEdits
