import MarkdownEdits.Proofs.BulletOrder
import MarkdownEdits.Proofs.ItemMarkings
import MarkdownEdits.Proofs.WellNestedRuns

/-!
# Bullets stay in lists

Items that are joined have at most one unit between them, the line end of the first one. A token
outside all lists comes when every item is closed, and so do the units that it inserts: they stand
behind the line ends of the items before and in front of the items to come.
-/
namespace MarkdownEdits
namespace BulletSpan

/-- A range reaches no further than the spans joined in it and the unit behind each. -/
theorem exists_mem_span_of_mem_merge {spans : List BulletSpan} {r : BulletSpan}
    (h : r ∈ merge spans) {index : Int} (hstart : r.span.start ≤ index)
    (hstop : index ≤ r.span.stop) :
    ∃ x ∈ spans, x.span.start ≤ index ∧ index ≤ x.span.stop := by
  refine forall_mem_merge (P := fun r => ∀ index, r.span.start ≤ index → index ≤ r.span.stop →
    ∃ x ∈ spans, x.span.start ≤ index ∧ index ≤ x.span.stop) ?_ ?_ r h index hstart hstop
  · intro range next hrange hnext hjoins index hstart hstop
    obtain ⟨-, -, hgap⟩ := joins_iff.mp hjoins
    simp only [absorb] at hstart hstop
    by_cases hle : index ≤ range.span.stop
    · exact hrange index hstart hle
    · exact hnext index (by omega) (by omega)
  · exact fun x hx index hstart hstop => ⟨x, hx, hstart, hstop⟩

end BulletSpan

namespace Draft

variable {d e final : Draft} {document middle last : Document}

/-- Where every item is closed and none is opened, items lie before and behind. -/
theorem stop_lt_or_le_start_of_mem_itemSpans (ho : (d.outline document).InOrder)
    (hd : d.GrowsTo document e middle) (he : e.GrowsTo middle final last)
    (hclosed : d.openItems = []) (hsize : e.records.items.size = d.records.items.size)
    {s : BulletSpan} (hs : s ∈ final.itemSpans) :
    s.span.stop < document.stop ∨ middle.stop ≤ s.span.start := by
  obtain ⟨i, hi⟩ := exists_bounds_of_mem_itemSpans hs
  by_cases hlt : i < d.bounds.length
  · have hitem := List.getElem?_eq_getElem hlt
    have hkept := (hd.outline.trans he.outline).closed i _ hitem (by simp [outline, hclosed])
    simp only [outline, hi, Option.some.injEq] at hkept
    have hmem := List.getElem_mem hlt
    rw [← hkept] at hmem
    exact .inl (ho.stop_bounds _ hmem _ rfl).2.1
  · refine .inr (he.outline.later i _ hi ?_)
    simp only [outline, length_bounds] at hlt ⊢
    omega

end Draft

/-- Outside of all lists no unit gets bullets. -/
theorem convertTokens_bulletsInLists {config : Config} {tokens : List Token} {o : Options}
    {first : Int} {tab : Option String} (hnested : Token.WellNested .blocks tokens)
    (hfirst : o.startIndex = .ok first) (htab : o.tabIdentifier = .ok tab) :
    ∃ c, convertTokens config tokens o = .ok c ∧
      ∀ before t after, Token.atomsOf tokens = before ++ t :: after →
        Token.openLists [] before = [] → ∃ d next document units behind,
          (Draft.start first tab (o.wantsTitle config)).steps before = .ok d ∧
            d.step t = .ok next ∧ document.first = first ∧
              c.Inserts d next document units behind ∧
                ∀ r ∈ c.bullets, ∀ index, document.stop ≤ index →
                  index < document.stop + units.length →
                    ¬(r.span.start ≤ index ∧ index < r.span.stop) := by
  obtain ⟨final, hrun, -⟩ := Draft.accepts_of_wellNested hnested
    (Draft.start first tab (o.wantsTitle config)) nofun
  refine ⟨_, convertTokens_eq_ok.mpr ⟨first, tab, final, hfirst, htab, hrun, rfl⟩, ?_⟩
  intro before t after hsplit houtside
  have hatoms := Token.isAtom_of_mem_atomsOf tokens
  rw [hsplit] at hatoms
  have hbefore : ∀ u ∈ before, u.IsAtom := fun u hu => hatoms u (List.mem_append_left _ hu)
  have hatom : t.IsAtom := hatoms t (by simp)
  have hparts : Token.atomsOf tokens = before ++ [t] ++ after := by
    rw [hsplit, List.append_assoc]
    rfl
  obtain ⟨d, next, document, middle, last, hd, hnext, -, hdocument, hmiddle, hlast⟩ :=
    Draft.growsTo_split hrun hparts
  rw [Draft.steps_singleton] at hnext
  -- No list is open, so no item is, and the token cannot open one.
  have hlists : d.lists = [] := by
    have hkinds := Draft.kinds_steps hbefore hd
    exact List.map_eq_nil_iff.mp (hkinds.trans houtside)
  have hclosed : d.openItems = [] := by
    have hlength := Draft.length_openItems_steps hbefore hd
    exact List.length_eq_zero_iff.mp (hlength.trans (hnested.itemDepth_eq_zero hsplit houtside))
  have hitem : t ≠ .openItem := by
    rintro rfl
    rw [Draft.step, Draft.openItem.eq_def, hlists] at hnext
    cases hnext
  obtain ⟨units, behind, rfl, rfl, hinserts⟩ := hmiddle.inserts hdocument.yields hlast config
  refine ⟨d, next, document, units, behind, hd, hnext, hdocument.first_eq, hinserts, ?_⟩
  rintro r hr index hle hlt ⟨hstart, hstop⟩
  have hmerge := (Draft.mem_bullets_ofDraft config hlast.inOrder).mp hr
  obtain ⟨x, hx, hxstart, hxstop⟩ :=
    BulletSpan.exists_mem_span_of_mem_merge hmerge hstart (Int.le_of_lt hstop)
  have hsides := Draft.stop_lt_or_le_start_of_mem_itemSpans hdocument.inOrder hmiddle hlast hclosed
    (Draft.size_items_step hatom hitem hnext) hx
  rw [Document.stop_append] at hsides
  omega

/-- Three lists with a paragraph of one character between the first two, and a rule, a heading
without content and a quotation between the last two. -/
def listsAmongBlocks : List Token :=
  [.openList .bullet, .openItem, .openParagraph, .inline [.text "a"], .closeParagraph, .closeItem,
    .closeList .bullet, .openParagraph, .inline [.text "b"], .closeParagraph, .openList .bullet,
    .openItem, .openList .ordered, .openItem, .codeBlock "c" "", .closeItem, .closeList .ordered,
    .closeItem, .closeList .bullet, .rule, .openHeading "h1", .inline [], .closeHeading,
    .skipped "blockquote_open" [], .openParagraph, .inline [.softBreak], .closeParagraph,
    .skipped "blockquote_close" [], .openList .ordered, .openItem, .closeItem, .closeList .ordered]

theorem wellNested_listsAmongBlocks : Token.WellNested .blocks listsAmongBlocks := by
  have hcontent (s : String) : Token.WellMarked false [.text s] := .leaf trivial .nil
  have hbreak : Token.WellMarked false [.softBreak] := .leaf trivial .nil
  have hfirst : Token.WellNested .items
      [.openItem, .openParagraph, .inline [.text "a"], .closeParagraph, .closeItem] :=
    .item (.paragraph (hcontent "a") .nil) .nil
  have hnested : Token.WellNested .items [.openItem, .codeBlock "c" "", .closeItem] :=
    .item (.codeBlock "c" "" .nil) .nil
  have hsecond : Token.WellNested .items
      [.openItem, .openList .ordered, .openItem, .codeBlock "c" "", .closeItem, .closeList .ordered,
        .closeItem] := .item (.list .ordered hnested .nil) .nil
  have hlast : Token.WellNested .items [.openItem, .closeItem] := .item .nil .nil
  have hquote : Token.WellNested .blocks
      [.openParagraph, .inline [.softBreak], .closeParagraph] := .paragraph hbreak .nil
  exact .list .bullet hfirst <| .paragraph (hcontent "b") <| .list .bullet hsecond <| .rule <|
    .heading .h1 .nil <| .quote hquote <| .list .ordered hlast .nil

theorem convertTokens_bulletsInLists_listsAmongBlocks :
    ∃ c, convertTokens .standard listsAmongBlocks {} = .ok c ∧
      ∀ before t after, Token.atomsOf listsAmongBlocks = before ++ t :: after →
        Token.openLists [] before = [] → ∃ d next document units behind,
          (Draft.start 1 none (Options.wantsTitle {} .standard)).steps before = .ok d ∧
            d.step t = .ok next ∧ document.first = 1 ∧
              c.Inserts d next document units behind ∧
                ∀ r ∈ c.bullets, ∀ index, document.stop ≤ index →
                  index < document.stop + units.length →
                    ¬(r.span.start ≤ index ∧ index < r.span.stop) :=
  convertTokens_bulletsInLists wellNested_listsAmongBlocks rfl rfl

end MarkdownEdits
