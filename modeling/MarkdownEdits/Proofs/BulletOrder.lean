import Mathlib.Data.List.Pairwise
import MarkdownEdits.Proofs.ItemEnds
import MarkdownEdits.Proofs.StylingForms
import MarkdownEdits.Proofs.WellNestedStreams

/-!
# The order of bullets

The requests for bullets come from the end of the document to its start. They keep out of each
other's way exactly if no item starts inside an earlier one of another preset, and no task inside
any. An item that a paragraph extends over the list nested in it breaks this.
-/
namespace MarkdownEdits
open BulletSpan

def Styling.bullets? : Styling → Option BulletSpan
  | .bullets range preset => some ⟨range.span, preset⟩
  | _ => none

/-- What the requests for bullets cover, in the order of the requests. -/
def Conversion.bullets (c : Conversion) : List BulletSpan := c.stylings.filterMap Styling.bullets?

theorem Conversion.bullets_ofDraft (config : Config) (d : Draft) :
    (Conversion.ofDraft config d).bullets = descending (merge (ascending d.itemSpans)) := by
  have hbullets (spans : List BulletSpan) :
      (spans.map (SpanRecords.addBullets d.tab)).filterMap Styling.bullets? = spans := by
    rw [List.filterMap_map]
    exact List.filterMap_some
  simp only [bullets, ofDraft, Draft.stylings, SpanRecords.stylings]
  rw [List.filterMap_append, hbullets, List.filterMap_eq_nil_iff.mpr]
  · rfl
  · intro s hs
    simp only [List.mem_append, List.mem_flatMap, List.mem_map] at hs
    obtain (((⟨text, -, hs⟩ | ⟨heading, -, hs⟩) | ⟨span, -, rfl⟩) | ⟨block, -, hs⟩) |
      ⟨span, -, rfl⟩ := hs
    · obtain ⟨style, rfl⟩ := SpanRecords.eq_text_of_mem_styleText hs
      rfl
    · obtain ⟨style, rfl⟩ := SpanRecords.eq_paragraph_of_mem_styleHeading hs
      rfl
    · rfl
    · obtain rfl | rfl := SpanRecords.mem_styleCodeBlock hs
      · rfl
      · rfl
    · rfl

/-- Items open in the order of their starts, so they are merged as they come. -/
theorem Draft.mem_bullets_ofDraft {d : Draft} {document : Document} (config : Config)
    (h : (d.outline document).InOrder) {r : BulletSpan} :
    r ∈ (Conversion.ofDraft config d).bullets ↔ r ∈ merge d.itemSpans := by
  rw [Conversion.bullets_ofDraft, (startsInOrder_itemSpans h).ascending_eq,
    (descending_perm _).mem_iff]

/-- How the bullets of a conversion lie, given the spans of its items in order of opening. -/
structure Conversion.BulletsApart (c : Conversion) (items : List BulletSpan) : Prop where
  /-- Each request stops in front of all requests before it. -/
  order_iff : c.bullets.Pairwise (fun earlier later => Before later earlier) ↔
    items.Pairwise Clear
  apart_iff : c.bullets.Pairwise Apart ↔ items.Pairwise Clear
  preset : items.Pairwise Clear → ∀ r ∈ c.bullets, ∀ a ∈ items, ¬Apart r a → r.preset = a.preset

theorem Draft.bulletsApart {d : Draft} {document : Document} (config : Config)
    (h : (d.outline document).InOrder) :
    (Conversion.ofDraft config d).BulletsApart d.itemSpans := by
  have hstarts := startsInOrder_itemSpans h
  have hproper : ∀ a ∈ d.itemSpans, a.IsProper := fun a => isProper_of_mem_itemSpans
  have hbullets := Conversion.bullets_ofDraft config d
  rw [hstarts.ascending_eq] at hbullets
  have hranges := isProper_of_mem_merge hproper
  have hmerge : (merge d.itemSpans).Pairwise Apart ↔ d.itemSpans.Pairwise Clear := by
    rw [← (startsInOrder_merge hstarts).pairwise_before_iff hranges,
      pairwise_before_merge_iff hstarts]
  have hperm := descending_perm (merge d.itemSpans)
  constructor
  · rw [hbullets, pairwise_descending_iff hranges, hmerge]
  · rw [hbullets, hperm.pairwise_iff Apart.symm, hmerge]
  · rw [hbullets]
    intro hclear r hr a ha hmeet
    obtain ⟨range, hrange, hcovers⟩ := exists_covers_merge hstarts a ha
    by_cases heq : r = range
    · rw [heq, hcovers.preset]
    · -- Another range keeps apart from the one of the item, and so from the item.
      have hapart := (hmerge.mpr hclear).forall (hperm.mem_iff.mp hr) hrange heq
      have hin := hcovers.start_le
      have hout := hcovers.stop_le
      refine absurd ?_ hmeet
      simp only [Apart, Before] at *
      omega

theorem convertTokens_bulletsApart {config : Config} {tokens : List Token} {o : Options}
    {c : Conversion} (h : convertTokens config tokens o = .ok c) :
    ∃ start tab d, o.startIndex = .ok start ∧
      (Draft.start start tab (o.wantsTitle config)).steps tokens = .ok d ∧
        c.BulletsApart d.itemSpans := by
  obtain ⟨start, tab, d, hstart, -, hrun, rfl⟩ := convertTokens_eq_ok.mp h
  obtain ⟨document, -, -, horder⟩ := Draft.inOrder_steps hrun
  exact ⟨start, tab, d, hstart, hrun, d.bulletsApart config horder⟩

/-- A list with an ordered list nested in its item, and a task behind. -/
def nestedInTurn : List Token :=
  [.openList .bullet, .openItem, .openParagraph, .inline [.text "a"], .closeParagraph,
    .openList .ordered, .openItem, .openParagraph, .inline [.text "b"], .closeParagraph, .closeItem,
    .closeList .ordered, .closeItem, .openItem, .openParagraph, .inline [.text "[x] c"],
    .closeParagraph, .closeItem, .closeList .bullet]

theorem convertTokens_bulletsApart_nestedInTurn :
    ∃ c, convertTokens .standard nestedInTurn {} = .ok c ∧
      ∃ start tab d, Options.startIndex {} = .ok start ∧
        (Draft.start start tab (Options.wantsTitle {} .standard)).steps nestedInTurn = .ok d ∧
          c.BulletsApart d.itemSpans := by
  obtain ⟨c, hc⟩ : ∃ c, convertTokens .standard nestedInTurn {} = .ok c :=
    exists_eq_ok_of_isOk (by decide +kernel)
  exact ⟨c, hc, convertTokens_bulletsApart hc⟩

/-- An item with a second paragraph behind the ordered list nested in it. -/
def extendedItem : List Token :=
  [.openList .bullet, .openItem, .openParagraph, .inline [.text "a"], .closeParagraph,
    .openList .ordered, .openItem, .openParagraph, .inline [.text "b"], .closeParagraph, .closeItem,
    .closeList .ordered, .openParagraph, .inline [.text "c"], .closeParagraph, .closeItem,
    .closeList .bullet]

theorem wellNested_extendedItem : Token.WellNested .blocks extendedItem := by
  have hcontent (s : String) : Token.WellMarked false [.text s] := .leaf trivial .nil
  have hnested : Token.WellNested .items
      [.openItem, .openParagraph, .inline [.text "b"], .closeParagraph, .closeItem] :=
    .item (.paragraph (hcontent "b") .nil) .nil
  have hbehind : Token.WellNested .blocks
      [.openParagraph, .inline [.text "c"], .closeParagraph] := .paragraph (hcontent "c") .nil
  have hbody : Token.WellNested .blocks
      [.openParagraph, .inline [.text "a"], .closeParagraph, .openList .ordered, .openItem,
        .openParagraph, .inline [.text "b"], .closeParagraph, .closeItem, .closeList .ordered,
        .openParagraph, .inline [.text "c"], .closeParagraph] :=
    .paragraph (hcontent "a") (.list .ordered hnested hbehind)
  exact .list .bullet (.item hbody .nil) .nil

/-- The item's bullets cover the nested item, which has numbers of its own. -/
theorem bullets_extendedItem :
    (convertTokens .standard extendedItem {}).toOption.map Conversion.bullets =
      some [⟨⟨3, 5⟩, .ordered⟩, ⟨⟨1, 7⟩, .unordered⟩] := by decide +kernel

theorem not_forall_wellNested_bullets_before :
    ¬∀ tokens c, Token.WellNested .blocks tokens → convertTokens .standard tokens {} = .ok c →
      c.bullets.Pairwise fun earlier later => Before later earlier := by
  intro hall
  obtain ⟨c, hc⟩ : ∃ c, convertTokens .standard extendedItem {} = .ok c :=
    exists_eq_ok_of_isOk (by decide +kernel)
  have hbullets := bullets_extendedItem
  rw [hc] at hbullets
  have horder := hall extendedItem c wellNested_extendedItem hc
  rw [Option.some.inj hbullets] at horder
  have hbefore : (7 : Int) ≤ 3 := (List.pairwise_cons.mp horder).1 _ List.mem_cons_self
  omega

end MarkdownEdits
