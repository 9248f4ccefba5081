import Mathlib.Data.List.Basic
import MarkdownEdits.RequestJson
import MarkdownEdits.Proofs.LeafRuns
import MarkdownEdits.Proofs.StylingForms

/-!
# Styles of running text

Each leaf of a conversion has the requests that what is active there calls for, and text apart
from leaves has none. The fonts of code blocks come behind all of these.
-/
namespace MarkdownEdits

/-- The request that sets attributes on a span. Its mask names them and no others. -/
def textStyleRequest (span : Span) (tab : Option String) (attributes : List (String × Json)) :
    Json :=
  .object [("updateTextStyle", .object [("range", (span.inTab tab).toJson),
    ("textStyle", .object attributes), ("fields", .text (",".intercalate (attributes.map (·.1))))])]

def fontAttribute (config : Config) : String × Json :=
  ("weightedFontFamily", .object [("fontFamily", .text config.codeFont)])

namespace Leaf

/-- The attributes of a leaf's characters. Its link is set on its own. -/
def attributes (l : Leaf) (config : Config) : List (String × Json) :=
  (if 0 < l.active.count .strong then [("bold", .bool true)] else []) ++
  (if 0 < l.active.count .emphasis then [("italic", .bool true)] else []) ++
  (if 0 < l.active.count .strikethrough then [("strikethrough", .bool true)] else []) ++
  if l.isCode then
    [fontAttribute config,
      ("foregroundColor", RequestForms.optionalColor Color.codeText.toJson),
      ("backgroundColor", RequestForms.optionalColor Color.codeBackground.toJson)]
  else []

/-- A request for the attributes, if there are any, and then one for the innermost link. -/
def requests (config : Config) (tab : Option String) (l : Leaf) : List Json :=
  (if l.attributes config = [] then []
    else [textStyleRequest l.span tab (l.attributes config)]) ++
  match l.active.links with
  | [] => []
  | url :: _ => [textStyleRequest l.span tab [("link", .object [("url", .text url)])]]

theorem start_lt_stop {l : Leaf} (h : l.text ≠ "") : l.span.start < l.span.stop := by
  have hpos := Utf16.length_pos h
  simp only [span]
  omega

end Leaf

namespace Leaf

private theorem entries_textStyle (l : Leaf) (config : Config) :
    ((l.active.formatting l.isCode).textStyle config.codeFont).entries = l.attributes config := by
  by_cases hstrong : 0 < l.active.count .strong <;>
  by_cases hemphasis : 0 < l.active.count .emphasis <;>
  by_cases hstrikethrough : 0 < l.active.count .strikethrough <;>
  by_cases hcode : l.isCode = true <;>
  simp [TextStyle.entries, TextAttributes.entries, Json.present, Formatting.textStyle,
    ActiveMarks.formatting, attributes, fontAttribute, hstrong, hemphasis, hstrikethrough, hcode]

private theorem hasStyle_formatting (l : Leaf) (config : Config) :
    (l.active.formatting l.isCode).hasStyle = true ↔ l.attributes config ≠ [] := by
  by_cases hstrong : 0 < l.active.count .strong <;>
  by_cases hemphasis : 0 < l.active.count .emphasis <;>
  by_cases hstrikethrough : 0 < l.active.count .strikethrough <;>
  by_cases hcode : l.isCode = true <;>
  simp [Formatting.hasStyle, ActiveMarks.formatting, attributes, hstrong, hemphasis,
    hstrikethrough, hcode]

theorem map_toJson_styleText (config : Config) (tab : Option String) {l : Leaf}
    (h : ∀ url ∈ l.active.links, url ≠ "") :
    (SpanRecords.styleText tab config l.styledText).map (fun s => (Request.styling s).toJson) =
      l.requests config tab := by
  have hentries := l.entries_textStyle config
  have hstyle := l.hasStyle_formatting config
  simp only [SpanRecords.styleText, requests, styledText, List.map_append]
  congr 1
  · by_cases hattributes : l.attributes config = []
    · have hnot : (l.active.formatting l.isCode).hasStyle = false := by
        rw [← Bool.not_eq_true, hstyle]
        exact fun hne => hne hattributes
      simp [hattributes, hnot]
    · have hshows := hstyle.mpr hattributes
      simp only [hattributes, hshows, ↓reduceIte, List.map_singleton, Request.toJson, hentries]
      rfl
  · cases hlinks : l.active.links with
    | nil => simp [ActiveMarks.formatting, hlinks]
    | cons url outer =>
      have hurl : url ≠ "" := h url (by simp [hlinks])
      simp only [ActiveMarks.formatting, hlinks, List.head?_cons, if_neg hurl]
      rfl

end Leaf

/-- Formatting that does not show calls for no requests. -/
theorem SpanRecords.flatMap_styleText_filter (tab : Option String) (config : Config)
    (texts : List StyledText) :
    (texts.filter fun text => text.formatting.isVisible).flatMap (styleText tab config) =
      texts.flatMap (styleText tab config) := by
  induction texts with
  | nil => rfl
  | cons text rest ih =>
    cases hvisible : text.formatting.isVisible with
    | true => simp [hvisible, ih]
    | false =>
      have hboth := hvisible
      rw [Formatting.isVisible_eq, Bool.or_eq_false_iff, Option.isSome_eq_false_iff,
        Option.isNone_iff_eq_none] at hboth
      obtain ⟨hstyle, hlink⟩ := hboth
      have hnone : styleText tab config text = [] := by
        rw [styleText, hlink, if_neg (Bool.eq_false_iff.mp hstyle)]
        rfl
      rw [List.filter_cons_of_neg (by simp [hvisible]), ih, List.flatMap_cons, hnone,
        List.nil_append]

/-! ## Conversions -/

def Conversion.textStyles (c : Conversion) : List Json :=
  (c.requests.filter fun r => r.kind == "updateTextStyle").map Request.toJson

/-- The spans of the texts in a draft's code blocks, empty ones apart. -/
def Draft.codeSpans (d : Draft) : List Span :=
  (d.records.codeBlocks.toList.map CodeBlock.text).filter fun span =>
    decide (span.start < span.stop)

private def isTextStyle (s : Styling) : Bool := (Request.styling s).kind == "updateTextStyle"

private theorem isTextStyle_paragraph (range : Range) (style : ParagraphStyle) :
    isTextStyle (.paragraph range style) = false := by
  simp [isTextStyle, Request.kind]

private theorem isTextStyle_bullets (range : Range) (preset : BulletPreset) :
    isTextStyle (.bullets range preset) = false := by
  simp [isTextStyle, Request.kind]

private theorem filter_requests (c : Conversion) :
    c.requests.filter (fun r => r.kind == "updateTextStyle") =
      (c.stylings.filter isTextStyle).map .styling := by
  have hinsertions : (c.insertions.map Request.insertion).filter
      (fun r => r.kind == "updateTextStyle") = [] := by
    apply List.filter_eq_nil_iff.mpr
    intro r hr
    obtain ⟨i, -, rfl⟩ := List.mem_map.mp hr
    cases i <;> simp [Request.kind]
  rw [Conversion.requests, List.filter_append, hinsertions, List.nil_append, List.filter_map]
  rfl

private theorem filter_styleCodeBlock (tab : Option String) (config : Config)
    (blocks : List CodeBlock) :
    (blocks.flatMap (SpanRecords.styleCodeBlock tab config)).filter isTextStyle =
      ((blocks.map CodeBlock.text).filter fun span => decide (span.start < span.stop)).map
        fun span => .text (span.inTab tab) { fontFamily := some config.codeFont } := by
  induction blocks with
  | nil => rfl
  | cons block rest ih =>
    rw [List.flatMap_cons, List.filter_append, ih]
    by_cases h : block.text.start < block.text.stop
    · simp [SpanRecords.styleCodeBlock, isTextStyle, Request.kind, h]
    · simp [SpanRecords.styleCodeBlock, isTextStyle, Request.kind, h]

/-- Of all stylings those of the styled texts and of the fonts of code are styles of texts. -/
private theorem filter_stylings (tab : Option String) (config : Config) (records : SpanRecords) :
    (records.stylings tab config).filter isTextStyle =
      records.styledTexts.toList.flatMap (SpanRecords.styleText tab config) ++
      (records.codeBlocks.toList.flatMap (SpanRecords.styleCodeBlock tab config)).filter
        isTextStyle := by
  have htexts : (records.styledTexts.toList.flatMap (SpanRecords.styleText tab config)).filter
      isTextStyle = records.styledTexts.toList.flatMap (SpanRecords.styleText tab config) := by
    apply List.filter_eq_self.mpr
    intro s hs
    obtain ⟨text, -, hs⟩ := List.mem_flatMap.mp hs
    obtain ⟨style, rfl⟩ := SpanRecords.eq_text_of_mem_styleText hs
    rfl
  have hheadings : (records.headings.toList.flatMap (SpanRecords.styleHeading tab)).filter
      isTextStyle = [] := by
    apply List.filter_eq_nil_iff.mpr
    intro s hs
    obtain ⟨heading, -, hs⟩ := List.mem_flatMap.mp hs
    obtain ⟨style, rfl⟩ := SpanRecords.eq_paragraph_of_mem_styleHeading hs
    simp [isTextStyle_paragraph]
  have hmap {α : Type} (f : α → Styling) (xs : List α) (h : ∀ x, isTextStyle (f x) = false) :
      (xs.map f).filter isTextStyle = [] := by
    apply List.filter_eq_nil_iff.mpr
    intro s hs
    obtain ⟨x, -, rfl⟩ := List.mem_map.mp hs
    simp [h]
  have hspaces := hmap (SpanRecords.spaceBelow tab config)
    (records.paragraphs.toList ++ records.listTails.toList) fun _ => isTextStyle_paragraph _ _
  have hrules := hmap (SpanRecords.drawRule tab) records.rules.toList fun _ =>
    isTextStyle_paragraph _ _
  have hbullets := hmap (SpanRecords.addBullets tab)
    (BulletSpan.descending (BulletSpan.ofItems records.items.toList)) fun _ =>
      isTextStyle_bullets _ _
  simp only [SpanRecords.stylings, List.filter_append, htexts, hheadings, hspaces, hrules, hbullets,
    List.append_nil]

theorem Conversion.textStyles_ofDraft (config : Config) (d : Draft) :
    (Conversion.ofDraft config d).textStyles =
      (d.records.styledTexts.toList.flatMap (SpanRecords.styleText d.tab config)).map
        (fun s => (Request.styling s).toJson) ++
      d.codeSpans.map fun span => textStyleRequest span d.tab [fontAttribute config] := by
  simp only [textStyles, filter_requests, ofDraft, Draft.stylings, filter_stylings,
    filter_styleCodeBlock, List.map_append, List.map_map]
  rfl

/-- The requests for the styles of texts are those that the leaves call for, in their order, and
then those for the fonts of code blocks. -/
structure Conversion.StylesLeaves (c : Conversion) (config : Config) (tab : Option String)
    (leaves : List Leaf) (codeSpans : List Span) : Prop where
  requests : c.textStyles = leaves.flatMap (Leaf.requests config tab) ++
    codeSpans.map fun span => textStyleRequest span tab [fontAttribute config]
  nonempty : ∀ l ∈ leaves, l.span.start < l.span.stop
  ordered : leaves.Pairwise fun a b => a.span.stop ≤ b.span.start
  inserted : (leaves.map fun l => Insertion.text ⟨l.index, tab⟩ l.text).Sublist c.insertions

theorem Draft.stylesLeaves {start : Int} {tab : Option String} {headingAsTitle : Bool}
    {tokens : List Token} {d : Draft} (config : Config)
    (h : (Draft.start start tab headingAsTitle).steps tokens = .ok d) :
    (Conversion.ofDraft config d).StylesLeaves config (namedTab tab)
      ((Draft.start start tab headingAsTitle).leaves .none (Token.atomsOf tokens)) d.codeSpans := by
  rw [← steps_atomsOf] at h
  have hatoms := Token.isAtom_of_mem_atomsOf tokens
  obtain ⟨pieces, he, -⟩ := emits_steps h
  have htab : d.tab = namedTab tab := he.tab
  have htexts := styledTexts_steps hatoms ActiveMarks.tracks_none h
  have hlays := laysLeaves_steps hatoms ActiveMarks.tracks_none h
  generalize (Draft.start start tab headingAsTitle).leaves .none (Token.atomsOf tokens) = leaves
    at htexts hlays
  constructor
  · rw [Conversion.textStyles_ofDraft, htexts, htab]
    congr 1
    have hnone : (Draft.start start tab headingAsTitle).records.styledTexts.toList = [] := rfl
    rw [hnone, List.nil_append, SpanRecords.flatMap_styleText_filter, List.flatMap_map,
      List.map_flatMap]
    exact List.flatMap_congr fun l hl => Leaf.map_toJson_styleText config _ (hlays.targets l hl)
  · exact fun l hl => Leaf.start_lt_stop (hlays.nonempty l hl)
  · exact hlays.ordered
  · exact hlays.inserted

theorem convertTokens_stylesLeaves {config : Config} {tokens : List Token} {o : Options}
    {c : Conversion} (h : convertTokens config tokens o = .ok c) :
    ∃ start tab d, o.startIndex = .ok start ∧ o.tabIdentifier = .ok tab ∧
      (Draft.start start tab (o.wantsTitle config)).steps tokens = .ok d ∧
        c.StylesLeaves config (namedTab tab)
          ((Draft.start start tab (o.wantsTitle config)).leaves .none (Token.atomsOf tokens))
          d.codeSpans := by
  obtain ⟨start, tab, d, hstart, htab, hrun, rfl⟩ := convertTokens_eq_ok.mp h
  exact ⟨start, tab, d, hstart, htab, hrun, Draft.stylesLeaves config hrun⟩

/-- Marks that overlap and are closed too often, in a link that is not. -/
def crossedMarks : List Token :=
  [.openParagraph, .inline [.text "a", .openMark .strong, .text "b", .openMark .emphasis,
    .codeSpan "😀", .closeMark .strong, .openLink (some "u"), .text "c", .closeMark .strong,
    .openMark .strong, .text "d"], .closeParagraph, .codeBlock "e" ""]

theorem convertTokens_stylesLeaves_crossedMarks :
    ∃ c, convertTokens .standard crossedMarks {} = .ok c ∧
      ∃ start tab d, Options.startIndex {} = .ok start ∧ Options.tabIdentifier {} = .ok tab ∧
        (Draft.start start tab (Options.wantsTitle {} .standard)).steps crossedMarks = .ok d ∧
          c.StylesLeaves .standard (namedTab tab)
            ((Draft.start start tab (Options.wantsTitle {} .standard)).leaves .none
              (Token.atomsOf crossedMarks)) d.codeSpans := by
  obtain ⟨c, hc⟩ : ∃ c, convertTokens .standard crossedMarks {} = .ok c :=
    exists_eq_ok_of_isOk (by decide +kernel)
  exact ⟨c, hc, convertTokens_stylesLeaves hc⟩

end MarkdownEdits
