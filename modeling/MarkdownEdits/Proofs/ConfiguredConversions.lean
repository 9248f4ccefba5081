import MarkdownEdits.Proofs.RelocatedConversions

/-!
# Conversions under other configurations

A configuration shows in fields of two names: in the font of code, and in the space below paragraphs
and lists. All else about the requests of a conversion is the same under every configuration,
provided that the arguments say whether a title is wanted.
-/
namespace MarkdownEdits
namespace Json

def setMagnitude (space : Binary64) (name : String) (value : Json) : Json :=
  if name = "magnitude" then .real space else value

/-- The value of a field under a configuration: its font, a space below with its magnitude, and else
the value as it is. -/
def setConfigured (config : Config) (name : String) (value : Json) : Json :=
  if name = "fontFamily" then .text config.codeFont
  else if name = "spaceBelow" then value.mapFields (setMagnitude config.paragraphSpacing)
  else value

/-- The value with all fonts and all spaces below as a configuration wants them. -/
def configured (config : Config) (j : Json) : Json := j.mapFields (setConfigured config)

theorem mapFieldsOf_append (f : String → Json → Json) (fields others : List (String × Json)) :
    mapFieldsOf f (fields ++ others) = mapFieldsOf f fields ++ mapFieldsOf f others := by
  induction fields with
  | nil => rfl
  | cons field rest ih => simp [mapFieldsOf, ih]

/-- The fields that are present are changed each by itself. -/
theorem mapFieldsOf_present (f : String → Json → Json) (fields : List (String × Option Json)) :
    mapFieldsOf f (present fields) = present (fields.map fun (name, given) =>
      (name, given.map fun value => f name (value.mapFields f))) := by
  induction fields with
  | nil => rfl
  | cons field rest ih =>
    obtain ⟨name, given⟩ := field
    rw [List.map_cons, present_cons, present_cons, mapFieldsOf_append, ih]
    cases given <;> rfl

/-- A mask lists names, and these do not change. -/
theorem mask_mapFieldsOf (f : String → Json → Json) (fields : List (String × Json)) :
    RequestForms.mask (mapFieldsOf f fields) = RequestForms.mask fields := by
  have hnames : (mapFieldsOf f fields).map (·.1) = fields.map (·.1) := by
    induction fields with
    | nil => rfl
    | cons field rest ih => simp [mapFieldsOf, ih]
  rw [RequestForms.mask, hnames, RequestForms.mask]

end Json

open Json

variable (config : Config)

/-! ## Parts of requests -/

theorem Location.mapFields_toJson (l : Location) :
    l.toJson.mapFields (setConfigured config) = l.toJson := by
  obtain ⟨index, _ | tab⟩ := l <;> rfl

theorem Range.mapFields_toJson (range : Range) :
    range.toJson.mapFields (setConfigured config) = range.toJson := by
  obtain ⟨span, _ | tab⟩ := range <;> rfl

theorem Color.mapFields_optionalColor (c : Color) :
    (RequestForms.optionalColor c.toJson).mapFields (setConfigured config) =
      RequestForms.optionalColor c.toJson := by
  obtain ⟨red, green, blue⟩ := c
  cases red <;> cases green <;> cases blue <;> rfl

/-- The style with the font of a configuration in the place of its own. -/
def TextStyle.configured (s : TextStyle) : TextStyle :=
  { s with fontFamily := s.fontFamily.map fun _ => config.codeFont }

def ParagraphStyle.configured : ParagraphStyle → ParagraphStyle
  | spaceBelow _ => spaceBelow (.real config.paragraphSpacing)
  | s => s

theorem TextStyle.entries_configured (s : TextStyle) :
    (s.configured config).entries = mapFieldsOf (setConfigured config) s.entries := by
  have hlink : mapFieldsOf (setConfigured config)
      (s.link.map fun url => RequestForms.link (.text url)).toList =
        (s.link.map fun url => RequestForms.link (.text url)).toList := by
    cases s.link <;> rfl
  simp only [entries, TextAttributes.entries, configured, mapFieldsOf_append, mapFieldsOf_present,
    hlink, List.map_cons, List.map_nil, Option.map_map, Function.comp_def, mapFields, mapFieldsOf,
    Color.mapFields_optionalColor]
  simp only [setConfigured, String.reduceEq, reduceIte]

theorem ParagraphStyle.entry_configured (s : ParagraphStyle) :
    (s.configured config).entry =
      (s.entry.1, setConfigured config s.entry.1 (s.entry.2.mapFields (setConfigured config))) := by
  cases s with
  | named style => rfl
  | spaceBelow space => rfl
  | borderBottom border =>
    simp only [configured, entry, RequestForms.borderBottom, RequestForms.points, mapFields,
      mapFieldsOf, Color.mapFields_optionalColor]
    simp only [setConfigured, String.reduceEq, reduceIte]

theorem CellStyle.mapFieldsOf_entries (s : CellStyle) :
    mapFieldsOf (setConfigured config) s.entries = s.entries := by
  simp only [entries, RequestForms.cell, RequestForms.points, mapFields, mapFieldsOf,
    Color.mapFields_optionalColor]
  simp only [setConfigured, String.reduceEq, reduceIte]

/-! ## Requests -/

def Styling.configured : Styling → Styling
  | text range style => text range (style.configured config)
  | paragraph range style => paragraph range (style.configured config)
  | s => s

def Request.configured : Request → Request
  | insertion i => insertion i
  | styling s => styling (s.configured config)

theorem Request.toJson_configured (r : Request) :
    (r.configured config).toJson = r.toJson.configured config := by
  have hmask (fields : List (String × Json)) :
      (RequestForms.mask fields).mapFields (setConfigured config) = RequestForms.mask fields := rfl
  have hname (entry : String × Json) (value : Json) :
      RequestForms.mask [(entry.1, value)] = RequestForms.mask [entry] := rfl
  rcases r with (_ | _) | (_ | _ | _ | _) <;>
    simp only [configured, Styling.configured, Json.configured, toJson, RequestForms.insertText,
      RequestForms.insertTable, RequestForms.updateTextStyle, RequestForms.updateParagraphStyle,
      RequestForms.createBullets, RequestForms.updateCellStyle, integer, mapFields, mapFieldsOf,
      Location.mapFields_toJson, Range.mapFields_toJson, TextStyle.entries_configured,
      ParagraphStyle.entry_configured, CellStyle.mapFieldsOf_entries, mask_mapFieldsOf, hmask,
      hname] <;>
    simp only [setConfigured, String.reduceEq, reduceIte]

/-! ## Stylings of a draft -/

namespace SpanRecords

variable (tab : Option String) (config config' : Config)

theorem styleText_configured (text : StyledText) :
    styleText tab config' text = (styleText tab config text).map (·.configured config') := by
  have hstyle : text.formatting.textStyle config'.codeFont =
      (text.formatting.textStyle config.codeFont).configured config' := by
    simp only [Formatting.textStyle, TextStyle.configured]
    split <;> rfl
  simp only [styleText, hstyle, List.map_append, apply_ite (List.map _), List.map_nil,
    List.map_singleton]
  congr 1
  split
  · split <;> rfl
  · rfl

theorem styleHeading_configured (heading : Heading) :
    (styleHeading tab heading).map (·.configured config') = styleHeading tab heading := by
  rw [styleHeading]
  split
  · split <;> rfl
  · rfl

theorem styleCodeBlock_configured (block : CodeBlock) :
    styleCodeBlock tab config' block =
      (styleCodeBlock tab config block).map (·.configured config') := by
  simp only [styleCodeBlock, List.map_append, apply_ite (List.map _), List.map_nil,
    List.map_singleton]
  rfl

theorem stylings_configured (records : SpanRecords) : records.stylings tab config' =
    (records.stylings tab config).map (·.configured config') := by
  simp only [stylings, List.map_append, List.map_flatMap, List.map_map,
    styleHeading_configured, ← styleText_configured, ← styleCodeBlock_configured]
  rfl

end SpanRecords

/-! ## Conversions -/

/-- The conversion with the fonts and the spaces below of a configuration. -/
def Conversion.configured (c : Conversion) : Conversion :=
  { c with stylings := c.stylings.map (·.configured config) }

theorem Conversion.ofDraft_configured (config config' : Config) (d : Draft) :
    ofDraft config' d = (ofDraft config d).configured config' := by
  have hstylings : d.stylings config' = (d.stylings config).map (·.configured config') :=
    d.records.stylings_configured d.tab config config'
  simp only [ofDraft, configured, hstylings, List.length_map]

theorem Conversion.sent_configured (c : Conversion) :
    (c.configured config).sent = c.sent.map (·.configured config) := by
  have hinsertion (i : Insertion) :
      (Request.insertion i).toJson.configured config = (Request.insertion i).toJson :=
    ((Request.insertion i).toJson_configured config).symm
  have hstyling (s : Styling) : (Request.styling (s.configured config)).toJson =
      (Request.styling s).toJson.configured config := (Request.styling s).toJson_configured config
  simp only [sent, requests, configured, List.map_append, List.map_map, Function.comp_def,
    hinsertion, hstyling]

/-- Whether a title is wanted does not depend on the configuration where the arguments say it. -/
theorem Options.wantsTitle_of_given {o : Options} (h : o.headingAsTitle ≠ .null)
    (config config' : Config) : o.wantsTitle config' = o.wantsTitle config := by
  obtain ⟨start, tab, headingAsTitle⟩ := o
  cases headingAsTitle with
  | null => exact absurd rfl h
  | _ => rfl

theorem convertTokens_configured (tokens : List Token) {o : Options}
    (h : o.headingAsTitle ≠ .null) (config config' : Config) :
    convertTokens config' tokens o =
      (convertTokens config tokens o).map (·.configured config') := by
  rw [convertTokens_eq_bind, convertTokens_eq_bind, Options.wantsTitle_of_given h config config']
  cases o.place with
  | error failure => rfl
  | ok place =>
    simp only [Except.bind, Draft.conversion]
    cases (Draft.start place.1 place.2 (o.wantsTitle config)).steps tokens with
    | error e => rfl
    | ok d => exact congrArg Except.ok (Conversion.ofDraft_configured config config' d)

/-- A conversion under another configuration is the same conversion with the fonts and the spaces
below of that configuration: it fails in the same way, it inserts the same, and its requests differ
in nothing else. The fonts and the spaces below of a conversion are those of its own
configuration. -/
theorem convertTokens_reconfigures (tokens : List Token) {o : Options}
    (h : o.headingAsTitle ≠ .null) (config config' : Config) :
    (convertTokens config' tokens o).map Conversion.sent =
        ((convertTokens config tokens o).map fun c => c.sent.map (·.configured config')) ∧
      ((convertTokens config' tokens o).map fun c => (c.insertions, c.log)) =
        ((convertTokens config tokens o).map fun c => (c.insertions, c.log)) ∧
      ∀ c, convertTokens config tokens o = .ok c →
        ∀ request ∈ c.sent, request.configured config = request := by
  refine ⟨?_, ?_, ?_⟩
  · rw [convertTokens_configured tokens h config config']
    cases convertTokens config tokens o with
    | error failure => rfl
    | ok c => exact congrArg Except.ok (c.sent_configured config')
  · rw [convertTokens_configured tokens h config config']
    cases convertTokens config tokens o <;> rfl
  · intro c hc
    have hself := convertTokens_configured tokens h config config
    rw [hc] at hself
    have hsent := congrArg Conversion.sent (Except.ok.inj hself)
    rw [Conversion.sent_configured] at hsent
    exact List.map_inj_left.mp (hsent.symm.trans (List.map_id _).symm)

/-- Code in a line and as a block, in a list too, and a heading of the first level. -/
def codeAmongBlocks : List Token :=
  [.openHeading "h1", .inline [.codeSpan "t"], .closeHeading, .openParagraph,
    .inline [.openLink (some "u"), .codeSpan "a", .closeLink, .text "b"], .closeParagraph,
    .openList .bullet, .openItem, .openParagraph, .inline [.codeSpan "c"], .closeParagraph,
    .closeItem, .closeList .bullet, .codeBlock "x\n" "lean", .rule]

/-- A configuration that shares nothing with the standard one. -/
def typewriter : Config := ⟨true, "Courier New", Binary64.ofRatio false 27 2, false, true⟩

theorem convertTokens_reconfigures_codeAmongBlocks :
    (Json.bool false ≠ .null) ∧ ∃ c c',
      convertTokens .standard codeAmongBlocks ⟨.integer 5, .text "t", .bool false⟩ = .ok c ∧
      convertTokens typewriter codeAmongBlocks ⟨.integer 5, .text "t", .bool false⟩ = .ok c' ∧
      c'.stylings ≠ c.stylings ∧
      c'.sent = c.sent.map (·.configured typewriter) ∧ c'.insertions = c.insertions ∧
      ∀ request ∈ c.sent, request.configured .standard = request := by
  have hgiven : Json.bool false ≠ .null := nofun
  obtain ⟨c, hc⟩ : ∃ c, convertTokens .standard codeAmongBlocks
      ⟨.integer 5, .text "t", .bool false⟩ = .ok c := exists_eq_ok_of_isOk (by decide +kernel)
  obtain ⟨c', hc'⟩ : ∃ c', convertTokens typewriter codeAmongBlocks
      ⟨.integer 5, .text "t", .bool false⟩ = .ok c' := exists_eq_ok_of_isOk (by decide +kernel)
  have hdiffer : (convertTokens typewriter codeAmongBlocks
      ⟨.integer 5, .text "t", .bool false⟩).toOption.map (·.stylings) ≠
        (convertTokens .standard codeAmongBlocks
          ⟨.integer 5, .text "t", .bool false⟩).toOption.map (·.stylings) := by
    decide +kernel
  obtain ⟨hsent, hsame, hself⟩ := convertTokens_reconfigures codeAmongBlocks
    (o := ⟨.integer 5, .text "t", .bool false⟩) hgiven .standard typewriter
  rw [hc, hc'] at hsent hsame hdiffer
  exact ⟨hgiven, c, c', hc, hc', fun h => hdiffer (congrArg some h), Except.ok.inj hsent,
    congrArg Prod.fst (Except.ok.inj hsame), hself c hc⟩

end MarkdownEdits
