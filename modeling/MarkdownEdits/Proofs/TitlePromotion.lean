import Mathlib.Data.List.Lookmap
import MarkdownEdits.Proofs.ClosedHeadings
import MarkdownEdits.Proofs.RelocatedConversions
import MarkdownEdits.Proofs.StylingForms

/-!
# Promotion to the title

Where a title is wanted, the first heading of the first level becomes the title. A run that wants
one is the run that wants none with what is known of titles changed at the end: one heading, and so
one request, is replaced, and nothing else is different.
-/
namespace MarkdownEdits

/-! ## The first entry that is replaced -/

section FirstReplaced

variable {α : Type} {f : α → Option α}

theorem lookmap_append (l m : List α) : (l ++ m).lookmap f =
    if l.any fun a => (f a).isSome then l.lookmap f ++ m else l ++ m.lookmap f := by
  induction l with
  | nil => rfl
  | cons a rest ih =>
    cases ha : f a with
    | none =>
      rw [List.cons_append, List.lookmap_cons_none f _ ha, List.lookmap_cons_none f _ ha, ih]
      simp only [List.any_cons, ha, Option.isSome_none, Bool.false_or]
      split <;> rfl
    | some b =>
      rw [List.cons_append, List.lookmap_cons_some f _ ha, List.lookmap_cons_some f _ ha]
      simp [ha]

theorem lookmap_append_of_none_left {l : List α} (h : ∀ a ∈ l, f a = none) (m : List α) :
    (l ++ m).lookmap f = l ++ m.lookmap f := by
  rw [lookmap_append, if_neg]
  simp +contextual [h]

theorem lookmap_append_of_none_right (l : List α) {m : List α} (h : ∀ a ∈ m, f a = none) :
    (l ++ m).lookmap f = l.lookmap f ++ m := by
  rw [lookmap_append, List.lookmap_of_forall_not f h]
  split
  · rfl
  · rename_i hnone
    rw [List.lookmap_of_forall_not f (by simpa using hnone)]

/-- At most one entry is replaced. -/
theorem countP_lookmap_le {l : List α} {q : α → Bool} (h : ∀ a ∈ l, q a = false) :
    (l.lookmap f).countP q ≤ 1 := by
  induction l with
  | nil => exact Nat.zero_le 1
  | cons a rest ih =>
    obtain ⟨ha, hrest⟩ := List.forall_mem_cons.mp h
    cases hf : f a with
    | none =>
      rw [List.lookmap_cons_none f _ hf, List.countP_cons_of_neg (by simp [ha])]
      exact ih hrest
    | some b =>
      have hnone : rest.countP q = 0 := List.countP_eq_zero.mpr (by simpa using hrest)
      rw [List.lookmap_cons_some f _ hf, List.countP_cons, hnone]
      split <;> decide

end FirstReplaced

/-! ## Titles of drafts -/

/-- A heading of the first level as the title. -/
def Heading.titled? (heading : Heading) : Option Heading :=
  if heading.style = some (.heading .h1) then some { heading with style := some .title } else none

/-- The title as a heading of the first level. -/
def Heading.untitled (heading : Heading) : Heading :=
  if heading.style = some .title then { heading with style := some (.heading .h1) } else heading

theorem Heading.style_untitled_ne (heading : Heading) : heading.untitled.style ≠ some .title := by
  rw [untitled]
  split
  · exact fun h => NamedStyle.heading_ne_title .h1 (Option.some.inj h)
  · assumption

theorem NamedStyle.heading_eq_h1 {level : HeadingLevel} :
    heading level = heading .h1 ↔ level = .h1 := by
  cases level <;> decide

theorem Heading.titled?_heading (span : Span) (level : HeadingLevel) :
    titled? ⟨span, some (.heading level)⟩ =
      if level = .h1 then some ⟨span, some .title⟩ else none := by
  simp only [titled?, Option.some.injEq, NamedStyle.heading_eq_h1]

theorem Heading.HasLevel.untitled_eq {heading : Heading} {level : HeadingLevel}
    (h : heading.HasLevel level) :
    heading.untitled = { heading with style := some (.heading level) } := by
  obtain ⟨span, style⟩ := heading
  rcases h with hlevel | ⟨htitle, rfl⟩
  · cases hlevel
    exact if_neg fun h => NamedStyle.heading_ne_title level (Option.some.inj h)
  · cases htitle
    rfl

namespace Titles

/-- What would be known of titles if one had been wanted. -/
def promoted (t : Titles) : Titles :=
  if t.wanted || t.used then { t with wanted := true }
  else ⟨true, t.headings.any (·.titled?.isSome), t.headings.lookmap Heading.titled?⟩

/-- What would be known of titles if none had been wanted. -/
def demoted (t : Titles) : Titles := ⟨false, false, t.headings.map Heading.untitled⟩

theorem promoted_close (t : Titles) (level : HeadingLevel) (span : Span) :
    (t.close level span).promoted = t.promoted.close level span := by
  obtain ⟨wanted, used, headings⟩ := t
  cases wanted with
  | true => rfl
  | false =>
    cases used with
    | true => rfl
    | false =>
      -- The heading is replaced if it has the first level and none in front of it is replaced.
      have hpromoted (headings : List Heading) : promoted ⟨false, false, headings⟩ =
          ⟨true, headings.any (·.titled?.isSome), headings.lookmap Heading.titled?⟩ := rfl
      have hclose : close ⟨false, false, headings⟩ level span =
          ⟨false, false, headings ++ [⟨span, some (.heading level)⟩]⟩ := rfl
      rw [hclose, hpromoted, hpromoted, lookmap_append]
      cases hany : headings.any (·.titled?.isSome) with
      | true => simp [close, hany]
      | false =>
        have hself : headings.lookmap Heading.titled? = headings :=
          List.lookmap_of_forall_not _ (by simpa using hany)
        by_cases hlevel : level = .h1 <;>
          simp [close, hany, hself, Heading.titled?_heading, hlevel]

theorem demoted_close (t : Titles) (level : HeadingLevel) (span : Span) :
    (t.close level span).demoted = t.demoted.close level span := by
  have huntitled : Heading.untitled
      ⟨span, some (if t.wanted && !t.used && level == .h1 then .title else .heading level)⟩ =
        ⟨span, some (.heading level)⟩ := (t.hasLevel_close level span).untitled_eq
  simp only [demoted, close, List.map_append, List.map_singleton, huntitled]
  rfl

end Titles

namespace Recasting

/-- Makes of a draft what it would be if a title had been wanted. -/
def promotion : Recasting where
  toRelocation := .by 0
  titles := Titles.promoted
  titles_close t level span := by
    rw [Titles.promoted_close]
    exact congrArg _ span.shift_zero.symm

/-- Makes of a draft what it would be if no title had been wanted. -/
def demotion : Recasting where
  toRelocation := .by 0
  titles := Titles.demoted
  titles_close t level span := by
    rw [Titles.demoted_close]
    exact congrArg _ span.shift_zero.symm

end Recasting

namespace Draft

theorem start_promotion (first : Int) (tab : Option String) :
    .start first tab true = (Draft.start first tab false).recast .promotion := by
  simp [start, recast, Recasting.promotion, Relocation.by, titles, Titles.promoted,
    SpanRecords.recast]

theorem start_demotion (first : Int) (tab : Option String) :
    .start first tab false = (Draft.start first tab false).recast .demotion := by
  simp [start, recast, Recasting.demotion, Relocation.by, titles, Titles.demoted,
    SpanRecords.recast]

/-- A run that wants no title knows of none. -/
theorem titles_of_unwanted {first : Int} {tab : Option String} {tokens : List Token} {d : Draft}
    (h : (Draft.start first tab false).steps tokens = .ok d) : d.titles = d.titles.demoted := by
  have hsteps := steps_recast .demotion (Draft.start first tab false) tokens
  rw [← start_demotion, h] at hsteps
  have hself : d = d.recast .demotion := Except.ok.inj hsteps
  exact congrArg titles hself

theorem style_ne_title_of_unwanted {first : Int} {tab : Option String} {tokens : List Token}
    {d : Draft} (h : (Draft.start first tab false).steps tokens = .ok d) :
    ∀ heading ∈ d.records.headings.toList, heading.style ≠ some .title := by
  intro heading hheading
  have hheadings : d.records.headings.toList = d.records.headings.toList.map Heading.untitled :=
    congrArg Titles.headings (titles_of_unwanted h)
  rw [hheadings, List.mem_map] at hheading
  obtain ⟨old, _, rfl⟩ := hheading
  exact old.style_untitled_ne

end Draft

/-! ## Titles of requests -/

namespace Request

def isTitle : Request → Bool
  | styling (.paragraph _ (.named style)) => style == .title
  | _ => false

theorem isTitle_iff {request : Request} : request.isTitle = true ↔
    ∃ range, request = styling (.paragraph range (.named .title)) := by
  constructor
  · intro h
    rcases request with _ | (_ | ⟨range, style⟩ | _ | _)
    · cases h
    · cases h
    · cases style with
      | named style => exact ⟨range, by rw [beq_iff_eq.mp h]⟩
      | _ => cases h
    · cases h
    · cases h
  · rintro ⟨range, rfl⟩
    rfl

/-- A request for a heading of the first level, with the style of the title. -/
def titled? : Request → Option Request
  | styling (.paragraph range (.named style)) =>
    if style = .heading .h1 then some (styling (.paragraph range (.named .title))) else none
  | _ => none

end Request

namespace SpanRecords

variable {tab : Option String} {config : Config} {records : SpanRecords} {s : Styling}

theorem titled?_of_mem_textStylings (h : s ∈ records.textStylings tab config) :
    (Request.styling s).titled? = none := by
  obtain ⟨text, _, hs⟩ := List.mem_flatMap.mp h
  obtain ⟨style, rfl⟩ := eq_text_of_mem_styleText hs
  rfl

theorem titled?_of_mem_blockStylings (h : s ∈ records.blockStylings tab config) :
    (Request.styling s).titled? = none := by
  simp only [blockStylings, List.mem_append, List.mem_map, List.mem_flatMap] at h
  rcases h with ((⟨span, _, rfl⟩ | ⟨block, _, hs⟩) | ⟨span, _, rfl⟩) | ⟨bullets, _, rfl⟩
  · rfl
  · rcases mem_styleCodeBlock hs with rfl | rfl <;> rfl
  · rfl
  · rfl

/-- The heading that is replaced gives the request that is replaced. -/
theorem map_styleHeading_lookmap (tab : Option String) (headings : List Heading) :
    ((headings.lookmap Heading.titled?).flatMap (styleHeading tab)).map Request.styling =
      ((headings.flatMap (styleHeading tab)).map Request.styling).lookmap Request.titled? := by
  induction headings with
  | nil => rfl
  | cons heading rest ih =>
    obtain ⟨span, style⟩ := heading
    by_cases hstyle : style = some (.heading .h1)
    · have hone : Heading.titled? ⟨span, style⟩ = some ⟨span, some .title⟩ := if_pos hstyle
      rw [List.lookmap_cons_some _ _ hone, hstyle]
      rfl
    · have hone : Heading.titled? ⟨span, style⟩ = none := if_neg hstyle
      have hrequests : ∀ request ∈ (styleHeading tab ⟨span, style⟩).map Request.styling,
          request.titled? = none := by
        intro request hrequest
        obtain ⟨s, hs, rfl⟩ := List.mem_map.mp hrequest
        obtain ⟨named, hnamed, rfl⟩ := eq_named_of_mem_styleHeading hs
        exact if_neg fun h => hstyle (hnamed.trans (congrArg some h))
      rw [List.lookmap_cons_none _ _ hone, List.flatMap_cons, List.flatMap_cons, List.map_append,
        List.map_append, ih, lookmap_append_of_none_left hrequests]

end SpanRecords

/-- The requests of a draft that is promoted are those of the draft with the first heading of the
first level made the title. -/
theorem Conversion.requests_promotion (config : Config) {d : Draft}
    (hwanted : d.headingAsTitle = false) (hused : d.titleUsed = false) :
    (ofDraft config (d.recast .promotion)).requests =
      (ofDraft config d).requests.lookmap Request.titled? := by
  have htitles : (Recasting.promotion.titles d.titles).headings =
      d.records.headings.toList.lookmap Heading.titled? := by
    simp [Recasting.promotion, Titles.promoted, Draft.titles, hwanted, hused]
  have hinsertions : (d.recast .promotion).insertions.toList = d.insertions.toList := by
    have hself (i : Insertion) : i.relocate Recasting.promotion.toRelocation = i :=
      i.relocate_by_zero
    simp only [Draft.recast, Array.toList_map, hself, List.map_id']
  have hstylings : (d.recast .promotion).stylings config =
      d.records.textStylings d.tab config ++
        ((d.records.headings.toList.lookmap Heading.titled?).flatMap
          (SpanRecords.styleHeading d.tab) ++ d.records.blockStylings d.tab config) := by
    have hself (s : Styling) : s.relocate Recasting.promotion.toRelocation = s :=
      s.relocate_by_zero
    simp only [Draft.stylings_recast, htitles, hself, List.map_id']
    rfl
  have hplain : d.stylings config = _ := SpanRecords.stylings_eq d.tab config d.records
  simp only [requests, ofDraft, hinsertions, hstylings, hplain, List.map_append]
  rw [lookmap_append_of_none_left, lookmap_append_of_none_left, lookmap_append_of_none_right,
    SpanRecords.map_styleHeading_lookmap]
  · intro request hrequest
    obtain ⟨s, hs, rfl⟩ := List.mem_map.mp hrequest
    exact SpanRecords.titled?_of_mem_blockStylings hs
  · intro request hrequest
    obtain ⟨s, hs, rfl⟩ := List.mem_map.mp hrequest
    exact SpanRecords.titled?_of_mem_textStylings hs
  · intro request hrequest
    obtain ⟨i, _, rfl⟩ := List.mem_map.mp hrequest
    rfl

/-- The requests that give a name to a paragraph are those for the headings. -/
theorem Conversion.exists_heading_of_named_mem {config : Config} {d : Draft} {range : Range}
    {style : NamedStyle}
    (h : .styling (.paragraph range (.named style)) ∈ (ofDraft config d).requests) :
    ∃ heading ∈ d.records.headings.toList,
      heading.style = some style ∧ range = heading.span.inTab d.tab := by
  have hstyling : .paragraph range (.named style) ∈ d.stylings config := by
    simpa [requests, ofDraft] using h
  rcases SpanRecords.mem_stylings.mp hstyling with
    ⟨_, _, hs⟩ | ⟨heading, hheading, hs⟩ | ⟨_, _, hs⟩ | ⟨_, _, hs⟩ | ⟨_, _, hs⟩ | ⟨_, _, hs⟩
  · obtain ⟨_, hform⟩ := SpanRecords.eq_text_of_mem_styleText hs
    cases hform
  · obtain ⟨_, hstyle, hform⟩ := SpanRecords.eq_named_of_mem_styleHeading hs
    cases hform
    exact ⟨heading, hheading, hstyle, rfl⟩
  · cases hs
  · rcases SpanRecords.mem_styleCodeBlock hs with hform | hform <;> cases hform
  · cases hs
  · cases hs

/-! ## Conversions -/

/-- Of what is said about the title only whether one is wanted counts. -/
theorem convertTokens_of_wantsTitle (config : Config) (tokens : List Token) (o : Options) :
    convertTokens config tokens o =
      convertTokens config tokens { o with headingAsTitle := .bool (o.wantsTitle config) } := rfl

/-- A conversion that wants the title is the one that does not, with one request replaced. -/
theorem convertTokens_promotion (config : Config) (tokens : List Token) (start tab : Json) :
    (convertTokens config tokens ⟨start, tab, .bool true⟩).map Conversion.requests =
      (convertTokens config tokens ⟨start, tab, .bool false⟩).map fun c =>
        c.requests.lookmap Request.titled? := by
  have hplace : Options.place ⟨start, tab, .bool true⟩ =
      (Options.place ⟨start, tab, .bool false⟩).map id := by
    cases hok : Options.place ⟨start, tab, .bool false⟩ <;> exact hok
  refine convertTokens_recast .promotion (List.lookmap Request.titled?) id hplace
    (fun place => Draft.start_promotion place.1 place.2) fun place d hd => ?_
  have htitles : d.titles = d.titles.demoted := Draft.titles_of_unwanted hd
  exact Conversion.requests_promotion config (congrArg Titles.wanted htitles)
    (congrArg Titles.used htitles)

/-- Without a title being wanted no request is for one. -/
theorem isTitle_of_unwanted {config : Config} {tokens : List Token} {o : Options} {c : Conversion}
    (hwants : o.wantsTitle config = false) (hc : convertTokens config tokens o = .ok c) :
    ∀ request ∈ c.requests, request.isTitle = false := by
  obtain ⟨first, tab, d, _, _, hd, rfl⟩ := convertTokens_eq_ok.mp hc
  rw [hwants] at hd
  intro request hrequest
  rw [Bool.eq_false_iff]
  intro htitle
  obtain ⟨range, rfl⟩ := Request.isTitle_iff.mp htitle
  obtain ⟨heading, hheading, hstyle, _⟩ := Conversion.exists_heading_of_named_mem hrequest
  exact Draft.style_ne_title_of_unwanted hd heading hheading hstyle

/-- With the title wanted a conversion makes the same requests, but for the first one that is for a
heading of the first level, which is for the title. So at most one request is for the title, it is
for a heading of the first level, and none is without the title being wanted. -/
theorem convertTokens_promotesTitle (config : Config) (tokens : List Token) :
    (∀ start tab,
      (convertTokens config tokens ⟨start, tab, .bool true⟩).map Conversion.requests =
        (convertTokens config tokens ⟨start, tab, .bool false⟩).map fun c =>
          c.requests.lookmap Request.titled?) ∧
      ∀ o c, convertTokens config tokens o = .ok c →
        (o.wantsTitle config = false → ∀ request ∈ c.requests, request.isTitle = false) ∧
        c.requests.countP Request.isTitle ≤ 1 ∧
        ∀ range, .styling (.paragraph range (.named .title)) ∈ c.requests →
          ∃ first tab, o.startIndex = .ok first ∧ o.tabIdentifier = .ok tab ∧
            (Draft.start first tab (o.wantsTitle config)).ClosesHeading (Token.atomsOf tokens) .h1
              range.span := by
  refine ⟨convertTokens_promotion config tokens, fun o c hc => ⟨?_, ?_, ?_⟩⟩
  · exact fun hwants => isTitle_of_unwanted hwants hc
  · cases hwants : o.wantsTitle config with
    | false =>
      have hnone : c.requests.countP Request.isTitle = 0 := List.countP_eq_zero.mpr fun request h =>
        by simp [isTitle_of_unwanted hwants hc request h]
      exact hnone ▸ Nat.zero_le 1
    | true =>
      rw [convertTokens_of_wantsTitle, hwants] at hc
      have hrequests := convertTokens_promotion config tokens o.start o.tab
      rw [hc] at hrequests
      cases hplain : convertTokens config tokens ⟨o.start, o.tab, .bool false⟩ with
      | error failure =>
        rw [hplain] at hrequests
        cases hrequests
      | ok plain =>
        rw [hplain] at hrequests
        have hreplaced : c.requests = plain.requests.lookmap Request.titled? :=
          Except.ok.inj hrequests
        rw [hreplaced]
        exact countP_lookmap_le (isTitle_of_unwanted rfl hplain)
  · intro range hrange
    obtain ⟨first, tab, d, hfirst, htab, hd, rfl⟩ := convertTokens_eq_ok.mp hc
    obtain ⟨heading, hheading, hstyle, rfl⟩ := Conversion.exists_heading_of_named_mem hrange
    rw [← Draft.steps_atomsOf] at hd
    obtain ⟨level, hcloses, hlevel⟩ := Draft.recordsClosed_of_steps rfl rfl
      (Token.isAtom_of_mem_atomsOf tokens) hd heading hheading
    rw [hlevel.of_title hstyle] at hcloses
    exact ⟨first, tab, hfirst, htab, hcloses⟩

/-- Headings of the second level and twice of the first, the first of them in an item. -/
def headingsInTurn : List Token :=
  [.openHeading "h2", .inline [.text "a"], .closeHeading, .openList .bullet, .openItem,
    .openHeading "h1", .inline [.text "b"], .closeHeading, .closeItem, .closeList .bullet,
    .openHeading "h1", .inline [.text "c"], .closeHeading]

/-- The names that stylings give to paragraphs, with the spans of the paragraphs. -/
def Request.namedSpan? : Request → Option (Span × NamedStyle)
  | styling (.paragraph range (.named style)) => some (range.span, style)
  | _ => none

theorem convertTokens_promotesTitle_headingsInTurn : ∃ c plain,
    convertTokens .standard headingsInTurn ⟨.integer 1, .null, .bool true⟩ = .ok c ∧
      convertTokens .standard headingsInTurn ⟨.integer 1, .null, .bool false⟩ = .ok plain ∧
      plain.requests.filterMap Request.namedSpan? =
        [(⟨1, 2⟩, .heading .h2), (⟨3, 4⟩, .heading .h1), (⟨5, 6⟩, .heading .h1)] ∧
      c.requests.filterMap Request.namedSpan? =
        [(⟨1, 2⟩, .heading .h2), (⟨3, 4⟩, .title), (⟨5, 6⟩, .heading .h1)] ∧
      c.requests = plain.requests.lookmap Request.titled? ∧
      c.requests.countP Request.isTitle ≤ 1 ∧
      ∀ request ∈ plain.requests, request.isTitle = false := by
  obtain ⟨c, hc⟩ : ∃ c,
      convertTokens .standard headingsInTurn ⟨.integer 1, .null, .bool true⟩ = .ok c :=
    exists_eq_ok_of_isOk (by decide +kernel)
  obtain ⟨plain, hplain⟩ : ∃ plain,
      convertTokens .standard headingsInTurn ⟨.integer 1, .null, .bool false⟩ = .ok plain :=
    exists_eq_ok_of_isOk (by decide +kernel)
  have hnames (flag : Bool) : (convertTokens .standard headingsInTurn
      ⟨.integer 1, .null, .bool flag⟩).toOption.map (·.requests.filterMap Request.namedSpan?) =
        some [(⟨1, 2⟩, .heading .h2), (⟨3, 4⟩, if flag then .title else .heading .h1),
          (⟨5, 6⟩, .heading .h1)] := by
    cases flag <;> decide +kernel
  obtain ⟨hequal, hrest⟩ := convertTokens_promotesTitle .standard headingsInTurn
  have hrequests := hequal (.integer 1) .null
  have hnamed := hnames true
  have hnamed' := hnames false
  rw [hc] at hrequests hnamed
  rw [hplain] at hrequests hnamed'
  exact ⟨c, plain, hc, hplain, Option.some.inj hnamed', Option.some.inj hnamed,
    Except.ok.inj hrequests, (hrest _ c hc).2.1, (hrest _ plain hplain).1 rfl⟩

end MarkdownEdits
