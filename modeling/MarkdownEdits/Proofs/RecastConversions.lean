import MarkdownEdits.Proofs.RecastDrafts

/-!
# Conversions of recast drafts

Sorting and merging compare positions with each other and never with a fixed one, so the bullets of
items that are moved are the bullets of the items, moved. All stylings of a recast draft are those
of the draft, relocated, but for the styles of the headings, which come from what is known of
titles.
-/
namespace MarkdownEdits
namespace StableSort

variable {α β : Type} {le : α → α → Bool} {le' : β → β → Bool} {f : α → β}

theorem insert_map (h : ∀ x y, le' (f x) (f y) = le x y) (x : α) (xs : List α) :
    insert le' (f x) (xs.map f) = (insert le x xs).map f := by
  induction xs with
  | nil => rfl
  | cons y rest ih =>
    simp only [List.map_cons, insert, h, ih]
    split <;> rfl

theorem sort_map (h : ∀ x y, le' (f x) (f y) = le x y) (xs : List α) :
    sort le' (xs.map f) = (sort le xs).map f := by
  induction xs with
  | nil => rfl
  | cons x rest ih =>
    calc sort le' ((x :: rest).map f) = insert le' (f x) (sort le' (rest.map f)) := rfl
      _ = insert le' (f x) ((sort le rest).map f) := by rw [ih]
      _ = (sort le (x :: rest)).map f := insert_map h x _

end StableSort

namespace BulletSpan

def shift (bullets : BulletSpan) (distance : Int) : BulletSpan :=
  { bullets with span := bullets.span.shift distance }

variable (distance : Int)

theorem joins_shift (current next : BulletSpan) :
    (current.shift distance).joins (next.shift distance) = current.joins next := by
  have hspan : next.span.start + distance ≤ current.span.stop + distance + 1 ↔
      next.span.start ≤ current.span.stop + 1 := by omega
  simp only [joins, shift, Span.shift, hspan]

theorem absorb_shift (current next : BulletSpan) :
    (current.shift distance).absorb (next.shift distance) =
      (current.absorb next).shift distance := by
  have hstop : max (current.span.stop + distance) (next.span.stop + distance) =
      max current.span.stop next.span.stop + distance := by omega
  simp only [absorb, shift, Span.shift, hstop]

theorem mergeFrom_shift (current : BulletSpan) (rest : List BulletSpan) :
    mergeFrom (current.shift distance) (rest.map (·.shift distance)) =
      (mergeFrom current rest).map (·.shift distance) := by
  induction rest generalizing current with
  | nil => rfl
  | cons next rest ih =>
    simp only [List.map_cons, mergeFrom, joins_shift, absorb_shift, ih]
    split <;> rfl

theorem merge_shift (spans : List BulletSpan) :
    merge (spans.map (·.shift distance)) = (merge spans).map (·.shift distance) := by
  cases spans with
  | nil => rfl
  | cons first rest => exact mergeFrom_shift distance first rest

theorem ascending_shift (spans : List BulletSpan) :
    ascending (spans.map (·.shift distance)) = (ascending spans).map (·.shift distance) :=
  StableSort.sort_map (fun a b => by simp [shift, Span.shift]) spans

theorem descending_shift (spans : List BulletSpan) :
    descending (spans.map (·.shift distance)) = (descending spans).map (·.shift distance) :=
  StableSort.sort_map (fun a b => by simp [shift, Span.shift]) spans

theorem ofItem?_shift (item : ListItem) :
    ofItem? (item.shift distance) = (ofItem? item).map (·.shift distance) := by
  simp only [ofItem?, ListItem.span?_shift, Option.map_map]
  rfl

theorem ofItems_shift (items : List ListItem) :
    ofItems (items.map (·.shift distance)) = (ofItems items).map (·.shift distance) := by
  have hitems : (items.map (·.shift distance)).filterMap ofItem? =
      (items.filterMap ofItem?).map (·.shift distance) := by
    simp only [List.filterMap_map, List.map_filterMap, Function.comp_def, ofItem?_shift]
  rw [ofItems, hitems, ascending_shift, merge_shift, ofItems]

end BulletSpan

namespace SpanRecords

variable (tab : Option String) (config : Config) (records : SpanRecords)

/-- The stylings in front of those of the headings. -/
def textStylings : List Styling := records.styledTexts.toList.flatMap (styleText tab config)

/-- The stylings behind those of the headings. -/
def blockStylings : List Styling :=
  (records.paragraphs.toList ++ records.listTails.toList).map (spaceBelow tab config) ++
  records.codeBlocks.toList.flatMap (styleCodeBlock tab config) ++
  records.rules.toList.map (drawRule tab) ++
  (BulletSpan.descending (BulletSpan.ofItems records.items.toList)).map (addBullets tab)

theorem stylings_eq : records.stylings tab config = records.textStylings tab config ++
    (records.headings.toList.flatMap (styleHeading tab) ++ records.blockStylings tab config) := by
  simp only [stylings, textStylings, blockStylings, List.append_assoc]

variable (r : Relocation)

theorem styleText_shift (text : StyledText) :
    styleText (r.tab tab) config (text.shift r.distance) =
      (styleText tab config text).map (·.relocate r) := by
  simp only [styleText, List.map_append, apply_ite (List.map _), List.map_nil, List.map_singleton]
  congr 1
  simp only [StyledText.shift]
  split
  · split <;> rfl
  · rfl

theorem styleHeading_shift (heading : Heading) :
    styleHeading (r.tab tab) (heading.shift r.distance) =
      (styleHeading tab heading).map (·.relocate r) := by
  simp only [styleHeading, Heading.shift]
  split
  · split <;> rfl
  · rfl

theorem styleCodeBlock_shift (block : CodeBlock) :
    styleCodeBlock (r.tab tab) config (block.shift r.distance) =
      (styleCodeBlock tab config block).map (·.relocate r) := by
  have hindex : (block.shift r.distance).tableIndex = block.tableIndex + r.distance :=
    Int.add_right_comm _ _ _
  simp only [styleCodeBlock, hindex, List.map_append, List.map_singleton]
  congr 1
  simp only [CodeBlock.shift, Span.shift, Int.add_lt_add_iff_right]
  split <;> rfl

theorem textStylings_recast (headings : List Heading) :
    (records.recast r.distance headings).textStylings (r.tab tab) config =
      (records.textStylings tab config).map (·.relocate r) := by
  simp only [textStylings, recast, Array.toList_map, List.flatMap_map, List.map_flatMap,
    styleText_shift]

theorem blockStylings_recast (headings : List Heading) :
    (records.recast r.distance headings).blockStylings (r.tab tab) config =
      (records.blockStylings tab config).map (·.relocate r) := by
  simp only [blockStylings, recast, Array.toList_map, List.flatMap_map, List.map_flatMap,
    styleCodeBlock_shift, BulletSpan.ofItems_shift, BulletSpan.descending_shift, List.map_append,
    List.map_map]
  rfl

end SpanRecords

theorem Draft.stylings_recast (config : Config) (r : Recasting) (d : Draft) :
    (d.recast r).stylings config =
      (d.records.textStylings d.tab config).map (·.relocate r.toRelocation) ++
      ((r.titles d.titles).headings.flatMap (SpanRecords.styleHeading (r.tab d.tab)) ++
      (d.records.blockStylings d.tab config).map (·.relocate r.toRelocation)) := by
  have hheadings : (d.recast r).records.headings.toList = (r.titles d.titles).headings := rfl
  rw [stylings, SpanRecords.stylings_eq, hheadings]
  simp only [recast, SpanRecords.textStylings_recast, SpanRecords.blockStylings_recast]

/-! ## Conversions -/

/-- The start and the tab that the arguments of a conversion name. -/
def Options.place (o : Options) : Except Failure (Int × Option String) := do
  return (← o.startIndex, ← o.tabIdentifier)

/-- The conversion that a run amounts to, or its failure. -/
def Draft.conversion (config : Config) (tokens : List Token) (first : Draft) :
    Except Failure Conversion :=
  ((first.steps tokens).mapError .conversion).map (.ofDraft config)

/-- A conversion checks its arguments and runs. -/
theorem convertTokens_eq_bind (config : Config) (tokens : List Token) (o : Options) :
    convertTokens config tokens o = o.place.bind fun (first, tab) =>
      (Draft.start first tab (o.wantsTitle config)).conversion config tokens := by
  simp only [convertTokens, Options.place, bind, Except.bind]
  cases o.startIndex with
  | error failure => rfl
  | ok first =>
    cases o.tabIdentifier with
    | error failure => rfl
    | ok tab =>
      simp only [pure, Except.pure, Draft.conversion]
      cases (Draft.start first tab (o.wantsTitle config)).steps tokens <;> rfl

/-- A run from a recast draft amounts to what the recast end of the run amounts to. -/
theorem Draft.conversion_recast {config : Config} {tokens : List Token} {first : Draft}
    (r : Recasting) (change : List Request → List Request)
    (hchange : ∀ d, first.steps tokens = .ok d →
      (Conversion.ofDraft config (d.recast r)).requests =
        change (Conversion.ofDraft config d).requests) :
    ((first.recast r).conversion config tokens).map Conversion.requests =
      (first.conversion config tokens).map fun c => change c.requests := by
  rw [conversion, conversion, steps_recast]
  cases hrun : first.steps tokens with
  | error e => rfl
  | ok d => exact congrArg Except.ok (hchange d hrun)

/-- A conversion from another place, whose draft is recast from the start, is that of the draft
recast at the end. It is refused for the same arguments. -/
theorem convertTokens_recast {config : Config} {tokens : List Token} {o o' : Options}
    (r : Recasting) (change : List Request → List Request)
    (move : Int × Option String → Int × Option String) (hplace : o'.place = o.place.map move)
    (hstart : ∀ place,
      .start (move place).1 (move place).2 (o'.wantsTitle config) =
        (Draft.start place.1 place.2 (o.wantsTitle config)).recast r)
    (hchange : ∀ (place : Int × Option String) d,
      (Draft.start place.1 place.2 (o.wantsTitle config)).steps tokens = .ok d →
      (Conversion.ofDraft config (d.recast r)).requests =
        change (Conversion.ofDraft config d).requests) :
    (convertTokens config tokens o').map Conversion.requests =
      (convertTokens config tokens o).map fun c => change c.requests := by
  rw [convertTokens_eq_bind, convertTokens_eq_bind, hplace]
  cases o.place with
  | error failure => rfl
  | ok place =>
    simp only [Except.map, Except.bind, hstart place]
    exact Draft.conversion_recast r change (hchange place)

/-! ## Relocations -/

/-- A relocation of drafts that moves the headings along and changes nothing else about titles. -/
def Relocation.recasting (r : Relocation) : Recasting where
  toRelocation := r
  titles t := { t with headings := t.headings.map (·.shift r.distance) }
  titles_close t level span := by simp [Titles.close, Heading.shift]

theorem Draft.start_recast (r : Relocation) {first first' : Int} {tab tab' : Option String}
    (hfirst : first' = first + r.distance) (htab : namedTab tab' = r.tab (namedTab tab))
    (headingAsTitle : Bool) : .start first' tab' headingAsTitle =
      (Draft.start first tab headingAsTitle).recast r.recasting := by
  simp [start, recast, hfirst, htab, Relocation.recasting, titles, SpanRecords.recast]

theorem Conversion.requests_recast (config : Config) (r : Relocation) (d : Draft) :
    (ofDraft config (d.recast r.recasting)).requests =
      (ofDraft config d).requests.map (·.relocate r) := by
  have hheadings : (r.recasting.titles d.titles).headings.flatMap
      (SpanRecords.styleHeading (r.tab d.tab)) =
        (d.records.headings.toList.flatMap (SpanRecords.styleHeading d.tab)).map
          (·.relocate r) := by
    simp only [Relocation.recasting, Draft.titles, List.flatMap_map, List.map_flatMap,
      SpanRecords.styleHeading_shift]
  have hstylings : (d.recast r.recasting).stylings config =
      (d.stylings config).map (·.relocate r) := by
    rw [Draft.stylings_recast, Draft.stylings, SpanRecords.stylings_eq]
    simp only [List.map_append]
    rw [← hheadings]
    rfl
  have hinsertions : (d.recast r.recasting).insertions.toList =
      d.insertions.toList.map (·.relocate r) := Array.toList_map
  simp only [requests, ofDraft, hstylings, hinsertions, List.map_append, List.map_map]
  rfl

end MarkdownEdits
