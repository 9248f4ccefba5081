import MarkdownEdits.Proofs.BulletRanges
import MarkdownEdits.Proofs.OutlineRuns

/-!
# Where items end

A draft knows of a line end only by its last insertion. It agrees with the document all the same:
items end in front of line ends, and where a bulleted range is carried on by an item behind it,
just the line end lies between the two.
-/
namespace MarkdownEdits

theorem ListItem.span?_eq_some {item : ListItem} {span : Span} (h : item.span? = some span) :
    span = ⟨item.start, span.stop⟩ ∧ item.stop = some span.stop ∧ item.start < span.stop := by
  rw [span?] at h
  split at h
  · rename_i stop hstop
    split at h
    · rename_i hlt
      cases h
      exact ⟨rfl, hstop, hlt⟩
    · cases h
  · cases h

namespace BulletSpan

theorem ofItem?_eq_some {item : ListItem} {s : BulletSpan} (h : ofItem? item = some s) :
    s = ⟨⟨item.start, s.span.stop⟩, item.preset⟩ ∧ item.stop = some s.span.stop ∧
      item.start < s.span.stop := by
  obtain ⟨span, hspan, rfl⟩ := Option.map_eq_some_iff.mp h
  obtain ⟨heq, hstop, hlt⟩ := ListItem.span?_eq_some hspan
  exact ⟨congrArg (BulletSpan.mk · item.preset) heq, hstop, hlt⟩

end BulletSpan

namespace Draft

/-- The spans of the items that have one, in order of opening. -/
def itemSpans (d : Draft) : List BulletSpan := d.records.items.toList.filterMap BulletSpan.ofItem?

theorem mem_itemSpans {d : Draft} {i : Nat} {item : ListItem} {stop : Int}
    (hitem : d.records.items[i]? = some item) (hstop : item.stop = some stop)
    (hlt : item.start < stop) : ⟨⟨item.start, stop⟩, item.preset⟩ ∈ d.itemSpans := by
  refine List.mem_filterMap.mpr ⟨item, Array.mem_toList_iff.mpr (Array.mem_of_getElem? hitem), ?_⟩
  simp [BulletSpan.ofItem?, ListItem.span?, hstop, hlt]

theorem exists_bounds_of_mem_itemSpans {d : Draft} {s : BulletSpan} (h : s ∈ d.itemSpans) :
    ∃ i : Nat, d.bounds[i]? = some ⟨s.span.start, some s.span.stop⟩ := by
  obtain ⟨item, hitem, hs⟩ := List.mem_filterMap.mp h
  obtain ⟨heq, hstop, -⟩ := BulletSpan.ofItem?_eq_some hs
  obtain ⟨i, hi⟩ := List.mem_iff_getElem?.mp hitem
  refine ⟨i, ?_⟩
  rw [getElem?_bounds, ← Array.getElem?_toList, hi, Option.map_some, ListItem.bounds, hstop, heq]

theorem isProper_of_mem_itemSpans {d : Draft} {s : BulletSpan} (h : s ∈ d.itemSpans) :
    s.IsProper := by
  obtain ⟨item, -, hs⟩ := List.mem_filterMap.mp h
  obtain ⟨heq, -, hlt⟩ := BulletSpan.ofItem?_eq_some hs
  rw [heq]
  exact hlt

/-- Items open in the order of their starts. -/
theorem startsInOrder_itemSpans {d : Draft} {document : Document}
    (h : (d.outline document).InOrder) : BulletSpan.StartsInOrder d.itemSpans := by
  have hstarts := List.pairwise_map.mp h.starts_pairwise
  refine List.pairwise_filterMap.mpr (hstarts.imp ?_)
  intro a b hle s hs t ht
  obtain ⟨hs, -⟩ := BulletSpan.ofItem?_eq_some hs
  obtain ⟨ht, -⟩ := BulletSpan.ofItem?_eq_some ht
  rw [hs, ht]
  exact hle

/-- What the draft takes for line ends is line ends of the document. -/
structure KeepsLines (d : Draft) (document : Document) : Prop where
  replay : (Document.empty document.first).replay? d.insertions.toList = some document
  newline : d.endsWithNewline = true ↔ document.units.getLast? = some .newline
  ends : ∀ item ∈ d.records.items.toList, ∀ stop, item.stop = some stop →
    item.start < stop ∧ stop < d.cursor ∧ document.unitAt? stop = some .newline
  /-- An item carries on a range across a line end and nothing else. -/
  gaps : ∀ range next, BulletSpan.JoinedIn (BulletSpan.ascending d.itemSpans) range next →
    range.span.stop ≤ next.span.start →
      next.span.start = range.span.stop + 1 ∧ document.unitAt? range.span.stop = some .newline

theorem Yields.keepsLines {d : Draft} {document : Document} (h : d.Yields document)
    (ho : (d.outline document).InOrder) : d.KeepsLines document where
  replay := h.replay
  newline := h.newline
  ends := by
    intro item hitem stop hstop
    rw [h.cursor]
    exact ho.stop_bounds item.bounds (List.mem_map_of_mem hitem) stop hstop
  gaps := by
    intro range next hjoined hle
    rw [(startsInOrder_itemSpans ho).ascending_eq] at hjoined
    obtain ⟨-, -, hgap⟩ := BulletSpan.joins_iff.mp hjoined.joins
    obtain ⟨i, hnext⟩ := exists_bounds_of_mem_itemSpans hjoined.mem
    obtain ⟨last, hlast, hstop⟩ := hjoined.exists_stop_eq
    obtain ⟨j, hj⟩ := exists_bounds_of_mem_itemSpans hlast
    rw [hstop] at hj
    have hmem := List.mem_of_getElem? hj
    obtain ⟨-, -, hunit⟩ := ho.stop_bounds _ hmem _ rfl
    -- No item starts where another one ends, as a line end stands there.
    have hapart := ho.apart i _ hnext (.inr rfl) _ hmem
    have hne : range.span.stop ≠ next.span.start := fun heq => hapart (congrArg some heq)
    exact ⟨by omega, hunit⟩

/-- Between any two tokens of any stream, line ends are where the draft takes them to be. -/
theorem steps_keepsLines {start : Int} {tab : Option String} {headingAsTitle : Bool}
    {tokens : List Token} {d : Draft}
    (h : (Draft.start start tab headingAsTitle).steps tokens = .ok d) :
    ∃ document, document.first = start ∧ d.KeepsLines document := by
  obtain ⟨document, hfirst, hy, ho⟩ := inOrder_steps h
  exact ⟨document, hfirst, hy.keepsLines ho⟩

/-- Two items of one list, the first with a code block behind its paragraph and the second closed
twice. -/
def itemsInTurn : List Token :=
  [.openList .bullet, .openItem, .openParagraph, .inline [.text "a"], .closeParagraph,
    .codeBlock "b" "", .closeItem, .openItem, .openParagraph, .inline [.text "😀"],
    .closeParagraph, .closeItem, .closeItem]

theorem steps_keepsLines_itemsInTurn :
    ∃ d, (Draft.start 1 none false).steps itemsInTurn = .ok d ∧
      ∃ document, document.first = 1 ∧ d.KeepsLines document := by
  obtain ⟨d, hd⟩ : ∃ d, (Draft.start 1 none false).steps itemsInTurn = .ok d :=
    exists_eq_ok_of_isOk (by decide +kernel)
  exact ⟨d, hd, steps_keepsLines hd⟩

end Draft
end MarkdownEdits
