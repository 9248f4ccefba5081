import MarkdownEdits.Draft
import MarkdownEdits.StableSort

/-!
# Bulleted spans

List items of one preset that follow each other are bulleted together. Between the end of one and
the start of the next at most one unit may lie, the line end. Tasks are bulleted one by one.
-/
namespace MarkdownEdits

/-- A span with the preset of its bullets. -/
structure BulletSpan where
  span : Span
  preset : BulletPreset
  deriving DecidableEq, Repr, Inhabited

namespace BulletSpan

def ofItem? (item : ListItem) : Option BulletSpan := item.span?.map (⟨·, item.preset⟩)

/-- Whether the second span carries on the first. -/
def joins (current next : BulletSpan) : Bool :=
  next.preset != .checkbox && current.preset == next.preset &&
    decide (next.span.start ≤ current.span.stop + 1)

/-- The first span with the second in it. -/
def absorb (current next : BulletSpan) : BulletSpan :=
  { current with span := { current.span with stop := max current.span.stop next.span.stop } }

/-- Joins each span to the one before it where it carries it on. -/
def mergeFrom (current : BulletSpan) : List BulletSpan → List BulletSpan
  | [] => [current]
  | next :: rest =>
    if current.joins next then mergeFrom (current.absorb next) rest
    else current :: mergeFrom next rest

def merge : List BulletSpan → List BulletSpan
  | [] => []
  | first :: rest => mergeFrom first rest

def ascending (spans : List BulletSpan) : List BulletSpan :=
  StableSort.sort (fun a b => decide (a.span.start ≤ b.span.start)) spans

def descending (spans : List BulletSpan) : List BulletSpan :=
  StableSort.sort (fun a b => decide (b.span.start ≤ a.span.start)) spans

/-- The spans that a list of items is bulleted in. -/
def ofItems (items : List ListItem) : List BulletSpan :=
  merge (ascending (items.filterMap ofItem?))

@[simp] theorem ofItems_nil : ofItems [] = [] := rfl

end BulletSpan
end MarkdownEdits
