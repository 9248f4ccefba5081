/-!
# Inline formatting

Open marks form a stack, innermost first. A mark of some kind is closed by taking away the
innermost frame that sets this kind, wherever it stands, so spans may overlap. Of each attribute
the innermost frame that sets it counts.
-/
namespace MarkdownEdits

/-- The attributes that a frame of formatting sets. -/
structure Formatting where
  bold : Option Bool := none
  italic : Option Bool := none
  strikethrough : Option Bool := none
  code : Option Bool := none
  link : Option String := none
  deriving DecidableEq, Repr, Inhabited

inductive FormattingKind where
  | bold
  | italic
  | strikethrough
  | code
  | link
  deriving DecidableEq, Repr

namespace Formatting

def sets (f : Formatting) : FormattingKind → Bool
  | .bold => f.bold.isSome
  | .italic => f.italic.isSome
  | .strikethrough => f.strikethrough.isSome
  | .code => f.code.isSome
  | .link => f.link.isSome

/-- Whether an attribute is on or a link is there. -/
def isVisible (f : Formatting) : Bool :=
  f.bold == some true || f.italic == some true || f.strikethrough == some true ||
    f.code == some true || f.link.isSome

/-- Whether an attribute other than the link is on. -/
def hasStyle (f : Formatting) : Bool :=
  f.bold == some true || f.italic == some true || f.strikethrough == some true ||
    f.code == some true

/-- The attributes under a stack of frames. -/
def merge (stack : List Formatting) : Formatting where
  bold := stack.findSome? (·.bold)
  italic := stack.findSome? (·.italic)
  strikethrough := stack.findSome? (·.strikethrough)
  code := stack.findSome? (·.code)
  link := stack.findSome? (·.link)

/-- The stack without the innermost frame that sets a kind. -/
def close (kind : FormattingKind) (stack : List Formatting) : List Formatting :=
  stack.eraseP (·.sets kind)

@[simp] theorem merge_nil : merge [] = {} := rfl

@[simp] theorem close_nil (kind : FormattingKind) : close kind [] = [] := rfl

theorem close_cons_of_sets {kind : FormattingKind} {f : Formatting} (h : f.sets kind = true)
    (stack : List Formatting) : close kind (f :: stack) = stack := by
  simp [close, h]

theorem close_cons_of_not_sets {kind : FormattingKind} {f : Formatting}
    (h : f.sets kind = false) (stack : List Formatting) :
    close kind (f :: stack) = f :: close kind stack := by
  simp [close, h]

theorem isVisible_eq (f : Formatting) : f.isVisible = (f.hasStyle || f.link.isSome) := rfl

end Formatting
end MarkdownEdits
