import MarkdownEdits.Proofs.FormattingStacks

/-!
# Histories of formatting

A history opens frames and closes kinds, in any order. Where every frame sets one attribute, each
kind goes its own way: its frames are those that a stack by itself would hold, and a frame stays
open until a close of its kind comes that no frame opened after it takes.
-/
namespace MarkdownEdits
namespace Formatting

/-- A change of a stack of formatting. -/
inductive Change where
  | opens (frame : Formatting)
  | closes (kind : FormattingKind)
  deriving DecidableEq, Repr

namespace Change

/-- Whether the change opens or closes a frame of the kind. -/
def concerns (kind : FormattingKind) : Change → Bool
  | opens f => f.sets kind
  | closes other => other == kind

/-- The change of a stack of one kind: every close takes the top off, if there is one. -/
def onStack (own : List Formatting) : Change → List Formatting
  | opens f => f :: own
  | closes _ => own.tail

/-- The frame that is opened sets one attribute. -/
def IsSingle : Change → Prop
  | opens f => ∃ kind, f.SetsOnly kind
  | closes _ => True

def frame? : Change → Option Formatting
  | opens f => some f
  | closes _ => none

end Change

/-- The stack behind a history. -/
def after (stack : List Formatting) : List Change → List Formatting
  | [] => stack
  | .opens f :: behind => after (f :: stack) behind
  | .closes kind :: behind => after (close kind stack) behind

variable {kind : FormattingKind} {f : Formatting} {stack : List Formatting}
  {history : List Change}

theorem single_after (hstack : ∀ f ∈ stack, ∃ single, f.SetsOnly single)
    (hhistory : ∀ change ∈ history, change.IsSingle) :
    ∀ f ∈ after stack history, ∃ single, f.SetsOnly single := by
  induction history generalizing stack with
  | nil => exact hstack
  | cons change behind ih =>
    obtain ⟨hchange, hbehind⟩ := List.forall_mem_cons.mp hhistory
    cases change with
    | opens f =>
      exact ih (List.forall_mem_cons.mpr ⟨hchange, hstack⟩) hbehind
    | closes kind => exact ih (fun f hf => hstack f (mem_of_mem_close hf)) hbehind

/-! ## The stack of one kind -/

/-- The frames of a kind behind a history, as a stack that only the changes of the kind reach. -/
def ownAfter (kind : FormattingKind) (stack : List Formatting) (history : List Change) :
    List Formatting :=
  (history.filter (·.concerns kind)).foldl Change.onStack (ofKind kind stack)

theorem ownAfter_cons (change : Change) (stack : List Formatting) (behind : List Change) :
    ownAfter kind stack (change :: behind) =
      (behind.filter (·.concerns kind)).foldl Change.onStack
        (if change.concerns kind then Change.onStack (ofKind kind stack) change
          else ofKind kind stack) := by
  rw [ownAfter, List.filter_cons]
  split <;> rfl

theorem ofKind_after (kind : FormattingKind)
    (hstack : ∀ f ∈ stack, ∃ single, f.SetsOnly single)
    (hhistory : ∀ change ∈ history, change.IsSingle) :
    ofKind kind (after stack history) = ownAfter kind stack history := by
  induction history generalizing stack with
  | nil => rfl
  | cons change behind ih =>
    obtain ⟨hchange, hbehind⟩ := List.forall_mem_cons.mp hhistory
    cases change with
    | opens f =>
      have hnext : ∀ g ∈ f :: stack, ∃ single, g.SetsOnly single :=
        List.forall_mem_cons.mpr ⟨hchange, hstack⟩
      rw [after, ih hnext hbehind, ownAfter_cons, ownAfter, ofKind_cons]
      rfl
    | closes other =>
      have hnext : ∀ f ∈ close other stack, ∃ single, f.SetsOnly single :=
        fun f hf => hstack f (mem_of_mem_close hf)
      rw [after, ih hnext hbehind, ownAfter_cons, ownAfter]
      by_cases hkind : other = kind
      · rw [hkind, ofKind_close, Change.concerns, if_pos (beq_self_eq_true kind)]
        rfl
      · rw [ofKind_close_of_ne (Ne.symm hkind) hstack, Change.concerns,
          if_neg (by simpa using hkind)]

/-- Closes of two kinds can change places. -/
theorem close_comm (kind other : FormattingKind)
    (hstack : ∀ f ∈ stack, ∃ single, f.SetsOnly single) :
    close other (close kind stack) = close kind (close other stack) := by
  by_cases hkinds : kind = other
  · rw [hkinds]
  induction stack with
  | nil => rfl
  | cons f stack ih =>
    obtain ⟨⟨single, hf⟩, hrest⟩ := List.forall_mem_cons.mp hstack
    cases hkind : f.sets kind with
    | true =>
      have hother : f.sets other = false := by
        rw [Bool.eq_false_iff]
        exact fun hother => hkinds (((hf kind).mp hkind).trans ((hf other).mp hother).symm)
      rw [close_cons_of_sets hkind, close_cons_of_not_sets hother, close_cons_of_sets hkind]
    | false =>
      rw [close_cons_of_not_sets hkind]
      cases hother : f.sets other with
      | true => rw [close_cons_of_sets hother, close_cons_of_sets hother]
      | false =>
        rw [close_cons_of_not_sets hother, close_cons_of_not_sets hother,
          close_cons_of_not_sets hkind, ih hrest]

/-! ## The frames that are left -/

def kinds : List FormattingKind := [.bold, .italic, .strikethrough, .code, .link]

/-- How many frames of the kind a history closes that were open before it. -/
def closedBefore (kind : FormattingKind) : List Change → Nat
  | [] => 0
  | .opens f :: behind =>
    if f.sets kind then closedBefore kind behind - 1 else closedBefore kind behind
  | .closes other :: behind =>
    if other = kind then closedBefore kind behind + 1 else closedBefore kind behind

/-- Whether so many closes of each kind take a frame on which no other one lies. -/
def isTaken (f : Formatting) (closes : FormattingKind → Nat) : Bool :=
  kinds.any fun kind => f.sets kind && decide (0 < closes kind)

/-- The frames that a history opens and does not close, the last one opened first. -/
def leftOpen : List Change → List Formatting
  | [] => []
  | .opens f :: behind =>
    leftOpen behind ++ if f.isTaken (closedBefore · behind) then [] else [f]
  | .closes _ :: behind => leftOpen behind

/-- What so many closes of each kind leave of a stack. -/
def leftBelow (closes : FormattingKind → Nat) : List Formatting → List Formatting
  | [] => []
  | f :: stack =>
    if f.isTaken closes then
      leftBelow (fun kind => if f.sets kind then closes kind - 1 else closes kind) stack
    else f :: leftBelow closes stack

theorem isTaken_of_setsOnly (h : f.SetsOnly kind) (closes : FormattingKind → Nat) :
    f.isTaken closes = decide (0 < closes kind) := by
  have hset (other : FormattingKind) : f.sets other = decide (other = kind) := by
    rw [Bool.eq_iff_iff, h other, decide_eq_true_iff]
  simp only [isTaken, kinds, hset]
  cases kind <;> simp

theorem leftBelow_zero (stack : List Formatting) : leftBelow (fun _ => 0) stack = stack := by
  induction stack with
  | nil => rfl
  | cons f stack ih =>
    have htaken : f.isTaken (fun _ => 0) = false := by simp [isTaken]
    rw [leftBelow, htaken, if_neg Bool.false_ne_true, ih]

/-- A frame that is not taken keeps the closes of its kind from the frames below. -/
theorem leftBelow_cons_of_not_taken {closes : FormattingKind → Nat}
    (h : f.isTaken closes = false) (stack : List Formatting) :
    leftBelow (fun kind => if f.sets kind then closes kind - 1 else closes kind) stack =
      leftBelow closes stack := by
  congr 1
  funext kind
  have hnone := List.any_eq_false.mp h kind (by cases kind <;> decide)
  by_cases hset : f.sets kind
  · rw [if_pos hset]
    simp only [hset, Bool.true_and, decide_eq_true_eq] at hnone
    omega
  · rw [if_neg hset]

theorem leftBelow_close (closes : FormattingKind → Nat)
    (hstack : ∀ f ∈ stack, ∃ single, f.SetsOnly single) :
    leftBelow closes (close kind stack) =
      leftBelow (fun other => if kind = other then closes other + 1 else closes other) stack := by
  induction stack generalizing closes with
  | nil => rfl
  | cons f stack ih =>
    obtain ⟨⟨single, hf⟩, hrest⟩ := List.forall_mem_cons.mp hstack
    cases hset : f.sets kind with
    | true =>
      obtain rfl := (hf kind).mp hset
      rw [close_cons_of_sets hset, leftBelow, isTaken_of_setsOnly hf, if_pos (by simp)]
      congr 1
      funext other
      by_cases hother : kind = other
      · simp [← hother, hset]
      · have hnot : ¬f.sets other = true := fun h => hother ((hf other).mp h).symm
        simp [hother, hnot]
    | false =>
      have hsingle : kind ≠ single := by
        rintro rfl
        simp [(hf kind).mpr rfl] at hset
      rw [close_cons_of_not_sets hset, leftBelow, leftBelow, isTaken_of_setsOnly hf,
        isTaken_of_setsOnly hf, if_neg hsingle, ih _ hrest, ih _ hrest]
      split
      · congr 1
        funext other
        by_cases hother : kind = other
        · simp [← hother, hset]
        · simp [hother]
      · rfl

theorem after_eq (hstack : ∀ f ∈ stack, ∃ single, f.SetsOnly single)
    (hhistory : ∀ change ∈ history, change.IsSingle) :
    after stack history = leftOpen history ++ leftBelow (closedBefore · history) stack := by
  induction history generalizing stack with
  | nil => exact (leftBelow_zero stack).symm
  | cons change behind ih =>
    obtain ⟨hchange, hbehind⟩ := List.forall_mem_cons.mp hhistory
    cases change with
    | opens f =>
      have hnext : ∀ g ∈ f :: stack, ∃ single, g.SetsOnly single :=
        List.forall_mem_cons.mpr ⟨hchange, hstack⟩
      rw [after, ih hnext hbehind, leftBelow, leftOpen]
      simp only [closedBefore]
      cases htaken : f.isTaken (closedBefore · behind) with
      | true => simp
      | false => simp [leftBelow_cons_of_not_taken htaken]
    | closes other =>
      have hnext : ∀ f ∈ close other stack, ∃ single, f.SetsOnly single :=
        fun f hf => hstack f (mem_of_mem_close hf)
      rw [after, ih hnext hbehind, leftBelow_close _ hstack, leftOpen]
      simp only [closedBefore]

/-- The history that opens the frames of a stack, and then goes on. -/
def startingFrom (stack : List Formatting) (history : List Change) : List Change :=
  stack.reverse.map .opens ++ history

theorem after_startingFrom (stack : List Formatting) (history : List Change) :
    after [] (startingFrom stack history) = after stack history := by
  have hopened (base frames : List Formatting) (behind : List Change) :
      after base (frames.map .opens ++ behind) = after (frames.reverse ++ base) behind := by
    induction frames generalizing base with
    | nil => rfl
    | cons f frames ih => simp [after, ih]
  rw [startingFrom, hopened, List.reverse_reverse, List.append_nil]

theorem after_eq_leftOpen (hstack : ∀ f ∈ stack, ∃ single, f.SetsOnly single)
    (hhistory : ∀ change ∈ history, change.IsSingle) :
    after stack history = leftOpen (startingFrom stack history) := by
  have hstarting : ∀ change ∈ startingFrom stack history, change.IsSingle := by
    intro change hchange
    rcases List.mem_append.mp hchange with hchange | hchange
    · obtain ⟨f, hf, rfl⟩ := List.mem_map.mp hchange
      exact hstack f (List.mem_reverse.mp hf)
    · exact hhistory change hchange
  rw [← after_startingFrom, after_eq (by simp) hstarting]
  exact List.append_nil _

/-- What is left stands in the order in which it was opened. -/
theorem leftOpen_reverse_sublist (history : List Change) :
    (leftOpen history).reverse.Sublist (history.filterMap Change.frame?) := by
  induction history with
  | nil => exact .slnil
  | cons change behind ih =>
    cases change with
    | opens f =>
      have hframes : (Change.opens f :: behind).filterMap Change.frame? =
          f :: behind.filterMap Change.frame? := rfl
      rw [leftOpen, List.reverse_append, hframes]
      split
      · exact ih.cons f
      · exact ih.cons_cons f
    | closes kind => exact ih

end Formatting

namespace Draft
open Formatting

/-- Opens and closes formatting as a history says. -/
def format (d : Draft) : List Change → Draft
  | [] => d
  | .opens f :: behind => (d.openFormatting f).format behind
  | .closes kind :: behind => (d.closeFormatting kind).format behind

theorem format_eq (d : Draft) (history : List Change) :
    d.format history = { d with formatting := after d.formatting history } := by
  induction history generalizing d with
  | nil => rfl
  | cons change behind ih => cases change <;> exact ih _

theorem format_append (d : Draft) (history behind : List Change) :
    d.format (history ++ behind) = (d.format history).format behind := by
  induction history generalizing d with
  | nil => rfl
  | cons change rest ih => cases change <;> exact ih _

/-- The kinds of formatting do not interfere in a history. -/
structure KeepsKindsApart (d : Draft) (history : List Change) : Prop where
  /-- The frames of a kind are what the changes of the kind alone make of them. -/
  own : ∀ kind,
    ofKind kind (d.format history).formatting = ownAfter kind d.formatting history
  /-- Left is each frame that no change behind it closes, and nothing but the stack changes. -/
  left : d.format history =
    { d with formatting := leftOpen (startingFrom d.formatting history) }
  /-- The frames that are left stand in the order in which they were opened. -/
  inOrder : (d.format history).formatting.reverse.Sublist
    (d.formatting.reverse ++ history.filterMap Change.frame?)
  /-- Of each attribute the top of its kind's own stack counts, and it is unset without one. -/
  merged : (d.format history).activeFormatting = {
    bold := (ownAfter .bold d.formatting history).head?.bind (·.bold)
    italic := (ownAfter .italic d.formatting history).head?.bind (·.italic)
    strikethrough := (ownAfter .strikethrough d.formatting history).head?.bind (·.strikethrough)
    code := (ownAfter .code d.formatting history).head?.bind (·.code)
    link := (ownAfter .link d.formatting history).head?.bind (·.link) }
  /-- Two kinds can be closed in either order. -/
  commute : ∀ kind other, d.format (history ++ [.closes kind, .closes other]) =
    d.format (history ++ [.closes other, .closes kind])

theorem format_keepsKindsApart (d : Draft) (history : List Change)
    (hstack : ∀ f ∈ d.formatting, ∃ kind, f.SetsOnly kind)
    (hhistory : ∀ change ∈ history, change.IsSingle) :
    d.KeepsKindsApart history := by
  have hformatting : (d.format history).formatting = after d.formatting history := by
    rw [format_eq]
  have hown (kind : FormattingKind) : ofKind kind (d.format history).formatting =
      ownAfter kind d.formatting history := by
    rw [hformatting, ofKind_after kind hstack hhistory]
  have hleft : (d.format history).formatting = leftOpen (startingFrom d.formatting history) := by
    rw [hformatting, after_eq_leftOpen hstack hhistory]
  constructor
  case own => exact hown
  case left => rw [← hleft, hformatting, format_eq]
  case inOrder =>
    have hsublist := leftOpen_reverse_sublist (startingFrom d.formatting history)
    have hframes : (d.formatting.reverse.map Change.opens).filterMap Change.frame? =
        d.formatting.reverse := by
      rw [List.filterMap_map]
      exact List.filterMap_some
    rwa [← hleft, startingFrom, List.filterMap_append, hframes] at hsublist
  case merged => simp only [activeFormatting, merge_eq, hown]
  case commute =>
    intro kind other
    have hsingle : ∀ f ∈ (d.format history).formatting, ∃ kind, f.SetsOnly kind := by
      rw [hformatting]
      exact single_after hstack hhistory
    rw [format_append, format_append]
    simp only [format, closeFormatting, close_comm kind other hsingle]

/-- A draft in which a link, emphasis that is turned off and two strong marks are open. -/
def draftWithMarks : Draft :=
  { Draft.start 1 none false with
    formatting := [{ bold := some true }, { link := some "a" }, { bold := some true },
      { italic := some false }] }

/-- Spans that overlap: closes out of order, of what is not open and of what was open before. -/
def crossedSpans : List Change :=
  [.opens { link := some "b" }, .closes .bold, .opens { italic := some true }, .closes .code,
    .closes .link, .closes .link, .closes .link, .opens { strikethrough := some true },
    .closes .italic]

theorem format_keepsKindsApart_crossedSpans :
    (∀ f ∈ draftWithMarks.formatting, ∃ kind, f.SetsOnly kind) ∧
      (∀ change ∈ crossedSpans, change.IsSingle) ∧
      (draftWithMarks.format crossedSpans).formatting =
        [{ strikethrough := some true }, { bold := some true }, { italic := some false }] ∧
      draftWithMarks.KeepsKindsApart crossedSpans := by
  have hbold : ∃ kind, ({ bold := some true } : Formatting).SetsOnly kind :=
    ⟨_, Mark.setsOnly_frame .strong⟩
  have hitalic (on : Bool) : ∃ kind, ({ italic := some on } : Formatting).SetsOnly kind :=
    ⟨.italic, fun other => by cases other <;> simp [sets]⟩
  have hstack : ∀ f ∈ draftWithMarks.formatting, ∃ kind, f.SetsOnly kind := by
    simp only [draftWithMarks, List.forall_mem_cons]
    exact ⟨hbold, ⟨_, setsOnly_link "a"⟩, hbold, hitalic false, by simp⟩
  have hhistory : ∀ change ∈ crossedSpans, change.IsSingle := by
    simp only [crossedSpans, List.forall_mem_cons, Change.IsSingle, true_and]
    exact ⟨⟨_, setsOnly_link "b"⟩, hitalic true, ⟨_, Mark.setsOnly_frame .strikethrough⟩, by simp⟩
  exact ⟨hstack, hhistory, by decide, format_keepsKindsApart _ _ hstack hhistory⟩

end Draft
end MarkdownEdits
