import MarkdownEdits.TokenCompilation

/-!
# Stacks of formatting

Where each frame sets one attribute, the frames of a kind are a stack of their own. Closing a kind
takes the top off its stack and leaves the other kinds alone, and merging reads off the tops.
-/
namespace MarkdownEdits
namespace Formatting

/-- The frames that set a kind, innermost first. -/
def ofKind (kind : FormattingKind) (stack : List Formatting) : List Formatting :=
  stack.filter (·.sets kind)

@[simp] theorem ofKind_nil (kind : FormattingKind) : ofKind kind [] = [] := rfl

theorem ofKind_cons (kind : FormattingKind) (f : Formatting) (stack : List Formatting) :
    ofKind kind (f :: stack) = if f.sets kind then f :: ofKind kind stack else ofKind kind stack :=
  List.filter_cons

/-- A frame that sets the attribute of one kind and no other. -/
def SetsOnly (f : Formatting) (kind : FormattingKind) : Prop :=
  ∀ other, f.sets other = true ↔ other = kind

theorem ofKind_cons_of_setsOnly {f : Formatting} {kind : FormattingKind} (h : f.SetsOnly kind)
    (other : FormattingKind) (stack : List Formatting) :
    ofKind other (f :: stack) =
      if other = kind then f :: ofKind other stack else ofKind other stack := by
  simp only [ofKind_cons, h other]

theorem ofKind_close (kind : FormattingKind) (stack : List Formatting) :
    ofKind kind (close kind stack) = (ofKind kind stack).tail := by
  induction stack with
  | nil => rfl
  | cons f stack ih =>
    cases h : f.sets kind with
    | true =>
      rw [close_cons_of_sets h, ofKind_cons, if_pos h]
      rfl
    | false =>
      have hnot : ¬f.sets kind = true := by simp [h]
      rw [close_cons_of_not_sets h, ofKind_cons, ofKind_cons, if_neg hnot, if_neg hnot, ih]

theorem ofKind_close_of_ne {kind other : FormattingKind} (hne : other ≠ kind)
    {stack : List Formatting} (h : ∀ f ∈ stack, ∃ single, f.SetsOnly single) :
    ofKind other (close kind stack) = ofKind other stack := by
  induction stack with
  | nil => rfl
  | cons f stack ih =>
    obtain ⟨⟨single, hf⟩, hstack⟩ := List.forall_mem_cons.mp h
    cases hset : f.sets kind with
    | true =>
      have hnot : ¬f.sets other = true := by
        intro hother
        exact hne (((hf other).mp hother).trans ((hf kind).mp hset).symm)
      rw [close_cons_of_sets hset, ofKind_cons, if_neg hnot]
    | false =>
      rw [close_cons_of_not_sets hset, ofKind_cons, ofKind_cons, ih hstack]

theorem mem_of_mem_close {kind : FormattingKind} {f : Formatting} {stack : List Formatting}
    (h : f ∈ close kind stack) : f ∈ stack := List.mem_of_mem_eraseP h

private theorem findSome?_eq_head?_filter {α β : Type} (value : α → Option β) (xs : List α) :
    xs.findSome? value = (xs.filter fun x => (value x).isSome).head?.bind value := by
  induction xs with
  | nil => rfl
  | cons x xs ih =>
    cases h : value x with
    | none => simp [h, ih]
    | some v => simp [h]

/-- Of each attribute, the top of the stack of its kind counts. -/
theorem merge_eq (stack : List Formatting) : merge stack = {
    bold := (ofKind .bold stack).head?.bind (·.bold)
    italic := (ofKind .italic stack).head?.bind (·.italic)
    strikethrough := (ofKind .strikethrough stack).head?.bind (·.strikethrough)
    code := (ofKind .code stack).head?.bind (·.code)
    link := (ofKind .link stack).head?.bind (·.link) } := by
  simp only [merge, findSome?_eq_head?_filter]
  rfl

end Formatting

/-! ## The frames that tokens open -/

theorem Mark.setsOnly_frame (mark : Mark) : mark.frame.SetsOnly mark.kind := by
  intro other
  cases mark <;> cases other <;> decide

theorem Mark.kind_inj {m n : Mark} : m.kind = n.kind ↔ m = n := by
  cases m <;> cases n <;> decide

theorem Mark.kind_ne_link (mark : Mark) : mark.kind ≠ .link := by
  cases mark <;> decide

theorem Mark.kind_ne_code (mark : Mark) : mark.kind ≠ .code := by
  cases mark <;> decide

theorem Formatting.setsOnly_link (url : String) :
    ({ link := some url } : Formatting).SetsOnly .link := by
  intro other
  cases other <;> simp [sets]

end MarkdownEdits
