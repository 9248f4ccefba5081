import MarkdownEdits.Proofs.FormattingStacks

/-!
# Active marks

How many marks of each kind are open, and which links, follows from the opening and closing tokens
alone: a close takes back one opening of its own kind, and does nothing where there is none. The
stack of formatting keeps the same account.
-/
namespace MarkdownEdits

/-- How many marks of each kind are open, and the targets of the open links, innermost first. -/
structure ActiveMarks where
  count : Mark → Nat
  links : List String

namespace ActiveMarks
open Formatting

def none : ActiveMarks := ⟨fun _ => 0, []⟩

def after (a : ActiveMarks) : Token → ActiveMarks
  | .openMark mark =>
    { a with count := fun other => if other = mark then a.count other + 1 else a.count other }
  | .closeMark mark =>
    { a with count := fun other => if other = mark then a.count other - 1 else a.count other }
  | .openLink (some url) => if url = "" then a else { a with links := url :: a.links }
  | .closeLink => { a with links := a.links.tail }
  | _ => a

/-- What is active on a leaf. Code is active on a leaf of code and nowhere else. -/
def formatting (a : ActiveMarks) (isCode : Bool) : Formatting where
  bold := if 0 < a.count .strong then some true else .none
  italic := if 0 < a.count .emphasis then some true else .none
  strikethrough := if 0 < a.count .strikethrough then some true else .none
  code := if isCode then some true else .none
  link := a.links.head?

/-- The stack has one frame for each open mark and each open link. -/
structure Tracks (a : ActiveMarks) (stack : List Formatting) : Prop where
  single : ∀ f ∈ stack, ∃ kind, f.SetsOnly kind
  marks : ∀ mark, ofKind mark.kind stack = List.replicate (a.count mark) mark.frame
  links : ofKind .link stack = a.links.map fun url => { link := some url }
  code : ofKind .code stack = []
  targets : ∀ url ∈ a.links, url ≠ ""

theorem tracks_none : none.Tracks [] := by
  constructor <;> simp [none]

theorem Tracks.openMark {a : ActiveMarks} {stack : List Formatting} (h : a.Tracks stack)
    (mark : Mark) : (a.after (.openMark mark)).Tracks (mark.frame :: stack) := by
  have hcons := ofKind_cons_of_setsOnly mark.setsOnly_frame
  constructor
  · exact List.forall_mem_cons.mpr ⟨⟨_, mark.setsOnly_frame⟩, h.single⟩
  · intro other
    rw [hcons, h.marks other]
    simp only [after, Mark.kind_inj]
    split
    · rename_i heq
      rw [heq, List.replicate_succ]
    · rfl
  · rw [hcons, if_neg mark.kind_ne_link.symm]
    exact h.links
  · rw [hcons, if_neg mark.kind_ne_code.symm]
    exact h.code
  · exact h.targets

private theorem single_close {kind : FormattingKind} {stack : List Formatting}
    (h : ∀ f ∈ stack, ∃ kind, f.SetsOnly kind) : ∀ f ∈ close kind stack, ∃ kind, f.SetsOnly kind :=
  fun f hf => h f (mem_of_mem_close hf)

theorem Tracks.closeMark {a : ActiveMarks} {stack : List Formatting} (h : a.Tracks stack)
    (mark : Mark) : (a.after (.closeMark mark)).Tracks (close mark.kind stack) := by
  constructor
  · exact single_close h.single
  · intro other
    simp only [after]
    split
    · rename_i heq
      rw [heq, ofKind_close, h.marks, List.tail_replicate]
    · rename_i hne
      rw [ofKind_close_of_ne (fun heq => hne (Mark.kind_inj.mp heq)) h.single, h.marks]
  · rw [ofKind_close_of_ne mark.kind_ne_link.symm h.single]
    exact h.links
  · rw [ofKind_close_of_ne mark.kind_ne_code.symm h.single]
    exact h.code
  · exact h.targets

theorem Tracks.openLink {a : ActiveMarks} {stack : List Formatting} (h : a.Tracks stack)
    {url : String} (hurl : url ≠ "") :
    (a.after (.openLink (some url))).Tracks ({ link := some url } :: stack) := by
  have hcons := ofKind_cons_of_setsOnly (setsOnly_link url)
  simp only [after, if_neg hurl]
  constructor
  · exact List.forall_mem_cons.mpr ⟨⟨_, setsOnly_link url⟩, h.single⟩
  · intro mark
    rw [hcons, if_neg mark.kind_ne_link]
    exact h.marks mark
  · rw [hcons, if_pos rfl, h.links]
    rfl
  · rw [hcons, if_neg (by decide)]
    exact h.code
  · exact List.forall_mem_cons.mpr ⟨hurl, h.targets⟩

theorem Tracks.closeLink {a : ActiveMarks} {stack : List Formatting} (h : a.Tracks stack) :
    (a.after .closeLink).Tracks (close .link stack) := by
  constructor
  · exact single_close h.single
  · intro mark
    rw [ofKind_close_of_ne mark.kind_ne_link h.single]
    exact h.marks mark
  · rw [ofKind_close, h.links]
    simp only [after, List.map_tail]
  · rw [ofKind_close_of_ne (by decide) h.single]
    exact h.code
  · exact fun url hmem => h.targets url (List.mem_of_mem_tail hmem)

/-! ## Merging -/

private theorem head?_replicate_bind {n : Nat} {f : Formatting} (value : Formatting → Option Bool)
    (h : value f = some true) :
    (List.replicate n f).head?.bind value = if 0 < n then some true else .none := by
  cases n with
  | zero => rfl
  | succ n => simp [List.replicate_succ, h]

theorem Tracks.merge_eq {a : ActiveMarks} {stack : List Formatting} (h : a.Tracks stack) :
    merge stack = a.formatting false := by
  have hbold := h.marks .strong
  have hitalic := h.marks .emphasis
  have hstrikethrough := h.marks .strikethrough
  simp only [Mark.kind] at hbold hitalic hstrikethrough
  rw [Formatting.merge_eq, hbold, hitalic, hstrikethrough, h.links, h.code]
  rw [head?_replicate_bind _ rfl, head?_replicate_bind _ rfl, head?_replicate_bind _ rfl]
  simp only [formatting]
  cases a.links <;> rfl

/-- The frame of a leaf of code adds to what is active. -/
theorem Tracks.merge_code {a : ActiveMarks} {stack : List Formatting} (h : a.Tracks stack) :
    merge ({ code := some true } :: stack) = a.formatting true := by
  have hmerge := h.merge_eq
  simp only [merge, formatting, Formatting.mk.injEq] at hmerge
  obtain ⟨hbold, hitalic, hstrikethrough, -, hlink⟩ := hmerge
  simp only [merge, List.findSome?_cons, hbold, hitalic, hstrikethrough, hlink]
  rfl

end ActiveMarks
end MarkdownEdits
