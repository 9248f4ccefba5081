import MarkdownEdits.Conversion
import MarkdownEdits.Proofs.ActiveMarks
import MarkdownEdits.Proofs.DraftPieces

/-!
# Leaves of runs

The leaves of a run are the texts and the code that it comes upon and inserts, each with the marks
that are active there. The styled texts of a draft are those of its leaves, in turn.
-/
namespace MarkdownEdits

/-- A leaf that inserts text, with what is active there. -/
structure Leaf where
  index : Int
  text : String
  active : ActiveMarks
  isCode : Bool

namespace Leaf

def span (l : Leaf) : Span := ⟨l.index, l.index + Utf16.length l.text⟩

def styledText (l : Leaf) : StyledText := ⟨l.span, l.active.formatting l.isCode⟩

/-- Whether a token is a leaf, and then whether it is one of code. -/
def isCode? : Token → Option Bool
  | .text _ => some false
  | .codeSpan _ => some true
  | _ => none

/-- The leaf of a token that inserts what is given, if it is a leaf and inserts text. -/
def ofInsertions? (active : ActiveMarks) (inserted : List Insertion) (t : Token) : Option Leaf :=
  match isCode? t, inserted with
  | some isCode, [.text location content] => some ⟨location.index, content, active, isCode⟩
  | _, _ => none

end Leaf

namespace Draft

/-- What a draft has inserted since an earlier one. -/
def insertedSince (next d : Draft) : List Insertion := next.insertions.toList.drop d.insertions.size

/-- The leaves of a run over atoms, given what is active at its start. -/
def leaves (d : Draft) (active : ActiveMarks) : List Token → List Leaf
  | [] => []
  | t :: rest =>
    match d.step t with
    | .ok next =>
      (Leaf.ofInsertions? active (next.insertedSince d) t).toList ++
        next.leaves (active.after t) rest
    | .error _ => []

theorem Emits.insertedSince_eq {d next : Draft} {pieces : List Piece} (h : d.Emits pieces next) :
    next.insertedSince d = Piece.layOut d.tab d.cursor pieces := by
  have hsize : d.insertions.size = d.insertions.toList.length := Array.length_toList.symm
  rw [insertedSince, h.insertions, hsize, List.drop_left]

/-! ## Leaves that are inserted -/

private theorem ofInsertions?_ofText {t : Token} {isCode : Bool} (ht : Leaf.isCode? t = some isCode)
    (active : ActiveMarks) (tab : Option String) (index : Int) (text : String) :
    Leaf.ofInsertions? active (Piece.layOut tab index (Piece.ofText text)) t =
      if text = "" then none else some ⟨index, text, active, isCode⟩ := by
  by_cases h : text = ""
  · simp [Leaf.ofInsertions?, Piece.ofText, Piece.layOut, ht, h]
  · simp [Leaf.ofInsertions?, Piece.ofText, Piece.layOut, Piece.insertions, ht, h]

/-- A text is recorded if its formatting shows. -/
private theorem styledTexts_insertStyled (d : Draft) (text : String) :
    (d.insertStyled text).records.styledTexts.toList = d.records.styledTexts.toList ++
      [⟨⟨d.cursor, d.cursor + Utf16.length text⟩, d.activeFormatting⟩].filter
        fun styled : StyledText => styled.formatting.isVisible := by
  rw [insertStyled]
  cases hvisible : d.activeFormatting.isVisible with
  | true => simp [hvisible, record, insertText]
  | false => simp [hvisible, insertText]

private theorem styledTexts_insertLeaf {d : Draft} {active : ActiveMarks} {isCode : Bool}
    (h : d.activeFormatting = active.formatting isCode) (text : String) :
    (d.insertLeaf text).records.styledTexts.toList = d.records.styledTexts.toList ++
      ((if d.leafText text = "" then none
        else some ⟨d.cursor, d.leafText text, active, isCode⟩).toList.map Leaf.styledText).filter
          fun styled => styled.formatting.isVisible := by
  by_cases htext : text = ""
  · simp [htext]
  · have hmarked := d.keepsStyles_takeMarker text
    have hcursor := (d.emits_takeMarker text).cursor
    rw [d.insertLeaf_eq htext]
    generalize (d.takeMarker text).1 = marked at hmarked hcursor
    split
    · simp [hmarked.texts]
    · have hactive : marked.activeFormatting = active.formatting isCode := by
        rw [activeFormatting, hmarked.formatting]
        exact h
      rw [styledTexts_insertStyled, hmarked.texts, hactive, hcursor]
      simp [Leaf.styledText, Leaf.span]

/-! ## Runs -/

/-- What an atom does to the active marks and to the styled texts. -/
structure StepsLeaf (d : Draft) (active : ActiveMarks) (t : Token) (next : Draft) : Prop where
  tracks : (active.after t).Tracks next.formatting
  texts : next.records.styledTexts.toList = d.records.styledTexts.toList ++
    ((Leaf.ofInsertions? active (next.insertedSince d) t).toList.map Leaf.styledText).filter
      fun styled => styled.formatting.isVisible

theorem stepsLeaf {d next : Draft} {active : ActiveMarks} {t : Token} (ht : t.IsAtom)
    (h : active.Tracks d.formatting) (hs : d.step t = .ok next) : d.StepsLeaf active t next := by
  -- Most atoms are no leaves and touch neither marks nor styled texts.
  have keeps {e : Draft} (ha : active.after t = active) (hleaf : Leaf.isCode? t = none)
      (hk : d.KeepsStyles e) : d.StepsLeaf active t e := by
    constructor
    · rw [ha, hk.formatting]
      exact h
    · simp [Leaf.ofInsertions?, hleaf, hk.texts]
  -- Opening and closing marks change the stack alone.
  have marks {e : Draft} (htracks : (active.after t).Tracks e.formatting)
      (hleaf : Leaf.isCode? t = none) (hk : e.records = d.records) : d.StepsLeaf active t e := by
    constructor
    · exact htracks
    · simp [Leaf.ofInsertions?, hleaf, hk]
  cases t with
  | inline children => exact ht.elim
  | text content =>
    cases hs
    constructor
    · rw [formatting_insertLeaf]
      exact h
    · rw [(emits_insertLeaf d content).insertedSince_eq, ofInsertions?_ofText rfl]
      exact styledTexts_insertLeaf h.merge_eq content
  | codeSpan content =>
    cases hs
    have hcode : (d.openFormatting { code := some true }).activeFormatting =
        active.formatting true := h.merge_code
    constructor
    · have hclosed : (d.insertCode content).formatting = d.formatting := by
        simp only [insertCode, closeFormatting, formatting_insertLeaf]
        exact Formatting.close_cons_of_sets rfl _
      rw [hclosed]
      exact h
    · rw [(emits_insertCode d content).insertedSince_eq, ofInsertions?_ofText rfl]
      exact styledTexts_insertLeaf hcode content
  | openMark mark => cases hs; exact marks (h.openMark mark) rfl rfl
  | closeMark mark => cases hs; exact marks (h.closeMark mark) rfl rfl
  | openLink target =>
    cases hs
    cases target with
    | none => exact keeps rfl rfl ⟨rfl, rfl⟩
    | some url =>
      by_cases hurl : url = ""
      · simp only [openLink, if_pos hurl]
        refine keeps ?_ rfl ⟨rfl, rfl⟩
        simp [ActiveMarks.after, hurl]
      · simp only [openLink, if_neg hurl]
        exact marks (h.openLink hurl) rfl rfl
  | closeLink => cases hs; exact marks h.closeLink rfl rfl
  | softBreak => cases hs; exact keeps rfl rfl ⟨rfl, rfl⟩
  | hardBreak => cases hs; exact keeps rfl rfl ⟨rfl, rfl⟩
  | openHeading tag => cases hs; exact keeps rfl rfl (d.keepsContent_openHeading tag).toKeepsStyles
  | closeHeading => cases hs; exact keeps rfl rfl d.keepsContent_closeHeading.toKeepsStyles
  | openParagraph => cases hs; exact keeps rfl rfl d.keepsContent_openParagraph.toKeepsStyles
  | closeParagraph => cases hs; exact keeps rfl rfl d.keepsStyles_closeParagraph
  | openList kind => cases hs; exact keeps rfl rfl ⟨rfl, rfl⟩
  | closeList kind => cases hs; exact keeps rfl rfl d.keepsContent_closeList.toKeepsStyles
  | openItem => exact keeps rfl rfl (keepsStyles_openItem hs)
  | closeItem => cases hs; exact keeps rfl rfl d.keepsStyles_closeItem
  | codeBlock content info =>
    cases hs
    exact keeps rfl rfl (d.keepsContent_insertCodeBlock content info).toKeepsStyles
  | rule => cases hs; exact keeps rfl rfl d.keepsContent_insertRule.toKeepsStyles
  | skipped type children => cases hs; exact keeps rfl rfl ⟨rfl, rfl⟩
  | malformed type words => cases hs

/-- The styled texts of a run are those of its leaves that show. -/
theorem styledTexts_steps {d final : Draft} {active : ActiveMarks} {atoms : List Token}
    (hatoms : ∀ t ∈ atoms, t.IsAtom) (h : active.Tracks d.formatting)
    (hs : d.steps atoms = .ok final) :
    final.records.styledTexts.toList = d.records.styledTexts.toList ++
      ((d.leaves active atoms).map Leaf.styledText).filter
        fun styled => styled.formatting.isVisible := by
  induction atoms generalizing d active with
  | nil =>
    rw [steps_nil] at hs
    cases hs
    simp [leaves]
  | cons t rest ih =>
    obtain ⟨ht, hrest⟩ := List.forall_mem_cons.mp hatoms
    obtain ⟨next, hnext, hfinal⟩ := steps_cons_eq_ok.mp hs
    have hleaf := stepsLeaf ht h hnext
    rw [ih hrest hleaf.tracks hfinal, hleaf.texts, List.append_assoc]
    simp only [leaves, hnext, List.map_append, List.filter_append]

/-! ## Where leaves stand -/

/-- Leaves that stand one behind the other, each with an insertion of its own. -/
structure LaysLeaves (d : Draft) (leaves : List Leaf) (final : Draft) : Prop where
  nonempty : ∀ l ∈ leaves, l.text ≠ ""
  targets : ∀ l ∈ leaves, ∀ url ∈ l.active.links, url ≠ ""
  start_le : ∀ l ∈ leaves, d.cursor ≤ l.index
  ordered : leaves.Pairwise fun a b => a.span.stop ≤ b.span.start
  inserted : (leaves.map fun l => Insertion.text ⟨l.index, d.tab⟩ l.text).Sublist
    (final.insertedSince d)

private theorem leaf_eq_of_emits {d next : Draft} {active : ActiveMarks} {t : Token} {isCode : Bool}
    {text : String} {l : Leaf} (ht : Leaf.isCode? t = some isCode)
    (he : d.Emits (Piece.ofText text) next)
    (hl : Leaf.ofInsertions? active (next.insertedSince d) t = some l) :
    l.index = d.cursor ∧ l.active = active ∧ l.text ≠ "" ∧ l.span.stop = next.cursor ∧
      next.insertedSince d = [.text ⟨l.index, d.tab⟩ l.text] := by
  rw [he.insertedSince_eq, ofInsertions?_ofText ht] at hl
  split at hl
  · cases hl
  · rename_i htext
    cases hl
    have hcursor := he.cursor
    simp only [Piece.ofText, if_neg htext] at hcursor
    refine ⟨rfl, rfl, htext, ?_, ?_⟩
    · simpa [Leaf.span, Piece.units] using hcursor.symm
    · rw [he.insertedSince_eq]
      simp [Piece.ofText, htext, Piece.layOut, Piece.insertions]

private theorem leaf_eq_of_step {d next : Draft} {active : ActiveMarks} {t : Token} {l : Leaf}
    (hs : d.step t = .ok next)
    (hl : Leaf.ofInsertions? active (next.insertedSince d) t = some l) :
    l.index = d.cursor ∧ l.active = active ∧ l.text ≠ "" ∧ l.span.stop = next.cursor ∧
      next.insertedSince d = [.text ⟨l.index, d.tab⟩ l.text] := by
  cases t with
  | text content => cases hs; exact leaf_eq_of_emits rfl (emits_insertLeaf d content) hl
  | codeSpan content => cases hs; exact leaf_eq_of_emits rfl (emits_insertCode d content) hl
  | _ => cases hl

theorem laysLeaves_steps {d final : Draft} {active : ActiveMarks} {atoms : List Token}
    (hatoms : ∀ t ∈ atoms, t.IsAtom) (h : active.Tracks d.formatting)
    (hs : d.steps atoms = .ok final) : d.LaysLeaves (d.leaves active atoms) final := by
  induction atoms generalizing d active with
  | nil => constructor <;> simp [leaves]
  | cons t rest ih =>
    obtain ⟨ht, hrest⟩ := List.forall_mem_cons.mp hatoms
    obtain ⟨next, hnext, hfinal⟩ := steps_cons_eq_ok.mp hs
    obtain ⟨pieces, he, -⟩ := emits_step ht hnext
    obtain ⟨more, he', -⟩ := emits_steps hfinal
    have hlays := ih hrest (stepsLeaf ht h hnext).tracks hfinal
    have hcursor := he.cursor_le
    have hsince : final.insertedSince d = next.insertedSince d ++ final.insertedSince next := by
      rw [(he.trans he').insertedSince_eq, he.insertedSince_eq, he'.insertedSince_eq,
        Piece.layOut_append, he.cursor, he.tab]
    have hinserted := hlays.inserted
    rw [he.tab] at hinserted
    simp only [leaves, hnext]
    cases hleaf : Leaf.ofInsertions? active (next.insertedSince d) t with
    | none =>
      simp only [Option.toList_none, List.nil_append]
      refine ⟨hlays.nonempty, hlays.targets, fun l hl => ?_, hlays.ordered, ?_⟩
      · exact Int.le_trans hcursor (hlays.start_le l hl)
      · rw [hsince]
        exact hinserted.trans (List.sublist_append_right _ _)
    | some l =>
      obtain ⟨hindex, hactive, htext, hstop, hnew⟩ := leaf_eq_of_step hnext hleaf
      simp only [Option.toList_some, List.singleton_append]
      refine ⟨?_, ?_, ?_, ?_, ?_⟩
      · exact List.forall_mem_cons.mpr ⟨htext, hlays.nonempty⟩
      · refine List.forall_mem_cons.mpr ⟨?_, hlays.targets⟩
        rw [hactive]
        exact h.targets
      · refine List.forall_mem_cons.mpr ⟨Int.le_of_eq hindex.symm, fun m hm => ?_⟩
        exact Int.le_trans hcursor (hlays.start_le m hm)
      · refine List.pairwise_cons.mpr ⟨fun m hm => ?_, hlays.ordered⟩
        rw [hstop]
        exact hlays.start_le m hm
      · rw [hsince, hnew, List.map_cons, List.singleton_append]
        exact hinserted.cons_cons _

end Draft
end MarkdownEdits
