import MarkdownEdits.Proofs.FirstTexts
import MarkdownEdits.Proofs.LineStarts

/-!
# Begun lines

An item inserts its tabs, and a block or a cell its content, in the line that they come to, and they
need not end it. Of the other tokens some end the line and the rest insert nothing. So the tokens in
front of a place tell whether its line is begun there. What each of them inserts depends on those in
front of it: on how many lists they open, and on whether an item awaits its first text.
-/
namespace MarkdownEdits
namespace Token

/-- What a token inserts in the line that it comes to, given the tokens in front of it: tabs, content
or nothing. Of a token that ends the line this does not hold for any text. -/
def InsertsInLine (before : List Token) (text : String) : Token → Prop
  | openItem => text = String.ofList
      (List.replicate ((openLists [] (atomsOf before)).length - 1) listIndent)
  | inline children => ∃ awaits : Bool, (awaits = true ↔ AwaitsFirstText (atomsOf before)) ∧
      text = insertedText awaits children
  | t => t.IsMarkup ∧ text = ""

/-- Some token in front has begun a line without ending it, and those behind it insert nothing. -/
inductive FollowsBegunLine : List Token → Prop
  | begins {before t text} (ht : t.InsertsInLine before text) (htext : text ≠ "")
      (hline : endsLine text = false) : FollowsBegunLine (before ++ [t])
  | keeps {before t} (hbefore : FollowsBegunLine before) (ht : t.InsertsInLine before "") :
      FollowsBegunLine (before ++ [t])

variable {before : List Token} {t : Token} {text other : String}

theorem InsertsInLine.unique (h : t.InsertsInLine before text)
    (hother : t.InsertsInLine before other) : text = other := by
  cases t with
  | openItem => exact Eq.trans h (Eq.symm hother)
  | inline children =>
    obtain ⟨awaits, hawaits, rfl⟩ := h
    obtain ⟨awaits', hawaits', rfl⟩ := hother
    rw [Bool.eq_iff_iff.mpr (hawaits.trans hawaits'.symm)]
  | _ => exact h.2.trans hother.2.symm

theorem EndsLine.not_insertsInLine (h : t.EndsLine) : ¬t.InsertsInLine before text := by
  intro hinserts
  cases t <;> first | exact h.elim | exact hinserts.1.elim

theorem IsMarkup.insertsInLine (h : t.IsMarkup) : t.InsertsInLine before "" := by
  cases t <;> first | exact h.elim | exact ⟨h, rfl⟩

theorem not_followsBegunLine_nil : ¬FollowsBegunLine [] := by
  generalize hnil : ([] : List Token) = tokens
  rintro (_ | _) <;> simp at hnil

/-- The last token begins the line or keeps it begun. -/
theorem FollowsBegunLine.exists_insertsInLine (h : FollowsBegunLine (before ++ [t])) :
    ∃ text, t.InsertsInLine before text ∧
      if text = "" then FollowsBegunLine before else endsLine text = false := by
  generalize hconcat : before ++ [t] = tokens at h
  cases h with
  | begins ht htext hline =>
    obtain ⟨rfl, hlast⟩ := List.append_inj' hconcat rfl
    obtain rfl := List.singleton_inj.mp hlast
    exact ⟨_, ht, by rwa [if_neg htext]⟩
  | keeps hbefore ht =>
    obtain ⟨rfl, hlast⟩ := List.append_inj' hconcat rfl
    obtain rfl := List.singleton_inj.mp hlast
    exact ⟨_, ht, by rwa [if_pos rfl]⟩

theorem followsBegunLine_concat_iff (h : t.InsertsInLine before text) :
    FollowsBegunLine (before ++ [t]) ↔
      if text = "" then FollowsBegunLine before else endsLine text = false := by
  constructor
  · intro hbegun
    obtain ⟨other, hother, hline⟩ := hbegun.exists_insertsInLine
    rwa [h.unique hother]
  · split
    · rename_i htext
      exact fun hbefore => .keeps hbefore (htext ▸ h)
    · rename_i htext
      exact fun hline => .begins h htext hline

theorem EndsLine.not_followsBegunLine (h : t.EndsLine) : ¬FollowsBegunLine (before ++ [t]) := by
  intro hbegun
  obtain ⟨_, hinserts, -⟩ := hbegun.exists_insertsInLine
  exact h.not_insertsInLine hinserts

end Token

namespace Draft

section Start

variable {first : Int} {tab : Option String} {headingAsTitle : Bool} {d next : Draft} {t : Token}
  {tokens before after : List Token}

/-- The innermost of the open lists has the highest level. -/
theorem level_of_steps {list : OpenList} {outer : List OpenList}
    (hd : (Draft.start first tab headingAsTitle).steps before = .ok d)
    (hlists : d.lists = list :: outer) :
    list.level + 1 = (Token.openLists [] (Token.atomsOf before)).length := by
  have hlevels := levels_steps hd
  rw [hlists, List.reverse_cons, List.map_append, List.length_cons, List.range_succ] at hlevels
  obtain ⟨-, hlevel⟩ := List.append_inj' hlevels rfl
  rw [← length_lists_of_steps hd, hlists, List.length_cons]
  exact congrArg (· + 1) (List.singleton_inj.mp hlevel)

/-- A token that does not end the line inserts what the tokens in front of it tell. -/
theorem insertsInLine_step (hd : (Draft.start first tab headingAsTitle).steps before = .ok d)
    (ht : t.IsMarkup ∨ t = .openItem ∨
      ∃ children, t = .inline children ∧ ∀ u ∈ children, u.IsInline)
    (hs : d.step t = .ok next) : ∃ text pieces, t.InsertsInLine before text ∧
      d.Emits pieces next ∧ Piece.unitsOf pieces = DocumentUnit.ofText text := by
  rcases ht with hmarkup | rfl | ⟨children, rfl, hc⟩
  · exact ⟨"", [], hmarkup.insertsInLine, emits_step_of_isMarkup hmarkup hs,
      DocumentUnit.ofText_empty.symm⟩
  · obtain ⟨list, outer, hlists, he⟩ := emits_openItem hs
    refine ⟨_, _, ?_, he, Piece.unitsOf_ofText _⟩
    rw [Token.InsertsInLine, ← level_of_steps hd hlists, Nat.add_sub_cancel]
  · rw [step] at hs
    obtain ⟨pieces, hpieces, hunits⟩ := emits_steps_of_isInline hc hs
    rw [← steps_atomsOf] at hd
    exact ⟨_, pieces, ⟨_, awaitsText_iff (Token.isAtom_of_mem_atomsOf before) hd, rfl⟩, hpieces,
      hunits⟩

/-- In a well-nested stream a line is open exactly where the tokens in front have begun one. -/
theorem lineOpen_iff_followsBegunLine (h : Token.WellNested .blocks tokens)
    (hsplit : tokens = before ++ after)
    (hd : (Draft.start first tab headingAsTitle).steps before = .ok d) :
    d.LineOpen first ↔ Token.FollowsBegunLine before := by
  have hstart : (Draft.start first tab headingAsTitle).LineOpen first ↔
      Token.FollowsBegunLine [] :=
    iff_of_false (fun hopen => Int.lt_irrefl _ hopen.1) Token.not_followsBegunLine_nil
  refine invariant_parts (P := fun before d => d.LineOpen first ↔ Token.FollowsBegunLine before)
    ?_ hstart hsplit hd
  intro init t after e next hsplit he ih hs
  rcases (h.isBlockToken t (by simp [hsplit])).cases with hends | hrest
  · have hline := endsWithNewline_step hends (finds_of_split h hsplit he) hs
    exact iff_of_false (fun hopen => Bool.false_ne_true (hopen.2.symm.trans hline))
      hends.not_followsBegunLine
  · obtain ⟨text, pieces, hinserts, hpieces, hunits⟩ := insertsInLine_step he hrest hs
    obtain ⟨document, hgrows, -⟩ := growsTo_start he
    have hfirst : document.first = first := hgrows.first_eq
    have hopen := hgrows.yields.lineOpen_of_emits hpieces hunits
    rw [hfirst] at hopen
    rw [hopen, Token.followsBegunLine_concat_iff hinserts]
    split
    · exact ih
    · rfl

end Start

end Draft
end MarkdownEdits
