import MarkdownEdits.Proofs.StepEffects
import MarkdownEdits.Proofs.WellNestedStreams

/-!
# Open lists and items of a stream

Which lists are open behind some tokens, and how many items, follows from the tokens alone. Drafts
keep the same account. In a well-nested stream no item is open where no list is.
-/
namespace MarkdownEdits
namespace Token

/-- The kinds of the open lists after one more token, innermost first. A close of either kind takes
the innermost list away, if one is open. -/
def nextLists (kinds : List ListKind) : Token → List ListKind
  | openList kind => kind :: kinds
  | closeList _ => kinds.tail
  | _ => kinds

/-- How many items are open after one more token. -/
def nextDepth (depth : Nat) : Token → Nat
  | openItem => depth + 1
  | closeItem => depth - 1
  | _ => depth

/-- The kinds of the lists that are open behind some atoms, given those open before. -/
def openLists (kinds : List ListKind) (atoms : List Token) : List ListKind :=
  atoms.foldl nextLists kinds

/-- How many items are open behind some atoms, given how many are open before. -/
def itemDepth (depth : Nat) (atoms : List Token) : Nat := atoms.foldl nextDepth depth

theorem openLists_append (kinds : List ListKind) (xs ys : List Token) :
    openLists kinds (xs ++ ys) = openLists (openLists kinds xs) ys := List.foldl_append

theorem itemDepth_append (depth : Nat) (xs ys : List Token) :
    itemDepth depth (xs ++ ys) = itemDepth (itemDepth depth xs) ys := List.foldl_append

/-! ## Inline content -/

/-- A token of inline content. -/
def IsInline : Token → Prop
  | text _ | codeSpan _ | openMark _ | closeMark _ | openLink _ | closeLink | softBreak | hardBreak
  | skipped .. => True
  | _ => False

theorem IsLeaf.isInline {t : Token} (h : t.IsLeaf) : t.IsInline := by
  cases t <;> first | exact h.elim | trivial

theorem IsInline.isAtom {t : Token} (h : t.IsInline) : t.IsAtom := by
  cases t <;> first | exact h.elim | trivial

theorem WellMarked.isInline {linked : Bool} {children : List Token}
    (h : WellMarked linked children) : ∀ t ∈ children, t.IsInline := by
  induction h with
  | nil => simp
  | leaf ht _ ih => exact List.forall_mem_cons.mpr ⟨ht.isInline, ih⟩
  | mark mark _ _ hinner hrest =>
    rw [List.cons_append, List.forall_mem_cons, List.forall_mem_append, List.forall_mem_cons]
    exact ⟨trivial, hinner, trivial, hrest⟩
  | link target _ _ hinner hrest =>
    rw [List.cons_append, List.forall_mem_cons, List.forall_mem_append, List.forall_mem_cons]
    exact ⟨trivial, hinner, trivial, hrest⟩

theorem atoms_of_isAtom {t : Token} (h : t.IsAtom) : t.atoms = [t] := by
  cases t with
  | inline children => exact h.elim
  | _ => simp only [atoms]

theorem atomsOf_of_isAtom {tokens : List Token} (h : ∀ t ∈ tokens, t.IsAtom) :
    atomsOf tokens = tokens := by
  induction tokens with
  | nil => exact atomsOf_nil
  | cons t rest ih =>
    obtain ⟨ht, hrest⟩ := List.forall_mem_cons.mp h
    rw [atomsOf, atoms_of_isAtom ht, ih hrest]
    rfl

theorem atomsOf_append (xs ys : List Token) : atomsOf (xs ++ ys) = atomsOf xs ++ atomsOf ys := by
  induction xs with
  | nil => simp
  | cons t rest ih => simp only [List.cons_append, atomsOf, ih, List.append_assoc]

/-! ## Well-nested streams -/

/-- Neither a list nor an item is opened or closed. -/
def IsFlat (t : Token) : Prop :=
  (∀ kinds, nextLists kinds t = kinds) ∧ ∀ depth, nextDepth depth t = depth

theorem IsInline.isFlat {t : Token} (h : t.IsInline) : t.IsFlat := by
  cases t <;> first | exact h.elim | exact ⟨fun _ => rfl, fun _ => rfl⟩

/-- What is opened is closed again. Blocks have no item of their own open where they have no list
open. -/
structure Closes (siblings : Siblings) (atoms : List Token) : Prop where
  lists : ∀ kinds, openLists kinds atoms = kinds
  items : ∀ depth, itemDepth depth atoms = depth
  inside : ∀ before after, atoms = before ++ after → ∀ kinds depth,
    kinds <:+ openLists kinds before ∧
      (siblings = .blocks → openLists kinds before = kinds → itemDepth depth before = depth)

theorem Closes.nil (siblings : Siblings) : Closes siblings [] where
  lists := fun _ => rfl
  items := fun _ => rfl
  inside := by
    intro before after h kinds depth
    obtain ⟨rfl, rfl⟩ := List.append_eq_nil_iff.mp h.symm
    exact ⟨List.suffix_refl kinds, fun _ _ => rfl⟩

theorem Closes.append {siblings : Siblings} {xs ys : List Token} (hx : Closes siblings xs)
    (hy : Closes siblings ys) : Closes siblings (xs ++ ys) where
  lists := fun kinds => by rw [openLists_append, hx.lists, hy.lists]
  items := fun depth => by rw [itemDepth_append, hx.items, hy.items]
  inside := by
    intro before after h kinds depth
    rcases List.append_eq_append_iff.mp h with ⟨middle, rfl, hys⟩ | ⟨middle, hxs, rfl⟩
    · rw [openLists_append, hx.lists, itemDepth_append, hx.items]
      exact hy.inside middle after hys kinds depth
    · exact hx.inside before middle hxs kinds depth

theorem Closes.cons_of_isFlat {siblings : Siblings} {t : Token} {rest : List Token}
    (ht : t.IsFlat) (h : Closes siblings rest) : Closes siblings (t :: rest) where
  lists := fun kinds => by rw [openLists, List.foldl_cons, ht.1]; exact h.lists kinds
  items := fun depth => by rw [itemDepth, List.foldl_cons, ht.2]; exact h.items depth
  inside := by
    intro before after heq kinds depth
    cases before with
    | nil => exact ⟨List.suffix_refl kinds, fun _ _ => rfl⟩
    | cons u before =>
      obtain ⟨rfl, hrest⟩ := List.cons_eq_cons.mp heq
      rw [openLists, List.foldl_cons, ht.1, itemDepth, List.foldl_cons, ht.2]
      exact h.inside before after hrest kinds depth

theorem Closes.of_isFlat {siblings : Siblings} {atoms : List Token}
    (h : ∀ t ∈ atoms, t.IsFlat) : Closes siblings atoms := by
  induction atoms with
  | nil => exact .nil siblings
  | cons t rest ih =>
    obtain ⟨ht, hrest⟩ := List.forall_mem_cons.mp h
    exact .cons_of_isFlat ht (ih hrest)

/-- Inside of a list that stands around them, items may be open. -/
theorem Closes.list {body : List Token} (kind closing : ListKind) (h : Closes .items body) :
    Closes .blocks (openList kind :: body ++ [closeList closing]) where
  lists := by
    intro kinds
    rw [openLists_append, openLists, openLists, List.foldl_cons]
    exact congrArg List.tail (h.lists (kind :: kinds))
  items := by
    intro depth
    rw [itemDepth_append]
    exact h.items depth
  inside := by
    intro before after heq kinds depth
    -- In front of the close the list itself is open.
    have hopen {part rest : List Token} (hbody : body = part ++ rest) :
        kinds <:+ openLists kinds (openList kind :: part) ∧
          (Siblings.blocks = .blocks → openLists kinds (openList kind :: part) = kinds →
            itemDepth depth (openList kind :: part) = depth) := by
      have hsuffix : (kind :: kinds) <:+ openLists kinds (openList kind :: part) :=
        (h.inside part rest hbody (kind :: kinds) depth).1
      refine ⟨(List.suffix_cons kind kinds).trans hsuffix, fun _ hsame => ?_⟩
      rw [hsame] at hsuffix
      exact absurd hsuffix.length_le (by simp)
    cases before with
    | nil => exact ⟨List.suffix_refl kinds, fun _ _ => rfl⟩
    | cons u before =>
      obtain ⟨rfl, hrest⟩ := List.cons_eq_cons.mp heq
      rcases List.append_eq_append_iff.mp hrest with ⟨middle, rfl, hmiddle⟩ | ⟨middle, hbody, -⟩
      · rcases List.append_eq_singleton_iff.mp hmiddle.symm with ⟨rfl, -⟩ | ⟨rfl, -⟩
        · exact @hopen (body ++ []) [] (by simp)
        · have hclosed : openLists kinds (openList kind :: (body ++ [closeList closing])) = kinds :=
            by
              rw [← List.cons_append, openLists_append]
              exact congrArg List.tail (h.lists (kind :: kinds))
          refine ⟨by simp only [hclosed, List.suffix_refl], fun _ _ => ?_⟩
          rw [← List.cons_append, itemDepth_append]
          exact h.items depth
      · exact hopen hbody

theorem Closes.item {body : List Token} (h : Closes .blocks body) :
    Closes .items (openItem :: body ++ [closeItem]) where
  lists := by
    intro kinds
    rw [openLists_append]
    exact h.lists kinds
  items := by
    intro depth
    rw [itemDepth_append, itemDepth, itemDepth, List.foldl_cons]
    exact congrArg (· - 1) (h.items (depth + 1))
  inside := by
    intro before after heq kinds depth
    refine ⟨?_, fun hblocks => nomatch hblocks⟩
    cases before with
    | nil => exact List.suffix_refl kinds
    | cons u before =>
      obtain ⟨rfl, hrest⟩ := List.cons_eq_cons.mp heq
      rcases List.append_eq_append_iff.mp hrest with ⟨middle, rfl, hmiddle⟩ | ⟨middle, hbody, -⟩
      · have hlists : openLists kinds (openItem :: (body ++ middle)) = kinds := by
          rw [← List.cons_append, openLists_append]
          rcases List.append_eq_singleton_iff.mp hmiddle.symm with ⟨rfl, -⟩ | ⟨rfl, -⟩
          · exact h.lists kinds
          · exact h.lists kinds
        simp only [hlists, List.suffix_refl]
      · exact (h.inside before middle hbody kinds depth).1

/-- Well-nested streams close what they open. -/
theorem WellNested.closes {siblings : Siblings} {tokens : List Token}
    (h : WellNested siblings tokens) : Closes siblings (atomsOf tokens) := by
  have hchildren {linked : Bool} {siblings : Siblings} {children : List Token}
      (hc : WellMarked linked children) : Closes siblings (atomsOf children) := by
    rw [atomsOf_of_isAtom fun t ht => (hc.isInline t ht).isAtom]
    exact .of_isFlat fun t ht => (hc.isInline t ht).isFlat
  have hrows {siblings : Siblings} {rows : List Token} (hr : TableRows rows) :
      Closes siblings (atomsOf rows) := by
    induction hr with
    | nil => exact .nil siblings
    | markup type _ ih =>
      simp only [atomsOf, atoms, List.singleton_append]
      exact .cons_of_isFlat ⟨fun _ => rfl, fun _ => rfl⟩ ih
    | cell hc _ ih =>
      simp only [atomsOf, atoms]
      exact (hchildren hc).append ih
  induction h with
  | nil => exact .nil _
  | heading level hc _ ih =>
    simp only [atomsOf, atoms, List.singleton_append]
    exact .cons_of_isFlat ⟨fun _ => rfl, fun _ => rfl⟩
      ((hchildren hc).append (.cons_of_isFlat ⟨fun _ => rfl, fun _ => rfl⟩ ih))
  | paragraph hc _ ih =>
    simp only [atomsOf, atoms, List.singleton_append]
    exact .cons_of_isFlat ⟨fun _ => rfl, fun _ => rfl⟩
      ((hchildren hc).append (.cons_of_isFlat ⟨fun _ => rfl, fun _ => rfl⟩ ih))
  | rule _ ih =>
    simp only [atomsOf, atoms, List.singleton_append]
    exact .cons_of_isFlat ⟨fun _ => rfl, fun _ => rfl⟩ ih
  | codeBlock content info _ ih =>
    simp only [atomsOf, atoms, List.singleton_append]
    exact .cons_of_isFlat ⟨fun _ => rfl, fun _ => rfl⟩ ih
  | markup _ _ ih =>
    simp only [atomsOf, atoms, List.singleton_append]
    exact .cons_of_isFlat ⟨fun _ => rfl, fun _ => rfl⟩ ih
  | quote _ _ ihbody ihrest =>
    simp only [List.cons_append, atomsOf, atomsOf_append, atoms]
    exact .cons_of_isFlat ⟨fun _ => rfl, fun _ => rfl⟩
      (ihbody.append (.cons_of_isFlat ⟨fun _ => rfl, fun _ => rfl⟩ ihrest))
  | table hr _ ih =>
    simp only [List.cons_append, atomsOf, atomsOf_append, atoms]
    exact .cons_of_isFlat ⟨fun _ => rfl, fun _ => rfl⟩
      ((hrows hr).append (.cons_of_isFlat ⟨fun _ => rfl, fun _ => rfl⟩ ih))
  | list kind _ _ ihbody ihrest =>
    simp only [List.cons_append, atomsOf, atomsOf_append, atoms]
    have hlist := (ihbody.list kind kind).append ihrest
    simpa using hlist
  | item _ _ ihbody ihrest =>
    simp only [List.cons_append, atomsOf, atomsOf_append, atoms]
    have hitem := ihbody.item.append ihrest
    simpa using hitem

/-- Outside of all lists no item is open. -/
theorem WellNested.itemDepth_eq_zero {tokens before after : List Token}
    (h : WellNested .blocks tokens) (hsplit : atomsOf tokens = before ++ after)
    (houtside : openLists [] before = []) : itemDepth 0 before = 0 :=
  (h.closes.inside before after hsplit [] 0).2 rfl houtside

end Token

/-! ## Drafts -/

namespace Draft

theorem kinds_steps {d final : Draft} {atoms : List Token} (hatoms : ∀ t ∈ atoms, t.IsAtom)
    (h : d.steps atoms = .ok final) :
    final.lists.map OpenList.kind = Token.openLists (d.lists.map OpenList.kind) atoms := by
  induction atoms generalizing d with
  | nil =>
    rw [steps_nil] at h
    cases h
    rfl
  | cons t rest ih =>
    obtain ⟨ht, hrest⟩ := List.forall_mem_cons.mp hatoms
    obtain ⟨next, hnext, hfinal⟩ := steps_cons_eq_ok.mp h
    rw [ih hrest hfinal, lists_step ht hnext, Token.openLists, Token.openLists, List.foldl_cons]
    congr 1
    cases t <;> simp [Token.nextLists]

theorem length_openItems_steps {d final : Draft} {atoms : List Token}
    (hatoms : ∀ t ∈ atoms, t.IsAtom) (h : d.steps atoms = .ok final) :
    final.openItems.length = Token.itemDepth d.openItems.length atoms := by
  induction atoms generalizing d with
  | nil =>
    rw [steps_nil] at h
    cases h
    rfl
  | cons t rest ih =>
    obtain ⟨ht, hrest⟩ := List.forall_mem_cons.mp hatoms
    obtain ⟨next, hnext, hfinal⟩ := steps_cons_eq_ok.mp h
    rw [ih hrest hfinal, openItems_step ht hnext, Token.itemDepth, Token.itemDepth,
      List.foldl_cons]
    congr 1
    cases t <;> simp [Token.nextDepth]

end Draft
end MarkdownEdits
