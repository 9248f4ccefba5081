import MarkdownEdits.DocumentRequests
import MarkdownEdits.Utf16

/-!
# Replaying insertions

A document is a run of units from a first index on. Insertions are carried out in turn, each at
its own index. Insertions that lay pieces end to end give the document that the units of the
pieces make up.
-/
namespace MarkdownEdits

theorem Utf16.length_pos {text : String} (h : text ≠ "") : 0 < length text := by
  apply Nat.pos_of_ne_zero
  intro hzero
  exact h (String.toList_eq_nil_iff.mp ((widthOf_eq_zero_iff _).mp hzero))

/-- A unit of a text, or a mark of a table's structure. -/
inductive DocumentUnit where
  | code (unit : UInt16)
  | table
  | row
  | cell
  | cellEnd
  | tableEnd
  deriving DecidableEq, Repr

namespace DocumentUnit

def newline : DocumentUnit := .code 10

def ofText (text : String) : List DocumentUnit := (Utf16.units text).map .code

/-- The units of a table of one cell that stand before the cell's text. -/
def beforeCellText : List DocumentUnit := [newline, table, row, cell]

/-- The units of a table of one cell that stand behind the cell's text. -/
def afterCellText : List DocumentUnit := [cellEnd, tableEnd]

@[simp] theorem length_ofText (text : String) : (ofText text).length = Utf16.length text := by
  simp [ofText, Utf16.length_units]

@[simp] theorem ofText_empty : ofText "" = [] := rfl

theorem ofText_ne_nil {text : String} (h : text ≠ "") : ofText text ≠ [] := by
  rw [← List.length_pos_iff, length_ofText]
  exact Utf16.length_pos h

end DocumentUnit

structure Document where
  first : Int
  units : List DocumentUnit
  deriving DecidableEq, Repr

namespace Document

def empty (first : Int) : Document := ⟨first, []⟩

/-- The index behind the last unit. -/
def stop (d : Document) : Int := d.first + d.units.length

def unitAt? (d : Document) (index : Int) : Option DocumentUnit :=
  if d.first ≤ index then d.units[(index - d.first).toNat]? else none

/-- The document with units put in at an index, which lies inside it or at its end. -/
def insert? (d : Document) (index : Int) (new : List DocumentUnit) : Option Document :=
  if d.first ≤ index ∧ index ≤ d.stop then
    let before := (index - d.first).toNat
    some { d with units := d.units.take before ++ new ++ d.units.drop before }
  else none

/-- Carries out an insertion. Only tables of one cell have a known layout. -/
def execute? (d : Document) : Insertion → Option Document
  | .text location content => d.insert? location.index (DocumentUnit.ofText content)
  | .table location rows columns =>
    if rows = 1 ∧ columns = 1 then
      d.insert? location.index (DocumentUnit.beforeCellText ++ DocumentUnit.afterCellText)
    else none

def replay? (d : Document) (insertions : List Insertion) : Option Document :=
  insertions.foldlM execute? d

def append (d : Document) (new : List DocumentUnit) : Document :=
  { d with units := d.units ++ new }

@[simp] theorem first_append (d : Document) (new : List DocumentUnit) :
    (d.append new).first = d.first := rfl

@[simp] theorem units_append (d : Document) (new : List DocumentUnit) :
    (d.append new).units = d.units ++ new := rfl

@[simp] theorem stop_append (d : Document) (new : List DocumentUnit) :
    (d.append new).stop = d.stop + new.length := by
  simp [stop, Int.add_assoc]

@[simp] theorem stop_empty (first : Int) : (empty first).stop = first := by
  simp [stop, empty]

@[simp] theorem replay?_nil (d : Document) : d.replay? [] = some d := rfl

theorem replay?_cons (d : Document) (i : Insertion) (is : List Insertion) :
    d.replay? (i :: is) = (d.execute? i).bind (·.replay? is) := rfl

theorem replay?_append (d : Document) (is js : List Insertion) :
    d.replay? (is ++ js) = (d.replay? is).bind (·.replay? js) := List.foldlM_append ..

/-- What is appended to a document does not change the units that it has. -/
theorem unitAt?_append {d : Document} {index : Int} {u : DocumentUnit}
    (h : d.unitAt? index = some u) (new : List DocumentUnit) :
    (d.append new).unitAt? index = some u := by
  rw [unitAt?] at h ⊢
  split at h
  · rename_i hfirst
    have hlt := (List.getElem?_eq_some_iff.mp h).1
    simp only [first_append, units_append, hfirst, ↓reduceIte]
    rw [List.getElem?_append_left hlt, h]
  · cases h

/-- The last unit stands before the index behind the document. -/
theorem unitAt?_pred_stop (d : Document) : d.unitAt? (d.stop - 1) = d.units.getLast? := by
  rw [unitAt?, stop]
  rw [List.getLast?_eq_getElem?]
  by_cases h : d.units.length = 0
  · simp [List.eq_nil_of_length_eq_zero h]
  · have hle : d.first ≤ d.first + d.units.length - 1 := by omega
    have heq : (d.first + d.units.length - 1 - d.first).toNat = d.units.length - 1 := by omega
    rw [if_pos hle, heq]

private theorem insert?_between (first : Int) (xs ys new : List DocumentUnit) :
    (⟨first, xs ++ ys⟩ : Document).insert? (first + xs.length) new =
      some ⟨first, xs ++ new ++ ys⟩ := by
  have hbounds : first ≤ first + xs.length ∧
      first + xs.length ≤ (⟨first, xs ++ ys⟩ : Document).stop := by
    simp only [stop, List.length_append]
    omega
  have hbefore : (first + xs.length - first : Int).toNat = xs.length := by omega
  simp only [insert?, if_pos hbounds, hbefore, List.take_left, List.drop_left]

theorem insert?_stop (d : Document) (new : List DocumentUnit) :
    d.insert? d.stop new = some (d.append new) := by
  have h := insert?_between d.first d.units [] new
  simp only [List.append_nil] at h
  exact h

end Document

/-- A part of a document that is inserted at its end: a text, or a table of one cell with the text
in the cell. -/
inductive Piece where
  | text (content : String)
  | table (content : String)
  deriving DecidableEq, Repr

namespace Piece

def units : Piece → List DocumentUnit
  | text content => DocumentUnit.ofText content
  | table content =>
    DocumentUnit.beforeCellText ++ DocumentUnit.ofText content ++ DocumentUnit.afterCellText

def insertions (tab : Option String) (start : Int) : Piece → List Insertion
  | text content => [.text ⟨start, tab⟩ content]
  | table content =>
    .table ⟨start, tab⟩ 1 1 ::
      if content = "" then [] else [.text ⟨start + cellContentOffset, tab⟩ content]

def cellText? : Piece → Option String
  | text _ => none
  | table content => some content

/-- A piece that takes up units of its own. -/
def IsProper : Piece → Prop
  | text content => content ≠ ""
  | table _ => True

theorem units_ne_nil {p : Piece} (h : p.IsProper) : p.units ≠ [] := by
  cases p with
  | text content => exact DocumentUnit.ofText_ne_nil h
  | table content => simp [units, DocumentUnit.beforeCellText]

def unitsOf (pieces : List Piece) : List DocumentUnit := pieces.flatMap units

def width (pieces : List Piece) : Int := (unitsOf pieces).length

/-- The insertions that lay pieces end to end from an index on. -/
def layOut (tab : Option String) : Int → List Piece → List Insertion
  | _, [] => []
  | start, p :: ps => p.insertions tab start ++ layOut tab (start + p.units.length) ps

@[simp] theorem unitsOf_nil : unitsOf [] = [] := rfl

@[simp] theorem unitsOf_cons (p : Piece) (ps : List Piece) :
    unitsOf (p :: ps) = p.units ++ unitsOf ps := rfl

@[simp] theorem unitsOf_append (ps qs : List Piece) :
    unitsOf (ps ++ qs) = unitsOf ps ++ unitsOf qs := List.flatMap_append

@[simp] theorem width_nil : width [] = 0 := rfl

@[simp] theorem width_cons (p : Piece) (ps : List Piece) :
    width (p :: ps) = p.units.length + width ps := by
  simp [width]

@[simp] theorem width_append (ps qs : List Piece) : width (ps ++ qs) = width ps + width qs := by
  simp [width]

theorem length_units_table (content : String) :
    ((table content).units.length : Int) = emptyTableSize + Utf16.length content := by
  simp only [units, List.length_append, DocumentUnit.length_ofText, emptyTableSize]
  simp only [DocumentUnit.beforeCellText, DocumentUnit.afterCellText, List.length_cons,
    List.length_nil]
  omega

theorem layOut_append (tab : Option String) (start : Int) (ps qs : List Piece) :
    layOut tab start (ps ++ qs) = layOut tab start ps ++ layOut tab (start + width ps) qs := by
  induction ps generalizing start with
  | nil => simp [layOut]
  | cons p ps ih => simp [layOut, ih, Int.add_assoc]

/-- Putting a piece at the end of a document appends its units. The text of a table goes between
the four units before it and the two behind it. -/
private theorem replay?_insertions (d : Document) (tab : Option String) (p : Piece) :
    d.replay? (p.insertions tab d.stop) = some (d.append p.units) := by
  cases p with
  | text content =>
    simp [insertions, units, Document.replay?_cons, Document.execute?, Document.insert?_stop]
  | table content =>
    have hinside := Document.insert?_between d.first (d.units ++ DocumentUnit.beforeCellText)
      DocumentUnit.afterCellText (DocumentUnit.ofText content)
    have hindex : d.first + ((d.units ++ DocumentUnit.beforeCellText).length : Int) =
        d.stop + cellContentOffset := by
      simp only [Document.stop, List.length_append, Int.natCast_add, Int.add_assoc]
      rfl
    rw [hindex] at hinside
    by_cases h : content = ""
    · simp [insertions, units, h, Document.replay?_cons, Document.execute?, Document.insert?_stop]
    · simp only [insertions, units, h, ↓reduceIte, Document.replay?_cons, Document.execute?,
        Document.insert?_stop, and_self, Option.bind_some, Document.replay?_nil]
      simp only [Document.append, ← List.append_assoc] at hinside ⊢
      rw [hinside, Option.bind_some]

private theorem mem_layOut_ge (tab : Option String) {start : Int} {pieces : List Piece}
    {i : Insertion} (hi : i ∈ layOut tab start pieces) : start ≤ i.location.index := by
  induction pieces generalizing start with
  | nil => simp [layOut] at hi
  | cons p ps ih =>
    rcases List.mem_append.mp hi with hi | hi
    · cases p with
      | text content =>
        rw [List.mem_singleton.mp hi]
        exact Int.le_refl start
      | table content =>
        rcases List.mem_cons.mp hi with rfl | hi
        · exact Int.le_refl start
        · split at hi
          · cases hi
          · rw [List.mem_singleton.mp hi]
            simp only [Insertion.location, cellContentOffset]
            omega
    · have hle := ih hi
      omega

private theorem pairwise_insertions (tab : Option String) (start : Int) (p : Piece) :
    (p.insertions tab start).Pairwise (fun i j => i.location.index < j.location.index) := by
  cases p with
  | text content => exact List.pairwise_singleton _ _
  | table content =>
    refine List.pairwise_cons.mpr ⟨?_, ?_⟩
    · intro j hj
      split at hj
      · cases hj
      · rw [List.mem_singleton.mp hj]
        simp only [Insertion.location, cellContentOffset]
        omega
    · split
      · exact List.Pairwise.nil
      · exact List.pairwise_singleton _ _

private theorem index_lt_of_mem_insertions (tab : Option String) (start : Int) {p : Piece}
    (hp : p.IsProper) :
    ∀ i ∈ p.insertions tab start, i.location.index < start + p.units.length := by
  intro i hi
  cases p with
  | text content =>
    have hpos := Utf16.length_pos hp
    rw [List.mem_singleton.mp hi]
    simp only [Insertion.location, units, DocumentUnit.length_ofText]
    omega
  | table content =>
    rw [length_units_table, emptyTableSize]
    rcases List.mem_cons.mp hi with rfl | hi
    · simp only [Insertion.location]
      omega
    · split at hi
      · cases hi
      · rw [List.mem_singleton.mp hi]
        simp only [Insertion.location, cellContentOffset]
        omega

/-- Proper pieces laid end to end have insertions at indices that ascend strictly. -/
theorem pairwise_layOut (tab : Option String) (start : Int) {pieces : List Piece}
    (hp : ∀ p ∈ pieces, p.IsProper) :
    (layOut tab start pieces).Pairwise (fun i j => i.location.index < j.location.index) := by
  induction pieces generalizing start with
  | nil => exact List.Pairwise.nil
  | cons p ps ih =>
    refine List.pairwise_append.mpr ⟨pairwise_insertions tab start p,
      ih _ (fun q hq => hp q (List.mem_cons_of_mem _ hq)), ?_⟩
    intro i hi j hj
    exact Int.lt_of_lt_of_le (index_lt_of_mem_insertions tab start (hp p List.mem_cons_self) i hi)
      (mem_layOut_ge tab hj)

/-- No insertion of proper pieces is one of an empty text. -/
theorem text?_ne_of_mem_layOut (tab : Option String) {start : Int} {pieces : List Piece}
    (hp : ∀ p ∈ pieces, p.IsProper) : ∀ i ∈ layOut tab start pieces, i.text? ≠ some "" := by
  induction pieces generalizing start with
  | nil => simp [layOut]
  | cons p ps ih =>
    intro i hi
    rcases List.mem_append.mp hi with hi | hi
    · cases p with
      | text content =>
        rw [List.mem_singleton.mp hi]
        simpa [Insertion.text?, IsProper] using hp _ List.mem_cons_self
      | table content =>
        rcases List.mem_cons.mp hi with rfl | hi
        · simp [Insertion.text?]
        · split at hi
          · cases hi
          · rename_i hne
            rw [List.mem_singleton.mp hi]
            simpa [Insertion.text?] using hne
    · exact ih (fun q hq => hp q (List.mem_cons_of_mem _ hq)) i hi

/-- Pieces laid out from the end of a document on become the rest of the document. -/
theorem replay?_layOut (d : Document) (tab : Option String) (pieces : List Piece) :
    d.replay? (layOut tab d.stop pieces) = some (d.append (unitsOf pieces)) := by
  induction pieces generalizing d with
  | nil => simp [layOut, Document.append]
  | cons p ps ih =>
    have hrest := ih (d.append p.units)
    rw [Document.stop_append] at hrest
    rw [layOut, Document.replay?_append, replay?_insertions, Option.bind_some, hrest]
    simp [Document.append]

end Piece
end MarkdownEdits
