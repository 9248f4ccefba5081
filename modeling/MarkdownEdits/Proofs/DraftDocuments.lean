import MarkdownEdits.Conversion
import MarkdownEdits.Proofs.DraftPieces

/-!
# The document of a draft

The insertions of a draft, replayed from its first index on, give the units of the pieces that
were emitted. Between two tokens the cursor is the index behind this document, and whether the
last insertion ends a line is whether the last unit is a line end.
-/
namespace MarkdownEdits

/-- A unit that is no half of a pair stands for a character of its own. -/
theorem Utf16.toNat_eq_of_mem_charUnits {c : Char} {u : UInt16} (hu : u ∈ charUnits c)
    (hlow : u.toNat < 0xD800) : c.toNat = u.toNat := by
  rw [charUnits] at hu
  split at hu
  · rename_i hbasic
    rw [List.mem_singleton.mp hu, UInt16.toNat_ofNat_of_lt' (by simpa using hbasic)]
  · have hlt : c.toNat < 0x110000 := by
      rcases c.valid with h | h
      · exact Nat.lt_trans h (by decide)
      · exact h.2
    have hhalf {n : Nat} (hn : 0xD800 ≤ n) (hm : n < 0x10000) : u ≠ UInt16.ofNat n := by
      rintro rfl
      rw [UInt16.toNat_ofNat_of_lt' (by simpa using hm)] at hlow
      omega
    simp only [List.mem_cons, List.not_mem_nil, or_false] at hu
    rcases hu with hu | hu
    · exact absurd hu (hhalf (by omega) (by omega))
    · exact absurd hu (hhalf (by omega) (by omega))

private theorem getLast?_charUnits (c : Char) :
    (Utf16.charUnits c).getLast? = some 10 ↔ c = '\n' := by
  constructor
  · intro h
    exact Char.toNat_inj.mp
      (Utf16.toNat_eq_of_mem_charUnits (List.mem_of_getLast? h) (by decide))
  · rintro rfl
    decide

/-- The last unit of a text is a line end exactly if its last character is. -/
theorem DocumentUnit.getLast?_ofText (text : String) :
    (DocumentUnit.ofText text).getLast? = some .newline ↔ endsLine text = true := by
  simp only [ofText, Utf16.units, endsLine, newline]
  rcases List.eq_nil_or_concat text.toList with h | ⟨init, c, h⟩
  · simp [h]
  · have hne : Utf16.charUnits c ≠ [] := by
      intro hnil
      have hwidth := Utf16.length_charUnits c
      rw [hnil] at hwidth
      exact Nat.ne_of_lt (Utf16.width_pos c) hwidth
    have hlast : (text.toList.flatMap Utf16.charUnits).getLast? =
        (Utf16.charUnits c).getLast? := by
      rw [h, List.concat_eq_append, List.flatMap_append, List.flatMap_singleton,
        List.getLast?_append, List.getLast?_eq_some_getLast hne]
      rfl
    rw [List.getLast?_map, hlast]
    cases hunit : (Utf16.charUnits c).getLast? with
    | none => exact absurd (List.getLast?_eq_none_iff.mp hunit) hne
    | some u =>
      have hend := getLast?_charUnits c
      rw [hunit, Option.some.injEq] at hend
      simp [h, hend]

namespace Draft

/-- The document that a draft's insertions give, with the cursor behind it. -/
structure Yields (d : Draft) (document : Document) : Prop where
  replay : (Document.empty document.first).replay? d.insertions.toList = some document
  cursor : d.cursor = document.stop
  newline : d.endsWithNewline = true ↔ document.units.getLast? = some .newline

theorem yields_start (start : Int) (tab : Option String) (headingAsTitle : Bool) :
    (Draft.start start tab headingAsTitle).Yields (.empty start) where
  replay := rfl
  cursor := (Document.stop_empty start).symm
  newline := by simp [endsWithNewline, Draft.start, Document.empty]

/-- A draft has one document from a first index on. -/
theorem Yields.unique {d : Draft} {document other : Document} (h : d.Yields document)
    (h' : d.Yields other) (hfirst : document.first = other.first) : document = other := by
  have hreplay := h.replay
  rw [hfirst, h'.replay] at hreplay
  exact (Option.some.inj hreplay).symm

theorem Yields.emits {d next : Draft} {document : Document} {pieces : List Piece}
    (h : d.Yields document) (he : d.Emits pieces next) :
    next.Yields (document.append (Piece.unitsOf pieces)) where
  replay := by
    rw [Document.first_append, he.insertions, Document.replay?_append, h.replay, h.cursor,
      Option.bind_some, Piece.replay?_layOut]
  cursor := by
    rw [he.cursor, h.cursor, Document.stop_append]
    rfl
  newline := by
    rcases List.eq_nil_or_concat pieces with rfl | ⟨init, last, rfl⟩
    · rw [endsWithNewline_congr he.insertions_eq, h.newline]
      simp [Document.append]
    · have htext := he.last last (by simp)
      cases last with
      | table content => cases htext
      | text content =>
        have hlast : next.insertions.back? = some (.text ⟨d.cursor + Piece.width init, d.tab⟩
            content) := by
          rw [← Array.getLast?_toList, he.insertions, List.concat_eq_append, Piece.layOut_append]
          simp [Piece.layOut, Piece.insertions]
        have hne : DocumentUnit.ofText content ≠ [] :=
          DocumentUnit.ofText_ne_nil (he.proper (.text content) (by simp))
        have hunits : (document.units ++ Piece.unitsOf (init ++ [.text content])).getLast? =
            (DocumentUnit.ofText content).getLast? := by
          rw [Piece.unitsOf_append, ← List.append_assoc, List.getLast?_append]
          simp only [Piece.unitsOf_cons, Piece.units, Piece.unitsOf_nil, List.append_nil]
          rw [List.getLast?_eq_some_getLast hne]
          rfl
        simp only [endsWithNewline, hlast]
        rw [Document.units_append, List.concat_eq_append, hunits,
          DocumentUnit.getLast?_ofText]

end Draft
end MarkdownEdits
