import MarkdownEdits.Proofs.TokenDepths
import MarkdownEdits.TokenRecords

/-!
# Records with fields of their kinds

A record gives a malformed token only if a field of it, or of a record among its children, is not of
the kind that its type needs. A few types need more than fields of their kinds: a content that is
counted must have units, and a tag must be one that can be looked up.
-/
namespace MarkdownEdits

namespace Json

/-- A text, with units or without. -/
def IsText (value : Json) : Prop := ∃ s, value.shownText? = some s

/-- What can be looked up among texts: a value without parts. -/
def IsSimple : Json → Prop
  | array _ | object _ => False
  | _ => True

/-- Where they are there, the content and the information are texts, the attributes an object and
the children, unless they are null, an array. -/
structure HasTypedFields (fields : List (String × Json)) : Prop where
  content : ∀ value, ("content", value) ∈ fields → value.IsText
  info : ∀ value, ("info", value) ∈ fields → value.IsText
  attrs : ∀ value, ("attrs", value) ∈ fields → ∃ attributes, value = object attributes
  children : ∀ value, ("children", value) ∈ fields → value = null ∨ ∃ items, value = array items

/-- The types whose content is counted in units. -/
def countedTypes : List String := ["text", "code_inline", "fence", "code_block"]

/-- Moreover, a content that is counted has units, and the tag of a heading can be looked up. -/
structure HasSoundFields (fields : List (String × Json)) : Prop extends HasTypedFields fields where
  units : ∀ type ∈ countedTypes, (object fields).field "type" = text type →
    ∀ t, (object fields).field? "content" ≠ some (brokenText t)
  tag : (object fields).field "type" = text "heading_open" →
    ∀ value, (object fields).field? "tag" = some value → value.IsSimple

/-- A record with fields of some sort, and so are those of the records among its children. -/
inductive IsRecord (sort : List (String × Json) → Prop) : Json → Prop
  | object {fields : List (String × Json)} (own : sort fields)
      (children : ∀ items, ("children", array items) ∈ fields →
        ∀ item ∈ items, IsRecord sort item) :
      IsRecord sort (object fields)

theorem mem_of_field?_eq_some {name : String} {fields : List (String × Json)} {value : Json}
    (h : (object fields).field? name = some value) : (name, value) ∈ fields := by
  obtain ⟨before, after, hsplit, -⟩ := List.lookup_eq_some_iff.mp h
  have hmem : (name, value) ∈ fields.reverse := by simp [hsplit]
  exact List.mem_reverse.mp hmem

theorem eq_text_of_getD {value : Json} {s : String} (h : value.text?.getD "" = s) (hs : s ≠ "") :
    value = text s := by
  cases value with
  | text t => rw [← h]; rfl
  | _ => exact absurd h.symm hs

theorem eq_text_or_brokenText {value : Json} (h : value.IsText) :
    (∃ s, value = text s) ∨ ∃ t, value = brokenText t := by
  obtain ⟨s, hs⟩ := h
  cases value with
  | text s => exact .inl ⟨s, rfl⟩
  | brokenText t => exact .inr ⟨t, rfl⟩
  | _ => cases hs

end Json

namespace Token

theorem mem_atomsOf {t : Token} {tokens : List Token} :
    t ∈ atomsOf tokens ↔ ∃ token ∈ tokens, t ∈ token.atoms := by
  induction tokens with
  | nil => simp
  | cons token rest ih => simp [atomsOf, ih]

theorem ofItems_eq_map (items : List Json) : ofItems items = items.map ofRecord := by
  induction items with
  | nil => rfl
  | cons item rest ih => rw [ofItems, ih, List.map_cons]

/-- The children of a record are those of a field of it. -/
theorem exists_field_of_childrenOf {fields : List (String × Json)} {children : List Token}
    (h : childrenOf fields = some children) :
    ∃ value, ("children", value) ∈ fields ∧ children = ofRecords value := by
  induction fields with
  | nil => cases h
  | cons field rest ih =>
    obtain ⟨name, value⟩ := field
    rw [childrenOf] at h
    split at h
    · rename_i later hlater
      cases h
      obtain ⟨value, hvalue, hchildren⟩ := ih hlater
      exact ⟨value, List.mem_cons_of_mem _ hvalue, hchildren⟩
    · split at h
      · rename_i hname
        cases h
        exact ⟨value, by rw [hname]; exact List.mem_cons_self, rfl⟩
      · cases h

/-! ## Malformed atoms -/

/-- The types that need more than fields of their kinds. -/
def exactingTypes : List String := "heading_open" :: Json.countedTypes

section Malformed

variable {type origin words : String} {content info tag attributes : Option Json}

theorem type_of_mem_ofDefect (h : malformed origin words ∈ (ofDefect type).atoms) :
    origin = type := by
  have hsame : malformed origin words = ofDefect type := List.mem_singleton.mp h
  exact (malformed.inj hsame).1

theorem exists_brokenText_of_leaf {make : String → Token}
    (hmake : ∀ s, malformed origin words ∉ (make s).atoms)
    (hcontent : ∀ value ∈ content, value.IsText)
    (h : malformed origin words ∈ (leaf type make content).atoms) :
    origin = type ∧ ∃ t, content = some (.brokenText t) := by
  cases content with
  | none => exact absurd h (hmake "")
  | some value =>
    obtain ⟨s, rfl⟩ | ⟨t, rfl⟩ := Json.eq_text_or_brokenText (hcontent value rfl)
    · exact absurd h (hmake s)
    · exact ⟨type_of_mem_ofDefect h, t, rfl⟩

theorem exists_brokenText_of_codeToken (hcontent : ∀ value ∈ content, value.IsText)
    (hinfo : ∀ value ∈ info, value.IsText)
    (h : malformed origin words ∈ (codeToken type content info).atoms) :
    origin = type ∧ ∃ t, content = some (.brokenText t) := by
  have hshown : ∃ s, (info.getD (.text "")).shownText? = some s := by
    cases info with
    | none => exact ⟨"", rfl⟩
    | some value => exact hinfo value rfl
  obtain ⟨shown, hshown⟩ := hshown
  rw [codeToken, hshown] at h
  cases content with
  | none => cases List.mem_singleton.mp h
  | some value =>
    obtain ⟨s, rfl⟩ | ⟨t, rfl⟩ := Json.eq_text_or_brokenText (hcontent value rfl)
    · cases List.mem_singleton.mp h
    · exact ⟨type_of_mem_ofDefect h, t, rfl⟩

theorem exists_parts_of_headingToken
    (h : malformed origin words ∈ (headingToken type tag).atoms) :
    origin = type ∧ ∃ value, tag = some value ∧ ¬value.IsSimple := by
  rw [headingToken.eq_def] at h
  split at h
  · cases List.mem_singleton.mp h
  · exact ⟨type_of_mem_ofDefect h, _, rfl, id⟩
  · exact ⟨type_of_mem_ofDefect h, _, rfl, id⟩
  · cases List.mem_singleton.mp h

theorem not_mem_atoms_linkToken
    (hattributes : ∀ value ∈ attributes, ∃ fields, value = .object fields) :
    malformed origin words ∉ (linkToken type attributes).atoms := by
  intro h
  cases attributes with
  | none => cases List.mem_singleton.mp h
  | some value =>
    obtain ⟨fields, rfl⟩ := hattributes value rfl
    cases List.mem_singleton.mp h

/-- A record with fields of their kinds adds no malformed token to those of its children, unless its
type is one that needs more and has not got it. -/
theorem exacting_of_mem_assemble {fields : List (String × Json)} {children : List Token}
    (hfields : Json.HasTypedFields fields)
    (h : malformed origin words ∈ (assemble (.object fields) children).atoms) :
    malformed origin words ∈ atomsOf children ∨
      origin ∈ exactingTypes ∧ ¬Json.HasSoundFields fields := by
  have found {name : String} {P : Json → Prop} (h : ∀ value, (name, value) ∈ fields → P value) :
      ∀ value ∈ (Json.object fields).field? name, P value :=
    fun value hvalue => h value (Json.mem_of_field?_eq_some hvalue)
  have hcontent := found hfields.content
  -- The two ways in which a record of a type that needs more can lack it.
  have counted {type : String} {t : BrokenText}
      (horigin : origin = ((Json.object fields).field "type").text?.getD "")
      (hname : ((Json.object fields).field "type").text?.getD "" = type)
      (htype : type ∈ Json.countedTypes) (hne : type ≠ "")
      (ht : (Json.object fields).field? "content" = some (.brokenText t)) :
      origin ∈ exactingTypes ∧ ¬Json.HasSoundFields fields := by
    rw [horigin, hname]
    exact ⟨List.mem_cons_of_mem _ htype,
      fun hsound => hsound.units type htype (Json.eq_text_of_getD hname hne) t ht⟩
  have tagged {value : Json}
      (horigin : origin = ((Json.object fields).field "type").text?.getD "")
      (hname : ((Json.object fields).field "type").text?.getD "" = "heading_open")
      (hvalue : (Json.object fields).field? "tag" = some value) (hparts : ¬value.IsSimple) :
      origin ∈ exactingTypes ∧ ¬Json.HasSoundFields fields := by
    rw [horigin, hname]
    exact ⟨List.mem_cons_self,
      fun hsound => hparts (hsound.tag (Json.eq_text_of_getD hname (by decide)) value hvalue)⟩
  rw [assemble] at h
  split at h
  · exact .inl h
  · rename_i htype
    obtain ⟨horigin, t, ht⟩ := exists_brokenText_of_leaf (by simp [atoms]) hcontent h
    exact .inr (counted horigin htype (by decide) (by decide) ht)
  · rename_i htype
    obtain ⟨horigin, t, ht⟩ := exists_brokenText_of_leaf (by simp [atoms]) hcontent h
    exact .inr (counted horigin htype (by decide) (by decide) ht)
  all_goals
    rename_i htype
    first
    | cases List.mem_singleton.mp h
    | exact absurd h (not_mem_atoms_linkToken (found hfields.attrs))
    | obtain ⟨horigin, value, hvalue, hparts⟩ := exists_parts_of_headingToken h
      exact .inr (tagged horigin htype hvalue hparts)
    | obtain ⟨horigin, t, ht⟩ := exists_brokenText_of_codeToken hcontent (found hfields.info) h
      exact .inr (counted horigin htype (by decide) (by decide) ht)

variable {sort : List (String × Json) → Prop}

theorem exacting_of_mem_ofRecord {record : Json} (hsort : ∀ fields, sort fields →
    Json.HasTypedFields fields) (hrecord : record.IsRecord sort)
    (h : malformed origin words ∈ (ofRecord record).atoms) :
    origin ∈ exactingTypes ∧ ∃ fields, sort fields ∧ ¬Json.HasSoundFields fields := by
  induction hrecord with
  | @object fields hfields _ ih =>
    rw [ofRecord] at h
    obtain hmem | ⟨hexacting, hunsound⟩ := exacting_of_mem_assemble (hsort fields hfields) h
    · cases hchildren : childrenOf fields with
      | none =>
        rw [hchildren] at hmem
        cases hmem
      | some children =>
        obtain ⟨value, hvalue, rfl⟩ := exists_field_of_childrenOf hchildren
        rw [hchildren, Option.getD_some] at hmem
        cases value with
        | array items =>
          rw [ofRecords, ofItems_eq_map] at hmem
          obtain ⟨token, htoken, hatom⟩ := mem_atomsOf.mp hmem
          obtain ⟨item, hitem, rfl⟩ := List.mem_map.mp htoken
          exact ih items hvalue item hitem hatom
        | _ => cases hmem
    · exact ⟨hexacting, fields, hfields, hunsound⟩

theorem exacting_of_mem_ofItems {records : List Json}
    (hsort : ∀ fields, sort fields → Json.HasTypedFields fields)
    (hrecords : ∀ record ∈ records, record.IsRecord sort)
    (h : malformed origin words ∈ atomsOf (ofItems records)) :
    origin ∈ exactingTypes ∧ ∃ fields, sort fields ∧ ¬Json.HasSoundFields fields := by
  rw [ofItems_eq_map] at h
  obtain ⟨token, htoken, hatom⟩ := mem_atomsOf.mp h
  obtain ⟨record, hrecord, rfl⟩ := List.mem_map.mp htoken
  exact exacting_of_mem_ofRecord hsort (hrecords record hrecord) hatom

/-- Records whose fields are of their kinds give malformed tokens of few types only. -/
theorem mem_exactingTypes_of_typed {records : List Json}
    (hrecords : ∀ record ∈ records, record.IsRecord Json.HasTypedFields)
    (h : malformed origin words ∈ atomsOf (ofItems records)) : origin ∈ exactingTypes :=
  (exacting_of_mem_ofItems (fun _ hfields => hfields) hrecords h).1

/-- Records that give what their types need give no malformed tokens. -/
theorem not_mem_of_sound {records : List Json}
    (hrecords : ∀ record ∈ records, record.IsRecord Json.HasSoundFields) :
    malformed origin words ∉ atomsOf (ofItems records) := by
  intro h
  obtain ⟨-, fields, hsound, hunsound⟩ :=
    exacting_of_mem_ofItems (fun _ hfields => hfields.toHasTypedFields) hrecords h
  exact hunsound hsound

end Malformed
end Token
end MarkdownEdits
