import MarkdownEdits.RequestJson

/-!
# Names of fields

A request says in one field where it goes: that field is its target, which holds the indices and the
tab. No other field of a request, at whatever depth, goes by the name of a target, of an index or of
a tab. So what is done to the fields of these names is done to the target alone.
-/
namespace MarkdownEdits
namespace Json

mutual

/-- The names of all fields of a value, at whatever depth. -/
def names : Json → List String
  | .array items => namesOfItems items
  | .object fields => namesOfFields fields
  | _ => []

def namesOfItems : List Json → List String
  | [] => []
  | item :: rest => item.names ++ namesOfItems rest

def namesOfFields : List (String × Json) → List String
  | [] => []
  | (name, value) :: rest => name :: (value.names ++ namesOfFields rest)

end

mutual

/-- Changes the value of each field as its name says, at whatever depth, the inner fields first. -/
def mapFields (f : String → Json → Json) : Json → Json
  | .array items => .array (mapFieldsOfItems f items)
  | .object fields => .object (mapFieldsOf f fields)
  | value => value

def mapFieldsOfItems (f : String → Json → Json) : List Json → List Json
  | [] => []
  | item :: rest => item.mapFields f :: mapFieldsOfItems f rest

def mapFieldsOf (f : String → Json → Json) : List (String × Json) → List (String × Json)
  | [] => []
  | (name, value) :: rest => (name, f name (value.mapFields f)) :: mapFieldsOf f rest

end

mutual

/-- What has no field of a name that is changed stays as it is. -/
theorem mapFields_eq_self {f : String → Json → Json} (j : Json)
    (h : ∀ name ∈ j.names, f name = id) : j.mapFields f = j := by
  cases j with
  | array items => rw [mapFields, mapFieldsOfItems_eq_self items (by simpa only [names] using h)]
  | object fields => rw [mapFields, mapFieldsOf_eq_self fields (by simpa only [names] using h)]
  | _ => rfl

theorem mapFieldsOfItems_eq_self {f : String → Json → Json} (items : List Json)
    (h : ∀ name ∈ namesOfItems items, f name = id) : mapFieldsOfItems f items = items := by
  cases items with
  | nil => rfl
  | cons item rest =>
    simp only [namesOfItems, List.forall_mem_append] at h
    rw [mapFieldsOfItems, mapFields_eq_self item h.1, mapFieldsOfItems_eq_self rest h.2]

theorem mapFieldsOf_eq_self {f : String → Json → Json} (fields : List (String × Json))
    (h : ∀ name ∈ namesOfFields fields, f name = id) : mapFieldsOf f fields = fields := by
  cases fields with
  | nil => rfl
  | cons field rest =>
    obtain ⟨name, value⟩ := field
    simp only [namesOfFields, List.forall_mem_cons, List.forall_mem_append] at h
    rw [mapFieldsOf, mapFields_eq_self value h.2.1, mapFieldsOf_eq_self rest h.2.2, h.1, id]

end

theorem namesOfFields_append (fields others : List (String × Json)) :
    namesOfFields (fields ++ others) = namesOfFields fields ++ namesOfFields others := by
  induction fields with
  | nil => rfl
  | cons field rest ih => simp [namesOfFields, ih]

theorem present_cons (name : String) (given : Option Json) (rest : List (String × Option Json)) :
    present ((name, given) :: rest) = (given.map (name, ·)).toList ++ present rest := by
  cases given <;> simp [present]

/-! ## Places -/

/-- The names of the fields that hold an index. -/
def indexNames : List String := ["index", "startIndex", "endIndex"]

/-- The names of the fields that hold the target of a request. -/
def targetNames : List String := ["location", "range", "tableStartLocation"]

def tabName : String := "tabId"

def placeNames : List String := tabName :: (indexNames ++ targetNames)

/-- Fields that say nothing about a place, at whatever depth. -/
def ArePlain (fields : List (String × Json)) : Prop :=
  ∀ name ∈ namesOfFields fields, name ∉ placeNames

/-- A value that says nothing about a place. -/
def IsPlain (j : Json) : Prop := ∀ name ∈ j.names, name ∉ placeNames

@[simp] theorem isPlain_text (s : String) : IsPlain (.text s) := nofun

@[simp] theorem isPlain_bool (b : Bool) : IsPlain (.bool b) := nofun

@[simp] theorem isPlain_number (n : Number) : IsPlain (.number n) := nofun

@[simp] theorem isPlain_object {fields : List (String × Json)} :
    IsPlain (.object fields) ↔ ArePlain fields := by
  simp only [IsPlain, ArePlain, names]

@[simp] theorem arePlain_nil : ArePlain [] := nofun

@[simp] theorem arePlain_cons {name : String} {value : Json} {rest : List (String × Json)} :
    ArePlain ((name, value) :: rest) ↔ (name ∉ placeNames ∧ value.IsPlain) ∧ ArePlain rest := by
  simp only [ArePlain, IsPlain, namesOfFields, List.forall_mem_cons, List.forall_mem_append,
    and_assoc]

@[simp] theorem arePlain_append {fields others : List (String × Json)} :
    ArePlain (fields ++ others) ↔ ArePlain fields ∧ ArePlain others := by
  simp only [ArePlain, namesOfFields_append, List.forall_mem_append]

/-- A field whose value is plain in whatever form it comes, if it comes. -/
theorem arePlain_present_cons {α : Type} {name : String} {form : α → Json} {given : Option α}
    {rest : List (String × Option Json)} (hname : name ∉ placeNames)
    (hform : ∀ x, (form x).IsPlain) (hrest : ArePlain (present rest)) :
    ArePlain (present ((name, given.map form) :: rest)) := by
  rw [present_cons, arePlain_append]
  refine ⟨?_, hrest⟩
  cases given with
  | none => exact arePlain_nil
  | some x => exact arePlain_cons.mpr ⟨⟨hname, hform x⟩, arePlain_nil⟩

end Json

open Json

/-! ## Styles -/

theorem Color.isPlain_toJson (c : Color) : c.toJson.IsPlain := by
  rw [Color.toJson, objectOf, isPlain_object]
  exact arePlain_present_cons (by decide) isPlain_number <|
    arePlain_present_cons (by decide) isPlain_number <|
      arePlain_present_cons (by decide) isPlain_number arePlain_nil

namespace RequestForms

theorem isPlain_optionalColor {channels : Json} (h : channels.IsPlain) :
    (optionalColor channels).IsPlain := by
  simp +decide [optionalColor, h]

theorem isPlain_points (n : Number) : (points (.number n)).IsPlain := by
  simp +decide [points]

end RequestForms

theorem TextStyle.arePlain_entries (s : TextStyle) : ArePlain s.entries := by
  have hcolor (c : Color) : (RequestForms.optionalColor c.toJson).IsPlain :=
    RequestForms.isPlain_optionalColor c.isPlain_toJson
  have hfont (name : String) : IsPlain (.object [("fontFamily", .text name)]) := by
    simp +decide
  have hlink (url : String) : ArePlain [RequestForms.link (.text url)] := by
    simp +decide [RequestForms.link]
  simp only [TextStyle.entries, TextAttributes.entries, Option.map_map, arePlain_append]
  constructor
  · exact arePlain_present_cons (by decide) isPlain_bool <|
      arePlain_present_cons (by decide) isPlain_bool <|
        arePlain_present_cons (by decide) isPlain_bool <|
          arePlain_present_cons (by decide) hfont <|
            arePlain_present_cons (by decide) hcolor <|
              arePlain_present_cons (by decide) hcolor arePlain_nil
  · cases s.link with
    | none => exact arePlain_nil
    | some url => exact hlink url

theorem ParagraphStyle.isPlain_entry (s : ParagraphStyle) :
    s.entry.1 ∉ placeNames ∧ s.entry.2.IsPlain := by
  cases s with
  | named style => simp +decide [entry, RequestForms.namedStyle]
  | spaceBelow space =>
    simp +decide [entry, RequestForms.spaceBelow, RequestForms.isPlain_points]
  | borderBottom border =>
    simp +decide [entry, RequestForms.borderBottom, RequestForms.isPlain_points,
      RequestForms.isPlain_optionalColor border.color.isPlain_toJson]

theorem CellStyle.arePlain_entries (s : CellStyle) : ArePlain s.entries := by
  simp +decide [entries, RequestForms.cell, RequestForms.isPlain_points,
    RequestForms.isPlain_optionalColor (Color.isPlain_toJson _)]

/-! ## Requests -/

namespace Request

/-- The target that a request names: a place, or a range. -/
def target : Request → Json
  | insertion (.text location _) => location.toJson
  | insertion (.table location _ _) => location.toJson
  | styling (.text range _) => range.toJson
  | styling (.paragraph range _) => range.toJson
  | styling (.bullets range _) => range.toJson
  | styling (.cell table _ _ _) => table.toJson

def targetName : Request → String
  | insertion _ => "location"
  | styling (.cell ..) => "tableStartLocation"
  | styling _ => "range"

open RequestForms in
/-- The request as it is with another target. -/
def withTarget (target : Json) : Request → Json
  | insertion (.text _ content) => insertText target (.text content)
  | insertion (.table _ rows columns) => insertTable target (.integer rows) (.integer columns)
  | styling (.text _ style) => updateTextStyle target style.entries
  | styling (.paragraph _ style) => updateParagraphStyle target style.entry
  | styling (.bullets _ preset) => createBullets target (.text preset.name)
  | styling (.cell _ row column style) =>
    updateCellStyle target (.integer row) (.integer column) style.entries

theorem withTarget_target (r : Request) : r.withTarget r.target = r.toJson := by
  rcases r with (_ | _) | (_ | _ | _ | _) <;> rfl

theorem targetName_mem (r : Request) : r.targetName ∈ targetNames := by
  rcases r with _ | (_ | _ | _ | _) <;> simp [targetName, targetNames]

/-- What is done to the fields of places is done to the target and to nothing else. -/
theorem mapFields_withTarget {f : String → Json → Json} (hf : ∀ name ∉ placeNames, f name = id)
    (target : Json) (r : Request) :
    (r.withTarget target).mapFields f = r.withTarget (f r.targetName (target.mapFields f)) := by
  have hplain {fields : List (String × Json)} (h : ArePlain fields) :
      mapFieldsOf f fields = fields :=
    mapFieldsOf_eq_self fields fun name hname => hf name (h name hname)
  rcases r with (_ | _) | (⟨_, style⟩ | ⟨_, style⟩ | _ | ⟨_, _, _, style⟩) <;>
    simp only [withTarget, targetName, RequestForms.insertText, RequestForms.insertTable,
      RequestForms.updateTextStyle, RequestForms.updateParagraphStyle, RequestForms.createBullets,
      RequestForms.updateCellStyle, RequestForms.mask, integer, mapFields, mapFieldsOf]
  · simp +decide [hf]
  · simp +decide [hf]
  · simp +decide [hf, hplain style.arePlain_entries]
  · obtain ⟨hname, hvalue⟩ := style.isPlain_entry
    have hself : style.entry.2.mapFields f = style.entry.2 :=
      mapFields_eq_self _ fun name hname => hf name (hvalue name hname)
    simp +decide [hf, hname, hself]
  · simp +decide [hf]
  · simp +decide [hf, hplain style.arePlain_entries]

/-- The names of places that a request holds: its target, and what that holds. -/
theorem filter_names_withTarget (target : Json) (r : Request) :
    (r.withTarget target).names.filter placeNames.contains =
      r.targetName :: target.names.filter placeNames.contains := by
  have hplain {fields : List (String × Json)} (h : ArePlain fields) :
      (namesOfFields fields).filter placeNames.contains = [] :=
    List.filter_eq_nil_iff.mpr fun name hname => by simpa using h name hname
  rcases r with (_ | _) | (⟨_, style⟩ | ⟨_, style⟩ | _ | ⟨_, _, _, style⟩) <;>
    simp only [withTarget, targetName, RequestForms.insertText, RequestForms.insertTable,
      RequestForms.updateTextStyle, RequestForms.updateParagraphStyle, RequestForms.createBullets,
      RequestForms.updateCellStyle, RequestForms.mask, integer, names, namesOfFields]
  · simp +decide
  · simp +decide
  · simp +decide [hplain style.arePlain_entries]
  · obtain ⟨hname, hvalue⟩ := style.isPlain_entry
    simp +decide [hname]
    exact hvalue
  · simp +decide
  · simp +decide [hplain style.arePlain_entries]

end Request
end MarkdownEdits
