import MarkdownEdits.Conversion
import MarkdownEdits.Proofs.FieldNames

/-!
# Relocated requests

A request is relocated by moving its indices by a distance and by putting another tab in the place
of its own. As JSON a request that is moved has the distance added to its indices, and one without a
tab that is put into one has the tab's name in its target. Nothing else about it is different.
-/
namespace MarkdownEdits

/-- Where targets go: indices move by a distance, and a tab gives way to another one. -/
structure Relocation where
  distance : Int
  tab : Option String → Option String

def Relocation.by (distance : Int) : Relocation := ⟨distance, id⟩

def Relocation.into (tab : Option String) : Relocation := ⟨0, fun _ => tab⟩

def Span.shift (span : Span) (distance : Int) : Span :=
  ⟨span.start + distance, span.stop + distance⟩

@[simp] theorem Span.shift_zero (span : Span) : span.shift 0 = span := by
  simp [shift]

variable (r : Relocation)

def Location.relocate (l : Location) : Location := ⟨l.index + r.distance, r.tab l.tab⟩

def Range.relocate (range : Range) : Range := ⟨range.span.shift r.distance, r.tab range.tab⟩

def Insertion.relocate : Insertion → Insertion
  | text location content => text (location.relocate r) content
  | table location rows columns => table (location.relocate r) rows columns

def Styling.relocate : Styling → Styling
  | text range style => text (range.relocate r) style
  | paragraph range style => paragraph (range.relocate r) style
  | bullets range preset => bullets (range.relocate r) preset
  | cell table row column style => cell (table.relocate r) row column style

theorem Insertion.relocate_by_zero (i : Insertion) : i.relocate (.by 0) = i := by
  cases i <;> simp [relocate, Location.relocate, Relocation.by]

theorem Styling.relocate_by_zero (s : Styling) : s.relocate (.by 0) = s := by
  cases s <;> simp [relocate, Location.relocate, Range.relocate, Relocation.by]

namespace Request

def relocate : Request → Request
  | insertion i => insertion (i.relocate r)
  | styling s => styling (s.relocate r)

/-- The tab that a request names. -/
def tab : Request → Option String
  | insertion i => i.location.tab
  | styling (.text range _) => range.tab
  | styling (.paragraph range _) => range.tab
  | styling (.bullets range _) => range.tab
  | styling (.cell table _ _ _) => table.tab

theorem tab_relocate (request : Request) : (request.relocate r).tab = r.tab request.tab := by
  rcases request with (_ | _) | (_ | _ | _ | _) <;> rfl

/-- A request does not change in any other way when it is relocated. -/
theorem toJson_relocate (request : Request) :
    (request.relocate r).toJson = request.withTarget (request.relocate r).target := by
  rcases request with (_ | _) | (_ | _ | _ | _) <;> rfl

end Request

/-! ## Requests as JSON -/

namespace Json

/-- The number with a distance added to it, if it is an integer. -/
def plus (distance : Int) : Json → Json
  | .number (.integer n) => .integer (n + distance)
  | value => value

def shiftIndex (distance : Int) (name : String) (value : Json) : Json :=
  if name ∈ indexNames then value.plus distance else value

/-- The value with a distance added to all indices in it. -/
def shiftIndices (distance : Int) (j : Json) : Json := j.mapFields (shiftIndex distance)

def addField (j : Json) (name : String) (value : Json) : Json :=
  match j with
  | .object fields => .object (fields ++ [(name, value)])
  | other => other

def putInTab (tab : String) (name : String) (value : Json) : Json :=
  if name ∈ targetNames then value.addField tabName (.text tab) else value

/-- The value with the name of a tab added to all targets in it. -/
def inTab (tab : String) (j : Json) : Json := j.mapFields (putInTab tab)

theorem shiftIndex_of_not_mem {distance : Int} {name : String} (h : name ∉ indexNames) :
    shiftIndex distance name = id := by
  funext value
  exact if_neg h

theorem putInTab_of_not_mem {tab name : String} (h : name ∉ targetNames) :
    putInTab tab name = id := by
  funext value
  exact if_neg h

end Json

open Json

theorem Location.shiftIndices_toJson (l : Location) (distance : Int) :
    l.toJson.shiftIndices distance = (l.relocate (.by distance)).toJson := by
  obtain ⟨index, _ | tab⟩ := l <;> rfl

theorem Range.shiftIndices_toJson (range : Range) (distance : Int) :
    range.toJson.shiftIndices distance = (range.relocate (.by distance)).toJson := by
  obtain ⟨span, _ | tab⟩ := range <;> rfl

theorem Location.toJson_into {l : Location} (h : l.tab = none) (name : String) :
    (l.relocate (.into (some name))).toJson =
      (l.toJson.mapFields (putInTab name)).addField tabName (.text name) := by
  obtain ⟨index, tab⟩ := l
  cases h
  simp only [relocate, Relocation.into, Int.add_zero]
  rfl

theorem Range.toJson_into {range : Range} (h : range.tab = none) (name : String) :
    (range.relocate (.into (some name))).toJson =
      (range.toJson.mapFields (putInTab name)).addField tabName (.text name) := by
  obtain ⟨span, tab⟩ := range
  cases h
  simp only [relocate, Relocation.into, Span.shift_zero]
  rfl

theorem Location.names_toJson (l : Location) :
    l.toJson.names = "index" :: (l.tab.map fun _ => tabName).toList := by
  obtain ⟨index, _ | tab⟩ := l <;> rfl

theorem Range.names_toJson (range : Range) :
    range.toJson.names =
      "startIndex" :: "endIndex" :: (range.tab.map fun _ => tabName).toList := by
  obtain ⟨span, _ | tab⟩ := range <;> rfl

namespace Request

/-- A request that is moved is the same request with a distance added to each index. -/
theorem toJson_relocate_by (request : Request) (distance : Int) :
    (request.relocate (.by distance)).toJson = request.toJson.shiftIndices distance := by
  have hplaces : ∀ name ∉ placeNames, shiftIndex distance name = id := fun name hname =>
    shiftIndex_of_not_mem fun hmem =>
      hname (List.mem_cons_of_mem _ (List.mem_append_left _ hmem))
  have hname : shiftIndex distance request.targetName = id := by
    rcases request with _ | (_ | _ | _ | _) <;> rfl
  rw [shiftIndices, ← withTarget_target request, mapFields_withTarget hplaces, hname,
    toJson_relocate]
  congr 1
  rcases request with (_ | _) | (_ | _ | _ | _)
  · exact (Location.shiftIndices_toJson _ distance).symm
  · exact (Location.shiftIndices_toJson _ distance).symm
  · exact (Range.shiftIndices_toJson _ distance).symm
  · exact (Range.shiftIndices_toJson _ distance).symm
  · exact (Range.shiftIndices_toJson _ distance).symm
  · exact (Location.shiftIndices_toJson _ distance).symm

/-- A request that is put into a tab is the same request with the tab's name in its target. -/
theorem toJson_relocate_into {request : Request} (h : request.tab = none) (name : String) :
    (request.relocate (.into (some name))).toJson = request.toJson.inTab name := by
  have hplaces : ∀ other ∉ placeNames, putInTab name other = id := fun other hother =>
    putInTab_of_not_mem fun hmem =>
      hother (List.mem_cons_of_mem _ (List.mem_append_right _ hmem))
  have hname (value : Json) :
      putInTab name request.targetName value = value.addField tabName (.text name) :=
    if_pos request.targetName_mem
  rw [inTab, ← withTarget_target request, mapFields_withTarget hplaces, hname, toJson_relocate]
  congr 1
  rcases request with (_ | _) | (_ | _ | _ | _)
  · exact Location.toJson_into h name
  · exact Location.toJson_into h name
  · exact Range.toJson_into h name
  · exact Range.toJson_into h name
  · exact Range.toJson_into h name
  · exact Location.toJson_into h name

/-- The names of places in a request: its target, one or two indices, and a tab if there is one. -/
theorem exists_filter_names (request : Request) : ∃ indices,
    (∀ name ∈ indices, name ∈ indexNames) ∧ request.toJson.names.filter placeNames.contains =
      request.targetName :: (indices ++ (request.tab.map fun _ => tabName).toList) := by
  have htab (tab : Option String) : ((tab.map fun _ => tabName).toList).filter placeNames.contains =
      (tab.map fun _ => tabName).toList := by
    cases tab <;> rfl
  have hlocation (l : Location) : l.toJson.names.filter placeNames.contains =
      ["index"] ++ (l.tab.map fun _ => tabName).toList := by
    rw [l.names_toJson, List.filter_cons_of_pos (by decide), htab]
    rfl
  have hrange (range : Range) : range.toJson.names.filter placeNames.contains =
      ["startIndex", "endIndex"] ++ (range.tab.map fun _ => tabName).toList := by
    rw [range.names_toJson, List.filter_cons_of_pos (by decide),
      List.filter_cons_of_pos (by decide), htab]
    rfl
  rw [← withTarget_target, filter_names_withTarget]
  rcases request with (_ | _) | (_ | _ | _ | _)
  · exact ⟨["index"], by decide, congrArg _ (hlocation _)⟩
  · exact ⟨["index"], by decide, congrArg _ (hlocation _)⟩
  · exact ⟨["startIndex", "endIndex"], by decide, congrArg _ (hrange _)⟩
  · exact ⟨["startIndex", "endIndex"], by decide, congrArg _ (hrange _)⟩
  · exact ⟨["startIndex", "endIndex"], by decide, congrArg _ (hrange _)⟩
  · exact ⟨["index"], by decide, congrArg _ (hlocation _)⟩

/-- Each request has one target. -/
theorem countP_targetNames (request : Request) :
    request.toJson.names.countP targetNames.contains = 1 := by
  obtain ⟨indices, hindices, hnames⟩ := request.exists_filter_names
  have hplaces : ∀ name, targetNames.contains name = true → placeNames.contains name = true := by
    intro name hname
    rw [List.contains_iff_mem] at hname ⊢
    exact List.mem_cons_of_mem _ (List.mem_append_right _ hname)
  have hcount : (request.toJson.names.filter placeNames.contains).countP targetNames.contains =
      request.toJson.names.countP targetNames.contains := by
    rw [List.countP_filter]
    refine List.countP_congr fun name _ => ?_
    simpa using hplaces name
  have hapart : ∀ name ∈ indexNames, ¬targetNames.contains name = true := by decide
  have hnone : indices.countP targetNames.contains = 0 :=
    List.countP_eq_zero.mpr fun name hname => hapart name (hindices name hname)
  rw [← hcount, hnames, List.countP_cons_of_pos (by simpa using request.targetName_mem),
    List.countP_append, hnone]
  cases request.tab <;> rfl

/-- The field of the tab is there exactly if the request names a tab. -/
theorem tabName_mem_names_iff (request : Request) :
    tabName ∈ request.toJson.names ↔ request.tab.isSome := by
  obtain ⟨indices, hindices, hnames⟩ := request.exists_filter_names
  have hmem : tabName ∈ request.toJson.names ↔
      tabName ∈ request.toJson.names.filter placeNames.contains := by
    rw [List.mem_filter]
    exact (and_iff_left (by decide)).symm
  have htarget : tabName ≠ request.targetName := fun h =>
    absurd (h ▸ request.targetName_mem) (by decide)
  have hindex : tabName ∉ indices := fun h => absurd (hindices _ h) (by decide)
  rw [hmem, hnames]
  cases request.tab <;> simp [htarget, hindex]

end Request
end MarkdownEdits
