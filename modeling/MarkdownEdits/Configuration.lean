import MarkdownEdits.JsonValue
import MarkdownEdits.NumeralReading
import MarkdownEdits.QuotedText
import MarkdownEdits.Whitespace

/-!
# Configuration

The configuration is read from five settings of the environment. A setting that is absent or
blank has its default. Only the paragraph spacing can be refused.
-/
namespace MarkdownEdits

inductive Setting where
  | headingAsTitle
  | codeFont
  | paragraphSpacing
  | linkify
  | frontMatter
  deriving DecidableEq, Repr

namespace Setting

def all : List Setting := [headingAsTitle, codeFont, paragraphSpacing, linkify, frontMatter]

def variableName : Setting → String
  | headingAsTitle => "GDOCS_MD_FIRST_HEADING_AS_TITLE"
  | codeFont => "GDOCS_MD_CODE_FONT_FAMILY"
  | paragraphSpacing => "GDOCS_MD_PARAGRAPH_SPACING_PT"
  | linkify => "GDOCS_MD_LINKIFY"
  | frontMatter => "GDOCS_MD_FRONT_MATTER"

end Setting

/-- The texts of the settings that are present. -/
def Environment : Type := Setting → Option String

namespace Environment

def empty : Environment := fun _ => none

/-- The environment with one setting changed or, with no text, taken away. -/
def set (env : Environment) (setting : Setting) (text : Option String) : Environment :=
  fun other => if other = setting then text else env other

/-- The environment after a list of changes, the first one made first. -/
def edit (env : Environment) (edits : List (Setting × Option String)) : Environment :=
  edits.foldl (fun env (setting, text) => env.set setting text) env

@[simp] theorem set_same (env : Environment) (setting : Setting) (text : Option String) :
    env.set setting text setting = text := if_pos rfl

theorem set_other (env : Environment) {setting other : Setting} (h : other ≠ setting)
    (text : Option String) : env.set setting text other = env other := if_neg h

end Environment

structure Config where
  headingAsTitle : Bool
  codeFont : String
  /-- Space below paragraphs and lists, in points. -/
  paragraphSpacing : Binary64
  linkify : Bool
  frontMatter : Bool
  deriving DecidableEq, Repr, Inhabited

inductive ConfigError where
  | spacingNotNumber (text : String)
  | spacingNotPositive
  deriving DecidableEq, Repr

namespace ConfigError

def message : ConfigError → String
  | spacingNotNumber text =>
    Setting.paragraphSpacing.variableName ++ " must be a number, got " ++ QuotedText.quoted text
  | spacingNotPositive => Setting.paragraphSpacing.variableName ++ " must be greater than zero"

end ConfigError

namespace Config

def onWords : List String := ["1", "true", "yes", "on"]

/-- Whether a setting is on, where it says so. Letters count in either case, and blank characters
around the word do not. -/
def flag? : Option String → Option Bool
  | none => none
  | some text =>
    if Whitespace.isEmpty text then none
    else some (onWords.contains ((Whitespace.strip text).map Char.toLower))

def flag (default : Bool) (text : Option String) : Bool := (flag? text).getD default

def fontName (default : String) : Option String → String
  | none => default
  | some text => if Whitespace.isEmpty text then default else Whitespace.strip text

def defaultSpacing : Binary64 := Binary64.ofRatio false 8 1

def spacing : Option String → Except ConfigError Binary64
  | none => .ok defaultSpacing
  | some text =>
    if Whitespace.isEmpty text then .ok defaultSpacing
    else match NumeralReading.readReal? text with
      | none => .error (.spacingNotNumber text)
      | some x => if x.isAtMostZero then .error .spacingNotPositive else .ok x

def ofEnvironment (env : Environment) : Except ConfigError Config :=
  (spacing (env .paragraphSpacing)).map fun space => {
    headingAsTitle := flag false (env .headingAsTitle)
    codeFont := fontName "Roboto Mono" (env .codeFont)
    paragraphSpacing := space
    linkify := flag true (env .linkify)
    frontMatter := flag false (env .frontMatter) }

/-- The configuration that an environment without settings gives. -/
def standard : Config := ⟨false, "Roboto Mono", defaultSpacing, true, false⟩

theorem ofEnvironment_empty : ofEnvironment .empty = .ok standard := rfl

def summary (c : Config) : Json :=
  .object [("first_heading_as_title", .bool c.headingAsTitle),
    ("code_font_family", .text c.codeFont), ("paragraph_spacing_pt", .real c.paragraphSpacing),
    ("linkify", .bool c.linkify), ("front_matter", .bool c.frontMatter)]

end Config
end MarkdownEdits
