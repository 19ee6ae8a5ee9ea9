import Backfield.Property
import Backfield.Settings
import Backfield.Text.Lines

/-!
# Layout of generated text

The text of an artifact: an optional banner, the using directives, optionally the marker's
declaration, and the partial class inside the blocks of its enclosing types and its
namespace.  A blank line stands between sections and one newline ends the text.
-/

namespace Backfield.Layout

/-- What the banner calls the program. -/
def programName : String := "reactive_property_gen"

/-- Lines one under the other. -/
def lines (ls : List String) : String := "\n".intercalate ls

/-! ## Blocks -/

/-- A declaration with its body between braces, one level deeper. -/
def block (declaration body : String) : String :=
  lines [declaration, "\x7b", Text.indent body, "\x7d"]

/-- A text inside blocks, of which the first declaration is the outermost. -/
def blocks (declarations : List String) (body : String) : String :=
  declarations.foldr block body

/-! ## Sections -/

/-- The comment that says the text is generated. -/
def banner : String :=
  lines [
    "//------------------------------------------------------------------------------",
    "// <auto-generated>",
    "//     This code was generated by " ++ programName ++ ".",
    "//",
    "//     Changes to this file may cause incorrect behavior and will be lost if",
    "//     the code is regenerated.",
    "// </auto-generated>",
    "//------------------------------------------------------------------------------"]

def usingDirectives (usings : List String) : String :=
  lines (usings.map fun name => "using " ++ name ++ ";")

/-- The declaration of the marker attribute, without its namespace. -/
def markerClass (name : String) : String :=
  lines [
    "/// <summary>",
    "/// Add to a field to generate a reactive property for it.",
    "/// </summary>",
    "[System.AttributeUsage(System.AttributeTargets.Field)]",
    "[System.Diagnostics.Conditional(\"REACTIVEOBJECT_GENERATORS_USAGES\")]",
    "public sealed class " ++ name ++ " : System.Attribute",
    "\x7b",
    "\x7d"]

/-- The declaration of the marker attribute inside its namespace, if it has one. -/
def markerSource (settings : Settings) : String :=
  let source := markerClass settings.markerName.display
  if settings.markerNamespace.isTrue then
    block ("namespace " ++ settings.markerNamespace.display) source
  else source

/-- A property with a getter and a setter that notifies. -/
def property (notifyMethod : String) (p : Property) : String :=
  lines [
    p.accessibility.text ++ " " ++ p.type ++ " " ++ p.name,
    "\x7b",
    "    get => " ++ p.field ++ ";",
    "    set => this." ++ notifyMethod ++ "(ref " ++ p.field ++ ", value);",
    "\x7d"]

/-- The properties of a class, with a blank line between them. -/
def properties (notifyMethod : String) (ps : List Property) : String :=
  "\n\n".intercalate (ps.map (property notifyMethod))

/-- What opens the block of a class. -/
def classDeclaration (c : ReactiveClass) : String :=
  c.accessibility.text ++ " partial class " ++ c.name ++ c.typeParameters

/-- The declarations of the blocks around the properties, outermost first. -/
def enclosingDeclarations (c : ReactiveClass) : List String :=
  (if c.space == "" then [] else ["namespace " ++ c.space]) ++
    c.containers.map ("partial class " ++ ·) ++ [classDeclaration c]

/-- The partial class inside its blocks. -/
def classSource (settings : Settings) (c : ReactiveClass) : String :=
  blocks (enclosingDeclarations c) (properties settings.notifyMethod.display c.properties)

/-! ## Artifacts -/

/-- Sections with a blank line between them, and a newline at the end. -/
def join (sections : List String) : String := "\n\n".intercalate sections ++ "\n"

def bannerSection (settings : Settings) : List String :=
  if settings.banner.isTrue then [banner] else []

/-- The text of the marker's artifact. -/
def renderMarker (settings : Settings) : String :=
  join (bannerSection settings ++ [markerSource settings])

/-- The text of a class's artifact. -/
def render (settings : Settings) (c : ReactiveClass) : String :=
  join (
    bannerSection settings ++
    (if c.usings.isEmpty then [] else [usingDirectives c.usings]) ++
    (if settings.embedMarker.isTrue then [markerSource settings] else []) ++
    [classSource settings c])

end Backfield.Layout
