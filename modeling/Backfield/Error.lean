import Backfield.Text.Quoted
import Backfield.Text.Utf8

/-!
# What can go wrong

Every way in which an operation of the generator ends without a result, and the message
that goes with it.
-/

namespace Backfield

/-- Why a file operation failed. -/
inductive FileFault
  | notFound
  | notDirectory
  | isDirectory
  | alreadyThere
  deriving DecidableEq, Repr

/-- The number and the words that the operating system has for a fault. -/
def FileFault.text : FileFault → String
  | notFound => "[Errno 2] No such file or directory"
  | notDirectory => "[Errno 20] Not a directory"
  | isDirectory => "[Errno 21] Is a directory"
  | alreadyThere => "[Errno 17] File exists"

/-- The words for a fault at a path. -/
def FileFault.message (fault : FileFault) (path : String) : String :=
  fault.text ++ ": " ++ Text.quoted path

/-- Why settings cannot be read or used. -/
inductive SettingFault
  /-- The text is no JSON document. -/
  | notJson
  /-- The file of settings is not UTF-8. -/
  | notText
  /-- The document is not an object. -/
  | notObject
  /-- The key is reserved and takes only a type or an object. -/
  | reservedKey (key : String)
  /-- The key is reserved and takes nothing. -/
  | lockedKey (key : String)
  /-- The `output` setting is no object, or its mode is no text. -/
  | noOutputMode
  /-- The settings cannot be listed, because one of them hides the listing. -/
  | hiddenListing
  /-- A list or an object stands where a name is looked up. -/
  | notComparable
  /-- A file name is no text. -/
  | notFileName
  deriving DecidableEq, Repr

/-- What makes an artifact unfit for writing. -/
inductive ArtifactFault
  | syntaxError (line : Nat)
  | noType
  deriving DecidableEq, Repr

inductive Error
  | emptyFieldName
  | missingName (field property : String)
  | sameAsField (property : String)
  | noProperties (type : String)
  | unknownAccessibility (text : String)
  | unknownOutputMode (text : String)
  | cancelled
  /-- Two owners of one artifact name: the later one, the earlier one, the name. -/
  | duplicateArtifact (later earlier name : String)
  | unreadable (path : String) (fault : FileFault)
  | notUtf8 (path : String) (fault : Text.Utf8.Fault)
  | invalidArtifact (name : String) (fault : ArtifactFault)
  | targetExists (path : String)
  | file (path : String) (fault : FileFault)
  | setting (fault : SettingFault)
  deriving DecidableEq, Repr

/-- What is wrong with the bytes, and where. -/
def Text.Utf8.Fault.message (fault : Text.Utf8.Fault) : String :=
  let place :=
    if fault.length == 1 then
      "byte 0x" ++ String.ofList (Text.hexDigits 2 fault.first.toNat) ++ " in position " ++
        toString fault.position
    else
      "bytes in position " ++ toString fault.position ++ "-" ++
        toString (fault.position + fault.length - 1)
  "'utf-8' codec can't decode " ++ place ++ ": " ++ fault.reason.text

def ArtifactFault.message : ArtifactFault → String
  | syntaxError line => "generated C# code has a syntax error at line " ++ toString line
  | noType => "generated C# code has no type definitions"

/-- The words for an error. -/
def Error.message : Error → String
  | emptyFieldName => "Field name must not be empty"
  | missingName field property =>
    "Property descriptor needs a field and a property name, got " ++ Text.quoted field ++ " -> " ++
      Text.quoted property
  | sameAsField property =>
    "Property " ++ Text.quoted property ++ " would have the same name as its backing field"
  | noProperties type => "Class descriptor for " ++ type ++ " has no properties"
  | unknownAccessibility text => Text.quoted text ++ " is not a valid Accessibility"
  | unknownOutputMode text => Text.quoted text ++ " is not a valid OutputMode"
  | cancelled => "Generation was cancelled"
  | duplicateArtifact later earlier name =>
    later ++ " and " ++ earlier ++ " both generate " ++ name
  | unreadable path fault => "Cannot read " ++ path ++ ": " ++ fault.message path
  | notUtf8 path fault => path ++ " is not valid UTF-8: " ++ fault.message
  | invalidArtifact name fault => name ++ ": " ++ fault.message
  | targetExists path =>
    "Output file already exists: " ++ path ++ ". Use force mode to overwrite."
  | file path fault => fault.message path
  | setting _ => ""

end Backfield
