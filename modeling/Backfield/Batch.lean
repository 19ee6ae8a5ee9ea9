import Backfield.Layout
import Backfield.Scan
import Backfield.Text.CharClass

/-!
# A batch of artifacts

One run over the declarations of a compilation: the marker's artifact first, then one for
each class with properties.  No two artifacts of a batch share a name, and a batch that is
cancelled leaves none.
-/

namespace Backfield

/-- A named piece of generated text.  The name is text unless a setting makes it
something else. -/
structure Artifact where
  name : Value
  text : String
  deriving DecidableEq, Repr

namespace Batch

/-- The class's name with the words of its type parameters, each after an underscore. -/
def flatName (c : ReactiveClass) : String :=
  c.name ++ String.join ((Text.words c.typeParameters).map ("_" ++ ·))

/-- The name of a class's artifact. -/
def artifactName (settings : Settings) (c : ReactiveClass) : String :=
  (if settings.qualifyNames.isTrue then joinNames (c.space :: c.containers ++ [flatName c])
   else flatName c) ++ settings.artifactSuffix.display

/-- A name that an artifact has taken, and the type it was taken for. -/
abbrev Taken := List (Value × String)

/-- The type that a name was taken for. -/
def Taken.owner? (taken : Taken) (name : String) : Option String :=
  (taken.find? fun entry => entry.1 = .text name).map (·.2)

/-- The artifacts of the classes, in order, with a checkpoint before each. -/
def artifactsFrom (settings : Settings) :
    Taken → List ReactiveClass → Traced (List Artifact)
  | _, [] => return []
  | taken, c :: rest => do
    Traced.checkpoint
    let name := artifactName settings c
    match taken.owner? name with
    | some owner => Traced.fail (.duplicateArtifact c.fullName owner name)
    | none =>
      Traced.emit .renderingBegun
      let artifact : Artifact := ⟨.text name, Layout.render settings c⟩
      Traced.log .info .batch
        ("Generated " ++ name ++ " (" ++ toString c.properties.length ++ " properties)")
      let others ← artifactsFrom settings (taken ++ [(.text name, c.fullName)]) rest
      return artifact :: others

/-- The artifact that declares the marker. -/
def markerArtifact (settings : Settings) : Artifact :=
  ⟨settings.markerArtifact, Layout.renderMarker settings⟩

/-- A batch that nobody interrupts. -/
def run (settings : Settings) (known : KnownTypes) (fragments : List Fragment) :
    Traced (List Artifact) := do
  Traced.checkpoint
  let classes ← Scan.scan settings known fragments
  Traced.lift (KnownTypes.checkName settings.markerArtifact)
  let artifacts ←
    artifactsFrom settings [(settings.markerArtifact, settings.markerFullName.display)] classes
  return markerArtifact settings :: artifacts

/-- Notes that a cancelled batch leaves nothing. -/
def noteCancelled (x : Traced (List Artifact)) : Traced (List Artifact) :=
  match x.outcome with
  | .error .cancelled =>
    { x with events := x.events ++
        [.logged ⟨.warning, .batch, "Generation cancelled, discarding the batch"⟩] }
  | _ => x

/-- The artifacts of a batch, with a cancellation at the given moment. -/
def generate (settings : Settings) (known : KnownTypes) (fragments : List Fragment)
    (moment : Moment) : Traced (List Artifact) :=
  noteCancelled ((run settings known fragments).interrupt moment)

end Batch

end Backfield
