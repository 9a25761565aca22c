import Tracepoint.Disk

/-!
# Errors

Everything that can go wrong, by cause. The wording is in `Error.message` and the
functions it uses, and nowhere else.
-/

namespace Tracepoint

/-- What is wrong with a configuration. -/
inductive ConfigError where
  | unknownEvent (kind : String) (closest : Option String)
  | unknownDetector (name : String) (closest : Option String)
  | unknownListener (name : String) (closest : Option String)
  | missingParameter (component param : String)
  | invalidParameter (component param expected : String)
deriving DecidableEq, Repr, Inhabited

/-- The hint at a known name. -/
def hintText : Option String → String
  | some name => s!" (did you mean `{name}`?)"
  | none => ""

def ConfigError.message : ConfigError → String
  | .unknownEvent kind closest =>
    s!"No configured detector emits event `{kind}`{hintText closest}"
  | .unknownDetector name closest => s!"Unknown detector type `{name}`{hintText closest}"
  | .unknownListener name closest => s!"Unknown listener type `{name}`{hintText closest}"
  | .missingParameter component param => s!"`{component}` requires parameter `{param}`"
  | .invalidParameter component param expected =>
    s!"Invalid parameter `{param}` for `{component}`: {expected}"

/-- A length of time in words: the largest unit that gives a whole part, and the rest as a
    decimal fraction. -/
def durationText (milliseconds : Nat) : String :=
  let seconds := milliseconds / 1000
  let rest := milliseconds % 1000
  if seconds > 0 then
    let digits := (toString (1000 + rest)).toList.drop 1
    let fraction := (digits.reverse.dropWhile (· == '0')).reverse
    let point := if fraction.isEmpty then "" else "." ++ String.ofList fraction
    toString seconds ++ point ++ "s"
  else if rest > 0 then toString rest ++ "ms"
  else "0ns"

/-- Why a build does not succeed. -/
inductive BuildError where
  | compileFailed (status : Option Nat) (output : String)
  | testsFailed (status : Option Nat) (output : String)
  | timeout (milliseconds : Nat)
  | spawn (program : String) (fault : Fault)
deriving DecidableEq, Repr, Inhabited

def BuildError.message : BuildError → String
  | .compileFailed _ _ => "The instrumented source failed to compile"
  | .testsFailed _ _ => "The instrumented source failed to pass all tests"
  | .timeout ms => s!"Build timed out after {durationText ms}"
  | .spawn program fault => s!"Failed to start `{program}`: {fault.message}"

/-- What is wrong with a build descriptor. -/
inductive DescriptorError where
  | malformed
  | wrongRoot (found : String)
deriving DecidableEq, Repr, Inhabited

def DescriptorError.message : DescriptorError → String
  | .malformed => "malformed document"
  | .wrongRoot found => s!"expected <project>, found <{found}>"

/-- Everything that can go wrong. -/
inductive Error where
  | io (fault : Fault)
  | walk (text : String)
  | resolution (text : String)
  | parse (path : Path) (line : Nat) (text : String)
  | unresolvedImport (path : Path) (target : String)
  | compliance (path : Path) (feature : String) (required level : Nat)
  | config (cause : ConfigError)
  | detector (name text : String)
  | listener (name text : String)
  | build (cause : BuildError)
  | toml (text : String)
  | descriptor (path : Path) (cause : DescriptorError)
  | archive (path : Path) (text : String)
  /-- An edit at an offset inside a character. -/
  | offBoundary
deriving DecidableEq, Repr, Inhabited

def Error.message : Error → String
  | .io fault => s!"IO error: {fault.message}"
  | .walk text => s!"Walk error: {text}"
  | .resolution text => s!"Dependency resolution error: {text}"
  | .parse path line text => s!"Parse error in {path.text}:{line}: {text}"
  | .unresolvedImport path target => s!"Unresolved import `{target}` in {path.text}"
  | .compliance path feature required level =>
    s!"{path.text}: {feature} requires compliance level {required}, target is {level}"
  | .config cause => s!"Configuration error: {cause.message}"
  | .detector name text => s!"Detector `{name}` failed: {text}"
  | .listener name text => s!"Listener `{name}` failed: {text}"
  | .build cause => cause.message
  | .toml text => s!"TOML error: {text}"
  | .descriptor path cause => s!"XML error in {path.text}: {cause.message}"
  | .archive path text => s!"Archive error in {path.text}: {text}"
  | .offBoundary => "edit offset inside a character"

end Tracepoint
