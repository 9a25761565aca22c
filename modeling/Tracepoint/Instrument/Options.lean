import Tracepoint.Datum

/-!
# Options of a run

Where the project and the output lie, how the classpath is made, and how the
output is built. Every option has a default.
-/

namespace Tracepoint.Instrument

structure Options where
  projectDir : Path := ⟨"."⟩
  /-- The directory of the build descriptor, relative to the project. -/
  productionDir : Path := ⟨"."⟩
  outputDir : Path := ⟨"instrumented"⟩
  /-- The build descriptor, if it is not the one in the production directory. -/
  pom : Option Path := none
  /-- Classpath entries that follow the resolved ones. -/
  classpath : List Path := []
  mavenRepo : Option Path := none
  useClasspath : Bool := true
  fileByFile : Bool := false
  complianceLevel : Nat := 8
  autoImports : Bool := true
  copyProject : Bool := false
  /-- The name of the id file in the log directory. -/
  idFile : String := "id.map"
  buildProgram : String := "mvn"
  buildPhases : List String := ["clean", "test"]
  /-- The time that a build may take, in seconds; 0 for any time. -/
  buildTimeout : Nat := 600
  verboseBuild : Bool := false
deriving DecidableEq, Repr, Inhabited

namespace Options

def productionPath (o : Options) : Path := o.projectDir.join o.productionDir

def descriptorPath (o : Options) : Path := o.pom.getD (o.productionPath.join ⟨"pom.xml"⟩)

def sourceRoot (o : Options) (sourceDir : Path) : Path := o.projectDir.join sourceDir

def logDir (o : Options) : Path := o.outputDir.join ⟨"log"⟩

/-- The names of the options, in order. -/
def names : List String :=
  ["project_dir", "production_dir", "output_dir", "pom", "classpath", "maven_repo",
    "use_classpath", "file_by_file", "compliance_level", "auto_imports", "copy_project",
    "id_file", "build_program", "build_phases", "build_timeout_secs", "verbose_build"]

def decode : Decoder Options := fun d => do
  let f ← Fields.of? names true d
  let base : Options := {}
  return {
    projectDir := ← f.orDefault "project_dir" Decoder.path base.projectDir
    productionDir := ← f.orDefault "production_dir" Decoder.path base.productionDir
    outputDir := ← f.orDefault "output_dir" Decoder.path base.outputDir
    pom := ← f.orDefault "pom" (Decoder.optional Decoder.path) base.pom
    classpath := ← f.orDefault "classpath" (Decoder.list Decoder.path) base.classpath
    mavenRepo := ← f.orDefault "maven_repo" (Decoder.optional Decoder.path) base.mavenRepo
    useClasspath := ← f.orDefault "use_classpath" Decoder.boolean base.useClasspath
    fileByFile := ← f.orDefault "file_by_file" Decoder.boolean base.fileByFile
    complianceLevel :=
      ← f.orDefault "compliance_level" (Decoder.natural (Nat.pow 2 32)) base.complianceLevel
    autoImports := ← f.orDefault "auto_imports" Decoder.boolean base.autoImports
    copyProject := ← f.orDefault "copy_project" Decoder.boolean base.copyProject
    idFile := ← f.orDefault "id_file" Decoder.text base.idFile
    buildProgram := ← f.orDefault "build_program" Decoder.text base.buildProgram
    buildPhases := ← f.orDefault "build_phases" (Decoder.list Decoder.text) base.buildPhases
    buildTimeout :=
      ← f.orDefault "build_timeout_secs" (Decoder.natural (Nat.pow 2 64)) base.buildTimeout
    verboseBuild := ← f.orDefault "verbose_build" Decoder.boolean base.verboseBuild }

end Options

end Tracepoint.Instrument
