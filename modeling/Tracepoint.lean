import Tracepoint.Archive
import Tracepoint.Build.Report
import Tracepoint.Build.Tool
import Tracepoint.Classpath
import Tracepoint.Cli.Arguments
import Tracepoint.Cli.Help
import Tracepoint.Cli.Program
import Tracepoint.Config.Configuration
import Tracepoint.Config.Logger
import Tracepoint.Datum
import Tracepoint.Detect.Catalog
import Tracepoint.Detect.Listener
import Tracepoint.Detect.Method
import Tracepoint.Disk
import Tracepoint.Error
import Tracepoint.IdMap
import Tracepoint.Ignore.Glob
import Tracepoint.Ignore.Rules
import Tracepoint.Instrument.Injection
import Tracepoint.Instrument.Instrumenter
import Tracepoint.Instrument.Options
import Tracepoint.Instrument.Output
import Tracepoint.Instrument.Run
import Tracepoint.Java.Grammar.Expressions
import Tracepoint.Java.Grammar.Level
import Tracepoint.Java.Grammar.Statements
import Tracepoint.Java.Grammar.Types
import Tracepoint.Java.Parse
import Tracepoint.Java.Rule
import Tracepoint.Java.Shape
import Tracepoint.Java.Token
import Tracepoint.Java.Tree
import Tracepoint.Language
import Tracepoint.Main
import Tracepoint.Maven.Descriptor
import Tracepoint.Maven.Project
import Tracepoint.Maven.Properties
import Tracepoint.Maven.Resolver
import Tracepoint.Model.Build
import Tracepoint.Model.Level
import Tracepoint.Model.Print
import Tracepoint.Path
import Tracepoint.PathSet
import Tracepoint.Proofs.Build.Report
import Tracepoint.Proofs.Classpath
import Tracepoint.Proofs.ClasspathIndex
import Tracepoint.Proofs.Config.Properties
import Tracepoint.Proofs.Detect.Entries
import Tracepoint.Proofs.Detect.Events
import Tracepoint.Proofs.Detect.IdFile
import Tracepoint.Proofs.Detect.ImportBlock
import Tracepoint.Proofs.Detect.Insertions
import Tracepoint.Proofs.Detect.Keys
import Tracepoint.Proofs.Detect.Names
import Tracepoint.Proofs.Detect.Overloads
import Tracepoint.Proofs.Detect.Spacing
import Tracepoint.Proofs.Detect.Tokens
import Tracepoint.Proofs.Detect.TypeNames
import Tracepoint.Proofs.Disk.Growth
import Tracepoint.Proofs.Disk.Leads
import Tracepoint.Proofs.Disk.Redone
import Tracepoint.Proofs.Disk.Repeat
import Tracepoint.Proofs.Effects
import Tracepoint.Proofs.FirstOccurrences
import Tracepoint.Proofs.Ids
import Tracepoint.Proofs.Instrument.Abort
import Tracepoint.Proofs.Instrument.Containment
import Tracepoint.Proofs.Instrument.Counts
import Tracepoint.Proofs.Instrument.FileByFile
import Tracepoint.Proofs.Instrument.Filling
import Tracepoint.Proofs.Instrument.History
import Tracepoint.Proofs.Instrument.Idle
import Tracepoint.Proofs.Instrument.IdsOnDisk
import Tracepoint.Proofs.Instrument.Launch
import Tracepoint.Proofs.Instrument.Lockstep
import Tracepoint.Proofs.Instrument.Modes
import Tracepoint.Proofs.Instrument.Pass
import Tracepoint.Proofs.Instrument.ProjectCopy
import Tracepoint.Proofs.Instrument.Redone
import Tracepoint.Proofs.Instrument.Rerun
import Tracepoint.Proofs.Instrument.Run
import Tracepoint.Proofs.Instrument.Wiring
import Tracepoint.Proofs.Instrument.Written
import Tracepoint.Proofs.Java.Alike
import Tracepoint.Proofs.Java.Comments
import Tracepoint.Proofs.Java.Extents
import Tracepoint.Proofs.Java.Grammar
import Tracepoint.Proofs.Java.Laid
import Tracepoint.Proofs.Java.Layout
import Tracepoint.Proofs.Java.Ordered
import Tracepoint.Proofs.Java.Places
import Tracepoint.Proofs.Java.Ranges
import Tracepoint.Proofs.Java.Ranks
import Tracepoint.Proofs.Java.Scan
import Tracepoint.Proofs.Java.Separate
import Tracepoint.Proofs.Java.Sequence
import Tracepoint.Proofs.Java.Stretch
import Tracepoint.Proofs.Java.Takes
import Tracepoint.Proofs.Maven.Archives
import Tracepoint.Proofs.Maven.Effective
import Tracepoint.Proofs.Maven.Expansion
import Tracepoint.Proofs.Maven.Inheritance
import Tracepoint.Proofs.Maven.Lineage
import Tracepoint.Proofs.Maven.Management
import Tracepoint.Proofs.Model.Build
import Tracepoint.Proofs.Model.Imports
import Tracepoint.Proofs.Model.Level
import Tracepoint.Proofs.Model.Print
import Tracepoint.Proofs.Model.Printed
import Tracepoint.Proofs.Path
import Tracepoint.Proofs.PathSet
import Tracepoint.Proofs.Reading
import Tracepoint.Proofs.SharedIds
import Tracepoint.Proofs.Source.Declarations
import Tracepoint.Proofs.Source.Imports
import Tracepoint.Proofs.Source.Lines
import Tracepoint.Proofs.Source.Ordinals
import Tracepoint.Proofs.Source.Owners
import Tracepoint.Proofs.Source.Parameters
import Tracepoint.Proofs.Source.Positions
import Tracepoint.Proofs.Source.Shapes
import Tracepoint.Proofs.Source.Splice
import Tracepoint.Proofs.Source.Stepwise
import Tracepoint.Proofs.Source.Tokens
import Tracepoint.Proofs.Source.TypeTexts
import Tracepoint.Proofs.Spelling
import Tracepoint.Proofs.Text.Blanks
import Tracepoint.Proofs.Text.Enclosed
import Tracepoint.Proofs.Text.Split
import Tracepoint.Proofs.Walk
import Tracepoint.Proofs.Writing
import Tracepoint.Shell.Script
import Tracepoint.Shell.Session
import Tracepoint.Shell.Utility
import Tracepoint.Source.Edit
import Tracepoint.Source.Import
import Tracepoint.Source.Naming
import Tracepoint.Source.Render
import Tracepoint.Source.Unit
import Tracepoint.Text.Blank
import Tracepoint.Text.Bytes
import Tracepoint.Text.Identifier
import Tracepoint.Text.Offset
import Tracepoint.Text.Quoted
import Tracepoint.Text.Search
import Tracepoint.Text.Similarity
import Tracepoint.Toml.Document
import Tracepoint.Toml.Scalar
import Tracepoint.Toml.Value
import Tracepoint.Walk
import Tracepoint.World
import Tracepoint.Xml.Document
import Tracepoint.Xml.Lexical
