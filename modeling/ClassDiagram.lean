import ClassDiagram.Session
import ClassDiagram.Main
import ClassDiagram.Proofs.Declaration.Placement
import ClassDiagram.Proofs.Diagram.Imports
import ClassDiagram.Proofs.Diagram.Reference
import ClassDiagram.Proofs.Assembly.Representation
import ClassDiagram.Proofs.Assembly.Visit
import ClassDiagram.Proofs.Assembly.Layout
import ClassDiagram.Proofs.Assembly.Preorder
import ClassDiagram.Proofs.Assembly.Attachment
import ClassDiagram.Proofs.Java.Body
import ClassDiagram.Proofs.Java.DeclarationNodes
import ClassDiagram.Proofs.Diagram.Containment
import ClassDiagram.Proofs.Diagram.Hidden
import ClassDiagram.Proofs.Diagram.Monotone
import ClassDiagram.Proofs.Diagram.Erasure
import ClassDiagram.Proofs.Java.TypeReading
import ClassDiagram.Proofs.Java.ScopedReference
import ClassDiagram.Proofs.Java.Comments
import ClassDiagram.Proofs.PlantUml.Unambiguous
import ClassDiagram.Proofs.Diagram.Splitting
import ClassDiagram.Proofs.Settings.Leaves
import ClassDiagram.Proofs.Settings.Variables
import ClassDiagram.Proofs.Settings.Precedence
import ClassDiagram.Proofs.Settings.Valid
import ClassDiagram.Proofs.Settings.Nearest
import ClassDiagram.Proofs.Settings.Nested
import ClassDiagram.Proofs.Java.JavaType
import ClassDiagram.Proofs.Java.WrittenType
import ClassDiagram.Proofs.Language.Registrations
import ClassDiagram.Proofs.Language.Extensions
import ClassDiagram.Proofs.CommandLine.Agreement
import ClassDiagram.Proofs.CommandLine.Flags
import ClassDiagram.Proofs.CommandLine.Sourceless
import ClassDiagram.Proofs.FileSystem.LinkFree
import ClassDiagram.Proofs.Project.Ways
import ClassDiagram.Proofs.Project.Subdirectory
import ClassDiagram.Proofs.Project.Collected
import ClassDiagram.Proofs.Project.Listing
import ClassDiagram.Proofs.Ignore.Coverage
import ClassDiagram.Proofs.Project.Pruning
import ClassDiagram.Proofs.Project.FirstReached
import ClassDiagram.Proofs.Project.Wanted
import ClassDiagram.Proofs.Project.Built
import ClassDiagram.Proofs.Session.History
import ClassDiagram.Proofs.Java.Dimensions
import ClassDiagram.Proofs.Java.DottedName
import ClassDiagram.Proofs.Java.BareDimensions
import ClassDiagram.Proofs.Diagram.DistinctNames
import ClassDiagram.Proofs.Diagram.Lookups
import ClassDiagram.Proofs.Session.Stopped
import ClassDiagram.Proofs.Java.Code
import ClassDiagram.Proofs.Java.Partition
import ClassDiagram.Proofs.Java.ElementType
import ClassDiagram.Proofs.PlantUml.DrawnOnce
import ClassDiagram.Proofs.Java.Complete
import ClassDiagram.Proofs.Java.Pieces
import ClassDiagram.Proofs.Java.SourceTrees
import ClassDiagram.Proofs.Java.ArgumentSuffix
