import TagCheck.Command.Run
import TagCheck.Files.Tree
import TagCheck.Main
import TagCheck.Proofs.Check.AnotherPass
import TagCheck.Proofs.Check.BindingTypes
import TagCheck.Proofs.Check.Convergence
import TagCheck.Proofs.Check.Orderly
import TagCheck.Proofs.Check.Options
import TagCheck.Proofs.Check.Retention
import TagCheck.Proofs.Descriptor.Canonical
import TagCheck.Proofs.Descriptor.Grammar
import TagCheck.Proofs.Renaming.Invariance
import TagCheck.Proofs.Scope.Lexical
import TagCheck.Proofs.Shape.ArrayFits
import TagCheck.Proofs.Shape.Compatibility
import TagCheck.Proofs.Shape.Preorder
import TagCheck.Proofs.Token.Tiling
import TagCheck.Proofs.Value.LiteralAgreement
import TagCheck.Proofs.Value.ShapeSoundness
import TagCheck.Proofs.Value.TypeSoundness
import TagCheck.Proofs.Value.Validation
import TagCheck.Proofs.Check.Diagnostics
import TagCheck.Proofs.Program.Sites
import TagCheck.Proofs.Check.Range
import TagCheck.Proofs.Shape.Markers
import TagCheck.Proofs.Token.Templates
import TagCheck.Proofs.Check.Provenance
import TagCheck.Proofs.Value.InferredShape
import TagCheck.Proofs.Check.StoredShapes
import TagCheck.Proofs.Program.Precedence
import TagCheck.Proofs.Check.Walk
import TagCheck.Proofs.Check.Frames
import TagCheck.Proofs.Check.FunctionSites
import TagCheck.Proofs.Check.ReturnInference
import TagCheck.Proofs.Check.ParameterSlots
import TagCheck.Proofs.Check.CallPositions
import TagCheck.Proofs.Scope.FreeNames
import TagCheck.Proofs.Check.ValueLiterals
import TagCheck.Proofs.Check.AnyVariable
import TagCheck.Proofs.Value.ExactIntegers
import TagCheck.Proofs.Scope.DeclaringPositions
import TagCheck.Proofs.Program.NestingDepth
import TagCheck.Proofs.Store.Identity
import TagCheck.Proofs.Value.NumberConversions
import TagCheck.Proofs.Descriptor.FaultLocation
import TagCheck.Proofs.Program.PatternReadings
import TagCheck.Proofs.Token.RawText
import TagCheck.Proofs.Shape.DescribeStack
import TagCheck.Proofs.Double.ReadBack
import TagCheck.Proofs.Diagnostic.Lines
