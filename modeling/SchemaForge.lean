import SchemaForge.CommandLine
import SchemaForge.Proofs.AcceptedSource
import SchemaForge.Proofs.AliasLoops
import SchemaForge.Proofs.BoxedReferences
import SchemaForge.Proofs.DeclaredNames
import SchemaForge.Proofs.DefinitionOrder
import SchemaForge.Proofs.DescriptionChanges
import SchemaForge.Proofs.FiniteSize
import SchemaForge.Proofs.KeptOutputs
import SchemaForge.Proofs.Leaves
import SchemaForge.Proofs.MemberNames
import SchemaForge.Proofs.OneOrManyHelper
import SchemaForge.Proofs.ReferenceCycles
import SchemaForge.Proofs.ReferenceTargets
import SchemaForge.Proofs.RunTransactions
import SchemaForge.Proofs.TypeNames
import SchemaForge.Proofs.UnfoldedNames
import SchemaForge.Proofs.Verdicts
import SchemaForge.Proofs.DistinctKeys
import SchemaForge.Proofs.MergedPaths
import SchemaForge.Proofs.Relocation
import SchemaForge.Proofs.RepeatedComponents
import SchemaForge.Proofs.OneOrManyPattern
import SchemaForge.Proofs.OnlyComponents
import SchemaForge.Proofs.WrappedDefinitions
import SchemaForge.Proofs.FilledComments
import SchemaForge.Proofs.LiteralTokens
import SchemaForge.Proofs.CaseForms
import SchemaForge.Proofs.KeywordEdits
import SchemaForge.Proofs.Addresses
import SchemaForge.Proofs.CheckedOutputs
import SchemaForge.Proofs.NumberedNames
import SchemaForge.Proofs.UnknownOptions
import SchemaForge.Proofs.SavedSettings
