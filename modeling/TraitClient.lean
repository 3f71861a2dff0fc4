import TraitClient.Client.Context
import TraitClient.Client.Fields
import TraitClient.Client.Response
import TraitClient.Main
import TraitClient.Proofs.MethodRuns
import TraitClient.Proofs.RunModes
import TraitClient.Proofs.ServiceHierarchy
import TraitClient.Proofs.DeclaredEndpoints
import TraitClient.Proofs.Identifiers
import TraitClient.Proofs.LegibleCode
import TraitClient.Proofs.LegibleMethods
import TraitClient.Proofs.PathText
import TraitClient.Proofs.LegibleUnits
import TraitClient.Proofs.SourceNames
import TraitClient.Proofs.ServiceNames
import TraitClient.Proofs.ForeignPaths
import TraitClient.Proofs.InheritedMeaning
import TraitClient.Proofs.RepeatedRuns
import TraitClient.Proofs.FileOrder
import TraitClient.Proofs.AttributeNames
import TraitClient.Proofs.TypeRoundTrip
import TraitClient.Proofs.ExpressionReading
import TraitClient.Proofs.ItemReading
import TraitClient.Proofs.EmittedUnits
import TraitClient.Proofs.ParsedItems
import TraitClient.Proofs.SharedContexts
import TraitClient.Proofs.ConcurrentInstalls
import TraitClient.Proofs.TraitBlocks
import TraitClient.Proofs.ParameterScopes
import TraitClient.Proofs.AnchoredPaths
import TraitClient.Proofs.TypeGrammar
import TraitClient.Proofs.PartTypes
import TraitClient.Proofs.SupertraitArguments
import TraitClient.Proofs.UseTrees
import TraitClient.Proofs.ImportChains
import TraitClient.Proofs.ModuleFiles
import TraitClient.Proofs.BarePaths
import TraitClient.Proofs.AttributePaths
import TraitClient.Proofs.RuntimeNames
import TraitClient.Proofs.PathSettings
import TraitClient.Proofs.PathSpellings
import TraitClient.Proofs.StoreHistory
import TraitClient.Proofs.FieldCollections
import TraitClient.Proofs.ScannedFiles
import TraitClient.Proofs.DumpedPlans
import TraitClient.Proofs.TemplatePieces
import TraitClient.Proofs.SharedModulePaths
import TraitClient.Proofs.AtomicWrites
import TraitClient.Proofs.IndexedTraits
import TraitClient.Proofs.FewestUnderscores
import TraitClient.Proofs.SnakeCase
