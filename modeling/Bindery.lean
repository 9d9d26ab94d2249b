import Bindery.Main
import Bindery.File.Tree
import Bindery.Proofs.MemberOrder
import Bindery.Proofs.Rounds
import Bindery.Proofs.SharedNames
import Bindery.Proofs.Dotted
import Bindery.Proofs.Identifier
import Bindery.Proofs.ImportPath
import Bindery.Proofs.Collection
import Bindery.Proofs.Package
import Bindery.Proofs.Model
import Bindery.Proofs.Reference
import Bindery.Proofs.Dependency
import Bindery.Proofs.Outline
import Bindery.Proofs.Tour
import Bindery.Proofs.BaseOrder
import Bindery.Proofs.Shadowing
import Bindery.Proofs.PackageFiles
import Bindery.Proofs.Imports
import Bindery.Proofs.Inheritance
import Bindery.Proofs.Mentions
import Bindery.Proofs.Content
import Bindery.Proofs.RequiredImports
import Bindery.Proofs.ForwardReference
import Bindery.Proofs.ReferredTypes
import Bindery.Proofs.AliasTable
import Bindery.Proofs.AliasTargets
import Bindery.Proofs.ScopeChange
import Bindery.Proofs.ModuleNames
import Bindery.Proofs.WrittenTypes
import Bindery.Proofs.PackageLinks
import Bindery.Proofs.DependencyOrder
import Bindery.Proofs.Encoding
import Bindery.Proofs.FieldChoice
import Bindery.Proofs.ModuleBindings
import Bindery.Proofs.PackageDescent
import Bindery.Proofs.Siblings
import Bindery.Proofs.ReservedWords
import Bindery.Proofs.ReferenceCuts
import Bindery.Proofs.BaseRuns
import Bindery.Proofs.FieldPlaces
import Bindery.Proofs.FieldCoverage
import Bindery.Proofs.FreshNames
import Bindery.Proofs.SignatureNames
import Bindery.Proofs.ProxyMembers
import Bindery.Proofs.NamespacedSymbols
import Bindery.Proofs.ShortestPath
import Bindery.Proofs.FieldNames
import Bindery.Proofs.Overrides
import Bindery.Proofs.Nesting
import Bindery.Proofs.Arguments
import Bindery.Proofs.Layout
import Bindery.Proofs.Indentation
import Bindery.Proofs.SnakeCase
import Bindery.Proofs.NameSearch
