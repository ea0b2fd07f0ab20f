import RpcBinder.Analysis.Basic
import RpcBinder.Analysis.Warning
import RpcBinder.Catalog
import RpcBinder.Command.Arguments
import RpcBinder.Command.Run
import RpcBinder.Config
import RpcBinder.Declaration.Anchor
import RpcBinder.Declaration.Scope
import RpcBinder.Declaration.Service
import RpcBinder.Declaration.Shape
import RpcBinder.Declaration.TypeText
import RpcBinder.Failure
import RpcBinder.FileTree.Action
import RpcBinder.FileTree.Basic
import RpcBinder.FileTree.Glob.Basic
import RpcBinder.FileTree.Glob.Reader
import RpcBinder.FileTree.Ignore.Basic
import RpcBinder.FileTree.Ignore.Rule
import RpcBinder.Json.Basic
import RpcBinder.Json.Model
import RpcBinder.Json.Printer
import RpcBinder.Json.Reader
import RpcBinder.Lexis.Braces
import RpcBinder.Lexis.Comments
import RpcBinder.Lexis.Nesting
import RpcBinder.Lexis.Parens
import RpcBinder.Lexis.Region
import RpcBinder.Main
import RpcBinder.Marker
import RpcBinder.Model.Anchor
import RpcBinder.Model.Service
import RpcBinder.PackageFilter
import RpcBinder.Path
import RpcBinder.Pattern.Basic
import RpcBinder.Pattern.Run
import RpcBinder.Pattern.Search
import RpcBinder.Pattern.Sweep
import RpcBinder.Project
import RpcBinder.Proofs.Declaration.Methods
import RpcBinder.Proofs.Declaration.Owners
import RpcBinder.Proofs.Declaration.Params
import RpcBinder.Proofs.Declaration.ServiceSource
import RpcBinder.Proofs.Declaration.Services
import RpcBinder.Proofs.Declaration.Shapes
import RpcBinder.Proofs.Declaration.TypeText
import RpcBinder.Proofs.Json.RoundTrip
import RpcBinder.Proofs.Lexis.Nesting
import RpcBinder.Proofs.Lexis.Segments
import RpcBinder.Proofs.Pattern.Finds
import RpcBinder.Proofs.Pattern.Reads
import RpcBinder.Proofs.Text.Parts
import RpcBinder.Proofs.TypeRef.Qualification
import RpcBinder.Proofs.TypeRef.Tree
import RpcBinder.Scope.Basic
import RpcBinder.Scope.Resolver
import RpcBinder.Scope.TypeIndex
import RpcBinder.Source.Load
import RpcBinder.Source.SourceSet
import RpcBinder.Stub.Basic
import RpcBinder.Stub.Descriptor
import RpcBinder.Stub.Output
import RpcBinder.Table
import RpcBinder.Text.Bytes
import RpcBinder.Text.Space
import RpcBinder.Text.Split
import RpcBinder.Text.Word
import RpcBinder.TypeRef.Basic
import RpcBinder.TypeRef.Reader
import RpcBinder.Proofs.Lexis.Depth
import RpcBinder.Proofs.Declaration.View
import RpcBinder.Proofs.Analysis.FileByFile
import RpcBinder.Proofs.FileTree.Basic
import RpcBinder.Proofs.FileTree.Action
import RpcBinder.Proofs.FileTree.Renewal
import RpcBinder.Proofs.FileTree.Writing
import RpcBinder.Proofs.Stub.Basic
import RpcBinder.Proofs.Stub.Output
import RpcBinder.Proofs.Stub.Generation
import RpcBinder.Proofs.Analysis.AnchorNames
import RpcBinder.Proofs.Stub.Distinct
import RpcBinder.Proofs.Source.PathOrder
import RpcBinder.Proofs.Source.Enumeration
import RpcBinder.Proofs.Pattern.Takes
import RpcBinder.Proofs.Declaration.InCode
import RpcBinder.Proofs.Declaration.Tag
import RpcBinder.Proofs.Declaration.TypeLine
import RpcBinder.Proofs.Declaration.Headers
import RpcBinder.Proofs.Analysis.Reachable
import RpcBinder.Proofs.Declaration.Outline
import RpcBinder.Proofs.Declaration.Between
import RpcBinder.Proofs.Declaration.StuckTags
import RpcBinder.Proofs.Declaration.TaggedSource
import RpcBinder.Proofs.Declaration.TaggedServices
import RpcBinder.Proofs.Command.Agreement
import RpcBinder.Proofs.Analysis.Filtering
import RpcBinder.Proofs.Analysis.Duplicates
import RpcBinder.Proofs.Declaration.Malformed
import RpcBinder.Proofs.Scope.Growth
import RpcBinder.Proofs.Scope.WildcardOrder
import RpcBinder.Proofs.TypeRef.FunctionTypes
import RpcBinder.Proofs.Lexis.Parens
import RpcBinder.Proofs.Pattern.Misses
import RpcBinder.Proofs.Pattern.Lines
import RpcBinder.Proofs.TypeRef.Commas
import RpcBinder.Proofs.Declaration.Modifiers
import RpcBinder.Proofs.Declaration.NamedType
import RpcBinder.Proofs.Declaration.AnchorHead
import RpcBinder.Proofs.Declaration.ClientAnchors
import RpcBinder.Proofs.Declaration.ServerAnchors
import RpcBinder.Proofs.Scope.Imports
import RpcBinder.Proofs.Declaration.Directives
import RpcBinder.Proofs.Declaration.ScopeSource
import RpcBinder.Proofs.Declaration.Regions
import RpcBinder.Proofs.Declaration.ReturnTypes
import RpcBinder.Proofs.Declaration.Decorations
import RpcBinder.Proofs.Command.Validity
import RpcBinder.Proofs.PackageFilter
import RpcBinder.Proofs.Stub.Layout
import RpcBinder.Proofs.Declaration.AnchorArguments
import RpcBinder.Proofs.TypeRef.Streams
import RpcBinder.Proofs.Stub.Descriptor
import RpcBinder.Proofs.Lexis.Balance
import RpcBinder.Proofs.Bytes.Comments
import RpcBinder.Proofs.Bytes.Braces
import RpcBinder.Proofs.Bytes.Parens
import RpcBinder.Proofs.Bytes.Types
import RpcBinder.Proofs.Pattern.Spans
import RpcBinder.Proofs.Bytes.Services
import RpcBinder.Proofs.Bytes.Extraction
import RpcBinder.Proofs.Lexis.RepeatedCuts
import RpcBinder.Proofs.Scope.Bookkeeping
