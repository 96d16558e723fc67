import TypedStubs.CommandLine.Arguments
import TypedStubs.CommandLine.Run
import TypedStubs.Docstring.Margin
import TypedStubs.Docstring.Reference
import TypedStubs.Docstring.Sections
import TypedStubs.Dotted
import TypedStubs.FileTree.Access
import TypedStubs.FileTree.Basic
import TypedStubs.Generation.Failure
import TypedStubs.Generation.Report
import TypedStubs.Generation.Run
import TypedStubs.Hint.Basic
import TypedStubs.Hint.Parser
import TypedStubs.Hint.Token
import TypedStubs.Hint.Union
import TypedStubs.Import.Basic
import TypedStubs.Import.Block
import TypedStubs.Import.Line
import TypedStubs.Import.Needed
import TypedStubs.Index.Base
import TypedStubs.Index.Basic
import TypedStubs.Index.Hierarchy
import TypedStubs.Index.Redirect
import TypedStubs.Index.Unmet
import TypedStubs.Json.Printer
import TypedStubs.Json.Problem
import TypedStubs.Json.Reader
import TypedStubs.Json.Value
import TypedStubs.Main
import TypedStubs.Path
import TypedStubs.Settings.Basic
import TypedStubs.Settings.Json
import TypedStubs.Signature.Basic
import TypedStubs.Signature.Default
import TypedStubs.Signature.Documented
import TypedStubs.Signature.Own
import TypedStubs.Signature.Synthesis
import TypedStubs.Source.Accessor
import TypedStubs.Source.Basic
import TypedStubs.Source.InstanceAttributes
import TypedStubs.Source.LiteralType
import TypedStubs.Source.Reader
import TypedStubs.Source.Returns
import TypedStubs.Source.Walk
import TypedStubs.Stub.Basic
import TypedStubs.Stub.Emission
import TypedStubs.Stub.Merge
import TypedStubs.Stub.Reader
import TypedStubs.Stub.Render
import TypedStubs.Stub.Scope
import TypedStubs.Syntax.Block
import TypedStubs.Syntax.Definition
import TypedStubs.Syntax.Expression
import TypedStubs.Syntax.Number
import TypedStubs.Syntax.Rule
import TypedStubs.Syntax.Scanner
import TypedStubs.Syntax.SimpleStatement
import TypedStubs.Syntax.StringLiteral
import TypedStubs.Syntax.Token
import TypedStubs.Syntax.Tree
import TypedStubs.Text.Blank
import TypedStubs.Text.Case
import TypedStubs.Text.Case.Table
import TypedStubs.Text.Cut
import TypedStubs.Text.Letter
import TypedStubs.Text.Letter.Table
import TypedStubs.Text.Order
import TypedStubs.Text.Quoted
import TypedStubs.Text.Quoted.Table
import TypedStubs.Text.Ranges
import TypedStubs.Proofs.Stub.Growth
import TypedStubs.Proofs.Stub.Reading
import TypedStubs.Proofs.Dotted
import TypedStubs.Proofs.FileTree.Access
import TypedStubs.Proofs.FileTree.Files
import TypedStubs.Proofs.Generation.Run
import TypedStubs.Proofs.Import.Needed
import TypedStubs.Proofs.Import.Line
import TypedStubs.Proofs.Stub.Meaning
import TypedStubs.Proofs.FileTree.Agree
import TypedStubs.Proofs.Generation.Alike
import TypedStubs.Proofs.Generation.Independence
import TypedStubs.Proofs.Stub.Absorption
import TypedStubs.Proofs.Stub.Layout
import TypedStubs.Proofs.Stub.Signature
import TypedStubs.Proofs.Stub.Insertion
import TypedStubs.Proofs.Stub.Written
import TypedStubs.Proofs.Stub.Emitted
import TypedStubs.Proofs.Stub.Blend
import TypedStubs.Proofs.Stub.Markers
import TypedStubs.Proofs.Hint.Grammar
import TypedStubs.Proofs.Hint.Token
import TypedStubs.Proofs.Hint.RoundTrip
import TypedStubs.Proofs.Signature.Splice
import TypedStubs.Proofs.Signature.Passing
import TypedStubs.Proofs.Stub.Failure
import TypedStubs.Proofs.Hint.Refusal
import TypedStubs.Proofs.Hint.Union
import TypedStubs.Proofs.Hint.Renaming
import TypedStubs.Proofs.Index.Base
import TypedStubs.Proofs.Index.Redirect
import TypedStubs.Proofs.Index.Policy
import TypedStubs.Proofs.Index.Hierarchy
import TypedStubs.Proofs.Stub.Finish
import TypedStubs.Proofs.Source.Imports
import TypedStubs.Proofs.Signature.EqualsSign
import TypedStubs.Proofs.Stub.Added
import TypedStubs.Proofs.Stub.Decorators
import TypedStubs.Proofs.Stub.ClassVar
import TypedStubs.Proofs.Source.Walk
import TypedStubs.Proofs.Source.Returns
import TypedStubs.Proofs.Source.InstanceAttributes
import TypedStubs.Proofs.Source.Kept
import TypedStubs.Proofs.Stub.Localized
import TypedStubs.Proofs.Source.LiteralType
import TypedStubs.Proofs.Syntax.Layer
import TypedStubs.Proofs.Syntax.Spelling
import TypedStubs.Proofs.Syntax.Standalone
import TypedStubs.Proofs.Syntax.Links
import TypedStubs.Proofs.Signature.Default
import TypedStubs.Proofs.Docstring.Sections
import TypedStubs.Proofs.Docstring.Margin
import TypedStubs.Proofs.Settings.ExcludedPaths
import TypedStubs.Proofs.Path.ModuleName
import TypedStubs.Proofs.Syntax.Extent
import TypedStubs.Proofs.Stub.Indentation
import TypedStubs.Proofs.Syntax.Kept
import TypedStubs.Proofs.Syntax.Carried
import TypedStubs.Proofs.Stub.Again
import TypedStubs.Proofs.Stub.Absorbed
import TypedStubs.Proofs.Stub.Shape
import TypedStubs.Proofs.Stub.Regeneration
import TypedStubs.Proofs.Stub.Generated
import TypedStubs.Proofs.Stub.Sound
import TypedStubs.Proofs.Stub.Loading
