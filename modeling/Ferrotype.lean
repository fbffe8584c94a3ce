import Ferrotype.CommandLine.Arguments
import Ferrotype.CommandLine.Flag
import Ferrotype.Config
import Ferrotype.Destination
import Ferrotype.Diagnostic
import Ferrotype.Files.Path
import Ferrotype.Files.Reading
import Ferrotype.Files.Tree
import Ferrotype.Generator
import Ferrotype.Json.Read
import Ferrotype.Json.Value
import Ferrotype.Main
import Ferrotype.Output
import Ferrotype.Parsed
import Ferrotype.Position
import Ferrotype.Proofs.Cursor
import Ferrotype.Proofs.Files.Discovery
import Ferrotype.Proofs.Files.Rewriting
import Ferrotype.Proofs.Files.Writing
import Ferrotype.Proofs.Json.Break
import Ferrotype.Proofs.Json.Derived
import Ferrotype.Proofs.Json.Ending
import Ferrotype.Proofs.Json.Grammar
import Ferrotype.Proofs.Json.Literal
import Ferrotype.Proofs.Json.Reading
import Ferrotype.Proofs.Run.Again
import Ferrotype.Proofs.Run.Effect
import Ferrotype.Proofs.Run.Loading
import Ferrotype.Proofs.Rust.Canonical.Attribute
import Ferrotype.Proofs.Rust.Canonical.Declaration
import Ferrotype.Proofs.Rust.Canonical.Expr
import Ferrotype.Proofs.Rust.Canonical.Field
import Ferrotype.Proofs.Rust.Canonical.Generics
import Ferrotype.Proofs.Rust.Canonical.Item
import Ferrotype.Proofs.Rust.Canonical.Literal
import Ferrotype.Proofs.Rust.Canonical.Numeral
import Ferrotype.Proofs.Rust.Canonical.Path
import Ferrotype.Proofs.Rust.Canonical.Piece
import Ferrotype.Proofs.Rust.Canonical.Preamble
import Ferrotype.Proofs.Rust.Canonical.Reads
import Ferrotype.Proofs.Rust.Canonical.Type
import Ferrotype.Proofs.Rust.Canonical.Type.Reading
import Ferrotype.Proofs.Rust.Canonical.Type.Spelling
import Ferrotype.Proofs.Rust.Canonical.Variant
import Ferrotype.Proofs.Rust.NumericLiteral
import Ferrotype.Proofs.Rust.Parse.Branch
import Ferrotype.Proofs.Rust.Parse.Continue
import Ferrotype.Proofs.Rust.Parse.Continue.Attribute
import Ferrotype.Proofs.Rust.Parse.Continue.Expr
import Ferrotype.Proofs.Rust.Parse.Continue.Item
import Ferrotype.Proofs.Rust.Parse.Continue.Type
import Ferrotype.Proofs.Rust.Parse.Escape
import Ferrotype.Proofs.Rust.Parse.Initializer
import Ferrotype.Proofs.Rust.Parse.Local
import Ferrotype.Proofs.Rust.Parse.Number
import Ferrotype.Proofs.Rust.Parse.Outcome
import Ferrotype.Proofs.Rust.Parse.Separated
import Ferrotype.Proofs.Rust.Parse.Skipped
import Ferrotype.Proofs.Rust.Parse.Unbroken
import Ferrotype.Proofs.Rust.Parse.Visible
import Ferrotype.Proofs.Rust.Parse.WhereClause
import Ferrotype.Proofs.Rust.Plain.Discriminant
import Ferrotype.Proofs.Rust.Plain.Expr
import Ferrotype.Proofs.Rust.Plain.Fields
import Ferrotype.Proofs.Rust.Plain.Header
import Ferrotype.Proofs.Rust.Plain.Parameters
import Ferrotype.Proofs.Rust.Plain.Scope
import Ferrotype.Proofs.Rust.Plain.Type
import Ferrotype.Proofs.Rust.Plain.Visibility
import Ferrotype.Proofs.Rust.Plain.Wrapped
import Ferrotype.Proofs.Rust.PlainNumeral
import Ferrotype.Proofs.Rust.Spelling
import Ferrotype.Proofs.Rust.Tokenize.Again
import Ferrotype.Proofs.Rust.Tokenize.BlockDoc
import Ferrotype.Proofs.Rust.Tokenize.CommentBody
import Ferrotype.Proofs.Rust.Tokenize.Cut
import Ferrotype.Proofs.Rust.Tokenize.Joined
import Ferrotype.Proofs.Rust.Tokenize.LineBreak
import Ferrotype.Proofs.Rust.Tokenize.Number
import Ferrotype.Proofs.Rust.Tokenize.Parted
import Ferrotype.Proofs.Rust.Tokenize.Plain
import Ferrotype.Proofs.Rust.Tokenize.Point
import Ferrotype.Proofs.Rust.Tokenize.Remark
import Ferrotype.Proofs.Rust.Tokenize.Stream
import Ferrotype.Proofs.Rust.Tokenize.Tiling
import Ferrotype.Proofs.Rust.Verbatim
import Ferrotype.Proofs.Rust.Walk
import Ferrotype.Proofs.Rust.Walk.Attribute
import Ferrotype.Proofs.Rust.Walk.Char
import Ferrotype.Proofs.Rust.Walk.Expr
import Ferrotype.Proofs.Rust.Walk.Halts
import Ferrotype.Proofs.Rust.Walk.Item
import Ferrotype.Proofs.Rust.Walk.Lexeme
import Ferrotype.Proofs.Rust.Walk.Skip
import Ferrotype.Proofs.Rust.Walk.Type
import Ferrotype.Proofs.Serde.Arguments
import Ferrotype.Proofs.Serde.Casing
import Ferrotype.Proofs.Serde.Casing.Again
import Ferrotype.Proofs.Serde.Casing.Field
import Ferrotype.Proofs.Serde.Casing.Variant
import Ferrotype.Proofs.Serde.Directive
import Ferrotype.Proofs.Serde.Grouping
import Ferrotype.Proofs.Serde.Nested
import Ferrotype.Proofs.Serde.Words
import Ferrotype.Proofs.Sources.Isolation
import Ferrotype.Proofs.Sources.Progress
import Ferrotype.Proofs.Text.Digits
import Ferrotype.Proofs.Text.Encoded
import Ferrotype.Proofs.Text.Utf8
import Ferrotype.Proofs.Translate.Block
import Ferrotype.Proofs.Translate.Constant
import Ferrotype.Proofs.Translate.Discriminant
import Ferrotype.Proofs.Translate.Documentation
import Ferrotype.Proofs.Translate.Enum
import Ferrotype.Proofs.Translate.Keys
import Ferrotype.Proofs.Translate.NumericConstant
import Ferrotype.Proofs.Translate.Policy
import Ferrotype.Proofs.Translate.Record
import Ferrotype.Proofs.Translate.Remark
import Ferrotype.Proofs.Translate.Renaming
import Ferrotype.Proofs.Translate.Settings
import Ferrotype.Proofs.Translate.Skipped
import Ferrotype.Proofs.Translate.StringConstant
import Ferrotype.Proofs.Translate.Type
import Ferrotype.Proofs.Translate.Unmapped
import Ferrotype.Proofs.TypeScript.Alternative
import Ferrotype.Proofs.TypeScript.Comment
import Ferrotype.Proofs.TypeScript.Documentation
import Ferrotype.Proofs.TypeScript.Fragment
import Ferrotype.Proofs.TypeScript.Grammar
import Ferrotype.Proofs.TypeScript.KeyPlace
import Ferrotype.Proofs.TypeScript.Number
import Ferrotype.Proofs.TypeScript.Reading
import Ferrotype.Proofs.TypeScript.Separator
import Ferrotype.Proofs.TypeScript.TypeTree
import Ferrotype.Proofs.TypeScript.Union
import Ferrotype.Proofs.Unicode.Ascii
import Ferrotype.Proofs.Unicode.Word
import Ferrotype.Report
import Ferrotype.Run
import Ferrotype.Rust.Escape
import Ferrotype.Rust.Expr
import Ferrotype.Rust.Item
import Ferrotype.Rust.Lexeme
import Ferrotype.Rust.Numeral
import Ferrotype.Rust.Parse.Attribute
import Ferrotype.Rust.Parse.Basic
import Ferrotype.Rust.Parse.Expr
import Ferrotype.Rust.Parse.Generics
import Ferrotype.Rust.Parse.Item
import Ferrotype.Rust.Parse.Path
import Ferrotype.Rust.Parse.Span
import Ferrotype.Rust.Parse.Type
import Ferrotype.Rust.Token
import Ferrotype.Rust.Tokenize
import Ferrotype.Rust.Type
import Ferrotype.Serde.Attributes
import Ferrotype.Serde.Casing
import Ferrotype.Settings
import Ferrotype.Sources
import Ferrotype.Text.CodePoint
import Ferrotype.Text.Hexadecimal
import Ferrotype.Text.Line
import Ferrotype.Text.Literal
import Ferrotype.Text.Pieces
import Ferrotype.Text.Quoted
import Ferrotype.Text.Utf8
import Ferrotype.Translate.Emission
import Ferrotype.Translate.Enum
import Ferrotype.Translate.Item
import Ferrotype.Translate.Record
import Ferrotype.Translate.Type
import Ferrotype.Translate.Value
import Ferrotype.TypeScript.Comment
import Ferrotype.TypeScript.Declaration
import Ferrotype.TypeScript.Key
import Ferrotype.TypeScript.Type
import Ferrotype.TypeScript.Value
import Ferrotype.Unicode.Blank
import Ferrotype.Unicode.CaseMap
import Ferrotype.Unicode.CodeSet
import Ferrotype.Unicode.Digit
import Ferrotype.Unicode.Letter
import Ferrotype.Unicode.Printable
