import Bytecode.Cartridge.Body
import Bytecode.Cartridge.Header
import Bytecode.Clerk
import Bytecode.Command
import Bytecode.Files.Path
import Bytecode.Files.Tree
import Bytecode.Format
import Bytecode.FrontEnd.Casing
import Bytecode.FrontEnd.Comment
import Bytecode.FrontEnd.Entry
import Bytecode.FrontEnd.Source
import Bytecode.Index
import Bytecode.Json
import Bytecode.Json.Number
import Bytecode.Json.Text
import Bytecode.Lector
import Bytecode.Listing
import Bytecode.Main
import Bytecode.Name
import Bytecode.Number.Double
import Bytecode.Number.Instances
import Bytecode.Number.LittleEndian
import Bytecode.Number.Printing
import Bytecode.Number.Rounding
import Bytecode.Number.Shortest
import Bytecode.Reader
import Bytecode.Schema
import Bytecode.Schema.Document
import Bytecode.Schema.Error
import Bytecode.Schema.Hir
import Bytecode.Schema.Load
import Bytecode.Schema.Opcodes
import Bytecode.Scribe
import Bytecode.Table
import Bytecode.Text.Blank
import Bytecode.Text.CharSet
import Bytecode.Text.Extender
import Bytecode.Text.Hex
import Bytecode.Text.Quoted
import Bytecode.Text.Unprintable
import Bytecode.Text.Uppercase
import Bytecode.Text.Utf8
import Bytecode.Wire.Codec
import Bytecode.Wire.Deck
import Bytecode.Wire.Field
import Bytecode.Wire.Kind
import Bytecode.Wire.Literal
import Bytecode.Wire.Tape
import Bytecode.Wire.Value
import Bytecode.Writer
import Bytecode.Proofs.Codec
import Bytecode.Proofs.Instruction
import Bytecode.Proofs.Header
import Bytecode.Proofs.Checks
import Bytecode.Proofs.Opcodes
import Bytecode.Proofs.Loaded
import Bytecode.Proofs.Draft
import Bytecode.Proofs.Session
import Bytecode.Proofs.RoundTrip
import Bytecode.Proofs.Canonical
import Bytecode.Proofs.Truncation
import Bytecode.Proofs.Refusal
import Bytecode.Proofs.Validity
import Bytecode.Proofs.Loading
import Bytecode.Proofs.Words
import Bytecode.Proofs.Naming
import Bytecode.Proofs.Recital
import Bytecode.Proofs.Orders
import Bytecode.Proofs.Addressing
import Bytecode.Proofs.Dispatch
import Bytecode.Proofs.Progress
import Bytecode.Proofs.Transcript
import Bytecode.Proofs.Exactness
import Bytecode.Proofs.Registration
import Bytecode.Proofs.Assignment
import Bytecode.Proofs.Identifiers
import Bytecode.Proofs.Legibility
import Bytecode.Proofs.Unambiguity
import Bytecode.FrontEnd.Outline
import Bytecode.Proofs.CodeLines
import Bytecode.Proofs.Outline
import Bytecode.Proofs.Clashes
import Bytecode.Proofs.Agreement
import Bytecode.Proofs.Comments
import Bytecode.Proofs.Lexemes
import Bytecode.Proofs.Denotation
import Bytecode.Proofs.Conversion
import Bytecode.Proofs.Diagnosis
import Bytecode.Proofs.Locality
import Bytecode.Proofs.Rearrangement
import Bytecode.Proofs.Literals
import Bytecode.Proofs.Deck
import Bytecode.Proofs.Framing
import Bytecode.Proofs.Consumption
import Bytecode.Proofs.Folding
import Bytecode.Proofs.Grammar
