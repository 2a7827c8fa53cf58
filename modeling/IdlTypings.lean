import IdlTypings.Main
import IdlTypings.Proofs.Conversion.Shell
import IdlTypings.Proofs.Lowering.Simulation
import IdlTypings.Proofs.Parser.Excerpt
import IdlTypings.Proofs.Parser.Special
import IdlTypings.Proofs.Parser.Scanner
import IdlTypings.Proofs.Declaration.Unambiguous
import IdlTypings.Proofs.Dialect.CommentPattern
import IdlTypings.Proofs.Lexer.Requests
import IdlTypings.Proofs.Lexer.Tiling
import IdlTypings.Proofs.Lowering.ArrayElements
import IdlTypings.Proofs.Conversion.ArrayAttributes
import IdlTypings.Proofs.Dialect.Sugarless
import IdlTypings.Proofs.Dialect.OnePass
import IdlTypings.Proofs.Lowering.Collapsing
import IdlTypings.Proofs.Lowering.Filled
import IdlTypings.Proofs.Conversion.EnumerationValues
import IdlTypings.Proofs.Loading.Blocks
import IdlTypings.Proofs.Lexer.Layout
import IdlTypings.Proofs.Lexer.LineTable
import IdlTypings.Proofs.Command.Converting
