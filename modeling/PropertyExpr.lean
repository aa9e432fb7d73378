import PropertyExpr.Expr.Printer
import PropertyExpr.Main
import PropertyExpr.Proofs.CommandOutput
import PropertyExpr.Proofs.ParserHalts
import PropertyExpr.Proofs.Radices
import PropertyExpr.Proofs.Spacing
import PropertyExpr.Proofs.Tiling
import PropertyExpr.Proofs.Layout
import PropertyExpr.Proofs.Rendering
import PropertyExpr.Proofs.Composition
import PropertyExpr.Proofs.Relocation
import PropertyExpr.Proofs.Concatenation
import PropertyExpr.Proofs.Respelling
import PropertyExpr.Proofs.Closing
import PropertyExpr.Proofs.Indifference
import PropertyExpr.Proofs.Ranges
import PropertyExpr.Proofs.Places
import PropertyExpr.Proofs.Composer
import PropertyExpr.Proofs.ErrorSpans
import PropertyExpr.Proofs.Leftmost
import PropertyExpr.Proofs.Cuts
import PropertyExpr.Proofs.Decoding
import PropertyExpr.Proofs.TextRoundTrip
import PropertyExpr.Proofs.IntegerArithmetic
import PropertyExpr.Proofs.NotNaN
import PropertyExpr.Proofs.NumberGrammar
import PropertyExpr.Proofs.Matching
import PropertyExpr.Proofs.Parentheses
import PropertyExpr.Proofs.Tables
import PropertyExpr.Proofs.Logging
import PropertyExpr.Proofs.CursorCalls
import PropertyExpr.Proofs.ParserTrail
import PropertyExpr.Proofs.ExitCodes
