import FormulaDrawing.Formula.Json
import FormulaDrawing.Options.Json
import FormulaDrawing.Proofs.Drawing.Numbers
import FormulaDrawing.Proofs.Formula.Decoding
import FormulaDrawing.Proofs.Latex.Depth
import FormulaDrawing.Proofs.Latex.InkFree
import FormulaDrawing.Proofs.Latex.LimitOrder
import FormulaDrawing.Proofs.Latex.PlainText
import FormulaDrawing.Proofs.Latex.Reuse
import FormulaDrawing.Proofs.Latex.RoundTrip
import FormulaDrawing.Proofs.Latex.Threshold
import FormulaDrawing.Proofs.Latex.Unclosed
import FormulaDrawing.Proofs.Layout.Baseline
import FormulaDrawing.Proofs.Layout.Depth
import FormulaDrawing.Proofs.Layout.DepthLimit
import FormulaDrawing.Proofs.Layout.Enclosure
import FormulaDrawing.Proofs.Layout.ScriptOrder
import FormulaDrawing.Proofs.Layout.Sides
import FormulaDrawing.Proofs.Layout.Translation
import FormulaDrawing.Proofs.Options.Given
import FormulaDrawing.Proofs.Typesetter.Placement
import FormulaDrawing.Proofs.Typesetter.Steady
import FormulaDrawing.Typesetter
