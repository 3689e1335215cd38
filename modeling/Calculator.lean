import Calculator.Main
import Calculator.Grammar
import Calculator.Proofs.Lexing.Cursor
import Calculator.Proofs.Lexing.Items
import Calculator.Proofs.Lexing.Kinds
import Calculator.Proofs.Lexing.Partition
import Calculator.Proofs.Lexing.Rendering
import Calculator.Proofs.Binary64.Amounts
import Calculator.Proofs.Binary64.Fields
import Calculator.Proofs.Binary64.Nearness
import Calculator.Proofs.Binary64.Positional
import Calculator.Proofs.Binary64.Printing
import Calculator.Proofs.Binary64.Rounding
import Calculator.Proofs.Binary64.Values
import Calculator.Proofs.Reading.Calls
import Calculator.Proofs.Reading.Checker
import Calculator.Proofs.Reading.Conditions
import Calculator.Proofs.Reading.Correspondence
import Calculator.Proofs.Reading.Counter
import Calculator.Proofs.Reading.Depth
import Calculator.Proofs.Reading.Descent
import Calculator.Proofs.Reading.Floors
import Calculator.Proofs.Reading.Grammar
import Calculator.Proofs.Reading.Labels
import Calculator.Proofs.Reading.Limits
import Calculator.Proofs.Reading.Log
import Calculator.Proofs.Reading.Lookahead
import Calculator.Proofs.Reading.Machine
import Calculator.Proofs.Reading.Nesting
import Calculator.Proofs.Reading.Numerals
import Calculator.Proofs.Reading.Openings
import Calculator.Proofs.Reading.Printed
import Calculator.Proofs.Reading.Relocation
import Calculator.Proofs.Reading.Resumption
import Calculator.Proofs.Reading.Simulation
import Calculator.Proofs.Reading.Stack
import Calculator.Proofs.Reading.Strays
import Calculator.Proofs.Reading.Viability
import Calculator.Proofs.Reading.Work
import Calculator.Proofs.Lines.Cut
import Calculator.Proofs.Lines.Decoding
import Calculator.Proofs.Lines.Files
import Calculator.Proofs.Lines.Replies
import Calculator.Proofs.Lines.Sessions
