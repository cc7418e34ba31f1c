import DecimalCalc.Decimal.Fixed96
import DecimalCalc.Json.Codec
import DecimalCalc.Proofs.Calculator.Agreement
import DecimalCalc.Proofs.Calculator.Formatting
import DecimalCalc.Proofs.Decimal.Fixed96
import DecimalCalc.Proofs.Decimal.Point
import DecimalCalc.Proofs.Decimal.Session
import DecimalCalc.Proofs.Digits.Accumulator
import DecimalCalc.Proofs.Digits.RepeatedSubtraction
import DecimalCalc.Proofs.Expression.AuditTrail
import DecimalCalc.Proofs.Expression.Depth
import DecimalCalc.Proofs.Expression.Display
import DecimalCalc.Proofs.Expression.FactorsFirst
import DecimalCalc.Proofs.Expression.Lifting
import DecimalCalc.Proofs.Expression.Misplaced
import DecimalCalc.Proofs.Expression.OnePass
import DecimalCalc.Proofs.Expression.Refusal
import DecimalCalc.Proofs.Expression.Reordering
import DecimalCalc.Proofs.Expression.Spacing
import DecimalCalc.Proofs.Expression.Substitution
import DecimalCalc.Proofs.Expression.Transcript
import DecimalCalc.Proofs.Format.Grouping
import DecimalCalc.Proofs.Format.Money
import DecimalCalc.Proofs.Format.Padding
import DecimalCalc.Proofs.Format.Rounding
import DecimalCalc.Proofs.Json.RoundTrip
import DecimalCalc.Proofs.NumberText.Arithmetic
import DecimalCalc.Proofs.NumberText.Division
import DecimalCalc.Proofs.NumberText.Order
import DecimalCalc.Text.Padding
import DecimalCalc.Proofs.Digits.Checked
