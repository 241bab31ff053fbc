import ReminderExpr.Main
import ReminderExpr.Session
import ReminderExpr.Proofs.Halting
import ReminderExpr.Proofs.StackDiscipline
import ReminderExpr.Proofs.DescentAgreement
import ReminderExpr.Proofs.RecursionGuard
import ReminderExpr.Proofs.ConstantFunctions
import ReminderExpr.Proofs.Independence
import ReminderExpr.Proofs.Peaks
import ReminderExpr.Proofs.History
import ReminderExpr.Proofs.Terminators
import ReminderExpr.Proofs.Rendering
import ReminderExpr.Proofs.StackDemand
import ReminderExpr.Proofs.FailedSteps
import ReminderExpr.Proofs.Settings
import ReminderExpr.Proofs.DayBounds
import ReminderExpr.Proofs.VariableTable
import ReminderExpr.Proofs.FunctionTable
import ReminderExpr.Proofs.Interference
import ReminderExpr.Proofs.CivilDates
import ReminderExpr.Proofs.DateGrammar
import ReminderExpr.Proofs.LiteralReading
import ReminderExpr.Proofs.RoundTrips
import ReminderExpr.Proofs.DistinctTexts
import ReminderExpr.Proofs.LiteralSpelling
import ReminderExpr.Proofs.Shifts
import ReminderExpr.Proofs.ValueOrder
import ReminderExpr.Proofs.DateParts
import ReminderExpr.Proofs.Occurrences
import ReminderExpr.Proofs.Substrings
import ReminderExpr.Proofs.SameTokens
import ReminderExpr.Proofs.ArgumentReading
import ReminderExpr.Proofs.CallsOnWords
import ReminderExpr.Proofs.Triggers
import ReminderExpr.Proofs.EasterFeasts
import ReminderExpr.Proofs.TextPartition
import ReminderExpr.Proofs.LexerOnBytes
import ReminderExpr.Proofs.NameMatching
import ReminderExpr.Proofs.TableReach
