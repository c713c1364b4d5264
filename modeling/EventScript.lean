import EventScript.CommandLine.Run
import EventScript.Main
import EventScript.Json.Grammar
import EventScript.Csv.Grammar
import EventScript.Proofs.Outcome
import EventScript.Proofs.RecordRoundTrip
import EventScript.Proofs.ScriptRoundTrip
import EventScript.Proofs.CorruptScripts
import EventScript.Proofs.Compiling
import EventScript.Proofs.EarliestFault
import EventScript.Proofs.Replacement
import EventScript.Proofs.Building
import EventScript.Proofs.Destinations
import EventScript.Proofs.OneEntry
import EventScript.Proofs.CommandLineRuns
import EventScript.Proofs.BuildChecks
import EventScript.Proofs.CommandLineReading
import EventScript.Proofs.Diagnostics
import EventScript.Proofs.Sessions
import EventScript.Proofs.Utf8RoundTrip
import EventScript.Proofs.JsonTokens
import EventScript.Proofs.JsonReading
import EventScript.Proofs.JsonTokensSpelled
import EventScript.Proofs.JsonSpelled
import EventScript.Proofs.JsonWriting
import EventScript.Proofs.OneLine
import EventScript.Proofs.FaultReports
import EventScript.Proofs.CsvReading
import EventScript.Proofs.CsvRows
import EventScript.Proofs.TableFormats
import EventScript.Proofs.RenderedRecords
import EventScript.Proofs.JudgedRows
import EventScript.Proofs.CsvLines
import EventScript.Proofs.JsonRefusing
import EventScript.Proofs.RepeatedKeys
import EventScript.Proofs.NumberTimers
import EventScript.Proofs.TextTimers
import EventScript.Proofs.LeftmostFault
import EventScript.Proofs.IntegerLiterals
import EventScript.Proofs.IntegerTimers
import EventScript.Proofs.ArgumentLists
import EventScript.Proofs.GivenTexts
import EventScript.Proofs.WorkDirectory
import EventScript.Proofs.Rebuilding
import EventScript.Proofs.HeaderTags
import EventScript.Proofs.OutputPaths
import EventScript.Proofs.JsonPlaces
import EventScript.Proofs.TablePlaces
import EventScript.Proofs.QuotedIntegers
import EventScript.Proofs.OptionOrder
