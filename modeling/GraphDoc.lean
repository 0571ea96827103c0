import GraphDoc.Coercion
import GraphDoc.Main
import GraphDoc.Proofs.NodeTokens
import GraphDoc.Proofs.Nesting
import GraphDoc.Proofs.Offences
import GraphDoc.Proofs.IntegerText
import GraphDoc.Proofs.Unambiguous
import GraphDoc.Proofs.UnambiguousText
import GraphDoc.Proofs.JsonReading
import GraphDoc.Proofs.RecordReading
import GraphDoc.Proofs.RoundTrip
import GraphDoc.Proofs.RequestBody
import GraphDoc.Proofs.JsonGrammar
import GraphDoc.Proofs.Spelling
import GraphDoc.Proofs.RecordSpelling
import GraphDoc.Proofs.DescriptionSpelling
import GraphDoc.Proofs.Clauses
import GraphDoc.Proofs.WrittenSpelling
import GraphDoc.Proofs.Skeleton
import GraphDoc.Proofs.FunctionCalls
import GraphDoc.Proofs.ExistenceCalls
import GraphDoc.Proofs.ArgumentJoining
import GraphDoc.Proofs.PrintedText
import GraphDoc.Proofs.Histories
import GraphDoc.Proofs.BuilderNormalForm
import GraphDoc.Proofs.CoercedValues
import GraphDoc.Proofs.CoercedText
import GraphDoc.Proofs.RawTexts
import GraphDoc.Proofs.Selection
import GraphDoc.Proofs.AllOrNothing
import GraphDoc.Proofs.FileExtensions
import GraphDoc.Proofs.FilesUnder
import GraphDoc.Proofs.Warnings
import GraphDoc.Proofs.FileSelection
import GraphDoc.Proofs.OutputModes
import GraphDoc.Proofs.LogLevels
import GraphDoc.Proofs.ExtensionSets
import GraphDoc.Proofs.Headers
import GraphDoc.Proofs.FieldReplacement
import GraphDoc.Proofs.Pulling
import GraphDoc.Proofs.CallBodies
import GraphDoc.Proofs.StreamExpressions
