import ResourceQuery.Check
import ResourceQuery.Command.Answer
import ResourceQuery.Main
import ResourceQuery.Parser
import ResourceQuery.Query.Document
import ResourceQuery.Token.Listing
import ResourceQuery.Proofs.Grammar.FirstFault
import ResourceQuery.Proofs.Reading.Trace
import ResourceQuery.Proofs.Token.Classification
import ResourceQuery.Proofs.Writing.RoundTrip
import ResourceQuery.Proofs.Token.Cut
import ResourceQuery.Proofs.Token.Segmentation
import ResourceQuery.Proofs.Query.Nodes
import ResourceQuery.Proofs.Query.WellFormed
import ResourceQuery.Proofs.Grammar.Spot
import ResourceQuery.Proofs.Grammar.Fault
import ResourceQuery.Proofs.Query.Form
import ResourceQuery.Proofs.Reading.Alike
import ResourceQuery.Proofs.Reading.Kinds
import ResourceQuery.Proofs.Token.Joining
import ResourceQuery.Proofs.Reading.Positions
import ResourceQuery.Proofs.Reading.Resumption
import ResourceQuery.Proofs.Reading.Closed
import ResourceQuery.Proofs.Reading.Series
import ResourceQuery.Proofs.Writing.Combining
import ResourceQuery.Proofs.Reading.Asking
import ResourceQuery.Proofs.Reading.Mishap
import ResourceQuery.Proofs.Query.Infinities
import ResourceQuery.Proofs.Query.Decoding
import ResourceQuery.Proofs.Reading.Shortening
import ResourceQuery.Proofs.Reading.Nesting
import ResourceQuery.Proofs.Reading.Recursion
import ResourceQuery.Proofs.Writing.NumeralValues
import ResourceQuery.Proofs.Query.Contents
import ResourceQuery.Proofs.Writing.Integers
import ResourceQuery.Proofs.Json.Spacing
import ResourceQuery.Proofs.Text.Lines
import ResourceQuery.Proofs.Reading.Guards
import ResourceQuery.Proofs.Command.Presenting
import ResourceQuery.Proofs.Token.Listing
import ResourceQuery.Proofs.Query.Equality
import ResourceQuery.Proofs.Token.Meeting
import ResourceQuery.Proofs.Command.Line
import ResourceQuery.Proofs.Command.Agreement
