import DoctypeProbe.CommandLine.Run
import DoctypeProbe.Main
import DoctypeProbe.Source.Faulty
import DoctypeProbe.Source.Metered
import DoctypeProbe.Source.Stream
import DoctypeProbe.Proofs.Source.Delivery
import DoctypeProbe.Proofs.Text.LineReader
import DoctypeProbe.Proofs.Detector.Scan
import DoctypeProbe.Proofs.Bytes.Search
import DoctypeProbe.Proofs.Detector.Mode
import DoctypeProbe.Proofs.Comment.Automaton
import DoctypeProbe.Proofs.Comment.Scanner
import DoctypeProbe.Proofs.Comment.Grammar
import DoctypeProbe.Proofs.Text.Decoding
import DoctypeProbe.Proofs.Comment.Content
import DoctypeProbe.Proofs.Comment.Extent
import DoctypeProbe.Proofs.Comment.Layout
import DoctypeProbe.Proofs.Detector.Line
import DoctypeProbe.Proofs.Detector.Declaration
import DoctypeProbe.Proofs.Source.Record
import DoctypeProbe.Proofs.Source.Breaking
import DoctypeProbe.Proofs.Text.Segments
import DoctypeProbe.Proofs.Text.Gathering
import DoctypeProbe.Proofs.Text.Calls
import DoctypeProbe.Proofs.Text.Place
import DoctypeProbe.Proofs.Text.Provenance
import DoctypeProbe.Proofs.Detector.Advance
import DoctypeProbe.Proofs.Detector.Forward
import DoctypeProbe.Proofs.Detector.Transparency
import DoctypeProbe.Proofs.Text.Utf8
import DoctypeProbe.Proofs.Detector.Charsets
import DoctypeProbe.Proofs.Detector.Run
import DoctypeProbe.Proofs.Detector.Reads
import DoctypeProbe.Proofs.Source.Trace
import DoctypeProbe.Proofs.Detector.Ownership
import DoctypeProbe.Proofs.Keyed
import DoctypeProbe.Proofs.Number.Numeral
import DoctypeProbe.Proofs.Text.Document
import DoctypeProbe.Proofs.Bytes.Fields
import DoctypeProbe.Proofs.Toml.Reading
import DoctypeProbe.Proofs.Toml.LineEnds
import DoctypeProbe.Proofs.Toml.Tables
import DoctypeProbe.Proofs.Toml.Writing
import DoctypeProbe.Proofs.Toml.Effects
import DoctypeProbe.Proofs.Toml.Assignments
import DoctypeProbe.Proofs.Toml.RoundTrip
import DoctypeProbe.Proofs.Settings.Attempts
import DoctypeProbe.Proofs.Settings.Layering
import DoctypeProbe.Proofs.Settings.InForce
import DoctypeProbe.Proofs.Path
import DoctypeProbe.Proofs.FileSystem
import DoctypeProbe.Proofs.FileSystem.Opening
import DoctypeProbe.Proofs.Log.Calls
import DoctypeProbe.Proofs.Log.Delivery
import DoctypeProbe.Proofs.Detector.AtPath
import DoctypeProbe.Proofs.Loader
import DoctypeProbe.Proofs.Loader.Rules
import DoctypeProbe.Proofs.Loader.Resolution
import DoctypeProbe.Proofs.CommandLine.Arguments
import DoctypeProbe.Proofs.CommandLine.Session
import DoctypeProbe.Proofs.CommandLine.Records
import DoctypeProbe.Proofs.CommandLine.Preparation
import DoctypeProbe.Proofs.CommandLine.Memory
import DoctypeProbe.Proofs.CommandLine.Ending
import DoctypeProbe.Proofs.CommandLine.Remembering
import DoctypeProbe.Proofs.CommandLine.SharedInput
import DoctypeProbe.Proofs.Text.WellFormed
import DoctypeProbe.Proofs.Detector.Letters
import DoctypeProbe.Proofs.Toml.Comments
import DoctypeProbe.Proofs.Toml.Sections
import DoctypeProbe.Proofs.Number.Decimal
import DoctypeProbe.Proofs.Toml.Numbers
import DoctypeProbe.Proofs.Toml.Readings
import DoctypeProbe.Proofs.Toml.FaultPlaces
import DoctypeProbe.Proofs.Toml.FaultValues
import DoctypeProbe.Proofs.Toml.FaultLines
import DoctypeProbe.Proofs.Toml.Integers
import DoctypeProbe.Proofs.CommandLine.SettingsFile
import DoctypeProbe.Proofs.Settings.Mistyped
import DoctypeProbe.Proofs.Log.Rendering
import DoctypeProbe.Proofs.Log.Stream
import DoctypeProbe.Proofs.CommandLine.BufferSize
import DoctypeProbe.Proofs.CommandLine.Grammar
import DoctypeProbe.Proofs.Loader.Finding
import DoctypeProbe.Proofs.Loader.Relative
import DoctypeProbe.Proofs.Loader.Searching
import DoctypeProbe.Proofs.Resource.SingleUse
import DoctypeProbe.Proofs.Resource.Length
import DoctypeProbe.Proofs.Source.Interchange
import DoctypeProbe.Proofs.Text.Joining
import DoctypeProbe.Proofs.Toml.Lookups
