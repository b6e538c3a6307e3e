import ScriptRegistry.Algorithm.Basic
import ScriptRegistry.Algorithm.Format
import ScriptRegistry.Algorithm.Record
import ScriptRegistry.Algorithm.Sample
import ScriptRegistry.Algorithm.Submission
import ScriptRegistry.Artifact.Digest
import ScriptRegistry.Artifact.Key
import ScriptRegistry.Artifact.Sha256
import ScriptRegistry.Decimal.Shortest
import ScriptRegistry.Json.Decoder
import ScriptRegistry.Json.Fault
import ScriptRegistry.Json.Reader
import ScriptRegistry.Json.Value
import ScriptRegistry.Json.Writer
import ScriptRegistry.Proofs.Catalog
import ScriptRegistry.Proofs.Program
import ScriptRegistry.Source.Analysis
import ScriptRegistry.Source.ClassDecl
import ScriptRegistry.Source.Import
import ScriptRegistry.Source.Piece
import ScriptRegistry.Source.Policy
import ScriptRegistry.Store.Artifacts
import ScriptRegistry.Store.Backend
import ScriptRegistry.Store.Catalog
import ScriptRegistry.Store.Disturbance
import ScriptRegistry.Store.Error
import ScriptRegistry.Store.FileTree
import ScriptRegistry.Store.Operation
import ScriptRegistry.Store.Place
import ScriptRegistry.Store.Program
import ScriptRegistry.Text.Blank
import ScriptRegistry.Text.Pattern
import ScriptRegistry.Text.Quoted
import ScriptRegistry.Text.Segment
import ScriptRegistry.Text.Utf8
import ScriptRegistry.Text.Word
import ScriptRegistry.Time.Moment
import ScriptRegistry.Time.Reader
import ScriptRegistry.Transport.Base64
import ScriptRegistry.Transport.Payload
import ScriptRegistry.Validation.Algorithm
import ScriptRegistry.Validation.Name
import ScriptRegistry.Validation.Objection
import ScriptRegistry.Validation.Request
import ScriptRegistry.Validation.Rule
import ScriptRegistry.Web.Failure
import ScriptRegistry.Web.Server
import ScriptRegistry.Web.Service
import ScriptRegistry.Web.Settings
import ScriptRegistry.Web.Target
import ScriptRegistry.Proofs.Interleaving
import ScriptRegistry.Proofs.Utf8
import ScriptRegistry.Proofs.FileTree
import ScriptRegistry.Proofs.Keys
import ScriptRegistry.Proofs.Texts
import ScriptRegistry.Proofs.Ledger
import ScriptRegistry.Proofs.Backend
import ScriptRegistry.Proofs.Refinement
import ScriptRegistry.Proofs.Document
import ScriptRegistry.Proofs.Submission
import ScriptRegistry.Proofs.Judging
import ScriptRegistry.Proofs.Vetting
import ScriptRegistry.Proofs.Session
import ScriptRegistry.Proofs.Matching
import ScriptRegistry.Proofs.ImportLine
import ScriptRegistry.Proofs.Refusing
import ScriptRegistry.Proofs.Stripping
import ScriptRegistry.Proofs.Assignment
import ScriptRegistry.Proofs.Conversion
import ScriptRegistry.Proofs.Correspondence
import ScriptRegistry.Proofs.Depot
import ScriptRegistry.Proofs.Deeds
import ScriptRegistry.Proofs.Keeping
import ScriptRegistry.Proofs.Faults
import ScriptRegistry.Proofs.Lexing
import ScriptRegistry.Proofs.Evasion
import ScriptRegistry.Proofs.Reading
import ScriptRegistry.Proofs.Answering
import ScriptRegistry.Proofs.Lexemewise
import ScriptRegistry.Proofs.Creation
import ScriptRegistry.Proofs.Succession
import ScriptRegistry.Proofs.Atomicity
import ScriptRegistry.Proofs.Moments
import ScriptRegistry.Proofs.Writing
import ScriptRegistry.Proofs.Spelling
import ScriptRegistry.Proofs.Decoding
import ScriptRegistry.Proofs.Digest
import ScriptRegistry.Proofs.RoundTrip
import ScriptRegistry.Proofs.ImportGrammar
import ScriptRegistry.Proofs.BaseList
import ScriptRegistry.Proofs.Declaration
import ScriptRegistry.Proofs.Derivation
import ScriptRegistry.Proofs.Attempts
import ScriptRegistry.Proofs.Contention
import ScriptRegistry.Proofs.Payload
import ScriptRegistry.Proofs.Problems
import ScriptRegistry.Proofs.Registration
import ScriptRegistry.Proofs.RecordSet
import ScriptRegistry.Proofs.Components
import ScriptRegistry.Proofs.Confinement
import ScriptRegistry.Proofs.TextMap
import ScriptRegistry.Proofs.Splitting
