import LazyGL.Binding.Artifact
import LazyGL.Binding.CallSurface
import LazyGL.Binding.Constant
import LazyGL.Binding.Declaration
import LazyGL.Binding.Primitive
import LazyGL.Binding.Resolver
import LazyGL.Binding.Target
import LazyGL.CommandLine
import LazyGL.Generation
import LazyGL.Host
import LazyGL.Log
import LazyGL.Main
import LazyGL.Markup.Entity
import LazyGL.Markup.Event
import LazyGL.Markup.Fault
import LazyGL.Markup.Tag
import LazyGL.Markup.Transcript
import LazyGL.Markup.Written
import LazyGL.Numeral
import LazyGL.Ordered.Map
import LazyGL.Ordered.Set
import LazyGL.Proofs.Reading.Agreement
import LazyGL.Proofs.Reading.Tree
import LazyGL.Proofs.Reading.Walk
import LazyGL.Reading.Document
import LazyGL.Reading.Draft
import LazyGL.Reading.Fault
import LazyGL.Reading.Scope
import LazyGL.Registry.Availability
import LazyGL.Registry.Basic
import LazyGL.Registry.Census
import LazyGL.Registry.Identifier
import LazyGL.Registry.Literal
import LazyGL.Registry.Normal
import LazyGL.Storage.Buffer
import LazyGL.Storage.Disk
import LazyGL.Storage.Path
import LazyGL.Text.Blank
import LazyGL.Text.Encoding
import LazyGL.Text.Extending
import LazyGL.Text.Front
import LazyGL.Text.Invisible
import LazyGL.Text.Quoted
import LazyGL.Text.Utf8
import LazyGL.Workspace
import LazyGL.Writer
import LazyGL.Proofs.Reading.Descent
import LazyGL.Proofs.Numeral
import LazyGL.Proofs.Registry.Literal
import LazyGL.Proofs.Registry.Normal
import LazyGL.Proofs.Binding.Constant
import LazyGL.Proofs.Binding.TagTable
import LazyGL.Proofs.Binding.Resolver
import LazyGL.Proofs.Registry.WellFormed
import LazyGL.Proofs.Reading.Invariant
import LazyGL.Proofs.Markup.Prefix
import LazyGL.Proofs.Reading.Forest
import LazyGL.Proofs.Reading.Truncation
import LazyGL.Proofs.Reading.Pending
import LazyGL.Proofs.Storage.Buffer
import LazyGL.Proofs.Generation
import LazyGL.Proofs.Binding.CallSurface
import LazyGL.Proofs.Registry.Conservation
import LazyGL.Proofs.Binding.Rearrangement
import LazyGL.Proofs.Reading.Remarks
import LazyGL.Proofs.Binding.Groups
import LazyGL.Proofs.Binding.Overflow
import LazyGL.Proofs.Binding.Distinct
import LazyGL.Proofs.Reading.Sections
import LazyGL.Proofs.Reading.Alike
import LazyGL.Proofs.Reading.Layout
import LazyGL.Proofs.Binding.Script
import LazyGL.Proofs.Binding.Emission
import LazyGL.Proofs.Binding.Sink
import LazyGL.Proofs.Reading.SelfClosed
import LazyGL.Proofs.Binding.Declarator
import LazyGL.Proofs.Binding.Untyped
import LazyGL.Proofs.Digits
import LazyGL.Proofs.Registry.Grammar
import LazyGL.Proofs.Reading.Entries
import LazyGL.Proofs.Registry.CanonicalForm
import LazyGL.Proofs.Binding.Slices
import LazyGL.Proofs.Binding.Guesses
import LazyGL.Proofs.Registry.GroupRepair
import LazyGL.Proofs.Binding.VersionTag
import LazyGL.Proofs.Reading.Progress
import LazyGL.Proofs.CommandLine
