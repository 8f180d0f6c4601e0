import Reclass.Act
import Reclass.Agent
import Reclass.Archive.Inflate
import Reclass.Archive.Zip
import Reclass.Bytes
import Reclass.Cache.Dump
import Reclass.Cache.Error
import Reclass.Cache.Key
import Reclass.Cache.Store
import Reclass.Checksum
import Reclass.ClassFile.Access
import Reclass.ClassFile.Basic
import Reclass.ClassFile.Builder
import Reclass.ClassFile.ConstantPool
import Reclass.ClassFile.Error
import Reclass.ClassFile.Header
import Reclass.ClassFile.Reader
import Reclass.ClassName
import Reclass.ClassPath.Basic
import Reclass.ClassPath.Host
import Reclass.ClassPath.Ignore
import Reclass.ClassPath.Read
import Reclass.ClassPath.Universe
import Reclass.CommandLine.Execute
import Reclass.CommandLine.LogDirective
import Reclass.CommandLine.LogFilter
import Reclass.CommandLine.Options
import Reclass.CommandLine.Parse
import Reclass.CommandLine.Report
import Reclass.CommandLine.Resolve
import Reclass.DeleterAgent
import Reclass.Event
import Reclass.Files.Change
import Reclass.Files.Error
import Reclass.Files.Path
import Reclass.Files.System
import Reclass.Files.Tree
import Reclass.Hierarchy.Assignability
import Reclass.Hierarchy.Descriptor
import Reclass.Hierarchy.Memory
import Reclass.Hierarchy.Resolver
import Reclass.Hierarchy.Source
import Reclass.Loader
import Reclass.Main
import Reclass.Redefinition.Host
import Reclass.Redefinition.Memory
import Reclass.Redefinition.Run
import Reclass.Settings.Arguments
import Reclass.SortedMap
import Reclass.Text.Alphanumeric
import Reclass.Text.CodePage437
import Reclass.Text.Decimal
import Reclass.Text.Hidden
import Reclass.Text.Json
import Reclass.Text.ModifiedUtf8
import Reclass.Text.Pattern
import Reclass.Text.Pattern.Notation
import Reclass.Text.Quoted
import Reclass.Text.Split
import Reclass.Text.Utf8
import Reclass.Transform.Caching
import Reclass.Transform.Deleter
import Reclass.Transform.Request
import Reclass.Proofs.ClassFile.Reading
import Reclass.Proofs.ClassFile.RoundTrip
import Reclass.Proofs.ClassFile.Methods
import Reclass.Proofs.Act
import Reclass.Proofs.Transform.Refinement
import Reclass.Proofs.Hierarchy.Ancestry
import Reclass.Proofs.Hierarchy.Invariant
import Reclass.Proofs.Hierarchy.Assignability
import Reclass.Proofs.Hierarchy.History
import Reclass.Proofs.ClassPath.Host
import Reclass.Proofs.Redefinition.Pass
import Reclass.Proofs.Redefinition.Agreement
import Reclass.Proofs.Redefinition.Failure
import Reclass.Proofs.Redefinition.Record
import Reclass.Proofs.Redefinition.Ledger
import Reclass.Proofs.Redefinition.Convergence
import Reclass.Proofs.Redefinition.Modes
import Reclass.Proofs.Files.Places
import Reclass.Proofs.Cache.Disk
import Reclass.Proofs.ClassFile.Header
import Reclass.Proofs.Hierarchy.Bounds
import Reclass.Proofs.ClassPath.Ancestry
import Reclass.Proofs.Redefinition.Lockstep
import Reclass.Proofs.DeleterAgent.Reuse
import Reclass.Proofs.ClassPath.History
import Reclass.Proofs.Hierarchy.Memoization
import Reclass.Proofs.Hierarchy.SideBySide
import Reclass.Proofs.Hierarchy.Termination
import Reclass.Proofs.DeleterAgent.Effect
import Reclass.Proofs.Cache.Refinement
import Reclass.Proofs.Files.Effects
import Reclass.Proofs.Files.Elsewhere
import Reclass.Proofs.ClassPath.Export
import Reclass.Proofs.ClassPath.Exportable
import Reclass.Proofs.Cache.Isolation
import Reclass.Proofs.Files.Listing
import Reclass.Proofs.SortedMap
import Reclass.Proofs.ClassPath.Names
import Reclass.Proofs.ClassPath.ReadBack
import Reclass.Proofs.ClassPath.Roots
import Reclass.Proofs.Cache.Retention
import Reclass.Proofs.ClassPath.Delegation
import Reclass.Proofs.Transform.Stock
import Reclass.Proofs.DeleterAgent.Warmup
import Reclass.Proofs.DeleterAgent.SideBySide
import Reclass.Proofs.DeleterAgent.Coverage
import Reclass.Proofs.ClassFile.Views
import Reclass.Proofs.Transform.Deletion
import Reclass.Proofs.ClassFile.Interning
import Reclass.Proofs.ClassFile.Sketch
import Reclass.Proofs.ClassPath.Loaders
import Reclass.Proofs.Redefinition.Batch
import Reclass.Proofs.ClassPath.Platform
import Reclass.Proofs.Transform.Once
import Reclass.Proofs.Cache.Once
import Reclass.Proofs.Transform.Lockstep
import Reclass.Proofs.Cache.Atomicity
import Reclass.Proofs.Transform.Counts
import Reclass.Proofs.Redefinition.Report
import Reclass.Proofs.Cache.Mirror
import Reclass.Proofs.ClassFile.Truncation
import Reclass.Proofs.Text.Pieces
import Reclass.Proofs.Hierarchy.Links
import Reclass.Proofs.Hierarchy.Preorder
import Reclass.Proofs.Hierarchy.Slots
import Reclass.Proofs.Cache.Names
import Reclass.Proofs.Settings.Arguments
import Reclass.Proofs.ClassFile.Faults
import Reclass.Proofs.ClassFile.Numbering
