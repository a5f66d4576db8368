import SidecarIndex.Index.Catalog
import SidecarIndex.Main
import SidecarIndex.Proofs.OrderedMap
import SidecarIndex.Proofs.Outcome
import SidecarIndex.Proofs.Registry
import SidecarIndex.Proofs.Document.Shape
import SidecarIndex.Proofs.Document.Problems
import SidecarIndex.Proofs.Index.Catalog
import SidecarIndex.Proofs.Index.Session
import SidecarIndex.Proofs.Index.InPlace
import SidecarIndex.Proofs.Index.Aliasing
import SidecarIndex.Proofs.Index.Rebuild
import SidecarIndex.Proofs.Json.Number
import SidecarIndex.Proofs.Document.RoundTrip
import SidecarIndex.Proofs.Editing
import SidecarIndex.Proofs.Query.Grammar
import SidecarIndex.Proofs.Query.Conjunction
import SidecarIndex.Proofs.Index.Completion
import SidecarIndex.Proofs.FileTree.Outline
import SidecarIndex.Proofs.FileTree.Replace
import SidecarIndex.Proofs.Store.Load
import SidecarIndex.Proofs.Store.Note
import SidecarIndex.Proofs.Store.Session
import SidecarIndex.Proofs.Store.Check
import SidecarIndex.Proofs.Path.Normalized
import SidecarIndex.Proofs.Store.Assign
import SidecarIndex.Proofs.Store.Shown
import SidecarIndex.Proofs.Store.Listed
import SidecarIndex.Proofs.Registry.Conflict
import SidecarIndex.Proofs.Index.Reload
import SidecarIndex.Proofs.FileTree.Way
import SidecarIndex.Proofs.FileTree.Spelling
import SidecarIndex.Proofs.Store.Spelling
import SidecarIndex.Proofs.FileTree.Overwrite
import SidecarIndex.Proofs.FileTree.Found
import SidecarIndex.Proofs.Store.Links
import SidecarIndex.Proofs.Timestamp.Order
import SidecarIndex.Proofs.Query.Operators
import SidecarIndex.Proofs.Query.Thresholds
import SidecarIndex.Proofs.Registry.EntryOrder
import SidecarIndex.Proofs.Index.Independent
import SidecarIndex.Proofs.Readings
import SidecarIndex.Proofs.Editing.Inference
import SidecarIndex.Proofs.Store.Scan
import SidecarIndex.Proofs.Path.After
import SidecarIndex.Proofs.Store.Naming
import SidecarIndex.Proofs.FileTree.Frame
import SidecarIndex.Proofs.Store.Write
import SidecarIndex.Proofs.Editing.Decoration
import SidecarIndex.Proofs.Timestamp.Range
import SidecarIndex.Proofs.Number.Shown
