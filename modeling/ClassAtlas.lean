import ClassAtlas.DependencyMap.Session
import ClassAtlas.Graph.Session
import ClassAtlas.Main
import ClassAtlas.Proofs.ClassFile.References
import ClassAtlas.Proofs.ClassFile.Streaming
import ClassAtlas.Proofs.DependencyMap.Cycles
import ClassAtlas.Proofs.DependencyMap.Ground
import ClassAtlas.Proofs.DependencyMap.Report
import ClassAtlas.Proofs.DependencyMap.History
import ClassAtlas.Proofs.DependencyMap.Staleness
import ClassAtlas.Proofs.DependencyMap.Agreement
import ClassAtlas.Proofs.DependencyMap.OrderFree
import ClassAtlas.Proofs.Survey.Pool
import ClassAtlas.Proofs.Survey.Result
import ClassAtlas.Proofs.CommandLine.Scan
import ClassAtlas.Proofs.DependencyMap.Merges
import ClassAtlas.Proofs.ClassFile.ModifiedUtf8
import ClassAtlas.Proofs.ClassFile.Descriptor
import ClassAtlas.Proofs.Sources.Container
import ClassAtlas.Proofs.Survey.Container
import ClassAtlas.Proofs.DependencyMap.Components
import ClassAtlas.Proofs.Sources.Damage
import ClassAtlas.Proofs.Survey.Isolation
import ClassAtlas.Proofs.Survey.Damage
import ClassAtlas.Proofs.Graph.AnyOrder
import ClassAtlas.Proofs.DependencyMap.AnyOrder
import ClassAtlas.Proofs.Survey.Workers
import ClassAtlas.Proofs.DependencyMap.DistinctCycles
import ClassAtlas.Proofs.Graph.Notification
import ClassAtlas.Proofs.DependencyMap.ReportEntries
import ClassAtlas.Proofs.Report.Reading
import ClassAtlas.Proofs.CommandLine.Listing
import ClassAtlas.Proofs.DependencyMap.FirstAnswer
import ClassAtlas.Proofs.Graph.Worklist
import ClassAtlas.Proofs.DependencyMap.Confinement
