import TlsProbe.Classifier.Theorems.Padding
import TlsProbe.Classifier.Theorems.Retransmission
import TlsProbe.Container.Theorems.Paths
import TlsProbe.Container.Theorems.Resolver
import TlsProbe.Correlator.Theorems.MutualTls
import TlsProbe.Correlator.Theorems.Outcomes
import TlsProbe.Correlator.Theorems.Sweep
import TlsProbe.Ebpf.Theorems.Transport
import TlsProbe.Event.Theorems.Ja4
import TlsProbe.Event.Theorems.Line
import TlsProbe.Event.Theorems.Versions
import TlsProbe.Interfaces.Theorems.Start
import TlsProbe.Listeners.Theorems.Table
import TlsProbe.Parser.Theorems.Lists
import TlsProbe.Parser.Theorems.Scans
import TlsProbe.Probe.Theorems.Shutdown
import TlsProbe.Process.Theorems.Agreement
import TlsProbe.Reassembler.Theorems.Bounds
import TlsProbe.Reassembler.Theorems.Completeness
import TlsProbe.Reassembler.Theorems.Conservation
import TlsProbe.Reassembler.Theorems.Eviction
import TlsProbe.Reassembler.Theorems.Isolation
import TlsProbe.Reassembler.Theorems.Overlap
import TlsProbe.Reassembler.Theorems.Renewal
import TlsProbe.Reassembler.Theorems.Translation
import TlsProbe.Reassembler.Theorems.Truncation
import TlsProbe.Spool.Theorems.Conservation
import TlsProbe.Spool.Theorems.Delivery
import TlsProbe.Spool.Theorems.Oldest
import TlsProbe.Spool.Theorems.Sessions
import TlsProbe.Spool.Theorems.Thread
import TlsProbe.System.Theorems.Attribution
import TlsProbe.Worker.Theorems.Conformance
import TlsProbe.Worker.Theorems.Failures
import TlsProbe.Worker.Theorems.HelloFields
import TlsProbe.Worker.Theorems.Isolation
import TlsProbe.Worker.Theorems.MutualTls
import TlsProbe.Worker.Theorems.RecordWalk
import TlsProbe.Worker.Theorems.Suppression
import TlsProbe.Worker.Theorems.Vantage
